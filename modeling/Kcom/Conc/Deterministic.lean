import Mathlib.Logic.Relation

/-!
# Ends of a deterministic machine

A machine that is a partial step function ends in the state from which it has no
step, if it ever gets there. Because the next state is a function of the last one,
a run may be followed to any of its states before asking for the end
(`Ends.of_runs`), and a machine that keeps coming back to states of one kind does not
end on its way (`Ends.of_recurs`).
-/

namespace Conc

open Relation

variable {σ : Type} {step : σ → Option σ} {s s' e e' : σ}

/-- One step. -/
def Steps (step : σ → Option σ) (s s' : σ) : Prop :=
  step s = some s'

/-- Any number of steps. -/
abbrev Runs (step : σ → Option σ) : σ → σ → Prop :=
  ReflTransGen (Steps step)

/-- The machine started in `s` stops in `e`. -/
def Ends (step : σ → Option σ) (s e : σ) : Prop :=
  Runs step s e ∧ step e = none

/-- The state after `n` steps. -/
def runFor (step : σ → Option σ) : Nat → σ → Option σ
  | 0, s => some s
  | n + 1, s => (step s).bind (runFor step n)

/-- A concrete run that comes to a state with `P`. -/
theorem Runs.exists_of_runFor (P : σ → Prop) [DecidablePred P] (n : Nat)
    (found : (runFor step n s).any (fun s => decide (P s)) = true) :
    ∃ s', Runs step s s' ∧ P s' := by
  induction n generalizing s with
  | zero => exact ⟨s, .refl, of_decide_eq_true found⟩
  | succ n ih =>
      cases next : step s with
      | none =>
          rw [runFor, next] at found
          cases found
      | some mid =>
          rw [runFor, next] at found
          obtain ⟨s', runs, holds⟩ := ih found
          exact ⟨s', .head next runs, holds⟩

theorem Ends.of_step (next : step s = some s') (ends : Ends step s e) : Ends step s' e := by
  obtain ⟨runs, stuck⟩ := ends
  refine ⟨?_, stuck⟩
  rcases ReflTransGen.cases_head runs with rfl | ⟨mid, first, rest⟩
  · rw [next] at stuck
    cases stuck
  · have same : some mid = some s' := first.symm.trans next
    obtain rfl := Option.some.inj same
    exact rest

/-- The end of a run is the end from each of its states. -/
theorem Ends.of_runs (runs : Runs step s s') (ends : Ends step s e) : Ends step s' e := by
  induction runs with
  | refl => exact ends
  | tail _ next ih => exact ih.of_step next

/-- A machine stops in one state only. -/
theorem Ends.unique (first : Ends step s e) (second : Ends step s e') : e = e' := by
  have rest := second.of_runs first.1
  rcases ReflTransGen.cases_head rest.1 with rfl | ⟨mid, next, -⟩
  · rfl
  · rw [Steps, first.2] at next
    cases next

/-- From the end backwards every state of a run has a bounded number of steps
left. -/
theorem Ends.acc (ends : Ends step s e) : Acc (fun next now => Steps step now next) s := by
  obtain ⟨runs, stuck⟩ := ends
  induction runs using ReflTransGen.head_induction_on with
  | refl =>
      refine ⟨_, fun next taken => ?_⟩
      rw [Steps, stuck] at taken
      cases taken
  | head first _ ih =>
      refine ⟨_, fun next taken => ?_⟩
      have same : some next = some _ := taken.symm.trans first
      obtain rfl := Option.some.inj same
      exact ih

/-- A machine that from every state with `L` stops with `P` or comes back to a state
with `L` stops with `P`, if it stops. -/
theorem Ends.of_recurs {L P : σ → Prop}
    (recurs : ∀ s, L s → (∃ e, Ends step s e ∧ P e) ∨ ∃ s', TransGen (Steps step) s s' ∧ L s')
    (here : L s) (ends : Ends step s e) : P e := by
  have acc := ends.acc.transGen
  induction acc with
  | intro s _ ih =>
      rcases recurs s here with ⟨e', ends', last⟩ | ⟨s', later, again⟩
      · rwa [ends.unique ends']
      · have back : TransGen (fun next now => Steps step now next) s' s :=
          transGen_swap.mp later
        exact ih s' back again (ends.of_runs later.to_reflTransGen)

end Conc
