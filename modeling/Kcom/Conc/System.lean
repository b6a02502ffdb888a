import Mathlib.Logic.Function.Basic

/-!
# Runs of a labelled transition system

`Sys` is a transition system whose steps carry a label: `step s a` is the state
after the step `a`, or `none` where `a` is not enabled in `s`. A label names the
actor that moves and every choice the actor leaves to its environment, so that
`step` is a function and a run is a list of labels.

`Sys.Reach G` collects the states of the runs all of whose steps meet the guard
`G`, a condition on the state before the step; `Sys.Reachable` is the case of no
condition. `Reach.invariant` is the induction behind every safety result, and
`Reach.of_exec` places the end of a concrete run.
-/

namespace Conc

/-- A labelled transition system. -/
structure Sys (σ ℓ : Type) where
  start : σ → Prop
  step : σ → ℓ → Option σ

namespace Sys

variable {σ ℓ : Type}

/-- The states of the runs of `S` all of whose steps meet `G`. -/
inductive Reach (S : Sys σ ℓ) (G : σ → ℓ → Prop) : σ → Prop
  | start {s : σ} : S.start s → Reach S G s
  | step {s s' : σ} {a : ℓ} : Reach S G s → G s a → S.step s a = some s' → Reach S G s'

/-- The states of all runs. -/
abbrev Reachable (S : Sys σ ℓ) : σ → Prop :=
  S.Reach fun _ _ => True

variable {S : Sys σ ℓ} {G : σ → ℓ → Prop} {s s' : σ}

/-- What holds at the start and is kept by every step that meets the guard
holds in every state reached. -/
theorem Reach.invariant {I : σ → Prop} (atStart : ∀ s, S.start s → I s)
    (kept : ∀ s a s', I s → G s a → S.step s a = some s' → I s')
    (reached : S.Reach G s) : I s := by
  induction reached with
  | start first => exact atStart _ first
  | step _ guard next ih => exact kept _ _ _ ih guard next

/-- A run under a guard is a run under a weaker one. -/
theorem Reach.mono {G' : σ → ℓ → Prop} (weaker : ∀ s a, G s a → G' s a)
    (reached : S.Reach G s) : S.Reach G' s := by
  induction reached with
  | start first => exact .start first
  | step _ guard next ih => exact .step ih (weaker _ _ guard) next

/-- `S` from the state `s` on. -/
def resume (S : Sys σ ℓ) (s : σ) : Sys σ ℓ where
  start s' := s' = s
  step := S.step

/-- A run and one that goes on from its end. -/
theorem Reach.resume (reached : S.Reach G s) (later : (S.resume s).Reach G s') : S.Reach G s' := by
  induction later with
  | start first =>
      rw [show _ = s from first]
      exact reached
  | step _ guard next ih => exact .step ih guard next

/-- Run a list of labels. -/
def exec (S : Sys σ ℓ) : σ → List ℓ → Option σ
  | s, [] => some s
  | s, a :: as => (S.step s a).bind fun s' => exec S s' as

/-- Run a list of labels, refusing a step that does not meet a decidable guard. -/
def execIf (S : Sys σ ℓ) (G : σ → ℓ → Prop) [∀ s a, Decidable (G s a)] : σ → List ℓ → Option σ
  | s, [] => some s
  | s, a :: as => if G s a then (S.step s a).bind fun s' => execIf S G s' as else none

/-- The end of a concrete run is reachable. -/
theorem Reach.of_exec (as : List ℓ) (reached : S.Reachable s) (run : S.exec s as = some s') :
    S.Reachable s' := by
  induction as generalizing s with
  | nil =>
      cases run
      exact reached
  | cons a as ih =>
      obtain ⟨mid, next, rest⟩ := Option.bind_eq_some_iff.mp run
      exact ih (.step reached trivial next) rest

/-- A concrete run that ends in a state with `P`. -/
theorem Reach.exists_of_exec (P : σ → Prop) [DecidablePred P] (as : List ℓ)
    (reached : S.Reachable s) (found : (S.exec s as).any (fun s => decide (P s)) = true) :
    ∃ s', S.Reachable s' ∧ P s' := by
  cases run : S.exec s as with
  | none =>
      rw [run] at found
      cases found
  | some s' =>
      rw [run] at found
      exact ⟨s', .of_exec as reached run, of_decide_eq_true found⟩

/-- The end of a concrete run whose steps were checked against the guard. -/
theorem Reach.of_execIf [∀ s a, Decidable (G s a)] (as : List ℓ) (reached : S.Reach G s)
    (run : S.execIf G s as = some s') : S.Reach G s' := by
  induction as generalizing s with
  | nil =>
      cases run
      exact reached
  | cons a as ih =>
      rw [execIf] at run
      split at run
      · obtain ⟨mid, next, rest⟩ := Option.bind_eq_some_iff.mp run
        exact ih (.step reached ‹_› next) rest
      · cases run

/-- A concrete run, checked against the guard, that ends in a state with `P`. -/
theorem Reach.exists_of_execIf [∀ s a, Decidable (G s a)] (P : σ → Prop) [DecidablePred P]
    (as : List ℓ) (reached : S.Reach G s)
    (found : (S.execIf G s as).any (fun s => decide (P s)) = true) :
    ∃ s', S.Reach G s' ∧ P s' := by
  cases run : S.execIf G s as with
  | none =>
      rw [run] at found
      cases found
  | some s' =>
      rw [run] at found
      exact ⟨s', .of_execIf as reached run, of_decide_eq_true found⟩

end Sys

end Conc
