import Kcom.Conc.System

/-!
# History variables

A property of runs often speaks of what has happened, which the states of a system
need not remember. `S.withHistory first record` runs `S` and keeps a record beside its
state: each step computes the new record from the state it starts in, its label and
the record so far. The record never blocks a step, so the runs are those of `S`
(`Reach.of_history`), under a guard on the states of `S` or on the record as well.

With the labels as the record, two systems that answer the same calls can be compared:
`Calls` are the runs of a relation that may answer a call in several ways, and
`Reach.exists_calls` is the forward simulation by which the runs of `S` are such runs.
-/

namespace Conc.Sys

variable {σ ℓ η : Type}

/-- `S` with a record of its run. -/
def withHistory (S : Sys σ ℓ) (first : η) (record : σ → ℓ → η → η) : Sys (σ × η) ℓ where
  start p := S.start p.1 ∧ p.2 = first
  step p a := (S.step p.1 a).map fun s' => (s', record p.1 a p.2)

variable {S : Sys σ ℓ} {first : η} {record : σ → ℓ → η → η} {p p' : σ × η} {a : ℓ}

theorem step_history (step : (S.withHistory first record).step p a = some p') :
    S.step p.1 a = some p'.1 ∧ p'.2 = record p.1 a p.2 := by
  obtain ⟨s', next, rfl⟩ := Option.map_eq_some_iff.mp step
  exact ⟨next, rfl⟩

/-- Forgetting the record. -/
theorem Reach.of_history {G : σ × η → ℓ → Prop} {G' : σ → ℓ → Prop}
    (weaker : ∀ p a, G p a → G' p.1 a) (reached : (S.withHistory first record).Reach G p) :
    S.Reach G' p.1 := by
  induction reached with
  | start begins => exact .start begins.1
  | step _ guard next ih => exact .step ih (weaker _ _ guard) (step_history next).1

/-! ## Records of calls -/

/-- `S` with the labels of its run. -/
abbrev recorded (S : Sys σ ℓ) : Sys (σ × List ℓ) ℓ :=
  S.withHistory [] fun _ a calls => calls ++ [a]

/-- The labels that lead from `first` to a state. -/
inductive Calls {τ : Type} (step : τ → ℓ → τ → Prop) (first : τ) : List ℓ → τ → Prop
  | nil : Calls step first [] first
  | snoc {calls : List ℓ} {t t' : τ} {a : ℓ} :
      Calls step first calls t → step t a t' → Calls step first (calls ++ [a]) t'

/-- A relation that every step carries along makes every run a run of the other side. -/
theorem Reach.exists_calls {τ : Type} {step' : τ → ℓ → τ → Prop} {origin : τ} {R : σ → τ → Prop}
    {G : σ → ℓ → Prop} {s : σ} {calls : List ℓ} (atStart : ∀ s, S.start s → R s origin)
    (kept : ∀ s a s' t, R s t → G s a → S.step s a = some s' → ∃ t', R s' t' ∧ step' t a t')
    (reached : S.recorded.Reach (fun p a => G p.1 a) (s, calls)) :
    ∃ t, R s t ∧ Calls step' origin calls t := by
  generalize ends : (s, calls) = p at reached
  induction reached generalizing s calls with
  | start begins =>
      subst ends
      rw [show calls = [] from begins.2]
      exact ⟨origin, atStart _ begins.1, .nil⟩
  | @step p p' a _ guard next ih =>
      subst ends
      obtain ⟨moved, more⟩ := step_history next
      obtain ⟨t, related, run⟩ := ih rfl
      obtain ⟨t', related', answer⟩ := kept _ _ _ _ related guard moved
      rw [show calls = p.2 ++ [a] from more]
      exact ⟨t', related', .snoc run answer⟩

end Conc.Sys
