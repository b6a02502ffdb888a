import Mathlib.Logic.Function.Basic

/-!
# `fetch_update` as a loop of atomic steps

`AtomicU32::fetch_update` and its like read the cell once and then try to replace
the value they have seen by `f` of it with a weak compare-exchange, which may fail
for no reason; a failed attempt takes the value it found and tries again. Where `f`
refuses a value the loop ends without a write.

Other threads may move the cell between any two steps of a loop. `UpdateLoop.Next` says
what one step can do all the same: the step that ends the loop applies `f` to what
the cell holds at that moment, and no other step writes.
-/

namespace Conc

/-- How far a `fetch_update` has come: not begun, about to exchange the value it has
seen, or ended with the value that `f` was applied to. -/
inductive UpdateLoop (α : Type)
  | start
  | seen (prev : α)
  | ok (prev : α)
  | err (prev : α)
  deriving DecidableEq, Repr

namespace UpdateLoop

variable {α : Type} {f : α → Option α} {cell cell' : α} {loop loop' : UpdateLoop α} {spurious : Bool}

/-- The loop has not returned. -/
def running : UpdateLoop α → Bool
  | .start => true
  | .seen _ => true
  | _ => false

/-- What the loop does with a value it has read. -/
def examine (f : α → Option α) (prev : α) : UpdateLoop α :=
  match f prev with
  | some _ => .seen prev
  | none => .err prev

/-- One step of the loop: the load, or an attempt to exchange, which fails when the
cell has moved on and may fail spuriously. -/
def step [DecidableEq α] (f : α → Option α) (spurious : Bool) (cell : α) :
    UpdateLoop α → Option (UpdateLoop α × α)
  | .start => some (examine f cell, cell)
  | .seen prev =>
      if cell = prev ∧ spurious = false then (f prev).map fun next => (.ok prev, next)
      else some (examine f cell, cell)
  | _ => none

/-- What a step of a loop can do to the cell. -/
inductive Next (f : α → Option α) (cell : α) : UpdateLoop α → α → Prop
  | wait {next : α} (some : f cell = some next) : Next f cell (.seen cell) cell
  | refuse (none : f cell = none) : Next f cell (.err cell) cell
  | update {next : α} (some : f cell = some next) : Next f cell (.ok cell) next

theorem Next.examine (f : α → Option α) (cell : α) : Next f cell (examine f cell) cell := by
  rw [UpdateLoop.examine]
  split
  · exact .wait ‹_›
  · exact .refuse ‹_›

/-- **A loop is one atomic update.** Whatever happened to the cell since its last
step, a step of the loop waits, or refuses or updates what the cell holds now. -/
theorem step_next [DecidableEq α] (next : step f spurious cell loop = some (loop', cell')) :
    Next f cell loop' cell' := by
  cases loop with
  | start =>
      cases next
      exact .examine f cell
  | seen prev =>
      simp only [step] at next
      split at next
      · rename_i unmoved
        obtain ⟨rfl, -⟩ := unmoved
        obtain ⟨value, some, next⟩ := Option.map_eq_some_iff.mp next
        cases next
        exact .update some
      · cases next
        exact .examine f cell
  | ok prev => cases next
  | err prev => cases next

theorem running_of_step [DecidableEq α] (next : step f spurious cell loop = some (loop', cell')) :
    loop.running = true := by
  cases loop <;> first | rfl | cases next

end UpdateLoop

end Conc
