/-!
# A future and its host

What whoever runs a future may do with it: poll it, again after each poll that was pending,
and drop it in the end, between two polls or after the one that was ready. Nothing comes
before the first poll, no two calls overlap, and after `ready` or the drop no poll comes.

`Phase.next` is this as an automaton over the beginnings and ends of the two calls, and
`Phase.run` reads a trace.
-/

namespace Conc.Host

/-- `poll` is called and returns `pending` or `ready`, the drop begins and returns. -/
inductive Event
  | poll
  | pending
  | ready
  | drop
  | dropped
  deriving DecidableEq, Repr

/-- Where a future is with its host. -/
inductive Phase
  | unpolled
  | polling
  | suspended
  | ready
  | dropping
  | dropped
  deriving DecidableEq, Repr

namespace Phase

def next : Phase → Event → Option Phase
  | .unpolled, .poll | .suspended, .poll => some .polling
  | .polling, .pending => some .suspended
  | .polling, .ready => some .ready
  | .suspended, .drop | .ready, .drop => some .dropping
  | .dropping, .dropped => some .dropped
  | _, _ => none

/-- The phase behind a trace, if the host may leave it. -/
def run (p : Phase) : List Event → Option Phase
  | [] => some p
  | e :: es => (p.next e).bind fun p' => run p' es

variable {p : Phase} {es es' : List Event}

theorem run_append : p.run (es ++ es') = (p.run es).bind fun q => q.run es' := by
  induction es generalizing p with
  | nil => rfl
  | cons e es ih =>
      simp only [List.cons_append, run]
      cases p.next e with
      | none => rfl
      | some p' => exact ih

/-- Every event leads on from `unpolled`. -/
theorem eq_nil_of_unpolled (run : p.run es = some .unpolled) : es = [] := by
  induction es generalizing p with
  | nil => rfl
  | cons e es ih =>
      obtain ⟨p', next, rest⟩ := Option.bind_eq_some_iff.mp run
      rw [ih rest] at rest
      cases rest
      cases p <;> cases e <;> cases next

end Phase

end Conc.Host
