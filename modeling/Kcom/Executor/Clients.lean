import Mathlib.Data.Nat.Notation

/-!
# What clients of a task own

Both executors hand out wakers and cancellation handles. Clients own them as
entries of a list that a call names by index, so that an index stays the name of
one waker or handle for the whole run.
-/

namespace Kcom

/-- What a client can own. -/
inductive Owner
  | handle
  | waker
  deriving DecidableEq, Repr

/-- Where a borrowed waker or handle lives: with a client, or on the stack of an
activation. -/
inductive Source
  | owner (k : Nat)
  | activation (j : Nat)
  deriving DecidableEq, Repr

end Kcom
