import Mathlib.Algebra.Ring.Nat

/-!
# Reference counters

`add` and `sub` of `src/refcount.rs`, one atomic step each, in the three builds
that the features `refcount-hardening` and `leaky-hardening` select. The first
component of a result is what the function returns, the second what it leaves in
the `AtomicU32`; `none` is `refcount_violation`, which does not return. Without
hardening the counter wraps, and so does the `+ 1` or `- 1` on what `fetch_add` or
`fetch_sub` returns, in a build without overflow checks.
-/

namespace Kcom

/-- The cargo features that select the implementation. -/
inductive Hardening
  | off
  | hardened
  | leaky
  deriving DecidableEq, Repr

namespace Refcount

/-- `MAX_REFCOUNT`, `i32::MAX`. -/
def maxRefcount : Nat := 2 ^ 31 - 1

/-- `refcount::add`. -/
def add : Hardening → Nat → Option (Nat × Nat)
  | .off, curr => some ((curr + 1) % 2 ^ 32, (curr + 1) % 2 ^ 32)
  | .hardened, curr => if curr ≥ maxRefcount then none else some (curr + 1, curr + 1)
  | .leaky, curr =>
      if curr ≥ maxRefcount then some (maxRefcount, curr) else some (curr + 1, curr + 1)

/-- `refcount::sub`. -/
def sub : Hardening → Nat → Option (Nat × Nat)
  | .off, curr => some ((curr + (2 ^ 32 - 1)) % 2 ^ 32, (curr + (2 ^ 32 - 1)) % 2 ^ 32)
  | .hardened, curr => if curr = 0 then none else some (curr - 1, curr - 1)
  | .leaky, curr => if curr = 0 then some (maxRefcount, curr) else some (curr - 1, curr - 1)

/-- The largest count that `add` reaches by counting. -/
def capacity : Hardening → Nat
  | .off => 2 ^ 32 - 1
  | .hardened => maxRefcount
  | .leaky => maxRefcount

variable {mode : Hardening} {curr : Nat}

/-- Below the capacity `add` counts up by one. -/
theorem add_eq (room : curr < capacity mode) : add mode curr = some (curr + 1, curr + 1) := by
  cases mode with
  | off =>
      have small : (curr + 1) % 2 ^ 32 = curr + 1 := by
        apply Nat.mod_eq_of_lt
        simp only [capacity] at room
        omega
      rw [add, small]
  | hardened =>
      rw [add, if_neg]
      exact Nat.not_le.mpr room
  | leaky =>
      rw [add, if_neg]
      exact Nat.not_le.mpr room

/-- From the capacity on `add` does not count. -/
theorem lt_capacity_of_add {result : Nat} (counts : add mode curr = some (result, curr + 1)) :
    curr < capacity mode := by
  cases mode with
  | off =>
      have wrapped : (curr + 1) % 2 ^ 32 = curr + 1 := (Prod.mk.inj (Option.some.inj counts)).2
      have small := Nat.mod_lt (curr + 1) (y := 2 ^ 32) (by decide)
      simp only [capacity]
      omega
  | hardened =>
      rw [add] at counts
      split at counts
      · cases counts
      · exact Nat.not_le.mp ‹_›
  | leaky =>
      rw [add] at counts
      split at counts
      · have stuck : curr = curr + 1 := (Prod.mk.inj (Option.some.inj counts)).2
        omega
      · exact Nat.not_le.mp ‹_›

/-- Above 0 and up to the capacity `sub` counts down by one. -/
theorem sub_eq (pos : 0 < curr) (room : curr ≤ capacity mode) :
    sub mode curr = some (curr - 1, curr - 1) := by
  have nonzero : curr ≠ 0 := Nat.pos_iff_ne_zero.mp pos
  cases mode with
  | off =>
      have small : (curr + (2 ^ 32 - 1)) % 2 ^ 32 = curr - 1 := by
        simp only [capacity] at room
        omega
      rw [sub, small]
  | hardened => rw [sub, if_neg nonzero]
  | leaky => rw [sub, if_neg nonzero]

/-- The largest number of references that `add` and `sub` keep apart: without
hardening one more than the counter can show, since the wrapped 0 is counted
back down correctly. -/
def limit : Hardening → Nat
  | .off => 2 ^ 32
  | .hardened => maxRefcount
  | .leaky => maxRefcount

/-- What the counter shows of `k` references, up to the limit. -/
def shown : Hardening → Nat → Nat
  | .off, k => k % 2 ^ 32
  | .hardened, k => k
  | .leaky, k => k

theorem add_shown {k : Nat} (room : k < limit mode) :
    add mode (shown mode k) = some (shown mode (k + 1), shown mode (k + 1)) := by
  cases mode with
  | off => simp [add, shown]
  | hardened =>
      rw [shown, add, if_neg]
      · rfl
      · exact Nat.not_le.mpr room
  | leaky =>
      rw [shown, add, if_neg]
      · rfl
      · exact Nat.not_le.mpr room

theorem sub_shown {k : Nat} (pos : 0 < k) :
    sub mode (shown mode k) = some (shown mode (k - 1), shown mode (k - 1)) := by
  have nonzero : k ≠ 0 := Nat.pos_iff_ne_zero.mp pos
  cases mode with
  | off =>
      have back : (k % 2 ^ 32 + (2 ^ 32 - 1)) % 2 ^ 32 = (k - 1) % 2 ^ 32 := by omega
      rw [shown, sub, back]
      rfl
  | hardened =>
      rw [shown, sub, if_neg nonzero]
      rfl
  | leaky =>
      rw [shown, sub, if_neg nonzero]
      rfl

/-- Up to the limit the counter shows 0 for no references only, the limit of the
wrapping counter aside. -/
theorem shown_pos {k : Nat} (pos : 0 < k) (below : k < limit mode) : 0 < shown mode k := by
  cases mode with
  | off =>
      simp only [limit] at below
      simp only [shown]
      omega
  | hardened => exact pos
  | leaky => exact pos

/-- `sub` returns 0 only if it leaves 0. -/
theorem sub_eq_zero {next : Nat} (zero : sub mode curr = some (0, next)) : next = 0 := by
  cases mode with
  | off =>
      obtain ⟨result, left⟩ := Prod.mk.inj (Option.some.inj zero)
      exact left.symm.trans result
  | hardened =>
      rw [sub] at zero
      split at zero
      · cases zero
      · obtain ⟨result, left⟩ := Prod.mk.inj (Option.some.inj zero)
        exact left.symm.trans result
  | leaky =>
      rw [sub] at zero
      split at zero
      · exact absurd (Prod.mk.inj (Option.some.inj zero)).1 (by decide)
      · obtain ⟨result, left⟩ := Prod.mk.inj (Option.some.inj zero)
        exact left.symm.trans result

end Refcount

end Kcom
