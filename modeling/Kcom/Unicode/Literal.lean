import Kcom.Unicode

/-!
# `kstr!`

The macro `kstr!` (`src/unicode.rs`) builds a `UNICODE_STRING` at compile time over the
units that `utf16_null!` makes of a literal, with the lengths that `new_in` computes at
run time. `new_in` checks first that the units and a NUL are at most 32767; the macro
casts. The two agree on the literals of at most 32766 units, and on a longer one the
macro's lengths are those of its number of units modulo 32768.
-/

namespace Kcom.Unicode

open ReprC (Mem)
open Com (Width)
open Utf16

/-- `kstr!(lit)`, over the units at `address` that `utf16_null!(lit)` makes; `none` where
the constant expressions overflow, which the compiler refuses. -/
def kstr (w : Width) (utf16Null : String → List UInt16) (lit : String) (address : Nat) :
    Option UnicodeString :=
  let buf := utf16Null lit
  if buf.length = 0 ∨ 2 ^ (8 * w.bytes) ≤ buf.length * 2 then none
  else some ⟨.ofNat ((buf.length - 1) * 2), .ofNat (buf.length * 2), address⟩

/-- The two values count the same lengths and refer to the same units. -/
structure Agree (m : Mem UInt16) (unicode : UnicodeString) (m' : Mem UInt16)
    (owned : OwnedUnicodeString) : Prop where
  length : unicode.length = owned.inner.length
  maximumLength : unicode.maximumLength = owned.inner.maximumLength
  units : readUnits m unicode.buffer (unicode.length.toNat / 2) = owned.asUtf16 m'

section Literal

variable {w : Width} {utf16Null : String → List UInt16} {lit : String} {address : Nat}
  {unicode : UnicodeString} {alloc : Layout → Nat} {m m₀ : Mem UInt16}

/-- What the macro builds of a terminated literal. -/
theorem kstr_eq (terminated : utf16Null lit = encode lit.toList ++ [0])
    (accepted : kstr w utf16Null lit address = some unicode) :
    unicode = ⟨.ofNat ((encode lit.toList).length * 2),
      .ofNat (((encode lit.toList).length + 1) * 2), address⟩ := by
  rw [kstr, terminated, List.length_append, List.length_singleton, Nat.add_sub_cancel] at accepted
  split at accepted
  · cases accepted
  · exact (Option.some.inj accepted).symm

/-- A literal that the compiler accepts is built as `new_in` builds it exactly if it has at
most 32766 units; `new_in` refuses the others. -/
theorem kstr_agrees_iff (terminated : ∀ s, utf16Null s = encode s.toList ++ [0])
    (accepted : kstr w utf16Null lit address = some unicode)
    (placed : readUnits m address (utf16Null lit).length = some (utf16Null lit))
    (granted : alloc ⟨2 * ((encode lit.toList).length + 1), 2⟩ ≠ 0) :
    (∃ owned m', newIn w alloc lit m₀ = .ok (owned, m') ∧ Agree m unicode m' owned) ↔
      (encode lit.toList).length ≤ 32766 := by
  constructor
  · rintro ⟨owned, m', built, -⟩
    by_contra long
    rw [newIn_tooLong.mpr (Nat.lt_of_not_le long)] at built
    cases built
  · intro short
    obtain ⟨owned, m', built, encoded⟩ := newIn_eq (w := w) (m := m₀) short granted
    have small : (encode lit.toList).length * 2 < 2 ^ 16 ∧
        ((encode lit.toList).length + 1) * 2 < 2 ^ 16 := by omega
    obtain rfl := kstr_eq (terminated lit) accepted
    refine ⟨owned, m', built, UInt16.toNat_inj.mp ?_, UInt16.toNat_inj.mp ?_, ?_⟩
    · rw [encoded.length, UInt16.toNat_ofNat_of_lt' small.1, Nat.mul_comm]
    · rw [encoded.maximumLength, UInt16.toNat_ofNat_of_lt' small.2, Nat.mul_comm]
    · rw [terminated] at placed
      rw [encoded.asUtf16, UInt16.toNat_ofNat_of_lt' small.1, Nat.mul_div_cancel _ Nat.two_pos]
      exact readUnits_of_append placed

end Literal

/-- `utf16_null!` as its documentation has it. -/
def terminatedUnits (s : String) : List UInt16 :=
  encode s.toList ++ [0]

/-- The literal of the source's own test. -/
theorem kstr_agrees_iff_test :
    ∃ unicode, kstr .w64 terminatedUnits "Test" 0x1000 = some unicode ∧
      ((∃ owned m', newIn .w64 (fun _ => 0x2000) "Test" (fun _ => none) = .ok (owned, m') ∧
        Agree (writeUnits (fun _ => none) 0x1000 (terminatedUnits "Test")) unicode m' owned) ↔
        (encode "Test".toList).length ≤ 32766) :=
  ⟨⟨8, 10, 0x1000⟩, by decide, kstr_agrees_iff (fun _ => rfl) (by decide) readUnits_writeUnits
    (by decide)⟩

/-- A literal of `n` letters. -/
def letters (n : Nat) : String :=
  String.ofList (List.replicate n 'a')

theorem units_letters (n : Nat) : (encode (letters n).toList).length = n := by
  rw [letters, String.toList_ofList]
  induction n with
  | zero => rfl
  | succ n ih =>
      rw [List.replicate_succ, encode_cons, List.length_append, ih]
      change 1 + n = n + 1
      omega

/-- The macro accepts 32767 letters, with a maximal length of 0, and `new_in` refuses
them. -/
theorem kstr_accepts_too_long :
    ¬ ∀ (w : Width) (lit : String) (address : Nat) (unicode : UnicodeString)
      (alloc : Layout → Nat) (m m₀ : Mem UInt16),
      kstr w terminatedUnits lit address = some unicode →
      readUnits m address (terminatedUnits lit).length = some (terminatedUnits lit) →
      (∀ layout, alloc layout ≠ 0) →
      ∃ owned m', newIn w alloc lit m₀ = .ok (owned, m') ∧ Agree m unicode m' owned := by
  intro agree
  have units : (terminatedUnits (letters 32767)).length = 32768 := by
    rw [terminatedUnits, List.length_append, units_letters, List.length_singleton]
  have accepted : kstr .w64 terminatedUnits (letters 32767) 0x1000 = some ⟨65534, 0, 0x1000⟩ := by
    rw [kstr, units]
    decide
  obtain ⟨owned, m', built, -⟩ := agree .w64 (letters 32767) 0x1000 _ (fun _ => 0x2000)
    (writeUnits (fun _ => none) 0x1000 (terminatedUnits (letters 32767))) (fun _ => none) accepted
    readUnits_writeUnits (fun _ => by decide)
  rw [newIn_tooLong.mpr (by rw [units_letters]; decide)] at built
  cases built

end Kcom.Unicode
