import Mathlib.Algebra.Ring.Nat
import Mathlib.Data.List.Basic
import Mathlib.Tactic.SplitIfs

/-!
# UTF-16

The standard coding of scalar values by 16-bit units: `encode` turns every
character into one unit or a surrogate pair, `decode` reads units from left to
right and reports each unpaired surrogate. A decoder that meets no error is the
inverse of the encoder, and it meets none exactly on the well-formed sequences.
-/

namespace Utf16

/-! ## Units -/

/-- A leading surrogate. -/
def High (u : UInt16) : Prop := 0xD800 ≤ u.toNat ∧ u.toNat < 0xDC00

/-- A trailing surrogate. -/
def Low (u : UInt16) : Prop := 0xDC00 ≤ u.toNat ∧ u.toNat < 0xE000

instance (u : UInt16) : Decidable (High u) := inferInstanceAs (Decidable (_ ∧ _))

instance (u : UInt16) : Decidable (Low u) := inferInstanceAs (Decidable (_ ∧ _))

/-- The character a unit stands for that is no surrogate. -/
def scalar (u : UInt16) : Char := Char.ofNat u.toNat

/-- The character a surrogate pair stands for. -/
def pair (u v : UInt16) : Char :=
  Char.ofNat (0x10000 + (u.toNat - 0xD800) * 0x400 + (v.toNat - 0xDC00))

/-- The units of a character. -/
def encodeChar (c : Char) : List UInt16 :=
  if c.toNat < 0x10000 then [.ofNat c.toNat]
  else
    [.ofNat (0xD800 + (c.toNat - 0x10000) / 0x400), .ofNat (0xDC00 + (c.toNat - 0x10000) % 0x400)]

def encode (s : List Char) : List UInt16 :=
  s.flatMap encodeChar

/-- The characters of a sequence, with the code of each unpaired surrogate. -/
def decode : List UInt16 → List (Except UInt16 Char)
  | [] => []
  | [u] => [if High u ∨ Low u then .error u else .ok (scalar u)]
  | u :: v :: rest =>
      if High u then
        if Low v then .ok (pair u v) :: decode rest
        else .error u :: decode (v :: rest)
      else if Low u then .error u :: decode (v :: rest)
      else .ok (scalar u) :: decode (v :: rest)

/-- Every surrogate of the sequence is half of a pair. -/
inductive WellFormed : List UInt16 → Prop
  | nil : WellFormed []
  | scalar {u : UInt16} {rest : List UInt16} (high : ¬High u) (low : ¬Low u)
      (tail : WellFormed rest) : WellFormed (u :: rest)
  | pair {u v : UInt16} {rest : List UInt16} (high : High u) (low : Low v)
      (tail : WellFormed rest) : WellFormed (u :: v :: rest)

/-! ## One character -/

section Chars

variable {c : Char} {u v : UInt16} {us : List UInt16} {s : List Char}

theorem toNat_ofNat {n : Nat} (valid : n.isValidChar) : (Char.ofNat n).toNat = n := by
  rw [Char.ofNat, dif_pos valid]
  rfl

theorem toNat_bounds (c : Char) :
    c.toNat < 0xD800 ∨ 0xDFFF < c.toNat ∧ c.toNat < 0x110000 :=
  c.valid

theorem toNat_scalar (high : ¬High u) (low : ¬Low u) : (scalar u).toNat = u.toNat := by
  have bound := u.toNat_lt
  apply toNat_ofNat
  unfold High at high
  unfold Low at low
  unfold Nat.isValidChar
  omega

theorem toNat_pair (high : High u) (low : Low v) :
    (pair u v).toNat = 0x10000 + (u.toNat - 0xD800) * 0x400 + (v.toNat - 0xDC00) := by
  obtain ⟨above, below⟩ := high
  obtain ⟨above', below'⟩ := low
  apply toNat_ofNat
  unfold Nat.isValidChar
  omega

@[simp] theorem encode_nil : encode [] = [] := rfl

@[simp] theorem encode_cons : encode (c :: s) = encodeChar c ++ encode s := rfl

/-- The two shapes of a coded character. -/
theorem encodeChar_cases (c : Char) :
    (∃ u, encodeChar c = [u] ∧ ¬High u ∧ ¬Low u ∧ scalar u = c) ∨
      ∃ u v, encodeChar c = [u, v] ∧ High u ∧ Low v ∧ pair u v = c := by
  have bounds := toNat_bounds c
  unfold encodeChar
  split_ifs with small
  · have unit : (UInt16.ofNat c.toNat).toNat = c.toNat := UInt16.toNat_ofNat_of_lt' small
    refine .inl ⟨_, rfl, ?_, ?_, ?_⟩
    · unfold High
      omega
    · unfold Low
      omega
    · rw [scalar, unit, Char.ofNat_toNat]
  · have leading : (UInt16.ofNat (0xD800 + (c.toNat - 0x10000) / 0x400)).toNat =
        0xD800 + (c.toNat - 0x10000) / 0x400 := UInt16.toNat_ofNat_of_lt' (by
      change _ < 0x10000
      omega)
    have trailing : (UInt16.ofNat (0xDC00 + (c.toNat - 0x10000) % 0x400)).toNat =
        0xDC00 + (c.toNat - 0x10000) % 0x400 := UInt16.toNat_ofNat_of_lt' (by
      change _ < 0x10000
      omega)
    refine .inr ⟨_, _, rfl, ?_, ?_, ?_⟩
    · unfold High
      omega
    · unfold Low
      omega
    · rw [pair, leading, trailing]
      have whole : 0x10000 + (0xD800 + (c.toNat - 0x10000) / 0x400 - 0xD800) * 0x400 +
          (0xDC00 + (c.toNat - 0x10000) % 0x400 - 0xDC00) = c.toNat := by omega
      rw [whole, Char.ofNat_toNat]

/-- A unit that is no surrogate is the code of its character. -/
theorem encodeChar_scalar (high : ¬High u) (low : ¬Low u) : encodeChar (scalar u) = [u] := by
  have value := toNat_scalar high low
  have bound := u.toNat_lt
  rw [encodeChar, if_pos (by omega), value, UInt16.ofNat_toNat]

theorem encodeChar_pair (high : High u) (low : Low v) : encodeChar (pair u v) = [u, v] := by
  have value := toNat_pair high low
  obtain ⟨above, below⟩ := high
  obtain ⟨above', below'⟩ := low
  have leading : 0xD800 + ((pair u v).toNat - 0x10000) / 0x400 = u.toNat := by omega
  have trailing : 0xDC00 + ((pair u v).toNat - 0x10000) % 0x400 = v.toNat := by omega
  rw [encodeChar, if_neg (by omega), leading, trailing, UInt16.ofNat_toNat, UInt16.ofNat_toNat]

theorem decode_scalar (high : ¬High u) (low : ¬Low u) :
    decode (u :: us) = .ok (scalar u) :: decode us := by
  cases us with
  | nil => simp [decode, high, low]
  | cons v us => rw [decode, if_neg high, if_neg low]

theorem decode_pair (high : High u) (low : Low v) :
    decode (u :: v :: us) = .ok (pair u v) :: decode us := by
  rw [decode, if_pos high, if_pos low]

end Chars

/-! ## Whole sequences -/

section Sequences

variable {us : List UInt16} {s t : List Char}

/-- Decoding what was encoded. -/
theorem decode_encode (s : List Char) : decode (encode s) = s.map .ok := by
  induction s with
  | nil => rfl
  | cons c s ih =>
      rw [encode_cons, List.map_cons, ← ih]
      rcases encodeChar_cases c with ⟨u, code, high, low, rfl⟩ | ⟨u, v, code, high, low, rfl⟩
      · rw [code]
        exact decode_scalar high low
      · rw [code]
        exact decode_pair high low

theorem wellFormed_encode (s : List Char) : WellFormed (encode s) := by
  induction s with
  | nil => exact .nil
  | cons c s ih =>
      rw [encode_cons]
      rcases encodeChar_cases c with ⟨u, code, high, low, -⟩ | ⟨u, v, code, high, low, -⟩
      · rw [code]
        exact .scalar high low ih
      · rw [code]
        exact .pair high low ih

/-- A well-formed sequence is the code of a text. -/
theorem WellFormed.exists_encode (formed : WellFormed us) : ∃ t, encode t = us := by
  induction formed with
  | nil => exact ⟨[], rfl⟩
  | @scalar u _ high low _ ih =>
      obtain ⟨t, rfl⟩ := ih
      exact ⟨Utf16.scalar u :: t, by rw [encode_cons, encodeChar_scalar high low]; rfl⟩
  | @pair u v _ high low _ ih =>
      obtain ⟨t, rfl⟩ := ih
      exact ⟨Utf16.pair u v :: t, by rw [encode_cons, encodeChar_pair high low]; rfl⟩

/-- A character takes at most three bytes of UTF-8 for each of its units. -/
theorem utf8Size_le_encodeChar (c : Char) : c.utf8Size ≤ 3 * (encodeChar c).length := by
  have four := c.utf8Size_le_four
  have value : c.val.toNat = c.toNat := rfl
  unfold encodeChar
  split_ifs with small
  · rw [List.length_singleton]
    dsimp only [Char.utf8Size]
    split_ifs with one two three
    · decide
    · decide
    · decide
    · exfalso
      apply three
      rw [UInt32.le_iff_toNat_le, value]
      exact Nat.le_of_lt_succ small
  · simp only [List.length_cons, List.length_nil]
    omega

/-- A text takes at most three bytes of UTF-8 for each of its units. -/
theorem utf8Size_le (s : List Char) : (s.map Char.utf8Size).sum ≤ 3 * (encode s).length := by
  induction s with
  | nil => exact Nat.le_refl 0
  | cons c s ih =>
      have char := utf8Size_le_encodeChar c
      rw [List.map_cons, List.sum_cons, encode_cons, List.length_append]
      omega

end Sequences

end Utf16
