import Mathlib.Data.Nat.Basic
import Mathlib.Data.Fintype.Basic
import Mathlib.Tactic.Linarith
import Mathlib.Tactic.Ring

/-!
# C struct layouts

Sizes and alignments of types, and the offsets that `repr(C)` gives to the
fields of a struct: every field goes to the first multiple of its alignment
behind the field before it, so an offset depends only on the fields before.
A tuple has no such rule. `Tuple` collects what any placement of equal elements
satisfies, whichever the compiler picks.
-/

namespace ReprC

/-! ## Rounding up -/

/-- The least multiple of `a` that is not below `n`. -/
def roundUp (n a : Nat) : Nat :=
  (n + a - 1) / a * a

section RoundUp

variable {n m q a : Nat}

theorem dvd_roundUp : a ∣ roundUp n a :=
  Dvd.intro_left _ rfl

theorem le_roundUp (pos : 0 < a) : n ≤ roundUp n a := by
  have split := Nat.div_add_mod (n + a - 1) a
  have small := Nat.mod_lt (n + a - 1) pos
  unfold roundUp
  rw [Nat.mul_comm] at split
  omega

theorem roundUp_le (le : n ≤ q) (mult : a ∣ q) (pos : 0 < a) : roundUp n a ≤ q := by
  obtain ⟨k, rfl⟩ := mult
  have bound : (n + a - 1) / a ≤ k := by
    apply Nat.le_of_lt_succ
    apply (Nat.div_lt_iff_lt_mul pos).mpr
    rw [Nat.succ_mul, Nat.mul_comm k a]
    omega
  unfold roundUp
  rw [Nat.mul_comm a k]
  exact Nat.mul_le_mul_right a bound

/-- A multiple less than one step above `n` is `n` rounded up. -/
theorem roundUp_eq (mult : a ∣ q) (le : n ≤ q) (lt : q < n + a) : roundUp n a = q := by
  have pos : 0 < a := by omega
  apply Nat.le_antisymm (roundUp_le le mult pos)
  obtain ⟨k, rfl⟩ := mult
  have bound : k ≤ (n + a - 1) / a := by
    apply (Nat.le_div_iff_mul_le pos).mpr
    rw [Nat.mul_comm k a]
    omega
  unfold roundUp
  rw [Nat.mul_comm a k]
  exact Nat.mul_le_mul_right a bound

theorem roundUp_of_dvd (pos : 0 < a) (mult : a ∣ n) : roundUp n a = n :=
  roundUp_eq mult le_rfl (by omega)

/-- Two positions round to the same multiple exactly when the first one's
padding covers the second. -/
theorem roundUp_eq_roundUp_iff (pos : 0 < a) (le : n ≤ m) :
    roundUp n a = roundUp m a ↔ m ≤ roundUp n a := by
  constructor
  · intro same
    rw [same]
    exact le_roundUp pos
  · intro covered
    apply Nat.le_antisymm
    · exact roundUp_le (le.trans (le_roundUp pos)) dvd_roundUp pos
    · exact roundUp_le covered dvd_roundUp pos

end RoundUp

/-! ## Types and structs -/

/-- The size and the alignment of a type. -/
structure Layout where
  size : Nat
  align : Nat
  align_pos : 0 < align
  dvd : align ∣ size
  deriving DecidableEq

section Struct

variable {φ : Type}

/-- Where the field `f` goes when the fields before end at `pos`. -/
def place [DecidableEq φ] (f : φ) : Nat → List (φ × Layout) → Option Nat
  | _, [] => none
  | pos, (g, l) :: rest =>
      if g = f then some (roundUp pos l.align)
      else place f (roundUp pos l.align + l.size) rest

/-- The offset of a field in a `repr(C)` struct. -/
def offsetOf [DecidableEq φ] (fields : List (φ × Layout)) (f : φ) : Option Nat :=
  place f 0 fields

/-- Where the last field ends. -/
def finish : Nat → List (φ × Layout) → Nat
  | pos, [] => pos
  | pos, (_, l) :: rest => finish (roundUp pos l.align + l.size) rest

theorem le_finish (pos : Nat) (fields : List (φ × Layout)) : pos ≤ finish pos fields := by
  induction fields generalizing pos with
  | nil => exact le_rfl
  | cons field rest ih =>
      have rounded : pos ≤ roundUp pos field.2.align := le_roundUp field.2.align_pos
      have tail := ih (roundUp pos field.2.align + field.2.size)
      rw [finish]
      omega

/-- The alignment of a struct: the largest of its fields'. -/
def maxAlign : List (φ × Layout) → Nat
  | [] => 1
  | (_, l) :: rest => max l.align (maxAlign rest)

theorem maxAlign_pos (fields : List (φ × Layout)) : 0 < maxAlign fields := by
  induction fields with
  | nil => exact Nat.one_pos
  | cons field rest ih =>
      unfold maxAlign
      omega

/-- `Layout::new` of a `repr(C)` struct. -/
def structLayout (fields : List (φ × Layout)) : Layout where
  size := roundUp (finish 0 fields) (maxAlign fields)
  align := maxAlign fields
  align_pos := maxAlign_pos fields
  dvd := dvd_roundUp

/-- A struct is at least as large as its first field. -/
theorem size_le_structLayout (field : φ × Layout) (rest : List (φ × Layout)) :
    field.2.size ≤ (structLayout (field :: rest)).size := by
  have ends := le_finish (roundUp 0 field.2.align + field.2.size) rest
  have padded : finish 0 (field :: rest) ≤ (structLayout (field :: rest)).size :=
    le_roundUp (maxAlign_pos _)
  rw [finish] at padded
  omega

variable [DecidableEq φ] {f g : φ} {l : Layout} {pos : Nat} {rest : List (φ × Layout)}

@[simp] theorem place_self : place f pos ((f, l) :: rest) = some (roundUp pos l.align) := by
  simp [place]

theorem place_of_ne (ne : g ≠ f) :
    place f pos ((g, l) :: rest) = place f (roundUp pos l.align + l.size) rest := by
  simp [place, ne]

/-- Every field is placed, and ends where the last field does or before. -/
theorem place_inside {fields : List (φ × Layout)} (mem : (f, l) ∈ fields)
    (distinct : (fields.map Prod.fst).Nodup) :
    ∃ start, place f pos fields = some start ∧ start + l.size ≤ finish pos fields := by
  induction fields generalizing pos with
  | nil => cases mem
  | cons field rest ih =>
      obtain ⟨g, k⟩ := field
      obtain ⟨fresh, distinct⟩ := List.nodup_cons.mp distinct
      rcases List.mem_cons.mp mem with here | later
      · cases here
        exact ⟨_, place_self, le_finish _ rest⟩
      · have ne : g ≠ f := by
          rintro rfl
          exact fresh (List.mem_map.mpr ⟨(g, l), later, rfl⟩)
        rw [place_of_ne ne]
        exact ih later distinct

/-- Every field lies inside its struct. -/
theorem offsetOf_inside {fields : List (φ × Layout)} (mem : (f, l) ∈ fields)
    (distinct : (fields.map Prod.fst).Nodup) :
    (offsetOf fields f).getD 0 + l.size ≤ (structLayout fields).size := by
  obtain ⟨start, placed, ends⟩ := place_inside mem distinct
  rw [offsetOf, placed]
  exact ends.trans (le_roundUp (maxAlign_pos fields))

end Struct

/-! ## Tuples of equal elements -/

/-- A placement of `n` values of the layout `l` in one block: inside the block,
aligned and apart from each other, in any order. -/
structure Tuple (l : Layout) (n : Nat) where
  offset : Fin n → Nat
  size : Nat
  inside : ∀ i, offset i + l.size ≤ size
  apart : ∀ i j, i ≠ j → offset i + l.size ≤ offset j ∨ offset j + l.size ≤ offset i
  aligned : ∀ i, l.align ∣ offset i
  size_dvd : l.align ∣ size

namespace Tuple

variable {l : Layout} {n : Nat}

/-- The elements in order, without padding. -/
def packed (l : Layout) (n : Nat) : Tuple l n where
  offset i := i * l.size
  size := n * l.size
  inside i := by
    have next : (i : Nat) + 1 ≤ n := i.isLt
    calc (i : Nat) * l.size + l.size = (i + 1) * l.size := by ring
      _ ≤ n * l.size := Nat.mul_le_mul_right _ next
  apart i j ne := by
    rcases Nat.lt_or_gt_of_ne (Fin.val_ne_of_ne ne) with lt | gt
    · left
      calc (i : Nat) * l.size + l.size = (i + 1) * l.size := by ring
        _ ≤ j * l.size := Nat.mul_le_mul_right _ lt
    · right
      calc (j : Nat) * l.size + l.size = (j + 1) * l.size := by ring
        _ ≤ i * l.size := Nat.mul_le_mul_right _ gt
  aligned i := l.dvd.mul_left _
  size_dvd := l.dvd.mul_left _

/-- The layout of the whole tuple. -/
def layout (t : Tuple l n) : Layout where
  size := t.size
  align := l.align
  align_pos := l.align_pos
  dvd := t.size_dvd

/-- A tuple with an element is at least as large as the element. -/
theorem size_le (t : Tuple l n) (pos : 0 < n) : l.size ≤ t.size := by
  have inside := t.inside ⟨0, pos⟩
  omega

end Tuple

end ReprC
