import Kcom.ReprC.Bytes
import Mathlib.Data.List.Pairwise
import Mathlib.Data.List.Range

/-!
# Regions of one memory

A region is a run of addresses. Owners of regions that lie apart cannot see each other: a
memory that differs from another one inside a region only reads the same in every region
apart from it (`Apart.read_eq`). `Bytes.read` is what an owner sees, the list of its bytes,
and storing bytes of the region sets the entries of the list (`Bytes.read_store`).
-/

namespace ReprC

/-- `size` bytes from `start` on. -/
structure Region where
  start : Nat
  size : Nat
  deriving DecidableEq, Repr

namespace Region

variable {r q v : Region} {x : Nat}

def Has (r : Region) (x : Nat) : Prop :=
  r.start ≤ x ∧ x < r.start + r.size

/-- One of them ends before the other one starts. -/
def Apart (r q : Region) : Prop :=
  r.start + r.size ≤ q.start ∨ q.start + q.size ≤ r.start

def Within (q r : Region) : Prop :=
  r.start ≤ q.start ∧ q.start + q.size ≤ r.start + r.size

instance : Decidable (r.Apart q) :=
  inferInstanceAs (Decidable (_ ∨ _))

theorem Apart.symm (apart : r.Apart q) : q.Apart r :=
  Or.symm apart

theorem Apart.of_within (apart : r.Apart q) (within : v.Within q) : r.Apart v := by
  unfold Apart Within at *
  omega

theorem Apart.not_has (apart : r.Apart q) (has : r.Has x) : ¬q.Has x := by
  unfold Apart Has at *
  omega

/-- A region that is not empty is not apart from one with the same start. -/
theorem Apart.start_ne (apart : r.Apart q) (some : 0 < r.size) (some' : 0 < q.size) :
    r.start ≠ q.start := by
  unfold Apart at apart
  omega

theorem Has.of_within (has : q.Has x) (within : q.Within r) : r.Has x := by
  unfold Has Within at *
  omega

end Region

/-! ## What an owner sees -/

namespace Bytes

variable {m m' : Bytes} {a n i : Nat} {byte : UInt8}

/-- The `n` bytes from `a` on. -/
def read (m : Bytes) (a n : Nat) : List UInt8 :=
  (List.range n).map fun i => m (a + i)

@[simp] theorem length_read : (m.read a n).length = n := by
  simp [read]

theorem getElem?_read (inside : i < n) : (m.read a n)[i]? = some (m (a + i)) := by
  simp [read, inside]

theorem read_congr (same : ∀ i, i < n → m' (a + i) = m (a + i)) : m'.read a n = m.read a n :=
  List.map_congr_left fun i member => same i (List.mem_range.mp member)

/-- Storing a byte from `a` on. -/
theorem read_update :
    read (Function.update m (a + i) byte) a n = (m.read a n).set i byte := by
  apply List.ext_getElem?
  intro j
  rcases Nat.lt_or_ge j n with here | beyond
  · rw [getElem?_read here, List.getElem?_set]
    rcases eq_or_ne i j with rfl | other
    · rw [if_pos rfl, length_read, if_pos here, Function.update_self]
    · rw [if_neg other, getElem?_read here, Function.update_of_ne (by omega)]
  · rw [List.getElem?_eq_none (by rw [length_read]; exact beyond),
      List.getElem?_eq_none (by rw [List.length_set, length_read]; exact beyond)]

/-- Store bytes at offsets from `a`, one after the other. -/
def store (m : Bytes) (a : Nat) : List (Nat × UInt8) → Bytes
  | [] => m
  | (i, byte) :: stores => store (Function.update m (a + i) byte) a stores

theorem store_append {first second : List (Nat × UInt8)} :
    m.store a (first ++ second) = (m.store a first).store a second := by
  induction first generalizing m with
  | nil => rfl
  | cons w first ih => exact ih

/-- The same stores to a list of bytes. -/
def setAll (bytes : List UInt8) : List (Nat × UInt8) → List UInt8
  | [] => bytes
  | (i, byte) :: stores => setAll (bytes.set i byte) stores

theorem read_store {stores : List (Nat × UInt8)} :
    (m.store a stores).read a n = setAll (m.read a n) stores := by
  induction stores generalizing m with
  | nil => rfl
  | cons first stores ih => rw [store, ih, read_update, setAll]

/-- Stores inside the region of `n` bytes from `a` on. -/
theorem store_of_not_has {stores : List (Nat × UInt8)} (inside : ∀ w ∈ stores, w.1 < n) {x : Nat}
    (outside : ¬(Region.mk a n).Has x) : m.store a stores x = m x := by
  induction stores generalizing m with
  | nil => rfl
  | cons first stores ih =>
      have bound := inside first List.mem_cons_self
      have ne : x ≠ a + first.1 := by
        rintro rfl
        exact outside ⟨Nat.le_add_right _ _, Nat.add_lt_add_left bound _⟩
      calc m.store a (first :: stores) x
          = Function.update m (a + first.1) first.2 x :=
            ih fun w member => inside w (List.mem_cons_of_mem _ member)
        _ = m x := Function.update_of_ne ne _ _

/-- The stores of a word at the offset `i`. -/
def wordStores (i : Nat) : Nat → Nat → List (Nat × UInt8)
  | 0, _ => []
  | n + 1, v => (i, .ofNat v) :: wordStores (i + 1) n (v / 256)

theorem lt_of_mem_wordStores {v : Nat} {w : Nat × UInt8} (member : w ∈ wordStores i n v) :
    w.1 < i + n := by
  induction n generalizing i v with
  | zero => cases member
  | succ n ih =>
      rcases List.mem_cons.mp member with rfl | later
      · exact Nat.lt_add_of_pos_right (Nat.succ_pos n)
      · have bound := ih later
        omega

theorem writeWord_eq_store {v : Nat} : m.writeWord (a + i) n v = m.store a (wordStores i n v) := by
  induction n generalizing m i v with
  | zero => rfl
  | succ n ih => rw [writeWord, wordStores, store, Nat.add_assoc, ih]

/-- What an owner sees decides every byte in it. -/
theorem eq_of_read (same : m'.read a n = m.read a n) (inside : i < n) :
    m' (a + i) = m (a + i) := by
  have entry : some (m' (a + i)) = some (m (a + i)) := by
    rw [← getElem?_read inside, ← getElem?_read inside, same]
  exact Option.some.inj entry

theorem readWord_of_read {k : Nat} (same : m'.read a n = m.read a n) (inside : i + k ≤ n) :
    m'.readWord (a + i) k = m.readWord (a + i) k := by
  apply readWord_congr
  intro b low high
  obtain ⟨j, rfl⟩ := Nat.exists_eq_add_of_le (Nat.le_trans (Nat.le_add_right a i) low)
  exact eq_of_read same (by omega)

theorem read_zero (zero : ∀ i, i < n → m (a + i) = 0) : m.read a n = List.replicate n 0 := by
  apply List.ext_getElem?
  intro j
  rcases Nat.lt_or_ge j n with here | beyond
  · rw [getElem?_read here, zero j here, List.getElem?_replicate_of_lt here]
  · rw [List.getElem?_eq_none (by rw [length_read]; exact beyond),
      List.getElem?_eq_none (by rw [List.length_replicate]; exact beyond)]

end Bytes

/-- What is written in a region does not show in one apart from it. -/
theorem Region.Apart.read_eq {r q : Region} {m m' : Bytes} (apart : r.Apart q)
    (frame : ∀ x, x < r.start ∨ r.start + r.size ≤ x → m' x = m x) :
    m'.read q.start q.size = m.read q.start q.size := by
  apply Bytes.read_congr
  intro i inside
  apply frame
  unfold Apart at apart
  omega

end ReprC
