import Mathlib.Logic.Function.Basic
import Mathlib.Algebra.Ring.Nat

/-!
# Memory as bytes

`Bytes` maps an address to its byte. A machine word of `n` bytes is stored with its
lowest byte first; reading it back gives the value modulo `256 ^ n`, and depends on
nothing but those bytes.
-/

namespace ReprC

/-- The byte at each address. -/
abbrev Bytes := Nat → UInt8

namespace Bytes

variable {m m' : Bytes} {a b n v : Nat}

/-- Store the low `n` bytes of a value. -/
def writeWord (m : Bytes) (a : Nat) : Nat → Nat → Bytes
  | 0, _ => m
  | n + 1, v => writeWord (Function.update m a (.ofNat v)) (a + 1) n (v / 256)

def readWord (m : Bytes) (a : Nat) : Nat → Nat
  | 0 => 0
  | n + 1 => (m a).toNat + 256 * readWord m (a + 1) n

/-- Store the same byte in `n` places. -/
def fill (m : Bytes) (a n : Nat) (c : UInt8) : Bytes :=
  fun b => if a ≤ b ∧ b < a + n then c else m b

theorem writeWord_below (below : b < a) : m.writeWord a n v b = m b := by
  induction n generalizing m a v with
  | zero => rfl
  | succ n ih =>
      calc writeWord (Function.update m a (.ofNat v)) (a + 1) n (v / 256) b
          = Function.update m a (.ofNat v) b := ih (Nat.lt_succ_of_lt below)
        _ = m b := Function.update_of_ne (Nat.ne_of_lt below) _ _

theorem writeWord_above (above : a + n ≤ b) : m.writeWord a n v b = m b := by
  induction n generalizing m a v with
  | zero => rfl
  | succ n ih =>
      calc writeWord (Function.update m a (.ofNat v)) (a + 1) n (v / 256) b
          = Function.update m a (.ofNat v) b := ih (by omega)
        _ = m b := Function.update_of_ne (by omega) _ _

theorem readWord_congr (same : ∀ b, a ≤ b → b < a + n → m b = m' b) :
    m.readWord a n = m'.readWord a n := by
  induction n generalizing a with
  | zero => rfl
  | succ n ih =>
      have first := same a (Nat.le_refl a) (by omega)
      have rest : m.readWord (a + 1) n = m'.readWord (a + 1) n :=
        ih fun b low high => same b (by omega) (by omega)
      rw [readWord, readWord, first, rest]

/-- A word that ends before another one, or starts after it, keeps its value. -/
theorem readWord_writeWord_of_disjoint {c k : Nat} (disjoint : c + k ≤ a ∨ a + n ≤ c) :
    (m.writeWord a n v).readWord c k = m.readWord c k := by
  apply readWord_congr
  intro b low high
  rcases disjoint with before | after
  · exact writeWord_below (by omega)
  · exact writeWord_above (by omega)

theorem readWord_writeWord : (m.writeWord a n v).readWord a n = v % 256 ^ n := by
  induction n generalizing m a v with
  | zero => rw [readWord, pow_zero, Nat.mod_one]
  | succ n ih =>
      have first : writeWord (Function.update m a (.ofNat v)) (a + 1) n (v / 256) a =
          .ofNat v := by
        rw [writeWord_below (Nat.lt_succ_self a), Function.update_self]
      rw [readWord, writeWord, ih, first, pow_succ', Nat.mod_mul]
      rfl

theorem readWord_writeWord_of_lt (small : v < 256 ^ n) :
    (m.writeWord a n v).readWord a n = v := by
  rw [readWord_writeWord, Nat.mod_eq_of_lt small]

end Bytes

end ReprC
