import Mathlib.Logic.Function.Basic

/-!
# Memory as typed cells

`Mem κ` maps an address to the value last stored there, with the type it was
stored at as a constructor of `κ`; `none` is an address that holds nothing that
may be read. A load at another type than the one stored fails, as does every
load from a freed block.
-/

namespace ReprC

/-- What each address holds. -/
abbrev Mem (κ : Type) := Nat → Option κ

namespace Mem

variable {κ : Type} {m : Mem κ} {a b : Nat} {c : κ} {ws : List (Nat × κ)}

/-- Store one cell. -/
def write (m : Mem κ) (a : Nat) (c : κ) : Mem κ :=
  Function.update m a (some c)

@[simp] theorem write_same : m.write a c a = some c := by
  simp [write]

theorem write_of_ne (ne : b ≠ a) : m.write a c b = m b := by
  simp [write, ne]

/-- Store cells one after the other. -/
def writeAll (m : Mem κ) : List (Nat × κ) → Mem κ
  | [] => m
  | w :: ws => writeAll (m.write w.1 w.2) ws

/-- An address that none of the stores names keeps its cell. -/
theorem writeAll_of_ne (ne : ∀ w ∈ ws, w.1 ≠ a) : m.writeAll ws a = m a := by
  induction ws generalizing m with
  | nil => rfl
  | cons w ws ih =>
      have head : a ≠ w.1 := (ne w (by simp)).symm
      calc (m.write w.1 w.2).writeAll ws a = m.write w.1 w.2 a := ih fun v mem => ne v (by simp [mem])
        _ = m a := write_of_ne head

/-- An address at which all stores agree holds what they stored. -/
theorem writeAll_of_mem (mem : (a, c) ∈ ws) (agree : ∀ w ∈ ws, w.1 = a → w.2 = c) :
    m.writeAll ws a = some c := by
  induction ws generalizing m with
  | nil => cases mem
  | cons w ws ih =>
      by_cases later : (a, c) ∈ ws
      · exact ih later fun v vMem => agree v (by simp [vMem])
      · have here : w = (a, c) := by
          rcases List.mem_cons.mp mem with eq | rest
          · exact eq.symm
          · exact absurd rest later
        subst here
        have untouched : ∀ v ∈ ws, v.1 ≠ a := by
          intro v vMem same
          have value := agree v (by simp [vMem]) same
          apply later
          rw [← same, ← value]
          exact vMem
        calc (m.write a c).writeAll ws a = m.write a c a := writeAll_of_ne untouched
          _ = some c := write_same

/-- Give a block back. -/
def free (m : Mem κ) (base size : Nat) : Mem κ :=
  fun a => if base ≤ a ∧ a < base + size then none else m a

theorem free_inside {base size : Nat} (low : base ≤ a) (high : a < base + size) :
    m.free base size a = none := by
  simp [free, low, high]

end Mem

end ReprC
