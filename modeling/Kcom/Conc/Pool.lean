import Mathlib.Algebra.BigOperators.Group.List.Basic
import Mathlib.Algebra.Ring.Nat

/-!
# Pools of threads and what they hold

A thread is a stack of pending operations: performing the first one may push
further operations in its place. Giving each operation a weight (how many
references it stands for, whether it lies in a critical section, ...) makes the
`load` of a pool the sum over every pending operation of every thread, and a
step of one thread changes it by exactly the weight it popped and the weight it
pushed (`load_set`). Counting invariants of an unbounded number of threads are
then equations between a shared counter and a load.

A finished thread stays in the pool with no operation left, so that indices are
stable names.
-/

namespace Conc

/-! ## Weighted sums -/

section Total

variable {α : Type} {w v : α → Nat} {l : List α} {i : Nat} {x : α}

/-- The total weight of a list. -/
def total (w : α → Nat) (l : List α) : Nat :=
  (l.map w).sum

@[simp] theorem total_nil : total w [] = 0 := rfl

@[simp] theorem total_cons : total w (x :: l) = w x + total w l := by
  simp [total]

@[simp] theorem total_append {l' : List α} : total w (l ++ l') = total w l + total w l' := by
  simp [total]

/-- Replacing one entry trades its weight for the new one. -/
theorem total_set (w : α → Nat) (y : α) (h : l[i]? = some x) :
    total w (l.set i y) + w x = total w l + w y := by
  induction l generalizing i with
  | nil => simp at h
  | cons z l ih =>
      cases i with
      | zero =>
          simp only [List.getElem?_cons_zero, Option.some.injEq] at h
          subst h
          simp only [List.set_cons_zero, total_cons]
          omega
      | succ i =>
          have tail := ih (i := i) h
          simp only [List.set_cons_succ, total_cons]
          omega

/-- The total without one entry. -/
theorem total_eraseIdx (w : α → Nat) (h : l[i]? = some x) :
    total w (l.eraseIdx i) + w x = total w l := by
  obtain ⟨bound, rfl⟩ := List.getElem?_eq_some_iff.mp h
  have inside : i < (l.map w).length := by rwa [List.length_map]
  have whole := List.add_sum_eraseIdx inside fun a _ => AddCommute.all _ a
  rw [List.getElem_map] at whole
  rw [total, total, ← whole, Nat.add_comm, List.eraseIdx_map]

theorem le_total (w : α → Nat) (h : l[i]? = some x) : w x ≤ total w l := by
  induction l generalizing i with
  | nil => simp at h
  | cons z l ih =>
      cases i with
      | zero =>
          simp only [List.getElem?_cons_zero, Option.some.injEq] at h
          subst h
          simp
      | succ i =>
          have tail := ih (i := i) h
          simp only [total_cons]
          omega

theorem le_total_of_mem (w : α → Nat) (h : x ∈ l) : w x ≤ total w l := by
  obtain ⟨i, h⟩ := List.mem_iff_getElem?.mp h
  exact le_total w h

theorem total_eq_zero : total w l = 0 ↔ ∀ x ∈ l, w x = 0 := by
  induction l with
  | nil => simp
  | cons z l ih => simp [ih]

theorem total_count [DecidableEq α] (a : α) :
    total (fun x => if x = a then 1 else 0) l = l.count a := by
  induction l with
  | nil => rfl
  | cons z l ih => simp [List.count_cons, ih, Nat.add_comm]

theorem total_add : total (fun x => w x + v x) l = total w l + total v l := by
  induction l with
  | nil => rfl
  | cons z l ih =>
      simp only [total_cons, ih]
      omega

theorem total_mono (le : ∀ x ∈ l, w x ≤ v x) : total w l ≤ total v l := by
  induction l with
  | nil => simp
  | cons z l ih =>
      have head := le z (by simp)
      have tail := ih fun x mem => le x (by simp [mem])
      simp only [total_cons]
      omega

theorem exists_of_total_pos (h : 0 < total w l) : ∃ x ∈ l, 0 < w x := by
  by_contra none
  have zero : total w l = 0 := total_eq_zero.mpr fun x mem => by
    by_contra pos
    exact none ⟨x, mem, Nat.pos_of_ne_zero pos⟩
  omega

end Total

/-! ## Threads -/

/-- A thread: a tag that stays with it, and the operations it has still to
perform, the next one first. -/
structure Thread (τ ι : Type) where
  tag : τ
  code : List ι
  deriving DecidableEq, Repr

variable {τ ι : Type}

/-- The weight of everything the threads of a pool have still to do. -/
def load (w : ι → Nat) (threads : List (Thread τ ι)) : Nat :=
  total (fun t => total w t.code) threads

section Load

variable {w v : ι → Nat} {threads : List (Thread τ ι)} {i : Nat} {g : τ} {op : ι}
  {rest : List ι} {t : Thread τ ι}

@[simp] theorem load_nil : load w ([] : List (Thread τ ι)) = 0 := rfl

@[simp] theorem load_append {others : List (Thread τ ι)} :
    load w (threads ++ others) = load w threads + load w others := by
  simp [load]

@[simp] theorem load_cons : load w (t :: threads) = total w t.code + load w threads := by
  simp [load]

/-- **One step of one thread.** The pool loses the weight of the operation
performed and gains the weight of the operations pushed. -/
theorem load_set (w : ι → Nat) (g' : τ) (push : List ι)
    (h : threads[i]? = some ⟨g, op :: rest⟩) :
    load w (threads.set i ⟨g', push ++ rest⟩) + w op = load w threads + total w push := by
  have swap := total_set (fun t : Thread τ ι => total w t.code) ⟨g', push ++ rest⟩ h
  simp only [total_append, total_cons] at swap
  simp only [load]
  omega

theorem weight_le_load (w : ι → Nat) (h : threads[i]? = some t) :
    total w t.code ≤ load w threads :=
  le_total (fun t : Thread τ ι => total w t.code) h

theorem head_le_load (w : ι → Nat) (h : threads[i]? = some ⟨g, op :: rest⟩) :
    w op ≤ load w threads := by
  have whole := weight_le_load w h
  simp only [total_cons] at whole
  omega

theorem load_eq_zero : load w threads = 0 ↔ ∀ t ∈ threads, ∀ op ∈ t.code, w op = 0 := by
  simp only [load, total_eq_zero]

theorem load_add : load (fun op => w op + v op) threads = load w threads + load v threads := by
  simp only [load, total_add]

theorem load_mono (le : ∀ op, w op ≤ v op) : load w threads ≤ load v threads :=
  total_mono fun _ _ => total_mono fun op _ => le op

theorem exists_of_load_pos (h : 0 < load w threads) :
    ∃ t ∈ threads, ∃ op ∈ t.code, 0 < w op := by
  obtain ⟨t, mem, pos⟩ := exists_of_total_pos h
  obtain ⟨op, opMem, opPos⟩ := exists_of_total_pos pos
  exact ⟨t, mem, op, opMem, opPos⟩

end Load

/-! ## Operations that lean on what the thread holds -/

/-- Every operation of a thread that `needs` something held is itself, or is
followed by, an operation of positive weight. -/
def Covered (needs : ι → Bool) (w : ι → Nat) : List ι → Prop
  | [] => True
  | op :: rest => (needs op = true → 0 < w op + total w rest) ∧ Covered needs w rest

section Covered

variable {needs : ι → Bool} {w : ι → Nat} {push rest : List ι}

/-- Code that needs nothing is covered. -/
theorem Covered.of_free {code : List ι} (free : ∀ op ∈ code, needs op = false) :
    Covered needs w code := by
  induction code with
  | nil => trivial
  | cons op rest ih =>
      refine ⟨fun need => ?_, ih fun op' mem => free op' (List.mem_cons_of_mem _ mem)⟩
      rw [free op List.mem_cons_self] at need
      cases need

theorem Covered.append (pushed : Covered needs w push) (rested : Covered needs w rest) :
    Covered needs w (push ++ rest) := by
  induction push with
  | nil => exact rested
  | cons op push ih =>
      rw [List.cons_append]
      refine ⟨?_, ih pushed.2⟩
      intro need
      have held := pushed.1 need
      rw [total_append]
      omega

/-- Anything may be pushed on code that still holds something. -/
theorem Covered.append_of_pos (push : List ι) (held : 0 < total w rest)
    (rested : Covered needs w rest) : Covered needs w (push ++ rest) := by
  induction push with
  | nil => exact rested
  | cons op push ih =>
      rw [List.cons_append]
      refine ⟨?_, ih⟩
      intro _
      rw [total_append]
      omega

theorem Covered.pos_of_mem {code : List ι} {op : ι} (covered : Covered needs w code)
    (mem : op ∈ code) (need : needs op = true) : 0 < total w code := by
  induction code with
  | nil => cases mem
  | cons head rest ih =>
      rcases List.mem_cons.mp mem with rfl | later
      · exact covered.1 need
      · have tail := ih covered.2 later
        rw [total_cons]
        omega

end Covered

end Conc
