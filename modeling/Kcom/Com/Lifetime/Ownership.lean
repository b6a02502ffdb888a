import Kcom.Com.Lifetime.Model
import Mathlib.Tactic.IntervalCases

/-!
# The life of an object

The counter is the number of outstanding references, and the object ends in the
call that gives the last of them back (`Inv`). The first holds because each call
counts exactly what it gives or takes; the second because an operation on the
object belongs to a call whose client owns a reference or has one on its way to
the counter, so that a counter of 0 leaves nobody else to touch the object.
-/

namespace Kcom.Com.Lifetime

open Conc

/-! ## Room in the counter -/

/-- How many references may be outstanding at once: fewer than 2^32, and no more
than `MAX_REFCOUNT` in a build whose counter saturates there. -/
def most : Hardening → Nat
  | .off => 2 ^ 32 - 1
  | .hardened => 2 ^ 32 - 1
  | .leaky => Refcount.maxRefcount

def Op.isAdd : Op → Bool
  | .add _ => true
  | _ => false

/-- A reference is added only while fewer than `limit` are outstanding. -/
def Room (limit : Nat) (s : State) : Label → Prop
  | .run i _ => (s.next i).any Op.isAdd = true → s.outstanding < limit
  | _ => True

instance (limit : Nat) (s : State) : (a : Label) → Decidable (Room limit s a)
  | .run i _ => inferInstanceAs (Decidable ((s.next i).any Op.isAdd = true → s.outstanding < limit))
  | .call _ _ => .isTrue trivial
  | .give _ _ => .isTrue trivial
  | .join => .isTrue trivial

section Counter

variable {mode : Hardening} {curr : Nat} {r : Nat × Nat}

theorem most_lt : most mode < 2 ^ 32 := by
  cases mode <;> decide

/-- With room, `add` counts the reference if it returns. -/
theorem add_of_room (room : curr < most mode) (added : Refcount.add mode curr = some r) :
    r.2 = curr + 1 := by
  have counts : curr < Refcount.capacity mode → r.2 = curr + 1 := by
    intro small
    rw [Refcount.add_eq small] at added
    rw [← Option.some.inj added]
  cases mode with
  | off => exact counts room
  | leaky => exact counts room
  | hardened =>
      apply counts
      by_contra full
      have stuck : Refcount.maxRefcount ≤ curr := Nat.not_lt.mp full
      rw [Refcount.add, if_pos stuck] at added
      cases added

theorem sub_of_pos (pos : 0 < curr) (small : curr < 2 ^ 32)
    (gone : Refcount.sub mode curr = some r) : r = (curr - 1, curr - 1) := by
  have nonzero : curr ≠ 0 := Nat.pos_iff_ne_zero.mp pos
  cases mode with
  | off =>
      have back : (curr + (2 ^ 32 - 1)) % 2 ^ 32 = curr - 1 := by omega
      rw [Refcount.sub, back] at gone
      exact (Option.some.inj gone).symm
  | hardened =>
      rw [Refcount.sub, if_neg nonzero] at gone
      exact (Option.some.inj gone).symm
  | leaky =>
      rw [Refcount.sub, if_neg nonzero] at gone
      exact (Option.some.inj gone).symm

end Counter

/-! ## What the operations of a call stand on -/

/-- The operations that end the object. -/
def Op.ends : Op → Bool
  | .readAlloc => true
  | .dropInner => true
  | .loadCount => true
  | .dealloc => true
  | .dropAlloc => true
  | _ => false

/-- The operations that need a live object. -/
def Op.needs (op : Op) : Bool :=
  op.touches && !op.ends

/-- Only the last operation of a call gives its reference back. -/
def SubLast : List Op → Prop
  | [] => True
  | op :: rest => (op = .sub → rest = []) ∧ SubLast rest

theorem SubLast.append {push rest : List Op} (none : .sub ∉ push) (last : SubLast rest) :
    SubLast (push ++ rest) := by
  induction push with
  | nil => exact last
  | cons op push ih =>
      rw [List.cons_append]
      refine ⟨?_, ih fun mem => none (List.mem_cons_of_mem _ mem)⟩
      rintro rfl
      exact absurd List.mem_cons_self none

/-- A client's code stands on what the client owns or on a reference that is part
of the code itself. -/
structure Sound (t : Thread Holdings Op) : Prop where
  covered : 0 < t.tag.count ∨ Covered Op.needs Op.refs t.code
  last : SubLast t.code

/-- Operations that use the object and leave references and its end alone. -/
def Op.plain : Op → Bool
  | .loadVtable => true
  | .loadParent => true
  | .loadOuter => true
  | .queryInterface _ _ => true
  | .add _ => true
  | _ => false

/-- Code that borrows a reference. -/
def Plain (code : List Op) : Prop :=
  ∀ op ∈ code, op.plain = true

section Plain

variable {p : Pointer} {g : Held} {c : Container} {riid : Option Guid} {smart : Bool}
  {code code' : List Op} {op : Op}

theorem Plain.append (plain : Plain code) (plain' : Plain code') : Plain (code ++ code') := by
  intro op mem
  rcases List.mem_append.mp mem with left | right
  · exact plain op left
  · exact plain' op right

theorem Plain.refs (plain : Plain code) : total Op.refs code = 0 := by
  apply total_eq_zero.mpr
  intro op mem
  have kind := plain op mem
  cases op <;> first | rfl | cases kind

theorem Plain.sub_notMem (plain : Plain code) : .sub ∉ code :=
  fun mem => Bool.noConfusion (plain _ mem)

theorem Plain.ends (plain : Plain code) (mem : op ∈ code) : op.ends = false := by
  have kind := plain op mem
  cases op <;> first | rfl | cases kind

theorem plain_enter : Plain (.loadVtable :: p.enter) := by
  cases p <;> simp [Plain, Pointer.enter, Op.plain]

theorem plain_addRef : Plain (addRef p g) := by
  apply plain_enter.append
  simp [Plain, Op.plain]

theorem plain_queryInterface : Plain (queryInterface c p riid smart) := by
  apply plain_enter.append
  split
  · simp [Plain]
  · split
    · cases p <;> simp [Plain, grantUnknown, Op.plain]
    · cases c <;> cases p <;> simp [Plain, locatePrimary, Op.plain]

end Plain

/-! ## Entering a call -/

section Enter

variable {c : Container} {t t' : Holdings} {f : Call} {code : List Op}

/-- What a call does with the caller's references: it converts one without
touching the object, borrows one, or takes one away to give it back. -/
theorem enter_cases (entered : f.enter c t = some (t', code)) :
    0 < t.count ∧
      (t'.count = t.count ∧ code = [] ∨ t' = t ∧ Plain code ∨
        t'.count + 1 = t.count ∧ ∃ p, code = release p) := by
  have erase {k : Nat} {p : Pointer} (found : t.rcs[k]? = some p) :
      (t.rcs.eraseIdx k).length + 1 = t.rcs.length := by
    obtain ⟨inside, -⟩ := List.getElem?_eq_some_iff.mp found
    rw [List.length_eraseIdx_of_lt inside]
    omega
  have owns {k : Nat} {p : Pointer} (found : t.rcs[k]? = some p) : 0 < t.count := by
    have one := erase found
    rw [Holdings.count]
    omega
  cases f with
  | addRef p =>
      obtain ⟨⟨-, pos⟩, eq⟩ := Option.ite_none_right_eq_some.mp entered
      cases eq
      exact ⟨pos, .inr (.inl ⟨rfl, plain_addRef⟩)⟩
  | release p =>
      obtain ⟨⟨-, pos⟩, eq⟩ := Option.ite_none_right_eq_some.mp entered
      cases eq
      simp only [Holdings.count]
      exact ⟨by omega, .inr (.inr ⟨by omega, p, rfl⟩)⟩
  | queryInterface p riid =>
      obtain ⟨⟨-, pos⟩, eq⟩ := Option.ite_none_right_eq_some.mp entered
      cases eq
      exact ⟨pos, .inr (.inl ⟨rfl, plain_queryInterface⟩)⟩
  | fromRaw p =>
      obtain ⟨⟨-, pos⟩, eq⟩ := Option.ite_none_right_eq_some.mp entered
      cases eq
      have kept : t.raw - 1 + (t.rcs ++ [p]).length = t.count := by
        simp only [Holdings.count, List.length_append, List.length_singleton]
        omega
      refine ⟨?_, .inl ⟨kept, rfl⟩⟩
      rw [Holdings.count]
      omega
  | fromRawAddRef p =>
      obtain ⟨⟨-, pos⟩, eq⟩ := Option.ite_none_right_eq_some.mp entered
      cases eq
      exact ⟨pos, .inr (.inl ⟨rfl, plain_addRef⟩)⟩
  | intoRaw k =>
      obtain ⟨p, found, eq⟩ := Option.map_eq_some_iff.mp entered
      cases eq
      have one := erase found
      refine ⟨owns found, .inl ⟨?_, rfl⟩⟩
      simp only [Holdings.count]
      omega
  | clone k =>
      obtain ⟨p, found, eq⟩ := Option.map_eq_some_iff.mp entered
      cases eq
      exact ⟨owns found, .inr (.inl ⟨rfl, plain_addRef⟩)⟩
  | rcQueryInterface k riid =>
      obtain ⟨p, found, eq⟩ := Option.map_eq_some_iff.mp entered
      cases eq
      exact ⟨owns found, .inr (.inl ⟨rfl, plain_queryInterface⟩)⟩
  | drop k =>
      obtain ⟨p, found, eq⟩ := Option.map_eq_some_iff.mp entered
      cases eq
      have one := erase found
      refine ⟨owns found, .inr (.inr ⟨?_, p, rfl⟩)⟩
      simp only [Holdings.count]
      omega

theorem covered_release (p : Pointer) : Covered Op.needs Op.refs (release p) := by
  cases p <;> simp [release, Pointer.enter, Covered, Op.needs, Op.refs]

theorem refs_release (p : Pointer) : total Op.refs (release p) = 1 := by
  cases p <;> rfl

/-- A call neither gains nor loses a reference by being called. -/
theorem enter_refs (entered : f.enter c t = some (t', code)) :
    t'.count + total Op.refs code = t.count := by
  rcases (enter_cases entered).2 with ⟨same, rfl⟩ | ⟨rfl, plain⟩ | ⟨one, p, rfl⟩
  · simpa using same
  · rw [plain.refs, Nat.add_zero]
  · rw [refs_release, one]

theorem enter_ends {op : Op} (entered : f.enter c t = some (t', code)) (mem : op ∈ code) :
    op.ends = false := by
  rcases (enter_cases entered).2 with ⟨-, rfl⟩ | ⟨-, plain⟩ | ⟨-, p, rfl⟩
  · cases mem
  · exact plain.ends mem
  · rcases List.mem_append.mp mem with left | right
    · exact plain_enter.ends left
    · rcases List.mem_singleton.mp right with rfl
      rfl

theorem enter_sound (entered : f.enter c t = some (t', code)) : Sound ⟨t', code⟩ := by
  rcases enter_cases entered with ⟨pos, ⟨-, rfl⟩ | ⟨rfl, plain⟩ | ⟨-, p, rfl⟩⟩
  · exact ⟨.inr trivial, trivial⟩
  · refine ⟨.inl pos, ?_⟩
    have last : SubLast (code ++ []) := SubLast.append plain.sub_notMem trivial
    rwa [List.append_nil] at last
  · refine ⟨.inr (covered_release p), ?_⟩
    exact SubLast.append plain_enter.sub_notMem ⟨fun _ => rfl, trivial⟩

end Enter

/-! ## Performing an operation -/

section Perform

variable {mode : Hardening} {answer : Option Granted} {i : Nat} {s s₁ : State}
  {t t' : Holdings} {op : Op} {push rest : List Op}

/-- The operations other than `add`, `gain` and `sub`, outside the end of the
object: they change nothing and push at most the code of an `AddRef`. -/
theorem perform_plain (plain : op.plain = true) (notAdd : op.isAdd = false)
    (performed : op.perform mode answer i s t = some (s₁, t', push)) :
    s₁ = s ∧ t' = t ∧ Plain push := by
  cases op with
  | loadVtable =>
      cases performed
      exact ⟨rfl, rfl, by simp [Plain]⟩
  | loadParent =>
      cases performed
      exact ⟨rfl, rfl, by simp [Plain]⟩
  | loadOuter =>
      cases performed
      exact ⟨rfl, rfl, by simp [Plain]⟩
  | queryInterface riid smart =>
      simp only [Op.perform] at performed
      split at performed
      · cases performed
        exact ⟨rfl, rfl, plain_addRef⟩
      · cases performed
        exact ⟨rfl, rfl, by simp [Plain]⟩
      · cases performed
        exact ⟨rfl, rfl, by simp [Plain]⟩
  | add g => cases notAdd
  | gain g => cases plain
  | sub => cases plain
  | readAlloc => cases plain
  | dropInner => cases plain
  | loadCount => cases plain
  | dealloc => cases plain
  | dropAlloc => cases plain

/-- What an operation of a live object does. -/
theorem perform_cases (alive : op.ends = false) (pos : op = .sub → 0 < s.refCount)
    (small : s.refCount < 2 ^ 32) (room : op.isAdd = true → s.refCount < most mode)
    (performed : op.perform mode answer i s t = some (s₁, t', push)) :
    (op.plain = true ∧ op.isAdd = false ∧ s₁ = s ∧ t' = t ∧ Plain push) ∨
    (∃ g, op = .add g ∧ s.refCount < most mode ∧
      s₁ = { s with refCount := s.refCount + 1 } ∧ t' = t ∧ push = [.gain g]) ∨
    (∃ g, op = .gain g ∧ s₁ = s ∧ t' = t.gain g ∧ push = []) ∨
    (op = .sub ∧ 1 < s.refCount ∧ s₁ = { s with refCount := s.refCount - 1 } ∧ t' = t ∧
      push = []) ∨
    (op = .sub ∧ s.refCount = 1 ∧
      s₁ = { s with refCount := 0, log := s.log ++ [.lastReference i] } ∧ t' = t ∧
      push = releaseInner) := by
  cases kind : op.plain with
  | true =>
      cases add : op.isAdd with
      | false => exact .inl ⟨rfl, rfl, perform_plain kind add performed⟩
      | true =>
          cases op with
          | add g =>
              obtain ⟨r, added, eq⟩ := Option.map_eq_some_iff.mp performed
              have counts := add_of_room (room rfl) added
              cases eq
              rw [counts]
              exact .inr (.inl ⟨g, rfl, room rfl, rfl, rfl, rfl⟩)
          | _ => cases add
  | false =>
      cases op with
      | gain g =>
          cases performed
          exact .inr (.inr (.inl ⟨g, rfl, rfl, rfl, rfl⟩))
      | sub =>
          obtain ⟨r, gone, eq⟩ := Option.map_eq_some_iff.mp performed
          have counts := sub_of_pos (pos rfl) small gone
          have above := pos rfl
          subst counts
          by_cases one : s.refCount = 1
          · have zero : s.refCount - 1 = 0 := by omega
            simp only [zero, if_true] at eq
            cases eq
            exact .inr (.inr (.inr (.inr ⟨rfl, one, rfl, rfl, rfl⟩)))
          · have left : s.refCount - 1 ≠ 0 := by omega
            simp only [left, if_false] at eq
            cases eq
            exact .inr (.inr (.inr (.inl ⟨rfl, by omega, rfl, rfl, rfl⟩)))
      | loadVtable => cases kind
      | loadParent => cases kind
      | loadOuter => cases kind
      | queryInterface riid smart => cases kind
      | add g => cases kind
      | readAlloc => cases alive
      | dropInner => cases alive
      | loadCount => cases alive
      | dealloc => cases alive
      | dropAlloc => cases alive

end Perform

/-! ## The invariant -/

/-- The references of one client, those in its call included. -/
def clientRefs (t : Thread Holdings Op) : Nat :=
  t.tag.count + total Op.refs t.code

theorem outstanding_eq (s : State) : s.outstanding = total clientRefs s.clients :=
  total_add.symm

/-- Nobody has begun to end the object. -/
structure Live (s : State) : Prop where
  log : s.log = []
  pos : 0 < s.refCount
  ends : ∀ t ∈ s.clients, ∀ op ∈ t.code, op.ends = false

/-- The log after `k` operations of `releaseInner` by client `i`. -/
def history (i : Nat) : Nat → List Event
  | 0 => [.lastReference i]
  | 1 => [.lastReference i]
  | 2 => [.lastReference i, .dropInner i]
  | 3 => [.lastReference i, .dropInner i]
  | _ => [.lastReference i, .dropInner i, .dealloc i]

/-- Client `i` has given the last reference back and has performed `k` operations
of the end of the object. -/
structure Ended (i k : Nat) (s : State) : Prop where
  log : s.log = history i k
  zero : s.refCount = 0
  bound : k ≤ releaseInner.length
  code : ∃ t, s.clients[i]? = some ⟨t, releaseInner.drop k⟩
  ends : ∀ j t, j ≠ i → s.clients[j]? = some t → ∀ op ∈ t.code, op.ends = false

structure Inv (s : State) : Prop where
  count : s.refCount = s.outstanding
  small : s.refCount < 2 ^ 32
  sound : ∀ t ∈ s.clients, Sound t
  phase : Live s ∨ ∃ i k, Ended i k s

section Inv

variable {mode : Hardening} {c : Container} {answer : Option Granted} {s s' s₁ : State}
  {i j k : Nat} {t t' : Holdings} {op : Op} {push rest : List Op} {x y : Thread Holdings Op}

theorem Inv.initial : Inv initial where
  count := rfl
  small := by decide
  sound t mem := by
    rcases List.mem_singleton.mp mem with rfl
    exact ⟨.inl (by decide), trivial⟩
  phase := by
    refine .inl ⟨rfl, by decide, ?_⟩
    intro t mem op opMem
    rcases List.mem_singleton.mp mem with rfl
    cases opMem

/-- Replacing a client trades its references for the new one's. -/
theorem outstanding_set (found : s.clients[i]? = some x) :
    (s₁.moved (s.clients.set i y)).outstanding + clientRefs x = s.outstanding + clientRefs y := by
  rw [outstanding_eq, outstanding_eq]
  exact total_set clientRefs y found

theorem sound_set (sound : ∀ t ∈ s.clients, Sound t) (new : Sound y) :
    ∀ t ∈ (s₁.moved (s.clients.set i y)).clients, Sound t := by
  intro t mem
  rcases List.mem_or_eq_of_mem_set mem with old | rfl
  · exact sound t old
  · exact new

theorem Live.set (live : Live s) (log : s₁.log = []) (pos : 0 < s₁.refCount)
    (new : ∀ op ∈ y.code, op.ends = false) : Live (s₁.moved (s.clients.set i y)) := by
  refine ⟨log, pos, ?_⟩
  intro t mem op opMem
  rcases List.mem_or_eq_of_mem_set mem with old | rfl
  · exact live.ends t old op opMem
  · exact new op opMem

/-- In an object that has ended no client owns anything. -/
theorem Ended.clientRefs (ended : Ended i k s) (inv : Inv s) (found : s.clients[j]? = some x) :
    clientRefs x = 0 := by
  have all := le_total Lifetime.clientRefs found
  rw [← outstanding_eq, ← inv.count, ended.zero] at all
  omega

/-- In an object that has ended only the client that ends it can perform an
operation. -/
theorem Ended.eq_of_run (ended : Ended i k s) (inv : Inv s)
    (found : s.clients[j]? = some ⟨t, op :: rest⟩) : j = i := by
  by_contra ne
  have none := ended.clientRefs inv found
  simp only [Lifetime.clientRefs, total_cons] at none
  have alive := ended.ends j _ ne found op List.mem_cons_self
  rcases (inv.sound _ (List.mem_of_getElem? found)).covered with pos | covered
  · simp only at pos
    omega
  · have uncovered : op.needs = true → False := by
      intro need
      have held := covered.1 need
      omega
    cases op <;> first | exact uncovered rfl | (simp only [Op.refs] at none; omega) | cases alive

/-! ### Steps of a live object -/

theorem Sound.plain (sound : Sound ⟨t, op :: rest⟩) (kind : op.plain = true)
    (plain : Plain push) : Sound ⟨t, push ++ rest⟩ := by
  refine ⟨?_, SubLast.append plain.sub_notMem sound.last.2⟩
  rcases sound.covered with pos | covered
  · exact .inl pos
  · have held : 0 < total Op.refs rest := by
      have needed := covered.1 (by cases op <;> first | rfl | cases kind)
      have free : op.refs = 0 := by cases op <;> first | rfl | cases kind
      omega
    exact .inr (Covered.append_of_pos push held covered.2)

theorem Sound.add {g : Held} (sound : Sound ⟨t, .add g :: rest⟩) : Sound ⟨t, [.gain g] ++ rest⟩ := by
  refine ⟨?_, SubLast.append (by simp) sound.last.2⟩
  rcases sound.covered with pos | covered
  · exact .inl pos
  · exact .inr ⟨fun need => Bool.noConfusion need, covered.2⟩

theorem Sound.gain {g : Held} (sound : Sound ⟨t, .gain g :: rest⟩) : Sound ⟨t.gain g, rest⟩ := by
  refine ⟨.inl ?_, sound.last.2⟩
  simp only [Holdings.count_gain]
  omega

theorem of_mem_releaseInner (mem : op ∈ releaseInner.drop k) : op.ends = true ∧ op.refs = 0 := by
  have whole := List.mem_of_mem_drop mem
  simp only [releaseInner, List.mem_cons, List.not_mem_nil, or_false] at whole
  rcases whole with rfl | rfl | rfl | rfl | rfl <;> exact ⟨rfl, rfl⟩

theorem sound_releaseInner (t : Holdings) (k : Nat) : Sound ⟨t, releaseInner.drop k⟩ := by
  refine ⟨.inr (.of_free fun op mem => ?_), ?_⟩
  · simp [Op.needs, (of_mem_releaseInner mem).1]
  · have last : SubLast (releaseInner.drop k ++ []) :=
      SubLast.append (fun mem => Bool.noConfusion (of_mem_releaseInner mem).1) trivial
    rwa [List.append_nil] at last

/-- The parts of the invariant that the new client decides. -/
theorem Inv.set (inv : Inv s) (found : s.clients[i]? = some x) (new : Sound y)
    (balance : s₁.refCount + clientRefs x = s.refCount + clientRefs y)
    (small : s₁.refCount < 2 ^ 32)
    (phase : Live (s₁.moved (s.clients.set i y)) ∨ ∃ j k, Ended j k (s₁.moved (s.clients.set i y))) :
    Inv (s₁.moved (s.clients.set i y)) := by
  refine ⟨?_, small, sound_set inv.sound new, phase⟩
  have moved : (s₁.moved (s.clients.set i y)).outstanding + _ = _ := outstanding_set found
  have count := inv.count
  simp only [State.moved_refCount]
  omega

/-- An operation of a live object. -/
theorem Inv.run_live (inv : Inv s) (live : Live s) (found : s.clients[i]? = some ⟨t, op :: rest⟩)
    (room : op.isAdd = true → s.outstanding < most mode)
    (performed : op.perform mode answer i s t = some (s₁, t', push)) :
    Inv (s₁.moved (s.clients.set i ⟨t', push ++ rest⟩)) := by
  have mem := List.mem_of_getElem? found
  have sound := inv.sound _ mem
  have here := live.ends _ mem
  have later : ∀ op' ∈ rest, op'.ends = false :=
    fun op' opMem => here op' (List.mem_cons_of_mem _ opMem)
  have bound : most mode < 2 ^ 32 := most_lt
  rw [← inv.count] at room
  rcases perform_cases (here op List.mem_cons_self) (fun _ => live.pos) inv.small room performed
    with ⟨kind, -, rfl, rfl, plain⟩ | ⟨g, rfl, space, rfl, rfl, rfl⟩ | ⟨g, rfl, rfl, rfl, rfl⟩ |
      ⟨rfl, several, rfl, rfl, rfl⟩ | ⟨rfl, one, rfl, rfl, rfl⟩
  · -- borrowing
    refine inv.set found (sound.plain kind plain) ?_ inv.small (.inl ?_)
    · have free : op.refs = 0 := by cases op <;> first | rfl | cases kind
      simp only [clientRefs, total_cons, total_append, plain.refs, free]
    · apply live.set live.log live.pos
      intro op' opMem
      rcases List.mem_append.mp opMem with new | old
      · exact plain.ends new
      · exact later op' old
  · -- counting up
    refine inv.set found sound.add ?_ (by simp only; omega) (.inl ?_)
    · simp only [clientRefs, total_cons, total_append, total_nil, Op.refs]
      omega
    · refine live.set ?_ ?_ ?_
      · exact live.log
      · exact Nat.succ_pos _
      · intro op' opMem
        rcases List.mem_cons.mp opMem with rfl | old
        · rfl
        · exact later op' old
  · -- returning the reference
    refine inv.set found sound.gain ?_ inv.small (.inl (live.set live.log live.pos later))
    simp only [clientRefs, total_cons, List.nil_append, Holdings.count_gain, Op.refs]
    omega
  · -- counting down, not to 0
    have done : rest = [] := sound.last.1 rfl
    subst done
    refine inv.set found ⟨.inr trivial, trivial⟩ ?_ ?_ (.inl ?_)
    · simp only [clientRefs, total_cons, total_nil, List.append_nil, Op.refs]
      omega
    · have small := inv.small
      simp only
      omega
    · refine live.set ?_ ?_ ?_
      · exact live.log
      · simp only
        omega
      · intro op' opMem
        cases opMem
  · -- the last reference
    have done : rest = [] := sound.last.1 rfl
    subst done
    refine inv.set found (sound_releaseInner _ 0) ?_ (Nat.two_pow_pos 32) (.inr ⟨i, 0, ?_⟩)
    · simp only [clientRefs, total_cons, total_nil, List.append_nil, Op.refs, releaseInner]
      omega
    · have inside := (List.getElem?_eq_some_iff.mp found).1
      refine ⟨?_, rfl, Nat.zero_le _, ⟨t', ?_⟩, ?_⟩
      · simp only [State.moved_log, live.log, List.nil_append, history]
      · simp [List.getElem?_set_self inside]
      · intro j u ne other op' opMem
        simp only [State.moved_clients, List.getElem?_set_ne (Ne.symm ne)] at other
        exact live.ends u (List.mem_of_getElem? other) op' opMem

/-! ### Steps of an object that has ended -/

/-- One more operation of the end of the object. -/
theorem Ended.perform (ended : Ended i k s)
    (found : s.clients[i]? = some ⟨t, op :: rest⟩)
    (performed : op.perform mode answer i s t = some (s₁, t', push)) :
    k < releaseInner.length ∧ t' = t ∧ op.refs = 0 ∧ push ++ rest = releaseInner.drop (k + 1) ∧
      s₁.refCount = 0 ∧ s₁.log = history i (k + 1) := by
  obtain ⟨u, code⟩ := ended.code
  rw [found] at code
  have same := Option.some.inj code
  obtain ⟨rfl, shape⟩ := Thread.mk.inj same
  have zero := ended.zero
  have log := ended.log
  have bound : k ≤ 5 := ended.bound
  interval_cases k
  · obtain ⟨rfl, rfl⟩ := List.cons.inj shape
    cases performed
    exact ⟨by decide, rfl, rfl, rfl, zero, log⟩
  · obtain ⟨rfl, rfl⟩ := List.cons.inj shape
    cases performed
    exact ⟨by decide, rfl, rfl, rfl, zero, by rw [log]; rfl⟩
  · obtain ⟨rfl, rfl⟩ := List.cons.inj shape
    simp only [Op.perform, zero, if_true] at performed
    cases performed
    exact ⟨by decide, rfl, rfl, rfl, zero, log⟩
  · obtain ⟨rfl, rfl⟩ := List.cons.inj shape
    cases performed
    exact ⟨by decide, rfl, rfl, rfl, zero, by rw [log]; rfl⟩
  · obtain ⟨rfl, rfl⟩ := List.cons.inj shape
    cases performed
    exact ⟨by decide, rfl, rfl, rfl, zero, log⟩
  · cases shape

theorem Inv.run_ended (inv : Inv s) (ended : Ended j k s)
    (found : s.clients[i]? = some ⟨t, op :: rest⟩)
    (performed : op.perform mode answer i s t = some (s₁, t', push)) :
    Inv (s₁.moved (s.clients.set i ⟨t', push ++ rest⟩)) := by
  obtain rfl := ended.eq_of_run inv found
  obtain ⟨bound, rfl, free, code, zero, log⟩ := ended.perform found performed
  have none := ended.clientRefs inv found
  simp only [clientRefs, total_cons, free] at none
  have weightless : total Op.refs (releaseInner.drop (k + 1)) = 0 :=
    total_eq_zero.mpr fun op' mem => (of_mem_releaseInner mem).2
  have inside := (List.getElem?_eq_some_iff.mp found).1
  rw [code]
  refine inv.set found (sound_releaseInner _ _) ?_ ?_ (.inr ⟨i, k + 1, log, zero, bound, ?_, ?_⟩)
  · rw [zero, ended.zero]
    simp only [clientRefs, total_cons, free, weightless]
    omega
  · rw [zero]
    exact Nat.two_pow_pos 32
  · refine ⟨t', ?_⟩
    rw [State.moved_clients, List.getElem?_set_self inside]
  · intro l u ne other op' opMem
    rw [State.moved_clients, List.getElem?_set_ne (Ne.symm ne)] at other
    exact ended.ends l u ne other op' opMem

/-! ### All steps -/

theorem Inv.run (inv : Inv s) (room : Room (most mode) s (.run i answer))
    (next : s.step mode c (.run i answer) = some s') : Inv s' := by
  obtain ⟨t, op, rest, s₁, t', push, found, performed, rfl⟩ := step_run next
  have head : s.next i = some op := by
    rw [State.next, found]
    rfl
  rw [Room, head, Option.any_some] at room
  rcases inv.phase with live | ⟨j, k, ended⟩
  · exact inv.run_live live found room performed
  · exact inv.run_ended ended found performed

/-- A call is made by a client that owns a reference, so the object is live. -/
theorem Inv.live_of_count (inv : Inv s) (found : s.clients[i]? = some x) (pos : 0 < x.tag.count) :
    Live s := by
  rcases inv.phase with live | ⟨j, k, ended⟩
  · exact live
  · have none := ended.clientRefs inv found
    simp only [clientRefs] at none
    omega

theorem Inv.call {f : Call} (inv : Inv s) (next : s.step mode c (.call i f) = some s') :
    Inv s' := by
  obtain ⟨t, t', code, found, entered, rfl⟩ := step_call next
  have live := inv.live_of_count found (enter_cases entered).1
  refine inv.set found (enter_sound entered) ?_ inv.small (.inl ?_)
  · have same := enter_refs entered
    simp only [clientRefs, total_nil]
    omega
  · exact live.set live.log live.pos fun op mem => enter_ends entered mem

theorem Inv.give (inv : Inv s) (next : s.step mode c (.give i j) = some s') : Inv s' := by
  obtain ⟨t, u, code, giver, taker, ne, pos, rfl⟩ := step_give next
  have live := inv.live_of_count giver (by simp only [Holdings.count]; omega)
  have taker' : (s.clients.set i ⟨{ t with raw := t.raw - 1 }, []⟩)[j]? = some ⟨u, code⟩ := by
    rw [List.getElem?_set_ne ne, taker]
  have sound := inv.sound _ (List.mem_of_getElem? taker)
  have members {x : Thread Holdings Op}
      (mem : x ∈ (s.clients.set i ⟨{ t with raw := t.raw - 1 }, []⟩).set j
        ⟨{ u with raw := u.raw + 1 }, code⟩) :
      x ∈ s.clients ∨ x.code = [] ∨ x = ⟨{ u with raw := u.raw + 1 }, code⟩ := by
    rcases List.mem_or_eq_of_mem_set mem with old | rfl
    · rcases List.mem_or_eq_of_mem_set old with older | rfl
      · exact .inl older
      · exact .inr (.inl rfl)
    · exact .inr (.inr rfl)
  refine ⟨?_, inv.small, ?_, .inl ⟨live.log, live.pos, ?_⟩⟩
  · have given := total_set clientRefs ⟨{ t with raw := t.raw - 1 }, []⟩ giver
    have taken := total_set clientRefs ⟨{ u with raw := u.raw + 1 }, code⟩ taker'
    have count := inv.count
    rw [outstanding_eq] at count ⊢
    simp only [clientRefs, Holdings.count, State.moved_clients, State.moved_refCount] at *
    omega
  · intro x mem
    rcases members mem with old | idle | rfl
    · exact inv.sound x old
    · obtain ⟨tag, code⟩ := x
      subst idle
      exact ⟨.inr trivial, trivial⟩
    · refine ⟨.inl ?_, sound.last⟩
      simp only [Holdings.count]
      omega
  · intro x mem op opMem
    rcases members mem with old | idle | rfl
    · exact live.ends x old op opMem
    · rw [idle] at opMem
      cases opMem
    · exact live.ends _ (List.mem_of_getElem? taker) op opMem

theorem Inv.join (inv : Inv s) (next : s.step mode c .join = some s') : Inv s' := by
  obtain rfl := Option.some.inj next
  refine ⟨?_, inv.small, ?_, ?_⟩
  · have count := inv.count
    rw [outstanding_eq] at count ⊢
    simp only [State.moved_clients, State.moved_refCount, total_append, total_cons, total_nil]
    exact count
  · intro x mem
    rcases List.mem_append.mp mem with old | new
    · exact inv.sound x old
    · rcases List.mem_singleton.mp new with rfl
      exact ⟨.inr trivial, trivial⟩
  · rcases inv.phase with live | ⟨i, k, ended⟩
    · refine .inl ⟨live.log, live.pos, ?_⟩
      intro x mem op opMem
      rcases List.mem_append.mp mem with old | new
      · exact live.ends x old op opMem
      · rcases List.mem_singleton.mp new with rfl
        cases opMem
    · obtain ⟨t, code⟩ := ended.code
      have inside := (List.getElem?_eq_some_iff.mp code).1
      refine .inr ⟨i, k, ended.log, ended.zero, ended.bound, ⟨t, ?_⟩, ?_⟩
      · rw [State.moved_clients, List.getElem?_append_left inside, code]
      · intro j u ne found op opMem
        rw [State.moved_clients, List.getElem?_append] at found
        split at found
        · exact ended.ends j u ne found op opMem
        · rcases List.mem_singleton.mp (List.mem_of_getElem? found) with rfl
          cases opMem

/-- Every state of a run with room in the counter satisfies the invariant. -/
theorem inv_of_reach (reached : (system mode c).Reach (Room (most mode)) s) : Inv s := by
  refine Sys.Reach.invariant ?_ ?_ reached
  · rintro s rfl
    exact Inv.initial
  · intro s a s' inv room step
    have next : s.step mode c a = some s' := step
    cases a with
    | run i answer => exact inv.run room next
    | call i f => exact inv.call next
    | give i j => exact inv.give next
    | join => exact inv.join next

end Inv

/-! ## The life of an object -/

/-- What clients rely on. -/
structure Orderly (mode : Hardening) (c : Container) (s : State) : Prop where
  /-- The counter is the number of outstanding references. -/
  count : s.refCount = s.outstanding
  /-- Nothing happens to the object while there is one. -/
  live : 0 < s.outstanding → s.log = []
  /-- The call that gives the last one back drops `inner` and then frees the block,
  once each. It cannot get stuck before, and has done both when it returns. -/
  ended : s.outstanding = 0 → ∃ i t, s.clients[i]? = some t ∧
    .lastReference i ∈ s.log ∧ s.log <+: [.lastReference i, .dropInner i, .dealloc i] ∧
    (t.code ≠ [] → (s.step mode c (.run i none)).isSome = true) ∧
    (t.code = [] → s.log = [.lastReference i, .dropInner i, .dealloc i])
  /-- From then on nobody owns a reference, and nobody touches the object but that
  call, which does not either once the block is freed. -/
  untouched : ∀ i, .lastReference i ∈ s.log → ∀ j t, s.clients[j]? = some t →
    t.tag.count = 0 ∧ (j ≠ i ∨ .dealloc i ∈ s.log → ∀ op ∈ t.code, op.touches = false)

section Ended

variable {mode : Hardening} {c : Container} {answer : Option Granted} {s : State}
  {i j k : Nat} {t : Thread Holdings Op} {op : Op}

theorem history_prefix : history i k <+: [.lastReference i, .dropInner i, .dealloc i] := by
  unfold history
  split <;> simp

theorem lastReference_mem_history : .lastReference j ∈ history i k ↔ j = i := by
  unfold history
  split <;> simp

theorem history_of_dealloc (mem : .dealloc j ∈ history i k) : 4 ≤ k := by
  by_contra early
  have bound : k ≤ 3 := by omega
  interval_cases k <;> simp [history] at mem

/-- In an object that has ended no other client has an operation on it left. -/
theorem Ended.touches_other (ended : Ended i k s) (inv : Inv s) (ne : j ≠ i)
    (found : s.clients[j]? = some t) (mem : op ∈ t.code) : op.touches = false := by
  have none := ended.clientRefs inv found
  have alive := ended.ends j t ne found op mem
  simp only [Lifetime.clientRefs] at none
  rcases (inv.sound t (List.mem_of_getElem? found)).covered with pos | covered
  · omega
  · by_contra touching
    have touched : op.touches = true := Bool.eq_true_of_not_eq_false touching
    have need : op.needs = true := by
      rw [Op.needs, alive, touched]
      rfl
    have held := covered.pos_of_mem mem need
    omega

/-- Nor has the one that ends it, once the block is freed. -/
theorem Ended.touches_own (ended : Ended i k s) (late : 4 ≤ k) (found : s.clients[i]? = some t)
    (mem : op ∈ t.code) : op.touches = false := by
  obtain ⟨u, code⟩ := ended.code
  rw [found] at code
  obtain rfl := Option.some.inj code
  obtain ⟨d, rfl⟩ := Nat.exists_eq_add_of_le late
  rw [← List.drop_drop] at mem
  have tail : op ∈ releaseInner.drop 4 := List.mem_of_mem_drop mem
  rcases List.mem_singleton.mp tail with rfl
  rfl

/-- The end of the object does not get stuck: the check for resurrection finds 0. -/
theorem Ended.proceeds (ended : Ended i k s) (found : s.clients[i]? = some t)
    (left : t.code ≠ []) : (s.step mode c (.run i answer)).isSome = true := by
  obtain ⟨u, code⟩ := ended.code
  rw [found] at code
  obtain rfl := Option.some.inj code
  have zero := ended.zero
  have bound : k < 5 := by
    by_contra returned
    exact left (List.drop_eq_nil_of_le (Nat.not_lt.mp returned))
  rw [State.step, found]
  interval_cases k <;> simp [releaseInner, Op.perform, zero]

end Ended

theorem orderly_of_inv {s : State} (mode : Hardening) (c : Container) (inv : Inv s) :
    Orderly mode c s := by
  rcases inv.phase with live | ⟨i, k, ended⟩
  · have pos : 0 < s.outstanding := by
      rw [← inv.count]
      exact live.pos
    refine ⟨inv.count, fun _ => live.log, fun none => ?_, fun i last => ?_⟩
    · omega
    · rw [live.log] at last
      cases last
  · have none : s.outstanding = 0 := by
      rw [← inv.count]
      exact ended.zero
    obtain ⟨t, code⟩ := ended.code
    refine ⟨inv.count, fun pos => ?_, fun _ => ⟨i, _, code, ?_⟩, fun i' last => ?_⟩
    · omega
    · rw [ended.log]
      refine ⟨lastReference_mem_history.mpr rfl, history_prefix, ended.proceeds code,
        fun returned => ?_⟩
      have last : releaseInner.length ≤ k := List.drop_eq_nil_iff.mp returned
      have all : k = 5 := Nat.le_antisymm ended.bound last
      rw [all]
      rfl
    · rw [ended.log] at last ⊢
      obtain rfl := lastReference_mem_history.mp last
      intro j u found
      have empty := ended.clientRefs inv found
      simp only [clientRefs] at empty
      refine ⟨by omega, fun which op opMem => ?_⟩
      by_cases same : j = i'
      · subst same
        rcases which with other | freed
        · exact absurd rfl other
        · exact ended.touches_own (history_of_dealloc freed) found opMem
      · exact ended.touches_other inv same found opMem

/-- **COM lifetime.** In every run with room in the counter, every state is
orderly. -/
theorem object_lifetime {mode : Hardening} {c : Container} {s : State}
    (reached : (system mode c).Reach (Room (most mode)) s) : Orderly mode c s :=
  orderly_of_inv mode c (inv_of_reach reached)

/-- An object with one secondary interface. -/
def pair : Container :=
  .comObjectN (.derived (.ofData1 1) [] .iUnknown) [.derived (.ofData1 2) [] .iUnknown]
    .globalAllocator

/-- Client `i` performs an operation that does not call `T::query_interface`. -/
abbrev go (i : Nat) : Label :=
  .run i none

/-- `ComRc::from_raw`, a clone that goes to another client as a raw pointer, a
`QueryInterface` by that client while the first one drops its `ComRc`, and the two
releases of the second client. -/
def twoClients : List Label :=
  [.join, .call 0 (.fromRaw .primary), .call 0 (.clone 0), go 0, go 0, go 0, go 0,
    .call 0 (.intoRaw 1), .give 0 1, .call 1 (.queryInterface .nonDelegating (some (.ofData1 2))),
    go 1, .call 0 (.drop 0), go 0, go 1, go 0, go 1, .run 1 (some (.own (.secondary 0))), go 0,
    go 1, go 1, go 1, go 1, go 1, .call 1 (.release (.secondary 0)), go 1, go 1, go 1, go 1,
    .call 1 (.release .primary), go 1, go 1, go 1, go 1, go 1, go 1, go 1, go 1]

theorem object_lifetime_of_two_clients :
    ∃ s, (system .off pair).Reach (Room (most .off)) s ∧
      s.log = [.lastReference 1, .dropInner 1, .dealloc 1] ∧ Orderly .off pair s := by
  obtain ⟨s, reached, done⟩ := Sys.Reach.exists_of_execIf
    (fun s : State => s.log = [.lastReference 1, .dropInner 1, .dealloc 1]) twoClients
    (.start rfl : (system .off pair).Reach (Room (most .off)) initial) (by decide)
  exact ⟨s, reached, done, object_lifetime reached⟩

/-! ## Saturation -/

/-- One client with `owned` references, idle, and the counter at `count`. -/
def held (count owned : Nat) : State :=
  ⟨count, [⟨⟨owned, []⟩, []⟩], []⟩

/-- A whole `AddRef` through the non-delegating pointer. -/
theorem reach_addRef {mode : Hardening} {c : Container} {count owned limit : Nat} {r : Nat × Nat}
    (pos : 0 < owned) (below : owned < limit)
    (added : Refcount.add mode count = some r)
    (reached : (system mode c).Reach (Room limit) (held count owned)) :
    (system mode c).Reach (Room limit) (held r.2 (owned + 1)) := by
  have called : (system mode c).Reach (Room limit)
      ⟨count, [⟨⟨owned, []⟩, addRef .nonDelegating .raw⟩], []⟩ := by
    refine .step (a := .call 0 (.addRef .nonDelegating)) reached trivial ?_
    simp [system, State.step, held, Call.enter, Pointer.valid, Holdings.count, pos, State.moved]
  have vtable : (system mode c).Reach (Room limit)
      ⟨count, [⟨⟨owned, []⟩, [.loadParent, .add .raw]⟩], []⟩ :=
    .step (a := .run 0 none) called (fun add => Bool.noConfusion add) rfl
  have parent : (system mode c).Reach (Room limit)
      ⟨count, [⟨⟨owned, []⟩, [.add .raw]⟩], []⟩ :=
    .step (a := .run 0 none) vtable (fun add => Bool.noConfusion add) rfl
  have counted : (system mode c).Reach (Room limit)
      ⟨r.2, [⟨⟨owned, []⟩, [.gain .raw]⟩], []⟩ := by
    refine .step (a := .run 0 none) parent (fun _ => below) ?_
    simp [system, State.step, Op.perform, added, State.moved]
  exact .step (a := .run 0 none) counted (fun add => Bool.noConfusion add) rfl

/-- One client can take references until the counter is full. -/
theorem reach_held {c : Container} {k : Nat} (pos : 1 ≤ k) (bound : k ≤ Refcount.maxRefcount) :
    (system .leaky c).Reach (Room (2 ^ 32 - 1)) (held k k) := by
  induction k, pos using Nat.le_induction with
  | base => exact .start rfl
  | succ k pos ih =>
      have room : k < Refcount.capacity .leaky := bound
      have below : k < 2 ^ 32 - 1 := room.trans (by decide)
      exact reach_addRef pos below (Refcount.add_eq room) (ih (Nat.le_of_lt bound))

/-- With `leaky-hardening` the counter stays behind from `i32::MAX + 1` references
on. -/
theorem leaky_counter_stays_behind :
    ∃ s, (system .leaky pair).Reach (Room (2 ^ 32 - 1)) s ∧
      s.refCount = 2 ^ 31 - 1 ∧ s.outstanding = 2 ^ 31 := by
  have full : (system .leaky pair).Reach (Room (2 ^ 32 - 1))
      (held Refcount.maxRefcount Refcount.maxRefcount) := reach_held (by decide) le_rfl
  have more := reach_addRef (by decide) (by decide) (by rw [Refcount.add, if_pos le_rfl]) full
  exact ⟨_, more, rfl, rfl⟩

end Kcom.Com.Lifetime
