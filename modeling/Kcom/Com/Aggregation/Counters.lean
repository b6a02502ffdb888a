import Kcom.Com.Aggregation.Calls
import Mathlib.Logic.Relation

/-!
# The two counters of an aggregated object

A run of an aggregated object starts at its constructor, which leaves one reference on the
non-delegating pointer, and goes on with calls on either pointer, in any order, as long as
there is a non-delegating reference. What the outer unknown does when it is called is its
own affair: it may write to any memory but the object's fields, and it may use the
non-delegating pointer itself, as an aggregating object does that gives up its inner
object in its last `Release`.

`counters_kept_apart` says what each call then does, and that `inner` is dropped when the
non-delegating references reach zero and at no other time.
-/

namespace Kcom.Com.Aggregated

open ReprC

/-- The pointer a call is made on. -/
inductive Pointer
  | nonDelegating
  | delegating
  deriving DecidableEq, Repr

inductive Call
  | addRef (p : Pointer)
  | release (p : Pointer)
  | queryInterface (p : Pointer) (riid : Option Guid) (ppv : Bool)
  deriving DecidableEq

namespace Call

/-- A call that adds a non-delegating reference. -/
def adds : Call → Bool
  | .addRef p => p = .nonDelegating
  | .release _ => false
  | .queryInterface p riid ppv => p = .nonDelegating && riid = some iidIUnknown && ppv

/-- A call that gives a non-delegating reference back. -/
def gives : Call → Bool
  | .addRef _ => false
  | .release p => p = .nonDelegating
  | .queryInterface _ _ _ => false

end Call

section Runs

variable {T : Impl} (x : Aggregated T) (mode : Hardening) (outer : OuterUnknown) (tgt : Target)

/-- The address of the pointer. -/
def address : Pointer → Nat
  | .nonDelegating => x.nonDelegating tgt
  | .delegating => x.ptr

/-- The memory a call leaves. -/
def perform (h : Heap) : Call → Option Heap
  | .addRef p => (invokeAddRef mode outer tgt T (x.address tgt p) h).map Prod.snd
  | .release p => (invokeRelease mode outer tgt T (x.address tgt p) h).map Prod.snd
  | .queryInterface p riid ppv =>
      (invokeQueryInterface mode outer tgt T (x.address tgt p) riid ppv h).map Prod.snd

/-- What code that moves no non-delegating reference does, the methods of `T` included: it
leaves the fields but `inner` alone until the block has been given back, and it drops other
values than `inner`. -/
structure Elsewhere (k : Nat) (h h' : Heap) : Prop where
  block : 0 < k → ∀ a, x.Inside tgt a → h'.mem a = h.mem a
  drops : ∃ others, h'.drops = h.drops ++ others ∧ x.inner tgt ∉ others

/-- What can happen to an object with `k` non-delegating references. `G k` is what a
caller heeds before it adds one. -/
inductive Move (G : Nat → Prop) : Nat × Heap → Nat × Heap → Prop
  | elsewhere {k : Nat} {h h' : Heap} : x.Elsewhere tgt k h h' → Move G (k, h) (k, h')
  | adds {call : Call} {k : Nat} {h h' : Heap} : call.adds = true → 0 < k → G k →
      x.perform mode outer tgt h call = some h' → Move G (k, h) (k + 1, h')
  | gives {call : Call} {k : Nat} {h h' : Heap} : call.gives = true → 0 < k →
      x.perform mode outer tgt h call = some h' → Move G (k, h) (k - 1, h')

/-- The runs. A call that moves no non-delegating reference ends in code of the outer
unknown, or returns at once. -/
inductive Run (G : Nat → Prop) : Nat → Heap → Prop
  | start {h h' : Heap} : x.inner tgt ∉ h.drops →
      tryNewAggregatedIn tgt T x.i x.alloc x.outerUnknown x.ptr h =
        some (x.nonDelegating tgt, h') → Run G 1 h'
  | move {k k' : Nat} {h h' : Heap} : Run G k h → x.Move mode outer tgt G (k, h) (k', h') →
      Run G k' h'
  | call {call : Call} {k k' : Nat} {h h' : Heap} : Run G k h → 0 < k → call.adds = false →
      call.gives = false → x.perform mode outer tgt h call = some h' →
      Relation.ReflTransGen (x.Move mode outer tgt G) (k, h) (k', h') → Run G k' h'

/-- What every call does on an object with `k` non-delegating references. -/
structure CountsApart (k : Nat) (h : Heap) : Prop where
  /-- The object counts the non-delegating references. -/
  refCount : h.countAt (x.refCount tgt) = some (Refcount.shown mode k)
  /-- An outer unknown that keeps to its own memory does not move that counter. -/
  apart : ∀ h', x.Elsewhere tgt k h h' →
    h'.countAt (x.refCount tgt) = h.countAt (x.refCount tgt)
  /-- The calls on the object pointer are those of the outer unknown. -/
  addRef : invokeAddRef mode outer tgt T x.ptr h = outer.addRef x.outerUnknown h
  release : invokeRelease mode outer tgt T x.ptr h = outer.release x.outerUnknown h
  queryInterface : ∀ riid ppv, invokeQueryInterface mode outer tgt T x.ptr riid ppv h =
    outer.queryInterface x.outerUnknown riid ppv h
  /-- An interface is found at the object pointer and counted by the outer unknown. -/
  grants : ∀ riid ∈ x.i.iids, riid ≠ iidIUnknown →
    invokeQueryInterface mode outer tgt T (x.nonDelegating tgt) (some riid) true h =
      (outer.addRef x.outerUnknown h).map fun r => (⟨statusSuccess, some x.ptr⟩, r.2)
  refuses : ∀ riid ∉ x.i.iids, riid ≠ iidIUnknown →
    invokeQueryInterface mode outer tgt T (x.nonDelegating tgt) (some riid) true h =
      some (⟨statusNoInterface, some 0⟩, h)
  null : ∀ riid ppv, riid = none ∨ ppv = false →
    invokeQueryInterface mode outer tgt T (x.nonDelegating tgt) riid ppv h =
      some (⟨statusNoInterface, none⟩, h)
  /-- `IUnknown` is the non-delegating pointer itself and counted by the object. -/
  unknown : k < Refcount.limit mode →
    invokeQueryInterface mode outer tgt T (x.nonDelegating tgt) (some iidIUnknown) true h =
      some (⟨statusSuccess, some (x.nonDelegating tgt)⟩,
        x.counted tgt (Refcount.shown mode (k + 1)) h)
  adds : k < Refcount.limit mode →
    invokeAddRef mode outer tgt T (x.nonDelegating tgt) h =
      some (Refcount.shown mode (k + 1), x.counted tgt (Refcount.shown mode (k + 1)) h)
  gives : 1 < k →
    invokeRelease mode outer tgt T (x.nonDelegating tgt) h =
      some (Refcount.shown mode (k - 1), x.counted tgt (Refcount.shown mode (k - 1)) h)
  last : k = 1 → invokeRelease mode outer tgt T (x.nonDelegating tgt) h = some (0, x.ended tgt h)

end Runs

section Invariant

variable {T : Impl} {x : Aggregated T} {mode : Hardening} {outer : OuterUnknown} {tgt : Target}
  {k k' : Nat} {h h' : Heap} {call : Call}

theorem refCount_inside : x.Inside tgt (x.refCount tgt) := by
  have word := tgt.width.bytes_pos
  have words : 6 * tgt.width.bytes ≤ (x.container.layout tgt T.layout).size := words_inside
  have starts : 6 * tgt.width.bytes ≤ x.container.offset tgt T.layout .inner := le_offset_inner
  rw [refCount_eq]
  refine ⟨⟨Nat.le_add_right _ _, by omega⟩, ?_⟩
  rw [inner]
  omega

theorem Stands.elsewhere {n : Nat} (stands : x.Stands tgt n h) (pos : 0 < k)
    (kept : x.Elsewhere tgt k h h') : x.Stands tgt n h' := by
  apply stands.of_agree
  · intro a inside _
    exact kept.block pos a inside
  · have loads : h'.countAt (x.refCount tgt) = h.countAt (x.refCount tgt) := by
      rw [Heap.countAt, Heap.countAt, kept.block pos _ refCount_inside]
    exact loads.trans stands.refCount

/-! ## The calls that move a non-delegating reference -/

section Own

variable (stands : x.Stands tgt (Refcount.shown mode k) h)

include stands

theorem addRef_shown (room : k < Refcount.limit mode) :
    invokeAddRef mode outer tgt T (x.nonDelegating tgt) h =
      some (Refcount.shown mode (k + 1), x.counted tgt (Refcount.shown mode (k + 1)) h) := by
  rw [addRef_nonDelegating stands, Refcount.add_shown room]
  rfl

theorem queryInterface_shown (room : k < Refcount.limit mode) :
    invokeQueryInterface mode outer tgt T (x.nonDelegating tgt) (some iidIUnknown) true h =
      some (⟨statusSuccess, some (x.nonDelegating tgt)⟩,
        x.counted tgt (Refcount.shown mode (k + 1)) h) := by
  rw [queryInterface_nonDelegating stands, if_pos rfl, Refcount.add_shown room]
  rfl

/-- Within the limit the counter shows 0 only after the last `Release`. -/
theorem release_shown (pos : 1 < k) (room : k ≤ Refcount.limit mode) :
    invokeRelease mode outer tgt T (x.nonDelegating tgt) h =
      some (Refcount.shown mode (k - 1), x.counted tgt (Refcount.shown mode (k - 1)) h) := by
  have left : Refcount.shown mode (k - 1) ≠ 0 :=
    Nat.pos_iff_ne_zero.mp (Refcount.shown_pos (by omega) (by omega))
  rw [release_nonDelegating stands, Refcount.sub_shown (by omega)]
  simp only [Option.bind_some, left, if_false]

theorem release_last (one : k = 1) :
    invokeRelease mode outer tgt T (x.nonDelegating tgt) h = some (0, x.ended tgt h) := by
  subst one
  have zero : Refcount.shown mode 0 = 0 := by cases mode <;> rfl
  rw [release_nonDelegating stands, Refcount.sub_shown (by decide)]
  simp only [Option.bind_some, Nat.sub_self, zero, if_true]

theorem perform_adds (adds : call.adds = true) (room : k < Refcount.limit mode) :
    x.perform mode outer tgt h call =
      some (x.counted tgt (Refcount.shown mode (k + 1)) h) := by
  cases call with
  | addRef p =>
      obtain rfl : p = .nonDelegating := of_decide_eq_true adds
      simp only [perform, address, addRef_shown stands room, Option.map_some]
  | release p => cases adds
  | queryInterface p riid ppv =>
      simp only [Call.adds, Bool.and_eq_true, decide_eq_true_eq] at adds
      obtain ⟨⟨rfl, rfl⟩, rfl⟩ := adds
      simp only [perform, address, queryInterface_shown stands room, Option.map_some]

theorem perform_gives (gives : call.gives = true) (pos : 0 < k)
    (room : k ≤ Refcount.limit mode) :
    x.perform mode outer tgt h call =
      some (if k = 1 then x.ended tgt h else x.counted tgt (Refcount.shown mode (k - 1)) h) := by
  cases call with
  | addRef p => cases gives
  | release p =>
      obtain rfl : p = .nonDelegating := of_decide_eq_true gives
      by_cases one : k = 1
      · simp only [perform, address, release_last stands one, Option.map_some, one, if_true]
      · simp only [perform, address, release_shown stands (by omega) room, Option.map_some, one,
          if_false]
  | queryInterface p riid ppv => cases gives

end Own

/-! ## The invariant -/

variable (x mode tgt) in
/-- The object stands and counts its references while it has any, and `inner` has been
dropped once when it has none. -/
structure Sound (k : Nat) (h : Heap) : Prop where
  room : k ≤ Refcount.limit mode
  stands : 0 < k → x.Stands tgt (Refcount.shown mode k) h
  drops : h.drops.count (x.inner tgt) = if k = 0 then 1 else 0

theorem Sound.start (fresh : x.inner tgt ∉ h.drops)
    (made : tryNewAggregatedIn tgt T x.i x.alloc x.outerUnknown x.ptr h =
      some (x.nonDelegating tgt, h')) : x.Sound mode tgt 1 h' := by
  rw [tryNewAggregatedIn_eq] at made
  cases made
  have one : Refcount.shown mode 1 = 1 := by cases mode <;> rfl
  refine ⟨by cases mode <;> decide, ?_, ?_⟩
  · intro _
    rw [one]
    exact stands_constructed
  · exact List.count_eq_zero.mpr fresh

theorem Sound.elsewhere (sound : x.Sound mode tgt k h) (kept : x.Elsewhere tgt k h h') :
    x.Sound mode tgt k h' := by
  refine ⟨sound.room, fun pos => (sound.stands pos).elsewhere pos kept, ?_⟩
  obtain ⟨others, appended, foreign⟩ := kept.drops
  rw [appended, List.count_append, List.count_eq_zero.mpr foreign]
  exact sound.drops

theorem Sound.adds (sound : x.Sound mode tgt k h) (adds : call.adds = true) (pos : 0 < k)
    (room : k < Refcount.limit mode) (done : x.perform mode outer tgt h call = some h') :
    x.Sound mode tgt (k + 1) h' := by
  rw [perform_adds (sound.stands pos) adds room] at done
  cases done
  refine ⟨room, fun _ => (sound.stands pos).counted, ?_⟩
  have never : h.drops.count (x.inner tgt) = 0 := by
    rw [sound.drops, if_neg (Nat.pos_iff_ne_zero.mp pos)]
  rw [if_neg (Nat.succ_ne_zero k)]
  exact never

theorem Sound.gives (sound : x.Sound mode tgt k h) (gives : call.gives = true) (pos : 0 < k)
    (done : x.perform mode outer tgt h call = some h') : x.Sound mode tgt (k - 1) h' := by
  rw [perform_gives (sound.stands pos) gives pos sound.room] at done
  have never : h.drops.count (x.inner tgt) = 0 := by
    rw [sound.drops, if_neg (Nat.pos_iff_ne_zero.mp pos)]
  have room := sound.room
  by_cases one : k = 1
  · subst one
    rw [if_pos rfl] at done
    cases done
    refine ⟨Nat.zero_le _, fun more => absurd more (by decide), ?_⟩
    -- The drop of the last `Release` is the only one.
    have dropped : (x.ended tgt h).drops = h.drops ++ [x.inner tgt] := rfl
    rw [dropped, List.count_append, never, List.count_singleton_self]
    rfl
  · rw [if_neg one] at done
    cases done
    refine ⟨by omega, fun _ => (sound.stands pos).counted, ?_⟩
    rw [if_neg (by omega)]
    exact never

theorem Sound.move {e e' : Nat × Heap} (sound : x.Sound mode tgt e.1 e.2)
    (move : x.Move mode outer tgt (· < Refcount.limit mode) e e') :
    x.Sound mode tgt e'.1 e'.2 := by
  cases move with
  | elsewhere kept => exact sound.elsewhere kept
  | adds adds pos room done => exact sound.adds adds pos room done
  | gives gives pos done => exact sound.gives gives pos done

theorem Sound.moves {e e' : Nat × Heap} (sound : x.Sound mode tgt e.1 e.2)
    (moves : Relation.ReflTransGen (x.Move mode outer tgt (· < Refcount.limit mode)) e e') :
    x.Sound mode tgt e'.1 e'.2 := by
  induction moves with
  | refl => exact sound
  | tail _ move ih => exact ih.move move

theorem sound_of_run (run : x.Run mode outer tgt (· < Refcount.limit mode) k h) :
    x.Sound mode tgt k h := by
  induction run with
  | start fresh made => exact .start fresh made
  | move _ move ih => exact ih.move move
  | call _ _ _ _ _ moves ih => exact ih.moves moves

theorem Sound.countsApart (sound : x.Sound mode tgt k h) (pos : 0 < k) :
    x.CountsApart mode outer tgt k h where
  refCount := (sound.stands pos).refCount
  apart h' kept := by
    rw [((sound.stands pos).elsewhere pos kept).refCount, (sound.stands pos).refCount]
  addRef := addRef_delegating (sound.stands pos)
  release := release_delegating (sound.stands pos)
  queryInterface riid ppv := queryInterface_delegating (sound.stands pos)
  grants riid mem ne := by
    rw [queryInterface_nonDelegating (sound.stands pos), if_neg ne, if_pos mem]
  refuses riid mem ne := by
    rw [queryInterface_nonDelegating (sound.stands pos), if_neg ne, if_neg mem]
  null riid ppv null := queryInterface_null (sound.stands pos) null
  unknown room := queryInterface_shown (sound.stands pos) room
  adds room := addRef_shown (sound.stands pos) room
  gives more := release_shown (sound.stands pos) more sound.room
  last one := release_last (sound.stands pos) one

/-- **Aggregation keeps the two counters apart**, in every run in which a non-delegating
reference is added only while the counter has room for it. -/
theorem counters_kept_apart (run : x.Run mode outer tgt (· < Refcount.limit mode) k h) :
    (0 < k → x.CountsApart mode outer tgt k h) ∧
      h.drops.count (x.inner tgt) = if k = 0 then 1 else 0 := by
  have sound := sound_of_run run
  exact ⟨sound.countsApart, sound.drops⟩

/-! ## Runs made of calls -/

section Calls

variable {G : Nat → Prop} {n : Nat}

variable (run : x.Run mode outer tgt G k h) (pos : 0 < k) (stands : x.Stands tgt n h)

include run pos stands

theorem Run.addRef (heeded : G k) {next : Nat} (counts : Refcount.add mode n = some (next, next)) :
    x.Run mode outer tgt G (k + 1) (x.counted tgt next h) := by
  have added : x.perform mode outer tgt h (.addRef .nonDelegating) =
      some (x.counted tgt next h) := by
    simp only [perform, address, addRef_nonDelegating stands, counts, Option.map_some]
  refine .move run (.adds ?_ pos heeded added)
  rfl

theorem Run.release {next : Nat} (counts : Refcount.sub mode n = some (next, next))
    (left : next ≠ 0) : x.Run mode outer tgt G (k - 1) (x.counted tgt next h) := by
  have given : x.perform mode outer tgt h (.release .nonDelegating) =
      some (x.counted tgt next h) := by
    simp only [perform, address, release_nonDelegating stands, counts, Option.bind_some, left,
      if_false, Option.map_some]
  refine .move run (.gives ?_ pos given)
  rfl

theorem Run.releaseLast (counts : Refcount.sub mode n = some (0, 0)) :
    x.Run mode outer tgt G (k - 1) (x.ended tgt h) := by
  have given : x.perform mode outer tgt h (.release .nonDelegating) = some (x.ended tgt h) := by
    simp only [perform, address, release_nonDelegating stands, counts, Option.bind_some, if_true,
      Option.map_some]
  refine .move run (.gives ?_ pos given)
  rfl

end Calls

/-- A store outside the block is none of the object's. -/
theorem Elsewhere.write {a : Nat} {c : Cell} (outside : ¬x.Inside tgt a) :
    x.Elsewhere tgt k h (h.write a c) := by
  refine ⟨fun _ b inside => ?_, [], (List.append_nil _).symm, List.not_mem_nil⟩
  apply Mem.write_of_ne
  rintro rfl
  exact outside inside

end Invariant

/-! ## An outer unknown with a counter -/

namespace Counting

/-- An outer unknown whose counter stands at its own address. It answers every
`QueryInterface` with itself. -/
def outer : OuterUnknown where
  addRef o h := addAt .off o h
  release o h := subAt .off o h
  queryInterface o _ _ h := (addAt .off o h).map fun r => (⟨statusSuccess, some o⟩, r.2)

/-- A `ComObject::<T, I2Vtbl>` aggregated by it. -/
def object : Aggregated Pair.impl where
  i := Pair.i2
  alloc := .global
  outerUnknown := 0x100
  ptr := 0x1000
  single _ _ := rfl
  delegates := by decide
  nonnull := by decide

/-- The outer unknown has one reference. -/
def before : Heap :=
  Heap.empty.write 0x100 (.count 1)

/-- The aggregated object is built. -/
def built : Heap :=
  { before with
    mem := object.constructed (.packed .w64) before.mem
    allocs := [⟨.global, object.container.layout (.packed .w64) Pair.impl.layout, 0x1000⟩] }

theorem started {G : Nat → Prop} : object.Run .off outer (.packed .w64) G 1 built :=
  .start List.not_mem_nil (tryNewAggregatedIn_eq (h := before))

theorem outside : ¬object.Inside (.packed .w64) 0x100 :=
  fun inside => absurd inside.1.1 (by decide)

/-- `I2` is asked for, and the reference given back: the outer unknown's counter goes to
2 and back to 1. -/
def returned : Heap :=
  (built.write 0x100 (.count 2)).write 0x100 (.count 1)

theorem run_returned {G : Nat → Prop} : object.Run .off outer (.packed .w64) G 1 returned := by
  have asks : object.perform .off outer (.packed .w64) built
      (.queryInterface .nonDelegating (some Pair.i2.iid) true) =
        some (built.write 0x100 (.count 2)) := rfl
  have asked : object.Run .off outer (.packed .w64) G 1 (built.write 0x100 (.count 2)) :=
    .call started (by decide) (by decide) (by decide) asks (.single (.elsewhere (.write outside)))
  have gives : object.perform .off outer (.packed .w64) (built.write 0x100 (.count 2))
      (.release .delegating) = some returned := rfl
  exact .call asked (by decide) (by decide) (by decide) gives
    (.single (.elsewhere (.write outside)))

theorem stands_returned : object.Stands (.packed .w64) 1 returned :=
  (sound_of_run run_returned).stands (by decide)

end Counting

open Counting in
/-- With a second non-delegating reference the object stands, and when both are given
back `inner` has been dropped once. -/
theorem counters_kept_apart_of_counting :
    ∃ h h', object.Run .off outer (.packed .w64) (· < Refcount.limit .off) 2 h ∧
      object.CountsApart .off outer (.packed .w64) 2 h ∧
      object.Run .off outer (.packed .w64) (· < Refcount.limit .off) 0 h' ∧
      h'.drops.count (object.inner (.packed .w64)) = 1 := by
  have two : object.Run .off outer (.packed .w64) (· < Refcount.limit .off) 2 _ :=
    run_returned.addRef (by decide) stands_returned (by decide) rfl
  have stands := stands_returned.counted (k := 2)
  have one : object.Run .off outer (.packed .w64) (· < Refcount.limit .off) 1 _ :=
    two.release (by decide) stands rfl (by decide)
  have ended : object.Run .off outer (.packed .w64) (· < Refcount.limit .off) 0 _ :=
    one.releaseLast (by decide) stands.counted rfl
  exact ⟨_, _, two, (counters_kept_apart two).1 (by decide), ended,
    (counters_kept_apart ended).2⟩

/-! ## A counter with no room left -/

section Wrapping

variable {T : Impl} {x : Aggregated T} {outer : OuterUnknown} {tgt : Target} {k : Nat} {h : Heap}

/-- Without hardening and with no heed to the limit, references can be added for ever. -/
theorem Run.addRefs (run : x.Run .off outer tgt (fun _ => True) k h) (pos : 0 < k)
    (stands : x.Stands tgt (Refcount.shown .off k) h) (m : Nat) :
    ∃ h', x.Run .off outer tgt (fun _ => True) (k + m) h' ∧
      x.Stands tgt (Refcount.shown .off (k + m)) h' ∧ h'.drops = h.drops := by
  induction m with
  | zero => exact ⟨h, run, stands, rfl⟩
  | succ m ih =>
      obtain ⟨h', run', stands', drops⟩ := ih
      have counts : Refcount.add .off (Refcount.shown .off (k + m)) =
          some (Refcount.shown .off (k + m + 1), Refcount.shown .off (k + m + 1)) := by
        simp [Refcount.add, Refcount.shown]
      refine ⟨_, run'.addRef ?_ stands' trivial counts, stands'.counted, drops⟩
      omega

end Wrapping

open Counting in
/-- After 2 ^ 32 more references the counter is at 1 again, and the next `Release` drops
`inner` with 2 ^ 32 of them outstanding. -/
theorem inner_dropped_early :
    ∃ k h, 0 < k ∧ object.Run .off outer (.packed .w64) (fun _ => True) k h ∧
      h.drops.count (object.inner (.packed .w64)) = 1 := by
  obtain ⟨h, run, stands, drops⟩ :=
    run_returned.addRefs (by decide) stands_returned (2 ^ 32)
  have zero : Refcount.sub .off (Refcount.shown .off (1 + 2 ^ 32)) = some (0, 0) := by decide
  refine ⟨1 + 2 ^ 32 - 1, _, by decide, run.releaseLast (by decide) stands zero, ?_⟩
  have dropped : (object.ended (.packed .w64) h).drops =
      h.drops ++ [object.inner (.packed .w64)] := rfl
  rw [dropped, drops]
  rfl

end Kcom.Com.Aggregated
