import Kcom.Com.Single

/-!
# Where the memory of an object goes back

`try_new_in` takes the block from the allocator value it is given and keeps the
value in the object. `Release` is called through the vtable, and the vtable
constructor `IUnknownVtbl::new::<T, I>` has no allocator parameter: its shims are
those of the instance with `GlobalAllocator`. `memory_given_back` says for which
objects and which sequences of calls the block returns to the allocator it came
from, with the layout it was allocated with.
-/

namespace Kcom.Com

open ReprC

/-! ## Sequences of calls -/

/-- A call on an interface pointer: of a vtable slot, or of `ComRc`. -/
inductive Call
  | addRef
  | release
  | clone
  | drop
  deriving DecidableEq, Repr

/-- A call that adds a reference. The others give one back. -/
def Call.adds : Call → Bool
  | .addRef => true
  | .release => false
  | .clone => true
  | .drop => false

section Calls

variable (mode : Hardening) (outer : OuterUnknown) (tgt : Target) (T : Impl) (ptr : Nat)

/-- `ComRc::clone` and `drop` call the slots through the vtable of the pointer
they hold, as a client that calls them directly does. -/
def Call.perform (h : Heap) : Call → Option Heap
  | .addRef => (invokeAddRef mode outer tgt T ptr h).map Prod.snd
  | .release => (invokeRelease mode outer tgt T ptr h).map Prod.snd
  | .clone => (invokeAddRef mode outer tgt T ptr h).map Prod.snd
  | .drop => (invokeRelease mode outer tgt T ptr h).map Prod.snd

/-- The calls one after the other. -/
def performAll (h : Heap) : List Call → Option Heap
  | [] => some h
  | call :: calls => (call.perform mode outer tgt T ptr h).bind fun h' => performAll h' calls

end Calls

/-- How many references are outstanding after the calls, from `k` on. There is
none to call with once the last is given back. -/
def outstanding : Nat → List Call → Option Nat
  | k, [] => some k
  | 0, _ :: _ => none
  | k + 1, call :: calls => if call.adds then outstanding (k + 2) calls else outstanding k calls

/-- The largest number of references outstanding at once. -/
def peak : Nat → List Call → Nat
  | k, [] => k
  | k, call :: calls => max k (if call.adds then peak (k + 1) calls else peak (k - 1) calls)

theorem le_peak (k : Nat) (calls : List Call) : k ≤ peak k calls := by
  cases calls with
  | nil => exact le_rfl
  | cons call calls => exact le_max_left _ _

/-! ## What the counter does -/

/-- The counter under a sequence of calls, from `n` on: `some (some n')` is a live
object with the count `n'`, `some none` one that the last call has freed, `none`
a call that does not return or is made on a freed object. -/
def tally (mode : Hardening) : Nat → List Call → Option (Option Nat)
  | n, [] => some (some n)
  | n, call :: calls =>
      if call.adds then (Refcount.add mode n).bind fun r => tally mode r.2 calls
      else
        (Refcount.sub mode n).bind fun r =>
          if r.1 = 0 then if calls = [] then some none else none
          else tally mode r.2 calls

section Tally

variable {mode : Hardening} {k n : Nat} {call : Call} {calls : List Call}

theorem outstanding_adds (adds : call.adds = true) (pos : 0 < k) :
    outstanding k (call :: calls) = outstanding (k + 1) calls := by
  obtain ⟨k, rfl⟩ := Nat.exists_eq_add_of_lt pos
  simp [outstanding, adds]

theorem outstanding_gives (gives : call.adds = false) (pos : 0 < k) :
    outstanding k (call :: calls) = outstanding (k - 1) calls := by
  obtain ⟨k, rfl⟩ := Nat.exists_eq_add_of_lt pos
  simp [outstanding, gives]

/-- Nothing can be called once no reference is left. -/
theorem outstanding_zero (last : outstanding 0 calls = some 0) : calls = [] := by
  cases calls with
  | nil => rfl
  | cons call calls => cases last

theorem tally_adds (adds : call.adds = true) (room : k < Refcount.limit mode) :
    tally mode (Refcount.shown mode k) (call :: calls) =
      tally mode (Refcount.shown mode (k + 1)) calls := by
  rw [tally, if_pos adds, Refcount.add_shown room]
  rfl

theorem tally_gives (gives : call.adds = false) (pos : 1 < k) (room : k ≤ Refcount.limit mode) :
    tally mode (Refcount.shown mode k) (call :: calls) =
      tally mode (Refcount.shown mode (k - 1)) calls := by
  have left : Refcount.shown mode (k - 1) ≠ 0 :=
    Nat.pos_iff_ne_zero.mp (Refcount.shown_pos (by omega) (by omega))
  rw [tally, if_neg (by simp [gives]), Refcount.sub_shown (by omega)]
  simp only [Option.bind_some, left, if_false]

theorem tally_last (gives : call.adds = false) :
    tally mode (Refcount.shown mode 1) (call :: calls) =
      if calls = [] then some none else none := by
  have zero : Refcount.shown mode 0 = 0 := by cases mode <;> rfl
  rw [tally, if_neg (by simp [gives]), Refcount.sub_shown (by decide)]
  simp only [Option.bind_some, Nat.sub_self, zero, if_true]

/-- Within the limit the call that gives back the last reference frees the
object, and no earlier one does. -/
theorem tally_of_peak_le (pos : 0 < k) (last : outstanding k calls = some 0)
    (within : peak k calls ≤ Refcount.limit mode) :
    tally mode (Refcount.shown mode k) calls = some none := by
  induction calls generalizing k with
  | nil =>
      cases last
      exact absurd pos (by decide)
  | cons call calls ih =>
      rw [peak] at within
      cases adds : call.adds with
      | true =>
          simp only [adds, if_true] at within
          have next := le_peak (k + 1) calls
          rw [outstanding_adds adds pos] at last
          rw [tally_adds adds (by omega)]
          exact ih (by omega) last (by omega)
      | false =>
          simp only [adds, Bool.false_eq_true, if_false] at within
          rw [outstanding_gives adds pos] at last
          by_cases one : k = 1
          · subst one
            rw [tally_last adds, if_pos (outstanding_zero last)]
          · rw [tally_gives adds (by omega) (by omega)]
            exact ih (by omega) last (by omega)

/-- The counter `n` has lost track of `k` references. -/
def Lost : Hardening → Nat → Nat → Prop
  | .off, k, n => 2 ^ 32 < k ∧ n = k % 2 ^ 32
  | .hardened, _, _ => False
  | .leaky, k, n => 0 < n ∧ n < k

theorem Lost.pos (lost : Lost mode k n) : 0 < k := by
  cases mode with
  | off => exact Nat.zero_lt_of_lt lost.1
  | hardened => exact lost.elim
  | leaky => exact Nat.zero_lt_of_lt lost.2

theorem Lost.add {r : Nat × Nat} (lost : Lost mode k n) (added : Refcount.add mode n = some r) :
    Lost mode (k + 1) r.2 := by
  cases mode with
  | off =>
      obtain ⟨above, rfl⟩ := lost
      obtain rfl := Option.some.inj added
      refine ⟨Nat.lt_succ_of_lt above, ?_⟩
      simp only [Nat.mod_add_mod]
  | hardened => exact lost.elim
  | leaky =>
      obtain ⟨pos, less⟩ := lost
      rw [Refcount.add] at added
      split at added
      · cases added
        exact ⟨pos, Nat.lt_succ_of_lt less⟩
      · cases added
        exact ⟨Nat.succ_pos _, Nat.succ_lt_succ less⟩

/-- The counter never catches up: it reaches 0 with references outstanding. -/
theorem Lost.sub {r : Nat × Nat} (lost : Lost mode k n) (gone : Refcount.sub mode n = some r) :
    1 < k ∧ (r.1 ≠ 0 → Lost mode (k - 1) r.2) := by
  cases mode with
  | off =>
      obtain ⟨above, rfl⟩ := lost
      have back : (k % 2 ^ 32 + (2 ^ 32 - 1)) % 2 ^ 32 = (k - 1) % 2 ^ 32 := by omega
      rw [Refcount.sub, back] at gone
      obtain rfl := Option.some.inj gone
      refine ⟨by omega, fun left => ?_⟩
      simp only at left
      exact ⟨by omega, rfl⟩
  | hardened => exact lost.elim
  | leaky =>
      obtain ⟨pos, less⟩ := lost
      rw [Refcount.sub, if_neg (Nat.pos_iff_ne_zero.mp pos)] at gone
      cases gone
      exact ⟨by omega, fun left => ⟨Nat.pos_of_ne_zero left, by omega⟩⟩

/-- A counter that has lost track does not free the object at the end. -/
theorem tally_of_lost (lost : Lost mode k n) (last : outstanding k calls = some 0) :
    tally mode n calls ≠ some none := by
  induction calls generalizing k n with
  | nil =>
      intro freed
      cases freed
  | cons call calls ih =>
      intro freed
      rw [tally] at freed
      cases adds : call.adds with
      | true =>
          rw [outstanding_adds adds lost.pos] at last
          rw [if_pos adds] at freed
          obtain ⟨r, added, rest⟩ := Option.bind_eq_some_iff.mp freed
          exact ih (lost.add added) last rest
      | false =>
          rw [outstanding_gives adds lost.pos] at last
          rw [if_neg (by simp [adds])] at freed
          obtain ⟨r, gone, rest⟩ := Option.bind_eq_some_iff.mp freed
          obtain ⟨several, still⟩ := lost.sub gone
          split at rest
          · -- freed here, so there is no further call to give the rest back
            split at rest
            case isTrue done =>
              rw [done] at last
              have none : k - 1 = 0 := Option.some.inj last
              omega
            case isFalse => cases rest
          case isFalse left => exact ih (still left) last rest

/-- With the first reference above the limit the counter loses track, or `add`
does not return. -/
theorem lost_of_add {r : Nat × Nat} (full : k = Refcount.limit mode)
    (added : Refcount.add mode (Refcount.shown mode k) = some r) : Lost mode (k + 1) r.2 := by
  subst full
  cases mode with
  | off =>
      obtain rfl := Option.some.inj added
      exact ⟨by decide, by decide⟩
  | hardened =>
      simp only [Refcount.add, Refcount.shown, Refcount.limit, ge_iff_le, le_refl, if_true] at added
      cases added
  | leaky =>
      simp only [Refcount.add, Refcount.shown, Refcount.limit, ge_iff_le, le_refl, if_true] at added
      obtain rfl := Option.some.inj added
      exact ⟨by decide, by decide⟩

/-- **Which sequences free the object once, and at their end.** -/
theorem tally_iff (pos : 0 < k) (room : k ≤ Refcount.limit mode)
    (last : outstanding k calls = some 0) :
    tally mode (Refcount.shown mode k) calls = some none ↔
      peak k calls ≤ Refcount.limit mode := by
  refine ⟨fun freed => ?_, tally_of_peak_le pos last⟩
  induction calls generalizing k with
  | nil =>
      cases last
      exact absurd pos (by decide)
  | cons call calls ih =>
      rw [peak]
      cases adds : call.adds with
      | true =>
          simp only [if_true]
          rw [outstanding_adds adds pos] at last
          by_cases full : k = Refcount.limit mode
          · rw [tally, if_pos adds] at freed
            obtain ⟨r, added, rest⟩ := Option.bind_eq_some_iff.mp freed
            exact absurd rest (tally_of_lost (lost_of_add full added) last)
          · rw [tally_adds adds (by omega)] at freed
            have next := ih (by omega) (by omega) last freed
            omega
      | false =>
          simp only [Bool.false_eq_true, if_false]
          rw [outstanding_gives adds pos] at last
          by_cases one : k = 1
          · subst one
            rw [outstanding_zero last]
            simp only [peak]
            omega
          · rw [tally_gives adds (by omega) (by omega)] at freed
            have next := ih (by omega) (by omega) last freed
            omega

end Tally

/-! ## What becomes of the block -/

/-- The block goes back where it came from: the calls on an object made by
`try_new_in` in the heap `h₀` make one `dealloc`, on the allocator value and with
the layout and the address of the `alloc` that the constructor made. -/
def GivenBack (mode : Hardening) (outer : OuterUnknown) (tgt : Target) (T : Impl) (o : Object)
    (ptr : Nat) (h₀ h : Heap) (calls : List Call) : Prop :=
  ∃ made, h.allocs = h₀.allocs ++ [made] ∧ made.allocator = o.alloc ∧
    ∃ h', performAll mode outer tgt T ptr h calls = some h' ∧
      h'.deallocs = h₀.deallocs ++ [⟨o.alloc, made.ptr, made.layout⟩]

section GivenBack

variable {mode : Hardening} {outer : OuterUnknown} {tgt : Target} {T : Impl} {i : Interface}
  {a : AllocTy} {ptr n : Nat} {h : Heap} {call : Call} {calls : List Call}

/-- The `dealloc` that the shims in the vtable make. -/
def shimDealloc (tgt : Target) (T : Impl) (i : Interface) (ptr : Nat) : Dealloc :=
  ⟨.global, ptr, (shimContainer i).layout tgt T.layout⟩

theorem perform_adds (image : Image tgt T (.comObject i a) ptr n h.mem)
    (single : T.form i = .single) (adds : call.adds = true) :
    call.perform mode outer tgt T ptr h =
      (Refcount.add mode n).map fun r => counted tgt T (.comObject i a) ptr h r.2 := by
  have invoked : (invokeAddRef mode outer tgt T ptr h).map Prod.snd =
      (Refcount.add mode n).map fun r => counted tgt T (.comObject i a) ptr h r.2 := by
    rw [invokeAddRef_eq image single, Option.map_map]
    rfl
  cases call with
  | addRef => exact invoked
  | clone => exact invoked
  | release => cases adds
  | drop => cases adds

theorem perform_gives (image : Image tgt T (.comObject i a) ptr n h.mem)
    (single : T.form i = .single) (gives : call.adds = false) :
    call.perform mode outer tgt T ptr h =
      (Refcount.sub mode n).map fun r =>
        if r.1 = 0 then freed tgt T i a ptr h else counted tgt T (.comObject i a) ptr h r.2 := by
  have invoked : (invokeRelease mode outer tgt T ptr h).map Prod.snd =
      (Refcount.sub mode n).map fun r =>
        if r.1 = 0 then freed tgt T i a ptr h else counted tgt T (.comObject i a) ptr h r.2 := by
    rw [invokeRelease_eq image single]
    cases gone : Refcount.sub mode n with
    | none => rfl
    | some r =>
        obtain ⟨result, left⟩ := r
        by_cases zero : result = 0
        · subst zero
          have empty := Refcount.sub_eq_zero gone
          simp [empty]
        · simp [zero]
  cases call with
  | addRef => cases gives
  | clone => cases gives
  | release => exact invoked
  | drop => exact invoked

/-- No call can be made on a freed block. -/
theorem performAll_freed (some : calls ≠ []) :
    performAll mode outer tgt T ptr (freed tgt T i a ptr h) calls = none := by
  have gone : (freed tgt T i a ptr h).vtableAt ptr = none := by
    have cleared : (freed tgt T i a ptr h).mem ptr = none :=
      Mem.free_inside le_rfl (Nat.lt_add_of_pos_right Container.layout_pos)
    simp [Heap.vtableAt, cleared]
  cases calls with
  | nil => exact absurd rfl some
  | cons call calls =>
      cases call <;> simp [performAll, Call.perform, invokeAddRef, invokeRelease, gone]

/-- **The calls do to the object what they do to its counter.** -/
theorem performAll_of_image (image : Image tgt T (.comObject i a) ptr n h.mem)
    (single : T.form i = .single) :
    (performAll mode outer tgt T ptr h calls).map Heap.deallocs =
      (tally mode n calls).map fun left =>
        h.deallocs ++ if left = none then [shimDealloc tgt T i ptr] else [] := by
  induction calls generalizing n h with
  | nil => simp [performAll, tally]
  | cons call calls ih =>
      rw [performAll, tally]
      cases adds : call.adds with
      | true =>
          rw [perform_adds image single adds, if_pos rfl]
          cases Refcount.add mode n with
          | none => rfl
          | some r => exact ih image.counted
      | false =>
          rw [perform_gives image single adds, if_neg Bool.false_ne_true]
          cases Refcount.sub mode n with
          | none => rfl
          | some r =>
              simp only [Option.map_some, Option.bind_some]
              by_cases zero : r.1 = 0
              · rw [if_pos zero, if_pos zero]
                by_cases done : calls = []
                · subst done
                  simp [performAll, freed, Heap.dealloc, Heap.dropInner, counted, Heap.write,
                    shimDealloc]
                · simp [performAll_freed done, done]
              · rw [if_neg zero, if_neg zero]
                exact ih image.counted

/-- The value of `GlobalAllocator`. -/
theorem Allocator.eq_global {v : Allocator} (ty : v.ty = .globalAllocator) : v = .global := by
  obtain ⟨t, value, unit⟩ := v
  subst ty
  have zero : value = 0 := unit rfl
  subst zero
  rfl

/-- The shims in the vtable make the right call for `GlobalAllocator` only. -/
theorem shimDealloc_eq_iff {v : Allocator} :
    shimDealloc tgt T i ptr = ⟨v, ptr, (Container.comObject i v.ty).layout tgt T.layout⟩ ↔
      v.ty = .globalAllocator := by
  constructor
  · intro same
    have value : .global = v := congrArg Dealloc.allocator same
    rw [← value]
    rfl
  · intro ty
    rw [Allocator.eq_global ty]
    rfl

variable {o : Object} {h₀ : Heap} {got : Nat}

/-- **Where the block goes.** When the last reference to a `ComObject` is given
back, the block returns to the allocator value that it came from, with the layout
it was allocated with, exactly when the allocator type is `GlobalAllocator` and
the counter never had to hold more references than it can keep apart. -/
theorem memory_given_back (single : T.form o.primary = .single) (alone : o.secondaries = [])
    (made : tryNewIn tgt T o got h₀ = some (ptr, h)) (last : outstanding 1 calls = some 0) :
    GivenBack mode outer tgt T o ptr h₀ h calls ↔
      o.alloc.ty = .globalAllocator ∧ peak 1 calls ≤ Refcount.limit mode := by
  obtain ⟨-, -, built⟩ := tryNewIn_eq made
  have container : o.container = .comObject o.primary o.alloc.ty := by
    unfold Object.container
    rw [alone]
  have image : Image tgt T (.comObject o.primary o.alloc.ty) ptr 1 h.mem := by
    rw [built, ← container]
    exact image_constructed
  have allocs : h.allocs = h₀.allocs ++
      [⟨o.alloc, (Container.comObject o.primary o.alloc.ty).layout tgt T.layout, ptr⟩] := by
    rw [built, ← container]
  have deallocs : h.deallocs = h₀.deallocs := by rw [built]
  have ran : (performAll mode outer tgt T ptr h calls).map Heap.deallocs = _ :=
    performAll_of_image image single
  have one : Refcount.shown mode 1 = 1 := by cases mode <;> rfl
  have counts : tally mode 1 calls = some none ↔ peak 1 calls ≤ Refcount.limit mode := by
    have first : 1 ≤ Refcount.limit mode := by cases mode <;> decide
    have shown := tally_iff Nat.one_pos first last
    rwa [one] at shown
  rw [deallocs] at ran
  constructor
  · rintro ⟨call, appended, -, h', run, back⟩
    rw [allocs] at appended
    obtain rfl := List.singleton_inj.mp (List.append_cancel_left appended)
    rw [run, Option.map_some, back] at ran
    obtain ⟨left, tallied, logged⟩ := Option.map_eq_some_iff.mp ran.symm
    have logged := List.append_cancel_left logged
    split at logged
    · rename_i gone
      rw [gone] at tallied
      exact ⟨shimDealloc_eq_iff.mp (List.singleton_inj.mp logged), counts.mp tallied⟩
    · cases logged
  · rintro ⟨ty, within⟩
    rw [counts.mpr within] at ran
    obtain ⟨h', run, logged⟩ := Option.map_eq_some_iff.mp ran
    refine ⟨_, allocs, rfl, h', run, ?_⟩
    rw [← shimDealloc_eq_iff.mpr ty, logged]
    rfl

end GivenBack

/-! ## An object with its own allocator -/

namespace Pool

/-- An interface without methods. -/
def iFoo : Interface :=
  .derived (.ofData1 1) [] .iUnknown

/-- A `T` of one word. -/
def impl : Impl where
  layout := Width.w64.pointer
  form _ := .single

/-- An allocator of two `u32`, a pool type and a tag. -/
def pool : Allocator where
  ty := ⟨1, structLayout [(0, atomicU32), (1, atomicU32)]⟩
  value := 0x4B434F4D
  unit := by decide

/-- `ComObject::<T, IFooVtbl, A>::new_in(inner, pool)`. -/
def object (alloc : Allocator) : Object where
  primary := iFoo
  secondaries := []
  alloc := alloc

end Pool

/-- With `GlobalAllocator` the block of an object that was cloned and dropped goes
back where it came from. -/
theorem memory_given_back_after_clone :
    ∃ h, tryNewIn (.packed .w64) Pool.impl (Pool.object .global) 0x1000 .empty =
        some (0x1000, h) ∧
      GivenBack .off .absent (.packed .w64) Pool.impl (Pool.object .global) 0x1000 .empty h
        [.clone, .drop, .release] := by
  have made : tryNewIn (.packed .w64) Pool.impl
      (Pool.object .global) 0x1000 .empty = some (0x1000, _) := rfl
  exact ⟨_, made, (memory_given_back rfl rfl made rfl).mpr ⟨rfl, by decide⟩⟩

/-- The block of an object with another allocator is given to `GlobalAllocator`,
with a smaller layout than it was allocated with. -/
theorem pool_memory_given_to_global :
    ∃ h, tryNewIn (.packed .w64) Pool.impl (Pool.object Pool.pool) 0x1000 .empty =
        some (0x1000, h) ∧
      h.allocs.map (fun made => (made.allocator, made.layout.size)) = [(Pool.pool, 64)] ∧
      ((performAll .off .absent (.packed .w64) Pool.impl 0x1000 h [.release]).map
        fun h' => h'.deallocs.map fun back => (back.allocator, back.layout.size)) =
          some [(.global, 56)] ∧
      ¬GivenBack .off .absent (.packed .w64) Pool.impl (Pool.object Pool.pool) 0x1000 .empty h
        [.release] := by
  have made : tryNewIn (.packed .w64) Pool.impl (Pool.object Pool.pool) 0x1000 .empty =
      some (0x1000, _) := rfl
  have wrong (h : Heap)
      (back : ((performAll .off .absent (.packed .w64) Pool.impl 0x1000 h [.release]).map
        fun h' => h'.deallocs.map fun back => (back.allocator, back.layout.size)) =
          some [(.global, 56)]) :
      ¬GivenBack .off .absent (.packed .w64) Pool.impl (Pool.object Pool.pool) 0x1000 .empty h
        [.release] := by
    rintro ⟨call, -, -, h', run, logged⟩
    rw [run, Option.map_some, logged] at back
    have owner : some Pool.pool = some .global :=
      congrArg (fun log => log.head?.map Prod.fst) (Option.some.inj back)
    exact absurd owner (by decide)
  exact ⟨_, made, by decide, by decide, wrong _ (by decide)⟩

end Kcom.Com
