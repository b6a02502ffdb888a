import Kcom.Com.Calls

/-!
# Method dispatch

A method shim generated by `declare_com_interface!` recovers the container from
the interface pointer it is called with, passes `&wrapper.inner` to the trait
method and, for an `async fn`, counts a reference to the object up and down. A
secondary shim goes through the `parent` pointer of its entry to the `ComObjectN`
it was instantiated for. A primary shim is generic in `T` alone: it takes the
pointer for a `ComObject`, also in the vtables that `new_primary` builds for a
`ComObjectN`.

`dispatch_reaches_own_state` says for which objects, interfaces and methods the
receiver is nevertheless the object's own `inner` and the count its own
`ref_count`.
-/

namespace Kcom.Com

open ReprC

/-! ## Method shims -/

/-- What a method shim uses of the object: the `self` of the trait method, and
the counters that `shim_add_ref` and `shim_release` are called on, for an
`async fn`. -/
structure Receiver where
  self : Nat
  added : Option Nat
  released : Option Nat
  deriving DecidableEq

section Methods

variable (tgt : Target) (T : Impl)

/-- The shim of a method on the container `c` at `this`. -/
def receiver (c : Container) (this : Nat) (m : Method) : Receiver :=
  let self := this + c.offset tgt T.layout .inner
  let refCount := this + c.offset tgt T.layout .refCount
  if m.isAsync then ⟨self, some refCount, some refCount⟩ else ⟨self, none, none⟩

/-- Call a method slot: `shim_I_m::<T>` or `shim_I_m_secondary::<T, P, S, A, INDEX>`.
An async shim returns early on a null pointer. -/
def callMethod (this : Nat) (h : Heap) : Shim → Option Receiver
  | .method i m =>
      if m.isAsync ∧ this = 0 then none
      else some (receiver tgt T (.comObject i .globalAllocator) this m)
  | .methodSecondary _ m c _ =>
      if m.isAsync ∧ this = 0 then none
      else do
        let parent ← parentFromPtr tgt this h
        some (receiver tgt T c parent m)
  | _ => none

/-- Call the method slot of index `k` through an interface pointer. -/
def invokeMethod (ptr k : Nat) (h : Heap) : Option Receiver := do
  let vtbl ← h.vtableAt ptr
  let shim ← vtbl.methodSlots[k]?
  callMethod tgt T ptr h shim

end Methods

/-! ## Interface pointers of an object -/

/-- A COM interface of an object, by its place in the container. -/
inductive Iface
  | primary
  | secondary (i : Nat)
  deriving DecidableEq, Repr

namespace Object

/-- The interface of a place, if the object has one there. -/
def interface (o : Object) : Iface → Option Interface
  | .primary => some o.primary
  | .secondary i => o.secondaries[i]?

/-- The pointer a client calls the interface with. -/
def pointerTo (tgt : Target) (T : Impl) (o : Object) (ptr : Nat) : Iface → Nat
  | .primary => ptr
  | .secondary i => secondaryPtr tgt T o.container ptr i

/-- Each interface of the object is implemented by the macro for its place. -/
structure Implemented (T : Impl) (o : Object) : Prop where
  single : o.secondaries = [] → T.form o.primary = .single
  primary : o.secondaries ≠ [] → ∃ a, T.form o.primary = .primary o.secondaries a
  secondary : ∀ i ∈ o.secondaries, ∃ index a,
    T.form i = .secondary o.primary index o.secondaries a

end Object

/-- A call of the method slot `k` uses the `inner` and the `ref_count` that the
constructor stored. -/
def ReachesOwnState (tgt : Target) (T : Impl) (o : Object) (ptr : Nat) (h : Heap) (via : Iface)
    (k : Nat) : Prop :=
  ∃ r, invokeMethod tgt T (o.pointerTo tgt T ptr via) k h = some r ∧
    r.self = ptr + o.container.offset tgt T.layout .inner ∧
    (∀ a ∈ r.added, a = ptr + o.container.offset tgt T.layout .refCount) ∧
    ∀ a ∈ r.released, a = ptr + o.container.offset tgt T.layout .refCount

section Dispatch

variable {tgt : Target} {T : Impl} {o : Object} {ptr n k : Nat} {h : Heap} {i decl : Interface}
  {m : Method}

/-! ## What the slots hold -/

/-- Both constructors for a primary interface fill the slots with the same
shims. -/
theorem primary_slot (implemented : o.Implemented T)
    (slot : o.primary.methods[k]? = some (decl, m)) :
    (T.vtable o.primary).methodSlots[k]? = some (.method decl m) := by
  have filled : (T.vtable o.primary).methodSlots =
      o.primary.methods.map fun d => Shim.method d.1 d.2 := by
    cases shape : o.primary with
    | iUnknown => exact Vtbl.methodSlots_build _
    | derived iid own parent =>
        by_cases alone : o.secondaries = []
        · have form := implemented.single alone
          rw [shape] at form
          simp only [Impl.vtable, form]
          exact Vtbl.methodSlots_build _
        · obtain ⟨a, form⟩ := implemented.primary alone
          rw [shape] at form
          simp only [Impl.vtable, form]
          exact Vtbl.methodSlots_build _
  rw [filled, List.getElem?_map, slot]
  rfl

theorem secondary_slot (implemented : o.Implemented T) (mem : i ∈ o.secondaries)
    (slot : i.methods[k]? = some (decl, m)) :
    ∃ index a, (T.vtable i).methodSlots[k]? =
      some (.methodSecondary decl m (.comObjectN o.primary o.secondaries a) index) := by
  obtain ⟨index, a, form⟩ := implemented.secondary i mem
  refine ⟨index, a, ?_⟩
  cases i with
  | iUnknown => simp [Interface.methods] at slot
  | derived iid own parent =>
      have filled : (T.vtable (.derived iid own parent)).methodSlots =
          (Interface.derived iid own parent).methods.map fun d =>
            Shim.methodSecondary d.1 d.2 (.comObjectN o.primary o.secondaries a) index := by
        simp only [Impl.vtable, form]
        exact Vtbl.methodSlots_build _
      rw [filled, List.getElem?_map, slot]
      rfl

/-! ## Calls -/

/-- A call through the primary pointer takes the object for a `ComObject`. -/
theorem invokeMethod_primary (implemented : o.Implemented T)
    (image : Image tgt T o.container ptr n h.mem) (nonnull : ptr ≠ 0)
    (slot : o.primary.methods[k]? = some (decl, m)) :
    invokeMethod tgt T ptr k h =
      some (receiver tgt T (.comObject decl .globalAllocator) ptr m) := by
  unfold invokeMethod
  rw [vtableAt_object image]
  simp [primary_slot implemented slot, callMethod, nonnull]

/-- A call through a secondary pointer finds the `ComObjectN` by its parent
pointer. -/
theorem invokeMethod_secondary (implemented : o.Implemented T)
    (image : Image tgt T o.container ptr n h.mem) (nonnull : ptr ≠ 0) {j : Nat}
    (found : o.secondaries[j]? = some i) (slot : i.methods[k]? = some (decl, m)) :
    ∃ a, invokeMethod tgt T (o.pointerTo tgt T ptr (.secondary j)) k h =
      some (receiver tgt T (.comObjectN o.primary o.secondaries a) ptr m) := by
  obtain ⟨inside, eq⟩ := List.getElem?_eq_some_iff.mp found
  have inside' : j < o.container.secondaries.length := by
    rw [o.container_secondaries]
    exact inside
  have entry : o.container.secondaries.get ⟨j, inside'⟩ = i := by
    rw [← eq]
    simp [o.container_secondaries]
  obtain ⟨stored, parent⟩ := entry_of_image image inside'
  obtain ⟨index, a, filled⟩ := secondary_slot implemented (List.mem_of_getElem? found) slot
  have pointer : o.pointerTo tgt T ptr (.secondary j) = secondaryPtr tgt T o.container ptr j := rfl
  have away : secondaryPtr tgt T o.container ptr j ≠ 0 := by
    simp [secondaryPtr, inside', nonnull]
  refine ⟨a, ?_⟩
  rw [pointer, invokeMethod, stored, entry]
  simp [filled, callMethod, away, parent]

/-! ## Where the calls arrive -/

/-- A receiver computed from the layout of `c` is the object's own when `c` has
the two fields where the object has them. -/
theorem reachesOwnState_iff {c : Container} {via : Iface}
    (call : invokeMethod tgt T (o.pointerTo tgt T ptr via) k h = some (receiver tgt T c ptr m)) :
    ReachesOwnState tgt T o ptr h via k ↔
      c.offset tgt T.layout .inner = o.container.offset tgt T.layout .inner ∧
        (m.isAsync = true →
          c.offset tgt T.layout .refCount = o.container.offset tgt T.layout .refCount) := by
  unfold ReachesOwnState
  rw [call]
  cases async : m.isAsync <;> simp [receiver, async]

/-- The padding before `inner` makes two layouts agree on it when it has room for
the entries that only one of them has. -/
theorem offset_inner_eq_iff {c c' : Container} (le : c.shift tgt ≤ c'.shift tgt) :
    c.offset tgt T.layout .inner = c'.offset tgt T.layout .inner ↔
      6 * tgt.width.bytes + c'.shift tgt ≤
        roundUp (6 * tgt.width.bytes + c.shift tgt) T.layout.align := by
  rw [Container.offset_inner, Container.offset_inner]
  exact roundUp_eq_roundUp_iff T.layout.align_pos (by omega)

theorem shift_comObject {a : AllocTy} : (Container.comObject i a).shift tgt = 0 := rfl

theorem shift_of_single (alone : o.secondaries = []) : o.container.shift tgt = 0 := by
  unfold Object.container
  rw [alone]
  rfl

theorem shift_of_multiple (several : o.secondaries ≠ []) :
    o.container.shift tgt = (tgt.entries o.secondaries).size := by
  unfold Object.container
  split
  case h_1 alone => exact absurd alone several
  case h_2 eq =>
    rw [eq]
    rfl

/-- Through the primary pointer. -/
theorem reachesOwnState_primary (implemented : o.Implemented T)
    (image : Image tgt T o.container ptr n h.mem) (nonnull : ptr ≠ 0)
    (slot : o.primary.methods[k]? = some (decl, m)) :
    ReachesOwnState tgt T o ptr h .primary k ↔
      o.secondaries = [] ∨
        m.isAsync = false ∧
          6 * tgt.width.bytes + (tgt.entries o.secondaries).size ≤
            roundUp (6 * tgt.width.bytes) T.layout.align := by
  have call : invokeMethod tgt T (o.pointerTo tgt T ptr .primary) k h = some _ :=
    invokeMethod_primary implemented image nonnull slot
  rw [reachesOwnState_iff call, offset_inner_eq_iff (Nat.zero_le _), Container.offset_refCount,
    Container.offset_refCount, shift_comObject, Nat.add_zero, Nat.add_zero]
  by_cases alone : o.secondaries = []
  · have pad : 6 * tgt.width.bytes ≤ roundUp (6 * tgt.width.bytes) T.layout.align :=
      le_roundUp T.layout.align_pos
    simp [alone, shift_of_single alone, pad]
  · have room : 2 * tgt.width.bytes ≤ o.container.shift tgt := by
      apply Container.shift_pos
      rw [o.container_secondaries]
      exact alone
    have word := tgt.width.bytes_pos
    rw [shift_of_multiple alone] at room ⊢
    have moved : 3 * tgt.width.bytes ≠ 3 * tgt.width.bytes + (tgt.entries o.secondaries).size := by
      omega
    simp only [alone, false_or, moved, imp_false, Bool.not_eq_true]
    exact and_comm

/-- Through a secondary pointer. -/
theorem reachesOwnState_secondary (implemented : o.Implemented T)
    (image : Image tgt T o.container ptr n h.mem) (nonnull : ptr ≠ 0) {j : Nat}
    (found : o.secondaries[j]? = some i) (slot : i.methods[k]? = some (decl, m)) :
    ReachesOwnState tgt T o ptr h (.secondary j) k := by
  obtain ⟨a, call⟩ := invokeMethod_secondary implemented image nonnull found slot
  have several : o.secondaries ≠ [] := by
    intro alone
    rw [alone] at found
    cases found
  have same : (Container.comObjectN o.primary o.secondaries a).shift tgt = o.container.shift tgt :=
    (shift_of_multiple several).symm
  rw [reachesOwnState_iff call, Container.offset_inner, Container.offset_inner,
    Container.offset_refCount, Container.offset_refCount, same]
  exact ⟨rfl, fun _ => rfl⟩

/-- **Where method calls arrive.** A call through an interface pointer of an
object uses the object's own `inner` and `ref_count` exactly when the object has
no secondary interface, or the call is made through a secondary one, or it is a
call of a plain `fn` and the padding before `inner` hides the secondary
entries. -/
theorem dispatch_reaches_own_state {got : Nat} {h₀ : Heap} {via : Iface}
    (implemented : o.Implemented T) (made : tryNewIn tgt T o got h₀ = some (ptr, h))
    (place : o.interface via = some i) (slot : i.methods[k]? = some (decl, m)) :
    ReachesOwnState tgt T o ptr h via k ↔
      o.secondaries = [] ∨ via ≠ .primary ∨
        m.isAsync = false ∧
          6 * tgt.width.bytes + (tgt.entries o.secondaries).size ≤
            roundUp (6 * tgt.width.bytes) T.layout.align := by
  obtain ⟨-, nonnull, built⟩ := tryNewIn_eq made
  have image : Image tgt T o.container ptr 1 h.mem := by
    rw [built]
    exact image_constructed
  cases via with
  | primary =>
      cases place
      rw [reachesOwnState_primary implemented image nonnull slot]
      simp
  | secondary j =>
      have own := reachesOwnState_secondary implemented image nonnull place slot
      simp only [own, true_iff]
      exact .inr (.inl Iface.noConfusion)

end Dispatch

/-! ## The driver of `tests/smart_vtable_spec.rs` -/

namespace Smart

def iSmartFoo : Interface :=
  .derived ⟨0x11111111, 0, 0, #v[0, 0, 0, 0, 0, 0, 0, 1]⟩ [⟨"foo", false⟩] .iUnknown

def iSmartBar : Interface :=
  .derived ⟨0x22222222, 0, 0, #v[0, 0, 0, 0, 0, 0, 0, 2]⟩ [⟨"bar", false⟩] .iUnknown

/-- A struct of one `u32`. -/
def myDriver : Impl where
  layout := atomicU32
  form i :=
    if i = iSmartFoo then .primary [iSmartBar] .globalAllocator
    else .secondary iSmartFoo 0 [iSmartBar] .globalAllocator

/-- `ComObjectN::<MyDriver, ISmartFooVtbl, (ISmartBarVtbl,)>`. -/
def driver : Object where
  primary := iSmartFoo
  secondaries := [iSmartBar]
  alloc := .global

theorem driver_implemented : driver.Implemented myDriver where
  single alone := by cases alone
  primary _ := ⟨.globalAllocator, rfl⟩
  secondary i mem := by
    rcases List.mem_singleton.mp mem with rfl
    exact ⟨0, .globalAllocator, rfl⟩

end Smart

/-- `bar`, called through its secondary pointer, gets the driver as `self`. -/
theorem bar_reaches_own_state :
    ∃ h, tryNewIn (.packed .w64) Smart.myDriver Smart.driver 0x1000 .empty = some (0x1000, h) ∧
      ReachesOwnState (.packed .w64) Smart.myDriver Smart.driver 0x1000 h (.secondary 0) 0 := by
  have made : tryNewIn (.packed .w64) Smart.myDriver Smart.driver 0x1000 .empty =
      some (0x1000, _) := rfl
  refine ⟨_, made, ?_⟩
  apply (dispatch_reaches_own_state Smart.driver_implemented made rfl rfl).mpr
  exact .inr (.inl (by decide))

/-- `foo`, called through the primary pointer, gets an address in the middle of
the object: 16 bytes before its `inner`, where `outer_unknown` is. -/
theorem foo_misses_own_state :
    ∃ h, tryNewIn (.packed .w64) Smart.myDriver Smart.driver 0x1000 .empty = some (0x1000, h) ∧
      (∃ r, invokeMethod (.packed .w64) Smart.myDriver 0x1000 0 h = some r ∧ r.self = 0x1030) ∧
      0x1000 + Smart.driver.container.offset (.packed .w64) atomicU32 .inner = 0x1040 ∧
      ¬ReachesOwnState (.packed .w64) Smart.myDriver Smart.driver 0x1000 h .primary 0 := by
  have made : tryNewIn (.packed .w64) Smart.myDriver Smart.driver 0x1000 .empty =
      some (0x1000, _) := rfl
  refine ⟨_, made, ?_, ?_, ?_⟩
  · refine ⟨_, invokeMethod_primary Smart.driver_implemented image_constructed (by decide) rfl, ?_⟩
    decide
  · decide
  · rw [reachesOwnState_primary Smart.driver_implemented image_constructed (by decide) rfl]
    decide

end Kcom.Com
