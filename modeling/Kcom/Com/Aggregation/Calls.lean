import Kcom.Com.Aggregation.Object

/-!
# The two pointers of an aggregated object

Every `IUnknown` call on an aggregated object that stands, in terms of its counter and of
the outer unknown. Through the object pointer nothing but the outer unknown is called:
`addRef_delegating`, `release_delegating`, `queryInterface_delegating`. Through the
non-delegating pointer the counter moves, and `QueryInterface` for an interface of the
chain is the one call that reaches the outer unknown, which is not asked for more than an
`AddRef`.
-/

namespace Kcom.Com.Aggregated

open ReprC

variable {T : Impl} {x : Aggregated T} {tgt : Target} {n k : Nat} {h : Heap}

/-- The search that starts at the most derived interface finds every interface of the
chain, at the object pointer. -/
theorem comImplQueryInterface_chain {i : Interface} {ptr : Nat} {riid : Guid}
    (single : ∀ j ∈ i.chain, T.form j = .single) (nonnull : ptr ≠ 0) :
    comImplQueryInterface tgt T ptr riid i = if riid ∈ i.iids then some ptr else none := by
  induction i with
  | iUnknown => rfl
  | derived iid own parent ih =>
      have form : T.form (.derived iid own parent) = .single := single _ List.mem_cons_self
      have rest := ih fun j mem => single j (List.mem_cons_of_mem _ mem)
      simp only [comImplQueryInterface, nonnull, if_false, form, rest, Interface.iids,
        List.mem_cons]
      by_cases here : riid = iid
      · simp only [here, if_true, true_or]
      · simp only [here, if_false, false_or]

variable (x tgt) in
/-- What the `Release` of the last reference leaves: the counter at 0, `inner` dropped,
and the block given back to the allocator it came from. -/
def ended (h : Heap) : Heap :=
  ((x.counted tgt 0 h).dropInner (x.inner tgt)).dealloc x.ptr x.alloc
    (x.container.layout tgt T.layout)

section Calls

variable {mode : Hardening} {outer : OuterUnknown} {riid : Option Guid} {ppv : Bool}

variable (stands : x.Stands tgt n h)

include stands

/-- The shims in the object's vtable find the outer unknown, whichever instance they
are of. -/
theorem outerAt_shim (j : Interface) :
    h.outerAt (x.ptr + (Container.comObject j .globalAllocator).offset tgt T.layout
      .outerUnknown) = some (some x.outerUnknown) := by
  have same : (Container.comObject j .globalAllocator).offset tgt T.layout .outerUnknown =
      x.container.offset tgt T.layout .outerUnknown :=
    offset_of_shift rfl (by decide) (by decide)
  rw [same]
  exact stands.outerUnknown

omit stands in
theorem delegate_eq : delegate (some x.outerUnknown) = some x.outerUnknown := by
  simp [delegate, x.delegates]

theorem addRef_delegating :
    invokeAddRef mode outer tgt T x.ptr h = outer.addRef x.outerUnknown h := by
  unfold invokeAddRef
  rw [stands.vtable]
  simp only [Option.bind_eq_bind, Option.bind_some, root_new, IUnknownVtbl.new, callAddRef]
  unfold shimAddRef delegatingAddRef
  rw [outerAt_shim stands]
  simp only [Option.bind_eq_bind, Option.bind_some, delegate_eq]

theorem release_delegating :
    invokeRelease mode outer tgt T x.ptr h = outer.release x.outerUnknown h := by
  unfold invokeRelease
  rw [stands.vtable]
  simp only [Option.bind_eq_bind, Option.bind_some, root_new, IUnknownVtbl.new, callRelease]
  unfold shimRelease delegatingRelease
  rw [outerAt_shim stands]
  simp only [Option.bind_eq_bind, Option.bind_some, delegate_eq]

theorem queryInterface_delegating :
    invokeQueryInterface mode outer tgt T x.ptr riid ppv h =
      outer.queryInterface x.outerUnknown riid ppv h := by
  unfold invokeQueryInterface
  rw [stands.vtable]
  simp only [Option.bind_eq_bind, Option.bind_some, root_new, IUnknownVtbl.new,
    callQueryInterface]
  unfold shimQueryInterface
  rw [outerAt_shim stands]
  simp only [Option.bind_eq_bind, Option.bind_some, delegate_eq]

theorem shimAddRef_nonDelegating :
    shimNonDelegatingAddRef mode tgt T x.container (x.nonDelegating tgt) h =
      (Refcount.add mode n).map fun r => (r.1, x.counted tgt r.2 h) := by
  unfold shimNonDelegatingAddRef addAt
  have count : h.countAt (x.ptr + x.container.offset tgt T.layout .refCount) = some n :=
    stands.refCount
  rw [stands.nonDelegatingParent]
  simp only [Option.bind_eq_bind, Option.bind_some, count]
  cases Refcount.add mode n <;> rfl

theorem addRef_nonDelegating :
    invokeAddRef mode outer tgt T (x.nonDelegating tgt) h =
      (Refcount.add mode n).map fun r => (r.1, x.counted tgt r.2 h) := by
  unfold invokeAddRef
  rw [stands.nonDelegatingVtable]
  exact shimAddRef_nonDelegating stands

/-- The end of the object, with the counter at `n`. -/
theorem releaseInner_eq :
    releaseInner tgt T x.container x.ptr h =
      if n = 0 then
        some ((h.dropInner (x.inner tgt)).dealloc x.ptr x.alloc (x.container.layout tgt T.layout))
      else none := by
  have alloc : h.allocAt (x.ptr + x.container.offset tgt T.layout .alloc) x.container.alloc =
      some x.alloc := stands.alloc
  have count : (h.dropInner (x.ptr + x.container.offset tgt T.layout .inner)).countAt
      (x.ptr + x.container.offset tgt T.layout .refCount) = some n := stands.refCount
  unfold releaseInner
  simp only [alloc, Option.bind_eq_bind, Option.bind_some, count, ne_eq, ite_not]
  rfl

theorem release_nonDelegating :
    invokeRelease mode outer tgt T (x.nonDelegating tgt) h =
      (Refcount.sub mode n).bind fun r =>
        if r.1 = 0 then
          if r.2 = 0 then some (0, x.ended tgt h) else none
        else some (r.1, x.counted tgt r.2 h) := by
  unfold invokeRelease
  rw [stands.nonDelegatingVtable]
  simp only [Option.bind_eq_bind, Option.bind_some, Vtbl.root, IUnknownVtbl.nonDelegating,
    callRelease]
  unfold shimNonDelegatingRelease subAt
  have count : h.countAt (x.ptr + x.container.offset tgt T.layout .refCount) = some n :=
    stands.refCount
  rw [stands.nonDelegatingParent]
  simp only [Option.bind_eq_bind, Option.bind_some, count]
  cases Refcount.sub mode n with
  | none => rfl
  | some r =>
      have next : x.Stands tgt r.2 (x.counted tgt r.2 h) := stands.counted
      simp only [Option.bind_some]
      split
      case isFalse => rfl
      case isTrue zero =>
        have ends := releaseInner_eq next
        unfold counted refCount at ends
        rw [ends, zero]
        split
        case isFalse => rfl
        case isTrue last =>
          rw [last]
          rfl

/-- The search starts at the object's own interface: the non-delegating vtable is that of
the object's own instance. -/
theorem invokeQueryInterface_nonDelegating :
    invokeQueryInterface mode outer tgt T (x.nonDelegating tgt) riid ppv h =
      answer mode outer tgt T x.container (x.nonDelegating tgt) x.ptr
        (shimNonDelegatingAddRef mode tgt T x.container (x.nonDelegating tgt)) riid ppv h := by
  unfold invokeQueryInterface
  rw [stands.nonDelegatingVtable]
  simp only [Option.bind_eq_bind, Option.bind_some, Vtbl.root, IUnknownVtbl.nonDelegating,
    callQueryInterface]
  unfold shimNonDelegatingQueryInterface
  rw [stands.nonDelegatingParent]
  rfl

/-- `QueryInterface` through the non-delegating pointer: `IUnknown` is that pointer and
counted in the object, the interfaces of the chain are the object pointer and counted
by the outer unknown. -/
theorem queryInterface_nonDelegating (riid : Guid) :
    invokeQueryInterface mode outer tgt T (x.nonDelegating tgt) (some riid) true h =
      if riid = iidIUnknown then
        (Refcount.add mode n).map fun r =>
          (⟨statusSuccess, some (x.nonDelegating tgt)⟩, x.counted tgt r.2 h)
      else if riid ∈ x.i.iids then
        (outer.addRef x.outerUnknown h).map fun r => (⟨statusSuccess, some x.ptr⟩, r.2)
      else some (⟨statusNoInterface, some 0⟩, h) := by
  have search : comImplQueryInterface tgt T x.ptr riid x.container.primary =
      if riid ∈ x.i.iids then some x.ptr else none :=
    comImplQueryInterface_chain x.single x.nonnull
  rw [invokeQueryInterface_nonDelegating stands, answer_eq, granted]
  by_cases unknown : riid = iidIUnknown
  · simp only [unknown, if_true, shimAddRef_nonDelegating stands]
    cases Refcount.add mode n <;> rfl
  · simp only [unknown, if_false, search]
    by_cases found : riid ∈ x.i.iids
    · simp only [found, if_true, addRef_delegating stands]
    · simp only [found, if_false]

/-- A null `riid` or `ppv` is refused and nothing is stored. -/
theorem queryInterface_null (null : riid = none ∨ ppv = false) :
    invokeQueryInterface mode outer tgt T (x.nonDelegating tgt) riid ppv h =
      some (⟨statusNoInterface, none⟩, h) := by
  rw [invokeQueryInterface_nonDelegating stands]
  rcases null with rfl | rfl
  · rfl
  · cases riid <;> rfl

end Calls

end Kcom.Com.Aggregated
