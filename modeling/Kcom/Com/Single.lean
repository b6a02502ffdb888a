import Kcom.Com.Calls

/-!
# `ComObject`s seen through their own vtable

The vtable of a single-interface object is built by `IVtbl::new::<T>()`. Its
`IUnknown` slots hold the shims of one `ComObject` instance, that of the base of
the interface's chain with `GlobalAllocator`, whichever instance the object is.
The instances agree on the offset of every field but `alloc`, so `AddRef` and
`Release` find the object's own counter (`invokeAddRef_eq`,
`invokeRelease_eq`). What they do at the end of the object is decided by the
instance.
-/

namespace Kcom.Com

open ReprC

/-- The instance whose shims are in the vtable of the interface. -/
def shimContainer (i : Interface) : Container :=
  .comObject i.base .globalAllocator

theorem root_new (i : Interface) : (Vtbl.new i).root = IUnknownVtbl.new i.base :=
  Vtbl.root_build i

section Single

variable {mode : Hardening} {outer : OuterUnknown} {tgt : Target} {T : Impl} {i : Interface}
  {a : AllocTy} {ptr n : Nat} {h : Heap}

theorem vtable_single (single : T.form i = .single) : T.vtable i = .new i := by
  cases i with
  | iUnknown => rfl
  | derived iid own parent => simp only [Impl.vtable, single]

section Calls

variable (image : Image tgt T (.comObject i a) ptr n h.mem)

include image

theorem vtableAt_comObject (single : T.form i = .single) : h.vtableAt ptr = some (.new i) := by
  have stored := image.vtable
  rw [Container.offset_vtable, Nat.add_zero, Container.primary, vtable_single single] at stored
  simp [Heap.vtableAt, stored]

/-- `AddRef` through the object's vtable counts up. -/
theorem invokeAddRef_eq (single : T.form i = .single) :
    invokeAddRef mode outer tgt T ptr h =
      (Refcount.add mode n).map fun r => (r.1, counted tgt T (.comObject i a) ptr h r.2) := by
  unfold invokeAddRef
  rw [vtableAt_comObject image single]
  simp only [Option.bind_eq_bind, Option.bind_some, root_new]
  exact shimAddRef_of_image image rfl

variable (tgt T i a ptr h) in
omit image in
/-- What the last `Release` leaves: the counter at 0, `inner` dropped, and the
block given back by the instance in the vtable. -/
def freed : Heap :=
  ((counted tgt T (.comObject i a) ptr h 0).dropInner
    (ptr + (shimContainer i).offset tgt T.layout .inner)).dealloc ptr
      .global ((shimContainer i).layout tgt T.layout)

/-- The end of the object, with the counter at `n`. -/
theorem releaseInner_comObject (j : Interface) :
    releaseInner tgt T (.comObject j .globalAllocator) ptr h =
      if n = 0 then
        some ((h.dropInner
          (ptr + (Container.comObject j .globalAllocator).offset tgt T.layout .inner)).dealloc ptr
            .global
            ((Container.comObject j .globalAllocator).layout tgt T.layout))
      else none := by
  have zst (address : Nat) : h.allocAt address .globalAllocator =
      some .global := rfl
  have count : (h.dropInner (ptr +
      (Container.comObject j .globalAllocator).offset tgt T.layout .inner)).countAt
        (ptr + (Container.comObject j .globalAllocator).offset tgt T.layout .refCount) = some n :=
    countAt_of_image image rfl
  unfold releaseInner
  simp only [Container.alloc, zst, Option.bind_eq_bind, Option.bind_some, count, ne_eq, ite_not]

/-- `Release` through the object's vtable counts down, and at 0 frees the block
the way the instance in the vtable does. -/
theorem invokeRelease_eq (single : T.form i = .single) :
    invokeRelease mode outer tgt T ptr h =
      (Refcount.sub mode n).bind fun r =>
        if r.1 = 0 then
          if r.2 = 0 then some (0, freed tgt T i a ptr h) else none
        else some (r.1, counted tgt T (.comObject i a) ptr h r.2) := by
  unfold invokeRelease
  rw [vtableAt_comObject image single]
  simp only [Option.bind_eq_bind, Option.bind_some, root_new, callRelease, IUnknownVtbl.new]
  have near : (Container.comObject i.base .globalAllocator).shift tgt =
      (Container.comObject i a).shift tgt := rfl
  rw [shimRelease_of_image image near, released]
  cases Refcount.sub mode n with
  | none => rfl
  | some r =>
      have next : Image tgt T (.comObject i a) ptr r.2
          (counted tgt T (.comObject i a) ptr h r.2).mem := image.counted
      simp only [Option.bind_some]
      split
      case isFalse => rfl
      case isTrue zero =>
        rw [releaseInner_comObject next i.base, zero]
        split
        case isFalse => rfl
        case isTrue last =>
          rw [last]
          rfl

end Calls

end Single

end Kcom.Com
