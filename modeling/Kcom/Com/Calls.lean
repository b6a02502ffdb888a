import Kcom.Com.Shims

/-!
# The shims on a live object

What the shims of `AddRef` and `Release` do to an object that is not aggregated.
The slots of an object are not always shims of its own container: only the place of
the secondary entries, `Container.shift`, has to agree for a shim to find the
counter, the outer unknown and `inner`.
-/

namespace Kcom.Com

open ReprC

section Live

variable {mode : Hardening} {outer : OuterUnknown} {tgt : Target} {T : Impl} {c c' : Container}
  {ptr n : Nat} {h : Heap}

/-- The fields before `alloc` are where the secondary entries leave them. -/
theorem offset_of_shift {f : Field} (near : c'.shift tgt = c.shift tgt)
    (common : f ≠ .secondaries) (before : f ≠ .alloc) :
    c'.offset tgt T.layout f = c.offset tgt T.layout f := by
  cases f with
  | vtable => simp only [Container.offset_vtable]
  | secondaries => exact absurd rfl common
  | nonDelegatingUnknown => simp only [Container.offset_nonDelegatingUnknown, near]
  | refCount => simp only [Container.offset_refCount, near]
  | outerUnknown => simp only [Container.offset_outerUnknown, near]
  | inner => simp only [Container.offset_inner, near]
  | alloc => exact absurd rfl before

variable (tgt T c ptr h) in
/-- The object's counter set to `n`. -/
def counted (n : Nat) : Heap :=
  h.write (ptr + c.offset tgt T.layout .refCount) (.count n)

theorem Image.counted {n' : Nat} (image : Image tgt T c ptr n h.mem) :
    Image tgt T c ptr n' (counted tgt T c ptr h n').mem :=
  image.write_refCount

/-! ## Loads -/

theorem vtableAt_of {v : Vtbl} (stored : h.mem ptr = some (.vtable v)) : h.vtableAt ptr = some v := by
  simp [Heap.vtableAt, stored]

theorem ptrAt_of {p : Nat} (stored : h.mem ptr = some (.ptr p)) : h.ptrAt ptr = some p := by
  simp [Heap.ptrAt, stored]

/-- What `try_new_in` stores at the object pointer, as it is loaded from there. -/
theorem vtableAt_object {o : Object} (image : Image tgt T o.container ptr n h.mem) :
    h.vtableAt ptr = some (T.vtable o.primary) := by
  have stored := image.vtable
  rw [Container.offset_vtable, Nat.add_zero, o.container_primary] at stored
  exact vtableAt_of stored

/-- The pointer to the secondary interface of an index: the vtable there, and the parent. -/
theorem entry_of_image {j : Nat} (image : Image tgt T c ptr n h.mem)
    (inside : j < c.secondaries.length) :
    h.vtableAt (secondaryPtr tgt T c ptr j) = some (T.vtable (c.secondaries.get ⟨j, inside⟩)) ∧
      parentFromPtr tgt (secondaryPtr tgt T c ptr j) h = some ptr := by
  have place : secondaryPtr tgt T c ptr j = ptr + c.entryOffset tgt T.layout ⟨j, inside⟩ :=
    dif_pos inside
  rw [place]
  exact ⟨vtableAt_of (image.entryVtable _), ptrAt_of (image.entryParent _)⟩

theorem parentFromPtr_nonDelegating (image : Image tgt T c ptr n h.mem) :
    parentFromPtr tgt (ptr + c.offset tgt T.layout .nonDelegatingUnknown) h = some ptr :=
  ptrAt_of image.nonDelegatingParent

/-! ## Counting -/

section Counting

variable (image : Image tgt T c ptr n h.mem) (near : c'.shift tgt = c.shift tgt)

include image near

theorem outerAt_of_image :
    h.outerAt (ptr + c'.offset tgt T.layout .outerUnknown) = some none := by
  rw [offset_of_shift near (by decide) (by decide)]
  simp [Heap.outerAt, image.outerUnknown]

theorem countAt_of_image : h.countAt (ptr + c'.offset tgt T.layout .refCount) = some n := by
  rw [offset_of_shift near (by decide) (by decide)]
  simp [Heap.countAt, image.refCount]

theorem addAt_of_image :
    addAt mode (ptr + c'.offset tgt T.layout .refCount) h =
      (Refcount.add mode n).map fun r => (r.1, counted tgt T c ptr h r.2) := by
  unfold addAt
  rw [countAt_of_image image near, offset_of_shift near (by decide) (by decide)]
  simp only [Option.bind_eq_bind, Option.bind_some]
  cases Refcount.add mode n <;> rfl

theorem subAt_of_image :
    subAt mode (ptr + c'.offset tgt T.layout .refCount) h =
      (Refcount.sub mode n).map fun r => (r.1, counted tgt T c ptr h r.2) := by
  unfold subAt
  rw [countAt_of_image image near, offset_of_shift near (by decide) (by decide)]
  simp only [Option.bind_eq_bind, Option.bind_some]
  cases Refcount.sub mode n <;> rfl

/-- `shim_add_ref` of any container that finds the counter. -/
theorem shimAddRef_of_image :
    shimAddRef mode outer tgt T c' ptr h =
      (Refcount.add mode n).map fun r => (r.1, counted tgt T c ptr h r.2) := by
  unfold shimAddRef delegatingAddRef
  rw [outerAt_of_image image near]
  simp only [Option.bind_eq_bind, Option.bind_some, delegate, Option.filter_none]
  exact addAt_of_image image near

variable (mode tgt T c c' ptr n h) in
omit image near in
/-- A `Release` that ends in the code of the container `c'`. -/
def released : Option (Nat × Heap) :=
  (Refcount.sub mode n).bind fun r =>
    if r.1 = 0 then
      (releaseInner tgt T c' ptr (counted tgt T c ptr h r.2)).map fun h' => (r.1, h')
    else some (r.1, counted tgt T c ptr h r.2)

/-- `shim_release` of any container that finds the counter. -/
theorem shimRelease_of_image :
    shimRelease mode outer tgt T c' ptr h = released mode tgt T c c' ptr n h := by
  unfold shimRelease delegatingRelease released
  rw [outerAt_of_image image near]
  simp only [Option.bind_eq_bind, Option.bind_some, delegate, Option.filter_none,
    subAt_of_image image near]
  cases Refcount.sub mode n with
  | none => rfl
  | some r =>
      simp only [Option.map_some, Option.bind_some]
      split
      · cases releaseInner tgt T c' ptr (counted tgt T c ptr h r.2) <;> rfl
      · rfl

/-- `shim_non_delegating_release`, which has the same statements. -/
theorem shimNonDelegatingRelease_of_image {this : Nat}
    (parent : parentFromPtr tgt this h = some ptr) :
    shimNonDelegatingRelease mode tgt T c' this h = released mode tgt T c c' ptr n h := by
  unfold shimNonDelegatingRelease released
  rw [parent]
  simp only [Option.bind_eq_bind, Option.bind_some, subAt_of_image image near]
  cases Refcount.sub mode n with
  | none => rfl
  | some r =>
      simp only [Option.map_some, Option.bind_some]
      split
      · cases releaseInner tgt T c' ptr (counted tgt T c ptr h r.2) <;> rfl
      · rfl

/-- What the end of an object does: the counter was 0, `inner` is dropped and the
block given back, once each. -/
theorem releaseInner_of_image {h' : Heap} (ended : releaseInner tgt T c' ptr h = some h') :
    n = 0 ∧ h'.drops = h.drops ++ [ptr + c.offset tgt T.layout .inner] ∧
      ∃ back, back.ptr = ptr ∧ h'.deallocs = h.deallocs ++ [back] := by
  obtain ⟨v, -, rest⟩ := Option.bind_eq_some_iff.mp ended
  obtain ⟨count, loaded, rest⟩ := Option.bind_eq_some_iff.mp rest
  have here : (h.dropInner (ptr + c'.offset tgt T.layout .inner)).countAt
      (ptr + c'.offset tgt T.layout .refCount) = some n := countAt_of_image image near
  rw [here] at loaded
  obtain rfl := Option.some.inj loaded
  split at rest
  · cases rest
  · cases rest
    rename_i zero
    refine ⟨Decidable.not_not.mp zero, ?_, _, rfl, rfl⟩
    rw [← offset_of_shift near (by decide) (by decide)]
    rfl

end Counting

/-! ## `QueryInterface` -/

variable (mode outer tgt T c' ptr h) in
/-- What `QueryInterface` answers, `unknown` for `IUnknown`: the search starts at the
primary interface of the container `c'`, and what it finds is counted through the
vtable of the pointer found. -/
def granted (unknown : Nat) (addRef : Heap → Option (Nat × Heap)) (riid : Guid) :
    Option (Answer × Heap) :=
  if riid = iidIUnknown then (addRef h).map fun r => (⟨statusSuccess, some unknown⟩, r.2)
  else
    match comImplQueryInterface tgt T ptr riid c'.primary with
    | some q =>
        (invokeAddRef mode outer tgt T q h).map fun r => (⟨statusSuccess, some q⟩, r.2)
    | none => some (⟨statusNoInterface, some 0⟩, h)

theorem answer_eq {unknown : Nat} {addRef : Heap → Option (Nat × Heap)} {riid : Guid} :
    answer mode outer tgt T c' unknown ptr addRef (some riid) true h =
      granted mode outer tgt T c' ptr h unknown addRef riid := by
  simp only [answer, granted]
  split
  · cases addRef h <;> rfl
  · cases comImplQueryInterface tgt T ptr riid c'.primary with
    | none => rfl
    | some q =>
        simp only [invokeAddRef, Option.bind_eq_bind]
        cases h.vtableAt q with
        | none => rfl
        | some vtbl =>
            simp only [Option.bind_some]
            cases callAddRef mode outer tgt T q h vtbl.root.addRef <;> rfl

end Live

end Kcom.Com
