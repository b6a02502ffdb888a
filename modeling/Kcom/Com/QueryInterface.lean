import Kcom.Com.Inheritance
import Kcom.Com.Lifetime.Sequential

/-!
# `QueryInterface` between the interfaces of a `ComObjectN`

The primary and the secondary shims of a `ComObjectN` are written separately but
search from the same place: `ComImpl::query_interface` of the object's primary
interface, which `impl_com_interface!` writes as a comparison with its own IID, a
comparison with each secondary one under a running index, and the fallback to the
parent. `Object.Exposes` says which interface of the object an IID names, and
`QueryInterfaceLaws` what a client may rely on between all of them.
-/

namespace Kcom.Com

open ReprC Lifetime

namespace Interface

/-- The interfaces between this one and `IUnknown`. -/
def ancestors : Interface → List Interface
  | .iUnknown => []
  | .derived _ _ parent => parent.chain

theorem iids_eq_map (i : Interface) : i.iids = i.chain.map Interface.iid := by
  induction i with
  | iUnknown => rfl
  | derived iid own parent ih =>
      rw [iids, chain, List.map_cons, ih]
      rfl

theorem chain_eq {i : Interface} (declared : i ≠ .iUnknown) : i.chain = i :: i.ancestors := by
  cases i with
  | iUnknown => exact absurd rfl declared
  | derived iid own parent => rfl

end Interface

namespace Object

/-- A `ComObjectN` as the macros generate it: `impl_com_interface!` with the
secondary list for the primary interface and `impl_com_interface_multiple!` for each
secondary one, at the index it has in the list; the parents that the fallback goes
to by `impl_com_interface!` too; and no IID used twice. -/
structure Generated (T : Impl) (o : Object) : Prop where
  several : o.secondaries ≠ []
  declared : o.primary ≠ .iUnknown
  primary : ∃ a, T.form o.primary = .primary o.secondaries a
  secondary : ∀ (k : Nat) (i : Interface), o.secondaries[k]? = some i →
    ∃ a, T.form i = .secondary o.primary k o.secondaries a
  ancestors : ∀ i ∈ o.primary.ancestors,
    T.form i = .single ∨ ∃ a, T.form i = .primary o.secondaries a
  distinct : (iidIUnknown :: (o.primary.iids ++ o.secondaries.map Interface.iid)).Nodup

/-- The IID names the interface of the object at the place: `IUnknown`, the primary
interface and its ancestors are at the primary pointer, each secondary one is at the
entry of its index. -/
inductive Exposes (o : Object) : Guid → Iface → Prop
  | unknown : Exposes o iidIUnknown .primary
  | chain {i : Interface} (mem : i ∈ o.primary.chain) : Exposes o i.iid .primary
  | secondary {k : Nat} {i : Interface} (found : o.secondaries[k]? = some i) :
      Exposes o i.iid (.secondary k)

end Object

/-- The pointer of a place. -/
def Iface.pointer : Iface → Pointer
  | .primary => .primary
  | .secondary k => .secondary k

/-! ## The search -/

section Search

variable {tgt : Target} {T : Impl} {o : Object} {ptr k : Nat} {riid : Guid} {i : Interface}

/-- The allocator type does not move the entries. -/
theorem secondaryPtr_container {a : AllocTy} (several : o.secondaries ≠ []) :
    secondaryPtr tgt T (.comObjectN o.primary o.secondaries a) ptr k =
      secondaryPtr tgt T o.container ptr k := by
  obtain ⟨p, s, alloc⟩ := o
  cases s with
  | nil => exact absurd rfl several
  | cons i rest =>
      simp only [secondaryPtr, Object.container, Container.secondaries, Container.entryOffset,
        Container.offset_secondaries]

namespace Object.Generated

variable (generated : o.Generated T)

include generated

theorem implemented : o.Implemented T where
  single alone := absurd alone generated.several
  primary _ := generated.primary
  secondary i mem := by
    obtain ⟨k, found⟩ := List.mem_iff_getElem?.mp mem
    obtain ⟨a, form⟩ := generated.secondary k i found
    exact ⟨k, a, form⟩

/-- The IID of `IUnknown` is used for nothing else, so no secondary interface is
`IUnknown`. -/
theorem allDeclared : Declared o where
  primary _ := generated.declared
  secondary i mem := by
    rintro rfl
    apply (List.nodup_cons.mp generated.distinct).1
    exact List.mem_append_right _ (List.mem_map_of_mem mem)

theorem ne_unknown (named : riid ∈ o.primary.iids ++ o.secondaries.map Interface.iid) :
    riid ≠ iidIUnknown := by
  rintro rfl
  exact (List.nodup_cons.mp generated.distinct).1 named

theorem notMem_secondaries (own : riid ∈ o.primary.iids) :
    riid ∉ o.secondaries.map Interface.iid := by
  intro mem
  exact (List.nodup_append.mp (List.nodup_cons.mp generated.distinct).2).2.2 _ own _ mem rfl

/-- The running index of the search stops at the index of the interface. -/
theorem findIdx_secondary (found : o.secondaries[k]? = some i) :
    (o.secondaries.findIdx? fun j => j.iid = i.iid) = some k := by
  have unique := (List.nodup_append.mp (List.nodup_cons.mp generated.distinct).2).2.1
  obtain ⟨inside, here⟩ := List.getElem?_eq_some_iff.mp found
  apply List.findIdx?_eq_some_iff_getElem.mpr
  refine ⟨inside, by simp [here], ?_⟩
  intro j before same
  have earlier : j < o.secondaries.length := before.trans inside
  have apart := List.nodup_iff_getElem?_ne_getElem?.mp unique j k before (by simpa using inside)
  apply apart
  rw [List.getElem?_map, List.getElem?_map, found, List.getElem?_eq_getElem earlier]
  exact congrArg some (of_decide_eq_true same)

/-- The fallback from any interface of the primary chain, for an IID of no secondary
interface. -/
theorem search_chain (nonnull : ptr ≠ 0) (other : riid ∉ o.secondaries.map Interface.iid)
    (sub : ∀ j ∈ i.chain, j ∈ o.primary.chain) :
    comImplQueryInterface tgt T ptr riid i = if riid ∈ i.iids then some ptr else none := by
  induction i with
  | iUnknown => rfl
  | derived iid own parent ih =>
      have above := ih fun j mem => sub j (List.mem_cons_of_mem _ mem)
      have form : T.form (.derived iid own parent) = .single ∨
          ∃ a, T.form (.derived iid own parent) = .primary o.secondaries a := by
        have mem := sub _ List.mem_cons_self
        rw [Interface.chain_eq generated.declared] at mem
        rcases List.mem_cons.mp mem with eq | mem
        · rw [eq]
          exact .inr generated.primary
        · exact generated.ancestors _ mem
      have none : o.secondaries.findIdx? (fun j => j.iid = riid) = none := by
        rw [List.findIdx?_eq_none_iff]
        intro j mem
        apply decide_eq_false
        rintro rfl
        exact other (List.mem_map_of_mem mem)
      rw [comImplQueryInterface, if_neg nonnull, above]
      rcases form with form | ⟨a, form⟩
      · by_cases own : riid = iid <;> simp [form, own, Interface.iids]
      · by_cases own : riid = iid <;>
          simp [form, own, Interface.iids, matchSecondaries, Container.secondaries, none]

/-- The search for a secondary interface goes past the primary IID to its entry. -/
theorem search_secondary (nonnull : ptr ≠ 0) (found : o.secondaries[k]? = some i) :
    comImplQueryInterface tgt T ptr i.iid o.primary =
      some (secondaryPtr tgt T o.container ptr k) := by
  obtain ⟨a, form⟩ := generated.primary
  have inside := (List.getElem?_eq_some_iff.mp found).1
  have other : i.iid ∉ o.primary.iids := by
    intro own
    exact generated.notMem_secondaries own (List.mem_map_of_mem (List.mem_of_getElem? found))
  have entry : secondaryPtr tgt T (.comObjectN o.primary o.secondaries a) ptr k =
      secondaryPtr tgt T o.container ptr k :=
    secondaryPtr_container generated.several
  have place : secondaryPtr tgt T o.container ptr k ≠ 0 := by
    have here : secondaryPtr tgt T (.comObjectN o.primary o.secondaries a) ptr k =
        ptr + (Container.comObjectN o.primary o.secondaries a).entryOffset tgt T.layout
          ⟨k, inside⟩ := dif_pos inside
    rw [← entry, here]
    omega
  cases shape : o.primary with
  | iUnknown => exact absurd shape generated.declared
  | derived iid own parent =>
      rw [shape] at form other entry
      have next : i.iid ≠ iid := by
        rintro rfl
        exact other List.mem_cons_self
      simp [comImplQueryInterface, nonnull, form, next, matchSecondaries, Container.secondaries,
        generated.findIdx_secondary found, entry, place]

end Object.Generated

end Search

/-! ## The calls -/

section Calls

variable {mode : Hardening} {outer : OuterUnknown} {tgt : Target} {T : Impl} {o : Object}
  {ptr n : Nat} {h : Heap} {riid : Guid} {via dest : Iface}

theorem address_pointer : via.pointer.address tgt T o.container ptr = o.pointerTo tgt T ptr via := by
  cases via <;> rfl

theorem unknown_pointer : via.pointer.unknown.address tgt T o.container ptr = ptr := by
  cases via <;> rfl

theorem valid_pointer (own : (o.interface via).isSome = true) :
    via.pointer.valid o.container = true := by
  cases via with
  | primary => rfl
  | secondary k =>
      obtain ⟨i, found⟩ := Option.isSome_iff_exists.mp own
      have inside := (List.getElem?_eq_some_iff.mp found).1
      rw [← o.container_secondaries] at inside
      exact decide_eq_true inside

theorem Object.Exposes.interface (exposed : o.Exposes riid dest) :
    (o.interface dest).isSome = true := by
  cases exposed with
  | unknown => rfl
  | chain _ => rfl
  | secondary found => exact Option.isSome_of_eq_some found

section Generated

variable (generated : o.Generated T) (nonnull : ptr ≠ 0)
  (image : Image tgt T o.container ptr n h.mem) (own : (o.interface via).isSome = true)

include generated image own

theorem invokeAddRef_interface :
    invokeAddRef mode outer tgt T (o.pointerTo tgt T ptr via) h =
      (Refcount.add mode n).map fun r => (r.1, counted tgt T o.container ptr h r.2) := by
  rw [← address_pointer]
  exact invokeAddRef_pointer generated.implemented generated.allDeclared image (valid_pointer own)

/-- The call is the same through every pointer of the object. -/
theorem invokeQueryInterface_interface :
    invokeQueryInterface mode outer tgt T (o.pointerTo tgt T ptr via) (some riid) true h =
      if riid = iidIUnknown then
        (Refcount.add mode n).map fun r =>
          (⟨statusSuccess, some ptr⟩, counted tgt T o.container ptr h r.2)
      else
        match comImplQueryInterface tgt T ptr riid o.primary with
        | some q =>
            (invokeAddRef mode outer tgt T q h).map fun r => (⟨statusSuccess, some q⟩, r.2)
        | none => some (⟨statusNoInterface, some 0⟩, h) := by
  have slots : ∃ (c : Container) (addRef : Heap → Option (Nat × Heap)), _ ∧ _ ∧
      invokeQueryInterface mode outer tgt T (via.pointer.address tgt T o.container ptr)
        (some riid) true h = _ :=
    invokeQueryInterface_pointer generated.implemented generated.allDeclared image
      (valid_pointer own)
  obtain ⟨c, addRef, counts, start, slot⟩ := slots
  rw [address_pointer, unknown_pointer] at slot
  rw [slot, granted, start generated.several, counts, Option.map_map]
  rfl

include nonnull

/-- Whatever pointer of the object the call is made through, the answer for an IID
that the object exposes is the pointer to the interface it names. -/
theorem invokeQueryInterface_exposed (exposed : o.Exposes riid dest) :
    invokeQueryInterface mode outer tgt T (o.pointerTo tgt T ptr via) (some riid) true h =
      (Refcount.add mode n).map fun r =>
        (⟨statusSuccess, some (o.pointerTo tgt T ptr dest)⟩, counted tgt T o.container ptr h r.2) := by
  rw [invokeQueryInterface_interface generated image own]
  -- The pointer found is counted through its own vtable.
  have counts : invokeAddRef mode outer tgt T (o.pointerTo tgt T ptr dest) h = _ :=
    invokeAddRef_interface generated image exposed.interface
  cases exposed with
  | unknown =>
      rw [if_pos rfl]
      rfl
  | chain mem =>
      rename_i i
      have listed : i.iid ∈ o.primary.iids := by
        rw [Interface.iids_eq_map]
        exact List.mem_map_of_mem mem
      have found : comImplQueryInterface tgt T ptr i.iid o.primary =
          some (o.pointerTo tgt T ptr .primary) := by
        rw [generated.search_chain nonnull (generated.notMem_secondaries listed) fun _ => id,
          if_pos listed]
        rfl
      rw [if_neg (generated.ne_unknown (List.mem_append_left _ listed)), found]
      simp only [counts, Option.map_map]
      rfl
  | secondary place =>
      rename_i k i
      have listed : i.iid ∈ o.secondaries.map Interface.iid :=
        List.mem_map_of_mem (List.mem_of_getElem? place)
      have found : comImplQueryInterface tgt T ptr i.iid o.primary =
          some (o.pointerTo tgt T ptr (.secondary k)) := generated.search_secondary nonnull place
      rw [if_neg (generated.ne_unknown (List.mem_append_right _ listed)), found]
      simp only [counts, Option.map_map]
      rfl

theorem invokeQueryInterface_hidden (hidden : ∀ dest, ¬o.Exposes riid dest) :
    invokeQueryInterface mode outer tgt T (o.pointerTo tgt T ptr via) (some riid) true h =
      some (⟨statusNoInterface, some 0⟩, h) := by
  have unknown : riid ≠ iidIUnknown := by
    rintro rfl
    exact hidden _ .unknown
  have apart : riid ∉ o.secondaries.map Interface.iid := by
    intro named
    obtain ⟨i, mem, rfl⟩ := List.mem_map.mp named
    obtain ⟨k, found⟩ := List.mem_iff_getElem?.mp mem
    exact hidden _ (.secondary found)
  have foreign : riid ∉ o.primary.iids := by
    rw [Interface.iids_eq_map]
    intro named
    obtain ⟨i, mem, rfl⟩ := List.mem_map.mp named
    exact hidden _ (.chain mem)
  rw [invokeQueryInterface_interface generated image own, if_neg unknown,
    generated.search_chain nonnull apart fun _ => id, if_neg foreign]

end Generated

end Calls

/-! ## The laws -/

/-- `QueryInterface` through the pointer `p` answers with `q`. -/
def Succeeds (mode : Hardening) (outer : OuterUnknown) (tgt : Target) (T : Impl) (h : Heap)
    (p : Nat) (riid : Guid) (q : Nat) : Prop :=
  ∃ h', invokeQueryInterface mode outer tgt T p (some riid) true h =
    some (⟨statusSuccess, some q⟩, h')

/-- The object is in memory, and its counter has room for another reference. -/
def Live (mode : Hardening) (tgt : Target) (T : Impl) (o : Object) (ptr : Nat) (h : Heap) : Prop :=
  ∃ n < Refcount.capacity mode, Image tgt T o.container ptr n h.mem

/-- What `QueryInterface` does on the object `o` at `ptr`, for non-null `riid` and
`ppv`. Each law is about any moments of the object's life, with whatever number of
references it has then. -/
structure QueryInterfaceLaws (mode : Hardening) (outer : OuterUnknown) (tgt : Target) (T : Impl)
    (o : Object) (ptr : Nat) : Prop where
  /-- An exposed IID is found, from every start at the same place, and one reference
  is added. -/
  grants : ∀ (h : Heap) (n : Nat) (via dest : Iface) (riid : Guid),
    Image tgt T o.container ptr n h.mem → n < Refcount.capacity mode →
    (o.interface via).isSome = true → o.Exposes riid dest →
    ∃ h', invokeQueryInterface mode outer tgt T (o.pointerTo tgt T ptr via) (some riid) true h =
        some (⟨statusSuccess, some (o.pointerTo tgt T ptr dest)⟩, h') ∧
      h' = counted tgt T o.container ptr h (n + 1) ∧
      Image tgt T o.container ptr (n + 1) h'.mem
  /-- Any other IID is refused, null is stored and nothing is counted. -/
  refuses : ∀ (h : Heap) (n : Nat) (via : Iface) (riid : Guid),
    Image tgt T o.container ptr n h.mem → (o.interface via).isSome = true →
    (∀ dest, ¬o.Exposes riid dest) →
    invokeQueryInterface mode outer tgt T (o.pointerTo tgt T ptr via) (some riid) true h =
      some (⟨statusNoInterface, some 0⟩, h)
  /-- What is found at the primary pointer is the vtable generated for the primary
  interface. -/
  primaryVtable : ∀ (h : Heap) (n : Nat), Image tgt T o.container ptr n h.mem →
    ∃ a, h.vtableAt (o.pointerTo tgt T ptr .primary) =
      some (.newPrimary o.primary o.secondaries a o.primary)
  /-- What is found at the entry of index `k` is the vtable generated for the
  secondary interface of that index. -/
  secondaryVtable : ∀ (h : Heap) (n k : Nat) (i : Interface),
    Image tgt T o.container ptr n h.mem → o.secondaries[k]? = some i →
    ∃ a, h.vtableAt (o.pointerTo tgt T ptr (.secondary k)) =
      some (.newSecondary o.primary o.secondaries a k i)
  identity : ∀ (h h' : Heap) (via via' : Iface) (q q' : Nat),
    Live mode tgt T o ptr h → Live mode tgt T o ptr h' →
    (o.interface via).isSome = true → (o.interface via').isSome = true →
    Succeeds mode outer tgt T h (o.pointerTo tgt T ptr via) iidIUnknown q →
    Succeeds mode outer tgt T h' (o.pointerTo tgt T ptr via') iidIUnknown q' → q = q'
  reflexive : ∀ (h : Heap) (via : Iface) (riid : Guid),
    Live mode tgt T o ptr h → o.Exposes riid via →
    Succeeds mode outer tgt T h (o.pointerTo tgt T ptr via) riid (o.pointerTo tgt T ptr via)
  symmetric : ∀ (h h' : Heap) (via : Iface) (riid riid' : Guid) (q : Nat),
    Live mode tgt T o ptr h → Live mode tgt T o ptr h' → o.Exposes riid via →
    Succeeds mode outer tgt T h (o.pointerTo tgt T ptr via) riid' q →
    Succeeds mode outer tgt T h' q riid (o.pointerTo tgt T ptr via)
  transitive : ∀ (h h' h'' : Heap) (via : Iface) (riid riid' : Guid) (q q' : Nat),
    Live mode tgt T o ptr h → Live mode tgt T o ptr h' → Live mode tgt T o ptr h'' →
    (o.interface via).isSome = true →
    Succeeds mode outer tgt T h (o.pointerTo tgt T ptr via) riid q →
    Succeeds mode outer tgt T h' q riid' q' →
    Succeeds mode outer tgt T h'' (o.pointerTo tgt T ptr via) riid' q'

section Laws

variable {mode : Hardening} {outer : OuterUnknown} {tgt : Target} {T : Impl} {o : Object}
  {ptr q : Nat} {h : Heap} {riid : Guid} {via dest : Iface}

variable (generated : o.Generated T) (nonnull : ptr ≠ 0) (live : Live mode tgt T o ptr h)

include generated nonnull live

theorem succeeds_of_exposed (own : (o.interface via).isSome = true)
    (exposed : o.Exposes riid dest) :
    Succeeds mode outer tgt T h (o.pointerTo tgt T ptr via) riid (o.pointerTo tgt T ptr dest) := by
  obtain ⟨n, room, image⟩ := live
  refine ⟨counted tgt T o.container ptr h (n + 1), ?_⟩
  rw [invokeQueryInterface_exposed generated nonnull image own exposed, Refcount.add_eq room]
  rfl

/-- An answer is a pointer of the object. -/
theorem exposed_of_succeeds (own : (o.interface via).isSome = true)
    (success : Succeeds mode outer tgt T h (o.pointerTo tgt T ptr via) riid q) :
    ∃ dest, o.Exposes riid dest ∧ q = o.pointerTo tgt T ptr dest := by
  obtain ⟨n, room, image⟩ := live
  obtain ⟨h', called⟩ := success
  by_cases found : ∃ dest, o.Exposes riid dest
  · obtain ⟨dest, exposed⟩ := found
    rw [invokeQueryInterface_exposed generated nonnull image own exposed,
      Refcount.add_eq room] at called
    cases called
    exact ⟨dest, exposed, rfl⟩
  · rw [invokeQueryInterface_hidden generated nonnull image own (not_exists.mp found)] at called
    have status : statusNoInterface = statusSuccess :=
      congrArg Answer.status (Prod.mk.inj (Option.some.inj called)).1
    exact absurd status (by decide)

end Laws

section Main

variable {mode : Hardening} {outer : OuterUnknown} {tgt : Target} {T : Impl} {o : Object}
  {ptr n k : Nat} {h : Heap} {i : Interface}

theorem vtableAt_primary (generated : o.Generated T)
    (image : Image tgt T o.container ptr n h.mem) :
    ∃ a, h.vtableAt ptr = some (.newPrimary o.primary o.secondaries a o.primary) := by
  obtain ⟨a, form⟩ := generated.primary
  refine ⟨a, ?_⟩
  rw [vtableAt_object image]
  cases shape : o.primary with
  | iUnknown => exact absurd shape generated.declared
  | derived iid own parent =>
      rw [shape] at form
      simp only [Impl.vtable, form]

theorem vtableAt_secondary (generated : o.Generated T)
    (image : Image tgt T o.container ptr n h.mem) (found : o.secondaries[k]? = some i) :
    ∃ a, h.vtableAt (secondaryPtr tgt T o.container ptr k) =
      some (.newSecondary o.primary o.secondaries a k i) := by
  obtain ⟨a, form⟩ := generated.secondary k i found
  refine ⟨a, ?_⟩
  rw [← o.container_secondaries] at found
  obtain ⟨inside, here⟩ := List.getElem?_eq_some_iff.mp found
  have entry : o.container.secondaries.get ⟨k, inside⟩ = i := here
  rw [(entry_of_image image inside).1, entry]
  cases i with
  | iUnknown =>
      rw [o.container_secondaries] at found
      exact absurd rfl (generated.allDeclared.secondary _ (List.mem_of_getElem? found))
  | derived iid own parent => simp only [Impl.vtable, form]

/-- **`QueryInterface` on a `ComObjectN`.** Between all the interfaces of a generated
object it finds what the object exposes and nothing else, from every start at the
same pointer, and counts one reference, while the counter has room for it. -/
theorem query_interface_laws (generated : o.Generated T) (nonnull : ptr ≠ 0) :
    QueryInterfaceLaws mode outer tgt T o ptr where
  grants h n via dest riid image room own exposed := by
    refine ⟨_, ?_, rfl, image.counted⟩
    rw [invokeQueryInterface_exposed generated nonnull image own exposed, Refcount.add_eq room]
    rfl
  refuses h n via riid image own hidden :=
    invokeQueryInterface_hidden generated nonnull image own hidden
  primaryVtable h n image := vtableAt_primary generated image
  secondaryVtable h n k i image found := vtableAt_secondary generated image found
  identity h h' via via' q q' live live' own own' success success' := by
    -- Both answers are the primary pointer.
    obtain ⟨n, room, image⟩ := live
    obtain ⟨n', room', image'⟩ := live'
    obtain ⟨after, called⟩ := success
    obtain ⟨after', called'⟩ := success'
    rw [invokeQueryInterface_exposed generated nonnull image own .unknown,
      Refcount.add_eq room] at called
    rw [invokeQueryInterface_exposed generated nonnull image' own' .unknown,
      Refcount.add_eq room'] at called'
    cases called
    cases called'
    rfl
  reflexive h via riid live exposed :=
    succeeds_of_exposed generated nonnull live exposed.interface exposed
  symmetric h h' via riid riid' q live live' exposed success := by
    obtain ⟨dest, exposed', rfl⟩ :=
      exposed_of_succeeds generated nonnull live exposed.interface success
    exact succeeds_of_exposed generated nonnull live' exposed'.interface exposed
  transitive h h' h'' via riid riid' q q' live live' live'' own success success' := by
    obtain ⟨dest, exposed, rfl⟩ := exposed_of_succeeds generated nonnull live own success
    obtain ⟨dest', exposed', rfl⟩ :=
      exposed_of_succeeds generated nonnull live' exposed.interface success'
    exact succeeds_of_exposed generated nonnull live'' own exposed'

end Main

/-! ## An object with a parent and a secondary interface -/

namespace Layered

/-- A `T` that implements `I2: I1` as the primary interface, `I1` for the fallback
and `ISmartBar` as the secondary one. -/
def impl : Impl where
  layout := Width.w64.pointer
  form i :=
    if i = Pair.i2 then .primary [Smart.iSmartBar] .globalAllocator
    else if i = Smart.iSmartBar then .secondary Pair.i2 0 [Smart.iSmartBar] .globalAllocator
    else .single

/-- `ComObjectN::<T, I2Vtbl, (ISmartBarVtbl,)>`. -/
def object : Object where
  primary := Pair.i2
  secondaries := [Smart.iSmartBar]
  alloc := .global

theorem generated : object.Generated impl where
  several := List.cons_ne_nil _ _
  declared := by decide
  primary := ⟨.globalAllocator, rfl⟩
  secondary k i found := by
    obtain ⟨inside, here⟩ := List.getElem?_eq_some_iff.mp found
    obtain rfl : k = 0 := Nat.lt_one_iff.mp inside
    cases here
    exact ⟨.globalAllocator, rfl⟩
  ancestors i mem := by
    obtain rfl := List.mem_singleton.mp mem
    exact .inl rfl
  distinct := by decide

/-- The object can be made. -/
theorem made :
    ∃ h, tryNewIn (.packed .w64) impl object 0x1000 .empty = some (0x1000, h) ∧
      Image (.packed .w64) impl object.container 0x1000 1 h.mem :=
  ⟨_, rfl, image_constructed⟩

end Layered

/-- From the secondary pointer of a new object, `I1` is found at the primary
pointer. -/
theorem query_interface_laws_of_layered :
    ∃ h, tryNewIn (.packed .w64) Layered.impl Layered.object 0x1000 .empty = some (0x1000, h) ∧
      Layered.object.Exposes Pair.i1.iid .primary ∧
      Succeeds .off .absent (.packed .w64) Layered.impl h
        (Layered.object.pointerTo (.packed .w64) Layered.impl 0x1000 (.secondary 0)) Pair.i1.iid
        0x1000 := by
  obtain ⟨h, made, image⟩ := Layered.made
  have exposed : Layered.object.Exposes Pair.i1.iid .primary :=
    .chain (List.mem_cons_of_mem _ List.mem_cons_self)
  have laws : QueryInterfaceLaws .off .absent (.packed .w64) Layered.impl Layered.object 0x1000 :=
    query_interface_laws Layered.generated (by decide)
  obtain ⟨h', called, -⟩ :=
    laws.grants h 1 (.secondary 0) .primary Pair.i1.iid image (by decide) rfl exposed
  exact ⟨h, made, exposed, h', called⟩

/-! ## An object with no room left -/

section Full

variable (mode : Hardening) (outer : OuterUnknown) (tgt : Target) (T : Impl)

/-- `AddRef` through a pointer, again and again. -/
def addRefs (p : Nat) : Nat → Heap → Option Heap
  | 0, h => some h
  | k + 1, h => do
      let (_, h) ← invokeAddRef mode outer tgt T p h
      addRefs p k h

variable {mode outer tgt T} {o : Object} {ptr n : Nat} {h : Heap} {via : Iface}

theorem addRefs_eq (generated : o.Generated T) (image : Image tgt T o.container ptr n h.mem)
    (own : (o.interface via).isSome = true) {k : Nat} (room : n + k ≤ Refcount.capacity mode) :
    ∃ h', addRefs mode outer tgt T (o.pointerTo tgt T ptr via) k h = some h' ∧
      Image tgt T o.container ptr (n + k) h'.mem := by
  induction k generalizing n h with
  | zero => exact ⟨h, rfl, image⟩
  | succ k ih =>
      have step : invokeAddRef mode outer tgt T (o.pointerTo tgt T ptr via) h =
          some (n + 1, counted tgt T o.container ptr h (n + 1)) := by
        rw [invokeAddRef_interface generated image own, Refcount.add_eq (by omega)]
        rfl
      obtain ⟨h', run, image'⟩ :=
        ih (n := n + 1) (h := counted tgt T o.container ptr h (n + 1)) image.counted (by omega)
      refine ⟨h', ?_, ?_⟩
      · simp only [addRefs, step, Option.bind_eq_bind, Option.bind_some, run]
      · rwa [Nat.add_right_comm, Nat.add_assoc] at image'

end Full

/-- With `refcount-hardening`, `QueryInterface` for `IUnknown` on an object that has
`i32::MAX` references ends in `refcount_violation`. -/
theorem query_interface_full :
    ∃ h h', tryNewIn (.packed .w64) Layered.impl Layered.object 0x1000 .empty =
        some (0x1000, h) ∧
      addRefs .hardened .absent (.packed .w64) Layered.impl
        (Layered.object.pointerTo (.packed .w64) Layered.impl 0x1000 .primary)
        (Refcount.maxRefcount - 1) h = some h' ∧
      Layered.object.Exposes iidIUnknown .primary ∧
      invokeQueryInterface .hardened .absent (.packed .w64) Layered.impl
        (Layered.object.pointerTo (.packed .w64) Layered.impl 0x1000 .primary)
        (some iidIUnknown) true h' = none := by
  obtain ⟨h, made, image⟩ := Layered.made
  have room : 1 + (Refcount.maxRefcount - 1) ≤ Refcount.capacity .hardened := by decide
  have filled : ∃ h', addRefs .hardened .absent (.packed .w64) Layered.impl
      (Layered.object.pointerTo (.packed .w64) Layered.impl 0x1000 .primary)
      (Refcount.maxRefcount - 1) h = some h' ∧ _ :=
    addRefs_eq Layered.generated image rfl room
  obtain ⟨h', run, full⟩ := filled
  refine ⟨h, h', made, run, .unknown, ?_⟩
  rw [invokeQueryInterface_exposed Layered.generated (by decide) full rfl .unknown]
  rfl

end Kcom.Com
