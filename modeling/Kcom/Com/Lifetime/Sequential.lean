import Kcom.Com.Dispatch
import Kcom.Com.Single
import Kcom.Com.Lifetime.Model
import Mathlib.Logic.Relation

/-!
# Calls that nobody interrupts

The shims of `Kcom.Com.Shims` act on memory in one go, the calls of
`Kcom.Com.Lifetime.Model` access by access. A client that performs the operations
of `AddRef` or `Release` in a row does what the slot of the vtable does, through
every pointer of the object: `ref_count` ends at what the shim leaves in memory,
and `inner` is dropped and the block freed in the same calls.
-/

namespace Kcom.Com.Lifetime

open Conc

/-! ## The pointers of an object in memory -/

/-- Where the pointer points, for an object at `ptr`. -/
def Pointer.address (tgt : Target) (T : Impl) (c : Container) (ptr : Nat) : Pointer → Nat
  | .primary => ptr
  | .secondary i => secondaryPtr tgt T c ptr i
  | .nonDelegating => ptr + c.offset tgt T.layout .nonDelegatingUnknown

/-- The pointer that `QueryInterface` answers with for `IUnknown`. -/
def Pointer.unknown : Pointer → Pointer
  | .nonDelegating => .nonDelegating
  | _ => .primary

/-- The interfaces of an object with secondary ones are declared by the macro:
`IUnknown` itself has no vtable for a place in a `ComObjectN`. -/
structure Declared (o : Object) : Prop where
  primary : o.secondaries ≠ [] → o.primary ≠ .iUnknown
  secondary : ∀ i ∈ o.secondaries, i ≠ .iUnknown

section Slots

variable {mode : Hardening} {outer : OuterUnknown} {tgt : Target} {T : Impl} {o : Object}
  {ptr n : Nat} {h : Heap} {i : Interface} {p : Pointer}

variable (tgt) in
theorem root_primary (implemented : o.Implemented T) (declared : Declared o) :
    ∃ c : Container, c.shift tgt = o.container.shift tgt ∧
      (o.secondaries ≠ [] → c.primary = o.primary) ∧
      (T.vtable o.primary).root = ⟨.queryInterface c, .addRef c, .release c⟩ := by
  by_cases alone : o.secondaries = []
  · refine ⟨shimContainer o.primary, (shift_of_single alone).symm, absurd alone, ?_⟩
    rw [vtable_single (implemented.single alone), root_new]
    rfl
  · obtain ⟨a, form⟩ := implemented.primary alone
    refine ⟨.comObjectN o.primary o.secondaries a, (shift_of_multiple alone).symm,
      fun _ => rfl, ?_⟩
    cases shape : o.primary with
    | iUnknown => exact absurd shape (declared.primary alone)
    | derived iid own parent =>
        rw [shape] at form
        simp only [Impl.vtable, form]
        exact Vtbl.root_build _

variable (tgt) in
theorem root_secondary (implemented : o.Implemented T) (declared : Declared o)
    (mem : i ∈ o.secondaries) :
    ∃ (c : Container) (index : Nat), c.shift tgt = o.container.shift tgt ∧
      c.primary = o.primary ∧
      (T.vtable i).root =
        ⟨.queryInterfaceSecondary c index, .addRefSecondary c index, .releaseSecondary c index⟩ := by
  have several : o.secondaries ≠ [] := List.ne_nil_of_mem mem
  obtain ⟨index, a, form⟩ := implemented.secondary i mem
  refine ⟨.comObjectN o.primary o.secondaries a, index, (shift_of_multiple several).symm, rfl, ?_⟩
  cases i with
  | iUnknown => exact absurd rfl (declared.secondary _ mem)
  | derived iid own parent =>
      simp only [Impl.vtable, form]
      exact Vtbl.root_build _

/-- The slots that a call on a secondary pointer finds. -/
theorem slots_secondary {j : Nat} (implemented : o.Implemented T) (declared : Declared o)
    (image : Image tgt T o.container ptr n h.mem)
    (valid : (Pointer.secondary j).valid o.container = true) :
    ∃ (c : Container) (index : Nat) (v : Vtbl), c.shift tgt = o.container.shift tgt ∧
      c.primary = o.primary ∧ h.vtableAt (secondaryPtr tgt T o.container ptr j) = some v ∧
      v.root =
        ⟨.queryInterfaceSecondary c index, .addRefSecondary c index, .releaseSecondary c index⟩ ∧
      parentFromPtr tgt (secondaryPtr tgt T o.container ptr j) h = some ptr := by
  have inside : j < o.container.secondaries.length := of_decide_eq_true valid
  have mem : o.container.secondaries.get ⟨j, inside⟩ ∈ o.secondaries := by
    rw [← o.container_secondaries]
    exact List.get_mem _ _
  obtain ⟨c, index, near, found, root⟩ := root_secondary tgt implemented declared mem
  obtain ⟨stored, parent⟩ := entry_of_image image inside
  exact ⟨c, index, _, near, found, stored, root, parent⟩

section Pointers

variable (implemented : o.Implemented T) (declared : Declared o)
  (image : Image tgt T o.container ptr n h.mem) (valid : p.valid o.container = true)

include implemented declared image valid

/-- `AddRef` through any pointer of the object counts up. -/
theorem invokeAddRef_pointer :
    invokeAddRef mode outer tgt T (p.address tgt T o.container ptr) h =
      (Refcount.add mode n).map fun r => (r.1, counted tgt T o.container ptr h r.2) := by
  unfold invokeAddRef
  cases p with
  | primary =>
      obtain ⟨c, near, -, root⟩ := root_primary tgt implemented declared
      simp only [Pointer.address, vtableAt_object image, Option.bind_eq_bind, Option.bind_some, root,
        callAddRef]
      exact shimAddRef_of_image image near
  | secondary j =>
      obtain ⟨c, index, v, near, -, stored, root, parent⟩ :=
        slots_secondary implemented declared image valid
      simp only [Pointer.address, stored, Option.bind_eq_bind, Option.bind_some, root,
        callAddRef, shimAddRefSecondary, parent]
      exact shimAddRef_of_image image near
  | nonDelegating =>
      simp only [Pointer.address, vtableAt_of image.nonDelegatingVtable, Option.bind_eq_bind,
        Option.bind_some, Vtbl.root, IUnknownVtbl.nonDelegating, callAddRef,
        shimNonDelegatingAddRef, parentFromPtr_nonDelegating image]
      exact addAt_of_image image rfl

/-- `Release` through any pointer of the object counts down, and ends the object in
a container that finds its fields. -/
theorem invokeRelease_pointer :
    ∃ c : Container, c.shift tgt = o.container.shift tgt ∧
      invokeRelease mode outer tgt T (p.address tgt T o.container ptr) h =
        released mode tgt T o.container c ptr n h := by
  unfold invokeRelease
  cases p with
  | primary =>
      obtain ⟨c, near, -, root⟩ := root_primary tgt implemented declared
      refine ⟨c, near, ?_⟩
      simp only [Pointer.address, vtableAt_object image, Option.bind_eq_bind, Option.bind_some, root,
        callRelease]
      exact shimRelease_of_image image near
  | secondary j =>
      obtain ⟨c, index, v, near, -, stored, root, parent⟩ :=
        slots_secondary implemented declared image valid
      refine ⟨c, near, ?_⟩
      simp only [Pointer.address, stored, Option.bind_eq_bind, Option.bind_some, root,
        callRelease, shimReleaseSecondary, parent]
      exact shimRelease_of_image image near
  | nonDelegating =>
      refine ⟨o.container, rfl, ?_⟩
      simp only [Pointer.address, vtableAt_of image.nonDelegatingVtable, Option.bind_eq_bind,
        Option.bind_some, Vtbl.root, IUnknownVtbl.nonDelegating, callRelease]
      exact shimNonDelegatingRelease_of_image image rfl (parentFromPtr_nonDelegating image)

/-- `QueryInterface` through any pointer of the object. With secondary interfaces
the search starts at the object's own primary one. -/
theorem invokeQueryInterface_pointer {riid : Guid} :
    ∃ (c : Container) (addRef : Heap → Option (Nat × Heap)),
      addRef h = (Refcount.add mode n).map (fun r => (r.1, counted tgt T o.container ptr h r.2)) ∧
      (o.secondaries ≠ [] → c.primary = o.primary) ∧
      invokeQueryInterface mode outer tgt T (p.address tgt T o.container ptr) (some riid) true h =
        granted mode outer tgt T c ptr h (p.unknown.address tgt T o.container ptr) addRef riid := by
  unfold invokeQueryInterface
  cases p with
  | primary =>
      obtain ⟨c, near, found, root⟩ := root_primary tgt implemented declared
      refine ⟨c, shimAddRef mode outer tgt T c ptr, shimAddRef_of_image image near, found, ?_⟩
      simp only [Pointer.address, Pointer.unknown, vtableAt_object image, Option.bind_eq_bind,
        Option.bind_some, root, callQueryInterface, shimQueryInterface, outerAt_of_image image near,
        delegate, Option.filter_none]
      exact answer_eq
  | secondary j =>
      obtain ⟨c, index, v, near, found, stored, root, parent⟩ :=
        slots_secondary implemented declared image valid
      refine ⟨c, shimAddRef mode outer tgt T c ptr, shimAddRef_of_image image near,
        fun _ => found, ?_⟩
      simp only [Pointer.address, Pointer.unknown, stored, Option.bind_eq_bind, Option.bind_some,
        root, callQueryInterface, shimQueryInterfaceSecondary, parent, shimQueryInterface,
        outerAt_of_image image near, delegate, Option.filter_none]
      exact answer_eq
  | nonDelegating =>
      have parent := parentFromPtr_nonDelegating image
      have counts : shimNonDelegatingAddRef mode tgt T o.container
          (ptr + o.container.offset tgt T.layout .nonDelegatingUnknown) h =
            (Refcount.add mode n).map fun r => (r.1, counted tgt T o.container ptr h r.2) := by
        simp only [shimNonDelegatingAddRef, parent, Option.bind_eq_bind, Option.bind_some]
        exact addAt_of_image image rfl
      refine ⟨o.container, _, counts, fun _ => o.container_primary, ?_⟩
      simp only [Pointer.address, Pointer.unknown, vtableAt_of image.nonDelegatingVtable,
        Option.bind_eq_bind, Option.bind_some, Vtbl.root, IUnknownVtbl.nonDelegating,
        callQueryInterface, shimNonDelegatingQueryInterface, parent]
      exact answer_eq

end Pointers

end Slots

/-! ## Operations in a row -/

/-- The operations that only load. -/
def Op.loads : Op → Bool
  | .loadVtable => true
  | .loadParent => true
  | .loadOuter => true
  | _ => false

/-- Client `i` gets from one state to another by operations of its own. -/
def Alone (mode : Hardening) (c : Container) (i : Nat) : State → State → Prop :=
  Relation.ReflTransGen fun s s' => ∃ answer, s.step mode c (.run i answer) = some s'

section Alone

variable {mode : Hardening} {c : Container} {i count count' : Nat}
  {clients : List (Thread Holdings Op)} {log log' : List Event} {s s' : State} {t t' : Holdings}
  {op : Op} {push rest code : List Op}

theorem State.eq_set (found : s.clients[i]? = some ⟨t, code⟩) :
    s = ⟨s.refCount, s.clients.set i ⟨t, code⟩, s.log⟩ := by
  obtain ⟨inside, here⟩ := List.getElem?_eq_some_iff.mp found
  rw [← here, List.set_getElem_self]

/-- The next operation of the client. -/
theorem Alone.next (answer : Option Granted) (inside : i < clients.length)
    (performed : op.perform mode answer i ⟨count, clients.set i ⟨t, op :: rest⟩, log⟩ t =
      some (⟨count', clients.set i ⟨t, op :: rest⟩, log'⟩, t', push))
    (alone : Alone mode c i ⟨count', clients.set i ⟨t', push ++ rest⟩, log'⟩ s') :
    Alone mode c i ⟨count, clients.set i ⟨t, op :: rest⟩, log⟩ s' := by
  refine Relation.ReflTransGen.head ⟨answer, ?_⟩ alone
  simp only [State.step, List.getElem?_set_self inside, performed, Option.map_some, State.moved,
    List.set_set]

/-- Loads change nothing but what is left to do. -/
theorem Alone.pass (inside : i < clients.length) (loads : ∀ op ∈ code, op.loads = true)
    (alone : Alone mode c i ⟨count, clients.set i ⟨t, rest⟩, log⟩ s') :
    Alone mode c i ⟨count, clients.set i ⟨t, code ++ rest⟩, log⟩ s' := by
  induction code with
  | nil => exact alone
  | cons op code ih =>
      have load := loads op List.mem_cons_self
      have after := ih fun op' mem => loads op' (List.mem_cons_of_mem _ mem)
      have performed : op.perform mode none i
          ⟨count, clients.set i ⟨t, op :: (code ++ rest)⟩, log⟩ t =
            some (⟨count, clients.set i ⟨t, op :: (code ++ rest)⟩, log⟩, t, []) := by
        cases op <;> first | rfl | cases load
      exact Alone.next none inside performed after

/-- For `IUnknown` the call loads and counts. -/
theorem queryInterface_unknown (p : Pointer) (smart : Bool) :
    ∃ code, (∀ op ∈ code, op.loads = true) ∧
      queryInterface c p (some iidIUnknown) smart = code ++ [.add (answered smart p.unknown)] := by
  cases p with
  | primary => exact ⟨[.loadVtable, .loadOuter, .loadOuter], by simp [Op.loads], rfl⟩
  | secondary j =>
      exact ⟨[.loadVtable, .loadParent, .loadOuter, .loadOuter], by simp [Op.loads], rfl⟩
  | nonDelegating => exact ⟨[.loadVtable, .loadParent, .loadParent], by simp [Op.loads], rfl⟩

/-- For any other IID it loads and asks `T`. -/
theorem queryInterface_other {riid : Guid} (other : riid ≠ iidIUnknown) (p : Pointer)
    (smart : Bool) :
    ∃ code, (∀ op ∈ code, op.loads = true) ∧
      queryInterface c p (some riid) smart = code ++ [.queryInterface riid smart] := by
  refine ⟨.loadVtable :: p.enter ++ locatePrimary c p, ?_, ?_⟩
  · cases c <;> cases p <;> simp [Pointer.enter, locatePrimary, Op.loads]
  · rw [queryInterface]
    simp only [if_neg other, List.append_assoc]

theorem loads_enter (p : Pointer) : ∀ op ∈ .loadVtable :: p.enter, op.loads = true := by
  cases p <;> simp [Pointer.enter, Op.loads]

/-- Loads and then the counter. -/
theorem Alone.add {g : Held} {r : Nat × Nat} (inside : i < clients.length)
    (loads : ∀ op ∈ code, op.loads = true) (added : Refcount.add mode count = some r) :
    Alone mode c i ⟨count, clients.set i ⟨t, code ++ [.add g]⟩, log⟩
      ⟨r.2, clients.set i ⟨t.gain g, []⟩, log⟩ := by
  apply Alone.pass inside loads
  have counts : (Op.add g).perform mode none i ⟨count, clients.set i ⟨t, [.add g]⟩, log⟩ t =
      some (⟨r.2, clients.set i ⟨t, [.add g]⟩, log⟩, t, [.gain g]) := by
    simp only [Op.perform, added, Option.map_some]
  have gains : (Op.gain g).perform mode none i ⟨r.2, clients.set i ⟨t, [.gain g]⟩, log⟩ t =
      some (⟨r.2, clients.set i ⟨t, [.gain g]⟩, log⟩, t.gain g, []) := rfl
  exact Alone.next none inside counts (Alone.next none inside gains .refl)

/-- Loads and then `T::query_interface`, which finds nothing. -/
theorem Alone.refuse (riid : Guid) (smart : Bool) (inside : i < clients.length)
    (loads : ∀ op ∈ code, op.loads = true) :
    Alone mode c i ⟨count, clients.set i ⟨t, code ++ [.queryInterface riid smart]⟩, log⟩
      ⟨count, clients.set i ⟨t, []⟩, log⟩ := by
  apply Alone.pass inside loads
  exact Alone.next none inside rfl .refl

/-- Loads and then `T::query_interface`, which counts through the pointer it
found. -/
theorem Alone.grant (riid : Guid) (smart : Bool) {p : Pointer} {r : Nat × Nat}
    (inside : i < clients.length) (loads : ∀ op ∈ code, op.loads = true)
    (added : Refcount.add mode count = some r) :
    Alone mode c i ⟨count, clients.set i ⟨t, code ++ [.queryInterface riid smart]⟩, log⟩
      ⟨r.2, clients.set i ⟨t.gain (answered smart p), []⟩, log⟩ := by
  apply Alone.pass inside loads
  have pushes : (Op.queryInterface riid smart).perform mode (some (.own p)) i
      ⟨count, clients.set i ⟨t, [.queryInterface riid smart]⟩, log⟩ t =
        some (⟨count, clients.set i ⟨t, [.queryInterface riid smart]⟩, log⟩, t,
          addRef p (answered smart p)) := rfl
  apply Alone.next _ inside pushes
  rw [List.append_nil, addRef]
  exact Alone.add inside (loads_enter p) added

theorem Alone.release (p : Pointer) {r : Nat × Nat} (inside : i < clients.length)
    (gone : Refcount.sub mode count = some r) (more : r.1 ≠ 0) :
    Alone mode c i ⟨count, clients.set i ⟨t, release p⟩, log⟩
      ⟨r.2, clients.set i ⟨t, []⟩, log⟩ := by
  apply Alone.pass inside (loads_enter p)
  have counts : Op.sub.perform mode none i ⟨count, clients.set i ⟨t, [.sub]⟩, log⟩ t =
      some (⟨r.2, clients.set i ⟨t, [.sub]⟩, log⟩, t, []) := by
    simp only [Op.perform, gone, Option.map_some, if_neg more]
  apply Alone.next none inside counts
  exact .refl

/-- The `Release` that gives the last reference back: the check for resurrection
passes, since nobody else counts. -/
theorem Alone.releaseLast (p : Pointer) {r : Nat × Nat} (inside : i < clients.length)
    (gone : Refcount.sub mode count = some r) (last : r.1 = 0) (left : r.2 = 0) :
    Alone mode c i ⟨count, clients.set i ⟨t, Lifetime.release p⟩, log⟩
      ⟨0, clients.set i ⟨t, []⟩, log ++ [.lastReference i, .dropInner i, .dealloc i]⟩ := by
  have split : log ++ [.lastReference i, .dropInner i, .dealloc i] =
      log ++ [.lastReference i] ++ [.dropInner i] ++ [.dealloc i] := by
    simp
  rw [split]
  apply Alone.pass inside (loads_enter p)
  have counts : Op.sub.perform mode none i ⟨count, clients.set i ⟨t, [.sub]⟩, log⟩ t =
      some (⟨0, clients.set i ⟨t, [.sub]⟩, log ++ [.lastReference i]⟩, t, releaseInner) := by
    simp only [Op.perform, gone, Option.map_some, if_pos last, left]
  apply Alone.next none inside counts
  -- `readAlloc`, `dropInner`, `loadCount`, `dealloc`, `dropAlloc`
  iterate 5 apply Alone.next none inside rfl
  exact .refl

end Alone

/-! ## `AddRef` and `Release` -/

section Calls

variable {mode : Hardening} {outer : OuterUnknown} {tgt : Target} {T : Impl} {o : Object}
  {ptr result : Nat} {h h' : Heap} {s : State} {i : Nat} {t : Holdings} {p : Pointer} {g : Held}

variable (implemented : o.Implemented T) (declared : Declared o)
  (image : Image tgt T o.container ptr s.refCount h.mem) (valid : p.valid o.container = true)

include implemented declared image valid

/-- An `AddRef` that nobody interrupts is the `AddRef` of the vtable. -/
theorem addRef_alone (found : s.clients[i]? = some ⟨t, addRef p g⟩)
    (called : invokeAddRef mode outer tgt T (p.address tgt T o.container ptr) h =
      some (result, h')) :
    ∃ s', Alone mode o.container i s s' ∧ s'.clients = s.clients.set i ⟨t.gain g, []⟩ ∧
      s'.log = s.log ∧ Image tgt T o.container ptr s'.refCount h'.mem := by
  rw [invokeAddRef_pointer implemented declared image valid] at called
  rw [addRef] at found
  obtain ⟨r, added, eq⟩ := Option.map_eq_some_iff.mp called
  cases eq
  have inside := (List.getElem?_eq_some_iff.mp found).1
  have run : Alone mode o.container i _ ⟨r.2, s.clients.set i ⟨t.gain g, []⟩, s.log⟩ :=
    Alone.add inside (loads_enter p) added
  rw [← State.eq_set found] at run
  exact ⟨_, run, rfl, rfl, image.counted⟩

/-- A `Release` that nobody interrupts is the `Release` of the vtable: either the
object lives on with the counter of the memory, or both end it. -/
theorem release_alone (found : s.clients[i]? = some ⟨t, release p⟩)
    (called : invokeRelease mode outer tgt T (p.address tgt T o.container ptr) h =
      some (result, h')) :
    ∃ s', Alone mode o.container i s s' ∧ s'.clients = s.clients.set i ⟨t, []⟩ ∧
      (s'.log = s.log ∧ Image tgt T o.container ptr s'.refCount h'.mem ∧
          h'.drops = h.drops ∧ h'.deallocs = h.deallocs ∨
        s'.log = s.log ++ [.lastReference i, .dropInner i, .dealloc i] ∧ s'.refCount = 0 ∧
          h'.drops = h.drops ++ [ptr + o.container.offset tgt T.layout .inner] ∧
          ∃ back, back.ptr = ptr ∧ h'.deallocs = h.deallocs ++ [back]) := by
  have slots : ∃ c : Container, c.shift tgt = o.container.shift tgt ∧
      invokeRelease mode outer tgt T (p.address tgt T o.container ptr) h =
        released mode tgt T o.container c ptr s.refCount h :=
    invokeRelease_pointer implemented declared image valid
  obtain ⟨c, near, slot⟩ := slots
  rw [slot, released] at called
  obtain ⟨r, gone, rest⟩ := Option.bind_eq_some_iff.mp called
  have inside := (List.getElem?_eq_some_iff.mp found).1
  split at rest
  case isTrue last =>
    obtain ⟨ended, freeing, eq⟩ := Option.map_eq_some_iff.mp rest
    cases eq
    obtain ⟨left, drops, back, same, deallocs⟩ := releaseInner_of_image image.counted near freeing
    have run : Alone mode o.container i _ ⟨0, s.clients.set i ⟨t, []⟩,
        s.log ++ [.lastReference i, .dropInner i, .dealloc i]⟩ :=
      Alone.releaseLast p inside gone last left
    rw [← State.eq_set found] at run
    exact ⟨_, run, rfl, .inr ⟨rfl, rfl, drops, back, same, deallocs⟩⟩
  case isFalse more =>
    cases rest
    have run : Alone mode o.container i _ ⟨r.2, s.clients.set i ⟨t, []⟩, s.log⟩ :=
      Alone.release p inside gone more
    rw [← State.eq_set found] at run
    exact ⟨_, run, rfl, .inl ⟨rfl, image.counted, rfl, rfl⟩⟩

/-- A `QueryInterface` that nobody interrupts is the `QueryInterface` of the vtable,
if `T::query_interface` grants pointers of the object only. -/
theorem queryInterface_alone {riid : Guid} {smart : Bool} {reply : Answer}
    (found : s.clients[i]? = some ⟨t, queryInterface o.container p (some riid) smart⟩)
    (called : invokeQueryInterface mode outer tgt T (p.address tgt T o.container ptr) (some riid)
      true h = some (reply, h'))
    (own : ∀ q, reply = ⟨statusSuccess, some q⟩ →
      ∃ p', p'.valid o.container = true ∧ q = Pointer.address tgt T o.container ptr p') :
    ∃ s' t', Alone mode o.container i s s' ∧ s'.clients = s.clients.set i ⟨t', []⟩ ∧
      s'.log = s.log ∧ Image tgt T o.container ptr s'.refCount h'.mem ∧
      (reply = ⟨statusNoInterface, some 0⟩ ∧ t' = t ∨
        ∃ p', reply = ⟨statusSuccess, some (Pointer.address tgt T o.container ptr p')⟩ ∧
          t' = t.gain (answered smart p')) := by
  have slots : ∃ (c : Container) (addRef : Heap → Option (Nat × Heap)), _ ∧ _ ∧
      invokeQueryInterface mode outer tgt T (p.address tgt T o.container ptr) (some riid) true h =
        _ := invokeQueryInterface_pointer implemented declared image valid
  obtain ⟨c, addRef, counts, -, slot⟩ := slots
  rw [slot, granted] at called
  have inside := (List.getElem?_eq_some_iff.mp found).1
  by_cases unknown : riid = iidIUnknown
  · subst unknown
    obtain ⟨code, loads, shape⟩ := queryInterface_unknown (c := o.container) p smart
    rw [shape] at found
    rw [if_pos rfl, counts, Option.map_map] at called
    obtain ⟨r, added, eq⟩ := Option.map_eq_some_iff.mp called
    cases eq
    have run : Alone mode o.container i _
        ⟨r.2, s.clients.set i ⟨t.gain (answered smart p.unknown), []⟩, s.log⟩ :=
      Alone.add inside loads added
    rw [← State.eq_set found] at run
    exact ⟨_, _, run, rfl, rfl, image.counted, .inr ⟨_, rfl, rfl⟩⟩
  · obtain ⟨code, loads, shape⟩ := queryInterface_other (c := o.container) unknown p smart
    rw [shape] at found
    rw [if_neg unknown] at called
    split at called
    · obtain ⟨⟨result, after⟩, taken, eq⟩ := Option.map_eq_some_iff.mp called
      cases eq
      obtain ⟨p', valid', rfl⟩ := own _ rfl
      rw [invokeAddRef_pointer implemented declared image valid'] at taken
      obtain ⟨r, added, eq⟩ := Option.map_eq_some_iff.mp taken
      cases eq
      have run : Alone mode o.container i _
          ⟨r.2, s.clients.set i ⟨t.gain (answered smart p'), []⟩, s.log⟩ :=
        Alone.grant riid smart inside loads added
      rw [← State.eq_set found] at run
      exact ⟨_, _, run, rfl, rfl, image.counted, .inr ⟨p', rfl, rfl⟩⟩
    · cases called
      have run : Alone mode o.container i _ ⟨s.refCount, s.clients.set i ⟨t, []⟩, s.log⟩ :=
        Alone.refuse riid smart inside loads
      rw [← State.eq_set found] at run
      exact ⟨_, _, run, rfl, rfl, image, .inl ⟨rfl, rfl⟩⟩

end Calls

end Kcom.Com.Lifetime
