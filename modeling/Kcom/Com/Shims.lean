import Kcom.Com.Object
import Kcom.Refcount

/-!
# The `IUnknown` shims

`shim_add_ref`, `shim_release`, `shim_query_interface` and their secondary and
non-delegating variants (`src/wrapper.rs`), with `ComImpl::query_interface` as
the macros write it (`src/macros/impl_interface.rs`), each run from start to end.
A shim computes every address from the layout of the container it was
instantiated for; loading a field that is not stored there is undefined and has
no result here. `PanicGuard` has an effect only on an unwinding panic and is left
out.
-/

namespace Kcom.Com

open ReprC

/-! ## Status codes -/

/-- `NTSTATUS`, an `i32`. -/
abbrev NtStatus := Int

def statusSuccess : NtStatus := 0

def statusNoInterface : NtStatus := 0xC00002B9 - 2 ^ 32

/-- What `QueryInterface` does: its status, and what it stores through `ppv`, if
it stores anything. -/
structure Answer where
  status : NtStatus
  out : Option Nat
  deriving DecidableEq

/-- The controlling unknown of an aggregated object: another object's
`IUnknown`, of which the shims know the three slots only. -/
structure OuterUnknown where
  addRef : Nat → Heap → Option (Nat × Heap)
  release : Nat → Heap → Option (Nat × Heap)
  queryInterface : Nat → Option Guid → Bool → Heap → Option (Answer × Heap)

/-- Of an object that is not aggregated: no slot of it is ever called. -/
def OuterUnknown.absent : OuterUnknown :=
  ⟨fun _ _ => none, fun _ _ => none, fun _ _ _ _ => none⟩

/-! ## Counting -/

/-- `refcount::add` on the `AtomicU32` at `a`. -/
def addAt (mode : Hardening) (a : Nat) (h : Heap) : Option (Nat × Heap) := do
  let curr ← h.countAt a
  let (result, next) ← Refcount.add mode curr
  some (result, h.write a (.count next))

/-- `refcount::sub` on the `AtomicU32` at `a`. -/
def subAt (mode : Hardening) (a : Nat) (h : Heap) : Option (Nat × Heap) := do
  let curr ← h.countAt a
  let (result, next) ← Refcount.sub mode curr
  some (result, h.write a (.count next))

/-- The outer unknown to delegate to, if there is one that is not null. -/
def delegate (outerUnknown : Option Nat) : Option Nat :=
  outerUnknown.filter (· ≠ 0)

section Shims

variable (mode : Hardening) (outer : OuterUnknown) (tgt : Target) (T : Impl)

/-- `delegating_add_ref`. -/
def delegatingAddRef (outerUnknown : Option Nat) (refCount : Nat) (h : Heap) :
    Option (Nat × Heap) :=
  match delegate outerUnknown with
  | some o => outer.addRef o h
  | none => addAt mode refCount h

/-- `delegating_release`. -/
def delegatingRelease (outerUnknown : Option Nat) (refCount : Nat)
    (releaseInner : Heap → Option Heap) (h : Heap) : Option (Nat × Heap) :=
  match delegate outerUnknown with
  | some o => outer.release o h
  | none => do
      let (count, h) ← subAt mode refCount h
      if count = 0 then
        let h ← releaseInner h
        some (count, h)
      else some (count, h)

variable (c : Container) (this : Nat)

/-- The end of an object: the closure of `shim_release`, and the same statements
in `shim_non_delegating_release`. A count that is not 0 after the drop is
`resurrection_violation`, which does not return. -/
def releaseInner (h : Heap) : Option Heap := do
  let alloc ← h.allocAt (this + c.offset tgt T.layout .alloc) c.alloc
  let h := h.dropInner (this + c.offset tgt T.layout .inner)
  let resurrected ← h.countAt (this + c.offset tgt T.layout .refCount)
  if resurrected ≠ 0 then none
  else some (h.dealloc this alloc (c.layout tgt T.layout))

/-- `shim_add_ref`. -/
def shimAddRef (h : Heap) : Option (Nat × Heap) := do
  let outerUnknown ← h.outerAt (this + c.offset tgt T.layout .outerUnknown)
  delegatingAddRef mode outer outerUnknown (this + c.offset tgt T.layout .refCount) h

/-- `shim_release`. -/
def shimRelease (h : Heap) : Option (Nat × Heap) := do
  let outerUnknown ← h.outerAt (this + c.offset tgt T.layout .outerUnknown)
  delegatingRelease mode outer outerUnknown (this + c.offset tgt T.layout .refCount)
    (releaseInner tgt T c this) h

/-- `parent_from_ptr`, also of a non-delegating `IUnknown`: both structs are a
vtable and then the parent. -/
def parentFromPtr (h : Heap) : Option Nat :=
  h.ptrAt (this + tgt.width.bytes)

/-- `shim_add_ref_secondary`. -/
def shimAddRefSecondary (h : Heap) : Option (Nat × Heap) := do
  let primary ← parentFromPtr tgt this h
  shimAddRef mode outer tgt T c primary h

/-- `shim_release_secondary`. -/
def shimReleaseSecondary (h : Heap) : Option (Nat × Heap) := do
  let primary ← parentFromPtr tgt this h
  shimRelease mode outer tgt T c primary h

/-- `shim_non_delegating_add_ref`. -/
def shimNonDelegatingAddRef (h : Heap) : Option (Nat × Heap) := do
  let parent ← parentFromPtr tgt this h
  addAt mode (parent + c.offset tgt T.layout .refCount) h

/-- `shim_non_delegating_release`. -/
def shimNonDelegatingRelease (h : Heap) : Option (Nat × Heap) := do
  let parent ← parentFromPtr tgt this h
  let (count, h) ← subAt mode (parent + c.offset tgt T.layout .refCount) h
  if count = 0 then
    let h ← releaseInner tgt T c parent h
    some (count, h)
  else some (count, h)

/-! ## `QueryInterface` -/

/-- `secondary_ptr` of an index, null where there is none. -/
def secondaryPtr (i : Nat) : Nat :=
  if inside : i < c.secondaries.length then this + c.entryOffset tgt T.layout ⟨i, inside⟩ else 0

/-- `__kcom_qi_match_secondaries_from_wrapper!`: the first secondary interface
with the IID. -/
def matchSecondaries (riid : Guid) : Option Nat :=
  (c.secondaries.findIdx? fun i => i.iid = riid).map (secondaryPtr tgt T c this)

/-- `<T as ComImpl<I>>::query_interface` of the macros, with the default
fallback, the parent's. -/
def comImplQueryInterface (this : Nat) (riid : Guid) : Interface → Option Nat
  | .iUnknown => none
  | .derived iid own parent =>
      let i := Interface.derived iid own parent
      if this = 0 then none
      else
        match T.form i with
        | .single => if riid = iid then some this else comImplQueryInterface this riid parent
        | .primary s a =>
            if riid = iid then some this
            else
              match matchSecondaries tgt T (.comObjectN i s a) this riid with
              | some ptr => if ptr = 0 then none else some ptr
              | none => comImplQueryInterface this riid parent
        | .secondary p _ s a =>
            if riid = p.iid then some this
            else
              match matchSecondaries tgt T (.comObjectN p s a) this riid with
              | some ptr => if ptr = 0 then none else some ptr
              | none => comImplQueryInterface this riid parent

/-- Call the `AddRef` slot that a shim was found in. -/
def callAddRef (this : Nat) (h : Heap) : Shim → Option (Nat × Heap)
  | .addRef c => shimAddRef mode outer tgt T c this h
  | .addRefSecondary c _ => shimAddRefSecondary mode outer tgt T c this h
  | .nonDelegatingAddRef c => shimNonDelegatingAddRef mode tgt T c this h
  | _ => none

/-- What the three `QueryInterface` shims share. `unknown` is the answer for
`IUnknown` and `addRef` how it is counted, `primary` the pointer that
`query_interface` starts from. -/
def answer (unknown primary : Nat) (addRef : Heap → Option (Nat × Heap)) (riid : Option Guid)
    (ppv : Bool) (h : Heap) : Option (Answer × Heap) :=
  match riid, ppv with
  | some riid, true =>
      if riid = iidIUnknown then do
        let (_, h) ← addRef h
        some (⟨statusSuccess, some unknown⟩, h)
      else
        match comImplQueryInterface tgt T primary riid c.primary with
        | some ptr => do
            let vtbl ← h.vtableAt ptr
            let (_, h) ← callAddRef mode outer tgt T ptr h vtbl.root.addRef
            some (⟨statusSuccess, some ptr⟩, h)
        | none => some (⟨statusNoInterface, some 0⟩, h)
  | _, _ => some (⟨statusNoInterface, none⟩, h)

/-- `shim_query_interface`. A null `riid` is `none`, a null `ppv` is `false`. -/
def shimQueryInterface (riid : Option Guid) (ppv : Bool) (h : Heap) : Option (Answer × Heap) := do
  let outerUnknown ← h.outerAt (this + c.offset tgt T.layout .outerUnknown)
  match delegate outerUnknown with
  | some o => outer.queryInterface o riid ppv h
  | none =>
      answer mode outer tgt T c this this (shimAddRef mode outer tgt T c this) riid ppv h

/-- `shim_query_interface_secondary`. -/
def shimQueryInterfaceSecondary (riid : Option Guid) (ppv : Bool) (h : Heap) :
    Option (Answer × Heap) := do
  let primary ← parentFromPtr tgt this h
  shimQueryInterface mode outer tgt T c primary riid ppv h

/-- `shim_non_delegating_query_interface`. -/
def shimNonDelegatingQueryInterface (riid : Option Guid) (ppv : Bool) (h : Heap) :
    Option (Answer × Heap) := do
  let primary ← parentFromPtr tgt this h
  answer mode outer tgt T c this primary (shimNonDelegatingAddRef mode tgt T c this) riid ppv h

def callRelease (this : Nat) (h : Heap) : Shim → Option (Nat × Heap)
  | .release c => shimRelease mode outer tgt T c this h
  | .releaseSecondary c _ => shimReleaseSecondary mode outer tgt T c this h
  | .nonDelegatingRelease c => shimNonDelegatingRelease mode tgt T c this h
  | _ => none

def callQueryInterface (this : Nat) (riid : Option Guid) (ppv : Bool) (h : Heap) :
    Shim → Option (Answer × Heap)
  | .queryInterface c => shimQueryInterface mode outer tgt T c this riid ppv h
  | .queryInterfaceSecondary c _ => shimQueryInterfaceSecondary mode outer tgt T c this riid ppv h
  | .nonDelegatingQueryInterface c =>
      shimNonDelegatingQueryInterface mode outer tgt T c this riid ppv h
  | _ => none

/-! ## Calls through an interface pointer -/

/-- `((*vtbl).AddRef)(ptr)` with the vtable `ptr` points to; also the `add_ref`
of `src/smart_ptr.rs`. -/
def invokeAddRef (ptr : Nat) (h : Heap) : Option (Nat × Heap) := do
  let vtbl ← h.vtableAt ptr
  callAddRef mode outer tgt T ptr h vtbl.root.addRef

def invokeRelease (ptr : Nat) (h : Heap) : Option (Nat × Heap) := do
  let vtbl ← h.vtableAt ptr
  callRelease mode outer tgt T ptr h vtbl.root.release

def invokeQueryInterface (ptr : Nat) (riid : Option Guid) (ppv : Bool) (h : Heap) :
    Option (Answer × Heap) := do
  let vtbl ← h.vtableAt ptr
  callQueryInterface mode outer tgt T ptr riid ppv h vtbl.root.queryInterface

end Shims

end Kcom.Com
