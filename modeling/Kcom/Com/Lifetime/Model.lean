import Kcom.Com.Vtable
import Kcom.Conc.Pool
import Kcom.Conc.System
import Kcom.Refcount
import Mathlib.Tactic.Simps.Basic

/-!
# An object and its clients

A non-aggregated object under concurrent calls of its nine `IUnknown` shims
(`src/wrapper.rs`), made directly or by `ComRc` (`src/smart_ptr.rs`). A shim is
the list of its accesses to the object, one operation each, so that any two
calls interleave at every access; `refcount::add` and `refcount::sub` are one
atomic operation. `ComObject` and `ComObjectN` run the same operations, the
former without secondary pointers.

A client is a thread with the references it owns. It makes a call when its last
one has returned, on a pointer of the object of its choice and only while it owns
a reference; `Release` and `drop` take one of its references away when they are
called. What `T::query_interface` answers is the environment's choice, each time it
is called. `T`'s `Drop` makes no call on the object.
-/

namespace Kcom.Com.Lifetime

open Conc

/-! ## Pointers and references -/

/-- A pointer to the object that the `IUnknown` slots can be called with. -/
inductive Pointer
  | primary
  | secondary (i : Nat)
  | nonDelegating
  deriving DecidableEq, Repr

/-- The object has the pointer. -/
def Pointer.valid (c : Container) : Pointer → Bool
  | .primary => true
  | .secondary i => i < c.secondaries.length
  | .nonDelegating => true

/-- A reference that a call gives its caller: a counted pointer, or one held by a
`ComRc`. -/
inductive Held
  | raw
  | rc (p : Pointer)
  deriving DecidableEq, Repr

/-- The references a client owns. -/
structure Holdings where
  raw : Nat
  rcs : List Pointer
  deriving DecidableEq, Repr

namespace Holdings

/-- How many references these are. -/
def count (t : Holdings) : Nat :=
  t.raw + t.rcs.length

def gain (t : Holdings) : Held → Holdings
  | .raw => { t with raw := t.raw + 1 }
  | .rc p => { t with rcs := t.rcs ++ [p] }

@[simp] theorem count_gain (t : Holdings) (g : Held) : (t.gain g).count = t.count + 1 := by
  cases g with
  | raw =>
      simp only [gain, count]
      omega
  | rc p =>
      simp only [gain, count, List.length_append, List.length_singleton]
      omega

end Holdings

/-- What `T::query_interface` answers: a pointer of the object, or one of another
object. -/
inductive Granted
  | own (p : Pointer)
  | tearOff
  deriving DecidableEq, Repr

/-! ## Operations -/

/-- The statements of the shims that concern the object.

`add g` is `refcount::add` in a call that gives its caller the reference `g` when
it returns, `gain g` that return. The last five are the end of an object:
`ptr::read` of `alloc`, `drop_in_place` of `inner`, the check for resurrection,
`dealloc`, and the drop of the allocator that was read. -/
inductive Op
  | loadVtable
  | loadParent
  | loadOuter
  | queryInterface (riid : Guid) (smart : Bool)
  | add (g : Held)
  | gain (g : Held)
  | sub
  | readAlloc
  | dropInner
  | loadCount
  | dealloc
  | dropAlloc
  deriving DecidableEq

/-- Operations that read or write the object. -/
def Op.touches : Op → Bool
  | .gain _ => false
  | .dropAlloc => false
  | _ => true

/-- The closure of `shim_release`. -/
def releaseInner : List Op :=
  [.readAlloc, .dropInner, .loadCount, .dealloc, .dropAlloc]

/-- From the pointer to the fields: `parent` of an entry, and the outer unknown
that the delegating shims look for. -/
def Pointer.enter : Pointer → List Op
  | .primary => [.loadOuter]
  | .secondary _ => [.loadParent, .loadOuter]
  | .nonDelegating => [.loadParent]

/-- `AddRef` through the vtable of the pointer. -/
def addRef (p : Pointer) (g : Held) : List Op :=
  .loadVtable :: p.enter ++ [.add g]

/-- `Release` through the vtable of the pointer. -/
def release (p : Pointer) : List Op :=
  .loadVtable :: p.enter ++ [.sub]

/-- The reference that an answer with the pointer `p` becomes. -/
def answered (smart : Bool) (p : Pointer) : Held :=
  if smart then .rc p else .raw

/-- What `QueryInterface` does for `IUnknown`: `shim_add_ref` of the primary
pointer, or `shim_non_delegating_add_ref` of the pointer itself. -/
def grantUnknown (smart : Bool) : Pointer → List Op
  | .nonDelegating => [.loadParent, .add (answered smart .nonDelegating)]
  | _ => [.loadOuter, .add (answered smart .primary)]

/-- The primary pointer that `query_interface` starts from: the non-delegating
shim of `ComObjectN` loads `parent` once more for it. -/
def locatePrimary : Container → Pointer → List Op
  | .comObjectN _ _ _, .nonDelegating => [.loadParent]
  | _, _ => []

/-- `QueryInterface` through the vtable of the pointer. A null `riid` or `ppv` is
`none`. -/
def queryInterface (c : Container) (p : Pointer) (riid : Option Guid) (smart : Bool) : List Op :=
  .loadVtable :: p.enter ++
    match riid with
    | none => []
    | some riid =>
        if riid = iidIUnknown then grantUnknown smart p
        else locatePrimary c p ++ [.queryInterface riid smart]

/-! ## Calls -/

/-- What a client does on its own. `k` is the place of the `ComRc` in the client's
list. -/
inductive Call
  | addRef (p : Pointer)
  | release (p : Pointer)
  | queryInterface (p : Pointer) (riid : Option Guid)
  | fromRaw (p : Pointer)
  | fromRawAddRef (p : Pointer)
  | intoRaw (k : Nat)
  | clone (k : Nat)
  | rcQueryInterface (k : Nat) (riid : Guid)
  | drop (k : Nat)
  deriving DecidableEq

/-- A call by a client with the holdings `t`: what it still owns during the call,
and the code of the call. `none` where the client does not own what it would
use. -/
def Call.enter (c : Container) (t : Holdings) : Call → Option (Holdings × List Op)
  | .addRef p => if p.valid c ∧ 0 < t.count then some (t, Lifetime.addRef p .raw) else none
  | .release p =>
      if p.valid c ∧ 0 < t.raw then some ({ t with raw := t.raw - 1 }, Lifetime.release p)
      else none
  | .queryInterface p riid =>
      if p.valid c ∧ 0 < t.count then some (t, Lifetime.queryInterface c p riid false) else none
  | .fromRaw p =>
      if p.valid c ∧ 0 < t.raw then some (⟨t.raw - 1, t.rcs ++ [p]⟩, []) else none
  | .fromRawAddRef p =>
      if p.valid c ∧ 0 < t.count then some (t, Lifetime.addRef p (.rc p)) else none
  | .intoRaw k => (t.rcs[k]?).map fun _ => (⟨t.raw + 1, t.rcs.eraseIdx k⟩, [])
  | .clone k => (t.rcs[k]?).map fun p => (t, Lifetime.addRef p (.rc p))
  | .rcQueryInterface k riid =>
      (t.rcs[k]?).map fun p => (t, Lifetime.queryInterface c p (some riid) true)
  | .drop k => (t.rcs[k]?).map fun p => ({ t with rcs := t.rcs.eraseIdx k }, Lifetime.release p)

/-! ## States and steps -/

/-- What the end of an object consists of, with the client whose call it was. -/
inductive Event
  | lastReference (i : Nat)
  | dropInner (i : Nat)
  | dealloc (i : Nat)
  deriving DecidableEq, Repr

/-- `ref_count`, the clients, and what has happened to the object so far. -/
structure State where
  refCount : Nat
  clients : List (Thread Holdings Op)
  log : List Event
  deriving DecidableEq

/-- After `new_in`: the caller owns the first reference. -/
def initial : State :=
  ⟨1, [⟨⟨1, []⟩, []⟩], []⟩

/-- `run i answer` performs the next operation of client `i`, where `answer` is what
`T::query_interface` returns if the operation calls it. `call i f` starts a call of
an idle client, `give i j` hands a reference from one to the other, and `join`
brings in a client. -/
inductive Label
  | run (i : Nat) (answer : Option Granted)
  | call (i : Nat) (f : Call)
  | give (i j : Nat)
  | join
  deriving DecidableEq

section Steps

variable (mode : Hardening) (c : Container)

/-- One operation of client `i` with the holdings `t`: the counter and the log it
leaves, the holdings, and what the client does next. -/
def Op.perform (answer : Option Granted) (i : Nat) (s : State) (t : Holdings) :
    Op → Option (State × Holdings × List Op)
  | .loadVtable => some (s, t, [])
  | .loadParent => some (s, t, [])
  | .loadOuter => some (s, t, [])
  | .queryInterface _ smart =>
      match answer with
      | some (.own p) => some (s, t, addRef p (answered smart p))
      | some .tearOff => some (s, t, [])
      | none => some (s, t, [])
  | .add g =>
      (Refcount.add mode s.refCount).map fun r => ({ s with refCount := r.2 }, t, [.gain g])
  | .gain g => some (s, t.gain g, [])
  | .sub =>
      (Refcount.sub mode s.refCount).map fun r =>
        if r.1 = 0 then
          ({ s with refCount := r.2, log := s.log ++ [.lastReference i] }, t, releaseInner)
        else ({ s with refCount := r.2 }, t, [])
  | .readAlloc => some (s, t, [])
  | .dropInner => some ({ s with log := s.log ++ [.dropInner i] }, t, [])
  | .loadCount => if s.refCount = 0 then some (s, t, []) else none
  | .dealloc => some ({ s with log := s.log ++ [.dealloc i] }, t, [])
  | .dropAlloc => some (s, t, [])

/-- The state with other clients. -/
@[simps] def State.moved (s : State) (clients : List (Thread Holdings Op)) : State :=
  { s with clients := clients }

def State.step (s : State) : Label → Option State
  | .run i answer =>
      match s.clients[i]? with
      | some ⟨t, op :: rest⟩ =>
          (op.perform mode answer i s t).map fun (s', t', push) =>
            s'.moved (s.clients.set i ⟨t', push ++ rest⟩)
      | _ => none
  | .call i f =>
      match s.clients[i]? with
      | some ⟨t, []⟩ =>
          (f.enter c t).map fun (t', code) => s.moved (s.clients.set i ⟨t', code⟩)
      | _ => none
  | .give i j =>
      match s.clients[i]?, s.clients[j]? with
      | some ⟨t, []⟩, some ⟨u, code⟩ =>
          if i ≠ j ∧ 0 < t.raw then
            some (s.moved ((s.clients.set i ⟨{ t with raw := t.raw - 1 }, []⟩).set j
              ⟨{ u with raw := u.raw + 1 }, code⟩))
          else none
      | _, _ => none
  | .join => some (s.moved (s.clients ++ [⟨⟨0, []⟩, []⟩]))

/-- The object and its clients, in one of the builds of the reference counter. -/
def system : Sys State Label where
  start s := s = initial
  step := State.step mode c

/-! ## Inversion of the steps -/

variable {mode c} {s s' : State} {i j : Nat} {f : Call} {answer : Option Granted}

theorem step_run (next : s.step mode c (.run i answer) = some s') :
    ∃ t op rest s₁ t' push, s.clients[i]? = some ⟨t, op :: rest⟩ ∧
      op.perform mode answer i s t = some (s₁, t', push) ∧
      s' = s₁.moved (s.clients.set i ⟨t', push ++ rest⟩) := by
  simp only [State.step] at next
  split at next
  · obtain ⟨⟨s₁, t', push⟩, performed, rfl⟩ := Option.map_eq_some_iff.mp next
    exact ⟨_, _, _, s₁, t', push, ‹_›, performed, rfl⟩
  · cases next

theorem step_call (next : s.step mode c (.call i f) = some s') :
    ∃ t t' code, s.clients[i]? = some ⟨t, []⟩ ∧ f.enter c t = some (t', code) ∧
      s' = s.moved (s.clients.set i ⟨t', code⟩) := by
  simp only [State.step] at next
  split at next
  · obtain ⟨⟨t', code⟩, entered, rfl⟩ := Option.map_eq_some_iff.mp next
    exact ⟨_, t', code, ‹_›, entered, rfl⟩
  · cases next

theorem step_give (next : s.step mode c (.give i j) = some s') :
    ∃ t u code, s.clients[i]? = some ⟨t, []⟩ ∧ s.clients[j]? = some ⟨u, code⟩ ∧ i ≠ j ∧
      0 < t.raw ∧
      s' = s.moved ((s.clients.set i ⟨{ t with raw := t.raw - 1 }, []⟩).set j
        ⟨{ u with raw := u.raw + 1 }, code⟩) := by
  simp only [State.step] at next
  split at next
  · split at next
    · obtain ⟨ne, pos⟩ := ‹_ ∧ _›
      exact ⟨_, _, _, ‹_›, ‹_›, ne, pos, (Option.some.inj next).symm⟩
    · cases next
  · cases next

end Steps

/-- The next operation of client `i`. -/
def State.next (s : State) (i : Nat) : Option Op :=
  (s.clients[i]?).bind fun t => t.code.head?

/-! ## References -/

/-- Operations that stand for a reference: one that a `Release` has still to give
back, or one that was counted and is on its way to the caller. -/
def Op.refs : Op → Nat
  | .gain _ => 1
  | .sub => 1
  | _ => 0

/-- The references that the clients own. -/
def State.owned (s : State) : Nat :=
  total (fun t => t.tag.count) s.clients

/-- The outstanding references: owned by a client, or in a call between the
caller's ownership and the counter. -/
def State.outstanding (s : State) : Nat :=
  s.owned + load Op.refs s.clients

end Kcom.Com.Lifetime
