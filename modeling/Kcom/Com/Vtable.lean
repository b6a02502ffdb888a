import Kcom.ReprC.Layout

/-!
# Interfaces and the vtables the macros generate

`declare_com_interface!` (`src/macros/declare_interface.rs`) turns an interface
declaration into a vtable type and its constructors `new`, `new_primary` and
`new_secondary`; `impl_com_interface!` and `impl_com_interface_multiple!`
(`src/macros/impl_interface.rs`) pick one of them for the `VTABLE` of an
implementing type. A slot holds the address of a generic function at fixed type
arguments. `Shim` names that instance, so that what a slot does can be read off
the container type it was instantiated for, whatever object it is called on.

The implementing type `T` is the same for all of them and is left out of the
type arguments.
-/

namespace Kcom.Com

open ReprC (Layout)

/-! ## Declarations -/

/-- `GUID`. -/
structure Guid where
  data1 : UInt32
  data2 : UInt16
  data3 : UInt16
  data4 : Vector UInt8 8
  deriving DecidableEq

/-- A GUID with the other fields 0. -/
def Guid.ofData1 (data1 : UInt32) : Guid :=
  ⟨data1, 0, 0, Vector.replicate 8 0⟩

/-- `IID_IUNKNOWN`. -/
def iidIUnknown : Guid where
  data1 := 0
  data2 := 0
  data3 := 0
  data4 := #v[0xC0, 0, 0, 0, 0, 0, 0, 0x46]

/-- A method of a declaration, `fn` or `async fn`. -/
structure Method where
  name : String
  isAsync : Bool
  deriving DecidableEq, Repr

/-- An interface: `IUnknown`, or a trait declared over its parent. Chains of three are
interfaces here, although the where-clauses of their constructors do not let them compile
(`Kcom.Macros.compiles_iff`). -/
inductive Interface
  | iUnknown
  | derived (iid : Guid) (methods : List Method) (parent : Interface)
  deriving DecidableEq

namespace Interface

/-- The `IID` of `ComInterfaceInfo`. -/
def iid : Interface → Guid
  | .iUnknown => iidIUnknown
  | .derived iid _ _ => iid

/-- The methods a vtable of the interface has slots for, each with the interface
that declares it: the parent's first. -/
def methods : Interface → List (Interface × Method)
  | .iUnknown => []
  | .derived iid own parent =>
      parent.methods ++ own.map fun m => (.derived iid own parent, m)

end Interface

/-! ## Instances of the containers -/

/-- A type that implements `Allocator`. -/
structure AllocTy where
  name : Nat
  layout : Layout
  deriving DecidableEq

/-- `GlobalAllocator`, a unit struct. -/
def AllocTy.globalAllocator : AllocTy where
  name := 0
  layout := ⟨0, 1, Nat.one_pos, Nat.one_dvd 0⟩

/-- A value of an allocator type. A type of size 0 has a single one. -/
structure Allocator where
  ty : AllocTy
  value : Nat
  unit : ty.layout.size = 0 → value = 0
  deriving DecidableEq

/-- The value `GlobalAllocator`. -/
def Allocator.global : Allocator :=
  ⟨.globalAllocator, 0, fun _ => rfl⟩

/-- A container at fixed type arguments: `ComObject::<T, I, A>` or
`ComObjectN::<T, P, S, A>`. -/
inductive Container
  | comObject (i : Interface) (a : AllocTy)
  | comObjectN (p : Interface) (s : List Interface) (a : AllocTy)
  deriving DecidableEq

namespace Container

/-- The interface whose vtable stands at offset 0. -/
def primary : Container → Interface
  | .comObject i _ => i
  | .comObjectN p _ _ => p

def secondaries : Container → List Interface
  | .comObject _ _ => []
  | .comObjectN _ s _ => s

def alloc : Container → AllocTy
  | .comObject _ a => a
  | .comObjectN _ _ a => a

end Container

/-! ## Vtables -/

/-- The functions a slot can hold. `c` is the container whose associated
function it is; the method shims are free functions, the primary one generic in
`T` only. -/
inductive Shim
  | queryInterface (c : Container)
  | addRef (c : Container)
  | release (c : Container)
  | queryInterfaceSecondary (c : Container) (index : Nat)
  | addRefSecondary (c : Container) (index : Nat)
  | releaseSecondary (c : Container) (index : Nat)
  | nonDelegatingQueryInterface (c : Container)
  | nonDelegatingAddRef (c : Container)
  | nonDelegatingRelease (c : Container)
  | method (i : Interface) (m : Method)
  | methodSecondary (i : Interface) (m : Method) (c : Container) (index : Nat)
  deriving DecidableEq

structure IUnknownVtbl where
  queryInterface : Shim
  addRef : Shim
  release : Shim
  deriving DecidableEq

namespace IUnknownVtbl

/-- `IUnknownVtbl::new::<T, I>`. -/
def new (i : Interface) : IUnknownVtbl :=
  let c := Container.comObject i .globalAllocator
  ⟨.queryInterface c, .addRef c, .release c⟩

/-- `IUnknownVtbl::new_primary::<T, P, S, A>`. -/
def newPrimary (p : Interface) (s : List Interface) (a : AllocTy) : IUnknownVtbl :=
  let c := Container.comObjectN p s a
  ⟨.queryInterface c, .addRef c, .release c⟩

/-- The literal in `__kcom_parent_vtbl_secondary!`. -/
def newSecondary (p : Interface) (s : List Interface) (a : AllocTy) (index : Nat) : IUnknownVtbl :=
  let c := Container.comObjectN p s a
  ⟨.queryInterfaceSecondary c index, .addRefSecondary c index, .releaseSecondary c index⟩

/-- `NON_DELEGATING_VTABLE`. -/
def nonDelegating (c : Container) : IUnknownVtbl :=
  ⟨.nonDelegatingQueryInterface c, .nonDelegatingAddRef c, .nonDelegatingRelease c⟩

end IUnknownVtbl

/-- A vtable: the parent's, then one slot for each method declared. -/
inductive Vtbl
  | iUnknown (v : IUnknownVtbl)
  | derived (parent : Vtbl) (slots : List Shim)
  deriving DecidableEq

namespace Vtbl

/-- A pointer to any vtable read as `*mut IUnknownVtbl`. -/
def root : Vtbl → IUnknownVtbl
  | .iUnknown v => v
  | .derived parent _ => parent.root

/-- The method slots in memory order. -/
def methodSlots : Vtbl → List Shim
  | .iUnknown _ => []
  | .derived parent slots => parent.methodSlots ++ slots

/-- The recursion the three constructors share: the parent's vtable is built by
the parent's own constructor, down to the interface declared over `IUnknown`,
for which `root` gives the `IUnknownVtbl`. -/
def build (root : Interface → IUnknownVtbl) (slot : Interface → Method → Shim) : Interface → Vtbl
  | .iUnknown => .iUnknown (root .iUnknown)
  | .derived iid own .iUnknown =>
      let self := Interface.derived iid own .iUnknown
      .derived (.iUnknown (root self)) (own.map (slot self))
  | .derived iid own (.derived iid' own' parent) =>
      let self := Interface.derived iid own (.derived iid' own' parent)
      .derived (build root slot (.derived iid' own' parent)) (own.map (slot self))

/-- `IVtbl::new::<T>`. -/
def new : Interface → Vtbl :=
  build IUnknownVtbl.new Shim.method

/-- `IVtbl::new_primary::<T, P, S, A>`. Its method slots are those of `new`. -/
def newPrimary (p : Interface) (s : List Interface) (a : AllocTy) : Interface → Vtbl :=
  build (fun _ => .newPrimary p s a) Shim.method

/-- `IVtbl::new_secondary::<T, P, S, A, INDEX>`. -/
def newSecondary (p : Interface) (s : List Interface) (a : AllocTy) (index : Nat) :
    Interface → Vtbl :=
  build (fun _ => .newSecondary p s a index)
    fun i m => .methodSecondary i m (.comObjectN p s a) index

variable {root : Interface → IUnknownVtbl} {slot : Interface → Method → Shim}

/-- The slots follow the declarations. -/
theorem methodSlots_build (i : Interface) :
    (build root slot i).methodSlots = i.methods.map fun d => slot d.1 d.2 := by
  induction i with
  | iUnknown => rfl
  | derived iid own parent ih =>
      have mapped : (own.map fun m => (Interface.derived iid own parent, m)).map
          (fun d => slot d.1 d.2) = own.map (slot (.derived iid own parent)) := by
        simp [List.map_map]
      cases parent with
      | iUnknown => simp [build, methodSlots, Interface.methods]
      | derived iid' own' grand =>
          rw [Interface.methods, List.map_append, mapped, ← ih]
          rfl

end Vtbl

/-- The ancestor of an interface that is declared directly over `IUnknown`. -/
def Interface.base : Interface → Interface
  | .iUnknown => .iUnknown
  | .derived iid own .iUnknown => .derived iid own .iUnknown
  | .derived _ _ (.derived iid own parent) => (Interface.derived iid own parent).base

/-- The `IUnknown` slots of any vtable are those built for the base interface. -/
theorem Vtbl.root_build {root : Interface → IUnknownVtbl} {slot : Interface → Method → Shim}
    (i : Interface) : (build root slot i).root = root i.base := by
  induction i with
  | iUnknown => rfl
  | derived iid own parent ih =>
      cases parent with
      | iUnknown => rfl
      | derived iid' own' grand => exact ih

/-! ## Implementations -/

/-- The macro by which `T` implements an interface, with its arguments:
`impl_com_interface!` without and with `secondaries`, or
`impl_com_interface_multiple!`. -/
inductive Form
  | single
  | primary (s : List Interface) (a : AllocTy)
  | secondary (p : Interface) (index : Nat) (s : List Interface) (a : AllocTy)

/-- An implementing type: its layout, and how it implements each interface. -/
structure Impl where
  layout : Layout
  form : Interface → Form

/-- `<T as ComImpl<I>>::VTABLE`. `IUnknown` itself has a blanket implementation. The
where-clauses of the constructors are left out: `new_secondary` is there for interfaces at
any depth. -/
def Impl.vtable (T : Impl) : Interface → Vtbl
  | .iUnknown => .new .iUnknown
  | .derived iid own parent =>
      let i := Interface.derived iid own parent
      match T.form i with
      | .single => .new i
      | .primary s a => .newPrimary i s a i
      | .secondary p index s a => .newSecondary p s a index i

end Kcom.Com
