import Kcom.Com.Vtable

/-!
# Expanding `declare_com_interface!`

`__kcom_define_interface!` (`src/macros/declare_interface.rs`) consumes the methods
of a declaration one at a time. Its `@parse` rules are tried in order, the first one
that matches appends what it generates for the method to the accumulators and goes
on with the rest, and the rule for the empty rest emits the trait, the vtable
struct with its three constructors, and the shims.

The interface is compiled with the feature `async-com`; without it an `async fn` is
a `compile_error!`. This is what the macro writes; whether the compiler takes it is
said in `Kcom.Macros.Accept`.
-/

namespace Kcom.Macros

open Com (Guid Interface)

/-! ## Declarations -/

/-- A path as it is written: with or without the leading `::`. -/
structure Path where
  leading : Bool
  segments : List String
  deriving DecidableEq, Repr

/-- A type as it is written. -/
inductive Ty
  /-- A path, with the type arguments of its last segment. -/
  | path (p : Path) (args : List Ty)
  | other (text : String)
  /-- A `ty` fragment that a macro has captured and handed on: a single token, which
  no literal pattern looks into. -/
  | captured (t : Ty)

/-- The pattern `p<$ok:ty, $err:ty>`. -/
def Ty.matchResult (p : Path) : Ty → Option (Ty × Ty)
  | .path q [ok, err] => if q = p then some (ok, err) else none
  | _ => none

/-- A pattern that is a path without arguments. -/
def Ty.isPath (p : Path) : Ty → Bool
  | .path q [] => q = p
  | _ => false

structure Arg where
  name : String
  ty : Ty

/-- A method of the declaration, with the return type if one is written. -/
structure MethodDecl where
  attrs : List String
  isAsync : Bool
  name : String
  args : List Arg
  ret : Option Ty

/-! ## What is emitted -/

/-- A return type in the ABI. -/
inductive AbiTy
  /-- `$crate::NTSTATUS` -/
  | ntStatus
  | ty (t : Ty)
  /-- `*mut AsyncOperationRaw<t>` -/
  | operation (t : Ty)

/-- The return type of a trait method. -/
inductive TraitRet
  | ty (t : Ty)
  /-- `impl InitBoxTrait<..>` of the future type of the method. -/
  | initBox (method : String)

inductive TraitItem
  /-- `type [<method:camel Future>]: Future<Output = output>` -/
  | futureType (method : String) (output : Ty)
  /-- `type Allocator` -/
  | allocatorType
  | method (attrs : List String) (name : String) (args : List Arg) (ret : TraitRet)

/-- A field of the vtable struct: a pointer to a function of `this` and the
parameters. -/
structure Field where
  name : String
  params : List Arg
  ret : AbiTy

/-- `field: shim::<..>`, with the type arguments `T`, or `T, P, S, A, INDEX`. -/
structure Init where
  field : String
  shim : String
  secondary : Bool

/-- How a shim gets from `this` to the object: `ComObject::from_ptr` or
`ComObjectN::from_secondary_ptr`. -/
inductive Wrapper
  | comObject
  | comObjectN
  deriving DecidableEq, Repr

/-- `wrapper.inner.method(args)`. -/
structure Call where
  method : String
  args : List String
  deriving DecidableEq, Repr

/-- What a shim does with the call. -/
inductive Body
  /-- `IntoNtStatus::into_ntstatus(call)` -/
  | intoNtStatus (call : Call)
  /-- `call` -/
  | value (call : Call)
  /-- The initialiser that the call returns becomes the future of a new operation. -/
  | spawn (call : Call)

def Body.call : Body → Call
  | .intoNtStatus call => call
  | .value call => call
  | .spawn call => call

structure ShimFn where
  name : String
  wrapper : Wrapper
  params : List Arg
  ret : AbiTy
  body : Body

/-- The accumulators of `@parse`. -/
structure Acc where
  traitDocs : List String
  traitSafety : List String
  traitMethods : List TraitItem
  vtableFields : List Field
  vtableInits : List Init
  vtableInitsSecondary : List Init
  shimFuncs : List ShimFn

def Acc.empty : Acc :=
  ⟨[], [], [], [], [], [], []⟩

/-! ## The rules -/

/-- `[<shim_ $trait_name _ $method_name>]` -/
def shimName (traitName method : String) : String :=
  "shim_" ++ traitName ++ "_" ++ method

/-- `[<shim_ $trait_name _ $method_name _secondary>]` -/
def shimNameSecondary (traitName method : String) : String :=
  shimName traitName method ++ "_secondary"

/-- `wrapper.inner.$method_name($($arg_name),*)` -/
def MethodDecl.call (m : MethodDecl) : Call :=
  ⟨m.name, m.args.map Arg.name⟩

/-- The spellings of `Result` in the literal patterns of `__kcom_map_return!`. -/
def mapReturnPaths : List Path :=
  [⟨false, ["Result"]⟩, ⟨true, ["core", "result", "Result"]⟩, ⟨true, ["std", "result", "Result"]⟩,
    ⟨false, ["core", "result", "Result"]⟩, ⟨false, ["std", "result", "Result"]⟩]

/-- `__kcom_map_return!`. -/
def mapReturn (t : Ty) (call : Call) : Body :=
  if mapReturnPaths.any fun p => (t.matchResult p).isSome then .intoNtStatus call
  else if t.isPath ⟨false, ["NTSTATUS"]⟩ then .intoNtStatus call
  else if t.isPath ⟨false, ["$crate", "NTSTATUS"]⟩ then .intoNtStatus call
  else .value call

/-- A rule: what it does to the accumulators, for the methods it matches. -/
abbrev Rule := MethodDecl → Option (Acc → Acc)

section Rules

variable (traitName : String)

/-- `async fn m(..) -> $ret_ty:ty;` -/
def asyncRule : Rule := fun m =>
  match m.isAsync, m.ret with
  | true, some ret => some fun acc =>
      { traitDocs :=
          ["Async interfaces spawn tasks and return AsyncOperation objects.",
            "Futures must be Send + 'static; allocators must be Send + Sync.",
            "A non-blocking executor is required to drive completion."]
        traitSafety := ["unsafe"]
        traitMethods := acc.traitMethods ++
          [.futureType m.name (.captured ret), .allocatorType,
            .method m.attrs m.name m.args (.initBox m.name)]
        vtableFields := acc.vtableFields ++ [⟨m.name, m.args, .operation (.captured ret)⟩]
        vtableInits := acc.vtableInits ++ [⟨m.name, shimName traitName m.name, false⟩]
        vtableInitsSecondary := acc.vtableInitsSecondary ++
          [⟨m.name, shimNameSecondary traitName m.name, true⟩]
        shimFuncs := acc.shimFuncs ++
          [⟨shimName traitName m.name, .comObject, m.args, .operation (.captured ret),
              .spawn m.call⟩,
            ⟨shimNameSecondary traitName m.name, .comObjectN, m.args, .operation (.captured ret),
              .spawn m.call⟩] }
  | _, _ => none

/-- `fn m(..) -> p<$ok:ty, $err:ty>;`, three rules that differ in the path. -/
def resultRule (p : Path) : Rule := fun m =>
  match m.isAsync, m.ret.bind (Ty.matchResult p) with
  | false, some (ok, err) => some fun acc =>
      { traitDocs := acc.traitDocs
        traitSafety := acc.traitSafety
        traitMethods := acc.traitMethods ++
          [.method m.attrs m.name m.args (.ty (.path p [.captured ok, .captured err]))]
        vtableFields := acc.vtableFields ++ [⟨m.name, m.args, .ntStatus⟩]
        vtableInits := acc.vtableInits ++ [⟨m.name, shimName traitName m.name, false⟩]
        vtableInitsSecondary := acc.vtableInitsSecondary ++
          [⟨m.name, shimNameSecondary traitName m.name, true⟩]
        shimFuncs := acc.shimFuncs ++
          [⟨shimName traitName m.name, .comObject, m.args, .ntStatus, .intoNtStatus m.call⟩,
            ⟨shimNameSecondary traitName m.name, .comObjectN, m.args, .ntStatus,
              .intoNtStatus m.call⟩] }
  | _, _ => none

/-- `fn m(..) -> $ret_ty:ty;` -/
def plainRule : Rule := fun m =>
  match m.isAsync, m.ret with
  | false, some ret => some fun acc =>
      { traitDocs := acc.traitDocs
        traitSafety := acc.traitSafety
        traitMethods := acc.traitMethods ++
          [.method m.attrs m.name m.args (.ty (.captured ret))]
        vtableFields := acc.vtableFields ++ [⟨m.name, m.args, .ty (.captured ret)⟩]
        vtableInits := acc.vtableInits ++ [⟨m.name, shimName traitName m.name, false⟩]
        vtableInitsSecondary := acc.vtableInitsSecondary ++
          [⟨m.name, shimNameSecondary traitName m.name, true⟩]
        shimFuncs := acc.shimFuncs ++
          [⟨shimName traitName m.name, .comObject, m.args, .ty (.captured ret),
              mapReturn (.captured ret) m.call⟩,
            ⟨shimNameSecondary traitName m.name, .comObjectN, m.args, .ty (.captured ret),
              mapReturn (.captured ret) m.call⟩] }
  | _, _ => none

/-- The method rules of `@parse`, in the order of the source. -/
def rules : List Rule :=
  [asyncRule traitName,
    resultRule traitName ⟨false, ["Result"]⟩,
    resultRule traitName ⟨true, ["core", "result", "Result"]⟩,
    resultRule traitName ⟨true, ["std", "result", "Result"]⟩,
    plainRule traitName]

/-- The rule that is taken for a method. -/
def firstRule : Rule := fun m =>
  (rules traitName).findSome? fun rule => rule m

/-- `@parse` on the methods. One that no rule matches is a compile error. -/
def parse : List MethodDecl → Acc → Option Acc
  | [], acc => some acc
  | m :: rest, acc => do
      let step ← firstRule traitName m
      parse rest (step acc)

end Rules

/-! ## The interface -/

/-- What the last rule emits: the trait, the fields behind `parent` of the vtable
struct, the initialisers of the three constructors, and the shims. -/
structure Expansion where
  traitDocs : List String
  traitSafety : List String
  traitMethods : List TraitItem
  fields : List Field
  new : List Init
  newPrimary : List Init
  newSecondary : List Init
  shimFuncs : List ShimFn

/-- `@parse` with no method left. -/
def Acc.emit (acc : Acc) : Expansion where
  traitDocs := acc.traitDocs
  traitSafety := acc.traitSafety
  traitMethods := acc.traitMethods
  fields := acc.vtableFields
  new := acc.vtableInits
  newPrimary := acc.vtableInits
  newSecondary := acc.vtableInitsSecondary
  shimFuncs := acc.shimFuncs

/-- `@entry`. -/
def expand (traitName : String) (methods : List MethodDecl) : Option Expansion :=
  (parse traitName methods .empty).map Acc.emit

/-- An interface with the declarations it rests on. -/
inductive Declaration
  | iUnknown
  | derived (name : String) (iid : Guid) (methods : List MethodDecl) (parent : Declaration)

namespace Declaration

/-- The interface of `Kcom.Com`, which keeps of a method what its shims depend on. -/
def interface : Declaration → Interface
  | .iUnknown => .iUnknown
  | .derived _ iid methods parent =>
      .derived iid (methods.map fun m => ⟨m.name, m.isAsync⟩) parent.interface

/-- The methods of the interface, each with the interface that declares it: the
parent's first. -/
def declared : Declaration → List (Declaration × MethodDecl)
  | .iUnknown => []
  | .derived name iid methods parent =>
      parent.declared ++ methods.map fun m => (.derived name iid methods parent, m)

end Declaration

/-- The fields of `IUnknownVtbl`. -/
def iUnknownFields : List Field :=
  [⟨"QueryInterface", [⟨"riid", .other "*const GUID"⟩, ⟨"ppv", .other "*mut *mut c_void"⟩],
      .ntStatus⟩,
    ⟨"AddRef", [], .ty (.path ⟨false, ["u32"]⟩ [])⟩,
    ⟨"Release", [], .ty (.path ⟨false, ["u32"]⟩ [])⟩]

/-- The fields of the vtable struct as it is written, in memory order, `parent` replaced
by the parent's. -/
def Declaration.layout : Declaration → Option (List Field)
  | .iUnknown => some iUnknownFields
  | .derived name _ methods parent => do
      let e ← expand name methods
      let above ← parent.layout
      some (above ++ e.fields)

/-! ## The constructors -/

/-- The constructors that are emitted for a vtable. -/
inductive Kind
  | new
  | newPrimary
  | newSecondary
  deriving DecidableEq, Repr

namespace Kind

def all : List Kind :=
  [.new, .newPrimary, .newSecondary]

def inits : Kind → Expansion → List Init
  | .new, e => e.new
  | .newPrimary, e => e.newPrimary
  | .newSecondary, e => e.newSecondary

/-- The wrapper that the shims of the constructor go through. -/
def wrapper : Kind → Wrapper
  | .new => .comObject
  | .newPrimary => .comObject
  | .newSecondary => .comObjectN

end Kind

/-- A constructor of a vtable at its type arguments, `T` left out. -/
inductive Constructor
  | new
  | newPrimary (p : Interface) (s : List Interface) (a : Com.AllocTy)
  | newSecondary (p : Interface) (s : List Interface) (a : Com.AllocTy) (index : Nat)

namespace Constructor

def kind : Constructor → Kind
  | .new => .new
  | .newPrimary _ _ _ => .newPrimary
  | .newSecondary _ _ _ _ => .newSecondary

/-- What `__kcom_parent_vtbl!`, `__kcom_parent_vtbl_primary!` and
`__kcom_parent_vtbl_secondary!` build over `IUnknown`. -/
def root : Constructor → Interface → Com.IUnknownVtbl
  | .new, i => .new i
  | .newPrimary p s a, _ => .newPrimary p s a
  | .newSecondary p s a index, _ => .newSecondary p s a index

end Constructor

/-- What a slot holds: a shim of a container, or a method shim of the interface that
declares it. -/
inductive Content
  | unknown (s : Com.Shim)
  | shim (owner : Interface) (f : ShimFn)

/-- The slots of an `IUnknownVtbl`. -/
def unknownContents (v : Com.IUnknownVtbl) : List Content :=
  [.unknown v.queryInterface, .unknown v.addRef, .unknown v.release]

/-- A struct literal: each field of the struct gets the initialiser that names it,
and its path the function of that name. -/
def Expansion.literal (e : Expansion) (inits : List Init) : Option (List ShimFn) :=
  e.fields.mapM fun f => do
    let init ← inits.find? fun i => i.field = f.name
    e.shimFuncs.find? fun g => g.name = init.shim

/-- The slots that the body of a constructor fills, in memory order. The parent's are
filled by the parent's own constructor. -/
def Declaration.fill (k : Constructor) : Declaration → Option (List Content)
  | .iUnknown => some (unknownContents (k.root .iUnknown))
  | .derived name iid methods .iUnknown => do
      let e ← expand name methods
      let own ← e.literal (k.kind.inits e)
      let self := (Declaration.derived name iid methods .iUnknown).interface
      some (unknownContents (k.root self) ++ own.map (.shim self))
  | .derived name iid methods (.derived name' iid' methods' grand) => do
      let e ← expand name methods
      let own ← e.literal (k.kind.inits e)
      let self := (Declaration.derived name iid methods
        (.derived name' iid' methods' grand)).interface
      let above ← fill k (.derived name' iid' methods' grand)
      some (above ++ own.map (.shim self))

end Kcom.Macros
