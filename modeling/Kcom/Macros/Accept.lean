import Kcom.Macros.Declare
import Mathlib.Tactic.MkIffOfInductiveProp

/-!
# What the compiler takes of a declaration

The constructors and the shims that `declare_com_interface!` writes are generic
functions. The compiler checks the body of each against its own where-clause as soon as
the interface is declared, whether anybody calls it or not: what a body names has to hold
of every type that satisfies the clause. `Entails` is what the compiler concludes from a
clause, `Accepted` what it asks of one interface, and `flatten` and `construct` are the
vtable type and the constructors of the declarations it takes.

A declaration is written with identifiers that are no keywords, with types that the
positions they are put into allow, and with attributes that change nothing; and the
`recursion_limit` of its crate covers the number of its methods.
-/

namespace Kcom.Macros

open Com (Interface)

/-! ## Bounds -/

/-- A vtable type in a bound: that of an interface, or the parameter `P`. -/
inductive VtblTy
  | of (i : Interface)
  | p
  deriving DecidableEq

/-- A bound on the type parameters `T`, `P`, `S`, `A` and `INDEX`. -/
inductive Bound
  /-- `T: I` -/
  | implements (i : Interface)
  /-- `T: Sync` -/
  | sync
  /-- `T: 'static` -/
  | static
  /-- `T: ComImpl<V>` -/
  | comImpl (v : VtblTy)
  /-- `T: SecondaryComImpl<S>` -/
  | secondaryComImpl
  /-- `V: InterfaceVtable` -/
  | interfaceVtable (v : VtblTy)
  /-- `S: SecondaryVtables` -/
  | secondaryVtables
  /-- `S::Entries: SecondaryList` -/
  | secondaryList
  /-- `S::Entries: SecondaryEntryAccess<INDEX, IVtbl>` -/
  | secondaryEntryAccess (i : Interface)
  /-- `A: Allocator + Send + Sync` -/
  | allocator
  deriving DecidableEq

/-- What holds of the types that satisfy a where-clause: its bounds, what the traits in
them promise, and what the crate implements for all types. -/
inductive Entails (clause : List Bound) : Bound → Prop
  | given {b : Bound} : b ∈ clause → Entails clause b
  /-- `impl<T: ?Sized> IUnknown for T` -/
  | unknown : Entails clause (.implements .iUnknown)
  /-- `trait I: Parent + Sync` -/
  | parent {iid own parent} :
      Entails clause (.implements (.derived iid own parent)) → Entails clause (.implements parent)
  | traitSync {iid own parent} :
      Entails clause (.implements (.derived iid own parent)) → Entails clause .sync
  /-- `trait ComImpl<I>: Sized + Sync + 'static` -/
  | implSync {v : VtblTy} : Entails clause (.comImpl v) → Entails clause .sync
  | implStatic {v : VtblTy} : Entails clause (.comImpl v) → Entails clause .static
  /-- `impl<T> ComImpl<IUnknownVtbl> for T where T: IUnknown + Sync + 'static` -/
  | blanket :
      Entails clause .sync → Entails clause .static → Entails clause (.comImpl (.of .iUnknown))
  /-- `unsafe impl InterfaceVtable for IVtbl` -/
  | vtable {i : Interface} : Entails clause (.interfaceVtable (.of i))
  /-- `type Entries: SecondaryList` -/
  | entries : Entails clause .secondaryVtables → Entails clause .secondaryList

/-- `i` is the interface itself or stands among its parents. -/
def supertrait (i : Interface) : Interface → Bool
  | .iUnknown => i = .iUnknown
  | .derived iid own parent => i = .derived iid own parent || supertrait i parent

/-- The bound gives `T: I`. -/
def Bound.gives (i : Interface) : Bound → Bool
  | .implements j => supertrait i j
  | _ => false

/-- The bound gives `T: Sync`. -/
def Bound.givesSync : Bound → Bool
  | .implements j => j ≠ .iUnknown
  | .comImpl _ => true
  | .sync => true
  | _ => false

/-- The bound gives `T: 'static`. -/
def Bound.givesStatic : Bound → Bool
  | .comImpl _ => true
  | .static => true
  | _ => false

/-- `Entails`, decided. -/
def proves (clause : List Bound) : Bound → Bool
  | .implements i => i = .iUnknown || clause.any (Bound.gives i)
  | .sync => clause.any Bound.givesSync
  | .static => clause.any Bound.givesStatic
  | .comImpl v => .comImpl v ∈ clause ||
      (v = .of .iUnknown && clause.any Bound.givesSync && clause.any Bound.givesStatic)
  | .interfaceVtable v => v ≠ .p || .interfaceVtable v ∈ clause
  | .secondaryList => .secondaryList ∈ clause || .secondaryVtables ∈ clause
  | b => b ∈ clause

section Entails

variable {clause : List Bound} {b : Bound} {i j : Interface}

theorem supertrait_self (i : Interface) : supertrait i i = true := by
  cases i <;> simp [supertrait]

theorem supertrait_parent {iid own parent} (above : supertrait (.derived iid own parent) j = true) :
    supertrait parent j = true := by
  induction j with
  | iUnknown => simp [supertrait] at above
  | derived iid' own' parent' ih =>
      rw [supertrait, Bool.or_eq_true] at above ⊢
      right
      rcases above with here | further
      · cases of_decide_eq_true here
        exact supertrait_self parent
      · exact ih further

theorem Entails.proves (entailed : Entails clause b) : proves clause b = true := by
  induction entailed with
  | @given b member =>
      cases b with
      | implements i =>
          have held : clause.any (Bound.gives i) = true :=
            List.any_eq_true.mpr ⟨_, member, supertrait_self i⟩
          rw [Macros.proves, held, Bool.or_true]
      | sync => exact List.any_eq_true.mpr ⟨_, member, rfl⟩
      | static => exact List.any_eq_true.mpr ⟨_, member, rfl⟩
      | _ => simp [Macros.proves, member]
  | unknown => simp [Macros.proves]
  | @parent iid own parent _ ih =>
      simp only [Macros.proves, reduceCtorEq, decide_false, Bool.false_or, List.any_eq_true] at ih
      obtain ⟨b, member, gives⟩ := ih
      have held : clause.any (Bound.gives parent) = true := by
        refine List.any_eq_true.mpr ⟨b, member, ?_⟩
        cases b with
        | implements j => exact supertrait_parent gives
        | _ => cases gives
      rw [Macros.proves, held, Bool.or_true]
  | traitSync _ ih =>
      simp only [Macros.proves, reduceCtorEq, decide_false, Bool.false_or, List.any_eq_true] at ih
      obtain ⟨b, member, gives⟩ := ih
      refine List.any_eq_true.mpr ⟨b, member, ?_⟩
      cases b with
      | implements j =>
          refine decide_eq_true ?_
          intro unknown
          rw [unknown] at gives
          cases gives
      | _ => cases gives
  | implSync _ ih =>
      simp only [Macros.proves, Bool.or_eq_true, Bool.and_eq_true, decide_eq_true_eq] at ih
      rcases ih with member | ⟨⟨-, sync⟩, -⟩
      · exact List.any_eq_true.mpr ⟨_, member, rfl⟩
      · exact sync
  | implStatic _ ih =>
      simp only [Macros.proves, Bool.or_eq_true, Bool.and_eq_true, decide_eq_true_eq] at ih
      rcases ih with member | ⟨-, static⟩
      · exact List.any_eq_true.mpr ⟨_, member, rfl⟩
      · exact static
  | blanket _ _ sync static =>
      have both : clause.any Bound.givesSync = true ∧ clause.any Bound.givesStatic = true :=
        ⟨sync, static⟩
      simp [Macros.proves, both]
  | vtable => simp [Macros.proves]
  | entries _ ih =>
      have held : Bound.secondaryVtables ∈ clause := by simpa [Macros.proves] using ih
      simp [Macros.proves, held]

theorem Entails.of_supertrait (above : supertrait i j = true)
    (held : Entails clause (.implements j)) : Entails clause (.implements i) := by
  induction j with
  | iUnknown =>
      cases of_decide_eq_true above
      exact held
  | derived iid own parent ih =>
      rw [supertrait, Bool.or_eq_true] at above
      rcases above with here | further
      · cases of_decide_eq_true here
        exact held
      · exact ih further held.parent

theorem Entails.sync_of (sync : clause.any Bound.givesSync = true) : Entails clause .sync := by
  obtain ⟨b, member, gives⟩ := List.any_eq_true.mp sync
  cases b with
  | implements j =>
      cases j with
      | iUnknown => cases gives
      | derived iid own parent => exact (Entails.given member).traitSync
  | comImpl v => exact (Entails.given member).implSync
  | sync => exact .given member
  | _ => cases gives

theorem Entails.static_of (static : clause.any Bound.givesStatic = true) :
    Entails clause .static := by
  obtain ⟨b, member, gives⟩ := List.any_eq_true.mp static
  cases b with
  | comImpl v => exact (Entails.given member).implStatic
  | static => exact .given member
  | _ => cases gives

theorem entails_iff : Entails clause b ↔ proves clause b = true := by
  constructor
  · exact Entails.proves
  intro proven
  cases b with
  | implements i =>
      simp only [proves, Bool.or_eq_true, decide_eq_true_eq, List.any_eq_true] at proven
      rcases proven with unknown | ⟨b, member, gives⟩
      · rw [unknown]
        exact .unknown
      · cases b with
        | implements j => exact .of_supertrait gives (.given member)
        | _ => cases gives
  | sync => exact .sync_of proven
  | static => exact .static_of proven
  | comImpl v =>
      simp only [proves, Bool.or_eq_true, Bool.and_eq_true, decide_eq_true_eq] at proven
      rcases proven with member | ⟨⟨unknown, sync⟩, static⟩
      · exact .given member
      · rw [unknown]
        exact .blanket (.sync_of sync) (.static_of static)
  | interfaceVtable v =>
      cases v with
      | of i => exact .vtable
      | p =>
          simp only [proves, ne_eq, not_true_eq_false, decide_false, Bool.false_or,
            decide_eq_true_eq] at proven
          exact .given proven
  | secondaryList =>
      simp only [proves, Bool.or_eq_true, decide_eq_true_eq] at proven
      rcases proven with member | vtables
      · exact .given member
      · exact (Entails.given vtables).entries
  | secondaryComImpl | secondaryVtables | secondaryEntryAccess i | allocator =>
      exact .given (of_decide_eq_true proven)

instance : Decidable (Entails clause b) :=
  decidable_of_iff _ entails_iff.symm

/-- An implementation is given by the clause, but for that of `IUnknown`. -/
theorem entails_comImpl_iff (derived : i ≠ .iUnknown) :
    Entails clause (.comImpl (.of i)) ↔ .comImpl (.of i) ∈ clause := by
  rw [entails_iff]
  simp [proves, derived]

end Entails

/-! ## Where-clauses -/

/-- `impl<T, P, S, A> ComObjectN<T, P, S, A>`; `IUnknownVtbl::new_primary` asks the same. -/
def comObjectN : List Bound :=
  [.comImpl .p, .secondaryComImpl, .interfaceVtable .p, .secondaryVtables, .secondaryList,
    .allocator]

/-- The constructors of the vtable of `i`, declared over `parent`. -/
def whereClause (i parent : Interface) : Kind → List Bound
  | .new => [.implements i, .comImpl (.of i), .comImpl (.of parent)]
  | .newPrimary =>
      [.implements i, .comImpl (.of i), .comImpl (.of parent), .comImpl .p, .secondaryComImpl,
        .interfaceVtable .p, .secondaryVtables, .secondaryList, .allocator]
  | .newSecondary =>
      [.implements i, .comImpl .p, .secondaryComImpl, .comImpl (.of parent), .interfaceVtable .p,
        .secondaryVtables, .secondaryEntryAccess i] ++
      -- `__kcom_vtbl_impl_secondary!` has a second bound over another interface than `IUnknown`
      (if parent = .iUnknown then [] else [.secondaryEntryAccess parent]) ++ [.allocator]

/-- What the expression for the field `parent` names: `IUnknownVtbl::new::<T, IVtbl>`,
`IUnknownVtbl::new_primary`, the three shims of `ComObjectN`, or the constructor of the
parent. -/
def parentClause (i : Interface) : Interface → Kind → List Bound
  | .iUnknown, .new => [.comImpl (.of i), .interfaceVtable (.of i)]
  | .iUnknown, .newPrimary => comObjectN
  | .iUnknown, .newSecondary => comObjectN ++ [.interfaceVtable (.of i), .secondaryEntryAccess i]
  | .derived iid own grand, k => whereClause (.derived iid own grand) grand k

/-- The shims of the methods of `i`. -/
def shimClause (i : Interface) : Wrapper → List Bound
  | .comObject => [.implements i, .comImpl (.of i)]
  | .comObjectN =>
      [.implements i, .comImpl .p, .secondaryComImpl, .interfaceVtable .p, .secondaryVtables,
        .secondaryEntryAccess i, .allocator]

/-- `ComObject::<T, IVtbl>` and `ComObjectN::<T, P, S, A>::from_secondary_ptr::<IVtbl, INDEX>`. -/
def wrapperClause (i : Interface) : Wrapper → List Bound
  | .comObject => [.comImpl (.of i), .interfaceVtable (.of i)]
  | .comObjectN => comObjectN ++ [.interfaceVtable (.of i), .secondaryEntryAccess i]

/-- The wrapper of the shim that an initialiser names, by the type arguments it gives. -/
def Init.wrapper (init : Init) : Wrapper :=
  if init.secondary then .comObjectN else .comObject

/-- What the body of a constructor names. -/
def Expansion.named (e : Expansion) (i parent : Interface) (k : Kind) : List Bound :=
  parentClause i parent k ++ (k.inits e).flatMap fun init => shimClause i init.wrapper

/-! ## Names -/

/-- An associated type of the trait. The names `[<method:camel Future>]` of two methods are
told apart here even if camel case makes them one; there are then two types `Allocator`. -/
inductive AssocType
  | future (method : String)
  | allocator
  deriving DecidableEq, Repr

/-- The name of the item among the constants and functions of the trait. -/
def TraitItem.value? : TraitItem → Option String
  | .method _ name _ _ => some name
  | _ => none

/-- The name of the item among the types of the trait. -/
def TraitItem.type? : TraitItem → Option AssocType
  | .futureType m _ => some (.future m)
  | .allocatorType => some .allocator
  | .method _ _ _ _ => none

/-- The types that the item calls `Self::_`. -/
def TraitItem.selfTypes : TraitItem → List AssocType
  | .method _ _ _ (.initBox m) => [.future m, .allocator]
  | _ => []

/-- The methods of a value of type `T` that the bound provides. -/
def Bound.methods : Bound → List String
  | .implements i => i.methods.map fun x => x.2.name
  | .comImpl _ => ["query_interface"]
  | _ => []

/-- The methods of the prelude that take any `self` by value. They are found before the
methods that take `&self`. -/
def preludeMethods : List String :=
  ["into", "try_into"]

/-- The call in the shim has one method to go to. -/
def ShimFn.Resolves (f : ShimFn) (i : Interface) : Prop :=
  ((shimClause i f.wrapper).flatMap Bound.methods).count f.body.call.method = 1 ∧
    f.body.call.method ∉ preludeMethods

/-! ## Acceptance -/

/-- What the compiler asks of the items written for the interface `i`, which is declared
over `parent` and whose supertraits have the items `inherited`. -/
@[mk_iff]
structure Expansion.Accepted (e : Expansion) (i parent : Interface) (inherited : List TraitItem) :
    Prop where
  values : ("IID" :: e.traitMethods.filterMap TraitItem.value?).Nodup
  types : (e.traitMethods.filterMap TraitItem.type?).Nodup
  selfTypes : ∀ path ∈ e.traitMethods.flatMap TraitItem.selfTypes,
    ((inherited ++ e.traitMethods).filterMap TraitItem.type?).count path = 1
  fields : ("parent" :: e.fields.map Field.name).Nodup
  functions : (e.shimFuncs.map ShimFn.name).Nodup
  params : ∀ f ∈ e.shimFuncs, (f.params.map Arg.name).Nodup
  calls : ∀ f ∈ e.shimFuncs, f.Resolves i
  shims : ∀ f ∈ e.shimFuncs, ∀ b ∈ wrapperClause i f.wrapper, Entails (shimClause i f.wrapper) b
  constructors : ∀ k ∈ Kind.all, ∀ b ∈ e.named i parent k, Entails (whereClause i parent k) b

instance (f : ShimFn) (i : Interface) : Decidable (f.Resolves i) :=
  inferInstanceAs (Decidable (_ ∧ _))

instance (e : Expansion) (i parent : Interface) (inherited : List TraitItem) :
    Decidable (e.Accepted i parent inherited) :=
  decidable_of_iff _ (e.accepted_iff i parent inherited).symm

namespace Declaration

/-- The items of the trait and of its supertraits. -/
def traitItems : Declaration → List TraitItem
  | .iUnknown => []
  | .derived name _ methods parent =>
      parent.traitItems ++ ((expand name methods).map Expansion.traitMethods).getD []

/-- The macro has a rule for each method, and the compiler accepts what is written, for
every interface down to `IUnknown`. -/
def Compiles : Declaration → Prop
  | .iUnknown => True
  | .derived name iid methods parent =>
      parent.Compiles ∧ ∃ e ∈ expand name methods,
        e.Accepted (Declaration.derived name iid methods parent).interface parent.interface
          parent.traitItems

def decidableCompiles : (d : Declaration) → Decidable d.Compiles
  | .iUnknown => .isTrue trivial
  | .derived _ _ _ parent =>
      have := decidableCompiles parent
      inferInstanceAs (Decidable (_ ∧ _))

instance : DecidablePred Compiles :=
  decidableCompiles

/-- The where-clause of the constructor. -/
def whereClause (k : Kind) : Declaration → List Bound
  | .iUnknown => []
  | .derived name iid methods parent =>
      Macros.whereClause (Declaration.derived name iid methods parent).interface parent.interface k

/-- The slots of the vtable type. -/
def flatten (d : Declaration) : Option (List Field) :=
  if d.Compiles then d.layout else none

end Declaration

namespace Constructor

def secondaries : Constructor → List Interface
  | .new => []
  | .newPrimary _ s _ => s
  | .newSecondary _ s _ _ => s

/-- The vtable type at `INDEX`. -/
def entry? : Constructor → Option Interface
  | .newSecondary _ s _ index => s[index]?
  | _ => none

/-- The traits of `S` are implemented for tuples of one to eight vtable types. -/
def isTuple (k : Constructor) : Bool :=
  0 < k.secondaries.length && k.secondaries.length ≤ 8

/-- The type arguments satisfy the bound, for a `T` that implements whatever it is asked
to. `SecondaryEntryAccess<INDEX, V>` is implemented for the type that stands at `INDEX`. -/
def meets (k : Constructor) : Bound → Bool
  | .secondaryComImpl => k.isTuple
  | .secondaryVtables => k.isTuple
  | .secondaryList => k.isTuple
  | .secondaryEntryAccess i => k.entry? = some i
  | _ => true

end Constructor

/-- The slots that a constructor fills at its type arguments. -/
def Declaration.construct (k : Constructor) (d : Declaration) : Option (List Content) :=
  if d.Compiles ∧ (d.whereClause k.kind).all k.meets then d.fill k else none

end Kcom.Macros
