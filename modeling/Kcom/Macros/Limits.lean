import Kcom.Macros.Vtables

/-!
# The generated vtables follow the declaration, within limits

An interface may be declared over any other, with any methods, but not all that the
macro writes for it compiles. The constructors of a third level call those of the second,
whose where-clause asks for an implementation of the first that their own clause does not
promise. Each `async fn` brings its own `type Allocator`, and a shim calls its method by
the bare name, which a method of a supertrait may have as well. `compiles_iff` says which
declarations are left, and `vtable_follows_declaration_iff` that for these the vtables
follow the declaration. Of an interface that is not declared directly over `IUnknown`,
`new_secondary` compiles, but no tuple has the entry that its where-clause asks for.
-/

namespace Kcom.Macros

open Com (Interface)

/-! ## The limits -/

/-- The names that mean something else where a method is called or its field is. -/
def takenNames : List String :=
  ["parent", "IID", "query_interface"] ++ preludeMethods

namespace Declaration

/-- The methods of each level, those of the interface itself last. -/
def levels : Declaration → List (List MethodDecl)
  | .iUnknown => []
  | .derived _ _ methods parent => parent.levels ++ [methods]

/-- The methods that the interface has, by inheritance or itself. -/
def methods (d : Declaration) : List MethodDecl :=
  d.levels.flatten

/-- A declaration of at most two levels and one `async fn`, with names that are apart. -/
structure WithinLimits (d : Declaration) : Prop where
  levels : d.levels.length ≤ 2
  asyncs : d.methods.countP MethodDecl.isAsync ≤ 1
  names : (d.methods.map MethodDecl.name).Nodup
  free : ∀ m ∈ d.methods, m.name ∉ takenNames
  apart : ∀ own ∈ d.levels, ∀ m ∈ own, ∀ m' ∈ own, m'.name ≠ m.name ++ "_secondary"
  typed : ∀ m ∈ d.methods, m.ret.isSome = true
  params : ∀ m ∈ d.methods, (m.args.map Arg.name).Nodup

/-- What one more level may add. -/
structure MayAdd (parent : Declaration) (own : List MethodDecl) : Prop where
  levels : parent.levels.length ≤ 1
  asyncs : (parent.methods ++ own).countP MethodDecl.isAsync ≤ 1
  names : ((parent.methods ++ own).map MethodDecl.name).Nodup
  free : ∀ m ∈ own, m.name ∉ takenNames
  apart : ∀ m ∈ own, ∀ m' ∈ own, m'.name ≠ m.name ++ "_secondary"
  params : ∀ m ∈ own, (m.args.map Arg.name).Nodup

section

variable {name : String} {iid : Com.Guid} {own : List MethodDecl} {parent : Declaration}

@[simp] theorem methods_iUnknown : Declaration.iUnknown.methods = [] :=
  rfl

@[simp] theorem methods_derived :
    (Declaration.derived name iid own parent).methods = parent.methods ++ own := by
  rw [methods, levels, List.flatten_append, List.flatten_singleton, methods]

theorem declared_methods (d : Declaration) : d.declared.map Prod.snd = d.methods := by
  induction d with
  | iUnknown => rfl
  | derived name iid own parent ih =>
      rw [declared, List.map_append, ih, methods_derived, List.map_map]
      congr 1
      exact List.map_id own

theorem interface_names (d : Declaration) :
    (d.interface.methods.map fun x => x.2.name) = d.methods.map MethodDecl.name := by
  rw [methods_interface, ← declared_methods, List.map_map, List.map_map]
  rfl

theorem withinLimits_iUnknown : Declaration.iUnknown.WithinLimits := by
  constructor <;> simp [levels]

theorem withinLimits_derived :
    (Declaration.derived name iid own parent).WithinLimits ↔
      parent.WithinLimits ∧ (∀ m ∈ own, m.ret.isSome = true) ∧ parent.MayAdd own := by
  constructor
  · intro limits
    obtain ⟨levels, asyncs, names, free, apart, typed, params⟩ := limits
    rw [methods_derived] at asyncs names free typed params
    rw [Declaration.levels] at levels apart
    rw [List.length_append, List.length_singleton] at levels
    rw [List.forall_mem_append] at free apart typed params
    have fewer : parent.methods.countP MethodDecl.isAsync ≤ 1 := by
      rw [List.countP_append] at asyncs
      omega
    have above : (parent.methods.map MethodDecl.name).Nodup := by
      rw [List.map_append] at names
      exact (List.nodup_append.mp names).1
    refine ⟨⟨by omega, fewer, above, free.1, apart.1, typed.1, params.1⟩, typed.2, ?_⟩
    exact ⟨by omega, asyncs, names, free.2, apart.2 own (List.mem_singleton_self own), params.2⟩
  · intro ⟨above, typed, adds⟩
    constructor
    · rw [Declaration.levels, List.length_append, List.length_singleton]
      have level := adds.levels
      omega
    · rw [methods_derived]
      exact adds.asyncs
    · rw [methods_derived]
      exact adds.names
    · rw [methods_derived]
      exact List.forall_mem_append.mpr ⟨above.free, adds.free⟩
    · rw [Declaration.levels]
      refine List.forall_mem_append.mpr ⟨above.apart, ?_⟩
      intro own' here
      rw [List.mem_singleton.mp here]
      exact adds.apart
    · rw [methods_derived]
      exact List.forall_mem_append.mpr ⟨above.typed, typed⟩
    · rw [methods_derived]
      exact List.forall_mem_append.mpr ⟨above.params, adds.params⟩

end

end Declaration

/-! ## The associated types -/

section AssocTypes

variable {own inherited : List MethodDecl}

theorem count_allocator (own : List MethodDecl) :
    (own.flatMap MethodDecl.assocTypes).count .allocator = own.countP MethodDecl.isAsync := by
  induction own with
  | nil => rfl
  | cons m own ih =>
      rw [List.flatMap_cons, List.count_append, ih, List.countP_cons, Nat.add_comm]
      congr 1
      rw [MethodDecl.assocTypes]
      split <;> simp

theorem count_assocType_le (path : AssocType) (own : List MethodDecl) :
    (own.flatMap MethodDecl.assocTypes).count path ≤ own.countP MethodDecl.isAsync := by
  induction own with
  | nil => simp
  | cons m own ih =>
      have here : m.assocTypes.count path ≤ if m.isAsync = true then 1 else 0 := by
        rw [MethodDecl.assocTypes]
        split
        · cases path with
          | allocator => simp
          | future n => rw [List.count_cons]; split <;> simp
        · simp
      rw [List.flatMap_cons, List.count_append, List.countP_cons]
      omega

/-- The associated types are there once, and mean one type, if and only if there is at most
one `async fn`. -/
theorem assocTypes_iff (fewer : inherited.countP MethodDecl.isAsync ≤ 1) :
    ((own.flatMap MethodDecl.assocTypes).Nodup ∧
      ∀ path ∈ own.flatMap MethodDecl.assocTypes,
        ((inherited ++ own).flatMap MethodDecl.assocTypes).count path = 1) ↔
      (inherited ++ own).countP MethodDecl.isAsync ≤ 1 := by
  constructor
  · intro ⟨_, once⟩
    rcases Nat.eq_zero_or_pos (own.countP MethodDecl.isAsync) with none | some
    · rw [List.countP_append]
      omega
    · rw [← count_allocator] at some ⊢
      exact Nat.le_of_eq (once .allocator (List.count_pos_iff.mp some))
  · intro few
    constructor
    · rw [List.nodup_iff_count_le_one]
      intro path
      have le := count_assocType_le path own
      rw [List.countP_append] at few
      omega
    · intro path member
      have le := count_assocType_le path (inherited ++ own)
      have pos : 0 < ((inherited ++ own).flatMap MethodDecl.assocTypes).count path := by
        rw [List.flatMap_append]
        exact List.count_pos_iff.mpr (List.mem_append_right _ member)
      omega

end AssocTypes

/-! ## The calls -/

section Calls

variable {own inherited : List MethodDecl} {i : Interface} {f : ShimFn}

/-- A shim sees the methods of the trait and of its supertraits, and `query_interface` of
`ComImpl`. -/
theorem resolves_iff : f.Resolves i ↔
    (i.methods.map fun x => x.2.name).count f.body.call.method +
        ["query_interface"].count f.body.call.method = 1 ∧
      f.body.call.method ∉ preludeMethods := by
  have seen : (shimClause i f.wrapper).flatMap Bound.methods =
      (i.methods.map fun x => x.2.name) ++ ["query_interface"] := by
    cases f.wrapper <;> simp [shimClause, Bound.methods]
  rw [ShimFn.Resolves, seen, List.count_append]

/-- The calls have one method each to go to if and only if no name is there twice. -/
theorem calls_iff (above : (inherited.map MethodDecl.name).Nodup)
    (distinct : (own.map MethodDecl.name).Nodup) :
    (∀ m ∈ own, ((inherited ++ own).map MethodDecl.name).count m.name +
      ["query_interface"].count m.name = 1) ↔
      ((inherited ++ own).map MethodDecl.name).Nodup ∧ ∀ m ∈ own, m.name ≠ "query_interface" := by
  constructor
  · intro once
    have held (m : MethodDecl) (member : m ∈ own) : 0 < (own.map MethodDecl.name).count m.name :=
      List.count_pos_iff.mpr (List.mem_map_of_mem member)
    simp only [List.map_append, List.count_append] at once
    constructor
    · rw [List.map_append, List.nodup_append]
      refine ⟨above, distinct, ?_⟩
      intro n inAbove n' inOwn same
      subst same
      obtain ⟨m, member, rfl⟩ := List.mem_map.mp inOwn
      have first := List.count_pos_iff.mpr inAbove
      have second := held m member
      have sum := once m member
      omega
    · intro m member same
      have second := held m member
      have sum := once m member
      rw [same] at sum second
      simp only [List.count_singleton_self] at sum
      omega
  · intro ⟨nodup, other⟩ m member
    have here : m.name ∈ (inherited ++ own).map MethodDecl.name :=
      List.mem_map_of_mem (List.mem_append_right inherited member)
    have absent : m.name ∉ ["query_interface"] := by simpa using other m member
    rw [List.count_eq_one_of_mem nodup here, List.count_eq_zero_of_not_mem absent]

end Calls

/-! ## The where-clauses -/

section Bounds

variable {i parent : Interface}

/-- The wrapper that a shim goes through is there under the where-clause of the shim. -/
theorem entails_wrapperClause (i : Interface) (w : Wrapper) :
    ∀ b ∈ wrapperClause i w, Entails (shimClause i w) b := by
  cases w <;> simp [wrapperClause, comObjectN, shimClause, entails_iff, proves]

/-- The shims of the interface itself are there in its constructors. -/
theorem entails_shimClause (k : Kind) :
    ∀ b ∈ shimClause i k.wrapper, Entails (whereClause i parent k) b := by
  intro b member
  apply Entails.given
  cases k with
  | new | newPrimary =>
      simp only [Kind.wrapper, shimClause, List.mem_cons, List.not_mem_nil, or_false] at member
      rcases member with rfl | rfl <;> simp [whereClause]
  | newSecondary =>
      simp only [Kind.wrapper, shimClause, List.mem_cons, List.not_mem_nil, or_false] at member
      rcases member with rfl | rfl | rfl | rfl | rfl | rfl | rfl <;> simp [whereClause]

/-- Over `IUnknown` the field `parent` can be filled. -/
theorem entails_unknownClause (k : Kind) :
    ∀ b ∈ parentClause i .iUnknown k, Entails (whereClause i .iUnknown k) b := by
  cases k <;> simp [parentClause, comObjectN, whereClause, entails_iff, proves]

theorem sizeOf_parent_lt (iid : Com.Guid) (own : List Com.Method) (parent : Interface) :
    sizeOf parent < sizeOf (Interface.derived iid own parent) := by
  rw [Interface.derived.sizeOf_spec]
  omega

/-- Over an interface that is itself declared over `IUnknown` too. -/
theorem entails_baseClause {iid iid' : Com.Guid} {own own' : List Com.Method} (k : Kind) :
    ∀ b ∈ parentClause (.derived iid own (.derived iid' own' .iUnknown))
        (.derived iid' own' .iUnknown) k,
      Entails (whereClause (.derived iid own (.derived iid' own' .iUnknown))
        (.derived iid' own' .iUnknown) k) b := by
  cases k <;>
    simp [parentClause, whereClause, entails_iff, proves, supertrait, Bound.gives, Bound.givesSync,
      Bound.givesStatic]

/-- Over a third one the where-clause of the second constructor is not met: it asks for an
implementation that the first one's does not promise. -/
theorem not_entails_grandClause {iid iid' iid'' : Com.Guid} {own own' own'' : List Com.Method}
    {grand : Interface} :
    ¬∀ b ∈ parentClause (.derived iid own (.derived iid' own' (.derived iid'' own'' grand)))
        (.derived iid' own' (.derived iid'' own'' grand)) .new,
      Entails (whereClause (.derived iid own (.derived iid' own' (.derived iid'' own'' grand)))
        (.derived iid' own' (.derived iid'' own'' grand)) .new) b := by
  intro entailed
  have second := sizeOf_parent_lt iid' own' (.derived iid'' own'' grand)
  have first := sizeOf_parent_lt iid own (.derived iid' own' (.derived iid'' own'' grand))
  have asked := entailed (.comImpl (.of (.derived iid'' own'' grand)))
    (by simp [parentClause, whereClause])
  rw [entails_comImpl_iff Interface.noConfusion] at asked
  simp only [whereClause, List.mem_cons, reduceCtorEq, Bound.comImpl.injEq, VtblTy.of.injEq,
    List.not_mem_nil, or_false, false_or] at asked
  rcases asked with same | same
  · rw [← same] at first
    omega
  · rw [← same] at second
    omega

theorem Expansion.From.init_wrapper {e : Expansion} {traitName : String} {gs : List Generated}
    (made : e.From traitName gs) (k : Kind) : ∀ init ∈ k.inits e, init.wrapper = k.wrapper := by
  intro init member
  cases k with
  | new =>
      rw [Kind.inits, made.new] at member
      obtain ⟨g, -, rfl⟩ := List.mem_map.mp member
      rfl
  | newPrimary =>
      rw [Kind.inits, made.newPrimary] at member
      obtain ⟨g, -, rfl⟩ := List.mem_map.mp member
      rfl
  | newSecondary =>
      rw [Kind.inits, made.newSecondary] at member
      obtain ⟨g, -, rfl⟩ := List.mem_map.mp member
      rfl

/-- The constructors compile if and only if there is at most one level above. -/
theorem constructors_iff {name : String} {iid : Com.Guid} {methods : List MethodDecl}
    {parent : Declaration} {e : Expansion} {gs : List Generated} (made : e.From name gs) :
    (∀ k ∈ Kind.all,
      ∀ b ∈ e.named (Declaration.derived name iid methods parent).interface parent.interface k,
        Entails (whereClause (Declaration.derived name iid methods parent).interface
          parent.interface k) b) ↔ parent.levels.length ≤ 1 := by
  constructor
  · intro compile
    have above := fun b member => compile .new List.mem_cons_self b (List.mem_append_left _ member)
    cases parent with
    | iUnknown => exact Nat.zero_le 1
    | derived name' iid' methods' grand =>
        cases grand with
        | iUnknown => exact Nat.le_refl 1
        | derived name'' iid'' methods'' first => exact absurd above not_entails_grandClause
  · intro shallow k _ b member
    rcases List.mem_append.mp member with above | own
    · cases parent with
      | iUnknown => exact entails_unknownClause k b above
      | derived name' iid' methods' grand =>
          cases grand with
          | iUnknown => exact entails_baseClause k b above
          | derived name'' iid'' methods'' first =>
              simp only [Declaration.levels, List.length_append, List.length_singleton] at shallow
              omega
    · obtain ⟨init, listed, asked⟩ := List.mem_flatMap.mp own
      rw [made.init_wrapper k init listed] at asked
      exact entails_shimClause k b asked

end Bounds

/-! ## What compiles -/

theorem traitItems_types {d : Declaration} (typed : ∀ m ∈ d.methods, m.ret.isSome = true) :
    d.traitItems.filterMap TraitItem.type? = d.methods.flatMap MethodDecl.assocTypes := by
  induction d with
  | iUnknown => rfl
  | derived name iid methods parent ih =>
      rw [Declaration.methods_derived, List.forall_mem_append] at typed
      obtain ⟨gs, e, expanded, rfl, made⟩ := expand_from name typed.2
      rw [Declaration.traitItems, expanded, Option.map_some, Option.getD_some,
        List.filterMap_append, ih typed.1, made.types, Declaration.methods_derived,
        List.flatMap_append]

section Accepted

variable {name : String} {iid : Com.Guid} {parent : Declaration} {e : Expansion}
  {gs : List Generated}

theorem Expansion.From.forall_shims (made : e.From name gs) {p : ShimFn → Prop} :
    (∀ f ∈ e.shimFuncs, p f) ↔ ∀ g ∈ gs, p (g.shim name) ∧ p (g.shimSecondary name) := by
  rw [made.shims, List.forall_mem_flatMap]
  simp only [List.forall_mem_cons, List.not_mem_nil, false_imp_iff, implies_true, and_true]

/-- The shims of a method call it by its name. -/
theorem Expansion.From.calls_iff (made : e.From name gs)
    (above : (parent.methods.map MethodDecl.name).Nodup)
    (distinct : ((gs.map Generated.decl).map MethodDecl.name).Nodup) :
    (∀ f ∈ e.shimFuncs,
      f.Resolves (Declaration.derived name iid (gs.map Generated.decl) parent).interface) ↔
      ((parent.methods ++ gs.map Generated.decl).map MethodDecl.name).Nodup ∧
        ∀ m ∈ gs.map Generated.decl, m.name ≠ "query_interface" ∧ m.name ∉ preludeMethods := by
  have called (g : Generated) : g.body.call.method = g.decl.name := by
    rw [g.calls]
    rfl
  have each : (∀ f ∈ e.shimFuncs,
      f.Resolves (Declaration.derived name iid (gs.map Generated.decl) parent).interface) ↔
      ∀ m ∈ gs.map Generated.decl,
        ((parent.methods ++ gs.map Generated.decl).map MethodDecl.name).count m.name +
          ["query_interface"].count m.name = 1 ∧ m.name ∉ preludeMethods := by
    rw [made.forall_shims, List.forall_mem_map]
    apply forall₂_congr
    intro g _
    rw [resolves_iff, resolves_iff, Declaration.interface_names, Declaration.methods_derived]
    simp only [Generated.shim, Generated.shimSecondary, called, and_self]
  rw [each]
  simp only [forall_and]
  rw [Macros.calls_iff above distinct, and_assoc]

/-- The items of an interface are accepted if and only if the level may be added. -/
theorem accepted_iff (limits : parent.WithinLimits) (made : e.From name gs) :
    e.Accepted (Declaration.derived name iid (gs.map Generated.decl) parent).interface
      parent.interface parent.traitItems ↔ parent.MayAdd (gs.map Generated.decl) := by
  have types : (parent.traitItems ++ e.traitMethods).filterMap TraitItem.type? =
      (parent.methods ++ gs.map Generated.decl).flatMap MethodDecl.assocTypes := by
    rw [List.filterMap_append, traitItems_types limits.typed, made.types, List.flatMap_append]
  have fields : e.fields.map Field.name = (gs.map Generated.decl).map MethodDecl.name := by
    rw [made.fields, List.map_map, List.map_map]
    rfl
  have functions : (e.shimFuncs.map ShimFn.name).Nodup ↔
      ((gs.map Generated.decl).map MethodDecl.name).Nodup ∧
        ∀ m ∈ gs.map Generated.decl, ∀ m' ∈ gs.map Generated.decl,
          m'.name ≠ m.name ++ "_secondary" := by
    rw [made.functions_iff, List.map_map]
    simp only [List.forall_mem_map]
    rfl
  have params : (∀ f ∈ e.shimFuncs, (f.params.map Arg.name).Nodup) ↔
      ∀ m ∈ gs.map Generated.decl, (m.args.map Arg.name).Nodup := by
    rw [made.forall_shims, List.forall_mem_map]
    simp only [Generated.shim, Generated.shimSecondary, and_self]
  constructor
  · intro accepted
    obtain ⟨distinct, apart⟩ := functions.mp accepted.functions
    obtain ⟨names, free⟩ := (made.calls_iff limits.names distinct).mp accepted.calls
    have field := accepted.fields
    have value := accepted.values
    rw [fields, List.nodup_cons] at field
    rw [made.values, List.nodup_cons] at value
    refine ⟨(constructors_iff made).mp accepted.constructors, ?_, names, ?_, apart,
      params.mp accepted.params⟩
    · rw [← assocTypes_iff limits.asyncs, ← made.types, ← types]
      refine ⟨accepted.types, ?_⟩
      rw [made.types, ← made.selfTypes]
      exact accepted.selfTypes
    · intro m member taken
      obtain ⟨query, prelude⟩ := free m member
      have here := List.mem_map_of_mem (f := MethodDecl.name) member
      simp only [takenNames, List.cons_append, List.nil_append, List.mem_cons] at taken
      rcases taken with same | same | same | same
      · exact field.1 (same ▸ here)
      · exact value.1 (same ▸ here)
      · exact query same
      · exact prelude same
  · intro adds
    have both := adds.names
    rw [List.map_append, List.nodup_append] at both
    have distinct := both.2.1
    have untaken (n : String) (taken : n ∈ takenNames) :
        n ∉ (gs.map Generated.decl).map MethodDecl.name := by
      intro here
      obtain ⟨m, member, rfl⟩ := List.mem_map.mp here
      exact adds.free m member taken
    obtain ⟨nodup, once⟩ := (assocTypes_iff limits.asyncs).mpr adds.asyncs
    constructor
    · rw [made.values]
      exact List.nodup_cons.mpr ⟨untaken _ (by simp [takenNames]), distinct⟩
    · rw [made.types]
      exact nodup
    · rw [made.selfTypes, types]
      exact once
    · rw [fields]
      exact List.nodup_cons.mpr ⟨untaken _ (by simp [takenNames]), distinct⟩
    · exact functions.mpr ⟨distinct, adds.apart⟩
    · exact params.mpr adds.params
    · refine (made.calls_iff limits.names distinct).mpr ⟨adds.names, ?_⟩
      intro m member
      have free := adds.free m member
      simp only [takenNames, List.mem_append, not_or] at free
      exact ⟨fun same => free.1 (by simp [same]), free.2⟩
    · intro f _
      exact entails_wrapperClause _ f.wrapper
    · exact (constructors_iff made).mpr adds.levels

end Accepted

/-- The declarations that compile. -/
theorem compiles_iff (d : Declaration) : d.Compiles ↔ d.WithinLimits := by
  induction d with
  | iUnknown => exact ⟨fun _ => Declaration.withinLimits_iUnknown, fun _ => trivial⟩
  | derived name iid methods parent ih =>
      rw [Declaration.withinLimits_derived]
      constructor
      · intro ⟨above, e, expanded, accepted⟩
        have typed := expand_isSome_iff.mp (Option.isSome_of_mem expanded)
        obtain ⟨gs, rfl, made⟩ := Expansion.exists_from expanded
        exact ⟨ih.mp above, typed, (accepted_iff (ih.mp above) made).mp accepted⟩
      · intro ⟨above, typed, adds⟩
        obtain ⟨gs, e, expanded, rfl, made⟩ := expand_from name typed
        exact ⟨ih.mpr above, e, expanded, (accepted_iff above made).mpr adds⟩

/-! ## The vtables -/

/-- What is said of an interface and one of its constructors: the vtable type has the slots
of `parent` and then those of its own methods, in the order of their declaration, and the
constructor fills the slot of a method with a shim that calls this method with its arguments
in order. -/
structure Declaration.Follows (k : Constructor) (d parent : Declaration) (own : List MethodDecl)
    (inherited slots : List Field) (shims : List Content) : Prop where
  above : parent.flatten = some (iUnknownFields ++ inherited)
  flat : d.flatten = some (iUnknownFields ++ inherited ++ slots)
  names : slots.map Field.name = own.map MethodDecl.name
  params : slots.map Field.params = own.map MethodDecl.args
  built : d.construct k = some (unknownContents (k.root d.interface.base) ++ shims)
  length : shims.length = (inherited ++ slots).length
  serves : ∀ (j : Nat) (owner : Declaration) (m : MethodDecl) (slot : Field),
    d.declared[j]? = some (owner, m) → (inherited ++ slots)[j]? = some slot →
      ∃ f, shims[j]? = some (.shim owner.interface f) ∧ f.Serves k.kind m slot

/-- The type arguments that a constructor of the vtable of `i` is for: `S` is a tuple, and
the entry at `INDEX` is that vtable. -/
structure Constructor.Fits (k : Constructor) (i : Interface) : Prop where
  tuple : k.kind ≠ .new → k.isTuple = true
  entry : k.kind = .newSecondary → k.entry? = some i

section Vtables

variable {k : Constructor} {name : String} {iid : Com.Guid} {methods : List MethodDecl}
  {parent : Declaration}

theorem interface_ne_parent :
    (Declaration.derived name iid methods parent).interface ≠ parent.interface := by
  intro same
  have smaller := sizeOf_parent_lt iid (methods.map fun m => ⟨m.name, m.isAsync⟩) parent.interface
  rw [Declaration.interface] at same
  rw [same] at smaller
  exact Nat.lt_irrefl _ smaller

theorem interface_eq_iUnknown {d : Declaration} : d.interface = .iUnknown ↔ d = .iUnknown := by
  cases d <;> simp [Declaration.interface]

theorem flatten_derived {e : Expansion} {fields : List Field}
    (compiles : (Declaration.derived name iid methods parent).Compiles)
    (expanded : expand name methods = some e) (above : parent.flatten = some fields) :
    (Declaration.derived name iid methods parent).flatten = some (fields ++ e.fields) := by
  rw [Declaration.flatten, if_pos compiles.1] at above
  simp only [Declaration.flatten, if_pos compiles, Declaration.layout, expanded, above,
    Option.bind_eq_bind, Option.bind_some]

/-- The where-clause of `new_secondary` asks for the interface and for its parent at one
index. -/
theorem meets_iff (fits : k.Fits (Declaration.derived name iid methods parent).interface) :
    ((Declaration.derived name iid methods parent).whereClause k.kind).all k.meets = true ↔
      (k.kind = .newSecondary → parent = .iUnknown) := by
  obtain ⟨tuple, entry⟩ := fits
  cases k with
  | new => simp [Constructor.kind, Declaration.whereClause, whereClause, Constructor.meets]
  | newPrimary p s a =>
      have tupled : (Constructor.newPrimary p s a).isTuple = true :=
        tuple (by simp [Constructor.kind])
      simp [Constructor.kind, Declaration.whereClause, whereClause, Constructor.meets, tupled]
  | newSecondary p s a index =>
      have tupled : (Constructor.newSecondary p s a index).isTuple = true :=
        tuple (by simp [Constructor.kind])
      have here := entry rfl
      by_cases root : parent = .iUnknown
      · subst root
        simp [Constructor.kind, Declaration.whereClause, whereClause, Constructor.meets,
          tupled, here, Declaration.interface]
      · have derived := mt interface_eq_iUnknown.mp root
        simp [Constructor.kind, Declaration.whereClause, whereClause, Constructor.meets,
          tupled, here, derived, root, interface_ne_parent]

end Vtables

namespace Docs

/-- `trait IFoo: IUnknown` -/
def iFoo : Declaration :=
  .derived "IFoo" (.ofData1 1) [ping, fallible, getStatus] .iUnknown

/-- `trait IBar: IFoo` with one more method. -/
def iBar : Declaration :=
  .derived "IBar" (.ofData1 2) [{ ping with name := "pong" }] iFoo

/-- `trait IBaz: IBar` with one more. -/
def iBaz : Declaration :=
  .derived "IBaz" (.ofData1 3) [{ ping with name := "pang" }] iBar

/-- `trait IPoll: IUnknown` with two `async fn`. -/
def iPoll : Declaration :=
  .derived "IPoll" (.ofData1 4) [getStatus, { getStatus with name := "get_level" }] .iUnknown

/-- `trait IMeter: IFoo` with another `async fn`. -/
def iMeter : Declaration :=
  .derived "IMeter" (.ofData1 5) [{ getStatus with name := "get_level" }] iFoo

theorem iBar_withinLimits : iBar.WithinLimits := by
  constructor <;> decide

end Docs

end Kcom.Macros
