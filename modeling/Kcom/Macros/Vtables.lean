import Kcom.Macros.Accept
import Mathlib.Data.List.Nodup

/-!
# What is generated for the methods

Every method rule of `__kcom_define_interface!` appends one field, one initialiser
to each of the two lists and two shims, whatever else it does
(`firstRule_appends`), so the accumulators of a whole declaration are in step with
its methods (`parse_appends`). A constructor finds its shims by name, and
`generated_of_compiles` says what the vtable type and the constructors list for an
interface that compiles, by induction on its parents.
-/

namespace Kcom.Macros

open Com (Interface)

/-! ## Finding by name -/

section Find

variable {α β : Type*} {l : List α} {a : α}

theorem find?_of_unique [DecidableEq β] {key : α → β} {k : β} (mem : a ∈ l) (here : key a = k)
    (unique : ∀ b ∈ l, key b = k → b = a) : l.find? (fun x => key x = k) = some a := by
  obtain ⟨b, found⟩ : ∃ b, l.find? (fun x => key x = k) = some b := by
    apply Option.isSome_iff_exists.mp
    rw [List.find?_isSome]
    exact ⟨a, mem, decide_eq_true here⟩
  have chosen := List.find?_some found
  rw [found, unique b (List.mem_of_find?_eq_some found) (of_decide_eq_true chosen)]

theorem nodup_pairs {f : α → α} (inj : Function.Injective f) (moves : ∀ a, f a ≠ a) :
    (l.flatMap fun a => [a, f a]).Nodup ↔ l.Nodup ∧ ∀ a ∈ l, ∀ b ∈ l, b ≠ f a := by
  induction l with
  | nil => simp
  | cons a l ih =>
      have split : ((a :: l).flatMap fun a => [a, f a]) = a :: f a :: l.flatMap fun a => [a, f a] :=
        rfl
      rw [split, List.nodup_cons, List.nodup_cons, ih, List.nodup_cons]
      simp only [List.mem_cons, List.mem_flatMap, List.not_mem_nil, or_false, not_or, not_exists,
        not_and]
      grind [Function.Injective]

theorem mapM_of_forall {f : α → Option β} {g : α → β} (each : ∀ a ∈ l, f a = some (g a)) :
    l.mapM f = some (l.map g) := by
  induction l with
  | nil => rfl
  | cons a l ih =>
      have rest := ih fun b mem => each b (List.mem_cons_of_mem _ mem)
      simp [List.mapM_cons, each a List.mem_cons_self, rest]

end Find

/-! ## What the rules append -/

/-- Whether the call is spawned. -/
def Body.isSpawn : Body → Bool
  | .spawn _ => true
  | _ => false

/-- The associated types of a method. -/
def MethodDecl.assocTypes (m : MethodDecl) : List AssocType :=
  if m.isAsync then [.future m.name, .allocator] else []

/-- What is generated for a method: the return type that the field and both shims
have, the body that both shims have, and the items of the trait. The body calls the
method itself. -/
structure Generated where
  decl : MethodDecl
  ret : AbiTy
  body : Body
  items : List TraitItem
  calls : body.call = decl.call
  spawns : body.isSpawn = decl.isAsync
  values : items.filterMap TraitItem.value? = [decl.name]
  types : items.filterMap TraitItem.type? = decl.assocTypes
  selfTypes : items.flatMap TraitItem.selfTypes = decl.assocTypes

namespace Generated

variable (g : Generated) (traitName : String)

def field : Field :=
  ⟨g.decl.name, g.decl.args, g.ret⟩

def init : Init :=
  ⟨g.decl.name, shimName traitName g.decl.name, false⟩

def initSecondary : Init :=
  ⟨g.decl.name, shimNameSecondary traitName g.decl.name, true⟩

def shim : ShimFn :=
  ⟨shimName traitName g.decl.name, .comObject, g.decl.args, g.ret, g.body⟩

def shimSecondary : ShimFn :=
  ⟨shimNameSecondary traitName g.decl.name, .comObjectN, g.decl.args, g.ret, g.body⟩

end Generated

/-- The accumulators after what was generated for some methods. -/
structure Appended (traitName : String) (gs : List Generated) (acc acc' : Acc) : Prop where
  items : acc'.traitMethods = acc.traitMethods ++ gs.flatMap Generated.items
  fields : acc'.vtableFields = acc.vtableFields ++ gs.map Generated.field
  inits : acc'.vtableInits = acc.vtableInits ++ gs.map (Generated.init · traitName)
  initsSecondary : acc'.vtableInitsSecondary =
    acc.vtableInitsSecondary ++ gs.map (Generated.initSecondary · traitName)
  shims : acc'.shimFuncs =
    acc.shimFuncs ++ gs.flatMap fun g => [g.shim traitName, g.shimSecondary traitName]

/-- What the rule that is taken for the method generates. -/
def Generated.By (g : Generated) (traitName : String) : Prop :=
  ∃ step, firstRule traitName g.decl = some step ∧ ∀ acc, Appended traitName [g] acc (step acc)

section Rules

variable {traitName : String} {m : MethodDecl} {step : Acc → Acc} {acc acc' acc'' : Acc}

theorem Appended.trans {gs gs' : List Generated} (first : Appended traitName gs acc acc')
    (second : Appended traitName gs' acc' acc'') : Appended traitName (gs ++ gs') acc acc'' where
  items := by rw [second.items, first.items, List.flatMap_append, List.append_assoc]
  fields := by rw [second.fields, first.fields, List.map_append, List.append_assoc]
  inits := by rw [second.inits, first.inits, List.map_append, List.append_assoc]
  initsSecondary := by
    rw [second.initsSecondary, first.initsSecondary, List.map_append, List.append_assoc]
  shims := by rw [second.shims, first.shims, List.flatMap_append, List.append_assoc]

theorem asyncRule_appends (matched : asyncRule traitName m = some step) :
    ∃ g : Generated, g.decl = m ∧ (∃ ret, m.ret = some ret ∧ g.ret = .operation (.captured ret)) ∧
      ∀ acc, Appended traitName [g] acc (step acc) := by
  unfold asyncRule at matched
  split at matched
  · cases matched
    rename_i ret async written
    have types : m.assocTypes = [.future m.name, .allocator] := by
      rw [MethodDecl.assocTypes, async]
      rfl
    let items : List TraitItem := [.futureType m.name (.captured ret), .allocatorType,
      .method m.attrs m.name m.args (.initBox m.name)]
    exact ⟨⟨m, .operation (.captured ret), .spawn m.call, items, rfl, async.symm, rfl, types.symm,
      types.symm⟩, rfl, ⟨ret, written, rfl⟩, fun acc => ⟨rfl, rfl, rfl, rfl, rfl⟩⟩
  · cases matched

theorem resultRule_appends {p : Path} (matched : resultRule traitName p m = some step) :
    ∃ g : Generated, g.decl = m ∧ (g.ret = .ntStatus ∧ g.body = .intoNtStatus m.call) ∧
      ∀ acc, Appended traitName [g] acc (step acc) := by
  unfold resultRule at matched
  split at matched
  · cases matched
    rename_i ok err sync _
    have types : m.assocTypes = [] := by rw [MethodDecl.assocTypes, sync]; rfl
    let items : List TraitItem :=
      [.method m.attrs m.name m.args (.ty (.path p [.captured ok, .captured err]))]
    exact ⟨⟨m, .ntStatus, .intoNtStatus m.call, items, rfl, sync.symm, rfl, types.symm,
      types.symm⟩, rfl, ⟨rfl, rfl⟩, fun acc => ⟨rfl, rfl, rfl, rfl, rfl⟩⟩
  · cases matched

theorem plainRule_appends (matched : plainRule traitName m = some step) :
    ∃ g : Generated, g.decl = m ∧ (∃ ret, m.ret = some ret ∧ g.ret = .ty (.captured ret)) ∧
      ∀ acc, Appended traitName [g] acc (step acc) := by
  unfold plainRule at matched
  split at matched
  · cases matched
    rename_i ret sync written
    -- The mapping finds nothing in a captured type and leaves the call as it is.
    have types : m.assocTypes = [] := by rw [MethodDecl.assocTypes, sync]; rfl
    let items : List TraitItem := [.method m.attrs m.name m.args (.ty (.captured ret))]
    exact ⟨⟨m, .ty (.captured ret), .value m.call, items, rfl, sync.symm, rfl, types.symm,
      types.symm⟩, rfl, ⟨ret, written, rfl⟩, fun acc => ⟨rfl, rfl, rfl, rfl, rfl⟩⟩
  · cases matched

/-- Whichever rule is taken. -/
theorem firstRule_appends (matched : firstRule traitName m = some step) :
    ∃ g : Generated, g.decl = m ∧ ∀ acc, Appended traitName [g] acc (step acc) := by
  obtain ⟨rule, mem, matched⟩ := List.exists_of_findSome?_eq_some matched
  simp only [rules, List.mem_cons, List.not_mem_nil, or_false] at mem
  rcases mem with rfl | rfl | rfl | rfl | rfl
  · obtain ⟨g, decl, -, appends⟩ := asyncRule_appends matched
    exact ⟨g, decl, appends⟩
  · obtain ⟨g, decl, -, appends⟩ := resultRule_appends matched
    exact ⟨g, decl, appends⟩
  · obtain ⟨g, decl, -, appends⟩ := resultRule_appends matched
    exact ⟨g, decl, appends⟩
  · obtain ⟨g, decl, -, appends⟩ := resultRule_appends matched
    exact ⟨g, decl, appends⟩
  · obtain ⟨g, decl, -, appends⟩ := plainRule_appends matched
    exact ⟨g, decl, appends⟩

/-- A method with a return type is matched by the first rule or by the last, and one
without by none. -/
theorem firstRule_isSome_iff : (firstRule traitName m).isSome = true ↔ m.ret.isSome = true := by
  constructor
  · intro matched
    obtain ⟨step, matched⟩ := Option.isSome_iff_exists.mp matched
    cases written : m.ret with
    | some ret => rfl
    | none => simp [firstRule, rules, asyncRule, resultRule, plainRule, written] at matched
  · intro typed
    obtain ⟨ret, written⟩ := Option.isSome_iff_exists.mp typed
    rw [firstRule, List.findSome?_isSome_iff]
    cases async : m.isAsync with
    | true => exact ⟨asyncRule traitName, by simp [rules], by simp [asyncRule, async, written]⟩
    | false => exact ⟨plainRule traitName, by simp [rules], by simp [plainRule, async, written]⟩

theorem parse_isSome_iff {methods : List MethodDecl} :
    (parse traitName methods acc).isSome = true ↔ ∀ m ∈ methods, m.ret.isSome = true := by
  induction methods generalizing acc with
  | nil => simp [parse]
  | cons m rest ih =>
      have first : (firstRule traitName m).isSome = true ↔ m.ret.isSome = true :=
        firstRule_isSome_iff
      rw [List.forall_mem_cons, ← first]
      cases matched : firstRule traitName m with
      | none => simp [parse, matched]
      | some step => simp [parse, matched, ih]

/-- The whole declaration: the accumulators grow in step with the methods. -/
theorem parse_appends {methods : List MethodDecl}
    (parsed : parse traitName methods acc = some acc') :
    ∃ gs : List Generated, gs.map Generated.decl = methods ∧ (∀ g ∈ gs, g.By traitName) ∧
      Appended traitName gs acc acc' := by
  induction methods generalizing acc with
  | nil =>
      cases parsed
      exact ⟨[], rfl, by simp, by simp, by simp, by simp, by simp, by simp⟩
  | cons m rest ih =>
      obtain ⟨step, matched, parsed⟩ := Option.bind_eq_some_iff.mp parsed
      obtain ⟨g, decl, appends⟩ := firstRule_appends matched
      obtain ⟨gs, decls, taken, appended⟩ := ih parsed
      refine ⟨[g] ++ gs, ?_, ?_, (appends acc).trans appended⟩
      · rw [List.map_append, decls, List.map_singleton, decl]
        rfl
      · intro g' mem
        rcases List.mem_cons.mp mem with rfl | mem
        · exact ⟨step, by rw [decl, matched], appends⟩
        · exact taken g' mem

end Rules

/-! ## The constructors of one interface -/

/-- What the compiler demands of the names: no field of the vtable struct and no
shim is defined twice. -/
structure Distinct (methods : List MethodDecl) : Prop where
  fields : ("parent" :: methods.map MethodDecl.name).Nodup
  shims : ∀ m ∈ methods, ∀ m' ∈ methods, m'.name ≠ m.name ++ "_secondary"

/-- The shim that a constructor takes of the two. -/
def Kind.shim (k : Kind) (traitName : String) (g : Generated) : ShimFn :=
  match k with
  | .new => g.shim traitName
  | .newPrimary => g.shim traitName
  | .newSecondary => g.shimSecondary traitName

section Literals

variable {traitName : String} {gs : List Generated} {g g' : Generated}

theorem shimName_inj {m m' : String} : shimName traitName m = shimName traitName m' ↔ m = m' :=
  String.append_right_inj _

theorem shimNameSecondary_eq (m : String) :
    shimNameSecondary traitName m = shimName traitName (m ++ "_secondary") :=
  String.append_assoc

theorem shimNameSecondary_inj {m m' : String} :
    shimNameSecondary traitName m = shimNameSecondary traitName m' ↔ m = m' :=
  (String.append_left_inj _).trans shimName_inj

section

variable (distinct : Distinct (gs.map Generated.decl)) (mem : g ∈ gs)

include distinct mem

theorem Distinct.eq_of_name (mem' : g' ∈ gs) (same : g'.decl.name = g.decl.name) : g' = g := by
  have names := (List.nodup_cons.mp distinct.fields).2
  rw [List.map_map] at names
  exact List.inj_on_of_nodup_map names mem' mem same

theorem Distinct.ne_secondary (mem' : g' ∈ gs) :
    shimName traitName g'.decl.name ≠ shimNameSecondary traitName g.decl.name := by
  rw [shimNameSecondary_eq]
  intro same
  exact distinct.shims _ (List.mem_map_of_mem mem) _ (List.mem_map_of_mem mem')
    (shimName_inj.mp same)

theorem find_init {init : Generated → Init} (named : ∀ g, (init g).field = g.decl.name) :
    ((gs.map init).find? fun i => i.field = g.decl.name) = some (init g) := by
  apply find?_of_unique (List.mem_map_of_mem mem) (named g)
  intro i listed same
  obtain ⟨g', mem', rfl⟩ := List.mem_map.mp listed
  rw [distinct.eq_of_name mem mem' ((named g').symm.trans same)]

theorem find_shim :
    ((gs.flatMap fun g => [g.shim traitName, g.shimSecondary traitName]).find? fun f =>
      f.name = shimName traitName g.decl.name) = some (g.shim traitName) := by
  have here : (g.shim traitName).name = shimName traitName g.decl.name := rfl
  apply find?_of_unique _ here
  · intro f listed same
    obtain ⟨g', mem', here⟩ := List.mem_flatMap.mp listed
    rcases List.mem_pair.mp here with rfl | rfl
    · rw [distinct.eq_of_name mem mem' (shimName_inj.mp same)]
    · exact absurd same.symm (distinct.ne_secondary mem' mem)
  · exact List.mem_flatMap.mpr ⟨g, mem, List.mem_cons_self⟩

theorem find_shimSecondary :
    ((gs.flatMap fun g => [g.shim traitName, g.shimSecondary traitName]).find? fun f =>
      f.name = shimNameSecondary traitName g.decl.name) = some (g.shimSecondary traitName) := by
  have here : (g.shimSecondary traitName).name = shimNameSecondary traitName g.decl.name := rfl
  apply find?_of_unique _ here
  · intro f listed same
    obtain ⟨g', mem', here⟩ := List.mem_flatMap.mp listed
    rcases List.mem_pair.mp here with rfl | rfl
    · exact absurd same (distinct.ne_secondary mem mem')
    · rw [distinct.eq_of_name mem mem' (shimNameSecondary_inj.mp same)]
  · exact List.mem_flatMap.mpr ⟨g, mem, List.mem_cons_of_mem _ List.mem_cons_self⟩

end

end Literals

/-- The items that were emitted for the methods of an interface. -/
structure Expansion.From (e : Expansion) (traitName : String) (gs : List Generated) : Prop where
  taken : ∀ g ∈ gs, g.By traitName
  items : e.traitMethods = gs.flatMap Generated.items
  fields : e.fields = gs.map Generated.field
  new : e.new = gs.map (Generated.init · traitName)
  newPrimary : e.newPrimary = gs.map (Generated.init · traitName)
  newSecondary : e.newSecondary = gs.map (Generated.initSecondary · traitName)
  shims : e.shimFuncs = gs.flatMap fun g => [g.shim traitName, g.shimSecondary traitName]

theorem Expansion.exists_from {traitName : String} {methods : List MethodDecl} {e : Expansion}
    (expanded : expand traitName methods = some e) :
    ∃ gs : List Generated, gs.map Generated.decl = methods ∧ e.From traitName gs := by
  obtain ⟨acc, parsed, rfl⟩ := Option.map_eq_some_iff.mp expanded
  obtain ⟨gs, decls, taken, appended⟩ := parse_appends parsed
  exact ⟨gs, decls, taken, appended.items, appended.fields, appended.inits, appended.inits,
    appended.initsSecondary, appended.shims⟩

theorem expand_isSome_iff {traitName : String} {methods : List MethodDecl} :
    (expand traitName methods).isSome = true ↔ ∀ m ∈ methods, m.ret.isSome = true := by
  rw [expand, Option.isSome_map, parse_isSome_iff]

theorem expand_from (traitName : String) {methods : List MethodDecl}
    (typed : ∀ m ∈ methods, m.ret.isSome = true) :
    ∃ (gs : List Generated) (e : Expansion), expand traitName methods = some e ∧
      gs.map Generated.decl = methods ∧ e.From traitName gs := by
  obtain ⟨e, expanded⟩ := Option.isSome_iff_exists.mp (expand_isSome_iff.mpr typed)
  obtain ⟨gs, decls, made⟩ := Expansion.exists_from expanded
  exact ⟨gs, e, expanded, decls, made⟩

/-- Each constructor of an interface fills the slots with the shims of their
methods. -/
theorem Expansion.From.literal {e : Expansion} {traitName : String} {gs : List Generated}
    (made : e.From traitName gs) (distinct : Distinct (gs.map Generated.decl)) (k : Kind) :
    e.literal (k.inits e) = some (gs.map (k.shim traitName)) := by
  rw [Expansion.literal, made.fields, made.shims, List.mapM_map]
  apply mapM_of_forall
  intro g mem
  have named : (gs.map (Generated.init · traitName)).find? (fun i => i.field = g.decl.name) =
      some (g.init traitName) := find_init distinct mem fun _ => rfl
  have namedSecondary : (gs.map (Generated.initSecondary · traitName)).find?
      (fun i => i.field = g.decl.name) = some (g.initSecondary traitName) :=
    find_init distinct mem fun _ => rfl
  cases k with
  | new =>
      rw [Kind.inits, made.new]
      exact Option.bind_eq_some_iff.mpr ⟨_, named, find_shim distinct mem⟩
  | newPrimary =>
      rw [Kind.inits, made.newPrimary]
      exact Option.bind_eq_some_iff.mpr ⟨_, named, find_shim distinct mem⟩
  | newSecondary =>
      rw [Kind.inits, made.newSecondary]
      exact Option.bind_eq_some_iff.mpr ⟨_, namedSecondary, find_shimSecondary distinct mem⟩

theorem secondary_ne (name : String) : name ++ "_secondary" ≠ name := by
  intro same
  have lengths := congrArg String.length same
  simp at lengths

theorem Expansion.From.values {e : Expansion} {traitName : String} {gs : List Generated}
    (made : e.From traitName gs) :
    e.traitMethods.filterMap TraitItem.value? = (gs.map Generated.decl).map MethodDecl.name := by
  rw [made.items, List.filterMap_flatMap, List.map_map]
  simp only [Generated.values]
  exact List.flatMap_pure_eq_map _ gs

theorem Expansion.From.types {e : Expansion} {traitName : String} {gs : List Generated}
    (made : e.From traitName gs) : e.traitMethods.filterMap TraitItem.type? =
      (gs.map Generated.decl).flatMap MethodDecl.assocTypes := by
  rw [made.items, List.filterMap_flatMap, List.flatMap_map]
  simp only [Generated.types]

theorem Expansion.From.selfTypes {e : Expansion} {traitName : String} {gs : List Generated}
    (made : e.From traitName gs) : e.traitMethods.flatMap TraitItem.selfTypes =
      (gs.map Generated.decl).flatMap MethodDecl.assocTypes := by
  rw [made.items, List.flatMap_assoc, List.flatMap_map]
  simp only [Generated.selfTypes]

/-- No two functions have one name. -/
theorem Expansion.From.functions_iff {e : Expansion} {traitName : String} {gs : List Generated}
    (made : e.From traitName gs) :
    (e.shimFuncs.map ShimFn.name).Nodup ↔
      (gs.map (·.decl.name)).Nodup ∧
        ∀ g ∈ gs, ∀ g' ∈ gs, g'.decl.name ≠ g.decl.name ++ "_secondary" := by
  have names : e.shimFuncs.map ShimFn.name =
      ((gs.map (·.decl.name)).flatMap fun n => [n, n ++ "_secondary"]).map
        (shimName traitName) := by
    simp [made.shims, List.map_flatMap, List.flatMap_map, Generated.shim, Generated.shimSecondary,
      shimNameSecondary_eq]
  have apart : Function.Injective (shimName traitName) := fun _ _ => shimName_inj.mp
  have longer : Function.Injective (· ++ "_secondary" : String → String) :=
    fun _ _ => (String.append_left_inj _).mp
  rw [names, List.nodup_map_iff apart, nodup_pairs longer secondary_ne]
  simp only [List.mem_map, forall_exists_index, and_imp, forall_apply_eq_imp_iff₂]

/-- An interface that is accepted has its names apart. -/
theorem Expansion.Accepted.distinct {e : Expansion} {traitName : String} {gs : List Generated}
    {i parent : Interface} {inherited : List TraitItem}
    (accepted : e.Accepted i parent inherited) (made : e.From traitName gs) :
    Distinct (gs.map Generated.decl) where
  fields := by
    have fields := accepted.fields
    rw [made.fields, List.map_map] at fields
    rw [List.map_map]
    exact fields
  shims := by
    obtain ⟨-, apart⟩ := made.functions_iff.mp accepted.functions
    simp only [List.mem_map, forall_exists_index, and_imp, forall_apply_eq_imp_iff₂]
    exact apart

/-! ## Inheritance -/

def Declaration.name : Declaration → String
  | .iUnknown => "IUnknown"
  | .derived name _ _ _ => name

/-- The whole vtable: its type and each of its constructors list the same methods, the
parent's first. -/
theorem generated_of_compiles {d : Declaration} (compiles : d.Compiles) :
    ∃ gs : List (Declaration × Generated),
      gs.map (fun x => (x.1, x.2.decl)) = d.declared ∧
      d.flatten = some (iUnknownFields ++ gs.map fun x => x.2.field) ∧
      ∀ k : Constructor, d.fill k =
        some (unknownContents (k.root d.interface.base) ++
          gs.map fun x => .shim x.1.interface (k.kind.shim x.1.name x.2)) := by
  rw [Declaration.flatten, if_pos compiles]
  induction d with
  | iUnknown => exact ⟨[], rfl, rfl, fun k => rfl⟩
  | derived name iid methods parent ih =>
      obtain ⟨above, e, expanded, accepted⟩ := compiles
      obtain ⟨inherited, declared, flat, fills⟩ := ih above
      obtain ⟨own, rfl, made⟩ := Expansion.exists_from expanded
      have literals := made.literal (accepted.distinct made)
      let self := Declaration.derived name iid (own.map Generated.decl) parent
      refine ⟨inherited ++ own.map fun g => (self, g), ?_, ?_, ?_⟩
      · rw [List.map_append, declared, List.map_map, Declaration.declared, List.map_map]
        rfl
      · simp only [Option.mem_def] at expanded
        simp [Declaration.layout, expanded, flat, made.fields, List.map_map, Function.comp_def]
      · intro k
        cases parent with
        | iUnknown =>
            obtain rfl : inherited = [] := List.map_eq_nil_iff.mp declared
            simp only [Declaration.fill, Option.mem_def.mp expanded, literals, Option.bind_eq_bind,
              Option.bind_some, List.map_map, List.nil_append]
            rfl
        | derived name' iid' methods' grand =>
            simp only [Declaration.fill, Option.mem_def.mp expanded, literals, fills,
              Option.bind_eq_bind, Option.bind_some, List.map_append, List.map_map,
              List.append_assoc]
            rfl

/-- The shim that a constructor puts into a slot for a method: it calls that method
with its arguments in order, on the object that the constructor's shims are for, and
has the type of the slot. -/
structure ShimFn.Serves (f : ShimFn) (k : Kind) (m : MethodDecl) (slot : Field) : Prop where
  calls : f.body.call = ⟨m.name, m.args.map Arg.name⟩
  wrapper : f.wrapper = k.wrapper
  params : f.params = slot.params
  ret : f.ret = slot.ret

theorem serves (k : Kind) (traitName : String) (g : Generated) :
    (k.shim traitName g).Serves k g.decl g.field := by
  cases k <;> exact ⟨g.calls, rfl, rfl, rfl⟩

/-! ## The vtables of `Kcom.Com` -/

namespace Constructor

/-- The constructor's function on interfaces. -/
def vtbl : Constructor → Interface → Com.Vtbl
  | .new => .new
  | .newPrimary p s a => .newPrimary p s a
  | .newSecondary p s a index => .newSecondary p s a index

/-- The slot of a method. -/
def slot : Constructor → Interface → Com.Method → Com.Shim
  | .new => .method
  | .newPrimary _ _ _ => .method
  | .newSecondary p s a index => fun i m => .methodSecondary i m (.comObjectN p s a) index

end Constructor

/-- A slot as `Kcom.Com` has it. -/
def Content.shown (k : Constructor) : Content → Com.Shim
  | .unknown s => s
  | .shim owner f => k.slot owner ⟨f.body.call.method, f.body.isSpawn⟩

theorem methods_interface (d : Declaration) :
    d.interface.methods = d.declared.map fun x => (x.1.interface, ⟨x.2.name, x.2.isAsync⟩) := by
  induction d with
  | iUnknown => rfl
  | derived name iid methods parent ih =>
      rw [Declaration.interface, Interface.methods, ih, Declaration.declared, List.map_append,
        List.map_map, List.map_map]
      rfl

/-- The vtables that the results on dispatch and lifetimes are about are the ones the
macro generates. -/
theorem construct_eq_vtbl {d : Declaration} {k : Constructor} {contents : List Content}
    (built : d.construct k = some contents) :
    contents.map (Content.shown k) =
      [(k.vtbl d.interface).root.queryInterface, (k.vtbl d.interface).root.addRef,
        (k.vtbl d.interface).root.release] ++ (k.vtbl d.interface).methodSlots := by
  obtain ⟨⟨compiles, -⟩, filled⟩ := Option.ite_none_right_eq_some.mp built
  obtain ⟨gs, declared, -, fills⟩ := generated_of_compiles compiles
  cases (fills k).symm.trans filled
  have same : k.vtbl d.interface = Com.Vtbl.build k.root k.slot d.interface := by
    cases k <;> rfl
  rw [same, Com.Vtbl.root_build, Com.Vtbl.methodSlots_build, methods_interface, ← declared,
    List.map_append, List.map_map, List.map_map, List.map_map]
  congr 1
  apply List.map_congr_left
  intro x _
  have calls := congrArg Call.method x.2.calls
  cases k with
  | new =>
      simp [Content.shown, Constructor.kind, Kind.shim, Generated.shim, calls, x.2.spawns,
        MethodDecl.call]
  | newPrimary p s a =>
      simp [Content.shown, Constructor.kind, Kind.shim, Generated.shim, calls, x.2.spawns,
        MethodDecl.call]
  | newSecondary p s a index =>
      simp [Content.shown, Constructor.kind, Kind.shim, Generated.shimSecondary, calls, x.2.spawns,
        MethodDecl.call]

/-! ## The methods of `docs/macros.md` -/

namespace Docs

/-- `NTSTATUS` -/
def ntStatus : Ty :=
  .path ⟨false, ["NTSTATUS"]⟩ []

/-- `fn ping(&self, value: u32) -> NTSTATUS;` -/
def ping : MethodDecl :=
  ⟨[], false, "ping", [⟨"value", .path ⟨false, ["u32"]⟩ []⟩], some ntStatus⟩

/-- `fn fallible(&self) -> Result<(), NTSTATUS>;` -/
def fallible : MethodDecl :=
  ⟨[], false, "fallible", [], some (.path ⟨false, ["Result"]⟩ [.other "()", ntStatus])⟩

/-- `async fn get_status(&self) -> i32;` -/
def getStatus : MethodDecl :=
  ⟨[], true, "get_status", [], some (.path ⟨false, ["i32"]⟩ [])⟩

end Docs

end Kcom.Macros
