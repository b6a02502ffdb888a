import Kcom.Com.Shims
import Kcom.Macros.Vtables

/-!
# `Result` across the ABI

A method that returns a `Result` is mapped to `NTSTATUS` in one of two places: the
three `Result` rules of `@parse` write the return type and the conversion
themselves, and the last rule hands the type it has captured to
`__kcom_map_return!`, whose literal patterns cannot look into it. `docs/macros.md`
accepts five spellings of `Result`; `result_crosses_iff` says for which of them the
shims return an `NTSTATUS`.
-/

namespace Kcom.Macros

open Com (NtStatus statusSuccess)

/-! ## Running a shim -/

/-- `IntoNtStatus` of a `Result<T, E>`, `into` being `E`'s conversion. -/
def intoNtStatus {T E : Type} (into : E → NtStatus) : Except E T → NtStatus
  | .ok _ => statusSuccess
  | .error err => into err

/-- What a shim returns to its caller. -/
inductive AbiValue (T E : Type)
  | status (s : NtStatus)
  /-- The Rust value as the method returned it. -/
  | result (v : Except E T)
  /-- A pointer to an operation. -/
  | operation

/-- What a shim makes of the value that the method returned. -/
def Body.run {T E : Type} (into : E → NtStatus) (v : Except E T) : Body → AbiValue T E
  | .intoNtStatus _ => .status (Macros.intoNtStatus into v)
  | .value _ => .result v
  | .spawn _ => .operation

/-- The shim returns an `NTSTATUS`: `STATUS_SUCCESS` for `Ok(_)` and `e.into()` for
`Err(e)`. -/
structure ShimFn.CrossesAsNtStatus (f : ShimFn) : Prop where
  type : f.ret = .ntStatus
  ok : ∀ {T E : Type} (into : E → NtStatus) (v : T),
    f.body.run into (.ok v : Except E T) = .status statusSuccess
  err : ∀ {T E : Type} (into : E → NtStatus) (e : E),
    f.body.run into (.error e : Except E T) = .status (into e)

/-! ## The rule that is taken -/

section Taken

variable {traitName : String} {g : Generated} {p : Path} {ok err : Ty}

/-- The paths of the `Result` rules. -/
def Path.parsed (p : Path) : Prop :=
  p.leading = true ∨ p.segments = ["Result"]

instance (p : Path) : Decidable p.parsed :=
  inferInstanceAs (Decidable (_ ∨ _))

/-- The rule determines the return type and the body. -/
theorem Generated.By.unique {g' : Generated} {step : Acc → Acc} (taken : g.By traitName)
    (matched : firstRule traitName g.decl = some step)
    (appends : ∀ acc, Appended traitName [g'] acc (step acc)) :
    g.ret = g'.ret ∧ g.body = g'.body := by
  obtain ⟨step', matched', appends'⟩ := taken
  obtain rfl : step' = step := Option.some.inj (matched'.symm.trans matched)
  have same := (appends' .empty).shims.symm.trans (appends .empty).shims
  simp only [Acc.empty, List.nil_append, List.flatMap_cons, List.flatMap_nil, List.append_nil,
    Generated.shim, List.cons.injEq, ShimFn.mk.injEq] at same
  exact ⟨same.1.2.2.2.1, same.1.2.2.2.2⟩

section

variable {m : MethodDecl} (written : m.ret = some (.path p [ok, err]))

include written

theorem firstRule_of_async (async : m.isAsync = true) :
    firstRule traitName m = asyncRule traitName m := by
  simp [firstRule, rules, asyncRule, async, written]

theorem firstRule_of_parsed (sync : m.isAsync = false) (spelled : p ∈ mapReturnPaths)
    (parsed : p.parsed) : firstRule traitName m = resultRule traitName p m := by
  simp only [mapReturnPaths, List.mem_cons, List.not_mem_nil, or_false] at spelled
  rcases spelled with rfl | rfl | rfl | rfl | rfl
  · simp [firstRule, rules, asyncRule, resultRule, Ty.matchResult, sync, written]
  · simp [firstRule, rules, asyncRule, resultRule, Ty.matchResult, sync, written]
  · simp [firstRule, rules, asyncRule, resultRule, Ty.matchResult, sync, written]
  · exact absurd parsed (by decide)
  · exact absurd parsed (by decide)

theorem firstRule_of_unparsed (sync : m.isAsync = false) (other : ¬p.parsed) :
    firstRule traitName m = plainRule traitName m := by
  have misses (q : Path) (parsed : q.parsed) : p ≠ q := by
    rintro rfl
    exact other parsed
  simp [firstRule, rules, asyncRule, resultRule, plainRule, Ty.matchResult, sync, written,
    misses ⟨false, ["Result"]⟩ (by decide), misses ⟨true, ["core", "result", "Result"]⟩ (by decide),
    misses ⟨true, ["std", "result", "Result"]⟩ (by decide)]

end

/-! ## The shims -/

theorem crosses_of_intoNtStatus {f : ShimFn} {call : Call} (type : f.ret = .ntStatus)
    (body : f.body = .intoNtStatus call) : f.CrossesAsNtStatus where
  type := type
  ok into v := by rw [body]; rfl
  err into e := by rw [body]; rfl

/-- Both shims of a method, by the rule that is taken for it. -/
theorem crosses_iff (taken : g.By traitName) (written : g.decl.ret = some (.path p [ok, err]))
    (spelled : p ∈ mapReturnPaths) :
    (g.shim traitName).CrossesAsNtStatus ∧ (g.shimSecondary traitName).CrossesAsNtStatus ↔
      g.decl.isAsync = false ∧ p.parsed := by
  have chosen := taken
  obtain ⟨step, matched, -⟩ := chosen
  constructor
  · rintro ⟨primary, -⟩
    have status : g.ret = .ntStatus := primary.type
    by_cases async : g.decl.isAsync = true
    · have rule := matched
      rw [firstRule_of_async written async] at matched
      obtain ⟨g', -, ⟨ret, -, operation⟩, appends⟩ := asyncRule_appends matched
      rw [(taken.unique rule appends).1, operation] at status
      cases status
    · have sync : g.decl.isAsync = false := Bool.not_eq_true _ ▸ async
      refine ⟨sync, ?_⟩
      by_contra other
      have rule := matched
      rw [firstRule_of_unparsed written sync other] at matched
      obtain ⟨g', -, ⟨ret, -, same⟩, appends⟩ := plainRule_appends matched
      rw [(taken.unique rule appends).1, same] at status
      cases status
  · rintro ⟨sync, parsed⟩
    have rule := matched
    rw [firstRule_of_parsed written sync spelled parsed] at matched
    obtain ⟨g', -, ⟨status, converts⟩, appends⟩ := resultRule_appends matched
    obtain ⟨ret, body⟩ := taken.unique rule appends
    exact ⟨crosses_of_intoNtStatus (ret.trans status) (body.trans converts),
      crosses_of_intoNtStatus (ret.trans status) (body.trans converts)⟩

end Taken

/-- **`Result` across the ABI.** Of a method whose return type is `Result<T, E>` in one
of the five spellings, both shims return an `NTSTATUS` with the documented value
exactly when the method is a plain `fn` and the spelling is `Result` or has the
leading `::`. -/
theorem result_crosses_iff {traitName : String} {methods : List MethodDecl} {m : MethodDecl}
    {p : Path} {ok err : Ty} (typed : ∀ m ∈ methods, m.ret.isSome = true)
    (distinct : Distinct methods) (listed : m ∈ methods)
    (written : m.ret = some (.path p [ok, err])) (spelled : p ∈ mapReturnPaths) :
    ∃ e primary secondary, expand traitName methods = some e ∧
      e.shimFuncs.find? (fun f => f.name = shimName traitName m.name) = some primary ∧
      e.shimFuncs.find? (fun f => f.name = shimNameSecondary traitName m.name) = some secondary ∧
      (primary.CrossesAsNtStatus ∧ secondary.CrossesAsNtStatus ↔
        m.isAsync = false ∧ (p.leading = true ∨ p.segments = ["Result"])) := by
  obtain ⟨gs, e, expanded, rfl, made⟩ := expand_from traitName typed
  obtain ⟨g, mem, rfl⟩ := List.mem_map.mp listed
  refine ⟨e, g.shim traitName, g.shimSecondary traitName, expanded, ?_, ?_,
    crosses_iff (made.taken g mem) written spelled⟩
  · rw [made.shims]
    exact find_shim distinct mem
  · rw [made.shims]
    exact find_shimSecondary distinct mem

/-- `fallible` of `docs/macros.md` returns an `NTSTATUS`. -/
theorem fallible_crosses :
    ∃ e primary secondary, expand "IFoo" [Docs.ping, Docs.fallible, Docs.getStatus] = some e ∧
      e.shimFuncs.find? (fun f => f.name = "shim_IFoo_fallible") = some primary ∧
      e.shimFuncs.find? (fun f => f.name = "shim_IFoo_fallible_secondary") = some secondary ∧
      primary.CrossesAsNtStatus ∧ secondary.CrossesAsNtStatus := by
  have typed : ∀ m ∈ [Docs.ping, Docs.fallible, Docs.getStatus], m.ret.isSome = true := by decide
  have distinct : Distinct [Docs.ping, Docs.fallible, Docs.getStatus] := ⟨by decide, by decide⟩
  obtain ⟨e, primary, secondary, expanded, found, found', crosses⟩ :=
    result_crosses_iff typed distinct (m := Docs.fallible) (by simp) rfl (by decide)
  exact ⟨e, primary, secondary, expanded, found, found', crosses.mpr ⟨rfl, .inr rfl⟩⟩

namespace Docs

/-- `fn fallible(&self) -> core::result::Result<(), NTSTATUS>;` -/
def fallibleCore : MethodDecl :=
  { fallible with
    ret := some (.path ⟨false, ["core", "result", "Result"]⟩ [.other "()", ntStatus]) }

end Docs

/-- Spelled `core::result::Result`, as `docs/macros.md` allows, it does not: the shim
has the written type and hands the Rust value over. -/
theorem fallibleCore_does_not_cross :
    ∃ e primary, expand "IFoo" [Docs.fallibleCore] = some e ∧
      e.shimFuncs.find? (fun f => f.name = "shim_IFoo_fallible") = some primary ∧
      primary.ret = .ty (.captured
        (.path ⟨false, ["core", "result", "Result"]⟩ [.other "()", Docs.ntStatus])) ∧
      primary.body.run id (.error Com.statusNoInterface : Except NtStatus Unit) =
        .result (.error Com.statusNoInterface) ∧
      ¬primary.CrossesAsNtStatus := by
  refine ⟨_, _, rfl, rfl, rfl, rfl, ?_⟩
  intro crosses
  have type := crosses.type
  cases type

end Kcom.Macros
