import Kcom.Com.Single

/-!
# `QueryInterface` on an inheritance chain

An object `ComObject::<T, IkVtbl>` of a chain `I1: IUnknown`, `I2: I1`, ...,
`Ik: I(k-1)` has the vtable `IkVtbl::new::<T>()`. Its `IUnknown` slots are built
by the recursion through the parents' `new`, so they are instantiated for
`ComObject::<T, I1Vtbl>`, and the search in `query_interface` starts at `I1` and
not at `Ik`. `query_interface_chain` says for which IIDs the answer is still the
one a client expects.
-/

namespace Kcom.Com

open ReprC

namespace Interface

/-- The interfaces of the chain, the most derived one first, without `IUnknown`. -/
def chain : Interface → List Interface
  | .iUnknown => []
  | .derived iid own parent => .derived iid own parent :: parent.chain

/-- The IIDs of the chain. -/
def iids : Interface → List Guid
  | .iUnknown => []
  | .derived iid _ parent => iid :: parent.iids

/-- The IIDs of `I2`, ..., `Ik`: of the interfaces that are not declared directly
over `IUnknown`. -/
def laterIids : Interface → List Guid
  | .iUnknown => []
  | .derived _ _ .iUnknown => []
  | .derived iid _ (.derived iid' own' parent) =>
      iid :: (Interface.derived iid' own' parent).laterIids

variable {i : Interface}

theorem iids_eq (derived : i ≠ .iUnknown) : i.iids = i.laterIids ++ [i.base.iid] := by
  induction i with
  | iUnknown => exact absurd rfl derived
  | derived iid own parent ih =>
      cases parent with
      | iUnknown => rfl
      | derived iid' own' grand =>
          rw [iids, ih Interface.noConfusion]
          rfl

theorem mem_chain (derived : i ≠ .iUnknown) : i ∈ i.chain := by
  cases i with
  | iUnknown => exact absurd rfl derived
  | derived iid own parent => exact List.mem_cons_self

theorem base_mem_chain (derived : i ≠ .iUnknown) : i.base ∈ i.chain := by
  induction i with
  | iUnknown => exact absurd rfl derived
  | derived iid own parent ih =>
      cases parent with
      | iUnknown => exact List.mem_cons_self
      | derived iid' own' grand => exact List.mem_cons_of_mem _ (ih Interface.noConfusion)

theorem base_eq (derived : i ≠ .iUnknown) : ∃ iid own, i.base = .derived iid own .iUnknown := by
  induction i with
  | iUnknown => exact absurd rfl derived
  | derived iid own parent ih =>
      cases parent with
      | iUnknown => exact ⟨iid, own, rfl⟩
      | derived iid' own' grand => exact ih Interface.noConfusion

end Interface

/-- The answer a client expects from `QueryInterface` on an object of the
interface `i` at `ptr` with `n` references: the object pointer and one more
reference for `IUnknown` and the interfaces of the chain, a refusal for every
other IID. -/
def Conforms (tgt : Target) (T : Impl) (i : Interface) (a : AllocTy) (ptr n : Nat) (riid : Guid)
    (h : Heap) (result : Option (Answer × Heap)) : Prop :=
  if riid = iidIUnknown ∨ riid ∈ i.iids then
    ∃ h', result = some (⟨statusSuccess, some ptr⟩, h') ∧
      Image tgt T (.comObject i a) ptr (n + 1) h'.mem
  else
    result = some (⟨statusNoInterface, some 0⟩, h)

section Chain

variable {mode : Hardening} {outer : OuterUnknown} {tgt : Target} {T : Impl} {i : Interface}
  {a : AllocTy} {ptr n : Nat} {riid : Guid} {h : Heap}

/-- The search from the base of the chain finds the base only. -/
theorem comImplQueryInterface_base (derived : i ≠ .iUnknown) (single : T.form i.base = .single)
    (nonnull : ptr ≠ 0) :
    comImplQueryInterface tgt T ptr riid i.base =
      if riid = i.base.iid then some ptr else none := by
  obtain ⟨iid, own, shape⟩ := Interface.base_eq derived
  rw [shape] at single ⊢
  simp only [comImplQueryInterface, single, nonnull, if_false, Interface.iid]
  rfl

/-- What `QueryInterface` through the object's vtable does. -/
theorem invokeQueryInterface_eq (image : Image tgt T (.comObject i a) ptr n h.mem)
    (derived : i ≠ .iUnknown) (single : ∀ j ∈ i.chain, T.form j = .single) (nonnull : ptr ≠ 0) :
    invokeQueryInterface mode outer tgt T ptr (some riid) true h =
      if riid = iidIUnknown ∨ riid = i.base.iid then
        (Refcount.add mode n).map fun r =>
          (⟨statusSuccess, some ptr⟩, counted tgt T (.comObject i a) ptr h r.2)
      else some (⟨statusNoInterface, some 0⟩, h) := by
  have form : T.form i = .single := single i (Interface.mem_chain derived)
  have vtbl := vtableAt_comObject image form
  have search : comImplQueryInterface tgt T ptr riid i.base = _ :=
    comImplQueryInterface_base derived (single _ (Interface.base_mem_chain derived)) nonnull
  unfold invokeQueryInterface
  rw [vtbl]
  simp only [Option.bind_eq_bind, Option.bind_some, root_new, callQueryInterface,
    IUnknownVtbl.new]
  unfold shimQueryInterface
  have near (j : Interface) : (Container.comObject j .globalAllocator).shift tgt =
      (Container.comObject i a).shift tgt := rfl
  rw [outerAt_of_image image (near _)]
  simp only [Option.bind_eq_bind, Option.bind_some, delegate, Option.filter_none, answer,
    Container.primary, search, shimAddRef_of_image image (near _)]
  by_cases unknown : riid = iidIUnknown
  · simp only [unknown, if_true, true_or]
    cases Refcount.add mode n <;> rfl
  · by_cases base : riid = i.base.iid
    · subst base
      simp only [unknown, if_true, if_false, or_true, vtbl, Option.bind_some, root_new,
        IUnknownVtbl.new, callAddRef, shimAddRef_of_image image (near _)]
      cases Refcount.add mode n <;> rfl
    · simp only [base, unknown, if_false, or_self]

/-- Of the IIDs `QueryInterface` grants, it adds the reference while the counter
has room. -/
theorem conforms_of_granted (image : Image tgt T (.comObject i a) ptr n h.mem)
    (granted : riid = iidIUnknown ∨ riid ∈ i.iids) :
    Conforms tgt T i a ptr n riid h
        ((Refcount.add mode n).map fun r =>
          (⟨statusSuccess, some ptr⟩, counted tgt T (.comObject i a) ptr h r.2)) ↔
      n < Refcount.capacity mode := by
  unfold Conforms
  rw [if_pos granted]
  constructor
  · rintro ⟨h', result, next⟩
    obtain ⟨⟨count, left⟩, added, answered⟩ := Option.map_eq_some_iff.mp result
    cases answered
    have stored := image.counted.refCount.symm.trans next.refCount
    cases stored
    exact Refcount.lt_capacity_of_add added
  · intro room
    rw [Refcount.add_eq room]
    exact ⟨_, rfl, image.counted⟩

theorem not_conforms_of_refused (expected : riid = iidIUnknown ∨ riid ∈ i.iids) :
    ¬Conforms tgt T i a ptr n riid h (some (⟨statusNoInterface, some 0⟩, h)) := by
  unfold Conforms
  rw [if_pos expected]
  rintro ⟨h', result, -⟩
  have status : statusNoInterface = statusSuccess :=
    congrArg Answer.status (Prod.mk.inj (Option.some.inj result)).1
  exact absurd status (by decide)

/-- **`QueryInterface` on a chain.** The answer is the expected one exactly when
the IID is not that of one of `I2`, ..., `Ik` (`IUnknown`'s aside) and, for the
IIDs that are granted, the counter has room for the reference. -/
theorem query_interface_chain (image : Image tgt T (.comObject i a) ptr n h.mem)
    (derived : i ≠ .iUnknown) (distinct : i.iids.Nodup)
    (single : ∀ j ∈ i.chain, T.form j = .single) (nonnull : ptr ≠ 0) :
    Conforms tgt T i a ptr n riid h
        (invokeQueryInterface mode outer tgt T ptr (some riid) true h) ↔
      (riid = iidIUnknown ∨ riid ∉ i.laterIids) ∧
        (riid = iidIUnknown ∨ riid = i.base.iid → n < Refcount.capacity mode) := by
  rw [invokeQueryInterface_eq image derived single nonnull]
  have split : riid ∈ i.iids ↔ riid ∈ i.laterIids ∨ riid = i.base.iid := by
    rw [Interface.iids_eq derived, List.mem_append, List.mem_singleton]
  by_cases granted : riid = iidIUnknown ∨ riid = i.base.iid
  · have expected : riid = iidIUnknown ∨ riid ∈ i.iids :=
      granted.imp_right fun base => split.mpr (.inr base)
    have early : riid = iidIUnknown ∨ riid ∉ i.laterIids := by
      refine granted.imp_right fun base later => ?_
      rw [Interface.iids_eq derived] at distinct
      exact (List.nodup_append.mp distinct).2.2 _ later _ (List.mem_singleton.mpr rfl) base
    rw [if_pos granted, conforms_of_granted image expected]
    simp only [early, granted, true_and, forall_const]
  · -- The search has failed: right for a foreign IID, wrong for one of `I2`, ..., `Ik`.
    rw [if_neg granted]
    obtain ⟨unknown, base⟩ := not_or.mp granted
    by_cases later : riid ∈ i.laterIids
    · have expected : riid = iidIUnknown ∨ riid ∈ i.iids := .inr (split.mpr (.inl later))
      simp only [not_conforms_of_refused expected, unknown, later, not_true, or_self, false_and]
    · unfold Conforms
      simp only [unknown, base, split, later, if_false, or_self, not_false_iff, or_true,
        false_implies, and_self]

end Chain

/-! ## A chain of two -/

namespace Pair

/-- `I1: IUnknown`. -/
def i1 : Interface :=
  .derived (.ofData1 1) [⟨"first", false⟩] .iUnknown

/-- `I2: I1`. -/
def i2 : Interface :=
  .derived (.ofData1 2) [⟨"second", false⟩] i1

/-- A `T` of one word that implements both with `impl_com_interface!`. -/
def impl : Impl where
  layout := Width.w64.pointer
  form _ := .single

/-- `ComObject::<T, I2Vtbl>`. -/
def object : Object where
  primary := i2
  secondaries := []
  alloc := .global

theorem image {m : Mem Cell} :
    Image (.packed .w64) impl (.comObject i2 .globalAllocator) 0x1000 1
      (constructed (.packed .w64) impl (.comObject i2 .globalAllocator) object.alloc 0x1000 m) :=
  image_constructed

end Pair

/-- `I1` is found on an object of `I2`. -/
theorem query_interface_finds_base :
    ∃ h, tryNewIn (.packed .w64) Pair.impl Pair.object 0x1000 .empty = some (0x1000, h) ∧
      Conforms (.packed .w64) Pair.impl Pair.i2 .globalAllocator 0x1000 1 (.ofData1 1) h
        (invokeQueryInterface .off .absent (.packed .w64) Pair.impl 0x1000
          (some (.ofData1 1)) true h) := by
  have made : tryNewIn (.packed .w64) Pair.impl Pair.object 0x1000 .empty =
      some (0x1000, _) := rfl
  refine ⟨_, made, ?_⟩
  apply (query_interface_chain Pair.image (by decide) (by decide) (fun _ _ => rfl)
    (by decide)).mpr
  exact ⟨.inr (by decide), fun _ => by decide⟩

/-- `I2` itself is not: `QueryInterface` of an object of `I2` for `I2` answers
`STATUS_NOINTERFACE`. -/
theorem query_interface_misses_own :
    ∃ h, tryNewIn (.packed .w64) Pair.impl Pair.object 0x1000 .empty = some (0x1000, h) ∧
      invokeQueryInterface .off .absent (.packed .w64) Pair.impl 0x1000
        (some (.ofData1 2)) true h = some (⟨statusNoInterface, some 0⟩, h) ∧
      ¬Conforms (.packed .w64) Pair.impl Pair.i2 .globalAllocator 0x1000 1 (.ofData1 2) h
        (invokeQueryInterface .off .absent (.packed .w64) Pair.impl 0x1000
          (some (.ofData1 2)) true h) := by
  have made : tryNewIn (.packed .w64) Pair.impl Pair.object 0x1000 .empty =
      some (0x1000, _) := rfl
  refine ⟨_, made, ?_, ?_⟩
  all_goals
    rw [invokeQueryInterface_eq Pair.image (by decide) (fun _ _ => rfl) (by decide),
      if_neg (by decide)]
  exact not_conforms_of_refused (by decide)

end Kcom.Com
