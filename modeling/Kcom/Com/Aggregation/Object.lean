import Kcom.Com.Inheritance

/-!
# Aggregated objects

`try_new_aggregated_in` of `ComObject` (`src/wrapper.rs`) builds the object that
`try_new_in` builds, with an outer unknown in it, and returns the address of its
non-delegating `IUnknown`. The object then answers through two vtables: the shims in the
first forward every call to the outer unknown, those in the second count in the object
and find pointers that are answered by the first.
-/

namespace Kcom.Com

open ReprC

/-- A value of an allocator type of size 0 is what `ptr::read` makes of no bytes. -/
theorem Allocator.eq_of_unit {alloc : Allocator} (unit : alloc.ty.layout.size = 0) :
    (⟨alloc.ty, 0, fun _ => rfl⟩ : Allocator) = alloc := by
  obtain ⟨ty, value, zero⟩ := alloc
  obtain rfl := zero unit
  rfl

section Construction

variable (tgt : Target) (T : Impl)

/-- `ptr.write(Self { .. })` in `try_new_aggregated_in`. -/
def storeAggregated (c : Container) (alloc : Allocator) (outerUnknown ptr : Nat) :
    List (Nat × Cell) :=
  [(ptr + c.offset tgt T.layout .vtable, .vtable (T.vtable c.primary)),
    (ptr + c.offset tgt T.layout .nonDelegatingUnknown, .vtable (.iUnknown (.nonDelegating c))),
    (ptr + c.offset tgt T.layout .nonDelegatingUnknown + tgt.width.bytes, .ptr 0),
    (ptr + c.offset tgt T.layout .refCount, .count 1),
    (ptr + c.offset tgt T.layout .outerUnknown, .outer (some outerUnknown))] ++
    sized T.layout (ptr + c.offset tgt T.layout .inner) .inner ++
    sized alloc.ty.layout (ptr + c.offset tgt T.layout .alloc) (.alloc alloc)

/-- `try_new_aggregated_in`. `got` is what `alloc.alloc` returns. -/
def tryNewAggregatedIn (i : Interface) (alloc : Allocator) (outerUnknown got : Nat) (h : Heap) :
    Option (Nat × Heap) :=
  let c := Container.comObject i alloc.ty
  let allocs := h.allocs ++ [⟨alloc, c.layout tgt T.layout, got⟩]
  if got = 0 then none
  else
    let mem := h.mem.writeAll (storeAggregated tgt T c alloc outerUnknown got)
    -- `init_non_delegating_ptr`
    let mem := mem.write (got + c.offset tgt T.layout .nonDelegatingUnknown + tgt.width.bytes)
      (.ptr got)
    some (got + c.offset tgt T.layout .nonDelegatingUnknown,
      { h with mem := mem, allocs := allocs })

end Construction

/-- An aggregated object with an outer unknown that is not null, whose interfaces `T`
implements with `impl_com_interface!`: what it is built from, and its address. -/
structure Aggregated (T : Impl) where
  i : Interface
  alloc : Allocator
  outerUnknown : Nat
  ptr : Nat
  single : ∀ j ∈ i.chain, T.form j = .single
  delegates : outerUnknown ≠ 0
  nonnull : ptr ≠ 0

namespace Aggregated

variable {T : Impl} (x : Aggregated T) (tgt : Target)

def container : Container :=
  .comObject x.i x.alloc.ty

/-- The non-delegating pointer, `&(*ptr).non_delegating_unknown`. -/
def nonDelegating : Nat :=
  x.ptr + x.container.offset tgt T.layout .nonDelegatingUnknown

/-- The address of `ref_count`. -/
def refCount : Nat :=
  x.ptr + x.container.offset tgt T.layout .refCount

/-- The address of `inner`. -/
def inner : Nat :=
  x.ptr + x.container.offset tgt T.layout .inner

/-- The address belongs to the object's block, and not to `inner`, where the methods of `T`
may write. -/
def Inside (a : Nat) : Prop :=
  (x.ptr ≤ a ∧ a < x.ptr + (x.container.layout tgt T.layout).size) ∧
    ¬(x.inner tgt ≤ a ∧ a < x.inner tgt + T.layout.size)

/-- The object as its constructor has built it, with the count `n`. -/
structure Stands (n : Nat) (h : Heap) : Prop where
  vtable : h.vtableAt x.ptr = some (.new x.i)
  nonDelegatingVtable :
    h.vtableAt (x.nonDelegating tgt) = some (.iUnknown (.nonDelegating x.container))
  nonDelegatingParent : parentFromPtr tgt (x.nonDelegating tgt) h = some x.ptr
  refCount : h.countAt (x.refCount tgt) = some n
  outerUnknown : h.outerAt (x.ptr + x.container.offset tgt T.layout .outerUnknown) =
    some (some x.outerUnknown)
  alloc : h.allocAt (x.ptr + x.container.offset tgt T.layout .alloc) x.alloc.ty = some x.alloc

variable {x tgt} {n k : Nat} {h h' : Heap}

/-! ## The fields -/

theorem offset_nonDelegatingUnknown :
    x.container.offset tgt T.layout .nonDelegatingUnknown = tgt.width.bytes :=
  Container.offset_nonDelegatingUnknown

theorem offset_refCount : x.container.offset tgt T.layout .refCount = 3 * tgt.width.bytes :=
  Container.offset_refCount

theorem offset_outerUnknown :
    x.container.offset tgt T.layout .outerUnknown = 4 * tgt.width.bytes :=
  Container.offset_outerUnknown

theorem nonDelegating_eq : x.nonDelegating tgt = x.ptr + tgt.width.bytes := by
  rw [nonDelegating, offset_nonDelegatingUnknown]

theorem refCount_eq : x.refCount tgt = x.ptr + 3 * tgt.width.bytes := by
  rw [refCount, offset_refCount]

theorem le_offset_inner : 6 * tgt.width.bytes ≤ x.container.offset tgt T.layout .inner :=
  offset_inner_le tgt T x.container

/-- The allocator stands behind `inner`. -/
theorem inner_le_alloc : x.container.offset tgt T.layout .inner + T.layout.size ≤
    x.container.offset tgt T.layout .alloc := by
  rw [Container.offset_alloc]
  exact le_roundUp x.container.alloc.layout.align_pos

/-- The fields before `inner` take six words. -/
theorem words_inside : 6 * tgt.width.bytes ≤ (x.container.layout tgt T.layout).size := by
  have field : (Field.inner, T.layout) ∈ x.container.fields tgt T.layout := by
    simp [container, Container.fields, Container.commonFields]
  have ends := Container.offset_inside field
  have starts : 6 * tgt.width.bytes ≤ x.container.offset tgt T.layout .inner := le_offset_inner
  omega

/-- An allocator that has bytes is stored in the block. -/
theorem alloc_inside :
    x.container.offset tgt T.layout .alloc + x.alloc.ty.layout.size ≤
      (x.container.layout tgt T.layout).size := by
  apply Container.offset_inside
  simp [container, Container.fields, Container.commonFields]

/-- The object stands as long as its fields are left alone, the counter and `inner` apart. -/
theorem Stands.of_agree (stands : x.Stands tgt n h)
    (agree : ∀ a, x.Inside tgt a → a ≠ x.refCount tgt → h'.mem a = h.mem a)
    (counts : h'.countAt (x.refCount tgt) = some k) : x.Stands tgt k h' := by
  have word := tgt.width.bytes_pos
  have words : 6 * tgt.width.bytes ≤ (x.container.layout tgt T.layout).size := words_inside
  have starts : 6 * tgt.width.bytes ≤ x.container.offset tgt T.layout .inner := le_offset_inner
  have near {offset : Nat} (inside : offset < 6 * tgt.width.bytes)
      (apart : offset ≠ 3 * tgt.width.bytes) :
      h'.mem (x.ptr + offset) = h.mem (x.ptr + offset) := by
    apply agree
    · refine ⟨⟨Nat.le_add_right _ _, by omega⟩, ?_⟩
      rw [inner]
      omega
    · rw [refCount_eq]
      omega
  refine ⟨?_, ?_, ?_, counts, ?_, ?_⟩
  · have here : h'.mem (x.ptr + 0) = h.mem (x.ptr + 0) := near (by omega) (by omega)
    have loads : h'.vtableAt x.ptr = h.vtableAt x.ptr := by
      rw [Heap.vtableAt, Heap.vtableAt, ← Nat.add_zero x.ptr, here]
    exact loads.trans stands.vtable
  · have loads : h'.vtableAt (x.nonDelegating tgt) = h.vtableAt (x.nonDelegating tgt) := by
      rw [Heap.vtableAt, Heap.vtableAt, nonDelegating_eq, near (by omega) (by omega)]
    exact loads.trans stands.nonDelegatingVtable
  · have loads : parentFromPtr tgt (x.nonDelegating tgt) h' =
        parentFromPtr tgt (x.nonDelegating tgt) h := by
      rw [parentFromPtr, parentFromPtr, Heap.ptrAt, Heap.ptrAt, nonDelegating_eq, Nat.add_assoc,
        near (by omega) (by omega)]
    exact loads.trans stands.nonDelegatingParent
  · have loads : h'.outerAt (x.ptr + x.container.offset tgt T.layout .outerUnknown) =
        h.outerAt (x.ptr + x.container.offset tgt T.layout .outerUnknown) := by
      rw [Heap.outerAt, Heap.outerAt, offset_outerUnknown, near (by omega) (by omega)]
    exact loads.trans stands.outerUnknown
  · have stored := stands.alloc
    have inside : x.container.offset tgt T.layout .alloc + x.alloc.ty.layout.size ≤
        (x.container.layout tgt T.layout).size := alloc_inside
    have behind : x.container.offset tgt T.layout .inner + T.layout.size ≤
        x.container.offset tgt T.layout .alloc := inner_le_alloc
    unfold Heap.allocAt at stored ⊢
    split
    case isTrue unit => rwa [if_pos unit] at stored
    case isFalse bytes =>
      rw [if_neg bytes] at stored
      rw [agree]
      · exact stored
      · refine ⟨⟨Nat.le_add_right _ _, by omega⟩, ?_⟩
        rw [inner]
        omega
      · rw [refCount_eq]
        omega

variable (x tgt) in
/-- The object's counter set to `n`. -/
def counted (n : Nat) (h : Heap) : Heap :=
  h.write (x.refCount tgt) (.count n)

theorem countAt_counted : (x.counted tgt k h).countAt (x.refCount tgt) = some k := by
  simp [counted, Heap.countAt, Heap.write]

theorem Stands.counted (stands : x.Stands tgt n h) : x.Stands tgt k (x.counted tgt k h) := by
  apply stands.of_agree
  · intro a _ apart
    exact Mem.write_of_ne apart
  · exact countAt_counted

/-! ## Construction -/

/-- Where the stores of the struct go. -/
theorem mem_storeAggregated {w : Nat × Cell}
    (mem : w ∈ storeAggregated tgt T x.container x.alloc x.outerUnknown x.ptr) :
    w = (x.ptr, .vtable (T.vtable x.i)) ∨
    w = (x.ptr + tgt.width.bytes, .vtable (.iUnknown (.nonDelegating x.container))) ∨
    w = (x.ptr + tgt.width.bytes + tgt.width.bytes, .ptr 0) ∨
    w = (x.ptr + 3 * tgt.width.bytes, .count 1) ∨
    w = (x.ptr + 4 * tgt.width.bytes, .outer (some x.outerUnknown)) ∨
    (w = (x.inner tgt, .inner) ∧ T.layout.size ≠ 0) ∨
    w = (x.ptr + x.container.offset tgt T.layout .alloc, .alloc x.alloc) := by
  simp only [storeAggregated, sized, Container.offset_vtable, offset_nonDelegatingUnknown,
    offset_refCount, offset_outerUnknown, Nat.add_zero, List.mem_append, List.mem_cons,
    List.not_mem_nil, or_false] at mem
  rcases mem with (first | inner) | alloc
  · rcases first with eq | eq | eq | eq | eq
    · exact .inl eq
    · exact .inr (.inl eq)
    · exact .inr (.inr (.inl eq))
    · exact .inr (.inr (.inr (.inl eq)))
    · exact .inr (.inr (.inr (.inr (.inl eq))))
  · split at inner
    · cases inner
    · exact .inr (.inr (.inr (.inr (.inr (.inl ⟨List.mem_singleton.mp inner, ‹_›⟩)))))
  · split at alloc
    · cases alloc
    · exact .inr (.inr (.inr (.inr (.inr (.inr (List.mem_singleton.mp alloc))))))

/-- No two stores of the struct go to one address. -/
theorem storeAggregated_functional {w v : Nat × Cell}
    (wMem : w ∈ storeAggregated tgt T x.container x.alloc x.outerUnknown x.ptr)
    (vMem : v ∈ storeAggregated tgt T x.container x.alloc x.outerUnknown x.ptr)
    (same : w.1 = v.1) : w.2 = v.2 := by
  have word := tgt.width.bytes_pos
  have starts : 6 * tgt.width.bytes ≤ x.container.offset tgt T.layout .inner := le_offset_inner
  have behind : x.container.offset tgt T.layout .inner + T.layout.size ≤
      x.container.offset tgt T.layout .alloc := inner_le_alloc
  have inner : x.inner tgt = x.ptr + x.container.offset tgt T.layout .inner := rfl
  rcases mem_storeAggregated wMem with rfl | rfl | rfl | rfl | rfl | ⟨rfl, size⟩ | rfl
  all_goals
    rcases mem_storeAggregated vMem with rfl | rfl | rfl | rfl | rfl | ⟨rfl, size'⟩ | rfl
  all_goals first
    | rfl
    | (simp only [inner] at same; omega)

variable (x tgt) in
/-- The memory `try_new_aggregated_in` leaves. -/
def constructed (m : Mem Cell) : Mem Cell :=
  (m.writeAll (storeAggregated tgt T x.container x.alloc x.outerUnknown x.ptr)).write
    (x.nonDelegating tgt + tgt.width.bytes) (.ptr x.ptr)

theorem constructed_of_mem {m : Mem Cell} {a : Nat} {c : Cell}
    (mem : (a, c) ∈ storeAggregated tgt T x.container x.alloc x.outerUnknown x.ptr)
    (ne : a ≠ x.nonDelegating tgt + tgt.width.bytes) : x.constructed tgt m a = some c := by
  rw [constructed, Mem.write_of_ne ne]
  apply Mem.writeAll_of_mem mem
  intro w other same
  exact storeAggregated_functional other mem same

/-- What a successful `try_new_aggregated_in` did. -/
theorem tryNewAggregatedIn_eq :
    tryNewAggregatedIn tgt T x.i x.alloc x.outerUnknown x.ptr h =
      some (x.nonDelegating tgt,
        { h with
          mem := x.constructed tgt h.mem
          allocs := h.allocs ++ [⟨x.alloc, x.container.layout tgt T.layout, x.ptr⟩] }) := by
  rw [tryNewAggregatedIn, if_neg x.nonnull]
  rfl

theorem vtable_eq : T.vtable x.i = .new x.i := by
  cases shape : x.i with
  | iUnknown => rfl
  | derived iid own parent =>
      apply vtable_single
      apply x.single
      rw [shape]
      exact Interface.mem_chain Interface.noConfusion

/-- **The constructor builds the object.** -/
theorem stands_constructed {allocs : List Alloc} :
    x.Stands tgt 1 { h with mem := x.constructed tgt h.mem, allocs := allocs } := by
  have word := tgt.width.bytes_pos
  refine ⟨?_, ?_, ?_, ?_, ?_, ?_⟩
  · apply vtableAt_of
    rw [← vtable_eq]
    apply constructed_of_mem
    · simp [storeAggregated, Container.offset_vtable, container, Container.primary]
    · rw [nonDelegating_eq]
      omega
  · apply vtableAt_of
    apply constructed_of_mem
    · simp [storeAggregated, nonDelegating]
    · omega
  · apply ptrAt_of
    exact Mem.write_same
  · have stored : x.constructed tgt h.mem (x.refCount tgt) = some (.count 1) := by
      apply constructed_of_mem
      · simp [storeAggregated, refCount]
      · rw [nonDelegating_eq, refCount_eq]
        omega
    simp [Heap.countAt, stored]
  · have stored : x.constructed tgt h.mem (x.ptr + x.container.offset tgt T.layout .outerUnknown) =
        some (.outer (some x.outerUnknown)) := by
      apply constructed_of_mem
      · simp [storeAggregated]
      · rw [nonDelegating_eq, offset_outerUnknown]
        omega
    simp [Heap.outerAt, stored]
  · unfold Heap.allocAt
    split
    case isTrue unit => rw [Allocator.eq_of_unit unit]
    case isFalse bytes =>
      have stored : x.constructed tgt h.mem (x.ptr + x.container.offset tgt T.layout .alloc) =
          some (.alloc x.alloc) := by
        apply constructed_of_mem
        · simp [storeAggregated, sized, bytes]
        · have starts : 6 * tgt.width.bytes ≤ x.container.offset tgt T.layout .inner :=
            le_offset_inner
          have behind : x.container.offset tgt T.layout .inner + T.layout.size ≤
              x.container.offset tgt T.layout .alloc := inner_le_alloc
          rw [nonDelegating_eq]
          omega
      simp only [stored, if_true]

end Aggregated

end Kcom.Com
