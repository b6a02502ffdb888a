import Kcom.Com.Vtable
import Kcom.ReprC.Memory

/-!
# The two containers in memory

`ComObject` and `ComObjectN` of `src/wrapper.rs`: the offsets of their
`repr(C)` fields, and the stores of `try_new_in`. The containers differ in one
field, the tuple of secondary entries behind the vtable, so every later offset
is that of `ComObject` moved by the size of the tuple (`Container.shift`), up to
the alignment of `T`.
-/

namespace Kcom.Com

open ReprC

/-! ## Layouts -/

/-- The pointer width of the target. -/
inductive Width
  | w32
  | w64
  deriving DecidableEq, Repr

namespace Width

/-- Bytes of a pointer. -/
def bytes : Width → Nat
  | .w32 => 4
  | .w64 => 8

theorem bytes_pos (w : Width) : 0 < w.bytes := by
  cases w <;> decide

theorem four_dvd_bytes (w : Width) : 4 ∣ w.bytes := by
  cases w <;> decide

/-- `&'static I`. -/
def pointer (w : Width) : Layout :=
  ⟨w.bytes, w.bytes, w.bytes_pos, Nat.dvd_refl _⟩

/-- Two words: a vtable and a `parent` pointer, or an `Option<*mut c_void>`,
which has no niche to keep its tag in. -/
def pair (w : Width) : Layout :=
  ⟨2 * w.bytes, w.bytes, w.bytes_pos, Nat.dvd_mul_left _ _⟩

end Width

/-- `AtomicU32`. -/
def atomicU32 : Layout :=
  ⟨4, 4, by decide, Nat.dvd_refl 4⟩

/-- The compilation target: the pointer width, and how the compiler lays out the
tuple of secondary entries of a `ComObjectN`. -/
structure Target where
  width : Width
  entries : (s : List Interface) → Tuple width.pair s.length

/-- Tuples laid out in order. -/
def Target.packed (width : Width) : Target where
  width := width
  entries s := Tuple.packed width.pair s.length

inductive Field
  | vtable
  | secondaries
  | nonDelegatingUnknown
  | refCount
  | outerUnknown
  | inner
  | alloc
  deriving DecidableEq, Repr

namespace Container

variable (tgt : Target) (T : Layout)

/-- The fields both containers end with. -/
def commonFields (a : AllocTy) : List (Field × Layout) :=
  [(.nonDelegatingUnknown, tgt.width.pair), (.refCount, atomicU32),
    (.outerUnknown, tgt.width.pair), (.inner, T), (.alloc, a.layout)]

/-- The fields of the container, in the order of the source. -/
def fields : Container → List (Field × Layout)
  | .comObject _ a => (.vtable, tgt.width.pointer) :: commonFields tgt T a
  | .comObjectN _ s a =>
      (.vtable, tgt.width.pointer) :: (.secondaries, (tgt.entries s).layout) ::
        commonFields tgt T a

/-- The offset of a field of the container. -/
def offset (c : Container) (f : Field) : Nat :=
  (offsetOf (c.fields tgt T) f).getD 0

/-- `LAYOUT`. -/
def layout (c : Container) : Layout :=
  structLayout (c.fields tgt T)

/-- What the secondary entries add to the offsets behind them. -/
def shift : Container → Nat
  | .comObject _ _ => 0
  | .comObjectN _ s _ => (tgt.entries s).size

variable {tgt T} {c : Container}

theorem layout_pos : 0 < (c.layout tgt T).size := by
  have word := tgt.width.bytes_pos
  have first : tgt.width.bytes ≤ (c.layout tgt T).size := by
    cases c with
    | comObject i a => exact size_le_structLayout (.vtable, tgt.width.pointer) _
    | comObjectN p s a => exact size_le_structLayout (.vtable, tgt.width.pointer) _
  omega

theorem dvd_shift : tgt.width.bytes ∣ c.shift tgt := by
  cases c with
  | comObject i a => exact Nat.dvd_zero _
  | comObjectN p s a => exact (tgt.entries s).size_dvd

/-- A `ComObjectN` is laid out differently from a `ComObject`. -/
theorem shift_pos (some : c.secondaries ≠ []) : 2 * tgt.width.bytes ≤ c.shift tgt := by
  cases c with
  | comObject i a => exact absurd rfl some
  | comObjectN p s a => exact (tgt.entries s).size_le (List.length_pos_iff.mpr some)

theorem roundUp_word {w : Width} {k : Nat} (mult : w.bytes ∣ k) : roundUp k w.bytes = k :=
  roundUp_of_dvd w.bytes_pos mult

theorem offset_vtable : c.offset tgt T .vtable = 0 := by
  have start : roundUp 0 tgt.width.bytes = 0 := roundUp_word (Nat.dvd_zero _)
  cases c <;> simp [offset, offsetOf, fields, Width.pointer, start]

theorem offset_secondaries {p : Interface} {s : List Interface} {a : AllocTy} :
    (comObjectN p s a).offset tgt T .secondaries = tgt.width.bytes := by
  have start : roundUp 0 tgt.width.bytes = 0 := roundUp_word (Nat.dvd_zero _)
  have next : roundUp tgt.width.bytes tgt.width.bytes = tgt.width.bytes :=
    roundUp_word (Nat.dvd_refl _)
  simp [offset, offsetOf, fields, place, Width.pointer, Width.pair, Tuple.layout, start, next]

/-- The common fields start behind the vtable and the entries. -/
theorem offset_common {f : Field} (vtable : f ≠ .vtable) (secondaries : f ≠ .secondaries) :
    c.offset tgt T f =
      (place f (tgt.width.bytes + c.shift tgt) (commonFields tgt T c.alloc)).getD 0 := by
  have start : roundUp 0 tgt.width.bytes = 0 := roundUp_word (Nat.dvd_zero _)
  have next : roundUp tgt.width.bytes tgt.width.bytes = tgt.width.bytes :=
    roundUp_word (Nat.dvd_refl _)
  cases c with
  | comObject i a =>
      simp only [offset, offsetOf, fields, place_of_ne vtable.symm, Width.pointer, start, shift,
        alloc, Nat.zero_add, Nat.add_zero]
  | comObjectN p s a =>
      simp only [offset, offsetOf, fields, place_of_ne vtable.symm, place_of_ne secondaries.symm,
        Width.pointer, Width.pair, Tuple.layout, start, next, shift, alloc, Nat.zero_add]

/-! The rounding on the way to each of the common fields. -/

section Common

variable {k : Nat} {a : AllocTy} (mult : tgt.width.bytes ∣ k)

include mult

theorem place_nonDelegatingUnknown :
    place .nonDelegatingUnknown (tgt.width.bytes + k) (commonFields tgt T a) =
      some (tgt.width.bytes + k) := by
  have here : roundUp (tgt.width.bytes + k) tgt.width.bytes = tgt.width.bytes + k :=
    roundUp_word (Nat.dvd_add (Nat.dvd_refl _) mult)
  simp [commonFields, Width.pair, here]

theorem place_refCount {f : Field} (ne : f ≠ .nonDelegatingUnknown) :
    place f (tgt.width.bytes + k) (commonFields tgt T a) =
      place f (3 * tgt.width.bytes + k) (commonFields tgt T a).tail := by
  have here : roundUp (tgt.width.bytes + k) tgt.width.bytes = tgt.width.bytes + k :=
    roundUp_word (Nat.dvd_add (Nat.dvd_refl _) mult)
  have finish : tgt.width.bytes + k + 2 * tgt.width.bytes = 3 * tgt.width.bytes + k := by omega
  simp only [commonFields, place_of_ne ne.symm, Width.pair, here, finish, List.tail_cons]

/-- The `AtomicU32` needs no padding before it. -/
theorem roundUp_refCount : roundUp (3 * tgt.width.bytes + k) 4 = 3 * tgt.width.bytes + k := by
  have four := tgt.width.four_dvd_bytes
  exact roundUp_of_dvd (by decide) (Nat.dvd_add (four.mul_left 3) (four.trans mult))

/-- The `AtomicU32` and the padding behind it take one word. -/
theorem roundUp_outerUnknown :
    roundUp (3 * tgt.width.bytes + k + 4) tgt.width.bytes = 4 * tgt.width.bytes + k := by
  have pos := tgt.width.bytes_pos
  have four : 4 ≤ tgt.width.bytes := Nat.le_of_dvd pos tgt.width.four_dvd_bytes
  exact roundUp_eq (Nat.dvd_add (Nat.dvd_mul_left _ _) mult) (by omega) (by omega)

end Common

theorem offset_nonDelegatingUnknown :
    c.offset tgt T .nonDelegatingUnknown = tgt.width.bytes + c.shift tgt := by
  rw [offset_common (by decide) (by decide), place_nonDelegatingUnknown dvd_shift]
  rfl

theorem offset_refCount : c.offset tgt T .refCount = 3 * tgt.width.bytes + c.shift tgt := by
  rw [offset_common (by decide) (by decide), place_refCount dvd_shift (by decide)]
  simp [commonFields, atomicU32, roundUp_refCount dvd_shift]

theorem offset_outerUnknown :
    c.offset tgt T .outerUnknown = 4 * tgt.width.bytes + c.shift tgt := by
  rw [offset_common (by decide) (by decide), place_refCount dvd_shift (by decide)]
  simp [commonFields, place, atomicU32, Width.pair, roundUp_refCount dvd_shift,
    roundUp_outerUnknown dvd_shift]

/-- `inner` is the first field whose padding depends on `T`. -/
theorem offset_inner :
    c.offset tgt T .inner = roundUp (6 * tgt.width.bytes + c.shift tgt) T.align := by
  have finish : 4 * tgt.width.bytes + c.shift tgt + 2 * tgt.width.bytes =
      6 * tgt.width.bytes + c.shift tgt := by omega
  rw [offset_common (by decide) (by decide), place_refCount dvd_shift (by decide)]
  simp [commonFields, place, atomicU32, Width.pair, roundUp_refCount dvd_shift,
    roundUp_outerUnknown dvd_shift, finish]

theorem offset_alloc :
    c.offset tgt T .alloc = roundUp (c.offset tgt T .inner + T.size) c.alloc.layout.align := by
  have finish : 4 * tgt.width.bytes + c.shift tgt + 2 * tgt.width.bytes =
      6 * tgt.width.bytes + c.shift tgt := by omega
  rw [offset_inner, offset_common (by decide) (by decide), place_refCount dvd_shift (by decide)]
  simp [commonFields, place, atomicU32, Width.pair, roundUp_refCount dvd_shift,
    roundUp_outerUnknown dvd_shift, finish]

/-- The fields of a container have different names. -/
theorem fields_distinct : ((c.fields tgt T).map Prod.fst).Nodup := by
  cases c with
  | comObject i a => simp [fields, commonFields]
  | comObjectN p s a => simp [fields, commonFields]

theorem offset_inside {f : Field} {l : Layout} (mem : (f, l) ∈ c.fields tgt T) :
    c.offset tgt T f + l.size ≤ (c.layout tgt T).size :=
  offsetOf_inside mem fields_distinct

/-! ### The secondary entries -/

variable (tgt T) in
/-- The offset of the secondary entry of an index. -/
def entryOffset : (c : Container) → Fin c.secondaries.length → Nat
  | .comObject _ _, i => i.elim0
  | .comObjectN p s a, i =>
      (comObjectN p s a).offset tgt T .secondaries + (tgt.entries s).offset i

variable (tgt T) in
theorem entryOffset_bounds (i : Fin c.secondaries.length) :
    tgt.width.bytes ≤ c.entryOffset tgt T i ∧
      c.entryOffset tgt T i + 2 * tgt.width.bytes ≤ tgt.width.bytes + c.shift tgt := by
  cases c with
  | comObject _ _ => exact i.elim0
  | comObjectN p s a =>
      have inside := (tgt.entries s).inside i
      simp only [Width.pair] at inside
      simp only [entryOffset, offset_secondaries, shift]
      omega

variable (tgt T) in
theorem entryOffset_apart {i j : Fin c.secondaries.length} (ne : i ≠ j) :
    c.entryOffset tgt T i + 2 * tgt.width.bytes ≤ c.entryOffset tgt T j ∨
      c.entryOffset tgt T j + 2 * tgt.width.bytes ≤ c.entryOffset tgt T i := by
  cases c with
  | comObject _ _ => exact i.elim0
  | comObjectN p s a =>
      have apart := (tgt.entries s).apart i j ne
      simp only [Width.pair] at apart
      simp only [entryOffset]
      omega

end Container

/-! ## Memory -/

/-- A value stored in a field. -/
inductive Cell
  | vtable (v : Vtbl)
  | ptr (a : Nat)
  | count (n : Nat)
  | outer (o : Option Nat)
  | inner
  | alloc (a : Allocator)
  deriving DecidableEq

/-- A call of `Allocator::dealloc`. -/
structure Dealloc where
  allocator : Allocator
  ptr : Nat
  layout : Layout
  deriving DecidableEq

/-- A call of `Allocator::alloc`, with the address it returned. -/
structure Alloc where
  allocator : Allocator
  layout : Layout
  ptr : Nat
  deriving DecidableEq

/-- Memory, and the calls that were made on allocators and on `T`. `drops` lists
the addresses at which a `T` was dropped in place. -/
structure Heap where
  mem : Mem Cell
  allocs : List Alloc
  deallocs : List Dealloc
  drops : List Nat

namespace Heap

/-- Nothing allocated. -/
def empty : Heap :=
  ⟨fun _ => none, [], [], []⟩

variable (h : Heap) (a : Nat)

def vtableAt : Option Vtbl :=
  match h.mem a with
  | some (.vtable v) => some v
  | _ => none

def ptrAt : Option Nat :=
  match h.mem a with
  | some (.ptr p) => some p
  | _ => none

def countAt : Option Nat :=
  match h.mem a with
  | some (.count n) => some n
  | _ => none

def outerAt : Option (Option Nat) :=
  match h.mem a with
  | some (.outer o) => some o
  | _ => none

/-- `ptr::read` of an allocator. A value of size 0 is read from no memory. -/
def allocAt (ty : AllocTy) : Option Allocator :=
  if ty.layout.size = 0 then some ⟨ty, 0, fun _ => rfl⟩
  else
    match h.mem a with
    | some (.alloc v) => if v.ty = ty then some v else none
    | _ => none

def write (c : Cell) : Heap :=
  { h with mem := h.mem.write a c }

/-- `drop_in_place` of the `T` at `a`. What its `Drop` does is left out: it makes
no call on the object. -/
def dropInner : Heap :=
  { h with drops := h.drops ++ [a] }

def dealloc (allocator : Allocator) (layout : Layout) : Heap :=
  { h with
    mem := h.mem.free a layout.size
    deallocs := h.deallocs ++ [⟨allocator, a, layout⟩] }

end Heap

/-! ## Construction -/

/-- What `try_new_in` is called with: with no secondary interface it is
`ComObject`'s, else `ComObjectN`'s. -/
structure Object where
  primary : Interface
  secondaries : List Interface
  alloc : Allocator

/-- The container that is built. -/
def Object.container (o : Object) : Container :=
  match o.secondaries with
  | [] => .comObject o.primary o.alloc.ty
  | i :: rest => .comObjectN o.primary (i :: rest) o.alloc.ty

section Construction

variable (tgt : Target) (T : Impl)

/-- The store of a field, none if the field has no bytes. -/
def sized (l : Layout) (a : Nat) (c : Cell) : List (Nat × Cell) :=
  if l.size = 0 then [] else [(a, c)]

/-- `T::secondary_entries`, stored as part of the struct. -/
def storeEntries (c : Container) (ptr : Nat) : List (Nat × Cell) :=
  (List.finRange c.secondaries.length).flatMap fun i =>
    [(ptr + c.entryOffset tgt T.layout i, .vtable (T.vtable (c.secondaries.get i))),
      (ptr + c.entryOffset tgt T.layout i + tgt.width.bytes, .ptr 0)]

/-- `ptr.write(Self { .. })`. -/
def storeFields (c : Container) (alloc : Allocator) (ptr : Nat) : List (Nat × Cell) :=
  (ptr + c.offset tgt T.layout .vtable, .vtable (T.vtable c.primary)) ::
    (storeEntries tgt T c ptr ++
      [(ptr + c.offset tgt T.layout .nonDelegatingUnknown,
          .vtable (.iUnknown (.nonDelegating c))),
        (ptr + c.offset tgt T.layout .nonDelegatingUnknown + tgt.width.bytes, .ptr 0),
        (ptr + c.offset tgt T.layout .refCount, .count 1),
        (ptr + c.offset tgt T.layout .outerUnknown, .outer none)] ++
      sized T.layout (ptr + c.offset tgt T.layout .inner) .inner ++
      sized alloc.ty.layout (ptr + c.offset tgt T.layout .alloc) (.alloc alloc))

/-- `init_non_delegating_ptr`, then `init_secondary_ptr`. -/
def storeParents (c : Container) (ptr : Nat) : List (Nat × Cell) :=
  (ptr + c.offset tgt T.layout .nonDelegatingUnknown + tgt.width.bytes, .ptr ptr) ::
    (List.finRange c.secondaries.length).map fun i =>
      (ptr + c.entryOffset tgt T.layout i + tgt.width.bytes, .ptr ptr)

/-- `try_new_in`. `got` is what `alloc.alloc` returns. -/
def tryNewIn (o : Object) (got : Nat) (h : Heap) : Option (Nat × Heap) :=
  let c := o.container
  let allocs := h.allocs ++ [⟨o.alloc, c.layout tgt T.layout, got⟩]
  if got = 0 then none
  else
    let mem := (h.mem.writeAll (storeFields tgt T c o.alloc got)).writeAll
      (storeParents tgt T c got)
    some (got, { h with mem := mem, allocs := allocs })

end Construction

/-- A live, non-aggregated object of the container `c` at `ptr` with the count
`n`: what its fields hold, `inner` and `alloc` apart. -/
structure Image (tgt : Target) (T : Impl) (c : Container) (ptr n : Nat) (m : Mem Cell) : Prop where
  vtable : m (ptr + c.offset tgt T.layout .vtable) = some (.vtable (T.vtable c.primary))
  entryVtable : ∀ i : Fin c.secondaries.length,
    m (ptr + c.entryOffset tgt T.layout i) = some (.vtable (T.vtable (c.secondaries.get i)))
  entryParent : ∀ i : Fin c.secondaries.length,
    m (ptr + c.entryOffset tgt T.layout i + tgt.width.bytes) = some (.ptr ptr)
  nonDelegatingVtable : m (ptr + c.offset tgt T.layout .nonDelegatingUnknown) =
    some (.vtable (.iUnknown (.nonDelegating c)))
  nonDelegatingParent : m (ptr + c.offset tgt T.layout .nonDelegatingUnknown + tgt.width.bytes) =
    some (.ptr ptr)
  refCount : m (ptr + c.offset tgt T.layout .refCount) = some (.count n)
  outerUnknown : m (ptr + c.offset tgt T.layout .outerUnknown) = some (.outer none)

section Image

variable {tgt : Target} {T : Impl} {c : Container} {alloc : Allocator} {ptr n : Nat} {m : Mem Cell}

open Container

variable (tgt T c) in
theorem offset_inner_le : 6 * tgt.width.bytes + c.shift tgt ≤ c.offset tgt T.layout .inner := by
  rw [offset_inner]
  exact le_roundUp T.layout.align_pos

variable (tgt T c) in
theorem offset_alloc_le : c.offset tgt T.layout .inner ≤ c.offset tgt T.layout .alloc := by
  rw [offset_alloc]
  have rounded : c.offset tgt T.layout .inner + T.layout.size ≤ _ :=
    le_roundUp c.alloc.layout.align_pos
  omega

/-- Where the stores of the struct go. -/
theorem mem_storeFields {w : Nat × Cell} (mem : w ∈ storeFields tgt T c alloc ptr) :
    w = (ptr, .vtable (T.vtable c.primary)) ∨
    (∃ i, w = (ptr + c.entryOffset tgt T.layout i, .vtable (T.vtable (c.secondaries.get i))) ∨
      w = (ptr + c.entryOffset tgt T.layout i + tgt.width.bytes, .ptr 0)) ∨
    w = (ptr + (tgt.width.bytes + c.shift tgt), .vtable (.iUnknown (.nonDelegating c))) ∨
    w = (ptr + (tgt.width.bytes + c.shift tgt) + tgt.width.bytes, .ptr 0) ∨
    w = (ptr + (3 * tgt.width.bytes + c.shift tgt), .count 1) ∨
    w = (ptr + (4 * tgt.width.bytes + c.shift tgt), .outer none) ∨
    ptr + (6 * tgt.width.bytes + c.shift tgt) ≤ w.1 := by
  have inner := offset_inner_le tgt T c
  have allocated := offset_alloc_le tgt T c
  simp only [storeFields, storeEntries, sized, offset_vtable, offset_nonDelegatingUnknown,
    offset_refCount, offset_outerUnknown, Nat.add_zero, List.mem_cons, List.mem_append,
    List.mem_flatMap, List.mem_finRange, true_and, List.not_mem_nil, or_false] at mem
  rcases mem with eq | ((entry | eq | eq | eq | eq) | tail) | tail
  · exact .inl eq
  · exact .inr (.inl entry)
  · exact .inr (.inr (.inl eq))
  · exact .inr (.inr (.inr (.inl eq)))
  · exact .inr (.inr (.inr (.inr (.inl eq))))
  · exact .inr (.inr (.inr (.inr (.inr (.inl eq)))))
  · split at tail
    · cases tail
    · rcases List.mem_singleton.mp tail with rfl
      exact .inr (.inr (.inr (.inr (.inr (.inr (by simp only; omega))))))
  · split at tail
    · cases tail
    · rcases List.mem_singleton.mp tail with rfl
      exact .inr (.inr (.inr (.inr (.inr (.inr (by simp only; omega))))))

theorem mem_storeParents {w : Nat × Cell} (mem : w ∈ storeParents tgt T c ptr) :
    w.2 = .ptr ptr ∧
      (w.1 = ptr + (tgt.width.bytes + c.shift tgt) + tgt.width.bytes ∨
        ∃ i, w.1 = ptr + c.entryOffset tgt T.layout i + tgt.width.bytes) := by
  simp only [storeParents, offset_nonDelegatingUnknown, List.mem_cons, List.mem_map,
    List.mem_finRange, true_and] at mem
  rcases mem with rfl | ⟨i, rfl⟩
  · exact ⟨rfl, .inl rfl⟩
  · exact ⟨rfl, .inr ⟨i, rfl⟩⟩

/-- The memory a constructor leaves. -/
def constructed (tgt : Target) (T : Impl) (c : Container) (alloc : Allocator) (ptr : Nat)
    (m : Mem Cell) : Mem Cell :=
  (m.writeAll (storeFields tgt T c alloc ptr)).writeAll (storeParents tgt T c ptr)

theorem constructed_parent {a : Nat} (mem : (a, Cell.ptr ptr) ∈ storeParents tgt T c ptr) :
    constructed tgt T c alloc ptr m a = some (.ptr ptr) := by
  apply Mem.writeAll_of_mem mem
  intro w other _
  exact (mem_storeParents other).1

/-- No two stores of the struct go to one address, `inner` and `alloc` apart. -/
theorem storeFields_functional {w v : Nat × Cell} (wMem : w ∈ storeFields tgt T c alloc ptr)
    (vMem : v ∈ storeFields tgt T c alloc ptr) (same : w.1 = v.1)
    (near : v.1 < ptr + (6 * tgt.width.bytes + c.shift tgt)) : w.2 = v.2 := by
  have word := tgt.width.bytes_pos
  have bounds (i : Fin c.secondaries.length) := entryOffset_bounds tgt T.layout i
  rcases mem_storeFields wMem with rfl | ⟨i, rfl | rfl⟩ | rfl | rfl | rfl | rfl | far
  all_goals
    rcases mem_storeFields vMem with rfl | ⟨j, rfl | rfl⟩ | rfl | rfl | rfl | rfl | far'
  all_goals first
    | rfl
    | omega
    | (obtain ⟨above, below⟩ := bounds i; simp only at same; omega)
    | (obtain ⟨above, below⟩ := bounds j; simp only at same; omega)
    | skip
  -- What is left are two stores into secondary entries.
  all_goals
    by_cases eq : i = j
    · subst eq
      first
        | rfl
        | (simp only at same; omega)
    · have apart := entryOffset_apart tgt T.layout eq
      simp only at same
      omega

theorem constructed_near {a : Nat} {x : Cell} (mem : (a, x) ∈ storeFields tgt T c alloc ptr)
    (near : a < ptr + (6 * tgt.width.bytes + c.shift tgt))
    (nonDelegating : a ≠ ptr + (tgt.width.bytes + c.shift tgt) + tgt.width.bytes)
    (entries : ∀ i, a ≠ ptr + c.entryOffset tgt T.layout i + tgt.width.bytes) :
    constructed tgt T c alloc ptr m a = some x := by
  rw [constructed, Mem.writeAll_of_ne]
  · apply Mem.writeAll_of_mem mem
    intro w other same
    exact storeFields_functional other mem same near
  · intro w parent same
    rcases (mem_storeParents parent).2 with eq | ⟨i, eq⟩
    · exact nonDelegating (same.symm.trans eq)
    · exact entries i (same.symm.trans eq)

/-- **The constructor builds the object.** Every field the shims read holds what
it was given, with every parent pointer set. -/
theorem image_constructed : Image tgt T c ptr 1 (constructed tgt T c alloc ptr m) := by
  have word := tgt.width.bytes_pos
  have bounds (i : Fin c.secondaries.length) := entryOffset_bounds tgt T.layout i
  refine ⟨?_, ?_, ?_, ?_, ?_, ?_, ?_⟩
  · apply constructed_near
    · simp [storeFields]
    all_goals simp only [offset_vtable]
    · omega
    · omega
    · intro i
      omega
  · intro i
    have here := bounds i
    apply constructed_near
    · simp only [storeFields, storeEntries, List.mem_cons, List.mem_append, List.mem_flatMap]
      exact .inr (.inl (.inl (.inl ⟨i, List.mem_finRange i, .inl rfl⟩)))
    · omega
    · omega
    · intro j same
      by_cases eq : i = j
      · subst eq
        omega
      · have apart := entryOffset_apart tgt T.layout eq
        omega
  · intro i
    apply constructed_parent
    simp only [storeParents, List.mem_cons, List.mem_map]
    exact .inr ⟨i, List.mem_finRange i, rfl⟩
  · apply constructed_near
    · simp [storeFields]
    all_goals simp only [offset_nonDelegatingUnknown]
    · omega
    · omega
    · intro i
      have there := bounds i
      omega
  · apply constructed_parent
    simp [storeParents]
  · apply constructed_near
    · simp [storeFields]
    all_goals simp only [offset_refCount]
    · omega
    · omega
    · intro i
      have there := bounds i
      omega
  · apply constructed_near
    · simp [storeFields]
    all_goals simp only [offset_outerUnknown]
    · omega
    · omega
    · intro i
      have there := bounds i
      omega

/-- Counting changes the counter and nothing else. -/
theorem Image.write_refCount {n' : Nat} (image : Image tgt T c ptr n m) :
    Image tgt T c ptr n' (m.write (ptr + c.offset tgt T.layout .refCount) (.count n')) := by
  have word := tgt.width.bytes_pos
  have bounds (i : Fin c.secondaries.length) := entryOffset_bounds tgt T.layout i
  refine ⟨?_, ?_, ?_, ?_, ?_, Mem.write_same, ?_⟩
  · rw [Mem.write_of_ne, image.vtable]
    rw [offset_vtable, offset_refCount]
    omega
  · intro i
    have here := bounds i
    rw [Mem.write_of_ne, image.entryVtable i]
    rw [offset_refCount]
    omega
  · intro i
    have here := bounds i
    rw [Mem.write_of_ne, image.entryParent i]
    rw [offset_refCount]
    omega
  · rw [Mem.write_of_ne, image.nonDelegatingVtable]
    rw [offset_nonDelegatingUnknown, offset_refCount]
    omega
  · rw [Mem.write_of_ne, image.nonDelegatingParent]
    rw [offset_nonDelegatingUnknown, offset_refCount]
    omega
  · rw [Mem.write_of_ne, image.outerUnknown]
    rw [offset_outerUnknown, offset_refCount]
    omega

theorem Object.container_primary (o : Object) : o.container.primary = o.primary := by
  unfold Object.container
  split <;> rfl

theorem Object.container_secondaries (o : Object) : o.container.secondaries = o.secondaries := by
  unfold Object.container
  split <;> simp_all [Container.secondaries]

/-- What a successful `try_new_in` did. -/
theorem tryNewIn_eq {o : Object} {got : Nat} {h h' : Heap}
    (made : tryNewIn tgt T o got h = some (ptr, h')) :
    ptr = got ∧ ptr ≠ 0 ∧
      h' = { h with
        mem := constructed tgt T o.container o.alloc ptr h.mem
        allocs := h.allocs ++ [⟨o.alloc, o.container.layout tgt T.layout, ptr⟩] } := by
  unfold tryNewIn at made
  split at made
  · cases made
  · cases made
    exact ⟨rfl, ‹_›, rfl⟩

end Image

end Kcom.Com
