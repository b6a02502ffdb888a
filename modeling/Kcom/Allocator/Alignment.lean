import Kcom.Allocator.Overaligned

/-!
# The alignment of what the allocator returns

The three allocating functions of `WdkAllocator` in every build, with the feature
`wdk-alloc-align` or without it. A pointer comes from one of four places: the header path,
which rounds up; the pool itself, whose pointers are aligned to `WDK_ALLOC_ALIGNMENT` and
which serves no layout that needs more; a refusal, which is null; and the constant of
`NonNull::<u8>::dangling()` for a layout of size 0, whose address is 1 whatever the layout.
Only the last may fall short of the layout, and it does so whenever the alignment is not 1.
-/

namespace Kcom.Allocator

open ReprC (dvd_roundUp)

/-- A build, and whether the feature `wdk-alloc-align` is on. -/
structure Config where
  build : Build
  allocAlign : Bool
  deriving DecidableEq, Repr

/-- What `Layout::from_size_align` accepts: the size rounded up is at most `isize::MAX`. -/
def Layout.Valid (b : Build) (layout : Layout) : Prop :=
  layout.size + (layout.align - 1) < 2 ^ (8 * b.width.bytes - 1)

/-! ## The functions in every build -/

namespace Config

variable (cfg : Config) (a : WdkAllocator)

/-- The body that the functions share: `zeroed` is for the header path, `plain` is the call
of the pool. -/
def allocBy (zeroed : Bool) (plain : Pool → Pool × Nat) (ans : Answer) (layout : Layout)
    (p : Pool) : Option (Pool × Nat) :=
  if layout.size = 0 then some (p, WdkAllocator.dangling)
  else if cfg.allocAlign then
    if needsOveraligned cfg.build layout then
      allocOveraligned cfg.build ans a.pool a.tag layout zeroed p
    else some (plain p)
  else if cfg.build.alignment < layout.align then some (p, 0)
  else some (plain p)

def alloc (ans : Answer) (layout : Layout) (p : Pool) : Option (Pool × Nat) :=
  cfg.allocBy a false (exAllocatePoolUninitialized ans a.pool layout.size a.tag) ans layout p

def allocZeroed (ans : Answer) (layout : Layout) (p : Pool) : Option (Pool × Nat) :=
  cfg.allocBy a true (exAllocatePool ans a.pool layout.size a.tag) ans layout p

def allocUninitialized (ans : Answer) (layout : Layout) (p : Pool) : Option (Pool × Nat) :=
  cfg.allocBy a false (exAllocatePoolUninitialized ans a.pool layout.size a.tag) ans layout p

end Config

/-- The functions with the feature on. -/
theorem Config.alloc_of_allocAlign {cfg : Config} (feature : cfg.allocAlign = true)
    (a : WdkAllocator) (ans : Answer) (layout : Layout) (p : Pool) :
    cfg.alloc a ans layout p = a.alloc cfg.build ans layout p ∧
      cfg.allocZeroed a ans layout p = a.allocZeroed cfg.build ans layout p ∧
      cfg.allocUninitialized a ans layout p = a.allocUninitialized cfg.build ans layout p := by
  simp only [alloc, allocZeroed, allocUninitialized, allocBy, feature, if_true,
    WdkAllocator.alloc, WdkAllocator.allocZeroed, WdkAllocator.allocUninitialized, and_self]

/-- The call returns null or a pointer that fits the layout. -/
def Fits (layout : Layout) (returned : Option (Pool × Nat)) : Prop :=
  ∃ p ptr, returned = some (p, ptr) ∧ (ptr = 0 ∨ layout.align ∣ ptr)

/-! ## Where pointers come from -/

section Sources

variable {b : Build} {cfg : Config} {ans : Answer} {layout : Layout} {p : Pool}

theorem Layout.Valid.align_lt (valid : layout.Valid b) : layout.align < b.range := by
  have positive := layout.align_pos
  have half : 2 ^ (8 * b.width.bytes) = 2 * 2 ^ (8 * b.width.bytes - 1) := by
    cases b.width <;> rfl
  unfold Layout.Valid at valid
  unfold Build.range
  omega

theorem alignment_isPowerOfTwo (b : Build) : b.alignment.isPowerOfTwo := by
  unfold Build.alignment
  cases b.width with
  | w32 => exact ⟨3, rfl⟩
  | w64 => exact ⟨4, rfl⟩

/-- Where the layout asks for no more than the pool gives, what the pool gives fits. -/
theorem fits_plain (small : layout.align ≤ b.alignment) (aligned : b.alignment ∣ ans.base)
    {returned : Pool × Nat} (plain : returned.2 = ans.base) : Fits layout (some returned) := by
  refine ⟨returned.1, returned.2, rfl, .inr ?_⟩
  rw [plain]
  rcases dvd_or_dvd layout.isPowerOfTwo (alignment_isPowerOfTwo b) with divides | divides
  · exact divides.trans aligned
  · have same : layout.align = b.alignment :=
      Nat.le_antisymm small (Nat.le_of_dvd layout.align_pos divides)
    rw [same]
    exact aligned

theorem exAllocatePoolUninitialized_ptr (ans : Answer) (pool : PoolType) (size : Nat)
    (tag : UInt32) (p : Pool) : (exAllocatePoolUninitialized ans pool size tag p).2 = ans.base := by
  by_cases null : ans.base = 0
  · rw [exAllocatePoolUninitialized_null null, null]
  · obtain ⟨bytes, taken⟩ := exAllocatePoolUninitialized_block pool size tag p null
    rw [taken]

theorem exAllocatePool_ptr (ans : Answer) (pool : PoolType) (size : Nat) (tag : UInt32)
    (p : Pool) : (exAllocatePool ans pool size tag p).2 = ans.base := by
  by_cases null : ans.base = 0
  · rw [exAllocatePool_null null, null]
  · obtain ⟨p', taken, -⟩ := exAllocatePool_block pool size tag p null
    rw [taken]

/-- The header path rounds up, wherever the block is. -/
theorem fits_overaligned (pool : PoolType) (tag : UInt32) (zeroed : Bool) (p : Pool)
    (valid : layout.Valid b) : Fits layout (allocOveraligned b ans pool tag layout zeroed p) := by
  by_cases refused : ans.base = 0 ∨ b.range ≤ layout.size + layout.align + b.headerSize ∨
      b.range ≤ ans.base + b.headerSize + (layout.align - 1)
  · obtain ⟨p', refuses, -⟩ := allocOveraligned_refuses pool tag zeroed p refused
    exact ⟨p', 0, refuses, .inl rfl⟩
  · obtain ⟨block, fits⟩ := not_or.mp refused
    obtain ⟨total, last⟩ := not_or.mp fits
    obtain ⟨bytes, grants⟩ := allocOveraligned_grants pool tag zeroed p valid.align_lt block
      (Nat.lt_of_not_le total) (Nat.lt_of_not_le last)
    exact ⟨_, _, grants, .inr dvd_roundUp⟩

/-- A layout of size 0 gets the address 1. -/
theorem fits_dangling : Fits layout (some (p, WdkAllocator.dangling)) ↔ layout.align = 1 := by
  constructor
  · rintro ⟨p', ptr, same, fits⟩
    cases same
    rcases fits with null | divides
    · cases null
    · exact Nat.dvd_one.mp divides
  · intro one
    exact ⟨p, _, rfl, .inr (one ▸ Nat.one_dvd _)⟩

theorem Config.fits_allocBy {a : WdkAllocator} (valid : layout.Valid cfg.build)
    (aligned : cfg.build.alignment ∣ ans.base) (zeroed : Bool) {plain : Pool → Pool × Nat}
    (ptr : ∀ p, (plain p).2 = ans.base) :
    Fits layout (cfg.allocBy a zeroed plain ans layout p) ↔
      layout.size ≠ 0 ∨ layout.align = 1 := by
  unfold allocBy
  split
  · next empty =>
      rw [fits_dangling]
      simp [empty]
  · next some =>
      refine iff_of_true ?_ (.inl some)
      split
      · split
        · exact fits_overaligned a.pool a.tag zeroed p valid
        · next small =>
            refine fits_plain ?_ aligned (ptr p)
            unfold needsOveraligned at small
            split at small
            · exact absurd rfl small
            · exact Nat.le_of_not_lt fun more => small (decide_eq_true more)
      · split
        · exact ⟨p, 0, rfl, .inl rfl⟩
        · next small => exact fits_plain (Nat.le_of_not_lt small) aligned (ptr p)

end Sources

/-- In every build, each of the three functions returns null or a pointer that fits the layout
exactly if the layout has bytes or asks for no alignment. -/
theorem alloc_aligned_iff (cfg : Config) (a : WdkAllocator) (ans : Answer) (layout : Layout)
    (p : Pool) (valid : layout.Valid cfg.build) (aligned : cfg.build.alignment ∣ ans.base) :
    (Fits layout (cfg.alloc a ans layout p) ↔ layout.size ≠ 0 ∨ layout.align = 1) ∧
      (Fits layout (cfg.allocZeroed a ans layout p) ↔ layout.size ≠ 0 ∨ layout.align = 1) ∧
      (Fits layout (cfg.allocUninitialized a ans layout p) ↔
        layout.size ≠ 0 ∨ layout.align = 1) :=
  ⟨cfg.fits_allocBy valid aligned false fun p => exAllocatePoolUninitialized_ptr ans _ _ _ p,
    cfg.fits_allocBy valid aligned true fun p => exAllocatePool_ptr ans _ _ _ p,
    cfg.fits_allocBy valid aligned false fun p => exAllocatePoolUninitialized_ptr ans _ _ _ p⟩

/-- A page-aligned layout, on the header path of a release build. -/
theorem alloc_aligned_iff_of_page :
    Fits ⟨10, 4096, ⟨12, rfl⟩⟩ (Config.alloc ⟨⟨.w64, false⟩, true⟩ ⟨.nonPagedNx, 0⟩
      ⟨0x2010, fun _ => 0, true⟩ ⟨10, 4096, ⟨12, rfl⟩⟩ ⟨fun _ => 0, []⟩) := by
  have valid : (⟨10, 4096, ⟨12, rfl⟩⟩ : Layout).Valid ⟨.w64, false⟩ := by
    unfold Layout.Valid
    decide
  exact (alloc_aligned_iff _ _ _ _ _ valid (by decide)).1.mpr (.inl (by decide))

/-- No bytes at an alignment of 8: the pointer is 1. -/
theorem dangling_misaligned :
    ¬ ∀ (cfg : Config) (a : WdkAllocator) (ans : Answer) (layout : Layout) (p : Pool),
      layout.Valid cfg.build → cfg.build.alignment ∣ ans.base →
        Fits layout (cfg.alloc a ans layout p) ∧ Fits layout (cfg.allocZeroed a ans layout p) ∧
          Fits layout (cfg.allocUninitialized a ans layout p) := by
  intro fits
  have valid : (⟨0, 8, ⟨3, rfl⟩⟩ : Layout).Valid ⟨.w64, false⟩ := by
    unfold Layout.Valid
    decide
  obtain ⟨p, ptr, same, aligned⟩ := (fits ⟨⟨.w64, false⟩, true⟩ ⟨.nonPagedNx, 0⟩
    ⟨0x2010, fun _ => 0, true⟩ ⟨0, 8, ⟨3, rfl⟩⟩ ⟨fun _ => 0, []⟩ valid (by decide)).1
  cases same
  revert aligned
  decide

end Kcom.Allocator
