import Kcom.Allocator.Pool
import Kcom.ReprC.Layout

/-!
# Over-aligned blocks

Where `alloc` puts a pointer, and that `dealloc` leads back to the block. The pool's
address `base` becomes `start = base + WDK_ALLOC_HEADER_SIZE`, and `start` becomes
the next multiple of the alignment; the header ends where the user's bytes begin.
`alloc_dealloc` collects the facts for every build and every answer of the kernel.
-/

namespace Kcom.Allocator

open ReprC (Bytes roundUp dvd_roundUp le_roundUp roundUp_of_dvd)
open Com (Width)

/-! ## Rounding up -/

section Rounding

variable {start n : Nat}

theorem roundUp_le_add (positive : 0 < n) : roundUp start n ≤ start + (n - 1) := by
  have whole : (start + n - 1) / n * n ≤ start + n - 1 := Nat.div_mul_le_self _ _
  unfold roundUp
  omega

/-- Clearing the low bits rounds down. -/
theorem land_mask {value k w : Nat} (valueFits : value < 2 ^ w) (alignFits : 2 ^ k < 2 ^ w) :
    value &&& (2 ^ w - 1 - (2 ^ k - 1)) = value / 2 ^ k * 2 ^ k := by
  apply Nat.eq_of_testBit_eq
  intro i
  have lowBits : 2 ^ k - 1 < 2 ^ w := Nat.lt_of_le_of_lt (Nat.sub_le _ _) alignFits
  have mask : 2 ^ w - 1 - (2 ^ k - 1) = 2 ^ w - ((2 ^ k - 1) + 1) := by omega
  rw [Nat.testBit_and, mask, Nat.testBit_two_pow_sub_succ lowBits, Nat.testBit_two_pow_sub_one,
    Nat.testBit_mul_two_pow, Nat.testBit_div_two_pow]
  rcases Nat.lt_or_ge i k with below | above
  · simp [below]
  · rw [Nat.sub_add_cancel above]
    rcases Nat.lt_or_ge i w with inside | outside
    · simp [above, inside, Nat.not_lt.mpr above]
    · have reach : 2 ^ w ≤ 2 ^ i := Nat.pow_le_pow_right (by omega) outside
      have clear : value.testBit i = false :=
        Nat.testBit_lt_two_pow (Nat.lt_of_lt_of_le valueFits reach)
      simp [clear]

end Rounding

/-! ## Builds -/

namespace Build

variable {b : Build} {x y z : Nat}

theorem checkedAdd_eq_some : b.checkedAdd x y = some z ↔ x + y < b.range ∧ z = x + y := by
  unfold checkedAdd
  split
  · next fits => simp [fits, eq_comm]
  · next fails => simp [fails]

theorem range_eq_pow : b.range = 256 ^ b.width.bytes := by
  unfold range
  rw [Nat.pow_mul]

theorem word_dvd_headerSize : b.width.bytes ∣ b.headerSize := by
  unfold headerSize
  split
  · exact Nat.dvd_mul_left _ _
  · exact Nat.dvd_refl _

theorem word_dvd_alignment : b.width.bytes ∣ b.alignment := by
  unfold alignment
  cases b.width with
  | w32 => exact ⟨2, rfl⟩
  | w64 => exact ⟨2, rfl⟩

theorem alignDown_eq {layout : Layout} (alignFits : layout.align < b.range)
    (valueFits : x + (layout.align - 1) < b.range) :
    b.alignDown (x + (layout.align - 1)) layout.align = roundUp x layout.align := by
  obtain ⟨k, power⟩ := layout.isPowerOfTwo
  rw [power] at alignFits valueFits ⊢
  have grouped : x + 2 ^ k - 1 = x + (2 ^ k - 1) := Nat.add_sub_assoc (Nat.two_pow_pos k) x
  unfold roundUp
  rw [grouped]
  exact land_mask valueFits alignFits

end Build

theorem Layout.align_pos (layout : Layout) : 0 < layout.align := by
  obtain ⟨k, power⟩ := layout.isPowerOfTwo
  rw [power]
  exact Nat.two_pow_pos k

/-- Of two powers of two, the smaller one divides the other. -/
theorem dvd_or_dvd {m n : Nat} (first : m.isPowerOfTwo) (second : n.isPowerOfTwo) :
    m ∣ n ∨ n ∣ m := by
  obtain ⟨j, rfl⟩ := first
  obtain ⟨k, rfl⟩ := second
  rcases Nat.le_total j k with le | le
  · exact .inl (Nat.pow_dvd_pow 2 le)
  · exact .inr (Nat.pow_dvd_pow 2 le)

/-! ## The pool -/

section Answers

variable {ans : Answer} {pool : PoolType} {size : Nat} {tag : UInt32} {p : Pool}

theorem Pool.take_frame {bytes : Bytes} {x : Nat} (outside : x < ans.base ∨ ans.base + size ≤ x) :
    (p.take ans size tag bytes).mem x = p.mem x :=
  if_neg fun inside => by omega

theorem exAllocatePoolUninitialized_null (null : ans.base = 0) :
    exAllocatePoolUninitialized ans pool size tag p = (p, 0) := by
  simp [exAllocatePoolUninitialized, exAllocatePool2, exAllocatePoolWithTag, null]

theorem exAllocatePoolUninitialized_block (pool : PoolType) (size : Nat) (tag : UInt32) (p : Pool)
    (block : ans.base ≠ 0) :
    ∃ bytes, exAllocatePoolUninitialized ans pool size tag p =
      (p.take ans size tag bytes, ans.base) := by
  unfold exAllocatePoolUninitialized exAllocatePool2 exAllocatePoolWithTag
  rw [if_neg block, if_neg block]
  split
  · exact ⟨_, rfl⟩
  · exact ⟨_, rfl⟩

theorem exAllocatePool_null (null : ans.base = 0) :
    exAllocatePool ans pool size tag p = (p, 0) := by
  simp [exAllocatePool, exAllocatePool2, exAllocatePoolWithTag, null]

theorem flags_zeroed (pool : PoolType) : pool.flags &&& poolFlagUninitialized = 0 := by
  cases pool <;> rfl

/-- The zeroed block, by the routine's own zeroing or by `write_bytes`. -/
theorem exAllocatePool_block (pool : PoolType) (size : Nat) (tag : UInt32) (p : Pool)
    (block : ans.base ≠ 0) :
    ∃ p', exAllocatePool ans pool size tag p = (p', ans.base) ∧
      p'.blocks = ⟨ans.base, size, tag⟩ :: p.blocks ∧
      (∀ x, x < ans.base ∨ ans.base + size ≤ x → p'.mem x = p.mem x) ∧
      ∀ i, i < size → p'.mem (ans.base + i) = 0 := by
  unfold exAllocatePool exAllocatePool2 exAllocatePoolWithTag
  rw [if_neg block, if_neg block]
  split
  · refine ⟨_, rfl, rfl, fun x outside => Pool.take_frame outside, ?_⟩
    intro i inside
    simp [Pool.take, flags_zeroed, inside]
  · refine ⟨_, if_pos block, rfl, fun x outside => ?_, ?_⟩
    · have filled : ¬(ans.base ≤ x ∧ x < ans.base + size) := by omega
      exact (if_neg filled).trans (Pool.take_frame outside)
    · intro i inside
      simp [Bytes.fill, inside]

/-- The block at the head of the list goes. -/
theorem exFreePoolWithTag_head {base : Nat} {mem : Bytes} :
    exFreePoolWithTag base tag ⟨mem, ⟨base, size, tag⟩ :: p.blocks⟩ = some ⟨mem, p.blocks⟩ := by
  simp [exFreePoolWithTag]

end Answers

/-! ## The header -/

section Header

variable {b : Build} {m m' : Bytes} {header base : Nat} {layout : Layout}

theorem magic_lt_range : magic < b.range := by
  unfold Build.range
  cases b.width <;> decide

theorem writeHeader_frame {align x : Nat} (outside : x < header ∨ header + b.headerSize ≤ x) :
    writeHeader b m header base align x = m x := by
  unfold Build.headerSize at outside
  unfold writeHeader
  cases debug : b.debug with
  | true =>
      simp only [debug, if_true] at outside ⊢
      rcases outside with below | above
      · rw [Bytes.writeWord_below (by omega), Bytes.writeWord_below (by omega),
          Bytes.writeWord_below below]
      · rw [Bytes.writeWord_above (by omega), Bytes.writeWord_above (by omega),
          Bytes.writeWord_above (by omega)]
  | false =>
      simp only [debug, Bool.false_eq_true, if_false] at outside ⊢
      rcases outside with below | above
      · exact Bytes.writeWord_below below
      · exact Bytes.writeWord_above above

/-- `dealloc_overaligned` gets back what `alloc_overaligned` wrote. -/
theorem deallocOveraligned_eq {p : Pool} {tag : UInt32} (baseFits : base < b.range)
    (alignFits : layout.align < b.range)
    (kept : ∀ x, header ≤ x → x < header + b.headerSize →
      p.mem x = writeHeader b m header base layout.align x) :
    deallocOveraligned b (header + b.headerSize) tag layout p = exFreePoolWithTag base tag p := by
  have magicFits := magic_lt_range (b := b)
  rw [Build.range_eq_pow] at baseFits alignFits magicFits
  have word : ∀ a, header ≤ a → a + b.width.bytes ≤ header + b.headerSize →
      p.mem.readWord a b.width.bytes =
        (writeHeader b m header base layout.align).readWord a b.width.bytes := by
    intro a low high
    exact Bytes.readWord_congr fun x le lt => kept x (by omega) (by omega)
  unfold deallocOveraligned
  simp only [Nat.add_sub_cancel]
  unfold Build.headerSize writeHeader at word
  cases debug : b.debug with
  | true =>
      simp only [debug, if_true] at word ⊢
      have magicRead : p.mem.readWord header b.width.bytes = magic := by
        rw [word header (by omega) (by omega),
          Bytes.readWord_writeWord_of_disjoint (.inl (by omega)),
          Bytes.readWord_writeWord_of_disjoint (.inl (by omega)),
          Bytes.readWord_writeWord_of_lt magicFits]
      have baseRead : p.mem.readWord (header + b.width.bytes) b.width.bytes = base := by
        rw [word _ (by omega) (by omega),
          Bytes.readWord_writeWord_of_disjoint (.inl (by omega)),
          Bytes.readWord_writeWord_of_lt baseFits]
      have alignRead : p.mem.readWord (header + 2 * b.width.bytes) b.width.bytes =
          layout.align := by
        rw [word _ (by omega) (by omega), Bytes.readWord_writeWord_of_lt alignFits]
      rw [magicRead, baseRead, alignRead, if_pos ⟨rfl, rfl⟩]
  | false =>
      simp only [debug, Bool.false_eq_true, if_false] at word ⊢
      have baseRead : p.mem.readWord header b.width.bytes = base := by
        rw [word header (by omega) (by omega), Bytes.readWord_writeWord_of_lt baseFits]
      rw [baseRead]

end Header

/-! ## Allocation -/

/-- What is asked of the pool. -/
def requested (b : Build) (layout : Layout) : Nat :=
  if needsOveraligned b layout then layout.size + layout.align + b.headerSize else layout.size

/-- A step of the size or of the address leaves `usize`. -/
def Overflows (b : Build) (layout : Layout) (base : Nat) : Prop :=
  needsOveraligned b layout = true ∧
    (b.range ≤ layout.size + layout.align + b.headerSize ∨
      b.range ≤ base + b.headerSize + (layout.align - 1))

/-- The bytes that `alloc_overaligned` leaves: the header, and zeros on demand. -/
def userBytes (b : Build) (zeroed : Bool) (layout : Layout) (base : Nat) (m : Bytes) : Bytes :=
  let ptr := roundUp (base + b.headerSize) layout.align
  let m := writeHeader b m (ptr - b.headerSize) base layout.align
  if zeroed then m.fill ptr layout.size 0 else m

section Overaligned

variable {b : Build} {ans : Answer} {pool : PoolType} {tag : UInt32} {layout : Layout}
  {zeroed : Bool} {p : Pool}

/-- The header path refuses: the blocks are those it found. -/
theorem allocOveraligned_refuses (pool : PoolType) (tag : UInt32) (zeroed : Bool) (p : Pool)
    (refused : ans.base = 0 ∨ b.range ≤ layout.size + layout.align + b.headerSize ∨
      b.range ≤ ans.base + b.headerSize + (layout.align - 1)) :
    ∃ p', allocOveraligned b ans pool tag layout zeroed p = some (p', 0) ∧
      p'.blocks = p.blocks := by
  unfold allocOveraligned
  cases size : (b.checkedAdd layout.size layout.align).bind
      fun v => b.checkedAdd v b.headerSize with
  | none => exact ⟨p, rfl, rfl⟩
  | some total =>
      by_cases null : ans.base = 0
      · exact ⟨p, by simp [exAllocatePoolUninitialized_null null], rfl⟩
      · obtain ⟨bytes, taken⟩ := exAllocatePoolUninitialized_block pool total tag p null
        simp only [taken, if_neg null]
        have freed : exFreePoolWithTag ans.base tag (p.take ans total tag bytes) =
            some ⟨(p.take ans total tag bytes).mem, p.blocks⟩ := exFreePoolWithTag_head
        cases start : b.checkedAdd ans.base b.headerSize with
        | none => exact ⟨⟨(p.take ans total tag bytes).mem, p.blocks⟩, by simp [freed], rfl⟩
        | some first =>
            cases value : b.checkedAdd first (layout.align - 1) with
            | none =>
                exact ⟨⟨(p.take ans total tag bytes).mem, p.blocks⟩, by simp [value, freed], rfl⟩
            | some last =>
                exfalso
                obtain ⟨v, sum, sums⟩ := Option.bind_eq_some_iff.mp size
                obtain ⟨-, rfl⟩ := Build.checkedAdd_eq_some.mp sum
                have totalFits := (Build.checkedAdd_eq_some.mp sums).1
                obtain ⟨-, rfl⟩ := Build.checkedAdd_eq_some.mp start
                have lastFits := (Build.checkedAdd_eq_some.mp value).1
                omega

/-- The header path grants: the pointer is the first multiple of the alignment behind
the room for the header. -/
theorem allocOveraligned_grants (pool : PoolType) (tag : UInt32) (zeroed : Bool) (p : Pool)
    (alignFits : layout.align < b.range) (block : ans.base ≠ 0)
    (totalFits : layout.size + layout.align + b.headerSize < b.range)
    (lastFits : ans.base + b.headerSize + (layout.align - 1) < b.range) :
    ∃ bytes, allocOveraligned b ans pool tag layout zeroed p =
      some (⟨userBytes b zeroed layout ans.base
          (p.take ans (layout.size + layout.align + b.headerSize) tag bytes).mem,
        ⟨ans.base, layout.size + layout.align + b.headerSize, tag⟩ :: p.blocks⟩,
        roundUp (ans.base + b.headerSize) layout.align) := by
  obtain ⟨bytes, taken⟩ := exAllocatePoolUninitialized_block pool
    (layout.size + layout.align + b.headerSize) tag p block
  have size : (b.checkedAdd layout.size layout.align).bind (fun v => b.checkedAdd v b.headerSize) =
      some (layout.size + layout.align + b.headerSize) := by
    have first : b.checkedAdd layout.size layout.align = some (layout.size + layout.align) :=
      Build.checkedAdd_eq_some.mpr ⟨by omega, rfl⟩
    rw [first, Option.bind_some]
    exact Build.checkedAdd_eq_some.mpr ⟨totalFits, rfl⟩
  have start : b.checkedAdd ans.base b.headerSize = some (ans.base + b.headerSize) :=
    Build.checkedAdd_eq_some.mpr ⟨by omega, rfl⟩
  have last : b.checkedAdd (ans.base + b.headerSize) (layout.align - 1) =
      some (ans.base + b.headerSize + (layout.align - 1)) :=
    Build.checkedAdd_eq_some.mpr ⟨lastFits, rfl⟩
  refine ⟨bytes, ?_⟩
  unfold allocOveraligned
  simp only [size, taken, if_neg block, start, last, Build.alignDown_eq alignFits lastFits]
  rfl

variable {m : Bytes} {base x : Nat}

theorem userBytes_below (below : x < roundUp (base + b.headerSize) layout.align) :
    userBytes b zeroed layout base m x = writeHeader b m
      (roundUp (base + b.headerSize) layout.align - b.headerSize) base layout.align x := by
  cases zeroed with
  | false => rfl
  | true => exact if_neg fun inside => Nat.not_le.mpr below inside.1

theorem userBytes_zero {i : Nat} (wanted : zeroed = true) (inside : i < layout.size) :
    userBytes b zeroed layout base m (roundUp (base + b.headerSize) layout.align + i) = 0 := by
  unfold userBytes
  rw [if_pos wanted]
  exact if_pos ⟨Nat.le_add_right _ _, Nat.add_lt_add_left inside _⟩

/-- Nothing outside of the block is written. -/
theorem userBytes_frame
    (outside : x < base ∨ base + (layout.size + layout.align + b.headerSize) ≤ x) :
    userBytes b zeroed layout base m x = m x := by
  have alignPos := layout.align_pos
  have low : base + b.headerSize ≤ roundUp (base + b.headerSize) layout.align :=
    le_roundUp alignPos
  have high : roundUp (base + b.headerSize) layout.align ≤
      base + b.headerSize + (layout.align - 1) := roundUp_le_add alignPos
  have header : writeHeader b m (roundUp (base + b.headerSize) layout.align - b.headerSize) base
      layout.align x = m x := writeHeader_frame (by omega)
  unfold userBytes
  split
  · rw [← header]
    exact if_neg fun inside => by omega
  · exact header

end Overaligned

/-! ## The allocator -/

/-- `alloc_zeroed` or `alloc`. -/
def WdkAllocator.request (b : Build) (a : WdkAllocator) (zeroed : Bool) (ans : Answer)
    (layout : Layout) (p : Pool) : Option (Pool × Nat) :=
  if zeroed then a.allocZeroed b ans layout p else a.alloc b ans layout p

/-- A pointer and the pool after its allocation. -/
structure Placed (b : Build) (a : WdkAllocator) (zeroed : Bool) (layout : Layout) (base : Nat)
    (p p' : Pool) (ptr : Nat) : Prop where
  aligned : layout.align ∣ ptr
  header : needsOveraligned b layout = true →
    b.headerSize ≤ ptr ∧ base ≤ ptr - b.headerSize ∧ b.width.bytes ∣ ptr - b.headerSize
  inside : base ≤ ptr ∧ ptr + layout.size ≤ base + requested b layout
  block : p'.blocks = ⟨base, requested b layout, a.tag⟩ :: p.blocks
  frame : ∀ x, x < base ∨ base + requested b layout ≤ x → p'.mem x = p.mem x
  zero : zeroed = true → ∀ i, i < layout.size → p'.mem (ptr + i) = 0
  /-- `dealloc` takes the path of `alloc` and frees the block, whatever else was written. -/
  freed : ∀ p'' : Pool, (∀ x, base ≤ x → x < ptr → p''.mem x = p'.mem x) →
    a.dealloc b ptr layout p'' = (if needsOveraligned b layout then
      deallocOveraligned b ptr a.tag layout p'' else exFreePoolWithTag ptr a.tag p'') ∧
    a.dealloc b ptr layout p'' = exFreePoolWithTag base a.tag p''

section WdkAllocator

variable {b : Build} {a : WdkAllocator} {zeroed : Bool} {layout : Layout} {ans : Answer}
  {p p' : Pool}

theorem request_overaligned (positive : 0 < layout.size)
    (needs : needsOveraligned b layout = true) :
    a.request b zeroed ans layout p =
      allocOveraligned b ans a.pool a.tag layout zeroed p := by
  have some : layout.size ≠ 0 := Nat.ne_of_gt positive
  unfold WdkAllocator.request WdkAllocator.allocZeroed WdkAllocator.alloc
  cases zeroed <;> simp [some, needs]

theorem request_plain (positive : 0 < layout.size)
    (plain : needsOveraligned b layout = false) :
    a.request b zeroed ans layout p =
      some (if zeroed then exAllocatePool ans a.pool layout.size a.tag p
        else exAllocatePoolUninitialized ans a.pool layout.size a.tag p) := by
  have some : layout.size ≠ 0 := Nat.ne_of_gt positive
  unfold WdkAllocator.request WdkAllocator.allocZeroed WdkAllocator.alloc
  cases zeroed <;> simp [some, plain]

theorem plain_grants (a : WdkAllocator) (zeroed : Bool) (size : Nat) (p : Pool)
    (block : ans.base ≠ 0) :
    ∃ p', (if zeroed then exAllocatePool ans a.pool size a.tag p
        else exAllocatePoolUninitialized ans a.pool size a.tag p) = (p', ans.base) ∧
      p'.blocks = ⟨ans.base, size, a.tag⟩ :: p.blocks ∧
      (∀ x, x < ans.base ∨ ans.base + size ≤ x → p'.mem x = p.mem x) ∧
      (zeroed = true → ∀ i, i < size → p'.mem (ans.base + i) = 0) := by
  cases zeroed with
  | true =>
      obtain ⟨p', result, blocks, frame, zero⟩ := exAllocatePool_block a.pool size a.tag p block
      exact ⟨p', result, blocks, frame, fun _ => zero⟩
  | false =>
      obtain ⟨bytes, result⟩ := exAllocatePoolUninitialized_block a.pool size a.tag p block
      exact ⟨_, result, rfl, fun x outside => Pool.take_frame outside,
        fun wanted => absurd wanted Bool.false_ne_true⟩

/-- The two conditions are the same one. -/
theorem dealloc_path (positive : 0 < layout.size) {ptr : Nat} {q : Pool} :
    a.dealloc b ptr layout q = (if needsOveraligned b layout then
      deallocOveraligned b ptr a.tag layout q else exFreePoolWithTag ptr a.tag q) := by
  unfold WdkAllocator.dealloc needsOveraligned
  rw [if_neg (Nat.ne_of_gt positive)]
  cases b.debug <;> simp

theorem Placed.of_overaligned (a : WdkAllocator) (zeroed : Bool) {m : Bytes}
    (positive : 0 < layout.size) (alignFits : layout.align < b.range)
    (baseAligned : b.alignment ∣ ans.base)
    (total : ans.base + requested b layout ≤ b.range) (needs : needsOveraligned b layout = true)
    (outside : ∀ x, x < ans.base ∨ ans.base + requested b layout ≤ x → m x = p.mem x) :
    Placed b a zeroed layout ans.base p
      ⟨userBytes b zeroed layout ans.base m, ⟨ans.base, requested b layout, a.tag⟩ :: p.blocks⟩
      (roundUp (ans.base + b.headerSize) layout.align) := by
  have size : requested b layout = layout.size + layout.align + b.headerSize := if_pos needs
  have low : ans.base + b.headerSize ≤ roundUp (ans.base + b.headerSize) layout.align :=
    le_roundUp layout.align_pos
  have high : roundUp (ans.base + b.headerSize) layout.align ≤
      ans.base + b.headerSize + (layout.align - 1) := roundUp_le_add layout.align_pos
  have alignPos := layout.align_pos
  have startAligned : b.width.bytes ∣ ans.base + b.headerSize :=
    Nat.dvd_add (Nat.dvd_trans Build.word_dvd_alignment baseAligned) Build.word_dvd_headerSize
  have wordPower : b.width.bytes.isPowerOfTwo := by
    cases b.width with
    | w32 => exact ⟨2, rfl⟩
    | w64 => exact ⟨3, rfl⟩
  have pointerAligned : b.width.bytes ∣ roundUp (ans.base + b.headerSize) layout.align := by
    rcases dvd_or_dvd wordPower layout.isPowerOfTwo with large | small
    · exact Nat.dvd_trans large dvd_roundUp
    · -- A small alignment is met by the header's end already.
      rw [roundUp_of_dvd alignPos (Nat.dvd_trans small startAligned)]
      exact startAligned
  refine ⟨dvd_roundUp, fun _ => ⟨by omega, by omega, ?_⟩, by omega, rfl, ?_, ?_, ?_⟩
  · exact Nat.dvd_sub pointerAligned Build.word_dvd_headerSize
  · intro x beyond
    rw [← outside x beyond]
    exact userBytes_frame (size ▸ beyond)
  · intro wanted i inside
    exact userBytes_zero wanted inside
  · intro p'' kept
    refine ⟨dealloc_path positive, ?_⟩
    rw [dealloc_path positive, if_pos needs]
    have pointer : roundUp (ans.base + b.headerSize) layout.align =
        roundUp (ans.base + b.headerSize) layout.align - b.headerSize + b.headerSize := by omega
    rw [pointer]
    apply deallocOveraligned_eq (m := m) (by omega) alignFits
    intro x first last
    rw [kept x (by omega) (by omega)]
    exact userBytes_below (by omega)

theorem Placed.of_plain (a : WdkAllocator) (zeroed : Bool) (positive : 0 < layout.size)
    (baseAligned : b.alignment ∣ ans.base) (plain : needsOveraligned b layout = false)
    (blocks : p'.blocks = ⟨ans.base, layout.size, a.tag⟩ :: p.blocks)
    (frame : ∀ x, x < ans.base ∨ ans.base + layout.size ≤ x → p'.mem x = p.mem x)
    (zero : zeroed = true → ∀ i, i < layout.size → p'.mem (ans.base + i) = 0) :
    Placed b a zeroed layout ans.base p p' ans.base := by
  have notNeeded : ¬needsOveraligned b layout = true := by rw [plain]; exact Bool.false_ne_true
  have size : requested b layout = layout.size := if_neg notNeeded
  have small : layout.align ≤ b.alignment := by
    unfold needsOveraligned at plain
    cases debug : b.debug with
    | true => simp [debug] at plain
    | false => simpa [debug] using plain
  have alignmentPower : b.alignment.isPowerOfTwo := by
    unfold Build.alignment
    cases b.width with
    | w32 => exact ⟨3, rfl⟩
    | w64 => exact ⟨4, rfl⟩
  have divides : layout.align ∣ b.alignment := by
    rcases dvd_or_dvd layout.isPowerOfTwo alignmentPower with divides | divides
    · exact divides
    · have equal := Nat.le_antisymm small (Nat.le_of_dvd layout.align_pos divides)
      exact equal ▸ Nat.dvd_refl _
  refine ⟨Nat.dvd_trans divides baseAligned, fun needs => absurd needs notNeeded, ?_, ?_, ?_, zero,
    ?_⟩
  · rw [size]
    exact ⟨Nat.le_refl _, Nat.le_refl _⟩
  · rw [size]
    exact blocks
  · rw [size]
    exact frame
  · intro p'' _
    refine ⟨dealloc_path positive, ?_⟩
    rw [dealloc_path positive, if_neg notNeeded]

end WdkAllocator

/-- For every build, layout and answer of the kernel: the request comes back, a null
pointer leaves the blocks as they were and stands for a refusal of the kernel or an
overflow, and every other pointer is placed. -/
theorem alloc_dealloc (b : Build) (a : WdkAllocator) (zeroed : Bool) (layout : Layout)
    (ans : Answer) (p : Pool) (positive : 0 < layout.size) (alignFits : layout.align < b.range) :
    ∃ p' ptr, a.request b zeroed ans layout p = some (p', ptr) ∧
      (ptr = 0 ↔ ans.base = 0 ∨ Overflows b layout ans.base) ∧
      (ptr = 0 → p'.blocks = p.blocks) ∧
      (b.alignment ∣ ans.base → ans.base + requested b layout ≤ b.range → ptr ≠ 0 →
        Placed b a zeroed layout ans.base p p' ptr ∧
        ∀ m : Bytes, (∀ x, ans.base ≤ x → x < ptr → m x = p'.mem x) →
          a.dealloc b ptr layout ⟨m, p'.blocks⟩ = some ⟨m, p.blocks⟩) := by
  cases needs : needsOveraligned b layout with
  | true =>
      rw [request_overaligned positive needs]
      have size : requested b layout = layout.size + layout.align + b.headerSize := if_pos needs
      by_cases refused : ans.base = 0 ∨ b.range ≤ layout.size + layout.align + b.headerSize ∨
          b.range ≤ ans.base + b.headerSize + (layout.align - 1)
      · obtain ⟨p', result, blocks⟩ := allocOveraligned_refuses a.pool a.tag zeroed p refused
        have cause : ans.base = 0 ∨ Overflows b layout ans.base := refused.imp_right (.intro needs)
        exact ⟨p', 0, result, iff_of_true rfl cause, fun _ => blocks,
          fun _ _ nonNull => absurd rfl nonNull⟩
      · have block : ans.base ≠ 0 := fun null => refused (.inl null)
        obtain ⟨bytes, result⟩ := allocOveraligned_grants a.pool a.tag zeroed p alignFits block
          (by omega) (by omega)
        have low : ans.base + b.headerSize ≤ roundUp (ans.base + b.headerSize) layout.align :=
          le_roundUp layout.align_pos
        have nonNull : roundUp (ans.base + b.headerSize) layout.align ≠ 0 := by omega
        have noCause : ¬(ans.base = 0 ∨ Overflows b layout ans.base) :=
          fun cause => refused (cause.imp_right And.right)
        refine ⟨_, _, result, iff_of_false nonNull noCause, fun null => absurd null nonNull, ?_⟩
        intro baseAligned total _
        rw [← size]
        have placed := Placed.of_overaligned a zeroed (p := p)
          (m := (p.take ans (requested b layout) a.tag bytes).mem) positive alignFits baseAligned
          total needs fun x outside => Pool.take_frame outside
        refine ⟨placed, fun m kept => ?_⟩
        rw [(placed.freed ⟨m, _⟩ kept).2]
        exact exFreePoolWithTag_head
  | false =>
      rw [request_plain positive needs]
      have notNeeded : ¬needsOveraligned b layout = true := by rw [needs]; exact Bool.false_ne_true
      have size : requested b layout = layout.size := if_neg notNeeded
      by_cases null : ans.base = 0
      · have result : (if zeroed then exAllocatePool ans a.pool layout.size a.tag p
            else exAllocatePoolUninitialized ans a.pool layout.size a.tag p) = (p, 0) := by
          rw [exAllocatePool_null null, exAllocatePoolUninitialized_null null, ite_self]
        rw [result]
        exact ⟨p, 0, rfl, iff_of_true rfl (.inl null), fun _ => rfl,
          fun _ _ nonNull => absurd rfl nonNull⟩
      · obtain ⟨p', result, blocks, frame, zero⟩ := plain_grants a zeroed layout.size p null
        rw [result]
        have noCause : ¬(ans.base = 0 ∨ Overflows b layout ans.base) := by
          rintro (isNull | ⟨needed, -⟩)
          · exact null isNull
          · exact notNeeded needed
        refine ⟨p', ans.base, rfl, iff_of_false null noCause, fun isNull => absurd isNull null, ?_⟩
        intro baseAligned _ _
        have placed := Placed.of_plain a zeroed positive baseAligned needs blocks frame zero
        refine ⟨placed, fun m kept => ?_⟩
        rw [(placed.freed ⟨m, _⟩ kept).2, placed.block]
        exact exFreePoolWithTag_head

/-- A debug build on a 64-bit target: five bytes at a multiple of 64, in a block at
`0x1000`. -/
theorem alloc_dealloc_debug :
    ∃ p' ptr, WdkAllocator.request ⟨.w64, true⟩ ⟨.paged, 7⟩ true ⟨0x1000, fun _ => 3, true⟩
        ⟨5, 64, 6, rfl⟩ ⟨fun _ => 0, []⟩ = some (p', ptr) ∧
      64 ∣ ptr ∧ 0x1018 ≤ ptr ∧ ptr + 5 ≤ 0x105d ∧
      WdkAllocator.dealloc ⟨.w64, true⟩ ⟨.paged, 7⟩ ptr ⟨5, 64, 6, rfl⟩ p' =
        some ⟨p'.mem, []⟩ := by
  obtain ⟨p', ptr, result, null, -, granted⟩ := alloc_dealloc ⟨.w64, true⟩ ⟨.paged, 7⟩ true
    ⟨5, 64, 6, rfl⟩ ⟨0x1000, fun _ => 3, true⟩ ⟨fun _ => 0, []⟩ (by decide) (by decide)
  have nonNull : ptr ≠ 0 := by
    intro isNull
    rcases null.mp isNull with noBlock | ⟨-, overflow⟩
    · exact absurd noBlock (by decide)
    · exact absurd overflow (by decide)
  obtain ⟨placed, freed⟩ := granted (by decide) (by decide) nonNull
  obtain ⟨room, low, -⟩ := placed.header rfl
  have low' : 0x1000 ≤ ptr - 24 := low
  have room' : 24 ≤ ptr := room
  exact ⟨p', ptr, result, placed.aligned, by omega, placed.inside.2,
    freed p'.mem fun _ _ _ => rfl⟩

end Kcom.Allocator
