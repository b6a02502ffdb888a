import Kcom.Com.Object
import Kcom.ReprC.Bytes

/-!
# The pool allocator

`WdkAllocator` (`src/allocator.rs`) with the feature `wdk-alloc-align`: what it
asks of the kernel pool, the header in front of an over-aligned pointer, and how
`dealloc` finds the block again. `usize` arithmetic is that of the target's
pointers, with the checked operations where the source has them. A debug build
puts a header of three words in front of every pointer, a release build one word
in front of those that need more alignment than the pool gives.

The kernel's part is an `Answer`: the address that the pool returns for the next
allocation, null where it refuses, and what a block holds that is not zeroed.
-/

namespace Kcom.Allocator

open ReprC (Bytes)
open Com (Width)

/-! ## The pool -/

inductive PoolType
  | nonPagedNx
  | paged
  deriving DecidableEq, Repr

/-- `core::alloc::Layout`. -/
structure Layout where
  size : Nat
  align : Nat
  isPowerOfTwo : align.isPowerOfTwo

structure WdkAllocator where
  pool : PoolType
  tag : UInt32
  deriving DecidableEq, Repr

/-- A block that was allocated and not freed. -/
structure Block where
  base : Nat
  size : Nat
  tag : UInt32
  deriving DecidableEq, Repr

structure Pool where
  mem : Bytes
  blocks : List Block

/-- The kernel's answer to the next allocation, and whether `get_ex_allocate_pool2`
finds the routine. -/
structure Answer where
  base : Nat
  garbage : Bytes
  pool2 : Bool

def poolFlagPaged : Nat := 1

def poolFlagUninitialized : Nat := 2

def poolFlagNonPaged : Nat := 0x40

def PoolType.flags : PoolType → Nat
  | .nonPagedNx => poolFlagNonPaged
  | .paged => poolFlagPaged

section Kernel

variable (ans : Answer)

/-- The pool takes a block, with the bytes it has at the moment. -/
def Pool.take (p : Pool) (size : Nat) (tag : UInt32) (bytes : Bytes) : Pool where
  mem b := if ans.base ≤ b ∧ b < ans.base + size then bytes b else p.mem b
  blocks := ⟨ans.base, size, tag⟩ :: p.blocks

/-- `ExAllocatePool2`: the memory is zeroed unless `POOL_FLAG_UNINITIALIZED` is set. -/
def exAllocatePool2 (flags size : Nat) (tag : UInt32) (p : Pool) : Pool × Nat :=
  if ans.base = 0 then (p, 0)
  else
    let bytes := if flags &&& poolFlagUninitialized = 0 then fun _ => 0 else ans.garbage
    (p.take ans size tag bytes, ans.base)

def exAllocatePoolWithTag (size : Nat) (tag : UInt32) (p : Pool) : Pool × Nat :=
  if ans.base = 0 then (p, 0) else (p.take ans size tag ans.garbage, ans.base)

/-- `ExFreePoolWithTag`; a block that is not there stops the machine. -/
def exFreePoolWithTag (base : Nat) (tag : UInt32) (p : Pool) : Option Pool :=
  if p.blocks.any fun b => b.base = base ∧ b.tag = tag then
    some { p with blocks := p.blocks.eraseP fun b => b.base = base ∧ b.tag = tag }
  else none

def exAllocatePool (pool : PoolType) (size : Nat) (tag : UInt32) (p : Pool) : Pool × Nat :=
  if ans.pool2 then exAllocatePool2 ans pool.flags size tag p
  else
    let (p, ptr) := exAllocatePoolWithTag ans size tag p
    if ptr ≠ 0 then ({ p with mem := p.mem.fill ptr size 0 }, ptr) else (p, ptr)

def exAllocatePoolUninitialized (pool : PoolType) (size : Nat) (tag : UInt32) (p : Pool) :
    Pool × Nat :=
  if ans.pool2 then exAllocatePool2 ans (pool.flags ||| poolFlagUninitialized) size tag p
  else exAllocatePoolWithTag ans size tag p

end Kernel

/-! ## Builds -/

/-- The target and the profile. -/
structure Build where
  width : Width
  /-- `debug_assertions`. -/
  debug : Bool
  deriving DecidableEq, Repr

namespace Build

variable (b : Build)

/-- `usize` has this many values. -/
def range : Nat := 2 ^ (8 * b.width.bytes)

/-- `WDK_ALLOC_ALIGNMENT`. -/
def alignment : Nat :=
  match b.width with
  | .w32 => 8
  | .w64 => 16

/-- `WDK_ALLOC_HEADER_SIZE`. -/
def headerSize : Nat :=
  if b.debug then 3 * b.width.bytes else b.width.bytes

def checkedAdd (x y : Nat) : Option Nat :=
  if x + y < b.range then some (x + y) else none

/-- `value & !(align - 1)`. -/
def alignDown (value align : Nat) : Nat :=
  value &&& (b.range - 1 - (align - 1))

end Build

/-- `WDK_ALLOC_MAGIC`. -/
def magic : Nat := 0x4b434f4d

section Functions

variable (b : Build)

def needsOveraligned (layout : Layout) : Bool :=
  if b.debug then true else b.alignment < layout.align

/-- The header in front of the pointer. -/
def writeHeader (m : Bytes) (header base align : Nat) : Bytes :=
  let w := b.width.bytes
  if b.debug then
    ((m.writeWord header w magic).writeWord (header + w) w base).writeWord (header + 2 * w) w align
  else m.writeWord header w base

/-- `none` is a stop of the machine in `ExFreePoolWithTag`. -/
def allocOveraligned (ans : Answer) (pool : PoolType) (tag : UInt32) (layout : Layout)
    (zeroed : Bool) (p : Pool) : Option (Pool × Nat) :=
  match (b.checkedAdd layout.size layout.align).bind fun v => b.checkedAdd v b.headerSize with
  | none => some (p, 0)
  | some total =>
      let (p, base) := exAllocatePoolUninitialized ans pool total tag p
      if base = 0 then some (p, 0)
      else
        match b.checkedAdd base b.headerSize with
        | none => (exFreePoolWithTag base tag p).map fun p => (p, 0)
        | some start =>
            match b.checkedAdd start (layout.align - 1) with
            | none => (exFreePoolWithTag base tag p).map fun p => (p, 0)
            | some value =>
                let aligned := b.alignDown value layout.align
                let m := writeHeader b p.mem (aligned - b.headerSize) base layout.align
                let m := if zeroed then m.fill aligned layout.size 0 else m
                some ({ p with mem := m }, aligned)

/-- `none` is a failed `debug_assert_eq` or a stop in `ExFreePoolWithTag`. -/
def deallocOveraligned (ptr : Nat) (tag : UInt32) (layout : Layout) (p : Pool) : Option Pool :=
  let w := b.width.bytes
  let header := ptr - b.headerSize
  if b.debug then
    if p.mem.readWord header w = magic ∧ p.mem.readWord (header + 2 * w) w = layout.align then
      exFreePoolWithTag (p.mem.readWord (header + w) w) tag p
    else none
  else exFreePoolWithTag (p.mem.readWord header w) tag p

namespace WdkAllocator

variable (a : WdkAllocator)

/-- `NonNull::<u8>::dangling()`. -/
def dangling : Nat := 1

def alloc (ans : Answer) (layout : Layout) (p : Pool) : Option (Pool × Nat) :=
  if layout.size = 0 then some (p, dangling)
  else if needsOveraligned b layout then allocOveraligned b ans a.pool a.tag layout false p
  else some (exAllocatePoolUninitialized ans a.pool layout.size a.tag p)

/-- Its body is that of `alloc`. -/
def allocUninitialized (ans : Answer) (layout : Layout) (p : Pool) : Option (Pool × Nat) :=
  a.alloc b ans layout p

def allocZeroed (ans : Answer) (layout : Layout) (p : Pool) : Option (Pool × Nat) :=
  if layout.size = 0 then some (p, dangling)
  else if needsOveraligned b layout then allocOveraligned b ans a.pool a.tag layout true p
  else some (exAllocatePool ans a.pool layout.size a.tag p)

def dealloc (ptr : Nat) (layout : Layout) (p : Pool) : Option Pool :=
  if layout.size = 0 then some p
  else if b.debug then deallocOveraligned b ptr a.tag layout p
  else if b.alignment < layout.align then deallocOveraligned b ptr a.tag layout p
  else exFreePoolWithTag ptr a.tag p

end WdkAllocator

end Functions

end Kcom.Allocator
