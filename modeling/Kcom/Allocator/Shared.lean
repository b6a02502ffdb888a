import Kcom.Conc.History
import Kcom.Allocator.Alignment
import Kcom.ReprC.Regions

/-!
# One pool and its clients

All the allocators of a driver take their blocks from one pool of the kernel, and the
headers of over-aligned blocks lie in the same memory as what the clients write. `Arrays` is
what the clients count on: every allocation is an array of its own, which nobody else
changes and which is there until it is given back. `Shared` is what there is: the memory and
the blocks of the pool, and the pointers that were given out.

`shared_refines_arrays` says that every run of the one is a run of the other, and that no
client ever brings the machine to a stop; `blocks_returned` accounts for the blocks.

Of the kernel: the pool gives aligned blocks that do not wrap around and that lie apart from
those it has given out before. Of the clients: they write inside their allocations, and give
each back once, to the allocator it came from and with its layout.
-/

namespace Kcom.Allocator

open Conc
open ReprC (Bytes Region)

/-! ## The two levels -/

/-- An array for each allocation, and none for those that were given back. -/
abbrev Arrays :=
  List (Option (List UInt8))

/-- What a client holds; `base` is the address of the pool's block. -/
structure Allocation where
  alloc : WdkAllocator
  layout : Layout
  ptr : Nat
  base : Nat

/-- The pool, and every allocation so far. -/
structure Shared where
  pool : Pool
  held : List (Option Allocation)

/-- A call of `alloc` or `alloc_zeroed` with the kernel's answer, a store to the `i`-th byte
of allocation `k`, or a call of `dealloc` for it. -/
inductive Shared.Label
  | request (a : WdkAllocator) (zeroed : Bool) (layout : Layout) (ans : Answer)
  | write (k i : Nat) (byte : UInt8)
  | dealloc (k : Nat)

/-- The steps of the arrays: a request is refused or makes a new array. -/
inductive Arrays.Step (s : Arrays) : Shared.Label → Arrays → Prop
  | refused {a : WdkAllocator} {zeroed : Bool} {layout : Layout} {ans : Answer} :
      Step s (.request a zeroed layout ans) s
  | granted {a : WdkAllocator} {zeroed : Bool} {layout : Layout} {ans : Answer}
      {bytes : List UInt8} (size : bytes.length = layout.size)
      (zero : zeroed = true → bytes = List.replicate layout.size 0) :
      Step s (.request a zeroed layout ans) (s ++ [some bytes])
  | write {k i : Nat} {byte : UInt8} {bytes : List UInt8} (held : s[k]? = some (some bytes))
      (inside : i < bytes.length) : Step s (.write k i byte) (s.set k (some (bytes.set i byte)))
  | dealloc {k : Nat} {bytes : List UInt8} (held : s[k]? = some (some bytes)) :
      Step s (.dealloc k) (s.set k none)

namespace Config

variable (cfg : Config)

def request (a : WdkAllocator) (zeroed : Bool) (ans : Answer) (layout : Layout) (p : Pool) :
    Option (Pool × Nat) :=
  if zeroed then cfg.allocZeroed a ans layout p else cfg.alloc a ans layout p

/-- `dealloc`; the header is looked for with the feature `wdk-alloc-align` only. -/
def dealloc (a : WdkAllocator) (ptr : Nat) (layout : Layout) (p : Pool) : Option Pool :=
  if layout.size = 0 then some p
  else if cfg.allocAlign then
    if cfg.build.debug then deallocOveraligned cfg.build ptr a.tag layout p
    else if cfg.build.alignment < layout.align then deallocOveraligned cfg.build ptr a.tag layout p
    else exFreePoolWithTag ptr a.tag p
  else exFreePoolWithTag ptr a.tag p

/-- What is asked of the pool. -/
def requested (layout : Layout) : Nat :=
  if cfg.allocAlign then Allocator.requested cfg.build layout else layout.size

end Config

namespace Shared

variable (cfg : Config)

def step (s : Shared) : Label → Option Shared
  | .request a zeroed layout ans =>
      (cfg.request a zeroed ans layout s.pool).map fun (pool, ptr) =>
        if ptr = 0 then ⟨pool, s.held⟩
        else ⟨pool, s.held ++ [some ⟨a, layout, ptr, ans.base⟩]⟩
  | .write k i byte =>
      match s.held[k]? with
      | some (some al) =>
          if i < al.layout.size then
            some { s with pool := { s.pool with
              mem := Function.update s.pool.mem (al.ptr + i) byte } }
          else none
      | _ => none
  | .dealloc k =>
      match s.held[k]? with
      | some (some al) =>
          (cfg.dealloc al.alloc al.ptr al.layout s.pool).map fun pool => ⟨pool, s.held.set k none⟩
      | _ => none

/-- What the clients see. -/
def view (s : Shared) : Arrays :=
  s.held.map (Option.map fun al => s.pool.mem.read al.ptr al.layout.size)

end Shared

def Block.region (b : Block) : Region :=
  ⟨b.base, b.size⟩

/-- What the kernel promises about its answer, and Rust about the layout. -/
structure Fresh (cfg : Config) (p : Pool) (layout : Layout) (ans : Answer) : Prop where
  valid : layout.Valid cfg.build
  aligned : cfg.build.alignment ∣ ans.base
  fits : ans.base ≠ 0 → ans.base + cfg.requested layout ≤ cfg.build.range
  apart : ans.base ≠ 0 → ∀ b ∈ p.blocks, b.region.Apart ⟨ans.base, cfg.requested layout⟩

instance (cfg : Config) (p : Pool) (layout : Layout) (ans : Answer) :
    Decidable (Fresh cfg p layout ans) :=
  decidable_of_iff (layout.size + (layout.align - 1) < 2 ^ (8 * cfg.build.width.bytes - 1) ∧
      cfg.build.alignment ∣ ans.base ∧
      (ans.base ≠ 0 → ans.base + cfg.requested layout ≤ cfg.build.range) ∧
      (ans.base ≠ 0 → ∀ b ∈ p.blocks, b.region.Apart ⟨ans.base, cfg.requested layout⟩))
    ⟨fun ⟨valid, aligned, fits, apart⟩ => ⟨valid, aligned, fits, apart⟩,
      fun fresh => ⟨fresh.valid, fresh.aligned, fresh.fits, fresh.apart⟩⟩

/-- The kernel keeps its promises. -/
def Kept (cfg : Config) (s : Shared) : Shared.Label → Prop
  | .request _ _ layout ans => Fresh cfg s.pool layout ans
  | _ => True

instance (cfg : Config) (s : Shared) : (l : Shared.Label) → Decidable (Kept cfg s l)
  | .request _ _ layout ans => inferInstanceAs (Decidable (Fresh cfg s.pool layout ans))
  | .write _ _ _ => .isTrue trivial
  | .dealloc _ => .isTrue trivial

/-- Blocks that do not overlap. -/
structure Separate (blocks : List Block) : Prop where
  apart : blocks.Pairwise fun b c => b.region.Apart c.region
  positive : ∀ b ∈ blocks, 0 < b.size

/-- The clients of a pool that already holds the blocks of others. -/
def shared (cfg : Config) (others : List Block) : Sys Shared Shared.Label where
  start s := s.pool.blocks = others ∧ Separate others ∧ s.held = []
  step := Shared.step cfg

/-! ## One allocation -/

section Requests

variable {cfg : Config} {a : WdkAllocator} {zeroed : Bool} {layout : Layout} {ans : Answer}
  {p p' : Pool} {ptr : Nat}

/-- A pointer that was given out, and the pool then. -/
structure Grant (cfg : Config) (a : WdkAllocator) (zeroed : Bool) (layout : Layout) (base : Nat)
    (p p' : Pool) (ptr : Nat) : Prop where
  nonNull : ptr ≠ 0
  inside : base ≤ ptr ∧ ptr + layout.size ≤ base + cfg.requested layout
  block : p'.blocks = ⟨base, cfg.requested layout, a.tag⟩ :: p.blocks
  frame : ∀ x, x < base ∨ base + cfg.requested layout ≤ x → p'.mem x = p.mem x
  zero : zeroed = true → ∀ i, i < layout.size → p'.mem (ptr + i) = 0
  freed : ∀ p'' : Pool, (∀ x, base ≤ x → x < ptr → p''.mem x = p'.mem x) →
    cfg.dealloc a ptr layout p'' = exFreePoolWithTag base a.tag p''

theorem Config.request_of_allocAlign (feature : cfg.allocAlign = true) :
    cfg.request a zeroed ans layout p = a.request cfg.build zeroed ans layout p := by
  obtain ⟨alloc, allocZeroed, -⟩ := Config.alloc_of_allocAlign feature a ans layout p
  unfold request WdkAllocator.request
  rw [alloc, allocZeroed]

theorem Config.dealloc_of_allocAlign (feature : cfg.allocAlign = true) :
    cfg.dealloc a ptr layout p = a.dealloc cfg.build ptr layout p := by
  unfold dealloc WdkAllocator.dealloc
  rw [if_pos feature]

theorem Config.request_empty (empty : layout.size = 0) :
    cfg.request a zeroed ans layout p = some (p, WdkAllocator.dangling) := by
  unfold request allocZeroed alloc allocBy
  simp only [if_pos empty, ite_self]

/-- The kernel refuses. -/
theorem Config.request_null (positive : 0 < layout.size) (null : ans.base = 0) :
    cfg.request a zeroed ans layout p = some (p, 0) := by
  have nonEmpty : layout.size ≠ 0 := Nat.ne_of_gt positive
  have header : ∀ zeroed, allocOveraligned cfg.build ans a.pool a.tag layout zeroed p =
      some (p, 0) := by
    intro zeroed
    unfold allocOveraligned
    split
    · rfl
    · rw [exAllocatePoolUninitialized_null null]
      exact if_pos rfl
  unfold request allocZeroed alloc allocBy
  simp only [if_neg nonEmpty, header, exAllocatePool_null null,
    exAllocatePoolUninitialized_null null, ite_self]

/-- With the feature on. -/
theorem Config.grant_of_allocAlign (feature : cfg.allocAlign = true) (positive : 0 < layout.size)
    (fresh : Fresh cfg p layout ans) (block : ans.base ≠ 0) :
    ∃ p' ptr, cfg.request a zeroed ans layout p = some (p', ptr) ∧
      Grant cfg a zeroed layout ans.base p p' ptr := by
  have fits := fresh.fits block
  have size : cfg.requested layout = Allocator.requested cfg.build layout := if_pos feature
  rw [size] at fits
  obtain ⟨p', ptr, result, null, -, granted⟩ := alloc_dealloc cfg.build a zeroed layout ans p
    positive fresh.valid.align_lt
  have nonNull : ptr ≠ 0 := by
    intro isNull
    rcases null.mp isNull with refused | ⟨needs, overflow⟩
    · exact block refused
    · rw [show Allocator.requested cfg.build layout = _ from if_pos needs] at fits
      have alignPos := layout.align_pos
      omega
  obtain ⟨placed, -⟩ := granted fresh.aligned fits nonNull
  refine ⟨p', ptr, (Config.request_of_allocAlign feature).trans result, nonNull, ?_, ?_, ?_,
    placed.zero, ?_⟩
  · rw [size]
    exact placed.inside
  · rw [size]
    exact placed.block
  · rw [size]
    exact placed.frame
  · intro p'' kept
    rw [Config.dealloc_of_allocAlign feature]
    exact (placed.freed p'' kept).2

/-- With the feature off, for a layout that the pool can serve. -/
theorem Config.grant_of_plain (feature : cfg.allocAlign = false) (positive : 0 < layout.size)
    (small : layout.align ≤ cfg.build.alignment) (block : ans.base ≠ 0) :
    ∃ p' ptr, cfg.request a zeroed ans layout p = some (p', ptr) ∧
      Grant cfg a zeroed layout ans.base p p' ptr := by
  have nonEmpty : layout.size ≠ 0 := Nat.ne_of_gt positive
  have notOn : ¬cfg.allocAlign = true := by rw [feature]; exact Bool.false_ne_true
  have size : cfg.requested layout = layout.size := if_neg notOn
  obtain ⟨p', result, blocks, frame, zero⟩ := plain_grants a zeroed layout.size p block
  refine ⟨p', ans.base, ?_, block, ?_, ?_, ?_, zero, ?_⟩
  · unfold Config.request Config.allocZeroed Config.alloc Config.allocBy
    rw [if_neg nonEmpty, if_neg nonEmpty, if_neg notOn, if_neg notOn,
      if_neg (Nat.not_lt.mpr small), if_neg (Nat.not_lt.mpr small), ← apply_ite some, result]
  · rw [size]
    exact ⟨Nat.le_refl _, Nat.le_refl _⟩
  · rw [size]
    exact blocks
  · rw [size]
    exact frame
  · intro p'' _
    unfold Config.dealloc
    rw [if_neg nonEmpty, if_neg notOn]

/-- Every request comes back: with the constant for an empty layout, with null and the pool
as it was, or with a pointer. -/
theorem Config.request_cases (cfg : Config) (a : WdkAllocator) (zeroed : Bool)
    (fresh : Fresh cfg p layout ans) :
    (layout.size = 0 ∧
        cfg.request a zeroed ans layout p = some (p, WdkAllocator.dangling)) ∨
      cfg.request a zeroed ans layout p = some (p, 0) ∨
      0 < layout.size ∧ ans.base ≠ 0 ∧ ∃ p' ptr, cfg.request a zeroed ans layout p =
        some (p', ptr) ∧ Grant cfg a zeroed layout ans.base p p' ptr := by
  rcases Nat.eq_zero_or_pos layout.size with empty | positive
  · exact .inl ⟨empty, Config.request_empty empty⟩
  · by_cases block : ans.base = 0
    · exact .inr (.inl (Config.request_null positive block))
    · cases feature : cfg.allocAlign with
      | true =>
          exact .inr (.inr ⟨positive, block,
            Config.grant_of_allocAlign feature positive fresh block⟩)
      | false =>
          rcases Nat.lt_or_ge cfg.build.alignment layout.align with large | small
          · refine .inr (.inl ?_)
            have nonEmpty : layout.size ≠ 0 := Nat.ne_of_gt positive
            unfold Config.request Config.allocZeroed Config.alloc Config.allocBy
            simp only [if_neg nonEmpty, feature, Bool.false_eq_true, if_false, if_pos large,
              ite_self]
          · exact .inr (.inr ⟨positive, block,
              Config.grant_of_plain feature positive small block⟩)

end Requests

/-! ## The blocks of the pool -/

section Blocks

variable {blocks blocks' : List Block} {b c : Block} {p : Pool}

theorem Separate.perm (separate : Separate blocks) (perm : blocks.Perm blocks') :
    Separate blocks' :=
  ⟨separate.apart.perm perm fun apart => apart.symm,
    fun b member => separate.positive b (perm.mem_iff.mpr member)⟩

theorem Separate.of_cons (separate : Separate (b :: blocks)) : Separate blocks :=
  ⟨separate.apart.of_cons, fun c member => separate.positive c (List.mem_cons_of_mem _ member)⟩

theorem Separate.cons (separate : Separate blocks) (positive : 0 < b.size)
    (apart : ∀ c ∈ blocks, c.region.Apart b.region) : Separate (b :: blocks) := by
  refine ⟨List.pairwise_cons.mpr ⟨fun c member => (apart c member).symm, separate.apart⟩, ?_⟩
  intro c member
  rcases List.mem_cons.mp member with rfl | old
  · exact positive
  · exact separate.positive c old

/-- A block is known by its base. -/
theorem Separate.eq_of_base (separate : Separate blocks) (member : b ∈ blocks)
    (member' : c ∈ blocks) (same : b.base = c.base) : b = c := by
  by_contra other
  have symm : Std.Symm fun b c : Block => b.region.Apart c.region := ⟨fun _ _ apart => apart.symm⟩
  have apart : b.region.Apart c.region := separate.apart.forall member member' other
  exact apart.start_ne (separate.positive b member) (separate.positive c member') same

/-- A block that is there is freed, and no other one. -/
theorem Separate.free (separate : Separate p.blocks) (member : b ∈ p.blocks) :
    ∃ blocks, exFreePoolWithTag b.base b.tag p = some ⟨p.mem, blocks⟩ ∧
      p.blocks.Perm (b :: blocks) := by
  have holds : decide (b.base = b.base ∧ b.tag = b.tag) = true := by simp
  obtain ⟨c, before, after, -, found, split, erased⟩ := List.exists_of_eraseP
    (p := fun c : Block => decide (c.base = b.base ∧ c.tag = b.tag)) member holds
  have same : c = b := by
    have member' : c ∈ p.blocks := by
      rw [split]
      exact List.mem_append_right _ List.mem_cons_self
    exact separate.eq_of_base member' member (of_decide_eq_true found).1
  subst same
  refine ⟨before ++ after, ?_, ?_⟩
  · unfold exFreePoolWithTag
    rw [if_pos (List.any_eq_true.mpr ⟨c, member, holds⟩), erased]
  · rw [split]
    exact List.perm_middle

end Blocks

/-! ## The invariant -/

/-- The block of an allocation that is not empty. -/
def Allocation.block (cfg : Config) (al : Allocation) : Option Block :=
  if al.layout.size = 0 then none else some ⟨al.base, cfg.requested al.layout, al.alloc.tag⟩

/-- The block of an entry. -/
def entryBlock (cfg : Config) (o : Option Allocation) : Option Block :=
  o.bind (Allocation.block cfg)

/-- The blocks of what is held. -/
def Shared.blocks (cfg : Config) (s : Shared) : List Block :=
  s.held.filterMap (entryBlock cfg)

/-- The allocation lies in its block, and its header, if it has one, leads back to it. -/
structure Seated (cfg : Config) (al : Allocation) (p : Pool) : Prop where
  inside : al.base ≤ al.ptr ∧ al.ptr + al.layout.size ≤ al.base + cfg.requested al.layout
  freed : ∀ p' : Pool, (∀ x, al.base ≤ x → x < al.ptr → p'.mem x = p.mem x) →
    cfg.dealloc al.alloc al.ptr al.layout p' = exFreePoolWithTag al.base al.alloc.tag p'

structure Sound (cfg : Config) (others : List Block) (s : Shared) : Prop where
  blocks : s.pool.blocks.Perm (s.blocks cfg ++ others)
  separate : Separate s.pool.blocks
  seated : ∀ al, some al ∈ s.held → 0 < al.layout.size → Seated cfg al s.pool

section Invariant

variable {cfg : Config} {others : List Block} {s s' : Shared} {al al' : Allocation} {k k' : Nat}
  {p p' : Pool}

theorem Allocation.block_eq (positive : 0 < al.layout.size) :
    al.block cfg = some ⟨al.base, cfg.requested al.layout, al.alloc.tag⟩ :=
  if_neg (Nat.ne_of_gt positive)

theorem Allocation.block_empty (empty : al.layout.size = 0) : al.block cfg = none :=
  if_pos empty

/-- The block is still in its place if the bytes in front of the pointer are. -/
theorem Seated.of_agree (seated : Seated cfg al p)
    (agree : ∀ x, al.base ≤ x → x < al.ptr → p'.mem x = p.mem x) : Seated cfg al p' :=
  ⟨seated.inside, fun p'' kept =>
    seated.freed p'' fun x low high => (kept x low high).trans (agree x low high)⟩

theorem Sound.member (sound : Sound cfg others s) (held : some al ∈ s.held)
    (positive : 0 < al.layout.size) :
    ⟨al.base, cfg.requested al.layout, al.alloc.tag⟩ ∈ s.pool.blocks := by
  refine sound.blocks.mem_iff.mpr (List.mem_append_left _ ?_)
  exact List.mem_filterMap.mpr ⟨some al, held, Allocation.block_eq positive⟩

/-- The blocks of two allocations lie apart. -/
theorem Sound.apart (sound : Sound cfg others s) (held : s.held[k]? = some (some al))
    (held' : s.held[k']? = some (some al')) (other : k ≠ k') (positive : 0 < al.layout.size)
    (positive' : 0 < al'.layout.size) :
    (⟨al.base, cfg.requested al.layout⟩ : Region).Apart ⟨al'.base, cfg.requested al'.layout⟩ := by
  have pairwise := (sound.separate.perm sound.blocks).apart.sublist (List.sublist_append_left _ _)
  have ordered := List.pairwise_iff_getElem.mp (List.pairwise_filterMap.mp pairwise)
  obtain ⟨bound, here⟩ := List.getElem?_eq_some_iff.mp held
  obtain ⟨bound', here'⟩ := List.getElem?_eq_some_iff.mp held'
  rcases Nat.lt_or_gt_of_ne other with before | after
  · have apart := ordered k k' bound bound' before
    rw [here, here'] at apart
    exact apart _ (Allocation.block_eq positive) _ (Allocation.block_eq positive')
  · have apart := ordered k' k bound' bound after
    rw [here, here'] at apart
    exact (apart _ (Allocation.block_eq positive') _ (Allocation.block_eq positive)).symm

theorem Sound.within (sound : Sound cfg others s) (held : some al ∈ s.held)
    (positive : 0 < al.layout.size) :
    (⟨al.ptr, al.layout.size⟩ : Region).Within ⟨al.base, cfg.requested al.layout⟩ :=
  (sound.seated al held positive).inside

/-- An allocation lies apart from the block of another one. -/
theorem Sound.apart_block (sound : Sound cfg others s) (held : s.held[k]? = some (some al))
    (held' : s.held[k']? = some (some al')) (other : k ≠ k') (positive : 0 < al.layout.size)
    (positive' : 0 < al'.layout.size) :
    (⟨al.ptr, al.layout.size⟩ : Region).Apart ⟨al'.base, cfg.requested al'.layout⟩ :=
  ((sound.apart held held' other positive positive').symm.of_within
    (sound.within (List.mem_of_getElem? held) positive)).symm

/-- What an entry contributes goes with it. -/
theorem filterMap_set_none {α β : Type} {f : Option α → Option β} {l : List (Option α)} {o : Option α}
    (empty : f none = none) (here : l[k]? = some o) :
    (l.filterMap f).Perm ((f o).toList ++ (l.set k none).filterMap f) := by
  induction l generalizing k with
  | nil => cases here
  | cons head l ih =>
      cases k with
      | zero =>
          obtain rfl : head = o := Option.some.inj here
          rw [List.set_cons_zero, List.filterMap_cons_none empty]
          cases value : f head with
          | none => rw [List.filterMap_cons_none value, Option.toList_none, List.nil_append]
          | some c => rw [List.filterMap_cons_some value, Option.toList_some, List.singleton_append]
      | succ k =>
          rw [List.set_cons_succ]
          have rest := ih (k := k) here
          cases value : f head with
          | none =>
              rw [List.filterMap_cons_none value, List.filterMap_cons_none value]
              exact rest
          | some c =>
              rw [List.filterMap_cons_some value, List.filterMap_cons_some value]
              exact (rest.cons c).trans List.perm_middle.symm

theorem Config.size_le_requested (cfg : Config) (layout : Layout) :
    layout.size ≤ cfg.requested layout := by
  unfold Config.requested Allocator.requested
  split
  · split <;> omega
  · exact Nat.le_refl _

/-- What others see does not change where nothing is written in their blocks. -/
theorem Sound.read_eq (sound : Sound cfg others s) (held : some al ∈ s.held) {r : Region}
    (apart : ∀ b ∈ s.pool.blocks, b.region.Apart r) {m : Bytes}
    (frame : ∀ x, x < r.start ∨ r.start + r.size ≤ x → m x = s.pool.mem x) :
    m.read al.ptr al.layout.size = s.pool.mem.read al.ptr al.layout.size := by
  rcases Nat.eq_zero_or_pos al.layout.size with empty | positive
  · rw [empty]
    rfl
  · have outer := apart _ (sound.member held positive)
    have inside := (sound.seated al held positive).inside
    have inner : r.Apart ⟨al.ptr, al.layout.size⟩ := outer.symm.of_within inside
    exact inner.read_eq frame

/-- A new allocation keeps the invariant and what the others see. -/
theorem Sound.grant {a : WdkAllocator} {zeroed : Bool} {layout : Layout} {ans : Answer} {ptr : Nat}
    (sound : Sound cfg others s) (fresh : Fresh cfg s.pool layout ans) (block : ans.base ≠ 0)
    (positive : 0 < layout.size) (grant : Grant cfg a zeroed layout ans.base s.pool p' ptr) :
    Sound cfg others ⟨p', s.held ++ [some ⟨a, layout, ptr, ans.base⟩]⟩ ∧
      ∀ al, some al ∈ s.held →
        p'.mem.read al.ptr al.layout.size = s.pool.mem.read al.ptr al.layout.size := by
  have apart := fresh.apart block
  have requested := cfg.size_le_requested layout
  have newBlock : entryBlock cfg (some ⟨a, layout, ptr, ans.base⟩) =
      some ⟨ans.base, cfg.requested layout, a.tag⟩ := Allocation.block_eq positive
  refine ⟨⟨?_, ?_, ?_⟩, ?_⟩
  · change p'.blocks.Perm
      ((s.held ++ [some (Allocation.mk a layout ptr ans.base)]).filterMap (entryBlock cfg) ++ others)
    rw [grant.block, List.filterMap_append, List.filterMap_cons_some newBlock, List.filterMap_nil,
      List.append_assoc, List.singleton_append]
    exact (sound.blocks.cons _).trans List.perm_middle.symm
  · change Separate p'.blocks
    rw [grant.block]
    exact sound.separate.cons (Nat.lt_of_lt_of_le positive requested) apart
  · intro al member nonEmpty
    rcases List.mem_append.mp member with old | new
    · have outer := apart _ (sound.member old nonEmpty)
      have seated := sound.seated al old nonEmpty
      refine seated.of_agree fun x low high => grant.frame x ?_
      have inside := seated.inside
      unfold Region.Apart Block.region at outer
      dsimp only at outer
      omega
    · cases List.mem_singleton.mp new
      exact ⟨grant.inside, grant.freed⟩
  · intro al member
    exact sound.read_eq member (r := ⟨ans.base, cfg.requested layout⟩) apart grant.frame

/-- An allocation of size 0 has no block. -/
theorem Sound.grantEmpty {a : WdkAllocator} {layout : Layout} {base : Nat}
    (sound : Sound cfg others s) (empty : layout.size = 0) :
    Sound cfg others ⟨s.pool, s.held ++ [some ⟨a, layout, WdkAllocator.dangling, base⟩]⟩ := by
  refine ⟨?_, sound.separate, ?_⟩
  · have noBlock : entryBlock cfg (some ⟨a, layout, WdkAllocator.dangling, base⟩) = none :=
      Allocation.block_empty empty
    change s.pool.blocks.Perm ((s.held ++ [some _]).filterMap (entryBlock cfg) ++ others)
    rw [List.filterMap_append, List.filterMap_cons_none noBlock, List.filterMap_nil, List.append_nil]
    exact sound.blocks
  · intro al member nonEmpty
    rcases List.mem_append.mp member with old | new
    · exact sound.seated al old nonEmpty
    · cases List.mem_singleton.mp new
      exact absurd empty (Nat.ne_of_gt nonEmpty)

/-- Whatever is written inside one allocation keeps the invariant and what the others see. -/
theorem Sound.overwrite {m : Bytes} (sound : Sound cfg others s)
    (held : s.held[k]? = some (some al))
    (frame : ∀ x, ¬(⟨al.ptr, al.layout.size⟩ : Region).Has x → m x = s.pool.mem x) :
    Sound cfg others ⟨{ s.pool with mem := m }, s.held⟩ ∧
      ∀ k' al', k' ≠ k → s.held[k']? = some (some al') →
        m.read al'.ptr al'.layout.size = s.pool.mem.read al'.ptr al'.layout.size := by
  have elsewhere : ∀ k' al', k' ≠ k → s.held[k']? = some (some al') → 0 < al'.layout.size →
      ∀ x, (⟨al'.base, cfg.requested al'.layout⟩ : Region).Has x → m x = s.pool.mem x := by
    intro k' al' other held' positive' x has
    refine frame x fun touched => ?_
    have positive : 0 < al.layout.size := by
      unfold Region.Has at touched
      dsimp only at touched
      omega
    have inside := sound.within (List.mem_of_getElem? held) positive
    exact (sound.apart held held' other.symm positive positive').not_has
      (touched.of_within inside) has
  refine ⟨⟨sound.blocks, sound.separate, ?_⟩, ?_⟩
  · intro al' member positive'
    obtain ⟨k', held'⟩ := List.mem_iff_getElem?.mp member
    have seated' := sound.seated al' member positive'
    have inside' := seated'.inside
    refine seated'.of_agree fun x low high => ?_
    by_cases same : k' = k
    · subst same
      cases held.symm.trans held'
      refine frame x fun touched => ?_
      exact Nat.not_le_of_lt high touched.1
    · refine elsewhere k' al' same held' positive' x ⟨low, ?_⟩
      dsimp only
      omega
  · intro k' al' other held'
    rcases Nat.eq_zero_or_pos al'.layout.size with empty | positive'
    · rw [empty]
      rfl
    · apply Bytes.read_congr
      intro i inside
      have inside' := (sound.seated al' (List.mem_of_getElem? held') positive').inside
      refine elsewhere k' al' other held' positive' _ ⟨?_, ?_⟩
      · exact Nat.le_trans inside'.1 (Nat.le_add_right _ _)
      · dsimp only
        omega

/-- A store to one allocation keeps the invariant and what the others see. -/
theorem Sound.write {i : Nat} (sound : Sound cfg others s) (held : s.held[k]? = some (some al))
    (inside : i < al.layout.size) (byte : UInt8) :
    Sound cfg others ⟨{ s.pool with mem := Function.update s.pool.mem (al.ptr + i) byte }, s.held⟩ ∧
      ∀ k' al', k' ≠ k → s.held[k']? = some (some al') →
        Bytes.read (Function.update s.pool.mem (al.ptr + i) byte) al'.ptr al'.layout.size =
          s.pool.mem.read al'.ptr al'.layout.size := by
  refine sound.overwrite held fun x outside => Function.update_of_ne ?_ _ _
  rintro rfl
  exact outside ⟨Nat.le_add_right _ _, Nat.add_lt_add_left inside _⟩

/-- The pool after a new allocation that may have been written to. -/
structure Joined (cfg : Config) (others : List Block) (s : Shared) (al : Allocation) (p : Pool) :
    Prop where
  sound : Sound cfg others ⟨p, s.held ++ [some al]⟩
  same : ∀ al', some al' ∈ s.held →
    p.mem.read al'.ptr al'.layout.size = s.pool.mem.read al'.ptr al'.layout.size

theorem Sound.grantWrite {a : WdkAllocator} {zeroed : Bool} {layout : Layout} {ans : Answer}
    {ptr : Nat} {m : Bytes} (sound : Sound cfg others s) (fresh : Fresh cfg s.pool layout ans)
    (block : ans.base ≠ 0) (positive : 0 < layout.size)
    (grant : Grant cfg a zeroed layout ans.base s.pool p' ptr)
    (frame : ∀ x, ¬(⟨ptr, layout.size⟩ : Region).Has x → m x = p'.mem x) :
    Joined cfg others s ⟨a, layout, ptr, ans.base⟩ { p' with mem := m } := by
  obtain ⟨sound', same⟩ := sound.grant fresh block positive grant
  have last : (s.held ++ [some (Allocation.mk a layout ptr ans.base)])[s.held.length]? =
      some (some ⟨a, layout, ptr, ans.base⟩) := by
    rw [List.getElem?_append_right (Nat.le_refl _), Nat.sub_self, List.getElem?_cons_zero]
  obtain ⟨sound'', kept⟩ := sound'.overwrite last frame
  refine ⟨sound'', fun al' member => ?_⟩
  obtain ⟨k', here⟩ := List.mem_iff_getElem?.mp member
  obtain ⟨bound, -⟩ := List.getElem?_eq_some_iff.mp here
  have before : (s.held ++ [some (Allocation.mk a layout ptr ans.base)])[k']? = some (some al') :=
    (List.getElem?_append_left bound).trans here
  exact (kept k' al' (Nat.ne_of_lt bound) before).trans (same al' member)

/-- Giving an allocation back never stops the machine, and takes its block and no other. -/
theorem Sound.dealloc (sound : Sound cfg others s) (held : s.held[k]? = some (some al)) :
    ∃ blocks, cfg.dealloc al.alloc al.ptr al.layout s.pool = some ⟨s.pool.mem, blocks⟩ ∧
      Sound cfg others ⟨⟨s.pool.mem, blocks⟩, s.held.set k none⟩ := by
  have member := List.mem_of_getElem? held
  have shrinks : (s.blocks cfg).Perm
      ((al.block cfg).toList ++ (s.held.set k none).filterMap (entryBlock cfg)) :=
    filterMap_set_none rfl held
  have seated : ∀ al', some al' ∈ s.held.set k none → 0 < al'.layout.size →
      Seated cfg al' s.pool := by
    intro al' member'
    rcases List.mem_or_eq_of_mem_set member' with old | new
    · exact sound.seated al' old
    · cases new
  rcases Nat.eq_zero_or_pos al.layout.size with empty | positive
  · rw [Allocation.block_empty empty, Option.toList_none, List.nil_append] at shrinks
    refine ⟨s.pool.blocks, if_pos empty, ?_, sound.separate, seated⟩
    exact sound.blocks.trans (shrinks.append_right others)
  · rw [Allocation.block_eq positive, Option.toList_some, List.singleton_append] at shrinks
    obtain ⟨blocks, freed, perm⟩ := sound.separate.free (sound.member member positive)
    refine ⟨blocks, ?_, ?_, (sound.separate.perm perm).of_cons, fun al' member' nonEmpty =>
      (seated al' member' nonEmpty).of_agree fun _ _ _ => rfl⟩
    · rw [(sound.seated al member positive).freed s.pool fun _ _ _ => rfl]
      exact freed
    · refine List.Perm.cons_inv (a := ⟨al.base, cfg.requested al.layout, al.alloc.tag⟩) ?_
      exact perm.symm.trans (sound.blocks.trans (shrinks.append_right others))

/-- The block of an allocation is what its end takes from the pool. -/
theorem Sound.blocks_of_dealloc {blocks : List Block} (sound : Sound cfg others s)
    (held : s.held[k]? = some (some al))
    (after : Sound cfg others ⟨⟨s.pool.mem, blocks⟩, s.held.set k none⟩) :
    s.pool.blocks.Perm ((al.block cfg).toList ++ blocks) := by
  have shrinks : (s.blocks cfg).Perm
      ((al.block cfg).toList ++ (s.held.set k none).filterMap (entryBlock cfg)) :=
    filterMap_set_none rfl held
  have rest : ((al.block cfg).toList ++ (s.held.set k none).filterMap (entryBlock cfg) ++
      others).Perm ((al.block cfg).toList ++ blocks) := by
    rw [List.append_assoc]
    exact after.blocks.symm.append_left _
  exact (sound.blocks.trans (shrinks.append_right others)).trans rest

/-- An entry that holds nothing may be left out. -/
theorem Sound.of_append_none {held : List (Option Allocation)}
    (sound : Sound cfg others ⟨p, held ++ [none]⟩) : Sound cfg others ⟨p, held⟩ := by
  refine ⟨?_, sound.separate, fun al member =>
    sound.seated al (List.mem_append_left _ member)⟩
  have blocks := sound.blocks
  unfold Shared.blocks at *
  rwa [List.filterMap_append, List.filterMap_cons_none rfl, List.filterMap_nil,
    List.append_nil] at blocks

end Invariant

/-! ## Runs -/

section Runs

variable {cfg : Config} {others : List Block} {s s' : Shared} {al : Allocation} {k i : Nat}
  {l : Shared.Label} {t : Arrays} {bytes : List UInt8}

namespace Shared

theorem step_write {byte : UInt8} (next : s.step cfg (.write k i byte) = some s') :
    ∃ al, s.held[k]? = some (some al) ∧ i < al.layout.size ∧
      s' = ⟨{ s.pool with mem := Function.update s.pool.mem (al.ptr + i) byte }, s.held⟩ := by
  simp only [step] at next
  split at next
  · split at next
    · exact ⟨_, ‹_›, ‹_›, (Option.some.inj next).symm⟩
    · cases next
  · cases next

theorem step_dealloc (next : s.step cfg (.dealloc k) = some s') :
    ∃ al, s.held[k]? = some (some al) ∧ ∃ p,
      cfg.dealloc al.alloc al.ptr al.layout s.pool = some p ∧ s' = ⟨p, s.held.set k none⟩ := by
  simp only [step] at next
  split at next
  · obtain ⟨p, freed, rfl⟩ := Option.map_eq_some_iff.mp next
    exact ⟨_, ‹_›, p, freed, rfl⟩
  · cases next

theorem view_eq (s : Shared) (k : Nat) :
    s.view[k]? = (s.held[k]?).map (Option.map fun al =>
      s.pool.mem.read al.ptr al.layout.size) :=
  List.getElem?_map

theorem view_some : s.view[k]? = some (some bytes) ↔ ∃ al, s.held[k]? = some (some al) ∧
    s.pool.mem.read al.ptr al.layout.size = bytes := by
  rw [view_eq]
  simp only [Option.map_eq_some_iff]
  constructor
  · rintro ⟨o, held, al, rfl, seen⟩
    exact ⟨al, held, seen⟩
  · rintro ⟨al, held, seen⟩
    exact ⟨_, held, al, rfl, seen⟩

/-- A new entry after entries that look the same. -/
theorem view_append {p : Pool} {al : Allocation}
    (same : ∀ al, some al ∈ s.held →
      p.mem.read al.ptr al.layout.size = s.pool.mem.read al.ptr al.layout.size) :
    (Shared.mk p (s.held ++ [some al])).view =
      s.view ++ [some (p.mem.read al.ptr al.layout.size)] := by
  unfold view
  rw [List.map_append, List.map_singleton, Option.map_some]
  congr 1
  apply List.map_congr_left
  intro o member
  cases o with
  | none => rfl
  | some al => exact congrArg some (same al member)

theorem view_write {byte : UInt8} (held : s.held[k]? = some (some al))
    (same : ∀ k' al', k' ≠ k → s.held[k']? = some (some al') →
      Bytes.read (Function.update s.pool.mem (al.ptr + i) byte) al'.ptr al'.layout.size =
        s.pool.mem.read al'.ptr al'.layout.size) :
    (Shared.mk { s.pool with mem := Function.update s.pool.mem (al.ptr + i) byte } s.held).view =
      s.view.set k (some ((s.pool.mem.read al.ptr al.layout.size).set i byte)) := by
  apply List.ext_getElem?
  intro k'
  rw [List.getElem?_set, view_eq, view_eq]
  rcases eq_or_ne k k' with rfl | other
  · have bound : k < s.view.length := by
      unfold view
      rw [List.length_map]
      exact (List.getElem?_eq_some_iff.mp held).1
    rw [if_pos rfl, if_pos bound, held, Option.map_some, Option.map_some, Bytes.read_update]
  · rw [if_neg other]
    cases here : s.held[k']? with
    | none => rfl
    | some o =>
        cases o with
        | none => rfl
        | some al' => exact congrArg (some ∘ some) (same k' al' other.symm here)

theorem view_dealloc {blocks : List Block} :
    (Shared.mk ⟨s.pool.mem, blocks⟩ (s.held.set k none)).view = s.view.set k none :=
  List.map_set

end Shared

/-- A step of the pool and its clients keeps the invariant and is a step of the arrays. -/
theorem Sound.step (sound : Sound cfg others s) (kept : Kept cfg s l)
    (next : s.step cfg l = some s') : Sound cfg others s' ∧ s.view.Step l s'.view := by
  cases l with
  | request a zeroed layout ans =>
      have fresh : Fresh cfg s.pool layout ans := kept
      obtain ⟨⟨p, ptr⟩, result, rfl⟩ := Option.map_eq_some_iff.mp next
      rcases cfg.request_cases a zeroed fresh with
        ⟨empty, asked⟩ | asked | ⟨positive, block, p', ptr', asked, grant⟩
      · cases result.symm.trans asked
        dsimp only
        rw [if_neg (show WdkAllocator.dangling ≠ 0 by decide)]
        refine ⟨sound.grantEmpty empty, ?_⟩
        rw [Shared.view_append fun _ _ => rfl]
        refine .granted ?_ ?_
        · exact Bytes.length_read
        · intro _
          rw [empty]
          rfl
      · cases result.symm.trans asked
        dsimp only
        rw [if_pos rfl]
        exact ⟨sound, .refused⟩
      · cases result.symm.trans asked
        dsimp only
        rw [if_neg grant.nonNull]
        obtain ⟨sound', same⟩ := sound.grant fresh block positive grant
        refine ⟨sound', ?_⟩
        rw [Shared.view_append same]
        exact .granted Bytes.length_read fun wanted => Bytes.read_zero (grant.zero wanted)
  | write k i byte =>
      obtain ⟨al, held, inside, rfl⟩ := Shared.step_write next
      obtain ⟨sound', same⟩ := sound.write held inside _
      refine ⟨sound', ?_⟩
      rw [Shared.view_write held same]
      exact .write (Shared.view_some.mpr ⟨al, held, rfl⟩) (Bytes.length_read ▸ inside)
  | dealloc k =>
      obtain ⟨al, held, p, freed, rfl⟩ := Shared.step_dealloc next
      obtain ⟨blocks, freed', sound'⟩ := sound.dealloc held
      cases freed.symm.trans freed'
      refine ⟨sound', ?_⟩
      rw [Shared.view_dealloc]
      exact .dealloc (Shared.view_some.mpr ⟨al, held, rfl⟩)

/-- What the arrays allow is never refused by a stop of the machine. -/
theorem Sound.progress (sound : Sound cfg others s) (kept : Kept cfg s l)
    (allowed : s.view.Step l t) : ∃ s', s.step cfg l = some s' := by
  cases allowed with
  | @refused a zeroed layout ans | @granted a zeroed layout ans bytes size zero =>
      have fresh : Fresh cfg s.pool layout ans := kept
      rcases cfg.request_cases a zeroed fresh with ⟨-, asked⟩ | asked | ⟨-, -, p', ptr, asked, -⟩ <;>
        exact ⟨_, by rw [Shared.step, asked]; rfl⟩
  | @write k i byte bytes held inside =>
      obtain ⟨al, here, rfl⟩ := Shared.view_some.mp held
      rw [Bytes.length_read] at inside
      exact ⟨_, by simp only [Shared.step, here]; exact if_pos inside⟩
  | @dealloc k bytes held =>
      obtain ⟨al, here, rfl⟩ := Shared.view_some.mp held
      obtain ⟨blocks, freed, -⟩ := sound.dealloc here
      exact ⟨_, by simp only [Shared.step, here, freed]; rfl⟩

theorem sound_of_reach (reached : (shared cfg others).Reach (Kept cfg) s) :
    Sound cfg others s := by
  refine Sys.Reach.invariant ?_ ?_ reached
  · rintro s ⟨rfl, separate, empty⟩
    refine ⟨?_, separate, ?_⟩
    · unfold Shared.blocks
      rw [empty, List.filterMap_nil, List.nil_append]
    · rw [empty]
      intro al member
      cases member
  · exact fun s l s' sound kept next => (sound.step kept next).1

/-- The pool and its clients, with a record of the calls. -/
def recorded (cfg : Config) (others : List Block) :
    Sys (Shared × List Shared.Label) Shared.Label :=
  (shared cfg others).recorded

/-- **The pool gives every client arrays of its own.** In every configuration, with any
number of allocators of any tags and pools, any layouts, and in any order of calls: what the
clients see after a run is what the same calls leave of independent arrays, and whatever call
the arrays allow next, the machine performs it. -/
theorem shared_refines_arrays {calls : List Shared.Label}
    (reached : (recorded cfg others).Reach (fun p l => Kept cfg p.1 l) (s, calls)) :
    Sys.Calls Arrays.Step [] calls s.view ∧
      ∀ l t, Kept cfg s l → s.view.Step l t → ∃ s', (shared cfg others).step s l = some s' := by
  obtain ⟨t, ⟨sound, rfl⟩, run⟩ : ∃ t, (Sound cfg others s ∧ s.view = t) ∧
      Sys.Calls Arrays.Step [] calls t := by
    refine Sys.Reach.exists_calls (S := shared cfg others)
      (R := fun s t => Sound cfg others s ∧ s.view = t) ?_ ?_ reached
    · rintro s ⟨begins, separate, empty⟩
      refine ⟨sound_of_reach (.start ⟨begins, separate, empty⟩), ?_⟩
      rw [Shared.view, empty, List.map_nil]
    · rintro s l s' t ⟨sound, rfl⟩ kept next
      obtain ⟨sound', answer⟩ := sound.step kept next
      exact ⟨s'.view, ⟨sound', rfl⟩, answer⟩
  exact ⟨run, fun l t kept allowed => sound.progress kept allowed⟩

/-- Two bytes at a multiple of 64 and three bytes, in a debug build; a byte of each is
written. -/
def twoClients : List Shared.Label :=
  [.request ⟨.paged, 7⟩ true ⟨2, 64, 6, rfl⟩ ⟨0x1000, fun _ => 3, true⟩,
    .request ⟨.nonPagedNx, 8⟩ true ⟨3, 1, 0, rfl⟩ ⟨0x2000, fun _ => 3, false⟩,
    .write 0 1 5, .write 1 0 9]

/-- Both clients, on a pool with a block of somebody else. -/
theorem shared_refines_arrays_of_two :
    ∃ s calls, (recorded ⟨⟨.w64, true⟩, true⟩ [⟨0x4000, 16, 1⟩]).Reach
        (fun p l => Kept ⟨⟨.w64, true⟩, true⟩ p.1 l) (s, calls) ∧
      s.view = [some [0, 5], some [9, 0, 0]] ∧
      (Sys.Calls Arrays.Step [] calls s.view ∧
        ∀ l t, Kept ⟨⟨.w64, true⟩, true⟩ s l → s.view.Step l t →
          ∃ s', (shared ⟨⟨.w64, true⟩, true⟩ [⟨0x4000, 16, 1⟩]).step s l = some s') := by
  have others : Separate [⟨0x4000, 16, 1⟩] := ⟨List.pairwise_singleton _ _, by decide⟩
  obtain ⟨⟨s, calls⟩, reached, seen⟩ := Sys.Reach.exists_of_execIf
    (fun p : Shared × List Shared.Label => p.1.view = [some [0, 5], some [9, 0, 0]]) twoClients
    (.start ⟨⟨rfl, others, rfl⟩, rfl⟩ : (recorded ⟨⟨.w64, true⟩, true⟩ [⟨0x4000, 16, 1⟩]).Reach
      (fun p l => Kept ⟨⟨.w64, true⟩, true⟩ p.1 l)
      (⟨⟨fun _ => 0, [⟨0x4000, 16, 1⟩]⟩, []⟩, [])) (by decide)
  exact ⟨s, calls, reached, seen, shared_refines_arrays reached⟩

/-- **Every block goes back.** In every state reached the pool has the blocks of what is held
and those of the others; what two clients hold lies apart, from each other's headers as well;
and when everything has been given back the pool has what it had at the start. -/
theorem blocks_returned (reached : (shared cfg others).Reach (Kept cfg) s) :
    s.pool.blocks.Perm (s.blocks cfg ++ others) ∧
      (∀ (k k' : Nat) (al al' : Allocation), k ≠ k' → s.held[k]? = some (some al) →
        s.held[k']? = some (some al') →
        0 < al.layout.size → 0 < al'.layout.size →
          (⟨al.ptr, al.layout.size⟩ : Region).Apart ⟨al'.base, cfg.requested al'.layout⟩) ∧
      ((∀ o ∈ s.held, o = none) → s.pool.blocks.Perm others) := by
  have sound := sound_of_reach reached
  refine ⟨sound.blocks, fun k k' al al' other held held' => sound.apart_block held held' other, ?_⟩
  · intro given
    have nothing : s.blocks cfg = [] :=
      List.filterMap_eq_nil_iff.mpr fun o member => by rw [given o member]; rfl
    have blocks := sound.blocks
    rwa [nothing] at blocks

/-- Both clients have given back what they held. -/
theorem blocks_returned_of_two :
    ∃ s, (shared ⟨⟨.w64, true⟩, true⟩ [⟨0x4000, 16, 1⟩]).Reach (Kept ⟨⟨.w64, true⟩, true⟩) s ∧
      s.held.length = 2 ∧ s.pool.blocks.Perm [⟨0x4000, 16, 1⟩] := by
  have others : Separate [⟨0x4000, 16, 1⟩] := ⟨List.pairwise_singleton _ _, by decide⟩
  obtain ⟨s, reached, two, given⟩ := Sys.Reach.exists_of_execIf
    (fun s : Shared => s.held.length = 2 ∧ ∀ o ∈ s.held, o.isNone) (twoClients ++ [.dealloc 0, .dealloc 1])
    (.start ⟨rfl, others, rfl⟩ : (shared ⟨⟨.w64, true⟩, true⟩ [⟨0x4000, 16, 1⟩]).Reach
      (Kept ⟨⟨.w64, true⟩, true⟩) ⟨⟨fun _ => 0, [⟨0x4000, 16, 1⟩]⟩, []⟩) (by decide)
  exact ⟨s, reached, two,
    (blocks_returned reached).2.2 fun o member => Option.isNone_iff_eq_none.mp (given o member)⟩

end Runs

end Kcom.Allocator
