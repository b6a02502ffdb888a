import Kcom.Conc.History
import Kcom.Allocator.Shared
import Kcom.Async.Method.Shim
import Kcom.Unicode.Pooled

/-!
# What owns the blocks of the pool

A block of the pool is owned by a value of Rust: a `KBox`, a DPC task, a work item, the
inner part of a timer, a string. None of them keeps all that `dealloc` has to be told. A
`KBox` keeps its allocator and its layout; a DPC task has its pool tag in its own header,
since `set_task_alloc_tag` may have changed the default; work items and timers use fixed
tags; a string works its layout out again. `Values` is what the owners are for: values that
do not know of each other.

`owners_refine_values` says that the owners of one pool are such values in every run, and
that whatever an owner may do next the machine does; `owners_return_blocks` says where the
blocks are.
-/

namespace Kcom.Owners

open Conc
open ReprC (Bytes Region)
open Com (NtStatus Width)
open Allocator
open Async.Method (KBoxError statusInsufficientResources)
open Unicode (OwnedUnicodeString UnicodeStringError cells textLayout storeText unitsAt describe
  arrayU16)
open Utf16 (encode)

/-! ## Boxes -/

structure KBox where
  ptr : Nat
  alloc : WdkAllocator
  layout : Allocator.Layout

/-- A `PinInit`: what it stores through the pointer, and what it returns. -/
structure PinInit where
  stores : List (Nat × UInt8)
  result : Except NtStatus Unit

section Boxes

variable (cfg : Config)

/-- `alloc`, and a store through a pointer that is not null. -/
def allocWrite (a : WdkAllocator) (layout : Allocator.Layout) (stores : List (Nat × UInt8))
    (ans : Answer) (p : Pool) : Option (Pool × Except NtStatus Nat) :=
  (cfg.alloc a ans layout p).map fun (p, ptr) =>
    if ptr = 0 then (p, .error statusInsufficientResources)
    else ({ p with mem := p.mem.store ptr stores }, .ok ptr)

def tryPinInit (a : WdkAllocator) (layout : Allocator.Layout) (init : PinInit) (ans : Answer)
    (p : Pool) : Option (Pool × Except KBoxError KBox) :=
  (allocWrite cfg a layout init.stores ans p).bind fun (p, result) =>
    match result, init.result with
    | .error status, _ => some (p, .error (.alloc status))
    | .ok ptr, .error err => (cfg.dealloc a ptr layout p).map fun p => (p, .error (.init err))
    | .ok ptr, .ok () => some (p, .ok ⟨ptr, a, layout⟩)

def KBox.drop (b : KBox) (p : Pool) : Option Pool :=
  cfg.dealloc b.alloc b.ptr b.layout p

variable {cfg} {a : WdkAllocator} {layout : Allocator.Layout} {init : PinInit} {ans : Answer}
  {p p' : Pool} {answer : Except KBoxError KBox}

/-- What the shim of an async method takes `try_pin_init` to answer. -/
theorem tryPinInit_agrees (result : tryPinInit cfg a layout init ans p = some (p', answer)) :
    ∃ out, (Async.Method.tryPinInit out).2 = answer.map (fun _ => ()) ∧
      (out = .pinned → init.result = .ok ()) ∧
      ∀ err, out = .initFailed err → init.result = .error err := by
  obtain ⟨⟨q, written⟩, allocated, rest⟩ := Option.bind_eq_some_iff.mp result
  cases written with
  | error status =>
      obtain rfl : statusInsufficientResources = status := by
        obtain ⟨⟨q', ptr⟩, -, stored⟩ := Option.map_eq_some_iff.mp allocated
        dsimp only at stored
        split at stored
        · exact Except.error.inj (Prod.mk.inj stored).2
        · cases (Prod.mk.inj stored).2
      cases rest
      refine ⟨.allocFailed, rfl, ?_, ?_⟩
      · intro same
        cases same
      · intro err same
        cases same
  | ok ptr =>
      cases returns : init.result with
      | error err =>
          rw [returns] at rest
          obtain ⟨q', -, same⟩ := Option.map_eq_some_iff.mp rest
          cases same
          refine ⟨.initFailed err, rfl, ?_, ?_⟩
          · intro same
            cases same
          · intro err' same
            cases same
            rfl
      | ok u =>
          rw [returns] at rest
          cases rest
          refine ⟨.pinned, rfl, fun _ => rfl, ?_⟩
          intro err same
          cases same

end Boxes

/-! ## Tasks, work items and timers -/

/-- `DEFAULT_TASK_TAG` at the start. -/
def defaultTaskTag : UInt32 := 0x6d6f636b

/-- `WorkItemTask::alloc_tag`. -/
def workItemTag : UInt32 := 0x776f636b

/-- The tag of `KernelTimerInner`. -/
def timerTag : UInt32 := 0x746e7269

/-- `GLOBAL_POOL_TAG`. -/
def globalPoolTag : UInt32 := 0x4d4f434b

/-- What `GlobalAllocator` builds for every call. -/
def globalAllocator : WdkAllocator :=
  ⟨.nonPagedNx, globalPoolTag⟩

/-- A type `Task<F>`: its layout, and where `header.alloc_tag` lies in it. -/
structure TaskType where
  layout : Allocator.Layout
  allocTag : Nat
  inside : allocTag + 4 ≤ layout.size

/-- Every field of a new task but the tag, and the tag. -/
def TaskType.stores (type : TaskType) (fields : List (Nat × UInt8)) (tag : UInt32) :
    List (Nat × UInt8) :=
  fields ++ Bytes.wordStores type.allocTag 4 tag.toNat

section Executor

variable (cfg : Config)

/-- `Task::allocate`, with the tag that `alloc_tag` has read. -/
def Task.allocate (type : TaskType) (tag : UInt32) (fields : List (Nat × UInt8)) (ans : Answer)
    (p : Pool) : Option (Pool × Except NtStatus Nat) :=
  allocWrite cfg ⟨.nonPagedNx, tag⟩ type.layout (type.stores fields tag) ans p

/-- `Task::destroy_shim` with `DestroyMode::Dealloc`. -/
def Task.destroyDealloc (type : TaskType) (task : Nat) (p : Pool) : Option Pool :=
  let tag := p.mem.readWord (task + type.allocTag) 4
  KBox.drop cfg ⟨task, ⟨.nonPagedNx, .ofNat tag⟩, type.layout⟩ p

def WorkItemTask.allocate (layout : Allocator.Layout) (fields : List (Nat × UInt8)) (ans : Answer)
    (p : Pool) : Option (Pool × Except NtStatus Nat) :=
  allocWrite cfg ⟨.nonPagedNx, workItemTag⟩ layout fields ans p

def WorkItemTask.free (layout : Allocator.Layout) (ptr : Nat) (p : Pool) : Option Pool :=
  KBox.drop cfg ⟨ptr, ⟨.nonPagedNx, workItemTag⟩, layout⟩ p

def KernelTimerInner.allocate (layout : Allocator.Layout) (fields : List (Nat × UInt8))
    (ans : Answer) (p : Pool) : Option (Pool × Except NtStatus Nat) :=
  allocWrite cfg ⟨.nonPagedNx, timerTag⟩ layout fields ans p

def KernelTimerInner.free (layout : Allocator.Layout) (ptr : Nat) (p : Pool) : Option Pool :=
  KBox.drop cfg ⟨ptr, ⟨.nonPagedNx, timerTag⟩, layout⟩ p

end Executor

/-! ## The owners -/

/-- What a value of Rust keeps of its block; `parts` are those of `KBox::into_raw_parts`. -/
inductive Owner
  | kbox (b : KBox)
  | parts (b : KBox)
  | task (ptr : Nat) (type : TaskType)
  | workItem (ptr : Nat) (layout : Allocator.Layout)
  | timer (ptr : Nat) (layout : Allocator.Layout)
  | string (s : OwnedUnicodeString) (alloc : WdkAllocator)

namespace Owner

def ptr : Owner → Nat
  | kbox b | parts b => b.ptr
  | task ptr _ | workItem ptr _ | timer ptr _ => ptr
  | string s _ => s.buffer

/-- The bytes that an owner may change. -/
def writable (i : Nat) : Owner → Bool
  | kbox b | parts b => i < b.layout.size
  | task _ type => i < type.layout.size ∧ (i < type.allocTag ∨ type.allocTag + 4 ≤ i)
  | workItem _ layout | timer _ layout => i < layout.size
  -- there are no mutable accessors
  | string _ _ => false

/-- What happens to the block when the owner goes. Raw parts do nothing. -/
def drop (cfg : Config) (p : Pool) : Owner → Option Pool
  | kbox b => b.drop cfg p
  | parts _ => none
  | task ptr type => Task.destroyDealloc cfg type ptr p
  | workItem ptr layout => WorkItemTask.free cfg layout ptr p
  | timer ptr layout => KernelTimerInner.free cfg layout ptr p
  | string s alloc => s.drop cfg alloc p

end Owner

structure State where
  pool : Pool
  /-- `DEFAULT_TASK_TAG` -/
  taskTag : UInt32
  owners : List (Option Owner)

inductive Label
  | tryPinInit (a : WdkAllocator) (layout : Allocator.Layout) (init : PinInit) (ans : Answer)
  | intoRawParts (k : Nat)
  | fromRawParts (k : Nat)
  | allocateTask (type : TaskType) (fields : List (Nat × UInt8)) (ans : Answer)
  | allocateWorkItem (layout : Allocator.Layout) (fields : List (Nat × UInt8)) (ans : Answer)
  | allocateTimer (layout : Allocator.Layout) (fields : List (Nat × UInt8)) (ans : Answer)
  | newIn (value : String) (a : WdkAllocator) (ans : Answer)
  | setTaskAllocTag (tag : UInt32)
  | write (k i : Nat) (byte : UInt8)
  | drop (k : Nat)

namespace State

variable (cfg : Config)

/-- A call has come back, with a new owner if it was successful. -/
def returned {ε α : Type} (s : State) (owner : α → Owner) : Pool × Except ε α → State
  | (p, .ok a) => ⟨p, s.taskTag, s.owners ++ [some (owner a)]⟩
  | (p, .error _) => ⟨p, s.taskTag, s.owners⟩

def step (s : State) : Label → Option State
  | .tryPinInit a layout init ans =>
      (Owners.tryPinInit cfg a layout init ans s.pool).map (s.returned .kbox)
  | .intoRawParts k =>
      match s.owners[k]? with
      | some (some (.kbox b)) => some { s with owners := s.owners.set k (some (.parts b)) }
      | _ => none
  | .fromRawParts k =>
      match s.owners[k]? with
      | some (some (.parts b)) => some { s with owners := s.owners.set k (some (.kbox b)) }
      | _ => none
  | .allocateTask type fields ans =>
      (Task.allocate cfg type s.taskTag fields ans s.pool).map (s.returned (.task · type))
  | .allocateWorkItem layout fields ans =>
      (WorkItemTask.allocate cfg layout fields ans s.pool).map (s.returned (.workItem · layout))
  | .allocateTimer layout fields ans =>
      (KernelTimerInner.allocate cfg layout fields ans s.pool).map (s.returned (.timer · layout))
  | .newIn value a ans =>
      (OwnedUnicodeString.newIn cfg value a ans s.pool).map (s.returned (.string · a))
  | .setTaskAllocTag tag => some { s with taskTag := tag }
  | .write k i byte =>
      match s.owners[k]? with
      | some (some o) =>
          if o.writable i then
            some { s with pool := { s.pool with
              mem := Function.update s.pool.mem (o.ptr + i) byte } }
          else none
      | _ => none
  | .drop k =>
      match s.owners[k]? with
      | some (some o) =>
          (o.drop cfg s.pool).map fun p => ⟨p, s.taskTag, s.owners.set k none⟩
      | _ => none

end State

/-- The owners of a pool that already holds the blocks of others. -/
def system (cfg : Config) (others : List Block) : Sys State Label where
  start s := s.pool.blocks = others ∧ Separate others ∧ s.taskTag = defaultTaskTag ∧ s.owners = []
  step := State.step cfg

/-- A type is initialised inside its own memory. -/
def Inside (layout : Allocator.Layout) (stores : List (Nat × UInt8)) : Prop :=
  ∀ w ∈ stores, w.1 < layout.size

instance (layout : Allocator.Layout) (stores : List (Nat × UInt8)) :
    Decidable (Inside layout stores) :=
  inferInstanceAs (Decidable (∀ w ∈ stores, w.1 < layout.size))

/-- The kernel keeps its promises, and the initialisers stay inside. -/
def Kept (cfg : Config) (s : State) : Label → Prop
  | .tryPinInit _ layout init ans => Fresh cfg s.pool layout ans ∧ Inside layout init.stores
  | .allocateTask type fields ans =>
      Fresh cfg s.pool type.layout ans ∧ Inside type.layout fields
  | .allocateWorkItem layout fields ans | .allocateTimer layout fields ans =>
      Fresh cfg s.pool layout ans ∧ Inside layout fields
  | .newIn value _ ans =>
      (encode value.toList).length ≤ 32766 → Fresh cfg s.pool (textLayout value) ans
  | _ => True

instance (cfg : Config) (s : State) : (l : Label) → Decidable (Kept cfg s l)
  | .tryPinInit _ layout init ans =>
      inferInstanceAs (Decidable (Fresh cfg s.pool layout ans ∧ Inside layout init.stores))
  | .allocateTask type fields ans =>
      inferInstanceAs (Decidable (Fresh cfg s.pool type.layout ans ∧ Inside type.layout fields))
  | .allocateWorkItem layout fields ans | .allocateTimer layout fields ans =>
      inferInstanceAs (Decidable (Fresh cfg s.pool layout ans ∧ Inside layout fields))
  | .newIn value _ ans =>
      inferInstanceAs (Decidable
        ((encode value.toList).length ≤ 32766 → Fresh cfg s.pool (textLayout value) ans))
  | .intoRawParts _ | .fromRawParts _ | .setTaskAllocTag _ | .write _ _ _ | .drop _ =>
      .isTrue trivial

/-! ## What the owners are for -/

/-- The bytes of a type, or a text. -/
inductive Value
  | bytes (content : List UInt8)
  | text (value : String)

abbrev Values :=
  List (Option Value)

/-- The calls that may come back with an error. -/
def Label.fallible : Label → Bool
  | .tryPinInit _ _ _ _ | .allocateTask _ _ _ | .allocateWorkItem _ _ _ | .allocateTimer _ _ _
  | .newIn _ _ _ => true
  | _ => false

/-- The steps of the values. Memory that an initialiser leaves alone has any content. -/
inductive Values.Step (s : Values) : Label → Values → Prop
  | refused {l : Label} (fallible : l.fallible = true) : Step s l s
  | pinned {a : WdkAllocator} {layout : Allocator.Layout} {init : PinInit} {ans : Answer}
      {content : List UInt8} (ok : init.result = .ok ()) (size : content.length = layout.size) :
      Step s (.tryPinInit a layout init ans)
        (s ++ [some (.bytes (Bytes.setAll content init.stores))])
  | task {type : TaskType} {fields : List (Nat × UInt8)} {ans : Answer} {content : List UInt8}
      {tag : UInt32} (size : content.length = type.layout.size) :
      Step s (.allocateTask type fields ans)
        (s ++ [some (.bytes (Bytes.setAll content (type.stores fields tag)))])
  | workItem {layout : Allocator.Layout} {fields : List (Nat × UInt8)} {ans : Answer}
      {content : List UInt8} (size : content.length = layout.size) :
      Step s (.allocateWorkItem layout fields ans)
        (s ++ [some (.bytes (Bytes.setAll content fields))])
  | timer {layout : Allocator.Layout} {fields : List (Nat × UInt8)} {ans : Answer}
      {content : List UInt8} (size : content.length = layout.size) :
      Step s (.allocateTimer layout fields ans)
        (s ++ [some (.bytes (Bytes.setAll content fields))])
  | text {value : String} {a : WdkAllocator} {ans : Answer}
      (short : (encode value.toList).length ≤ 32766) :
      Step s (.newIn value a ans) (s ++ [some (.text value)])
  | intoRawParts {k : Nat} : Step s (.intoRawParts k) s
  | fromRawParts {k : Nat} : Step s (.fromRawParts k) s
  | setTaskAllocTag {tag : UInt32} : Step s (.setTaskAllocTag tag) s
  | write {k i : Nat} {byte : UInt8} {content : List UInt8}
      (held : s[k]? = some (some (.bytes content))) (inside : i < content.length) :
      Step s (.write k i byte) (s.set k (some (.bytes (content.set i byte))))
  | drop {k : Nat} {v : Value} (held : s[k]? = some (some v)) : Step s (.drop k) (s.set k none)

/-- How many bytes an owner has. -/
def Owner.size : Owner → Nat
  | .kbox b | .parts b => b.layout.size
  | .task _ type => type.layout.size
  | .workItem _ layout | .timer _ layout => layout.size
  | .string s _ => 2 * s.bufferLen

/-- What an owner shows of its value: a string reads as its text, by the functions of
`Kcom.Unicode`, and the bytes of the others are those in memory. -/
def Shows (cfg : Config) (p : Pool) (o : Owner) : Value → Prop
  | .bytes content => p.mem.read o.ptr o.size = content
  | .text value => ∃ s alloc, o = .string s alloc ∧ s.Reads cfg.build.width p value

/-- What an owner may do next. -/
def State.callable (s : State) : Label → Bool
  | .intoRawParts k => match s.owners[k]? with
      | some (some (.kbox _)) => true
      | _ => false
  | .fromRawParts k => match s.owners[k]? with
      | some (some (.parts _)) => true
      | _ => false
  | .write k i _ => match s.owners[k]? with
      | some (some o) => o.writable i
      | _ => false
  | .drop k => match s.owners[k]? with
      | some (some (.parts _)) => false
      | some (some _) => true
      | _ => false
  | _ => true

/-! ## One owner -/

/-- What an owner keeps fits its allocation, and its block holds the value. -/
inductive Tied (m : Bytes) : Owner → Allocation → Value → Prop
  | kbox {ptr base : Nat} {a : WdkAllocator} {layout : Allocator.Layout} :
      Tied m (.kbox ⟨ptr, a, layout⟩) ⟨a, layout, ptr, base⟩ (.bytes (m.read ptr layout.size))
  | parts {ptr base : Nat} {a : WdkAllocator} {layout : Allocator.Layout} :
      Tied m (.parts ⟨ptr, a, layout⟩) ⟨a, layout, ptr, base⟩ (.bytes (m.read ptr layout.size))
  | task {ptr base : Nat} {type : TaskType} {tag : UInt32}
      (word : m.readWord (ptr + type.allocTag) 4 = tag.toNat) :
      Tied m (.task ptr type) ⟨⟨.nonPagedNx, tag⟩, type.layout, ptr, base⟩
        (.bytes (m.read ptr type.layout.size))
  | workItem {ptr base : Nat} {layout : Allocator.Layout} :
      Tied m (.workItem ptr layout) ⟨⟨.nonPagedNx, workItemTag⟩, layout, ptr, base⟩
        (.bytes (m.read ptr layout.size))
  | timer {ptr base : Nat} {layout : Allocator.Layout} :
      Tied m (.timer ptr layout) ⟨⟨.nonPagedNx, timerTag⟩, layout, ptr, base⟩
        (.bytes (m.read ptr layout.size))
  | string {ptr base : Nat} {a : WdkAllocator} {value : String}
      (short : (encode value.toList).length ≤ 32766) (nonNull : ptr ≠ 0)
      (units : unitsAt m ptr ((encode value.toList).length + 1) = encode value.toList ++ [0]) :
      Tied m (.string (describe value ptr) a) ⟨a, textLayout value, ptr, base⟩ (.text value)

section Owner

variable {m m' : Bytes} {o : Owner} {al : Allocation} {v : Value} {cfg : Config} {p : Pool} {i : Nat}

/-- An owner sees its own bytes only. -/
theorem Tied.congr (tied : Tied m o al v)
    (same : m'.read al.ptr al.layout.size = m.read al.ptr al.layout.size) : Tied m' o al v := by
  cases tied with
  | kbox =>
      rw [← same]
      exact .kbox
  | parts =>
      rw [← same]
      exact .parts
  | @task ptr base type tag word =>
      have kept : m'.readWord (ptr + type.allocTag) 4 = m.readWord (ptr + type.allocTag) 4 :=
        Bytes.readWord_of_read same type.inside
      rw [← same]
      exact .task (kept.trans word)
  | workItem =>
      rw [← same]
      exact .workItem
  | timer =>
      rw [← same]
      exact .timer
  | string short nonNull units =>
      refine .string short nonNull ?_
      rw [Unicode.unitsAt_congr (m := m), units]
      intro x low high
      obtain ⟨i, rfl⟩ := Nat.exists_eq_add_of_le low
      exact Bytes.eq_of_read same (Nat.lt_of_add_lt_add_left high)

/-- When an owner goes, `dealloc` is told what `alloc` was. -/
theorem Tied.drop (tied : Tied p.mem o al v) (whole : ∀ b, o ≠ .parts b) :
    o.drop cfg p = cfg.dealloc al.alloc al.ptr al.layout p := by
  cases tied with
  | kbox => rfl
  | parts => exact absurd rfl (whole _)
  | @task ptr base type tag word =>
      have read : UInt32.ofNat (p.mem.readWord (ptr + type.allocTag) 4) = tag :=
        (congrArg UInt32.ofNat word).trans UInt32.ofNat_toNat
      exact congrArg (fun tag => cfg.dealloc ⟨.nonPagedNx, tag⟩ ptr type.layout p) read
  | workItem => rfl
  | timer => rfl
  | string short nonNull _ => exact Unicode.drop_describe short nonNull

theorem Tied.ptr_eq (tied : Tied m o al v) : o.ptr = al.ptr ∧ o.size = al.layout.size := by
  cases tied <;> exact ⟨rfl, rfl⟩

end Owner

/-! ## The pool and its owners -/

structure Entry where
  owner : Owner
  al : Allocation
  value : Value

/-- The allocations behind the owners. -/
def held (entries : List (Option Entry)) : List (Option Allocation) :=
  entries.map (Option.map Entry.al)

def values (entries : List (Option Entry)) : Values :=
  entries.map (Option.map Entry.value)

structure Inv (cfg : Config) (others : List Block) (s : State) (entries : List (Option Entry)) :
    Prop where
  owners : s.owners = entries.map (Option.map Entry.owner)
  sound : Sound cfg others ⟨s.pool, held entries⟩
  tied : ∀ e, some e ∈ entries → Tied s.pool.mem e.owner e.al e.value

section Invariant

variable {cfg : Config} {others : List Block} {s s' : State} {entries : List (Option Entry)}
  {e : Entry} {al : Allocation} {p : Pool} {o : Owner} {v : Value} {k : Nat} {l : Label}
  {a : WdkAllocator} {layout : Allocator.Layout} {stores : List (Nat × UInt8)} {ans : Answer}

/-- An allocation that was made and written to. -/
theorem Inv.allocWrite_cases (inv : Inv cfg others s entries) (fresh : Fresh cfg s.pool layout ans)
    (inside : Inside layout stores) :
    (∃ status, allocWrite cfg a layout stores ans s.pool = some (s.pool, .error status)) ∨
      ∃ p ptr base m, allocWrite cfg a layout stores ans s.pool = some (p, .ok ptr) ∧
        Joined cfg others ⟨s.pool, held entries⟩ ⟨a, layout, ptr, base⟩ p ∧
        p.mem = Bytes.store m ptr stores := by
  unfold allocWrite
  rcases cfg.request_cases a false fresh with
    ⟨empty, granted⟩ | refused | ⟨positive, block, p, ptr, granted, grant⟩
  · rw [show cfg.alloc a ans layout s.pool = some (s.pool, WdkAllocator.dangling) from granted]
    have nothing : stores = [] := by
      cases stores with
      | nil => rfl
      | cons w stores =>
          have bound := inside w List.mem_cons_self
          omega
    subst nothing
    exact .inr ⟨s.pool, WdkAllocator.dangling, ans.base, s.pool.mem, rfl,
      ⟨inv.sound.grantEmpty empty, fun _ _ => rfl⟩, rfl⟩
  · rw [show cfg.alloc a ans layout s.pool = some (s.pool, 0) from refused]
    exact .inl ⟨_, rfl⟩
  · rw [show cfg.alloc a ans layout s.pool = some (p, ptr) from granted, Option.map_some]
    dsimp only
    rw [if_neg grant.nonNull]
    refine .inr ⟨_, ptr, ans.base, p.mem, rfl, ?_, rfl⟩
    exact inv.sound.grantWrite fresh block positive grant fun x outside =>
      Bytes.store_of_not_has inside outside

/-- Nothing changes for the owners where their bytes stay. -/
theorem Inv.keep (inv : Inv cfg others s entries) {tag : UInt32}
    (sound : Sound cfg others ⟨p, held entries⟩)
    (same : ∀ al, some al ∈ held entries →
      p.mem.read al.ptr al.layout.size = s.pool.mem.read al.ptr al.layout.size) :
    Inv cfg others ⟨p, tag, s.owners⟩ entries :=
  ⟨inv.owners, sound, fun e member =>
    (inv.tied e member).congr (same e.al (List.mem_map.mpr ⟨some e, member, rfl⟩))⟩

/-- A new owner. -/
theorem Inv.add (inv : Inv cfg others s entries)
    (joined : Joined cfg others ⟨s.pool, held entries⟩ al p) (tied : Tied p.mem o al v) :
    Inv cfg others ⟨p, s.taskTag, s.owners ++ [some o]⟩ (entries ++ [some ⟨o, al, v⟩]) := by
  refine ⟨?_, ?_, ?_⟩
  · rw [inv.owners, List.map_append]
    rfl
  · have more : held (entries ++ [some ⟨o, al, v⟩]) = held entries ++ [some al] := List.map_append
    rw [more]
    exact joined.sound
  · intro e member
    rcases List.mem_append.mp member with old | new
    · exact (inv.tied e old).congr (joined.same e.al (List.mem_map.mpr ⟨some e, old, rfl⟩))
    · cases List.mem_singleton.mp new
      exact tied

/-- What was just allocated goes back. -/
theorem Inv.giveBack (inv : Inv cfg others s entries)
    (joined : Joined cfg others ⟨s.pool, held entries⟩ al p) :
    ∃ p', cfg.dealloc al.alloc al.ptr al.layout p = some p' ∧
      Inv cfg others ⟨p', s.taskTag, s.owners⟩ entries := by
  have last : (held entries ++ [some al])[(held entries).length]? = some (some al) := by
    rw [List.getElem?_append_right (Nat.le_refl _), Nat.sub_self, List.getElem?_cons_zero]
  obtain ⟨blocks, freed, sound⟩ := joined.sound.dealloc last
  have cleared : (held entries ++ [some al]).set (held entries).length none =
      held entries ++ [none] := by
    rw [List.set_append_right _ _ (Nat.le_refl _), Nat.sub_self, List.set_cons_zero]
  rw [cleared] at sound
  exact ⟨⟨p.mem, blocks⟩, freed, inv.keep sound.of_append_none joined.same⟩

theorem values_append : values (entries ++ [some ⟨o, al, v⟩]) = values entries ++ [some v] :=
  List.map_append

/-- A call that allocates and stores comes back. -/
theorem Inv.returned (inv : Inv cfg others s entries) (fresh : Fresh cfg s.pool layout ans)
    (inside : Inside layout stores) (owner : Nat → Owner)
    (tied : ∀ (m : Bytes) (ptr base : Nat), Tied (m.store ptr stores) (owner ptr)
      ⟨a, layout, ptr, base⟩ (.bytes ((m.store ptr stores).read ptr layout.size)))
    (next : (allocWrite cfg a layout stores ans s.pool).map (s.returned owner) = some s') :
    ∃ entries', Inv cfg others s' entries' ∧ (values entries' = values entries ∨
      ∃ content : List UInt8, content.length = layout.size ∧
        values entries' = values entries ++ [some (.bytes (Bytes.setAll content stores))]) := by
  rcases inv.allocWrite_cases (a := a) fresh inside with
    ⟨status, result⟩ | ⟨p, ptr, base, m, result, joined, stored⟩
  · rw [result] at next
    cases next
    exact ⟨entries, inv, .inl rfl⟩
  · rw [result] at next
    cases next
    have here := tied m ptr base
    rw [← stored] at here
    refine ⟨_, inv.add joined here, .inr ⟨m.read ptr layout.size, Bytes.length_read, ?_⟩⟩
    rw [values_append, stored, Bytes.read_store]

theorem TaskType.tied (type : TaskType) (tag : UInt32) (fields : List (Nat × UInt8)) (m : Bytes)
    (ptr base : Nat) : Tied (m.store ptr (type.stores fields tag)) (.task ptr type)
      ⟨⟨.nonPagedNx, tag⟩, type.layout, ptr, base⟩
      (.bytes ((m.store ptr (type.stores fields tag)).read ptr type.layout.size)) := by
  refine .task ?_
  rw [TaskType.stores, Bytes.store_append, ← Bytes.writeWord_eq_store]
  exact Bytes.readWord_writeWord_of_lt tag.toNat_lt

/-- The tag lies inside of the type. -/
theorem TaskType.stores_inside (type : TaskType) (tag : UInt32) {fields : List (Nat × UInt8)}
    (inside : Inside type.layout fields) : Inside type.layout (type.stores fields tag) := by
  intro w member
  rcases List.mem_append.mp member with field | word
  · exact inside w field
  · have bound := Bytes.lt_of_mem_wordStores word
    have room := type.inside
    omega

/-! ## Steps -/

theorem Inv.entry (inv : Inv cfg others s entries) (owns : s.owners[k]? = some (some o)) :
    ∃ e, entries[k]? = some (some e) ∧ e.owner = o := by
  rw [inv.owners, List.getElem?_map] at owns
  obtain ⟨entry, here, mapped⟩ := Option.map_eq_some_iff.mp owns
  obtain ⟨e, rfl, same⟩ := Option.map_eq_some_iff.mp mapped
  exact ⟨e, here, same⟩

theorem held_of_entry (here : entries[k]? = some (some e)) :
    (held entries)[k]? = some (some e.al) := by
  rw [held, List.getElem?_map, here]
  rfl

theorem values_of_entry (here : entries[k]? = some (some e)) :
    (values entries)[k]? = some (some e.value) := by
  rw [values, List.getElem?_map, here]
  rfl

theorem set_of_getElem? {α : Type} {l : List α} {x : α} (here : l[k]? = some x) :
    l.set k x = l := by
  obtain ⟨bound, rfl⟩ := List.getElem?_eq_some_iff.mp here
  exact List.set_getElem_self bound

/-- An owner and its value may change while the allocation stays. -/
theorem Inv.replace (inv : Inv cfg others s entries) (here : entries[k]? = some (some e))
    (sound : Sound cfg others ⟨p, held entries⟩)
    (same : ∀ k' al, k' ≠ k → (held entries)[k']? = some (some al) →
      p.mem.read al.ptr al.layout.size = s.pool.mem.read al.ptr al.layout.size)
    (tied : Tied p.mem o e.al v) :
    Inv cfg others ⟨p, s.taskTag, s.owners.set k (some o)⟩
      (entries.set k (some ⟨o, e.al, v⟩)) := by
  refine ⟨?_, ?_, ?_⟩
  · dsimp only
    rw [inv.owners, List.map_set]
    rfl
  · have unmoved : held (entries.set k (some ⟨o, e.al, v⟩)) = held entries := by
      unfold held
      rw [List.map_set]
      exact set_of_getElem? (x := some e.al) (held_of_entry here)
    rw [unmoved]
    exact sound
  · intro e' member
    obtain ⟨k', there⟩ := List.mem_iff_getElem?.mp member
    rcases eq_or_ne k' k with rfl | other
    · rw [List.getElem?_set_self (List.getElem?_eq_some_iff.mp here).1] at there
      cases there
      exact tied
    · rw [List.getElem?_set_ne other.symm] at there
      refine (inv.tied e' (List.mem_of_getElem? there)).congr ?_
      exact same k' e'.al other (held_of_entry there)

/-- A box and its raw parts have the same block and the same bytes. -/
theorem Tied.kbox_iff_parts {m : Bytes} {b : KBox} :
    Tied m (.kbox b) al v ↔ Tied m (.parts b) al v := by
  constructor
  · intro tied
    cases tied
    exact .parts
  · intro tied
    cases tied
    exact .kbox

theorem Inv.moved (inv : Inv cfg others s entries) (here : entries[k]? = some (some e))
    (tied : Tied s.pool.mem o e.al e.value) :
    Inv cfg others { s with owners := s.owners.set k (some o) }
        (entries.set k (some ⟨o, e.al, e.value⟩)) ∧
      values (entries.set k (some ⟨o, e.al, e.value⟩)) = values entries := by
  refine ⟨inv.replace here inv.sound (fun _ _ _ _ => rfl) tied, ?_⟩
  unfold values
  rw [List.map_set]
  exact set_of_getElem? (x := some e.value) (values_of_entry here)

/-- An owner goes, and with it its block. -/
theorem Inv.dropped (inv : Inv cfg others s entries) (here : entries[k]? = some (some e))
    (whole : ∀ b, e.owner ≠ .parts b) :
    ∃ p, e.owner.drop cfg s.pool = some p ∧
      s.pool.blocks.Perm ((e.al.block cfg).toList ++ p.blocks) ∧
      Inv cfg others ⟨p, s.taskTag, s.owners.set k none⟩ (entries.set k none) := by
  obtain ⟨blocks, freed, sound⟩ := inv.sound.dealloc (held_of_entry here)
  have tied := inv.tied e (List.mem_of_getElem? here)
  have taken := inv.sound.blocks_of_dealloc (held_of_entry here) sound
  refine ⟨⟨s.pool.mem, blocks⟩, (tied.drop whole).trans freed, taken, ?_, ?_, ?_⟩
  · dsimp only
    rw [inv.owners, List.map_set]
    rfl
  · have cleared : held (entries.set k none) = (held entries).set k none := List.map_set
    rw [cleared]
    exact sound
  · intro e' member
    rcases List.mem_or_eq_of_mem_set member with old | new
    · exact inv.tied e' old
    · cases new

/-- A byte that an owner may change lies in its allocation, and is not part of a tag. -/
theorem Tied.write {m : Bytes} {i : Nat} (tied : Tied m o al v) (writable : o.writable i = true)
    (byte : UInt8) :
    o.ptr = al.ptr ∧ i < al.layout.size ∧ ∃ content, v = .bytes content ∧
      i < content.length ∧
      Tied (Function.update m (o.ptr + i) byte) o al (.bytes (content.set i byte)) := by
  cases tied with
  | kbox | parts | workItem | timer =>
      have inside := of_decide_eq_true writable
      refine ⟨rfl, inside, _, rfl, by rwa [Bytes.length_read], ?_⟩
      rw [← Bytes.read_update]
      constructor
  | @task ptr base type tag word =>
      obtain ⟨inside, outside⟩ := of_decide_eq_true writable
      refine ⟨rfl, inside, _, rfl, by rwa [Bytes.length_read], ?_⟩
      rw [← Bytes.read_update]
      refine .task (Eq.trans (Bytes.readWord_congr fun b low high => ?_) word)
      apply Function.update_of_ne
      have here : (Owner.task ptr type).ptr = ptr := rfl
      omega
  | string _ _ _ => cases writable

theorem Inv.write (inv : Inv cfg others s entries) (here : entries[k]? = some (some e)) {i : Nat}
    (writable : e.owner.writable i = true) (byte : UInt8) :
    ∃ content, e.value = .bytes content ∧ i < content.length ∧
      Inv cfg others
        { s with pool := { s.pool with
          mem := Function.update s.pool.mem (e.owner.ptr + i) byte } }
        (entries.set k (some ⟨e.owner, e.al, .bytes (content.set i byte)⟩)) := by
  obtain ⟨ptr, inside, content, value, bound, tied⟩ :=
    (inv.tied e (List.mem_of_getElem? here)).write writable byte
  refine ⟨content, value, bound, ?_⟩
  rw [ptr] at tied ⊢
  obtain ⟨sound, same⟩ := inv.sound.write (held_of_entry here) inside byte
  have stays : s.owners.set k (some e.owner) = s.owners := by
    apply set_of_getElem?
    rw [inv.owners, List.getElem?_map, here]
    rfl
  have next := inv.replace here sound same tied
  rwa [stays] at next

/-- A step of the pool and its owners keeps the invariant and is a step of the values. -/
theorem Inv.step (inv : Inv cfg others s entries) (kept : Kept cfg s l)
    (next : s.step cfg l = some s') :
    ∃ entries', Inv cfg others s' entries' ∧ (values entries).Step l (values entries') := by
  cases l with
  | tryPinInit a layout init ans =>
      obtain ⟨fresh, inside⟩ : Fresh cfg s.pool layout ans ∧ Inside layout init.stores := kept
      simp only [State.step, tryPinInit] at next
      rcases inv.allocWrite_cases (a := a) fresh inside with
        ⟨status, result⟩ | ⟨p, ptr, base, m, result, joined, stored⟩
      · rw [result] at next
        cases next
        exact ⟨entries, inv, .refused rfl⟩
      · rw [result, Option.bind_some] at next
        dsimp only at next
        cases answer : init.result with
        | error err =>
            obtain ⟨p', freed, inv'⟩ := inv.giveBack joined
            rw [answer] at next
            dsimp only at freed next
            rw [freed] at next
            cases next
            exact ⟨entries, inv', .refused rfl⟩
        | ok u =>
            rw [answer] at next
            cases next
            refine ⟨_, inv.add joined .kbox, ?_⟩
            rw [values_append, stored, Bytes.read_store]
            exact .pinned answer Bytes.length_read
  | intoRawParts k =>
      simp only [State.step] at next
      split at next
      · rename_i b owns
        cases next
        obtain ⟨e, here, owner⟩ := inv.entry owns
        have tied := inv.tied e (List.mem_of_getElem? here)
        rw [owner] at tied
        obtain ⟨inv', same⟩ := inv.moved here (Tied.kbox_iff_parts.mp tied)
        exact ⟨_, inv', by rw [same]; exact .intoRawParts⟩
      · cases next
  | fromRawParts k =>
      simp only [State.step] at next
      split at next
      · rename_i b owns
        cases next
        obtain ⟨e, here, owner⟩ := inv.entry owns
        have tied := inv.tied e (List.mem_of_getElem? here)
        rw [owner] at tied
        obtain ⟨inv', same⟩ := inv.moved here (Tied.kbox_iff_parts.mpr tied)
        exact ⟨_, inv', by rw [same]; exact .fromRawParts⟩
      · cases next
  | allocateTask type fields ans =>
      obtain ⟨fresh, inside⟩ : Fresh cfg s.pool type.layout ans ∧ Inside type.layout fields := kept
      obtain ⟨entries', inv', same | ⟨content, size, grown⟩⟩ := inv.returned fresh
        (type.stores_inside s.taskTag inside) _ (type.tied s.taskTag fields) next
      · exact ⟨entries', inv', by rw [same]; exact .refused rfl⟩
      · exact ⟨entries', inv', by rw [grown]; exact .task size⟩
  | allocateWorkItem layout fields ans =>
      obtain ⟨fresh, inside⟩ : Fresh cfg s.pool layout ans ∧ Inside layout fields := kept
      obtain ⟨entries', inv', same | ⟨content, size, grown⟩⟩ := inv.returned fresh inside
        (.workItem · layout) (fun _ _ _ => .workItem) next
      · exact ⟨entries', inv', by rw [same]; exact .refused rfl⟩
      · exact ⟨entries', inv', by rw [grown]; exact .workItem size⟩
  | allocateTimer layout fields ans =>
      obtain ⟨fresh, inside⟩ : Fresh cfg s.pool layout ans ∧ Inside layout fields := kept
      obtain ⟨entries', inv', same | ⟨content, size, grown⟩⟩ := inv.returned fresh inside
        _ (fun _ _ _ => .timer) next
      · exact ⟨entries', inv', by rw [same]; exact .refused rfl⟩
      · exact ⟨entries', inv', by rw [grown]; exact .timer size⟩
  | newIn value a ans =>
      simp only [State.step] at next
      rcases Unicode.newIn_cases value a kept with
        ⟨err, result⟩ | ⟨short, block, p, buffer, grant, result⟩
      · rw [result] at next
        cases next
        exact ⟨entries, inv, .refused rfl⟩
      · rw [result] at next
        cases next
        have joined := inv.sound.grantWrite (kept short) block
          (Nat.mul_pos Nat.two_pos (Nat.succ_pos _)) grant
          fun x outside => Unicode.storeText_of_not_has outside
        refine ⟨_, inv.add joined (.string short grant.nonNull Unicode.unitsAt_storeText), ?_⟩
        rw [values_append]
        exact .text short
  | setTaskAllocTag tag =>
      cases next
      exact ⟨entries, ⟨inv.owners, inv.sound, inv.tied⟩, .setTaskAllocTag⟩
  | write k i byte =>
      simp only [State.step] at next
      split at next
      · rename_i o owns
        split at next
        · rename_i writable
          cases next
          obtain ⟨e, here, rfl⟩ := inv.entry owns
          obtain ⟨content, value, bound, inv'⟩ := inv.write here writable byte
          refine ⟨_, inv', ?_⟩
          have held := values_of_entry here
          rw [value] at held
          have changed : values (entries.set k (some ⟨e.owner, e.al, .bytes (content.set i byte)⟩)) =
              (values entries).set k (some (.bytes (content.set i byte))) := List.map_set
          rw [changed]
          exact .write held bound
        · cases next
      · cases next
  | drop k =>
      simp only [State.step] at next
      split at next
      · rename_i o owns
        obtain ⟨e, here, rfl⟩ := inv.entry owns
        have whole : ∀ b, e.owner ≠ .parts b := by
          intro b parts
          rw [parts] at next
          cases next
        obtain ⟨p, gone, -, inv'⟩ := inv.dropped here whole
        rw [gone] at next
        cases next
        refine ⟨_, inv', ?_⟩
        have cleared : values (entries.set k none) = (values entries).set k none := List.map_set
        rw [cleared]
        exact .drop (values_of_entry here)
      · cases next

/-- What an owner may do next is never refused by a stop of the machine. -/
theorem Inv.progress (inv : Inv cfg others s entries) (kept : Kept cfg s l)
    (callable : s.callable l = true) : ∃ s', s.step cfg l = some s' := by
  have allocates {a : WdkAllocator} {layout : Allocator.Layout} {stores : List (Nat × UInt8)}
      {ans : Answer} {owner : Nat → Owner} (fresh : Fresh cfg s.pool layout ans)
      (inside : Inside layout stores) :
      ∃ s', (allocWrite cfg a layout stores ans s.pool).map (s.returned owner) = some s' := by
    rcases inv.allocWrite_cases (a := a) fresh inside with
      ⟨status, result⟩ | ⟨p, ptr, base, m, result, -, -⟩ <;>
    exact ⟨_, by rw [result]; rfl⟩
  cases l with
  | tryPinInit a layout init ans =>
      obtain ⟨fresh, inside⟩ : Fresh cfg s.pool layout ans ∧ Inside layout init.stores := kept
      simp only [State.step, tryPinInit]
      rcases inv.allocWrite_cases (a := a) fresh inside with
        ⟨status, result⟩ | ⟨p, ptr, base, m, result, joined, -⟩
      · rw [result]
        exact ⟨_, rfl⟩
      · rw [result, Option.bind_some]
        dsimp only
        cases answer : init.result with
        | error err =>
            obtain ⟨p', freed, -⟩ := inv.giveBack joined
            dsimp only at freed ⊢
            rw [freed]
            exact ⟨_, rfl⟩
        | ok u => exact ⟨_, rfl⟩
  | intoRawParts k | fromRawParts k =>
      simp only [State.callable] at callable
      split at callable
      · rename_i owns
        simp only [State.step, owns]
        exact ⟨_, rfl⟩
      · cases callable
  | allocateTask type fields ans =>
      obtain ⟨fresh, inside⟩ : Fresh cfg s.pool type.layout ans ∧ Inside type.layout fields := kept
      exact allocates fresh (type.stores_inside s.taskTag inside)
  | allocateWorkItem layout fields ans | allocateTimer layout fields ans =>
      obtain ⟨fresh, inside⟩ : Fresh cfg s.pool layout ans ∧ Inside layout fields := kept
      exact allocates fresh inside
  | newIn value a ans =>
      simp only [State.step]
      rcases Unicode.newIn_cases value a kept with
        ⟨err, result⟩ | ⟨-, -, p, buffer, -, result⟩ <;>
      exact ⟨_, by rw [result]; rfl⟩
  | setTaskAllocTag tag => exact ⟨_, rfl⟩
  | write k i byte =>
      simp only [State.callable] at callable
      split at callable
      · rename_i o owns
        simp only [State.step, owns]
        exact ⟨_, if_pos callable⟩
      · cases callable
  | drop k =>
      simp only [State.callable] at callable
      split at callable
      · cases callable
      · rename_i o whole owns
        obtain ⟨e, here, rfl⟩ := inv.entry owns
        obtain ⟨p, gone, -, -⟩ := inv.dropped here whole
        simp only [State.step, owns]
        rw [gone]
        exact ⟨_, rfl⟩
      · cases callable

/-- An owner that is not empty lies in a block of the pool. -/
theorem Inv.block (inv : Inv cfg others s entries) (member : some e ∈ entries)
    (positive : 0 < e.al.layout.size) :
    ∃ b ∈ s.pool.blocks, e.al.block cfg = some b ∧
      (⟨e.al.ptr, e.al.layout.size⟩ : Region).Within b.region := by
  have here : some e.al ∈ held entries := List.mem_map.mpr ⟨some e, member, rfl⟩
  exact ⟨_, inv.sound.member here positive, Allocation.block_eq positive,
    inv.sound.within here positive⟩

theorem Inv.shows (inv : Inv cfg others s entries) (member : some e ∈ entries) :
    Shows cfg s.pool e.owner e.value := by
  have tied := inv.tied e member
  have inBlock := inv.block member
  obtain ⟨o, al, v⟩ := e
  cases tied with
  | kbox | parts | task | workItem | timer => rfl
  | @string ptr base a value short nonNull units =>
      obtain ⟨b, block, -, inside⟩ := inBlock (Nat.mul_pos Nat.two_pos (Nat.succ_pos _))
      exact ⟨_, a, rfl, Unicode.reads_of_units short nonNull block inside units⟩

end Invariant

/-! ## Runs -/

section Runs

variable {cfg : Config} {others : List Block} {s : State}

theorem inv_start (begins : (system cfg others).start s) : Inv cfg others s [] := by
  obtain ⟨blocks, separate, -, empty⟩ := begins
  refine ⟨empty, ?_, fun e member => absurd member List.not_mem_nil⟩
  exact sound_of_reach (.start ⟨blocks, separate, rfl⟩)

theorem inv_of_reach (reached : (system cfg others).Reach (Kept cfg) s) :
    ∃ entries, Inv cfg others s entries := by
  refine Sys.Reach.invariant (I := fun s => ∃ entries, Inv cfg others s entries)
    (fun s begins => ⟨[], inv_start begins⟩) ?_ reached
  rintro s l s' ⟨entries, inv⟩ kept next
  obtain ⟨entries', inv', -⟩ := inv.step kept next
  exact ⟨entries', inv'⟩

/-- **The owners of a pool are values of their own.** In every configuration, with any
number of boxes, DPC tasks, work items, timers and strings, any changes of the default task
tag, and in any order of calls: the calls of a run lead the values to what the owners show,
and whatever an owner may do next, the machine does. -/
theorem owners_refine_values {calls : List Label}
    (reached : (system cfg others).recorded.Reach (fun p l => Kept cfg p.1 l) (s, calls)) :
    (∃ v : Values, Sys.Calls Values.Step [] calls v ∧
      List.Forall₂ (Option.Rel (Shows cfg s.pool)) s.owners v) ∧
      ∀ l, Kept cfg s l → s.callable l = true →
        ∃ s', (system cfg others).step s l = some s' := by
  obtain ⟨v, ⟨entries, inv, rfl⟩, run⟩ : ∃ v : Values,
      (∃ entries, Inv cfg others s entries ∧ values entries = v) ∧
        Sys.Calls Values.Step [] calls v := by
    refine Sys.Reach.exists_calls
      (R := fun s v => ∃ entries, Inv cfg others s entries ∧ values entries = v) ?_ ?_ reached
    · exact fun s begins => ⟨[], inv_start begins, rfl⟩
    · rintro s l s' v ⟨entries, inv, rfl⟩ kept next
      obtain ⟨entries', inv', answer⟩ := inv.step kept next
      exact ⟨values entries', ⟨entries', inv', rfl⟩, answer⟩
  refine ⟨⟨values entries, run, ?_⟩, fun l kept callable => inv.progress kept callable⟩
  rw [inv.owners, values, List.forall₂_map_left_iff, List.forall₂_map_right_iff, List.forall₂_same]
  rintro (_ | e) member
  · exact .none
  · exact .some (inv.shows member)

/-- A layout, from its size and the logarithm of its alignment. -/
def alignedAt (size k : Nat) : Allocator.Layout :=
  ⟨size, 2 ^ k, k, rfl⟩

/-- Two bytes at a multiple of 64 in a box that goes through its raw parts, a text, and a task
between two changes of the tag, in a debug build. -/
def threeOwners : List Label :=
  [.tryPinInit ⟨.paged, 7⟩ (alignedAt 2 6) ⟨[(0, 5)], .ok ()⟩ ⟨0x1000, fun _ => 3, true⟩,
    .newIn "ß" globalAllocator ⟨0x2000, fun _ => 3, false⟩,
    .setTaskAllocTag 1,
    .allocateTask ⟨alignedAt 8 2, 4, Nat.le_refl 8⟩ [(0, 1)] ⟨0x3000, fun _ => 3, true⟩,
    .setTaskAllocTag 2, .intoRawParts 0, .write 0 1 9, .fromRawParts 0]

theorem separate_singleton (b : Block) (positive : 0 < b.size) : Separate [b] :=
  ⟨List.pairwise_singleton _ _, fun c member => by rwa [List.mem_singleton.mp member]⟩

/-- The three owners, on a pool with a block of somebody else. -/
theorem owners_refine_values_of_three :
    ∃ s calls, (system ⟨⟨.w64, true⟩, true⟩ [⟨0x4000, 16, 1⟩]).recorded.Reach
        (fun p l => Kept ⟨⟨.w64, true⟩, true⟩ p.1 l) (s, calls) ∧
      (s.owners.length = 3 ∧ s.callable (.drop 2) = true) ∧
      ((∃ v : Values, Sys.Calls Values.Step [] calls v ∧
          List.Forall₂ (Option.Rel (Shows ⟨⟨.w64, true⟩, true⟩ s.pool)) s.owners v) ∧
        ∀ l, Kept ⟨⟨.w64, true⟩, true⟩ s l → s.callable l = true →
          ∃ s', (system ⟨⟨.w64, true⟩, true⟩ [⟨0x4000, 16, 1⟩]).step s l = some s') := by
  have others := separate_singleton ⟨0x4000, 16, 1⟩ (by decide)
  obtain ⟨⟨s, calls⟩, reached, owns⟩ := Sys.Reach.exists_of_execIf
    (fun p : State × List Label => p.1.owners.length = 3 ∧ p.1.callable (.drop 2) = true)
    threeOwners (.start ⟨⟨rfl, others, rfl, rfl⟩, rfl⟩ :
      (system ⟨⟨.w64, true⟩, true⟩ [⟨0x4000, 16, 1⟩]).recorded.Reach
        (fun p l => Kept ⟨⟨.w64, true⟩, true⟩ p.1 l)
        (⟨⟨fun _ => 0, [⟨0x4000, 16, 1⟩]⟩, defaultTaskTag, []⟩, [])) (by decide)
  exact ⟨s, calls, reached, owns, owners_refine_values reached⟩

/-- The tag that an owner's block was allocated with, as the owner knows it. -/
def Owner.tag (m : Bytes) : Owner → UInt32
  | .kbox b | .parts b => b.alloc.tag
  | .task ptr type => .ofNat (m.readWord (ptr + type.allocTag) 4)
  | .workItem _ _ => workItemTag
  | .timer _ _ => timerTag
  | .string _ a => a.tag

theorem Tied.tag_eq {m : Bytes} {o : Owner} {al : Allocation} {v : Value} (tied : Tied m o al v) :
    o.tag m = al.alloc.tag := by
  cases tied with
  | kbox | parts | workItem | timer | string => rfl
  | task word => exact (congrArg UInt32.ofNat word).trans UInt32.ofNat_toNat

/-- **Every block goes back.** In every state reached the pool has the blocks of others; an
owner that is not empty lies in a block with its tag, and takes that block and no other with
it when it goes; two owners lie apart; and when every owner has gone, the pool has what it
had at the start. -/
theorem owners_return_blocks (reached : (system cfg others).Reach (Kept cfg) s) :
    (∀ b ∈ others, b ∈ s.pool.blocks) ∧
      (∀ k o, s.owners[k]? = some (some o) → 0 < o.size →
        ∃ b ∈ s.pool.blocks, b.tag = o.tag s.pool.mem ∧
          (⟨o.ptr, o.size⟩ : Region).Within b.region ∧
          ∀ s', (system cfg others).step s (.drop k) = some s' →
            s.pool.blocks.Perm (b :: s'.pool.blocks)) ∧
      (∀ (k k' : Nat) (o o' : Owner), k ≠ k' → s.owners[k]? = some (some o) →
        s.owners[k']? = some (some o') → 0 < o.size → 0 < o'.size →
          (⟨o.ptr, o.size⟩ : Region).Apart ⟨o'.ptr, o'.size⟩) ∧
      ((∀ o ∈ s.owners, o = none) → s.pool.blocks.Perm others) := by
  obtain ⟨entries, inv⟩ := inv_of_reach reached
  refine ⟨fun b member => inv.sound.blocks.mem_iff.mpr (List.mem_append_right _ member), ?_, ?_, ?_⟩
  · intro k o owns positive
    obtain ⟨e, here, rfl⟩ := inv.entry owns
    have member := List.mem_of_getElem? here
    have tied := inv.tied e member
    rw [tied.ptr_eq.2] at positive
    obtain ⟨b, block, own, inside⟩ := inv.block member positive
    rw [tied.ptr_eq.1, tied.ptr_eq.2, tied.tag_eq]
    refine ⟨b, block, ?_, inside, ?_⟩
    · cases (Allocation.block_eq positive).symm.trans own
      rfl
    · intro s' next
      simp only [system, State.step, owns] at next
      obtain ⟨p, gone, rfl⟩ := Option.map_eq_some_iff.mp next
      have whole : ∀ b, e.owner ≠ .parts b := by
        intro b parts
        rw [parts] at gone
        cases gone
      obtain ⟨p', gone', taken, -⟩ := inv.dropped here whole
      cases gone.symm.trans gone'
      rwa [own] at taken
  · intro k k' o o' other owns owns' positive positive'
    obtain ⟨e, here, rfl⟩ := inv.entry owns
    obtain ⟨e', here', rfl⟩ := inv.entry owns'
    have tied := inv.tied e (List.mem_of_getElem? here)
    have tied' := inv.tied e' (List.mem_of_getElem? here')
    rw [tied.ptr_eq.2] at positive
    rw [tied'.ptr_eq.2] at positive'
    rw [tied.ptr_eq.1, tied.ptr_eq.2, tied'.ptr_eq.1, tied'.ptr_eq.2]
    have apart := inv.sound.apart_block (held_of_entry here) (held_of_entry here') other positive
      positive'
    exact apart.of_within (inv.sound.within (List.mem_of_getElem? (held_of_entry here')) positive')
  · intro gone
    have nothing : Shared.blocks cfg ⟨s.pool, held entries⟩ = [] := by
      refine List.filterMap_eq_nil_iff.mpr fun o member => ?_
      obtain ⟨entry, there, rfl⟩ := List.mem_map.mp member
      have none : entry.map Entry.owner = none := by
        apply gone
        rw [inv.owners]
        exact List.mem_map.mpr ⟨entry, there, rfl⟩
      rw [Option.map_eq_none_iff.mp none]
      rfl
    have blocks := inv.sound.blocks
    rwa [nothing] at blocks

/-- All three have gone, in another order. -/
theorem owners_return_blocks_of_three :
    ∃ s, (system ⟨⟨.w64, true⟩, true⟩ [⟨0x4000, 16, 1⟩]).Reach
        (Kept ⟨⟨.w64, true⟩, true⟩) s ∧
      s.owners.length = 3 ∧ s.pool.blocks.Perm [⟨0x4000, 16, 1⟩] := by
  have others := separate_singleton ⟨0x4000, 16, 1⟩ (by decide)
  obtain ⟨s, reached, three, gone⟩ := Sys.Reach.exists_of_execIf
    (fun s : State => s.owners.length = 3 ∧ ∀ o ∈ s.owners, o.isNone)
    (threeOwners ++ [.drop 2, .drop 0, .drop 1])
    (.start ⟨rfl, others, rfl, rfl⟩ : (system ⟨⟨.w64, true⟩, true⟩ [⟨0x4000, 16, 1⟩]).Reach
      (Kept ⟨⟨.w64, true⟩, true⟩) ⟨⟨fun _ => 0, [⟨0x4000, 16, 1⟩]⟩, defaultTaskTag, []⟩)
    (by decide +kernel)
  exact ⟨s, reached, three, (owners_return_blocks reached).2.2.2 fun o member =>
    Option.isNone_iff_eq_none.mp (gone o member)⟩

end Runs

end Kcom.Owners
