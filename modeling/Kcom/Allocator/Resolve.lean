import Kcom.Conc.System
import Kcom.Conc.Pool
import Kcom.Allocator.Pool

/-!
# Finding `ExAllocatePool2`

The kernel may or may not export `ExAllocatePool2`, and it can be asked at PASSIVE_LEVEL
only. `try_init_ex_allocate_pool2` (`src/allocator.rs`) asks once and keeps the answer in
two statics, `EX_ALLOCATE_POOL2_PTR` and `EX_ALLOCATE_POOL2_STATE`; every allocation looks
there first (`get_ex_allocate_pool2`), tries to ask if nobody has, and otherwise falls back
to `ExAllocatePoolWithTag`. Any number of threads allocate and initialise, each at an IRQL
of its own, and each access to a static is one step.

`resolved_once` is what no interleaving breaks: the kernel is asked once, at PASSIVE_LEVEL,
and no allocation calls an address that the kernel has not given. Which of the two routines
serves an allocation does depend on the interleaving: `routine_stays` says from when on it
no longer does, and `falls_back_while_resolving` what an early fallback at PASSIVE_LEVEL has
met.
-/

namespace Kcom.Allocator.Resolve

open Conc

/-! ## The statics and the threads -/

/-- Values of `EX_ALLOCATE_POOL2_STATE`. -/
inductive Phase
  | uninit
  | initing
  | ready
  deriving DecidableEq, Repr

/-- `init_ex_allocate_pool2`, or `ex_allocate_pool` and `ex_allocate_pool_uninitialized`. -/
inductive Call
  | init
  | allocate (zeroed : Bool) (pool : PoolType) (size : Nat) (tag : UInt32)
  deriving DecidableEq, Repr

/-- A call, and the IRQL that it is made at. -/
structure Caller where
  call : Call
  irql : UInt8
  deriving DecidableEq, Repr

def passiveLevel : UInt8 := 0

/-- The steps of `try_init_ex_allocate_pool2`, those of `get_ex_allocate_pool2`, and the
allocation with what that returned. -/
inductive Op
  | getIrql
  | compareExchange
  | lookUp
  | storePtr (addr : Nat)
  | storeReady
  | loadState
  | loadStateAgain
  | loadPtr
  | allocate (func : Option Nat)
  deriving DecidableEq, Repr

/-- An allocation that has been made: by which thread, with which routine, and what it
returned. -/
structure Served where
  thread : Nat
  func : Option Nat
  returned : Nat
  deriving DecidableEq, Repr

structure State where
  /-- `EX_ALLOCATE_POOL2_PTR`. -/
  ptr : Nat
  /-- `EX_ALLOCATE_POOL2_STATE`. -/
  phase : Phase
  pool : Pool
  threads : List (Thread Caller Op)
  /-- The IRQL at each call of `MmGetSystemRoutineAddress`. -/
  lookups : List UInt8
  served : List Served

/-- What a call does first. -/
def Call.code : Call → List Op
  | .init => [.getIrql]
  | .allocate .. => [.loadState]

/-- The allocation of `ex_allocate_pool` or `ex_allocate_pool_uninitialized`. -/
def Call.request (c : Call) (ans : Answer) (p : Pool) : Pool × Nat :=
  match c with
  | .init => (p, 0)
  | .allocate true pool size tag => exAllocatePool ans pool size tag p
  | .allocate false pool size tag => exAllocatePoolUninitialized ans pool size tag p

namespace State

/-- Perform one operation of thread `i`; the second component is what the thread does next.
`routine` is the address of `ExAllocatePool2`, 0 where the kernel has none, and a call of any
other address stops the machine. -/
def perform (routine : Nat) (s : State) (i : Nat) (t : Caller) (ans : Answer) :
    Op → Option (State × List Op)
  | .getIrql => some (s, if passiveLevel < t.irql then [] else [.compareExchange])
  | .compareExchange =>
      if s.phase = .uninit then some ({ s with phase := .initing }, [.lookUp]) else some (s, [])
  | .lookUp => some ({ s with lookups := s.lookups ++ [t.irql] }, [.storePtr routine])
  | .storePtr addr => some ({ s with ptr := addr }, [.storeReady])
  | .storeReady => some ({ s with phase := .ready }, [])
  | .loadState =>
      some (s, if s.phase = .ready then [.loadStateAgain] else [.getIrql, .loadStateAgain])
  | .loadStateAgain => some (s, if s.phase = .ready then [.loadPtr] else [.allocate none])
  | .loadPtr => some (s, [.allocate (if s.ptr = 0 then none else some s.ptr)])
  | .allocate func =>
      if func = none ∨ func = some routine then
        let (pool, returned) := t.call.request { ans with pool2 := func.isSome } s.pool
        some ({ s with pool := pool, served := s.served ++ [⟨i, func, returned⟩] }, [])
      else none

/-- Thread `i` performs its next operation, with the kernel's answer to an allocation, or a
call is made. -/
inductive Label
  | run (i : Nat) (ans : Answer)
  | call (t : Caller)

def step (routine : Nat) (s : State) : Label → Option State
  | .run i ans =>
      match s.threads[i]? with
      | some ⟨t, op :: rest⟩ =>
          (s.perform routine i t ans op).map fun (s', push) =>
            { s' with threads := s.threads.set i ⟨t, push ++ rest⟩ }
      | _ => none
  | .call t => some { s with threads := s.threads ++ [⟨t, t.call.code⟩] }

end State

/-- Before anything has been allocated. -/
def initial (pool : Pool) : State :=
  ⟨0, .uninit, pool, [], [], []⟩

/-- A driver on a kernel with `ExAllocatePool2` at `routine`, or without it. -/
def system (routine : Nat) : Sys State State.Label where
  start s := ∃ pool, s = initial pool
  step := State.step routine

/-! ## Inversion of the steps -/

namespace State

variable {routine : Nat} {s s' : State} {i : Nat} {ans : Answer} {t : Caller}

theorem step_run (next : s.step routine (.run i ans) = some s') :
    ∃ t op rest s₁ push, s.threads[i]? = some ⟨t, op :: rest⟩ ∧
      s.perform routine i t ans op = some (s₁, push) ∧
      s' = { s₁ with threads := s.threads.set i ⟨t, push ++ rest⟩ } := by
  simp only [step] at next
  split at next
  · obtain ⟨⟨s₁, push⟩, performed, rfl⟩ := Option.map_eq_some_iff.mp next
    exact ⟨_, _, _, s₁, push, ‹_›, performed, rfl⟩
  · cases next

theorem perform_allocate {func : Option Nat} (known : func = none ∨ func = some routine) :
    s.perform routine i t ans (.allocate func) =
      some ({ s with
        pool := (t.call.request { ans with pool2 := func.isSome } s.pool).1
        served := s.served ++
          [⟨i, func, (t.call.request { ans with pool2 := func.isSome } s.pool).2⟩] }, []) :=
  if_pos known

theorem step_call (next : s.step routine (.call t) = some s') :
    s' = { s with threads := s.threads ++ [⟨t, t.call.code⟩] } :=
  (Option.some.inj next).symm

end State

/-! ## Where a thread is -/

/-- A thread is between its `compare_exchange` on the state and its store of READY. -/
def Op.resolving : Op → Nat
  | .lookUp => 1
  | .storePtr _ => 1
  | .storeReady => 1
  | _ => 0

/-- A thread has still to ask the kernel. -/
def Op.asks : Op → Nat
  | .lookUp => 1
  | _ => 0

/-- At PASSIVE_LEVEL the thread has found or made an attempt to ask. -/
def Tried (phase : Phase) (t : Caller) : Prop :=
  t.irql = passiveLevel → phase ≠ .uninit

/-- What a call does when `try_init_ex_allocate_pool2` has returned. -/
def Call.after : Call → List Op
  | .init => []
  | .allocate .. => [.loadStateAgain]

/-- The code that a thread can have left, and what it then knows of the statics. -/
inductive Stage (routine : Nat) (phase : Phase) (ptr : Nat) (t : Caller) : List Op → Prop
  | loadState : t.call.after = [.loadStateAgain] → Stage routine phase ptr t [.loadState]
  | getIrql : Stage routine phase ptr t (.getIrql :: t.call.after)
  | compareExchange :
      t.irql = passiveLevel → Stage routine phase ptr t (.compareExchange :: t.call.after)
  | lookUp :
      t.irql = passiveLevel → phase = .initing →
        Stage routine phase ptr t (.lookUp :: t.call.after)
  | storePtr :
      t.irql = passiveLevel → phase = .initing →
        Stage routine phase ptr t (.storePtr routine :: t.call.after)
  | storeReady :
      phase = .initing → ptr = routine → Stage routine phase ptr t (.storeReady :: t.call.after)
  | loadStateAgain : Tried phase t → Stage routine phase ptr t [.loadStateAgain]
  | loadPtr : phase = .ready → Stage routine phase ptr t [.loadPtr]
  | fallBack : Tried phase t → Stage routine phase ptr t [.allocate none]
  | callRoutine :
      phase = .ready → routine ≠ 0 → Stage routine phase ptr t [.allocate (some routine)]
  | returned : Tried phase t → Stage routine phase ptr t []

/-- An allocation was served with the routine that the kernel has, or by the fallback. -/
def Served.Sound (routine : Nat) (phase : Phase) (v : Served) : Prop :=
  v.func = none ∨ v.func = some routine ∧ routine ≠ 0 ∧ phase = .ready

structure Inv (routine : Nat) (s : State) : Prop where
  stages : ∀ t ∈ s.threads, Stage routine s.phase s.ptr t.tag t.code
  resolver : load Op.resolving s.threads = if s.phase = .initing then 1 else 0
  asked : s.lookups.length + load Op.asks s.threads = if s.phase = .uninit then 0 else 1
  passive : ∀ irql ∈ s.lookups, irql = passiveLevel
  stored : s.phase = .ready → s.ptr = routine
  served : ∀ v ∈ s.served, v.Sound routine s.phase
  thread : ∀ v ∈ s.served, v.thread < s.threads.length

section Steps

variable {routine : Nat} {phase phase' : Phase} {ptr ptr' : Nat} {t : Caller} {code : List Op}

theorem passive_of_not_lt (low : ¬passiveLevel < t.irql) : t.irql = passiveLevel := by
  unfold passiveLevel at low ⊢
  exact UInt8.le_zero_iff.mp (UInt8.not_lt.mp low)

/-- `try_init_ex_allocate_pool2` has returned. -/
theorem Stage.after (tried : Tried phase t) : Stage routine phase ptr t t.call.after := by
  cases call : t.call with
  | init => exact .returned tried
  | allocate zeroed pool size tag => exact .loadStateAgain tried

theorem Tried.of_ready (isReady : phase = .ready) : Tried phase t := by
  intro _ isUninit
  rw [isReady] at isUninit
  cases isUninit

theorem Tried.of_ne (started : phase ≠ .uninit) : Tried phase t :=
  fun _ => started

/-- What a thread knows stays true while another one moves: the state goes up, nobody
leaves `initing` while the thread is resolving, and then the pointer is only set to the
routine. -/
theorem Stage.mono (stage : Stage routine phase ptr t code)
    (up : phase' = phase ∨ phase = .uninit ∨ phase' = .ready)
    (alone : total Op.resolving code = 0 ∨ phase' = phase)
    (kept : ptr' = ptr ∨ ptr' = routine) : Stage routine phase' ptr' t code := by
  have tried : Tried phase t → Tried phase' t := by
    intro old passive isUninit
    rcases up with same | first | last
    · exact old passive (same ▸ isUninit)
    · exact old passive first
    · rw [last] at isUninit
      cases isUninit
  have final : phase = .ready → phase' = .ready := by
    intro was
    rcases up with same | first | last
    · exact same.trans was
    · rw [was] at first
      cases first
    · exact last
  have held : 0 < total Op.resolving code → phase = .initing → phase' = .initing := by
    intro pos was
    rcases alone with none | same
    · omega
    · exact same.trans was
  cases stage with
  | loadState looks => exact .loadState looks
  | getIrql => exact .getIrql
  | compareExchange passive => exact .compareExchange passive
  | lookUp passive was =>
      exact .lookUp passive (held (by rw [total_cons, Op.resolving]; omega) was)
  | storePtr passive was =>
      exact .storePtr passive (held (by rw [total_cons, Op.resolving]; omega) was)
  | storeReady was set =>
      refine .storeReady (held (by rw [total_cons, Op.resolving]; omega) was) ?_
      rcases kept with same | new
      · exact same.trans set
      · exact new
  | loadStateAgain old => exact .loadStateAgain (tried old)
  | loadPtr was => exact .loadPtr (final was)
  | fallBack old => exact .fallBack (tried old)
  | callRoutine was found => exact .callRoutine (final was) found
  | returned old => exact .returned (tried old)

theorem Stage.first : Stage routine phase ptr t t.call.code := by
  cases call : t.call with
  | init =>
      have code : t.call.after = [] := by rw [call]; rfl
      have stage : Stage routine phase ptr t (.getIrql :: t.call.after) := .getIrql
      rwa [code] at stage
  | allocate zeroed pool size tag => exact .loadState (by rw [call]; rfl)

theorem Served.Sound.mono {v : Served} (sound : v.Sound routine phase)
    (final : phase = .ready → phase' = .ready) : v.Sound routine phase' :=
  sound.imp_right fun ⟨func, found, was⟩ => ⟨func, found, final was⟩

end Steps

section Runs

variable {routine : Nat} {s s' s₁ : State} {i : Nat} {t : Caller} {op : Op} {push rest : List Op}
  {ans : Answer} {phase' : Phase} {ptr' : Nat}

/-- The other threads stay where they are. -/
theorem Inv.stages_set (inv : Inv routine s)
    (up : phase' = s.phase ∨ s.phase = .uninit ∨ phase' = .ready)
    (alone : phase' = s.phase ∨ load Op.resolving s.threads = 0 ∨
      load Op.resolving (s.threads.set i ⟨t, push ++ rest⟩) = 0)
    (kept : ptr' = s.ptr ∨ ptr' = routine) (stage : Stage routine phase' ptr' t (push ++ rest)) :
    ∀ t' ∈ s.threads.set i ⟨t, push ++ rest⟩, Stage routine phase' ptr' t'.tag t'.code := by
  intro t' member
  rcases List.mem_or_eq_of_mem_set member with old | rfl
  · refine (inv.stages t' old).mono up ?_ kept
    rcases alone with same | none | none
    · exact .inr same
    · exact .inl (total_eq_zero.mpr (load_eq_zero.mp none t' old))
    · exact .inl (total_eq_zero.mpr (load_eq_zero.mp none t' member))
  · exact stage

theorem Inv.thread_set (inv : Inv routine s) {t' : Thread Caller Op} :
    ∀ v ∈ s.served, v.thread < (s.threads.set i t').length := by
  intro v member
  rw [List.length_set]
  exact inv.thread v member

/-- A step that leaves the statics alone and is none of the resolving thread. -/
theorem Inv.reads (inv : Inv routine s) (thread : s.threads[i]? = some ⟨t, op :: rest⟩)
    (free : op.resolving = 0 ∧ op.asks = 0)
    (pushed : total Op.resolving push = 0 ∧ total Op.asks push = 0)
    (stage : Stage routine s.phase s.ptr t (push ++ rest)) :
    Inv routine { s with threads := s.threads.set i ⟨t, push ++ rest⟩ } := by
  have resolving := load_set Op.resolving t push thread
  have asking := load_set Op.asks t push thread
  have sameResolving : load Op.resolving (s.threads.set i ⟨t, push ++ rest⟩) =
      load Op.resolving s.threads := by omega
  have sameAsking : load Op.asks (s.threads.set i ⟨t, push ++ rest⟩) =
      load Op.asks s.threads := by omega
  exact ⟨inv.stages_set (.inl rfl) (.inl rfl) (.inl rfl) stage, sameResolving.trans inv.resolver,
    (congrArg (s.lookups.length + ·) sameAsking).trans inv.asked, inv.passive, inv.stored,
    inv.served, inv.thread_set⟩

theorem Inv.compareExchange (inv : Inv routine s)
    (thread : s.threads[i]? = some ⟨t, .compareExchange :: t.call.after⟩)
    (passive : t.irql = passiveLevel) (first : s.phase = .uninit) :
    Inv routine { s with
      phase := .initing
      threads := s.threads.set i ⟨t, [.lookUp] ++ t.call.after⟩ } := by
  have resolving := load_set Op.resolving t [.lookUp] thread
  have asking := load_set Op.asks t [.lookUp] thread
  have before := inv.resolver
  have asked := inv.asked
  rw [first] at before asked
  simp only [reduceCtorEq, if_false, if_true] at before asked
  simp only [total_cons, total_nil, Op.resolving, Op.asks] at resolving asking
  refine ⟨inv.stages_set (.inr (.inl first)) (.inr (.inl before)) (.inl rfl)
    (.lookUp passive rfl), ?_, ?_, inv.passive, ?_, ?_, inv.thread_set⟩
  · change load Op.resolving (s.threads.set i ⟨t, [.lookUp] ++ t.call.after⟩) = 1
    omega
  · change s.lookups.length + load Op.asks (s.threads.set i ⟨t, [.lookUp] ++ t.call.after⟩) = 1
    omega
  · intro isReady
    cases isReady
  · intro v member
    refine (inv.served v member).mono fun isReady => ?_
    rw [first] at isReady
    cases isReady

theorem Inv.lookUp (inv : Inv routine s)
    (thread : s.threads[i]? = some ⟨t, .lookUp :: t.call.after⟩)
    (passive : t.irql = passiveLevel) (started : s.phase = .initing) :
    Inv routine { s with
      lookups := s.lookups ++ [t.irql]
      threads := s.threads.set i ⟨t, [.storePtr routine] ++ t.call.after⟩ } := by
  have resolving := load_set Op.resolving t [.storePtr routine] thread
  have asking := load_set Op.asks t [.storePtr routine] thread
  simp only [total_cons, total_nil, Op.resolving, Op.asks] at resolving asking
  have sameResolving : load Op.resolving (s.threads.set i ⟨t, [.storePtr routine] ++ t.call.after⟩) =
      load Op.resolving s.threads := by omega
  have oneMore : (s.lookups ++ [t.irql]).length +
      load Op.asks (s.threads.set i ⟨t, [.storePtr routine] ++ t.call.after⟩) =
      s.lookups.length + load Op.asks s.threads := by
    rw [List.length_append, List.length_singleton]
    omega
  refine ⟨inv.stages_set (.inl rfl) (.inl rfl) (.inl rfl) (.storePtr passive started),
    sameResolving.trans inv.resolver, oneMore.trans inv.asked, ?_, inv.stored, inv.served,
    inv.thread_set⟩
  intro irql member
  rcases List.mem_append.mp member with old | new
  · exact inv.passive irql old
  · rw [List.mem_singleton.mp new]
    exact passive

theorem Inv.storePtr (inv : Inv routine s)
    (thread : s.threads[i]? = some ⟨t, .storePtr routine :: t.call.after⟩)
    (started : s.phase = .initing) :
    Inv routine { s with
      ptr := routine
      threads := s.threads.set i ⟨t, [.storeReady] ++ t.call.after⟩ } := by
  have resolving := load_set Op.resolving t [.storeReady] thread
  have asking := load_set Op.asks t [.storeReady] thread
  simp only [total_cons, total_nil, Op.resolving, Op.asks] at resolving asking
  have sameResolving : load Op.resolving (s.threads.set i ⟨t, [.storeReady] ++ t.call.after⟩) =
      load Op.resolving s.threads := by omega
  have sameAsking : load Op.asks (s.threads.set i ⟨t, [.storeReady] ++ t.call.after⟩) =
      load Op.asks s.threads := by omega
  exact ⟨inv.stages_set (.inl rfl) (.inl rfl) (.inr rfl) (.storeReady started rfl),
    sameResolving.trans inv.resolver, (congrArg (s.lookups.length + ·) sameAsking).trans inv.asked,
    inv.passive, fun _ => rfl, inv.served, inv.thread_set⟩

theorem Inv.storeReady (inv : Inv routine s)
    (thread : s.threads[i]? = some ⟨t, .storeReady :: t.call.after⟩)
    (started : s.phase = .initing) (set : s.ptr = routine) :
    Inv routine { s with
      phase := .ready
      threads := s.threads.set i ⟨t, [] ++ t.call.after⟩ } := by
  have resolving := load_set Op.resolving t [] thread
  have asking := load_set Op.asks t [] thread
  have before := inv.resolver
  have asked := inv.asked
  rw [started] at before asked
  simp only [reduceCtorEq, if_false, if_true] at before asked
  simp only [total_nil, Op.resolving, Op.asks] at resolving asking
  have alone : load Op.resolving (s.threads.set i ⟨t, [] ++ t.call.after⟩) = 0 := by omega
  refine ⟨inv.stages_set (.inr (.inr rfl)) (.inr (.inr alone)) (.inl rfl)
    (Stage.after (.of_ne (by simp))), alone, ?_, inv.passive, fun _ => set, ?_, inv.thread_set⟩
  · change s.lookups.length + load Op.asks (s.threads.set i ⟨t, [] ++ t.call.after⟩) = 1
    omega
  · exact fun v member => (inv.served v member).mono fun _ => rfl

theorem Inv.allocate {func : Option Nat} {pool : Pool} {returned : Nat} (inv : Inv routine s)
    (thread : s.threads[i]? = some ⟨t, [.allocate func]⟩) (tried : Tried s.phase t)
    (sound : func = none ∨ func = some routine ∧ routine ≠ 0 ∧ s.phase = .ready) :
    Inv routine { s with
      pool := pool
      served := s.served ++ [⟨i, func, returned⟩]
      threads := s.threads.set i ⟨t, [] ++ []⟩ } := by
  have moved : Inv routine { s with threads := s.threads.set i ⟨t, [] ++ []⟩ } :=
    inv.reads thread ⟨rfl, rfl⟩ ⟨rfl, rfl⟩ (.returned tried)
  refine ⟨moved.stages, moved.resolver, moved.asked, moved.passive, moved.stored, ?_, ?_⟩
  · intro v member
    rcases List.mem_append.mp member with old | new
    · exact inv.served v old
    · rw [List.mem_singleton.mp new]
      exact sound
  · intro v member
    rcases List.mem_append.mp member with old | new
    · exact moved.thread v old
    · rw [List.mem_singleton.mp new]
      change i < (s.threads.set i _).length
      rw [List.length_set]
      exact (List.getElem?_eq_some_iff.mp thread).1

/-- A step of a thread keeps the invariant, and is never blocked. -/
theorem Inv.run (inv : Inv routine s) (thread : s.threads[i]? = some ⟨t, op :: rest⟩)
    (ans : Answer) :
    ∃ s₁ push, s.perform routine i t ans op = some (s₁, push) ∧
      Inv routine { s₁ with threads := s.threads.set i ⟨t, push ++ rest⟩ } := by
  have stage : Stage routine s.phase s.ptr t (op :: rest) :=
    inv.stages _ (List.mem_of_getElem? thread)
  cases stage with
  | loadState looks =>
      refine ⟨_, _, rfl, ?_⟩
      by_cases isReady : s.phase = .ready
      · rw [if_pos isReady]
        exact inv.reads thread ⟨rfl, rfl⟩ ⟨rfl, rfl⟩ (.loadStateAgain (.of_ready isReady))
      · rw [if_neg isReady]
        refine inv.reads thread ⟨rfl, rfl⟩ ⟨rfl, rfl⟩ ?_
        rw [← looks, List.append_nil]
        exact .getIrql
  | getIrql =>
      refine ⟨_, _, rfl, ?_⟩
      by_cases elevated : passiveLevel < t.irql
      · rw [if_pos elevated]
        refine inv.reads thread ⟨rfl, rfl⟩ ⟨rfl, rfl⟩ (Stage.after fun passive => ?_)
        rw [passive] at elevated
        exact absurd elevated (by decide)
      · rw [if_neg elevated]
        exact inv.reads thread ⟨rfl, rfl⟩ ⟨rfl, rfl⟩ (.compareExchange (passive_of_not_lt elevated))
  | compareExchange passive =>
      by_cases first : s.phase = .uninit
      · exact ⟨_, _, if_pos first, inv.compareExchange thread passive first⟩
      · exact ⟨_, _, if_neg first,
          inv.reads thread ⟨rfl, rfl⟩ ⟨rfl, rfl⟩ (Stage.after (.of_ne first))⟩
  | lookUp passive started => exact ⟨_, _, rfl, inv.lookUp thread passive started⟩
  | storePtr passive started => exact ⟨_, _, rfl, inv.storePtr thread started⟩
  | storeReady started set => exact ⟨_, _, rfl, inv.storeReady thread started set⟩
  | loadStateAgain tried =>
      refine ⟨_, _, rfl, ?_⟩
      by_cases isReady : s.phase = .ready
      · rw [if_pos isReady]
        exact inv.reads thread ⟨rfl, rfl⟩ ⟨rfl, rfl⟩ (.loadPtr isReady)
      · rw [if_neg isReady]
        exact inv.reads thread ⟨rfl, rfl⟩ ⟨rfl, rfl⟩ (.fallBack tried)
  | loadPtr isReady =>
      refine ⟨_, _, rfl, ?_⟩
      have stored := inv.stored isReady
      by_cases absent : s.ptr = 0
      · rw [if_pos absent]
        have next : Stage routine s.phase s.ptr t ([.allocate none] ++ []) :=
          .fallBack (.of_ready isReady)
        exact inv.reads thread ⟨rfl, rfl⟩ ⟨rfl, rfl⟩ next
      · have found : some s.ptr = some routine := congrArg some stored
        rw [if_neg absent, found]
        have next : Stage routine s.phase s.ptr t ([.allocate (some routine)] ++ []) :=
          .callRoutine isReady (stored ▸ absent)
        exact inv.reads thread ⟨rfl, rfl⟩ ⟨rfl, rfl⟩ next
  | fallBack tried =>
      exact ⟨_, _, State.perform_allocate (.inl rfl), inv.allocate thread tried (.inl rfl)⟩
  | callRoutine isReady found =>
      exact ⟨_, _, State.perform_allocate (.inr rfl),
        inv.allocate thread (.of_ready isReady) (.inr ⟨rfl, found, isReady⟩)⟩

theorem Inv.call (inv : Inv routine s) (t : Caller) :
    Inv routine { s with threads := s.threads ++ [⟨t, t.call.code⟩] } := by
  have resolving : load Op.resolving (s.threads ++ [⟨t, t.call.code⟩]) =
      load Op.resolving s.threads := by
    cases call : t.call <;> simp [Call.code, Op.resolving]
  have asking : load Op.asks (s.threads ++ [⟨t, t.call.code⟩]) = load Op.asks s.threads := by
    cases call : t.call <;> simp [Call.code, Op.asks]
  refine ⟨?_, resolving.trans inv.resolver,
    (congrArg (s.lookups.length + ·) asking).trans inv.asked, inv.passive, inv.stored, inv.served,
    ?_⟩
  · intro t' member
    rcases List.mem_append.mp member with old | new
    · exact inv.stages t' old
    · rw [List.mem_singleton.mp new]
      exact .first
  · intro v member
    rw [List.length_append]
    exact Nat.lt_add_right _ (inv.thread v member)

theorem Inv.initial (pool : Pool) : Inv routine (initial pool) where
  stages _ member := by cases member
  resolver := rfl
  asked := rfl
  passive _ member := by cases member
  stored isReady := by cases isReady
  served _ member := by cases member
  thread _ member := by cases member

theorem Inv.step {a : State.Label} (inv : Inv routine s) (next : s.step routine a = some s') :
    Inv routine s' := by
  cases a with
  | run i ans =>
      obtain ⟨t, op, rest, s₁, push, thread, performed, rfl⟩ := State.step_run next
      obtain ⟨s₂, push', performed', moved⟩ := inv.run thread ans
      cases performed.symm.trans performed'
      exact moved
  | call t =>
      rw [State.step_call next]
      exact inv.call t

theorem inv_of_reach (reached : (system routine).Reachable s) : Inv routine s := by
  refine Sys.Reach.invariant ?_ ?_ reached
  · rintro s ⟨pool, rfl⟩
    exact Inv.initial pool
  · exact fun s a s' inv _ next => inv.step next

end Runs

/-! ## What every run keeps -/

section Results

variable {routine : Nat} {s s' s₁ : State} {i : Nat} {t : Caller} {op : Op} {push rest : List Op}
  {ans : Answer}

/-- **The kernel is asked once.** In every state that any number of threads reach, at any
IRQL: `MmGetSystemRoutineAddress` was called at most once, at PASSIVE_LEVEL; every allocation
was served by the routine that the kernel has or by the fallback; and no thread is stopped by
the call of another address. -/
theorem resolved_once (reached : (system routine).Reachable s) :
    s.lookups.length ≤ 1 ∧ (∀ irql ∈ s.lookups, irql = passiveLevel) ∧
      (∀ v ∈ s.served, v.func = none ∨ v.func = some routine ∧ routine ≠ 0) ∧
      ∀ i t op rest, s.threads[i]? = some ⟨t, op :: rest⟩ →
        ∀ ans, ∃ s', (system routine).step s (.run i ans) = some s' := by
  have inv := inv_of_reach reached
  have asked := inv.asked
  refine ⟨?_, inv.passive, ?_, ?_⟩
  · split at asked <;> omega
  · intro v member
    exact (inv.served v member).imp_right fun ⟨func, found, _⟩ => ⟨func, found⟩
  · intro i t op rest thread ans
    obtain ⟨s₁, push, performed, -⟩ := inv.run thread ans
    refine ⟨{ s₁ with threads := s.threads.set i ⟨t, push ++ rest⟩ }, ?_⟩
    change s.step routine (.run i ans) = _
    simp only [State.step, thread, performed, Option.map_some]

/-- An allocation of eight bytes, at an IRQL. -/
def eightBytes (irql : UInt8) : Caller :=
  ⟨.allocate true .paged 8 7, irql⟩

/-- Thread `i` takes a step on a kernel that gives the block at `0x1000`. -/
abbrev go (i : Nat) : State.Label :=
  .run i ⟨0x1000, fun _ => 3, false⟩

/-- Two allocations at once: thread 1 finds thread 0 resolving and falls back. -/
theorem resolved_once_of_race :
    ∃ s, (system 0x5000).Reachable s ∧ (s.served.length = 2 ∧ s.lookups.length = 1) ∧
      (s.lookups.length ≤ 1 ∧ (∀ irql ∈ s.lookups, irql = passiveLevel) ∧
        (∀ v ∈ s.served, v.func = none ∨ v.func = some 0x5000 ∧ 0x5000 ≠ 0) ∧
        ∀ i t op rest, s.threads[i]? = some ⟨t, op :: rest⟩ →
          ∀ ans, ∃ s', (system 0x5000).step s (.run i ans) = some s') := by
  obtain ⟨s, reached, shape⟩ := Sys.Reach.exists_of_exec
    (fun s : State => s.served.length = 2 ∧ s.lookups.length = 1)
    [.call (eightBytes 0), .call (eightBytes 0), go 0, go 0, go 0, go 1, go 1, go 1, go 1, go 1,
      go 0, go 0, go 0, go 0, go 0, go 0]
    (.start ⟨⟨fun _ => 0, []⟩, rfl⟩ : (system 0x5000).Reachable (initial ⟨fun _ => 0, []⟩))
    (by decide)
  exact ⟨s, reached, shape, resolved_once reached⟩

/-- What `get_ex_allocate_pool2` answers once the kernel has been asked. -/
def answer (routine : Nat) : Option Nat :=
  if routine = 0 then none else some routine

/-- From a state with READY on: what the threads from `n` on do. -/
structure Late (routine n : Nat) (s : State) : Prop where
  isReady : s.phase = .ready
  length : n ≤ s.threads.length
  pending : ∀ i t, n ≤ i → s.threads[i]? = some t →
    ∀ func, Op.allocate func ∈ t.code → func = answer routine
  served : ∀ v ∈ s.served, n ≤ v.thread → v.func = answer routine

/-- One operation after READY. -/
theorem perform_ready (isReady : s.phase = .ready) (stored : s.ptr = routine)
    (performed : s.perform routine i t ans op = some (s₁, push)) :
    s₁.phase = .ready ∧ (∀ func, Op.allocate func ∈ push → func = answer routine) ∧
      (s₁.served = s.served ∨
        ∃ func returned, op = .allocate func ∧ s₁.served = s.served ++ [⟨i, func, returned⟩]) := by
  cases op with
  | getIrql =>
      cases performed
      refine ⟨isReady, ?_, .inl rfl⟩
      intro func member
      split at member
      · cases member
      · simp at member
  | compareExchange =>
      rw [State.perform, isReady, if_neg (by decide)] at performed
      cases performed
      exact ⟨isReady, fun _ member => absurd member List.not_mem_nil, .inl rfl⟩
  | lookUp | storePtr addr =>
      cases performed
      exact ⟨isReady, fun func member => (by simp at member), .inl rfl⟩
  | storeReady =>
      cases performed
      exact ⟨rfl, fun _ member => absurd member List.not_mem_nil, .inl rfl⟩
  | loadState | loadStateAgain =>
      rw [State.perform, isReady, if_pos rfl] at performed
      cases performed
      exact ⟨isReady, fun func member => (by simp at member), .inl rfl⟩
  | loadPtr =>
      cases performed
      refine ⟨isReady, ?_, .inl rfl⟩
      intro func member
      rw [List.mem_singleton, stored] at member
      cases member
      rfl
  | allocate func =>
      rw [State.perform] at performed
      split at performed
      · cases performed
        exact ⟨isReady, fun _ member => absurd member List.not_mem_nil, .inr ⟨func, _, rfl, rfl⟩⟩
      · cases performed

theorem Late.step {n : Nat} {a : State.Label} (late : Late routine n s) (inv : Inv routine s)
    (next : s.step routine a = some s') : Late routine n s' := by
  cases a with
  | call t =>
      rw [State.step_call next]
      refine ⟨late.isReady, ?_, ?_, late.served⟩
      · rw [List.length_append]
        exact Nat.le_add_right_of_le late.length
      · intro j t' after thread func member
        rcases Nat.lt_or_ge j s.threads.length with old | new
        · rw [List.getElem?_append_left old] at thread
          exact late.pending j t' after thread func member
        · rw [List.getElem?_append_right new, List.getElem?_singleton] at thread
          split at thread
          · cases thread
            cases call : t.call <;> simp [Call.code, call] at member
          · cases thread
  | run i ans =>
      obtain ⟨t, op, rest, s₁, push, thread, performed, rfl⟩ := State.step_run next
      obtain ⟨isReady, pushed, served⟩ := perform_ready late.isReady (inv.stored late.isReady)
        performed
      refine ⟨isReady, ?_, ?_, ?_⟩
      · change n ≤ (s.threads.set i _).length
        rw [List.length_set]
        exact late.length
      · intro j t' after thread' func member
        change (s.threads.set i _)[j]? = some t' at thread'
        rcases eq_or_ne i j with rfl | other
        · rw [List.getElem?_set_self (List.getElem?_eq_some_iff.mp thread).1] at thread'
          cases thread'
          rcases List.mem_append.mp member with new | old
          · exact pushed func new
          · exact late.pending i _ after thread func (List.mem_cons_of_mem _ old)
        · rw [List.getElem?_set_ne other] at thread'
          exact late.pending j t' after thread' func member
      · intro v member after
        rcases served with same | ⟨func, returned, rfl, more⟩
        · exact late.served v (same ▸ member) after
        · rcases List.mem_append.mp (more ▸ member) with old | new
          · exact late.served v old after
          · rw [List.mem_singleton.mp new] at after ⊢
            exact late.pending i _ after thread func List.mem_cons_self

/-- **From when on the routine is fixed.** Once a call at PASSIVE_LEVEL has returned and no
thread is between its `compare_exchange` and its store of READY, every allocation called
later, at whatever IRQL and in whatever company, is served by `ExAllocatePool2` if the kernel
has it and by the fallback if not. -/
theorem routine_stays (reached : (system routine).Reachable s)
    (asked : ∃ t ∈ s.threads, t.tag.irql = passiveLevel ∧ t.code = [])
    (quiet : ∀ t ∈ s.threads, ∀ op ∈ t.code, op.resolving = 0)
    (later : ((system routine).resume s).Reachable s') :
    ∀ v ∈ s'.served, s.threads.length ≤ v.thread → v.func = answer routine := by
  have inv := inv_of_reach reached
  have isReady : s.phase = .ready := by
    obtain ⟨t, member, passive, done⟩ := asked
    have stage := inv.stages t member
    rw [done] at stage
    have resolver := inv.resolver
    rw [load_eq_zero.mpr quiet] at resolver
    cases phase : s.phase with
    | uninit =>
        cases stage with
        | returned tried => exact absurd phase (tried passive)
    | initing =>
        rw [phase] at resolver
        cases resolver
    | ready => rfl
  have late : Late routine s.threads.length s := by
    refine ⟨isReady, Nat.le_refl _, ?_, ?_⟩
    · intro j t after thread
      exact absurd (List.getElem?_eq_some_iff.mp thread).1 (Nat.not_lt.mpr after)
    · intro v member after
      exact absurd (inv.thread v member) (Nat.not_lt.mpr after)
  have whole : Inv routine s' ∧ Late routine s.threads.length s' := by
    refine Sys.Reach.invariant (I := fun s' => Inv routine s' ∧ Late routine s.threads.length s')
      ?_ ?_ later
    · rintro s₁ rfl
      exact ⟨inv, late⟩
    · rintro s₁ a s₂ ⟨inv, late⟩ _ next
      exact ⟨inv.step next, late.step inv next⟩
  exact whole.2.served

/-- `init_ex_allocate_pool2` at PASSIVE_LEVEL, then an allocation at DISPATCH_LEVEL. -/
theorem routine_stays_after_init :
    ∃ s s', (system 0x5000).Reachable s ∧ ((system 0x5000).resume s).Reachable s' ∧
      s'.served.length = 1 ∧
      ∀ v ∈ s'.served, s.threads.length ≤ v.thread → v.func = answer 0x5000 := by
  let pool : Pool := ⟨fun _ => 0, []⟩
  let s : State := ⟨0x5000, .ready, pool, [⟨⟨.init, 0⟩, []⟩], [0], []⟩
  have reached : (system 0x5000).Reachable s :=
    .of_exec [.call ⟨.init, 0⟩, go 0, go 0, go 0, go 0, go 0] (.start ⟨pool, rfl⟩) rfl
  obtain ⟨s', later, served⟩ := Sys.Reach.exists_of_exec
    (fun s : State => s.served.length = 1) [.call (eightBytes 2), go 1, go 1, go 1, go 1]
    (.start rfl : ((system 0x5000).resume s).Reachable s) (by decide)
  exact ⟨s, s', reached, later, served,
    routine_stays reached ⟨⟨⟨.init, 0⟩, []⟩, List.mem_singleton_self _, rfl, rfl⟩ (by decide) later⟩

/-- Where a thread at PASSIVE_LEVEL decides for the fallback. -/
theorem Stage.fallsBack (stage : Stage routine s.phase s.ptr t (op :: rest))
    (stored : s.phase = .ready → s.ptr = routine) (found : routine ≠ 0)
    (passive : t.irql = passiveLevel) (performed : s.perform routine i t ans op = some (s₁, push))
    (decides : push ++ rest = [.allocate none]) :
    op :: rest = [.loadStateAgain] ∧ s.phase = .initing := by
  have after : t.call.after ≠ [.allocate none] := by
    cases call : t.call <;> simp [Call.after]
  cases stage with
  | loadState looks =>
      cases performed
      split at decides <;> simp at decides
  | getIrql =>
      cases performed
      split at decides
      · exact absurd decides after
      · simp at decides
  | compareExchange _ =>
      rw [State.perform] at performed
      split at performed <;> cases performed
      · simp at decides
      · exact absurd decides after
  | lookUp _ _ | storePtr _ _ =>
      cases performed
      simp at decides
  | storeReady _ _ =>
      cases performed
      exact absurd decides after
  | loadStateAgain tried =>
      cases performed
      refine ⟨rfl, ?_⟩
      cases phase : s.phase with
      | uninit => exact absurd phase (tried passive)
      | initing => rfl
      | ready =>
          rw [phase, if_pos rfl] at decides
          simp at decides
  | loadPtr isReady =>
      cases performed
      rw [stored isReady, if_neg found] at decides
      simp at decides
  | fallBack _ | callRoutine _ _ =>
      rw [State.perform] at performed
      split at performed <;> cases performed
      simp at decides

/-- **What an early fallback has met.** On a kernel with `ExAllocatePool2`, a call at
PASSIVE_LEVEL decides for `ExAllocatePoolWithTag` only in a state in which another thread is
resolving the routine. -/
theorem falls_back_while_resolving (reached : (system routine).Reachable s)
    (found : routine ≠ 0) (thread : s.threads[i]? = some ⟨t, op :: rest⟩)
    (passive : t.irql = passiveLevel) (next : (system routine).step s (.run i ans) = some s')
    (decides : s'.threads[i]? = some ⟨t, [.allocate none]⟩) :
    ∃ j t', j ≠ i ∧ s.threads[j]? = some t' ∧ ∃ op ∈ t'.code, op.resolving = 1 := by
  have inv := inv_of_reach reached
  obtain ⟨t₁, op₁, rest₁, s₁, push, thread₁, performed, rfl⟩ := State.step_run next
  cases thread.symm.trans thread₁
  change (s.threads.set i _)[i]? = _ at decides
  rw [List.getElem?_set_self (List.getElem?_eq_some_iff.mp thread).1] at decides
  obtain ⟨here, resolves⟩ := (inv.stages _ (List.mem_of_getElem? thread)).fallsBack inv.stored found
    passive performed (congrArg Thread.code (Option.some.inj decides))
  have resolver := inv.resolver
  rw [if_pos resolves] at resolver
  obtain ⟨t', member, op', memberOp, pos⟩ := exists_of_load_pos (resolver ▸ Nat.one_pos)
  obtain ⟨j, thread'⟩ := List.mem_iff_getElem?.mp member
  refine ⟨j, t', ?_, thread', op', memberOp, ?_⟩
  · rintro rfl
    cases thread.symm.trans thread'
    cases here
    rw [List.mem_singleton.mp memberOp] at pos
    cases pos
  · cases op' <;> first | rfl | cases pos

/-- Thread 1 reads the state while thread 0 is about to ask the kernel. -/
theorem falls_back_while_resolving_of_race :
    ∃ s s' t, (system 0x5000).Reachable s ∧ (system 0x5000).step s (go 1) = some s' ∧
      s'.threads[1]? = some ⟨t, [.allocate none]⟩ ∧
      ∃ j t', j ≠ 1 ∧ s.threads[j]? = some t' ∧ ∃ op ∈ t'.code, op.resolving = 1 := by
  let pool : Pool := ⟨fun _ => 0, []⟩
  let s : State := ⟨0, .initing, pool, [⟨eightBytes 0, [.lookUp, .loadStateAgain]⟩,
    ⟨eightBytes 0, [.loadStateAgain]⟩], [], []⟩
  let s' : State := { s with threads := [⟨eightBytes 0, [.lookUp, .loadStateAgain]⟩,
    ⟨eightBytes 0, [.allocate none]⟩] }
  have reached : (system 0x5000).Reachable s :=
    .of_exec [.call (eightBytes 0), .call (eightBytes 0), go 0, go 0, go 0, go 1, go 1, go 1]
      (.start ⟨pool, rfl⟩) rfl
  have next : (system 0x5000).step s (go 1) = some s' := rfl
  exact ⟨s, s', eightBytes 0, reached, next, rfl,
    falls_back_while_resolving reached (by decide) rfl rfl next rfl⟩

end Results

end Kcom.Allocator.Resolve
