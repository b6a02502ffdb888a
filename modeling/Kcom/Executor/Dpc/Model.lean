import Kcom.Conc.System
import Kcom.Conc.Pool
import Kcom.Refcount
import Kcom.Executor.Clients
import Mathlib.Tactic.Simps.Basic

/-!
# A DPC task

One task of the DPC executor (`TaskHeader`, `Task`, `CancelHandle` and the spawn
functions of `src/executor.rs`) together with everything that acts on it: the
spawner, any number of wakers and handles, and any number of activations of
`dpc_routine` on any processors. Each atomic operation and each kernel call is
one step; between two steps of a thread any other thread may move.

A thread is the list of operations it has still to perform. An operation that
ends a branch of the source pushes the operations of the branch taken, so that
`schedule` is `loadCompleted`, then `casScheduled`, and so on. Local variables of
`dpc_routine` travel in the operations of its loop.

Wakers and handles that clients own are entries of `owners`. A call through a
shared reference (`clone`, `wake_by_ref`, `cancel`, ...) names the owner it
borrows, or the activation whose local waker the future was polled with; an owner
is consumed or dropped, and a poll returns, only when no such call is still
running. This is what Rust's borrows enforce. The future is opaque: while it is
polled it may make any of these calls, and it returns when the environment lets
it.

The fields under "history" record what has happened and are read by no
operation.
-/

namespace Kcom.Dpc

open Conc

/-- Values of `cancel_requested`: 0, 1 and 2. -/
inductive Cancel
  | idle
  | requested
  | acknowledged
  deriving DecidableEq, Repr

/-- `TASK_BUDGET_MODE`. -/
inductive BudgetMode
  | polls
  | timeUs
  deriving DecidableEq, Repr

/-- `TaskBudget`. -/
inductive TaskBudget
  | polls (n : Nat)
  | timeUs (us : Nat)
  deriving DecidableEq, Repr

/-- The spawn functions: `spawn_dpc_task_cancellable`,
`spawn_dpc_task_cancellable_tracked`, and `spawn_dpc_task_tracked`, which
`spawn_dpc_task` forwards to. -/
inductive Spawn
  | cancellable
  | cancellableTracked
  | tracked
  deriving DecidableEq, Repr

/-- Whether `allocate` gets a tracker. -/
def Spawn.hasTracker : Spawn → Bool
  | .cancellable => false
  | .cancellableTracked => true
  | .tracked => true

/-- Whether the function returns a `CancelHandle`. -/
def Spawn.hasHandle : Spawn → Bool
  | .cancellable => true
  | .cancellableTracked => true
  | .tracked => false

/-- The function a thread is executing. -/
inductive Call
  | spawn (form : Spawn)
  | setTaskBudget (budget : TaskBudget)
  | cancel (k : Nat)
  | isCancelled (k : Nat)
  | dropHandle (k : Nat)
  | cloneWaker (via : Source)
  | wake (k : Nat)
  | wakeByRef (via : Source)
  | dropWaker (k : Nat)
  | isCancellationRequested (j : Nat)
  | takeCancellationRequest (j : Nat)
  | dpcRoutine (cpu : Option Nat)
  deriving DecidableEq, Repr

/-- What a call borrows. -/
def Call.source : Call → Option Source
  | .cancel k => some (.owner k)
  | .isCancelled k => some (.owner k)
  | .cloneWaker via => some via
  | .wakeByRef via => some via
  | .isCancellationRequested j => some (.activation j)
  | .takeCancellationRequest j => some (.activation j)
  | _ => none

/-- Who holds a reference to the task block. `inserting` is a thread between
`add_ref` and the outcome of `KeInsertQueueDpc`, `refused` one whose insertion
returned FALSE and that has not yet released. -/
inductive Holder
  | spawner
  | handle
  | waker
  | activation
  | inserting
  | refused
  deriving DecidableEq, Repr

/-- Who queues the DPC. -/
inductive Inserter
  | schedule
  | queueDpc
  deriving DecidableEq, Repr

/-- The local variables of the poll loop. -/
structure Locals where
  cpu : Option Nat
  mode : BudgetMode
  pollBudget : Nat
  timeBudgetTicks : Nat
  timeStartTicks : Nat
  timeCheckCounter : Nat
  deriving DecidableEq, Repr

/-- The steps of `dpc_routine` once it has its waker, up to the end of its loop
or of the drop that follows `Ready`. -/
inductive Loop
  | setCurrent (cpu : Nat)
  | loadMode (cpu : Option Nat)
  | loadPolls (cpu : Option Nat) (mode : BudgetMode)
  | queryStart (cpu : Option Nat) (polls : Nat)
  | loadTimeUs (cpu : Option Nat) (polls freq start : Nat)
  | pollStart (l : Locals)
  | polling (l : Locals)
  | loadScheduled (l : Locals)
  | queryNow (l : Locals)
  | clearScheduled (l : Locals)
  | storeCompleted (cpu : Option Nat)
  | dropFuture (cpu : Option Nat)
  | dropping (cpu : Option Nat)
  deriving DecidableEq, Repr

/-- The steps of the `release` that has brought the count to 0. -/
inductive Last
  | loadCompleted
  | storeCompleted
  | dropFuture
  | dropping
  | dealloc
  deriving DecidableEq, Repr

/-- The steps of the executor. -/
inductive Op
  -- `Task::allocate` and the spawn functions
  | allocate (form : Spawn)
  | trackerBegin
  | newHandle
  | returnHandle
  -- `set_task_budget`
  | storeMode (mode : BudgetMode)
  | storePolls (n : Nat)
  | storeTimeUs (us : Nat)
  -- `schedule` and `queue_dpc`
  | loadCompleted
  | casScheduled
  | addRef (caller : Inserter)
  | insertQueueDpc (caller : Inserter)
  -- `release`
  | subRef (holder : Holder)
  | last (op : Last)
  | trackerComplete
  -- `cancel`, `is_cancelled` and the helpers for the running task
  | casCancel
  | loadCancel
  | loadCurrent (cpu : Nat) (take : Bool)
  | casAcknowledge
  -- `clone_raw`
  | cloneRaw
  -- `dpc_routine`
  | clearScheduled (cpu : Option Nat)
  | checkCompleted (cpu : Option Nat)
  | rawWaker (cpu : Option Nat)
  | loop (op : Loop)
  | clearCurrent (cpu : Nat)
  deriving DecidableEq, Repr

/-- What the environment decides in a step: whether an allocation fails, whether
a poll is `Ready`, what the performance counter reads. -/
inductive Choice
  | go
  | fail
  | ready
  | counter (freq : Int) (now : Nat)
  deriving DecidableEq, Repr

structure State where
  -- the header
  refCount : Nat
  scheduled : Bool
  completed : Bool
  cancelRequested : Cancel
  tracked : Bool
  /-- The DPC is in a processor's queue. -/
  queued : Bool
  -- statics of the executor
  budgetMode : BudgetMode
  budgetPolls : Nat
  budgetTimeUs : Nat
  /-- The processors whose entry of `CURRENT_TASKS` is this task. -/
  current : List Nat
  -- clients and threads
  owners : List (Option Owner)
  threads : List (Thread Call Op)
  -- history
  spawned : Bool
  allocated : Bool
  deallocs : Nat
  drops : Nat
  begins : Nat
  completes : Nat
  /-- A poll has returned `Ready`. -/
  ready : Bool
  /-- The future was polled after `Ready` or after a drop. -/
  latePoll : Bool
  /-- Since the start of the most recent poll a `schedule` has found the flag set
  or has executed `KeInsertQueueDpc`. -/
  decided : Bool
  /-- Since the start of the most recent poll a wake or a first cancel has
  returned. -/
  finished : Bool
  deriving DecidableEq, Repr

/-- Before the task is spawned. -/
def initial : State where
  refCount := 0
  scheduled := false
  completed := false
  cancelRequested := .idle
  tracked := false
  queued := false
  budgetMode := .polls
  budgetPolls := 64
  budgetTimeUs := 200
  current := []
  owners := []
  threads := []
  spawned := false
  allocated := false
  deallocs := 0
  drops := 0
  begins := 0
  completes := 0
  ready := false
  latePoll := false
  decided := false
  finished := false

/-- The end of `dpc_routine`: the entry of `CURRENT_TASKS` is cleared, the
activation's own reference is released, and the local waker is dropped last. -/
def exit : Option Nat → List Op
  | some cpu => [.clearCurrent cpu, .subRef .activation, .subRef .waker]
  | none => [.subRef .activation, .subRef .waker]

/-- The budget in ticks: `saturating_mul`, and a frequency of at least 1. -/
def budgetTicks (us freq : Nat) : Nat :=
  min (us * freq) (2 ^ 64 - 1) / 1000000

/-- `freq.QuadPart`, or 1 where it is not positive. -/
def frequency (freq : Int) : Nat :=
  if freq ≤ 0 then 1 else freq.toNat

/-- The branch of a poll that returned `Pending` and found `scheduled` set. -/
def afterWoken (l : Locals) : List Op :=
  match l.mode with
  | .polls =>
      if l.pollBudget = 0 then .addRef .queueDpc :: exit l.cpu
      else [.loop (.clearScheduled { l with pollBudget := l.pollBudget - 1 })]
  | .timeUs =>
      let counter := (l.timeCheckCounter + 1) % 2 ^ 32
      if counter % 8 = 0 then [.loop (.queryNow { l with timeCheckCounter := counter })]
      else [.loop (.clearScheduled { l with timeCheckCounter := counter })]

namespace State

/-- A call through `src` has not returned. -/
def borrowed (s : State) (src : Source) : Bool :=
  s.threads.any fun t => t.tag.source = some src && !t.code.isEmpty

/-- One operation of the activation that thread `i` executes. -/
def performLoop (s : State) (i : Nat) (c : Choice) : Loop → Option (State × List Op)
  | .setCurrent cpu =>
      some ({ s with current := cpu :: s.current.filter (· ≠ cpu) }, [.loop (.loadMode (some cpu))])
  | .loadMode cpu => some (s, [.loop (.loadPolls cpu s.budgetMode)])
  | .loadPolls cpu .polls =>
      some (s, [.loop (.pollStart ⟨cpu, .polls, s.budgetPolls, 0, 0, 0⟩)])
  | .loadPolls cpu .timeUs => some (s, [.loop (.queryStart cpu s.budgetPolls)])
  | .queryStart cpu polls =>
      match c with
      | .counter freq now =>
          some (s, [.loop (.loadTimeUs cpu polls (frequency freq) (now % 2 ^ 64))])
      | _ => none
  | .loadTimeUs cpu polls freq start =>
      some (s,
        [.loop (.pollStart ⟨cpu, .timeUs, polls, budgetTicks s.budgetTimeUs freq, start, 0⟩)])
  | .pollStart l =>
      some ({ s with
          latePoll := s.latePoll || s.ready || decide (0 < s.drops)
          decided := false
          finished := false }, [.loop (.polling l)])
  | .polling l =>
      if s.borrowed (.activation i) then none
      else if c = .ready then some ({ s with ready := true }, [.loop (.storeCompleted l.cpu)])
      else some (s, [.loop (.loadScheduled l)])
  | .loadScheduled l => some (s, if s.scheduled then afterWoken l else exit l.cpu)
  | .queryNow l =>
      match c with
      | .counter _ now =>
          let elapsed := (now % 2 ^ 64 + (2 ^ 64 - l.timeStartTicks)) % 2 ^ 64
          some (s,
            if elapsed ≥ l.timeBudgetTicks then .addRef .queueDpc :: exit l.cpu
            else [.loop (.clearScheduled l)])
      | _ => none
  | .clearScheduled l => some ({ s with scheduled := false }, [.loop (.pollStart l)])
  | .storeCompleted cpu => some ({ s with completed := true }, [.loop (.dropFuture cpu)])
  | .dropFuture cpu => some ({ s with drops := s.drops + 1 }, [.loop (.dropping cpu)])
  | .dropping cpu => some (s, exit cpu)

/-- One operation of the `release` that frees the block. -/
def performLast (s : State) : Last → State × List Op
  | .loadCompleted => (s, if s.completed then [.last .dealloc] else [.last .storeCompleted])
  | .storeCompleted => ({ s with completed := true }, [.last .dropFuture])
  | .dropFuture => ({ s with drops := s.drops + 1 }, [.last .dropping])
  | .dropping => (s, [.last .dealloc])
  | .dealloc =>
      ({ s with deallocs := s.deallocs + 1 }, if s.tracked then [.trackerComplete] else [])

/-- Perform one operation of thread `i`; the second component is what the thread
does next. -/
def perform (mode : Hardening) (s : State) (i : Nat) (c : Choice) : Op → Option (State × List Op)
  | .allocate form =>
      if c = .fail then some (s, [])
      else
        some ({ s with
            refCount := 1
            scheduled := false
            completed := false
            cancelRequested := .idle
            tracked := form.hasTracker
            allocated := true
            decided := false
            finished := false },
          (if form.hasTracker then [.trackerBegin] else []) ++
            if form.hasHandle then [.newHandle] else [.loadCompleted, .subRef .spawner])
  | .trackerBegin => some ({ s with begins := s.begins + 1 }, [])
  | .newHandle =>
      (Refcount.add mode s.refCount).map fun (_, count) =>
        ({ s with refCount := count }, [.loadCompleted, .subRef .spawner, .returnHandle])
  | .returnHandle => some ({ s with owners := s.owners ++ [some .handle] }, [])
  | .storeMode m => some ({ s with budgetMode := m }, [])
  | .storePolls n => some ({ s with budgetPolls := n }, [])
  | .storeTimeUs us => some ({ s with budgetTimeUs := us }, [])
  | .loadCompleted => some (s, if s.completed then [] else [.casScheduled])
  | .casScheduled =>
      if s.scheduled then some ({ s with decided := true }, [])
      else some ({ s with scheduled := true }, [.addRef .schedule])
  | .addRef caller =>
      (Refcount.add mode s.refCount).map fun (_, count) =>
        ({ s with refCount := count }, [.insertQueueDpc caller])
  | .insertQueueDpc caller =>
      let decided := s.decided || caller = .schedule
      if s.queued then some ({ s with decided := decided }, [.subRef .refused])
      else some ({ s with queued := true, decided := decided }, [])
  | .subRef _ =>
      (Refcount.sub mode s.refCount).map fun (result, count) =>
        ({ s with refCount := count }, if result = 0 then [.last .loadCompleted] else [])
  | .last op => some (s.performLast op)
  | .trackerComplete => some ({ s with completes := s.completes + 1 }, [])
  | .casCancel =>
      if s.cancelRequested = .idle then
        some ({ s with cancelRequested := .requested }, [.loadCompleted])
      else some (s, [])
  | .loadCancel => some (s, [])
  | .loadCurrent cpu take =>
      some (s,
        if cpu ∈ s.current then if take then [.casAcknowledge] else [.loadCancel] else [])
  | .casAcknowledge =>
      some (if s.cancelRequested = .requested then { s with cancelRequested := .acknowledged }
        else s, [])
  | .cloneRaw =>
      (Refcount.add mode s.refCount).map fun (_, count) =>
        ({ s with refCount := count, owners := s.owners ++ [some .waker] }, [])
  | .clearScheduled cpu => some ({ s with scheduled := false }, [.checkCompleted cpu])
  | .checkCompleted cpu =>
      some (s, if s.completed then [.subRef .activation] else [.rawWaker cpu])
  | .rawWaker cpu =>
      (Refcount.add mode s.refCount).map fun (_, count) =>
        ({ s with refCount := count },
          [.loop (match cpu with | some n => .setCurrent n | none => .loadMode none)])
  | .loop op => s.performLoop i c op
  | .clearCurrent cpu => some ({ s with current := s.current.filter (· ≠ cpu) }, [])

/-- A wake, or a cancel that won its `compare_exchange`, returns. -/
def finish (s : State) (f : Call) (op : Op) (code : List Op) : State :=
  if code = [] then
    match f with
    | .wake _ => { s with finished := true }
    | .wakeByRef _ => { s with finished := true }
    | .cancel _ => if op = .casCancel then s else { s with finished := true }
    | _ => s
  else s

/-- Thread `j` is an activation inside `vtable.poll`. -/
def pollingAt (s : State) (j : Nat) : Bool :=
  match s.threads[j]? with
  | some ⟨_, .loop (.polling _) :: _⟩ => true
  | _ => false

/-- A waker that a call may borrow. -/
def hasWaker (s : State) : Source → Bool
  | .owner k => s.owners[k]? = some (some .waker)
  | .activation j => s.pollingAt j

/-- Whether a client may make the call: it spawns the task once, borrows what is
there, and consumes what it owns and nobody borrows. -/
def callable (s : State) : Call → Bool
  | .spawn _ => !s.spawned
  | .setTaskBudget _ => true
  | .cancel k => s.owners[k]? = some (some .handle)
  | .isCancelled k => s.owners[k]? = some (some .handle)
  | .dropHandle k => s.owners[k]? = some (some .handle) && !s.borrowed (.owner k)
  | .cloneWaker via => s.hasWaker via
  | .wake k => s.owners[k]? = some (some .waker) && !s.borrowed (.owner k)
  | .wakeByRef via => s.hasWaker via
  | .dropWaker k => s.owners[k]? = some (some .waker) && !s.borrowed (.owner k)
  | .isCancellationRequested j => s.pollingAt j
  | .takeCancellationRequest j => s.pollingAt j
  | .dpcRoutine _ => false

/-- What a call takes from its caller. -/
def enter (s : State) : Call → State
  | .spawn _ => { s with spawned := true }
  | .dropHandle k => { s with owners := s.owners.set k none }
  | .wake k => { s with owners := s.owners.set k none }
  | .dropWaker k => { s with owners := s.owners.set k none }
  | _ => s

/-- The processor thread `j` runs its activation on. -/
def cpuOf (s : State) (j : Nat) : Option Nat :=
  match s.threads[j]? with
  | some ⟨.dpcRoutine cpu, _⟩ => cpu
  | _ => none

/-- What a call does first. -/
def code (s : State) : Call → List Op
  | .spawn form => [.allocate form]
  | .setTaskBudget (.polls n) => [.storePolls n, .storeMode .polls]
  | .setTaskBudget (.timeUs us) => [.storeTimeUs us, .storeMode .timeUs]
  | .cancel _ => [.casCancel]
  | .isCancelled _ => [.loadCancel]
  | .dropHandle _ => [.subRef .handle]
  | .cloneWaker _ => [.cloneRaw]
  | .wake _ => [.loadCompleted, .subRef .waker]
  | .wakeByRef _ => [.loadCompleted]
  | .dropWaker _ => [.subRef .waker]
  | .isCancellationRequested j => ((s.cpuOf j).map fun cpu => Op.loadCurrent cpu false).toList
  | .takeCancellationRequest j => ((s.cpuOf j).map fun cpu => Op.loadCurrent cpu true).toList
  | .dpcRoutine cpu => [.clearScheduled cpu]

/-- Thread `i` performs its next operation, a processor dequeues the DPC and
starts its routine, or a client makes a call. -/
inductive Label
  | run (i : Nat) (c : Choice)
  | dequeue (cpu : Option Nat)
  | call (f : Call)
  deriving DecidableEq, Repr

def step (mode : Hardening) (s : State) : Label → Option State
  | .run i c =>
      match s.threads[i]? with
      | some ⟨f, op :: rest⟩ =>
          (s.perform mode i c op).map fun (s', push) =>
            { s' with threads := s.threads.set i ⟨f, push ++ rest⟩ }.finish f op (push ++ rest)
      | _ => none
  | .dequeue cpu =>
      if s.queued then
        some { s with
          queued := false
          threads := s.threads ++ [⟨.dpcRoutine cpu, s.code (.dpcRoutine cpu)⟩] }
      else none
  | .call f =>
      if s.callable f then
        some { s.enter f with threads := s.threads ++ [⟨f, s.code f⟩] }
      else none

end State

/-! ## Inversion of the steps -/

namespace State

variable {mode : Hardening} {s s' : State} {i : Nat} {c : Choice} {cpu : Option Nat} {f : Call}

/-- The state after the shared part of a step, with the pool and the record of
returned calls brought up to date. -/
@[simps] def moved (s₁ : State) (threads : List (Thread Call Op)) (finished : Bool) : State :=
  { s₁ with threads := threads, finished := finished }

theorem finish_eq (s : State) (f : Call) (op : Op) (code : List Op) :
    ∃ finished, s.finish f op code = { s with finished := finished } := by
  unfold finish
  split
  · split
    · exact ⟨true, rfl⟩
    · exact ⟨true, rfl⟩
    · split
      · exact ⟨s.finished, rfl⟩
      · exact ⟨true, rfl⟩
    · exact ⟨s.finished, rfl⟩
  · exact ⟨s.finished, rfl⟩

/-- What the step of thread `i` does. -/
theorem step_run (h : s.step mode (.run i c) = some s') :
    ∃ f op rest s₁ push finished, s.threads[i]? = some ⟨f, op :: rest⟩ ∧
      s.perform mode i c op = some (s₁, push) ∧
      s' = s₁.moved (s.threads.set i ⟨f, push ++ rest⟩) finished := by
  simp only [step] at h
  split at h
  · obtain ⟨⟨s₁, push⟩, performed, rfl⟩ := Option.map_eq_some_iff.mp h
    obtain ⟨finished, returned⟩ := finish_eq _ _ _ _
    exact ⟨_, _, _, s₁, push, finished, ‹_›, performed, returned⟩
  · cases h

theorem step_dequeue (h : s.step mode (.dequeue cpu) = some s') :
    s.queued = true ∧ s' = { s with
      queued := false
      threads := s.threads ++ [⟨.dpcRoutine cpu, [.clearScheduled cpu]⟩] } := by
  simp only [step] at h
  split at h
  · exact ⟨‹_›, (Option.some.inj h).symm⟩
  · cases h

theorem step_call (h : s.step mode (.call f) = some s') :
    s.callable f = true ∧ s' = { s.enter f with threads := s.threads ++ [⟨f, s.code f⟩] } := by
  simp only [step] at h
  split at h
  · exact ⟨‹_›, (Option.some.inj h).symm⟩
  · cases h

end State

/-- The task and its environment, in one of the builds of the reference
counter. -/
def system (mode : Hardening) : Sys State State.Label where
  start s := s = initial
  step := State.step mode

/-- Thread `i` takes a step in which the environment decides nothing. -/
abbrev go (i : Nat) : State.Label :=
  .run i .go

/-- `spawn_dpc_task_tracked` as thread 0, and its DPC as thread 1 up to the call of
`vtable.poll`. -/
def firstPoll : List State.Label :=
  [.call (.spawn .tracked), go 0, go 0, go 0, go 0, go 0, go 0, go 0, .dequeue (some 0),
    go 1, go 1, go 1, go 1, go 1, go 1, go 1]

end Kcom.Dpc
