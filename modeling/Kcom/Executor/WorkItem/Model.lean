import Kcom.Conc.System
import Kcom.Conc.Pool
import Kcom.Refcount
import Kcom.Executor.Clients
import Mathlib.Tactic.Simps.Basic

/-!
# A work-item task

One `WorkItemTask` of the PASSIVE_LEVEL executor (`src/executor.rs`): its spawn
functions, `schedule`, `cancel`, `run`, its wakers and handles, and the backend's
work items. As for a DPC task each atomic operation and each backend call is one
step, a thread is the list of operations it has still to perform, and calls
through shared references name what they borrow.

Work items are numbered in the order of their creation. An item is created,
enqueued, and its callback starts once, on any worker thread; deleting it is
counted and forbidden by nothing here. `Driver` selects between the two backends:
under KMDF the callback knows its own work item and passes it to `run` as the
fallback, under WDM the fallback is null; only WDM has trackers and counts
references to its device.
-/

namespace Kcom.WorkItem

open Conc

/-- `driver_model__driver_type`. -/
inductive Driver
  | wdm
  | kmdf
  deriving DecidableEq, Repr

/-- The spawn functions: `spawn_task`, `spawn_task_tracked`,
`spawn_task_cancellable` and `spawn_task_cancellable_tracked`. -/
inductive Spawn
  | plain
  | tracked
  | cancellable
  | cancellableTracked
  deriving DecidableEq, Repr

def Spawn.hasTracker : Spawn → Bool
  | .plain => false
  | .tracked => true
  | .cancellable => false
  | .cancellableTracked => true

def Spawn.hasHandle : Spawn → Bool
  | .plain => false
  | .tracked => false
  | .cancellable => true
  | .cancellableTracked => true

/-- The tracked functions exist under WDM only. -/
def Driver.offers : Driver → Spawn → Bool
  | .wdm, _ => true
  | .kmdf, form => !form.hasTracker

/-- The function a thread is executing. -/
inductive Call
  | spawn (form : Spawn)
  | cancel (k : Nat)
  | isCancelled (k : Nat)
  | cloneHandle (k : Nat)
  | dropHandle (k : Nat)
  | cloneWaker (via : Source)
  | wake (k : Nat)
  | wakeByRef (via : Source)
  | dropWaker (k : Nat)
  | callback (id : Nat)
  deriving DecidableEq, Repr

/-- What a call borrows. -/
def Call.source : Call → Option Source
  | .cancel k => some (.owner k)
  | .isCancelled k => some (.owner k)
  | .cloneHandle k => some (.owner k)
  | .cloneWaker via => some via
  | .wakeByRef via => some via
  | _ => none

/-- Who gives a reference back. -/
inductive Holder
  | spawner
  | handle
  | waker
  | callback
  deriving DecidableEq, Repr

/-- The steps of `schedule` that are about the work item it has created. -/
inductive Submit
  | storeWorkItem
  | addRef
  | enqueue
  deriving DecidableEq, Repr

/-- The steps of `run` up to the one that takes the work item out of its slot. The
flag says whether the local waker is still to be dropped. -/
inductive Run
  | clearScheduled
  | checkCompleted
  | loadCancel
  | rawWaker
  | pollStart
  | polling
  | storeCompleted (waker : Bool)
  | dropFuture (waker : Bool)
  | dropping (waker : Bool)
  | swapWorkItem
  deriving DecidableEq, Repr

/-- The steps of the executor. -/
inductive Op
  -- the spawn functions
  | checkContext (form : Spawn)
  | allocate (form : Spawn)
  | setContext (form : Spawn)
  | newHandle
  | endSpawn
  -- `schedule`
  | loadCompleted
  | casScheduled
  | trackerBegin
  | contextIsValid
  | createWorkItem
  | submit (id : Nat) (op : Submit)
  | abandon
  | trackerComplete
  -- `release`
  | subRef (holder : Holder)
  | free
  | releaseContext
  -- `cancel`, `is_cancelled` and the clones
  | casCancel
  | loadCancelled
  | addHandle
  | cloneRaw
  -- `run`
  | run (id : Nat) (op : Run)
  | deleteWorkItem (id : Nat)
  deriving DecidableEq, Repr

/-- What the environment decides in a step: whether a check or an allocation of
the backend fails, whether a poll is `Ready`. -/
inductive Choice
  | go
  | fail
  | ready
  deriving DecidableEq, Repr

/-- Where a work item is in its life. -/
inductive Phase
  | created
  | queued
  | started
  deriving DecidableEq, Repr

structure Item where
  phase : Phase
  /-- How often it was passed to `delete_work_item`. -/
  deletes : Nat
  deriving DecidableEq, Repr

structure State where
  -- the task
  refCount : Nat
  scheduled : Bool
  completed : Bool
  cancelRequested : Bool
  contextValid : Bool
  tracked : Bool
  /-- The `work_item` slot. -/
  workItem : Option Nat
  -- the backend
  items : List Item
  -- clients and threads
  owners : List (Option Owner)
  threads : List (Thread Call Op)
  /-- What `schedule` returned to the spawn function was an error. -/
  spawnFailed : Bool
  -- history
  spawned : Bool
  allocated : Bool
  frees : Nat
  drops : Nat
  begins : Nat
  completes : Nat
  retains : Nat
  releases : Nat
  /-- A poll has returned `Ready`. -/
  ready : Bool
  /-- The future was polled after `Ready` or after a drop. -/
  latePoll : Bool
  /-- Some work item was deleted while it was queued. -/
  deletedQueued : Bool
  deriving DecidableEq, Repr

/-- Before the task is spawned. -/
def initial : State where
  refCount := 0
  scheduled := false
  completed := false
  cancelRequested := false
  contextValid := false
  tracked := false
  workItem := none
  items := []
  owners := []
  threads := []
  spawnFailed := false
  spawned := false
  allocated := false
  frees := 0
  drops := 0
  begins := 0
  completes := 0
  retains := 0
  releases := 0
  ready := false
  latePoll := false
  deletedQueued := false

namespace State

/-- A call through `src` has not returned. -/
def borrowed (s : State) (src : Source) : Bool :=
  s.threads.any fun t => t.tag.source = some src && !t.code.isEmpty

/-- `tracker_complete`. -/
def complete (s : State) : List Op :=
  if s.tracked then [.trackerComplete] else []

/-- The end of `run` before the work item is taken out of its slot. -/
def afterPoll (id : Nat) (waker : Bool) : List Op :=
  if waker then [.subRef .waker, .run id .swapWorkItem] else [.run id .swapWorkItem]

/-- The work item that `run` deletes: the one in the slot, or the fallback. -/
def chosen (driver : Driver) (s : State) (id : Nat) : Option Nat :=
  match s.workItem with
  | some k => some k
  | none =>
      match driver with
      | .wdm => none
      | .kmdf => some id

/-- The steps of `schedule` with the work item `id`. -/
def performSubmit (mode : Hardening) (s : State) (id : Nat) : Submit → Option (State × List Op)
  | .storeWorkItem => some ({ s with workItem := some id }, [.submit id .addRef])
  | .addRef =>
      (Refcount.add mode s.refCount).map fun (_, count) =>
        ({ s with refCount := count }, [.submit id .enqueue])
  | .enqueue =>
      some ({ s with items := s.items.modify id fun item => { item with phase := .queued } }, [])

/-- The steps of the callback that thread `i` executes for the work item `id`. -/
def performRun (driver : Driver) (mode : Hardening) (s : State) (i : Nat) (c : Choice) (id : Nat) :
    Run → Option (State × List Op)
  | .clearScheduled => some ({ s with scheduled := false }, [.run id .checkCompleted])
  | .checkCompleted =>
      some (s,
        if s.completed then s.complete ++ [.subRef .callback] else [.run id .loadCancel])
  | .loadCancel =>
      some (s,
        if s.cancelRequested then [.run id (.storeCompleted false)] else [.run id .rawWaker])
  | .rawWaker =>
      (Refcount.add mode s.refCount).map fun (_, count) =>
        ({ s with refCount := count }, [.run id .pollStart])
  | .pollStart =>
      some ({ s with latePoll := s.latePoll || s.ready || decide (0 < s.drops) },
        [.run id .polling])
  | .polling =>
      if s.borrowed (.activation i) then none
      else if c = .ready then some ({ s with ready := true }, [.run id (.storeCompleted true)])
      else some (s, afterPoll id true)
  | .storeCompleted waker => some ({ s with completed := true }, [.run id (.dropFuture waker)])
  | .dropFuture waker => some ({ s with drops := s.drops + 1 }, [.run id (.dropping waker)])
  | .dropping waker => some (s, afterPoll id waker)
  | .swapWorkItem =>
      some ({ s with workItem := none },
        (match s.chosen driver id with
          | some k => [.deleteWorkItem k]
          | none => []) ++ s.complete ++ [.subRef .callback])

/-- Perform one operation of thread `i`, which executes `f`; the second component is
what the thread does next. -/
def perform (driver : Driver) (mode : Hardening) (s : State) (i : Nat) (f : Call) (c : Choice) :
    Op → Option (State × List Op)
  | .checkContext form => some (s, if c = .fail then [] else [.allocate form])
  | .allocate form =>
      if c = .fail then some (s, [])
      else
        -- the other fields of the new block are as in `initial`
        some ({ s with refCount := 1, allocated := true }, [.setContext form])
  | .setContext form =>
      some ({ s with
          retains := s.retains + 1
          contextValid := true
          tracked := form.hasTracker },
        if form.hasHandle then [.newHandle] else [.loadCompleted, .subRef .spawner])
  | .newHandle =>
      (Refcount.add mode s.refCount).map fun (_, count) =>
        ({ s with refCount := count }, [.loadCompleted, .subRef .spawner, .endSpawn])
  | .endSpawn =>
      if s.spawnFailed then some (s, [.subRef .handle])
      else some ({ s with owners := s.owners ++ [some .handle] }, [])
  | .loadCompleted => some (s, if s.completed then [] else [.casScheduled])
  | .casScheduled =>
      if s.scheduled then some (s, [])
      else
        some ({ s with scheduled := true },
          (if s.tracked then [.trackerBegin] else []) ++ [.contextIsValid])
  | .trackerBegin => some ({ s with begins := s.begins + 1 }, [])
  | .contextIsValid => some (s, if s.contextValid then [.createWorkItem] else [.abandon])
  | .createWorkItem =>
      if c = .fail then some (s, [.abandon])
      else
        some ({ s with items := s.items ++ [⟨.created, 0⟩] },
          [.submit s.items.length .storeWorkItem])
  | .submit id op => s.performSubmit mode id op
  | .abandon =>
      some ({ s with
          scheduled := false
          spawnFailed := match f with | .spawn _ => true | _ => s.spawnFailed },
        s.complete)
  | .trackerComplete => some ({ s with completes := s.completes + 1 }, [])
  | .subRef _ =>
      (Refcount.sub mode s.refCount).map fun (result, count) =>
        ({ s with refCount := count }, if result = 0 then [.free] else [])
  | .free =>
      some ({ s with frees := s.frees + 1 }, if s.contextValid then [.releaseContext] else [])
  | .releaseContext => some ({ s with releases := s.releases + 1 }, [])
  | .casCancel =>
      if s.cancelRequested then some (s, [])
      else some ({ s with cancelRequested := true }, [.loadCompleted])
  | .loadCancelled => some (s, [])
  | .addHandle =>
      (Refcount.add mode s.refCount).map fun (_, count) =>
        ({ s with refCount := count, owners := s.owners ++ [some .handle] }, [])
  | .cloneRaw =>
      (Refcount.add mode s.refCount).map fun (_, count) =>
        ({ s with refCount := count, owners := s.owners ++ [some .waker] }, [])
  | .run id op => s.performRun driver mode i c id op
  | .deleteWorkItem id =>
      some ({ s with
          items := s.items.modify id fun item => { item with deletes := item.deletes + 1 }
          deletedQueued := s.deletedQueued ||
            (s.items[id]?).any fun item => item.phase = .queued }, [])

/-- Thread `j` is a callback inside the future's `poll`. -/
def pollingAt (s : State) (j : Nat) : Bool :=
  match s.threads[j]? with
  | some ⟨_, .run _ .polling :: _⟩ => true
  | _ => false

/-- A waker that a call may borrow. -/
def hasWaker (s : State) : Source → Bool
  | .owner k => s.owners[k]? = some (some .waker)
  | .activation j => s.pollingAt j

/-- Whether a client may make the call: it spawns the task once, borrows what is
there, and consumes what it owns and nobody borrows. -/
def callable (driver : Driver) (s : State) : Call → Bool
  | .spawn form => !s.spawned && driver.offers form
  | .cancel k => s.owners[k]? = some (some .handle)
  | .isCancelled k => s.owners[k]? = some (some .handle)
  | .cloneHandle k => s.owners[k]? = some (some .handle)
  | .dropHandle k => s.owners[k]? = some (some .handle) && !s.borrowed (.owner k)
  | .cloneWaker via => s.hasWaker via
  | .wake k => s.owners[k]? = some (some .waker) && !s.borrowed (.owner k)
  | .wakeByRef via => s.hasWaker via
  | .dropWaker k => s.owners[k]? = some (some .waker) && !s.borrowed (.owner k)
  | .callback _ => false

/-- What a call takes from its caller. -/
def enter (s : State) : Call → State
  | .spawn _ => { s with spawned := true }
  | .dropHandle k => { s with owners := s.owners.set k none }
  | .wake k => { s with owners := s.owners.set k none }
  | .dropWaker k => { s with owners := s.owners.set k none }
  | _ => s

end State

/-- What a call does first. -/
def Call.code : Call → List Op
  | .spawn form => [.checkContext form]
  | .cancel _ => [.casCancel]
  | .isCancelled _ => [.loadCancelled]
  | .cloneHandle _ => [.addHandle]
  | .dropHandle _ => [.subRef .handle]
  | .cloneWaker _ => [.cloneRaw]
  | .wake _ => [.loadCompleted, .subRef .waker]
  | .wakeByRef _ => [.loadCompleted]
  | .dropWaker _ => [.subRef .waker]
  | .callback id => [.run id .clearScheduled]

namespace State

/-- Thread `i` performs its next operation, the backend starts the callback of a
queued work item, or a client makes a call. -/
inductive Label
  | run (i : Nat) (c : Choice)
  | start (id : Nat)
  | call (f : Call)
  deriving DecidableEq, Repr

/-- The state after the shared part of a step, with the pool brought up to date. -/
@[simps] def moved (s₁ : State) (threads : List (Thread Call Op)) : State :=
  { s₁ with threads := threads }

def step (driver : Driver) (mode : Hardening) (s : State) : Label → Option State
  | .run i c =>
      match s.threads[i]? with
      | some ⟨f, op :: rest⟩ =>
          (s.perform driver mode i f c op).map fun (s', push) =>
            s'.moved (s.threads.set i ⟨f, push ++ rest⟩)
      | _ => none
  | .start id =>
      if (s.items[id]?).any fun item => item.phase = .queued then
        some { s with
          items := s.items.modify id fun item => { item with phase := .started }
          threads := s.threads ++ [⟨.callback id, [.run id .clearScheduled]⟩] }
      else none
  | .call f =>
      if s.callable driver f then
        some { s.enter f with threads := s.threads ++ [⟨f, f.code⟩] }
      else none

/-! ## Inversion of the steps -/

variable {driver : Driver} {mode : Hardening} {s s' : State} {i : Nat} {c : Choice} {id : Nat}
  {f : Call}

/-- What the step of thread `i` does. -/
theorem step_run (h : s.step driver mode (.run i c) = some s') :
    ∃ f op rest s₁ push, s.threads[i]? = some ⟨f, op :: rest⟩ ∧
      s.perform driver mode i f c op = some (s₁, push) ∧
      s' = s₁.moved (s.threads.set i ⟨f, push ++ rest⟩) := by
  simp only [step] at h
  split at h
  · obtain ⟨⟨s₁, push⟩, performed, rfl⟩ := Option.map_eq_some_iff.mp h
    exact ⟨_, _, _, s₁, push, ‹_›, performed, rfl⟩
  · cases h

theorem step_start (h : s.step driver mode (.start id) = some s') :
    ∃ item, s.items[id]? = some item ∧ item.phase = .queued ∧ s' = { s with
      items := s.items.modify id fun item => { item with phase := .started }
      threads := s.threads ++ [⟨.callback id, [.run id .clearScheduled]⟩] } := by
  simp only [step] at h
  split at h
  · rename_i queued
    cases here : s.items[id]? with
    | none =>
        rw [here] at queued
        cases queued
    | some item =>
        rw [here] at queued
        exact ⟨item, rfl, of_decide_eq_true queued, (Option.some.inj h).symm⟩
  · cases h

theorem step_call (h : s.step driver mode (.call f) = some s') :
    s.callable driver f = true ∧
      s' = { s.enter f with threads := s.threads ++ [⟨f, f.code⟩] } := by
  simp only [step] at h
  split at h
  · exact ⟨‹_›, (Option.some.inj h).symm⟩
  · cases h

end State

/-- The task and its environment, under one driver model and in one of the builds
of the reference counter. -/
def system (driver : Driver) (mode : Hardening) : Sys State State.Label where
  start s := s = initial
  step := State.step driver mode

end Kcom.WorkItem
