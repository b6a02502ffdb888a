import Kcom.Conc.System
import Kcom.Conc.Pool
import Kcom.Refcount

/-!
# A kernel timer

One `KernelTimerFuture` (`src/executor.rs`) from its creation on: the polls and the
drop of its owner, which exclude each other, the kernel's timer and DPC, and the
activations of `timer_dpc_routine`. Each access to `KernelTimerInner` and each
kernel call is one step.

The kernel is what its documentation says of it: a set timer is in the timer queue
until it expires or is cancelled, an expired timer queues its DPC in a later step,
a queued DPC is removed or starts the routine, and `KeCancelTimer` and
`KeRemoveQueueDpc` tell whether they found the timer or the DPC in its queue.
-/

namespace Kcom.Timer

open Conc

/-- What the owner of the future has to do next. A poll carries its waker along. -/
inductive Client
  | idle
  -- `poll`
  | loadFired (w : Nat)
  | lockWaker (w : Nat)
  | storeWaker (w : Nat)
  | unlockWaker (w : Nat)
  | casArmed (w : Nat)
  | addRef (w : Nat)
  | initializeTimer (w : Nat)
  | initializeDpc (w : Nat)
  | setTimer (w : Nat)
  -- `drop`; the flag says whether a second release follows the first
  | storeCancelled
  | cancelTimer
  | removeQueueDpc (cancelled : Bool)
  | release (second : Bool)
  | free (second : Bool)
  | releaseDpc
  | freeDpc
  | gone
  deriving DecidableEq, Repr

/-- What an activation of `timer_dpc_routine` has to do next. -/
inductive Routine
  | storeFired
  | loadCancelled
  | lockWaker
  | wake
  | unlockWaker
  | release
  | free
  | done
  deriving DecidableEq, Repr

/-- Where the `KTIMER` is; an expired timer has still to queue its DPC. -/
inductive TimerPhase
  | notQueued
  | queued
  | expired
  deriving DecidableEq, Repr

structure State where
  -- `KernelTimerInner`
  refCount : Nat
  fired : Bool
  armed : Bool
  cancelled : Bool
  timer : TimerPhase
  dpcQueued : Bool
  locked : Bool
  waker : Option Nat
  -- the owner and the processors
  client : Client
  routines : List Routine
  -- history
  /-- The waker of the most recent poll, if this poll has returned `Pending`. -/
  pending : Option Nat
  /-- The wakers woken since the slot was last stored to. -/
  woken : List Nat
  frees : Nat
  /-- Releases of the reference of the DPC. -/
  dropReleases : Nat
  routineReleases : Nat
  deriving DecidableEq, Repr

/-- `KernelTimerFuture::new`. -/
def initial : State where
  refCount := 1
  fired := false
  armed := false
  cancelled := false
  timer := .notQueued
  dpcQueued := false
  locked := false
  waker := none
  client := .idle
  routines := []
  pending := none
  woken := []
  frees := 0
  dropReleases := 0
  routineReleases := 0

inductive Label
  | poll (w : Nat)
  | drop
  /-- The next step of the poll or of the drop. -/
  | client
  /-- The timer leaves the timer queue. -/
  | expire
  /-- The expired timer queues its DPC. -/
  | queueDpc
  | dequeue
  /-- The next step of an activation. -/
  | routine (i : Nat)
  deriving DecidableEq, Repr

namespace State

variable (mode : Hardening) (s : State)

/-- `KernelTimerFuture::poll` and `drop`, one step. -/
def stepClient : Option State :=
  match s.client with
  | .idle => none
  | .loadFired w => some { s with client := if s.fired then .idle else .lockWaker w }
  | .lockWaker w =>
      if s.locked then none else some { s with locked := true, client := .storeWaker w }
  | .storeWaker w => some { s with waker := some w, woken := [], client := .unlockWaker w }
  | .unlockWaker w => some { s with locked := false, client := .casArmed w }
  | .casArmed w =>
      if s.armed then some { s with client := .idle, pending := some w }
      else some { s with armed := true, client := .addRef w }
  | .addRef w =>
      (Refcount.add mode s.refCount).map fun (_, refCount) =>
        { s with refCount, client := .initializeTimer w }
  | .initializeTimer w => some { s with timer := .notQueued, client := .initializeDpc w }
  | .initializeDpc w => some { s with dpcQueued := false, client := .setTimer w }
  | .setTimer w => some { s with timer := .queued, client := .idle, pending := some w }
  | .storeCancelled => some { s with cancelled := true, client := .cancelTimer }
  | .cancelTimer =>
      if s.timer = .queued then
        some { s with timer := .notQueued, client := .removeQueueDpc true }
      else some { s with client := .removeQueueDpc false }
  | .removeQueueDpc cancelled =>
      some { s with dpcQueued := false, client := .release (cancelled || s.dpcQueued) }
  | .release second =>
      (Refcount.sub mode s.refCount).map fun (count, refCount) =>
        { s with
          refCount
          client := if count = 0 then .free second else if second then .releaseDpc else .gone }
  | .free second =>
      some { s with frees := s.frees + 1, client := if second then .releaseDpc else .gone }
  | .releaseDpc =>
      (Refcount.sub mode s.refCount).map fun (count, refCount) =>
        { s with
          refCount
          dropReleases := s.dropReleases + 1
          client := if count = 0 then .freeDpc else .gone }
  | .freeDpc => some { s with frees := s.frees + 1, client := .gone }
  | .gone => none

/-- `timer_dpc_routine`, one step of the activation `i`. -/
def stepRoutine (i : Nat) : Routine → Option State
  | .storeFired => some { s with fired := true, routines := s.routines.set i .loadCancelled }
  | .loadCancelled =>
      some { s with routines := s.routines.set i (if s.cancelled then .release else .lockWaker) }
  | .lockWaker =>
      if s.locked then none
      else some { s with locked := true, routines := s.routines.set i .wake }
  | .wake =>
      some { s with
        woken := s.waker.toList ++ s.woken
        routines := s.routines.set i .unlockWaker }
  | .unlockWaker => some { s with locked := false, routines := s.routines.set i .release }
  | .release =>
      (Refcount.sub mode s.refCount).map fun (count, refCount) =>
        { s with
          refCount
          routineReleases := s.routineReleases + 1
          routines := s.routines.set i (if count = 0 then .free else .done) }
  | .free => some { s with frees := s.frees + 1, routines := s.routines.set i .done }
  | .done => none

def step : Label → Option State
  | .poll w =>
      if s.client = .idle then some { s with client := .loadFired w, pending := none } else none
  | .drop => if s.client = .idle then some { s with client := .storeCancelled } else none
  | .client => s.stepClient mode
  | .expire => if s.timer = .queued then some { s with timer := .expired } else none
  | .queueDpc =>
      if s.timer = .expired then some { s with timer := .notQueued, dpcQueued := true } else none
  | .dequeue =>
      if s.dpcQueued then
        some { s with dpcQueued := false, routines := s.routines ++ [.storeFired] }
      else none
  | .routine i => s.routines[i]?.bind (s.stepRoutine mode i)

end State

/-- The runs of a kernel timer. -/
def system (mode : Hardening) : Sys State Label where
  start s := s = initial
  step s a := s.step mode a

end Kcom.Timer
