import Kcom.Async.Operation
import Kcom.Async.Method.Task
import Kcom.Macros.Declare

/-!
# The shim of an async method

The generated shim counts the called object up before it asks the method for its
initialiser, and the reference is given back in one of four places: on the two error
paths of the shim, or by the guard in the block that it spawns, on completion or when
the block is dropped. `async_shim_balances` follows a call through every combination
of failures and, where a task was spawned, through every run of the task.
-/

namespace Kcom.Async.Method

open Com (NtStatus)
open Conc
open Macros (Wrapper)

def statusInsufficientResources : NtStatus := 0xC000009A - 2 ^ 32

/-! ## The initialiser -/

inductive InitOutcome
  | pinned
  | allocFailed
  | initFailed (err : NtStatus)
  deriving DecidableEq, Repr

inductive KBoxError
  | alloc (status : NtStatus)
  | init (err : NtStatus)
  deriving DecidableEq, Repr

def KBoxError.intoStatus : KBoxError → NtStatus
  | .alloc status => status
  | .init err => err

/-- `KBox::try_pin_init`. -/
def tryPinInit : InitOutcome → List Event × Except KBoxError Unit
  | .pinned => ([.alloc], .ok ())
  | .allocFailed => ([], .error (.alloc statusInsufficientResources))
  | .initFailed err => ([.alloc, .dealloc], .error (.init err))

/-! ## Spawning -/

/-- What the environment decides in a call: the initialiser, whether `ComObject::new`
gets memory for the operation, and whether the executor takes the task. -/
structure Outcomes where
  init : InitOutcome
  operation : Bool
  spawn : Except NtStatus Unit

/-- `spawn_error_raw`. -/
def spawnErrorRaw (out : Outcomes) (status : NtStatus) : List Event × Except NtStatus Origin :=
  if out.operation then ([.operationNew], .ok (.error status))
  else ([], .error statusInsufficientResources)

section

variable (T : Type) (object : Nat) (out : Outcomes)

/-- `spawn_raw_cancellable`. On an error the future that was passed is dropped. -/
def spawnRawCancellable : List Event × Except NtStatus (Origin × Task) :=
  if out.operation then
    match out.spawn with
    | .ok () => ([.operationNew, .operationAddRef], .ok (.spawned, .spawned true))
    | .error status =>
        (.operationNew :: .operationAddRef ::
          (TaskBlock.unresumed .unresumed).drop object T ++ [.operationRelease, .operationRelease],
          .error status)
  else ((ShimBlock.fut object T).drop .unresumed, .error statusInsufficientResources)

/-- `spawn_raw`, which drops the handle. -/
def spawnRaw : List Event × Except NtStatus (Origin × Task) :=
  match spawnRawCancellable T object out with
  | (events, .ok (origin, task)) => (events, .ok (origin, { task with handle := false }))
  | (events, .error status) => (events, .error status)

/-! ## The shim -/

/-- A call that has returned: what it did, the operation it returned, if the pointer
is not null, and the task it spawned. -/
structure ShimCall where
  trace : List Event
  returned : Option Origin
  task : Option Task

/-- The body of both shims, on the pointer that `shim_add_ref` and `shim_release` are
called with. -/
def asyncShim : ShimCall :=
  match tryPinInit out.init with
  | (events, .error err) =>
      let (events', op) := spawnErrorRaw out err.intoStatus
      ⟨.addRef object :: events ++ .release object :: events', op.toOption, none⟩
  | (events, .ok ()) =>
      match spawnRaw T object out with
      | (events', .ok (origin, task)) =>
          ⟨.addRef object :: events ++ events', some origin, some task⟩
      | (events', .error _) =>
          ⟨.addRef object :: events ++ events' ++ [.release object], none, none⟩

/-- The object that is called: `this` of a `ComObject`, the parent of the entry of a
`ComObjectN`. -/
def calledObject (w : Wrapper) (tgt : Com.Target) (h : Com.Heap) (this : Nat) : Option Nat :=
  match w with
  | .comObject => some this
  | .comObjectN => Com.parentFromPtr tgt this h

/-- `shim_I_m` and `shim_I_m_secondary`. -/
def callAsyncShim (w : Wrapper) (tgt : Com.Target) (h : Com.Heap) (this : Nat) : Option ShimCall :=
  if this = 0 then some ⟨[], none, none⟩
  else do
    let object ← calledObject w tgt h this
    some (asyncShim T object out)

end

/-! ## References -/

/-- The operation returned is in status `Error` with this code, unless there was no memory
for it. -/
def ReturnsError (T : Type) (out : Outcomes) (c : ShimCall) (status : NtStatus) : Prop :=
  out.operation = true → ∃ op, c.returned = some op ∧
    (op.state : State T).memory.loadStatus = .error ∧ (op.state : State T).memory.error = status

/-- What a call does to the references of the called object. -/
structure Balanced (T : Type) (object : Nat) (out : Outcomes) (c : ShimCall) : Prop where
  /-- One reference is added, to this object. -/
  adds : ∀ other, c.trace.count (.addRef other) = if other = object then 1 else 0
  /-- Without a task the reference is back when the shim returns. -/
  unspawned : c.task = none → ∀ other,
    c.trace.count (.release other) = if other = object then 1 else 0
  /-- With a task it is back when the task's future has been dropped, if that was
  polled at all, and never twice. -/
  spawned : ∀ task, c.task = some task → ∀ (actions : List (TaskAction T)) (s : Task),
    (taskSystem T object).exec task actions = some s → ∀ other,
      (c.trace ++ s.trace).count (.addRef other) = (if other = object then 1 else 0) ∧
      (c.trace ++ s.trace).count (.release other) ≤ (if other = object then 1 else 0) ∧
      ((∃ answer, TaskAction.poll answer ∈ actions) → s.block = none →
        (c.trace ++ s.trace).count (.release other) = if other = object then 1 else 0)
  /-- A failed initialiser leaves no memory, and its status is that of the operation
  returned. -/
  failed : ∀ events err, tryPinInit out.init = (events, .error err) →
    c.task = none ∧ c.trace.count .alloc = c.trace.count .dealloc ∧
      ReturnsError T out c err.intoStatus
  allocFailed : out.init = .allocFailed → ReturnsError T out c statusInsufficientResources
  initFailed : ∀ err, out.init = .initFailed err → ReturnsError T out c err
  null : c.returned = none → out.operation = false ∨ ∃ status, out.spawn = .error status

/-! ## Runs of the task -/

def TaskAction.isPoll {T : Type} : TaskAction T → Bool
  | .poll _ => true
  | _ => false

/-- The releases of the called object so far. A task that is dropped without a poll
has not made the guard. -/
def Stage.releases (polled : Bool) : Stage → Nat
  | .fresh => 0
  | .pending => 0
  | .returned => 1
  | .dropped => polled.toNat

/-- A stage is left by the first poll, or reached by it. -/
def Stage.fits (polled : Bool) : Stage → Prop
  | .fresh => polled = false
  | .pending => polled = true
  | .returned => polled = true
  | .dropped => True

/-- A task without a handle, which nobody can cancel. -/
structure Tracked (object : Nat) (stage : Stage) (polled : Bool) (s : Task) : Prop where
  here : s.block = stage.block
  handle : s.handle = false
  quiet : s.requested = 0
  fits : stage.fits polled
  adds : ∀ other, s.trace.count (.addRef other) = 0
  releases : ∀ other,
    s.trace.count (.release other) = if other = object then stage.releases polled else 0

section Runs

variable {T : Type} {object : Nat} {stage stage' : Stage} {polled : Bool} {s s' : Task}
  {a : TaskAction T} {events : List Event}

theorem count_addRef_of_moves {r : Nat} (moves : Moves object stage r a stage' events)
    (other : Nat) : events.count (.addRef other) = 0 := by
  cases moves with
  | cancel => rfl
  | dropHandle => rfl
  | pending => rfl
  | ready => simp [finish, dropBox]
  | taken => cases stage <;> simp [Stage.abandon, dropBox]
  | drop => cases stage <;> simp [Stage.abandon, Stage.guardOperation, dropBox]

/-- Of the events of one kind, one for each object, those for one object. -/
theorem count_cons_of_kind {kind : Nat → Event} (inj : Function.Injective kind)
    (object other : Nat) (rest : List Event) :
    (kind object :: rest).count (kind other) =
      rest.count (kind other) + if other = object then 1 else 0 := by
  by_cases same : other = object
  · subst same
    simp
  · have apart : kind object ≠ kind other := fun eq => same (inj eq).symm
    simp [same, List.count_cons_of_ne apart]

@[simp] theorem count_release_self (object other : Nat) (rest : List Event) :
    (Event.release object :: rest).count (.release other) =
      rest.count (.release other) + if other = object then 1 else 0 :=
  count_cons_of_kind (fun _ _ => Event.release.inj) object other rest

@[simp] theorem count_addRef_self (object other : Nat) (rest : List Event) :
    (Event.addRef object :: rest).count (.addRef other) =
      rest.count (.addRef other) + if other = object then 1 else 0 :=
  count_cons_of_kind (fun _ _ => Event.addRef.inj) object other rest

/-- What a step adds to the releases. -/
theorem releases_of_moves (moves : Moves object stage 0 a stage' events)
    (fits : stage.fits polled) (other : Nat) :
    stage'.fits (polled || a.isPoll) ∧
      (if other = object then stage.releases polled else 0) + events.count (.release other) =
        if other = object then stage'.releases (polled || a.isPoll) else 0 := by
  cases moves with
  | cancel => simp [TaskAction.isPoll, fits]
  | dropHandle => simp [TaskAction.isPoll, fits]
  | pending live quiet =>
      cases stage <;> simp [TaskAction.isPoll, Stage.fits, Stage.releases] <;> cases live
  | ready live quiet =>
      have before : stage.releases polled = 0 := by
        cases stage <;> first | rfl | cases live
      rw [before]
      simp [TaskAction.isPoll, Stage.fits, Stage.releases, finish, dropBox]
  | drop here =>
      cases stage with
      | fresh =>
          have unpolled : polled = false := fits
          simp [TaskAction.isPoll, Stage.fits, Stage.releases, Stage.abandon, Stage.guardOperation,
            dropBox, unpolled]
      | pending =>
          have once : polled = true := fits
          simp [TaskAction.isPoll, Stage.fits, Stage.releases, Stage.abandon, Stage.guardOperation,
            dropBox, once]
      | returned =>
          have once : polled = true := fits
          simp [TaskAction.isPoll, Stage.fits, Stage.releases, Stage.abandon, Stage.guardOperation,
            once]
      | dropped => exact absurd rfl here

theorem Tracked.step (tracked : Tracked object stage polled s)
    (next : s.step object a = some s') :
    ∃ stage', Tracked object stage' (polled || a.isPoll) s' := by
  obtain ⟨stage', events, moves, here, trace, alone⟩ := moves_of_step tracked.here next
  rw [tracked.quiet] at moves
  obtain ⟨handle, quiet⟩ := alone tracked.handle (by rw [tracked.quiet]; decide)
  have step := releases_of_moves moves tracked.fits
  refine ⟨stage', here, handle, quiet.trans tracked.quiet, (step 0).1, ?_, ?_⟩
  · intro other
    rw [trace, List.count_append, tracked.adds, count_addRef_of_moves moves]
  · intro other
    rw [trace, List.count_append, tracked.releases, (step other).2]

theorem Tracked.run {actions : List (TaskAction T)} (tracked : Tracked object stage polled s)
    (run : (taskSystem T object).exec s actions = some s') :
    ∃ stage', Tracked object stage' (polled || actions.any TaskAction.isPoll) s' := by
  induction actions generalizing s stage polled with
  | nil =>
      cases run
      exact ⟨stage, by simpa using tracked⟩
  | cons a rest ih =>
      obtain ⟨mid, next, rest⟩ := Option.bind_eq_some_iff.mp run
      obtain ⟨stage', tracked'⟩ := tracked.step next
      obtain ⟨stage'', tracked''⟩ := ih tracked' rest
      exact ⟨stage'', by simpa [Bool.or_assoc] using tracked''⟩

theorem tracked_spawned : Tracked object .fresh false (.spawned false) where
  here := rfl
  handle := rfl
  quiet := rfl
  fits := rfl
  adds _ := rfl
  releases other := by split <;> rfl

end Runs

/-! ## Calls -/

section Calls

variable {T : Type} {object : Nat} {out : Outcomes}

/-- How a call can go. -/
theorem Outcomes.cases (out : Outcomes) :
    (∃ events err, tryPinInit out.init = (events, .error err)) ∨
      out.init = .pinned ∧ (out.operation = false ∨
        out.operation = true ∧ (out.spawn = .ok () ∨ ∃ status, out.spawn = .error status)) := by
  obtain ⟨init, operation, spawn⟩ := out
  cases init with
  | pinned =>
      right
      refine ⟨rfl, ?_⟩
      cases operation with
      | false => exact .inl rfl
      | true =>
          right
          refine ⟨rfl, ?_⟩
          cases spawn with
          | ok _ => exact .inl rfl
          | error status => exact .inr ⟨status, rfl⟩
  | _ => exact .inl ⟨_, _, rfl⟩

/-- The initialiser failed. -/
theorem asyncShim_of_error {events : List Event} {err : KBoxError}
    (failed : tryPinInit out.init = (events, .error err)) :
    asyncShim T object out =
      ⟨.addRef object :: events ++ .release object :: (spawnErrorRaw out err.intoStatus).1,
        (spawnErrorRaw out err.intoStatus).2.toOption, none⟩ := by
  simp only [asyncShim, failed]

/-- The initialiser succeeded and a task was spawned. -/
theorem asyncShim_of_spawned (pinned : out.init = .pinned) (memory : out.operation = true)
    (spawned : out.spawn = .ok ()) :
    asyncShim T object out =
      ⟨[.addRef object, .alloc, .operationNew, .operationAddRef], some .spawned,
        some (.spawned false)⟩ := by
  simp only [asyncShim, tryPinInit, spawnRaw, spawnRawCancellable, pinned, memory, spawned, if_true]
  rfl

/-- There was no memory for the operation: the future is dropped, then the reference
given back. -/
theorem asyncShim_of_noOperation (pinned : out.init = .pinned) (memory : out.operation = false) :
    asyncShim T object out =
      ⟨[.addRef object, .alloc, .dropMethod, .dealloc, .release object], none, none⟩ := by
  simp only [asyncShim, tryPinInit, spawnRaw, spawnRawCancellable, pinned, memory,
    Bool.false_eq_true, if_false]
  rfl

/-- The executor did not take the task: the future is dropped, the operation freed, then
the reference given back. -/
theorem asyncShim_of_unspawned {status : NtStatus} (pinned : out.init = .pinned)
    (memory : out.operation = true) (failed : out.spawn = .error status) :
    asyncShim T object out =
      ⟨[.addRef object, .alloc, .operationNew, .operationAddRef, .dropMethod, .dealloc,
        .operationRelease, .operationRelease, .release object], none, none⟩ := by
  simp only [asyncShim, tryPinInit, spawnRaw, spawnRawCancellable, pinned, memory, failed, if_true]
  rfl

/-- The status of a failed initialiser is `STATUS_INSUFFICIENT_RESOURCES` if there was no
memory, and else what the initialiser has returned. -/
theorem returnsError_of_init {c : ShimCall}
    (failed : ∀ events err, tryPinInit out.init = (events, .error err) →
      ReturnsError T out c err.intoStatus) :
    (out.init = .allocFailed → ReturnsError T out c statusInsufficientResources) ∧
      ∀ err, out.init = .initFailed err → ReturnsError T out c err := by
  constructor
  · intro init
    exact failed _ (.alloc statusInsufficientResources) (by rw [init, tryPinInit])
  · intro err init
    exact failed _ (.init err) (by rw [init, tryPinInit])

/-- A call that spawned no task. -/
theorem balanced_of_noTask {c : ShimCall} (none : c.task = none)
    (adds : ∀ other, c.trace.count (.addRef other) = if other = object then 1 else 0)
    (releases : ∀ other, c.trace.count (.release other) = if other = object then 1 else 0)
    (failed : ∀ events err, tryPinInit out.init = (events, .error err) →
      c.trace.count .alloc = c.trace.count .dealloc ∧
        (out.operation = true → c.returned = some (.error err.intoStatus)))
    (null : c.returned = .none → out.operation = false ∨ ∃ status, out.spawn = .error status) :
    Balanced T object out c := by
  have errors : ∀ events err, tryPinInit out.init = (events, .error err) →
      ReturnsError T out c err.intoStatus := by
    intro events err error memory
    exact ⟨_, (failed events err error).2 memory, rfl, rfl⟩
  have statuses := returnsError_of_init errors
  refine ⟨adds, fun _ => releases, ?_, ?_, statuses.1, statuses.2, null⟩
  · intro task found
    rw [none] at found
    cases found
  · intro events err error
    exact ⟨none, (failed events err error).1, errors events err error⟩

theorem balanced_of_error {events : List Event} {err : KBoxError}
    (failed : tryPinInit out.init = (events, .error err)) :
    Balanced T object out (asyncShim T object out) := by
  have memory : events = [] ∨ events = [.alloc, .dealloc] := by
    cases init : out.init <;> rw [init] at failed <;> cases failed
    · exact .inl rfl
    · exact .inr rfl
  rw [asyncShim_of_error failed]
  unfold spawnErrorRaw
  cases operation : out.operation with
  | true =>
      refine balanced_of_noTask rfl ?_ ?_ ?_ ?_
      · rcases memory with rfl | rfl <;> simp
      · rcases memory with rfl | rfl <;> simp
      · intro events' err' again
        cases failed.symm.trans again
        refine ⟨?_, fun _ => rfl⟩
        rcases memory with rfl | rfl <;> simp
      · intro null
        cases null
  | false =>
      refine balanced_of_noTask rfl ?_ ?_ ?_ fun _ => .inl operation
      · rcases memory with rfl | rfl <;> simp
      · rcases memory with rfl | rfl <;> simp
      · intro events' err' again
        refine ⟨?_, fun memory => ?_⟩
        · rcases memory with rfl | rfl <;> simp
        · rw [operation] at memory
          cases memory

theorem balanced_of_spawned (pinned : out.init = .pinned) (memory : out.operation = true)
    (spawned : out.spawn = .ok ()) : Balanced T object out (asyncShim T object out) := by
  rw [asyncShim_of_spawned pinned memory spawned]
  refine ⟨fun other => by simp, ?_, ?_, ?_, ?_, ?_, ?_⟩
  · intro none
    cases none
  · intro task found actions s run other
    cases found
    obtain ⟨stage, tracked⟩ := tracked_spawned.run run
    have releases := tracked.releases other
    refine ⟨by simp [tracked.adds], ?_, ?_⟩
    · have bound : stage.releases (false || actions.any TaskAction.isPoll) ≤ 1 := by
        cases stage <;> simp [Stage.releases, Bool.toNat_le]
      simp only [List.cons_append, List.nil_append, ne_eq, reduceCtorEq, not_false_eq_true,
        List.count_cons_of_ne, releases]
      split
      · exact bound
      · exact Nat.le_refl 0
    · rintro ⟨answer, mem⟩ gone
      have polled : actions.any TaskAction.isPoll = true := List.any_eq_true.mpr ⟨_, mem, rfl⟩
      have last : stage = .dropped := by
        have here := tracked.here
        rw [gone] at here
        cases stage <;> first | rfl | cases here
      subst last
      simp [releases, Stage.releases, polled]
  · intro events err error
    rw [pinned] at error
    cases error
  · intro init
    rw [pinned] at init
    cases init
  · intro err init
    rw [pinned] at init
    cases init
  · intro null
    cases null

end Calls

end Kcom.Async.Method
