import Kcom.Conc.System

/-!
# The task of an async method

The shim of an `async fn` (`src/macros/declare_interface.rs`) wraps the method's own
future, a `Pin<KBox<..>>`, in an async block that holds a guard over the reference to
the called object. `spawn_raw_cancellable` (`src/async_com.rs`) puts this block into a
`Cancellable` (`src/task.rs`) and the `Cancellable` into a second async block, which
holds a guard over the operation, and the executor polls or drops the outermost
layer. Each layer is a state machine here, and what it does to the layers below and
to the two objects is the list of events of the poll or the drop.

Of Rust's async blocks: a block that completes or is dropped drops the live locals of
its body in reverse order of declaration, and after them the variables it captured.
-/

namespace Kcom.Async.Method

open Conc

/-! ## Futures -/

/-- What a call of the method does, outside of the future's own code. -/
inductive Event
  /-- `shim_add_ref` of the container on the called object. -/
  | addRef (object : Nat)
  /-- `shim_release` of the container on the called object. -/
  | release (object : Nat)
  /-- The memory of the method's future. -/
  | alloc
  | dealloc
  /-- The method's future returns `Ready`. -/
  | methodReady
  /-- The method's future is dropped in place. -/
  | dropMethod
  | storeResult
  | storeCanceled
  | operationNew
  | operationAddRef
  | operationRelease
  deriving DecidableEq, Repr

/-- A future as its owner sees it: a poll in the environment `ρ`, which panics
(`none`) or goes on with `Pending` (`none`) or `Ready`, and a drop. -/
structure Fut (ρ σ τ : Type) where
  poll : ρ → σ → Option (List Event × σ × Option τ)
  drop : σ → List Event

/-- An async block that ends: its live locals in the order of their declaration, then
what it captured. -/
def dropAll (locals captured : List (List Event)) : List Event :=
  locals.reverse.flatten ++ captured.flatten

/-- `Drop` of the method's `KBox`. -/
def dropBox : List Event :=
  [.dropMethod, .dealloc]

/-! ## The block of the shim -/

/-- `async move { let _guard = ReleaseGuard { .. }; future.as_mut().await }`. -/
inductive ShimBlock
  | unresumed
  | suspended
  | returned
  deriving DecidableEq, Repr

namespace ShimBlock

/-- The locals that are live at a suspension point: `_guard`. -/
def locals (object : Nat) : ShimBlock → List (List Event)
  | .unresumed => []
  | .suspended => [[.release object]]
  | .returned => []

/-- The captured variable with a destructor: `future`. -/
def captured : ShimBlock → List (List Event)
  | .unresumed => [dropBox]
  | .suspended => [dropBox]
  | .returned => []

/-- The block, polled with what the method's future answers. -/
def fut (object : Nat) (T : Type) : Fut (Option T) ShimBlock T where
  poll answer
    | .returned => none
    | _ =>
        match answer with
        | none => some ([], .suspended, none)
        | some value =>
            some (.methodReady :: dropAll (suspended.locals object) suspended.captured, .returned,
              some value)
  drop block := dropAll (block.locals object) block.captured

end ShimBlock

/-! ## `Cancellable` -/

inductive CancellableState
  | runningMain
  | runningCleanup
  | done
  deriving DecidableEq, Repr

/-- `Cancellable<M, C>`. The two futures are in `ManuallyDrop`. -/
structure Cancellable (M C : Type) where
  state : CancellableState
  main : M
  cleanup : C
  deriving DecidableEq, Repr

namespace Cancellable

variable {ρ ρ' M C T : Type} (main : Fut ρ M T) (cleanup : Fut ρ' C Unit)

/-- `try_finally`. -/
def new (m : M) (c : C) : Cancellable M C :=
  ⟨.runningMain, m, c⟩

/-- The branch `RunningCleanup` of the loop. -/
def pollCleanup (answer : ρ') (c : Cancellable M C) :
    Option (List Event × Cancellable M C × Option (Option T)) := do
  let (events, next, ready) ← cleanup.poll answer c.cleanup
  match ready with
  | some () => some (events ++ cleanup.drop next, { c with state := .done, cleanup := next }, some none)
  | none => some (events, { c with cleanup := next }, none)

/-- `poll`. `requested` is `cancel_requested` of the current task, which
`take_cancellation_request` takes from 1 to 2. -/
def poll (answer : ρ) (answer' : ρ') (requested : Nat) (c : Cancellable M C) :
    Option (List Event × Cancellable M C × Option (Option T) × Nat) :=
  match c.state with
  | .runningMain =>
      if requested = 1 then do
        let (events, next, ready) ←
          pollCleanup cleanup answer' { c with state := .runningCleanup }
        some (main.drop c.main ++ events, next, ready, 2)
      else do
        let (events, next, ready) ← main.poll answer c.main
        match ready with
        | some value =>
            some (events ++ main.drop next ++ cleanup.drop c.cleanup,
              { c with state := .done, main := next }, some (some value), requested)
        | none => some (events, { c with main := next }, none, requested)
  | .runningCleanup => do
      let (events, next, ready) ← pollCleanup cleanup answer' c
      some (events, next, ready, requested)
  | .done => none

/-- `Drop`. -/
def drop (c : Cancellable M C) : List Event :=
  match c.state with
  | .runningMain => main.drop c.main ++ cleanup.drop c.cleanup
  | .runningCleanup => cleanup.drop c.cleanup
  | .done => []

end Cancellable

/-- The cleanup of an operation, `async {}`. -/
def emptyBlock : Fut Unit Unit Unit where
  poll _ _ := some ([], (), some ())
  drop _ := []

/-! ## The block of the operation -/

/-- The block that `spawn_raw_cancellable` spawns. -/
inductive TaskBlock
  | unresumed (future : ShimBlock)
  | suspended (awaited : Cancellable ShimBlock Unit)
  | returned
  deriving DecidableEq, Repr

namespace TaskBlock

/-- The locals that are live at the suspension point: `_guard`, then the
`Cancellable` that is awaited. -/
def locals (object : Nat) (T : Type) : TaskBlock → List (List Event)
  | .unresumed _ => []
  | .suspended awaited =>
      [[.operationRelease], Cancellable.drop (ShimBlock.fut object T) emptyBlock awaited]
  | .returned => []

/-- The captured variable with a destructor, before it is moved into the
`Cancellable`. -/
def captured (object : Nat) (T : Type) : TaskBlock → List (List Event)
  | .unresumed future => [(ShimBlock.fut object T).drop future]
  | .suspended _ => []
  | .returned => []

def drop (object : Nat) (T : Type) (block : TaskBlock) : List Event :=
  dropAll (block.locals object T) (block.captured object T)

/-- Await the `Cancellable`, and store what it returns. -/
def await {T : Type} (object : Nat) (answer : Option T) (requested : Nat)
    (c : Cancellable ShimBlock Unit) : Option (List Event × TaskBlock × Nat) := do
  let (events, next, ready, requested) ←
    Cancellable.poll (ShimBlock.fut object T) emptyBlock answer () requested c
  match ready with
  | none => some (events, .suspended next, requested)
  | some result =>
      let stored := if result.isSome then Event.storeResult else .storeCanceled
      some (events ++ Cancellable.drop (ShimBlock.fut object T) emptyBlock next ++
        stored :: dropAll [[.operationRelease]] [], .returned, requested)

def poll {T : Type} (object : Nat) (answer : Option T) (requested : Nat) :
    TaskBlock → Option (List Event × TaskBlock × Nat)
  | .unresumed future => await object answer requested (.new future ())
  | .suspended awaited => await object answer requested awaited
  | .returned => none

end TaskBlock

/-! ## The task -/

/-- A spawned task: the block until it is dropped, `cancel_requested`, whether there
is a `CancelHandle`, and what has happened. -/
structure Task where
  block : Option TaskBlock
  requested : Nat
  handle : Bool
  trace : List Event

inductive TaskAction (T : Type)
  /-- The executor polls the block; the method's future, if it is reached, answers. -/
  | poll (answer : Option T)
  /-- The executor drops the block. -/
  | drop
  /-- `CancelHandle::cancel`. -/
  | cancel
  | dropHandle
  deriving DecidableEq, Repr

namespace Task

/-- The task as it is spawned. -/
def spawned (handle : Bool) : Task :=
  ⟨some (.unresumed .unresumed), 0, handle, []⟩

def step {T : Type} (object : Nat) (s : Task) : TaskAction T → Option Task
  | .poll answer => do
      let block ← s.block
      let (events, next, requested) ← block.poll object answer s.requested
      some { s with block := some next, requested := requested, trace := s.trace ++ events }
  | .drop => do
      let block ← s.block
      some { s with block := none, trace := s.trace ++ block.drop object T }
  | .cancel =>
      if s.handle then some { s with requested := if s.requested = 0 then 1 else s.requested }
      else none
  | .dropHandle => if s.handle then some { s with handle := false } else none

end Task

/-- The runs of a task on the called object. -/
def taskSystem (T : Type) (object : Nat) : Sys Task (TaskAction T) where
  start s := ∃ handle, s = .spawned handle
  step := Task.step object

/-! ## The stages of a task -/

/-- Where a task can be: not polled yet, suspended in the method's future, returned,
or dropped. The other combinations of the layers' states do not occur. -/
inductive Stage
  | fresh
  | pending
  | returned
  | dropped
  deriving DecidableEq, Repr

namespace Stage

def block : Stage → Option TaskBlock
  | .fresh => some (.unresumed .unresumed)
  | .pending => some (.suspended ⟨.runningMain, .suspended, ()⟩)
  | .returned => some .returned
  | .dropped => none

/-- The method's future is still to be polled. -/
def live : Stage → Bool
  | .fresh => true
  | .pending => true
  | _ => false

/-- The shim's block is dropped at the stage. -/
def abandon (object : Nat) : Stage → List Event
  | .fresh => dropBox
  | .pending => .release object :: dropBox
  | _ => []

/-- What is dropped with the operation's block around it: its guard exists from the
first poll on. -/
def guardOperation : Stage → List Event
  | .pending => [.operationRelease]
  | _ => []

end Stage

/-- What the method's future returning does. -/
def finish (object : Nat) : List Event :=
  .methodReady :: .release object :: dropBox ++ [.storeResult, .operationRelease]

/-- One step, from the stage before and `cancel_requested` to the stage after and the
events. -/
inductive Moves {T : Type} (object : Nat) :
    Stage → Nat → TaskAction T → Stage → List Event → Prop
  | cancel {stage : Stage} {r : Nat} : Moves object stage r .cancel stage []
  | dropHandle {stage : Stage} {r : Nat} : Moves object stage r .dropHandle stage []
  | pending {stage : Stage} {r : Nat} (live : stage.live = true) (quiet : r ≠ 1) :
      Moves object stage r (.poll none) .pending []
  | ready {stage : Stage} {r : Nat} {value : T} (live : stage.live = true) (quiet : r ≠ 1) :
      Moves object stage r (.poll (some value)) .returned (finish object)
  | taken {stage : Stage} {answer : Option T} (live : stage.live = true) :
      Moves object stage 1 (.poll answer) .returned
        (stage.abandon object ++ [.storeCanceled, .operationRelease])
  | drop {stage : Stage} {r : Nat} (here : stage ≠ .dropped) :
      Moves object stage r .drop .dropped (stage.abandon object ++ stage.guardOperation)

section Steps

variable {T : Type} {object r : Nat} {stage : Stage} {s s' : Task} {a : TaskAction T}

/-- The layers below a poll that takes no request: the method's future is reached, and
answers. -/
theorem poll_of_quiet {answer : Option T} {block : TaskBlock} (live : stage.live = true)
    (here : stage.block = some block) (quiet : r ≠ 1) :
    block.poll object answer r =
      match answer with
      | none => some ([], .suspended ⟨.runningMain, .suspended, ()⟩, r)
      | some _ => some (finish object, .returned, r) := by
  cases stage with
  | fresh =>
      cases here
      simp only [TaskBlock.poll, TaskBlock.await, Cancellable.poll, Cancellable.new, if_neg quiet]
      cases answer <;> rfl
  | pending =>
      cases here
      simp only [TaskBlock.poll, TaskBlock.await, Cancellable.poll, if_neg quiet]
      cases answer <;> rfl
  | returned => cases live
  | dropped => cases live

/-- The layers below a poll that takes a request: the shim's block is dropped, and the
cleanup is ready. -/
theorem poll_of_requested {answer : Option T} {block : TaskBlock} (live : stage.live = true)
    (here : stage.block = some block) :
    block.poll object answer 1 =
      some (stage.abandon object ++ [.storeCanceled, .operationRelease], .returned, 2) := by
  cases stage with
  | fresh =>
      cases here
      rfl
  | pending =>
      cases here
      rfl
  | returned => cases live
  | dropped => cases live

theorem live_of_poll {answer : Option T} {block next : TaskBlock} {events : List Event} {r' : Nat}
    (here : stage.block = some block)
    (polled : block.poll object answer r = some (events, next, r')) : stage.live = true := by
  cases stage with
  | fresh => rfl
  | pending => rfl
  | returned =>
      cases here
      cases polled
  | dropped => cases here

theorem moves_of_poll {answer : Option T} {block next : TaskBlock} {events : List Event}
    {r' : Nat} (here : stage.block = some block)
    (polled : block.poll object answer r = some (events, next, r')) :
    ∃ stage', Moves object stage r (.poll answer) stage' events ∧ stage'.block = some next ∧
      (r ≠ 1 → r' = r) := by
  have live := live_of_poll here polled
  by_cases requested : r = 1
  · subst requested
    rw [poll_of_requested live here] at polled
    cases polled
    exact ⟨.returned, .taken live, rfl, absurd rfl⟩
  · rw [poll_of_quiet live here requested] at polled
    cases answer with
    | none =>
        cases polled
        exact ⟨.pending, .pending live requested, rfl, fun _ => rfl⟩
    | some value =>
        cases polled
        exact ⟨.returned, .ready live requested, rfl, fun _ => rfl⟩

theorem drop_eq {block : TaskBlock} (here : stage.block = some block) :
    block.drop object T = stage.abandon object ++ stage.guardOperation := by
  cases stage <;> cases here <;> rfl

/-- Every step of a task at a stage. -/
theorem moves_of_step (here : s.block = stage.block) (next : s.step object a = some s') :
    ∃ stage' events, Moves object stage s.requested a stage' events ∧ s'.block = stage'.block ∧
      s'.trace = s.trace ++ events ∧
      (s.handle = false → s.requested ≠ 1 → s'.handle = false ∧ s'.requested = s.requested) := by
  cases a with
  | poll answer =>
      obtain ⟨block, found, rest⟩ := Option.bind_eq_some_iff.mp next
      obtain ⟨⟨events, after, r'⟩, polled, rest⟩ := Option.bind_eq_some_iff.mp rest
      cases rest
      obtain ⟨stage', moves, at', kept⟩ := moves_of_poll (here.symm.trans found) polled
      exact ⟨stage', events, moves, at'.symm, rfl, fun handle quiet => ⟨handle, kept quiet⟩⟩
  | drop =>
      obtain ⟨block, found, rest⟩ := Option.bind_eq_some_iff.mp next
      cases rest
      have live := here.symm.trans found
      refine ⟨.dropped, _, .drop ?_, rfl, ?_, fun handle _ => ⟨handle, rfl⟩⟩
      · rintro rfl
        cases live
      · rw [drop_eq live]
  | cancel =>
      simp only [Task.step] at next
      split at next
      case isTrue handle =>
        cases next
        refine ⟨stage, [], .cancel, here, (List.append_nil _).symm, fun none _ => ?_⟩
        rw [handle] at none
        cases none
      case isFalse => cases next
  | dropHandle =>
      simp only [Task.step] at next
      split at next
      case isTrue handle =>
        cases next
        exact ⟨stage, [], .dropHandle, here, (List.append_nil _).symm, fun none _ => ⟨rfl, rfl⟩⟩
      case isFalse => cases next

end Steps

end Kcom.Async.Method
