import Kcom.Async.Method.Task

/-!
# `try_finally`, polled and dropped

`Cancellable` (`src/task.rs`) with its loop, turn by turn, and its two futures in
`ManuallyDrop`. The main future, the cleanup and `take_cancellation_request` are what
they answer to the poller: a sequence of answers each, one for every time they are asked.
The owner polls the `Cancellable` until it is `Ready` and drops it at any time.

The log of a `Cancellable` is what it has done to its futures, in order. It tells one of
six stories (`Story`): main is still running, or a cancellation was taken and cleanup
is still running, or either has come to its end, or the `Cancellable` was dropped in
one of the first two states. What the two futures may rely on is read off the story.
-/

namespace Kcom.Async.TryFinally

open Conc
open Method (CancellableState)

/-! ## The loop -/

/-- What the futures answer to their polls, and `take_cancellation_request` to its calls. -/
structure Env (T : Type) where
  main : Nat → Option T
  cleanup : Nat → Bool
  take : Nat → Bool

/-- What a `Cancellable` does: the answers of calls and polls, and the drops. -/
inductive Event (T : Type)
  | take (answer : Bool)
  | pollMain (answer : Option T)
  | dropMain
  | pollCleanup (ready : Bool)
  | dropCleanup
  deriving DecidableEq, Repr

namespace Event

variable {T : Type}

def dropsMain : Event T → Bool
  | .dropMain => true
  | _ => false

def dropsCleanup : Event T → Bool
  | .dropCleanup => true
  | _ => false

/-- The answer of `take_cancellation_request`. -/
def take? : Event T → Option Bool
  | .take answer => some answer
  | _ => none

/-- The answer of main. -/
def main? : Event T → Option (Option T)
  | .pollMain answer => some answer
  | _ => none

/-- The answer of cleanup. -/
def cleanup? : Event T → Option Bool
  | .pollCleanup ready => some ready
  | _ => none

attribute [simp] take? main? cleanup?

end Event

/-- `Cancellable<M, C>`, with what has been asked of its environment so far. -/
structure Cancellable (T : Type) where
  state : CancellableState
  takes : Nat
  mainPolls : Nat
  cleanupPolls : Nat
  log : List (Event T)
  deriving DecidableEq, Repr

/-- How a turn of the loop ends: with `continue`, with a `return`, or in the panic of a
poll after completion. -/
inductive Turn (T : Type)
  | again
  | pending
  | ready (value : Option T)
  | panicked
  deriving DecidableEq, Repr

/-- What the poll returns with `Ready`. -/
def Turn.result {T : Type} : Turn T → Option (Option T)
  | .ready value => some value
  | _ => none

namespace Cancellable

variable {T : Type}

/-- `try_finally`. -/
def new : Cancellable T where
  state := .runningMain
  takes := 0
  mainPolls := 0
  cleanupPolls := 0
  log := []

/-- One turn of the loop of `poll`. -/
def turn (env : Env T) (c : Cancellable T) : Cancellable T × Turn T :=
  match c.state with
  | .runningMain =>
      if env.take c.takes then
        ({ c with
            state := .runningCleanup
            takes := c.takes + 1
            log := c.log ++ [.take true, .dropMain] }, .again)
      else
        match env.main c.mainPolls with
        | some value =>
            ({ c with
                state := .done
                takes := c.takes + 1
                mainPolls := c.mainPolls + 1
                log := c.log ++ [.take false, .pollMain (some value), .dropMain, .dropCleanup] },
              .ready (some value))
        | none =>
            ({ c with
                takes := c.takes + 1
                mainPolls := c.mainPolls + 1
                log := c.log ++ [.take false, .pollMain none] }, .pending)
  | .runningCleanup =>
      if env.cleanup c.cleanupPolls then
        ({ c with
            state := .done
            cleanupPolls := c.cleanupPolls + 1
            log := c.log ++ [.pollCleanup true, .dropCleanup] }, .ready none)
      else
        ({ c with
            cleanupPolls := c.cleanupPolls + 1
            log := c.log ++ [.pollCleanup false] }, .pending)
  | .done => (c, .panicked)

/-- `poll`, cut off after `n` turns. -/
def poll (env : Env T) : Nat → Cancellable T → Option (Cancellable T × Turn T)
  | 0, _ => none
  | n + 1, c =>
      match c.turn env with
      | (c', .again) => poll env n c'
      | ended => some ended

/-- `Drop`. -/
def drop (c : Cancellable T) : Cancellable T :=
  match c.state with
  | .runningMain => { c with log := c.log ++ [.dropMain, .dropCleanup] }
  | .runningCleanup => { c with log := c.log ++ [.dropCleanup] }
  | .done => c

end Cancellable

/-! ## Its owner -/

/-- A `Cancellable` in the hands of its owner. -/
structure State (T : Type) where
  cancellable : Cancellable T
  /-- What a poll has returned with `Ready`. -/
  result : Option (Option T)
  dropped : Bool
  deriving DecidableEq, Repr

inductive Action
  | poll
  | drop
  deriving DecidableEq, Repr

variable {T : Type}

/-- The owner polls until the first `Ready`, and drops once. -/
def step (env : Env T) (s : State T) : Action → Option (State T)
  | .poll =>
      if s.result.isNone && !s.dropped then
        (s.cancellable.poll env 2).map fun (c, ended) =>
          { s with cancellable := c, result := ended.result }
      else none
  | .drop =>
      if s.dropped then none
      else some { s with cancellable := s.cancellable.drop, dropped := true }

def system (env : Env T) : Sys (State T) Action where
  start s := s = ⟨.new, none, false⟩
  step := step env

/-! ## Polls by turns -/

namespace Cancellable

variable {env : Env T} {c : Cancellable T}

/-- Only a cancellation that was taken leads to another turn. -/
theorem poll_of_again {n : Nat} (again : (c.turn env).2 = .again) :
    c.poll env (n + 1) = (c.turn env).1.poll env n := by
  rcases taken : c.turn env with ⟨c', ended⟩
  rw [taken] at again
  cases again
  rw [poll, taken]

theorem poll_of_ended {n : Nat} (ended : (c.turn env).2 ≠ .again) :
    c.poll env (n + 1) = some (c.turn env) := by
  rcases taken : c.turn env with ⟨c', how⟩
  rw [taken] at ended
  rw [poll, taken]
  cases how with
  | again => exact absurd rfl ended
  | pending | ready | panicked => rfl

theorem turn_taken (state : c.state = .runningMain) (taken : env.take c.takes = true) :
    c.turn env = ({ c with
      state := .runningCleanup
      takes := c.takes + 1
      log := c.log ++ [.take true, .dropMain] }, .again) := by
  simp only [turn, state, taken, if_true]

end Cancellable

/-! ## The answers in the log -/

/-- The answers in the log are those of the environment, from the first on. -/
structure Answered (env : Env T) (c : Cancellable T) : Prop where
  takes : c.log.filterMap Event.take? = (List.range c.takes).map env.take
  main : c.log.filterMap Event.main? = (List.range c.mainPolls).map env.main
  cleanup : c.log.filterMap Event.cleanup? = (List.range c.cleanupPolls).map env.cleanup

section Answers

variable {env : Env T} {c c' : Cancellable T} {ended : Turn T}

theorem Answered.turn (answered : Answered env c) : Answered env (c.turn env).1 := by
  obtain ⟨takes, main, cleanup⟩ := answered
  unfold Cancellable.turn
  split
  · split
    · next taken => constructor <;> simp [List.range_succ, takes, main, cleanup, taken]
    · next idle =>
        rw [Bool.not_eq_true] at idle
        split
        · next value ready =>
            constructor <;>
              simp [List.filterMap_cons, List.range_succ, takes, main, cleanup, idle, ready]
        · next pending =>
            constructor <;>
              simp [List.filterMap_cons, List.range_succ, takes, main, cleanup, idle, pending]
  · split
    · next ready => constructor <;> simp [List.range_succ, takes, main, cleanup, ready]
    · next pending =>
        rw [Bool.not_eq_true] at pending
        constructor <;> simp [List.range_succ, takes, main, cleanup, pending]
  · exact ⟨takes, main, cleanup⟩

theorem Answered.poll {n : Nat} (answered : Answered env c)
    (polled : c.poll env n = some (c', ended)) : Answered env c' := by
  induction n generalizing c with
  | zero => cases polled
  | succ n ih =>
      have next := answered.turn
      rcases taken : c.turn env with ⟨c₁, how⟩
      rw [taken] at next
      rw [Cancellable.poll, taken] at polled
      cases how with
      | again => exact ih next polled
      | pending | ready | panicked =>
          cases polled
          exact next

theorem Answered.drop (answered : Answered env c) : Answered env c.drop := by
  obtain ⟨takes, main, cleanup⟩ := answered
  unfold Cancellable.drop
  split
  · constructor <;> simp [takes, main, cleanup]
  · constructor <;> simp [takes, main, cleanup]
  · exact ⟨takes, main, cleanup⟩

theorem answered_of_reach {s : State T} (reached : (system env).Reachable s) :
    Answered env s.cancellable := by
  refine reached.invariant (I := fun s => Answered env s.cancellable) ?_ ?_
  · intro s begins
    rw [show s = ⟨.new, none, false⟩ from begins]
    exact ⟨rfl, rfl, rfl⟩
  · intro s a s' answered _ next
    cases a with
    | poll =>
        obtain ⟨-, moved⟩ := Option.ite_none_right_eq_some.mp next
        obtain ⟨⟨c, ended⟩, polled, rfl⟩ := Option.map_eq_some_iff.mp moved
        exact answered.poll polled
    | drop =>
        obtain ⟨-, same⟩ := Option.ite_none_left_eq_some.mp next
        cases same
        exact answered.drop

end Answers

/-! ## What the log tells -/

section Story

variable {log front back : List (Event T)} {e : Event T}

/-- Main was polled and no cancellation was found, any number of times. -/
def Waiting (front : List (Event T)) : Prop :=
  ∀ e ∈ front, e = .take false ∨ e = .pollMain none

/-- Cleanup was polled, any number of times. -/
def Cleaning (back : List (Event T)) : Prop :=
  ∀ e ∈ back, e = .pollCleanup false

/-- The log of a `Cancellable` in a state, with the result that its polls have returned
and after its drop or before. -/
inductive Story : CancellableState → Option (Option T) → Bool → List (Event T) → Prop
  | running {front : List (Event T)} : Waiting front → Story .runningMain none false front
  | cleaning {front back : List (Event T)} : Waiting front → Cleaning back → back ≠ [] →
      Story .runningCleanup none false (front ++ .take true :: .dropMain :: back)
  | finished {front : List (Event T)} (value : T) (dropped : Bool) : Waiting front →
      Story .done (some (some value)) dropped
        (front ++ [.take false, .pollMain (some value), .dropMain, .dropCleanup])
  | cleaned {front back : List (Event T)} (dropped : Bool) : Waiting front → Cleaning back →
      Story .done (some none) dropped
        (front ++ .take true :: .dropMain :: (back ++ [.pollCleanup true, .dropCleanup]))
  | stoppedRunning {front : List (Event T)} : Waiting front →
      Story .runningMain none true (front ++ [.dropMain, .dropCleanup])
  | stoppedCleaning {front back : List (Event T)} : Waiting front → Cleaning back → back ≠ [] →
      Story .runningCleanup none true
        (front ++ .take true :: .dropMain :: (back ++ [.dropCleanup]))

theorem Waiting.append (waiting : Waiting front) :
    Waiting (front ++ [.take false, .pollMain none]) := by
  intro e member
  simp only [List.mem_append, List.mem_cons, List.not_mem_nil, or_false] at member
  rcases member with before | last
  · exact waiting e before
  · exact last

theorem Cleaning.append (cleaning : Cleaning back) : Cleaning (back ++ [.pollCleanup false]) := by
  intro e member
  rcases List.mem_append.mp member with before | last
  · exact cleaning e before
  · exact List.mem_singleton.mp last

theorem Cleaning.nil : Cleaning ([] : List (Event T)) := by
  intro e member
  cases member

/-- Cleanup is polled next, in the story of a cancellation that was taken. -/
theorem Story.turn_cleaning (env : Env T) {c : Cancellable T} (state : c.state = .runningCleanup)
    (log : c.log = front ++ .take true :: .dropMain :: back) (waiting : Waiting front)
    (cleaning : Cleaning back) :
    (c.turn env).2 ≠ .again ∧ (c.turn env).2 ≠ .panicked ∧
      Story (c.turn env).1.state (c.turn env).2.result false (c.turn env).1.log := by
  simp only [Cancellable.turn, state]
  split
  · refine ⟨nofun, nofun, ?_⟩
    have more := Story.cleaned false waiting cleaning
    simpa [log, Turn.result] using more
  · refine ⟨nofun, nofun, ?_⟩
    have more := Story.cleaning waiting cleaning.append (by simp)
    simpa [log, Turn.result] using more

/-- Main is polled next: no cancellation was found. -/
theorem Story.turn_running {env : Env T} {c : Cancellable T} (state : c.state = .runningMain)
    (none : env.take c.takes ≠ true) (waiting : Waiting c.log) :
    (c.turn env).2 ≠ .again ∧ (c.turn env).2 ≠ .panicked ∧
      Story (c.turn env).1.state (c.turn env).2.result false (c.turn env).1.log := by
  simp only [Cancellable.turn, state, if_neg none]
  split
  · next value ready => exact ⟨nofun, nofun, .finished value false waiting⟩
  · exact ⟨nofun, nofun, .running waiting.append⟩

/-- A poll of an unfinished `Cancellable` goes on with its story. -/
theorem Story.poll (env : Env T) {c : Cancellable T} (story : Story c.state none false c.log) :
    ∃ c' ended, (∀ n, c.poll env (n + 2) = some (c', ended)) ∧ ended ≠ .panicked ∧
      Story c'.state ended.result false c'.log := by
  generalize state : c.state = current at story
  generalize log : c.log = told at story
  cases story with
  | running waiting =>
      by_cases taken : env.take c.takes = true
      · have first := Cancellable.turn_taken state taken
        have next : (c.turn env).1.state = .runningCleanup := by rw [first]
        have log : (c.turn env).1.log = told ++ [.take true, .dropMain] := by rw [first, log]
        obtain ⟨ended, sound, more⟩ := Story.turn_cleaning env next log waiting .nil
        refine ⟨_, _, fun n => ?_, sound, more⟩
        rw [Cancellable.poll_of_again (by rw [first]), Cancellable.poll_of_ended ended]
      · obtain ⟨ended, sound, more⟩ := Story.turn_running state taken (log ▸ waiting)
        exact ⟨_, _, fun n => Cancellable.poll_of_ended ended, sound, more⟩
  | cleaning waiting cleaning _ =>
      obtain ⟨ended, sound, more⟩ := Story.turn_cleaning env state log waiting cleaning
      exact ⟨_, _, fun n => Cancellable.poll_of_ended ended, sound, more⟩

/-- A drop ends the story. -/
theorem Story.drop {c : Cancellable T} {result : Option (Option T)}
    (story : Story c.state result false c.log) : Story c.drop.state result true c.drop.log := by
  generalize state : c.state = current at story
  generalize log : c.log = told at story
  cases story with
  | running waiting =>
      simp only [Cancellable.drop, state, log]
      exact .stoppedRunning waiting
  | cleaning waiting cleaning some =>
      have more := Story.stoppedCleaning waiting cleaning some
      simpa [Cancellable.drop, state, log] using more
  | finished value dropped waiting =>
      simp only [Cancellable.drop, state, log]
      exact .finished value true waiting
  | cleaned dropped waiting cleaning =>
      simp only [Cancellable.drop, state, log]
      exact .cleaned true waiting cleaning

/-- Every run tells one of the stories. -/
theorem story_of_reach {env : Env T} {s : State T} (reached : (system env).Reachable s) :
    Story s.cancellable.state s.result s.dropped s.cancellable.log := by
  refine reached.invariant (I := fun s =>
    Story s.cancellable.state s.result s.dropped s.cancellable.log) ?_ ?_
  · intro s begins
    rw [show s = ⟨.new, none, false⟩ from begins]
    exact .running fun e member => by cases member
  · intro s a s' story _ next
    have next : step env s a = some s' := next
    cases a with
    | poll =>
        simp only [step] at next
        split at next
        · next able =>
            simp only [Bool.and_eq_true, Option.isNone_iff_eq_none, Bool.not_eq_true'] at able
            rw [able.1, able.2] at story
            obtain ⟨c', ended, polled, -, more⟩ := story.poll env
            rw [polled 0] at next
            cases next
            simpa [able.2] using more
        · cases next
    | drop =>
        simp only [step] at next
        split at next
        · cases next
        · next able =>
            rw [Bool.not_eq_true] at able
            rw [able] at story
            cases next
            exact story.drop

end Story

/-! ## What the futures may rely on -/

section Order

variable {log more front back : List (Event T)} {e : Event T}

/-- What may follow a log: nothing is dropped twice, and nothing is polled after it was
dropped or was `Ready`; a cancellation is looked for while main is running, and cleanup
is polled when one was taken and main has been dropped. -/
def Allowed (log : List (Event T)) : Event T → Prop
  | .take _ => .dropMain ∉ log ∧ ∀ value, .pollMain (some value) ∉ log
  | .pollMain _ => .dropMain ∉ log ∧ (∀ value, .pollMain (some value) ∉ log) ∧ .take true ∉ log
  | .dropMain => .dropMain ∉ log
  | .pollCleanup _ => .dropMain ∈ log ∧ .take true ∈ log ∧ .dropCleanup ∉ log ∧
      .pollCleanup true ∉ log
  | .dropCleanup => .dropCleanup ∉ log

/-- Each event is allowed where it stands. -/
def Orderly (log : List (Event T)) : Prop :=
  ∀ before e after, log = before ++ e :: after → Allowed before e

theorem Orderly.nil : Orderly ([] : List (Event T)) := by
  intro before e after split
  cases before <;> cases split

/-- One more event. -/
theorem Orderly.snoc (orderly : Orderly log) (allowed : Allowed log e) : Orderly (log ++ [e]) := by
  intro before e' after split
  rcases List.eq_nil_or_concat after with rfl | ⟨after, last, rfl⟩
  · obtain ⟨rfl, same⟩ := List.append_inj' split rfl
    cases same
    exact allowed
  · have split : log ++ [e] = before ++ e' :: after ++ [last] := by simpa using split
    exact orderly before e' after (List.append_inj' split rfl).1

/-- More events, each allowed after those before it. -/
theorem Orderly.append (orderly : Orderly log)
    (allowed : ∀ before e after, more = before ++ e :: after → Allowed (log ++ before) e) :
    Orderly (log ++ more) := by
  intro before e after split
  rcases List.append_eq_append_iff.mp split with ⟨front, rfl, rest⟩ | ⟨rest, rfl, back⟩
  · exact allowed front e after rest
  · cases rest with
    | nil =>
        rw [List.nil_append] at back
        have first := allowed [] e after back.symm
        rwa [List.append_nil, List.append_nil] at first
    | cons e' rest =>
        obtain ⟨rfl, -⟩ := List.cons.inj back
        exact orderly before e rest rfl

/-- What does not happen while main is waited for. -/
theorem Waiting.absent (waiting : Waiting front) :
    .dropMain ∉ front ∧ .dropCleanup ∉ front ∧ .take true ∉ front ∧
      (∀ value, .pollMain (some value) ∉ front) ∧ ∀ ready, .pollCleanup ready ∉ front := by
  have absent : ∀ e, e ≠ .take false → e ≠ .pollMain none → e ∉ front := by
    intro e called polled member
    exact (waiting e member).elim called polled
  exact ⟨absent _ nofun nofun, absent _ nofun nofun, absent _ nofun nofun,
    fun _ => absent _ nofun nofun, fun _ => absent _ nofun nofun⟩

/-- What does not happen while cleanup is waited for. -/
theorem Cleaning.absent (cleaning : Cleaning back) :
    .dropMain ∉ back ∧ .dropCleanup ∉ back ∧ .pollCleanup true ∉ back ∧
      (∀ answer, .take answer ∉ back) ∧ ∀ answer, .pollMain answer ∉ back := by
  have absent : ∀ e, e ≠ .pollCleanup false → e ∉ back := by
    intro e polled member
    exact polled (cleaning e member)
  exact ⟨absent _ nofun, absent _ nofun, absent _ nofun, fun _ => absent _ nofun,
    fun _ => absent _ nofun⟩

theorem Waiting.orderly (waiting : Waiting front) : Orderly front := by
  intro before e after split
  have earlier : Waiting before := by
    intro e' member
    exact waiting e' (split ▸ List.mem_append_left _ member)
  have here : e ∈ front := split ▸ List.mem_append_right _ List.mem_cons_self
  rcases waiting e here with rfl | rfl <;> simp [Allowed, earlier.absent]

/-- A cancellation was taken, and cleanup was polled. -/
theorem Cleaning.orderly (waiting : Waiting front) (cleaning : Cleaning back) :
    Orderly (front ++ [.take true, .dropMain] ++ back) := by
  refine .append ?_ fun before e after split => ?_
  · rw [List.append_cons]
    refine (waiting.orderly.snoc ?_).snoc ?_ <;> simp [Allowed, waiting.absent]
  · have earlier : Cleaning before := by
      intro e' member
      exact cleaning e' (split ▸ List.mem_append_left _ member)
    have here : e ∈ back := split ▸ List.mem_append_right _ List.mem_cons_self
    rw [cleaning e here]
    simp [Allowed, waiting.absent, earlier.absent]

/-- Every story is in order. -/
theorem Story.orderly {state : CancellableState} {result : Option (Option T)} {dropped : Bool}
    (story : Story state result dropped log) : Orderly log := by
  cases story with
  | running waiting => exact waiting.orderly
  | cleaning waiting cleaning _ =>
      have taken := cleaning.orderly waiting
      rwa [List.append_assoc] at taken
  | finished value dropped waiting =>
      rw [List.append_cons, List.append_cons, List.append_cons]
      refine (((waiting.orderly.snoc ?_).snoc ?_).snoc ?_).snoc ?_ <;>
        simp [Allowed, waiting.absent]
  | @cleaned front back _ waiting cleaning =>
      have ready : Orderly (front ++ [.take true, .dropMain] ++ back ++ [.pollCleanup true]) :=
        (cleaning.orderly waiting).snoc (by simp [Allowed, waiting.absent, cleaning.absent])
      have ended := ready.snoc (e := .dropCleanup)
        (by simp [Allowed, waiting.absent, cleaning.absent])
      simpa using ended
  | stoppedRunning waiting =>
      rw [List.append_cons]
      refine (waiting.orderly.snoc ?_).snoc ?_ <;> simp [Allowed, waiting.absent]
  | stoppedCleaning waiting cleaning _ =>
      have ended := (cleaning.orderly waiting).snoc (e := .dropCleanup)
        (by simp [Allowed, waiting.absent, cleaning.absent])
      simpa using ended

theorem Waiting.drops (waiting : Waiting front) :
    front.countP Event.dropsMain = 0 ∧ front.countP Event.dropsCleanup = 0 := by
  rw [List.countP_eq_zero, List.countP_eq_zero]
  constructor <;> intro e member <;> rcases waiting e member with rfl | rfl <;> exact nofun

theorem Cleaning.drops (cleaning : Cleaning back) :
    back.countP Event.dropsMain = 0 ∧ back.countP Event.dropsCleanup = 0 := by
  rw [List.countP_eq_zero, List.countP_eq_zero]
  constructor <;> intro e member <;> rw [cleaning e member] <;> exact nofun

section Told

variable {state : CancellableState} {result : Option (Option T)} {dropped : Bool}

/-- By the drop, each future has been dropped once. -/
theorem Story.drops (story : Story state result true log) :
    log.countP Event.dropsMain = 1 ∧ log.countP Event.dropsCleanup = 1 := by
  generalize done : true = dropped at story
  cases story with
  | running => cases done
  | cleaning => cases done
  | finished _ _ waiting | stoppedRunning waiting =>
      simp [List.countP_cons, waiting.drops, Event.dropsMain, Event.dropsCleanup]
  | cleaned _ waiting cleaning | stoppedCleaning waiting cleaning _ =>
      simp [List.countP_cons, waiting.drops, cleaning.drops, Event.dropsMain,
        Event.dropsCleanup]

/-- Cleanup was polled, now that it is waited for. -/
theorem Cleaning.polled (cleaning : Cleaning back) (some : back ≠ []) :
    .pollCleanup false ∈ back := by
  obtain ⟨e, member⟩ := List.exists_mem_of_ne_nil back some
  exact cleaning e member ▸ member

/-- Cleanup is polled if a cancellation was taken. -/
theorem Story.polled_iff (story : Story state result dropped log) :
    (∃ ready, .pollCleanup ready ∈ log) ↔ .take true ∈ log := by
  cases story with
  | running waiting => simp [waiting.absent]
  | finished value _ waiting => simp [waiting.absent]
  | stoppedRunning waiting => simp [waiting.absent]
  | cleaning _ cleaning some | stoppedCleaning _ cleaning some =>
      refine iff_of_true ⟨false, ?_⟩ ?_
      · simp [cleaning.polled some]
      · simp
  | cleaned => exact iff_of_true ⟨true, by simp⟩ (by simp)

/-- The result is main's value exactly if main was `Ready` with it. -/
theorem Story.value_iff (story : Story state result dropped log) (value : T) :
    result = some (some value) ↔ ∃ before after, log = before ++ .pollMain (some value) :: after ∧
      .take true ∉ before := by
  have ordered := story.orderly
  constructor
  · rintro rfl
    cases story with
    | @finished front _ _ waiting =>
        refine ⟨front ++ [.take false], [.dropMain, .dropCleanup], by simp, ?_⟩
        simp [waiting.absent]
  · rintro ⟨before, after, split, -⟩
    have member : .pollMain (some value) ∈ log := split ▸ by simp
    cases story with
    | running waiting => simp [waiting.absent] at member
    | cleaning waiting cleaning _ => simp [waiting.absent, cleaning.absent] at member
    | finished value' _ waiting =>
        simp [waiting.absent] at member
        rw [member]
    | cleaned _ waiting cleaning => simp [waiting.absent, cleaning.absent] at member
    | stoppedRunning waiting => simp [waiting.absent] at member
    | stoppedCleaning waiting cleaning _ => simp [waiting.absent, cleaning.absent] at member

/-- The result is `None` exactly if a cancellation was taken and cleanup was `Ready`. -/
theorem Story.none_iff (story : Story state result dropped log) :
    result = some none ↔ .take true ∈ log ∧ .pollCleanup true ∈ log := by
  cases story with
  | running waiting => simp [waiting.absent]
  | cleaning waiting cleaning _ => simp [waiting.absent, cleaning.absent]
  | finished value _ waiting => simp [waiting.absent]
  | cleaned => simp
  | stoppedRunning waiting => simp [waiting.absent]
  | stoppedCleaning waiting cleaning _ => simp [waiting.absent, cleaning.absent]

end Told

end Order

/-- Whatever the two futures and `take_cancellation_request` answer, and whenever the
`Cancellable` is dropped: its log has their answers and is in order, each future has been
dropped once by then, cleanup is polled exactly if a cancellation was taken, the result is
main's value or, after a cancellation, that of the cleanup, and a poll that is still allowed
ends by its second turn. -/
theorem try_finally_sound (env : Env T) {s : State T} (reached : (system env).Reachable s) :
    Answered env s.cancellable ∧ Orderly s.cancellable.log ∧
      (s.dropped = true → s.cancellable.log.countP Event.dropsMain = 1 ∧
        s.cancellable.log.countP Event.dropsCleanup = 1) ∧
      ((∃ ready, .pollCleanup ready ∈ s.cancellable.log) ↔ .take true ∈ s.cancellable.log) ∧
      (∀ value, s.result = some (some value) ↔ ∃ before after,
        s.cancellable.log = before ++ .pollMain (some value) :: after ∧ .take true ∉ before) ∧
      (s.result = some none ↔
        .take true ∈ s.cancellable.log ∧ .pollCleanup true ∈ s.cancellable.log) ∧
      (s.result = none → s.dropped = false → ∃ c ended,
        (∀ n, s.cancellable.poll env (n + 2) = some (c, ended)) ∧ ended ≠ .panicked) := by
  have story := story_of_reach reached
  refine ⟨answered_of_reach reached, story.orderly, fun done => ?_, story.polled_iff,
    story.value_iff, story.none_iff, fun unfinished here => ?_⟩
  · rw [done] at story
    exact story.drops
  · rw [unfinished, here] at story
    obtain ⟨c, ended, polled, sound, -⟩ := story.poll env
    exact ⟨c, ended, polled, sound⟩

/-- Main is pending once, a cancellation is taken at the second poll, cleanup is pending once,
and the `Cancellable` is dropped after its third poll. -/
theorem try_finally_sound_cancelled :
    ∃ s, (system (T := Nat) ⟨fun _ => none, fun k => k == 1, fun k => k == 1⟩).Reachable s ∧
      (s.result = some none ∧ s.dropped = true) ∧ Orderly s.cancellable.log ∧
      (s.dropped = true → s.cancellable.log.countP Event.dropsMain = 1 ∧
        s.cancellable.log.countP Event.dropsCleanup = 1) ∧
      ((∃ ready, .pollCleanup ready ∈ s.cancellable.log) ↔ .take true ∈ s.cancellable.log) := by
  obtain ⟨s, reached, done⟩ := Sys.Reach.exists_of_exec
    (S := system (T := Nat) ⟨fun _ => none, fun k => k == 1, fun k => k == 1⟩)
    (fun s => s.result = some none ∧ s.dropped = true) [.poll, .poll, .poll, .drop]
    (.start rfl) (by decide)
  obtain ⟨-, orderly, drops, polled, -⟩ := try_finally_sound _ reached
  exact ⟨s, reached, done, orderly, drops, polled⟩

/-! ## The future of an async method -/

section Method

variable {ρ ρ' M C : Type} {main : Method.Fut ρ M T} {cleanup : Method.Fut ρ' C Unit}
  {answer : ρ} {answer' : ρ'} {requested requested' : Nat} {m next : Method.Cancellable M C}
  {events : List Method.Event} {ready : Option (Option T)} {env : Env T} {c : Cancellable T}

/-- The branch `RunningCleanup`. -/
theorem turn_pollCleanup (state : c.state = .runningCleanup) (same : m.state = .runningCleanup)
    (cleanupAnswer : ∀ polled, cleanup.poll answer' m.cleanup = some polled →
      env.cleanup c.cleanupPolls = polled.2.2.isSome)
    (polled : m.pollCleanup cleanup answer' = some (events, next, ready)) :
    (c.turn env).2 ≠ .again ∧ (c.turn env).1.state = next.state ∧
      (c.turn env).2.result = ready ∧ (c.turn env).2 ≠ .panicked := by
  obtain ⟨⟨done, k, returned⟩, first, rest⟩ := Option.bind_eq_some_iff.mp polled
  have answered := cleanupAnswer _ first
  cases returned with
  | none =>
      cases rest
      simp only [Option.isSome_none] at answered
      simp [Cancellable.turn, state, answered, same, Turn.result]
  | some done' =>
      cases rest
      simp only [Option.isSome_some] at answered
      simp [Cancellable.turn, state, answered, Turn.result]

/-- A poll of the `Cancellable` that holds the future of a method is the loop, with what that
future, the cleanup and `cancel_requested` answer. -/
theorem poll_method (same : c.state = m.state)
    (take : env.take c.takes = decide (requested = 1))
    (mainAnswer : ∀ polled, main.poll answer m.main = some polled →
      env.main c.mainPolls = polled.2.2)
    (cleanupAnswer : ∀ polled, cleanup.poll answer' m.cleanup = some polled →
      env.cleanup c.cleanupPolls = polled.2.2.isSome)
    (polled : m.poll main cleanup answer answer' requested =
      some (events, next, ready, requested')) :
    ∃ c' ended, (∀ n, c.poll env (n + 2) = some (c', ended)) ∧ c'.state = next.state ∧
      ended.result = ready ∧ ended ≠ .panicked := by
  unfold Method.Cancellable.poll at polled
  cases state : m.state with
  | runningMain =>
      rw [state] at same polled
      simp only at polled
      split at polled
      · next taken =>
          obtain ⟨⟨done, n, r⟩, cleaned, rest⟩ := Option.bind_eq_some_iff.mp polled
          cases rest
          rw [decide_eq_true taken] at take
          have first := Cancellable.turn_taken same take
          have next : (c.turn env).1.state = .runningCleanup := by rw [first]
          have asked : (c.turn env).1.cleanupPolls = c.cleanupPolls := by rw [first]
          obtain ⟨ended, agrees⟩ := turn_pollCleanup next rfl (asked.symm ▸ cleanupAnswer) cleaned
          refine ⟨_, _, fun n => ?_, agrees⟩
          rw [Cancellable.poll_of_again (by rw [first]), Cancellable.poll_of_ended ended]
      · next idle =>
          rw [decide_eq_false idle] at take
          obtain ⟨⟨done, n, r⟩, first, rest⟩ := Option.bind_eq_some_iff.mp polled
          have answered := mainAnswer _ first
          cases r with
          | none =>
              cases rest
              refine ⟨_, _, fun n => Cancellable.poll_of_ended ?_, ?_⟩ <;>
                simp [Cancellable.turn, same, take, answered, Turn.result]
          | some value =>
              cases rest
              refine ⟨_, _, fun n => Cancellable.poll_of_ended ?_, ?_⟩ <;>
                simp [Cancellable.turn, same, take, answered, Turn.result]
  | runningCleanup =>
      rw [state] at same polled
      obtain ⟨⟨done, n, r⟩, cleaned, rest⟩ := Option.bind_eq_some_iff.mp polled
      cases rest
      obtain ⟨ended, agrees⟩ := turn_pollCleanup same state cleanupAnswer cleaned
      exact ⟨_, _, fun n => Cancellable.poll_of_ended ended, agrees⟩
  | done =>
      rw [state] at polled
      cases polled

end Method

end Kcom.Async.TryFinally
