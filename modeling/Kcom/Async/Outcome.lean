import Kcom.Async.Operation
import Kcom.Executor.Dpc.Model

/-!
# The outcome of an operation is final

The task of an operation is one `Cancellable` (`src/task.rs`) whose cleanup is `async {}`.
A poll of it first calls `take_cancellation_request`; if that returns true the future is
dropped and the outcome is `Canceled`, else the future is polled, and if it is ready the
outcome is `Completed`. The request may be made at any time by another thread, and code in
the future may take it before the `Cancellable` sees it.

Here these steps of a poll stand beside the operation (`Kcom/Async/Operation.lean`), whose
stores and calls they interleave with. Dropping the future that is no longer needed touches
neither. The executor polls the task exclusively, and drops it when it does not poll it.
-/

namespace Kcom.Async

open Com (NtStatus statusSuccess)
open Conc

/-- Where the executor is in `Cancellable::poll`: outside, about to call
`take_cancellation_request`, in the future, or in the cleanup. -/
inductive Poll
  | outside
  | take
  | main
  | cleanup
  deriving DecidableEq, Repr

/-- An operation and the polls of its task. -/
structure Outcome (T : Type) where
  operation : State T
  /-- `cancel_requested` of the task. -/
  cancelRequested : Dpc.Cancel
  poll : Poll
  /-- The call of `take_cancellation_request` by `Cancellable::poll` has returned true. -/
  took : Bool

namespace Outcome

inductive Label (T : Type)
  /-- `CancelHandle::cancel`, by any thread. -/
  | cancel
  /-- The executor polls the task. -/
  | poll
  | take
  /-- Code in the future calls `take_cancellation_request`. -/
  | takeInside
  | answer (ready : Option T)
  | cleanup
  /-- The rest of the task's body, its drop, and the clients. -/
  | operation (a : Action T)

variable {T : Type}

/-- `compare_exchange(1, 2)` on `cancel_requested`. -/
def acknowledge (s : Outcome T) : Outcome T :=
  if s.cancelRequested = .requested then { s with cancelRequested := .acknowledged } else s

/-- A step of the operation. -/
def lift (s : Outcome T) (a : Action T) : Option (Outcome T) :=
  (s.operation.step a).map fun o => { s with operation := o }

def step (s : Outcome T) : Label T → Option (Outcome T)
  | .cancel =>
      some (if s.cancelRequested = .idle then { s with cancelRequested := .requested } else s)
  | .poll =>
      match s.poll, s.operation.task with
      | .outside, .suspended => some { s with poll := .take }
      | _, _ => none
  | .take =>
      if s.poll = .take then
        if s.cancelRequested = .requested then
          some { s.acknowledge with poll := .cleanup, took := true }
        else some { s with poll := .main }
      else none
  | .takeInside => if s.poll = .main then some s.acknowledge else none
  | .answer ready =>
      if s.poll = .main then { s with poll := .outside }.lift (.poll ready) else none
  | .cleanup => if s.poll = .cleanup then { s with poll := .outside }.lift .cancel else none
  | .operation (.poll _) => none
  | .operation .cancel => none
  | .operation .dropTask => if s.poll = .outside then s.lift .dropTask else none
  | .operation a => s.lift a

/-- `get_status` of a call made now. -/
def status (s : Outcome T) : AsyncStatus :=
  s.operation.memory.loadStatus

/-- No poll of the task is under way. -/
def Resting (s : Outcome T) : Prop :=
  s.poll = .outside ∧ ∀ store rest, s.operation.task ≠ .storing (store :: rest)

/-- The steps that the task makes without its future. -/
def Label.isOwn : Label T → Bool
  | .cleanup => true
  | .operation .store => true
  | _ => false

end Outcome

/-- The runs of an operation with the polls of its task. -/
def outcome (T : Type) (origin : Origin) : Sys (Outcome T) (Outcome.Label T) where
  start s := s = ⟨origin.state, .idle, .outside, false⟩
  step := Outcome.step

namespace Outcome

variable {T : Type} {origin : Origin} {s s' : Outcome T} {a : Label T} {m : Memory T}

/-! ## What a step can do -/

/-- What a step changes, and where the operation is when it is taken. -/
inductive Moves (s : Outcome T) : Label T → Outcome T → Prop
  | cancel (c : Dpc.Cancel) : Moves s .cancel { s with cancelRequested := c }
  | poll (outside : s.poll = .outside) (suspended : s.operation.task = .suspended) :
      Moves s .poll { s with poll := .take }
  | take (here : s.poll = .take) (requested : s.cancelRequested = .requested) :
      Moves s .take { s with cancelRequested := .acknowledged, poll := .cleanup, took := true }
  | main (here : s.poll = .take) (free : s.cancelRequested ≠ .requested) :
      Moves s .take { s with poll := .main }
  | takeInside (c : Dpc.Cancel) : Moves s .takeInside { s with cancelRequested := c }
  | pending (here : s.poll = .main) (suspended : s.operation.task = .suspended) :
      Moves s (.answer none) { s with poll := .outside }
  | ready (here : s.poll = .main) (suspended : s.operation.task = .suspended) (value : T) :
      Moves s (.answer (some value)) { s with
        poll := .outside
        operation := { s.operation with
          task := .storing (storeResult value), output := some value } }
  | cleanup (here : s.poll = .cleanup) (suspended : s.operation.task = .suspended) :
      Moves s .cleanup { s with
        poll := .outside
        operation := { s.operation with task := .storing storeCanceled } }
  | store {store : Store T} {rest : List (Store T)}
      (storing : s.operation.task = .storing (store :: rest)) :
      Moves s (.operation .store) { s with
        operation := { s.operation with
          memory := s.operation.memory.store store, task := .storing rest } }
  | drop (outside : s.poll = .outside)
      (idle : s.operation.task = .suspended ∨ s.operation.task = .storing []) :
      Moves s (.operation .dropTask) { s with operation := { s.operation with task := .dropped } }
  | getStatus : Moves s (.operation .callStatus) { s with
      operation := { s.operation with calls := s.operation.calls ++ [.getStatus] } }
  | getResult : Moves s (.operation .callResult) { s with
      operation := { s.operation with calls := s.operation.calls ++ [.getResult] } }
  | access {i : Nat} {call call' : Call T} (found : s.operation.calls[i]? = some call)
      (next : call.next s.operation.memory = some call') :
      Moves s (.operation (.run i)) { s with
        operation := { s.operation with calls := s.operation.calls.set i call' } }

theorem moves_of_step (next : s.step a = some s') : s.Moves a s' := by
  cases a with
  | cancel =>
      simp only [step, Option.some.injEq] at next
      split at next <;> subst next
      · exact .cancel .requested
      · exact .cancel s.cancelRequested
  | poll =>
      simp only [step] at next
      split at next <;> cases next
      exact .poll ‹_› ‹_›
  | take =>
      simp only [step] at next
      split at next
      · split at next <;> cases next
        · next requested =>
            simp only [acknowledge, requested, if_true]
            exact .take ‹_› requested
        · exact .main ‹_› ‹_›
      · cases next
  | takeInside =>
      simp only [step] at next
      split at next <;> cases next
      unfold acknowledge
      split
      · exact .takeInside .acknowledged
      · exact .takeInside s.cancelRequested
  | answer ready =>
      simp only [step, lift] at next
      split at next
      · obtain ⟨o, moved, rfl⟩ := Option.map_eq_some_iff.mp next
        cases ready <;> simp only [State.step] at moved <;> split at moved <;> cases moved
        · exact .pending ‹_› ‹_›
        · exact .ready ‹_› ‹_› _
      · cases next
  | cleanup =>
      simp only [step, lift] at next
      split at next
      · obtain ⟨o, moved, rfl⟩ := Option.map_eq_some_iff.mp next
        simp only [State.step] at moved
        split at moved <;> cases moved
        exact .cleanup ‹_› ‹_›
      · cases next
  | operation a =>
      cases a with
      | poll | cancel => cases next
      | dropTask =>
          simp only [step, lift] at next
          split at next
          · obtain ⟨o, moved, rfl⟩ := Option.map_eq_some_iff.mp next
            simp only [State.step] at moved
            split at moved <;> cases moved
            · exact .drop ‹_› (.inl ‹_›)
            · exact .drop ‹_› (.inr ‹_›)
          · cases next
      | store =>
          obtain ⟨o, moved, rfl⟩ := Option.map_eq_some_iff.mp next
          simp only [State.step] at moved
          split at moved <;> cases moved
          exact .store ‹_›
      | callStatus =>
          cases next
          exact .getStatus
      | callResult =>
          cases next
          exact .getResult
      | run i =>
          obtain ⟨o, moved, rfl⟩ := Option.map_eq_some_iff.mp next
          obtain ⟨call, found, moved⟩ := Option.bind_eq_some_iff.mp moved
          obtain ⟨call', moved', moved⟩ := Option.bind_eq_some_iff.mp moved
          cases moved
          exact .access found moved'

/-- The polls refine the operation, which chooses freely between an answer and a
cancellation. -/
theorem Moves.operation (moves : s.Moves a s') :
    s'.operation = s.operation ∨ s.operation.Moves s'.operation := by
  cases moves with
  | cancel | poll | take | main | takeInside | pending => exact .inl rfl
  | ready here suspended value => exact .inr (.ready suspended value)
  | cleanup here suspended => exact .inr (.cancel suspended)
  | store storing => exact .inr (.store storing)
  | drop outside idle => exact .inr (.drop idle)
  | getStatus => exact .inr (.call (.inl rfl))
  | getResult => exact .inr (.call (.inr rfl))
  | access found next => exact .inr (.access (List.mem_of_getElem? found) next)

/-- A step of a poll, of the stores or of the drop leaves the calls of clients alone. -/
theorem Moves.calls (moves : s.Moves a s')
    (own : ∀ b, a = .operation b → b = .store ∨ b = .dropTask) :
    s'.operation.calls = s.operation.calls := by
  cases moves with
  | getStatus | getResult | access =>
      rcases own _ rfl with other | other <;> cases other
  | _ => rfl

/-- A task that is not polled moves only when it is polled or dropped. -/
theorem Moves.still (moves : s.Moves a s') (suspended : s.operation.task = .suspended)
    (outside : s.poll = .outside) (unpolled : a ≠ .poll) (undropped : a ≠ .operation .dropTask) :
    s'.operation.task = .suspended ∧ s'.poll = .outside := by
  cases moves with
  | cancel | takeInside | getStatus | getResult | access => exact ⟨suspended, outside⟩
  | poll => exact absurd rfl unpolled
  | drop => exact absurd rfl undropped
  | take here | main here | pending here | ready here | cleanup here =>
      rw [here] at outside
      cases outside
  | store storing =>
      rw [storing] at suspended
      cases suspended

/-! ## What has been decided -/

/-- The memory `m` holds the outcome that the polls have decided: whether the request was
taken, and what the future returned. -/
inductive Decided (origin : Origin) (took : Bool) (output : Option T) (m : Memory T) : Prop
  | completed (value : T) (status : m.loadStatus = .completed) (free : took = false)
      (ready : output = some value) (result : m.result = some value)
  | canceled (status : m.loadStatus = .canceled) (taken : took = true) (silent : output = none)
  | error (status : m.loadStatus = .error) (free : took = false) (silent : output = none)
      (made : ∃ e, origin = .error e)

/-- A request that was taken leaves `Canceled` behind. -/
theorem Decided.status_of_taken {output : Option T} (decided : Decided origin true output m) :
    m.loadStatus = .canceled := by
  cases decided with
  | completed value status free => cases free
  | canceled status => exact status
  | error status free => cases free

/-- A future that was ready leaves `Completed` behind. -/
theorem Decided.status_of_ready {took : Bool} {value : T}
    (decided : Decided origin took (some value) m) : m.loadStatus = .completed := by
  cases decided with
  | completed value' status => exact status
  | canceled status taken silent => cases silent
  | error status free silent => cases silent

theorem Decided.taken_of_status {took : Bool} {output : Option T}
    (decided : Decided origin took output m) (status : m.loadStatus = .canceled) :
    took = true := by
  cases decided with
  | completed value other => cases status.symm.trans other
  | canceled other taken => exact taken
  | error other => cases status.symm.trans other

theorem Decided.ready_of_status {took : Bool} {output : Option T}
    (decided : Decided origin took output m) (status : m.loadStatus = .completed) :
    ∃ value, m.result = some value ∧ output = some value := by
  cases decided with
  | completed value other free ready result => exact ⟨value, result, ready⟩
  | canceled other => cases status.symm.trans other
  | error other => cases status.symm.trans other

theorem Decided.silent_of_taken {took : Bool} {output : Option T}
    (decided : Decided origin took output m) (taken : took = true) : output = none := by
  cases decided with
  | completed value status free =>
      rw [free] at taken
      cases taken
  | canceled status taken silent => exact silent
  | error status free silent => exact silent

/-- Where the task is, and what has been decided by then. -/
def Fits (origin : Origin) (s : Outcome T) : Prop :=
  match s.operation.task with
  | .suspended =>
      s.status = .started ∧ s.operation.output = none ∧ (s.took = true ↔ s.poll = .cleanup)
  | .storing rest =>
      s.poll = .outside ∧
        Decided origin s.took s.operation.output (rest.foldl Memory.store s.operation.memory)
  | .dropped =>
      s.poll = .outside ∧ (s.status = .started ∧ s.operation.output = none ∧ s.took = false ∨
        Decided origin s.took s.operation.output s.operation.memory)

theorem fits_initial : Fits origin (⟨origin.state, .idle, .outside, false⟩ : Outcome T) := by
  cases origin with
  | spawned => exact ⟨rfl, rfl, by simp⟩
  | error e => exact ⟨rfl, .inr (.error rfl rfl rfl ⟨e, rfl⟩)⟩

theorem Fits.run (fits : s.Fits origin) (moves : s.Moves a s') : s'.Fits origin := by
  unfold Fits at fits
  cases moves with
  | cancel | takeInside | getStatus | getResult | access => exact fits
  | poll outside suspended =>
      rw [suspended] at fits
      obtain ⟨started, output, took⟩ := fits
      rw [outside] at took
      simp only [Fits, suspended]
      exact ⟨started, output, iff_of_false (fun taken => nomatch took.mp taken) nofun⟩
  | take here requested =>
      split at fits
      · next suspended =>
          simp only [Fits, suspended]
          exact ⟨fits.1, fits.2.1, trivial⟩
      · rw [here] at fits
        cases fits.1
      · rw [here] at fits
        cases fits.1
  | main here free =>
      split at fits
      · next suspended =>
          obtain ⟨started, output, took⟩ := fits
          rw [here] at took
          simp only [Fits, suspended]
          exact ⟨started, output, iff_of_false (fun taken => nomatch took.mp taken) nofun⟩
      · rw [here] at fits
        cases fits.1
      · rw [here] at fits
        cases fits.1
  | pending here suspended =>
      rw [suspended] at fits
      obtain ⟨started, output, took⟩ := fits
      rw [here] at took
      simp only [Fits, suspended]
      exact ⟨started, output, iff_of_false (fun taken => nomatch took.mp taken) nofun⟩
  | ready here suspended value =>
      rw [suspended] at fits
      obtain ⟨-, -, took⟩ := fits
      rw [here] at took
      have free : s.took = false := Bool.eq_false_iff.mpr fun taken => nomatch took.mp taken
      exact ⟨rfl, .completed value rfl free rfl rfl⟩
  | cleanup here suspended =>
      rw [suspended] at fits
      obtain ⟨-, output, took⟩ := fits
      exact ⟨rfl, .canceled rfl (took.mpr here) output⟩
  | store storing =>
      rw [storing] at fits
      exact fits
  | drop outside idle =>
      refine ⟨outside, ?_⟩
      rcases idle with suspended | stored
      · rw [suspended] at fits
        obtain ⟨started, output, took⟩ := fits
        rw [outside] at took
        exact .inl ⟨started, output, Bool.eq_false_iff.mpr fun taken => nomatch took.mp taken⟩
      · rw [stored] at fits
        exact .inr fits.2

/-! ## The calls -/

/-- What a `get_result` made now returns. -/
def report (m : Memory T) : Report T :=
  match m.loadStatus with
  | .completed => ⟨.completed, statusSuccess, some m.result⟩
  | .started => ⟨.started, statusPending, none⟩
  | seen => ⟨seen, m.error, none⟩

/-- A call that has seen a status other than `Started` has seen the one there is now, and
reports what is there now. -/
def Agrees (m : Memory T) : Call T → Prop
  | .getStatus => True
  | .getResult => True
  | .reading => m.loadStatus = .completed
  | .failing seen => m.loadStatus = seen ∧ (seen = .canceled ∨ seen = .error)
  | .status seen => seen ≠ .started → m.loadStatus = seen
  | .result r => r.seen ≠ .started → m.loadStatus = r.seen ∧ r = report m

theorem Agrees.later {m' : Memory T} {call : Call T} (agrees : Agrees m call)
    (final : m.loadStatus ≠ .started → m' = m) : Agrees m' call := by
  cases call with
  | getStatus | getResult => trivial
  | reading =>
      have completed : m.loadStatus = .completed := agrees
      rw [final (by rw [completed]; nofun)]
      exact agrees
  | failing seen =>
      obtain ⟨same, failed⟩ := agrees
      rw [final (by rw [same]; rcases failed with rfl | rfl <;> nofun)]
      exact ⟨same, failed⟩
  | status seen =>
      intro ended
      have same := agrees ended
      rw [final (by rwa [same])]
      exact same
  | result r =>
      intro ended
      obtain ⟨same, equal⟩ := agrees ended
      rw [final (by rwa [same])]
      exact ⟨same, equal⟩

theorem Agrees.next {call call' : Call T} (agrees : Agrees m call)
    (moved : call.next m = some call') : Agrees m call' := by
  cases call with
  | getStatus =>
      cases moved
      exact fun _ => rfl
  | getResult =>
      simp only [Call.next] at moved
      split at moved <;> cases moved
      · assumption
      · exact fun ended => absurd rfl ended
      · exact ⟨‹_›, .inl rfl⟩
      · exact ⟨‹_›, .inr rfl⟩
  | reading =>
      cases moved
      have completed : m.loadStatus = .completed := agrees
      intro _
      refine ⟨completed, ?_⟩
      simp [report, completed]
  | failing seen =>
      cases moved
      obtain ⟨same, failed⟩ := agrees
      intro _
      refine ⟨same, ?_⟩
      rcases failed with rfl | rfl <;> simp [report, same]
  | status seen => cases moved
  | result r => cases moved

/-! ## Whole runs -/

/-- What holds in every state of every run. -/
structure Inv (origin : Origin) (s : Outcome T) : Prop where
  fits : s.Fits origin
  operation : s.operation.Fits origin
  calls : ∀ call ∈ s.operation.calls, Agrees s.operation.memory call

theorem Inv.initial : Inv origin (⟨origin.state, .idle, .outside, false⟩ : Outcome T) where
  fits := fits_initial
  operation := fits_start
  calls := by cases origin <;> exact fun call mem => absurd mem List.not_mem_nil

/-- A status that is not `Started` stays, with everything that was stored. -/
theorem Inv.still (inv : s.Inv origin) (moves : s.Moves a s') (final : s.status ≠ .started) :
    s'.operation.memory = s.operation.memory := by
  rcases moves.operation with same | moves
  · rw [same]
  · exact ((fits_of_moves inv.operation moves).2 final).1

theorem Inv.run (inv : s.Inv origin) (moves : s.Moves a s') : s'.Inv origin := by
  have old : ∀ call ∈ s.operation.calls, Agrees s'.operation.memory call :=
    fun call mem => (inv.calls call mem).later (inv.still moves)
  refine ⟨inv.fits.run moves, ?_, ?_⟩
  · rcases moves.operation with same | moves
    · rw [same]
      exact inv.operation
    · exact (fits_of_moves inv.operation moves).1
  · cases moves with
    | getStatus | getResult =>
        intro call mem
        rcases List.mem_append.mp mem with mem | mem
        · exact old call mem
        · rw [List.mem_singleton.mp mem]
          trivial
    | access found next =>
        intro other mem
        rcases List.mem_or_eq_of_mem_set mem with mem | rfl
        · exact old other mem
        · exact (inv.calls _ (List.mem_of_getElem? found)).next next
    | _ => exact old

theorem inv_of_reachable (reached : (outcome T origin).Reachable s) : s.Inv origin := by
  refine reached.invariant ?_ ?_
  · rintro _ rfl
    exact .initial
  · intro s a s' inv _ next
    exact inv.run (moves_of_step next)

/-- Only a `Ready` of the future sets the output. -/
theorem Inv.output (inv : s.Inv origin) (moves : s.Moves a s') (value : T) :
    s'.operation.output = some value ↔
      s.operation.output = some value ∨ a = .answer (some value) := by
  cases moves with
  | ready here suspended value' =>
      have fits := inv.fits
      unfold Fits at fits
      rw [suspended] at fits
      obtain ⟨-, silent, -⟩ := fits
      simp [silent]
  | _ => simp

/-- On a run the output is what the future was `Ready` with. -/
theorem Inv.answers {as : List (Label T)} (inv : s.Inv origin)
    (run : (outcome T origin).exec s as = some s') (value : T) :
    s'.operation.output = some value ↔
      s.operation.output = some value ∨ .answer (some value) ∈ as := by
  induction as generalizing s with
  | nil =>
      cases run
      simp
  | cons a rest ih =>
      obtain ⟨next, step, rest⟩ := Option.bind_eq_some_iff.mp run
      have moves : s.Moves a next := moves_of_step step
      rw [ih (inv.run moves) rest, inv.output moves value, List.mem_cons, or_assoc,
        eq_comm (a := a)]

/-- A status that is not `Started` is what the polls have decided. -/
theorem Inv.decided (inv : s.Inv origin) (final : s.status ≠ .started) :
    Decided origin s.took s.operation.output s.operation.memory := by
  have fits := inv.fits
  have early := inv.operation
  unfold Fits at fits
  unfold State.Fits at early
  split at fits
  · exact absurd fits.1 final
  · next rest storing =>
      rw [storing] at early
      cases rest with
      | nil => exact fits.2
      | cons store rest => exact absurd (early.2.1 (List.cons_ne_nil _ _)) final
  · rcases fits.2 with ⟨started, -⟩ | decided
    · exact absurd started final
    · exact decided

/-- A status that is not `Started` is there in every later state. -/
theorem Inv.later (inv : s.Inv origin) (final : s.status ≠ .started)
    (later : ((outcome T origin).resume s).Reachable s') :
    s'.operation.memory = s.operation.memory := by
  refine (later.invariant (I := fun s' => s'.Inv origin ∧
    s'.operation.memory = s.operation.memory) ?_ ?_).2
  · rintro _ rfl
    exact ⟨inv, rfl⟩
  · rintro s₁ a s₂ ⟨inv₁, same⟩ - next
    have moves : s₁.Moves a s₂ := moves_of_step next
    refine ⟨inv₁.run moves, ?_⟩
    have ended : s₁.status ≠ .started := by
      rw [status, same]
      exact final
    rw [inv₁.still moves ended, same]

/-- The task can make its stores one after the other. -/
theorem exec_stores {rest : List (Store T)} (storing : s.operation.task = .storing rest) :
    (outcome T origin).exec s (List.replicate rest.length (.operation .store)) =
      some { s with operation := { s.operation with
        memory := rest.foldl Memory.store s.operation.memory, task := .storing [] } } := by
  induction rest generalizing s with
  | nil =>
      rw [List.length_nil, List.replicate_zero, Sys.exec, List.foldl_nil, ← storing]
  | cons store rest ih =>
      have first : (outcome T origin).step s (.operation .store) = some { s with
          operation := { s.operation with
            memory := s.operation.memory.store store, task := .storing rest } } := by
        simp only [outcome, step, lift, State.step, storing, Option.map_some]
      rw [List.length_cons, List.replicate_succ, Sys.exec, first, Option.bind_some, ih rfl]
      rfl

/-- Nothing has been decided while the request is not taken and the future not ready. -/
theorem undecided (silent : s.operation.output = none) (free : s.took = false) :
    ¬(s.took = true ∨ ∃ value, s.operation.output = some value) := by
  rintro (taken | ⟨value, ready⟩)
  · rw [free] at taken
    cases taken
  · rw [silent] at ready
    cases ready

/-- What has been decided is stored by steps that the task makes on its own. -/
theorem Inv.proceeds (inv : s.Inv origin)
    (decided : s.took = true ∨ ∃ value, s.operation.output = some value) :
    ∃ as s', (∀ a ∈ as, a.isOwn = true) ∧ (outcome T origin).exec s as = some s' ∧
      s'.took = s.took ∧ s'.operation.output = s.operation.output ∧
      Decided origin s.took s.operation.output s'.operation.memory := by
  have fits := inv.fits
  have own : ∀ (n : Nat), ∀ a ∈ List.replicate n (Label.operation (.store : Action T)),
      a.isOwn = true := by
    intro n a mem
    rw [List.eq_of_mem_replicate mem]
    rfl
  unfold Fits at fits
  split at fits
  · next suspended =>
      obtain ⟨-, output, took⟩ := fits
      have taken : s.took = true := by
        by_contra free
        exact undecided output (Bool.eq_false_iff.mpr free) decided
      let s₁ : Outcome T := { s with
        poll := .outside
        operation := { s.operation with task := .storing storeCanceled } }
      have first : (outcome T origin).step s .cleanup = some s₁ := by
        simp only [outcome, step, took.mp taken, if_true, lift, State.step, suspended,
          Option.map_some, s₁]
      have stored : s₁.operation.task = .storing storeCanceled := rfl
      have stores (n : Nat) : (outcome T origin).exec s
          (.cleanup :: List.replicate n (.operation .store)) =
            (outcome T origin).exec s₁ (List.replicate n (.operation .store)) := by
        rw [Sys.exec, first, Option.bind_some]
      exact ⟨_, _, List.forall_mem_cons.mpr ⟨rfl, own _⟩, (stores _).trans (exec_stores stored),
        rfl, rfl, .canceled rfl taken output⟩
  · next rest storing =>
      exact ⟨_, _, own _, exec_stores storing, rfl, rfl, fits.2⟩
  · rcases fits.2 with ⟨-, output, free⟩ | done
    · exact absurd decided (undecided output free)
    · exact ⟨[], s, fun a mem => absurd mem List.not_mem_nil, rfl, rfl, rfl, done⟩

/-- The status other than `Started` that a call has seen. -/
def seen : Call T → Option AsyncStatus
  | .status seen => if seen = .started then none else some seen
  | .result r => if r.seen = .started then none else some r.seen
  | _ => none

/-- An operation whose outcome is final. -/
structure Final (origin : Origin) (s : Outcome T) : Prop where
  status : s.status = .started ∨ s.status = .completed ∨ s.status = .canceled ∨
    s.status = .error ∧ ∃ e, origin = .error e
  stays : s.status ≠ .started → ∀ s', ((outcome T origin).resume s).Reachable s' →
    s'.status = s.status
  /-- The output is what the future was `Ready` with, in whatever run. -/
  answers : ∀ s₀ as, (outcome T origin).start s₀ → (outcome T origin).exec s₀ as = some s →
    ∀ value, s.operation.output = some value ↔ .answer (some value) ∈ as
  /-- The request was taken before the future returned `Ready`, or not at all. -/
  either : s.took = true → s.operation.output = none
  canceled : s.status = .canceled → s.took = true
  completed : s.status = .completed → ∃ value, s.operation.output = some value
  becomesCanceled : s.took = true →
    (s.Resting → s.status = .canceled) ∧ ∃ as s', (∀ a ∈ as, a.isOwn = true) ∧
      (outcome T origin).exec s as = some s' ∧ s'.status = .canceled
  becomesCompleted : (∃ value, s.operation.output = some value) →
    (s.Resting → s.status = .completed) ∧ ∃ as s', (∀ a ∈ as, a.isOwn = true) ∧
      (outcome T origin).exec s as = some s' ∧ s'.status = .completed
  /-- A `get_result` that is about to read the slot finds the value there. -/
  written : .reading ∈ s.operation.calls →
    ∃ value, s.operation.memory.result = some value ∧ s.operation.output = some value
  statuses : ∀ call ∈ s.operation.calls, ∀ final, seen call = some final → s.status = final
  results : ∀ r r', .result r ∈ s.operation.calls → .result r' ∈ s.operation.calls →
    r.seen ≠ .started → r'.seen ≠ .started → r = r'

theorem Inv.either (inv : s.Inv origin) (taken : s.took = true) : s.operation.output = none := by
  have fits := inv.fits
  unfold Fits at fits
  split at fits
  · exact fits.2.1
  · exact fits.2.silent_of_taken taken
  · rcases fits.2 with ⟨-, output, -⟩ | done
    · exact output
    · exact done.silent_of_taken taken

/-- Between two polls nothing is left to store. -/
theorem Inv.rests (inv : s.Inv origin) (resting : s.Resting)
    (decided : s.took = true ∨ ∃ value, s.operation.output = some value) :
    Decided origin s.took s.operation.output s.operation.memory := by
  have fits := inv.fits
  obtain ⟨outside, idle⟩ := resting
  unfold Fits at fits
  split at fits
  · obtain ⟨-, output, took⟩ := fits
    rw [outside] at took
    have free : s.took = false := Bool.eq_false_iff.mpr fun taken => nomatch took.mp taken
    exact absurd decided (undecided output free)
  · next rest storing =>
      cases rest with
      | nil => exact fits.2
      | cons store rest => exact absurd storing (idle store rest)
  · rcases fits.2 with ⟨-, output, free⟩ | done
    · exact absurd decided (undecided output free)
    · exact done

/-- **The outcome of an operation is final**, for every future and every interleaving of the
polls of its task, the cancels and the calls of its clients. -/
theorem outcome_final (reached : (outcome T origin).Reachable s) : s.Final origin := by
  have inv := inv_of_reachable reached
  have ended : ∀ {final}, s.status = final → final ≠ .started →
      Decided origin s.took s.operation.output s.operation.memory := by
    rintro final rfl other
    exact inv.decided other
  refine ⟨?_, ?_, ?_, inv.either, ?_, ?_, ?_, ?_, ?_, ?_, ?_⟩
  · by_cases started : s.status = .started
    · exact .inl started
    · cases inv.decided started with
      | completed value status => exact .inr (.inl status)
      | canceled status => exact .inr (.inr (.inl status))
      | error status free silent made => exact .inr (.inr (.inr ⟨status, made⟩))
  · intro final s' later
    rw [status, inv.later final later, status]
  · intro s₀ as begins run value
    rw [show s₀ = ⟨origin.state, .idle, .outside, false⟩ from begins] at run
    rw [Inv.initial.answers run value]
    cases origin <;> simp [Origin.state]
  · intro status
    exact (ended status nofun).taken_of_status status
  · intro status
    obtain ⟨value, -, ready⟩ := (ended status nofun).ready_of_status status
    exact ⟨value, ready⟩
  · intro taken
    refine ⟨fun resting => ?_, ?_⟩
    · have decided := inv.rests resting (.inl taken)
      rw [taken] at decided
      exact decided.status_of_taken
    · obtain ⟨as, s', own, run, -, -, decided⟩ := inv.proceeds (.inl taken)
      rw [taken] at decided
      exact ⟨as, s', own, run, decided.status_of_taken⟩
  · rintro ⟨value, ready⟩
    refine ⟨fun resting => ?_, ?_⟩
    · have decided := inv.rests resting (.inr ⟨value, ready⟩)
      rw [ready] at decided
      exact decided.status_of_ready
    · obtain ⟨as, s', own, run, -, -, decided⟩ := inv.proceeds (.inr ⟨value, ready⟩)
      rw [ready] at decided
      exact ⟨as, s', own, run, decided.status_of_ready⟩
  · intro reads
    have status : s.status = .completed := inv.calls _ reads
    exact (ended status nofun).ready_of_status status
  · intro call mem final saw
    have agrees := inv.calls call mem
    cases call with
    | status seen =>
        simp only [Outcome.seen] at saw
        split at saw
        · cases saw
        · cases saw
          exact agrees ‹_›
    | result r =>
        simp only [Outcome.seen] at saw
        split at saw
        · cases saw
        · cases saw
          exact (agrees ‹_›).1
    | getStatus | getResult | reading | failing => cases saw
  · intro r r' mem mem' final final'
    have left := inv.calls _ mem final
    have right := inv.calls _ mem' final'
    rw [left.2, right.2]

/-- A request that comes before the first poll; one `get_result` is made between the two
stores, and another after them. -/
theorem outcome_final_of_cancel : ∃ s, (outcome UInt32 .spawned).Reachable s ∧
    (s.status = .canceled ∧ s.took = true ∧ s.operation.calls =
      [.result ⟨.started, statusPending, none⟩, .result ⟨.canceled, statusCancelled, none⟩]) ∧
    s.Final .spawned := by
  have reached : (outcome UInt32 .spawned).Reachable _ :=
    .of_exec [.cancel, .poll, .take, .cleanup, .operation .store, .operation .callResult,
      .operation (.run 0), .operation .store, .operation .callResult, .operation (.run 1),
      .operation (.run 1)] (.start rfl) rfl
  exact ⟨_, reached, ⟨rfl, rfl, rfl⟩, outcome_final reached⟩

end Outcome

end Kcom.Async
