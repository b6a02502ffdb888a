import Kcom.Com.Shims
import Kcom.Conc.System

/-!
# What an operation reports

`AsyncOperationTask` (`src/async_com.rs`) encodes its outcome three times: in a status
word, in an error word and in the slot of the result. The task that runs the future
stores them one after the other, while any number of clients call `get_status` and
`get_result`, each load of which is a step of its own here. An operation made by
`spawn_error_raw` has no task: both words are stored before the object exists.

`operation_reports_iff` says for which operations the reports of all runs agree with
each other. The pointers passed to the shims are not null.
-/

namespace Kcom.Async

open Com (NtStatus statusSuccess)
open Conc

/-! ## The object -/

def statusPending : NtStatus := 0x103

def statusUnsuccessful : NtStatus := 0xC0000001 - 2 ^ 32

def statusCancelled : NtStatus := 0xC0000120 - 2 ^ 32

inductive AsyncStatus
  | started
  | completed
  | canceled
  | error
  deriving DecidableEq, Repr

namespace AsyncStatus

def asRaw : AsyncStatus → Nat
  | .started => 0
  | .completed => 1
  | .canceled => 2
  | .error => 3

def fromRaw : Nat → AsyncStatus
  | 0 => .started
  | 1 => .completed
  | 2 => .canceled
  | _ => .error

end AsyncStatus

/-- The fields of `AsyncOperationTask`. A slot that was not written is `none`. -/
structure Memory (T : Type) where
  status : Nat
  error : NtStatus
  result : Option T

variable {T : Type}

/-- `new_state`. -/
def Memory.newState : Memory T :=
  ⟨AsyncStatus.started.asRaw, statusUnsuccessful, none⟩

/-- `load_status`. -/
def Memory.loadStatus (m : Memory T) : AsyncStatus :=
  .fromRaw m.status

/-- A store to one of the fields. -/
inductive Store (T : Type)
  | result (value : T)
  | error (e : NtStatus)
  | status (s : AsyncStatus)

def Memory.store (m : Memory T) : Store T → Memory T
  | .result value => { m with result := some value }
  | .error e => { m with error := e }
  | .status s => { m with status := s.asRaw }

def storeResult (value : T) : List (Store T) :=
  [.result value, .error statusSuccess, .status .completed]

def storeError (e : NtStatus) : List (Store T) :=
  [.error e, .status .error]

def storeCanceled : List (Store T) :=
  [.error statusCancelled, .status .canceled]

/-! ## The task and the clients -/

/-- How the operation was made. -/
inductive Origin
  /-- `spawn_raw` or `spawn_raw_cancellable`, with any future. -/
  | spawned
  /-- `spawn_error_raw`. -/
  | error (status : NtStatus)

/-- The task: at a suspension point of `try_finally` or not polled yet, in the stores
of a poll that ends it, or dropped. -/
inductive Task (T : Type)
  | suspended
  | storing (rest : List (Store T))
  | dropped

/-- A finished `get_result`: the status it loaded, what it returned, and what it wrote
to `out_result`, if it wrote there. -/
structure Report (T : Type) where
  seen : AsyncStatus
  code : NtStatus
  out : Option (Option T)

/-- A call of a client. -/
inductive Call (T : Type)
  | getStatus
  | getResult
  /-- `get_result` that has loaded `Completed`. -/
  | reading
  /-- `get_result` that has loaded `Canceled` or `Error`. -/
  | failing (seen : AsyncStatus)
  /-- `get_status` that has stored what it loaded. -/
  | status (seen : AsyncStatus)
  | result (report : Report T)

/-- An operation with its task and every call made on it; `output` is what the future
returned. -/
structure State (T : Type) where
  memory : Memory T
  task : Task T
  output : Option T
  calls : List (Call T)

inductive Action (T : Type)
  /-- The executor polls the task, and the future answers `Ready` or `Pending`. -/
  | poll (answer : Option T)
  /-- The executor polls the task, and `Cancellable` takes a request to cancel. The
  cleanup, `async {}`, is ready at once. -/
  | cancel
  /-- The next store of the task. -/
  | store
  | dropTask
  | callStatus
  | callResult
  /-- The next access of a call. -/
  | run (i : Nat)

/-- The next access of a call. -/
def Call.next (m : Memory T) : Call T → Option (Call T)
  | .getStatus => some (.status m.loadStatus)
  | .getResult =>
      match m.loadStatus with
      | .completed => some .reading
      | .started => some (.result ⟨.started, statusPending, none⟩)
      | .canceled => some (.failing .canceled)
      | .error => some (.failing .error)
  | .reading => some (.result ⟨.completed, statusSuccess, some m.result⟩)
  | .failing seen => some (.result ⟨seen, m.error, none⟩)
  | .status _ => none
  | .result _ => none

namespace State

def step (s : State T) : Action T → Option (State T)
  | .poll none =>
      match s.task with
      | .suspended => some s
      | _ => none
  | .poll (some value) =>
      match s.task with
      | .suspended => some { s with task := .storing (storeResult value), output := some value }
      | _ => none
  | .cancel =>
      match s.task with
      | .suspended => some { s with task := .storing storeCanceled }
      | _ => none
  | .store =>
      match s.task with
      | .storing (store :: rest) =>
          some { s with memory := s.memory.store store, task := .storing rest }
      | _ => none
  | .dropTask =>
      match s.task with
      | .suspended => some { s with task := .dropped }
      | .storing [] => some { s with task := .dropped }
      | _ => none
  | .callStatus => some { s with calls := s.calls ++ [.getStatus] }
  | .callResult => some { s with calls := s.calls ++ [.getResult] }
  | .run i => do
      let call ← s.calls[i]?
      let next ← call.next s.memory
      some { s with calls := s.calls.set i next }

end State

/-- The operation as it is returned to the caller. -/
def Origin.state : Origin → State T
  | .spawned => ⟨.newState, .suspended, none, []⟩
  | .error e => ⟨(storeError e).foldl Memory.store .newState, .dropped, none, []⟩

/-- The runs of an operation. -/
def system (T : Type) (origin : Origin) : Sys (State T) (Action T) where
  start s := s = origin.state
  step := State.step

/-! ## Reports -/

/-- `get_result_raw`: `Ok` of what was written to `out`, which may be nothing. -/
def Report.raw (r : Report T) : Except NtStatus (Option T) :=
  if r.code = statusSuccess then .ok r.out.join else .error r.code

/-- The report agrees with the status that the call loaded, with the future's output,
and with the status that `get_status` reports `now`. -/
structure Report.Consistent (r : Report T) (output : Option T) (now : AsyncStatus) : Prop where
  success : r.code = statusSuccess →
    r.seen = .completed ∧ now = .completed ∧ ∃ value, output = some value ∧ r.raw = .ok (some value)
  pending : r.code = statusPending ↔ r.seen = .started
  failed : r.seen = .canceled ∨ r.seen = .error → now = r.seen ∧ r.raw = .error r.code

/-- Every call that has returned. -/
def State.Consistent (s : State T) : Prop :=
  ∀ r, Call.result r ∈ s.calls → r.Consistent s.output s.memory.loadStatus

/-! ## The task -/

section Invariant

variable {origin : Origin} {s s' : State T} {a : Action T} {m : Memory T} {output : Option T}

/-- The outcome in memory, complete. -/
def Settled (origin : Origin) (m : Memory T) (output : Option T) : Prop :=
  m.loadStatus = .completed ∧ (∃ value, m.result = some value ∧ output = some value) ∨
    m.loadStatus = .canceled ∧ m.error = statusCancelled ∨
    m.loadStatus = .error ∧ origin = .error m.error

def Store.isStatus : Store T → Bool
  | .status _ => true
  | _ => false

/-- Where the task is: `Started` is reported until its last store, which completes the
outcome. -/
def State.Fits (origin : Origin) (s : State T) : Prop :=
  match s.task with
  | .suspended => s.memory.loadStatus = .started
  | .storing rest =>
      Settled origin (rest.foldl Memory.store s.memory) s.output ∧
        (rest ≠ [] → s.memory.loadStatus = .started) ∧
        ∀ store ∈ rest.dropLast, store.isStatus = false
  | .dropped => s.memory.loadStatus = .started ∨ Settled origin s.memory s.output

theorem loadStatus_store {store : Store T} (plain : store.isStatus = false) :
    (m.store store).loadStatus = m.loadStatus := by
  cases store with
  | result value => rfl
  | error e => rfl
  | status s => cases plain

/-- A status that is not `Started` is the end of the matter. -/
theorem State.Fits.settled (fits : s.Fits origin) (final : s.memory.loadStatus ≠ .started) :
    Settled origin s.memory s.output := by
  unfold State.Fits at fits
  split at fits
  · exact absurd fits final
  · obtain ⟨settled, started, -⟩ := fits
    rename_i rest _
    cases rest with
    | nil => exact settled
    | cons store rest => exact absurd (started (List.cons_ne_nil _ _)) final
  · exact fits.resolve_left final

theorem settled_storeResult (value : T) :
    Settled origin ((storeResult value).foldl Memory.store m) (some value) :=
  .inl ⟨rfl, value, rfl, rfl⟩

theorem settled_storeCanceled :
    Settled origin (storeCanceled.foldl Memory.store m) output :=
  .inr (.inl ⟨rfl, rfl⟩)

theorem fits_start : (origin.state : State T).Fits origin := by
  cases origin with
  | spawned => rfl
  | error e => exact .inr (.inr (.inr ⟨rfl, rfl⟩))

/-- What one step can do: the task moves and the calls stay, or a call moves and the rest
stays. -/
inductive State.Moves (s : State T) : State T → Prop
  | pending (suspended : s.task = .suspended) : Moves s s
  | ready (suspended : s.task = .suspended) (value : T) :
      Moves s { s with task := .storing (storeResult value), output := some value }
  | cancel (suspended : s.task = .suspended) : Moves s { s with task := .storing storeCanceled }
  | store {store : Store T} {rest : List (Store T)} (storing : s.task = .storing (store :: rest)) :
      Moves s { s with memory := s.memory.store store, task := .storing rest }
  | drop (idle : s.task = .suspended ∨ s.task = .storing []) :
      Moves s { s with task := .dropped }
  | call {new : Call T} (new_eq : new = .getStatus ∨ new = .getResult) :
      Moves s { s with calls := s.calls ++ [new] }
  | access {i : Nat} {call call' : Call T} (mem : call ∈ s.calls)
      (next : call.next s.memory = some call') : Moves s { s with calls := s.calls.set i call' }

theorem moves_of_step (next : s.step a = some s') : s.Moves s' := by
  unfold State.step at next
  split at next
  case h_6 =>
    cases next
    exact .call (.inl rfl)
  case h_7 =>
    cases next
    exact .call (.inr rfl)
  case h_8 i =>
    obtain ⟨call, found, rest⟩ := Option.bind_eq_some_iff.mp next
    obtain ⟨call', moved, rest⟩ := Option.bind_eq_some_iff.mp rest
    cases rest
    exact .access (List.mem_of_getElem? found) moved
  -- The task's own actions look at where it is.
  all_goals split at next <;> cases next
  · exact .pending ‹_›
  · exact .ready ‹_› _
  · exact .cancel ‹_›
  · exact .store ‹_›
  · exact .drop (.inl ‹_›)
  · exact .drop (.inr ‹_›)

/-- A step keeps the task in its place, and changes nothing that is final. -/
theorem fits_of_moves (fits : s.Fits origin) (moves : s.Moves s') :
    s'.Fits origin ∧
      (s.memory.loadStatus ≠ .started → s'.memory = s.memory ∧ s'.output = s.output) := by
  unfold State.Fits at fits
  cases moves with
  | pending suspended =>
      rw [suspended] at fits
      exact ⟨by simpa only [State.Fits, suspended] using fits, fun _ => ⟨rfl, rfl⟩⟩
  | ready suspended value =>
      rw [suspended] at fits
      refine ⟨⟨settled_storeResult value, fun _ => fits, ?_⟩, absurd fits⟩
      simp [storeResult, Store.isStatus]
  | cancel suspended =>
      rw [suspended] at fits
      refine ⟨⟨settled_storeCanceled, fun _ => fits, ?_⟩, absurd fits⟩
      simp [storeCanceled, Store.isStatus]
  | @store store rest storing =>
      rw [storing] at fits
      obtain ⟨settled, early, plain⟩ := fits
      have now := early (List.cons_ne_nil _ _)
      refine ⟨⟨settled, ?_, ?_⟩, absurd now⟩
      · intro more
        rw [loadStatus_store, now]
        apply plain
        rw [List.dropLast_cons_of_ne_nil more]
        exact List.mem_cons_self
      · intro later mem
        apply plain
        cases rest with
        | nil => cases mem
        | cons store' rest => exact List.mem_cons_of_mem _ mem
  | drop idle =>
      refine ⟨?_, fun _ => ⟨rfl, rfl⟩⟩
      rcases idle with suspended | stored
      · rw [suspended] at fits
        exact .inl fits
      · rw [stored] at fits
        exact .inr fits.1
  | call new => exact ⟨fits, fun _ => ⟨rfl, rfl⟩⟩
  | access mem next => exact ⟨fits, fun _ => ⟨rfl, rfl⟩⟩

/-! ## The calls -/

/-- What a call has seen is still so. -/
def Call.Fits (m : Memory T) (output : Option T) : Call T → Prop
  | .getStatus => True
  | .getResult => True
  | .reading => m.loadStatus = .completed
  | .failing seen => m.loadStatus = seen ∧ (seen = .canceled ∨ seen = .error)
  | .status seen => seen = .started ∨ m.loadStatus = seen
  | .result r => r.Consistent output m.loadStatus

theorem Report.Consistent.later {r : Report T} {output' : Option T} {now now' : AsyncStatus}
    (consistent : r.Consistent output now)
    (final : now ≠ .started → now' = now ∧ output' = output) : r.Consistent output' now' where
  success code := by
    have old := consistent.success code
    obtain ⟨-, completed, -⟩ := old
    obtain ⟨rfl, rfl⟩ := final (by rw [completed]; decide)
    exact consistent.success code
  pending := consistent.pending
  failed seen := by
    obtain ⟨same, raw⟩ := consistent.failed seen
    have ended : now ≠ .started := by
      rw [same]
      rcases seen with eq | eq <;> rw [eq] <;> decide
    exact ⟨(final ended).1.trans same, raw⟩

theorem Call.Fits.later {call : Call T} {m' : Memory T} {output' : Option T}
    (fits : call.Fits m output)
    (final : m.loadStatus ≠ .started → m' = m ∧ output' = output) : call.Fits m' output' := by
  cases call with
  | getStatus => trivial
  | getResult => trivial
  | reading =>
      have completed : m.loadStatus = .completed := fits
      obtain ⟨rfl, rfl⟩ := final (by rw [completed]; decide)
      exact fits
  | failing seen =>
      obtain ⟨same, failed⟩ := fits
      have ended : m.loadStatus ≠ .started := by
        rw [same]
        rcases failed with rfl | rfl <;> decide
      obtain ⟨rfl, rfl⟩ := final ended
      exact ⟨same, failed⟩
  | status seen =>
      rcases fits with started | same
      · exact .inl started
      · by_cases begun : m.loadStatus = .started
        · exact .inl (same.symm.trans begun)
        · obtain ⟨rfl, rfl⟩ := final begun
          exact .inr same
  | result r =>
      refine Report.Consistent.later fits fun ended => ?_
      obtain ⟨rfl, rfl⟩ := final ended
      exact ⟨rfl, rfl⟩

/-- The error codes that no report can be taken for another's. -/
def Origin.Plain (origin : Origin) : Prop :=
  ∀ e, origin = .error e → e ≠ statusSuccess ∧ e ≠ statusPending

theorem status_codes_apart : statusPending ≠ statusSuccess := by decide

/-- A report of `Started` is no other's. -/
theorem consistent_started {now : AsyncStatus} :
    (⟨.started, statusPending, none⟩ : Report T).Consistent output now where
  success code := absurd code status_codes_apart
  pending := iff_of_true rfl rfl
  failed seen := by rcases seen with eq | eq <;> cases eq

theorem consistent_completed {value : T} :
    (⟨.completed, statusSuccess, some (some value)⟩ : Report T).Consistent (some value)
      .completed where
  success _ := ⟨rfl, rfl, value, rfl, rfl⟩
  pending := iff_of_false status_codes_apart.symm AsyncStatus.noConfusion
  failed seen := by rcases seen with eq | eq <;> cases eq

theorem consistent_failed {seen : AsyncStatus} {code : NtStatus}
    (failed : seen = .canceled ∨ seen = .error) (success : code ≠ statusSuccess)
    (pending : code ≠ statusPending) :
    (⟨seen, code, none⟩ : Report T).Consistent output seen where
  success same := absurd same success
  pending := by
    refine iff_of_false pending ?_
    rintro rfl
    rcases failed with eq | eq <;> cases eq
  failed _ := ⟨rfl, by rw [Report.raw, if_neg success]⟩

/-- The next access of a call finds what it expects. -/
theorem Call.Fits.next {call call' : Call T} (plain : origin.Plain) (fits : s.Fits origin)
    (here : call.Fits s.memory s.output) (moved : call.next s.memory = some call') :
    call'.Fits s.memory s.output := by
  cases call with
  | getStatus =>
      cases moved
      exact .inr rfl
  | getResult =>
      simp only [Call.next] at moved
      split at moved
      · cases moved
        assumption
      · cases moved
        exact consistent_started
      · cases moved
        exact ⟨‹_›, .inl rfl⟩
      · cases moved
        exact ⟨‹_›, .inr rfl⟩
  | reading =>
      cases moved
      have completed : s.memory.loadStatus = .completed := here
      have settled := fits.settled (by rw [completed]; decide)
      rcases settled with ⟨-, value, slot, output⟩ | ⟨other, -⟩ | ⟨other, -⟩
      · show Report.Consistent ⟨_, _, some s.memory.result⟩ s.output s.memory.loadStatus
        rw [completed, slot, output]
        exact consistent_completed
      · cases completed.symm.trans other
      · cases completed.symm.trans other
  | failing seen =>
      cases moved
      obtain ⟨same, failed⟩ := here
      -- What is stored for a failure is the code of a cancellation or the caller's.
      have code : s.memory.error ≠ statusSuccess ∧ s.memory.error ≠ statusPending := by
        have settled := fits.settled (by rw [same]; rcases failed with rfl | rfl <;> decide)
        rcases settled with ⟨completed, -⟩ | ⟨-, cancelled⟩ | ⟨-, caller⟩
        · rw [completed] at same
          rcases failed with rfl | rfl <;> cases same
        · rw [cancelled]
          decide
        · exact plain _ caller
      subst same
      exact consistent_failed failed code.1 code.2
  | status seen => cases moved
  | result r => cases moved

/-! ## Whole runs -/

/-- The task and every call are where they should be. -/
structure Sound (origin : Origin) (s : State T) : Prop where
  task : s.Fits origin
  calls : ∀ call ∈ s.calls, call.Fits s.memory s.output

/-- A new call, or the next access of one; the rest of the calls see no change that
matters to them. -/
theorem sound_of_moves (plain : origin.Plain) (sound : Sound origin s) (moves : s.Moves s') :
    Sound origin s' := by
  obtain ⟨task, final⟩ := fits_of_moves sound.task moves
  have old : ∀ call ∈ s.calls, call.Fits s'.memory s'.output :=
    fun call mem => (sound.calls call mem).later final
  refine ⟨task, ?_⟩
  cases moves with
  | pending => exact old
  | ready => exact old
  | cancel => exact old
  | store => exact old
  | drop => exact old
  | @call new new_eq =>
      intro call mem
      rcases List.mem_append.mp mem with mem | mem
      · exact old call mem
      · rw [List.mem_singleton.mp mem]
        rcases new_eq with rfl | rfl <;> trivial
  | access mem next =>
      intro other mem'
      rcases List.mem_or_eq_of_mem_set mem' with mem' | rfl
      · exact old other mem'
      · exact (sound.calls _ mem).next plain sound.task next

theorem sound_of_reachable (plain : origin.Plain) (reached : (system T origin).Reachable s) :
    Sound origin s := by
  apply Sys.Reach.invariant _ _ reached
  · rintro _ rfl
    refine ⟨fits_start, ?_⟩
    cases origin <;> exact fun call mem => absurd mem List.not_mem_nil
  · intro s a s' sound _ next
    exact sound_of_moves plain sound (moves_of_step next)

end Invariant

/-- On an operation made for the error `e`, `get_result` returns `e` and writes
nothing. -/
theorem error_report (T : Type) (e : NtStatus) :
    ∃ s, (system T (.error e)).Reachable s ∧ s.memory.loadStatus = .error ∧
      s.calls = [.result ⟨.error, e, none⟩] := by
  have reached : (system T (.error e)).Reachable _ :=
    .of_exec [.callResult, .run 0, .run 0] (.start rfl) rfl
  exact ⟨_, reached, rfl, rfl⟩

/-- **What an operation reports is consistent**, in every state of every run and for
every future, exactly when it was not made by `spawn_error_raw` for one of the two
codes that mean something else: `STATUS_SUCCESS` and `STATUS_PENDING`. -/
theorem operation_reports_iff {T : Type} (origin : Origin) :
    (∀ s, (system T origin).Reachable s → s.Consistent) ↔
      ∀ e, origin = .error e → e ≠ statusSuccess ∧ e ≠ statusPending := by
  constructor
  · rintro consistent e rfl
    obtain ⟨s, reached, -, calls⟩ := error_report T e
    have report := consistent s reached ⟨.error, e, none⟩ (by simp [calls])
    constructor
    · rintro rfl
      cases (report.success rfl).1
    · rintro rfl
      cases report.pending.mp rfl
  · intro plain s reached r mem
    exact (sound_of_reachable plain reached).calls _ mem

/-- An operation made for `STATUS_SUCCESS` is in status `Error`, and `get_result_raw`
returns `Ok` with a value that was never written. -/
theorem error_success_claims_value :
    ∃ s, (system UInt32 (.error statusSuccess)).Reachable s ∧
      s.memory.loadStatus = .error ∧ s.output = none ∧
      ∃ r, Call.result r ∈ s.calls ∧ r.seen = .error ∧ r.code = statusSuccess ∧
        r.raw = .ok none ∧ ¬s.Consistent := by
  have reached : (system UInt32 (.error statusSuccess)).Reachable _ :=
    .of_exec [.callResult, .run 0, .run 0] (.start rfl) rfl
  refine ⟨_, reached, rfl, rfl, ⟨.error, statusSuccess, none⟩, List.mem_cons_self, rfl, rfl, rfl, ?_⟩
  intro consistent
  have report := consistent ⟨.error, statusSuccess, none⟩ List.mem_cons_self
  cases (report.success rfl).1

end Kcom.Async
