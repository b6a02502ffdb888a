import Kcom.Executor.Dpc.Hosting
import Kcom.Executor.Timer.Marks

/-!
# A task that sleeps on a timer

A DPC task whose future is a `KernelTimerFuture`, with both sides as they are on their own
(`src/executor.rs`). They move together where one calls the other: `vtable.poll` and
`destroy(Drop)` are the poll and the drop of the future and return when it has got there;
what a poll stores in the slot is a waker of the task, which stays with the slot until it is
replaced or the timer's block is freed; and the `wake_by_ref` of `timer_dpc_routine` is a
call on the task, during which the routine has the lock and everything else may move.
`task_hosts_timer` says that the two fit together.

A poll that has read `fired` may store its waker behind the routine, which has then woken
the waker of an earlier poll. The wakers of one task all wake this task, so the future is
called again: `sleeper_not_stranded` has no condition on the order of these steps.
-/

namespace Kcom.Dpc

open Conc
open Conc.Host (Event)

/-! ## What a wake leaves behind -/

/-- The operations of `schedule` before its outcome. -/
def Op.schedules : Op → Bool
  | .loadCompleted => true
  | .casScheduled => true
  | .addRef .schedule => true
  | .insertQueueDpc .schedule => true
  | _ => false

section Steps

variable {mode : Hardening} {s s' s₁ : State} {i k : Nat} {c : Choice} {f : Call} {op : Op}
  {push rest : List Op} {a : State.Label}

/-- The outcome of a `schedule`. -/
theorem perform_outcome (performed : s.perform mode i c op = some (s₁, push))
    (schedules : op.schedules = true) (outcome : ∀ op' ∈ push, op'.schedules = false) :
    s₁.completed = true ∨ s₁.decided = true := by
  have more : ∀ op' : Op, op'.schedules = true → push = [op'] → False := by
    rintro op' early rfl
    rw [outcome op' (List.mem_singleton.mpr rfl)] at early
    cases early
  cases op with
  | loadCompleted =>
      cases performed
      cases completed : s.completed with
      | true => exact .inl rfl
      | false =>
          rw [completed, if_neg Bool.false_ne_true] at more
          exact (more .casScheduled rfl rfl).elim
  | casScheduled =>
      simp only [State.perform] at performed
      split at performed <;> cases performed
      · exact .inr rfl
      · exact (more _ rfl rfl).elim
  | addRef caller =>
      simp only [State.perform, Option.map_eq_some_iff] at performed
      obtain ⟨⟨_, count⟩, -, performed⟩ := performed
      cases performed
      cases caller with
      | schedule => exact (more _ rfl rfl).elim
      | queueDpc => cases schedules
  | insertQueueDpc caller =>
      cases caller with
      | queueDpc => cases schedules
      | schedule =>
          right
          simp only [State.perform] at performed
          split at performed <;> cases performed <;> simp
  | _ => cases schedules

/-- What is true of a task that has been allocated stays true, but for the record of the
outcome, which a poll begins anew. -/
theorem perform_kept (performed : s.perform mode i c op = some (s₁, push))
    (old : ∀ form, op ≠ .allocate form) :
    (s.completed = true → s₁.completed = true) ∧
      (s.decided = true → s₁.decided = true ∨ op.event c = some .poll) := by
  cases op with
  | allocate form => exact absurd rfl (old form)
  | newHandle | addRef | cloneRaw | rawWaker | subRef =>
      simp only [State.perform, Option.map_eq_some_iff] at performed
      obtain ⟨⟨_, count⟩, -, performed⟩ := performed
      cases performed
      exact ⟨id, .inl⟩
  | casScheduled | insertQueueDpc | casCancel =>
      simp only [State.perform] at performed
      split at performed <;> cases performed <;> exact ⟨id, fun was => .inl (by simp [was])⟩
  | casAcknowledge =>
      cases performed
      split <;> exact ⟨id, .inl⟩
  | last op =>
      cases op with
      | storeCompleted =>
          cases performed
          exact ⟨fun _ => rfl, .inl⟩
      | _ =>
          cases performed
          exact ⟨id, .inl⟩
  | loop op =>
      cases op with
      | pollStart l =>
          cases performed
          exact ⟨id, fun _ => .inr rfl⟩
      | loadPolls cpu m => cases m <;> cases performed <;> exact ⟨id, .inl⟩
      | queryStart | polling | queryNow =>
          simp only [State.perform, State.performLoop] at performed
          (repeat' split at performed) <;> cases performed <;> exact ⟨id, .inl⟩
      | storeCompleted cpu =>
          cases performed
          exact ⟨fun _ => rfl, .inl⟩
      | _ =>
          cases performed
          exact ⟨id, .inl⟩
  | _ =>
      cases performed
      exact ⟨id, .inl⟩

theorem kept_of_step (memory : Memory mode s) (born : s.allocated = true)
    (step : s.step mode a = some s') :
    s'.allocated = true ∧ (s.completed = true → s'.completed = true) ∧
      (s.ready = true → s'.ready = true) ∧
      (s.decided = true → s'.decided = true ∨ s.event a = some .poll) := by
  cases a with
  | dequeue cpu =>
      obtain ⟨-, rfl⟩ := State.step_dequeue step
      exact ⟨born, id, id, .inl⟩
  | call f =>
      obtain ⟨-, rfl⟩ := State.step_call step
      cases f <;> exact ⟨born, id, id, .inl⟩
  | run i c =>
      obtain ⟨f, op, rest, s₁, push, finished, thread, performed, rfl⟩ := State.step_run step
      have old : ∀ form, op ≠ .allocate form := by
        rintro form rfl
        have unborn := memory.unallocated thread
        rw [born] at unborn
        cases unborn
      obtain ⟨completed, decided⟩ := perform_kept performed old
      obtain ⟨-, -, -, ready⟩ := perform_event performed
      refine ⟨(memory.ledger thread performed old).allocated.trans born, completed, ?_, ?_⟩
      · intro was
        rw [State.moved_ready, ready, was, Bool.true_or]
      · rw [event_run thread]
        exact decided

/-- An activation inside `vtable.poll` stays there until the poll returns. -/
theorem polling_of_step (step : s.step mode a = some s') :
    (s.event a = some .poll → 0 < load Op.polling s'.threads) ∧
      (s.event a ≠ some .pending → s.event a ≠ some .ready →
        load Op.polling s.threads ≤ load Op.polling s'.threads) := by
  cases a with
  | dequeue cpu =>
      obtain ⟨-, rfl⟩ := State.step_dequeue step
      refine ⟨nofun, fun _ _ => ?_⟩
      rw [load_append]
      exact Nat.le_add_right _ _
  | call f =>
      obtain ⟨-, rfl⟩ := State.step_call step
      refine ⟨nofun, fun _ _ => ?_⟩
      rw [load_append]
      exact Nat.le_add_right _ _
  | run i c =>
      obtain ⟨f, op, rest, s₁, push, finished, thread, performed, rfl⟩ := State.step_run step
      obtain ⟨-, polls, -, -⟩ := perform_event performed
      have loads := load_set Op.polling f push thread
      rw [event_run thread, State.moved_threads]
      refine ⟨fun begins => ?_, fun pending ready => ?_⟩
      · have head := head_le_load Op.polling thread
        rw [begins] at polls
        simp only [Option.toList_some, List.count_singleton_self] at polls
        omega
      · have outside : op.polling = 0 := by
          rcases Op.event_cases c op with ⟨-, none, -⟩ | ⟨-, l, rfl⟩ | ⟨same, -⟩ | ⟨same, -⟩ |
            ⟨-, -, none, -⟩ | ⟨-, none, -⟩
          · exact none
          · rfl
          · exact absurd same pending
          · exact absurd same ready
          · exact none
          · exact none
        omega

theorem ready_of_event (step : s.step mode a = some s') (ready : s.event a = some .ready) :
    s'.ready = true := by
  cases a with
  | dequeue | call => cases ready
  | run i c =>
      obtain ⟨f, op, rest, s₁, push, finished, thread, performed, rfl⟩ := State.step_run step
      obtain ⟨-, -, -, answers⟩ := perform_event performed
      rw [event_run thread] at ready
      rw [State.moved_ready, answers, ready]
      exact Bool.or_true _

/-- A waker is given up by its owner only. -/
theorem waker_of_step (step : s.step mode a = some s')
    (owned : s.owners[k]? = some (some .waker)) :
    s'.owners[k]? = some (some .waker) ∨ a = .call (.wake k) ∨ a = .call (.dropWaker k) := by
  cases a with
  | dequeue cpu =>
      obtain ⟨-, rfl⟩ := State.step_dequeue step
      exact .inl owned
  | run i c =>
      obtain ⟨f, op, rest, s₁, push, finished, thread, performed, rfl⟩ := State.step_run step
      obtain ⟨-, more, owners⟩ := perform_owners performed
      left
      rw [State.moved_owners, owners,
        List.getElem?_append_left (List.getElem?_eq_some_iff.mp owned).1]
      exact owned
  | call f =>
      obtain ⟨callable, rfl⟩ := State.step_call step
      cases f with
      | wake k' | dropWaker k' =>
          rcases eq_or_ne k' k with rfl | other
          · simp
          · exact .inl ((List.getElem?_set_ne other).trans owned)
      | dropHandle k' =>
          have handle : s.owners[k']? = some (some .handle) := by
            simp only [State.callable, Bool.and_eq_true, decide_eq_true_eq] at callable
            exact callable.1
          rcases eq_or_ne k' k with rfl | other
          · cases owned.symm.trans handle
          · exact .inl ((List.getElem?_set_ne other).trans owned)
      | _ => exact .inl owned

/-- A call that has returned does nothing more. -/
theorem idle_of_step {t : Thread Call Op} {j : Nat} (step : s.step mode a = some s')
    (thread : s.threads[j]? = some t) (idle : t.code = []) : s'.threads[j]? = some t := by
  have bound := (List.getElem?_eq_some_iff.mp thread).1
  cases a with
  | dequeue cpu =>
      obtain ⟨-, rfl⟩ := State.step_dequeue step
      exact (List.getElem?_append_left bound).trans thread
  | call f =>
      obtain ⟨-, rfl⟩ := State.step_call step
      exact (List.getElem?_append_left bound).trans thread
  | run i c =>
      obtain ⟨f, op, rest, s₁, push, finished, here, performed, rfl⟩ := State.step_run step
      have other : i ≠ j := by
        rintro rfl
        cases here.symm.trans thread
        cases idle
      exact (List.getElem?_set_ne other).trans thread

end Steps

end Kcom.Dpc

namespace Kcom.Sleeper

open Conc
open Conc.Host (Event Phase)

structure State where
  task : Dpc.State
  timer : Timer.State
  /-- The thread of the task that executes the routine's `wake_by_ref`. -/
  waking : Option Nat
  deriving DecidableEq, Repr

def initial : State :=
  ⟨Dpc.initial, Timer.initial, none⟩

/-- A step of the task, a step of the timer, or the call with which the routine wakes the
task. `w` is the entry of `owners` that the clone of the waker will be, in a step that is the
beginning of a poll. -/
inductive Label
  | task (a : Dpc.State.Label) (w : Nat)
  | timer (a : Timer.Label)
  | wake
  deriving DecidableEq, Repr

/-- What a call of the future, or its return, is to the timer. -/
def meet (mode : Hardening) (t : Timer.State) (w : Nat) : Event → Option Timer.State
  | .poll => t.step mode (.poll w)
  | .pending => if t.client = .idle ∧ t.pending ≠ none then some t else none
  | .ready => if t.client = .idle ∧ t.pending = none then some t else none
  | .drop => t.step mode .drop
  | .dropped => if t.client = .gone then some t else none

namespace State

variable (s : State)

/-- What the timer does with a step of the task. -/
def react (mode : Hardening) (a : Dpc.State.Label) (w : Nat) : Option Timer.State :=
  match s.task.event a with
  | none => some s.timer
  | some e => meet mode s.timer w e

/-- The waker in the slot is nobody else's to consume or drop. -/
def spares : Dpc.State.Label → Bool
  | .call (.wake k) | .call (.dropWaker k) => s.timer.waker ≠ some k || 0 < s.timer.frees
  | _ => true

/-- The routine's `wake_by_ref` has returned. -/
def returned : Bool :=
  match s.waking.bind (s.task.threads[·]?) with
  | some t => t.code.isEmpty
  | none => false

/-- The steps that the timer takes by itself. The waker that is stored was cloned before,
and a routine that has found a waker goes on when `wake_by_ref` has returned. -/
def own : Timer.Label → Bool
  | .poll _ => false
  | .drop => false
  | .client =>
      match s.timer.client with
      | .storeWaker w => s.task.owners[w]? = some (some .waker)
      | _ => true
  | .routine i => s.timer.routines[i]? ≠ some .wake || s.timer.waker = none || s.returned
  | _ => true

def step (mode : Hardening) : Label → Option State
  | .task a w =>
      if s.spares a then
        (s.task.step mode a).bind fun t => (s.react mode a w).map fun τ => ⟨t, τ, s.waking⟩
      else none
  | .timer a =>
      if s.own a then (s.timer.step mode a).map fun τ => { s with timer := τ } else none
  | .wake =>
      match s.timer.waker, s.waking with
      | some k, none =>
          if .wake ∈ s.timer.routines then
            (s.task.step mode (.call (.wakeByRef (.owner k)))).map fun t =>
              ⟨t, s.timer, some s.task.threads.length⟩
          else none
      | _, _ => none

end State

/-- No activation of the task passes its check of `completed` while another one has not left
its loop, and the counter of the task has room. -/
def Exclusive (mode : Hardening) (s : State) : Label → Prop
  | .task a _ => Dpc.Exclusive mode s.task a
  | _ => True

instance (mode : Hardening) (s : State) : (a : Label) → Decidable (Exclusive mode s a)
  | .task a _ => inferInstanceAs (Decidable (Dpc.Exclusive mode s.task a))
  | .timer _ => .isTrue trivial
  | .wake => .isTrue trivial

/-- The runs of a task and its timer. -/
def system (mode : Hardening) : Sys State Label where
  start s := s = initial
  step s a := s.step mode a

section Runs

variable {mode : Hardening} {s s' : State} {t t' : Timer.State} {p p' : Phase} {e : Event}
  {a : Dpc.State.Label} {b : Timer.Label} {w : Nat}

/-! ## Inversion of the steps -/

theorem step_task (next : s.step mode (.task a w) = some s') :
    s.spares a = true ∧ s.task.step mode a = some s'.task ∧
      s.react mode a w = some s'.timer ∧ s'.waking = s.waking := by
  obtain ⟨spares, moved⟩ := Option.ite_none_right_eq_some.mp next
  obtain ⟨t, stepped, reacted⟩ := Option.bind_eq_some_iff.mp moved
  obtain ⟨τ, reacts, rfl⟩ := Option.map_eq_some_iff.mp reacted
  exact ⟨spares, stepped, reacts, rfl⟩

theorem step_timer (next : s.step mode (.timer b) = some s') :
    s.own b = true ∧ s.timer.step mode b = some s'.timer ∧ s'.task = s.task ∧
      s'.waking = s.waking := by
  obtain ⟨own, moved⟩ := Option.ite_none_right_eq_some.mp next
  obtain ⟨τ, stepped, rfl⟩ := Option.map_eq_some_iff.mp moved
  exact ⟨own, stepped, rfl, rfl⟩

theorem step_wake (next : s.step mode .wake = some s') :
    ∃ k, s.timer.waker = some k ∧ s.waking = none ∧ .wake ∈ s.timer.routines ∧
      s.task.step mode (.call (.wakeByRef (.owner k))) = some s'.task ∧ s'.timer = s.timer ∧
      s'.waking = some s.task.threads.length := by
  simp only [State.step] at next
  split at next
  · next k slot idle =>
      obtain ⟨active, moved⟩ := Option.ite_none_right_eq_some.mp next
      obtain ⟨t, stepped, rfl⟩ := Option.map_eq_some_iff.mp moved
      exact ⟨k, slot, idle, active, stepped, rfl, rfl⟩
  · cases next

/-- The timer takes a step with the task where the task calls the future. -/
theorem react_cases (reacts : s.react mode a w = some t) :
    (s.task.event a = none ∧ t = s.timer) ∨
      ∃ e, s.task.event a = some e ∧ meet mode s.timer w e = some t := by
  unfold State.react at reacts
  split at reacts
  · next silent =>
      cases reacts
      exact .inl ⟨silent, rfl⟩
  · next e loud => exact .inr ⟨e, loud, reacts⟩

theorem step_poll (step : t.step mode (.poll w) = some t') :
    t.client = .idle ∧ t' = { t with client := .loadFired w, pending := none } := by
  obtain ⟨idle, same⟩ := Option.ite_none_right_eq_some.mp step
  exact ⟨idle, (Option.some.inj same).symm⟩

theorem step_drop (step : t.step mode .drop = some t') :
    t.client = .idle ∧ t' = { t with client := .storeCancelled } := by
  obtain ⟨idle, same⟩ := Option.ite_none_right_eq_some.mp step
  exact ⟨idle, (Option.some.inj same).symm⟩

/-- A call of the future leaves all but the owner's part alone. -/
theorem meet_frame (met : meet mode t w e = some t') :
    t'.fired = t.fired ∧ t'.cancelled = t.cancelled ∧ t'.frees = t.frees ∧ t'.waker = t.waker ∧
      t'.routines = t.routines := by
  cases e with
  | poll =>
      have step : t.step mode (.poll w) = some t' := met
      obtain ⟨-, rfl⟩ := step_poll step
      exact ⟨rfl, rfl, rfl, rfl, rfl⟩
  | drop =>
      have step : t.step mode .drop = some t' := met
      obtain ⟨-, rfl⟩ := step_drop step
      exact ⟨rfl, rfl, rfl, rfl, rfl⟩
  | pending | ready | dropped =>
      obtain ⟨-, same⟩ := Option.ite_none_right_eq_some.mp met
      cases same
      exact ⟨rfl, rfl, rfl, rfl, rfl⟩

theorem react_frame (reacts : s.react mode a w = some t) :
    t.fired = s.timer.fired ∧ t.cancelled = s.timer.cancelled ∧ t.frees = s.timer.frees ∧
      t.waker = s.timer.waker ∧ t.routines = s.timer.routines := by
  rcases react_cases reacts with ⟨-, rfl⟩ | ⟨e, -, met⟩
  · exact ⟨rfl, rfl, rfl, rfl, rfl⟩
  · exact meet_frame met

/-! ## The future and the phase of its host -/

/-- Where the future is when its host is in the phase `p`. -/
def Linked (t : Timer.State) : Phase → Prop
  | .unpolled | .ready => t.client = .idle ∧ t.pending = none
  | .polling => t.client = .idle ∨ t.client.rests = false
  | .suspended => t.client = .idle ∧ t.pending ≠ none
  | .dropping => t.client = .storeCancelled ∨ t.client.drops = true
  | .dropped => t.client = .gone

/-- The future follows its host. -/
theorem Linked.meet (may : p.next e = some p') (met : meet mode t w e = some t') :
    Linked t' p' := by
  cases e with
  | poll =>
      have step : t.step mode (.poll w) = some t' := met
      obtain ⟨-, rfl⟩ := step_poll step
      have polled : p' = .polling := by
        cases p <;> cases may <;> rfl
      subst polled
      exact .inr rfl
  | drop =>
      have step : t.step mode .drop = some t' := met
      obtain ⟨-, rfl⟩ := step_drop step
      have dropped : p' = .dropping := by
        cases p <;> cases may <;> rfl
      subst dropped
      exact .inl rfl
  | pending =>
      obtain ⟨there, same⟩ := Option.ite_none_right_eq_some.mp met
      have suspended : p' = .suspended := by
        cases p <;> cases may
        rfl
      cases same
      subst suspended
      exact there
  | ready =>
      obtain ⟨there, same⟩ := Option.ite_none_right_eq_some.mp met
      have done : p' = .ready := by
        cases p <;> cases may
        rfl
      cases same
      subst done
      exact there
  | dropped =>
      obtain ⟨there, same⟩ := Option.ite_none_right_eq_some.mp met
      have gone : p' = .dropped := by
        cases p <;> cases may
        rfl
      cases same
      subst gone
      exact there

/-- The future moves inside a call of its host, and stays there. -/
theorem Linked.own (linked : Linked t p) (step : t.step mode b = some t')
    (unpolled : ∀ w, b ≠ .poll w) (undropped : b ≠ .drop) : Linked t' p := by
  by_cases moves : b = .client
  · subst moves
    obtain ⟨notIdle, notGone, inside⟩ := Timer.client_of_stepClient step
    cases p with
    | unpolled | suspended | ready => exact absurd linked.1 notIdle
    | dropped => exact absurd linked notGone
    | polling =>
        rcases inside with ⟨-, stays⟩ | ⟨rests, -⟩
        · exact stays
        · rcases linked with idle | polls
          · exact absurd idle notIdle
          · rw [rests] at polls
            cases polls
    | dropping =>
        rcases inside with ⟨polls, -⟩ | ⟨-, drops⟩
        · rcases linked with stores | drops
          · rw [stores] at polls
            cases polls
          · rw [Timer.Client.rests_of_drops drops] at polls
            cases polls
        · exact .inr drops
  · obtain ⟨client, pending⟩ := Timer.client_of_step step moves unpolled undropped
    cases p <;> simp only [Linked, client, pending] <;> exact linked

/-! ## The wake and what it leads to -/

/-- The task is completed, or it will be polled again, or it is in a poll that finds `fired`
set if it has not loaded it before. -/
def Roused (s : State) : Prop :=
  s.task.completed = true ∨ s.task.decided = true ∨ s.task.ready = true ∨
    (0 < load Dpc.Op.polling s.task.threads ∧ s.timer.pending = none ∧
      (s.timer.client = .idle ∨ ∃ w, s.timer.client = .loadFired w))

/-- Where the future is dropped the task is completed. -/
theorem completed_of_drop {r : Dpc.State} (polling : Dpc.Polling s.task)
    (step : s.task.step mode a = some r) (drops : s.task.event a = some .drop) :
    s.task.completed = true := by
  cases a with
  | dequeue | call => cases drops
  | run i c =>
      obtain ⟨f, op, rest, s₁, push, finished, thread, -, -⟩ := Dpc.State.step_run step
      rw [Dpc.event_run thread] at drops
      have head := head_le_load Dpc.Op.drops thread
      have once := polling.drops
      have one : op.drops = 1 := by
        rcases Dpc.Op.event_cases c op with ⟨happens, -⟩ | ⟨happens, -⟩ | ⟨happens, -⟩ |
          ⟨happens, -⟩ | ⟨-, one, -⟩ | ⟨happens, -⟩
        case inr.inr.inr.inr.inl => exact one
        all_goals
          rw [happens] at drops
          cases drops
      cases completed : s.task.completed with
      | true => rfl
      | false =>
          rw [completed, Bool.toNat_false] at once
          omega

theorem Roused.task (roused : Roused s) (memory : Dpc.Memory mode s.task)
    (polling : Dpc.Polling s.task) (born : s.task.allocated = true)
    (next : s.step mode (.task a w) = some s') : Roused s' := by
  obtain ⟨-, step, reacts, -⟩ := step_task next
  obtain ⟨-, completed, ready, decided⟩ := Dpc.kept_of_step memory born step
  obtain ⟨begins, stays⟩ := Dpc.polling_of_step step
  have again : s.task.event a = some .poll → Roused s' := by
    intro polls
    rcases react_cases reacts with ⟨silent, -⟩ | ⟨e, loud, met⟩
    · rw [polls] at silent
      cases silent
    · rw [polls] at loud
      cases loud
      have entered : s.timer.step mode (.poll w) = some s'.timer := met
      obtain ⟨-, polled⟩ := step_poll entered
      rw [Roused, polled]
      exact .inr (.inr (.inr ⟨begins polls, rfl, .inr ⟨w, rfl⟩⟩))
  rcases roused with done | made | answered | ⟨inside, unreturned, early⟩
  · exact .inl (completed done)
  · rcases decided made with still | polls
    · exact .inr (.inl still)
    · exact again polls
  · exact .inr (.inr (.inl (ready answered)))
  · rcases react_cases reacts with ⟨silent, same⟩ | ⟨e, loud, met⟩
    · refine .inr (.inr (.inr ⟨?_, ?_, ?_⟩))
      · exact Nat.lt_of_lt_of_le inside (stays (by simp [silent]) (by simp [silent]))
      · rw [same]
        exact unreturned
      · rw [same]
        exact early
    · cases e with
      | poll => exact again loud
      | pending =>
          obtain ⟨⟨-, returned⟩, -⟩ := Option.ite_none_right_eq_some.mp met
          exact absurd unreturned returned
      | ready => exact .inr (.inr (.inl (Dpc.ready_of_event step loud)))
      | drop => exact .inl (completed (completed_of_drop polling step loud))
      | dropped =>
          obtain ⟨gone, -⟩ := Option.ite_none_right_eq_some.mp met
          rcases early with idle | ⟨v, loads⟩
          · rw [idle] at gone
            cases gone
          · rw [loads] at gone
            cases gone

theorem Roused.timer (roused : Roused s) (fired : s.timer.fired = true)
    (next : s.step mode (.timer b) = some s') : Roused s' := by
  obtain ⟨own, step, task, -⟩ := step_timer next
  rw [Roused, task]
  refine roused.imp_right (.imp_right (.imp_right ?_))
  rintro ⟨inside, unreturned, early⟩
  refine ⟨inside, ?_⟩
  by_cases moves : b = .client
  · subst moves
    have step : s.timer.stepClient mode = some s'.timer := step
    rcases early with idle | ⟨v, loads⟩
    · exact absurd idle (Timer.client_of_stepClient step).1
    · simp only [Timer.State.stepClient, loads, fired, if_true, Option.some.injEq] at step
      rw [← step]
      exact ⟨unreturned, .inl rfl⟩
  · have unpolled : ∀ w, b ≠ .poll w := by
      rintro w rfl
      cases own
    have undropped : b ≠ .drop := by
      rintro rfl
      cases own
    obtain ⟨client, pending⟩ := Timer.client_of_step step moves unpolled undropped
    rw [client, pending]
    exact ⟨unreturned, early⟩

/-! ## What holds between the two -/

structure Joined (mode : Hardening) (s : State) : Prop where
  linked : ∃ es p, (Dpc.traced mode).Reach (fun q a => Dpc.Exclusive mode q.1 a) (s.task, es) ∧
    Phase.unpolled.run es = some p ∧ Linked s.timer p
  timer : (Timer.system mode).Reachable s.timer
  /-- The waker in the slot is there. -/
  slot : ∀ k, s.timer.waker = some k → s.timer.frees = 0 →
    s.task.owners[k]? = some (some .waker)
  /-- The routine calls a task that is there, behind its store to `fired`. -/
  called : s.waking ≠ none → s.task.allocated = true ∧ s.timer.fired = true
  /-- The `schedule` in the call has its outcome. -/
  roused : ∀ j, s.waking = some j → ∃ t, s.task.threads[j]? = some t ∧
    ((∀ op ∈ t.code, op.schedules = false) → Roused s)
  /-- A routine that has not found `cancelled` set waits for the call. -/
  woke : ∀ r ∈ s.timer.routines, r.woke = true →
    s.timer.cancelled = true ∨ s.returned = true

theorem Joined.initial : Joined mode initial where
  linked := ⟨[], .unpolled, .start ⟨rfl, rfl⟩, rfl, rfl, rfl⟩
  timer := .start rfl
  slot _ held := by cases held
  called made := absurd rfl made
  roused _ made := by cases made
  woke _ member := by cases member

theorem Joined.exclusive (joined : Joined mode s) :
    (Dpc.system mode).Reach (Dpc.Exclusive mode) s.task := by
  obtain ⟨es, p, reached, -, -⟩ := joined.linked
  refine Sys.Reach.of_history ?_ reached
  exact fun _ _ exclusive => exclusive

theorem returned_iff : s.returned = true ↔
    ∃ j t, s.waking = some j ∧ s.task.threads[j]? = some t ∧ t.code = [] := by
  unfold State.returned
  cases waking : s.waking with
  | none => simp
  | some j =>
      cases thread : s.task.threads[j]? with
      | none => simp [thread]
      | some t => simp [thread]

/-- A call that has returned is over. -/
theorem returned_of_task (returned : s.returned = true)
    (step : s.task.step mode a = some s'.task) (waking : s'.waking = s.waking) :
    s'.returned = true := by
  obtain ⟨j, t, made, thread, idle⟩ := returned_iff.mp returned
  exact returned_iff.mpr
    ⟨j, t, waking.trans made, Dpc.idle_of_step step thread idle, idle⟩

/-- The outcome of the routine's call, behind a step of the task. -/
theorem Joined.roused_task (joined : Joined mode s) (memory : Dpc.Memory mode s.task)
    (polling : Dpc.Polling s.task) (next : s.step mode (.task a w) = some s') (j : Nat)
    (made : s.waking = some j) : ∃ t, s'.task.threads[j]? = some t ∧
      ((∀ op ∈ t.code, op.schedules = false) → Roused s') := by
  obtain ⟨-, step, -, -⟩ := step_task next
  obtain ⟨t, thread, roused⟩ := joined.roused j made
  have born := (joined.called (by simp [made])).1
  have bound := (List.getElem?_eq_some_iff.mp thread).1
  have kept : s'.task.threads[j]? = some t → ∃ t, s'.task.threads[j]? = some t ∧
      ((∀ op ∈ t.code, op.schedules = false) → Roused s') :=
    fun same => ⟨t, same, fun outcome => (roused outcome).task memory polling born next⟩
  cases a with
  | dequeue cpu =>
      obtain ⟨-, after⟩ := Dpc.State.step_dequeue step
      refine kept ?_
      rw [after]
      exact (List.getElem?_append_left bound).trans thread
  | call f =>
      obtain ⟨-, after⟩ := Dpc.State.step_call step
      refine kept ?_
      rw [after]
      exact (List.getElem?_append_left bound).trans thread
  | run i c =>
      obtain ⟨f, op, rest, s₁, push, finished, here, performed, after⟩ :=
        Dpc.State.step_run step
      rcases eq_or_ne i j with rfl | other
      · cases thread.symm.trans here
        refine ⟨⟨f, push ++ rest⟩, ?_, ?_⟩
        · rw [after]
          exact List.getElem?_set_self bound
        · intro outcome
          have later : ∀ op ∈ rest, op.schedules = false :=
            fun op member => outcome op (List.mem_append_right _ member)
          cases schedules : op.schedules with
          | false =>
              refine (roused ?_).task memory polling born next
              intro op' member
              rcases List.mem_cons.mp member with rfl | member
              · exact schedules
              · exact later op' member
          | true =>
              have decided := Dpc.perform_outcome performed schedules
                fun op' member => outcome op' (List.mem_append_left _ member)
              rw [Roused, after]
              exact decided.imp_right .inl
      · refine kept ?_
        rw [after]
        exact (List.getElem?_set_ne other).trans thread

theorem Joined.task (joined : Joined mode s) (guard : Dpc.Exclusive mode s.task a)
    (next : s.step mode (.task a w) = some s') : Joined mode s' := by
  obtain ⟨spares, step, reacts, waking⟩ := step_task next
  obtain ⟨es, p, reached, trace, linked⟩ := joined.linked
  obtain ⟨fired, cancelled, frees, waker, routines⟩ := react_frame reacts
  obtain ⟨memory, polling⟩ := Dpc.polling_of_reach joined.exclusive
  obtain ⟨p', run, last⟩ := Dpc.exists_phase reached trace guard step
  refine ⟨⟨_, p', Dpc.traced_next reached guard step, run, ?_⟩, ?_, ?_, ?_, ?_, ?_⟩
  · rcases react_cases reacts with ⟨silent, same⟩ | ⟨e, loud, met⟩
    · rw [silent] at last
      cases last
      rwa [same]
    · rw [loud, Option.toList_some, Phase.run] at last
      obtain ⟨q, may, same⟩ := Option.bind_eq_some_iff.mp last
      cases same
      exact Linked.meet may met
  · rcases react_cases reacts with ⟨-, same⟩ | ⟨e, -, met⟩
    · rw [same]
      exact joined.timer
    · cases e with
      | poll =>
          have step : (Timer.system mode).step s.timer (.poll w) = some s'.timer := met
          exact .step joined.timer trivial step
      | drop =>
          have step : (Timer.system mode).step s.timer .drop = some s'.timer := met
          exact .step joined.timer trivial step
      | pending | ready | dropped =>
          obtain ⟨-, same⟩ := Option.ite_none_right_eq_some.mp met
          rw [← Option.some.inj same]
          exact joined.timer
  · rw [waker, frees]
    intro k held unfreed
    rcases Dpc.waker_of_step step (joined.slot k held unfreed) with stays | rfl | rfl
    · exact stays
    · simp [State.spares, held, unfreed] at spares
    · simp [State.spares, held, unfreed] at spares
  · rw [waking, fired]
    intro made
    obtain ⟨born, wasFired⟩ := joined.called made
    exact ⟨(Dpc.kept_of_step memory born step).1, wasFired⟩
  · rw [waking]
    exact joined.roused_task memory polling next
  · rw [routines, cancelled]
    intro r member woke
    exact (joined.woke r member woke).imp_right fun done => returned_of_task done step waking

theorem Joined.timer_step (joined : Joined mode s)
    (next : s.step mode (.timer b) = some s') : Joined mode s' := by
  obtain ⟨own, step, task, waking⟩ := step_timer next
  obtain ⟨es, p, reached, trace, linked⟩ := joined.linked
  obtain ⟨fired, cancelled, frees, waker⟩ := Timer.kept_of_step step
  have unpolled : ∀ w, b ≠ .poll w := by
    rintro w rfl
    cases own
  have undropped : b ≠ .drop := by
    rintro rfl
    cases own
  have same : s'.returned = s.returned := by rw [State.returned, task, waking]; rfl
  refine ⟨⟨es, p, ?_, trace, linked.own step unpolled undropped⟩, .step joined.timer trivial step,
    ?_, ?_, ?_, ?_⟩
  · rwa [task]
  · intro k held unfreed
    rw [task]
    rcases waker with same | ⟨rfl, w, stores, stored⟩
    · exact joined.slot k (same ▸ held) (Nat.eq_zero_of_le_zero (unfreed ▸ frees))
    · cases stored.symm.trans held
      simp only [State.own, stores] at own
      exact of_decide_eq_true own
  · rw [waking, task]
    exact fun made => (joined.called made).imp_right fired
  · rw [waking, task]
    intro j made
    obtain ⟨t, thread, roused⟩ := joined.roused j made
    refine ⟨t, thread, fun outcome => (roused outcome).timer ?_ next⟩
    exact (joined.called (by simp [made])).2
  · intro r member woke
    rw [same]
    rcases Timer.woke_of_step step member woke with ⟨q, old, late⟩ | was | ⟨i, rfl, active⟩
    · exact (joined.woke q old late).imp_left cancelled
    · exact .inl (cancelled was)
    · right
      have slot := (Timer.kept_of_routine joined.timer (List.mem_of_getElem? active) rfl).1
      simpa [State.own, active, slot] using own

theorem Joined.wake (joined : Joined mode s) (next : s.step mode .wake = some s') :
    Joined mode s' := by
  obtain ⟨k, slot, unmade, active, step, timer, made⟩ := step_wake next
  obtain ⟨es, p, reached, trace, linked⟩ := joined.linked
  have guard : Dpc.Exclusive mode s.task (.call (.wakeByRef (.owner k))) := ⟨trivial, trivial⟩
  have traced := Dpc.traced_next reached guard step
  obtain ⟨memory, -⟩ := Dpc.polling_of_reach joined.exclusive
  have unfreed := (Timer.kept_of_routine joined.timer active rfl).2
  obtain ⟨-, after⟩ := Dpc.State.step_call step
  refine ⟨⟨es, p, ?_, trace, by rwa [timer]⟩, by rw [timer]; exact joined.timer, ?_, ?_, ?_, ?_⟩
  · simpa [Dpc.State.event] using traced
  · rw [timer, after]
    exact joined.slot
  · intro _
    have alive : s.task.alive (.owner k) := ⟨_, joined.slot k slot unfreed⟩
    have pos := Dpc.State.references_pos_of_alive alive
    have fired := (Timer.marks_of_reach joined.timer).fired _ active (by simp)
    cases born : s.task.allocated with
    | true =>
        rw [timer, after]
        exact ⟨born, fired⟩
    | false =>
        rw [memory.unborn born] at pos
        cases pos
  · intro j now
    cases made.symm.trans now
    refine ⟨⟨.wakeByRef (.owner k), [.loadCompleted]⟩, ?_, ?_⟩
    · rw [after]
      simp [Dpc.State.code]
    · intro outcome
      cases outcome .loadCompleted (List.mem_singleton.mpr rfl)
  · rw [timer]
    intro r member woke
    rcases joined.woke r member woke with cancelled | returned
    · exact .inl cancelled
    · obtain ⟨j, -, was, -⟩ := returned_iff.mp returned
      rw [unmade] at was
      cases was

theorem joined_of_reach (reached : (system mode).Reach (Exclusive mode) s) : Joined mode s := by
  refine Sys.Reach.invariant ?_ ?_ reached
  · rintro s rfl
    exact .initial
  · intro s a s' joined guard next
    cases a with
    | task a w => exact joined.task guard next
    | timer b => exact joined.timer_step next
    | wake => exact joined.wake next

/-! ## A host for the timer's future -/

/-- A call of the future that returns with the step has got there. -/
def State.answers (s : State) (a : Dpc.State.Label) : Bool :=
  match s.task.event a with
  | some .pending => s.timer.client = .idle && s.timer.pending ≠ none
  | some .ready => s.timer.client = .idle && s.timer.pending = none
  | some .dropped => s.timer.client = .gone
  | _ => true

/-- Where the host may call the future, the future takes the call. -/
theorem Linked.answers (linked : Linked t p) (may : p.next e = some p')
    (begins : e = .poll ∨ e = .drop) : ∃ t', Sleeper.meet mode t w e = some t' := by
  have idle : t.client = .idle := by
    rcases begins with rfl | rfl <;> cases p <;> first | exact linked.1 | cases may
  rcases begins with rfl | rfl <;> exact ⟨_, if_pos idle⟩

/-- **A timer in a task.** In every exclusive run the task takes steps of its own and the timer
takes steps of its own, and the executor asks for nothing that the future refuses: whatever
the task can do it does, the waker in the slot aside, as soon as the call of the future that
returns with it has got there. -/
theorem task_hosts_timer (reached : (system mode).Reach (Exclusive mode) s) :
    (Dpc.system mode).Reach (Dpc.Exclusive mode) s.task ∧
      (Timer.system mode).Reachable s.timer ∧
      ∀ a t w, Dpc.Exclusive mode s.task a → s.task.step mode a = some t → s.spares a = true →
        s.answers a = true → ∃ s', s.step mode (.task a w) = some s' ∧ s'.task = t := by
  have joined := joined_of_reach reached
  obtain ⟨es, p, traced, trace, linked⟩ := joined.linked
  refine ⟨joined.exclusive, joined.timer, ?_⟩
  intro a t w guard stepped spares answers
  suffices reacts : ∃ τ, s.react mode a w = some τ by
    obtain ⟨τ, reacts⟩ := reacts
    exact ⟨⟨t, τ, s.waking⟩, by simp [State.step, spares, stepped, reacts], rfl⟩
  obtain ⟨p', -, last⟩ := Dpc.exists_phase traced trace guard stepped
  rw [State.answers] at answers
  rw [State.react]
  cases happens : s.task.event a with
  | none => exact ⟨_, rfl⟩
  | some e =>
      rw [happens] at answers last
      obtain ⟨q, may, -⟩ := Option.bind_eq_some_iff.mp last
      cases e with
      | poll => exact linked.answers may (.inl rfl)
      | drop => exact linked.answers may (.inr rfl)
      | pending | ready | dropped => exact ⟨_, if_pos (by simpa using answers)⟩

/-- The next operation of thread `i`. -/
def go (i : Nat) : Label :=
  .task (.run i .go) 0

/-- The first poll arms the timer and leaves a second waker behind, which wakes the task. The
second poll reads `fired`, then the timer expires and the routine wakes the waker of the first
poll, and then the second poll stores its own. -/
def lateWaker : List Label :=
  Dpc.firstPoll.map (Label.task · 0) ++
  [.task (.call (.cloneWaker (.activation 1))) 0, go 2,
    .task (.call (.cloneWaker (.activation 1))) 0, go 3] ++
  List.replicate 9 (.timer .client) ++ [go 1, go 1, go 1, go 1, go 1] ++
  [.task (.call (.wake 1)) 0, go 4, go 4, go 4, go 4, go 4, .task (.dequeue (some 0)) 0,
    go 5, go 5, go 5, go 5, go 5, go 5, .task (.run 5 .go) 2,
    .task (.call (.cloneWaker (.activation 5))) 0, go 6, .timer .client] ++
  [.timer .expire, .timer .queueDpc, .timer .dequeue, .timer (.routine 0), .timer (.routine 0),
    .timer (.routine 0), .wake, go 7, go 7, go 7, go 7, .timer (.routine 0), .timer (.routine 0),
    .timer (.routine 0)] ++
  List.replicate 4 (.timer .client)

/-- The second poll is about to return. -/
theorem task_hosts_timer_of_late_waker :
    ∃ s, (system .off).Reach (Exclusive .off) s ∧ s.timer.pending = some 2 ∧
      (Dpc.system .off).Reach (Dpc.Exclusive .off) s.task ∧
      (Timer.system .off).Reachable s.timer ∧
      ∀ a t w, Dpc.Exclusive .off s.task a → s.task.step .off a = some t → s.spares a = true →
        s.answers a = true → ∃ s', s.step .off (.task a w) = some s' ∧ s'.task = t := by
  obtain ⟨s, reached, pending⟩ := Sys.Reach.exists_of_execIf
    (fun s : State => s.timer.pending = some 2)
    lateWaker (.start rfl : (system .off).Reach (Exclusive .off) initial) (by decide)
  exact ⟨s, reached, pending, task_hosts_timer reached⟩

/-! ## Nobody sleeps for good -/

/-- The future has answered `Pending` and is neither polled nor dropped. -/
def Waits (s : State) : Prop :=
  s.timer.client = .idle ∧ s.timer.pending ≠ none

/-- The operation leads to the next call of the future: an insertion of the DPC, a poll, or
the drop and the store before it. -/
def leads (op : Dpc.Op) : Nat :=
  op.inserts + op.polls + op.stores + op.drops

/-- A future that waits has not been dropped. -/
theorem Joined.undropped (joined : Joined mode s) (waits : Waits s) : s.task.drops = 0 := by
  obtain ⟨es, p, reached, trace, linked⟩ := joined.linked
  obtain ⟨p', trace', stands⟩ := Dpc.stands_of_reach reached
  cases trace.symm.trans trace'
  obtain ⟨idle, pending⟩ := waits
  have drops := stands.drops
  cases p with
  | unpolled | ready => exact absurd linked.2 pending
  | polling | suspended => exact drops
  | dropping =>
      rw [Linked, idle] at linked
      rcases linked with stores | dropped
      · cases stores
      · cases dropped
  | dropped =>
      rw [Linked, idle] at linked
      cases linked

/-- Behind the routine of a timer whose future waits, its `wake_by_ref` has returned. -/
theorem Joined.woken (joined : Joined mode s) (waits : Waits s)
    (calm : s.timer.underway = false) : Roused s := by
  obtain ⟨idle, pending⟩ := waits
  have marks := Timer.marks_of_reach joined.timer
  rcases Timer.pending_underway joined.timer idle pending with way | ⟨r, member, ended⟩
  · rw [calm] at way
    cases way
  · have late : r.woke = true := by
      cases r <;> first | rfl | cases ended
    rcases joined.woke r member late with cancelled | returned
    · have drops := marks.dropped (.inl cancelled)
      rw [idle] at drops
      cases drops
    · obtain ⟨j, t, made, thread, done⟩ := returned_iff.mp returned
      obtain ⟨t', thread', roused⟩ := joined.roused j made
      cases thread.symm.trans thread'
      exact roused (by simp [done])

theorem load_leads (threads : List (Thread Dpc.Call Dpc.Op)) :
    load leads threads = load Dpc.Op.inserts threads + load Dpc.Op.polls threads +
      load Dpc.Op.stores threads + load Dpc.Op.drops threads := by
  rw [← load_add, ← load_add, ← load_add]
  rfl

/-- A roused task whose future waits goes on to its next call. -/
theorem Roused.leads (roused : Roused s) (waits : Waits s) (undropped : s.task.drops = 0)
    (polling : Dpc.Polling s.task) (owed : Dpc.Owed s.task) :
    0 < load leads s.task.threads + s.task.queued.toNat := by
  have loads := load_leads s.task.threads
  cases completed : s.task.completed with
  | true =>
      -- the drop is still ahead
      have once := polling.drops
      rw [completed, undropped, Bool.toNat_true] at once
      omega
  | false =>
      rcases roused with done | decided | ready | ⟨-, unreturned, -⟩
      · rw [completed] at done
        cases done
      · have debt := owed decided completed
        omega
      · rcases polling.ready ready with done | stores
        · rw [completed] at done
          cases done
        · omega
      · exact absurd unreturned waits.2

/-- **A sleeping task is woken.** While its future waits, the timer is on its way, the DPC of
the task is queued, or a thread of the task is about to queue it, to poll the future or to
drop it. So when all is quiet no future waits. -/
theorem sleeper_not_stranded (reached : (system mode).Reach (Exclusive mode) s) :
    (Waits s → s.timer.underway = true ∨ s.task.queued = true ∨
      ∃ t ∈ s.task.threads, ∃ op ∈ t.code, 0 < leads op) ∧
    (s.timer.underway = false → s.task.queued = false → (∀ t ∈ s.task.threads, t.code = []) →
      ¬ Waits s) := by
  have joined := joined_of_reach reached
  have here := joined.exclusive
  obtain ⟨-, polling⟩ := Dpc.polling_of_reach here
  obtain ⟨-, owed⟩ := Dpc.pledges_of_reach (here.mono fun _ _ _ => trivial)
  have served : Waits s → s.timer.underway = true ∨ s.task.queued = true ∨
      ∃ t ∈ s.task.threads, ∃ op ∈ t.code, 0 < leads op := by
    intro waits
    cases calm : s.timer.underway with
    | true => exact .inl rfl
    | false =>
        right
        have next := (joined.woken waits calm).leads waits (joined.undropped waits) polling owed
        cases queued : s.task.queued with
        | true => exact .inl rfl
        | false =>
            rw [queued] at next
            exact .inr (exists_of_load_pos next)
  refine ⟨served, ?_⟩
  intro calm empty idle waits
  rcases served waits with way | queued | ⟨t, member, op, pending, -⟩
  · rw [calm] at way
    cases way
  · rw [empty] at queued
    cases queued
  · rw [idle t member] at pending
    cases pending

/-- Nobody wakes the waker that was stored too late, and the task is polled again. -/
theorem sleeper_not_stranded_of_late_waker :
    ∃ s, (system .off).Reach (Exclusive .off) s ∧
      (s.timer.waker = some 2 ∧ s.timer.woken = [] ∧ s.timer.underway = false) ∧
      (s.task.queued = true ∨ ∃ t ∈ s.task.threads, ∃ op ∈ t.code, 0 < leads op) := by
  obtain ⟨s, reached, idle, pending, late⟩ := Sys.Reach.exists_of_execIf
    (fun s : State => s.timer.client = .idle ∧ s.timer.pending ≠ none ∧
      s.timer.waker = some 2 ∧ s.timer.woken = [] ∧ s.timer.underway = false)
    lateWaker (.start rfl : (system .off).Reach (Exclusive .off) initial) (by decide)
  obtain ⟨served, -⟩ := sleeper_not_stranded reached
  refine ⟨s, reached, late, (served ⟨idle, pending⟩).resolve_left ?_⟩
  rw [late.2.2]
  exact Bool.false_ne_true

end Runs

end Kcom.Sleeper
