import Kcom.Executor.Dpc.Fleet

/-!
# What is left of DPC tasks after a drain

`TaskTracker::drain` is the last thing a driver does before it unloads. When it returns in a
timely run, every tracked task has dropped its future and freed its block, and nobody is
left with a reference: no waker, no handle, no queued DPC. This stays so, since the driver
submits nothing more. Two activations that poll one future may each drop it; in an exclusive
run the future was dropped once.

The tracker itself goes with the driver. In a fenced run no task calls it after the drain,
and no call of a task is still inside it.
-/

namespace Kcom.Dpc

open Conc

namespace Fleet

variable {timing : Tracker.State → Tracker.State.Label → Prop} {mode : Hardening}
  {f f' g : Fleet} {a : Label} {b : Machine.Label} {j : Nat} {s : State}

/-- A drained tracker stays empty. -/
theorem Accounted.stays (accounted : Accounted f) (closed : f.tracker.closed = true)
    (empty : f.tracker.items = 0) (step : f.step mode a = some f') :
    f'.tracker.closed = true ∧ f'.tracker.items = 0 := by
  cases a with
  | machine b =>
      obtain ⟨-, -, tracker⟩ := step_machine step
      rcases tracker with ⟨-, same, -⟩ | ⟨caller, c, calls, called, -⟩
      · rw [same]
        exact ⟨closed, empty⟩
      · obtain ⟨k, i, x, s, -, -, -, which⟩ := access_eq calls
        rcases which with ⟨-, rfl⟩ | ⟨-, rfl⟩
        · obtain ⟨still, -⟩ := callTracker_begin called
          rw [closed] at still
          cases still
        · obtain ⟨items, same, -⟩ := callTracker_complete called
          exact ⟨same.trans closed, by omega⟩
  | drain =>
      obtain ⟨called, -, -⟩ := step_drain step
      obtain ⟨-, entered⟩ := Tracker.State.step_call called
      rw [entered]
      exact ⟨rfl, empty⟩
  | tracker j =>
      obtain ⟨moved, -, -⟩ := step_tracker step
      obtain ⟨c, op, rest, t₁, push, thread, performed, after⟩ := Tracker.State.step_run moved
      obtain ⟨noAdd, noSub⟩ := accounted.behind _ (List.mem_of_getElem? thread)
      obtain ⟨items, same, -⟩ := perform_behind performed
        (fun add => noAdd (add ▸ List.mem_cons_self)) fun sub => noSub (sub ▸ List.mem_cons_self)
      rw [after, Tracker.State.finish_items, Tracker.State.finish_closed]
      exact ⟨same.trans closed, items.trans empty⟩

/-- After the drain every state of the run has an empty tracker. -/
theorem empty_after_drain (always : ∀ t c, timing t (.call c))
    (timely : ∀ t a, timing t a → Tracker.Timely t a)
    (reached : (fleet mode).Reach (Submitted timing mode) f)
    (guard : Submitted timing mode f (.tracker j))
    (step : f.step mode (.tracker j) = some f')
    (returns : Tracker.DrainReturns f.tracker (.run j) f'.tracker)
    (later : ((fleet mode).resume f').Reach (Submitted timing mode) g) :
    (fleet mode).Reach (Submitted timing mode) g ∧ g.tracker.closed = true ∧
      g.tracker.items = 0 := by
  obtain ⟨moved, -, -⟩ := step_tracker step
  have inside := (tracker_of_reach always reached).mono timely
  obtain ⟨-, empty⟩ := Tracker.drain_returns_empty inside (timely _ _ guard) moved returns
  have reached' : (fleet mode).Reach (Submitted timing mode) f' := .step reached guard step
  have closed : f'.tracker.closed = true := by
    obtain ⟨-, inv, -⟩ := accounted_of_reach always timely reached'
    obtain ⟨i, op, rest, -, -, done⟩ := returns
    exact inv.drainer _ (List.mem_of_getElem? done) rfl
  refine Sys.Reach.invariant (I := fun f => (fleet mode).Reach (Submitted timing mode) f ∧
    f.tracker.closed = true ∧ f.tracker.items = 0) ?_ ?_ later
  · rintro f rfl
    exact ⟨reached', closed, empty⟩
  · rintro f a f' ⟨here, closed, empty⟩ guard next
    obtain ⟨accounted, -, -⟩ := accounted_of_reach always timely here
    exact ⟨.step here guard next, accounted.stays closed empty next⟩

/-- A task that is counted in no longer, with its driver submitting nothing, is freed. -/
theorem Accounted.freed (accounted : Accounted f) (consistent : Machine.Consistent mode f.machine)
    (closed : f.tracker.closed = true) (empty : f.tracker.items = 0)
    (member : s ∈ f.machine.tasks) (tracked : s.tracked = true) : s.deallocs = 1 := by
  obtain ⟨memory, enlisted⟩ := enlisted_of_reach (consistent.reached s member)
  have noBegin : load Op.begins s.threads = 0 := by
    refine load_eq_zero.mpr fun t running op pending => ?_
    cases op with
    | trackerBegin =>
        have submits := enlisted.beginning t running pending
        have ended := submitting_eq.mp (accounted.stopped closed) s member t running submits
        rw [ended] at pending
        cases pending
    | _ => rfl
  have begun := memory.begun
  rw [if_pos ⟨enlisted.tracked tracked, tracked⟩] at begun
  have told := memory.told
  rw [if_pos tracked] at told
  have out : s.outstanding = 0 := by
    have le := le_total_of_mem State.outstanding member
    have items := accounted.items
    omega
  rw [State.outstanding] at out
  have once := memory.freed
  split at once <;> omega

/-- No activation passes its check of `completed` while another one of the same task has not
left its loop. -/
def Exclusive (mode : Hardening) (f : Fleet) : Label → Prop
  | .machine (.task k a) => ∀ s ∈ f.machine.tasks[k]?, Dpc.Exclusive mode s a
  | _ => True

instance (mode : Hardening) (f : Fleet) : (a : Label) → Decidable (Exclusive mode f a)
  | .machine (.task k a) =>
      inferInstanceAs (Decidable (∀ s ∈ f.machine.tasks[k]?, Dpc.Exclusive mode s a))
  | .machine (.dequeue _ _) => .isTrue trivial
  | .drain => .isTrue trivial
  | .tracker _ => .isTrue trivial

/-- In an exclusive run of the fleet each task has an exclusive run. -/
theorem exclusive_of_reach
    (reached : (fleet mode).Reach (fun f a => Submitted timing mode f a ∧ Exclusive mode f a) f) :
    ∀ s ∈ f.machine.tasks, (system mode).Reach (Dpc.Exclusive mode) s := by
  induction reached with
  | start first =>
      obtain ⟨n, rfl⟩ := first
      intro s member
      rw [List.eq_of_mem_replicate member]
      exact .start rfl
  | @step f f' a before guard next ih =>
      have here : (fleet mode).Reach (Submitted timing mode) f := before.mono fun _ _ => And.left
      cases a with
      | machine b =>
          obtain ⟨-, moved, -⟩ := step_machine next
          have consistent := Machine.consistent_of_reach (machine_of_reach here)
          obtain ⟨k, s, a, s', found, taken, tasks, same⟩ := machine_step consistent moved
          refine Machine.reached_set ih tasks (.step (ih s (List.mem_of_getElem? found)) ?_ taken)
          rcases same with rfl | ⟨p, -, rfl⟩
          · exact guard.2 s found
          · exact ⟨trivial, trivial⟩
      | drain =>
          have drains : f.step mode .drain = some f' := next
          rwa [(step_drain drains).2.1]
      | tracker j =>
          have goesOn : f.step mode (.tracker j) = some f' := next
          rwa [(step_tracker goesOn).2.1]

/-- **What unloading may rely on.** When `drain` returns in a timely run, then in every state
from there on each tracked task has freed its block and has dropped its future, once if the
run was exclusive; nobody has a reference to the task, and no step accesses the block. -/
theorem drain_frees_tasks (reached : (fleet mode).Reach (Submitted Tracker.Timely mode) f)
    (timely : Submitted Tracker.Timely mode f (.tracker j))
    (step : f.step mode (.tracker j) = some f')
    (returns : Tracker.DrainReturns f.tracker (.run j) f'.tracker)
    (later : ((fleet mode).resume f').Reach (Submitted Tracker.Timely mode) g) :
    ∀ s ∈ g.machine.tasks, s.tracked = true →
      s.deallocs = 1 ∧ 0 < s.drops ∧
        ((fleet mode).Reach (fun f a => Submitted Tracker.Timely mode f a ∧ Exclusive mode f a) g →
          s.drops = 1) ∧
        s.references = 0 ∧ ∀ a s', s.step mode a = some s' → ¬ Touches s a := by
  obtain ⟨here, closed, empty⟩ :=
    empty_after_drain (fun _ _ => trivial) (fun _ _ => id) reached timely step returns later
  obtain ⟨accounted, -, consistent⟩ :=
    accounted_of_reach (fun _ _ => trivial) (fun _ _ => id) here
  intro s member tracked
  have alone := consistent.reached s member
  have freed := accounted.freed consistent closed empty member tracked
  have gone : 0 < s.deallocs := by omega
  obtain ⟨memory, buried⟩ := buried_of_reach alone
  obtain ⟨-, none, quiet⟩ := memory.freed_empty gone
  have dropped : 0 < s.drops := by
    have counted := buried.dropped (buried.freed (Nat.add_pos_left gone _))
    have nobody := drops_le_refs s.threads
    have held := State.references_eq s
    omega
  refine ⟨freed, dropped, ?_, none, (task_memory alone).2.2.1 gone⟩
  intro exclusive
  obtain ⟨-, polling⟩ := polling_of_reach (exclusive_of_reach exclusive s member)
  have drops := polling.drops
  have once : s.completed.toNat ≤ 1 := Bool.toNat_le _
  omega

/-- The driver waits in `drain` for a task that counts itself out. -/
def drained : List Label :=
  freedFirst ++ [.drain, .tracker 1] ++ steps 0 [go 1] ++ [.tracker 2]

/-- The task was polled once, and dropped once. -/
theorem drain_frees_tasks_of_one :
    ∃ f f', (fleet .off).Reach (Submitted Tracker.Timely .off) f ∧
      f.step .off (.tracker 1) = some f' ∧ (∃ s ∈ f'.machine.tasks, s.tracked = true) ∧
      ∀ s ∈ f'.machine.tasks, s.tracked = true →
        s.deallocs = 1 ∧ s.drops = 1 ∧ s.references = 0 ∧
          ∀ a s', s.step .off a = some s' → ¬ Touches s a := by
  obtain ⟨f, reached, thread, timely, found⟩ := Sys.Reach.exists_of_execIf
    (fun f : Fleet => f.tracker.threads[1]? = some ⟨.drain, [.wait]⟩ ∧
      Submitted Tracker.Timely .off f (.tracker 1) ∧
      (f.step .off (.tracker 1)).any fun f' =>
        f'.tracker.threads[1]? = some ⟨.drain, []⟩ ∧ ∃ s ∈ f'.machine.tasks, s.tracked = true)
    drained
    (.start ⟨1, rfl⟩ : (fleet .off).Reach
      (fun f a => Submitted Tracker.Timely .off f a ∧ Exclusive .off f a) (initial 1))
    (by decide)
  obtain ⟨f', step, found⟩ := (Option.any_eq_true _ _).mp found
  obtain ⟨done, tracked⟩ := of_decide_eq_true found
  have here : (fleet .off).Reach (Submitted Tracker.Timely .off) f :=
    reached.mono fun _ _ => And.left
  refine ⟨f, f', here, step, tracked, ?_⟩
  intro s member counted
  obtain ⟨freed, -, once, rest⟩ := drain_frees_tasks here timely step
    ⟨1, .wait, [], rfl, thread, done⟩ (.start rfl) s member counted
  exact ⟨freed, once (.step reached ⟨timely, trivial⟩ step), rest⟩

/-- **What becomes of the tracker.** Once a `drain` has returned in a fenced run, no task
calls the tracker any more, and the calls that tasks have made of it have returned. -/
theorem tracker_outlives_tasks (reached : (fleet mode).Reach (Submitted Tracker.Fenced mode) f)
    (drained : f.tracker.drained = true) :
    (∀ b m, f.machine.step mode b = some m → access f.machine b = none) ∧
      ∀ t ∈ f.tracker.threads, t.tag ≠ .drain → t.code = [] := by
  have always : ∀ t c, Tracker.Fenced t (.call c) := fun _ _ => trivial
  have timely : ∀ t a, Tracker.Fenced t a → Tracker.Timely t a := by
    intro t a fenced
    cases a with
    | run i => exact fenced.1
    | call c => trivial
  obtain ⟨accounted, inv, consistent⟩ := accounted_of_reach always timely reached
  obtain ⟨-, settled⟩ := Tracker.settled_of_reach (tracker_of_reach always reached)
  obtain ⟨closed, empty, noSetter⟩ := settled.drained drained
  have items := inv.items
  refine ⟨?_, ?_⟩
  · intro b m moved
    cases calls : access f.machine b with
    | none => rfl
    | some made =>
        exfalso
        obtain ⟨caller, c⟩ := made
        obtain ⟨k, i, x, s, -, -, here, which⟩ := access_eq calls
        rcases which with ⟨next, -⟩ | ⟨next, -⟩
        · rw [accounted.open_of_begin consistent here next] at closed
          cases closed
        · have claimed := accounted.claimed inv consistent here next
          omega
  · intro t member other
    obtain ⟨noAdd, noSub⟩ := accounted.behind t member
    have none : ∀ op ∈ t.code, Tracker.awaiting op f.tracker.threads ≠ 0 := by
      intro op pending zero
      have here := load_eq_zero.mp zero t member op pending
      rw [if_pos rfl] at here
      cases here
    have stage := inv.stage t member
    cases tag : t.tag with
    | drain => exact absurd tag other
    | begin =>
        rw [tag] at stage
        rcases stage with code | code | code
        · exact absurd (code ▸ List.mem_cons_self) noAdd
        · exact absurd (by omega) (none .initializeEvent (code ▸ List.mem_cons_self))
        · exact code
    | complete =>
        rw [tag] at stage
        rcases stage with code | code | code
        · exact absurd (code ▸ List.mem_cons_self) noSub
        · exact absurd noSetter (none .setEvent (code ▸ List.mem_cons_self))
        · exact code

/-- The task was counted out while the driver waited. -/
theorem tracker_outlives_tasks_of_one :
    ∃ f, (fleet .off).Reach (Submitted Tracker.Fenced .off) f ∧
      (∃ t ∈ f.tracker.threads, t.tag = .complete) ∧
      (∀ b m, f.machine.step .off b = some m → access f.machine b = none) ∧
      ∀ t ∈ f.tracker.threads, t.tag ≠ .drain → t.code = [] := by
  obtain ⟨f, reached, drained, called⟩ := Sys.Reach.exists_of_execIf
    (fun f : Fleet => f.tracker.drained = true ∧ ∃ t ∈ f.tracker.threads, t.tag = .complete)
    (drained ++ [.tracker 1])
    (.start ⟨1, rfl⟩ : (fleet .off).Reach (Submitted Tracker.Fenced .off) (initial 1))
    (by decide)
  exact ⟨f, reached, called, tracker_outlives_tasks reached drained⟩

end Fleet

end Kcom.Dpc
