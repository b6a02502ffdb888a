import Kcom.Executor.Tracker
import Kcom.Executor.Dpc.FirstPoll
import Kcom.Executor.Dpc.Machine

/-!
# DPC tasks and the unload of their driver

Any number of tasks on a machine, those of the tracked spawn functions with one
`TaskTracker` between them. `task_tracker_begin` and `task_tracker_complete` are calls of the
tracker: the step of the task is the call up to its access to the counter, the call goes on
in the tracker with what it has left to do (`KeInitializeEvent`, `KeSetEvent`), and the
thread of the task waits until it has returned.

The driver calls `drain` when it has stopped submitting: its tracked spawn calls have
returned, and it makes no further one (`Submitted`). What the tracker relies on in return is
that a task counts itself in before and out once (`Tracker.State.callable`), and that is
what the tasks do: `tracker_protocol_kept`. What `drain` is there for, and what the driver may
do with the tracker after it, is in `Dpc/Unload.lean`.
-/

namespace Kcom.Dpc

open Conc

/-- A tracked spawn call. -/
def Call.submits : Call → Bool
  | .spawn form => form.hasTracker
  | _ => false

/-! ## A task and its tracker -/

/-- Whether the task is counted in and not yet out. -/
def State.outstanding (s : State) : Nat :=
  s.begins - s.completes

/-- Who counts a task in. -/
structure Enlisted (s : State) : Prop where
  allocating : ∀ t ∈ s.threads, ∀ form, .allocate form ∈ t.code → t.tag = .spawn form
  beginning : ∀ t ∈ s.threads, .trackerBegin ∈ t.code → t.tag.submits = true
  tracked : s.tracked = true → s.allocated = true

section Steps

variable {mode : Hardening} {s s' s₁ : State} {i : Nat} {c : Choice} {f : Call} {op : Op}
  {push rest : List Op}

/-- What an operation tells the tracker. -/
theorem perform_tells (performed : s.perform mode i c op = some (s₁, push)) :
    s₁.begins = s.begins + op.begins ∧ s₁.completes = s.completes + op.completes := by
  cases op with
  | loop op =>
      obtain ⟨-, frame⟩ := performLoop_frame performed
      rw [frame]
      exact ⟨rfl, rfl⟩
  | last op => cases op <;> cases performed <;> exact ⟨rfl, rfl⟩
  | newHandle | addRef | cloneRaw | rawWaker | subRef =>
      simp only [State.perform, Option.map_eq_some_iff] at performed
      obtain ⟨⟨result, count⟩, -, performed⟩ := performed
      cases performed
      exact ⟨rfl, rfl⟩
  | allocate | casScheduled | casCancel | insertQueueDpc =>
      simp only [State.perform] at performed
      split at performed <;> cases performed <;> exact ⟨rfl, rfl⟩
  | casAcknowledge =>
      cases performed
      split <;> exact ⟨rfl, rfl⟩
  | _ =>
      cases performed
      exact ⟨rfl, rfl⟩

/-- Only an allocation brings about that a task is counted in. -/
theorem Memory.enlists (memory : Memory mode s) (thread : s.threads[i]? = some ⟨f, op :: rest⟩)
    (performed : s.perform mode i c op = some (s₁, push)) (old : ∀ form, op ≠ .allocate form) :
    ∀ op' ∈ push, op' ≠ .trackerBegin ∧ ∀ form, op' ≠ .allocate form := by
  have ledger := memory.ledger thread performed old
  have begins := ledger.begins
  have allocates := ledger.allocates
  rw [(perform_tells performed).1] at begins
  have none : op.allocates = 0 := by
    cases op with
    | allocate form => exact absurd rfl (old form)
    | _ => rfl
  rw [none] at allocates
  have noBegin : total Op.begins push = 0 := by omega
  intro op' member
  have noBegin' := total_eq_zero.mp noBegin op' member
  have noAllocate := total_eq_zero.mp allocates op' member
  refine ⟨?_, ?_⟩
  · rintro rfl
    cases noBegin'
  · rintro form rfl
    cases noAllocate

theorem Enlisted.run (enlisted : Enlisted s) (memory : Memory mode s)
    (step : s.step mode (.run i c) = some s') : Enlisted s' := by
  obtain ⟨f, op, rest, s₁, push, finished, thread, performed, rfl⟩ := State.step_run step
  have member := List.mem_of_getElem? thread
  have moved : (∀ form, .allocate form ∈ push ++ rest → f = .spawn form) →
      (.trackerBegin ∈ push ++ rest → f.submits = true) →
      (s₁.tracked = true → s₁.allocated = true) →
        Enlisted (s₁.moved (s.threads.set i ⟨f, push ++ rest⟩) finished) := by
    intro allocating beginning tracked
    refine ⟨?_, ?_, tracked⟩
    · intro t here form pending
      rcases List.mem_or_eq_of_mem_set here with before | rfl
      · exact enlisted.allocating t before form pending
      · exact allocating form pending
    · intro t here pending
      rcases List.mem_or_eq_of_mem_set here with before | rfl
      · exact enlisted.beginning t before pending
      · exact beginning pending
  have restAllocating : ∀ form, .allocate form ∈ rest → f = .spawn form := fun form pending =>
    enlisted.allocating _ member form (List.mem_cons_of_mem _ pending)
  have restBeginning : .trackerBegin ∈ rest → f.submits = true := fun pending =>
    enlisted.beginning _ member (List.mem_cons_of_mem _ pending)
  by_cases spawns : ∃ form, op = .allocate form
  · obtain ⟨form, rfl⟩ := spawns
    have tag : f = .spawn form := enlisted.allocating _ member form List.mem_cons_self
    subst tag
    simp only [State.perform] at performed
    split at performed <;> cases performed
    · exact moved restAllocating restBeginning enlisted.tracked
    · refine moved ?_ ?_ fun _ => rfl
      · intro form' pending
        rcases List.mem_append.mp pending with new | old
        · cases form <;> simp [Spawn.hasTracker, Spawn.hasHandle] at new
        · exact restAllocating form' old
      · intro pending
        rcases List.mem_append.mp pending with new | old
        · cases form <;> simp [Spawn.hasTracker, Spawn.hasHandle] at new <;> rfl
        · exact restBeginning old
  · have old : ∀ form, op ≠ .allocate form := fun form same => spawns ⟨form, same⟩
    have ledger := memory.ledger thread performed old
    have silent := memory.enlists thread performed old
    refine moved ?_ ?_ ?_
    · intro form pending
      rcases List.mem_append.mp pending with new | before
      · exact absurd rfl ((silent _ new).2 form)
      · exact restAllocating form before
    · intro pending
      rcases List.mem_append.mp pending with new | before
      · exact absurd rfl (silent _ new).1
      · exact restBeginning before
    · rw [ledger.tracked, ledger.allocated]
      exact enlisted.tracked

theorem Enlisted.call (enlisted : Enlisted s) (step : s.step mode (.call f) = some s') :
    Enlisted s' := by
  obtain ⟨callable, rfl⟩ := State.step_call step
  have begins := (call_ledger callable).2.1
  have frame : (s.enter f).tracked = s.tracked ∧ (s.enter f).allocated = s.allocated := by
    cases f <;> exact ⟨rfl, rfl⟩
  refine ⟨?_, ?_, ?_⟩
  · intro t here form pending
    rcases List.mem_append.mp here with old | new
    · exact enlisted.allocating t old form pending
    · rw [List.mem_singleton.mp new] at pending ⊢
      cases f with
      | spawn form' => simpa [State.code, eq_comm] using pending
      | setTaskBudget budget => cases budget <;> simp [State.code] at pending
      | _ => simp [State.code] at pending
  · intro t here pending
    rcases List.mem_append.mp here with old | new
    · exact enlisted.beginning t old pending
    · rw [List.mem_singleton.mp new] at pending
      have none := total_eq_zero.mp begins _ pending
      cases none
  · change (s.enter f).tracked = true → (s.enter f).allocated = true
    rw [frame.1, frame.2]
    exact enlisted.tracked

theorem Enlisted.dequeue {cpu : Option Nat} (enlisted : Enlisted s)
    (step : s.step mode (.dequeue cpu) = some s') : Enlisted s' := by
  obtain ⟨-, rfl⟩ := State.step_dequeue step
  refine ⟨?_, ?_, enlisted.tracked⟩ <;> intro t here
  · intro form pending
    rcases List.mem_append.mp here with old | new
    · exact enlisted.allocating t old form pending
    · rw [List.mem_singleton.mp new] at pending
      simp at pending
  · intro pending
    rcases List.mem_append.mp here with old | new
    · exact enlisted.beginning t old pending
    · rw [List.mem_singleton.mp new] at pending
      simp at pending

end Steps

theorem enlisted_of_reach {mode : Hardening} {s : State}
    (reached : (system mode).Reach (Counted mode) s) : Memory mode s ∧ Enlisted s := by
  refine Sys.Reach.invariant (I := fun s => Memory mode s ∧ Enlisted s) ?_ ?_ reached
  · rintro s rfl
    exact ⟨Memory.initial, nofun, nofun, nofun⟩
  · rintro s a s' ⟨memory, enlisted⟩ counted step
    cases a with
    | run i c => exact ⟨memory.run counted step, enlisted.run memory step⟩
    | dequeue cpu =>
        have taken : s.step mode (.dequeue cpu) = some s' := step
        exact ⟨memory.dequeue taken, enlisted.dequeue taken⟩
    | call f =>
        have made : s.step mode (.call f) = some s' := step
        exact ⟨memory.call made, enlisted.call made⟩

section Accounts

variable {mode : Hardening} {s s' : State} {i : Nat} {c : Choice}

/-- A task is counted in once, and out once behind that. -/
theorem Memory.counted_out (memory : Memory mode s) :
    s.begins ≤ 1 ∧ s.completes + load Op.completes s.threads ≤ s.begins ∧
      (0 < s.completes + load Op.completes s.threads → 0 < s.deallocs) := by
  have begun := memory.begun
  have told := memory.told
  have once : s.begins ≤ 1 := by
    split at begun <;> omega
  cases tracked : s.tracked with
  | false =>
      rw [tracked, if_neg Bool.false_ne_true] at told
      exact ⟨once, by omega, by omega⟩
  | true =>
      rw [tracked, if_pos rfl] at told
      refine ⟨once, ?_, by omega⟩
      rcases Nat.eq_zero_or_pos s.deallocs with none | freed
      · omega
      · obtain ⟨born, empty, -⟩ := memory.freed_empty freed
        have noBegin : load Op.begins s.threads = 0 := by
          rw [load_eq_zero]
          intro t member op pending
          cases op with
          | trackerBegin =>
              have pos := memory.references_pos_of_mem member pending rfl
              omega
          | _ => rfl
        have freed' := memory.freed
        rw [if_pos ⟨born, tracked⟩] at begun
        rw [if_pos ⟨born, empty⟩] at freed'
        omega

/-- A thread counts its task in, or out, or neither. -/
theorem outstanding_run (memory : Memory mode s) (memory' : Memory mode s')
    (step : s.step mode (.run i c) = some s') :
    (s.next i = some .trackerBegin ∧ s'.outstanding = s.outstanding + 1 ∧ 0 < s'.begins) ∨
      (s.next i = some .trackerComplete ∧ s'.outstanding + 1 = s.outstanding ∧ 0 < s.deallocs) ∨
      s.next i ≠ some .trackerBegin ∧ s.next i ≠ some .trackerComplete ∧
        s'.outstanding = s.outstanding ∧ s'.begins = s.begins := by
  have before := memory.counted_out
  have after := memory'.counted_out
  obtain ⟨f, op, rest, s₁, push, finished, thread, performed, rfl⟩ := State.step_run step
  have next : s.next i = some op := by simp [State.next, thread]
  have head := head_le_load Op.completes thread
  obtain ⟨begins, completes⟩ := perform_tells performed
  simp only [State.outstanding, State.moved_begins, State.moved_completes, begins, completes,
    next, Option.some.injEq] at *
  cases op with
  | trackerBegin =>
      simp only [Op.begins, Op.completes] at *
      exact .inl ⟨trivial, by omega, by omega⟩
  | trackerComplete =>
      simp only [Op.begins, Op.completes] at *
      exact .inr (.inl ⟨trivial, by omega, by omega⟩)
  | _ =>
      refine .inr (.inr ⟨?_, ?_, rfl, rfl⟩) <;>
        · intro same
          cases same

end Accounts

/-- The tasks on their machine, and the tracker. -/
structure Fleet where
  machine : Machine
  tracker : Tracker.State
  /-- For each call of the tracker the task and the thread that wait for it; `drain` is
  called from outside. -/
  callers : List (Option (Nat × Nat))

namespace Fleet

/-- Before any of `n` tasks is spawned. -/
def initial (n : Nat) : Fleet where
  machine := Machine.initial n
  tracker := Tracker.TaskTracker.new
  callers := []

/-- A step of the machine, a call of `drain`, or a step of a call of the tracker. -/
inductive Label
  | machine (a : Machine.Label)
  | drain
  | tracker (j : Nat)
  deriving DecidableEq, Repr

/-- The call of the tracker that a step makes, and the task and the thread that make it. -/
def access (m : Machine) : Machine.Label → Option ((Nat × Nat) × Tracker.Call)
  | .task k (.run i _) =>
      match (m.tasks[k]?).bind fun s => s.next i with
      | some .trackerBegin => some ((k, i), .begin)
      | some .trackerComplete => some ((k, i), .complete)
      | _ => none
  | _ => none

/-- The thread that is to move waits for a call of the tracker. -/
def waits (f : Fleet) : Machine.Label → Bool
  | .task k (.run i _) => (f.callers.zip f.tracker.threads).any fun (caller, t) =>
      caller = some (k, i) && !t.code.isEmpty
  | _ => false

/-- A call of the tracker up to its access to the counter. -/
def callTracker (t : Tracker.State) (c : Tracker.Call) : Option Tracker.State :=
  (t.step (.call c)).bind fun t' => t'.step (.run t.threads.length)

def step (mode : Hardening) (f : Fleet) : Label → Option Fleet
  | .machine a =>
      if f.waits a then none
      else
        (f.machine.step mode a).bind fun m =>
          match access f.machine a with
          | none => some { f with machine := m }
          | some (caller, c) => (callTracker f.tracker c).map fun t =>
              ⟨m, t, f.callers ++ [some caller]⟩
  | .drain => (f.tracker.step (.call .drain)).map fun t =>
      { f with tracker := t, callers := f.callers ++ [none] }
  | .tracker j => (f.tracker.step (.run j)).map fun t => { f with tracker := t }

/-- The step is a tracked spawn call. -/
def submission : Machine.Label → Bool
  | .task _ (.call f) => f.submits
  | _ => false

/-- A tracked spawn call has not returned. -/
def submitting (m : Machine) : Bool :=
  m.tasks.any fun s => s.threads.any fun t => t.tag.submits && !t.code.isEmpty

/-- The counters of the tasks have room, the driver drains when it has stopped submitting,
and the tracker takes its steps in the way that `timing` allows. -/
def Submitted (timing : Tracker.State → Tracker.State.Label → Prop) (mode : Hardening)
    (f : Fleet) : Label → Prop
  | .machine a => Machine.Counted mode f.machine a ∧
      (submission a = true → f.tracker.closed = false) ∧
        ∀ p ∈ access f.machine a, ∀ t ∈ f.tracker.step (.call p.2),
          timing t (.run f.tracker.threads.length)
  | .drain => submitting f.machine = false
  | .tracker j => timing f.tracker (.run j)

instance (timing : Tracker.State → Tracker.State.Label → Prop)
    [∀ t a, Decidable (timing t a)] (mode : Hardening) (f : Fleet) :
    (a : Label) → Decidable (Submitted timing mode f a)
  | .machine a => inferInstanceAs (Decidable (Machine.Counted mode f.machine a ∧
      (submission a = true → f.tracker.closed = false) ∧
        ∀ p ∈ access f.machine a, ∀ t ∈ f.tracker.step (.call p.2),
          timing t (.run f.tracker.threads.length)))
  | .drain => inferInstanceAs (Decidable (submitting f.machine = false))
  | .tracker j => inferInstanceAs (Decidable (timing f.tracker (.run j)))

end Fleet

/-- The tasks of a driver and their tracker, in one of the builds of the reference counter. -/
def fleet (mode : Hardening) : Sys Fleet Fleet.Label where
  start f := ∃ n, f = Fleet.initial n
  step := Fleet.step mode

namespace Fleet

variable {timing : Tracker.State → Tracker.State.Label → Prop} {mode : Hardening}
  {f f' : Fleet} {a : Label} {b : Machine.Label} {c : Tracker.Call} {j k i : Nat}
  {s s' : State}

/-! ## Inversion of the steps -/

theorem step_machine (step : f.step mode (.machine b) = some f') :
    f.waits b = false ∧ f.machine.step mode b = some f'.machine ∧
      ((access f.machine b = none ∧ f'.tracker = f.tracker ∧ f'.callers = f.callers) ∨
        ∃ caller c, access f.machine b = some (caller, c) ∧
          callTracker f.tracker c = some f'.tracker ∧ f'.callers = f.callers ++ [some caller]) := by
  simp only [Fleet.step] at step
  split at step
  · cases step
  · next free =>
      obtain ⟨m, moved, rest⟩ := Option.bind_eq_some_iff.mp step
      refine ⟨Bool.eq_false_iff.mpr free, ?_⟩
      split at rest
      · next silent =>
          cases rest
          exact ⟨moved, .inl ⟨silent, rfl, rfl⟩⟩
      · next caller c loud =>
          obtain ⟨t, called, rfl⟩ := Option.map_eq_some_iff.mp rest
          exact ⟨moved, .inr ⟨caller, c, loud, called, rfl⟩⟩

theorem step_drain (step : f.step mode .drain = some f') :
    f.tracker.step (.call .drain) = some f'.tracker ∧ f'.machine = f.machine ∧
      f'.callers = f.callers ++ [none] := by
  obtain ⟨t, called, rfl⟩ := Option.map_eq_some_iff.mp step
  exact ⟨called, rfl, rfl⟩

theorem step_tracker (step : f.step mode (.tracker j) = some f') :
    f.tracker.step (.run j) = some f'.tracker ∧ f'.machine = f.machine ∧
      f'.callers = f.callers := by
  obtain ⟨t, moved, rfl⟩ := Option.map_eq_some_iff.mp step
  exact ⟨moved, rfl, rfl⟩

/-- Which steps call the tracker. -/
theorem access_eq {caller : Nat × Nat} (calls : access f.machine b = some (caller, c)) :
    ∃ k i x s, b = .task k (.run i x) ∧ caller = (k, i) ∧ f.machine.tasks[k]? = some s ∧
      ((s.next i = some .trackerBegin ∧ c = .begin) ∨
        (s.next i = some .trackerComplete ∧ c = .complete)) := by
  cases b with
  | dequeue => cases calls
  | task k a =>
      cases a with
      | dequeue | call => cases calls
      | run i x =>
          simp only [access] at calls
          split at calls
          · next op =>
              cases calls
              obtain ⟨s, here, next⟩ := Option.bind_eq_some_iff.mp op
              exact ⟨k, i, x, s, rfl, rfl, here, .inl ⟨next, rfl⟩⟩
          · next op =>
              cases calls
              obtain ⟨s, here, next⟩ := Option.bind_eq_some_iff.mp op
              exact ⟨k, i, x, s, rfl, rfl, here, .inr ⟨next, rfl⟩⟩
          · cases calls

/-- A call of the tracker up to its access to the counter. -/
theorem callTracker_eq {t t' : Tracker.State} (called : callTracker t c = some t') :
    t.callable c = true ∧ ∃ op t₁ push, c.code = [op] ∧
      Tracker.State.perform { t.enter c with threads := t.threads ++ [⟨c, c.code⟩] } op =
        some (t₁, push) ∧
      t' = Tracker.State.finish { t₁ with threads := t.threads ++ [⟨c, push⟩] } c push := by
  obtain ⟨t₁, entered, ran⟩ := Option.bind_eq_some_iff.mp called
  obtain ⟨callable, rfl⟩ := Tracker.State.step_call entered
  obtain ⟨g, op, rest, t₂, push, thread, performed, rfl⟩ := Tracker.State.step_run ran
  have last : (t.threads ++ [Thread.mk c c.code])[t.threads.length]? = some ⟨c, c.code⟩ :=
    List.getElem?_concat_length ..
  have same := Option.some.inj (last.symm.trans thread)
  have set : (t.threads ++ [Thread.mk c c.code]).set t.threads.length ⟨g, push ++ rest⟩ =
      t.threads ++ [⟨g, push ++ rest⟩] := by
    rw [List.set_append_right _ _ (Nat.le_refl _), Nat.sub_self]
    rfl
  have code : c.code = op :: rest := congrArg Thread.code same
  have tag : c = g := congrArg Thread.tag same
  have single : rest = [] := by
    cases c <;> cases code <;> rfl
  subst tag single
  refine ⟨callable, op, t₂, push, code, performed, ?_⟩
  rw [set, List.append_nil]

/-- A task is counted in. -/
theorem callTracker_begin {t t' : Tracker.State} (called : callTracker t .begin = some t') :
    t.closed = false ∧ t'.items = t.items + 1 ∧ t'.closed = t.closed ∧
      ∃ push, t'.threads = t.threads ++ [⟨.begin, push⟩] ∧
        (push = [] ∨ push = [.initializeEvent] ∧ t.pending = 0) := by
  obtain ⟨callable, op, t₁, push, code, performed, rfl⟩ := callTracker_eq called
  cases code
  simp only [Tracker.State.perform, Option.some.injEq, Prod.mk.injEq] at performed
  obtain ⟨rfl, rfl⟩ := performed
  refine ⟨by simpa [Tracker.State.callable] using callable, Tracker.State.finish_items,
    Tracker.State.finish_closed, _, Tracker.State.finish_threads, ?_⟩
  split
  · next zero => exact .inr ⟨rfl, zero⟩
  · exact .inl rfl

/-- A task is counted out. -/
theorem callTracker_complete {t t' : Tracker.State} (called : callTracker t .complete = some t') :
    t'.items = t.items - 1 ∧ t'.closed = t.closed ∧
      ∃ push, t'.threads = t.threads ++ [⟨.complete, push⟩] ∧ (push = [] ∨ push = [.setEvent]) := by
  obtain ⟨callable, op, t₁, push, code, performed, rfl⟩ := callTracker_eq called
  cases code
  simp only [Tracker.State.perform, Option.some.injEq, Prod.mk.injEq] at performed
  obtain ⟨rfl, rfl⟩ := performed
  refine ⟨Tracker.State.finish_items, Tracker.State.finish_closed, _,
    Tracker.State.finish_threads, ?_⟩
  split
  · exact .inr rfl
  · exact .inl rfl

/-- Neither call blocks. -/
theorem exists_callTracker {t : Tracker.State} (callable : t.callable c = true)
    (counts : c = .begin ∨ c = .complete) : ∃ t', callTracker t c = some t' := by
  have entered : t.step (.call c) = some { t.enter c with threads := t.threads ++ [⟨c, c.code⟩] } :=
    if_pos callable
  have last : (t.threads ++ [Thread.mk c c.code])[t.threads.length]? = some ⟨c, c.code⟩ :=
    List.getElem?_concat_length ..
  unfold callTracker
  rw [entered, Option.bind_some]
  simp only [Tracker.State.step, last]
  rcases counts with rfl | rfl <;> exact ⟨_, rfl⟩

/-! ## The parts of a run -/

theorem machine_of_reach (reached : (fleet mode).Reach (Submitted timing mode) f) :
    (Dpc.machine mode).Reach (Machine.Counted mode) f.machine := by
  induction reached with
  | start first =>
      obtain ⟨n, rfl⟩ := first
      exact .start ⟨n, rfl⟩
  | @step f f' a _ guard next ih =>
      cases a with
      | machine b =>
          obtain ⟨-, moved, -⟩ := step_machine next
          exact .step ih guard.1 moved
      | drain =>
          have drains : f.step mode .drain = some f' := next
          rwa [(step_drain drains).2.1]
      | tracker j =>
          have goesOn : f.step mode (.tracker j) = some f' := next
          rwa [(step_tracker goesOn).2.1]

/-- The tracker takes steps of its own only. -/
theorem tracker_of_reach (always : ∀ t c, timing t (.call c))
    (reached : (fleet mode).Reach (Submitted timing mode) f) :
    Tracker.system.Reach timing f.tracker := by
  induction reached with
  | start first =>
      obtain ⟨n, rfl⟩ := first
      exact .start (.inl rfl)
  | @step f f' a _ guard next ih =>
      cases a with
      | machine b =>
          obtain ⟨-, -, tracker⟩ := step_machine next
          rcases tracker with ⟨-, same, -⟩ | ⟨caller, c, calls, called, -⟩
          · rwa [same]
          · obtain ⟨t, entered, ran⟩ := Option.bind_eq_some_iff.mp called
            have inside : Tracker.system.Reach timing t := .step ih (always _ _) entered
            exact .step inside (guard.2.2 _ calls t entered) ran
      | drain =>
          have drains : f.step mode .drain = some f' := next
          obtain ⟨called, -, -⟩ := step_drain drains
          exact .step ih (always _ _) called
      | tracker j =>
          have goesOn : f.step mode (.tracker j) = some f' := next
          obtain ⟨moved, -, -⟩ := step_tracker goesOn
          exact .step ih guard moved

/-- A step of the machine is a step of one task. -/
theorem machine_step {m m' : Machine} (consistent : Machine.Consistent mode m)
    (step : m.step mode b = some m') :
    ∃ k s a s', m.tasks[k]? = some s ∧ s.step mode a = some s' ∧ m'.tasks = m.tasks.set k s' ∧
      (b = .task k a ∨ ∃ p, b = .dequeue k p ∧ a = .dequeue (currentCpuIndex p)) := by
  cases b with
  | dequeue k p =>
      obtain ⟨s, s', here, moved, -, rfl⟩ := Machine.step_dequeue step
      exact ⟨k, s, _, s', here, moved, rfl, .inr ⟨p, rfl, rfl⟩⟩
  | task k a =>
      cases a with
      | run i c =>
          obtain ⟨s, s', f, op, rest, here, thread, moved, tasks, -⟩ := consistent.step_run step
          exact ⟨k, s, .run i c, s', here, moved, tasks, .inl rfl⟩
      | call f =>
          obtain ⟨s, s', here, moved, rfl⟩ := Machine.step_call step
          exact ⟨k, s, .call f, s', here, moved, rfl, .inl rfl⟩
      | dequeue cpu => cases step

/-! ## The accounts of the tracker -/

/-- The caller is a tracked spawn call with a task in its hands that it has counted in. -/
def InHand (m : Machine) (caller : Option (Nat × Nat)) : Prop :=
  ∃ (k i : Nat) (s : State) (u : Thread Call Op), caller = some (k, i) ∧ m.tasks[k]? = some s ∧
    0 < s.begins ∧ s.threads[i]? = some u ∧ u.tag.submits = true ∧ 0 < total Op.refs u.code

/-- What holds of the tasks and their tracker in every state reached. -/
structure Accounted (f : Fleet) : Prop where
  items : f.tracker.items = total State.outstanding f.machine.tasks
  length : f.callers.length = f.tracker.threads.length
  /-- The access of a task's call to the counter is behind it. -/
  behind : ∀ t ∈ f.tracker.threads, .fetchAdd ∉ t.code ∧ .fetchSub ∉ t.code
  /-- A task whose `begin` has not returned is in the hands of its spawner. -/
  opening : ∀ (j : Nat) (t : Thread Tracker.Call Tracker.Op), f.tracker.threads[j]? = some t →
    .initializeEvent ∈ t.code → ∃ caller, f.callers[j]? = some caller ∧ InHand f.machine caller
  single : Tracker.awaiting .initializeEvent f.tracker.threads ≤ 1
  stopped : f.tracker.closed = true → submitting f.machine = false

theorem Accounted.initial (n : Nat) : Accounted (initial n) where
  items := by
    have none : total State.outstanding (List.replicate n Dpc.initial) = 0 := by
      apply total_eq_zero.mpr
      intro s member
      rw [List.eq_of_mem_replicate member]
      rfl
    exact none.symm
  length := rfl
  behind := nofun
  opening := nofun
  single := Nat.zero_le _
  stopped := nofun

/-- What a step of a machine does to the task it is a step of, for its tracker. -/
theorem access_step {m : Machine} {a : State.Label} (here : m.tasks[k]? = some s)
    (moved : s.step mode a = some s') (memory : Memory mode s) (memory' : Memory mode s')
    (same : b = .task k a ∨ ∃ p, b = .dequeue k p ∧ a = .dequeue (currentCpuIndex p)) :
    (access m b = none ∧ s'.outstanding = s.outstanding) ∨
      (∃ i x, a = .run i x ∧ access m b = some ((k, i), .begin) ∧
        s'.outstanding = s.outstanding + 1 ∧ 0 < s'.begins) ∨
      ∃ i, access m b = some ((k, i), .complete) ∧ s'.outstanding + 1 = s.outstanding ∧
        0 < s.deallocs := by
  cases a with
  | dequeue cpu =>
      obtain ⟨-, rfl⟩ := State.step_dequeue moved
      refine .inl ⟨?_, rfl⟩
      rcases same with rfl | ⟨p, rfl, -⟩ <;> rfl
  | call g =>
      obtain ⟨-, rfl⟩ := State.step_call moved
      refine .inl ⟨?_, ?_⟩
      · rcases same with rfl | ⟨p, -, other⟩
        · rfl
        · cases other
      · cases g <;> rfl
  | run i x =>
      rcases same with rfl | ⟨p, -, other⟩
      · simp only [access, here, Option.bind_some]
        rcases outstanding_run memory memory' moved with ⟨next, more, begun⟩ |
          ⟨next, fewer, freed⟩ | ⟨noBegin, noComplete, even, -⟩
        · exact .inr (.inl ⟨i, x, rfl, by rw [next], more, begun⟩)
        · exact .inr (.inr ⟨i, by rw [next], fewer, freed⟩)
        · refine .inl ⟨?_, even⟩
          split
          · next next => exact absurd next noBegin
          · next next => exact absurd next noComplete
          · rfl
      · cases other

/-- A thread that does not move stays where it is. -/
theorem thread_kept {a : State.Label} {u : Thread Call Op} (moved : s.step mode a = some s')
    (other : ∀ x, a ≠ .run i x) (thread : s.threads[i]? = some u) :
    s'.threads[i]? = some u ∧ s.begins ≤ s'.begins := by
  cases a with
  | dequeue cpu =>
      obtain ⟨-, rfl⟩ := State.step_dequeue moved
      refine ⟨?_, Nat.le_refl _⟩
      rw [List.getElem?_append_left (List.getElem?_eq_some_iff.mp thread).1, thread]
  | call g =>
      obtain ⟨-, rfl⟩ := State.step_call moved
      refine ⟨?_, ?_⟩
      · dsimp only
        rw [List.getElem?_append_left (List.getElem?_eq_some_iff.mp thread).1, thread]
      · cases g <;> exact Nat.le_refl _
  | run i' x =>
      obtain ⟨g, op, rest, s₁, push, finished, -, performed, rfl⟩ := State.step_run moved
      have ne : i' ≠ i := by
        rintro rfl
        exact other x rfl
      refine ⟨?_, ?_⟩
      · rw [State.moved_threads, List.getElem?_set_ne ne, thread]
      · rw [State.moved_begins, (perform_tells performed).1]
        exact Nat.le_add_right _ _

/-- A caller that waits keeps its task. -/
theorem InHand.step {m m' : Machine} {a : State.Label} {caller : Option (Nat × Nat)}
    (inHand : InHand m caller) (here : m.tasks[k]? = some s) (moved : s.step mode a = some s')
    (tasks : m'.tasks = m.tasks.set k s') (other : ∀ i x, caller = some (k, i) → a ≠ .run i x) :
    InHand m' caller := by
  obtain ⟨k', i', s₀, u, rfl, there, begun, thread, submits, held⟩ := inHand
  by_cases same : k = k'
  · subst same
    cases here.symm.trans there
    obtain ⟨thread', le⟩ := thread_kept moved (fun x => other i' x rfl) thread
    refine ⟨k, i', s', u, rfl, ?_, by omega, thread', submits, held⟩
    rw [tasks, List.getElem?_set_self (List.getElem?_eq_some_iff.mp here).1]
  · refine ⟨k', i', s₀, u, rfl, ?_, begun, thread, submits, held⟩
    rw [tasks, List.getElem?_set_ne same, there]

/-- Who waits does not move. -/
theorem waits_of_open {t : Thread Tracker.Call Tracker.Op} {x : Choice}
    (caller : f.callers[j]? = some (some (k, i))) (thread : f.tracker.threads[j]? = some t)
    (open' : t.code ≠ []) : f.waits (.task k (.run i x)) = true := by
  have pair : (f.callers.zip f.tracker.threads)[j]? = some (some (k, i), t) :=
    List.getElem?_zip_eq_some.mpr ⟨caller, thread⟩
  simp only [waits, List.any_eq_true]
  exact ⟨_, List.mem_of_getElem? pair, by simp [open']⟩

theorem submitting_eq {m : Machine} : submitting m = false ↔
    ∀ s ∈ m.tasks, ∀ t ∈ s.threads, t.tag.submits = true → t.code = [] := by
  simp [submitting]

/-- A driver that has stopped submitting submits nothing with another step. -/
theorem submitting_step {m m' : Machine} {a : State.Label} (stopped : submitting m = false)
    (here : m.tasks[k]? = some s) (moved : s.step mode a = some s')
    (tasks : m'.tasks = m.tasks.set k s')
    (same : b = .task k a ∨ ∃ p, b = .dequeue k p ∧ a = .dequeue (currentCpuIndex p))
    (quiet : submission b = false) : submitting m' = false := by
  rw [submitting_eq] at stopped ⊢
  have before := stopped s (List.mem_of_getElem? here)
  rw [tasks]
  intro s₀ member
  rcases List.mem_or_eq_of_mem_set member with old | rfl
  · exact stopped s₀ old
  · cases a with
    | dequeue cpu =>
        obtain ⟨-, rfl⟩ := State.step_dequeue moved
        intro t thread submits
        rcases List.mem_append.mp thread with old | new
        · exact before t old submits
        · rw [List.mem_singleton.mp new] at submits
          cases submits
    | call g =>
        obtain ⟨-, rfl⟩ := State.step_call moved
        intro t thread submits
        rcases List.mem_append.mp thread with old | new
        · exact before t old submits
        · rw [List.mem_singleton.mp new] at submits
          rcases same with rfl | ⟨p, -, other⟩
          · exact absurd submits (by rw [show g.submits = false from quiet]; exact nofun)
          · cases other
    | run i x =>
        obtain ⟨g, op, rest, s₁, push, finished, thread, -, rfl⟩ := State.step_run moved
        rw [State.moved_threads]
        intro t there submits
        rcases List.mem_or_eq_of_mem_set there with old | rfl
        · exact before t old submits
        · cases before _ (List.mem_of_getElem? thread) submits

/-- A thread that counts its task in goes on holding it. -/
theorem begin_holds {x : Choice} (memory : Memory mode s) (enlisted : Enlisted s)
    (next : s.next i = some .trackerBegin) (moved : s.step mode (.run i x) = some s') :
    ∃ u, s'.threads[i]? = some u ∧ u.tag.submits = true ∧ 0 < total Op.refs u.code := by
  obtain ⟨g, op, rest, s₁, push, finished, thread, performed, rfl⟩ := State.step_run moved
  have member := List.mem_of_getElem? thread
  have first : op = .trackerBegin := by
    simpa [State.next, thread] using next
  subst first
  cases performed
  have submits := enlisted.beginning _ member List.mem_cons_self
  have spawner : g.source = none := by
    cases g with
    | spawn form => rfl
    | _ => cases submits
  have held := (memory.covered _ member spawner).1 rfl
  refine ⟨⟨g, rest⟩, ?_, submits, ?_⟩
  · rw [State.moved_threads, List.nil_append,
      List.getElem?_set_self (List.getElem?_eq_some_iff.mp thread).1]
  · simpa [Op.refs] using held

/-- A call of the tracker is made. -/
theorem Accounted.called {push : List Tracker.Op} {caller : Option (Nat × Nat)}
    (accounted : Accounted f)
    (threads : f'.tracker.threads = f.tracker.threads ++ [⟨c, push⟩])
    (callers : f'.callers = f.callers ++ [caller])
    (items : f'.tracker.items = total State.outstanding f'.machine.tasks)
    (later : .fetchAdd ∉ push ∧ .fetchSub ∉ push)
    (kept : ∀ (j : Nat) (t : Thread Tracker.Call Tracker.Op), f.tracker.threads[j]? = some t →
      .initializeEvent ∈ t.code →
        ∃ caller, f.callers[j]? = some caller ∧ InHand f'.machine caller)
    (new : .initializeEvent ∈ push → InHand f'.machine caller)
    (single : Tracker.awaiting .initializeEvent f.tracker.threads +
      push.count .initializeEvent ≤ 1)
    (stops : f'.tracker.closed = true → submitting f'.machine = false) : Accounted f' := by
  have length := accounted.length
  refine ⟨items, ?_, ?_, ?_, ?_, stops⟩
  · rw [threads, callers, List.length_append, List.length_append, length]
    rfl
  · rw [threads]
    intro t member
    rcases List.mem_append.mp member with old | added
    · exact accounted.behind t old
    · rw [List.mem_singleton.mp added]
      exact later
  · rw [threads, callers]
    intro j t thread pending
    rcases Nat.lt_or_ge j f.tracker.threads.length with below | beyond
    · rw [List.getElem?_append_left below] at thread
      obtain ⟨caller', waiting, inHand⟩ := kept j t thread pending
      exact ⟨caller', by rw [List.getElem?_append_left (length ▸ below), waiting], inHand⟩
    · rw [List.getElem?_append_right beyond] at thread
      have last : j = f.tracker.threads.length := by
        have short := (List.getElem?_eq_some_iff.mp thread).1
        rw [List.length_singleton] at short
        omega
      rw [List.mem_singleton.mp (List.mem_of_getElem? thread)] at pending
      refine ⟨caller, ?_, new pending⟩
      rw [last, ← length, List.getElem?_concat_length]
  · rw [threads, Tracker.awaiting_append]
    exact single

theorem Accounted.machine (accounted : Accounted f) (inv : Tracker.Inv f.tracker)
    (consistent : Machine.Consistent mode f.machine)
    (consistent' : Machine.Consistent mode f'.machine)
    (guard : Submitted timing mode f (.machine b))
    (step : f.step mode (.machine b) = some f') : Accounted f' := by
  have items := accounted.items
  have single := accounted.single
  obtain ⟨free, moved, tracker⟩ := step_machine step
  obtain ⟨k, s, a, s', here, next, tasks, same⟩ := machine_step consistent moved
  have mine : f'.machine.tasks[k]? = some s' := by
    rw [tasks, List.getElem?_set_self (List.getElem?_eq_some_iff.mp here).1]
  obtain ⟨memory, enlisted⟩ :=
    enlisted_of_reach (consistent.reached s (List.mem_of_getElem? here))
  have memory' := memory_of_reach (consistent'.reached s' (List.mem_of_getElem? mine))
  have sum := total_set State.outstanding s' here
  rw [← tasks] at sum
  have one := le_total State.outstanding here
  -- who waits is not the one that moves
  have kept : ∀ (j : Nat) (t : Thread Tracker.Call Tracker.Op), f.tracker.threads[j]? = some t →
      .initializeEvent ∈ t.code →
        ∃ caller, f.callers[j]? = some caller ∧ InHand f'.machine caller := by
    intro j t thread pending
    obtain ⟨caller, waiting, inHand⟩ := accounted.opening j t thread pending
    refine ⟨caller, waiting, inHand.step here next tasks ?_⟩
    rintro i x rfl rfl
    have blocked := waits_of_open (x := x) waiting thread (List.ne_nil_of_mem pending)
    rcases same with rfl | ⟨p, -, other⟩
    · rw [free] at blocked
      cases blocked
    · cases other
  have stops : f'.tracker.closed = f.tracker.closed → f'.tracker.closed = true →
      submitting f'.machine = false := by
    intro unchanged closed
    rw [unchanged] at closed
    refine submitting_step (accounted.stopped closed) here next tasks same (Bool.eq_false_iff.mpr ?_)
    intro submits
    rw [guard.2.1 submits] at closed
    cases closed
  have calls := access_step here next memory memory' same
  rcases tracker with ⟨silent, tracker, callers⟩ | ⟨caller, c, loud, called, callers⟩
  · have even : s'.outstanding = s.outstanding := by
      rcases calls with ⟨-, even⟩ | ⟨i, x, -, begins, -⟩ | ⟨i, completes, -⟩
      · exact even
      · rw [silent] at begins
        cases begins
      · rw [silent] at completes
        cases completes
    refine ⟨?_, ?_, ?_, ?_, ?_, ?_⟩
    · rw [tracker]
      omega
    · rw [tracker, callers, accounted.length]
    · rw [tracker]
      exact accounted.behind
    · rw [tracker, callers]
      exact kept
    · rw [tracker]
      exact single
    · exact stops (by rw [tracker])
  · rcases calls with ⟨silent, -⟩ | ⟨i, x, rfl, begins, more, begun⟩ | ⟨i, completes, fewer, -⟩
    · rw [silent] at loud
      cases loud
    · cases begins.symm.trans loud
      obtain ⟨-, counted, closed, push, threads, shape⟩ := callTracker_begin called
      have next' : s.next i = some .trackerBegin := by
        rcases outstanding_run memory memory' next with ⟨first, -⟩ | ⟨-, fewer, -⟩ | ⟨-, -, even, -⟩
        · exact first
        · omega
        · omega
      obtain ⟨u, thread, submits, held⟩ := begin_holds memory enlisted next' next
      refine accounted.called threads callers (by omega) ?_ kept
        (fun _ => ⟨k, i, s', u, rfl, mine, begun, thread, submits, held⟩) ?_ (stops closed)
      · rcases shape with rfl | ⟨rfl, -⟩ <;> simp
      · rcases shape with rfl | ⟨rfl, zero⟩
        · exact single
        · -- the counter was 0, so no other `begin` is on its way
          have idle := inv.items
          have none := inv.pending
          simp only [List.count_cons_self, List.count_nil]
          omega
    · cases completes.symm.trans loud
      obtain ⟨counted, closed, push, threads, shape⟩ := callTracker_complete called
      refine accounted.called threads callers (by omega) ?_ kept ?_ ?_ (stops closed)
      · rcases shape with rfl | rfl <;> simp
      · intro pending
        rcases shape with rfl | rfl <;> simp at pending
      · rcases shape with rfl | rfl <;> exact single

theorem Accounted.drain (accounted : Accounted f) (stopped : submitting f.machine = false)
    (step : f.step mode .drain = some f') : Accounted f' := by
  obtain ⟨called, machine, callers⟩ := step_drain step
  obtain ⟨-, entered⟩ := Tracker.State.step_call called
  have threads : f'.tracker.threads = f.tracker.threads ++ [⟨.drain, [.load]⟩] := by
    rw [entered]
    rfl
  refine accounted.called threads callers ?_ ?_ ?_ ?_ ?_ ?_
  · rw [machine, entered]
    exact accounted.items
  · simp
  · rw [machine]
    exact accounted.opening
  · simp
  · simpa using accounted.single
  · intro _
    rw [machine, stopped]

/-- A step of a call behind its access to the counter. -/
theorem perform_behind {t t₁ : Tracker.State} {op : Tracker.Op} {push : List Tracker.Op}
    (performed : t.perform op = some (t₁, push)) (noAdd : op ≠ .fetchAdd)
    (noSub : op ≠ .fetchSub) :
    t₁.items = t.items ∧ t₁.closed = t.closed ∧ (push = [] ∨ push = [.wait]) := by
  cases op with
  | fetchAdd => exact absurd rfl noAdd
  | fetchSub => exact absurd rfl noSub
  | initializeEvent | setEvent =>
      cases performed
      exact ⟨rfl, rfl, .inl rfl⟩
  | load =>
      cases performed
      refine ⟨rfl, rfl, ?_⟩
      split
      · exact .inl rfl
      · exact .inr rfl
  | wait =>
      simp only [Tracker.State.perform] at performed
      split at performed <;> cases performed
      exact ⟨rfl, rfl, .inl rfl⟩

theorem Accounted.tracker (accounted : Accounted f) (inv : Tracker.Inv f.tracker)
    (step : f.step mode (.tracker j) = some f') : Accounted f' := by
  obtain ⟨moved, machine, callers⟩ := step_tracker step
  obtain ⟨g, op, rest, t₁, push, thread, performed, after⟩ := Tracker.State.step_run moved
  have member := List.mem_of_getElem? thread
  obtain ⟨noAdd, noSub⟩ := accounted.behind _ member
  have single : rest = [] := by
    have stage : g.Stage (op :: rest) := inv.stage _ member
    cases g <;> rcases stage with stage | stage | stage <;> cases stage <;> rfl
  subst single
  obtain ⟨items, closed, shape⟩ := perform_behind performed
    (fun same => noAdd (same ▸ List.mem_cons_self)) fun same => noSub (same ▸ List.mem_cons_self)
  rw [List.append_nil] at after
  have threads : f'.tracker.threads = f.tracker.threads.set j ⟨g, push⟩ := by
    rw [after, Tracker.State.finish_threads]
  have quiet : .fetchAdd ∉ push ∧ .fetchSub ∉ push ∧ push.count .initializeEvent = 0 := by
    rcases shape with rfl | rfl <;> simp
  refine ⟨?_, ?_, ?_, ?_, ?_, ?_⟩
  · rw [machine, after, Tracker.State.finish_items]
    exact items.trans accounted.items
  · rw [callers, threads, List.length_set]
    exact accounted.length
  · rw [threads]
    intro t here
    rcases List.mem_or_eq_of_mem_set here with old | rfl
    · exact accounted.behind t old
    · exact ⟨quiet.1, quiet.2.1⟩
  · rw [machine, callers, threads]
    intro j' t there pending
    by_cases same : j = j'
    · subst same
      rw [List.getElem?_set_self (List.getElem?_eq_some_iff.mp thread).1] at there
      cases there
      exact absurd pending (List.count_eq_zero.mp quiet.2.2)
    · rw [List.getElem?_set_ne same] at there
      exact accounted.opening j' t there pending
  · have awaits := Tracker.awaiting_set .initializeEvent push thread
    have one := accounted.single
    rw [threads]
    omega
  · rw [machine, after, Tracker.State.finish_closed]
    intro now
    exact accounted.stopped (closed.symm.trans now)

/-- What holds in every state of a run. -/
theorem accounted_of_reach (always : ∀ t c, timing t (.call c))
    (timely : ∀ t a, timing t a → Tracker.Timely t a)
    (reached : (fleet mode).Reach (Submitted timing mode) f) :
    Accounted f ∧ Tracker.Inv f.tracker ∧ Machine.Consistent mode f.machine := by
  have parts : ∀ {f}, (fleet mode).Reach (Submitted timing mode) f →
      Tracker.Inv f.tracker ∧ Machine.Consistent mode f.machine := fun reached =>
    ⟨Tracker.inv_of_reach ((tracker_of_reach always reached).mono timely),
      Machine.consistent_of_reach (machine_of_reach reached)⟩
  refine ⟨?_, parts reached⟩
  induction reached with
  | start first =>
      obtain ⟨n, rfl⟩ := first
      exact .initial n
  | @step f f' a before guard next ih =>
      obtain ⟨inv, consistent⟩ := parts before
      have consistent' := (parts (.step before guard next)).2
      cases a with
      | machine b => exact ih.machine inv consistent consistent' guard next
      | drain =>
          have drains : f.step mode .drain = some f' := next
          exact ih.drain guard drains
      | tracker j =>
          have goesOn : f.step mode (.tracker j) = some f' := next
          exact ih.tracker inv goesOn

/-! ## The protocol of the tracker -/

/-- A task that counts itself out was counted in by a `begin` that has returned. -/
theorem Accounted.claimed (accounted : Accounted f) (inv : Tracker.Inv f.tracker)
    (consistent : Machine.Consistent mode f.machine) (here : f.machine.tasks[k]? = some s)
    (next : s.next i = some .trackerComplete) : 0 < f.tracker.unclaimed := by
  have reached := consistent.reached s (List.mem_of_getElem? here)
  have memory := memory_of_reach reached
  obtain ⟨t, thread, head⟩ := Option.bind_eq_some_iff.mp next
  obtain ⟨g, code⟩ := t
  obtain ⟨rest, rfl⟩ := List.head?_eq_some_iff.mp head
  have one := head_le_load Op.completes thread
  obtain ⟨once, told, freed⟩ := memory.counted_out
  simp only [Op.completes] at one
  have mine : s.outstanding = 1 := by
    rw [State.outstanding]
    omega
  have noSub : Tracker.awaiting .fetchSub f.tracker.threads = 0 := by
    refine load_eq_zero.mpr fun t member op pending => if_neg ?_
    rintro rfl
    exact (accounted.behind t member).2 pending
  have items := inv.items
  have sum := accounted.items
  have whole := total_eraseIdx State.outstanding here
  rcases Nat.eq_zero_or_pos (Tracker.awaiting .initializeEvent f.tracker.threads)
    with none | opening
  · omega
  · -- the `begin` that has not returned is the one of another task
    obtain ⟨t', member, op, pending, pos⟩ := exists_of_load_pos opening
    have event : op = .initializeEvent := by
      by_contra other
      rw [if_neg other] at pos
      cases pos
    subst event
    obtain ⟨j, thread'⟩ := List.mem_iff_getElem?.mp member
    obtain ⟨-, -, k', i', s', u, -, there, begun, waiting, -, held⟩ :=
      accounted.opening j t' thread' pending
    have memory' := memory_of_reach (consistent.reached s' (List.mem_of_getElem? there))
    have references : 0 < s'.references := by
      have part := weight_le_load Op.refs waiting
      rw [State.references_eq]
      omega
    have alive : s'.deallocs = 0 := by
      rcases Nat.eq_zero_or_pos s'.deallocs with zero | gone
      · exact zero
      · have empty := (memory'.freed_empty gone).2.1
        omega
    have other : k' ≠ k := by
      rintro rfl
      cases here.symm.trans there
      omega
    have theirs : 0 < s'.outstanding := by
      have out := memory'.counted_out.2.2
      rw [State.outstanding]
      omega
    have among : s' ∈ f.machine.tasks.eraseIdx k :=
      List.mem_eraseIdx_iff_getElem?.mpr ⟨k', other, there⟩
    have part := le_total_of_mem State.outstanding among
    have single := accounted.single
    omega

/-- A task counts itself in while the driver still submits. -/
theorem Accounted.open_of_begin (accounted : Accounted f)
    (consistent : Machine.Consistent mode f.machine) (here : f.machine.tasks[k]? = some s)
    (next : s.next i = some .trackerBegin) : f.tracker.closed = false := by
  have member := List.mem_of_getElem? here
  obtain ⟨-, enlisted⟩ := enlisted_of_reach (consistent.reached s member)
  obtain ⟨t, thread, head⟩ := Option.bind_eq_some_iff.mp next
  obtain ⟨rest, code⟩ := List.head?_eq_some_iff.mp head
  have running := List.mem_of_getElem? thread
  have submits := enlisted.beginning t running (code ▸ List.mem_cons_self)
  refine Bool.eq_false_iff.mpr fun closed => ?_
  have ended := submitting_eq.mp (accounted.stopped closed) s member t running submits
  rw [code] at ended
  cases ended

/-- A driver that has stopped submitting has every `begin` behind it. -/
theorem Accounted.begun (accounted : Accounted f) (stopped : submitting f.machine = false) :
    f.tracker.callable .drain = true := by
  have noAdd : Tracker.awaiting .fetchAdd f.tracker.threads = 0 := by
    refine load_eq_zero.mpr fun t member op pending => if_neg ?_
    rintro rfl
    exact (accounted.behind t member).1 pending
  have noInit : Tracker.awaiting .initializeEvent f.tracker.threads = 0 := by
    refine load_eq_zero.mpr fun t member op pending => if_neg ?_
    rintro rfl
    obtain ⟨j, thread⟩ := List.mem_iff_getElem?.mp member
    obtain ⟨-, -, k, i, s, u, -, here, -, waiting, submits, held⟩ :=
      accounted.opening j t thread pending
    have ended := submitting_eq.mp stopped s (List.mem_of_getElem? here) u
      (List.mem_of_getElem? waiting) submits
    rw [ended] at held
    cases held
  simp [Tracker.State.callable, noAdd, noInit]

/-- **The tracker's client.** In every timely run the tracker takes steps of its own
protocol, and it never refuses one: what a task can do on its machine it does, with the call
of the tracker that belongs to it, and a driver that has stopped submitting may drain. -/
theorem tracker_protocol_kept (reached : (fleet mode).Reach (Submitted Tracker.Timely mode) f) :
    Tracker.system.Reach Tracker.Timely f.tracker ∧
      (∀ b m, f.waits b = false → f.machine.step mode b = some m →
        ∃ f', f.step mode (.machine b) = some f' ∧ f'.machine = m) ∧
      (submitting f.machine = false → ∃ f', f.step mode .drain = some f') := by
  obtain ⟨accounted, inv, consistent⟩ :=
    accounted_of_reach (fun _ _ => trivial) (fun _ _ => id) reached
  refine ⟨tracker_of_reach (fun _ _ => trivial) reached, ?_, ?_⟩
  · intro b m free moved
    cases calls : access f.machine b with
    | none => exact ⟨{ f with machine := m }, by simp [Fleet.step, free, moved, calls], rfl⟩
    | some made =>
        obtain ⟨caller, c⟩ := made
        obtain ⟨k, i, x, s, -, -, here, which⟩ := access_eq calls
        have goes : ∃ t, callTracker f.tracker c = some t := by
          rcases which with ⟨next, rfl⟩ | ⟨next, rfl⟩
          · have still := accounted.open_of_begin consistent here next
            exact exists_callTracker (by simp [Tracker.State.callable, still]) (.inl rfl)
          · have claimed := accounted.claimed inv consistent here next
            exact exists_callTracker (by simp [Tracker.State.callable, claimed]) (.inr rfl)
        obtain ⟨t, called⟩ := goes
        exact ⟨⟨m, t, f.callers ++ [some caller]⟩,
          by simp [Fleet.step, free, moved, calls, called], rfl⟩
  · intro stopped
    have drains : f.tracker.step (.call .drain) =
        some { f.tracker.enter .drain with threads := f.tracker.threads ++ [⟨.drain, [.load]⟩] } :=
      if_pos (accounted.begun stopped)
    exact ⟨_, by rw [Fleet.step, drains]; rfl⟩

/-- Steps of one task. -/
def steps (k : Nat) (as : List State.Label) : List Label :=
  as.map fun a => .machine (.task k a)

/-- Task 0 is spawned as its thread 0, and its DPC polls it as its thread 1, to the point
where it counts itself out. -/
def freedFirst : List Label :=
  steps 0 [.call (.spawn .tracked), go 0, go 0] ++ [.tracker 0] ++
    steps 0 [go 0, go 0, go 0, go 0, go 0] ++ [.machine (.dequeue 0 ⟨0, 0⟩)] ++
    steps 0 [go 1, go 1, go 1, go 1, go 1, go 1, go 1, .run 1 .ready, go 1, go 1, go 1, go 1,
      go 1, go 1, go 1, go 1]

/-- One task counts itself out while another one counts itself in. -/
theorem tracker_protocol_kept_of_two :
    ∃ f, (fleet .off).Reach (Submitted Tracker.Timely .off) f ∧
      ((f.machine.tasks[0]?).bind (·.next 1) = some .trackerComplete ∧
        (f.machine.tasks[1]?).bind (·.next 0) = some .trackerBegin) ∧
      Tracker.system.Reach Tracker.Timely f.tracker ∧
      (∀ b m, f.waits b = false → f.machine.step .off b = some m →
        ∃ f', f.step .off (.machine b) = some f' ∧ f'.machine = m) ∧
      (submitting f.machine = false → ∃ f', f.step .off .drain = some f') := by
  obtain ⟨f, reached, both⟩ := Sys.Reach.exists_of_execIf
    (fun f : Fleet => (f.machine.tasks[0]?).bind (·.next 1) = some .trackerComplete ∧
      (f.machine.tasks[1]?).bind (·.next 0) = some .trackerBegin)
    (freedFirst ++ steps 1 [.call (.spawn .tracked), go 0])
    (.start ⟨2, rfl⟩ : (fleet .off).Reach (Submitted Tracker.Timely .off) (initial 2))
    (by decide)
  exact ⟨f, reached, both, tracker_protocol_kept reached⟩

end Fleet

end Kcom.Dpc
