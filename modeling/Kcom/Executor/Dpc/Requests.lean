import Kcom.Executor.Dpc.Machine

/-!
# Cancellation requests

`cancel_requested` is written by two operations: `CancelHandle::cancel` moves it from 0 to
1 and `take_cancellation_request` from 1 to 2. Nothing moves it back, so a task has one
request in its life, which is taken once. Which task a call of `take_cancellation_request`
writes is decided by `CURRENT_TASKS`; on the machine that is the task whose poll made the
call.
-/

namespace Kcom.Dpc

open Conc

/-- What an operation makes of `cancel_requested`. -/
def Op.request : Op → Cancel → Cancel
  | .casCancel, .idle => .requested
  | .casAcknowledge, .requested => .acknowledged
  | _, before => before

section Steps

variable {mode : Hardening} {s s' s₁ : State} {i : Nat} {c : Choice} {op : Op} {push : List Op}

theorem perform_cancel (performed : s.perform mode i c op = some (s₁, push))
    (old : ∀ form, op ≠ .allocate form) :
    s₁.cancelRequested = op.request s.cancelRequested ∧ s₁.allocated = s.allocated := by
  cases op with
  | allocate form => exact absurd rfl (old form)
  | casCancel | casAcknowledge =>
      simp only [State.perform] at performed
      cases asked : s.cancelRequested <;> rw [asked] at performed <;> cases performed <;>
        simp [Op.request, asked]
  | newHandle | addRef | cloneRaw | rawWaker | subRef =>
      simp only [State.perform, Option.map_eq_some_iff] at performed
      obtain ⟨_, -, performed⟩ := performed
      cases performed
      exact ⟨rfl, rfl⟩
  | casScheduled | insertQueueDpc =>
      simp only [State.perform] at performed
      split at performed <;> cases performed <;> exact ⟨rfl, rfl⟩
  | last op => cases op <;> cases performed <;> exact ⟨rfl, rfl⟩
  | loop op =>
      obtain ⟨-, frame⟩ := performLoop_frame performed
      rw [frame]
      exact ⟨rfl, rfl⟩
  | _ =>
      cases performed
      exact ⟨rfl, rfl⟩

/-- A task whose block is not there yet has no request. -/
theorem idle_of_reach (reached : (system mode).Reach (Counted mode) s) (new : s.allocated = false) :
    s.cancelRequested = .idle := by
  induction reached with
  | start first =>
      rw [show _ = initial from first]
      rfl
  | @step s s' a before counted step ih =>
      have memory := memory_of_reach before
      cases a with
      | call f =>
          have made : s.step mode (.call f) = some s' := step
          obtain ⟨-, rfl⟩ := State.step_call made
          cases f <;> exact ih new
      | dequeue cpu =>
          have taken : s.step mode (.dequeue cpu) = some s' := step
          obtain ⟨-, rfl⟩ := State.step_dequeue taken
          exact ih new
      | run i c =>
          have moved : s.step mode (.run i c) = some s' := step
          obtain ⟨f, op, rest, s₁, push, finished, thread, performed, rfl⟩ := State.step_run moved
          rw [State.moved_cancelRequested]
          rw [State.moved_allocated] at new
          by_cases allocates : ∃ form, op = .allocate form
          · obtain ⟨form, rfl⟩ := allocates
            rcases perform_allocate performed with ⟨rfl, -⟩ | done
            · exact ih new
            · rw [done.allocated] at new
              cases new
          · obtain ⟨request, allocated⟩ := perform_cancel performed fun form same =>
              allocates ⟨form, same⟩
            rw [allocated] at new
            rw [request, ih new]
            -- whoever could write the flag holds the block
            have needless : op.needs = false := by
              by_contra needs
              have held := memory.references_pos thread (Bool.not_eq_false _ |>.mp needs)
              rw [memory.unborn new] at held
              exact Nat.lt_irrefl 0 held
            cases op <;> first | rfl | cases needless

/-- A step of a thread does to `cancel_requested` what its operation does: the allocation
writes 0 over a 0. -/
theorem request_run {f : Call} {rest : List Op} (reached : (system mode).Reach (Counted mode) s)
    (thread : s.threads[i]? = some ⟨f, op :: rest⟩) (step : s.step mode (.run i c) = some s') :
    s'.cancelRequested = op.request s.cancelRequested := by
  obtain ⟨f', op', rest', s₁, push, finished, thread', performed, rfl⟩ := State.step_run step
  rw [thread] at thread'
  cases thread'
  rw [State.moved_cancelRequested]
  by_cases allocates : ∃ form, op = .allocate form
  · obtain ⟨form, rfl⟩ := allocates
    have idle := idle_of_reach reached ((memory_of_reach reached).unallocated thread)
    rcases perform_allocate performed with ⟨rfl, -⟩ | done
    · rfl
    · simp only [State.perform] at performed
      split at performed <;> cases performed
      · rfl
      · exact idle.symm
  · exact (perform_cancel performed fun form same => allocates ⟨form, same⟩).1

end Steps

namespace Machine

/-! ## The requests of a run -/

/-- What the record of a run says of its end. -/
structure Told (m : Machine) (h : Record) : Prop where
  /-- A task that has a request, or is about to have one, was cancelled. -/
  asked : ∀ k s, m.tasks[k]? = some s →
    (s.cancelRequested ≠ .idle ∨ ∃ t ∈ s.threads, .casCancel ∈ t.code) → k ∈ h.cancelled
  /-- The request of a task was taken if it is acknowledged, and once. -/
  once : ∀ k, (h.taken.map Prod.snd).count k =
    if (m.tasks[k]?).any (fun s => s.cancelRequested = .acknowledged) then 1 else 0
  own : ∀ p ∈ h.taken, p.1 = p.2

variable {mode : Hardening} {m m' : Machine} {h : Record} {s s' : State} {i k : Nat}
  {c : Choice} {f : Call} {p : Processor}

theorem Told.initial (n : Nat) : Told (initial n) ⟨[], []⟩ where
  asked k s here := by
    rw [List.eq_of_mem_replicate (List.mem_of_getElem? here)]
    rintro (asked | ⟨t, member, -⟩)
    · exact absurd rfl asked
    · cases member
  once k := by
    have none : ((Machine.initial n).tasks[k]?).any
        (fun s => decide (s.cancelRequested = .acknowledged)) = false := by
      cases here : (Machine.initial n).tasks[k]? with
      | none => rfl
      | some s =>
          rw [List.eq_of_mem_replicate (List.mem_of_getElem? here)]
          rfl
    rw [none]
    rfl
  own := nofun

/-- A step of task `k` that is recorded as `h'`. -/
theorem Told.of_set {h' : Record} (told : Told m h) (here : m.tasks[k]? = some s)
    (tasks : m'.tasks = m.tasks.set k s')
    (cancelled : ∀ l, l ∈ h.cancelled → l ∈ h'.cancelled)
    (asked : (s'.cancelRequested ≠ .idle ∨ ∃ t ∈ s'.threads, .casCancel ∈ t.code) →
      k ∈ h'.cancelled)
    (taken : (h'.taken = h.taken ∧
        (s'.cancelRequested = .acknowledged ↔ s.cancelRequested = .acknowledged)) ∨
      (h'.taken = (k, k) :: h.taken ∧ s.cancelRequested ≠ .acknowledged ∧
        s'.cancelRequested = .acknowledged)) :
    Told m' h' := by
  have bound := (List.getElem?_eq_some_iff.mp here).1
  have mine : m'.tasks[k]? = some s' := by rw [tasks, List.getElem?_set_self bound]
  have others : ∀ l, l ≠ k → m'.tasks[l]? = m.tasks[l]? := by
    intro l other
    rw [tasks, List.getElem?_set_ne (Ne.symm other)]
  refine ⟨?_, ?_, ?_⟩
  · intro l s₀ there pending
    by_cases task : l = k
    · subst task
      rw [mine] at there
      cases there
      exact asked pending
    · rw [others l task] at there
      exact cancelled l (told.asked l s₀ there pending)
  · intro l
    have before := told.once l
    rcases taken with ⟨same, acknowledged⟩ | ⟨same, free, acknowledged⟩ <;> rw [same]
    · rw [before]
      by_cases task : l = k
      · subst task
        simp [mine, here, acknowledged]
      · rw [others l task]
    · rw [List.map_cons, List.count_cons, before]
      by_cases task : l = k
      · subst task
        simp [mine, here, acknowledged, free]
      · rw [others l task]
        simp [Ne.symm task]
  · rcases taken with ⟨same, -⟩ | ⟨same, -⟩ <;> rw [same]
    · exact told.own
    · exact List.forall_mem_cons.mpr ⟨rfl, told.own⟩

/-- `take_cancellation_request` is recorded for the task it was called from. -/
theorem Consistent.record_run {op : Op} {rest : List Op} (consistent : Consistent mode m)
    (here : m.tasks[k]? = some s) (thread : s.threads[i]? = some ⟨f, op :: rest⟩) :
    m.record (.task k (.run i c)) h =
      if op = .casAcknowledge ∧ s.cancelRequested = .requested then
        { h with taken := (k, k) :: h.taken }
      else h := by
  have next : (m.tasks[k]?).bind (·.next i) = some op := by simp [here, State.next, thread]
  unfold record
  dsimp only
  rw [next]
  by_cases takes : op = .casAcknowledge
  · subst takes
    rw [consistent.target k s i _ here thread List.mem_cons_self]
    simp [here]
  · simp [takes]

theorem Told.run (told : Told m h) (consistent : Consistent mode m)
    (step : m.step mode (.task k (.run i c)) = some m') :
    Told m' (m.record (.task k (.run i c)) h) := by
  obtain ⟨s, s', f, op, rest, here, thread, performed, tasks, -⟩ := consistent.step_run step
  have request := request_run (consistent.reached s (List.mem_of_getElem? here)) thread performed
  have member := List.mem_of_getElem? thread
  have recorded : m.record (.task k (.run i c)) h = _ := consistent.record_run here thread
  have same : (m.record (.task k (.run i c)) h).cancelled = h.cancelled := by
    rw [recorded]
    split <;> rfl
  refine told.of_set here tasks (fun l asked => ?_) (fun pending => ?_) ?_
  · rwa [same]
  · rw [same]
    refine told.asked k s here ?_
    rcases pending with asked | ⟨t, new, pending⟩
    · by_cases idle : s.cancelRequested = .idle
      · rw [request, idle] at asked
        refine .inr ⟨_, member, ?_⟩
        cases op with
        | casCancel => exact List.mem_cons_self
        | _ => exact absurd rfl asked
      · exact .inl idle
    · right
      obtain ⟨f', op', rest', s₁, push, finished, thread', performed', rfl⟩ :=
        State.step_run performed
      rw [thread] at thread'
      cases thread'
      rcases List.mem_or_eq_of_mem_set new with old | rfl
      · exact ⟨t, old, pending⟩
      · rcases List.mem_append.mp pending with pushed | old
        · exact absurd pushed (perform_requests performed').1
        · exact ⟨_, member, List.mem_cons_of_mem _ old⟩
  · rw [recorded, request]
    by_cases takes : op = .casAcknowledge ∧ s.cancelRequested = .requested
    · rw [if_pos takes, takes.1, takes.2]
      exact .inr ⟨rfl, nofun, rfl⟩
    · rw [if_neg takes]
      refine .inl ⟨rfl, ?_⟩
      cases op with
      | casCancel => cases asked : s.cancelRequested <;> simp [Op.request]
      | casAcknowledge =>
          cases asked : s.cancelRequested with
          | requested => exact absurd ⟨rfl, asked⟩ takes
          | idle | acknowledged => simp [Op.request]
      | _ => exact Iff.rfl

theorem Told.call (told : Told m h) (step : m.step mode (.task k (.call f)) = some m') :
    Told m' (m.record (.task k (.call f)) h) := by
  obtain ⟨s, s', here, performed, rfl⟩ := step_call step
  obtain ⟨callable, same⟩ := State.step_call performed
  have request : s'.cancelRequested = s.cancelRequested := by
    rw [same]
    cases f <;> rfl
  have taken : (m.record (.task k (.call f)) h).taken = h.taken := by
    cases f <;> rfl
  have kept : ∀ l, l ∈ h.cancelled → l ∈ (m.record (.task k (.call f)) h).cancelled := by
    intro l asked
    cases f with
    | cancel owner => exact List.mem_cons_of_mem _ asked
    | _ => exact asked
  refine told.of_set here rfl kept ?_ (.inl ⟨taken, by rw [request]⟩)
  rw [request, same]
  rintro (asked | ⟨t, member, pending⟩)
  · exact kept k (told.asked k s here (.inl asked))
  · rcases List.mem_append.mp member with before | new
    · exact kept k (told.asked k s here (.inr ⟨t, before, pending⟩))
    · rw [List.mem_singleton.mp new] at pending
      cases f with
      | cancel owner => exact List.mem_cons_self
      | setTaskBudget budget => cases budget <;> simp [State.code] at pending
      | _ => simp [State.code] at pending

theorem Told.dequeue (told : Told m h) (step : m.step mode (.dequeue k p) = some m') :
    Told m' h := by
  obtain ⟨s, s', here, performed, -, rfl⟩ := step_dequeue step
  obtain ⟨-, rfl⟩ := State.step_dequeue performed
  refine told.of_set here rfl (fun _ asked => asked) ?_ (.inl ⟨rfl, Iff.rfl⟩)
  rintro (asked | ⟨t, member, pending⟩)
  · exact told.asked k s here (.inl asked)
  · rcases List.mem_append.mp member with before | new
    · exact told.asked k s here (.inr ⟨t, before, pending⟩)
    · rw [List.mem_singleton.mp new] at pending
      simp at pending

/-- The machine with the record of its run. -/
def recorded (mode : Hardening) : Sys (Machine × Record) Label :=
  (machine mode).withHistory ⟨[], []⟩ Machine.record

/-- The guard on the counters, for the machine with its record. -/
abbrev Room (mode : Hardening) (p : Machine × Record) (a : Label) : Prop :=
  Counted mode p.1 a

theorem consistent_of_recorded {q : Machine × Record}
    (reached : (recorded mode).Reach (Room mode) q) : Consistent mode q.1 :=
  consistent_of_reach (reached.of_history fun _ _ counted => counted)

theorem told_of_recorded {q : Machine × Record} (reached : (recorded mode).Reach (Room mode) q) :
    Told q.1 q.2 := by
  induction reached with
  | @start q begins =>
      obtain ⟨⟨n, first⟩, empty⟩ := begins
      rw [first, empty]
      exact .initial n
  | @step q q' a before counted step told =>
      obtain ⟨moved, now⟩ := Sys.step_history step
      have next : q.1.step mode a = some q'.1 := moved
      rw [now]
      cases a with
      | dequeue k p => exact told.dequeue next
      | task k a =>
          cases a with
          | run i c => exact told.run (consistent_of_recorded before) next
          | call f => exact told.call next
          | dequeue cpu => cases next

/-- **Cancellation reaches its own task.** In every run within the capacity of the reference
counters, the entry of a processor in `CURRENT_TASKS` is the task of the activation there
that is between `set_current_task` and `clear_current_task`, and null where there is none;
the block of that task is not freed. The indices of the processors are distinct and below
`MAX_CPU_COUNT`. A helper called in a poll finds the task that is polled, and the request
of a task is taken by the task itself, once, and after `CancelHandle::cancel`. -/
theorem cancellation_own {q : Machine × Record} (reached : (recorded mode).Reach (Room mode) q) :
    (∀ n k, q.1.currentTasks n = some k → ∃ a ∈ q.1.activations, a.task = k ∧
      currentCpuIndex a.processor = some n ∧ q.1.SitsAt k a.thread n ∧
      ∃ s, q.1.tasks[k]? = some s ∧ s.deallocs = 0) ∧
    (∀ k i n, q.1.SitsAt k i n → q.1.currentTasks n = some k) ∧
    (∀ p p' n, currentCpuIndex p = some n →
      n < maxCpuCount ∧ (currentCpuIndex p' = some n → p = p')) ∧
    (∀ k s i t, q.1.tasks[k]? = some s → s.threads[i]? = some t →
      (∀ n take, .loadCurrent n take ∈ t.code → q.1.currentTasks n = some k) ∧
      (.casAcknowledge ∈ t.code → q.1.target k i = some k)) ∧
    (∀ taker task, (taker, task) ∈ q.2.taken → taker = task ∧ task ∈ q.2.cancelled) ∧
    ∀ k, (q.2.taken.map Prod.snd).count k ≤ 1 := by
  have consistent := consistent_of_recorded reached
  have told := told_of_recorded reached
  have seated : ∀ s ∈ q.1.tasks, Seated s := fun s member =>
    seated_of_reach (consistent.reached s member)
  refine ⟨?_, ?_, ?_, ?_, ?_, ?_⟩
  · intro n k entry
    obtain ⟨i, s, here, sits⟩ := (consistent.table n k).mp entry
    have member := List.mem_of_getElem? here
    obtain ⟨t, thread, pos⟩ := sits
    have tag := ((seated s member).tag thread pos).1
    obtain ⟨a, known, rfl, rfl, index⟩ := consistent.placed k s i t _ here thread tag
    exact ⟨a, known, rfl, index, ⟨s, here, t, thread, pos⟩, s, here,
      (memory_of_reach (consistent.reached s member)).notFreed (seated s member)
        ⟨t, thread, pos⟩⟩
  · intro k i n sits
    exact (consistent.table n k).mpr ⟨i, sits⟩
  · intro p p' n index
    exact ⟨currentCpuIndex_lt index, currentCpuIndex_inj index⟩
  · intro k s i t here thread
    exact ⟨fun n take pending => (consistent.found here thread pending).1,
      consistent.target k s i t here thread⟩
  · intro taker task taken
    obtain rfl : taker = task := told.own _ taken
    refine ⟨rfl, ?_⟩
    have counted := told.once taker
    have pos : 0 < (q.2.taken.map Prod.snd).count taker :=
      List.count_pos_iff.mpr (List.mem_map_of_mem (f := Prod.snd) taken)
    cases here : q.1.tasks[taker]? with
    | none => simp [here] at counted; omega
    | some s =>
        refine told.asked taker s here (.inl ?_)
        intro idle
        simp [here, idle] at counted
        omega
  · intro k
    rw [told.once k]
    split
    · exact Nat.le_refl 1
    · exact Nat.zero_le 1

/-- A task that is cancelled in its first poll and takes the request. -/
theorem cancellation_own_of_taken : ∃ q, (recorded .off).Reach (Room .off) q ∧
    (q.1.currentTasks 0 = some 0 ∧ q.2.taken = [(0, 0)]) ∧
    (∀ n k, q.1.currentTasks n = some k → ∃ a ∈ q.1.activations, a.task = k ∧
      currentCpuIndex a.processor = some n ∧ q.1.SitsAt k a.thread n ∧
      ∃ s, q.1.tasks[k]? = some s ∧ s.deallocs = 0) ∧
    (∀ k i n, q.1.SitsAt k i n → q.1.currentTasks n = some k) ∧
    (∀ p p' n, currentCpuIndex p = some n →
      n < maxCpuCount ∧ (currentCpuIndex p' = some n → p = p')) ∧
    (∀ k s i t, q.1.tasks[k]? = some s → s.threads[i]? = some t →
      (∀ n take, .loadCurrent n take ∈ t.code → q.1.currentTasks n = some k) ∧
      (.casAcknowledge ∈ t.code → q.1.target k i = some k)) ∧
    (∀ taker task, (taker, task) ∈ q.2.taken → taker = task ∧ task ∈ q.2.cancelled) ∧
    ∀ k, (q.2.taken.map Prod.snd).count k ≤ 1 := by
  obtain ⟨q, reached, taken⟩ := Sys.Reach.exists_of_execIf
    (fun q : Machine × Record => q.1.currentTasks 0 = some 0 ∧ q.2.taken = [(0, 0)])
    (.task 0 (.call (.spawn .cancellable)) :: List.replicate 8 (.task 0 (go 0)) ++
      .dequeue 0 ⟨0, 0⟩ :: List.replicate 7 (.task 0 (go 1)) ++
      .task 0 (.call (.cancel 0)) :: List.replicate 5 (.task 0 (go 2)) ++
      .task 0 (.call (.takeCancellationRequest 1)) :: List.replicate 2 (.task 0 (go 3)))
    (.start ⟨⟨1, rfl⟩, rfl⟩ :
      (recorded .off).Reach (Room .off) (Machine.initial 1, ⟨[], []⟩)) (by decide)
  exact ⟨q, reached, taken, cancellation_own reached⟩

/-! ## The width of the counter -/

/-- A task in its first poll, with a reference that its spawner has not released. -/
def polled (threads : List (Thread Call Op)) (owners : List (Option Owner)) (refCount : Nat) :
    State :=
  { Dpc.initial with
    refCount := refCount
    tracked := true
    current := [0]
    owners := owners
    threads := ⟨.spawn .tracked, [.subRef .spawner]⟩ ::
      ⟨.dpcRoutine (some 0), [.loop (.polling ⟨some 0, .polls, 64, 0, 0, 0⟩)]⟩ :: threads
    spawned := true
    allocated := true
    begins := 1 }

/-- The machine with that task, which runs on processor 0. -/
def running (s : State) : Machine where
  tasks := [s]
  currentTasks := Function.update (fun _ => none) 0 (some 0)
  activations := [⟨0, 1, ⟨0, 0⟩⟩]
  target _ _ := none

/-- The future clones the waker that it is polled with. -/
theorem exists_polled (n : Nat) :
    ∃ threads owners, (machine .off).Reachable
      (running (polled threads owners ((3 + n) % 2 ^ 32))) := by
  induction n with
  | zero =>
      refine ⟨[], [], .of_exec (.task 0 (.call (.spawn .tracked)) ::
        List.replicate 6 (.task 0 (go 0)) ++ .dequeue 0 ⟨0, 0⟩ ::
        List.replicate 7 (.task 0 (go 1))) (.start ⟨1, rfl⟩) ?_⟩
      rfl
  | succ n ih =>
      obtain ⟨threads, owners, reached⟩ := ih
      let call : Call := .cloneWaker (.activation 1)
      let s := polled threads owners ((3 + n) % 2 ^ 32)
      have first : (machine .off).step (running s) (.task 0 (.call call)) = some
          (running (polled (threads ++ [⟨call, [.cloneRaw]⟩]) owners ((3 + n) % 2 ^ 32))) := rfl
      refine ⟨threads ++ [⟨call, []⟩], owners ++ [some .waker],
        .step (.step reached trivial first) trivial (a := .task 0 (go (threads.length + 2))) ?_⟩
      have count : ((3 + n) % 2 ^ 32 + 1) % 2 ^ 32 = (3 + (n + 1)) % 2 ^ 32 := by omega
      have thread : (polled (threads ++ [⟨call, [.cloneRaw]⟩]) owners
          ((3 + n) % 2 ^ 32)).threads[threads.length + 2]? = some ⟨call, [.cloneRaw]⟩ := by
        simp [polled]
      rw [← count]
      simp only [machine, Machine.step, running, List.getElem?_cons_zero, thread, State.step,
        State.next]
      simp [State.perform, Refcount.add, polled, State.finish, written, call]

/-- Without hardening the count of 2^32 + 1 references reads as 1: the block of the task
that runs on a processor is freed when the spawner releases its own. -/
theorem current_freed : ¬ ∀ m, (machine .off).Reachable m → ∀ n k, m.currentTasks n = some k →
    ∃ s, m.tasks[k]? = some s ∧ s.deallocs = 0 := by
  intro kept
  obtain ⟨threads, owners, reached⟩ := exists_polled (2 ^ 32 - 2)
  rw [show (3 + (2 ^ 32 - 2)) % 2 ^ 32 = 1 from rfl] at reached
  have last : Refcount.sub .off 1 = some (0, 0) := by decide
  have freed : ∃ m, (machine .off).exec (running (polled threads owners 1))
      (List.replicate 6 (.task 0 (go 0))) = some m ∧ m.currentTasks 0 = some 0 ∧
      m.tasks[0]?.map (·.deallocs) = some 1 := by
    simp [Sys.exec, machine, Machine.step, running, polled, State.step, State.perform, last,
      State.performLast, State.finish, written, State.next, Dpc.initial]
  obtain ⟨m, run, entry, deallocs⟩ := freed
  obtain ⟨s, here, none⟩ := kept m (.of_exec _ reached run) 0 0 entry
  rw [here, Option.map_some, none] at deallocs
  cases deallocs

end Machine

end Kcom.Dpc
