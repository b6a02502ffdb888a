import Kcom.Executor.WorkItem.LifeCycle

/-!
# Exclusive polling of a work-item task

`run` clears `scheduled` before it looks at `completed`, so a wake or a cancel
during the poll enqueues a fresh work item whose callback finds `completed` still
0 and goes on to the same future. Only the store to `completed` keeps a later
callback away, and it comes after the poll.

`Exclusive` are the steps in which no callback passes its check of `completed`
while another one has not left its poll or drop. In the runs made of them the
future is polled and dropped by one callback at a time, never polled after `Ready`
or after a drop, and dropped at most once. `free` gives the block back without
touching the future, so nothing here depends on the reference count.
-/

namespace Kcom.WorkItem

open Conc

/-- The steps of `run` from its passed check of `completed` to the end of the poll or
of the drop. -/
def Run.window : Run → Nat
  | .clearScheduled => 0
  | .checkCompleted => 0
  | .swapWorkItem => 0
  | _ => 1

/-- The steps of `run` from its passed check to the store to `completed`. -/
def Run.early : Run → Nat
  | .clearScheduled => 0
  | .checkCompleted => 0
  | .dropFuture _ => 0
  | .dropping _ => 0
  | .swapWorkItem => 0
  | _ => 1

/-- A callback has passed its check of `completed` and has not yet left its poll, or
the drop that follows it. -/
def Op.window : Op → Nat
  | .run _ op => op.window
  | _ => 0

/-- A callback has passed its check and has not yet stored to `completed`. -/
def Op.early : Op → Nat
  | .run _ op => op.early
  | _ => 0

/-- A callback is about to store to `completed`. -/
def Op.stores : Op → Nat
  | .run _ (.storeCompleted _) => 1
  | _ => 0

/-- The future is about to be dropped. -/
def Op.drops : Op → Nat
  | .run _ (.dropFuture _) => 1
  | _ => 0

/-- A callback is inside the future's `poll` or its destructor. -/
def Op.inside : Op → Nat
  | .run _ .polling => 1
  | .run _ (.dropping _) => 1
  | _ => 0

/-- No callback passes its check of `completed` while another one has not left its
poll or drop. -/
def Exclusive (s : State) : State.Label → Prop
  | .run i _ => ∀ op ∈ s.next i, op.checks = true → s.completed = false →
      load Op.window s.threads = 0
  | _ => True

instance (s : State) : (a : State.Label) → Decidable (Exclusive s a)
  | .run i _ => inferInstanceAs (Decidable (∀ op ∈ s.next i, op.checks = true →
      s.completed = false → load Op.window s.threads = 0))
  | .start _ => inferInstanceAs (Decidable True)
  | .call _ => inferInstanceAs (Decidable True)

/-- What holds in every state of an exclusive run. -/
structure Polling (s : State) : Prop where
  window : load Op.window s.threads ≤ 1
  early : 0 < load Op.early s.threads → s.completed = false
  ready : s.ready = true → s.completed = true ∨ 0 < load Op.stores s.threads
  drops : s.drops + load Op.drops s.threads = s.completed.toNat
  polls : s.latePoll = false

theorem Polling.initial : Polling initial where
  window := Nat.zero_le _
  early := nofun
  ready := nofun
  drops := rfl
  polls := rfl

section Steps

variable {driver : Driver} {mode : Hardening} {s s' s₁ : State} {i id : Nat} {c : Choice}
  {f : Call} {op : Op} {push rest : List Op}

theorem early_le_window (threads : List (Thread Call Op)) :
    load Op.early threads ≤ load Op.window threads := by
  apply load_mono
  intro op
  cases op with
  | run id op => cases op <;> simp [Op.early, Run.early, Op.window, Run.window]
  | _ => simp [Op.early, Op.window]

theorem stores_le_early (threads : List (Thread Call Op)) :
    load Op.stores threads ≤ load Op.early threads := by
  apply load_mono
  intro op
  cases op with
  | run id op => cases op <;> simp [Op.stores, Op.early, Run.early]
  | _ => simp [Op.stores, Op.early]

theorem inside_le_window (threads : List (Thread Call Op)) :
    load Op.inside threads ≤ load Op.window threads := by
  apply load_mono
  intro op
  cases op with
  | run id op => cases op <;> simp [Op.inside, Op.window, Run.window]
  | _ => simp [Op.inside, Op.window]

/-- An operation that leaves the record of the future alone and takes the thread no
closer to polling or dropping it. -/
structure Quiet (s s₁ : State) (op : Op) (push : List Op) : Prop where
  completed : s₁.completed = s.completed
  ready : s₁.ready = s.ready
  drops : s₁.drops = s.drops
  latePoll : s₁.latePoll = s.latePoll
  window : total Op.window push ≤ op.window
  early : total Op.early push ≤ op.early
  stores : op.stores ≤ total Op.stores push
  dropping : total Op.drops push = op.drops

theorem Polling.of_quiet (polling : Polling s) (thread : s.threads[i]? = some ⟨f, op :: rest⟩)
    (quiet : Quiet s s₁ op push) : Polling (s₁.moved (s.threads.set i ⟨f, push ++ rest⟩)) := by
  have window := load_set Op.window f push thread
  have early := load_set Op.early f push thread
  have stores := load_set Op.stores f push thread
  have drops := load_set Op.drops f push thread
  obtain ⟨completed, ready, dropped, latePoll, noWindow, noEarly, noStore, noDrop⟩ := quiet
  obtain ⟨one, unstored, stored, once, polls⟩ := polling
  constructor <;>
    simp only [State.moved_threads, State.moved_completed, State.moved_ready, State.moved_drops,
      State.moved_latePoll, completed, ready, dropped, latePoll]
  · omega
  · intro pos
    exact unstored (by omega)
  · intro done
    rcases stored done with completed | pos
    · exact Or.inl completed
    · exact Or.inr (by omega)
  · omega
  · exact polls

/-- The operations that decide about the future; every other one is quiet. -/
def Op.decides : Op → Bool
  | .run _ .checkCompleted => true
  | .run _ .pollStart => true
  | .run _ .polling => true
  | .run _ (.storeCompleted _) => true
  | .run _ (.dropFuture _) => true
  | _ => false

/-- Code that has nothing to do with the future. -/
structure Distant (code : List Op) : Prop where
  window : total Op.window code = 0
  early : total Op.early code = 0
  stores : total Op.stores code = 0
  drops : total Op.drops code = 0

theorem Distant.append {code : List Op} (first : Distant push) (second : Distant code) :
    Distant (push ++ code) := by
  obtain ⟨window, early, stores, drops⟩ := first
  obtain ⟨window', early', stores', drops'⟩ := second
  constructor <;> rw [total_append] <;> omega

theorem Distant.complete (s : State) : Distant s.complete := by
  rw [State.complete]
  split <;> exact ⟨rfl, rfl, rfl, rfl⟩

theorem Distant.afterPoll (id : Nat) (waker : Bool) : Distant (State.afterPoll id waker) := by
  cases waker <;> exact ⟨rfl, rfl, rfl, rfl⟩

theorem Quiet.of_distant (record : s₁.completed = s.completed ∧ s₁.ready = s.ready ∧
    s₁.drops = s.drops ∧ s₁.latePoll = s.latePoll) (plain : op.decides = false)
    (distant : Distant push) : Quiet s s₁ op push := by
  obtain ⟨completed, ready, drops, latePoll⟩ := record
  obtain ⟨window, early, -, dropping⟩ := distant
  have mine : op.stores = 0 ∧ op.drops = 0 := by
    cases op with
    | run id op => cases op <;> first | exact ⟨rfl, rfl⟩ | cases plain
    | _ => exact ⟨rfl, rfl⟩
  refine ⟨completed, ready, drops, latePoll, ?_, ?_, ?_, ?_⟩
  · rw [window]
    exact Nat.zero_le _
  · rw [early]
    exact Nat.zero_le _
  · rw [mine.1]
    exact Nat.zero_le _
  · rw [dropping, mine.2]

theorem quiet_of_perform (performed : s.perform driver mode i f c op = some (s₁, push))
    (plain : op.decides = false) : Quiet s s₁ op push := by
  cases op with
  | submit id op =>
      cases op with
      | addRef =>
          simp only [State.perform, State.performSubmit, Option.map_eq_some_iff] at performed
          obtain ⟨⟨_, count⟩, -, performed⟩ := performed
          cases performed
          exact .of_distant ⟨rfl, rfl, rfl, rfl⟩ plain ⟨rfl, rfl, rfl, rfl⟩
      | storeWorkItem | enqueue =>
          cases performed
          exact .of_distant ⟨rfl, rfl, rfl, rfl⟩ plain ⟨rfl, rfl, rfl, rfl⟩
  | run id op =>
      cases op with
      | clearScheduled =>
          cases performed
          exact .of_distant ⟨rfl, rfl, rfl, rfl⟩ plain ⟨rfl, rfl, rfl, rfl⟩
      | loadCancel =>
          cases performed
          split <;> exact ⟨rfl, rfl, rfl, rfl, Nat.le_refl _, Nat.le_refl _, Nat.zero_le _, rfl⟩
      | rawWaker =>
          simp only [State.perform, State.performRun, Option.map_eq_some_iff] at performed
          obtain ⟨⟨_, count⟩, -, performed⟩ := performed
          cases performed
          exact ⟨rfl, rfl, rfl, rfl, Nat.le_refl _, Nat.le_refl _, Nat.le_refl _, rfl⟩
      | dropping waker =>
          cases performed
          exact .of_distant ⟨rfl, rfl, rfl, rfl⟩ plain (.afterPoll id waker)
      | swapWorkItem =>
          cases performed
          refine .of_distant ⟨rfl, rfl, rfl, rfl⟩ plain ?_
          refine .append (.append ?_ (.complete s)) ⟨rfl, rfl, rfl, rfl⟩
          split <;> exact ⟨rfl, rfl, rfl, rfl⟩
      | _ => cases plain
  | newHandle | addHandle | cloneRaw | subRef =>
      simp only [State.perform, Option.map_eq_some_iff] at performed
      obtain ⟨⟨_, count⟩, -, performed⟩ := performed
      cases performed
      (try split) <;> exact .of_distant ⟨rfl, rfl, rfl, rfl⟩ plain ⟨rfl, rfl, rfl, rfl⟩
  | allocate | endSpawn | casScheduled | casCancel | createWorkItem =>
      simp only [State.perform] at performed
      split at performed <;> cases performed <;> (try split) <;>
        exact .of_distant ⟨rfl, rfl, rfl, rfl⟩ plain ⟨rfl, rfl, rfl, rfl⟩
  | checkContext | setContext | loadCompleted | contextIsValid | free =>
      cases performed
      split <;> exact .of_distant ⟨rfl, rfl, rfl, rfl⟩ plain ⟨rfl, rfl, rfl, rfl⟩
  | abandon =>
      cases performed
      exact .of_distant ⟨rfl, rfl, rfl, rfl⟩ plain (.complete s)
  | _ =>
      cases performed
      exact .of_distant ⟨rfl, rfl, rfl, rfl⟩ plain ⟨rfl, rfl, rfl, rfl⟩

/-- While a callback in its window has another operation before it than the store to
`completed`, nobody is about to make that store. -/
theorem Polling.stores_eq_zero (polling : Polling s)
    (thread : s.threads[i]? = some ⟨f, op :: rest⟩) (inWindow : op.window = 1)
    (other : op.stores = 0) : load Op.stores s.threads = 0 := by
  have window := load_set Op.window f [] thread
  have stores := load_set Op.stores f [] thread
  have le := stores_le_early (s.threads.set i ⟨f, [] ++ rest⟩)
  have le' := early_le_window (s.threads.set i ⟨f, [] ++ rest⟩)
  have one := polling.window
  simp only [total_nil, inWindow, other] at window stores
  omega

theorem Polling.unfinished (polling : Polling s) (thread : s.threads[i]? = some ⟨f, op :: rest⟩)
    (early : op.early = 1) : s.completed = false := by
  have one := head_le_load Op.early thread
  exact polling.early (by omega)

/-- Passing the check of `completed`. -/
theorem Polling.checkCompleted (polling : Polling s)
    (thread : s.threads[i]? = some ⟨f, .run id .checkCompleted :: rest⟩)
    (alone : s.completed = false → load Op.window s.threads = 0)
    (performed : s.perform driver mode i f c (.run id .checkCompleted) = some (s₁, push)) :
    Polling (s₁.moved (s.threads.set i ⟨f, push ++ rest⟩)) := by
  cases performed
  cases done : s.completed with
  | true =>
      obtain ⟨window, early, stores, drops⟩ :=
        Distant.append (Distant.complete s) (⟨rfl, rfl, rfl, rfl⟩ : Distant [.subRef .callback])
      refine polling.of_quiet thread ⟨rfl, rfl, rfl, rfl, ?_, ?_, Nat.zero_le _, drops⟩
      · exact Nat.le_of_eq window
      · exact Nat.le_of_eq early
  | false =>
      have none := alone done
      have window := load_set Op.window f [.run id .loadCancel] thread
      have stores := load_set Op.stores f [.run id .loadCancel] thread
      have drops := load_set Op.drops f [.run id .loadCancel] thread
      obtain ⟨-, -, stored, once, polls⟩ := polling
      simp only [total_cons, total_nil, Op.window, Run.window, Op.stores, Op.drops]
        at window stores drops
      constructor <;>
        simp only [State.moved_threads, State.moved_completed, State.moved_ready,
          State.moved_drops, State.moved_latePoll, done, Bool.false_eq_true, if_false]
      · omega
      · exact fun _ => trivial
      · intro ready
        rcases stored ready with completed | pos
        · rw [done] at completed
          cases completed
        · exact Or.inr (by omega)
      · rw [done] at once
        omega
      · exact polls

theorem Polling.pollStart (polling : Polling s)
    (thread : s.threads[i]? = some ⟨f, .run id .pollStart :: rest⟩)
    (performed : s.perform driver mode i f c (.run id .pollStart) = some (s₁, push)) :
    Polling (s₁.moved (s.threads.set i ⟨f, push ++ rest⟩)) := by
  have unfinished := polling.unfinished thread rfl
  have noStore := polling.stores_eq_zero thread rfl rfl
  have unready : s.ready = false := by
    cases ready : s.ready with
    | false => rfl
    | true =>
        rcases polling.ready ready with completed | pos
        · rw [unfinished] at completed
          cases completed
        · omega
  have undropped : s.drops = 0 := by
    have once := polling.drops
    rw [unfinished, Bool.toNat_false] at once
    omega
  cases performed
  refine polling.of_quiet thread ⟨rfl, rfl, rfl, ?_, Nat.le_refl _, Nat.le_refl _, Nat.le_refl _,
    rfl⟩
  simp [unready, undropped]

theorem Polling.pollEnd (polling : Polling s)
    (thread : s.threads[i]? = some ⟨f, .run id .polling :: rest⟩)
    (performed : s.perform driver mode i f c (.run id .polling) = some (s₁, push)) :
    Polling (s₁.moved (s.threads.set i ⟨f, push ++ rest⟩)) := by
  simp only [State.perform, State.performRun] at performed
  split at performed
  · cases performed
  · split at performed
    · have window := load_set Op.window f push thread
      have early := load_set Op.early f push thread
      have stores := load_set Op.stores f push thread
      have drops := load_set Op.drops f push thread
      obtain ⟨one, unstored, -, once, polls⟩ := polling
      cases performed
      simp only [total_cons, total_nil, Op.window, Run.window, Op.early, Run.early, Op.stores,
        Op.drops] at window early stores drops
      constructor <;>
        simp only [State.moved_threads, State.moved_completed, State.moved_ready,
          State.moved_drops, State.moved_latePoll]
      · omega
      · exact fun pos => unstored (by omega)
      · exact fun _ => Or.inr (by omega)
      · omega
      · exact polls
    · cases performed
      exact polling.of_quiet thread ⟨rfl, rfl, rfl, rfl, Nat.zero_le _, Nat.zero_le _,
        Nat.zero_le _, rfl⟩

theorem Polling.storeCompleted {waker : Bool} (polling : Polling s)
    (thread : s.threads[i]? = some ⟨f, .run id (.storeCompleted waker) :: rest⟩)
    (performed : s.perform driver mode i f c (.run id (.storeCompleted waker)) =
      some (s₁, push)) :
    Polling (s₁.moved (s.threads.set i ⟨f, push ++ rest⟩)) := by
  have earlyLe := early_le_window s.threads
  have unfinished := polling.unfinished thread rfl
  have window := load_set Op.window f push thread
  have early := load_set Op.early f push thread
  have drops := load_set Op.drops f push thread
  obtain ⟨one, -, -, once, polls⟩ := polling
  rw [unfinished, Bool.toNat_false] at once
  cases performed
  simp only [total_cons, total_nil, Op.window, Run.window, Op.early, Run.early, Op.drops]
    at window early drops
  constructor <;>
    simp only [State.moved_threads, State.moved_completed, State.moved_ready, State.moved_drops,
      State.moved_latePoll]
  · omega
  · intro pos
    omega
  · exact fun _ => Or.inl trivial
  · rw [Bool.toNat_true]
    omega
  · exact polls

theorem Polling.dropFuture {waker : Bool} (polling : Polling s)
    (thread : s.threads[i]? = some ⟨f, .run id (.dropFuture waker) :: rest⟩)
    (performed : s.perform driver mode i f c (.run id (.dropFuture waker)) = some (s₁, push)) :
    Polling (s₁.moved (s.threads.set i ⟨f, push ++ rest⟩)) := by
  have window := load_set Op.window f push thread
  have early := load_set Op.early f push thread
  have stores := load_set Op.stores f push thread
  have dropped := load_set Op.drops f push thread
  obtain ⟨one, unstored, stored, once, polls⟩ := polling
  cases performed
  simp only [total_cons, total_nil, Op.window, Run.window, Op.early, Run.early, Op.stores,
    Op.drops] at window early stores dropped
  constructor <;>
    simp only [State.moved_threads, State.moved_completed, State.moved_ready, State.moved_drops,
      State.moved_latePoll]
  · omega
  · exact fun pos => unstored (by omega)
  · intro ready
    rcases stored ready with completed | pos
    · exact Or.inl completed
    · exact Or.inr (by omega)
  · omega
  · exact polls

/-- An exclusive step of a thread keeps the invariant. -/
theorem Polling.run (polling : Polling s) (exclusive : Exclusive s (.run i c))
    (step : s.step driver mode (.run i c) = some s') : Polling s' := by
  obtain ⟨f, op, rest, s₁, push, thread, performed, rfl⟩ := State.step_run step
  have next : op ∈ s.next i := by simp [State.next, thread]
  cases plain : op.decides with
  | false => exact polling.of_quiet thread (quiet_of_perform performed plain)
  | true =>
      cases op with
      | run id op =>
          cases op with
          | checkCompleted => exact polling.checkCompleted thread (exclusive _ next rfl) performed
          | pollStart => exact polling.pollStart thread performed
          | polling => exact polling.pollEnd thread performed
          | storeCompleted waker => exact polling.storeCompleted thread performed
          | dropFuture waker => exact polling.dropFuture thread performed
          | _ => cases plain
      | _ => cases plain

/-- A callback that starts, or a call, adds operations that are away from the
future. -/
theorem Polling.of_append {t : Thread Call Op} (polling : Polling s)
    (threads : s'.threads = s.threads ++ [t])
    (record : s'.completed = s.completed ∧ s'.ready = s.ready ∧ s'.drops = s.drops ∧
      s'.latePoll = s.latePoll) (distant : Distant t.code) : Polling s' := by
  obtain ⟨completed, ready, drops, latePoll⟩ := record
  obtain ⟨noWindow, noEarly, noStore, noDrop⟩ := distant
  obtain ⟨one, unstored, stored, once, polls⟩ := polling
  constructor <;>
    simp only [threads, completed, ready, drops, latePoll, load_append, load_cons, load_nil,
      noWindow, noEarly, noStore, noDrop, Nat.add_zero]
  · exact one
  · exact unstored
  · exact stored
  · exact once
  · exact polls

theorem Polling.start (polling : Polling s) (step : s.step driver mode (.start id) = some s') :
    Polling s' := by
  obtain ⟨item, -, -, rfl⟩ := State.step_start step
  exact polling.of_append rfl ⟨rfl, rfl, rfl, rfl⟩ ⟨rfl, rfl, rfl, rfl⟩

theorem Polling.call (polling : Polling s) (step : s.step driver mode (.call f) = some s') :
    Polling s' := by
  obtain ⟨-, rfl⟩ := State.step_call step
  refine polling.of_append (t := ⟨f, f.code⟩) ?_ ?_ ?_
  · cases f <;> rfl
  · cases f <;> exact ⟨rfl, rfl, rfl, rfl⟩
  · cases f <;> exact ⟨rfl, rfl, rfl, rfl⟩

end Steps

theorem polling_of_reach {driver : Driver} {mode : Hardening} {s : State}
    (reached : (system driver mode).Reach Exclusive s) : Polling s := by
  refine Sys.Reach.invariant ?_ ?_ reached
  · rintro s rfl
    exact Polling.initial
  · intro s a s' polling exclusive step
    cases a with
    | run i c => exact polling.run exclusive step
    | start id =>
        have started : s.step driver mode (.start id) = some s' := step
        exact polling.start started
    | call f =>
        have made : s.step driver mode (.call f) = some s' := step
        exact polling.call made

/-- At most one callback is polling or dropping the future, no poll came after
`Ready` or after a drop, and there was one drop at most. -/
def PolledAlone (s : State) : Prop :=
  load Op.inside s.threads ≤ 1 ∧ s.latePoll = false ∧ s.drops ≤ 1

/-- **Exclusive polling of a work-item task.** It holds in every state of a run whose
steps are exclusive, under both drivers and in every build of the counter. -/
theorem work_item_exclusive_polling {driver : Driver} {mode : Hardening} {s : State}
    (reached : (system driver mode).Reach Exclusive s) : PolledAlone s := by
  have polling := polling_of_reach reached
  have inside := inside_le_window s.threads
  have window := polling.window
  have drops := polling.drops
  have once : s.completed.toNat ≤ 1 := Bool.toNat_le _
  exact ⟨by omega, polling.polls, by omega⟩

/-- A task that is woken after its first callback and is ready in the second. -/
theorem work_item_exclusive_polling_of_two_callbacks :
    ∃ s, (system .wdm .off).Reach Exclusive s ∧ (s.ready = true ∧ s.drops = 1) ∧
      PolledAlone s := by
  obtain ⟨s, reached, done⟩ := Sys.Reach.exists_of_execIf
    (fun s : State => s.ready = true ∧ s.drops = 1)
    (firstPoll ++ [.call (.cloneWaker (.activation 1)), go 2, go 1, go 1, go 1, go 1, go 1,
      .call (.wake 0), go 3, go 3, go 3, go 3, go 3, go 3, go 3, .start 1, go 4, go 4, go 4, go 4,
      go 4, .run 4 .ready, go 4, go 4, go 4])
    (.start rfl : (system .wdm .off).Reach Exclusive initial) (by decide)
  exact ⟨s, reached, done, work_item_exclusive_polling reached⟩

/-- The future wakes itself during its first poll, and a second worker thread starts
the callback of the new work item while that poll goes on. -/
theorem two_callbacks_poll :
    (¬ ∀ s, (system .wdm .off).Reachable s → PolledAlone s) ∧
      ¬ ∀ s, (system .kmdf .off).Reachable s → PolledAlone s := by
  constructor
  · intro alone
    obtain ⟨s, reached, both⟩ := Sys.Reach.exists_of_exec
      (fun s : State => 1 < load Op.inside s.threads)
      (firstPoll ++ [.call (.wakeByRef (.activation 1)), go 2, go 2, go 2, go 2, go 2, go 2, go 2,
        .start 1, go 3, go 3, go 3, go 3, go 3])
      (.start rfl : (system .wdm .off).Reachable initial) (by decide)
    exact absurd (alone s reached).1 (Nat.not_le.mpr both)
  · intro alone
    obtain ⟨s, reached, both⟩ := Sys.Reach.exists_of_exec
      (fun s : State => 1 < load Op.inside s.threads)
      (firstPoll ++ [.call (.wakeByRef (.activation 1)), go 2, go 2, go 2, go 2, go 2, go 2, go 2,
        .start 1, go 3, go 3, go 3, go 3, go 3])
      (.start rfl : (system .kmdf .off).Reachable initial) (by decide)
    exact absurd (alone s reached).1 (Nat.not_le.mpr both)

end Kcom.WorkItem
