import Kcom.Executor.Dpc.Memory

/-!
# No lost wake-up

A `schedule` that finds the flag set relies on somebody else to poll. The flag is
set only on behalf of a thread that is about to execute `KeInsertQueueDpc`, of a
queued DPC, or of an activation that has not yet cleared it (`Scheduled`); so
whoever relies on it relies on a poll that has not started. `Owed` carries this
through the rest of a run: from the outcome of a `schedule` to the start of the
next poll there is an insertion, a queue entry or an activation on its way to
`vtable.poll`.

The outcome is what counts, not the return of the call: between the insertion
and the release that ends `wake_raw` the task may already have been polled.
-/

namespace Kcom.Dpc

open Conc

/-- A thread is between its successful `compare_exchange` on `scheduled` and its
`KeInsertQueueDpc`. -/
def Op.inserts : Op → Nat
  | .addRef .schedule => 1
  | .insertQueueDpc .schedule => 1
  | _ => 0

/-- An activation has not yet cleared the flag. -/
def Op.clears : Op → Nat
  | .clearScheduled _ => 1
  | _ => 0

/-- The operations of the loop that come before a call of `vtable.poll` and lead
to it. -/
def Loop.polls : Loop → Nat
  | .setCurrent _ => 1
  | .loadMode _ => 1
  | .loadPolls _ _ => 1
  | .queryStart _ _ => 1
  | .loadTimeUs _ _ _ _ => 1
  | .pollStart _ => 1
  | .clearScheduled _ => 1
  | _ => 0

/-- An activation will call `vtable.poll` before it exits, unless it finds the task
completed. -/
def Op.polls : Op → Nat
  | .clearScheduled _ => 1
  | .checkCompleted _ => 1
  | .rawWaker _ => 1
  | .loop op => op.polls
  | _ => 0

/-- The flag is set only where somebody will clear it. -/
def Scheduled (s : State) : Prop :=
  s.scheduled = true → 0 < load Op.inserts s.threads + s.queued.toNat + load Op.clears s.threads

/-- A `schedule` that has reached its outcome since the last poll started is
followed by another poll. -/
def Owed (s : State) : Prop :=
  s.decided = true → s.completed = false →
    0 < load Op.inserts s.threads + s.queued.toNat + load Op.polls s.threads

section Steps

variable {mode : Hardening} {s s' s₁ : State} {i : Nat} {c : Choice} {f : Call} {op : Op}
  {push rest : List Op}

theorem clears_le_polls (threads : List (Thread Call Op)) :
    load Op.clears threads ≤ load Op.polls threads := by
  apply load_mono
  intro op
  cases op <;> first | exact Nat.le_refl _ | exact Nat.zero_le _

/-- The steps of the loop do not set the flag. -/
theorem performLoop_scheduled {op : Loop} (performed : s.performLoop i c op = some (s₁, push))
    (set : s₁.scheduled = true) : s.scheduled = true := by
  cases op with
  | loadPolls cpu m => cases m <;> cases performed <;> exact set
  | queryStart | polling | queryNow =>
      simp only [State.performLoop] at performed
      (repeat' split at performed) <;> cases performed <;> exact set
  | clearScheduled l =>
      cases performed
      cases set
  | _ =>
      cases performed
      exact set

/-- The flag after one operation: it was set before and nobody who will clear it
is lost, or somebody has just taken it on. -/
theorem perform_scheduled (performed : s.perform mode i c op = some (s₁, push))
    (set : s₁.scheduled = true) :
    (s.scheduled = true ∧ op.inserts + s.queued.toNat + op.clears ≤
      total Op.inserts push + s₁.queued.toNat + total Op.clears push) ∨
      0 < total Op.inserts push + s₁.queued.toNat := by
  have keep : op.inserts = 0 → op.clears = 0 → s₁.queued = s.queued → s.scheduled = true →
      (s.scheduled = true ∧ op.inserts + s.queued.toNat + op.clears ≤
        total Op.inserts push + s₁.queued.toNat + total Op.clears push) ∨
        0 < total Op.inserts push + s₁.queued.toNat := by
    intro noInsert noClear queued was
    rw [queued]
    exact Or.inl ⟨was, by omega⟩
  cases op with
  | casScheduled =>
      simp only [State.perform] at performed
      split at performed <;> cases performed
      · exact keep rfl rfl rfl ‹_›
      · exact Or.inr (Nat.lt_add_right _ Nat.one_pos)
  | insertQueueDpc caller =>
      right
      simp only [State.perform] at performed
      split at performed <;> cases performed
      · simp [‹s.queued = true›]
      · simp
  | addRef caller =>
      simp only [State.perform, Option.map_eq_some_iff] at performed
      obtain ⟨⟨_, count⟩, -, performed⟩ := performed
      cases performed
      left
      cases caller <;> exact ⟨set, by simp [Op.inserts, Op.clears]⟩
  | newHandle | cloneRaw | rawWaker | subRef =>
      simp only [State.perform, Option.map_eq_some_iff] at performed
      obtain ⟨⟨_, count⟩, -, performed⟩ := performed
      cases performed
      exact keep rfl rfl rfl set
  | allocate form =>
      simp only [State.perform] at performed
      split at performed <;> cases performed
      · exact keep rfl rfl rfl set
      · cases set
  | clearScheduled cpu =>
      cases performed
      cases set
  | last op => cases op <;> cases performed <;> exact keep rfl rfl rfl set
  | loop op =>
      obtain ⟨next, frame⟩ := performLoop_frame performed
      have was := performLoop_scheduled performed set
      exact keep rfl rfl (by rw [frame]) was
  | casCancel =>
      simp only [State.perform] at performed
      split at performed <;> cases performed <;> exact keep rfl rfl rfl set
  | casAcknowledge =>
      cases performed
      split at set <;> exact keep rfl rfl (by split <;> rfl) set
  | _ =>
      cases performed
      exact keep rfl rfl rfl set

/-- A debt that is left after a step of the loop was there before it, and whoever will
pay it is still there. -/
theorem performLoop_owed {op : Loop} (performed : s.performLoop i c op = some (s₁, push))
    (decided : s₁.decided = true) (unfinished : s₁.completed = false) :
    s.decided = true ∧ s.completed = false ∧
      (Op.loop op).inserts + s.queued.toNat + (Op.loop op).polls ≤
        total Op.inserts push + s₁.queued.toNat + total Op.polls push := by
  cases op with
  | loadPolls cpu m =>
      cases m <;> cases performed <;>
        exact ⟨decided, unfinished, by simp [Op.inserts, Op.polls, Loop.polls]⟩
  | queryStart | polling | queryNow =>
      simp only [State.performLoop] at performed
      (repeat' split at performed) <;> cases performed <;>
        exact ⟨decided, unfinished, by simp [Op.inserts, Op.polls, Loop.polls] <;> omega⟩
  | pollStart l =>
      cases performed
      cases decided
  | storeCompleted cpu =>
      cases performed
      cases unfinished
  | _ =>
      cases performed
      exact ⟨decided, unfinished, by simp [Op.inserts, Op.polls, Loop.polls] <;> omega⟩

/-- The debt after one operation: it was there before and nobody who will pay it
is lost, or somebody has just taken it on, or a `schedule` has found the flag
set. -/
theorem perform_owed (performed : s.perform mode i c op = some (s₁, push))
    (decided : s₁.decided = true) (unfinished : s₁.completed = false) :
    (s.decided = true ∧ s.completed = false ∧ op.inserts + s.queued.toNat + op.polls ≤
      total Op.inserts push + s₁.queued.toNat + total Op.polls push) ∨
      0 < total Op.inserts push + s₁.queued.toNat ∨
      (s.scheduled = true ∧ op.inserts = 0 ∧ op.clears = 0 ∧ s₁.queued = s.queued) := by
  have keep : op.inserts = 0 → op.polls = 0 → s₁.queued = s.queued → s.decided = true →
      s.completed = false →
      (s.decided = true ∧ s.completed = false ∧ op.inserts + s.queued.toNat + op.polls ≤
        total Op.inserts push + s₁.queued.toNat + total Op.polls push) ∨
        0 < total Op.inserts push + s₁.queued.toNat ∨
        (s.scheduled = true ∧ op.inserts = 0 ∧ op.clears = 0 ∧ s₁.queued = s.queued) := by
    intro noInsert noPoll queued was running
    rw [queued]
    exact Or.inl ⟨was, running, by omega⟩
  cases op with
  | casScheduled =>
      simp only [State.perform] at performed
      split at performed <;> cases performed
      · exact Or.inr (Or.inr ⟨‹_›, rfl, rfl, rfl⟩)
      · exact Or.inr (Or.inl (Nat.lt_add_right _ Nat.one_pos))
  | insertQueueDpc caller =>
      right; left
      simp only [State.perform] at performed
      split at performed <;> cases performed
      · simp [‹s.queued = true›]
      · simp
  | addRef caller =>
      simp only [State.perform, Option.map_eq_some_iff] at performed
      obtain ⟨⟨_, count⟩, -, performed⟩ := performed
      cases performed
      left
      cases caller <;> exact ⟨decided, unfinished, by simp [Op.inserts, Op.polls]⟩
  | newHandle | cloneRaw | subRef =>
      simp only [State.perform, Option.map_eq_some_iff] at performed
      obtain ⟨⟨_, count⟩, -, performed⟩ := performed
      cases performed
      exact keep rfl rfl rfl decided unfinished
  | rawWaker cpu =>
      simp only [State.perform, Option.map_eq_some_iff] at performed
      obtain ⟨⟨_, count⟩, -, performed⟩ := performed
      cases performed
      left
      refine ⟨decided, unfinished, ?_⟩
      cases cpu <;> simp [Op.inserts, Op.polls, Loop.polls]
  | allocate form =>
      simp only [State.perform] at performed
      split at performed <;> cases performed
      · exact keep rfl rfl rfl decided unfinished
      · cases decided
  | clearScheduled cpu =>
      cases performed
      left
      exact ⟨decided, unfinished, by simp [Op.inserts, Op.polls]⟩
  | checkCompleted cpu =>
      cases performed
      left
      refine ⟨decided, unfinished, ?_⟩
      rw [if_neg (by rw [unfinished]; exact Bool.false_ne_true)]
      simp [Op.inserts, Op.polls]
  | last op =>
      cases op with
      | storeCompleted =>
          cases performed
          cases unfinished
      | _ =>
          cases performed
          exact keep rfl rfl rfl decided unfinished
  | loop op => exact Or.inl (performLoop_owed performed decided unfinished)
  | casCancel =>
      simp only [State.perform] at performed
      split at performed <;> cases performed <;> exact keep rfl rfl rfl decided unfinished
  | casAcknowledge =>
      cases performed
      split at decided <;> split at unfinished <;>
        exact keep rfl rfl (by split <;> rfl) decided unfinished
  | _ =>
      cases performed
      exact keep rfl rfl rfl decided unfinished

theorem Scheduled.run (flag : Scheduled s) (step : s.step mode (.run i c) = some s') :
    Scheduled s' := by
  obtain ⟨f, op, rest, s₁, push, finished, thread, performed, rfl⟩ := State.step_run step
  have inserts := load_set Op.inserts f push thread
  have clears := load_set Op.clears f push thread
  have insertHead := head_le_load Op.inserts thread
  have clearHead := head_le_load Op.clears thread
  intro set
  simp only [State.moved_scheduled] at set
  simp only [State.moved_threads, State.moved_queued]
  rcases perform_scheduled performed set with ⟨was, kept⟩ | taken
  · have before := flag was
    omega
  · omega

theorem Owed.run (flag : Scheduled s) (owed : Owed s)
    (step : s.step mode (.run i c) = some s') : Owed s' := by
  obtain ⟨f, op, rest, s₁, push, finished, thread, performed, rfl⟩ := State.step_run step
  have inserts := load_set Op.inserts f push thread
  have clears := load_set Op.clears f push thread
  have polls := load_set Op.polls f push thread
  have insertHead := head_le_load Op.inserts thread
  have pollHead := head_le_load Op.polls thread
  have weaker := clears_le_polls (s.threads.set i ⟨f, push ++ rest⟩)
  intro decided unfinished
  simp only [State.moved_decided, State.moved_completed] at decided unfinished
  simp only [State.moved_threads, State.moved_queued]
  rcases perform_owed performed decided unfinished with
    ⟨was, running, kept⟩ | taken | ⟨set, noInsert, noClear, queued⟩
  · have before := owed was running
    omega
  · omega
  · have before := flag set
    rw [queued]
    omega

theorem pledges_dequeue {cpu : Option Nat}
    (step : s.step mode (.dequeue cpu) = some s') : Scheduled s' ∧ Owed s' := by
  obtain ⟨queued, rfl⟩ := State.step_dequeue step
  constructor
  · intro _
    simp only [load_append, load_cons, load_nil, total_cons, total_nil, Op.clears]
    omega
  · intro _ _
    simp only [load_append, load_cons, load_nil, total_cons, total_nil, Op.polls]
    omega

theorem pledges_call (flag : Scheduled s) (owed : Owed s)
    (step : s.step mode (.call f) = some s') : Scheduled s' ∧ Owed s' := by
  obtain ⟨-, rfl⟩ := State.step_call step
  have frame : (s.enter f).scheduled = s.scheduled ∧ (s.enter f).queued = s.queued ∧
      (s.enter f).decided = s.decided ∧ (s.enter f).completed = s.completed := by
    cases f <;> exact ⟨rfl, rfl, rfl, rfl⟩
  obtain ⟨scheduled, queued, decided, completed⟩ := frame
  constructor
  · intro set
    simp only [scheduled] at set
    have before := flag set
    simp only [load_append, queued]
    omega
  · intro debt unfinished
    simp only [decided] at debt
    simp only [completed] at unfinished
    have before := owed debt unfinished
    simp only [load_append, queued]
    omega

end Steps

theorem pledges_of_reach {mode : Hardening} {s : State} (reached : (system mode).Reachable s) :
    Scheduled s ∧ Owed s := by
  refine Sys.Reach.invariant (I := fun s => Scheduled s ∧ Owed s) ?_ ?_ reached
  · rintro s rfl
    exact ⟨nofun, nofun⟩
  · rintro s a s' ⟨flag, owed⟩ - step
    cases a with
    | run i c => exact ⟨flag.run step, owed.run flag step⟩
    | dequeue cpu =>
        have taken : s.step mode (.dequeue cpu) = some s' := step
        exact pledges_dequeue taken
    | call f =>
        have made : s.step mode (.call f) = some s' := step
        exact pledges_call flag owed made

/-- **No wake or cancel is lost.** If since the start of the most recent poll some
`schedule` has found the flag set or has executed `KeInsertQueueDpc`, and the
task is not completed, then the DPC is queued, or an activation will poll before
it exits, or a thread is about to queue it; when all is quiet there is no such
`schedule`. -/
theorem no_lost_wakeup {mode : Hardening} {s : State} (reached : (system mode).Reachable s) :
    (s.completed = false → s.decided = true →
      s.queued = true ∨ (∃ t ∈ s.threads, ∃ op ∈ t.code, 0 < op.polls) ∨
        ∃ t ∈ s.threads, ∃ op ∈ t.code, 0 < op.inserts) ∧
      (s.queued = false → (∀ t ∈ s.threads, t.code = []) →
        s.completed = true ∨ s.decided = false) := by
  obtain ⟨-, owed⟩ := pledges_of_reach reached
  have pending : s.completed = false → s.decided = true →
      s.queued = true ∨ (∃ t ∈ s.threads, ∃ op ∈ t.code, 0 < op.polls) ∨
        ∃ t ∈ s.threads, ∃ op ∈ t.code, 0 < op.inserts := by
    intro unfinished decided
    have debt := owed decided unfinished
    by_cases inserts : 0 < load Op.inserts s.threads
    · exact Or.inr (Or.inr (exists_of_load_pos inserts))
    · by_cases polls : 0 < load Op.polls s.threads
      · exact Or.inr (Or.inl (exists_of_load_pos polls))
      · left
        cases queued : s.queued with
        | true => rfl
        | false =>
            rw [queued, Bool.toNat_false] at debt
            omega
  refine ⟨pending, ?_⟩
  intro empty idle
  cases unfinished : s.completed with
  | true => exact Or.inl rfl
  | false =>
      right
      cases decided : s.decided with
      | false => rfl
      | true =>
          rcases pending unfinished decided with queued | ⟨t, mem, op, here, -⟩ | ⟨t, mem, op, here, -⟩
          · rw [empty] at queued
            cases queued
          · rw [idle t mem] at here
            cases here
          · rw [idle t mem] at here
            cases here

/-- A task that wakes itself during its first poll. -/
theorem no_lost_wakeup_while_polling :
    ∃ s, (system .off).Reachable s ∧ (s.completed = false ∧ s.decided = true) ∧
      ((s.completed = false → s.decided = true →
        s.queued = true ∨ (∃ t ∈ s.threads, ∃ op ∈ t.code, 0 < op.polls) ∨
          ∃ t ∈ s.threads, ∃ op ∈ t.code, 0 < op.inserts) ∧
        (s.queued = false → (∀ t ∈ s.threads, t.code = []) →
          s.completed = true ∨ s.decided = false)) := by
  obtain ⟨s, reached, woken⟩ := Sys.Reach.exists_of_exec
    (fun s : State => s.completed = false ∧ s.decided = true)
    (firstPoll ++ [.call (.wakeByRef (.activation 1)), go 2, go 2, go 2, go 2])
    (.start rfl : (system .off).Reachable initial) (by decide)
  exact ⟨s, reached, woken, no_lost_wakeup reached⟩

/-- Counted by their return, wakes are lost: a `wake` inserts the DPC, the task is
polled and goes idle, and only then does the `wake` release its reference and
return. -/
theorem wake_returns_after_poll :
    ¬ ∀ s, (system .off).Reachable s → s.completed = false → s.finished = true →
      s.queued = true ∨ (∃ t ∈ s.threads, ∃ op ∈ t.code, 0 < op.polls) ∨
        ∃ t ∈ s.threads, ∃ op ∈ t.code, 0 < op.inserts := by
  intro followed
  obtain ⟨s, reached, unfinished, returned, empty, idle⟩ := Sys.Reach.exists_of_exec
    (fun s : State => s.completed = false ∧ s.finished = true ∧ s.queued = false ∧
      ∀ t ∈ s.threads, t.code = [])
    (firstPoll ++
      -- the first poll leaves two wakers behind and the activation exits
      [.call (.cloneWaker (.activation 1)), go 2, .call (.cloneWaker (.activation 1)), go 3,
        go 1, go 1, go 1, go 1, go 1] ++
      -- one is woken, up to its insertion
      [.call (.wake 0), go 4, go 4, go 4, go 4] ++
      -- the task is polled and exits, then the wake returns
      [.dequeue (some 0), go 5, go 5, go 5, go 5, go 5, go 5, go 5, go 5, go 5, go 5, go 5, go 5,
        go 4])
    (.start rfl : (system .off).Reachable initial) (by decide)
  rcases followed s reached unfinished returned with
    queued | ⟨t, mem, op, here, -⟩ | ⟨t, mem, op, here, -⟩
  · rw [empty] at queued
    cases queued
  · rw [idle t mem] at here
    cases here
  · rw [idle t mem] at here
    cases here

end Kcom.Dpc
