import Kcom.Executor.WorkItem.Memory
import Kcom.Executor.WorkItem.Polling

/-!
# What becomes of the future of a work-item task

The future sits in a `ManuallyDrop` and only `run` drops it, after it has stored to
`completed`. `free` gives the block back as it is: a task whose work item could not
be created, or whose future returned `Pending` and kept no waker, takes its future
with it undropped.

`Consumed` are the steps in which the reference that is given back last is given
back to a completed task. In the runs made of them a block that has been freed has
had its future dropped, once.
-/

namespace Kcom.WorkItem

open Conc

/-- The counter has room, no callback passes its check during another's poll, and
`release` brings the counter to 0 only when the task is completed. -/
def Consumed (mode : Hardening) (s : State) (a : State.Label) : Prop :=
  Counted mode s a ∧ Exclusive s a ∧
    match a with
    | .run i _ => ∀ op ∈ s.next i, op.subs = true → s.refCount = 1 → s.completed = true
    | _ => True

instance (mode : Hardening) (s : State) : (a : State.Label) → Decidable (Consumed mode s a)
  | .run i c => inferInstanceAs (Decidable (Counted mode s (.run i c) ∧ Exclusive s (.run i c) ∧
      ∀ op ∈ s.next i, op.subs = true → s.refCount = 1 → s.completed = true))
  | .start id => inferInstanceAs (Decidable (Counted mode s (.start id) ∧
      Exclusive s (.start id) ∧ True))
  | .call f => inferInstanceAs (Decidable (Counted mode s (.call f) ∧ Exclusive s (.call f) ∧
      True))

section Steps

variable {driver : Driver} {mode : Hardening} {s s' s₁ : State} {i id : Nat} {c : Choice}
  {f : Call} {op : Op} {push rest : List Op}

/-- `completed` is never taken back. -/
theorem completed_of_perform (performed : s.perform driver mode i f c op = some (s₁, push))
    (done : s.completed = true) : s₁.completed = true := by
  cases plain : op.decides with
  | false => exact (quiet_of_perform performed plain).completed.trans done
  | true =>
      cases op with
      | run id op =>
          cases op with
          | checkCompleted | pollStart | dropFuture =>
              cases performed
              exact done
          | storeCompleted waker =>
              cases performed
              rfl
          | polling =>
              simp only [State.perform, State.performRun] at performed
              split at performed
              · cases performed
              · split at performed <;> cases performed <;> exact done
          | _ => cases plain
      | _ => cases plain

/-- A task that nobody refers to any more is completed. -/
def Spent (s : State) : Prop :=
  s.allocated = true → s.references = 0 → s.completed = true

theorem Spent.run (memory : Memory mode s) (spent : Spent s)
    (consumed : Consumed mode s (.run i c)) (step : s.step driver mode (.run i c) = some s') :
    Spent s' := by
  obtain ⟨counted, -, last⟩ := consumed
  have after := memory.run counted step
  obtain ⟨f, op, rest, s₁, push, thread, performed, rfl⟩ := State.step_run step
  have next : s.next i = some op := by simp [State.next, thread]
  intro born none
  have count := memory.count
  have zero := after.count.trans none
  rw [State.moved_refCount] at zero
  rw [State.moved_allocated] at born
  rw [State.moved_completed]
  by_cases old : ∀ form, op ≠ .allocate form
  · have moves := memory.moves thread performed old (counted op next)
    have counts := moves.count
    rw [moves.allocated] at born
    cases gone : op.subs with
    | true =>
        -- the last reference is given back here
        have pos := memory.references_pos thread (Op.needs_of_subs gone)
        have noAdd : op.adds = false := by cases op <;> first | rfl | cases gone
        simp only [gone, noAdd, Bool.toNat_true, Bool.toNat_false] at counts
        exact completed_of_perform performed (last op next gone (by omega))
    | false =>
        simp only [gone, Bool.toNat_false] at counts
        exact completed_of_perform performed (spent born (by omega))
  · simp only [not_forall, not_not] at old
    obtain ⟨form, rfl⟩ := old
    rcases allocate_cases performed with ⟨rfl, -⟩ | ⟨rfl, -⟩
    · exact spent born (count.symm.trans zero)
    · cases zero

theorem Spent.start (memory : Memory mode s) (spent : Spent s)
    (step : s.step driver mode (.start id) = some s') : Spent s' := by
  have after := memory.start step
  obtain ⟨item, -, -, rfl⟩ := State.step_start step
  intro born none
  exact spent born (memory.count.symm.trans (after.count.trans none))

theorem Spent.call (memory : Memory mode s) (spent : Spent s)
    (step : s.step driver mode (.call f) = some s') : Spent s' := by
  have after := memory.call step
  obtain ⟨-, rfl⟩ := State.step_call step
  intro born none
  have frame : (s.enter f).refCount = s.refCount ∧ (s.enter f).allocated = s.allocated ∧
      (s.enter f).completed = s.completed := by
    cases f <;> exact ⟨rfl, rfl, rfl⟩
  obtain ⟨refCount, allocated, completed⟩ := frame
  have zero : s.refCount = 0 := refCount.symm.trans (after.count.trans none)
  exact completed.trans (spent (allocated.symm.trans born) (memory.count.symm.trans zero))

end Steps

theorem spent_of_reach {driver : Driver} {mode : Hardening} {s : State}
    (reached : (system driver mode).Reach (Consumed mode) s) : Spent s := by
  induction reached with
  | start first =>
      rw [show _ = initial from first]
      nofun
  | @step s s' a reached consumed step spent =>
      have memory := memory_of_reach (reached.mono fun _ _ consumed => consumed.1)
      cases a with
      | run i c => exact spent.run memory consumed step
      | start id =>
          have started : s.step driver mode (.start id) = some s' := step
          exact spent.start memory started
      | call f =>
          have made : s.step driver mode (.call f) = some s' := step
          exact spent.call memory made

/-- What is about to be dropped is held. -/
theorem drops_le_refs (threads : List (Thread Call Op)) :
    load Op.drops threads ≤ load Op.refs threads := by
  apply load_mono
  intro op
  cases op with
  | run id op => cases op <;> simp [Op.drops, Op.refs, Run.refs]
  | _ => simp [Op.drops]

/-- **No future is leaked.** In every run in which the last reference to a task is
given back only after it was completed, a block that has been freed has been freed
once and its future has been dropped exactly once, whatever spawn function made it. -/
theorem freed_future_dropped {driver : Driver} {mode : Hardening} {s : State}
    (reached : (system driver mode).Reach (Consumed mode) s) (freed : 0 < s.frees) :
    s.frees = 1 ∧ s.drops = 1 := by
  have memory := memory_of_reach (reached.mono fun _ _ consumed => consumed.1)
  have polling := polling_of_reach (reached.mono fun _ _ consumed => consumed.2.1)
  have once := memory.freed
  have drops := polling.drops
  have held := drops_le_refs s.threads
  split at once
  · rename_i gone
    obtain ⟨born, none⟩ := gone
    rw [spent_of_reach reached born none, Bool.toNat_true] at drops
    rw [State.references] at none
    exact ⟨by omega, by omega⟩
  · omega

/-- A cancellable task that is ready at its first poll and whose handle is dropped. -/
theorem freed_future_dropped_of_ready :
    ∃ s, (system .wdm .off).Reach (Consumed .off) s ∧ 0 < s.frees ∧ s.frees = 1 ∧ s.drops = 1 := by
  obtain ⟨s, reached, freed⟩ := Sys.Reach.exists_of_execIf
    (fun s : State => 0 < s.frees)
    ([.call (.spawn .cancellable), go 0, go 0, go 0, go 0, go 0, go 0, go 0, go 0, go 0, go 0,
      go 0, go 0, go 0, .start 0, go 1, go 1, go 1, go 1, go 1, .run 1 .ready, go 1, go 1, go 1,
      go 1, go 1, go 1, go 1, .call (.dropHandle 0), go 2, go 2])
    (.start rfl : (system .wdm .off).Reach (Consumed .off) initial) (by decide)
  exact ⟨s, reached, freed, freed_future_dropped reached freed⟩

/-- `spawn_task_cancellable` when no work item can be created, and `spawn_task` with a
future that is pending once and keeps no waker: both blocks are freed with their
futures in them. -/
theorem freed_future_leaked :
    (∃ s, (system .wdm .off).Reachable s ∧ s.spawnFailed = true ∧ 0 < s.frees ∧ s.drops = 0) ∧
      (∃ s, (system .kmdf .off).Reachable s ∧ s.spawnFailed = false ∧ 0 < s.frees ∧ s.drops = 0) ∧
      ¬ ∀ s, (system .wdm .off).Reachable s → 0 < s.frees → s.drops = 1 := by
  have failed : ∃ s, (system .wdm .off).Reachable s ∧ s.spawnFailed = true ∧ 0 < s.frees ∧
      s.drops = 0 :=
    Sys.Reach.exists_of_exec
      (fun s : State => s.spawnFailed = true ∧ 0 < s.frees ∧ s.drops = 0)
      ([.call (.spawn .cancellable), go 0, go 0, go 0, go 0, go 0, go 0, go 0, .run 0 .fail, go 0,
        go 0, go 0, go 0, go 0])
      (.start rfl : (system .wdm .off).Reachable initial) (by decide)
  refine ⟨failed, ?_, ?_⟩
  · exact Sys.Reach.exists_of_exec
      (fun s : State => s.spawnFailed = false ∧ 0 < s.frees ∧ s.drops = 0)
      (firstPoll ++ [go 1, go 1, go 1, go 1, go 1, go 1])
      (.start rfl : (system .kmdf .off).Reachable initial) (by decide)
  · intro dropped
    obtain ⟨s, reached, -, freed, undropped⟩ := failed
    rw [dropped s reached freed] at undropped
    cases undropped

end Kcom.WorkItem
