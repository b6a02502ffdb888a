import Kcom.Conc.History
import Kcom.Conc.Hosting
import Kcom.Executor.Dpc.Polling
import Kcom.Executor.Dpc.Wakeups

/-!
# The first poll of a DPC task

The future of a task is called from two places: `dpc_routine` polls it and drops it when it
was ready, and the `release` that frees the block drops it when it was not.

A task that is spawned has its first `schedule` before it, then an insertion, a queue entry
or an activation on its way to `vtable.poll`, and each of these keeps the block. So the
release that frees it comes after the first poll, and it finds the future dropped or drops
it. Nothing but the capacity of the counter is needed for that.
-/

namespace Kcom.Dpc

open Conc
open Conc.Host (Event)

/-! ## The trace of the future -/

/-- What an operation is to the future. -/
def Op.event (c : Choice) : Op → Option Event
  | .loop (.pollStart _) => some .poll
  | .loop (.polling _) => some (if c = .ready then .ready else .pending)
  | .loop (.dropFuture _) => some .drop
  | .last .dropFuture => some .drop
  | .loop (.dropping _) => some .dropped
  | .last .dropping => some .dropped
  | _ => none

def State.event (s : State) : State.Label → Option Event
  | .run i c => (s.next i).bind (Op.event c)
  | _ => none

/-- The task with the trace of its future. -/
def traced (mode : Hardening) : Sys (State × List Event) State.Label :=
  (system mode).withHistory [] fun s a es => es ++ (s.event a).toList

/-! ## What is on the way to the first poll -/

/-- A thread that leads to a poll: the spawner before its `schedule`, whoever inserts the
DPC, and an activation on its way to `vtable.poll`. -/
def Op.leads : Op → Nat
  | .newHandle => 1
  | .loadCompleted => 1
  | .casScheduled => 1
  | op => op.inserts + op.polls

/-- An activation behind its first call of `vtable.poll`. -/
def Op.behind : Op → Nat
  | .loop (.polling _) => 1
  | .loop (.loadScheduled _) => 1
  | .loop (.queryNow _) => 1
  | .loop (.clearScheduled _) => 1
  | .loop (.storeCompleted _) => 1
  | .loop (.dropFuture _) => 1
  | .loop (.dropping _) => 1
  | _ => 0

/-- The last `release` behind its check of `completed`. -/
def Op.buries : Op → Nat
  | .last .dropFuture => 1
  | .last .dropping => 1
  | .last .dealloc => 1
  | _ => 0

/-- Before the first poll. -/
structure Unpolled (s : State) : Prop where
  completed : s.completed = false
  behind : load Op.behind s.threads = 0
  leads : s.allocated = true → 0 < load Op.leads s.threads + s.queued.toNat

/-- The future is dropped before the block is freed. -/
structure Buried (s : State) : Prop where
  dropped : s.completed = true → 0 < s.drops + load Op.drops s.threads
  freed : 0 < s.deallocs + load Op.buries s.threads → s.completed = true

section Steps

variable {mode : Hardening} {s s' s₁ : State} {i : Nat} {c : Choice} {f : Call} {op : Op}
  {push rest : List Op} {e : Event}

/-- The ledger of an operation other than the allocation. -/
theorem Memory.ledger (memory : Memory mode s) (thread : s.threads[i]? = some ⟨f, op :: rest⟩)
    (performed : s.perform mode i c op = some (s₁, push)) (old : ∀ form, op ≠ .allocate form) :
    Ledger s s₁ op push := by
  refine perform_ledger performed (fun subs => ?_) old
  have pos := memory.references_pos thread (Op.needs_of_subs subs)
  have room := memory.room
  rw [memory.count]
  exact ⟨pos, room⟩

theorem Op.needs_of_leads (pos : 0 < op.leads) : op.needs = true := by
  cases op with
  | loop op => rfl
  | _ => first | rfl | cases pos

theorem inserts_clears_le_leads (threads : List (Thread Call Op)) :
    load Op.inserts threads + load Op.clears threads ≤ load Op.leads threads := by
  rw [← load_add]
  apply load_mono
  intro op
  cases op with
  | addRef caller | insertQueueDpc caller =>
      cases caller <;> simp [Op.inserts, Op.clears, Op.leads, Op.polls]
  | _ => simp [Op.inserts, Op.clears, Op.leads, Op.polls]

/-- While somebody is on the way to a poll the block is there. -/
theorem Memory.references_pos_of_leads (memory : Memory mode s)
    (way : 0 < load Op.leads s.threads + s.queued.toNat) : 0 < s.references := by
  rcases Nat.eq_zero_or_pos (load Op.leads s.threads) with none | pos
  · rw [State.references_eq]
    omega
  · obtain ⟨t, member, op, pending, leads⟩ := exists_of_load_pos pos
    exact memory.references_pos_of_mem member pending (Op.needs_of_leads leads)

/-- Nobody frees a block before the first poll. -/
theorem Unpolled.frees (unpolled : Unpolled s) (memory : Memory mode s) :
    load Op.frees s.threads = 0 := by
  have freed := memory.freed
  split at freed
  · next gone =>
      have pos := memory.references_pos_of_leads (unpolled.leads gone.1)
      omega
  · omega

/-- So no operation but the call of `vtable.poll` is an event before the first poll. -/
theorem Unpolled.event (unpolled : Unpolled s) (memory : Memory mode s)
    (thread : s.threads[i]? = some ⟨f, op :: rest⟩) (happens : op.event c = some e) :
    e = .poll := by
  have behind := head_le_load Op.behind thread
  have frees := head_le_load Op.frees thread
  rw [unpolled.behind] at behind
  rw [unpolled.frees memory] at frees
  cases op with
  | loop op =>
      cases op with
      | pollStart l =>
          cases happens
          rfl
      | polling | dropFuture | dropping => exact absurd behind (Nat.not_succ_le_zero 0)
      | _ => cases happens
  | last op => exact absurd frees (Nat.not_succ_le_zero 0)
  | _ => cases happens

/-- An operation on the way to the first poll, or beside it: whoever is on the way stays
there, somebody else is, or the flag was found set. -/
theorem perform_leads (performed : s.perform mode i c op = some (s₁, push))
    (still : s.completed = false) (behind : op.behind = 0) (frees : op.frees = 0)
    (quiet : op.event c = none) (old : ∀ form, op ≠ .allocate form) :
    s₁.completed = false ∧ total Op.behind push = 0 ∧ s₁.allocated = s.allocated ∧
      (op.leads + s.queued.toNat ≤ total Op.leads push + s₁.queued.toNat ∨
        0 < total Op.leads push + s₁.queued.toNat ∨
        s.scheduled = true ∧ op.inserts = 0 ∧ op.clears = 0 ∧ s₁.queued = s.queued) := by
  cases op with
  | allocate form => exact absurd rfl (old form)
  | last op => cases frees
  | casScheduled =>
      simp only [State.perform] at performed
      split at performed <;> cases performed
      · exact ⟨still, rfl, rfl, .inr (.inr ⟨‹_›, rfl, rfl, rfl⟩)⟩
      · exact ⟨still, rfl, rfl, .inl (Nat.le_refl _)⟩
  | insertQueueDpc caller =>
      simp only [State.perform] at performed
      split at performed <;> cases performed
      · exact ⟨still, rfl, rfl, .inr (.inl (by simp [‹s.queued = true›]))⟩
      · exact ⟨still, rfl, rfl, .inr (.inl (by simp))⟩
  | newHandle | cloneRaw | subRef =>
      simp only [State.perform, Option.map_eq_some_iff] at performed
      obtain ⟨⟨result, count⟩, -, performed⟩ := performed
      cases performed
      refine ⟨still, ?_, rfl, .inl ?_⟩
      · (try split) <;> rfl
      · (try split) <;> simp [Op.leads, Op.inserts, Op.polls]
  | addRef caller =>
      simp only [State.perform, Option.map_eq_some_iff] at performed
      obtain ⟨⟨result, count⟩, -, performed⟩ := performed
      cases performed
      cases caller <;> exact ⟨still, rfl, rfl, .inl (Nat.le_refl _)⟩
  | rawWaker cpu =>
      simp only [State.perform, Option.map_eq_some_iff] at performed
      obtain ⟨⟨result, count⟩, -, performed⟩ := performed
      cases performed
      cases cpu <;> exact ⟨still, rfl, rfl, .inl (Nat.le_refl _)⟩
  | loadCompleted | checkCompleted =>
      cases performed
      rw [if_neg (by rw [still]; exact Bool.false_ne_true)]
      exact ⟨still, rfl, rfl, .inl (Nat.le_refl _)⟩
  | loadCurrent cpu take =>
      cases performed
      refine ⟨still, ?_, rfl, .inl ?_⟩
      · repeat' split
        all_goals rfl
      · exact Nat.add_le_add_right (Nat.zero_le _) _
  | casCancel =>
      simp only [State.perform] at performed
      split at performed <;> cases performed
      · exact ⟨still, rfl, rfl, .inl (by simp [Op.leads, Op.inserts, Op.polls])⟩
      · exact ⟨still, rfl, rfl, .inl (Nat.le_refl _)⟩
  | casAcknowledge =>
      cases performed
      split <;> exact ⟨still, rfl, rfl, .inl (Nat.le_refl _)⟩
  | loop op =>
      cases op with
      | setCurrent | loadMode | loadTimeUs =>
          cases performed
          exact ⟨still, rfl, rfl, .inl (Nat.le_refl _)⟩
      | loadPolls cpu m =>
          cases m <;> cases performed <;> exact ⟨still, rfl, rfl, .inl (Nat.le_refl _)⟩
      | queryStart cpu polls =>
          simp only [State.perform, State.performLoop] at performed
          split at performed <;> cases performed
          exact ⟨still, rfl, rfl, .inl (Nat.le_refl _)⟩
      | pollStart => cases quiet
      | polling | loadScheduled | queryNow | clearScheduled | storeCompleted | dropFuture |
          dropping => cases behind
  | _ =>
      cases performed
      exact ⟨still, rfl, rfl, .inl (by simp [Op.leads, Op.inserts, Op.polls])⟩

/-- Before the first poll there is nobody behind it. -/
theorem Unpolled.run (unpolled : Unpolled s) (memory : Memory mode s) (flag : Scheduled s)
    (quiet : s.event (.run i c) = none) (step : s.step mode (.run i c) = some s') :
    Unpolled s' := by
  obtain ⟨f, op, rest, s₁, push, finished, thread, performed, rfl⟩ := State.step_run step
  have behind := load_set Op.behind f push thread
  have leads := load_set Op.leads f push thread
  have head := head_le_load Op.behind thread
  have leading := head_le_load Op.leads thread
  have frees := head_le_load Op.frees thread
  rw [unpolled.behind] at behind head
  rw [unpolled.frees memory] at frees
  have silent : op.event c = none := by
    simpa [State.event, State.next, thread] using quiet
  by_cases spawns : ∃ form, op = .allocate form
  · obtain ⟨form, rfl⟩ := spawns
    have unborn := memory.unallocated thread
    simp only [State.perform] at performed
    split at performed <;> cases performed
    · refine ⟨unpolled.completed, ?_, fun born => ?_⟩
      · simp only [total_nil, State.moved_threads] at behind ⊢
        omega
      · rw [State.moved_allocated, unborn] at born
        cases born
    · refine ⟨rfl, ?_, fun _ => ?_⟩
      · have none : total Op.behind ((if form.hasTracker then [.trackerBegin] else []) ++
            if form.hasHandle then [.newHandle] else [.loadCompleted, .subRef .spawner]) = 0 := by
          cases form <;> rfl
        rw [State.moved_threads]
        omega
      · have one : 0 < total Op.leads ((if form.hasTracker then [.trackerBegin] else []) ++
            if form.hasHandle then [.newHandle] else [.loadCompleted, .subRef .spawner]) := by
          cases form <;> exact Nat.one_pos
        have none : (Op.allocate form).leads = 0 := rfl
        rw [State.moved_threads]
        omega
  · obtain ⟨completed, none, born, way⟩ := perform_leads performed unpolled.completed
      (Nat.le_zero.mp head) (Nat.le_zero.mp frees) silent fun form same => spawns ⟨form, same⟩
    refine ⟨completed, ?_, fun allocated => ?_⟩
    · rw [State.moved_threads]
      omega
    · rw [State.moved_allocated, born] at allocated
      have before := unpolled.leads allocated
      rw [State.moved_threads, State.moved_queued]
      rcases way with kept | taken | ⟨set, noInsert, noClear, queued⟩
      · omega
      · omega
      · -- whoever has set the flag is on the way
        have served := flag set
        have inserts := load_set Op.inserts f push thread
        have clears := load_set Op.clears f push thread
        have onTheWay := inserts_clears_le_leads (s.threads.set i ⟨f, push ++ rest⟩)
        rw [queued]
        omega

theorem behind_of_callable (callable : s.callable f = true) : total Op.behind (s.code f) = 0 := by
  cases f with
  | setTaskBudget budget => cases budget <;> rfl
  | isCancellationRequested j | takeCancellationRequest j =>
      simp only [State.code]
      cases s.cpuOf j <;> rfl
  | dpcRoutine cpu => cases callable
  | _ => rfl

theorem Unpolled.call (unpolled : Unpolled s) (step : s.step mode (.call f) = some s') :
    Unpolled s' := by
  obtain ⟨callable, rfl⟩ := State.step_call step
  have none := behind_of_callable callable
  have frame : (s.enter f).completed = s.completed ∧ (s.enter f).allocated = s.allocated ∧
      (s.enter f).queued = s.queued := by
    cases f <;> exact ⟨rfl, rfl, rfl⟩
  obtain ⟨completed, allocated, queued⟩ := frame
  refine ⟨completed.trans unpolled.completed, ?_, fun born => ?_⟩
  · simp only [load_append, load_cons, load_nil, none, unpolled.behind]
  · have before := unpolled.leads (allocated.symm.trans born)
    simp only [load_append, queued]
    omega

theorem Unpolled.dequeue {cpu : Option Nat} (unpolled : Unpolled s)
    (step : s.step mode (.dequeue cpu) = some s') : Unpolled s' := by
  obtain ⟨queued, rfl⟩ := State.step_dequeue step
  refine ⟨unpolled.completed, ?_, fun _ => ?_⟩
  · simp only [load_append, load_cons, load_nil, total_cons, total_nil, Op.behind,
      unpolled.behind]
  · simp only [load_append, load_cons, load_nil, total_cons, total_nil, Op.leads, Op.inserts,
      Op.polls]
    omega

/-! ## The drop before the end -/

/-- Who stores to `completed` drops the future. -/
theorem perform_drops (performed : s.perform mode i c op = some (s₁, push))
    (completed : s₁.completed = true) :
    s.completed = true ∧ s.drops + op.drops ≤ s₁.drops + total Op.drops push ∨
      0 < s₁.drops + total Op.drops push := by
  cases plain : op.decides with
  | false =>
      have quiet := quiet_of_perform performed plain
      rw [quiet.completed] at completed
      rw [quiet.drops, quiet.dropping]
      exact .inl ⟨completed, Nat.le_refl _⟩
  | true =>
      cases op with
      | allocate form =>
          simp only [State.perform] at performed
          split at performed <;> cases performed
          · exact .inl ⟨completed, Nat.le_refl _⟩
          · cases completed
      | checkCompleted cpu =>
          cases performed
          exact .inl ⟨completed, Nat.le_add_right _ _⟩
      | loop op =>
          cases op with
          | pollStart l =>
              cases performed
              exact .inl ⟨completed, Nat.le_add_right _ _⟩
          | polling l =>
              simp only [State.perform, State.performLoop] at performed
              (repeat' split at performed) <;> cases performed <;>
                exact .inl ⟨completed, Nat.le_add_right _ _⟩
          | storeCompleted cpu =>
              cases performed
              exact .inr (Nat.succ_pos _)
          | dropFuture cpu =>
              cases performed
              exact .inr (Nat.add_pos_left (Nat.succ_pos _) _)
          | _ => cases plain
      | last op =>
          cases op with
          | loadCompleted =>
              cases performed
              exact .inl ⟨completed, Nat.le_add_right _ _⟩
          | storeCompleted =>
              cases performed
              exact .inr (Nat.succ_pos _)
          | dropFuture =>
              cases performed
              exact .inr (Nat.add_pos_left (Nat.succ_pos _) _)
          | _ => cases plain
      | _ => cases plain

/-- The last `release` goes past its check of `completed` when that is set. -/
theorem perform_buries (performed : s.perform mode i c op = some (s₁, push))
    (old : ∀ form, op ≠ .allocate form) :
    s₁.completed = true ∨ s₁.completed = s.completed ∧
      s₁.deallocs + total Op.buries push = s.deallocs + op.buries := by
  cases op with
  | allocate form => exact absurd rfl (old form)
  | loop op =>
      cases plain : (Op.loop op).decides with
      | false =>
          have quiet := quiet_of_perform performed plain
          obtain ⟨next, frame⟩ := performLoop_frame performed
          refine .inr ⟨quiet.completed, ?_⟩
          rw [frame]
          cases next with
          | again op => rfl
          | leave cpu | requeue cpu => cases cpu <;> rfl
      | true =>
          cases op with
          | storeCompleted cpu =>
              cases performed
              exact .inl rfl
          | polling l =>
              simp only [State.perform, State.performLoop] at performed
              (repeat' split at performed) <;> cases performed <;> exact .inr ⟨rfl, rfl⟩
          | pollStart | dropFuture =>
              cases performed
              exact .inr ⟨rfl, rfl⟩
          | _ => cases plain
  | last op =>
      cases op with
      | loadCompleted =>
          cases performed
          cases completed : s.completed with
          | true => exact .inl rfl
          | false => exact .inr ⟨rfl, rfl⟩
      | storeCompleted =>
          cases performed
          exact .inl rfl
      | dealloc =>
          cases performed
          refine .inr ⟨rfl, ?_⟩
          dsimp only
          split <;> rfl
      | dropFuture | dropping =>
          cases performed
          exact .inr ⟨rfl, rfl⟩
  | newHandle | addRef | cloneRaw | rawWaker | subRef =>
      simp only [State.perform, Option.map_eq_some_iff] at performed
      obtain ⟨⟨result, count⟩, -, performed⟩ := performed
      cases performed
      refine .inr ⟨rfl, ?_⟩
      (repeat' split) <;> rfl
  | casScheduled | casCancel | insertQueueDpc =>
      simp only [State.perform] at performed
      split at performed <;> cases performed <;> exact .inr ⟨rfl, rfl⟩
  | casAcknowledge =>
      cases performed
      split <;> exact .inr ⟨rfl, rfl⟩
  | loadCompleted | loadCurrent | checkCompleted =>
      cases performed
      refine .inr ⟨rfl, ?_⟩
      (repeat' split) <;> rfl
  | _ =>
      cases performed
      exact .inr ⟨rfl, rfl⟩

theorem buries_le_frees (threads : List (Thread Call Op)) :
    load Op.buries threads ≤ load Op.frees threads := by
  apply load_mono
  intro op
  cases op with
  | last op => cases op <;> simp [Op.buries, Op.frees]
  | _ => exact Nat.zero_le _

theorem Buried.run (buried : Buried s) (memory : Memory mode s)
    (step : s.step mode (.run i c) = some s') : Buried s' := by
  obtain ⟨f, op, rest, s₁, push, finished, thread, performed, rfl⟩ := State.step_run step
  have drops := load_set Op.drops f push thread
  have buries := load_set Op.buries f push thread
  have dropHead := head_le_load Op.drops thread
  refine ⟨?_, ?_⟩ <;> rw [State.moved_threads, State.moved_completed]
  · rw [State.moved_drops]
    intro completed
    rcases perform_drops performed completed with ⟨was, kept⟩ | pos
    · have before := buried.dropped was
      omega
    · omega
  · rw [State.moved_deallocs]
    intro pos
    by_cases spawns : ∃ form, op = .allocate form
    · -- nothing is freed before it is there
      obtain ⟨form, rfl⟩ := spawns
      have unborn := memory.unallocated thread
      have freed := memory.freed
      have le := buries_le_frees s.threads
      rw [if_neg (by rw [unborn]; nofun)] at freed
      simp only [State.perform] at performed
      split at performed <;> cases performed
      · simp only [total_nil, Op.buries] at buries
        omega
      · have none : total Op.buries ((if form.hasTracker then [.trackerBegin] else []) ++
            if form.hasHandle then [.newHandle] else [.loadCompleted, .subRef .spawner]) = 0 := by
          cases form <;> rfl
        dsimp only at pos
        simp only [Op.buries] at buries
        omega
    · rcases perform_buries performed fun form same => spawns ⟨form, same⟩ with
        done | ⟨same, balance⟩
      · exact done
      · rw [same]
        exact buried.freed (by omega)

/-- A dequeued DPC or a call adds nothing that drops the future. -/
theorem Buried.of_append {t : Thread Call Op} (buried : Buried s)
    (threads : s'.threads = s.threads ++ [t])
    (frame : s'.completed = s.completed ∧ s'.drops = s.drops ∧ s'.deallocs = s.deallocs)
    (outside : total Op.buries t.code = 0) : Buried s' := by
  obtain ⟨completed, drops, deallocs⟩ := frame
  refine ⟨?_, ?_⟩ <;> rw [threads, completed, load_append]
  · rw [drops]
    intro done
    have before := buried.dropped done
    omega
  · rw [deallocs, load_cons, load_nil, outside]
    exact buried.freed

theorem Buried.call (buried : Buried s) (step : s.step mode (.call f) = some s') :
    Buried s' := by
  obtain ⟨callable, rfl⟩ := State.step_call step
  refine buried.of_append (t := ⟨f, s.code f⟩) rfl ?_ ?_
  · cases f <;> exact ⟨rfl, rfl, rfl⟩
  · cases f with
    | setTaskBudget budget => cases budget <;> rfl
    | isCancellationRequested j | takeCancellationRequest j =>
        simp only [State.code]
        cases s.cpuOf j <;> rfl
    | _ => rfl

end Steps

theorem buried_of_reach {mode : Hardening} {s : State}
    (reached : (system mode).Reach (Counted mode) s) : Memory mode s ∧ Buried s := by
  refine Sys.Reach.invariant (I := fun s => Memory mode s ∧ Buried s) ?_ ?_ reached
  · rintro s rfl
    exact ⟨Memory.initial, nofun, nofun⟩
  · rintro s a s' ⟨memory, buried⟩ counted step
    cases a with
    | run i c => exact ⟨memory.run counted step, buried.run memory step⟩
    | dequeue cpu =>
        have taken : s.step mode (.dequeue cpu) = some s' := step
        refine ⟨memory.dequeue taken, ?_⟩
        obtain ⟨-, rfl⟩ := State.step_dequeue taken
        exact buried.of_append rfl ⟨rfl, rfl, rfl⟩ rfl
    | call f =>
        have made : s.step mode (.call f) = some s' := step
        exact ⟨memory.call made, buried.call made⟩

/-- A freed block has no reference, and nobody is about to free it. -/
theorem Memory.freed_empty {mode : Hardening} {s : State} (memory : Memory mode s)
    (freed : 0 < s.deallocs) :
    s.allocated = true ∧ s.references = 0 ∧ load Op.frees s.threads = 0 := by
  have once := memory.freed
  split at once
  · next gone => exact ⟨gone.1, gone.2, by omega⟩
  · omega

/-! ## The first poll -/

/-- A thread is inside `vtable.poll`. -/
def Op.polling : Op → Nat
  | .loop (.polling _) => 1
  | _ => 0

/-- A thread is inside `destroy(Drop)`. -/
def Op.dropping : Op → Nat
  | .loop (.dropping _) => 1
  | .last .dropping => 1
  | _ => 0

section Traces

variable {mode : Hardening} {s s' s₁ : State} {es : List Event} {i : Nat} {c : Choice}
  {f : Call} {op : Op} {push rest : List Op}

theorem calls_exit (cpu : Option Nat) :
    total Op.polling (exit cpu) = 0 ∧ total Op.dropping (exit cpu) = 0 := by
  cases cpu <;> exact ⟨rfl, rfl⟩

theorem calls_afterWoken (l : Locals) :
    total Op.polling (afterWoken l) = 0 ∧ total Op.dropping (afterWoken l) = 0 := by
  have left := calls_exit l.cpu
  simp only [afterWoken]
  split <;> split
  · simpa [Op.polling, Op.dropping] using left
  all_goals exact ⟨rfl, rfl⟩

/-- What an operation does to the calls of the future that are under way. -/
theorem perform_event (performed : s.perform mode i c op = some (s₁, push)) :
    s₁.drops = s.drops + (op.event c).toList.count .drop ∧
      total Op.polling push = (op.event c).toList.count .poll ∧
      total Op.dropping push = (op.event c).toList.count .drop ∧
      s₁.ready = (s.ready || decide (op.event c = some .ready)) := by
  have silent : op.event c = none → s₁.drops = s.drops → s₁.ready = s.ready →
      total Op.polling push = 0 → total Op.dropping push = 0 →
        s₁.drops = s.drops + (op.event c).toList.count .drop ∧
          total Op.polling push = (op.event c).toList.count .poll ∧
          total Op.dropping push = (op.event c).toList.count .drop ∧
          s₁.ready = (s.ready || decide (op.event c = some .ready)) := by
    intro none drops ready polling dropping
    rw [none]
    exact ⟨drops, polling, dropping, by simp [ready]⟩
  cases op with
  | loop op =>
      cases op with
      | pollStart | dropFuture =>
          cases performed
          exact ⟨rfl, rfl, rfl, by simp [Op.event]⟩
      | polling l =>
          simp only [State.perform, State.performLoop] at performed
          split at performed
          · cases performed
          · by_cases answer : c = .ready
            · rw [if_pos answer] at performed
              cases performed
              simp [Op.event, Op.polling, Op.dropping, answer]
            · rw [if_neg answer] at performed
              cases performed
              simp [Op.event, Op.polling, Op.dropping, answer]
      | dropping cpu =>
          cases performed
          cases cpu <;> exact ⟨rfl, rfl, rfl, by simp [Op.event]⟩
      | loadScheduled l =>
          cases performed
          have woken := calls_afterWoken l
          have left := calls_exit l.cpu
          refine silent rfl rfl rfl ?_ ?_ <;> split
          · exact woken.1
          · exact left.1
          · exact woken.2
          · exact left.2
      | queryNow l =>
          simp only [State.perform, State.performLoop] at performed
          split at performed <;> cases performed
          have left := calls_exit l.cpu
          refine silent rfl rfl rfl ?_ ?_ <;> split
          · simpa [Op.polling] using left.1
          · rfl
          · simpa [Op.dropping] using left.2
          · rfl
      | loadPolls cpu m =>
          cases m <;> cases performed <;> exact silent rfl rfl rfl rfl rfl
      | queryStart cpu polls =>
          simp only [State.perform, State.performLoop] at performed
          split at performed <;> cases performed
          exact silent rfl rfl rfl rfl rfl
      | setCurrent | loadMode | loadTimeUs | clearScheduled | storeCompleted =>
          cases performed
          exact silent rfl rfl rfl rfl rfl
  | last op =>
      cases op with
      | dropFuture | dropping =>
          cases performed
          exact ⟨rfl, rfl, rfl, by simp [Op.event]⟩
      | loadCompleted | dealloc =>
          cases performed
          refine silent rfl rfl rfl ?_ ?_ <;> split <;> rfl
      | storeCompleted =>
          cases performed
          exact silent rfl rfl rfl rfl rfl
  | newHandle | addRef | cloneRaw | rawWaker | subRef =>
      simp only [State.perform, Option.map_eq_some_iff] at performed
      obtain ⟨⟨result, count⟩, -, performed⟩ := performed
      cases performed
      refine silent rfl rfl rfl ?_ ?_ <;> (repeat' split) <;> rfl
  | allocate form =>
      simp only [State.perform] at performed
      split at performed <;> cases performed
      · exact silent rfl rfl rfl rfl rfl
      · cases form <;> exact silent rfl rfl rfl rfl rfl
  | casScheduled | casCancel | insertQueueDpc =>
      simp only [State.perform] at performed
      split at performed <;> cases performed <;> exact silent rfl rfl rfl rfl rfl
  | casAcknowledge =>
      cases performed
      refine silent rfl ?_ ?_ rfl rfl <;> split <;> rfl
  | loadCompleted | loadCurrent | checkCompleted =>
      cases performed
      refine silent rfl rfl rfl ?_ ?_ <;> (repeat' split) <;> rfl
  | _ =>
      cases performed
      exact silent rfl rfl rfl rfl rfl

/-- A step of a thread with the trace. -/
theorem event_run (thread : s.threads[i]? = some ⟨f, op :: rest⟩) :
    s.event (.run i c) = op.event c := by
  simp [State.event, State.next, thread]

/-- The steps of the traced task are those of the task. -/
theorem traced_step {q q' : State × List Event} {a : State.Label}
    (step : (traced mode).step q a = some q') :
    q.1.step mode a = some q'.1 ∧ q'.2 = q.2 ++ (q.1.event a).toList :=
  Sys.step_history step

/-- Nothing has happened to the future, or it was polled first. -/
def Begun (q : State × List Event) : Prop :=
  (q.2 = [] ∧ Unpolled q.1) ∨ q.2.head? = some .poll

theorem Unpolled.begun {a : State.Label} (unpolled : Unpolled s) (memory : Memory mode s)
    (flag : Scheduled s) (step : s.step mode a = some s') :
    Begun (s', (s.event a).toList) := by
  cases a with
  | call f => exact .inl ⟨rfl, unpolled.call step⟩
  | dequeue cpu => exact .inl ⟨rfl, unpolled.dequeue step⟩
  | run i c =>
      cases happens : s.event (.run i c) with
      | none => exact .inl ⟨rfl, unpolled.run memory flag happens step⟩
      | some e =>
          obtain ⟨f, op, rest, s₁, push, finished, thread, performed, rfl⟩ := State.step_run step
          rw [event_run thread] at happens
          rw [unpolled.event memory thread happens]
          exact .inr rfl

theorem begun_of_reach {q : State × List Event}
    (reached : (traced mode).Reach (fun q a => Counted mode q.1 a) q) : Begun q := by
  induction reached with
  | @start q first =>
      obtain ⟨first, empty⟩ := first
      refine .inl ⟨empty, ?_⟩
      rw [show q.1 = initial from first]
      exact ⟨rfl, rfl, nofun⟩
  | @step q q' a before counted next ih =>
      have here : (system mode).Reach (Counted mode) q.1 :=
        Sys.Reach.of_history (fun _ _ counted => counted) before
      have flag := (pledges_of_reach (here.mono fun _ _ _ => trivial)).1
      obtain ⟨moved, trace⟩ := traced_step next
      rcases ih with ⟨empty, unpolled⟩ | polled
      · have begun := unpolled.begun (memory_of_reach here) flag moved
        rwa [← List.nil_append (q.1.event a).toList, ← empty, ← trace] at begun
      · refine .inr ?_
        rw [trace, List.head?_append, polled]
        rfl

/-- Every drop is in the trace. -/
theorem drops_of_reach {G : State × List Event → State.Label → Prop} {q : State × List Event}
    (reached : (traced mode).Reach G q) : q.1.drops = q.2.count .drop := by
  refine Sys.Reach.invariant (I := fun q => q.1.drops = q.2.count .drop) ?_ ?_ reached
  · rintro q ⟨first, empty⟩
    rw [empty, show q.1 = initial from first]
    rfl
  · intro q a q' same _ next
    obtain ⟨moved, trace⟩ := traced_step next
    rw [trace, List.count_append, ← same]
    cases a with
    | run i c =>
        obtain ⟨f, op, rest, s₁, push, finished, thread, performed, moved⟩ := State.step_run moved
        rw [event_run thread, moved]
        exact (perform_event performed).1
    | call f =>
        obtain ⟨-, moved⟩ := State.step_call moved
        rw [moved]
        cases f <;> rfl
    | dequeue cpu =>
        obtain ⟨-, moved⟩ := State.step_dequeue moved
        rw [moved]
        rfl

/-- Whoever is about to drop the future has a reference, or frees the block. -/
theorem drops_le_refs (threads : List (Thread Call Op)) :
    load Op.drops threads ≤ load Op.refs threads + load Op.frees threads := by
  rw [← load_add]
  apply load_mono
  intro op
  cases op with
  | loop op => cases op <;> simp [Op.drops, Op.refs, Op.frees]
  | last op => cases op <;> simp [Op.drops, Op.frees]
  | _ => exact Nat.zero_le _

/-- **The first poll.** In every run that stays within the capacity of the counter nothing
happens to the future of a task before its first poll, and a block that is freed held a
future that was polled and dropped. -/
theorem first_poll (reached : (traced mode).Reach (fun q a => Counted mode q.1 a) (s, es)) :
    (es = [] ∨ es.head? = some .poll) ∧ (0 < s.deallocs → .poll ∈ es ∧ .drop ∈ es) := by
  have here : (system mode).Reach (Counted mode) s := by
    refine Sys.Reach.of_history ?_ reached
    exact fun _ _ counted => counted
  have begun : es = [] ∨ es.head? = some .poll := (begun_of_reach reached).imp_left And.left
  refine ⟨begun, fun freed => ?_⟩
  obtain ⟨memory, buried⟩ := buried_of_reach here
  obtain ⟨-, none, alone⟩ := memory.freed_empty freed
  have completed := buried.freed (Nat.add_pos_left freed _)
  have dropped := buried.dropped completed
  have drops : s.drops = es.count .drop := drops_of_reach reached
  have nobody := drops_le_refs s.threads
  have held := State.references_eq s
  have drop : .drop ∈ es := List.count_pos_iff.mp (by omega)
  rcases begun with empty | polled
  · rw [empty] at drop
    cases drop
  · exact ⟨List.mem_of_head? polled, drop⟩

/-- The future was pending, and the drop of its last waker frees the block. -/
theorem first_poll_of_pending : ∃ s es,
    (traced .off).Reach (fun q a => Counted .off q.1 a) (s, es) ∧
      (0 < s.deallocs ∧ .ready ∉ es) ∧
      (es = [] ∨ es.head? = some .poll) ∧ (0 < s.deallocs → .poll ∈ es ∧ .drop ∈ es) := by
  obtain ⟨⟨s, es⟩, reached, ended⟩ := Sys.Reach.exists_of_execIf
    (fun q : State × List Event => 0 < q.1.deallocs ∧ .ready ∉ q.2)
    (firstPoll ++ [.call (.cloneWaker (.activation 1)), go 2, go 1, go 1, go 1, go 1, go 1,
      .call (.dropWaker 0)] ++ List.replicate 7 (go 3))
    (.start ⟨rfl, rfl⟩ : (traced .off).Reach (fun q a => Counted .off q.1 a) (initial, []))
    (by decide)
  exact ⟨s, es, reached, ended, first_poll reached⟩

end Traces

end Kcom.Dpc
