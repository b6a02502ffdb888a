import Kcom.Executor.Tracker
import Kcom.Executor.WorkItem.Resources

/-!
# Work-item tasks and their tracker

Any number of tasks, those of the tracked spawn functions with one `WorkItemTracker`
between them. A task's `tracker_begin` and `tracker_complete` are calls of the tracker:
the step of the task is the access to the counter, the call goes on in the tracker with
what it has left to do (`KeInitializeEvent`, `KeSetEvent`), and the task's thread waits
until it has returned. `drain` may be called at any time, by anybody.
-/

namespace Kcom.WorkItem

open Conc

structure Fleet where
  tasks : List State
  tracker : Tracker.State
  /-- For each call of the tracker the task and the thread that wait for it; `drain` is
  called from outside. -/
  callers : List (Option (Nat × Nat))
  deriving DecidableEq, Repr

namespace Fleet

/-- Before any of `n` tasks is spawned. -/
def initial (n : Nat) : Fleet where
  tasks := List.replicate n WorkItem.initial
  tracker := Tracker.WorkItemTracker.new
  callers := []

/-- A step of a task, a call of `drain`, or a step of a call of the tracker. -/
inductive Label
  | task (k : Nat) (a : State.Label)
  | drain
  | tracker (j : Nat)
  deriving DecidableEq, Repr

/-- The call of the tracker that a step of a task makes, by the thread that makes it, and
its access to the counter. -/
def access (s : State) : State.Label → Option (Nat × Tracker.Call × Tracker.Op)
  | .run i _ =>
      match s.next i with
      | some .trackerBegin => some (i, .begin, .fetchAdd)
      | some .trackerComplete => some (i, .complete, .fetchSub)
      | _ => none
  | _ => none

/-- The thread that is to move waits for a call of the tracker. -/
def waits (f : Fleet) (k : Nat) : State.Label → Bool
  | .run i _ => (f.callers.zip f.tracker.threads).any fun (caller, t) =>
      caller = some (k, i) && !t.code.isEmpty
  | _ => false

/-- A call of the tracker up to its access to the counter. -/
def call (f : Fleet) (caller : Nat × Nat) (c : Tracker.Call) (op : Tracker.Op) : Option Fleet :=
  (f.tracker.perform op).map fun (t, push) =>
    { f with
      tracker := { t with threads := f.tracker.threads ++ [⟨c, push⟩] }
      callers := f.callers ++ [some caller] }

def step (driver : Driver) (mode : Hardening) (f : Fleet) : Label → Option Fleet
  | .task k a =>
      match f.tasks[k]? with
      | none => none
      | some s =>
          if f.waits k a then none
          else
            (s.step driver mode a).bind fun s' =>
              match access s a with
              | none => some { f with tasks := f.tasks.set k s' }
              | some (i, c, op) => call { f with tasks := f.tasks.set k s' } (k, i) c op
  | .drain =>
      some { f with
        tracker := { f.tracker with
          threads := f.tracker.threads ++ [⟨.drain, Tracker.Call.drain.code⟩] }
        callers := f.callers ++ [none] }
  | .tracker j => (f.tracker.step (.run j)).map fun t => { f with tracker := t }

/-- The counters have room: a step adds a reference to a task below the capacity of its
counter, and counts an item in below the width of the tracker's. -/
def Counted (mode : Hardening) (f : Fleet) : Label → Prop
  | .task k a => ∀ s ∈ f.tasks[k]?, WorkItem.Counted mode s a ∧
      (((access s a).map fun p => p.2.2) = some .fetchAdd → f.tracker.items + 1 < 2 ^ 32)
  | _ => True

instance (mode : Hardening) (f : Fleet) : (a : Label) → Decidable (Counted mode f a)
  | .task k a => inferInstanceAs (Decidable (∀ s ∈ f.tasks[k]?, WorkItem.Counted mode s a ∧
      (((access s a).map fun p => p.2.2) = some .fetchAdd → f.tracker.items + 1 < 2 ^ 32)))
  | .drain => .isTrue trivial
  | .tracker _ => .isTrue trivial

/-! ## Inversion of the steps -/

variable {driver : Driver} {mode : Hardening} {f f' : Fleet} {s s' : State} {k j : Nat}
  {a : State.Label}

/-- A step of a task, with the call of the tracker that it makes. -/
theorem step_task (h : f.step driver mode (.task k a) = some f') :
    ∃ s s', f.tasks[k]? = some s ∧ s.step driver mode a = some s' ∧
      f'.tasks = f.tasks.set k s' ∧
      ((access s a = none ∧ f'.tracker = f.tracker) ∨
        ∃ i c op t push, access s a = some (i, c, op) ∧ f.tracker.perform op = some (t, push) ∧
          f'.tracker = { t with threads := f.tracker.threads ++ [⟨c, push⟩] }) := by
  simp only [step] at h
  split at h
  · cases h
  · rename_i s here
    split at h
    · cases h
    · obtain ⟨s', next, rest⟩ := Option.bind_eq_some_iff.mp h
      refine ⟨s, s', here, next, ?_⟩
      split at rest
      · next calls =>
          cases rest
          exact ⟨rfl, .inl ⟨calls, rfl⟩⟩
      · next i c op calls =>
          obtain ⟨⟨t, push⟩, performed, rfl⟩ := Option.map_eq_some_iff.mp rest
          exact ⟨rfl, .inr ⟨i, c, op, t, push, calls, performed, rfl⟩⟩

theorem step_tracker (h : f.step driver mode (.tracker j) = some f') :
    f.tracker.step (.run j) = some f'.tracker ∧ f'.tasks = f.tasks := by
  obtain ⟨t, moved, rfl⟩ := Option.map_eq_some_iff.mp h
  exact ⟨moved, rfl⟩

/-- What a step of a task does to the items that it has pending at the tracker. -/
theorem outstanding_step (memory : Memory mode s) (ledger : Ledger s) (ledger' : Ledger s')
    (next : s.step driver mode a = some s') :
    (access s a = none ∧ s'.outstanding = s.outstanding) ∨
      (∃ i, access s a = some (i, .begin, .fetchAdd) ∧ s'.outstanding = s.outstanding + 1) ∨
      ∃ i, access s a = some (i, .complete, .fetchSub) ∧ s'.outstanding + 1 = s.outstanding := by
  have before := ledger.begins_eq
  have after := ledger'.begins_eq
  cases a with
  | start id =>
      obtain ⟨-, -, -, moved⟩ := State.step_start next
      have same : s'.begins = s.begins ∧ s'.completes = s.completes := by
        rw [moved]
        exact ⟨rfl, rfl⟩
      exact .inl ⟨rfl, by omega⟩
  | call g =>
      obtain ⟨-, moved⟩ := State.step_call next
      have same : s'.begins = s.begins ∧ s'.completes = s.completes := by
        rw [moved]
        cases g <;> exact ⟨rfl, rfl⟩
      exact .inl ⟨rfl, by omega⟩
  | run i c =>
      obtain ⟨g, op, rest, s₁, push, thread, performed, rfl⟩ := State.step_run next
      obtain ⟨begins, completes⟩ := ledger.tracker memory thread performed
      have first : s.next i = some op := by simp [State.next, thread]
      rw [State.moved_begins, State.moved_completes] at after
      simp only [access, first]
      cases op with
      | trackerBegin =>
          simp only [Op.begins, Op.completes] at begins completes
          exact .inr (.inl ⟨i, rfl, by omega⟩)
      | trackerComplete =>
          simp only [Op.begins, Op.completes] at begins completes
          exact .inr (.inr ⟨i, rfl, by omega⟩)
      | _ =>
          simp only [Op.begins, Op.completes] at begins completes
          exact .inl ⟨rfl, by omega⟩

end Fleet

/-- The tasks and their tracker, under one driver model and in one of the builds of the
reference counter. -/
def fleet (driver : Driver) (mode : Hardening) : Sys Fleet Fleet.Label where
  start f := ∃ n, f = Fleet.initial n
  step := Fleet.step driver mode

namespace Fleet

variable {driver : Driver} {mode : Hardening} {f f' : Fleet} {s s' : State} {k j : Nat}
  {a : Label}

/-! ## The accounts of the tracker -/

/-- What holds of the tasks and their tracker in every state reached. -/
structure Accounted (driver : Driver) (mode : Hardening) (f : Fleet) : Prop where
  tasks : ∀ s ∈ f.tasks, (system driver mode).Reach (WorkItem.Counted mode) s
  items : f.tracker.items = total State.outstanding f.tasks
  pending : f.tracker.pending = f.tracker.items
  room : f.tracker.items < 2 ^ 32
  /-- The access of a task's call to the counter is behind it. -/
  calls : ∀ t ∈ f.tracker.threads, ∀ op ∈ t.code, op ≠ .fetchAdd ∧ op ≠ .fetchSub

theorem Accounted.initial (n : Nat) : Accounted driver mode (initial n) where
  tasks := by
    intro s member
    rw [List.eq_of_mem_replicate member]
    exact .start rfl
  items := by
    have none : total State.outstanding (List.replicate n WorkItem.initial) = 0 := by
      apply total_eq_zero.mpr
      intro s member
      rw [List.eq_of_mem_replicate member]
      rfl
    exact none.symm
  pending := rfl
  room := by simp [Fleet.initial, Tracker.WorkItemTracker.new, Tracker.create]
  calls := nofun

/-- What an access to the counter leaves to do is not another one. -/
theorem perform_calls {t t₁ : Tracker.State} {op : Tracker.Op} {push : List Tracker.Op}
    (performed : t.perform op = some (t₁, push)) :
    ∀ op ∈ push, op ≠ .fetchAdd ∧ op ≠ .fetchSub := by
  cases op with
  | fetchAdd | fetchSub | load =>
      simp only [Tracker.State.perform, Option.some.injEq, Prod.mk.injEq] at performed
      obtain ⟨-, rfl⟩ := performed
      intro op member
      split at member <;> simp at member
      simp [member]
  | initializeEvent | setEvent =>
      cases performed
      simp
  | wait =>
      simp only [Tracker.State.perform] at performed
      split at performed <;> cases performed
      simp

/-- A step of a call behind its access to the counter leaves the counter alone. -/
theorem perform_event {t t₁ : Tracker.State} {op : Tracker.Op} {push : List Tracker.Op}
    (performed : t.perform op = some (t₁, push)) (event : op ≠ .fetchAdd ∧ op ≠ .fetchSub) :
    t₁.pending = t.pending ∧ t₁.items = t.items := by
  cases op with
  | fetchAdd => exact absurd rfl event.1
  | fetchSub => exact absurd rfl event.2
  | initializeEvent | setEvent | load =>
      cases performed
      exact ⟨rfl, rfl⟩
  | wait =>
      simp only [Tracker.State.perform] at performed
      split at performed <;> cases performed
      exact ⟨rfl, rfl⟩

theorem Accounted.task {a : State.Label} (accounted : Accounted driver mode f)
    (counted : Counted mode f (.task k a)) (step : f.step driver mode (.task k a) = some f') :
    Accounted driver mode f' := by
  obtain ⟨tasks, items, pending, room, calls⟩ := accounted
  obtain ⟨s, s', here, next, tasks', tracker'⟩ := step_task step
  obtain ⟨within, fits⟩ := counted s here
  have was := tasks s (List.mem_of_getElem? here)
  have now : (system driver mode).Reach (WorkItem.Counted mode) s' := .step was within next
  have reached : ∀ s ∈ f'.tasks, (system driver mode).Reach (WorkItem.Counted mode) s := by
    rw [tasks']
    intro s₀ member
    rcases List.mem_or_eq_of_mem_set member with before | rfl
    · exact tasks s₀ before
    · exact now
  have sum := total_set State.outstanding s' here
  rw [← tasks'] at sum
  have one := le_total State.outstanding here
  have change := outstanding_step (memory_of_reach was) (ledger_of_reach was)
    (ledger_of_reach now) next
  rcases tracker' with ⟨silent, same⟩ | ⟨i, c, op, t, push, loud, performed, same⟩
  · simp only [silent, reduceCtorEq, false_and, exists_false, or_false, true_and] at change
    rw [change] at sum
    rw [Nat.add_right_cancel_iff] at sum
    refine ⟨reached, ?_, ?_, ?_, ?_⟩ <;> rw [same]
    · rw [items, sum]
    · exact pending
    · exact room
    · exact calls
  · have added := perform_calls performed
    have calls' : ∀ t ∈ f'.tracker.threads, ∀ op ∈ t.code, op ≠ .fetchAdd ∧ op ≠ .fetchSub := by
      rw [same]
      intro t member
      rcases List.mem_append.mp member with before | new
      · exact calls t before
      · rw [List.mem_singleton.mp new]
        exact added
    rcases change with ⟨silent, -⟩ | ⟨i', begins, more⟩ | ⟨i', completes, fewer⟩
    · rw [silent] at loud
      cases loud
    · rw [begins] at loud
      cases loud
      have small := fits (by rw [begins]; rfl)
      simp only [Tracker.State.perform, Option.some.injEq, Prod.mk.injEq] at performed
      obtain ⟨rfl, rfl⟩ := performed
      refine ⟨reached, ?_, ?_, ?_, calls'⟩ <;> rw [same] <;> dsimp only <;> omega
    · rw [completes] at loud
      cases loud
      simp only [Tracker.State.perform, Option.some.injEq, Prod.mk.injEq] at performed
      obtain ⟨rfl, rfl⟩ := performed
      refine ⟨reached, ?_, ?_, ?_, calls'⟩ <;> rw [same] <;> dsimp only <;> omega

theorem Accounted.drain (accounted : Accounted driver mode f)
    (step : f.step driver mode .drain = some f') : Accounted driver mode f' := by
  cases step
  obtain ⟨tasks, items, pending, room, calls⟩ := accounted
  refine ⟨tasks, items, pending, room, ?_⟩
  intro t member
  rcases List.mem_append.mp member with before | new
  · exact calls t before
  · rw [List.mem_singleton.mp new]
    simp [Tracker.Call.code]

theorem Accounted.tracker (accounted : Accounted driver mode f)
    (step : f.step driver mode (.tracker j) = some f') : Accounted driver mode f' := by
  obtain ⟨tasks, items, pending, room, calls⟩ := accounted
  obtain ⟨moved, same⟩ := step_tracker step
  obtain ⟨g, op, rest, t₁, push, thread, performed, after⟩ := Tracker.State.step_run moved
  have code := calls _ (List.mem_of_getElem? thread)
  obtain ⟨pending', items'⟩ := perform_event performed (code op List.mem_cons_self)
  have frame : f'.tracker.pending = t₁.pending ∧ f'.tracker.items = t₁.items ∧
      f'.tracker.threads = f.tracker.threads.set j ⟨g, push ++ rest⟩ := by
    rw [after]
    refine ⟨?_, Tracker.State.finish_items, Tracker.State.finish_threads⟩
    unfold Tracker.State.finish
    split <;> [cases g; skip] <;> rfl
  obtain ⟨pending'', items'', threads⟩ := frame
  refine ⟨?_, ?_, ?_, ?_, ?_⟩
  · rw [same]
    exact tasks
  · rw [same, items'', items', items]
  · rw [pending'', items'', pending', items', pending]
  · rw [items'', items']
    exact room
  · rw [threads]
    intro t member
    rcases List.mem_or_eq_of_mem_set member with before | rfl
    · exact calls t before
    · exact List.forall_mem_append.mpr
        ⟨perform_calls performed, fun op later => code op (List.mem_cons_of_mem _ later)⟩

theorem accounted_of_reach (reached : (fleet driver mode).Reach (Counted mode) f) :
    Accounted driver mode f := by
  refine Sys.Reach.invariant ?_ ?_ reached
  · rintro f ⟨n, rfl⟩
    exact .initial n
  · intro f a f' accounted counted step
    cases a with
    | task k a => exact accounted.task counted step
    | drain => exact accounted.drain step
    | tracker j => exact accounted.tracker step

/-! ## What the counters promise -/

/-- **Work-item resource accounting.** In every run in which the counters have room,
`ref_count` of every task is the number of its references, its block is freed once and
only when they have reached 0, and nothing touches it afterwards; its context is retained
once for its allocation and released once, after the block is freed; and the tracker
counts what its tasks have pending, and is never counted down from 0. -/
theorem work_item_resources (reached : (fleet driver mode).Reach (Counted mode) f) :
    (∀ s ∈ f.tasks,
      s.refCount = s.held .spawner + s.handles + s.wakers + load Op.enqueues s.threads +
          queuedItems s.items + s.held .callback ∧
        (s.frees + load Op.frees s.threads =
          if s.allocated = true ∧ s.references = 0 then 1 else 0) ∧
        (0 < s.frees → ∀ a s', s.step driver mode a = some s' → ¬ Touches s a) ∧
        s.retains + load Op.sets s.threads = s.allocated.toNat ∧
        s.releases + load Op.returns s.threads = s.frees ∧
        (Over s → s.allocated = true → s.frees = 1 ∧ s.releases = 1)) ∧
      f.tracker.pending = total State.outstanding f.tasks ∧
      ∀ k a f', f.step driver mode (.task k a) = some f' → ∀ s ∈ f.tasks[k]?,
        ((access s a).map fun p => p.2.2) = some .fetchSub → 0 < f.tracker.pending := by
  have accounted := accounted_of_reach reached
  refine ⟨?_, accounted.pending.trans accounted.items, ?_⟩
  · intro s member
    have reached := accounted.tasks s member
    have memory := memory_of_reach reached
    have ledger := ledger_of_reach reached
    have context := ledger.context
    refine ⟨?_, memory.freed, fun freed a s' => memory.untouched freed, ?_, ledger.released, ?_⟩
    · rw [memory.count, State.references_eq]
    · rw [ledger.retained]
      exact context
    · intro ended allocated
      obtain ⟨freed, released, -⟩ := memory.of_over ledger ended allocated
      exact ⟨freed, released⟩
  · intro k a f' step s here completes
    obtain ⟨s₀, s', there, next, -, -⟩ := step_task step
    rw [Option.mem_def, there, Option.some.injEq] at here
    subst here
    have member := List.mem_of_getElem? there
    have reached := accounted.tasks s₀ member
    have memory := memory_of_reach reached
    have ledger := ledger_of_reach reached
    have one := le_total_of_mem State.outstanding member
    cases a with
    | start | call => cases completes
    | run i c =>
        have ledger' := ledger.run memory next
        rcases outstanding_step memory ledger ledger' next with
          ⟨silent, -⟩ | ⟨i', begins, -⟩ | ⟨i', -, fewer⟩
        · rw [silent] at completes
          cases completes
        · rw [begins] at completes
          cases completes
        · rw [accounted.pending, accounted.items]
          omega

/-- Steps of task `k`. -/
def steps (k : Nat) (as : List State.Label) : List Label :=
  as.map (.task k)

/-- A tracked task whose future is ready at its first poll, from its spawn to its end. -/
theorem work_item_resources_of_ready :
    ∃ f, (fleet .wdm .off).Reach (Counted .off) f ∧
      (∃ s ∈ f.tasks, s.allocated = true ∧ s.tracked = true ∧ Over s ∧ s.begins = 1) ∧
      (∀ s ∈ f.tasks,
        s.refCount = s.held .spawner + s.handles + s.wakers + load Op.enqueues s.threads +
            queuedItems s.items + s.held .callback ∧
          (s.frees + load Op.frees s.threads =
            if s.allocated = true ∧ s.references = 0 then 1 else 0) ∧
          (0 < s.frees → ∀ a s', s.step .wdm .off a = some s' → ¬ Touches s a) ∧
          s.retains + load Op.sets s.threads = s.allocated.toNat ∧
          s.releases + load Op.returns s.threads = s.frees ∧
          (Over s → s.allocated = true → s.frees = 1 ∧ s.releases = 1)) ∧
        f.tracker.pending = total State.outstanding f.tasks ∧
        ∀ k a f', f.step .wdm .off (.task k a) = some f' → ∀ s ∈ f.tasks[k]?,
          ((access s a).map fun p => p.2.2) = some .fetchSub → 0 < f.tracker.pending := by
  obtain ⟨f, reached, ended⟩ := Sys.Reach.exists_of_execIf
    (fun f : Fleet => ∃ s ∈ f.tasks, s.allocated = true ∧ s.tracked = true ∧ Over s ∧ s.begins = 1)
    (steps 0 (.call (.spawn .tracked) :: List.replicate 6 (go 0)) ++ [.tracker 0] ++
      steps 0 (List.replicate 6 (go 0) ++ [.start 0] ++ List.replicate 5 (go 1) ++
        .run 1 .ready :: List.replicate 7 (go 1)) ++ [.tracker 1] ++
      steps 0 (List.replicate 3 (go 1)))
    (.start ⟨1, rfl⟩ : (fleet .wdm .off).Reach (Counted .off) (Fleet.initial 1)) (by decide)
  exact ⟨f, reached, ended, work_item_resources reached⟩

/-! ## The width of the tracker's counter -/

/-- A task can make any steps that do not call the tracker. -/
theorem exists_silent {as : List State.Label} (reached : (fleet driver mode).Reachable f)
    (here : f.tasks[k]? = some s) (idle : ∀ a, f.waits k a = false)
    (run : (system driver mode).execIf (fun s a => access s a = none) s as = some s') :
    ∃ f', (fleet driver mode).Reachable f' ∧ f'.tasks = f.tasks.set k s' ∧
      f'.tracker = f.tracker ∧ f'.callers = f.callers := by
  induction as generalizing s f with
  | nil =>
      cases run
      obtain ⟨bound, rfl⟩ := List.getElem?_eq_some_iff.mp here
      exact ⟨f, reached, (List.set_getElem_self bound).symm, rfl, rfl⟩
  | cons a as ih =>
      rw [Sys.execIf] at run
      split at run
      · next silent =>
          obtain ⟨mid, next, rest⟩ := Option.bind_eq_some_iff.mp run
          let f₁ : Fleet := { f with tasks := f.tasks.set k mid }
          have moved : (fleet driver mode).step f (.task k a) = some f₁ := by
            have performed : s.step driver mode a = some mid := next
            change Fleet.step driver mode f (.task k a) = some f₁
            simp only [Fleet.step, here, idle, Bool.false_eq_true, if_false, performed,
              Option.bind_some, silent]
            rfl
          have bound : k < f.tasks.length := (List.getElem?_eq_some_iff.mp here).1
          have there : f₁.tasks[k]? = some mid := List.getElem?_set_self bound
          obtain ⟨f', reached', tasks, tracker, callers⟩ :=
            ih (.step reached trivial moved) there idle rest
          refine ⟨f', reached', ?_, tracker, callers⟩
          rw [tasks, List.set_set]
      · cases run

/-- A tracked task whose first `schedule` has counted an item in. -/
def begun : State :=
  { WorkItem.initial with
    refCount := 1
    scheduled := true
    contextValid := true
    tracked := true
    threads := [⟨.spawn .tracked, [.contextIsValid, .subRef .spawner]⟩]
    spawned := true
    allocated := true
    begins := 1
    retains := 1 }

/-- The first `k` of `n` tasks have counted an item in. -/
theorem exists_begun {n k : Nat} (le : k ≤ n) :
    ∃ f, (fleet .wdm .off).Reachable f ∧
      f.tasks = List.replicate k begun ++ List.replicate (n - k) WorkItem.initial ∧
      f.tracker.pending = k % 2 ^ 32 ∧
      ∀ caller ∈ f.callers, ∀ k' i, caller = some (k', i) → k' < k := by
  induction k with
  | zero => exact ⟨Fleet.initial n, .start ⟨n, rfl⟩, rfl, rfl, nofun⟩
  | succ k ih =>
      obtain ⟨f, reached, tasks, pending, callers⟩ := ih (Nat.le_of_succ_le le)
      have split : n - k = n - (k + 1) + 1 := by omega
      rw [split, List.replicate_succ] at tasks
      have here : f.tasks[k]? = some WorkItem.initial := by
        rw [tasks]
        simp
      have idle : ∀ a, f.waits k a = false := by
        intro a
        cases a with
        | start | call => rfl
        | run i c =>
            simp only [waits, List.any_eq_false]
            rintro ⟨caller, t⟩ member
            have below := callers caller (List.of_mem_zip member).1 k i
            simp only [Bool.and_eq_true, decide_eq_true_eq, not_and]
            intro mine
            exact absurd (below mine) (Nat.lt_irrefl k)
      let ready : State := { begun with
        begins := 0
        threads := [⟨.spawn .tracked, [.trackerBegin, .contextIsValid, .subRef .spawner]⟩] }
      have run : (system .wdm .off).execIf (fun s a => access s a = none) WorkItem.initial
          [.call (.spawn .tracked), go 0, go 0, go 0, go 0, go 0] = some ready := by decide
      obtain ⟨f₁, reached₁, tasks₁, tracker₁, callers₁⟩ := exists_silent reached here idle run
      have bound : k < f.tasks.length := (List.getElem?_eq_some_iff.mp here).1
      have there : f₁.tasks[k]? = some ready := by rw [tasks₁, List.getElem?_set_self bound]
      have idle₁ : f₁.waits k (go 0) = false := by
        have same := idle (go 0)
        simp only [waits] at same ⊢
        rw [callers₁, tracker₁]
        exact same
      let push : List Tracker.Op := if f₁.tracker.pending = 0 then [.initializeEvent] else []
      let f₂ : Fleet :=
        { tasks := f₁.tasks.set k begun
          tracker := { f₁.tracker with
            pending := (f₁.tracker.pending + 1) % 2 ^ 32
            items := f₁.tracker.items + 1
            threads := f₁.tracker.threads ++ [⟨.begin, push⟩] }
          callers := f₁.callers ++ [some (k, 0)] }
      have moved : (fleet .wdm .off).step f₁ (.task k (go 0)) = some f₂ := by
        have performed : ready.step .wdm .off (go 0) = some begun := by decide
        have calls : access ready (go 0) = some (0, .begin, .fetchAdd) := rfl
        change Fleet.step .wdm .off f₁ (.task k (go 0)) = some f₂
        simp only [Fleet.step, there, idle₁, Bool.false_eq_true, if_false, performed,
          Option.bind_some, calls]
        rfl
      refine ⟨f₂, .step reached₁ trivial moved, ?_, ?_, ?_⟩
      · change f₁.tasks.set k begun = _
        rw [tasks₁, List.set_set, tasks, List.replicate_succ', List.append_assoc]
        simp
      · change (f₁.tracker.pending + 1) % 2 ^ 32 = _
        rw [tracker₁, pending]
        omega
      · intro caller member k' i same
        rcases List.mem_append.mp member with before | new
        · rw [callers₁] at before
          exact Nat.lt_succ_of_lt (callers caller before k' i same)
        · rw [List.mem_singleton.mp new] at same
          cases same
          exact Nat.lt_succ_self k

/-- Both counters are 32 bits wide: without hardening 2^32 references to a task read as
0, and 2^32 items read as 0 at their tracker. -/
theorem resources_wrap :
    (¬ ∀ s, (system .wdm .off).Reachable s →
      s.refCount = s.held .spawner + s.handles + s.wakers + load Op.enqueues s.threads +
        queuedItems s.items + s.held .callback) ∧
      ¬ ∀ f, (fleet .wdm .off).Reachable f →
        f.tracker.pending = total State.outstanding f.tasks := by
  constructor
  · intro sum
    obtain ⟨s, reached, -, count, references⟩ := exists_clones (2 ^ 32 - 2)
    have same := sum s reached
    rw [← State.references_eq, references, count] at same
    omega
  · intro sum
    obtain ⟨f, reached, tasks, pending, -⟩ := exists_begun (Nat.le_refl (2 ^ 32))
    have same := sum f reached
    have outstanding : ∀ n, total State.outstanding (List.replicate n begun) = n := by
      intro n
      induction n with
      | zero => rfl
      | succ n ih =>
          have one : begun.outstanding = 1 := by decide
          rw [List.replicate_succ, total_cons, ih, one, Nat.add_comm]
    rw [Nat.sub_self, List.replicate_zero, List.append_nil] at tasks
    rw [tasks, outstanding, pending] at same
    omega

end Fleet

end Kcom.WorkItem
