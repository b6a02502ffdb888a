import Kcom.Executor.WorkItem.Fleet

/-!
# What `WorkItemTracker::drain` waits for

The tracker counts work items, not tasks: between the end of one callback and the
`schedule` of the next wake a task that is alive has nothing pending, and `drain` does
not wait for it. What it does wait for is every item counted in before it returns. So
after it a tracked task is polled only by a work item that was counted in later, by a
spawn, a wake or a cancel.

As for the tracker alone the statement is about timely runs, in which `KeSetEvent` is
executed while nothing is pending or while the `begin` that counts up from 0 has not
re-initialised the event; and no such `begin` is under way when `drain` returns.
-/

namespace Kcom.WorkItem

open Conc

namespace Fleet

/-- The counters have room, and the event is set in time. -/
def Timely (mode : Hardening) (f : Fleet) : Label → Prop
  | .tracker j => Tracker.Timely f.tracker (.run j)
  | a => Counted mode f a

instance (mode : Hardening) (f : Fleet) : (a : Label) → Decidable (Timely mode f a)
  | .task k a => inferInstanceAs (Decidable (Counted mode f (.task k a)))
  | .drain => .isTrue trivial
  | .tracker j => inferInstanceAs (Decidable (Tracker.Timely f.tracker (.run j)))

/-- The step counts no item in at the tracker. -/
def Quiet (f : Fleet) : Label → Prop
  | .task k a => ∀ s ∈ f.tasks[k]?, ((access s a).map fun p => p.2.2) ≠ some .fetchAdd
  | _ => True

/-- A step that polls the future of its task. -/
def Polls (s : State) (a : State.Label) : Prop :=
  ∃ i c id, a = .run i c ∧
    (s.next i = some (.run id .pollStart) ∨ s.next i = some (.run id .polling))

variable {driver : Driver} {mode : Hardening} {f f' : Fleet} {s s' : State} {k j : Nat}
  {a : Label}

/-! ## The event -/

/-- What holds of the event and of the calls of the tracker besides. -/
structure Signals (f : Fleet) : Prop where
  signal : f.tracker.signaled = true → f.tracker.items = 0 ∨
    0 < Tracker.awaiting .initializeEvent f.tracker.threads
  stage : ∀ t ∈ f.tracker.threads, t.tag.Stage t.code

theorem Signals.initial (n : Nat) : Signals (initial n) :=
  ⟨fun _ => .inl rfl, nofun⟩

theorem Signals.task {a : State.Label} (signals : Signals f)
    (accounted : Accounted driver mode f) (counted : Counted mode f (.task k a))
    (step : f.step driver mode (.task k a) = some f') : Signals f' := by
  obtain ⟨signal, stage⟩ := signals
  have pending := accounted.pending
  obtain ⟨s, s', here, next, -, tracker'⟩ := step_task step
  rcases tracker' with ⟨-, same⟩ | ⟨i, c, op, t, push, loud, performed, same⟩
  · refine ⟨?_, ?_⟩ <;> rw [same]
    · exact signal
    · exact stage
  · have was := accounted.tasks s (List.mem_of_getElem? here)
    have now := was.step (counted s here).1 next
    have known : (c = .begin ∧ op = .fetchAdd) ∨ (c = .complete ∧ op = .fetchSub) := by
      rcases outstanding_step (memory_of_reach was) (ledger_of_reach was) (ledger_of_reach now)
        next with ⟨silent, -⟩ | ⟨i', begins, -⟩ | ⟨i', completes, -⟩
      · rw [silent] at loud
        cases loud
      · rw [begins] at loud
        cases loud
        exact .inl ⟨rfl, rfl⟩
      · rw [completes] at loud
        cases loud
        exact .inr ⟨rfl, rfl⟩
    rcases known with ⟨rfl, rfl⟩ | ⟨rfl, rfl⟩ <;>
      simp only [Tracker.State.perform, Option.some.injEq, Prod.mk.injEq] at performed <;>
      obtain ⟨rfl, rfl⟩ := performed <;>
      refine ⟨?_, ?_⟩ <;> rw [same]
    · intro signaled
      have before := signal signaled
      dsimp only
      rw [Tracker.awaiting_append]
      split <;> simp only [List.count_cons, List.count_nil] <;> grind
    · intro t member
      rcases List.mem_append.mp member with old | new
      · exact stage t old
      · rw [List.mem_singleton.mp new]
        split <;> simp [Tracker.Call.Stage]
    · intro signaled
      have before := signal signaled
      dsimp only
      rw [Tracker.awaiting_append]
      omega
    · intro t member
      rcases List.mem_append.mp member with old | new
      · exact stage t old
      · rw [List.mem_singleton.mp new]
        split <;> simp [Tracker.Call.Stage]

theorem Signals.drain (signals : Signals f) (step : f.step driver mode .drain = some f') :
    Signals f' := by
  cases step
  refine ⟨?_, ?_⟩
  · intro signaled
    rw [Tracker.awaiting_append]
    exact (signals.signal signaled).imp_right fun pos => Nat.add_pos_left pos _
  · intro t member
    rcases List.mem_append.mp member with old | new
    · exact signals.stage t old
    · rw [List.mem_singleton.mp new]
      simp [Tracker.Call.Stage, Tracker.Call.code]

/-- A call of the tracker behind its access to the counter. -/
theorem Signals.behind {g : Tracker.Call} {op : Tracker.Op} {rest : List Tracker.Op}
    (signals : Signals f) (accounted : Accounted driver mode f)
    (thread : f.tracker.threads[j]? = some ⟨g, op :: rest⟩) :
    rest = [] ∧ ((g = .begin ∧ op = .initializeEvent) ∨ (g = .complete ∧ op = .setEvent) ∨
      (g = .drain ∧ (op = .load ∨ op = .wait))) := by
  have member := List.mem_of_getElem? thread
  have code := accounted.calls _ member op List.mem_cons_self
  have stage : g.Stage (op :: rest) := signals.stage _ member
  cases g <;> rcases stage with stage | stage | stage <;> cases stage <;> simp at code ⊢

theorem Signals.tracker (signals : Signals f) (accounted : Accounted driver mode f)
    (timely : Timely mode f (.tracker j)) (step : f.step driver mode (.tracker j) = some f') :
    Signals f' := by
  have pending := accounted.pending
  have signal := signals.signal
  obtain ⟨moved, -⟩ := step_tracker step
  obtain ⟨g, op, rest, t₁, push, thread, performed, after⟩ := Tracker.State.step_run moved
  have next : f.tracker.next j = some op := by simp [Tracker.State.next, thread]
  obtain ⟨rfl, known⟩ := signals.behind accounted thread
  rw [List.append_nil] at after
  have awaits := Tracker.awaiting_set .initializeEvent push thread
  have frame : f'.tracker.signaled = t₁.signaled ∧ f'.tracker.items = t₁.items ∧
      f'.tracker.threads = f.tracker.threads.set j ⟨g, push⟩ := by
    rw [after]
    refine ⟨?_, Tracker.State.finish_items, Tracker.State.finish_threads⟩
    unfold Tracker.State.finish
    split <;> [cases g; skip] <;> rfl
  obtain ⟨signaled', items', threads'⟩ := frame
  have staged : g.Stage push → ∀ t ∈ f'.tracker.threads, t.tag.Stage t.code := by
    intro here
    rw [threads']
    intro t member
    rcases List.mem_or_eq_of_mem_set member with before | rfl
    · exact signals.stage t before
    · exact here
  suffices both : (t₁.signaled = true → t₁.items = 0 ∨
      0 < Tracker.awaiting .initializeEvent (f.tracker.threads.set j ⟨g, push⟩)) ∧
      g.Stage push by
    refine ⟨?_, staged both.2⟩
    rw [signaled', items', threads']
    exact both.1
  rcases known with ⟨rfl, rfl⟩ | ⟨rfl, rfl⟩ | ⟨rfl, rfl | rfl⟩
  · cases performed
    refine ⟨?_, by simp [Tracker.Call.Stage]⟩
    intro signaled
    cases signaled
  · -- the event is set while nothing is pending, or before it is re-initialised
    have inTime := timely.1 next
    cases performed
    refine ⟨fun _ => ?_, by simp [Tracker.Call.Stage]⟩
    simp only [List.count_cons, List.count_nil] at awaits
    dsimp only
    grind
  · cases performed
    refine ⟨?_, by split <;> simp [Tracker.Call.Stage]⟩
    intro signaled
    have before := signal signaled
    have none : ([.load] : List Tracker.Op).count .initializeEvent = 0 := rfl
    omega
  · simp only [Tracker.State.perform] at performed
    split at performed <;> cases performed
    refine ⟨?_, by simp [Tracker.Call.Stage]⟩
    intro signaled
    cases signaled

theorem signals_of_reach (reached : (fleet driver mode).Reach (Timely mode) f) :
    Accounted driver mode f ∧ Signals f := by
  refine Sys.Reach.invariant (I := fun f => Accounted driver mode f ∧ Signals f) ?_ ?_ reached
  · rintro f ⟨n, rfl⟩
    exact ⟨.initial n, .initial n⟩
  · rintro f a f' ⟨accounted, signals⟩ timely step
    cases a with
    | task k a => exact ⟨accounted.task timely step, signals.task accounted timely step⟩
    | drain =>
        have called : f.step driver mode .drain = some f' := step
        exact ⟨accounted.drain step, signals.drain called⟩
    | tracker j => exact ⟨accounted.tracker step, signals.tracker accounted timely step⟩

/-! ## After a drain -/

/-- When `drain` returns nothing is pending, unless a `begin` has counted up from 0 and
not yet re-initialised the event. -/
theorem drained (reached : (fleet driver mode).Reach (Timely mode) f)
    (step : f.step driver mode (.tracker j) = some f')
    (returns : Tracker.DrainReturns f.tracker (.run j) f'.tracker)
    (settled : Tracker.awaiting .initializeEvent f'.tracker.threads = 0) :
    f'.tracker.items = 0 := by
  obtain ⟨accounted, signals⟩ := signals_of_reach reached
  obtain ⟨i, op, rest, same, thread, done⟩ := returns
  cases same
  obtain ⟨moved, -⟩ := step_tracker step
  obtain ⟨g, op', rest', t₁, push, thread', performed, after⟩ := Tracker.State.step_run moved
  rw [thread] at thread'
  cases thread'
  have bound : j < f.tracker.threads.length := (List.getElem?_eq_some_iff.mp thread).1
  have threads : f'.tracker.threads = f.tracker.threads.set j ⟨.drain, push ++ rest⟩ := by
    rw [after, Tracker.State.finish_threads]
  have items : f'.tracker.items = t₁.items := by
    rw [after, Tracker.State.finish_items]
  obtain ⟨rfl, known⟩ := signals.behind accounted thread
  rw [List.append_nil] at threads
  rw [threads, List.getElem?_set_self bound] at done
  cases done
  have awaits := Tracker.awaiting_set .initializeEvent [] thread
  rw [← threads, settled] at awaits
  simp only [reduceCtorEq, false_and, false_or, true_and] at known
  rcases known with rfl | rfl
  · -- the fast path: the load has read 0
    simp only [Tracker.State.perform, Option.some.injEq, Prod.mk.injEq] at performed
    obtain ⟨rfl, empty⟩ := performed
    have zero : f.tracker.pending = 0 := by
      by_contra some
      rw [if_neg some] at empty
      cases empty
    rw [items, ← accounted.pending, zero]
  · -- the slow path: the event was signaled
    simp only [Tracker.State.perform, Option.ite_none_right_eq_some, Option.some.injEq,
      Prod.mk.injEq] at performed
    obtain ⟨signaled, rfl, -⟩ := performed
    have none : ([.wait] : List Tracker.Op).count .initializeEvent = 0 := rfl
    rcases signals.signal signaled with empty | pos
    · rw [items]
      exact empty
    · rw [none] at awaits
      simp only [List.count_nil] at awaits
      omega

/-- While no item is counted in, none becomes pending. -/
theorem Accounted.stays (accounted : Accounted driver mode f) (quiet : Quiet f a)
    (empty : f.tracker.items = 0) (step : f.step driver mode a = some f') :
    f'.tracker.items = 0 := by
  cases a with
  | drain =>
      cases step
      exact empty
  | tracker j =>
      obtain ⟨moved, -⟩ := step_tracker step
      obtain ⟨g, op, rest, t₁, push, thread, performed, after⟩ := Tracker.State.step_run moved
      have code := accounted.calls _ (List.mem_of_getElem? thread) op List.mem_cons_self
      rw [after, Tracker.State.finish_items, (perform_event performed code).2, empty]
  | task k a =>
      obtain ⟨s, s', here, next, -, tracker'⟩ := step_task step
      rcases tracker' with ⟨-, same⟩ | ⟨i, c, op, t, push, loud, performed, same⟩
      · rw [same, empty]
      · have silent := quiet s here
        rw [loud] at silent
        rw [same]
        cases op with
        | fetchAdd => exact absurd rfl silent
        | fetchSub =>
            simp only [Tracker.State.perform, Option.some.injEq, Prod.mk.injEq] at performed
            obtain ⟨rfl, -⟩ := performed
            dsimp only
            omega
        | initializeEvent | setEvent | load | wait =>
            dsimp only
            rw [(perform_event performed (by simp)).2, empty]

/-- A callback of a tracked task is a pending item. -/
theorem outstanding_pos {t : Thread Call Op} {id : Nat} {op : Run} (ledger : Ledger s)
    (tracked : s.tracked = true) (member : t ∈ s.threads) (runs : .run id op ∈ t.code) :
    0 < s.outstanding := by
  have pos : 0 < counted t := by
    unfold counted
    rcases ledger.begun t member with absent | ⟨rest, code, absent⟩
    · have one := le_total_of_mem Op.pends runs
      rw [begins_of_absent absent]
      exact one
    · rw [code] at runs ⊢
      simp only [List.mem_cons, reduceCtorEq, false_or] at runs
      have one := le_total_of_mem Op.pends runs
      simp only [total_cons, begins_of_absent absent, Op.begins, Op.pends] at one ⊢
      omega
  have le := le_total_of_mem counted member
  rw [State.outstanding, if_pos tracked]
  omega

/-- **What draining covers.** When `drain` returns in a timely run and no `begin` is
about to re-initialise the event, no tracked task has a work item queued or a callback
running, and none is polled in any run that goes on from there, as long as no spawn, wake
or cancel counts an item in. -/
theorem drain_covers_items (reached : (fleet driver mode).Reach (Timely mode) f)
    (timely : Timely mode f (.tracker j)) (step : f.step driver mode (.tracker j) = some f')
    (returns : Tracker.DrainReturns f.tracker (.run j) f'.tracker)
    (settled : Tracker.awaiting .initializeEvent f'.tracker.threads = 0) {g : Fleet}
    (later : ((fleet driver mode).resume f').Reach (fun f a => Timely mode f a ∧ Quiet f a) g) :
    ∀ s ∈ g.tasks, s.tracked = true →
      queuedItems s.items = 0 ∧ (∀ t ∈ s.threads, ∀ id op, .run id op ∉ t.code) ∧
        ∀ a, ¬ Polls s a := by
  have empty := drained reached step returns settled
  have reached' : (fleet driver mode).Reach (Timely mode) f' := .step reached timely step
  have still : Accounted driver mode g ∧ g.tracker.items = 0 := by
    refine Sys.Reach.invariant (I := fun f => Accounted driver mode f ∧ f.tracker.items = 0)
      ?_ ?_ later
    · rintro f rfl
      exact ⟨(signals_of_reach reached').1, empty⟩
    · rintro f a f' ⟨accounted, none⟩ ⟨timely, quiet⟩ next
      have moved : f.step driver mode a = some f' := next
      refine ⟨?_, accounted.stays quiet none moved⟩
      cases a with
      | task k a => exact accounted.task timely moved
      | drain => exact accounted.drain moved
      | tracker j => exact accounted.tracker moved
  obtain ⟨accounted, none⟩ := still
  intro s member tracked
  have ledger := ledger_of_reach (accounted.tasks s member)
  have idle : s.outstanding = 0 := by
    have le := le_total_of_mem State.outstanding member
    have items := accounted.items
    omega
  have nobody : ∀ t ∈ s.threads, ∀ id op, .run id op ∉ t.code := by
    intro t here id op runs
    have pos := outstanding_pos ledger tracked here runs
    omega
  refine ⟨?_, nobody, ?_⟩
  · rw [State.outstanding, if_pos tracked] at idle
    exact Nat.eq_zero_of_add_eq_zero_left idle
  · rintro a ⟨i, c, id, rfl, polls⟩
    have next : ∀ op, s.next i = some (.run id op) → False := by
      intro op next
      simp only [State.next, Option.bind_eq_some_iff] at next
      obtain ⟨t, thread, head⟩ := next
      exact nobody t (List.mem_of_getElem? thread) id op (List.mem_of_head? head)
    exact polls.elim (next _) (next _)

/-! ## Between two work items -/

/-- A tracked task is polled once, keeps a waker and has nothing pending; `drain` is
called. -/
def asleep : List Label :=
  steps 0 (.call (.spawn .tracked) :: List.replicate 6 (go 0)) ++ [.tracker 0] ++
    steps 0 (List.replicate 6 (go 0) ++ [.start 0] ++ List.replicate 5 (go 1) ++
      .call (.cloneWaker (.activation 1)) :: go 2 :: List.replicate 5 (go 1)) ++
    [.tracker 1] ++ steps 0 [go 1] ++ [.drain]

/-- `drain` returns to a task that sleeps. -/
theorem drain_covers_items_of_asleep :
    ∃ f f', (fleet .wdm .off).Reach (Timely .off) f ∧ f.step .wdm .off (.tracker 2) = some f' ∧
      (∃ s ∈ f'.tasks, s.tracked = true ∧ s.completed = false ∧ 0 < s.live) ∧
      ∀ s ∈ f'.tasks, s.tracked = true →
        queuedItems s.items = 0 ∧ (∀ t ∈ s.threads, ∀ id op, .run id op ∉ t.code) ∧
          ∀ a, ¬ Polls s a := by
  obtain ⟨f, reached, thread, found⟩ := Sys.Reach.exists_of_execIf
    (fun f : Fleet => f.tracker.threads[2]? = some ⟨.drain, [.load]⟩ ∧
      (f.step .wdm .off (.tracker 2)).any fun f' =>
        f'.tracker.threads[2]? = some ⟨.drain, []⟩ ∧
          Tracker.awaiting .initializeEvent f'.tracker.threads = 0 ∧
          ∃ s ∈ f'.tasks, s.tracked = true ∧ s.completed = false ∧ 0 < s.live)
    asleep (.start ⟨1, rfl⟩ : (fleet .wdm .off).Reach (Timely .off) (Fleet.initial 1))
    (by decide)
  cases step : f.step .wdm .off (.tracker 2) with
  | none =>
      rw [step] at found
      cases found
  | some f' =>
      rw [step] at found
      obtain ⟨done, settled, sleeps⟩ := of_decide_eq_true found
      have next : f.tracker.next 2 = some .load := by simp [Tracker.State.next, thread]
      have timely : Timely .off f (.tracker 2) := by
        refine ⟨?_, ?_⟩ <;> rw [next] <;> intro other <;> cases other
      exact ⟨f, f', reached, step, sleeps, drain_covers_items reached timely step
        ⟨2, .load, [], rfl, thread, done⟩ settled (.start rfl)⟩

/-- The step spawns a task. -/
def spawns : Label → Bool
  | .task _ (.call (.spawn _)) => true
  | _ => false

/-- The waker that the task has kept is woken, and its work item starts. -/
def woken : List Label :=
  steps 0 (.call (.wakeByRef (.owner 0)) :: List.replicate 3 (go 3)) ++ [.tracker 3] ++
    steps 0 (List.replicate 5 (go 3) ++ .start 1 :: List.replicate 4 (go 4))

/-- Task 0 is tracked and about to be polled by its thread 4. -/
def polledNext (f : Fleet) : Bool :=
  ((f.tasks[0]?).any fun s => s.tracked && decide (s.next 4 = some (.run 1 .pollStart))) &&
    (f.step .wdm .off (.task 0 (go 4))).isSome

/-- `drain` finds nothing pending and returns, and the waker that the task has kept is
woken after that: the task is polled again. -/
theorem drain_misses_sleeping_task :
    ¬ ∀ (f f' g g' : Fleet) (j k : Nat) (a : State.Label) (s : State),
      (fleet .wdm .off).Reachable f → f.step .wdm .off (.tracker j) = some f' →
        Tracker.DrainReturns f.tracker (.run j) f'.tracker →
        ((fleet .wdm .off).resume f').Reach (fun _ a => spawns a = false) g →
        g.tasks[k]? = some s → s.tracked = true → g.step .wdm .off (.task k a) = some g' →
        ¬ Polls s a := by
  intro covered
  obtain ⟨f, reached, thread, found⟩ := Sys.Reach.exists_of_exec
    (fun f : Fleet => f.tracker.threads[2]? = some ⟨.drain, [.load]⟩ ∧
      (f.step .wdm .off (.tracker 2)).any fun f' =>
        f'.tracker.threads[2]? = some ⟨.drain, []⟩ ∧
          (((fleet .wdm .off).resume f').execIf (fun _ a => spawns a = false) f' woken).any
            fun g => decide (polledNext g = true))
    asleep (.start ⟨1, rfl⟩ : (fleet .wdm .off).Reachable (Fleet.initial 1)) (by decide)
  obtain ⟨f', step, found⟩ := (Option.any_eq_true _ _).mp found
  obtain ⟨done, found⟩ := of_decide_eq_true found
  obtain ⟨g, later, polled⟩ := Sys.Reach.exists_of_execIf _ woken (.start rfl) found
  simp only [polledNext, Bool.and_eq_true] at polled
  obtain ⟨s, here, polled'⟩ := (Option.any_eq_true _ _).mp polled.1
  obtain ⟨g', next⟩ := Option.isSome_iff_exists.mp polled.2
  rw [Bool.and_eq_true] at polled'
  have polls : Polls s (go 4) := ⟨4, .go, 1, rfl, .inl (of_decide_eq_true polled'.2)⟩
  exact covered f f' g g' 2 0 (go 4) s reached step ⟨2, .load, [], rfl, thread, done⟩ later here
    polled'.1 next polls

end Fleet

end Kcom.WorkItem
