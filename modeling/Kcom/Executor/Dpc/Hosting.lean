import Kcom.Executor.Dpc.FirstPoll

/-!
# What a DPC task does with its future

`Host.Phase` is what a future may expect of whoever runs it. In the exclusive runs a task
keeps to it, with all its activations and the release that frees it together: the state
shows the phase (`Stands`), and every call of the future is one that this phase allows.
-/

namespace Kcom.Dpc

open Conc
open Conc.Host (Event Phase)

section Traces

variable {mode : Hardening} {s s' s₁ : State} {es : List Event} {i : Nat} {c : Choice}
  {f : Call} {op : Op} {push rest : List Op} {p : Phase}

/-- The phase of the future as the state shows it. -/
structure Stands (s : State) (p : Phase) : Prop where
  polling : load Op.polling s.threads = if p = .polling then 1 else 0
  dropping : load Op.dropping s.threads = if p = .dropping then 1 else 0
  drops : s.drops = if p = .dropping ∨ p = .dropped then 1 else 0
  ready : p = .ready → s.ready = true

theorem polling_le_window (threads : List (Thread Call Op)) :
    load Op.polling threads ≤ load Op.window threads := by
  apply load_mono
  intro op
  cases op with
  | loop op => cases op <;> simp [Op.polling, Op.window]
  | _ => exact Nat.zero_le _

/-- Inside its window an activation has the future to itself. -/
theorem Polling.alone (polling : Polling s) (thread : s.threads[i]? = some ⟨f, op :: rest⟩)
    (inWindow : op.window = 1) (outside : op.polling = 0) : load Op.polling s.threads = 0 := by
  have window := load_set Op.window f [] thread
  have inside := load_set Op.polling f [] thread
  have le := polling_le_window (s.threads.set i ⟨f, [] ++ rest⟩)
  have one := polling.window
  rw [inWindow, total_nil] at window
  rw [outside, total_nil] at inside
  omega

/-- A poll begins where none was, or behind one that was pending. -/
theorem Stands.poll {l : Locals} (stands : Stands s p) (polling : Polling s)
    (thread : s.threads[i]? = some ⟨f, .loop (.pollStart l) :: rest⟩) :
    p = .unpolled ∨ p = .suspended := by
  have early := head_le_load Op.early thread
  have unfinished := polling.early early
  have alone := polling.alone thread rfl rfl
  have noStore := polling.stores_eq_zero thread rfl rfl
  have once := polling.drops
  rw [unfinished, Bool.toNat_false] at once
  have inPoll := stands.polling
  have drops := stands.drops
  cases p with
  | unpolled => exact .inl rfl
  | suspended => exact .inr rfl
  | polling =>
      rw [if_pos rfl] at inPoll
      omega
  | ready =>
      rcases polling.ready (stands.ready rfl) with completed | stores
      · rw [unfinished] at completed
        cases completed
      · omega
  | dropping | dropped =>
      rw [if_pos (by simp)] at drops
      omega

/-- A future is dropped between two polls, or behind one that was ready. -/
theorem Stands.drop (stands : Stands s p) (memory : Memory mode s) (polling : Polling s)
    (polled : p = .unpolled → Unpolled s) (thread : s.threads[i]? = some ⟨f, op :: rest⟩)
    (drops : op.drops = 1) : p = .suspended ∨ p = .ready := by
  have head := head_le_load Op.drops thread
  have once := polling.drops
  have completed : s.completed = true := by
    cases completed : s.completed with
    | true => rfl
    | false =>
        rw [completed, Bool.toNat_false] at once
        omega
  rw [completed, Bool.toNat_true] at once
  have inPoll := stands.polling
  have dropped := stands.drops
  cases p with
  | suspended => exact .inl rfl
  | ready => exact .inr rfl
  | unpolled =>
      have before := (polled rfl).completed
      rw [completed] at before
      cases before
  | polling =>
      rw [if_pos rfl] at inPoll
      have nobody : load Op.polling s.threads = 0 := by
        cases op with
        | loop op => exact polling.alone thread rfl (by cases op <;> first | rfl | cases drops)
        | last op =>
            have empty := (memory.alone thread).2.1
            have le := polling_le_window s.threads
            omega
        | _ => cases drops
      omega
  | dropping | dropped =>
      rw [if_pos (by simp)] at dropped
      omega

/-- Which operations are which events. -/
theorem Op.event_cases (c : Choice) (op : Op) :
    (op.event c = none ∧ op.polling = 0 ∧ op.dropping = 0) ∨
      (op.event c = some .poll ∧ ∃ l, op = .loop (.pollStart l)) ∨
      (op.event c = some .pending ∧ op.polling = 1 ∧ op.dropping = 0) ∨
      (op.event c = some .ready ∧ op.polling = 1 ∧ op.dropping = 0) ∨
      (op.event c = some .drop ∧ op.drops = 1 ∧ op.polling = 0 ∧ op.dropping = 0) ∨
      (op.event c = some .dropped ∧ op.polling = 0 ∧ op.dropping = 1) := by
  cases op with
  | loop op =>
      cases op with
      | polling l =>
          by_cases answer : c = .ready <;> simp [Op.event, Op.polling, Op.dropping, answer]
      | _ => simp [Op.event, Op.polling, Op.dropping, Op.drops]
  | last op => cases op <;> simp [Op.event, Op.polling, Op.dropping, Op.drops]
  | _ => simp [Op.event, Op.polling, Op.dropping]

/-- A step of a thread takes the future to the next phase. -/
theorem Stands.run (stands : Stands s p) (memory : Memory mode s) (polling : Polling s)
    (polled : p = .unpolled → Unpolled s) (step : s.step mode (.run i c) = some s') :
    ∃ p', p.run (s.event (.run i c)).toList = some p' ∧ Stands s' p' := by
  obtain ⟨f, op, rest, s₁, push, finished, thread, performed, rfl⟩ := State.step_run step
  have inPoll := load_set Op.polling f push thread
  have inDrop := load_set Op.dropping f push thread
  have pollHead := head_le_load Op.polling thread
  have dropHead := head_le_load Op.dropping thread
  obtain ⟨drops, polls, begun, ready⟩ := perform_event performed
  have isPolling := stands.polling
  have isDropping := stands.dropping
  have isDropped := stands.drops
  have isReady := stands.ready
  have moved : ∀ p' : Phase,
      load Op.polling (s.threads.set i ⟨f, push ++ rest⟩) = (if p' = .polling then 1 else 0) →
      load Op.dropping (s.threads.set i ⟨f, push ++ rest⟩) = (if p' = .dropping then 1 else 0) →
      s₁.drops = (if p' = .dropping ∨ p' = .dropped then 1 else 0) →
      (p' = .ready → s₁.ready = true) →
        Stands (s₁.moved (s.threads.set i ⟨f, push ++ rest⟩) finished) p' :=
    fun p' polling dropping drops ready => ⟨polling, dropping, drops, ready⟩
  rw [event_run thread]
  rcases Op.event_cases c op with ⟨happens, noPoll, noDrop⟩ | ⟨happens, l, rfl⟩ |
    ⟨happens, endsPoll, noDrop⟩ | ⟨happens, endsPoll, noDrop⟩ | ⟨happens, one, noPoll, noDrop⟩ |
    ⟨happens, noPoll, endsDrop⟩ <;>
    rw [happens] at drops polls begun ready ⊢ <;>
    simp only [Option.toList_none, Option.toList_some, List.count_nil, List.count_cons,
      beq_iff_eq, reduceCtorEq, if_true, if_false, Nat.zero_add, Nat.add_zero, Option.some.injEq,
      decide_true, decide_false, Bool.or_true, Bool.or_false] at drops polls begun ready
  · refine ⟨p, rfl, moved p (by omega) (by omega) (by omega) ?_⟩
    intro same
    rw [ready]
    exact isReady same
  · have noPoll : (Op.loop (.pollStart l)).polling = 0 := rfl
    have noDrop : (Op.loop (.pollStart l)).dropping = 0 := rfl
    rcases stands.poll polling thread with rfl | rfl <;>
      simp only [reduceCtorEq, if_false, or_false] at isPolling isDropping isDropped <;>
      exact ⟨.polling, rfl, moved _ (by simp; omega) (by simp; omega) (by simp; omega) nofun⟩
  · have now : p = .polling := by
      by_contra other
      rw [if_neg other] at isPolling
      omega
    subst now
    simp only [reduceCtorEq, if_true, if_false, or_false] at isPolling isDropping isDropped
    exact ⟨.suspended, rfl, moved _ (by simp; omega) (by simp; omega) (by simp; omega) nofun⟩
  · have now : p = .polling := by
      by_contra other
      rw [if_neg other] at isPolling
      omega
    subst now
    simp only [reduceCtorEq, if_true, if_false, or_false] at isPolling isDropping isDropped
    exact ⟨.ready, rfl, moved _ (by simp; omega) (by simp; omega) (by simp; omega) fun _ => ready⟩
  · rcases stands.drop memory polling polled thread one with rfl | rfl <;>
      simp only [reduceCtorEq, if_false, or_false] at isPolling isDropping isDropped <;>
      exact ⟨.dropping, rfl, moved _ (by simp; omega) (by simp; omega) (by simp; omega) nofun⟩
  · have now : p = .dropping := by
      by_contra other
      rw [if_neg other] at isDropping
      omega
    subst now
    simp only [reduceCtorEq, if_true, if_false, true_or] at isPolling isDropping isDropped
    exact ⟨.dropped, rfl, moved _ (by simp; omega) (by simp; omega) (by simp; omega) nofun⟩

/-- A dequeued DPC or a call is no event. -/
theorem Stands.of_append {t : Thread Call Op} (stands : Stands s p)
    (threads : s'.threads = s.threads ++ [t])
    (frame : s'.drops = s.drops ∧ s'.ready = s.ready)
    (outside : total Op.polling t.code = 0 ∧ total Op.dropping t.code = 0) : Stands s' p := by
  obtain ⟨drops, ready⟩ := frame
  obtain ⟨noPoll, noDrop⟩ := outside
  refine ⟨?_, ?_, ?_, ?_⟩
  · rw [threads, load_append, load_cons, noPoll]
    exact stands.polling
  · rw [threads, load_append, load_cons, noDrop]
    exact stands.dropping
  · rw [drops]
    exact stands.drops
  · rw [ready]
    exact stands.ready

theorem Stands.step {a : State.Label} (stands : Stands s p) (memory : Memory mode s)
    (polling : Polling s) (polled : p = .unpolled → Unpolled s)
    (step : s.step mode a = some s') :
    ∃ p', p.run (s.event a).toList = some p' ∧ Stands s' p' := by
  cases a with
  | run i c => exact stands.run memory polling polled step
  | dequeue cpu =>
      obtain ⟨-, rfl⟩ := State.step_dequeue step
      exact ⟨p, rfl, stands.of_append rfl ⟨rfl, rfl⟩ ⟨rfl, rfl⟩⟩
  | call f =>
      obtain ⟨-, rfl⟩ := State.step_call step
      refine ⟨p, rfl, stands.of_append (t := ⟨f, s.code f⟩) rfl ?_ ?_⟩
      · cases f <;> exact ⟨rfl, rfl⟩
      · cases f with
        | setTaskBudget budget => cases budget <;> exact ⟨rfl, rfl⟩
        | isCancellationRequested j | takeCancellationRequest j =>
            simp only [State.code]
            cases s.cpuOf j <;> exact ⟨rfl, rfl⟩
        | _ => exact ⟨rfl, rfl⟩

/-- The trace of an exclusive run is one that a host may leave. -/
theorem stands_of_reach {q : State × List Event}
    (reached : (traced mode).Reach (fun q a => Exclusive mode q.1 a) q) :
    ∃ p, Phase.unpolled.run q.2 = some p ∧ Stands q.1 p := by
  induction reached with
  | @start q first =>
      obtain ⟨first, empty⟩ := first
      rw [empty, show q.1 = initial from first]
      exact ⟨.unpolled, rfl, rfl, rfl, rfl, nofun⟩
  | @step q q' a before exclusive next ih =>
      obtain ⟨p, trace, stands⟩ := ih
      have here : (system mode).Reach (Exclusive mode) q.1 :=
        Sys.Reach.of_history (fun _ _ exclusive => exclusive) before
      obtain ⟨memory, polling⟩ := polling_of_reach here
      have begun := begun_of_reach (before.mono fun _ _ exclusive => exclusive.1)
      obtain ⟨moved, more⟩ := traced_step next
      have polled : p = .unpolled → Unpolled q.1 := by
        rintro rfl
        have empty := Phase.eq_nil_of_unpolled trace
        rcases begun with ⟨-, unpolled⟩ | polled
        · exact unpolled
        · rw [empty] at polled
          cases polled
      obtain ⟨p', last, stands'⟩ := stands.step memory polling polled moved
      refine ⟨p', ?_, stands'⟩
      rw [more, Phase.run_append, trace]
      exact last

/-- One more step, with its trace. -/
theorem traced_next {a : State.Label}
    (reached : (traced mode).Reach (fun q a => Exclusive mode q.1 a) (s, es))
    (guard : Exclusive mode s a) (step : s.step mode a = some s') :
    (traced mode).Reach (fun q a => Exclusive mode q.1 a) (s', es ++ (s.event a).toList) := by
  refine .step reached guard ?_
  have next : (system mode).step s a = some s' := step
  simp only [traced, Sys.withHistory, next, Option.map_some]

/-- What the executor does next with the future its host may do. -/
theorem exists_phase {a : State.Label}
    (reached : (traced mode).Reach (fun q a => Exclusive mode q.1 a) (s, es))
    (trace : Phase.unpolled.run es = some p) (guard : Exclusive mode s a)
    (step : s.step mode a = some s') :
    ∃ p', Phase.unpolled.run (es ++ (s.event a).toList) = some p' ∧
      p.run (s.event a).toList = some p' := by
  obtain ⟨p', run, -⟩ := stands_of_reach (traced_next reached guard step)
  refine ⟨p', run, ?_⟩
  rwa [Phase.run_append, trace, Option.bind_some] at run

/-- Of a future whose block is freed the drop has returned. -/
theorem Stands.dropped_of_freed (stands : Stands s p)
    (reached : (system mode).Reach (Counted mode) s) (freed : 0 < s.deallocs) : p = .dropped := by
  obtain ⟨memory, buried⟩ := buried_of_reach reached
  obtain ⟨-, none, alone⟩ := memory.freed_empty freed
  have dropped := buried.dropped (buried.freed (Nat.add_pos_left freed _))
  have nobody := drops_le_refs s.threads
  have held := State.references_eq s
  have inDrop := stands.dropping
  have drops := stands.drops
  have le : load Op.dropping s.threads ≤ load Op.refs s.threads + load Op.frees s.threads := by
    rw [← load_add]
    apply load_mono
    intro op
    cases op with
    | loop op => cases op <;> simp [Op.dropping, Op.refs, Op.frees]
    | last op => cases op <;> simp [Op.dropping, Op.frees]
    | _ => exact Nat.zero_le _
  cases p with
  | dropped => rfl
  | dropping =>
      rw [if_pos rfl] at inDrop
      omega
  | _ =>
      rw [if_neg (by simp)] at drops
      omega

/-- **A DPC task hosts its future.** In every exclusive run the calls of the future, from the
start of each to its end, are those of a host: the first is a poll, no two overlap, after
`ready` only the drop is left, and after the drop nothing. Of a future whose block is freed
the drop has returned. -/
theorem dpc_hosts_future
    (reached : (traced mode).Reach (fun q a => Exclusive mode q.1 a) (s, es)) :
    ∃ p, Phase.unpolled.run es = some p ∧ (0 < s.deallocs → p = .dropped) := by
  obtain ⟨p, trace, stands⟩ : ∃ p, Phase.unpolled.run es = some p ∧ Stands s p :=
    stands_of_reach reached
  have here : (system mode).Reach (Counted mode) s :=
    Sys.Reach.of_history (fun _ _ exclusive => exclusive.1) reached
  exact ⟨p, trace, stands.dropped_of_freed here⟩

/-- Woken between two activations, ready at its second poll, and freed. -/
theorem dpc_hosts_future_of_two_polls : ∃ s es p,
    (traced .off).Reach (fun q a => Exclusive .off q.1 a) (s, es) ∧
      (0 < s.deallocs ∧ es = [.poll, .pending, .poll, .ready, .drop, .dropped]) ∧
      Phase.unpolled.run es = some p ∧ p = .dropped := by
  obtain ⟨⟨s, es⟩, reached, freed, trace⟩ := Sys.Reach.exists_of_execIf
    (fun q : State × List Event =>
      0 < q.1.deallocs ∧ q.2 = [.poll, .pending, .poll, .ready, .drop, .dropped])
    (firstPoll ++ [.call (.cloneWaker (.activation 1)), go 2, go 1, go 1, go 1, go 1, go 1,
      .call (.wake 0), go 3, go 3, go 3, go 3, go 3, .dequeue (some 1), go 4, go 4, go 4, go 4,
      go 4, go 4, go 4, .run 4 .ready, go 4, go 4, go 4] ++ List.replicate 6 (go 4))
    (.start ⟨rfl, rfl⟩ : (traced .off).Reach (fun q a => Exclusive .off q.1 a) (initial, []))
    (by decide)
  obtain ⟨p, run, dropped⟩ := dpc_hosts_future reached
  exact ⟨s, es, p, reached, ⟨freed, trace⟩, run, dropped freed⟩

end Traces

end Kcom.Dpc
