import Kcom.Executor.WorkItem.Serving

/-!
# Wakes and cancels of a work-item task

Whoever finds `scheduled` set relies on the thread that has set it, on the work item
that this thread enqueues, or on the callback that has not yet cleared it
(`Tended.scheduled`). A `schedule` that fails clears the flag and leaves nothing
behind, and neither it nor those that relied on it try again: the wake, or the cancel
whose flag is spent, is lost unless somebody else is about to serve it. `Attended` are
the steps in which no `schedule` gives up on something that nobody else will do, and no
wake returns after the poll that it has caused; in the runs made of them nothing is lost.
-/

namespace Kcom.WorkItem

open Conc

/-! ## The condition -/

/-- A `schedule` other than the spawner's gives up only where the task is completed, a
work item is queued, or somebody else will serve the wakes and cancels there are. Behind
the outcome of its `schedule` a wake returns only where the task is completed, a work item
is queued, or somebody has not yet started the poll. -/
def Attended (driver : Driver) (mode : Hardening) (s : State) : State.Label → Prop
  | .run i c => ∀ t ∈ s.threads[i]?, ∀ op ∈ t.code.head?,
      (op = .abandon → t.tag.spawns = true ∨ s.completed = true ∨
        1 < load (if s.cancelRequested then Op.obeys else Op.serves) s.threads +
          queuedItems s.items) ∧
      (t.tag.wakes = true → s.settles op = false →
        s.returns driver mode i c t.tag op t.code.tail = true →
          s.completed = true ∨ 0 < load Op.serves s.threads + queuedItems s.items)
  | _ => True

instance (driver : Driver) (mode : Hardening) (s : State) :
    (a : State.Label) → Decidable (Attended driver mode s a)
  | .run i c => inferInstanceAs (Decidable (∀ t ∈ s.threads[i]?, ∀ op ∈ t.code.head?,
      (op = .abandon → t.tag.spawns = true ∨ s.completed = true ∨
        1 < load (if s.cancelRequested then Op.obeys else Op.serves) s.threads +
          queuedItems s.items) ∧
      (t.tag.wakes = true → s.settles op = false →
        s.returns driver mode i c t.tag op t.code.tail = true →
          s.completed = true ∨ 0 < load Op.serves s.threads + queuedItems s.items)))
  | .start _ => .isTrue trivial
  | .call _ => .isTrue trivial

/-! ## What is left for others to do -/

section Steps

variable {driver : Driver} {mode : Hardening} {s s' s₁ : State} {i : Nat} {c : Choice} {f : Call}
  {op : Op} {push rest : List Op} {woken returns : Bool}

/-- Whoever leaves a wake, a cancel or the flag to others leaves it to somebody. -/
structure Tended (s : State) (woken : Bool) : Prop where
  scheduled : s.scheduled = true → 0 < load Op.flags s.threads + queuedItems s.items
  owed : woken = true → s.completed = false →
    0 < load Op.serves s.threads + queuedItems s.items
  requested : s.cancelRequested = true → s.completed = false →
    0 < load Op.obeys s.threads + queuedItems s.items
  created : ∀ t ∈ s.threads, ∀ op ∈ t.code, op.Created s.items.length
  called : ∀ t ∈ s.threads, t.tag.cancels = true → s.cancelRequested = true ∨ .casCancel ∈ t.code

theorem Tended.initial : Tended initial false :=
  ⟨nofun, nofun, nofun, nofun, nofun⟩

theorem unfinished_of_perform (performed : s.perform driver mode i f c op = some (s₁, push))
    (unfinished : s₁.completed = false) : s.completed = false := by
  cases done : s.completed with
  | false => rfl
  | true =>
      rw [completed_of_perform performed done] at unfinished
      cases unfinished

/-- A weight that had somebody keeps somebody, the exceptions of `perform_tends` aside. -/
theorem Tended.keeps {w : Op → Nat} (tended : Tended s woken)
    (weight : w = Op.serves ∨ w = Op.obeys) (thread : s.threads[i]? = some ⟨f, op :: rest⟩)
    (performed : s.perform driver mode i f c op = some (s₁, push))
    (unfinished : s₁.completed = false) (before : 0 < load w s.threads + queuedItems s.items)
    (present : op ≠ .abandon) (polls : w = Op.serves → ∀ id, op ≠ .run id .pollStart)
    (checks : w = Op.obeys → s₁.cancelRequested = true) :
    0 < load w (s.threads.set i ⟨f, push ++ rest⟩) + queuedItems s₁.items := by
  have trade := load_set w f push thread
  have here := head_le_load w thread
  have created := tended.created _ (List.mem_of_getElem? thread) op List.mem_cons_self
  rcases perform_tends weight performed created unfinished with
    kept | ahead | ⟨rfl, set, rfl, rfl⟩ | gone | ⟨rfl, id, start⟩ | ⟨rfl, unrequested, -⟩
  · omega
  · omega
  · -- The flag was set on behalf of somebody else.
    have somebody := tended.scheduled set
    have flags := load_set Op.flags f [] thread
    have le : load Op.flags (s₁.threads.set i ⟨f, [] ++ rest⟩) ≤
        load w (s₁.threads.set i ⟨f, [] ++ rest⟩) := by
      rcases weight with rfl | rfl
      · exact Nat.le_trans (flags_le_obeys _) (obeys_le_serves _)
      · exact flags_le_obeys _
    simp only [total_nil, Op.flags] at flags
    omega
  · exact absurd gone present
  · exact absurd start (polls rfl id)
  · rw [checks rfl] at unrequested
    cases unrequested

/-- The step with which a `schedule` gives up. -/
theorem Tended.abandon {w : Op → Nat} (weight : w = Op.serves ∨ w = Op.obeys)
    (thread : s.threads[i]? = some ⟨f, .abandon :: rest⟩)
    (performed : s.perform driver mode i f c .abandon = some (s₁, push))
    (others : 1 < load w s.threads + queuedItems s.items) :
    0 < load w (s.threads.set i ⟨f, push ++ rest⟩) + queuedItems s₁.items := by
  have trade := load_set w f push thread
  have one : w .abandon = 1 := by rcases weight with rfl | rfl <;> rfl
  cases performed
  dsimp only
  omega

theorem woken_cases (woke : s.woken f returns woken op = true) :
    (∀ id, op ≠ .run id .pollStart) ∧
      (woken = true ∨ (f.wakes = true ∧ (s.settles op = true ∨ returns = true))) := by
  cases op with
  | run id op =>
      cases op with
      | pollStart => cases woke
      | _ => simpa [State.woken] using woke
  | _ => simpa [State.woken] using woke

theorem requested_mono (performed : s.perform driver mode i f c op = some (s₁, push))
    (requested : s.cancelRequested = true) : s₁.cancelRequested = true := by
  rcases (perform_requests performed).2 with same | ⟨-, set, -⟩
  · exact same.trans requested
  · exact set

/-- The spawn function gives up before there is anything to lose. -/
theorem Stage.nothing_owed (stage : Stage s woken) (spawns : f.spawns = true)
    (thread : s.threads[i]? = some ⟨f, .abandon :: rest⟩) :
    s.cancelRequested = false ∧ ∀ returns, s.woken f returns woken .abandon = false := by
  have member := List.mem_of_getElem? thread
  cases stage with
  | unspawned _ none =>
      rw [none] at member
      cases member
  | spawning _ _ _ _ _ unrequested unwoken =>
      refine ⟨unrequested, fun returns => ?_⟩
      rw [unwoken]
      cases f <;> first | rfl | cases spawns
  | spawned _ behind => cases behind _ member spawns .abandon List.mem_cons_self

/-- An operation other than giving up leaves a wake to somebody. -/
theorem Tended.owed_step (tended : Tended s woken)
    (thread : s.threads[i]? = some ⟨f, op :: rest⟩)
    (performed : s.perform driver mode i f c op = some (s₁, push))
    (woke : s.woken f returns woken op = true) (unfinished : s₁.completed = false)
    (present : op ≠ .abandon)
    (late : f.wakes = true → s.settles op = false → returns = true →
      s.completed = true ∨ 0 < load Op.serves s.threads + queuedItems s.items) :
    0 < load Op.serves (s.threads.set i ⟨f, push ++ rest⟩) + queuedItems s₁.items := by
  have running := unfinished_of_perform performed unfinished
  have here := head_le_load Op.serves thread
  obtain ⟨notStart, cause⟩ := woken_cases woke
  have before : 0 < load Op.serves s.threads + queuedItems s.items := by
    rcases cause with already | ⟨wakes, outcome⟩
    · exact tended.owed already running
    cases settles : s.settles op with
    | false =>
        rcases late wakes settles (outcome.resolve_left (by simp [settles])) with done | somebody
        · rw [running] at done
          cases done
        · exact somebody
    | true =>
      cases op with
      | casScheduled =>
          simp only [Op.serves] at here
          omega
      | submit id op =>
          simp only [Op.serves, Op.flags] at here
          omega
      | abandon => exact absurd rfl present
      | loadCompleted =>
          rw [State.settles, running] at settles
          cases settles
      | _ => cases settles
  refine tended.keeps (.inl rfl) thread performed unfinished before present (fun _ => notStart) ?_
  intro same
  have differ : Op.serves (.run 0 .pollStart) = Op.obeys (.run 0 .pollStart) := by rw [same]
  cases differ

/-- An operation other than giving up leaves a cancel to somebody. -/
theorem Tended.requested_step (tended : Tended s woken)
    (thread : s.threads[i]? = some ⟨f, op :: rest⟩)
    (performed : s.perform driver mode i f c op = some (s₁, push))
    (requested : s₁.cancelRequested = true) (unfinished : s₁.completed = false)
    (present : op ≠ .abandon) :
    0 < load Op.obeys (s.threads.set i ⟨f, push ++ rest⟩) + queuedItems s₁.items := by
  have running := unfinished_of_perform performed unfinished
  rcases (perform_requests performed).2 with same | ⟨rfl, -, rfl⟩
  · have before := tended.requested (same.symm.trans requested) running
    refine tended.keeps (.inr rfl) thread performed unfinished before present ?_
      (fun _ => requested)
    intro same
    have differ : Op.obeys (.run 0 .pollStart) = Op.serves (.run 0 .pollStart) := by rw [same]
    cases differ
  · have trade := load_set Op.obeys f [.loadCompleted] thread
    simp only [total_cons, total_nil, Op.obeys, Op.flags] at trade
    omega

theorem Tended.run (tended : Tended s woken) (stage : Stage s woken)
    (attended : Attended driver mode s (.run i c))
    (step : s.step driver mode (.run i c) = some s') :
    Tended s' (s.record driver mode (.run i c) woken) := by
  obtain ⟨f, op, rest, s₁, push, thread, performed, rfl⟩ := State.step_run step
  have member := List.mem_of_getElem? thread
  have created := tended.created _ member
  have record : s.record driver mode (.run i c) woken =
      s.woken f (s.returns driver mode i c f op rest) woken op := by
    simp only [State.record, thread]
  obtain ⟨gives, late⟩ := attended _ thread op rfl
  rw [record]
  refine ⟨?_, ?_, ?_, ?_, ?_⟩
  · rw [State.moved_scheduled, State.moved_threads, State.moved_items]
    intro set
    have trade := load_set Op.flags f push thread
    have here := head_le_load Op.flags thread
    rcases perform_flags performed (created op List.mem_cons_self) set with ⟨was, kept⟩ | ahead
    · have somebody := tended.scheduled was
      omega
    · omega
  · rw [State.moved_completed, State.moved_threads, State.moved_items]
    intro woke unfinished
    by_cases present : op = .abandon
    · subst present
      have running := unfinished_of_perform performed unfinished
      rcases gives rfl with spawns | done | others
      · rw [(stage.nothing_owed spawns thread).2 _] at woke
        cases woke
      · rw [running] at done
        cases done
      · have le := obeys_le_serves s.threads
        refine Tended.abandon (.inl rfl) thread performed ?_
        split at others <;> omega
    · exact tended.owed_step thread performed woke unfinished present late
  · rw [State.moved_cancelRequested, State.moved_completed, State.moved_threads, State.moved_items]
    intro requested unfinished
    by_cases present : op = .abandon
    · subst present
      have running := unfinished_of_perform performed unfinished
      have before : s.cancelRequested = true := by
        rcases (perform_requests performed).2 with same | ⟨other, -⟩
        · exact same.symm.trans requested
        · cases other
      rcases gives rfl with spawns | done | others
      · rw [(stage.nothing_owed spawns thread).1] at before
        cases before
      · rw [running] at done
        cases done
      · rw [if_pos before] at others
        exact Tended.abandon (.inr rfl) thread performed others
    · exact tended.requested_step thread performed requested unfinished present
  · rw [State.moved_threads, State.moved_items]
    obtain ⟨grows, pushed⟩ := perform_created performed (created op List.mem_cons_self)
    intro t member' op' here
    rcases List.mem_or_eq_of_mem_set member' with before | rfl
    · exact fun id sub is => Nat.lt_of_lt_of_le (tended.created t before op' here id sub is) grows
    · rcases List.mem_append.mp here with new | old
      · exact pushed op' new
      · exact fun id sub is =>
          Nat.lt_of_lt_of_le (created op' (List.mem_cons_of_mem _ old) id sub is) grows
  · rw [State.moved_threads, State.moved_cancelRequested]
    intro t member' cancels
    rcases List.mem_or_eq_of_mem_set member' with before | rfl
    · exact (tended.called t before cancels).imp_left (requested_mono performed)
    · rcases tended.called _ member cancels with requested | pending
      · exact .inl (requested_mono performed requested)
      · rcases List.mem_cons.mp pending with rfl | later
        · exact .inl (perform_casCancel performed)
        · exact .inr (List.mem_append_right push later)

theorem Tended.start {id : Nat} (tended : Tended s woken)
    (step : s.step driver mode (.start id) = some s') : Tended s' woken := by
  obtain ⟨item, -, -, rfl⟩ := State.step_start step
  have flag : Op.flags (.run id .clearScheduled) = 1 := rfl
  have serves : Op.serves (.run id .clearScheduled) = 1 := rfl
  have obeys : Op.obeys (.run id .clearScheduled) = 1 := rfl
  refine ⟨?_, ?_, ?_, ?_, ?_⟩
  · simp only [load_append, load_cons, load_nil, total_cons, total_nil, flag]
    omega
  · simp only [load_append, load_cons, load_nil, total_cons, total_nil, serves]
    omega
  · simp only [load_append, load_cons, load_nil, total_cons, total_nil, obeys]
    omega
  · simp only [List.length_modify]
    intro t member op here
    rcases List.mem_append.mp member with before | new
    · exact tended.created t before op here
    · rw [List.mem_singleton.mp new] at here
      rintro _ _ rfl
      simp at here
  · intro t member cancels
    rcases List.mem_append.mp member with before | new
    · exact tended.called t before cancels
    · rw [List.mem_singleton.mp new] at cancels
      cases cancels

theorem Tended.call (tended : Tended s woken) (step : s.step driver mode (.call f) = some s') :
    Tended s' woken := by
  obtain ⟨-, rfl⟩ := State.step_call step
  have kept : (s.enter f).scheduled = s.scheduled ∧ (s.enter f).completed = s.completed ∧
      (s.enter f).cancelRequested = s.cancelRequested ∧ (s.enter f).items = s.items := by
    cases f <;> exact ⟨rfl, rfl, rfl, rfl⟩
  obtain ⟨scheduled, completed, requested, items⟩ := kept
  refine ⟨?_, ?_, ?_, ?_, ?_⟩
  · simp only [scheduled, items, load_append]
    intro set
    have somebody := tended.scheduled set
    omega
  · simp only [completed, items, load_append]
    intro woke unfinished
    have somebody := tended.owed woke unfinished
    omega
  · simp only [requested, completed, items, load_append]
    intro asked unfinished
    have somebody := tended.requested asked unfinished
    omega
  · simp only [items]
    intro t member op here
    rcases List.mem_append.mp member with before | new
    · exact tended.created t before op here
    · rw [List.mem_singleton.mp new] at here
      rintro _ _ rfl
      cases f <;> simp [Call.code] at here
  · simp only [requested]
    intro t member cancels
    rcases List.mem_append.mp member with before | new
    · exact tended.called t before cancels
    · rw [List.mem_singleton.mp new] at cancels ⊢
      cases f with
      | cancel k => exact .inr List.mem_cons_self
      | _ => cases cancels

theorem tended_of_reach {p : State × Bool}
    (reached : (watched driver mode).Reach (fun p a => Attended driver mode p.1 a) p) :
    Tended p.1 p.2 ∧ Stage p.1 p.2 := by
  refine reached.invariant (I := fun p => Tended p.1 p.2 ∧ Stage p.1 p.2) ?_ ?_
  · rintro ⟨s, woken⟩ ⟨first, unwoken⟩
    cases first
    cases unwoken
    exact ⟨Tended.initial, .unspawned rfl rfl rfl rfl rfl rfl⟩
  · rintro ⟨s, woken⟩ a ⟨s', woken'⟩ ⟨tended, stage⟩ attended step
    have moved : s.step driver mode a = some s' := (Sys.step_history step).1
    have recorded : woken' = s.record driver mode a woken := (Sys.step_history step).2
    subst recorded
    dsimp only at attended tended stage ⊢
    cases a with
    | run i c =>
        refine ⟨tended.run stage attended moved, ?_⟩
        obtain ⟨f, op, rest, s₁, push, thread, performed, rfl⟩ := State.step_run moved
        have record : s.record driver mode (.run i c) woken =
            s.woken f (s.returns driver mode i c f op rest) woken op := by
          simp only [State.record, thread]
        rw [record]
        exact stage.run thread performed
    | start id => exact ⟨tended.start moved, stage.start moved⟩
    | call f => exact ⟨tended.call moved, stage.call moved⟩

end Steps

/-! ## Quiescent states -/

/-- The operation belongs to a callback or to a `schedule` in progress. -/
def Op.busy : Op → Bool
  | .run _ _ => true
  | .casCancel => true
  | .loadCompleted => true
  | .casScheduled => true
  | .trackerBegin => true
  | .contextIsValid => true
  | .createWorkItem => true
  | .submit _ _ => true
  | .abandon => true
  | _ => false

/-- No work item is queued, no callback runs and no `schedule` is in progress. -/
structure Quiescent (s : State) : Prop where
  empty : ∀ item ∈ s.items, item.phase ≠ .queued
  idle : ∀ t ∈ s.threads, ∀ op ∈ t.code, op.busy = false

theorem Quiescent.nobody {s : State} (quiescent : Quiescent s) :
    load Op.serves s.threads + queuedItems s.items = 0 ∧
      load Op.obeys s.threads + queuedItems s.items = 0 := by
  have none : load Op.serves s.threads = 0 := by
    rw [load_eq_zero]
    intro t member op here
    have idle := quiescent.idle t member op here
    cases op <;> first | rfl | cases idle
  have empty : queuedItems s.items = 0 :=
    total_eq_zero.mpr fun item member => if_neg (quiescent.empty item member)
  have le := obeys_le_serves s.threads
  omega

/-- **No wake and no cancel is lost** in the runs in which no `schedule` gives up on
what nobody else will do, and no wake returns after the poll that it has caused: in a
quiescent state in which the task is not completed, no wake has reached its outcome or
has returned since the start of the most recent poll, and `cancel` was never called. -/
theorem work_item_wakes_served {driver : Driver} {mode : Hardening} {s : State} {woken : Bool}
    (reached : (watched driver mode).Reach (fun p a => Attended driver mode p.1 a) (s, woken))
    (quiescent : Quiescent s) (unfinished : s.completed = false) :
    woken = false ∧ ∀ t ∈ s.threads, ∀ k, t.tag ≠ .cancel k := by
  obtain ⟨tended, -⟩ := tended_of_reach reached
  obtain ⟨noServer, noCheck⟩ := quiescent.nobody
  constructor
  · cases woken with
    | false => rfl
    | true => exact absurd noServer (Nat.ne_of_gt (tended.owed rfl unfinished))
  · intro t member k cancel
    rcases tended.called t member (by rw [cancel]; rfl) with requested | pending
    · exact absurd noCheck (Nat.ne_of_gt (tended.requested requested unfinished))
    · cases quiescent.idle t member _ pending

/-- `spawn_task_cancellable` as thread 0, and the callback of its work item as thread 1:
the first poll is pending, the callback ends and the handle stays. -/
def pendingPoll : List State.Label :=
  [.call (.spawn .cancellable), go 0, go 0, go 0, go 0, go 0, go 0, go 0, go 0, go 0, go 0, go 0,
    go 0, go 0, .start 0, go 1, go 1, go 1, go 1, go 1]

/-- A task that wakes itself during its first poll is polled again. -/
theorem work_item_wakes_served_of_second_poll :
    ∃ s woken, (watched .wdm .off).Reach (fun p a => Attended .wdm .off p.1 a) (s, woken) ∧
      (∃ t ∈ s.threads, t.tag.wakes = true) ∧ woken = false ∧
      ∀ t ∈ s.threads, ∀ k, t.tag ≠ .cancel k := by
  obtain ⟨⟨s, woken⟩, reached, wakes, unfinished, empty, idle⟩ := Sys.Reach.exists_of_execIf
    (fun p : State × Bool => (∃ t ∈ p.1.threads, t.tag.wakes = true) ∧ p.1.completed = false ∧
      (∀ item ∈ p.1.items, item.phase ≠ .queued) ∧
      ∀ t ∈ p.1.threads, ∀ op ∈ t.code, op.busy = false)
    (pendingPoll ++ [.call (.wakeByRef (.activation 1)), go 2, go 2, go 2, go 2, go 2, go 2, go 2,
      go 1, go 1, go 1, go 1, go 1, .start 1, go 3, go 3, go 3, go 3, go 3, go 3, go 3, go 3, go 3])
    (.start ⟨rfl, rfl⟩ :
      (watched .wdm .off).Reach (fun p a => Attended .wdm .off p.1 a) (initial, false))
    (by decide)
  exact ⟨s, woken, reached, wakes, work_item_wakes_served reached ⟨empty, idle⟩ unfinished⟩

/-- The work item for a cancel, or for a wake, cannot be created: the flag of the cancel
is spent and nothing will look at it, and the task sleeps. -/
theorem work_item_wakes_lost :
    (¬ ∀ s woken, (watched .wdm .off).Reachable (s, woken) → Quiescent s → s.completed = false →
      ∀ t ∈ s.threads, ∀ k, t.tag ≠ .cancel k) ∧
    (¬ ∀ s woken, (watched .wdm .off).Reachable (s, woken) → Quiescent s → s.completed = false →
      woken = false) := by
  constructor
  · intro never
    obtain ⟨⟨s, woken⟩, reached, ⟨t, member, cancel⟩, unfinished, empty, idle⟩ :=
      Sys.Reach.exists_of_exec
        (fun p : State × Bool => (∃ t ∈ p.1.threads, t.tag = .cancel 0) ∧ p.1.completed = false ∧
          (∀ item ∈ p.1.items, item.phase ≠ .queued) ∧
          ∀ t ∈ p.1.threads, ∀ op ∈ t.code, op.busy = false)
        (pendingPoll ++ [go 1, go 1, go 1, go 1, go 1,
          .call (.cancel 0), go 2, go 2, go 2, go 2, .run 2 .fail, go 2])
        (.start ⟨rfl, rfl⟩ : (watched .wdm .off).Reachable (initial, false)) (by decide)
    exact never s woken reached ⟨empty, idle⟩ unfinished t member 0 cancel
  · intro never
    obtain ⟨⟨s, woken⟩, reached, woke, unfinished, empty, idle⟩ :=
      Sys.Reach.exists_of_exec
        (fun p : State × Bool => p.2 = true ∧ p.1.completed = false ∧
          (∀ item ∈ p.1.items, item.phase ≠ .queued) ∧
          ∀ t ∈ p.1.threads, ∀ op ∈ t.code, op.busy = false)
        (pendingPoll ++ [.call (.cloneWaker (.activation 1)), go 2, go 1, go 1, go 1, go 1, go 1,
          .call (.wakeByRef (.owner 1)), go 3, go 3, go 3, .run 3 .fail, go 3])
        (.start ⟨rfl, rfl⟩ : (watched .wdm .off).Reachable (initial, false)) (by decide)
    have asleep : woken = false := never s woken reached ⟨empty, idle⟩ unfinished
    exact absurd woke (by rw [asleep]; exact Bool.false_ne_true)

end Kcom.WorkItem
