import Kcom.Executor.Timer.Wake

/-!
# What a timer leaves behind

Facts about a kernel timer that no order of its steps breaks: the slot is never emptied once a
poll has stored its waker, a poll that has returned `Pending` has armed the timer, the routine
works with `fired` set, and the reference of the DPC is given back by the drop or by a routine
that has ended. `pending_underway` is what follows for a future that waits: its timer is on its
way, or the routine has ended.
-/

namespace Kcom.Timer

open Conc

/-- The poll has marked the timer as armed and is setting it. -/
def Client.arming : Client → Bool
  | .addRef _ => true
  | .initializeTimer _ => true
  | .initializeDpc _ => true
  | .setTimer _ => true
  | _ => false

/-- The activation has given the reference of the DPC back. -/
def Routine.ended : Routine → Bool
  | .free => true
  | .done => true
  | _ => false

/-- The timer is set, or has expired, or its DPC is queued, or the routine has not ended. -/
def State.underway (s : State) : Bool :=
  s.timer ≠ .notQueued || s.dpcQueued || s.routines.any fun r => !r.ended

structure Marks (s : State) : Prop where
  slot : s.armed = true ∨ s.client.registered ≠ none → s.waker ≠ none
  armed : s.pending ≠ none ∨ s.client.arming = true → s.armed = true
  fired : ∀ r ∈ s.routines, r ≠ .storeFired → s.fired = true
  dropped : s.cancelled = true ∨ 0 < s.dropReleases → s.client.drops = true
  ended : 0 < s.routineReleases → ∃ r ∈ s.routines, r.ended = true

section Steps

variable {mode : Hardening} {s s' : State} {i w : Nat} {r : Routine}

theorem Marks.initial : Marks initial where
  slot := by simp [Timer.initial, Client.registered]
  armed := by simp [Timer.initial, Client.arming]
  fired := by simp [Timer.initial]
  dropped := by simp [Timer.initial]
  ended := by simp [Timer.initial]

/-- The steps of `poll` and `drop` leave the routine's side alone. -/
theorem routines_of_stepClient (step : s.stepClient mode = some s') :
    s'.routines = s.routines ∧ s'.fired = s.fired ∧ s'.routineReleases = s.routineReleases := by
  unfold State.stepClient at step
  cases at_ : s.client <;>
    simp only [at_, Option.map_eq_some_iff, reduceCtorEq, Option.ite_none_left_eq_some,
      Option.some.injEq] at step <;>
    grind

theorem Marks.client (marks : Marks s) (step : s.stepClient mode = some s') : Marks s' := by
  obtain ⟨slot, armed, fired, dropped, ended⟩ := marks
  obtain ⟨routines, same, releases⟩ := routines_of_stepClient step
  have owner : (s'.armed = true ∨ s'.client.registered ≠ none → s'.waker ≠ none) ∧
      (s'.pending ≠ none ∨ s'.client.arming = true → s'.armed = true) ∧
      (s'.cancelled = true ∨ 0 < s'.dropReleases → s'.client.drops = true) := by
    unfold State.stepClient at step
    cases at_ : s.client <;>
      simp only [at_, Option.map_eq_some_iff, reduceCtorEq, Option.ite_none_left_eq_some,
        Option.some.injEq] at step <;>
      grind [Client.registered, Client.arming, Client.drops]
  refine ⟨owner.1, owner.2.1, ?_, owner.2.2, ?_⟩
  · rw [routines, same]
    exact fired
  · rw [routines, releases]
    exact ended

/-- An activation goes on to `r'`. -/
theorem Marks.activation {r' : Routine} (marks : Marks s) (active : s.routines[i]? = some r)
    (routines : s'.routines = s.routines.set i r')
    (owner : (s'.armed, s'.waker, s'.pending, s'.client, s'.cancelled, s'.dropReleases) =
      (s.armed, s.waker, s.pending, s.client, s.cancelled, s.dropReleases))
    (fired : s'.fired = true)
    (ended : (r.ended = false ∨ r'.ended = true) ∧
      (r'.ended = true ∨ s'.routineReleases = s.routineReleases)) : Marks s' := by
  simp only [Prod.mk.injEq] at owner
  obtain ⟨isArmed, waker, pending, client, cancelled, dropReleases⟩ := owner
  have bound := (List.getElem?_eq_some_iff.mp active).1
  have here : r' ∈ s.routines.set i r' := List.mem_set bound _
  refine ⟨?_, ?_, fun _ _ _ => fired, ?_, ?_⟩
  · rw [isArmed, client, waker]
    exact marks.slot
  · rw [pending, client, isArmed]
    exact marks.armed
  · rw [cancelled, dropReleases, client]
    exact marks.dropped
  · intro released
    rw [routines]
    rcases ended.2 with now | same
    · exact ⟨r', here, now⟩
    · rw [same] at released
      obtain ⟨q, member, done⟩ := marks.ended released
      obtain ⟨j, there⟩ := List.mem_iff_getElem?.mp member
      rcases eq_or_ne j i with rfl | other
      · cases active.symm.trans there
        rcases ended.1 with going | now
        · rw [going] at done
          cases done
        · exact ⟨r', here, now⟩
      · refine ⟨q, List.mem_of_getElem? (i := j) ?_, done⟩
        rw [List.getElem?_set_ne other.symm]
        exact there

theorem Marks.routine (marks : Marks s) (active : s.routines[i]? = some r)
    (step : s.stepRoutine mode i r = some s') : Marks s' := by
  have started : r ≠ .storeFired → s.fired = true := marks.fired r (List.mem_of_getElem? active)
  cases r with
  | storeFired =>
      cases step
      exact marks.activation active rfl rfl rfl ⟨.inl rfl, .inr rfl⟩
  | loadCancelled =>
      cases step
      exact marks.activation active rfl rfl (started (by simp)) ⟨.inl rfl, .inr rfl⟩
  | lockWaker =>
      simp only [State.stepRoutine] at step
      split at step <;> cases step
      exact marks.activation active rfl rfl (started (by simp)) ⟨.inl rfl, .inr rfl⟩
  | wake | unlockWaker =>
      cases step
      exact marks.activation active rfl rfl (started (by simp)) ⟨.inl rfl, .inr rfl⟩
  | release =>
      simp only [State.stepRoutine, Option.map_eq_some_iff] at step
      obtain ⟨⟨count, refCount⟩, -, rfl⟩ := step
      refine marks.activation active rfl rfl (started (by simp)) ⟨.inl rfl, .inl ?_⟩
      split <;> rfl
  | free =>
      cases step
      exact marks.activation active rfl rfl (started (by simp)) ⟨.inr rfl, .inl rfl⟩
  | done => cases step

theorem Marks.step {a : Label} (marks : Marks s) (step : s.step mode a = some s') : Marks s' := by
  cases a with
  | client => exact marks.client step
  | routine i =>
      obtain ⟨r, active, step⟩ := Option.bind_eq_some_iff.mp step
      exact marks.routine active step
  | poll w =>
      simp only [State.step] at step
      split at step <;> cases step
      refine ⟨fun set => marks.slot (set.imp id (absurd rfl)), ?_, marks.fired, ?_, marks.ended⟩
      · intro set
        rcases set with none | arming
        · exact absurd rfl none
        · cases arming
      · intro drop
        have before := marks.dropped drop
        rename_i idle
        rw [idle] at before
        cases before
  | drop =>
      simp only [State.step] at step
      split at step <;> cases step
      refine ⟨fun set => marks.slot (set.imp id (absurd rfl)), ?_, marks.fired, ?_, marks.ended⟩
      · intro set
        rcases set with returned | arming
        · exact marks.armed (.inl returned)
        · cases arming
      · intro drop
        have before := marks.dropped drop
        rename_i idle
        rw [idle] at before
        cases before
  | expire | queueDpc =>
      simp only [State.step] at step
      split at step <;> cases step
      exact ⟨marks.slot, marks.armed, marks.fired, marks.dropped, marks.ended⟩
  | dequeue =>
      simp only [State.step] at step
      split at step <;> cases step
      refine ⟨marks.slot, marks.armed, ?_, marks.dropped, ?_⟩
      · intro r member started
        rcases List.mem_append.mp member with old | new
        · exact marks.fired r old started
        · exact absurd (List.mem_singleton.mp new) started
      · intro released
        obtain ⟨r, member, done⟩ := marks.ended released
        exact ⟨r, List.mem_append_left _ member, done⟩

theorem marks_of_reach (reached : (system mode).Reachable s) : Marks s := by
  refine Sys.Reach.invariant ?_ (fun _ _ _ marks _ step => marks.step step) reached
  rintro s rfl
  exact Marks.initial

/-- What a step leaves as it is, or sets for good. -/
theorem kept_of_step {a : Label} (step : s.step mode a = some s') :
    (s.fired = true → s'.fired = true) ∧ (s.cancelled = true → s'.cancelled = true) ∧
      s.frees ≤ s'.frees ∧
      (s'.waker = s.waker ∨ a = .client ∧ ∃ w, s.client = .storeWaker w ∧ s'.waker = some w) := by
  cases a with
  | client =>
      have step : s.stepClient mode = some s' := step
      unfold State.stepClient at step
      cases at_ : s.client <;>
        simp only [at_, Option.map_eq_some_iff, reduceCtorEq, Option.ite_none_left_eq_some,
          Option.some.injEq] at step <;>
        grind
  | routine i =>
      obtain ⟨r, active, step⟩ := Option.bind_eq_some_iff.mp step
      cases r <;>
        simp only [State.stepRoutine, Option.map_eq_some_iff, reduceCtorEq,
          Option.ite_none_left_eq_some, Option.some.injEq] at step <;>
        grind
  | poll | drop | expire | queueDpc | dequeue =>
      simp only [State.step] at step
      split at step <;> cases step
      exact ⟨id, id, Nat.le_refl _, .inl rfl⟩

theorem Client.rests_of_drops {client : Client} (drops : client.drops = true) :
    client.rests = true := by
  cases client <;> first | rfl | cases drops

/-- A step of `poll` or `drop` stays in its call, or returns. -/
theorem client_of_stepClient (step : s.stepClient mode = some s') :
    s.client ≠ .idle ∧ s.client ≠ .gone ∧
      ((s.client.rests = false ∧ (s'.client = .idle ∨ s'.client.rests = false)) ∨
        (s.client.rests = true ∧ s'.client.drops = true)) := by
  unfold State.stepClient at step
  cases at_ : s.client <;>
    simp only [at_, Option.map_eq_some_iff, reduceCtorEq, Option.ite_none_left_eq_some,
      Option.some.injEq] at step <;>
    grind [Client.rests, Client.drops]

/-- The steps of the kernel and of the routine are none of the owner. -/
theorem client_of_step {a : Label} (step : s.step mode a = some s') (other : a ≠ .client)
    (unpolled : ∀ w, a ≠ .poll w) (undropped : a ≠ .drop) :
    s'.client = s.client ∧ s'.pending = s.pending := by
  cases a with
  | client => exact absurd rfl other
  | poll w => exact absurd rfl (unpolled w)
  | drop => exact absurd rfl undropped
  | routine i =>
      obtain ⟨r, active, step⟩ := Option.bind_eq_some_iff.mp step
      cases r <;>
        simp only [State.stepRoutine, Option.map_eq_some_iff, reduceCtorEq,
          Option.ite_none_left_eq_some, Option.some.injEq] at step <;>
        grind
  | expire | queueDpc | dequeue =>
      simp only [State.step] at step
      split at step <;> cases step
      exact ⟨rfl, rfl⟩

/-- How an activation gets past the lock. -/
theorem woke_of_step {a : Label} {r : Routine} (step : s.step mode a = some s')
    (member : r ∈ s'.routines) (woke : r.woke = true) :
    (∃ q ∈ s.routines, q.woke = true) ∨ s.cancelled = true ∨
      ∃ i, a = .routine i ∧ s.routines[i]? = some .wake := by
  cases a with
  | client =>
      rw [(routines_of_stepClient step).1] at member
      exact .inl ⟨r, member, woke⟩
  | routine i =>
      obtain ⟨q, active, step⟩ := Option.bind_eq_some_iff.mp step
      have old := List.mem_of_getElem? active
      cases late : q.woke with
      | true => exact .inl ⟨q, old, late⟩
      | false =>
          by_cases wakes : q = .wake
          · exact .inr (.inr ⟨i, rfl, wakes ▸ active⟩)
          · have later : r ∈ s.routines ∨ s.cancelled = true := by
              cases q <;>
                simp only [State.stepRoutine, Option.map_eq_some_iff, reduceCtorEq,
                  Option.ite_none_left_eq_some, Option.some.injEq] at step <;>
                grind [Routine.woke, Routine.late, List.mem_or_eq_of_mem_set]
            rcases later with same | cancelled
            · exact .inl ⟨r, same, woke⟩
            · exact .inr (.inl cancelled)
  | poll | drop | expire | queueDpc =>
      simp only [State.step] at step
      split at step <;> cases step
      exact .inl ⟨r, member, woke⟩
  | dequeue =>
      simp only [State.step] at step
      split at step <;> cases step
      rcases List.mem_append.mp member with same | new
      · exact .inl ⟨r, same, woke⟩
      · cases List.mem_singleton.mp new
        cases woke

/-- While an activation has its reference, there is a waker in the slot and the block is there. -/
theorem kept_of_routine {r : Routine} (reached : (system mode).Reachable s)
    (member : r ∈ s.routines) (going : r.ended = false) : s.waker ≠ none ∧ s.frees = 0 := by
  have marks := marks_of_reach reached
  obtain ⟨count, once, freed, -, -⟩ := inv_of_reach reached
  obtain ⟨i, active⟩ := List.mem_iff_getElem?.mp member
  have one : r.dpc = 1 := by
    cases r <;> first | rfl | cases going
  have held := le_total Routine.dpc active
  have counted : s.counts.refCount ≠ 0 := by
    simp only [State.counts, State.dpcReference, one] at count held ⊢
    omega
  simp only [State.counts, State.dpcReference, one] at once held
  have armed : s.armed = true := by
    cases armed : s.armed with
    | true => rfl
    | false =>
        rw [armed, Bool.toNat_false] at once
        omega
  rw [if_neg counted] at freed
  exact ⟨marks.slot (.inl armed), (Nat.add_eq_zero_iff.mp freed).1⟩

/-- A future that waits has a timer on its way, or a routine that has ended. -/
theorem pending_underway (reached : (system mode).Reachable s) (undropped : s.client = .idle)
    (pending : s.pending ≠ none) : s.underway = true ∨ ∃ r ∈ s.routines, r.ended = true := by
  have marks := marks_of_reach reached
  have once := (inv_of_reach reached).once
  have armed := marks.armed (.inl pending)
  simp only [State.counts, State.dpcReference, undropped, Client.dpc, Client.arms, armed,
    Bool.toNat_true] at once
  by_cases released : 0 < s.routineReleases
  · exact .inr (marks.ended released)
  · left
    have kept : s.dropReleases = 0 := by
      by_contra dropped
      have drops := marks.dropped (.inr (Nat.pos_of_ne_zero dropped))
      rw [undropped] at drops
      cases drops
    unfold State.underway
    cases timer : s.timer with
    | queued | expired => simp
    | notQueued =>
        cases queued : s.dpcQueued with
        | true => simp
        | false =>
            rw [timer, queued] at once
            have active : 0 < total Routine.dpc s.routines := by
              simp only [TimerPhase.dpc_notQueued, Bool.toNat_false] at once
              omega
            obtain ⟨r, member, holds⟩ := exists_of_total_pos active
            have going : r.ended = false := by
              cases r <;> first | rfl | cases holds
            simp only [ne_eq, not_true_eq_false, decide_false, Bool.false_or, List.any_eq_true]
            exact ⟨r, member, by rw [going]; rfl⟩

end Steps

end Kcom.Timer
