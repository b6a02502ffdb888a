import Kcom.Executor.Timer.Memory

/-!
# Waking the latest waker

A poll loads `fired` before it stores its waker, and the routine stores `fired` before
it takes the waker lock. So a poll that has read 0 may find that the routine has been
through the lock already: its waker is stored too late, and nobody wakes it.
`latest_waker_woken` says that this is the only way to lose a wake.
-/

namespace Kcom.Timer

open Conc

/-- A poll has read `fired` and has not yet stored its waker. -/
def Client.enters : Client → Bool
  | .lockWaker _ => true
  | .storeWaker _ => true
  | _ => false

/-- The waker that the poll has stored. -/
def Client.registered : Client → Option Nat
  | .unlockWaker w => some w
  | .casArmed w => some w
  | .addRef w => some w
  | .initializeTimer w => some w
  | .initializeDpc w => some w
  | .setTimer w => some w
  | _ => none

def Client.drops : Client → Bool
  | .cancelTimer => true
  | .removeQueueDpc _ => true
  | .release _ => true
  | .free _ => true
  | .releaseDpc => true
  | .freeDpc => true
  | .gone => true
  | _ => false

/-- The owner is in neither of `poll`'s steps. -/
def Client.rests : Client → Bool
  | .idle => true
  | .storeCancelled => true
  | client => client.drops

/-- The activation has taken the lock, or has skipped it. -/
def Routine.late : Routine → Bool
  | .storeFired => false
  | .loadCancelled => false
  | .lockWaker => false
  | _ => true

def Routine.woke : Routine → Bool
  | .wake => false
  | r => r.late

/-- A poll has read `fired` and is about to take the lock. -/
def Client.waits : Client → Bool
  | .lockWaker _ => true
  | _ => false

/-- No activation takes the lock while a poll that has read `fired` as 0 is still
waiting for it. -/
def Undisturbed (s : State) : Label → Prop
  | .routine i => s.routines[i]? = some .lockWaker → s.client.waits = false
  | _ => True

instance (s : State) : (a : Label) → Decidable (Undisturbed s a)
  | .routine i => inferInstanceAs
      (Decidable (s.routines[i]? = some .lockWaker → s.client.waits = false))
  | .poll _ => .isTrue trivial
  | .drop => .isTrue trivial
  | .client => .isTrue trivial
  | .expire => .isTrue trivial
  | .queueDpc => .isTrue trivial
  | .dequeue => .isTrue trivial

/-- What the order of the steps leaves behind. -/
structure Ordered (s : State) : Prop where
  registered : ∀ w, s.client.registered = some w → s.waker = some w
  pending : ∀ w, s.pending = some w → s.waker = some w ∧ s.client.rests = true
  alive : s.cancelled = true → s.client.drops = true
  fired : ∀ r ∈ s.routines, r ≠ .storeFired → s.fired = true
  late : ∀ r ∈ s.routines, r.late = true → s.cancelled = true ∨ s.client.enters = false
  woke : ∀ r ∈ s.routines, r.woke = true → s.cancelled = true ∨
    ∀ w, s.waker = some w → w ∈ s.woken

theorem Ordered.initial : Ordered initial := by
  constructor <;> simp [Timer.initial, Client.registered, Client.drops, Client.rests]

variable {mode : Hardening} {s s' : State}

/-- Steps of the owner that leave the slot alone. -/
theorem Ordered.move (ordered : Ordered s) (routines : s'.routines = s.routines)
    (fired : s'.fired = s.fired) (cancelled : s'.cancelled = s.cancelled)
    (waker : s'.waker = s.waker) (woken : s'.woken = s.woken)
    (registered : ∀ w, s'.client.registered = some w → s.waker = some w)
    (pending : ∀ w, s'.pending = some w → s.waker = some w ∧ s'.client.rests = true)
    (drops : s.client.drops = true → s'.client.drops = true)
    (enters : s'.client.enters = true → s.client.enters = true ∨ s.fired = false) :
    Ordered s' := by
  refine ⟨?_, ?_, ?_, ?_, ?_, ?_⟩
  · rwa [waker]
  · rwa [waker]
  · intro isCancelled
    exact drops (ordered.alive (cancelled ▸ isCancelled))
  · rw [routines, fired]
    exact ordered.fired
  · rw [routines, cancelled]
    intro r member late
    rcases ordered.late r member late with isCancelled | outside
    · exact .inl isCancelled
    · right
      cases inside : s'.client.enters with
      | false => rfl
      | true =>
          exfalso
          rcases enters inside with before | unfired
          · rw [outside] at before
            cases before
          · have started : r ≠ .storeFired := by
              rintro rfl
              cases late
            rw [ordered.fired r member started] at unfired
            cases unfired
  · rw [routines, cancelled, waker, woken]
    exact ordered.woke

/-- A poll under way has not returned yet. -/
theorem Ordered.not_returned (ordered : Ordered s) (polls : s.client.rests = false) :
    s.pending = none := by
  cases pending : s.pending with
  | none => rfl
  | some w =>
      have rests := (ordered.pending w pending).2
      rw [polls] at rests
      cases rests

theorem Ordered.storeWaker {w : Nat} (ordered : Ordered s) (at_ : s.client = .storeWaker w) :
    Ordered { s with waker := some w, woken := [], client := .unlockWaker w } := by
  have alive : ¬s.cancelled = true := by
    intro isCancelled
    have drops := ordered.alive isCancelled
    rw [at_] at drops
    cases drops
  -- No activation has been through the lock, so nobody has looked into the slot.
  have early : ∀ r ∈ s.routines, r.late = false := by
    intro r member
    cases late : r.late with
    | false => rfl
    | true =>
        rcases ordered.late r member late with isCancelled | outside
        · exact absurd isCancelled alive
        · rw [at_] at outside
          cases outside
  have noPending : s.pending = none := ordered.not_returned (by rw [at_]; rfl)
  refine ⟨?_, ?_, fun isCancelled => absurd isCancelled alive, ordered.fired, fun _ _ _ => .inr rfl,
    ?_⟩
  · simp [Client.registered]
  · simp [noPending]
  · intro r member woke
    have late : r.late = true := by
      cases r <;> first | rfl | cases woke
    rw [early r member] at late
    cases late

/-- Steps of the drop. -/
theorem Ordered.leave (ordered : Ordered s) (routines : s'.routines = s.routines)
    (fired : s'.fired = s.fired) (waker : s'.waker = s.waker) (woken : s'.woken = s.woken)
    (pending : s'.pending = s.pending) (cancelled : s.cancelled = true → s'.cancelled = true)
    (drops : s'.client.drops = true) : Ordered s' := by
  have outside : s'.client.registered = none ∧ s'.client.enters = false ∧
      s'.client.rests = true := by
    cases at_ : s'.client <;>
      first
        | exact ⟨rfl, rfl, rfl⟩
        | (rw [at_] at drops; cases drops)
  obtain ⟨unregistered, outside, rests⟩ := outside
  refine ⟨?_, ?_, fun _ => drops, ?_, fun _ _ _ => .inr outside, ?_⟩
  · rw [unregistered]
    intro w none
    cases none
  · rw [pending, waker]
    exact fun w returned => ⟨(ordered.pending w returned).1, rests⟩
  · rw [routines, fired]
    exact ordered.fired
  · rw [routines, waker, woken]
    exact fun r member woke => (ordered.woke r member woke).imp_left cancelled

theorem Ordered.client (ordered : Ordered s) (step : s.stepClient mode = some s') :
    Ordered s' := by
  have stored := ordered.registered
  have polls : s.client.rests = false → s.pending = none := ordered.not_returned
  unfold State.stepClient at step
  cases at_ : s.client with
  | idle => simp [at_] at step
  | gone => simp [at_] at step
  | loadFired w =>
      have noPending := polls (by rw [at_]; rfl)
      simp only [at_] at step
      cases step
      refine ordered.move rfl rfl rfl rfl rfl ?_ ?_ ?_ ?_ <;> cases fired : s.fired <;>
        simp [at_, noPending, Client.registered, Client.drops, Client.enters]
  | lockWaker w =>
      have noPending := polls (by rw [at_]; rfl)
      simp only [at_] at step
      split at step
      · cases step
      · cases step
        refine ordered.move rfl rfl rfl rfl rfl ?_ ?_ ?_ ?_ <;>
          simp [at_, noPending, Client.registered, Client.drops, Client.enters]
  | storeWaker w =>
      simp only [at_] at step
      cases step
      exact ordered.storeWaker at_
  | unlockWaker w | initializeTimer w | initializeDpc w =>
      have waker : s.waker = some w := stored w (by rw [at_]; rfl)
      have noPending := polls (by rw [at_]; rfl)
      simp only [at_] at step
      cases step
      refine ordered.move rfl rfl rfl rfl rfl ?_ ?_ ?_ ?_ <;>
        simp [at_, waker, noPending, Client.registered, Client.drops, Client.enters]
  | casArmed w =>
      have waker : s.waker = some w := stored w (by rw [at_]; rfl)
      have noPending := polls (by rw [at_]; rfl)
      simp only [at_] at step
      split at step
      · cases step
        refine ordered.move rfl rfl rfl rfl rfl ?_ ?_ ?_ ?_ <;>
          simp [at_, waker, Client.registered, Client.drops, Client.enters, Client.rests]
      · cases step
        refine ordered.move rfl rfl rfl rfl rfl ?_ ?_ ?_ ?_ <;>
          simp [at_, waker, noPending, Client.registered, Client.drops, Client.enters]
  | addRef w =>
      have waker : s.waker = some w := stored w (by rw [at_]; rfl)
      have noPending := polls (by rw [at_]; rfl)
      simp only [at_, Option.map_eq_some_iff] at step
      obtain ⟨_, _, rfl⟩ := step
      refine ordered.move rfl rfl rfl rfl rfl ?_ ?_ ?_ ?_ <;>
        simp [at_, waker, noPending, Client.registered, Client.drops, Client.enters]
  | setTimer w =>
      have waker : s.waker = some w := stored w (by rw [at_]; rfl)
      simp only [at_] at step
      cases step
      refine ordered.move rfl rfl rfl rfl rfl ?_ ?_ ?_ ?_ <;>
        simp [at_, waker, Client.registered, Client.drops, Client.enters, Client.rests]
  | storeCancelled =>
      simp only [at_] at step
      cases step
      exact ordered.leave rfl rfl rfl rfl rfl (fun _ => rfl) rfl
  | cancelTimer =>
      simp only [at_] at step
      split at step <;> cases step <;> exact ordered.leave rfl rfl rfl rfl rfl id rfl
  | removeQueueDpc cancelled =>
      simp only [at_] at step
      cases step
      exact ordered.leave rfl rfl rfl rfl rfl id rfl
  | release second =>
      simp only [at_, Option.map_eq_some_iff] at step
      obtain ⟨_, _, rfl⟩ := step
      exact ordered.leave rfl rfl rfl rfl rfl id (by dsimp only; split <;> cases second <;> rfl)
  | free second =>
      simp only [at_] at step
      cases step
      exact ordered.leave rfl rfl rfl rfl rfl id (by cases second <;> rfl)
  | releaseDpc =>
      simp only [at_, Option.map_eq_some_iff] at step
      obtain ⟨_, _, rfl⟩ := step
      exact ordered.leave rfl rfl rfl rfl rfl id (by dsimp only; split <;> rfl)
  | freeDpc =>
      simp only [at_] at step
      cases step
      exact ordered.leave rfl rfl rfl rfl rfl id rfl

/-- An activation goes on to `r'`. -/
theorem Ordered.activation {i : Nat} {r' : Routine} (ordered : Ordered s)
    (routines : s'.routines = s.routines.set i r') (client : s'.client = s.client)
    (pending : s'.pending = s.pending) (cancelled : s'.cancelled = s.cancelled)
    (waker : s'.waker = s.waker) (woken : ∀ w ∈ s.woken, w ∈ s'.woken)
    (fired : s.fired = true → s'.fired = true) (firedNow : r' ≠ .storeFired → s'.fired = true)
    (late : r'.late = true → s.cancelled = true ∨ s.client.enters = false)
    (woke : r'.woke = true → s.cancelled = true ∨ ∀ w, s.waker = some w → w ∈ s'.woken) :
    Ordered s' := by
  have split : ∀ r ∈ s'.routines, r ∈ s.routines ∨ r = r' := by
    rw [routines]
    exact fun r member => List.mem_or_eq_of_mem_set member
  refine ⟨?_, ?_, ?_, ?_, ?_, ?_⟩
  · rw [client, waker]
    exact ordered.registered
  · rw [client, waker, pending]
    exact ordered.pending
  · rw [client, cancelled]
    exact ordered.alive
  · intro r member started
    rcases split r member with before | rfl
    · exact fired (ordered.fired r before started)
    · exact firedNow started
  · intro r member isLate
    rw [cancelled, client]
    rcases split r member with before | rfl
    · exact ordered.late r before isLate
    · exact late isLate
  · intro r member isWoke
    rw [cancelled, waker]
    rcases split r member with before | rfl
    · exact (ordered.woke r before isWoke).imp_right fun all w slot => woken w (all w slot)
    · exact woke isWoke

/-- Steps of an activation. -/
theorem Ordered.routine {i : Nat} {r : Routine} (ordered : Ordered s)
    (locked : s.locked.toNat = s.holders) (at_ : s.routines[i]? = some r)
    (undisturbed : Undisturbed s (.routine i)) (step : s.stepRoutine mode i r = some s') :
    Ordered s' := by
  have member : r ∈ s.routines := List.mem_of_getElem? at_
  have fired := ordered.fired r member
  have late := ordered.late r member
  have woke := ordered.woke r member
  cases r with
  | storeFired =>
      cases step
      refine ordered.activation rfl rfl rfl rfl rfl ?_ ?_ ?_ ?_ ?_ <;>
        simp [Routine.late, Routine.woke]
  | loadCancelled =>
      cases step
      refine ordered.activation rfl rfl rfl rfl rfl ?_ ?_ ?_ ?_ ?_ <;>
        cases cancelled : s.cancelled <;> simp [fired, Routine.late, Routine.woke]
  | lockWaker =>
      simp only [State.stepRoutine] at step
      split at step
      · cases step
      · next unlocked =>
          cases step
          have free : s.client.holds = 0 := by
            simp only [unlocked, Bool.toNat_false, State.holders] at locked
            omega
          -- The owner is not inside of the lock, nor about to enter it.
          have outside : s.client.enters = false := by
            cases client : s.client with
            | lockWaker w =>
                have passed := undisturbed at_
                rw [client] at passed
                cases passed
            | storeWaker w =>
                rw [client] at free
                cases free
            | _ => rfl
          refine ordered.activation rfl rfl rfl rfl rfl ?_ ?_ ?_ ?_ ?_ <;>
            simp [fired, outside, Routine.woke]
  | wake =>
      cases step
      refine ordered.activation rfl rfl rfl rfl rfl ?_ ?_ ?_ ?_ ?_
      · exact fun w before => List.mem_append_right _ before
      · exact id
      · simp [fired]
      · exact fun _ => late rfl
      · intro _
        right
        intro w slot
        simp [slot]
  | unlockWaker =>
      cases step
      refine ordered.activation rfl rfl rfl rfl rfl ?_ ?_ ?_ ?_ ?_
      · exact fun w before => before
      · exact id
      · simp [fired]
      · exact fun _ => late rfl
      · exact fun _ => woke rfl
  | release =>
      simp only [State.stepRoutine, Option.map_eq_some_iff] at step
      obtain ⟨_, _, rfl⟩ := step
      refine ordered.activation rfl rfl rfl rfl rfl ?_ ?_ ?_ ?_ ?_
      · exact fun w before => before
      · exact id
      · simp [fired]
      · exact fun _ => late rfl
      · exact fun _ => woke rfl
  | free =>
      cases step
      refine ordered.activation rfl rfl rfl rfl rfl ?_ ?_ ?_ ?_ ?_
      · exact fun w before => before
      · exact id
      · simp [fired]
      · exact fun _ => late rfl
      · exact fun _ => woke rfl
  | done => cases step

theorem Ordered.step {a : Label} (ordered : Ordered s) (locked : s.locked.toNat = s.holders)
    (undisturbed : Undisturbed s a) (step : s.step mode a = some s') : Ordered s' := by
  cases a with
  | client => exact ordered.client step
  | routine i =>
      obtain ⟨r, activation, step⟩ := Option.bind_eq_some_iff.mp step
      exact ordered.routine locked activation undisturbed step
  | poll w =>
      simp only [State.step] at step
      split at step
      · next idle =>
          cases step
          refine ordered.move rfl rfl rfl rfl rfl ?_ ?_ ?_ ?_ <;>
            simp [idle, Client.registered, Client.drops, Client.enters]
      · cases step
  | drop =>
      simp only [State.step] at step
      split at step
      · next idle =>
          cases step
          have kept : ∀ w, s.pending = some w → s.waker = some w :=
            fun w returned => (ordered.pending w returned).1
          refine ordered.move rfl rfl rfl rfl rfl ?_ ?_ ?_ ?_
          · simp [Client.registered]
          · exact fun w returned => ⟨kept w returned, rfl⟩
          · simp [idle, Client.drops]
          · simp [Client.enters]
      · cases step
  | expire =>
      simp only [State.step] at step
      split at step
      · cases step
        exact ⟨ordered.registered, ordered.pending, ordered.alive, ordered.fired, ordered.late,
          ordered.woke⟩
      · cases step
  | queueDpc =>
      simp only [State.step] at step
      split at step
      · cases step
        exact ⟨ordered.registered, ordered.pending, ordered.alive, ordered.fired, ordered.late,
          ordered.woke⟩
      · cases step
  | dequeue =>
      simp only [State.step] at step
      split at step
      · cases step
        have split : ∀ r ∈ s.routines ++ [Routine.storeFired],
            r ∈ s.routines ∨ r = .storeFired := by simp
        refine ⟨ordered.registered, ordered.pending, ordered.alive, ?_, ?_, ?_⟩
        · intro r member started
          exact ordered.fired r ((split r member).resolve_right started) started
        · intro r member late
          rcases split r member with before | rfl
          · exact ordered.late r before late
          · cases late
        · intro r member woke
          rcases split r member with before | rfl
          · exact ordered.woke r before woke
          · cases woke
      · cases step

/-- **The latest waker is woken.** In a run without a disturbed step, when the routine
has finished and the most recent poll has returned `Pending`, the waker of this poll
has been woken since the poll stored it. -/
theorem latest_waker_woken {w : Nat} (reached : (system mode).Reach Undisturbed s)
    (finished : .done ∈ s.routines) (undropped : s.client = .idle) (pending : s.pending = some w) :
    w ∈ s.woken := by
  have ordered : Ordered s := by
    have both := reached.invariant (I := fun s => Ordered s ∧ s.locked.toNat = s.holders)
      (by
        rintro s rfl
        exact ⟨Ordered.initial, rfl⟩)
      (by
        rintro s a s' ⟨ordered, locked⟩ undisturbed step
        exact ⟨ordered.step locked undisturbed step, locked_step locked step⟩)
    exact both.1
  have slot := (ordered.pending w pending).1
  rcases ordered.woke .done finished rfl with cancelled | woken
  · have drops := ordered.alive cancelled
    rw [undropped] at drops
    cases drops
  · exact woken w slot

/-- The first poll of a timer. -/
def firstPoll : List Label :=
  .poll 1 :: List.replicate 9 .client

/-- The timer fires and wakes the waker of the first poll. -/
theorem latest_waker_woken_of_expiry :
    ∃ s, (system .off).Reach Undisturbed s ∧ s.pending = some 1 ∧ 1 ∈ s.woken := by
  obtain ⟨s, reached, finished, undropped, pending⟩ := Sys.Reach.exists_of_execIf
    (fun s : State => .done ∈ s.routines ∧ s.client = .idle ∧ s.pending = some 1)
    (firstPoll ++ [.expire, .queueDpc, .dequeue] ++ List.replicate 6 (.routine 0))
    (.start rfl : (system .off).Reach Undisturbed initial) (by decide)
  exact ⟨s, reached, pending, latest_waker_woken reached finished undropped pending⟩

/-- The second poll reads `fired`; the routine fires and wakes the first waker; the
second poll stores its waker and returns `Pending`. -/
theorem latest_waker_not_woken :
    ¬ ∀ s w, (system .off).Reachable s → .done ∈ s.routines → s.client = .idle →
      s.pending = some w → w ∈ s.woken := by
  intro woken
  obtain ⟨s, reached, finished, undropped, pending, asleep⟩ := Sys.Reach.exists_of_exec
    (fun s : State => .done ∈ s.routines ∧ s.client = .idle ∧ s.pending = some 2 ∧ 2 ∉ s.woken)
    (firstPoll ++ [.expire, .queueDpc, .dequeue, .poll 2, .client] ++
      List.replicate 6 (.routine 0) ++ List.replicate 4 .client)
    (.start rfl : (system .off).Reachable initial) (by decide)
  exact asleep (woken s 2 reached finished undropped pending)

end Kcom.Timer
