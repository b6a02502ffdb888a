import Kcom.Executor.Timer.Model

/-!
# The memory of a kernel timer

The timer's block has at most two references: the future's, until its drop releases
it, and the DPC's, from `add_ref` on. The second one travels with the armed timer:
it is with the poll that arms the timer, with the timer in its queue, with the
expired timer, with the queued DPC, with the activation of the routine, or with the
drop that has taken the timer or the DPC out of its queue. `timer_memory` counts it.
-/

namespace Kcom.Timer

open Conc

/-! ## References -/

/-- The future's reference. -/
@[simp]
def Client.future : Client → Nat
  | .free _ => 0
  | .releaseDpc => 0
  | .freeDpc => 0
  | .gone => 0
  | _ => 1

/-- The DPC's reference, while the owner has it. -/
@[simp]
def Client.dpc : Client → Nat
  | .initializeTimer _ => 1
  | .initializeDpc _ => 1
  | .setTimer _ => 1
  | .removeQueueDpc cancelled => cancelled.toNat
  | .release second => second.toNat
  | .free second => second.toNat
  | .releaseDpc => 1
  | _ => 0

/-- The timer is marked as armed but has no reference yet. -/
@[simp]
def Client.arms : Client → Nat
  | .addRef _ => 1
  | _ => 0

@[simp]
def Client.frees : Client → Nat
  | .free _ => 1
  | .freeDpc => 1
  | _ => 0

def TimerPhase.dpc : TimerPhase → Nat
  | .notQueued => 0
  | .queued => 1
  | .expired => 1

@[simp] theorem TimerPhase.dpc_notQueued : TimerPhase.notQueued.dpc = 0 := rfl
@[simp] theorem TimerPhase.dpc_queued : TimerPhase.queued.dpc = 1 := rfl
@[simp] theorem TimerPhase.dpc_expired : TimerPhase.expired.dpc = 1 := rfl

def Routine.dpc : Routine → Nat
  | .free => 0
  | .done => 0
  | _ => 1

def Routine.frees : Routine → Nat
  | .free => 1
  | _ => 0

/-- The armed timer's reference that is outstanding. -/
def State.dpcReference (s : State) : Nat :=
  s.client.dpc + s.timer.dpc + s.dpcQueued.toNat + total Routine.dpc s.routines

/-- Frees of the block under way. -/
def State.freeing (s : State) : Nat :=
  s.client.frees + total Routine.frees s.routines

theorem dpcReference_pos {s : State} (holds : 0 < s.client.dpc) : 0 < s.dpcReference := by
  unfold State.dpcReference
  omega

theorem freeing_pos {s : State} (frees : 0 < s.client.frees) : 0 < s.freeing := by
  unfold State.freeing
  omega

/-! ## Counts -/

/-- What the references of a timer amount to. -/
structure Counts where
  refCount : Nat
  future : Nat
  dpc : Nat
  arms : Nat
  armed : Nat
  releases : Nat
  frees : Nat
  freeing : Nat

def State.counts (s : State) : Counts where
  refCount := s.refCount
  future := s.client.future
  dpc := s.dpcReference
  arms := s.client.arms
  armed := s.armed.toNat
  releases := s.dropReleases + s.routineReleases
  frees := s.frees
  freeing := s.freeing

/-- What a step does to them. -/
inductive Counts.Moves (c : Counts) : Counts → Prop
  | still : Moves c c
  | arm : c.armed = 0 → Moves c { c with armed := 1, arms := c.arms + 1 }
  | add : 0 < c.arms → 0 < c.future →
      Moves c { c with refCount := c.refCount + 1, dpc := c.dpc + 1, arms := c.arms - 1 }
  | releaseFuture : 0 < c.future →
      Moves c { c with
        refCount := c.refCount - 1
        future := c.future - 1
        freeing := c.freeing + if c.refCount = 1 then 1 else 0 }
  | releaseDpc : 0 < c.dpc →
      Moves c { c with
        refCount := c.refCount - 1
        dpc := c.dpc - 1
        releases := c.releases + 1
        freeing := c.freeing + if c.refCount = 1 then 1 else 0 }
  | free : 0 < c.freeing → Moves c { c with frees := c.frees + 1, freeing := c.freeing - 1 }

theorem Counts.Moves.congr {c c₁ c' : Counts} (moves : c.Moves c₁) (same : c' = c₁) :
    c.Moves c' :=
  same ▸ moves

/-- The counter counts, the DPC's reference exists once, and the block is freed with
the last reference. -/
structure Counts.Inv (c : Counts) : Prop where
  count : c.refCount = c.future + c.dpc
  once : c.dpc + c.releases + c.arms = c.armed
  freed : c.frees + c.freeing = if c.refCount = 0 then 1 else 0
  future_le : c.future ≤ 1
  armed_le : c.armed ≤ 1

theorem Counts.Inv.moves {c c' : Counts} (inv : c.Inv) (moves : c.Moves c') : c'.Inv := by
  obtain ⟨count, once, freed, future_le, armed_le⟩ := inv
  cases moves with
  | still => exact ⟨count, once, freed, future_le, armed_le⟩
  | arm unarmed => exact ⟨count, by simp only; omega, freed, future_le, Nat.le_refl 1⟩
  | add arms held =>
      refine ⟨by simp only; omega, by simp only; omega, ?_, future_le, armed_le⟩
      have unfreed : c.refCount ≠ 0 := by omega
      simpa [unfreed] using freed
  | releaseFuture held =>
      refine ⟨by simp only; omega, once, ?_, by simp only; omega, armed_le⟩
      simp only
      split at freed <;> split <;> split <;> omega
  | releaseDpc held =>
      refine ⟨by simp only; omega, by simp only; omega, ?_, future_le, armed_le⟩
      simp only
      split at freed <;> split <;> split <;> omega
  | free freeing => exact ⟨count, once, by simp only; omega, future_le, armed_le⟩

theorem Counts.Inv.initial : initial.counts.Inv :=
  ⟨rfl, rfl, rfl, Nat.le_refl 1, Nat.zero_le 1⟩

section Steps

variable {mode : Hardening} {s s' : State}

theorem two_lt_capacity (mode : Hardening) : 2 < Refcount.capacity mode := by
  cases mode <;> decide

theorem Counts.Inv.add_eq (inv : s.counts.Inv) :
    Refcount.add mode s.refCount = some (s.refCount + 1, s.refCount + 1) := by
  obtain ⟨count, once, -, future_le, armed_le⟩ := inv
  have capacity := two_lt_capacity mode
  have bound : s.refCount ≤ 2 := by
    simp only [State.counts] at count once future_le armed_le
    omega
  exact Refcount.add_eq (by omega)

theorem Counts.Inv.single (inv : s.counts.Inv) : s.dpcReference ≤ 1 := by
  obtain ⟨-, once, -, -, armed_le⟩ := inv
  simp only [State.counts] at once armed_le
  omega

/-- A release gives back the last reference or not. -/
theorem Counts.Inv.last_or_more (inv : s.counts.Inv)
    (held : 0 < s.client.future + s.dpcReference) :
    s.refCount = 1 ∨ s.refCount - 1 ≠ 0 ∧ s.refCount ≠ 1 := by
  have count := inv.count
  simp only [State.counts] at count
  omega

/-- A release that has a reference to give back. -/
theorem Counts.Inv.sub_eq (inv : s.counts.Inv) (held : 0 < s.client.future + s.dpcReference) :
    Refcount.sub mode s.refCount = some (s.refCount - 1, s.refCount - 1) := by
  obtain ⟨count, once, -, future_le, armed_le⟩ := inv
  have capacity := two_lt_capacity mode
  simp only [State.counts] at count once future_le armed_le
  exact Refcount.sub_eq (by omega) (by omega)

theorem moves_client (inv : s.counts.Inv) (step : s.stepClient mode = some s') :
    s.counts.Moves s'.counts := by
  have single := inv.single
  unfold State.stepClient at step
  cases at_ : s.client with
  | idle => simp [at_] at step
  | gone => simp [at_] at step
  | loadFired w =>
      simp only [at_] at step
      cases step
      refine Counts.Moves.still.congr ?_
      cases s.fired <;> simp [State.counts, State.dpcReference, State.freeing, at_]
  | lockWaker w =>
      simp only [at_] at step
      split at step
      · cases step
      · cases step
        exact Counts.Moves.still.congr
          (by simp [State.counts, State.dpcReference, State.freeing, at_])
  | casArmed w =>
      simp only [at_] at step
      split at step
      · cases step
        exact Counts.Moves.still.congr
          (by simp [State.counts, State.dpcReference, State.freeing, at_])
      · next unarmed =>
          cases step
          refine (Counts.Moves.arm ?_).congr ?_
          · simp [State.counts, unarmed]
          · simp [State.counts, State.dpcReference, State.freeing, at_]
  | addRef w =>
      simp only [at_, inv.add_eq, Option.map_some] at step
      cases step
      refine (Counts.Moves.add ?_ ?_).congr ?_
      · simp [State.counts, at_]
      · simp [State.counts, at_]
      · simp [State.counts, State.dpcReference, State.freeing, at_]
        omega
  | storeWaker | unlockWaker | storeCancelled =>
      simp only [at_] at step
      cases step
      exact Counts.Moves.still.congr
        (by simp [State.counts, State.dpcReference, State.freeing, at_])
  | initializeTimer w | setTimer w =>
      simp only [at_] at step
      cases step
      rw [State.dpcReference, at_] at single
      have unset : s.timer.dpc = 0 := by simp at single; omega
      exact Counts.Moves.still.congr
        (by simp [State.counts, State.dpcReference, State.freeing, at_, unset])
  | initializeDpc w =>
      simp only [at_] at step
      cases step
      rw [State.dpcReference, at_] at single
      have empty : s.dpcQueued.toNat = 0 := by simp at single; omega
      exact Counts.Moves.still.congr
        (by simp [State.counts, State.dpcReference, State.freeing, at_, empty])
  | cancelTimer =>
      simp only [at_] at step
      split at step
      · next queued =>
          cases step
          exact Counts.Moves.still.congr
            (by simp [State.counts, State.dpcReference, State.freeing, at_, queued])
      · cases step
        exact Counts.Moves.still.congr
          (by simp [State.counts, State.dpcReference, State.freeing, at_])
  | removeQueueDpc cancelled =>
      simp only [at_] at step
      cases step
      rw [State.dpcReference, at_] at single
      have disjoint : (cancelled || s.dpcQueued).toNat = cancelled.toNat + s.dpcQueued.toNat := by
        cases cancelled <;> cases queued : s.dpcQueued <;> simp [queued] at single ⊢
        omega
      exact Counts.Moves.still.congr
        (by simp [State.counts, State.dpcReference, State.freeing, at_, disjoint]; omega)
  | release second =>
      have held : 0 < s.client.future + s.dpcReference :=
        Nat.add_pos_left (by rw [at_]; exact Nat.one_pos) _
      simp only [at_, inv.sub_eq held, Option.map_some] at step
      cases step
      refine (Counts.Moves.releaseFuture ?_).congr ?_
      · simp [State.counts, at_]
      · rcases inv.last_or_more held with last | ⟨left, more⟩
        · simp [State.counts, State.dpcReference, State.freeing, at_, last]
          omega
        · cases second <;> simp [State.counts, State.dpcReference, State.freeing, at_, left, more]
  | free second =>
      simp only [at_] at step
      cases step
      refine (Counts.Moves.free (freeing_pos ?_)).congr ?_
      · rw [at_]
        exact Nat.one_pos
      · cases second <;> simp [State.counts, State.dpcReference, State.freeing, at_]
  | releaseDpc =>
      have reference : 0 < s.dpcReference := dpcReference_pos (by rw [at_]; exact Nat.one_pos)
      have held : 0 < s.client.future + s.dpcReference := Nat.add_pos_right _ reference
      simp only [at_, inv.sub_eq held, Option.map_some] at step
      cases step
      refine (Counts.Moves.releaseDpc reference).congr ?_
      rcases inv.last_or_more held with last | ⟨left, more⟩
      · simp [State.counts, State.dpcReference, State.freeing, at_, last]
        omega
      · simp [State.counts, State.dpcReference, State.freeing, at_, left, more]
        omega
  | freeDpc =>
      simp only [at_] at step
      cases step
      refine (Counts.Moves.free (freeing_pos ?_)).congr ?_
      · rw [at_]
        exact Nat.one_pos
      · simp [State.counts, State.dpcReference, State.freeing, at_]

/-- One activation moves on. -/
theorem total_routines {w : Routine → Nat} {i : Nat} {r r' : Routine}
    (activation : s.routines[i]? = some r) :
    total w (s.routines.set i r') = total w s.routines - w r + w r' := by
  have swap := total_set w r' activation
  have le := le_total w activation
  omega

theorem moves_routine {i : Nat} {r : Routine} (inv : s.counts.Inv)
    (activation : s.routines[i]? = some r) (step : s.stepRoutine mode i r = some s') :
    s.counts.Moves s'.counts := by
  have dpc := le_total Routine.dpc activation
  have frees := le_total Routine.frees activation
  have still : ∀ r', r'.dpc = r.dpc → r'.frees = r.frees →
      { s with routines := s.routines.set i r' }.counts = s.counts := by
    intro r' sameDpc sameFrees
    simp [State.counts, State.dpcReference, State.freeing, total_routines activation, sameDpc,
      sameFrees, Nat.sub_add_cancel dpc, Nat.sub_add_cancel frees]
  cases r with
  | storeFired =>
      cases step
      exact Counts.Moves.still.congr (still .loadCancelled rfl rfl)
  | loadCancelled =>
      cases step
      cases s.cancelled
      · exact Counts.Moves.still.congr (still .lockWaker rfl rfl)
      · exact Counts.Moves.still.congr (still .release rfl rfl)
  | lockWaker =>
      simp only [State.stepRoutine] at step
      split at step
      · cases step
      · cases step
        exact Counts.Moves.still.congr (still .wake rfl rfl)
  | wake =>
      cases step
      exact Counts.Moves.still.congr (still .unlockWaker rfl rfl)
  | unlockWaker =>
      cases step
      exact Counts.Moves.still.congr (still .release rfl rfl)
  | release =>
      have outstanding : 0 < s.dpcReference := by
        simp only [Routine.dpc] at dpc
        unfold State.dpcReference
        omega
      have held : 0 < s.client.future + s.dpcReference := Nat.add_pos_right _ outstanding
      simp only [State.stepRoutine, inv.sub_eq held, Option.map_some] at step
      cases step
      simp only [Routine.dpc] at dpc
      refine (Counts.Moves.releaseDpc outstanding).congr ?_
      rcases inv.last_or_more held with last | ⟨left, more⟩
      · simp [State.counts, State.dpcReference, State.freeing, total_routines activation, last,
          Routine.dpc, Routine.frees]
        omega
      · simp [State.counts, State.dpcReference, State.freeing, total_routines activation, left,
          more, Routine.dpc, Routine.frees]
        omega
  | free =>
      cases step
      simp only [Routine.frees] at frees
      refine (Counts.Moves.free ?_).congr ?_
      · simp only [State.counts, State.freeing]
        omega
      · simp [State.counts, State.dpcReference, State.freeing, total_routines activation,
          Routine.dpc, Routine.frees]
        omega
  | done => cases step

theorem moves_of_step {a : Label} (inv : s.counts.Inv) (step : s.step mode a = some s') :
    s.counts.Moves s'.counts := by
  cases a with
  | client => exact moves_client inv step
  | routine i =>
      obtain ⟨r, activation, step⟩ := Option.bind_eq_some_iff.mp step
      exact moves_routine inv activation step
  | poll w =>
      simp only [State.step] at step
      split at step
      · next idle =>
          cases step
          exact Counts.Moves.still.congr
            (by simp [State.counts, State.dpcReference, State.freeing, idle])
      · cases step
  | drop =>
      simp only [State.step] at step
      split at step
      · next idle =>
          cases step
          exact Counts.Moves.still.congr
            (by simp [State.counts, State.dpcReference, State.freeing, idle])
      · cases step
  | expire =>
      simp only [State.step] at step
      split at step
      · next queued =>
          cases step
          exact Counts.Moves.still.congr
            (by simp [State.counts, State.dpcReference, State.freeing, queued])
      · cases step
  | queueDpc =>
      simp only [State.step] at step
      split at step
      · next expired =>
          cases step
          -- The reference of the expired timer is the only one: no DPC is queued.
          have single := inv.single
          rw [State.dpcReference, expired] at single
          have empty : s.dpcQueued.toNat = 0 := by simp at single; omega
          exact Counts.Moves.still.congr
            (by simp [State.counts, State.dpcReference, State.freeing, expired, empty])
      · cases step
  | dequeue =>
      simp only [State.step] at step
      split at step
      · next queued =>
          cases step
          exact Counts.Moves.still.congr
            (by
              simp [State.counts, State.dpcReference, State.freeing, queued, Routine.dpc,
                Routine.frees]
              omega)
      · cases step

theorem inv_of_reach (reached : (system mode).Reachable s) : s.counts.Inv := by
  refine reached.invariant (I := fun s => s.counts.Inv) ?_ ?_
  · rintro s rfl
    exact Counts.Inv.initial
  · intro s a s' inv _ step
    exact inv.moves (moves_of_step inv step)

/-! ## The spin lock -/

/-- The owner is inside of its critical section. -/
def Client.holds : Client → Nat
  | .storeWaker _ => 1
  | .unlockWaker _ => 1
  | _ => 0

def Routine.holds : Routine → Nat
  | .wake => 1
  | .unlockWaker => 1
  | _ => 0

def State.holders (s : State) : Nat :=
  s.client.holds + total Routine.holds s.routines

/-- What a step of the owner does to the lock. -/
theorem locked_client (held : s.client.holds ≤ s.locked.toNat)
    (step : s.stepClient mode = some s') :
    s'.routines = s.routines ∧
      s'.locked.toNat + s.client.holds = s.locked.toNat + s'.client.holds := by
  unfold State.stepClient at step
  cases at_ : s.client with
  | loadFired w =>
      simp only [at_] at step
      cases step
      cases s.fired <;> simp [Client.holds]
  | lockWaker w =>
      simp only [at_] at step
      split at step
      · cases step
      · next unlocked =>
          cases step
          simp [Client.holds, unlocked]
  | unlockWaker w =>
      rw [at_] at held
      simp only [at_] at step
      cases step
      simp only [Client.holds] at held
      have le := Bool.toNat_le s.locked
      refine ⟨rfl, ?_⟩
      simp only [Client.holds, Bool.toNat_false]
      omega
  | casArmed w =>
      simp only [at_] at step
      split at step <;> cases step <;> simp [Client.holds]
  | cancelTimer =>
      simp only [at_] at step
      split at step <;> cases step <;> simp [Client.holds]
  | addRef w =>
      simp only [at_, Option.map_eq_some_iff] at step
      obtain ⟨_, _, rfl⟩ := step
      simp [Client.holds]
  | release second =>
      simp only [at_, Option.map_eq_some_iff] at step
      obtain ⟨_, _, rfl⟩ := step
      refine ⟨rfl, ?_⟩
      dsimp only
      split
      · simp [Client.holds]
      · cases second <;> simp [Client.holds]
  | releaseDpc =>
      simp only [at_, Option.map_eq_some_iff] at step
      obtain ⟨_, _, rfl⟩ := step
      refine ⟨rfl, ?_⟩
      dsimp only
      split <;> simp [Client.holds]
  | free second =>
      simp only [at_] at step
      cases step
      cases second <;> simp [Client.holds]
  | idle => simp [at_] at step
  | gone => simp [at_] at step
  | _ =>
      simp only [at_] at step
      cases step
      simp [Client.holds]

theorem locked_routine {i : Nat} {r : Routine} (locked : s.locked.toNat = s.holders)
    (activation : s.routines[i]? = some r) (step : s.stepRoutine mode i r = some s') :
    s'.locked.toNat = s'.holders := by
  have holds := le_total Routine.holds activation
  have le := Bool.toNat_le s.locked
  have swap := @total_routines s Routine.holds i r
  unfold State.holders at locked
  cases r with
  | lockWaker =>
      simp only [State.stepRoutine] at step
      split at step
      · cases step
      · next unlocked =>
          cases step
          simp only [State.holders, swap activation, Routine.holds]
          simp only [unlocked, Bool.toNat_false] at locked
          simp only [Bool.toNat_true]
          omega
  | unlockWaker =>
      cases step
      simp only [Routine.holds] at holds
      simp only [State.holders, swap activation, Routine.holds, Bool.toNat_false]
      omega
  | wake =>
      cases step
      simp only [Routine.holds] at holds
      simp only [State.holders, swap activation, Routine.holds]
      omega
  | release =>
      simp only [State.stepRoutine, Option.map_eq_some_iff] at step
      obtain ⟨_, _, rfl⟩ := step
      simp only [State.holders, swap activation]
      split <;> simp [Routine.holds] <;> exact locked
  | loadCancelled =>
      cases step
      simp only [State.holders, swap activation]
      split <;> simp [Routine.holds] <;> exact locked
  | done => cases step
  | _ =>
      cases step
      simp only [State.holders, swap activation, Routine.holds, Nat.sub_zero, Nat.add_zero]
      exact locked

theorem locked_step {a : Label} (locked : s.locked.toNat = s.holders)
    (step : s.step mode a = some s') : s'.locked.toNat = s'.holders := by
  cases a with
  | client =>
      have held : s.client.holds ≤ s.locked.toNat := locked ▸ Nat.le_add_right _ _
      obtain ⟨routines, change⟩ := locked_client held step
      unfold State.holders at locked ⊢
      rw [routines]
      omega
  | routine i =>
      obtain ⟨r, activation, step⟩ := Option.bind_eq_some_iff.mp step
      exact locked_routine locked activation step
  | dequeue =>
      simp only [State.step] at step
      split at step
      · cases step
        simpa [State.holders, Routine.holds] using locked
      · cases step
  | _ =>
      simp only [State.step] at step
      split at step
      · next before =>
          cases step
          first
            | exact locked
            | simpa [State.holders, before, Client.holds] using locked
      · cases step

theorem locked_of_reach (reached : (system mode).Reachable s) : s.locked.toNat = s.holders := by
  refine reached.invariant (I := fun s => s.locked.toNat = s.holders) ?_ ?_
  · rintro s rfl
    rfl
  · intro s a s' locked _ step
    exact locked_step locked step

/-! ## The end of the timer -/

/-- The owner waits for nothing but the lock. -/
theorem client_moves (inv : s.counts.Inv) (active : s.client ≠ .idle) (present : s.client ≠ .gone)
    (unlocked : s.client.holds = 0 → s.locked = false) : s.stepClient mode ≠ none := by
  have sub : ∀ client, s.client = client → 0 < client.future + client.dpc →
      Refcount.sub mode s.refCount = some (s.refCount - 1, s.refCount - 1) := by
    intro client at_ pos
    rw [← at_] at pos
    exact inv.sub_eq (by unfold State.dpcReference; omega)
  unfold State.stepClient
  cases at_ : s.client with
  | idle => exact absurd at_ active
  | gone => exact absurd at_ present
  | addRef w => simp [inv.add_eq]
  | release second => simp [sub _ at_ (Nat.add_pos_left Nat.one_pos _)]
  | releaseDpc => simp [sub _ at_ (Nat.add_pos_right _ Nat.one_pos)]
  | lockWaker w => simp [unlocked (by rw [at_]; rfl)]
  | casArmed w => cases armed : s.armed <;> simp
  | cancelTimer => by_cases queued : s.timer = .queued <;> simp [queued]
  | _ => simp

theorem routine_moves {i : Nat} {r : Routine} (inv : s.counts.Inv)
    (activation : s.routines[i]? = some r) (active : r ≠ .done)
    (unlocked : r.holds = 0 → s.locked = false) : s.stepRoutine mode i r ≠ none := by
  cases r with
  | done => exact absurd rfl active
  | lockWaker => simp [State.stepRoutine, unlocked rfl]
  | release =>
      have outstanding : 0 < s.dpcReference := by
        have dpc := le_total Routine.dpc activation
        simp only [Routine.dpc] at dpc
        unfold State.dpcReference
        omega
      simp [State.stepRoutine, inv.sub_eq (Nat.add_pos_right _ outstanding)]
  | _ => simp [State.stepRoutine]

/-- Where nothing can happen any more, the owner is gone and nothing of the timer is left. -/
theorem references_at_rest (inv : s.counts.Inv) (locked : s.locked.toNat = s.holders)
    (rest : ∀ a, s.step mode a = none) : s.client = .gone ∧ s.dpcReference = 0 ∧ s.freeing = 0 := by
  have routineRest : ∀ i r, s.routines[i]? = some r → s.stepRoutine mode i r = none := by
    intro i r activation
    have still := rest (.routine i)
    rw [State.step, activation] at still
    exact still
  have notIdle : s.client ≠ .idle := by
    intro idle
    have poll := rest (.poll 0)
    rw [State.step, if_pos idle] at poll
    cases poll
  -- Whoever holds the lock can go on.
  have unlocked : s.locked = false := by
    cases taken : s.locked with
    | false => rfl
    | true =>
        exfalso
        rw [taken, Bool.toNat_true] at locked
        unfold State.holders at locked
        by_cases owner : s.client.holds = 0
        · obtain ⟨r, member, holds⟩ := exists_of_total_pos (w := Routine.holds)
            (l := s.routines) (by omega)
          obtain ⟨i, activation⟩ := List.mem_iff_getElem?.mp member
          have active : r ≠ .done := by
            rintro rfl
            exact absurd holds (Nat.lt_irrefl 0)
          exact routine_moves inv activation active (fun free => by omega)
            (routineRest i r activation)
        · have present : s.client ≠ .gone := by
            intro gone
            rw [gone] at owner
            exact owner rfl
          exact client_moves inv notIdle present (fun free => absurd free owner) (rest .client)
  have gone : s.client = .gone := by
    by_contra present
    exact client_moves inv notIdle present (fun _ => unlocked) (rest .client)
  have finished : ∀ r ∈ s.routines, r = .done := by
    intro r member
    obtain ⟨i, activation⟩ := List.mem_iff_getElem?.mp member
    by_contra active
    exact routine_moves inv activation active (fun _ => unlocked) (routineRest i r activation)
  have noTimer : s.timer = .notQueued := by
    cases timer : s.timer with
    | notQueued => rfl
    | queued =>
        have expire := rest .expire
        rw [State.step, if_pos timer] at expire
        cases expire
    | expired =>
        have queue := rest .queueDpc
        rw [State.step, if_pos timer] at queue
        cases queue
  have noDpc : s.dpcQueued = false := by
    cases queued : s.dpcQueued with
    | false => rfl
    | true =>
        have dequeue := rest .dequeue
        rw [State.step, if_pos queued] at dequeue
        cases dequeue
  have noReference : total Routine.dpc s.routines = 0 :=
    total_eq_zero.mpr fun r member => by rw [finished r member]; rfl
  have noFree : total Routine.frees s.routines = 0 :=
    total_eq_zero.mpr fun r member => by rw [finished r member]; rfl
  refine ⟨gone, ?_, ?_⟩
  · simp [State.dpcReference, gone, noTimer, noDpc, noReference]
  · simp [State.freeing, gone, noFree]

/-- Without a reference and without a free under way there is nobody left to move. -/
theorem rest_of_no_reference (future : s.client.future = 0) (dpc : s.dpcReference = 0)
    (freeing : s.freeing = 0) (a : Label) : s.step mode a = none := by
  unfold State.dpcReference at dpc
  unfold State.freeing at freeing
  have gone : s.client = .gone := by
    cases at_ : s.client with
    | gone => rfl
    | free second => simp [at_] at freeing
    | freeDpc => simp [at_] at freeing
    | releaseDpc => simp [at_] at dpc
    | _ => simp [at_] at future
  have noTimer : s.timer = .notQueued := by
    cases timer : s.timer with
    | notQueued => rfl
    | queued => simp [timer] at dpc
    | expired => simp [timer] at dpc
  have noDpc : s.dpcQueued = false := by
    cases queued : s.dpcQueued with
    | false => rfl
    | true => simp [queued] at dpc
  cases a with
  | poll w => simp [State.step, gone]
  | drop => simp [State.step, gone]
  | client => simp [State.step, State.stepClient, gone]
  | expire => simp [State.step, noTimer]
  | queueDpc => simp [State.step, noTimer]
  | dequeue => simp [State.step, noDpc]
  | routine i =>
      cases activation : s.routines[i]? with
      | none => simp [State.step, activation]
      | some r =>
          have noReference := le_total Routine.dpc activation
          have noFree := le_total Routine.frees activation
          have finished : r = .done := by
            cases r with
            | done => rfl
            | free =>
                simp only [Routine.frees] at noFree
                omega
            | _ =>
                simp only [Routine.dpc] at noReference
                omega
          simp [State.step, activation, finished, State.stepRoutine]

end Steps

/-- **The memory of a kernel timer.** `ref_count` is the future's reference and the
DPC's one; the latter is given back once, by the drop or by the routine; the block is
freed with the last reference, after which there is no step that could touch it, and
it is freed in every run that has come to its end. -/
theorem timer_memory {mode : Hardening} {s : State} (reached : (system mode).Reachable s) :
    s.refCount = s.client.future + s.dpcReference ∧
      s.dpcReference + s.dropReleases + s.routineReleases =
        (if s.armed = true ∧ s.client.arms = 0 then 1 else 0) ∧
      (s.frees + s.freeing = if s.refCount = 0 then 1 else 0) ∧
      (0 < s.frees → ∀ a, (system mode).step s a = none) ∧
      ((∀ a, (system mode).step s a = none) →
        s.frees = 1 ∧ s.dropReleases + s.routineReleases = s.armed.toNat) := by
  have inv := inv_of_reach reached
  have count : s.refCount = s.client.future + s.dpcReference := inv.count
  have once : s.dpcReference + (s.dropReleases + s.routineReleases) + s.client.arms =
      s.armed.toNat := inv.once
  have freed : s.frees + s.freeing = if s.refCount = 0 then 1 else 0 := inv.freed
  have armed := Bool.toNat_le s.armed
  refine ⟨count, ?_, freed, ?_, ?_⟩
  · cases isArmed : s.armed with
    | false =>
        rw [isArmed, Bool.toNat_false] at once
        simp only [Bool.false_eq_true, false_and, if_false]
        omega
    | true =>
        rw [isArmed, Bool.toNat_true] at once
        simp only [true_and]
        split <;> omega
  · intro done a
    split at freed
    · exact rest_of_no_reference (by omega) (by omega) (by omega) a
    · omega
  · intro rest
    obtain ⟨gone, noReference, noFree⟩ := references_at_rest inv (locked_of_reach reached) rest
    rw [gone] at count once
    have zero : s.refCount = 0 := by
      rw [count, noReference]
      rfl
    rw [if_pos zero, noFree] at freed
    rw [noReference] at once
    simp only [Client.arms] at once
    exact ⟨freed, by omega⟩

/-- The timer expires, and the drop finds its DPC in the queue. -/
theorem timer_memory_of_late_drop : ∃ s, (system .off).Reachable s ∧
    (s.dropReleases = 1 ∧ s.routineReleases = 0 ∧ s.frees = 1) ∧
    s.refCount = s.client.future + s.dpcReference ∧
      s.dpcReference + s.dropReleases + s.routineReleases =
        (if s.armed = true ∧ s.client.arms = 0 then 1 else 0) ∧
      (s.frees + s.freeing = if s.refCount = 0 then 1 else 0) ∧
      (0 < s.frees → ∀ a, (system .off).step s a = none) ∧
      ((∀ a, (system .off).step s a = none) →
        s.frees = 1 ∧ s.dropReleases + s.routineReleases = s.armed.toNat) := by
  obtain ⟨s, reached, done⟩ := Sys.Reach.exists_of_exec
    (fun s : State => s.dropReleases = 1 ∧ s.routineReleases = 0 ∧ s.frees = 1)
    ([.poll 1] ++ List.replicate 9 .client ++ [.expire, .drop, .client, .client, .queueDpc] ++
      List.replicate 4 .client)
    (.start rfl : (system .off).Reachable initial) (by decide)
  exact ⟨s, reached, done, timer_memory reached⟩

end Kcom.Timer
