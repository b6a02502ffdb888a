import Kcom.Conc.FetchUpdate
import Kcom.Conc.Pool
import Kcom.Conc.System
import Kcom.Refcount

/-!
# A saturating counter and its holders

`refcount::add` and `refcount::sub` with `refcount-hardening` and `leaky-hardening`,
each a `fetch_update` loop, called by any number of threads. A client owns the
references it has taken and not begun to give back; a call of `sub` takes one from
it, and the reference stays outstanding until the loop's exchange succeeds.

Past `MAX_REFCOUNT` an `add` hands out a reference and does not count it, while every
`sub` counts down. So the counter falls behind its holders for good, and the `sub`
that finds 1 returns 0 with the uncounted references still outstanding. In the runs
in which no `add` meets a full counter, counter and holders stay equal.
-/

namespace Kcom.Refcount

open Conc

/-- The two operations. -/
inductive Kind
  | add
  | sub
  deriving DecidableEq, Repr

/-- The closure that the operation passes to `fetch_update`. -/
def Kind.update : Kind → Nat → Option Nat
  | .add, curr => if curr ≥ maxRefcount then none else some (curr + 1)
  | .sub, curr => if curr = 0 then none else some (curr - 1)

/-- What the operation returns once its loop has ended. -/
def Kind.result : Kind → UpdateLoop Nat → Option Nat
  | .add, .ok prev => some (prev + 1)
  | .sub, .ok prev => some (prev - 1)
  | _, .err _ => some maxRefcount
  | _, _ => none

/-- The operation as one atomic step. -/
def Kind.atomic : Kind → Nat → Option (Nat × Nat)
  | .add => Refcount.add .leaky
  | .sub => Refcount.sub .leaky

/-- The step that ends a loop does what the operation does as one atomic step. -/
theorem atomic_of_next {kind : Kind} {count count' value : Nat} {loop : UpdateLoop Nat}
    (next : UpdateLoop.Next kind.update count loop count')
    (returns : kind.result loop = some value) : kind.atomic count = some (value, count') := by
  cases next with
  | wait some => cases kind <;> cases returns
  | refuse none =>
      cases kind with
      | add =>
          cases returns
          simp only [Kind.update] at none
          split at none
          · rw [Kind.atomic, Refcount.add, if_pos ‹_›]
          · cases none
      | sub =>
          cases returns
          simp only [Kind.update] at none
          split at none
          · rw [Kind.atomic, Refcount.sub, if_pos ‹_›]
          · cases none
  | update some =>
      cases kind with
      | add =>
          cases returns
          simp only [Kind.update] at some
          split at some <;> cases some
          rw [Kind.atomic, Refcount.add, if_neg ‹_›]
      | sub =>
          cases returns
          simp only [Kind.update] at some
          split at some <;> cases some
          rw [Kind.atomic, Refcount.sub, if_neg ‹_›]

/-- A call under way or returned. -/
structure Call where
  kind : Kind
  loop : UpdateLoop Nat
  deriving DecidableEq, Repr

/-- The reference that a running `sub` gives back is still outstanding. -/
def Call.gives (call : Call) : Nat :=
  match call.kind with
  | .add => 0
  | .sub => call.loop.running.toNat

/-- What a call returned, and how many references were outstanding just after. -/
structure Return where
  kind : Kind
  value : Nat
  outstanding : Nat
  deriving DecidableEq, Repr

structure State where
  count : Nat
  /-- The references that no call is giving back. -/
  owned : Nat
  calls : List Call
  returns : List Return
  deriving DecidableEq, Repr

/-- One reference, taken by whoever made the object. -/
def initial : State where
  count := 1
  owned := 1
  calls := []
  returns := []

namespace State

/-- The references outstanding. -/
def outstanding (s : State) : Nat :=
  s.owned + total Call.gives s.calls

/-- A thread calls `add` or `sub`, or the loop of call `i` takes a step. -/
inductive Label
  | call (kind : Kind)
  | step (i : Nat) (spurious : Bool)
  deriving DecidableEq, Repr

/-- The state after a loop has ended: an `add` hands its reference out, and what the
call returned is recorded. -/
def returned (s : State) (kind : Kind) (value : Nat) : State :=
  let s := match kind with
    | .add => { s with owned := s.owned + 1 }
    | .sub => s
  { s with returns := s.returns ++ [⟨kind, value, s.outstanding⟩] }

def step (s : State) : Label → Option State
  | .call .add => some { s with calls := s.calls ++ [⟨.add, .start⟩] }
  | .call .sub =>
      -- a caller of `sub` has a reference to give back
      if s.owned = 0 then none
      else some { s with owned := s.owned - 1, calls := s.calls ++ [⟨.sub, .start⟩] }
  | .step i spurious =>
      match s.calls[i]? with
      | none => none
      | some call =>
          (call.loop.step call.kind.update spurious s.count).map fun (loop, count) =>
            let s := { s with count := count, calls := s.calls.set i { call with loop := loop } }
            match call.kind.result loop with
            | none => s
            | some value => s.returned call.kind value

end State

/-- The counter and its callers. -/
def system : Sys State State.Label where
  start s := s = initial
  step := State.step

/-- An `add` reads the counter only while fewer than `MAX_REFCOUNT` references are
outstanding. -/
def Unsaturated (s : State) : State.Label → Prop
  | .call _ => True
  | .step i _ => ∀ call ∈ s.calls[i]?, call.kind = .add → s.outstanding < maxRefcount

instance (s : State) : (a : State.Label) → Decidable (Unsaturated s a)
  | .call _ => inferInstanceAs (Decidable True)
  | .step i _ => inferInstanceAs (Decidable (∀ call ∈ s.calls[i]?, call.kind = .add →
      s.outstanding < maxRefcount))

/-- What holds in every state of an unsaturated run. -/
structure Kept (s : State) : Prop where
  count : s.count = s.outstanding
  returns : ∀ r ∈ s.returns, r.kind = .sub → r.value = 0 → r.outstanding = 0

section Steps

variable {s s' : State} {i : Nat} {spurious : Bool} {kind : Kind}

/-- What a step of call `i` does. -/
theorem step_step (next : s.step (.step i spurious) = some s') :
    ∃ kind loop loop' count, s.calls[i]? = some ⟨kind, loop⟩ ∧ loop.running = true ∧
      UpdateLoop.Next kind.update s.count loop' count ∧
      s' = match kind.result loop' with
        | none => { s with count := count, calls := s.calls.set i ⟨kind, loop'⟩ }
        | some value => State.returned
            { s with count := count, calls := s.calls.set i ⟨kind, loop'⟩ } kind value := by
  simp only [State.step] at next
  split at next
  · cases next
  · rename_i call here
    obtain ⟨⟨loop', count⟩, moved, rfl⟩ := Option.map_eq_some_iff.mp next
    exact ⟨call.kind, call.loop, loop', count, here, UpdateLoop.running_of_step moved,
      UpdateLoop.step_next moved, rfl⟩

/-- A loop that has not returned has not moved the counter. -/
theorem running_of_next {count : Nat} {loop : UpdateLoop Nat}
    (next : UpdateLoop.Next kind.update s.count loop count) (silent : kind.result loop = none) :
    loop.running = true ∧ count = s.count := by
  cases next with
  | wait some => exact ⟨rfl, rfl⟩
  | refuse none => cases kind <;> cases silent
  | update some => cases kind <;> cases silent

theorem not_running_of_result {loop : UpdateLoop Nat} {value : Nat}
    (returns : kind.result loop = some value) : loop.running = false := by
  cases loop with
  | ok prev => rfl
  | err prev => rfl
  | _ => cases kind <;> cases returns

/-- An unsaturated step moves counter and holders together. -/
theorem Kept.step (kept : Kept s) (unsaturated : Unsaturated s (.step i spurious))
    (next : s.step (.step i spurious) = some s') : Kept s' := by
  obtain ⟨kind, loop, loop', count, here, running, moved, rfl⟩ := step_step next
  obtain ⟨counted, returned⟩ := kept
  have swap := total_set Call.gives ⟨kind, loop'⟩ here
  have mine := le_total Call.gives here
  have below := unsaturated _ here
  rw [State.outstanding] at counted
  cases returns : kind.result loop' with
  | none =>
      obtain ⟨running', rfl⟩ := running_of_next moved returns
      refine ⟨?_, returned⟩
      simp only [Call.gives, running, running'] at swap
      simp only [State.outstanding]
      omega
  | some value =>
      have atomic := atomic_of_next moved returns
      have ended := not_running_of_result returns
      cases kind with
      | add =>
          have room : s.count < capacity .leaky := by
            have below := below rfl
            rw [State.outstanding] at below
            exact counted.trans_lt below
          rw [Kind.atomic, add_eq room] at atomic
          cases atomic
          simp only [Call.gives, Nat.add_zero] at swap
          constructor
          · simp only [State.returned, State.outstanding]
            omega
          · simp only [State.returned, List.mem_append, List.mem_singleton]
            rintro r (old | rfl) sub
            · exact returned r old sub
            · cases sub
      | sub =>
          simp only [Call.gives, running, ended, Bool.toNat_true, Bool.toNat_false] at swap mine
          have pos : 0 < s.count := by omega
          rw [Kind.atomic, Refcount.sub, if_neg (Nat.pos_iff_ne_zero.mp pos)] at atomic
          cases atomic
          constructor
          · simp only [State.returned, State.outstanding]
            omega
          · simp only [State.returned, List.mem_append, List.mem_singleton]
            rintro r (old | rfl) sub zero
            · exact returned r old sub zero
            · -- the counter has just reached 0, and it is the number of holders
              simp only [State.outstanding] at zero ⊢
              omega

theorem Kept.call (kept : Kept s) (next : s.step (.call kind) = some s') : Kept s' := by
  obtain ⟨counted, returned⟩ := kept
  rw [State.outstanding] at counted
  cases kind with
  | add =>
      cases next
      refine ⟨?_, returned⟩
      simpa [State.outstanding, Call.gives] using counted
  | sub =>
      simp only [State.step] at next
      split at next <;> cases next
      refine ⟨?_, returned⟩
      simp only [State.outstanding, total_append, total_cons, total_nil, Call.gives,
        UpdateLoop.running, Bool.toNat_true]
      omega

end Steps

/-- **The last `sub` is the last.** In every run in which no `add` reads the counter
with `MAX_REFCOUNT` references outstanding, a `sub` that returned 0 left none. -/
theorem sub_zero_last {s : State} (reached : system.Reach Unsaturated s) :
    ∀ r ∈ s.returns, r.kind = .sub → r.value = 0 → r.outstanding = 0 := by
  have kept : Kept s := by
    refine Sys.Reach.invariant ?_ ?_ reached
    · rintro s rfl
      exact ⟨rfl, nofun⟩
    · intro s a s' kept unsaturated next
      cases a with
      | call kind => exact kept.call next
      | step i spurious => exact kept.step unsaturated next
  exact kept.returns

/-- Two calls of `sub` whose loops overlap: both read 2, one exchange fails and
tries again. -/
theorem sub_zero_last_of_overlap :
    ∃ s, system.Reach Unsaturated s ∧ (⟨.sub, 0, 0⟩ : Return) ∈ s.returns ∧
      ∀ r ∈ s.returns, r.kind = .sub → r.value = 0 → r.outstanding = 0 := by
  obtain ⟨s, reached, last⟩ := Sys.Reach.exists_of_execIf
    (fun s : State => (⟨.sub, 0, 0⟩ : Return) ∈ s.returns)
    [.call .add, .step 0 false, .step 0 false, .call .sub, .call .sub, .step 1 false,
      .step 2 false, .step 1 false, .step 2 false, .step 2 false]
    (.start rfl : system.Reach Unsaturated initial) (by decide)
  exact ⟨s, reached, last, sub_zero_last reached⟩

/-! ## Past the limit -/

section Saturated

variable {s : State}

/-- A reachable state in which no call is under way. -/
structure Idle (s : State) (count owned : Nat) : Prop where
  reached : system.Reachable s
  count : s.count = count
  owned : s.owned = owned
  idle : total Call.gives s.calls = 0

/-- The state once a call has been made and its loop has come to `loop`. -/
def State.during (s : State) (kind : Kind) (loop : UpdateLoop Nat) : State :=
  { s with
    owned := match kind with | .add => s.owned | .sub => s.owned - 1
    calls := s.calls ++ [⟨kind, loop⟩] }

/-- What a client owns after the call. -/
def Kind.leaves : Kind → Nat → Nat
  | .add, owned => owned + 1
  | .sub, owned => owned - 1

theorem step_during {kind : Kind} {loop loop' : UpdateLoop Nat} {count : Nat}
    (next : loop.step kind.update false s.count = some (loop', count)) :
    system.step (s.during kind loop) (.step s.calls.length false) =
      some (match kind.result loop' with
        | none => { s.during kind loop' with count := count }
        | some value => State.returned { s.during kind loop' with count := count } kind value) := by
  have here : (s.during kind loop).calls[s.calls.length]? = some ⟨kind, loop⟩ := by
    simp [State.during]
  have put : (s.during kind loop).calls.set s.calls.length ⟨kind, loop'⟩ =
      (s.during kind loop').calls := by
    simp [State.during]
  have unmoved : (s.during kind loop).count = s.count := rfl
  simp only [system, State.step, here, unmoved, next, Option.map_some, put]
  rfl

theorem Idle.begin {kind : Kind} {count owned : Nat} (idle : Idle s count owned)
    (has : kind = .sub → 0 < owned) : system.Reachable (s.during kind .start) := by
  have called : system.step s (.call kind) = some (s.during kind .start) := by
    cases kind with
    | add => rfl
    | sub =>
        have pos := has rfl
        change (if s.owned = 0 then none else _) = _
        rw [if_neg (by rw [idle.owned]; omega)]
        rfl
  exact .step idle.reached trivial called

/-- The end of a call that nobody disturbs. -/
theorem Idle.finish {kind : Kind} {loop loop' : UpdateLoop Nat} {count owned next value : Nat}
    (idle : Idle s count owned) (has : kind = .sub → 0 < owned)
    (running : system.Reachable (s.during kind loop))
    (step : loop.step kind.update false s.count = some (loop', next))
    (returns : kind.result loop' = some value) :
    ∃ s', Idle s' next (kind.leaves owned) ∧
      (⟨kind, value, kind.leaves owned⟩ : Return) ∈ s'.returns := by
  have done := step_during step
  rw [returns] at done
  have ended := not_running_of_result returns
  refine ⟨_, ⟨.step running trivial done, ?_, ?_, ?_⟩, ?_⟩
  · cases kind <;> rfl
  · cases kind <;> simp [State.returned, State.during, Kind.leaves, idle.owned]
  · cases kind <;> simp [State.returned, State.during, Call.gives, idle.idle, ended]
  · cases kind <;> simp [State.returned, State.during, State.outstanding, Call.gives, Kind.leaves,
      idle.idle, idle.owned, ended]

/-- A call that nobody disturbs and that counts: the call, the load, the exchange. -/
theorem Idle.counts {kind : Kind} {count owned next : Nat} (idle : Idle s count owned)
    (has : kind = .sub → 0 < owned) (update : kind.update count = some next) :
    ∃ s', Idle s' next (kind.leaves owned) ∧
      (⟨kind, next, kind.leaves owned⟩ : Return) ∈ s'.returns := by
  rw [← idle.count] at update
  have load : UpdateLoop.step kind.update false s.count .start =
      some (.seen s.count, s.count) := by
    simp [UpdateLoop.step, UpdateLoop.examine, update]
  have exchange : UpdateLoop.step kind.update false s.count (.seen s.count) =
      some (.ok s.count, next) := by
    simp [UpdateLoop.step, update]
  have loaded : system.Reachable (s.during kind (.seen s.count)) := by
    have silent : kind.result (.seen s.count) = none := by cases kind <;> rfl
    have moved := step_during load
    rw [silent] at moved
    exact .step (idle.begin has) trivial moved
  have value : kind.result (.ok s.count) = some next := by
    cases kind with
    | add =>
        simp only [Kind.update] at update
        split at update <;> cases update
        rfl
    | sub =>
        simp only [Kind.update] at update
        split at update <;> cases update
        rfl
  exact idle.finish has loaded exchange value

/-- A call of `add` on a full counter returns after its load. -/
theorem Idle.saturates {owned : Nat} (idle : Idle s maxRefcount owned) :
    ∃ s', Idle s' maxRefcount (owned + 1) := by
  have load : UpdateLoop.step (Kind.update .add) false s.count .start =
      some (.err maxRefcount, maxRefcount) := by
    simp [UpdateLoop.step, UpdateLoop.examine, Kind.update, idle.count]
  have takes : Kind.add = .sub → 0 < owned := by
    intro same
    cases same
  obtain ⟨s', idle', -⟩ := idle.finish takes (idle.begin takes) load rfl
  exact ⟨s', idle'⟩

theorem exists_idle_below (k : Nat) (room : k < maxRefcount) :
    ∃ s, Idle s (k + 1) (k + 1) := by
  induction k with
  | zero => exact ⟨initial, .start rfl, rfl, rfl, rfl⟩
  | succ k ih =>
      obtain ⟨s, idle⟩ := ih (Nat.lt_of_succ_lt room)
      have update : Kind.update .add (k + 1) = some (k + 1 + 1) :=
        if_neg (Nat.not_le.mpr room)
      have takes : Kind.add = .sub → 0 < k + 1 := fun _ => Nat.succ_pos k
      obtain ⟨s', idle', -⟩ := idle.counts takes update
      exact ⟨s', idle'⟩

/-- Counting back down from a counter that has missed one reference. -/
theorem exists_idle_behind (k : Nat) (bound : k ≤ maxRefcount) :
    ∃ s, Idle s (maxRefcount - k) (maxRefcount - k + 1) := by
  induction k with
  | zero =>
      obtain ⟨s, idle⟩ := exists_idle_below (maxRefcount - 1) (by decide)
      exact idle.saturates
  | succ k ih =>
      obtain ⟨s, idle⟩ := ih (Nat.le_of_succ_le bound)
      have nonzero : maxRefcount - k ≠ 0 := by omega
      have update : Kind.update .sub (maxRefcount - k) = some (maxRefcount - (k + 1)) := by
        rw [Kind.update, if_neg nonzero]
        rfl
      obtain ⟨s', idle', -⟩ := idle.counts (fun _ => Nat.succ_pos _) update
      refine ⟨s', ?_⟩
      have back : Kind.leaves .sub (maxRefcount - k + 1) = maxRefcount - (k + 1) + 1 := by
        simp only [Kind.leaves]
        omega
      rwa [back] at idle'

/-- `i32::MAX` references are outstanding, one more is taken, and `i32::MAX` are given
back: the last of these calls of `sub` returns 0 while one reference is held. -/
theorem sub_zero_not_last :
    ¬ ∀ s, system.Reachable s →
      ∀ r ∈ s.returns, r.kind = .sub → r.value = 0 → r.outstanding = 0 := by
  intro last
  obtain ⟨s, idle⟩ := exists_idle_behind (maxRefcount - 1) (Nat.sub_le _ _)
  have one : maxRefcount - (maxRefcount - 1) = 1 := by decide
  rw [one] at idle
  have update : Kind.update .sub 1 = some 0 := rfl
  obtain ⟨s', idle', returned⟩ := idle.counts (fun _ => Nat.two_pos) update
  have left := last s' idle'.reached _ returned rfl rfl
  cases left

end Saturated

end Kcom.Refcount
