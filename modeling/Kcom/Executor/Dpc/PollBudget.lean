import Kcom.Executor.Dpc.Activation

/-!
# The poll budget of one activation

In poll-count mode an activation starts with `TASK_BUDGET_POLLS` units. A unit is spent
when a poll was `Pending` and `scheduled` is found set, and the loop is left when that
happens with no unit left. The first poll is therefore free: with a budget of `n` the
activation polls `n + 1` times if it is woken during each of its first `n` polls, and
`n` times at most as long as the `n`-th poll is not followed by a wake
(`poll_budget_kept_iff`). However it leaves its loop, it has queued the DPC again if
it found the flag set after its last poll.
-/

namespace Kcom.Dpc

open Conc

/-! ## The record of an activation -/

/-- What one activation has done. -/
structure Watch where
  /-- `TASK_BUDGET_POLLS` as the activation read it, in poll-count mode. -/
  budget : Option Nat
  polls : Nat
  /-- The most recent poll was `Pending` and `scheduled` was found set after it. -/
  woken : Bool
  /-- The flag was found set after the last poll that the budget allows. -/
  overdue : Bool
  /-- `queue_dpc` has been called. -/
  requeued : Bool
  deriving DecidableEq, Repr

namespace Watch

def first : Watch where
  budget := none
  polls := 0
  woken := false
  overdue := false
  requeued := false

/-- Each poll that the budget allows has been made. -/
def spent (w : Watch) : Bool :=
  w.budget.any fun n => decide (n ≤ w.polls)

def update (s : State) (_ : Choice) : Op → Watch → Watch
  | .loop (.loadPolls _ .polls), w => { w with budget := some s.budgetPolls }
  | .loop (.pollStart _), w => { w with polls := w.polls + 1, woken := false }
  | .loop (.loadScheduled _), w =>
      { w with woken := s.scheduled, overdue := w.overdue || (s.scheduled && w.spent) }
  | .insertQueueDpc .queueDpc, w => { w with requeued := true }
  | _, w => w

end Watch

/-- The task with a record of the activation that thread `i` executes. -/
def watched (mode : Hardening) (i : Nat) : Sys (State × Watch) State.Label :=
  (system mode).withHistory .first (ofThread i Watch.update)

/-! ## Units and polls -/

namespace Watch

variable {w : Watch} {l : Locals} {op : Loop}

/-- Before a poll: the units left are the polls still to be made, and the flag was found
set too late once if none is. -/
def Ahead (w : Watch) (l : Locals) : Prop :=
  (l.mode = .timeUs → w.budget = none) ∧
    (l.mode = .polls → ∃ n, w.budget = some n ∧ w.polls + l.pollBudget = n ∧
      (1 ≤ n → (w.overdue = true ↔ n ≤ w.polls)))

/-- In a poll and until `scheduled` is looked at: the poll has not been paid for. -/
def Behind (w : Watch) (l : Locals) : Prop :=
  (l.mode = .timeUs → w.budget = none) ∧
    (l.mode = .polls → ∃ n, w.budget = some n ∧ w.polls + l.pollBudget = n + 1 ∧
      (1 ≤ n → (w.overdue = true ↔ n < w.polls)))

/-- Past the last poll: a poll beyond the budget was made exactly if the flag was found
set too late. -/
def Closed (w : Watch) : Prop :=
  ∀ n, w.budget = some n → w.polls ≤ n + 1 ∧ (1 ≤ n → (w.overdue = true ↔ n < w.polls))

def InLoop (w : Watch) : Loop → Prop
  | .setCurrent _ => w = first
  | .loadMode _ => w = first
  | .loadPolls _ _ => w = first
  | .queryStart _ _ => w.budget = none
  | .loadTimeUs _ _ _ _ => w.budget = none
  | .pollStart l => w.Ahead l
  | .polling l => w.Behind l ∧ w.woken = false
  | .loadScheduled l => w.Behind l
  | .queryNow l => w.budget = none ∧ l.mode = .timeUs
  | .clearScheduled l => w.Ahead l
  | .storeCompleted _ => w.Closed ∧ w.woken = false
  | .dropFuture _ => w.Closed ∧ w.woken = false
  | .dropping _ => w.Closed ∧ w.woken = false

/-- What the record says of an activation with this code. -/
def Along (w : Watch) (code : List Op) : Prop :=
  Course (w = first) w.InLoop w.Closed (w.Closed ∧ (w.woken = true → w.requeued = true)) code

theorem closed_first : first.Closed := by
  intro n read
  cases read

theorem Behind.closed (behind : w.Behind l) : w.Closed := by
  intro n read
  cases mode : l.mode with
  | polls =>
      obtain ⟨m, budget, units, late⟩ := behind.2 mode
      rw [budget, Option.some.injEq] at read
      subst read
      exact ⟨by omega, late⟩
  | timeUs =>
      rw [behind.1 mode] at read
      cases read

theorem Ahead.pollStart (ahead : w.Ahead l) :
    Behind { w with polls := w.polls + 1, woken := false } l := by
  refine ⟨ahead.1, fun inPolls => ?_⟩
  obtain ⟨n, budget, units, late⟩ := ahead.2 inPolls
  refine ⟨n, budget, ?_, fun positive => ?_⟩
  · change w.polls + 1 + l.pollBudget = n + 1
    omega
  · exact (late positive).trans Nat.lt_succ_iff.symm

/-- The poll was followed by a wake: it is paid for, or nothing is left to pay with. -/
theorem Behind.woken (behind : w.Behind l) (w' : Watch) (polls : w'.polls = w.polls)
    (budget : w'.budget = w.budget) (overdue : w'.overdue = (w.overdue || w.spent)) :
    w'.Along (afterWoken l) := by
  cases mode : l.mode with
  | polls =>
      obtain ⟨n, read, units, before⟩ := behind.2 mode
      have late : 1 ≤ n → (w'.overdue = true ↔ n ≤ w'.polls) := by
        intro positive
        rw [overdue, polls, Bool.or_eq_true, before positive, spent, read, Option.any_some,
          decide_eq_true_eq]
        omega
      rw [afterWoken_polls mode]
      split
      · next none =>
          refine .addRef l.cpu fun m read' => ?_
          rw [budget, read, Option.some.injEq] at read'
          subst read'
          refine ⟨by omega, fun positive => ?_⟩
          rw [late positive]
          omega
      · next some =>
          refine .loop _ ⟨fun inTime => ?_, fun _ => ⟨n, budget.trans read, ?_, late⟩⟩
          · rw [mode] at inTime
            cases inTime
          · change w'.polls + (l.pollBudget - 1) = n
            omega
  | timeUs =>
      have none : w'.budget = none := budget.trans (behind.1 mode)
      rw [afterWoken_timeUs mode]
      split
      · exact .loop _ ⟨none, mode⟩
      · refine .loop _ ⟨fun _ => none, fun inPolls => ?_⟩
        rw [mode] at inPolls
        cases inPolls

/-- One step of the loop. -/
theorem InLoop.step {s s₁ : State} {i : Nat} {c : Choice} {push : List Op} (inLoop : w.InLoop op)
    (performed : s.performLoop i c op = some (s₁, push)) :
    (update s c (.loop op) w).Along push := by
  cases op with
  | setCurrent n | loadMode cpu =>
      cases performed
      exact .loop _ inLoop
  | loadPolls cpu m =>
      rw [show w = first from inLoop]
      cases m with
      | polls =>
          cases performed
          refine .loop _ ⟨fun inTime => ?_, fun _ => ⟨s.budgetPolls, rfl, Nat.zero_add _, ?_⟩⟩
          · cases inTime
          · intro positive
            simp only [update, first, Bool.false_eq_true, false_iff]
            omega
      | timeUs =>
          cases performed
          exact .loop _ rfl
  | queryStart cpu polls =>
      simp only [State.performLoop] at performed
      split at performed <;> cases performed
      exact .loop _ inLoop
  | loadTimeUs cpu polls freq start =>
      cases performed
      refine .loop _ ⟨fun _ => inLoop, fun inPolls => ?_⟩
      cases inPolls
  | pollStart l =>
      cases performed
      exact .loop _ ⟨Ahead.pollStart inLoop, rfl⟩
  | polling l =>
      simp only [State.performLoop] at performed
      split at performed
      · cases performed
      · split at performed <;> cases performed
        · exact .loop _ ⟨inLoop.1.closed, inLoop.2⟩
        · exact .loop _ inLoop.1
  | loadScheduled l =>
      cases performed
      by_cases scheduled : s.scheduled = true
      · rw [if_pos scheduled]
        exact Behind.woken inLoop _ rfl rfl (by simp [update, scheduled])
      · rw [if_neg scheduled]
        refine .left ⟨?_, ?_⟩ (.exit l.cpu)
        · simp only [update, scheduled, Bool.false_and, Bool.or_false]
          exact inLoop.closed
        · simp [update, scheduled]
  | queryNow l =>
      have none : w.Closed := by
        intro n read
        rw [inLoop.1] at read
        cases read
      simp only [State.performLoop] at performed
      split at performed
      · cases performed
        split
        · exact .addRef l.cpu none
        · refine .loop _ ⟨fun _ => inLoop.1, fun inPolls => ?_⟩
          rw [inLoop.2] at inPolls
          cases inPolls
      · cases performed
  | clearScheduled l =>
      cases performed
      exact .loop _ inLoop
  | storeCompleted cpu | dropFuture cpu =>
      cases performed
      exact .loop _ inLoop
  | dropping cpu =>
      cases performed
      refine .left ⟨inLoop.1, fun woken => ?_⟩ (.exit cpu)
      rw [show (update s c (.loop (.dropping cpu)) w).woken = false from inLoop.2] at woken
      cases woken

/-- One step of the activation. -/
theorem Along.step {mode : Hardening} {s s₁ : State} {i : Nat} {c : Choice} {op : Op}
    {rest push : List Op} (held : w.Along (op :: rest))
    (performed : s.perform mode i c op = some (s₁, push)) :
    (update s c op w).Along (push ++ rest) := by
  refine Course.step (E := fun w => w = first) (I := InLoop) (Q := Closed)
    (L := fun w => w.Closed ∧ (w.woken = true → w.requeued = true)) (u := update s c) held
    performed ?_ ?_ ?_ ?_ ?_ ?_ ?_
  · rintro cpu rfl
    exact ⟨rfl, rfl, rfl⟩
  · rintro w fresh
    exact ⟨fun n => fresh, fun cpu => fresh⟩
  · rintro w rfl
    refine ⟨closed_first, fun woken => ?_⟩
    cases woken
  · rintro l rfl inLoop looped
    exact inLoop.step looped
  · exact id
  · exact fun closed => ⟨closed, fun _ => rfl⟩
  · intro free left
    have same : update s c op w = w := by
      unfold update
      split <;> first | rfl | cases free
    rw [same]
    exact left

/-! ### The bound of every record, inside the loop or past it -/

/-- One poll more than a budget of `n` allows is the most there is, and none as long as no
poll after the last that it allows was followed by a wake. -/
def Bounded (w : Watch) (n : Nat) : Prop :=
  w.polls ≤ n + 1 ∧ (1 ≤ n → w.overdue = false → w.polls ≤ n)

section Bounded

variable {n : Nat} (read : w.budget = some n)

include read

theorem Closed.bounded (closed : w.Closed) : w.Bounded n := by
  obtain ⟨most, late⟩ := closed n read
  refine ⟨most, fun positive onTime => ?_⟩
  have exceeded := late positive
  rw [onTime] at exceeded
  simpa using exceeded

theorem bounded_of_none (none : w.budget = none) : w.Bounded n := by
  rw [none] at read
  cases read

theorem Ahead.bounded (ahead : w.Ahead l) : w.Bounded n := by
  cases mode : l.mode with
  | timeUs => exact bounded_of_none read (ahead.1 mode)
  | polls =>
      obtain ⟨m, budget, units, -⟩ := ahead.2 mode
      rw [budget, Option.some.injEq] at read
      subst read
      exact ⟨by omega, fun _ _ => by omega⟩

theorem Along.bounded {code : List Op} (held : w.Along code) : w.Bounded n := by
  have fresh (start : w = first) : w.budget = none := by rw [start]; rfl
  cases held with
  | clearScheduled cpu start | checkCompleted cpu start | rawWaker cpu start =>
      exact bounded_of_none read (fresh start)
  | addRef cpu closed | insertQueueDpc cpu closed => exact closed.bounded read
  | left here _ => exact here.1.bounded read
  | loop op inLoop =>
      cases op with
      | setCurrent | loadMode | loadPolls => exact bounded_of_none read (fresh inLoop)
      | queryStart | loadTimeUs => exact bounded_of_none read inLoop
      | queryNow l => exact bounded_of_none read inLoop.1
      | pollStart l | clearScheduled l => exact Ahead.bounded read inLoop
      | polling l => exact inLoop.1.closed.bounded read
      | loadScheduled l => exact inLoop.closed.bounded read
      | storeCompleted | dropFuture | dropping => exact inLoop.1.bounded read

end Bounded

end Watch

/-! ## Every run -/

section Runs

variable {mode : Hardening} {i n : Nat} {p : State × Watch}

theorem along_of_reach (reached : (watched mode i).Reachable p) :
    (p.1.threads[i]? = none ∧ p.2 = .first) ∨
      ∃ t, p.1.threads[i]? = some t ∧ p.2.Along t.code := by
  refine along (P := Watch.Along) (fun code outside => ?_) (fun cpu => .clearScheduled cpu rfl)
    (fun s c op rest s₁ push w _ _ performed held => held.step performed) reached
  refine .left ⟨Watch.closed_first, fun woken => ?_⟩ outside
  cases woken

theorem bounded_of_reach (reached : (watched mode i).Reachable p)
    (read : p.2.budget = some n) : p.2.Bounded n := by
  rcases along_of_reach reached with ⟨-, fresh⟩ | ⟨t, -, held⟩
  · rw [fresh] at read
    cases read
  · exact held.bounded read

/-- An activation with a budget of `n` polls keeps to it as long as no poll after the last
that the budget allows is followed by a wake. Once it has left its loop, it has kept
to it, and has queued the DPC if it found the flag set, exactly if that is so. -/
theorem poll_budget_kept_iff (reached : (watched mode i).Reachable p)
    (read : p.2.budget = some n) (positive : 1 ≤ n) :
    (p.2.overdue = false → p.2.polls ≤ n) ∧
      ∀ t, p.1.threads[i]? = some t → Outside t.code →
        ((p.2.polls ≤ n ∧ (p.2.woken = true → p.2.requeued = true)) ↔ p.2.overdue = false) := by
  refine ⟨(bounded_of_reach reached read).2 positive, fun t thread outside => ?_⟩
  rcases along_of_reach reached with ⟨absent, -⟩ | ⟨t', there, held⟩
  · rw [absent] at thread
    cases thread
  · rw [thread, Option.some.injEq] at there
    subst there
    obtain ⟨closed, queued⟩ := Course.left_of_outside held outside
    have late := (closed n read).2 positive
    constructor
    · rintro ⟨kept, -⟩
      rw [← Bool.not_eq_true, late]
      omega
    · intro onTime
      refine ⟨?_, queued⟩
      rw [onTime] at late
      simpa using late

/-- `set_task_budget(Polls(1))` as thread 0, the spawn as thread 1, and the DPC as thread 2
up to the call of `vtable.poll`. -/
def firstPollOfOne : List State.Label :=
  [.call (.setTaskBudget (.polls 1)), go 0, go 0, .call (.spawn .tracked), go 1, go 1, go 1,
    go 1, go 1, go 1, go 1, .dequeue none, go 2, go 2, go 2, go 2, go 2, go 2]

/-- Nobody wakes the task: it is polled once. -/
theorem poll_budget_kept_iff_unwoken :
    ∃ p, (watched .off 2).Reachable p ∧ p.2.budget = some 1 ∧ p.2.polls = 1 ∧
      (p.2.overdue = false → p.2.polls ≤ 1) ∧
      ∀ t, p.1.threads[2]? = some t → Outside t.code →
        ((p.2.polls ≤ 1 ∧ (p.2.woken = true → p.2.requeued = true)) ↔ p.2.overdue = false) := by
  obtain ⟨p, reached, read, polls⟩ := Sys.Reach.exists_of_exec (S := watched .off 2)
    (fun p => p.2.budget = some 1 ∧ p.2.polls = 1) (firstPollOfOne ++ [go 2, go 2])
    (.start ⟨rfl, rfl⟩ : (watched .off 2).Reachable (initial, .first)) (by decide)
  exact ⟨p, reached, read, polls, poll_budget_kept_iff reached read Nat.one_pos⟩

/-- The future wakes itself in its first poll: it is polled a second time by the same
activation. -/
theorem polled_twice_on_budget_of_one :
    ¬ ∀ (mode : Hardening) (i n : Nat) (p : State × Watch), (watched mode i).Reachable p →
      p.2.budget = some n → 1 ≤ n → p.2.polls ≤ n ∧
        ∀ t, p.1.threads[i]? = some t → Outside t.code → p.2.woken = true →
          p.2.requeued = true := by
  intro kept
  obtain ⟨p, reached, read, polls⟩ := Sys.Reach.exists_of_exec (S := watched .off 2)
    (fun p => p.2.budget = some 1 ∧ p.2.polls = 2)
    (firstPollOfOne ++ [.call (.wakeByRef (.activation 2)), go 3, go 3, go 3, go 3,
      go 2, go 2, go 2, go 2])
    (.start ⟨rfl, rfl⟩ : (watched .off 2).Reachable (initial, .first)) (by decide)
  have le := (kept .off 2 1 p reached read Nat.one_pos).1
  omega

end Runs

end Kcom.Dpc
