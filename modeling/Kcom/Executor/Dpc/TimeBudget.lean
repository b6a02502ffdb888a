import Kcom.Executor.Dpc.Activation
import Mathlib.Order.Monotone.Basic

/-!
# The time budget of one activation

In time mode an activation looks at the performance counter once at its start and then
on every eighth turn of its loop. `clock k` is the time at which the thread takes its
`k`-th step, as the counter would show it without a limit on its width; what it reads is
that time modulo 2^64, and the activation is shorter than one revolution.

The counter of turns wraps at 2^32, which is a multiple of 8, so that it agrees modulo 8
with the number of polls however long the activation runs. Polls are late once the budget
is used up. Between two looks at the clock at most eight polls start, and a look that
leaves the loop running has seen no late poll (`overrun_bounded`).
-/

namespace Kcom.Dpc

open Conc

/-! ## The record of an activation -/

/-- What one activation has done, and when. -/
structure Meter where
  /-- The steps of the thread so far. -/
  steps : Nat
  /-- The frequency that the first query reported, and its time. -/
  query : Option (Int × Nat)
  /-- `TASK_BUDGET_TIME_US` as the activation read it. -/
  us : Option Nat
  /-- `time_budget_ticks` -/
  ticks : Option Nat
  polls : Nat
  /-- Polls started when the elapsed ticks had reached the budget. -/
  late : Nat
  deriving DecidableEq, Repr

namespace Meter

def first : Meter where
  steps := 0
  query := none
  us := none
  ticks := none
  polls := 0
  late := 0

/-- At the time `t` the elapsed ticks have reached the budget. -/
def expired (m : Meter) (t : Nat) : Bool :=
  match m.query, m.ticks with
  | some (_, start), some ticks => decide (start + ticks ≤ t)
  | _, _ => false

/-- A step of the thread. -/
def tick (m : Meter) : Meter :=
  { m with steps := m.steps + 1 }

def update (clock : Nat → Nat) (s : State) (c : Choice) (op : Op) (m : Meter) : Meter :=
  match op, c with
  | .loop (.queryStart _ _), .counter freq _ =>
      { m.tick with query := some (freq, clock m.steps) }
  | .loop (.loadTimeUs _ _ freq _), _ =>
      { m.tick with us := some s.budgetTimeUs, ticks := some (budgetTicks s.budgetTimeUs freq) }
  | .loop (.pollStart _), _ =>
      { m.tick with
        polls := m.polls + 1
        late := if m.expired (clock m.steps) then m.late + 1 else m.late }
  | _, _ => m.tick

end Meter

/-- The task with a record of the activation that thread `i` executes. -/
def metered (mode : Hardening) (clock : Nat → Nat) (i : Nat) : Sys (State × Meter) State.Label :=
  (system mode).withHistory .first (ofThread i (Meter.update clock))

/-- The operation calls `KeQueryPerformanceCounter`. -/
def Op.queries : Op → Bool
  | .loop (.queryStart _ _) => true
  | .loop (.queryNow _) => true
  | _ => false

/-- The counter shows the time `t`. -/
def Choice.shows (t : Nat) : Choice → Bool
  | .counter _ now => decide (now % 2 ^ 64 = t % 2 ^ 64)
  | _ => false

/-- Thread `i` reads the time from the counter, less than one revolution after it has
started to measure. -/
def Clocked (clock : Nat → Nat) (i : Nat) (p : State × Meter) : State.Label → Prop
  | .run j c => j = i → ∀ op ∈ p.1.next i, op.queries = true →
      c.shows (clock p.2.steps) = true ∧
        ∀ q ∈ p.2.query, clock p.2.steps < q.2 + 2 ^ 64
  | _ => True

instance (clock : Nat → Nat) (i : Nat) (p : State × Meter) :
    (a : State.Label) → Decidable (Clocked clock i p a)
  | .run j c => inferInstanceAs (Decidable (j = i → ∀ op ∈ p.1.next i, op.queries = true →
      c.shows (clock p.2.steps) = true ∧ ∀ q ∈ p.2.query, clock p.2.steps < q.2 + 2 ^ 64))
  | .dequeue _ => inferInstanceAs (Decidable True)
  | .call _ => inferInstanceAs (Decidable True)

/-! ## The arithmetic of the clock -/

/-- Two readings less than one revolution apart differ by the time between them. -/
theorem elapsed_eq {start now t : Nat} (after : start ≤ t) (near : t < start + 2 ^ 64)
    (shown : now % 2 ^ 64 = t % 2 ^ 64) :
    (now % 2 ^ 64 + (2 ^ 64 - start % 2 ^ 64)) % 2 ^ 64 = t - start := by
  omega

theorem budgetTicks_le (us freq : Nat) : budgetTicks us freq ≤ us * freq / 1000000 :=
  Nat.div_le_div_right (Nat.min_le_left _ _)

theorem budgetTicks_lt (us freq : Nat) : budgetTicks us freq < 2 ^ 64 := by
  have small : min (us * freq) (2 ^ 64 - 1) < 2 ^ 64 := by omega
  exact Nat.lt_of_le_of_lt (Nat.div_le_self _ _) small

/-! ## Turns, looks and late polls -/

namespace Meter

variable {clock : Nat → Nat} {m : Meter} {l : Locals} {op : Loop}

/-- The budget is the one the source computes, from what the activation has read. -/
def Priced (m : Meter) : Prop :=
  ∀ ticks, m.ticks = some ticks → ∃ freq start us, m.query = some (freq, start) ∧
    m.us = some us ∧ ticks = budgetTicks us (frequency freq)

/-- Nothing is measured, or not yet. -/
structure Unmeasured (m : Meter) : Prop where
  ticks : m.ticks = none
  late : m.late = 0

/-- The local variables agree with the record, and a poll was late only if the budget is
used up by now. -/
structure Timed (clock : Nat → Nat) (m : Meter) (l : Locals) (start : Nat) : Prop where
  ticks : m.ticks = some l.timeBudgetTicks
  priced : m.Priced
  query : ∃ freq, m.query = some (freq, start)
  startTicks : l.timeStartTicks = start % 2 ^ 64
  after : start ≤ clock m.steps
  expired : 0 < m.late → start + l.timeBudgetTicks ≤ clock m.steps

/-- Before a poll: the late polls are among those since the last look at the clock. -/
def Ahead (clock : Nat → Nat) (m : Meter) (l : Locals) : Prop :=
  (l.mode = .polls → m.Unmeasured) ∧
    (l.mode = .timeUs → ∃ start, m.Timed clock l start ∧
      l.timeCheckCounter = m.polls % 2 ^ 32 ∧ m.late ≤ m.polls % 8)

/-- In a poll and until `scheduled` is looked at: the turn has not been counted. -/
def Behind (clock : Nat → Nat) (m : Meter) (l : Locals) : Prop :=
  (l.mode = .polls → m.Unmeasured) ∧
    (l.mode = .timeUs → ∃ start, m.Timed clock l start ∧
      (l.timeCheckCounter + 1) % 2 ^ 32 = m.polls % 2 ^ 32 ∧ 0 < m.polls ∧
      m.late ≤ (m.polls - 1) % 8 + 1)

/-- Past the last poll. -/
def Closed (m : Meter) : Prop :=
  m.Priced ∧ m.late ≤ 8

def InLoop (clock : Nat → Nat) (m : Meter) : Loop → Prop
  | .setCurrent _ => m.Unmeasured ∧ m.polls = 0
  | .loadMode _ => m.Unmeasured ∧ m.polls = 0
  | .loadPolls _ _ => m.Unmeasured ∧ m.polls = 0
  | .queryStart _ _ => m.Unmeasured ∧ m.polls = 0
  | .loadTimeUs _ _ freq start => (m.Unmeasured ∧ m.polls = 0) ∧
      ∃ raw t, m.query = some (raw, t) ∧ freq = frequency raw ∧ start = t % 2 ^ 64 ∧
        t ≤ clock m.steps
  | .pollStart l => m.Ahead clock l
  | .polling l => m.Behind clock l
  | .loadScheduled l => m.Behind clock l
  | .queryNow l => l.mode = .timeUs ∧ ∃ start, m.Timed clock l start ∧
      l.timeCheckCounter = m.polls % 2 ^ 32 ∧ m.polls % 8 = 0 ∧ m.late ≤ 8
  | .clearScheduled l => m.Ahead clock l
  | .storeCompleted _ => m.Closed
  | .dropFuture _ => m.Closed
  | .dropping _ => m.Closed

/-- What the record says of an activation with this code. -/
def Along (clock : Nat → Nat) (m : Meter) (code : List Op) : Prop :=
  Course (m.Unmeasured ∧ m.polls = 0) (m.InLoop clock) m.Closed m.Closed code

theorem Unmeasured.closed (unmeasured : m.Unmeasured) : m.Closed := by
  refine ⟨fun ticks read => ?_, by rw [unmeasured.late]; exact Nat.zero_le 8⟩
  rw [unmeasured.ticks] at read
  cases read

theorem Unmeasured.tick (unmeasured : m.Unmeasured) : m.tick.Unmeasured :=
  ⟨unmeasured.ticks, unmeasured.late⟩

theorem Timed.tick {start : Nat} (mono : Monotone clock) (timed : m.Timed clock l start) :
    m.tick.Timed clock l start := by
  have later : clock m.steps ≤ clock (m.steps + 1) := mono (Nat.le_succ _)
  refine ⟨timed.ticks, timed.priced, timed.query, timed.startTicks, timed.after.trans later, ?_⟩
  intro late
  exact (timed.expired late).trans later

/-- What is timed does not depend on the other local variables. -/
theorem Timed.counter {start counter : Nat} (timed : m.Timed clock l start) :
    m.Timed clock { l with timeCheckCounter := counter } start :=
  ⟨timed.ticks, timed.priced, timed.query, timed.startTicks, timed.after, timed.expired⟩

theorem Ahead.tick (mono : Monotone clock) (ahead : m.Ahead clock l) : m.tick.Ahead clock l := by
  refine ⟨fun inPolls => (ahead.1 inPolls).tick, fun inTime => ?_⟩
  obtain ⟨start, timed, counter, late⟩ := ahead.2 inTime
  exact ⟨start, timed.tick mono, counter, late⟩

theorem Behind.tick (mono : Monotone clock) (behind : m.Behind clock l) :
    m.tick.Behind clock l := by
  refine ⟨fun inPolls => (behind.1 inPolls).tick, fun inTime => ?_⟩
  obtain ⟨start, timed, counter, some, late⟩ := behind.2 inTime
  exact ⟨start, timed.tick mono, counter, some, late⟩

theorem Behind.closed (behind : m.Behind clock l) : m.Closed := by
  cases mode : l.mode with
  | polls => exact (behind.1 mode).closed
  | timeUs =>
      obtain ⟨start, timed, -, -, late⟩ := behind.2 mode
      exact ⟨timed.priced, by omega⟩

/-- A poll starts. -/
theorem Ahead.pollStart (mono : Monotone clock) (ahead : m.Ahead clock l) :
    Behind clock { m.tick with
      polls := m.polls + 1
      late := if m.expired (clock m.steps) then m.late + 1 else m.late } l := by
  refine ⟨fun inPolls => ?_, fun inTime => ?_⟩
  · have unmeasured := ahead.1 inPolls
    have early : m.expired (clock m.steps) = false := by
      simp only [Meter.expired, unmeasured.ticks]
      split <;> first | rfl | contradiction
    rw [early]
    exact ⟨unmeasured.ticks, unmeasured.late⟩
  · obtain ⟨start, timed, counter, late⟩ := ahead.2 inTime
    obtain ⟨freq, query⟩ := timed.query
    have later : clock m.steps ≤ clock (m.steps + 1) := mono (Nat.le_succ _)
    refine ⟨start, ⟨timed.ticks, timed.priced, timed.query, timed.startTicks,
      timed.after.trans later, ?_⟩, ?_, Nat.succ_pos _, ?_⟩
    · intro some
      refine Nat.le_trans ?_ later
      simp only [Meter.expired, query, timed.ticks, decide_eq_true_eq] at some
      split at some
      · assumption
      · exact timed.expired some
    · rw [counter]
      change (m.polls % 2 ^ 32 + 1) % 2 ^ 32 = (m.polls + 1) % 2 ^ 32
      omega
    · change (if m.expired (clock m.steps) then m.late + 1 else m.late) ≤
        (m.polls + 1 - 1) % 8 + 1
      split <;> omega

/-- The poll was followed by a wake: the turn is counted, and every eighth looks at the
clock. -/
theorem Behind.woken (behind : m.Behind clock l) : m.Along clock (afterWoken l) := by
  cases mode : l.mode with
  | polls =>
      have unmeasured := behind.1 mode
      rw [afterWoken_polls mode]
      split
      · exact .addRef l.cpu unmeasured.closed
      · refine .loop _ ⟨fun _ => unmeasured, fun inTime => ?_⟩
        rw [mode] at inTime
        cases inTime
  | timeUs =>
      obtain ⟨start, timed, counter, some, late⟩ := behind.2 mode
      rw [afterWoken_timeUs mode, counter]
      split
      · next eighth =>
          exact .loop _ ⟨mode, start, timed.counter, rfl, by omega, by omega⟩
      · next between =>
          refine .loop _ ⟨fun inPolls => ?_, fun _ => ⟨start, timed.counter, rfl, by omega⟩⟩
          rw [mode] at inPolls
          cases inPolls

/-- One step of the loop. -/
theorem InLoop.step {s s₁ : State} {i : Nat} {c : Choice} {push : List Op}
    (mono : Monotone clock) (inLoop : m.InLoop clock op)
    (clocked : (Op.loop op).queries = true → c.shows (clock m.steps) = true ∧
      ∀ q ∈ m.query, clock m.steps < q.2 + 2 ^ 64)
    (performed : s.performLoop i c op = some (s₁, push)) :
    (update clock s c (.loop op) m).Along clock push := by
  cases op with
  | setCurrent n | loadMode cpu =>
      cases performed
      exact .loop _ ⟨inLoop.1.tick, inLoop.2⟩
  | loadPolls cpu mode =>
      cases mode with
      | polls =>
          cases performed
          refine .loop _ ⟨fun _ => inLoop.1.tick, fun inTime => ?_⟩
          cases inTime
      | timeUs =>
          cases performed
          exact .loop _ ⟨inLoop.1.tick, inLoop.2⟩
  | queryStart cpu polls =>
      cases c with
      | counter freq now =>
          cases performed
          have shown := of_decide_eq_true (clocked rfl).1
          exact .loop _ ⟨⟨⟨inLoop.1.ticks, inLoop.1.late⟩, inLoop.2⟩, freq, clock m.steps, rfl,
            rfl, shown, mono (Nat.le_succ _)⟩
      | _ => cases performed
  | loadTimeUs cpu polls freq start =>
      obtain ⟨⟨unmeasured, none⟩, raw, t, query, rfl, rfl, after⟩ := inLoop
      cases performed
      refine .loop _ ⟨fun inPolls => ?_, fun _ => ⟨t, ⟨rfl, ?_, ⟨raw, query⟩, rfl, ?_, ?_⟩, ?_, ?_⟩⟩
      · cases inPolls
      · intro ticks read
        exact ⟨raw, t, s.budgetTimeUs, query, rfl, (Option.some.inj read).symm⟩
      · exact after.trans (mono (Nat.le_succ _))
      · intro late
        exact absurd unmeasured.late (Nat.ne_of_gt late)
      · exact (congrArg (· % 2 ^ 32) none).symm
      · exact (Nat.le_of_eq unmeasured.late).trans (Nat.zero_le _)
  | pollStart l =>
      cases performed
      exact .loop _ (Ahead.pollStart mono inLoop)
  | polling l =>
      simp only [State.performLoop] at performed
      split at performed
      · cases performed
      · split at performed <;> cases performed
        · exact .loop _ (Behind.tick mono inLoop).closed
        · exact .loop _ (Behind.tick mono inLoop)
  | loadScheduled l =>
      cases performed
      have behind := Behind.tick mono inLoop
      split
      · exact behind.woken
      · exact .left behind.closed (.exit l.cpu)
  | queryNow l =>
      obtain ⟨inTime, start, timed, counter, eighth, late⟩ := inLoop
      cases c with
      | counter freq now =>
          cases performed
          obtain ⟨shows, near⟩ := clocked rfl
          obtain ⟨raw, query⟩ := timed.query
          have elapsed := elapsed_eq timed.after (near _ query) (of_decide_eq_true shows)
          rw [timed.startTicks, elapsed]
          split
          · exact .addRef l.cpu ⟨timed.priced, late⟩
          · next running =>
              have none : m.late = 0 := by
                rcases Nat.eq_zero_or_pos m.late with none | some
                · exact none
                · have := timed.expired some
                  omega
              refine .loop _ ⟨fun inPolls => ?_, fun _ => ⟨start, timed.tick mono, counter, ?_⟩⟩
              · rw [inTime] at inPolls
                cases inPolls
              · change m.late ≤ m.polls % 8
                omega
      | _ => cases performed
  | clearScheduled l =>
      cases performed
      exact .loop _ (Ahead.tick mono inLoop)
  | storeCompleted cpu | dropFuture cpu =>
      cases performed
      exact .loop _ inLoop
  | dropping cpu =>
      cases performed
      exact .left inLoop (.exit cpu)

/-- One step of the activation. -/
theorem Along.step {mode : Hardening} {s s₁ : State} {i : Nat} {c : Choice} {op : Op}
    {rest push : List Op} (mono : Monotone clock) (held : m.Along clock (op :: rest))
    (clocked : op.queries = true → c.shows (clock m.steps) = true ∧
      ∀ q ∈ m.query, clock m.steps < q.2 + 2 ^ 64)
    (performed : s.perform mode i c op = some (s₁, push)) :
    (update clock s c op m).Along clock (push ++ rest) := by
  refine Course.step (E := fun m : Meter => m.Unmeasured ∧ m.polls = 0) (I := InLoop clock)
    (Q := Closed) (L := Closed) (u := update clock s c) held performed ?_ ?_ ?_ ?_ ?_ ?_ ?_
  · intro cpu idle
    exact ⟨⟨idle.1.tick, idle.2⟩, ⟨idle.1.tick, idle.2⟩, ⟨idle.1.tick, idle.2⟩⟩
  · intro m idle
    exact ⟨fun n => idle, fun cpu => idle⟩
  · exact fun m idle => idle.1.closed
  · rintro l rfl inLoop looped
    exact inLoop.step mono clocked looped
  · exact id
  · exact id
  · intro free closed
    have same : update clock s c op m = m.tick := by
      unfold update
      split <;> first | rfl | cases free
    rw [same]
    exact closed

/-- The bound of every record, inside the loop or past it. -/
theorem Along.closed {code : List Op} (held : m.Along clock code) : m.Closed := by
  have ofAhead : ∀ l, m.Ahead clock l → m.Closed := by
    intro l ahead
    cases mode : l.mode with
    | polls => exact (ahead.1 mode).closed
    | timeUs =>
        obtain ⟨start, timed, -, late⟩ := ahead.2 mode
        exact ⟨timed.priced, by omega⟩
  cases held with
  | clearScheduled cpu idle | checkCompleted cpu idle | rawWaker cpu idle => exact idle.1.closed
  | addRef cpu closed | insertQueueDpc cpu closed => exact closed
  | left closed _ => exact closed
  | loop op inLoop =>
      cases op with
      | setCurrent | loadMode | loadPolls | queryStart => exact inLoop.1.closed
      | loadTimeUs => exact inLoop.1.1.closed
      | queryNow l =>
          obtain ⟨-, start, timed, -, -, late⟩ := inLoop
          exact ⟨timed.priced, late⟩
      | pollStart l | clearScheduled l => exact ofAhead l inLoop
      | polling l | loadScheduled l => exact Behind.closed inLoop
      | storeCompleted | dropFuture | dropping => exact inLoop

end Meter

/-! ## Every run -/

section Runs

variable {mode : Hardening} {clock : Nat → Nat} {i : Nat} {p : State × Meter}

theorem closed_of_reach (mono : Monotone clock)
    (reached : (metered mode clock i).Reach (Clocked clock i) p) : p.2.Closed := by
  have fresh : Meter.first.Unmeasured := ⟨rfl, rfl⟩
  have held := along (P := Meter.Along clock) (fun code outside => .left fresh.closed outside)
    (fun cpu => .clearScheduled cpu ⟨fresh, rfl⟩)
    (fun s c op rest s₁ push m guard next performed held =>
      held.step mono (guard rfl op next) performed) reached
  rcases held with ⟨-, same⟩ | ⟨t, -, held⟩
  · rw [same]
    exact fresh.closed
  · exact held.closed

/-- At most eight polls start once the elapsed ticks have reached the budget, and the budget
is at most the time asked for at the frequency of the counter, or at a frequency of 1 where
the counter reports none. -/
theorem overrun_bounded (mono : Monotone clock)
    (reached : (metered mode clock i).Reach (Clocked clock i) p) :
    p.2.late ≤ 8 ∧ ∀ freq start us ticks, p.2.query = some (freq, start) → p.2.us = some us →
      p.2.ticks = some ticks → ticks ≤ us * frequency freq / 1000000 ∧ ticks < 2 ^ 64 := by
  obtain ⟨priced, late⟩ := closed_of_reach mono reached
  refine ⟨late, fun freq start us ticks query read computed => ?_⟩
  obtain ⟨freq', start', us', query', read', rfl⟩ := priced ticks computed
  rw [query, Option.some.injEq, Prod.mk.injEq] at query'
  rw [read, Option.some.injEq] at read'
  obtain ⟨rfl, rfl⟩ := query'
  subst read'
  exact ⟨budgetTicks_le us (frequency freq), budgetTicks_lt us (frequency freq)⟩

/-- `set_task_budget(TimeUs(us))` as thread 0, the spawn as thread 1, and the DPC as thread 2
up to the call of `vtable.poll`, on a counter of frequency `freq` that shows `start`. -/
def firstTimedPoll (us : Nat) (freq : Int) (start : Nat) : List State.Label :=
  [.call (.setTaskBudget (.timeUs us)), go 0, go 0, .call (.spawn .tracked), go 1, go 1, go 1,
    go 1, go 1, go 1, go 1, .dequeue none, go 2, go 2, go 2, go 2, go 2,
    .run 2 (.counter freq start), go 2, go 2]

/-- One microsecond at 10 MHz, and ten ticks for each step: the first poll is late. -/
theorem overrun_bounded_late :
    ∃ p, (metered .off (fun k => 10 * k) 2).Reach (Clocked (fun k => 10 * k) 2) p ∧
      (p.2.ticks = some 10 ∧ p.2.late = 1) ∧ p.2.late ≤ 8 ∧
      ∀ freq start us ticks, p.2.query = some (freq, start) → p.2.us = some us →
        p.2.ticks = some ticks → ticks ≤ us * frequency freq / 1000000 ∧ ticks < 2 ^ 64 := by
  have mono : Monotone fun k : Nat => 10 * k := by
    intro k k' le
    exact Nat.mul_le_mul_left 10 le
  obtain ⟨p, reached, late⟩ := Sys.Reach.exists_of_execIf
    (fun p : State × Meter => p.2.ticks = some 10 ∧ p.2.late = 1)
    (firstTimedPoll 1 10000000 50)
    (.start ⟨rfl, rfl⟩ : (metered .off (fun k => 10 * k) 2).Reach
      (Clocked (fun k => 10 * k) 2) (initial, .first)) (by decide)
  exact ⟨p, reached, late, overrun_bounded mono reached⟩

/-- A counter that reports a frequency of 0: a second is one tick, not none. -/
theorem ticks_of_no_frequency :
    ¬ ∀ (mode : Hardening) (clock : Nat → Nat) (i : Nat) (p : State × Meter), Monotone clock →
      (metered mode clock i).Reach (Clocked clock i) p → p.2.late ≤ 8 ∧
      ∀ freq start us ticks, p.2.query = some (freq, start) → p.2.us = some us →
        p.2.ticks = some ticks → (ticks : Int) ≤ us * freq / 1000000 ∧ ticks < 2 ^ 64 := by
  intro exact
  obtain ⟨p, reached, query, us, ticks⟩ := Sys.Reach.exists_of_execIf
    (fun p : State × Meter => p.2.query = some (0, 5) ∧ p.2.us = some 1000000 ∧ p.2.ticks = some 1)
    (firstTimedPoll 1000000 0 5)
    (.start ⟨rfl, rfl⟩ : (metered .off (fun _ => 5) 2).Reach (Clocked (fun _ => 5) 2)
      (initial, .first)) (by decide)
  have le := ((exact .off _ 2 p monotone_const reached).2 0 5 1000000 1 query us ticks).1
  exact absurd le (by decide)

end Runs

end Kcom.Dpc
