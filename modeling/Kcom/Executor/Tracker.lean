import Kcom.Conc.System
import Kcom.Conc.Pool

/-!
# Task and work-item trackers

`TaskTracker` and `WorkItemTracker` (`src/executor.rs`) are the same counter and
event under two names: `begin` counts an item in and re-initialises the event on
the crossing from 0 to 1, `complete` counts it out and sets the event on the
crossing from 1 to 0, `drain` returns at once on a zero counter and otherwise
waits for the event. `fetch_add`, `fetch_sub`, the load, `KeInitializeEvent`,
`KeSetEvent` and `KeWaitForSingleObject` are one step each, and any number of
calls interleave.

The counter and the event move in separate steps. A completer that has brought
the counter to 0 and has not yet set the event (`State.setters`) is the only
thing that can set them apart, and both results below are about the runs that
keep new items and the drain's fast path out of that window.
-/

namespace Kcom.Tracker

open Conc

/-- The function a thread is executing. -/
inductive Call
  | begin
  | complete
  | drain
  deriving DecidableEq, Repr

/-- The steps of `begin`, `complete` and `drain`. -/
inductive Op
  | fetchAdd
  | initializeEvent
  | fetchSub
  | setEvent
  | load
  | wait
  deriving DecidableEq, Repr

/-- What a call does first; the rest is pushed by `State.perform`. -/
def Call.code : Call → List Op
  | .begin => [.fetchAdd]
  | .complete => [.fetchSub]
  | .drain => [.load]

structure State where
  /-- The `AtomicU32`. -/
  pending : Nat
  /-- The auto-reset event. -/
  signaled : Bool
  threads : List (Thread Call Op)
  /-- Items whose `fetch_add` was executed and whose `fetch_sub` was not. -/
  items : Nat
  /-- Items whose `begin` has returned and whose `complete` was not called. -/
  unclaimed : Nat
  /-- `drain` was called: no `begin` is called any more. -/
  closed : Bool
  /-- Some `drain` has returned. -/
  drained : Bool
  deriving DecidableEq, Repr

/-- A tracker with nothing pending, its event initialised to `signaled`. -/
def create (signaled : Bool) : State where
  pending := 0
  signaled := signaled
  threads := []
  items := 0
  unclaimed := 0
  closed := false
  drained := false

/-- `TaskTracker::new`: the event starts signaled. -/
def TaskTracker.new : State := create true

/-- `WorkItemTracker::new`: the event starts signaled. -/
def WorkItemTracker.new : State := create true

/-- How many calls of a pool have the operation `p` before them. -/
def awaiting (p : Op) (threads : List (Thread Call Op)) : Nat :=
  load (fun op => if op = p then 1 else 0) threads

namespace State

/-- The next operation of thread `i`. -/
def next (s : State) (i : Nat) : Option Op :=
  (s.threads[i]?).bind fun t => t.code.head?

/-- `complete` calls between their `fetch_sub` to 0 and their `KeSetEvent`. -/
def setters (s : State) : Nat := awaiting .setEvent s.threads

/-- Perform one operation on the shared fields; the second component is what the
calling function does next. `KeWaitForSingleObject` blocks until the event is
signaled and resets it. -/
def perform (s : State) : Op → Option (State × List Op)
  | .fetchAdd =>
      some ({ s with pending := (s.pending + 1) % 2 ^ 32, items := s.items + 1 },
        if s.pending = 0 then [.initializeEvent] else [])
  | .initializeEvent => some ({ s with signaled := false }, [])
  | .fetchSub =>
      some ({ s with pending := (s.pending + (2 ^ 32 - 1)) % 2 ^ 32, items := s.items - 1 },
        if s.pending = 1 then [.setEvent] else [])
  | .setEvent => some ({ s with signaled := true }, [])
  | .load => some (s, if s.pending = 0 then [] else [.wait])
  | .wait => if s.signaled then some ({ s with signaled := false }, []) else none

/-- A call that has nothing left to do returns. -/
def finish (s : State) (call : Call) (code : List Op) : State :=
  if code = [] then
    match call with
    | .begin => { s with unclaimed := s.unclaimed + 1 }
    | .complete => s
    | .drain => { s with drained := true }
  else s

/-- One step: thread `i` performs its next operation, or a client calls a
function. `begin` is called only before `drain`, `complete` only for an item
whose `begin` has returned, `drain` only once every `begin` has returned. -/
inductive Label
  | run (i : Nat)
  | call (f : Call)
  deriving DecidableEq, Repr

/-- Whether a client may call `f`. -/
def callable (s : State) : Call → Bool
  | .begin => !s.closed
  | .complete => 0 < s.unclaimed
  | .drain => awaiting .fetchAdd s.threads + awaiting .initializeEvent s.threads = 0

/-- The bookkeeping of a call being made. -/
def enter (s : State) : Call → State
  | .begin => s
  | .complete => { s with unclaimed := s.unclaimed - 1 }
  | .drain => { s with closed := true }

def step (s : State) : Label → Option State
  | .run i =>
      match s.threads[i]? with
      | some ⟨f, op :: rest⟩ =>
          (s.perform op).map fun (s', push) =>
            { s' with threads := s.threads.set i ⟨f, push ++ rest⟩ }.finish f (push ++ rest)
      | _ => none
  | .call f =>
      if s.callable f then some { s.enter f with threads := s.threads ++ [⟨f, f.code⟩] } else none

end State

/-- Both trackers. -/
def system : Sys State State.Label where
  start s := s = TaskTracker.new ∨ s = WorkItemTracker.new
  step := State.step

/-- The step `a` is the return of a `drain` call. -/
def DrainReturns (s : State) (a : State.Label) (s' : State) : Prop :=
  ∃ i op rest, a = .run i ∧ s.threads[i]? = some ⟨.drain, op :: rest⟩ ∧
    s'.threads[i]? = some ⟨.drain, []⟩

/-- The step `a` is a step of a `complete` call; each of them accesses the
counter or the event. -/
def CompleteSteps (s : State) (a : State.Label) : Prop :=
  ∃ i op rest, a = .run i ∧ s.threads[i]? = some ⟨.complete, op :: rest⟩

/-! ## One step at a time -/

namespace State

variable {s s' : State} {i : Nat} {f : Call} {code : List Op}

@[simp] theorem finish_threads : (s.finish f code).threads = s.threads := by
  unfold finish; split <;> [cases f; skip] <;> rfl

@[simp] theorem finish_items : (s.finish f code).items = s.items := by
  unfold finish; split <;> [cases f; skip] <;> rfl

@[simp] theorem finish_closed : (s.finish f code).closed = s.closed := by
  unfold finish; split <;> [cases f; skip] <;> rfl

@[simp] theorem finish_cons {op : Op} : s.finish f (op :: code) = s := rfl

/-- What the step of thread `i` does. -/
theorem step_run (h : s.step (.run i) = some s') :
    ∃ f op rest s₁ push, s.threads[i]? = some ⟨f, op :: rest⟩ ∧
      s.perform op = some (s₁, push) ∧
      s' = { s₁ with threads := s.threads.set i ⟨f, push ++ rest⟩ }.finish f (push ++ rest) := by
  simp only [step] at h
  split at h
  · obtain ⟨⟨s₁, push⟩, performed, rfl⟩ := Option.map_eq_some_iff.mp h
    exact ⟨_, _, _, s₁, push, ‹_›, performed, rfl⟩
  · cases h

/-- What a call does. -/
theorem step_call (h : s.step (.call f) = some s') :
    s.callable f = true ∧ s' = { s.enter f with threads := s.threads ++ [⟨f, f.code⟩] } := by
  simp only [step] at h
  split at h
  · exact ⟨‹_›, (Option.some.inj h).symm⟩
  · cases h

end State

/-- The code a call of `f` can have left. -/
def Call.Stage : Call → List Op → Prop
  | .begin, code => code = [.fetchAdd] ∨ code = [.initializeEvent] ∨ code = []
  | .complete, code => code = [.fetchSub] ∨ code = [.setEvent] ∨ code = []
  | .drain, code => code = [.load] ∨ code = [.wait] ∨ code = []

/-- The steps that keep the counter and the event together: the event is set only
while nothing is counted in or before the `begin` that counted up from 0 has
re-initialised it, and the 32-bit counter does not wrap. -/
def Timely (s : State) : State.Label → Prop
  | .run i =>
      (s.next i = some .setEvent → s.pending = 0 ∨ 0 < awaiting .initializeEvent s.threads) ∧
        (s.next i = some .fetchAdd → s.items + 1 < 2 ^ 32)
  | .call _ => True

/-- The timely steps that leave a completer alone between its `fetch_sub` to 0 and
its `KeSetEvent`: meanwhile no other completer brings the counter to 0 and no
`drain` reads 0. -/
def Fenced (s : State) : State.Label → Prop
  | .run i =>
      Timely s (.run i) ∧ (s.next i = some .fetchSub → s.pending = 1 → s.setters = 0) ∧
        (s.next i = some .load → s.pending = 0 → s.setters = 0)
  | .call _ => True

instance (s : State) (a : State.Label) : Decidable (Timely s a) := by
  unfold Timely; split <;> infer_instance

instance (s : State) (a : State.Label) : Decidable (Fenced s a) := by
  unfold Fenced; split <;> infer_instance

/-- How the counter, the event and the calls stand to each other in a timely
run. -/
structure Aligned (s : State) : Prop where
  pending : s.pending = s.items
  noWrap : s.items < 2 ^ 32
  /-- Every item counted in is in its `begin`, waits for its `complete`, or is in
  its `complete`. -/
  items : s.items = s.unclaimed + awaiting .fetchSub s.threads + awaiting .initializeEvent s.threads
  signal : s.signaled = true → s.items = 0 ∨ 0 < awaiting .initializeEvent s.threads
  closed : s.closed = true →
    awaiting .fetchAdd s.threads = 0 ∧ awaiting .initializeEvent s.threads = 0

/-- What holds in every state of a timely run. -/
structure Inv (s : State) : Prop extends Aligned s where
  stage : ∀ t ∈ s.threads, t.tag.Stage t.code
  drainer : ∀ t ∈ s.threads, t.tag = .drain → s.closed = true

/-- What holds besides in every state of a fenced run. -/
structure Settled (s : State) : Prop where
  oneSetter : awaiting .setEvent s.threads ≤ 1
  /-- While a completer is about to set the event it is not signaled. -/
  quiet : s.signaled = true → awaiting .setEvent s.threads = 0
  /-- Once a `drain` has returned nothing is left to complete. -/
  drained : s.drained = true →
    s.closed = true ∧ s.items = 0 ∧ awaiting .setEvent s.threads = 0

theorem Inv.create (signaled : Bool) : Inv (create signaled) where
  pending := rfl
  noWrap := by simp [Tracker.create]
  items := rfl
  signal _ := Or.inl rfl
  closed h := by cases h
  stage t mem := by cases mem
  drainer t mem := by cases mem

theorem Settled.create (signaled : Bool) : Settled (create signaled) where
  oneSetter := Nat.zero_le 1
  quiet _ := rfl
  drained h := by cases h

/-! ## The invariants along a run -/

section Steps

variable {s s' : State} {i : Nat} {f : Call} {op p : Op} {push : List Op}
  {threads : List (Thread Call Op)}

theorem awaiting_append (p : Op) (f : Call) (code : List Op) :
    awaiting p (threads ++ [⟨f, code⟩]) = awaiting p threads + code.count p := by
  simp only [awaiting, load_append, load_cons, load_nil, Nat.add_zero, total_count]

theorem awaiting_set (p : Op) (push : List Op) (thread : threads[i]? = some ⟨f, [op]⟩) :
    awaiting p (threads.set i ⟨f, push⟩) + [op].count p = awaiting p threads + push.count p := by
  have moved := load_set (fun q => if q = p then 1 else 0) f push thread
  rw [List.append_nil, total_count] at moved
  rw [← total_count, total_cons, total_nil, Nat.add_zero]
  exact moved

/-- How the counts of a pool move when a thread performs `op` and has `push`
left. -/
theorem counts (push : List Op) (thread : threads[i]? = some ⟨f, [op]⟩) :
    0 < awaiting op threads ∧
      awaiting .fetchAdd (threads.set i ⟨f, push⟩) + [op].count .fetchAdd =
        awaiting .fetchAdd threads + push.count .fetchAdd ∧
      awaiting .initializeEvent (threads.set i ⟨f, push⟩) + [op].count .initializeEvent =
        awaiting .initializeEvent threads + push.count .initializeEvent ∧
      awaiting .fetchSub (threads.set i ⟨f, push⟩) + [op].count .fetchSub =
        awaiting .fetchSub threads + push.count .fetchSub ∧
      awaiting .setEvent (threads.set i ⟨f, push⟩) + [op].count .setEvent =
        awaiting .setEvent threads + push.count .setEvent := by
  have head := head_le_load (fun q => if q = op then 1 else 0) thread
  rw [if_pos rfl] at head
  exact ⟨head, awaiting_set _ push thread, awaiting_set _ push thread, awaiting_set _ push thread,
    awaiting_set _ push thread⟩

/-- A thread goes on from `op` to `push`: what is left to check are the counts. -/
theorem Inv.of_thread (inv : Inv s) (thread : s.threads[i]? = some ⟨f, [op]⟩)
    (threads : s'.threads = s.threads.set i ⟨f, push⟩) (closed : s'.closed = s.closed)
    (next : f.Stage push) (aligned : Aligned s') : Inv s' where
  toAligned := aligned
  stage := by
    intro t mem
    rw [threads] at mem
    rcases List.mem_or_eq_of_mem_set mem with old | rfl
    · exact inv.stage t old
    · exact next
  drainer := by
    intro t mem tag
    rw [threads] at mem
    rw [closed]
    rcases List.mem_or_eq_of_mem_set mem with old | rfl
    · exact inv.drainer t old tag
    · exact inv.drainer _ (List.mem_of_getElem? thread) tag

/-- Counting an item in, with the counter free of wrap-around. -/
theorem Inv.fetchAdd (inv : Inv s) (thread : s.threads[i]? = some ⟨.begin, [.fetchAdd]⟩)
    (room : s.items + 1 < 2 ^ 32) (performed : s.perform .fetchAdd = some (s', push)) :
    Inv ({ s' with threads := s.threads.set i ⟨.begin, push⟩ }.finish .begin push) := by
  obtain ⟨pos, begins, inits, subs, sets⟩ := counts push thread
  obtain ⟨pending, noWrap, items, signal, closed⟩ := inv.toAligned
  simp only [State.perform, Option.some.injEq, Prod.mk.injEq] at performed
  obtain ⟨rfl, rfl⟩ := performed
  by_cases zero : s.pending = 0
  · rw [if_pos zero] at begins inits subs sets ⊢
    refine inv.of_thread thread rfl rfl (by simp [Call.Stage]) ?_
    simp only [List.count_cons, List.count_nil, State.finish_cons] at begins inits subs sets ⊢
    constructor <;> grind
  · rw [if_neg zero] at begins inits subs sets ⊢
    refine inv.of_thread thread State.finish_threads State.finish_closed (by simp [Call.Stage]) ?_
    simp only [List.count_cons, List.count_nil, State.finish] at begins inits subs sets ⊢
    constructor <;> grind

theorem Settled.fetchAdd (inv : Inv s) (settled : Settled s)
    (thread : s.threads[i]? = some ⟨.begin, [.fetchAdd]⟩)
    (performed : s.perform .fetchAdd = some (s', push)) :
    Settled ({ s' with threads := s.threads.set i ⟨.begin, push⟩ }.finish .begin push) := by
  obtain ⟨pos, begins, inits, subs, sets⟩ := counts push thread
  obtain ⟨oneSetter, quiet, drained⟩ := settled
  have closed := inv.closed
  simp only [State.perform, Option.some.injEq, Prod.mk.injEq] at performed
  obtain ⟨rfl, rfl⟩ := performed
  by_cases zero : s.pending = 0
  · rw [if_pos zero] at sets ⊢
    simp only [List.count_cons, List.count_nil, State.finish_cons] at sets ⊢
    constructor <;> grind
  · rw [if_neg zero] at sets ⊢
    simp only [List.count_cons, List.count_nil, State.finish] at sets ⊢
    constructor <;> grind

theorem Inv.initializeEvent (inv : Inv s)
    (thread : s.threads[i]? = some ⟨.begin, [.initializeEvent]⟩)
    (performed : s.perform .initializeEvent = some (s', push)) :
    Inv ({ s' with threads := s.threads.set i ⟨.begin, push⟩ }.finish .begin push) := by
  obtain ⟨pos, begins, inits, subs, sets⟩ := counts push thread
  obtain ⟨pending, noWrap, items, signal, closed⟩ := inv.toAligned
  simp only [State.perform, Option.some.injEq, Prod.mk.injEq] at performed
  obtain ⟨rfl, rfl⟩ := performed
  refine inv.of_thread thread State.finish_threads State.finish_closed (by simp [Call.Stage]) ?_
  simp only [List.count_cons, List.count_nil, State.finish] at begins inits subs sets ⊢
  constructor <;> grind

theorem Settled.initializeEvent (settled : Settled s)
    (thread : s.threads[i]? = some ⟨.begin, [.initializeEvent]⟩)
    (performed : s.perform .initializeEvent = some (s', push)) :
    Settled ({ s' with threads := s.threads.set i ⟨.begin, push⟩ }.finish .begin push) := by
  obtain ⟨pos, begins, inits, subs, sets⟩ := counts push thread
  obtain ⟨oneSetter, quiet, drained⟩ := settled
  simp only [State.perform, Option.some.injEq, Prod.mk.injEq] at performed
  obtain ⟨rfl, rfl⟩ := performed
  simp only [List.count_cons, List.count_nil, State.finish] at sets ⊢
  constructor <;> grind

/-- Counting an item out. On the crossing to 0 it was the only one left. -/
theorem Inv.fetchSub (inv : Inv s) (thread : s.threads[i]? = some ⟨.complete, [.fetchSub]⟩)
    (performed : s.perform .fetchSub = some (s', push)) :
    Inv ({ s' with threads := s.threads.set i ⟨.complete, push⟩ }.finish .complete push) := by
  obtain ⟨pos, begins, inits, subs, sets⟩ := counts push thread
  obtain ⟨pending, noWrap, items, signal, closed⟩ := inv.toAligned
  simp only [State.perform, Option.some.injEq, Prod.mk.injEq] at performed
  obtain ⟨rfl, rfl⟩ := performed
  by_cases one : s.pending = 1
  · rw [if_pos one] at begins inits subs sets ⊢
    refine inv.of_thread thread State.finish_threads State.finish_closed (by simp [Call.Stage]) ?_
    simp only [List.count_cons, List.count_nil, State.finish_cons] at begins inits subs sets ⊢
    constructor <;> grind
  · rw [if_neg one] at begins inits subs sets ⊢
    refine inv.of_thread thread State.finish_threads State.finish_closed (by simp [Call.Stage]) ?_
    simp only [List.count_cons, List.count_nil, State.finish] at begins inits subs sets ⊢
    constructor <;> grind

/-- The event is not signaled while an item is counted in and no `begin` is
about to initialise it, so the completer that leaves 0 finds it reset. -/
theorem Settled.fetchSub (inv : Inv s) (settled : Settled s)
    (thread : s.threads[i]? = some ⟨.complete, [.fetchSub]⟩)
    (alone : s.pending = 1 → s.setters = 0)
    (performed : s.perform .fetchSub = some (s', push)) :
    Settled ({ s' with threads := s.threads.set i ⟨.complete, push⟩ }.finish .complete push) := by
  obtain ⟨pos, begins, inits, subs, sets⟩ := counts push thread
  obtain ⟨oneSetter, quiet, drained⟩ := settled
  obtain ⟨pending, noWrap, items, signal, closed⟩ := inv.toAligned
  simp only [State.setters] at alone
  simp only [State.perform, Option.some.injEq, Prod.mk.injEq] at performed
  obtain ⟨rfl, rfl⟩ := performed
  by_cases one : s.pending = 1
  · rw [if_pos one] at begins inits subs sets ⊢
    simp only [List.count_cons, List.count_nil, State.finish_cons] at begins inits subs sets ⊢
    constructor <;> grind
  · rw [if_neg one] at begins inits subs sets ⊢
    simp only [List.count_cons, List.count_nil, State.finish] at begins inits subs sets ⊢
    constructor <;> grind

theorem Inv.setEvent (inv : Inv s) (thread : s.threads[i]? = some ⟨.complete, [.setEvent]⟩)
    (timely : s.pending = 0 ∨ 0 < awaiting .initializeEvent s.threads)
    (performed : s.perform .setEvent = some (s', push)) :
    Inv ({ s' with threads := s.threads.set i ⟨.complete, push⟩ }.finish .complete push) := by
  obtain ⟨pos, begins, inits, subs, sets⟩ := counts push thread
  obtain ⟨pending, noWrap, items, signal, closed⟩ := inv.toAligned
  simp only [State.perform, Option.some.injEq, Prod.mk.injEq] at performed
  obtain ⟨rfl, rfl⟩ := performed
  refine inv.of_thread thread State.finish_threads State.finish_closed (by simp [Call.Stage]) ?_
  simp only [List.count_cons, List.count_nil, State.finish] at begins inits subs sets ⊢
  constructor <;> grind

theorem Settled.setEvent (settled : Settled s)
    (thread : s.threads[i]? = some ⟨.complete, [.setEvent]⟩)
    (performed : s.perform .setEvent = some (s', push)) :
    Settled ({ s' with threads := s.threads.set i ⟨.complete, push⟩ }.finish .complete push) := by
  obtain ⟨pos, begins, inits, subs, sets⟩ := counts push thread
  obtain ⟨oneSetter, quiet, drained⟩ := settled
  simp only [State.perform, Option.some.injEq, Prod.mk.injEq] at performed
  obtain ⟨rfl, rfl⟩ := performed
  simp only [List.count_cons, List.count_nil, State.finish] at sets ⊢
  constructor <;> grind

theorem Inv.load (inv : Inv s) (thread : s.threads[i]? = some ⟨.drain, [.load]⟩)
    (performed : s.perform .load = some (s', push)) :
    Inv ({ s' with threads := s.threads.set i ⟨.drain, push⟩ }.finish .drain push) := by
  obtain ⟨pos, begins, inits, subs, sets⟩ := counts push thread
  obtain ⟨pending, noWrap, items, signal, closed⟩ := inv.toAligned
  simp only [State.perform, Option.some.injEq, Prod.mk.injEq] at performed
  obtain ⟨rfl, rfl⟩ := performed
  by_cases zero : s.pending = 0
  · rw [if_pos zero] at begins inits subs sets ⊢
    refine inv.of_thread thread State.finish_threads State.finish_closed (by simp [Call.Stage]) ?_
    simp only [List.count_cons, List.count_nil, State.finish] at begins inits subs sets ⊢
    constructor <;> grind
  · rw [if_neg zero] at begins inits subs sets ⊢
    refine inv.of_thread thread State.finish_threads State.finish_closed (by simp [Call.Stage]) ?_
    simp only [List.count_cons, List.count_nil, State.finish_cons] at begins inits subs sets ⊢
    constructor <;> grind

/-- The fast path of `drain`. -/
theorem Settled.load (inv : Inv s) (settled : Settled s)
    (thread : s.threads[i]? = some ⟨.drain, [.load]⟩) (idle : s.pending = 0 → s.setters = 0)
    (performed : s.perform .load = some (s', push)) :
    Settled ({ s' with threads := s.threads.set i ⟨.drain, push⟩ }.finish .drain push) := by
  obtain ⟨pos, begins, inits, subs, sets⟩ := counts push thread
  obtain ⟨oneSetter, quiet, drained⟩ := settled
  have pending := inv.pending
  have wasClosed : s.closed = true := inv.drainer _ (List.mem_of_getElem? thread) rfl
  simp only [State.setters] at idle
  simp only [State.perform, Option.some.injEq, Prod.mk.injEq] at performed
  obtain ⟨rfl, rfl⟩ := performed
  by_cases zero : s.pending = 0
  · rw [if_pos zero] at sets ⊢
    simp only [List.count_cons, List.count_nil, State.finish] at sets ⊢
    constructor <;> grind
  · rw [if_neg zero] at sets ⊢
    simp only [List.count_cons, List.count_nil, State.finish_cons] at sets ⊢
    constructor <;> grind

theorem Inv.wait (inv : Inv s) (thread : s.threads[i]? = some ⟨.drain, [.wait]⟩)
    (performed : s.perform .wait = some (s', push)) :
    Inv ({ s' with threads := s.threads.set i ⟨.drain, push⟩ }.finish .drain push) := by
  obtain ⟨pos, begins, inits, subs, sets⟩ := counts push thread
  obtain ⟨pending, noWrap, items, signal, closed⟩ := inv.toAligned
  simp only [State.perform, Option.ite_none_right_eq_some, Option.some.injEq, Prod.mk.injEq]
    at performed
  obtain ⟨signaled, rfl, rfl⟩ := performed
  refine inv.of_thread thread State.finish_threads State.finish_closed (by simp [Call.Stage]) ?_
  simp only [List.count_cons, List.count_nil, State.finish] at begins inits subs sets ⊢
  constructor <;> grind

/-- The slow path: the event is signaled only after the last completer has set
it. -/
theorem Settled.wait (inv : Inv s) (settled : Settled s)
    (thread : s.threads[i]? = some ⟨.drain, [.wait]⟩)
    (performed : s.perform .wait = some (s', push)) :
    Settled ({ s' with threads := s.threads.set i ⟨.drain, push⟩ }.finish .drain push) := by
  obtain ⟨pos, begins, inits, subs, sets⟩ := counts push thread
  obtain ⟨oneSetter, quiet, drained⟩ := settled
  have signal := inv.signal
  have closed := inv.closed
  have wasClosed : s.closed = true := inv.drainer _ (List.mem_of_getElem? thread) rfl
  simp only [State.perform, Option.ite_none_right_eq_some, Option.some.injEq, Prod.mk.injEq]
    at performed
  obtain ⟨signaled, rfl, rfl⟩ := performed
  simp only [List.count_cons, List.count_nil, State.finish] at sets ⊢
  constructor <;> grind

/-- A timely step of a thread keeps the invariant. -/
theorem Inv.run (inv : Inv s) (timely : Timely s (.run i))
    (step : s.step (.run i) = some s') : Inv s' := by
  obtain ⟨f, op, rest, s₁, push, thread, performed, rfl⟩ := State.step_run step
  have next : s.next i = some op := by simp [State.next, thread]
  have stage : f.Stage (op :: rest) := inv.stage _ (List.mem_of_getElem? thread)
  obtain ⟨inTime, room⟩ := timely
  cases f with
  | begin =>
      rcases stage with stage | stage | stage <;> cases stage <;> rw [List.append_nil]
      · exact inv.fetchAdd thread (room next) performed
      · exact inv.initializeEvent thread performed
  | complete =>
      rcases stage with stage | stage | stage <;> cases stage <;> rw [List.append_nil]
      · exact inv.fetchSub thread performed
      · exact inv.setEvent thread (inTime next) performed
  | drain =>
      rcases stage with stage | stage | stage <;> cases stage <;> rw [List.append_nil]
      · exact inv.load thread performed
      · exact inv.wait thread performed

theorem Settled.run (inv : Inv s) (settled : Settled s) (fenced : Fenced s (.run i))
    (step : s.step (.run i) = some s') : Settled s' := by
  obtain ⟨f, op, rest, s₁, push, thread, performed, rfl⟩ := State.step_run step
  have next : s.next i = some op := by simp [State.next, thread]
  have stage : f.Stage (op :: rest) := inv.stage _ (List.mem_of_getElem? thread)
  obtain ⟨-, subs, loads⟩ := fenced
  cases f with
  | begin =>
      rcases stage with stage | stage | stage <;> cases stage <;> rw [List.append_nil]
      · exact settled.fetchAdd inv thread performed
      · exact settled.initializeEvent thread performed
  | complete =>
      rcases stage with stage | stage | stage <;> cases stage <;> rw [List.append_nil]
      · exact settled.fetchSub inv thread (subs next) performed
      · exact settled.setEvent thread performed
  | drain =>
      rcases stage with stage | stage | stage <;> cases stage <;> rw [List.append_nil]
      · exact settled.load inv thread (loads next) performed
      · exact settled.wait inv thread performed

/-- A call adds its first operation to the pool. -/
theorem Inv.call (inv : Inv s) (step : s.step (.call f) = some s') : Inv s' := by
  obtain ⟨callable, rfl⟩ := State.step_call step
  obtain ⟨pending, noWrap, items, signal, closed⟩ := inv.toAligned
  refine ⟨?_, ?_, ?_⟩
  · cases f <;>
      simp only [State.callable, Bool.not_eq_true', decide_eq_true_eq] at callable <;>
      constructor <;>
      simp only [State.enter, awaiting_append, Call.code, List.count_cons, List.count_nil] <;>
      grind
  · intro t mem
    rcases List.mem_append.mp mem with old | new
    · exact inv.stage t old
    · rw [List.mem_singleton.mp new]
      cases f <;> simp [Call.Stage, Call.code]
  · intro t mem tag
    rcases List.mem_append.mp mem with old | new
    · have wasClosed := inv.drainer t old tag
      cases f <;> simp [State.enter, wasClosed]
    · rw [List.mem_singleton.mp new] at tag
      subst tag
      rfl

theorem Settled.call (settled : Settled s) (step : s.step (.call f) = some s') : Settled s' := by
  obtain ⟨callable, rfl⟩ := State.step_call step
  obtain ⟨oneSetter, quiet, drained⟩ := settled
  cases f <;> constructor <;>
    simp only [State.enter, awaiting_append, Call.code, List.count_cons, List.count_nil] <;>
    grind

end Steps

theorem inv_of_reach {s : State} (reached : system.Reach Timely s) : Inv s := by
  refine Sys.Reach.invariant ?_ ?_ reached
  · intro s first
    rcases first with rfl | rfl <;> exact Inv.create true
  · intro s a s' inv timely step
    cases a with
    | run i => exact inv.run timely step
    | call f => exact inv.call step

theorem settled_of_reach {s : State} (reached : system.Reach Fenced s) : Inv s ∧ Settled s := by
  refine Sys.Reach.invariant (I := fun s => Inv s ∧ Settled s) ?_ ?_ reached
  · intro s first
    rcases first with rfl | rfl <;> exact ⟨Inv.create true, Settled.create true⟩
  · rintro s a s' ⟨inv, settled⟩ fenced step
    cases a with
    | run i => exact ⟨inv.run fenced.1 step, settled.run inv fenced step⟩
    | call f => exact ⟨inv.call step, settled.call step⟩

/-! ## What `drain` promises -/

/-- **`drain` returns to a tracker with nothing pending**, in every run whose
steps are timely. -/
theorem drain_returns_empty {s s' : State} {a : State.Label} (reached : system.Reach Timely s)
    (timely : Timely s a) (step : system.step s a = some s') (returns : DrainReturns s a s') :
    s'.pending = 0 ∧ s'.items = 0 := by
  have inv := inv_of_reach reached
  obtain ⟨i, op, rest, rfl, thread, done⟩ := returns
  have inv' := inv_of_reach (.step reached timely step)
  have wasClosed : s.closed = true := inv.drainer _ (List.mem_of_getElem? thread) rfl
  have noInit := (inv.closed wasClosed).2
  have stage : Call.drain.Stage (op :: rest) := inv.stage _ (List.mem_of_getElem? thread)
  suffices empty : s'.items = 0 from ⟨inv'.pending.trans empty, empty⟩
  obtain ⟨f, op', rest', s₁, push, thread', performed, rfl⟩ := State.step_run step
  rw [thread] at thread'
  cases thread'
  have bound : i < s.threads.length := (List.getElem?_eq_some_iff.mp thread).1
  rw [State.finish_threads, List.getElem?_set_self bound] at done
  rcases stage with stage | stage | stage <;> cases stage
  · -- the fast path: the load has read 0
    simp only [State.perform, Option.some.injEq, Prod.mk.injEq] at performed
    obtain ⟨rfl, rfl⟩ := performed
    by_cases zero : s.pending = 0
    · rw [State.finish_items, ← inv.pending]
      exact zero
    · rw [if_neg zero] at done
      cases done
  · -- the slow path: the event was signaled
    simp only [State.perform, Option.ite_none_right_eq_some, Option.some.injEq, Prod.mk.injEq]
      at performed
    obtain ⟨signaled, rfl, rfl⟩ := performed
    rw [State.finish_items]
    rcases inv.signal signaled with empty | pos
    · exact empty
    · omega

/-- One item, completed while `drain` waits. -/
theorem drain_returns_empty_after_wait :
    ∃ s s' : State, system.Reach Timely s ∧ system.step s (.run 1) = some s' ∧
      DrainReturns s (.run 1) s' ∧ s'.pending = 0 ∧ s'.items = 0 := by
  let s : State := ⟨0, true, [⟨.begin, []⟩, ⟨.drain, [.wait]⟩, ⟨.complete, []⟩], 0, 0, true, false⟩
  let s' : State := ⟨0, false, [⟨.begin, []⟩, ⟨.drain, []⟩, ⟨.complete, []⟩], 0, 0, true, true⟩
  have reached : system.Reach Timely s :=
    .of_execIf [.call .begin, .run 0, .run 0, .call .drain, .run 1, .call .complete,
      .run 2, .run 2] (.start (Or.inl rfl)) (by decide)
  have step : system.step s (.run 1) = some s' := by decide
  have returns : DrainReturns s (.run 1) s' := ⟨1, .wait, [], rfl, rfl, rfl⟩
  exact ⟨s, s', reached, step, returns, drain_returns_empty reached (by decide) step returns⟩

/-- A completer that has left the counter at 0 is overtaken by a new item, whose
`begin` has re-initialised the event, and sets the event only then: `drain` waits
on an event that belongs to the previous item and returns with one pending. -/
theorem drain_returns_with_pending :
    ¬ ∀ (s s' : State) (a : State.Label), system.Reachable s → system.step s a = some s' →
      DrainReturns s a s' → s'.pending = 0 := by
  intro empty
  let s : State :=
    ⟨1, true, [⟨.begin, []⟩, ⟨.complete, []⟩, ⟨.begin, []⟩, ⟨.drain, [.wait]⟩], 1, 1, true, false⟩
  let s' : State :=
    ⟨1, false, [⟨.begin, []⟩, ⟨.complete, []⟩, ⟨.begin, []⟩, ⟨.drain, []⟩], 1, 1, true, true⟩
  have reached : system.Reachable s :=
    .of_exec [.call .begin, .run 0, .run 0, .call .complete, .run 1, .call .begin,
      .run 2, .run 2, .run 1, .call .drain, .run 3] (.start (Or.inl rfl)) (by decide)
  have pending := empty s s' (.run 3) reached (by decide) ⟨3, .wait, [], rfl, rfl, rfl⟩
  exact absurd pending (by decide)

/-- **After a `drain` no completer touches the tracker**, in every run whose steps
are fenced. -/
theorem no_complete_after_drain {s : State} (reached : system.Reach Fenced s)
    (drained : s.drained = true) (a : State.Label) : ¬ CompleteSteps s a := by
  rintro ⟨i, op, rest, -, thread⟩
  obtain ⟨inv, settled⟩ := settled_of_reach reached
  obtain ⟨wasClosed, empty, noSetter⟩ := settled.drained drained
  have items := inv.items
  have stage : Call.complete.Stage (op :: rest) := inv.stage _ (List.mem_of_getElem? thread)
  have pos := head_le_load (fun q => if q = op then 1 else 0) thread
  rw [if_pos rfl] at pos
  change 1 ≤ awaiting op s.threads at pos
  rcases stage with stage | stage | stage <;> cases stage <;> omega

/-- One item, completed before `drain` is called. -/
theorem no_complete_after_drain_of_one :
    ∃ s : State, system.Reach Fenced s ∧ s.drained = true ∧
      ∀ a : State.Label, ¬ CompleteSteps s a := by
  let s : State := ⟨0, true, [⟨.begin, []⟩, ⟨.complete, []⟩, ⟨.drain, []⟩], 0, 0, true, true⟩
  have reached : system.Reach Fenced s :=
    .of_execIf [.call .begin, .run 0, .run 0, .call .complete, .run 1, .run 1,
      .call .drain, .run 2] (.start (Or.inl rfl)) (by decide)
  exact ⟨s, reached, rfl, no_complete_after_drain reached rfl⟩

/-- `drain` reads the 0 that a completer has left and returns; the completer then
sets the event. -/
theorem complete_steps_after_drain :
    ¬ ∀ (s s' : State) (a : State.Label), system.Reachable s → s.drained = true →
      system.step s a = some s' → ¬ CompleteSteps s a := by
  intro untouched
  let s : State :=
    ⟨0, false, [⟨.begin, []⟩, ⟨.complete, [.setEvent]⟩, ⟨.drain, []⟩], 0, 0, true, true⟩
  let s' : State := ⟨0, true, [⟨.begin, []⟩, ⟨.complete, []⟩, ⟨.drain, []⟩], 0, 0, true, true⟩
  have reached : system.Reachable s :=
    .of_exec [.call .begin, .run 0, .run 0, .call .complete, .run 1, .call .drain,
      .run 2] (.start (Or.inl rfl)) (by decide)
  have step : system.step s (.run 1) = some s' := by decide
  exact untouched s s' (.run 1) reached rfl step ⟨1, .setEvent, [], rfl, rfl⟩

end Kcom.Tracker
