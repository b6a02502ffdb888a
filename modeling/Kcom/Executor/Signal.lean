import Kcom.Executor.Tracker

/-!
# The signal that `drain` waits for

`Tracker.lean` says what holds when a `drain` has returned; here it is shown that it does
return. The event is an auto-reset one, and `begin` re-initialises it, so a signal can be
taken away; but while a `drain` waits and nothing is counted in, the event is signaled or a
completer is about to set it. Once every item was handed to its `complete`, the calls that
are under way bring `drain` to its end, whatever order the tracker's calls came in before.

This needs one `drain` at a time: `KeWaitForSingleObject` takes the one signal of the last
completer, and a second `drain` that waits beside the first is left behind for good.
-/

namespace Kcom.Tracker

open Conc

/-- One `drain` at a time, and the counter does not wrap. -/
def Lone (s : State) : State.Label → Prop
  | .run i => s.next i = some .fetchAdd → s.items + 1 < 2 ^ 32
  | .call .drain => awaiting .load s.threads + awaiting .wait s.threads = 0
  | .call _ => True

instance (s : State) : (a : State.Label) → Decidable (Lone s a)
  | .run i => inferInstanceAs (Decidable (s.next i = some .fetchAdd → s.items + 1 < 2 ^ 32))
  | .call .drain =>
      inferInstanceAs (Decidable (awaiting .load s.threads + awaiting .wait s.threads = 0))
  | .call .begin | .call .complete => .isTrue trivial

/-- The counts of a pool in which one `drain` may wait. -/
structure Audible (s : State) : Prop where
  pending : s.pending = s.items
  noWrap : s.items < 2 ^ 32
  items : s.items = s.unclaimed + awaiting .fetchSub s.threads + awaiting .initializeEvent s.threads
  closed : s.closed = true →
    awaiting .fetchAdd s.threads = 0 ∧ awaiting .initializeEvent s.threads = 0
  single : awaiting .load s.threads + awaiting .wait s.threads ≤ 1
  /-- A `drain` that waits for nothing has its signal, or will have it. -/
  heard : 0 < awaiting .wait s.threads → s.items = 0 →
    s.signaled = true ∨ 0 < awaiting .setEvent s.threads

/-- What holds in every state of a run with one `drain` at a time. -/
structure Heard (s : State) : Prop extends Audible s where
  stage : ∀ t ∈ s.threads, t.tag.Stage t.code
  drainer : ∀ t ∈ s.threads, t.tag = .drain → s.closed = true

theorem Heard.create (signaled : Bool) : Heard (create signaled) where
  pending := rfl
  noWrap := by simp [Tracker.create]
  items := rfl
  closed h := by cases h
  single := Nat.zero_le _
  heard h := by cases h
  stage t mem := by cases mem
  drainer t mem := by cases mem

section Steps

variable {s s' : State} {i : Nat} {f : Call} {op : Op} {push : List Op}

/-- How all the counts of a pool move when a thread performs `op` and has `push` left. -/
theorem tally (push : List Op) {threads : List (Thread Call Op)}
    (thread : threads[i]? = some ⟨f, [op]⟩) :
    0 < awaiting op threads ∧
      awaiting .fetchAdd (threads.set i ⟨f, push⟩) + [op].count .fetchAdd =
        awaiting .fetchAdd threads + push.count .fetchAdd ∧
      awaiting .initializeEvent (threads.set i ⟨f, push⟩) + [op].count .initializeEvent =
        awaiting .initializeEvent threads + push.count .initializeEvent ∧
      awaiting .fetchSub (threads.set i ⟨f, push⟩) + [op].count .fetchSub =
        awaiting .fetchSub threads + push.count .fetchSub ∧
      awaiting .setEvent (threads.set i ⟨f, push⟩) + [op].count .setEvent =
        awaiting .setEvent threads + push.count .setEvent ∧
      awaiting .load (threads.set i ⟨f, push⟩) + [op].count .load =
        awaiting .load threads + push.count .load ∧
      awaiting .wait (threads.set i ⟨f, push⟩) + [op].count .wait =
        awaiting .wait threads + push.count .wait := by
  obtain ⟨pos, begins, inits, subs, sets⟩ := counts push thread
  exact ⟨pos, begins, inits, subs, sets, awaiting_set .load push thread,
    awaiting_set .wait push thread⟩

/-- A thread goes on from `op` to `push`: what is left to check are the counts. -/
theorem Heard.of_thread (heard : Heard s) (thread : s.threads[i]? = some ⟨f, [op]⟩)
    (threads : s'.threads = s.threads.set i ⟨f, push⟩) (closed : s'.closed = s.closed)
    (next : f.Stage push) (audible : Audible s') : Heard s' where
  toAudible := audible
  stage := by
    intro t mem
    rw [threads] at mem
    rcases List.mem_or_eq_of_mem_set mem with old | rfl
    · exact heard.stage t old
    · exact next
  drainer := by
    intro t mem tag
    rw [threads] at mem
    rw [closed]
    rcases List.mem_or_eq_of_mem_set mem with old | rfl
    · exact heard.drainer t old tag
    · exact heard.drainer _ (List.mem_of_getElem? thread) tag

theorem Heard.fetchAdd (heard : Heard s) (thread : s.threads[i]? = some ⟨.begin, [.fetchAdd]⟩)
    (room : s.items + 1 < 2 ^ 32) (performed : s.perform .fetchAdd = some (s', push)) :
    Heard ({ s' with threads := s.threads.set i ⟨.begin, push⟩ }.finish .begin push) := by
  obtain ⟨pos, begins, inits, subs, sets, loads, waits⟩ := tally push thread
  obtain ⟨pending, noWrap, items, closed, single, signal⟩ := heard.toAudible
  simp only [State.perform, Option.some.injEq, Prod.mk.injEq] at performed
  obtain ⟨rfl, rfl⟩ := performed
  by_cases zero : s.pending = 0
  · rw [if_pos zero] at begins inits subs sets loads waits ⊢
    refine heard.of_thread thread rfl rfl (by simp [Call.Stage]) ?_
    simp only [List.count_cons, List.count_nil, State.finish_cons]
      at begins inits subs sets loads waits ⊢
    constructor <;> grind
  · rw [if_neg zero] at begins inits subs sets loads waits ⊢
    refine heard.of_thread thread State.finish_threads State.finish_closed (by simp [Call.Stage]) ?_
    simp only [List.count_cons, List.count_nil, State.finish]
      at begins inits subs sets loads waits ⊢
    constructor <;> grind

/-- The event is reset while the item of this `begin` is counted in. -/
theorem Heard.initializeEvent (heard : Heard s)
    (thread : s.threads[i]? = some ⟨.begin, [.initializeEvent]⟩)
    (performed : s.perform .initializeEvent = some (s', push)) :
    Heard ({ s' with threads := s.threads.set i ⟨.begin, push⟩ }.finish .begin push) := by
  obtain ⟨pos, begins, inits, subs, sets, loads, waits⟩ := tally push thread
  obtain ⟨pending, noWrap, items, closed, single, signal⟩ := heard.toAudible
  simp only [State.perform, Option.some.injEq, Prod.mk.injEq] at performed
  obtain ⟨rfl, rfl⟩ := performed
  refine heard.of_thread thread State.finish_threads State.finish_closed (by simp [Call.Stage]) ?_
  simp only [List.count_cons, List.count_nil, State.finish]
    at begins inits subs sets loads waits ⊢
  constructor <;> grind

/-- The completer that leaves nothing counted in is the one that sets the event. -/
theorem Heard.fetchSub (heard : Heard s) (thread : s.threads[i]? = some ⟨.complete, [.fetchSub]⟩)
    (performed : s.perform .fetchSub = some (s', push)) :
    Heard ({ s' with threads := s.threads.set i ⟨.complete, push⟩ }.finish .complete push) := by
  obtain ⟨pos, begins, inits, subs, sets, loads, waits⟩ := tally push thread
  obtain ⟨pending, noWrap, items, closed, single, signal⟩ := heard.toAudible
  simp only [State.perform, Option.some.injEq, Prod.mk.injEq] at performed
  obtain ⟨rfl, rfl⟩ := performed
  by_cases one : s.pending = 1
  · rw [if_pos one] at begins inits subs sets loads waits ⊢
    refine heard.of_thread thread State.finish_threads State.finish_closed (by simp [Call.Stage]) ?_
    simp only [List.count_cons, List.count_nil, State.finish_cons]
      at begins inits subs sets loads waits ⊢
    constructor <;> grind
  · rw [if_neg one] at begins inits subs sets loads waits ⊢
    refine heard.of_thread thread State.finish_threads State.finish_closed (by simp [Call.Stage]) ?_
    simp only [List.count_cons, List.count_nil, State.finish]
      at begins inits subs sets loads waits ⊢
    constructor <;> grind

theorem Heard.setEvent (heard : Heard s) (thread : s.threads[i]? = some ⟨.complete, [.setEvent]⟩)
    (performed : s.perform .setEvent = some (s', push)) :
    Heard ({ s' with threads := s.threads.set i ⟨.complete, push⟩ }.finish .complete push) := by
  obtain ⟨pos, begins, inits, subs, sets, loads, waits⟩ := tally push thread
  obtain ⟨pending, noWrap, items, closed, single, signal⟩ := heard.toAudible
  simp only [State.perform, Option.some.injEq, Prod.mk.injEq] at performed
  obtain ⟨rfl, rfl⟩ := performed
  refine heard.of_thread thread State.finish_threads State.finish_closed (by simp [Call.Stage]) ?_
  simp only [List.count_cons, List.count_nil, State.finish]
    at begins inits subs sets loads waits ⊢
  constructor <;> grind

/-- A `drain` goes to wait while something is counted in. -/
theorem Heard.load (heard : Heard s) (thread : s.threads[i]? = some ⟨.drain, [.load]⟩)
    (performed : s.perform .load = some (s', push)) :
    Heard ({ s' with threads := s.threads.set i ⟨.drain, push⟩ }.finish .drain push) := by
  obtain ⟨pos, begins, inits, subs, sets, loads, waits⟩ := tally push thread
  obtain ⟨pending, noWrap, items, closed, single, signal⟩ := heard.toAudible
  simp only [State.perform, Option.some.injEq, Prod.mk.injEq] at performed
  obtain ⟨rfl, rfl⟩ := performed
  by_cases zero : s.pending = 0
  · rw [if_pos zero] at begins inits subs sets loads waits ⊢
    refine heard.of_thread thread State.finish_threads State.finish_closed (by simp [Call.Stage]) ?_
    simp only [List.count_cons, List.count_nil, State.finish]
      at begins inits subs sets loads waits ⊢
    constructor <;> grind
  · rw [if_neg zero] at begins inits subs sets loads waits ⊢
    refine heard.of_thread thread State.finish_threads State.finish_closed (by simp [Call.Stage]) ?_
    simp only [List.count_cons, List.count_nil, State.finish_cons]
      at begins inits subs sets loads waits ⊢
    constructor <;> grind

/-- The signal is taken by the one that waits. -/
theorem Heard.wait (heard : Heard s) (thread : s.threads[i]? = some ⟨.drain, [.wait]⟩)
    (performed : s.perform .wait = some (s', push)) :
    Heard ({ s' with threads := s.threads.set i ⟨.drain, push⟩ }.finish .drain push) := by
  obtain ⟨pos, begins, inits, subs, sets, loads, waits⟩ := tally push thread
  obtain ⟨pending, noWrap, items, closed, single, signal⟩ := heard.toAudible
  simp only [State.perform, Option.ite_none_right_eq_some, Option.some.injEq, Prod.mk.injEq]
    at performed
  obtain ⟨signaled, rfl, rfl⟩ := performed
  refine heard.of_thread thread State.finish_threads State.finish_closed (by simp [Call.Stage]) ?_
  simp only [List.count_cons, List.count_nil, State.finish]
    at begins inits subs sets loads waits ⊢
  constructor <;> grind

theorem Heard.run (heard : Heard s) (lone : Lone s (.run i)) (step : s.step (.run i) = some s') :
    Heard s' := by
  obtain ⟨f, op, rest, s₁, push, thread, performed, rfl⟩ := State.step_run step
  have next : s.next i = some op := by simp [State.next, thread]
  have stage : f.Stage (op :: rest) := heard.stage _ (List.mem_of_getElem? thread)
  cases f with
  | begin =>
      rcases stage with stage | stage | stage <;> cases stage <;> rw [List.append_nil]
      · exact heard.fetchAdd thread (lone next) performed
      · exact heard.initializeEvent thread performed
  | complete =>
      rcases stage with stage | stage | stage <;> cases stage <;> rw [List.append_nil]
      · exact heard.fetchSub thread performed
      · exact heard.setEvent thread performed
  | drain =>
      rcases stage with stage | stage | stage <;> cases stage <;> rw [List.append_nil]
      · exact heard.load thread performed
      · exact heard.wait thread performed

theorem Heard.call (heard : Heard s) (lone : Lone s (.call f)) (step : s.step (.call f) = some s') :
    Heard s' := by
  obtain ⟨callable, rfl⟩ := State.step_call step
  obtain ⟨pending, noWrap, items, closed, single, signal⟩ := heard.toAudible
  refine ⟨?_, ?_, ?_⟩
  · cases f <;>
      simp only [State.callable, Bool.not_eq_true', decide_eq_true_eq] at callable <;>
      simp only [Lone] at lone <;>
      constructor <;>
      simp only [State.enter, awaiting_append, Call.code, List.count_cons, List.count_nil] <;>
      grind
  · intro t mem
    rcases List.mem_append.mp mem with old | new
    · exact heard.stage t old
    · rw [List.mem_singleton.mp new]
      cases f <;> simp [Call.Stage, Call.code]
  · intro t mem tag
    rcases List.mem_append.mp mem with old | new
    · have wasClosed := heard.drainer t old tag
      cases f <;> simp [State.enter, wasClosed]
    · rw [List.mem_singleton.mp new] at tag
      subst tag
      rfl

end Steps

theorem heard_of_reach {s : State} (reached : system.Reach Lone s) : Heard s := by
  refine Sys.Reach.invariant ?_ ?_ reached
  · intro s first
    rcases first with rfl | rfl <;> exact Heard.create true
  · intro s a s' heard lone step
    cases a with
    | run i => exact heard.run lone step
    | call f => exact heard.call lone step

/-! ## The return of a `drain` -/

section Returns

variable {s s₁ s' : State} {i j : Nat} {f : Call} {op : Op} {code push : List Op}

/-- A call has at most one operation left. -/
theorem Call.Stage.eq_singleton (stage : f.Stage code) (pending : op ∈ code) : code = [op] := by
  cases f <;> rcases stage with rfl | rfl | rfl <;> simp_all

@[simp] theorem State.finish_complete : s.finish .complete code = s := by
  simp [State.finish]

/-- One step of a call with one operation left. -/
theorem step_thread (thread : s.threads[j]? = some ⟨f, [op]⟩)
    (performed : s.perform op = some (s₁, push)) :
    system.step s (.run j) =
      some ({ s₁ with threads := s.threads.set j ⟨f, push⟩ }.finish f push) := by
  simp [system, State.step, thread, performed]

/-- Some call is about to perform `op`. -/
theorem Heard.exists_thread (heard : Heard s) (pos : 0 < awaiting op s.threads) :
    ∃ (j : Nat) (f : Call), s.threads[j]? = some ⟨f, [op]⟩ ∧ f.Stage [op] := by
  obtain ⟨⟨f, code⟩, member, op', pending, weight⟩ := exists_of_load_pos pos
  have same : op' = op := by
    by_contra other
    rw [if_neg other] at weight
    cases weight
  subst same
  have stage : f.Stage code := heard.stage _ member
  obtain ⟨j, thread⟩ := List.mem_iff_getElem?.mp member
  have single := stage.eq_singleton pending
  subst single
  exact ⟨j, f, thread, stage⟩

/-- The calls that are under way bring the `drain` of thread `i` to its end. -/
def Returns (s : State) (i : Nat) : Prop :=
  ∃ (turns : List Nat) (s' : State), system.exec s (turns.map .run) = some s' ∧
    s'.threads[i]? = some ⟨.drain, []⟩

/-- Another call moves first. -/
theorem Returns.after (step : system.step s (.run j) = some s') (returns : Returns s' i) :
    Returns s i := by
  obtain ⟨turns, s'', run, done⟩ := returns
  refine ⟨j :: turns, s'', ?_, done⟩
  rw [List.map_cons, Sys.exec, step, Option.bind_some, run]

/-- The `drain` itself moves, to its end. -/
theorem returns_of_step (thread : s.threads[i]? = some ⟨.drain, [op]⟩)
    (performed : s.perform op = some (s₁, [])) : Returns s i := by
  refine .after (step_thread thread performed) ⟨[], _, rfl, ?_⟩
  rw [State.finish_threads, List.getElem?_set_self (List.getElem?_eq_some_iff.mp thread).1]

/-- With nothing counted in, the last completer and then the `drain` move. -/
theorem Heard.returns_of_empty (heard : Heard s) (empty : s.items = 0)
    (thread : s.threads[i]? = some ⟨.drain, code⟩) : Returns s i := by
  have zero : s.pending = 0 := heard.pending.trans empty
  have stage : Call.drain.Stage code := heard.stage _ (List.mem_of_getElem? thread)
  rcases stage with rfl | rfl | rfl
  · have performed : s.perform .load = some (s, []) := by simp [State.perform, zero]
    exact returns_of_step thread performed
  · have waiting : 0 < awaiting .wait s.threads :=
      head_le_load (fun op => if op = Op.wait then 1 else 0) thread
    rcases heard.heard waiting empty with signaled | pos
    · have performed : s.perform .wait = some ({ s with signaled := false }, []) := by
        simp [State.perform, signaled]
      exact returns_of_step thread performed
    · obtain ⟨j, f, setter, stage⟩ := heard.exists_thread pos
      have last : f = .complete := by
        cases f <;> first | rfl | simp [Call.Stage] at stage
      subst last
      have other : j ≠ i := by
        rintro rfl
        cases setter.symm.trans thread
      have sets : s.perform .setEvent = some ({ s with signaled := true }, []) := rfl
      have still : (s.threads.set j ⟨.complete, []⟩)[i]? = some ⟨.drain, [.wait]⟩ := by
        rw [List.getElem?_set_ne other, thread]
      exact .after (step_thread setter sets) (returns_of_step still rfl)
  · exact ⟨[], s, rfl, thread⟩

/-- The completers that are under way count their items out first. -/
theorem Heard.returns {n : Nat} (left : awaiting .fetchSub s.threads = n) (heard : Heard s)
    (handed : s.unclaimed = 0) (thread : s.threads[i]? = some ⟨.drain, code⟩) : Returns s i := by
  induction n generalizing s with
  | zero =>
      have closed := heard.closed (heard.drainer _ (List.mem_of_getElem? thread) rfl)
      have items := heard.items
      exact heard.returns_of_empty (by omega) thread
  | succ n ih =>
      have pos : 0 < awaiting .fetchSub s.threads := by omega
      obtain ⟨j, f, completer, stage⟩ := heard.exists_thread pos
      have own : f = .complete := by
        cases f <;> first | rfl | simp [Call.Stage] at stage
      subst own
      have other : j ≠ i := by
        rintro rfl
        cases completer.symm.trans thread
      have lone : Lone s (.run j) := by
        intro adds
        rw [State.next, completer] at adds
        cases adds
      have step := step_thread completer rfl
      have fewer := awaiting_set .fetchSub (if s.pending = 1 then [.setEvent] else []) completer
      refine .after step (ih ?_ (heard.run lone step) ?_ ?_)
      · rw [State.finish_threads]
        split at fewer <;> simp_all
      · rw [State.finish_complete]
        exact handed
      · rw [State.finish_threads, List.getElem?_set_ne other, thread]

end Returns

/-- **No signal is lost.** In every run with one `drain` at a time and room in the counter,
a `drain` that is under way when every item was handed to its `complete` can return: the
calls under way bring it to its end, and no step that is taken before prevents it. -/
theorem drain_can_return {s : State} {i : Nat} {code : List Op}
    (reached : system.Reach Lone s) (handed : s.unclaimed = 0)
    (thread : s.threads[i]? = some ⟨.drain, code⟩) :
    ∃ (turns : List Nat) (s' : State), system.exec s (turns.map .run) = some s' ∧
      s'.threads[i]? = some ⟨.drain, []⟩ :=
  (heard_of_reach reached).returns rfl handed thread

/-- The event of the first item is re-initialised by the second, and the first completer
sets it before that. -/
theorem drain_can_return_of_two :
    ∃ (s : State) (turns : List Nat) (s' : State), system.Reach Lone s ∧
      (s.signaled = false ∧ s.threads[4]? = some ⟨.drain, [.wait]⟩) ∧
      system.exec s (turns.map .run) = some s' ∧ s'.threads[4]? = some ⟨.drain, []⟩ := by
  obtain ⟨s, reached, ⟨unsignaled, thread⟩, handed⟩ := Sys.Reach.exists_of_execIf
    (fun s : State => (s.signaled = false ∧ s.threads[4]? = some ⟨.drain, [.wait]⟩) ∧
      s.unclaimed = 0)
    [.call .begin, .run 0, .run 0, .call .complete, .run 1, .call .begin, .run 2, .run 1,
      .run 2, .call .complete, .call .drain, .run 4]
    (.start (.inl rfl) : system.Reach Lone TaskTracker.new) (by decide)
  obtain ⟨turns, s', run, done⟩ := drain_can_return reached handed thread
  exact ⟨s, turns, s', reached, ⟨unsignaled, thread⟩, run, done⟩

/-! ## A `drain` that is left behind -/

/-- Nothing is under way but calls of `drain`, and nobody is left who could signal. -/
structure Deserted (s : State) : Prop where
  closed : s.closed = true
  unclaimed : s.unclaimed = 0
  unsignaled : s.signaled = false
  drains : ∀ t ∈ s.threads, t.code = [] ∨ t = ⟨.drain, [.load]⟩ ∨ t = ⟨.drain, [.wait]⟩

theorem Deserted.step {s s' : State} {a : State.Label} (deserted : Deserted s)
    (step : s.step a = some s') : Deserted s' ∧
      ∀ i : Nat, s.threads[i]? = some ⟨.drain, [.wait]⟩ →
        s'.threads[i]? = some ⟨.drain, [.wait]⟩ := by
  obtain ⟨closed, unclaimed, unsignaled, drains⟩ := deserted
  cases a with
  | call f =>
      obtain ⟨callable, rfl⟩ := State.step_call step
      cases f with
      | begin => simp [State.callable, closed] at callable
      | complete => simp [State.callable, unclaimed] at callable
      | drain =>
          refine ⟨⟨rfl, unclaimed, unsignaled, ?_⟩, ?_⟩
          · intro t member
            rcases List.mem_append.mp member with old | new
            · exact drains t old
            · exact .inr (.inl (List.mem_singleton.mp new))
          · intro i thread
            dsimp only
            rw [List.getElem?_append_left (List.getElem?_eq_some_iff.mp thread).1, thread]
  | run j =>
      obtain ⟨f, op, rest, s₁, push, thread, performed, rfl⟩ := State.step_run step
      rcases drains _ (List.mem_of_getElem? thread) with none | same | same
      · cases none
      · -- a `drain` reads the counter
        cases same
        simp only [State.perform, Option.some.injEq, Prod.mk.injEq] at performed
        obtain ⟨rfl, rfl⟩ := performed
        refine ⟨⟨?_, ?_, ?_, ?_⟩, ?_⟩
        · rw [State.finish_closed]
          exact closed
        · unfold State.finish
          split <;> exact unclaimed
        · unfold State.finish
          split <;> exact unsignaled
        · rw [State.finish_threads]
          intro t member
          rcases List.mem_or_eq_of_mem_set member with old | rfl
          · exact drains t old
          · split
            · exact .inl rfl
            · exact .inr (.inr rfl)
        · intro i waiting
          have other : j ≠ i := by
            rintro rfl
            cases thread.symm.trans waiting
          rw [State.finish_threads, List.getElem?_set_ne other, waiting]
      · cases same
        simp [State.perform, unsignaled] at performed

/-- **A `drain` left behind.** When nothing is under way but calls of `drain` and the event
is not signaled, a `drain` that waits waits in every run that goes on from there. -/
theorem waits_forever {s s' : State} {i : Nat} (deserted : Deserted s)
    (thread : s.threads[i]? = some ⟨.drain, [.wait]⟩)
    (later : (system.resume s).Reachable s') : s'.threads[i]? = some ⟨.drain, [.wait]⟩ := by
  have still : Deserted s' ∧ s'.threads[i]? = some ⟨.drain, [.wait]⟩ := by
    refine Sys.Reach.invariant (I := fun s => Deserted s ∧
      s.threads[i]? = some ⟨.drain, [.wait]⟩) ?_ ?_ later
    · rintro s rfl
      exact ⟨deserted, thread⟩
    · rintro s a s' ⟨deserted, waiting⟩ - next
      have step : s.step a = some s' := next
      exact ⟨(deserted.step step).1, (deserted.step step).2 i waiting⟩
  exact still.2

/-- Two calls of `drain` wait for one item, and the first takes its signal. -/
theorem waits_forever_of_two :
    ∃ s, system.Reachable s ∧ s.items = 0 ∧ s.threads[1]? = some ⟨.drain, []⟩ ∧
      ∀ s', (system.resume s).Reachable s' → s'.threads[2]? = some ⟨.drain, [.wait]⟩ := by
  let s : State :=
    ⟨0, false, [⟨.begin, []⟩, ⟨.drain, []⟩, ⟨.drain, [.wait]⟩, ⟨.complete, []⟩], 0, 0, true, true⟩
  have reached : system.Reachable s :=
    .of_exec [.call .begin, .run 0, .run 0, .call .drain, .run 1, .call .drain, .run 2,
      .call .complete, .run 3, .run 3, .run 1] (.start (.inl rfl)) (by decide)
  have deserted : Deserted s := ⟨rfl, rfl, rfl, by decide⟩
  exact ⟨s, reached, rfl, rfl, fun s' later => waits_forever deserted rfl later⟩

end Kcom.Tracker
