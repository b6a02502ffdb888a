import Kcom.Async.Method.Shim

/-!
# Whether the called object outlives the method

The guard over the reference is a local of the shim's block, the method's future a
variable that the block has captured. When the future returns `Ready`, the guard goes
after it. When the block is dropped at its suspension point, the guard goes first, and
the future's own destructor runs on an object that may be gone.
`object_outlives_method_iff` says that this is the only way the order is broken.
-/

namespace Kcom.Async.Method

open Conc
open Macros (Wrapper)

/-- The reference to the object is released only after the method's future has returned
`Ready` or has been dropped. -/
def Ordered (object : Nat) (trace : List Event) : Prop :=
  ∀ before after, trace = before ++ .release object :: after →
    .methodReady ∈ before ∨ .dropMethod ∈ before

def TaskAction.isDrop {T : Type} : TaskAction T → Bool
  | .drop => true
  | _ => false

/-- The step drops the shim's block while the method's future is pending: the executor
drops the task, or polls it and `Cancellable` takes a request. -/
def Interrupts {T : Type} (s : Task) (a : TaskAction T) : Prop :=
  s.block = Stage.pending.block ∧ (a.isDrop = true ∨ a.isPoll = true ∧ s.requested = 1)

instance {T : Type} (s : Task) (a : TaskAction T) : Decidable (Interrupts s a) :=
  inferInstanceAs (Decidable (_ ∧ _))

/-! ## The order of events -/

section Order

variable {object : Nat} {e : Event} {rest before : List Event}

theorem ordered_nil : Ordered object [] := by
  intro before after split
  cases before <;> cases split

/-- The first event decides, or the others do. -/
theorem ordered_cons :
    Ordered object (e :: rest) ↔
      (e = .methodReady ∨ e = .dropMethod) ∨ e ≠ .release object ∧ Ordered object rest := by
  constructor
  · intro ordered
    by_cases ended : e = .methodReady ∨ e = .dropMethod
    · exact .inl ended
    · refine .inr ⟨?_, ?_⟩
      · rintro rfl
        rcases ordered [] rest rfl with mem | mem <;> cases mem
      · rintro before after rfl
        obtain ⟨ready, dropped⟩ := not_or.mp ended
        exact (ordered (e :: before) after rfl).imp
          (fun mem => (List.mem_cons.mp mem).resolve_left (Ne.symm ready))
          (fun mem => (List.mem_cons.mp mem).resolve_left (Ne.symm dropped))
  · intro cases before after split
    cases before with
    | nil =>
        obtain ⟨rfl, -⟩ := List.cons.inj split
        rcases cases with (eq | eq) | ⟨other, -⟩
        · cases eq
        · cases eq
        · exact absurd rfl other
    | cons e' before =>
        obtain ⟨rfl, tail⟩ := List.cons.inj split
        rcases cases with (rfl | rfl) | ⟨-, ordered⟩
        · exact .inl List.mem_cons_self
        · exact .inr List.mem_cons_self
        · exact (ordered before after tail).imp (List.mem_cons_of_mem _) (List.mem_cons_of_mem _)

end Order

/-! ## One step -/

section Steps

variable {T : Type} {object : Nat} {stage : Stage} {s s' : Task} {a : TaskAction T}

theorem Stage.eq_pending (same : stage.block = Stage.pending.block) : stage = .pending := by
  cases stage <;> first | rfl | cases same

/-- A task at a stage, with nothing to see before the method's future has ended. -/
structure Early (stage : Stage) (s : Task) : Prop where
  here : s.block = stage.block
  quiet : stage.live = true → s.trace = []

/-- The order is broken by the step that interrupts the method, and by no other. -/
theorem ordered_of_step (early : Early stage s) (next : s.step object a = some s') :
    (∃ stage', Early stage' s') ∧
      (Ordered object s'.trace ↔ Ordered object s.trace ∧ ¬Interrupts s a) := by
  obtain ⟨stage', events, moves, here, trace, -⟩ := moves_of_step early.here next
  have pending : s.block = Stage.pending.block → stage = .pending :=
    fun same => Stage.eq_pending (early.here.symm.trans same)
  generalize requested : s.requested = r at moves
  rw [trace]
  cases moves with
  | cancel =>
      rw [List.append_nil] at trace ⊢
      refine ⟨⟨stage, here, fun live => trace.trans (early.quiet live)⟩, ?_⟩
      simp [Interrupts, TaskAction.isDrop, TaskAction.isPoll]
  | dropHandle =>
      rw [List.append_nil] at trace ⊢
      refine ⟨⟨stage, here, fun live => trace.trans (early.quiet live)⟩, ?_⟩
      simp [Interrupts, TaskAction.isDrop, TaskAction.isPoll]
  | pending live quiet =>
      rw [List.append_nil] at trace ⊢
      refine ⟨⟨.pending, here, fun _ => trace.trans (early.quiet live)⟩, ?_⟩
      simp [Interrupts, TaskAction.isDrop, requested, quiet]
  | ready live quiet =>
      refine ⟨⟨.returned, here, fun dead => by cases dead⟩, ?_⟩
      rw [early.quiet live]
      simp [ordered_nil, ordered_cons, finish, Interrupts, TaskAction.isDrop, requested, quiet]
  | taken live =>
      refine ⟨⟨.returned, here, fun dead => by cases dead⟩, ?_⟩
      rw [early.quiet live]
      cases stage with
      | fresh =>
          have other : s.block ≠ Stage.pending.block := fun same => by cases pending same
          simp [ordered_nil, ordered_cons, Stage.abandon, dropBox, Interrupts, other]
      | pending =>
          simp [ordered_nil, ordered_cons, Stage.abandon, Interrupts, early.here, requested,
            TaskAction.isPoll]
      | returned => cases live
      | dropped => cases live
  | drop present =>
      refine ⟨⟨.dropped, here, fun dead => by cases dead⟩, ?_⟩
      cases stage with
      | fresh =>
          have other : s.block ≠ Stage.pending.block := fun same => by cases pending same
          rw [early.quiet rfl]
          simp [ordered_nil, ordered_cons, Stage.abandon, dropBox, Interrupts, other]
      | pending =>
          rw [early.quiet rfl]
          simp [ordered_nil, ordered_cons, Stage.abandon, Interrupts, early.here,
            TaskAction.isDrop]
      | returned =>
          have other : s.block ≠ Stage.pending.block := fun same => by cases pending same
          simp [Stage.abandon, Stage.guardOperation, Interrupts, other]
      | dropped => exact absurd rfl present

end Steps

/-! ## Whole runs -/

section Runs

variable {T : Type} {object : Nat} {stage : Stage} {s s' : Task} {actions : List (TaskAction T)}

/-- No step of the run interrupts the method. -/
def Uninterrupted (object : Nat) (s : Task) (actions : List (TaskAction T)) : Prop :=
  ∀ before a after mid, actions = before ++ a :: after →
    (taskSystem T object).exec s before = some mid → ¬Interrupts mid a

theorem uninterrupted_nil : Uninterrupted object s ([] : List (TaskAction T)) := by
  intro before a after mid split
  cases before <;> cases split

theorem uninterrupted_cons {a : TaskAction T} {mid : Task} (next : s.step object a = some mid) :
    Uninterrupted object s (a :: actions) ↔
      ¬Interrupts s a ∧ Uninterrupted object mid actions := by
  have step : (taskSystem T object).step s a = some mid := next
  constructor
  · intro whole
    refine ⟨whole [] a actions s rfl rfl, ?_⟩
    rintro before b after mid' rfl run
    refine whole (a :: before) b after mid' rfl ?_
    rw [Sys.exec, step]
    exact run
  · rintro ⟨first, later⟩ before b after mid' split run
    cases before with
    | nil =>
        obtain ⟨rfl, -⟩ := List.cons.inj split
        cases run
        exact first
    | cons a' before =>
        obtain ⟨rfl, tail⟩ := List.cons.inj split
        rw [Sys.exec, step] at run
        exact later before b after mid' tail run

theorem ordered_of_run (early : Early stage s)
    (run : (taskSystem T object).exec s actions = some s') :
    Ordered object s'.trace ↔ Ordered object s.trace ∧ Uninterrupted object s actions := by
  induction actions generalizing s stage with
  | nil =>
      cases run
      exact ⟨fun ordered => ⟨ordered, uninterrupted_nil⟩, And.left⟩
  | cons a rest ih =>
      obtain ⟨mid, next, tail⟩ := Option.bind_eq_some_iff.mp run
      obtain ⟨⟨stage', early'⟩, step⟩ := ordered_of_step early next
      rw [ih early' tail, step, uninterrupted_cons next, and_assoc]

theorem early_spawned {handle : Bool} : Early .fresh (.spawned handle) :=
  ⟨rfl, fun _ => rfl⟩

/-- A call that spawned a task has done nothing else to the object or the future. -/
theorem asyncShim_of_task {out : Outcomes} {task : Task}
    (found : (asyncShim T object out).task = some task) :
    (asyncShim T object out).trace =
        [.addRef object, .alloc, .operationNew, .operationAddRef] ∧ task = .spawned false := by
  rcases out.cases with ⟨events, err, failed⟩ | ⟨pinned, noMemory | ⟨memory, taken | ⟨_, failed⟩⟩⟩
  · rw [asyncShim_of_error failed] at found
    cases found
  · rw [asyncShim_of_noOperation pinned noMemory] at found
    cases found
  · rw [asyncShim_of_spawned pinned memory taken] at found ⊢
    cases found
    exact ⟨rfl, rfl⟩
  · rw [asyncShim_of_unspawned pinned memory failed] at found
    cases found

end Runs

/-- **Whether the called object outlives an unfinished method.** In a run of the task
that a shim has spawned, whoever may hold a `CancelHandle` for it, the reference to the
called object is released only after the method's future has ended exactly when no step
drops the shim's block while that future is pending. -/
theorem object_outlives_method_iff {T : Type} {out : Outcomes} {w : Wrapper} {tgt : Com.Target}
    {h : Com.Heap} {this object : Nat} {c : ShimCall} {task s : Task} {handle : Bool}
    {actions : List (TaskAction T)} (nonnull : this ≠ 0)
    (called : callAsyncShim T out w tgt h this = some c)
    (found : calledObject w tgt h this = some object) (spawned : c.task = some task)
    (run : (taskSystem T object).exec { task with handle := handle } actions = some s) :
    Ordered object (c.trace ++ s.trace) ↔
      Uninterrupted object { task with handle := handle } actions := by
  rw [callAsyncShim, if_neg nonnull, found] at called
  cases called
  obtain ⟨trace, rfl⟩ := asyncShim_of_task spawned
  have order : Ordered object s.trace ↔ Ordered object [] ∧ _ :=
    ordered_of_run early_spawned run
  rw [trace]
  simp only [List.cons_append, List.nil_append, ordered_cons, reduceCtorEq, or_self, false_or,
    ne_eq, not_false_eq_true, true_and, order]
  exact ⟨And.right, fun whole => ⟨ordered_nil, whole⟩⟩

/-- A method that is pending once and then returns. -/
theorem object_outlives_method_of_ready :
    ∃ c task s, callAsyncShim Nat ⟨.pinned, true, .ok ()⟩ .comObject (.packed .w64) .empty 0x1000 =
        some c ∧ c.task = some task ∧
      (taskSystem Nat 0x1000).exec task [.poll none, .poll (some 7), .drop] = some s ∧
      Ordered 0x1000 (c.trace ++ s.trace) := by
  have called : callAsyncShim Nat ⟨.pinned, true, .ok ()⟩ .comObject (.packed .w64) .empty 0x1000 =
      some _ := rfl
  have run : (taskSystem Nat 0x1000).exec (.spawned false)
      [.poll none, .poll (some 7), .drop] = some _ := rfl
  refine ⟨_, _, _, called, rfl, run, ?_⟩
  apply (object_outlives_method_iff (by decide) called rfl rfl run).mpr
  refine (uninterrupted_cons rfl).mpr ⟨by decide, ?_⟩
  refine (uninterrupted_cons rfl).mpr ⟨by decide, ?_⟩
  exact (uninterrupted_cons rfl).mpr ⟨by decide, uninterrupted_nil⟩

/-- On the host the task is polled once, and dropped with its handle if the method is
pending then: the reference is released before the method's future is dropped. -/
theorem object_released_before_method :
    ∃ c task s, callAsyncShim Nat ⟨.pinned, true, .ok ()⟩ .comObject (.packed .w64) .empty 0x1000 =
        some c ∧ c.task = some task ∧
      (taskSystem Nat 0x1000).exec task [.poll none, .drop] = some s ∧
      s.trace = [.release 0x1000, .dropMethod, .dealloc, .operationRelease] ∧
      ¬Ordered 0x1000 (c.trace ++ s.trace) := by
  have called : callAsyncShim Nat ⟨.pinned, true, .ok ()⟩ .comObject (.packed .w64) .empty 0x1000 =
      some _ := rfl
  have run : (taskSystem Nat 0x1000).exec (.spawned false) [.poll none, .drop] =
      some _ := rfl
  refine ⟨_, _, _, called, rfl, run, rfl, ?_⟩
  intro ordered
  have early := ordered [.addRef 0x1000, .alloc, .operationNew, .operationAddRef]
    [.dropMethod, .dealloc, .operationRelease] rfl
  revert early
  decide

end Kcom.Async.Method
