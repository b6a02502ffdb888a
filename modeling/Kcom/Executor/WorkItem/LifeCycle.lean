import Kcom.Executor.WorkItem.Model

/-!
# The life of a work item

`schedule` leaves the work item it has created in the `work_item` slot and `run`
takes it out to delete it. The slot is one for all overlapping pairs of the two:
`run` clears `scheduled` when it starts, so a wake during the poll overwrites the
slot, and `run` then deletes the item that was just enqueued. An early return of
`run` leaves its item in the slot for ever.

`Paired` are the steps that avoid both. In the runs made of them the slot names
the one work item that is being enqueued, is queued or runs (`LifeCycle.active`),
and every item created is being stored, in the slot, being deleted, or deleted
(`LifeCycle.token`).
-/

namespace Kcom.WorkItem

open Conc

/-- The work item `id` is on its way from the slot to the end of its `run`. -/
def Op.active (id : Nat) : Op → Nat
  | .submit k .addRef => if k = id then 1 else 0
  | .submit k .enqueue => if k = id then 1 else 0
  | .run k _ => if k = id then 1 else 0
  | _ => 0

/-- The work item `id` is about to be stored in the slot or to be deleted. -/
def Op.token (id : Nat) : Op → Nat
  | .submit k .storeWorkItem => if k = id then 1 else 0
  | .deleteWorkItem k => if k = id then 1 else 0
  | _ => 0

/-- `id` is queued and its callback has not started. -/
def queuedAt (items : List Item) (id : Nat) : Nat :=
  if (items[id]?).any fun item => item.phase = .queued then 1 else 0

/-- How often `id` was deleted. -/
def deletesAt (items : List Item) (id : Nat) : Nat :=
  (items[id]?).elim 0 Item.deletes

/-- The slot holds `id`. -/
def slotAt (slot : Option Nat) (id : Nat) : Nat :=
  if slot = some id then 1 else 0

section Items

variable {items : List Item} {id id' : Nat}

theorem queuedAt_append : queuedAt (items ++ [⟨.created, 0⟩]) id = queuedAt items id := by
  simp only [queuedAt]
  rcases Nat.lt_trichotomy id items.length with below | rfl | above
  · rw [List.getElem?_append_left below]
  · simp
  · rw [List.getElem?_eq_none_iff.mpr (by simp; omega),
      List.getElem?_eq_none_iff.mpr (Nat.le_of_lt above)]

theorem deletesAt_append : deletesAt (items ++ [⟨.created, 0⟩]) id = deletesAt items id := by
  simp only [deletesAt]
  rcases Nat.lt_trichotomy id items.length with below | rfl | above
  · rw [List.getElem?_append_left below]
  · simp
  · rw [List.getElem?_eq_none_iff.mpr (by simp; omega),
      List.getElem?_eq_none_iff.mpr (Nat.le_of_lt above)]

theorem queuedAt_phase (phase : Phase) (bound : id < items.length) :
    queuedAt (items.modify id fun item => { item with phase := phase }) id' =
      if id = id' then (if phase = .queued then 1 else 0) else queuedAt items id' := by
  simp only [queuedAt, List.getElem?_modify]
  by_cases same : id = id'
  · subst same
    simp [List.getElem?_eq_getElem bound]
  · simp [same]

theorem deletesAt_phase (phase : Phase) :
    deletesAt (items.modify id fun item => { item with phase := phase }) id' =
      deletesAt items id' := by
  simp only [deletesAt, List.getElem?_modify]
  cases items[id']? with
  | none => rfl
  | some item =>
      simp only [Option.map_eq_map, Option.map_some, Option.elim_some]
      split <;> rfl

theorem queuedAt_delete :
    queuedAt (items.modify id fun item => { item with deletes := item.deletes + 1 }) id' =
      queuedAt items id' := by
  simp only [queuedAt, List.getElem?_modify]
  cases items[id']? with
  | none => rfl
  | some item =>
      simp only [Option.map_eq_map, Option.map_some, Option.any_some]
      split <;> rfl

theorem deletesAt_delete (bound : id < items.length) :
    deletesAt (items.modify id fun item => { item with deletes := item.deletes + 1 }) id' =
      deletesAt items id' + if id = id' then 1 else 0 := by
  simp only [deletesAt, List.getElem?_modify]
  by_cases same : id = id'
  · subst same
    simp [List.getElem?_eq_getElem bound]
  · simp [same]

end Items

namespace State

/-- The next operation of thread `i`. -/
def next (s : State) (i : Nat) : Option Op :=
  (s.threads[i]?).bind fun t => t.code.head?

end State

/-- The operations of a `schedule` call or of a callback. -/
def Op.working : Op → Bool
  | .loadCompleted => true
  | .casScheduled => true
  | .trackerBegin => true
  | .contextIsValid => true
  | .createWorkItem => true
  | .submit _ _ => true
  | .abandon => true
  | .trackerComplete => true
  | .run _ _ => true
  | .deleteWorkItem _ => true
  | .subRef .callback => true
  | _ => false

/-- A work item is about to be stored in the slot. -/
def Op.storesItem : Op → Bool
  | .submit _ .storeWorkItem => true
  | _ => false

/-- A callback is about to check `completed`. -/
def Op.checks : Op → Bool
  | .run _ .checkCompleted => true
  | _ => false

/-- A work item is stored only into an empty slot, and no callback finds the task
completed when it starts. -/
def Paired (s : State) : State.Label → Prop
  | .run i _ => ∀ op ∈ s.next i,
      (op.storesItem = true → s.workItem = none) ∧ (op.checks = true → s.completed = false)
  | _ => True

instance (s : State) (a : State.Label) : Decidable (Paired s a) := by
  unfold Paired; split <;> infer_instance

/-- Where the work items are in a run of paired steps. -/
structure LifeCycle (s : State) : Prop where
  active : ∀ id, load (Op.active id) s.threads + queuedAt s.items id = slotAt s.workItem id
  token : ∀ id, load (Op.token id) s.threads + slotAt s.workItem id + deletesAt s.items id =
    if id < s.items.length then 1 else 0
  safe : s.deletedQueued = false

theorem LifeCycle.initial : LifeCycle initial where
  active _ := rfl
  token _ := rfl
  safe := rfl

section Steps

variable {driver : Driver} {mode : Hardening} {s s' s₁ : State} {i : Nat} {c : Choice} {f : Call}
  {op : Op} {push rest : List Op} {id : Nat}

/-- An operation that has nothing to do with work items. -/
structure Neutral (s s₁ : State) (op : Op) (push : List Op) : Prop where
  items : s₁.items = s.items
  slot : s₁.workItem = s.workItem
  deletedQueued : s₁.deletedQueued = s.deletedQueued
  active : ∀ id, total (Op.active id) push = op.active id
  token : ∀ id, total (Op.token id) push = op.token id

theorem LifeCycle.of_neutral (life : LifeCycle s)
    (thread : s.threads[i]? = some ⟨f, op :: rest⟩) (neutral : Neutral s s₁ op push) :
    LifeCycle (s₁.moved (s.threads.set i ⟨f, push ++ rest⟩)) := by
  obtain ⟨items, slot, deletedQueued, active, token⟩ := neutral
  constructor
  · intro id
    have moved := load_set (Op.active id) f push thread
    have before := life.active id
    rw [active id] at moved
    simp only [State.moved_threads, State.moved_items, State.moved_workItem, items, slot]
    omega
  · intro id
    have moved := load_set (Op.token id) f push thread
    have before := life.token id
    rw [token id] at moved
    simp only [State.moved_threads, State.moved_items, State.moved_workItem, items, slot]
    omega
  · exact deletedQueued.trans life.safe

/-- The operations that move work items; every other one is neutral. -/
def Op.moves : Op → Bool
  | .createWorkItem => true
  | .submit _ .storeWorkItem => true
  | .submit _ .enqueue => true
  | .run _ .checkCompleted => true
  | .run _ .swapWorkItem => true
  | .deleteWorkItem _ => true
  | _ => false

theorem Neutral.run {op : Run} {push : List Op}
    (goes : ∃ op', push = [.run id op'] ∨ push = [.subRef .waker, .run id op'])
    (frame : s₁.items = s.items ∧ s₁.workItem = s.workItem ∧
      s₁.deletedQueued = s.deletedQueued) : Neutral s s₁ (.run id op) push := by
  obtain ⟨items, slot, deletedQueued⟩ := frame
  obtain ⟨op', rfl | rfl⟩ := goes
  all_goals exact ⟨items, slot, deletedQueued, fun id => by simp [Op.active],
    fun id => by simp [Op.token]⟩

theorem neutral_of_perform (performed : s.perform driver mode i f c op = some (s₁, push))
    (plain : op.moves = false) : Neutral s s₁ op push := by
  have complete : ∀ id, total (Op.active id) s.complete = 0 ∧ total (Op.token id) s.complete = 0 := by
    intro id
    simp only [State.complete]
    split <;> exact ⟨rfl, rfl⟩
  cases op with
  | createWorkItem | deleteWorkItem => cases plain
  | submit id op =>
      cases op with
      | storeWorkItem | enqueue => cases plain
      | addRef =>
          simp only [State.perform, State.performSubmit, Option.map_eq_some_iff] at performed
          obtain ⟨⟨_, count⟩, -, performed⟩ := performed
          cases performed
          exact ⟨rfl, rfl, rfl, fun _ => rfl, fun _ => rfl⟩
  | run id op =>
      cases op with
      | checkCompleted | swapWorkItem => cases plain
      | rawWaker =>
          simp only [State.perform, State.performRun, Option.map_eq_some_iff] at performed
          obtain ⟨⟨_, count⟩, -, performed⟩ := performed
          cases performed
          exact .run ⟨_, Or.inl rfl⟩ ⟨rfl, rfl, rfl⟩
      | loadCancel =>
          cases performed
          split <;> exact .run ⟨_, Or.inl rfl⟩ ⟨rfl, rfl, rfl⟩
      | polling =>
          simp only [State.perform, State.performRun] at performed
          split at performed
          · cases performed
          · split at performed <;> cases performed
            · exact .run ⟨_, Or.inl rfl⟩ ⟨rfl, rfl, rfl⟩
            · exact .run ⟨_, Or.inr rfl⟩ ⟨rfl, rfl, rfl⟩
      | dropping waker =>
          cases performed
          cases waker
          · exact .run ⟨_, Or.inl rfl⟩ ⟨rfl, rfl, rfl⟩
          · exact .run ⟨_, Or.inr rfl⟩ ⟨rfl, rfl, rfl⟩
      | _ =>
          cases performed
          exact .run ⟨_, Or.inl rfl⟩ ⟨rfl, rfl, rfl⟩
  | newHandle | addHandle | cloneRaw | subRef =>
      simp only [State.perform, Option.map_eq_some_iff] at performed
      obtain ⟨⟨_, count⟩, -, performed⟩ := performed
      cases performed
      (try split) <;> exact ⟨rfl, rfl, rfl, fun _ => rfl, fun _ => rfl⟩
  | allocate | endSpawn | casScheduled | casCancel =>
      simp only [State.perform] at performed
      split at performed <;> cases performed <;> (try split) <;>
        exact ⟨rfl, rfl, rfl, fun _ => rfl, fun _ => rfl⟩
  | checkContext | setContext | loadCompleted | contextIsValid | free =>
      cases performed
      split <;> exact ⟨rfl, rfl, rfl, fun _ => rfl, fun _ => rfl⟩
  | abandon =>
      cases performed
      exact ⟨rfl, rfl, rfl, fun id => (complete id).1, fun id => (complete id).2⟩
  | _ =>
      cases performed
      exact ⟨rfl, rfl, rfl, fun _ => rfl, fun _ => rfl⟩

/-- An active work item is the one in the slot, and it exists. -/
theorem LifeCycle.slot_of_active (life : LifeCycle s)
    (thread : s.threads[i]? = some ⟨f, op :: rest⟩) (active : op.active id = 1) :
    s.workItem = some id ∧ id < s.items.length ∧ queuedAt s.items id = 0 ∧
      load (Op.active id) s.threads = 1 := by
  have one := head_le_load (Op.active id) thread
  have here := life.active id
  have token := life.token id
  have slot : s.workItem = some id := by
    by_contra other
    simp only [slotAt, if_neg other] at here
    omega
  simp only [slotAt, slot, if_true] at here token
  refine ⟨slot, ?_, by omega, by omega⟩
  by_contra beyond
  rw [if_neg beyond] at token
  omega

theorem LifeCycle.createWorkItem (life : LifeCycle s)
    (thread : s.threads[i]? = some ⟨f, .createWorkItem :: rest⟩)
    (performed : s.perform driver mode i f c .createWorkItem = some (s₁, push)) :
    LifeCycle (s₁.moved (s.threads.set i ⟨f, push ++ rest⟩)) := by
  simp only [State.perform] at performed
  split at performed
  · refine life.of_neutral thread ?_
    cases performed
    exact ⟨rfl, rfl, rfl, fun _ => rfl, fun _ => rfl⟩
  · cases performed
    constructor
    · intro id
      have moved := load_set (Op.active id) f [.submit s.items.length .storeWorkItem] thread
      have before := life.active id
      simp only [total_cons, total_nil, Op.active] at moved
      simp only [State.moved_threads, State.moved_items, State.moved_workItem, queuedAt_append]
      omega
    · intro id
      have moved := load_set (Op.token id) f [.submit s.items.length .storeWorkItem] thread
      have before := life.token id
      simp only [total_cons, total_nil, Op.token] at moved
      simp only [State.moved_threads, State.moved_items, State.moved_workItem, deletesAt_append,
        List.length_append, List.length_singleton]
      rcases Nat.lt_trichotomy id s.items.length with below | rfl | above
      · rw [if_pos below] at before
        rw [if_neg (by omega)] at moved
        rw [if_pos (by omega)]
        omega
      · rw [if_neg (Nat.lt_irrefl _)] at before
        rw [if_pos rfl] at moved
        rw [if_pos (Nat.lt_succ_self _)]
        omega
      · rw [if_neg (by omega)] at before
        rw [if_neg (by omega)] at moved
        rw [if_neg (by omega)]
        omega
    · exact life.safe

theorem LifeCycle.storeWorkItem (life : LifeCycle s)
    (thread : s.threads[i]? = some ⟨f, .submit id .storeWorkItem :: rest⟩)
    (empty : s.workItem = none)
    (performed : s.perform driver mode i f c (.submit id .storeWorkItem) = some (s₁, push)) :
    LifeCycle (s₁.moved (s.threads.set i ⟨f, push ++ rest⟩)) := by
  cases performed
  constructor
  · intro id'
    have moved := load_set (Op.active id') f [.submit id .addRef] thread
    have before := life.active id'
    simp only [total_cons, total_nil, Op.active] at moved
    simp only [slotAt, empty, reduceCtorEq, if_false] at before
    simp only [State.moved_threads, State.moved_items, State.moved_workItem, slotAt,
      Option.some.injEq]
    omega
  · intro id'
    have moved := load_set (Op.token id') f [.submit id .addRef] thread
    have before := life.token id'
    simp only [total_cons, total_nil, Op.token] at moved
    simp only [slotAt, empty, reduceCtorEq, if_false] at before
    simp only [State.moved_threads, State.moved_items, State.moved_workItem, slotAt,
      Option.some.injEq]
    omega
  · exact life.safe

theorem LifeCycle.enqueue (life : LifeCycle s)
    (thread : s.threads[i]? = some ⟨f, .submit id .enqueue :: rest⟩)
    (performed : s.perform driver mode i f c (.submit id .enqueue) = some (s₁, push)) :
    LifeCycle (s₁.moved (s.threads.set i ⟨f, push ++ rest⟩)) := by
  obtain ⟨-, bound, unqueued, -⟩ := life.slot_of_active thread (if_pos rfl)
  cases performed
  constructor
  · intro id'
    have moved := load_set (Op.active id') f [] thread
    have before := life.active id'
    simp only [total_nil, Op.active] at moved
    simp only [State.moved_threads, State.moved_items, State.moved_workItem,
      queuedAt_phase _ bound, if_true]
    by_cases same : id = id'
    · subst same
      rw [if_pos rfl] at moved ⊢
      omega
    · rw [if_neg same] at moved ⊢
      omega
  · intro id'
    have moved := load_set (Op.token id') f [] thread
    have before := life.token id'
    simp only [total_nil, Op.token] at moved
    simp only [State.moved_threads, State.moved_items, State.moved_workItem, deletesAt_phase,
      List.length_modify]
    omega
  · exact life.safe

/-- A callback that does not find the task completed goes on. -/
theorem LifeCycle.checkCompleted (life : LifeCycle s)
    (thread : s.threads[i]? = some ⟨f, .run id .checkCompleted :: rest⟩)
    (unfinished : s.completed = false)
    (performed : s.perform driver mode i f c (.run id .checkCompleted) = some (s₁, push)) :
    LifeCycle (s₁.moved (s.threads.set i ⟨f, push ++ rest⟩)) := by
  refine life.of_neutral thread ?_
  cases performed
  rw [unfinished]
  exact .run ⟨_, Or.inl rfl⟩ ⟨rfl, rfl, rfl⟩

/-- The slot holds the work item of the callback that empties it. -/
theorem LifeCycle.swapWorkItem (life : LifeCycle s)
    (thread : s.threads[i]? = some ⟨f, .run id .swapWorkItem :: rest⟩)
    (performed : s.perform driver mode i f c (.run id .swapWorkItem) = some (s₁, push)) :
    LifeCycle (s₁.moved (s.threads.set i ⟨f, push ++ rest⟩)) := by
  obtain ⟨slot, -, -, -⟩ := life.slot_of_active thread (if_pos rfl)
  have pushed : s₁ = { s with workItem := none } ∧
      push = [.deleteWorkItem id] ++ s.complete ++ [.subRef .callback] := by
    simp only [State.perform, State.performRun, State.chosen, slot, Option.some.injEq,
      Prod.mk.injEq] at performed
    exact ⟨performed.1.symm, performed.2.symm⟩
  obtain ⟨rfl, rfl⟩ := pushed
  have complete : ∀ id, total (Op.active id) s.complete = 0 ∧ total (Op.token id) s.complete = 0 := by
    intro id
    simp only [State.complete]
    split <;> exact ⟨rfl, rfl⟩
  constructor
  · intro id'
    have moved := load_set (Op.active id') f
      ([.deleteWorkItem id] ++ s.complete ++ [.subRef .callback]) thread
    have before := life.active id'
    simp only [total_append, total_cons, total_nil, (complete id').1, Op.active] at moved
    simp only [slotAt, slot, Option.some.injEq] at before
    simp only [State.moved_threads, State.moved_items, State.moved_workItem, slotAt,
      reduceCtorEq, if_false]
    omega
  · intro id'
    have moved := load_set (Op.token id') f
      ([.deleteWorkItem id] ++ s.complete ++ [.subRef .callback]) thread
    have before := life.token id'
    simp only [total_append, total_cons, total_nil, (complete id').2, Op.token] at moved
    simp only [slotAt, slot, Option.some.injEq] at before
    simp only [State.moved_threads, State.moved_items, State.moved_workItem, slotAt,
      reduceCtorEq, if_false]
    omega
  · exact life.safe

theorem LifeCycle.deleteWorkItem (life : LifeCycle s)
    (thread : s.threads[i]? = some ⟨f, .deleteWorkItem id :: rest⟩)
    (performed : s.perform driver mode i f c (.deleteWorkItem id) = some (s₁, push)) :
    LifeCycle (s₁.moved (s.threads.set i ⟨f, push ++ rest⟩)) := by
  have one := head_le_load (Op.token id) thread
  have token := life.token id
  have active := life.active id
  simp only [Op.token, if_true] at one
  have bound : id < s.items.length := by
    by_contra beyond
    rw [if_neg beyond] at token
    omega
  rw [if_pos bound] at token
  have unqueued : queuedAt s.items id = 0 := by omega
  cases performed
  constructor
  · intro id'
    have moved := load_set (Op.active id') f [] thread
    have before := life.active id'
    simp only [total_nil, Op.active] at moved
    simp only [State.moved_threads, State.moved_items, State.moved_workItem, queuedAt_delete]
    omega
  · intro id'
    have moved := load_set (Op.token id') f [] thread
    have before := life.token id'
    simp only [total_nil, Op.token] at moved
    simp only [State.moved_threads, State.moved_items, State.moved_workItem,
      deletesAt_delete bound, List.length_modify]
    omega
  · simp only [State.moved_deletedQueued, life.safe, Bool.false_or]
    cases queued : (s.items[id]?).any fun item => item.phase = .queued with
    | false => rfl
    | true =>
        simp only [queuedAt, queued, if_true] at unqueued
        omega

theorem LifeCycle.run (life : LifeCycle s) (paired : Paired s (.run i c))
    (step : s.step driver mode (.run i c) = some s') : LifeCycle s' := by
  obtain ⟨f, op, rest, s₁, push, thread, performed, rfl⟩ := State.step_run step
  have next : op ∈ s.next i := by simp [State.next, thread]
  obtain ⟨stores, checks⟩ := paired op next
  cases plain : op.moves with
  | false => exact life.of_neutral thread (neutral_of_perform performed plain)
  | true =>
      cases op with
      | createWorkItem => exact life.createWorkItem thread performed
      | submit id op =>
          cases op with
          | storeWorkItem => exact life.storeWorkItem thread (stores rfl) performed
          | enqueue => exact life.enqueue thread performed
          | addRef => cases plain
      | run id op =>
          cases op with
          | checkCompleted => exact life.checkCompleted thread (checks rfl) performed
          | swapWorkItem => exact life.swapWorkItem thread performed
          | _ => cases plain
      | deleteWorkItem id => exact life.deleteWorkItem thread performed
      | _ => cases plain

/-- A queued work item leaves its place to its callback. -/
theorem LifeCycle.start (life : LifeCycle s) (step : s.step driver mode (.start id) = some s') :
    LifeCycle s' := by
  obtain ⟨item, here, queued, rfl⟩ := State.step_start step
  have bound : id < s.items.length := (List.getElem?_eq_some_iff.mp here).1
  have was : queuedAt s.items id = 1 := by simp [queuedAt, here, queued]
  constructor
  · intro id'
    have before := life.active id'
    simp only [load_append, load_cons, load_nil, total_cons, total_nil, Op.active,
      queuedAt_phase _ bound, reduceCtorEq, if_false]
    by_cases same : id = id'
    · subst same
      rw [if_pos rfl, if_pos rfl]
      omega
    · rw [if_neg same, if_neg same]
      omega
  · intro id'
    have before := life.token id'
    simp only [load_append, load_cons, load_nil, total_cons, total_nil, Op.token,
      deletesAt_phase, List.length_modify]
    omega
  · exact life.safe

theorem LifeCycle.call (life : LifeCycle s) (step : s.step driver mode (.call f) = some s') :
    LifeCycle s' := by
  obtain ⟨callable, rfl⟩ := State.step_call step
  have frame : (s.enter f).items = s.items ∧ (s.enter f).workItem = s.workItem ∧
      (s.enter f).deletedQueued = s.deletedQueued := by
    cases f <;> exact ⟨rfl, rfl, rfl⟩
  have outside : ∀ id, total (Op.active id) f.code = 0 ∧ total (Op.token id) f.code = 0 := by
    intro id
    cases f with
    | callback id => cases callable
    | _ => exact ⟨rfl, rfl⟩
  obtain ⟨items, slot, deletedQueued⟩ := frame
  constructor
  · intro id
    simp only [load_append, load_cons, load_nil, (outside id).1, items, slot]
    exact life.active id
  · intro id
    simp only [load_append, load_cons, load_nil, (outside id).2, items, slot]
    exact life.token id
  · exact deletedQueued.trans life.safe

end Steps

theorem lifeCycle_of_reach {driver : Driver} {mode : Hardening} {s : State}
    (reached : (system driver mode).Reach Paired s) : LifeCycle s := by
  refine Sys.Reach.invariant ?_ ?_ reached
  · rintro s rfl
    exact LifeCycle.initial
  · intro s a s' life paired step
    cases a with
    | run i c => exact life.run paired step
    | start id =>
        have started : s.step driver mode (.start id) = some s' := step
        exact life.start started
    | call f =>
        have made : s.step driver mode (.call f) = some s' := step
        exact life.call made

/-- What the executor owes to its work items: none is deleted twice or while it is
queued, and when nothing is queued, running or being scheduled each one has been
deleted. -/
def Disposed (s : State) : Prop :=
  (∀ item ∈ s.items, item.deletes ≤ 1) ∧ s.deletedQueued = false ∧
    ((∀ item ∈ s.items, item.phase ≠ .queued) →
      (∀ t ∈ s.threads, ∀ op ∈ t.code, op.working = false) → ∀ item ∈ s.items, item.deletes = 1)

/-- **The life of a work item**, in every run whose steps are paired. -/
theorem work_items_disposed {driver : Driver} {mode : Hardening} {s : State}
    (reached : (system driver mode).Reach Paired s) : Disposed s := by
  have life := lifeCycle_of_reach reached
  have deletes : ∀ item ∈ s.items, ∃ id, load (Op.token id) s.threads + slotAt s.workItem id +
      item.deletes = 1 ∧ load (Op.active id) s.threads + queuedAt s.items id =
        slotAt s.workItem id := by
    intro item mem
    obtain ⟨id, here⟩ := List.mem_iff_getElem?.mp mem
    have token := life.token id
    have bound : id < s.items.length := (List.getElem?_eq_some_iff.mp here).1
    rw [if_pos bound, deletesAt, here] at token
    exact ⟨id, token, life.active id⟩
  refine ⟨?_, life.safe, ?_⟩
  · intro item mem
    obtain ⟨id, token, -⟩ := deletes item mem
    omega
  · intro unqueued idle item mem
    obtain ⟨id, token, active⟩ := deletes item mem
    have noToken : load (Op.token id) s.threads = 0 := by
      rw [load_eq_zero]
      intro t tMem op pending
      have outside := idle t tMem op pending
      cases op with
      | submit | deleteWorkItem => cases outside
      | _ => rfl
    have noActive : load (Op.active id) s.threads = 0 := by
      rw [load_eq_zero]
      intro t tMem op pending
      have outside := idle t tMem op pending
      cases op with
      | submit | run => cases outside
      | _ => rfl
    have noQueue : queuedAt s.items id = 0 := by
      rw [queuedAt, if_neg]
      intro queued
      cases here : s.items[id]? with
      | none =>
          rw [here] at queued
          cases queued
      | some other =>
          rw [here] at queued
          exact unqueued other (List.mem_of_getElem? here) (of_decide_eq_true queued)
    omega

/-- Thread `i` takes a step in which the environment decides nothing. -/
abbrev go (i : Nat) : State.Label :=
  .run i .go

/-- `spawn_task` as thread 0, and the callback of its work item as thread 1 up to the
call of the future's `poll`. -/
def firstPoll : List State.Label :=
  [.call (.spawn .plain), go 0, go 0, go 0, go 0, go 0, go 0, go 0, go 0, go 0, go 0, go 0,
    .start 0, go 1, go 1, go 1, go 1, go 1]

/-- A future that is ready at its first poll. -/
theorem work_items_disposed_of_ready :
    ∃ s, (system .kmdf .off).Reach Paired s ∧
      (s.items = [⟨.started, 1⟩] ∧ ∀ t ∈ s.threads, t.code = []) ∧ Disposed s := by
  obtain ⟨s, reached, done⟩ := Sys.Reach.exists_of_execIf
    (fun s : State => s.items = [⟨.started, 1⟩] ∧ ∀ t ∈ s.threads, t.code = [])
    (firstPoll ++ [.run 1 .ready, go 1, go 1, go 1, go 1, go 1, go 1, go 1, go 1, go 1])
    (.start rfl : (system .kmdf .off).Reach Paired initial) (by decide)
  exact ⟨s, reached, done, work_items_disposed reached⟩

/-- A future that wakes itself during its poll: `schedule` stores and enqueues a
second work item, and the callback of the first deletes it while it is queued. -/
theorem queued_work_item_deleted :
    (¬ ∀ s, (system .wdm .off).Reachable s → Disposed s) ∧
      ¬ ∀ s, (system .kmdf .off).Reachable s → Disposed s := by
  constructor
  · intro disposed
    obtain ⟨s, reached, deleted⟩ := Sys.Reach.exists_of_exec
      (fun s : State => s.deletedQueued = true)
      (firstPoll ++ [.call (.wakeByRef (.activation 1)), go 2, go 2, go 2, go 2, go 2, go 2, go 2,
        go 1, go 1, go 1, go 1])
      (.start rfl : (system .wdm .off).Reachable initial) (by decide)
    rw [(disposed s reached).2.1] at deleted
    cases deleted
  · intro disposed
    obtain ⟨s, reached, deleted⟩ := Sys.Reach.exists_of_exec
      (fun s : State => s.deletedQueued = true)
      (firstPoll ++ [.call (.wakeByRef (.activation 1)), go 2, go 2, go 2, go 2, go 2, go 2, go 2,
        go 1, go 1, go 1, go 1])
      (.start rfl : (system .kmdf .off).Reachable initial) (by decide)
    rw [(disposed s reached).2.1] at deleted
    cases deleted

end Kcom.WorkItem
