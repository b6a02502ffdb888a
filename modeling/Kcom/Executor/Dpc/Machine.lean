import Mathlib.Logic.Function.Basic
import Kcom.Conc.History
import Kcom.Executor.Dpc.Processors

/-!
# DPC tasks on a machine

Any number of tasks, and the processors that run them. `CURRENT_TASKS` is one table for
all of them: `set_current_task` and `clear_current_task` write the entry of their
`cpu_index`, whatever task it names, and the two helpers that a future may call load the
entry of their processor and go on with the task they find there (`Machine.target`).
A DPC routine stays on its processor and no other DPC preempts it there, so a processor
takes the next one only when the last has returned.

The budget statics are left with the tasks (`State.budgetMode` and the others): what
`set_task_budget` writes for all of them at once, each may see written at any time.
-/

namespace Kcom.Dpc

open Conc

/-- An activation of `dpc_routine`: the task, the thread of the task that executes it, and
the processor it runs on. -/
structure Activation where
  task : Nat
  thread : Nat
  processor : Processor
  deriving DecidableEq, Repr

structure Machine where
  tasks : List State
  /-- `CURRENT_TASKS`. -/
  currentTasks : Nat → Option Nat
  activations : List Activation
  /-- The task that a running helper has loaded, by the task and thread it belongs to. -/
  target : Nat → Nat → Option Nat

namespace Machine

/-- Before any of `n` tasks is spawned. -/
def initial (n : Nat) : Machine where
  tasks := List.replicate n Dpc.initial
  currentTasks _ := none
  activations := []
  target _ _ := none

/-- A step of a task other than a dequeue, or a processor that dequeues its DPC. -/
inductive Label
  | task (k : Nat) (a : State.Label)
  | dequeue (k : Nat) (p : Processor)
  deriving DecidableEq, Repr

/-- The activation has not returned. -/
def busy (m : Machine) (a : Activation) : Bool :=
  ((m.tasks[a.task]?).bind fun s => s.threads[a.thread]?).any fun t => !t.code.isEmpty

/-- Thread `i`, which executes `f`, has performed `op` and has `code` left. -/
def advance (s : State) (i : Nat) (f : Call) (op : Op) (code : List Op) : State :=
  { s with threads := s.threads.set i ⟨f, code⟩ }.finish f op code

/-- `compare_exchange(1, 2)` on `cancel_requested`. -/
def acknowledge (s : State) : State :=
  if s.cancelRequested = .requested then { s with cancelRequested := .acknowledged } else s

/-- What a step writes to `CURRENT_TASKS`. -/
def written (m : Machine) (k : Nat) : Option Op → Nat → Option Nat
  | some (.loop (.setCurrent n)) => Function.update m.currentTasks n (some k)
  | some (.clearCurrent n) => Function.update m.currentTasks n none
  | _ => m.currentTasks

def step (mode : Hardening) (m : Machine) : Label → Option Machine
  | .task k (.run i c) =>
      match m.tasks[k]? with
      | none => none
      | some s =>
          match s.threads[i]? with
          | some ⟨f, .loadCurrent n take :: rest⟩ =>
              let found := m.currentTasks n
              let push := match found with
                | some _ => if take then [.casAcknowledge] else [.loadCancel]
                | none => []
              some { m with
                tasks := m.tasks.set k (advance s i f (.loadCurrent n take) (push ++ rest))
                target := Function.update m.target k (Function.update (m.target k) i found) }
          | some ⟨f, .casAcknowledge :: rest⟩ =>
              (m.target k i).map fun t =>
                { m with
                  tasks := (m.tasks.set k (advance s i f .casAcknowledge rest)).modify t
                    acknowledge }
          | _ =>
              (s.step mode (.run i c)).map fun s' =>
                { m with
                  tasks := m.tasks.set k s'
                  currentTasks := m.written k (s.next i) }
  | .task k (.call f) =>
      match m.tasks[k]? with
      | none => none
      | some s => (s.step mode (.call f)).map fun s' => { m with tasks := m.tasks.set k s' }
  | .task _ (.dequeue _) => none
  | .dequeue k p =>
      match m.tasks[k]? with
      | none => none
      | some s =>
          if m.activations.any fun a => a.processor = p && m.busy a then none
          else
            (s.step mode (.dequeue (currentCpuIndex p))).map fun s' =>
              { m with
                tasks := m.tasks.set k s'
                activations := m.activations ++ [⟨k, s.threads.length, p⟩] }

/-- A step adds a reference to a task only below the capacity of its counter. -/
def Counted (mode : Hardening) (m : Machine) : Label → Prop
  | .task k a => ∀ s ∈ m.tasks[k]?, Dpc.Counted mode s a
  | .dequeue _ _ => True

instance (mode : Hardening) (m : Machine) : (a : Label) → Decidable (Counted mode m a)
  | .task k a => inferInstanceAs (Decidable (∀ s ∈ m.tasks[k]?, Dpc.Counted mode s a))
  | .dequeue _ _ => .isTrue trivial

/-- The tasks for which `CancelHandle::cancel` was called, and the calls of
`take_cancellation_request` that returned true: the task they were called from and the task
whose request they took. -/
structure Record where
  cancelled : List Nat
  taken : List (Nat × Nat)
  deriving DecidableEq, Repr

def record (m : Machine) (a : Label) (h : Record) : Record :=
  match a with
  | .task k (.call (.cancel _)) => { h with cancelled := k :: h.cancelled }
  | .task k (.run i _) =>
      match (m.tasks[k]?).bind (·.next i), m.target k i with
      | some .casAcknowledge, some t =>
          if (m.tasks[t]?).any fun s => s.cancelRequested = .requested then
            { h with taken := (k, t) :: h.taken }
          else h
      | _, _ => h
  | _ => h

end Machine

/-- The machine, in one of the builds of the reference counter. -/
def machine (mode : Hardening) : Sys Machine Machine.Label where
  start m := ∃ n, m = Machine.initial n
  step := Machine.step mode

namespace Machine

variable {mode : Hardening} {m m' : Machine} {s s' : State} {i k n : Nat} {c : Choice}
  {f : Call} {p : Processor}

/-- Thread `i` of task `k` is between `set_current_task(n, ..)` and
`clear_current_task(n)`. -/
def SitsAt (m : Machine) (k i n : Nat) : Prop :=
  ∃ s, m.tasks[k]? = some s ∧ s.SitsAt i n

/-- The activations on their processors. -/
structure Housed (m : Machine) : Prop where
  placed : ∀ k s i t cpu, m.tasks[k]? = some s → s.threads[i]? = some t →
    t.tag = .dpcRoutine cpu → ∃ a ∈ m.activations, a.task = k ∧ a.thread = i ∧
      currentCpuIndex a.processor = cpu
  known : ∀ a ∈ m.activations, ∃ s, m.tasks[a.task]? = some s ∧ a.thread < s.threads.length
  /-- No activation preempts another one. -/
  alone : ∀ a ∈ m.activations, ∀ b ∈ m.activations, a.processor = b.processor →
    m.busy a = true → m.busy b = true → a = b

/-- What holds in every state reached. -/
structure Consistent (mode : Hardening) (m : Machine) : Prop extends Housed m where
  reached : ∀ s ∈ m.tasks, (system mode).Reach (Dpc.Counted mode) s
  /-- The entry of a processor is the task that runs there. -/
  table : ∀ n k, m.currentTasks n = some k ↔ ∃ i, m.SitsAt k i n
  seat : ∀ s ∈ m.tasks, ∀ n, n ∈ s.current ↔ ∃ i, s.SitsAt i n
  /-- A helper that has loaded a task has loaded that of its caller. -/
  target : ∀ k s i t, m.tasks[k]? = some s → s.threads[i]? = some t →
    .casAcknowledge ∈ t.code → m.target k i = some k

theorem Consistent.initial (n : Nat) : Consistent mode (initial n) where
  placed k s i t cpu here thread := by
    rw [List.eq_of_mem_replicate (List.mem_of_getElem? here)] at thread
    cases thread
  known := nofun
  alone := nofun
  reached s member := by
    rw [List.eq_of_mem_replicate member]
    exact .start rfl
  table n k := by
    refine ⟨nofun, ?_⟩
    rintro ⟨i, s, here, t, thread, -⟩
    rw [List.eq_of_mem_replicate (List.mem_of_getElem? here)] at thread
    cases thread
  seat s member n := by
    rw [List.eq_of_mem_replicate member]
    refine ⟨nofun, ?_⟩
    rintro ⟨i, t, thread, -⟩
    cases thread
  target k s i t here thread := by
    rw [List.eq_of_mem_replicate (List.mem_of_getElem? here)] at thread
    cases thread

/-- One activation at a time is between `set_current_task` and `clear_current_task` of an
index. -/
theorem Housed.exclusive {k' i' : Nat} (housed : Housed m) (seated : ∀ s ∈ m.tasks, Seated s)
    (left : m.SitsAt k i n) (right : m.SitsAt k' i' n) : k = k' ∧ i = i' := by
  have found : ∀ {k i}, m.SitsAt k i n → ∃ a ∈ m.activations, a.task = k ∧ a.thread = i ∧
      currentCpuIndex a.processor = some n ∧ m.busy a = true := by
    rintro k i ⟨s, here, t, thread, sits⟩
    obtain ⟨tag, runs⟩ := (seated s (List.mem_of_getElem? here)).tag thread sits
    obtain ⟨a, member, rfl, rfl, index⟩ := housed.placed k s i t _ here thread tag
    refine ⟨a, member, rfl, rfl, index, ?_⟩
    simp [busy, here, thread, runs]
  obtain ⟨a, memberA, rfl, rfl, indexA, busyA⟩ := found left
  obtain ⟨b, memberB, rfl, rfl, indexB, busyB⟩ := found right
  have same := housed.alone a memberA b memberB (currentCpuIndex_inj indexA indexB) busyA busyB
  rw [same]
  exact ⟨rfl, rfl⟩

/-! ## A step of the machine is a step of one task -/

/-- The record of a return depends on the call and on what it has left. -/
theorem finish_returns (f : Call) (op : Op) (code : List Op) :
    ∃ returns : Bool, ∀ s : State,
      s.finish f op code = { s with finished := s.finished || returns } := by
  have same : ∀ s : State, s = { s with finished := s.finished || false } := by
    intro s
    rw [Bool.or_false]
  have set : ∀ s : State,
      { s with finished := true } = { s with finished := s.finished || true } := by
    intro s
    rw [Bool.or_true]
  by_cases empty : code = []
  · unfold State.finish
    simp only [empty, if_true]
    cases f with
    | wake | wakeByRef => exact ⟨true, set⟩
    | cancel k =>
        by_cases first : op = .casCancel
        · simp only [first, if_true]
          exact ⟨false, same⟩
        · simp only [first, if_false]
          exact ⟨true, set⟩
    | _ => exact ⟨false, same⟩
  · unfold State.finish
    simp only [empty, if_false]
    exact ⟨false, same⟩

theorem finish_acknowledge (s : State) (f : Call) (op : Op) (code : List Op)
    (threads : List (Thread Call Op)) :
    acknowledge ({ s with threads := threads }.finish f op code) =
      ({ acknowledge s with threads := threads }).finish f op code := by
  obtain ⟨returns, finish⟩ := finish_returns f op code
  rw [finish, finish]
  unfold acknowledge
  split <;> rfl

/-- What a helper finds is the task that it was called from. -/
theorem Consistent.found {t : Thread Call Op} {take : Bool} (consistent : Consistent mode m)
    (here : m.tasks[k]? = some s) (thread : s.threads[i]? = some t)
    (pending : .loadCurrent n take ∈ t.code) :
    m.currentTasks n = some k ∧ n ∈ s.current := by
  have member := List.mem_of_getElem? here
  have reached := consistent.reached s member
  obtain ⟨j, sits⟩ := (memory_of_reach reached).sits_of_lookup (seated_of_reach reached)
    (List.mem_of_getElem? thread) pending
  exact ⟨(consistent.table n k).mpr ⟨j, s, here, sits⟩, (consistent.seat s member n).mpr ⟨j, sits⟩⟩

/-- The step of a thread, with what it writes to the table and what it has loaded. -/
theorem Consistent.step_run (consistent : Consistent mode m)
    (step : m.step mode (.task k (.run i c)) = some m') :
    ∃ s s' f op rest, m.tasks[k]? = some s ∧ s.threads[i]? = some ⟨f, op :: rest⟩ ∧
      s.step mode (.run i c) = some s' ∧ m'.tasks = m.tasks.set k s' ∧
      m'.activations = m.activations ∧ m'.currentTasks = m.written k (some op) ∧
      (∀ k' i', (k' ≠ k ∨ i' ≠ i ∨ ∀ n take, op ≠ .loadCurrent n take) →
        m'.target k' i' = m.target k' i') ∧
      ∀ n take, op = .loadCurrent n take → m'.target k i = some k := by
  simp only [Machine.step] at step
  split at step
  · cases step
  · next s here =>
    split at step
    · next f n take rest thread =>
        cases step
        obtain ⟨found, current⟩ := consistent.found here thread List.mem_cons_self
        have performed : s.step mode (.run i c) = some (advance s i f (.loadCurrent n take)
            ((if take then [.casAcknowledge] else [.loadCancel]) ++ rest)) := by
          simp only [State.step, thread, State.perform, current, if_true, Option.map_some]
          rfl
        rw [found]
        refine ⟨s, _, f, _, rest, here, thread, performed, rfl, rfl, rfl, ?_, ?_⟩
        · intro k' i' other
          rcases other with task | thread | other
          · simp [Function.update_of_ne task]
          · by_cases task : k' = k
            · subst task
              simp [Function.update_of_ne thread]
            · simp [Function.update_of_ne task]
          · exact absurd rfl (other n take)
        · rintro n' take' -
          simp
    · next f rest thread =>
        have owner := consistent.target k s i _ here thread List.mem_cons_self
        rw [owner] at step
        cases step
        have performed : s.step mode (.run i c) =
            some (acknowledge (advance s i f .casAcknowledge rest)) := by
          rw [advance, finish_acknowledge]
          simp only [State.step, thread, State.perform, Option.map_some]
          rfl
        have bound : k < m.tasks.length := (List.getElem?_eq_some_iff.mp here).1
        refine ⟨s, _, f, _, rest, here, thread, performed, ?_, rfl, rfl, fun _ _ _ => rfl, ?_⟩
        · dsimp only
          rw [List.modify_eq_set_getElem?]
          simp [List.getElem?_set_self bound]
        · intro n take other
          cases other
    · next notLook notTake =>
        obtain ⟨s', performed, rfl⟩ := Option.map_eq_some_iff.mp step
        obtain ⟨f, op, rest, s₁, push, finished, thread, -, -⟩ := State.step_run performed
        have next : s.next i = some op := by simp [State.next, thread]
        rw [next]
        refine ⟨s, s', f, op, rest, here, thread, performed, rfl, rfl, rfl, fun _ _ _ => rfl, ?_⟩
        rintro n take rfl
        exact absurd thread (notLook f n take rest)

theorem step_call (step : m.step mode (.task k (.call f)) = some m') :
    ∃ s s', m.tasks[k]? = some s ∧ s.step mode (.call f) = some s' ∧
      m' = { m with tasks := m.tasks.set k s' } := by
  simp only [Machine.step] at step
  split at step
  · cases step
  · next s here =>
      obtain ⟨s', performed, rfl⟩ := Option.map_eq_some_iff.mp step
      exact ⟨s, s', here, performed, rfl⟩

theorem step_dequeue (step : m.step mode (.dequeue k p) = some m') :
    ∃ s s', m.tasks[k]? = some s ∧ s.step mode (.dequeue (currentCpuIndex p)) = some s' ∧
      (∀ a ∈ m.activations, a.processor = p → m.busy a = false) ∧
      m' = { m with
        tasks := m.tasks.set k s'
        activations := m.activations ++ [⟨k, s.threads.length, p⟩] } := by
  simp only [Machine.step] at step
  split at step
  · cases step
  · next s here =>
      split at step
      · cases step
      · next free =>
          obtain ⟨s', performed, rfl⟩ := Option.map_eq_some_iff.mp step
          refine ⟨s, s', here, performed, ?_, rfl⟩
          simpa using free

/-! ## The invariant -/

theorem sitsAt_set (here : m.tasks[k]? = some s) (tasks : m'.tasks = m.tasks.set k s')
    (k' i n : Nat) :
    m'.SitsAt k' i n ↔ (k' = k ∧ s'.SitsAt i n) ∨ (k' ≠ k ∧ m.SitsAt k' i n) := by
  unfold SitsAt
  rw [tasks]
  by_cases same : k' = k
  · subst same
    rw [List.getElem?_set_self (List.getElem?_eq_some_iff.mp here).1]
    simp
  · rw [List.getElem?_set_ne (Ne.symm same)]
    simp [same]

/-- A step of one task leaves the threads of the activations there. -/
theorem Housed.known_set (housed : Housed m) (here : m.tasks[k]? = some s)
    (tasks : m'.tasks = m.tasks.set k s') (length : s.threads.length ≤ s'.threads.length) :
    ∀ a ∈ m.activations, ∃ u, m'.tasks[a.task]? = some u ∧ a.thread < u.threads.length := by
  intro a member
  obtain ⟨u, there, below⟩ := housed.known a member
  by_cases same : a.task = k
  · rw [same, here] at there
    cases there
    refine ⟨s', ?_, Nat.lt_of_lt_of_le below length⟩
    rw [same, tasks, List.getElem?_set_self (List.getElem?_eq_some_iff.mp here).1]
  · exact ⟨u, by rw [tasks, List.getElem?_set_ne (Ne.symm same), there], below⟩

/-- An activation that has returned does not go on. -/
theorem Housed.busy_set (housed : Housed m) (here : m.tasks[k]? = some s)
    (tasks : m'.tasks = m.tasks.set k s')
    (codes : ∀ (j : Nat) (t : Thread Call Op), j < s.threads.length → s'.threads[j]? = some t →
      t.code ≠ [] → ∃ u, s.threads[j]? = some u ∧ u.code ≠ []) :
    ∀ a ∈ m.activations, m'.busy a = true → m.busy a = true := by
  intro a member runs
  obtain ⟨u, there, below⟩ := housed.known a member
  by_cases same : a.task = k
  · have mine : m'.tasks[k]? = some s' := by
      rw [tasks, List.getElem?_set_self (List.getElem?_eq_some_iff.mp here).1]
    rw [same, here] at there
    cases there
    simp only [Machine.busy, same, mine, here, Option.bind_some] at runs ⊢
    obtain ⟨t, thread, code⟩ := (Option.any_eq_true _ _).mp runs
    obtain ⟨u, thread', code'⟩ := codes _ t below thread (by simpa using code)
    simp [thread', code']
  · simp only [Machine.busy, tasks, List.getElem?_set_ne (Ne.symm same)] at runs ⊢
    exact runs

/-- A step of one task that starts no activation. -/
theorem Housed.of_threads (housed : Housed m) (here : m.tasks[k]? = some s)
    (tasks : m'.tasks = m.tasks.set k s') (activations : m'.activations = m.activations)
    (tags : ∀ (j : Nat) (t : Thread Call Op) (cpu : Option Nat), s'.threads[j]? = some t →
      t.tag = .dpcRoutine cpu → ∃ u, s.threads[j]? = some u ∧ u.tag = .dpcRoutine cpu)
    (codes : ∀ (j : Nat) (t : Thread Call Op), j < s.threads.length → s'.threads[j]? = some t →
      t.code ≠ [] → ∃ u, s.threads[j]? = some u ∧ u.code ≠ [])
    (length : s.threads.length ≤ s'.threads.length) : Housed m' := by
  have busy := housed.busy_set here tasks codes
  refine ⟨?_, ?_, ?_⟩ <;> rw [activations]
  · intro k' s₀ i t cpu there thread tag
    by_cases same : k' = k
    · subst same
      rw [tasks, List.getElem?_set_self (List.getElem?_eq_some_iff.mp here).1] at there
      cases there
      obtain ⟨u, thread', tag'⟩ := tags i t cpu thread tag
      exact housed.placed k' s i u cpu here thread' tag'
    · rw [tasks, List.getElem?_set_ne (Ne.symm same)] at there
      exact housed.placed k' s₀ i t cpu there thread tag
  · exact housed.known_set here tasks length
  · intro a memberA b memberB same runsA runsB
    exact housed.alone a memberA b memberB same (busy a memberA runsA) (busy b memberB runsB)

/-- A routine starts on a processor where none runs. -/
theorem Housed.dequeue {code : List Op} (housed : Housed m) (here : m.tasks[k]? = some s)
    (tasks : m'.tasks = m.tasks.set k s')
    (activations : m'.activations = m.activations ++ [⟨k, s.threads.length, p⟩])
    (threads : s'.threads = s.threads ++ [⟨.dpcRoutine (currentCpuIndex p), code⟩])
    (free : ∀ a ∈ m.activations, a.processor = p → m.busy a = false) : Housed m' := by
  have mine : m'.tasks[k]? = some s' := by
    rw [tasks, List.getElem?_set_self (List.getElem?_eq_some_iff.mp here).1]
  have length : s'.threads.length = s.threads.length + 1 := by
    rw [threads, List.length_append, List.length_singleton]
  have known := housed.known_set here tasks (by omega)
  have busy : ∀ a ∈ m.activations, m'.busy a = true → m.busy a = true := by
    refine housed.busy_set here tasks ?_
    intro j t below there running
    rw [threads, List.getElem?_append_left below] at there
    exact ⟨t, there, running⟩
  refine ⟨?_, ?_, ?_⟩ <;> rw [activations]
  · intro l s₀ j t cpu there thread tag
    by_cases task : l = k
    · subst task
      rw [mine] at there
      cases there
      rw [threads] at thread
      rcases Nat.lt_or_ge j s.threads.length with below | beyond
      · rw [List.getElem?_append_left below] at thread
        obtain ⟨a, memberA, fits⟩ := housed.placed l s j t cpu here thread tag
        exact ⟨a, List.mem_append_left _ memberA, fits⟩
      · rw [List.getElem?_append_right beyond] at thread
        have last : j = s.threads.length := by
          have short := (List.getElem?_eq_some_iff.mp thread).1
          simp only [List.length_singleton] at short
          omega
        rw [List.mem_singleton.mp (List.mem_of_getElem? thread)] at tag
        cases tag
        exact ⟨_, List.mem_append_right _ List.mem_cons_self, rfl, last.symm, rfl⟩
    · rw [tasks, List.getElem?_set_ne (Ne.symm task)] at there
      obtain ⟨a, memberA, fits⟩ := housed.placed l s₀ j t cpu there thread tag
      exact ⟨a, List.mem_append_left _ memberA, fits⟩
  · intro a memberA
    rcases List.mem_append.mp memberA with before | new
    · exact known a before
    · rw [List.mem_singleton.mp new]
      exact ⟨s', mine, by rw [length]; exact Nat.lt_succ_self _⟩
  · intro a memberA b memberB shared runsA runsB
    rcases List.mem_append.mp memberA with oldA | newA <;>
      rcases List.mem_append.mp memberB with oldB | newB
    · exact housed.alone a oldA b oldB shared (busy a oldA runsA) (busy b oldB runsB)
    · rw [List.mem_singleton.mp newB] at shared
      have idle := free a oldA shared
      rw [busy a oldA runsA] at idle
      cases idle
    · rw [List.mem_singleton.mp newA] at shared
      have idle := free b oldB shared.symm
      rw [busy b oldB runsB] at idle
      cases idle
    · rw [List.mem_singleton.mp newA, List.mem_singleton.mp newB]

/-- A task is reached that takes a step from one that was reached. -/
theorem reached_set {G : State → State.Label → Prop}
    (reached : ∀ s ∈ m.tasks, (system mode).Reach G s) (tasks : m'.tasks = m.tasks.set k s')
    (now : (system mode).Reach G s') : ∀ s ∈ m'.tasks, (system mode).Reach G s := by
  rw [tasks]
  intro s₀ member
  rcases List.mem_or_eq_of_mem_set member with before | rfl
  · exact reached s₀ before
  · exact now

/-- A thread of a task takes a step. -/
theorem Consistent.housed_run {op : Op} {rest : List Op} (consistent : Consistent mode m)
    (here : m.tasks[k]? = some s) (thread : s.threads[i]? = some ⟨f, op :: rest⟩)
    (performed : s.step mode (.run i c) = some s') (tasks : m'.tasks = m.tasks.set k s')
    (activations : m'.activations = m.activations) : Housed m' := by
  obtain ⟨f', op', rest', s₁, push, finished, thread', -, rfl⟩ := State.step_run performed
  rw [thread] at thread'
  cases thread'
  have bound := (List.getElem?_eq_some_iff.mp thread).1
  refine consistent.toHoused.of_threads here tasks activations ?_ ?_ ?_ <;>
    rw [State.moved_threads]
  · intro j t cpu there tag
    by_cases same : i = j
    · subst same
      rw [List.getElem?_set_self bound, Option.some.injEq] at there
      subst there
      exact ⟨_, thread, tag⟩
    · rw [List.getElem?_set_ne same] at there
      exact ⟨t, there, tag⟩
  · intro j t _ there code
    by_cases same : i = j
    · subst same
      exact ⟨_, thread, List.cons_ne_nil _ _⟩
    · rw [List.getElem?_set_ne same] at there
      exact ⟨t, there, code⟩
  · rw [List.length_set]

/-- How the places on the machine change with a step of thread `i` of task `k`, and what
that writes to the table. -/
theorem Consistent.sits_run {op : Op} {rest : List Op} (consistent : Consistent mode m)
    (here : m.tasks[k]? = some s) (thread : s.threads[i]? = some ⟨f, op :: rest⟩)
    (performed : s.step mode (.run i c) = some s') (tasks : m'.tasks = m.tasks.set k s') :
    (∃ x, m.written k (some op) = Function.update m.currentTasks x (some k) ∧
      s'.current = x :: s.current.filter (· ≠ x) ∧
      ∀ l j n, m'.SitsAt l j n ↔ (l = k ∧ j = i ∧ n = x) ∨ m.SitsAt l j n) ∨
    (∃ x, m.written k (some op) = Function.update m.currentTasks x none ∧
      s'.current = s.current.filter (· ≠ x) ∧ m.SitsAt k i x ∧
      ∀ l j n, m'.SitsAt l j n ↔ ¬ (l = k ∧ j = i) ∧ m.SitsAt l j n) ∨
    (m.written k (some op) = m.currentTasks ∧ s'.current = s.current ∧
      ∀ l j n, m'.SitsAt l j n ↔ m.SitsAt l j n) := by
  have seated := seated_of_reach (consistent.reached s (List.mem_of_getElem? here))
  have places := sitsAt_set here tasks
  have old : ∀ j n, m.SitsAt k j n ↔ s.SitsAt j n := by
    intro j n
    simp [SitsAt, here]
  obtain ⟨f', op', rest', s₁, push, finished, thread', performed', same⟩ :=
    State.step_run performed
  rw [thread] at thread'
  cases thread'
  rcases seated.sits_run thread performed' same with
    ⟨x, rfl, current, sits⟩ | ⟨x, rfl, current, mine, sits⟩ | ⟨other, current, sits⟩
  · refine .inl ⟨x, rfl, current, ?_⟩
    intro l j n
    rw [places]
    by_cases task : l = k
    · subst task
      simp [sits, old]
    · simp [task]
  · refine .inr (.inl ⟨x, rfl, current, (old i x).mpr mine, ?_⟩)
    intro l j n
    rw [places]
    by_cases task : l = k
    · subst task
      simp [sits, old]
    · simp [task]
  · refine .inr (.inr ⟨?_, current, ?_⟩)
    · unfold written
      split
      · next n same =>
          cases same
          exact absurd rfl (other n).1
      · next n same =>
          cases same
          exact absurd rfl (other n).2
      · rfl
    · intro l j n
      rw [places]
      by_cases task : l = k
      · subst task
        simp [sits, old]
      · simp [task]

/-- How the table follows the places when a thread takes a step. -/
theorem Consistent.table_run {op : Op} {rest : List Op} (consistent : Consistent mode m)
    (here : m.tasks[k]? = some s) (thread : s.threads[i]? = some ⟨f, op :: rest⟩)
    (performed : s.step mode (.run i c) = some s') (tasks : m'.tasks = m.tasks.set k s')
    (table : m'.currentTasks = m.written k (some op)) (housed : Housed m')
    (seated : ∀ s ∈ m'.tasks, Seated s) (n l : Nat) :
    m'.currentTasks n = some l ↔ ∃ j, m'.SitsAt l j n := by
  rw [table]
  rcases consistent.sits_run here thread performed tasks with
    ⟨x, written, -, sits⟩ | ⟨x, written, -, mine, sits⟩ | ⟨written, -, sits⟩ <;>
    rw [written]
  · by_cases entry : n = x
    · subst entry
      rw [Function.update_self, Option.some.injEq]
      have new : m'.SitsAt k i n := (sits k i n).mpr (.inl ⟨rfl, rfl, rfl⟩)
      constructor
      · rintro rfl
        exact ⟨i, new⟩
      · rintro ⟨j, there⟩
        exact (housed.exclusive seated new there).1
    · rw [Function.update_of_ne entry, consistent.table]
      simp [sits, entry]
  · have before : ∀ s ∈ m.tasks, Seated s := fun s member =>
      seated_of_reach (consistent.reached s member)
    by_cases entry : n = x
    · subst entry
      rw [Function.update_self]
      refine ⟨nofun, ?_⟩
      rintro ⟨j, there⟩
      obtain ⟨other, there⟩ := (sits l j n).mp there
      obtain ⟨rfl, rfl⟩ := consistent.toHoused.exclusive before mine there
      exact absurd ⟨rfl, rfl⟩ other
    · rw [Function.update_of_ne entry, consistent.table]
      constructor
      · rintro ⟨j, there⟩
        refine ⟨j, (sits l j n).mpr ⟨?_, there⟩⟩
        rintro ⟨rfl, rfl⟩
        -- a thread is in one place at a time
        obtain ⟨s₀, here₀, t, thread₀, pos⟩ := mine
        obtain ⟨s₁, here₁, t₁, thread₁, pos₁⟩ := there
        rw [here₀] at here₁
        cases here₁
        rw [thread₀] at thread₁
        cases thread₁
        have seated₀ := before s₀ (List.mem_of_getElem? here₀)
        have tag := (seated₀.tag thread₀ pos).1.symm.trans (seated₀.tag thread₀ pos₁).1
        cases tag
        exact entry rfl
      · rintro ⟨j, there⟩
        exact ⟨j, ((sits l j n).mp there).2⟩
  · rw [consistent.table]
    simp [sits]

theorem Consistent.current_iff (consistent : Consistent mode m) (here : m.tasks[k]? = some s)
    (n : Nat) : n ∈ s.current ↔ m.currentTasks n = some k := by
  rw [consistent.seat s (List.mem_of_getElem? here), consistent.table]
  simp [SitsAt, here]

/-- The entries of a task that takes a step are those of the table. -/
theorem Consistent.current_run {op : Op} {rest : List Op} (consistent : Consistent mode m)
    (here : m.tasks[k]? = some s) (thread : s.threads[i]? = some ⟨f, op :: rest⟩)
    (performed : s.step mode (.run i c) = some s') (tasks : m'.tasks = m.tasks.set k s')
    (table : m'.currentTasks = m.written k (some op)) (n : Nat) :
    n ∈ s'.current ↔ m'.currentTasks n = some k := by
  have before := consistent.current_iff here n
  rw [table]
  rcases consistent.sits_run here thread performed tasks with
    ⟨x, written, current, -⟩ | ⟨x, written, current, -, -⟩ | ⟨written, current, -⟩ <;>
    rw [written, current]
  · by_cases entry : n = x
    · simp [entry]
    · simp [entry, before]
  · by_cases entry : n = x
    · simp [entry]
    · simp [entry, before]
  · exact before

/-- A task that takes a step is loaded by the helpers that its own polls call. -/
theorem Consistent.target_run {op : Op} {rest : List Op} (consistent : Consistent mode m)
    (here : m.tasks[k]? = some s) (thread : s.threads[i]? = some ⟨f, op :: rest⟩)
    (performed : s.step mode (.run i c) = some s') (tasks : m'.tasks = m.tasks.set k s')
    (kept : ∀ k' i', (k' ≠ k ∨ i' ≠ i ∨ ∀ n take, op ≠ .loadCurrent n take) →
      m'.target k' i' = m.target k' i')
    (loaded : ∀ n take, op = .loadCurrent n take → m'.target k i = some k) (l : Nat) (s₀ : State)
    (j : Nat) (t : Thread Call Op) (there : m'.tasks[l]? = some s₀)
    (thread₀ : s₀.threads[j]? = some t) (pending : .casAcknowledge ∈ t.code) :
    m'.target l j = some l := by
  by_cases task : l = k
  · subst task
    have bound := (List.getElem?_eq_some_iff.mp here).1
    rw [tasks, List.getElem?_set_self bound, Option.some.injEq] at there
    subst there
    obtain ⟨f', op', rest', s₁, push, finished, thread', performed', rfl⟩ :=
      State.step_run performed
    rw [thread] at thread'
    cases thread'
    rw [State.moved_threads] at thread₀
    by_cases same : i = j
    · subst same
      rw [List.getElem?_set_self (List.getElem?_eq_some_iff.mp thread).1,
        Option.some.injEq] at thread₀
      subst thread₀
      rcases List.mem_append.mp pending with new | old
      · obtain ⟨n, look⟩ := (perform_requests performed').2 new
        exact loaded n true look
      · by_cases looks : ∃ n take, op = .loadCurrent n take
        · obtain ⟨n, take, look⟩ := looks
          exact loaded n take look
        · rw [kept l i (.inr (.inr fun n take look => looks ⟨n, take, look⟩))]
          exact consistent.target l s i _ here thread (List.mem_cons_of_mem _ old)
    · rw [List.getElem?_set_ne same] at thread₀
      rw [kept l j (.inr (.inl (Ne.symm same)))]
      exact consistent.target l s j t here thread₀ pending
  · rw [tasks, List.getElem?_set_ne (Ne.symm task)] at there
    rw [kept l j (.inl task)]
    exact consistent.target l s₀ j t there thread₀ pending

theorem Consistent.run (consistent : Consistent mode m)
    (counted : Counted mode m (.task k (.run i c)))
    (step : m.step mode (.task k (.run i c)) = some m') : Consistent mode m' := by
  obtain ⟨s, s', f, op, rest, here, thread, performed, tasks, activations, table, kept, loaded⟩ :=
    consistent.step_run step
  have member := List.mem_of_getElem? here
  have now : (system mode).Reach (Dpc.Counted mode) s' :=
    .step (consistent.reached s member) (counted s here) performed
  have reached := reached_set consistent.reached tasks now
  have seated : ∀ s ∈ m'.tasks, Seated s := fun s member => seated_of_reach (reached s member)
  have housed := consistent.housed_run here thread performed tasks activations
  have table' := consistent.table_run here thread performed tasks table housed seated
  refine ⟨housed, reached, table', ?_,
    consistent.target_run here thread performed tasks kept loaded⟩
  intro s₀ member₀ n
  obtain ⟨l, there⟩ := List.mem_iff_getElem?.mp member₀
  by_cases task : l = k
  · subst task
    have bound := (List.getElem?_eq_some_iff.mp here).1
    have same : s' = s₀ := by
      rw [tasks, List.getElem?_set_self bound] at there
      exact Option.some.inj there
    subst same
    rw [consistent.current_run here thread performed tasks table, table']
    simp [SitsAt, there]
  · rw [tasks, List.getElem?_set_ne (Ne.symm task)] at there
    exact consistent.seat s₀ (List.mem_of_getElem? there) n

/-- A thread is added to a task: it is not in its place yet. -/
theorem Consistent.of_append {t₀ : Thread Call Op} (consistent : Consistent mode m)
    (here : m.tasks[k]? = some s) (tasks : m'.tasks = m.tasks.set k s')
    (table : m'.currentTasks = m.currentTasks) (target : m'.target = m.target)
    (housed : Housed m') (now : (system mode).Reach (Dpc.Counted mode) s')
    (threads : s'.threads = s.threads ++ [t₀]) (current : s'.current = s.current)
    (outside : ∀ n, total (Op.sits n) t₀.code = 0) (noRequest : .casAcknowledge ∉ t₀.code) :
    Consistent mode m' := by
  have bound := (List.getElem?_eq_some_iff.mp here).1
  have mine : m'.tasks[k]? = some s' := by rw [tasks, List.getElem?_set_self bound]
  have others : ∀ l, l ≠ k → m'.tasks[l]? = m.tasks[l]? := by
    intro l other
    rw [tasks, List.getElem?_set_ne (Ne.symm other)]
  -- an added thread that is asked about is an old one
  have old : ∀ (j : Nat) (t : Thread Call Op), s'.threads[j]? = some t → t ≠ t₀ →
      s.threads[j]? = some t := by
    intro j t there other
    rw [threads] at there
    rcases Nat.lt_or_ge j s.threads.length with below | beyond
    · rwa [List.getElem?_append_left below] at there
    · rw [List.getElem?_append_right beyond] at there
      exact absurd (List.mem_singleton.mp (List.mem_of_getElem? there)) other
  have sits : ∀ j n, s'.SitsAt j n ↔ s.SitsAt j n := by
    intro j n
    constructor
    · rintro ⟨t, there, pos⟩
      refine ⟨t, old j t there ?_, pos⟩
      rintro rfl
      rw [outside] at pos
      exact Nat.lt_irrefl 0 pos
    · rintro ⟨t, there, pos⟩
      refine ⟨t, ?_, pos⟩
      rw [threads, List.getElem?_append_left (List.getElem?_eq_some_iff.mp there).1]
      exact there
  have places : ∀ l j n, m'.SitsAt l j n ↔ m.SitsAt l j n := by
    intro l j n
    unfold SitsAt
    by_cases task : l = k
    · subst task
      simp [mine, here, sits]
    · rw [others l task]
  refine ⟨housed, reached_set consistent.reached tasks now, ?_, ?_, ?_⟩
  · intro n l
    rw [table, consistent.table]
    simp only [places]
  · intro s₀ member n
    rw [tasks] at member
    rcases List.mem_or_eq_of_mem_set member with before | rfl
    · exact consistent.seat s₀ before n
    · rw [current, consistent.seat s (List.mem_of_getElem? here)]
      simp only [sits]
  · intro l s₀ j t there thread pending
    rw [target]
    by_cases task : l = k
    · subst task
      rw [mine] at there
      cases there
      refine consistent.target l s j t here (old j t thread ?_) pending
      rintro rfl
      exact noRequest pending
    · rw [others l task] at there
      exact consistent.target l s₀ j t there thread pending

theorem Consistent.call (consistent : Consistent mode m)
    (step : m.step mode (.task k (.call f)) = some m') : Consistent mode m' := by
  obtain ⟨s, s', here, performed, rfl⟩ := step_call step
  have member := List.mem_of_getElem? here
  have counted : Dpc.Counted mode s (.call f) := trivial
  have now : (system mode).Reach (Dpc.Counted mode) s' :=
    .step (consistent.reached s member) counted performed
  obtain ⟨callable, same⟩ := State.step_call performed
  obtain ⟨free, -, -⟩ := code_places callable
  have threads : s'.threads = s.threads ++ [⟨f, s.code f⟩] := by rw [same]
  have current : s'.current = s.current := by
    rw [same]
    cases f <;> rfl
  have outside : ∀ n, total (Op.sits n) (s.code f) = 0 := by
    intro n
    apply total_eq_zero.mpr
    intro op pending
    simp [Op.sits, free op pending]
  have noRequest : .casAcknowledge ∉ s.code f := by
    cases f with
    | setTaskBudget budget => cases budget <;> simp [State.code]
    | _ => simp [State.code]
  have notActivation : ∀ cpu, f ≠ .dpcRoutine cpu := by
    rintro cpu rfl
    cases callable
  refine consistent.of_append here rfl rfl rfl ?_ now threads current outside noRequest
  refine consistent.toHoused.of_threads here rfl rfl ?_ ?_ ?_ <;> rw [threads]
  · intro j t cpu there tag
    rcases Nat.lt_or_ge j s.threads.length with below | beyond
    · rw [List.getElem?_append_left below] at there
      exact ⟨t, there, tag⟩
    · rw [List.getElem?_append_right beyond] at there
      rw [List.mem_singleton.mp (List.mem_of_getElem? there)] at tag
      exact absurd tag (notActivation cpu)
  · intro j t below there code
    rw [List.getElem?_append_left below] at there
    exact ⟨t, there, code⟩
  · rw [List.length_append]
    exact Nat.le_add_right _ _

/-- A processor takes a DPC when its last routine has returned. -/
theorem Consistent.dequeue (consistent : Consistent mode m)
    (step : m.step mode (.dequeue k p) = some m') : Consistent mode m' := by
  obtain ⟨s, s', here, performed, free, rfl⟩ := step_dequeue step
  have counted : Dpc.Counted mode s (.dequeue (currentCpuIndex p)) := trivial
  have now : (system mode).Reach (Dpc.Counted mode) s' :=
    .step (consistent.reached s (List.mem_of_getElem? here)) counted performed
  obtain ⟨-, same⟩ := State.step_dequeue performed
  have threads : s'.threads = s.threads ++
      [⟨.dpcRoutine (currentCpuIndex p), [.clearScheduled (currentCpuIndex p)]⟩] := by rw [same]
  have current : s'.current = s.current := by rw [same]
  have housed : Housed { m with
      tasks := m.tasks.set k s'
      activations := m.activations ++ [⟨k, s.threads.length, p⟩] } :=
    consistent.toHoused.dequeue here rfl rfl threads free
  exact consistent.of_append here rfl rfl rfl housed now threads current (fun n => rfl) (by simp)

theorem Consistent.step {a : Label} (consistent : Consistent mode m) (counted : Counted mode m a)
    (step : m.step mode a = some m') : Consistent mode m' := by
  cases a with
  | dequeue k p => exact consistent.dequeue step
  | task k a =>
      cases a with
      | run i c => exact consistent.run counted step
      | call f => exact consistent.call step
      | dequeue cpu => cases step

theorem consistent_of_reach (reached : (machine mode).Reach (Counted mode) m) :
    Consistent mode m := by
  refine reached.invariant ?_ ?_
  · rintro _ ⟨n, rfl⟩
    exact .initial n
  · intro m a m' consistent counted step
    exact consistent.step counted step

end Machine

end Kcom.Dpc
