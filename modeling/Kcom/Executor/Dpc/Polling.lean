import Kcom.Executor.Dpc.Memory

/-!
# Exclusive polling

Nothing but `completed` keeps two activations of `dpc_routine` apart: `scheduled`
is cleared before the poll, so a wake during the poll queues the DPC again and a
second processor may enter the routine. An activation that passes its check of
`completed` while another one is still in its loop polls the same future.

`Exclusive` are the steps that avoid exactly this. In the runs made of them one
activation at most is between its check and the end of its loop or drop, no poll
comes after `Ready` or after a drop, and the future is dropped once. The drop in
the last `release` is kept apart from the polls by the reference count.
-/

namespace Kcom.Dpc

open Conc

/-- An activation has passed its check of `completed` and has not yet left its
loop, or the drop that follows it. -/
def Op.window : Op → Nat
  | .rawWaker _ => 1
  | .loop _ => 1
  | _ => 0

/-- The operations of the loop up to the store to `completed`. -/
def Loop.early : Loop → Nat
  | .dropFuture _ => 0
  | .dropping _ => 0
  | _ => 1

/-- An activation has passed its check and has not yet stored to `completed`. -/
def Op.early : Op → Nat
  | .rawWaker _ => 1
  | .loop op => op.early
  | _ => 0

/-- An activation is about to store to `completed`. -/
def Op.stores : Op → Nat
  | .loop (.storeCompleted _) => 1
  | _ => 0

/-- The last `release` is about to store to `completed`. -/
def Op.storesLast : Op → Nat
  | .last .storeCompleted => 1
  | _ => 0

/-- The future is about to be dropped. -/
def Op.drops : Op → Nat
  | .loop (.dropFuture _) => 1
  | .last .dropFuture => 1
  | _ => 0

/-- A thread is inside `vtable.poll` or `destroy(Drop)`. -/
def Op.inside : Op → Nat
  | .loop (.polling _) => 1
  | .loop (.dropping _) => 1
  | .last .dropping => 1
  | _ => 0

/-- An activation is about to check `completed`. -/
def Op.checks : Op → Bool
  | .checkCompleted _ => true
  | _ => false

/-- No activation passes its check of `completed` while another one has not left
its loop, and the reference counter keeps within its capacity. -/
def Exclusive (mode : Hardening) (s : State) (a : State.Label) : Prop :=
  Counted mode s a ∧
    match a with
    | .run i _ => ∀ op ∈ s.next i, op.checks = true → s.completed = false →
        load Op.window s.threads = 0
    | _ => True

instance (mode : Hardening) (s : State) : (a : State.Label) → Decidable (Exclusive mode s a)
  | .run i c => inferInstanceAs (Decidable (Counted mode s (.run i c) ∧
      ∀ op ∈ s.next i, op.checks = true → s.completed = false → load Op.window s.threads = 0))
  | .dequeue cpu => inferInstanceAs (Decidable (Counted mode s (.dequeue cpu) ∧ True))
  | .call f => inferInstanceAs (Decidable (Counted mode s (.call f) ∧ True))

/-- What holds in every state of an exclusive run. -/
structure Polling (s : State) : Prop where
  window : load Op.window s.threads ≤ 1
  early : 0 < load Op.early s.threads → s.completed = false
  last : 0 < load Op.storesLast s.threads → s.completed = false
  ready : s.ready = true → s.completed = true ∨ 0 < load Op.stores s.threads
  drops : s.drops + load Op.drops s.threads = s.completed.toNat
  unborn : s.allocated = false → s.completed = false
  polls : s.latePoll = false

theorem Polling.initial : Polling initial where
  window := Nat.zero_le _
  early := nofun
  last := nofun
  ready := nofun
  drops := rfl
  unborn _ := rfl
  polls := rfl

section Steps

variable {mode : Hardening} {s s' s₁ : State} {i : Nat} {c : Choice} {f : Call} {op : Op}
  {push rest : List Op}

theorem window_le_refs (threads : List (Thread Call Op)) :
    load Op.window threads ≤ load Op.refs threads := by
  apply load_mono
  intro op
  cases op <;> simp [Op.window, Op.refs]

theorem early_le_window (threads : List (Thread Call Op)) :
    load Op.early threads ≤ load Op.window threads := by
  apply load_mono
  intro op
  cases op with
  | loop op => cases op <;> simp [Op.early, Loop.early, Op.window]
  | _ => simp [Op.early, Op.window]

theorem stores_le_early (threads : List (Thread Call Op)) :
    load Op.stores threads ≤ load Op.early threads := by
  apply load_mono
  intro op
  cases op with
  | loop op => cases op <;> simp [Op.stores, Op.early, Loop.early]
  | _ => simp [Op.stores, Op.early]

theorem storesLast_le_frees (threads : List (Thread Call Op)) :
    load Op.storesLast threads ≤ load Op.frees threads := by
  apply load_mono
  intro op
  cases op with
  | last op => cases op <;> simp [Op.storesLast, Op.frees]
  | _ => simp [Op.storesLast, Op.frees]

/-- An operation that leaves the record of the future alone and takes the thread no
closer to polling or dropping it. -/
structure Quiet (s s₁ : State) (op : Op) (push : List Op) : Prop where
  completed : s₁.completed = s.completed
  ready : s₁.ready = s.ready
  drops : s₁.drops = s.drops
  latePoll : s₁.latePoll = s.latePoll
  allocated : s₁.allocated = false → s.allocated = false
  window : total Op.window push ≤ op.window
  early : total Op.early push ≤ op.early
  stores : total Op.stores push = op.stores
  storesLast : total Op.storesLast push = op.storesLast
  dropping : total Op.drops push = op.drops

theorem Polling.of_quiet (polling : Polling s) (thread : s.threads[i]? = some ⟨f, op :: rest⟩)
    (quiet : Quiet s s₁ op push) (finished : Bool) :
    Polling (s₁.moved (s.threads.set i ⟨f, push ++ rest⟩) finished) := by
  have window := load_set Op.window f push thread
  have early := load_set Op.early f push thread
  have stores := load_set Op.stores f push thread
  have storesLast := load_set Op.storesLast f push thread
  have drops := load_set Op.drops f push thread
  obtain ⟨completed, ready, dropped, latePoll, allocated, noWindow, noEarly, noStore, noLast,
    noDrop⟩ := quiet
  obtain ⟨one, unstored, unstoredLast, stored, once, unborn, polls⟩ := polling
  constructor <;>
    simp only [State.moved_threads, State.moved_completed, State.moved_ready, State.moved_drops,
      State.moved_latePoll, State.moved_allocated, completed, ready, dropped, latePoll]
  · omega
  · intro pos
    exact unstored (by omega)
  · intro pos
    exact unstoredLast (by omega)
  · intro done
    rcases stored done with completed | pos
    · exact Or.inl completed
    · exact Or.inr (by omega)
  · omega
  · intro new
    exact unborn (allocated new)
  · exact polls

/-- What `Quiet` compares of two states. -/
def State.record (s : State) : Bool × Bool × Nat × Bool × Bool :=
  (s.completed, s.ready, s.drops, s.latePoll, s.allocated)

/-- How near to the future a piece of code is. -/
def nearness (code : List Op) : List Nat :=
  [total Op.window code, total Op.early code, total Op.stores code, total Op.storesLast code,
    total Op.drops code]

theorem Quiet.of_eq (record : s₁.record = s.record) (near : nearness push = nearness [op]) :
    Quiet s s₁ op push := by
  simp only [State.record, Prod.mk.injEq] at record
  simp only [nearness, total_cons, total_nil, List.cons.injEq, Nat.add_zero, and_true] at near
  obtain ⟨completed, ready, drops, latePoll, allocated⟩ := record
  obtain ⟨window, early, stores, storesLast, dropping⟩ := near
  refine ⟨completed, ready, drops, latePoll, ?_, ?_, ?_, stores, storesLast, dropping⟩
  · intro new
    rwa [← allocated]
  · exact Nat.le_of_eq window
  · exact Nat.le_of_eq early

/-- The operations that decide about the future; every other one is quiet. -/
def Op.decides : Op → Bool
  | .allocate _ => true
  | .checkCompleted _ => true
  | .loop (.pollStart _) => true
  | .loop (.polling _) => true
  | .loop (.storeCompleted _) => true
  | .loop (.dropFuture _) => true
  | .last .loadCompleted => true
  | .last .storeCompleted => true
  | .last .dropFuture => true
  | _ => false

theorem Quiet.exit {op : Loop} (plain : (Op.loop op).decides = false) (cpu : Option Nat) :
    Quiet s s (.loop op) (exit cpu) := by
  cases op <;> first
    | (cases cpu <;> constructor <;> first | rfl | exact id | exact Nat.zero_le _)
    | cases plain

theorem Quiet.requeue {op : Loop} (plain : (Op.loop op).decides = false) (cpu : Option Nat) :
    Quiet s s (.loop op) (.addRef .queueDpc :: Dpc.exit cpu) := by
  cases op <;> first
    | (cases cpu <;> constructor <;> first | rfl | exact id | exact Nat.zero_le _)
    | cases plain

theorem Quiet.afterWoken (l : Locals) : Quiet s s (.loop (.loadScheduled l)) (afterWoken l) := by
  simp only [Dpc.afterWoken]
  split <;> split
  · exact Quiet.requeue rfl l.cpu
  all_goals exact .of_eq rfl rfl

theorem quiet_of_perform (performed : s.perform mode i c op = some (s₁, push))
    (plain : op.decides = false) : Quiet s s₁ op push := by
  cases op with
  | allocate | checkCompleted => cases plain
  | loop op =>
      cases op with
      | loadPolls cpu m =>
          cases m <;> cases performed <;> exact .of_eq rfl rfl
      | queryStart cpu polls =>
          simp only [State.perform, State.performLoop] at performed
          split at performed <;> cases performed
          exact .of_eq rfl rfl
      | loadScheduled l =>
          cases performed
          split
          · exact .afterWoken l
          · exact .exit rfl l.cpu
      | queryNow l =>
          simp only [State.perform, State.performLoop] at performed
          split at performed <;> cases performed
          split
          · exact .requeue rfl l.cpu
          · exact .of_eq rfl rfl
      | dropping cpu =>
          cases performed
          exact .exit rfl cpu
      | setCurrent | loadMode | loadTimeUs | clearScheduled =>
          cases performed
          exact .of_eq rfl rfl
      | _ => cases plain
  | last op =>
      cases op with
      | dropping =>
          cases performed
          exact .of_eq rfl rfl
      | dealloc =>
          cases performed
          split <;> exact .of_eq rfl rfl
      | _ => cases plain
  | newHandle | addRef | cloneRaw =>
      simp only [State.perform, Option.map_eq_some_iff] at performed
      obtain ⟨⟨result, count⟩, -, performed⟩ := performed
      cases performed
      exact .of_eq rfl rfl
  | rawWaker cpu =>
      simp only [State.perform, Option.map_eq_some_iff] at performed
      obtain ⟨⟨result, count⟩, -, performed⟩ := performed
      cases performed
      cases cpu <;> exact .of_eq rfl rfl
  | subRef h =>
      simp only [State.perform, Option.map_eq_some_iff] at performed
      obtain ⟨⟨result, count⟩, -, performed⟩ := performed
      cases performed
      split <;> exact .of_eq rfl rfl
  | casScheduled | casCancel | insertQueueDpc =>
      simp only [State.perform] at performed
      split at performed <;> cases performed <;> exact .of_eq rfl rfl
  | casAcknowledge =>
      cases performed
      split <;> exact .of_eq rfl rfl
  | loadCompleted =>
      cases performed
      split <;> exact .of_eq rfl rfl
  | loadCurrent cpu take =>
      cases performed
      (repeat' split) <;> exact .of_eq rfl rfl
  | _ =>
      cases performed
      exact .of_eq rfl rfl

/-- The release that frees the block is alone: nobody has a reference, and it is
the only one. -/
theorem Memory.alone {op : Last} (memory : Memory mode s)
    (thread : s.threads[i]? = some ⟨f, .last op :: rest⟩) :
    s.allocated = true ∧ load Op.window s.threads = 0 ∧ load Op.frees s.threads = 1 := by
  have one := head_le_load Op.frees thread
  have freed := memory.freed
  have window := window_le_refs s.threads
  have held := State.references_eq s
  simp only [Op.frees] at one
  split at freed
  · rename_i last
    exact ⟨last.1, by omega, by omega⟩
  · omega

/-- An activation in its window has the block to itself and the last release is
not under way. -/
theorem Memory.inUse (memory : Memory mode s) (thread : s.threads[i]? = some ⟨f, op :: rest⟩)
    (inWindow : op.window = 1) : s.allocated = true ∧ load Op.frees s.threads = 0 := by
  have one := head_le_load Op.window thread
  have freed := memory.freed
  have window := window_le_refs s.threads
  have held := State.references_eq s
  have pos : s.references ≠ 0 := by omega
  rw [if_neg (fun last => pos last.2)] at freed
  refine ⟨?_, by omega⟩
  cases born : s.allocated with
  | true => rfl
  | false => exact absurd (memory.unborn born) pos

/-- While an activation in its window has another operation before it than the
store to `completed`, nobody is about to make that store. -/
theorem Polling.stores_eq_zero (polling : Polling s)
    (thread : s.threads[i]? = some ⟨f, op :: rest⟩) (inWindow : op.window = 1)
    (other : op.stores = 0) : load Op.stores s.threads = 0 := by
  have window := load_set Op.window f [] thread
  have stores := load_set Op.stores f [] thread
  have le := stores_le_early (s.threads.set i ⟨f, [] ++ rest⟩)
  have le' := early_le_window (s.threads.set i ⟨f, [] ++ rest⟩)
  have one := polling.window
  simp only [total_nil, inWindow, other] at window stores
  omega

theorem Polling.allocate {form : Spawn} (memory : Memory mode s) (polling : Polling s)
    (thread : s.threads[i]? = some ⟨f, .allocate form :: rest⟩)
    (performed : s.perform mode i c (.allocate form) = some (s₁, push)) (finished : Bool) :
    Polling (s₁.moved (s.threads.set i ⟨f, push ++ rest⟩) finished) := by
  refine polling.of_quiet thread ?_ finished
  have new := memory.unallocated thread
  have unfinished := polling.unborn new
  simp only [State.perform] at performed
  split at performed <;> cases performed
  · exact .of_eq rfl rfl
  · cases form <;>
      exact ⟨unfinished.symm, rfl, rfl, rfl, fun _ => new, Nat.le_refl _, Nat.le_refl _, rfl, rfl,
        rfl⟩

/-- Passing the check of `completed`. -/
theorem Polling.checkCompleted {cpu : Option Nat} (polling : Polling s)
    (thread : s.threads[i]? = some ⟨f, .checkCompleted cpu :: rest⟩)
    (alone : s.completed = false → load Op.window s.threads = 0)
    (performed : s.perform mode i c (.checkCompleted cpu) = some (s₁, push)) (finished : Bool) :
    Polling (s₁.moved (s.threads.set i ⟨f, push ++ rest⟩) finished) := by
  cases performed
  cases done : s.completed with
  | true =>
      refine polling.of_quiet thread ?_ finished
      exact .of_eq rfl rfl
  | false =>
      have none := alone done
      have window := load_set Op.window f [.rawWaker cpu] thread
      have stores := load_set Op.stores f [.rawWaker cpu] thread
      have storesLast := load_set Op.storesLast f [.rawWaker cpu] thread
      have drops := load_set Op.drops f [.rawWaker cpu] thread
      obtain ⟨-, -, -, stored, once, -, polls⟩ := polling
      simp only [total_cons, total_nil, Op.window, Op.stores, Op.storesLast, Op.drops]
        at window stores storesLast drops
      constructor <;>
        simp only [State.moved_threads, State.moved_completed, State.moved_ready,
          State.moved_drops, State.moved_latePoll, State.moved_allocated, done]
      · simp only [Bool.false_eq_true, if_false]
        omega
      · exact fun _ => trivial
      · exact fun _ => trivial
      · simp only [Bool.false_eq_true, if_false]
        intro ready
        rcases stored ready with completed | pos
        · rw [done] at completed
          cases completed
        · exact Or.inr (by omega)
      · simp only [Bool.false_eq_true, if_false]
        rw [done] at once
        omega
      · exact fun _ => trivial
      · exact polls

theorem Polling.pollStart {l : Locals} (polling : Polling s)
    (thread : s.threads[i]? = some ⟨f, .loop (.pollStart l) :: rest⟩)
    (performed : s.perform mode i c (.loop (.pollStart l)) = some (s₁, push)) (finished : Bool) :
    Polling (s₁.moved (s.threads.set i ⟨f, push ++ rest⟩) finished) := by
  have unfinished : s.completed = false := by
    have one := head_le_load Op.early thread
    exact polling.early one
  have noStore := polling.stores_eq_zero thread rfl rfl
  have unready : s.ready = false := by
    cases ready : s.ready with
    | false => rfl
    | true =>
        rcases polling.ready ready with completed | pos
        · rw [unfinished] at completed
          cases completed
        · omega
  have undropped : s.drops = 0 := by
    have once := polling.drops
    rw [unfinished, Bool.toNat_false] at once
    omega
  refine polling.of_quiet thread ?_ finished
  cases performed
  refine ⟨rfl, rfl, rfl, ?_, id, Nat.le_refl _, Nat.le_refl _, rfl, rfl, rfl⟩
  simp [unready, undropped]

theorem Polling.pollEnd {l : Locals} (polling : Polling s)
    (thread : s.threads[i]? = some ⟨f, .loop (.polling l) :: rest⟩)
    (performed : s.perform mode i c (.loop (.polling l)) = some (s₁, push)) (finished : Bool) :
    Polling (s₁.moved (s.threads.set i ⟨f, push ++ rest⟩) finished) := by
  simp only [State.perform, State.performLoop] at performed
  split at performed
  · cases performed
  · split at performed
    · have window := load_set Op.window f push thread
      have early := load_set Op.early f push thread
      have stores := load_set Op.stores f push thread
      have storesLast := load_set Op.storesLast f push thread
      have drops := load_set Op.drops f push thread
      obtain ⟨one, unstored, unstoredLast, stored, once, unborn, polls⟩ := polling
      cases performed
      simp only [total_cons, total_nil, Op.window, Op.early, Loop.early, Op.stores, Op.storesLast,
        Op.drops] at window early stores storesLast drops
      constructor <;>
        simp only [State.moved_threads, State.moved_completed, State.moved_ready,
          State.moved_drops, State.moved_latePoll, State.moved_allocated]
      · omega
      · exact fun pos => unstored (by omega)
      · exact fun pos => unstoredLast (by omega)
      · exact fun _ => Or.inr (by omega)
      · omega
      · exact unborn
      · exact polls
    · refine polling.of_quiet thread ?_ finished
      cases performed
      exact .of_eq rfl rfl

theorem Polling.storeCompleted {cpu : Option Nat} (memory : Memory mode s) (polling : Polling s)
    (thread : s.threads[i]? = some ⟨f, .loop (.storeCompleted cpu) :: rest⟩)
    (performed : s.perform mode i c (.loop (.storeCompleted cpu)) = some (s₁, push))
    (finished : Bool) :
    Polling (s₁.moved (s.threads.set i ⟨f, push ++ rest⟩) finished) := by
  obtain ⟨born, noLast⟩ := memory.inUse thread rfl
  have lastLe := storesLast_le_frees s.threads
  have earlyLe := early_le_window s.threads
  have unfinished : s.completed = false := by
    have one := head_le_load Op.early thread
    exact polling.early one
  have window := load_set Op.window f push thread
  have early := load_set Op.early f push thread
  have storesLast := load_set Op.storesLast f push thread
  have drops := load_set Op.drops f push thread
  obtain ⟨one, -, -, -, once, -, polls⟩ := polling
  rw [unfinished, Bool.toNat_false] at once
  cases performed
  simp only [total_cons, total_nil, Op.window, Op.early, Loop.early, Op.storesLast, Op.drops]
    at window early storesLast drops
  constructor <;>
    simp only [State.moved_threads, State.moved_completed, State.moved_ready, State.moved_drops,
      State.moved_latePoll, State.moved_allocated]
  · omega
  · intro pos
    omega
  · intro pos
    omega
  · exact fun _ => Or.inl trivial
  · rw [Bool.toNat_true]
    omega
  · rw [born]
    nofun
  · exact polls

theorem Polling.loadCompletedLast (polling : Polling s)
    (thread : s.threads[i]? = some ⟨f, .last .loadCompleted :: rest⟩)
    (performed : s.perform mode i c (.last .loadCompleted) = some (s₁, push)) (finished : Bool) :
    Polling (s₁.moved (s.threads.set i ⟨f, push ++ rest⟩) finished) := by
  cases performed
  cases done : s.completed with
  | true =>
      refine polling.of_quiet thread ?_ finished
      exact .of_eq rfl rfl
  | false =>
      have window := load_set Op.window f [.last .storeCompleted] thread
      have stores := load_set Op.stores f [.last .storeCompleted] thread
      have drops := load_set Op.drops f [.last .storeCompleted] thread
      obtain ⟨one, -, -, stored, once, -, polls⟩ := polling
      simp only [total_cons, total_nil, Op.window, Op.stores, Op.drops] at window stores drops
      rw [done, Bool.toNat_false] at once
      constructor <;>
        simp only [State.moved_threads, State.moved_completed, State.moved_ready,
          State.moved_drops, State.moved_latePoll, State.moved_allocated, done,
          Bool.false_eq_true, if_false, Bool.toNat_false]
      · omega
      · exact fun _ => trivial
      · exact fun _ => trivial
      · intro ready
        rcases stored ready with completed | pos
        · rw [done] at completed
          cases completed
        · exact Or.inr (by omega)
      · omega
      · exact fun _ => trivial
      · exact polls

theorem Polling.storeCompletedLast (memory : Memory mode s) (polling : Polling s)
    (thread : s.threads[i]? = some ⟨f, .last .storeCompleted :: rest⟩)
    (performed : s.perform mode i c (.last .storeCompleted) = some (s₁, push)) (finished : Bool) :
    Polling (s₁.moved (s.threads.set i ⟨f, push ++ rest⟩) finished) := by
  obtain ⟨born, noWindow, oneLast⟩ := memory.alone thread
  have lastLe := storesLast_le_frees s.threads
  have earlyLe := early_le_window s.threads
  have unfinished : s.completed = false := by
    have one := head_le_load Op.storesLast thread
    exact polling.last one
  have window := load_set Op.window f push thread
  have early := load_set Op.early f push thread
  have storesLast := load_set Op.storesLast f push thread
  have drops := load_set Op.drops f push thread
  obtain ⟨-, -, -, -, once, -, polls⟩ := polling
  rw [unfinished, Bool.toNat_false] at once
  cases performed
  simp only [total_cons, total_nil, Op.window, Op.early, Op.storesLast, Op.drops]
    at window early storesLast drops
  constructor <;>
    simp only [State.moved_threads, State.moved_completed, State.moved_ready, State.moved_drops,
      State.moved_latePoll, State.moved_allocated]
  · omega
  · intro pos
    omega
  · intro pos
    omega
  · exact fun _ => Or.inl trivial
  · rw [Bool.toNat_true]
    omega
  · rw [born]
    nofun
  · exact polls

/-- The drop itself, by an activation or by the last release. -/
theorem Polling.dropFuture (polling : Polling s)
    (thread : s.threads[i]? = some ⟨f, op :: rest⟩)
    (drops : (∃ cpu, op = .loop (.dropFuture cpu)) ∨ op = .last .dropFuture)
    (performed : s.perform mode i c op = some (s₁, push)) (finished : Bool) :
    Polling (s₁.moved (s.threads.set i ⟨f, push ++ rest⟩) finished) := by
  have window := load_set Op.window f push thread
  have early := load_set Op.early f push thread
  have stores := load_set Op.stores f push thread
  have storesLast := load_set Op.storesLast f push thread
  have dropped := load_set Op.drops f push thread
  obtain ⟨one, unstored, unstoredLast, stored, once, unborn, polls⟩ := polling
  obtain ⟨cpu, rfl⟩ | rfl := drops
  all_goals
    cases performed
    simp only [total_cons, total_nil, Op.window, Op.early, Loop.early, Op.stores, Op.storesLast,
      Op.drops] at window early stores storesLast dropped
    constructor <;>
      simp only [State.moved_threads, State.moved_completed, State.moved_ready, State.moved_drops,
        State.moved_latePoll, State.moved_allocated]
    · omega
    · exact fun pos => unstored (by omega)
    · exact fun pos => unstoredLast (by omega)
    · intro ready
      rcases stored ready with completed | pos
      · exact Or.inl completed
      · exact Or.inr (by omega)
    · omega
    · exact unborn
    · exact polls

/-- An exclusive step of a thread keeps the invariant. -/
theorem Polling.run (memory : Memory mode s) (polling : Polling s)
    (exclusive : Exclusive mode s (.run i c)) (step : s.step mode (.run i c) = some s') :
    Polling s' := by
  obtain ⟨f, op, rest, s₁, push, finished, thread, performed, rfl⟩ := State.step_run step
  have next : op ∈ s.next i := by simp [State.next, thread]
  cases plain : op.decides with
  | false => exact polling.of_quiet thread (quiet_of_perform performed plain) finished
  | true =>
      cases op with
      | allocate form => exact polling.allocate memory thread performed finished
      | checkCompleted cpu =>
          exact polling.checkCompleted thread (exclusive.2 _ next rfl) performed finished
      | loop op =>
          cases op with
          | pollStart l => exact polling.pollStart thread performed finished
          | polling l => exact polling.pollEnd thread performed finished
          | storeCompleted cpu => exact polling.storeCompleted memory thread performed finished
          | dropFuture cpu =>
              exact polling.dropFuture thread (Or.inl ⟨cpu, rfl⟩) performed finished
          | _ => cases plain
      | last op =>
          cases op with
          | loadCompleted => exact polling.loadCompletedLast thread performed finished
          | storeCompleted => exact polling.storeCompletedLast memory thread performed finished
          | dropFuture => exact polling.dropFuture thread (Or.inr rfl) performed finished
          | _ => cases plain
      | _ => cases plain

/-- A dequeued DPC or a call adds operations that are no part of the loop. -/
theorem Polling.of_append {t : Thread Call Op} (polling : Polling s)
    (threads : s'.threads = s.threads ++ [t])
    (frame : s'.completed = s.completed ∧ s'.ready = s.ready ∧ s'.drops = s.drops ∧
      s'.latePoll = s.latePoll ∧ s'.allocated = s.allocated)
    (outside : total Op.window t.code = 0 ∧ total Op.storesLast t.code = 0 ∧
      total Op.drops t.code = 0) : Polling s' := by
  obtain ⟨completed, ready, drops, latePoll, allocated⟩ := frame
  obtain ⟨noWindow, noLast, noDrop⟩ := outside
  have earlyLe := early_le_window [t]
  have storesLe := stores_le_early [t]
  obtain ⟨one, unstored, unstoredLast, stored, once, unborn, polls⟩ := polling
  simp only [load_cons, load_nil] at earlyLe storesLe
  constructor <;>
    simp only [threads, completed, ready, drops, latePoll, allocated, load_append, load_cons,
      load_nil, noWindow, noLast, noDrop, Nat.add_zero]
  · exact one
  · exact fun pos => unstored (by omega)
  · exact unstoredLast
  · intro done
    rcases stored done with completed | pos
    · exact Or.inl completed
    · exact Or.inr (by omega)
  · exact once
  · exact unborn
  · exact polls

theorem Polling.call (polling : Polling s) (step : s.step mode (.call f) = some s') :
    Polling s' := by
  obtain ⟨-, rfl⟩ := State.step_call step
  refine polling.of_append (t := ⟨f, s.code f⟩) ?_ ?_ ?_
  · cases f <;> rfl
  · cases f <;> exact ⟨rfl, rfl, rfl, rfl, rfl⟩
  · cases f with
    | setTaskBudget budget => cases budget <;> exact ⟨rfl, rfl, rfl⟩
    | isCancellationRequested j | takeCancellationRequest j =>
        simp only [State.code]
        cases s.cpuOf j <;> exact ⟨rfl, rfl, rfl⟩
    | _ => exact ⟨rfl, rfl, rfl⟩

end Steps

theorem polling_of_reach {mode : Hardening} {s : State}
    (reached : (system mode).Reach (Exclusive mode) s) : Memory mode s ∧ Polling s := by
  refine Sys.Reach.invariant (I := fun s => Memory mode s ∧ Polling s) ?_ ?_ reached
  · rintro s rfl
    exact ⟨Memory.initial, Polling.initial⟩
  · rintro s a s' ⟨memory, polling⟩ exclusive step
    cases a with
    | run i c => exact ⟨memory.run exclusive.1 step, polling.run memory exclusive step⟩
    | dequeue cpu =>
        have taken : s.step mode (.dequeue cpu) = some s' := step
        refine ⟨memory.dequeue taken, ?_⟩
        obtain ⟨-, rfl⟩ := State.step_dequeue taken
        exact polling.of_append rfl ⟨rfl, rfl, rfl, rfl, rfl⟩ ⟨rfl, rfl, rfl⟩
    | call f =>
        have made : s.step mode (.call f) = some s' := step
        exact ⟨memory.call made, polling.call made⟩

/-- **Exclusive polling.** In every run whose steps are exclusive at most one thread
is inside `vtable.poll` or `destroy(Drop)`, the future is never polled after
`Ready` or after a drop, and it is dropped at most once. -/
theorem exclusive_polling {mode : Hardening} {s : State}
    (reached : (system mode).Reach (Exclusive mode) s) :
    load Op.inside s.threads ≤ 1 ∧ s.latePoll = false ∧ s.drops ≤ 1 := by
  obtain ⟨memory, polling⟩ := polling_of_reach reached
  have inside : load Op.inside s.threads ≤ load Op.window s.threads + load Op.frees s.threads := by
    rw [← load_add]
    apply load_mono
    intro op
    cases op with
    | loop op => cases op <;> simp [Op.inside, Op.window]
    | last op => cases op <;> simp [Op.inside, Op.frees]
    | _ => simp [Op.inside]
  have window := polling.window
  have windowLe := window_le_refs s.threads
  have freed := memory.freed
  have held := State.references_eq s
  have drops := polling.drops
  have once : s.completed.toNat ≤ 1 := Bool.toNat_le _
  refine ⟨?_, polling.polls, by omega⟩
  split at freed <;> omega

/-- A task that is woken between two activations and is ready at its second
poll. -/
theorem exclusive_polling_of_two_activations :
    ∃ s, (system .off).Reach (Exclusive .off) s ∧ (s.ready = true ∧ s.drops = 1) ∧
      load Op.inside s.threads ≤ 1 ∧ s.latePoll = false ∧ s.drops ≤ 1 := by
  obtain ⟨s, reached, done⟩ := Sys.Reach.exists_of_execIf
    (fun s : State => s.ready = true ∧ s.drops = 1)
    (firstPoll ++ [.call (.cloneWaker (.activation 1)), go 2, go 1, go 1, go 1, go 1, go 1,
      .call (.wake 0), go 3, go 3, go 3, go 3, go 3, .dequeue (some 1), go 4, go 4, go 4, go 4,
      go 4, go 4, go 4, .run 4 .ready, go 4, go 4])
    (.start rfl : (system .off).Reach (Exclusive .off) initial) (by decide)
  exact ⟨s, reached, done, exclusive_polling reached⟩

/-- The future wakes itself during its first poll, and a second processor takes the
DPC while that poll goes on: both activations are inside `vtable.poll`. -/
theorem two_activations_poll :
    ¬ ∀ s, (system .off).Reachable s →
      load Op.inside s.threads ≤ 1 ∧ s.latePoll = false ∧ s.drops ≤ 1 := by
  intro exclusive
  obtain ⟨s, reached, both⟩ := Sys.Reach.exists_of_exec
    (fun s : State => 1 < load Op.inside s.threads)
    (firstPoll ++ [.call (.wakeByRef (.activation 1)), go 2, go 2, go 2, go 2,
      .dequeue (some 1), go 3, go 3, go 3, go 3, go 3, go 3, go 3])
    (.start rfl : (system .off).Reachable initial) (by decide)
  exact absurd (exclusive s reached).1 (Nat.not_le.mpr both)

end Kcom.Dpc
