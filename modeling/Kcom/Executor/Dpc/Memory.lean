import Kcom.Executor.Dpc.Accounting

/-!
# The memory of a DPC task

`ref_count` is the sum of what the spawner, the handles, the wakers, the queue,
the activations and the threads inside `KeInsertQueueDpc` hold: the load of the
whole pool and what the clients own.

The sum reaches 0 once, in the `release` that goes on to free the block. From
then on no thread has an operation left that touches it, because every such
operation is covered by a reference of its own thread or by the waker or handle
it borrows.
-/

namespace Kcom.Dpc

open Conc

/-! ## The invariant -/

namespace State

variable {s s' : State} {src : Source} {f : Call} {op : Op} {rest : List Op}

theorem live_eq_count (s : State) :
    s.live = s.owners.count (some .handle) + s.owners.count (some .waker) := by
  simp only [live]
  induction s.owners with
  | nil => rfl
  | cons o owners ih =>
      rw [total_cons, ih]
      rcases o with _ | _ | _ <;> simp <;> omega

/-- The references outstanding are the load of the pool, what clients own, and
the queue. -/
theorem references_eq (s : State) :
    s.references = load Op.refs s.threads + s.live + s.queued.toNat := by
  have split : load Op.refs s.threads =
      s.held .spawner + s.held .handle + s.held .waker + s.held .activation +
        s.held .inserting + s.held .refused := by
    rw [funext Op.refs_eq]
    simp only [load_add, held]
  rw [split, live_eq_count, references, handles, wakers]
  omega

@[simp] theorem moved_live (s : State) (threads : List (Thread Call Op)) (finished : Bool) :
    (s.moved threads finished).live = s.live := rfl

/-- A balanced operation keeps the counter equal to the references. -/
theorem references_moved {s₁ : State} {i : Nat} {push : List Op} (count : s.refCount = s.references)
    (thread : s.threads[i]? = some ⟨f, op :: rest⟩)
    (balance : s₁.refCount + op.refs + s.live + s.queued.toNat =
      s.refCount + total Op.refs push + s₁.live + s₁.queued.toNat) (finished : Bool) :
    s₁.refCount = (s₁.moved (s.threads.set i ⟨f, push ++ rest⟩) finished).references := by
  have refs := load_set Op.refs f push thread
  have held := references_eq s
  rw [references_eq]
  simp only [moved_live, moved_queued, moved_threads]
  omega

theorem alive_of_pollingAt {j : Nat} (polls : s.pollingAt j = true) :
    ∃ f l rest, s.threads[j]? = some ⟨f, .loop (.polling l) :: rest⟩ := by
  simp only [pollingAt] at polls
  split at polls
  · exact ⟨_, _, _, ‹_›⟩
  · cases polls

/-- A waker or handle that is there holds a reference. -/
theorem references_pos_of_alive (alive : s.alive src) : 0 < s.references := by
  rw [references_eq]
  cases src with
  | owner k =>
      obtain ⟨o, here⟩ := alive
      have one := le_total (fun o : Option Owner => if o = none then 0 else 1) here
      simp only [reduceCtorEq, if_false] at one
      change 1 ≤ s.live at one
      omega
  | activation j =>
      obtain ⟨f, l, rest, thread⟩ := alive_of_pollingAt alive
      have two := head_le_load Op.refs thread
      simp only [Op.refs] at two
      omega

theorem not_borrowed (free : s.borrowed src = false) {t : Thread Call Op} (mem : t ∈ s.threads)
    (borrows : t.tag.source = some src) : t.code = [] := by
  simp only [borrowed, List.any_eq_false] at free
  simpa [borrows] using free t mem

end State

/-- The accounting of a task's memory. -/
structure Memory (mode : Hardening) (s : State) : Prop where
  count : s.refCount = s.references
  room : s.references ≤ Refcount.capacity mode
  spawn : load Op.allocates s.threads + s.allocated.toNat ≤ s.spawned.toNat
  unborn : s.allocated = false → s.references = 0
  /-- The block is freed once, by the release that leaves no reference. -/
  freed : s.deallocs + load Op.frees s.threads =
    if s.allocated = true ∧ s.references = 0 then 1 else 0
  begun : s.begins + load Op.begins s.threads =
    if s.allocated = true ∧ s.tracked = true then 1 else 0
  told : s.completes + load Op.completes s.threads = if s.tracked then s.deallocs else 0
  /-- A thread that borrows nothing holds what its operations need. -/
  covered : ∀ t ∈ s.threads, t.tag.source = none → Covered Op.needs Op.refs t.code
  /-- What a running call borrows is there. -/
  borrows : ∀ t ∈ s.threads, ∀ src, t.tag.source = some src → t.code ≠ [] → s.alive src

section Steps

variable {mode : Hardening} {s s' s₁ : State} {i : Nat} {c : Choice} {f : Call} {op : Op}
  {push rest : List Op}

theorem Memory.initial : Memory mode initial where
  count := rfl
  room := Nat.zero_le _
  spawn := Nat.zero_le _
  unborn _ := rfl
  freed := rfl
  begun := rfl
  told := rfl
  covered t mem := by cases mem
  borrows t mem := by cases mem

/-- An operation that needs a reference has one. -/
theorem Memory.references_pos_of_mem (memory : Memory mode s) {t : Thread Call Op}
    (mem : t ∈ s.threads) (pending : op ∈ t.code) (need : op.needs = true) :
    0 < s.references := by
  cases source : t.tag.source with
  | none =>
      have covered := (memory.covered t mem source).pos_of_mem pending need
      have whole := le_total_of_mem (fun t : Thread Call Op => total Op.refs t.code) mem
      rw [State.references_eq, load]
      omega
  | some src =>
      exact State.references_pos_of_alive
        (memory.borrows t mem src source (List.ne_nil_of_mem pending))

theorem Memory.references_pos (memory : Memory mode s)
    (thread : s.threads[i]? = some ⟨f, op :: rest⟩) (need : op.needs = true) :
    0 < s.references :=
  memory.references_pos_of_mem (List.mem_of_getElem? thread) (List.mem_cons_self ..) need

/-- The covers and borrows of the pool after one thread has moved. -/
theorem Memory.borrows_run (memory : Memory mode s) (s' : State)
    (thread : s.threads[i]? = some ⟨f, op :: rest⟩)
    (performed : s.perform mode i c op = some (s₁, push))
    (owners : ∃ more, s'.owners = s.owners ++ more)
    (threads : s'.threads = s.threads.set i ⟨f, push ++ rest⟩) :
    (∀ t ∈ s'.threads, t.tag.source = none → Covered Op.needs Op.refs t.code) ∧
      ∀ t ∈ s'.threads, ∀ src, t.tag.source = some src → t.code ≠ [] → s'.alive src := by
  have mem := List.mem_of_getElem? thread
  -- the source of a call that was running before the step is still there after it
  have keep : ∀ t ∈ s.threads, ∀ src, t.tag.source = some src → t.code ≠ [] → s'.alive src := by
    intro t tMem src source running
    have was := memory.borrows t tMem src source running
    cases src with
    | owner k =>
        obtain ⟨o, here⟩ := was
        obtain ⟨more, owners⟩ := owners
        refine ⟨o, ?_⟩
        rw [owners, List.getElem?_append_left (List.getElem?_eq_some_iff.mp here).1]
        exact here
    | activation j =>
        obtain ⟨f', l, rest', poller⟩ := State.alive_of_pollingAt was
        by_cases same : i = j
        · subst same
          rw [thread] at poller
          cases poller
          exfalso
          simp only [State.perform, State.performLoop] at performed
          split at performed
          · cases performed
          · rename_i free
            exact running (State.not_borrowed (Bool.eq_false_iff.mpr free) tMem source)
        · simp only [State.alive, State.pollingAt, threads, List.getElem?_set_ne same, poller]
  rw [threads]
  constructor
  · intro t tMem source
    rcases List.mem_or_eq_of_mem_set tMem with old | rfl
    · exact memory.covered t old source
    · exact covered_of_perform performed (memory.covered _ mem source)
  · intro t tMem src source running
    rcases List.mem_or_eq_of_mem_set tMem with old | rfl
    · exact keep t old src source running
    · exact keep _ mem src source (List.cons_ne_nil _ _)

/-- A task is allocated once: while its allocation is pending nothing is there. -/
theorem Memory.unallocated {form : Spawn} (memory : Memory mode s)
    (thread : s.threads[i]? = some ⟨f, .allocate form :: rest⟩) : s.allocated = false := by
  have one := head_le_load Op.allocates thread
  have spawn := memory.spawn
  have once : s.spawned.toNat ≤ 1 := Bool.toNat_le _
  simp only [Op.allocates] at one
  cases born : s.allocated with
  | false => rfl
  | true =>
      simp only [born, Bool.toNat_true] at spawn
      omega

/-- The allocation. -/
theorem Memory.allocate {form : Spawn} (memory : Memory mode s)
    (thread : s.threads[i]? = some ⟨f, .allocate form :: rest⟩)
    (performed : s.perform mode i c (.allocate form) = some (s₁, push)) (finished : Bool) :
    Memory mode (s₁.moved (s.threads.set i ⟨f, push ++ rest⟩) finished) := by
  have new := memory.unallocated thread
  have none := memory.unborn new
  have empty : s.refCount = 0 := memory.count.trans none
  have one : 1 ≤ Refcount.capacity mode := by cases mode <;> decide
  obtain ⟨-, owners⟩ := perform_owners performed
  obtain ⟨covered, borrows⟩ := memory.borrows_run
    (s₁.moved (s.threads.set i ⟨f, push ++ rest⟩) finished) thread performed owners rfl
  have balance := perform_balance performed (fun adds => by cases adds) (fun subs => by cases subs)
    (fun _ _ => empty)
  have count' := State.references_moved memory.count thread balance finished
  have spawn := memory.spawn
  have freed := memory.freed
  have begun := memory.begun
  have told := memory.told
  have allocates := load_set Op.allocates f push thread
  have frees := load_set Op.frees f push thread
  have begins := load_set Op.begins f push thread
  have completes := load_set Op.completes f push thread
  simp only [new, Bool.false_eq_true, false_and, if_false, Bool.toNat_false] at freed begun spawn
  have silent : s.completes + load Op.completes s.threads = 0 := by
    rw [told]
    split <;> omega
  rcases perform_allocate performed with ⟨rfl, rfl⟩ | done
  · simp only [total_nil, Op.allocates, Op.frees, Op.begins, Op.completes]
      at allocates frees begins completes
    refine ⟨count', ?_, ?_, ?_, ?_, ?_, ?_, covered, borrows⟩
    · rw [← count', empty]
      exact Nat.zero_le _
    · simp only [State.moved_threads, State.moved_allocated, State.moved_spawned, new,
        Bool.toNat_false]
      omega
    · intro _
      rw [← count', empty]
    · simp only [State.moved_threads, State.moved_allocated, State.moved_deallocs, new,
        Bool.false_eq_true, false_and, if_false]
      omega
    · simp only [State.moved_threads, State.moved_allocated, State.moved_begins, new,
        Bool.false_eq_true, false_and, if_false]
      omega
    · simp only [State.moved_threads, State.moved_completes, State.moved_tracked,
        State.moved_deallocs]
      omega
  · obtain ⟨refCount, spawned, allocated, tracked, deallocs, begun', completed, noAllocate, noFree,
      begin, noComplete⟩ := done
    simp only [noAllocate, noFree, noComplete, begin, Op.allocates, Op.frees, Op.begins,
      Op.completes] at allocates frees begins completes
    refine ⟨count', ?_, ?_, ?_, ?_, ?_, ?_, covered, borrows⟩
    · rw [← count', refCount]
      exact one
    · simp only [State.moved_threads, State.moved_allocated, State.moved_spawned, allocated,
        spawned, Bool.toNat_true]
      omega
    · intro unborn
      simp only [State.moved_allocated, allocated, Bool.true_eq_false] at unborn
    · rw [← count', refCount]
      simp only [State.moved_threads, State.moved_deallocs, deallocs, Nat.one_ne_zero, and_false,
        if_false]
      omega
    · simp only [State.moved_threads, State.moved_begins, State.moved_allocated,
        State.moved_tracked, allocated, tracked, begun', true_and]
      omega
    · simp only [State.moved_threads, State.moved_completes, State.moved_tracked,
        State.moved_deallocs, tracked, deallocs, completed]
      split <;> omega

/-- Only a release that leaves no reference brings somebody to free the block. -/
theorem Memory.freed_run (memory : Memory mode s)
    (thread : s.threads[i]? = some ⟨f, op :: rest⟩) (ledger : Ledger s s₁ op push)
    (moves : s₁.refCount + op.subs.toNat = s.refCount + op.adds.toNat) :
    s₁.deallocs + load Op.frees (s.threads.set i ⟨f, push ++ rest⟩) =
      if s₁.allocated = true ∧ s₁.refCount = 0 then 1 else 0 := by
  have count := memory.count
  have freed := memory.freed
  have frees := load_set Op.frees f push thread
  have ledgerFrees := ledger.frees
  rw [ledger.allocated]
  cases gone : op.subs with
  | true =>
      -- the reference given back was there, so the block is, and nobody frees it yet
      have pos := memory.references_pos thread (Op.needs_of_subs gone)
      have born : s.allocated = true := by
        by_contra never
        have none := memory.unborn (by simpa using never)
        omega
      simp only [gone, born, true_and] at ledgerFrees ⊢
      rw [if_neg (fun h => absurd h.2 (by omega))] at freed
      omega
  | false =>
      have same : s₁.refCount = 0 ↔ s.references = 0 := by
        cases more : op.adds with
        | false =>
            simp only [gone, more, Bool.toNat_false] at moves
            omega
        | true =>
            have pos := memory.references_pos thread (Op.needs_of_adds more)
            simp only [gone, more, Bool.toNat_false, Bool.toNat_true] at moves
            omega
      simp only [gone, Bool.false_eq_true, false_and, if_false] at ledgerFrees
      simp only [← same] at freed
      omega

/-- Any other operation of a thread. -/
theorem Memory.operation (memory : Memory mode s)
    (thread : s.threads[i]? = some ⟨f, op :: rest⟩)
    (performed : s.perform mode i c op = some (s₁, push)) (old : ∀ form, op ≠ .allocate form)
    (counted : op.adds = true → s.references < Refcount.capacity mode) (finished : Bool) :
    Memory mode (s₁.moved (s.threads.set i ⟨f, push ++ rest⟩) finished) := by
  have count := memory.count
  have room := memory.room
  have spawn := memory.spawn
  have begun := memory.begun
  have told := memory.told
  have adds : op.adds = true → s.refCount < Refcount.capacity mode := by
    rw [count]
    exact counted
  have subs : op.subs = true → 0 < s.refCount ∧ s.refCount ≤ Refcount.capacity mode := by
    intro subs
    rw [count]
    exact ⟨memory.references_pos thread (Op.needs_of_subs subs), room⟩
  obtain ⟨-, owners⟩ := perform_owners performed
  obtain ⟨covered, borrows⟩ := memory.borrows_run
    (s₁.moved (s.threads.set i ⟨f, push ++ rest⟩) finished) thread performed owners rfl
  have balance := perform_balance performed adds subs (fun form same => absurd same (old form))
  have moves := perform_count performed adds subs old
  have ledger := perform_ledger performed subs old
  have count' := State.references_moved count thread balance finished
  have allocates := load_set Op.allocates f push thread
  have begins := load_set Op.begins f push thread
  have completes := load_set Op.completes f push thread
  have ledgerAllocates := ledger.allocates
  have ledgerBegins := ledger.begins
  have ledgerCompletes := ledger.completes
  refine ⟨count', ?_, ?_, ?_, ?_, ?_, ?_, covered, borrows⟩
  · rw [← count']
    cases more : op.adds with
    | false =>
        simp only [more, Bool.toNat_false] at moves
        omega
    | true =>
        have below := adds more
        simp only [more, Bool.toNat_true] at moves
        omega
  · simp only [State.moved_threads, State.moved_allocated, State.moved_spawned, ledger.allocated,
      ledger.spawned]
    omega
  · intro new
    simp only [State.moved_allocated, ledger.allocated] at new
    have none := memory.unborn new
    have noAdd : op.adds = false := by
      cases more : op.adds with
      | false => rfl
      | true =>
          have pos := memory.references_pos thread (Op.needs_of_adds more)
          omega
    simp only [noAdd, Bool.toNat_false] at moves
    omega
  · have freed := memory.freed_run thread ledger moves
    rw [← count']
    exact freed
  · simp only [State.moved_threads, State.moved_begins, State.moved_allocated,
      State.moved_tracked, ledger.allocated, ledger.tracked]
    omega
  · simp only [State.moved_threads, State.moved_completes, State.moved_tracked,
      State.moved_deallocs, ledger.tracked]
    omega

theorem Memory.run (memory : Memory mode s) (counted : Counted mode s (.run i c))
    (step : s.step mode (.run i c) = some s') : Memory mode s' := by
  obtain ⟨f, op, rest, s₁, push, finished, thread, performed, rfl⟩ := State.step_run step
  by_cases old : ∀ form, op ≠ .allocate form
  · have next : s.next i = some op := by simp [State.next, thread]
    exact memory.operation thread performed old (counted op next) finished
  · simp only [not_forall, not_not] at old
    obtain ⟨form, rfl⟩ := old
    exact memory.allocate thread performed finished

/-- Sources survive a step that leaves the pool and the owners they name alone. -/
theorem State.alive_append {src : Source} {t : Thread Call Op} (alive : s.alive src)
    (owners : s'.owners = s.owners) (threads : s'.threads = s.threads ++ [t]) :
    s'.alive src := by
  cases src with
  | owner k =>
      simp only [State.alive, owners]
      exact alive
  | activation j =>
      obtain ⟨f, l, rest, poller⟩ := State.alive_of_pollingAt alive
      simp only [State.alive, State.pollingAt, threads]
      rw [List.getElem?_append_left (List.getElem?_eq_some_iff.mp poller).1, poller]

/-- A dequeued DPC leaves its reference to the activation. -/
theorem Memory.dequeue {cpu : Option Nat} (memory : Memory mode s)
    (step : s.step mode (.dequeue cpu) = some s') : Memory mode s' := by
  obtain ⟨queued, rfl⟩ := State.step_dequeue step
  obtain ⟨count, room, spawn, unborn, freed, begun, told, covered, borrows⟩ := memory
  have held := State.references_eq s
  have same : s.references = State.references { s with
      queued := false
      threads := s.threads ++ [⟨.dpcRoutine cpu, [.clearScheduled cpu]⟩] } := by
    rw [held, State.references_eq]
    simp only [queued, State.live, load_append, load_cons, load_nil, total_cons, total_nil, Op.refs,
      Bool.toNat_true, Bool.toNat_false]
    omega
  refine ⟨?_, ?_, ?_, ?_, ?_, ?_, ?_, ?_, ?_⟩
  · rw [← same]; exact count
  · rw [← same]; exact room
  · simpa [Op.allocates] using spawn
  · rw [← same]; exact unborn
  · rw [← same]; simpa [Op.frees] using freed
  · simpa [Op.begins] using begun
  · simpa [Op.completes] using told
  · intro t mem source
    rcases List.mem_append.mp mem with old | new
    · exact covered t old source
    · rw [List.mem_singleton.mp new]
      simp [Covered, Op.refs]
  · intro t mem src source running
    rcases List.mem_append.mp mem with old | new
    · exact State.alive_append (borrows t old src source running) rfl rfl
    · rw [List.mem_singleton.mp new] at source
      cases source

/-- What a call takes from its caller it goes on holding. -/
theorem call_refs (callable : s.callable f = true) :
    (s.enter f).live + total Op.refs (s.code f) = s.live := by
  have consume : ∀ {k : Nat} {o : Owner}, s.owners[k]? = some (some o) →
      State.live { s with owners := s.owners.set k none } + 1 = s.live := by
    intro k o here
    have swap := total_set (fun o : Option Owner => if o = none then 0 else 1) none here
    simpa [State.live] using swap
  cases f with
  | dropHandle k =>
      simp only [State.callable, Bool.and_eq_true, decide_eq_true_eq] at callable
      exact consume callable.1
  | wake k =>
      simp only [State.callable, Bool.and_eq_true, decide_eq_true_eq] at callable
      exact consume callable.1
  | dropWaker k =>
      simp only [State.callable, Bool.and_eq_true, decide_eq_true_eq] at callable
      exact consume callable.1
  | setTaskBudget budget => cases budget <;> rfl
  | isCancellationRequested j =>
      simp only [State.enter, State.code]
      cases s.cpuOf j <;> rfl
  | takeCancellationRequest j =>
      simp only [State.enter, State.code]
      cases s.cpuOf j <;> rfl
  | dpcRoutine cpu => cases callable
  | _ => rfl

theorem call_ledger (callable : s.callable f = true) :
    total Op.frees (s.code f) = 0 ∧ total Op.begins (s.code f) = 0 ∧
      total Op.completes (s.code f) = 0 ∧
      total Op.allocates (s.code f) + s.spawned.toNat = (s.enter f).spawned.toNat := by
  cases f with
  | spawn form =>
      simp only [State.callable, Bool.not_eq_true'] at callable
      simp [State.code, State.enter, callable, Op.frees, Op.begins, Op.completes, Op.allocates]
  | setTaskBudget budget => cases budget <;> exact ⟨rfl, rfl, rfl, Nat.zero_add _⟩
  | isCancellationRequested j =>
      simp only [State.enter, State.code]
      cases s.cpuOf j <;> exact ⟨rfl, rfl, rfl, Nat.zero_add _⟩
  | takeCancellationRequest j =>
      simp only [State.enter, State.code]
      cases s.cpuOf j <;> exact ⟨rfl, rfl, rfl, Nat.zero_add _⟩
  | _ => exact ⟨rfl, rfl, rfl, Nat.zero_add _⟩

theorem call_covered (borrowless : f.source = none) : Covered Op.needs Op.refs (s.code f) := by
  cases f with
  | setTaskBudget budget => cases budget <;> simp [State.code, Covered, Op.needs]
  | spawn | dropHandle | wake | dropWaker | dpcRoutine =>
      simp [State.code, Covered, Op.refs, Op.needs]
  | _ => cases borrowless

theorem call_alive {src : Source} (callable : s.callable f = true) (source : f.source = some src) :
    s.alive src := by
  have owned : ∀ {k : Nat} {o : Owner}, s.owners[k]? = some (some o) → s.alive (.owner k) :=
    fun here => ⟨_, here⟩
  have waker : ∀ {via : Source}, s.hasWaker via = true → s.alive via := by
    intro via has
    cases via with
    | owner k => exact owned (of_decide_eq_true has)
    | activation j => exact has
  cases f with
  | cancel k | isCancelled k =>
      cases source
      exact owned (of_decide_eq_true callable)
  | cloneWaker via | wakeByRef via =>
      cases source
      exact waker callable
  | isCancellationRequested j | takeCancellationRequest j =>
      cases source
      exact callable
  | _ => cases source

theorem enter_of_source {src : Source} (source : f.source = some src) : s.enter f = s := by
  cases f <;> first | rfl | cases source

/-- What a running call borrows is still there after another call was made. -/
theorem alive_enter {src : Source} {t : Thread Call Op} (callable : s.callable f = true)
    (mem : t ∈ s.threads) (source : t.tag.source = some src) (running : t.code ≠ [])
    (alive : s.alive src) : (s.enter f).alive src := by
  have consume : ∀ k, s.borrowed (.owner k) = false →
      State.alive { s with owners := s.owners.set k none } src := by
    intro k free
    cases src with
    | activation j => exact alive
    | owner k' =>
        by_cases same : k = k'
        · subst same
          exact absurd (State.not_borrowed free mem source) running
        · obtain ⟨o, here⟩ := alive
          refine ⟨o, ?_⟩
          change (s.owners.set k none)[k']? = _
          rw [List.getElem?_set_ne same]
          exact here
  cases f with
  | dropHandle k | wake k | dropWaker k =>
      simp only [State.callable, Bool.and_eq_true, Bool.not_eq_true'] at callable
      exact consume k callable.2
  | spawn form =>
      cases src with
      | owner k => exact alive
      | activation j => exact alive
  | _ => exact alive

theorem Memory.call (memory : Memory mode s) (step : s.step mode (.call f) = some s') :
    Memory mode s' := by
  obtain ⟨callable, rfl⟩ := State.step_call step
  obtain ⟨count, room, spawn, unborn, freed, begun, told, covered, borrows⟩ := memory
  have refs := call_refs callable
  obtain ⟨noFree, noBegin, noComplete, allocates⟩ := call_ledger callable
  have frame : (s.enter f).refCount = s.refCount ∧ (s.enter f).allocated = s.allocated ∧
      (s.enter f).tracked = s.tracked ∧ (s.enter f).deallocs = s.deallocs ∧
      (s.enter f).begins = s.begins ∧ (s.enter f).completes = s.completes ∧
      (s.enter f).queued = s.queued ∧ (s.enter f).threads = s.threads := by
    cases f <;> exact ⟨rfl, rfl, rfl, rfl, rfl, rfl, rfl, rfl⟩
  obtain ⟨refCount, allocated, tracked, deallocs, begins, completes, queued, threads⟩ := frame
  have same : s.references =
      State.references { s.enter f with threads := s.threads ++ [⟨f, s.code f⟩] } := by
    rw [State.references_eq, State.references_eq]
    simp only [State.live, load_append, load_cons, load_nil, queued] at refs ⊢
    omega
  refine ⟨?_, ?_, ?_, ?_, ?_, ?_, ?_, ?_, ?_⟩
  · rw [← same]
    exact refCount.trans count
  · rw [← same]
    exact room
  · simp only [load_append, load_cons, load_nil, allocated]
    omega
  · rw [← same]
    simp only [allocated]
    exact unborn
  · rw [← same]
    simp only [load_append, load_cons, load_nil, allocated, deallocs, noFree]
    exact freed
  · simp only [load_append, load_cons, load_nil, allocated, tracked, begins, noBegin]
    exact begun
  · simp only [load_append, load_cons, load_nil, deallocs, tracked, completes, noComplete]
    exact told
  · intro t mem source
    rcases List.mem_append.mp mem with old | new
    · exact covered t old source
    · rw [List.mem_singleton.mp new] at source ⊢
      exact call_covered source
  · intro t mem src source running
    rcases List.mem_append.mp mem with old | new
    · have kept := alive_enter callable old source running (borrows t old src source running)
      exact State.alive_append kept rfl (by rw [threads])
    · rw [List.mem_singleton.mp new] at source
      have kept : (s.enter f).alive src := by
        rw [enter_of_source source]
        exact call_alive callable source
      exact State.alive_append kept rfl (by rw [threads])

end Steps

theorem memory_of_reach {mode : Hardening} {s : State}
    (reached : (system mode).Reach (Counted mode) s) : Memory mode s := by
  refine Sys.Reach.invariant ?_ ?_ reached
  · rintro s rfl
    exact Memory.initial
  · intro s a s' memory counted step
    cases a with
    | run i c => exact memory.run counted step
    | dequeue cpu => exact memory.dequeue step
    | call f => exact memory.call step

/-! ## What the counter promises -/

/-- The step `a` reads or writes the task block; dequeueing the DPC does, since
the block contains it. -/
def Touches (s : State) : State.Label → Prop
  | .run i _ => ∃ op, s.next i = some op ∧ op.touches = true
  | .dequeue _ => True
  | .call _ => False

/-- **The memory of a DPC task.** In every run that stays within the capacity of
the counter, `ref_count` is the number of references outstanding, a refused
insertion counting until its release; the block is freed once and only when they
have reached 0, nothing touches it afterwards, and a tracker is told of the
allocation once and of the deallocation once, after it. -/
theorem task_memory {mode : Hardening} {s : State}
    (reached : (system mode).Reach (Counted mode) s) :
    s.refCount = s.held .spawner + s.handles + s.wakers + s.queued.toNat + s.held .activation +
        s.held .inserting + s.held .refused ∧
      (s.deallocs + load Op.frees s.threads =
        if s.allocated = true ∧ s.references = 0 then 1 else 0) ∧
      (0 < s.deallocs → ∀ a s', (system mode).step s a = some s' → ¬ Touches s a) ∧
      (s.tracked = true →
        s.begins + load Op.begins s.threads = (if s.allocated = true then 1 else 0) ∧
        s.completes + load Op.completes s.threads = s.deallocs ∧
        (0 < s.deallocs → s.begins = 1)) := by
  have memory := memory_of_reach reached
  have freed := memory.freed
  -- a freed block has no reference and no release under way
  have gone : 0 < s.deallocs → s.references = 0 ∧ load Op.frees s.threads = 0 := by
    intro done
    split at freed
    · exact ⟨‹_ ∧ _›.2, by omega⟩
    · omega
  refine ⟨memory.count, freed, ?_, ?_⟩
  · intro done a s' step touches
    obtain ⟨none, quiet⟩ := gone done
    cases a with
    | call f => exact touches
    | dequeue cpu =>
        have taken : s.step mode (.dequeue cpu) = some s' := step
        obtain ⟨queued, -⟩ := State.step_dequeue taken
        rw [State.references_eq, queued, Bool.toNat_true] at none
        omega
    | run i c =>
        obtain ⟨op, next, touches⟩ := touches
        simp only [State.next, Option.bind_eq_some_iff] at next
        obtain ⟨⟨f, code⟩, thread, head⟩ := next
        obtain ⟨rest, rfl⟩ := List.head?_eq_some_iff.mp head
        rcases op.frees_or_needs touches with frees | need
        · have busy := head_le_load Op.frees thread
          omega
        · have pos := memory.references_pos thread need
          omega
  · intro tracked
    have begun := memory.begun
    have told := memory.told
    simp only [tracked, and_true, if_true] at begun told
    refine ⟨begun, told, ?_⟩
    intro done
    obtain ⟨none, -⟩ := gone done
    have born : s.allocated = true := by
      split at freed
      · exact ‹_ ∧ _›.1
      · omega
    have begins : load Op.begins s.threads = 0 := by
      rw [load_eq_zero]
      intro t mem op pending
      cases op with
      | trackerBegin =>
          have pos := memory.references_pos_of_mem mem pending rfl
          omega
      | _ => rfl
    rw [born, if_pos rfl] at begun
    omega

/-- A tracked task that is ready at its first poll. -/
theorem task_memory_of_ready : ∃ s, (system .off).Reach (Counted .off) s ∧
    (s.deallocs = 1 ∧ s.completes = 1 ∧ s.tracked = true) ∧
    s.refCount = s.held .spawner + s.handles + s.wakers + s.queued.toNat + s.held .activation +
        s.held .inserting + s.held .refused ∧
      (s.deallocs + load Op.frees s.threads =
        if s.allocated = true ∧ s.references = 0 then 1 else 0) ∧
      (0 < s.deallocs → ∀ a s', (system .off).step s a = some s' → ¬ Touches s a) ∧
      (s.tracked = true →
        s.begins + load Op.begins s.threads = (if s.allocated = true then 1 else 0) ∧
        s.completes + load Op.completes s.threads = s.deallocs ∧
        (0 < s.deallocs → s.begins = 1)) := by
  obtain ⟨s, reached, done⟩ := Sys.Reach.exists_of_execIf
    (fun s : State => s.deallocs = 1 ∧ s.completes = 1 ∧ s.tracked = true)
    (firstPoll ++ [.run 1 .ready, go 1, go 1, go 1, go 1, go 1, go 1, go 1, go 1, go 1])
    (.start rfl : (system .off).Reach (Counted .off) initial) (by decide)
  exact ⟨s, reached, done, task_memory reached⟩

/-- One more waker, cloned from the local waker of a polling activation. -/
theorem exists_clone {s : State} {j : Nat} (reached : (system .off).Reachable s)
    (polls : s.pollingAt j = true) :
    ∃ s', (system .off).Reachable s' ∧ s'.pollingAt j = true ∧
      s'.refCount = (s.refCount + 1) % 2 ^ 32 ∧ s'.references = s.references + 1 := by
  obtain ⟨f, l, rest, poller⟩ := State.alive_of_pollingAt polls
  have bound : j < s.threads.length := (List.getElem?_eq_some_iff.mp poller).1
  let call : Call := .cloneWaker (.activation j)
  let s₁ : State := { s with threads := s.threads ++ [⟨call, [.cloneRaw]⟩] }
  let s₂ : State := { s₁ with
    refCount := (s.refCount + 1) % 2 ^ 32
    owners := s.owners ++ [some .waker]
    threads := s₁.threads.set s.threads.length ⟨call, []⟩ }
  have first : (system .off).step s (.call call) = some s₁ := by
    change (if s.pollingAt j = true then some s₁ else none) = some s₁
    rw [if_pos polls]
  have second : (system .off).step s₁ (go s.threads.length) = some s₂ := by
    have thread : s₁.threads[s.threads.length]? = some ⟨call, [.cloneRaw]⟩ := by simp [s₁]
    change State.step .off s₁ (go s.threads.length) = some s₂
    simp only [State.step, thread]
    rfl
  have threads : s₂.threads = s.threads ++ [⟨call, []⟩] := by
    simp [s₂, s₁]
  refine ⟨s₂, .step (.step reached trivial first) trivial second, ?_, rfl, ?_⟩
  · simp only [State.pollingAt, threads]
    rw [List.getElem?_append_left bound, poller]
  · rw [State.references_eq, State.references_eq, threads]
    simp [State.live, s₂, s₁]
    omega

theorem exists_clones (n : Nat) :
    ∃ s, (system .off).Reachable s ∧ s.pollingAt 1 = true ∧ s.refCount = (2 + n) % 2 ^ 32 ∧
      s.references = 2 + n := by
  induction n with
  | zero =>
      obtain ⟨s, reached, polls⟩ := Sys.Reach.exists_of_exec
        (fun s : State => s.pollingAt 1 = true ∧ s.refCount = 2 ∧ s.references = 2) firstPoll
        (.start rfl : (system .off).Reachable initial) (by decide)
      exact ⟨s, reached, polls⟩
  | succ n ih =>
      obtain ⟨s, reached, polls, count, references⟩ := ih
      obtain ⟨s', reached', polls', count', references'⟩ := exists_clone reached polls
      refine ⟨s', reached', polls', ?_, ?_⟩
      · rw [count', count]
        omega
      · rw [references', references]
        rfl

/-- A thread whose insertion was refused holds a reference until its release, so
the sum without it is too small; and the 32-bit counter wraps at 2^32
references. -/
theorem ref_count_not_sum :
    (¬ ∀ s, (system .off).Reachable s →
      s.refCount = s.held .spawner + s.handles + s.wakers + s.queued.toNat + s.held .activation +
        s.held .inserting) ∧
      ¬ ∀ s, (system .off).Reachable s →
        s.refCount = s.held .spawner + s.handles + s.wakers + s.queued.toNat +
          s.held .activation + s.held .inserting + s.held .refused := by
  constructor
  · intro sum
    -- two wakes during one activation: the second finds the DPC queued by the first
    obtain ⟨s, reached, differs⟩ := Sys.Reach.exists_of_exec
      (fun s : State => s.refCount ≠ s.held .spawner + s.handles + s.wakers + s.queued.toNat +
        s.held .activation + s.held .inserting)
      (firstPoll ++ [.call (.wakeByRef (.activation 1)), go 2, go 2, go 2, go 2, go 1, go 1, go 1,
        go 1, .call (.wakeByRef (.activation 1)), go 3, go 3, go 3, go 3])
      (.start rfl : (system .off).Reachable initial) (by decide)
    exact differs (sum s reached)
  · intro sum
    obtain ⟨s, reached, -, count, references⟩ := exists_clones (2 ^ 32 - 2)
    have wrapped := sum s reached
    change s.refCount = s.references at wrapped
    omega

end Kcom.Dpc
