import Kcom.Executor.WorkItem.Accounting

/-!
# The memory of a work-item task

While the counter has room `ref_count` is the number of references outstanding:
what pending operations, clients and queued work items hold. It reaches 0 once, in
the `release` that goes on to free the block, and from then on no operation is left
that needs the block, since each is covered by a reference of its own thread or by
the waker or handle its call borrows.
-/

namespace Kcom.WorkItem

open Conc

namespace State

variable {s s' : State} {src : Source} {f : Call} {op : Op} {rest : List Op}

@[simp] theorem moved_live (s : State) (threads : List (Thread Call Op)) :
    (s.moved threads).live = s.live := rfl

theorem polling_of_pollingAt {j : Nat} (polls : s.pollingAt j = true) :
    ∃ f id rest, s.threads[j]? = some ⟨f, .run id .polling :: rest⟩ := by
  simp only [pollingAt] at polls
  split at polls
  · exact ⟨_, _, _, ‹_›⟩
  · cases polls

/-- A waker or handle that is there holds a reference. -/
theorem references_pos_of_alive (alive : s.alive src) : 0 < s.references := by
  rw [references]
  cases src with
  | owner k =>
      obtain ⟨o, here⟩ := alive
      have one := le_total (fun o : Option Owner => if o = none then 0 else 1) here
      simp only [reduceCtorEq, if_false] at one
      change 1 ≤ s.live at one
      omega
  | activation j =>
      obtain ⟨f, id, rest, thread⟩ := polling_of_pollingAt alive
      have two := head_le_load Op.refs thread
      simp only [Op.refs, Run.refs] at two
      omega

theorem not_borrowed (free : s.borrowed src = false) {t : Thread Call Op} (mem : t ∈ s.threads)
    (borrows : t.tag.source = some src) : t.code = [] := by
  simp only [borrowed, List.any_eq_false] at free
  simpa [borrows] using free t mem

/-- Sources survive a step that adds a thread and leaves the owners alone. -/
theorem alive_append {t : Thread Call Op} (alive : s.alive src) (owners : s'.owners = s.owners)
    (threads : s'.threads = s.threads ++ [t]) : s'.alive src := by
  cases src with
  | owner k =>
      simp only [State.alive, owners]
      exact alive
  | activation j =>
      obtain ⟨f, id, rest, poller⟩ := polling_of_pollingAt alive
      simp only [State.alive, pollingAt, threads]
      rw [List.getElem?_append_left (List.getElem?_eq_some_iff.mp poller).1, poller]

end State

/-- The accounting of a task's memory. -/
structure Memory (mode : Hardening) (s : State) : Prop where
  count : s.refCount = s.references
  room : s.references ≤ Refcount.capacity mode
  spawn : load Op.allocates s.threads + s.allocated.toNat ≤ s.spawned.toNat
  unborn : s.allocated = false → s.references = 0
  /-- The block is freed once, by the release that leaves no reference. -/
  freed : s.frees + load Op.frees s.threads =
    if s.allocated = true ∧ s.references = 0 then 1 else 0
  /-- A work item that is not yet enqueued is in the hands of one `schedule`. -/
  fresh : ∀ id, load (Op.submits id) s.threads = createdAt s.items id
  /-- A thread that borrows nothing holds what its operations need. -/
  covered : ∀ t ∈ s.threads, t.tag.source = none → Covered Op.needs Op.refs t.code
  /-- What a running call borrows is there. -/
  borrows : ∀ t ∈ s.threads, ∀ src, t.tag.source = some src → t.code ≠ [] → s.alive src

section Steps

variable {driver : Driver} {mode : Hardening} {s s' s₁ : State} {i id : Nat} {c : Choice}
  {f : Call} {op : Op} {push rest : List Op}

theorem Memory.initial : Memory mode initial where
  count := rfl
  room := Nat.zero_le _
  spawn := Nat.zero_le _
  unborn _ := rfl
  freed := rfl
  fresh _ := rfl
  covered t mem := by cases mem
  borrows t mem := by cases mem

/-- An operation that needs the block finds a reference. -/
theorem Memory.references_pos (memory : Memory mode s)
    (thread : s.threads[i]? = some ⟨f, op :: rest⟩) (need : op.needs = true) :
    0 < s.references := by
  have mem := List.mem_of_getElem? thread
  cases source : f.source with
  | none =>
      have covered := (memory.covered _ mem source).pos_of_mem List.mem_cons_self need
      have whole := le_total_of_mem (fun t : Thread Call Op => total Op.refs t.code) mem
      rw [State.references, load]
      omega
  | some src =>
      exact State.references_pos_of_alive
        (memory.borrows _ mem src source (List.cons_ne_nil _ _))

/-- A task is allocated once: while its allocation is pending nothing is there. -/
theorem Memory.unallocated (memory : Memory mode s)
    (thread : s.threads[i]? = some ⟨f, op :: rest⟩) (allocates : op.allocates = 1) :
    s.allocated = false := by
  have one := head_le_load Op.allocates thread
  have spawn := memory.spawn
  have once : s.spawned.toNat ≤ 1 := Bool.toNat_le _
  cases born : s.allocated with
  | false => rfl
  | true =>
      simp only [born, Bool.toNat_true] at spawn
      omega

/-- The source of a call that was running before a step of thread `i` is still there
after it. -/
theorem Memory.alive_run (memory : Memory mode s)
    (thread : s.threads[i]? = some ⟨f, op :: rest⟩)
    (performed : s.perform driver mode i f c op = some (s₁, push))
    (owners : ∃ more, s₁.owners = s.owners ++ more) {t : Thread Call Op} (mem : t ∈ s.threads)
    {src : Source} (source : t.tag.source = some src) (running : t.code ≠ []) :
    (s₁.moved (s.threads.set i ⟨f, push ++ rest⟩)).alive src := by
  have was := memory.borrows t mem src source running
  cases src with
  | owner k =>
      obtain ⟨o, here⟩ := was
      obtain ⟨more, owners⟩ := owners
      refine ⟨o, ?_⟩
      rw [State.moved_owners, owners,
        List.getElem?_append_left (List.getElem?_eq_some_iff.mp here).1]
      exact here
  | activation j =>
      obtain ⟨f', id, rest', poller⟩ := State.polling_of_pollingAt was
      by_cases same : i = j
      · -- a poll does not return while its waker is borrowed
        subst same
        rw [thread] at poller
        cases poller
        exfalso
        simp only [State.perform, State.performRun] at performed
        split at performed
        · cases performed
        · rename_i free
          exact running (State.not_borrowed (Bool.eq_false_iff.mpr free) mem source)
      · simp only [State.alive, State.pollingAt, State.moved_threads,
          List.getElem?_set_ne same, poller]

/-- The covers and borrows of the pool after one thread has moved. -/
theorem Memory.borrows_run (memory : Memory mode s)
    (thread : s.threads[i]? = some ⟨f, op :: rest⟩)
    (performed : s.perform driver mode i f c op = some (s₁, push))
    (owners : ∃ more, s₁.owners = s.owners ++ more)
    (covers : Covered Op.needs Op.refs (op :: rest) → Covered Op.needs Op.refs (push ++ rest)) :
    (∀ t ∈ s.threads.set i ⟨f, push ++ rest⟩, t.tag.source = none →
        Covered Op.needs Op.refs t.code) ∧
      ∀ t ∈ s.threads.set i ⟨f, push ++ rest⟩, ∀ src, t.tag.source = some src → t.code ≠ [] →
        (s₁.moved (s.threads.set i ⟨f, push ++ rest⟩)).alive src := by
  have mem := List.mem_of_getElem? thread
  constructor
  · intro t tMem source
    rcases List.mem_or_eq_of_mem_set tMem with old | rfl
    · exact memory.covered t old source
    · exact covers (memory.covered _ mem source)
  · intro t tMem src source running
    rcases List.mem_or_eq_of_mem_set tMem with old | rfl
    · exact memory.alive_run thread performed owners old source running
    · exact memory.alive_run thread performed owners mem source (List.cons_ne_nil _ _)

/-- The allocation. -/
theorem Memory.allocate {form : Spawn} (memory : Memory mode s)
    (thread : s.threads[i]? = some ⟨f, .allocate form :: rest⟩)
    (performed : s.perform driver mode i f c (.allocate form) = some (s₁, push)) :
    Memory mode (s₁.moved (s.threads.set i ⟨f, push ++ rest⟩)) := by
  have new := memory.unallocated thread rfl
  have none := memory.unborn new
  have empty : s.refCount = 0 := memory.count.trans none
  have one : 1 ≤ Refcount.capacity mode := by cases mode <;> decide
  have spawn := memory.spawn
  have freed := memory.freed
  have refs := load_set Op.refs f push thread
  have allocates := load_set Op.allocates f push thread
  have frees := load_set Op.frees f push thread
  have submits := fun id => load_set (Op.submits id) f push thread
  simp only [new, Bool.false_eq_true, false_and, if_false, Bool.toNat_false] at freed spawn
  rw [State.references] at none
  have owners : ∃ more, s₁.owners = s.owners ++ more := by
    rcases allocate_cases performed with ⟨rfl, -⟩ | ⟨rfl, -⟩ <;>
      exact ⟨[], (List.append_nil _).symm⟩
  have covers : Covered Op.needs Op.refs (.allocate form :: rest) →
      Covered Op.needs Op.refs (push ++ rest) := by
    intro all
    rcases allocate_cases performed with ⟨-, rfl⟩ | ⟨-, rfl⟩
    · exact all.2
    · exact ⟨fun _ => Nat.add_pos_left Nat.one_pos _, all.2⟩
  obtain ⟨covered, borrows⟩ := memory.borrows_run thread performed owners covers
  rcases allocate_cases performed with ⟨rfl, rfl⟩ | ⟨rfl, rfl⟩ <;>
    simp only [total_cons, total_nil, Op.refs, Op.allocates, Op.frees, Op.submits]
      at refs allocates frees submits <;>
    refine ⟨?_, ?_, ?_, ?_, ?_, ?_, covered, borrows⟩ <;>
    simp only [State.references, State.moved_refCount, State.moved_threads, State.moved_items,
      State.moved_allocated, State.moved_spawned, State.moved_frees, State.moved_owners, State.live]
      at none ⊢
  · omega
  · omega
  · simp only [new, Bool.toNat_false]
    omega
  · intro _
    omega
  · simp only [new, Bool.false_eq_true, false_and, if_false]
    omega
  · intro id
    have same := submits id
    rw [← memory.fresh id]
    omega
  · omega
  · omega
  · simp only [Bool.toNat_true]
    omega
  · intro unborn
    cases unborn
  · rw [if_neg (by omega)]
    omega
  · intro id
    have same := submits id
    rw [← memory.fresh id]
    omega

/-- A work item is enqueued by the `schedule` that has created it. -/
theorem Memory.createdAt_of_enqueue (memory : Memory mode s)
    (thread : s.threads[i]? = some ⟨f, .submit id .enqueue :: rest⟩) :
    createdAt s.items id = 1 := by
  have one := head_le_load (Op.submits id) thread
  have fresh := memory.fresh id
  have bound : createdAt s.items id ≤ 1 := by
    rw [createdAt]
    split <;> omega
  simp only [Op.submits, if_true] at one
  omega

theorem Memory.moves (memory : Memory mode s)
    (thread : s.threads[i]? = some ⟨f, op :: rest⟩)
    (performed : s.perform driver mode i f c op = some (s₁, push))
    (old : ∀ form, op ≠ .allocate form)
    (counted : op.adds = true → s.references < Refcount.capacity mode) : Moves s s₁ op push := by
  refine moves_of_perform performed ?_ ?_ ?_ old
  · rw [memory.count]
    exact counted
  · intro subs
    rw [memory.count]
    exact ⟨memory.references_pos thread (Op.needs_of_subs subs), memory.room⟩
  · rintro id rfl
    exact memory.createdAt_of_enqueue thread

/-- The block is freed when its last reference is given back, and not again. -/
theorem Memory.freed_run (memory : Memory mode s)
    (thread : s.threads[i]? = some ⟨f, op :: rest⟩) (moves : Moves s s₁ op push) :
    s₁.frees + load Op.frees (s.threads.set i ⟨f, push ++ rest⟩) =
      if s₁.allocated = true ∧ s₁.refCount = 0 then 1 else 0 := by
  have count := memory.count
  have freed := memory.freed
  have frees := load_set Op.frees f push thread
  have counts := moves.count
  have movesFrees := moves.frees
  rw [moves.allocated]
  cases gone : op.subs with
  | true =>
      -- the reference given back was there, so the block is, and nobody frees it yet
      have pos := memory.references_pos thread (Op.needs_of_subs gone)
      have born : s.allocated = true := by
        by_contra never
        have none := memory.unborn (by simpa using never)
        omega
      simp only [gone, born, true_and] at movesFrees ⊢
      rw [if_neg (fun last => absurd last.2 (by omega))] at freed
      omega
  | false =>
      have same : s₁.refCount = 0 ↔ s.references = 0 := by
        cases more : op.adds with
        | false =>
            simp only [gone, more, Bool.toNat_false] at counts
            omega
        | true =>
            have pos := memory.references_pos thread (Op.needs_of_adds more)
            simp only [gone, more, Bool.toNat_false, Bool.toNat_true] at counts
            omega
      simp only [gone, Bool.false_eq_true, false_and, if_false] at movesFrees
      simp only [← same] at freed
      omega

/-- Any other operation of a thread. -/
theorem Memory.operation (memory : Memory mode s)
    (thread : s.threads[i]? = some ⟨f, op :: rest⟩)
    (performed : s.perform driver mode i f c op = some (s₁, push))
    (counted : op.adds = true → s.references < Refcount.capacity mode)
    (moves : Moves s s₁ op push) : Memory mode (s₁.moved (s.threads.set i ⟨f, push ++ rest⟩)) := by
  have count := memory.count
  have room := memory.room
  have spawn := memory.spawn
  obtain ⟨covered, borrows⟩ := memory.borrows_run thread performed moves.owners moves.covers
  have balance := moves.balance
  have counts := moves.count
  have movesAllocates := moves.allocates
  have refs := load_set Op.refs f push thread
  have allocates := load_set Op.allocates f push thread
  have count' : s₁.refCount =
      (s₁.moved (s.threads.set i ⟨f, push ++ rest⟩)).references := by
    simp only [State.references, State.moved_live, State.moved_threads, State.moved_items]
      at count ⊢
    omega
  refine ⟨count', ?_, ?_, ?_, ?_, ?_, covered, borrows⟩
  · rw [← count']
    cases more : op.adds with
    | false =>
        simp only [more, Bool.toNat_false] at counts
        omega
    | true =>
        have below := counted more
        simp only [more, Bool.toNat_true] at counts
        omega
  · simp only [State.moved_threads, State.moved_allocated, State.moved_spawned, moves.allocated,
      moves.spawned]
    omega
  · intro new
    rw [State.moved_allocated, moves.allocated] at new
    have none := memory.unborn new
    have noAdd : op.adds = false := by
      cases more : op.adds with
      | false => rfl
      | true =>
          have pos := memory.references_pos thread (Op.needs_of_adds more)
          omega
    simp only [noAdd, Bool.toNat_false] at counts
    omega
  · have freed := memory.freed_run thread moves
    rw [← count']
    exact freed
  · intro id
    have submits := load_set (Op.submits id) f push thread
    have movesSubmits := moves.submits id
    have fresh := memory.fresh id
    simp only [State.moved_threads, State.moved_items]
    omega

theorem Memory.run (memory : Memory mode s) (counted : Counted mode s (.run i c))
    (step : s.step driver mode (.run i c) = some s') : Memory mode s' := by
  obtain ⟨f, op, rest, s₁, push, thread, performed, rfl⟩ := State.step_run step
  by_cases old : ∀ form, op ≠ .allocate form
  · have next : s.next i = some op := by simp [State.next, thread]
    have moves := memory.moves thread performed old (counted op next)
    exact memory.operation thread performed (counted op next) moves
  · simp only [not_forall, not_not] at old
    obtain ⟨form, rfl⟩ := old
    exact memory.allocate thread performed

/-- The callback takes the reference of its work item. -/
theorem Memory.start (memory : Memory mode s) (step : s.step driver mode (.start id) = some s') :
    Memory mode s' := by
  obtain ⟨item, here, queued, rfl⟩ := State.step_start step
  obtain ⟨count, room, spawn, unborn, freed, fresh, covered, borrows⟩ := memory
  have queue := queuedItems_phase .started here
  simp only [queued, reduceCtorEq, if_true, if_false] at queue
  have same : s.references = State.references { s with
      items := s.items.modify id fun item => { item with phase := .started }
      threads := s.threads ++ [⟨.callback id, [.run id .clearScheduled]⟩] } := by
    simp only [State.references, State.live, load_append, load_cons, load_nil, total_cons,
      total_nil, Op.refs, Run.refs]
    omega
  refine ⟨?_, ?_, ?_, ?_, ?_, ?_, ?_, ?_⟩
  · rw [← same]
    exact count
  · rw [← same]
    exact room
  · simpa [Op.allocates] using spawn
  · rw [← same]
    exact unborn
  · rw [← same]
    simpa [Op.frees] using freed
  · intro id'
    rw [createdAt_phase (by simp)]
    simp only [load_append, load_cons, load_nil, total_cons, total_nil, Op.submits, fresh,
      Nat.add_zero]
    split
    · rename_i mine
      subst mine
      simp [createdAt, here, queued]
    · rfl
  · intro t mem source
    rcases List.mem_append.mp mem with old | new
    · exact covered t old source
    · rw [List.mem_singleton.mp new]
      simp [Covered, Op.refs, Run.refs]
  · intro t mem src source running
    rcases List.mem_append.mp mem with old | new
    · exact State.alive_append (borrows t old src source running) rfl rfl
    · rw [List.mem_singleton.mp new] at source
      cases source

/-- What a call takes from its caller it goes on holding. -/
theorem call_refs (callable : s.callable driver f = true) :
    (s.enter f).live + total Op.refs f.code = s.live := by
  have consume : ∀ {k : Nat} {o : Owner}, s.owners[k]? = some (some o) →
      State.live { s with owners := s.owners.set k none } + 1 = s.live := by
    intro k o here
    have swap := total_set (fun o : Option Owner => if o = none then 0 else 1) none here
    simpa [State.live] using swap
  cases f with
  | dropHandle k | wake k | dropWaker k =>
      simp only [State.callable, Bool.and_eq_true, decide_eq_true_eq] at callable
      exact consume callable.1
  | callback id => cases callable
  | _ => rfl

theorem call_accounts (callable : s.callable driver f = true) :
    total Op.frees f.code = 0 ∧ (∀ id, total (Op.submits id) f.code = 0) ∧
      total Op.allocates f.code + s.spawned.toNat = (s.enter f).spawned.toNat := by
  cases f with
  | spawn form =>
      simp only [State.callable, Bool.and_eq_true, Bool.not_eq_true'] at callable
      simp [Call.code, State.enter, callable.1, Op.frees, Op.submits, Op.allocates]
  | callback id => cases callable
  | _ => exact ⟨rfl, fun _ => rfl, Nat.zero_add _⟩

theorem call_covered (borrowless : f.source = none) : Covered Op.needs Op.refs f.code := by
  cases f with
  | spawn | dropHandle | wake | dropWaker | callback =>
      simp [Call.code, Covered, Op.refs, Run.refs, Op.needs]
  | _ => cases borrowless

theorem call_alive {src : Source} (callable : s.callable driver f = true)
    (source : f.source = some src) : s.alive src := by
  have owned : ∀ {k : Nat} {o : Owner}, s.owners[k]? = some (some o) → s.alive (.owner k) :=
    fun here => ⟨_, here⟩
  have waker : ∀ {via : Source}, s.hasWaker via = true → s.alive via := by
    intro via has
    cases via with
    | owner k => exact owned (of_decide_eq_true has)
    | activation j => exact has
  cases f with
  | cancel k | isCancelled k | cloneHandle k =>
      cases source
      exact owned (of_decide_eq_true callable)
  | cloneWaker via | wakeByRef via =>
      cases source
      exact waker callable
  | _ => cases source

theorem enter_of_source {src : Source} (source : f.source = some src) : s.enter f = s := by
  cases f <;> first | rfl | cases source

/-- What a running call borrows is still there after another call was made. -/
theorem alive_enter {src : Source} {t : Thread Call Op} (callable : s.callable driver f = true)
    (mem : t ∈ s.threads) (source : t.tag.source = some src) (running : t.code ≠ [])
    (alive : s.alive src) : (s.enter f).alive src := by
  have consume : ∀ k, s.borrowed (.owner k) = false →
      State.alive { s with owners := s.owners.set k none } src := by
    intro k free
    cases src with
    | activation j => exact alive
    | owner k' =>
        by_cases same : k = k'
        · subst same
          exact absurd (State.not_borrowed free mem source) running
        · obtain ⟨o, here⟩ := alive
          refine ⟨o, ?_⟩
          change (s.owners.set k none)[k']? = _
          rw [List.getElem?_set_ne same]
          exact here
  cases f with
  | dropHandle k | wake k | dropWaker k =>
      simp only [State.callable, Bool.and_eq_true, Bool.not_eq_true'] at callable
      exact consume k callable.2
  | spawn form => cases src <;> exact alive
  | _ => exact alive

theorem Memory.call (memory : Memory mode s) (step : s.step driver mode (.call f) = some s') :
    Memory mode s' := by
  obtain ⟨callable, rfl⟩ := State.step_call step
  obtain ⟨count, room, spawn, unborn, freed, fresh, covered, borrows⟩ := memory
  have refs := call_refs callable
  obtain ⟨noFree, noSubmit, allocates⟩ := call_accounts callable
  have frame : (s.enter f).refCount = s.refCount ∧ (s.enter f).allocated = s.allocated ∧
      (s.enter f).frees = s.frees ∧ (s.enter f).items = s.items ∧
      (s.enter f).threads = s.threads := by
    cases f <;> exact ⟨rfl, rfl, rfl, rfl, rfl⟩
  obtain ⟨refCount, allocated, frees, items, threads⟩ := frame
  have same : s.references =
      State.references { s.enter f with threads := s.threads ++ [⟨f, f.code⟩] } := by
    simp only [State.references, State.live, load_append, load_cons, load_nil, items] at refs ⊢
    omega
  refine ⟨?_, ?_, ?_, ?_, ?_, ?_, ?_, ?_⟩
  · rw [← same]
    exact refCount.trans count
  · rw [← same]
    exact room
  · simp only [load_append, load_cons, load_nil, allocated]
    omega
  · rw [← same]
    simp only [allocated]
    exact unborn
  · rw [← same]
    simp only [load_append, load_cons, load_nil, allocated, frees, noFree]
    exact freed
  · intro id
    simp only [load_append, load_cons, load_nil, noSubmit, items]
    exact fresh id
  · intro t mem source
    rcases List.mem_append.mp mem with old | new
    · exact covered t old source
    · rw [List.mem_singleton.mp new] at source ⊢
      exact call_covered source
  · intro t mem src source running
    rcases List.mem_append.mp mem with old | new
    · have kept := alive_enter callable old source running (borrows t old src source running)
      exact State.alive_append kept rfl (by rw [threads])
    · rw [List.mem_singleton.mp new] at source
      have kept : (s.enter f).alive src := by
        rw [enter_of_source source]
        exact call_alive callable source
      exact State.alive_append kept rfl (by rw [threads])

end Steps

theorem memory_of_reach {driver : Driver} {mode : Hardening} {s : State}
    (reached : (system driver mode).Reach (Counted mode) s) : Memory mode s := by
  refine Sys.Reach.invariant ?_ ?_ reached
  · rintro s rfl
    exact Memory.initial
  · intro s a s' memory counted step
    cases a with
    | run i c => exact memory.run counted step
    | start id =>
        have started : s.step driver mode (.start id) = some s' := step
        exact memory.start started
    | call f =>
        have made : s.step driver mode (.call f) = some s' := step
        exact memory.call made

end Kcom.WorkItem
