import Kcom.Executor.WorkItem.Serving

/-!
# What a work-item task owes

Three counters are moved for a task: its own `ref_count`, the pending count of its
tracker, and the references to its device object. `Charges` says once what an operation
does to the latter two, as `Moves` does for the first. A task has one item pending at
the tracker for each `schedule` between `tracker_begin` and its end, for each work item
in the queue and for each callback that has not called `tracker_complete`
(`State.outstanding`); its context is retained when it is set and released by the
operation after the one that frees the block.
-/

namespace Kcom.WorkItem

open Conc

/-! ## The references of a task, holder by holder -/

/-- The references that a pending operation holds for `h`. -/
def Op.holds : Op → Holder → Nat
  | .setContext _, .spawner => 1
  | .newHandle, .spawner => 1
  | .endSpawn, .handle => 1
  | .subRef holder, h => if holder = h then 1 else 0
  | .run _ op, .waker => op.refs - 1
  | .run _ _, .callback => 1
  | _, _ => 0

/-- A `schedule` between its `add_ref` and its `enqueue_work_item`. -/
def Op.enqueues : Op → Nat
  | .submit _ .enqueue => 1
  | _ => 0

theorem Op.refs_eq (op : Op) : op.refs =
    op.holds .spawner + op.holds .handle + op.holds .waker + op.holds .callback + op.enqueues := by
  cases op with
  | subRef holder => cases holder <;> rfl
  | submit id op => cases op <;> rfl
  | run id op =>
      have pos := op.refs_pos
      simp only [Op.refs, Op.holds, Op.enqueues]
      omega
  | _ => rfl

namespace State

/-- The references that pending operations hold for `h`. -/
def held (s : State) (h : Holder) : Nat :=
  load (fun op => op.holds h) s.threads

/-- Live handles: those of clients, one being returned by its spawn function, and those
whose drop has not yet released. -/
def handles (s : State) : Nat :=
  s.owners.count (some .handle) + s.held .handle

/-- Live wakers: those of clients, the local wakers of callbacks, and those whose drop or
`wake` has not yet released. -/
def wakers (s : State) : Nat :=
  s.owners.count (some .waker) + s.held .waker

theorem live_eq_count (s : State) :
    s.live = s.owners.count (some .handle) + s.owners.count (some .waker) := by
  simp only [live]
  induction s.owners with
  | nil => rfl
  | cons o owners ih =>
      rw [total_cons, ih]
      rcases o with _ | _ | _ <;> simp <;> omega

theorem references_eq (s : State) : s.references =
    s.held .spawner + s.handles + s.wakers + load Op.enqueues s.threads + queuedItems s.items +
      s.held .callback := by
  have split : load Op.refs s.threads =
      s.held .spawner + s.held .handle + s.held .waker + s.held .callback +
        load Op.enqueues s.threads := by
    rw [funext Op.refs_eq]
    simp only [load_add, held]
  rw [references, split, live_eq_count, handles, wakers]
  omega

end State

/-! ## What an operation does to the context and to the tracker -/

/-- The context is about to be set, and retained. -/
def Op.sets : Op → Nat
  | .setContext _ => 1
  | _ => 0

/-- The context is about to be released. -/
def Op.returns : Op → Nat
  | .releaseContext => 1
  | _ => 0

/-- An item is about to be counted in. -/
def Op.begins : Op → Nat
  | .trackerBegin => 1
  | _ => 0

/-- The operation belongs to an item that is counted in once its `tracker_begin` is done:
the rest of a `schedule`, or a callback up to its `tracker_complete`. -/
def Op.pends : Op → Nat
  | .contextIsValid => 1
  | .createWorkItem => 1
  | .submit _ _ => 1
  | .abandon => 1
  | .trackerComplete => 1
  | .run _ _ => 1
  | _ => 0

/-- An item is about to be counted out. -/
def Op.completes : Op → Nat
  | .trackerComplete => 1
  | _ => 0

/-- The operation is a call of the tracker. -/
def Op.tracks : Op → Nat
  | .trackerBegin => 1
  | .trackerComplete => 1
  | _ => 0

theorem Op.tracks_eq (op : Op) : op.tracks = op.begins + op.completes := by
  cases op <;> rfl

/-- The operation comes after the context is set. -/
def Op.later : Op → Nat
  | .checkContext _ => 0
  | .allocate _ => 0
  | .setContext _ => 0
  | _ => 1

/-- An item is counted in by the first operation of a thread or by none. -/
def Begun (code : List Op) : Prop :=
  .trackerBegin ∉ code ∨
    ∃ rest, code = .trackerBegin :: .contextIsValid :: rest ∧ .trackerBegin ∉ rest

/-- The items of a thread that are counted in. -/
def counted (t : Thread Call Op) : Nat :=
  total Op.pends t.code - total Op.begins t.code

/-- **What a task has pending at its tracker**: `schedule` calls between `tracker_begin`
and the enqueueing or the `tracker_complete` of their failure, work items in the queue, and
callbacks that have not called `tracker_complete`. -/
def State.outstanding (s : State) : Nat :=
  if s.tracked = true then total counted s.threads + queuedItems s.items else 0

theorem absent_of_tracks {code : List Op} (none : total Op.tracks code = 0) :
    .trackerBegin ∉ code := by
  intro member
  have one := le_total_of_mem Op.tracks member
  rw [none] at one
  cases one

theorem begins_of_absent {code : List Op} (absent : .trackerBegin ∉ code) :
    total Op.begins code = 0 := by
  apply total_eq_zero.mpr
  intro op member
  cases op with
  | trackerBegin => exact absurd member absent
  | _ => rfl

theorem Begun.begins_le {code : List Op} (begun : Begun code) :
    total Op.begins code ≤ total Op.pends code := by
  rcases begun with absent | ⟨rest, rfl, absent⟩
  · rw [begins_of_absent absent]
    exact Nat.zero_le _
  · simp only [total_cons, begins_of_absent absent, Op.begins, Op.pends]
    omega

theorem total_counted {threads : List (Thread Call Op)} (begun : ∀ t ∈ threads, Begun t.code) :
    total counted threads + load Op.begins threads = load Op.pends threads := by
  induction threads with
  | nil => rfl
  | cons t threads ih =>
      have rest := ih fun t' member => begun t' (List.mem_cons_of_mem _ member)
      have here := (begun t List.mem_cons_self).begins_le
      simp only [total_cons, load_cons, counted]
      omega

theorem Begun.tail {op : Op} {rest : List Op} (begun : Begun (op :: rest)) :
    .trackerBegin ∉ rest := by
  rcases begun with absent | ⟨rest', same, absent⟩
  · exact fun member => absent (List.mem_cons_of_mem _ member)
  · cases same
    simpa using absent

section Perform

variable {driver : Driver} {mode : Hardening} {s s₁ : State} {i : Nat} {c : Choice} {f : Call}
  {op : Op} {push : List Op}

/-- What an operation after the context was set does to the context and to the items
pending at the tracker. -/
structure Charges (s s₁ : State) (op : Op) (push : List Op) : Prop where
  contextValid : s₁.contextValid = s.contextValid
  tracked : s₁.tracked = s.tracked
  allocated : s₁.allocated = s.allocated
  retains : s₁.retains = s.retains
  sets : total Op.sets push = 0
  released : s₁.releases + total Op.returns push + s.frees = s.releases + op.returns + s₁.frees
  begins : s₁.begins = s.begins + op.begins
  completes : s₁.completes = s.completes + op.completes
  pending : s.tracked = true →
    total Op.begins push + op.pends + queuedItems s.items =
      op.completes + total Op.pends push + queuedItems s₁.items
  untracked : s.tracked = false → total Op.tracks push = 0
  begun : .trackerBegin ∉ push ∨ push = [.trackerBegin, .contextIsValid]

/-- What `Charges` compares of two states. -/
def State.ledger (s : State) : Bool × Bool × Bool × Nat × Nat × Nat × Nat × Nat :=
  (s.contextValid, s.tracked, s.allocated, s.retains, s.releases, s.frees, s.begins, s.completes)

/-- An operation that leaves the ledger and the queue alone, and code that stands for as
many items as the operation it replaces. -/
theorem Charges.of_ledger (ledger : s₁.ledger = s.ledger)
    (items : queuedItems s₁.items = queuedItems s.items) (sets : total Op.sets push = 0)
    (returns : total Op.returns push = op.returns) (calls : op.tracks = 0)
    (pends : s.tracked = true → total Op.begins push + op.pends = total Op.pends push)
    (tracks : s.tracked = false → total Op.tracks push = 0)
    (begun : .trackerBegin ∉ push ∨ push = [.trackerBegin, .contextIsValid]) :
    Charges s s₁ op push := by
  simp only [State.ledger, Prod.mk.injEq] at ledger
  obtain ⟨valid, tracked, allocated, retains, releases, frees, begins, completes⟩ := ledger
  rw [Op.tracks_eq] at calls
  refine ⟨valid, tracked, allocated, retains, sets, ?_, ?_, ?_, ?_, tracks, begun⟩
  · rw [releases, frees, returns]
  · omega
  · omega
  · intro on
    have same := pends on
    omega

/-- Code without a call of the tracker, in place of an operation that is none. -/
theorem Charges.of_quiet (ledger : s₁.ledger = s.ledger)
    (items : queuedItems s₁.items = queuedItems s.items) (sets : total Op.sets push = 0)
    (returns : total Op.returns push = op.returns) (calls : op.tracks = 0)
    (pends : op.pends = total Op.pends push) (tracks : total Op.tracks push = 0) :
    Charges s s₁ op push := by
  have absent := absent_of_tracks tracks
  refine .of_ledger ledger items sets returns calls ?_ (fun _ => tracks) (.inl absent)
  intro _
  rw [begins_of_absent absent, Nat.zero_add]
  exact pends

/-- A step of a callback that goes on with its next step. -/
theorem Charges.of_run {op op' : Run} {id : Nat} (ledger : s₁.ledger = s.ledger)
    (items : s₁.items = s.items) : Charges s s₁ (.run id op) [.run id op'] :=
  .of_quiet ledger (by rw [items]) rfl rfl rfl rfl rfl

theorem Charges.afterPoll {op : Run} {id : Nat} {waker : Bool} (ledger : s₁.ledger = s.ledger)
    (items : s₁.items = s.items) : Charges s s₁ (.run id op) (State.afterPoll id waker) := by
  cases waker <;> exact .of_quiet ledger (by rw [items]) rfl rfl rfl rfl rfl

/-- The end of a callback, and that of a `schedule` that fails: `tracker_complete` where
there is a tracker. -/
theorem Charges.leave {front back : List Op} (ledger : s₁.ledger = s.ledger)
    (items : s₁.items = s.items) (pends : op.pends = 1) (calls : op.tracks = 0)
    (returns : op.returns = 0)
    (plain : ∀ op' ∈ front ++ back, op'.pends = 0 ∧ op'.tracks = 0 ∧ op'.sets = 0 ∧
      op'.returns = 0) : Charges s s₁ op (front ++ s.complete ++ back) := by
  have free : ∀ w : Op → Nat, (∀ op' ∈ front ++ back, w op' = 0) →
      total w (front ++ s.complete ++ back) = total w s.complete := by
    intro w weightless
    have front' : total w front = 0 :=
      total_eq_zero.mpr fun op member => weightless op (List.mem_append_left _ member)
    have back' : total w back = 0 :=
      total_eq_zero.mpr fun op member => weightless op (List.mem_append_right _ member)
    rw [total_append, total_append, front', back', Nat.zero_add, Nat.add_zero]
  have absent : .trackerBegin ∉ front ++ s.complete ++ back := by
    intro member
    rcases List.mem_append.mp member with member | last
    · rcases List.mem_append.mp member with first | complete
      · have none := (plain _ (List.mem_append_left _ first)).2.1
        cases none
      · unfold State.complete at complete
        split at complete <;> simp at complete
    · have none := (plain _ (List.mem_append_right _ last)).2.1
      cases none
  refine .of_ledger ledger (by rw [items]) ?_ ?_ calls ?_ ?_ (.inl absent)
  · rw [free _ fun op member => (plain op member).2.2.1]
    unfold State.complete
    split <;> rfl
  · rw [free _ fun op member => (plain op member).2.2.2, returns]
    unfold State.complete
    split <;> rfl
  · intro on
    rw [begins_of_absent absent, pends, free _ fun op member => (plain op member).1]
    simp [State.complete, on, Op.pends]
  · intro off
    rw [free _ fun op member => (plain op member).2.1]
    simp [State.complete, off]

theorem charges_of_performSubmit {id : Nat} {op : Submit}
    (performed : s.performSubmit mode id op = some (s₁, push))
    (created : op = .enqueue → createdAt s.items id = 1) :
    Charges s s₁ (.submit id op) push := by
  cases op with
  | storeWorkItem =>
      cases performed
      exact .of_quiet rfl rfl rfl rfl rfl rfl rfl
  | addRef =>
      simp only [State.performSubmit, Option.map_eq_some_iff] at performed
      obtain ⟨_, -, performed⟩ := performed
      cases performed
      exact .of_quiet rfl rfl rfl rfl rfl rfl rfl
  | enqueue =>
      cases performed
      have balance := (Moves.enqueue (created rfl)).balance
      simp only [State.live, Op.refs, total_nil] at balance
      refine ⟨rfl, rfl, rfl, rfl, rfl, rfl, rfl, rfl, ?_, fun _ => rfl, .inl (by simp)⟩
      intro _
      simp only [total_nil, Op.pends, Op.completes]
      omega

theorem charges_of_performRun {id : Nat} {op : Run}
    (performed : s.performRun driver mode i c id op = some (s₁, push)) :
    Charges s s₁ (.run id op) push := by
  cases op with
  | clearScheduled | pollStart | storeCompleted | dropFuture =>
      cases performed
      exact .of_run rfl rfl
  | checkCompleted =>
      cases performed
      split
      · have charges : Charges s s (.run id .checkCompleted)
            ([] ++ s.complete ++ [.subRef .callback]) :=
          .leave rfl rfl rfl rfl rfl (by simp [Op.pends, Op.tracks, Op.sets, Op.returns])
        exact charges
      · exact .of_run rfl rfl
  | loadCancel =>
      cases performed
      split <;> exact .of_run rfl rfl
  | rawWaker =>
      simp only [State.performRun, Option.map_eq_some_iff] at performed
      obtain ⟨_, -, performed⟩ := performed
      cases performed
      exact .of_run rfl rfl
  | polling =>
      simp only [State.performRun] at performed
      split at performed
      · cases performed
      · split at performed <;> cases performed
        · exact .of_run rfl rfl
        · exact .afterPoll rfl rfl
  | dropping waker =>
      cases performed
      exact .afterPoll rfl rfl
  | swapWorkItem =>
      cases performed
      refine .leave rfl rfl rfl rfl rfl ?_
      intro op member
      split at member <;> simp only [List.nil_append, List.cons_append, List.mem_cons,
        List.not_mem_nil, or_false] at member
      · rcases member with rfl | rfl <;> exact ⟨rfl, rfl, rfl, rfl⟩
      · rw [member]
        exact ⟨rfl, rfl, rfl, rfl⟩

/-- Every operation after the context was set. -/
theorem charges_of_perform (performed : s.perform driver mode i f c op = some (s₁, push))
    (later : op.later = 1) (created : ∀ id, op = .submit id .enqueue → createdAt s.items id = 1)
    (valid : op = .free → s.contextValid = true) : Charges s s₁ op push := by
  cases op with
  | checkContext | allocate | setContext => cases later
  | newHandle | addHandle | cloneRaw =>
      simp only [State.perform, Option.map_eq_some_iff] at performed
      obtain ⟨_, -, performed⟩ := performed
      cases performed
      exact .of_quiet rfl rfl rfl rfl rfl rfl rfl
  | endSpawn | casCancel =>
      simp only [State.perform] at performed
      split at performed <;> cases performed <;> exact .of_quiet rfl rfl rfl rfl rfl rfl rfl
  | loadCompleted | contextIsValid =>
      cases performed
      split <;> exact .of_quiet rfl rfl rfl rfl rfl rfl rfl
  | casScheduled =>
      simp only [State.perform] at performed
      split at performed <;> cases performed
      · exact .of_quiet rfl rfl rfl rfl rfl rfl rfl
      · by_cases tracked : s.tracked = true
        · rw [if_pos tracked]
          refine .of_ledger rfl rfl rfl rfl rfl (fun _ => rfl) ?_ (.inr rfl)
          rw [tracked]
          intro off
          cases off
        · rw [if_neg tracked]
          exact .of_ledger rfl rfl rfl rfl rfl (absurd · tracked) (fun _ => rfl) (.inl (by simp))
  | trackerBegin =>
      cases performed
      exact ⟨rfl, rfl, rfl, rfl, rfl, rfl, rfl, rfl, fun _ => rfl, fun _ => rfl, .inl (by simp)⟩
  | trackerComplete =>
      cases performed
      refine ⟨rfl, rfl, rfl, rfl, rfl, rfl, rfl, rfl, ?_, fun _ => rfl, .inl (by simp)⟩
      exact fun _ => Nat.add_right_cancel_iff.mpr rfl
  | createWorkItem =>
      simp only [State.perform] at performed
      split at performed <;> cases performed
      · exact .of_quiet rfl rfl rfl rfl rfl rfl rfl
      · exact .of_quiet rfl (by simp [queuedItems]) rfl rfl rfl rfl rfl
  | submit id op =>
      exact charges_of_performSubmit performed fun enqueue => created id (enqueue ▸ rfl)
  | abandon =>
      cases performed
      have charges (failed : Bool) : Charges s { s with scheduled := false, spawnFailed := failed }
          .abandon ([] ++ s.complete ++ []) := .leave rfl rfl rfl rfl rfl (by simp)
      simp only [List.nil_append, List.append_nil] at charges
      exact charges _
  | subRef h =>
      simp only [State.perform, Option.map_eq_some_iff] at performed
      obtain ⟨_, -, performed⟩ := performed
      cases performed
      split <;> exact .of_quiet rfl rfl rfl rfl rfl rfl rfl
  | free =>
      cases performed
      rw [if_pos (valid rfl)]
      refine ⟨rfl, rfl, rfl, rfl, rfl, ?_, rfl, rfl, fun _ => rfl, fun _ => rfl, .inl (by simp)⟩
      simp only [total_cons, total_nil, Op.returns]
      omega
  | releaseContext =>
      cases performed
      exact ⟨rfl, rfl, rfl, rfl, rfl, rfl, rfl, rfl, fun _ => rfl, fun _ => rfl, .inl (by simp)⟩
  | loadCancelled =>
      cases performed
      exact .of_quiet rfl rfl rfl rfl rfl rfl rfl
  | deleteWorkItem id =>
      cases performed
      exact .of_quiet rfl queuedItems_delete rfl rfl rfl rfl rfl
  | run id op => exact charges_of_performRun performed

end Perform

/-! ## The ledger of a task -/

/-- What holds of the context and of the pending items in every state reached. -/
structure Ledger (s : State) : Prop where
  /-- Until the context is set there is only the spawn function. -/
  fresh : s.contextValid = false → s.owners = [] ∧
    queuedItems s.items + load Op.later s.threads + s.begins + s.completes = 0
  context : s.contextValid.toNat + load Op.sets s.threads = s.allocated.toNat
  retained : s.retains = s.contextValid.toNat
  released : s.releases + load Op.returns s.threads = s.frees
  begun : ∀ t ∈ s.threads, Begun t.code
  pending : s.tracked = true →
    s.begins + load Op.begins s.threads =
      s.completes + load Op.pends s.threads + queuedItems s.items
  untracked : s.tracked = false → s.begins + s.completes + load Op.tracks s.threads = 0

theorem Ledger.initial : Ledger initial :=
  ⟨fun _ => ⟨rfl, rfl⟩, rfl, rfl, rfl, nofun, nofun, fun _ => rfl⟩

/-- Every item counted in is counted out or is pending. -/
theorem Ledger.begins_eq {s : State} (ledger : Ledger s) :
    s.begins = s.completes + s.outstanding := by
  have parts := total_counted ledger.begun
  unfold State.outstanding
  split
  · next tracked =>
      have pending := ledger.pending tracked
      omega
  · next untracked =>
      have none := ledger.untracked (by simpa using untracked)
      omega

section Steps

variable {driver : Driver} {mode : Hardening} {s s' s₁ : State} {i id : Nat} {c : Choice}
  {f : Call} {op : Op} {push rest : List Op}

/-- Until the context is set the spawn function comes to the point where it is; the
allocation is the only step that changes anything. -/
theorem early_cases (performed : s.perform driver mode i f c op = some (s₁, push))
    (early : op.later = 0) (new : ∀ form, op = .allocate form → s.allocated = false) :
    (∃ count born, s₁ = { s with refCount := count, allocated := born } ∧
      total Op.later push = 0 ∧ total Op.sets push + s.allocated.toNat = op.sets + born.toNat) ∨
      ∃ form, op = .setContext form ∧ s₁ = { s with
        retains := s.retains + 1
        contextValid := true
        tracked := form.hasTracker } ∧
        total Op.sets push = 0 ∧ total Op.begins push = 0 ∧ total Op.pends push = 0 ∧
        total Op.tracks push = 0 ∧ total Op.returns push = 0 := by
  cases op with
  | checkContext form =>
      cases performed
      left
      refine ⟨s.refCount, s.allocated, rfl, ?_⟩
      split <;> exact ⟨rfl, rfl⟩
  | allocate form =>
      have unborn := new form rfl
      left
      rcases allocate_cases performed with ⟨rfl, rfl⟩ | ⟨rfl, rfl⟩
      · exact ⟨s₁.refCount, s₁.allocated, rfl, rfl, rfl⟩
      · refine ⟨1, true, rfl, rfl, ?_⟩
        rw [unborn]
        rfl
  | setContext form =>
      cases performed
      refine .inr ⟨form, rfl, rfl, ?_⟩
      split <;> exact ⟨rfl, rfl, rfl, rfl, rfl⟩
  | _ => cases early

/-- An operation after the context was set finds it set. -/
theorem Ledger.valid_of_later (ledger : Ledger s)
    (thread : s.threads[i]? = some ⟨f, op :: rest⟩) (later : op.later = 1) :
    s.contextValid = true := by
  have here := head_le_load Op.later thread
  by_contra unset
  have fresh := (ledger.fresh (by simpa using unset)).2
  omega

theorem Ledger.begun_run (ledger : Ledger s) (thread : s.threads[i]? = some ⟨f, op :: rest⟩)
    (begun : .trackerBegin ∉ push ∨ push = [.trackerBegin, .contextIsValid]) :
    ∀ t ∈ s.threads.set i ⟨f, push ++ rest⟩, Begun t.code := by
  intro t member
  rcases List.mem_or_eq_of_mem_set member with before | rfl
  · exact ledger.begun t before
  · have tail := (ledger.begun _ (List.mem_of_getElem? thread)).tail
    rcases begun with absent | rfl
    · left
      simp [absent, tail]
    · exact .inr ⟨rest, rfl, tail⟩

theorem absent_of_later (early : total Op.later push = 0) : .trackerBegin ∉ push := by
  intro member
  have one := le_total_of_mem Op.later member
  rw [early] at one
  cases one

theorem Op.le_later (op : Op) : op.begins ≤ op.later ∧ op.pends ≤ op.later ∧
    op.tracks ≤ op.later ∧ op.returns ≤ op.later := by
  cases op <;> simp [Op.begins, Op.pends, Op.tracks, Op.returns, Op.later]

/-- Where nothing comes after the setting of the context, nothing is counted in or out. -/
theorem total_early {code : List Op} (early : total Op.later code = 0) :
    total Op.begins code = 0 ∧ total Op.pends code = 0 ∧ total Op.tracks code = 0 ∧
      total Op.returns code = 0 := by
  have below : ∀ {w : Op → Nat}, (∀ op, w op ≤ op.later) → total w code = 0 := by
    intro w le
    have mono := total_mono (l := code) fun op _ => le op
    omega
  exact ⟨below fun op => op.le_later.1, below fun op => op.le_later.2.1,
    below fun op => op.le_later.2.2.1, below fun op => op.le_later.2.2.2⟩

theorem load_early {threads : List (Thread Call Op)} (early : load Op.later threads = 0) :
    load Op.begins threads = 0 ∧ load Op.pends threads = 0 ∧ load Op.tracks threads = 0 := by
  have below : ∀ {w : Op → Nat}, (∀ op, w op ≤ op.later) → load w threads = 0 := by
    intro w le
    have mono : load w threads ≤ load Op.later threads := load_mono le
    omega
  exact ⟨below fun op => op.le_later.1, below fun op => op.le_later.2.1,
    below fun op => op.le_later.2.2.1⟩

/-- An operation after the context was set. -/
theorem Ledger.later (ledger : Ledger s) (thread : s.threads[i]? = some ⟨f, op :: rest⟩)
    (valid : s.contextValid = true) (sets : op.sets = 0) (charges : Charges s s₁ op push) :
    Ledger (s₁.moved (s.threads.set i ⟨f, push ++ rest⟩)) := by
  obtain ⟨contextValid, tracked, allocated, retains, noSets, released, began, completed, pending,
    untracked, begun⟩ := charges
  have settings := load_set Op.sets f push thread
  have returns := load_set Op.returns f push thread
  have begins := load_set Op.begins f push thread
  have pends := load_set Op.pends f push thread
  have tracks := load_set Op.tracks f push thread
  have calls := op.tracks_eq
  have context := ledger.context
  have before := ledger.released
  refine ⟨?_, ?_, ?_, ?_, ledger.begun_run thread begun, ?_, ?_⟩
  · intro unset
    rw [State.moved_contextValid, contextValid, valid] at unset
    cases unset
  · rw [State.moved_contextValid, State.moved_threads, State.moved_allocated, contextValid,
      allocated]
    omega
  · rw [State.moved_retains, State.moved_contextValid, retains, contextValid]
    exact ledger.retained
  · rw [State.moved_releases, State.moved_threads, State.moved_frees]
    omega
  · intro on
    rw [State.moved_tracked, tracked] at on
    have balance := ledger.pending on
    have change := pending on
    rw [State.moved_begins, State.moved_completes, State.moved_threads, State.moved_items]
    omega
  · intro off
    rw [State.moved_tracked, tracked] at off
    have none := ledger.untracked off
    have change := untracked off
    rw [State.moved_begins, State.moved_completes, State.moved_threads]
    omega

/-- The spawn function before it sets the context. -/
theorem Ledger.before {count : Nat} {born : Bool} (ledger : Ledger s)
    (thread : s.threads[i]? = some ⟨f, op :: rest⟩) (early : op.later = 0)
    (nothing : total Op.later push = 0)
    (sets : total Op.sets push + s.allocated.toNat = op.sets + born.toNat) :
    Ledger (State.moved { s with refCount := count, allocated := born }
      (s.threads.set i ⟨f, push ++ rest⟩)) := by
  have begun := ledger.begun_run thread (.inl (absent_of_later nothing))
  obtain ⟨fresh, context, retained, released, -, pending, untracked⟩ := ledger
  have settings := load_set Op.sets f push thread
  have laters := load_set Op.later f push thread
  have returns := load_set Op.returns f push thread
  have begins := load_set Op.begins f push thread
  have pends := load_set Op.pends f push thread
  have tracks := load_set Op.tracks f push thread
  have below := op.le_later
  obtain ⟨noBegins, noPends, noTracks, noReturns⟩ := total_early nothing
  refine ⟨?_, ?_, retained, ?_, begun, ?_, ?_⟩
  · intro unset
    obtain ⟨owners, empty⟩ := fresh unset
    refine ⟨owners, ?_⟩
    simp only [State.moved_items, State.moved_threads, State.moved_begins, State.moved_completes]
    omega
  · simp only [State.moved_contextValid, State.moved_threads, State.moved_allocated]
    omega
  · simp only [State.moved_releases, State.moved_threads, State.moved_frees]
    omega
  · intro on
    have balance := pending on
    simp only [State.moved_begins, State.moved_completes, State.moved_threads, State.moved_items]
    omega
  · intro off
    have zero := untracked off
    simp only [State.moved_begins, State.moved_completes, State.moved_threads]
    omega

/-- The context is set, and with it the tracker: nothing was counted in before. -/
theorem Ledger.setContext {form : Spawn} (ledger : Ledger s)
    (thread : s.threads[i]? = some ⟨f, .setContext form :: rest⟩)
    (sets : total Op.sets push = 0) (noBegins : total Op.begins push = 0)
    (noPends : total Op.pends push = 0) (noTracks : total Op.tracks push = 0)
    (noReturns : total Op.returns push = 0) :
    Ledger (State.moved { s with
      retains := s.retains + 1
      contextValid := true
      tracked := form.hasTracker } (s.threads.set i ⟨f, push ++ rest⟩)) := by
  have absent : .trackerBegin ∉ push := by
    intro member
    have one := le_total_of_mem Op.begins member
    rw [noBegins] at one
    cases one
  have begun := ledger.begun_run thread (.inl absent)
  obtain ⟨fresh, context, retained, released, -, -, -⟩ := ledger
  have here := head_le_load Op.sets thread
  have atMost : s.allocated.toNat ≤ 1 := Bool.toNat_le _
  simp only [Op.sets] at here
  have unset : s.contextValid = false := by
    by_contra set
    rw [Bool.not_eq_false] at set
    rw [set, Bool.toNat_true] at context
    omega
  obtain ⟨-, empty⟩ := fresh unset
  have before : load Op.later s.threads = 0 := by omega
  obtain ⟨noBegin, noPend, noTrack⟩ := load_early before
  rw [unset, Bool.toNat_false] at context retained
  have settings := load_set Op.sets f push thread
  have returns := load_set Op.returns f push thread
  have begins := load_set Op.begins f push thread
  have pends := load_set Op.pends f push thread
  have tracks := load_set Op.tracks f push thread
  simp only [Op.sets, Op.begins, Op.pends, Op.tracks, Op.returns]
    at settings returns begins pends tracks
  refine ⟨?_, ?_, ?_, ?_, begun, ?_, ?_⟩
  · intro set
    cases set
  · simp only [State.moved_contextValid, State.moved_threads, State.moved_allocated,
      Bool.toNat_true]
    omega
  · simp only [State.moved_retains, State.moved_contextValid, retained, Bool.toNat_true]
  · simp only [State.moved_releases, State.moved_threads, State.moved_frees]
    omega
  · intro _
    simp only [State.moved_begins, State.moved_completes, State.moved_threads, State.moved_items]
    omega
  · intro _
    simp only [State.moved_begins, State.moved_completes, State.moved_threads]
    omega

/-- The spawn function before the context is set, and any operation afterwards. -/
theorem Ledger.cases (ledger : Ledger s) (memory : Memory mode s)
    (thread : s.threads[i]? = some ⟨f, op :: rest⟩)
    (performed : s.perform driver mode i f c op = some (s₁, push)) :
    (s.contextValid = true ∧ op.sets = 0 ∧ Charges s s₁ op push) ∨
      (op.later = 0 ∧ s₁.begins = s.begins ∧ s₁.completes = s.completes ∧
        Ledger (s₁.moved (s.threads.set i ⟨f, push ++ rest⟩))) := by
  by_cases later : op.later = 1
  · have valid := ledger.valid_of_later thread later
    have sets : op.sets = 0 := by cases op <;> first | rfl | cases later
    have charges : Charges s s₁ op push := by
      refine charges_of_perform performed later ?_ fun _ => valid
      rintro id rfl
      exact memory.createdAt_of_enqueue thread
    exact .inl ⟨valid, sets, charges⟩
  · have early : op.later = 0 := by cases op <;> first | rfl | exact absurd rfl later
    have new : ∀ form, op = .allocate form → s.allocated = false := by
      rintro form rfl
      exact memory.unallocated thread rfl
    rcases early_cases performed early new with
      ⟨count, born, rfl, nothing, sets⟩ | ⟨form, rfl, rfl, sets, begins, pends, tracks, returns⟩
    · exact .inr ⟨early, rfl, rfl, ledger.before thread early nothing sets⟩
    · exact .inr ⟨early, rfl, rfl,
        ledger.setContext thread sets begins pends tracks returns⟩

/-- What a step tells the tracker. -/
theorem Ledger.tracker (ledger : Ledger s) (memory : Memory mode s)
    (thread : s.threads[i]? = some ⟨f, op :: rest⟩)
    (performed : s.perform driver mode i f c op = some (s₁, push)) :
    s₁.begins = s.begins + op.begins ∧ s₁.completes = s.completes + op.completes := by
  rcases ledger.cases memory thread performed with
    ⟨-, -, charges⟩ | ⟨early, begins, completes, -⟩
  · exact ⟨charges.begins, charges.completes⟩
  · have none : op.begins = 0 ∧ op.completes = 0 := by
      cases op <;> first | exact ⟨rfl, rfl⟩ | cases early
    rw [none.1, none.2]
    exact ⟨begins, completes⟩

theorem Ledger.run (ledger : Ledger s) (memory : Memory mode s)
    (step : s.step driver mode (.run i c) = some s') : Ledger s' := by
  obtain ⟨f, op, rest, s₁, push, thread, performed, rfl⟩ := State.step_run step
  rcases ledger.cases memory thread performed with ⟨valid, sets, charges⟩ | ⟨-, -, -, kept⟩
  · exact ledger.later thread valid sets charges
  · exact kept

/-- The callback takes over the item of its work item. -/
theorem Ledger.start (ledger : Ledger s) (step : s.step driver mode (.start id) = some s') :
    Ledger s' := by
  obtain ⟨item, here, queued, rfl⟩ := State.step_start step
  obtain ⟨fresh, context, retained, released, begun, pending, untracked⟩ := ledger
  have queue := queuedItems_phase .started here
  have some := le_total (fun item : Item => if item.phase = .queued then 1 else 0) here
  simp only [queued, if_true, reduceCtorEq, if_false] at queue some
  change 1 ≤ queuedItems s.items at some
  refine ⟨?_, ?_, retained, ?_, ?_, ?_, ?_⟩
  · intro unset
    have none := (fresh unset).2
    omega
  · simpa [Op.sets] using context
  · simpa [Op.returns] using released
  · intro t member
    rcases List.mem_append.mp member with before | new
    · exact begun t before
    · rw [List.mem_singleton.mp new]
      left
      simp
  · intro on
    have balance := pending on
    simp only [load_append, load_cons, load_nil, total_cons, total_nil, Op.begins, Op.pends]
    omega
  · intro off
    simpa [Op.tracks] using untracked off

/-- What a call does first is no call of the tracker, and before the context is set it is
the spawn function. -/
theorem Ledger.call (ledger : Ledger s) (step : s.step driver mode (.call f) = some s') :
    Ledger s' := by
  obtain ⟨callable, rfl⟩ := State.step_call step
  obtain ⟨fresh, context, retained, released, begun, pending, untracked⟩ := ledger
  have weights : total Op.sets f.code = 0 ∧ total Op.returns f.code = 0 ∧
      total Op.begins f.code = 0 ∧ total Op.pends f.code = 0 ∧ total Op.tracks f.code = 0 := by
    cases f with
    | callback id => cases callable
    | _ => exact ⟨rfl, rfl, rfl, rfl, rfl⟩
  obtain ⟨sets, returns, begins, pends, tracks⟩ := weights
  have frame : (s.enter f).ledger = s.ledger ∧ (s.enter f).items = s.items := by
    cases f <;> exact ⟨rfl, rfl⟩
  obtain ⟨same, items⟩ := frame
  simp only [State.ledger, Prod.mk.injEq] at same
  obtain ⟨valid, tracked, allocated, retains, releases, frees, began, completed⟩ := same
  refine ⟨?_, ?_, ?_, ?_, ?_, ?_, ?_⟩
  · simp only [valid, items, began, completed, load_append, load_cons, load_nil]
    intro unset
    obtain ⟨owners, none⟩ := fresh unset
    rcases callable_cases callable with ⟨form, rfl, -⟩ | owned | ⟨j, polls⟩
    · exact ⟨owners, none⟩
    · exact absurd owners owned
    · obtain ⟨g, id, rest, thread⟩ := State.polling_of_pollingAt polls
      have one := head_le_load Op.later thread
      simp only [Op.later] at one
      omega
  · simp only [valid, allocated, load_append, load_cons, load_nil, sets]
    exact context
  · simp only [retains, valid]
    exact retained
  · simp only [releases, frees, load_append, load_cons, load_nil, returns]
    exact released
  · intro t member
    rcases List.mem_append.mp member with before | new
    · exact begun t before
    · rw [List.mem_singleton.mp new]
      left
      intro here
      have one := le_total_of_mem Op.begins here
      rw [begins] at one
      cases one
  · simp only [tracked, items, began, completed, load_append, load_cons, load_nil, begins, pends]
    exact pending
  · simp only [tracked, began, completed, load_append, load_cons, load_nil, tracks]
    exact untracked

end Steps

theorem ledger_of_reach {driver : Driver} {mode : Hardening} {s : State}
    (reached : (system driver mode).Reach (Counted mode) s) : Ledger s := by
  induction reached with
  | start first =>
      rw [show _ = initial from first]
      exact Ledger.initial
  | @step s s' a reached counted step ledger =>
      cases a with
      | run i c => exact ledger.run (memory_of_reach reached) step
      | start id =>
          have started : s.step driver mode (.start id) = some s' := step
          exact ledger.start started
      | call f =>
          have made : s.step driver mode (.call f) = some s' := step
          exact ledger.call made

/-! ## What the counters of one task promise -/

section Promises

variable {driver : Driver} {mode : Hardening} {s s' : State}

/-- The step `a` reads or writes the block of the task. -/
def Touches (s : State) : State.Label → Prop
  | .run i _ => ∃ op, s.next i = some op ∧ (op.needs = true ∨ op = .free)
  | _ => False

/-- Nobody has anything left to do with the task. -/
def Over (s : State) : Prop :=
  (∀ t ∈ s.threads, t.code = []) ∧ s.live = 0 ∧ queuedItems s.items = 0

instance (s : State) : Decidable (Over s) :=
  inferInstanceAs (Decidable ((∀ t ∈ s.threads, t.code = []) ∧ s.live = 0 ∧
    queuedItems s.items = 0))

theorem Over.load_eq (ended : Over s) (w : Op → Nat) : load w s.threads = 0 := by
  apply load_eq_zero.mpr
  intro t member op pending
  rw [ended.1 t member] at pending
  cases pending

/-- A freed block has no reference and no release of it under way. -/
theorem Memory.gone (memory : Memory mode s) (freed : 0 < s.frees) :
    s.references = 0 ∧ load Op.frees s.threads = 0 := by
  have once := memory.freed
  split at once
  · exact ⟨‹_ ∧ _›.2, by omega⟩
  · omega

/-- Nothing touches a block that has been freed. -/
theorem Memory.untouched (memory : Memory mode s) (freed : 0 < s.frees) {a : State.Label}
    (step : s.step driver mode a = some s') : ¬ Touches s a := by
  intro touches
  obtain ⟨none, quiet⟩ := memory.gone freed
  cases a with
  | start | call => exact touches
  | run i c =>
      obtain ⟨op, next, touches⟩ := touches
      obtain ⟨f, op', rest, -, -, thread, -, -⟩ := State.step_run step
      have same : op' = op := by simpa [State.next, thread] using next
      subst same
      rcases touches with need | rfl
      · have pos := memory.references_pos thread need
        omega
      · have busy := head_le_load Op.frees thread
        simp only [Op.frees] at busy
        omega

/-- When a task is over its block has been freed, and its context released after that. -/
theorem Memory.of_over (memory : Memory mode s) (ledger : Ledger s) (ended : Over s)
    (allocated : s.allocated = true) : s.frees = 1 ∧ s.releases = 1 ∧ s.outstanding = 0 := by
  have none : s.references = 0 := by
    rw [State.references, ended.load_eq, ended.2.1, ended.2.2]
  have freed := memory.freed
  have released := ledger.released
  have balance := total_counted ledger.begun
  rw [allocated, none, if_pos ⟨rfl, rfl⟩, ended.load_eq] at freed
  rw [ended.load_eq] at released
  rw [ended.load_eq Op.pends, ended.load_eq Op.begins] at balance
  refine ⟨freed, released.trans freed, ?_⟩
  unfold State.outstanding
  split
  · rw [ended.2.2]
    exact balance
  · rfl

end Promises

/-! ## The width of the counter -/

/-- One more waker, cloned from the local waker of a callback. -/
theorem exists_clone {s : State} {j : Nat} (reached : (system .wdm .off).Reachable s)
    (polls : s.pollingAt j = true) :
    ∃ s', (system .wdm .off).Reachable s' ∧ s'.pollingAt j = true ∧
      s'.refCount = (s.refCount + 1) % 2 ^ 32 ∧ s'.references = s.references + 1 := by
  obtain ⟨f, id, rest, poller⟩ := State.polling_of_pollingAt polls
  have bound : j < s.threads.length := (List.getElem?_eq_some_iff.mp poller).1
  let call : Call := .cloneWaker (.activation j)
  let s₁ : State := { s with threads := s.threads ++ [⟨call, [.cloneRaw]⟩] }
  let s₂ : State := { s₁ with
    refCount := (s.refCount + 1) % 2 ^ 32
    owners := s.owners ++ [some .waker]
    threads := s₁.threads.set s.threads.length ⟨call, []⟩ }
  have first : (system .wdm .off).step s (.call call) = some s₁ := by
    change (if s.pollingAt j = true then some s₁ else none) = some s₁
    rw [if_pos polls]
  have second : (system .wdm .off).step s₁ (go s.threads.length) = some s₂ := by
    have thread : s₁.threads[s.threads.length]? = some ⟨call, [.cloneRaw]⟩ := by simp [s₁]
    change State.step .wdm .off s₁ (go s.threads.length) = some s₂
    simp only [State.step, thread]
    rfl
  have threads : s₂.threads = s.threads ++ [⟨call, []⟩] := by
    simp [s₂, s₁]
  refine ⟨s₂, .step (.step reached trivial first) trivial second, ?_, rfl, ?_⟩
  · simp only [State.pollingAt, threads]
    rw [List.getElem?_append_left bound, poller]
  · simp only [State.references, threads]
    simp [State.live, s₂, s₁]
    omega

theorem exists_clones (n : Nat) :
    ∃ s, (system .wdm .off).Reachable s ∧ s.pollingAt 1 = true ∧
      s.refCount = (2 + n) % 2 ^ 32 ∧ s.references = 2 + n := by
  induction n with
  | zero =>
      obtain ⟨s, reached, polls⟩ := Sys.Reach.exists_of_exec
        (fun s : State => s.pollingAt 1 = true ∧ s.refCount = 2 ∧ s.references = 2) firstPoll
        (.start rfl : (system .wdm .off).Reachable initial) (by decide)
      exact ⟨s, reached, polls⟩
  | succ n ih =>
      obtain ⟨s, reached, polls, count, references⟩ := ih
      obtain ⟨s', reached', polls', count', references'⟩ := exists_clone reached polls
      refine ⟨s', reached', polls', ?_, ?_⟩
      · rw [count', count]
        omega
      · rw [references', references]
        rfl

end Kcom.WorkItem
