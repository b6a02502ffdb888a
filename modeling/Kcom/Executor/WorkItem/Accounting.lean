import Kcom.Executor.WorkItem.LifeCycle

/-!
# What the operations of a work-item task hold

A reference is taken for the spawner, for each handle and waker, and for each work
item that is enqueued; the item's reference passes to its callback when that
starts. Each operation is weighed by the references it stands for (`Op.refs`), and
`Moves` says once what an operation does to the counter, to the clients' owners,
to the queue and to the history of the block. The allocation is kept apart, as it
is the one operation that sets the counter.
-/

namespace Kcom.WorkItem

open Conc

/-! ## What an operation holds -/

/-- The references that a step of `run` stands for: the callback's own, and that of
its local waker while there is one. -/
def Run.refs : Run → Nat
  | .pollStart => 2
  | .polling => 2
  | .storeCompleted waker => 1 + waker.toNat
  | .dropFuture waker => 1 + waker.toNat
  | .dropping waker => 1 + waker.toNat
  | _ => 1

/-- A callback holds the reference of its work item to its end. -/
theorem Run.refs_pos (op : Run) : 0 < op.refs := by
  cases op <;> simp only [Run.refs] <;> omega

/-- The references that a pending operation stands for. -/
def Op.refs : Op → Nat
  | .setContext _ => 1
  | .newHandle => 1
  | .endSpawn => 1
  | .submit _ .enqueue => 1
  | .subRef _ => 1
  | .run _ op => op.refs
  | _ => 0

/-- The operations for which the block has to be there. -/
def Op.needs : Op → Bool
  | .checkContext _ => false
  | .allocate _ => false
  | .trackerComplete => false
  | .free => false
  | .releaseContext => false
  | .deleteWorkItem _ => false
  | _ => true

/-- The operations that add a reference. -/
def Op.adds : Op → Bool
  | .newHandle => true
  | .submit _ .addRef => true
  | .addHandle => true
  | .cloneRaw => true
  | .run _ .rawWaker => true
  | _ => false

/-- The operations that give a reference back. -/
def Op.subs : Op → Bool
  | .subRef _ => true
  | _ => false

/-- The block is about to be allocated. -/
def Op.allocates : Op → Nat
  | .checkContext _ => 1
  | .allocate _ => 1
  | _ => 0

/-- The block is about to be freed. -/
def Op.frees : Op → Nat
  | .free => 1
  | _ => 0

/-- The work item `id` has been created and is not yet enqueued. -/
def Op.submits (id : Nat) : Op → Nat
  | .submit k _ => if k = id then 1 else 0
  | _ => 0

theorem Op.needs_of_adds {op : Op} (adds : op.adds = true) : op.needs = true := by
  cases op <;> first | rfl | cases adds

theorem Op.needs_of_subs {op : Op} (subs : op.subs = true) : op.needs = true := by
  cases op <;> first | rfl | cases subs

/-- The work items in the queue. -/
def queuedItems (items : List Item) : Nat :=
  total (fun item => if item.phase = .queued then 1 else 0) items

/-- The work item `id` is there and has not been enqueued. -/
def createdAt (items : List Item) (id : Nat) : Nat :=
  if (items[id]?).any fun item => item.phase = .created then 1 else 0

namespace State

/-- The owners that are still there. -/
def live (s : State) : Nat :=
  total (fun o => if o = none then 0 else 1) s.owners

/-- The references outstanding: those of pending operations, of clients, and of the
work items in the queue. -/
def references (s : State) : Nat :=
  load Op.refs s.threads + s.live + queuedItems s.items

/-- The waker or handle that a call borrows is there. -/
def alive (s : State) : Source → Prop
  | .owner k => ∃ o, s.owners[k]? = some (some o)
  | .activation j => s.pollingAt j = true

end State

/-- A step adds a reference only below the capacity of the counter. -/
def Counted (mode : Hardening) (s : State) : State.Label → Prop
  | .run i _ => ∀ op ∈ s.next i, op.adds = true → s.references < Refcount.capacity mode
  | _ => True

instance (mode : Hardening) (s : State) : (a : State.Label) → Decidable (Counted mode s a)
  | .run i _ => inferInstanceAs (Decidable (∀ op ∈ s.next i, op.adds = true →
      s.references < Refcount.capacity mode))
  | .start _ => inferInstanceAs (Decidable True)
  | .call _ => inferInstanceAs (Decidable True)

/-! ## The queue -/

section Items

variable {items : List Item} {id id' : Nat}

theorem queuedItems_phase {item : Item} (phase : Phase) (here : items[id]? = some item) :
    queuedItems (items.modify id fun item => { item with phase := phase }) +
        (if item.phase = .queued then 1 else 0) =
      queuedItems items + if phase = .queued then 1 else 0 := by
  have swap := total_set (fun item : Item => if item.phase = .queued then 1 else 0)
    { item with phase := phase } here
  rw [queuedItems, List.modify_eq_set_getElem?, here]
  exact swap

theorem queuedItems_delete : queuedItems
    (items.modify id fun item => { item with deletes := item.deletes + 1 }) =
      queuedItems items := by
  rw [queuedItems, List.modify_eq_set_getElem?]
  cases here : items[id]? with
  | none => rfl
  | some item =>
      have swap := total_set (fun item : Item => if item.phase = .queued then 1 else 0)
        { item with deletes := item.deletes + 1 } here
      exact Nat.add_right_cancel swap

theorem createdAt_append :
    createdAt (items ++ [⟨.created, 0⟩]) id =
      createdAt items id + if items.length = id then 1 else 0 := by
  simp only [createdAt]
  rcases Nat.lt_trichotomy id items.length with below | rfl | above
  · have other : items.length ≠ id := Nat.ne_of_gt below
    rw [List.getElem?_append_left below, if_neg other, Nat.add_zero]
  · simp
  · have other : items.length ≠ id := Nat.ne_of_lt above
    have beyond : (items ++ [⟨.created, 0⟩])[id]? = none := by
      apply List.getElem?_eq_none_iff.mpr
      rw [List.length_append]
      exact above
    rw [beyond, List.getElem?_eq_none_iff.mpr (Nat.le_of_lt above), if_neg other]
    rfl

theorem createdAt_delete : createdAt
    (items.modify id fun item => { item with deletes := item.deletes + 1 }) id' =
      createdAt items id' := by
  simp only [createdAt, List.getElem?_modify]
  cases items[id']? with
  | none => rfl
  | some item => by_cases same : id = id' <;> simp [same]

/-- Moving a work item out of the phase in which it was created, or on from there. -/
theorem createdAt_phase {phase : Phase} (later : phase ≠ .created) :
    createdAt (items.modify id fun item => { item with phase := phase }) id' =
      if id = id' then 0 else createdAt items id' := by
  simp only [createdAt, List.getElem?_modify]
  by_cases same : id = id'
  · subst same
    cases items[id]? <;> simp [later]
  · simp [same]

end Items

/-! ## One operation at a time -/

section Perform

variable {driver : Driver} {mode : Hardening} {s s₁ : State} {i : Nat} {c : Choice} {f : Call}
  {op : Op} {push : List Op}

/-- What an operation other than the allocation does to the accounts of the block. -/
structure Moves (s s₁ : State) (op : Op) (push : List Op) : Prop where
  spawned : s₁.spawned = s.spawned
  allocated : s₁.allocated = s.allocated
  allocates : total Op.allocates push ≤ op.allocates
  owners : ∃ more, s₁.owners = s.owners ++ more
  /-- What the counter gains is held by the code, by a client or by the queue. -/
  balance : s₁.refCount + op.refs + s.live + queuedItems s.items =
    s.refCount + total Op.refs push + s₁.live + queuedItems s₁.items
  count : s₁.refCount + op.subs.toNat = s.refCount + op.adds.toNat
  frees : s₁.frees + total Op.frees push =
    s.frees + op.frees + if op.subs = true ∧ s₁.refCount = 0 then 1 else 0
  submits : ∀ id, total (Op.submits id) push + createdAt s.items id =
    op.submits id + createdAt s₁.items id
  /-- An operation that stands for a reference, or needs none, leaves code that is
  covered by itself. -/
  covered : (op.needs = true → 0 < op.refs) → Covered Op.needs Op.refs push

/-- What `Moves` compares of two states. -/
def State.accounts (s : State) : Bool × Bool × List (Option Owner) × Nat × List Item × Nat :=
  (s.spawned, s.allocated, s.owners, s.refCount, s.items, s.frees)

/-- Code that stands for the same as the operation it replaces. -/
structure Alike (op : Op) (push : List Op) : Prop where
  adds : op.adds = false
  subs : op.subs = false
  refs : total Op.refs push = op.refs
  frees : total Op.frees push = op.frees
  allocates : total Op.allocates push ≤ op.allocates
  submits : ∀ id, total (Op.submits id) push = op.submits id
  covered : (op.needs = true → 0 < op.refs) → Covered Op.needs Op.refs push

theorem Moves.of_alike (accounts : s₁.accounts = s.accounts) (alike : Alike op push) :
    Moves s s₁ op push := by
  simp only [State.accounts, Prod.mk.injEq] at accounts
  obtain ⟨spawned, allocated, owners, refCount, items, freed⟩ := accounts
  obtain ⟨adds, subs, refs, frees, allocates, submits, covered⟩ := alike
  refine ⟨spawned, allocated, allocates, ⟨[], ?_⟩, ?_, ?_, ?_, ?_, covered⟩
  · rw [owners, List.append_nil]
  · rw [State.live, State.live, owners, refCount, items, refs]
  · rw [adds, subs, refCount]
  · rw [subs, freed, frees]
    simp
  · intro id
    rw [submits, items]

/-- A borrowing operation that holds nothing and goes on holding nothing. -/
theorem Alike.of_borrowing (counts : op.adds = false ∧ op.subs = false)
    (need : op.needs = true) (refs : total Op.refs push = op.refs) (none : op.refs = 0)
    (frees : total Op.frees push = op.frees) (allocates : total Op.allocates push ≤ op.allocates)
    (submits : ∀ id, total (Op.submits id) push = op.submits id) : Alike op push := by
  refine ⟨counts.1, counts.2, refs, frees, allocates, submits, ?_⟩
  intro own
  have pos := own need
  omega

/-- What an operation does that leaves its result to the next one of its callback. -/
theorem Alike.of_run {op op' : Run} {id : Nat} (adds : op ≠ .rawWaker)
    (refs : op'.refs = op.refs) : Alike (.run id op) [.run id op'] := by
  refine ⟨?_, rfl, ?_, rfl, Nat.le_refl _, fun _ => rfl, ?_⟩
  · cases op <;> first | rfl | exact absurd rfl adds
  · simp [Op.refs, refs]
  · intro _
    exact ⟨fun _ => Nat.add_pos_left op'.refs_pos _, trivial⟩

theorem covered_complete (s : State) {rest : List Op} (covered : Covered Op.needs Op.refs rest) :
    Covered Op.needs Op.refs (s.complete ++ rest) := by
  refine .append (.of_free ?_) covered
  intro op mem
  rw [State.complete] at mem
  split at mem
  · rw [List.mem_singleton.mp mem]
    rfl
  · cases mem

/-- `tracker_complete` holds no reference and creates nothing. -/
theorem complete_weights (s : State) : total Op.refs s.complete = 0 ∧
    total Op.frees s.complete = 0 ∧ total Op.allocates s.complete = 0 ∧
    ∀ id, total (Op.submits id) s.complete = 0 := by
  rw [State.complete]
  split <;> exact ⟨rfl, rfl, rfl, fun _ => rfl⟩

theorem Alike.afterPoll {op : Run} {id : Nat} {waker : Bool} (adds : op ≠ .rawWaker)
    (refs : op.refs = 1 + waker.toNat) : Alike (.run id op) (State.afterPoll id waker) := by
  cases waker with
  | false => exact .of_run adds refs.symm
  | true =>
      refine ⟨?_, rfl, ?_, rfl, Nat.le_refl _, fun _ => rfl, ?_⟩
      · cases op <;> first | rfl | exact absurd rfl adds
      · exact refs.symm
      · intro _
        simp [State.afterPoll, Covered, Op.refs, Run.refs]

/-- The end of `run`: a work item to delete or none, the tracker, and the release. -/
theorem Alike.leave {op : Run} {id : Nat} (front : List Op) (adds : op ≠ .rawWaker)
    (refs : op.refs = 1) (deletes : ∀ op ∈ front, ∃ k, op = .deleteWorkItem k) :
    Alike (.run id op) (front ++ s.complete ++ [.subRef .callback]) := by
  obtain ⟨noRefs, noFrees, noAllocates, noSubmits⟩ := complete_weights s
  have free : ∀ w : Op → Nat, (∀ k, w (.deleteWorkItem k) = 0) → total w front = 0 := by
    intro w weightless
    apply total_eq_zero.mpr
    intro op mem
    obtain ⟨k, rfl⟩ := deletes op mem
    exact weightless k
  refine ⟨?_, rfl, ?_, ?_, ?_, ?_, ?_⟩
  · cases op <;> first | rfl | exact absurd rfl adds
  · simp [noRefs, free Op.refs (fun _ => rfl), Op.refs, refs]
  · simp [noFrees, free Op.frees (fun _ => rfl), Op.frees]
  · simp [noAllocates, free Op.allocates (fun _ => rfl), Op.allocates]
  · intro id'
    simp [noSubmits, free (Op.submits id') (fun _ => rfl), Op.submits]
  · intro _
    rw [List.append_assoc]
    refine .append (.of_free ?_) (covered_complete s (by simp [Covered, Op.refs]))
    intro op mem
    obtain ⟨k, rfl⟩ := deletes op mem
    rfl

/-- An operation that takes a reference for the code that follows it or for a new
owner. -/
theorem Moves.of_add (owners : List (Option Owner)) (adds : op.adds = true)
    (accounts : s₁.accounts =
      (s.spawned, s.allocated, s.owners ++ owners, s.refCount + 1, s.items, s.frees))
    (refs : total Op.refs push + total (fun o => if o = none then 0 else 1) owners = op.refs + 1)
    (frees : total Op.frees push = 0) (allocates : total Op.allocates push = 0)
    (submits : ∀ id, total (Op.submits id) push = op.submits id)
    (covered : (op.needs = true → 0 < op.refs) → Covered Op.needs Op.refs push) :
    Moves s s₁ op push := by
  simp only [State.accounts, Prod.mk.injEq] at accounts
  obtain ⟨spawned, allocated, owned, refCount, items, freed⟩ := accounts
  have plain : op.subs = false ∧ op.frees = 0 := by
    cases op <;> first | exact ⟨rfl, rfl⟩ | cases adds
  refine ⟨spawned, allocated, ?_, ⟨owners, owned⟩, ?_, ?_, ?_, ?_, covered⟩
  · rw [allocates]
    exact Nat.zero_le _
  · rw [State.live, State.live, owned, refCount, items, total_append]
    omega
  · rw [adds, plain.1, refCount]
    rfl
  · rw [plain.1, plain.2, freed, frees]
    simp
  · intro id
    rw [submits, items]

/-- The work item that a `schedule` holds goes into the queue, with its reference. -/
theorem Moves.enqueue {id : Nat} (created : createdAt s.items id = 1) :
    Moves s { s with items := s.items.modify id fun item => { item with phase := .queued } }
      (.submit id .enqueue) [] := by
  cases here : s.items[id]? with
  | none =>
      rw [createdAt, here] at created
      cases created
  | some item =>
      have phase : item.phase = .created := by
        by_contra later
        simp [createdAt, here, later] at created
      have queue := queuedItems_phase .queued here
      refine ⟨rfl, rfl, Nat.le_refl _, ⟨[], (List.append_nil _).symm⟩, ?_, rfl, rfl, ?_,
        fun _ => trivial⟩
      · simp only [phase, reduceCtorEq, if_false, if_true] at queue
        simp only [Op.refs, State.live, total_nil]
        omega
      · intro id'
        rw [createdAt_phase (by simp)]
        by_cases same : id = id'
        · subst same
          simp [Op.submits, createdAt, here, phase]
        · simp [Op.submits, same]

theorem moves_of_performSubmit {id : Nat} {op : Submit}
    (performed : s.performSubmit mode id op = some (s₁, push))
    (adds : (Op.submit id op).adds = true → s.refCount < Refcount.capacity mode)
    (created : op = .enqueue → createdAt s.items id = 1) : Moves s s₁ (.submit id op) push := by
  cases op with
  | storeWorkItem =>
      cases performed
      exact .of_alike rfl
        (.of_borrowing ⟨rfl, rfl⟩ rfl rfl rfl rfl (Nat.le_refl _) fun _ => rfl)
  | addRef =>
      simp only [State.performSubmit, Refcount.add_eq (adds rfl), Option.map_some] at performed
      cases performed
      refine .of_add [] rfl ?_ rfl rfl rfl (fun _ => rfl) (fun own => ?_)
      · simp [State.accounts]
      · exact absurd (own rfl) (Nat.lt_irrefl 0)
  | enqueue =>
      cases performed
      exact .enqueue (created rfl)

theorem moves_of_performRun {id : Nat} {op : Run}
    (performed : s.performRun driver mode i c id op = some (s₁, push))
    (adds : (Op.run id op).adds = true → s.refCount < Refcount.capacity mode) :
    Moves s s₁ (.run id op) push := by
  cases op with
  | clearScheduled | pollStart | storeCompleted | dropFuture =>
      cases performed
      exact .of_alike rfl (.of_run (by simp) rfl)
  | checkCompleted =>
      cases performed
      split
      · exact .of_alike rfl (.leave [] (by simp) rfl (by simp))
      · exact .of_alike rfl (.of_run (by simp) rfl)
  | loadCancel =>
      cases performed
      split <;> exact .of_alike rfl (.of_run (by simp) rfl)
  | rawWaker =>
      simp only [State.performRun, Refcount.add_eq (adds rfl), Option.map_some] at performed
      cases performed
      refine .of_add [] rfl ?_ rfl rfl rfl (fun _ => rfl) (fun _ => ?_)
      · simp [State.accounts]
      · simp [Covered, Op.refs, Run.refs]
  | polling =>
      simp only [State.performRun] at performed
      split at performed
      · cases performed
      · split at performed <;> cases performed
        · exact .of_alike rfl (.of_run (by simp) rfl)
        · exact .of_alike rfl (.afterPoll (by simp) rfl)
  | dropping waker =>
      cases performed
      exact .of_alike rfl (.afterPoll (by simp) rfl)
  | swapWorkItem =>
      cases performed
      refine .of_alike rfl (.leave _ (by simp) rfl ?_)
      intro op mem
      split at mem
      · exact ⟨_, List.mem_singleton.mp mem⟩
      · cases mem

/-- A reference is given back, and the last one frees the block. -/
theorem Moves.subRef {h : Holder}
    (performed : s.perform driver mode i f c (.subRef h) = some (s₁, push))
    (pos : 0 < s.refCount) (room : s.refCount ≤ Refcount.capacity mode) :
    Moves s s₁ (.subRef h) push := by
  simp only [State.perform, Refcount.sub_eq pos room, Option.map_some] at performed
  cases performed
  refine ⟨rfl, rfl, ?_, ⟨[], (List.append_nil _).symm⟩, ?_, ?_, ?_, ?_, ?_⟩
  · split <;> exact Nat.le_refl _
  · split <;> simp [Op.refs, State.live] <;> omega
  · exact Nat.sub_add_cancel pos
  · split <;> simp_all [Op.frees, Op.subs]
  · intro id
    split <;> rfl
  · intro _
    split <;> simp [Covered, Op.needs]

/-- Every operation but the allocation keeps the accounts. -/
theorem moves_of_perform (performed : s.perform driver mode i f c op = some (s₁, push))
    (adds : op.adds = true → s.refCount < Refcount.capacity mode)
    (subs : op.subs = true → 0 < s.refCount ∧ s.refCount ≤ Refcount.capacity mode)
    (created : ∀ id, op = .submit id .enqueue → createdAt s.items id = 1)
    (old : ∀ form, op ≠ .allocate form) : Moves s s₁ op push := by
  cases op with
  | allocate form => exact absurd rfl (old form)
  | checkContext form =>
      cases performed
      split <;> refine .of_alike rfl ⟨rfl, rfl, rfl, rfl, ?_, fun _ => rfl, fun _ => ?_⟩
      · exact Nat.zero_le _
      · trivial
      · exact Nat.le_refl _
      · simp [Covered, Op.needs]
  | setContext form =>
      cases performed
      split <;>
        refine .of_alike rfl ⟨rfl, rfl, rfl, rfl, Nat.le_refl _, fun _ => rfl, fun _ => ?_⟩ <;>
        simp [Covered, Op.refs]
  | newHandle =>
      simp only [State.perform, Refcount.add_eq (adds rfl), Option.map_some] at performed
      cases performed
      refine .of_add [] rfl ?_ rfl rfl rfl (fun _ => rfl) (fun _ => ?_)
      · simp [State.accounts]
      · simp [Covered, Op.refs]
  | endSpawn =>
      simp only [State.perform] at performed
      split at performed <;> cases performed
      · refine .of_alike rfl ⟨rfl, rfl, rfl, rfl, Nat.le_refl _, fun _ => rfl, fun _ => ?_⟩
        simp [Covered, Op.refs]
      · refine ⟨rfl, rfl, Nat.le_refl _, ⟨_, rfl⟩, ?_, rfl, rfl, fun _ => rfl, fun _ => trivial⟩
        simp [State.live, Op.refs]
        omega
  | loadCompleted | contextIsValid =>
      cases performed
      split <;> exact .of_alike rfl
        (.of_borrowing ⟨rfl, rfl⟩ rfl rfl rfl rfl (Nat.le_refl _) fun _ => rfl)
  | casScheduled =>
      simp only [State.perform] at performed
      split at performed <;> cases performed <;> (try split) <;> exact .of_alike rfl
        (.of_borrowing ⟨rfl, rfl⟩ rfl rfl rfl rfl (Nat.le_refl _) fun _ => rfl)
  | createWorkItem =>
      simp only [State.perform] at performed
      split at performed <;> cases performed
      · exact .of_alike rfl
          (.of_borrowing ⟨rfl, rfl⟩ rfl rfl rfl rfl (Nat.le_refl _) fun _ => rfl)
      · refine ⟨rfl, rfl, Nat.le_refl _, ⟨[], (List.append_nil _).symm⟩, ?_, rfl, rfl, ?_, ?_⟩
        · simp [State.live, queuedItems, Op.refs]
        · intro id
          rw [createdAt_append]
          simp [Op.submits]
          omega
        · intro own
          exact absurd (own rfl) (Nat.lt_irrefl 0)
  | submit id op =>
      exact moves_of_performSubmit performed adds fun enqueue => created id (enqueue ▸ rfl)
  | abandon =>
      cases performed
      obtain ⟨noRefs, noFrees, noAllocates, noSubmits⟩ := complete_weights s
      refine .of_alike rfl (.of_borrowing ⟨rfl, rfl⟩ rfl noRefs rfl noFrees ?_ noSubmits)
      exact Nat.le_of_eq noAllocates
  | subRef h =>
      obtain ⟨pos, room⟩ := subs rfl
      exact .subRef performed pos room
  | free =>
      cases performed
      refine ⟨rfl, rfl, ?_, ⟨[], (List.append_nil _).symm⟩, ?_, rfl, ?_, ?_, ?_⟩
      · split <;> exact Nat.le_refl _
      · split <;> rfl
      · split <;> simp [Op.frees, Op.subs]
      · intro id
        split <;> rfl
      · intro _
        split <;> simp [Covered, Op.needs]
  | casCancel =>
      simp only [State.perform] at performed
      split at performed <;> cases performed <;> exact .of_alike rfl
        (.of_borrowing ⟨rfl, rfl⟩ rfl rfl rfl rfl (Nat.le_refl _) fun _ => rfl)
  | addHandle | cloneRaw =>
      simp only [State.perform, Refcount.add_eq (adds rfl), Option.map_some] at performed
      cases performed
      exact .of_add _ rfl rfl rfl rfl rfl (fun _ => rfl) (fun _ => trivial)
  | run id op => exact moves_of_performRun performed adds
  | deleteWorkItem id =>
      cases performed
      refine ⟨rfl, rfl, Nat.le_refl _, ⟨[], (List.append_nil _).symm⟩, ?_, rfl, rfl, ?_, ?_⟩
      · simp [State.live, queuedItems_delete, Op.refs]
      · intro id'
        simp [createdAt_delete, Op.submits]
      · exact fun _ => trivial
  | trackerComplete | releaseContext =>
      cases performed
      exact .of_alike rfl ⟨rfl, rfl, rfl, rfl, Nat.le_refl _, fun _ => rfl, fun _ => trivial⟩
  | trackerBegin | loadCancelled =>
      cases performed
      exact .of_alike rfl
        (.of_borrowing ⟨rfl, rfl⟩ rfl rfl rfl rfl (Nat.le_refl _) fun _ => rfl)

theorem allocate_cases {form : Spawn}
    (performed : s.perform driver mode i f c (.allocate form) = some (s₁, push)) :
    (s₁ = s ∧ push = []) ∨
      (s₁ = { s with refCount := 1, allocated := true } ∧ push = [.setContext form]) := by
  simp only [State.perform] at performed
  split at performed <;> cases performed
  · exact Or.inl ⟨rfl, rfl⟩
  · exact Or.inr ⟨rfl, rfl⟩

/-- Code stays covered along a thread. -/
theorem Moves.covers {rest : List Op} (moves : Moves s s₁ op push)
    (covered : Covered Op.needs Op.refs (op :: rest)) :
    Covered Op.needs Op.refs (push ++ rest) := by
  by_cases held : 0 < total Op.refs rest
  · exact .append_of_pos push held covered.2
  · refine .append (moves.covered ?_) covered.2
    intro need
    have here := covered.1 need
    omega

end Perform

end Kcom.WorkItem
