import Kcom.Executor.Dpc.Model

/-!
# What the operations of a DPC task hold

References change hands without the counter moving: an insertion leaves its
reference to the queue, a dequeued DPC leaves it to the activation. So each
operation is weighed by the references it stands for (`Op.refs`), and one step is
balanced when the counter and what the clients own move by what the thread's code
gains or loses. Likewise for the allocation, the freeing and the tracker calls a
thread has still to make (`Ledger`).
-/

namespace Kcom.Dpc

open Conc

/-! ## What an operation holds -/

/-- The references to the block that a pending operation stands for. Inside its
loop an activation holds its own reference and that of its local waker. -/
def Op.holds : Op → Holder → Nat
  | .newHandle, .spawner => 1
  | .returnHandle, .handle => 1
  | .subRef h, h' => if h = h' then 1 else 0
  | .insertQueueDpc _, .inserting => 1
  | .clearScheduled _, .activation => 1
  | .checkCompleted _, .activation => 1
  | .rawWaker _, .activation => 1
  | .loop _, .activation => 1
  | .loop _, .waker => 1
  | _, _ => 0

/-- All references an operation stands for. -/
def Op.refs : Op → Nat
  | .newHandle => 1
  | .returnHandle => 1
  | .subRef _ => 1
  | .insertQueueDpc _ => 1
  | .clearScheduled _ => 1
  | .checkCompleted _ => 1
  | .rawWaker _ => 1
  | .loop _ => 2
  | _ => 0

theorem Op.refs_eq (op : Op) :
    op.refs = op.holds .spawner + op.holds .handle + op.holds .waker + op.holds .activation +
      op.holds .inserting + op.holds .refused := by
  cases op with
  | subRef h => cases h <;> rfl
  | _ => rfl

/-- The `release` that frees the block is under way. -/
def Op.frees : Op → Nat
  | .last _ => 1
  | _ => 0

/-- The operations that are made on the strength of a reference. -/
def Op.needs : Op → Bool
  | .allocate _ => false
  | .storeMode _ => false
  | .storePolls _ => false
  | .storeTimeUs _ => false
  | .last _ => false
  | .trackerComplete => false
  | .clearCurrent _ => false
  | _ => true

/-- A task is about to be allocated. -/
def Op.allocates : Op → Nat
  | .allocate _ => 1
  | _ => 0

/-- `TaskTracker::begin` is about to be called. -/
def Op.begins : Op → Nat
  | .trackerBegin => 1
  | _ => 0

/-- `TaskTracker::complete` is about to be called. -/
def Op.completes : Op → Nat
  | .trackerComplete => 1
  | _ => 0

/-- The operations that read or write the task block. -/
def Op.touches : Op → Bool
  | .loadCompleted => true
  | .casScheduled => true
  | .newHandle => true
  | .addRef _ => true
  | .insertQueueDpc _ => true
  | .subRef _ => true
  | .last _ => true
  | .casCancel => true
  | .loadCancel => true
  | .casAcknowledge => true
  | .cloneRaw => true
  | .clearScheduled _ => true
  | .checkCompleted _ => true
  | .rawWaker _ => true
  | .loop (.pollStart _) => true
  | .loop (.polling _) => true
  | .loop (.loadScheduled _) => true
  | .loop (.clearScheduled _) => true
  | .loop (.storeCompleted _) => true
  | .loop (.dropFuture _) => true
  | .loop (.dropping _) => true
  | _ => false

/-- The operations that add a reference. -/
def Op.adds : Op → Bool
  | .newHandle => true
  | .addRef _ => true
  | .cloneRaw => true
  | .rawWaker _ => true
  | _ => false

/-- The operations that give a reference back. -/
def Op.subs : Op → Bool
  | .subRef _ => true
  | _ => false

theorem Op.needs_of_adds {op : Op} (adds : op.adds = true) : op.needs = true := by
  cases op <;> first | rfl | cases adds

theorem Op.needs_of_subs {op : Op} (subs : op.subs = true) : op.needs = true := by
  cases op <;> first | rfl | cases subs

theorem Op.frees_or_needs {op : Op} (touches : op.touches = true) :
    0 < op.frees ∨ op.needs = true := by
  cases op <;> first | exact Or.inr rfl | exact Or.inl Nat.one_pos | cases touches

namespace State

/-- The references that pending operations hold for `h`. -/
def held (s : State) (h : Holder) : Nat :=
  load (fun op => op.holds h) s.threads

/-- Live `CancelHandle`s: those of clients, one being returned by its spawn
function, and those whose drop has not yet released. -/
def handles (s : State) : Nat :=
  s.owners.count (some .handle) + s.held .handle

/-- Live wakers: those of clients, the local wakers of activations, and those
whose drop or `wake` has not yet released. -/
def wakers (s : State) : Nat :=
  s.owners.count (some .waker) + s.held .waker

/-- The references outstanding. -/
def references (s : State) : Nat :=
  s.held .spawner + s.handles + s.wakers + s.queued.toNat + s.held .activation +
    s.held .inserting + s.held .refused

/-- The owners that are still there. -/
def live (s : State) : Nat :=
  total (fun o => if o = none then 0 else 1) s.owners

/-- The waker or handle that a call borrows is there. -/
def alive (s : State) : Source → Prop
  | .owner k => ∃ o, s.owners[k]? = some (some o)
  | .activation j => s.pollingAt j = true

/-- The next operation of thread `i`. -/
def next (s : State) (i : Nat) : Option Op :=
  (s.threads[i]?).bind fun t => t.code.head?

end State

/-- A step adds a reference only below the capacity of the counter. -/
def Counted (mode : Hardening) (s : State) : State.Label → Prop
  | .run i _ => ∀ op ∈ s.next i, op.adds = true → s.references < Refcount.capacity mode
  | _ => True

instance (mode : Hardening) (s : State) (a : State.Label) : Decidable (Counted mode s a) := by
  unfold Counted; split <;> infer_instance

/-! ## One operation at a time -/

section Perform

variable {mode : Hardening} {s s₁ : State} {i : Nat} {c : Choice} {op : Op} {push : List Op}

@[simp] theorem refs_exit (cpu : Option Nat) : total Op.refs (exit cpu) = 2 := by
  cases cpu <;> rfl

/-- What an activation does after an operation of its loop: another one, or it
leaves, with or without queueing the DPC again. -/
inductive Loop.Next : List Op → Prop
  | again (op : Loop) : Next [.loop op]
  | leave (cpu : Option Nat) : Next (exit cpu)
  | requeue (cpu : Option Nat) : Next (.addRef .queueDpc :: exit cpu)

theorem Loop.Next.afterWoken (l : Locals) : Loop.Next (afterWoken l) := by
  simp only [Dpc.afterWoken]
  split <;> split
  · exact .requeue l.cpu
  · exact .again _
  · exact .again _
  · exact .again _

theorem Loop.Next.refs (next : Loop.Next push) : total Op.refs push = 2 := by
  cases next with
  | again op => rfl
  | leave cpu => exact refs_exit cpu
  | requeue cpu =>
      rw [total_cons, refs_exit]
      rfl

/-- The fields that the loop of an activation writes, and where it goes next. -/
theorem performLoop_frame {op : Loop} (performed : s.performLoop i c op = some (s₁, push)) :
    Loop.Next push ∧ s₁ = { s with
      current := s₁.current
      scheduled := s₁.scheduled
      completed := s₁.completed
      drops := s₁.drops
      ready := s₁.ready
      latePoll := s₁.latePoll
      decided := s₁.decided
      finished := s₁.finished } := by
  cases op with
  | loadPolls cpu m => cases m <;> cases performed <;> exact ⟨.again _, rfl⟩
  | queryStart cpu polls =>
      simp only [State.performLoop] at performed
      split at performed <;> cases performed
      exact ⟨.again _, rfl⟩
  | polling l =>
      simp only [State.performLoop] at performed
      (repeat' split at performed) <;> cases performed <;> exact ⟨.again _, rfl⟩
  | loadScheduled l =>
      cases performed
      refine ⟨?_, rfl⟩
      split
      · exact .afterWoken l
      · exact .leave l.cpu
  | queryNow l =>
      simp only [State.performLoop] at performed
      split at performed <;> cases performed
      refine ⟨?_, rfl⟩
      split
      · exact .requeue l.cpu
      · exact .again _
  | dropping cpu =>
      cases performed
      exact ⟨.leave cpu, rfl⟩
  | _ =>
      cases performed
      exact ⟨.again _, rfl⟩

/-- Inside its loop an activation keeps its two references, or leaves them to the
two releases at the end. -/
theorem performLoop_balance {op : Loop} (performed : s.performLoop i c op = some (s₁, push)) :
    s₁.refCount = s.refCount ∧ s₁.owners = s.owners ∧ s₁.queued = s.queued ∧
      total Op.refs push = 2 := by
  obtain ⟨next, frame⟩ := performLoop_frame performed
  rw [frame]
  exact ⟨rfl, rfl, rfl, next.refs⟩

theorem performLast_balance {op : Last} (performed : s.performLast op = (s₁, push)) :
    s₁.refCount = s.refCount ∧ s₁.owners = s.owners ∧ s₁.queued = s.queued ∧
      total Op.refs push = 0 := by
  cases op <;> cases performed <;> (try split) <;> simp [Op.refs]

/-- The reference count and what the operations hold move together. -/
theorem perform_balance (performed : s.perform mode i c op = some (s₁, push))
    (adds : op.adds = true → s.refCount < Refcount.capacity mode)
    (subs : op.subs = true → 0 < s.refCount ∧ s.refCount ≤ Refcount.capacity mode)
    (fresh : ∀ form, op = .allocate form → s.refCount = 0) :
    s₁.refCount + op.refs + s.live + s.queued.toNat =
      s.refCount + total Op.refs push + s₁.live + s₁.queued.toNat := by
  cases op with
  | allocate form =>
      have zero := fresh form rfl
      simp only [State.perform] at performed
      split at performed
      · cases performed
        rfl
      · cases performed
        cases form <;> simp [Op.refs, State.live, Spawn.hasTracker, Spawn.hasHandle, zero]
  | newHandle | addRef | cloneRaw | rawWaker =>
      simp only [State.perform, Refcount.add_eq (adds rfl), Option.map_some] at performed
      cases performed
      simp [Op.refs, State.live]
      try omega
  | subRef h =>
      obtain ⟨pos, room⟩ := subs rfl
      simp only [State.perform, Refcount.sub_eq pos room, Option.map_some] at performed
      cases performed
      split <;> simp [Op.refs, State.live] <;> omega
  | insertQueueDpc caller =>
      simp only [State.perform] at performed
      split at performed <;> cases performed <;> simp_all [Op.refs, State.live]
      omega
  | last op =>
      obtain ⟨count, owners, queued, pushed⟩ := performLast_balance (Option.some.inj performed)
      rw [count, queued, pushed, State.live, State.live, owners]
      rfl
  | loop op =>
      obtain ⟨count, owners, queued, pushed⟩ := performLoop_balance performed
      rw [count, queued, pushed, State.live, State.live, owners]
      rfl
  | casScheduled | casCancel =>
      simp only [State.perform] at performed
      split at performed <;> cases performed <;> rfl
  | returnHandle =>
      cases performed
      simp [Op.refs, State.live]
      omega
  | loadCurrent | casAcknowledge | loadCompleted | checkCompleted =>
      cases performed
      repeat' split
      all_goals rfl
  | _ =>
      cases performed
      rfl

/-- How far the count moves. -/
theorem perform_count (performed : s.perform mode i c op = some (s₁, push))
    (adds : op.adds = true → s.refCount < Refcount.capacity mode)
    (subs : op.subs = true → 0 < s.refCount ∧ s.refCount ≤ Refcount.capacity mode)
    (old : ∀ form, op ≠ .allocate form) :
    s₁.refCount + op.subs.toNat = s.refCount + op.adds.toNat := by
  cases op with
  | allocate form => exact absurd rfl (old form)
  | newHandle | addRef | cloneRaw | rawWaker =>
      simp only [State.perform, Refcount.add_eq (adds rfl), Option.map_some] at performed
      cases performed
      rfl
  | subRef h =>
      obtain ⟨pos, room⟩ := subs rfl
      simp only [State.perform, Refcount.sub_eq pos room, Option.map_some] at performed
      cases performed
      exact Nat.sub_add_cancel pos
  | last op => exact (performLast_balance (Option.some.inj performed)).1
  | loop op => exact (performLoop_balance performed).1
  | casScheduled | casCancel | insertQueueDpc =>
      simp only [State.perform] at performed
      split at performed <;> cases performed <;> rfl
  | casAcknowledge =>
      cases performed
      split <;> rfl
  | _ =>
      cases performed
      rfl

/-- What an operation other than the allocation does to the history: a block is
freed by the release that has left 0, a tracker is told after that. -/
structure Ledger (s s₁ : State) (op : Op) (push : List Op) : Prop where
  spawned : s₁.spawned = s.spawned
  allocated : s₁.allocated = s.allocated
  tracked : s₁.tracked = s.tracked
  allocates : total Op.allocates push = op.allocates
  begins : s₁.begins + total Op.begins push = s.begins + op.begins
  completes : s₁.completes + total Op.completes push + (if s.tracked then s.deallocs else 0) =
    s.completes + op.completes + (if s.tracked then s₁.deallocs else 0)
  frees : s₁.deallocs + total Op.frees push =
    s.deallocs + op.frees + if op.subs = true ∧ s₁.refCount = 0 then 1 else 0

/-- What `Ledger` compares of two states. -/
def State.history (s : State) : Bool × Bool × Bool × Nat × Nat × Nat :=
  (s.spawned, s.allocated, s.tracked, s.begins, s.completes, s.deallocs)

/-- What a piece of code has still to write into the history. -/
def duties (code : List Op) : List Nat :=
  [total Op.allocates code, total Op.begins code, total Op.completes code, total Op.frees code]

theorem Ledger.of_eq (history : s₁.history = s.history) (same : duties push = duties [op])
    (keeps : op.subs = false) : Ledger s s₁ op push := by
  simp only [State.history, Prod.mk.injEq] at history
  simp only [duties, total_cons, total_nil, List.cons.injEq, Nat.add_zero, and_true] at same
  obtain ⟨spawned, allocated, tracked, begun, completed, deallocs⟩ := history
  obtain ⟨allocates, begins, completes, frees⟩ := same
  refine ⟨spawned, allocated, tracked, allocates, ?_, ?_, ?_⟩
  · rw [begun, begins]
  · rw [completed, completes, deallocs]
  · rw [deallocs, frees, if_neg (by simp [keeps]), Nat.add_zero]

theorem performLoop_ledger {op : Loop} (performed : s.performLoop i c op = some (s₁, push)) :
    Ledger s s₁ (.loop op) push := by
  obtain ⟨next, frame⟩ := performLoop_frame performed
  rw [frame]
  rcases next with op' | cpu | cpu
  · exact .of_eq rfl rfl rfl
  · cases cpu <;> exact .of_eq rfl rfl rfl
  · cases cpu <;> exact .of_eq rfl rfl rfl

theorem performLast_ledger {op : Last} (performed : s.performLast op = (s₁, push)) :
    Ledger s s₁ (.last op) push := by
  cases op with
  | loadCompleted =>
      cases performed
      split <;> exact .of_eq rfl rfl rfl
  | storeCompleted | dropFuture | dropping =>
      cases performed
      exact .of_eq rfl rfl rfl
  | dealloc =>
      -- the block is freed, and a tracked task has the tracker still to tell
      cases performed
      cases told : s.tracked <;>
        constructor <;> simp [Op.allocates, Op.begins, Op.completes, Op.frees, Op.subs, told]
      omega

theorem perform_ledger (performed : s.perform mode i c op = some (s₁, push))
    (subs : op.subs = true → 0 < s.refCount ∧ s.refCount ≤ Refcount.capacity mode)
    (old : ∀ form, op ≠ .allocate form) : Ledger s s₁ op push := by
  cases op with
  | allocate form => exact absurd rfl (old form)
  | newHandle | addRef | cloneRaw | rawWaker =>
      simp only [State.perform, Option.map_eq_some_iff] at performed
      obtain ⟨⟨_, count⟩, -, performed⟩ := performed
      cases performed
      exact .of_eq rfl rfl rfl
  | subRef h =>
      obtain ⟨pos, room⟩ := subs rfl
      simp only [State.perform, Refcount.sub_eq pos room, Option.map_some] at performed
      cases performed
      split <;> constructor <;> simp_all [Op.allocates, Op.begins, Op.completes, Op.frees, Op.subs]
  | trackerBegin | trackerComplete =>
      cases performed
      constructor <;> simp [Op.allocates, Op.begins, Op.completes, Op.frees, Op.subs]
  | last op => exact performLast_ledger (Option.some.inj performed)
  | loop op => exact performLoop_ledger performed
  | casScheduled | casCancel | insertQueueDpc =>
      simp only [State.perform] at performed
      split at performed <;> cases performed <;> exact .of_eq rfl rfl rfl
  | casAcknowledge | loadCompleted | checkCompleted =>
      cases performed
      split <;> exact .of_eq rfl rfl rfl
  | loadCurrent cpu take =>
      cases performed
      split <;> cases take <;> exact .of_eq rfl rfl rfl
  | _ =>
      cases performed
      exact .of_eq rfl rfl rfl

/-- What the allocation does to the history. -/
structure Allocated (s s₁ : State) (form : Spawn) (push : List Op) : Prop where
  refCount : s₁.refCount = 1
  spawned : s₁.spawned = s.spawned
  allocated : s₁.allocated = true
  tracked : s₁.tracked = form.hasTracker
  deallocs : s₁.deallocs = s.deallocs
  begun : s₁.begins = s.begins
  completed : s₁.completes = s.completes
  allocates : total Op.allocates push = 0
  frees : total Op.frees push = 0
  begins : total Op.begins push = if form.hasTracker then 1 else 0
  completes : total Op.completes push = 0

theorem perform_allocate {form : Spawn}
    (performed : s.perform mode i c (.allocate form) = some (s₁, push)) :
    (s₁ = s ∧ push = []) ∨ Allocated s s₁ form push := by
  simp only [State.perform] at performed
  split at performed <;> cases performed
  · exact Or.inl ⟨rfl, rfl⟩
  · right
    cases form <;> exact ⟨rfl, rfl, rfl, rfl, rfl, rfl, rfl, rfl, rfl, rfl, rfl⟩

theorem Loop.Next.covered (next : Loop.Next push) : Covered Op.needs Op.refs push := by
  rcases next with op | cpu | cpu
  · simp [Covered, Op.refs]
  all_goals cases cpu <;> simp [exit, Covered, Op.refs, Op.needs]

/-- An operation that stands for a reference, or needs none, leaves code that is
covered by itself. -/
theorem perform_covered (performed : s.perform mode i c op = some (s₁, push))
    (own : op.needs = true → 0 < op.refs) : Covered Op.needs Op.refs push := by
  cases op with
  | trackerBegin | loadCompleted | casScheduled | addRef | casCancel | loadCancel | loadCurrent |
      casAcknowledge | cloneRaw => exact absurd (own rfl) (Nat.lt_irrefl 0)
  | allocate form =>
      simp only [State.perform] at performed
      split at performed <;> cases performed
      · trivial
      · cases form <;> simp [Spawn.hasTracker, Spawn.hasHandle, Covered, Op.refs, Op.needs]
  | newHandle | rawWaker =>
      simp only [State.perform, Option.map_eq_some_iff] at performed
      obtain ⟨⟨_, count⟩, -, performed⟩ := performed
      cases performed
      simp [Covered, Op.refs]
  | subRef h =>
      simp only [State.perform, Option.map_eq_some_iff] at performed
      obtain ⟨⟨result, count⟩, -, performed⟩ := performed
      cases performed
      split <;> simp [Covered, Op.needs]
  | insertQueueDpc caller =>
      simp only [State.perform] at performed
      split at performed <;> cases performed <;> simp [Covered, Op.refs]
  | last op => cases op <;> cases performed <;> (try split) <;> simp [Covered, Op.needs]
  | loop op => exact (performLoop_frame performed).1.covered
  | checkCompleted cpu =>
      cases performed
      split <;> simp [Covered, Op.refs]
  | _ =>
      cases performed
      simp [Covered, Op.refs]

/-- Code stays covered along a thread. -/
theorem covered_of_perform {rest : List Op} (performed : s.perform mode i c op = some (s₁, push))
    (covered : Covered Op.needs Op.refs (op :: rest)) :
    Covered Op.needs Op.refs (push ++ rest) := by
  by_cases held : 0 < total Op.refs rest
  · exact .append_of_pos push held covered.2
  · refine .append (perform_covered performed ?_) covered.2
    intro need
    have here := covered.1 need
    omega

/-- Clients' wakers and handles stay where they are while a thread moves. -/
theorem perform_owners (performed : s.perform mode i c op = some (s₁, push)) :
    s₁.threads = s.threads ∧ ∃ more, s₁.owners = s.owners ++ more := by
  cases op with
  | newHandle | addRef | cloneRaw | rawWaker | subRef =>
      simp only [State.perform, Option.map_eq_some_iff] at performed
      obtain ⟨⟨_, count⟩, -, performed⟩ := performed
      cases performed
      first
        | exact ⟨rfl, [], (List.append_nil _).symm⟩
        | exact ⟨rfl, _, rfl⟩
  | returnHandle =>
      cases performed
      exact ⟨rfl, _, rfl⟩
  | last op =>
      cases op <;> cases performed <;> exact ⟨rfl, [], (List.append_nil _).symm⟩
  | loop op =>
      obtain ⟨-, frame⟩ := performLoop_frame performed
      rw [frame]
      exact ⟨rfl, [], (List.append_nil _).symm⟩
  | allocate | casScheduled | casCancel | insertQueueDpc =>
      simp only [State.perform] at performed
      split at performed <;> cases performed <;> exact ⟨rfl, [], (List.append_nil _).symm⟩
  | casAcknowledge =>
      cases performed
      split <;> exact ⟨rfl, [], (List.append_nil _).symm⟩
  | _ =>
      cases performed
      exact ⟨rfl, [], (List.append_nil _).symm⟩

end Perform

end Kcom.Dpc
