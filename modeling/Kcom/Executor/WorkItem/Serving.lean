import Kcom.Conc.History
import Kcom.Executor.WorkItem.Futures

/-!
# Who serves a wake

A wake or a cancel calls `schedule`, which may find that somebody else has scheduled
the task already, or may fail to create a work item. The weights of this module count
the operations that go on to serve a wake or to notice a cancel, and its lemmas say
what one operation does to them: they stay, or there is one ahead, except where a
`schedule` finds the flag set or gives up and where a callback passes the point that
counts (`perform_tends`). `Stage` says that nobody can wake or cancel the task before
its spawn function has scheduled it.

The history variable says whether some wake has reached the outcome of its `schedule`,
or has returned, since the start of the most recent poll. The outcome is that it found
the task completed or the flag set, enqueued its work item, or gave up. `wake_raw`
releases its reference behind it, and the task may be polled before that.
-/

namespace Kcom.WorkItem

open Conc

/-! ## Who serves a wake -/

/-- The flag `scheduled` is set on behalf of this operation, which will clear it or
hand it on to a work item. -/
def Op.flags : Op → Nat
  | .contextIsValid => 1
  | .createWorkItem => 1
  | .submit _ _ => 1
  | .abandon => 1
  | .run _ .clearScheduled => 1
  | _ => 0

/-- The operation leads to the start of a poll, or to the end of the task, unless a
work item cannot be created. -/
def Op.serves : Op → Nat
  | .loadCompleted => 1
  | .casScheduled => 1
  | .run _ .checkCompleted => 1
  | .run _ .loadCancel => 1
  | .run _ .rawWaker => 1
  | .run _ .pollStart => 1
  | .run _ (.storeCompleted _) => 1
  | op => op.flags

/-- The operation leads to a check of `cancel_requested`, or to the end of the task,
unless a work item cannot be created. -/
def Op.obeys : Op → Nat
  | .loadCompleted => 1
  | .casScheduled => 1
  | .run _ .checkCompleted => 1
  | .run _ .loadCancel => 1
  | .run _ (.storeCompleted _) => 1
  | op => op.flags

theorem Op.flags_le_obeys (op : Op) : op.flags ≤ op.obeys := by
  cases op with
  | run id op => cases op <;> simp [Op.flags, Op.obeys]
  | _ => simp [Op.flags, Op.obeys]

theorem Op.obeys_le_serves (op : Op) : op.obeys ≤ op.serves := by
  cases op with
  | run id op => cases op <;> simp [Op.obeys, Op.serves, Op.flags]
  | _ => simp [Op.obeys, Op.serves, Op.flags]

theorem flags_le_obeys (threads : List (Thread Call Op)) :
    load Op.flags threads ≤ load Op.obeys threads :=
  load_mono Op.flags_le_obeys

theorem obeys_le_serves (threads : List (Thread Call Op)) :
    load Op.obeys threads ≤ load Op.serves threads :=
  load_mono Op.obeys_le_serves

def Call.spawns : Call → Bool
  | .spawn _ => true
  | _ => false

def Call.wakes : Call → Bool
  | .wake _ => true
  | .wakeByRef _ => true
  | _ => false

def Call.cancels : Call → Bool
  | .cancel _ => true
  | _ => false

/-! ## The history variable -/

/-- A `schedule` reaches its outcome with this operation. -/
def State.settles (s : State) : Op → Bool
  | .loadCompleted => s.completed
  | .casScheduled => s.scheduled
  | .submit _ .enqueue => true
  | .abandon => true
  | _ => false

/-- The call that thread `i` executes returns with the operation. -/
def State.returns (driver : Driver) (mode : Hardening) (s : State) (i : Nat) (c : Choice) (f : Call)
    (op : Op) (rest : List Op) : Bool :=
  (s.perform driver mode i f c op).any fun performed => (performed.2 ++ rest).isEmpty

/-- Whether a wake has been settled, or has returned, since the start of the most recent
poll, after one operation of a thread that executes `f`. -/
def State.woken (s : State) (f : Call) (returns woken : Bool) : Op → Bool
  | .run _ .pollStart => false
  | op => woken || (f.wakes && (s.settles op || returns))

def State.record (driver : Driver) (mode : Hardening) (s : State) (a : State.Label) (woken : Bool) :
    Bool :=
  match a with
  | .run i c =>
      match s.threads[i]? with
      | some ⟨f, op :: rest⟩ => s.woken f (s.returns driver mode i c f op rest) woken op
      | _ => woken
  | _ => woken

/-- A work-item task whose wakes are watched. -/
def watched (driver : Driver) (mode : Hardening) : Sys (State × Bool) State.Label :=
  (system driver mode).withHistory false (State.record driver mode)

/-! ## One operation at a time -/

section Perform

variable {driver : Driver} {mode : Hardening} {s s₁ : State} {i : Nat} {c : Choice} {f : Call}
  {op : Op} {push : List Op}

/-- The work item that the operation is about is one of the first `n`. -/
def Op.Created (n : Nat) (op : Op) : Prop :=
  ∀ id sub, op = .submit id sub → id < n

theorem queuedItems_enqueue {items : List Item} {id : Nat} (created : id < items.length) :
    0 < queuedItems (items.modify id fun item => { item with phase := .queued }) := by
  have swap := queuedItems_phase .queued (List.getElem?_eq_getElem created)
  rw [if_pos rfl] at swap
  split at swap
  · next queued =>
      have here := le_total (fun item : Item => if item.phase = .queued then 1 else 0)
        (List.getElem?_eq_getElem created)
      simp only [queued, if_true] at here
      unfold queuedItems at swap ⊢
      omega
  · omega

/-- What an operation does to the flag, for a weight that counts the operations that
lean on it. -/
theorem perform_flags (performed : s.perform driver mode i f c op = some (s₁, push))
    (created : op.Created s.items.length) (set : s₁.scheduled = true) :
    (s.scheduled = true ∧
      op.flags + queuedItems s.items ≤ total Op.flags push + queuedItems s₁.items) ∨
      0 < total Op.flags push + queuedItems s₁.items := by
  have keep : op.flags = 0 → s₁.items = s.items → s.scheduled = true →
      (s.scheduled = true ∧
        op.flags + queuedItems s.items ≤ total Op.flags push + queuedItems s₁.items) ∨
        0 < total Op.flags push + queuedItems s₁.items := by
    intro noFlag items was
    rw [items, noFlag]
    exact Or.inl ⟨was, by omega⟩
  cases op with
  | casScheduled =>
      simp only [State.perform] at performed
      split at performed <;> cases performed
      · exact keep rfl rfl ‹_›
      · exact Or.inr (Nat.add_pos_left (by simp [Op.flags]) _)
  | contextIsValid =>
      cases performed
      exact Or.inr (Nat.add_pos_left (by split <;> exact Nat.one_pos) _)
  | createWorkItem =>
      simp only [State.perform] at performed
      split at performed <;> cases performed <;> exact Or.inr (Nat.add_pos_left Nat.one_pos _)
  | submit id op =>
      cases op with
      | storeWorkItem =>
          cases performed
          exact Or.inr (Nat.add_pos_left Nat.one_pos _)
      | addRef =>
          simp only [State.perform, State.performSubmit, Option.map_eq_some_iff] at performed
          obtain ⟨_, -, performed⟩ := performed
          cases performed
          exact Or.inr (Nat.add_pos_left Nat.one_pos _)
      | enqueue =>
          cases performed
          right
          have queued := queuedItems_enqueue (created id .enqueue rfl)
          exact Nat.lt_of_lt_of_le queued (Nat.le_add_left _ _)
  | abandon =>
      cases performed
      cases set
  | newHandle | addHandle | cloneRaw | subRef =>
      simp only [State.perform, Option.map_eq_some_iff] at performed
      obtain ⟨_, -, performed⟩ := performed
      cases performed
      exact keep rfl rfl set
  | checkContext | loadCompleted | trackerBegin | trackerComplete | free | releaseContext |
      loadCancelled | setContext =>
      cases performed
      exact keep rfl rfl set
  | allocate | endSpawn | casCancel =>
      simp only [State.perform] at performed
      split at performed <;> cases performed <;> exact keep rfl rfl set
  | deleteWorkItem id =>
      cases performed
      left
      rw [queuedItems_delete]
      exact ⟨set, Nat.add_le_add_right (Nat.zero_le _) _⟩
  | run id op =>
      cases op with
      | clearScheduled =>
          cases performed
          cases set
      | rawWaker =>
          simp only [State.perform, State.performRun, Option.map_eq_some_iff] at performed
          obtain ⟨_, -, performed⟩ := performed
          cases performed
          exact keep rfl rfl set
      | polling =>
          simp only [State.perform, State.performRun] at performed
          split at performed
          · cases performed
          · split at performed <;> cases performed <;> exact keep rfl rfl set
      | _ =>
          cases performed
          exact keep rfl rfl set

/-- What an operation does to those who serve wakes, or cancels: their number does not
go down, or there is one ahead, unless a `schedule` finds the flag set, gives up, or
a callback passes the point that counts. -/
theorem perform_tends {w : Op → Nat} (weight : w = Op.serves ∨ w = Op.obeys)
    (performed : s.perform driver mode i f c op = some (s₁, push))
    (created : op.Created s.items.length) (unfinished : s₁.completed = false) :
    w op + queuedItems s.items ≤ total w push + queuedItems s₁.items ∨
      0 < total w push + queuedItems s₁.items ∨
      (op = .casScheduled ∧ s.scheduled = true ∧ s₁ = s ∧ push = []) ∨ op = .abandon ∨
      (w = Op.serves ∧ ∃ id, op = .run id .pollStart) ∨
      (w = Op.obeys ∧ s₁.cancelRequested = false ∧ ∃ id, op = .run id .loadCancel) := by
  have keep : w op = 0 → s₁.items = s.items →
      w op + queuedItems s.items ≤ total w push + queuedItems s₁.items := by
    intro noWeight items
    rw [items, noWeight]
    omega
  cases op with
  | casScheduled =>
      simp only [State.perform] at performed
      split at performed <;> cases performed
      · exact .inr (.inr (.inl ⟨rfl, ‹_›, rfl, rfl⟩))
      · right; left
        rcases weight with rfl | rfl <;>
          exact Nat.add_pos_left (by simp [Op.serves, Op.obeys, Op.flags]) _
  | loadCompleted =>
      cases performed
      rw [unfinished, if_neg Bool.false_ne_true]
      right; left
      rcases weight with rfl | rfl <;> exact Nat.add_pos_left Nat.one_pos _
  | casCancel =>
      simp only [State.perform] at performed
      split at performed <;> cases performed
      · left
        rcases weight with rfl | rfl <;> exact keep rfl rfl
      · right; left
        rcases weight with rfl | rfl <;> exact Nat.add_pos_left Nat.one_pos _
  | contextIsValid =>
      cases performed
      right; left
      rcases weight with rfl | rfl <;>
        exact Nat.add_pos_left (by split <;> exact Nat.one_pos) _
  | createWorkItem =>
      simp only [State.perform] at performed
      right; left
      rcases weight with rfl | rfl <;> split at performed <;> cases performed <;>
        exact Nat.add_pos_left Nat.one_pos _
  | submit id op =>
      right; left
      cases op with
      | storeWorkItem =>
          cases performed
          rcases weight with rfl | rfl <;> exact Nat.add_pos_left Nat.one_pos _
      | addRef =>
          simp only [State.perform, State.performSubmit, Option.map_eq_some_iff] at performed
          obtain ⟨_, -, performed⟩ := performed
          cases performed
          rcases weight with rfl | rfl <;> exact Nat.add_pos_left Nat.one_pos _
      | enqueue =>
          cases performed
          have queued := queuedItems_enqueue (created id .enqueue rfl)
          exact Nat.lt_of_lt_of_le queued (Nat.le_add_left _ _)
  | abandon => exact .inr (.inr (.inr (.inl rfl)))
  | setContext form =>
      cases performed
      left
      rcases weight with rfl | rfl <;> exact keep rfl rfl
  | newHandle | addHandle | cloneRaw | subRef =>
      simp only [State.perform, Option.map_eq_some_iff] at performed
      obtain ⟨_, -, performed⟩ := performed
      cases performed
      left
      rcases weight with rfl | rfl <;> exact keep rfl rfl
  | checkContext | trackerBegin | trackerComplete | free | releaseContext | loadCancelled =>
      cases performed
      left
      rcases weight with rfl | rfl <;> exact keep rfl rfl
  | allocate | endSpawn =>
      simp only [State.perform] at performed
      left
      split at performed <;> cases performed <;> rcases weight with rfl | rfl <;>
        exact keep rfl rfl
  | deleteWorkItem id =>
      cases performed
      left
      rw [queuedItems_delete]
      rcases weight with rfl | rfl <;> exact Nat.add_le_add_right (Nat.zero_le _) _
  | run id op =>
      cases op with
      | clearScheduled =>
          cases performed
          right; left
          rcases weight with rfl | rfl <;> exact Nat.add_pos_left Nat.one_pos _
      | checkCompleted =>
          cases performed
          rw [unfinished, if_neg Bool.false_ne_true]
          right; left
          rcases weight with rfl | rfl <;> exact Nat.add_pos_left Nat.one_pos _
      | loadCancel =>
          cases performed
          cases requested : s.cancelRequested with
          | true =>
              right; left
              rcases weight with rfl | rfl <;> exact Nat.add_pos_left Nat.one_pos _
          | false =>
              rcases weight with rfl | rfl
              · exact .inr (.inl (Nat.add_pos_left Nat.one_pos _))
              · exact .inr (.inr (.inr (.inr (.inr ⟨rfl, rfl, id, rfl⟩))))
      | rawWaker =>
          simp only [State.perform, State.performRun, Option.map_eq_some_iff] at performed
          obtain ⟨_, -, performed⟩ := performed
          cases performed
          rcases weight with rfl | rfl
          · exact .inr (.inl (Nat.add_pos_left Nat.one_pos _))
          · exact .inl (keep rfl rfl)
      | pollStart =>
          cases performed
          rcases weight with rfl | rfl
          · exact .inr (.inr (.inr (.inr (.inl ⟨rfl, id, rfl⟩))))
          · exact .inl (keep rfl rfl)
      | polling =>
          simp only [State.perform, State.performRun] at performed
          left
          split at performed
          · cases performed
          · split at performed <;> cases performed <;> rcases weight with rfl | rfl <;>
              exact keep rfl rfl
      | storeCompleted waker =>
          cases performed
          cases unfinished
      | dropFuture waker | dropping waker | swapWorkItem =>
          cases performed
          left
          rcases weight with rfl | rfl <;> exact keep rfl rfl

/-- Work items only come, and a `schedule` goes on with an item that is there. -/
theorem perform_created (performed : s.perform driver mode i f c op = some (s₁, push))
    (created : op.Created s.items.length) :
    s.items.length ≤ s₁.items.length ∧ ∀ op' ∈ push, op'.Created s₁.items.length := by
  have free : (∀ id sub, .submit id sub ∉ push) → ∀ op' ∈ push, op'.Created s₁.items.length := by
    rintro none op' member id sub rfl
    exact absurd member (none id sub)
  cases op with
  | createWorkItem =>
      simp only [State.perform] at performed
      split at performed <;> cases performed
      · exact ⟨Nat.le_refl _, free (by simp)⟩
      · simp [Op.Created]
  | submit id op =>
      have taken := created id op rfl
      cases op with
      | storeWorkItem =>
          cases performed
          exact ⟨Nat.le_refl _, by simpa [Op.Created] using taken⟩
      | addRef =>
          simp only [State.perform, State.performSubmit, Option.map_eq_some_iff] at performed
          obtain ⟨_, -, performed⟩ := performed
          cases performed
          exact ⟨Nat.le_refl _, by simpa [Op.Created] using taken⟩
      | enqueue =>
          cases performed
          exact ⟨by simp, free (by simp)⟩
  | deleteWorkItem id =>
      cases performed
      exact ⟨by simp, free (by simp)⟩
  | newHandle | addHandle | cloneRaw =>
      simp only [State.perform, Option.map_eq_some_iff] at performed
      obtain ⟨_, -, performed⟩ := performed
      cases performed
      exact ⟨Nat.le_refl _, free (by simp)⟩
  | subRef holder =>
      simp only [State.perform, Option.map_eq_some_iff] at performed
      obtain ⟨_, -, performed⟩ := performed
      cases performed
      exact ⟨Nat.le_refl _, free (by intro id sub; split <;> simp)⟩
  | allocate | endSpawn | casScheduled | casCancel =>
      simp only [State.perform] at performed
      split at performed <;> cases performed <;> exact ⟨Nat.le_refl _, free (by simp)⟩
  | checkContext | setContext | loadCompleted | contextIsValid | free =>
      cases performed
      exact ⟨Nat.le_refl _, free (by intro id sub; split <;> simp)⟩
  | abandon =>
      cases performed
      exact ⟨Nat.le_refl _, free (by simp [State.complete])⟩
  | trackerBegin | trackerComplete | releaseContext | loadCancelled =>
      cases performed
      exact ⟨Nat.le_refl _, free (by simp)⟩
  | run id op =>
      cases op with
      | rawWaker =>
          simp only [State.perform, State.performRun, Option.map_eq_some_iff] at performed
          obtain ⟨_, -, performed⟩ := performed
          cases performed
          exact ⟨Nat.le_refl _, free (by simp)⟩
      | polling =>
          simp only [State.perform, State.performRun] at performed
          split at performed
          · cases performed
          · split at performed <;> cases performed <;>
              exact ⟨Nat.le_refl _, free (by simp [State.afterPoll])⟩
      | checkCompleted | loadCancel =>
          cases performed
          exact ⟨Nat.le_refl _, free (by intro id sub; split <;> simp [State.complete])⟩
      | swapWorkItem =>
          cases performed
          refine ⟨Nat.le_refl _, free ?_⟩
          intro id sub
          cases State.chosen driver s _ <;> simp [State.complete]
      | dropping waker =>
          cases performed
          exact ⟨Nat.le_refl _, free (by cases waker <;> simp [State.afterPoll])⟩
      | _ =>
          cases performed
          exact ⟨Nat.le_refl _, free (by simp)⟩

/-- What clients have asked for: the task is spawned by a call, not by an operation, and
`cancel_requested` is set by a `cancel`, for good. -/
theorem perform_requests (performed : s.perform driver mode i f c op = some (s₁, push)) :
    s₁.spawned = s.spawned ∧ (s₁.cancelRequested = s.cancelRequested ∨
      (op = .casCancel ∧ s₁.cancelRequested = true ∧ push = [.loadCompleted])) := by
  cases op with
  | casCancel =>
      simp only [State.perform] at performed
      split at performed <;> cases performed
      · exact ⟨rfl, .inl rfl⟩
      · exact ⟨rfl, .inr ⟨rfl, rfl, rfl⟩⟩
  | newHandle | addHandle | cloneRaw | subRef =>
      simp only [State.perform, Option.map_eq_some_iff] at performed
      obtain ⟨_, -, performed⟩ := performed
      cases performed
      exact ⟨rfl, .inl rfl⟩
  | allocate | endSpawn | casScheduled | createWorkItem =>
      simp only [State.perform] at performed
      split at performed <;> cases performed <;> exact ⟨rfl, .inl rfl⟩
  | submit id op =>
      cases op with
      | addRef =>
          simp only [State.perform, State.performSubmit, Option.map_eq_some_iff] at performed
          obtain ⟨_, -, performed⟩ := performed
          cases performed
          exact ⟨rfl, .inl rfl⟩
      | _ =>
          cases performed
          exact ⟨rfl, .inl rfl⟩
  | run id op =>
      cases op with
      | rawWaker =>
          simp only [State.perform, State.performRun, Option.map_eq_some_iff] at performed
          obtain ⟨_, -, performed⟩ := performed
          cases performed
          exact ⟨rfl, .inl rfl⟩
      | polling =>
          simp only [State.perform, State.performRun] at performed
          split at performed
          · cases performed
          · split at performed <;> cases performed <;> exact ⟨rfl, .inl rfl⟩
      | _ =>
          cases performed
          exact ⟨rfl, .inl rfl⟩
  | _ =>
      cases performed
      exact ⟨rfl, .inl rfl⟩

theorem perform_casCancel (performed : s.perform driver mode i f c .casCancel = some (s₁, push)) :
    s₁.cancelRequested = true := by
  simp only [State.perform] at performed
  split at performed <;> cases performed
  · assumption
  · rfl

end Perform

/-! ## The spawn function -/

/-- The outcome of a `schedule` is still ahead. -/
def Op.ahead : Op → Bool
  | .checkContext _ => true
  | .allocate _ => true
  | .setContext _ => true
  | .newHandle => true
  | .loadCompleted => true
  | .casScheduled => true
  | .trackerBegin => true
  | .contextIsValid => true
  | .createWorkItem => true
  | .submit _ _ => true
  | .abandon => true
  | .casCancel => true
  | _ => false

/-- A `schedule` under way. -/
inductive Scheduling : List Op → Prop
  | loadCompleted : Scheduling [.loadCompleted]
  | casScheduled : Scheduling [.casScheduled]
  | trackerBegin : Scheduling [.trackerBegin, .contextIsValid]
  | contextIsValid : Scheduling [.contextIsValid]
  | createWorkItem : Scheduling [.createWorkItem]
  | submit (id : Nat) (op : Submit) : Scheduling [.submit id op]
  | abandon : Scheduling [.abandon]

/-- A spawn function before the outcome of its `schedule`. -/
inductive Spawning : List Op → Prop
  | checkContext (form : Spawn) : Spawning [.checkContext form]
  | allocate (form : Spawn) : Spawning [.allocate form]
  | setContext (form : Spawn) : Spawning [.setContext form]
  | newHandle : Spawning [.newHandle]
  | schedule {code tail : List Op} : Scheduling code → (∀ op ∈ tail, op.ahead = false) →
      Spawning (code ++ tail)

/-- Nobody can wake or cancel the task before its spawn function has scheduled it. -/
inductive Stage (s : State) (woken : Bool) : Prop
  | unspawned : s.spawned = false → s.threads = [] → s.owners = [] → queuedItems s.items = 0 →
      s.cancelRequested = false → woken = false → Stage s woken
  | spawning {form : Spawn} {code : List Op} : s.spawned = true →
      s.threads = [⟨.spawn form, code⟩] → Spawning code → s.owners = [] →
      queuedItems s.items = 0 → s.cancelRequested = false → woken = false → Stage s woken
  | spawned : s.spawned = true →
      (∀ t ∈ s.threads, t.tag.spawns = true → ∀ op ∈ t.code, op.ahead = false) → Stage s woken

section Steps

variable {driver : Driver} {mode : Hardening} {s s' s₁ : State} {i : Nat} {c : Choice} {f : Call}
  {op : Op} {push rest : List Op} {woken returns : Bool}

theorem complete_behind (s : State) : ∀ op ∈ s.complete, op.ahead = false := by
  unfold State.complete
  split <;> simp [Op.ahead]

/-- Behind the outcome of its `schedule` a call does not schedule again. -/
theorem perform_behind (performed : s.perform driver mode i f c op = some (s₁, push))
    (behind : op.ahead = false) : ∀ op' ∈ push, op'.ahead = false := by
  cases op with
  | endSpawn =>
      simp only [State.perform] at performed
      split at performed <;> cases performed <;> simp [Op.ahead]
  | addHandle | cloneRaw =>
      simp only [State.perform, Option.map_eq_some_iff] at performed
      obtain ⟨_, -, performed⟩ := performed
      cases performed
      simp
  | subRef holder =>
      simp only [State.perform, Option.map_eq_some_iff] at performed
      obtain ⟨_, -, performed⟩ := performed
      cases performed
      split <;> simp [Op.ahead]
  | free =>
      cases performed
      split <;> simp [Op.ahead]
  | trackerComplete | releaseContext | loadCancelled | deleteWorkItem =>
      cases performed
      simp
  | run id op =>
      cases op with
      | rawWaker =>
          simp only [State.perform, State.performRun, Option.map_eq_some_iff] at performed
          obtain ⟨_, -, performed⟩ := performed
          cases performed
          simp [Op.ahead]
      | polling =>
          simp only [State.perform, State.performRun] at performed
          split at performed
          · cases performed
          · split at performed <;> cases performed <;> simp [State.afterPoll, Op.ahead]
      | checkCompleted =>
          cases performed
          split
          · exact List.forall_mem_append.mpr ⟨complete_behind s, by simp [Op.ahead]⟩
          · simp [Op.ahead]
      | loadCancel =>
          cases performed
          split <;> simp [Op.ahead]
      | swapWorkItem =>
          cases performed
          refine List.forall_mem_append.mpr
            ⟨List.forall_mem_append.mpr ⟨?_, complete_behind s⟩, by simp [Op.ahead]⟩
          split <;> simp [Op.ahead]
      | dropping waker =>
          cases performed
          cases waker <;> simp [State.afterPoll, Op.ahead]
      | _ =>
          cases performed
          simp [Op.ahead]
  | _ => cases behind

/-- One step of `schedule`, before its outcome or with it. -/
theorem perform_scheduling {head : List Op}
    (performed : s.perform driver mode i f c op = some (s₁, push))
    (scheduling : Scheduling (op :: head)) :
    (Scheduling (push ++ head) ∧ s₁.owners = s.owners ∧
      queuedItems s₁.items = queuedItems s.items) ∨
      ∀ op' ∈ push ++ head, op'.ahead = false := by
  cases scheduling with
  | loadCompleted =>
      cases performed
      split
      · exact .inr (by simp)
      · exact .inl ⟨.casScheduled, rfl, rfl⟩
  | casScheduled =>
      simp only [State.perform] at performed
      split at performed <;> cases performed
      · exact .inr (by simp)
      · cases s.tracked
        · exact .inl ⟨.contextIsValid, rfl, rfl⟩
        · exact .inl ⟨.trackerBegin, rfl, rfl⟩
  | trackerBegin =>
      cases performed
      exact .inl ⟨.contextIsValid, rfl, rfl⟩
  | contextIsValid =>
      cases performed
      split
      · exact .inl ⟨.createWorkItem, rfl, rfl⟩
      · exact .inl ⟨.abandon, rfl, rfl⟩
  | createWorkItem =>
      simp only [State.perform] at performed
      split at performed <;> cases performed
      · exact .inl ⟨.abandon, rfl, rfl⟩
      · exact .inl ⟨.submit _ _, rfl, by simp [queuedItems]⟩
  | submit id op =>
      cases op with
      | storeWorkItem =>
          cases performed
          exact .inl ⟨.submit _ _, rfl, rfl⟩
      | addRef =>
          simp only [State.perform, State.performSubmit, Option.map_eq_some_iff] at performed
          obtain ⟨_, -, performed⟩ := performed
          cases performed
          exact .inl ⟨.submit _ _, rfl, rfl⟩
      | enqueue =>
          cases performed
          exact .inr (by simp)
  | abandon =>
      cases performed
      right
      rw [List.append_nil]
      exact complete_behind s

/-- The spawn function goes on, or has its outcome. -/
theorem perform_spawning (performed : s.perform driver mode i f c op = some (s₁, push))
    (spawning : Spawning (op :: rest)) :
    (Spawning (push ++ rest) ∧ s₁.owners = s.owners ∧
      queuedItems s₁.items = queuedItems s.items) ∨
      ∀ op' ∈ push ++ rest, op'.ahead = false := by
  generalize whole : op :: rest = code at spawning
  cases spawning with
  | checkContext form =>
      cases whole
      cases performed
      split
      · exact .inr (by simp)
      · exact .inl ⟨.allocate form, rfl, rfl⟩
  | allocate form =>
      cases whole
      simp only [State.perform] at performed
      split at performed <;> cases performed
      · exact .inr (by simp)
      · exact .inl ⟨.setContext form, rfl, rfl⟩
  | setContext form =>
      cases whole
      cases performed
      split
      · exact .inl ⟨.newHandle, rfl, rfl⟩
      · have next : Spawning ([.loadCompleted] ++ [.subRef .spawner]) :=
          .schedule .loadCompleted (by simp [Op.ahead])
        exact .inl ⟨next, rfl, rfl⟩
  | newHandle =>
      cases whole
      simp only [State.perform, Option.map_eq_some_iff] at performed
      obtain ⟨_, -, performed⟩ := performed
      cases performed
      have next : Spawning ([.loadCompleted] ++ [.subRef .spawner, .endSpawn]) :=
        .schedule .loadCompleted (by simp [Op.ahead])
      exact .inl ⟨next, rfl, rfl⟩
  | @schedule head tail scheduling free =>
      cases head with
      | nil => cases scheduling
      | cons first head =>
          simp only [List.cons_append, List.cons.injEq] at whole
          obtain ⟨rfl, rfl⟩ := whole
          rw [← List.append_assoc]
          rcases perform_scheduling performed scheduling with ⟨next, owners, queued⟩ | behind
          · exact .inl ⟨.schedule next free, owners, queued⟩
          · exact .inr (List.forall_mem_append.mpr ⟨behind, free⟩)

/-- A spawn function neither wakes nor cancels. -/
theorem Spawning.quiet (spawning : Spawning (op :: rest)) :
    op ≠ .casCancel ∧ ∀ id, op ≠ .run id .polling := by
  generalize whole : op :: rest = code at spawning
  cases spawning with
  | @schedule head tail scheduling free =>
      cases scheduling <;> cases whole <;> simp
  | _ =>
      cases whole
      simp

theorem Stage.run {rest : List Op} (stage : Stage s woken)
    (thread : s.threads[i]? = some ⟨f, op :: rest⟩)
    (performed : s.perform driver mode i f c op = some (s₁, push)) :
    Stage (s₁.moved (s.threads.set i ⟨f, push ++ rest⟩)) (s.woken f returns woken op) := by
  obtain ⟨spawned, cancels⟩ := perform_requests performed
  cases stage with
  | unspawned _ none =>
      rw [none] at thread
      cases thread
  | @spawning form code was alone spawning owners empty unrequested unwoken =>
      rw [alone] at thread
      have first : i = 0 := by
        cases i with
        | zero => rfl
        | succ i => cases thread
      subst first
      cases thread
      obtain ⟨notCancel, -⟩ := spawning.quiet
      have quiet : s₁.cancelRequested = false := by
        rcases cancels with same | ⟨cancel, -⟩
        · rw [same, unrequested]
        · exact absurd cancel notCancel
      have still : s.woken (.spawn form) returns woken op = false := by
        rw [unwoken]
        cases op with
        | run id op => cases op <;> rfl
        | _ => rfl
      rcases perform_spawning performed spawning with ⟨next, owned, queued⟩ | behind
      · have alone' : s.threads.set 0 ⟨.spawn form, push ++ rest⟩ =
            [⟨.spawn form, push ++ rest⟩] := by rw [alone, List.set_cons_zero]
        exact .spawning (spawned.trans was) alone' next (owned.trans owners)
          (queued.trans empty) quiet still
      · refine .spawned (spawned.trans was) ?_
        intro t member _
        rw [State.moved_threads, alone] at member
        simp only [List.set_cons_zero, List.mem_singleton] at member
        subst member
        exact behind
  | spawned was behind =>
      refine .spawned (spawned.trans was) ?_
      intro t member spawns
      rw [State.moved_threads] at member
      rcases List.mem_or_eq_of_mem_set member with before | rfl
      · exact behind t before spawns
      · have ops := behind _ (List.mem_of_getElem? thread) spawns
        refine List.forall_mem_append.mpr ⟨?_, ?_⟩
        · exact perform_behind performed (ops op List.mem_cons_self)
        · exact fun op' later => ops op' (List.mem_cons_of_mem _ later)

theorem Stage.start {id : Nat} (stage : Stage s woken)
    (step : s.step driver mode (.start id) = some s') : Stage s' woken := by
  obtain ⟨item, here, queued, rfl⟩ := State.step_start step
  have some : 0 < queuedItems s.items := by
    have le := le_total (fun item : Item => if item.phase = .queued then 1 else 0) here
    simp only [queued, if_true] at le
    exact le
  cases stage with
  | unspawned _ _ _ empty => exact absurd empty (Nat.ne_of_gt some)
  | spawning _ _ _ _ empty => exact absurd empty (Nat.ne_of_gt some)
  | spawned was behind =>
      refine .spawned was ?_
      intro t member spawns
      rcases List.mem_append.mp member with before | new
      · exact behind t before spawns
      · rw [List.mem_singleton.mp new] at spawns
        cases spawns

/-- A call that does not spawn the task comes from an owner, or from a poll. -/
theorem callable_cases (callable : s.callable driver f = true) :
    (∃ form, f = .spawn form ∧ s.spawned = false) ∨ s.owners ≠ [] ∨ ∃ j, s.pollingAt j = true := by
  have owned : ∀ {k : Nat} {o : Option Owner}, s.owners[k]? = some o → s.owners ≠ [] := by
    rintro k o here none
    rw [none] at here
    cases here
  have waker : ∀ {via : Source}, s.hasWaker via = true →
      s.owners ≠ [] ∨ ∃ j, s.pollingAt j = true := by
    intro via has
    cases via with
    | owner k => exact .inl (owned (of_decide_eq_true has))
    | activation j => exact .inr ⟨j, has⟩
  cases f with
  | spawn form =>
      simp only [State.callable, Bool.and_eq_true, Bool.not_eq_true'] at callable
      exact .inl ⟨form, rfl, callable.1⟩
  | cancel k | isCancelled k | cloneHandle k =>
      exact .inr (.inl (owned (of_decide_eq_true callable)))
  | dropHandle k | wake k | dropWaker k =>
      simp only [State.callable, Bool.and_eq_true] at callable
      exact .inr (.inl (owned (of_decide_eq_true callable.1)))
  | cloneWaker via | wakeByRef via => exact .inr (waker callable)
  | callback id => cases callable

theorem Stage.call (stage : Stage s woken) (step : s.step driver mode (.call f) = some s') :
    Stage s' woken := by
  obtain ⟨callable, rfl⟩ := State.step_call step
  cases stage with
  | unspawned fresh none owners empty unrequested unwoken =>
      rcases callable_cases callable with ⟨form, rfl, -⟩ | owned | ⟨j, polls⟩
      · have alone : s.threads ++ [⟨.spawn form, [.checkContext form]⟩] =
            [⟨.spawn form, [.checkContext form]⟩] := by rw [none, List.nil_append]
        exact .spawning rfl alone (.checkContext form) owners empty unrequested unwoken
      · exact absurd owners owned
      · simp [State.pollingAt, none] at polls
  | @spawning form code was alone spawning owners empty unrequested unwoken =>
      exfalso
      rcases callable_cases callable with ⟨form', -, fresh⟩ | owned | ⟨j, polls⟩
      · rw [was] at fresh
        cases fresh
      · exact owned owners
      · cases code with
        | nil => cases j <;> simp [State.pollingAt, alone] at polls
        | cons op rest =>
            obtain ⟨-, notPolling⟩ := spawning.quiet
            cases j with
            | zero =>
                simp only [State.pollingAt, alone, List.getElem?_cons_zero] at polls
                split at polls
                · next matched =>
                    cases matched
                    exact notPolling _ rfl
                · cases polls
            | succ j => simp [State.pollingAt, alone] at polls
  | spawned was behind =>
      have kept : (s.enter f).spawned = true ∧ (s.enter f).threads = s.threads := by
        cases f <;> exact ⟨by first | rfl | exact was, rfl⟩
      refine .spawned kept.1 ?_
      intro t member spawns
      rcases List.mem_append.mp member with before | new
      · exact behind t before spawns
      · rw [List.mem_singleton.mp new] at spawns
        cases f with
        | spawn form =>
            simp only [State.callable, was, Bool.not_true, Bool.false_and] at callable
            cases callable
        | _ => cases spawns

end Steps

end Kcom.WorkItem
