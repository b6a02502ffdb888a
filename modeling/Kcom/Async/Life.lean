import Kcom.Async.Outcome
import Kcom.Com.Lifetime.Ownership

/-!
# The life of an operation's object

`spawn_raw_cancellable` (`src/async_com.rs`) makes the object of an operation, takes a
second reference with `shim_add_ref` and hands it to the task as a raw pointer. Nothing
owns that reference before the first poll of the task, which puts a `TaskGuard` over it.
If the task is not spawned the function gives both references back by hand and returns
`Err`; otherwise it may return before, while or after the task runs.

The object, its counter and its clients are those of `Kcom/Com/Lifetime/Model.lean`: client
0 is the thread of `spawn_raw_cancellable` and owns the operation when the function has
returned `Ok`, client 1 is the task, and the others join later and get their references
from each other. The polls, the stores and the calls of `get_status` and `get_result` are
those of `Kcom/Async/Outcome.lean`. A client calls with a reference that it owns and gives
none away before the call returns.

Of the executor: it polls a task that was spawned at least once before it drops its future,
exclusively, and it drops the future once.
-/

namespace Kcom.Async

open Conc
open Com (Container iidIUnknown)
open Com.Lifetime (Holdings releaseInner)

/-- `ComObject::<AsyncOperationTask<T, F>, AsyncOperationVtbl<T>>`, which answers to no IID but
that of `IUnknown`. -/
def operationObject : Container :=
  .comObject (.derived iidIUnknown [⟨"get_status", false⟩, ⟨"get_result", false⟩] .iUnknown)
    .globalAllocator

/-- Where `spawn_raw_cancellable` is: up to the outcome of the allocation in
`spawn_dpc_task_cancellable`, behind it, in the first and in the second release of the error
path, and returned. -/
inductive Spawn
  | addRef
  | spawned
  | refused
  | releasing
  | ok
  | err
  deriving DecidableEq, Repr

/-- The async block of the task: it holds the pointer without a guard, or with one, or the
guard is dropped. -/
inductive Body
  | absent
  | unresumed
  | guarded
  | returned
  deriving DecidableEq, Repr

/-- A call of `get_status` or `get_result` that has returned. -/
def Call.returned {T : Type} : Call T → Bool
  | .status _ => true
  | .result _ => true
  | _ => false

/-- `shim_add_ref` and `shim_release`, called on the object and not through its vtable. -/
def shimAddRef : List Com.Lifetime.Op :=
  [.loadOuter, .add .raw]

def shimRelease : List Com.Lifetime.Op :=
  [.loadOuter, .sub]

/-- The object of an operation, its task and its clients. -/
structure Life (T : Type) where
  object : Com.Lifetime.State
  outcome : Outcome T
  spawn : Spawn
  body : Body
  /-- The client of each call in `outcome`. -/
  callers : List Nat

namespace Life

variable {T : Type}

/-- `spawn_raw_cancellable` behind `ComObject::new`. -/
def initial (T : Type) : Life T where
  object := ⟨1, [⟨⟨1, []⟩, shimAddRef⟩, ⟨⟨0, []⟩, []⟩], []⟩
  outcome := ⟨Origin.spawned.state, .idle, .outside, false⟩
  spawn := .addRef
  body := .absent
  callers := []

/-- The next operation of client `i`; the outcome of the allocation of the task; the second
release of the error path; the return of `spawn_raw_cancellable`; the task, and the drop of
its guard; the calls of clients. -/
inductive Label (T : Type)
  | run (i : Nat)
  | allocate (fails : Bool)
  | releaseAgain
  | returns
  | task (a : Outcome.Label T)
  | dropGuard
  | call (i : Nat) (f : Com.Lifetime.Call)
  | give (i j : Nat)
  | join
  | getStatus (i : Nat)
  | getResult (i : Nat)
  | access (j : Nat)

/-- Client `i` is in a call of `get_status` or `get_result`. -/
def busy (s : Life T) (i : Nat) : Bool :=
  (s.callers.zip s.outcome.operation.calls).any fun p => p.1 = i && !p.2.returned

/-- A client that may use its references. -/
def free (s : Life T) (i : Nat) : Bool :=
  s.spawn = .ok && i ≠ 1 && !s.busy i

/-- Client `i` calls `shim_release` with a reference of its own. -/
def release (o : Com.Lifetime.State) (i : Nat) : Option Com.Lifetime.State :=
  match o.clients[i]? with
  | some ⟨t, []⟩ =>
      if 0 < t.raw then
        some (o.moved (o.clients.set i ⟨{ t with raw := t.raw - 1 }, shimRelease⟩))
      else none
  | _ => none

/-- No call of client `i` is running. -/
def idle (o : Com.Lifetime.State) (i : Nat) : Bool :=
  (o.clients[i]?).any fun t => t.code.isEmpty

/-- Client `i` owns a reference and is in no call of the object's shims. -/
def owns (o : Com.Lifetime.State) (i : Nat) : Bool :=
  (o.clients[i]?).any fun t => t.code.isEmpty && 0 < t.tag.count

/-- The step of the task that the executor may take now: it polls the block until that has
returned, and drops it between two polls or then. -/
def stepTask (s : Life T) : Outcome.Label T → Option (Life T)
  | .poll =>
      if s.body = .unresumed ∨ s.body = .guarded then
        (s.outcome.step .poll).map fun o => { s with outcome := o, body := .guarded }
      else none
  | .cancel =>
      if s.spawn = .ok then (s.outcome.step .cancel).map fun o => { s with outcome := o } else none
  | .operation .dropTask =>
      match s.outcome.operation.task, s.body with
      | .suspended, .guarded =>
          (s.outcome.step (.operation .dropTask)).map fun o => { s with outcome := o }
      | .storing [], .returned =>
          if idle s.object 1 then
            (s.outcome.step (.operation .dropTask)).map fun o => { s with outcome := o }
          else none
      | _, _ => none
  | .operation .callStatus => none
  | .operation .callResult => none
  | .operation (.run _) => none
  | a => (s.outcome.step a).map fun o => { s with outcome := o }

def step (mode : Hardening) (s : Life T) : Label T → Option (Life T)
  | .run i => (s.object.step mode operationObject (.run i none)).map fun o => { s with object := o }
  | .allocate fails =>
      if s.spawn = .addRef then
        if fails then
          (release s.object 0).map fun o => { s with object := o, spawn := .refused }
        else
          (s.object.step mode operationObject (.give 0 1)).map fun o =>
            { s with object := o, spawn := .spawned, body := .unresumed }
      else none
  | .releaseAgain =>
      if s.spawn = .refused then
        (release s.object 0).map fun o => { s with object := o, spawn := .releasing }
      else none
  | .returns =>
      match s.spawn with
      | .spawned => some { s with spawn := .ok }
      | .releasing => if idle s.object 0 then some { s with spawn := .err } else none
      | _ => none
  | .task a => s.stepTask a
  | .dropGuard =>
      match s.outcome.operation.task, s.body with
      | .storing [], .guarded | .dropped, .guarded =>
          (release s.object 1).map fun o => { s with object := o, body := .returned }
      | _, _ => none
  | .call i f =>
      if s.free i then
        (s.object.step mode operationObject (.call i f)).map fun o => { s with object := o }
      else none
  | .give i j =>
      if s.free i ∧ j ≠ 1 then
        (s.object.step mode operationObject (.give i j)).map fun o => { s with object := o }
      else none
  | .join =>
      if s.spawn = .ok then
        (s.object.step mode operationObject .join).map fun o => { s with object := o }
      else none
  | .getStatus i =>
      if s.free i ∧ owns s.object i then
        (s.outcome.step (.operation .callStatus)).map fun o =>
          { s with outcome := o, callers := s.callers ++ [i] }
      else none
  | .getResult i =>
      if s.free i ∧ owns s.object i then
        (s.outcome.step (.operation .callResult)).map fun o =>
          { s with outcome := o, callers := s.callers ++ [i] }
      else none
  | .access j => (s.outcome.step (.operation (.run j))).map fun o => { s with outcome := o }

/-- The references of the task. -/
def taskRefs (s : Life T) : Nat :=
  ((s.object.clients[1]?).map Com.Lifetime.clientRefs).getD 0

/-- The references of the clients. -/
def clientRefs (s : Life T) : Nat :=
  total Com.Lifetime.clientRefs (s.object.clients.eraseIdx 1)

/-- A reference is added only while the counter has room for it. -/
def Room (mode : Hardening) (s : Life T) : Label T → Prop
  | .run i => Com.Lifetime.Room (Com.Lifetime.most mode) s.object (.run i none)
  | _ => True

instance (mode : Hardening) (s : Life T) : (a : Label T) → Decidable (Room mode s a)
  | .run i => inferInstanceAs
      (Decidable (Com.Lifetime.Room (Com.Lifetime.most mode) s.object (.run i none)))
  | .allocate _ | .releaseAgain | .returns | .task _ | .dropGuard | .call _ _ | .give _ _ |
      .join | .getStatus _ | .getResult _ | .access _ => .isTrue trivial

end Life

/-- The runs of an operation's object, in one of the builds of the reference counter. -/
def life (mode : Hardening) (T : Type) : Sys (Life T) (Life.Label T) where
  start s := s = Life.initial T
  step := Life.step mode

namespace Life

variable {T : Type} {mode : Hardening} {s s' : Life T} {i j : Nat}
  {o o' : Com.Lifetime.State} {t : Holdings} {rest : List Com.Lifetime.Op}

/-! ## Releases -/

/-- What is left of a `shim_release` that has not returned. -/
def Releasing (code : List Com.Lifetime.Op) : Prop :=
  code = shimRelease ∨ code = [.sub] ∨ ∃ k, code = releaseInner.drop k

/-- A `shim_release` leaves the holdings alone and goes on to its end. -/
theorem Releasing.run {op : Com.Lifetime.Op} {t' : Holdings} {push : List Com.Lifetime.Op}
    (releasing : Releasing (op :: rest))
    (performed : op.perform mode none i o t = some (o', t', push)) :
    t' = t ∧ Releasing (push ++ rest) := by
  rcases releasing with code | code | ⟨k, code⟩
  · cases code
    cases performed
    exact ⟨rfl, .inr (.inl rfl)⟩
  · cases code
    obtain ⟨r, -, performed⟩ := Option.map_eq_some_iff.mp performed
    split at performed <;> cases performed
    · exact ⟨rfl, .inr (.inr ⟨0, rfl⟩)⟩
    · exact ⟨rfl, .inr (.inr ⟨5, rfl⟩)⟩
  · have here : op ∈ releaseInner := List.mem_of_mem_drop (code ▸ List.mem_cons_self)
    have later : rest = releaseInner.drop (k + 1) := by
      rw [← List.drop_drop, ← code, List.drop_one, List.tail_cons]
    simp only [releaseInner, List.mem_cons, List.not_mem_nil, or_false] at here
    have last : Releasing rest := .inr (.inr ⟨k + 1, later⟩)
    rcases here with rfl | rfl | rfl | rfl | rfl
    case inr.inr.inr.inr.inl =>
      simp only [Com.Lifetime.Op.perform] at performed
      split at performed <;> cases performed
      exact ⟨rfl, last⟩
    all_goals
      cases performed
      exact ⟨rfl, last⟩

/-- A call of `shim_release` keeps the account of the object. -/
theorem release_inv (inv : Com.Lifetime.Inv o) (released : release o i = some o') :
    Com.Lifetime.Inv o' ∧ ∃ t, o.clients[i]? = some ⟨t, []⟩ ∧ 0 < t.raw ∧
      o' = o.moved (o.clients.set i ⟨{ t with raw := t.raw - 1 }, shimRelease⟩) := by
  simp only [release] at released
  split at released
  · next t found =>
      split at released
      · next pos =>
          cases released
          have live := inv.live_of_count found (by simp only [Holdings.count]; omega)
          refine ⟨inv.set found ⟨.inr ⟨fun _ => Nat.one_pos, ?_⟩, ?_⟩ ?_ inv.small (.inl ?_),
            t, found, pos, rfl⟩
          · exact ⟨fun _ => Nat.one_pos, trivial⟩
          · exact ⟨fun same => Com.Lifetime.Op.noConfusion same, fun _ => rfl, trivial⟩
          · simp only [Com.Lifetime.clientRefs, Holdings.count, shimRelease, total_cons, total_nil,
              Com.Lifetime.Op.refs]
            omega
          · refine live.set live.log live.pos fun op mem => ?_
            simp only [shimRelease, List.mem_cons, List.not_mem_nil, or_false] at mem
            rcases mem with rfl | rfl <;> rfl
      · cases released
  · cases released

/-! ## The invariant -/

/-- The task and its reference. -/
def TaskFits (s : Life T) : Prop :=
  ∃ x, s.object.clients[1]? = some x ∧
    match s.body with
    | .absent => x = ⟨⟨0, []⟩, []⟩ ∧ s.outcome.operation.task = .suspended ∧
        s.outcome.poll = .outside
    | .unresumed => x = ⟨⟨1, []⟩, []⟩ ∧ s.outcome.operation.task = .suspended ∧
        s.outcome.poll = .outside
    | .guarded => x = ⟨⟨1, []⟩, []⟩
    | .returned => x.tag = ⟨0, []⟩ ∧ Releasing x.code ∧
        (s.outcome.operation.task = .storing [] ∨ s.outcome.operation.task = .dropped)

/-- Where `spawn_raw_cancellable` is, and what it owns. -/
def SpawnFits (s : Life T) : Prop :=
  match s.spawn with
  | .addRef => s.body = .absent ∧ ∃ x, s.object.clients = [x, ⟨⟨0, []⟩, []⟩] ∧
      (x = ⟨⟨1, []⟩, shimAddRef⟩ ∨ x = ⟨⟨1, []⟩, [.add .raw]⟩ ∨ x = ⟨⟨1, []⟩, [.gain .raw]⟩ ∨
        x = ⟨⟨2, []⟩, []⟩)
  | .spawned => s.body ≠ .absent ∧ ∃ y, s.object.clients = [⟨⟨1, []⟩, []⟩, y]
  | .refused => s.body = .absent ∧ ∃ code,
      s.object.clients = [⟨⟨1, []⟩, code⟩, ⟨⟨0, []⟩, []⟩] ∧
        (code = shimRelease ∨ code = [.sub] ∨ code = [])
  | .releasing => s.body = .absent ∧ ∃ code,
      s.object.clients = [⟨⟨0, []⟩, code⟩, ⟨⟨0, []⟩, []⟩] ∧
        (code = shimRelease ∨ code = [.sub] ∨ ∃ k, Com.Lifetime.Ended 0 k s.object)
  | .ok => s.body ≠ .absent
  | .err => s.body = .absent ∧ s.object.clients = [⟨⟨0, []⟩, []⟩, ⟨⟨0, []⟩, []⟩] ∧
      s.object.log = [.lastReference 0, .dropInner 0, .dealloc 0]

/-- What holds in every state reached. -/
structure Inv (s : Life T) : Prop where
  object : Com.Lifetime.Inv s.object
  task : s.TaskFits
  spawn : s.SpawnFits
  early : s.spawn ≠ .ok → s.callers = []
  aligned : s.callers.length = s.outcome.operation.calls.length
  /-- Whoever is in a call owns the reference that it calls with. -/
  calls : ∀ (j i : Nat) (call : Call T), s.callers[j]? = some i →
    s.outcome.operation.calls[j]? = some call → call.returned = false →
      i ≠ 1 ∧ ∃ t, s.object.clients[i]? = some ⟨t, []⟩ ∧ 0 < t.count

theorem Inv.initial : Inv (initial T) where
  object := by
    refine ⟨rfl, Nat.one_lt_two_pow (Nat.succ_ne_zero 31), ?_, .inl ⟨rfl, Nat.one_pos, ?_⟩⟩
    · intro t mem
      rcases List.mem_cons.mp mem with rfl | mem
      · refine ⟨.inl Nat.one_pos, ?_⟩
        exact ⟨nofun, nofun, trivial⟩
      · rcases List.mem_singleton.mp mem with rfl
        exact ⟨.inr trivial, trivial⟩
    · intro t mem op opMem
      rcases List.mem_cons.mp mem with rfl | mem
      · simp only [shimAddRef, List.mem_cons, List.not_mem_nil, or_false] at opMem
        rcases opMem with rfl | rfl <;> rfl
      · rcases List.mem_singleton.mp mem with rfl
        cases opMem
  task := ⟨_, rfl, rfl, rfl, rfl⟩
  spawn := ⟨rfl, _, rfl, .inl rfl⟩
  early _ := rfl
  aligned := rfl
  calls := nofun

/-- Of two clients the one that is not the task. -/
theorem of_pair {x y z : Thread Holdings Com.Lifetime.Op} (found : [x, y][i]? = some z)
    (other : i ≠ 1) : i = 0 ∧ z = x := by
  match i with
  | 0 => exact ⟨rfl, (Option.some.inj found).symm⟩
  | 1 => exact absurd rfl other
  | i + 2 => cases found

/-- The next operation of the thread of `spawn_raw_cancellable`, or of a client. -/
theorem SpawnFits.run {op : Com.Lifetime.Op} {t' : Holdings} {push : List Com.Lifetime.Op}
    (fits : s.SpawnFits) (inv : Com.Lifetime.Inv s.object) (other : i ≠ 1)
    (found : s.object.clients[i]? = some ⟨t, op :: rest⟩)
    (performed : op.perform mode none i s.object t = some (o, t', push)) :
    SpawnFits { s with object := o.moved (s.object.clients.set i ⟨t', push ++ rest⟩) } := by
  have count := inv.count
  rw [Com.Lifetime.outstanding_eq] at count
  unfold SpawnFits at fits ⊢
  dsimp only
  cases phase : s.spawn <;> rw [phase] at fits <;> dsimp only at fits ⊢
  case ok => exact fits
  case addRef =>
    obtain ⟨absent, x, clients, shape⟩ := fits
    rw [clients] at found ⊢
    obtain ⟨rfl, rfl⟩ := of_pair found other
    refine ⟨absent, _, rfl, ?_⟩
    rcases shape with shape | shape | shape | shape <;> cases shape
    · cases performed
      exact .inr (.inl rfl)
    · obtain ⟨r, -, performed⟩ := Option.map_eq_some_iff.mp performed
      cases performed
      exact .inr (.inr (.inl rfl))
    · cases performed
      exact .inr (.inr (.inr rfl))
  case spawned =>
    obtain ⟨-, y, clients⟩ := fits
    rw [clients] at found
    cases (of_pair found other).2
  case refused =>
    obtain ⟨absent, code, clients, shape⟩ := fits
    rw [clients] at found count ⊢
    obtain ⟨rfl, same⟩ := of_pair found other
    cases same
    rcases shape with shape | shape | shape <;> cases shape
    · cases performed
      exact ⟨absent, _, rfl, .inr (.inl rfl)⟩
    · obtain ⟨r, gone, performed⟩ := Option.map_eq_some_iff.mp performed
      have two : s.object.refCount = 2 := count
      rw [two] at gone
      obtain rfl := Com.Lifetime.sub_of_pos Nat.two_pos (by omega) gone
      cases performed
      exact ⟨absent, _, rfl, .inr (.inr rfl)⟩
  case releasing =>
    obtain ⟨absent, code, clients, shape⟩ := fits
    rw [clients] at found count ⊢
    obtain ⟨rfl, same⟩ := of_pair found other
    cases same
    -- whatever happens, the task's thread is idle
    have ends : ∀ (x t : Thread Holdings Com.Lifetime.Op) (j : Nat), j ≠ 0 →
        [x, ⟨⟨0, []⟩, []⟩][j]? = some t → ∀ op ∈ t.code, op.ends = false := by
      intro x t j ne there op mem
      match j with
      | 0 => exact absurd rfl ne
      | 1 =>
          cases there
          cases mem
      | j + 2 => cases there
    rcases shape with shape | shape | ⟨k, ended⟩
    · cases shape
      cases performed
      exact ⟨absent, _, rfl, .inr (.inl rfl)⟩
    · cases shape
      obtain ⟨r, gone, performed⟩ := Option.map_eq_some_iff.mp performed
      have one : s.object.refCount = 1 := count
      rw [one] at gone
      obtain rfl := Com.Lifetime.sub_of_pos Nat.one_pos (by omega) gone
      cases performed
      have log : s.object.log = [] := by
        rcases inv.phase with live | ⟨j, k, ended⟩
        · exact live.log
        · rw [ended.zero] at one
          cases one
      refine ⟨absent, _, rfl, .inr (.inr ⟨0, ?_, rfl, Nat.zero_le _, ⟨_, rfl⟩, ?_⟩)⟩
      case refine_2 => exact fun j t => ends _ t j
      simp [log, Com.Lifetime.history]
    · obtain ⟨bound, rfl, -, later, zero, log⟩ := ended.perform (by rw [clients]; rfl) performed
      rw [later]
      exact ⟨absent, _, rfl, .inr (.inr ⟨k + 1, log, zero, bound, ⟨_, rfl⟩, fun j t => ends _ t j⟩)⟩
  case err =>
    obtain ⟨-, clients, -⟩ := fits
    rw [clients] at found
    cases (of_pair found other).2

theorem Inv.run (inv : s.Inv) (room : Room mode s (.run i))
    (next : s.step mode (.run i) = some s') : s'.Inv := by
  obtain ⟨o, moved, rfl⟩ := Option.map_eq_some_iff.mp next
  have object := inv.object.run room moved
  obtain ⟨t, op, rest, o', t', push, found, performed, rfl⟩ := Com.Lifetime.step_run moved
  have bound := (List.getElem?_eq_some_iff.mp found).1
  refine ⟨object, ?_, ?_, inv.early, inv.aligned, ?_⟩
  · obtain ⟨x, here, fits⟩ := inv.task
    by_cases task : i = 1
    · subst task
      rw [found] at here
      cases here
      refine ⟨⟨t', push ++ rest⟩, List.getElem?_set_self bound, ?_⟩
      dsimp only
      split at fits
      · cases fits.1
      · cases fits.1
      · cases fits
      · obtain ⟨tag, releasing, ended⟩ := fits
        obtain ⟨rfl, later⟩ := releasing.run performed
        exact ⟨tag, later, ended⟩
    · exact ⟨x, by rw [← here]; exact List.getElem?_set_ne task, fits⟩
  · by_cases task : i = 1
    · subst task
      obtain ⟨x, here, fits⟩ := inv.task
      rw [found] at here
      cases here
      have returned : s.body = .returned := by
        cases body : s.body with
        | returned => rfl
        | absent | unresumed =>
            rw [body] at fits
            cases fits.1
        | guarded =>
            rw [body] at fits
            cases fits
      have spawn := inv.spawn
      unfold SpawnFits at spawn ⊢
      dsimp only
      cases phase : s.spawn <;> rw [phase] at spawn <;> dsimp only at spawn ⊢
      case spawned =>
        obtain ⟨present, y, clients⟩ := spawn
        refine ⟨present, ⟨t', push ++ rest⟩, ?_⟩
        rw [Com.Lifetime.State.moved_clients, clients]
        rfl
      case ok => exact spawn
      all_goals
        rw [returned] at spawn
        cases spawn.1
    · exact inv.spawn.run inv.object task found performed
  · intro j i' call caller here running
    obtain ⟨other, t₀, there, pos⟩ := inv.calls j i' call caller here running
    refine ⟨other, t₀, ?_, pos⟩
    rw [← there]
    refine List.getElem?_set_ne ?_
    rintro rfl
    rw [found] at there
    cases there

/-! ## The function that spawns -/

/-- The task takes over its reference. -/
theorem Inv.spawned (inv : s.Inv) (next : s.step mode (.allocate false) = some s') :
    s'.Inv := by
  simp only [step, Bool.false_eq_true, if_false] at next
  split at next
  · next phase =>
      obtain ⟨o, moved, rfl⟩ := Option.map_eq_some_iff.mp next
      have object := inv.object.give moved
      obtain ⟨t, u, code, giver, taker, -, pos, rfl⟩ := Com.Lifetime.step_give moved
      have spawn := inv.spawn
      unfold SpawnFits at spawn
      rw [phase] at spawn
      obtain ⟨absent, x, clients, shape⟩ := spawn
      obtain ⟨y, here, fits⟩ := inv.task
      rw [absent] at fits
      have none := inv.early (by rw [phase]; nofun)
      rw [clients] at giver taker
      cases giver
      cases taker
      have full : t = ⟨2, []⟩ := by
        rcases shape with shape | shape | shape | shape <;> cases shape
        rfl
      subst full
      refine ⟨object, ⟨⟨⟨1, []⟩, []⟩, ?_, rfl, fits.2⟩, ⟨nofun, ⟨⟨1, []⟩, []⟩, ?_⟩, fun _ => none,
        inv.aligned, ?_⟩
      · rw [Com.Lifetime.State.moved_clients, clients]
        rfl
      · rw [Com.Lifetime.State.moved_clients, clients]
        rfl
      · intro j i call caller
        rw [none] at caller
        cases caller
  · cases next

/-- A `shim_release` of the error path. -/
theorem Inv.giveUp (inv : s.Inv) {raw : Nat} {spawn : Spawn} (absent : s.body = .absent)
    (clients : s.object.clients = [⟨⟨raw + 1, []⟩, []⟩, ⟨⟨0, []⟩, []⟩])
    (released : release s.object 0 = some o) (none : s.callers = [])
    (fits : ∀ o : Com.Lifetime.State, o.clients = [⟨⟨raw, []⟩, shimRelease⟩, ⟨⟨0, []⟩, []⟩] →
      SpawnFits { s with object := o, spawn := spawn }) :
    Inv { s with object := o, spawn := spawn } := by
  obtain ⟨object, t, found, pos, rfl⟩ := release_inv inv.object released
  obtain ⟨y, here, task⟩ := inv.task
  rw [absent] at task
  have same : t = ⟨raw + 1, []⟩ := by
    rw [clients] at found
    cases found
    rfl
  subst same
  refine ⟨object, ⟨⟨⟨0, []⟩, []⟩, ?_, ?_⟩, ?_, fun _ => none, inv.aligned, ?_⟩
  · rw [Com.Lifetime.State.moved_clients, clients]
    rfl
  · dsimp only
    rw [absent]
    exact ⟨rfl, task.2⟩
  · apply fits
    rw [Com.Lifetime.State.moved_clients, clients]
    rfl
  · intro j i call caller
    rw [none] at caller
    cases caller

theorem Inv.refused (inv : s.Inv) (next : s.step mode (.allocate true) = some s') :
    s'.Inv := by
  simp only [step, if_true] at next
  split at next
  · next phase =>
      obtain ⟨o, released, rfl⟩ := Option.map_eq_some_iff.mp next
      have spawn := inv.spawn
      unfold SpawnFits at spawn
      rw [phase] at spawn
      obtain ⟨absent, x, clients, shape⟩ := spawn
      obtain ⟨-, t, found, -, -⟩ := release_inv inv.object released
      rw [clients] at found
      cases found
      have full : t = ⟨2, []⟩ := by
        rcases shape with shape | shape | shape | shape <;> cases shape
        rfl
      subst full
      refine inv.giveUp absent clients released (inv.early (by rw [phase]; nofun)) fun o same => ?_
      exact ⟨absent, _, same, .inl rfl⟩
  · cases next

theorem Inv.releaseAgain (inv : s.Inv) (next : s.step mode .releaseAgain = some s') :
    s'.Inv := by
  simp only [step] at next
  split at next
  · next phase =>
      obtain ⟨o, released, rfl⟩ := Option.map_eq_some_iff.mp next
      have spawn := inv.spawn
      unfold SpawnFits at spawn
      rw [phase] at spawn
      obtain ⟨absent, code, clients, shape⟩ := spawn
      obtain ⟨-, t, found, -, -⟩ := release_inv inv.object released
      rw [clients] at found
      cases found
      refine inv.giveUp absent clients released (inv.early (by rw [phase]; nofun)) fun o same => ?_
      exact ⟨absent, _, same, .inl rfl⟩
  · cases next

theorem Inv.returns (inv : s.Inv) (next : s.step mode .returns = some s') : s'.Inv := by
  have spawn := inv.spawn
  unfold SpawnFits at spawn
  simp only [step] at next
  split at next
  · next phase =>
      cases next
      rw [phase] at spawn
      exact ⟨inv.object, inv.task, spawn.1, fun other => absurd rfl other, inv.aligned, inv.calls⟩
  · next phase =>
      split at next
      · next idle =>
          cases next
          rw [phase] at spawn
          obtain ⟨absent, code, clients, shape⟩ := spawn
          have none := inv.early (by rw [phase]; nofun)
          have empty : code = [] := by
            simpa [Life.idle, clients] using idle
          subst empty
          rcases shape with shape | shape | ⟨k, ended⟩
          · cases shape
          · cases shape
          · refine ⟨inv.object, inv.task, ⟨absent, clients, ?_⟩, fun _ => none, inv.aligned,
              inv.calls⟩
            obtain ⟨t, here⟩ := ended.code
            rw [clients] at here
            have last : [] = releaseInner.drop k := (Thread.mk.inj (Option.some.inj here)).2
            have all : k = 5 := Nat.le_antisymm ended.bound (List.drop_eq_nil_iff.mp last.symm)
            rw [ended.log, all]
            rfl
      · cases next
  · cases next

/-! ## The task -/

/-- The thread of `spawn_raw_cancellable` sees of the task only whether there is one. -/
theorem SpawnFits.present {body : Body} (fits : s.SpawnFits) (before : s.body ≠ .absent)
    (after : body ≠ .absent) : SpawnFits { s with body := body } := by
  unfold SpawnFits at fits ⊢
  dsimp only
  cases phase : s.spawn <;> rw [phase] at fits <;> dsimp only at fits ⊢
  case spawned => exact ⟨after, fits.2⟩
  case ok => exact after
  all_goals exact absurd fits.1 before

/-- A step of the polls that leaves the calls of clients alone. -/
theorem Inv.outcome {x : Outcome T} (body : Body) (inv : s.Inv)
    (calls : x.operation.calls = s.outcome.operation.calls)
    (task : TaskFits { s with outcome := x, body := body })
    (spawn : SpawnFits { s with body := body }) :
    Inv { s with outcome := x, body := body } := by
  refine ⟨inv.object, task, spawn, inv.early, inv.aligned.trans (by rw [calls]), ?_⟩
  intro j i call caller here
  rw [calls] at here
  exact inv.calls j i call caller here

/-- A step of the task other than its first poll and its drop. -/
theorem Inv.proceed {x : Outcome T} {a : Outcome.Label T} (inv : s.Inv)
    (next : s.outcome.step a = some x)
    (own : ∀ b, a = .operation b → b = .store) (begun : a ≠ .poll) :
    Inv { s with outcome := x } := by
  have moves := Outcome.moves_of_step next
  have undropped : a ≠ .operation .dropTask := by
    intro same
    cases own _ same
  refine inv.outcome s.body (moves.calls fun b same => .inl (own b same)) ?_ inv.spawn
  obtain ⟨y, here, fits⟩ := inv.task
  refine ⟨y, here, ?_⟩
  dsimp only
  split at fits
  · exact ⟨fits.1, moves.still fits.2.1 fits.2.2 begun undropped⟩
  · exact ⟨fits.1, moves.still fits.2.1 fits.2.2 begun undropped⟩
  · exact fits
  · obtain ⟨tag, releasing, ended⟩ := fits
    refine ⟨tag, releasing, ?_⟩
    -- a body that has returned is polled no more
    cases moves with
    | cancel | take | main | takeInside | getStatus | getResult | access => exact ended
    | poll outside suspended
    | pending here suspended
    | ready here suspended
    | cleanup here suspended =>
        rw [suspended] at ended
        rcases ended with stored | dropped
        · cases stored
        · cases dropped
    | store storing =>
        rw [storing] at ended
        rcases ended with stored | dropped
        · cases stored
        · cases dropped
    | drop => exact .inr rfl

theorem Inv.stepTask {a : Outcome.Label T} (inv : s.Inv) (next : s.stepTask a = some s') :
    s'.Inv := by
  cases a with
  | poll =>
      simp only [Life.stepTask] at next
      split at next
      · next begun =>
          obtain ⟨x, moved, rfl⟩ := Option.map_eq_some_iff.mp next
          have calls := (Outcome.moves_of_step moved).calls nofun
          have present : s.body ≠ .absent := by
            rcases begun with body | body <;> rw [body] <;> nofun
          refine inv.outcome .guarded calls ?_ (inv.spawn.present present nofun)
          obtain ⟨y, here, fits⟩ := inv.task
          refine ⟨y, here, ?_⟩
          rcases begun with body | body <;> rw [body] at fits
          · exact fits.1
          · exact fits
      · cases next
  | cancel =>
      simp only [Life.stepTask] at next
      split at next
      · obtain ⟨x, moved, rfl⟩ := Option.map_eq_some_iff.mp next
        exact inv.proceed moved nofun nofun
      · cases next
  | take | takeInside | answer | cleanup =>
      obtain ⟨x, moved, rfl⟩ := Option.map_eq_some_iff.mp next
      exact inv.proceed moved nofun nofun
  | operation b =>
      cases b with
      | store =>
          obtain ⟨x, moved, rfl⟩ := Option.map_eq_some_iff.mp next
          exact inv.proceed moved (fun b same => (Outcome.Label.operation.inj same).symm) nofun
      | dropTask =>
          have dropped : ∀ {x : Outcome T}, s.outcome.step (.operation .dropTask) = some x →
              s.body = .guarded ∨ s.body = .returned → Inv { s with outcome := x } := by
            intro x moved body
            have moves := Outcome.moves_of_step moved
            have calls := moves.calls fun b same => .inr (Outcome.Label.operation.inj same).symm
            refine inv.outcome s.body calls ?_ inv.spawn
            obtain ⟨y, here, fits⟩ := inv.task
            refine ⟨y, here, ?_⟩
            dsimp only
            rcases body with body | body <;> rw [body] at fits ⊢
            · exact fits
            · refine ⟨fits.1, fits.2.1, .inr ?_⟩
              cases moves with
              | drop => rfl
          unfold Life.stepTask at next
          dsimp only at next
          split at next
          · next body =>
              obtain ⟨x, moved, rfl⟩ := Option.map_eq_some_iff.mp next
              exact dropped moved (.inl body)
          · next body =>
              split at next
              · obtain ⟨x, moved, rfl⟩ := Option.map_eq_some_iff.mp next
                exact dropped moved (.inr body)
              · cases next
          · cases next
      | poll | cancel | callStatus | callResult | run => cases next

/-- The end of the body, or the drop of the block, drops the guard. -/
theorem Inv.dropGuard (inv : s.Inv) (next : s.step mode .dropGuard = some s') : s'.Inv := by
  have done : ∀ {o}, release s.object 1 = some o → s.body = .guarded →
      (s.outcome.operation.task = .storing [] ∨ s.outcome.operation.task = .dropped) →
        Inv { s with object := o, body := .returned } := by
    intro o released body ended
    obtain ⟨object, t, found, pos, rfl⟩ := release_inv inv.object released
    obtain ⟨y, here, fits⟩ := inv.task
    rw [body] at fits
    rw [found, fits] at here
    cases here
    have bound := (List.getElem?_eq_some_iff.mp found).1
    refine ⟨object, ⟨_, List.getElem?_set_self bound, rfl, .inl rfl, ended⟩, ?_, inv.early,
      inv.aligned, ?_⟩
    · have spawn := inv.spawn
      unfold SpawnFits at spawn ⊢
      dsimp only
      cases phase : s.spawn <;> rw [phase] at spawn <;> dsimp only at spawn ⊢
      case spawned =>
        obtain ⟨-, y, clients⟩ := spawn
        refine ⟨nofun, ⟨⟨0, []⟩, shimRelease⟩, ?_⟩
        rw [Com.Lifetime.State.moved_clients, clients]
        rfl
      case ok => nofun
      all_goals
        rw [body] at spawn
        cases spawn.1
    · intro j i call caller here running
      obtain ⟨other, t₀, there, pos⟩ := inv.calls j i call caller here running
      refine ⟨other, t₀, ?_, pos⟩
      rw [← there]
      exact List.getElem?_set_ne (Ne.symm other)
  simp only [step] at next
  split at next
  · next task body =>
      obtain ⟨o, released, rfl⟩ := Option.map_eq_some_iff.mp next
      exact done released body (.inl task)
  · next task body =>
      obtain ⟨o, released, rfl⟩ := Option.map_eq_some_iff.mp next
      exact done released body (.inr task)
  · cases next

/-! ## The clients -/

theorem busy_of_call {call : Call T} (caller : s.callers[j]? = some i)
    (here : s.outcome.operation.calls[j]? = some call) (running : call.returned = false) :
    s.busy i = true := by
  have pair : (s.callers.zip s.outcome.operation.calls)[j]? = some (i, call) :=
    List.getElem?_zip_eq_some.mpr ⟨caller, here⟩
  simp only [busy, List.any_eq_true]
  exact ⟨_, List.mem_of_getElem? pair, by simp [running]⟩

theorem free_iff : s.free i = true ↔ s.spawn = .ok ∧ i ≠ 1 ∧ s.busy i = false := by
  simp [free, and_assoc]

/-- A step of the object that leaves the task's reference alone, and one to whoever is in a
call. -/
theorem Inv.clients (inv : s.Inv) (ok : s.spawn = .ok) (object : Com.Lifetime.Inv o)
    (task : o.clients[1]? = s.object.clients[1]?)
    (kept : ∀ k t, s.busy k = true → k ≠ 1 → s.object.clients[k]? = some ⟨t, []⟩ → 0 < t.count →
      ∃ t', o.clients[k]? = some ⟨t', []⟩ ∧ 0 < t'.count) :
    Inv { s with object := o } := by
  refine ⟨object, ?_, ?_, inv.early, inv.aligned, ?_⟩
  · obtain ⟨y, here, fits⟩ := inv.task
    exact ⟨y, task.trans here, fits⟩
  · have spawn := inv.spawn
    unfold SpawnFits at spawn ⊢
    dsimp only
    rw [ok] at spawn ⊢
    exact spawn
  · intro j i call caller here running
    obtain ⟨other, t, there, pos⟩ := inv.calls j i call caller here running
    exact ⟨other, kept i t (busy_of_call caller here running) other there pos⟩

theorem Inv.call {f : Com.Lifetime.Call} (inv : s.Inv)
    (next : s.step mode (.call i f) = some s') : s'.Inv := by
  simp only [step] at next
  split at next
  · next free =>
      obtain ⟨ok, other, idle⟩ := free_iff.mp free
      obtain ⟨o, moved, rfl⟩ := Option.map_eq_some_iff.mp next
      have object := inv.object.call moved
      obtain ⟨t, t', code, found, -, rfl⟩ := Com.Lifetime.step_call moved
      refine inv.clients ok object (List.getElem?_set_ne other) ?_
      intro k u busy _ there pos
      refine ⟨u, ?_, pos⟩
      rw [← there]
      refine List.getElem?_set_ne ?_
      rintro rfl
      rw [idle] at busy
      cases busy
  · cases next

theorem Inv.give (inv : s.Inv) (next : s.step mode (.give i j) = some s') : s'.Inv := by
  simp only [step] at next
  split at next
  · next free =>
      obtain ⟨free, other'⟩ := free
      obtain ⟨ok, other, idle⟩ := free_iff.mp free
      obtain ⟨o, moved, rfl⟩ := Option.map_eq_some_iff.mp next
      have object := inv.object.give moved
      obtain ⟨t, u, code, giver, taker, ne, -, rfl⟩ := Com.Lifetime.step_give moved
      have inside : j < (s.object.clients.set i ⟨{ t with raw := t.raw - 1 }, []⟩).length := by
        rw [List.length_set]
        exact (List.getElem?_eq_some_iff.mp taker).1
      refine inv.clients ok object ?_ ?_
      · rw [Com.Lifetime.State.moved_clients, List.getElem?_set_ne other',
          List.getElem?_set_ne other]
      · intro k v busy _ there pos
        have ne' : i ≠ k := by
          rintro rfl
          rw [idle] at busy
          cases busy
        by_cases mine : j = k
        · subst mine
          rw [taker] at there
          cases there
          refine ⟨_, List.getElem?_set_self inside, ?_⟩
          simp only [Holdings.count]
          omega
        · refine ⟨v, ?_, pos⟩
          rw [Com.Lifetime.State.moved_clients, List.getElem?_set_ne mine,
            List.getElem?_set_ne ne', there]
  · cases next

theorem Inv.join (inv : s.Inv) (next : s.step mode .join = some s') : s'.Inv := by
  simp only [step] at next
  split at next
  · next ok =>
      obtain ⟨o, moved, rfl⟩ := Option.map_eq_some_iff.mp next
      have object := inv.object.join moved
      obtain rfl := Option.some.inj moved
      obtain ⟨y, here, -⟩ := inv.task
      have old : ∀ {k : Nat} {x : Thread Holdings Com.Lifetime.Op}, s.object.clients[k]? = some x →
          (s.object.clients ++ [⟨⟨0, []⟩, []⟩])[k]? = some x := by
        intro k x there
        rw [List.getElem?_append_left (List.getElem?_eq_some_iff.mp there).1, there]
      refine inv.clients ok object ((old here).trans here.symm) ?_
      intro k t _ _ there pos
      exact ⟨t, old there, pos⟩
  · cases next

/-- A client that owns a reference calls `get_status` or `get_result`. -/
theorem Inv.enter {x : Outcome T} {new : Call T} (inv : s.Inv) (free : s.free i = true)
    (owns : owns s.object i = true) (task : x.operation.task = s.outcome.operation.task)
    (poll : x.poll = s.outcome.poll)
    (calls : x.operation.calls = s.outcome.operation.calls ++ [new]) :
    Inv { s with outcome := x, callers := s.callers ++ [i] } := by
  obtain ⟨ok, other, -⟩ := free_iff.mp free
  refine ⟨inv.object, ?_, inv.spawn, fun early => absurd ok early, ?_, ?_⟩
  · obtain ⟨y, here, fits⟩ := inv.task
    refine ⟨y, here, ?_⟩
    dsimp only
    rw [task, poll]
    exact fits
  · rw [calls, List.length_append, List.length_append, inv.aligned]
    rfl
  · intro j k call caller here running
    rw [calls] at here
    rcases Nat.lt_or_ge j s.callers.length with below | beyond
    · rw [List.getElem?_append_left below] at caller
      rw [List.getElem?_append_left (inv.aligned ▸ below)] at here
      exact inv.calls j k call caller here running
    · rw [List.getElem?_append_right beyond] at caller
      obtain rfl := List.mem_singleton.mp (List.mem_of_getElem? caller)
      refine ⟨other, ?_⟩
      obtain ⟨⟨t, code⟩, there, owning⟩ := (Option.any_eq_true _ _).mp owns
      simp only [Bool.and_eq_true, List.isEmpty_iff, decide_eq_true_eq] at owning
      obtain ⟨rfl, pos⟩ := owning
      exact ⟨t, there, pos⟩

/-- The next access of a call that has not returned. -/
theorem Inv.access (inv : s.Inv) (next : s.step mode (.access j) = some s') : s'.Inv := by
  obtain ⟨x, moved, rfl⟩ := Option.map_eq_some_iff.mp next
  obtain ⟨o, accessed, rfl⟩ := Option.map_eq_some_iff.mp moved
  obtain ⟨call, found, rest⟩ := Option.bind_eq_some_iff.mp accessed
  obtain ⟨call', stepped, same⟩ := Option.bind_eq_some_iff.mp rest
  cases same
  refine ⟨inv.object, inv.task, inv.spawn, inv.early, ?_, ?_⟩
  · exact inv.aligned.trans (List.length_set ..).symm
  · intro j' i call₀ caller here running
    by_cases same : j = j'
    · subst same
      refine inv.calls j i call caller found ?_
      cases call with
      | status | result => cases stepped
      | _ => rfl
    · rw [List.getElem?_set_ne same] at here
      exact inv.calls j' i call₀ caller here running

/-- Every state of a run with room in the counter satisfies the invariant. -/
theorem inv_of_reach (reached : (life mode T).Reach (Room mode) s) : s.Inv := by
  refine reached.invariant ?_ ?_
  · rintro _ rfl
    exact Inv.initial
  · intro s a s' inv room moved
    have next : s.step mode a = some s' := moved
    cases a with
    | run i => exact inv.run room next
    | allocate fails =>
        cases fails with
        | false => exact inv.spawned next
        | true => exact inv.refused next
    | releaseAgain => exact inv.releaseAgain next
    | returns => exact inv.returns next
    | task a => exact inv.stepTask next
    | dropGuard => exact inv.dropGuard next
    | call i f => exact inv.call next
    | give i j => exact inv.give next
    | join => exact inv.join next
    | getStatus i | getResult i =>
        simp only [step] at next
        split at next
        · next may =>
            obtain ⟨x, entered, rfl⟩ := Option.map_eq_some_iff.mp next
            cases entered
            exact inv.enter may.1 may.2 rfl rfl rfl
        · cases next
    | access j => exact inv.access next

/-! ## The life of the object -/

/-- What the owners of an operation rely on. -/
structure Orderly (mode : Hardening) (s : Life T) : Prop where
  object : Com.Lifetime.Orderly mode operationObject s.object
  count : s.object.refCount = s.clientRefs + s.taskRefs
  /-- The task has its reference until `TaskGuard` is dropped. -/
  task : s.body = .unresumed ∨ s.body = .guarded → s.taskRefs = 1
  /-- When `spawn_raw_cancellable` returns `Ok` there is one for the client. -/
  client : s.spawn = .spawned → s.clientRefs = 1
  writes : ∀ s', s.step mode (.task (.operation .store)) = some s' →
    s.body = .guarded ∧ s.taskRefs = 1 ∧ s.object.log = []
  reads : ∀ j s', s.step mode (.access j) = some s' → s.object.log = []
  destroyed : s.object.log ≠ [] → s.clientRefs = 0 ∧ s.taskRefs = 0 ∧
    s.body ≠ .unresumed ∧ s.body ≠ .guarded
  /-- The release that leaves no reference ends the object, once and without getting stuck. -/
  ended : s.clientRefs = 0 → s.taskRefs = 0 → ∃ i t, s.object.clients[i]? = some t ∧
    .lastReference i ∈ s.object.log ∧
    s.object.log <+: [.lastReference i, .dropInner i, .dealloc i] ∧
    (t.code ≠ [] → (s.step mode (.run i)).isSome = true) ∧
    (t.code = [] → s.object.log = [.lastReference i, .dropInner i, .dealloc i])
  /-- When it returns `Err` the object is gone. -/
  failed : s.spawn = .err → s.object.log = [.lastReference 0, .dropInner 0, .dealloc 0]

theorem Inv.count (inv : s.Inv) : s.object.refCount = s.clientRefs + s.taskRefs := by
  obtain ⟨x, here, -⟩ := inv.task
  have split := total_eraseIdx Com.Lifetime.clientRefs here
  have count := inv.object.count
  rw [Com.Lifetime.outstanding_eq] at count
  simp only [clientRefs, taskRefs, here, Option.map_some, Option.getD_some]
  omega

/-- The reference that the task has until its guard is dropped. -/
theorem Inv.taskRefs_eq (inv : s.Inv) (unguarded : s.body = .unresumed ∨ s.body = .guarded) :
    s.taskRefs = 1 ∧ s.object.log = [] := by
  obtain ⟨x, here, fits⟩ := inv.task
  have own : x = ⟨⟨1, []⟩, []⟩ := by
    rcases unguarded with body | body <;> rw [body] at fits
    · exact fits.1
    · exact fits
  subst own
  refine ⟨?_, (inv.object.live_of_count here Nat.one_pos).log⟩
  simp [taskRefs, here, Com.Lifetime.clientRefs, Holdings.count]

/-- A call that has not returned finds the object. -/
theorem Inv.reads (inv : s.Inv) (next : s.step mode (.access j) = some s') :
    s.object.log = [] := by
  obtain ⟨x, moved, -⟩ := Option.map_eq_some_iff.mp next
  obtain ⟨o, accessed, -⟩ := Option.map_eq_some_iff.mp moved
  obtain ⟨call, found, rest⟩ := Option.bind_eq_some_iff.mp accessed
  obtain ⟨call', stepped, -⟩ := Option.bind_eq_some_iff.mp rest
  have bound : j < s.callers.length := by
    rw [inv.aligned]
    exact (List.getElem?_eq_some_iff.mp found).1
  have running : call.returned = false := by
    cases call with
    | status | result => cases stepped
    | _ => rfl
  obtain ⟨-, t, there, pos⟩ :=
    inv.calls j _ call (List.getElem?_eq_getElem bound) found running
  exact (inv.object.live_of_count there pos).log

/-- The task stores under its guard. -/
theorem Inv.writes (inv : s.Inv) (next : s.step mode (.task (.operation .store)) = some s') :
    s.body = .guarded := by
  obtain ⟨x, moved, -⟩ := Option.map_eq_some_iff.mp next
  obtain ⟨o, stored, -⟩ := Option.map_eq_some_iff.mp moved
  obtain ⟨y, here, fits⟩ := inv.task
  simp only [State.step] at stored
  split at stored
  · next store rest storing =>
      cases body : s.body with
      | guarded => rfl
      | absent | unresumed =>
          rw [body] at fits
          obtain ⟨-, suspended, -⟩ := fits
          rw [storing] at suspended
          cases suspended
      | returned =>
          rw [body] at fits
          obtain ⟨-, -, ended⟩ := fits
          rw [storing] at ended
          rcases ended with stored | dropped
          · cases stored
          · cases dropped
  · cases stored

/-- **The life of an operation's object**, for every future, both outcomes of the spawn and
every interleaving, with room in the counter. -/
theorem operation_lifetime (reached : (life mode T).Reach (Room mode) s) : s.Orderly mode := by
  have inv := inv_of_reach reached
  have count := inv.count
  have object := Com.Lifetime.orderly_of_inv mode operationObject inv.object
  have ended := object.ended
  have live := object.live
  rw [← object.count, count] at ended live
  refine ⟨object, count, fun body => (inv.taskRefs_eq body).1, ?_, ?_, fun j s' => inv.reads, ?_,
    ?_, ?_⟩
  · intro phase
    have spawn := inv.spawn
    unfold SpawnFits at spawn
    rw [phase] at spawn
    obtain ⟨-, y, clients⟩ := spawn
    rw [clientRefs, clients]
    rfl
  · intro s' next
    have guarded := inv.writes next
    exact ⟨guarded, inv.taskRefs_eq (.inr guarded)⟩
  · intro begun
    have none : s.clientRefs + s.taskRefs = 0 := by
      by_contra some
      exact begun (live (Nat.pos_of_ne_zero some))
    refine ⟨by omega, by omega, ?_, ?_⟩ <;> intro body
    · exact begun (inv.taskRefs_eq (.inl body)).2
    · exact begun (inv.taskRefs_eq (.inr body)).2
  · intro clients task
    obtain ⟨i, t, here, last, done, proceeds, all⟩ := ended (by omega)
    refine ⟨i, t, here, last, done, fun left => ?_, all⟩
    simp only [step, Option.isSome_map]
    exact proceeds left
  · intro phase
    have spawn := inv.spawn
    unfold SpawnFits at spawn
    rw [phase] at spawn
    exact spawn.2.2

/-- The first poll comes before `spawn_raw_cancellable` has returned; the client reads the
result while the task drops its guard, and releases the operation. -/
theorem operation_lifetime_of_ready : ∃ s, (life .off UInt32).Reach (Room .off) s ∧
    (s.object.log = [.lastReference 0, .dropInner 0, .dealloc 0] ∧ s.body = .returned) ∧
    s.Orderly .off := by
  obtain ⟨s, reached, done⟩ := Sys.Reach.exists_of_execIf
    (fun s : Life UInt32 => s.object.log = [.lastReference 0, .dropInner 0, .dealloc 0] ∧
      s.body = .returned)
    ([.run 0, .run 0, .run 0, .allocate false, .task .poll, .task .take, .returns,
      .task (.answer (some 7)), .task (.operation .store), .task (.operation .store),
      .task (.operation .store), .getResult 0, .dropGuard, .access 0, .run 1, .access 0, .run 1,
      .call 0 (.release .primary)] ++ List.replicate 8 (.run 0))
    (.start rfl : (life .off UInt32).Reach (Room .off) (initial UInt32)) (by decide)
  exact ⟨s, reached, done, operation_lifetime reached⟩

/-! ## The width of the counter -/

/-- The client owns `owned` references, and the task its own. -/
def held (T : Type) (count owned : Nat) : Life T :=
  { initial T with
    object := ⟨count, [⟨⟨owned, []⟩, []⟩, ⟨⟨1, []⟩, []⟩], []⟩
    spawn := .ok
    body := .unresumed }

/-- The client calls `AddRef`. -/
theorem reachable_addRef {count owned : Nat} {r : Nat × Nat}
    (added : Refcount.add .off count = some r)
    (reached : (life .off T).Reachable (held T count (1 + owned))) :
    (life .off T).Reachable (held T r.2 (1 + owned + 1)) := by
  refine .of_exec [.call 0 (.addRef .primary), .run 0, .run 0, .run 0, .run 0] reached ?_
  simp [Sys.exec, life, step, held, free, busy, initial, Com.Lifetime.State.step,
    Com.Lifetime.Call.enter, Com.Lifetime.Pointer.valid, Holdings.count, Com.Lifetime.addRef,
    Com.Lifetime.Pointer.enter, Com.Lifetime.Op.perform, added, Com.Lifetime.State.moved,
    Holdings.gain]

theorem reachable_held (n : Nat) :
    (life .off T).Reachable (held T ((2 + n) % 2 ^ 32) (1 + n)) := by
  induction n with
  | zero => exact .of_exec [.run 0, .run 0, .run 0, .allocate false, .returns] (.start rfl) rfl
  | succ n ih =>
      have count : ((2 + n) % 2 ^ 32 + 1) % 2 ^ 32 = (2 + (n + 1)) % 2 ^ 32 := by omega
      rw [← count]
      exact reachable_addRef rfl ih

/-- Without hardening the count of 2^32 + 1 references reads as 1, and the next `Release`
destroys the object of a task that has its reference. -/
theorem operation_destroyed_early : ¬ ∀ s, (life .off UInt32).Reachable s →
    s.body = .unresumed → s.taskRefs = 1 ∧ s.object.log = [] := by
  intro kept
  have full : (life .off UInt32).Reachable (held UInt32 1 (1 + (2 ^ 32 - 1))) :=
    reachable_held (2 ^ 32 - 1)
  have last : Refcount.sub .off 1 = some (0, 0) := by decide
  have freed : ∃ s, (life .off UInt32).exec (held UInt32 1 (1 + (2 ^ 32 - 1)))
      (.call 0 (.release .primary) :: List.replicate 3 (.run 0)) = some s ∧
      s.body = .unresumed ∧ s.object.log = [.lastReference 0] := by
    generalize 2 ^ 32 - 1 = owned
    simp [Sys.exec, life, step, held, free, busy, initial, Com.Lifetime.State.step,
      Com.Lifetime.Call.enter, Com.Lifetime.Pointer.valid, Com.Lifetime.release,
      Com.Lifetime.Pointer.enter, Com.Lifetime.Op.perform, last, Com.Lifetime.State.moved]
  obtain ⟨s, run, body, log⟩ := freed
  have empty := (kept s (.of_exec _ full run) body).2
  rw [log] at empty
  cases empty

end Life

end Kcom.Async
