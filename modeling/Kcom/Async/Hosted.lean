import Kcom.Async.Life
import Kcom.Executor.Dpc.Hosting

/-!
# An operation on the DPC executor

`Life.lean` follows an operation whose executor polls the block of the task at least once,
exclusively, and drops it once. Here that executor is the one of `src/executor.rs`: the
block is the future of a DPC task, `spawn_dpc_task_cancellable` allocates the task or fails,
`vtable.poll` and `destroy(Drop)` are the polls and the drop, and whatever clients, wakers,
handles and processors there are interleaves.

The two sides move together where one calls the other (`react`). A call of the block returns
when the block has got there: `vtable.poll` with `Pending` when it is suspended, with `Ready`
when the `TaskGuard` has released the operation, `destroy` then as well. The request to cancel
that the block finds is one that was made on the task; when it gets there is left open.

`operation_on_dpc` says that in exclusive runs the operation's part is a run of its own, so
that what `Life.lean` says of it holds, and that the executor never asks for what the block
does not allow.
-/

namespace Kcom.Async

open Conc
open Conc.Host (Event Phase)

/-- An operation, and the DPC task whose future is its block. -/
structure Hosted (T : Type) where
  life : Life T
  task : Dpc.State

namespace Hosted

variable {T : Type}

def initial (T : Type) : Hosted T :=
  ⟨Life.initial T, Dpc.initial⟩

/-- A step of the operation, its block or its clients, or one of the task. -/
inductive Label (T : Type)
  | life (a : Life.Label T)
  | task (a : Dpc.State.Label)

/-- The block is suspended: a poll of it has returned `Pending`. -/
def suspended (l : Life T) : Bool :=
  match l.outcome.poll, l.outcome.operation.task with
  | .outside, .suspended => true
  | _, _ => false

/-- The block has dropped its guard, and the release has returned. -/
def unguarded (l : Life T) : Bool :=
  match l.outcome.operation.task, l.body with
  | .storing [], .returned | .dropped, .returned => Life.idle l.object 1
  | _, _ => false

/-- What a call of the block, or its return, is to the operation. -/
def meet (l : Life T) : Event → Option (Life T)
  | .poll => l.stepTask .poll
  | .pending => if suspended l then some l else none
  | .ready => if unguarded l then some l else none
  | .drop => l.stepTask (.operation .dropTask)
  | .dropped => if unguarded l then some l else none

/-- `spawn_raw_cancellable` may call `spawn_dpc_task_cancellable`: its `shim_add_ref` has
returned. -/
def maySpawn (l : Life T) : Dpc.Spawn → Bool
  | .cancellable => l.spawn = .addRef && Life.idle l.object 0
  | _ => false

/-- What the operation does with a step of the task. -/
def react (mode : Hardening) (s : Hosted T) : Dpc.State.Label → Option (Life T)
  | .call (.spawn form) => if maySpawn s.life form then some s.life else none
  | .run i c =>
      match s.task.next i with
      | none => none
      | some (.allocate _) => s.life.step mode (.allocate (c = .fail))
      | some op =>
          match op.event c with
          | none => some s.life
          | some e => meet s.life e
  | _ => some s.life

/-- The steps that the operation takes when the task does not take them with it. -/
def own (s : Hosted T) : Life.Label T → Bool
  | .allocate _ => false
  | .task .poll => false
  | .task (.operation .dropTask) => false
  | .task .cancel => s.task.cancelRequested = .requested
  | .returns => s.task.threads.all fun t => t.tag ≠ .spawn .cancellable || t.code.isEmpty
  | _ => true

def step (mode : Hardening) (s : Hosted T) : Label T → Option (Hosted T)
  | .life a =>
      if s.own a then (s.life.step mode a).map fun l => { s with life := l } else none
  | .task a => (s.task.step mode a).bind fun t => (s.react mode a).map fun l => ⟨l, t⟩

/-- The counters have room, and no activation of the task passes its check of `completed`
while another one has not left its loop. -/
def Exclusive (mode : Hardening) (s : Hosted T) : Label T → Prop
  | .life a => Life.Room mode s.life a
  | .task a => Dpc.Exclusive mode s.task a

instance (mode : Hardening) (s : Hosted T) : (a : Label T) → Decidable (Exclusive mode s a)
  | .life a => inferInstanceAs (Decidable (Life.Room mode s.life a))
  | .task a => inferInstanceAs (Decidable (Dpc.Exclusive mode s.task a))

end Hosted

/-- The runs of an operation on the executor, in one of the builds of the reference counter. -/
def hosted (mode : Hardening) (T : Type) : Sys (Hosted T) (Hosted.Label T) where
  start s := s = Hosted.initial T
  step := Hosted.step mode

namespace Hosted

variable {T : Type} {mode : Hardening} {s s' : Hosted T} {l l' : Life T} {p p' : Phase}
  {e : Event}

/-! ## The block and the phase of its host -/

/-- Where the block is when its host is in the phase `p`. -/
def Linked (l : Life T) : Phase → Prop
  | .unpolled => l.body = .absent ∨ l.body = .unresumed
  | .polling =>
      (l.body = .guarded ∧ l.outcome.operation.task ≠ .dropped ∧
          ∀ rest, l.outcome.operation.task = .storing rest → l.outcome.poll = .outside) ∨
        l.body = .returned ∧ l.outcome.operation.task = .storing [] ∧ l.outcome.poll = .outside
  | .suspended =>
      l.body = .guarded ∧ l.outcome.operation.task = .suspended ∧ l.outcome.poll = .outside
  | .ready =>
      l.body = .returned ∧ l.outcome.operation.task = .storing [] ∧ l.outcome.poll = .outside ∧
        Life.idle l.object 1 = true
  | .dropping =>
      (l.body = .guarded ∨ l.body = .returned) ∧ l.outcome.operation.task = .dropped ∧
        l.outcome.poll = .outside
  | .dropped =>
      l.body = .returned ∧ l.outcome.operation.task = .dropped ∧ l.outcome.poll = .outside ∧
        Life.idle l.object 1 = true

/-- A step that is none of the block. -/
structure Kept (l l' : Life T) : Prop where
  body : l'.body = l.body
  task : l'.outcome.operation.task = l.outcome.operation.task
  poll : l'.outcome.poll = l.outcome.poll
  idle : Life.idle l.object 1 = true → Life.idle l'.object 1 = true

theorem Linked.kept (linked : Linked l p) (kept : Kept l l') : Linked l' p := by
  obtain ⟨body, task, poll, idle⟩ := kept
  cases p with
  | ready =>
      obtain ⟨returned, stored, outside, still⟩ := linked
      exact ⟨body.trans returned, task.trans stored, poll.trans outside, idle still⟩
  | dropped =>
      obtain ⟨returned, dropped, outside, still⟩ := linked
      exact ⟨body.trans returned, task.trans dropped, poll.trans outside, idle still⟩
  | unpolled | polling | suspended | dropping =>
      simp only [Linked, body, task, poll]
      exact linked

/-- A step of the block that its host is to wait for. -/
def ofBlock : Life.Label T → Bool
  | .task .cancel => false
  | .task _ => true
  | .dropGuard => true
  | .run 1 => true
  | _ => false

theorem idle_of_other {o o' : Com.Lifetime.State}
    (same : o'.clients[1]? = o.clients[1]?) (idle : Life.idle o 1 = true) :
    Life.idle o' 1 = true := by
  rw [Life.idle, same]
  exact idle

/-- What is none of the block leaves it alone. -/
theorem kept_of_step {a : Life.Label T} (inv : l.Inv) (next : l.step mode a = some l')
    (other : ofBlock a = false) (spawned : ∀ fails, a ≠ .allocate fails) : Kept l l' := by
  cases a with
  | allocate fails => exact absurd rfl (spawned fails)
  | dropGuard => cases other
  | run i =>
      obtain ⟨o, moved, rfl⟩ := Option.map_eq_some_iff.mp next
      obtain ⟨t, op, rest, o', t', push, found, performed, rfl⟩ := Com.Lifetime.step_run moved
      have ne : i ≠ 1 := by
        rintro rfl
        cases other
      exact ⟨rfl, rfl, rfl, idle_of_other (List.getElem?_set_ne ne)⟩
  | releaseAgain =>
      simp only [Life.step] at next
      split at next
      · obtain ⟨o, released, rfl⟩ := Option.map_eq_some_iff.mp next
        obtain ⟨-, t, found, pos, rfl⟩ := Life.release_inv inv.object released
        exact ⟨rfl, rfl, rfl, idle_of_other (List.getElem?_set_ne Nat.zero_ne_one)⟩
      · cases next
  | returns =>
      simp only [Life.step] at next
      split at next
      · cases next
        exact ⟨rfl, rfl, rfl, id⟩
      · split at next <;> cases next
        exact ⟨rfl, rfl, rfl, id⟩
      · cases next
  | task a =>
      cases a with
      | cancel =>
          have asked : l.stepTask .cancel = some l' := next
          simp only [Life.stepTask] at asked
          split at asked
          · obtain ⟨x, moved, rfl⟩ := Option.map_eq_some_iff.mp asked
            simp only [Outcome.step, Option.some.injEq] at moved
            subst moved
            split <;> exact ⟨rfl, rfl, rfl, id⟩
          · cases asked
      | _ => cases other
  | call i f =>
      simp only [Life.step] at next
      split at next
      · next free =>
          obtain ⟨-, ne, -⟩ := Life.free_iff.mp free
          obtain ⟨o, moved, rfl⟩ := Option.map_eq_some_iff.mp next
          obtain ⟨t, t', code, found, -, rfl⟩ := Com.Lifetime.step_call moved
          exact ⟨rfl, rfl, rfl, idle_of_other (List.getElem?_set_ne ne)⟩
      · cases next
  | give i j =>
      simp only [Life.step] at next
      split at next
      · next may =>
          obtain ⟨-, ne, -⟩ := Life.free_iff.mp may.1
          obtain ⟨o, moved, rfl⟩ := Option.map_eq_some_iff.mp next
          obtain ⟨t, u, code, giver, taker, -, -, rfl⟩ := Com.Lifetime.step_give moved
          refine ⟨rfl, rfl, rfl, idle_of_other ?_⟩
          rw [Com.Lifetime.State.moved_clients, List.getElem?_set_ne may.2,
            List.getElem?_set_ne ne]
      · cases next
  | join =>
      simp only [Life.step] at next
      split at next
      · obtain ⟨o, moved, rfl⟩ := Option.map_eq_some_iff.mp next
        obtain rfl := Option.some.inj moved
        obtain ⟨y, here, -⟩ := inv.task
        refine ⟨rfl, rfl, rfl, idle_of_other ?_⟩
        rw [Com.Lifetime.State.moved_clients,
          List.getElem?_append_left (List.getElem?_eq_some_iff.mp here).1]
      · cases next
  | getStatus i | getResult i =>
      simp only [Life.step] at next
      split at next
      · obtain ⟨x, entered, rfl⟩ := Option.map_eq_some_iff.mp next
        cases entered
        exact ⟨rfl, rfl, rfl, id⟩
      · cases next
  | access j =>
      obtain ⟨x, moved, rfl⟩ := Option.map_eq_some_iff.mp next
      obtain ⟨o, accessed, rfl⟩ := Option.map_eq_some_iff.mp moved
      obtain ⟨call, found, rest⟩ := Option.bind_eq_some_iff.mp accessed
      obtain ⟨call', stepped, same⟩ := Option.bind_eq_some_iff.mp rest
      cases same
      exact ⟨rfl, rfl, rfl, id⟩

/-- Outside a poll the block makes no step of one. -/
theorem resting_of_linked (linked : Linked l p) (inv : l.Inv) (other : p ≠ .polling) :
    l.outcome.Resting := by
  cases p with
  | polling => exact absurd rfl other
  | unpolled =>
      obtain ⟨x, -, fits⟩ := inv.task
      have still : l.outcome.operation.task = .suspended ∧ l.outcome.poll = .outside := by
        rcases linked with body | body <;> rw [body] at fits <;> exact fits.2
      exact ⟨still.2, fun store rest storing => by rw [still.1] at storing; cases storing⟩
  | suspended =>
      obtain ⟨-, task, outside⟩ := linked
      exact ⟨outside, fun store rest storing => by rw [task] at storing; cases storing⟩
  | ready =>
      obtain ⟨-, task, outside, -⟩ := linked
      exact ⟨outside, fun store rest storing => by rw [task] at storing; cases storing⟩
  | dropping =>
      obtain ⟨-, task, outside⟩ := linked
      exact ⟨outside, fun store rest storing => by rw [task] at storing; cases storing⟩
  | dropped =>
      obtain ⟨-, task, outside, -⟩ := linked
      exact ⟨outside, fun store rest storing => by rw [task] at storing; cases storing⟩

/-- The steps of a poll other than its start. -/
def inPoll : Outcome.Label T → Bool
  | .take => true
  | .takeInside => true
  | .answer _ => true
  | .cleanup => true
  | .operation .store => true
  | _ => false

theorem not_resting {x x' : Outcome T} {a : Outcome.Label T} (inside : inPoll a = true)
    (moved : x.step a = some x') : ¬ x.Resting := by
  rintro ⟨outside, done⟩
  cases a with
  | cancel | poll => cases inside
  | take | takeInside | answer | cleanup => simp [Outcome.step, outside] at moved
  | operation b =>
      cases b with
      | store =>
          have moves := Outcome.moves_of_step moved
          cases moves with
          | store storing => exact done _ _ storing
      | _ => cases inside

/-- A poll goes on. -/
theorem Linked.proceed {x : Outcome T} {a : Outcome.Label T} (linked : Linked l .polling)
    (inside : inPoll a = true) (moved : l.outcome.step a = some x) :
    Linked { l with outcome := x } .polling := by
  have moves := Outcome.moves_of_step moved
  rcases linked with ⟨guarded, undropped, outside⟩ | ⟨-, task, outside⟩
  · refine .inl ⟨guarded, ?_, ?_⟩
    · cases moves with
      | ready | cleanup | store =>
          intro same
          cases same
      | drop => cases inside
      | _ => exact undropped
    · cases moves with
      | take here | main here =>
          intro rest storing
          rw [outside rest storing] at here
          cases here
      | store storing =>
          intro rest same
          exact outside _ storing
      | poll | drop => cases inside
      | pending | ready | cleanup => exact fun _ _ => rfl
      | _ => exact outside
  · exfalso
    refine not_resting inside moved ⟨outside, fun store rest storing => ?_⟩
    rw [task] at storing
    cases storing

/-- The block moves inside a call of its host, and stays there. -/
theorem Linked.block {a : Life.Label T} (linked : Linked l p) (inv : l.Inv)
    (next : l.step mode a = some l') (block : ofBlock a = true) (unpolled : a ≠ .task .poll)
    (undropped : a ≠ .task (.operation .dropTask)) :
    (p = .polling ∨ p = .dropping) ∧ Linked l' p := by
  cases a with
  | task a =>
      have moved : inPoll a = true ∧
          ∃ x, l.outcome.step a = some x ∧ l' = { l with outcome := x } := by
        have stepped : l.stepTask a = some l' := next
        cases a with
        | cancel => cases block
        | poll => exact absurd rfl unpolled
        | take | takeInside | answer | cleanup =>
            obtain ⟨x, moved, rfl⟩ := Option.map_eq_some_iff.mp stepped
            exact ⟨rfl, x, moved, rfl⟩
        | operation b =>
            cases b with
            | store =>
                obtain ⟨x, moved, rfl⟩ := Option.map_eq_some_iff.mp stepped
                exact ⟨rfl, x, moved, rfl⟩
            | dropTask => exact absurd rfl undropped
            | poll | cancel | callStatus | callResult | run => cases stepped
      obtain ⟨inside, x, moved, rfl⟩ := moved
      by_cases polling : p = .polling
      · subst polling
        exact ⟨.inl rfl, linked.proceed inside moved⟩
      · exact absurd (resting_of_linked linked inv polling) (not_resting inside moved)
  | dropGuard =>
      simp only [Life.step] at next
      split at next
      · next task body =>
          obtain ⟨o, released, rfl⟩ := Option.map_eq_some_iff.mp next
          cases p with
          | polling =>
              refine ⟨.inl rfl, .inr ⟨rfl, task, ?_⟩⟩
              rcases linked with ⟨-, -, outside⟩ | ⟨-, -, outside⟩
              · exact outside _ task
              · exact outside
          | unpolled =>
              rcases linked with other | other <;> rw [body] at other <;> cases other
          | suspended =>
              rw [linked.2.1] at task
              cases task
          | ready | dropped =>
              rw [linked.1] at body
              cases body
          | dropping =>
              rw [linked.2.1] at task
              cases task
      · next task body =>
          obtain ⟨o, released, rfl⟩ := Option.map_eq_some_iff.mp next
          cases p with
          | polling =>
              rcases linked with ⟨-, undropped, -⟩ | ⟨-, other, -⟩
              · exact absurd task undropped
              · rw [task] at other
                cases other
          | unpolled =>
              rcases linked with other | other <;> rw [body] at other <;> cases other
          | suspended =>
              rw [linked.2.1] at task
              cases task
          | ready | dropped =>
              rw [linked.1] at body
              cases body
          | dropping => exact ⟨.inr rfl, .inr rfl, task, linked.2.2⟩
      · cases next
  | run i =>
      have one : i = 1 := by
        rcases i with _ | _ | i
        · cases block
        · rfl
        · cases block
      subst one
      obtain ⟨o, moved, rfl⟩ := Option.map_eq_some_iff.mp next
      obtain ⟨t, op, rest, o', t', push, found, performed, rfl⟩ := Com.Lifetime.step_run moved
      have busy : Life.idle l.object 1 = false := by simp [Life.idle, found]
      obtain ⟨x, here, fits⟩ := inv.task
      cases found.symm.trans here
      cases p with
      | polling => exact ⟨.inl rfl, linked⟩
      | dropping => exact ⟨.inr rfl, linked⟩
      | unpolled =>
          rcases linked with body | body <;> rw [body] at fits <;> cases fits.1
      | suspended =>
          rw [linked.1] at fits
          cases fits
      | ready | dropped =>
          rw [linked.2.2.2] at busy
          cases busy
  | _ => cases block

/-! ## The calls of the host -/

/-- A poll that the host may make begins. -/
theorem Linked.poll (linked : Linked l p) (inv : l.Inv) (may : p.next .poll = some p')
    (present : l.body ≠ .absent) : ∃ l', meet l .poll = some l' := by
  have ready : (l.body = .unresumed ∨ l.body = .guarded) ∧
      l.outcome.operation.task = .suspended ∧ l.outcome.poll = .outside := by
    cases p with
    | unpolled =>
        obtain ⟨x, -, fits⟩ := inv.task
        rcases linked with body | body
        · exact absurd body present
        · rw [body] at fits
          exact ⟨.inl body, fits.2⟩
    | suspended => exact ⟨.inr linked.1, linked.2⟩
    | _ => cases may
  obtain ⟨begun, task, outside⟩ := ready
  exact ⟨_, by simp [meet, Life.stepTask, begun, Outcome.step, task, outside]; rfl⟩

/-- A drop that the host may make begins. -/
theorem Linked.drop (linked : Linked l p) (may : p.next .drop = some p') :
    ∃ l', meet l .drop = some l' := by
  cases p with
  | suspended =>
      obtain ⟨body, task, outside⟩ := linked
      exact ⟨_, by
        simp [meet, Life.stepTask, body, task, outside, Outcome.step, Outcome.lift, State.step]
        rfl⟩
  | ready =>
      obtain ⟨body, task, outside, idle⟩ := linked
      exact ⟨_, by
        simp [meet, Life.stepTask, body, task, outside, idle, Outcome.step, Outcome.lift,
          State.step]
        rfl⟩
  | _ => cases may

theorem suspended_iff : suspended l = true ↔
    l.outcome.poll = .outside ∧ l.outcome.operation.task = .suspended := by
  unfold suspended
  split
  · next outside task => simp [outside, task]
  · next other =>
      simp only [Bool.false_eq_true, false_iff]
      exact fun both => other both.1 both.2

theorem unguarded_iff : unguarded l = true ↔ l.body = .returned ∧
    (l.outcome.operation.task = .storing [] ∨ l.outcome.operation.task = .dropped) ∧
      Life.idle l.object 1 = true := by
  unfold unguarded
  split
  · next task body => simp [task, body]
  · next task body => simp [task, body]
  · next stored dropped =>
      simp only [Bool.false_eq_true, false_iff]
      rintro ⟨body, task | task, -⟩
      · exact stored task body
      · exact dropped task body

/-- The block follows its host. -/
theorem Linked.meet (linked : Linked l p) (may : p.next e = some p')
    (met : Hosted.meet l e = some l') : Linked l' p' := by
  cases e with
  | poll =>
      have polled : p' = .polling := by
        cases p <;> cases may <;> rfl
      subst polled
      simp only [Hosted.meet, Life.stepTask] at met
      split at met
      · obtain ⟨x, moved, rfl⟩ := Option.map_eq_some_iff.mp met
        cases Outcome.moves_of_step moved with
        | poll outside suspended =>
            refine .inl ⟨rfl, ?_, ?_⟩
            · dsimp only
              rw [suspended]
              intro same
              cases same
            · dsimp only
              rw [suspended]
              intro rest same
              cases same
      · cases met
  | pending =>
      have polled : p = .polling ∧ p' = .suspended := by
        cases p <;> cases may
        exact ⟨rfl, rfl⟩
      obtain ⟨rfl, rfl⟩ := polled
      obtain ⟨yielded, same⟩ := Option.ite_none_right_eq_some.mp met
      cases same
      obtain ⟨outside, task⟩ := suspended_iff.mp yielded
      rcases linked with ⟨guarded, -⟩ | ⟨-, stored, -⟩
      · exact ⟨guarded, task, outside⟩
      · rw [task] at stored
        cases stored
  | ready =>
      have polled : p = .polling ∧ p' = .ready := by
        cases p <;> cases may
        exact ⟨rfl, rfl⟩
      obtain ⟨rfl, rfl⟩ := polled
      obtain ⟨returned, same⟩ := Option.ite_none_right_eq_some.mp met
      cases same
      obtain ⟨body, -, idle⟩ := unguarded_iff.mp returned
      rcases linked with ⟨guarded, -⟩ | ⟨-, stored, outside⟩
      · rw [body] at guarded
        cases guarded
      · exact ⟨body, stored, outside, idle⟩
  | drop =>
      have dropped : p' = .dropping := by
        cases p <;> cases may <;> rfl
      subst dropped
      have ends : ∀ {x : Outcome T}, l.outcome.step (.operation .dropTask) = some x →
          l.body = .guarded ∨ l.body = .returned →
            Linked { l with outcome := x } .dropping := by
        intro x moved body
        cases Outcome.moves_of_step moved with
        | drop outside idle => exact ⟨body, rfl, outside⟩
      simp only [Hosted.meet, Life.stepTask] at met
      split at met
      · next body =>
          obtain ⟨x, moved, rfl⟩ := Option.map_eq_some_iff.mp met
          exact ends moved (.inl body)
      · next body =>
          split at met
          · obtain ⟨x, moved, rfl⟩ := Option.map_eq_some_iff.mp met
            exact ends moved (.inr body)
          · cases met
      · cases met
  | dropped =>
      have dropped : p = .dropping ∧ p' = .dropped := by
        cases p <;> cases may
        exact ⟨rfl, rfl⟩
      obtain ⟨rfl, rfl⟩ := dropped
      obtain ⟨returned, same⟩ := Option.ite_none_right_eq_some.mp met
      cases same
      obtain ⟨body, -, idle⟩ := unguarded_iff.mp returned
      exact ⟨body, linked.2.1, linked.2.2, idle⟩

/-! ## Inversion of the steps -/

theorem step_life {a : Life.Label T} (next : s.step mode (.life a) = some s') :
    s.own a = true ∧ s.life.step mode a = some s'.life ∧ s'.task = s.task := by
  obtain ⟨own, moved⟩ := Option.ite_none_right_eq_some.mp next
  obtain ⟨l, stepped, rfl⟩ := Option.map_eq_some_iff.mp moved
  exact ⟨own, stepped, rfl⟩

theorem step_task {a : Dpc.State.Label} (next : s.step mode (.task a) = some s') :
    s.task.step mode a = some s'.task ∧ s.react mode a = some s'.life := by
  obtain ⟨t, stepped, reacted⟩ := Option.bind_eq_some_iff.mp next
  obtain ⟨l, reacts, rfl⟩ := Option.map_eq_some_iff.mp reacted
  exact ⟨stepped, reacts⟩

/-- What the operation does with a step of the task. -/
inductive Reacts (mode : Hardening) (s : Hosted T) : Dpc.State.Label → Life T → Prop
  | spawn (form : Dpc.Spawn) (may : s.life.spawn = .addRef ∧ Life.idle s.life.object 0 = true) :
      Reacts mode s (.call (.spawn form)) s.life
  | allocate {i : Nat} {c : Dpc.Choice} {form : Dpc.Spawn} {l : Life T}
      (here : s.task.next i = some (.allocate form))
      (allocated : s.life.step mode (.allocate (c = .fail)) = some l) : Reacts mode s (.run i c) l
  | call {a : Dpc.State.Label} {l : Life T} {e : Event} (event : s.task.event a = some e)
      (met : meet s.life e = some l) : Reacts mode s a l
  | alone {a : Dpc.State.Label} (none : s.task.event a = none)
      (unspawned : ∀ form, a ≠ .call (.spawn form))
      (old : ∀ i c form, a = .run i c → s.task.next i ≠ some (.allocate form)) :
      Reacts mode s a s.life

theorem reacts_of_react {a : Dpc.State.Label} (reacts : s.react mode a = some l) :
    Reacts mode s a l := by
  cases a with
  | dequeue cpu =>
      cases reacts
      refine .alone rfl ?_ ?_
      · intro form same
        cases same
      · intro i c form same
        cases same
  | call f =>
      cases f with
      | spawn form =>
          obtain ⟨may, same⟩ := Option.ite_none_right_eq_some.mp reacts
          cases same
          cases form with
          | cancellable =>
              simp only [maySpawn, Bool.and_eq_true, decide_eq_true_eq] at may
              exact .spawn _ may
          | _ => cases may
      | _ =>
          cases reacts
          refine .alone rfl ?_ ?_
          · intro form same
            cases same
          · intro i c form same
            cases same
  | run i c =>
      simp only [react] at reacts
      split at reacts
      · cases reacts
      · next form here => exact .allocate here reacts
      · next op other here =>
          have event : s.task.event (.run i c) = op.event c := by
            rw [Dpc.State.event, here]
            rfl
          split at reacts
          · next silent =>
              cases reacts
              refine .alone (event.trans silent) ?_ ?_
              · intro form same
                cases same
              · intro i' c' form same allocates
                cases same
                rw [here] at allocates
                exact other form (Option.some.inj allocates)
          · next e loud => exact .call (event.trans loud) reacts

/-- The operation takes steps of its own only. -/
theorem life_step {a : Label T} (guard : Exclusive mode s a)
    (next : s.step mode a = some s') : s'.life = s.life ∨
      ∃ b, Life.Room mode s.life b ∧ s.life.step mode b = some s'.life := by
  cases a with
  | life a =>
      obtain ⟨-, stepped, -⟩ := step_life next
      exact .inr ⟨a, guard, stepped⟩
  | task a =>
      obtain ⟨-, reacts⟩ := step_task next
      obtain ⟨l, t⟩ := s'
      cases reacts_of_react reacts with
      | spawn | alone => exact .inl rfl
      | allocate here allocated => exact .inr ⟨.allocate _, trivial, allocated⟩
      | @call _ _ e event met =>
          cases e with
          | poll => exact .inr ⟨.task .poll, trivial, met⟩
          | drop => exact .inr ⟨.task (.operation .dropTask), trivial, met⟩
          | pending | ready | dropped =>
              obtain ⟨-, same⟩ := Option.ite_none_right_eq_some.mp met
              exact .inl (Option.some.inj same).symm

theorem life_of_reach (reached : (hosted mode T).Reach (Exclusive mode) s) :
    (Kcom.Async.life mode T).Reach (Life.Room mode) s.life := by
  induction reached with
  | start first =>
      rw [show _ = initial T from first]
      exact .start rfl
  | @step s s' a _ guard next ih =>
      rcases life_step guard next with same | ⟨b, room, stepped⟩
      · rwa [same]
      · exact .step ih room stepped

/-! ## What holds between the two -/

/-- The host's calls and the block, the allocation of the task and `spawn_raw_cancellable`. -/
structure Joined (mode : Hardening) (s : Hosted T) : Prop where
  linked : ∃ es p, (Dpc.traced mode).Reach (fun q a => Dpc.Exclusive mode q.1 a) (s.task, es) ∧
    Phase.unpolled.run es = some p ∧ Linked s.life p
  pending : 0 < load Dpc.Op.allocates s.task.threads →
    s.life.spawn = .addRef ∧ Life.idle s.life.object 0 = true
  born : s.task.allocated = true → s.life.body ≠ .absent

theorem Joined.initial : Joined mode (initial T) where
  linked := ⟨[], .unpolled, .start ⟨rfl, rfl⟩, rfl, .inl rfl⟩
  pending := nofun
  born := nofun

/-- A step of the block touches neither the object nor `spawn_raw_cancellable`. -/
theorem stepTask_frame {a : Outcome.Label T} (stepped : l.stepTask a = some l') :
    l'.spawn = l.spawn ∧ l'.object = l.object ∧ (l'.body = l.body ∨ l'.body = .guarded) := by
  have frame : ∀ {x : Option (Outcome T)}, x.map (fun o => { l with outcome := o }) = some l' →
      l'.spawn = l.spawn ∧ l'.object = l.object ∧ (l'.body = l.body ∨ l'.body = .guarded) := by
    intro x stepped
    obtain ⟨o, -, rfl⟩ := Option.map_eq_some_iff.mp stepped
    exact ⟨rfl, rfl, .inl rfl⟩
  cases a with
  | poll =>
      obtain ⟨-, stepped⟩ := Option.ite_none_right_eq_some.mp stepped
      obtain ⟨o, -, rfl⟩ := Option.map_eq_some_iff.mp stepped
      exact ⟨rfl, rfl, .inr rfl⟩
  | cancel => exact frame (Option.ite_none_right_eq_some.mp stepped).2
  | take | takeInside | answer | cleanup => exact frame stepped
  | operation b =>
      cases b with
      | store => exact frame stepped
      | dropTask =>
          unfold Life.stepTask at stepped
          dsimp only at stepped
          split at stepped
          · exact frame stepped
          · exact frame (Option.ite_none_right_eq_some.mp stepped).2
          · cases stepped
      | poll | cancel | callStatus | callResult | run => cases stepped

/-- A block that is there stays there. -/
theorem present_of_step {a : Life.Label T} (present : l.body ≠ .absent)
    (next : l.step mode a = some l') : l'.body ≠ .absent := by
  cases a with
  | run | access =>
      obtain ⟨x, -, rfl⟩ := Option.map_eq_some_iff.mp next
      exact present
  | allocate fails =>
      simp only [Life.step] at next
      split at next
      · split at next <;> obtain ⟨o, -, rfl⟩ := Option.map_eq_some_iff.mp next
        · exact present
        · intro same
          cases same
      · cases next
  | releaseAgain | call | give | join | getStatus | getResult =>
      simp only [Life.step] at next
      split at next
      · obtain ⟨o, -, rfl⟩ := Option.map_eq_some_iff.mp next
        exact present
      · cases next
  | returns =>
      simp only [Life.step] at next
      split at next
      · cases next
        exact present
      · split at next <;> cases next
        exact present
      · cases next
  | dropGuard =>
      simp only [Life.step] at next
      split at next
      · obtain ⟨o, -, rfl⟩ := Option.map_eq_some_iff.mp next
        intro same
        cases same
      · obtain ⟨o, -, rfl⟩ := Option.map_eq_some_iff.mp next
        intro same
        cases same
      · cases next
  | task a =>
      have stepped : l.stepTask a = some l' := next
      rcases (stepTask_frame stepped).2.2 with same | guarded
      · rwa [same]
      · rw [guarded]
        intro same
        cases same

/-- Before `spawn_dpc_task_cancellable` has allocated the task there is nothing to do for the
operation. -/
theorem spawning_of_step {a : Life.Label T} (inv : l.Inv)
    (spawning : l.spawn = .addRef ∧ Life.idle l.object 0 = true)
    (own : ∀ fails, a ≠ .allocate fails) (next : l.step mode a = some l') :
    l'.spawn = .addRef ∧ Life.idle l'.object 0 = true := by
  obtain ⟨phase, idle⟩ := spawning
  have unfree : ∀ i, l.free i = false := by
    intro i
    simp [Life.free, phase]
  have spawn := inv.spawn
  unfold Life.SpawnFits at spawn
  rw [phase] at spawn
  obtain ⟨absent, x, clients, -⟩ := spawn
  cases a with
  | allocate fails => exact absurd rfl (own fails)
  | run i =>
      obtain ⟨o, moved, rfl⟩ := Option.map_eq_some_iff.mp next
      obtain ⟨t, op, rest, o', t', push, found, -, rfl⟩ := Com.Lifetime.step_run moved
      exfalso
      simp only [Life.idle, clients] at idle
      rw [clients] at found
      rcases i with _ | _ | i
      · cases found
        simp at idle
      · cases found
      · cases found
  | releaseAgain | returns | join => simp [Life.step, phase] at next
  | call i | getStatus i | getResult i => simp [Life.step, unfree] at next
  | give i => simp [Life.step, unfree] at next
  | dropGuard => simp [Life.step, absent] at next
  | access j =>
      obtain ⟨x, -, rfl⟩ := Option.map_eq_some_iff.mp next
      exact ⟨phase, idle⟩
  | task a =>
      have stepped : l.stepTask a = some l' := next
      obtain ⟨spawn, object, -⟩ := stepTask_frame stepped
      rw [spawn, object]
      exact ⟨phase, idle⟩

/-- `spawn_dpc_task_cancellable` may succeed or fail. -/
theorem exists_allocate (inv : l.Inv) (spawning : l.spawn = .addRef ∧ Life.idle l.object 0 = true)
    (fails : Bool) : ∃ l', l.step mode (.allocate fails) = some l' := by
  obtain ⟨phase, idle⟩ := spawning
  have spawn := inv.spawn
  unfold Life.SpawnFits at spawn
  rw [phase] at spawn
  obtain ⟨-, x, clients, shape⟩ := spawn
  have ready : x = ⟨⟨2, []⟩, []⟩ := by
    rcases shape with rfl | rfl | rfl | rfl
    · simp [Life.idle, clients, shimAddRef] at idle
    · simp [Life.idle, clients] at idle
    · simp [Life.idle, clients] at idle
    · rfl
  subst ready
  cases fails with
  | true => exact ⟨_, by simp [Life.step, phase, Life.release, clients]; rfl⟩
  | false => exact ⟨_, by simp [Life.step, phase, Com.Lifetime.State.step, clients]; rfl⟩

/-- What the allocation of the task does. -/
theorem step_allocate {fails : Bool} (next : l.step mode (.allocate fails) = some l') :
    l.spawn = .addRef ∧ (fails = false → l'.body = .unresumed) ∧
      (fails = true → l'.body = l.body) := by
  simp only [Life.step] at next
  split at next
  · next phase =>
      split at next
      · next failed =>
          obtain ⟨o, -, rfl⟩ := Option.map_eq_some_iff.mp next
          refine ⟨phase, fun other => ?_, fun _ => rfl⟩
          rw [failed] at other
          cases other
      · next done =>
          obtain ⟨o, -, rfl⟩ := Option.map_eq_some_iff.mp next
          exact ⟨phase, fun _ => rfl, fun other => absurd other done⟩
  · cases next

/-- A call of the block touches neither the object nor `spawn_raw_cancellable`. -/
theorem meet_frame (met : meet l e = some l') :
    l'.spawn = l.spawn ∧ l'.object = l.object ∧ (l'.body = l.body ∨ l'.body = .guarded) := by
  cases e with
  | pending | ready | dropped =>
      obtain ⟨-, same⟩ := Option.ite_none_right_eq_some.mp met
      cases same
      exact ⟨rfl, rfl, .inl rfl⟩
  | poll =>
      have stepped : l.stepTask .poll = some l' := met
      exact stepTask_frame stepped
  | drop =>
      have stepped : l.stepTask (.operation .dropTask) = some l' := met
      exact stepTask_frame stepped

/-- What is about to be allocated, behind a step of the task. -/
theorem allocates_step {a : Dpc.State.Label} {t : Dpc.State} (memory : Dpc.Memory mode s.task)
    (stepped : s.task.step mode a = some t) (unspawned : ∀ form, a ≠ .call (.spawn form))
    (old : ∀ i c form, a = .run i c → s.task.next i ≠ some (.allocate form)) :
    load Dpc.Op.allocates t.threads = load Dpc.Op.allocates s.task.threads ∧
      t.allocated = s.task.allocated := by
  cases a with
  | dequeue cpu =>
      obtain ⟨-, rfl⟩ := Dpc.State.step_dequeue stepped
      exact ⟨by simp [Dpc.Op.allocates], rfl⟩
  | call f =>
      obtain ⟨-, rfl⟩ := Dpc.State.step_call stepped
      rw [load_append, load_cons, load_nil]
      cases f with
      | spawn form => exact absurd rfl (unspawned form)
      | setTaskBudget budget => cases budget <;> exact ⟨rfl, rfl⟩
      | isCancellationRequested j | takeCancellationRequest j =>
          simp only [Dpc.State.code]
          cases s.task.cpuOf j <;> exact ⟨rfl, rfl⟩
      | _ => exact ⟨rfl, rfl⟩
  | run i c =>
      obtain ⟨f, op, rest, s₁, push, finished, thread, performed, rfl⟩ :=
        Dpc.State.step_run stepped
      have next : s.task.next i = some op := by simp [Dpc.State.next, thread]
      have other : ∀ form, op ≠ .allocate form := by
        rintro form rfl
        exact old i c form rfl next
      have ledger := memory.ledger thread performed other
      have loads := load_set Dpc.Op.allocates f push thread
      rw [ledger.allocates] at loads
      exact ⟨by rw [Dpc.State.moved_threads]; omega, ledger.allocated⟩

theorem Joined.life {a : Life.Label T} (joined : Joined mode s) (inv : s.life.Inv)
    (next : s.step mode (.life a) = some s') : Joined mode s' := by
  obtain ⟨own, stepped, task⟩ := step_life next
  have unallocating : ∀ fails, a ≠ .allocate fails := by
    rintro fails rfl
    cases own
  obtain ⟨es, p, reached, trace, linked⟩ := joined.linked
  refine ⟨⟨es, p, by rwa [task], trace, ?_⟩, ?_, ?_⟩
  · cases block : ofBlock a with
    | false => exact linked.kept (kept_of_step inv stepped block unallocating)
    | true =>
        refine (linked.block inv stepped block ?_ ?_).2
        · rintro rfl
          cases own
        · rintro rfl
          cases own
  · rw [task]
    intro pending
    exact spawning_of_step inv (joined.pending pending) unallocating stepped
  · rw [task]
    intro born
    exact present_of_step (joined.born born) stepped

/-- Before the first poll there may be no block. -/
theorem unpolled_of_absent (linked : Linked l p) (absent : l.body = .absent) : p = .unpolled := by
  cases p with
  | unpolled => rfl
  | polling =>
      rcases linked with ⟨body, -⟩ | ⟨body, -⟩ <;> rw [absent] at body <;> cases body
  | dropping =>
      rcases linked.1 with body | body <;> rw [absent] at body <;> cases body
  | suspended | ready | dropped =>
      have body := linked.1
      rw [absent] at body
      cases body

/-- `spawn_dpc_task_cancellable` allocates the task, or fails to. -/
theorem Joined.allocate {i : Nat} {c : Dpc.Choice} {form : Dpc.Spawn} {t : Dpc.State}
    (joined : Joined mode s) (inv : s.life.Inv) (guard : Dpc.Exclusive mode s.task (.run i c))
    (stepped : s.task.step mode (.run i c) = some t) (here : s.task.next i = some (.allocate form))
    (allocated : s.life.step mode (.allocate (c = .fail)) = some l) : Joined mode ⟨l, t⟩ := by
  obtain ⟨es, p, reached, trace, linked⟩ := joined.linked
  have silent : s.task.event (.run i c) = none := by simp [Dpc.State.event, here, Dpc.Op.event]
  have traced := Dpc.traced_next reached guard stepped
  rw [silent, Option.toList_none, List.append_nil] at traced
  have memory : Dpc.Memory mode s.task :=
    Dpc.memory_of_reach (Sys.Reach.of_history (fun _ _ exclusive => exclusive.1) reached)
  obtain ⟨phase, succeeded, failed⟩ := step_allocate allocated
  have absent : s.life.body = .absent := by
    have spawn := inv.spawn
    unfold Life.SpawnFits at spawn
    rw [phase] at spawn
    exact spawn.1
  have unpolled := unpolled_of_absent linked absent
  subst unpolled
  have unborn : s.task.allocated = false := by
    refine Bool.eq_false_iff.mpr fun born => ?_
    exact joined.born born absent
  obtain ⟨f, op, rest, s₁, push, finished, thread, performed, rfl⟩ := Dpc.State.step_run stepped
  have first : op = .allocate form := by simpa [Dpc.State.next, thread] using here
  subst first
  have loads := load_set Dpc.Op.allocates f push thread
  have bound := memory.spawn
  have once : s.task.spawned.toNat ≤ 1 := Bool.toNat_le _
  have none : total Dpc.Op.allocates push = 0 := by
    simp only [Dpc.State.perform] at performed
    split at performed <;> cases performed
    · rfl
    · cases form <;> rfl
  refine ⟨⟨es, .unpolled, traced, trace, ?_⟩, ?_, ?_⟩
  · cases which : decide (c = .fail) with
    | true => exact .inl ((failed which).trans absent)
    | false => exact .inr (succeeded which)
  · intro pending
    simp only [Dpc.State.moved_threads, Dpc.Op.allocates] at pending loads
    omega
  · intro born
    simp only [Dpc.State.perform] at performed
    split at performed
    · cases performed
      rw [Dpc.State.moved_allocated, unborn] at born
      cases born
    · next done =>
        rw [succeeded (decide_eq_false done)]
        intro same
        cases same

theorem Joined.task {a : Dpc.State.Label} (joined : Joined mode s) (inv : s.life.Inv)
    (guard : Dpc.Exclusive mode s.task a) (next : s.step mode (.task a) = some s') :
    Joined mode s' := by
  obtain ⟨stepped, reacts⟩ := step_task next
  obtain ⟨l, t⟩ := s'
  obtain ⟨es, p, reached, trace, linked⟩ := joined.linked
  have traced := Dpc.traced_next reached guard stepped
  have memory : Dpc.Memory mode s.task :=
    Dpc.memory_of_reach (Sys.Reach.of_history (fun _ _ exclusive => exclusive.1) reached)
  obtain ⟨p', run, last⟩ := Dpc.exists_phase reached trace guard stepped
  cases reacts_of_react reacts with
  | spawn form may =>
      refine ⟨⟨_, p', traced, run, ?_⟩, fun _ => may, ?_⟩
      · cases last
        exact linked
      · obtain ⟨-, after⟩ := Dpc.State.step_call stepped
        dsimp only at after
        rw [after]
        exact joined.born
  | allocate here allocated => exact joined.allocate inv guard stepped here allocated
  | alone none unspawned old =>
      obtain ⟨loads, allocated⟩ := allocates_step memory stepped unspawned old
      refine ⟨⟨_, p', traced, run, ?_⟩, ?_, ?_⟩
      · rw [none] at last
        cases last
        exact linked
      · rw [loads]
        exact joined.pending
      · rw [allocated]
        exact joined.born
  | @call _ _ e event met =>
      have may : p.next e = some p' := by
        rw [event, Option.toList_some, Phase.run] at last
        obtain ⟨q, next, same⟩ := Option.bind_eq_some_iff.mp last
        cases same
        exact next
      have unspawned : ∀ form, a ≠ .call (.spawn form) := by
        rintro form rfl
        cases event
      have old : ∀ i c form, a = .run i c → s.task.next i ≠ some (.allocate form) := by
        rintro i c form rfl here
        simp [Dpc.State.event, here, Dpc.Op.event] at event
      obtain ⟨loads, allocated⟩ := allocates_step memory stepped unspawned old
      obtain ⟨spawn, object, body⟩ := meet_frame met
      refine ⟨⟨_, p', traced, run, linked.meet may met⟩, ?_, ?_⟩
      · rw [loads, spawn, object]
        exact joined.pending
      · rw [allocated]
        intro born
        rcases body with same | guarded
        · rw [same]
          exact joined.born born
        · rw [guarded]
          intro same
          cases same

theorem joined_of_reach (reached : (hosted mode T).Reach (Exclusive mode) s) :
    Joined mode s := by
  induction reached with
  | start first =>
      rw [show _ = initial T from first]
      exact .initial
  | @step s s' a before guard next ih =>
      have inv := Life.inv_of_reach (life_of_reach before)
      cases a with
      | life a => exact ih.life inv next
      | task a => exact ih.task inv guard next

/-! ## What the two sides owe each other -/

/-- The step of the task is no call of a client of the operation that comes too early, and if
a call of the block returns with it the block has got there. -/
def answers (s : Hosted T) : Dpc.State.Label → Bool
  | .call (.spawn form) => maySpawn s.life form
  | .run i c =>
      match s.task.event (.run i c) with
      | some .pending => suspended s.life
      | some .ready => unguarded s.life
      | some .dropped => unguarded s.life
      | _ => true
  | _ => true

/-- A task that calls its future is there. -/
theorem born_of_event {i : Nat} {c : Dpc.Choice} {t : Dpc.State}
    (memory : Dpc.Memory mode s.task) (stepped : s.task.step mode (.run i c) = some t)
    (event : s.task.event (.run i c) = some .poll) : s.task.allocated = true := by
  obtain ⟨f, op, rest, s₁, push, finished, thread, -, -⟩ := Dpc.State.step_run stepped
  rw [Dpc.event_run thread] at event
  have need : op.needs = true := by
    cases op with
    | loop op => rfl
    | last op => cases op <;> cases event
    | _ => cases event
  have pos := memory.references_pos thread need
  cases born : s.task.allocated with
  | true => rfl
  | false =>
      have none := memory.unborn born
      omega

/-- **An operation on the DPC executor.** In every exclusive run, with room in both counters,
the operation takes steps of its own and the task takes steps of its own, and the executor
asks for nothing that the block refuses: whatever the task can do it does, as soon as the call
of the block that returns with it has got there. -/
theorem operation_on_dpc (reached : (hosted mode T).Reach (Exclusive mode) s) :
    (Kcom.Async.life mode T).Reach (Life.Room mode) s.life ∧
      (Dpc.system mode).Reach (Dpc.Exclusive mode) s.task ∧
      ∀ a t, Dpc.Exclusive mode s.task a → s.task.step mode a = some t → s.answers a = true →
        ∃ s', s.step mode (.task a) = some s' ∧ s'.task = t := by
  have inv := Life.inv_of_reach (life_of_reach reached)
  have joined := joined_of_reach reached
  obtain ⟨es, p, traced, trace, linked⟩ := joined.linked
  have here : (Dpc.system mode).Reach (Dpc.Exclusive mode) s.task := by
    refine Sys.Reach.of_history ?_ traced
    exact fun _ _ exclusive => exclusive
  have memory := (Dpc.polling_of_reach here).1
  refine ⟨life_of_reach reached, here, ?_⟩
  intro a t guard stepped answers
  suffices reacts : ∃ l, s.react mode a = some l by
    obtain ⟨l, reacts⟩ := reacts
    exact ⟨⟨l, t⟩, by simp [Hosted.step, stepped, reacts], rfl⟩
  cases a with
  | dequeue cpu => exact ⟨_, rfl⟩
  | call f =>
      cases f with
      | spawn form => exact ⟨_, if_pos answers⟩
      | _ => exact ⟨_, rfl⟩
  | run i c =>
      obtain ⟨p', -, last⟩ := Dpc.exists_phase traced trace guard stepped
      obtain ⟨f, op, rest, s₁, push, finished, thread, -, -⟩ := Dpc.State.step_run stepped
      have next : s.task.next i = some op := by simp [Dpc.State.next, thread]
      have event := Dpc.event_run (c := c) thread
      by_cases allocates : ∃ form, op = .allocate form
      · obtain ⟨form, rfl⟩ := allocates
        have pending := head_le_load Dpc.Op.allocates thread
        obtain ⟨l, allocated⟩ := exists_allocate inv (joined.pending pending) (c = .fail)
        exact ⟨l, by rw [react, next]; exact allocated⟩
      · have reacts : s.react mode (.run i c) = match op.event c with
            | none => some s.life
            | some e => meet s.life e := by
          rw [react, next]
          cases op with
          | allocate form => exact absurd ⟨form, rfl⟩ allocates
          | _ => rfl
        rw [reacts]
        simp only [Hosted.answers, event] at answers
        cases happens : op.event c with
        | none => exact ⟨_, rfl⟩
        | some e =>
            rw [happens] at answers event
            have may : p.next e = some p' := by
              rw [event, Option.toList_some, Phase.run] at last
              obtain ⟨q, next, same⟩ := Option.bind_eq_some_iff.mp last
              cases same
              exact next
            cases e with
            | poll => exact linked.poll inv may (joined.born (born_of_event memory stepped event))
            | drop => exact linked.drop may
            | pending | ready | dropped => exact ⟨_, if_pos answers⟩

/-- `spawn_raw_cancellable`, and the DPC as thread 1 of the task up to the call of
`vtable.poll`. -/
def polledFirst : List (Label UInt32) :=
  List.replicate 3 (.life (.run 0)) ++ [.task (.call (.spawn .cancellable))] ++
    List.replicate 8 (.task (Dpc.go 0)) ++ [.life .returns, .task (.dequeue (some 0))] ++
    List.replicate 7 (.task (Dpc.go 1))

/-- The future is ready at once, the client asks for the result while the guard is dropped,
and the handle is dropped last. -/
def readyFirst : List (Label UInt32) :=
  polledFirst ++ [.life (.task .take), .life (.task (.answer (some 7))),
    .life (.task (.operation .store)), .life (.task (.operation .store)),
    .life (.task (.operation .store)), .life (.getResult 0), .life .dropGuard,
    .life (.access 0), .life (.run 1), .life (.access 0), .life (.run 1),
    .task (.run 1 .ready)] ++ List.replicate 6 (.task (Dpc.go 1)) ++
    [.task (.call (.dropHandle 0))] ++ List.replicate 3 (.task (Dpc.go 2))

/-- The poll is under way. -/
theorem operation_on_dpc_of_poll : ∃ s : Hosted UInt32,
    (hosted .off UInt32).Reach (Exclusive .off) s ∧
      (s.task.pollingAt 1 = true ∧ s.life.outcome.poll = .take) ∧
      (Kcom.Async.life .off UInt32).Reach (Life.Room .off) s.life ∧
      (Dpc.system .off).Reach (Dpc.Exclusive .off) s.task ∧
      ∀ a t, Dpc.Exclusive .off s.task a → s.task.step .off a = some t → s.answers a = true →
        ∃ s', s.step .off (.task a) = some s' ∧ s'.task = t := by
  obtain ⟨s, reached, polled⟩ := Sys.Reach.exists_of_execIf
    (fun s : Hosted UInt32 => s.task.pollingAt 1 = true ∧ s.life.outcome.poll = .take)
    polledFirst (.start rfl : (hosted .off UInt32).Reach (Exclusive .off) (initial UInt32))
    (by decide)
  exact ⟨s, reached, polled, operation_on_dpc reached⟩

/-- **When the block runs.** In every exclusive run the block of the operation takes a step,
and the release of its guard one, only while a thread of the task is inside `vtable.poll` or
`destroy(Drop)`; and when the task's memory has been freed, the guard has given back the
task's reference to the operation. -/
theorem block_runs_inside (reached : (hosted mode T).Reach (Exclusive mode) s) :
    (∀ a s', s.step mode (.life a) = some s' → ofBlock a = true →
        0 < load Dpc.Op.inside s.task.threads) ∧
      (0 < s.task.deallocs → s.life.body = .returned ∧ s.life.taskRefs = 0) := by
  have inv := Life.inv_of_reach (life_of_reach reached)
  obtain ⟨es, p, traced, trace, linked⟩ := (joined_of_reach reached).linked
  obtain ⟨p', trace', stands⟩ : ∃ p', Phase.unpolled.run es = some p' ∧ Dpc.Stands s.task p' :=
    Dpc.stands_of_reach traced
  cases trace.symm.trans trace'
  refine ⟨?_, ?_⟩
  · intro a s' next block
    obtain ⟨own, stepped, -⟩ := step_life next
    have inside : load Dpc.Op.polling s.task.threads + load Dpc.Op.dropping s.task.threads ≤
        load Dpc.Op.inside s.task.threads := by
      rw [← load_add]
      apply load_mono
      intro op
      cases op with
      | loop op => cases op <;> simp [Dpc.Op.polling, Dpc.Op.dropping, Dpc.Op.inside]
      | last op => cases op <;> simp [Dpc.Op.polling, Dpc.Op.dropping, Dpc.Op.inside]
      | _ => exact Nat.zero_le _
    have polls := stands.polling
    have drops := stands.dropping
    obtain ⟨rfl | rfl, -⟩ := linked.block inv stepped block (by rintro rfl; cases own)
      (by rintro rfl; cases own)
    · rw [if_pos rfl] at polls
      omega
    · rw [if_pos rfl] at drops
      omega
  · intro freed
    have here : (Dpc.system mode).Reach (Dpc.Counted mode) s.task := by
      refine Sys.Reach.of_history ?_ traced
      exact fun _ _ exclusive => exclusive.1
    have dropped := stands.dropped_of_freed here freed
    subst dropped
    obtain ⟨body, -, -, idle⟩ := linked
    refine ⟨body, ?_⟩
    obtain ⟨x, client, fits⟩ := inv.task
    rw [body] at fits
    obtain ⟨tag, -, -⟩ := fits
    have code : x.code = [] := by simpa [Life.idle, client] using idle
    simp [Life.taskRefs, client, Com.Lifetime.clientRefs, tag, code, Com.Lifetime.Holdings.count]

/-- The task is gone, and the client has its result and the operation. -/
theorem block_runs_inside_of_ready : ∃ s : Hosted UInt32,
    (hosted .off UInt32).Reach (Exclusive .off) s ∧
      (0 < s.task.deallocs ∧ s.life.object.refCount = 1) ∧
      (∀ a s', s.step .off (.life a) = some s' → ofBlock a = true →
        0 < load Dpc.Op.inside s.task.threads) ∧
      (0 < s.task.deallocs → s.life.body = .returned ∧ s.life.taskRefs = 0) := by
  obtain ⟨s, reached, freed⟩ := Sys.Reach.exists_of_execIf
    (fun s : Hosted UInt32 => 0 < s.task.deallocs ∧ s.life.object.refCount = 1)
    readyFirst (.start rfl : (hosted .off UInt32).Reach (Exclusive .off) (initial UInt32))
    (by decide)
  exact ⟨s, reached, freed, block_runs_inside reached⟩

end Hosted

end Kcom.Async
