import Kcom.Conc.History
import Kcom.Executor.Dpc.Accounting

/-!
# One activation of `dpc_routine`

The other threads, the clients and the queue may move between any two steps of an
activation, but its code changes by its own steps only. A history that is written by
the steps of thread `i` alone (`ofThread`) can thus be followed along the code of that
thread: `along` reduces a property of every run to the thread's first code and to its
own steps, and `Course` names the places of `dpc_routine` such a property speaks of.
-/

namespace Kcom.Dpc

open Conc

/-! ## The operations of the routine -/

/-- The operations of `dpc_routine` up to the end of its loop, with the `queue_dpc`
that the loop may call last. -/
def Op.routine : Op → Bool
  | .clearScheduled _ => true
  | .checkCompleted _ => true
  | .rawWaker _ => true
  | .loop _ => true
  | .addRef .queueDpc => true
  | .insertQueueDpc .queueDpc => true
  | _ => false

/-- The code of a thread that is not in the loop of `dpc_routine`, nor before it. -/
def Outside (code : List Op) : Prop :=
  ∀ op ∈ code, op.routine = false

/-- Where a thread is in `dpc_routine`: before the loop, in it, on its way out of the loop
by `queue_dpc`, or past the loop. A thread that executes another function counts as
past the loop. -/
inductive Course (entry : Prop) (inLoop : Loop → Prop) (queueing left : Prop) : List Op → Prop
  | clearScheduled (cpu : Option Nat) :
      entry → Course entry inLoop queueing left [.clearScheduled cpu]
  | checkCompleted (cpu : Option Nat) :
      entry → Course entry inLoop queueing left [.checkCompleted cpu]
  | rawWaker (cpu : Option Nat) :
      entry → Course entry inLoop queueing left [.rawWaker cpu]
  | loop (op : Loop) :
      inLoop op → Course entry inLoop queueing left [.loop op]
  | addRef (cpu : Option Nat) :
      queueing → Course entry inLoop queueing left (.addRef .queueDpc :: exit cpu)
  | insertQueueDpc (cpu : Option Nat) :
      queueing → Course entry inLoop queueing left (.insertQueueDpc .queueDpc :: exit cpu)
  | left {code : List Op} :
      left → Outside code → Course entry inLoop queueing left code

section Perform

variable {mode : Hardening} {s s₁ : State} {i : Nat} {c : Choice} {op : Op} {push rest : List Op}
  {f : Call} {cpu : Option Nat}

instance (code : List Op) : Decidable (Outside code) :=
  inferInstanceAs (Decidable (∀ op ∈ code, op.routine = false))

theorem Outside.nil : Outside [] := by
  intro op member
  cases member

theorem Outside.cons (free : op.routine = false) (outside : Outside rest) :
    Outside (op :: rest) := by
  intro op' member
  rcases List.mem_cons.mp member with rfl | later
  · exact free
  · exact outside op' later

theorem Outside.append (front : Outside push) (outside : Outside rest) :
    Outside (push ++ rest) := by
  intro op' member
  rcases List.mem_append.mp member with before | later
  · exact front op' before
  · exact outside op' later

theorem Outside.exit (cpu : Option Nat) : Outside (exit cpu) := by
  cases cpu with
  | none => exact .cons rfl (.cons rfl .nil)
  | some n => exact .cons rfl (.cons rfl (.cons rfl .nil))

theorem outside_of_performLast (op : Last) : Outside (s.performLast op).2 := by
  cases op with
  | loadCompleted =>
      simp only [State.performLast]
      split <;> exact .cons rfl .nil
  | storeCompleted | dropFuture | dropping => exact .cons rfl .nil
  | dealloc =>
      simp only [State.performLast]
      split
      · exact .cons rfl .nil
      · exact .nil

/-- A thread outside the routine stays outside. -/
theorem outside_of_perform (performed : s.perform mode i c op = some (s₁, push))
    (free : op.routine = false) : Outside push := by
  cases op with
  | allocate form =>
      simp only [State.perform] at performed
      split at performed <;> cases performed
      · exact .nil
      · refine .append ?_ ?_
        · split
          · exact .cons rfl .nil
          · exact .nil
        · split
          · exact .cons rfl .nil
          · exact .cons rfl (.cons rfl .nil)
  | trackerBegin | returnHandle | storeMode | storePolls | storeTimeUs | trackerComplete |
      loadCancel | casAcknowledge | clearCurrent =>
      cases performed
      exact .nil
  | newHandle | cloneRaw =>
      obtain ⟨count, -, done⟩ := Option.map_eq_some_iff.mp performed
      cases done
      first
        | exact .nil
        | exact .cons rfl (.cons rfl (.cons rfl .nil))
  | loadCompleted =>
      cases performed
      split
      · exact .nil
      · exact .cons rfl .nil
  | casScheduled =>
      simp only [State.perform] at performed
      split at performed <;> cases performed
      · exact .nil
      · exact .cons rfl .nil
  | addRef caller =>
      cases caller with
      | queueDpc => cases free
      | schedule =>
          obtain ⟨count, -, done⟩ := Option.map_eq_some_iff.mp performed
          cases done
          exact .cons rfl .nil
  | insertQueueDpc caller =>
      simp only [State.perform] at performed
      split at performed <;> cases performed
      · exact .cons rfl .nil
      · exact .nil
  | subRef h =>
      obtain ⟨count, -, done⟩ := Option.map_eq_some_iff.mp performed
      cases done
      split
      · exact .cons rfl .nil
      · exact .nil
  | last op =>
      have pushed := outside_of_performLast (s := s) op
      rw [State.perform, Option.some.injEq] at performed
      rwa [performed] at pushed
  | casCancel =>
      simp only [State.perform] at performed
      split at performed <;> cases performed
      · exact .cons rfl .nil
      · exact .nil
  | loadCurrent cpu take =>
      cases performed
      split
      · split <;> exact .cons rfl .nil
      · exact .nil
  | clearScheduled | checkCompleted | rawWaker | loop => cases free

theorem afterWoken_polls {l : Locals} (inPolls : l.mode = .polls) :
    afterWoken l =
      if l.pollBudget = 0 then .addRef .queueDpc :: exit l.cpu
      else [.loop (.clearScheduled { l with pollBudget := l.pollBudget - 1 })] := by
  unfold afterWoken
  rw [inPolls]

theorem afterWoken_timeUs {l : Locals} (inTime : l.mode = .timeUs) :
    afterWoken l =
      if (l.timeCheckCounter + 1) % 2 ^ 32 % 8 = 0 then
        [.loop (.queryNow { l with timeCheckCounter := (l.timeCheckCounter + 1) % 2 ^ 32 })]
      else [.loop (.clearScheduled
        { l with timeCheckCounter := (l.timeCheckCounter + 1) % 2 ^ 32 })] := by
  unfold afterWoken
  rw [inTime]

/-- No client calls `dpc_routine`. -/
theorem outside_of_call (callable : s.callable f = true) : Outside (s.code f) := by
  cases f with
  | dpcRoutine cpu => cases callable
  | setTaskBudget budget => cases budget <;> exact .cons rfl (.cons rfl .nil)
  | wake k => exact .cons rfl (.cons rfl .nil)
  | isCancellationRequested j | takeCancellationRequest j =>
      simp only [State.code]
      cases s.cpuOf j with
      | none => exact .nil
      | some cpu => exact .cons rfl .nil
  | _ => exact .cons rfl .nil

/-- An operation that is about to be performed leaves the routine for good where the thread
is past its loop. -/
theorem Course.of_outside {entry : Prop} {inLoop : Loop → Prop} {queueing left : Prop}
    (performed : s.perform mode i c op = some (s₁, push)) (outside : Outside (op :: rest))
    (here : left) : Course entry inLoop queueing left (push ++ rest) := by
  refine .left here (.append (outside_of_perform performed (outside op List.mem_cons_self)) ?_)
  intro op' member
  exact outside op' (List.mem_cons_of_mem op member)

theorem Course.left_of_outside {entry : Prop} {inLoop : Loop → Prop} {queueing left : Prop}
    {code : List Op} (course : Course entry inLoop queueing left code) (outside : Outside code) :
    left := by
  cases course with
  | left here _ => exact here
  | _ => cases outside _ List.mem_cons_self

/-- One step of a thread along its course, for a record `h` that the step writes with `u`:
what is left to a use are the steps of the loop, and that the other steps keep what the
record says. -/
theorem Course.step {η : Type} {E Q L : η → Prop} {I : η → Loop → Prop} {u : Op → η → η} {h : η}
    (course : Course (E h) (I h) (Q h) (L h) (op :: rest))
    (performed : s.perform mode i c op = some (s₁, push))
    (entry : ∀ cpu, E h → E (u (.clearScheduled cpu) h) ∧ E (u (.checkCompleted cpu) h) ∧
      E (u (.rawWaker cpu) h))
    (begins : ∀ h, E h → (∀ n, I h (.setCurrent n)) ∧ ∀ cpu, I h (.loadMode cpu))
    (idle : ∀ h, E h → L h)
    (loop : ∀ l, op = .loop l → I h l → s.performLoop i c l = some (s₁, push) →
      Course (E (u op h)) (I (u op h)) (Q (u op h)) (L (u op h)) push)
    (queues : Q h → Q (u (.addRef .queueDpc) h))
    (queued : Q h → L (u (.insertQueueDpc .queueDpc) h))
    (outside : op.routine = false → L h → L (u op h)) :
    Course (E (u op h)) (I (u op h)) (Q (u op h)) (L (u op h)) (push ++ rest) := by
  cases course with
  | clearScheduled cpu here =>
      cases performed
      exact .checkCompleted cpu (entry cpu here).1
  | checkCompleted cpu here =>
      cases performed
      have checked := (entry cpu here).2.1
      split
      · exact .left (idle _ checked) (.cons rfl .nil)
      · exact .rawWaker cpu checked
  | rawWaker cpu here =>
      obtain ⟨count, -, done⟩ := Option.map_eq_some_iff.mp performed
      cases done
      have first := begins _ (entry cpu here).2.2
      cases cpu with
      | none => exact .loop _ (first.2 _)
      | some n => exact .loop _ (first.1 n)
  | loop l here =>
      rw [List.append_nil]
      exact loop l rfl here performed
  | addRef cpu here =>
      obtain ⟨count, -, done⟩ := Option.map_eq_some_iff.mp performed
      cases done
      exact .insertQueueDpc cpu (queues here)
  | insertQueueDpc cpu here =>
      refine .left (queued here) (.append ?_ (.exit cpu))
      simp only [State.perform] at performed
      split at performed <;> cases performed
      · exact .cons rfl .nil
      · exact .nil
  | left here beyond =>
      exact .of_outside performed beyond (outside (beyond op List.mem_cons_self) here)

end Perform

/-! ## The history of one thread -/

variable {η : Type}

/-- A record that is written by the steps of thread `i`: `update` is told the state before
the step, what the environment decides, and the operation. -/
def ofThread (i : Nat) (update : State → Choice → Op → η → η) (s : State) (a : State.Label)
    (h : η) : η :=
  match a, s.next i with
  | .run j c, some op => if j = i then update s c op h else h
  | _, _ => h

section OfThread

variable {mode : Hardening} {s : State} {i j : Nat} {c : Choice} {op : Op} {first h : η}
  {update : State → Choice → Op → η → η}

theorem ofThread_run (next : s.next i = some op) :
    ofThread i update s (.run i c) h = update s c op h := by
  simp [ofThread, next]

theorem ofThread_other (other : j ≠ i) : ofThread i update s (.run j c) h = h := by
  cases next : s.next i <;> simp [ofThread, next, other]

/-- The new thread of a pool is told from the others by its index. -/
theorem getElem?_snoc {α : Type} (l : List α) (x : α) (i : Nat) :
    (l ++ [x])[i]? = l[i]? ∨ l[i]? = none ∧ (l ++ [x])[i]? = some x := by
  rcases Nat.lt_trichotomy i l.length with below | rfl | beyond
  · exact .inl (List.getElem?_append_left below)
  · exact .inr ⟨List.getElem?_eq_none (Nat.le_refl _), List.getElem?_concat_length⟩
  · left
    rw [List.getElem?_eq_none (by simp; omega), List.getElem?_eq_none (by omega)]

/-- What holds of the first record and the first code of a thread, and is kept by the steps
of that thread, holds along every run. -/
theorem along {P : η → List Op → Prop} {G : State × η → State.Label → Prop} {p : State × η}
    (called : ∀ code, Outside code → P first code)
    (dequeued : ∀ cpu, P first [.clearScheduled cpu])
    (kept : ∀ s c op rest s₁ push h, G (s, h) (.run i c) → s.next i = some op →
      s.perform mode i c op = some (s₁, push) → P h (op :: rest) →
      P (update s c op h) (push ++ rest))
    (reached : ((system mode).withHistory first (ofThread i update)).Reach G p) :
    (p.1.threads[i]? = none ∧ p.2 = first) ∨
      ∃ t, p.1.threads[i]? = some t ∧ P p.2 t.code := by
  have joined : ∀ (threads : List (Thread Call Op)) (h : η) (t₀ : Thread Call Op),
      P first t₀.code →
      (threads[i]? = none ∧ h = first) ∨ (∃ t, threads[i]? = some t ∧ P h t.code) →
      ((threads ++ [t₀])[i]? = none ∧ h = first) ∨
        ∃ t, (threads ++ [t₀])[i]? = some t ∧ P h t.code := by
    intro threads h t₀ fresh before
    rcases getElem?_snoc threads t₀ i with same | ⟨absent, new⟩
    · rw [same]
      exact before
    · rcases before with ⟨-, rfl⟩ | ⟨t, there, -⟩
      · exact .inr ⟨t₀, new, fresh⟩
      · rw [absent] at there
        cases there
  refine reached.invariant (I := fun p => (p.1.threads[i]? = none ∧ p.2 = first) ∨
    ∃ t, p.1.threads[i]? = some t ∧ P p.2 t.code) ?_ ?_
  · rintro ⟨s, h⟩ ⟨begins, rfl⟩
    rw [show s = initial from begins]
    exact .inl ⟨rfl, rfl⟩
  · rintro ⟨s, h⟩ a ⟨s', h'⟩ before guard step
    obtain ⟨moved, recorded⟩ := Sys.step_history step
    have step : s.step mode a = some s' := moved
    simp only at recorded before ⊢
    cases a with
    | dequeue cpu =>
        obtain ⟨-, rfl⟩ := State.step_dequeue step
        rw [recorded]
        exact joined s.threads h _ (dequeued cpu) before
    | call f =>
        obtain ⟨callable, rfl⟩ := State.step_call step
        rw [recorded]
        exact joined s.threads h _ (called _ (outside_of_call callable)) before
    | run j c =>
        obtain ⟨f, op, rest, s₁, push, finished, thread, performed, rfl⟩ := State.step_run step
        rw [State.moved_threads]
        by_cases mine : j = i
        · subst mine
          have next : s.next j = some op := by rw [State.next, thread]; rfl
          have bound := (List.getElem?_eq_some_iff.mp thread).1
          rw [recorded, ofThread_run next]
          rcases before with ⟨absent, -⟩ | ⟨t, there, holds⟩
          · rw [thread] at absent
            cases absent
          · rw [thread] at there
            cases there
            exact .inr ⟨_, List.getElem?_set_self bound,
              kept s c op rest s₁ push h guard next performed holds⟩
        · rw [recorded, ofThread_other mine, List.getElem?_set_ne mine]
          exact before

end OfThread

end Kcom.Dpc
