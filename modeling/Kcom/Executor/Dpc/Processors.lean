import Kcom.Executor.Dpc.Memory

/-!
# A DPC task on its processors

`current_cpu_index` maps the processor that runs an activation to an index of
`CURRENT_TASKS`, or to nothing where it is out of range. The activation keeps the index
in a local variable: every operation that carries one carries that of its own thread
(`Seated.located`), a thread has one such operation at most, and the entry is the task
while some thread is between `set_current_task` and `clear_current_task`, where it still
holds a reference.
-/

namespace Kcom.Dpc

open Conc

/-! ## Processors and their indices -/

/-- `PROCESSOR_NUMBER`, as `KeGetCurrentProcessorNumberEx` fills it in. -/
structure Processor where
  group : UInt16
  number : UInt8
  deriving DecidableEq, Repr

/-- `MAX_PROC_PER_GROUP`. -/
def maxProcPerGroup : Nat := 64

/-- `MAX_GROUP_COUNT`. -/
def maxGroupCount : Nat := 64

/-- `MAX_CPU_COUNT`. -/
def maxCpuCount : Nat := maxProcPerGroup * maxGroupCount

/-- `current_cpu_index` on the processor `p`. -/
def currentCpuIndex (p : Processor) : Option Nat :=
  if p.group.toNat ≥ maxGroupCount ∨ p.number.toNat ≥ maxProcPerGroup then none
  else some (p.group.toNat * maxProcPerGroup + p.number.toNat)

/-- An accepted processor has an entry in the table. -/
theorem currentCpuIndex_lt {p : Processor} {n : Nat} (index : currentCpuIndex p = some n) :
    n < maxCpuCount := by
  unfold currentCpuIndex at index
  split at index
  · cases index
  · next small =>
      cases index
      simp only [maxGroupCount, maxProcPerGroup, maxCpuCount] at small ⊢
      omega

/-- Accepted processors have entries of their own. -/
theorem currentCpuIndex_inj {p q : Processor} {n : Nat} (left : currentCpuIndex p = some n)
    (right : currentCpuIndex q = some n) : p = q := by
  unfold currentCpuIndex at left right
  split at left
  · cases left
  split at right
  · cases right
  next small small' =>
    rw [Option.some.injEq] at left right
    simp only [maxGroupCount, maxProcPerGroup] at small small' left right
    have group : p.group = q.group := UInt16.toNat_inj.mp (by omega)
    have number : p.number = q.number := UInt8.toNat_inj.mp (by omega)
    cases p
    cases q
    exact congr (congrArg Processor.mk group) number

/-! ## Where an activation is -/

/-- `cpu_index`, in the loop. -/
def Loop.cpu : Loop → Option Nat
  | .setCurrent n => some n
  | .loadMode cpu => cpu
  | .loadPolls cpu _ => cpu
  | .queryStart cpu _ => cpu
  | .loadTimeUs cpu _ _ _ => cpu
  | .pollStart l => l.cpu
  | .polling l => l.cpu
  | .loadScheduled l => l.cpu
  | .queryNow l => l.cpu
  | .clearScheduled l => l.cpu
  | .storeCompleted cpu => cpu
  | .dropFuture cpu => cpu
  | .dropping cpu => cpu

/-- `cpu_index`, in the operations of `dpc_routine` that use it later. -/
def Op.cpu : Op → Option (Option Nat)
  | .clearScheduled cpu => some cpu
  | .checkCompleted cpu => some cpu
  | .rawWaker cpu => some cpu
  | .loop op => some op.cpu
  | .clearCurrent n => some (some n)
  | _ => none

/-- The operation carries `cpu_index`. -/
def Op.carries (op : Op) : Nat :=
  if op.cpu.isSome then 1 else 0

/-- The operation comes after `set_current_task`, where that is called, and is no later
than `clear_current_task`. -/
def Op.seated : Op → Bool
  | .loop (.setCurrent _) => false
  | .loop _ => true
  | .clearCurrent _ => true
  | _ => false

/-- The thread is between `set_current_task(n, ..)` and `clear_current_task(n)`. -/
def Op.sits (n : Nat) (op : Op) : Nat :=
  if op.seated = true ∧ op.cpu = some (some n) then 1 else 0

/-- A helper is about to look the running task up. -/
def Op.looks : Op → Nat
  | .loadCurrent _ _ => 1
  | _ => 0

def Op.clearsCurrent : Op → Bool
  | .clearCurrent _ => true
  | _ => false

theorem Op.cpu_of_sits {n : Nat} {op : Op} (sits : 0 < op.sits n) : op.cpu = some (some n) := by
  unfold Op.sits at sits
  split at sits
  · exact ‹_ ∧ _›.2
  · cases sits

theorem Op.sits_le (n : Nat) (op : Op) : op.sits n ≤ op.carries := by
  unfold Op.sits Op.carries
  split
  · next here =>
      rw [here.2]
      exact Nat.le_refl _
  · exact Nat.zero_le _

/-- Whoever is there holds a reference, or clears the entry first. -/
theorem Op.held_of_sits {n : Nat} {op : Op} (sits : 0 < op.sits n) :
    0 < op.refs ∨ op.clearsCurrent = true := by
  cases op with
  | loop op => exact .inl Nat.two_pos
  | clearCurrent m => exact .inr rfl
  | _ => simp [Op.sits, Op.seated] at sits

/-- Thread `i` is between `set_current_task(n, ..)` and `clear_current_task(n)`. -/
def State.SitsAt (s : State) (i n : Nat) : Prop :=
  ∃ t, s.threads[i]? = some t ∧ 0 < total (Op.sits n) t.code

/-! ## One operation at a time -/

section Perform

variable {mode : Hardening} {s s₁ : State} {i : Nat} {c : Choice} {op : Op} {push : List Op}

/-- What an operation does to the place of its thread. -/
structure Places (s s₁ : State) (op : Op) (push : List Op) : Prop where
  cpu : ∀ op' ∈ push, ∀ c, op'.cpu = some c → op.cpu = some c
  carries : total Op.carries push ≤ op.carries
  looks : total Op.looks push = 0
  clears : Covered Op.clearsCurrent Op.refs push
  sits : (∃ n, op = .loop (.setCurrent n) ∧ push = [.loop (.loadMode (some n))] ∧
      s₁.current = n :: s.current.filter (· ≠ n)) ∨
    (∃ n, op = .clearCurrent n ∧ push = [] ∧ s₁.current = s.current.filter (· ≠ n)) ∨
    (s₁.current = s.current ∧ ∀ n, total (Op.sits n) push = op.sits n)

/-- An operation outside the seat, and code outside it. -/
theorem Places.of_free (current : s₁.current = s.current) (out : op.seated = false)
    (free : ∀ op' ∈ push, op'.cpu = none) (looks : total Op.looks push = 0) :
    Places s s₁ op push := by
  have weightless : ∀ w : Op → Nat, (∀ op, op.cpu = none → w op = 0) → total w push = 0 := by
    intro w zero
    exact total_eq_zero.mpr fun op' member => zero op' (free op' member)
  refine ⟨?_, ?_, looks, ?_, .inr (.inr ⟨current, ?_⟩)⟩
  · intro op' member c here
    rw [free op' member] at here
    cases here
  · rw [weightless Op.carries fun op here => by simp [Op.carries, here]]
    exact Nat.zero_le _
  · refine .of_free ?_
    intro op' member
    have here := free op' member
    cases op' <;> first | rfl | cases here
  · intro n
    rw [weightless (Op.sits n) fun op here => by simp [Op.sits, here]]
    simp [Op.sits, out]

/-- An operation that goes on to one with the same `cpu_index`. -/
theorem Places.of_next {op' : Op} (current : s₁.current = s.current) (cpu : op'.cpu = op.cpu)
    (seated : op'.seated = op.seated) (stays : op'.clearsCurrent = false)
    (looks : op'.looks = 0) : Places s s₁ op [op'] := by
  refine ⟨?_, ?_, looks, ?_, .inr (.inr ⟨current, ?_⟩)⟩
  · intro op'' member c here
    rw [List.mem_singleton.mp member, cpu] at here
    exact here
  · simp [Op.carries, cpu]
  · simp [Covered, stays]
  · intro n
    simp [Op.sits, cpu, seated]

/-- An operation of the loop that ends it. -/
theorem Places.of_exit {op : Loop} {cpu : Option Nat} (front : List Op)
    (current : s₁.current = s.current) (here : op.cpu = cpu)
    (seated : (Op.loop op).seated = true) (free : ∀ op' ∈ front, op'.cpu = none)
    (looks : total Op.looks front = 0) : Places s s₁ (.loop op) (front ++ exit cpu) := by
  have weightless : ∀ w : Op → Nat, (∀ op, op.cpu = none → w op = 0) → total w front = 0 := by
    intro w zero
    exact total_eq_zero.mpr fun op' member => zero op' (free op' member)
  have clears : Covered Op.clearsCurrent Op.refs front := by
    refine .of_free ?_
    intro op' member
    have none := free op' member
    cases op' <;> first | rfl | cases none
  have noLook : total Op.looks (front ++ exit cpu) = 0 := by
    rw [total_append, looks]
    cases cpu <;> rfl
  refine ⟨?_, ?_, noLook, clears.append ?_, .inr (.inr ⟨current, ?_⟩)⟩
  · intro op' member c carried
    rcases List.mem_append.mp member with before | last
    · rw [free op' before] at carried
      cases carried
    · cases cpu with
      | none =>
          simp only [exit, List.mem_cons, List.not_mem_nil, or_false] at last
          rcases last with rfl | rfl <;> cases carried
      | some n =>
          simp only [exit, List.mem_cons, List.not_mem_nil, or_false] at last
          rcases last with rfl | rfl | rfl
          · cases carried
            simp [Op.cpu, here]
          · cases carried
          · cases carried
  · rw [total_append, weightless Op.carries fun op none => by simp [Op.carries, none]]
    cases cpu <;> simp [exit, Op.carries, Op.cpu]
  · cases cpu <;> simp [exit, Covered, Op.clearsCurrent, Op.refs]
  · intro n
    have mine : (Op.loop op).sits n = if cpu = some n then 1 else 0 := by
      simp only [Op.sits, seated, true_and, Op.cpu, Option.some.injEq, here]
    rw [total_append, weightless (Op.sits n) fun op none => by simp [Op.sits, none], mine]
    cases cpu <;> simp [exit, Op.sits, Op.cpu, Op.seated]

theorem places_of_performLoop {op : Loop} (performed : s.performLoop i c op = some (s₁, push)) :
    Places s s₁ (.loop op) push := by
  cases op with
  | setCurrent n =>
      cases performed
      refine ⟨?_, by simp [Op.carries, Op.cpu, Loop.cpu], rfl, by simp [Covered, Op.refs],
        .inl ⟨n, rfl, rfl, rfl⟩⟩
      simp [Op.cpu, Loop.cpu]
  | loadMode | loadTimeUs | pollStart | clearScheduled | storeCompleted | dropFuture =>
      cases performed
      exact .of_next rfl rfl rfl rfl rfl
  | loadPolls cpu m =>
      cases m <;> cases performed <;> exact .of_next rfl rfl rfl rfl rfl
  | queryStart cpu polls =>
      simp only [State.performLoop] at performed
      split at performed <;> cases performed
      exact .of_next rfl rfl rfl rfl rfl
  | polling l =>
      simp only [State.performLoop] at performed
      split at performed
      · cases performed
      · split at performed <;> cases performed <;> exact .of_next rfl rfl rfl rfl rfl
  | loadScheduled l =>
      cases performed
      split
      · simp only [afterWoken]
        split <;> split
        · exact .of_exit [.addRef .queueDpc] rfl rfl rfl (by simp [Op.cpu]) rfl
        all_goals exact .of_next rfl rfl rfl rfl rfl
      · exact .of_exit [] rfl rfl rfl (by simp) rfl
  | queryNow l =>
      simp only [State.performLoop] at performed
      split at performed <;> cases performed
      split
      · exact .of_exit [.addRef .queueDpc] rfl rfl rfl (by simp [Op.cpu]) rfl
      · exact .of_next rfl rfl rfl rfl rfl
  | dropping cpu =>
      cases performed
      exact .of_exit [] rfl rfl rfl (by simp) rfl

theorem places_of_perform (performed : s.perform mode i c op = some (s₁, push)) :
    Places s s₁ op push := by
  cases op with
  | loop op => exact places_of_performLoop performed
  | clearCurrent n =>
      cases performed
      exact ⟨by simp, Nat.zero_le _, rfl, trivial, .inr (.inl ⟨n, rfl, rfl, rfl⟩)⟩
  | clearScheduled cpu =>
      cases performed
      exact .of_next rfl rfl rfl rfl rfl
  | checkCompleted cpu =>
      cases performed
      split
      · exact .of_free rfl rfl (by simp [Op.cpu]) rfl
      · exact .of_next rfl rfl rfl rfl rfl
  | rawWaker cpu =>
      simp only [State.perform, Option.map_eq_some_iff] at performed
      obtain ⟨_, -, performed⟩ := performed
      cases performed
      cases cpu with
      | none =>
          refine ⟨?_, by simp [Op.carries, Op.cpu, Loop.cpu], rfl, by simp [Covered, Op.refs],
            .inr (.inr ⟨rfl, ?_⟩)⟩
          · simp [Op.cpu, Loop.cpu]
          · simp [Op.sits, Op.cpu, Loop.cpu]
      | some n => exact .of_next rfl rfl rfl rfl rfl
  | allocate form =>
      simp only [State.perform] at performed
      split at performed <;> cases performed
      · exact .of_free rfl rfl (by simp) rfl
      · cases form <;>
          exact .of_free rfl rfl (by simp [Spawn.hasTracker, Spawn.hasHandle, Op.cpu]) rfl
  | newHandle | addRef | cloneRaw =>
      simp only [State.perform, Option.map_eq_some_iff] at performed
      obtain ⟨_, -, performed⟩ := performed
      cases performed
      exact .of_free rfl rfl (by simp [Op.cpu]) rfl
  | subRef h =>
      simp only [State.perform, Option.map_eq_some_iff] at performed
      obtain ⟨_, -, performed⟩ := performed
      cases performed
      split <;> exact .of_free rfl rfl (by simp [Op.cpu]) rfl
  | casScheduled | casCancel | insertQueueDpc =>
      simp only [State.perform] at performed
      split at performed <;> cases performed <;>
        exact .of_free rfl rfl (by simp [Op.cpu]) rfl
  | last op =>
      cases op <;> cases performed <;> (try split) <;>
        exact .of_free rfl rfl (by simp [Op.cpu]) rfl
  | casAcknowledge =>
      cases performed
      split <;> exact .of_free rfl rfl (by simp) rfl
  | loadCompleted | loadCurrent =>
      cases performed
      repeat' split
      all_goals exact .of_free rfl rfl (by simp [Op.cpu]) rfl
  | _ =>
      cases performed
      exact .of_free rfl rfl (by simp [Op.cpu]) rfl

/-- A cancel is made by its call only, and a request is taken behind a look-up only. -/
theorem perform_requests (performed : s.perform mode i c op = some (s₁, push)) :
    .casCancel ∉ push ∧ (.casAcknowledge ∈ push → ∃ n, op = .loadCurrent n true) := by
  cases op with
  | loadCurrent n take =>
      cases performed
      cases take <;> split <;> simp
  | newHandle | addRef | cloneRaw | subRef | rawWaker =>
      simp only [State.perform, Option.map_eq_some_iff] at performed
      obtain ⟨_, -, performed⟩ := performed
      cases performed
      simp
  | allocate form =>
      simp only [State.perform] at performed
      split at performed <;> cases performed
      · simp
      · cases form <;> simp [Spawn.hasTracker, Spawn.hasHandle]
  | casScheduled | casCancel | insertQueueDpc =>
      simp only [State.perform] at performed
      split at performed <;> cases performed <;> simp
  | last op => cases op <;> cases performed <;> (try split) <;> simp
  | loop op =>
      obtain ⟨next, -⟩ := performLoop_frame performed
      cases next with
      | again op => simp
      | leave cpu => cases cpu <;> simp [exit]
      | requeue cpu => cases cpu <;> simp [exit]
  | loadCompleted | checkCompleted =>
      cases performed
      split <;> simp
  | _ =>
      cases performed
      simp

end Perform

/-! ## The places of a task's threads -/

/-- What holds of the places of the threads in every state reached. -/
structure Seated (s : State) : Prop where
  /-- Whatever carries a `cpu_index` carries that of its activation. -/
  located : ∀ t ∈ s.threads, ∀ op ∈ t.code, ∀ cpu, op.cpu = some cpu → t.tag = .dpcRoutine cpu
  one : ∀ t ∈ s.threads, total Op.carries t.code ≤ 1
  clears : ∀ t ∈ s.threads, Covered Op.clearsCurrent Op.refs t.code
  /-- Helpers look up the processor of the activation they are called from. -/
  lookups : ∀ t ∈ s.threads, ∀ n take, .loadCurrent n take ∈ t.code →
    ∃ j, t.tag.source = some (.activation j) ∧ s.cpuOf j = some n

section Steps

variable {mode : Hardening} {s s' s₁ : State} {i n : Nat} {c : Choice} {f : Call} {op : Op}
  {push rest : List Op} {t : Thread Call Op}

theorem Seated.initial : Seated initial :=
  ⟨nofun, nofun, nofun, nofun⟩

theorem cpuOf_append (owned : s'.threads = s.threads ++ [t]) {j : Nat}
    (here : s.cpuOf j = some n) : s'.cpuOf j = some n := by
  unfold State.cpuOf at here ⊢
  cases thread : s.threads[j]? with
  | none =>
      rw [thread] at here
      cases here
  | some u =>
      have bound := (List.getElem?_eq_some_iff.mp thread).1
      rw [owned, List.getElem?_append_left bound]
      exact here

theorem cpuOf_set (thread : s.threads[i]? = some ⟨f, op :: rest⟩)
    (threads : s'.threads = s.threads.set i ⟨f, push⟩) (j : Nat) : s'.cpuOf j = s.cpuOf j := by
  unfold State.cpuOf
  rw [threads]
  by_cases same : i = j
  · subst same
    rw [List.getElem?_set_self (List.getElem?_eq_some_iff.mp thread).1, thread]
    cases f <;> rfl
  · rw [List.getElem?_set_ne same]

theorem Seated.run (seated : Seated s) (step : s.step mode (.run i c) = some s') : Seated s' := by
  obtain ⟨f, op, rest, s₁, push, finished, thread, performed, rfl⟩ := State.step_run step
  obtain ⟨cpu, carries, looks, clears, -⟩ := places_of_perform performed
  have member := List.mem_of_getElem? thread
  have located := seated.located _ member
  have one := seated.one _ member
  simp only [total_cons] at one
  refine ⟨?_, ?_, ?_, ?_⟩ <;> rw [State.moved_threads] <;> intro t member' <;>
    rcases List.mem_or_eq_of_mem_set member' with before | rfl
  · exact seated.located t before
  · intro op' pending cpu' carried
    rcases List.mem_append.mp pending with new | old
    · exact located op List.mem_cons_self cpu' (cpu op' new cpu' carried)
    · exact located op' (List.mem_cons_of_mem _ old) cpu' carried
  · exact seated.one t before
  · rw [total_append]
    omega
  · exact seated.clears t before
  · exact clears.append (seated.clears _ member).2
  · intro n take pending
    obtain ⟨j, source, here⟩ := seated.lookups t before n take pending
    exact ⟨j, source, (cpuOf_set thread (State.moved_threads ..) j).trans here⟩
  · intro n take pending
    have old : .loadCurrent n take ∈ rest := by
      refine (List.mem_append.mp pending).resolve_left ?_
      intro new
      have pos := le_total_of_mem Op.looks new
      simp only [Op.looks] at pos
      omega
    obtain ⟨j, source, here⟩ := seated.lookups _ member n take (List.mem_cons_of_mem _ old)
    exact ⟨j, source, (cpuOf_set thread (State.moved_threads ..) j).trans here⟩

theorem Seated.dequeue {cpu : Option Nat} (seated : Seated s)
    (step : s.step mode (.dequeue cpu) = some s') : Seated s' := by
  obtain ⟨-, rfl⟩ := State.step_dequeue step
  refine ⟨?_, ?_, ?_, ?_⟩ <;> intro t member <;>
    rcases List.mem_append.mp member with before | new
  · exact seated.located t before
  · rw [List.mem_singleton.mp new]
    simp [Op.cpu]
  · exact seated.one t before
  · rw [List.mem_singleton.mp new]
    simp [Op.carries, Op.cpu]
  · exact seated.clears t before
  · rw [List.mem_singleton.mp new]
    simp [Covered, Op.refs]
  · intro n take pending
    obtain ⟨j, source, here⟩ := seated.lookups t before n take pending
    exact ⟨j, source, cpuOf_append rfl here⟩
  · rw [List.mem_singleton.mp new]
    simp

theorem code_places (callable : s.callable f = true) :
    (∀ op ∈ s.code f, op.cpu = none) ∧ Covered Op.clearsCurrent Op.refs (s.code f) ∧
      ∀ n take, .loadCurrent n take ∈ s.code f →
        ∃ j, f.source = some (.activation j) ∧ s.cpuOf j = some n := by
  cases f with
  | dpcRoutine cpu => cases callable
  | setTaskBudget budget =>
      cases budget <;> simp [State.code, Op.cpu, Covered, Op.clearsCurrent]
  | isCancellationRequested j | takeCancellationRequest j =>
      cases here : s.cpuOf j with
      | none => simp [State.code, here, Covered]
      | some m =>
          simp only [State.code, here, Option.map_some, Option.toList_some, Covered,
            Op.clearsCurrent, List.mem_singleton, forall_eq, Op.cpu, Op.loadCurrent.injEq]
          refine ⟨trivial, ⟨Bool.false_ne_true.elim, trivial⟩, ?_⟩
          rintro n take ⟨rfl, -⟩
          exact ⟨j, rfl, here⟩
  | _ => simp [State.code, Op.cpu, Covered, Op.clearsCurrent]

theorem Seated.call (seated : Seated s) (step : s.step mode (.call f) = some s') : Seated s' := by
  obtain ⟨callable, rfl⟩ := State.step_call step
  obtain ⟨free, clears, looks⟩ := code_places callable
  have moved : State.threads { s.enter f with threads := s.threads ++ [⟨f, s.code f⟩] } =
      s.threads ++ [⟨f, s.code f⟩] := rfl
  refine ⟨?_, ?_, ?_, ?_⟩ <;> intro t member <;>
    rcases List.mem_append.mp member with before | new
  · exact seated.located t before
  · rw [List.mem_singleton.mp new]
    intro op pending cpu carried
    rw [free op pending] at carried
    cases carried
  · exact seated.one t before
  · rw [List.mem_singleton.mp new]
    have none : total Op.carries (s.code f) = 0 := by
      apply total_eq_zero.mpr
      intro op pending
      simp [Op.carries, free op pending]
    rw [none]
    exact Nat.zero_le 1
  · exact seated.clears t before
  · rw [List.mem_singleton.mp new]
    exact clears
  · intro n take pending
    obtain ⟨j, source, here⟩ := seated.lookups t before n take pending
    exact ⟨j, source, cpuOf_append moved here⟩
  · rw [List.mem_singleton.mp new]
    intro n take pending
    obtain ⟨j, source, here⟩ := looks n take pending
    exact ⟨j, source, cpuOf_append moved here⟩

theorem seated_of_reach {G : State → State.Label → Prop} (reached : (system mode).Reach G s) :
    Seated s := by
  refine Sys.Reach.invariant ?_ ?_ reached
  · rintro s rfl
    exact Seated.initial
  · intro s a s' seated _ step
    cases a with
    | run i c => exact seated.run step
    | dequeue cpu =>
        have taken : s.step mode (.dequeue cpu) = some s' := step
        exact seated.dequeue taken
    | call f =>
        have made : s.step mode (.call f) = some s' := step
        exact seated.call made

/-- Whoever is between `set_current_task` and `clear_current_task` is an activation on that
processor. -/
theorem Seated.tag (seated : Seated s) (thread : s.threads[i]? = some t)
    (sits : 0 < total (Op.sits n) t.code) :
    t.tag = .dpcRoutine (some n) ∧ t.code ≠ [] := by
  obtain ⟨op, member, pos⟩ := exists_of_total_pos sits
  exact ⟨seated.located t (List.mem_of_getElem? thread) op member _ (Op.cpu_of_sits pos),
    List.ne_nil_of_mem member⟩

/-- The block of a task that is current somewhere is not freed. -/
theorem Memory.notFreed (memory : Memory mode s) (seated : Seated s) (sits : s.SitsAt i n) :
    s.deallocs = 0 := by
  obtain ⟨t, thread, pos⟩ := sits
  have member := List.mem_of_getElem? thread
  obtain ⟨op, pending, here⟩ := exists_of_total_pos pos
  have held : 0 < total Op.refs t.code := by
    rcases Op.held_of_sits here with refs | clears
    · have le := le_total_of_mem Op.refs pending
      omega
    · exact (seated.clears t member).pos_of_mem pending clears
  have whole := le_total_of_mem (fun t : Thread Call Op => total Op.refs t.code) member
  have some : 0 < s.references := by
    rw [State.references_eq, load]
    omega
  have freed := memory.freed
  rw [if_neg (fun gone => absurd gone.2 (Nat.ne_of_gt some))] at freed
  omega

/-- Outside its place a thread carries no `cpu_index` any more. -/
theorem Seated.sits_rest (seated : Seated s) (thread : s.threads[i]? = some ⟨f, op :: rest⟩)
    (carries : op.carries = 1) (n : Nat) : total (Op.sits n) rest = 0 := by
  have one := seated.one _ (List.mem_of_getElem? thread)
  have below := total_mono (l := rest) fun op _ => op.sits_le n
  simp only [total_cons] at one
  omega

/-- How the places change with a step of thread `i`. -/
theorem Seated.sits_run {finished : Bool} (seated : Seated s)
    (thread : s.threads[i]? = some ⟨f, op :: rest⟩)
    (performed : s.perform mode i c op = some (s₁, push))
    (same : s' = s₁.moved (s.threads.set i ⟨f, push ++ rest⟩) finished) :
    (∃ m, op = .loop (.setCurrent m) ∧ s'.current = m :: s.current.filter (· ≠ m) ∧
      ∀ j n, s'.SitsAt j n ↔ (j = i ∧ n = m) ∨ s.SitsAt j n) ∨
    (∃ m, op = .clearCurrent m ∧ s'.current = s.current.filter (· ≠ m) ∧ s.SitsAt i m ∧
      ∀ j n, s'.SitsAt j n ↔ j ≠ i ∧ s.SitsAt j n) ∨
    ((∀ m, op ≠ .loop (.setCurrent m) ∧ op ≠ .clearCurrent m) ∧ s'.current = s.current ∧
      ∀ j n, s'.SitsAt j n ↔ s.SitsAt j n) := by
  have bound := (List.getElem?_eq_some_iff.mp thread).1
  have threads : s'.threads = s.threads.set i ⟨f, push ++ rest⟩ := by rw [same]; rfl
  have current : s'.current = s₁.current := by rw [same]; rfl
  have here : ∀ n, s'.SitsAt i n ↔ 0 < total (Op.sits n) push + total (Op.sits n) rest := by
    intro n
    simp [State.SitsAt, threads, List.getElem?_set_self bound]
  have there : ∀ n, s.SitsAt i n ↔ 0 < op.sits n + total (Op.sits n) rest := by
    intro n
    simp [State.SitsAt, thread]
  have others : ∀ j n, j ≠ i → (s'.SitsAt j n ↔ s.SitsAt j n) := by
    intro j n other
    simp only [State.SitsAt, threads, List.getElem?_set_ne (Ne.symm other)]
  rcases (places_of_perform performed).sits with
    ⟨m, rfl, rfl, set⟩ | ⟨m, rfl, rfl, cleared⟩ | ⟨kept, sits⟩
  · have rest := seated.sits_rest thread (by simp [Op.carries, Op.cpu])
    refine .inl ⟨m, rfl, current.trans set, ?_⟩
    intro j n
    by_cases mine : j = i
    · subst mine
      rw [here, there, rest]
      by_cases equal : m = n <;>
        simp [Op.sits, Op.seated, Op.cpu, Loop.cpu, equal, eq_comm]
    · simp [others j n mine, mine]
  · have rest := seated.sits_rest thread (by simp [Op.carries, Op.cpu])
    refine .inr (.inl ⟨m, rfl, current.trans cleared, ?_, ?_⟩)
    · rw [there, rest]
      simp [Op.sits, Op.seated, Op.cpu]
    · intro j n
      by_cases mine : j = i
      · subst mine
        rw [here, rest]
        simp
      · simp [others j n mine, mine]
  · refine .inr (.inr ⟨?_, current.trans kept, ?_⟩)
    · intro m
      constructor
      · rintro rfl
        cases performed
        have weight := sits m
        simp [Op.sits, Op.seated, Op.cpu, Loop.cpu] at weight
      · rintro rfl
        cases performed
        have weight := sits m
        simp [Op.sits, Op.seated, Op.cpu] at weight
    · intro j n
      by_cases mine : j = i
      · subst mine
        rw [here, there, sits]
      · exact others j n mine

/-- A helper that looks up its processor is called from an activation that is there. -/
theorem Memory.sits_of_lookup {take : Bool} (memory : Memory mode s) (seated : Seated s)
    (member : t ∈ s.threads) (pending : .loadCurrent n take ∈ t.code) :
    ∃ j, s.SitsAt j n := by
  obtain ⟨j, source, here⟩ := seated.lookups t member n take pending
  have polls : s.pollingAt j = true :=
    memory.borrows t member _ source (List.ne_nil_of_mem pending)
  obtain ⟨g, l, rest, thread⟩ := State.alive_of_pollingAt polls
  have tag : g = .dpcRoutine l.cpu :=
    seated.located _ (List.mem_of_getElem? thread) (.loop (.polling l)) List.mem_cons_self _ rfl
  have cpu : l.cpu = some n := by
    simpa [State.cpuOf, thread, tag] using here
  refine ⟨j, _, thread, ?_⟩
  simp only [total_cons, Op.sits, Op.seated, Op.cpu, Loop.cpu, cpu]
  exact Nat.add_pos_left Nat.one_pos _

end Steps

end Kcom.Dpc
