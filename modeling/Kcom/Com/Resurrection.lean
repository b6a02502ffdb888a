import Kcom.Conc.Deterministic
import Kcom.Com.Lifetime.Sequential

/-!
# Calls from a `Drop`

`T`'s `Drop` runs inside the `Release` that has brought `ref_count` to 0, and it may
call the shims of the object it belongs to. The operations are those of
`Kcom.Com.Lifetime.Model`, performed by one thread; `drop_in_place` pushes the calls
of `Drop` on what `Release` has still to do, so that calls nest as they do on the
stack.

The check for resurrection looks at the counter once `Drop` has returned. A `Drop`
that takes references and keeps one is caught by it. But the `Release` inside `Drop`
that takes the counter back to 0 finds nothing that tells it from the first one: it
drops `inner` again, and that `Drop` does the same.
-/

namespace Kcom.Com.Resurrection

open Conc Lifetime

/-- A call that `Drop` makes on a pointer of its own object. -/
inductive Call
  | addRef (p : Pointer)
  | release (p : Pointer)
  | queryInterface (p : Pointer) (riid : Option Guid)
  deriving DecidableEq

/-- The object: the build of its counter, its container, whether an outer unknown is
set, what `T::query_interface` answers, and what `T`'s `Drop` does. -/
structure Setting where
  mode : Hardening
  container : Container
  aggregated : Bool
  grants : Guid → Option Granted
  drop : List Call

/-- The counter, what is left to do, and the operations performed so far. -/
structure Machine where
  refCount : Nat
  code : List Op
  trace : List Op
  deriving DecidableEq

/-- How a call moves the counter of the object. -/
inductive Change
  | same
  | up
  | down
  deriving DecidableEq, Repr

namespace Setting

variable (w : Setting)

/-- `IUnknown` calls on the pointer count in the object itself: through the other
pointers of an aggregated object they go to the outer unknown. -/
def counts (p : Pointer) : Bool :=
  !w.aggregated || p = .nonDelegating

/-- `AddRef` through the vtable of the pointer. -/
def addRef (p : Pointer) : List Op :=
  if w.counts p then Lifetime.addRef p .raw else .loadVtable :: p.enter

/-- The operations of a call on the object. -/
def code : Call → List Op
  | .addRef p => w.addRef p
  | .release p => if w.counts p then Lifetime.release p else .loadVtable :: p.enter
  | .queryInterface p riid =>
      if w.counts p then Lifetime.queryInterface w.container p riid false
      else .loadVtable :: p.enter

/-- What is pushed in the place of an operation: the calls of `Drop`, or the `AddRef`
of the pointer that `T::query_interface` has answered with. -/
def pushed (op : Op) (push : List Op) : List Op :=
  match op with
  | .dropInner => w.drop.flatMap w.code
  | .queryInterface riid _ =>
      match w.grants riid with
      | some (.own p) => w.addRef p
      | _ => []
  | _ => push

/-- The next operation. There is none once the call has returned, and none after
`resurrection_violation` and `refcount_violation`. -/
def step (m : Machine) : Option Machine :=
  match m.code with
  | [] => none
  | op :: rest =>
      (op.perform w.mode none 0 ⟨m.refCount, [], []⟩ ⟨0, []⟩).map fun (s, _, push) =>
        ⟨s.refCount, w.pushed op push ++ rest, m.trace ++ [op]⟩

/-- What an answer of `T::query_interface` does to the counter. -/
def granted : Option Granted → Change
  | some (.own p) => if w.counts p then .up else .same
  | _ => .same

/-- What a call does to the counter. -/
def change : Call → Change
  | .addRef p => if w.counts p then .up else .same
  | .release p => if w.counts p then .down else .same
  | .queryInterface p riid =>
      if w.counts p then
        match riid with
        | none => .same
        | some riid => if riid = iidIUnknown then .up else w.granted (w.grants riid)
      else .same

/-- The counter after the calls, from `n` on; `none` where one of them stops in
`refcount_violation` or is a `Release` that returns 0. -/
def tally : Nat → List Call → Option Nat
  | n, [] => some n
  | n, call :: calls =>
      match w.change call with
      | .same => tally n calls
      | .up => (Refcount.add w.mode n).bind fun r => tally r.2 calls
      | .down =>
          (Refcount.sub w.mode n).bind fun r => if r.1 = 0 then none else tally r.2 calls

/-- The calls never give back more references than they have taken, `k` being held
before them. -/
def balanced : Nat → List Call → Bool
  | _, [] => true
  | k, call :: calls =>
      match w.change call with
      | .same => balanced k calls
      | .up => balanced (k + 1) calls
      | .down => 0 < k && balanced (k - 1) calls

end Setting

/-- The end of a run is `resurrection_violation`, before anything was freed. -/
def Machine.Violation (e : Machine) : Prop :=
  e.code.head? = some .loadCount ∧ e.refCount ≠ 0 ∧ .dealloc ∉ e.trace

/-- The call has returned, `inner` was dropped once, the block freed once, and
nothing touched it after that. -/
def Machine.Destroyed (e : Machine) : Prop :=
  e.code = [] ∧ e.trace.count .dropInner = 1 ∧ e.trace.count .dealloc = 1 ∧
    ∃ before after, e.trace = before ++ .dealloc :: after ∧ ∀ op ∈ after, op.touches = false

/-- The `Release` through `p` that finds the counter at 1 ends in one of the two
ways. -/
def Caught (w : Setting) (p : Pointer) : Prop :=
  ∃ e, Ends w.step ⟨1, w.code (.release p), []⟩ e ∧ (e.Violation ∨ e.Destroyed)

/-! ## One call -/

section Calls

variable {w : Setting} {n k : Nat} {rest trace : List Op} {op : Op} {call : Call} {p : Pointer}

/-- Operations that neither drop nor free. -/
def Calm (ops : List Op) : Prop :=
  .dropInner ∉ ops ∧ .dealloc ∉ ops

theorem Calm.append {first second : List Op} (calm : Calm first) (calm' : Calm second) :
    Calm (first ++ second) := by
  obtain ⟨noDrop, noFree⟩ := calm
  obtain ⟨noDrop', noFree'⟩ := calm'
  simp [Calm, noDrop, noFree, noDrop', noFree']

theorem Calm.of_loads {ops : List Op} (loads : ∀ op ∈ ops, op.loads = true) : Calm ops := by
  constructor
  · intro mem
    cases loads _ mem
  · intro mem
    cases loads _ mem

/-- A run that performs `ops` and does nothing else to the trace. -/
def Passes (w : Setting) (n : Nat) (code : List Op) (k : Nat) (rest : List Op) : Prop :=
  ∃ ops, Calm ops ∧ ∀ trace, Runs w.step ⟨n, code, trace⟩ ⟨k, rest, trace ++ ops⟩

theorem Passes.refl : Passes w n rest n rest :=
  ⟨[], ⟨List.not_mem_nil, List.not_mem_nil⟩, fun trace => by rw [List.append_nil]⟩

theorem Passes.trans {code later : List Op} {j : Nat} (first : Passes w n code k later)
    (second : Passes w k later j rest) : Passes w n code j rest := by
  obtain ⟨ops, calm, runs⟩ := first
  obtain ⟨ops', calm', runs'⟩ := second
  refine ⟨ops ++ ops', calm.append calm', fun trace => ?_⟩
  rw [← List.append_assoc]
  exact (runs trace).trans (runs' _)

theorem Passes.of_step {later : List Op} (calm : Calm [op])
    (next : ∀ trace, w.step ⟨n, op :: rest, trace⟩ = some ⟨k, later, trace ++ [op]⟩) :
    Passes w n (op :: rest) k later :=
  ⟨[op], calm, fun trace => Relation.ReflTransGen.single (next trace)⟩

theorem Passes.loads {code : List Op} (loads : ∀ op ∈ code, op.loads = true) :
    Passes w n (code ++ rest) n rest := by
  induction code with
  | nil => exact .refl
  | cons op code ih =>
      have load := loads op List.mem_cons_self
      have after := ih fun op' mem => loads op' (List.mem_cons_of_mem _ mem)
      refine .trans (.of_step (.of_loads ?_) ?_) after
      · intro op' mem
        rw [List.mem_singleton.mp mem]
        exact load
      · intro trace
        cases op <;> first | rfl | cases load

/-- What is left of a call when it comes to the counter. -/
inductive Decisive : Change → List Op → Prop
  | same : Decisive .same []
  | up (g : Held) : Decisive .up [.add g]
  | down : Decisive .down [.sub]

theorem addRef_passes (p : Pointer) :
    ∃ tail, Decisive (if w.counts p then .up else .same) tail ∧
      Passes w n (w.addRef p ++ rest) n (tail ++ rest) := by
  rw [Setting.addRef]
  split
  · refine ⟨[.add .raw], .up _, ?_⟩
    rw [Lifetime.addRef, List.append_assoc]
    exact .loads (loads_enter p)
  · exact ⟨[], .same, .loads (loads_enter p)⟩

/-- `T::query_interface`, and the `AddRef` of what it has found. -/
theorem asked_passes (riid : Guid) :
    ∃ tail, Decisive (w.granted (w.grants riid)) tail ∧
      Passes w n (.queryInterface riid false :: rest) n (tail ++ rest) := by
  have asks : Passes w n (.queryInterface riid false :: rest) n
      (w.pushed (.queryInterface riid false) [] ++ rest) :=
    .of_step ⟨by simp, by simp⟩ fun trace => rfl
  have answers : ∃ tail, Decisive (w.granted (w.grants riid)) tail ∧
      Passes w n (w.pushed (.queryInterface riid false) [] ++ rest) n (tail ++ rest) := by
    simp only [Setting.pushed, Setting.granted]
    split
    · exact addRef_passes _
    · exact ⟨[], .same, .refl⟩
  obtain ⟨tail, decisive, passes⟩ := answers
  exact ⟨tail, decisive, asks.trans passes⟩

/-- The loads of a call come first. -/
theorem call_passes (call : Call) :
    ∃ tail, Decisive (w.change call) tail ∧
      Passes w n (w.code call ++ rest) n (tail ++ rest) := by
  cases call with
  | addRef p => exact addRef_passes p
  | release p =>
      simp only [Setting.code, Setting.change]
      split
      · refine ⟨[.sub], .down, ?_⟩
        rw [Lifetime.release, List.append_assoc]
        exact .loads (loads_enter p)
      · exact ⟨[], .same, .loads (loads_enter p)⟩
  | queryInterface p riid =>
      simp only [Setting.code, Setting.change]
      split
      · cases riid with
        | none =>
            refine ⟨[], .same, ?_⟩
            simp only [Lifetime.queryInterface, List.append_nil]
            exact .loads (loads_enter p)
        | some riid =>
            by_cases unknown : riid = iidIUnknown
            · subst unknown
              obtain ⟨code, loads, shape⟩ := queryInterface_unknown (c := w.container) p false
              simp only [if_true]
              refine ⟨_, .up (answered false p.unknown), ?_⟩
              rw [shape, List.append_assoc]
              exact .loads loads
            · obtain ⟨code, loads, shape⟩ := queryInterface_other (c := w.container) unknown p false
              simp only [if_neg unknown]
              rw [shape, List.append_assoc]
              have asked : ∃ tail, Decisive (w.granted (w.grants riid)) tail ∧
                  Passes w n (.queryInterface riid false :: rest) n (tail ++ rest) :=
                asked_passes riid
              obtain ⟨tail, decisive, passes⟩ := asked
              exact ⟨tail, decisive, (Passes.loads loads).trans passes⟩
      · exact ⟨[], .same, .loads (loads_enter p)⟩

theorem add_passes {g : Held} {r : Nat × Nat} (added : Refcount.add w.mode n = some r) :
    Passes w n (.add g :: rest) r.2 rest := by
  have adds : Passes w n (.add g :: rest) r.2 (.gain g :: rest) := by
    refine .of_step ⟨by simp, by simp⟩ fun trace => ?_
    simp only [Setting.step, Op.perform, added, Option.map_some]
    rfl
  exact adds.trans (.of_step ⟨by simp, by simp⟩ fun trace => rfl)

theorem sub_passes {r : Nat × Nat} (gone : Refcount.sub w.mode n = some r) :
    Passes w n (.sub :: rest) r.2 ((if r.1 = 0 then Lifetime.releaseInner else []) ++ rest) := by
  refine .of_step ⟨by simp, by simp⟩ fun trace => ?_
  simp only [Setting.step, Op.perform, gone, Option.map_some]
  split <;> rfl

/-- A call that the tally counts through. -/
theorem Passes.one {calls : List Call} (tallied : w.tally n (call :: calls) = some k) :
    ∃ j, w.tally j calls = some k ∧ Passes w n (w.code call ++ rest) j rest := by
  have shape : ∃ tail, Decisive (w.change call) tail ∧
      Passes w n (w.code call ++ rest) n (tail ++ rest) := call_passes call
  obtain ⟨tail, decisive, passes⟩ := shape
  rw [Setting.tally] at tallied
  generalize w.change call = change at decisive tallied
  cases decisive with
  | same => exact ⟨n, tallied, passes⟩
  | up g =>
      obtain ⟨r, added, tallied⟩ := Option.bind_eq_some_iff.mp tallied
      exact ⟨r.2, tallied, passes.trans (add_passes added)⟩
  | down =>
      obtain ⟨r, gone, tallied⟩ := Option.bind_eq_some_iff.mp tallied
      split at tallied
      · cases tallied
      · rename_i more
        have subs : Passes w n (.sub :: rest) r.2 _ := sub_passes gone
        rw [if_neg more, List.nil_append] at subs
        exact ⟨r.2, tallied, passes.trans subs⟩

/-- All calls of a `Drop` that the tally counts through. -/
theorem Passes.calls {calls : List Call} (tallied : w.tally n calls = some k) :
    Passes w n (calls.flatMap w.code ++ rest) k rest := by
  induction calls generalizing n with
  | nil =>
      obtain rfl := Option.some.inj tallied
      exact .refl
  | cons call calls ih =>
      rw [List.flatMap_cons, List.append_assoc]
      obtain ⟨j, tallied, passes⟩ := Passes.one tallied
      exact passes.trans (ih tallied)

/-- The run has stopped in `refcount_violation`. -/
def Machine.Overrun (w : Setting) (e : Machine) : Prop :=
  w.step e = none ∧ ((∃ g rest, e.code = .add g :: rest) ∨ ∃ rest, e.code = .sub :: rest)

/-- The run stops in `refcount_violation`, or comes to end the object. -/
def Fails (w : Setting) (m : Machine) : Prop :=
  (∃ e, Runs w.step m e ∧ e.Overrun w) ∨
    ∃ rest trace, Runs w.step m ⟨0, Lifetime.releaseInner ++ rest, trace⟩

theorem Fails.of_runs {m m' : Machine} (runs : Runs w.step m m') (fails : Fails w m') :
    Fails w m := by
  rcases fails with ⟨e, later, ended⟩ | ⟨rest, trace, later⟩
  · exact Or.inl ⟨e, runs.trans later, ended⟩
  · exact Or.inr ⟨rest, trace, runs.trans later⟩

/-- The calls of a `Drop` in which the tally fails. -/
theorem fails_of_tally {calls : List Call} (tallied : w.tally n calls = none) :
    Fails w ⟨n, calls.flatMap w.code ++ rest, trace⟩ := by
  induction calls generalizing n trace with
  | nil => cases tallied
  | cons call calls ih =>
      rw [List.flatMap_cons, List.append_assoc]
      have shape : ∃ tail, Decisive (w.change call) tail ∧
          Passes w n (w.code call ++ (calls.flatMap w.code ++ rest)) n
            (tail ++ (calls.flatMap w.code ++ rest)) := call_passes call
      obtain ⟨tail, decisive, ops, -, runs⟩ := shape
      refine .of_runs (runs trace) ?_
      rw [Setting.tally] at tallied
      generalize w.change call = change at decisive tallied
      cases decisive with
      | same => exact ih tallied
      | up g =>
          cases added : Refcount.add w.mode n with
          | none =>
              refine Or.inl ⟨_, .refl, ?_, Or.inl ⟨g, _, rfl⟩⟩
              simp [Setting.step, Op.perform, added]
          | some r =>
              simp only [added, Option.bind_some] at tallied
              have adds : Passes w n (.add g :: (calls.flatMap w.code ++ rest)) r.2 _ :=
                add_passes added
              obtain ⟨ops', -, runs'⟩ := adds
              exact .of_runs (runs' _) (ih tallied)
      | down =>
          cases gone : Refcount.sub w.mode n with
          | none =>
              refine Or.inl ⟨_, .refl, ?_, Or.inr ⟨_, rfl⟩⟩
              simp [Setting.step, Op.perform, gone]
          | some r =>
              simp only [gone, Option.bind_some] at tallied
              have subs : Passes w n (.sub :: (calls.flatMap w.code ++ rest)) r.2 _ :=
                sub_passes gone
              obtain ⟨ops', -, runs'⟩ := subs
              refine .of_runs (runs' _) ?_
              split at tallied
              · rename_i last
                have left : r.2 = 0 := Refcount.sub_eq_zero (by rw [gone, ← last])
                rw [if_pos last, left]
                exact Or.inr ⟨_, _, .refl⟩
              · rename_i more
                rw [if_neg more]
                exact ih tallied

end Calls

/-! ## The `Release` that finds 1 -/

section Release

variable {w : Setting} {p : Pointer} {rest trace : List Op}

/-- It counts down to 0 and goes on to end the object. -/
theorem release_passes (own : w.counts p = true) :
    Passes w 1 (w.code (.release p)) 0 Lifetime.releaseInner := by
  rw [Setting.code, if_pos own]
  have loads : Passes w 1 (Lifetime.release p) 1 [.sub] := .loads (loads_enter p)
  have one : Refcount.sub w.mode 1 = some (0, 0) := by cases w.mode <;> rfl
  have subs : Passes w 1 [.sub] 0 _ := sub_passes one
  rw [if_pos rfl, List.append_nil] at subs
  exact loads.trans subs

/-- The end of the object up to the calls of `Drop`. -/
theorem drop_runs : Relation.TransGen (Steps w.step)
    ⟨0, Lifetime.releaseInner ++ rest, trace⟩
    ⟨0, w.drop.flatMap w.code ++ (.loadCount :: .dealloc :: .dropAlloc :: rest),
      trace ++ [.readAlloc] ++ [.dropInner]⟩ :=
  .head (rfl : w.step _ = some ⟨0, .dropInner :: .loadCount :: .dealloc :: .dropAlloc :: rest,
    trace ++ [.readAlloc]⟩) (.single rfl)

/-- The check passes and the block is freed. -/
theorem free_runs : Runs w.step ⟨0, [.loadCount, .dealloc, .dropAlloc], trace⟩
    ⟨0, [], trace ++ [.loadCount] ++ [.dealloc] ++ [.dropAlloc]⟩ := by
  have check : w.step ⟨0, [.loadCount, .dealloc, .dropAlloc], trace⟩ =
      some ⟨0, [.dealloc, .dropAlloc], trace ++ [.loadCount]⟩ := rfl
  have free : w.step ⟨0, [.dealloc, .dropAlloc], trace ++ [.loadCount]⟩ =
      some ⟨0, [.dropAlloc], trace ++ [.loadCount] ++ [.dealloc]⟩ := rfl
  exact .head check (.head free (.single rfl))

/-- `Drop` has returned and the check is next. -/
theorem check_runs {k : Nat} (own : w.counts p = true) (tallied : w.tally 0 w.drop = some k) :
    ∃ first ops, Calm first ∧ Calm ops ∧ Runs w.step ⟨1, w.code (.release p), []⟩
      ⟨k, [.loadCount, .dealloc, .dropAlloc],
        first ++ [.readAlloc] ++ [.dropInner] ++ ops⟩ := by
  obtain ⟨first, calm, runs⟩ := release_passes own
  have calls : Passes w 0 (w.drop.flatMap w.code ++ [.loadCount, .dealloc, .dropAlloc]) k _ :=
    .calls tallied
  obtain ⟨ops, calm', runs'⟩ := calls
  have dropped : Relation.TransGen (Steps w.step) ⟨0, Lifetime.releaseInner ++ [], [] ++ first⟩ _ :=
    drop_runs
  exact ⟨first, ops, calm, calm', (runs []).trans (dropped.to_reflTransGen.trans (runs' _))⟩

theorem caught_of_tally {k : Nat} (own : w.counts p = true)
    (tallied : w.tally 0 w.drop = some k) : Caught w p := by
  obtain ⟨first, ops, ⟨noDrop, noFree⟩, ⟨noDrop', noFree'⟩, runs⟩ := check_runs own tallied
  cases k with
  | zero =>
      -- nothing is held: the block is freed and only the allocator is left to drop
      refine ⟨_, ⟨runs.trans free_runs, rfl⟩, Or.inr ⟨rfl, ?_, ?_, ?_⟩⟩
      · simp [List.count_eq_zero.mpr noDrop, List.count_eq_zero.mpr noDrop']
      · simp [List.count_eq_zero.mpr noFree, List.count_eq_zero.mpr noFree']
      · refine ⟨_, [.dropAlloc], List.append_assoc .., ?_⟩
        simp [Op.touches]
  | succ k =>
      refine ⟨_, ⟨runs, rfl⟩, Or.inl ⟨rfl, Nat.succ_ne_zero k, ?_⟩⟩
      simp [noFree, noFree']

/-- Where the tally fails, an end of the object that is not `refcount_violation` would
be the end of another one inside it. -/
theorem overrun_of_ends {e : Machine} (tallied : w.tally 0 w.drop = none)
    (ends : Ends w.step ⟨0, Lifetime.releaseInner ++ rest, trace⟩ e) : e.Overrun w := by
  let Ending : Machine → Prop := fun m =>
    ∃ rest trace, m = ⟨0, Lifetime.releaseInner ++ rest, trace⟩
  refine ends.of_recurs (L := Ending) (P := Machine.Overrun w) ?_ ⟨rest, trace, rfl⟩
  rintro m ⟨rest, trace, rfl⟩
  have entered : Relation.TransGen (Steps w.step) ⟨0, Lifetime.releaseInner ++ rest, trace⟩ _ :=
    drop_runs
  rcases fails_of_tally tallied with ⟨e, runs, ended⟩ | ⟨rest', trace', runs⟩
  · exact Or.inl ⟨e, ⟨entered.to_reflTransGen.trans runs, ended.1⟩, ended⟩
  · exact Or.inr ⟨_, entered.trans_left runs, rest', trace', rfl⟩

theorem tally_of_caught (own : w.counts p = true) (caught : Caught w p) :
    (w.tally 0 w.drop).isSome = true := by
  obtain ⟨e, ends, outcome⟩ := caught
  cases tallied : w.tally 0 w.drop with
  | some k => rfl
  | none =>
      exfalso
      obtain ⟨first, -, runs⟩ := release_passes own
      have entered : Ends w.step ⟨0, Lifetime.releaseInner ++ [], [] ++ first⟩ e :=
        ends.of_runs (runs [])
      obtain ⟨-, stopped⟩ := overrun_of_ends tallied entered
      rcases outcome with ⟨head, -, -⟩ | ⟨returned, -⟩
      · rcases stopped with ⟨g, rest, code⟩ | ⟨rest, code⟩ <;> rw [code] at head <;> cases head
      · rcases stopped with ⟨g, rest, code⟩ | ⟨rest, code⟩ <;> rw [code] at returned <;>
          cases returned

end Release

/-- **When resurrection is caught.** The `Release` that brings the counter to 0 ends in
`resurrection_violation` with nothing freed, or drops `inner` once, frees the block
once and touches nothing afterwards, exactly when no call of `Drop` stops in
`refcount_violation` and no `Release` of it takes the counter back to 0. -/
theorem resurrection_caught_iff (w : Setting) (p : Pointer) (own : w.counts p = true) :
    Caught w p ↔ (w.tally 0 w.drop).isSome = true := by
  constructor
  · exact tally_of_caught own
  · intro tallied
    obtain ⟨k, tallied⟩ := Option.isSome_iff_exists.mp tallied
    exact caught_of_tally own tallied

/-- A `ComObject` whose `Drop` makes the calls. -/
def dropping (calls : List Call) : Setting where
  mode := .off
  container := shimContainer .iUnknown
  aggregated := false
  grants _ := none
  drop := calls

/-- A `Drop` that takes two references and gives one back. -/
theorem resurrection_caught_of_kept :
    Caught (dropping [.addRef .primary, .addRef .nonDelegating, .release .primary]) .primary :=
  (resurrection_caught_iff _ _ rfl).mpr rfl

/-- A `Drop` that takes one reference and gives it back: `inner` is dropped again
inside its own `Drop`, and `Release` does not come to an end. -/
theorem resurrection_not_caught :
    (∃ m, Runs (dropping [.addRef .primary, .release .primary]).step
        ⟨1, release .primary, []⟩ m ∧ m.trace.count .dropInner = 2) ∧
      ¬ ∀ (w : Setting) (p : Pointer), w.counts p = true → w.balanced 0 w.drop = true →
        Caught w p := by
  constructor
  · exact Runs.exists_of_runFor (fun m : Machine => m.trace.count .dropInner = 2) 14 (by decide)
  · intro caught
    have one := caught (dropping [.addRef .primary, .release .primary]) .primary rfl rfl
    cases tally_of_caught rfl one

end Kcom.Com.Resurrection
