/-
# A scope and the tasks it owns

The promise returned by `Kode.scope` settles only after the function given to it is
over; that is all its chain waits for. Nothing in it refers to the tasks, so a scope
outlives its tasks only when its function does: when the function comes to its end
after the tasks have settled, and starts none later. Otherwise the scope's promise
overtakes a task, and its continuations run while the task is still counted.
-/

import Kode.Library.StepSystem
import Kode.Scope.ChainSteps

namespace Kode.Scope.Host

open Kode.Library Kode.Library.Promise

variable {host new : Host} {event : Event} {scope task : ℕ}

/-! ### What a settled promise of a call says -/

section

variable {mayStart : ℕ → Prop}

theorem Chain.allowsSettle (chain : Chain mayStart host) {promise : ℕ}
    (settled : host.heap.Settled promise) : host.AllowsSettle promise := by
  obtain ⟨result, known⟩ := Heap.settled_iff.mp settled
  exact (chain.heap.settled promise result known).2.2

theorem Chain.over_of_body (chain : Chain mayStart host) {call : ℕ} (call_lt : call < host.nextCall)
    (settled : host.heap.Settled (host.calls call).body) : host.Over call :=
  (allowsSettle_body (chain.calls call call_lt).origin_body).mp (chain.allowsSettle settled)

theorem Chain.over_of_guarded (chain : Chain mayStart host) {call : ℕ}
    (call_lt : call < host.nextCall) (settled : host.heap.Settled (host.calls call).guarded) :
    host.Over call := by
  apply chain.over_of_body call_lt
  rcases (chain.calls call call_lt).origin_guarded with origin | same
  · exact (allowsSettle_guarded origin).mp (chain.allowsSettle settled)
  · exact same ▸ settled

theorem Chain.released_of_result (chain : Chain mayStart host) {call : ℕ}
    (call_lt : call < host.nextCall) (settled : host.heap.Settled (host.calls call).result) :
    (host.calls call).counted = false :=
  (allowsSettle_result (chain.calls call call_lt).origin_result).mp (chain.allowsSettle settled)

/-- The promise of a call settles only when the function of the call is over. -/
theorem Chain.over_of_result (chain : Chain mayStart host) {call : ℕ}
    (call_lt : call < host.nextCall) (settled : host.heap.Settled (host.calls call).result) :
    host.Over call :=
  chain.over_of_guarded call_lt
    ((chain.calls call call_lt).released (chain.released_of_result call_lt settled))

/-- A continuation is queued only when its promise has settled. -/
theorem Chain.settled_of_queued (chain : Chain mayStart host) {source : ℕ}
    {handler : Handler Callback Plain} {argument : JsValue} {capability : Option ℕ}
    (queued : .reaction source handler argument capability ∈ host.heap.jobs) :
    host.heap.Settled source :=
  (chain.heap.queued _ queued).2.1

end

/-! ### Where new calls come from -/

/-- Only the two calls of the bootstrap accept anything. -/
theorem step_nextCall (taken : host.step event = some new) :
    new.nextCall = host.nextCall ∨ (∃ callable, new = (host.scope callable).1) ∨
      ∃ owner callable, event = .act (.async owner callable) ∧
        new = (host.async owner callable).1 := by
  cases step_move taken with
  | enter => exact .inl rfl
  | job queue => exact .inl (runJob_nextCall ..)
  | act running move =>
      cases move with
      | newPromise => exact .inl rfl
      | useResolver held exposed => exact .inl (useResolver_nextCall ..)
      | andThen exposed => exact .inl rfl
      | await exposed => exact .inl rfl
      | scope callable => exact .inr (.inl ⟨callable, rfl⟩)
      | @async owner callable _ => exact .inr (.inr ⟨owner, callable, rfl, rfl⟩)
      | leave exposed => exact .inl (leave_nextCall ..)

/-- A new task comes from a `scope.async` call that its scope did not refuse. -/
theorem step_accepts (taken : host.step event = some new) (added : host.nextCall ≤ task)
    (task_lt : task < new.nextCall) (owned : (new.calls task).owner = some scope) :
    task = host.nextCall ∧ event = .act (.async scope true) ∧
      (host.calls scope).failed = false ∧ new = (host.async scope true).1 := by
  rcases step_nextCall taken with same | ⟨callable, rfl⟩ | ⟨owner, callable, rfl, rfl⟩
  · exact absurd task_lt (by omega)
  · cases callable with
    | false => exact absurd task_lt (Nat.not_lt_of_le added)
    | true =>
        rw [scope_accepts] at task_lt owned
        obtain rfl : task = host.nextCall := Nat.le_antisymm (Nat.le_of_lt_succ task_lt) added
        simp at owned
  · cases callable with
    | false => exact absurd task_lt (Nat.not_lt_of_le added)
    | true =>
        cases flag : (host.calls owner).failed with
        | true =>
            exfalso
            simp only [Host.async, flag] at task_lt
            exact absurd task_lt (Nat.not_lt_of_le added)
        | false =>
            have unfolded := async_accepts flag
            rw [unfolded] at task_lt owned
            obtain rfl : task = host.nextCall := Nat.le_antisymm (Nat.le_of_lt_succ task_lt) added
            obtain rfl : owner = scope := by simpa using owned
            exact ⟨rfl, rfl, flag, rfl⟩

/-- An accepted `scope.async` call settles no promise that exists. -/
theorem async_outcome {owner promise : ℕ} (flag : (host.calls owner).failed = false)
    (below : promise < host.heap.next) :
    (host.async owner true).1.heap.outcome promise = host.heap.outcome promise := by
  rw [async_accepts flag]
  simp only [startedHeap, Heap.outcome_performThen, Heap.outcome_create, Heap.outcome_settle,
    Heap.next_performThen, Heap.next_create, Heap.next_settle]
  simp (disch := omega) only [if_neg]

theorem async_calls {owner call : ℕ} (flag : (host.calls owner).failed = false)
    (below : call < host.nextCall) : (host.async owner true).1.calls call = host.calls call := by
  rw [async_accepts flag]
  exact Function.update_of_ne (Nat.ne_of_lt below) ..

/-- An accepted `scope.async` call ends no function. -/
theorem Chain.over_of_async {mayStart : ℕ → Prop} (chain : Chain mayStart host) {owner call : ℕ}
    (flag : (host.calls owner).failed = false) (below : call < host.nextCall)
    (finished : (host.async owner true).1.Over call) : host.Over call := by
  obtain ⟨completion, mem, decides⟩ := finished
  rw [async_calls flag below] at mem
  have bound := (chain.calls call below).ended_below completion mem
  refine ⟨completion, mem, ?_⟩
  cases completion with
  | threw reason => trivial
  | returned value =>
      cases value with
      | plain value => trivial
      | promise promise =>
          show (host.heap.outcome promise).isSome
          rw [← async_outcome flag bound]
          exact decides
      | thenable object => exact decides

/-! ### The scope's function ends last -/

/-- The condition on a step: the function of a scope comes to its end only when the
scope's tasks have settled, and a scope accepts no task after its function is over. -/
def AwaitsTasks (host : Host) (event : Event) : Prop :=
  (∀ new, host.step event = some new → ∀ task < host.nextCall, ∀ scope,
    (host.calls task).owner = some scope → new.Over scope → ¬ host.Over scope →
      host.heap.Settled (host.calls task).result) ∧
  ∀ scope, event = .act (.async scope true) → (host.calls scope).failed = false →
    ¬ host.Over scope

/-- A scope whose function is over has no unsettled tasks. -/
def TasksSettled (host : Host) : Prop :=
  ∀ task < host.nextCall, ∀ scope, (host.calls task).owner = some scope → host.Over scope →
    host.heap.Settled (host.calls task).result

theorem tasksSettled_step {mayStart : ℕ → Prop} (chain : Chain mayStart host)
    (may : mayStart host.nextCall) (before : host.TasksSettled) (allowed : host.AwaitsTasks event)
    (taken : host.step event = some new) : new.TasksSettled := by
  have advances := chain.step may taken
  intro task task_lt scope owned finished
  by_cases old : task < host.nextCall
  · have kept := advances.later.call task old
    rw [kept.owner] at owned
    rw [kept.result]
    apply advances.later.heap.settled (chain.calls task old).result_lt
    by_cases overBefore : host.Over scope
    · exact before task old scope owned overBefore
    · exact allowed.1 new taken task old scope owned finished overBefore
  · -- the task is new, so its scope's function was not over and still is not
    obtain ⟨rfl, rfl, flag, rfl⟩ := step_accepts taken (Nat.le_of_not_lt old) task_lt owned
    have scope_lt := (advances.chain.calls _ task_lt).owner_lt scope owned
    exact absurd (chain.over_of_async flag scope_lt finished) (allowed.2 scope rfl flag)

theorem chain_of_reachable {allowed : Host → Event → Prop}
    (reached : ReachableUnder Host.step allowed Host.initial host) :
    Chain (fun _ => True) host := by
  apply reached.invariant Chain.initial
  intro state event target chain _ taken
  exact (chain.step trivial taken).chain

theorem tasksSettled_of_reachable
    (reached : ReachableUnder Host.step AwaitsTasks Host.initial host) : host.TasksSettled := by
  apply reached.invariant_given fun _ => chain_of_reachable
  · intro task task_lt
    exact absurd task_lt (Nat.not_lt_zero task)
  · intro state event target chain before allowed taken
    exact tasksSettled_step chain trivial before allowed taken

/-- In a run in which the function of every scope ends only after the scope's tasks
have settled, and starts none after its end, a scope's promise settles only after the
promises of all its tasks, and no continuation of it is even queued while a task of
the scope is counted. -/
theorem scope_outlives_tasks (reached : ReachableUnder Host.step AwaitsTasks Host.initial host)
    (task_lt : task < host.nextCall) (owned : (host.calls task).owner = some scope) :
    (host.heap.Settled (host.calls scope).result →
      host.heap.Settled (host.calls task).result ∧ (host.calls task).counted = false) ∧
    ∀ handler argument capability,
      .reaction (host.calls scope).result handler argument capability ∈ host.heap.jobs →
        (host.calls task).counted = false := by
  have chain := chain_of_reachable reached
  have scope_lt := Nat.lt_trans ((chain.calls task task_lt).owner_lt scope owned) task_lt
  have outlives (settled : host.heap.Settled (host.calls scope).result) :
      host.heap.Settled (host.calls task).result ∧ (host.calls task).counted = false := by
    have finished := chain.over_of_result scope_lt settled
    have taskSettled := tasksSettled_of_reachable reached task task_lt scope owned finished
    exact ⟨taskSettled, chain.released_of_result task_lt taskSettled⟩
  refine ⟨outlives, ?_⟩
  intro handler argument capability queued
  exact (outlives (chain.settled_of_queued queued)).2

/-- A test for the condition on the steps. -/
def awaitsTasks (host : Host) (event : Event) : Bool :=
  (match host.step event with
    | none => true
    | some new => (List.range host.nextCall).all fun task =>
        match (host.calls task).owner with
        | none => true
        | some scope => !decide (new.Over scope) || decide (host.Over scope) ||
            decide (host.heap.Settled (host.calls task).result)) &&
  match event with
  | .act (.async scope true) => (host.calls scope).failed || !decide (host.Over scope)
  | _ => true

theorem awaitsTasks_sound (passed : host.awaitsTasks event = true) : host.AwaitsTasks event := by
  obtain ⟨ends, starts⟩ := Bool.and_eq_true_iff.mp passed
  constructor
  · intro new taken task task_lt scope owned finished notOver
    rw [taken] at ends
    have tested := List.all_eq_true.mp ends task (List.mem_range.mpr task_lt)
    simpa [owned, finished, notOver] using tested
  · rintro scope rfl flag
    simpa [flag] using starts

/-- The program calls `Kode.scope` and returns; the function of the scope is entered. -/
def enterScopeRun : List Event :=
  [.enter, .act (.scope true), .act (.returns (.plain .undefined)), .job]

/-- An asynchronous function awaits its only task. -/
theorem scope_outlives_tasks_awaited :
    ∃ host, ReachableUnder Host.step AwaitsTasks Host.initial host ∧
      host.heap.Settled (host.calls 0).result ∧ host.heap.Settled (host.calls 1).result ∧
      (host.calls 1).counted = false := by
  have evaluated : (runSteps (guarded Host.step awaitsTasks) Host.initial (List.flatten
      [enterScopeRun, [.act (.async 0 true), .act .newPromise, .act (.await 6),
        .act (.returns (.promise 7)), .job, .act (.returns (.plain (.other 1)))],
      List.replicate 7 .job,
      [.act (.resolve 7 (.plain .undefined)), .act (.returns (.plain .undefined))],
      List.replicate 5 .job])).map
      (fun host => (host.nextCall, (host.calls 1).owner,
        decide (host.heap.Settled (host.calls 0).result))) = some (2, some 0, true) := by
    decide
  obtain ⟨host, ran, facts⟩ := Option.map_eq_some_iff.mp evaluated
  obtain ⟨accepted, rest⟩ := Prod.mk.inj facts
  obtain ⟨owned, settled⟩ := Prod.mk.inj rest
  have reached : ReachableUnder Host.step AwaitsTasks Host.initial host :=
    reachableUnder_of_guarded (fun _ _ => awaitsTasks_sound) ran
  have settled : host.heap.Settled (host.calls 0).result := of_decide_eq_true settled
  have outlived := (scope_outlives_tasks reached (by omega) owned).1 settled
  exact ⟨host, reached, settled, outlived⟩

/-- A function starts a task that never settles and returns without awaiting it. -/
theorem scope_overtakes_task :
    ¬ ∀ host, Reachable Host.step Host.initial host → ∀ task < host.nextCall, ∀ scope,
      (host.calls task).owner = some scope → host.heap.Settled (host.calls scope).result →
        host.heap.Settled (host.calls task).result := by
  intro always
  have evaluated : (runSteps Host.step Host.initial (List.flatten
      [enterScopeRun, [.act (.async 0 true), .act (.returns (.plain .undefined)), .job,
        .act .newPromise, .act (.returns (.promise 7))],
      List.replicate 5 .job])).map
      (fun host => (host.nextCall, (host.calls 1).owner,
        decide (host.heap.Settled (host.calls 0).result),
        decide (host.heap.Settled (host.calls 1).result), host.activeOperations)) =
      some (2, some 0, true, false, 0, 1) := by
    decide
  obtain ⟨host, ran, facts⟩ := Option.map_eq_some_iff.mp evaluated
  simp only [Prod.mk.injEq, decide_eq_true_eq, decide_eq_false_iff_not] at facts
  obtain ⟨accepted, owned, settled, unsettled, _⟩ := facts
  exact unsettled (always host (reachable_of_runSteps ran) 1 (by omega) 0 owned settled)

end Kode.Scope.Host
