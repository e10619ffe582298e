/-
# A failed task and its siblings

A task fails when its function throws or the promise it returned is rejected. The
scope learns of it later: `state.failed` is set by the callback of `.catch`, at least
one microtask after the failure. `scope.async` tests the flag when it is called, and
the function of an accepted task starts in a microtask of its own without another
test. So a failure stops the functions of a scope only when it happens while none of
them waits to start, and when no task is accepted before the flag is set.
-/

import Kode.Scope.Ownership

namespace Kode.Scope.Host

open Kode.Library Kode.Library.Promise

variable {host later new : Host} {event : Event} {scope task : ℕ}

/-! ### Failures and functions that wait to start -/

/-- What the function of a call ended with is a failure. -/
def Fails (host : Host) : JsCompletion → Prop
  | .threw _ => True
  | .returned (.promise promise) => host.heap.Rejected promise
  | .returned (.plain _) | .returned (.thenable _) => False

instance (host : Host) : DecidablePred host.Fails
  | .threw _ => .isTrue trivial
  | .returned (.promise promise) => inferInstanceAs (Decidable (host.heap.Rejected promise))
  | .returned (.plain _) => .isFalse not_false
  | .returned (.thenable _) => .isFalse not_false

/-- The function of a call has thrown, or the promise it returned has been rejected. -/
def Failed (host : Host) (call : ℕ) : Prop :=
  ∃ completion ∈ (host.calls call).ended, host.Fails completion

instance (host : Host) (call : ℕ) : Decidable (host.Failed call) :=
  inferInstanceAs (Decidable (∃ completion ∈ _, host.Fails completion))

/-- A task of the scope has failed. -/
def FailedIn (host : Host) (scope : ℕ) : Prop :=
  ∃ task < host.nextCall, (host.calls task).owner = some scope ∧ host.Failed task

instance (host : Host) (scope : ℕ) : Decidable (host.FailedIn scope) :=
  inferInstanceAs (Decidable (∃ task < host.nextCall, _ ∧ _))

/-- The job calls the function of the call. -/
def Starts (call : ℕ) : Job Callback Plain → Prop
  | .reaction _ handler _ _ => handler = .callback (.run call)
  | .adopt _ _ | .callThen _ _ => False

instance (call : ℕ) : DecidablePred (Starts call)
  | .reaction _ handler _ _ => inferInstanceAs (Decidable (handler = .callback (.run call)))
  | .adopt _ _ => .isFalse not_false
  | .callThen _ _ => .isFalse not_false

/-- The function of the call is queued and has not been entered. -/
def Waiting (host : Host) (call : ℕ) : Prop := ∃ job ∈ host.heap.jobs, Starts call job

instance (host : Host) (call : ℕ) : Decidable (host.Waiting call) :=
  inferInstanceAs (Decidable (∃ job ∈ _, Starts call job))

theorem Chain.failed_extend {mayStart : ℕ → Prop} (chain : Chain mayStart host)
    (extended : host.Extends new) {call : ℕ} (below : call < host.nextCall)
    (failed : host.Failed call) : new.Failed call := by
  obtain ⟨completion, mem, fails⟩ := failed
  have bound := (chain.calls call below).ended_below completion mem
  refine ⟨completion, (extended.call call below).ended completion mem, ?_⟩
  cases completion with
  | threw reason => trivial
  | returned value =>
      cases value with
      | plain value => exact fails
      | promise promise => exact extended.heap.rejected bound fails
      | thenable object => exact fails

theorem Chain.failedIn_extend {mayStart : ℕ → Prop} (chain : Chain mayStart host)
    (extended : host.Extends new) (failed : host.FailedIn scope) : new.FailedIn scope := by
  obtain ⟨task, task_lt, owned, failed⟩ := failed
  refine ⟨task, Nat.lt_of_lt_of_le task_lt extended.nextCall_le, ?_,
    chain.failed_extend extended task_lt failed⟩
  rw [(extended.call task task_lt).owner, owned]

/-- An accepted `scope.async` call makes no task fail. -/
theorem Chain.failedIn_of_async {mayStart : ℕ → Prop} (chain : Chain mayStart host) {owner : ℕ}
    (flag : (host.calls owner).failed = false)
    (failed : (host.async owner true).1.FailedIn scope) : host.FailedIn scope := by
  obtain ⟨task, task_lt, owned, completion, mem, fails⟩ := failed
  have accepted := async_accepts flag
  by_cases old : task < host.nextCall
  · rw [async_calls flag old] at owned mem
    have bound := (chain.calls task old).ended_below completion mem
    refine ⟨task, old, owned, completion, mem, ?_⟩
    cases completion with
    | threw reason => trivial
    | returned value =>
        cases value with
        | plain value => exact fails
        | promise promise =>
            obtain ⟨reason, known⟩ := Heap.rejected_iff.mp fails
            rw [async_outcome flag bound] at known
            exact Heap.rejected_iff.mpr ⟨reason, known⟩
        | thenable object => exact fails
  · -- the new task has not ended
    rw [accepted] at task_lt mem
    obtain rfl : task = host.nextCall :=
      Nat.le_antisymm (Nat.le_of_lt_succ task_lt) (Nat.le_of_not_lt old)
    simp at mem

/-! ### Which functions can still be entered -/

/-- Only functions that wait now, or one accepted by the next step, may start. -/
theorem Chain.restrict (chain : Chain (fun _ => True) host) :
    Chain (fun call => host.Waiting call ∨ call = host.nextCall) host where
  heap := by
    refine chain.heap.weaken (fun _ _ settled => settled) (fun _ _ waiting => waiting) ?_
    intro job mem queued
    cases job with
    | reaction source handler argument capability =>
        obtain ⟨below, settled, bound, fits | ⟨call, call_lt, isRun, _, derived⟩⟩ := queued
        · exact ⟨below, settled, bound, .inl fits⟩
        · exact ⟨below, settled, bound,
            .inr ⟨call, call_lt, isRun, .inl ⟨_, mem, isRun⟩, derived⟩⟩
    | adopt target source => exact queued
    | callThen target object => exact queued
  calls := chain.calls
  origins := chain.origins
  resolvers := chain.resolvers
  frame := chain.frame

/-- A function that waits may start. -/
theorem Chain.mayStart_of_waiting {mayStart : ℕ → Prop} (chain : Chain mayStart host) {call : ℕ}
    (waiting : host.Waiting call) : call < host.nextCall ∧ mayStart call := by
  obtain ⟨job, mem, starts⟩ := waiting
  have queued := chain.heap.queued job mem
  cases job with
  | reaction source handler argument capability =>
      obtain rfl : handler = .callback (.run call) := starts
      obtain ⟨_, _, _, fits | ⟨other, other_lt, isRun, may, _⟩⟩ := queued
      · exact fits.elim
      · obtain rfl : call = other := by simpa using isRun
        exact ⟨other_lt, may⟩
  | adopt target source => exact starts.elim
  | callThen target object => exact starts.elim

/-! ### A failure stops the functions that have not started -/

/-- The condition on a step: a scope's first failure happens while no task of the scope
waits to start, and from then on `scope.async` is called only when `state.failed` is
set. -/
def FailsAlone (host : Host) (event : Event) : Prop :=
  (∀ new, host.step event = some new → ∀ task < host.nextCall, ∀ scope,
    (host.calls task).owner = some scope → new.FailedIn scope → ¬ host.FailedIn scope →
      ¬ host.Waiting task) ∧
  ∀ scope, event = .act (.async scope true) → host.FailedIn scope →
    (host.calls scope).failed = true

/-- No task of a scope with a failure waits to start. -/
def NoneWaiting (host : Host) : Prop :=
  ∀ task < host.nextCall, ∀ scope, (host.calls task).owner = some scope → host.FailedIn scope →
    ¬ host.Waiting task

/-- After a failure the scope accepts no task. -/
theorem not_added {mayStart : ℕ → Prop} (chain : Chain mayStart host)
    (allowed : host.FailsAlone event) (taken : host.step event = some new)
    (task_lt : task < new.nextCall) (owned : (new.calls task).owner = some scope)
    (failed : new.FailedIn scope) : task < host.nextCall := by
  by_contra added
  obtain ⟨rfl, rfl, flag, rfl⟩ := step_accepts taken (Nat.le_of_not_lt added) task_lt owned
  have marked := allowed.2 scope rfl (chain.failedIn_of_async flag failed)
  rw [flag] at marked
  exact absurd marked (by simp)

theorem noneWaiting_step (chain : Chain (fun _ => True) host) (before : host.NoneWaiting)
    (allowed : host.FailsAlone event) (taken : host.step event = some new) :
    new.NoneWaiting := by
  have advances := chain.restrict.step (.inr rfl) taken
  intro task task_lt scope owned failed waiting
  have old := not_added chain allowed taken task_lt owned failed
  rw [(advances.later.call task old).owner] at owned
  rcases (advances.chain.mayStart_of_waiting waiting).2 with waitedBefore | isNew
  · by_cases failedBefore : host.FailedIn scope
    · exact before task old scope owned failedBefore waitedBefore
    · exact allowed.1 new taken task old scope owned failed failedBefore waitedBefore
  · exact absurd old (by omega)

theorem noneWaiting_of_reachable
    (reached : ReachableUnder Host.step FailsAlone Host.initial host) : host.NoneWaiting := by
  apply reached.invariant_given fun _ => chain_of_reachable
  · intro task task_lt
    exact absurd task_lt (Nat.not_lt_zero task)
  · intro state event target chain before allowed taken
    exact noneWaiting_step chain before allowed taken

/-- What a failure leaves behind: it stays, and the functions entered so far remain the
only ones. -/
def Stopped (scope : ℕ) (host later : Host) : Prop :=
  later.FailedIn scope ∧ ∀ task < later.nextCall, (later.calls task).owner = some scope →
    (later.calls task).entered = true → task < host.nextCall ∧ (host.calls task).entered = true

theorem stopped_step (chain : Chain (fun _ => True) later) (none : later.NoneWaiting)
    (stopped : Stopped scope host later) (allowed : later.FailsAlone event)
    (taken : later.step event = some new) : Stopped scope host new := by
  have advances := chain.restrict.step (.inr rfl) taken
  have failed := chain.failedIn_extend advances.later stopped.1
  refine ⟨failed, ?_⟩
  intro task task_lt owned entered
  have old := not_added chain allowed taken task_lt owned failed
  rw [(advances.later.call task old).owner] at owned
  rcases advances.entered task task_lt entered with ⟨_, before⟩ | waiting | isNew
  · exact stopped.2 task old owned before
  · exact absurd waiting (none task old scope owned stopped.1)
  · exact absurd old (by omega)

/-- `scope.async` of a scope that has failed answers with a rejected promise and does
nothing else. -/
theorem async_refuses {owner : ℕ} (marked : (host.calls owner).failed = true) :
    ∃ refused, host.async owner true = (refused, .returned (.promise host.heap.next)) ∧
      refused.heap.outcome host.heap.next =
        some (.rejected (runtimeError "ECANCELED" "Scope already failed" "scope.async")) ∧
      refused.heap.jobs = host.heap.jobs ∧ refused.calls = host.calls ∧
      refused.nextCall = host.nextCall ∧ refused.activeOperations = host.activeOperations := by
  refine ⟨host.promiseReject (runtimeError "ECANCELED" "Scope already failed" "scope.async"),
    ?_, ?_, ?_, rfl, rfl, rfl⟩
  · rw [Host.async, if_pos rfl, if_pos marked]
  · simp [Host.promiseReject, Host.newPromise]
  · simp [Host.promiseReject, Host.newPromise, Heap.settle, Heap.create]

/-- In a run in which failures happen while no sibling waits to start, and `scope.async`
is called after one only when the scope has noticed it: once a task of a scope has
failed, no function of the scope is entered any more, and `scope.async` answers with a
promise rejected with `ECANCELED`, queues no function and accepts nothing. -/
theorem failure_stops_siblings (reached : ReachableUnder Host.step FailsAlone Host.initial host)
    (failed : host.FailedIn scope)
    (reachedLater : ReachableUnder Host.step FailsAlone host later) :
    (∀ task < later.nextCall, (later.calls task).owner = some scope →
      (later.calls task).entered = true →
        task < host.nextCall ∧ (host.calls task).entered = true) ∧
    (later.FailsAlone (.act (.async scope true)) →
      ∃ refused, later.async scope true = (refused, .returned (.promise later.heap.next)) ∧
        refused.heap.outcome later.heap.next =
          some (.rejected (runtimeError "ECANCELED" "Scope already failed" "scope.async")) ∧
        refused.heap.jobs = later.heap.jobs ∧ refused.calls = later.calls ∧
        refused.nextCall = later.nextCall ∧
        refused.activeOperations = later.activeOperations) := by
  have stopped : Stopped scope host later := by
    induction reachedLater with
    | start =>
        refine ⟨failed, ?_⟩
        intro task task_lt _ entered
        exact ⟨task_lt, entered⟩
    | next prior meets taken ih =>
        have before := reached.trans prior
        exact stopped_step (chain_of_reachable before) (noneWaiting_of_reachable before) ih meets
          taken
  refine ⟨stopped.2, ?_⟩
  intro allowed
  exact async_refuses (allowed.2 scope rfl stopped.1)

/-- A test for the condition on the steps. -/
def failsAlone (host : Host) (event : Event) : Bool :=
  (match host.step event with
    | none => true
    | some new => (List.range host.nextCall).all fun task =>
        match (host.calls task).owner with
        | none => true
        | some scope => !decide (new.FailedIn scope) || decide (host.FailedIn scope) ||
            !decide (host.Waiting task)) &&
  match event with
  | .act (.async scope true) => !decide (host.FailedIn scope) || (host.calls scope).failed
  | _ => true

theorem failsAlone_sound (passed : host.failsAlone event = true) : host.FailsAlone event := by
  obtain ⟨fails, starts⟩ := Bool.and_eq_true_iff.mp passed
  constructor
  · intro new taken task task_lt scope owned failed notFailed
    rw [taken] at fails
    have tested := List.all_eq_true.mp fails task (List.mem_range.mpr task_lt)
    simpa [owned, failed, notFailed] using tested
  · rintro scope rfl failed
    simpa [failed] using starts

/-- A function starts a task and awaits it; the task throws. -/
def awaitFailureRun : List Event :=
  List.flatten [enterScopeRun,
    [.act (.async 0 true), .act .newPromise, .act (.await 6), .act (.returns (.promise 7)),
      .job, .act (.throws (.plain (.other 1)))]]

/-- The scope's function catches the failure and calls `scope.async` again. -/
theorem failure_stops_siblings_awaited :
    ∃ host later, ReachableUnder Host.step FailsAlone Host.initial host ∧ host.FailedIn 0 ∧
      ReachableUnder Host.step FailsAlone host later ∧
      (∃ refused, later.async 0 true = (refused, .returned (.promise later.heap.next)) ∧
        refused.heap.outcome later.heap.next =
          some (.rejected (runtimeError "ECANCELED" "Scope already failed" "scope.async"))) := by
  have first : (runSteps (guarded Host.step failsAlone) Host.initial awaitFailureRun).map
      (fun host => (decide (host.FailedIn 0),
        (runSteps (guarded Host.step failsAlone) host (List.replicate 7 .job)).map
          fun later => (later.frame.isSome, later.failsAlone (.act (.async 0 true))))) =
      some (true, some (true, true)) := by
    decide
  obtain ⟨host, ran, facts⟩ := Option.map_eq_some_iff.mp first
  obtain ⟨failed, second⟩ := Prod.mk.inj facts
  obtain ⟨later, ranLater, factsLater⟩ := Option.map_eq_some_iff.mp second
  have passed := (Prod.mk.inj factsLater).2
  have reached : ReachableUnder Host.step FailsAlone Host.initial host :=
    reachableUnder_of_guarded (fun _ _ => failsAlone_sound) ran
  have reachedLater : ReachableUnder Host.step FailsAlone host later :=
    reachableUnder_of_guarded (fun _ _ => failsAlone_sound) ranLater
  have failed : host.FailedIn 0 := of_decide_eq_true failed
  obtain ⟨refused, answered, rejected, _⟩ :=
    (failure_stops_siblings reached failed reachedLater).2 (failsAlone_sound passed)
  exact ⟨host, later, reached, failed, reachedLater, refused, answered, rejected⟩

/-- Two tasks are accepted together. The first throws, and the function of the second is
entered afterwards. -/
theorem sibling_starts_after_failure :
    ¬ ∀ host, Reachable Host.step Host.initial host → ∀ scope, host.FailedIn scope →
      ∀ later, Reachable Host.step host later → ∀ task < later.nextCall,
        (later.calls task).owner = some scope → (later.calls task).entered = true →
          (host.calls task).entered = true := by
  intro always
  have evaluated : (runSteps Host.step Host.initial (List.flatten [enterScopeRun,
      [.act (.async 0 true), .act (.async 0 true), .act (.returns (.plain .undefined)), .job,
        .act (.throws (.plain (.other 1)))]])).map
      (fun host => (decide (host.FailedIn 0), (host.calls 2).entered,
        (runSteps Host.step host [.job]).map
          fun later => decide (2 < later.nextCall ∧ (later.calls 2).owner = some 0 ∧
            (later.calls 2).entered = true))) =
      some (true, false, some true) := by
    decide
  obtain ⟨host, ran, facts⟩ := Option.map_eq_some_iff.mp evaluated
  obtain ⟨failed, rest⟩ := Prod.mk.inj facts
  obtain ⟨notEntered, second⟩ := Prod.mk.inj rest
  obtain ⟨later, ranLater, factsLater⟩ := Option.map_eq_some_iff.mp second
  obtain ⟨accepted, owned, entered⟩ := of_decide_eq_true factsLater
  have before := always host (reachable_of_runSteps ran) 0 (of_decide_eq_true failed) later
    (reachable_of_runSteps ranLater) 2 accepted owned entered
  rw [notEntered] at before
  exact absurd before (by simp)

end Kode.Scope.Host
