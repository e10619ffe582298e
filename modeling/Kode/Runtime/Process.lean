/-
# The process and its exit code

`main` looks at its first argument, calls `ExecuteString` for each script it has, runs the
event loop until nothing is left, and exits with 0 or 1. A script fails when it cannot be
compiled, when it throws, and when its value is a promise that is rejected at the end of
`ResolveTopLevelPromise`. Only then does `PromiseResultToString` make a text of the result,
with a `toString` of the script if the result has one; whatever that does, it comes too late
to settle the promise.

`ResolveTopLevelPromise` stops waiting when the loop is not alive any more, with the promise
still pending, and says nothing of a failure. Nothing can settle the promise after that: no
host operation is pending, every microtask has run, and a promise without a result has no
`toString` called. So the exit code tells what became of the script, and not only what was
known of it when `main` looked.
-/

import Kode.Runtime.EventLoop

namespace Kode.Runtime

open Kode.Library

universe u

/-- What `main` has been asked to do. -/
inductive Command
  | demo
  | help
  | version
  /-- `-e`, with the code and the arguments behind it. -/
  | code (code : List Char) (args : List (List Char))
  /-- A file, with the arguments behind it. -/
  | script (file : List Char) (args : List (List Char))
  | unknown (option : List Char)
  deriving DecidableEq, Repr

/-- The loop of `main` over `argv` behind the name of the program. Whatever the first
argument is, the loop ends there: the arguments behind it are left to the script. -/
def parseArguments : List (List Char) → Command
  | [] => .demo
  | arg :: rest =>
      if arg = ['-', 'h'] ∨ arg = ['-', '-', 'h', 'e', 'l', 'p'] then .help
      else if arg = ['-', 'v'] ∨ arg = ['-', '-', 'v', 'e', 'r', 's', 'i', 'o', 'n'] then .version
      else
        match arg, rest with
        | ['-', 'e'], code :: args => .code code args
        | '-' :: _, _ | [], _ => .unknown arg
        | _ :: _, _ => .script arg rest

/-- What the process finds in its surroundings. -/
structure Setting where
  /-- V8 is built in, not disabled, and has been initialized. -/
  engine : Bool
  /-- The file given as script can be opened. -/
  opens : Bool
  deriving DecidableEq, Repr

/-- How often `main` calls `ExecuteString`. -/
def Command.scripts (setting : Setting) : Command → ℕ
  | .demo => 6
  | .code _ _ => 1
  | .script _ _ => if setting.opens then 1 else 0
  | .help | .version | .unknown _ => 0

/-- What has become of the script that was executed last. -/
inductive Outcome
  | noScript
  /-- There is no engine to run it. -/
  | refused
  /-- It was not compiled, or it threw. -/
  | error
  /-- Its value is no promise. -/
  | value
  | pending
  | fulfilled
  | rejected
  deriving DecidableEq, Repr

/-- The script has failed. -/
def Outcome.IsFailure : Outcome → Prop
  | .refused | .error | .rejected => True
  | .noScript | .value | .pending | .fulfilled => False

instance : DecidablePred Outcome.IsFailure
  | .refused | .error | .rejected => .isTrue trivial
  | .noScript | .value | .pending | .fulfilled => .isFalse not_false

/-- The value of the script is a promise. -/
def Outcome.IsPromise : Outcome → Prop
  | .pending | .fulfilled | .rejected => True
  | .noScript | .refused | .error | .value => False

/-- The script has ended with a value that is no promise, or with a promise that settled. -/
def Outcome.HasResult : Outcome → Prop
  | .value | .fulfilled | .rejected => True
  | .noScript | .refused | .error | .pending => False

/-- How JavaScript settles the promise of the script. -/
inductive Settling
  | fulfil
  | reject
  deriving DecidableEq, Repr

/-- A promise settles once. -/
def Outcome.settle : Outcome → Option Settling → Outcome
  | .pending, some .fulfil => .fulfilled
  | .pending, some .reject => .rejected
  | outcome, _ => outcome

/-- What exit code 0 says. -/
def Command.Succeeds (setting : Setting) (outcome : Outcome) : Command → Prop
  | .demo | .help | .version => True
  | .code _ _ => ¬ outcome.IsFailure
  | .script _ _ => setting.opens = true ∧ ¬ outcome.IsFailure
  | .unknown _ => False

/-- The process. While the control of the runtime is at `RunEventLoop` and scripts are left,
control is in `main` between two calls of `ExecuteString`. -/
structure Process (Job : Type u) where
  scripts : ℕ
  runtime : EventLoop Job
  outcome : Outcome
  /-- The last `ExecuteString` has returned `false`. -/
  failed : Bool

/-- One step of the process. -/
inductive ProcessEvent (Job : Type u)
  /-- `main` calls `ExecuteString`. -/
  | execute
  /-- A step of the runtime; JavaScript that runs in it may settle the promise of the
  script. -/
  | run (event : Event Job) (settling : Option Settling)
  deriving DecidableEq, Repr

namespace Process

variable {Job : Type u} {setting : Setting} {process target : Process Job}

/-- The process in `main` behind `Initialize`. -/
def start (setting : Setting) (args : List (List Char)) : Process Job where
  scripts := (parseArguments args).scripts setting
  runtime := EventLoop.start.goto (.loop .default)
  outcome := .noScript
  failed := false

/-- What becomes of the script in a step of the runtime. -/
def outcomeAfter (process : Process Job) (settling : Option Settling) : Event Job → Outcome
  | .runScript .compileError _ | .runScript .threw _ => .error
  | .runScript (.value false) _ => .value
  | .runScript (.value true) _ => Outcome.pending.settle settling
  | .microtask _ | .deliver _ _ | .resultToString _ => process.outcome.settle settling
  | .checkpointEnd | .testTopLevel _ _ | .loopReturn => process.outcome

/-- Whether `runScript` has set its error. `ResolveTopLevelPromise` does so when it has made
a text of the reason for which the promise was rejected. -/
def failedAfter (process : Process Job) : Event Job → Bool
  | .runScript .compileError _ | .runScript .threw _ => true
  | .resultToString _ => process.outcome = .rejected
  | _ => process.failed

/-- The test of `ResolveTopLevelPromise` looks at the promise of the script. -/
def Sees (process : Process Job) : Event Job → Prop
  | .testTopLevel promisePending _ => promisePending = decide (process.outcome = .pending)
  | _ => True

instance (process : Process Job) : DecidablePred process.Sees
  | .testTopLevel _ _ => inferInstanceAs (Decidable (_ = _))
  | .runScript _ _ | .microtask _ | .checkpointEnd | .resultToString _ | .deliver _ _
  | .loopReturn => .isTrue trivial

/-- One step. -/
def step (setting : Setting) (process : Process Job) : ProcessEvent Job → Option (Process Job)
  | .execute =>
      if process.runtime.control = .loop .default ∧ process.scripts ≠ 0 then
        if setting.engine then
          some { process with
            scripts := process.scripts - 1
            runtime := process.runtime.goto .script
            failed := false }
        else
          some { process with
            scripts := process.scripts - 1, outcome := .refused, failed := true }
      else none
  | .run event settling =>
      -- `main` calls `RunEventLoop` behind its last script.
      if process.runtime.control = .loop .default ∧ process.scripts ≠ 0 then none
      else if process.Sees event then
        (process.runtime.step event).map fun runtime =>
          { process with
            runtime
            outcome := process.outcomeAfter settling event
            failed := process.failedAfter event }
      else none

/-- The variable `success` at the end of `main`. -/
def success (setting : Setting) (process : Process Job) : Command → Bool
  | .demo | .help | .version => true
  | .code _ _ => !process.failed
  | .script _ _ => setting.opens && !process.failed
  | .unknown _ => false

/-- What `main` returns. -/
def exitCode (setting : Setting) (args : List (List Char)) (process : Process Job) : ℕ :=
  if process.success setting (parseArguments args) then 0 else 1

/-! ## The exit code -/

/-- `failed` says what has become of the script. -/
def Truthful (process : Process Job) : Prop :=
  process.failed = true ↔ process.outcome.IsFailure

/-- What is known of the script at each place control can be. Where the runtime has stopped
waiting for a promise, nothing is left that could settle it. -/
def Accounted (process : Process Job) : Prop :=
  match process.runtime.control with
  | .script => process.failed = false
  | .checkpoint (.script false) => process.outcome = .value ∧ process.failed = false
  | .checkpoint (.script true) | .checkpoint .topLevel | .checkpoint (.completion .once)
  | .loop .once => process.outcome.IsPromise ∧ process.failed = false
  | .topLevel =>
      process.outcome.IsPromise ∧ process.failed = false ∧ process.runtime.queue = []
  | .resultToString => process.outcome.HasResult ∧ process.failed = false
  | .checkpoint (.completion .default) => process.Truthful ∧ process.outcome ≠ .pending
  | .loop .default => process.Truthful ∧ (process.outcome = .pending →
      process.runtime.queue = [] ∧ process.runtime.pending = [])
  | .shutdown => process.Truthful ∧ process.scripts = 0 ∧ process.runtime.pending = []

theorem accounted_start (setting : Setting) (args : List (List Char)) :
    (start setting args : Process Job).Accounted :=
  ⟨iff_of_false Bool.false_ne_true id, nofun⟩

theorem isPromise_settle {outcome : Outcome} (isPromise : outcome.IsPromise)
    (settling : Option Settling) : (outcome.settle settling).IsPromise := by
  cases outcome with
  | pending => rcases settling with _ | _ | _ <;> trivial
  | fulfilled | rejected => trivial
  | noScript | refused | error | value => cases isPromise

theorem settle_of_ne_pending {outcome : Outcome} (settled : outcome ≠ .pending)
    (settling : Option Settling) : outcome.settle settling = outcome := by
  cases outcome with
  | pending => exact absurd rfl settled
  | _ => rfl

theorem rejected_iff {outcome : Outcome} (hasResult : outcome.HasResult) :
    outcome = .rejected ↔ outcome.IsFailure := by
  cases outcome with
  | value | fulfilled => exact iff_of_false nofun id
  | rejected => exact iff_of_true rfl trivial
  | noScript | refused | error | pending => cases hasResult

theorem hasResult_of_settled {outcome : Outcome} (isPromise : outcome.IsPromise)
    (settled : outcome ≠ .pending) : outcome.HasResult := by
  cases outcome with
  | pending => exact absurd rfl settled
  | fulfilled | rejected => trivial
  | noScript | refused | error | value => cases isPromise

theorem ne_pending_of_hasResult {outcome : Outcome} (hasResult : outcome.HasResult) :
    outcome ≠ .pending := by
  rintro rfl
  cases hasResult

/-- Where the runtime stops waiting, the promise has settled, or it never will. -/
theorem Accounted.test {process : Process Job} (accounted : process.Accounted)
    {promisePending alive : Bool} {settling : Option Settling}
    (here : process.runtime.control = .topLevel)
    (idle : alive = false → process.runtime.pending = [])
    (sees : process.Sees (.testTopLevel promisePending alive)) :
    Accounted { process with
      runtime := process.runtime.goto (EventLoop.afterTest promisePending alive)
      outcome := process.outcomeAfter settling (.testTopLevel promisePending alive)
      failed := process.failedAfter (.testTopLevel promisePending alive) } := by
  simp only [Accounted, here] at accounted
  obtain ⟨isPromise, succeeded, empty⟩ := accounted
  have seen : promisePending = decide (process.outcome = .pending) := sees
  cases promisePending with
  | false => exact ⟨hasResult_of_settled isPromise (of_decide_eq_false seen.symm), succeeded⟩
  | true =>
      have isPending : process.outcome = .pending := of_decide_eq_true seen.symm
      cases alive with
      | true => exact ⟨isPromise, succeeded⟩
      | false =>
          refine ⟨iff_of_false ?_ ?_, fun _ => ⟨empty, idle rfl⟩⟩
          · show ¬ process.failed = true
            rw [succeeded]
            exact Bool.false_ne_true
          · show ¬ process.outcome.IsFailure
            rw [isPending]
            exact not_false

/-- A completion in the loop of `ResolveTopLevelPromise`, or in the last one. There the
promise has settled: a pending one leaves no operation to complete. -/
theorem Accounted.deliver {process : Process Job} (accounted : process.Accounted)
    {mode : RunMode} {position : ℕ} {request : Request} {effects : Effects Job}
    {settling : Option Settling} (here : process.runtime.control = .loop mode)
    (found : process.runtime.pending[position]? = some request) :
    Accounted { process with
      runtime := { process.runtime with
        pending := process.runtime.pending.eraseIdx position }.complete mode request effects
      outcome := process.outcome.settle settling } := by
  simp only [Accounted, here] at accounted
  match mode with
  | .once =>
      have isPromise := isPromise_settle accounted.1 settling
      unfold EventLoop.complete
      split_ifs
      · exact ⟨isPromise, accounted.2⟩
      · exact ⟨isPromise, accounted.2⟩
  | .default =>
      obtain ⟨truthful, stuck⟩ := accounted
      have settled : process.outcome ≠ .pending := by
        intro isPending
        rw [(stuck isPending).2] at found
        cases found
      rw [settle_of_ne_pending settled]
      unfold EventLoop.complete
      split_ifs
      · exact ⟨truthful, settled⟩
      · exact ⟨truthful, fun isPending => absurd isPending settled⟩

/-- A step of the runtime. -/
theorem Accounted.run {process : Process Job} (accounted : process.Accounted)
    {event : Event Job} {settling : Option Settling} {runtime : EventLoop Job}
    (called : process.runtime.control = .loop .default → process.scripts = 0)
    (sees : process.Sees event) (taken : process.runtime.step event = some runtime) :
    Accounted { process with
      runtime
      outcome := process.outcomeAfter settling event
      failed := process.failedAfter event } := by
  cases EventLoop.step_move taken with
  | runScript ends effects here =>
      simp only [Accounted, here] at accounted
      cases ends with
      | compileError | threw => exact ⟨iff_of_true rfl trivial, nofun⟩
      | value promise =>
          cases promise with
          | true =>
              have isPromise : Outcome.pending.IsPromise := trivial
              exact ⟨isPromise_settle isPromise settling, accounted⟩
          | false => exact ⟨rfl, accounted⟩
  | microtask back job rest effects here next =>
      simp only [Accounted, here] at accounted
      have still : ({ process.runtime with queue := rest }.apply effects).control =
          .checkpoint back := here
      match back with
      | .script true | .topLevel | .completion .once =>
          simp only [Accounted, still]
          exact ⟨isPromise_settle accounted.1 settling, accounted.2⟩
      | .script false =>
          simp only [Accounted, still, outcomeAfter, failedAfter]
          rw [accounted.1]
          exact ⟨rfl, accounted.2⟩
      | .completion .default =>
          simp only [Accounted, still, Truthful, outcomeAfter, failedAfter,
            settle_of_ne_pending accounted.2]
          exact accounted
  | checkpointEnd back here empty =>
      simp only [Accounted, here] at accounted
      match back with
      | .script true | .topLevel => exact ⟨accounted.1, accounted.2, empty⟩
      | .script false =>
          obtain ⟨value, succeeded⟩ := accounted
          refine ⟨?_, succeeded⟩
          show process.outcome.HasResult
          rw [value]
          trivial
      | .completion .once => exact accounted
      | .completion .default =>
          exact ⟨accounted.1, fun isPending => absurd isPending accounted.2⟩
  | testTopLevel promisePending alive here idle => exact accounted.test here idle sees
  | resultToString effects here =>
      simp only [Accounted, here] at accounted
      obtain ⟨hasResult, -⟩ := accounted
      have settled : process.outcome.settle settling = process.outcome :=
        settle_of_ne_pending (ne_pending_of_hasResult hasResult) settling
      simp only [Accounted, Truthful, outcomeAfter, failedAfter, settled]
      exact ⟨decide_eq_true_iff.trans (rejected_iff hasResult),
        fun isPending => absurd isPending (ne_pending_of_hasResult hasResult)⟩
  | deliver mode position request effects here found => exact accounted.deliver here found
  | turnOver here =>
      simp only [Accounted, here] at accounted
      exact accounted
  | finish here idle =>
      simp only [Accounted, here] at accounted
      exact ⟨accounted.1, called here, idle⟩

theorem Accounted.step {event : ProcessEvent Job} (accounted : process.Accounted)
    (taken : process.step setting event = some target) : target.Accounted := by
  cases event with
  | execute =>
      obtain ⟨⟨here, _⟩, executed⟩ := Option.ite_none_right_eq_some.mp taken
      split_ifs at executed with ready
      · obtain rfl := Option.some.inj executed
        rfl
      · obtain rfl := Option.some.inj executed
        simp only [Accounted, here]
        exact ⟨iff_of_true rfl trivial, nofun⟩
  | run event settling =>
      obtain ⟨called, taken⟩ := Option.ite_none_left_eq_some.mp taken
      obtain ⟨sees, taken⟩ := Option.ite_none_right_eq_some.mp taken
      obtain ⟨runtime, stepped, rfl⟩ := Option.map_eq_some_iff.mp taken
      refine accounted.run (fun here => ?_) sees stepped
      by_contra left
      exact called ⟨here, left⟩

/-- `RunEventLoop` has nothing to wait for, and the promise of the last script is pending. -/
structure Forsaken (process : Process Job) : Prop where
  outcome : process.outcome = .pending
  scripts : process.scripts = 0
  queue : process.runtime.queue = []
  pending : process.runtime.pending = []
  control : process.runtime.control = .loop .default ∨ process.runtime.control = .shutdown

theorem Accounted.forsaken (accounted : process.Accounted)
    (here : process.runtime.control = .loop .default) (last : process.scripts = 0)
    (isPending : process.outcome = .pending) : process.Forsaken := by
  simp only [Accounted, here] at accounted
  obtain ⟨queue, pending⟩ := accounted.2 isPending
  exact ⟨isPending, last, queue, pending, Or.inl here⟩

/-- Only the return of `uv_run` is left. -/
theorem Forsaken.step {event : ProcessEvent Job} (forsaken : process.Forsaken)
    (taken : process.step setting event = some target) : target.Forsaken := by
  cases event with
  | execute =>
      obtain ⟨⟨-, left⟩, -⟩ := Option.ite_none_right_eq_some.mp taken
      exact absurd forsaken.scripts left
  | run event settling =>
      obtain ⟨-, taken⟩ := Option.ite_none_left_eq_some.mp taken
      obtain ⟨-, taken⟩ := Option.ite_none_right_eq_some.mp taken
      obtain ⟨runtime, stepped, rfl⟩ := Option.map_eq_some_iff.mp taken
      have elsewhere {control : Control} (here : process.runtime.control = control) :
          .loop .default = control ∨ .shutdown = control :=
        forsaken.control.imp (fun there => there.symm.trans here) fun there =>
          there.symm.trans here
      cases EventLoop.step_move stepped with
      | runScript _ _ here | microtask _ _ _ _ here | checkpointEnd _ here
      | testTopLevel _ _ here | resultToString _ here | turnOver here =>
          rcases elsewhere here with absurd | absurd <;> cases absurd
      | deliver mode position request effects here found =>
          rw [forsaken.pending] at found
          cases found
      | finish here idle =>
          exact ⟨forsaken.outcome, forsaken.scripts, forsaken.queue, forsaken.pending, Or.inr rfl⟩

/-- When the process exits, its scripts have been executed and no host operation is left; and
the exit code is 0 exactly if the command has been carried out. A promise of the last script
that is pending when `main` calls `RunEventLoop` never settles. -/
theorem exit_code_tells_outcome {args : List (List Char)}
    (reached : Reachable (step setting) (start setting args) process) :
    (process.runtime.control = .shutdown →
      (process.exitCode setting args = 0 ↔
        (parseArguments args).Succeeds setting process.outcome) ∧
      process.scripts = 0 ∧ process.runtime.pending = []) ∧
    (process.runtime.control = .loop .default → process.scripts = 0 →
      process.outcome = .pending →
      ∀ later, Reachable (step setting) process later → later.outcome = .pending) := by
  have accounted : process.Accounted :=
    reached.invariant (accounted_start setting args) fun _ _ _ accounted _ taken =>
      accounted.step taken
  constructor
  · intro exits
    simp only [Accounted, exits] at accounted
    obtain ⟨truthful, executed, idle⟩ := accounted
    refine ⟨?_, executed, idle⟩
    have succeeded : process.failed = false ↔ ¬ process.outcome.IsFailure := by
      rw [← Bool.not_eq_true]
      exact not_congr truthful
    unfold exitCode
    cases parseArguments args with
    | demo | help | version => simp [success, Command.Succeeds]
    | code code rest => simp [success, Command.Succeeds, succeeded]
    | script file rest => simp [success, Command.Succeeds, succeeded]
    | unknown option => simp [success, Command.Succeeds]
  · intro here last isPending later further
    have forsaken : later.Forsaken :=
      further.invariant (accounted.forsaken here last isPending) fun _ _ _ forsaken _ taken =>
        forsaken.step taken
    exact forsaken.outcome

/-- A script whose promise is fulfilled when its only operation completes. -/
def awaitOne : List (ProcessEvent ℕ) :=
  [.execute, .run (.runScript (.value true) ⟨[], [.sleep]⟩) none, .run .checkpointEnd none,
    .run (.testTopLevel true true) none, .run (.deliver 0 ⟨[7], []⟩) none,
    .run (.microtask ⟨[], []⟩) (some .fulfil), .run .checkpointEnd none, .run .loopReturn none,
    .run .checkpointEnd none, .run (.testTopLevel false true) none,
    .run (.resultToString ⟨[], []⟩) none, .run .loopReturn none]

theorem exit_code_tells_outcome_awaitOne :
    ∃ process : Process ℕ,
      Reachable (step ⟨true, true⟩) (start ⟨true, true⟩ [['a', '.', 'j', 's']]) process ∧
        process.runtime.control = .shutdown ∧ process.outcome = .fulfilled ∧
        process.exitCode ⟨true, true⟩ [['a', '.', 'j', 's']] = 0 := by
  have evaluated : (runSteps (step ⟨true, true⟩) (start ⟨true, true⟩ [['a', '.', 'j', 's']])
      awaitOne).map (fun process => (process.runtime.control, process.outcome)) =
      some (.shutdown, .fulfilled) := by decide
  obtain ⟨process, ran, facts⟩ := Option.map_eq_some_iff.mp evaluated
  obtain ⟨exits, fulfilled⟩ := Prod.mk.inj facts
  have reached := reachable_of_runSteps ran
  have told := ((exit_code_tells_outcome reached).1 exits).1
  refine ⟨process, reached, exits, fulfilled, told.mpr ?_⟩
  rw [fulfilled]
  exact ⟨rfl, not_false⟩

end Process

end Kode.Runtime
