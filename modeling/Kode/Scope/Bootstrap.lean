/-
# Scopes and tasks of the runtime bootstrap

The script that the host runs before any program defines `Kode.scope` and
`scope.async`. Both turn a function of the program into a chain of promises:
`Kode.scope` into `Promise.resolve().then(() => fn(scope)).finally(..)`, and
`scope.async` into `Promise.resolve().then(taskFn).catch(..).finally(..)`. This
module translates them over the promise heap, together with the two counters and
the flag `state.failed` that the callbacks of these chains change.

A program is everything that user code may do between two microtasks, one action at
a time and in any order: make promises and settle them, chain on the promises it can
see, call `Kode.scope` and `scope.async`, and end the running callback with a value
or an exception. A host completion is code that starts with no callback running, at
any moment. So the runs of `Host.step` are the runs of all programs under all orders
of completions.

For the results the model also remembers which expression made a promise, how the
function of a call ended, and whether it was entered. Methods of `Promise.prototype`
that a program has replaced are left out.
-/

import Kode.Library.Promise
import Mathlib.Data.Int.Notation

namespace Kode.Scope

open Kode.Library.Promise

/-- An error made by `runtimeError`. -/
structure RuntimeError where
  code : String
  message : String
  operation : String
  deriving DecidableEq, Repr

/-- A value that is neither a promise nor a thenable. -/
inductive Plain
  | undefined
  | error (error : RuntimeError)
  /-- The rejection of a promise that was resolved with itself. -/
  | typeError
  | other (id : ℕ)
  deriving DecidableEq, Repr

/-- A JavaScript value. -/
abbrev JsValue := Value Plain

/-- How JavaScript code ended. -/
abbrev JsCompletion := Completion Plain

def runtimeError (code message operation : String) : JsValue :=
  .plain (.error ⟨code, message, operation⟩)

/-- The functions that run as microtasks. A call is an accepted call of
`Kode.scope` or `scope.async`. -/
inductive Callback
  /-- A function of the program. -/
  | program
  /-- The function given to a call. -/
  | run (call : ℕ)
  /-- The callback of `.catch` in `scope.async`. -/
  | markFailed (call : ℕ)
  /-- The callback of `.finally`, on fulfilment. -/
  | thenFinally (call : ℕ)
  /-- The callback of `.finally`, on rejection. -/
  | catchFinally (call : ℕ)
  deriving DecidableEq, Repr

/-- The expression that made a promise. -/
inductive Origin
  /-- Code of the program, or a refusal by `scope.async`. -/
  | program
  /-- A promise of the bootstrap on which nothing is chained later. -/
  | internal
  /-- `.then(fn)` of a call. -/
  | body (call : ℕ)
  /-- `.catch(..)` of a `scope.async` call. -/
  | guarded (call : ℕ)
  /-- `.finally(..)` of a call: the promise that the call returned. -/
  | result (call : ℕ)
  deriving DecidableEq, Repr

/-- An accepted call. -/
structure Call where
  /-- The scope of a `scope.async` call; a `Kode.scope` call has none. -/
  owner : Option ℕ
  /-- The promise of `.then(fn)`. -/
  body : ℕ
  /-- The promise that `.finally` is called on: that of `.catch`, or for `Kode.scope`
  the body. -/
  guarded : ℕ
  /-- The promise returned to the program. -/
  result : ℕ
  /-- `state.failed`, for a `Kode.scope` call. -/
  failed : Bool := false
  /-- The function has been called. -/
  entered : Bool := false
  /-- The callback of `.finally` has not run. -/
  counted : Bool := true
  /-- What the function handed to the body: its own completion, and what a thenable
  it returned passed on later. -/
  ended : List JsCompletion := []
  deriving DecidableEq, Repr

/-- The JavaScript code that is running: a callback with the promise derived from
it, or a `then` method with the promise it has to resolve. -/
inductive Frame
  | callback (capability : Option ℕ)
  | thenMethod (target : ℕ)
  deriving DecidableEq, Repr

/-- The state of the program and of the bootstrap. -/
structure Host where
  heap : Heap Callback Plain
  activeScopes : ℤ
  activeTasks : ℤ
  calls : ℕ → Call
  nextCall : ℕ
  /-- Which expression made a promise. -/
  origin : ℕ → Origin
  /-- The program holds unused resolving functions of the promise. -/
  resolvers : ℕ → Bool
  frame : Option Frame

namespace Host

/-- No code has run. -/
def initial : Host where
  heap := .empty
  activeScopes := 0
  activeTasks := 0
  calls := fun _ => { owner := none, body := 0, guarded := 0, result := 0 }
  nextCall := 0
  origin := fun _ => .program
  resolvers := fun _ => false
  frame := none

/-- A new pending promise; it gets the number `heap.next`. -/
def newPromise (host : Host) (origin : Origin) : Host :=
  { host with
    heap := host.heap.create
    origin := Function.update host.origin host.heap.next origin }

/-- `Promise.resolve()`. -/
def promiseResolve (host : Host) : Host :=
  let made := host.newPromise .internal
  { made with heap := made.heap.settle host.heap.next (.fulfilled .undefined) }

/-- `Promise.reject(reason)`, called where the program sees the promise. -/
def promiseReject (host : Host) (reason : JsValue) : Host :=
  let made := host.newPromise .program
  { made with heap := made.heap.settle host.heap.next (.rejected reason) }

/-- `promise.then(onFulfilled, onRejected)`; the derived promise gets the number
`heap.next`. -/
def andThen (host : Host) (promise : ℕ) (onFulfilled onRejected : Handler Callback Plain)
    (origin : Origin) : Host :=
  let made := host.newPromise origin
  { made with
    heap := made.heap.performThen promise ⟨onFulfilled, onRejected, some host.heap.next⟩ }

/-- `promise.finally(..)` of a call. -/
def andFinally (host : Host) (promise call : ℕ) : Host :=
  host.andThen promise (.callback (.thenFinally call)) (.callback (.catchFinally call))
    (.result call)

/-- Change the record of a call. -/
def modifyCall (host : Host) (call : ℕ) (change : Call → Call) : Host :=
  { host with calls := Function.update host.calls call (change (host.calls call)) }

@[simp]
theorem modifyCall_calls_self (host : Host) (call : ℕ) (change : Call → Call) :
    (host.modifyCall call change).calls call = change (host.calls call) :=
  Function.update_self ..

/-- Add the record of an accepted call. -/
def accept (host : Host) (call : Call) : Host :=
  { host with
    calls := Function.update host.calls host.nextCall call
    nextCall := host.nextCall + 1 }

/-- `Kode.scope(fn)`, where `callable` says that `fn` is a function. -/
def scope (host : Host) (callable : Bool) : Host × JsCompletion :=
  if callable then
    let call := host.nextCall
    let start := host.heap.next
    let chained := ((host.promiseResolve.andThen start (.callback (.run call)) .thrower
      (.body call)).andFinally (start + 1) call).accept
        { owner := none, body := start + 1, guarded := start + 1, result := start + 2 }
    ({ chained with activeScopes := chained.activeScopes + 1 }, .returned (.promise (start + 2)))
  else
    (host, .threw (runtimeError "EINVAL" "Kode.scope requires a function" "Kode.scope"))

/-- `scope.async(taskFn)` of the scope made by the call `owner`, where `callable`
says that `taskFn` is a function. -/
def async (host : Host) (owner : ℕ) (callable : Bool) : Host × JsCompletion :=
  if callable then
    if (host.calls owner).failed then
      (host.promiseReject (runtimeError "ECANCELED" "Scope already failed" "scope.async"),
        .returned (.promise host.heap.next))
    else
      let call := host.nextCall
      let start := host.heap.next
      let chained := (((host.promiseResolve.andThen start (.callback (.run call)) .thrower
        (.body call)).andThen (start + 1) .identity (.callback (.markFailed call))
        (.guarded call)).andFinally (start + 2) call).accept
          { owner := some owner, body := start + 1, guarded := start + 2, result := start + 3 }
      ({ chained with activeTasks := chained.activeTasks + 1 }, .returned (.promise (start + 3)))
  else
    (host, .threw (runtimeError "EINVAL" "scope.async requires a function" "scope.async"))

/-- `Kode.activeOperations()`: the numbers of scopes and of tasks. -/
def activeOperations (host : Host) : ℤ × ℤ := (host.activeScopes, host.activeTasks)

/-- Remember what is handed to the body of a call. -/
def record (host : Host) (capability : Option ℕ) (completion : JsCompletion) : Host :=
  match capability.map host.origin with
  | some (.body call) =>
      host.modifyCall call fun record => { record with ended := record.ended ++ [completion] }
  | _ => host

@[simp]
theorem record_nextCall (host : Host) (capability : Option ℕ) (completion : JsCompletion) :
    (host.record capability completion).nextCall = host.nextCall := by
  unfold record
  split <;> rfl

/-- Hand the completion of a call to the promise derived from it. -/
def conclude (host : Host) (capability : Option ℕ) (completion : JsCompletion) : Host :=
  { host.record capability completion with
    heap := host.heap.complete .typeError capability completion }

@[simp]
theorem conclude_nextCall (host : Host) (capability : Option ℕ) (completion : JsCompletion) :
    (host.conclude capability completion).nextCall = host.nextCall :=
  host.record_nextCall capability completion

/-- The callback given to `.finally`: `activeScopes--` or `activeTasks--`. -/
def release (host : Host) (call : ℕ) : Host :=
  let released := host.modifyCall call fun record => { record with counted := false }
  match (host.calls call).owner with
  | none => { released with activeScopes := host.activeScopes - 1 }
  | some _ => { released with activeTasks := host.activeTasks - 1 }

@[simp]
theorem release_nextCall (host : Host) (call : ℕ) :
    (host.release call).nextCall = host.nextCall := by
  unfold release
  dsimp only
  split <;> rfl

/-- The function that `finally` registers: call the callback, wait for its result
`undefined`, and pass on through `thunk` what the promise settled with. -/
def runFinally (host : Host) (call : ℕ) (thunk : Handler Callback Plain)
    (capability : Option ℕ) : Host :=
  let released := host.release call
  let start := released.heap.next
  (released.promiseResolve.andThen start thunk .thrower .internal).conclude capability
    (.returned (.promise (start + 1)))

@[simp]
theorem runFinally_nextCall (host : Host) (call : ℕ) (thunk : Handler Callback Plain)
    (capability : Option ℕ) :
    (host.runFinally call thunk capability).nextCall = host.nextCall := by
  simp [runFinally, andThen, promiseResolve, newPromise]

/-- Set `state.failed` of the scope of a task. -/
def markFailed (host : Host) (call : ℕ) : Host :=
  match (host.calls call).owner with
  | none => host
  | some owner => host.modifyCall owner fun record => { record with failed := true }

@[simp]
theorem markFailed_nextCall (host : Host) (call : ℕ) :
    (host.markFailed call).nextCall = host.nextCall := by
  unfold markFailed
  split <;> rfl

/-- Run the handler of a reaction. A function of the program only starts. -/
def runHandler (host : Host) (handler : Handler Callback Plain) (argument : JsValue)
    (capability : Option ℕ) : Host :=
  match handler with
  | .identity => host.conclude capability (.returned argument)
  | .thrower => host.conclude capability (.threw argument)
  | .valueThunk value => host.conclude capability (.returned value)
  | .throwThunk reason => host.conclude capability (.threw reason)
  | .resolve target =>
      { host with heap := host.heap.resolve .typeError target argument }.conclude capability
        (.returned (.plain .undefined))
  | .reject target =>
      { host with heap := host.heap.settle target (.rejected argument) }.conclude capability
        (.returned (.plain .undefined))
  | .callback .program => { host with frame := some (.callback capability) }
  | .callback (.run call) =>
      { host.modifyCall call fun record => { record with entered := true } with
        frame := some (.callback capability) }
  | .callback (.markFailed call) =>
      -- `state.failed = true; throw err;`
      (host.markFailed call).conclude capability (.threw argument)
  | .callback (.thenFinally call) => host.runFinally call (.valueThunk argument) capability
  | .callback (.catchFinally call) => host.runFinally call (.throwThunk argument) capability

@[simp]
theorem runHandler_nextCall (host : Host) (handler : Handler Callback Plain)
    (argument : JsValue) (capability : Option ℕ) :
    (host.runHandler handler argument capability).nextCall = host.nextCall := by
  unfold runHandler
  split <;> simp [modifyCall]

/-- Run a microtask that has left the queue. The promise derived from the `then` of
an adoption is never seen and is left out. -/
def runJob (host : Host) : Job Callback Plain → Host
  | .reaction _ handler argument capability => host.runHandler handler argument capability
  | .adopt target source =>
      { host with
        heap := host.heap.performThen source ⟨.resolve target, .reject target, none⟩ }
  | .callThen target _ =>
      { host with
        resolvers := Function.update host.resolvers target true
        frame := some (.thenMethod target) }

/-- No microtask accepts a call. -/
@[simp]
theorem runJob_nextCall (host : Host) (job : Job Callback Plain) :
    (host.runJob job).nextCall = host.nextCall := by
  cases job with
  | reaction source handler argument capability => exact host.runHandler_nextCall ..
  | adopt target source => rfl
  | callThen target object => rfl

/-- The program can hold the value: a promise must be one that it made or that the
bootstrap returned to it. -/
def exposes (host : Host) : JsValue → Bool
  | .promise promise =>
      promise < host.heap.next &&
        match host.origin promise with
        | .program | .result _ => true
        | .internal | .body _ | .guarded _ => false
  | .plain _ | .thenable _ => true

end Host

/-- One action of the running code. -/
inductive Action
  | newPromise
  /-- Call a resolving function that the program holds. -/
  | resolve (promise : ℕ) (value : JsValue)
  | reject (promise : ℕ) (reason : JsValue)
  /-- `promise.then` with the callbacks that are present. -/
  | andThen (promise : ℕ) (onFulfilled onRejected : Bool)
  /-- `await promise`: the rest of the function becomes a callback. -/
  | await (promise : ℕ)
  | scope (callable : Bool)
  | async (owner : ℕ) (callable : Bool)
  | returns (value : JsValue)
  | throws (reason : JsValue)
  deriving DecidableEq, Repr

/-- One event of a run. -/
inductive Event
  /-- The host calls into JavaScript: the script, or a completion. -/
  | enter
  | act (action : Action)
  /-- The oldest microtask runs, or starts if it is code of the program. -/
  | job
  deriving DecidableEq, Repr

namespace Host

/-- Use up the resolving functions of a promise. -/
def useResolver (host : Host) (promise : ℕ) (completion : JsCompletion) : Host :=
  { host with resolvers := Function.update host.resolvers promise false }.conclude (some promise)
    completion

@[simp]
theorem useResolver_nextCall (host : Host) (promise : ℕ) (completion : JsCompletion) :
    (host.useResolver promise completion).nextCall = host.nextCall := by
  simp [useResolver]

/-- The running code ends. A `then` method that throws before it has used the
resolving functions rejects the promise. -/
def leave (host : Host) (frame : Frame) (completion : JsCompletion) : Host :=
  let left := { host with frame := none }
  match frame, completion with
  | .callback capability, _ => left.conclude capability completion
  | .thenMethod target, .threw _ =>
      if host.resolvers target then left.useResolver target completion else left
  | .thenMethod _, .returned _ => left

@[simp]
theorem leave_nextCall (host : Host) (frame : Frame) (completion : JsCompletion) :
    (host.leave frame completion).nextCall = host.nextCall := by
  unfold leave
  dsimp only
  split
  · simp
  · split <;> simp
  · rfl

/-- An action of the code that runs in `frame`. -/
def act (host : Host) (frame : Frame) : Action → Option Host
  | .newPromise =>
      some { host.newPromise .program with
        resolvers := Function.update host.resolvers host.heap.next true }
  | .resolve promise value =>
      if host.resolvers promise && host.exposes value then
        some (host.useResolver promise (.returned value))
      else none
  | .reject promise reason =>
      if host.resolvers promise && host.exposes reason then
        some (host.useResolver promise (.threw reason))
      else none
  | .andThen promise onFulfilled onRejected =>
      if host.exposes (.promise promise) then
        some (host.andThen promise (if onFulfilled then .callback .program else .identity)
          (if onRejected then .callback .program else .thrower) .program)
      else none
  | .await promise =>
      if host.exposes (.promise promise) then
        some { host with
          heap := host.heap.performThen promise
            ⟨.callback .program, .callback .program, none⟩ }
      else none
  | .scope callable => some (host.scope callable).1
  | .async owner callable =>
      -- the scope object is an argument of the function given to `Kode.scope`
      if owner < host.nextCall && (host.calls owner).owner.isNone
          && (host.calls owner).entered then
        some (host.async owner callable).1
      else none
  | .returns value => if host.exposes value then some (host.leave frame (.returned value)) else none
  | .throws reason => if host.exposes reason then some (host.leave frame (.threw reason)) else none

/-- One event. Microtasks and completions start only when no code is running. -/
def step (host : Host) : Event → Option Host
  | .enter =>
      match host.frame with
      | none => some { host with frame := some (.callback none) }
      | some _ => none
  | .act action => host.frame.bind fun frame => host.act frame action
  | .job =>
      match host.frame, host.heap.jobs with
      | none, job :: rest => some ({ host with heap := { host.heap with jobs := rest } }.runJob job)
      | _, _ => none

/-! ### What an action does -/

/-- The effects of the actions of the program. -/
inductive ActionMove (host : Host) (frame : Frame) : Action → Host → Prop
  | newPromise : ActionMove host frame .newPromise
      { host.newPromise .program with
        resolvers := Function.update host.resolvers host.heap.next true }
  | useResolver {action : Action} {promise : ℕ} {completion : JsCompletion}
      (held : host.resolvers promise = true) (exposed : host.exposes completion.value = true) :
      ActionMove host frame action (host.useResolver promise completion)
  | andThen {promise : ℕ} {onFulfilled onRejected : Bool}
      (exposed : host.exposes (.promise promise) = true) :
      ActionMove host frame (.andThen promise onFulfilled onRejected)
        (host.andThen promise (if onFulfilled then .callback .program else .identity)
          (if onRejected then .callback .program else .thrower) .program)
  | await {promise : ℕ} (exposed : host.exposes (.promise promise) = true) :
      ActionMove host frame (.await promise)
        { host with
          heap := host.heap.performThen promise
            ⟨.callback .program, .callback .program, none⟩ }
  | scope (callable : Bool) : ActionMove host frame (.scope callable) (host.scope callable).1
  | async {owner : ℕ} (callable : Bool) (owner_lt : owner < host.nextCall) :
      ActionMove host frame (.async owner callable) (host.async owner callable).1
  | leave {action : Action} {completion : JsCompletion}
      (exposed : host.exposes completion.value = true) :
      ActionMove host frame action (host.leave frame completion)

theorem act_move {host new : Host} {frame : Frame} {action : Action}
    (taken : host.act frame action = some new) : ActionMove host frame action new := by
  cases action with
  | newPromise =>
      cases taken
      exact .newPromise
  | resolve promise value =>
      obtain ⟨usable, taken⟩ := Option.ite_none_right_eq_some.mp taken
      cases taken
      obtain ⟨held, exposed⟩ := Bool.and_eq_true_iff.mp usable
      exact .useResolver held exposed
  | reject promise reason =>
      obtain ⟨usable, taken⟩ := Option.ite_none_right_eq_some.mp taken
      cases taken
      obtain ⟨held, exposed⟩ := Bool.and_eq_true_iff.mp usable
      exact .useResolver held exposed
  | andThen promise onFulfilled onRejected =>
      obtain ⟨exposed, taken⟩ := Option.ite_none_right_eq_some.mp taken
      cases taken
      exact .andThen exposed
  | await promise =>
      obtain ⟨exposed, taken⟩ := Option.ite_none_right_eq_some.mp taken
      cases taken
      exact .await exposed
  | scope callable =>
      cases taken
      exact .scope callable
  | async owner callable =>
      obtain ⟨known, taken⟩ := Option.ite_none_right_eq_some.mp taken
      cases taken
      simp only [Bool.and_eq_true, decide_eq_true_eq] at known
      exact .async callable known.1.1
  | returns value =>
      obtain ⟨exposed, taken⟩ := Option.ite_none_right_eq_some.mp taken
      cases taken
      exact .leave exposed
  | throws reason =>
      obtain ⟨exposed, taken⟩ := Option.ite_none_right_eq_some.mp taken
      cases taken
      exact .leave exposed

/-- The steps of a run. -/
inductive StepMove (host : Host) : Event → Host → Prop
  | enter : StepMove host .enter { host with frame := some (.callback none) }
  | act {frame : Frame} {action : Action} {new : Host} (running : host.frame = some frame)
      (move : ActionMove host frame action new) : StepMove host (.act action) new
  | job {job : Job Callback Plain} {rest : List (Job Callback Plain)}
      (queue : host.heap.jobs = job :: rest) :
      StepMove host .job ({ host with heap := { host.heap with jobs := rest } }.runJob job)

theorem step_move {host new : Host} {event : Event} (taken : host.step event = some new) :
    StepMove host event new := by
  cases event with
  | enter =>
      simp only [step] at taken
      split at taken
      · cases taken
        exact .enter
      · cases taken
  | act action =>
      obtain ⟨frame, running, acted⟩ := Option.bind_eq_some_iff.mp taken
      exact .act running (act_move acted)
  | job =>
      simp only [step] at taken
      split at taken
      · next job rest _ queue =>
          cases taken
          exact .job queue
      · cases taken

end Host

end Kode.Scope
