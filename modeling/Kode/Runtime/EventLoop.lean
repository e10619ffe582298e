/-
# The event loop and the microtask queue

The isolate runs microtasks only when the embedder asks for it, at a checkpoint. The
runtime makes one after the script, one after each turn of the loop that waits for a
promise of the top level, and one at the end of each host completion that settles a
promise. The completion of `fs.readFile` calls a function instead and makes none; a script
that throws returns to `main` before the checkpoint; and behind the last checkpoint
`PromiseResultToString` makes a text of the result, which calls a `toString` of the script
if the result has one.

The model follows control through `runScript`, `ResolveTopLevelPromise`, `RunEventLoop`
and the completions. What JavaScript does is not fixed: whenever it runs, it queues any
continuations and starts any host operations. Which of the pending operations completes
next is open as well.
-/

import Kode.Library.StepSystem

namespace Kode.Runtime

open Kode.Library

universe u

/-- A host operation whose completion the event loop will deliver. -/
inductive Request
  | read
  | readText
  | write
  | info
  | readFile
  | sleep
  deriving DecidableEq, Repr

/-- The completion settles a promise and ends with a checkpoint. Only that of
`fs.readFile` calls a function of the script and does not. -/
def Request.hasCheckpoint : Request → Bool
  | .readFile => false
  | .read | .readText | .write | .info | .sleep => true

/-- How `uv_run` is called. -/
inductive RunMode
  /-- `UV_RUN_ONCE`, from `ResolveTopLevelPromise`. -/
  | once
  /-- `UV_RUN_DEFAULT`, from `RunEventLoop`. -/
  | default
  deriving DecidableEq, Repr

/-- Where control goes when a checkpoint has emptied the queue. -/
inductive Return
  /-- On in `runScript`; `promise` says whether the script's value is one. -/
  | script (promise : Bool)
  /-- Back to the loop test of `ResolveTopLevelPromise`. -/
  | topLevel
  /-- Out of a completion, back to `uv_run`. -/
  | completion (mode : RunMode)
  deriving DecidableEq, Repr

/-- Where control is. -/
inductive Control
  /-- About to run the script. -/
  | script
  | checkpoint (back : Return)
  /-- At the loop test of `ResolveTopLevelPromise`. -/
  | topLevel
  /-- About to call `PromiseResultToString` for the result of the script. -/
  | resultToString
  /-- Inside `uv_run`, between two callbacks. -/
  | loop (mode : RunMode)
  | shutdown
  deriving DecidableEq, Repr

/-- What a piece of JavaScript leaves behind. -/
structure Effects (Job : Type u) where
  queued : List Job
  started : List Request
  deriving DecidableEq, Repr

/-- How the script ends. -/
inductive ScriptEnd
  | compileError
  /-- With an exception, of which `FormatTryCatch` makes a text. -/
  | threw
  | value (promise : Bool)
  deriving DecidableEq, Repr

/-- The runtime. `returns` is a history: the microtask queue at each return from a
completion to the event loop. -/
structure EventLoop (Job : Type u) where
  control : Control
  queue : List Job
  pending : List Request
  returns : List (List Job)
  deriving DecidableEq, Repr

/-- One step. -/
inductive Event (Job : Type u)
  | runScript (ends : ScriptEnd) (effects : Effects Job)
  /-- The next microtask runs. -/
  | microtask (effects : Effects Job)
  | checkpointEnd
  /-- The test of `ResolveTopLevelPromise`: is its promise pending, is the loop alive. -/
  | testTopLevel (promisePending alive : Bool)
  /-- The result becomes a text; what a `toString` of the script does then. -/
  | resultToString (effects : Effects Job)
  /-- The loop calls back for the pending operation at a position. -/
  | deliver (position : ℕ) (effects : Effects Job)
  /-- `uv_run` returns. -/
  | loopReturn
  deriving DecidableEq, Repr

namespace EventLoop

variable {Job : Type u}

/-- The runtime when `main` executes the script. -/
def start : EventLoop Job := { control := .script, queue := [], pending := [], returns := [] }

/-- JavaScript has run. -/
def apply (runtime : EventLoop Job) (effects : Effects Job) : EventLoop Job :=
  { runtime with
    queue := runtime.queue ++ effects.queued
    pending := runtime.pending ++ effects.started }

/-- Move control. -/
def goto (runtime : EventLoop Job) (control : Control) : EventLoop Job := { runtime with control }

/-- Control leaves a completion. -/
def returnToLoop (runtime : EventLoop Job) (mode : RunMode) : EventLoop Job :=
  { runtime with control := .loop mode, returns := runtime.returns ++ [runtime.queue] }

/-- `runScript` up to its checkpoint. An error returns at once, and `main` goes on to
`RunEventLoop`. -/
def runScript (runtime : EventLoop Job) (ends : ScriptEnd) (effects : Effects Job) :
    EventLoop Job :=
  match ends with
  | .compileError => runtime.goto (.loop .default)
  | .threw => (runtime.apply effects).goto (.loop .default)
  | .value promise => (runtime.apply effects).goto (.checkpoint (.script promise))

/-- The queue is empty and `PerformMicrotaskCheckpoint` returns. -/
def leaveCheckpoint (runtime : EventLoop Job) : Return → EventLoop Job
  | .script true | .topLevel => runtime.goto .topLevel
  | .script false => runtime.goto .resultToString
  | .completion mode => runtime.returnToLoop mode

/-- Where `ResolveTopLevelPromise` goes from its loop test. A promise that is still pending
when the loop is not alive has no result. -/
def afterTest (promisePending alive : Bool) : Control :=
  if promisePending then .loop (if alive then .once else .default) else .resultToString

/-- The callback of a pending operation. -/
def complete (runtime : EventLoop Job) (mode : RunMode) (request : Request)
    (effects : Effects Job) : EventLoop Job :=
  if request.hasCheckpoint then
    (runtime.apply effects).goto (.checkpoint (.completion mode))
  else (runtime.apply effects).returnToLoop mode

/-- One step of the runtime. -/
def step (runtime : EventLoop Job) (event : Event Job) : Option (EventLoop Job) :=
  match runtime.control, event with
  | .script, .runScript ends effects => some (runtime.runScript ends effects)
  | .checkpoint _, .microtask effects =>
      match runtime.queue with
      | [] => none
      | _ :: rest => some ({ runtime with queue := rest }.apply effects)
  | .checkpoint back, .checkpointEnd =>
      if runtime.queue = [] then some (runtime.leaveCheckpoint back) else none
  | .topLevel, .testTopLevel promisePending alive =>
      -- A loop with pending operations is alive; closing handles also keep it so.
      if alive = false ∧ runtime.pending ≠ [] then none
      else some (runtime.goto (afterTest promisePending alive))
  | .resultToString, .resultToString effects =>
      some ((runtime.apply effects).goto (.loop .default))
  | .loop mode, .deliver position effects =>
      runtime.pending[position]?.map fun request =>
        { runtime with pending := runtime.pending.eraseIdx position }.complete mode request
          effects
  | .loop .once, .loopReturn => some (runtime.goto (.checkpoint .topLevel))
  | .loop .default, .loopReturn =>
      if runtime.pending = [] then some (runtime.goto .shutdown) else none
  | _, _ => none

/-- Everything a step can do. -/
inductive Move (runtime : EventLoop Job) : Event Job → EventLoop Job → Prop
  | runScript (ends : ScriptEnd) (effects : Effects Job) (here : runtime.control = .script) :
      Move runtime (.runScript ends effects) (runtime.runScript ends effects)
  | microtask (back : Return) (job : Job) (rest : List Job) (effects : Effects Job)
      (here : runtime.control = .checkpoint back) (next : runtime.queue = job :: rest) :
      Move runtime (.microtask effects) ({ runtime with queue := rest }.apply effects)
  | checkpointEnd (back : Return) (here : runtime.control = .checkpoint back)
      (empty : runtime.queue = []) :
      Move runtime .checkpointEnd (runtime.leaveCheckpoint back)
  | testTopLevel (promisePending alive : Bool) (here : runtime.control = .topLevel)
      (idle : alive = false → runtime.pending = []) :
      Move runtime (.testTopLevel promisePending alive)
        (runtime.goto (afterTest promisePending alive))
  | resultToString (effects : Effects Job) (here : runtime.control = .resultToString) :
      Move runtime (.resultToString effects) ((runtime.apply effects).goto (.loop .default))
  | deliver (mode : RunMode) (position : ℕ) (request : Request) (effects : Effects Job)
      (here : runtime.control = .loop mode)
      (found : runtime.pending[position]? = some request) :
      Move runtime (.deliver position effects)
        ({ runtime with pending := runtime.pending.eraseIdx position }.complete mode request
          effects)
  | turnOver (here : runtime.control = .loop .once) :
      Move runtime .loopReturn (runtime.goto (.checkpoint .topLevel))
  | finish (here : runtime.control = .loop .default) (idle : runtime.pending = []) :
      Move runtime .loopReturn (runtime.goto .shutdown)

theorem step_move {runtime target : EventLoop Job} {event : Event Job}
    (taken : runtime.step event = some target) : Move runtime event target := by
  unfold step at taken
  split at taken
  case h_1 ends effects here =>
      obtain rfl := Option.some.inj taken
      exact .runScript ends effects here
  case h_2 back effects here =>
      split at taken
      · cases taken
      · rename_i job rest next
        obtain rfl := Option.some.inj taken
        exact .microtask back job rest effects here next
  case h_3 back here =>
      obtain ⟨empty, same⟩ := Option.ite_none_right_eq_some.mp taken
      obtain rfl := Option.some.inj same
      exact .checkpointEnd back here empty
  case h_4 promisePending alive here =>
      obtain ⟨guard, same⟩ := Option.ite_none_left_eq_some.mp taken
      obtain rfl := Option.some.inj same
      refine .testTopLevel promisePending alive here fun dead => ?_
      by_contra busy
      exact guard ⟨dead, busy⟩
  case h_5 effects here =>
      obtain rfl := Option.some.inj taken
      exact .resultToString effects here
  case h_6 mode position effects here =>
      obtain ⟨request, found, rfl⟩ := Option.map_eq_some_iff.mp taken
      exact .deliver mode position request effects here found
  case h_7 here =>
      obtain rfl := Option.some.inj taken
      exact .turnOver here
  case h_8 here =>
      obtain ⟨idle, same⟩ := Option.ite_none_right_eq_some.mp taken
      obtain rfl := Option.some.inj same
      exact .finish here idle
  case h_9 => cases taken

/-! ## No continuation is left behind -/

/-- Every completion has returned with an empty queue, and so does the runtime shut
down. -/
def Drained (runtime : EventLoop Job) : Prop :=
  (∀ left ∈ runtime.returns, left = []) ∧ (runtime.control = .shutdown → runtime.queue = [])

/-- The step leaves no continuation to a checkpoint that may never come: the function
given to `fs.readFile` is called with an empty queue and queues nothing; a script that
throws, and the conversion of its result, have queued nothing or there is an operation
pending. -/
def NeedsNoCheckpoint (runtime : EventLoop Job) : Event Job → Prop
  | .deliver position effects => runtime.pending[position]? = some .readFile →
      runtime.queue = [] ∧ effects.queued = []
  | .runScript .threw effects => effects.queued = [] ∨ effects.started ≠ []
  | .resultToString effects =>
      effects.queued = [] ∨ effects.started ≠ [] ∨ runtime.pending ≠ []
  | _ => True

/-- Where the queue is empty in such a run. In the loop, a queue that was left without a
checkpoint may wait for the first completion. -/
structure Tidy (runtime : EventLoop Job) : Prop where
  returns : ∀ left ∈ runtime.returns, left = []
  script : runtime.control = .script → runtime.queue = [] ∧ runtime.pending = []
  topLevel : runtime.control = .topLevel → runtime.queue = []
  resultToString : runtime.control = .resultToString → runtime.queue = []
  loop : ∀ mode, runtime.control = .loop mode → runtime.queue = [] ∨ runtime.pending ≠ []
  shutdown : runtime.control = .shutdown → runtime.queue = []

theorem tidy_start : (start : EventLoop Job).Tidy where
  returns left none := by cases none
  script _ := ⟨rfl, rfl⟩
  topLevel there := by cases there
  resultToString there := by cases there
  loop mode there := by cases there
  shutdown there := by cases there

theorem Tidy.drained {runtime : EventLoop Job} (tidy : runtime.Tidy) : runtime.Drained :=
  ⟨tidy.returns, tidy.shutdown⟩

/-- At a checkpoint the queue may hold anything. -/
theorem tidy_checkpoint {runtime : EventLoop Job} {back : Return}
    (returns : ∀ left ∈ runtime.returns, left = [])
    (here : runtime.control = .checkpoint back) : runtime.Tidy where
  returns := returns
  script there := by rw [here] at there; cases there
  topLevel there := by rw [here] at there; cases there
  resultToString there := by rw [here] at there; cases there
  loop mode there := by rw [here] at there; cases there
  shutdown there := by rw [here] at there; cases there

/-- With an empty queue control may be anywhere behind the script. -/
theorem tidy_of_empty {runtime : EventLoop Job} (returns : ∀ left ∈ runtime.returns, left = [])
    (begun : runtime.control ≠ .script) (empty : runtime.queue = []) : runtime.Tidy where
  returns := returns
  script there := absurd there begun
  topLevel _ := empty
  resultToString _ := empty
  loop _ _ := Or.inl empty
  shutdown _ := empty

/-- A completion that returns with an empty queue. -/
theorem tidy_returnToLoop {runtime : EventLoop Job}
    (returns : ∀ left ∈ runtime.returns, left = []) (empty : runtime.queue = [])
    (mode : RunMode) : (runtime.returnToLoop mode).Tidy := by
  refine tidy_of_empty (fun left member => ?_) nofun empty
  rcases List.mem_append.mp member with earlier | last
  · exact returns left earlier
  · rw [List.mem_singleton.mp last, empty]

theorem afterTest_ne_script (promisePending alive : Bool) :
    afterTest promisePending alive ≠ .script := by
  cases promisePending
  · exact nofun
  · exact nofun

/-- JavaScript runs, and control goes to the loop without a checkpoint. -/
theorem tidy_applied {runtime : EventLoop Job} {effects : Effects Job}
    (returns : ∀ left ∈ runtime.returns, left = []) (empty : runtime.queue = [])
    (covered : effects.queued = [] ∨ effects.started ≠ [] ∨ runtime.pending ≠ []) :
    ((runtime.apply effects).goto (.loop .default)).Tidy where
  returns := returns
  script there := by cases there
  topLevel there := by cases there
  resultToString there := by cases there
  shutdown there := by cases there
  loop _ _ := by
    rcases covered with nothing | something | busy
    · left
      simp [apply, goto, empty, nothing]
    · right
      simp [apply, goto, something]
    · right
      simp [apply, goto, busy]

/-- Nobody will run what is queued when `uv_run` has nothing to wait for. -/
theorem lost_at_shutdown {runtime : EventLoop Job} {effects : Effects Job}
    (empty : runtime.queue = []) (idle : runtime.pending = [])
    (something : effects.queued ≠ []) (nothing : effects.started = []) :
    ∃ final, ((runtime.apply effects).goto (.loop .default)).step .loopReturn = some final ∧
      ¬ final.Drained := by
  refine ⟨((runtime.apply effects).goto (.loop .default)).goto .shutdown, ?_, ?_⟩
  · simp [step, apply, goto, idle, nothing]
  · intro drained
    exact something (by simpa [apply, goto, empty] using drained.2 rfl)

theorem Tidy.runScript {runtime : EventLoop Job} (tidy : runtime.Tidy)
    (here : runtime.control = .script) {ends : ScriptEnd} {effects : Effects Job}
    (meets : runtime.NeedsNoCheckpoint (.runScript ends effects)) :
    (runtime.runScript ends effects).Tidy := by
  obtain ⟨empty, -⟩ := tidy.script here
  cases ends with
  | compileError => exact tidy_of_empty tidy.returns nofun empty
  | value promise => exact tidy_checkpoint tidy.returns rfl
  | threw => exact tidy_applied tidy.returns empty (meets.imp_right Or.inl)

theorem Tidy.complete {runtime : EventLoop Job} (tidy : runtime.Tidy) {mode : RunMode}
    {position : ℕ} {request : Request} {effects : Effects Job}
    (found : runtime.pending[position]? = some request)
    (meets : runtime.NeedsNoCheckpoint (.deliver position effects)) :
    ({ runtime with pending := runtime.pending.eraseIdx position }.complete mode request
      effects).Tidy := by
  unfold EventLoop.complete
  split_ifs with checkpoint
  · exact tidy_checkpoint tidy.returns rfl
  · obtain rfl : request = .readFile := by cases request <;> simp_all [Request.hasCheckpoint]
    obtain ⟨empty, nothing⟩ := meets found
    have stillEmpty : ({ runtime with
        pending := runtime.pending.eraseIdx position }.apply effects).queue = [] := by
      simp [apply, empty, nothing]
    exact tidy_returnToLoop (by exact tidy.returns) stillEmpty mode

theorem Tidy.step {runtime target : EventLoop Job} {event : Event Job} (tidy : runtime.Tidy)
    (meets : runtime.NeedsNoCheckpoint event) (taken : runtime.step event = some target) :
    target.Tidy := by
  cases step_move taken with
  | runScript ends effects here => exact tidy.runScript here meets
  | microtask back job rest effects here next => exact tidy_checkpoint tidy.returns here
  | checkpointEnd back here empty =>
      match back with
      | .script true | .script false | .topLevel => exact tidy_of_empty tidy.returns nofun empty
      | .completion mode => exact tidy_returnToLoop tidy.returns empty mode
  | testTopLevel promisePending alive here idle =>
      exact tidy_of_empty tidy.returns (afterTest_ne_script _ _) (tidy.topLevel here)
  | resultToString effects here =>
      exact tidy_applied tidy.returns (tidy.resultToString here) meets
  | deliver mode position request effects here found => exact tidy.complete found meets
  | turnOver here => exact tidy_checkpoint tidy.returns rfl
  | finish here idle =>
      have empty := (tidy.loop _ here).resolve_right fun busy => busy idle
      exact tidy_of_empty tidy.returns nofun empty

/-- A continuation that `fs.readFile` leaves behind shows when its completion returns, one
that a failed script or the conversion of its result leaves behind when `uv_run` finds
nothing to wait for. -/
theorem left_behind {runtime target : EventLoop Job} {event : Event Job} (tidy : runtime.Tidy)
    (misses : ¬ runtime.NeedsNoCheckpoint event) (taken : runtime.step event = some target) :
    ¬ target.Drained ∨ ∃ final, target.step .loopReturn = some final ∧ ¬ final.Drained := by
  cases step_move taken with
  | deliver mode position request effects here found =>
      left
      obtain ⟨same, left⟩ := Classical.not_imp.mp misses
      obtain rfl : request = .readFile := Option.some.inj (found.symm.trans same)
      intro drained
      refine left (List.append_eq_nil_iff.mp (drained.1 (runtime.queue ++ effects.queued) ?_))
      simp [complete, Request.hasCheckpoint, apply, returnToLoop]
  | runScript ends effects here =>
      obtain ⟨empty, idle⟩ := tidy.script here
      cases ends with
      | compileError | value => exact absurd trivial misses
      | threw =>
          simp only [NeedsNoCheckpoint, not_or, not_not] at misses
          exact Or.inr (lost_at_shutdown empty idle misses.1 misses.2)
  | resultToString effects here =>
      simp only [NeedsNoCheckpoint, not_or, not_not] at misses
      obtain ⟨something, nothing, idle⟩ := misses
      exact Or.inr (lost_at_shutdown (tidy.resultToString here) idle something nothing)
  | microtask | checkpointEnd | testTopLevel | turnOver | finish => exact absurd trivial misses

/-- In a run in which no step relies on a checkpoint that may not come, every completion
returns to the event loop with an empty queue, and the runtime shuts down with one. A
step that does rely on one leaves a continuation that is seen at the return of its
completion or, behind a failed script or the conversion of the result, at shutdown. -/
theorem continuations_drained {runtime : EventLoop Job}
    (reached : ReachableUnder step NeedsNoCheckpoint start runtime) :
    runtime.Drained ∧
    ∀ event target, ¬ runtime.NeedsNoCheckpoint event → runtime.step event = some target →
      ¬ target.Drained ∨
        ∃ final, target.step .loopReturn = some final ∧ ¬ final.Drained := by
  have tidy : runtime.Tidy :=
    reached.invariant tidy_start fun _ _ _ tidy meets taken => tidy.step meets taken
  exact ⟨tidy.drained, fun event target => left_behind tidy⟩

/-- A script that starts one operation and ends; its completion leaves one continuation,
which runs where there is a checkpoint. -/
def oneOperation (request : Request) : List (Event ℕ) :=
  [.runScript (.value false) ⟨[], [request]⟩, .checkpointEnd, .resultToString ⟨[], []⟩,
    .deliver 0 ⟨[7], []⟩]

/-- A test for the condition on the steps. -/
def needsNoCheckpoint (runtime : EventLoop Job) : Event Job → Bool
  | .deliver position effects => runtime.pending[position]? != some .readFile ||
      runtime.queue.isEmpty && effects.queued.isEmpty
  | .runScript .threw effects => effects.queued.isEmpty || !effects.started.isEmpty
  | .resultToString effects =>
      effects.queued.isEmpty || (!effects.started.isEmpty || !runtime.pending.isEmpty)
  | _ => true

theorem needsNoCheckpoint_sound {runtime : EventLoop Job} {event : Event Job}
    (passed : needsNoCheckpoint runtime event = true) : runtime.NeedsNoCheckpoint event := by
  unfold needsNoCheckpoint at passed
  split at passed
  · rintro same
    simpa [same] using passed
  · simpa [NeedsNoCheckpoint] using passed
  · simpa [NeedsNoCheckpoint] using passed
  · unfold NeedsNoCheckpoint
    split <;> simp_all

/-- The continuation of a `fs.readText` runs before the loop goes on. -/
theorem continuations_drained_readText :
    ∃ runtime : EventLoop ℕ, ReachableUnder step NeedsNoCheckpoint start runtime ∧
      runtime.control = .shutdown ∧ runtime.returns = [[]] ∧ runtime.Drained := by
  have evaluated : (runSteps (guarded step needsNoCheckpoint) start
      (List.flatten [oneOperation .readText,
        [.microtask ⟨[], []⟩, .checkpointEnd, .loopReturn]])).map
      (fun s => (s.control, s.returns)) = some (.shutdown, [[]]) := by decide
  obtain ⟨runtime, ran, facts⟩ := Option.map_eq_some_iff.mp evaluated
  obtain ⟨control, returns⟩ := Prod.mk.inj facts
  have reached : ReachableUnder step NeedsNoCheckpoint start runtime :=
    reachableUnder_of_guarded (fun _ _ => needsNoCheckpoint_sound) ran
  exact ⟨runtime, reached, control, returns, (continuations_drained reached).1⟩

/-- The continuation that the function given to `fs.readFile` queues never runs. -/
theorem readFile_continuation_lost :
    ¬ ∀ runtime : EventLoop ℕ, Reachable step start runtime → runtime.Drained := by
  intro always
  have ran : runSteps step start (List.flatten [oneOperation .readFile, [.loopReturn]]) =
      some { control := .shutdown, queue := [7], pending := [], returns := [[7]] } := by decide
  have drained := always _ (reachable_of_runSteps ran)
  exact absurd (drained.2 rfl) (by simp)

-- And so does what a `toString` of the result queues.
example : runSteps step start [.runScript (.value false) ⟨[], []⟩, .checkpointEnd,
    .resultToString ⟨[7], []⟩, .loopReturn] =
      some { control := .shutdown, queue := [7], pending := [], returns := [] } := by
  decide

end EventLoop

end Kode.Runtime
