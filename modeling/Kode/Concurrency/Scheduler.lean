/-
# The task scheduler

`TaskScheduler` runs tasks on a fixed number of worker threads. A worker takes a
task from its local queue, from the global queue or from another worker's queue,
switches into the task's fiber, and looks at the task's state when control comes
back: a yielded task goes to the end of the worker's local queue, any other task
is retired.

The model is a step function over the state the threads share. Each step is one
access to that state: a queue operation under its mutex, one atomic load or store
of a task's `cancelled_` or `state_`, one context switch. `cancel_task` may store
between any two of them. Task functions are not fixed: while a fiber is inside its
function, every one of compute, yield, spawn, return and throw is enabled, and so is
catching an exception that `yield` or the function itself has thrown. The runs cover
every task body.

Not modelled are the times a task records, the preemption thread, which only sets
a flag that nothing reads, and `stop` after its request to the workers.
-/

import Kode.Library.StepSystem
import Mathlib.Algebra.Group.Nat.Defs
import Mathlib.Data.Finset.Basic
import Mathlib.Data.Fintype.Basic

namespace Kode.Concurrency

/-- `Task::TaskId`. -/
abbrev TaskId := ℕ

/-- `Task::State`. -/
inductive TaskState
  | created
  | runnable
  | running
  | blocked
  | completed
  | cancelled
  deriving DecidableEq, Repr

/-- Where control stands in a task's fiber: in `TaskTrampoline`, in
`Task::invoke`, in the task function, or in a `Task::yield` or `spawn` that the
function called. -/
inductive FiberPoint
  /-- Nothing has run; `invoke` will load `cancelled_`. -/
  | entry
  /-- `invoke` found the task cancelled and will store `CANCELLED`. -/
  | invokeCancelled
  /-- `invoke` will store `RUNNING` and call the function. -/
  | invokeRun
  /-- Inside the function. -/
  | body
  /-- Inside the function's call of `spawn` for the given new task. -/
  | spawning (child : TaskId)
  /-- `yield` will load `cancelled_`. -/
  | yieldCheck
  /-- `yield` will store `RUNNABLE`. -/
  | yieldStore
  /-- `yield` will switch to the scheduler context. -/
  | yieldSwitch
  /-- Switched out inside `yield`. -/
  | suspended
  /-- Switched in again; `yield` will load `cancelled_` a second time. -/
  | yieldResumed
  /-- An exception is on its way to the handler of `invoke`, unless the function
  catches it. -/
  | unwinding
  /-- The function returned and `invoke` will store `COMPLETED`. -/
  | returning
  /-- `invoke` has returned and control leaves the fiber. -/
  | over
  deriving DecidableEq, Repr

/-- Control is in the task function, or in a call it made that has not handed the
task back to the scheduler. -/
def FiberPoint.inFunction : FiberPoint → Bool
  | .body | .spawning _ | .yieldCheck | .yieldStore | .unwinding | .returning => true
  | _ => false

/-- Control is in a call of `yield`. -/
def FiberPoint.inYield : FiberPoint → Bool
  | .yieldCheck | .yieldStore | .yieldSwitch | .suspended | .yieldResumed => true
  | _ => false

/-- How far the `spawn` call that makes a task has come. -/
inductive SpawnStage
  /-- No such task. -/
  | unborn
  /-- The id is taken and the task made. -/
  | allocated
  /-- `active_tasks_` has been incremented. -/
  | counted
  /-- The task is in the global queue. -/
  | scheduled
  /-- The task is in `active_task_map_` and `spawn` returns. -/
  | registered
  deriving DecidableEq, Repr

/-- The task is counted in `active_tasks_`. -/
def SpawnStage.isCounted : SpawnStage → Bool
  | .unborn | .allocated => false
  | .counted | .scheduled | .registered => true

/-- The task has been put into a queue. -/
def SpawnStage.isScheduled : SpawnStage → Bool
  | .unborn | .allocated | .counted => false
  | .scheduled | .registered => true

/-- A thread is inside the `spawn` call that makes the task. -/
def SpawnStage.inProgress : SpawnStage → Bool
  | .unborn | .registered => false
  | .allocated | .counted | .scheduled => true

/-- A task. `ucLink` is the `uc_link` of its context, absent as long as
`uctx_initialized_` is false; `spawner` is the task whose function called `spawn`
for it, or nothing when an outside thread did. -/
structure Task (n : ℕ) where
  state : TaskState
  cancelled : Bool
  ucLink : Option (Fin n)
  point : FiberPoint
  spawn : SpawnStage
  spawner : Option TaskId
  deriving DecidableEq, Repr

/-- Where a worker stands in `worker_loop` and in the `steal_task_fast` it
calls. -/
inductive Phase
  /-- The loop test. -/
  | top
  /-- The wait on the local queue. -/
  | popLocal
  /-- The first strategy of `steal_task_fast`. -/
  | stealGlobal
  /-- The second strategy, at an attempt. -/
  | stealRandom (attempt : ℕ)
  /-- The third strategy, at an offset from the worker. -/
  | stealScan (offset : ℕ)
  /-- A task was found and will be switched to. -/
  | prepare (task : TaskId)
  /-- Control is inside the task's fiber. -/
  | inFiber (task : TaskId)
  /-- Control came back and the task's state will be read. -/
  | switchedBack (task : TaskId)
  /-- The task was found `RUNNABLE`. -/
  | reenqueue (task : TaskId)
  /-- The task was found in another state. -/
  | retire (task : TaskId)
  /-- The worker will clear `current_task` and drop its reference. -/
  | clear (task : TaskId)
  /-- The loop has ended. -/
  | stopped
  /-- The thread went on behind the switch of another worker's loop, on that worker's
  stack, and read the state of the task it found there: `RUNNABLE`. -/
  | strayReenqueue (frame : ℕ) (task : TaskId)
  /-- The same, and the state was another one. -/
  | strayRetire (task : TaskId)
  /-- Two threads share one stack, or the stack was not at its switch. The model
  follows the thread no further. -/
  | derailed
  deriving DecidableEq, Repr

/-- The task a worker is executing: from the moment it was taken out of a queue
until it is put back or retired. A stray thread has the task it found on the other
worker's stack. -/
def Phase.executing : Phase → Option TaskId
  | .prepare task | .inFiber task | .switchedBack task | .reenqueue task | .retire task
  | .strayReenqueue _ task | .strayRetire task => some task
  | _ => none

@[simp]
theorem Phase.executing_prepare (task : TaskId) :
    (Phase.prepare task).executing = some task := rfl

theorem Phase.executing_of_inFiber {phase : Phase} {task : TaskId}
    (inside : phase = .inFiber task) : phase.executing = some task := by
  rw [inside]
  rfl

/-- The worker's thread is on its own stack. -/
def Phase.onTrack : Phase → Bool
  | .strayReenqueue _ _ | .strayRetire _ | .derailed => false
  | _ => true

/-- The task that a worker's local `task` keeps alive. -/
def Phase.holds : Phase → Option TaskId
  | .clear task => some task
  | phase => phase.executing

theorem Phase.executing_of_holds {phase : Phase} (idle : phase.holds = none) :
    phase.executing = none := by
  cases phase <;> first | rfl | exact idle

/-- `WorkerThread`, with the thread-local `g_sched_ctx` of its thread. -/
structure Worker (n : ℕ) where
  localQueue : List TaskId
  phase : Phase
  currentTask : Option TaskId
  schedCtx : Option (Fin n)
  shouldStop : Bool
  deriving DecidableEq, Repr

/-- The scheduler with `n` workers. `cancelling` is the task whose `cancelled_`
flag `cancel_task` has stored and whose state it is about to store; the call holds
`global_mutex_` meanwhile. `retired` is a history of the decrements of
`active_tasks_`. -/
structure TaskScheduler (n : ℕ) where
  nextTaskId : TaskId
  activeTasks : ℕ
  globalQueue : List TaskId
  activeTaskMap : Finset TaskId
  workers : Fin n → Worker n
  tasks : TaskId → Task n
  cancelling : Option TaskId
  retired : List TaskId

/-- Where control goes when a task's function is over. -/
inductive SwitchBack
  /-- To the worker that switched into the task. -/
  | resumer
  /-- To the context in `uc_link`, which is what `ucontext` does. -/
  | ucLink
  deriving DecidableEq, Repr

/-- The worker in whose context a thread goes on when the function is over. -/
def SwitchBack.worker {n : ℕ} (back : SwitchBack) (worker : Fin n) (task : Task n) : Fin n :=
  match back with
  | .resumer => worker
  | .ucLink => task.ucLink.getD worker

/-- What a fiber does next. Outside the task function there is only one thing to
do, `advance`. -/
inductive FiberAction
  | advance
  | compute
  | yield
  | spawn
  | return
  | throw
  /-- Catch an exception inside the function. -/
  | handle
  deriving DecidableEq, Repr

/-- What `steal_task_fast` leaves open: whether a `try_to_lock` succeeds and which
worker a random attempt targets. -/
structure StealChoice (n : ℕ) where
  locked : Bool
  target : Fin n
  deriving DecidableEq, Repr

/-- One step of one thread. -/
inductive SchedulerEvent (n : ℕ)
  /-- An outside thread enters `spawn`. -/
  | spawn
  | spawnCount (task : TaskId)
  | spawnSchedule (task : TaskId)
  | spawnRegister (task : TaskId)
  /-- `cancel_task` up to the store of `cancelled_`; `expired` is the failure of
  the weak reference. -/
  | cancelTask (task : TaskId) (expired : Bool)
  /-- The rest of `cancel_task`. -/
  | cancelStore
  | stop (worker : Fin n)
  | worker (worker : Fin n) (choice : StealChoice n)
  | fiber (worker : Fin n) (action : FiberAction)
  deriving DecidableEq, Repr

namespace TaskScheduler

open Kode.Library

variable {n : ℕ}

/-- A `Task` that does not exist yet. -/
def unbornTask : Task n :=
  { state := .created, cancelled := false, ucLink := none, point := .entry,
    spawn := .unborn, spawner := none }

/-- A worker whose thread has just been started. -/
def freshWorker : Worker n :=
  { localQueue := [], phase := .top, currentTask := none, schedCtx := none,
    shouldStop := false }

/-- The scheduler after `start`. -/
def start (n : ℕ) : TaskScheduler n :=
  { nextTaskId := 1, activeTasks := 0, globalQueue := [], activeTaskMap := ∅,
    workers := fun _ => freshWorker, tasks := fun _ => unbornTask, cancelling := none,
    retired := [] }

/-- Change one task. -/
def setTask (scheduler : TaskScheduler n) (task : TaskId) (change : Task n → Task n) :
    TaskScheduler n :=
  { scheduler with
    tasks := Function.update scheduler.tasks task (change (scheduler.tasks task)) }

/-- Change one worker. -/
def setWorker (scheduler : TaskScheduler n) (worker : Fin n)
    (change : Worker n → Worker n) : TaskScheduler n :=
  { scheduler with
    workers := Function.update scheduler.workers worker (change (scheduler.workers worker)) }

/-- Move one worker to another phase. -/
def setPhase (scheduler : TaskScheduler n) (worker : Fin n) (phase : Phase) :
    TaskScheduler n :=
  scheduler.setWorker worker fun current => { current with phase }

/-- Move one fiber to another point. -/
def setPoint (scheduler : TaskScheduler n) (task : TaskId) (point : FiberPoint) :
    TaskScheduler n :=
  scheduler.setTask task fun current => { current with point }

/-- A store to a task's `state_`, after which its fiber stands at `point`. -/
def storeState (scheduler : TaskScheduler n) (task : TaskId) (state : TaskState)
    (point : FiberPoint) : TaskScheduler n :=
  scheduler.setTask task fun current => { current with state, point }

/-! ## `spawn` and `cancel_task` -/

/-- The first lines of `spawn`: take an id and make the task. -/
def allocate (scheduler : TaskScheduler n) (spawner : Option TaskId) : TaskScheduler n :=
  { scheduler with nextTaskId := scheduler.nextTaskId + 1 }.setTask scheduler.nextTaskId
    fun _ => { unbornTask with spawn := .allocated, spawner }

/-- `active_tasks_.fetch_add(1)`. -/
def spawnCount (scheduler : TaskScheduler n) (task : TaskId) : Option (TaskScheduler n) :=
  if (scheduler.tasks task).spawn = .allocated then
    some ({ scheduler with activeTasks := scheduler.activeTasks + 1 }.setTask task
      fun current => { current with spawn := .counted })
  else none

/-- `schedule_task(task)`. No caller names a preferred worker, so the task goes to
the global queue. -/
def spawnSchedule (scheduler : TaskScheduler n) (task : TaskId) : Option (TaskScheduler n) :=
  if (scheduler.tasks task).spawn = .counted ∧ scheduler.cancelling = none then
    some ({ scheduler with globalQueue := scheduler.globalQueue ++ [task] }.setTask task
      fun current => { current with spawn := .scheduled })
  else none

/-- The insertion into `active_task_map_` and the return of `spawn`. -/
def spawnRegister (scheduler : TaskScheduler n) (task : TaskId) : Option (TaskScheduler n) :=
  if (scheduler.tasks task).spawn = .scheduled ∧ scheduler.cancelling = none then
    let registered := { scheduler with
      activeTaskMap := insert task scheduler.activeTaskMap }.setTask task
        fun current => { current with spawn := .registered }
    match (scheduler.tasks task).spawner with
    | none => some registered
    | some parent => some (registered.setPoint parent .body)
  else none

/-- Some queue or some worker still refers to the task. -/
def Alive (scheduler : TaskScheduler n) (task : TaskId) : Prop :=
  task ∈ scheduler.globalQueue ∨
    ∃ worker, task ∈ (scheduler.workers worker).localQueue ∨
      (scheduler.workers worker).phase.holds = some task

instance (scheduler : TaskScheduler n) (task : TaskId) : Decidable (scheduler.Alive task) :=
  inferInstanceAs (Decidable (_ ∨ _))

/-- `cancel_task` up to and including the store of `cancelled_`. The weak
reference can only fail once nothing refers to the task; it may still succeed
then, because a thread that is leaving `spawn` also holds the task. -/
def cancelTask (scheduler : TaskScheduler n) (task : TaskId) (expired : Bool) :
    Option (TaskScheduler n) :=
  if scheduler.cancelling ≠ none then none
  else if task ∉ scheduler.activeTaskMap then some scheduler
  else if expired then
    if scheduler.Alive task then none
    else some { scheduler with activeTaskMap := scheduler.activeTaskMap.erase task }
  else
    some ({ scheduler with cancelling := some task }.setTask task
      fun current => { current with cancelled := true })

/-- `state_ = CANCELLED`, the removal from the map and the end of `cancel_task`. -/
def cancelStore (scheduler : TaskScheduler n) : Option (TaskScheduler n) :=
  match scheduler.cancelling with
  | none => none
  | some task =>
      some ({ scheduler with
        cancelling := none
        activeTaskMap := scheduler.activeTaskMap.erase task }.setTask task
          fun current => { current with state := .cancelled })

/-! ## `worker_loop` -/

/-- `std::max(1UL, floor(log2(num_workers_)) + 1)`. -/
def maxAttempts (n : ℕ) : ℕ := max 1 (Nat.log2 n + 1)

/-- Take the oldest task of a local queue for `worker`. -/
def takeLocal (scheduler : TaskScheduler n) (worker target : Fin n) (task : TaskId) :
    TaskScheduler n :=
  (scheduler.setWorker target fun current =>
    { current with localQueue := current.localQueue.tail }).setPhase worker (.prepare task)

/-- Take the oldest task of the global queue for `worker`. -/
def takeGlobal (scheduler : TaskScheduler n) (worker : Fin n) (task : TaskId) :
    TaskScheduler n :=
  { scheduler with globalQueue := scheduler.globalQueue.tail }.setPhase worker (.prepare task)

/-- Set `current_task` and `g_sched_ctx`, make the context on the first run, and
switch into the fiber. A resumed fiber goes on behind its switch in `yield`. -/
def enterFiber (scheduler : TaskScheduler n) (worker : Fin n) (task : TaskId) :
    TaskScheduler n :=
  (scheduler.setWorker worker fun current =>
    { current with
      phase := .inFiber task, currentTask := some task, schedCtx := some worker }).setTask task
    fun current =>
      { current with
        ucLink := some (current.ucLink.getD worker)
        point := if current.point = .suspended then .yieldResumed else current.point }

/-- `active_tasks_.fetch_sub(1)` on an unsigned 64-bit counter. -/
def fetchSub (counter : ℕ) : ℕ := if counter = 0 then 2 ^ 64 - 1 else counter - 1

/-- One step of a worker thread outside the fibers. -/
def workerStep (scheduler : TaskScheduler n) (worker : Fin n) (choice : StealChoice n) :
    Option (TaskScheduler n) :=
  match (scheduler.workers worker).phase with
  | .top =>
      some (scheduler.setPhase worker
        (if (scheduler.workers worker).shouldStop then .stopped else .popLocal))
  | .popLocal =>
      match (scheduler.workers worker).localQueue with
      | task :: _ => some (scheduler.takeLocal worker worker task)
      | [] => some (scheduler.setPhase worker .stealGlobal)
  | .stealGlobal =>
      -- `cancel_task` holds `global_mutex_` between its two stores.
      if choice.locked ∧ scheduler.cancelling = none then
        match scheduler.globalQueue with
        | task :: _ => some (scheduler.takeGlobal worker task)
        | [] => some (scheduler.setPhase worker (.stealRandom 0))
      else some (scheduler.setPhase worker (.stealRandom 0))
  | .stealRandom attempt =>
      if attempt < maxAttempts n then
        -- The inner loop redraws the target until it is another worker.
        if choice.target = worker ∧ 1 < n then none
        else
          match choice.locked, (scheduler.workers choice.target).localQueue with
          | true, task :: _ => some (scheduler.takeLocal worker choice.target task)
          | _, _ => some (scheduler.setPhase worker (.stealRandom (attempt + 1)))
      else some (scheduler.setPhase worker (.stealScan 1))
  | .stealScan offset =>
      if offset < n then
        let target : Fin n := ⟨(worker + offset) % n, Nat.mod_lt _ worker.pos⟩
        match choice.locked, (scheduler.workers target).localQueue with
        | true, task :: _ :: _ => some (scheduler.takeLocal worker target task)
        | _, _ => some (scheduler.setPhase worker (.stealScan (offset + 1)))
      else some (scheduler.setPhase worker .top)
  | .prepare task => some (scheduler.enterFiber worker task)
  | .inFiber _ => none
  | .switchedBack task =>
      some (scheduler.setPhase worker
        (if (scheduler.tasks task).state = .runnable then .reenqueue task else .retire task))
  | .reenqueue task =>
      some (scheduler.setWorker worker fun current =>
        { current with localQueue := current.localQueue ++ [task], phase := .clear task })
  | .retire task =>
      some ({ scheduler with
        activeTasks := fetchSub scheduler.activeTasks
        retired := scheduler.retired ++ [task] }.setPhase worker (.clear task))
  | .clear _ =>
      some (scheduler.setWorker worker fun current =>
        { current with currentTask := none, phase := .top })
  | .strayReenqueue frame task =>
      if inRange : frame < n then
        some ((scheduler.setWorker ⟨frame, inRange⟩ fun current =>
          { current with localQueue := current.localQueue ++ [task] }).setPhase worker .derailed)
      else none
  | .strayRetire task =>
      some ({ scheduler with
        activeTasks := fetchSub scheduler.activeTasks
        retired := scheduler.retired ++ [task] }.setPhase worker .derailed)
  | .stopped => none
  | .derailed => none

/-! ## `Task::invoke`, `Task::yield` and the task function -/

/-- What a thread meets in the context of another worker. While that worker is
inside a fiber, its stack stands at the switch into it, and the thread goes on
behind that switch with the worker's own local `task`. -/
def strayPhase (scheduler : TaskScheduler n) (target : Fin n) : Phase :=
  match (scheduler.workers target).phase with
  | .inFiber found =>
      if (scheduler.tasks found).state = .runnable then .strayReenqueue target found
      else .strayRetire found
  | _ => .derailed

theorem strayPhase_ne_inFiber (scheduler : TaskScheduler n) (target : Fin n) (task : TaskId) :
    scheduler.strayPhase target ≠ .inFiber task := by
  unfold strayPhase
  split
  · split_ifs <;> simp
  · simp

/-- The thread of `worker` leaves the fiber of `task` and goes on in the context of
`target`. -/
def leaveFiber (scheduler : TaskScheduler n) (worker target : Fin n) (task : TaskId) :
    TaskScheduler n :=
  scheduler.setPhase worker
    (if target = worker then .switchedBack task else scheduler.strayPhase target)

/-- One step of the fiber of `task` on `worker`. -/
def fiberStep (back : SwitchBack) (scheduler : TaskScheduler n) (worker : Fin n)
    (task : TaskId) (action : FiberAction) : Option (TaskScheduler n) :=
  match (scheduler.tasks task).point, action with
  | .entry, .advance =>
      some (scheduler.setPoint task
        (if (scheduler.tasks task).cancelled then .invokeCancelled else .invokeRun))
  | .invokeCancelled, .advance => some (scheduler.storeState task .cancelled .over)
  | .invokeRun, .advance => some (scheduler.storeState task .running .body)
  | .body, .compute => some scheduler
  | .body, .yield =>
      -- `yield_current_task` yields whatever the worker records as current.
      if (scheduler.workers worker).currentTask = some task then
        some (scheduler.setPoint task .yieldCheck)
      else some scheduler
  | .body, .spawn =>
      some ((scheduler.allocate (some task)).setPoint task (.spawning scheduler.nextTaskId))
  | .body, .return => some (scheduler.setPoint task .returning)
  | .body, .throw => some (scheduler.setPoint task .unwinding)
  | .yieldCheck, .advance =>
      some (scheduler.setPoint task
        (if (scheduler.tasks task).cancelled then .unwinding else .yieldStore))
  | .yieldStore, .advance => some (scheduler.storeState task .runnable .yieldSwitch)
  | .yieldSwitch, .advance =>
      match (scheduler.workers worker).schedCtx with
      | some target => some ((scheduler.setPoint task .suspended).leaveFiber worker target task)
      | none => some (scheduler.setPoint task .yieldResumed)
  | .yieldResumed, .advance =>
      some (scheduler.setPoint task
        (if (scheduler.tasks task).cancelled then .unwinding else .body))
  | .unwinding, .advance => some (scheduler.storeState task .completed .over)
  | .unwinding, .handle => some (scheduler.setPoint task .body)
  | .returning, .advance => some (scheduler.storeState task .completed .over)
  | .over, .advance =>
      some (scheduler.leaveFiber worker (back.worker worker (scheduler.tasks task)) task)
  | _, _ => none

/-- One step of any thread. -/
def step (back : SwitchBack) (scheduler : TaskScheduler n) :
    SchedulerEvent n → Option (TaskScheduler n)
  | .spawn => some (scheduler.allocate none)
  | .spawnCount task => scheduler.spawnCount task
  | .spawnSchedule task => scheduler.spawnSchedule task
  | .spawnRegister task => scheduler.spawnRegister task
  | .cancelTask task expired => scheduler.cancelTask task expired
  | .cancelStore => scheduler.cancelStore
  | .stop worker => some (scheduler.setWorker worker fun current =>
      { current with shouldStop := true })
  | .worker worker choice => scheduler.workerStep worker choice
  | .fiber worker action =>
      match (scheduler.workers worker).phase with
      | .inFiber task => scheduler.fiberStep back worker task action
      | _ => none

/-! ## What a step can do

Every invariant is proved by going through these three lists, never through the
step functions themselves. -/

/-- Everything `spawn`, `cancel_task` and `stop` can do. -/
inductive SharedMove (scheduler : TaskScheduler n) :
    SchedulerEvent n → TaskScheduler n → Prop
  | allocate : SharedMove scheduler .spawn (scheduler.allocate none)
  | count (task : TaskId) (stage : (scheduler.tasks task).spawn = .allocated) :
      SharedMove scheduler (.spawnCount task)
        ({ scheduler with activeTasks := scheduler.activeTasks + 1 }.setTask task
          fun current => { current with spawn := .counted })
  | schedule (task : TaskId) (stage : (scheduler.tasks task).spawn = .counted) :
      SharedMove scheduler (.spawnSchedule task)
        ({ scheduler with globalQueue := scheduler.globalQueue ++ [task] }.setTask task
          fun current => { current with spawn := .scheduled })
  | register (task : TaskId) (stage : (scheduler.tasks task).spawn = .scheduled)
      (outside : (scheduler.tasks task).spawner = none) :
      SharedMove scheduler (.spawnRegister task)
        ({ scheduler with activeTaskMap := insert task scheduler.activeTaskMap }.setTask task
          fun current => { current with spawn := .registered })
  | registerChild (task parent : TaskId) (stage : (scheduler.tasks task).spawn = .scheduled)
      (inside : (scheduler.tasks task).spawner = some parent) :
      SharedMove scheduler (.spawnRegister task)
        (({ scheduler with activeTaskMap := insert task scheduler.activeTaskMap }.setTask task
          fun current => { current with spawn := .registered }).setPoint parent .body)
  | ignore (task : TaskId) (expired : Bool) :
      SharedMove scheduler (.cancelTask task expired) scheduler
  | expire (task : TaskId) (expired : Bool) :
      SharedMove scheduler (.cancelTask task expired)
        { scheduler with activeTaskMap := scheduler.activeTaskMap.erase task }
  | cancelFlag (task : TaskId) (expired : Bool) (known : task ∈ scheduler.activeTaskMap) :
      SharedMove scheduler (.cancelTask task expired)
        ({ scheduler with cancelling := some task }.setTask task
          fun current => { current with cancelled := true })
  | cancelState (task : TaskId) (cancelling : scheduler.cancelling = some task) :
      SharedMove scheduler .cancelStore
        ({ scheduler with
          cancelling := none
          activeTaskMap := scheduler.activeTaskMap.erase task }.setTask task
            fun current => { current with state := .cancelled })
  | stop (worker : Fin n) :
      SharedMove scheduler (.stop worker)
        (scheduler.setWorker worker fun current => { current with shouldStop := true })

theorem spawnCount_move {scheduler target : TaskScheduler n} {task : TaskId}
    (taken : scheduler.spawnCount task = some target) :
    SharedMove scheduler (.spawnCount task) target := by
  unfold spawnCount at taken
  split_ifs at taken with stage
  obtain rfl := Option.some.inj taken
  exact .count task stage

theorem spawnSchedule_move {scheduler target : TaskScheduler n} {task : TaskId}
    (taken : scheduler.spawnSchedule task = some target) :
    SharedMove scheduler (.spawnSchedule task) target := by
  unfold spawnSchedule at taken
  split_ifs at taken with enabled
  obtain rfl := Option.some.inj taken
  exact .schedule task enabled.1

theorem spawnRegister_move {scheduler target : TaskScheduler n} {task : TaskId}
    (taken : scheduler.spawnRegister task = some target) :
    SharedMove scheduler (.spawnRegister task) target := by
  unfold spawnRegister at taken
  split_ifs at taken with enabled
  dsimp only at taken
  split at taken
  · rename_i outside
    obtain rfl := Option.some.inj taken
    exact .register task enabled.1 outside
  · rename_i parent inside
    obtain rfl := Option.some.inj taken
    exact .registerChild task parent enabled.1 inside

theorem cancelTask_move {scheduler target : TaskScheduler n} {task : TaskId} {expired : Bool}
    (taken : scheduler.cancelTask task expired = some target) :
    SharedMove scheduler (.cancelTask task expired) target := by
  unfold cancelTask at taken
  split_ifs at taken with _ known
  · obtain rfl := Option.some.inj taken
    exact .expire task _
  · obtain rfl := Option.some.inj taken
    exact .cancelFlag task _ known
  · obtain rfl := Option.some.inj taken
    exact .ignore task _

theorem cancelStore_move {scheduler target : TaskScheduler n}
    (taken : scheduler.cancelStore = some target) :
    SharedMove scheduler .cancelStore target := by
  unfold cancelStore at taken
  split at taken
  · cases taken
  · rename_i task cancelling
    obtain rfl := Option.some.inj taken
    exact .cancelState task cancelling

/-- The worker is at an attempt of `steal_task_fast` that takes a task out of the
local queue of another worker. -/
def StealsFrom (scheduler : TaskScheduler n) (worker : Fin n) (choice : StealChoice n)
    (victim : Fin n) : Prop :=
  victim ≠ worker ∧ choice.locked = true ∧
    ((∃ attempt, (scheduler.workers worker).phase = .stealRandom attempt ∧
        attempt < maxAttempts n ∧ choice.target = victim ∧
        (scheduler.workers victim).localQueue ≠ []) ∨
      ∃ offset, (scheduler.workers worker).phase = .stealScan offset ∧
        offset < n ∧ (victim : ℕ) = (worker + offset) % n ∧
        1 < (scheduler.workers victim).localQueue.length)

/-- Everything a worker thread can do outside the fibers. -/
inductive WorkerMove (scheduler : TaskScheduler n) (worker : Fin n) (choice : StealChoice n) :
    TaskScheduler n → Prop
  /-- Look for a task, or leave the loop. -/
  | search (phase : Phase) (before : (scheduler.workers worker).phase.holds = none)
      (after : phase.holds = none) (onTrack : phase.onTrack = true) :
      WorkerMove scheduler worker choice (scheduler.setPhase worker phase)
  | takeLocal (target : Fin n) (task : TaskId) (rest : List TaskId)
      (before : (scheduler.workers worker).phase.holds = none)
      (queue : (scheduler.workers target).localQueue = task :: rest)
      (source : target = worker ∨ scheduler.StealsFrom worker choice target) :
      WorkerMove scheduler worker choice (scheduler.takeLocal worker target task)
  | takeGlobal (task : TaskId) (rest : List TaskId)
      (before : (scheduler.workers worker).phase.holds = none)
      (queue : scheduler.globalQueue = task :: rest) :
      WorkerMove scheduler worker choice (scheduler.takeGlobal worker task)
  | enter (task : TaskId) (before : (scheduler.workers worker).phase = .prepare task) :
      WorkerMove scheduler worker choice (scheduler.enterFiber worker task)
  | keep (task : TaskId) (before : (scheduler.workers worker).phase = .switchedBack task)
      (state : (scheduler.tasks task).state = .runnable) :
      WorkerMove scheduler worker choice (scheduler.setPhase worker (.reenqueue task))
  | discard (task : TaskId) (before : (scheduler.workers worker).phase = .switchedBack task)
      (state : (scheduler.tasks task).state ≠ .runnable) :
      WorkerMove scheduler worker choice (scheduler.setPhase worker (.retire task))
  | reenqueue (task : TaskId) (before : (scheduler.workers worker).phase = .reenqueue task) :
      WorkerMove scheduler worker choice (scheduler.setWorker worker fun current =>
        { current with localQueue := current.localQueue ++ [task], phase := .clear task })
  | retire (task : TaskId) (before : (scheduler.workers worker).phase = .retire task) :
      WorkerMove scheduler worker choice ({ scheduler with
        activeTasks := fetchSub scheduler.activeTasks
        retired := scheduler.retired ++ [task] }.setPhase worker (.clear task))
  | clear (task : TaskId) (before : (scheduler.workers worker).phase = .clear task) :
      WorkerMove scheduler worker choice (scheduler.setWorker worker fun current =>
        { current with currentTask := none, phase := .top })
  | strayReenqueue (frame : Fin n) (task : TaskId)
      (before : (scheduler.workers worker).phase = .strayReenqueue frame task) :
      WorkerMove scheduler worker choice ((scheduler.setWorker frame fun current =>
        { current with localQueue := current.localQueue ++ [task] }).setPhase worker .derailed)
  | strayRetire (task : TaskId)
      (before : (scheduler.workers worker).phase = .strayRetire task) :
      WorkerMove scheduler worker choice ({ scheduler with
        activeTasks := fetchSub scheduler.activeTasks
        retired := scheduler.retired ++ [task] }.setPhase worker .derailed)

theorem workerStep_move {scheduler target : TaskScheduler n} {worker : Fin n}
    {choice : StealChoice n} (taken : scheduler.workerStep worker choice = some target) :
    WorkerMove scheduler worker choice target := by
  unfold workerStep at taken
  split at taken
  case h_1 phase =>
      obtain rfl := Option.some.inj taken
      refine .search _ (by simp [phase, Phase.holds, Phase.executing]) ?_ ?_ <;>
        split_ifs <;> rfl
  case h_2 phase =>
      have before : (scheduler.workers worker).phase.holds = none := by rw [phase]; rfl
      split at taken
      · rename_i task rest queue
        obtain rfl := Option.some.inj taken
        exact .takeLocal worker task rest before queue (Or.inl rfl)
      · obtain rfl := Option.some.inj taken
        exact .search _ before rfl rfl
  case h_3 phase =>
      have before : (scheduler.workers worker).phase.holds = none := by rw [phase]; rfl
      split_ifs at taken
      · split at taken
        · rename_i task rest queue
          obtain rfl := Option.some.inj taken
          exact .takeGlobal task rest before queue
        · obtain rfl := Option.some.inj taken
          exact .search _ before rfl rfl
      · obtain rfl := Option.some.inj taken
        exact .search _ before rfl rfl
  case h_4 attempt phase =>
      have before : (scheduler.workers worker).phase.holds = none := by rw [phase]; rfl
      split_ifs at taken
      · rename_i inTime _
        split at taken
        · rename_i task rest locked queue
          obtain rfl := Option.some.inj taken
          refine .takeLocal choice.target task rest before queue ?_
          by_cases own : choice.target = worker
          · exact Or.inl own
          · exact Or.inr ⟨own, locked, Or.inl ⟨attempt, phase, inTime, rfl, by simp [queue]⟩⟩
        · obtain rfl := Option.some.inj taken
          exact .search _ before rfl rfl
      · obtain rfl := Option.some.inj taken
        exact .search _ before rfl rfl
  case h_5 offset phase =>
      have before : (scheduler.workers worker).phase.holds = none := by rw [phase]; rfl
      split_ifs at taken
      · rename_i inRange
        simp only at taken
        split at taken
        · rename_i task second rest locked queue
          obtain rfl := Option.some.inj taken
          refine .takeLocal _ task (second :: rest) before queue ?_
          by_cases own : (⟨(worker + offset) % n, Nat.mod_lt _ worker.pos⟩ : Fin n) = worker
          · exact Or.inl own
          · exact Or.inr ⟨own, locked, Or.inr ⟨offset, phase, inRange, rfl, by simp [queue]⟩⟩
        · obtain rfl := Option.some.inj taken
          exact .search _ before rfl rfl
      · obtain rfl := Option.some.inj taken
        exact .search _ before rfl rfl
  case h_6 task phase =>
      obtain rfl := Option.some.inj taken
      exact .enter task phase
  case h_7 => cases taken
  case h_8 task phase =>
      obtain rfl := Option.some.inj taken
      split_ifs with state
      · exact .keep task phase state
      · exact .discard task phase state
  case h_9 task phase =>
      obtain rfl := Option.some.inj taken
      exact .reenqueue task phase
  case h_10 task phase =>
      obtain rfl := Option.some.inj taken
      exact .retire task phase
  case h_11 task phase =>
      obtain rfl := Option.some.inj taken
      exact .clear task phase
  case h_12 frame task phase =>
      split_ifs at taken with inRange
      obtain rfl := Option.some.inj taken
      exact .strayReenqueue ⟨frame, inRange⟩ task phase
  case h_13 task phase =>
      obtain rfl := Option.some.inj taken
      exact .strayRetire task phase
  case h_14 => cases taken
  case h_15 => cases taken

/-- A worker thread that is inside a fiber takes no step of `worker_loop`. -/
theorem WorkerMove.outside {scheduler target : TaskScheduler n} {worker : Fin n}
    {choice : StealChoice n} (move : WorkerMove scheduler worker choice target) (task : TaskId) :
    (scheduler.workers worker).phase ≠ .inFiber task := by
  intro inside
  cases move <;> simp_all [Phase.holds, Phase.executing]

/-- The points a fiber moves between without a store to its state. -/
inductive PointMove (task : Task n) : FiberPoint → Prop
  | refuse (before : task.point = .entry) (cancelled : task.cancelled = true) :
      PointMove task .invokeCancelled
  | proceed (before : task.point = .entry) (cancelled : task.cancelled = false) :
      PointMove task .invokeRun
  | yield (before : task.point = .body) : PointMove task .yieldCheck
  | return (before : task.point = .body) : PointMove task .returning
  | throw (before : task.point = .body) : PointMove task .unwinding
  | handle (before : task.point = .unwinding) : PointMove task .body
  | yieldThrow (before : task.point = .yieldCheck ∨ task.point = .yieldResumed)
      (cancelled : task.cancelled = true) : PointMove task .unwinding
  | yieldStart (before : task.point = .yieldCheck) (cancelled : task.cancelled = false) :
      PointMove task .yieldStore
  | yieldReturn (before : task.point = .yieldResumed) (cancelled : task.cancelled = false) :
      PointMove task .body

/-- The stores of a fiber to its own state. -/
inductive StoreMove : FiberPoint → TaskState → FiberPoint → Prop
  | refused : StoreMove .invokeCancelled .cancelled .over
  | run : StoreMove .invokeRun .running .body
  | yielded : StoreMove .yieldStore .runnable .yieldSwitch
  | unwound : StoreMove .unwinding .completed .over
  | returned : StoreMove .returning .completed .over

/-- Everything a fiber can do. -/
inductive FiberMove (back : SwitchBack) (scheduler : TaskScheduler n) (worker : Fin n)
    (task : TaskId) : TaskScheduler n → Prop
  | stay (before : (scheduler.tasks task).point = .body) :
      FiberMove back scheduler worker task scheduler
  | goto (point : FiberPoint) (move : PointMove (scheduler.tasks task) point) :
      FiberMove back scheduler worker task (scheduler.setPoint task point)
  | store (state : TaskState) (point : FiberPoint)
      (move : StoreMove (scheduler.tasks task).point state point) :
      FiberMove back scheduler worker task (scheduler.storeState task state point)
  | spawn (before : (scheduler.tasks task).point = .body) :
      FiberMove back scheduler worker task
        ((scheduler.allocate (some task)).setPoint task (.spawning scheduler.nextTaskId))
  | switchOut (target : Fin n) (before : (scheduler.tasks task).point = .yieldSwitch)
      (context : (scheduler.workers worker).schedCtx = some target) :
      FiberMove back scheduler worker task
        ((scheduler.setPoint task .suspended).leaveFiber worker target task)
  /-- Without a scheduler context `yield` only yields the thread. -/
  | noContext (before : (scheduler.tasks task).point = .yieldSwitch)
      (context : (scheduler.workers worker).schedCtx = none) :
      FiberMove back scheduler worker task (scheduler.setPoint task .yieldResumed)
  | finish (before : (scheduler.tasks task).point = .over) :
      FiberMove back scheduler worker task
        (scheduler.leaveFiber worker (back.worker worker (scheduler.tasks task)) task)

/-- A fiber inside `spawn` is moved on by the steps of `spawn` only. -/
theorem FiberMove.notSpawning {back : SwitchBack} {scheduler target : TaskScheduler n}
    {worker : Fin n} {task : TaskId} (move : FiberMove back scheduler worker task target)
    (child : TaskId) : (scheduler.tasks task).point ≠ .spawning child := by
  intro there
  cases move with
  | goto point move => cases move <;> simp_all
  | store state point move => rw [there] at move; cases move
  | _ => simp_all

theorem fiberStep_move {back : SwitchBack} {scheduler target : TaskScheduler n}
    {worker : Fin n} {task : TaskId} {action : FiberAction}
    (taken : scheduler.fiberStep back worker task action = some target) :
    FiberMove back scheduler worker task target := by
  unfold fiberStep at taken
  split at taken
  case h_1 point =>
      obtain rfl := Option.some.inj taken
      split_ifs with cancelled
      · exact .goto _ (.refuse point cancelled)
      · exact .goto _ (.proceed point (by simpa using cancelled))
  case h_2 point =>
      obtain rfl := Option.some.inj taken
      exact .store _ _ (point ▸ .refused)
  case h_3 point =>
      obtain rfl := Option.some.inj taken
      exact .store _ _ (point ▸ .run)
  case h_4 point =>
      obtain rfl := Option.some.inj taken
      exact .stay point
  case h_5 point =>
      split_ifs at taken
      · obtain rfl := Option.some.inj taken
        exact .goto _ (.yield point)
      · obtain rfl := Option.some.inj taken
        exact .stay point
  case h_6 point =>
      obtain rfl := Option.some.inj taken
      exact .spawn point
  case h_7 point =>
      obtain rfl := Option.some.inj taken
      exact .goto _ (.return point)
  case h_8 point =>
      obtain rfl := Option.some.inj taken
      exact .goto _ (.throw point)
  case h_9 point =>
      obtain rfl := Option.some.inj taken
      split_ifs with cancelled
      · exact .goto _ (.yieldThrow (Or.inl point) cancelled)
      · exact .goto _ (.yieldStart point (by simpa using cancelled))
  case h_10 point =>
      obtain rfl := Option.some.inj taken
      exact .store _ _ (point ▸ .yielded)
  case h_11 point =>
      split at taken
      · rename_i context
        obtain rfl := Option.some.inj taken
        exact .switchOut _ point context
      · rename_i context
        obtain rfl := Option.some.inj taken
        exact .noContext point context
  case h_12 point =>
      obtain rfl := Option.some.inj taken
      split_ifs with cancelled
      · exact .goto _ (.yieldThrow (Or.inr point) cancelled)
      · exact .goto _ (.yieldReturn point (by simpa using cancelled))
  case h_13 point =>
      obtain rfl := Option.some.inj taken
      exact .store _ _ (point ▸ .unwound)
  case h_14 point =>
      obtain rfl := Option.some.inj taken
      exact .goto _ (.handle point)
  case h_15 point =>
      obtain rfl := Option.some.inj taken
      exact .store _ _ (point ▸ .returned)
  case h_16 point =>
      obtain rfl := Option.some.inj taken
      exact .finish point
  case h_17 => cases taken

/-- One step of the scheduler is in one of the three lists. -/
theorem step_move {back : SwitchBack} {scheduler target : TaskScheduler n}
    {event : SchedulerEvent n} (taken : scheduler.step back event = some target) :
    SharedMove scheduler event target ∨
      (∃ worker choice, event = .worker worker choice ∧
        WorkerMove scheduler worker choice target) ∨
      ∃ worker action task, event = .fiber worker action ∧
        (scheduler.workers worker).phase = .inFiber task ∧
        FiberMove back scheduler worker task target := by
  cases event with
  | spawn =>
      obtain rfl := Option.some.inj taken
      exact Or.inl .allocate
  | spawnCount task => exact Or.inl (spawnCount_move taken)
  | spawnSchedule task => exact Or.inl (spawnSchedule_move taken)
  | spawnRegister task => exact Or.inl (spawnRegister_move taken)
  | cancelTask task expired => exact Or.inl (cancelTask_move taken)
  | cancelStore => exact Or.inl (cancelStore_move taken)
  | stop worker =>
      obtain rfl := Option.some.inj taken
      exact Or.inl (.stop worker)
  | worker worker choice =>
      exact Or.inr (Or.inl ⟨worker, choice, rfl, workerStep_move taken⟩)
  | fiber worker action =>
      simp only [step] at taken
      split at taken
      · rename_i task inside
        exact Or.inr (Or.inr ⟨worker, action, task, rfl, inside, fiberStep_move taken⟩)
      · cases taken

end TaskScheduler

end Kode.Concurrency
