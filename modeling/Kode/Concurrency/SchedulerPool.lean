/-
# The scheduler is a pool of work

Without its queues, its fibers and the way its workers look for a task, `TaskScheduler` is a
pool: `schedule_task` hands a task in, a worker takes it, puts it back when it has yielded,
and retires it when it is over. An observer who writes down these moments, whatever thread
causes them, writes down a run of the pool, and the pool at its end says of every task where
the scheduler has it.

So a task is handed in once; then one worker after the other takes it and puts it back, each
its own stint; the worker that takes it last retires it, and nobody takes it after that. A
worker has one task at a time.
-/

import Kode.Concurrency.SchedulerReturn
import Kode.Library.WorkPool

namespace Kode.Concurrency

open Kode.Library

variable {n : ℕ}

/-- What a worker does to the pool when it goes from one phase to the next. -/
def Phase.poolAction (worker : Fin n) (before after : Phase) :
    Option (PoolAction (Fin n) TaskId) :=
  match before with
  | .reenqueue task => some ⟨task, .giveBack worker⟩
  | .retire task => some ⟨task, .finish worker⟩
  | _ =>
      match after with
      | .prepare task => some ⟨task, .take worker⟩
      | _ => none

theorem Phase.poolAction_of_search {worker : Fin n} {before after : Phase}
    (idle : before.holds = none) (still : after.holds = none) :
    Phase.poolAction worker before after = none := by
  have notTaken : ∀ task, after ≠ .prepare task := by
    rintro task rfl
    cases still
  cases before with
  | reenqueue task | retire task => cases idle
  | _ => cases after <;> first | rfl | exact absurd rfl (notTaken _)

theorem Phase.poolAction_of_take {worker : Fin n} {before : Phase} (idle : before.holds = none)
    (task : TaskId) :
    Phase.poolAction worker before (.prepare task) = some ⟨task, .take worker⟩ := by
  cases before <;> first | rfl | cases idle

namespace TaskScheduler

/-- What a step does to the pool. -/
def poolAction (before : TaskScheduler n) (event : SchedulerEvent n) (after : TaskScheduler n) :
    Option (PoolAction (Fin n) TaskId) :=
  match event with
  | .spawnSchedule task => some ⟨task, .submit⟩
  | .worker worker _ =>
      Phase.poolAction worker (before.workers worker).phase (after.workers worker).phase
  | _ => none

/-- What the pool says of a task at a place. -/
def Place.stage : Place n → JobStage (Fin n)
  | .globalQueue | .localQueue _ => .waiting
  | .executing worker => .held worker
  | .retired => .finished

/-- The pool says of every task where it is. -/
structure PlacedIn (scheduler : TaskScheduler n) (pool : WorkPool (Fin n) TaskId) : Prop where
  absent : ∀ task, (scheduler.tasks task).spawn.isScheduled = false → pool.stage task = .absent
  placed : ∀ task place, 0 < scheduler.timesAt task place → pool.stage task = place.stage

variable {scheduler target : TaskScheduler n} {pool : WorkPool (Fin n) TaskId}

/-- So it knows what the workers have in their hands. -/
theorem PlacedIn.hands (placedIn : scheduler.PlacedIn pool) (sound : scheduler.ledger.Sound)
    (worker : Fin n) : pool.hands worker = (scheduler.workers worker).phase.executing := by
  cases held : (scheduler.workers worker).phase.executing with
  | some task =>
      have stage := placedIn.placed task (.executing worker) (timesAt_executing_pos.mpr held)
      exact (pool.agree worker task).mp stage
  | none =>
      rw [Option.eq_none_iff_forall_ne_some]
      intro task taken
      have stage : pool.stage task = .held worker := (pool.agree worker task).mpr taken
      cases scheduled : (scheduler.tasks task).spawn.isScheduled with
      | false =>
          rw [placedIn.absent task scheduled] at stage
          cases stage
      | true =>
          obtain ⟨place, here, -⟩ := place_of_scheduled sound scheduled
          have positive : 0 < scheduler.timesAt task place := here ▸ Nat.one_pos
          rw [placedIn.placed task place positive] at stage
          -- Only in the hands of this worker would a task be in this stage.
          cases place with
          | executing other =>
              obtain rfl : other = worker := JobStage.held.inj stage
              rw [timesAt_executing_pos, held] at positive
              cases positive
          | _ => cases stage

/-! ## Steps that move no task -/

theorem timesAt_congr {task : TaskId}
    (global : target.globalQueue.count task = scheduler.globalQueue.count task)
    (queues : ∀ v, (target.workers v).localQueue.count task =
      (scheduler.workers v).localQueue.count task)
    (hands : ∀ v, (target.workers v).phase.executing = some task ↔
      (scheduler.workers v).phase.executing = some task)
    (retired : target.retired.count task = scheduler.retired.count task) (place : Place n) :
    target.timesAt task place = scheduler.timesAt task place := by
  cases place with
  | globalQueue => exact global
  | localQueue v => exact queues v
  | executing v => simp only [timesAt, hands v]
  | retired => exact retired

theorem PlacedIn.stay (placedIn : scheduler.PlacedIn pool)
    (stages : ∀ t, (target.tasks t).spawn.isScheduled = (scheduler.tasks t).spawn.isScheduled)
    (places : ∀ t place, target.timesAt t place = scheduler.timesAt t place) :
    target.PlacedIn pool where
  absent t unscheduled := placedIn.absent t (stages t ▸ unscheduled)
  placed t place here := placedIn.placed t place (places t place ▸ here)

/-- The rest of the scheduler is no place. -/
theorem PlacedIn.of_eq (placedIn : scheduler.PlacedIn pool)
    (tasks : target.tasks = scheduler.tasks) (global : target.globalQueue = scheduler.globalQueue)
    (workers : target.workers = scheduler.workers)
    (retired : target.retired = scheduler.retired) : target.PlacedIn pool := by
  apply placedIn.stay
  · intro t
    rw [tasks]
  · intro t place
    cases place <;> simp only [timesAt, global, workers, retired]

/-- A worker that has the task as often as before, in its queue and in its hands. -/
theorem timesAt_setWorker {worker : Fin n} {change : Worker n → Worker n} {task : TaskId}
    (queue : (change (scheduler.workers worker)).localQueue.count task =
      (scheduler.workers worker).localQueue.count task)
    (hands : (change (scheduler.workers worker)).phase.executing = some task ↔
      (scheduler.workers worker).phase.executing = some task) (place : Place n) :
    (scheduler.setWorker worker change).timesAt task place = scheduler.timesAt task place := by
  apply timesAt_congr
  case global => rfl
  case queues =>
    intro v
    by_cases same : v = worker
    · subst same
      simpa [TaskScheduler.setWorker] using queue
    · simp [TaskScheduler.setWorker, same]
  case hands =>
    intro v
    by_cases same : v = worker
    · subst same
      simpa [TaskScheduler.setWorker] using hands
    · simp [TaskScheduler.setWorker, same]
  case retired => rfl

theorem PlacedIn.setWorker (placedIn : scheduler.PlacedIn pool) {worker : Fin n}
    {change : Worker n → Worker n}
    (queue : (change (scheduler.workers worker)).localQueue =
      (scheduler.workers worker).localQueue)
    (hands : (change (scheduler.workers worker)).phase.executing =
      (scheduler.workers worker).phase.executing) :
    (scheduler.setWorker worker change).PlacedIn pool := by
  apply placedIn.stay
  · intro t
    rfl
  · intro t place
    exact timesAt_setWorker (by rw [queue]) (by rw [hands]) place

/-- One task that is not handed in by this. -/
theorem PlacedIn.setTask (placedIn : scheduler.PlacedIn pool) {task : TaskId}
    {change : Task n → Task n}
    (stage : (change (scheduler.tasks task)).spawn.isScheduled =
      (scheduler.tasks task).spawn.isScheduled) :
    (scheduler.setTask task change).PlacedIn pool := by
  apply placedIn.stay
  · intro t
    by_cases same : t = task
    · subst same
      simpa [TaskScheduler.setTask] using stage
    · simp [TaskScheduler.setTask, same]
  · intro t place
    exact timesAt_congr rfl (fun _ => rfl) (fun _ => Iff.rfl) rfl place

theorem PlacedIn.setPhase (placedIn : scheduler.PlacedIn pool) {worker : Fin n} {phase : Phase}
    (hands : phase.executing = (scheduler.workers worker).phase.executing) :
    (scheduler.setPhase worker phase).PlacedIn pool :=
  placedIn.setWorker rfl hands

/-! ## Steps that move a task -/

/-- The task that the action is about is afterwards where the pool says, and the others
stay. -/
theorem PlacedIn.act (placedIn : scheduler.PlacedIn pool) (sound : target.ledger.Sound)
    {task : TaskId} (event : JobEvent (Fin n)) (enabled : pool.Enabled task event)
    (place : Place n) (here : 0 < target.timesAt task place) (stage : place.stage = event.after)
    (stages : ∀ t, t ≠ task →
      (target.tasks t).spawn.isScheduled = (scheduler.tasks t).spawn.isScheduled)
    (others : ∀ t, t ≠ task → ∀ p, target.timesAt t p = scheduler.timesAt t p) :
    ∃ next, pool.step ⟨task, event⟩ = some next ∧ target.PlacedIn next := by
  refine ⟨pool.perform task event enabled, WorkPool.step_of_enabled enabled, ?_, ?_⟩
  · intro t unscheduled
    have different : t ≠ task := by
      rintro rfl
      rw [timesAt_of_unscheduled sound unscheduled] at here
      cases here
    rw [WorkPool.stage_perform_of_ne enabled different]
    exact placedIn.absent t (stages t different ▸ unscheduled)
  · intro t p there
    by_cases same : t = task
    · subst same
      have only : p = place := by
        by_contra different
        exact there.ne' (alone_of_timesAt sound here different)
      rw [WorkPool.stage_perform_self, only, stage]
    · rw [WorkPool.stage_perform_of_ne enabled same]
      exact placedIn.placed t p (others t same p ▸ there)

/-- What the pool makes of a step, where it sees one. -/
def Follows (target : TaskScheduler n) (pool : WorkPool (Fin n) TaskId) :
    Option (PoolAction (Fin n) TaskId) → Prop
  | none => target.PlacedIn pool
  | some action => ∃ next, pool.step action = some next ∧ target.PlacedIn next

/-- A new task is not handed in yet. -/
theorem PlacedIn.allocate (placedIn : scheduler.PlacedIn pool) (sound : scheduler.ledger.Sound)
    (spawner : Option TaskId) : (scheduler.allocate spawner).PlacedIn pool := by
  have unborn : (scheduler.tasks scheduler.nextTaskId).spawn = .unborn :=
    sound.unborn scheduler.nextTaskId (Nat.le_refl _)
  have numbered : PlacedIn { scheduler with nextTaskId := scheduler.nextTaskId + 1 } pool :=
    placedIn.of_eq rfl rfl rfl rfl
  apply numbered.setTask
  rw [unborn]
  rfl

/-- `spawn`, `cancel_task` and `stop`. -/
theorem PlacedIn.sharedMove (placedIn : scheduler.PlacedIn pool) (before : scheduler.ledger.Sound)
    (sound : target.ledger.Sound) {event : SchedulerEvent n}
    (move : SharedMove scheduler event target) :
    target.Follows pool (scheduler.poolAction event target) := by
  cases move with
  | allocate => exact placedIn.allocate before none
  | count task stage =>
      have counted : PlacedIn { scheduler with activeTasks := scheduler.activeTasks + 1 } pool :=
        placedIn.of_eq rfl rfl rfl rfl
      exact counted.setTask (by rw [stage]; rfl)
  | schedule task stage =>
      have absent : pool.stage task = .absent := placedIn.absent task (by rw [stage]; rfl)
      refine placedIn.act sound .submit absent .globalQueue ?_ rfl ?_ ?_
      · exact timesAt_globalQueue_pos.mpr (List.mem_append_right _ (List.mem_singleton.mpr rfl))
      · intro t different
        simp [TaskScheduler.setTask, different]
      · intro t different place
        apply timesAt_congr
        case global => simp [TaskScheduler.setTask, Ne.symm different]
        case queues => exact fun _ => rfl
        case hands => exact fun _ => Iff.rfl
        case retired => rfl
  | register task stage outside =>
      have entered : PlacedIn { scheduler with
          activeTaskMap := insert task scheduler.activeTaskMap } pool :=
        placedIn.of_eq rfl rfl rfl rfl
      exact entered.setTask (by rw [stage]; rfl)
  | registerChild task parent stage inside =>
      have entered : PlacedIn { scheduler with
          activeTaskMap := insert task scheduler.activeTaskMap } pool :=
        placedIn.of_eq rfl rfl rfl rfl
      have registered : PlacedIn ({ scheduler with
          activeTaskMap := insert task scheduler.activeTaskMap }.setTask task
            fun current => { current with spawn := .registered }) pool :=
        entered.setTask (by rw [stage]; rfl)
      exact registered.setTask rfl
  | ignore => exact placedIn
  | expire task expired =>
      exact placedIn.of_eq rfl rfl rfl rfl
  | cancelFlag task expired known =>
      have begun : PlacedIn { scheduler with cancelling := some task } pool :=
        placedIn.of_eq rfl rfl rfl rfl
      exact begun.setTask rfl
  | cancelState task cancelling =>
      have ended : PlacedIn { scheduler with
          cancelling := none
          activeTaskMap := scheduler.activeTaskMap.erase task } pool :=
        placedIn.of_eq rfl rfl rfl rfl
      exact ended.setTask rfl
  | stop worker => exact placedIn.setWorker rfl rfl

/-- A worker with empty hands gets a task; the others notice nothing. -/
theorem timesAt_prepare {worker : Fin n} {task other : TaskId} (different : other ≠ task)
    (idle : (scheduler.workers worker).phase.executing = none) (place : Place n) :
    (scheduler.setPhase worker (.prepare task)).timesAt other place =
      scheduler.timesAt other place := by
  apply timesAt_setWorker
  case queue => rfl
  case hands => simp [idle, Ne.symm different]

theorem phase_setPhase (worker : Fin n) (phase : Phase) :
    ((scheduler.setPhase worker phase).workers worker).phase = phase := by
  simp [TaskScheduler.setPhase, TaskScheduler.setWorker]

/-- A worker takes a task that waits. -/
theorem PlacedIn.take (placedIn : scheduler.PlacedIn pool) (before : scheduler.ledger.Sound)
    {popped : TaskScheduler n} {worker : Fin n} {task : TaskId}
    (sound : (popped.setPhase worker (.prepare task)).ledger.Sound)
    (idle : (scheduler.workers worker).phase.holds = none)
    (still : (popped.workers worker).phase = (scheduler.workers worker).phase)
    (stages : popped.tasks = scheduler.tasks) {source : Place n}
    (there : 0 < scheduler.timesAt task source) (waits : source.stage = .waiting)
    (others : ∀ t, t ≠ task → ∀ p, popped.timesAt t p = scheduler.timesAt t p)
    {choice : StealChoice n} :
    Follows (popped.setPhase worker (.prepare task)) pool
      (scheduler.poolAction (.worker worker choice) (popped.setPhase worker (.prepare task))) := by
  have seen : scheduler.poolAction (.worker worker choice)
      (popped.setPhase worker (.prepare task)) = some ⟨task, .take worker⟩ := by
    rw [poolAction, phase_setPhase]
    exact Phase.poolAction_of_take idle task
  rw [seen]
  have waiting : pool.stage task = .waiting := (placedIn.placed task source there).trans waits
  have free : pool.hands worker = none := by
    rw [placedIn.hands before, Phase.executing_of_holds idle]
  apply placedIn.act sound (.take worker) ⟨waiting, free⟩ (.executing worker)
  case here => rw [timesAt_executing_pos, phase_setPhase, Phase.executing_prepare]
  case stage => rfl
  case stages =>
    intro t _
    exact congrArg (fun tasks => (tasks t).spawn.isScheduled) stages
  case others =>
    intro t different p
    rw [timesAt_prepare different (by rw [still, Phase.executing_of_holds idle])]
    exact others t different p

/-- `worker_loop`. -/
theorem PlacedIn.workerMove (placedIn : scheduler.PlacedIn pool)
    (before : scheduler.ledger.Sound) (sound : target.ledger.Sound) (onTrack : scheduler.OnTrack)
    {worker : Fin n} {choice : StealChoice n}
    (move : WorkerMove scheduler worker choice target) :
    target.Follows pool (scheduler.poolAction (.worker worker choice) target) := by
  have hands := placedIn.hands before worker
  cases move with
  | search phase idle still _ =>
      have unseen : scheduler.poolAction (.worker worker choice)
          (scheduler.setPhase worker phase) = none := by
        rw [poolAction, phase_setPhase]
        exact Phase.poolAction_of_search idle still
      rw [unseen]
      apply placedIn.setPhase
      rw [Phase.executing_of_holds idle, Phase.executing_of_holds still]
  | takeLocal owner task rest idle queue _ =>
      have member : task ∈ (scheduler.workers owner).localQueue := by
        rw [queue]
        exact List.mem_cons_self
      apply placedIn.take before sound idle _ rfl (timesAt_localQueue_pos.mpr member) rfl
      · intro t different place
        apply timesAt_setWorker
        case queue => simp [queue, Ne.symm different]
        case hands => rfl
      · by_cases own : worker = owner
        · subst own
          simp [TaskScheduler.setWorker]
        · simp [TaskScheduler.setWorker, own]
  | takeGlobal task rest idle queue =>
      have member : task ∈ scheduler.globalQueue := by
        rw [queue]
        exact List.mem_cons_self
      apply placedIn.take before sound idle rfl rfl (timesAt_globalQueue_pos.mpr member) rfl
      intro t different place
      apply timesAt_congr
      case global => simp [queue, Ne.symm different]
      case queues => exact fun _ => rfl
      case hands => exact fun _ => Iff.rfl
      case retired => rfl
  | enter task here =>
      have unseen : scheduler.poolAction (.worker worker choice)
          (scheduler.enterFiber worker task) = none := by
        simp [poolAction, here, Phase.poolAction, enterFiber, TaskScheduler.setTask,
          TaskScheduler.setWorker]
      rw [unseen]
      have entered : (scheduler.setWorker worker fun current =>
          { current with
            phase := .inFiber task, currentTask := some task,
            schedCtx := some worker }).PlacedIn pool :=
        placedIn.setWorker rfl (by rw [here]; rfl)
      exact entered.setTask rfl
  | keep task here state | discard task here state =>
      rw [poolAction, phase_setPhase, here]
      exact placedIn.setPhase (by rw [here]; rfl)
  | reenqueue task here =>
      have seen : scheduler.poolAction (.worker worker choice) (scheduler.setWorker worker
          fun current => { current with
            localQueue := current.localQueue ++ [task], phase := .clear task }) =
          some ⟨task, .giveBack worker⟩ := by
        rw [poolAction, here]
        rfl
      rw [seen]
      rw [here] at hands
      apply placedIn.act sound (.giveBack worker) hands (.localQueue worker)
      case here =>
        rw [timesAt_localQueue_pos]
        simp [TaskScheduler.setWorker]
      case stage => rfl
      case stages => exact fun _ _ => rfl
      case others =>
        intro t different place
        apply timesAt_setWorker
        case queue => simp [Ne.symm different]
        case hands => simp [here, Phase.executing, Ne.symm different]
  | retire task here =>
      have seen : scheduler.poolAction (.worker worker choice) ({ scheduler with
          activeTasks := fetchSub scheduler.activeTasks
          retired := scheduler.retired ++ [task] }.setPhase worker (.clear task)) =
          some ⟨task, .finish worker⟩ := by
        rw [poolAction, here]
        rfl
      rw [seen]
      rw [here] at hands
      apply placedIn.act sound (.finish worker) hands .retired
      case here =>
        rw [timesAt_retired_pos]
        simp [TaskScheduler.setPhase, TaskScheduler.setWorker]
      case stage => rfl
      case stages => exact fun _ _ => rfl
      case others =>
        intro t different place
        have recorded : TaskScheduler.timesAt { scheduler with
            activeTasks := fetchSub scheduler.activeTasks
            retired := scheduler.retired ++ [task] } t place = scheduler.timesAt t place := by
          apply timesAt_congr
          case global => rfl
          case queues => exact fun _ => rfl
          case hands => exact fun _ => Iff.rfl
          case retired => simp [Ne.symm different]
        rw [← recorded]
        apply timesAt_setWorker
        case queue => rfl
        case hands => simp [here, Phase.executing, Ne.symm different]
  | clear task here =>
      have unseen : scheduler.poolAction (.worker worker choice) (scheduler.setWorker worker
          fun current => { current with currentTask := none, phase := .top }) = none := by
        simp [poolAction, here, Phase.poolAction, TaskScheduler.setWorker]
      rw [unseen]
      exact placedIn.setWorker rfl (by rw [here]; rfl)
  | strayReenqueue frame task here | strayRetire task here =>
      have tracked := onTrack worker
      rw [here] at tracked
      cases tracked

/-- The functions of the tasks do nothing to the pool. -/
theorem PlacedIn.fiberMove (placedIn : scheduler.PlacedIn pool)
    (before : scheduler.ledger.Sound) (context : scheduler.ContextOk) {back : SwitchBack}
    {worker : Fin n} {task : TaskId} (inside : (scheduler.workers worker).phase = .inFiber task)
    (home : (scheduler.tasks task).point = .over →
      back.worker worker (scheduler.tasks task) = worker)
    (move : FiberMove back scheduler worker task target) : target.PlacedIn pool := by
  have leaves : ∀ {current : TaskScheduler n}, current.PlacedIn pool →
      (current.workers worker).phase = .inFiber task →
        (current.leaveFiber worker worker task).PlacedIn pool := by
    intro current placed here
    apply placed.setPhase
    rw [if_pos rfl, here]
    rfl
  cases move with
  | stay => exact placedIn
  | goto point move | store state point move => exact placedIn.setTask rfl
  | spawn body => exact (placedIn.allocate before (some task)).setTask rfl
  | switchOut owner point recorded =>
      rw [(context worker task inside).1] at recorded
      obtain rfl := Option.some.inj recorded
      have suspended : (scheduler.setPoint task .suspended).PlacedIn pool := placedIn.setTask rfl
      exact leaves suspended inside
  | noContext => exact placedIn.setTask rfl
  | finish point =>
      rw [home point]
      exact leaves placedIn inside

/-- Every step of the scheduler is an action of the pool, or none. -/
theorem PlacedIn.step (placedIn : scheduler.PlacedIn pool) (consistent : scheduler.Consistent)
    {back : SwitchBack} {event : SchedulerEvent n} (home : scheduler.ReturnsHome back event)
    (taken : scheduler.step back event = some target) :
    target.Follows pool (scheduler.poolAction event target) := by
  have sound := (consistent.step home taken).sound
  rcases step_move taken with
    move | ⟨worker, choice, rfl, move⟩ | ⟨worker, action, task, rfl, inside, move⟩
  · exact placedIn.sharedMove consistent.sound sound move
  · exact placedIn.workerMove consistent.sound sound consistent.onTrack move
  · exact placedIn.fiberMove consistent.sound consistent.context inside
      (home worker action task rfl inside) move

theorem placedIn_start : (start n).PlacedIn WorkPool.empty where
  absent _ _ := rfl
  placed task place here := by cases place <;> cases here

/-- What an observer writes down of a run of the scheduler is a run of the pool that ends with
every task where the scheduler has it. So each task was handed in once, was then taken and
put back by one worker after the other, and was retired by the worker that took it last; and
each worker took a task only with empty hands, and put back or retired the one it had. -/
theorem scheduler_is_work_pool {back : SwitchBack}
    {later : TaskScheduler n × List (PoolAction (Fin n) TaskId)}
    (reached : ReachableUnder (observed (step back) poolAction)
      (fun state => ReturnsHome back state.1) (start n, []) later) :
    ∃ pool, runSteps WorkPool.step WorkPool.empty later.2 = some pool ∧
      later.1.PlacedIn pool ∧
      (∀ worker, pool.hands worker = (later.1.workers worker).phase.executing) ∧
      (∀ task, (pool.stage task).Recorded (PoolAction.ofJob task later.2)) ∧
      ∀ worker, runSteps handStep none (PoolAction.ofWorker worker later.2) =
        some (later.1.workers worker).phase.executing := by
  obtain ⟨consistent, pool, ran, placedIn⟩ := reached.runs_observed Consistent PlacedIn
    (fun _ _ _ consistent home taken => consistent.step home taken)
    (fun _ _ _ _ consistent home taken unseen placedIn => by
      have follows := placedIn.step consistent home taken
      rwa [unseen] at follows)
    (fun _ _ _ _ _ consistent home taken seen placedIn => by
      have follows := placedIn.step consistent home taken
      rwa [seen] at follows)
    consistent_start placedIn_start
  have hands := placedIn.hands consistent.sound
  refine ⟨pool, ran, placedIn, hands, fun task => ?_, fun worker => ?_⟩
  · exact JobStage.recorded_of_run (WorkPool.run_ofJob ran task)
  · rw [← hands worker]
    exact WorkPool.run_ofWorker ran worker

/-- Worker 1 steals the task that worker 0 gave back, yields in it, and worker 0 steals it
back and finishes it. -/
def stolenBackRun : List (SchedulerEvent 2) :=
  List.flatten [
    stealRun 0 1,
    [.fiber 1 .advance, .fiber 1 .yield, .fiber 1 .advance, .fiber 1 .advance,
      .fiber 1 .advance],
    List.replicate 3 (.worker 1 ⟨true, 0⟩), List.replicate 5 (.worker 0 ⟨true, 1⟩),
    [.fiber 0 .advance, .fiber 0 .return, .fiber 0 .advance, .fiber 0 .advance],
    List.replicate 2 (.worker 0 ⟨true, 1⟩)]

/-- The stolen task comes back to the worker that its `uc_link` names. -/
theorem scheduler_is_work_pool_stolen :
    ∃ later : TaskScheduler 2 × List (PoolAction (Fin 2) TaskId),
      ReachableUnder (observed (step .ucLink) poolAction)
        (fun state => ReturnsHome .ucLink state.1) (start 2, []) later ∧
      later.2 = [⟨1, .submit⟩, ⟨1, .take 0⟩, ⟨1, .giveBack 0⟩, ⟨1, .take 1⟩, ⟨1, .giveBack 1⟩,
        ⟨1, .take 0⟩, ⟨1, .finish 0⟩] ∧
      ∃ pool, runSteps WorkPool.step WorkPool.empty later.2 = some pool ∧
        later.1.PlacedIn pool := by
  have evaluated : (runSteps (guarded (observed (step .ucLink) poolAction) fun state =>
      endsAtHome .ucLink state.1) (start 2, []) stolenBackRun).map Prod.snd =
      some [⟨1, .submit⟩, ⟨1, .take 0⟩, ⟨1, .giveBack 0⟩, ⟨1, .take 1⟩, ⟨1, .giveBack 1⟩,
        ⟨1, .take 0⟩, ⟨1, .finish 0⟩] := by
    decide
  obtain ⟨later, ran, log⟩ := Option.map_eq_some_iff.mp evaluated
  have reached : ReachableUnder (observed (step .ucLink) poolAction)
      (fun state => ReturnsHome .ucLink state.1) (start 2, []) later :=
    reachableUnder_of_guarded (fun _ _ => returnsHome_of_endsAtHome) ran
  obtain ⟨pool, followed, placedIn, -⟩ := scheduler_is_work_pool reached
  exact ⟨later, reached, log, pool, followed, placedIn⟩

end TaskScheduler

end Kode.Concurrency
