/-
# Shutting the runtime down

`ConcurrencyRuntime::shutdown` waits until `active_tasks_` reads zero, asks every
worker to stop, joins the threads one after the other and drops the scheduler. The
calls of the shutting thread are steps between those of the workers, so a task may
still be running, stealing or spawning at any of them.

Two things are shown for the thread that made the outside tasks and then shuts down.
No task is dropped: when the workers are asked to stop every task is retired, and when
`shutdown` returns the queues are empty and all threads have ended. And it returns:
once the counter has read zero, the calls of `stop` and the last steps of the workers
are bounded by a number that depends on the number of workers only, and one of them is
always enabled.
-/

import Kode.Concurrency.SchedulerProgress

namespace Kode.Concurrency

open Kode.Library

/-- How far `shutdown` has come. -/
inductive ShutdownStage
  /-- It has not been called. -/
  | running
  /-- In `wait_all`. -/
  | waiting
  /-- In `stop`, at the flag of the given worker. -/
  | signalling (worker : ℕ)
  /-- In `stop`, at the join of the given worker. -/
  | joining (worker : ℕ)
  /-- `scheduler_` is reset. -/
  | returned
  deriving DecidableEq, Repr

namespace ShutdownStage

/-- `wait_all` has returned. -/
def afterWait : ShutdownStage → Bool
  | .running | .waiting => false
  | .signalling _ | .joining _ | .returned => true

/-- How many of `n` workers have been asked to stop. -/
def signalled (n : ℕ) : ShutdownStage → ℕ
  | .running | .waiting => 0
  | .signalling worker => worker
  | .joining _ | .returned => n

/-- How many of `n` threads have been joined. -/
def joined (n : ℕ) : ShutdownStage → ℕ
  | .running | .waiting | .signalling _ => 0
  | .joining worker => worker
  | .returned => n

/-- The calls that `stop` still makes on `n` workers. -/
def remaining (n : ℕ) : ShutdownStage → ℕ
  | .running | .waiting | .returned => 0
  | .signalling worker => (n - worker) + n + 2
  | .joining worker => (n - worker) + 1

end ShutdownStage

/-- `ConcurrencyRuntime` with the thread that shuts it down. -/
structure ConcurrencyRuntime (n : ℕ) where
  scheduler : TaskScheduler n
  stage : ShutdownStage

/-- One step of one thread. -/
inductive RuntimeEvent (n : ℕ)
  /-- A step of the scheduler, made by another call or another thread. -/
  | scheduler (event : SchedulerEvent n)
  /-- The call of `shutdown`. -/
  | shutdown
  /-- The next step of that call. -/
  | proceed
  deriving DecidableEq, Repr

namespace ConcurrencyRuntime

open TaskScheduler

variable {n : ℕ}

/-- The runtime that the first call has made. -/
def initialized (n : ℕ) : ConcurrencyRuntime n := ⟨TaskScheduler.start n, .running⟩

/-- The next step of `shutdown`. `wait_all` sleeps and reads the counter again while it is
positive; a join returns when the thread has ended. -/
def proceed (runtime : ConcurrencyRuntime n) : Option (ConcurrencyRuntime n) :=
  match runtime.stage with
  | .running | .returned => none
  | .waiting =>
      some (if runtime.scheduler.activeTasks = 0 then { runtime with stage := .signalling 0 }
        else runtime)
  | .signalling worker =>
      if inRange : worker < n then
        some ⟨runtime.scheduler.setWorker ⟨worker, inRange⟩ fun current =>
          { current with shouldStop := true }, .signalling (worker + 1)⟩
      else some { runtime with stage := .joining 0 }
  | .joining worker =>
      if inRange : worker < n then
        if (runtime.scheduler.workers ⟨worker, inRange⟩).phase = .stopped then
          some { runtime with stage := .joining (worker + 1) }
        else none
      else some { runtime with stage := .returned }

/-- One step. `stop` is called by `shutdown` alone, and there is no scheduler behind it. -/
def step (back : SwitchBack) (runtime : ConcurrencyRuntime n) :
    RuntimeEvent n → Option (ConcurrencyRuntime n)
  | .scheduler (.stop _) => none
  | .scheduler event =>
      if runtime.stage = .returned then none
      else (runtime.scheduler.step back event).map fun scheduler => { runtime with scheduler }
  | .shutdown => if runtime.stage = .running then some { runtime with stage := .waiting } else none
  | .proceed => runtime.proceed

/-- No outside thread is inside `spawn`. -/
def NoOutsideSpawn (scheduler : TaskScheduler n) : Prop :=
  ∀ task, (scheduler.tasks task).spawn.inProgress = true → (scheduler.tasks task).spawner ≠ none

/-- Fibers return to the worker that entered them, and the thread that shuts down is the
outside thread that spawns: it is not inside `spawn` when it calls `shutdown`, and does not
call it afterwards. -/
def Orderly (back : SwitchBack) (runtime : ConcurrencyRuntime n) : RuntimeEvent n → Prop
  | .scheduler event =>
      runtime.scheduler.ReturnsHome back event ∧ (event = .spawn → runtime.stage = .running)
  | .shutdown => NoOutsideSpawn runtime.scheduler
  | .proceed => True

theorem step_scheduler_eq_some {back : SwitchBack} {runtime target : ConcurrencyRuntime n}
    {event : SchedulerEvent n} (taken : runtime.step back (.scheduler event) = some target) :
    runtime.stage ≠ .returned ∧ (∀ worker, event ≠ .stop worker) ∧
      runtime.scheduler.step back event = some target.scheduler ∧
      target.stage = runtime.stage := by
  cases event with
  | stop => cases taken
  | _ =>
      simp only [step] at taken
      split_ifs at taken with running
      obtain ⟨scheduler, stepped, rfl⟩ := Option.map_eq_some_iff.mp taken
      exact ⟨running, by simp, stepped, rfl⟩

/-! ## Outside calls of `spawn` -/

/-- A change of one task that brings no outside `spawn` into progress. -/
theorem NoOutsideSpawn.setTask {scheduler : TaskScheduler n} (none : NoOutsideSpawn scheduler)
    {task : TaskId} {change : Task n → Task n}
    (stage : (change (scheduler.tasks task)).spawn.inProgress = true →
      (scheduler.tasks task).spawn.inProgress = true)
    (spawner : (change (scheduler.tasks task)).spawner = (scheduler.tasks task).spawner) :
    NoOutsideSpawn (scheduler.setTask task change) := by
  intro other inProgress
  by_cases same : other = task
  · subst same
    simp only [TaskScheduler.setTask, Function.update_self] at inProgress ⊢
    rw [spawner]
    exact none other (stage inProgress)
  · simp only [TaskScheduler.setTask, Function.update_of_ne same] at inProgress ⊢
    exact none other inProgress

theorem NoOutsideSpawn.sharedMove {scheduler target : TaskScheduler n} {event : SchedulerEvent n}
    (none : NoOutsideSpawn scheduler) (notSpawn : event ≠ .spawn)
    (move : SharedMove scheduler event target) : NoOutsideSpawn target := by
  cases move with
  | allocate => exact absurd rfl notSpawn
  | count task stage =>
      have counted : NoOutsideSpawn { scheduler with activeTasks := scheduler.activeTasks + 1 } :=
        none
      exact counted.setTask (fun _ => by simp [stage, SpawnStage.inProgress]) rfl
  | schedule task stage =>
      have queued : NoOutsideSpawn { scheduler with
          globalQueue := scheduler.globalQueue ++ [task] } := none
      exact queued.setTask (fun _ => by simp [stage, SpawnStage.inProgress]) rfl
  | register task stage _ =>
      have mapped : NoOutsideSpawn { scheduler with
          activeTaskMap := insert task scheduler.activeTaskMap } := none
      exact mapped.setTask (fun _ => by simp [stage, SpawnStage.inProgress]) rfl
  | registerChild task parent stage _ =>
      have mapped : NoOutsideSpawn { scheduler with
          activeTaskMap := insert task scheduler.activeTaskMap } := none
      have registered : NoOutsideSpawn (TaskScheduler.setTask { scheduler with
          activeTaskMap := insert task scheduler.activeTaskMap } task
            fun current => { current with spawn := .registered }) :=
        mapped.setTask (fun _ => by simp [stage, SpawnStage.inProgress]) rfl
      exact registered.setTask id rfl
  | ignore => exact none
  | expire task => exact none
  | cancelFlag task =>
      have flagged : NoOutsideSpawn { scheduler with cancelling := some task } := none
      exact flagged.setTask id rfl
  | cancelState task =>
      have stored : NoOutsideSpawn { scheduler with
          cancelling := Option.none
          activeTaskMap := scheduler.activeTaskMap.erase task } := none
      exact stored.setTask id rfl
  | stop worker => exact none

theorem NoOutsideSpawn.workerMove {scheduler target : TaskScheduler n} {worker : Fin n}
    {choice : StealChoice n} (none : NoOutsideSpawn scheduler)
    (move : WorkerMove scheduler worker choice target) : NoOutsideSpawn target := by
  cases move with
  | enter task before =>
      have entered : NoOutsideSpawn (scheduler.setWorker worker fun current =>
          { current with
            phase := .inFiber task, currentTask := some task, schedCtx := some worker }) := none
      exact entered.setTask id rfl
  | _ => exact none

/-- A fiber spawns on its own account. -/
theorem NoOutsideSpawn.fiberMove {back : SwitchBack} {scheduler target : TaskScheduler n}
    {worker : Fin n} {task : TaskId} (none : NoOutsideSpawn scheduler)
    (move : FiberMove back scheduler worker task target) : NoOutsideSpawn target := by
  cases move with
  | stay => exact none
  | goto | store | noContext => exact none.setTask id rfl
  | switchOut =>
      have suspended : NoOutsideSpawn (scheduler.setPoint task .suspended) := none.setTask id rfl
      exact suspended
  | finish => exact none
  | spawn =>
      have allocated : NoOutsideSpawn (scheduler.allocate (some task)) := by
        intro other inProgress
        by_cases same : other = scheduler.nextTaskId
        · subst same
          simp [TaskScheduler.allocate, TaskScheduler.setTask]
        · simp only [TaskScheduler.allocate, TaskScheduler.setTask,
            Function.update_of_ne same] at inProgress ⊢
          exact none other inProgress
      exact allocated.setTask id rfl

theorem NoOutsideSpawn.step {back : SwitchBack} {scheduler target : TaskScheduler n}
    {event : SchedulerEvent n} (none : NoOutsideSpawn scheduler) (notSpawn : event ≠ .spawn)
    (taken : scheduler.step back event = some target) : NoOutsideSpawn target := by
  rcases step_move taken with
    move | ⟨worker, choice, rfl, move⟩ | ⟨worker, action, task, rfl, inside, move⟩
  · exact none.sharedMove notSpawn move
  · exact none.workerMove move
  · exact none.fiberMove move

/-! ## What a quiet worker still does -/

/-- How many steps a worker that found nothing makes before it ends, once it is asked to. -/
def stepsLeft (n : ℕ) : Phase → ℕ
  | .top => 1
  | .clear _ => 2
  | .stealScan offset => (n - offset) + 2
  | .stealRandom attempt => (maxAttempts n - attempt) + (n + 3)
  | .stealGlobal => maxAttempts n + n + 4
  | .popLocal => maxAttempts n + n + 5
  | _ => 0

theorem stepsLeft_le (phase : Phase) : stepsLeft n phase ≤ maxAttempts n + n + 5 := by
  have positive : 1 ≤ maxAttempts n := Nat.le_max_left _ _
  cases phase <;> simp only [stepsLeft] <;> omega

/-- How many steps of a worker `stop` may have to wait for. -/
def patience (worker : Worker n) : ℕ :=
  if worker.shouldStop then stepsLeft n worker.phase else maxAttempts n + n + 5

/-- One step of a quiet worker: it stays quiet, keeps its flag, and, when it has been asked to
stop, comes closer to its end. -/
structure Winds (before after : Worker n) : Prop where
  notStopped : before.phase ≠ .stopped
  shouldStop : after.shouldStop = before.shouldStop
  closer : before.shouldStop = true → stepsLeft n after.phase + 1 ≤ stepsLeft n before.phase

theorem Winds.patience_le {before after : Worker n} (winds : Winds before after) :
    patience after + (if before.shouldStop then 1 else 0) ≤ patience before := by
  unfold patience
  rw [winds.shouldStop]
  split_ifs with flagged
  · exact winds.closer flagged
  · omega

theorem workerStep_winds {scheduler target : TaskScheduler n} {worker : Fin n}
    {choice : StealChoice n} (quiet : scheduler.Quiet)
    (taken : scheduler.workerStep worker choice = some target) :
    ∃ after, target = scheduler.setWorker worker (fun _ => after) ∧
      Winds (scheduler.workers worker) after := by
  have idle := quiet.executing worker
  have positive : 1 ≤ maxAttempts n := Nat.le_max_left _ _
  cases phase : (scheduler.workers worker).phase with
  | top =>
      simp only [workerStep, phase, Option.some.injEq] at taken
      refine ⟨_, taken.symm, by simp [phase], rfl, fun flagged => ?_⟩
      simp [phase, flagged, stepsLeft]
  | popLocal =>
      simp only [workerStep, phase, quiet.localQueue, Option.some.injEq] at taken
      exact ⟨_, taken.symm, by simp [phase], rfl, fun _ => by simp [phase, stepsLeft]⟩
  | stealGlobal =>
      simp only [workerStep, phase, quiet.globalQueue, ite_self, Option.some.injEq] at taken
      refine ⟨_, taken.symm, by simp [phase], rfl, fun _ => ?_⟩
      simp only [phase, stepsLeft]
      omega
  | stealRandom attempt =>
      simp only [workerStep, phase, quiet.localQueue] at taken
      split_ifs at taken with inTime
      · have missed : some (scheduler.setPhase worker (.stealRandom (attempt + 1))) =
            some target := by
          cases locked : choice.locked <;> simpa only [locked] using taken
        obtain rfl := Option.some.inj missed
        refine ⟨_, rfl, by simp [phase], rfl, fun _ => ?_⟩
        simp only [phase, stepsLeft]
        omega
      · obtain rfl := Option.some.inj taken
        refine ⟨_, rfl, by simp [phase], rfl, fun _ => ?_⟩
        simp only [phase, stepsLeft]
        omega
  | stealScan offset =>
      simp only [workerStep, phase, quiet.localQueue] at taken
      split_ifs at taken with inRange
      · have missed : some (scheduler.setPhase worker (.stealScan (offset + 1))) =
            some target := by
          cases locked : choice.locked <;> simpa only [locked] using taken
        obtain rfl := Option.some.inj missed
        refine ⟨_, rfl, by simp [phase], rfl, fun _ => ?_⟩
        simp only [phase, stepsLeft]
        omega
      · obtain rfl := Option.some.inj taken
        refine ⟨_, rfl, by simp [phase], rfl, fun _ => ?_⟩
        simp only [phase, stepsLeft]
        omega
  | clear task =>
      simp only [workerStep, phase, Option.some.injEq] at taken
      exact ⟨_, taken.symm, by simp [phase], rfl, fun _ => by simp [phase, stepsLeft]⟩
  | stopped | derailed =>
      simp only [workerStep, phase] at taken
      cases taken
  | prepare | inFiber | switchedBack | reenqueue | retire | strayReenqueue | strayRetire =>
      rw [phase] at idle
      cases idle

/-- What a step of a quiet scheduler does to its workers. -/
theorem workers_of_quiet {back : SwitchBack} {scheduler target : TaskScheduler n}
    {event : SchedulerEvent n} (quiet : scheduler.Quiet)
    (notStop : ∀ worker, event ≠ .stop worker)
    (taken : scheduler.step back event = some target) :
    (∀ worker choice, event ≠ .worker worker choice) ∧ target.workers = scheduler.workers ∨
      ∃ worker choice after, event = .worker worker choice ∧
        target.workers = Function.update scheduler.workers worker after ∧
        Winds (scheduler.workers worker) after := by
  cases event with
  | worker worker choice =>
      obtain ⟨after, rfl, winds⟩ := workerStep_winds quiet taken
      exact Or.inr ⟨worker, choice, after, rfl, rfl, winds⟩
  | fiber worker action =>
      have idle := quiet.executing worker
      simp only [TaskScheduler.step] at taken
      split at taken
      · rename_i task inside
        rw [inside] at idle
        cases idle
      · cases taken
  | stop worker => exact absurd rfl (notStop worker)
  | _ =>
      refine Or.inl ⟨by simp, ?_⟩
      rcases step_move taken with move | ⟨_, _, other, _⟩ | ⟨_, _, _, other, _⟩
      · cases move <;> rfl
      · cases other
      · cases other

/-- A quiet worker that has not ended can take a step. -/
theorem workerStep_of_quiet {scheduler : TaskScheduler n} (quiet : scheduler.Quiet)
    (onTrack : scheduler.OnTrack) {worker : Fin n}
    (goesOn : (scheduler.workers worker).phase ≠ .stopped) :
    ∃ choice, scheduler.workerStep worker choice ≠ none := by
  have idle := quiet.executing worker
  have here := onTrack worker
  cases phase : (scheduler.workers worker).phase with
  | stealRandom attempt =>
      -- With other workers about, an attempt aims at one of them.
      obtain ⟨aim, allowed⟩ : ∃ aim, ¬ (aim = worker ∧ 1 < n) := by
        by_cases several : 1 < n
        · obtain ⟨other, different⟩ := exists_other worker several
          exact ⟨other, fun both => different both.1⟩
        · exact ⟨worker, fun both => several both.2⟩
      refine ⟨⟨false, aim⟩, ?_⟩
      simp only [workerStep, phase, allowed, if_false]
      split_ifs <;> simp
  | stopped => exact absurd phase goesOn
  | derailed =>
      rw [phase] at here
      cases here
  | prepare | inFiber | switchedBack | reenqueue | retire | strayReenqueue | strayRetire =>
      rw [phase] at idle
      cases idle
  | stealScan offset =>
      refine ⟨⟨false, worker⟩, ?_⟩
      simp only [workerStep, phase]
      split_ifs
      · cases (scheduler.workers
          ⟨(worker + offset) % n, Nat.mod_lt _ worker.pos⟩).localQueue <;> simp
      · simp
  | _ => exact ⟨⟨false, worker⟩, by simp [workerStep, phase, quiet.localQueue]⟩

/-! ## The invariant of a shutdown -/

/-- What is known of the runtime at every stage of the shutdown. -/
structure ShutsDown (runtime : ConcurrencyRuntime n) : Prop where
  consistent : runtime.scheduler.Consistent
  noOutside : runtime.stage ≠ .running → NoOutsideSpawn runtime.scheduler
  quiet : runtime.stage.afterWait = true → runtime.scheduler.Quiet
  flagged : ∀ worker : Fin n, worker < runtime.stage.signalled n →
    (runtime.scheduler.workers worker).shouldStop = true
  ended : ∀ worker : Fin n, worker < runtime.stage.joined n →
    (runtime.scheduler.workers worker).phase = .stopped

theorem shutsDown_initialized : (initialized n).ShutsDown where
  consistent := consistent_start
  noOutside notRunning := absurd rfl notRunning
  quiet after := by cases after
  flagged worker signalled := absurd signalled (Nat.not_lt_zero _)
  ended worker joined := absurd joined (Nat.not_lt_zero _)

theorem afterWait_of_signalled {stage : ShutdownStage} {count : ℕ}
    (signalled : count < stage.signalled n) : stage.afterWait = true := by
  cases stage with
  | running | waiting => exact absurd signalled (Nat.not_lt_zero _)
  | _ => rfl

theorem afterWait_of_joined {stage : ShutdownStage} {count : ℕ}
    (joined : count < stage.joined n) : stage.afterWait = true := by
  cases stage with
  | running | waiting | signalling => exact absurd joined (Nat.not_lt_zero _)
  | _ => rfl

theorem ne_running_of_afterWait {stage : ShutdownStage} (after : stage.afterWait = true) :
    stage ≠ .running := by
  rintro rfl
  cases after

/-- The steps of the other threads. -/
theorem ShutsDown.scheduler {back : SwitchBack} {runtime target : ConcurrencyRuntime n}
    {event : SchedulerEvent n} (shuts : runtime.ShutsDown)
    (orderly : runtime.Orderly back (.scheduler event))
    (taken : runtime.step back (.scheduler event) = some target) : target.ShutsDown := by
  obtain ⟨-, notStop, stepped, sameStage⟩ := step_scheduler_eq_some taken
  have notSpawn : runtime.stage ≠ .running → event ≠ .spawn :=
    fun notRunning spawn => notRunning (orderly.2 spawn)
  refine ⟨shuts.consistent.step orderly.1 stepped, ?_, ?_, ?_, ?_⟩ <;> rw [sameStage]
  · exact fun notRunning => (shuts.noOutside notRunning).step (notSpawn notRunning) stepped
  · exact fun after =>
      (shuts.quiet after).step (notSpawn (ne_running_of_afterWait after)) stepped
  · intro worker signalled
    have before := shuts.flagged worker signalled
    have quiet := shuts.quiet (afterWait_of_signalled signalled)
    rcases workers_of_quiet quiet notStop stepped with
      ⟨-, same⟩ | ⟨acting, _, after, _, same, winds⟩
    · rw [same, before]
    · rw [same]
      by_cases here : worker = acting
      · subst here
        rw [Function.update_self, winds.shouldStop, before]
      · rw [Function.update_of_ne here, before]
  · intro worker joined
    have before := shuts.ended worker joined
    have quiet := shuts.quiet (afterWait_of_joined joined)
    rcases workers_of_quiet quiet notStop stepped with
      ⟨-, same⟩ | ⟨acting, _, after, _, same, winds⟩
    · rw [same, before]
    · have elsewhere : worker ≠ acting := by
        rintro rfl
        exact winds.notStopped before
      rw [same, Function.update_of_ne elsewhere, before]

/-- The steps of `shutdown`. -/
theorem ShutsDown.proceed {runtime target : ConcurrencyRuntime n} (shuts : runtime.ShutsDown)
    (taken : runtime.proceed = some target) : target.ShutsDown := by
  obtain ⟨scheduler, stage⟩ := runtime
  obtain ⟨consistent, noOutside, quiet, flagged, ended⟩ := shuts
  cases stage with
  | running | returned => cases taken
  | waiting =>
      obtain rfl := Option.some.inj taken
      split_ifs with zero
      · have outside := noOutside (by simp)
        exact ⟨consistent, fun _ => outside, fun _ => quiet_of_activeTasks_eq_zero
          consistent.sound consistent.nested zero outside, flagged, ended⟩
      · exact ⟨consistent, noOutside, quiet, flagged, ended⟩
  | signalling next =>
      simp only [ConcurrencyRuntime.proceed] at taken
      split_ifs at taken with inRange
      · obtain rfl := Option.some.inj taken
        have stopped : scheduler.step .resumer (.stop ⟨next, inRange⟩) = some _ := rfl
        refine ⟨consistent.step (scheduler.returns_resumer.home _) stopped,
          fun _ => noOutside (by simp),
          fun _ => (quiet rfl).step (by simp) stopped, fun worker signalled => ?_,
          fun _ joined => absurd joined (Nat.not_lt_zero _)⟩
        by_cases here : worker = ⟨next, inRange⟩
        · subst here
          simp [TaskScheduler.setWorker]
        · have earlier : (worker : ℕ) < next := by
            have different : (worker : ℕ) ≠ next := fun same => here (Fin.ext same)
            have upTo : (worker : ℕ) < next + 1 := signalled
            omega
          simpa [TaskScheduler.setWorker, here] using flagged worker earlier
      · obtain rfl := Option.some.inj taken
        refine ⟨consistent, fun _ => noOutside (by simp), fun _ => quiet rfl,
          fun worker _ => flagged worker ?_, ended⟩
        exact worker.isLt.trans_le (Nat.le_of_not_lt inRange)
  | joining next =>
      simp only [ConcurrencyRuntime.proceed] at taken
      split_ifs at taken with inRange stopped
      · obtain rfl := Option.some.inj taken
        refine ⟨consistent, fun _ => noOutside (by simp), fun _ => quiet rfl, flagged,
          fun worker joined => ?_⟩
        by_cases here : worker = ⟨next, inRange⟩
        · rw [here]
          exact stopped
        · have different : (worker : ℕ) ≠ next := fun same => here (Fin.ext same)
          have upTo : (worker : ℕ) < next + 1 := joined
          exact ended worker (show (worker : ℕ) < next by omega)
      · obtain rfl := Option.some.inj taken
        refine ⟨consistent, fun _ => noOutside (by simp), fun _ => quiet rfl, flagged,
          fun worker _ => ended worker ?_⟩
        exact worker.isLt.trans_le (Nat.le_of_not_lt inRange)

theorem ShutsDown.step {back : SwitchBack} {runtime target : ConcurrencyRuntime n}
    {event : RuntimeEvent n} (shuts : runtime.ShutsDown) (orderly : runtime.Orderly back event)
    (taken : runtime.step back event = some target) : target.ShutsDown := by
  cases event with
  | scheduler event => exact shuts.scheduler orderly taken
  | proceed => exact shuts.proceed taken
  | shutdown =>
      simp only [ConcurrencyRuntime.step] at taken
      split_ifs at taken with running
      obtain rfl := Option.some.inj taken
      exact ⟨shuts.consistent, fun _ => orderly, fun after => absurd after Bool.false_ne_true,
        fun worker signalled => absurd signalled (Nat.not_lt_zero _),
        fun worker joined => absurd joined (Nat.not_lt_zero _)⟩

theorem shutsDown_of_reachable {back : SwitchBack} {runtime : ConcurrencyRuntime n}
    (reached : ReachableUnder (step back) (Orderly back) (initialized n) runtime) :
    runtime.ShutsDown :=
  reached.invariant shutsDown_initialized
    fun _ _ _ shuts orderly taken => shuts.step orderly taken

/-! ## No task is dropped -/

/-- In a quiet state every task that was made is registered and retired once. -/
theorem retired_of_quiet {scheduler : TaskScheduler n} (consistent : scheduler.Consistent)
    (quiet : scheduler.Quiet) {task : TaskId} (born : (scheduler.tasks task).spawn ≠ .unborn) :
    (scheduler.tasks task).spawn = .registered ∧ scheduler.retired.count task = 1 := by
  have settled := quiet.noSpawn task
  have registered : (scheduler.tasks task).spawn = .registered := by
    cases stage : (scheduler.tasks task).spawn with
    | unborn => exact absurd stage born
    | registered => rfl
    | allocated | counted | scheduled =>
        rw [stage] at settled
        cases settled
  have nowhere : ∀ worker, workerOccurrences task (scheduler.workers worker) = 0 := fun worker => by
    simp [workerOccurrences, quiet.localQueue, quiet.executing]
  have placed : scheduler.occurrences task = 1 := by
    have once := consistent.sound.placed task
    simpa [ledger, registered, SpawnStage.isScheduled] using once
  refine ⟨registered, ?_⟩
  simpa [occurrences, nowhere, quiet.globalQueue] using placed

/-- At every stage behind `wait_all` the queues are empty, no worker executes a task, and
every task that was ever made, by an outside call or by another task, is retired once. When
`shutdown` has returned, every worker thread has ended. -/
theorem shutdown_drops_no_task {back : SwitchBack} {runtime : ConcurrencyRuntime n}
    (reached : ReachableUnder (step back) (Orderly back) (initialized n) runtime)
    (after : runtime.stage.afterWait = true) :
    runtime.scheduler.globalQueue = [] ∧
    (∀ worker, (runtime.scheduler.workers worker).localQueue = [] ∧
      (runtime.scheduler.workers worker).phase.executing = none) ∧
    (∀ task, (runtime.scheduler.tasks task).spawn ≠ .unborn →
      (runtime.scheduler.tasks task).spawn = .registered ∧
        runtime.scheduler.retired.count task = 1) ∧
    (runtime.stage = .returned →
      ∀ worker, (runtime.scheduler.workers worker).phase = .stopped) := by
  have shuts := shutsDown_of_reachable reached
  have quiet := shuts.quiet after
  refine ⟨quiet.globalQueue, fun worker => ⟨quiet.localQueue worker, quiet.executing worker⟩,
    fun task => retired_of_quiet shuts.consistent quiet, fun returned worker => ?_⟩
  exact shuts.ended worker (by rw [returned]; exact worker.isLt)

/-- The part of `Orderly` that can be tested, for runs with no call of `shutdown`. -/
def isOrderly (back : SwitchBack) (runtime : ConcurrencyRuntime n) : RuntimeEvent n → Bool
  | .scheduler event =>
      runtime.scheduler.endsAtHome back event && (event ≠ .spawn || runtime.stage = .running)
  | .shutdown => false
  | .proceed => true

theorem orderly_of_isOrderly {back : SwitchBack} (runtime : ConcurrencyRuntime n)
    (event : RuntimeEvent n) (tested : runtime.isOrderly back event = true) :
    runtime.Orderly back event := by
  cases event with
  | scheduler event =>
      obtain ⟨home, stage⟩ := Bool.and_eq_true_iff.mp tested
      refine ⟨TaskScheduler.returnsHome_of_endsAtHome home, fun spawn => ?_⟩
      simpa [spawn] using stage
  | shutdown => cases tested
  | proceed => trivial

/-- One worker runs one task to its end. -/
def oneTaskRun (worker : Fin 1) : List (RuntimeEvent 1) :=
  List.flatten [
    [.scheduler .spawn, .scheduler (.spawnCount 1), .scheduler (.spawnSchedule 1),
      .scheduler (.spawnRegister 1)],
    List.replicate 4 (.scheduler (.worker worker ⟨true, worker⟩)),
    [.scheduler (.fiber worker .advance), .scheduler (.fiber worker .advance),
      .scheduler (.fiber worker .return), .scheduler (.fiber worker .advance),
      .scheduler (.fiber worker .advance)],
    List.replicate 3 (.scheduler (.worker worker ⟨true, worker⟩))]

/-- The rest of `shutdown` when the worker is at the top of its loop. -/
def windDownRun (worker : Fin 1) : List (RuntimeEvent 1) :=
  [.proceed, .proceed, .proceed, .scheduler (.worker worker ⟨true, worker⟩), .proceed, .proceed]

theorem shutdown_drops_no_task_oneTask :
    ∃ runtime, ReachableUnder (step .ucLink) (Orderly .ucLink) (initialized 1) runtime ∧
      runtime.stage = .returned ∧ runtime.scheduler.retired.count 1 = 1 := by
  have evaluated : ((runSteps (guarded (step .ucLink) (isOrderly .ucLink)) (initialized 1)
      (oneTaskRun 0)).bind fun before => (runSteps (guarded (step .ucLink) (isOrderly .ucLink))
        { before with stage := .waiting } (windDownRun 0)).map fun after =>
          (before.stage, before.scheduler.nextTaskId, (before.scheduler.tasks 0).spawn,
            (before.scheduler.tasks 1).spawn, after.stage, (after.scheduler.tasks 1).spawn)) =
        some (.running, 2, .unborn, .registered, .returned, .registered) := by decide
  obtain ⟨before, ran, rest⟩ := Option.bind_eq_some_iff.mp evaluated
  obtain ⟨runtime, ended, facts⟩ := Option.map_eq_some_iff.mp rest
  simp only [Prod.mk.injEq] at facts
  obtain ⟨running, next, zeroth, first, returned, registered⟩ := facts
  have reached := reachableUnder_of_guarded orderly_of_isOrderly ran
  have settled : NoOutsideSpawn before.scheduler := by
    intro task inProgress
    have known : task < 2 := by
      by_contra beyond
      have unborn := (shutsDown_of_reachable reached).consistent.sound.unborn task
        (next.le.trans (Nat.le_of_not_lt beyond))
      rw [show (before.scheduler.tasks task).spawn = .unborn from unborn] at inProgress
      cases inProgress
    match task, known with
    | 0, _ =>
        rw [zeroth] at inProgress
        cases inProgress
    | 1, _ =>
        rw [first] at inProgress
        cases inProgress
  have called : step .ucLink before .shutdown = some { before with stage := .waiting } := by
    simp [step, running]
  have orderly : before.Orderly .ucLink .shutdown := settled
  have finished := (ReachableUnder.next reached orderly called).trans
    (reachableUnder_of_guarded orderly_of_isOrderly ended)
  obtain ⟨-, -, retired, -⟩ := shutdown_drops_no_task finished (by rw [returned]; rfl)
  exact ⟨runtime, finished, returned, (retired 1 (by rw [registered]; decide)).2⟩

/-! ## `shutdown` returns -/

/-- The steps that bring the shutdown on: those of `stop` and those of a worker that has been
asked to stop. -/
def isWindingDown (runtime : ConcurrencyRuntime n) : RuntimeEvent n → Bool
  | .proceed => true
  | .scheduler (.worker worker _) => (runtime.scheduler.workers worker).shouldStop
  | _ => false

/-- The steps that are left until `shutdown` returns. -/
def stepsToReturn (runtime : ConcurrencyRuntime n) : ℕ :=
  runtime.stage.remaining n + ∑ worker, patience (runtime.scheduler.workers worker)

theorem stepsToReturn_le (runtime : ConcurrencyRuntime n) :
    runtime.stepsToReturn ≤ 2 * n + 2 + n * (maxAttempts n + n + 5) := by
  have calls : runtime.stage.remaining n ≤ 2 * n + 2 := by
    cases runtime.stage <;> simp only [ShutdownStage.remaining] <;> omega
  have each : ∀ worker ∈ (Finset.univ : Finset (Fin n)),
      patience (runtime.scheduler.workers worker) ≤ maxAttempts n + n + 5 := by
    intro worker _
    unfold patience
    split_ifs
    · exact stepsLeft_le _
    · exact le_rfl
  have waits := Finset.sum_le_card_nsmul _ _ _ each
  rw [Finset.card_univ, Fintype.card_fin, Nat.nsmul_eq_mul] at waits
  exact Nat.add_le_add calls waits

/-- Changing one worker to a more patient one by a step. -/
theorem sum_patience_update {workers : Fin n → Worker n} {worker : Fin n} {after : Worker n}
    {spent : ℕ} (less : patience after + spent ≤ patience (workers worker)) :
    (∑ other, patience (Function.update workers worker after other)) + spent ≤
      ∑ other, patience (workers other) := by
  have exchanged := sum_update_add patience workers worker after
  omega

theorem stepsToReturn_scheduler {back : SwitchBack} {runtime target : ConcurrencyRuntime n}
    {event : SchedulerEvent n} (quiet : runtime.scheduler.Quiet)
    (taken : runtime.step back (.scheduler event) = some target) :
    target.stepsToReturn + (if runtime.isWindingDown (.scheduler event) then 1 else 0) ≤
      runtime.stepsToReturn := by
  obtain ⟨-, notStop, stepped, sameStage⟩ := step_scheduler_eq_some taken
  unfold stepsToReturn
  rw [sameStage, Nat.add_assoc]
  apply Nat.add_le_add_left
  rcases workers_of_quiet quiet notStop stepped with ⟨other, same⟩ |
    ⟨worker, choice, after, rfl, same, winds⟩
  · have idle : runtime.isWindingDown (.scheduler event) = false := by
      cases event with
      | worker worker choice => exact absurd rfl (other worker choice)
      | _ => rfl
    simp [same, idle]
  · rw [same]
    exact sum_patience_update winds.patience_le

theorem stepsToReturn_proceed {runtime target : ConcurrencyRuntime n}
    (after : runtime.stage.afterWait = true) (taken : runtime.proceed = some target) :
    target.stepsToReturn + 1 ≤ runtime.stepsToReturn := by
  obtain ⟨scheduler, stage⟩ := runtime
  cases stage with
  | running | waiting => cases after
  | returned => cases taken
  | signalling next =>
      simp only [proceed] at taken
      split_ifs at taken with inRange
      · obtain rfl := Option.some.inj taken
        have asked : patience { scheduler.workers ⟨next, inRange⟩ with shouldStop := true } + 0 ≤
            patience (scheduler.workers ⟨next, inRange⟩) := by
          unfold patience
          rw [if_pos rfl]
          split_ifs
          · exact le_rfl
          · exact stepsLeft_le _
        have waits := sum_patience_update asked
        simp only [stepsToReturn, ShutdownStage.remaining, TaskScheduler.setWorker] at waits ⊢
        omega
      · obtain rfl := Option.some.inj taken
        simp only [stepsToReturn, ShutdownStage.remaining]
        omega
  | joining next =>
      simp only [proceed] at taken
      split_ifs at taken with inRange
      · obtain rfl := Option.some.inj taken
        simp only [stepsToReturn, ShutdownStage.remaining]
        omega
      · obtain rfl := Option.some.inj taken
        simp only [stepsToReturn, ShutdownStage.remaining]
        omega

/-- `wait_all` is called once. -/
theorem afterWait_of_step {back : SwitchBack} {runtime target : ConcurrencyRuntime n}
    {event : RuntimeEvent n} (after : runtime.stage.afterWait = true)
    (taken : runtime.step back event = some target) : target.stage.afterWait = true := by
  cases event with
  | scheduler event => rw [(step_scheduler_eq_some taken).2.2.2, after]
  | shutdown =>
      simp only [step] at taken
      split_ifs at taken with running
      exact absurd running (ne_running_of_afterWait after)
  | proceed =>
      simp only [step, proceed] at taken
      split at taken
      · cases taken
      · cases taken
      · rename_i waiting
        rw [waiting] at after
        cases after
      all_goals split_ifs at taken <;> obtain rfl := Option.some.inj taken <;> rfl

theorem stepsToReturn_step {back : SwitchBack} {runtime target : ConcurrencyRuntime n}
    {event : RuntimeEvent n} (shuts : runtime.ShutsDown) (after : runtime.stage.afterWait = true)
    (taken : runtime.step back event = some target) :
    target.stepsToReturn + (if runtime.isWindingDown event then 1 else 0) ≤
      runtime.stepsToReturn := by
  cases event with
  | scheduler event => exact stepsToReturn_scheduler (shuts.quiet after) taken
  | proceed => exact stepsToReturn_proceed after taken
  | shutdown =>
      simp only [step] at taken
      split_ifs at taken with running
      exact absurd running (ne_running_of_afterWait after)

/-- Until `shutdown` has returned, a step that brings it on is enabled. -/
theorem ShutsDown.goes_on {back : SwitchBack} {runtime : ConcurrencyRuntime n}
    (shuts : runtime.ShutsDown) (after : runtime.stage.afterWait = true)
    (notReturned : runtime.stage ≠ .returned) :
    ∃ event, runtime.isWindingDown event = true ∧ runtime.Orderly back event ∧
      runtime.step back event ≠ none := by
  cases stage : runtime.stage with
  | running | waiting =>
      rw [stage] at after
      cases after
  | returned => exact absurd stage notReturned
  | signalling next =>
      refine ⟨.proceed, rfl, trivial, ?_⟩
      simp only [ConcurrencyRuntime.step, ConcurrencyRuntime.proceed, stage]
      split_ifs <;> simp
  | joining next =>
      by_cases inRange : next < n
      · by_cases stopped : (runtime.scheduler.workers ⟨next, inRange⟩).phase = .stopped
        · exact ⟨.proceed, rfl, trivial, by
            simp [ConcurrencyRuntime.step, ConcurrencyRuntime.proceed, stage, inRange, stopped]⟩
        · obtain ⟨choice, enabled⟩ :=
            workerStep_of_quiet (shuts.quiet after) shuts.consistent.onTrack stopped
          obtain ⟨target, stepped⟩ := Option.ne_none_iff_exists'.mp enabled
          refine ⟨.scheduler (.worker ⟨next, inRange⟩ choice), ?_, ⟨?_, by simp⟩, ?_⟩
          · exact shuts.flagged _ (by rw [stage]; exact inRange)
          · intro _ _ _ fiber
            cases fiber
          · simp [ConcurrencyRuntime.step, TaskScheduler.step, stage, stepped]
      · exact ⟨.proceed, rfl, trivial, by
          simp [ConcurrencyRuntime.step, ConcurrencyRuntime.proceed, stage, inRange]⟩

/-- Once `wait_all` has returned, `stop` and the workers it has asked to stop take at most
`2n + 2 + n (maxAttempts n + n + 5)` steps more, however they are interleaved with one another
and with the threads that still cancel tasks; and as long as `shutdown` has not returned, one
of these steps is enabled. -/
theorem shutdown_returns {back : SwitchBack} {runtime : ConcurrencyRuntime n}
    (reached : ReachableUnder (step back) (Orderly back) (initialized n) runtime)
    (after : runtime.stage.afterWait = true) {later : ConcurrencyRuntime n × ℕ}
    (run : ReachableUnder (metered (step back) isWindingDown) (fun state => Orderly back state.1)
      (runtime, 0) later) :
    later.2 ≤ 2 * n + 2 + n * (maxAttempts n + n + 5) ∧
      (later.1.stage ≠ .returned → ∃ event, later.1.isWindingDown event = true ∧
        later.1.Orderly back event ∧ later.1.step back event ≠ none) := by
  obtain ⟨⟨shuts, behind⟩, bound⟩ := ReachableUnder.metered_le
    (fun state => state.ShutsDown ∧ state.stage.afterWait = true) stepsToReturn
    (fun _ _ _ known orderly taken =>
      ⟨known.1.step orderly taken, afterWait_of_step known.2 taken⟩)
    (fun _ _ _ known _ taken => stepsToReturn_step known.1 known.2 taken)
    ⟨shutsDown_of_reachable reached, after⟩ run
  have atMost := stepsToReturn_le runtime
  exact ⟨by omega, shuts.goes_on behind⟩

/-- A shutdown of one worker that never had a task, behind `wait_all`. -/
def idleShutdown : ConcurrencyRuntime 1 := ⟨TaskScheduler.start 1, .signalling 0⟩

theorem shutdown_returns_idle :
    ∃ later, ReachableUnder (metered (step .ucLink) isWindingDown)
      (fun state => Orderly .ucLink state.1) (idleShutdown, 0) later ∧
        later.1.stage = .returned ∧ later.2 = 5 ∧ later.2 ≤ 11 := by
  have reached : ReachableUnder (step .ucLink) (Orderly .ucLink) (initialized 1) idleShutdown :=
    have unused : (initialized 1).Orderly .ucLink .shutdown := fun _ inProgress => by
      cases inProgress
    have free : Orderly .ucLink ⟨TaskScheduler.start 1, .waiting⟩ .proceed := trivial
    have called : step .ucLink (initialized 1) .shutdown =
        some ⟨TaskScheduler.start 1, .waiting⟩ := rfl
    have counted : step .ucLink ⟨TaskScheduler.start 1, .waiting⟩ .proceed =
        some idleShutdown := rfl
    .next (.next .start unused called) free counted
  have evaluated : (runSteps (guarded (metered (step .ucLink) isWindingDown)
      fun state => isOrderly .ucLink state.1) (idleShutdown, 0) (windDownRun 0).tail).map
        (fun later => (later.1.stage, later.2)) = some (.returned, 5) := by decide
  obtain ⟨later, ran, facts⟩ := Option.map_eq_some_iff.mp evaluated
  have run : ReachableUnder (metered (step .ucLink) isWindingDown)
      (fun state => Orderly .ucLink state.1) (idleShutdown, 0) later :=
    reachableUnder_of_guarded
      (fun (state : ConcurrencyRuntime 1 × ℕ) event => orderly_of_isOrderly state.1 event) ran
  obtain ⟨returned, count⟩ := Prod.mk.inj facts
  exact ⟨later, run, returned, count, (shutdown_returns reached rfl run).1⟩

end ConcurrencyRuntime

end Kode.Concurrency
