/-
# When the counter is zero, nothing runs again

`wait_all` polls `active_tasks_` until it reads zero. A zero means that every
counted task is retired, so the queues are empty and no worker executes a task.
Nothing can change that without a new `spawn` from outside: a task that another
task is spawning right now keeps its parent inside a fiber, and the parent is
counted.
-/

import Kode.Concurrency.SchedulerConservation

namespace Kode.Concurrency.TaskScheduler

open Kode.Library

variable {n : ℕ}

/-! ## Nested spawns -/

/-- While a task's function is inside `spawn`, its fiber is running on some worker
and stands in that very call. -/
def ParentOk (scheduler : TaskScheduler n) : Prop :=
  ∀ child parent, (scheduler.tasks child).spawn.inProgress = true →
    (scheduler.tasks child).spawner = some parent →
      (∃ worker, (scheduler.workers worker).phase = .inFiber parent) ∧
        (scheduler.tasks parent).point = .spawning child

/-- A step that starts no nested `spawn` only has to leave the fibers that are in
one where they are. -/
theorem ParentOk.frame {scheduler target : TaskScheduler n} (nested : scheduler.ParentOk)
    (stages : ∀ child, (target.tasks child).spawn.inProgress = true →
      (scheduler.tasks child).spawn.inProgress = true ∧
        (target.tasks child).spawner = (scheduler.tasks child).spawner ∨
      (target.tasks child).spawner = none)
    (fibers : ∀ worker parent child, (scheduler.workers worker).phase = .inFiber parent →
      (scheduler.tasks parent).point = .spawning child →
      (target.tasks child).spawn.inProgress = true →
        (target.workers worker).phase = .inFiber parent ∧
          (target.tasks parent).point = .spawning child) :
    target.ParentOk := by
  intro child parent inProgress spawner
  rcases stages child inProgress with ⟨before, same⟩ | outside
  · rw [same] at spawner
    obtain ⟨⟨worker, inside⟩, point⟩ := nested child parent before spawner
    obtain ⟨still, there⟩ := fibers worker parent child inside point inProgress
    exact ⟨⟨worker, still⟩, there⟩
  · rw [outside] at spawner
    cases spawner

/-- Changing one task outside of a nested `spawn`. -/
theorem ParentOk.setTask {scheduler : TaskScheduler n} (nested : scheduler.ParentOk)
    {task : TaskId} {change : Task n → Task n}
    (stage : (change (scheduler.tasks task)).spawn.inProgress = true →
      (scheduler.tasks task).spawn.inProgress = true)
    (spawner : (change (scheduler.tasks task)).spawner = (scheduler.tasks task).spawner)
    (point : ∀ child, (scheduler.tasks task).point = .spawning child →
      (change (scheduler.tasks task)).point = .spawning child) :
    (scheduler.setTask task change).ParentOk := by
  refine nested.frame (fun child inProgress => Or.inl ?_)
    fun worker parent child inside there _ => ⟨inside, ?_⟩
  · by_cases same : child = task
    · subst same
      simp only [TaskScheduler.setTask, Function.update_self] at inProgress ⊢
      exact ⟨stage inProgress, spawner⟩
    · simp only [TaskScheduler.setTask, Function.update_of_ne same] at inProgress ⊢
      exact ⟨inProgress, trivial⟩
  · by_cases same : parent = task
    · subst same
      simp only [TaskScheduler.setTask, Function.update_self]
      exact point child there
    · simpa only [TaskScheduler.setTask, Function.update_of_ne same] using there

/-- Changing one worker that is not inside a fiber in a nested `spawn`. -/
theorem ParentOk.setWorker {scheduler : TaskScheduler n} (nested : scheduler.ParentOk)
    {worker : Fin n} {change : Worker n → Worker n}
    (phase : ∀ parent child, (scheduler.workers worker).phase = .inFiber parent →
      (scheduler.tasks parent).point = .spawning child →
        (change (scheduler.workers worker)).phase = .inFiber parent) :
    (scheduler.setWorker worker change).ParentOk := by
  refine nested.frame (fun child inProgress => Or.inl ⟨inProgress, rfl⟩)
    fun other parent child inside there _ => ⟨?_, there⟩
  by_cases same : other = worker
  · subst same
    simp only [TaskScheduler.setWorker, Function.update_self]
    exact phase parent child inside there
  · simpa only [TaskScheduler.setWorker, Function.update_of_ne same] using inside

/-- A worker outside the fibers moves freely. -/
theorem ParentOk.setPhase {scheduler : TaskScheduler n} (nested : scheduler.ParentOk)
    {worker : Fin n} (outside : ∀ task, (scheduler.workers worker).phase ≠ .inFiber task)
    (phase : Phase) : (scheduler.setPhase worker phase).ParentOk :=
  nested.setWorker fun parent _ inside _ => absurd inside (outside parent)

/-- A worker outside the fibers moves after it has changed the local queue of a worker. -/
theorem ParentOk.setQueue {scheduler : TaskScheduler n} (nested : scheduler.ParentOk)
    {worker owner : Fin n} (outside : ∀ task, (scheduler.workers worker).phase ≠ .inFiber task)
    {change : Worker n → Worker n}
    (stays : (change (scheduler.workers owner)).phase = (scheduler.workers owner).phase)
    (phase : Phase) : ((scheduler.setWorker owner change).setPhase worker phase).ParentOk := by
  have changed : (scheduler.setWorker owner change).ParentOk :=
    nested.setWorker fun _ _ inside _ => stays.trans inside
  refine changed.setPhase (fun other => ?_) phase
  by_cases same : worker = owner
  · subst same
    simpa [TaskScheduler.setWorker, stays] using outside other
  · simpa [TaskScheduler.setWorker, same] using outside other

/-- The new task stands outside all the books: its id is not in use and no fiber
bears it. -/
theorem ParentOk.allocate {scheduler : TaskScheduler n} (nested : scheduler.ParentOk)
    (sound : scheduler.ledger.Sound) : (scheduler.allocate none).ParentOk := by
  refine nested.frame (fun child inProgress => ?_) fun worker parent child inside there _ =>
    ⟨inside, ?_⟩
  · by_cases same : child = scheduler.nextTaskId
    · subst same
      right
      simp [TaskScheduler.allocate, TaskScheduler.setTask]
    · left
      simpa [TaskScheduler.allocate, TaskScheduler.setTask, same] using inProgress
  · have earlier : parent < scheduler.nextTaskId :=
      executing_lt_next sound (Phase.executing_of_inFiber inside)
    simpa [TaskScheduler.allocate, TaskScheduler.setTask, earlier.ne] using there

/-- A fiber that leaves `spawn` was in no other call of it. -/
theorem ParentOk.registerChild {scheduler : TaskScheduler n} (nested : scheduler.ParentOk)
    {task parent : TaskId} (stage : (scheduler.tasks task).spawn = .scheduled)
    (spawner : (scheduler.tasks task).spawner = some parent) :
    (({ scheduler with activeTaskMap := insert task scheduler.activeTaskMap }.setTask task
      fun current => { current with spawn := .registered }).setPoint parent .body).ParentOk := by
  obtain ⟨-, here⟩ := nested task parent (by rw [stage]; rfl) spawner
  refine nested.frame (fun child inProgress => Or.inl ?_)
    fun worker other child inside there inProgress => ⟨inside, ?_⟩
  · by_cases same : child = task
    · subst same
      by_cases own : child = parent <;>
        simp [TaskScheduler.setTask, setPoint, own, SpawnStage.inProgress] at inProgress
    · by_cases own : child = parent
      · subst own
        simpa [TaskScheduler.setTask, setPoint, same] using inProgress
      · simpa [TaskScheduler.setTask, setPoint, own, same] using inProgress
  · by_cases own : other = parent
    · subst own
      -- The call that returns is the one the fiber stands in, so it is the child's own.
      rw [here] at there
      obtain rfl := FiberPoint.spawning.inj there
      by_cases selfSpawned : task = other <;>
        simp [TaskScheduler.setTask, setPoint, selfSpawned, SpawnStage.inProgress] at inProgress
    · by_cases same : other = task
      · subst same
        simpa [TaskScheduler.setTask, setPoint, own] using there
      · simpa [TaskScheduler.setTask, setPoint, own, same] using there

theorem ParentOk.sharedMove {scheduler target : TaskScheduler n} {event : SchedulerEvent n}
    (nested : scheduler.ParentOk) (sound : scheduler.ledger.Sound)
    (move : SharedMove scheduler event target) : target.ParentOk := by
  cases move with
  | allocate => exact nested.allocate sound
  | count task stage =>
      have counted : ParentOk { scheduler with activeTasks := scheduler.activeTasks + 1 } :=
        nested
      exact counted.setTask (fun _ => by simp [stage, SpawnStage.inProgress]) rfl fun _ => id
  | schedule task stage =>
      have queued : ParentOk { scheduler with globalQueue := scheduler.globalQueue ++ [task] } :=
        nested
      exact queued.setTask (fun _ => by simp [stage, SpawnStage.inProgress]) rfl fun _ => id
  | register task stage outside =>
      have mapped : ParentOk { scheduler with
          activeTaskMap := insert task scheduler.activeTaskMap } := nested
      exact mapped.setTask (fun _ => by simp [stage, SpawnStage.inProgress]) rfl fun _ => id
  | registerChild task parent stage inside => exact nested.registerChild stage inside
  | ignore => exact nested
  | expire task => exact nested
  | cancelFlag task =>
      have flagged : ParentOk { scheduler with cancelling := some task } := nested
      exact flagged.setTask id rfl fun _ => id
  | cancelState task =>
      have stored : ParentOk { scheduler with
          cancelling := none
          activeTaskMap := scheduler.activeTaskMap.erase task } := nested
      exact stored.setTask id rfl fun _ => id
  | stop worker => exact nested.setWorker fun _ _ inside _ => inside

theorem ParentOk.workerMove {scheduler target : TaskScheduler n} {worker : Fin n}
    {choice : StealChoice n} (nested : scheduler.ParentOk)
    (move : WorkerMove scheduler worker choice target) :
    target.ParentOk := by
  have outside := move.outside
  cases move with
  | search phase before after _ => exact nested.setPhase outside phase
  | takeLocal owner task rest before queue _ => exact nested.setQueue outside rfl _
  | takeGlobal task rest before queue =>
      have popped : ParentOk { scheduler with globalQueue := scheduler.globalQueue.tail } :=
        nested
      exact popped.setPhase outside _
  | enter task before =>
      have entered : (scheduler.setWorker worker fun current =>
          { current with
            phase := .inFiber task, currentTask := some task,
            schedCtx := some worker }).ParentOk :=
        nested.setWorker fun parent _ inside _ => absurd inside (outside parent)
      refine entered.setTask id rfl fun child there => ?_
      have notSuspended : (scheduler.tasks task).point ≠ .suspended := by
        intro suspended
        exact absurd (suspended.symm.trans there) (by simp)
      exact (if_neg notSuspended).trans there
  | keep task before state => exact nested.setPhase outside _
  | discard task before state => exact nested.setPhase outside _
  | reenqueue task before =>
      exact nested.setWorker fun parent _ inside _ => absurd inside (outside parent)
  | retire task before =>
      have recorded : ParentOk { scheduler with
          activeTasks := fetchSub scheduler.activeTasks
          retired := scheduler.retired ++ [task] } := nested
      exact recorded.setPhase outside _
  | clear task before =>
      exact nested.setWorker fun parent _ inside _ => absurd inside (outside parent)
  | strayReenqueue frame task before =>
      exact nested.setQueue outside rfl _
  | strayRetire task before =>
      have recorded : ParentOk { scheduler with
          activeTasks := fetchSub scheduler.activeTasks
          retired := scheduler.retired ++ [task] } := nested
      exact recorded.setPhase outside _

/-- A fiber that is not inside `spawn` moves freely. -/
theorem ParentOk.setPoint {scheduler : TaskScheduler n} (nested : scheduler.ParentOk)
    {task : TaskId} (free : ∀ child, (scheduler.tasks task).point ≠ .spawning child)
    (point : FiberPoint) : (scheduler.setPoint task point).ParentOk :=
  nested.setTask id rfl fun child there => absurd there (free child)

theorem ParentOk.leaveFiber {scheduler : TaskScheduler n} (nested : scheduler.ParentOk)
    {worker : Fin n} {task : TaskId}
    (inside : (scheduler.workers worker).phase = .inFiber task)
    (free : ∀ child, (scheduler.tasks task).point ≠ .spawning child) (target : Fin n) :
    (scheduler.leaveFiber worker target task).ParentOk := by
  unfold TaskScheduler.leaveFiber TaskScheduler.setPhase
  refine nested.setWorker fun parent child within there => ?_
  obtain rfl : task = parent := Phase.inFiber.inj (inside.symm.trans within)
  exact absurd there (free child)

/-- The new child has its parent, and the parent had no other. -/
theorem ParentOk.spawn {scheduler : TaskScheduler n} (nested : scheduler.ParentOk)
    (sound : scheduler.ledger.Sound) {worker : Fin n} {task : TaskId}
    (inside : (scheduler.workers worker).phase = .inFiber task)
    (body : (scheduler.tasks task).point = .body) :
    ((scheduler.allocate (some task)).setPoint task
      (.spawning scheduler.nextTaskId)).ParentOk := by
  have earlier : task < scheduler.nextTaskId :=
    executing_lt_next sound (Phase.executing_of_inFiber inside)
  intro child parent inProgress spawner
  by_cases new : child = scheduler.nextTaskId
  · subst new
    obtain rfl : task = parent := by
      simpa [TaskScheduler.setPoint, TaskScheduler.setTask, TaskScheduler.allocate,
        earlier.ne'] using spawner
    exact ⟨⟨worker, inside⟩, by simp [TaskScheduler.setPoint, TaskScheduler.setTask]⟩
  · have before : (scheduler.tasks child).spawn.inProgress = true ∧
        (scheduler.tasks child).spawner = some parent := by
      by_cases own : child = task
      · subst own
        simp_all [TaskScheduler.setPoint, TaskScheduler.setTask, TaskScheduler.allocate]
      · simp_all [TaskScheduler.setPoint, TaskScheduler.setTask, TaskScheduler.allocate]
    obtain ⟨⟨other, elsewhere⟩, there⟩ := nested child parent before.1 before.2
    have different : parent ≠ task := by
      rintro rfl
      exact absurd (body.symm.trans there) (by simp)
    have known : parent < scheduler.nextTaskId :=
      executing_lt_next sound (Phase.executing_of_inFiber elsewhere)
    refine ⟨⟨other, elsewhere⟩, ?_⟩
    simpa [TaskScheduler.setPoint, TaskScheduler.setTask, TaskScheduler.allocate, different,
      known.ne] using there

theorem ParentOk.fiberMove {back : SwitchBack} {scheduler target : TaskScheduler n}
    {worker : Fin n} {task : TaskId} (nested : scheduler.ParentOk)
    (sound : scheduler.ledger.Sound)
    (inside : (scheduler.workers worker).phase = .inFiber task)
    (move : FiberMove back scheduler worker task target) : target.ParentOk := by
  have free := move.notSpawning
  cases move with
  | stay => exact nested
  | goto point move => exact nested.setPoint free point
  | store state point move =>
      exact nested.setTask id rfl fun child there => absurd there (free child)
  | spawn body => exact nested.spawn sound inside body
  | switchOut owner point recorded =>
      exact (nested.setPoint free .suspended).leaveFiber inside
        (by simp [TaskScheduler.setPoint, TaskScheduler.setTask]) owner
  | noContext => exact nested.setPoint free _
  | finish point => exact nested.leaveFiber inside free _

theorem ParentOk.step {back : SwitchBack} {scheduler target : TaskScheduler n}
    {event : SchedulerEvent n} (nested : scheduler.ParentOk) (sound : scheduler.ledger.Sound)
    (taken : scheduler.step back event = some target) : target.ParentOk := by
  rcases step_move taken with
    move | ⟨worker, choice, rfl, move⟩ | ⟨worker, action, task, rfl, inside, move⟩
  · exact nested.sharedMove sound move
  · exact nested.workerMove move
  · exact nested.fiberMove sound inside move

/-! ## Threads on their own stacks -/

/-- No thread is on the stack of another worker. -/
def OnTrack (scheduler : TaskScheduler n) : Prop :=
  ∀ worker, (scheduler.workers worker).phase.onTrack = true

theorem OnTrack.setWorker {scheduler : TaskScheduler n} (onTrack : scheduler.OnTrack)
    {worker : Fin n} {change : Worker n → Worker n}
    (here : (change (scheduler.workers worker)).phase.onTrack = true) :
    (scheduler.setWorker worker change).OnTrack := by
  intro other
  by_cases same : other = worker
  · subst same
    simpa [TaskScheduler.setWorker] using here
  · simpa [TaskScheduler.setWorker, same] using onTrack other

theorem OnTrack.setPhase {scheduler : TaskScheduler n} (onTrack : scheduler.OnTrack)
    {worker : Fin n} {phase : Phase} (here : phase.onTrack = true) :
    (scheduler.setPhase worker phase).OnTrack :=
  onTrack.setWorker here

theorem OnTrack.workerMove {scheduler target : TaskScheduler n} {worker : Fin n}
    {choice : StealChoice n} (onTrack : scheduler.OnTrack)
    (move : WorkerMove scheduler worker choice target) : target.OnTrack := by
  have here := onTrack worker
  cases move with
  | search phase before after still => exact onTrack.setPhase still
  | takeLocal owner task rest before queue _ =>
      have popped : (scheduler.setWorker owner fun current =>
          { current with localQueue := current.localQueue.tail }).OnTrack :=
        onTrack.setWorker (onTrack owner)
      exact popped.setPhase rfl
  | takeGlobal task rest before queue =>
      have popped : OnTrack { scheduler with globalQueue := scheduler.globalQueue.tail } :=
        onTrack
      exact popped.setPhase rfl
  | enter task before =>
      have entered : (scheduler.setWorker worker fun current =>
          { current with
            phase := .inFiber task, currentTask := some task,
            schedCtx := some worker }).OnTrack := onTrack.setWorker rfl
      exact entered
  | keep task before state | discard task before state | reenqueue task before
  | clear task before => exact onTrack.setWorker rfl
  | retire task before =>
      have recorded : OnTrack { scheduler with
          activeTasks := fetchSub scheduler.activeTasks
          retired := scheduler.retired ++ [task] } := onTrack
      exact recorded.setPhase rfl
  | strayReenqueue frame task before | strayRetire task before =>
      rw [before] at here
      cases here

theorem OnTrack.leaveFiber {scheduler : TaskScheduler n} (onTrack : scheduler.OnTrack)
    (worker : Fin n) (task : TaskId) : (scheduler.leaveFiber worker worker task).OnTrack :=
  onTrack.setPhase (by rw [if_pos rfl]; rfl)

theorem OnTrack.fiberMove {back : SwitchBack} {scheduler target : TaskScheduler n}
    {worker : Fin n} {task : TaskId} (onTrack : scheduler.OnTrack)
    (context : scheduler.ContextOk) (inside : (scheduler.workers worker).phase = .inFiber task)
    (home : (scheduler.tasks task).point = .over →
      back.worker worker (scheduler.tasks task) = worker)
    (move : FiberMove back scheduler worker task target) : target.OnTrack := by
  cases move with
  | switchOut owner point recorded =>
      rw [(context worker task inside).1] at recorded
      obtain rfl := Option.some.inj recorded
      have suspended : (scheduler.setPoint task .suspended).OnTrack := onTrack
      exact suspended.leaveFiber worker task
  | finish point =>
      rw [home point]
      exact onTrack.leaveFiber worker task
  | _ => exact onTrack

theorem OnTrack.step {back : SwitchBack} {scheduler target : TaskScheduler n}
    {event : SchedulerEvent n} (onTrack : scheduler.OnTrack) (context : scheduler.ContextOk)
    (home : scheduler.ReturnsHome back event)
    (taken : scheduler.step back event = some target) : target.OnTrack := by
  rcases step_move taken with
    move | ⟨worker, choice, rfl, move⟩ | ⟨worker, action, task, rfl, inside, move⟩
  · cases move with
    | stop worker => exact onTrack.setWorker (onTrack worker)
    | _ => exact onTrack
  · exact onTrack.workerMove move
  · exact onTrack.fiberMove context inside (home worker action task rfl inside) move

/-- The invariants of the scheduler that hold as long as fibers return to the
worker that entered them. -/
structure Consistent (scheduler : TaskScheduler n) : Prop where
  context : scheduler.ContextOk
  sound : scheduler.ledger.Sound
  nested : scheduler.ParentOk
  onTrack : scheduler.OnTrack

theorem consistent_start : (start n).Consistent where
  context := contextOk_start
  sound := sound_start
  nested _ _ unborn := by cases unborn
  onTrack _ := rfl

theorem Consistent.step {back : SwitchBack} {scheduler target : TaskScheduler n}
    {event : SchedulerEvent n} (consistent : scheduler.Consistent)
    (home : scheduler.ReturnsHome back event)
    (taken : scheduler.step back event = some target) : target.Consistent where
  context := consistent.context.step taken
  sound := consistent.sound.step (ledger_step consistent.context home taken)
  nested := consistent.nested.step consistent.sound taken
  onTrack := consistent.onTrack.step consistent.context home taken

theorem consistent_of_reachable {scheduler : TaskScheduler n}
    (reached : Reachable (TaskScheduler.step .resumer) (start n) scheduler) :
    scheduler.Consistent :=
  reached.invariant consistent_start fun state event _ consistent _ taken =>
    consistent.step (state.returns_resumer.home event) taken

theorem consistent_of_home {back : SwitchBack} {scheduler : TaskScheduler n}
    (reached : ReachableUnder (TaskScheduler.step back) (ReturnsHome back) (start n) scheduler) :
    scheduler.Consistent :=
  reached.invariant consistent_start fun _ _ _ consistent home taken =>
    consistent.step home taken

/-! ## Quiet states -/

/-- Nothing is queued, executed or being spawned. -/
structure Quiet (scheduler : TaskScheduler n) : Prop where
  globalQueue : scheduler.globalQueue = []
  localQueue : ∀ worker, (scheduler.workers worker).localQueue = []
  executing : ∀ worker, (scheduler.workers worker).phase.executing = none
  noSpawn : ∀ task, (scheduler.tasks task).spawn.inProgress = false

/-- A zero counter outside of every outside `spawn` is a quiet state. -/
theorem quiet_of_activeTasks_eq_zero {scheduler : TaskScheduler n}
    (sound : scheduler.ledger.Sound) (nested : scheduler.ParentOk)
    (zero : scheduler.activeTasks = 0)
    (noSpawn : ∀ task, (scheduler.tasks task).spawn.inProgress = true →
      (scheduler.tasks task).spawner ≠ none) : scheduler.Quiet := by
  have nobody : ∀ task, task ∉ scheduler.ledger.live := by
    have empty : scheduler.ledger.live.card = 0 := sound.active.symm.trans zero
    rw [Finset.card_eq_zero] at empty
    simp [empty]
  -- Whatever occurs outside the retired tasks would be live.
  have settled : ∀ task, scheduler.occurrences task ≤ scheduler.retired.count task :=
    fun task => Nat.le_of_not_lt fun outside => nobody task (sound.mem_live_of_lt outside)
  have idle : ∀ worker, (scheduler.workers worker).phase.executing = none := by
    intro worker
    cases hands : (scheduler.workers worker).phase.executing with
    | none => rfl
    | some task => exact absurd (executing_live sound hands) (nobody task)
  refine ⟨?_, fun worker => ?_, idle, fun task => ?_⟩
  · refine List.eq_nil_iff_forall_not_mem.mpr fun task queued => ?_
    have counted := List.count_pos_iff.mpr queued
    have atMost := settled task
    simp only [occurrences] at atMost
    omega
  · refine List.eq_nil_iff_forall_not_mem.mpr fun task queued => ?_
    have counted := List.count_pos_iff.mpr queued
    have atMost := settled task
    have part := le_sum_family (fun w => workerOccurrences task (scheduler.workers w)) worker
    simp only [occurrences] at atMost
    simp only [workerOccurrences] at part atMost
    omega
  · by_contra inProgress
    rw [Bool.not_eq_false] at inProgress
    obtain ⟨parent, spawner⟩ := Option.ne_none_iff_exists'.mp (noSpawn task inProgress)
    obtain ⟨⟨worker, inside⟩, -⟩ := nested task parent inProgress spawner
    have busy := Phase.executing_of_inFiber inside
    rw [idle worker] at busy
    cases busy

theorem Quiet.setWorker {scheduler : TaskScheduler n} (quiet : scheduler.Quiet)
    {worker : Fin n} {change : Worker n → Worker n}
    (queue : (change (scheduler.workers worker)).localQueue =
      (scheduler.workers worker).localQueue)
    (hands : (change (scheduler.workers worker)).phase.executing = none) :
    (scheduler.setWorker worker change).Quiet where
  globalQueue := quiet.globalQueue
  localQueue other := by
    by_cases same : other = worker
    · subst same
      simpa [TaskScheduler.setWorker] using queue.trans (quiet.localQueue other)
    · simpa [TaskScheduler.setWorker, same] using quiet.localQueue other
  executing other := by
    by_cases same : other = worker
    · subst same
      simpa [TaskScheduler.setWorker] using hands
    · simpa [TaskScheduler.setWorker, same] using quiet.executing other
  noSpawn := quiet.noSpawn

theorem Quiet.setTask {scheduler : TaskScheduler n} (quiet : scheduler.Quiet) {task : TaskId}
    {change : Task n → Task n} (same : ∀ current, (change current).spawn = current.spawn) :
    (scheduler.setTask task change).Quiet where
  globalQueue := quiet.globalQueue
  localQueue := quiet.localQueue
  executing := quiet.executing
  noSpawn other := by
    by_cases here : other = task
    · subst here
      simpa [TaskScheduler.setTask, same] using quiet.noSpawn other
    · simpa [TaskScheduler.setTask, here] using quiet.noSpawn other

theorem Quiet.sharedMove {scheduler target : TaskScheduler n} {event : SchedulerEvent n}
    (quiet : scheduler.Quiet) (notSpawn : event ≠ .spawn)
    (move : SharedMove scheduler event target) : target.Quiet := by
  cases move with
  | allocate => exact absurd rfl notSpawn
  | count task stage | schedule task stage | register task stage _
  | registerChild task _ stage _ =>
      have idle := quiet.noSpawn task
      rw [stage] at idle
      cases idle
  | ignore => exact quiet
  | expire task => exact ⟨quiet.globalQueue, quiet.localQueue, quiet.executing, quiet.noSpawn⟩
  | cancelFlag task =>
      have flagged : Quiet { scheduler with cancelling := some task } :=
        ⟨quiet.globalQueue, quiet.localQueue, quiet.executing, quiet.noSpawn⟩
      exact flagged.setTask fun _ => rfl
  | cancelState task =>
      have stored : Quiet { scheduler with
          cancelling := none
          activeTaskMap := scheduler.activeTaskMap.erase task } :=
        ⟨quiet.globalQueue, quiet.localQueue, quiet.executing, quiet.noSpawn⟩
      exact stored.setTask fun _ => rfl
  | stop worker => exact quiet.setWorker rfl (quiet.executing worker)

theorem Quiet.workerMove {scheduler target : TaskScheduler n} {worker : Fin n}
    {choice : StealChoice n} (quiet : scheduler.Quiet)
    (move : WorkerMove scheduler worker choice target) : target.Quiet := by
  have idle := quiet.executing worker
  cases move with
  | search phase before after _ =>
      exact quiet.setWorker rfl (Phase.executing_of_holds after)
  | takeLocal owner task rest before queue _ =>
      rw [quiet.localQueue owner] at queue
      cases queue
  | takeGlobal task rest before queue =>
      rw [quiet.globalQueue] at queue
      cases queue
  | enter task before | keep task before _ | discard task before _ | reenqueue task before
  | retire task before | strayReenqueue _ task before | strayRetire task before =>
      rw [before] at idle
      cases idle
  | clear task before => exact quiet.setWorker rfl rfl

/-- Without a new outside `spawn`, a quiet scheduler stays quiet: the workers find
nothing, and no fiber runs that could spawn. -/
theorem Quiet.step {back : SwitchBack} {scheduler target : TaskScheduler n}
    {event : SchedulerEvent n} (quiet : scheduler.Quiet) (notSpawn : event ≠ .spawn)
    (taken : scheduler.step back event = some target) : target.Quiet := by
  rcases step_move taken with
    move | ⟨worker, choice, rfl, move⟩ | ⟨worker, action, task, rfl, inside, move⟩
  · exact quiet.sharedMove notSpawn move
  · exact quiet.workerMove move
  · have busy := Phase.executing_of_inFiber inside
    rw [quiet.executing worker] at busy
    cases busy

/-! ## Conservation of tasks -/

/-- In every reachable state each scheduled task is once at one place, no task was
retired twice, `active_tasks_` is the number of counted tasks that are not retired
and is positive whenever a worker is about to decrement it. Where it is zero and no
outside thread is inside `spawn`, the scheduler is quiet and stays so until the
next outside `spawn`. -/
theorem tasks_conserved {scheduler : TaskScheduler n}
    (reached : Reachable (step .resumer) (start n) scheduler) :
    (∀ task, (scheduler.tasks task).spawn.isScheduled = true →
      ∃ place, scheduler.timesAt task place = 1 ∧
        ∀ other, other ≠ place → scheduler.timesAt task other = 0) ∧
    scheduler.retired.Nodup ∧
    scheduler.activeTasks = scheduler.ledger.live.card ∧
    (∀ worker task, (scheduler.workers worker).phase = .retire task →
      0 < scheduler.activeTasks) ∧
    (scheduler.activeTasks = 0 →
      (∀ task, (scheduler.tasks task).spawn.inProgress = true →
        (scheduler.tasks task).spawner ≠ none) →
      ∀ later, ReachableUnder (step .resumer) (fun _ event => event ≠ .spawn) scheduler later →
        later.globalQueue = [] ∧
          ∀ worker, (later.workers worker).localQueue = [] ∧
            (later.workers worker).phase.executing = none) := by
  obtain ⟨-, sound, nested, -⟩ := consistent_of_reachable reached
  refine ⟨fun task => place_of_scheduled sound, sound.retired_nodup, sound.active, ?_, ?_⟩
  · intro worker task retiring
    have executing : (scheduler.workers worker).phase.executing = some task := by
      rw [retiring]
      rfl
    calc 0 < scheduler.ledger.live.card :=
          Finset.card_pos.mpr ⟨task, executing_live sound executing⟩
      _ = scheduler.activeTasks := sound.active.symm
  · intro zero noSpawn later after
    have quiet := quiet_of_activeTasks_eq_zero sound nested zero noSpawn
    have stays : later.Quiet :=
      after.invariant quiet fun _ _ _ quiet notSpawn taken => quiet.step notSpawn taken
    exact ⟨stays.globalQueue, fun worker => ⟨stays.localQueue worker, stays.executing worker⟩⟩

/-- Task 1 spawns task 2 and yields on the first worker; the second worker runs task 2
to its end, then steals task 1 and runs it to its end. -/
def nestedSpawnRun (first second : Fin n) : List (SchedulerEvent n) :=
  List.flatten [
    [.spawn, .spawnCount 1, .spawnSchedule 1, .spawnRegister 1],
    List.replicate 4 (.worker first ⟨true, first⟩),
    [.fiber first .advance, .fiber first .advance, .fiber first .spawn,
      .spawnCount 2, .spawnSchedule 2, .spawnRegister 2,
      .fiber first .yield, .fiber first .advance, .fiber first .advance, .fiber first .advance],
    List.replicate 3 (.worker first ⟨true, first⟩),
    List.replicate 4 (.worker second ⟨true, first⟩),
    [.fiber second .advance, .fiber second .advance, .fiber second .return,
      .fiber second .advance, .fiber second .advance],
    List.replicate 8 (.worker second ⟨true, first⟩),
    [.fiber second .advance, .fiber second .return, .fiber second .advance,
      .fiber second .advance],
    List.replicate 3 (.worker second ⟨true, first⟩)]

theorem tasks_conserved_nestedSpawn :
    ∃ scheduler, runSteps (step .resumer) (start 2) (nestedSpawnRun 0 1) = some scheduler ∧
      scheduler.retired = [2, 1] ∧ scheduler.ledger.live.card = 0 ∧
      (∃ place, scheduler.timesAt 1 place = 1 ∧
        ∀ other, other ≠ place → scheduler.timesAt 1 other = 0) ∧
      ∀ later, ReachableUnder (step .resumer) (fun _ event => event ≠ .spawn) scheduler later →
        later.globalQueue = [] := by
  have evaluated : (runSteps (step .resumer) (start 2) (nestedSpawnRun 0 1)).map
      (fun s => (s.retired, s.activeTasks, s.nextTaskId, (s.tasks 1).spawn,
        decide (∀ task : ℕ, task < 3 → (s.tasks task).spawn.inProgress = false))) =
        some ([2, 1], 0, 3, .registered, true) := by decide
  obtain ⟨scheduler, ran, facts⟩ := Option.map_eq_some_iff.mp evaluated
  simp only [Prod.mk.injEq] at facts
  obtain ⟨retired, zero, next, registered, finishedBelow⟩ := facts
  have reached := reachable_of_runSteps ran
  have finished : ∀ task, (scheduler.tasks task).spawn.inProgress = false := by
    intro task
    by_cases known : task < 3
    · exact of_decide_eq_true finishedBelow task known
    · have unborn : (scheduler.tasks task).spawn = .unborn :=
        (consistent_of_reachable reached).sound.unborn task (next.le.trans (Nat.le_of_not_lt known))
      rw [unborn]
      rfl
  obtain ⟨places, -, active, -, quiet⟩ := tasks_conserved reached
  refine ⟨scheduler, ran, retired, active.symm.trans zero, places 1 ?_, fun later after => ?_⟩
  · rw [registered]
    rfl
  · refine (quiet zero (fun task inProgress => ?_) later after).1
    rw [finished task] at inProgress
    cases inProgress

end Kode.Concurrency.TaskScheduler
