/-
# Rules for the places of a task

Some properties of a task depend on where it is: a task in the global queue has
never run, one in a local queue is suspended in `yield`, one in the hands of a
worker is as far as the worker's phase says. Such a property is a rule with one
clause for each kind of place. Because a task is at one place only, a step has to
be checked against the clause of the place it moves a task to and nothing else;
the lemmas of this module do that once for all rules.
-/

import Kode.Concurrency.SchedulerQuiescence

namespace Kode.Concurrency

open Kode.Library

variable {n : ℕ}

/-- What the worker and the fiber of a task change: not its `spawn`, not its
`cancelled_` flag. -/
@[ext]
structure FiberView (n : ℕ) where
  state : TaskState
  ucLink : Option (Fin n)
  point : FiberPoint

/-- The view of a task. -/
def Task.view (task : Task n) : FiberView n := ⟨task.state, task.ucLink, task.point⟩

@[simp]
theorem Task.view_state (task : Task n) : task.view.state = task.state := rfl

@[simp]
theorem Task.view_ucLink (task : Task n) : task.view.ucLink = task.ucLink := rfl

@[simp]
theorem Task.view_point (task : Task n) : task.view.point = task.point := rfl

/-- A property of tasks by place. -/
structure PlaceRule (n : ℕ) where
  /-- Not scheduled yet, or in the global queue. -/
  fresh : FiberView n → Prop
  /-- In the local queue of a worker. -/
  queued : Fin n → FiberView n → Prop
  /-- In the hands of a worker. -/
  held : Fin n → Phase → FiberView n → Prop
  retired : FiberView n → Prop

namespace TaskScheduler

/-! ## A task is at one place -/

theorem alone_of_timesAt {scheduler : TaskScheduler n} (sound : scheduler.ledger.Sound)
    {task : TaskId} {place other : Place n} (here : 0 < scheduler.timesAt task place)
    (different : other ≠ place) : scheduler.timesAt task other = 0 := by
  have atMost := le_sum_family (scheduler.timesAt task) place
  have placed : scheduler.occurrences task = _ := sound.placed task
  rw [sum_timesAt] at atMost
  split_ifs at placed with scheduled
  · obtain ⟨only, _, elsewhere⟩ := place_of_scheduled sound scheduled
    have same : place = only := by
      by_contra distinct
      exact here.ne' (elsewhere place distinct)
    exact elsewhere other (same ▸ different)
  · omega

theorem timesAt_executing_pos {scheduler : TaskScheduler n} {worker : Fin n} {task : TaskId} :
    0 < scheduler.timesAt task (.executing worker) ↔
      (scheduler.workers worker).phase.executing = some task := by
  simp only [timesAt]
  split_ifs with hands <;> simp [hands]

theorem timesAt_globalQueue_pos {scheduler : TaskScheduler n} {task : TaskId} :
    0 < scheduler.timesAt task .globalQueue ↔ task ∈ scheduler.globalQueue :=
  List.count_pos_iff

theorem timesAt_localQueue_pos {scheduler : TaskScheduler n} {worker : Fin n} {task : TaskId} :
    0 < scheduler.timesAt task (.localQueue worker) ↔
      task ∈ (scheduler.workers worker).localQueue :=
  List.count_pos_iff

theorem timesAt_retired_pos {scheduler : TaskScheduler n} {task : TaskId} :
    0 < scheduler.timesAt task .retired ↔ task ∈ scheduler.retired :=
  List.count_pos_iff

/-- A task that is not scheduled is nowhere. -/
theorem timesAt_of_unscheduled {scheduler : TaskScheduler n} (sound : scheduler.ledger.Sound)
    {task : TaskId} (unscheduled : (scheduler.tasks task).spawn.isScheduled = false)
    (place : Place n) : scheduler.timesAt task place = 0 := by
  have atMost := le_sum_family (scheduler.timesAt task) place
  have placed : scheduler.occurrences task = 0 :=
    (sound.placed task).trans (if_neg (by simpa [ledger] using unscheduled))
  rw [sum_timesAt] at atMost
  omega

theorem isScheduled_of_executing {scheduler : TaskScheduler n} (sound : scheduler.ledger.Sound)
    {worker : Fin n} {task : TaskId}
    (hands : (scheduler.workers worker).phase.executing = some task) :
    (scheduler.tasks task).spawn.isScheduled = true := by
  by_contra unscheduled
  have nowhere := timesAt_of_unscheduled sound (Bool.not_eq_true _ ▸ unscheduled)
    (.executing worker)
  exact (timesAt_executing_pos.mpr hands).ne' nowhere

end TaskScheduler

namespace PlaceRule

open TaskScheduler

/-- Every task meets the clause of the place it is at. -/
structure Governs (rule : PlaceRule n) (scheduler : TaskScheduler n) : Prop where
  fresh : ∀ task, (scheduler.tasks task).spawn.isScheduled = false ∨
    task ∈ scheduler.globalQueue → rule.fresh (scheduler.tasks task).view
  queued : ∀ worker task, task ∈ (scheduler.workers worker).localQueue →
    rule.queued worker (scheduler.tasks task).view
  held : ∀ worker task, (scheduler.workers worker).phase.executing = some task →
    rule.held worker (scheduler.workers worker).phase (scheduler.tasks task).view
  retired : ∀ task ∈ scheduler.retired, rule.retired (scheduler.tasks task).view

variable {rule : PlaceRule n} {scheduler target : TaskScheduler n}

/-- A task in the hands of a worker changes there, and the clause of the worker's
new phase is all there is to check. -/
theorem Governs.hand (governs : rule.Governs scheduler) (sound : scheduler.ledger.Sound)
    {worker : Fin n} {task : TaskId}
    (hands : (scheduler.workers worker).phase.executing = some task)
    (global : target.globalQueue = scheduler.globalQueue)
    (retired : target.retired = scheduler.retired)
    (queues : ∀ v, (target.workers v).localQueue = (scheduler.workers v).localQueue)
    (phases : ∀ v, v ≠ worker → (target.workers v).phase = (scheduler.workers v).phase)
    (stages : ∀ t, (target.tasks t).spawn = (scheduler.tasks t).spawn)
    (views : ∀ t, t ≠ task → (target.tasks t).view = (scheduler.tasks t).view)
    (still : (target.workers worker).phase.executing = some task)
    (meets : rule.held worker (target.workers worker).phase (target.tasks task).view) :
    rule.Governs target := by
  have here := timesAt_executing_pos.mpr hands
  -- Whatever is at another place is another task.
  have other : ∀ {t : TaskId} {place : Place n}, place ≠ .executing worker →
      0 < scheduler.timesAt t place → t ≠ task := by
    rintro t place different there rfl
    exact there.ne' (alone_of_timesAt sound here different)
  refine ⟨fun t where_ => ?_, fun v t queued => ?_, fun v t executing => ?_, fun t dead => ?_⟩
  · rw [stages, global] at where_
    have different : t ≠ task := by
      rcases where_ with unscheduled | queued
      · rintro rfl
        rw [isScheduled_of_executing sound hands] at unscheduled
        cases unscheduled
      · exact other (by simp) (timesAt_globalQueue_pos.mpr queued)
    rw [views t different]
    exact governs.fresh t where_
  · rw [queues] at queued
    rw [views t (other (by simp) (timesAt_localQueue_pos.mpr queued))]
    exact governs.queued v t queued
  · by_cases same : v = worker
    · subst same
      obtain rfl : task = t := Option.some.inj (still.symm.trans executing)
      exact meets
    · rw [phases v same] at executing ⊢
      have different : t ≠ task :=
        other (by simpa using same) (timesAt_executing_pos.mpr executing)
      rw [views t different]
      exact governs.held v t executing
  · rw [retired] at dead
    rw [views t (other (by simp) (timesAt_retired_pos.mpr dead))]
    exact governs.retired t dead

/-- The clause of the phase that a worker is known to be in. -/
theorem Governs.held_of_phase (governs : rule.Governs scheduler) {worker : Fin n}
    {phase : Phase} {task : TaskId} (before : (scheduler.workers worker).phase = phase)
    (hands : phase.executing = some task) :
    rule.held worker phase (scheduler.tasks task).view := by
  subst before
  exact governs.held worker task hands

/-- A worker and the task in its hands change together. -/
theorem Governs.setWorker_setTask (governs : rule.Governs scheduler)
    (sound : scheduler.ledger.Sound) {worker : Fin n} {task : TaskId}
    {change : Worker n → Worker n} {update : Task n → Task n}
    (hands : (scheduler.workers worker).phase.executing = some task)
    (queue : (change (scheduler.workers worker)).localQueue =
      (scheduler.workers worker).localQueue)
    (stage : (update (scheduler.tasks task)).spawn = (scheduler.tasks task).spawn)
    (still : (change (scheduler.workers worker)).phase.executing = some task)
    (meets : rule.held worker (change (scheduler.workers worker)).phase
      (update (scheduler.tasks task)).view) :
    rule.Governs ((scheduler.setWorker worker change).setTask task update) := by
  refine governs.hand sound hands rfl rfl (fun v => ?_) (fun v different => ?_) (fun t => ?_)
    (fun t different => ?_) ?_ ?_
  · by_cases same : v = worker
    · subst same
      simpa [setTask, TaskScheduler.setWorker] using queue
    · simp [setTask, TaskScheduler.setWorker, same]
  · simp [setTask, TaskScheduler.setWorker, different]
  · by_cases same : t = task
    · subst same
      simpa [setTask, TaskScheduler.setWorker] using stage
    · simp [setTask, TaskScheduler.setWorker, same]
  · simp [setTask, TaskScheduler.setWorker, different]
  · simpa [setTask, TaskScheduler.setWorker] using still
  · simpa [setTask, TaskScheduler.setWorker] using meets

/-- A step that moves tasks between places and leaves their fibers alone. -/
theorem Governs.move (governs : rule.Governs scheduler)
    (views : ∀ t, (target.tasks t).view = (scheduler.tasks t).view)
    (fresh : ∀ t, (target.tasks t).spawn.isScheduled = false ∨ t ∈ target.globalQueue →
      (scheduler.tasks t).spawn.isScheduled = false ∨ t ∈ scheduler.globalQueue)
    (queued : ∀ v t, t ∈ (target.workers v).localQueue →
      t ∈ (scheduler.workers v).localQueue ∨ rule.queued v (scheduler.tasks t).view)
    (held : ∀ v t, (target.workers v).phase.executing = some t →
      (target.workers v).phase = (scheduler.workers v).phase ∨
        rule.held v (target.workers v).phase (scheduler.tasks t).view)
    (retired : ∀ t ∈ target.retired,
      t ∈ scheduler.retired ∨ rule.retired (scheduler.tasks t).view) :
    rule.Governs target := by
  refine ⟨fun t place => ?_, fun v t place => ?_, fun v t place => ?_, fun t place => ?_⟩
  · rw [views]
    exact governs.fresh t (fresh t place)
  · rw [views]
    exact (queued v t place).elim (governs.queued v t) id
  · rw [views]
    rcases held v t place with same | meets
    · rw [same] at place ⊢
      exact governs.held v t place
    · exact meets
  · rw [views]
    exact (retired t place).elim (governs.retired t) id

/-- Such a step by one worker. -/
theorem Governs.setWorker (governs : rule.Governs scheduler) {worker : Fin n}
    {change : Worker n → Worker n}
    (queued : ∀ t, t ∈ (change (scheduler.workers worker)).localQueue →
      t ∈ (scheduler.workers worker).localQueue ∨ rule.queued worker (scheduler.tasks t).view)
    (held : ∀ t, (change (scheduler.workers worker)).phase.executing = some t →
      (change (scheduler.workers worker)).phase = (scheduler.workers worker).phase ∨
        rule.held worker (change (scheduler.workers worker)).phase (scheduler.tasks t).view) :
    rule.Governs (scheduler.setWorker worker change) := by
  refine governs.move (fun _ => rfl) (fun _ => id) (fun v t => ?_) (fun v t => ?_)
    fun _ => Or.inl
  · by_cases same : v = worker
    · subst same
      simpa [TaskScheduler.setWorker] using queued t
    · simpa [TaskScheduler.setWorker, same] using Or.inl
  · by_cases same : v = worker
    · subst same
      simpa [TaskScheduler.setWorker] using held t
    · simp [TaskScheduler.setWorker, same]

theorem Governs.setPhase (governs : rule.Governs scheduler) {worker : Fin n} {phase : Phase}
    (held : ∀ t, phase.executing = some t →
      rule.held worker phase (scheduler.tasks t).view) :
    rule.Governs (scheduler.setPhase worker phase) :=
  governs.setWorker (fun _ => Or.inl) fun t executing => Or.inr (held t executing)

/-- A phase in which the worker has a task in its hands. -/
theorem Governs.setPhase_of_executing (governs : rule.Governs scheduler) {worker : Fin n}
    {phase : Phase} {task : TaskId} (hands : phase.executing = some task)
    (meets : rule.held worker phase (scheduler.tasks task).view) :
    rule.Governs (scheduler.setPhase worker phase) := by
  refine governs.setPhase fun t executing => ?_
  obtain rfl : task = t := Option.some.inj (hands.symm.trans executing)
  exact meets

/-- The rest of the scheduler is in no clause. -/
theorem Governs.of_eq (governs : rule.Governs scheduler) (tasks : target.tasks = scheduler.tasks)
    (global : target.globalQueue = scheduler.globalQueue)
    (workers : target.workers = scheduler.workers)
    (retired : target.retired = scheduler.retired) : rule.Governs target := by
  refine ⟨?_, ?_, ?_, ?_⟩
  · rw [tasks, global]
    exact governs.fresh
  · rw [tasks, workers]
    exact governs.queued
  · rw [tasks, workers]
    exact governs.held
  · rw [tasks, retired]
    exact governs.retired

/-- A new task is nowhere, so only its own clause has to be checked. -/
theorem Governs.allocate (governs : rule.Governs scheduler) (sound : scheduler.ledger.Sound)
    (spawner : Option TaskId) (meets : rule.fresh ⟨.created, none, .entry⟩) :
    rule.Governs (scheduler.allocate spawner) := by
  have unborn : (scheduler.tasks scheduler.nextTaskId).spawn.isScheduled = false := by
    have stage : (scheduler.tasks scheduler.nextTaskId).spawn = .unborn :=
      sound.unborn scheduler.nextTaskId le_rfl
    rw [stage]
    rfl
  have other : ∀ {t : TaskId} {place : Place n}, 0 < scheduler.timesAt t place →
      t ≠ scheduler.nextTaskId := by
    rintro t place there rfl
    exact there.ne' (timesAt_of_unscheduled sound unborn place)
  have same : ∀ {t : TaskId}, t ≠ scheduler.nextTaskId →
      (scheduler.allocate spawner).tasks t = scheduler.tasks t :=
    fun different => by simp [TaskScheduler.allocate, setTask, different]
  refine ⟨fun t place => ?_, fun v t place => ?_, fun v t place => ?_, fun t place => ?_⟩
  · by_cases new : t = scheduler.nextTaskId
    · subst new
      simpa [TaskScheduler.allocate, setTask, Task.view, unbornTask] using meets
    · rw [same new] at place ⊢
      exact governs.fresh t place
  · rw [same (other (timesAt_localQueue_pos.mpr place))]
    exact governs.queued v t place
  · rw [same (other (timesAt_executing_pos.mpr place))]
    exact governs.held v t place
  · rw [same (other (timesAt_retired_pos.mpr place))]
    exact governs.retired t place

/-- What a rule must say about one task for the steps to keep it: each clause leads
to the clause of the next place or phase. Left out are the two steps that some
rules only survive under a condition: a steal, and the store of `cancel_task` to a
task in the hands of a worker. -/
structure Lawful (rule : PlaceRule n) : Prop where
  start : rule.fresh ⟨.created, none, .entry⟩
  takeGlobal : ∀ {worker view} task, rule.fresh view → rule.held worker (.prepare task) view
  takeLocal : ∀ {worker view} task, rule.queued worker view →
    rule.held worker (.prepare task) view
  enter : ∀ {worker task view}, rule.held worker (.prepare task) view →
    rule.held worker (.inFiber task) { view with
      ucLink := some (view.ucLink.getD worker)
      point := if view.point = .suspended then .yieldResumed else view.point }
  goto : ∀ {worker task current point}, PointMove current point →
    rule.held worker (.inFiber task) current.view →
      rule.held worker (.inFiber task) { current.view with point }
  store : ∀ {worker task view state point}, StoreMove view.point state point →
    rule.held worker (.inFiber task) view →
      rule.held worker (.inFiber task) { view with state, point }
  spawn : ∀ {worker task view} child, view.point = .body →
    rule.held worker (.inFiber task) view →
      rule.held worker (.inFiber task) { view with point := .spawning child }
  spawned : ∀ {worker task view child}, view.point = .spawning child →
    rule.held worker (.inFiber task) view →
      rule.held worker (.inFiber task) { view with point := .body }
  switchOut : ∀ {worker task view}, view.point = .yieldSwitch →
    rule.held worker (.inFiber task) view →
      rule.held worker (.switchedBack task) { view with point := .suspended }
  finish : ∀ {worker task view}, view.point = .over →
    rule.held worker (.inFiber task) view → rule.held worker (.switchedBack task) view
  keep : ∀ {worker task view}, view.state = .runnable →
    rule.held worker (.switchedBack task) view → rule.held worker (.reenqueue task) view
  discard : ∀ {worker task view}, view.state ≠ .runnable →
    rule.held worker (.switchedBack task) view → rule.held worker (.retire task) view
  reenqueue : ∀ {worker task view}, rule.held worker (.reenqueue task) view →
    rule.queued worker view
  retire : ∀ {worker task view}, rule.held worker (.retire task) view → rule.retired view
  cancelFresh : ∀ {view}, rule.fresh view → rule.fresh { view with state := .cancelled }
  cancelQueued : ∀ {worker view}, rule.queued worker view →
    rule.queued worker { view with state := .cancelled }
  cancelRetired : ∀ {view}, rule.retired view → rule.retired { view with state := .cancelled }

theorem Lawful.workerMove (lawful : rule.Lawful) (governs : rule.Governs scheduler)
    (sound : scheduler.ledger.Sound) (onTrack : scheduler.OnTrack) {worker : Fin n}
    {choice : StealChoice n}
    (steal : ∀ victim, scheduler.StealsFrom worker choice victim → ∀ task view,
      rule.queued victim view → rule.held worker (.prepare task) view)
    (move : WorkerMove scheduler worker choice target) : rule.Governs target := by
  cases move with
  | search phase before after _ =>
      refine governs.setPhase fun t executing => ?_
      rw [Phase.executing_of_holds after] at executing
      cases executing
  | takeLocal owner task rest before queue source =>
      have clause : rule.held worker (.prepare task) (scheduler.tasks task).view := by
        have queued := governs.queued owner task (by rw [queue]; exact List.mem_cons_self)
        rcases source with rfl | steals
        · exact lawful.takeLocal task queued
        · exact steal owner steals task _ queued
      have popped : rule.Governs (scheduler.setWorker owner fun current =>
          { current with localQueue := current.localQueue.tail }) :=
        governs.setWorker (fun _ queued => Or.inl (List.mem_of_mem_tail queued))
          fun _ _ => Or.inl rfl
      exact popped.setPhase_of_executing rfl clause
  | takeGlobal task rest before queue =>
      have clause : rule.held worker (.prepare task) (scheduler.tasks task).view :=
        lawful.takeGlobal task
          (governs.fresh task (Or.inr (by rw [queue]; exact List.mem_cons_self)))
      have popped : rule.Governs { scheduler with globalQueue := scheduler.globalQueue.tail } :=
        governs.move (fun _ => rfl) (fun _ place => place.imp_right List.mem_of_mem_tail)
          (fun _ _ => Or.inl) (fun _ _ _ => Or.inl rfl) fun _ => Or.inl
      exact popped.setPhase_of_executing rfl clause
  | enter task before =>
      have hands : (scheduler.workers worker).phase.executing = some task := by
        rw [before]
        rfl
      exact governs.setWorker_setTask sound hands rfl rfl rfl
        (lawful.enter (governs.held_of_phase before rfl))
  | keep task before state =>
      exact governs.setPhase_of_executing rfl
        (lawful.keep state (governs.held_of_phase before rfl))
  | discard task before state =>
      exact governs.setPhase_of_executing rfl
        (lawful.discard state (governs.held_of_phase before rfl))
  | reenqueue task before =>
      have clause := governs.held_of_phase before rfl
      refine governs.setWorker (fun t queued => ?_) fun _ executing => by cases executing
      rcases List.mem_append.mp queued with old | new
      · exact Or.inl old
      · obtain rfl := List.mem_singleton.mp new
        exact Or.inr (lawful.reenqueue clause)
  | retire task before =>
      have clause := governs.held_of_phase before rfl
      have recorded : rule.Governs { scheduler with
          activeTasks := fetchSub scheduler.activeTasks
          retired := scheduler.retired ++ [task] } := by
        refine governs.move (fun _ => rfl) (fun _ => id) (fun _ _ => Or.inl)
          (fun _ _ _ => Or.inl rfl) fun t dead => ?_
        rcases List.mem_append.mp dead with old | new
        · exact Or.inl old
        · obtain rfl := List.mem_singleton.mp new
          exact Or.inr (lawful.retire clause)
      exact recorded.setPhase fun _ executing => by cases executing
  | clear task before =>
      exact governs.setWorker (fun _ => Or.inl) fun _ executing => by cases executing
  | strayReenqueue frame task before | strayRetire task before =>
      have here := onTrack worker
      rw [before] at here
      cases here

/-- A fiber that changes in the hands of its worker. -/
theorem Governs.setTask_of_executing (governs : rule.Governs scheduler)
    (sound : scheduler.ledger.Sound) {worker : Fin n} {task : TaskId}
    {change : Task n → Task n}
    (hands : (scheduler.workers worker).phase.executing = some task)
    (stage : (change (scheduler.tasks task)).spawn = (scheduler.tasks task).spawn)
    (meets : rule.held worker (scheduler.workers worker).phase
      (change (scheduler.tasks task)).view) :
    rule.Governs (scheduler.setTask task change) := by
  refine governs.hand sound hands rfl rfl (fun _ => rfl) (fun _ _ => rfl) (fun t => ?_)
    (fun t different => ?_) hands ?_
  · by_cases same : t = task
    · subst same
      simpa [setTask] using stage
    · simp [setTask, same]
  · simp [setTask, different]
  · simpa [setTask] using meets

theorem Lawful.fiberMove (lawful : rule.Lawful) (governs : rule.Governs scheduler)
    (sound : scheduler.ledger.Sound) (context : scheduler.ContextOk) {back : SwitchBack}
    {worker : Fin n} {task : TaskId}
    (inside : (scheduler.workers worker).phase = .inFiber task)
    (home : (scheduler.tasks task).point = .over →
      back.worker worker (scheduler.tasks task) = worker)
    (move : FiberMove back scheduler worker task target) : rule.Governs target := by
  have hands := Phase.executing_of_inFiber inside
  have clause := governs.held_of_phase inside rfl
  cases move with
  | stay => exact governs
  | goto point move =>
      refine governs.setTask_of_executing sound hands rfl ?_
      rw [inside]
      exact lawful.goto move clause
  | store state point move =>
      refine governs.setTask_of_executing sound hands rfl ?_
      rw [inside]
      exact lawful.store move clause
  | spawn body =>
      have earlier : task ≠ scheduler.nextTaskId := (executing_lt_next sound hands).ne
      have same : (scheduler.allocate (some task)).tasks task = scheduler.tasks task := by
        simp [TaskScheduler.allocate, setTask, earlier]
      refine (governs.allocate sound (some task) lawful.start).setTask_of_executing
        (sound.step (scheduler.ledger_allocate (some task))) hands rfl ?_
      rw [same]
      have spawning := lawful.spawn scheduler.nextTaskId body clause
      rw [← inside] at spawning
      exact spawning
  | switchOut owner point recorded =>
      rw [(context worker task inside).1] at recorded
      obtain rfl := Option.some.inj recorded
      rw [leaveFiber, if_pos rfl]
      show rule.Governs ((scheduler.setWorker worker fun current =>
        { current with phase := .switchedBack task }).setTask task fun current =>
          { current with point := .suspended })
      exact governs.setWorker_setTask sound hands rfl rfl rfl (lawful.switchOut point clause)
  | noContext point missing =>
      rw [(context worker task inside).1] at missing
      cases missing
  | finish point =>
      rw [home point, leaveFiber, if_pos rfl]
      exact governs.setPhase_of_executing rfl (lawful.finish point clause)

/-- A change that no clause can see. -/
theorem Governs.setTask_of_view (governs : rule.Governs scheduler) {task : TaskId}
    {change : Task n → Task n}
    (view : (change (scheduler.tasks task)).view = (scheduler.tasks task).view)
    (stage : (change (scheduler.tasks task)).spawn.isScheduled =
      (scheduler.tasks task).spawn.isScheduled) :
    rule.Governs (scheduler.setTask task change) := by
  refine governs.move (fun t => ?_) (fun t => ?_) (fun _ _ => Or.inl) (fun _ _ _ => Or.inl rfl)
    fun _ => Or.inl
  · by_cases here : t = task
    · subst here
      simpa [setTask] using view
    · simp [setTask, here]
  · by_cases here : t = task
    · subst here
      simp [setTask, stage]
    · simp [setTask, here]

/-- `cancel_task` may store wherever the task is. -/
theorem Lawful.cancelState (lawful : rule.Lawful) (governs : rule.Governs scheduler)
    {task : TaskId}
    (cancel : ∀ worker, (scheduler.workers worker).phase.executing = some task →
      rule.held worker (scheduler.workers worker).phase { (scheduler.tasks task).view with
        state := .cancelled }) :
    rule.Governs (scheduler.setTask task fun current => { current with state := .cancelled }) := by
  refine ⟨fun t place => ?_, fun v t place => ?_, fun v t place => ?_, fun t place => ?_⟩
  · by_cases same : t = task
    · subst same
      simp only [setTask, Function.update_self] at place ⊢
      exact lawful.cancelFresh (governs.fresh t place)
    · simp only [setTask, Function.update_of_ne same] at place ⊢
      exact governs.fresh t place
  · have before := governs.queued v t place
    by_cases same : t = task
    · subst same
      simp only [setTask, Function.update_self]
      exact lawful.cancelQueued before
    · simpa only [setTask, Function.update_of_ne same] using before
  · have before := governs.held v t place
    by_cases same : t = task
    · subst same
      simp only [setTask, Function.update_self]
      exact cancel v place
    · simpa only [setTask, Function.update_of_ne same] using before
  · have before := governs.retired t place
    by_cases same : t = task
    · subst same
      simp only [setTask, Function.update_self]
      exact lawful.cancelRetired before
    · simpa only [setTask, Function.update_of_ne same] using before

/-- The task whose `spawn` is done goes on with its function. -/
theorem Lawful.setPoint_body (lawful : rule.Lawful) (governs : rule.Governs scheduler)
    (sound : scheduler.ledger.Sound) {worker : Fin n} {task : TaskId} (child : TaskId)
    (inside : (scheduler.workers worker).phase = .inFiber task)
    (point : (scheduler.tasks task).point = .spawning child) :
    rule.Governs (scheduler.setPoint task .body) := by
  refine governs.setTask_of_executing sound (Phase.executing_of_inFiber inside) rfl ?_
  rw [inside]
  exact lawful.spawned point (governs.held_of_phase inside rfl)

theorem Lawful.sharedMove (lawful : rule.Lawful) (governs : rule.Governs scheduler)
    (sound : scheduler.ledger.Sound) (nested : scheduler.ParentOk) {event : SchedulerEvent n}
    (cancel : event = .cancelStore → ∀ worker task, scheduler.cancelling = some task →
      (scheduler.workers worker).phase.executing = some task →
        rule.held worker (scheduler.workers worker).phase { (scheduler.tasks task).view with
          state := .cancelled })
    (move : SharedMove scheduler event target) : rule.Governs target := by
  cases move with
  | allocate => exact governs.allocate sound none lawful.start
  | count task stage =>
      have counted : rule.Governs { scheduler with
          activeTasks := scheduler.activeTasks + 1 } := governs.of_eq rfl rfl rfl rfl
      exact counted.setTask_of_view rfl (by rw [stage]; rfl)
  | schedule task stage =>
      refine governs.move (fun t => ?_) (fun t => ?_) (fun _ _ => Or.inl)
        (fun _ _ _ => Or.inl rfl) fun _ => Or.inl
      · by_cases here : t = task
        · subst here
          simp [setTask, Task.view]
        · simp [setTask, here]
      · by_cases here : t = task
        · subst here
          simp [stage, SpawnStage.isScheduled]
        · simp [setTask, here]
  | register task stage outside =>
      have mapped : rule.Governs { scheduler with
          activeTaskMap := insert task scheduler.activeTaskMap } := governs.of_eq rfl rfl rfl rfl
      exact mapped.setTask_of_view rfl (by rw [stage]; rfl)
  | registerChild task parent stage spawner =>
      obtain ⟨⟨worker, inside⟩, point⟩ := nested task parent (by rw [stage]; rfl) spawner
      have mapped : rule.Governs { scheduler with
          activeTaskMap := insert task scheduler.activeTaskMap } := governs.of_eq rfl rfl rfl rfl
      have registered : rule.Governs ({ scheduler with
          activeTaskMap := insert task scheduler.activeTaskMap }.setTask task
            fun current => { current with spawn := .registered }) :=
        mapped.setTask_of_view rfl (by rw [stage]; rfl)
      have soundAfter := sound.step (ledger_sharedMove (.registerChild task parent stage spawner))
      rw [ledger_setPoint] at soundAfter
      refine lawful.setPoint_body registered soundAfter task inside ?_
      by_cases same : parent = task
      · subst same
        simpa [setTask] using point
      · simpa [setTask, same] using point
  | ignore => exact governs
  | expire task => exact governs.of_eq rfl rfl rfl rfl
  | cancelFlag task =>
      have found : rule.Governs { scheduler with cancelling := some task } :=
        governs.of_eq rfl rfl rfl rfl
      exact found.setTask_of_view rfl rfl
  | cancelState task cancelling =>
      have stored : rule.Governs { scheduler with
          cancelling := none
          activeTaskMap := scheduler.activeTaskMap.erase task } := governs.of_eq rfl rfl rfl rfl
      exact lawful.cancelState stored fun worker => cancel rfl worker task cancelling
  | stop worker => exact governs.setWorker (fun _ => Or.inl) fun _ _ => Or.inl rfl

/-- The run rule: a lawful rule is kept by every step that meets its two
conditions and after which the worker that switched into a fiber goes on. -/
theorem Lawful.step (lawful : rule.Lawful) {back : SwitchBack} (governs : rule.Governs scheduler)
    (consistent : scheduler.Consistent) {event : SchedulerEvent n}
    (home : scheduler.ReturnsHome back event)
    (steal : ∀ worker choice victim, event = .worker worker choice →
      scheduler.StealsFrom worker choice victim → ∀ task view,
        rule.queued victim view → rule.held worker (.prepare task) view)
    (cancel : event = .cancelStore → ∀ worker task, scheduler.cancelling = some task →
      (scheduler.workers worker).phase.executing = some task →
        rule.held worker (scheduler.workers worker).phase { (scheduler.tasks task).view with
          state := .cancelled })
    (taken : scheduler.step back event = some target) : rule.Governs target := by
  rcases step_move taken with
    move | ⟨worker, choice, rfl, move⟩ | ⟨worker, action, task, rfl, inside, move⟩
  · exact lawful.sharedMove governs consistent.sound consistent.nested cancel move
  · exact lawful.workerMove governs consistent.sound consistent.onTrack
      (fun victim => steal worker choice victim rfl) move
  · exact lawful.fiberMove governs consistent.sound consistent.context inside
      (home worker action task rfl inside) move

theorem Lawful.governs_start (lawful : rule.Lawful) : rule.Governs (TaskScheduler.start n) where
  fresh _ _ := lawful.start
  queued _ _ queued := by cases queued
  held _ _ executing := by cases executing
  retired _ dead := by cases dead

end PlaceRule

end Kode.Concurrency
