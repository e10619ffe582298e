/-
# A scheduler that nobody disturbs

While no task is cancelled and no worker is asked to stop, every worker thread can
always take a step: it looks for a task, or goes on in the fiber it is in. A fiber
inside `spawn` is moved on by the steps of that call. Only a fiber in the middle of its
function depends on what the function does next.
-/

import Kode.Concurrency.SchedulerState

namespace Kode.Concurrency

open Kode.Library

/-- The event neither cancels a task nor stops a worker. -/
def SchedulerEvent.isCalm {n : ℕ} : SchedulerEvent n → Bool
  | .cancelTask _ _ | .cancelStore | .stop _ => false
  | _ => true

namespace TaskScheduler

variable {n : ℕ} {back : SwitchBack} {scheduler target : TaskScheduler n}
  {event : SchedulerEvent n}

/-- A step of a run in which nobody cancels or stops and fibers return. -/
def Calm (back : SwitchBack) (scheduler : TaskScheduler n) (event : SchedulerEvent n) : Prop :=
  scheduler.ReturnsHome back event ∧ event.isCalm = true

/-! ## The calls of `spawn` in progress -/

/-- A fiber inside `spawn` stands in a call that is in progress and is its own. -/
def SpawningOk (scheduler : TaskScheduler n) : Prop :=
  ∀ task child, (scheduler.tasks task).point = .spawning child →
    (scheduler.tasks child).spawn.inProgress = true ∧
      (scheduler.tasks child).spawner = some task

/-- A change of one task that puts no fiber into a call and leaves the call that makes
the task in progress. -/
theorem SpawningOk.update (spawning : scheduler.SpawningOk) {changed : TaskId} {after : Task n}
    (tasks : target.tasks = Function.update scheduler.tasks changed after)
    (point : ∀ child, after.point = .spawning child →
      (scheduler.tasks changed).point = .spawning child)
    (call : ∀ task, (scheduler.tasks changed).spawn.inProgress = true →
      (scheduler.tasks changed).spawner = some task →
        after.spawn.inProgress = true ∧ after.spawner = some task) : target.SpawningOk := by
  intro task child stands
  rw [tasks] at stands ⊢
  have before : (scheduler.tasks task).point = .spawning child := by
    by_cases same : task = changed
    · subst same
      rw [Function.update_self] at stands
      exact point child stands
    · rwa [Function.update_of_ne same] at stands
  obtain ⟨inProgress, spawner⟩ := spawning task child before
  by_cases same : child = changed
  · subst same
    rw [Function.update_self]
    exact call task inProgress spawner
  · rw [Function.update_of_ne same]
    exact ⟨inProgress, spawner⟩

/-- A new id is in no call. -/
theorem SpawningOk.allocate (spawning : scheduler.SpawningOk) (sound : scheduler.ledger.Sound)
    (spawner : Option TaskId) : (scheduler.allocate spawner).SpawningOk := by
  refine spawning.update rfl (fun child stands => by cases stands) fun task inProgress => ?_
  have unborn : (scheduler.tasks scheduler.nextTaskId).spawn = .unborn :=
    sound.unborn scheduler.nextTaskId le_rfl
  rw [unborn] at inProgress
  cases inProgress

/-- The call that returns takes its fiber with it. -/
theorem SpawningOk.registerChild (spawning : scheduler.SpawningOk) {child parent : TaskId}
    (spawner : (scheduler.tasks child).spawner = some parent) :
    (({ scheduler with activeTaskMap := insert child scheduler.activeTaskMap }.setTask child
      fun current => { current with spawn := .registered }).setPoint parent .body).SpawningOk := by
  intro task other stands
  have different : task ≠ parent := by
    rintro rfl
    simp [setPoint, setTask] at stands
  have before : (scheduler.tasks task).point = .spawning other := by
    by_cases same : task = child
    · subst same
      simpa [setPoint, setTask, different] using stands
    · simpa [setPoint, setTask, different, same] using stands
  obtain ⟨inProgress, own⟩ := spawning task other before
  have elsewhere : other ≠ child := by
    rintro rfl
    exact different (Option.some.inj (own.symm.trans spawner))
  by_cases same : other = parent
  · subst same
    simpa [setPoint, setTask, elsewhere] using ⟨inProgress, own⟩
  · simpa [setPoint, setTask, elsewhere, same] using ⟨inProgress, own⟩

theorem SpawningOk.sharedMove (spawning : scheduler.SpawningOk)
    (sound : scheduler.ledger.Sound) (move : SharedMove scheduler event target) :
    target.SpawningOk := by
  cases move with
  | allocate => exact spawning.allocate sound none
  | count task stage | schedule task stage =>
      exact spawning.update rfl (fun _ => id) fun _ _ spawner => ⟨rfl, spawner⟩
  | register task stage outside =>
      refine spawning.update rfl (fun _ => id) fun _ _ spawner => ?_
      rw [outside] at spawner
      cases spawner
  | registerChild task parent stage inside => exact spawning.registerChild inside
  | cancelFlag task | cancelState task =>
      exact spawning.update rfl (fun _ => id) fun _ inProgress spawner => ⟨inProgress, spawner⟩
  | ignore | expire | stop => exact spawning

/-- A fiber that moves to a point outside `spawn`. -/
theorem SpawningOk.moveTo (spawning : scheduler.SpawningOk) {task : TaskId} {after : Task n}
    (tasks : target.tasks = Function.update scheduler.tasks task after)
    (outside : ∀ child, after.point ≠ .spawning child)
    (stage : after.spawn = (scheduler.tasks task).spawn)
    (spawner : after.spawner = (scheduler.tasks task).spawner) : target.SpawningOk := by
  refine spawning.update tasks (fun child stands => absurd stands (outside child)) ?_
  intro parent inProgress own
  exact ⟨by rw [stage]; exact inProgress, by rw [spawner]; exact own⟩

theorem SpawningOk.fiberMove (spawning : scheduler.SpawningOk)
    (sound : scheduler.ledger.Sound) {worker : Fin n} {running : TaskId}
    (inside : (scheduler.workers worker).phase = .inFiber running)
    (move : FiberMove back scheduler worker running target) : target.SpawningOk := by
  cases move with
  | stay | finish => exact spawning
  | goto point move =>
      refine spawning.moveTo rfl (fun child => ?_) rfl rfl
      cases move <;> simp
  | store state point move =>
      refine spawning.moveTo rfl (fun child => ?_) rfl rfl
      generalize (scheduler.tasks running).point = before at move
      cases move <;> simp
  | switchOut | noContext => exact spawning.moveTo rfl (by simp) rfl rfl
  | spawn body =>
      have earlier : running ≠ scheduler.nextTaskId :=
        (executing_lt_next sound (Phase.executing_of_inFiber inside)).ne
      have allocated := spawning.allocate sound (some running)
      intro task child stands
      by_cases same : task = running
      · subst same
        obtain rfl : scheduler.nextTaskId = child := by
          simpa [setPoint, setTask] using stands
        simp [setPoint, setTask, TaskScheduler.allocate, earlier.symm, SpawnStage.inProgress]
      · have call := allocated task child (by simpa [setPoint, setTask, same] using stands)
        by_cases own : child = running
        · subst own
          simpa [setPoint, setTask] using call
        · simpa [setPoint, setTask, own] using call

theorem SpawningOk.step (spawning : scheduler.SpawningOk) (sound : scheduler.ledger.Sound)
    (taken : scheduler.step back event = some target) : target.SpawningOk := by
  rcases step_move taken with
    move | ⟨worker, choice, rfl, move⟩ | ⟨worker, action, running, rfl, inside, move⟩
  · exact spawning.sharedMove sound move
  · cases move with
    | enter entered before =>
        refine spawning.update rfl (fun child stands => ?_)
          fun _ inProgress spawner => ⟨inProgress, spawner⟩
        dsimp only at stands
        split_ifs at stands
        exact stands
    | _ => exact spawning
  · exact spawning.fiberMove sound inside move

/-! ## Nobody is cancelled or stopped -/

/-- No task is cancelled, no worker is asked to stop, and the calls of `spawn` that
fibers stand in are in progress. -/
structure Undisturbed (scheduler : TaskScheduler n) : Prop where
  cancelled : ∀ task, (scheduler.tasks task).cancelled = false
  cancelling : scheduler.cancelling = none
  shouldStop : ∀ worker, (scheduler.workers worker).shouldStop = false
  goesOn : ∀ worker, (scheduler.workers worker).phase ≠ .stopped
  spawning : scheduler.SpawningOk

theorem undisturbed_start : (start n).Undisturbed where
  cancelled _ := rfl
  cancelling := rfl
  shouldStop _ := rfl
  goesOn _ := by simp [start, freshWorker]
  spawning task child stands := by cases stands

theorem cancelled_of_calm (consistent : scheduler.Consistent) (calm : event.isCalm = true)
    (taken : scheduler.step back event = some target) {task : TaskId}
    (before : (scheduler.tasks task).cancelled = false) :
    (target.tasks task).cancelled = false := by
  have move := step_task consistent taken task
  generalize target.tasks task = after at move ⊢
  cases move with
  | allocate spawner new => rfl
  | cancelFlag expired asked known =>
      rw [asked] at calm
      cases calm
  | _ => exact before

theorem cancelling_of_calm (calm : event.isCalm = true)
    (taken : scheduler.step back event = some target) (before : scheduler.cancelling = none) :
    target.cancelling = none := by
  rcases step_move taken with
    move | ⟨worker, choice, rfl, move⟩ | ⟨worker, action, running, rfl, inside, move⟩
  · cases move with
    | cancelFlag | cancelState => cases calm
    | _ => exact before
  · cases move <;> exact before
  · cases move <;> exact before

/-- A change of one worker that leaves its `should_stop` alone. -/
theorem shouldStop_update {workers changed : Fin n → Worker n} {acting : Fin n}
    {after : Worker n} (update : changed = Function.update workers acting after)
    (keeps : after.shouldStop = (workers acting).shouldStop) (worker : Fin n) :
    (changed worker).shouldStop = (workers worker).shouldStop := by
  rw [update]
  by_cases same : worker = acting
  · subst same
    rw [Function.update_self, keeps]
  · rw [Function.update_of_ne same]

theorem shouldStop_of_calm (calm : event.isCalm = true)
    (taken : scheduler.step back event = some target) (worker : Fin n) :
    (target.workers worker).shouldStop = (scheduler.workers worker).shouldStop := by
  rcases step_move taken with
    move | ⟨acting, choice, rfl, move⟩ | ⟨acting, action, running, rfl, inside, move⟩
  · cases move with
    | stop => cases calm
    | _ => rfl
  · cases move with
    | takeLocal owner task rest before queue source =>
        refine (shouldStop_update rfl ?_ worker).trans (shouldStop_update rfl ?_ worker) <;> rfl
    | strayReenqueue frame task before =>
        refine (shouldStop_update rfl ?_ worker).trans (shouldStop_update rfl ?_ worker) <;> rfl
    | _ => exact shouldStop_update rfl (by rfl) worker
  · cases move with
    | switchOut | finish => exact shouldStop_update rfl (by rfl) worker
    | _ => rfl

theorem strayPhase_ne_stopped (scheduler : TaskScheduler n) (owner : Fin n) :
    scheduler.strayPhase owner ≠ .stopped := by
  unfold strayPhase
  split
  · split_ifs <;> simp
  · simp

/-- Only a worker that was asked to stop leaves its loop. -/
theorem goesOn_workerStep {worker : Fin n} {choice : StealChoice n}
    (running : (scheduler.workers worker).shouldStop = false)
    (taken : scheduler.workerStep worker choice = some target) :
    (target.workers worker).phase ≠ .stopped := by
  cases phase : (scheduler.workers worker).phase with
  | top =>
      simp only [workerStep, phase, running] at taken
      obtain rfl := Option.some.inj taken
      simp [setPhase, setWorker]
  | _ =>
      simp only [workerStep, phase] at taken
      repeat' split at taken
      all_goals cases taken
      all_goals simp [setPhase, setWorker, takeLocal, takeGlobal, enterFiber, setTask]

theorem goesOn_of_calm (undisturbed : scheduler.Undisturbed) (onTrack : scheduler.OnTrack)
    (taken : scheduler.step back event = some target) (worker : Fin n) :
    (target.workers worker).phase ≠ .stopped := by
  cases step_worker onTrack taken worker with
  | same queue phase _ =>
      rw [phase]
      exact undisturbed.goesOn worker
  | stolen thief stolen queue phase _ hands =>
      rw [phase]
      exact undisturbed.goesOn worker
  | own step =>
      cases event with
      | worker acting choice =>
          obtain rfl : acting = worker := step
          exact goesOn_workerStep (undisturbed.shouldStop acting) taken
      | fiber acting action =>
          obtain rfl : acting = worker := step
          rcases step_move taken with move | ⟨other, choice, same, move⟩ |
            ⟨other, _, running, same, inside, move⟩
          · cases move
          · cases same
          · obtain ⟨rfl, -⟩ := SchedulerEvent.fiber.inj same
            cases move with
            | switchOut owner | finish =>
                simp only [leaveFiber, setPhase, setWorker, Function.update_self]
                split_ifs
                · simp
                · exact strayPhase_ne_stopped _ _
            | _ => exact undisturbed.goesOn acting
      | _ => cases step

theorem Undisturbed.step (undisturbed : scheduler.Undisturbed)
    (consistent : scheduler.Consistent) (calm : event.isCalm = true)
    (taken : scheduler.step back event = some target) : target.Undisturbed where
  cancelled task := cancelled_of_calm consistent calm taken (undisturbed.cancelled task)
  cancelling := cancelling_of_calm calm taken undisturbed.cancelling
  shouldStop worker := (shouldStop_of_calm calm taken worker).trans (undisturbed.shouldStop worker)
  goesOn := goesOn_of_calm undisturbed consistent.onTrack taken
  spawning := undisturbed.spawning.step consistent.sound taken

/-- What is known of every state of a calm run. -/
structure Untroubled (scheduler : TaskScheduler n) : Prop extends
    scheduler.Consistent, scheduler.Undisturbed where
  governs : stateRule.Governs scheduler

theorem untroubled_of_calm
    (reached : ReachableUnder (TaskScheduler.step back) (Calm back) (start n) scheduler) :
    scheduler.Untroubled := by
  have homeward : ∀ state, ReachableUnder (TaskScheduler.step back) (Calm back) (start n) state →
      ReachableUnder (TaskScheduler.step back) (ReturnsHome back) (start n) state :=
    fun _ prior => prior.weaken fun _ _ calm => calm.1
  have undisturbed : scheduler.Undisturbed :=
    reached.invariant_given (fun state prior => consistent_of_home (homeward state prior))
      undisturbed_start fun _ _ _ consistent before calm taken =>
        before.step consistent calm.2 taken
  have home := homeward scheduler reached
  exact ⟨consistent_of_home home, undisturbed, stateRule_of_home home⟩

/-! ## Every worker can take a step -/

/-- With more than one worker there is another one. -/
theorem exists_other (worker : Fin n) (several : 1 < n) : ∃ other : Fin n, other ≠ worker := by
  have : Nontrivial (Fin n) := Fin.nontrivial_iff_two_le.mpr several
  exact exists_ne worker

/-- A worker outside the fibers can take a step of its loop. -/
theorem workerStep_enabled (undisturbed : scheduler.Undisturbed) (onTrack : scheduler.OnTrack)
    {worker : Fin n} (outside : ∀ task, (scheduler.workers worker).phase ≠ .inFiber task) :
    ∃ choice, scheduler.workerStep worker choice ≠ none := by
  have here := onTrack worker
  have goesOn := undisturbed.goesOn worker
  cases phase : (scheduler.workers worker).phase with
  | stealRandom attempt =>
      by_cases several : 1 < n
      · obtain ⟨other, different⟩ := exists_other worker several
        refine ⟨⟨false, other⟩, ?_⟩
        simp only [workerStep, phase, different, false_and, if_false]
        split_ifs <;> simp
      · refine ⟨⟨false, worker⟩, ?_⟩
        simp only [workerStep, phase, several, and_false, if_false]
        split_ifs <;> simp
  | inFiber task => exact absurd phase (outside task)
  | stopped => exact absurd phase goesOn
  | strayReenqueue | strayRetire | derailed =>
      rw [phase] at here
      cases here
  | _ =>
      refine ⟨⟨false, worker⟩, ?_⟩
      simp only [workerStep, phase]
      repeat' split
      all_goals simp

/-- A fiber can go on by itself everywhere but in its function, in a `spawn` and behind
a switch. -/
theorem fiberStep_enabled {worker : Fin n} {task : TaskId}
    (outside : (scheduler.tasks task).point ≠ .body)
    (running : (scheduler.tasks task).point ≠ .suspended)
    (alone : ∀ child, (scheduler.tasks task).point ≠ .spawning child) :
    scheduler.fiberStep back worker task .advance ≠ none := by
  cases point : (scheduler.tasks task).point with
  | body => exact absurd point outside
  | suspended => exact absurd point running
  | spawning child => exact absurd point (alone child)
  | yieldSwitch =>
      simp only [fiberStep, point]
      split <;> simp
  | _ => simp [fiberStep, point]

/-- The call that a fiber stands in can go on. -/
theorem spawn_enabled (undisturbed : scheduler.Undisturbed) {task child : TaskId}
    (inside : (scheduler.tasks task).point = .spawning child) :
    scheduler.spawnCount child ≠ none ∨ scheduler.spawnSchedule child ≠ none ∨
      scheduler.spawnRegister child ≠ none := by
  obtain ⟨inProgress, spawner⟩ := undisturbed.spawning task child inside
  have free := undisturbed.cancelling
  cases stage : (scheduler.tasks child).spawn with
  | unborn | registered =>
      rw [stage] at inProgress
      cases inProgress
  | allocated => exact Or.inl (by simp [spawnCount, stage])
  | counted => exact Or.inr (Or.inl (by simp [spawnSchedule, stage, free]))
  | scheduled => exact Or.inr (Or.inr (by simp [spawnRegister, stage, free, spawner]))

end TaskScheduler

end Kode.Concurrency
