/-
# What the state of a task says

`state_` is written by the constructor, by `invoke`, by `yield` and by `cancel`, on
different threads, and a worker reads it to decide what becomes of a task. This
module asks whether it says what the task is doing.

Two stores go wrong. `yield` stores `RUNNABLE` and nobody stores `RUNNING` again
when it returns, so a resumed function runs as `RUNNABLE`; and `cancel` stores
`CANCELLED` over the `COMPLETED` of a task that is over. In a run that meets
neither, and in which fibers return to their workers, the state tells the truth.
-/

import Kode.Concurrency.SchedulerCancel

namespace Kode.Concurrency.TaskScheduler

open Kode.Library

variable {n : ℕ}

/-! ## What a step does to one task -/

/-- The event is a step of the task's own fiber. -/
def FiberStepOf (scheduler : TaskScheduler n) (event : SchedulerEvent n) (task : TaskId) : Prop :=
  ∃ worker action, event = .fiber worker action ∧
    (scheduler.workers worker).phase = .inFiber task

/-- Everything a step can do to one task. -/
inductive TaskMove (scheduler : TaskScheduler n) (event : SchedulerEvent n) (task : TaskId) :
    Task n → Prop
  | same : TaskMove scheduler event task (scheduler.tasks task)
  | allocate (spawner : Option TaskId) (new : task = scheduler.nextTaskId) :
      TaskMove scheduler event task { unbornTask with spawn := .allocated, spawner }
  | stage (stage : SpawnStage) (before : (scheduler.tasks task).spawn ≠ .registered) :
      TaskMove scheduler event task { scheduler.tasks task with spawn := stage }
  | spawned (child : TaskId) (stage : SpawnStage)
      (before : (scheduler.tasks task).point = .spawning child)
      (after : stage = .registered ∨ stage = (scheduler.tasks task).spawn) :
      TaskMove scheduler event task { scheduler.tasks task with spawn := stage, point := .body }
  | cancelFlag (expired : Bool) (asked : event = .cancelTask task expired)
      (known : task ∈ scheduler.activeTaskMap) :
      TaskMove scheduler event task { scheduler.tasks task with cancelled := true }
  | cancelState (store : event = .cancelStore) (cancelling : scheduler.cancelling = some task) :
      TaskMove scheduler event task { scheduler.tasks task with state := .cancelled }
  | enter (worker : Fin n) (before : (scheduler.workers worker).phase = .prepare task) :
      TaskMove scheduler event task { scheduler.tasks task with
        ucLink := some ((scheduler.tasks task).ucLink.getD worker)
        point := if (scheduler.tasks task).point = .suspended then .yieldResumed
          else (scheduler.tasks task).point }
  | goto (point : FiberPoint) (own : scheduler.FiberStepOf event task)
      (move : PointMove (scheduler.tasks task) point) :
      TaskMove scheduler event task { scheduler.tasks task with point }
  | store (state : TaskState) (point : FiberPoint)
      (move : StoreMove (scheduler.tasks task).point state point) :
      TaskMove scheduler event task { scheduler.tasks task with state, point }
  | spawn (child : TaskId) (before : (scheduler.tasks task).point = .body)
      (own : scheduler.FiberStepOf event task) :
      TaskMove scheduler event task { scheduler.tasks task with point := .spawning child }
  | switchOut (before : (scheduler.tasks task).point = .yieldSwitch) :
      TaskMove scheduler event task { scheduler.tasks task with point := .suspended }

/-- A change of one task is a move of that task and of no other. -/
theorem taskMove_update {scheduler target : TaskScheduler n} {event : SchedulerEvent n}
    {changed : TaskId} {after : Task n}
    (tasks : target.tasks = Function.update scheduler.tasks changed after)
    (here : TaskMove scheduler event changed after) (task : TaskId) :
    TaskMove scheduler event task (target.tasks task) := by
  rw [tasks]
  by_cases same : task = changed
  · subst same
    rw [Function.update_self]
    exact here
  · rw [Function.update_of_ne same]
    exact .same

theorem sharedMove_task {scheduler target : TaskScheduler n} (nested : scheduler.ParentOk)
    {event : SchedulerEvent n} (move : SharedMove scheduler event target) (task : TaskId) :
    TaskMove scheduler event task (target.tasks task) := by
  cases move with
  | allocate => exact taskMove_update rfl (.allocate none rfl) task
  | count child stage => exact taskMove_update rfl (.stage .counted (by simp [stage])) task
  | schedule child stage => exact taskMove_update rfl (.stage .scheduled (by simp [stage])) task
  | register child stage outside =>
      exact taskMove_update rfl (.stage .registered (by simp [stage])) task
  | registerChild child parent stage spawner =>
      obtain ⟨-, there⟩ := nested child parent (by rw [stage]; rfl) spawner
      by_cases same : task = parent
      · subst same
        by_cases own : task = child
        · subst own
          simpa [setPoint, setTask] using
            TaskMove.spawned task .registered there (Or.inl rfl)
        · simpa [setPoint, setTask, own] using
            TaskMove.spawned child (scheduler.tasks task).spawn there (Or.inr rfl)
      · have unmoved : TaskMove scheduler (.spawnRegister child) task ((scheduler.setTask child
            fun current => { current with spawn := .registered }).tasks task) :=
          taskMove_update rfl (.stage .registered (by simp [stage])) task
        simpa [setPoint, setTask, same] using unmoved
  | ignore child expired => exact .same
  | expire child expired => exact .same
  | cancelFlag child expired known => exact taskMove_update rfl (.cancelFlag expired rfl known) task
  | cancelState child cancelling => exact taskMove_update rfl (.cancelState rfl cancelling) task
  | stop worker => exact .same

theorem workerMove_task {scheduler target : TaskScheduler n} {worker : Fin n}
    {choice : StealChoice n} (move : WorkerMove scheduler worker choice target) (task : TaskId) :
    TaskMove scheduler (.worker worker choice) task (target.tasks task) := by
  cases move with
  | enter entered before => exact taskMove_update rfl (.enter worker before) task
  | _ => exact .same

theorem fiberMove_task {back : SwitchBack} {scheduler target : TaskScheduler n}
    {worker : Fin n} {running : TaskId} (context : scheduler.ContextOk)
    (sound : scheduler.ledger.Sound) (action : FiberAction)
    (inside : (scheduler.workers worker).phase = .inFiber running)
    (move : FiberMove back scheduler worker running target) (task : TaskId) :
    TaskMove scheduler (.fiber worker action) task (target.tasks task) := by
  cases move with
  | stay before => exact .same
  | goto point move =>
      exact taskMove_update rfl (.goto point ⟨worker, action, rfl, inside⟩ move) task
  | store state point move => exact taskMove_update rfl (.store state point move) task
  | spawn before =>
      have earlier : running ≠ scheduler.nextTaskId :=
        (executing_lt_next sound (Phase.executing_of_inFiber inside)).ne
      by_cases same : task = running
      · subst same
        simpa [setPoint, setTask, allocate, earlier] using
          TaskMove.spawn scheduler.nextTaskId before ⟨worker, action, rfl, inside⟩
      · have allocated : TaskMove scheduler (.fiber worker action) task
            ((scheduler.allocate (some running)).tasks task) :=
          taskMove_update rfl (.allocate (some running) rfl) task
        simpa [setPoint, setTask, same] using allocated
  | switchOut owner before recorded => exact taskMove_update rfl (.switchOut before) task
  | noContext before missing =>
      rw [(context worker running inside).1] at missing
      cases missing
  | finish before => exact .same

/-- One step of the scheduler is one move of each task. -/
theorem step_task {back : SwitchBack} {scheduler target : TaskScheduler n}
    {event : SchedulerEvent n} (consistent : scheduler.Consistent)
    (taken : scheduler.step back event = some target) (task : TaskId) :
    TaskMove scheduler event task (target.tasks task) := by
  rcases step_move taken with
    move | ⟨worker, choice, rfl, move⟩ | ⟨worker, action, running, rfl, inside, move⟩
  · exact sharedMove_task consistent.nested move task
  · exact workerMove_task move task
  · exact fiberMove_task consistent.context consistent.sound action inside move task

/-! ## What a step does to one worker -/

/-- What a step can do to one worker: nothing to its queue and its phase, a step of its
own, or a steal of its oldest task by another worker. Nobody takes a request to stop
back. -/
inductive WorkerChange (scheduler target : TaskScheduler n) (event : SchedulerEvent n)
    (worker : Fin n) : Prop
  | same (queue : (target.workers worker).localQueue = (scheduler.workers worker).localQueue)
      (phase : (target.workers worker).phase = (scheduler.workers worker).phase)
      (stops : (scheduler.workers worker).shouldStop = true →
        (target.workers worker).shouldStop = true)
  | own (step : OwnStep worker event)
  | stolen (thief : Fin n) (task : TaskId)
      (queue : (scheduler.workers worker).localQueue =
        task :: (target.workers worker).localQueue)
      (phase : (target.workers worker).phase = (scheduler.workers worker).phase)
      (stops : (scheduler.workers worker).shouldStop = true →
        (target.workers worker).shouldStop = true)
      (taken : (target.workers thief).phase = .prepare task)

/-- A change of another worker is none of this one. -/
theorem workerChange_of_ne {scheduler target : TaskScheduler n} {event : SchedulerEvent n}
    {worker changed : Fin n} {after : Worker n} (other : worker ≠ changed)
    (workers : target.workers = Function.update scheduler.workers changed after) :
    WorkerChange scheduler target event worker := by
  have same : target.workers worker = scheduler.workers worker := by
    rw [workers, Function.update_of_ne other]
  exact .same (by rw [same]) (by rw [same]) (by rw [same]; exact id)

theorem workerMove_worker {scheduler target : TaskScheduler n} (onTrack : scheduler.OnTrack)
    {acting : Fin n} {choice : StealChoice n}
    (move : WorkerMove scheduler acting choice target) (worker : Fin n) :
    WorkerChange scheduler target (.worker acting choice) worker := by
  by_cases own : worker = acting
  · exact .own own.symm
  have here := onTrack acting
  cases move with
  | takeLocal owner task rest before queue source =>
      by_cases victim : worker = owner
      · subst victim
        refine .stolen acting task ?_ ?_ ?_ ?_
        · simp [takeLocal, setPhase, setWorker, own, queue]
        · simp [takeLocal, setPhase, setWorker, own]
        · simp [takeLocal, setPhase, setWorker, own]
        · simp [takeLocal, setPhase, setWorker]
      · refine .same ?_ ?_ ?_ <;> simp [takeLocal, setPhase, setWorker, own, victim]
  | strayReenqueue frame task before | strayRetire task before =>
      rw [before] at here
      cases here
  | _ => exact workerChange_of_ne own rfl

/-- One step of the scheduler is one change of each worker. -/
theorem step_worker {back : SwitchBack} {scheduler target : TaskScheduler n}
    {event : SchedulerEvent n} (onTrack : scheduler.OnTrack)
    (taken : scheduler.step back event = some target) (worker : Fin n) :
    WorkerChange scheduler target event worker := by
  rcases step_move taken with
    move | ⟨acting, choice, rfl, move⟩ | ⟨acting, action, running, rfl, inside, move⟩
  · cases move with
    | stop stopped =>
        by_cases own : worker = stopped
        · subst own
          refine .same ?_ ?_ ?_ <;> simp [setWorker]
        · exact workerChange_of_ne own rfl
    | _ => exact .same rfl rfl id
  · exact workerMove_worker onTrack move worker
  · by_cases own : worker = acting
    · exact .own own.symm
    · cases move with
      | switchOut | finish => exact workerChange_of_ne own rfl
      | _ => exact .same rfl rfl id

/-! ## The state at each place -/

/-- What the state can be at each place of a task. Wherever the task is, it may have
been cancelled. -/
def stateRule : PlaceRule n where
  fresh view := view.point = .entry ∧ (view.state = .created ∨ view.state = .cancelled)
  queued _ view := view.point = .suspended ∧ (view.state = .runnable ∨ view.state = .cancelled)
  held _ phase view :=
    match phase with
    | .prepare _ =>
        view.point = .entry ∧ (view.state = .created ∨ view.state = .cancelled) ∨
          view.point = .suspended ∧ (view.state = .runnable ∨ view.state = .cancelled)
    | .inFiber _ =>
        view.point ≠ .suspended ∧
          (view.point = .yieldSwitch ∨ view.point = .yieldResumed →
            view.state = .runnable ∨ view.state = .cancelled) ∧
          (view.point = .over → view.state = .completed ∨ view.state = .cancelled)
    | .switchedBack _ =>
        view.point = .suspended ∧ (view.state = .runnable ∨ view.state = .cancelled) ∨
          view.point = .over ∧ (view.state = .completed ∨ view.state = .cancelled)
    | .reenqueue _ =>
        view.point = .suspended ∧ (view.state = .runnable ∨ view.state = .cancelled)
    | .retire _ => view.state = .completed ∨ view.state = .cancelled
    | _ => True
  retired view := view.state = .completed ∨ view.state = .cancelled

theorem stateRule_inFiber {worker : Fin n} {task : TaskId} {view : FiberView n} :
    stateRule.held worker (.inFiber task) view ↔ view.point ≠ .suspended ∧
      (view.point = .yieldSwitch ∨ view.point = .yieldResumed →
        view.state = .runnable ∨ view.state = .cancelled) ∧
      (view.point = .over → view.state = .completed ∨ view.state = .cancelled) := Iff.rfl

theorem stateRule_lawful : (stateRule (n := n)).Lawful where
  start := ⟨rfl, Or.inl rfl⟩
  takeGlobal _ fresh := Or.inl fresh
  takeLocal _ queued := Or.inr queued
  enter {worker task view} clause := by
    have stands : view.point = .entry ∧ (view.state = .created ∨ view.state = .cancelled) ∨
        view.point = .suspended ∧ (view.state = .runnable ∨ view.state = .cancelled) := clause
    rcases stands with ⟨entry, -⟩ | ⟨suspended, state⟩
    · simp [stateRule_inFiber, entry]
    · simpa [stateRule_inFiber, suspended] using state
  goto move _ := by cases move <;> simp [stateRule_inFiber]
  store {worker task view state point} move _ := by
    generalize view.point = before at move
    cases move <;> simp [stateRule_inFiber]
  spawn _ _ _ := by simp [stateRule_inFiber]
  spawned _ _ := by simp [stateRule_inFiber]
  switchOut point clause := Or.inl ⟨rfl, clause.2.1 (Or.inl point)⟩
  finish point clause := Or.inr ⟨point, clause.2.2 point⟩
  keep {worker task view} state clause := by
    rcases clause with yielded | ⟨-, finished⟩
    · exact yielded
    · simp [state] at finished
  discard {worker task view} state clause := by
    rcases clause with ⟨-, yielded⟩ | ⟨-, finished⟩
    · exact Or.inr (yielded.resolve_left state)
    · exact finished
  reenqueue clause := clause
  retire clause := clause
  cancelFresh clause := ⟨clause.1, Or.inr rfl⟩
  cancelQueued clause := ⟨clause.1, Or.inr rfl⟩
  cancelRetired _ := Or.inr rfl

/-- The store of `cancel_task` keeps the clause of any phase. -/
theorem stateRule_cancel {worker : Fin n} {phase : Phase} {view : FiberView n}
    (clause : stateRule.held worker phase view) :
    stateRule.held worker phase { view with state := .cancelled } := by
  cases phase with
  | prepare task | switchedBack task =>
      exact clause.imp (fun held => ⟨held.1, Or.inr rfl⟩) fun held => ⟨held.1, Or.inr rfl⟩
  | inFiber task => exact ⟨clause.1, fun _ => Or.inr rfl, fun _ => Or.inr rfl⟩
  | reenqueue task => exact ⟨clause.1, Or.inr rfl⟩
  | retire task => exact Or.inr rfl
  | _ => trivial

theorem stateRule_of_home {back : SwitchBack} {scheduler : TaskScheduler n}
    (reached : ReachableUnder (step back) (ReturnsHome back) (start n) scheduler) :
    stateRule.Governs scheduler := by
  refine reached.invariant_given (fun _ => consistent_of_home) stateRule_lawful.governs_start ?_
  intro state event target consistent governs home taken
  refine stateRule_lawful.step governs consistent home ?_ ?_ taken
  · rintro worker choice victim - - task view queued
    exact Or.inr queued
  · rintro - worker task - hands
    exact stateRule_cancel (governs.held worker task hands)

/-! ## The flag behind a store of `CANCELLED` -/

/-- `spawn` has returned for the tasks that `cancel_task` can find or has found. -/
structure Registered (scheduler : TaskScheduler n) : Prop where
  mapped : ∀ task ∈ scheduler.activeTaskMap, (scheduler.tasks task).spawn = .registered
  flagged : ∀ task, (scheduler.tasks task).cancelled = true →
    (scheduler.tasks task).spawn = .registered

theorem activeTaskMap_step {back : SwitchBack} {scheduler target : TaskScheduler n}
    {event : SchedulerEvent n} (taken : scheduler.step back event = some target) {task : TaskId}
    (mapped : task ∈ target.activeTaskMap) :
    task ∈ scheduler.activeTaskMap ∨ (target.tasks task).spawn = .registered := by
  rcases step_move taken with
    move | ⟨worker, choice, rfl, move⟩ | ⟨worker, action, running, rfl, inside, move⟩
  · cases move with
    | register child stage outside =>
        rcases Finset.mem_insert.mp mapped with rfl | before
        · right
          simp [setTask]
        · exact Or.inl before
    | registerChild child parent stage spawner =>
        rcases Finset.mem_insert.mp mapped with rfl | before
        · right
          by_cases own : task = parent
          · subst own
            simp [setPoint, setTask]
          · simp [setPoint, setTask, own]
        · exact Or.inl before
    | expire child expired => exact Or.inl (Finset.mem_of_mem_erase mapped)
    | cancelState child cancelling => exact Or.inl (Finset.mem_of_mem_erase mapped)
    | _ => exact Or.inl mapped
  · cases move <;> exact Or.inl mapped
  · cases move <;> exact Or.inl mapped

/-- A task stays registered. -/
theorem registered_step {back : SwitchBack} {scheduler target : TaskScheduler n}
    {event : SchedulerEvent n} (consistent : scheduler.Consistent)
    (taken : scheduler.step back event = some target) {task : TaskId}
    (registered : (scheduler.tasks task).spawn = .registered) :
    (target.tasks task).spawn = .registered := by
  have born : task < scheduler.nextTaskId :=
    consistent.sound.lt_next fun unborn => absurd (registered.symm.trans unborn) (by simp)
  have move := step_task consistent taken task
  generalize target.tasks task = after at move ⊢
  cases move with
  | allocate spawner new => exact absurd new born.ne
  | stage stage before => exact absurd registered before
  | spawned child stage before after =>
      rcases after with rfl | rfl
      · rfl
      · exact registered
  | _ => exact registered

theorem Registered.step {back : SwitchBack} {scheduler target : TaskScheduler n}
    {event : SchedulerEvent n} (registered : scheduler.Registered)
    (consistent : scheduler.Consistent) (taken : scheduler.step back event = some target) :
    target.Registered where
  mapped task mapped := by
    rcases activeTaskMap_step taken mapped with before | now
    · exact registered_step consistent taken (registered.mapped task before)
    · exact now
  flagged task flag := by
    have before : (scheduler.tasks task).cancelled = true ∨ task ∈ scheduler.activeTaskMap := by
      have move := step_task consistent taken task
      generalize target.tasks task = after at move flag
      cases move with
      | allocate spawner new => cases flag
      | cancelFlag expired asked known => exact Or.inr known
      | _ => exact Or.inl flag
    exact registered_step consistent taken
      (before.elim (registered.flagged task) (registered.mapped task))

theorem registered_start : (start n).Registered where
  mapped _ known := absurd known (Finset.notMem_empty _)
  flagged _ flag := by cases flag

/-- Nothing clears `cancelled_`. -/
theorem cancelled_step {back : SwitchBack} {scheduler target : TaskScheduler n}
    {event : SchedulerEvent n} (registered : scheduler.Registered)
    (consistent : scheduler.Consistent) (taken : scheduler.step back event = some target)
    {task : TaskId} (flag : (scheduler.tasks task).cancelled = true) :
    (target.tasks task).cancelled = true := by
  have born : task < scheduler.nextTaskId := by
    refine consistent.sound.lt_next fun unborn => ?_
    exact absurd ((registered.flagged task flag).symm.trans unborn) (by simp)
  have move := step_task consistent taken task
  generalize target.tasks task = after at move ⊢
  cases move with
  | allocate spawner new => exact absurd new born.ne
  | cancelFlag expired asked known => rfl
  | _ => exact flag

/-- `cancel_task` names a task it has flagged. -/
theorem cancelling_step {back : SwitchBack} {scheduler target : TaskScheduler n}
    {event : SchedulerEvent n} (taken : scheduler.step back event = some target) {task : TaskId}
    (names : target.cancelling = some task) :
    scheduler.cancelling = some task ∨ (target.tasks task).cancelled = true := by
  rcases step_move taken with
    move | ⟨worker, choice, rfl, move⟩ | ⟨worker, action, running, rfl, inside, move⟩
  · cases move with
    | cancelFlag flagged expired known =>
        obtain rfl : flagged = task := Option.some.inj names
        right
        simp [setTask]
    | cancelState stored cancelling => cases names
    | _ => exact Or.inl names
  · cases move <;> exact Or.inl names
  · cases move <;> exact Or.inl names

/-- Only a task whose `cancelled_` is set is, or is about to be, `CANCELLED`. -/
structure FlagOk (scheduler : TaskScheduler n) : Prop where
  state : ∀ task, (scheduler.tasks task).state = .cancelled →
    (scheduler.tasks task).cancelled = true
  refused : ∀ task, (scheduler.tasks task).point = .invokeCancelled →
    (scheduler.tasks task).cancelled = true
  cancelling : ∀ task, scheduler.cancelling = some task →
    (scheduler.tasks task).cancelled = true

theorem flagOk_start : (start n).FlagOk where
  state _ stored := by cases stored
  refused _ stands := by cases stands
  cancelling _ names := by cases names

theorem FlagOk.step {back : SwitchBack} {scheduler target : TaskScheduler n}
    {event : SchedulerEvent n} (flags : scheduler.FlagOk) (registered : scheduler.Registered)
    (consistent : scheduler.Consistent) (taken : scheduler.step back event = some target) :
    target.FlagOk where
  state task stored := by
    have move := step_task consistent taken task
    generalize target.tasks task = after at move stored ⊢
    cases move with
    | allocate spawner new => cases stored
    | cancelFlag expired asked known => rfl
    | cancelState store cancelling => exact flags.cancelling task cancelling
    | store state point move =>
        have before := flags.refused task
        generalize (scheduler.tasks task).point = stands at move before
        cases move with
        | refused => exact before rfl
        | _ => cases stored
    | _ => exact flags.state task stored
  refused task stands := by
    have move := step_task consistent taken task
    generalize target.tasks task = after at move stands ⊢
    cases move with
    | cancelFlag expired asked known => rfl
    | enter worker before =>
        refine flags.refused task ?_
        dsimp only at stands
        split_ifs at stands
        exact stands
    | goto point own move =>
        obtain rfl : point = .invokeCancelled := stands
        cases move with
        | refuse before cancelled => exact cancelled
    | store state point move =>
        obtain rfl : point = .invokeCancelled := stands
        generalize (scheduler.tasks task).point = before at move
        cases move
    | allocate | spawned | spawn | switchOut => cases stands
    | _ => exact flags.refused task stands
  cancelling task names := by
    rcases cancelling_step taken names with before | flag
    · exact cancelled_step registered consistent taken (flags.cancelling task before)
    · exact flag

/-- What is known of every state of a run whose fibers return. -/
structure Flagged (scheduler : TaskScheduler n) : Prop extends scheduler.Consistent where
  registered : scheduler.Registered
  flags : scheduler.FlagOk

theorem flagged_of_home {back : SwitchBack} {scheduler : TaskScheduler n}
    (reached : ReachableUnder (step back) (ReturnsHome back) (start n) scheduler) :
    scheduler.Flagged := by
  refine reached.invariant ⟨consistent_start, registered_start, flagOk_start⟩ ?_
  rintro state event target ⟨consistent, registered, flags⟩ home taken
  exact ⟨consistent.step home taken, registered.step consistent taken,
    flags.step registered consistent taken⟩

/-! ## The conditions on a run -/

/-- No call of `yield` returns to the function. -/
def YieldThrows (scheduler : TaskScheduler n) (event : SchedulerEvent n) : Prop :=
  ∀ task, scheduler.FiberStepOf event task → (scheduler.tasks task).point = .yieldResumed →
    (scheduler.tasks task).cancelled = true

/-- `cancel_task` does not store to a task that has completed. -/
def CancelsUnfinished (scheduler : TaskScheduler n) (event : SchedulerEvent n) : Prop :=
  event = .cancelStore → ∀ task, scheduler.cancelling = some task →
    ¬ ((scheduler.tasks task).point = .over ∧ (scheduler.tasks task).state = .completed)

/-- The condition on the steps of a run. -/
structure KeepsStates (back : SwitchBack) (scheduler : TaskScheduler n)
    (event : SchedulerEvent n) : Prop where
  home : scheduler.ReturnsHome back event
  throws : scheduler.YieldThrows event
  unfinished : scheduler.CancelsUnfinished event

/-- A task inside its function is `RUNNING` unless a cancellation was requested. -/
def RunningOk (scheduler : TaskScheduler n) : Prop :=
  ∀ task, (scheduler.tasks task).point.inFunction = true →
    (scheduler.tasks task).cancelled = false → (scheduler.tasks task).state = .running

theorem RunningOk.step {back : SwitchBack} {scheduler target : TaskScheduler n}
    {event : SchedulerEvent n} (running : scheduler.RunningOk) (flags : scheduler.FlagOk)
    (consistent : scheduler.Consistent) (throws : scheduler.YieldThrows event)
    (taken : scheduler.step back event = some target) : target.RunningOk := by
  intro task inside unflagged
  have before := running task
  have move := step_task consistent taken task
  generalize target.tasks task = after at move inside unflagged ⊢
  cases move with
  | same | stage => exact before inside unflagged
  | allocate | switchOut => cases inside
  | cancelFlag expired asked known => cases unflagged
  | cancelState store cancelling =>
      exact absurd ((flags.cancelling task cancelling).symm.trans unflagged) (by simp)
  | spawned child stage there after => exact before (by rw [there]; rfl) unflagged
  | spawn child there => exact before (by rw [there]; rfl) unflagged
  | enter worker prepared =>
      dsimp only at inside
      split_ifs at inside
      · cases inside
      · exact before inside unflagged
  | goto point own move =>
      have returns := throws task own
      cases move with
      | refuse | proceed => cases inside
      | yield there | «return» there | throw there | handle there | yieldStart there _ =>
          exact before (by rw [there]; rfl) unflagged
      | yieldThrow there flag => exact absurd (flag.symm.trans unflagged) (by simp)
      | yieldReturn there flag =>
          exact absurd ((returns there).symm.trans flag) (by simp)
  | store state point move =>
      generalize (scheduler.tasks task).point = there at move
      cases move with
      | run => rfl
      | _ => cases inside

theorem runningOk_of_reachable {back : SwitchBack} {scheduler : TaskScheduler n}
    (reached : ReachableUnder (step back) (KeepsStates back) (start n) scheduler) :
    scheduler.RunningOk := by
  refine reached.invariant_given
    (fun _ prior => flagged_of_home (prior.weaken fun _ _ keeps => keeps.home)) ?_ ?_
  · intro task inside
    cases inside
  · intro state event target flagged running keeps taken
    exact running.step flagged.flags flagged.toConsistent keeps.throws taken

/-! ## A state that is final -/

/-- The function is over and the state says so. -/
def Settled (scheduler : TaskScheduler n) (task : TaskId) (state : TaskState) : Prop :=
  (scheduler.tasks task).point = .over ∧ (scheduler.tasks task).state = state ∧
    (state = .completed ∨ state = .cancelled)

theorem Settled.step {back : SwitchBack} {scheduler target : TaskScheduler n}
    {event : SchedulerEvent n} {task : TaskId} {state : TaskState}
    (settled : scheduler.Settled task state) (consistent : scheduler.Consistent)
    (governs : stateRule.Governs scheduler) (unfinished : scheduler.CancelsUnfinished event)
    (taken : scheduler.step back event = some target) : target.Settled task state := by
  obtain ⟨finished, stored, final⟩ := settled
  suffices kept : (target.tasks task).point = .over ∧ (target.tasks task).state = state from
    ⟨kept.1, kept.2, final⟩
  have move := step_task consistent taken task
  generalize target.tasks task = after at move ⊢
  cases move with
  | same | stage | cancelFlag => exact ⟨finished, stored⟩
  | allocate spawner new =>
      -- A new task has not run.
      have unborn : (scheduler.tasks task).spawn = .unborn :=
        consistent.sound.unborn task (Nat.le_of_eq new.symm)
      have fresh := (governs.fresh task (Or.inl (by rw [unborn]; rfl))).1
      exact absurd (fresh.symm.trans finished) (by simp)
  | spawned child stage before after => exact absurd (before.symm.trans finished) (by simp)
  | cancelState store cancelling =>
      refine ⟨finished, ?_⟩
      rcases final with rfl | rfl
      · exact absurd ⟨finished, stored⟩ (unfinished store task cancelling)
      · rfl
  | enter worker prepared =>
      refine ⟨?_, stored⟩
      dsimp only
      rw [if_neg (by simp [finished])]
      exact finished
  | goto point own move => cases move <;> simp_all
  | store stored point move =>
      rw [finished] at move
      cases move
  | spawn child before => exact absurd (before.symm.trans finished) (by simp)
  | switchOut before => exact absurd (before.symm.trans finished) (by simp)

theorem Settled.run {back : SwitchBack} {scheduler later : TaskScheduler n}
    {task : TaskId} {state : TaskState} (settled : scheduler.Settled task state)
    (reached : ReachableUnder (TaskScheduler.step back) (KeepsStates back) (start n) scheduler)
    (after : ReachableUnder (TaskScheduler.step back) (KeepsStates back) scheduler later) :
    later.Settled task state := by
  have known : ∀ middle, ReachableUnder (TaskScheduler.step back) (KeepsStates back) scheduler
      middle → middle.Consistent ∧ stateRule.Governs middle := by
    intro middle between
    have home := (reached.trans between).weaken fun _ _ keeps => keeps.home
    exact ⟨consistent_of_home home, stateRule_of_home home⟩
  refine after.invariant_given (motive := fun middle => middle.Settled task state) known settled ?_
  rintro middle event target ⟨consistent, governs⟩ settled keeps taken
  exact settled.step consistent governs keeps.unfinished taken

/-! ## Where the condition fails -/

/-- A `yield` that returns lets the function go on as `RUNNABLE`. -/
theorem runnable_of_yieldReturn {back : SwitchBack} {scheduler : TaskScheduler n}
    (governs : stateRule.Governs scheduler) {worker : Fin n} {task : TaskId}
    (inside : (scheduler.workers worker).phase = .inFiber task)
    (point : (scheduler.tasks task).point = .yieldResumed)
    (unflagged : (scheduler.tasks task).cancelled = false) :
    ∃ target, scheduler.step back (.fiber worker .advance) = some target ∧
      (target.workers worker).phase = .inFiber task ∧
      (target.tasks task).point = .body ∧ (target.tasks task).cancelled = false ∧
      (target.tasks task).state ≠ .running := by
  have clause := governs.held_of_phase inside rfl
  have notRunning : (scheduler.tasks task).state ≠ .running := by
    rcases clause.2.1 (Or.inr point) with state | state <;>
      exact fun running => absurd (state.symm.trans running) (by simp)
  refine ⟨scheduler.setPoint task .body, ?_, inside, ?_, ?_, ?_⟩
  · simp [step, inside, fiberStep, point, unflagged]
  · simp [setPoint, setTask]
  · simpa [setPoint, setTask] using unflagged
  · simpa [setPoint, setTask] using notRunning

/-- `cancel_task` makes a completed task `CANCELLED`. -/
theorem cancelled_of_cancelStore (back : SwitchBack) {scheduler : TaskScheduler n}
    {task : TaskId} (cancelling : scheduler.cancelling = some task) :
    ∃ target, scheduler.step back .cancelStore = some target ∧
      (target.tasks task).point = (scheduler.tasks task).point ∧
      (target.tasks task).state = .cancelled := by
  refine ⟨_, by simp only [step, cancelStore, cancelling]; rfl, ?_, ?_⟩ <;> simp [setTask]

/-- A thread that leaves for the context of a worker in the middle of a function
retires the task it finds there. -/
theorem running_retired {back : SwitchBack} {scheduler : TaskScheduler n} {worker : Fin n}
    {task found : TaskId} (inside : (scheduler.workers worker).phase = .inFiber task)
    (finished : (scheduler.tasks task).point = .over)
    (astray : back.worker worker (scheduler.tasks task) ≠ worker)
    (elsewhere : (scheduler.workers (back.worker worker (scheduler.tasks task))).phase =
      .inFiber found) (running : (scheduler.tasks found).state = .running) :
    ∃ target, runSteps (step back) scheduler
        [.fiber worker .advance, .worker worker ⟨true, worker⟩] = some target ∧
      found ∈ target.retired ∧ (target.tasks found).state = .running := by
  let left := scheduler.leaveFiber worker (back.worker worker (scheduler.tasks task)) task
  have leaving : scheduler.step back (.fiber worker .advance) = some left := by
    simp [step, inside, fiberStep, finished, left]
  have phase : (left.workers worker).phase = .strayRetire found := by
    simp [left, leaveFiber, astray, strayPhase, elsewhere, running, setPhase, setWorker]
  refine ⟨{ left with
    activeTasks := fetchSub left.activeTasks
    retired := left.retired ++ [found] }.setPhase worker .derailed, ?_, ?_, running⟩
  · have retiring : left.step back (.worker worker ⟨true, worker⟩) = some ({ left with
        activeTasks := fetchSub left.activeTasks
        retired := left.retired ++ [found] }.setPhase worker .derailed) := by
      simp [step, workerStep, phase]
    simp [runSteps, leaving, retiring]
  · simp [setPhase, setWorker]

/-! ## The state tells the truth -/

/-- In a run that meets the condition, a function that a worker executes and nobody
asked to cancel is `RUNNING`; a queued task is `CREATED`, `RUNNABLE` or, with its
flag set, `CANCELLED`; a retired one is `COMPLETED` or `CANCELLED`; and a final state
of a task that is over stays. A `yield` that returns, a store of `CANCELLED` to a
completed task, and a fiber that ends in the context of a worker whose own task is
running lead at once to a state that breaks one of these. -/
theorem state_tells_truth {back : SwitchBack} {scheduler : TaskScheduler n}
    (reached : ReachableUnder (step back) (KeepsStates back) (start n) scheduler) :
    (∀ worker task, (scheduler.workers worker).phase = .inFiber task →
      (scheduler.tasks task).point.inFunction = true →
      (scheduler.tasks task).cancelled = false → (scheduler.tasks task).state = .running) ∧
    (∀ task, (task ∈ scheduler.globalQueue ∨
        ∃ worker, task ∈ (scheduler.workers worker).localQueue) →
      (scheduler.tasks task).state = .created ∨ (scheduler.tasks task).state = .runnable ∨
        (scheduler.tasks task).state = .cancelled ∧ (scheduler.tasks task).cancelled = true) ∧
    (∀ task ∈ scheduler.retired,
      (scheduler.tasks task).state = .completed ∨ (scheduler.tasks task).state = .cancelled) ∧
    (∀ task, (scheduler.tasks task).point = .over →
      (scheduler.tasks task).state = .completed ∨ (scheduler.tasks task).state = .cancelled →
      ∀ later, ReachableUnder (step back) (KeepsStates back) scheduler later →
        (later.tasks task).state = (scheduler.tasks task).state) ∧
    (∀ worker task, (scheduler.workers worker).phase = .inFiber task →
      (scheduler.tasks task).point = .yieldResumed → (scheduler.tasks task).cancelled = false →
      ∃ target, scheduler.step back (.fiber worker .advance) = some target ∧
        (target.workers worker).phase = .inFiber task ∧
        (target.tasks task).point = .body ∧ (target.tasks task).cancelled = false ∧
        (target.tasks task).state ≠ .running) ∧
    (∀ task, scheduler.cancelling = some task → (scheduler.tasks task).point = .over →
      (scheduler.tasks task).state = .completed →
      ∃ target, scheduler.step back .cancelStore = some target ∧
        (target.tasks task).point = .over ∧ (target.tasks task).state = .cancelled) ∧
    ∀ worker task found, (scheduler.workers worker).phase = .inFiber task →
      (scheduler.tasks task).point = .over →
      back.worker worker (scheduler.tasks task) ≠ worker →
      (scheduler.workers (back.worker worker (scheduler.tasks task))).phase = .inFiber found →
      (scheduler.tasks found).state = .running →
      ∃ target, runSteps (step back) scheduler
          [.fiber worker .advance, .worker worker ⟨true, worker⟩] = some target ∧
        found ∈ target.retired ∧ (target.tasks found).state = .running := by
  have home := reached.weaken fun _ _ keeps => keeps.home
  have governs := stateRule_of_home home
  have flags := (flagged_of_home home).flags
  have running := runningOk_of_reachable reached
  refine ⟨fun _ task _ => running task, fun task waiting => ?_, governs.retired,
    fun task finished final later after => ?_,
    fun worker task => runnable_of_yieldReturn governs, fun task cancelling finished _ => ?_,
    fun worker task found => running_retired⟩
  · rcases waiting with fresh | ⟨worker, queued⟩
    · rcases (governs.fresh task (Or.inr fresh)).2 with created | cancelled
      · exact Or.inl created
      · exact Or.inr (Or.inr ⟨cancelled, flags.state task cancelled⟩)
    · rcases (governs.queued worker task queued).2 with runnable | cancelled
      · exact Or.inr (Or.inl runnable)
      · exact Or.inr (Or.inr ⟨cancelled, flags.state task cancelled⟩)
  · have settled : scheduler.Settled task (scheduler.tasks task).state := ⟨finished, rfl, final⟩
    exact (settled.run reached after).2.1
  · obtain ⟨target, taken, point, state⟩ := cancelled_of_cancelStore back cancelling
    exact ⟨target, taken, point.trans finished, state⟩

/-- A test for the condition on the steps. -/
def keepsStates (back : SwitchBack) (scheduler : TaskScheduler n) : SchedulerEvent n → Bool
  | .fiber worker _ =>
      match (scheduler.workers worker).phase with
      | .inFiber task =>
          match (scheduler.tasks task).point with
          | .over => decide (back.worker worker (scheduler.tasks task) = worker)
          | .yieldResumed => (scheduler.tasks task).cancelled
          | _ => true
      | _ => true
  | .cancelStore =>
      match scheduler.cancelling with
      | some task => decide ((scheduler.tasks task).state ≠ .completed)
      | none => true
  | _ => true

theorem keepsStates_sound {back : SwitchBack} {scheduler : TaskScheduler n}
    {event : SchedulerEvent n} (passed : scheduler.keepsStates back event = true) :
    scheduler.KeepsStates back event where
  home := by
    rintro worker action task rfl inside point
    simpa [keepsStates, inside, point] using passed
  throws := by
    rintro task ⟨worker, action, rfl, inside⟩ point
    simpa [keepsStates, inside, point] using passed
  unfinished := by
    rintro rfl task cancelling ⟨-, state⟩
    simp [keepsStates, cancelling, state] at passed

/-- Worker 0 runs task 1 while task 2 is cancelled in the global queue. -/
def cancelQueuedRun (worker : Fin n) : List (SchedulerEvent n) :=
  List.flatten [
    [.spawn, .spawnCount 1, .spawnSchedule 1, .spawnRegister 1],
    List.replicate 4 (.worker worker ⟨true, worker⟩),
    [.fiber worker .advance, .fiber worker .advance,
      .spawn, .spawnCount 2, .spawnSchedule 2, .spawnRegister 2, .cancelTask 2 false,
      .cancelStore]]

theorem state_tells_truth_cancelQueued :
    ∃ scheduler, ReachableUnder (step .ucLink) (KeepsStates .ucLink) (start 1) scheduler ∧
      (scheduler.workers 0).phase = .inFiber 1 ∧ (scheduler.tasks 1).state = .running ∧
      2 ∈ scheduler.globalQueue ∧ ((scheduler.tasks 2).state = .created ∨
        (scheduler.tasks 2).state = .runnable ∨ (scheduler.tasks 2).state = .cancelled ∧
          (scheduler.tasks 2).cancelled = true) := by
  have evaluated : (runSteps (guarded (step .ucLink) (keepsStates .ucLink)) (start 1)
      (cancelQueuedRun 0)).map (fun s => ((s.workers 0).phase, (s.tasks 1).point,
        (s.tasks 1).cancelled, s.globalQueue)) = some (.inFiber 1, .body, false, [2]) := by
    decide
  obtain ⟨scheduler, ran, facts⟩ := Option.map_eq_some_iff.mp evaluated
  simp only [Prod.mk.injEq] at facts
  obtain ⟨inside, point, unflagged, queue⟩ := facts
  have reached : ReachableUnder (step .ucLink) (KeepsStates .ucLink) (start 1) scheduler :=
    reachableUnder_of_guarded (fun _ _ => keepsStates_sound) ran
  have waiting : 2 ∈ scheduler.globalQueue := by simp [queue]
  obtain ⟨running, queued, -⟩ := state_tells_truth reached
  exact ⟨scheduler, reached, inside, running 0 1 inside (by rw [point]; rfl) unflagged, waiting,
    queued 2 (Or.inl waiting)⟩

/-- Task 1 yields, is resumed, and its function goes on as `RUNNABLE`. -/
theorem resumed_task_runnable :
    ¬ ∀ scheduler, Reachable (step .ucLink) (start 1) scheduler →
      ∀ worker task, (scheduler.workers worker).phase = .inFiber task →
        (scheduler.tasks task).point.inFunction = true →
        (scheduler.tasks task).cancelled = false → (scheduler.tasks task).state = .running := by
  intro always
  have evaluated : (runSteps (step .ucLink) (start 1) (List.flatten
      [yieldOnceRun 0, List.replicate 3 (.worker 0 ⟨true, 0⟩), [.fiber 0 .advance]])).map
      (fun s => ((s.workers 0).phase, (s.tasks 1).point, (s.tasks 1).cancelled,
        (s.tasks 1).state)) = some (.inFiber 1, .body, false, .runnable) := by
    decide
  obtain ⟨scheduler, ran, facts⟩ := Option.map_eq_some_iff.mp evaluated
  simp only [Prod.mk.injEq] at facts
  obtain ⟨inside, point, unflagged, runnable⟩ := facts
  have running := always scheduler (reachable_of_runSteps ran) 0 1 inside (by rw [point]; rfl)
    unflagged
  exact absurd (runnable.symm.trans running) (by decide)

end Kode.Concurrency.TaskScheduler
