/-
# The map of active tasks

`spawn` enters each task into `active_task_map_`, after the task may already be running.
Only `cancel_task` takes an id out again. The branch of `worker_loop` that retires a task
decrements `active_tasks_` and leaves the map alone.

So the map holds the registered tasks for which no call of `cancel_task` has come since. They
are live as long as every task is cancelled after it is registered and before it is retired,
and as long as no `spawn` enters a task that is retired already. The bound by
`active_tasks_` also needs that no task is retired twice, which is what a stray thread may
do. No other assumption is made on where fibers return.
-/

import Kode.Concurrency.SchedulerConservation

namespace Kode.Concurrency.TaskScheduler

open Kode.Library

variable {n : ℕ}

/-! ## Accounts of stray threads -/

namespace Ledger

/-- What may happen to the accounts where a thread may also let go of its task, or take
hold of one that another thread has. -/
inductive LooseStep (ledger : Ledger) : Ledger → Prop
  | step {target : Ledger} (taken : ledger.Step target) : LooseStep ledger target
  | regrip (placed : TaskId → ℕ) (retired_le : ∀ task, ledger.retired.count task ≤ placed task)
      (known : ∀ task, ledger.placed task = 0 → placed task = 0) :
      LooseStep ledger { ledger with placed }

/-- The counter is right, and no task is anywhere before it is scheduled. -/
structure Counted (ledger : Ledger) : Prop where
  unborn : ∀ task, ledger.nextTaskId ≤ task → ledger.stage task = .unborn
  unscheduled : ∀ task, (ledger.stage task).isScheduled = false → ledger.placed task = 0
  retired_le : ∀ task, ledger.retired.count task ≤ ledger.placed task
  active : ledger.activeTasks = ledger.live.card

theorem Counted.notRetired {ledger : Ledger} (counted : ledger.Counted) {task : TaskId}
    (unscheduled : (ledger.stage task).isScheduled = false) : task ∉ ledger.retired := by
  have atMost := counted.retired_le task
  rw [counted.unscheduled task unscheduled] at atMost
  exact List.count_eq_zero.mp (Nat.le_zero.mp atMost)

theorem Counted.unscheduled_update {ledger : Ledger} (counted : ledger.Counted) {task : TaskId}
    {stage : SpawnStage}
    (earlier : stage.isScheduled = false → (ledger.stage task).isScheduled = false)
    (other : TaskId)
    (unscheduled : (Function.update ledger.stage task stage other).isScheduled = false) :
    ledger.placed other = 0 := by
  by_cases here : other = task
  · subst here
    rw [Function.update_self] at unscheduled
    exact counted.unscheduled other (earlier unscheduled)
  · rw [Function.update_of_ne here] at unscheduled
    exact counted.unscheduled other unscheduled

/-- A task that is placed somewhere and not retired is live. -/
theorem Counted.mem_live {ledger : Ledger} (counted : ledger.Counted) {task : TaskId}
    (placed : ledger.placed task ≠ 0) (notRetired : task ∉ ledger.retired) :
    task ∈ ledger.live := by
  have scheduled : (ledger.stage task).isScheduled ≠ false :=
    fun unscheduled => placed (counted.unscheduled task unscheduled)
  have stages : ledger.stage task ≠ .unborn ∧ (ledger.stage task).isCounted = true := by
    cases stage : ledger.stage task <;> simp_all [SpawnStage.isScheduled, SpawnStage.isCounted]
  exact Ledger.mem_live.mpr ⟨lt_next_of_born counted.unborn stages.1, stages.2, notRetired⟩

theorem Counted.allocate {ledger : Ledger} (counted : ledger.Counted) :
    Counted { ledger with
      nextTaskId := ledger.nextTaskId + 1
      stage := Function.update ledger.stage ledger.nextTaskId .allocated } where
  unborn _ := unborn_allocate counted.unborn
  unscheduled := counted.unscheduled_update fun _ => by rw [counted.unborn _ le_rfl]; rfl
  retired_le := counted.retired_le
  active := by
    rw [live_allocate]
    exact counted.active

theorem Counted.count {ledger : Ledger} (counted : ledger.Counted) {task : TaskId}
    (stage : ledger.stage task = .allocated) :
    Counted { ledger with
      activeTasks := ledger.activeTasks + 1
      stage := Function.update ledger.stage task .counted } where
  unborn _ := unborn_update counted.unborn (by simp [stage]) _
  unscheduled := counted.unscheduled_update fun _ => by rw [stage]; rfl
  retired_le := counted.retired_le
  active := by
    have fresh : task ∉ ledger.live := by
      simp [Ledger.mem_live, stage, SpawnStage.isCounted]
    have born : task < ledger.nextTaskId := lt_next_of_born counted.unborn (by simp [stage])
    have notRetired : task ∉ ledger.retired := counted.notRetired (by rw [stage]; rfl)
    rw [live_count born notRetired, Finset.card_insert_of_notMem fresh, counted.active]

theorem Counted.schedule {ledger : Ledger} (counted : ledger.Counted) {task : TaskId}
    (stage : ledger.stage task = .counted) :
    Counted { ledger with
      placed := Function.update ledger.placed task (ledger.placed task + 1)
      stage := Function.update ledger.stage task .scheduled } where
  unborn _ := unborn_update counted.unborn (by simp [stage]) _
  unscheduled other := by
    by_cases here : other = task
    · subst here
      simp [SpawnStage.isScheduled]
    · simpa [here] using counted.unscheduled other
  retired_le other := by
    have atMost := counted.retired_le other
    by_cases here : other = task
    · subst here
      simp only [Function.update_self]
      omega
    · simpa [here] using atMost
  active := by
    rw [live_update_stage _ (by rw [stage]; rfl)]
    exact counted.active

theorem Counted.register {ledger : Ledger} (counted : ledger.Counted) {task : TaskId}
    (stage : ledger.stage task = .scheduled) :
    Counted { ledger with stage := Function.update ledger.stage task .registered } where
  unborn _ := unborn_update counted.unborn (by simp [stage]) _
  unscheduled := counted.unscheduled_update nofun
  retired_le := counted.retired_le
  active := by
    rw [live_update_stage _ (by rw [stage]; rfl)]
    exact counted.active

theorem Counted.retire {ledger : Ledger} (counted : ledger.Counted) {task : TaskId}
    (outside : ledger.retired.count task < ledger.placed task)
    (once : task ∉ ledger.retired) :
    Counted { ledger with
      activeTasks := fetchSub ledger.activeTasks
      retired := ledger.retired ++ [task] } where
  unborn := counted.unborn
  unscheduled := counted.unscheduled
  retired_le other := by
    have atMost := counted.retired_le other
    simp only [List.count_append, List.count_singleton, beq_iff_eq]
    split_ifs with same
    · subst same
      omega
    · omega
  active := by
    rw [live_retire]
    exact fetchSub_live (counted.mem_live (Nat.ne_zero_of_lt outside) once) counted.active

theorem Counted.step {ledger target : Ledger} (counted : ledger.Counted)
    (taken : ledger.LooseStep target)
    (once : ∀ task, target.retired = ledger.retired ++ [task] → task ∉ ledger.retired) :
    target.Counted := by
  cases taken with
  | regrip placed retired_le known =>
      exact
        { counted with
          unscheduled := fun task early => known task (counted.unscheduled task early)
          retired_le }
  | step taken =>
      cases taken with
      | stutter => exact counted
      | allocate => exact counted.allocate
      | count task stage => exact counted.count stage
      | schedule task stage => exact counted.schedule stage
      | register task stage => exact counted.register stage
      | retire task outside => exact counted.retire outside (once task rfl)

theorem LooseStep.unborn {ledger target : Ledger} (taken : ledger.LooseStep target)
    (unborn : ∀ task, ledger.nextTaskId ≤ task → ledger.stage task = .unborn) :
    ∀ task, target.nextTaskId ≤ task → target.stage task = .unborn := by
  cases taken with
  | regrip => exact unborn
  | step taken =>
      cases taken with
      | stutter | retire => exact unborn
      | allocate => exact fun _ => unborn_allocate unborn
      | count task stage | schedule task stage | register task stage =>
          exact fun _ => unborn_update unborn (by simp [stage]) _

/-- A task stays registered. -/
theorem LooseStep.registered {ledger target : Ledger} (taken : ledger.LooseStep target)
    (unborn : ∀ task, ledger.nextTaskId ≤ task → ledger.stage task = .unborn) {task : TaskId}
    (registered : ledger.stage task = .registered) : target.stage task = .registered := by
  cases taken with
  | regrip => exact registered
  | step taken =>
      cases taken with
      | stutter => exact registered
      | allocate =>
          have earlier : task < ledger.nextTaskId := lt_next_of_born unborn (by simp [registered])
          simpa [earlier.ne] using registered
      | count other stage | schedule other stage =>
          have different : task ≠ other := by
            rintro rfl
            simp [registered] at stage
          simpa [different] using registered
      | register other stage =>
          by_cases here : task = other
          · simp [here]
          · simpa [here] using registered
      | retire => exact registered

end Ledger

/-! ## Every step keeps the accounts -/

theorem retired_le_occurrences (scheduler : TaskScheduler n) (task : TaskId) :
    scheduler.retired.count task ≤ scheduler.occurrences task :=
  Nat.le_add_left _ _

theorem occurrences_setPhase_eq_zero {scheduler : TaskScheduler n} {worker : Fin n}
    {phase : Phase} {task : TaskId} (nowhere : scheduler.occurrences task = 0)
    (other : phase.executing ≠ some task) :
    (scheduler.setPhase worker phase).occurrences task = 0 := by
  have exchanged := occurrences_setWorker scheduler worker
    (fun current => { current with phase }) task
  simp only [workerOccurrences, if_neg other] at exchanged
  rw [setPhase]
  omega

/-- A thread that leaves a fiber goes on with a task that some worker has in its hands. -/
theorem occurrences_leaveFiber_eq_zero {scheduler : TaskScheduler n} {worker : Fin n}
    {task : TaskId} (inside : (scheduler.workers worker).phase = .inFiber task) (target : Fin n)
    {other : TaskId} (nowhere : scheduler.occurrences other = 0) :
    (scheduler.leaveFiber worker target task).occurrences other = 0 := by
  have held : ∀ holder found, (scheduler.workers holder).phase = .inFiber found →
      some found ≠ some other := by
    rintro holder found there same
    obtain rfl := Option.some.inj same
    have somewhere := retired_lt_occurrences (Phase.executing_of_inFiber there)
    omega
  refine occurrences_setPhase_eq_zero nowhere ?_
  split_ifs with home
  · exact held worker task inside
  · unfold strayPhase
    split
    · rename_i found there
      split_ifs <;> exact held target found there
    · exact nofun

theorem looseStep_leaveFiber {scheduler : TaskScheduler n} {worker : Fin n} {task : TaskId}
    (inside : (scheduler.workers worker).phase = .inFiber task) (target : Fin n) :
    scheduler.ledger.LooseStep (scheduler.leaveFiber worker target task).ledger :=
  .regrip _ (retired_le_occurrences (scheduler.leaveFiber worker target task))
    fun _ => occurrences_leaveFiber_eq_zero inside target

theorem looseStep_fiberMove {back : SwitchBack} {scheduler target : TaskScheduler n}
    {worker : Fin n} {task : TaskId}
    (inside : (scheduler.workers worker).phase = .inFiber task)
    (move : FiberMove back scheduler worker task target) :
    scheduler.ledger.LooseStep target.ledger := by
  cases move with
  | stay => exact .step .stutter
  | goto point move | noContext =>
      rw [ledger_setPoint]
      exact .step .stutter
  | store state point move =>
      exact .step
        (ledger_step_of_eq rfl rfl rfl (stage_setTask_of_eq fun _ => rfl) fun _ => rfl)
  | spawn point =>
      rw [ledger_setPoint]
      exact .step (scheduler.ledger_allocate (some task))
  | switchOut owner point recorded =>
      rw [← ledger_setPoint scheduler task .suspended]
      have still : ((scheduler.setPoint task .suspended).workers worker).phase =
          .inFiber task := inside
      exact looseStep_leaveFiber still owner
  | finish point => exact looseStep_leaveFiber inside _

theorem looseStep_step {back : SwitchBack} {scheduler target : TaskScheduler n}
    {event : SchedulerEvent n} (taken : scheduler.step back event = some target) :
    scheduler.ledger.LooseStep target.ledger := by
  rcases step_move taken with
    move | ⟨worker, choice, rfl, move⟩ | ⟨worker, action, task, rfl, inside, move⟩
  · exact .step (ledger_sharedMove move)
  · exact .step (ledger_workerMove move)
  · exact looseStep_fiberMove inside move

/-! ## The map -/

/-- A worker is about to retire a task. -/
def AboutToRetire (scheduler : TaskScheduler n) (worker : Fin n) (task : TaskId) : Prop :=
  (scheduler.workers worker).phase = .retire task ∨
    (scheduler.workers worker).phase = .strayRetire task

/-- Tasks are retired by the steps of workers that are about to do so. -/
theorem retired_of_step {back : SwitchBack} {scheduler target : TaskScheduler n}
    {event : SchedulerEvent n} (taken : scheduler.step back event = some target) :
    target.retired = scheduler.retired ∨ ∃ worker choice task,
      event = .worker worker choice ∧ scheduler.AboutToRetire worker task ∧
        target.retired = scheduler.retired ++ [task] := by
  rcases step_move taken with
    move | ⟨worker, choice, rfl, move⟩ | ⟨worker, action, task, rfl, inside, move⟩
  · cases move <;> exact Or.inl rfl
  · cases move with
    | retire task before => exact Or.inr ⟨worker, choice, task, rfl, Or.inl before, rfl⟩
    | strayRetire task before => exact Or.inr ⟨worker, choice, task, rfl, Or.inr before, rfl⟩
    | _ => exact Or.inl rfl
  · cases move <;> exact Or.inl rfl

theorem spawn_setPoint (scheduler : TaskScheduler n) (changed task : TaskId)
    (point : FiberPoint) :
    ((scheduler.setPoint changed point).tasks task).spawn = (scheduler.tasks task).spawn :=
  congrFun (congrArg Ledger.stage (ledger_setPoint scheduler changed point)) task

/-- Only the last step of `spawn` enters a task. -/
theorem mem_activeTaskMap_step {back : SwitchBack} {scheduler target : TaskScheduler n}
    {event : SchedulerEvent n} (taken : scheduler.step back event = some target) {task : TaskId}
    (member : task ∈ target.activeTaskMap) :
    task ∈ scheduler.activeTaskMap ∨
      event = .spawnRegister task ∧ (target.tasks task).spawn = .registered := by
  rcases step_move taken with
    move | ⟨worker, choice, rfl, move⟩ | ⟨worker, action, task, rfl, inside, move⟩
  · cases move with
    | register entered stage outside =>
        rcases Finset.mem_insert.mp member with rfl | before
        · exact Or.inr ⟨rfl, by simp [setTask]⟩
        · exact Or.inl before
    | registerChild entered parent stage own =>
        rcases Finset.mem_insert.mp member with rfl | before
        · refine Or.inr ⟨rfl, ?_⟩
          rw [spawn_setPoint]
          simp [setTask]
        · exact Or.inl before
    | expire | cancelState => exact Or.inl (Finset.mem_of_mem_erase member)
    | _ => exact Or.inl member
  · cases move <;> exact Or.inl member
  · cases move <;> exact Or.inl member

/-! ## Calls of `cancel_task` -/

/-- What an observer of `cancel_task` writes down: the registered task it is called for. -/
def cancelCall (before : TaskScheduler n) (event : SchedulerEvent n) (_after : TaskScheduler n) :
    Option TaskId :=
  match event with
  | .cancelTask task _ => if (before.tasks task).spawn = .registered then some task else none
  | _ => none

/-- `cancel_task` was called for the task after it was registered, and the call is over. -/
def CancelledSince (scheduler : TaskScheduler n) (calls : List TaskId) (task : TaskId) : Prop :=
  task ∈ calls ∧ scheduler.cancelling ≠ some task

instance (scheduler : TaskScheduler n) (calls : List TaskId) (task : TaskId) :
    Decidable (scheduler.CancelledSince calls task) :=
  inferInstanceAs (Decidable (_ ∧ _))

/-- What a step does to the map and to the call of `cancel_task` that is going on. -/
inductive MapMove (scheduler target : TaskScheduler n) : SchedulerEvent n → Prop
  | register (task : TaskId) (stage : (scheduler.tasks task).spawn = .scheduled)
      (map : target.activeTaskMap = insert task scheduler.activeTaskMap)
      (call : target.cancelling = scheduler.cancelling) :
      MapMove scheduler target (.spawnRegister task)
  | ignore (task : TaskId) (expired : Bool) (outside : task ∉ scheduler.activeTaskMap)
      (map : target.activeTaskMap = scheduler.activeTaskMap)
      (idle : scheduler.cancelling = none) (call : target.cancelling = none) :
      MapMove scheduler target (.cancelTask task expired)
  | expire (task : TaskId) (expired : Bool)
      (map : target.activeTaskMap = scheduler.activeTaskMap.erase task)
      (idle : scheduler.cancelling = none) (call : target.cancelling = none) :
      MapMove scheduler target (.cancelTask task expired)
  | flag (task : TaskId) (expired : Bool) (known : task ∈ scheduler.activeTaskMap)
      (map : target.activeTaskMap = scheduler.activeTaskMap)
      (idle : scheduler.cancelling = none) (call : target.cancelling = some task) :
      MapMove scheduler target (.cancelTask task expired)
  | store (task : TaskId) (before : scheduler.cancelling = some task)
      (map : target.activeTaskMap = scheduler.activeTaskMap.erase task)
      (call : target.cancelling = none) : MapMove scheduler target .cancelStore
  | other {event : SchedulerEvent n} (unregistered : ∀ task, event ≠ .spawnRegister task)
      (uncalled : ∀ task expired, event ≠ .cancelTask task expired)
      (map : target.activeTaskMap = scheduler.activeTaskMap)
      (call : target.cancelling = scheduler.cancelling) : MapMove scheduler target event

theorem mapMove_cancelTask {scheduler target : TaskScheduler n} {task : TaskId} {expired : Bool}
    (taken : scheduler.cancelTask task expired = some target) :
    MapMove scheduler target (.cancelTask task expired) := by
  unfold cancelTask at taken
  split_ifs at taken with busy known
  all_goals
    have idle := not_not.mp busy
    obtain rfl := Option.some.inj taken
  · exact .expire task _ rfl idle idle
  · exact .flag task _ known rfl idle rfl
  · exact .ignore task expired known rfl idle idle

theorem mapMove_step {back : SwitchBack} {scheduler target : TaskScheduler n}
    {event : SchedulerEvent n} (taken : scheduler.step back event = some target) :
    MapMove scheduler target event := by
  rcases step_move taken with
    move | ⟨worker, choice, rfl, move⟩ | ⟨worker, action, task, rfl, inside, move⟩
  · cases move with
    | register task stage => exact .register task stage rfl rfl
    | registerChild task parent stage => exact .register task stage rfl rfl
    | ignore task expired | expire task expired | cancelFlag task expired =>
        exact mapMove_cancelTask taken
    | cancelState task cancelling => exact .store task cancelling rfl rfl
    | allocate | count | schedule | stop =>
        exact .other (fun _ other => by cases other) (fun _ _ other => by cases other) rfl rfl
  · cases move <;>
      exact .other (fun _ other => by cases other) (fun _ _ other => by cases other) rfl rfl
  · cases move <;>
      exact .other (fun _ other => by cases other) (fun _ _ other => by cases other) rfl rfl

/-- A change of one task registers no other. -/
theorem registered_of_update {scheduler target : TaskScheduler n} {changed task : TaskId}
    {after : Task n} (tasks : target.tasks = Function.update scheduler.tasks changed after)
    (registered : (target.tasks task).spawn = .registered) :
    (scheduler.tasks task).spawn = .registered ∨ task = changed ∧ after.spawn = .registered := by
  rw [tasks] at registered
  by_cases here : task = changed
  · subst here
    rw [Function.update_self] at registered
    exact Or.inr ⟨rfl, registered⟩
  · rw [Function.update_of_ne here] at registered
    exact Or.inl registered

/-- Only the last step of `spawn` registers a task. -/
theorem registered_of_step {back : SwitchBack} {scheduler target : TaskScheduler n}
    {event : SchedulerEvent n} (taken : scheduler.step back event = some target) {task : TaskId}
    (registered : (target.tasks task).spawn = .registered) :
    (scheduler.tasks task).spawn = .registered ∨ event = .spawnRegister task := by
  rcases step_move taken with
    move | ⟨worker, choice, rfl, move⟩ | ⟨worker, action, running, rfl, inside, move⟩
  · cases move with
    | allocate | count | schedule =>
        exact Or.inl ((registered_of_update rfl registered).elim id fun new => by cases new.2)
    | register => exact (registered_of_update rfl registered).imp_right fun new => by rw [new.1]
    | registerChild =>
        rw [spawn_setPoint] at registered
        exact (registered_of_update rfl registered).imp_right fun new => by rw [new.1]
    | ignore | expire | stop => exact Or.inl registered
    | cancelFlag | cancelState =>
        exact Or.inl ((registered_of_update rfl registered).elim id fun new => new.1 ▸ new.2)
  · cases move with
    | enter => exact Or.inl ((registered_of_update rfl registered).elim id fun new => new.1 ▸ new.2)
    | _ => exact Or.inl registered
  · cases move with
    | goto | noContext | store | switchOut =>
        exact Or.inl ((registered_of_update rfl registered).elim id fun new => new.1 ▸ new.2)
    | spawn =>
        rw [spawn_setPoint] at registered
        exact Or.inl ((registered_of_update rfl registered).elim id fun new => by cases new.2)
    | stay | finish => exact Or.inl registered

/-- The map holds the registered tasks that have not been cancelled since; `calls` is what the
observer has written down. -/
structure Tracks (scheduler : TaskScheduler n) (calls : List TaskId) : Prop where
  unborn : ∀ task, scheduler.nextTaskId ≤ task → (scheduler.tasks task).spawn = .unborn
  called : ∀ task ∈ calls, (scheduler.tasks task).spawn = .registered
  held : ∀ task, scheduler.cancelling = some task → task ∈ calls
  map : ∀ task, task ∈ scheduler.activeTaskMap ↔
    (scheduler.tasks task).spawn = .registered ∧ ¬ scheduler.CancelledSince calls task

theorem tracks_start : (start n).Tracks [] where
  unborn _ _ := rfl
  called _ member := absurd member List.not_mem_nil
  held _ busy := by cases busy
  map task := by simp [start, unbornTask]

theorem mem_cancelCall {before after : TaskScheduler n} {event : SchedulerEvent n}
    {task : TaskId} : task ∈ (before.cancelCall event after).toList ↔
      (∃ expired, event = .cancelTask task expired) ∧
        (before.tasks task).spawn = .registered := by
  cases event with
  | cancelTask called expired =>
      by_cases registered : (before.tasks called).spawn = .registered
      · simp only [cancelCall, registered, if_true, Option.toList_some, List.mem_singleton]
        constructor
        · rintro rfl
          exact ⟨⟨expired, rfl⟩, registered⟩
        · rintro ⟨⟨_, same⟩, -⟩
          exact (SchedulerEvent.cancelTask.inj same).1.symm
      · simp only [cancelCall, registered, if_false, Option.toList_none, List.not_mem_nil,
          false_iff]
        rintro ⟨⟨_, same⟩, stage⟩
        exact registered ((SchedulerEvent.cancelTask.inj same).1 ▸ stage)
  | _ => simp [cancelCall]

/-- A task that is registered stays so. -/
theorem Tracks.registered {back : SwitchBack} {scheduler target : TaskScheduler n}
    {calls : List TaskId} {event : SchedulerEvent n} (tracks : scheduler.Tracks calls)
    (taken : scheduler.step back event = some target) {task : TaskId}
    (registered : (scheduler.tasks task).spawn = .registered) :
    (target.tasks task).spawn = .registered :=
  (looseStep_step taken).registered tracks.unborn registered

/-- A call that is going on is for a task that was registered. -/
theorem Tracks.held_step {back : SwitchBack} {scheduler target : TaskScheduler n}
    {calls : List TaskId} {event : SchedulerEvent n} (tracks : scheduler.Tracks calls)
    (taken : scheduler.step back event = some target) {task : TaskId}
    (busy : target.cancelling = some task) :
    task ∈ calls ++ (scheduler.cancelCall event target).toList := by
  cases mapMove_step taken with
  | register _ _ _ call | other _ _ _ call =>
      exact List.mem_append_left _ (tracks.held task (call.symm.trans busy))
  | ignore _ _ _ _ _ call | expire _ _ _ _ call | store _ _ _ call =>
      rw [call] at busy
      cases busy
  | flag called expired known _ _ call =>
      obtain rfl := Option.some.inj (call.symm.trans busy)
      exact List.mem_append_right _
        (mem_cancelCall.mpr ⟨⟨expired, rfl⟩, ((tracks.map called).mp known).1⟩)

/-- The last step of `spawn` enters a task that no call has come for, and the end of a call
takes its task out. -/
theorem Tracks.map_step {back : SwitchBack} {scheduler target : TaskScheduler n}
    {calls : List TaskId} {event : SchedulerEvent n} (tracks : scheduler.Tracks calls)
    (taken : scheduler.step back event = some target) (task : TaskId) :
    task ∈ target.activeTaskMap ↔ (target.tasks task).spawn = .registered ∧
      ¬ target.CancelledSince (calls ++ (scheduler.cancelCall event target).toList) task := by
  have before := tracks.map task
  have stage : (target.tasks task).spawn = .registered ↔
      (scheduler.tasks task).spawn = .registered ∨ event = .spawnRegister task ∧
        (target.tasks task).spawn = .registered := by
    refine ⟨fun registered => ?_, fun either => either.elim (tracks.registered taken) And.right⟩
    exact (registered_of_step taken registered).imp_right fun entered => ⟨entered, registered⟩
  have enters (member : task ∈ target.activeTaskMap) := mem_activeTaskMap_step taken member
  simp only [CancelledSince, List.mem_append, mem_cancelCall] at before ⊢
  cases mapMove_step taken with
  | register entered scheduled map call =>
      have uncalled : entered ∉ calls := fun member => by
        have registered := tracks.called entered member
        rw [scheduled] at registered
        cases registered
      grind
  | store called busy map call =>
      have held := tracks.held called busy
      grind
  | ignore called expired outside map idle call => grind
  | expire called expired map idle call => grind
  | flag called expired known map idle call => grind
  | other unregistered uncalled map call => grind

theorem Tracks.step {back : SwitchBack} {scheduler target : TaskScheduler n}
    {calls : List TaskId} {event : SchedulerEvent n} (tracks : scheduler.Tracks calls)
    (taken : scheduler.step back event = some target) :
    target.Tracks (calls ++ (scheduler.cancelCall event target).toList) where
  unborn := (looseStep_step taken).unborn tracks.unborn
  called task member := by
    rcases List.mem_append.mp member with before | new
    · exact tracks.registered taken (tracks.called task before)
    · exact tracks.registered taken (mem_cancelCall.mp new).2
  held _ busy := tracks.held_step taken busy
  map := tracks.map_step taken

/-! ## Retired tasks -/

/-- Where a worker is about to retire a task that is registered, the task has been cancelled
since; no task is retired twice, and none is registered after it was retired. -/
structure KeepsMapLive (state : TaskScheduler n × List TaskId) (event : SchedulerEvent n) :
    Prop where
  cancelled : ∀ worker choice task, event = .worker worker choice →
    state.1.AboutToRetire worker task → (state.1.tasks task).spawn = .registered →
      state.1.CancelledSince state.2 task
  once : ∀ worker choice task, event = .worker worker choice →
    state.1.AboutToRetire worker task → task ∉ state.1.retired
  registers : ∀ task, event = .spawnRegister task → task ∉ state.1.retired

/-- The accounts are right and the map holds no task that is retired. -/
structure MapLive (scheduler : TaskScheduler n) (calls : List TaskId) : Prop
    extends scheduler.Tracks calls where
  counted : scheduler.ledger.Counted
  notRetired : ∀ task ∈ scheduler.activeTaskMap, task ∉ scheduler.retired

theorem mapLive_start : (start n).MapLive [] where
  toTracks := tracks_start
  counted :=
    { unborn := sound_start.unborn
      unscheduled := fun task unscheduled => by
        rw [sound_start.placed task, unscheduled]
        rfl
      retired_le := sound_start.retired_le
      active := sound_start.active }
  notRetired _ member := absurd member (Finset.notMem_empty _)

theorem MapLive.step {back : SwitchBack} {scheduler target : TaskScheduler n}
    {calls : List TaskId} {event : SchedulerEvent n} (live : scheduler.MapLive calls)
    (keeps : KeepsMapLive (scheduler, calls) event)
    (taken : scheduler.step back event = some target) :
    target.MapLive (calls ++ (scheduler.cancelCall event target).toList) where
  toTracks := live.toTracks.step taken
  counted := by
    refine live.counted.step (looseStep_step taken) fun task retires => ?_
    have appended : target.retired = scheduler.retired ++ [task] := retires
    rcases retired_of_step taken with same | ⟨worker, choice, other, rfl, about, added⟩
    · exact absurd (same.symm.trans appended) (by simp)
    · obtain rfl : other = task := by
        have both := added.symm.trans appended
        simpa using both
      exact keeps.once worker choice other rfl about
  notRetired task member := by
    rcases retired_of_step taken with same | ⟨worker, choice, other, rfl, about, added⟩
    · rw [same]
      rcases mem_activeTaskMap_step taken member with before | ⟨entered, -⟩
      · exact live.notRetired task before
      · exact keeps.registers task entered
    · rcases mem_activeTaskMap_step taken member with before | ⟨entered, -⟩
      · rw [added, List.mem_append, List.mem_singleton]
        rintro (earlier | rfl)
        · exact live.notRetired task before earlier
        · obtain ⟨registered, uncancelled⟩ := (live.map task).mp before
          exact uncancelled (keeps.cancelled worker choice task rfl about registered)
      · cases entered

theorem mapLive_of_reachable {back : SwitchBack} {later : TaskScheduler n × List TaskId}
    (reached : ReachableUnder (observed (step back) cancelCall) KeepsMapLive (start n, []) later) :
    later.1.MapLive later.2 := by
  refine reached.invariant (motive := fun later => later.1.MapLive later.2) mapLive_start ?_
  intro state event target live keeps taken
  obtain ⟨stepped, written⟩ := observed_eq_some_iff.mp taken
  rw [written]
  exact live.step keeps stepped

theorem MapLive.subset_live {scheduler : TaskScheduler n} {calls : List TaskId}
    (live : scheduler.MapLive calls) : scheduler.activeTaskMap ⊆ scheduler.ledger.live := by
  intro task member
  have registered : scheduler.ledger.stage task = .registered := ((live.map task).mp member).1
  refine Ledger.mem_live.mpr ⟨?_, by rw [registered]; rfl, live.notRetired task member⟩
  exact Ledger.lt_next_of_born live.counted.unborn (by simp [registered])

/-- The branch that retires a task leaves the map alone. -/
theorem retire_leaves_map (back : SwitchBack) {scheduler : TaskScheduler n} {worker : Fin n}
    {task : TaskId} (choice : StealChoice n) (about : scheduler.AboutToRetire worker task) :
    ∃ target, scheduler.step back (.worker worker choice) = some target ∧
      target.activeTaskMap = scheduler.activeTaskMap ∧
      target.retired = scheduler.retired ++ [task] := by
  rcases about with retires | strays
  · have taken : scheduler.step back (.worker worker choice) = some ({ scheduler with
        activeTasks := fetchSub scheduler.activeTasks
        retired := scheduler.retired ++ [task] }.setPhase worker (.clear task)) := by
      simp only [step, workerStep, retires]
    exact ⟨_, taken, rfl, rfl⟩
  · have taken : scheduler.step back (.worker worker choice) = some ({ scheduler with
        activeTasks := fetchSub scheduler.activeTasks
        retired := scheduler.retired ++ [task] }.setPhase worker .derailed) := by
      simp only [step, workerStep, strays]
    exact ⟨_, taken, rfl, rfl⟩

/-- As long as every task is cancelled between its registration and its retirement, the map
holds only tasks that are spawned and not retired, and no more of them than `active_tasks_`
counts. It always holds the registered tasks that were not cancelled since, so one of these
that is retired is in the map from then on. -/
theorem map_tracks_live_tasks {back : SwitchBack} {later : TaskScheduler n × List TaskId}
    (reached : ReachableUnder (observed (step back) cancelCall) KeepsMapLive (start n, []) later) :
    (∀ task ∈ later.1.activeTaskMap,
      (later.1.tasks task).spawn = .registered ∧ task ∉ later.1.retired) ∧
    later.1.activeTaskMap.card ≤ later.1.activeTasks ∧
    (∀ task, task ∈ later.1.activeTaskMap ↔
      (later.1.tasks task).spawn = .registered ∧ ¬ later.1.CancelledSince later.2 task) ∧
    ∀ worker choice task, later.1.AboutToRetire worker task → task ∈ later.1.activeTaskMap →
      ∃ target, later.1.step back (.worker worker choice) = some target ∧
        task ∈ target.activeTaskMap ∧ task ∈ target.retired := by
  have live := mapLive_of_reachable reached
  refine ⟨fun task member => ⟨((live.map task).mp member).1, live.notRetired task member⟩, ?_,
    live.map, fun worker choice task about member => ?_⟩
  · have counter : later.1.activeTasks = later.1.ledger.live.card := live.counted.active
    rw [counter]
    exact Finset.card_le_card live.subset_live
  · obtain ⟨target, taken, map, retired⟩ := retire_leaves_map back choice about
    exact ⟨target, taken, map ▸ member, by simp [retired]⟩

/-- A test of the condition. -/
def keepsMapLiveTest (state : TaskScheduler n × List TaskId) : SchedulerEvent n → Bool
  | .worker worker _ =>
      match (state.1.workers worker).phase with
      | .retire task | .strayRetire task =>
          decide ((state.1.tasks task).spawn = .registered →
            state.1.CancelledSince state.2 task) && decide (task ∉ state.1.retired)
      | _ => true
  | .spawnRegister task => decide (task ∉ state.1.retired)
  | _ => true

theorem keepsMapLive_of_test {state : TaskScheduler n × List TaskId} {event : SchedulerEvent n}
    (passed : keepsMapLiveTest state event = true) : KeepsMapLive state event where
  cancelled := by
    rintro worker choice task rfl (about | about) <;>
    · simp only [keepsMapLiveTest, about, Bool.and_eq_true, decide_eq_true_eq] at passed
      exact passed.1
  once := by
    rintro worker choice task rfl (about | about) <;>
    · simp only [keepsMapLiveTest, about, Bool.and_eq_true, decide_eq_true_eq] at passed
      exact passed.2
  registers := by
    rintro task rfl
    simpa [keepsMapLiveTest] using passed

/-- A whole `spawn` of a task by an outside thread. -/
def spawnRun (task : TaskId) : List (SchedulerEvent n) :=
  [.spawn, .spawnCount task, .spawnSchedule task, .spawnRegister task]

/-- Of two tasks the first is cancelled before it runs; it has left the map when it is
retired. -/
theorem map_tracks_live_tasks_cancelled :
    ∃ later : TaskScheduler 1 × List TaskId,
      ReachableUnder (observed (step .ucLink) cancelCall) KeepsMapLive (start 1, []) later ∧
      later.1.retired = [1] ∧ 2 ∈ later.1.activeTaskMap ∧
      2 ∉ later.1.retired ∧ later.1.activeTaskMap.card ≤ later.1.activeTasks := by
  have evaluated : (runSteps (guarded (observed (step .ucLink) cancelCall) keepsMapLiveTest)
      (start 1, []) (List.flatten [spawnRun 1, spawnRun 2, [.cancelTask 1 false, .cancelStore],
        List.replicate 4 (.worker 0 ⟨true, 0⟩), List.replicate 3 (.fiber 0 .advance),
        List.replicate 2 (.worker 0 ⟨true, 0⟩)])).map
      (fun s => (s.1.retired, decide (2 ∈ s.1.activeTaskMap))) = some ([1], true) := by
    decide
  obtain ⟨later, ran, facts⟩ := Option.map_eq_some_iff.mp evaluated
  obtain ⟨retired, member⟩ := Prod.mk.inj facts
  have reached := reachableUnder_of_guarded (fun _ _ => keepsMapLive_of_test) ran
  obtain ⟨tracked, bound, -⟩ := map_tracks_live_tasks reached
  have inside := of_decide_eq_true member
  exact ⟨later, reached, retired, inside, (tracked 2 inside).2, bound⟩

theorem unborn_of_reachable {back : SwitchBack} {scheduler : TaskScheduler n}
    (reached : Reachable (step back) (start n) scheduler) :
    ∀ task, scheduler.nextTaskId ≤ task → (scheduler.tasks task).spawn = .unborn :=
  reached.invariant
    (motive := fun s => ∀ task, s.ledger.nextTaskId ≤ task → s.ledger.stage task = .unborn)
    (sound_start (n := n)).unborn fun _ _ _ unborn _ taken => (looseStep_step taken).unborn unborn

/-- A task that runs to its end and is retired is still in the map. -/
theorem retired_task_stays_in_map :
    ¬ ∀ scheduler, Reachable (step .ucLink) (start 1) scheduler →
      (∀ task, (scheduler.tasks task).spawn.inProgress = false) →
        (∀ task ∈ scheduler.activeTaskMap, task ∉ scheduler.retired) ∧
          scheduler.activeTaskMap.card ≤ scheduler.activeTasks := by
  intro always
  have evaluated : (runSteps (step .ucLink) (start 1)
      (List.flatten [spawnRun 1, List.replicate 4 (.worker 0 ⟨true, 0⟩),
        [.fiber 0 .advance, .fiber 0 .advance, .fiber 0 .return, .fiber 0 .advance,
          .fiber 0 .advance],
        List.replicate 2 (.worker 0 ⟨true, 0⟩)])).map
      (fun s => (s.nextTaskId, (s.tasks 0).spawn, (s.tasks 1).spawn,
        decide (1 ∈ s.activeTaskMap), s.retired)) =
        some (2, .unborn, .registered, true, [1]) := by
    decide
  obtain ⟨scheduler, ran, facts⟩ := Option.map_eq_some_iff.mp evaluated
  simp only [Prod.mk.injEq, decide_eq_true_eq] at facts
  obtain ⟨next, zero, one, member, retired⟩ := facts
  have reached := reachable_of_runSteps ran
  have quiet : ∀ task, (scheduler.tasks task).spawn.inProgress = false := by
    intro task
    match task with
    | 0 => rw [zero]; rfl
    | 1 => rw [one]; rfl
    | task + 2 =>
        rw [unborn_of_reachable reached (task + 2) (next ▸ Nat.le_add_left 2 task)]
        rfl
  exact (always scheduler reached quiet).1 1 member (by simp [retired])

end Kode.Concurrency.TaskScheduler
