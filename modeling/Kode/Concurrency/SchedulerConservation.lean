/-
# Tasks are conserved

A scheduled task is in one place: the global queue, one local queue, the hands of
one worker, or among the retired tasks. The invariant counts occurrences over all
places at once. Every step moves at most one task from one place to another, so
the count of a task is fixed from the moment it is scheduled, and the counter
`active_tasks_` follows the tasks that are counted and not retired.

A task is lost when its fiber does not return to the worker that switched into it,
and the task that the stray thread finds instead is accounted for twice. The results
of this module assume that fibers return (`Returns`, or `ReturnsHome` of the one step
that ends a fiber); where `uc_link` sends them is the subject of another module.
-/

import Kode.Concurrency.Scheduler
import Kode.Library.Family

namespace Kode.Concurrency.TaskScheduler

open Kode.Library

variable {n : ℕ}

/-! ## The ledger

What conservation is about, without queues and threads: how far each task's
`spawn` has come, how often the task is placed somewhere, who has been retired,
and the counter. -/

/-- The accounts of a scheduler. -/
@[ext]
structure Ledger where
  nextTaskId : TaskId
  activeTasks : ℕ
  stage : TaskId → SpawnStage
  placed : TaskId → ℕ
  retired : List TaskId

namespace Ledger

/-- What may happen to the accounts in one step. A task may be retired only while
it is placed somewhere besides the retired tasks. -/
inductive Step (ledger : Ledger) : Ledger → Prop
  | stutter : Step ledger ledger
  | allocate : Step ledger { ledger with
      nextTaskId := ledger.nextTaskId + 1
      stage := Function.update ledger.stage ledger.nextTaskId .allocated }
  | count (task : TaskId) (stage : ledger.stage task = .allocated) : Step ledger { ledger with
      activeTasks := ledger.activeTasks + 1
      stage := Function.update ledger.stage task .counted }
  | schedule (task : TaskId) (stage : ledger.stage task = .counted) : Step ledger { ledger with
      placed := Function.update ledger.placed task (ledger.placed task + 1)
      stage := Function.update ledger.stage task .scheduled }
  | register (task : TaskId) (stage : ledger.stage task = .scheduled) : Step ledger { ledger with
      stage := Function.update ledger.stage task .registered }
  | retire (task : TaskId) (outside : ledger.retired.count task < ledger.placed task) :
      Step ledger { ledger with
        activeTasks := fetchSub ledger.activeTasks
        retired := ledger.retired ++ [task] }

theorem Step.congr {ledger target other : Ledger} (taken : ledger.Step target)
    (same : other = target) : ledger.Step other :=
  same ▸ taken

/-- The tasks that `active_tasks_` should count: those that `spawn` has counted
and that are not retired. -/
def live (ledger : Ledger) : Finset TaskId :=
  (Finset.range ledger.nextTaskId).filter fun task =>
    (ledger.stage task).isCounted = true ∧ task ∉ ledger.retired

theorem mem_live {ledger : Ledger} {task : TaskId} :
    task ∈ ledger.live ↔ task < ledger.nextTaskId ∧
      (ledger.stage task).isCounted = true ∧ task ∉ ledger.retired := by
  simp [live]

/-- The accounts balance. -/
structure Sound (ledger : Ledger) : Prop where
  /-- Ids that were not handed out are unused. -/
  unborn : ∀ task, ledger.nextTaskId ≤ task → ledger.stage task = .unborn
  /-- A task is placed once from the moment it is scheduled. -/
  placed : ∀ task, ledger.placed task = if (ledger.stage task).isScheduled then 1 else 0
  /-- Being retired is one of the places. -/
  retired_le : ∀ task, ledger.retired.count task ≤ ledger.placed task
  /-- The counter is the number of live tasks. -/
  active : ledger.activeTasks = ledger.live.card

theorem lt_next_of_born {ledger : Ledger}
    (unborn : ∀ task, ledger.nextTaskId ≤ task → ledger.stage task = .unborn) {task : TaskId}
    (born : ledger.stage task ≠ .unborn) : task < ledger.nextTaskId :=
  Nat.lt_of_not_le fun le => born (unborn task le)

theorem Sound.lt_next {ledger : Ledger} (sound : ledger.Sound) {task : TaskId}
    (born : ledger.stage task ≠ .unborn) : task < ledger.nextTaskId :=
  lt_next_of_born sound.unborn born

/-- A task that is placed outside the retired tasks is live. -/
theorem Sound.mem_live_of_lt {ledger : Ledger} (sound : ledger.Sound) {task : TaskId}
    (outside : ledger.retired.count task < ledger.placed task) : task ∈ ledger.live := by
  have placed := sound.placed task
  split_ifs at placed with scheduled
  · rw [mem_live]
    refine ⟨sound.lt_next fun unborn => ?_, ?_, ?_⟩
    · simp [unborn, SpawnStage.isScheduled] at scheduled
    · cases stage : ledger.stage task <;>
        simp_all [SpawnStage.isScheduled, SpawnStage.isCounted]
    · rw [← List.count_eq_zero]
      omega
  · omega

/-- No task is retired twice. -/
theorem Sound.retired_nodup {ledger : Ledger} (sound : ledger.Sound) : ledger.retired.Nodup := by
  rw [List.nodup_iff_count_le_one]
  intro task
  have atMost := sound.retired_le task
  have placed := sound.placed task
  split_ifs at placed <;> omega

/-! ### Moving a task to its next stage -/

theorem unborn_update {ledger : Ledger}
    (unborn : ∀ task, ledger.nextTaskId ≤ task → ledger.stage task = .unborn) {task : TaskId}
    (born : ledger.stage task ≠ .unborn) (stage : SpawnStage) {other : TaskId}
    (after : ledger.nextTaskId ≤ other) :
    Function.update ledger.stage task stage other = .unborn := by
  have earlier := lt_next_of_born unborn born
  rw [Function.update_of_ne (earlier.trans_le after).ne']
  exact unborn other after

theorem unborn_allocate {ledger : Ledger}
    (unborn : ∀ task, ledger.nextTaskId ≤ task → ledger.stage task = .unborn) {task : TaskId}
    (after : ledger.nextTaskId + 1 ≤ task) :
    Function.update ledger.stage ledger.nextTaskId .allocated task = .unborn := by
  have later : ledger.nextTaskId < task := after
  rw [Function.update_of_ne later.ne']
  exact unborn task later.le

theorem Sound.placed_update {ledger : Ledger} (sound : ledger.Sound) {task : TaskId}
    {stage : SpawnStage} (same : stage.isScheduled = (ledger.stage task).isScheduled)
    (other : TaskId) : ledger.placed other =
      if (Function.update ledger.stage task stage other).isScheduled then 1 else 0 := by
  rw [sound.placed other]
  by_cases here : other = task
  · subst here
    rw [Function.update_self, same]
  · rw [Function.update_of_ne here]

/-- A stage that goes on without the counter leaves the live tasks alone. -/
theorem live_update_stage {ledger : Ledger} {task : TaskId} {stage : SpawnStage}
    (placed : TaskId → ℕ) (same : stage.isCounted = (ledger.stage task).isCounted) :
    live { ledger with placed, stage := Function.update ledger.stage task stage } =
      ledger.live := by
  ext other
  simp only [mem_live]
  by_cases here : other = task
  · subst here
    simp [same]
  · simp [here]

/-- Ids that were not handed out cannot be counted, so handing one out does not
change who is live. -/
theorem live_allocate {ledger : Ledger} :
    live { ledger with
      nextTaskId := ledger.nextTaskId + 1
      stage := Function.update ledger.stage ledger.nextTaskId .allocated } = ledger.live := by
  ext task
  simp only [mem_live]
  by_cases same : task = ledger.nextTaskId
  · subst same
    simp [SpawnStage.isCounted]
  · simp only [Function.update_of_ne same]
    constructor
    · rintro ⟨before, rest⟩
      exact ⟨Nat.lt_of_le_of_ne (Nat.le_of_lt_succ before) same, rest⟩
    · rintro ⟨before, rest⟩
      exact ⟨Nat.lt_succ_of_lt before, rest⟩

theorem live_count {ledger : Ledger} {task : TaskId} (born : task < ledger.nextTaskId)
    (notRetired : task ∉ ledger.retired) :
    live { ledger with
      activeTasks := ledger.activeTasks + 1
      stage := Function.update ledger.stage task .counted } = insert task ledger.live := by
  ext other
  simp only [mem_live, Finset.mem_insert]
  by_cases same : other = task
  · subst same
    simp [SpawnStage.isCounted, notRetired, born]
  · simp [same]

theorem live_retire {ledger : Ledger} (task : TaskId) :
    live { ledger with
      activeTasks := fetchSub ledger.activeTasks
      retired := ledger.retired ++ [task] } = ledger.live.erase task := by
  ext other
  simp only [mem_live, Finset.mem_erase, List.mem_append, List.mem_singleton]
  tauto

/-- With a live task the counter is positive and does not wrap. -/
theorem fetchSub_live {ledger : Ledger} {task : TaskId} (member : task ∈ ledger.live)
    (active : ledger.activeTasks = ledger.live.card) :
    fetchSub ledger.activeTasks = (ledger.live.erase task).card := by
  have positive := Finset.card_pos.mpr ⟨task, member⟩
  rw [Finset.card_erase_of_mem member, active, fetchSub, if_neg positive.ne']

theorem Sound.allocate {ledger : Ledger} (sound : ledger.Sound) :
    Sound { ledger with
      nextTaskId := ledger.nextTaskId + 1
      stage := Function.update ledger.stage ledger.nextTaskId .allocated } where
  unborn _ := unborn_allocate sound.unborn
  placed := sound.placed_update (by rw [sound.unborn _ le_rfl]; rfl)
  retired_le := sound.retired_le
  active := by
    rw [live_allocate]
    exact sound.active

theorem Sound.count {ledger : Ledger} (sound : ledger.Sound) {task : TaskId}
    (stage : ledger.stage task = .allocated) :
    Sound { ledger with
      activeTasks := ledger.activeTasks + 1
      stage := Function.update ledger.stage task .counted } where
  unborn _ := unborn_update sound.unborn (by simp [stage]) _
  placed := sound.placed_update (by rw [stage]; rfl)
  retired_le := sound.retired_le
  active := by
    have fresh : task ∉ ledger.live := by
      simp [mem_live, stage, SpawnStage.isCounted]
    have born : task < ledger.nextTaskId := sound.lt_next (by simp [stage])
    have notRetired : task ∉ ledger.retired := by
      have atMost := sound.retired_le task
      rw [sound.placed task, stage] at atMost
      exact List.count_eq_zero.mp (Nat.le_zero.mp atMost)
    rw [live_count born notRetired, Finset.card_insert_of_notMem fresh, sound.active]

theorem Sound.schedule {ledger : Ledger} (sound : ledger.Sound) {task : TaskId}
    (stage : ledger.stage task = .counted) :
    Sound { ledger with
      placed := Function.update ledger.placed task (ledger.placed task + 1)
      stage := Function.update ledger.stage task .scheduled } where
  unborn _ := unborn_update sound.unborn (by simp [stage]) _
  placed other := by
    have placed := sound.placed other
    by_cases same : other = task
    · subst same
      simp only [stage, SpawnStage.isScheduled] at placed
      simp [placed, SpawnStage.isScheduled]
    · simpa [same] using placed
  retired_le other := by
    have atMost := sound.retired_le other
    by_cases same : other = task
    · subst same
      simp only [Function.update_self]
      omega
    · simpa [same] using atMost
  active := by
    rw [live_update_stage _ (by rw [stage]; rfl)]
    exact sound.active

theorem Sound.register {ledger : Ledger} (sound : ledger.Sound) {task : TaskId}
    (stage : ledger.stage task = .scheduled) :
    Sound { ledger with stage := Function.update ledger.stage task .registered } where
  unborn _ := unborn_update sound.unborn (by simp [stage]) _
  placed := sound.placed_update (by rw [stage]; rfl)
  retired_le := sound.retired_le
  active := by
    rw [live_update_stage _ (by rw [stage]; rfl)]
    exact sound.active

/-- Retiring takes one live task out. -/
theorem Sound.retire {ledger : Ledger} (sound : ledger.Sound) {task : TaskId}
    (outside : ledger.retired.count task < ledger.placed task) :
    Sound { ledger with
      activeTasks := fetchSub ledger.activeTasks
      retired := ledger.retired ++ [task] } where
  unborn := sound.unborn
  placed := sound.placed
  retired_le other := by
    have atMost := sound.retired_le other
    simp only [List.count_append, List.count_singleton, beq_iff_eq]
    split_ifs with same
    · subst same
      omega
    · omega
  active := by
    have member := sound.mem_live_of_lt outside
    rw [live_retire]
    exact fetchSub_live member sound.active

theorem Sound.step {ledger target : Ledger} (sound : ledger.Sound)
    (taken : ledger.Step target) : target.Sound := by
  cases taken with
  | stutter => exact sound
  | allocate => exact sound.allocate
  | count task stage => exact sound.count stage
  | schedule task stage => exact sound.schedule stage
  | register task stage => exact sound.register stage
  | retire task outside => exact sound.retire outside

end Ledger

/-! ## Counting occurrences -/

/-- How often a worker has a task: in its local queue and in its hands. -/
def workerOccurrences (task : TaskId) (worker : Worker n) : ℕ :=
  worker.localQueue.count task + if worker.phase.executing = some task then 1 else 0

/-- How often a task occurs in all places together. -/
def occurrences (scheduler : TaskScheduler n) (task : TaskId) : ℕ :=
  scheduler.globalQueue.count task +
    (∑ worker, workerOccurrences task (scheduler.workers worker)) +
    scheduler.retired.count task

/-- Changing a worker exchanges its own occurrences. -/
theorem occurrences_setWorker (scheduler : TaskScheduler n) (worker : Fin n)
    (change : Worker n → Worker n) (task : TaskId) :
    (scheduler.setWorker worker change).occurrences task +
        workerOccurrences task (scheduler.workers worker) =
      scheduler.occurrences task +
        workerOccurrences task (change (scheduler.workers worker)) := by
  have sum := sum_update_add (workerOccurrences task) scheduler.workers worker
    (change (scheduler.workers worker))
  simp only [occurrences, setWorker]
  omega

/-- A worker whose occurrences do not change leaves all counts alone. -/
theorem occurrences_setWorker_of_eq {scheduler : TaskScheduler n} {worker : Fin n}
    {change : Worker n → Worker n} {task : TaskId}
    (same : workerOccurrences task (change (scheduler.workers worker)) =
      workerOccurrences task (scheduler.workers worker)) :
    (scheduler.setWorker worker change).occurrences task = scheduler.occurrences task := by
  have exchanged := occurrences_setWorker scheduler worker change task
  omega

theorem occurrences_setPhase_of_eq {scheduler : TaskScheduler n} {worker : Fin n}
    {phase : Phase} (same : phase.executing = (scheduler.workers worker).phase.executing)
    (task : TaskId) :
    (scheduler.setPhase worker phase).occurrences task = scheduler.occurrences task :=
  occurrences_setWorker_of_eq (by simp [workerOccurrences, same])

/-- Fibers do not occur in the counts. -/
@[simp]
theorem occurrences_setTask (scheduler : TaskScheduler n) (changed : TaskId)
    (change : Task n → Task n) (task : TaskId) :
    (scheduler.setTask changed change).occurrences task = scheduler.occurrences task := rfl

@[simp]
theorem occurrences_setPoint (scheduler : TaskScheduler n) (changed : TaskId)
    (point : FiberPoint) (task : TaskId) :
    (scheduler.setPoint changed point).occurrences task = scheduler.occurrences task := rfl

@[simp]
theorem occurrences_storeState (scheduler : TaskScheduler n) (changed : TaskId)
    (state : TaskState) (point : FiberPoint) (task : TaskId) :
    (scheduler.storeState changed state point).occurrences task =
      scheduler.occurrences task := rfl

@[simp]
theorem occurrences_allocate (scheduler : TaskScheduler n) (spawner : Option TaskId)
    (task : TaskId) :
    (scheduler.allocate spawner).occurrences task = scheduler.occurrences task := rfl

/-- A task that a worker executes has an occurrence outside the retired tasks. -/
theorem retired_lt_occurrences {scheduler : TaskScheduler n} {worker : Fin n} {task : TaskId}
    (executing : (scheduler.workers worker).phase.executing = some task) :
    scheduler.retired.count task < scheduler.occurrences task := by
  have one : 1 ≤ workerOccurrences task (scheduler.workers worker) := by
    simp [workerOccurrences, executing]
  have part := le_sum_family (fun w => workerOccurrences task (scheduler.workers w)) worker
  simp only [occurrences]
  omega

/-! ## Taking a task from a queue -/

theorem occurrences_takeLocal {scheduler : TaskScheduler n} {worker target : Fin n}
    {taken : TaskId} {rest : List TaskId}
    (idle : (scheduler.workers worker).phase.executing = none)
    (queue : (scheduler.workers target).localQueue = taken :: rest) (task : TaskId) :
    (scheduler.takeLocal worker target taken).occurrences task = scheduler.occurrences task := by
  -- The queue loses one occurrence and the hands of `worker` gain it, also when
  -- the worker takes from its own queue.
  have popped := occurrences_setWorker scheduler target
    (fun current => { current with localQueue := current.localQueue.tail }) task
  have handed := occurrences_setWorker
    (scheduler.setWorker target fun current =>
      { current with localQueue := current.localQueue.tail }) worker
    (fun current => { current with phase := .prepare taken }) task
  have stillIdle : ((scheduler.setWorker target fun current =>
      { current with localQueue := current.localQueue.tail }).workers worker).phase.executing =
        none := by
    by_cases same : worker = target
    · subst same
      simpa [setWorker] using idle
    · simpa [setWorker, same] using idle
  simp only [workerOccurrences, queue, List.tail_cons, List.count_cons, stillIdle,
    Phase.executing_prepare, Option.some.injEq, beq_iff_eq, reduceCtorEq,
    if_false] at popped handed
  show ((scheduler.setWorker target _).setWorker worker _).occurrences task = _
  omega

theorem occurrences_takeGlobal {scheduler : TaskScheduler n} {worker : Fin n}
    {taken : TaskId} {rest : List TaskId}
    (idle : (scheduler.workers worker).phase.executing = none)
    (queue : scheduler.globalQueue = taken :: rest) (task : TaskId) :
    (scheduler.takeGlobal worker taken).occurrences task = scheduler.occurrences task := by
  have handed := occurrences_setWorker
    { scheduler with globalQueue := scheduler.globalQueue.tail } worker
    (fun current => { current with phase := .prepare taken }) task
  simp only [workerOccurrences, idle, Phase.executing_prepare, Option.some.injEq, reduceCtorEq,
    if_false] at handed
  have popped : scheduler.occurrences task =
      { scheduler with globalQueue := scheduler.globalQueue.tail }.occurrences task +
        if taken = task then 1 else 0 := by
    simp only [occurrences, queue, List.tail_cons, List.count_cons, beq_iff_eq]
    omega
  show (setWorker { scheduler with globalQueue := scheduler.globalQueue.tail } worker
    _).occurrences task = _
  omega

theorem occurrences_retire {scheduler : TaskScheduler n} {worker : Fin n} {retiring : TaskId}
    {phase : Phase} (executing : (scheduler.workers worker).phase.executing = some retiring)
    (noHands : phase.executing = none) (task : TaskId) :
    ({ scheduler with
        activeTasks := fetchSub scheduler.activeTasks
        retired := scheduler.retired ++ [retiring] }.setPhase worker phase).occurrences task =
      scheduler.occurrences task := by
  have released := occurrences_setWorker { scheduler with
    activeTasks := fetchSub scheduler.activeTasks
    retired := scheduler.retired ++ [retiring] } worker
    (fun current => { current with phase }) task
  have recorded : { scheduler with
      activeTasks := fetchSub scheduler.activeTasks
      retired := scheduler.retired ++ [retiring] }.occurrences task =
        scheduler.occurrences task + if retiring = task then 1 else 0 := by
    simp only [occurrences, List.count_append, List.count_singleton, beq_iff_eq]
    omega
  simp only [workerOccurrences, executing, noHands, Option.some.injEq, reduceCtorEq,
    if_false] at released
  simp only [setPhase]
  omega

/-- A stray thread puts the task into the queue of the worker whose stack it is on. -/
theorem occurrences_strayReenqueue {scheduler : TaskScheduler n} {worker frame : Fin n}
    {found : TaskId} (executing : (scheduler.workers worker).phase.executing = some found)
    (task : TaskId) :
    ((scheduler.setWorker frame fun current =>
      { current with localQueue := current.localQueue ++ [found] }).setPhase worker
        .derailed).occurrences task = scheduler.occurrences task := by
  have pushed := occurrences_setWorker scheduler frame
    (fun current => { current with localQueue := current.localQueue ++ [found] }) task
  have released := occurrences_setWorker
    (scheduler.setWorker frame fun current =>
      { current with localQueue := current.localQueue ++ [found] }) worker
    (fun current => { current with phase := .derailed }) task
  have still : ((scheduler.setWorker frame fun current =>
      { current with localQueue := current.localQueue ++ [found] }).workers
        worker).phase.executing = some found := by
    by_cases same : worker = frame
    · subst same
      simpa [setWorker] using executing
    · simpa [setWorker, same] using executing
  have noHands : Phase.derailed.executing = none := rfl
  simp only [workerOccurrences, List.count_append, List.count_singleton, still, noHands,
    Option.some.injEq, beq_iff_eq, reduceCtorEq, if_false] at pushed released
  show ((scheduler.setWorker frame _).setWorker worker _).occurrences task = _
  omega

/-! ## The scheduler keeps a ledger -/

/-- The accounts of a scheduler state. -/
def ledger (scheduler : TaskScheduler n) : Ledger where
  nextTaskId := scheduler.nextTaskId
  activeTasks := scheduler.activeTasks
  stage task := (scheduler.tasks task).spawn
  placed := scheduler.occurrences
  retired := scheduler.retired

/-- Inside a fiber, the worker's own context and task are the recorded ones. -/
def ContextOk (scheduler : TaskScheduler n) : Prop :=
  ∀ worker task, (scheduler.workers worker).phase = .inFiber task →
    (scheduler.workers worker).schedCtx = some worker ∧
      (scheduler.workers worker).currentTask = some task

/-- A fiber that is over returns to the worker that is inside it. -/
def Returns (back : SwitchBack) (scheduler : TaskScheduler n) : Prop :=
  ∀ worker task, (scheduler.workers worker).phase = .inFiber task →
    back.worker worker (scheduler.tasks task) = worker

theorem returns_resumer (scheduler : TaskScheduler n) : scheduler.Returns .resumer :=
  fun _ _ _ => rfl

/-- The step does not end a fiber on one worker and go on in the context of
another. -/
def ReturnsHome (back : SwitchBack) (scheduler : TaskScheduler n) (event : SchedulerEvent n) :
    Prop :=
  ∀ worker action task, event = .fiber worker action →
    (scheduler.workers worker).phase = .inFiber task → (scheduler.tasks task).point = .over →
      back.worker worker (scheduler.tasks task) = worker

theorem Returns.home {back : SwitchBack} {scheduler : TaskScheduler n}
    (returns : scheduler.Returns back) (event : SchedulerEvent n) :
    scheduler.ReturnsHome back event :=
  fun worker _ task _ inside _ => returns worker task inside

/-- Changing a task changes one stage. -/
theorem stage_setTask (scheduler : TaskScheduler n) (changed : TaskId)
    (change : Task n → Task n) :
    (scheduler.setTask changed change).ledger.stage =
      Function.update scheduler.ledger.stage changed
        (change (scheduler.tasks changed)).spawn := by
  funext task
  by_cases here : task = changed
  · subst here
    simp [ledger, setTask]
  · simp [ledger, setTask, here]

theorem stage_setTask_of_eq {scheduler : TaskScheduler n} {changed : TaskId}
    {change : Task n → Task n} (same : ∀ task, (change task).spawn = task.spawn) :
    (scheduler.setTask changed change).ledger.stage = scheduler.ledger.stage := by
  rw [stage_setTask, same]
  exact Function.update_eq_self changed scheduler.ledger.stage

/-- A step that leaves ids, counter and retired tasks alone only has to keep the
stages and the counts. -/
theorem ledger_step_of_eq {scheduler target : TaskScheduler n}
    (next : target.nextTaskId = scheduler.nextTaskId)
    (active : target.activeTasks = scheduler.activeTasks)
    (retired : target.retired = scheduler.retired)
    (stages : target.ledger.stage = scheduler.ledger.stage)
    (placed : ∀ task, target.occurrences task = scheduler.occurrences task) :
    scheduler.ledger.Step target.ledger := by
  have same : target.ledger = scheduler.ledger :=
    Ledger.ext next active stages (funext placed) retired
  rw [same]
  exact .stutter

theorem ledger_setPoint (scheduler : TaskScheduler n) (task : TaskId) (point : FiberPoint) :
    (scheduler.setPoint task point).ledger = scheduler.ledger :=
  Ledger.ext rfl rfl (stage_setTask_of_eq fun _ => rfl) rfl rfl

theorem ledger_allocate (scheduler : TaskScheduler n) (spawner : Option TaskId) :
    scheduler.ledger.Step (scheduler.allocate spawner).ledger :=
  Ledger.Step.congr .allocate (Ledger.ext rfl rfl (stage_setTask _ _ _) rfl rfl)

theorem ledger_sharedMove {scheduler target : TaskScheduler n} {event : SchedulerEvent n}
    (move : SharedMove scheduler event target) : scheduler.ledger.Step target.ledger := by
  cases move with
  | allocate => exact scheduler.ledger_allocate none
  | count task stage =>
      exact Ledger.Step.congr (.count task stage)
        (Ledger.ext rfl rfl (stage_setTask _ _ _) rfl rfl)
  | schedule task stage =>
      refine Ledger.Step.congr (.schedule task stage)
        (Ledger.ext rfl rfl (stage_setTask _ _ _) (funext fun other => ?_) rfl)
      by_cases here : other = task
      · subst here
        simp only [ledger, occurrences, setTask, List.count_append, List.count_singleton_self,
          Function.update_self]
        omega
      · simp [ledger, occurrences, setTask, here, Ne.symm here]
  | register task stage outside =>
      exact Ledger.Step.congr (.register task stage)
        (Ledger.ext rfl rfl (stage_setTask _ _ _) rfl rfl)
  | registerChild task parent stage inside =>
      rw [ledger_setPoint]
      exact Ledger.Step.congr (.register task stage)
        (Ledger.ext rfl rfl (stage_setTask _ _ _) rfl rfl)
  | ignore => exact .stutter
  | expire task => exact ledger_step_of_eq rfl rfl rfl rfl fun _ => rfl
  | cancelFlag task =>
      exact ledger_step_of_eq rfl rfl rfl (stage_setTask_of_eq fun _ => rfl) fun _ => rfl
  | cancelState task =>
      exact ledger_step_of_eq rfl rfl rfl (stage_setTask_of_eq fun _ => rfl) fun _ => rfl
  | stop worker =>
      exact ledger_step_of_eq rfl rfl rfl rfl fun _ => occurrences_setWorker_of_eq rfl

/-- Handing a task over between the queues, the hands of a worker and the retired
tasks moves one occurrence. -/
theorem ledger_workerMove {scheduler target : TaskScheduler n} {worker : Fin n}
    {choice : StealChoice n} (move : WorkerMove scheduler worker choice target) :
    scheduler.ledger.Step target.ledger := by
  cases move with
  | search phase before after _ =>
      refine ledger_step_of_eq rfl rfl rfl rfl (occurrences_setPhase_of_eq ?_)
      rw [Phase.executing_of_holds before, Phase.executing_of_holds after]
  | takeLocal owner task rest before queue _ =>
      exact ledger_step_of_eq rfl rfl rfl rfl
        (occurrences_takeLocal (Phase.executing_of_holds before) queue)
  | takeGlobal task rest before queue =>
      exact ledger_step_of_eq rfl rfl rfl rfl
        (occurrences_takeGlobal (Phase.executing_of_holds before) queue)
  | enter task before =>
      refine ledger_step_of_eq rfl rfl rfl (stage_setTask_of_eq fun _ => rfl) fun other => ?_
      rw [enterFiber, occurrences_setTask]
      exact occurrences_setWorker_of_eq (by simp [workerOccurrences, before, Phase.executing])
  | keep task before state =>
      refine ledger_step_of_eq rfl rfl rfl rfl (occurrences_setPhase_of_eq ?_)
      rw [before]
      rfl
  | discard task before state =>
      refine ledger_step_of_eq rfl rfl rfl rfl (occurrences_setPhase_of_eq ?_)
      rw [before]
      rfl
  | reenqueue task before =>
      refine ledger_step_of_eq rfl rfl rfl rfl fun other => occurrences_setWorker_of_eq ?_
      simp only [workerOccurrences, before, Phase.executing, List.count_append,
        List.count_singleton, beq_iff_eq, Option.some.injEq, reduceCtorEq, if_false]
      omega
  | retire task before =>
      have executing : (scheduler.workers worker).phase.executing = some task := by
        rw [before]
        rfl
      exact Ledger.Step.congr (.retire task (retired_lt_occurrences executing))
        (Ledger.ext rfl rfl rfl (funext (occurrences_retire executing rfl)) rfl)
  | clear task before =>
      refine ledger_step_of_eq rfl rfl rfl rfl fun other => occurrences_setWorker_of_eq ?_
      simp [workerOccurrences, before, Phase.executing]
  | strayReenqueue frame task before =>
      have executing : (scheduler.workers worker).phase.executing = some task := by
        rw [before]
        rfl
      exact ledger_step_of_eq rfl rfl rfl rfl (occurrences_strayReenqueue executing)
  | strayRetire task before =>
      have executing : (scheduler.workers worker).phase.executing = some task := by
        rw [before]
        rfl
      exact Ledger.Step.congr (.retire task (retired_lt_occurrences executing))
        (Ledger.ext rfl rfl rfl (funext (occurrences_retire executing rfl)) rfl)

theorem ledger_leaveFiber {scheduler : TaskScheduler n} {worker : Fin n} {task : TaskId}
    (before : (scheduler.workers worker).phase = .inFiber task) :
    scheduler.ledger.Step (scheduler.leaveFiber worker worker task).ledger := by
  refine ledger_step_of_eq rfl rfl rfl rfl (occurrences_setPhase_of_eq ?_)
  rw [if_pos rfl, before]
  rfl

theorem ledger_fiberMove {back : SwitchBack} {scheduler target : TaskScheduler n}
    {worker : Fin n} {task : TaskId} (context : scheduler.ContextOk)
    (before : (scheduler.workers worker).phase = .inFiber task)
    (home : (scheduler.tasks task).point = .over →
      back.worker worker (scheduler.tasks task) = worker)
    (move : FiberMove back scheduler worker task target) :
    scheduler.ledger.Step target.ledger := by
  cases move with
  | stay => exact .stutter
  | goto point move =>
      rw [ledger_setPoint]
      exact .stutter
  | store state point move =>
      exact ledger_step_of_eq rfl rfl rfl (stage_setTask_of_eq fun _ => rfl) fun _ => rfl
  | spawn point =>
      rw [ledger_setPoint]
      exact scheduler.ledger_allocate (some task)
  | switchOut owner point recorded =>
      -- `yield` switches to the context its own thread recorded.
      rw [(context worker task before).1] at recorded
      obtain rfl := Option.some.inj recorded
      rw [← ledger_setPoint scheduler task .suspended]
      have still : ((scheduler.setPoint task .suspended).workers worker).phase =
          .inFiber task := before
      exact ledger_leaveFiber still
  | noContext =>
      rw [ledger_setPoint]
      exact .stutter
  | finish point =>
      rw [home point]
      exact ledger_leaveFiber before

/-- Every step of the scheduler is a step of the ledger. -/
theorem ledger_step {back : SwitchBack} {scheduler target : TaskScheduler n}
    {event : SchedulerEvent n} (context : scheduler.ContextOk)
    (home : scheduler.ReturnsHome back event) (taken : scheduler.step back event = some target) :
    scheduler.ledger.Step target.ledger := by
  rcases step_move taken with
    move | ⟨worker, choice, rfl, move⟩ | ⟨worker, action, task, rfl, inside, move⟩
  · exact ledger_sharedMove move
  · exact ledger_workerMove move
  · exact ledger_fiberMove context inside (home worker action task rfl inside) move

/-! ## The contexts are the recorded ones -/

/-- Changing one worker only has to be checked at that worker. -/
theorem ContextOk.setWorker {scheduler : TaskScheduler n} (context : scheduler.ContextOk)
    {worker : Fin n} {change : Worker n → Worker n}
    (here : ∀ task, (change (scheduler.workers worker)).phase = .inFiber task →
      (change (scheduler.workers worker)).schedCtx = some worker ∧
        (change (scheduler.workers worker)).currentTask = some task) :
    (scheduler.setWorker worker change).ContextOk := by
  intro other task inside
  by_cases same : other = worker
  · subst same
    simp only [TaskScheduler.setWorker, Function.update_self] at inside ⊢
    exact here task inside
  · simp only [TaskScheduler.setWorker, Function.update_of_ne same] at inside ⊢
    exact context other task inside

/-- A worker that moves outside the fibers needs no context. -/
theorem ContextOk.setPhase {scheduler : TaskScheduler n} (context : scheduler.ContextOk)
    {worker : Fin n} {phase : Phase} (outside : ∀ task, phase ≠ .inFiber task) :
    (scheduler.setPhase worker phase).ContextOk :=
  context.setWorker fun task inside => absurd inside (outside task)

theorem ContextOk.workerMove {scheduler target : TaskScheduler n} {worker : Fin n}
    {choice : StealChoice n} (context : scheduler.ContextOk)
    (move : WorkerMove scheduler worker choice target) :
    target.ContextOk := by
  cases move with
  | search phase before after _ =>
      refine context.setPhase fun task inside => ?_
      rw [inside] at after
      cases after
  | takeLocal owner task rest before queue _ =>
      exact (context.setWorker fun task inside => context owner task inside).setPhase (by simp)
  | takeGlobal task rest before queue =>
      have popped : ContextOk { scheduler with globalQueue := scheduler.globalQueue.tail } :=
        context
      exact popped.setPhase (by simp)
  | enter task before =>
      have entered : (scheduler.setWorker worker fun current =>
          { current with
            phase := .inFiber task, currentTask := some task,
            schedCtx := some worker }).ContextOk :=
        context.setWorker fun other inside => ⟨rfl, congrArg some (Phase.inFiber.inj inside)⟩
      exact entered
  | keep task before state => exact context.setPhase (by simp)
  | discard task before state => exact context.setPhase (by simp)
  | reenqueue task before => exact context.setWorker (by simp)
  | retire task before =>
      have recorded : ContextOk { scheduler with
          activeTasks := fetchSub scheduler.activeTasks
          retired := scheduler.retired ++ [task] } := context
      exact recorded.setPhase (by simp)
  | clear task before => exact context.setWorker (by simp)
  | strayReenqueue frame task before =>
      exact (context.setWorker fun task inside => context frame task inside).setPhase (by simp)
  | strayRetire task before =>
      have recorded : ContextOk { scheduler with
          activeTasks := fetchSub scheduler.activeTasks
          retired := scheduler.retired ++ [task] } := context
      exact recorded.setPhase (by simp)

theorem ContextOk.leaveFiber {scheduler : TaskScheduler n} (context : scheduler.ContextOk)
    (worker target : Fin n) (task : TaskId) :
    (scheduler.leaveFiber worker target task).ContextOk := by
  refine context.setPhase fun other => ?_
  split_ifs
  · simp
  · exact scheduler.strayPhase_ne_inFiber target other

theorem ContextOk.fiberMove {back : SwitchBack} {scheduler target : TaskScheduler n}
    {worker : Fin n} {task : TaskId} (context : scheduler.ContextOk)
    (move : FiberMove back scheduler worker task target) : target.ContextOk := by
  cases move with
  | stay => exact context
  | goto point move => exact context
  | store state point move => exact context
  | spawn point => exact context
  | switchOut owner point recorded =>
      have suspended : (scheduler.setPoint task .suspended).ContextOk := context
      exact suspended.leaveFiber worker owner task
  | noContext => exact context
  | finish => exact context.leaveFiber worker _ task

theorem ContextOk.sharedMove {scheduler target : TaskScheduler n} {event : SchedulerEvent n}
    (context : scheduler.ContextOk) (move : SharedMove scheduler event target) :
    target.ContextOk := by
  cases move with
  | stop worker => exact context.setWorker fun task inside => context worker task inside
  | _ => exact context

theorem ContextOk.step {back : SwitchBack} {scheduler target : TaskScheduler n}
    {event : SchedulerEvent n} (context : scheduler.ContextOk)
    (taken : scheduler.step back event = some target) : target.ContextOk := by
  rcases step_move taken with
    move | ⟨worker, choice, rfl, move⟩ | ⟨worker, action, task, rfl, inside, move⟩
  · exact context.sharedMove move
  · exact context.workerMove move
  · exact context.fiberMove move

theorem contextOk_start : (start n).ContextOk := by
  intro worker task inside
  cases inside

/-! ## The places of a task -/

theorem sound_start : (start n).ledger.Sound where
  unborn _ _ := rfl
  placed task := by
    simp [ledger, occurrences, workerOccurrences, start, freshWorker, unbornTask,
      Phase.executing, SpawnStage.isScheduled]
  retired_le task := by simp [ledger, start]
  active := by simp [ledger, Ledger.live, start, unbornTask, SpawnStage.isCounted]

/-- What a worker executes has been scheduled and is not retired. -/
theorem executing_live {scheduler : TaskScheduler n} (sound : scheduler.ledger.Sound)
    {worker : Fin n} {task : TaskId}
    (executing : (scheduler.workers worker).phase.executing = some task) :
    task ∈ scheduler.ledger.live :=
  sound.mem_live_of_lt (retired_lt_occurrences executing)

theorem executing_lt_next {scheduler : TaskScheduler n} (sound : scheduler.ledger.Sound)
    {worker : Fin n} {task : TaskId}
    (executing : (scheduler.workers worker).phase.executing = some task) :
    task < scheduler.nextTaskId :=
  (Ledger.mem_live.mp (executing_live sound executing)).1

/-- The places a scheduled task can be in. -/
inductive Place (n : ℕ)
  | globalQueue
  | localQueue (worker : Fin n)
  | executing (worker : Fin n)
  | retired
  deriving DecidableEq, Repr

/-- The places are two single ones and two for each worker. -/
def Place.equivSum : Place n ≃ Unit ⊕ (Fin n ⊕ Fin n) ⊕ Unit where
  toFun
    | .globalQueue => .inl ()
    | .localQueue worker => .inr (.inl (.inl worker))
    | .executing worker => .inr (.inl (.inr worker))
    | .retired => .inr (.inr ())
  invFun
    | .inl () => .globalQueue
    | .inr (.inl (.inl worker)) => .localQueue worker
    | .inr (.inl (.inr worker)) => .executing worker
    | .inr (.inr ()) => .retired
  left_inv place := by cases place <;> rfl
  right_inv place := by rcases place with _ | (_ | _) | _ <;> rfl

instance : Fintype (Place n) := Fintype.ofEquiv _ Place.equivSum.symm

/-- How often a task is at a place. -/
def timesAt (scheduler : TaskScheduler n) (task : TaskId) : Place n → ℕ
  | .globalQueue => scheduler.globalQueue.count task
  | .localQueue worker => (scheduler.workers worker).localQueue.count task
  | .executing worker => if (scheduler.workers worker).phase.executing = some task then 1 else 0
  | .retired => scheduler.retired.count task

theorem sum_timesAt (scheduler : TaskScheduler n) (task : TaskId) :
    ∑ place, scheduler.timesAt task place = scheduler.occurrences task := by
  rw [← Equiv.sum_comp Place.equivSum.symm]
  simp only [Fintype.sum_sum_type, Finset.univ_unique, Finset.sum_singleton, Place.equivSum,
    Equiv.coe_fn_symm_mk, timesAt, occurrences, workerOccurrences, Finset.sum_add_distrib]
  omega

/-- A task that has been scheduled is once at one place and nowhere else. -/
theorem place_of_scheduled {scheduler : TaskScheduler n} (sound : scheduler.ledger.Sound)
    {task : TaskId} (scheduled : (scheduler.tasks task).spawn.isScheduled = true) :
    ∃ place, scheduler.timesAt task place = 1 ∧
      ∀ other, other ≠ place → scheduler.timesAt task other = 0 := by
  have one : scheduler.occurrences task = 1 :=
    (sound.placed task).trans (if_pos scheduled)
  rw [← sum_timesAt] at one
  exact exists_of_sum_eq_one one

end Kode.Concurrency.TaskScheduler
