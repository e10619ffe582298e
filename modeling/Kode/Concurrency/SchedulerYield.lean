/-
# Whether a yield gives way

A worker looks into its local queue before it looks anywhere else, and the only task
that ever comes into that queue is one that has just yielded on this worker. So the
queue is empty while the worker executes a task; a task that yields is alone in it, and
the worker takes the same task up again at once. The tasks in the global queue wait
until another worker comes, however often the task yields.

A yield gives way only where the worker will not go on with the task for another
reason: it has been asked to stop, or it finds the task cancelled and retires it.
-/

import Kode.Concurrency.SchedulerState

namespace Kode.Concurrency

open Kode.Library

/-- The worker is inside `steal_task_fast`. -/
def Phase.steals : Phase → Bool
  | .stealGlobal | .stealRandom _ | .stealScan _ => true
  | _ => false

namespace TaskScheduler

variable {n : ℕ} {scheduler target : TaskScheduler n} {worker : Fin n} {task other : TaskId}

/-! ## The local queue of a busy worker is empty -/

/-- A worker has at most one task in its local queue, and none while it executes or
looks for one elsewhere. -/
structure KeepsOne (scheduler : TaskScheduler n) (worker : Fin n) : Prop where
  atMostOne : (scheduler.workers worker).localQueue.length ≤ 1
  busy : (scheduler.workers worker).phase.executing ≠ none ∨
    (scheduler.workers worker).phase.steals = true → (scheduler.workers worker).localQueue = []

/-- An empty queue is as it should be. -/
theorem keepsOne_of_nil (empty : (scheduler.workers worker).localQueue = []) :
    scheduler.KeepsOne worker :=
  ⟨by simp [empty], fun _ => empty⟩

/-- The worker changes its phase and does not become busy. -/
theorem KeepsOne.setPhase (keeps : scheduler.KeepsOne worker) {phase : Phase}
    (idle : phase.executing = none) (home : phase.steals = false) :
    (scheduler.setPhase worker phase).KeepsOne worker where
  atMostOne := by simpa [TaskScheduler.setPhase, setWorker] using keeps.atMostOne
  busy := by simp [TaskScheduler.setPhase, setWorker, idle, home]

/-- A worker with an empty queue fills it only by putting back the task it executes. -/
theorem WorkerMove.localQueue_of_nil {choice : StealChoice n}
    (move : WorkerMove scheduler worker choice target) (onTrack : scheduler.OnTrack)
    (nothing : (scheduler.workers worker).localQueue = []) :
    (target.workers worker).localQueue = [] ∨
      ∃ yielded, (target.workers worker).localQueue = [yielded] ∧
        (target.workers worker).phase = .clear yielded := by
  have track := onTrack worker
  cases move with
  | takeLocal owner taken rest before queue source =>
      have elsewhere : worker ≠ owner := by
        rintro rfl
        simp [nothing] at queue
      left
      simpa [TaskScheduler.takeLocal, TaskScheduler.setPhase, setWorker, elsewhere] using nothing
  | reenqueue yielded before => exact Or.inr ⟨yielded, by simp [setWorker, nothing]⟩
  | enter entered before => exact Or.inl (by simpa [enterFiber, setTask, setWorker] using nothing)
  | strayReenqueue frame found before | strayRetire found before =>
      rw [before] at track
      cases track
  | search | takeGlobal | keep | discard | retire | clear =>
      left
      simpa [TaskScheduler.takeGlobal, TaskScheduler.setPhase, setWorker] using nothing

/-- The worker's own steps outside the fibers. Only at the wait on its local queue can
the queue hold a task and the worker find it. -/
theorem KeepsOne.workerStep (keeps : scheduler.KeepsOne worker) (onTrack : scheduler.OnTrack)
    {choice : StealChoice n} (taken : scheduler.workerStep worker choice = some target) :
    target.KeepsOne worker := by
  have atMostOne := keeps.atMostOne
  have busy : (scheduler.workers worker).localQueue = [] → target.KeepsOne worker := by
    intro nothing
    rcases (workerStep_move taken).localQueue_of_nil onTrack nothing with empty |
      ⟨yielded, single, phase⟩
    · exact keepsOne_of_nil empty
    · exact ⟨by simp [single], by simp [phase, Phase.executing, Phase.steals]⟩
  cases queue : (scheduler.workers worker).localQueue with
  | nil => exact busy queue
  | cons first rest =>
      obtain rfl : rest = [] := by simpa [queue] using atMostOne
      have idle : ¬ ((scheduler.workers worker).phase.executing ≠ none ∨
          (scheduler.workers worker).phase.steals = true) := by
        intro active
        have nothing := keeps.busy active
        rw [queue] at nothing
        cases nothing
      unfold TaskScheduler.workerStep at taken
      cases phase : (scheduler.workers worker).phase with
      | top =>
          rw [phase] at taken
          obtain rfl := Option.some.inj taken
          refine keeps.setPhase ?_ ?_ <;> split_ifs <;> rfl
      | popLocal =>
          simp only [phase, queue] at taken
          obtain rfl := Option.some.inj taken
          refine keepsOne_of_nil ?_
          simp [takeLocal, TaskScheduler.setPhase, setWorker, queue]
      | clear last =>
          rw [phase] at taken
          obtain rfl := Option.some.inj taken
          refine ⟨?_, ?_⟩ <;> simp [setWorker, queue, Phase.executing, Phase.steals]
      | stopped | derailed =>
          rw [phase] at taken
          cases taken
      | _ => simp [phase, Phase.executing, Phase.steals] at idle

theorem KeepsOne.step {back : SwitchBack} {event : SchedulerEvent n}
    (keeps : scheduler.KeepsOne worker) (onTrack : scheduler.OnTrack)
    (taken : scheduler.step back event = some target) : target.KeepsOne worker := by
  cases step_worker onTrack taken worker with
  | same queue phase _ =>
      exact ⟨by rw [queue]; exact keeps.atMostOne, by rw [queue, phase]; exact keeps.busy⟩
  | stolen thief stolen queue phase _ hands =>
      have atMostOne := keeps.atMostOne
      rw [queue] at atMostOne
      exact keepsOne_of_nil (by simpa using atMostOne)
  | own step =>
      cases event with
      | worker acting choice =>
          obtain rfl : acting = worker := step
          exact keeps.workerStep onTrack taken
      | fiber acting action =>
          obtain rfl : acting = worker := step
          simp only [TaskScheduler.step] at taken
          split at taken
          · rename_i running inside
            have nothing := keeps.busy (Or.inl (by simp [inside, Phase.executing]))
            refine keepsOne_of_nil ?_
            cases fiberStep_move taken with
            | switchOut | finish =>
                simpa [leaveFiber, TaskScheduler.setPhase, setWorker, setPoint, setTask] using
                  nothing
            | _ => exact nothing
          · cases taken
      | _ => cases step

/-- A worker that executes a task has nothing in its local queue. -/
theorem localQueue_of_executing {back : SwitchBack}
    (reached : ReachableUnder (step back) (ReturnsHome back) (start n) scheduler)
    (hands : (scheduler.workers worker).phase.executing = some task) :
    (scheduler.workers worker).localQueue = [] := by
  have keeps : scheduler.KeepsOne worker := by
    refine reached.invariant_given (motive := fun state => state.KeepsOne worker)
      (fun _ => consistent_of_home) (keepsOne_of_nil rfl) ?_
    intro state event target consistent keeps _ taken
    exact keeps.step consistent.onTrack taken
  exact keeps.busy (Or.inl (by simp [hands]))

/-! ## The worker takes the same task up again -/

/-- The task is in some queue. -/
def Waits (scheduler : TaskScheduler n) (task : TaskId) : Prop :=
  task ∈ scheduler.globalQueue ∨ ∃ worker, task ∈ (scheduler.workers worker).localQueue

/-- A step of a run in which fibers return and the task has not been taken yet. -/
def WhileWaiting (back : SwitchBack) (other : TaskId) (scheduler : TaskScheduler n)
    (event : SchedulerEvent n) : Prop :=
  scheduler.ReturnsHome back event ∧ scheduler.Waits other

/-- The worker has the task in its hands and is on its way into the fiber, or in it. -/
def Executes (scheduler : TaskScheduler n) (worker : Fin n) (task : TaskId) : Prop :=
  (scheduler.workers worker).phase = .prepare task ∨
    (scheduler.workers worker).phase = .inFiber task

/-- A step of the worker outside the fibers, while the task waits in the global queue. -/
theorem whileWaiting_worker {back : SwitchBack}
    (taken : scheduler.workerStep worker ⟨true, worker⟩ = some target)
    (waiting : other ∈ scheduler.globalQueue) :
    ReachableUnder (step back) (WhileWaiting back other) scheduler target := by
  have allowed : scheduler.WhileWaiting back other (.worker worker ⟨true, worker⟩) :=
    ⟨by rintro _ _ _ ⟨⟩, Or.inl waiting⟩
  exact .next .start allowed taken

/-- The worker puts the task that yielded into its empty queue and takes it out again,
while the other task is still in the global queue. -/
theorem taken_again (back : SwitchBack)
    (yielded : (scheduler.workers worker).phase = .switchedBack task)
    (alone : (scheduler.workers worker).localQueue = [])
    (waiting : other ∈ scheduler.globalQueue)
    (runs : (scheduler.workers worker).shouldStop = false)
    (state : (scheduler.tasks task).state = .runnable) :
    ∃ later, ReachableUnder (step back) (WhileWaiting back other) scheduler later ∧
      later.Executes worker task := by
  let keeping := scheduler.setPhase worker (.reenqueue task)
  let queued := keeping.setWorker worker fun current =>
    { current with localQueue := current.localQueue ++ [task], phase := .clear task }
  let cleared := queued.setWorker worker fun current =>
    { current with currentTask := none, phase := .top }
  let popping := cleared.setPhase worker .popLocal
  have reads : scheduler.workerStep worker ⟨true, worker⟩ = some keeping := by
    simp [workerStep, yielded, state, keeping]
  have pushes : keeping.workerStep worker ⟨true, worker⟩ = some queued := by
    simp [workerStep, keeping, queued, TaskScheduler.setPhase, setWorker]
  have clears : queued.workerStep worker ⟨true, worker⟩ = some cleared := by
    simp [workerStep, queued, cleared, setWorker]
  have looks : cleared.workerStep worker ⟨true, worker⟩ = some popping := by
    simp [workerStep, cleared, queued, keeping, popping, TaskScheduler.setPhase, setWorker, runs]
  have takes : popping.workerStep worker ⟨true, worker⟩ =
      some (popping.takeLocal worker worker task) := by
    simp [workerStep, popping, cleared, queued, keeping, TaskScheduler.setPhase, setWorker, alone]
  refine ⟨popping.takeLocal worker worker task, ?_, Or.inl ?_⟩
  · exact (whileWaiting_worker reads waiting).trans ((whileWaiting_worker pushes waiting).trans
      ((whileWaiting_worker clears waiting).trans ((whileWaiting_worker looks waiting).trans
        (whileWaiting_worker takes waiting))))
  · simp [takeLocal, TaskScheduler.setPhase, setWorker]

/-! ## Where the worker does not go on with the task -/

/-- The worker has been asked to stop and is on its way to the end of its loop. -/
structure Stopping (scheduler : TaskScheduler n) (worker : Fin n) (task : TaskId) : Prop where
  stops : (scheduler.workers worker).shouldStop = true
  phase : (scheduler.workers worker).phase ∈
    [.switchedBack task, .reenqueue task, .retire task, .clear task, .top, .stopped]

theorem Stopping.step {back : SwitchBack} {event : SchedulerEvent n}
    (stopping : scheduler.Stopping worker task) (onTrack : scheduler.OnTrack)
    (taken : scheduler.step back event = some target) : target.Stopping worker task := by
  have here := stopping.phase
  have stops := stopping.stops
  cases step_worker onTrack taken worker with
  | same queue phase still => exact ⟨still stops, by rw [phase]; exact here⟩
  | stolen thief stolen queue phase still hands =>
      exact ⟨still stops, by rw [phase]; exact here⟩
  | own step =>
      cases event with
      | worker acting choice =>
          obtain rfl : acting = worker := step
          have taken : scheduler.workerStep acting choice = some target := taken
          simp only [List.mem_cons, List.not_mem_nil, or_false] at here
          rcases here with phase | phase | phase | phase | phase | phase <;>
            simp only [workerStep, phase, stops, if_true, reduceCtorEq,
              Option.some.injEq] at taken <;> subst taken
          · by_cases state : (scheduler.tasks task).state = .runnable <;>
              exact ⟨by simp [TaskScheduler.setPhase, setWorker, stops],
                by simp [TaskScheduler.setPhase, setWorker, state]⟩
          all_goals
            exact ⟨by simp [TaskScheduler.setPhase, setWorker, stops],
              by simp [TaskScheduler.setPhase, setWorker]⟩
      | fiber acting action =>
          obtain rfl : acting = worker := step
          simp only [TaskScheduler.step] at taken
          split at taken
          · rename_i running inside
            simp [inside] at here
          · cases taken
      | _ => cases step

/-- The worker found the task in another state than `RUNNABLE`, or will find it so. -/
def Retiring (scheduler : TaskScheduler n) (worker : Fin n) (task : TaskId) : Prop :=
  (scheduler.workers worker).phase = .switchedBack task ∧
      (scheduler.tasks task).state ≠ .runnable ∨
    (scheduler.workers worker).phase = .retire task ∨ task ∈ scheduler.retired

/-- Retired tasks stay retired. -/
theorem retired_step {back : SwitchBack} {event : SchedulerEvent n}
    (taken : scheduler.step back event = some target) (dead : task ∈ scheduler.retired) :
    task ∈ target.retired := by
  rcases step_move taken with
    move | ⟨acting, choice, rfl, move⟩ | ⟨acting, action, running, rfl, inside, move⟩
  · cases move <;> exact dead
  · cases move with
    | retire | strayRetire => exact List.mem_append_left _ dead
    | _ => exact dead
  · cases move <;> exact dead

/-- While the worker is about to read the state, nobody makes it `RUNNABLE` again. -/
theorem state_ne_runnable_step {back : SwitchBack} {event : SchedulerEvent n}
    (consistent : scheduler.Consistent) (governs : stateRule.Governs scheduler)
    (taken : scheduler.step back event = some target)
    (phase : (scheduler.workers worker).phase = .switchedBack task)
    (state : (scheduler.tasks task).state ≠ .runnable) :
    (target.tasks task).state ≠ .runnable := by
  have hands : (scheduler.workers worker).phase.executing = some task := by
    rw [phase]
    rfl
  have clause := governs.held_of_phase phase rfl
  have outside : (scheduler.tasks task).point = .suspended ∨
      (scheduler.tasks task).point = .over := clause.imp (·.1) (·.1)
  have move := step_task consistent taken task
  generalize target.tasks task = after at move ⊢
  cases move with
  | allocate spawner new => exact absurd new (executing_lt_next consistent.sound hands).ne
  | cancelState store cancelling => simp
  | store state point move =>
      rcases outside with there | there <;> rw [there] at move <;> cases move
  | _ => exact state

theorem Retiring.step {back : SwitchBack} {event : SchedulerEvent n}
    (retiring : scheduler.Retiring worker task) (consistent : scheduler.Consistent)
    (governs : stateRule.Governs scheduler)
    (taken : scheduler.step back event = some target) : target.Retiring worker task := by
  have notInside : (∃ running, (scheduler.workers worker).phase = .inFiber running) →
      task ∈ scheduler.retired := by
    rintro ⟨running, inside⟩
    rcases retiring with ⟨phase, -⟩ | phase | dead
    · simp [phase] at inside
    · simp [phase] at inside
    · exact dead
  have unmoved : (target.workers worker).phase = (scheduler.workers worker).phase →
      target.Retiring worker task := by
    intro same
    rcases retiring with ⟨phase, state⟩ | phase | dead
    · exact Or.inl ⟨same.trans phase,
        state_ne_runnable_step consistent governs taken phase state⟩
    · exact Or.inr (Or.inl (same.trans phase))
    · exact Or.inr (Or.inr (retired_step taken dead))
  cases step_worker consistent.onTrack taken worker with
  | same queue phase _ => exact unmoved phase
  | stolen thief stolen queue phase _ hands => exact unmoved phase
  | own step =>
      cases event with
      | worker acting choice =>
          obtain rfl : acting = worker := step
          have stepped : scheduler.workerStep acting choice = some target := taken
          rcases retiring with ⟨phase, state⟩ | phase | dead
          · simp only [workerStep, phase, state, if_false, Option.some.injEq] at stepped
            subst stepped
            right; left
            simp [TaskScheduler.setPhase, setWorker]
          · simp only [workerStep, phase, Option.some.injEq] at stepped
            subst stepped
            right; right
            simp [TaskScheduler.setPhase, setWorker]
          · exact Or.inr (Or.inr (retired_step taken dead))
      | fiber acting action =>
          obtain rfl : acting = worker := step
          have stepped := taken
          simp only [TaskScheduler.step] at stepped
          split at stepped
          · rename_i running inside
            exact Or.inr (Or.inr (retired_step taken (notInside ⟨running, inside⟩)))
          · cases stepped
      | _ => cases step

/-- What is being retired is not executed. -/
theorem Retiring.not_executes (retiring : scheduler.Retiring worker task)
    (sound : scheduler.ledger.Sound) : ¬ scheduler.Executes worker task := by
  intro executes
  have hands : (scheduler.workers worker).phase.executing = some task := by
    rcases executes with phase | phase <;> rw [phase] <;> rfl
  rcases retiring with ⟨phase, -⟩ | phase | dead
  · simp [Executes, phase] at executes
  · simp [Executes, phase] at executes
  · exact (timesAt_retired_pos.mpr dead).ne'
      (alone_of_timesAt sound (timesAt_executing_pos.mpr hands) (by simp))

theorem Stopping.not_executes (stopping : scheduler.Stopping worker task) :
    ¬ scheduler.Executes worker task := by
  have here := stopping.phase
  rintro (phase | phase) <;> simp [phase] at here

/-! ## Whether a yield gives way -/

/-- Control has come back to a worker from a task, in a run whose fibers return, and
another task waits in the worker's local queue or in the global queue. The worker
never executes the task again before the other has been taken exactly if it has been
asked to stop or finds the task in another state than `RUNNABLE`. A task that yielded
is `RUNNABLE` unless it was cancelled meanwhile. -/
theorem yield_gives_way_iff {back : SwitchBack}
    (reached : ReachableUnder (step back) (ReturnsHome back) (start n) scheduler)
    (yielded : (scheduler.workers worker).phase = .switchedBack task)
    (waiting : other ∈ (scheduler.workers worker).localQueue ∨ other ∈ scheduler.globalQueue) :
    (∀ later, ReachableUnder (step back) (WhileWaiting back other) scheduler later →
      ¬ later.Executes worker task) ↔
    (scheduler.workers worker).shouldStop = true ∨
      (scheduler.tasks task).state ≠ .runnable := by
  have hands : (scheduler.workers worker).phase.executing = some task := by
    rw [yielded]
    rfl
  have alone := localQueue_of_executing reached hands
  have global : other ∈ scheduler.globalQueue := by
    rw [alone] at waiting
    exact waiting.resolve_left List.not_mem_nil
  have known : ∀ middle, ReachableUnder (step back) (WhileWaiting back other) scheduler middle →
      middle.Consistent ∧ stateRule.Governs middle := by
    intro middle between
    have home := reached.trans (between.weaken fun _ _ allowed => allowed.1)
    exact ⟨consistent_of_home home, stateRule_of_home home⟩
  constructor
  · intro never
    by_contra goesOn
    rw [not_or, Bool.not_eq_true, not_not] at goesOn
    obtain ⟨later, after, executes⟩ := taken_again back yielded alone global goesOn.1 goesOn.2
    exact never later after executes
  · rintro (stops | state) later after
    · have stopping : later.Stopping worker task := by
        refine after.invariant_given (motive := fun middle => middle.Stopping worker task) known
          ⟨stops, by simp [yielded]⟩ ?_
        rintro middle event target ⟨consistent, -⟩ stopping - taken
        exact stopping.step consistent.onTrack taken
      exact stopping.not_executes
    · have retiring : later.Retiring worker task := by
        refine after.invariant_given (motive := fun middle => middle.Retiring worker task) known
          (Or.inl ⟨yielded, state⟩) ?_
        rintro middle event target ⟨consistent, governs⟩ retiring - taken
        exact retiring.step consistent governs taken
      exact retiring.not_executes (known later after).1.sound

/-- Task 1 spawns task 2 and yields; control is back in the worker's loop. -/
def yieldBesideRun (worker : Fin n) : List (SchedulerEvent n) :=
  List.flatten [
    [.spawn, .spawnCount 1, .spawnSchedule 1, .spawnRegister 1],
    List.replicate 4 (.worker worker ⟨true, worker⟩),
    [.fiber worker .advance, .fiber worker .advance, .fiber worker .spawn,
      .spawnCount 2, .spawnSchedule 2, .spawnRegister 2,
      .fiber worker .yield, .fiber worker .advance, .fiber worker .advance,
      .fiber worker .advance]]

/-- With a request to stop, the worker leaves task 1 in its queue. -/
theorem yield_gives_way_iff_stop :
    ∃ scheduler, ReachableUnder (step .ucLink) (ReturnsHome .ucLink) (start 1) scheduler ∧
      (scheduler.workers 0).phase = .switchedBack 1 ∧ 2 ∈ scheduler.globalQueue ∧
      ∀ later, ReachableUnder (step .ucLink) (WhileWaiting .ucLink 2) scheduler later →
        ¬ later.Executes 0 1 := by
  have evaluated : (runSteps (guarded (step .ucLink) (keepsStates .ucLink)) (start 1)
      (List.flatten [yieldBesideRun 0, [.stop 0]])).map (fun s => ((s.workers 0).phase,
        s.globalQueue, (s.workers 0).shouldStop)) = some (.switchedBack 1, [2], true) := by
    decide
  obtain ⟨scheduler, ran, facts⟩ := Option.map_eq_some_iff.mp evaluated
  simp only [Prod.mk.injEq] at facts
  obtain ⟨yielded, queue, stops⟩ := facts
  have reached : ReachableUnder (step .ucLink) (ReturnsHome .ucLink) (start 1) scheduler :=
    reachableUnder_of_guarded (fun _ _ passed => (keepsStates_sound passed).home) ran
  have waiting : 2 ∈ scheduler.globalQueue := by simp [queue]
  exact ⟨scheduler, reached, yielded, waiting,
    (yield_gives_way_iff reached yielded (Or.inr waiting)).mpr (Or.inl stops)⟩

/-- Task 1 yields while task 2 is in the global queue, and the worker executes task 1
again while task 2 is still there. -/
theorem yielding_task_taken_first :
    ¬ ∀ scheduler : TaskScheduler 1, Reachable (step .ucLink) (start 1) scheduler →
      ∀ worker task other, (scheduler.workers worker).phase = .switchedBack task →
        (scheduler.tasks task).point = .suspended →
        other ∈ (scheduler.workers worker).localQueue ∨ other ∈ scheduler.globalQueue →
        ∀ later, ReachableUnder (step .ucLink) (fun state _ => state.Waits other) scheduler
          later → ¬ later.Executes worker task := by
  intro always
  have evaluated : (runSteps (step .ucLink) (start 1) (yieldBesideRun 0)).map
      (fun s => ((s.workers 0).phase, (s.tasks 1).point, s.globalQueue)) =
        some (.switchedBack 1, .suspended, [2]) := by
    decide
  obtain ⟨scheduler, ran, facts⟩ := Option.map_eq_some_iff.mp evaluated
  simp only [Prod.mk.injEq] at facts
  obtain ⟨yielded, suspended, queue⟩ := facts
  have evaluatedLater : ((runSteps (step .ucLink) (start 1) (yieldBesideRun 0)).bind fun s =>
      runSteps (guarded (step .ucLink) fun s _ => decide (2 ∈ s.globalQueue)) s
        (List.replicate 6 (.worker 0 ⟨true, 0⟩))).map (fun s => (s.workers 0).phase) =
          some (.inFiber 1) := by
    decide
  rw [ran, Option.bind_some] at evaluatedLater
  obtain ⟨later, ranLater, inside⟩ := Option.map_eq_some_iff.mp evaluatedLater
  have after : ReachableUnder (step .ucLink) (fun state _ => state.Waits 2) scheduler later :=
    reachableUnder_of_guarded (fun _ _ passed => Or.inl (of_decide_eq_true passed)) ranLater
  exact always scheduler (reachable_of_runSteps ran) 0 1 2 yielded suspended
    (Or.inr (by simp [queue])) later after (Or.inr inside)

end TaskScheduler

end Kode.Concurrency
