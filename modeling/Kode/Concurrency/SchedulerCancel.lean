/-
# Cancellation and suspended fibers

A worker decides what becomes of a task by reading its state after the switch back:
`RUNNABLE` means that the task yielded. `Task::yield` stores `RUNNABLE` before it
switches out, and `Task::cancel` stores `CANCELLED` from another thread at any
time. When that store falls between the two, the worker takes a suspended fiber
for a finished one and retires it.

As long as fibers come home, this is the only way one is lost. Outside that window a
store of `CANCELLED` is harmless: a queued task is resumed and unwinds, a fiber that
has not started is refused by `invoke`, and a running one overwrites the state or
finds the `cancelled_` flag at its next `yield`.
-/

import Kode.Concurrency.SchedulerReturn

namespace Kode.Concurrency.TaskScheduler

open Kode.Library

variable {n : ℕ}

/-- The task has stored `RUNNABLE` in `yield` and its worker has not yet read the
state. -/
def InYieldWindow (scheduler : TaskScheduler n) (worker : Fin n) (task : TaskId) : Prop :=
  (scheduler.workers worker).phase = .inFiber task ∧
      (scheduler.tasks task).point = .yieldSwitch ∨
    (scheduler.workers worker).phase = .switchedBack task ∧
      (scheduler.tasks task).point = .suspended

instance (scheduler : TaskScheduler n) (worker : Fin n) (task : TaskId) :
    Decidable (scheduler.InYieldWindow worker task) :=
  inferInstanceAs (Decidable (_ ∨ _))

/-- The step is no store of `cancel_task` to a task in that window. -/
def CancelsOutsideYield (scheduler : TaskScheduler n) (event : SchedulerEvent n) : Prop :=
  event = .cancelStore → ∀ worker task, scheduler.cancelling = some task →
    ¬ scheduler.InYieldWindow worker task

/-- Where control stands in a fiber at each place of its task. -/
def fiberRule : PlaceRule n where
  fresh view := view.point = .entry
  queued _ view := view.point = .suspended
  held _ phase view :=
    match phase with
    | .prepare _ => view.point = .entry ∨ view.point = .suspended
    | .inFiber _ =>
        view.point ≠ .suspended ∧ (view.point = .yieldSwitch → view.state = .runnable) ∧
          (view.point = .over → view.state ≠ .runnable)
    | .switchedBack _ =>
        view.point = .suspended ∧ view.state = .runnable ∨
          view.point = .over ∧ view.state ≠ .runnable
    | .reenqueue _ => view.point = .suspended
    | .retire _ => view.point = .over
    | _ => True
  retired view := view.point = .over

theorem fiberRule_inFiber {worker : Fin n} {task : TaskId} {view : FiberView n} :
    fiberRule.held worker (.inFiber task) view ↔ view.point ≠ .suspended ∧
      (view.point = .yieldSwitch → view.state = .runnable) ∧
      (view.point = .over → view.state ≠ .runnable) := Iff.rfl

theorem fiberRule_lawful : (fiberRule (n := n)).Lawful where
  start := rfl
  takeGlobal _ fresh := Or.inl fresh
  takeLocal _ queued := Or.inr queued
  enter {worker task view} clause := by
    have stands : view.point = .entry ∨ view.point = .suspended := clause
    rcases stands with entry | suspended <;> simp [fiberRule_inFiber, *]
  goto move _ := by cases move <;> simp [fiberRule_inFiber]
  store {worker task view state point} move _ := by
    generalize view.point = before at move
    cases move <;> simp [fiberRule_inFiber]
  spawn _ _ _ := by simp [fiberRule_inFiber]
  spawned _ _ := by simp [fiberRule_inFiber]
  switchOut point clause := Or.inl ⟨rfl, clause.2.1 point⟩
  finish point clause := Or.inr ⟨point, clause.2.2 point⟩
  keep state clause := clause.elim (·.1) fun finished => absurd state finished.2
  discard state clause := clause.elim (fun yielded => absurd yielded.2 state) (·.1)
  reenqueue clause := clause
  retire clause := clause
  cancelFresh clause := clause
  cancelQueued clause := clause
  cancelRetired clause := clause

/-- Outside the window, the store keeps the clause of the worker's phase. -/
theorem fiberRule_cancel {scheduler : TaskScheduler n} (governs : fiberRule.Governs scheduler)
    {worker : Fin n} {task : TaskId}
    (hands : (scheduler.workers worker).phase.executing = some task)
    (outside : ¬ scheduler.InYieldWindow worker task) :
    fiberRule.held worker (scheduler.workers worker).phase { (scheduler.tasks task).view with
      state := .cancelled } := by
  have clause := governs.held worker task hands
  simp only [InYieldWindow, not_or, not_and] at outside
  cases phase : (scheduler.workers worker).phase with
  | inFiber t =>
      rw [phase] at clause hands outside
      obtain rfl : t = task := Option.some.inj hands
      exact ⟨clause.1, fun window => absurd window (outside.1 rfl), fun _ => by simp⟩
  | switchedBack t =>
      rw [phase] at clause hands outside
      obtain rfl : t = task := Option.some.inj hands
      rcases clause with ⟨window, -⟩ | ⟨finished, -⟩
      · exact absurd window (outside.2 rfl)
      · exact Or.inr ⟨finished, by simp⟩
  | prepare t | reenqueue t | retire t =>
      rw [phase] at clause
      exact clause
  | _ => trivial

/-- The condition on the steps of a run: the fiber that ends goes on in the context of
the worker that runs it, and no store of `cancel_task` falls into the window. -/
def KeepsFibers (back : SwitchBack) (scheduler : TaskScheduler n) (event : SchedulerEvent n) :
    Prop :=
  scheduler.ReturnsHome back event ∧ scheduler.CancelsOutsideYield event

theorem fibers_of_reachable {back : SwitchBack} {scheduler : TaskScheduler n}
    (reached : ReachableUnder (step back) (KeepsFibers back) (start n) scheduler) :
    fiberRule.Governs scheduler := by
  induction reached with
  | start => exact fiberRule_lawful.governs_start
  | next prior keeps taken governs =>
      have consistent := consistent_of_home (prior.weaken fun _ _ keeps => keeps.1)
      refine fiberRule_lawful.step governs consistent keeps.1 ?_ ?_ taken
      · -- A stolen fiber is as suspended as one of the worker's own.
        intro worker choice victim _ _ task view queued
        exact Or.inr queued
      · intro store worker task cancelling hands
        exact fiberRule_cancel governs hands (keeps.2 store worker task cancelling)

/-- A suspended fiber is in a local queue or in the hands of a worker that will not
retire it. -/
theorem suspended_kept {scheduler : TaskScheduler n} (sound : scheduler.ledger.Sound)
    (governs : fiberRule.Governs scheduler) {task : TaskId}
    (suspended : (scheduler.tasks task).point = .suspended) :
    ∃ worker, task ∈ (scheduler.workers worker).localQueue ∨
      (scheduler.workers worker).phase.executing = some task ∧
        (scheduler.workers worker).phase ≠ .retire task := by
  have notFresh : ¬ ((scheduler.tasks task).spawn.isScheduled = false ∨
      task ∈ scheduler.globalQueue) := by
    intro fresh
    exact absurd (suspended.symm.trans (governs.fresh task fresh)) (by simp)
  rw [not_or, Bool.not_eq_false] at notFresh
  obtain ⟨place, here, -⟩ := place_of_scheduled sound notFresh.1
  have positive : 0 < scheduler.timesAt task place := here.symm ▸ one_pos
  cases place with
  | globalQueue => exact absurd (timesAt_globalQueue_pos.mp positive) notFresh.2
  | localQueue worker => exact ⟨worker, Or.inl (timesAt_localQueue_pos.mp positive)⟩
  | executing worker =>
      have hands := timesAt_executing_pos.mp positive
      refine ⟨worker, Or.inr ⟨hands, fun retiring => ?_⟩⟩
      have clause := governs.held worker task hands
      rw [retiring] at clause
      exact absurd (suspended.symm.trans clause) (by simp)
  | retired =>
      have finished := governs.retired task (timesAt_retired_pos.mp positive)
      exact absurd (suspended.symm.trans finished) (by simp)

/-! ## A store in the window loses the fiber -/

/-- The steps of one worker thread, inside and outside the fibers. -/
def OwnStep (worker : Fin n) : SchedulerEvent n → Prop
  | .worker owner _ => owner = worker
  | .fiber owner _ => owner = worker
  | _ => False

/-- Once the task is cancelled in the window, its worker goes on to retire it. -/
theorem abandoned_of_cancelStore {back : SwitchBack} {scheduler : TaskScheduler n}
    (context : scheduler.ContextOk) {worker : Fin n} {task : TaskId}
    (cancelling : scheduler.cancelling = some task)
    (window : scheduler.InYieldWindow worker task) :
    ∃ events target, (∀ event ∈ events, OwnStep worker event) ∧
      runSteps (step back) scheduler (.cancelStore :: events) = some target ∧
      (target.workers worker).phase = .retire task ∧
      (target.tasks task).point = .suspended := by
  let stored := { scheduler with
    cancelling := none
    activeTaskMap := scheduler.activeTaskMap.erase task }.setTask task
      fun current => { current with state := .cancelled }
  have storing : scheduler.step back .cancelStore = some stored := by
    simp [step, cancelStore, cancelling, stored]
  have state : (stored.tasks task).state = .cancelled := by simp [stored, setTask]
  have same : (stored.tasks task).point = (scheduler.tasks task).point := by
    simp [stored, setTask]
  rcases window with ⟨inside, point⟩ | ⟨outside, point⟩
  · let left := (stored.setPoint task .suspended).leaveFiber worker worker task
    have still : (stored.workers worker).phase = .inFiber task := inside
    have recorded : (stored.workers worker).schedCtx = some worker :=
      (context worker task inside).1
    have leaving : stored.step back (.fiber worker .advance) = some left := by
      simp [step, still, fiberStep, same, point, recorded, left]
    have read : left.step back (.worker worker ⟨true, worker⟩) =
        some (left.setPhase worker (.retire task)) := by
      have unchanged : (left.tasks task).state = .cancelled := by
        simp [left, leaveFiber, setPhase, setWorker, setPoint, setTask, state]
      have phase : (left.workers worker).phase = .switchedBack task := by
        simp [left, leaveFiber, setPhase, setWorker]
      simp [step, workerStep, phase, unchanged]
    refine ⟨[.fiber worker .advance, .worker worker ⟨true, worker⟩],
      left.setPhase worker (.retire task), by simp [OwnStep], ?_, ?_, ?_⟩
    · simp [runSteps, storing, leaving, read]
    · simp [setPhase, setWorker]
    · simp [left, leaveFiber, setPhase, setWorker, setPoint, setTask]
  · have phase : (stored.workers worker).phase = .switchedBack task := outside
    have read : stored.step back (.worker worker ⟨true, worker⟩) =
        some (stored.setPhase worker (.retire task)) := by
      simp [step, workerStep, phase, state]
    refine ⟨[.worker worker ⟨true, worker⟩], stored.setPhase worker (.retire task),
      by simp [OwnStep], ?_, ?_, ?_⟩
    · simp [runSteps, storing, read]
    · simp [setPhase, setWorker]
    · exact same.trans point

/-! ## No fiber is abandoned half-way -/

/-- In a run in which fibers come home and `cancel_task` never stores into the window, a
task is retired only when its `invoke` has returned, and a suspended fiber is still held
by someone who will resume it. A store into the window is followed, by steps of the task's
worker alone, by a state in which the worker retires the suspended fiber. -/
theorem no_fiber_abandoned {back : SwitchBack} {scheduler : TaskScheduler n}
    (reached : ReachableUnder (step back) (KeepsFibers back) (start n) scheduler) :
    (∀ worker task, (scheduler.workers worker).phase = .retire task →
      (scheduler.tasks task).point = .over) ∧
    (∀ task ∈ scheduler.retired, (scheduler.tasks task).point = .over) ∧
    (∀ task, (scheduler.tasks task).point = .suspended →
      ∃ worker, task ∈ (scheduler.workers worker).localQueue ∨
        (scheduler.workers worker).phase.executing = some task ∧
          (scheduler.workers worker).phase ≠ .retire task) ∧
    ∀ worker task, scheduler.cancelling = some task → scheduler.InYieldWindow worker task →
      ∃ events target, (∀ event ∈ events, OwnStep worker event) ∧
        runSteps (step back) scheduler (.cancelStore :: events) = some target ∧
        (target.workers worker).phase = .retire task ∧
        (target.tasks task).point = .suspended := by
  have consistent := consistent_of_home (reached.weaken fun _ _ keeps => keeps.1)
  have governs := fibers_of_reachable reached
  refine ⟨fun worker task retiring => ?_, governs.retired,
    fun task => suspended_kept consistent.sound governs,
    fun worker task => abandoned_of_cancelStore consistent.context⟩
  exact governs.held_of_phase retiring rfl

/-- Task 1 runs on a worker until its `yield` has stored `RUNNABLE`, while
`cancel_task` has passed the `cancelled_` flag. -/
def cancelWhileYieldingRun (worker : Fin n) : List (SchedulerEvent n) :=
  List.flatten [
    [.spawn, .spawnCount 1, .spawnSchedule 1, .spawnRegister 1],
    List.replicate 4 (.worker worker ⟨true, worker⟩),
    [.fiber worker .advance, .fiber worker .advance, .fiber worker .yield,
      .fiber worker .advance, .cancelTask 1 false, .fiber worker .advance]]

/-- A test for the condition on the steps. -/
def keepsFibers (back : SwitchBack) (scheduler : TaskScheduler n) (event : SchedulerEvent n) :
    Bool :=
  scheduler.endsAtHome back event &&
    match event, scheduler.cancelling with
    | .cancelStore, some task => decide (∀ worker, ¬ scheduler.InYieldWindow worker task)
    | _, _ => true

theorem keepsFibers_sound {back : SwitchBack} {scheduler : TaskScheduler n}
    {event : SchedulerEvent n} (passed : scheduler.keepsFibers back event = true) :
    KeepsFibers back scheduler event := by
  unfold keepsFibers at passed
  obtain ⟨home, cancel⟩ := Bool.and_eq_true_iff.mp passed
  refine ⟨returnsHome_of_endsAtHome home, ?_⟩
  rintro rfl worker task cancelling
  simp only [cancelling, decide_eq_true_eq] at cancel
  exact cancel worker

/-- The store lands after the worker has read the state. The task is queued, resumed
and unwound before it is retired. -/
theorem no_fiber_abandoned_cancelAfterRead :
    ∃ scheduler, ReachableUnder (step .ucLink) (KeepsFibers .ucLink) (start 1) scheduler ∧
      (scheduler.tasks 1).cancelled = true ∧ (scheduler.workers 0).phase = .retire 1 ∧
      (scheduler.tasks 1).point = .over := by
  have evaluated : (runSteps (guarded (step .ucLink) (keepsFibers .ucLink)) (start 1)
      (List.flatten [cancelWhileYieldingRun 0,
        [.fiber 0 .advance, .worker 0 ⟨true, 0⟩, .cancelStore],
        List.replicate 5 (.worker 0 ⟨true, 0⟩),
        [.fiber 0 .advance, .fiber 0 .advance, .fiber 0 .advance, .worker 0 ⟨true, 0⟩]])).map
      (fun s => ((s.tasks 1).cancelled, (s.workers 0).phase)) = some (true, .retire 1) := by
    decide
  obtain ⟨scheduler, ran, facts⟩ := Option.map_eq_some_iff.mp evaluated
  obtain ⟨cancelled, retiring⟩ := Prod.mk.inj facts
  have reached : ReachableUnder (step .ucLink) (KeepsFibers .ucLink) (start 1) scheduler :=
    reachableUnder_of_guarded (fun _ _ => keepsFibers_sound) ran
  exact ⟨scheduler, reached, cancelled, retiring, (no_fiber_abandoned reached).1 0 1 retiring⟩

/-- The store lands before the worker reads the state, and a suspended task is
retired. -/
theorem suspended_fiber_retired :
    ¬ ∀ scheduler, Reachable (step .ucLink) (start 1) scheduler →
      ∀ worker task, (scheduler.workers worker).phase = .retire task →
        (scheduler.tasks task).point = .over := by
  intro always
  have evaluated : (runSteps (step .ucLink) (start 1) (List.flatten
      [cancelWhileYieldingRun 0, [.cancelStore, .fiber 0 .advance, .worker 0 ⟨true, 0⟩]])).map
      (fun s => ((s.workers 0).phase, (s.tasks 1).point)) = some (.retire 1, .suspended) := by
    decide
  obtain ⟨scheduler, ran, facts⟩ := Option.map_eq_some_iff.mp evaluated
  obtain ⟨retiring, suspended⟩ := Prod.mk.inj facts
  have finished := always scheduler (reachable_of_runSteps ran) 0 1 retiring
  exact absurd (suspended.symm.trans finished) (by decide)

end Kode.Concurrency.TaskScheduler
