/-
# Where a finished task returns to

A task's context is made on its first run, and `uc_link` then points to the
context of the worker that runs it first. A yielded task waits in that worker's
local queue, from which any other worker may steal it; when it finishes there,
`uc_link` still sends the thread into the first worker's context.

So a task returns to the worker that executes it exactly as long as no worker
steals from another's local queue. Tasks in the global queue never ran and may be
taken by anyone.
-/

import Kode.Concurrency.SchedulerPlaces

namespace Kode.Concurrency.TaskScheduler

open Kode.Library

variable {n : ℕ}

/-- The step is no successful steal from the local queue of another worker. -/
def KeepsOwnTasks (scheduler : TaskScheduler n) (event : SchedulerEvent n) : Prop :=
  ∀ worker choice victim, event = .worker worker choice →
    ¬ scheduler.StealsFrom worker choice victim

/-- What `uc_link` is at each place when nobody steals: absent until a worker has
switched into the task, and that worker's from then on. -/
def linkRule : PlaceRule n where
  fresh view := view.ucLink = none
  queued worker view := view.ucLink = some worker
  held worker phase view :=
    match phase with
    | .prepare _ => view.ucLink.getD worker = worker
    | _ => view.ucLink = some worker
  retired _ := True

theorem linkRule_lawful : (linkRule (n := n)).Lawful where
  start := rfl
  takeGlobal {worker view} _ fresh := by
    have link : view.ucLink = none := fresh
    simp [linkRule, link]
  takeLocal {worker view} _ queued := by
    have link : view.ucLink = some worker := queued
    simp [linkRule, link]
  enter clause := congrArg some clause
  goto _ clause := clause
  store _ clause := clause
  spawn _ _ clause := clause
  spawned _ clause := clause
  switchOut _ clause := clause
  finish _ clause := clause
  keep _ clause := clause
  discard _ clause := clause
  reenqueue clause := clause
  retire _ := trivial
  cancelFresh clause := clause
  cancelQueued clause := clause
  cancelRetired _ := trivial

/-- Where the rule holds, `uc_link` is the way back. -/
theorem returns_ucLink {scheduler : TaskScheduler n} (governs : linkRule.Governs scheduler) :
    scheduler.Returns .ucLink := by
  intro worker task inside
  have clause := governs.held_of_phase inside rfl
  exact congrArg (·.getD worker) clause

/-- Without steals, every state reached is consistent and links each task to its
worker. -/
theorem linked_of_reachable {scheduler : TaskScheduler n}
    (reached : ReachableUnder (step .ucLink) KeepsOwnTasks (start n) scheduler) :
    scheduler.Consistent ∧ linkRule.Governs scheduler := by
  refine reached.invariant (motive := fun state => state.Consistent ∧ linkRule.Governs state)
    ⟨consistent_start, linkRule_lawful.governs_start⟩ ?_
  rintro state event target ⟨consistent, governs⟩ keeps taken
  have home := (returns_ucLink governs).home event
  refine ⟨consistent.step home taken, linkRule_lawful.step governs consistent home ?_ ?_ taken⟩
  · intro worker choice victim same steals
    exact absurd steals (keeps worker choice victim same)
  · -- The store of `cancel_task` does not touch the context.
    rintro - worker task - hands
    exact governs.held worker task hands

/-! ## A steal breaks the link -/

theorem workerStep_of_stealsFrom {scheduler : TaskScheduler n} {worker victim : Fin n}
    {choice : StealChoice n} (steals : scheduler.StealsFrom worker choice victim) :
    ∃ task rest, (scheduler.workers victim).localQueue = task :: rest ∧
      scheduler.workerStep worker choice = some (scheduler.takeLocal worker victim task) := by
  obtain ⟨other, locked, ⟨attempt, phase, inTime, rfl, nonempty⟩ |
    ⟨offset, phase, inRange, position, several⟩⟩ := steals
  · obtain ⟨task, rest, queue⟩ := List.exists_cons_of_ne_nil nonempty
    refine ⟨task, rest, queue, ?_⟩
    simp [workerStep, phase, inTime, other, locked, queue]
  · obtain ⟨task, second, rest, queue⟩ : ∃ task second rest,
        (scheduler.workers victim).localQueue = task :: second :: rest := by
      match queue : (scheduler.workers victim).localQueue with
      | [] | [_] => simp [queue] at several
      | task :: second :: rest => exact ⟨task, second, rest, rfl⟩
    refine ⟨task, second :: rest, queue, ?_⟩
    have target : (⟨(worker + offset) % n, Nat.mod_lt _ worker.pos⟩ : Fin n) = victim :=
      Fin.ext position.symm
    simp [workerStep, phase, inRange, target, locked, queue]

/-- The thief enters a fiber that is linked to the victim. -/
theorem linked_to_victim {scheduler : TaskScheduler n} (governs : linkRule.Governs scheduler)
    {worker victim : Fin n} {choice : StealChoice n}
    (steals : scheduler.StealsFrom worker choice victim) :
    ∃ task target, runSteps (step .ucLink) scheduler
        [.worker worker choice, .worker worker choice] = some target ∧
      (target.workers worker).phase = .inFiber task ∧
      (target.tasks task).ucLink = some victim := by
  obtain ⟨task, rest, queue, taken⟩ := workerStep_of_stealsFrom steals
  have link : (scheduler.tasks task).ucLink = some victim :=
    governs.queued victim task (by rw [queue]; exact List.mem_cons_self)
  refine ⟨task, (scheduler.takeLocal worker victim task).enterFiber worker task, ?_, ?_, ?_⟩
  · have entered : (scheduler.takeLocal worker victim task).workerStep worker choice =
        some ((scheduler.takeLocal worker victim task).enterFiber worker task) := by
      simp [workerStep, takeLocal, setPhase, setWorker]
    simp [runSteps, step, taken, entered]
  · simp [enterFiber, setTask, setWorker]
  · simp [enterFiber, takeLocal, setPhase, setTask, setWorker, link]

/-! ## Control returns to the worker's own context -/

/-- In a run in which nobody steals from another worker's local queue, a worker
inside a fiber is the one its `uc_link` points to, and when the fiber is over the
worker goes on in its own context. The first steal is followed, by the thief's own
next step, by a state in which that fails. -/
theorem control_returns_to_own_context {scheduler : TaskScheduler n}
    (reached : ReachableUnder (step .ucLink) KeepsOwnTasks (start n) scheduler) :
    (∀ worker task, (scheduler.workers worker).phase = .inFiber task →
      (scheduler.tasks task).ucLink = some worker ∧
        (scheduler.workers worker).schedCtx = some worker ∧
        ((scheduler.tasks task).point = .over → ∀ target,
          scheduler.step .ucLink (.fiber worker .advance) = some target →
            (target.workers worker).phase = .switchedBack task)) ∧
    ∀ worker choice victim, scheduler.StealsFrom worker choice victim →
      ∃ task target, runSteps (step .ucLink) scheduler
          [.worker worker choice, .worker worker choice] = some target ∧
        (target.workers worker).phase = .inFiber task ∧
        (target.tasks task).ucLink ≠ some worker := by
  obtain ⟨consistent, governs⟩ := linked_of_reachable reached
  refine ⟨fun worker task inside => ?_, fun worker choice victim steals => ?_⟩
  · have clause := governs.held_of_phase inside rfl
    refine ⟨clause, (consistent.context worker task inside).1, fun finished target taken => ?_⟩
    have returns := returns_ucLink governs worker task inside
    simp only [step, inside, fiberStep, finished, returns] at taken
    obtain rfl := Option.some.inj taken
    simp [leaveFiber, setPhase, setWorker]
  · obtain ⟨task, target, ran, inside, link⟩ := linked_to_victim governs steals
    refine ⟨task, target, ran, inside, ?_⟩
    rw [link]
    exact fun same => steals.1 (Option.some.inj same)

/-- Task 1 runs on a worker and yields. -/
def yieldOnceRun (worker : Fin n) : List (SchedulerEvent n) :=
  List.flatten [
    [.spawn, .spawnCount 1, .spawnSchedule 1, .spawnRegister 1],
    List.replicate 4 (.worker worker ⟨true, worker⟩),
    [.fiber worker .advance, .fiber worker .advance, .fiber worker .yield,
      .fiber worker .advance, .fiber worker .advance, .fiber worker .advance],
    List.replicate 3 (.worker worker ⟨true, worker⟩)]

/-- A test that no worker is about to look into another one's queue. -/
def outsideSteals (scheduler : TaskScheduler n) : SchedulerEvent n → Bool
  | .worker worker _ =>
      match (scheduler.workers worker).phase with
      | .stealRandom _ | .stealScan _ => false
      | _ => true
  | _ => true

theorem keepsOwnTasks_of_outsideSteals {scheduler : TaskScheduler n} {event : SchedulerEvent n}
    (passed : scheduler.outsideSteals event = true) : scheduler.KeepsOwnTasks event := by
  rintro worker choice victim rfl ⟨-, -, ⟨attempt, phase, -⟩ | ⟨offset, phase, -⟩⟩ <;>
    simp [outsideSteals, phase] at passed

/-- Worker 0 takes the task up again, finds it linked to itself and gets it back. -/
theorem control_returns_to_own_context_yieldOnce :
    ∃ scheduler, ReachableUnder (step .ucLink) KeepsOwnTasks (start 2) scheduler ∧
      (scheduler.workers 0).phase = .inFiber 1 ∧ (scheduler.tasks 1).ucLink = some 0 ∧
      ∀ target, scheduler.step .ucLink (.fiber 0 .advance) = some target →
        (target.workers 0).phase = .switchedBack 1 := by
  have evaluated : (runSteps (guarded (step .ucLink) outsideSteals) (start 2)
      (List.flatten [yieldOnceRun 0, List.replicate 3 (.worker 0 ⟨true, 0⟩),
        [.fiber 0 .advance, .fiber 0 .return, .fiber 0 .advance]])).map
      (fun s => ((s.workers 0).phase, (s.tasks 1).point)) = some (.inFiber 1, .over) := by
    decide
  obtain ⟨scheduler, ran, facts⟩ := Option.map_eq_some_iff.mp evaluated
  obtain ⟨inside, finished⟩ := Prod.mk.inj facts
  have reached := reachableUnder_of_guarded (fun _ _ => keepsOwnTasks_of_outsideSteals) ran
  obtain ⟨link, -, finishes⟩ := (control_returns_to_own_context reached).1 0 1 inside
  exact ⟨scheduler, reached, inside, link, finishes finished⟩

/-- A test that a fiber that ends has not been led to another worker's context. -/
def endsAtHome (back : SwitchBack) (scheduler : TaskScheduler n) : SchedulerEvent n → Bool
  | .fiber worker _ =>
      match (scheduler.workers worker).phase with
      | .inFiber task =>
          decide ((scheduler.tasks task).point = .over →
            back.worker worker (scheduler.tasks task) = worker)
      | _ => true
  | _ => true

theorem returnsHome_of_endsAtHome {back : SwitchBack} {scheduler : TaskScheduler n}
    {event : SchedulerEvent n} (passed : scheduler.endsAtHome back event = true) :
    scheduler.ReturnsHome back event := by
  rintro worker action task rfl inside finished
  simp only [endsAtHome, inside, decide_eq_true_eq] at passed
  exact passed finished

/-- After `yieldOnceRun` another worker steals the task and enters it. -/
def stealRun (victim thief : Fin n) : List (SchedulerEvent n) :=
  List.flatten [yieldOnceRun victim, List.replicate 5 (.worker thief ⟨true, victim⟩)]

/-- The stolen task is executed by worker 1 and linked to worker 0. -/
theorem stolen_task_returns_elsewhere :
    ¬ ∀ scheduler, Reachable (step .ucLink) (start 2) scheduler →
      ∀ worker task, (scheduler.workers worker).phase = .inFiber task →
        (scheduler.tasks task).ucLink = some worker := by
  intro always
  have evaluated : (runSteps (step .ucLink) (start 2) (stealRun 0 1)).map
      (fun s => ((s.workers 1).phase, (s.tasks 1).ucLink)) = some (.inFiber 1, some 0) := by
    decide
  obtain ⟨scheduler, ran, facts⟩ := Option.map_eq_some_iff.mp evaluated
  obtain ⟨inside, link⟩ := Prod.mk.inj facts
  have own := always scheduler (reachable_of_runSteps ran) 1 1 inside
  rw [link] at own
  exact absurd own (by decide)

end Kode.Concurrency.TaskScheduler
