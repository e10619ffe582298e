/-
# Cancellation at the next safepoint

`cancel_task` only stores a flag and a state. The flag is read at three safepoints:
at the start of `invoke`, at the start of `yield`, and again when `yield` is resumed.
A task that is cancelled before the first is refused by the worker that runs it,
wherever the cancellation finds it, and a `yield` of a cancelled task ends in an
exception, however often and by whomever the task is resumed.

The refused task is retired once, as long as fibers return to their workers. A thread
that `uc_link` sends into the context of another worker retires the task it finds
there, and the worker retires it again.
-/

import Kode.Concurrency.SchedulerState

namespace Kode.Concurrency.TaskScheduler

open Kode.Library

variable {n : ℕ}

/-! ## The context of a task that has not started -/

/-- A task is at its entry only until the worker that made its context has run it. -/
def entryRule : PlaceRule n where
  fresh view := view.point = .entry ∧ view.ucLink = none
  queued _ view := view.point ≠ .entry
  held worker phase view :=
    match phase with
    | .prepare _ => view.point = .entry → view.ucLink = none
    | .inFiber _ => view.point = .entry → view.ucLink = some worker
    | _ => view.point ≠ .entry
  retired view := view.point ≠ .entry

theorem entryRule_inFiber {worker : Fin n} {task : TaskId} {view : FiberView n} :
    entryRule.held worker (.inFiber task) view ↔
      (view.point = .entry → view.ucLink = some worker) := Iff.rfl

theorem entryRule_switchedBack {worker : Fin n} {task : TaskId} {view : FiberView n} :
    entryRule.held worker (.switchedBack task) view ↔ view.point ≠ .entry := Iff.rfl

theorem entryRule_lawful : (entryRule (n := n)).Lawful where
  start := ⟨rfl, rfl⟩
  takeGlobal _ fresh _ := fresh.2
  takeLocal _ queued entry := absurd entry queued
  enter {worker task view} clause := by
    have unlinked : view.point = .entry → view.ucLink = none := clause
    intro entry
    dsimp only at entry ⊢
    split_ifs at entry
    rw [unlinked entry]
    rfl
  goto move _ := by cases move <;> simp [entryRule_inFiber]
  store {worker task view state point} move _ := by
    generalize view.point = before at move
    cases move <;> simp [entryRule_inFiber]
  spawn _ _ _ := by simp [entryRule_inFiber]
  spawned _ _ := by simp [entryRule_inFiber]
  switchOut _ _ := by simp [entryRule_switchedBack]
  finish {worker task view} point _ := by simp [entryRule_switchedBack, point]
  keep _ clause := clause
  discard _ clause := clause
  reenqueue clause := clause
  retire clause := clause
  cancelFresh clause := clause
  cancelQueued clause := clause
  cancelRetired clause := clause

theorem entryRule_of_home {back : SwitchBack} {scheduler : TaskScheduler n}
    (reached : ReachableUnder (step back) (ReturnsHome back) (start n) scheduler) :
    entryRule.Governs scheduler := by
  refine reached.invariant_given (fun _ => consistent_of_home) entryRule_lawful.governs_start ?_
  intro state event target consistent governs home taken
  refine entryRule_lawful.step governs consistent home ?_ ?_ taken
  · rintro worker choice victim - - task view queued entry
    exact absurd entry queued
  · rintro - worker task - hands
    exact governs.held worker task hands

/-- How a worker comes to be inside a fiber. -/
theorem inFiber_step {back : SwitchBack} {scheduler target : TaskScheduler n}
    {event : SchedulerEvent n} (onTrack : scheduler.OnTrack)
    (taken : scheduler.step back event = some target) {worker : Fin n} {task : TaskId}
    (inside : (target.workers worker).phase = .inFiber task) :
    (scheduler.workers worker).phase = .inFiber task ∨
      (scheduler.workers worker).phase = .prepare task ∧
        target = scheduler.enterFiber worker task := by
  cases step_worker onTrack taken worker with
  | same queue phase _ => exact Or.inl (phase.symm.trans inside)
  | stolen thief stolen queue phase _ _ => exact Or.inl (phase.symm.trans inside)
  | own step =>
      rcases step_move taken with
        move | ⟨acting, choice, rfl, move⟩ | ⟨acting, action, running, rfl, within, move⟩
      · cases move <;> cases step
      · obtain rfl : acting = worker := step
        cases move with
        | enter entered before =>
            obtain rfl : entered = task := by
              simpa [enterFiber, setTask, setWorker] using inside
            exact Or.inr ⟨before, rfl⟩
        | search phase before after _ =>
            obtain rfl : phase = .inFiber task := by simpa [setPhase, setWorker] using inside
            cases after
        | takeLocal | takeGlobal | keep | discard | reenqueue | retire | clear
        | strayReenqueue | strayRetire =>
            simp [takeLocal, takeGlobal, setPhase, setWorker] at inside
      · obtain rfl : acting = worker := step
        left
        cases move with
        | switchOut | finish =>
            simp only [leaveFiber, setPhase, setWorker, Function.update_self] at inside
            split_ifs at inside
            exact absurd inside (strayPhase_ne_inFiber _ _ _)
        | _ => exact inside

/-! ## A task that is refused -/

/-- The task was cancelled before `invoke` read its flag. It never enters its
function, and the worker that runs it made its context. -/
structure Refused (scheduler : TaskScheduler n) (task : TaskId) : Prop where
  flag : (scheduler.tasks task).cancelled = true
  point : (scheduler.tasks task).point = .entry ∨
    (scheduler.tasks task).point = .invokeCancelled ∨ (scheduler.tasks task).point = .over
  link : ∀ worker, (scheduler.workers worker).phase = .inFiber task →
    (scheduler.tasks task).ucLink = some worker

theorem refused_of_entry {scheduler : TaskScheduler n} (governs : entryRule.Governs scheduler)
    {task : TaskId} (flag : (scheduler.tasks task).cancelled = true)
    (entry : (scheduler.tasks task).point = .entry) : scheduler.Refused task where
  flag := flag
  point := Or.inl entry
  link worker inside := by
    have clause := governs.held_of_phase inside rfl
    exact clause entry

theorem Refused.point_step {back : SwitchBack} {scheduler target : TaskScheduler n}
    {event : SchedulerEvent n} {task : TaskId} (refused : scheduler.Refused task)
    (flagged : scheduler.Flagged) (taken : scheduler.step back event = some target) :
    (target.tasks task).point = .entry ∨ (target.tasks task).point = .invokeCancelled ∨
      (target.tasks task).point = .over := by
  have point := refused.point
  have move := step_task flagged.toConsistent taken task
  generalize target.tasks task = after at move ⊢
  cases move with
  | same | stage | cancelFlag | cancelState => exact point
  | allocate spawner new => exact Or.inl rfl
  | enter worker prepared =>
      have notSuspended : (scheduler.tasks task).point ≠ .suspended := by
        rcases point with there | there | there <;> simp [there]
      dsimp only
      rw [if_neg notSuspended]
      exact point
  | goto point own move =>
      cases move with
      | refuse before cancelled => exact Or.inr (Or.inl rfl)
      | proceed before cancelled => exact absurd (refused.flag.symm.trans cancelled) (by simp)
      | yieldThrow before cancelled => rcases before with there | there <;> simp [there] at point
      | _ => simp_all
  | store state point move =>
      rcases refused.point with there | there | there <;> rw [there] at move <;> cases move
      exact Or.inr (Or.inr rfl)
  | spawned child stage before after => simp [before] at point
  | spawn child before => simp [before] at point
  | switchOut before => simp [before] at point

theorem Refused.link_step {back : SwitchBack} {scheduler target : TaskScheduler n}
    {event : SchedulerEvent n} {task : TaskId} (refused : scheduler.Refused task)
    (flagged : scheduler.Flagged) (entries : entryRule.Governs scheduler)
    (states : stateRule.Governs scheduler) (taken : scheduler.step back event = some target)
    {worker : Fin n} (inside : (target.workers worker).phase = .inFiber task) :
    (target.tasks task).ucLink = some worker := by
  rcases inFiber_step flagged.onTrack taken inside with before | ⟨prepared, rfl⟩
  · -- The link of a fiber that is running does not change.
    have link := refused.link worker before
    have born := executing_lt_next flagged.sound (Phase.executing_of_inFiber before)
    have move := step_task flagged.toConsistent taken task
    generalize target.tasks task = after at move ⊢
    cases move with
    | allocate spawner new => exact absurd new born.ne
    | enter entering prepared => simp [link]
    | _ => exact link
  · have hands : (scheduler.workers worker).phase.executing = some task := by
      rw [prepared]
      rfl
    have entry := entries.held worker task hands
    have stands := states.held worker task hands
    rw [prepared] at entry stands
    have start : (scheduler.tasks task).point = .entry := by
      rcases stands with ⟨entry, -⟩ | ⟨suspended, -⟩
      · exact entry
      · have point := refused.point
        simp only [Task.view_point] at suspended
        simp [suspended] at point
    have unlinked : (scheduler.tasks task).ucLink = none := entry start
    simp [enterFiber, setTask, setWorker, unlinked]

/-- What is known of a run whose fibers return. -/
structure Governed (scheduler : TaskScheduler n) : Prop extends scheduler.Flagged where
  states : stateRule.Governs scheduler
  entries : entryRule.Governs scheduler

theorem governed_of_home {back : SwitchBack} {scheduler : TaskScheduler n}
    (reached : ReachableUnder (step back) (ReturnsHome back) (start n) scheduler) :
    scheduler.Governed :=
  { flagged_of_home reached with
    states := stateRule_of_home reached
    entries := entryRule_of_home reached }

theorem Refused.step {back : SwitchBack} {scheduler target : TaskScheduler n}
    {event : SchedulerEvent n} {task : TaskId} (refused : scheduler.Refused task)
    (governed : scheduler.Governed) (taken : scheduler.step back event = some target) :
    target.Refused task where
  flag := cancelled_step governed.registered governed.toConsistent taken refused.flag
  point := refused.point_step governed.toFlagged taken
  link _ := refused.link_step governed.toFlagged governed.entries governed.states taken

theorem Refused.run {back : SwitchBack} {scheduler later : TaskScheduler n} {task : TaskId}
    (refused : scheduler.Refused task)
    (reached : ReachableUnder (TaskScheduler.step back) (ReturnsHome back) (start n) scheduler)
    (after : ReachableUnder (TaskScheduler.step back) (ReturnsHome back) scheduler later) :
    later.Refused task :=
  after.invariant_given (motive := fun middle => middle.Refused task)
    (fun _ between => governed_of_home (reached.trans between)) refused
    fun _ _ _ governed refused _ taken => refused.step governed taken

/-! ## The worker retires it -/

/-- By steps of its own thread alone the worker comes to have retired the task once. -/
def RetiresOnce (back : SwitchBack) (scheduler : TaskScheduler n) (worker : Fin n)
    (task : TaskId) : Prop :=
  ∃ events target, (∀ event ∈ events, OwnStep worker event) ∧
    runSteps (step back) scheduler events = some target ∧ target.retired.count task = 1

theorem RetiresOnce.of_step {back : SwitchBack} {scheduler target : TaskScheduler n}
    {event : SchedulerEvent n} {worker : Fin n} {task : TaskId}
    (taken : scheduler.step back event = some target) (own : OwnStep worker event)
    (rest : target.RetiresOnce back worker task) : scheduler.RetiresOnce back worker task := by
  obtain ⟨events, last, owns, ran, once⟩ := rest
  refine ⟨event :: events, last, ?_, ?_, once⟩
  · simpa using ⟨own, owns⟩
  · simpa [runSteps, taken] using ran

variable {back : SwitchBack} {scheduler : TaskScheduler n} {worker : Fin n} {task : TaskId}

theorem retiresOnce_of_retire (retiring : (scheduler.workers worker).phase = .retire task)
    (notYet : scheduler.retired.count task = 0) : scheduler.RetiresOnce back worker task := by
  refine ⟨[.worker worker ⟨true, worker⟩], { scheduler with
    activeTasks := fetchSub scheduler.activeTasks
    retired := scheduler.retired ++ [task] }.setPhase worker (.clear task), ?_, ?_, ?_⟩
  · simp [OwnStep]
  · simp [runSteps, step, workerStep, retiring]
  · simp [setPhase, setWorker, notYet]

theorem retiresOnce_of_switchedBack
    (phase : (scheduler.workers worker).phase = .switchedBack task)
    (state : (scheduler.tasks task).state ≠ .runnable)
    (notYet : scheduler.retired.count task = 0) : scheduler.RetiresOnce back worker task := by
  have read : scheduler.step back (.worker worker ⟨true, worker⟩) =
      some (scheduler.setPhase worker (.retire task)) := by
    simp [step, workerStep, phase, state]
  refine .of_step read rfl (retiresOnce_of_retire ?_ notYet)
  simp [setPhase, setWorker]

theorem retiresOnce_of_over (inside : (scheduler.workers worker).phase = .inFiber task)
    (finished : (scheduler.tasks task).point = .over)
    (state : (scheduler.tasks task).state ≠ .runnable)
    (home : back.worker worker (scheduler.tasks task) = worker)
    (notYet : scheduler.retired.count task = 0) : scheduler.RetiresOnce back worker task := by
  have leaving : scheduler.step back (.fiber worker .advance) =
      some (scheduler.setPhase worker (.switchedBack task)) := by
    simp [step, inside, fiberStep, finished, home, leaveFiber]
  refine .of_step leaving rfl (retiresOnce_of_switchedBack ?_ state notYet)
  simp [setPhase, setWorker]

theorem retiresOnce_of_invokeCancelled
    (inside : (scheduler.workers worker).phase = .inFiber task)
    (refused : (scheduler.tasks task).point = .invokeCancelled)
    (link : (scheduler.tasks task).ucLink = some worker)
    (notYet : scheduler.retired.count task = 0) : scheduler.RetiresOnce back worker task := by
  have storing : scheduler.step back (.fiber worker .advance) =
      some (scheduler.storeState task .cancelled .over) := by
    simp [step, inside, fiberStep, refused]
  refine .of_step storing rfl (retiresOnce_of_over inside ?_ ?_ ?_ notYet)
  · simp [storeState, setTask]
  · simp [storeState, setTask]
  · cases back <;> simp [storeState, setTask, SwitchBack.worker, link]

theorem retiresOnce_of_entry (inside : (scheduler.workers worker).phase = .inFiber task)
    (entry : (scheduler.tasks task).point = .entry)
    (flag : (scheduler.tasks task).cancelled = true)
    (link : (scheduler.tasks task).ucLink = some worker)
    (notYet : scheduler.retired.count task = 0) : scheduler.RetiresOnce back worker task := by
  have refusing : scheduler.step back (.fiber worker .advance) =
      some (scheduler.setPoint task .invokeCancelled) := by
    simp [step, inside, fiberStep, entry, flag]
  refine .of_step refusing rfl (retiresOnce_of_invokeCancelled inside ?_ ?_ notYet)
  · simp [setPoint, setTask]
  · simpa [setPoint, setTask] using link

theorem retiresOnce_of_prepare (prepared : (scheduler.workers worker).phase = .prepare task)
    (entry : (scheduler.tasks task).point = .entry)
    (flag : (scheduler.tasks task).cancelled = true)
    (unlinked : (scheduler.tasks task).ucLink = none)
    (notYet : scheduler.retired.count task = 0) : scheduler.RetiresOnce back worker task := by
  have entering : scheduler.step back (.worker worker ⟨true, worker⟩) =
      some (scheduler.enterFiber worker task) := by
    simp [step, workerStep, prepared]
  refine .of_step entering rfl (retiresOnce_of_entry ?_ ?_ ?_ ?_ notYet)
  · simp [enterFiber, setTask, setWorker]
  · simp [enterFiber, setTask, setWorker, entry]
  · simpa [enterFiber, setTask, setWorker] using flag
  · simp [enterFiber, setTask, setWorker, unlinked]

/-- Whichever worker has the refused task in its hands retires it. -/
theorem Refused.retiresOnce (refused : scheduler.Refused task) (governed : scheduler.Governed)
    (hands : (scheduler.workers worker).phase.executing = some task) :
    scheduler.RetiresOnce back worker task := by
  have notYet : scheduler.retired.count task = 0 :=
    alone_of_timesAt governed.sound (timesAt_executing_pos.mpr hands)
      (by simp : Place.retired ≠ .executing worker)
  have point := refused.point
  have state := governed.states.held worker task hands
  have entry := governed.entries.held worker task hands
  have track := governed.onTrack worker
  have notRunnable : (scheduler.tasks task).state = .completed ∨
      (scheduler.tasks task).state = .cancelled → (scheduler.tasks task).state ≠ .runnable := by
    rintro (final | final) <;> simp [final]
  cases phase : (scheduler.workers worker).phase with
  | prepare t =>
      rw [phase] at hands state entry
      obtain rfl : t = task := Option.some.inj hands
      have start : (scheduler.tasks t).point = .entry := by
        rcases state with ⟨entry, -⟩ | ⟨suspended, -⟩
        · exact entry
        · simp only [Task.view_point] at suspended
          simp [suspended] at point
      exact retiresOnce_of_prepare phase start refused.flag (entry start) notYet
  | inFiber t =>
      rw [phase] at hands state
      obtain rfl : t = task := Option.some.inj hands
      have link := refused.link worker phase
      rcases point with start | stopped | finished
      · exact retiresOnce_of_entry phase start refused.flag link notYet
      · exact retiresOnce_of_invokeCancelled phase stopped link notYet
      · refine retiresOnce_of_over phase finished (notRunnable (state.2.2 finished)) ?_ notYet
        cases back <;> simp [SwitchBack.worker, link]
  | switchedBack t =>
      rw [phase] at hands state
      obtain rfl : t = task := Option.some.inj hands
      rcases state with ⟨suspended, -⟩ | ⟨-, final⟩
      · simp only [Task.view_point] at suspended
        simp [suspended] at point
      · exact retiresOnce_of_switchedBack phase (notRunnable final) notYet
  | reenqueue t =>
      rw [phase] at hands state
      obtain rfl : t = task := Option.some.inj hands
      have suspended : (scheduler.tasks t).point = .suspended := state.1
      simp [suspended] at point
  | retire t =>
      rw [phase] at hands
      obtain rfl : t = task := Option.some.inj hands
      exact retiresOnce_of_retire phase notYet
  | strayReenqueue frame t | strayRetire t =>
      rw [phase] at track
      cases track
  | top | popLocal | stealGlobal | stealRandom | stealScan | clear | stopped | derailed =>
      rw [phase] at hands
      cases hands

/-- A refused task waits in the global queue, is in the hands of a worker that will
retire it, or has been retired once. -/
theorem Refused.place (back : SwitchBack) (refused : scheduler.Refused task)
    (governed : scheduler.Governed) :
    task ∈ scheduler.globalQueue ∧ scheduler.retired.count task = 0 ∨
      (∃ worker, (scheduler.workers worker).phase.executing = some task ∧
        scheduler.retired.count task = 0 ∧ scheduler.RetiresOnce back worker task) ∨
      scheduler.retired.count task = 1 := by
  have scheduled : (scheduler.tasks task).spawn.isScheduled = true := by
    rw [governed.registered.flagged task refused.flag]
    rfl
  obtain ⟨place, here, elsewhere⟩ := place_of_scheduled governed.sound scheduled
  have positive : 0 < scheduler.timesAt task place := here.symm ▸ one_pos
  cases place with
  | globalQueue =>
      exact Or.inl ⟨timesAt_globalQueue_pos.mp positive, elsewhere .retired (by simp)⟩
  | localQueue worker =>
      have suspended : (scheduler.tasks task).point = .suspended :=
        (governed.states.queued worker task (timesAt_localQueue_pos.mp positive)).1
      have point := refused.point
      simp [suspended] at point
  | executing worker =>
      have hands := timesAt_executing_pos.mp positive
      exact Or.inr (Or.inl ⟨worker, hands, elsewhere .retired (by simp),
        refused.retiresOnce governed hands⟩)
  | retired => exact Or.inr (Or.inr here)

/-! ## Cancellation takes effect at the next safepoint -/

/-- A step of a cancelled task inside `yield` stays there or throws. -/
theorem yield_step {target : TaskScheduler n} {event : SchedulerEvent n}
    (flagged : scheduler.Flagged) (flag : (scheduler.tasks task).cancelled = true)
    (inYield : (scheduler.tasks task).point.inYield = true)
    (taken : scheduler.step back event = some target) :
    (target.tasks task).point.inYield = true ∨ (target.tasks task).point = .unwinding := by
  have born : task < scheduler.nextTaskId := by
    refine flagged.sound.lt_next fun unborn => ?_
    exact absurd ((flagged.registered.flagged task flag).symm.trans unborn) (by simp)
  have move := step_task flagged.toConsistent taken task
  generalize target.tasks task = after at move ⊢
  cases move with
  | same | stage | cancelFlag | cancelState => exact Or.inl inYield
  | allocate spawner new => exact absurd new born.ne
  | spawned child stage before after => simp [before, FiberPoint.inYield] at inYield
  | enter worker prepared =>
      left
      dsimp only
      split_ifs
      · rfl
      · exact inYield
  | goto point own move =>
      cases move with
      | yieldThrow before cancelled => exact Or.inr rfl
      | yieldStart before cancelled => exact Or.inl rfl
      | yieldReturn before cancelled => exact absurd (flag.symm.trans cancelled) (by simp)
      | refuse before | proceed before | yield before | «return» before | throw before
      | handle before => simp [before, FiberPoint.inYield] at inYield
  | store state point move =>
      generalize (scheduler.tasks task).point = before at move inYield
      cases move with
      | yielded => exact Or.inl rfl
      | _ => cases inYield
  | spawn child before => simp [before, FiberPoint.inYield] at inYield
  | switchOut before => exact Or.inl rfl

/-- In a run whose fibers return to their workers, a task that is cancelled before
`invoke` has read its flag never enters its function and is retired once: it waits in
the global queue, or a worker that is on its way to retire it has it, or it has been
retired. And no step takes a cancelled task from inside `yield` back into its
function. -/
theorem cancelled_at_safepoint {later : TaskScheduler n}
    (reached : ReachableUnder (step back) (ReturnsHome back) (start n) scheduler)
    (flag : (scheduler.tasks task).cancelled = true)
    (after : ReachableUnder (step back) (ReturnsHome back) scheduler later) :
    ((scheduler.tasks task).point = .entry →
      ((later.tasks task).point = .entry ∨ (later.tasks task).point = .invokeCancelled ∨
        (later.tasks task).point = .over) ∧
      (task ∈ later.globalQueue ∧ later.retired.count task = 0 ∨
        (∃ worker, (later.workers worker).phase.executing = some task ∧
          later.retired.count task = 0 ∧ later.RetiresOnce back worker task) ∨
        later.retired.count task = 1)) ∧
    ((later.tasks task).point.inYield = true → ∀ event target,
      later.step back event = some target →
        (target.tasks task).point.inYield = true ∨ (target.tasks task).point = .unwinding) := by
  have governed := governed_of_home (reached.trans after)
  refine ⟨fun entry => ?_, fun inYield event target taken => ?_⟩
  · have refused : later.Refused task :=
      (refused_of_entry (entryRule_of_home reached) flag entry).run reached after
    exact ⟨refused.point, refused.place back governed⟩
  · have still : (later.tasks task).cancelled = true := by
      refine after.invariant_given (motive := fun middle => (middle.tasks task).cancelled = true)
        (fun _ between => flagged_of_home (reached.trans between)) flag ?_
      intro middle event target flagged flag _ taken
      exact cancelled_step flagged.registered flagged.toConsistent taken flag
    exact yield_step governed.toFlagged still inYield taken

/-- Task 1 is cancelled in the global queue. -/
def cancelFreshRun : List (SchedulerEvent n) :=
  [.spawn, .spawnCount 1, .spawnSchedule 1, .spawnRegister 1, .cancelTask 1 false]

/-- A worker takes the cancelled task and enters its fiber; the task is still at its
entry. -/
theorem cancelled_at_safepoint_cancelFresh :
    ∃ later : TaskScheduler 1,
      (later.workers 0).phase = .inFiber 1 ∧
      ((later.tasks 1).point = .entry ∨ (later.tasks 1).point = .invokeCancelled ∨
        (later.tasks 1).point = .over) ∧
      (1 ∈ later.globalQueue ∧ later.retired.count 1 = 0 ∨
        (∃ worker, (later.workers worker).phase.executing = some 1 ∧
          later.retired.count 1 = 0 ∧ later.RetiresOnce .ucLink worker 1) ∨
        later.retired.count 1 = 1) := by
  have evaluated : (runSteps (guarded (step .ucLink) (keepsStates .ucLink)) (start 1)
      cancelFreshRun).map (fun s => ((s.tasks 1).cancelled, (s.tasks 1).point)) =
        some (true, .entry) := by decide
  obtain ⟨scheduler, ran, facts⟩ := Option.map_eq_some_iff.mp evaluated
  obtain ⟨flag, entry⟩ := Prod.mk.inj facts
  have evaluatedLater : ((runSteps (guarded (step .ucLink) (keepsStates .ucLink)) (start 1)
      cancelFreshRun).bind fun s => (runSteps (guarded (step .ucLink) (keepsStates .ucLink)) s
        (.cancelStore :: List.replicate 4 (.worker 0 ⟨true, 0⟩)))).map
      (fun s => (s.workers 0).phase) = some (.inFiber 1) := by decide
  rw [ran, Option.bind_some] at evaluatedLater
  obtain ⟨later, ranLater, inside⟩ := Option.map_eq_some_iff.mp evaluatedLater
  have home : ∀ {first last : TaskScheduler 1} {events : List (SchedulerEvent 1)},
      runSteps (guarded (step .ucLink) (keepsStates .ucLink)) first events = some last →
        ReachableUnder (step .ucLink) (ReturnsHome .ucLink) first last :=
    reachableUnder_of_guarded fun _ _ passed => (keepsStates_sound passed).home
  have effective := (cancelled_at_safepoint (home ran) flag (home ranLater)).1 entry
  exact ⟨later, inside, effective.1, effective.2⟩

/-- Task 1 yields on the victim and is stolen; the victim enters task 2, which is then
cancelled. Task 1 ends on the thief, whose thread goes on in the context of the victim
and retires task 2; the victim retires it again. -/
def retiredTwiceRun (victim thief : Fin n) : List (SchedulerEvent n) :=
  List.flatten [
    stealRun victim thief,
    [.spawn, .spawnCount 2, .spawnSchedule 2, .spawnRegister 2],
    List.replicate 4 (.worker victim ⟨true, victim⟩),
    [.cancelTask 2 false]]

/-- The rest of that run. -/
def retiredTwiceRest (victim thief : Fin n) : List (SchedulerEvent n) :=
  [.cancelStore, .fiber thief .advance, .fiber thief .return, .fiber thief .advance,
    .fiber thief .advance, .worker thief ⟨true, victim⟩,
    .fiber victim .advance, .fiber victim .advance, .fiber victim .advance,
    .worker victim ⟨true, victim⟩, .worker victim ⟨true, victim⟩]

theorem refused_task_retired_twice :
    ¬ ∀ scheduler, Reachable (step .ucLink) (start 2) scheduler →
      ∀ task, (scheduler.tasks task).cancelled = true → (scheduler.tasks task).point = .entry →
        ∀ later, Reachable (step .ucLink) scheduler later → later.retired.count task ≤ 1 := by
  intro always
  have evaluated : (runSteps (step .ucLink) (start 2) (retiredTwiceRun 0 1)).map
      (fun s => ((s.tasks 2).cancelled, (s.tasks 2).point)) = some (true, .entry) := by
    decide
  obtain ⟨scheduler, ran, facts⟩ := Option.map_eq_some_iff.mp evaluated
  obtain ⟨flag, entry⟩ := Prod.mk.inj facts
  have evaluatedLater : ((runSteps (step .ucLink) (start 2) (retiredTwiceRun 0 1)).bind fun s =>
      runSteps (step .ucLink) s (retiredTwiceRest 0 1)).map (fun s => s.retired) =
        some [2, 2] := by
    decide
  rw [ran, Option.bind_some] at evaluatedLater
  obtain ⟨later, ranLater, retired⟩ := Option.map_eq_some_iff.mp evaluatedLater
  have once := always scheduler (reachable_of_runSteps ran) 2 flag entry later
    (reachable_of_runSteps ranLater)
  rw [retired] at once
  exact absurd once (by decide)

end Kode.Concurrency.TaskScheduler
