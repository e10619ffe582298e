/-
# A pool of work

Jobs are handed in once. A worker takes one waiting job at a time, and gives it back to the
pool or finishes it before it takes another. The pool has no queues and no order; it only
says who may do what.

What a pool does can be seen from two sides: what one job goes through, and what one worker
goes through. Every job and every worker finds its own part of a run in order.
-/

import Kode.Library.StepSystem
import Mathlib.Data.List.Induction
import Mathlib.Logic.Function.Basic

namespace Kode.Library

universe u v

variable {ω : Type u} {ι : Type v}

/-- What has become of a job. -/
inductive JobStage (ω : Type u)
  | absent
  | waiting
  | held (worker : ω)
  | finished
  deriving DecidableEq, Repr

/-- What happens to a job. -/
inductive JobEvent (ω : Type u)
  | submit
  | take (worker : ω)
  | giveBack (worker : ω)
  | finish (worker : ω)
  deriving DecidableEq, Repr

/-- What happens to a worker. -/
inductive HandEvent (ι : Type v)
  | take (job : ι)
  | release (job : ι)
  deriving DecidableEq, Repr

/-- What happens in a pool. -/
structure PoolAction (ω : Type u) (ι : Type v) where
  job : ι
  event : JobEvent ω
  deriving DecidableEq, Repr

/-- A pool. A worker has in its hands exactly the job that it holds. -/
@[ext]
structure WorkPool (ω : Type u) (ι : Type v) where
  stage : ι → JobStage ω
  hands : ω → Option ι
  agree : ∀ worker job, stage job = .held worker ↔ hands worker = some job

/-! ## One job -/

namespace JobStage

variable [DecidableEq ω]

/-- The stages a job goes through. -/
def step : JobStage ω → JobEvent ω → Option (JobStage ω)
  | .absent, .submit => some .waiting
  | .waiting, .take worker => some (.held worker)
  | .held worker, .giveBack giver => if worker = giver then some .waiting else none
  | .held worker, .finish finisher => if worker = finisher then some .finished else none
  | _, _ => none

omit [DecidableEq ω] in
/-- The job was taken and given back by each of the workers in turn. -/
def stints (workers : List ω) : List (JobEvent ω) :=
  workers.flatMap fun worker => [.take worker, .giveBack worker]

/-- What a job must have gone through to be in a stage: it was handed in, then taken and
given back any number of times, each time by one worker; the worker that took it last may
have it still, or has finished it. -/
def Recorded : JobStage ω → List (JobEvent ω) → Prop
  | .absent, events => events = []
  | .waiting, events => ∃ workers, events = .submit :: stints workers
  | .held worker, events => ∃ workers, events = .submit :: stints workers ++ [.take worker]
  | .finished, events => ∃ workers worker,
      events = .submit :: stints workers ++ [.take worker, .finish worker]

/-- One more event. -/
theorem Recorded.step {stage next : JobStage ω} {events : List (JobEvent ω)}
    {event : JobEvent ω} (recorded : stage.Recorded events)
    (taken : stage.step event = some next) : next.Recorded (events ++ [event]) := by
  unfold JobStage.step at taken
  split at taken
  case h_1 =>
      obtain rfl := Option.some.inj taken
      obtain rfl : events = [] := recorded
      exact ⟨[], rfl⟩
  case h_2 worker =>
      obtain rfl := Option.some.inj taken
      obtain ⟨workers, rfl⟩ := recorded
      exact ⟨workers, rfl⟩
  case h_3 worker giver =>
      obtain ⟨rfl, same⟩ := Option.ite_none_right_eq_some.mp taken
      obtain rfl := Option.some.inj same
      obtain ⟨workers, rfl⟩ := recorded
      exact ⟨workers ++ [worker], by simp [stints]⟩
  case h_4 worker finisher =>
      obtain ⟨rfl, same⟩ := Option.ite_none_right_eq_some.mp taken
      obtain rfl := Option.some.inj same
      obtain ⟨workers, rfl⟩ := recorded
      exact ⟨workers, worker, by simp⟩
  case h_5 => cases taken

/-- A job records whatever happens to it. -/
theorem recorded_of_run {stage : JobStage ω} {events : List (JobEvent ω)}
    (ran : runSteps step .absent events = some stage) : stage.Recorded events := by
  induction events using List.reverseRecOn generalizing stage with
  | nil => cases ran; rfl
  | append_singleton events event ih =>
      rw [runSteps_append] at ran
      obtain ⟨middle, before, last⟩ := Option.bind_eq_some_iff.mp ran
      obtain ⟨next, taken, done⟩ := Option.bind_eq_some_iff.mp last
      obtain rfl : next = stage := Option.some.inj done
      exact (ih before).step taken

end JobStage

/-- The hands of a worker. -/
def handStep [DecidableEq ι] : Option ι → HandEvent ι → Option (Option ι)
  | none, .take job => some (some job)
  | some job, .release released => if job = released then some none else none
  | _, _ => none

namespace JobEvent

/-- The stage a job is in after an event. -/
def after : JobEvent ω → JobStage ω
  | .submit => .waiting
  | .take worker => .held worker
  | .giveBack _ => .waiting
  | .finish _ => .finished

/-- What an event of a job is for a worker. -/
def onHand [DecidableEq ω] (worker : ω) (job : ι) : JobEvent ω → Option (HandEvent ι)
  | .submit => none
  | .take taker => if taker = worker then some (.take job) else none
  | .giveBack holder | .finish holder => if holder = worker then some (.release job) else none

end JobEvent

namespace PoolAction

/-- The part of a list of actions that is about one job. -/
def ofJob [DecidableEq ι] (job : ι) (actions : List (PoolAction ω ι)) : List (JobEvent ω) :=
  actions.filterMap fun action => if action.job = job then some action.event else none

/-- The part of a list of actions that is about one worker. -/
def ofWorker [DecidableEq ω] (worker : ω) (actions : List (PoolAction ω ι)) :
    List (HandEvent ι) :=
  actions.filterMap fun action => action.event.onHand worker action.job

theorem ofJob_cons_self [DecidableEq ι] (action : PoolAction ω ι)
    (actions : List (PoolAction ω ι)) :
    ofJob action.job (action :: actions) = action.event :: ofJob action.job actions :=
  List.filterMap_cons_some (if_pos rfl)

theorem ofJob_cons_of_ne [DecidableEq ι] {action : PoolAction ω ι} {job : ι}
    (different : action.job ≠ job) (actions : List (PoolAction ω ι)) :
    ofJob job (action :: actions) = ofJob job actions :=
  List.filterMap_cons_none (if_neg different)

theorem ofWorker_cons_some [DecidableEq ω] {action : PoolAction ω ι} {worker : ω}
    {happens : HandEvent ι} (here : action.event.onHand worker action.job = some happens)
    (actions : List (PoolAction ω ι)) :
    ofWorker worker (action :: actions) = happens :: ofWorker worker actions :=
  List.filterMap_cons_some here

theorem ofWorker_cons_none [DecidableEq ω] {action : PoolAction ω ι} {worker : ω}
    (nothing : action.event.onHand worker action.job = none)
    (actions : List (PoolAction ω ι)) :
    ofWorker worker (action :: actions) = ofWorker worker actions :=
  List.filterMap_cons_none nothing

end PoolAction

namespace WorkPool

variable [DecidableEq ω] [DecidableEq ι]

omit [DecidableEq ω] [DecidableEq ι] in
theorem empty_agree (worker : ω) (job : ι) :
    JobStage.absent = .held worker ↔ (none : Option ι) = some job :=
  iff_of_false nofun nofun

omit [DecidableEq ω] [DecidableEq ι] in
/-- No job has been handed in. -/
def empty : WorkPool ω ι where
  stage _ := .absent
  hands _ := none
  agree := empty_agree

/-- The event may happen to the job. -/
def Enabled (pool : WorkPool ω ι) (job : ι) : JobEvent ω → Prop
  | .submit => pool.stage job = .absent
  | .take worker => pool.stage job = .waiting ∧ pool.hands worker = none
  | .giveBack worker | .finish worker => pool.hands worker = some job

instance (pool : WorkPool ω ι) (job : ι) (event : JobEvent ω) :
    Decidable (pool.Enabled job event) :=
  match event with
  | .submit => inferInstanceAs (Decidable (pool.stage job = .absent))
  | .take worker =>
      inferInstanceAs (Decidable (pool.stage job = .waiting ∧ pool.hands worker = none))
  | .giveBack worker | .finish worker =>
      inferInstanceAs (Decidable (pool.hands worker = some job))

/-- The hands after an event. -/
def handsAfter (pool : WorkPool ω ι) (job : ι) : JobEvent ω → ω → Option ι
  | .submit => pool.hands
  | .take worker => Function.update pool.hands worker (some job)
  | .giveBack worker | .finish worker => Function.update pool.hands worker none

/-- Only one worker can hold a job, so its hands and the stage of the job change together. -/
theorem agree_after (pool : WorkPool ω ι) {job : ι} {event : JobEvent ω}
    (enabled : pool.Enabled job event) (worker : ω) (other : ι) :
    Function.update pool.stage job event.after other = .held worker ↔
      pool.handsAfter job event worker = some other := by
  have agree := pool.agree worker other
  cases event with
  | submit =>
      have absent : pool.stage job = .absent := enabled
      by_cases same : other = job
      · subst same
        rw [absent] at agree
        simpa [JobEvent.after, handsAfter] using agree
      · simpa [handsAfter, same] using agree
  | take taker =>
      obtain ⟨waiting, free⟩ := enabled
      by_cases same : other = job <;> by_cases own : worker = taker
      · subst same own
        simp [JobEvent.after, handsAfter]
      · subst same
        rw [waiting] at agree
        simpa [JobEvent.after, handsAfter, own, Ne.symm own] using agree
      · subst own
        rw [free] at agree
        simpa [handsAfter, same, Ne.symm same] using agree
      · simpa [handsAfter, same, own] using agree
  | giveBack holder | finish holder =>
      have held : pool.hands holder = some job := enabled
      have stage : pool.stage job = .held holder := (pool.agree holder job).mpr held
      by_cases same : other = job <;> by_cases own : worker = holder
      · subst same own
        simp [JobEvent.after, handsAfter]
      · subst same
        rw [stage] at agree
        simpa [JobEvent.after, handsAfter, own, Ne.symm own] using agree
      · subst own
        rw [held] at agree
        simpa [handsAfter, same, Ne.symm same] using agree
      · simpa [handsAfter, same, own] using agree

/-- The pool after an event. -/
def perform (pool : WorkPool ω ι) (job : ι) (event : JobEvent ω)
    (enabled : pool.Enabled job event) : WorkPool ω ι where
  stage := Function.update pool.stage job event.after
  hands := pool.handsAfter job event
  agree := pool.agree_after enabled

/-- One action. -/
def step (pool : WorkPool ω ι) (action : PoolAction ω ι) : Option (WorkPool ω ι) :=
  if enabled : pool.Enabled action.job action.event then
    some (pool.perform action.job action.event enabled)
  else none

theorem step_eq_some_iff {pool next : WorkPool ω ι} {action : PoolAction ω ι} :
    pool.step action = some next ↔
      ∃ enabled, next = pool.perform action.job action.event enabled := by
  unfold step
  split_ifs with enabled
  · simp [enabled, eq_comm]
  · simp [enabled]

theorem step_of_enabled {pool : WorkPool ω ι} {action : PoolAction ω ι}
    (enabled : pool.Enabled action.job action.event) :
    pool.step action = some (pool.perform action.job action.event enabled) :=
  dif_pos enabled

/-! ## The two views -/

omit [DecidableEq ι] in
/-- What happens is in order for the job. -/
theorem Enabled.stage_step {pool : WorkPool ω ι} {job : ι} {event : JobEvent ω}
    (enabled : pool.Enabled job event) :
    (pool.stage job).step event = some event.after := by
  cases event with
  | submit =>
      have absent : pool.stage job = .absent := enabled
      rw [absent]
      rfl
  | take worker =>
      rw [enabled.1]
      rfl
  | giveBack worker | finish worker =>
      rw [(pool.agree worker job).mpr enabled]
      exact if_pos rfl

/-- And for the worker. -/
theorem Enabled.hand_step {pool : WorkPool ω ι} {job : ι} {event : JobEvent ω}
    (enabled : pool.Enabled job event) {worker : ω} {happens : HandEvent ι}
    (here : event.onHand worker job = some happens) :
    handStep (pool.hands worker) happens = some (pool.handsAfter job event worker) := by
  cases event with
  | submit => cases here
  | take taker =>
      obtain ⟨rfl, same⟩ := Option.ite_none_right_eq_some.mp here
      obtain rfl := Option.some.inj same
      rw [enabled.2, handsAfter, Function.update_self]
      rfl
  | giveBack holder | finish holder =>
      obtain ⟨rfl, same⟩ := Option.ite_none_right_eq_some.mp here
      obtain rfl := Option.some.inj same
      have held : pool.hands holder = some job := enabled
      rw [held, handsAfter, Function.update_self]
      exact if_pos rfl

theorem stage_perform_self {pool : WorkPool ω ι} {job : ι} {event : JobEvent ω}
    (enabled : pool.Enabled job event) :
    (pool.perform job event enabled).stage job = event.after :=
  Function.update_self _ _ _

theorem stage_perform_of_ne {pool : WorkPool ω ι} {job other : ι} {event : JobEvent ω}
    (enabled : pool.Enabled job event) (different : other ≠ job) :
    (pool.perform job event enabled).stage other = pool.stage other :=
  Function.update_of_ne different _ _

/-- A worker that an event is nothing for keeps what it has. -/
theorem hands_perform_of_none {pool : WorkPool ω ι} {job : ι} {event : JobEvent ω}
    (enabled : pool.Enabled job event) {worker : ω}
    (nothing : event.onHand worker job = none) :
    (pool.perform job event enabled).hands worker = pool.hands worker := by
  cases event with
  | submit => rfl
  | take holder | giveBack holder | finish holder =>
      have different : worker ≠ holder := by
        rintro rfl
        simp [JobEvent.onHand] at nothing
      exact Function.update_of_ne different _ _

/-- Every job sees its own part of a run. -/
theorem run_ofJob {pool later : WorkPool ω ι} {actions : List (PoolAction ω ι)}
    (ran : runSteps step pool actions = some later) (job : ι) :
    runSteps JobStage.step (pool.stage job) (PoolAction.ofJob job actions) =
      some (later.stage job) := by
  induction actions generalizing pool with
  | nil =>
      obtain rfl : pool = later := Option.some.inj ran
      rfl
  | cons action actions ih =>
      obtain ⟨next, taken, rest⟩ := Option.bind_eq_some_iff.mp ran
      obtain ⟨enabled, rfl⟩ := step_eq_some_iff.mp taken
      have remaining := ih rest
      by_cases own : action.job = job
      · subst own
        rw [stage_perform_self] at remaining
        rw [PoolAction.ofJob_cons_self, runSteps, enabled.stage_step, Option.bind_some]
        exact remaining
      · rw [stage_perform_of_ne enabled (Ne.symm own)] at remaining
        rw [PoolAction.ofJob_cons_of_ne own]
        exact remaining

/-- Every worker sees its own part of a run. -/
theorem run_ofWorker {pool later : WorkPool ω ι} {actions : List (PoolAction ω ι)}
    (ran : runSteps step pool actions = some later) (worker : ω) :
    runSteps handStep (pool.hands worker) (PoolAction.ofWorker worker actions) =
      some (later.hands worker) := by
  induction actions generalizing pool with
  | nil =>
      obtain rfl : pool = later := Option.some.inj ran
      rfl
  | cons action actions ih =>
      obtain ⟨next, taken, rest⟩ := Option.bind_eq_some_iff.mp ran
      obtain ⟨enabled, rfl⟩ := step_eq_some_iff.mp taken
      have remaining := ih rest
      cases happens : action.event.onHand worker action.job with
      | none =>
          rw [hands_perform_of_none enabled happens] at remaining
          rw [PoolAction.ofWorker_cons_none happens]
          exact remaining
      | some event =>
          rw [PoolAction.ofWorker_cons_some happens, runSteps, enabled.hand_step happens,
            Option.bind_some]
          exact remaining

end WorkPool

end Kode.Library
