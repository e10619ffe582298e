/-
# Tasks that talk over a channel

A producer task sends its messages over one channel and closes it, a consumer task
receives until `receive` returns false, and any number of other tasks compute, yield,
spawn and throw. The tasks run on the scheduler, and the channel is the monitor: a
`send` or `receive` that has to wait does so on a condition variable of the operating
system. Neither hands the task back to the scheduler, so the worker thread that
executes the task sleeps with it, and nothing else runs on that worker.

A step of the whole system is a step of the scheduler outside the task functions, the
next instruction of a function, or a woken call that takes the channel's lock again.
Nobody cancels a task or stops a worker here.
-/

import Kode.Concurrency.ChannelWakeup
import Kode.Concurrency.SchedulerProgress
import Kode.Concurrency.SchedulerYield

namespace Kode.Concurrency

open Kode.Library

universe u v

/-- The caller is inside a wait, of `receive` or of `send`. -/
def Channel.Waits {ι : Type u} {T : Type v} (channel : Channel ι T) (caller : ι) : Prop :=
  caller ∈ channel.notEmpty.calls ∨ caller ∈ channel.notFull.calls.map Prod.fst

instance {ι : Type u} {T : Type v} [DecidableEq ι] (channel : Channel ι T) (caller : ι) :
    Decidable (channel.Waits caller) :=
  inferInstanceAs (Decidable (_ ∨ _))

/-- What a function may do besides talking over the channel. -/
inductive Action
  | compute
  | yield
  | spawn
  | throw
  deriving DecidableEq, Repr

/-- The step of the fiber that an action is. -/
def Action.fiberAction : Action → FiberAction
  | .compute => .compute
  | .yield => .yield
  | .spawn => .spawn
  | .throw => .throw

/-- One instruction of a task function. -/
inductive Instruction (T : Type u)
  | act (action : Action)
  | send (value : T)
  | close
  /-- `while (channel->receive(value)) {}`. -/
  | receiveAll
  deriving DecidableEq, Repr

/-- A program: which of the tasks is the producer, which the consumer, what the one
sends, and what the others do. Task ids start at 1. -/
structure Program (T : Type u) where
  producer : TaskId
  consumer : TaskId
  messages : List T
  others : TaskId → List Action
  distinct : producer ≠ consumer
  producer_pos : 0 < producer
  consumer_pos : 0 < consumer

/-- The function of a task. -/
def Program.code {T : Type u} (program : Program T) (task : TaskId) : List (Instruction T) :=
  if task = program.producer then program.messages.map .send ++ [.close]
  else if task = program.consumer then [.receiveAll]
  else (program.others task).map .act

/-- The scheduler, the channel, and what is left of each task's function. -/
structure Pipeline (n : ℕ) (T : Type u) where
  scheduler : TaskScheduler n
  channel : Channel TaskId T
  code : TaskId → List (Instruction T)

/-- One step of one thread. -/
inductive PipelineEvent (n : ℕ)
  /-- A step of the scheduler outside the task functions. -/
  | scheduler (event : SchedulerEvent n)
  /-- The next instruction of the task a worker executes. -/
  | instruct (worker : Fin n) (choice : ℕ)
  /-- The task a worker executes was woken in `send` and takes the lock. -/
  | resumeSend (worker : Fin n) (position choice : ℕ)
  | resumeReceive (worker : Fin n) (position choice : ℕ)
  /-- A waiting call wakes without a notification. -/
  | spuriousSender (position : ℕ)
  | spuriousReceiver (position : ℕ)
  deriving DecidableEq, Repr

/-- Nobody cancels a task or stops a worker, and a fiber takes by itself only the
steps outside its function. -/
def SchedulerEvent.isPlain {n : ℕ} : SchedulerEvent n → Bool
  | .cancelTask _ _ | .cancelStore | .stop _ => false
  | .fiber _ action => action = .advance
  | _ => true

theorem SchedulerEvent.isCalm_of_isPlain {n : ℕ} {event : SchedulerEvent n}
    (plain : event.isPlain = true) : event.isCalm = true := by
  cases event <;> simp_all [isPlain, isCalm]

namespace Pipeline

variable {n : ℕ} {T : Type u}

/-- The scheduler after `start`, a new channel, and the functions from their start. -/
def start (n capacity : ℕ) (program : Program T) : Pipeline n T :=
  { scheduler := .start n, channel := .create capacity, code := program.code }

/-- The task is inside a wait of the channel. -/
def Waiting (pipeline : Pipeline n T) (task : TaskId) : Prop :=
  pipeline.channel.Waits task

instance (pipeline : Pipeline n T) (task : TaskId) : Decidable (pipeline.Waiting task) :=
  inferInstanceAs (Decidable (pipeline.channel.Waits task))

/-- Whether the function goes on behind a call that gave this answer. A loop of
`receive` goes on behind the call that returned false. -/
def goesOn : Channel.Answer TaskId T → Bool
  | .sendReturned _ _ _ | .receiveReturned _ none => true
  | _ => false

/-- A call of the channel has answered. -/
def answered (pipeline : Pipeline n T) (task : TaskId)
    (outcome : Channel TaskId T × Channel.Answer TaskId T) : Pipeline n T :=
  { pipeline with
    channel := outcome.1
    code := Function.update pipeline.code task
      (if goesOn outcome.2 then (pipeline.code task).tail else pipeline.code task) }

/-- A step of the fiber after which this code is left. -/
def fiberStep (back : SwitchBack) (pipeline : Pipeline n T) (worker : Fin n) (task : TaskId)
    (action : FiberAction) (rest : List (Instruction T)) : Option (Pipeline n T) :=
  (pipeline.scheduler.fiberStep back worker task action).map fun scheduler =>
    { pipeline with scheduler, code := Function.update pipeline.code task rest }

/-- The next instruction of a task's function. A function without instructions left
returns. -/
def instruct (back : SwitchBack) (pipeline : Pipeline n T) (worker : Fin n) (task : TaskId)
    (choice : ℕ) : Option (Pipeline n T) :=
  match pipeline.code task with
  | [] => pipeline.fiberStep back worker task .return []
  | .act action :: rest => pipeline.fiberStep back worker task action.fiberAction rest
  | .send value :: _ => some (pipeline.answered task (pipeline.channel.send task value choice))
  | .receiveAll :: _ => some (pipeline.answered task (pipeline.channel.receive task choice))
  | .close :: rest => some { pipeline with
      channel := pipeline.channel.close
      code := Function.update pipeline.code task rest }

/-- The task of the worker's fiber. -/
def running (pipeline : Pipeline n T) (worker : Fin n) : Option TaskId :=
  match (pipeline.scheduler.workers worker).phase with
  | .inFiber task => some task
  | _ => none

/-- One step of any thread. -/
def step (back : SwitchBack) (pipeline : Pipeline n T) :
    PipelineEvent n → Option (Pipeline n T)
  | .scheduler event =>
      if event.isPlain then
        (pipeline.scheduler.step back event).map fun scheduler => { pipeline with scheduler }
      else none
  | .instruct worker choice =>
      (pipeline.running worker).bind fun task =>
        if (pipeline.scheduler.tasks task).point = .body ∧ ¬ pipeline.Waiting task then
          pipeline.instruct back worker task choice
        else none
  | .resumeSend worker position choice =>
      (pipeline.running worker).bind fun task =>
        if pipeline.channel.notFull.woken[position]?.map Prod.fst = some task then
          (pipeline.channel.step (.resumeSend position choice)).map (pipeline.answered task)
        else none
  | .resumeReceive worker position choice =>
      (pipeline.running worker).bind fun task =>
        if pipeline.channel.notEmpty.woken[position]? = some task then
          (pipeline.channel.step (.resumeReceive position choice)).map (pipeline.answered task)
        else none
  | .spuriousSender position =>
      (pipeline.channel.step (.spuriousSender position)).map fun outcome =>
        { pipeline with channel := outcome.1 }
  | .spuriousReceiver position =>
      (pipeline.channel.step (.spuriousReceiver position)).map fun outcome =>
        { pipeline with channel := outcome.1 }

/-- The event is a step of the worker's thread: of its loop, of the fiber it is in, of
the function, or of a `spawn` that the function called. -/
def StepOf (pipeline : Pipeline n T) (worker : Fin n) : PipelineEvent n → Prop
  | .scheduler (.worker acting _) | .scheduler (.fiber acting _) => acting = worker
  | .scheduler (.spawnCount child) | .scheduler (.spawnSchedule child)
  | .scheduler (.spawnRegister child) =>
      ∃ task, pipeline.running worker = some task ∧
        (pipeline.scheduler.tasks task).point = .spawning child
  | .instruct acting _ | .resumeSend acting _ _ | .resumeReceive acting _ _ => acting = worker
  | _ => False

/-- Some scheduled task is not retired, and no worker can take a step. -/
def Deadlocked (back : SwitchBack) (pipeline : Pipeline n T) : Prop :=
  (∃ task, (pipeline.scheduler.tasks task).spawn.isScheduled = true ∧
    task ∉ pipeline.scheduler.retired) ∧
  ∀ worker event, pipeline.StepOf worker event → pipeline.step back event = none

/-! ## What a step can do -/

/-- Everything a step can do. -/
inductive Move (back : SwitchBack) (pipeline : Pipeline n T) :
    PipelineEvent n → Pipeline n T → Prop
  | outside (event : SchedulerEvent n) (scheduler : TaskScheduler n)
      (plain : event.isPlain = true) (taken : pipeline.scheduler.step back event = some scheduler) :
      Move back pipeline (.scheduler event) { pipeline with scheduler }
  | fiber (worker : Fin n) (choice : ℕ) (task : TaskId) (action : FiberAction)
      (rest : List (Instruction T)) (scheduler : TaskScheduler n)
      (inside : (pipeline.scheduler.workers worker).phase = .inFiber task)
      (body : (pipeline.scheduler.tasks task).point = .body) (awake : ¬ pipeline.Waiting task)
      (next : pipeline.code task = [] ∧ rest = [] ∧ action = .return ∨
        ∃ act, pipeline.code task = .act act :: rest ∧ action = act.fiberAction)
      (taken : pipeline.scheduler.fiberStep back worker task action = some scheduler) :
      Move back pipeline (.instruct worker choice)
        { pipeline with scheduler, code := Function.update pipeline.code task rest }
  | send (worker : Fin n) (choice : ℕ) (task : TaskId) (value : T) (rest : List (Instruction T))
      (inside : (pipeline.scheduler.workers worker).phase = .inFiber task)
      (body : (pipeline.scheduler.tasks task).point = .body) (awake : ¬ pipeline.Waiting task)
      (next : pipeline.code task = .send value :: rest) :
      Move back pipeline (.instruct worker choice)
        (pipeline.answered task (pipeline.channel.send task value choice))
  | receive (worker : Fin n) (choice : ℕ) (task : TaskId) (rest : List (Instruction T))
      (inside : (pipeline.scheduler.workers worker).phase = .inFiber task)
      (body : (pipeline.scheduler.tasks task).point = .body) (awake : ¬ pipeline.Waiting task)
      (next : pipeline.code task = .receiveAll :: rest) :
      Move back pipeline (.instruct worker choice)
        (pipeline.answered task (pipeline.channel.receive task choice))
  | close (worker : Fin n) (choice : ℕ) (task : TaskId) (rest : List (Instruction T))
      (inside : (pipeline.scheduler.workers worker).phase = .inFiber task)
      (body : (pipeline.scheduler.tasks task).point = .body) (awake : ¬ pipeline.Waiting task)
      (next : pipeline.code task = .close :: rest) :
      Move back pipeline (.instruct worker choice) { pipeline with
        channel := pipeline.channel.close
        code := Function.update pipeline.code task rest }
  | resumeSend (worker : Fin n) (position choice : ℕ) (task : TaskId) (value : T)
      (others : CondVar (TaskId × T))
      (resumed : pipeline.channel.notFull.resume position = some ((task, value), others)) :
      Move back pipeline (.resumeSend worker position choice)
        (pipeline.answered task
          ({ pipeline.channel with notFull := others }.sendWait task value choice))
  | resumeReceive (worker : Fin n) (position choice : ℕ) (task : TaskId)
      (others : CondVar TaskId)
      (resumed : pipeline.channel.notEmpty.resume position = some (task, others)) :
      Move back pipeline (.resumeReceive worker position choice)
        (pipeline.answered task ({ pipeline.channel with notEmpty := others }.receive task choice))
  | spuriousSender (position : ℕ) :
      Move back pipeline (.spuriousSender position) { pipeline with
        channel := { pipeline.channel with notFull := pipeline.channel.notFull.rouse position } }
  | spuriousReceiver (position : ℕ) :
      Move back pipeline (.spuriousReceiver position) { pipeline with
        channel := { pipeline.channel with notEmpty := pipeline.channel.notEmpty.rouse position } }

theorem running_eq_some {pipeline : Pipeline n T} {worker : Fin n} {task : TaskId} :
    pipeline.running worker = some task ↔
      (pipeline.scheduler.workers worker).phase = .inFiber task := by
  unfold running
  split <;> simp_all

theorem instruct_move {back : SwitchBack} {pipeline target : Pipeline n T} {worker : Fin n}
    {task : TaskId} {choice : ℕ}
    (inside : (pipeline.scheduler.workers worker).phase = .inFiber task)
    (body : (pipeline.scheduler.tasks task).point = .body) (awake : ¬ pipeline.Waiting task)
    (taken : pipeline.instruct back worker task choice = some target) :
    Move back pipeline (.instruct worker choice) target := by
  unfold instruct fiberStep at taken
  split at taken
  · rename_i next
    obtain ⟨scheduler, stepped, rfl⟩ := Option.map_eq_some_iff.mp taken
    exact .fiber worker choice task _ [] scheduler inside body awake (Or.inl ⟨next, rfl, rfl⟩)
      stepped
  · rename_i action rest next
    obtain ⟨scheduler, stepped, rfl⟩ := Option.map_eq_some_iff.mp taken
    exact .fiber worker choice task _ rest scheduler inside body awake (Or.inr ⟨action, next, rfl⟩)
      stepped
  · rename_i value rest next
    obtain rfl := Option.some.inj taken
    exact .send worker choice task value rest inside body awake next
  · rename_i rest next
    obtain rfl := Option.some.inj taken
    exact .receive worker choice task rest inside body awake next
  · rename_i rest next
    obtain rfl := Option.some.inj taken
    exact .close worker choice task rest inside body awake next

/-- A call that takes the lock is the one at its position. -/
theorem resumed_caller {α : Type*} {cond others : CondVar α} {call caller : α} {position : ℕ}
    (resumed : cond.resume position = some (call, others))
    (present : cond.woken[position]? = some caller) : call = caller := by
  unfold CondVar.resume at resumed
  rw [present, Option.map_some, Option.some.injEq, Prod.mk.injEq] at resumed
  exact resumed.1.symm

/-- One step of the system is in the list. -/
theorem step_move {back : SwitchBack} {pipeline target : Pipeline n T} {event : PipelineEvent n}
    (taken : pipeline.step back event = some target) : Move back pipeline event target := by
  cases event with
  | scheduler event =>
      obtain ⟨plain, mapped⟩ := Option.ite_none_right_eq_some.mp taken
      obtain ⟨scheduler, stepped, rfl⟩ := Option.map_eq_some_iff.mp mapped
      exact .outside event scheduler plain stepped
  | instruct worker choice =>
      obtain ⟨task, inside, guardedStep⟩ := Option.bind_eq_some_iff.mp taken
      obtain ⟨⟨body, awake⟩, stepped⟩ := Option.ite_none_right_eq_some.mp guardedStep
      exact instruct_move (running_eq_some.mp inside) body awake stepped
  | resumeSend worker position choice =>
      obtain ⟨task, inside, guardedStep⟩ := Option.bind_eq_some_iff.mp taken
      obtain ⟨own, mapped⟩ := Option.ite_none_right_eq_some.mp guardedStep
      obtain ⟨outcome, stepped, rfl⟩ := Option.map_eq_some_iff.mp mapped
      obtain ⟨⟨⟨caller, value⟩, others⟩, resumed, rfl⟩ := Option.map_eq_some_iff.mp stepped
      obtain ⟨call, present, first⟩ := Option.map_eq_some_iff.mp own
      obtain rfl : caller = task := by
        rw [← first, ← resumed_caller resumed present]
      exact .resumeSend worker position choice caller value others resumed
  | resumeReceive worker position choice =>
      obtain ⟨task, inside, guardedStep⟩ := Option.bind_eq_some_iff.mp taken
      obtain ⟨own, mapped⟩ := Option.ite_none_right_eq_some.mp guardedStep
      obtain ⟨outcome, stepped, rfl⟩ := Option.map_eq_some_iff.mp mapped
      obtain ⟨⟨caller, others⟩, resumed, rfl⟩ := Option.map_eq_some_iff.mp stepped
      obtain rfl : caller = task := resumed_caller resumed own
      exact .resumeReceive worker position choice caller others resumed
  | spuriousSender position =>
      obtain rfl := Option.some.inj taken
      exact .spuriousSender position
  | spuriousReceiver position =>
      obtain rfl := Option.some.inj taken
      exact .spuriousReceiver position

/-! ## The scheduler of a pipeline -/

/-- Which of the two tasks is scheduled first. -/
inductive SpawnOrder
  | producerFirst
  | consumerFirst
  deriving DecidableEq, Repr

/-- The second of the two tasks is scheduled when the first has been. -/
def InOrder (program : Program T) (order : SpawnOrder) (pipeline : Pipeline n T)
    (event : PipelineEvent n) : Prop :=
  match order with
  | .producerFirst => event = .scheduler (.spawnSchedule program.consumer) →
      (pipeline.scheduler.tasks program.producer).spawn.isScheduled = true
  | .consumerFirst => event = .scheduler (.spawnSchedule program.producer) →
      (pipeline.scheduler.tasks program.consumer).spawn.isScheduled = true

/-- The steps of a run: fibers return to their workers, and the two tasks are spawned in
the given order. -/
structure Allowed (back : SwitchBack) (program : Program T) (order : SpawnOrder)
    (pipeline : Pipeline n T) (event : PipelineEvent n) : Prop where
  home : ∀ inner, event = .scheduler inner → pipeline.scheduler.ReturnsHome back inner
  inOrder : InOrder program order pipeline event

/-- A step of the system leaves the scheduler alone or is a calm step of it. -/
theorem Move.scheduler {back : SwitchBack} {pipeline target : Pipeline n T}
    {event : PipelineEvent n} (move : Move back pipeline event target)
    (home : ∀ inner, event = .scheduler inner → pipeline.scheduler.ReturnsHome back inner) :
    target.scheduler = pipeline.scheduler ∨
      ∃ inner, TaskScheduler.Calm back pipeline.scheduler inner ∧
        pipeline.scheduler.step back inner = some target.scheduler := by
  cases move with
  | outside inner scheduler plain taken =>
      exact Or.inr ⟨inner, ⟨home inner rfl, SchedulerEvent.isCalm_of_isPlain plain⟩, taken⟩
  | fiber worker choice task action rest scheduler inside body awake next taken =>
      refine Or.inr ⟨.fiber worker action, ⟨?_, rfl⟩, ?_⟩
      · rintro acting other running same within finished
        obtain ⟨rfl, rfl⟩ := SchedulerEvent.fiber.inj same
        obtain rfl : task = running := Phase.inFiber.inj (inside.symm.trans within)
        exact absurd (body.symm.trans finished) (by simp)
      · simpa only [TaskScheduler.step, inside] using taken
  | _ => exact Or.inl rfl

theorem scheduler_of_reachable {back : SwitchBack} {program : Program T} {order : SpawnOrder}
    {capacity : ℕ} {pipeline : Pipeline n T}
    (reached : ReachableUnder (step back) (Allowed back program order) (start n capacity program)
      pipeline) :
    ReachableUnder (TaskScheduler.step back) (TaskScheduler.Calm back) (.start n)
      pipeline.scheduler := by
  induction reached with
  | start => exact .start
  | next prior allowed taken ih =>
      rcases (step_move taken).scheduler allowed.home with same | ⟨inner, calm, stepped⟩
      · rw [same]
        exact ih
      · exact .next ih calm stepped

end Pipeline

end Kode.Concurrency
