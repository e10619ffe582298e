/-
# Every worker that is not asleep can go on

Only the producer ever waits for room and only the consumer for a message, each of them
in the fiber of one worker. A worker can take a step unless the task in its fiber is
asleep in the channel: outside the fibers the loop goes on, inside a fiber the function
goes on, and a woken call takes the lock.

So at most two workers can be stuck, and if they are, the producer finds the channel
full and the consumer finds it empty. No channel with room is both.
-/

import Kode.Concurrency.Pipeline

namespace Kode.Concurrency

open Kode.Library

universe u v

/-! ## Who waits on the channel -/

namespace Channel

variable {ι : Type u} {T : Type v}

/-- `send` puts nobody but its own caller into a wait. -/
theorem sendWait_calls (channel : Channel ι T) (caller : ι) (value : T) (choice : ℕ) :
    (channel.sendWait caller value choice).1.notEmpty.calls.Perm channel.notEmpty.calls ∧
      ((channel.sendWait caller value choice).1.notFull = channel.notFull ∨
        (channel.sendWait caller value choice).1.notFull =
          channel.notFull.wait (caller, value)) := by
  unfold sendWait
  split_ifs
  · exact ⟨.refl _, Or.inl rfl⟩
  · exact ⟨channel.notEmpty.calls_notifyOne choice, Or.inl rfl⟩
  · exact ⟨.refl _, Or.inr rfl⟩

theorem send_calls (channel : Channel ι T) (caller : ι) (value : T) (choice : ℕ) :
    (channel.send caller value choice).1.notEmpty.calls.Perm channel.notEmpty.calls ∧
      ((channel.send caller value choice).1.notFull = channel.notFull ∨
        (channel.send caller value choice).1.notFull =
          channel.notFull.wait (caller, value)) := by
  unfold send
  split_ifs
  · exact ⟨.refl _, Or.inl rfl⟩
  · exact channel.sendWait_calls caller value choice
  · exact ⟨channel.notEmpty.calls_notifyOne choice, Or.inl rfl⟩

/-- `receive` puts nobody but its own caller into a wait. -/
theorem receive_calls (channel : Channel ι T) (caller : ι) (choice : ℕ) :
    (channel.receive caller choice).1.notFull.calls.Perm channel.notFull.calls ∧
      ((channel.receive caller choice).1.notEmpty = channel.notEmpty ∨
        (channel.receive caller choice).1.notEmpty = channel.notEmpty.wait caller) := by
  unfold receive
  split
  · refine ⟨?_, Or.inl rfl⟩
    simp only [pop]
    split_ifs
    · exact channel.notFull.calls_notifyOne choice
    · exact .refl _
  · split_ifs
    · exact ⟨.refl _, Or.inl rfl⟩
    · exact ⟨.refl _, Or.inr rfl⟩

/-- Being woken takes nobody into a wait. -/
theorem waits_of_perm {channel after : Channel ι T} {caller : ι}
    (full : after.notFull.calls.Perm channel.notFull.calls)
    (empty : after.notEmpty.calls.Perm channel.notEmpty.calls) (waits : after.Waits caller) :
    channel.Waits caller :=
  waits.imp empty.mem_iff.mp (full.map Prod.fst).mem_iff.mp

theorem waits_of_sent {channel after : Channel ι T} {caller other : ι} {value : T}
    (calls : after.notEmpty.calls.Perm channel.notEmpty.calls ∧
      (after.notFull = channel.notFull ∨ after.notFull = channel.notFull.wait (caller, value)))
    (waits : after.Waits other) : channel.Waits other ∨ other = caller := by
  obtain ⟨empty, same | joined⟩ := calls
  · exact Or.inl (waits_of_perm (by rw [same]) empty waits)
  · rcases waits with receives | sends
    · exact Or.inl (Or.inl (empty.mem_iff.mp receives))
    · rw [joined, ((channel.notFull.calls_wait _).map Prod.fst).mem_iff, List.map_cons,
        List.mem_cons] at sends
      exact sends.symm.imp_left Or.inr

theorem waits_of_received {channel after : Channel ι T} {caller other : ι}
    (calls : after.notFull.calls.Perm channel.notFull.calls ∧
      (after.notEmpty = channel.notEmpty ∨ after.notEmpty = channel.notEmpty.wait caller))
    (waits : after.Waits other) : channel.Waits other ∨ other = caller := by
  obtain ⟨full, same | joined⟩ := calls
  · exact Or.inl (waits_of_perm full (by rw [same]) waits)
  · rcases waits with receives | sends
    · rw [joined, (channel.notEmpty.calls_wait _).mem_iff, List.mem_cons] at receives
      exact receives.symm.imp_left Or.inl
    · exact Or.inl (Or.inr ((full.map Prod.fst).mem_iff.mp sends))

/-- The calls left behind by one that takes the lock were there before. -/
theorem waits_of_resumeSend {channel : Channel ι T} {others : CondVar (ι × T)} {position : ℕ}
    {caller other : ι} {value : T}
    (resumed : channel.notFull.resume position = some ((caller, value), others))
    (waits : { channel with notFull := others }.Waits other ∨ other = caller) :
    channel.Waits other := by
  have leaves := (CondVar.calls_resume resumed).map Prod.fst
  rcases waits with (receives | sends) | rfl
  · exact Or.inl receives
  · exact Or.inr (leaves.mem_iff.mpr (List.mem_cons_of_mem _ sends))
  · exact Or.inr (leaves.mem_iff.mpr List.mem_cons_self)

theorem waits_of_resumeReceive {channel : Channel ι T} {others : CondVar ι} {position : ℕ}
    {caller other : ι} (resumed : channel.notEmpty.resume position = some (caller, others))
    (waits : { channel with notEmpty := others }.Waits other ∨ other = caller) :
    channel.Waits other := by
  have leaves := CondVar.calls_resume resumed
  rcases waits with (receives | sends) | rfl
  · exact Or.inl (leaves.mem_iff.mpr (List.mem_cons_of_mem _ receives))
  · exact Or.inr sends
  · exact Or.inl (leaves.mem_iff.mpr List.mem_cons_self)

end Channel

/-! ## Who runs which instruction -/

namespace Program

variable {T : Type u} {program : Program T} {task : TaskId}

theorem producer_of_send {value : T} (runs : .send value ∈ program.code task) :
    task = program.producer := by
  unfold code at runs
  split_ifs at runs with own
  · exact own
  · simp at runs
  · simp at runs

theorem consumer_of_receive (runs : .receiveAll ∈ program.code task) :
    task = program.consumer := by
  unfold code at runs
  split_ifs at runs with _ own
  · simp at runs
  · exact own
  · simp at runs

end Program

namespace Pipeline

variable {n : ℕ} {T : Type u} {program : Program T} {back : SwitchBack}
  {pipeline target : Pipeline n T} {event : PipelineEvent n}

/-- The two condition variables of a channel that one producer and one consumer use. -/
structure Callers (program : Program T) (channel : Channel TaskId T) : Prop where
  sender : ∀ call ∈ channel.notFull.calls, call.1 = program.producer
  receiver : ∀ caller ∈ channel.notEmpty.calls, caller = program.consumer
  oneSender : channel.notFull.calls.length ≤ 1
  oneReceiver : channel.notEmpty.calls.length ≤ 1

theorem callers_create (program : Program T) (capacity : ℕ) :
    Callers program (.create capacity) where
  sender _ waits := by cases waits
  receiver _ waits := by cases waits
  oneSender := Nat.zero_le _
  oneReceiver := Nat.zero_le _

/-- Being woken changes nothing about who waits. -/
theorem Callers.of_perm {channel after : Channel TaskId T} (callers : Callers program channel)
    (full : after.notFull.calls.Perm channel.notFull.calls)
    (empty : after.notEmpty.calls.Perm channel.notEmpty.calls) : Callers program after where
  sender call waits := callers.sender call (full.mem_iff.mp waits)
  receiver caller waits := callers.receiver caller (empty.mem_iff.mp waits)
  oneSender := full.length_eq ▸ callers.oneSender
  oneReceiver := empty.length_eq ▸ callers.oneReceiver

/-- The producer is in no wait and calls `send`, or takes the lock again in it. -/
theorem Callers.sent {channel after : Channel TaskId T} (callers : Callers program channel)
    (alone : channel.notFull.calls = []) {value : T}
    (calls : after.notEmpty.calls.Perm channel.notEmpty.calls ∧
      (after.notFull = channel.notFull ∨
        after.notFull = channel.notFull.wait (program.producer, value))) :
    Callers program after := by
  obtain ⟨empty, same | waits⟩ := calls
  · exact callers.of_perm (by rw [same]) empty
  · have only : after.notFull.calls.Perm [(program.producer, value)] := by
      rw [waits, ← alone]
      exact channel.notFull.calls_wait _
    exact
      { sender := fun call there => by
          rw [only.mem_iff, List.mem_singleton] at there
          rw [there]
        receiver := fun caller there => callers.receiver caller (empty.mem_iff.mp there)
        oneSender := only.length_eq.le
        oneReceiver := empty.length_eq ▸ callers.oneReceiver }

/-- The same of the consumer. -/
theorem Callers.received {channel after : Channel TaskId T} (callers : Callers program channel)
    (alone : channel.notEmpty.calls = [])
    (calls : after.notFull.calls.Perm channel.notFull.calls ∧
      (after.notEmpty = channel.notEmpty ∨
        after.notEmpty = channel.notEmpty.wait program.consumer)) :
    Callers program after := by
  obtain ⟨full, same | waits⟩ := calls
  · exact callers.of_perm full (by rw [same])
  · have only : after.notEmpty.calls.Perm [program.consumer] := by
      rw [waits, ← alone]
      exact channel.notEmpty.calls_wait _
    exact
      { sender := fun call there => callers.sender call (full.mem_iff.mp there)
        receiver := fun caller there => by rwa [only.mem_iff, List.mem_singleton] at there
        oneSender := full.length_eq ▸ callers.oneSender
        oneReceiver := only.length_eq.le }

/-- The one call that takes the lock again leaves nobody behind. -/
theorem alone_of_resume {α : Type*} {cond others : CondVar α} {position : ℕ} {call : α}
    (resumed : cond.resume position = some (call, others)) (one : cond.calls.length ≤ 1) :
    others.calls = [] ∧ call ∈ cond.calls := by
  have leaves := CondVar.calls_resume resumed
  rw [leaves.length_eq, List.length_cons] at one
  exact ⟨List.length_eq_zero_iff.mp (by omega), leaves.mem_iff.mpr List.mem_cons_self⟩

/-! ## What one producer and one consumer keep -/

/-- Functions run from start to end, and a task that waits does so in its function, in
the fiber of a worker. -/
structure Orderly (program : Program T) (pipeline : Pipeline n T) : Prop where
  code : ∀ task, pipeline.code task <:+ program.code task
  callers : Callers program pipeline.channel
  inside : ∀ task, pipeline.Waiting task →
    (∃ worker, (pipeline.scheduler.workers worker).phase = .inFiber task) ∧
      (pipeline.scheduler.tasks task).point = .body

theorem orderly_start (n capacity : ℕ) (program : Program T) :
    Orderly program (start n capacity program) where
  code _ := List.suffix_rfl
  callers := callers_create program capacity
  inside _ waits := by
    simp [Waiting, Channel.Waits, start, Channel.create, CondVar.calls, CondVar.empty] at waits

theorem suffix_update {code : TaskId → List (Instruction T)} {acting : TaskId}
    {rest : List (Instruction T)} (here : rest <:+ code acting) (task : TaskId) :
    Function.update code acting rest task <:+ code task := by
  by_cases same : task = acting
  · subst same
    rwa [Function.update_self]
  · rw [Function.update_of_ne same]

theorem suffix_answered (pipeline : Pipeline n T) (acting : TaskId)
    (outcome : Channel TaskId T × Channel.Answer TaskId T) (task : TaskId) :
    (pipeline.answered acting outcome).code task <:+ pipeline.code task := by
  refine suffix_update ?_ task
  split_ifs
  · exact List.tail_suffix _
  · exact List.suffix_rfl

theorem Move.code_suffix (move : Move back pipeline event target) (task : TaskId) :
    target.code task <:+ pipeline.code task := by
  cases move with
  | outside | spuriousSender | spuriousReceiver => exact List.suffix_rfl
  | fiber worker choice acting action rest scheduler inside body awake next taken =>
      refine suffix_update ?_ task
      rcases next with ⟨_, rfl, _⟩ | ⟨act, next, _⟩
      · exact List.nil_suffix
      · rw [next]
        exact List.suffix_cons _ _
  | close worker choice acting rest inside body awake next =>
      refine suffix_update ?_ task
      rw [next]
      exact List.suffix_cons _ _
  | _ => exact suffix_answered _ _ _ task

theorem Orderly.producer_of_send (orderly : Orderly program pipeline) {task : TaskId} {value : T}
    {rest : List (Instruction T)} (next : pipeline.code task = .send value :: rest) :
    task = program.producer :=
  Program.producer_of_send ((orderly.code task).mem (next ▸ List.mem_cons_self))

theorem Orderly.consumer_of_receive (orderly : Orderly program pipeline) {task : TaskId}
    {rest : List (Instruction T)} (next : pipeline.code task = .receiveAll :: rest) :
    task = program.consumer :=
  Program.consumer_of_receive ((orderly.code task).mem (next ▸ List.mem_cons_self))

/-- A task that is not waiting is alone with the condition variable it may wait on. -/
theorem Callers.noSender (callers : Callers program pipeline.channel)
    (awake : ¬ pipeline.Waiting program.producer) : pipeline.channel.notFull.calls = [] := by
  refine List.eq_nil_iff_forall_not_mem.mpr fun call waits => awake (Or.inr ?_)
  exact List.mem_map.mpr ⟨call, waits, callers.sender call waits⟩

theorem Callers.noReceiver (callers : Callers program pipeline.channel)
    (awake : ¬ pipeline.Waiting program.consumer) : pipeline.channel.notEmpty.calls = [] := by
  refine List.eq_nil_iff_forall_not_mem.mpr fun caller waits => awake (Or.inl ?_)
  rwa [← callers.receiver caller waits]

theorem Callers.move (orderly : Orderly program pipeline)
    (move : Move back pipeline event target) : Callers program target.channel := by
  have callers := orderly.callers
  cases move with
  | outside | fiber => exact callers
  | send worker choice task value rest inside body awake next =>
      obtain rfl := orderly.producer_of_send next
      exact callers.sent (callers.noSender awake) (Channel.send_calls _ _ value choice)
  | receive worker choice task rest inside body awake next =>
      obtain rfl := orderly.consumer_of_receive next
      exact callers.received (callers.noReceiver awake) (Channel.receive_calls _ _ choice)
  | close =>
      exact callers.of_perm (CondVar.calls_notifyAll _) (CondVar.calls_notifyAll _)
  | resumeSend worker position choice task value others resumed =>
      obtain ⟨alone, waits⟩ := alone_of_resume resumed callers.oneSender
      obtain rfl : task = program.producer := callers.sender _ waits
      have left : Callers program { pipeline.channel with notFull := others } :=
        ⟨by simp [alone], callers.receiver, by simp [alone], callers.oneReceiver⟩
      exact left.sent alone (Channel.sendWait_calls _ _ value choice)
  | resumeReceive worker position choice task others resumed =>
      obtain ⟨alone, waits⟩ := alone_of_resume resumed callers.oneReceiver
      obtain rfl : task = program.consumer := callers.receiver _ waits
      have left : Callers program { pipeline.channel with notEmpty := others } :=
        ⟨callers.sender, by simp [alone], callers.oneSender, by simp [alone]⟩
      exact left.received alone (Channel.receive_calls _ _ choice)
  | spuriousSender position => exact callers.of_perm (CondVar.calls_rouse _ _) (.refl _)
  | spuriousReceiver position => exact callers.of_perm (.refl _) (CondVar.calls_rouse _ _)

/-! ## A waiting task stays where it is -/

/-- A fiber in its function takes no step by itself. -/
theorem fiber_plain {scheduler after : TaskScheduler n} {inner : SchedulerEvent n} {task : TaskId}
    (plain : inner.isPlain = true) (taken : scheduler.step back inner = some after)
    (body : (scheduler.tasks task).point = .body) : ¬ scheduler.FiberStepOf inner task := by
  rintro ⟨worker, action, rfl, inside⟩
  obtain rfl : action = .advance := by simpa [SchedulerEvent.isPlain] using plain
  simp [TaskScheduler.step, inside, TaskScheduler.fiberStep, body] at taken

/-- A task in its function stays in it unless the event is a step of its own fiber. -/
theorem stays_inside {scheduler after : TaskScheduler n} {inner : SchedulerEvent n}
    (consistent : scheduler.Consistent) (taken : scheduler.step back inner = some after)
    {task : TaskId} (foreign : ¬ scheduler.FiberStepOf inner task) {worker : Fin n}
    (inside : (scheduler.workers worker).phase = .inFiber task)
    (body : (scheduler.tasks task).point = .body) :
    (after.workers worker).phase = .inFiber task ∧ (after.tasks task).point = .body := by
  constructor
  · cases TaskScheduler.step_worker consistent.onTrack taken worker with
    | same queue phase _ => exact phase.trans inside
    | stolen thief stolen queue phase _ hands => exact phase.trans inside
    | own step =>
        cases inner with
        | worker acting choice =>
            obtain rfl : acting = worker := step
            simp [TaskScheduler.step, TaskScheduler.workerStep, inside] at taken
        | fiber acting action =>
            obtain rfl : acting = worker := step
            exact absurd ⟨acting, action, rfl, inside⟩ foreign
        | _ => cases step
  · have earlier := TaskScheduler.executing_lt_next consistent.sound
      (Phase.executing_of_inFiber inside)
    have move := TaskScheduler.step_task consistent taken task
    generalize after.tasks task = changed at move ⊢
    cases move with
    | allocate spawner new => exact absurd new earlier.ne
    | spawned => rfl
    | enter entering before => simp [body]
    | goto point own move => exact absurd own foreign
    | spawn child before own => exact absurd own foreign
    | store state point move =>
        rw [body] at move
        cases move
    | switchOut before => exact absurd (body.symm.trans before) (by simp)
    | _ => exact body

/-- A task comes into a wait only by a call of its own. -/
theorem Move.waiting (move : Move back pipeline event target) {task : TaskId}
    (waits : target.Waiting task) :
    pipeline.Waiting task ∨ target.scheduler = pipeline.scheduler ∧
      (∃ worker, (pipeline.scheduler.workers worker).phase = .inFiber task) ∧
        (pipeline.scheduler.tasks task).point = .body := by
  cases move with
  | outside | fiber => exact Or.inl waits
  | send worker choice acting value rest inside body awake next =>
      have sent := Channel.send_calls pipeline.channel acting value choice
      rcases Channel.waits_of_sent sent waits with before | rfl
      · exact Or.inl before
      · exact Or.inr ⟨rfl, ⟨worker, inside⟩, body⟩
  | receive worker choice acting rest inside body awake next =>
      rcases Channel.waits_of_received (Channel.receive_calls _ acting choice) waits with
        before | rfl
      · exact Or.inl before
      · exact Or.inr ⟨rfl, ⟨worker, inside⟩, body⟩
  | close =>
      exact Or.inl (Channel.waits_of_perm (CondVar.calls_notifyAll _) (CondVar.calls_notifyAll _)
        waits)
  | resumeSend worker position choice acting value others resumed =>
      exact Or.inl (Channel.waits_of_resumeSend resumed
        (Channel.waits_of_sent (Channel.sendWait_calls _ acting value choice) waits))
  | resumeReceive worker position choice acting others resumed =>
      exact Or.inl (Channel.waits_of_resumeReceive resumed
        (Channel.waits_of_received (Channel.receive_calls _ acting choice) waits))
  | spuriousSender position =>
      refine Or.inl (Channel.waits_of_perm ?_ ?_ waits)
      · exact CondVar.calls_rouse _ position
      · exact .refl _
  | spuriousReceiver position =>
      refine Or.inl (Channel.waits_of_perm ?_ ?_ waits)
      · exact .refl _
      · exact CondVar.calls_rouse _ position

theorem Orderly.move (orderly : Orderly program pipeline)
    (consistent : pipeline.scheduler.Consistent) (move : Move back pipeline event target) :
    Orderly program target where
  code task := (move.code_suffix task).trans (orderly.code task)
  callers := Callers.move orderly move
  inside task waits := by
    rcases move.waiting waits with before | ⟨same, there⟩
    · obtain ⟨⟨worker, inside⟩, body⟩ := orderly.inside task before
      cases move with
      | outside inner scheduler plain taken =>
          obtain ⟨phase, point⟩ :=
            stays_inside consistent taken (fiber_plain plain taken body) inside body
          exact ⟨⟨worker, phase⟩, point⟩
      | fiber acting choice other action rest scheduler within _ awake next taken =>
          have foreign : ¬ pipeline.scheduler.FiberStepOf (.fiber acting action) task := by
            rintro ⟨_, _, same, own⟩
            obtain ⟨rfl, rfl⟩ := SchedulerEvent.fiber.inj same
            obtain rfl := Phase.inFiber.inj (own.symm.trans within)
            exact awake before
          have stepped : pipeline.scheduler.step back (.fiber acting action) = some scheduler := by
            simpa only [TaskScheduler.step, within] using taken
          obtain ⟨phase, point⟩ := stays_inside consistent stepped foreign inside body
          exact ⟨⟨worker, phase⟩, point⟩
      | _ => exact ⟨⟨worker, inside⟩, body⟩
    · rwa [same]

/-! ## The channel of a run -/

/-- A step of the system leaves the channel alone or is a step of the monitor. -/
theorem Move.channel (move : Move back pipeline event target) :
    target.channel = pipeline.channel ∨ ∃ inner answer,
      pipeline.channel.step inner = some (target.channel, answer) := by
  cases move with
  | outside | fiber => exact Or.inl rfl
  | send worker choice task value =>
      exact Or.inr ⟨.send task value choice, _, rfl⟩
  | receive worker choice task => exact Or.inr ⟨.receive task choice, _, rfl⟩
  | close => exact Or.inr ⟨.close, _, rfl⟩
  | resumeSend worker position choice task value others resumed =>
      refine Or.inr ⟨.resumeSend position choice,
        ({ pipeline.channel with notFull := others }.sendWait task value choice).2, ?_⟩
      rw [Channel.step, resumed]
      rfl
  | resumeReceive worker position choice task others resumed =>
      refine Or.inr ⟨.resumeReceive position choice,
        ({ pipeline.channel with notEmpty := others }.receive task choice).2, ?_⟩
      rw [Channel.step, resumed]
      rfl
  | spuriousSender position => exact Or.inr ⟨.spuriousSender position, _, rfl⟩
  | spuriousReceiver position => exact Or.inr ⟨.spuriousReceiver position, _, rfl⟩

/-- What holds in every state of a run. -/
structure Sound (program : Program T) (capacity : ℕ) (pipeline : Pipeline n T) : Prop where
  untroubled : pipeline.scheduler.Untroubled
  orderly : Orderly program pipeline
  balanced : pipeline.channel.Balanced 0 0
  bounded : pipeline.channel.capacity = capacity

theorem balanced_of_reachable {order : SpawnOrder} {capacity : ℕ}
    (reached : ReachableUnder (step back) (Allowed back program order) (start n capacity program)
      pipeline) :
    pipeline.channel.Balanced 0 0 ∧ pipeline.channel.capacity = capacity := by
  refine reached.invariant (motive := fun state =>
    state.channel.Balanced 0 0 ∧ state.channel.capacity = capacity)
      ⟨Channel.balanced_create capacity, rfl⟩ ?_
  rintro state event target ⟨balanced, bounded⟩ _ taken
  rcases (step_move taken).channel with same | ⟨inner, answer, stepped⟩
  · rw [same]
    exact ⟨balanced, bounded⟩
  · refine ⟨Channel.balanced_step balanced stepped, ?_⟩
    cases Channel.step_effect stepped with
    | accept _ kept | deliver _ kept | quiet kept => exact kept.trans bounded

theorem sound_of_reachable {order : SpawnOrder} {capacity : ℕ}
    (reached : ReachableUnder (step back) (Allowed back program order) (start n capacity program)
      pipeline) : Sound program capacity pipeline := by
  have untroubled : ∀ state, ReachableUnder (step back) (Allowed back program order)
      (start n capacity program) state → state.scheduler.Untroubled :=
    fun _ prior => TaskScheduler.untroubled_of_calm (scheduler_of_reachable prior)
  have orderly : Orderly program pipeline :=
    reached.invariant_given untroubled (orderly_start n capacity program)
      fun _ _ _ known before _ taken => before.move known.toConsistent (step_move taken)
  obtain ⟨balanced, bounded⟩ := balanced_of_reachable reached
  exact ⟨untroubled pipeline reached, orderly, balanced, bounded⟩

/-! ## Who can go on -/

/-- The task sleeps in the channel. -/
def Asleep (pipeline : Pipeline n T) (task : TaskId) : Prop :=
  task ∈ pipeline.channel.notEmpty.asleep ∨
    task ∈ pipeline.channel.notFull.asleep.map Prod.fst

/-- Some step of the worker's thread is possible. -/
def CanStep (back : SwitchBack) (pipeline : Pipeline n T) (worker : Fin n) : Prop :=
  ∃ event, pipeline.StepOf worker event ∧ pipeline.step back event ≠ none

theorem step_scheduler {inner : SchedulerEvent n} (plain : inner.isPlain = true)
    (enabled : pipeline.scheduler.step back inner ≠ none) :
    pipeline.step back (.scheduler inner) ≠ none := by
  simpa [step, plain] using enabled

/-- A worker outside the fibers goes on in its loop. -/
theorem canStep_of_outside (untroubled : pipeline.scheduler.Untroubled) {worker : Fin n}
    (outside : ∀ task, (pipeline.scheduler.workers worker).phase ≠ .inFiber task) :
    CanStep back pipeline worker := by
  obtain ⟨choice, enabled⟩ :=
    TaskScheduler.workerStep_enabled untroubled.toUndisturbed untroubled.onTrack outside
  exact ⟨.scheduler (.worker worker choice), rfl, step_scheduler rfl enabled⟩

/-- A fiber outside its function goes on, or the `spawn` it called does. -/
theorem canStep_of_notBody (untroubled : pipeline.scheduler.Untroubled) {worker : Fin n}
    {task : TaskId} (inside : (pipeline.scheduler.workers worker).phase = .inFiber task)
    (outside : (pipeline.scheduler.tasks task).point ≠ .body) :
    CanStep back pipeline worker := by
  by_cases calls : ∃ child, (pipeline.scheduler.tasks task).point = .spawning child
  · obtain ⟨child, call⟩ := calls
    have own : ∃ task, pipeline.running worker = some task ∧
        (pipeline.scheduler.tasks task).point = .spawning child :=
      ⟨task, running_eq_some.mpr inside, call⟩
    rcases TaskScheduler.spawn_enabled untroubled.toUndisturbed call with
      count | schedule | register
    · exact ⟨.scheduler (.spawnCount child), own, step_scheduler rfl count⟩
    · exact ⟨.scheduler (.spawnSchedule child), own, step_scheduler rfl schedule⟩
    · exact ⟨.scheduler (.spawnRegister child), own, step_scheduler rfl register⟩
  · have running : (pipeline.scheduler.tasks task).point ≠ .suspended := by
      have held := untroubled.governs.held worker task (Phase.executing_of_inFiber inside)
      rw [inside] at held
      exact held.1
    refine ⟨.scheduler (.fiber worker .advance), rfl, step_scheduler rfl ?_⟩
    simp only [TaskScheduler.step, inside]
    exact TaskScheduler.fiberStep_enabled outside running fun child call => calls ⟨child, call⟩

/-- A function that is not in a wait goes on. -/
theorem canStep_of_body {worker : Fin n} {task : TaskId}
    (inside : (pipeline.scheduler.workers worker).phase = .inFiber task)
    (body : (pipeline.scheduler.tasks task).point = .body) (awake : ¬ pipeline.Waiting task) :
    CanStep back pipeline worker := by
  refine ⟨.instruct worker 0, rfl, ?_⟩
  simp only [step, running_eq_some.mpr inside, Option.bind_some, body, awake, not_false_eq_true,
    and_self, if_true]
  unfold instruct
  split
  · simp [fiberStep, TaskScheduler.fiberStep, body]
  · rename_i action rest next
    cases action <;> simp [fiberStep, TaskScheduler.fiberStep, Action.fiberAction, body]
    split_ifs <;> simp
  · simp
  · simp
  · simp

/-- A woken call takes the lock. -/
theorem canStep_of_woken {worker : Fin n} {task : TaskId}
    (inside : (pipeline.scheduler.workers worker).phase = .inFiber task)
    (waits : pipeline.Waiting task) (woken : ¬ pipeline.Asleep task) :
    CanStep back pipeline worker := by
  rcases waits with receives | sends
  · have ready : task ∈ pipeline.channel.notEmpty.woken :=
      (List.mem_append.mp receives).resolve_left fun asleep => woken (Or.inl asleep)
    obtain ⟨position, present⟩ := List.mem_iff_getElem?.mp ready
    refine ⟨.resumeReceive worker position 0, rfl, ?_⟩
    simp [step, running_eq_some.mpr inside, present, Channel.step, CondVar.resume]
  · obtain ⟨⟨caller, value⟩, there, rfl⟩ := List.mem_map.mp sends
    have ready : (caller, value) ∈ pipeline.channel.notFull.woken :=
      (List.mem_append.mp there).resolve_left fun asleep =>
        woken (Or.inr (List.mem_map.mpr ⟨_, asleep, rfl⟩))
    obtain ⟨position, present⟩ := List.mem_iff_getElem?.mp ready
    refine ⟨.resumeSend worker position 0, rfl, ?_⟩
    simp [step, running_eq_some.mpr inside, present, Channel.step, CondVar.resume]

/-- A worker that cannot go on is in the fiber of a task that sleeps. -/
theorem asleep_of_stuck (untroubled : pipeline.scheduler.Untroubled) {worker : Fin n}
    (stuck : ¬ CanStep back pipeline worker) :
    ∃ task, (pipeline.scheduler.workers worker).phase = .inFiber task ∧ pipeline.Asleep task := by
  by_contra nobody
  apply stuck
  by_cases inFiber : ∃ task, (pipeline.scheduler.workers worker).phase = .inFiber task
  · obtain ⟨task, inside⟩ := inFiber
    by_cases body : (pipeline.scheduler.tasks task).point = .body
    · by_cases waits : pipeline.Waiting task
      · exact canStep_of_woken inside waits fun asleep => nobody ⟨task, inside, asleep⟩
      · exact canStep_of_body inside body waits
    · exact canStep_of_notBody untroubled inside body
  · exact canStep_of_outside untroubled fun task inside => inFiber ⟨task, inside⟩

theorem not_canStep_of_deadlocked (deadlocked : Deadlocked back pipeline) (worker : Fin n) :
    ¬ CanStep back pipeline worker := by
  rintro ⟨event, own, enabled⟩
  exact enabled (deadlocked.2 worker event own)

/-! ## Two workers are enough -/

/-- No two workers are in the fiber of one task. -/
theorem fibers_differ {scheduler : TaskScheduler n} (sound : scheduler.ledger.Sound)
    {worker other : Fin n} {task : TaskId} (different : worker ≠ other)
    (inside : (scheduler.workers worker).phase = .inFiber task) :
    (scheduler.workers other).phase ≠ .inFiber task := by
  intro twice
  have here := TaskScheduler.timesAt_executing_pos.mpr (Phase.executing_of_inFiber inside)
  have there := TaskScheduler.timesAt_executing_pos.mpr (Phase.executing_of_inFiber twice)
  have nowhere := TaskScheduler.alone_of_timesAt sound here
    (show TaskScheduler.Place.executing other ≠ .executing worker by simpa using different.symm)
  omega

/-- A task that sleeps is the consumer at an empty channel or the producer at a full
one. -/
theorem Sound.asleep {capacity : ℕ} (sound : Sound program capacity pipeline) {task : TaskId}
    (asleep : pipeline.Asleep task) :
    task = program.consumer ∧ pipeline.channel.buffer = [] ∨
      task = program.producer ∧ capacity ≤ pipeline.channel.buffer.length := by
  have callers := sound.orderly.callers
  rcases asleep with receives | sends
  · left
    refine ⟨callers.receiver task (CondVar.mem_calls_of_asleep receives), ?_⟩
    obtain ⟨_, count⟩ := sound.balanced.receivers (List.ne_nil_of_mem receives)
    have one := callers.oneReceiver
    have some := List.length_pos_of_mem receives
    rw [CondVar.calls, List.length_append] at one
    exact List.length_eq_zero_iff.mp (by omega)
  · right
    obtain ⟨call, there, rfl⟩ := List.mem_map.mp sends
    refine ⟨callers.sender call (CondVar.mem_calls_of_asleep there), ?_⟩
    obtain ⟨_, count⟩ := sound.balanced.senders (List.ne_nil_of_mem there)
    have one := callers.oneSender
    have some := List.length_pos_of_mem there
    rw [CondVar.calls, List.length_append] at one
    have bounded := sound.bounded
    omega

/-- Of two workers one can go on. -/
theorem Sound.canStep_of_two {capacity : ℕ} (sound : Sound program capacity pipeline)
    (back : SwitchBack) (positive : 0 < capacity) {worker other : Fin n}
    (different : worker ≠ other) :
    CanStep back pipeline worker ∨ CanStep back pipeline other := by
  by_contra neither
  obtain ⟨stuck, stuckToo⟩ := not_or.mp neither
  obtain ⟨first, inside, asleep⟩ := asleep_of_stuck sound.untroubled stuck
  obtain ⟨second, insideToo, asleepToo⟩ := asleep_of_stuck sound.untroubled stuckToo
  have distinct : first ≠ second := by
    rintro rfl
    exact fibers_differ sound.untroubled.sound different inside insideToo
  rcases sound.asleep asleep with ⟨rfl, empty⟩ | ⟨rfl, full⟩ <;>
    rcases sound.asleep asleepToo with ⟨rfl, emptyToo⟩ | ⟨rfl, fullToo⟩
  · exact distinct rfl
  · rw [empty, List.length_nil] at fullToo
    omega
  · rw [emptyToo, List.length_nil] at full
    omega
  · exact distinct rfl

theorem Sound.not_deadlocked {capacity : ℕ} (sound : Sound program capacity pipeline)
    (positive : 0 < capacity) (several : 2 ≤ n) : ¬ Deadlocked back pipeline := by
  intro deadlocked
  have different : (⟨0, by omega⟩ : Fin n) ≠ ⟨1, by omega⟩ := by simp
  rcases sound.canStep_of_two back positive different with enabled | enabled
  · exact not_canStep_of_deadlocked deadlocked _ enabled
  · exact not_canStep_of_deadlocked deadlocked _ enabled

end Pipeline

end Kode.Concurrency
