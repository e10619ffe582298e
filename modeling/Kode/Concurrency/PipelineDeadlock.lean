/-
# When channel programs deadlock

With two or more workers a program of one producer and one consumer always goes on.
With one worker it depends on who is first. The worker takes tasks up in the order in
which they were spawned, and sleeps with a task that waits in the channel. A consumer
that comes first waits for messages that nobody can send any more. A producer that
comes first gets through if the channel has room for everything it sends: then it never
waits, closes the channel, and the consumer finds the messages there. If the channel
has less room, the producer waits for a consumer that never gets the worker.
-/

import Kode.Concurrency.PipelineProgress

namespace Kode.Concurrency

open Kode.Library

universe u

namespace TaskScheduler

variable {n : ℕ} {back : SwitchBack} {scheduler target : TaskScheduler n}
  {event : SchedulerEvent n}

/-- Everything a step can do to the global queue. -/
inductive QueueChange (scheduler target : TaskScheduler n) (event : SchedulerEvent n) : Prop
  | same (queue : target.globalQueue = scheduler.globalQueue)
      (event : ∀ task, event ≠ .spawnSchedule task)
  | append (task : TaskId) (scheduled : event = .spawnSchedule task)
      (queue : target.globalQueue = scheduler.globalQueue ++ [task])
  | take (worker : Fin n) (choice : StealChoice n) (task : TaskId)
      (taken : event = .worker worker choice)
      (queue : scheduler.globalQueue = task :: target.globalQueue)
      (idle : (scheduler.workers worker).phase.holds = none)
      (phase : (target.workers worker).phase = .prepare task)
      (tasks : target.tasks = scheduler.tasks)

theorem step_globalQueue (taken : scheduler.step back event = some target) :
    QueueChange scheduler target event := by
  rcases step_move taken with
    move | ⟨worker, choice, rfl, move⟩ | ⟨worker, action, running, rfl, inside, move⟩
  · cases move with
    | schedule task stage => exact .append task rfl rfl
    | _ => exact .same rfl (by simp)
  · cases move with
    | takeGlobal task rest before queue =>
        refine .take worker choice task rfl ?_ before ?_ rfl
        · simp [takeGlobal, setPhase, setWorker, queue]
        · simp [takeGlobal, setPhase, setWorker]
    | _ => exact .same rfl (by simp)
  · cases move <;> exact .same rfl (by simp)

/-- A change of one task does not schedule another one. -/
theorem unscheduled_update {changed task : TaskId} {after : Task n}
    (tasks : target.tasks = Function.update scheduler.tasks changed after)
    (unscheduled : (scheduler.tasks task).spawn.isScheduled = false)
    (here : task = changed → after.spawn.isScheduled = false) :
    (target.tasks task).spawn.isScheduled = false := by
  rw [tasks]
  by_cases same : task = changed
  · subst same
    rw [Function.update_self]
    exact here rfl
  · rwa [Function.update_of_ne same]

/-- A task is scheduled by its own `schedule_task` only. -/
theorem unscheduled_step (taken : scheduler.step back event = some target) {task : TaskId}
    (unscheduled : (scheduler.tasks task).spawn.isScheduled = false)
    (other : event ≠ .spawnSchedule task) : (target.tasks task).spawn.isScheduled = false := by
  have register : ∀ {child : TaskId}, (scheduler.tasks child).spawn = .scheduled →
      task ≠ child := by
    rintro child stage rfl
    rw [stage] at unscheduled
    cases unscheduled
  rcases step_move taken with
    move | ⟨worker, choice, rfl, move⟩ | ⟨worker, action, running, rfl, inside, move⟩
  · cases move with
    | allocate => exact unscheduled_update rfl unscheduled fun _ => rfl
    | count child stage => exact unscheduled_update rfl unscheduled fun _ => rfl
    | schedule child stage =>
        exact unscheduled_update rfl unscheduled fun same => absurd (same ▸ rfl) other
    | register child stage outside =>
        exact unscheduled_update rfl unscheduled fun same => absurd same (register stage)
    | registerChild child parent stage spawner =>
        have kept : ((scheduler.setTask child
            fun current => { current with spawn := .registered }).tasks task).spawn.isScheduled =
              false :=
          unscheduled_update rfl unscheduled fun same => absurd same (register stage)
        exact unscheduled_update rfl kept fun same => same ▸ kept
    | cancelFlag child expired known =>
        exact unscheduled_update rfl unscheduled fun same => same ▸ unscheduled
    | cancelState child cancelling =>
        exact unscheduled_update rfl unscheduled fun same => same ▸ unscheduled
    | _ => exact unscheduled
  · cases move with
    | enter entered before =>
        exact unscheduled_update rfl unscheduled fun same => same ▸ unscheduled
    | _ => exact unscheduled
  · cases move with
    | stay | finish => exact unscheduled
    | spawn body =>
        have kept : ((scheduler.allocate (some running)).tasks task).spawn.isScheduled = false :=
          unscheduled_update rfl unscheduled fun _ => rfl
        exact unscheduled_update rfl kept fun same => same ▸ kept
    | _ => exact unscheduled_update rfl unscheduled fun same => same ▸ unscheduled

end TaskScheduler

namespace Pipeline

variable {T : Type u} {program : Program T} {back : SwitchBack}

/-! ## One worker, the producer first -/

/-- The one worker. -/
def worker : Fin 1 := 0

/-- The producer has not been taken up, or is on its way through its function, and the
consumer is behind it. -/
inductive Placed (program : Program T) (scheduler : TaskScheduler 1) : Prop
  | outside
      (producer : (scheduler.tasks program.producer).spawn.isScheduled = false)
      (consumer : (scheduler.tasks program.consumer).spawn.isScheduled = false)
  | queued (front rest : List TaskId)
      (queue : scheduler.globalQueue = front ++ program.producer :: rest)
      (behind : program.consumer ∈ rest ∨
        (scheduler.tasks program.consumer).spawn.isScheduled = false)
  | taken
      (phase : (scheduler.workers worker).phase = .prepare program.producer ∨
        (scheduler.workers worker).phase = .inFiber program.producer)
      (point : (scheduler.tasks program.producer).point = .entry ∨
        (scheduler.tasks program.producer).point = .invokeRun ∨
          (scheduler.tasks program.producer).point = .body)
      (behind : program.consumer ∈ scheduler.globalQueue ∨
        (scheduler.tasks program.consumer).spawn.isScheduled = false)

/-- The step is none of the producer's function. -/
def Foreign (program : Program T) (scheduler : TaskScheduler 1) (event : SchedulerEvent 1) :
    Prop :=
  event.isPlain = true ∨ ∃ action other, event = .fiber worker action ∧
    (scheduler.workers worker).phase = .inFiber other ∧ other ≠ program.producer

variable {scheduler target : TaskScheduler 1} {event : SchedulerEvent 1}

/-- What the global queue holds of the consumer after a step that appends or does
nothing. -/
theorem behind_step (taken : scheduler.step back event = some target) {rest after : List TaskId}
    (kept : ∀ task ∈ rest, task ∈ after)
    (appended : ∀ task, event = .spawnSchedule task → task ∈ after)
    (behind : program.consumer ∈ rest ∨
      (scheduler.tasks program.consumer).spawn.isScheduled = false) :
    program.consumer ∈ after ∨
      (target.tasks program.consumer).spawn.isScheduled = false := by
  by_cases scheduled : event = .spawnSchedule program.consumer
  · exact Or.inl (appended _ scheduled)
  · exact behind.imp (kept _) fun before =>
      TaskScheduler.unscheduled_step taken before scheduled

/-- The worker that has taken a task up enters its fiber and stays in it until the
function is over. -/
theorem taken_phase_step {task : TaskId} (onTrack : scheduler.OnTrack)
    (plain : event.isPlain = true) (taken : scheduler.step back event = some target)
    (phase : (scheduler.workers worker).phase = .prepare task ∨
      (scheduler.workers worker).phase = .inFiber task)
    (point : (scheduler.tasks task).point = .entry ∨
      (scheduler.tasks task).point = .invokeRun ∨ (scheduler.tasks task).point = .body) :
    (target.workers worker).phase = .prepare task ∨
      (target.workers worker).phase = .inFiber task := by
  cases TaskScheduler.step_worker onTrack taken worker with
  | same queue same _ => rwa [same]
  | stolen thief stolen queue same _ hands => rwa [same]
  | own step =>
      cases event with
      | worker acting choice =>
          obtain rfl : acting = worker := step
          rcases phase with phase | phase
          · simp only [TaskScheduler.step, TaskScheduler.workerStep, phase] at taken
            obtain rfl := Option.some.inj taken
            right
            simp [TaskScheduler.enterFiber, TaskScheduler.setTask, TaskScheduler.setWorker]
          · simp [TaskScheduler.step, TaskScheduler.workerStep, phase] at taken
      | fiber acting action =>
          obtain rfl : acting = worker := step
          obtain rfl : action = .advance := by simpa [SchedulerEvent.isPlain] using plain
          rcases phase with phase | phase
          · simp [TaskScheduler.step, phase] at taken
          · simp only [TaskScheduler.step, phase] at taken
            rcases point with point | point | point <;>
              simp only [TaskScheduler.fiberStep, point] at taken
            · obtain rfl := Option.some.inj taken
              exact Or.inr phase
            · obtain rfl := Option.some.inj taken
              exact Or.inr phase
            · cases taken
      | _ => cases step

theorem taken_point_step {task : TaskId} (untroubled : scheduler.Untroubled)
    (plain : event.isPlain = true) (taken : scheduler.step back event = some target)
    (born : task < scheduler.nextTaskId)
    (point : (scheduler.tasks task).point = .entry ∨
      (scheduler.tasks task).point = .invokeRun ∨ (scheduler.tasks task).point = .body) :
    (target.tasks task).point = .entry ∨ (target.tasks task).point = .invokeRun ∨
      (target.tasks task).point = .body := by
  have move := TaskScheduler.step_task untroubled.toConsistent taken task
  have unflagged := untroubled.cancelled task
  generalize target.tasks task = after at move ⊢
  cases move with
  | allocate spawner new => exact absurd new born.ne
  | spawned => exact Or.inr (Or.inr rfl)
  | enter entering before => rcases point with point | point | point <;> simp [point]
  | goto next own move =>
      cases move with
      | proceed => exact Or.inr (Or.inl rfl)
      | refuse before cancelled => exact absurd (cancelled.symm.trans unflagged) (by simp)
      | handle | yieldReturn => exact Or.inr (Or.inr rfl)
      | yield before | «return» before | throw before =>
          exact absurd own (fiber_plain plain taken before)
      | yieldThrow before => rcases point with point | point | point <;> simp [point] at before
      | yieldStart before => rcases point with point | point | point <;> simp [point] at before
  | store state next move =>
      rcases point with point | point | point <;> rw [point] at move <;> cases move
      exact Or.inr (Or.inr rfl)
  | spawn child before own => exact absurd own (fiber_plain plain taken before)
  | switchOut before => rcases point with point | point | point <;> simp [point] at before
  | _ => exact point

/-- Whatever the others do, the producer stays ahead of the consumer. -/
theorem Placed.step (placed : Placed program scheduler) (untroubled : scheduler.Untroubled)
    (foreign : Foreign program scheduler event)
    (inOrder : event = .spawnSchedule program.consumer →
      (scheduler.tasks program.producer).spawn.isScheduled = true)
    (taken : scheduler.step back event = some target) : Placed program target := by
  cases placed with
  | outside producer consumer =>
      have late : event ≠ .spawnSchedule program.consumer := by
        intro scheduled
        exact absurd ((inOrder scheduled).symm.trans producer) (by simp)
      have consumerToo := TaskScheduler.unscheduled_step taken consumer late
      by_cases scheduled : event = .spawnSchedule program.producer
      · cases TaskScheduler.step_globalQueue taken with
        | same queue other => exact absurd scheduled (other _)
        | append task own queue =>
            obtain rfl := SchedulerEvent.spawnSchedule.inj (scheduled.symm.trans own)
            exact .queued scheduler.globalQueue [] queue (Or.inr consumerToo)
        | take acting choice task own => exact absurd (scheduled.symm.trans own) (by simp)
      · exact .outside (TaskScheduler.unscheduled_step taken producer scheduled) consumerToo
  | queued front rest queue behind =>
      cases TaskScheduler.step_globalQueue taken with
      | same unchanged other =>
          exact .queued front rest (unchanged.trans queue) (behind_step taken (fun _ => id)
            (fun task scheduled => absurd scheduled (other task)) behind)
      | append task own appended =>
          refine .queued front (rest ++ [task]) (by simp [appended, queue])
            (behind_step taken (fun _ => List.mem_append_left _) (fun other scheduled => ?_) behind)
          obtain rfl := SchedulerEvent.spawnSchedule.inj (scheduled.symm.trans own)
          simp
      | take acting choice task own popped idle phase tasks =>
          have still : program.consumer ∈ rest ∨
              (target.tasks program.consumer).spawn.isScheduled = false :=
            behind_step taken (fun _ => id)
              (fun _ scheduled => absurd (scheduled.symm.trans own) (by simp)) behind
          cases front with
          | nil =>
              rw [queue, List.nil_append, List.cons.injEq] at popped
              obtain ⟨rfl, rfl⟩ := popped
              obtain rfl : acting = worker := Subsingleton.elim _ _
              have entry := (untroubled.governs.fresh program.producer
                (Or.inr (by simp [queue]))).1
              exact .taken (Or.inl phase) (Or.inl (by rw [tasks]; exact entry)) still
          | cons first front =>
              rw [queue, List.cons_append, List.cons.injEq] at popped
              exact .queued front rest popped.2.symm still
  | taken phase point behind =>
      have hands : (scheduler.workers worker).phase.executing = some program.producer := by
        rcases phase with phase | phase <;> simp [phase, Phase.executing]
      have plain : event.isPlain = true := by
        rcases foreign with plain | ⟨action, other, rfl, inside, different⟩
        · exact plain
        · rw [inside] at hands
          exact absurd (Option.some.inj hands) different
      refine .taken (taken_phase_step untroubled.onTrack plain taken phase point)
        (taken_point_step untroubled plain taken
          (TaskScheduler.executing_lt_next untroubled.sound hands) point) ?_
      cases TaskScheduler.step_globalQueue taken with
      | same unchanged other =>
          rw [unchanged]
          exact behind_step taken (fun _ => id)
            (fun task scheduled => absurd scheduled (other task)) behind
      | append task own appended =>
          rw [appended]
          refine behind_step taken (fun _ => List.mem_append_left _) (fun other scheduled => ?_)
            behind
          obtain rfl := SchedulerEvent.spawnSchedule.inj (scheduled.symm.trans own)
          simp
      | take acting choice task own popped idle =>
          obtain rfl : acting = worker := Subsingleton.elim _ _
          rw [Phase.executing_of_holds idle] at hands
          cases hands

/-- The consumer does not run while the producer is ahead of it. -/
theorem Placed.consumer_waits (placed : Placed program scheduler)
    (sound : scheduler.ledger.Sound) :
    (scheduler.workers worker).phase ≠ .inFiber program.consumer := by
  intro inside
  have hands := Phase.executing_of_inFiber inside
  have scheduled := TaskScheduler.isScheduled_of_executing sound hands
  have elsewhere : program.consumer ∉ scheduler.globalQueue := by
    intro queued
    have here := TaskScheduler.timesAt_globalQueue_pos.mpr queued
    have there := TaskScheduler.timesAt_executing_pos.mpr hands
    have nowhere := TaskScheduler.alone_of_timesAt sound here
      (show TaskScheduler.Place.executing worker ≠ .globalQueue by simp)
    omega
  cases placed with
  | outside producer consumer => exact absurd (scheduled.symm.trans consumer) (by simp)
  | queued front rest queue behind =>
      rcases behind with behind | unscheduled
      · exact elsewhere (by simp [queue, behind])
      · exact absurd (scheduled.symm.trans unscheduled) (by simp)
  | taken phase point behind =>
      rcases behind with behind | unscheduled
      · exact elsewhere behind
      · exact absurd (scheduled.symm.trans unscheduled) (by simp)

variable {capacity : ℕ} {pipeline next : Pipeline 1 T} {happening : PipelineEvent 1}

/-- The producer is ahead of the consumer, and the channel has room for what is left to
send. -/
structure Ahead (program : Program T) (pipeline : Pipeline 1 T) : Prop where
  placed : Placed program pipeline.scheduler
  room : ∃ unsent : List T, pipeline.code program.producer = unsent.map .send ++ [.close] ∧
    pipeline.channel.buffer.length + unsent.length ≤ pipeline.channel.capacity

/-- Nobody waits, and nobody will: the channel is closed, or the producer is ahead. -/
structure Smooth (program : Program T) (pipeline : Pipeline 1 T) : Prop where
  noSender : pipeline.channel.notFull.calls = []
  noReceiver : pipeline.channel.notEmpty.calls = []
  goesOn : pipeline.channel.closed = true ∨ Ahead program pipeline

theorem smooth_start (fits : program.messages.length ≤ capacity) :
    Smooth program (start 1 capacity program) where
  noSender := rfl
  noReceiver := rfl
  goesOn := Or.inr
    { placed := .outside rfl rfl
      room := ⟨program.messages, by simp [start, Program.code], by
        simpa [start, Channel.create] using fits⟩ }

/-- Of the two tasks only the producer has the instructions of the producer. -/
theorem Ahead.other_of_act (ahead : Ahead program pipeline) {task : TaskId}
    {action : FiberAction} {rest : List (Instruction T)}
    (next : pipeline.code task = [] ∧ rest = [] ∧ action = .return ∨
      ∃ act, pipeline.code task = .act act :: rest ∧ action = act.fiberAction) :
    task ≠ program.producer := by
  rintro rfl
  obtain ⟨unsent, left, _⟩ := ahead.room
  rw [left] at next
  cases unsent with
  | nil => simp at next
  | cons value unsent => simp at next

/-- A message for which there is room is sent without a wait. -/
theorem Ahead.sent (ahead : Ahead program pipeline) (isOpen : pipeline.channel.closed = false)
    {value : T} {rest : List (Instruction T)} (choice : ℕ)
    (first : pipeline.code program.producer = .send value :: rest) :
    pipeline.channel.send program.producer value choice =
        (pipeline.channel.push value choice, .sendReturned program.producer value true) ∧
      Ahead program (pipeline.answered program.producer
        (pipeline.channel.send program.producer value choice)) := by
  obtain ⟨unsent, left, room⟩ := ahead.room
  rw [first] at left
  cases unsent with
  | nil => simp at left
  | cons message unsent =>
      simp only [List.map_cons, List.cons_append, List.cons.injEq, Instruction.send.injEq] at left
      rw [List.length_cons] at room
      have free : pipeline.channel.buffer.length < pipeline.channel.capacity := by omega
      have positive : 0 < pipeline.channel.capacity := by omega
      have accepted : pipeline.channel.send program.producer value choice =
          (pipeline.channel.push value choice, .sendReturned program.producer value true) := by
        simp [Channel.send, Channel.sendWait, isOpen, positive, free]
      refine ⟨accepted, ?_⟩
      rw [accepted]
      refine ⟨ahead.placed, unsent, ?_, ?_⟩
      · simp [answered, goesOn, first, left.2]
      · simp only [answered, Channel.push, List.length_append, List.length_singleton]
        omega

/-- Nobody waits on a closed channel. -/
theorem Smooth.closed_receive (smooth : Smooth program pipeline)
    (closed : pipeline.channel.closed = true) (task : TaskId) (choice : ℕ) :
    Smooth program (pipeline.answered task (pipeline.channel.receive task choice)) := by
  unfold Channel.receive
  split
  · refine ⟨?_, smooth.noReceiver, Or.inl closed⟩
    simp only [answered, Channel.pop]
    split_ifs
    · exact List.Perm.eq_nil (smooth.noSender ▸ CondVar.calls_notifyOne _ choice)
    · exact smooth.noSender
  · rw [if_pos closed]
    exact ⟨smooth.noSender, smooth.noReceiver, Or.inl closed⟩

theorem Smooth.send (smooth : Smooth program pipeline) {value : T} {rest : List (Instruction T)}
    (choice : ℕ) (first : pipeline.code program.producer = .send value :: rest) :
    Smooth program (pipeline.answered program.producer
      (pipeline.channel.send program.producer value choice)) := by
  by_cases closed : pipeline.channel.closed = true
  · have refused : pipeline.channel.send program.producer value choice =
        (pipeline.channel, .sendReturned program.producer value false) := by
      simp [Channel.send, closed]
    rw [refused]
    exact ⟨smooth.noSender, smooth.noReceiver, Or.inl closed⟩
  · have ahead := smooth.goesOn.resolve_left closed
    obtain ⟨accepted, still⟩ := ahead.sent (by simpa using closed) choice first
    refine ⟨?_, ?_, Or.inr still⟩
    · rw [accepted]
      exact smooth.noSender
    · rw [accepted]
      exact List.Perm.eq_nil (smooth.noReceiver ▸ CondVar.calls_notifyOne _ choice)

theorem Smooth.move (smooth : Smooth program pipeline) (sound : Sound program capacity pipeline)
    (inOrder : InOrder program .producerFirst pipeline happening)
    (move : Move back pipeline happening next) : Smooth program next := by
  cases move with
  | outside inner scheduler plain taken =>
      refine ⟨smooth.noSender, smooth.noReceiver, smooth.goesOn.imp_right fun ahead => ?_⟩
      exact ⟨ahead.placed.step sound.untroubled (Or.inl plain)
        (fun scheduled => inOrder (by rw [scheduled])) taken, ahead.room⟩
  | fiber acting choice task action rest scheduler inside body awake next taken =>
      refine ⟨smooth.noSender, smooth.noReceiver, smooth.goesOn.imp_right fun ahead => ?_⟩
      obtain rfl : acting = worker := Subsingleton.elim _ _
      have other := ahead.other_of_act next
      have stepped : pipeline.scheduler.step back (.fiber worker action) = some scheduler := by
        simpa only [TaskScheduler.step, inside] using taken
      refine ⟨ahead.placed.step sound.untroubled (Or.inr ⟨action, task, rfl, inside, other⟩)
        (by simp) stepped, ?_⟩
      obtain ⟨unsent, left, room⟩ := ahead.room
      exact ⟨unsent, (Function.update_of_ne other.symm _ _).trans left, room⟩
  | send acting choice task value rest inside body awake next =>
      obtain rfl := sound.orderly.producer_of_send next
      exact smooth.send choice next
  | receive acting choice task rest inside body awake next =>
      obtain rfl := sound.orderly.consumer_of_receive next
      obtain rfl : acting = worker := Subsingleton.elim _ _
      rcases smooth.goesOn with closed | ahead
      · exact smooth.closed_receive closed _ choice
      · exact absurd inside (ahead.placed.consumer_waits sound.untroubled.sound)
  | close acting choice task rest inside body awake next =>
      refine ⟨?_, ?_, Or.inl rfl⟩
      · exact List.Perm.eq_nil (smooth.noSender ▸ CondVar.calls_notifyAll _)
      · exact List.Perm.eq_nil (smooth.noReceiver ▸ CondVar.calls_notifyAll _)
  | resumeSend acting position choice task value others resumed =>
      have leaves := CondVar.calls_resume resumed
      rw [smooth.noSender] at leaves
      exact absurd leaves.symm.eq_nil (by simp)
  | resumeReceive acting position choice task others resumed =>
      have leaves := CondVar.calls_resume resumed
      rw [smooth.noReceiver] at leaves
      exact absurd leaves.symm.eq_nil (by simp)
  | spuriousSender position =>
      refine ⟨?_, smooth.noReceiver, ?_⟩
      · exact List.Perm.eq_nil (smooth.noSender ▸ CondVar.calls_rouse _ position)
      · exact smooth.goesOn.imp_right fun ahead => ⟨ahead.placed, ahead.room⟩
  | spuriousReceiver position =>
      refine ⟨smooth.noSender, ?_, smooth.goesOn.imp_right fun ahead => ⟨ahead.placed, ahead.room⟩⟩
      exact List.Perm.eq_nil (smooth.noReceiver ▸ CondVar.calls_rouse _ position)

theorem Smooth.not_deadlocked (smooth : Smooth program pipeline)
    (sound : Sound program capacity pipeline) : ¬ Deadlocked back pipeline := by
  intro deadlocked
  obtain ⟨task, _, asleep⟩ :=
    asleep_of_stuck sound.untroubled (not_canStep_of_deadlocked deadlocked worker)
  rcases asleep with receives | sends
  · have waits := CondVar.mem_calls_of_asleep receives
    rw [smooth.noReceiver] at waits
    cases waits
  · obtain ⟨call, there, _⟩ := List.mem_map.mp sends
    have waits := CondVar.mem_calls_of_asleep there
    rw [smooth.noSender] at waits
    cases waits

theorem smooth_of_reachable (fits : program.messages.length ≤ capacity)
    (reached : ReachableUnder (step back) (Allowed back program .producerFirst)
      (start 1 capacity program) pipeline) : Smooth program pipeline :=
  reached.invariant_given (fun _ => sound_of_reachable) (smooth_start fits)
    fun _ _ _ sound smooth allowed taken => smooth.move sound allowed.inOrder (step_move taken)

/-! ## One worker, and a task that sleeps on it -/

/-- With the one worker's task asleep in the channel nobody goes on. -/
theorem deadlocked_of_asleep {task : TaskId}
    (inside : (pipeline.scheduler.workers worker).phase = .inFiber task)
    (body : (pipeline.scheduler.tasks task).point = .body)
    (scheduled : (pipeline.scheduler.tasks task).spawn.isScheduled = true)
    (unfinished : task ∉ pipeline.scheduler.retired) (waits : pipeline.Waiting task)
    (noReceiver : pipeline.channel.notEmpty.woken = [])
    (noSender : pipeline.channel.notFull.woken = []) : Deadlocked back pipeline := by
  refine ⟨⟨task, scheduled, unfinished⟩, fun acting event own => ?_⟩
  obtain rfl : acting = worker := Subsingleton.elim _ _
  have running := running_eq_some.mpr inside
  have calls : ∀ child, ¬ ∃ other, pipeline.running worker = some other ∧
      (pipeline.scheduler.tasks other).point = .spawning child := by
    rintro child ⟨other, same, point⟩
    obtain rfl := Option.some.inj (running.symm.trans same)
    exact absurd (body.symm.trans point) (by simp)
  cases event with
  | scheduler inner =>
      cases inner with
      | worker acting choice =>
          obtain rfl : acting = worker := own
          simp [step, TaskScheduler.step, TaskScheduler.workerStep, inside]
      | fiber acting action =>
          obtain rfl : acting = worker := own
          simp only [step, SchedulerEvent.isPlain, decide_eq_true_eq]
          split_ifs with plain
          · subst plain
            simp [TaskScheduler.step, inside, TaskScheduler.fiberStep, body]
          · rfl
      | spawnCount child | spawnSchedule child | spawnRegister child =>
          exact absurd own (calls child)
      | _ => cases own
  | instruct acting choice =>
      obtain rfl : acting = worker := own
      simp [step, running, waits]
  | resumeSend acting position choice =>
      obtain rfl : acting = worker := own
      simp [step, running, noSender]
  | resumeReceive acting position choice =>
      obtain rfl : acting = worker := own
      simp [step, running, noReceiver]
  | _ => cases own

section Run

variable {order : SpawnOrder}

/-- The task that is spawned first. -/
def SpawnOrder.first (program : Program T) : SpawnOrder → TaskId
  | .producerFirst => program.producer
  | .consumerFirst => program.consumer

/-- A run up to here has not touched the channel or the functions. -/
def Before (back : SwitchBack) (program : Program T) (order : SpawnOrder) (capacity : ℕ)
    (scheduler : TaskScheduler 1) : Prop :=
  ReachableUnder (step back) (Allowed back program order) (start 1 capacity program)
    { start 1 capacity program with scheduler }

theorem Before.extend (before : Before back program order capacity scheduler)
    (plain : event.isPlain = true)
    (unfinished : ∀ task, (scheduler.workers worker).phase = .inFiber task →
      (scheduler.tasks task).point ≠ .over)
    (early : ∀ task, event = .spawnSchedule task → task = order.first program)
    (taken : scheduler.step back event = some target) :
    Before back program order capacity target := by
  have stepped : step back { start 1 capacity program with scheduler } (.scheduler event) =
      some { start 1 capacity program with scheduler := target } := by
    simp [step, plain, taken]
  refine .next before ⟨?_, ?_⟩ stepped
  · rintro inner same acting action task rfl inside finished
    obtain rfl : acting = worker := Subsingleton.elim _ _
    exact absurd finished (unfinished task inside)
  · cases order with
    | producerFirst =>
        intro same
        have first := early _ (PipelineEvent.scheduler.inj same)
        exact absurd first.symm program.distinct
    | consumerFirst =>
        intro same
        have first := early _ (PipelineEvent.scheduler.inj same)
        exact absurd first program.distinct

/-- The worker has just started, and nobody has been scheduled. -/
structure Idle (scheduler : TaskScheduler 1) : Prop where
  phase : (scheduler.workers worker).phase = .top
  localQueue : (scheduler.workers worker).localQueue = []
  shouldStop : (scheduler.workers worker).shouldStop = false
  globalQueue : scheduler.globalQueue = []
  cancelling : scheduler.cancelling = none
  retired : scheduler.retired = []

/-- As many ids can be taken as one likes. -/
theorem exists_allocated (back : SwitchBack) (program : Program T) (order : SpawnOrder)
    (capacity last : ℕ) :
    ∃ scheduler, Before back program order capacity scheduler ∧ Idle scheduler ∧
      scheduler.nextTaskId = last + 1 ∧ ∀ task, 0 < task → task ≤ last →
        scheduler.tasks task =
          { TaskScheduler.unbornTask with spawn := .allocated, spawner := none } := by
  induction last with
  | zero =>
      refine ⟨.start 1, .start, ⟨rfl, rfl, rfl, rfl, rfl, rfl⟩, rfl, ?_⟩
      intro task positive bound
      omega
  | succ last ih =>
      obtain ⟨scheduler, before, idle, fresh, allocated⟩ := ih
      have outside : ∀ task, (scheduler.workers worker).phase = .inFiber task →
          (scheduler.tasks task).point ≠ .over := by simp [idle.phase]
      have taken : scheduler.step back .spawn = some (scheduler.allocate none) := rfl
      refine ⟨scheduler.allocate none, before.extend rfl outside (by simp) taken,
        ⟨idle.phase, idle.localQueue, idle.shouldStop, idle.globalQueue, idle.cancelling,
          idle.retired⟩, ?_, ?_⟩
      · simp [TaskScheduler.allocate, TaskScheduler.setTask, fresh]
      · intro task positive bound
        by_cases newest : task = last + 1
        · simp [TaskScheduler.allocate, TaskScheduler.setTask, fresh, newest]
        · simpa [TaskScheduler.allocate, TaskScheduler.setTask, fresh, newest] using
            allocated task positive (by omega)

/-- The worker is at a phase, and the task it is about at a point of its fiber. -/
structure Stands (scheduler : TaskScheduler 1) (task : TaskId) (phase : Phase)
    (point : FiberPoint) (stage : SpawnStage) (queue : List TaskId) : Prop where
  phase : (scheduler.workers worker).phase = phase
  localQueue : (scheduler.workers worker).localQueue = []
  shouldStop : (scheduler.workers worker).shouldStop = false
  queue : scheduler.globalQueue = queue
  point : (scheduler.tasks task).point = point
  cancelled : (scheduler.tasks task).cancelled = false
  stage : (scheduler.tasks task).spawn = stage
  cancelling : scheduler.cancelling = none
  retired : scheduler.retired = []

/-- A step from one standing to the next one. -/
theorem Stands.extend {task : TaskId} {phase after : Phase} {point reached : FiberPoint}
    {stage grown : SpawnStage} {queue left : List TaskId}
    (stands : Stands scheduler task phase point stage queue)
    (before : Before back program order capacity scheduler) (own : task = order.first program)
    (plain : event.isPlain = true) (unfinished : point ≠ .over)
    (inside : ∀ other, phase = .inFiber other → other = task)
    (scheduled : ∀ other, event = .spawnSchedule other → other = task)
    (taken : ∃ target, scheduler.step back event = some target ∧
      Stands target task after reached grown left) :
    ∃ target, Before back program order capacity target ∧
      Stands target task after reached grown left := by
  obtain ⟨target, taken, there⟩ := taken
  refine ⟨target, before.extend plain ?_ (fun other same => (scheduled other same).trans own) taken,
    there⟩
  intro other within
  obtain rfl := inside other (stands.phase.symm.trans within)
  rwa [stands.point]

/-- The steps of `spawn` up to the global queue. -/
theorem Stands.spawned {task : TaskId} (stands : Stands scheduler task .top .entry .allocated []) :
    ∃ target, scheduler.step back (.spawnCount task) = some target ∧
      Stands target task .top .entry .counted [] := by
  refine ⟨_, if_pos stands.stage, ?_⟩
  obtain ⟨phase, localQueue, shouldStop, queue, point, cancelled, stage, cancelling, retired⟩ :=
    stands
  constructor <;> simp [TaskScheduler.setTask, *]

theorem Stands.scheduled {task : TaskId} (stands : Stands scheduler task .top .entry .counted []) :
    ∃ target, scheduler.step back (.spawnSchedule task) = some target ∧
      Stands target task .top .entry .scheduled [task] := by
  refine ⟨_, if_pos ⟨stands.stage, stands.cancelling⟩, ?_⟩
  obtain ⟨phase, localQueue, shouldStop, queue, point, cancelled, stage, cancelling, retired⟩ :=
    stands
  constructor <;> simp [TaskScheduler.setTask, *]

/-- The steps of the worker up to the fiber. -/
theorem Stands.worker {task : TaskId} {phase after : Phase} {queue left : List TaskId}
    (stands : Stands scheduler task phase .entry .scheduled queue)
    (goes : phase = .top ∧ after = .popLocal ∧ left = queue ∨
      phase = .popLocal ∧ after = .stealGlobal ∧ left = queue ∨
        phase = .stealGlobal ∧ queue = [task] ∧ after = .prepare task ∧ left = [] ∨
          phase = .prepare task ∧ after = .inFiber task ∧ left = queue) :
    ∃ target, scheduler.step back (.worker Pipeline.worker ⟨true, Pipeline.worker⟩) = some target ∧
      Stands target task after .entry .scheduled left := by
  obtain ⟨here, localQueue, shouldStop, waiting, point, cancelled, stage, cancelling, retired⟩ :=
    stands
  simp only [TaskScheduler.step]
  rcases goes with ⟨rfl, rfl, rfl⟩ | ⟨rfl, rfl, rfl⟩ | ⟨rfl, rfl, rfl, rfl⟩ | ⟨rfl, rfl, rfl⟩
  · refine ⟨scheduler.setPhase Pipeline.worker .popLocal, ?_, ?_⟩
    · simp [TaskScheduler.workerStep, here, shouldStop]
    · constructor <;> simp [TaskScheduler.setPhase, TaskScheduler.setWorker, *]
  · refine ⟨scheduler.setPhase Pipeline.worker .stealGlobal, ?_, ?_⟩
    · simp [TaskScheduler.workerStep, here, localQueue]
    · constructor <;> simp [TaskScheduler.setPhase, TaskScheduler.setWorker, *]
  · refine ⟨scheduler.takeGlobal Pipeline.worker task, ?_, ?_⟩
    · simp [TaskScheduler.workerStep, here, cancelling, waiting]
    · constructor <;>
        simp [TaskScheduler.takeGlobal, TaskScheduler.setPhase, TaskScheduler.setWorker, *]
  · refine ⟨scheduler.enterFiber Pipeline.worker task, ?_, ?_⟩
    · simp [TaskScheduler.workerStep, here]
    · constructor <;>
        simp [TaskScheduler.enterFiber, TaskScheduler.setTask, TaskScheduler.setWorker, *]

/-- The steps of `invoke` up to the function. -/
theorem Stands.invoke {task : TaskId} {point reached : FiberPoint} {queue : List TaskId}
    (stands : Stands scheduler task (.inFiber task) point .scheduled queue)
    (goes : point = .entry ∧ reached = .invokeRun ∨ point = .invokeRun ∧ reached = .body) :
    ∃ target, scheduler.step back (.fiber Pipeline.worker .advance) = some target ∧
      Stands target task (.inFiber task) reached .scheduled queue := by
  obtain ⟨here, localQueue, shouldStop, waiting, stood, cancelled, stage, cancelling, retired⟩ :=
    stands
  rcases goes with ⟨rfl, rfl⟩ | ⟨rfl, rfl⟩
  · refine ⟨scheduler.setPoint task .invokeRun, ?_, ?_⟩
    · simp [TaskScheduler.step, here, TaskScheduler.fiberStep, stood, cancelled]
    · constructor <;> simp [TaskScheduler.setPoint, TaskScheduler.setTask, *]
  · refine ⟨scheduler.storeState task .running .body, ?_, ?_⟩
    · simp [TaskScheduler.step, here, TaskScheduler.fiberStep, stood]
    · constructor <;> simp [TaskScheduler.storeState, TaskScheduler.setTask, *]

/-- The task that is spawned first gets the worker. -/
theorem exists_running (back : SwitchBack) (program : Program T) (order : SpawnOrder)
    (capacity : ℕ) :
    ∃ scheduler, Before back program order capacity scheduler ∧
      Stands scheduler (order.first program) (.inFiber (order.first program)) .body .scheduled
        [] := by
  have positive : 0 < order.first program := by
    cases order
    · exact program.producer_pos
    · exact program.consumer_pos
  obtain ⟨scheduler, before, idle, _, tasks⟩ :=
    exists_allocated back program order capacity (order.first program)
  have fresh := tasks _ positive le_rfl
  have allocated : Stands scheduler (order.first program) .top .entry .allocated [] :=
    ⟨idle.phase, idle.localQueue, idle.shouldStop, idle.globalQueue, by rw [fresh]; rfl,
      by rw [fresh]; rfl, by rw [fresh], idle.cancelling, idle.retired⟩
  obtain ⟨_, before, counted⟩ := allocated.extend before rfl rfl (by simp) (by simp) (by simp)
    allocated.spawned
  obtain ⟨_, before, queued⟩ := counted.extend before rfl rfl (by simp) (by simp) (by simp)
    counted.scheduled
  obtain ⟨_, before, looking⟩ := queued.extend before rfl rfl (by simp) (by simp) (by simp)
    (queued.worker (Or.inl ⟨rfl, rfl, rfl⟩))
  obtain ⟨_, before, stealing⟩ := looking.extend before rfl rfl (by simp) (by simp) (by simp)
    (looking.worker (Or.inr (Or.inl ⟨rfl, rfl, rfl⟩)))
  obtain ⟨_, before, taken⟩ := stealing.extend before rfl rfl (by simp) (by simp) (by simp)
    (stealing.worker (Or.inr (Or.inr (Or.inl ⟨rfl, rfl, rfl, rfl⟩))))
  obtain ⟨_, before, entered⟩ := taken.extend before rfl rfl (by simp) (by simp) (by simp)
    (taken.worker (Or.inr (Or.inr (Or.inr ⟨rfl, rfl, rfl⟩))))
  obtain ⟨_, before, invoked⟩ := entered.extend before rfl rfl (by simp) (by simp) (by simp)
    (entered.invoke (Or.inl ⟨rfl, rfl⟩))
  exact invoked.extend before rfl rfl (by simp) (by simp) (by simp)
    (invoked.invoke (Or.inr ⟨rfl, rfl⟩))

/-- The next instruction of the task that has the worker. -/
theorem reach_instruct {task : TaskId}
    (reached : ReachableUnder (step back) (Allowed back program order) (start 1 capacity program)
      pipeline)
    (stands : Stands pipeline.scheduler task (.inFiber task) .body .scheduled [])
    (awake : ¬ pipeline.Waiting task)
    (taken : pipeline.instruct back worker task 0 = some next) :
    ReachableUnder (step back) (Allowed back program order) (start 1 capacity program) next := by
  have stepped : pipeline.step back (.instruct worker 0) = some next := by
    simp [step, running_eq_some.mpr stands.phase, stands.point, awake, taken]
  refine .next reached ⟨?_, ?_⟩ stepped
  · intro inner same
    cases same
  · cases order <;> intro same <;> cases same

theorem Stands.deadlocked {task : TaskId}
    (stands : Stands pipeline.scheduler task (.inFiber task) .body .scheduled [])
    (waits : pipeline.Waiting task) (noReceiver : pipeline.channel.notEmpty.woken = [])
    (noSender : pipeline.channel.notFull.woken = []) : Deadlocked back pipeline := by
  refine deadlocked_of_asleep stands.phase stands.point ?_ ?_ waits noReceiver noSender
  · rw [stands.stage]
    rfl
  · rw [stands.retired]
    exact List.not_mem_nil

theorem instruct_receive {task : TaskId} {rest : List (Instruction T)}
    (first : pipeline.code task = .receiveAll :: rest) :
    pipeline.instruct back worker task 0 =
      some (pipeline.answered task (pipeline.channel.receive task 0)) := by
  unfold instruct
  rw [first]

theorem instruct_send {task : TaskId} {value : T} {rest : List (Instruction T)}
    (first : pipeline.code task = .send value :: rest) :
    pipeline.instruct back worker task 0 =
      some (pipeline.answered task (pipeline.channel.send task value 0)) := by
  unfold instruct
  rw [first]

/-- A consumer that comes first waits for ever. -/
theorem deadlock_of_consumerFirst (back : SwitchBack) (program : Program T) (capacity : ℕ) :
    ∃ state, ReachableUnder (step back) (Allowed back program .consumerFirst)
      (start 1 capacity program) state ∧ Deadlocked back state := by
  obtain ⟨scheduler, before, stands⟩ := exists_running back program .consumerFirst capacity
  have code : program.code program.consumer = [.receiveAll] := by
    simp [Program.code, program.distinct.symm]
  refine ⟨_, reach_instruct before stands ?_ (instruct_receive code), stands.deadlocked ?_ rfl rfl⟩
  · simp [Waiting, Channel.Waits, start, Channel.create, CondVar.calls, CondVar.empty]
  · simp [Waiting, Channel.Waits, answered, Channel.receive, start, Channel.create, CondVar.calls,
      CondVar.empty, CondVar.wait]

/-- The producer after some of its messages, with nobody at the other end. -/
def sentFirst (program : Program T) (capacity : ℕ) (scheduler : TaskScheduler 1)
    (sent unsent : List T) : Pipeline 1 T :=
  { scheduler
    channel := { Channel.create capacity with buffer := sent }
    code := Function.update program.code program.producer (unsent.map .send ++ [.close]) }

theorem sentFirst_nil (program : Program T) (capacity : ℕ) (scheduler : TaskScheduler 1) :
    sentFirst program capacity scheduler [] program.messages =
      { start 1 capacity program with scheduler } := by
  have code : program.code program.producer = program.messages.map .send ++ [.close] := by
    simp [Program.code]
  simp [sentFirst, start, ← code, Channel.create]

theorem sentFirst_awake (program : Program T) (capacity : ℕ) (scheduler : TaskScheduler 1)
    (sent unsent : List T) (task : TaskId) :
    ¬ (sentFirst program capacity scheduler sent unsent).Waiting task := by
  simp [Waiting, Channel.Waits, sentFirst, Channel.create, CondVar.calls, CondVar.empty]

theorem sentFirst_code (program : Program T) (capacity : ℕ) (scheduler : TaskScheduler 1)
    (sent unsent : List T) (value : T) :
    (sentFirst program capacity scheduler sent (value :: unsent)).code program.producer =
      .send value :: (unsent.map .send ++ [.close]) := by
  simp [sentFirst]

/-- A message for which there is room. -/
theorem sentFirst_room {sent unsent : List T} {value : T} (room : sent.length < capacity) :
    (sentFirst program capacity scheduler sent (value :: unsent)).instruct back worker
        program.producer 0 =
      some (sentFirst program capacity scheduler (sent ++ [value]) unsent) := by
  have positive : 0 < capacity := by omega
  have accepted : (sentFirst program capacity scheduler sent (value :: unsent)).channel.send
      program.producer value 0 =
        ((sentFirst program capacity scheduler (sent ++ [value]) unsent).channel,
          .sendReturned program.producer value true) := by
    simp [sentFirst, Channel.create, Channel.send, Channel.sendWait, Channel.push, positive, room,
      CondVar.notifyOne, CondVar.rouse, CondVar.empty]
  rw [instruct_send (sentFirst_code program capacity scheduler sent unsent value), accepted]
  simp [answered, goesOn, sentFirst]

/-- A message for which there is none. -/
theorem sentFirst_full {sent unsent : List T} {value : T} (positive : 0 < capacity)
    (full : sent.length = capacity) :
    (sentFirst program capacity scheduler sent (value :: unsent)).instruct back worker
        program.producer 0 =
      some { sentFirst program capacity scheduler sent (value :: unsent) with
        channel := { (.create capacity : Channel TaskId T) with
          buffer := sent
          notFull := ⟨[(program.producer, value)], []⟩ } } := by
  rw [instruct_send (sentFirst_code program capacity scheduler sent unsent value)]
  simp [sentFirst, Channel.create, Channel.send, Channel.sendWait, positive, full, CondVar.wait,
    CondVar.empty, answered, goesOn]

/-- As many messages as there is room for are sent. -/
theorem reach_sentFirst {sent : List T}
    (before : Before back program .producerFirst capacity scheduler)
    (stands : Stands scheduler program.producer (.inFiber program.producer) .body .scheduled [])
    (room : sent.length ≤ capacity) (unsent : List T)
    (messages : program.messages = sent ++ unsent) :
    ReachableUnder (step back) (Allowed back program .producerFirst) (start 1 capacity program)
      (sentFirst program capacity scheduler sent unsent) := by
  induction sent using List.reverseRecOn generalizing unsent with
  | nil =>
      obtain rfl : program.messages = unsent := messages
      rw [sentFirst_nil]
      exact before
  | append_singleton sent value ih =>
      rw [List.length_append, List.length_singleton] at room
      have prior := ih (by omega) (value :: unsent) (by simp [messages])
      exact reach_instruct prior stands (sentFirst_awake _ _ _ _ _ _)
        (sentFirst_room (by omega))

/-- A producer that comes first and has more to send than there is room for waits for
ever. -/
theorem deadlock_of_full (back : SwitchBack) (program : Program T) (positive : 0 < capacity)
    (more : capacity < program.messages.length) :
    ∃ state, ReachableUnder (step back) (Allowed back program .producerFirst)
      (start 1 capacity program) state ∧ Deadlocked back state := by
  obtain ⟨scheduler, before, stands⟩ := exists_running back program .producerFirst capacity
  obtain ⟨value, rest, left⟩ : ∃ value rest, program.messages.drop capacity = value :: rest :=
    List.exists_cons_of_length_pos (by rw [List.length_drop]; omega)
  have full : (program.messages.take capacity).length = capacity := by
    rw [List.length_take]
    omega
  have reached := reach_sentFirst before stands full.le (value :: rest)
    (by rw [← left, List.take_append_drop])
  refine ⟨_, reach_instruct reached stands (sentFirst_awake _ _ _ _ _ _)
    (sentFirst_full positive full), stands.deadlocked (Or.inr ?_) rfl rfl⟩
  exact List.mem_singleton.mpr rfl

end Run

/-! ## The two cases together -/

/-- A program of one producer, one consumer and tasks that do not use the channel never
comes to a stop with a task unfinished exactly when there is a second worker, or the
producer is spawned first and the channel has room for all its messages. -/
theorem never_deadlocked_iff {n : ℕ} (workers : 0 < n) (positive : 0 < capacity)
    (program : Program T) (back : SwitchBack) (order : SpawnOrder) :
    (∀ state, ReachableUnder (step back) (Allowed back program order) (start n capacity program)
        state → ¬ Deadlocked back state) ↔
      2 ≤ n ∨ order = .producerFirst ∧ program.messages.length ≤ capacity := by
  constructor
  · intro never
    by_contra neither
    obtain ⟨few, late⟩ := not_or.mp neither
    obtain rfl : n = 1 := by omega
    cases order with
    | consumerFirst =>
        obtain ⟨state, reached, deadlocked⟩ := deadlock_of_consumerFirst back program capacity
        exact never state reached deadlocked
    | producerFirst =>
        have more : capacity < program.messages.length := by
          by_contra fits
          exact late ⟨rfl, by omega⟩
        obtain ⟨state, reached, deadlocked⟩ := deadlock_of_full back program positive more
        exact never state reached deadlocked
  · intro condition state reached
    have sound := sound_of_reachable reached
    by_cases several : 2 ≤ n
    · exact sound.not_deadlocked positive several
    · obtain rfl : n = 1 := by omega
      obtain ⟨rfl, fits⟩ := condition.resolve_left several
      exact (smooth_of_reachable fits reached).not_deadlocked sound

/-- The consumer is task 1, the producer task 2 with one message. -/
def pairProgram : Program ℕ :=
  { producer := 2, consumer := 1, messages := [7], others := fun _ => []
    distinct := by decide, producer_pos := by decide, consumer_pos := by decide }

/-- The pair on two workers. -/
theorem never_deadlocked_iff_pair :
    (0 < 2 ∧ 0 < 1) ∧ ∀ state, ReachableUnder (step .ucLink)
      (Allowed .ucLink pairProgram .consumerFirst) (start 2 1 pairProgram) state →
        ¬ Deadlocked .ucLink state :=
  ⟨by decide, (never_deadlocked_iff (by decide) (by decide) pairProgram .ucLink
    .consumerFirst).mpr (Or.inl le_rfl)⟩

/-- Both tasks of the pair are spawned, the consumer first, and the one worker takes it
up. -/
def consumerFirstRun : List (PipelineEvent 1) :=
  List.flatten [
    [.scheduler .spawn, .scheduler .spawn,
      .scheduler (.spawnCount 1), .scheduler (.spawnSchedule 1), .scheduler (.spawnRegister 1),
      .scheduler (.spawnCount 2), .scheduler (.spawnSchedule 2), .scheduler (.spawnRegister 2)],
    List.replicate 4 (.scheduler (.worker 0 ⟨true, 0⟩)),
    [.scheduler (.fiber 0 .advance), .scheduler (.fiber 0 .advance), .instruct 0 0]]

/-- The consumer waits on the one worker, and nobody takes up the producer. -/
theorem waiting_consumer_blocks_worker :
    ¬ ∀ (n capacity : ℕ) (program : Program ℕ), 0 < n → 0 < capacity →
      ∀ state, Reachable (step .ucLink) (start n capacity program) state →
        ¬ Deadlocked .ucLink state := by
  intro never
  have evaluated : (runSteps (step .ucLink) (start 1 1 pairProgram) consumerFirstRun).map
      (fun s => ((s.scheduler.workers 0).phase, (s.scheduler.tasks 1).point,
        (s.scheduler.tasks 1).spawn.isScheduled, s.scheduler.retired)) =
          some (.inFiber 1, .body, true, []) := by
    decide
  have evaluatedChannel :
      (runSteps (step .ucLink) (start 1 1 pairProgram) consumerFirstRun).map
        (fun s => (s.channel.notEmpty, s.channel.notFull)) = some (⟨[1], []⟩, ⟨[], []⟩) := by
    decide
  obtain ⟨state, ran, facts⟩ := Option.map_eq_some_iff.mp evaluated
  rw [ran, Option.map_some, Option.some.injEq] at evaluatedChannel
  simp only [Prod.mk.injEq] at facts evaluatedChannel
  obtain ⟨inside, body, scheduled, retired⟩ := facts
  obtain ⟨receivers, senders⟩ := evaluatedChannel
  refine never 1 1 pairProgram (by decide) (by decide) state (reachable_of_runSteps ran) ?_
  refine deadlocked_of_asleep inside body scheduled (by simp [retired]) (Or.inl ?_)
    (by rw [receivers]) (by rw [senders])
  exact CondVar.mem_calls_of_asleep (by simp [receivers])

end Pipeline

end Kode.Concurrency
