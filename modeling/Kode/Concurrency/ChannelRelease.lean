/-
# Closing a channel releases everyone

A closed channel is a drain. Nobody sleeps on it any more, since `close` wakes
every sleeper and no later call waits, so each call that was inside its wait is
woken and only has to take the lock. When it does, it returns: a sender with
`false`, a receiver with the oldest value that is left or, when none is left,
with `false`.

The order in which the woken calls get the lock is not determined, and new calls
may come in between. So the theorem is about the log of an arbitrary run behind
the closing: the calls that had been waiting are those the log released and those
that still wait, no call is released twice, and as long as one waits some woken
call can be resumed.
-/

import Kode.Concurrency.ChannelWakeup
import Kode.Concurrency.ChannelHistory

namespace Kode.Concurrency.Channel

open Kode.Library

universe u v

variable {ι : Type u} {T : Type v}

/-- A call inside its wait. -/
inductive Call (ι : Type u) (T : Type v)
  | sending (caller : ι) (value : T)
  | receiving (caller : ι)
  deriving DecidableEq, Repr

/-- The call of a sender with its value. -/
def Call.ofSender (call : ι × T) : Call ι T := .sending call.1 call.2

/-- The calls inside their wait. -/
def pending (channel : Channel ι T) : List (Call ι T) :=
  channel.notFull.calls.map Call.ofSender ++ channel.notEmpty.calls.map Call.receiving

/-- A woken call takes the lock. -/
def Event.isResumption : Event ι T → Bool
  | .resumeSend .. | .resumeReceive .. => true
  | _ => false

/-- The call that returned from its wait. -/
def released : Event ι T × Answer ι T → Option (Call ι T)
  | (.resumeSend .., .sendReturned caller value false) => some (.sending caller value)
  | (.resumeReceive .., .receiveReturned caller _) => some (.receiving caller)
  | _ => none

/-- Closed with nobody asleep, which is what `close` leaves behind. -/
structure Draining (channel : Channel ι T) : Prop where
  closed : channel.closed = true
  receivers : channel.notEmpty.asleep = []
  senders : channel.notFull.asleep = []

theorem draining_of_reached {capacity : ℕ} {system : System ι T}
    (reached : Reached capacity system) (closed : system.1.closed = true) :
    Draining system.1 := by
  obtain ⟨balanced, _⟩ := balanced_of_reached reached
  have notOpen : system.1.closed ≠ false := by simp [closed]
  exact ⟨closed, by_contra fun asleep => notOpen (balanced.receivers asleep).1,
    by_contra fun asleep => notOpen (balanced.senders asleep).1⟩

/-- What one step does to a channel that drains. -/
structure Drains (channel target : Channel ι T) (event : Event ι T) (answer : Answer ι T) :
    Prop where
  draining : Draining target
  pending : channel.pending.Perm ((released (event, answer)).toList ++ target.pending)
  buffer : channel.buffer = answer.delivered.toList ++ target.buffer
  awake : ∀ caller, answer ≠ .waiting caller
  resumed : event.isResumption = true → (released (event, answer)).isSome = true

/-! ## The operations on a channel that drains -/

theorem Draining.rouse_nobody {α : Type*} {cond : CondVar α} (nobody : cond.asleep = [])
    (position : ℕ) : cond.rouse position = cond := by
  simp [CondVar.rouse, nobody]

theorem Draining.pop {channel : Channel ι T} (draining : Draining channel) (choice : ℕ) :
    channel.pop choice = { channel with buffer := channel.buffer.tail } := by
  have nobody : channel.notFull.notifyOne choice = channel.notFull :=
    rouse_nobody draining.senders _
  simp [Channel.pop, nobody]

/-- `receive` takes the oldest value or reports the end; it does not wait. -/
theorem Draining.receive {channel : Channel ι T} (draining : Draining channel) (caller : ι)
    (choice : ℕ) :
    channel.receive caller choice =
      ({ channel with buffer := channel.buffer.tail },
        .receiveReturned caller channel.buffer.head?) := by
  unfold Channel.receive
  split
  · rename_i value rest holds
    rw [draining.pop, holds]
    rfl
  · rename_i empty
    rw [if_pos draining.closed, empty]
    exact congrArg (·, _) (by rw [List.tail_nil, ← empty])

theorem Draining.tryReceive {channel : Channel ι T} (draining : Draining channel) (caller : ι)
    (choice : ℕ) :
    channel.tryReceive caller choice =
      ({ channel with buffer := channel.buffer.tail },
        .tryReceiveReturned caller channel.buffer.head?) := by
  unfold Channel.tryReceive
  split
  · rename_i value rest holds
    rw [draining.pop, holds]
    rfl
  · rename_i empty
    rw [empty]
    exact congrArg (·, _) (by rw [List.tail_nil, ← empty])

/-- A sender that takes the lock is refused. -/
theorem Draining.sendWait {channel : Channel ι T} (draining : Draining channel) (caller : ι)
    (value : T) (choice : ℕ) :
    channel.sendWait caller value choice = (channel, .sendReturned caller value false) := by
  simp [Channel.sendWait, draining.closed]

theorem head_append_tail (buffer : List T) : buffer = buffer.head?.toList ++ buffer.tail := by
  cases buffer <;> rfl

/-- A step that changes nothing and returns at once. -/
theorem Draining.unchanged {channel : Channel ι T} (draining : Draining channel)
    {event : Event ι T} {answer : Answer ι T} (delivered : answer.delivered = none)
    (stays : released (event, answer) = none) (fresh : event.isResumption = false)
    (awake : ∀ caller, answer ≠ .waiting caller) : Drains channel channel event answer where
  draining := draining
  pending := by rw [stays]; exact List.Perm.refl _
  buffer := by rw [delivered]; rfl
  awake := awake
  resumed resumes := by simp [fresh] at resumes

/-- A step that takes the oldest value, if there is one, for a call that did not wait. -/
theorem Draining.taken {channel : Channel ι T} (draining : Draining channel)
    {event : Event ι T} {answer : Answer ι T} (delivered : answer.delivered = channel.buffer.head?)
    (stays : released (event, answer) = none) (fresh : event.isResumption = false)
    (awake : ∀ caller, answer ≠ .waiting caller) :
    Drains channel { channel with buffer := channel.buffer.tail } event answer where
  draining := ⟨draining.closed, draining.receivers, draining.senders⟩
  pending := by rw [stays]; exact List.Perm.refl _
  buffer := by rw [delivered]; exact head_append_tail _
  awake := awake
  resumed resumes := by simp [fresh] at resumes

theorem Draining.close {channel : Channel ι T} (draining : Draining channel) :
    channel.close = channel := by
  obtain ⟨closed, receivers, senders⟩ := draining
  obtain ⟨buffer, capacity, flag, ⟨asleepReceivers, wokenReceivers⟩,
    ⟨asleepSenders, wokenSenders⟩⟩ := channel
  simp only at closed receivers senders
  subst closed receivers senders
  simp [Channel.close, CondVar.notifyAll]

/-- A woken sender takes the lock and is refused. -/
theorem Draining.resumeSend {channel : Channel ι T} (draining : Draining channel)
    {position : ℕ} (choice : ℕ) {call : ι × T} {rest : CondVar (ι × T)}
    (found : channel.notFull.resume position = some (call, rest)) :
    Drains channel { channel with notFull := rest } (.resumeSend position choice)
      (.sendReturned call.1 call.2 false) where
  draining := ⟨draining.closed, draining.receivers,
    (CondVar.resume_eq_some found).1.trans draining.senders⟩
  pending := by
    have leaves := (CondVar.calls_resume found).map Call.ofSender
    exact leaves.append_right (channel.notEmpty.calls.map Call.receiving)
  buffer := rfl
  awake := by simp
  resumed _ := rfl

/-- A woken receiver takes the lock and returns. -/
theorem Draining.resumeReceive {channel : Channel ι T} (draining : Draining channel)
    {position choice : ℕ} {caller : ι} {rest : CondVar ι}
    (found : channel.notEmpty.resume position = some (caller, rest)) :
    Drains channel { channel with notEmpty := rest, buffer := channel.buffer.tail }
      (.resumeReceive position choice) (.receiveReturned caller channel.buffer.head?) where
  draining := ⟨draining.closed, (CondVar.resume_eq_some found).1.trans draining.receivers,
    draining.senders⟩
  pending := by
    have leaves := (CondVar.calls_resume found).map (Call.receiving (T := T))
    exact (leaves.append_left (channel.notFull.calls.map Call.ofSender)).trans List.perm_middle
  buffer := head_append_tail _
  awake := by simp
  resumed _ := rfl

theorem drains_of_step {channel target : Channel ι T} {event : Event ι T} {answer : Answer ι T}
    (draining : Draining channel) (taken : channel.step event = some (target, answer)) :
    Drains channel target event answer := by
  cases event with
  | send caller value choice =>
      simp only [step, send, draining.closed, if_true, Option.some.injEq, Prod.mk.injEq] at taken
      obtain ⟨rfl, rfl⟩ := taken
      exact draining.unchanged rfl rfl rfl (by simp)
  | resumeSend position choice =>
      obtain ⟨⟨call, rest⟩, found, same⟩ := Option.map_eq_some_iff.mp taken
      have woken := draining.resumeSend choice found
      rw [woken.draining.sendWait] at same
      obtain ⟨rfl, rfl⟩ := Prod.mk.inj same
      exact woken
  | receive caller choice =>
      simp only [step, draining.receive, Option.some.injEq, Prod.mk.injEq] at taken
      obtain ⟨rfl, rfl⟩ := taken
      exact draining.taken rfl rfl rfl (by simp)
  | resumeReceive position choice =>
      obtain ⟨⟨caller, rest⟩, found, same⟩ := Option.map_eq_some_iff.mp taken
      have asleep := (CondVar.resume_eq_some found).1.trans draining.receivers
      have left : Draining { channel with notEmpty := rest } :=
        ⟨draining.closed, asleep, draining.senders⟩
      rw [left.receive] at same
      obtain ⟨rfl, rfl⟩ := Prod.mk.inj same
      exact draining.resumeReceive found
  | trySend caller value choice =>
      simp only [step, trySend, draining.closed, if_true, Option.some.injEq,
        Prod.mk.injEq] at taken
      obtain ⟨rfl, rfl⟩ := taken
      exact draining.unchanged rfl rfl rfl (by simp)
  | tryReceive caller choice =>
      simp only [step, draining.tryReceive, Option.some.injEq, Prod.mk.injEq] at taken
      obtain ⟨rfl, rfl⟩ := taken
      exact draining.taken rfl rfl rfl (by simp)
  | close =>
      simp only [step, draining.close, Option.some.injEq, Prod.mk.injEq] at taken
      obtain ⟨rfl, rfl⟩ := taken
      exact draining.unchanged rfl rfl rfl (by simp)
  | spuriousSender position =>
      simp only [step, Draining.rouse_nobody draining.senders, Option.some.injEq,
        Prod.mk.injEq] at taken
      obtain ⟨rfl, rfl⟩ := taken
      exact draining.unchanged rfl rfl rfl (by simp)
  | spuriousReceiver position =>
      simp only [step, Draining.rouse_nobody draining.receivers, Option.some.injEq,
        Prod.mk.injEq] at taken
      obtain ⟨rfl, rfl⟩ := taken
      exact draining.unchanged rfl rfl rfl (by simp)

/-- While a call waits on a channel that drains, a woken call can take the lock. -/
theorem Draining.resumption_enabled {channel : Channel ι T} (draining : Draining channel)
    (waits : channel.pending ≠ []) :
    ∃ event, event.isResumption = true ∧ (channel.step event).isSome = true := by
  simp only [Channel.pending, CondVar.calls, draining.receivers, draining.senders, List.nil_append,
    ne_eq, List.append_eq_nil_iff, List.map_eq_nil_iff, not_and_or] at waits
  rcases waits with sender | receiver
  · obtain ⟨call, rest, woken⟩ := List.exists_cons_of_ne_nil sender
    exact ⟨.resumeSend 0 0, rfl, by simp [step, CondVar.resume, woken]⟩
  · obtain ⟨caller, rest, woken⟩ := List.exists_cons_of_ne_nil receiver
    exact ⟨.resumeReceive 0 0, rfl, by simp [step, CondVar.resume, woken]⟩

/-! ## The run behind the closing -/

/-- The channel and the log of a run that began when it was closed. -/
structure Drained (start : Channel ι T) (later : Channel ι T × List (Event ι T × Answer ι T)) :
    Prop where
  draining : Draining later.1
  pending : start.pending.Perm (later.2.filterMap released ++ later.1.pending)
  buffer : start.buffer = later.2.filterMap (·.2.delivered) ++ later.1.buffer
  awake : ∀ entry ∈ later.2, (∀ caller, entry.2 ≠ .waiting caller) ∧
    (entry.1.isResumption = true → (released entry).isSome = true)

theorem drained_step {start : Channel ι T} {state target : Channel ι T × List _}
    {event : Event ι T} (drained : Drained start state)
    (taken : logged step state event = some target) : Drained start target := by
  obtain ⟨answer, stepped, log⟩ := logged_eq_some_iff.mp taken
  have drains := drains_of_step drained.draining stepped
  refine ⟨drains.draining, ?_, ?_, ?_⟩
  · have moved := drained.pending.trans (drains.pending.append_left _)
    rw [log, List.filterMap_append, List.append_assoc]
    cases found : released (event, answer) <;> simpa [found] using moved
  · have moved := drained.buffer
    rw [drains.buffer] at moved
    rw [log, List.filterMap_append, List.append_assoc, moved]
    cases found : answer.delivered <;> simp [found]
  · intro entry present
    rw [log, List.mem_append, List.mem_singleton] at present
    rcases present with earlier | rfl
    · exact drained.awake entry earlier
    · exact ⟨drains.awake, drains.resumed⟩

/-- Take a reachable state in which the channel is closed, and any run from there on. The
calls that were waiting are those the run has released and those that still wait; every
woken call that takes the lock is released, a sender with `false`; no call goes to sleep;
the receiving calls are handed what was buffered, in its order; and while a call waits, one
can take the lock. -/
theorem closing_releases_everyone (capacity : ℕ) (system : System ι T)
    (reached : Reached capacity system) (closed : system.1.closed = true)
    (later : Channel ι T × List (Event ι T × Answer ι T))
    (run : Reachable (logged step) (system.1, []) later) :
    system.1.pending.Perm (later.2.filterMap released ++ later.1.pending) ∧
    (∀ entry ∈ later.2, (∀ caller, entry.2 ≠ .waiting caller) ∧
      (entry.1.isResumption = true → (released entry).isSome = true)) ∧
    system.1.buffer = later.2.filterMap (·.2.delivered) ++ later.1.buffer ∧
    (later.1.pending ≠ [] →
      ∃ event, event.isResumption = true ∧ (later.1.step event).isSome = true) := by
  have drained : Drained system.1 later :=
    run.invariant ⟨draining_of_reached reached closed, List.Perm.refl _, rfl, by simp⟩
      fun _ _ _ drained _ taken => drained_step drained taken
  exact ⟨drained.pending, drained.awake, drained.buffer, drained.draining.resumption_enabled⟩

/-- A channel of capacity one that was closed while a sender waited on it. -/
def closedChannel : System ℕ ℕ :=
  ({ buffer := [7], capacity := 1, closed := true, notEmpty := ⟨[], []⟩,
     notFull := ⟨[], [(1, 8)]⟩ },
    [.sendReturned 0 7 true, .waiting 1, .closeReturned])

/-- The sender takes the lock, then a receiver comes. -/
def closedChannelEnd : Channel ℕ ℕ × List (Event ℕ ℕ × Answer ℕ ℕ) :=
  ({ buffer := [], capacity := 1, closed := true, notEmpty := ⟨[], []⟩, notFull := ⟨[], []⟩ },
    [(.resumeSend 0 0, .sendReturned 1 8 false), (.receive 2 0, .receiveReturned 2 (some 7))])

theorem closing_releases_everyone_closedChannel :
    closedChannel.1.pending.Perm
      (closedChannelEnd.2.filterMap released ++ closedChannelEnd.1.pending) := by
  have reached : Reached 1 closedChannel := by
    apply reachable_of_runSteps
    show runSteps (recorded step) (create 1, []) [.send 0 7 0, .send 1 8 0, .close] =
      some closedChannel
    decide
  have run : Reachable (logged step) (closedChannel.1, []) closedChannelEnd := by
    apply reachable_of_runSteps
    show runSteps (logged step) (closedChannel.1, []) [.resumeSend 0 0, .receive 2 0] =
      some closedChannelEnd
    decide
  exact (closing_releases_everyone 1 closedChannel reached rfl closedChannelEnd run).1

end Kode.Concurrency.Channel
