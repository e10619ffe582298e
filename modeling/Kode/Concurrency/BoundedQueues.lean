/-
# Named channels as bounded queues

What the named channels of `KodeRuntime` are to a program that uses them from one thread:
under each name a queue with the capacity it was created with, where 0 stands for no bound.
A `send` to a full queue and a `receive` from an empty one block, and nothing can then take
them further.

The map of channels and the queues answer the same operations in the same way and block on
the same ones. The queue of a channel is read off its state, so the correspondence is a
function, and each operation commutes with it.
-/

import Kode.Concurrency.ChannelRegistry

namespace Kode.Concurrency

open Kode.Library

/-- A capacity and the values that are waiting, under each created name. -/
abbrev BoundedQueues := String → Option (ℕ × List String)

/-- No channel has been closed. The three operations of `KodeRuntime` close none. -/
def ChannelMap.AllOpen (channels : ChannelMap) : Prop :=
  ∀ name channel, channels name = some channel → channel.closed = false

namespace BoundedQueues

/-- No name has been created. -/
def empty : BoundedQueues := fun _ => none

/-- There is room for another value. -/
def HasRoom (queue : ℕ × List String) : Prop := queue.1 = 0 ∨ queue.2.length < queue.1

instance (queue : ℕ × List String) : Decidable (HasRoom queue) :=
  inferInstanceAs (Decidable (queue.1 = 0 ∨ queue.2.length < queue.1))

/-- An operation without an answer blocks. -/
def step (queues : BoundedQueues) : RegistryOp → Option (BoundedQueues × RegistryAnswer)
  | .create name capacity => some (Function.update queues name (some (capacity, [])), .created)
  | .send name value =>
      match queues name with
      | none => some (queues, .notFound)
      | some queue =>
          if HasRoom queue then
            some (Function.update queues name (some (queue.1, queue.2 ++ [value])), .sent true)
          else none
  | .receive name =>
      match queues name with
      | none => some (queues, .notFound)
      | some (_, []) => none
      | some (capacity, value :: values) =>
          some (Function.update queues name (some (capacity, values)), .received (some value))

/-- The queue of a channel. -/
def ofChannel (channel : Channel Unit String) : ℕ × List String :=
  (channel.capacity, channel.buffer)

/-- The queues of the channels of a runtime. -/
def ofRuntime (runtime : KodeRuntime) : BoundedQueues :=
  fun name => (runtime.channels name).map ofChannel

theorem ofRuntime_update (channels : ChannelMap) (name : String) (channel : Channel Unit String) :
    ofRuntime ⟨Function.update channels name (some channel)⟩ =
      Function.update (ofRuntime ⟨channels⟩) name (some (ofChannel channel)) := by
  funext other
  by_cases same : other = name
  · subst same
    simp [ofRuntime]
  · simp [ofRuntime, same]

/-! ## One operation -/

/-- `send` on an open channel adds the value if there is room. -/
theorem send_of_room {channel : Channel Unit String} (isOpen : channel.closed = false)
    (room : HasRoom (ofChannel channel)) (value : String) :
    ∃ after, channel.send () value 0 = (after, .sendReturned () value true) ∧
      ofChannel after = (channel.capacity, channel.buffer ++ [value]) ∧ after.closed = false := by
  refine ⟨channel.push value 0, ?_, rfl, isOpen⟩
  rw [Channel.send, isOpen, if_neg Bool.false_ne_true]
  split_ifs with bounded
  · have shorter : channel.buffer.length < channel.capacity :=
      room.resolve_left (Nat.ne_of_gt bounded)
    rw [Channel.sendWait, if_pos (Or.inl shorter), isOpen, if_neg Bool.false_ne_true]
  · rfl

/-- Without room it waits. -/
theorem send_of_full {channel : Channel Unit String} (isOpen : channel.closed = false)
    (full : ¬ HasRoom (ofChannel channel)) (value : String) :
    ∃ after, channel.send () value 0 = (after, .waiting ()) := by
  obtain ⟨bounded, longer⟩ := not_or.mp full
  have positive : 0 < channel.capacity := Nat.pos_of_ne_zero bounded
  have noRoom : ¬ (channel.buffer.length < channel.capacity ∨ channel.closed = true) := by
    rw [isOpen]
    exact not_or.mpr ⟨longer, Bool.false_ne_true⟩
  refine ⟨(channel.send () value 0).1, Prod.ext rfl ?_⟩
  rw [Channel.send, if_neg (by rw [isOpen]; exact Bool.false_ne_true), if_pos positive,
    Channel.sendWait, if_neg noRoom]

/-- `receive` from an open channel takes the oldest value. -/
theorem receive_of_cons {channel : Channel Unit String} (isOpen : channel.closed = false)
    {value : String} {values : List String} (waiting : channel.buffer = value :: values) :
    ∃ after, channel.receive () 0 = (after, .receiveReturned () (some value)) ∧
      ofChannel after = (channel.capacity, values) ∧ after.closed = false := by
  refine ⟨channel.pop 0, ?_, ?_, isOpen⟩
  · rw [Channel.receive, waiting]
  · rw [ofChannel, Channel.pop, waiting]
    rfl

/-- If there is none it waits. -/
theorem receive_of_nil {channel : Channel Unit String} (isOpen : channel.closed = false)
    (nothing : channel.buffer = []) : ∃ after, channel.receive () 0 = (after, .waiting ()) := by
  refine ⟨{ channel with notEmpty := channel.notEmpty.wait () }, ?_⟩
  rw [Channel.receive, nothing]
  simp only [isOpen, Bool.false_eq_true, if_false]

/-- The queues answer an operation as the channels do, and block when they do. -/
theorem step_ofRuntime {runtime : KodeRuntime} (allOpen : runtime.channels.AllOpen)
    (op : RegistryOp) :
    step (ofRuntime runtime) op =
      (runtime.step op).map fun answered => (ofRuntime answered.1, answered.2) := by
  obtain ⟨channels⟩ := runtime
  cases op with
  | create name capacity =>
      rw [KodeRuntime.step, Option.map_some, ChannelMap.create, ofRuntime_update]
      rfl
  | send name value =>
      cases found : channels name with
      | none => simp [step, ofRuntime, found, KodeRuntime.step, ChannelMap.send]
      | some channel =>
          have isOpen := allOpen name channel found
          have queue : ofRuntime ⟨channels⟩ name = some (ofChannel channel) := by
            simp [ofRuntime, found]
          by_cases room : HasRoom (ofChannel channel)
          · obtain ⟨after, sent, same, -⟩ := send_of_room isOpen room value
            simp only [step, queue, if_pos room, KodeRuntime.step, ChannelMap.send, found, sent,
              Option.map_some, ofRuntime_update, same]
            rfl
          · obtain ⟨after, waits⟩ := send_of_full isOpen room value
            simp [step, queue, if_neg room, KodeRuntime.step, ChannelMap.send, found, waits]
  | receive name =>
      cases found : channels name with
      | none => simp [step, ofRuntime, found, KodeRuntime.step, ChannelMap.receive]
      | some channel =>
          have isOpen := allOpen name channel found
          have queue : ofRuntime ⟨channels⟩ name = some (channel.capacity, channel.buffer) := by
            simp [ofRuntime, found, ofChannel]
          cases waiting : channel.buffer with
          | nil =>
              obtain ⟨after, waits⟩ := receive_of_nil isOpen waiting
              simp [step, queue, waiting, KodeRuntime.step, ChannelMap.receive, found, waits]
          | cons value values =>
              obtain ⟨after, received, same, -⟩ := receive_of_cons isOpen waiting
              simp only [step, queue, waiting, KodeRuntime.step, ChannelMap.receive, found,
                received, Option.map_some, ofRuntime_update, same]

theorem allOpen_step {runtime next : KodeRuntime} {op : RegistryOp} {answer : RegistryAnswer}
    (allOpen : runtime.channels.AllOpen) (taken : runtime.step op = some (next, answer)) :
    next.channels.AllOpen := by
  have describes : NamedQueues.Describes (fun name => (runtime.channels name).map (·.buffer))
      runtime.channels := fun name => ⟨rfl, allOpen name⟩
  obtain ⟨follow, -, after⟩ := describes.step taken
  exact fun name => (after name).2

theorem allOpen_start : KodeRuntime.start.channels.AllOpen := by
  intro name channel found
  cases found

/-- The channels of a runtime are bounded queues: the same operations are answered, and in
the same way. -/
theorem channels_are_bounded_queues (ops : List RegistryOp) :
    transcript KodeRuntime.step .start ops = transcript step empty ops :=
  (transcript_of_commutes ofRuntime (·.channels.AllOpen) allOpen_step
    (fun op allOpen => step_ofRuntime allOpen op) allOpen_start ops).symm

end BoundedQueues

end Kode.Concurrency
