/-
# The channel monitor

`Channel<T>` protects a queue by one mutex and two condition variables. Every
operation holds the mutex from its first to its last instruction except while it
waits, so an operation is one step of the monitor up to the point where it
returns or goes to sleep, and one further step each time it re-takes the lock.

A waiting call is kept in the condition variable it waits on, with what it needs
to continue: a sender its value, a receiver nothing but its identity. Callers are
named by an arbitrary type, so there may be any number of them. Notifications
carry the choice of the thread they wake, and a sleeper may also wake without a
notification, as a condition variable permits.
-/

import Kode.Library.StepSystem
import Kode.Library.Monitor

namespace Kode.Concurrency

open Kode.Library

universe u v

/-- The fields of `Channel<T>`. `notEmpty` holds the receivers waiting on
`not_empty_`, `notFull` the senders waiting on `not_full_`. -/
structure Channel (ι : Type u) (T : Type v) where
  buffer : List T
  capacity : ℕ
  closed : Bool
  notEmpty : CondVar ι
  notFull : CondVar (ι × T)
  deriving DecidableEq, Repr

namespace Channel

variable {ι : Type u} {T : Type v}

/-- What a step tells its caller: the value a call returned, or that the call is
asleep. -/
inductive Answer (ι : Type u) (T : Type v)
  | sendReturned (caller : ι) (value : T) (result : Bool)
  | trySendReturned (caller : ι) (value : T) (result : Bool)
  | receiveReturned (caller : ι) (result : Option T)
  | tryReceiveReturned (caller : ι) (result : Option T)
  | waiting (caller : ι)
  | closeReturned
  | roused
  deriving DecidableEq, Repr

/-- One step of the monitor. The last argument of an operation that notifies is
the choice of the sleeper it wakes; `position` picks the woken call that gets
the lock. -/
inductive Event (ι : Type u) (T : Type v)
  | send (caller : ι) (value : T) (choice : ℕ)
  | resumeSend (position : ℕ) (choice : ℕ)
  | receive (caller : ι) (choice : ℕ)
  | resumeReceive (position : ℕ) (choice : ℕ)
  | trySend (caller : ι) (value : T) (choice : ℕ)
  | tryReceive (caller : ι) (choice : ℕ)
  | close
  | spuriousSender (position : ℕ)
  | spuriousReceiver (position : ℕ)
  deriving DecidableEq, Repr

/-- `Channel(capacity)`. -/
def create (capacity : ℕ) : Channel ι T :=
  { buffer := [], capacity, closed := false, notEmpty := .empty, notFull := .empty }

/-- `buffer_.push(value); not_empty_.notify_one()`. -/
def push (channel : Channel ι T) (value : T) (choice : ℕ) : Channel ι T :=
  { channel with
    buffer := channel.buffer ++ [value]
    notEmpty := channel.notEmpty.notifyOne choice }

/-- `buffer_.pop()` with the notification of a sender on a bounded channel. -/
def pop (channel : Channel ι T) (choice : ℕ) : Channel ι T :=
  { channel with
    buffer := channel.buffer.tail
    notFull := if 0 < channel.capacity then channel.notFull.notifyOne choice
      else channel.notFull }

/-- The wait of `send` on `not_full_` and what follows it. The same code runs
when the call starts to wait and each time it re-takes the lock. -/
def sendWait (channel : Channel ι T) (caller : ι) (value : T) (choice : ℕ) :
    Channel ι T × Answer ι T :=
  if channel.buffer.length < channel.capacity ∨ channel.closed then
    if channel.closed then (channel, .sendReturned caller value false)
    else (channel.push value choice, .sendReturned caller value true)
  else ({ channel with notFull := channel.notFull.wait (caller, value) }, .waiting caller)

/-- `send`. Only a bounded channel waits. -/
def send (channel : Channel ι T) (caller : ι) (value : T) (choice : ℕ) :
    Channel ι T × Answer ι T :=
  if channel.closed then (channel, .sendReturned caller value false)
  else if 0 < channel.capacity then channel.sendWait caller value choice
  else (channel.push value choice, .sendReturned caller value true)

/-- `receive`, from its wait on `not_empty_` on. -/
def receive (channel : Channel ι T) (caller : ι) (choice : ℕ) : Channel ι T × Answer ι T :=
  match channel.buffer with
  | value :: _ => (channel.pop choice, .receiveReturned caller (some value))
  | [] =>
      if channel.closed then (channel, .receiveReturned caller none)
      else ({ channel with notEmpty := channel.notEmpty.wait caller }, .waiting caller)

/-- `try_send`. -/
def trySend (channel : Channel ι T) (caller : ι) (value : T) (choice : ℕ) :
    Channel ι T × Answer ι T :=
  if channel.closed then (channel, .trySendReturned caller value false)
  else if 0 < channel.capacity ∧ channel.capacity ≤ channel.buffer.length then
    (channel, .trySendReturned caller value false)
  else (channel.push value choice, .trySendReturned caller value true)

/-- `try_receive`. -/
def tryReceive (channel : Channel ι T) (caller : ι) (choice : ℕ) :
    Channel ι T × Answer ι T :=
  match channel.buffer with
  | value :: _ => (channel.pop choice, .tryReceiveReturned caller (some value))
  | [] => (channel, .tryReceiveReturned caller none)

/-- `close`. -/
def close (channel : Channel ι T) : Channel ι T :=
  { channel with
    closed := true
    notEmpty := channel.notEmpty.notifyAll
    notFull := channel.notFull.notifyAll }

/-- The monitor as a step function. -/
def step (channel : Channel ι T) : Event ι T → Option (Channel ι T × Answer ι T)
  | .send caller value choice => some (channel.send caller value choice)
  | .resumeSend position choice =>
      (channel.notFull.resume position).map fun resumed =>
        { channel with notFull := resumed.2 }.sendWait resumed.1.1 resumed.1.2 choice
  | .receive caller choice => some (channel.receive caller choice)
  | .resumeReceive position choice =>
      (channel.notEmpty.resume position).map fun resumed =>
        { channel with notEmpty := resumed.2 }.receive resumed.1 choice
  | .trySend caller value choice => some (channel.trySend caller value choice)
  | .tryReceive caller choice => some (channel.tryReceive caller choice)
  | .close => some (channel.close, .closeReturned)
  | .spuriousSender position =>
      some ({ channel with notFull := channel.notFull.rouse position }, .roused)
  | .spuriousReceiver position =>
      some ({ channel with notEmpty := channel.notEmpty.rouse position }, .roused)

/-- The monitor together with everything it has answered so far. -/
abbrev System (ι : Type u) (T : Type v) := Channel ι T × List (Answer ι T)

/-- A run of a channel of the given capacity reaches this state with these
answers. -/
def Reached (capacity : ℕ) (system : System ι T) : Prop :=
  Reachable (recorded step) (create capacity, []) system

/-! ## What one step does to the queue -/

/-- The value an answer reports as accepted by `send` or `try_send`. -/
def Answer.accepted : Answer ι T → Option T
  | .sendReturned _ value true => some value
  | .trySendReturned _ value true => some value
  | _ => none

/-- The value an answer reports as delivered by `receive` or `try_receive`. -/
def Answer.delivered : Answer ι T → Option T
  | .receiveReturned _ result => result
  | .tryReceiveReturned _ result => result
  | _ => none

/-- Everything a step can do to the buffer and the closing flag, with the answer
that goes with it. -/
inductive Effect (channel target : Channel ι T) (answer : Answer ι T) : Prop
  | accept (value : T) (capacity : target.capacity = channel.capacity)
      (wasOpen : channel.closed = false) (isOpen : target.closed = false)
      (room : 0 < channel.capacity → channel.buffer.length < channel.capacity)
      (buffer : target.buffer = channel.buffer ++ [value])
      (accepted : answer.accepted = some value) (delivered : answer.delivered = none)
      (notRefused : ∀ caller, answer ≠ .receiveReturned caller none)
  | deliver (value : T) (capacity : target.capacity = channel.capacity)
      (closed : target.closed = channel.closed)
      (buffer : channel.buffer = value :: target.buffer)
      (accepted : answer.accepted = none) (delivered : answer.delivered = some value)
      (notRefused : ∀ caller, answer ≠ .receiveReturned caller none)
  | quiet (capacity : target.capacity = channel.capacity)
      (closed : channel.closed = true → target.closed = true)
      (buffer : target.buffer = channel.buffer)
      (accepted : answer.accepted = none) (delivered : answer.delivered = none)
      (refused : ∀ caller, answer = .receiveReturned caller none →
        channel.closed = true ∧ channel.buffer = [])

/-- An effect only reads the buffer, the capacity and the closing flag of the
state it starts from, so it does not see a waiter leave its queue. -/
theorem Effect.of_eq {channel other target : Channel ι T} {answer : Answer ι T}
    (effect : Effect other target answer) (buffer : other.buffer = channel.buffer)
    (capacity : other.capacity = channel.capacity) (closed : other.closed = channel.closed) :
    Effect channel target answer := by
  cases effect with
  | accept value kept wasOpen isOpen room after accepted delivered notRefused =>
      rw [buffer, capacity] at room
      exact .accept value (kept.trans capacity) (closed ▸ wasOpen) isOpen room (buffer ▸ after)
        accepted delivered notRefused
  | deliver value kept stays before accepted delivered notRefused =>
      exact .deliver value (kept.trans capacity) (stays.trans closed) (buffer ▸ before)
        accepted delivered notRefused
  | quiet kept stays after accepted delivered refused =>
      rw [buffer, closed] at refused
      exact .quiet (kept.trans capacity) (closed ▸ stays) (after.trans buffer)
        accepted delivered refused

/-- Pushing into an open channel with room is an acceptance, whichever of the two
sending calls reports it. -/
theorem push_effect {channel : Channel ι T} {value : T} {answer : Answer ι T} (choice : ℕ)
    (isOpen : ¬ channel.closed = true)
    (room : 0 < channel.capacity → channel.buffer.length < channel.capacity)
    (accepted : answer.accepted = some value) (delivered : answer.delivered = none)
    (notRefused : ∀ caller, answer ≠ .receiveReturned caller none) :
    Effect channel (channel.push value choice) answer := by
  have wasOpen : channel.closed = false := by simpa using isOpen
  exact .accept value rfl wasOpen wasOpen room rfl accepted delivered notRefused

theorem sendWait_effect (channel : Channel ι T) (caller : ι) (value : T) (choice : ℕ) :
    Effect channel (channel.sendWait caller value choice).1
      (channel.sendWait caller value choice).2 := by
  unfold sendWait
  split
  · rename_i ready
    split
    · exact .quiet rfl id rfl rfl rfl (by simp)
    · rename_i isOpen
      have room : channel.buffer.length < channel.capacity := ready.resolve_right isOpen
      exact push_effect choice isOpen (fun _ => room) rfl rfl (by simp)
  · exact .quiet rfl id rfl rfl rfl (by simp)

theorem send_effect (channel : Channel ι T) (caller : ι) (value : T) (choice : ℕ) :
    Effect channel (channel.send caller value choice).1
      (channel.send caller value choice).2 := by
  unfold send
  split
  · exact .quiet rfl id rfl rfl rfl (by simp)
  · rename_i isOpen
    split
    · exact channel.sendWait_effect caller value choice
    · rename_i unbounded
      exact push_effect choice isOpen (fun bounded => absurd bounded unbounded) rfl rfl (by simp)

theorem receive_effect (channel : Channel ι T) (caller : ι) (choice : ℕ) :
    Effect channel (channel.receive caller choice).1 (channel.receive caller choice).2 := by
  unfold receive
  split
  · rename_i value rest holds
    exact .deliver value rfl rfl (by simp [pop, holds]) rfl rfl (by simp)
  · rename_i empty
    split
    · rename_i isClosed
      exact .quiet rfl id rfl rfl rfl fun _ _ => ⟨isClosed, empty⟩
    · exact .quiet rfl id rfl rfl rfl (by simp)

theorem trySend_effect (channel : Channel ι T) (caller : ι) (value : T) (choice : ℕ) :
    Effect channel (channel.trySend caller value choice).1
      (channel.trySend caller value choice).2 := by
  unfold trySend
  split
  · exact .quiet rfl id rfl rfl rfl (by simp)
  · rename_i isOpen
    split
    · exact .quiet rfl id rfl rfl rfl (by simp)
    · rename_i room
      exact push_effect choice isOpen
        (fun bounded => Nat.lt_of_not_le fun full => room ⟨bounded, full⟩) rfl rfl (by simp)

theorem tryReceive_effect (channel : Channel ι T) (caller : ι) (choice : ℕ) :
    Effect channel (channel.tryReceive caller choice).1
      (channel.tryReceive caller choice).2 := by
  unfold tryReceive
  split
  · rename_i value rest holds
    exact .deliver value rfl rfl (by simp [pop, holds]) rfl rfl (by simp)
  · exact .quiet rfl id rfl rfl rfl (by simp)

/-- Every step of the monitor has one of the three effects. -/
theorem step_effect {channel target : Channel ι T} {event : Event ι T} {answer : Answer ι T}
    (taken : channel.step event = some (target, answer)) : Effect channel target answer := by
  cases event with
  | send caller value choice =>
      have effect := channel.send_effect caller value choice
      rwa [Option.some.inj taken] at effect
  | resumeSend position choice =>
      obtain ⟨resumed, _, same⟩ := Option.map_eq_some_iff.mp taken
      have effect := sendWait_effect { channel with notFull := resumed.2 }
        resumed.1.1 resumed.1.2 choice
      rw [same] at effect
      exact effect.of_eq rfl rfl rfl
  | receive caller choice =>
      have effect := channel.receive_effect caller choice
      rwa [Option.some.inj taken] at effect
  | resumeReceive position choice =>
      obtain ⟨resumed, _, same⟩ := Option.map_eq_some_iff.mp taken
      have effect := receive_effect { channel with notEmpty := resumed.2 } resumed.1 choice
      rw [same] at effect
      exact effect.of_eq rfl rfl rfl
  | trySend caller value choice =>
      have effect := channel.trySend_effect caller value choice
      rwa [Option.some.inj taken] at effect
  | tryReceive caller choice =>
      have effect := channel.tryReceive_effect caller choice
      rwa [Option.some.inj taken] at effect
  | close =>
      obtain ⟨rfl, rfl⟩ := Prod.mk.inj (Option.some.inj taken)
      exact .quiet rfl (fun _ => rfl) rfl rfl rfl (by simp)
  | spuriousSender position | spuriousReceiver position =>
      obtain ⟨rfl, rfl⟩ := Prod.mk.inj (Option.some.inj taken)
      exact .quiet rfl id rfl rfl rfl (by simp)

end Channel

end Kode.Concurrency
