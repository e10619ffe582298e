/-
# A channel is a queue

The buffer of a channel is what was accepted and not yet delivered. This is one
invariant over the complete history of answers, and it does not depend on who
sends, who receives, or which of the blocking and the non-blocking calls are
mixed: each step either appends one accepted value, removes the oldest value, or
leaves the buffer alone.

Closing is final. A sender that was asleep when the channel was closed finds the
flag set when it re-takes the lock, because its wait tests the flag again, and so
it returns `false` without touching the buffer.
-/

import Kode.Concurrency.Channel

namespace Kode.Concurrency.Channel

open Kode.Library

universe u v

variable {ι : Type u} {T : Type v}

/-- The values of the `send` and `try_send` calls that returned `true`, in the
order in which they entered the buffer. -/
def acceptedValues (answers : List (Answer ι T)) : List T :=
  answers.filterMap Answer.accepted

/-- The values returned by `receive` and `try_receive`, in removal order. -/
def deliveredValues (answers : List (Answer ι T)) : List T :=
  answers.filterMap Answer.delivered

@[simp]
theorem acceptedValues_snoc (answers : List (Answer ι T)) (answer : Answer ι T) :
    acceptedValues (answers ++ [answer]) =
      acceptedValues answers ++ answer.accepted.toList := by
  cases found : answer.accepted <;>
    simp [acceptedValues, List.filterMap_append, found]

@[simp]
theorem deliveredValues_snoc (answers : List (Answer ι T)) (answer : Answer ι T) :
    deliveredValues (answers ++ [answer]) =
      deliveredValues answers ++ answer.delivered.toList := by
  cases found : answer.delivered <;>
    simp [deliveredValues, List.filterMap_append, found]

/-- The history invariant: nothing is lost, duplicated or reordered, and a
bounded buffer stays within its bound. -/
structure Faithful (capacity : ℕ) (system : System ι T) : Prop where
  capacity_eq : system.1.capacity = capacity
  conserved : deliveredValues system.2 ++ system.1.buffer = acceptedValues system.2
  bounded : 0 < capacity → system.1.buffer.length ≤ capacity

theorem faithful_create (capacity : ℕ) :
    Faithful capacity ((create capacity, []) : System ι T) :=
  ⟨rfl, rfl, fun _ => Nat.zero_le _⟩

theorem faithful_step {capacity : ℕ} {system target : System ι T} {event : Event ι T}
    (faithful : Faithful capacity system)
    (taken : recorded step system event = some target) : Faithful capacity target := by
  obtain ⟨answer, stepped, history⟩ := recorded_eq_some_iff.mp taken
  obtain ⟨sameCapacity, conserved, bounded⟩ := faithful
  cases step_effect stepped with
  | accept value kept wasOpen isOpen room buffer accepted delivered _ =>
      refine ⟨kept.trans sameCapacity, ?_, fun positive => ?_⟩
      · simp [history, buffer, accepted, delivered, ← conserved]
      · have fits := room (sameCapacity ▸ positive)
        rw [buffer, List.length_append, List.length_singleton]
        omega
  | deliver value kept closed buffer accepted delivered _ =>
      refine ⟨kept.trans sameCapacity, ?_, fun positive => ?_⟩
      · simp [history, accepted, delivered, ← conserved, buffer]
      · have before := bounded positive
        rw [buffer, List.length_cons] at before
        omega
  | quiet kept closed buffer accepted delivered _ =>
      refine ⟨kept.trans sameCapacity, ?_, ?_⟩
      · simp [history, buffer, accepted, delivered, conserved]
      · rwa [buffer]

theorem faithful_of_reached {capacity : ℕ} {system : System ι T}
    (reached : Reached capacity system) : Faithful capacity system :=
  reached.invariant (faithful_create capacity)
    fun _ _ _ faithful _ taken => faithful_step faithful taken

/-! ## After `close` -/

/-- Once closed, a channel stays closed and accepts nothing more, whatever
happens to it. -/
theorem closed_of_reachable {system later : System ι T} (closed : system.1.closed = true)
    (reached : Reachable (recorded step) system later) :
    later.1.closed = true ∧ acceptedValues later.2 = acceptedValues system.2 := by
  refine reached.invariant (motive := fun later =>
    later.1.closed = true ∧ acceptedValues later.2 = acceptedValues system.2)
    ⟨closed, rfl⟩ ?_
  rintro state event target ⟨stillClosed, same⟩ _ taken
  obtain ⟨answer, stepped, history⟩ := recorded_eq_some_iff.mp taken
  cases step_effect stepped with
  | accept value _ wasOpen => simp [wasOpen] at stillClosed
  | deliver value _ keeps buffer accepted =>
      exact ⟨keeps.trans stillClosed, by simp [history, accepted, same]⟩
  | quiet _ keeps buffer accepted =>
      exact ⟨keeps stillClosed, by simp [history, accepted, same]⟩

/-- The steps of `send`, of a `send` that was waiting, and of `try_send`. -/
def Event.isSend : Event ι T → Bool
  | .send .. | .resumeSend .. | .trySend .. => true
  | _ => false

/-- An answer by which a sending call is refused. -/
def Answer.isRefusedSend : Answer ι T → Bool
  | .sendReturned _ _ false | .trySendReturned _ _ false => true
  | _ => false

/-- A sending step of a closed channel returns `false` and changes no buffer. -/
theorem refused_of_closed {channel target : Channel ι T} {event : Event ι T}
    {answer : Answer ι T} (closed : channel.closed = true) (sends : event.isSend = true)
    (taken : channel.step event = some (target, answer)) :
    target.buffer = channel.buffer ∧ answer.isRefusedSend = true := by
  cases event with
  | send caller value choice =>
      simp only [step, send, closed, if_true, Option.some.injEq, Prod.mk.injEq] at taken
      obtain ⟨rfl, rfl⟩ := taken
      exact ⟨rfl, rfl⟩
  | resumeSend position choice =>
      obtain ⟨resumed, _, same⟩ := Option.map_eq_some_iff.mp taken
      simp only [sendWait, closed, or_true, if_true, Prod.mk.injEq] at same
      obtain ⟨rfl, rfl⟩ := same
      exact ⟨rfl, rfl⟩
  | trySend caller value choice =>
      simp only [step, trySend, closed, if_true, Option.some.injEq, Prod.mk.injEq] at taken
      obtain ⟨rfl, rfl⟩ := taken
      exact ⟨rfl, rfl⟩
  | receive | resumeReceive | tryReceive | close | spuriousSender | spuriousReceiver =>
      simp [Event.isSend] at sends

/-! ## The queue theorem -/

/-- `receive` reports the end of the channel only when it is closed and
everything it accepted has been delivered. -/
theorem drained_of_receive_refused {capacity : ℕ} {system : System ι T}
    (faithful : Faithful capacity system) {event : Event ι T} {target : Channel ι T} {caller : ι}
    (taken : system.1.step event = some (target, .receiveReturned caller none)) :
    system.1.closed = true ∧ deliveredValues system.2 = acceptedValues system.2 := by
  cases step_effect taken with
  | accept value _ _ _ _ _ _ _ notRefused => exact absurd rfl (notRefused caller)
  | deliver value _ _ _ _ _ notRefused => exact absurd rfl (notRefused caller)
  | quiet _ _ _ _ _ refused =>
      obtain ⟨closed, empty⟩ := refused caller rfl
      have conserved := faithful.conserved
      rw [empty, List.append_nil] at conserved
      exact ⟨closed, conserved⟩

/-- For every capacity, every set of callers and every run of the monitor: what
was delivered followed by what is buffered is what was accepted; a bounded
buffer stays within its capacity; after `close` no sending call, also none that
was already waiting, is accepted or changes the buffer; and `receive` returns
`false` only from a closed channel that has delivered everything. -/
theorem channel_is_fifo (capacity : ℕ) (system : System ι T)
    (reached : Reached capacity system) :
    deliveredValues system.2 ++ system.1.buffer = acceptedValues system.2 ∧
    (0 < capacity → system.1.buffer.length ≤ capacity) ∧
    (system.1.closed = true → ∀ later, Reachable (recorded step) system later →
      acceptedValues later.2 = acceptedValues system.2 ∧
      ∀ event target answer, event.isSend = true →
        later.1.step event = some (target, answer) →
        target.buffer = later.1.buffer ∧ answer.isRefusedSend = true) ∧
    (∀ event target caller,
      system.1.step event = some (target, .receiveReturned caller none) →
      system.1.closed = true ∧ deliveredValues system.2 = acceptedValues system.2) := by
  have faithful := faithful_of_reached reached
  refine ⟨faithful.conserved, faithful.bounded, ?_, ?_⟩
  · intro closed later reachable
    obtain ⟨laterClosed, same⟩ := closed_of_reachable closed reachable
    exact ⟨same, fun event target answer sends taken => refused_of_closed laterClosed sends taken⟩
  · intro event target caller taken
    exact drained_of_receive_refused faithful taken

/-- A sender is refused while it waits: capacity one, a second `send` blocks, the
channel is closed, and the woken sender returns `false`. The receiver then drains
the buffer and sees the end. -/
def closeWhileWaiting : List (Event ℕ ℕ) :=
  [.send 0 7 0, .send 1 8 0, .close, .resumeSend 0 0, .receive 2 0, .receive 2 0]

/-- The state and the answers after `closeWhileWaiting`. -/
def closeWhileWaitingEnd : System ℕ ℕ :=
  ({ buffer := [], capacity := 1, closed := true, notEmpty := ⟨[], []⟩, notFull := ⟨[], []⟩ },
    [.sendReturned 0 7 true, .waiting 1, .closeReturned, .sendReturned 1 8 false,
      .receiveReturned 2 (some 7), .receiveReturned 2 none])

theorem reached_closeWhileWaitingEnd : Reached 1 closeWhileWaitingEnd := by
  apply reachable_of_runSteps
  show runSteps (recorded step) (create 1, []) closeWhileWaiting = some closeWhileWaitingEnd
  decide

theorem channel_is_fifo_closeWhileWaiting :
    Reached 1 closeWhileWaitingEnd ∧
      deliveredValues closeWhileWaitingEnd.2 ++ closeWhileWaitingEnd.1.buffer = [7] := by
  refine ⟨reached_closeWhileWaitingEnd, ?_⟩
  rw [(channel_is_fifo 1 closeWhileWaitingEnd reached_closeWhileWaitingEnd).1]
  decide

end Kode.Concurrency.Channel
