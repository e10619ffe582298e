/-
# No wake-up is lost

`send`, `receive` and the `try_` calls notify one thread each, and a third party
may take the value or the slot before the notified thread runs. What rules out a
stuck sleeper is a count: as long as a receiver sleeps, there are at least as many
woken receivers as buffered values, and as long as a sender sleeps, at least as
many woken senders as free slots. Every push wakes a receiver and every pop wakes
a sender, so the counts survive each step; a thread that was woken in vain goes
back to sleep only when there is nothing left for it.

When no woken thread is pending the counts are zero, which is the theorem.
-/

import Kode.Concurrency.Channel

namespace Kode.Concurrency.Channel

open Kode.Library

universe u v

variable {ι : Type u} {T : Type v}

/-- The counting invariant. The two numbers count woken threads that have just
re-taken the lock: they are in no list any more and still have to act, so between
steps of the monitor both are zero. -/
structure Balanced (receiving sending : ℕ) (channel : Channel ι T) : Prop where
  /-- A bounded buffer stays within its bound. -/
  bounded : 0 < channel.capacity → channel.buffer.length ≤ channel.capacity
  /-- Only a bounded channel makes a sender wait. -/
  senders_bounded : channel.notFull.asleep ≠ [] ∨ channel.notFull.woken ≠ [] →
    0 < channel.capacity
  /-- Every buffered value has a woken receiver while one sleeps. -/
  receivers : channel.notEmpty.asleep ≠ [] → channel.closed = false ∧
    channel.buffer.length ≤ channel.notEmpty.woken.length + receiving
  /-- Every free slot has a woken sender while one sleeps. -/
  senders : channel.notFull.asleep ≠ [] → channel.closed = false ∧
    channel.capacity ≤ channel.buffer.length + channel.notFull.woken.length + sending

theorem balanced_create (capacity : ℕ) : Balanced 0 0 (create capacity : Channel ι T) where
  bounded _ := Nat.zero_le _
  senders_bounded waiting := by simp [create, CondVar.empty] at waiting
  receivers asleep := absurd rfl asleep
  senders asleep := absurd rfl asleep

/-- A thread that acts without having waited is one more than the count needs. -/
theorem Balanced.weaken {channel : Channel ι T} (balanced : Balanced 0 0 channel)
    (receiving sending : ℕ) : Balanced receiving sending channel where
  bounded := balanced.bounded
  senders_bounded := balanced.senders_bounded
  receivers asleep := by
    obtain ⟨isOpen, count⟩ := balanced.receivers asleep
    exact ⟨isOpen, by omega⟩
  senders asleep := by
    obtain ⟨isOpen, count⟩ := balanced.senders asleep
    exact ⟨isOpen, by omega⟩

private theorem someone_of_fewer {α : Type*} {before after : List α}
    (fewer : after.length + 1 = before.length) : before ≠ [] := by
  rw [← List.length_pos_iff]
  omega

/-- A push fills one slot and wakes one receiver. -/
theorem Balanced.push {channel : Channel ι T} (balanced : Balanced 0 1 channel) (value : T)
    (choice : ℕ) (room : 0 < channel.capacity → channel.buffer.length < channel.capacity) :
    Balanced 0 0 (channel.push value choice) where
  bounded positive := by
    have fits := room positive
    simp only [Channel.push, List.length_append, List.length_singleton]
    exact fits
  senders_bounded := balanced.senders_bounded
  receivers asleep := by
    simp only [Channel.push, List.length_append, List.length_singleton] at asleep ⊢
    rcases channel.notEmpty.notifyOne_cases choice with ⟨same, nobody⟩ | ⟨fewer, more⟩
    · rw [same] at asleep
      exact absurd nobody asleep
    · obtain ⟨isOpen, count⟩ := balanced.receivers (someone_of_fewer fewer)
      exact ⟨isOpen, by omega⟩
  senders asleep := by
    obtain ⟨isOpen, count⟩ := balanced.senders asleep
    simp only [Channel.push, List.length_append, List.length_singleton]
    exact ⟨isOpen, by omega⟩

/-- A pop frees one slot and wakes one sender. On an unbounded channel it wakes
nobody, but there no sender sleeps. -/
theorem Balanced.pop {channel : Channel ι T} (balanced : Balanced 1 0 channel) (choice : ℕ)
    (nonempty : channel.buffer ≠ []) : Balanced 0 0 (channel.pop choice) where
  bounded positive := by
    have before := balanced.bounded positive
    simp only [Channel.pop, List.length_tail]
    omega
  senders_bounded waiting := by
    simp only [Channel.pop] at waiting ⊢
    split_ifs at waiting with isBounded
    · exact isBounded
    · exact balanced.senders_bounded waiting
  receivers asleep := by
    obtain ⟨isOpen, count⟩ := balanced.receivers asleep
    simp only [Channel.pop, List.length_tail]
    exact ⟨isOpen, by omega⟩
  senders asleep := by
    have positive := List.length_pos_iff.mpr nonempty
    simp only [Channel.pop, List.length_tail] at asleep ⊢
    split_ifs at asleep ⊢ with isBounded
    · rcases channel.notFull.notifyOne_cases choice with ⟨same, nobody⟩ | ⟨fewer, more⟩
      · rw [same] at asleep
        exact absurd nobody asleep
      · obtain ⟨isOpen, count⟩ := balanced.senders (someone_of_fewer fewer)
        exact ⟨isOpen, by omega⟩
    · exact absurd (balanced.senders_bounded (Or.inl asleep)) isBounded

/-- Nobody sleeps on a closed channel, so a thread may leave it without acting. -/
theorem Balanced.of_closed {receiving sending : ℕ} {channel : Channel ι T}
    (balanced : Balanced receiving sending channel) (closed : channel.closed = true) :
    Balanced 0 0 channel where
  bounded := balanced.bounded
  senders_bounded := balanced.senders_bounded
  receivers asleep := absurd (balanced.receivers asleep).1 (by simp [closed])
  senders asleep := absurd (balanced.senders asleep).1 (by simp [closed])

/-! ## The operations -/

theorem Balanced.sendWait {channel : Channel ι T} (balanced : Balanced 0 1 channel)
    (positive : 0 < channel.capacity) (caller : ι) (value : T) (choice : ℕ) :
    Balanced 0 0 (channel.sendWait caller value choice).1 := by
  unfold Channel.sendWait
  split
  · rename_i ready
    split
    · rename_i closed
      exact balanced.of_closed closed
    · rename_i isOpen
      exact balanced.push value choice fun _ => ready.resolve_right isOpen
  · rename_i full
    have isOpen : channel.closed = false := by simpa using fun closed => full (Or.inr closed)
    have noRoom : channel.capacity ≤ channel.buffer.length :=
      Nat.le_of_not_lt fun room => full (Or.inl room)
    exact
      { bounded := balanced.bounded
        senders_bounded := fun _ => positive
        receivers := balanced.receivers
        senders := fun _ => ⟨isOpen, by simp only [CondVar.wait_woken]; omega⟩ }

theorem Balanced.send {channel : Channel ι T} (balanced : Balanced 0 0 channel)
    (caller : ι) (value : T) (choice : ℕ) :
    Balanced 0 0 (channel.send caller value choice).1 := by
  unfold Channel.send
  split
  · exact balanced
  · split
    · rename_i positive
      exact (balanced.weaken 0 1).sendWait positive caller value choice
    · rename_i unbounded
      exact (balanced.weaken 0 1).push value choice fun positive => absurd positive unbounded

theorem Balanced.receive {channel : Channel ι T} (balanced : Balanced 1 0 channel)
    (caller : ι) (choice : ℕ) : Balanced 0 0 (channel.receive caller choice).1 := by
  unfold Channel.receive
  split
  · rename_i value rest holds
    exact balanced.pop choice (by simp [holds])
  · rename_i empty
    split
    · rename_i closed
      exact balanced.of_closed closed
    · rename_i isOpen
      exact
        { bounded := balanced.bounded
          senders_bounded := balanced.senders_bounded
          receivers := fun _ => ⟨by simpa using isOpen, by simp [empty]⟩
          senders := balanced.senders }

theorem Balanced.trySend {channel : Channel ι T} (balanced : Balanced 0 0 channel)
    (caller : ι) (value : T) (choice : ℕ) :
    Balanced 0 0 (channel.trySend caller value choice).1 := by
  unfold Channel.trySend
  split
  · exact balanced
  · split
    · exact balanced
    · rename_i room
      exact (balanced.weaken 0 1).push value choice
        fun positive => Nat.lt_of_not_le fun full => room ⟨positive, full⟩

theorem Balanced.tryReceive {channel : Channel ι T} (balanced : Balanced 0 0 channel)
    (caller : ι) (choice : ℕ) : Balanced 0 0 (channel.tryReceive caller choice).1 := by
  unfold Channel.tryReceive
  split
  · rename_i value rest holds
    exact (balanced.weaken 1 0).pop choice (by simp [holds])
  · exact balanced

theorem Balanced.close {channel : Channel ι T} (balanced : Balanced 0 0 channel) :
    Balanced 0 0 channel.close where
  bounded := balanced.bounded
  senders_bounded waiting := by
    apply balanced.senders_bounded
    simp only [Channel.close, CondVar.notifyAll, ne_eq, not_true_eq_false, List.append_eq_nil_iff,
      false_or] at waiting
    tauto
  receivers asleep := absurd rfl asleep
  senders asleep := absurd rfl asleep

/-- A thread that wakes without a notification only adds to the woken threads. -/
theorem Balanced.rouseReceiver {channel : Channel ι T} (balanced : Balanced 0 0 channel)
    (position : ℕ) :
    Balanced 0 0 { channel with notEmpty := channel.notEmpty.rouse position } where
  bounded := balanced.bounded
  senders_bounded := balanced.senders_bounded
  receivers asleep := by
    rcases channel.notEmpty.rouse_cases position with ⟨same, _⟩ | ⟨fewer, more⟩
    · simp only [same] at asleep ⊢
      exact balanced.receivers asleep
    · obtain ⟨isOpen, count⟩ := balanced.receivers (someone_of_fewer fewer)
      exact ⟨isOpen, by simp only; omega⟩
  senders := balanced.senders

theorem Balanced.rouseSender {channel : Channel ι T} (balanced : Balanced 0 0 channel)
    (position : ℕ) :
    Balanced 0 0 { channel with notFull := channel.notFull.rouse position } where
  bounded := balanced.bounded
  senders_bounded waiting := by
    rcases channel.notFull.rouse_cases position with ⟨same, _⟩ | ⟨fewer, _⟩
    · simp only [same] at waiting
      exact balanced.senders_bounded waiting
    · exact balanced.senders_bounded (Or.inl (someone_of_fewer fewer))
  receivers := balanced.receivers
  senders asleep := by
    rcases channel.notFull.rouse_cases position with ⟨same, _⟩ | ⟨fewer, more⟩
    · simp only [same] at asleep ⊢
      exact balanced.senders asleep
    · obtain ⟨isOpen, count⟩ := balanced.senders (someone_of_fewer fewer)
      exact ⟨isOpen, by simp only; omega⟩

/-- A woken receiver that takes the lock is now the one thread that acts. -/
theorem Balanced.resumeReceiver {channel : Channel ι T} (balanced : Balanced 0 0 channel)
    {position : ℕ} {caller : ι} {rest : CondVar ι}
    (resumed : channel.notEmpty.resume position = some (caller, rest)) :
    Balanced 1 0 { channel with notEmpty := rest } where
  bounded := balanced.bounded
  senders_bounded := balanced.senders_bounded
  receivers asleep := by
    obtain ⟨sameAsleep, fewer⟩ := CondVar.resume_eq_some resumed
    simp only [sameAsleep] at asleep
    obtain ⟨isOpen, count⟩ := balanced.receivers asleep
    exact ⟨isOpen, by simp only; omega⟩
  senders := balanced.senders

theorem Balanced.resumeSender {channel : Channel ι T} (balanced : Balanced 0 0 channel)
    {position : ℕ} {call : ι × T} {rest : CondVar (ι × T)}
    (resumed : channel.notFull.resume position = some (call, rest)) :
    Balanced 0 1 { channel with notFull := rest } ∧ 0 < channel.capacity := by
  obtain ⟨sameAsleep, fewer⟩ := CondVar.resume_eq_some resumed
  have positive := balanced.senders_bounded (Or.inr (someone_of_fewer fewer))
  refine ⟨⟨balanced.bounded, fun _ => positive, balanced.receivers, fun asleep => ?_⟩, positive⟩
  simp only [sameAsleep] at asleep
  obtain ⟨isOpen, count⟩ := balanced.senders asleep
  exact ⟨isOpen, by simp only; omega⟩

/-- One step of the monitor keeps the counts. -/
theorem balanced_step {channel target : Channel ι T} {event : Event ι T} {answer : Answer ι T}
    (balanced : Balanced 0 0 channel) (taken : channel.step event = some (target, answer)) :
    Balanced 0 0 target := by
  cases event with
  | send caller value choice =>
      have after := balanced.send caller value choice
      rwa [Option.some.inj taken] at after
  | resumeSend position choice =>
      obtain ⟨resumed, found, same⟩ := Option.map_eq_some_iff.mp taken
      obtain ⟨spare, positive⟩ := balanced.resumeSender found
      have after := spare.sendWait positive resumed.1.1 resumed.1.2 choice
      rwa [same] at after
  | receive caller choice =>
      have after := (balanced.weaken 1 0).receive caller choice
      rwa [Option.some.inj taken] at after
  | resumeReceive position choice =>
      obtain ⟨resumed, found, same⟩ := Option.map_eq_some_iff.mp taken
      have after := (balanced.resumeReceiver found).receive resumed.1 choice
      rwa [same] at after
  | trySend caller value choice =>
      have after := balanced.trySend caller value choice
      rwa [Option.some.inj taken] at after
  | tryReceive caller choice =>
      have after := balanced.tryReceive caller choice
      rwa [Option.some.inj taken] at after
  | close =>
      obtain ⟨rfl, rfl⟩ := Prod.mk.inj (Option.some.inj taken)
      exact balanced.close
  | spuriousSender position =>
      obtain ⟨rfl, rfl⟩ := Prod.mk.inj (Option.some.inj taken)
      exact balanced.rouseSender position
  | spuriousReceiver position =>
      obtain ⟨rfl, rfl⟩ := Prod.mk.inj (Option.some.inj taken)
      exact balanced.rouseReceiver position

theorem balanced_of_reached {capacity : ℕ} {system : System ι T}
    (reached : Reached capacity system) :
    Balanced 0 0 system.1 ∧ system.1.capacity = capacity := by
  refine reached.invariant (motive := fun system =>
    Balanced 0 0 system.1 ∧ system.1.capacity = capacity) ⟨balanced_create capacity, rfl⟩ ?_
  rintro state event target ⟨balanced, same⟩ _ taken
  obtain ⟨answer, stepped, _⟩ := recorded_eq_some_iff.mp taken
  refine ⟨balanced_step balanced stepped, ?_⟩
  cases step_effect stepped with
  | accept _ kept | deliver _ kept | quiet kept => exact kept.trans same

/-- In every reachable state with no woken thread pending, a sleeping receiver
means an empty open channel, and a sleeping sender means a channel that is open
and exactly full. -/
theorem no_lost_wakeup (capacity : ℕ) (system : System ι T) (reached : Reached capacity system)
    (noReceiver : system.1.notEmpty.woken = []) (noSender : system.1.notFull.woken = []) :
    (∀ receiver ∈ system.1.notEmpty.asleep,
      system.1.buffer = [] ∧ system.1.closed = false) ∧
    (∀ sender ∈ system.1.notFull.asleep,
      system.1.buffer.length = capacity ∧ system.1.closed = false) := by
  obtain ⟨balanced, same⟩ := balanced_of_reached reached
  constructor
  · intro receiver asleep
    obtain ⟨isOpen, count⟩ := balanced.receivers (List.ne_nil_of_mem asleep)
    rw [noReceiver] at count
    exact ⟨List.length_eq_zero_iff.mp (Nat.le_zero.mp count), isOpen⟩
  · intro sender asleep
    obtain ⟨isOpen, count⟩ := balanced.senders (List.ne_nil_of_mem asleep)
    have positive := balanced.senders_bounded (Or.inl (List.ne_nil_of_mem asleep))
    have within := balanced.bounded positive
    rw [noSender, List.length_nil] at count
    exact ⟨by omega, isOpen⟩

/-- A full channel of capacity one with one sender asleep. -/
def fullChannel : System ℕ ℕ :=
  ({ buffer := [7], capacity := 1, closed := false, notEmpty := ⟨[], []⟩,
     notFull := ⟨[(1, 8)], []⟩ },
    [.sendReturned 0 7 true, .waiting 1])

theorem no_lost_wakeup_fullChannel :
    Reached 1 fullChannel ∧ fullChannel.1.buffer.length = 1 ∧ fullChannel.1.closed = false := by
  have reached : Reached 1 fullChannel := by
    apply reachable_of_runSteps
    show runSteps (recorded step) (create 1, []) [.send 0 7 0, .send 1 8 0] = some fullChannel
    decide
  exact ⟨reached, (no_lost_wakeup 1 fullChannel reached rfl rfl).2 (1, 8) (by decide)⟩

end Kode.Concurrency.Channel
