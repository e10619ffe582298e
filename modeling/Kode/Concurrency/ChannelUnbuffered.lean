/-
# Channels of capacity zero

An unbuffered channel hands a value over: a send completes only when a receiver is
there for it. `Channel` knows no such meaning. Each of its operations tests
`capacity_ > 0` before it looks at the length of the buffer, so a channel of
capacity zero skips the test and accepts every value at once.

What the operations do keep is the number of values that nobody waits for: a
receiver leaves its wait with a value, or when nothing is left. So the channel is
unbuffered exactly as long as its senders are careful themselves.
-/

import Kode.Concurrency.ChannelHistory
import Kode.Concurrency.ChannelWakeup

namespace Kode.Concurrency.Channel

open Kode.Library

universe u v

variable {ι : Type u} {T : Type v}

/-- The receivers inside `receive` that wait on `not_empty_`. -/
def waitingReceivers (channel : Channel ι T) : ℕ := channel.notEmpty.waiters

/-- Every value that a sending call has reported as accepted and no receiver has
got yet has a receiver waiting for it. -/
def Unbuffered (system : System ι T) : Prop :=
  (acceptedValues system.2).length ≤
    (deliveredValues system.2).length + system.1.waitingReceivers

/-- The step is no sending call on an open channel that has as many undelivered
values as waiting receivers. -/
def FindsReceiver (system : System ι T) (event : Event ι T) : Prop :=
  event.isSend = true → system.1.closed = false →
    system.1.buffer.length < system.1.waitingReceivers

/-- The undelivered values are the buffered ones. -/
theorem unbuffered_iff {capacity : ℕ} {system : System ι T} (faithful : Faithful capacity system) :
    Unbuffered system ↔ system.1.buffer.length ≤ system.1.waitingReceivers := by
  have total := congrArg List.length faithful.conserved
  rw [List.length_append] at total
  unfold Unbuffered
  omega

/-! ## What a step does to the waiting receivers -/

theorem waitingReceivers_sendWait (channel : Channel ι T) (caller : ι) (value : T) (choice : ℕ) :
    (channel.sendWait caller value choice).1.waitingReceivers = channel.waitingReceivers := by
  unfold sendWait
  split_ifs <;> simp [waitingReceivers, push]

theorem waitingReceivers_send (channel : Channel ι T) (caller : ι) (value : T) (choice : ℕ) :
    (channel.send caller value choice).1.waitingReceivers = channel.waitingReceivers := by
  unfold send
  split_ifs
  · rfl
  · exact channel.waitingReceivers_sendWait caller value choice
  · simp [waitingReceivers, push]

theorem waitingReceivers_trySend (channel : Channel ι T) (caller : ι) (value : T) (choice : ℕ) :
    (channel.trySend caller value choice).1.waitingReceivers = channel.waitingReceivers := by
  unfold trySend
  split_ifs <;> simp [waitingReceivers, push]

/-- A sending call leaves the receivers in their wait. -/
theorem waitingReceivers_of_isSend {channel target : Channel ι T} {event : Event ι T}
    {answer : Answer ι T} (sends : event.isSend = true)
    (taken : channel.step event = some (target, answer)) :
    target.waitingReceivers = channel.waitingReceivers := by
  cases event with
  | send caller value choice =>
      have same := channel.waitingReceivers_send caller value choice
      rwa [Option.some.inj taken] at same
  | resumeSend position choice =>
      obtain ⟨resumed, _, result⟩ := Option.map_eq_some_iff.mp taken
      have same := waitingReceivers_sendWait { channel with notFull := resumed.2 }
        resumed.1.1 resumed.1.2 choice
      rwa [result] at same
  | trySend caller value choice =>
      have same := channel.waitingReceivers_trySend caller value choice
      rwa [Option.some.inj taken] at same
  | receive | resumeReceive | tryReceive | close | spuriousSender | spuriousReceiver =>
      simp [Event.isSend] at sends

/-- A receiver that waits for nothing more than the values there are leaves with a
value or begins to wait. -/
theorem covered_receive {channel : Channel ι T} (caller : ι) (choice : ℕ)
    (covered : channel.buffer.length ≤ channel.waitingReceivers + 1) :
    (channel.receive caller choice).1.buffer.length ≤
      (channel.receive caller choice).1.waitingReceivers := by
  unfold receive
  split
  · rename_i value rest holds
    rw [holds, List.length_cons] at covered
    simp only [pop, holds, List.tail_cons, waitingReceivers] at covered ⊢
    omega
  · rename_i empty
    split_ifs <;> simp [empty]

/-- Every step that sends nothing keeps a receiver for each buffered value. -/
theorem covered_of_not_isSend {channel target : Channel ι T} {event : Event ι T}
    {answer : Answer ι T} (silent : event.isSend = false)
    (covered : channel.buffer.length ≤ channel.waitingReceivers)
    (taken : channel.step event = some (target, answer)) :
    target.buffer.length ≤ target.waitingReceivers := by
  cases event with
  | send | resumeSend | trySend => simp [Event.isSend] at silent
  | receive caller choice =>
      have after := covered_receive caller choice (Nat.le_succ_of_le covered)
      rwa [Option.some.inj taken] at after
  | resumeReceive position choice =>
      obtain ⟨resumed, found, result⟩ := Option.map_eq_some_iff.mp taken
      have fewer := CondVar.waiters_of_resume found
      have before : ({ channel with notEmpty := resumed.2 } : Channel ι T).buffer.length ≤
          ({ channel with notEmpty := resumed.2 } : Channel ι T).waitingReceivers + 1 :=
        Nat.le_trans covered (Nat.le_of_eq fewer.symm)
      have after := covered_receive resumed.1 choice before
      rwa [result] at after
  | tryReceive caller choice =>
      simp only [step, Option.some.injEq, tryReceive] at taken
      split at taken
      · rename_i value rest holds
        obtain ⟨rfl, rfl⟩ := Prod.mk.inj taken
        rw [holds, List.length_cons] at covered
        simp only [pop, holds, List.tail_cons, waitingReceivers] at covered ⊢
        omega
      · obtain ⟨rfl, rfl⟩ := Prod.mk.inj taken
        exact covered
  | close =>
      obtain ⟨rfl, rfl⟩ := Prod.mk.inj (Option.some.inj taken)
      simpa [close, waitingReceivers] using covered
  | spuriousSender position =>
      obtain ⟨rfl, rfl⟩ := Prod.mk.inj (Option.some.inj taken)
      exact covered
  | spuriousReceiver position =>
      obtain ⟨rfl, rfl⟩ := Prod.mk.inj (Option.some.inj taken)
      simpa [waitingReceivers] using covered

/-- A sending call on an open channel of capacity zero never waits: the value is in
the buffer when the step is over. -/
theorem length_of_isSend {channel target : Channel ι T} {event : Event ι T}
    {answer : Answer ι T} (balanced : Balanced 0 0 channel) (unbounded : channel.capacity = 0)
    (isOpen : channel.closed = false) (sends : event.isSend = true)
    (taken : channel.step event = some (target, answer)) :
    target.buffer.length = channel.buffer.length + 1 := by
  cases event with
  | send caller value choice =>
      simp only [step, send, isOpen, unbounded, Option.some.injEq] at taken
      obtain ⟨rfl, rfl⟩ := Prod.mk.inj taken
      simp [push]
  | resumeSend position choice =>
      -- Nobody waits for room on a channel that is never full.
      obtain ⟨resumed, found, -⟩ := Option.map_eq_some_iff.mp taken
      have positive := (balanced.resumeSender found).2
      omega
  | trySend caller value choice =>
      simp only [step, trySend, isOpen, unbounded, Option.some.injEq] at taken
      obtain ⟨rfl, rfl⟩ := Prod.mk.inj taken
      simp [push]
  | receive | resumeReceive | tryReceive | close | spuriousSender | spuriousReceiver =>
      simp [Event.isSend] at sends

/-! ## Unbuffered as long as every send finds a receiver -/

/-- In a run in which every sending call on the open channel finds more receivers
waiting than values undelivered, no value is ever without a receiver. The first
sending call that does not completes all the same, and leaves one. -/
theorem unbuffered_while_receivers_wait (system : System ι T)
    (reached : ReachableUnder (recorded step) FindsReceiver (create 0, []) system) :
    Unbuffered system ∧
    ∀ event target, ¬ FindsReceiver system event →
      recorded step system event = some target → ¬ Unbuffered target := by
  have faithful : ∀ {state : System ι T}, ReachableUnder (recorded step) FindsReceiver
      (create 0, []) state → Faithful 0 state := fun run => faithful_of_reached run.toReachable
  have balanced := (balanced_of_reached reached.toReachable).1
  have covered : system.1.buffer.length ≤ system.1.waitingReceivers := by
    refine reached.invariant_given
      (motive := fun state => state.1.buffer.length ≤ state.1.waitingReceivers)
      (fun state run => faithful run) (Nat.zero_le _) ?_
    rintro state event target known holds finds taken
    obtain ⟨answer, stepped, -⟩ := recorded_eq_some_iff.mp taken
    cases sends : event.isSend with
    | false => exact covered_of_not_isSend sends holds stepped
    | true =>
        rw [waitingReceivers_of_isSend sends stepped]
        cases step_effect stepped with
        | accept value _ wasOpen _ _ buffer =>
            rw [buffer, List.length_append, List.length_singleton]
            exact finds sends wasOpen
        | deliver value _ _ buffer =>
            rw [buffer, List.length_cons] at holds
            exact Nat.le_of_succ_le holds
        | quiet _ _ buffer => rwa [buffer]
  refine ⟨(unbuffered_iff (faithful reached)).mpr covered, fun event target misses taken => ?_⟩
  obtain ⟨answer, stepped, -⟩ := recorded_eq_some_iff.mp taken
  have after : Faithful 0 target := faithful_step (faithful reached) taken
  simp only [FindsReceiver, not_forall, Nat.not_lt] at misses
  obtain ⟨sends, isOpen, alone⟩ := misses
  rw [unbuffered_iff after, waitingReceivers_of_isSend sends stepped,
    length_of_isSend balanced (faithful reached).capacity_eq isOpen sends stepped]
  omega

/-- A receiver waits, a sender hands it a value, the receiver takes it. -/
def handOver : List (Event ℕ ℕ) := [.receive 1 0, .send 0 7 0, .resumeReceive 0 0]

/-- A test for the condition on the steps. -/
def findsReceiver (system : System ι T) (event : Event ι T) : Bool :=
  !event.isSend || system.1.closed ||
    decide (system.1.buffer.length < system.1.waitingReceivers)

theorem findsReceiver_sound {system : System ι T} {event : Event ι T}
    (passed : findsReceiver system event = true) : FindsReceiver system event := by
  intro sends isOpen
  simpa [findsReceiver, sends, isOpen] using passed

/-- The state and the answers after `handOver`. -/
def handOverEnd : System ℕ ℕ :=
  ({ buffer := [], capacity := 0, closed := false, notEmpty := ⟨[], []⟩, notFull := ⟨[], []⟩ },
    [.waiting 1, .sendReturned 0 7 true, .receiveReturned 1 (some 7)])

/-- After the hand-over a further `send` would find nobody. -/
theorem unbuffered_while_receivers_wait_handOver :
    Unbuffered handOverEnd ∧
      ∀ target, recorded step handOverEnd (.send 0 8 0) = some target → ¬ Unbuffered target := by
  have reached : ReachableUnder (recorded step) FindsReceiver (create 0, []) handOverEnd := by
    have ran : runSteps (guarded (recorded step) findsReceiver) (create 0, []) handOver =
        some handOverEnd := by decide
    exact reachableUnder_of_guarded (fun _ _ => findsReceiver_sound) ran
  obtain ⟨unbuffered, exceeds⟩ := unbuffered_while_receivers_wait handOverEnd reached
  refine ⟨unbuffered, fun target taken => exceeds _ target ?_ taken⟩
  simp [FindsReceiver, Event.isSend, handOverEnd, waitingReceivers, CondVar.waiters]

/-- A first `send` on a new channel of capacity zero returns `true` with no receiver
there. -/
theorem send_completes_without_receiver :
    ¬ ∀ system : System ℕ ℕ, Reached 0 system → Unbuffered system := by
  intro always
  have ran : runSteps (recorded step) ((create 0, []) : System ℕ ℕ) [.send 0 7 0] =
      some ({ buffer := [7], capacity := 0, closed := false, notEmpty := ⟨[], []⟩,
              notFull := ⟨[], []⟩ }, [.sendReturned 0 7 true]) := by decide
  have impossible := always _ (reachable_of_runSteps ran)
  exact absurd impossible (by unfold Unbuffered; decide)

end Kode.Concurrency.Channel
