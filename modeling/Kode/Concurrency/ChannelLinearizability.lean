/-
# A channel is one queue

Whatever threads share a channel, what they observe could have come from a queue that serves
one operation at a time: with room for `capacity` values, or for any number if that is 0,
which refuses sends once it is closed and then still hands out what it holds. An operation
takes its place among the others between its call and its return, at the moment of its
return. A call inside its wait has had no effect.

This is about every result at once, those of `try_send` and `try_receive` included: a
`try_receive` that finds nothing was made, or was under way, at a time when the queue was
empty.
-/

import Kode.Concurrency.Channel
import Kode.Library.Linearizability

namespace Kode.Concurrency

open Kode.Library

universe u v

variable {ι : Type u} {T : Type v}

/-! ## The queue -/

/-- An operation on a channel. -/
inductive Operation (T : Type v)
  | send (value : T)
  | receive
  | trySend (value : T)
  | tryReceive
  | close
  deriving DecidableEq, Repr

/-- What it returns. -/
inductive Returned (T : Type v)
  | accepted (result : Bool)
  | received (result : Option T)
  | closed
  deriving DecidableEq, Repr

/-- A queue that can be closed. -/
structure Queue (T : Type v) where
  capacity : ℕ
  values : List T
  closed : Bool
  deriving DecidableEq, Repr

namespace Queue

def create (capacity : ℕ) : Queue T := { capacity, values := [], closed := false }

/-- There is room for another value. -/
def HasRoom (queue : Queue T) : Prop := queue.capacity = 0 ∨ queue.values.length < queue.capacity

instance (queue : Queue T) : Decidable queue.HasRoom :=
  inferInstanceAs (Decidable (queue.capacity = 0 ∨ queue.values.length < queue.capacity))

def push (queue : Queue T) (value : T) : Queue T :=
  { queue with values := queue.values ++ [value] }

/-- The queue serves an operation, or cannot yet. -/
def perform (queue : Queue T) : Operation T → Option (Queue T × Returned T)
  | .send value =>
      if queue.closed then some (queue, .accepted false)
      else if queue.HasRoom then some (queue.push value, .accepted true)
      else none
  | .receive =>
      match queue.values with
      | value :: values => some ({ queue with values }, .received (some value))
      | [] => if queue.closed then some (queue, .received none) else none
  | .trySend value =>
      if queue.closed ∨ ¬ queue.HasRoom then some (queue, .accepted false)
      else some (queue.push value, .accepted true)
  | .tryReceive =>
      match queue.values with
      | value :: values => some ({ queue with values }, .received (some value))
      | [] => some (queue, .received none)
  | .close => some ({ queue with closed := true }, .closed)

variable {queue : Queue T}

theorem perform_send_of_closed (closed : queue.closed = true) (value : T) :
    queue.perform (.send value) = some (queue, .accepted false) := if_pos closed

theorem perform_send_of_room (isOpen : ¬ queue.closed = true) (room : queue.HasRoom)
    (value : T) : queue.perform (.send value) = some (queue.push value, .accepted true) :=
  (if_neg isOpen).trans (if_pos room)

end Queue

/-! ## The callers -/

/-- The step of the monitor that makes a call. -/
def Operation.event (caller : ι) (choice : ℕ) : Operation T → Channel.Event ι T
  | .send value => .send caller value choice
  | .receive => .receive caller choice
  | .trySend value => .trySend caller value choice
  | .tryReceive => .tryReceive caller choice
  | .close => .close

/-- The entry of an answer in the history. The answer of `close` does not name its caller. -/
def Channel.Answer.entry (closer : ℕ) : Channel.Answer ℕ T →
    Option (Entry (Operation T) (Returned T))
  | .sendReturned caller _ result => some (.answer caller (.accepted result))
  | .trySendReturned caller _ result => some (.answer caller (.accepted result))
  | .receiveReturned caller result => some (.answer caller (.received result))
  | .tryReceiveReturned caller result => some (.answer caller (.received result))
  | .closeReturned => some (.answer closer .closed)
  | .waiting _ | .roused => none

/-- A channel with the history of its callers. Each call is a caller of its own and is named
by its number. -/
structure SharedChannel (T : Type v) where
  channel : Channel ℕ T
  made : ℕ
  history : List (Entry (Operation T) (Returned T))

/-- A thread makes a call, or a call goes on inside its wait. -/
inductive ThreadEvent (T : Type v)
  | call (op : Operation T) (choice : ℕ)
  | resumeSend (position : ℕ) (choice : ℕ)
  | resumeReceive (position : ℕ) (choice : ℕ)
  | spuriousSender (position : ℕ)
  | spuriousReceiver (position : ℕ)
  deriving DecidableEq, Repr

namespace ThreadEvent

/-- The operation of a new call. -/
def made : ThreadEvent T → Option (Operation T)
  | .call op _ => some op
  | _ => none

/-- The step of the monitor. -/
def event (caller : ℕ) : ThreadEvent T → Channel.Event ℕ T
  | .call op choice => op.event caller choice
  | .resumeSend position choice => .resumeSend position choice
  | .resumeReceive position choice => .resumeReceive position choice
  | .spuriousSender position => .spuriousSender position
  | .spuriousReceiver position => .spuriousReceiver position

end ThreadEvent

namespace SharedChannel

def create (capacity : ℕ) : SharedChannel T :=
  { channel := .create capacity, made := 0, history := [] }

/-- The call of the event, if it is one, enters the history. -/
def enter (shared : SharedChannel T) : Option (Operation T) → SharedChannel T
  | some op =>
      { shared with
        made := shared.made + 1
        history := shared.history ++ [.call shared.made op] }
  | none => shared

def step (shared : SharedChannel T) (event : ThreadEvent T) : Option (SharedChannel T) :=
  (shared.channel.step (event.event shared.made)).map fun answered =>
    { shared.enter event.made with
      channel := answered.1
      history := (shared.enter event.made).history ++ (answered.2.entry shared.made).toList }

end SharedChannel

namespace Channel

/-- The queue of a channel. -/
def queue (channel : Channel ι T) : Queue T :=
  { capacity := channel.capacity, values := channel.buffer, closed := channel.closed }

/-- What a call on `not_full_` waits for. -/
def sending (call : ι × T) : ι × Operation T := (call.1, .send call.2)

/-- What a call on `not_empty_` waits for. -/
def receiving (caller : ι) : ι × Operation T := (caller, .receive)

/-- The calls inside their wait. -/
def active (channel : Channel ι T) : List (ι × Operation T) :=
  channel.notFull.calls.map sending ++ channel.notEmpty.calls.map receiving

/-! ## One step -/

/-- What a step does for the open calls: nothing, or one of them is served and answered. -/
inductive Turn (before : Queue T) (target : Channel ℕ T) (opened : List (ℕ × Operation T)) :
    Option (Entry (Operation T) (Returned T)) → Prop
  | waits (same : target.queue = before) (still : opened.Perm target.active) :
      Turn before target opened none
  | returns {id : ℕ} {op : Operation T} {result : Returned T}
      (served : before.perform op = some (target.queue, result))
      (still : opened.Perm ((id, op) :: target.active)) :
      Turn before target opened (some (.answer id result))

theorem active_push (channel : Channel ι T) (value : T) (choice : ℕ) :
    (channel.push value choice).active.Perm channel.active :=
  ((channel.notEmpty.calls_notifyOne choice).map receiving).append_left _

theorem active_pop (channel : Channel ι T) (choice : ℕ) :
    (channel.pop choice).active.Perm channel.active := by
  refine List.Perm.append_right _ (List.Perm.map _ ?_)
  unfold Channel.pop
  split_ifs
  · exact channel.notFull.calls_notifyOne choice
  · exact List.Perm.refl _

theorem active_close (channel : Channel ι T) : channel.close.active.Perm channel.active :=
  (channel.notFull.calls_notifyAll.map sending).append
    (channel.notEmpty.calls_notifyAll.map receiving)

/-- A sender that waits is an open call. -/
theorem active_waitFull (channel : Channel ι T) (call : ι × T) :
    (sending call :: channel.active).Perm
      { channel with notFull := channel.notFull.wait call }.active :=
  ((channel.notFull.calls_wait call).map sending).symm.append_right _

theorem active_waitEmpty (channel : Channel ι T) (caller : ι) :
    (receiving caller :: channel.active).Perm
      { channel with notEmpty := channel.notEmpty.wait caller }.active :=
  List.perm_middle.symm.trans
    (((channel.notEmpty.calls_wait caller).map receiving).symm.append_left _)

/-- A woken call leaves the wait. -/
theorem active_resumeFull {channel : Channel ι T} {position : ℕ} {call : ι × T}
    {rest : CondVar (ι × T)} (resumed : channel.notFull.resume position = some (call, rest)) :
    channel.active.Perm (sending call :: { channel with notFull := rest }.active) :=
  ((CondVar.calls_resume resumed).map sending).append_right _

theorem active_resumeEmpty {channel : Channel ι T} {position : ℕ} {caller : ι}
    {rest : CondVar ι} (resumed : channel.notEmpty.resume position = some (caller, rest)) :
    channel.active.Perm (receiving caller :: { channel with notEmpty := rest }.active) :=
  (((CondVar.calls_resume resumed).map receiving).append_left _).trans List.perm_middle

section

variable {channel target : Channel ℕ T} {opened : List (ℕ × Operation T)}

/-- An operation that is served at once and changes who is awake at most. -/
theorem Turn.served {id : ℕ} {op : Operation T} {result : Returned T}
    (served : channel.queue.perform op = some (target.queue, result))
    (still : target.active.Perm channel.active) :
    Turn channel.queue target ((id, op) :: channel.active) (some (.answer id result)) :=
  .returns served (still.symm.cons _)

/-- The open calls may be listed in another order. -/
theorem Turn.perm {before : Queue T} {other : List (ℕ × Operation T)}
    {entry : Option (Entry (Operation T) (Returned T))} (turn : Turn before target opened entry)
    (same : other.Perm opened) : Turn before target other entry := by
  cases turn with
  | waits unchanged still => exact .waits unchanged (same.trans still)
  | returns served still => exact .returns served (same.trans still)

theorem sendWait_turn (channel : Channel ℕ T) (caller : ℕ) (value : T) (choice closer : ℕ) :
    Turn channel.queue (channel.sendWait caller value choice).1
      ((caller, .send value) :: channel.active)
      ((channel.sendWait caller value choice).2.entry closer) := by
  unfold sendWait
  split_ifs with ready closed
  · exact .served (Queue.perform_send_of_closed closed value) (List.Perm.refl _)
  · have room : channel.queue.HasRoom := Or.inr (ready.resolve_right closed)
    exact .served (Queue.perform_send_of_room closed room value)
      (channel.active_push value choice)
  · exact .waits rfl (channel.active_waitFull (caller, value))

theorem send_turn (channel : Channel ℕ T) (caller : ℕ) (value : T) (choice closer : ℕ) :
    Turn channel.queue (channel.send caller value choice).1
      ((caller, .send value) :: channel.active)
      ((channel.send caller value choice).2.entry closer) := by
  unfold send
  split_ifs with closed bounded
  · exact .served (Queue.perform_send_of_closed closed value) (List.Perm.refl _)
  · exact channel.sendWait_turn caller value choice closer
  · have room : channel.queue.HasRoom := Or.inl (Nat.eq_zero_of_not_pos bounded)
    exact .served (Queue.perform_send_of_room closed room value)
      (channel.active_push value choice)

theorem receive_turn (channel : Channel ℕ T) (caller choice closer : ℕ) :
    Turn channel.queue (channel.receive caller choice).1 ((caller, .receive) :: channel.active)
      ((channel.receive caller choice).2.entry closer) := by
  unfold receive
  split
  · rename_i value values holds
    refine .served ?_ (channel.active_pop choice)
    simp [Queue.perform, queue, pop, holds]
  · rename_i empty
    split_ifs with closed
    · refine .served ?_ (List.Perm.refl _)
      simp [Queue.perform, queue, empty, closed]
    · exact .waits rfl (channel.active_waitEmpty caller)

theorem trySend_turn (channel : Channel ℕ T) (caller : ℕ) (value : T) (choice closer : ℕ) :
    Turn channel.queue (channel.trySend caller value choice).1
      ((caller, .trySend value) :: channel.active)
      ((channel.trySend caller value choice).2.entry closer) := by
  unfold trySend
  split_ifs with closed full
  · exact .served (if_pos (Or.inl closed)) (List.Perm.refl _)
  · have noRoom : ¬ channel.queue.HasRoom :=
      not_or.mpr ⟨Nat.ne_of_gt full.1, Nat.not_lt_of_le full.2⟩
    exact .served (if_pos (Or.inr noRoom)) (List.Perm.refl _)
  · have room : channel.queue.HasRoom := by
      by_cases bounded : 0 < channel.capacity
      · exact Or.inr (Nat.lt_of_not_le fun reached => full ⟨bounded, reached⟩)
      · exact Or.inl (Nat.eq_zero_of_not_pos bounded)
    have ready : ¬ (channel.queue.closed = true ∨ ¬ channel.queue.HasRoom) :=
      not_or.mpr ⟨closed, not_not.mpr room⟩
    exact .served (if_neg ready) (channel.active_push value choice)

theorem tryReceive_turn (channel : Channel ℕ T) (caller choice closer : ℕ) :
    Turn channel.queue (channel.tryReceive caller choice).1
      ((caller, .tryReceive) :: channel.active)
      ((channel.tryReceive caller choice).2.entry closer) := by
  unfold tryReceive
  split
  · rename_i value values holds
    refine .served ?_ (channel.active_pop choice)
    simp [Queue.perform, queue, pop, holds]
  · rename_i empty
    refine .served ?_ (List.Perm.refl _)
    simp [Queue.perform, queue, empty]

/-- A new call. -/
theorem call_turn {op : Operation T} {caller choice : ℕ} {answer : Answer ℕ T}
    (taken : channel.step (op.event caller choice) = some (target, answer)) :
    Turn channel.queue target ((caller, op) :: channel.active) (answer.entry caller) := by
  cases op with
  | send value =>
      obtain ⟨rfl, rfl⟩ := Prod.mk.inj (Option.some.inj taken)
      exact channel.send_turn caller value choice caller
  | receive =>
      obtain ⟨rfl, rfl⟩ := Prod.mk.inj (Option.some.inj taken)
      exact channel.receive_turn caller choice caller
  | trySend value =>
      obtain ⟨rfl, rfl⟩ := Prod.mk.inj (Option.some.inj taken)
      exact channel.trySend_turn caller value choice caller
  | tryReceive =>
      obtain ⟨rfl, rfl⟩ := Prod.mk.inj (Option.some.inj taken)
      exact channel.tryReceive_turn caller choice caller
  | close =>
      obtain ⟨rfl, rfl⟩ := Prod.mk.inj (Option.some.inj taken)
      exact .served rfl channel.active_close

/-- A call that goes on inside its wait. -/
theorem wait_turn {event : ThreadEvent T} (inside : event.made = none) {caller : ℕ}
    {answer : Answer ℕ T} (taken : channel.step (event.event caller) = some (target, answer)) :
    Turn channel.queue target channel.active (answer.entry caller) := by
  cases event with
  | call => cases inside
  | resumeSend position choice =>
      obtain ⟨⟨call, rest⟩, resumed, same⟩ := Option.map_eq_some_iff.mp taken
      obtain ⟨rfl, rfl⟩ := Prod.mk.inj same
      exact (sendWait_turn _ call.1 call.2 choice caller).perm (active_resumeFull resumed)
  | resumeReceive position choice =>
      obtain ⟨⟨call, rest⟩, resumed, same⟩ := Option.map_eq_some_iff.mp taken
      obtain ⟨rfl, rfl⟩ := Prod.mk.inj same
      exact (receive_turn _ call choice caller).perm (active_resumeEmpty resumed)
  | spuriousSender position =>
      obtain ⟨rfl, rfl⟩ := Prod.mk.inj (Option.some.inj taken)
      exact .waits rfl (((channel.notFull.calls_rouse position).map sending).symm.append_right _)
  | spuriousReceiver position =>
      obtain ⟨rfl, rfl⟩ := Prod.mk.inj (Option.some.inj taken)
      exact .waits rfl (((channel.notEmpty.calls_rouse position).map receiving).symm.append_left _)

end

end Channel

namespace SharedChannel

variable {shared target : SharedChannel T} {event : ThreadEvent T} {capacity : ℕ}

/-- The open calls are those inside their wait, and the queue is that of the channel. -/
def Accounted (capacity : ℕ) (shared : SharedChannel T) : Prop :=
  Account Queue.perform (.create capacity) shared.history shared.made shared.channel.active
    shared.channel.queue

/-- An open call is served, or none is. -/
theorem account_turn {history : List (Entry (Operation T) (Returned T))} {made : ℕ}
    {opened : List (ℕ × Operation T)} {before : Queue T} {channel : Channel ℕ T}
    {entry : Option (Entry (Operation T) (Returned T))}
    (account : Account Queue.perform (.create capacity) history made opened before)
    (turn : Channel.Turn before channel opened entry) :
    Account Queue.perform (.create capacity) (history ++ entry.toList) made channel.active
      channel.queue := by
  cases turn with
  | waits same still =>
      rw [same, Option.toList_none, List.append_nil]
      exact account.perm still
  | returns served still => exact account.answer still served

theorem Accounted.step (accounted : Accounted capacity shared)
    (taken : shared.step event = some target) : Accounted capacity target := by
  obtain ⟨⟨channel, answer⟩, answered, rfl⟩ := Option.map_eq_some_iff.mp taken
  cases made : event.made with
  | none => exact account_turn accounted (Channel.wait_turn made answered)
  | some op =>
      cases event with
      | call other choice =>
          obtain rfl := Option.some.inj made
          exact account_turn (accounted.call other) (Channel.call_turn answered)
      | _ => cases made

end SharedChannel

end Kode.Concurrency
