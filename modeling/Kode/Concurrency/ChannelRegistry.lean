/-
# Named channels

Two parts of the runtime keep channels under names. `KodeRuntime` has one map,
which its three operations share. `JSConcurrency` declares a map inside each of its
three functions; a static local variable belongs to its function, so the channel
that `create_channel` stores is in a map that `send_to_channel` and
`receive_from_channel` never see.

Both are modelled as components that answer one operation at a time. An operation
that would block has no answer. Over them stands what a registry is for: a queue of
values under each name, empty when the name is created.
-/

import Kode.Concurrency.Channel
import Kode.Library.StepSystem
import Mathlib.Logic.Function.Basic

namespace Kode.Concurrency

open Kode.Library

/-- A `std::unordered_map` from names to channels of strings. -/
abbrev ChannelMap := String → Option (Channel Unit String)

/-- A call of one of the three operations. -/
inductive RegistryOp
  | create (name : String) (capacity : ℕ)
  | send (name value : String)
  | receive (name : String)
  deriving DecidableEq, Repr

/-- What an operation reports. `receive` hands its caller the value, or the empty
string when there is none. -/
inductive RegistryAnswer
  | created
  /-- The message that the channel was not found. -/
  | notFound
  | sent (accepted : Bool)
  | received (value : Option String)
  deriving DecidableEq, Repr

/-- The channel of a name that an operation uses. -/
def RegistryOp.uses : RegistryOp → Option String
  | .create _ _ => none
  | .send name _ | .receive name => some name

namespace ChannelMap

/-- The map before anything is stored. -/
def empty : ChannelMap := fun _ => none

/-- `channels[name] = std::make_shared<Channel<std::string>>(capacity)`. -/
def create (channels : ChannelMap) (name : String) (capacity : ℕ) : ChannelMap :=
  Function.update channels name (some (Channel.create capacity))

/-- Look a name up and `send` on the channel found. -/
def send (channels : ChannelMap) (name value : String) :
    Option (ChannelMap × RegistryAnswer) :=
  match channels name with
  | none => some (channels, .notFound)
  | some channel =>
      match channel.send () value 0 with
      | (after, .sendReturned _ _ accepted) =>
          some (Function.update channels name (some after), .sent accepted)
      | _ => none

/-- Look a name up and `receive` from the channel found. -/
def receive (channels : ChannelMap) (name : String) : Option (ChannelMap × RegistryAnswer) :=
  match channels name with
  | none => some (channels, .notFound)
  | some channel =>
      match channel.receive () 0 with
      | (after, .receiveReturned _ value) =>
          some (Function.update channels name (some after), .received value)
      | _ => none

end ChannelMap

/-- The channels of `KodeRuntime`. -/
structure KodeRuntime where
  channels : ChannelMap

namespace KodeRuntime

/-- The runtime before its first operation. -/
def start : KodeRuntime := ⟨.empty⟩

/-- `createChannel`, `sendToChannel` and `receiveFromChannel`. -/
def step (runtime : KodeRuntime) : RegistryOp → Option (KodeRuntime × RegistryAnswer)
  | .create name capacity => some (⟨runtime.channels.create name capacity⟩, .created)
  | .send name value => (runtime.channels.send name value).map fun sent => (⟨sent.1⟩, sent.2)
  | .receive name => (runtime.channels.receive name).map fun got => (⟨got.1⟩, got.2)

end KodeRuntime

/-- The three maps of `JSConcurrency`, each a `static` of one function. -/
structure JSConcurrency where
  createChannels : ChannelMap
  sendChannels : ChannelMap
  receiveChannels : ChannelMap

namespace JSConcurrency

/-- The statics before the first call. -/
def start : JSConcurrency := ⟨.empty, .empty, .empty⟩

/-- `create_channel`, `send_to_channel` and `receive_from_channel`. -/
def step (concurrency : JSConcurrency) : RegistryOp → Option (JSConcurrency × RegistryAnswer)
  | .create name capacity =>
      some ({ concurrency with
        createChannels := concurrency.createChannels.create name capacity }, .created)
  | .send name value =>
      (concurrency.sendChannels.send name value).map fun sent =>
        ({ concurrency with sendChannels := sent.1 }, sent.2)
  | .receive name =>
      (concurrency.receiveChannels.receive name).map fun got =>
        ({ concurrency with receiveChannels := got.1 }, got.2)

end JSConcurrency

/-! ## What a registry is for -/

/-- Under each created name, the values sent to its newest channel and not yet
received, oldest first. -/
abbrev NamedQueues := String → Option (List String)

namespace NamedQueues

/-- No name has been created. -/
def empty : NamedQueues := fun _ => none

/-- A created name takes every value; a `receive` with nothing to take has no answer. -/
def step (queues : NamedQueues) : RegistryOp → Option (NamedQueues × RegistryAnswer)
  | .create name _ => some (Function.update queues name (some []), .created)
  | .send name value =>
      match queues name with
      | none => some (queues, .notFound)
      | some queue => some (Function.update queues name (some (queue ++ [value])), .sent true)
  | .receive name =>
      match queues name with
      | none => some (queues, .notFound)
      | some [] => none
      | some (value :: queue) =>
          some (Function.update queues name (some queue), .received (some value))

/-- A map of channels holds these queues: every channel is open and its buffer is the
queue of its name. -/
def Describes (queues : NamedQueues) (channels : ChannelMap) : Prop :=
  ∀ name, queues name = (channels name).map (·.buffer) ∧
    ∀ channel, channels name = some channel → channel.closed = false

theorem Describes.update {queues : NamedQueues} {channels : ChannelMap}
    (describes : queues.Describes channels) (name : String) {channel : Channel Unit String}
    (isOpen : channel.closed = false) :
    Describes (Function.update queues name (some channel.buffer))
      (Function.update channels name (some channel)) := by
  intro other
  by_cases same : other = name
  · subst same
    simp [isOpen]
  · simpa [same] using describes other

/-- A name is without a queue exactly when it is without a channel. -/
theorem Describes.eq_none {queues : NamedQueues} {channels : ChannelMap}
    (describes : queues.Describes channels) {name : String} (missing : channels name = none) :
    queues name = none := by
  rw [(describes name).1, missing]
  rfl

theorem Describes.eq_some {queues : NamedQueues} {channels : ChannelMap}
    (describes : queues.Describes channels) {name : String} {channel : Channel Unit String}
    (found : channels name = some channel) :
    queues name = some channel.buffer ∧ channel.closed = false := by
  refine ⟨?_, (describes name).2 channel found⟩
  rw [(describes name).1, found]
  rfl

/-- A `send` on an open channel that does not block appends its value. -/
theorem send_of_open {channel after : Channel Unit String} {value sentValue : String}
    {caller : Unit} {accepted : Bool} (isOpen : channel.closed = false)
    (answered : channel.send () value 0 = (after, .sendReturned caller sentValue accepted)) :
    accepted = true ∧ after.buffer = channel.buffer ++ [value] ∧ after.closed = false := by
  have effect := channel.send_effect () value 0
  rw [answered] at effect
  cases effect with
  | accept pushed _ _ stillOpen _ buffer reported =>
      cases accepted with
      | false => cases reported
      | true =>
          obtain rfl : sentValue = pushed := Option.some.inj reported
          have same : value = sentValue := by
            unfold Channel.send Channel.sendWait at answered
            split_ifs at answered <;> simp_all
          exact ⟨rfl, same ▸ buffer, stillOpen⟩
  | deliver _ _ _ _ _ reported => cases reported
  | quiet _ _ _ refused =>
      unfold Channel.send Channel.sendWait at answered
      split_ifs at answered <;> simp_all [Channel.Answer.accepted]

/-- A `receive` from an open channel that does not block takes the oldest value. -/
theorem receive_of_open {channel after : Channel Unit String} {caller : Unit}
    {value : Option String} (isOpen : channel.closed = false)
    (answered : channel.receive () 0 = (after, .receiveReturned caller value)) :
    ∃ oldest, value = some oldest ∧ channel.buffer = oldest :: after.buffer ∧
      after.closed = false := by
  have effect := channel.receive_effect () 0
  rw [answered] at effect
  cases effect with
  | accept _ _ _ _ _ _ reported => cases reported
  | deliver oldest _ closed buffer _ reported =>
      exact ⟨oldest, reported, buffer, closed.trans isOpen⟩
  | quiet _ _ _ _ reported refused =>
      obtain rfl : value = none := reported
      have isClosed := (refused caller rfl).1
      rw [isOpen] at isClosed
      cases isClosed

/-- A `send` that does not block puts the value at the end of its queue. -/
theorem Describes.send {queues : NamedQueues} {channels next : ChannelMap}
    {name value : String} {answer : RegistryAnswer} (describes : queues.Describes channels)
    (taken : channels.send name value = some (next, answer)) :
    ∃ follow, queues.step (.send name value) = some (follow, answer) ∧
      follow.Describes next := by
  unfold ChannelMap.send at taken
  split at taken
  · rename_i missing
    obtain ⟨rfl, rfl⟩ := Prod.mk.inj (Option.some.inj taken)
    exact ⟨queues, by simp [NamedQueues.step, describes.eq_none missing], describes⟩
  · rename_i channel found
    obtain ⟨queue, isOpen⟩ := describes.eq_some found
    split at taken
    · rename_i after caller sentValue accepted answered
      obtain ⟨rfl, rfl⟩ := Prod.mk.inj (Option.some.inj taken)
      obtain ⟨rfl, buffer, stillOpen⟩ := send_of_open isOpen answered
      refine ⟨_, ?_, describes.update name stillOpen⟩
      simp [NamedQueues.step, queue, buffer]
    · cases taken

/-- A `receive` that does not block takes the head of its queue. -/
theorem Describes.receive {queues : NamedQueues} {channels next : ChannelMap} {name : String}
    {answer : RegistryAnswer} (describes : queues.Describes channels)
    (taken : channels.receive name = some (next, answer)) :
    ∃ follow, queues.step (.receive name) = some (follow, answer) ∧ follow.Describes next := by
  unfold ChannelMap.receive at taken
  split at taken
  · rename_i missing
    obtain ⟨rfl, rfl⟩ := Prod.mk.inj (Option.some.inj taken)
    exact ⟨queues, by simp [NamedQueues.step, describes.eq_none missing], describes⟩
  · rename_i channel found
    obtain ⟨queue, isOpen⟩ := describes.eq_some found
    split at taken
    · rename_i after caller value answered
      obtain ⟨rfl, rfl⟩ := Prod.mk.inj (Option.some.inj taken)
      obtain ⟨oldest, rfl, buffer, stillOpen⟩ := receive_of_open isOpen answered
      refine ⟨_, ?_, describes.update name stillOpen⟩
      simp [NamedQueues.step, queue, buffer]
    · cases taken

/-- Every answer of `KodeRuntime` is the answer of the queues. -/
theorem Describes.step {queues : NamedQueues} {runtime next : KodeRuntime} {op : RegistryOp}
    {answer : RegistryAnswer} (describes : queues.Describes runtime.channels)
    (taken : runtime.step op = some (next, answer)) :
    ∃ follow, queues.step op = some (follow, answer) ∧ follow.Describes next.channels := by
  cases op with
  | create name capacity =>
      obtain ⟨rfl, rfl⟩ := Prod.mk.inj (Option.some.inj taken)
      have isOpen : (Channel.create capacity : Channel Unit String).closed = false := rfl
      exact ⟨_, rfl, describes.update name isOpen⟩
  | send name value =>
      obtain ⟨sent, through, same⟩ := Option.map_eq_some_iff.mp taken
      obtain ⟨rfl, rfl⟩ := Prod.mk.inj same
      exact describes.send through
  | receive name =>
      obtain ⟨got, through, same⟩ := Option.map_eq_some_iff.mp taken
      obtain ⟨rfl, rfl⟩ := Prod.mk.inj same
      exact describes.receive through

/-- The transcripts of `KodeRuntime` are those of the queues. -/
theorem transcript_of_kodeRuntime {ops : List RegistryOp} {answers : List RegistryAnswer}
    (ran : transcript KodeRuntime.step .start ops = some answers) :
    transcript NamedQueues.step .empty ops = some answers :=
  transcript_of_simulation (fun runtime queues => queues.Describes runtime.channels)
    Describes.step (fun _ => ⟨rfl, by simp [KodeRuntime.start, ChannelMap.empty]⟩) ran

end NamedQueues

/-! ## `JSConcurrency` never finds a channel -/

/-- All that `JSConcurrency` answers. -/
def blindAnswer : RegistryOp → RegistryAnswer
  | .create _ _ => .created
  | .send _ _ | .receive _ => .notFound

/-- Nothing is ever stored in the maps that `send_to_channel` and
`receive_from_channel` read. -/
theorem transcript_jsConcurrency {concurrency : JSConcurrency}
    (noSend : concurrency.sendChannels = .empty)
    (noReceive : concurrency.receiveChannels = .empty) (ops : List RegistryOp) :
    transcript JSConcurrency.step concurrency ops = some (ops.map blindAnswer) := by
  induction ops generalizing concurrency with
  | nil => rfl
  | cons op ops ih =>
      refine transcript_cons_eq_some.mpr ?_
      cases op with
      | create name capacity => exact ⟨_, _, _, rfl, ih noSend noReceive, rfl⟩
      | send name value =>
          have missing : concurrency.sendChannels name = none := congrFun noSend name
          refine ⟨concurrency, .notFound, _, ?_, ih noSend noReceive, rfl⟩
          simp [JSConcurrency.step, ChannelMap.send, missing]
      | receive name =>
          have missing : concurrency.receiveChannels name = none := congrFun noReceive name
          refine ⟨concurrency, .notFound, _, ?_, ih noSend noReceive, rfl⟩
          simp [JSConcurrency.step, ChannelMap.receive, missing]

/-- No operation uses a name that an earlier one has created. -/
def UsesNoCreated (ops : List RegistryOp) : Prop :=
  ops.Pairwise fun earlier later =>
    ∀ name capacity, earlier = .create name capacity → later.uses ≠ some name

namespace NamedQueues

/-- A used name without a queue gives the answer of `JSConcurrency`, any other name
does not. -/
theorem blindAnswer_eq_iff {queues next : NamedQueues} {op : RegistryOp}
    {answer : RegistryAnswer} (taken : queues.step op = some (next, answer)) :
    blindAnswer op = answer ↔ ∀ name, op.uses = some name → queues name = none := by
  cases op with
  | create name capacity =>
      obtain ⟨-, rfl⟩ := Prod.mk.inj (Option.some.inj taken)
      simp [blindAnswer, RegistryOp.uses]
  | send name value =>
      simp only [step] at taken
      split at taken <;> cases taken <;> simp_all [blindAnswer, RegistryOp.uses]
  | receive name =>
      simp only [step] at taken
      split at taken <;> cases taken <;> simp_all [blindAnswer, RegistryOp.uses]

/-- Only `create` gives a queue to a name. -/
theorem next_eq_none_iff {queues next : NamedQueues} {op : RegistryOp}
    {answer : RegistryAnswer} (taken : queues.step op = some (next, answer)) (name : String) :
    next name = none ↔ queues name = none ∧ ∀ capacity, op ≠ .create name capacity := by
  cases op with
  | create created capacity =>
      obtain ⟨rfl, -⟩ := Prod.mk.inj (Option.some.inj taken)
      by_cases same : name = created
      · subst same
        simp
      · simp [same, Ne.symm same]
  | send used value | receive used =>
      simp only [step] at taken
      by_cases same : name = used
      · subst same
        split at taken <;> cases taken <;> simp_all
      · split at taken <;> cases taken <;> simp_all

end NamedQueues

/-- The queues answer like `JSConcurrency` as long as no name with a queue is used. -/
theorem map_blindAnswer_eq_iff {queues : NamedQueues} {ops : List RegistryOp}
    {answers : List RegistryAnswer} (ran : transcript NamedQueues.step queues ops = some answers) :
    ops.map blindAnswer = answers ↔
      (∀ op ∈ ops, ∀ name, op.uses = some name → queues name = none) ∧ UsesNoCreated ops := by
  induction ops generalizing queues answers with
  | nil =>
      obtain rfl : [] = answers := Option.some.inj ran
      simp [UsesNoCreated]
  | cons op ops ih =>
      obtain ⟨next, answer, rest, taken, remaining, rfl⟩ := transcript_cons_eq_some.mp ran
      rw [List.map_cons, List.cons.injEq, ih remaining, NamedQueues.blindAnswer_eq_iff taken]
      simp only [NamedQueues.next_eq_none_iff taken, UsesNoCreated, List.pairwise_cons,
        List.forall_mem_cons]
      constructor
      · rintro ⟨here, free, later⟩
        refine ⟨⟨here, fun other member name uses => (free other member name uses).1⟩, ?_, later⟩
        rintro other member name capacity rfl uses
        exact (free other member name uses).2 capacity rfl
      · rintro ⟨⟨here, free⟩, first, later⟩
        refine ⟨here, fun other member name uses => ⟨free other member name uses, ?_⟩, later⟩
        rintro capacity rfl
        exact first other member name capacity rfl uses

/-! ## Agreement -/

/-- On every list of operations none of which blocks, `KodeRuntime` answers like the
named queues, and `JSConcurrency` answers like `KodeRuntime` exactly when no
operation uses a created name. -/
theorem registries_agree_iff (ops : List RegistryOp) (answers : List RegistryAnswer)
    (ran : transcript KodeRuntime.step .start ops = some answers) :
    transcript NamedQueues.step .empty ops = some answers ∧
      (transcript JSConcurrency.step .start ops = some answers ↔ UsesNoCreated ops) := by
  have queued := NamedQueues.transcript_of_kodeRuntime ran
  refine ⟨queued, ?_⟩
  rw [transcript_jsConcurrency rfl rfl, Option.some.injEq, map_blindAnswer_eq_iff queued]
  simp [NamedQueues.empty]

/-- Every operation of this list comes before the creation of its channel. -/
def earlyUse : List RegistryOp :=
  [.send "jobs" "first", .receive "jobs", .create "jobs" 1]

theorem registries_agree_iff_earlyUse :
    UsesNoCreated earlyUse ∧
      transcript JSConcurrency.step .start earlyUse = some [.notFound, .notFound, .created] := by
  have apart : UsesNoCreated earlyUse := by simp [UsesNoCreated, earlyUse, RegistryOp.uses]
  exact ⟨apart, (registries_agree_iff earlyUse _ rfl).2.mpr apart⟩

/-- A value sent to a created channel is received from `KodeRuntime` only. -/
theorem jsConcurrency_loses_channel :
    ¬ ∀ ops answers, transcript KodeRuntime.step .start ops = some answers →
      transcript JSConcurrency.step .start ops = some answers := by
  intro always
  have received : transcript KodeRuntime.step .start
      [.create "jobs" 1, .send "jobs" "first", .receive "jobs"] =
        some [.created, .sent true, .received (some "first")] := by decide
  have lost := always _ _ received
  rw [JSConcurrency.start, transcript_jsConcurrency rfl rfl] at lost
  simp [blindAnswer] at lost

end Kode.Concurrency
