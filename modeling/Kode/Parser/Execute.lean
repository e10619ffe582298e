/-
# Executing statements

`KodeRuntime::ExecuteStatement` routes a statement to the part of the runtime that carries
it out. What concerns channels is a call of `createChannel`, `sendToChannel` or
`receiveFromChannel`; the other cases leave the map of channels alone.

The capacity of a channel is converted on the way from the line to the call: `ParseLine`
reads it as an `int` and writes it down in decimal notation, and `ExecuteStatement` reads
this as a `long long` and casts it to `size_t`. Where one of the two throws, the capacity is
0.
-/

import Kode.Concurrency.ChannelRegistry
import Kode.Parser.Calls

namespace Kode.Parser

open Kode.Library Kode.Concurrency

/-- What `ExecuteStatement` calls. -/
inductive Action
  /-- Print a line. -/
  | print (text : Text)
  | setTimeout (message : Text) (delay : ℤ)
  | readFile (path : Text)
  | readFileSync (path : Text)
  | writeFile (path content : Text)
  | spawnTask (code : Text)
  | channel (op : RegistryOp)
  | yieldTask
  | spawnTaskWithTimeout (ms : ℤ) (code : Text)
  /-- Print the available commands. -/
  | help
  | nothing
  deriving DecidableEq, Repr

/-- `static_cast<size_t>`. -/
def sizeT (number : ℤ) : ℕ := (number % 2 ^ 64).toNat

/-- A call on a channel, unless the name is empty. -/
def channelAction (name : Option Text) (op : String → RegistryOp) : Action :=
  let name := name.getD []
  if name = [] then .nothing else .channel (op (String.ofList name))

/-- `KodeRuntime::ExecuteStatement`. -/
def executeStatement (stmt : Statement) : Action :=
  match stmt.type with
  | .consoleLog => .print stmt.content
  | .setTimeout =>
      .setTimeout "Timeout callback executed!".toList ((stmt.options.delay.bind stoi).getD 1000)
  | .fsReadFile => .readFile stmt.content
  | .fsReadFileSync => .readFileSync stmt.content
  | .fsWriteFile =>
      .writeFile stmt.content
        (stmt.options.content.getD "Hello from Kode Runtime with Modern FS!".toList)
  | .kodeSpawn => if stmt.content = [] then .nothing else .spawnTask stmt.content
  | .chCreate =>
      let capacity := ((stmt.options.capacity.bind stoll).map sizeT).getD 0
      channelAction stmt.options.name fun name => .create name capacity
  | .chSend =>
      channelAction stmt.options.name fun name =>
        .send name (String.ofList (stmt.options.value.getD []))
  | .chRecv => channelAction stmt.options.name .receive
  | .yieldOp => .yieldTask
  | .withTimeout =>
      .spawnTaskWithTimeout ((stmt.options.timeout.bind stoi).getD 0) stmt.content
  | .require | .constDeclaration | .letDeclaration | .varDeclaration => .nothing
  | .consoleError | .consoleWarn | .consoleInfo | .unknown => .help

/-- What a call does to the channels. A call that blocks has no result. -/
def Action.run (runtime : KodeRuntime) : Action → Option KodeRuntime
  | .channel op => (runtime.step op).map Prod.fst
  | _ => some runtime

/-! ## Capacities -/

/-- The line `createChannel('name', n)`. -/
def createLine (spaces : ℕ) (name : Literal) (n : Numeral) : Text :=
  Call.written spaces ⟨.createChannel, [.literal name, .number ⟨n, [], by simp⟩]⟩

/-- The capacity of the channel that the line creates. -/
def createdCapacity (number : ℤ) : ℕ :=
  sizeT (if -2 ^ 31 ≤ number ∧ number < 2 ^ 31 then number else 0)

/-- A channel of the given capacity was created, if this is at least 0 and less than 2^63,
and otherwise no channel of positive capacity. -/
def GetsCapacity (before after : ChannelMap) (name : String) (number : ℤ) : Prop :=
  if 0 ≤ number ∧ number < 2 ^ 63 then after = before.create name number.toNat
  else after = before ∨ after = before.create name 0

/-- Executing the line creates a channel of the capacity that is written. -/
def GetsWrittenCapacity (spaces : ℕ) (name : Literal) (n : Numeral) : Prop :=
  ∀ runtime : KodeRuntime, ∃ after,
    (executeStatement (parseLine (createLine spaces name n))).run runtime = some after ∧
    GetsCapacity runtime.channels after.channels (String.ofList name.text) n.value

theorem stoi_text (n : Numeral) :
    stoi n.text = if -2 ^ 31 ≤ n.value ∧ n.value < 2 ^ 31 then some n.value else none :=
  readSigned_text 32 n

/-- A number that fits is read back. -/
theorem stoll_toText {number : ℤ} (low : -2 ^ 63 ≤ number) (high : number < 2 ^ 63) :
    stoll (toText number) = some number := by
  rw [stoll, toText, readSigned_text, Numeral.value_ofInt, if_pos ⟨low, high⟩]

/-- The first conversion. -/
theorem parseLine_createLine (spaces : ℕ) (name : Literal) (n : Numeral) :
    parseLine (createLine spaces name n) =
      { type := .chCreate
        options :=
          { name := some name.text
            capacity := some (toText
              (if -2 ^ 31 ≤ n.value ∧ n.value < 2 ^ 31 then n.value else 0)) } } := by
  have written : (Argument.number ⟨n, [], by simp⟩).written = n.text := List.append_nil _
  have literal : literalAt [(Argument.literal name).written, n.text] 0 = some name.text := by
    simp [literalAt, Argument.extractStringLiteral_written, Argument.content]
  rw [createLine, Call.parseLine_of_written (Call.trim_removeSemicolons_written spaces _)]
  simp only [Callee.parse, List.map_cons, List.map_nil, written, parseCreate, literal]
  simp only [List.getElem?_cons_succ, List.getElem?_cons_zero, stoi_text]
  split_ifs
  · rfl
  · rfl

/-- Both conversions. -/
theorem executeStatement_createLine (spaces : ℕ) (name : Literal) (n : Numeral) :
    executeStatement (parseLine (createLine spaces name n)) =
      if name.text = [] then .nothing
      else .channel (.create (String.ofList name.text) (createdCapacity n.value)) := by
  have read : stoll (toText (if -2 ^ 31 ≤ n.value ∧ n.value < 2 ^ 31 then n.value else 0)) =
      some (if -2 ^ 31 ≤ n.value ∧ n.value < 2 ^ 31 then n.value else 0) := by
    split_ifs with small
    · exact stoll_toText (by omega) (by omega)
    · exact stoll_toText (by omega) (by omega)
  rw [parseLine_createLine]
  simp only [executeStatement, channelAction, Option.bind_some, read, Option.map_some,
    Option.getD_some, createdCapacity]

/-- The channels afterwards. -/
theorem run_createLine (spaces : ℕ) (name : Literal) (n : Numeral) (runtime : KodeRuntime) :
    (executeStatement (parseLine (createLine spaces name n))).run runtime =
      some ⟨if name.text = [] then runtime.channels
        else runtime.channels.create (String.ofList name.text) (createdCapacity n.value)⟩ := by
  rw [executeStatement_createLine]
  split_ifs
  · rfl
  · rfl

theorem createdCapacity_of_fits {number : ℤ} (low : 0 ≤ number) (high : number < 2 ^ 31) :
    createdCapacity number = number.toNat := by
  rw [createdCapacity, if_pos ⟨by omega, high⟩, sizeT, Int.emod_eq_of_lt low (by omega)]

theorem createdCapacity_of_large {number : ℤ} (large : 2 ^ 31 ≤ number ∨ number < -2 ^ 31) :
    createdCapacity number = 0 := by
  rw [createdCapacity, if_neg (by omega)]
  rfl

/-- A negative `int` becomes a capacity close to 2^64. -/
theorem createdCapacity_of_negative {number : ℤ} (low : -2 ^ 31 ≤ number) (high : number < 0) :
    createdCapacity number = (2 ^ 64 + number).toNat := by
  rw [createdCapacity, if_pos ⟨low, by omega⟩, sizeT]
  omega

/-- A map to which a channel was added shows its capacity. -/
theorem capacity_of_create_eq {channels : ChannelMap} {name : String} {capacity other : ℕ}
    (same : channels.create name capacity = channels.create name other) : capacity = other := by
  have channel := congrFun same name
  rw [ChannelMap.create, ChannelMap.create, Function.update_self, Function.update_self] at channel
  exact congrArg Channel.capacity (Option.some.inj channel)

theorem create_ne_empty (name : String) (capacity : ℕ) :
    ChannelMap.empty.create name capacity ≠ .empty := by
  intro same
  have channel := congrFun same name
  rw [ChannelMap.create, Function.update_self] at channel
  cases channel

section

variable {spaces : ℕ} {name : Literal} {n : Numeral}

/-- On a runtime without channels. -/
theorem GetsWrittenCapacity.start (gets : GetsWrittenCapacity spaces name n) :
    GetsCapacity .empty
      (if name.text = [] then .empty
        else ChannelMap.empty.create (String.ofList name.text) (createdCapacity n.value))
      (String.ofList name.text) n.value := by
  obtain ⟨after, ran, capacity⟩ := gets .start
  rw [run_createLine] at ran
  obtain rfl := Option.some.inj ran
  exact capacity

/-- No channel is created under the empty name. -/
theorem not_getsWrittenCapacity_of_empty (empty : name.text = []) (low : 0 ≤ n.value)
    (high : n.value < 2 ^ 63) : ¬ GetsWrittenCapacity spaces name n := by
  intro gets
  have channels := gets.start
  rw [if_pos empty, GetsCapacity, if_pos ⟨low, high⟩] at channels
  exact create_ne_empty _ _ channels.symm

/-- From 2^31 on, the capacity that is written is lost. -/
theorem not_getsWrittenCapacity_of_large (named : name.text ≠ []) (low : 2 ^ 31 ≤ n.value)
    (high : n.value < 2 ^ 63) : ¬ GetsWrittenCapacity spaces name n := by
  intro gets
  have channels := gets.start
  rw [if_neg named, GetsCapacity, if_pos ⟨by omega, high⟩, createdCapacity_of_large (Or.inl low)]
    at channels
  have capacity := capacity_of_create_eq channels
  omega

/-- A negative number gives a channel of positive capacity. -/
theorem not_getsWrittenCapacity_of_negative (named : name.text ≠ []) (low : -2 ^ 31 ≤ n.value)
    (high : n.value < 0) : ¬ GetsWrittenCapacity spaces name n := by
  intro gets
  have channels := gets.start
  rw [if_neg named, GetsCapacity, if_neg (by omega), createdCapacity_of_negative low high]
    at channels
  rcases channels with unchanged | empty
  · exact create_ne_empty _ _ unchanged
  · have capacity := capacity_of_create_eq empty
    omega

theorem getsWrittenCapacity_of_fits (named : name.text ≠ []) (low : 0 ≤ n.value)
    (high : n.value < 2 ^ 31) : GetsWrittenCapacity spaces name n := by
  intro runtime
  refine ⟨_, run_createLine spaces name n runtime, ?_⟩
  rw [if_neg named, GetsCapacity, if_pos ⟨low, by omega⟩, createdCapacity_of_fits low high]

theorem getsWrittenCapacity_of_lost (lost : 2 ^ 63 ≤ n.value ∨ n.value < -2 ^ 31) :
    GetsWrittenCapacity spaces name n := by
  intro runtime
  refine ⟨_, run_createLine spaces name n runtime, ?_⟩
  rw [GetsCapacity, if_neg (by omega), createdCapacity_of_large (by omega)]
  split_ifs
  · exact Or.inl rfl
  · exact Or.inr rfl

theorem getsWrittenCapacity_of_empty (empty : name.text = []) (negative : n.value < 0) :
    GetsWrittenCapacity spaces name n := by
  intro runtime
  refine ⟨_, run_createLine spaces name n runtime, ?_⟩
  rw [GetsCapacity, if_neg (by omega), if_pos empty]
  exact Or.inl rfl

end

/-- A channel gets the capacity that is written as long as this is an `int` that is not
negative, or is so far out that no channel should get it. -/
theorem getsWrittenCapacity_iff (spaces : ℕ) (name : Literal) (n : Numeral) :
    GetsWrittenCapacity spaces name n ↔
      (name.text ≠ [] ∧ 0 ≤ n.value ∧ n.value < 2 ^ 31) ∨ 2 ^ 63 ≤ n.value ∨
        n.value < -2 ^ 31 ∨ (name.text = [] ∧ n.value < 0) := by
  constructor
  · intro gets
    by_contra other
    simp only [not_or, not_and, not_lt, not_le] at other
    obtain ⟨fits, high, low, negative⟩ := other
    rcases eq_or_ne name.text [] with empty | named
    · exact not_getsWrittenCapacity_of_empty empty (negative empty) high gets
    · rcases lt_or_ge n.value 0 with below | above
      · exact not_getsWrittenCapacity_of_negative named low below gets
      · exact not_getsWrittenCapacity_of_large named (fits named above) high gets
  · rintro (⟨named, low, high⟩ | high | low | ⟨empty, negative⟩)
    · exact getsWrittenCapacity_of_fits named low high
    · exact getsWrittenCapacity_of_lost (Or.inl high)
    · exact getsWrittenCapacity_of_lost (Or.inr low)
    · exact getsWrittenCapacity_of_empty empty negative

/-- `createChannel('c', 2147483648)` creates a channel of capacity 0. -/
theorem capacity_beyond_int_lost :
    ¬ GetsWrittenCapacity 1 ⟨['c'], by decide, by decide, by decide⟩
      ⟨false, "2147483648".toList, by decide, by decide⟩ :=
  not_getsWrittenCapacity_of_large (by decide) (by decide) (by decide)

end Kode.Parser
