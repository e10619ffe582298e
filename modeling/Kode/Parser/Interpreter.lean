/-
# Executing programs of channel calls

`Parse` makes statements of a program text, and `ExecuteStatement` executes a statement. The
README of the concurrency runtime has programs parsed by the one and executed through the
other, but no function does both: `ExecuteString` hands a program to V8. Here the statements
of `Parse` are executed one behind the other, by a thread that has the runtime to itself.

For programs of calls on channels and of `console.log` this is an interpreter, and its
language has a meaning of its own: a queue under each name, and the lines that are printed.
However a program is laid out, its statements do what its commands mean: they print the same
lines, leave the same queues behind, and block exactly where the commands have to.

What the other actions print depends on files, timers and tasks. It is a parameter.
-/

import Kode.Concurrency.BoundedQueues
import Kode.Parser.Execute
import Kode.Parser.Layout
import Kode.Parser.Program

namespace Kode.Parser

open Kode.Library Kode.Concurrency

/-! ## What the runtime prints -/

/-- The message of `sendToChannel` and `receiveFromChannel`. -/
def channelNotFound (name : String) : Text :=
  "Error: Channel '".toList ++ name.toList ++ "' not found".toList

/-- The lines that an operation on a channel prints. A received value that is empty is not
shown. -/
def channelOutput (op : RegistryOp) : RegistryAnswer → List Text
  | .created | .sent _ => []
  | .notFound => (op.uses.map channelNotFound).toList
  | .received value =>
      let text := (value.getD "").toList
      if text = [] then [] else ["Received: ".toList ++ text]

/-- The available commands. -/
def helpOutput : List Text :=
  ["[Runtime] Unknown statement - available commands:",
    "  console.log('message')",
    "  setTimeout()",
    "  fs.readFile('filename', callback)",
    "  fs.writeFile('filename', 'content', callback)",
    "  fs.readFileSync('filename')"].map String.toList

/-- What an action does to the channels and prints. A call that blocks has no result. -/
def Action.perform (elsewhere : Action → List Text) (runtime : KodeRuntime) :
    Action → Option (KodeRuntime × List Text)
  | .print text => some (runtime, [text])
  | .channel op =>
      (runtime.step op).map fun answered => (answered.1, channelOutput op answered.2)
  | .help => some (runtime, helpOutput)
  | .nothing => some (runtime, [])
  | action => some (runtime, elsewhere action)

/-- A call of `ExecuteStatement`. -/
def execute (elsewhere : Action → List Text) (runtime : KodeRuntime) (stmt : Statement) :
    Option (KodeRuntime × List Text) :=
  (executeStatement stmt).perform elsewhere runtime

/-! ## What a program means -/

/-- A call of the language. -/
inductive Command
  | createChannel (name : Literal) (capacity : Numeral)
  | sendToChannel (name value : Literal)
  | receiveFromChannel (name : Literal)
  | log (message : Literal)

namespace Command

theorem isDigit_of_mem_nil : ∀ c ∈ ([] : List Char), c.isDigit = true := List.forall_mem_nil _

/-- The call. -/
def call : Command → Call
  | createChannel name capacity =>
      ⟨.createChannel, [.literal name, .number ⟨capacity, [], isDigit_of_mem_nil⟩]⟩
  | sendToChannel name value => ⟨.sendToChannel, [.literal name, .literal value]⟩
  | receiveFromChannel name => ⟨.receiveFromChannel, [.literal name]⟩
  | log message => ⟨.log, [.literal message]⟩

/-- Channels have a name and a capacity that is an `int`. -/
def Typed : Command → Prop
  | createChannel name capacity =>
      name.text ≠ [] ∧ 0 ≤ capacity.value ∧ capacity.value < 2 ^ 31
  | sendToChannel name _ | receiveFromChannel name => name.text ≠ []
  | log _ => True

instance : (command : Command) → Decidable command.Typed
  | createChannel name capacity =>
      inferInstanceAs (Decidable
        (name.text ≠ [] ∧ 0 ≤ capacity.value ∧ capacity.value < 2 ^ 31))
  | sendToChannel name _ | receiveFromChannel name => inferInstanceAs (Decidable (name.text ≠ []))
  | log _ => inferInstanceAs (Decidable True)

/-- The parser understands the command. -/
structure Proper (command : Command) : Prop where
  typed : command.Typed
  harmless : command.call.FreeOf (triggers ++ command.call.callee.confusing)

/-- What `ExecuteStatement` has to call. -/
def action : Command → Action
  | createChannel name capacity =>
      .channel (.create (String.ofList name.text) capacity.value.toNat)
  | sendToChannel name value =>
      .channel (.send (String.ofList name.text) (String.ofList value.text))
  | receiveFromChannel name => .channel (.receive (String.ofList name.text))
  | log message => .print message.text

/-- What a command does to the queues and prints. -/
def meaning (queues : BoundedQueues) : Command → Option (BoundedQueues × List Text)
  | log message => some (queues, [message.text])
  | createChannel name capacity =>
      some (Function.update queues (String.ofList name.text) (some (capacity.value.toNat, [])), [])
  | sendToChannel name value =>
      match queues (String.ofList name.text) with
      | none => some (queues, [channelNotFound (String.ofList name.text)])
      | some (capacity, values) =>
          if capacity = 0 ∨ values.length < capacity then
            some (Function.update queues (String.ofList name.text)
              (some (capacity, values ++ [String.ofList value.text])), [])
          else none
  | receiveFromChannel name =>
      match queues (String.ofList name.text) with
      | none => some (queues, [channelNotFound (String.ofList name.text)])
      | some (_, []) => none
      | some (capacity, value :: values) =>
          some (Function.update queues (String.ofList name.text) (some (capacity, values)),
            if value.toList = [] then [] else ["Received: ".toList ++ value.toList])

end Command

/-- A line on which a command is written. -/
def Writes (line : Text) (command : Command) : Prop := ∃ spaces, line = command.call.line spaces

/-! ## A command -/

namespace Command

variable {command : Command}

/-- The statement of a command leads to its action. -/
theorem executeStatement_parse (spaces : ℕ) (proper : command.Proper) :
    executeStatement (command.call.callee.parse (command.call.written spaces)
      (command.call.args.map Argument.written)) = command.action := by
  obtain ⟨typed, harmless⟩ := proper
  cases command with
  | createChannel name capacity =>
      obtain ⟨named, low, high⟩ := typed
      have executed := executeStatement_createLine spaces name capacity
      rw [createLine, Call.parseLine_of_written (Call.trim_removeSemicolons_written spaces _),
        if_neg named, createdCapacity_of_fits low high] at executed
      exact executed
  | sendToChannel name value =>
      have named : name.text ≠ [] := typed
      have first : literalAt ([.literal name, .literal value].map Argument.written) 0 =
          some name.text := literalAt_written _ _
      have second : literalAt ([.literal name, .literal value].map Argument.written) 1 =
          some value.text := literalAt_written _ _
      simp only [call, Callee.parse, parseSend, first, second]
      simp [executeStatement, channelAction, action, named]
  | receiveFromChannel name =>
      have named : name.text ≠ [] := typed
      have first : literalAt ([.literal name].map Argument.written) 0 = some name.text :=
        literalAt_written _ _
      simp only [call, Callee.parse, parseReceive, first]
      simp [executeStatement, channelAction, action, named]
  | log message =>
      obtain ⟨free, clear⟩ := Call.freeOf_append.mp harmless
      have type := (consoleType_log_iff spaces rfl free).mpr clear
      have content : (parseConsole ((log message).call.written spaces)).content = message.text := by
        have alone : (log message).call.args[0]? = some (.literal message) := rfl
        exact ((stores_console_iff spaces alone).mpr ⟨rfl, rfl⟩).2
      have stmt : executeStatement (parseConsole ((log message).call.written spaces)) =
          .print message.text := by
        rw [executeStatement, content]
        simp only [parseConsole, type]
      exact stmt

/-- A line with a command gives a statement that leads to its action. -/
theorem lineStatement_of_writes {line : Text} (writes : Writes line command)
    (proper : command.Proper) :
    ∃ stmt, lineStatement line = some stmt ∧ executeStatement stmt = command.action := by
  obtain ⟨spaces, rfl⟩ := writes
  obtain ⟨harmless, -⟩ := Call.freeOf_append.mp proper.harmless
  have notError : command.call.callee ≠ .error := by cases command <;> nofun
  have free : command.call.FreeOf leftOut :=
    (Call.freeOf_append.mp harmless).2
  exact ⟨_, lineStatement_line_iff.mpr ⟨notError, free, rfl⟩,
    executeStatement_parse spaces proper⟩

/-- What a command means, as an operation on the queues. -/
theorem meaning_of_op {op : RegistryOp} (isChannel : command.action = .channel op)
    (queues : BoundedQueues) :
    command.meaning queues =
      (queues.step op).map fun answered => (answered.1, channelOutput op answered.2) := by
  cases command with
  | createChannel name capacity =>
      obtain rfl := Action.channel.inj isChannel
      rfl
  | sendToChannel name value =>
      obtain rfl := Action.channel.inj isChannel
      simp only [meaning, BoundedQueues.step]
      rcases queues (String.ofList name.text) with _ | ⟨capacity, values⟩
      · rfl
      · by_cases room : capacity = 0 ∨ values.length < capacity
        · have roomy : BoundedQueues.HasRoom (capacity, values) := room
          simp only [if_pos room, if_pos roomy]
          rfl
        · have full : ¬ BoundedQueues.HasRoom (capacity, values) := room
          simp only [if_neg room, if_neg full]
          rfl
  | receiveFromChannel name =>
      obtain rfl := Action.channel.inj isChannel
      simp only [meaning, BoundedQueues.step]
      rcases queues (String.ofList name.text) with _ | ⟨capacity, _ | ⟨value, values⟩⟩
      · rfl
      · rfl
      · rfl
  | log message => cases isChannel

/-- An action of a command is an operation on a channel or prints a line. -/
theorem action_cases (command : Command) :
    (∃ op, command.action = .channel op) ∨ ∃ message, command = .log message := by
  cases command with
  | log message => exact Or.inr ⟨message, rfl⟩
  | createChannel | sendToChannel | receiveFromChannel => exact Or.inl ⟨_, rfl⟩

section

variable (elsewhere : Action → List Text) {runtime : KodeRuntime}
  (allOpen : runtime.channels.AllOpen)

include allOpen

/-- The action of a command does what the command means. -/
theorem meaning_ofRuntime (command : Command) :
    command.meaning (.ofRuntime runtime) =
      (command.action.perform elsewhere runtime).map fun done =>
        (BoundedQueues.ofRuntime done.1, done.2) := by
  rcases command.action_cases with ⟨op, isChannel⟩ | ⟨message, rfl⟩
  · rw [meaning_of_op isChannel, isChannel, BoundedQueues.step_ofRuntime allOpen, Action.perform,
      Option.map_map, Option.map_map]
    rfl
  · rfl

theorem allOpen_perform (command : Command) {done : KodeRuntime × List Text}
    (performed : command.action.perform elsewhere runtime = some done) :
    done.1.channels.AllOpen := by
  rcases command.action_cases with ⟨op, isChannel⟩ | ⟨message, rfl⟩
  · rw [isChannel, Action.perform] at performed
    obtain ⟨answered, taken, rfl⟩ := Option.map_eq_some_iff.mp performed
    exact BoundedQueues.allOpen_step allOpen taken
  · obtain rfl := Option.some.inj performed
    exact allOpen

end

end Command

/-! ## A program -/

/-- Statements whose actions are those of the commands do what the commands mean. -/
theorem meaning_of_actions (elsewhere : Action → List Text) {runtime : KodeRuntime}
    (allOpen : runtime.channels.AllOpen) {statements : List Statement} {commands : List Command}
    (actions : List.Forall₂ (fun stmt command => executeStatement stmt = command.action)
      statements commands) :
    runSteps (recorded Command.meaning) (.ofRuntime runtime, []) commands =
      (runSteps (recorded (execute elsewhere)) (runtime, []) statements).map
        fun done => (BoundedQueues.ofRuntime done.1, done.2) := by
  let project (done : KodeRuntime × List (List Text)) := (BoundedQueues.ofRuntime done.1, done.2)
  let holds (done : KodeRuntime × List (List Text)) := done.1.channels.AllOpen
  have start : holds (runtime, []) := allOpen
  refine runSteps_of_commutes project holds ?_ ?_ start actions
  · intro state stmt command openNow same
    rw [recorded, recorded, command.meaning_ofRuntime elsewhere openNow, execute, same,
      Option.map_map, Option.map_map]
    rfl
  · intro state stmt command next openNow same taken
    obtain ⟨answer, executed, -⟩ := recorded_eq_some_iff.mp taken
    rw [execute, same] at executed
    exact command.allOpen_perform elsewhere openNow executed

/-- Where every line of a program gives a statement, these are the statements. -/
theorem parse_of_given {code : Text}
    (given : ∀ line ∈ significantLines code, (lineStatement line).isSome) :
    parse code = (significantLines code).filterMap lineStatement := by
  rw [parse_eq, endState, parseStep_filterMap rfl given]
  rfl

theorem forall₂_filterMap_of {α β γ : Type} {R : α → γ → Prop} {S : β → γ → Prop}
    {f : α → Option β} {items : List α} {others : List γ} (related : List.Forall₂ R items others)
    (gives : ∀ item other, other ∈ others → R item other → ∃ result, f item = some result ∧
      S result other) :
    (∀ item ∈ items, (f item).isSome) ∧ List.Forall₂ S (items.filterMap f) others := by
  induction related with
  | nil => exact ⟨by simp, .nil⟩
  | cons here _ ih =>
      obtain ⟨result, found, holds⟩ := gives _ _ List.mem_cons_self here
      obtain ⟨given, rest⟩ :=
        ih fun item other member => gives item other (List.mem_cons_of_mem _ member)
      rw [List.filterMap_cons_some found]
      refine ⟨?_, .cons holds rest⟩
      intro item member
      rcases List.mem_cons.mp member with rfl | later
      · rw [found]
        rfl
      · exact given item later

/-- The statements of a program are as many as its commands. Executing any number of them
from the first one on does what as many commands mean, on any channels and in any layout. -/
theorem program_runs_as_meant (elsewhere : Action → List Text) {runtime : KodeRuntime}
    (allOpen : runtime.channels.AllOpen) {code : Text} {commands : List Command}
    (written : List.Forall₂ Writes (significantLines code) commands)
    (proper : ∀ command ∈ commands, command.Proper) :
    (parse code).length = commands.length ∧
    ∀ count, (runSteps (recorded (execute elsewhere)) (runtime, [])
        ((parse code).take count)).map (fun done => (BoundedQueues.ofRuntime done.1, done.2)) =
      runSteps (recorded Command.meaning) (.ofRuntime runtime, []) (commands.take count) := by
  obtain ⟨given, actions⟩ := forall₂_filterMap_of written
    fun line command member writes => Command.lineStatement_of_writes writes (proper _ member)
  rw [parse_of_given given]
  refine ⟨actions.length_eq, fun count => ?_⟩
  exact (meaning_of_actions elsewhere allOpen (List.forall₂_take count actions)).symm

instance (call : Call) (texts : List String) : Decidable (call.FreeOf texts) :=
  inferInstanceAs (Decidable (∀ contents ∈ call.literals, ∀ text ∈ texts,
    ¬ text.toList <:+: contents))

/-- A literal of one character. -/
def letter (c : Char) (plain : c ≠ '\'' ∧ c ≠ '\\' ∧ c ≠ '\n') : Literal where
  text := [c]
  noQuote := by simpa using plain.1.symm
  noBackslash := by simpa using plain.2.1.symm
  oneLine := by simpa using plain.2.2.symm

/-- A value goes through a channel. -/
def passOn : List Command :=
  [.createChannel (letter 'c' (by decide)) ⟨false, ['1'], by decide, by decide⟩,
    .sendToChannel (letter 'c' (by decide)) (letter 'v' (by decide)),
    .receiveFromChannel (letter 'c' (by decide)),
    .log (letter '!' (by decide))]

def passOnCode : Text :=
  ("createChannel('c', 1);\n\n  sendToChannel('c', 'v'); // one\n" ++
    "receiveFromChannel('c');\r\nconsole.log('!');").toList

theorem program_runs_as_meant_passOn :
    (runSteps (recorded (execute fun _ => [])) (.start, []) (parse passOnCode)).map
        (fun done => (BoundedQueues.ofRuntime done.1, done.2)) =
      runSteps (recorded Command.meaning) (.ofRuntime .start, []) passOn := by
  have lines : significantLines passOnCode = passOn.map (fun command => command.call.line 1) := by
    decide
  have written : List.Forall₂ Writes (significantLines passOnCode) passOn := by
    rw [lines, List.forall₂_map_left_iff, List.forall₂_same]
    exact fun command _ => ⟨1, rfl⟩
  have proper : ∀ command ∈ passOn, command.Proper := by
    simp only [passOn, List.forall_mem_cons]
    exact ⟨⟨by decide, by decide⟩, ⟨by decide, by decide⟩, ⟨by decide, by decide⟩,
      ⟨by decide, by decide⟩, by simp⟩
  obtain ⟨many, runs⟩ :=
    program_runs_as_meant (fun _ => []) BoundedQueues.allOpen_start written proper
  have all := runs passOn.length
  rwa [List.take_of_length_le many.le, List.take_length] at all

end Kode.Parser
