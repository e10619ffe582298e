/-
# The bindings of `kode:fs`

The functions that JavaScript calls. Each checks its arguments, starts one operation
of `ModernFS` and settles a promise from its result. Strings cross the border in two
ways: `Utf8Value` gives the bytes of a JavaScript string together with their length,
and `V8String` makes a JavaScript string from the C string of a `std::string`, that is
from the bytes before the first zero byte.

V8's decoder is a parameter. Where it would have to make a string longer than any can be,
the process ends. Numbers are kept exact; as doubles they are so below 2^53.
-/

import Kode.Filesystem.ModernFS
import Mathlib.Algebra.Group.Nat.Defs

namespace Kode.Filesystem

open Kode.Library

universe u

/-- What the bindings use of V8: the decoder behind `NewFromUtf8`. -/
structure V8 where
  decode : Bytes → List Char
  decode_utf8 : ∀ text, decode (utf8 text) = text

/-- `v8::String::kMaxLength` on a 64-bit system, in UTF-16 code units. -/
def kMaxLength : ℕ := 2 ^ 29 - 24

/-- JavaScript values, as far as the bindings look at them. Properties are data
properties. -/
inductive Value
  | undefined
  | null
  | boolean (value : Bool)
  | number (value : ℤ)
  | string (text : List Char)
  | object (properties : List (String × Value))

namespace Value

/-- `BooleanValue`. -/
def truthy : Value → Bool
  | .undefined | .null => false
  | .boolean value => value
  | .number value => value ≠ 0
  | .string text => text ≠ []
  | .object _ => true

/-- `object->Get(name)`. -/
def get (properties : List (String × Value)) (name : String) : Value :=
  (properties.find? fun property => property.1 == name).elim .undefined (·.2)

/-- The path argument of a binding. -/
def path? : List Value → Option (List Char)
  | .string path :: _ => some path
  | _ => none

end Value

namespace V8

variable (v8 : V8)

/-- `NewFromUtf8` without a length, that is with the length -1: the string for the bytes
before the first zero byte. If it would be longer than any string can be, the process
ends. -/
def newFromCString (memory : Bytes) : Option (List Char) :=
  if utf16Length (v8.decode (cString memory)) ≤ kMaxLength then
    some (v8.decode (cString memory))
  else none

/-- `V8String(isolate, const std::string&)`. -/
def v8String (value : Bytes) : Option (List Char) := v8.newFromCString value

/-- `CreateKodeError`. -/
def createKodeError (code message operation path : Bytes) : Option Value := do
  let messageText ← v8.v8String message
  let codeText ← v8.v8String code
  let operationText ← v8.v8String operation
  let pathText ← v8.v8String path
  some (.object [("message", .string messageText), ("code", .string codeText),
    ("operation", .string operationText), ("path", .string pathText)])

/-- How a call without a promise ends: an exception or a value, which is missing where
`ToLocalChecked` ends the process. -/
abbrev Immediate := Except (Option Value) (Option Value)

/-- `ReadStringArg`: the text whose encoding it stores, or the error that it throws. -/
def readStringArg (args : List Value) (index : ℕ) (operation : String) :
    Except (Option Value) (List Char) :=
  match args[index]? with
  | some (.string text) => .ok text
  | _ => .error (v8.createKodeError (bytesOf "EINVAL")
      (bytesOf operation ++ bytesOf " requires string arguments") (bytesOf operation) [])

/-- `FileKind`. -/
def fileKind (info : FileInfo) : String :=
  if info.isFile then "file" else if info.isDirectory then "directory" else "other"

/-- `CreateInfoValue`. -/
def createInfoValue : Option FileInfo → Option Value
  | none => some .null
  | some info => do
      let pathText ← v8.v8String info.path
      let mimeText ← v8.v8String info.mimeType
      some (.object [("path", .string pathText), ("kind", .string (fileKind info).toList),
        ("size", .number info.size), ("mimeType", .string mimeText),
        ("lastModified", .number info.lastModified)])

end V8

/-- `GetStringOption` with a default: anything but a string leaves the default. -/
def getStringOption (options : List (String × Value)) (name default : String) : List Char :=
  match Value.get options name with
  | .string text => text
  | _ => default.toList

/-- `GetSignalReasonIfAborted`. -/
def getSignalReasonIfAborted (v8 : V8) (options : List (String × Value)) : Option Value :=
  match Value.get options "signal" with
  | .object signal =>
      if (Value.get signal "aborted").truthy then
        match Value.get signal "reason" with
        | .undefined => v8.createKodeError (bytesOf "ECANCELED") (bytesOf "Operation cancelled")
            (bytesOf "Kode.timeout") []
        | reason => some reason
      else none
  | _ => none

/-- What a binding does when it is called. -/
inductive Call
  | throws (message : String)
  | rejects (reason : Value)
  | starts (operation : Operation)

/-- The bindings that return a promise. -/
inductive Binding
  | read
  | readText
  | write
  | info
  deriving DecidableEq, Repr

/-- The options argument at a position: an object, or none when it is missing. -/
def optionsAt (args : List Value) (position : ℕ) : Option (Option (List (String × Value))) :=
  match args[position]? with
  | none => some none
  | some (.object options) => some (some options)
  | some _ => none

/-- `FSReadCallback` up to the start of the operation. -/
def fsRead (v8 : V8) (args : List Value) : Call :=
  match Value.path? args with
  | none => .throws "fs.read requires a path string"
  | some path =>
      match optionsAt args 1 with
      | none => .throws "fs.read options must be an object"
      | some none => .starts (.read (utf8 path))
      | some (some options) =>
          if getStringOption options "as" "text" ≠ "text".toList then
            .throws "fs.read only supports \x7b as: \"text\" \x7d"
          else
            match getSignalReasonIfAborted v8 options with
            | some reason => .rejects reason
            | none => .starts (.read (utf8 path))

/-- `FSReadTextCallback` up to the start of the operation. -/
def fsReadText (args : List Value) : Call :=
  match Value.path? args with
  | none => .throws "readText requires a path string"
  | some path => .starts (.read (utf8 path))

/-- `FSWriteCallback` up to the start of the operation. -/
def fsWrite (v8 : V8) (args : List Value) : Call :=
  match args with
  | .string path :: .string data :: _ =>
      match optionsAt args 2 with
      | none => .throws "fs.write options must be an object"
      | some none => .starts (.write (utf8 path) (utf8 data) false)
      | some (some options) =>
          let create := getStringOption options "create" "none"
          if create ≠ "none".toList ∧ create ≠ "parents".toList then
            .throws "fs.write create must be \"none\" or \"parents\""
          else
            match getSignalReasonIfAborted v8 options with
            | some reason => .rejects reason
            | none => .starts (.write (utf8 path) (utf8 data) (create = "parents".toList))
  | _ => .throws "fs.write requires path and data strings"

/-- `FSInfoCallback` up to the start of the operation. -/
def fsInfo (args : List Value) : Call :=
  match Value.path? args with
  | none => .throws "fs.info requires a path string"
  | some path => .starts (.info (utf8 path))

/-- A call of a binding. -/
def Binding.call (v8 : V8) : Binding → List Value → Call
  | .read, args => fsRead v8 args
  | .readText, args => fsReadText args
  | .write, args => fsWrite v8 args
  | .info, args => fsInfo args

/-- How a call ends for JavaScript. -/
inductive Outcome
  | threw (message : String)
  | resolved (value : Value)
  | rejected (reason : Value)
  /-- A failed `ToLocalChecked`. -/
  | aborted

/-- Make the value of a settlement, or fail on the way. -/
def Outcome.ofOption (settle : Value → Outcome) : Option Value → Outcome
  | some value => settle value
  | none => .aborted

/-- The callbacks that settle the promise of a binding from the result of its
operation. -/
def Binding.complete (v8 : V8) (path : Bytes) : Binding → WorkResult → Outcome
  | .read, .read (.ok result) =>
      .ofOption .resolved do
        let text ← v8.v8String result.content
        let info ← v8.createInfoValue result.info
        some (.object [("text", .string text), ("info", info)])
  | .read, .read (.error error) =>
      .ofOption .rejected (v8.createKodeError (bytesOf "ENOENT") error (bytesOf "fs.read") path)
  | .readText, .read (.ok result) =>
      .ofOption .resolved ((v8.v8String result.content).map .string)
  | .readText, .read (.error error) =>
      .ofOption .rejected
        (v8.createKodeError (bytesOf "ENOENT") error (bytesOf "fs.readText") path)
  | .write, .write (.ok result) =>
      .ofOption .resolved do
        let info ← v8.createInfoValue result.info
        some (.object [("bytesWritten", .number result.bytesWritten), ("info", info)])
  | .write, .write (.error error) =>
      .ofOption .rejected (v8.createKodeError (bytesOf "ENOENT") error (bytesOf "fs.write") path)
  | .info, .info found error =>
      -- A missing file resolves with null; only another error rejects.
      if error ≠ [] ∧ found = none ∧ ¬ (bytesOf "File not found:").isPrefixOf error then
        .ofOption .rejected (v8.createKodeError (bytesOf "EIO") error (bytesOf "fs.info") path)
      else .ofOption .resolved (v8.createInfoValue found)
  | _, _ => .aborted

/-- The path of an operation. -/
def Operation.path : Operation → Bytes
  | .read path | .write path _ _ | .info path => path

/-- A call of a binding with the operation it starts run to its end. -/
def FileSystem.perform {σ : Type u} (fs : FileSystem σ) (v8 : V8) (disk : σ) (binding : Binding)
    (args : List Value) : σ × Outcome :=
  match binding.call v8 args with
  | .throws message => (disk, .threw message)
  | .rejects reason => (disk, .rejected reason)
  | .starts operation =>
      let finished := fs.workCallback disk operation
      (finished.1, binding.complete v8 operation.path finished.2)

end Kode.Filesystem
