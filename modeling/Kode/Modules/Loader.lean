/-
# The CommonJS module loader

`require` of a local specifier resolves it against a base directory, answers from
the cache when the file has an entry, and otherwise reads, wraps, compiles and
calls the module. The loader keeps a cache of module objects by file name, a stack
of the directories of the modules whose bodies are running, and the entry
directory.

JavaScript code is a tree of the actions the loader can notice: calls, property
reads and writes, object and function creation, with a continuation that receives
each result or exception, so that `try`/`catch` and every use of a result are
covered. A function remembers the file in whose source it is written. Calls nest
without bound in JavaScript; the model gives each run a depth and reports when it
is not enough, keeping all that happened until then.

Left out are the contents of the built-in modules and properties of objects that
the loader never reads, such as prototypes and attributes.
-/

import Kode.Library.PosixPath
import Mathlib.Logic.Function.Basic

namespace Kode.Modules

open Kode.Library Kode.Library.PosixPath

/-- An error made by `CreateKodeError`. -/
structure KodeError where
  code : Text
  message : Text
  operation : Text
  path : Text
  deriving DecidableEq, Repr

/-- A JavaScript value. Objects and functions are references into the heap;
`require` is the native callback. -/
inductive Value
  | undefined
  | text (content : Text)
  | object (ref : ℕ)
  | require
  | kodeError (error : KodeError)
  | typeError
  deriving DecidableEq, Repr

/-- A property of an object: a value, or an accessor with the function that
computes it. -/
inductive Property
  | data (value : Value)
  | accessor (getter : Value)
  deriving DecidableEq, Repr

/-- JavaScript code. -/
inductive Code
  | return (value : Value)
  | throw (error : Value)
  | call (callee : Value) (args : List Value) (next : Except Value Value → Code)
  | get (target : Value) (name : Text) (next : Except Value Value → Code)
  /-- An assignment to a property. -/
  | set (target : Value) (name : Text) (value : Value) (next : Except Value Value → Code)
  /-- `Object.defineProperty` with a getter. -/
  | define (target : Value) (name : Text) (getter : Value) (next : Except Value Value → Code)
  | create (next : Value → Code)
  | function (body : List Value → Code) (next : Value → Code)
  /-- An assignment to the global `require`. -/
  | setGlobalRequire (value : Value) (next : Code)
  /-- `Object.defineProperty` of the global `require` with a getter. -/
  | defineGlobalRequire (getter : Value) (next : Code)

/-- In whose source code is written, or whose body is running: the entry script or
a module file. -/
inductive Owner
  | entry
  | file (filename : Text)
  deriving DecidableEq, Repr

/-- A function with the owner of its source. -/
structure Closure where
  owner : Owner
  body : List Value → Code

/-- What the loader does, for the history. -/
inductive LoadEvent
  /-- A local specifier, required by code of `owner` while the body of `current` is
  the innermost one running, is resolved against `base`. -/
  | resolve (owner current : Owner) (specifier base : Text)
  /-- The cache answers with the `exports` of a module object. -/
  | hit (filename : Text) (module : ℕ) (exports : Value)
  /-- The file has been read and its module object is in the cache. -/
  | start (filename : Text) (module : ℕ)
  /-- The module's function is called. -/
  | body (filename : Text)
  | fail (filename : Text)
  | finish (filename : Text) (exports : Value)
  deriving DecidableEq, Repr

/-- The state of the loader and of the heap. `dirStack` and `log` have their newest
element first. -/
structure Loader where
  objects : ℕ → Text → Option Property
  functions : ℕ → Option Closure
  nextRef : ℕ
  globalRequire : Property
  cache : Text → Option ℕ
  dirStack : List Text
  entryDir : Text
  log : List LoadEvent

/-- How a piece of code ended. -/
inductive Outcome
  | ok (value : Value)
  | error (error : Value)
  /-- Calls nest deeper than the run allows. -/
  | exhausted
  deriving DecidableEq, Repr

/-- What `LoadLocalModule` returns: a value, or an empty handle with or without a
pending exception. -/
inductive Loaded
  | value (exports : Value)
  | threw (error : Value)
  | nothing
  | exhausted
  deriving DecidableEq, Repr

/-- The handle is empty. -/
def Loaded.failed : Loaded → Bool
  | .threw _ | .nothing => true
  | .value _ | .exhausted => false

/-- What a file contains, as the compiler sees the wrapped text: an error, or a
script whose value should be the module's function. -/
inductive Source
  | invalid (error : Value)
  | script (code : Code)

/-- The regular files and the current directory. A path that is a directory is outside the
model: `ReadFileText` can open one, and reading it ends the process. -/
structure FileSystem where
  files : List (Text × Source)
  currentDirectory : Text

/-- How calls are run: the owner of the calling code, the innermost running body,
the callee, its arguments and the state. -/
abbrev Caller := Owner → Owner → Value → List Value → Loader → Outcome × Loader

namespace Source

/-- The wrapped text of an ordinary module: one function expression. -/
def module (body : List Value → Code) : Source := .script (.function body .return)

end Source

namespace FileSystem

/-- `ReadFileText`. -/
def readFileText (fs : FileSystem) (path : Text) : Option Source :=
  (fs.files.find? fun file => file.1 = path).map Prod.snd

/-- `FileExists`. -/
def fileExists (fs : FileSystem) (path : Text) : Bool := (fs.readFileText path).isSome

/-- `NormalizePath`. -/
def normalizePath (fs : FileSystem) (path : Text) : Text :=
  lexicallyNormal (absolute fs.currentDirectory path)

/-- `ResolveLocalModulePath`. -/
def resolveLocalModulePath (fs : FileSystem) (baseDir specifier : Text) : Text :=
  let literal := fs.normalizePath (append baseDir specifier)
  if fs.fileExists literal then literal
  else if extension literal = [] then literal ++ ".js".toList
  else literal

end FileSystem

/-- `Dirname`. -/
def dirname (path : Text) : Text := parentPath path

/-- `IsLocalSpecifier`. -/
def isLocalSpecifier (specifier : Text) : Bool :=
  "./".toList.isPrefixOf specifier || "../".toList.isPrefixOf specifier

namespace Loader

/-- The loader after `SetModuleEntryDirectory`, before the entry script runs. -/
def start (fs : FileSystem) (filename : Text) : Loader where
  objects _ _ := none
  functions _ := none
  nextRef := 0
  globalRequire := .data .require
  cache _ := none
  dirStack := []
  entryDir := dirname (fs.normalizePath filename)
  log := []

/-- Add to the history. -/
def record (loader : Loader) (event : LoadEvent) : Loader :=
  { loader with log := event :: loader.log }

/-- `Value::IsFunction`. -/
def isFunction (loader : Loader) : Value → Bool
  | .require => true
  | .object ref => (loader.functions ref).isSome
  | _ => false

/-- A new object, or a new function. -/
def allocate (loader : Loader) (closure : Option Closure) : Value × Loader :=
  (.object loader.nextRef,
    { loader with
      objects := Function.update loader.objects loader.nextRef fun _ => none
      functions := Function.update loader.functions loader.nextRef closure
      nextRef := loader.nextRef + 1 })

/-- Give an object a property. -/
def putProperty (loader : Loader) (ref : ℕ) (name : Text) (property : Property) : Loader :=
  { loader with
    objects := Function.update loader.objects ref
      (Function.update (loader.objects ref) name (some property)) }

/-- Read a property; an accessor calls its getter. -/
def getProperty (call : Caller) (owner current : Owner) (target : Value) (name : Text)
    (loader : Loader) : Outcome × Loader :=
  match target with
  | .undefined => (.error .typeError, loader)
  | .object ref =>
      match loader.objects ref name with
      | none => (.ok .undefined, loader)
      | some (.data value) => (.ok value, loader)
      | some (.accessor getter) => call owner current getter [] loader
  | _ => (.ok .undefined, loader)

/-- Assign to a property. An accessor without a setter swallows the value. -/
def setProperty (target : Value) (name : Text) (value : Value) (loader : Loader) :
    Outcome × Loader :=
  match target with
  | .undefined => (.error .typeError, loader)
  | .object ref =>
      match loader.objects ref name with
      | some (.accessor _) => (.ok value, loader)
      | _ => (.ok value, loader.putProperty ref name (.data value))
  | _ => (.ok value, loader)

/-- Make a property an accessor. -/
def defineProperty (target : Value) (name : Text) (getter : Value) (loader : Loader) :
    Outcome × Loader :=
  match target with
  | .object ref => (.ok target, loader.putProperty ref name (.accessor getter))
  | _ => (.error .typeError, loader)

/-- Go on with a result or an exception. -/
def resume (ended : Outcome × Loader) (next : Except Value Value → Loader → Outcome × Loader) :
    Outcome × Loader :=
  match ended with
  | (.ok value, after) => next (.ok value) after
  | (.error error, after) => next (.error error) after
  | (.exhausted, after) => (.exhausted, after)

/-- Run code of `owner` while the body of `current` is the innermost one running. -/
def runCode (call : Caller) (owner current : Owner) : Code → Loader → Outcome × Loader
  | .return value, loader => (.ok value, loader)
  | .throw error, loader => (.error error, loader)
  | .call callee args next, loader =>
      resume (call owner current callee args loader) fun result after =>
        runCode call owner current (next result) after
  | .get target name next, loader =>
      resume (getProperty call owner current target name loader) fun result after =>
        runCode call owner current (next result) after
  | .set target name value next, loader =>
      resume (setProperty target name value loader) fun result after =>
        runCode call owner current (next result) after
  | .define target name getter next, loader =>
      resume (defineProperty target name getter loader) fun result after =>
        runCode call owner current (next result) after
  | .create next, loader =>
      runCode call owner current (next (loader.allocate none).1) (loader.allocate none).2
  | .function body next, loader =>
      runCode call owner current (next (loader.allocate (some ⟨owner, body⟩)).1)
        (loader.allocate (some ⟨owner, body⟩)).2
  | .setGlobalRequire value next, loader =>
      match loader.globalRequire with
      | .accessor _ => runCode call owner current next loader
      | .data _ => runCode call owner current next { loader with globalRequire := .data value }
  | .defineGlobalRequire getter next, loader =>
      runCode call owner current next { loader with globalRequire := .accessor getter }

/-! ## `LoadLocalModule` -/

/-- The property name `exports`. -/
def exportsName : Text := "exports".toList

/-- `base_dir`: the top of the directory stack, or the entry directory. -/
def baseDir (loader : Loader) : Text :=
  match loader.dirStack with
  | top :: _ => top
  | [] => loader.entryDir

/-- Make the `exports` and `module` objects and put the module into the cache. The
`exports` object has the first free reference and the module the second. -/
def openModule (loader : Loader) (filename : Text) : Loader :=
  let made := ((loader.allocate none).2.allocate none).2.putProperty (loader.nextRef + 1)
    exportsName (.data (.object loader.nextRef))
  { made with cache := Function.update loader.cache filename (some (loader.nextRef + 1)) }.record
    (.start filename (loader.nextRef + 1))

/-- Erase the cache entry of a load that fails. -/
def abandon (loader : Loader) (filename : Text) : Loader :=
  { loader with cache := Function.update loader.cache filename none }.record (.fail filename)

/-- `g_module_dir_stack.push_back`. -/
def pushDir (loader : Loader) (dir : Text) : Loader :=
  { loader with dirStack := dir :: loader.dirStack }

/-- `g_module_dir_stack.pop_back`. -/
def popDir (loader : Loader) : Loader := { loader with dirStack := loader.dirStack.tail }

/-- Read the global `require`. -/
def readGlobalRequire (call : Caller) (owner current : Owner) (loader : Loader) :
    Outcome × Loader :=
  match loader.globalRequire with
  | .data value => (.ok value, loader)
  | .accessor getter => call owner current getter [] loader

/-- The end of a load: read `module.exports`. -/
def readExports (call : Caller) (current : Owner) (filename : Text) (module : ℕ)
    (loader : Loader) : Loaded × Loader :=
  match getProperty call (.file filename) current (.object module) exportsName loader with
  | (.ok exports, after) => (.value exports, after.record (.finish filename exports))
  | (.error error, after) => (.threw error, after.abandon filename)
  | (.exhausted, after) => (.exhausted, after)

/-- Call the module's function with its directory on the stack. -/
def callWrapper (call : Caller) (current : Owner) (filename : Text) (exports module : ℕ)
    (wrapper requireValue : Value) (loader : Loader) : Loaded × Loader :=
  let args := [.object exports, requireValue, .object module, .text filename,
    .text (dirname filename)]
  let pushed := (loader.pushDir (dirname filename)).record (.body filename)
  match call (.file filename) (.file filename) wrapper args pushed with
  | (.ok _, after) => readExports call current filename module after.popDir
  | (.error error, after) => (.threw error, after.popDir.abandon filename)
  | (.exhausted, after) => (.exhausted, after.popDir)

/-- The error for a missing global `require`. -/
def requireMissing (filename : Text) : Value :=
  .kodeError ⟨"EINTERNAL".toList, "Global require is not available".toList,
    "module.require".toList, filename⟩

/-- Fetch the global `require` for a module whose function is `wrapper`. -/
def enterModule (call : Caller) (current : Owner) (filename : Text) (exports module : ℕ)
    (wrapper : Value) (loader : Loader) : Loaded × Loader :=
  match readGlobalRequire call (.file filename) current loader with
  | (.ok requireValue, after) =>
      if after.isFunction requireValue then
        callWrapper call current filename exports module wrapper requireValue after
      else (.threw (requireMissing filename), after.abandon filename)
  | (.error _, after) => (.threw (requireMissing filename), after.abandon filename)
  | (.exhausted, after) => (.exhausted, after)

/-- Compile and run the wrapped text of a file whose module is in the cache. A
script that does not evaluate to a function leaves no exception behind. -/
def evaluateModule (call : Caller) (current : Owner) (filename : Text) (exports module : ℕ)
    (source : Source) (loader : Loader) : Loaded × Loader :=
  match source with
  | .invalid error => (.threw error, loader.abandon filename)
  | .script code =>
      match runCode call (.file filename) current code loader with
      | (.ok wrapper, after) =>
          if after.isFunction wrapper then
            enterModule call current filename exports module wrapper after
          else (.nothing, after.abandon filename)
      | (.error error, after) => (.threw error, after.abandon filename)
      | (.exhausted, after) => (.exhausted, after)

/-- Answer from the cache. -/
def cachedExports (call : Caller) (owner current : Owner) (filename : Text) (module : ℕ)
    (loader : Loader) : Loaded × Loader :=
  match getProperty call owner current (.object module) exportsName loader with
  | (.ok exports, after) => (.value exports, after.record (.hit filename module exports))
  | (.error error, after) => (.threw error, after)
  | (.exhausted, after) => (.exhausted, after)

/-- The error for a file that cannot be read. -/
def moduleNotFound (specifier filename : Text) : Value :=
  .kodeError ⟨"EMODULE_NOT_FOUND".toList,
    "Cannot find module '".toList ++ specifier ++ "'".toList, "module.require".toList, filename⟩

/-- `LoadLocalModule`. -/
def loadLocalModule (fs : FileSystem) (call : Caller) (owner current : Owner)
    (specifier : Text) (loader : Loader) : Loaded × Loader :=
  let filename := fs.resolveLocalModulePath loader.baseDir specifier
  let loader := loader.record (.resolve owner current specifier loader.baseDir)
  match loader.cache filename with
  | some module => cachedExports call owner current filename module loader
  | none =>
      match fs.readFileText filename with
      | none => (.threw (moduleNotFound specifier filename), loader)
      | some source =>
          evaluateModule call current filename loader.nextRef (loader.nextRef + 1) source
            (loader.openModule filename)

/-! ## `RequireCallback` and calls -/

/-- The names of the built-in modules. -/
def builtins : List Text :=
  ["kode:path".toList, "kode:crypto".toList, "kode:encoding".toList, "fs".toList,
    "kode:fs".toList]

/-- `RequireCallback`. A built-in module is a new object each time. -/
def requireCallback (fs : FileSystem) (call : Caller) (owner current : Owner)
    (args : List Value) (loader : Loader) : Outcome × Loader :=
  match args with
  | .text name :: _ =>
      if name ∈ builtins then
        (.ok (loader.allocate none).1, (loader.allocate none).2)
      else if isLocalSpecifier name then
        match loadLocalModule fs call owner current name loader with
        | (.value exports, after) => (.ok exports, after)
        | (.threw error, after) => (.error error, after)
        | (.nothing, after) => (.ok .undefined, after)
        | (.exhausted, after) => (.exhausted, after)
      else
        (.error (.kodeError ⟨"EUNSUPPORTED_MODULE".toList,
          "Unsupported module '".toList ++ name ++ "'".toList, "module.require".toList, name⟩),
          loader)
  | _ =>
      (.error (.kodeError ⟨"EINVAL".toList, "require requires a module string".toList,
        "module.require".toList, []⟩), loader)

/-- Call a value: the native `require`, or a function, whose code belongs to the
owner of its source. -/
def callValue (fs : FileSystem) (call : Caller) (owner current : Owner) (callee : Value)
    (args : List Value) (loader : Loader) : Outcome × Loader :=
  match callee with
  | .require => requireCallback fs call owner current args loader
  | .object ref =>
      match loader.functions ref with
      | some closure => runCode call closure.owner current (closure.body args) loader
      | none => (.error .typeError, loader)
  | _ => (.error .typeError, loader)

/-- Calls nested up to a depth. -/
def invoke (fs : FileSystem) : ℕ → Caller
  | 0 => fun _ _ _ _ loader => (.exhausted, loader)
  | depth + 1 => callValue fs (invoke fs depth)

/-! ## Runs -/

/-- Run the entry script. -/
def runEntry (fs : FileSystem) (depth : ℕ) (filename : Text) (entry : Code) :
    Outcome × Loader :=
  runCode (invoke fs depth) .entry .entry entry (start fs filename)

/-- A function that is called when the entry script is over, as a microtask or by a
host callback, with no module body running. -/
structure Job where
  callee : ℕ
  args : List Value
  deriving DecidableEq, Repr

/-- Run jobs one after the other, whatever becomes of each. -/
def runJobs (fs : FileSystem) (depth : ℕ) (jobs : List Job) (loader : Loader) : Loader :=
  jobs.foldl (fun loader job =>
    (invoke fs depth .entry .entry (.object job.callee) job.args loader).2) loader

/-- The state after the entry script and the jobs that followed it. -/
def runProgram (fs : FileSystem) (depth : ℕ) (filename : Text) (entry : Code)
    (jobs : List Job) : Loader :=
  runJobs fs depth jobs (runEntry fs depth filename entry).2

end Loader

end Kode.Modules
