/-
# `kode:path`

The functions of the module and the helpers that they share. Each reads its arguments,
works on the text of the paths with `std::filesystem::path` and gives a string back. The
separator and the dot are single bytes in UTF-8 and occur in no other character, so that
working on characters is working on bytes.
-/

import Kode.Filesystem.RoundTrip
import Kode.Library.PosixPath

namespace Kode.Paths

open Kode.Library
open Kode.Library.PosixPath (Text)
open Kode.Filesystem (V8 Value)

/-! ## Helpers -/

/-- The loop of `TrimTrailingSeparators` over `end`. -/
def trimEnd (path : Text) : ℕ → ℕ
  | 0 => 0
  | 1 => 1
  | position + 2 =>
      if path[position + 1]? = some '/' then trimEnd path (position + 1) else position + 2

/-- `TrimTrailingSeparators`. -/
def trimTrailingSeparators (path : Text) : Text := path.take (trimEnd path path.length)

/-- `LexicalPath`. -/
def lexicalPath (path : Text) : Text :=
  let normalized :=
    trimTrailingSeparators (PosixPath.genericString (PosixPath.lexicallyNormal path))
  if normalized = [] then ['.'] else normalized

/-- `PathDirname`. -/
def pathDirname (path : Text) : Text :=
  let clean := trimTrailingSeparators path
  if clean = ['/'] then clean
  else
    let parent := PosixPath.genericString (PosixPath.parentPath clean)
    if parent = [] then ['.'] else parent

/-- `PathBasename`. -/
def pathBasename (path : Text) : Text :=
  let clean := trimTrailingSeparators path
  if clean = ['/'] then clean else PosixPath.genericString (PosixPath.filename clean)

/-! ## The functions of the module -/

/-- The loop that strips a part of `join`. -/
def stripSeparators : Text → Text
  | [] => []
  | char :: rest => if char = '/' ∨ char = '\\' then stripSeparators rest else char :: rest

/-- The loop of `PathJoinCallback` from a position on. -/
def joinFrom (path : Text) : ℕ → List Text → Text
  | _, [] => path
  | i, part :: parts =>
      joinFrom (PosixPath.append path (if i > 0 then stripSeparators part else part)) (i + 1) parts

/-- `path.join`. -/
def join (parts : List Text) : Text := lexicalPath (joinFrom [] 0 parts)

/-- `path.normalize`. -/
def normalize (path : Text) : Text := lexicalPath path

/-- `path.extname`. -/
def extname (path : Text) : Text := PosixPath.genericString (PosixPath.extension path)

/-- One iteration of the loop of `PathResolveCallback`. -/
def resolveStep (path part : Text) : Text :=
  if PosixPath.isAbsolute part then part else PosixPath.append path part

/-- `path.resolve` in a current directory. -/
def resolve (currentPath : Text) (parts : List Text) : Text :=
  lexicalPath (parts.foldl resolveStep currentPath)

/-! ## The callbacks -/

/-- All arguments of a callback, up to the first that is no string. -/
def readStringArgs (v8 : V8) (args : List Value) (operation : String) :
    Except (Option Value) (List Text) :=
  (List.range args.length).mapM fun index => v8.readStringArg args index operation

/-- A callback that gives back a string made from its first argument. -/
def textCallback (operation : String) (function : Text → Text) (v8 : V8) (args : List Value) :
    V8.Immediate := do
  let path ← v8.readStringArg args 0 operation
  .ok ((v8.v8String (utf8 (function path))).map .string)

/-- `PathJoinCallback`. -/
def pathJoinCallback (v8 : V8) (args : List Value) : V8.Immediate := do
  let parts ← readStringArgs v8 args "kode:path.join"
  .ok ((v8.v8String (utf8 (join parts))).map .string)

/-- `PathNormalizeCallback`. -/
def pathNormalizeCallback : V8 → List Value → V8.Immediate :=
  textCallback "kode:path.normalize" normalize

/-- `PathDirnameCallback`. -/
def pathDirnameCallback : V8 → List Value → V8.Immediate :=
  textCallback "kode:path.dirname" pathDirname

/-- `PathBasenameCallback`. -/
def pathBasenameCallback : V8 → List Value → V8.Immediate :=
  textCallback "kode:path.basename" pathBasename

/-- `PathExtnameCallback`. -/
def pathExtnameCallback : V8 → List Value → V8.Immediate :=
  textCallback "kode:path.extname" extname

/-- `PathIsAbsoluteCallback`. -/
def pathIsAbsoluteCallback (v8 : V8) (args : List Value) : V8.Immediate := do
  let path ← v8.readStringArg args 0 "kode:path.isAbsolute"
  .ok (some (.boolean (PosixPath.isAbsolute path)))

/-- `PathResolveCallback`. -/
def pathResolveCallback (currentPath : Text) (v8 : V8) (args : List Value) : V8.Immediate := do
  let parts ← readStringArgs v8 args "kode:path.resolve"
  .ok ((v8.v8String (utf8 (resolve currentPath parts))).map .string)

/-! ## What the callbacks give back -/

theorem mapM_ok {α β ε : Type} {f : α → Except ε β} {g : α → β} {list : List α}
    (succeeds : ∀ a ∈ list, f a = .ok (g a)) : list.mapM f = .ok (list.map g) := by
  induction list with
  | nil => rfl
  | cons a list ih =>
      have here := succeeds a (List.mem_cons_self ..)
      have later := ih fun other member => succeeds other (List.mem_cons_of_mem _ member)
      rw [List.mapM_cons, here, later]
      rfl

/-- Arguments that are strings are read as they are. -/
theorem readStringArgs_strings (v8 : V8) (parts : List Text) (operation : String) :
    readStringArgs v8 (parts.map .string) operation = .ok parts := by
  have each : ∀ index ∈ List.range (parts.map Value.string).length,
      v8.readStringArg (parts.map .string) index operation = .ok (parts.getD index []) := by
    intro index member
    have inside : index < parts.length := by simpa using member
    simp [V8.readStringArg, List.getElem?_map, List.getElem?_eq_getElem inside]
  rw [readStringArgs, mapM_ok each, List.length_map]
  refine congrArg Except.ok (List.ext_getElem (by simp) fun index _ inside => ?_)
  simp [List.getElem?_eq_getElem inside]

/-- A result without U+0000 that is short enough reaches JavaScript as it is. -/
theorem v8String_result (v8 : V8) {result : Text} (clean : '\x00' ∉ result)
    (fits : utf16Length result ≤ Filesystem.kMaxLength) :
    (v8.v8String (utf8 result)).map Value.string = some (.string result) := by
  rw [(Filesystem.V8.v8String_utf8_eq_self_iff fits).mpr clean]
  rfl

theorem pathJoinCallback_strings (v8 : V8) {parts : List Text} (clean : '\x00' ∉ join parts)
    (fits : utf16Length (join parts) ≤ Filesystem.kMaxLength) :
    pathJoinCallback v8 (parts.map .string) = .ok (some (.string (join parts))) := by
  unfold pathJoinCallback
  rw [readStringArgs_strings, ← v8String_result v8 clean fits]
  rfl

theorem pathResolveCallback_strings (v8 : V8) (currentPath : Text) {parts : List Text}
    (clean : '\x00' ∉ resolve currentPath parts)
    (fits : utf16Length (resolve currentPath parts) ≤ Filesystem.kMaxLength) :
    pathResolveCallback currentPath v8 (parts.map .string) =
      .ok (some (.string (resolve currentPath parts))) := by
  unfold pathResolveCallback
  rw [readStringArgs_strings, ← v8String_result v8 clean fits]
  rfl

theorem textCallback_string (v8 : V8) (operation : String) {function : Text → Text} {path : Text}
    (others : List Value) (clean : '\x00' ∉ function path)
    (fits : utf16Length (function path) ≤ Filesystem.kMaxLength) :
    textCallback operation function v8 (.string path :: others) =
      .ok (some (.string (function path))) := by
  rw [← v8String_result v8 clean fits]
  rfl

end Kode.Paths
