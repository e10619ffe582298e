/-
# POSIX paths

The parts of `std::filesystem::path` on a POSIX system that act on the text of a
path alone: joining, lexical normal form, parent, file name and extension. A path
is the list of its characters; the separator is `/` and every other character is
part of a name.

Nothing here looks at a file system.
-/

import Mathlib.Data.List.Basic

namespace Kode.Library.PosixPath

/-- The text of a path. -/
abbrev Text := List Char

/-- `path::is_absolute`. -/
def isAbsolute (path : Text) : Bool := path.head? == some '/'

/-- `operator/`: an absolute right side replaces the left one, and a separator is
added where the left side ends in a name. -/
def append (left right : Text) : Text :=
  if isAbsolute right then right
  else if left = [] ∨ left.getLast? = some '/' then left ++ right
  else left ++ '/' :: right

/-- `std::filesystem::absolute` in a given current directory. -/
def absolute (currentDirectory path : Text) : Text :=
  if isAbsolute path then path else append currentDirectory path

/-- A path under normalization: its names, last one first, and whether a separator
follows the last name. -/
structure Normal where
  names : List Text
  trailing : Bool
  deriving DecidableEq, Repr

/-- Take up the next component. An empty component comes from two separators in a
row or from one at the end and acts like `.`. -/
def Normal.push (rooted : Bool) (normal : Normal) (component : Text) : Normal :=
  if component = ['.', '.'] then
    match normal.names with
    | [] => if rooted then ⟨[], false⟩ else ⟨[component], false⟩
    | last :: earlier =>
        if last = ['.', '.'] then ⟨component :: last :: earlier, false⟩
        else ⟨earlier, !earlier.isEmpty⟩
  else if component = ['.'] ∨ component = [] then ⟨normal.names, !normal.names.isEmpty⟩
  else ⟨component :: normal.names, false⟩

/-- The text of a normalized path. A `..` at the end takes no separator, and an
empty relative path is a dot. -/
def Normal.render (rooted : Bool) (normal : Normal) : Text :=
  let root := if rooted then ['/'] else []
  match normal.names with
  | [] => if rooted then root else ['.']
  | last :: earlier =>
      root ++ ['/'].intercalate (last :: earlier).reverse ++
        if normal.trailing ∧ last ≠ ['.', '.'] then ['/'] else []

/-- `path::lexically_normal`. -/
def lexicallyNormal (path : Text) : Text :=
  if path = [] then []
  else
    ((path.splitOn '/').foldl (Normal.push (isAbsolute path)) ⟨[], false⟩).render
      (isAbsolute path)

/-- `path::filename`: what follows the last separator. -/
def filename (path : Text) : Text := (path.reverse.takeWhile (· ≠ '/')).reverse

/-- `path::parent_path`: the path without its last element and the separators
before it. A path of separators only is its own parent. -/
def parentPath (path : Text) : Text :=
  let directory := (path.reverse.dropWhile (· ≠ '/')).dropWhile (· = '/')
  if path.all (· = '/') then path
  else if directory = [] ∧ isAbsolute path then ['/']
  else directory.reverse

/-- `path::extension`: the file name from its last dot on. A dot at its start does
not begin an extension. -/
def extension (path : Text) : Text :=
  let name := filename path
  let suffix := name.reverse.takeWhile (· ≠ '.')
  if name = ['.', '.'] ∨ name.length ≤ suffix.length + 1 then []
  else '.' :: suffix.reverse

/-- `path::generic_string`: one separator between two elements. -/
def genericString : Text → Text
  | '/' :: '/' :: rest => genericString ('/' :: rest)
  | char :: rest => char :: genericString rest
  | [] => []

example : lexicallyNormal "/a//b/./../c.js".toList = "/a/c.js".toList := by decide

example : lexicallyNormal "../x/../..".toList = "../..".toList := by decide

example : parentPath "/a/c.js".toList = "/a".toList ∧ parentPath "/c.js".toList = "/".toList ∧
    extension "/a/c.min.js".toList = ".js".toList ∧ extension "/a/.js".toList = [] := by decide

end Kode.Library.PosixPath
