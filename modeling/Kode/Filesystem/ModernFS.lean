/-
# `ModernFS`

The file operations behind `kode:fs`. Each runs on a thread of the pool, uses
streams and `std::filesystem`, and leaves a result for the callback on the main
thread.

The operating system is a parameter: what a stream can open, what a write leaves on
the disk and what a status call reports. The code passes paths on as C strings, so a
path ends at its first zero byte for the system, while the results and messages keep
the whole string.

Left out are the failures of `uv_queue_work`, which only refuses a missing callback,
and of a cancelled request, since nothing cancels one. `encoding` is carried along
and read by nobody.
-/

import Kode.Library.Utf8

namespace Kode.Filesystem

open Kode.Library

universe u

/-- What `std::filesystem` reports about a file that exists. -/
structure FileStatus where
  isFile : Bool
  isDirectory : Bool
  size : ℕ
  lastModified : ℤ
  deriving DecidableEq, Repr

/-- The operating system, over a type of disk states. -/
structure FileSystem (σ : Type u) where
  /-- `std::ifstream`: the content, where the file can be opened. -/
  openIn : σ → Bytes → Option Bytes
  /-- `std::ofstream`: the disk with the file created or emptied, where it can be
  opened. -/
  openOut : σ → Bytes → Option σ
  /-- `file << content; file.close()` and `file.good()`. -/
  put : σ → Bytes → Bytes → σ × Bool
  /-- The status of an existing file; nothing where it does not exist or a call
  throws. -/
  status : σ → Bytes → Option FileStatus
  /-- `std::filesystem::create_directories`, which may do nothing. -/
  createDirectories : σ → Bytes → σ

/-- What the code relies on: a file reads back as what was written to it, and the
system opens no path that is longer than `PATH_MAX`. -/
structure FileSystem.Reliable {σ : Type u} (fs : FileSystem σ) : Prop where
  reads_back : ∀ {disk opened after path content}, fs.openOut disk path = some opened →
    fs.put opened path content = (after, true) → fs.openIn after path = some content
  path_max : ∀ {disk path content}, fs.openIn disk path = some content → path.length < 4096

/-- `ModernFS::FileInfo` of an existing file. -/
structure FileInfo where
  path : Bytes
  size : ℕ
  isFile : Bool
  isDirectory : Bool
  mimeType : Bytes
  lastModified : ℤ
  deriving DecidableEq, Repr

/-- `ModernFS::ReadResult`, where the read succeeded. An info without a path is
`none`. -/
structure ReadResult where
  content : Bytes
  info : Option FileInfo
  deriving DecidableEq, Repr

/-- `ModernFS::WriteResult`, where the write succeeded. -/
structure WriteResult where
  bytesWritten : ℕ
  info : Option FileInfo
  deriving DecidableEq, Repr

/-- `ModernFS::AsyncOperation`. -/
inductive Operation
  | read (path : Bytes)
  | write (path content : Bytes) (createParents : Bool)
  | info (path : Bytes)
  deriving DecidableEq, Repr

/-- The result a finished operation hands to its callback; a failure is its error
text. -/
inductive WorkResult
  | read (result : Except Bytes ReadResult)
  | write (result : Except Bytes WriteResult)
  | info (result : Option FileInfo) (error : Bytes)

/-- `tolower` on an ASCII letter. -/
def lowerByte (byte : UInt8) : UInt8 := if 65 ≤ byte ∧ byte ≤ 90 then byte + 32 else byte

/-- What follows the last dot of a path, or the whole path. -/
def afterLastDot (path : Bytes) : Bytes := (path.reverse.takeWhile (· ≠ 46)).reverse

/-- `ModernFS::detectMimeType`. -/
def detectMimeType (path : Bytes) : Bytes :=
  let ext := (afterLastDot path).map lowerByte
  if ext = bytesOf "js" then bytesOf "application/javascript"
  else if ext = bytesOf "json" then bytesOf "application/json"
  else if ext = bytesOf "html" ∨ ext = bytesOf "htm" then bytesOf "text/html"
  else if ext = bytesOf "css" then bytesOf "text/css"
  else if ext = bytesOf "txt" then bytesOf "text/plain"
  else if ext = bytesOf "md" then bytesOf "text/markdown"
  else if ext = bytesOf "png" then bytesOf "image/png"
  else if ext = bytesOf "jpg" ∨ ext = bytesOf "jpeg" then bytesOf "image/jpeg"
  else if ext = bytesOf "gif" then bytesOf "image/gif"
  else bytesOf "application/octet-stream"

/-- `path::parent_path`. -/
def parentPath (path : Bytes) : Bytes :=
  let parent := ((path.reverse.dropWhile (· ≠ 47)).dropWhile (· = 47)).reverse
  if parent = [] ∧ path.head? = some 47 then [47] else parent

namespace FileSystem

variable {σ : Type u} (fs : FileSystem σ)

/-- `ModernFS::createFileInfo`. -/
def createFileInfo (disk : σ) (path : Bytes) : Option FileInfo :=
  (fs.status disk (cString path)).map fun status =>
    { path
      size := if status.isFile then status.size else 0
      isFile := status.isFile
      isDirectory := status.isDirectory
      mimeType := if status.isFile then detectMimeType path else bytesOf "inode/directory"
      lastModified := status.lastModified }

/-- `ModernFS::ensureDirectoryExists`. -/
def ensureDirectoryExists (disk : σ) (path : Bytes) : σ :=
  let directory := parentPath path
  if directory ≠ [] ∧ fs.status disk (cString directory) = none then
    fs.createDirectories disk (cString directory)
  else disk

/-- `workCallback` of a read. -/
def readWork (disk : σ) (path : Bytes) : Except Bytes ReadResult :=
  match fs.openIn disk (cString path) with
  | none => .error (bytesOf "Cannot open file: " ++ path)
  | some content => .ok { content, info := fs.createFileInfo disk path }

/-- `workCallback` of a write. -/
def writeWork (disk : σ) (path content : Bytes) (createParents : Bool) :
    σ × Except Bytes WriteResult :=
  let prepared := if createParents then fs.ensureDirectoryExists disk path else disk
  match fs.openOut prepared (cString path) with
  | none => (prepared, .error (bytesOf "Cannot create file: " ++ path))
  | some opened =>
      match fs.put opened (cString path) content with
      | (after, true) =>
          (after, .ok
            { bytesWritten := content.length, info := fs.createFileInfo after path })
      | (after, false) => (after, .error (bytesOf "Failed to write to file: " ++ path))

/-- `ModernFS::workCallback`. -/
def workCallback (disk : σ) : Operation → σ × WorkResult
  | .read path => (disk, .read (fs.readWork disk path))
  | .write path content createParents =>
      let written := fs.writeWork disk path content createParents
      (written.1, .write written.2)
  | .info path =>
      match fs.createFileInfo disk path with
      | none => (disk, .info none (bytesOf "File not found: " ++ path))
      | some info => (disk, .info (some info) [])

variable {fs}

/-- After a successful write the file reads back as the content written. -/
theorem openIn_of_writeWork (reliable : fs.Reliable) {disk after : σ} {path content : Bytes}
    {createParents : Bool} {result : WriteResult}
    (written : fs.writeWork disk path content createParents = (after, .ok result)) :
    fs.openIn after (cString path) = some content := by
  unfold writeWork at written
  dsimp only at written
  split at written
  · cases written
  · rename_i opened openedOut
    split at written
    · rename_i final stored
      obtain ⟨rfl, -⟩ := Prod.mk.inj written
      exact reliable.reads_back openedOut stored
    · cases written

end FileSystem

end Kode.Filesystem
