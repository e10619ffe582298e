/-
# Reading back what was written

`fs.write` hands the encoded text over with its length, and the file holds every byte
of it. `fs.read` and `fs.readText` get every byte back and then make the JavaScript
string from a C string. What comes out is the text up to its first U+0000.

A text comes back whole exactly when it has no such character. How long its encoding is
does not matter: a string is limited in its UTF-16 code units.
-/

import Kode.Filesystem.Bindings

namespace Kode.Filesystem

open Kode.Library

universe u

variable {σ : Type u} {fs : FileSystem σ} {v8 : V8}

namespace V8

theorem v8String_utf8 (text : List Char) :
    v8.v8String (utf8 text) =
      if utf16Length (text.takeWhile (· ≠ '\x00')) ≤ kMaxLength then
        some (text.takeWhile (· ≠ '\x00'))
      else none := by
  rw [v8String, newFromCString, cString_utf8, v8.decode_utf8]

/-- The texts that `V8String` makes from their own encoding. -/
theorem v8String_utf8_eq_self_iff {text : List Char} (held : utf16Length text ≤ kMaxLength) :
    v8.v8String (utf8 text) = some text ↔ '\x00' ∉ text := by
  rw [v8String_utf8, ← takeWhile_eq_self_iff_null]
  constructor
  · intro same
    exact Option.some.inj (Option.ite_none_right_eq_some.mp same).2
  · intro whole
    rw [whole, if_pos held]

/-- A text with a short encoding reaches JavaScript, up to its first U+0000. -/
theorem v8String_of_short {text : List Char}
    (short : (cString (utf8 text)).length ≤ kMaxLength) :
    v8.v8String (utf8 text) = some (text.takeWhile (· ≠ '\x00')) := by
  rw [v8String_utf8, if_pos]
  rw [cString_utf8] at short
  exact (utf16Length_bounds _).1.trans short

end V8

theorem exists_bytesOf_ite {condition : Prop} [Decidable condition] {first second : Bytes}
    {bound : ℕ} (left : ∃ literal, first = bytesOf literal ∧ (bytesOf literal).length ≤ bound)
    (right : ∃ literal, second = bytesOf literal ∧ (bytesOf literal).length ≤ bound) :
    ∃ literal, (if condition then first else second) = bytesOf literal ∧
      (bytesOf literal).length ≤ bound := by
  split
  · exact left
  · exact right

theorem detectMimeType_eq_bytesOf (path : Bytes) :
    ∃ literal, detectMimeType path = bytesOf literal ∧ (bytesOf literal).length ≤ 24 := by
  unfold detectMimeType
  dsimp only
  -- one type after the other
  repeat refine exists_bytesOf_ite ⟨_, rfl, by decide⟩ ?_
  exact ⟨_, rfl, by decide⟩

/-- The info of a file whose path the system knows always reaches JavaScript. -/
theorem createInfoValue_of_short (fs : FileSystem σ) (v8 : V8) (disk : σ) {path : List Char}
    (short : (cString (utf8 path)).length < 4096) :
    ∃ value, v8.createInfoValue (fs.createFileInfo disk (utf8 path)) = some value := by
  have limit : 4096 ≤ kMaxLength := by decide
  unfold FileSystem.createFileInfo
  cases fs.status disk (cString (utf8 path)) with
  | none => exact ⟨.null, rfl⟩
  | some status =>
      have mime : ∃ literal, (if status.isFile then detectMimeType (utf8 path)
          else bytesOf "inode/directory") = bytesOf literal ∧ (bytesOf literal).length ≤ 24 :=
        exists_bytesOf_ite (detectMimeType_eq_bytesOf (utf8 path)) ⟨_, rfl, by decide⟩
      obtain ⟨literal, named, length⟩ := mime
      have cut : (cString (bytesOf literal)).length ≤ (bytesOf literal).length :=
        (List.takeWhile_prefix _).length_le
      have made : v8.v8String (bytesOf literal) = some (literal.toList.takeWhile (· ≠ '\x00')) :=
        V8.v8String_of_short (by rw [← bytesOf]; omega)
      simp only [V8.createInfoValue, Option.map_some, named, made,
        V8.v8String_of_short (short.le.trans limit), Option.bind_eq_bind, Option.bind_some]
      exact ⟨_, rfl⟩

/-! ## The calls -/

/-- A write that is not refused carries both strings in full. -/
theorem fsWrite_starts {path text : List Char} {options : List Value} {operation : Operation}
    (started : fsWrite v8 (.string path :: .string text :: options) = .starts operation) :
    ∃ createParents, operation = .write (utf8 path) (utf8 text) createParents := by
  unfold fsWrite at started
  dsimp only at started
  split at started
  · cases started
  · exact ⟨false, (Call.starts.inj started).symm⟩
  · split_ifs at started
    split at started
    · cases started
    · exact ⟨_, (Call.starts.inj started).symm⟩

/-- When `fs.write` resolves, the file holds the encoded text. -/
theorem openIn_of_write_resolved (reliable : fs.Reliable) {disk after : σ}
    {path text : List Char} {options : List Value} {value : Value}
    (resolved : fs.perform v8 disk .write (.string path :: .string text :: options) =
      (after, .resolved value)) :
    fs.openIn after (cString (utf8 path)) = some (utf8 text) := by
  unfold FileSystem.perform at resolved
  split at resolved
  · cases resolved
  · cases resolved
  · rename_i operation started
    obtain ⟨createParents, rfl⟩ := fsWrite_starts started
    dsimp only [FileSystem.workCallback] at resolved
    obtain ⟨rfl, completed⟩ := Prod.mk.inj resolved
    cases result : (fs.writeWork disk (utf8 path) (utf8 text) createParents).2 with
    | error message =>
        rw [result] at completed
        simp only [Binding.complete] at completed
        cases made : v8.createKodeError (bytesOf "ENOENT") message (bytesOf "fs.write")
            (Operation.write (utf8 path) (utf8 text) createParents).path <;>
          simp [made, Outcome.ofOption] at completed
    | ok written => exact FileSystem.openIn_of_writeWork reliable (Prod.ext rfl result)

/-- A read that finds its file ends with the content. -/
theorem perform_of_opened {binding : Binding} {args : List Value} {disk : σ} {path content : Bytes}
    (started : binding.call v8 args = .starts (.read path))
    (opened : fs.openIn disk (cString path) = some content) :
    (fs.perform v8 disk binding args).2 = binding.complete v8 path
      (.read (.ok { content, info := fs.createFileInfo disk path })) := by
  have read : fs.readWork disk path = .ok { content, info := fs.createFileInfo disk path } := by
    rw [FileSystem.readWork, opened]
  rw [FileSystem.perform, started]
  exact congrArg (fun result => binding.complete v8 path (.read result)) read

/-- The options of the read. -/
def asText : Value := .object [("as", .string "text".toList)]

theorem perform_readText {disk : σ} {path : List Char} {content : Bytes}
    (opened : fs.openIn disk (cString (utf8 path)) = some content) :
    (fs.perform v8 disk .readText [.string path]).2 =
      .ofOption .resolved ((v8.v8String content).map .string) :=
  perform_of_opened rfl opened

theorem perform_read (v8 : V8) (reliable : fs.Reliable) {disk : σ} {path : List Char}
    {content : Bytes} (opened : fs.openIn disk (cString (utf8 path)) = some content) :
    ∃ info, (fs.perform v8 disk .read [.string path, asText]).2 =
      .ofOption .resolved ((v8.v8String content).map fun text =>
        .object [("text", .string text), ("info", info)]) := by
  obtain ⟨info, shown⟩ := createInfoValue_of_short fs v8 disk (reliable.path_max opened)
  have started : Binding.call v8 .read [.string path, asText] = .starts (.read (utf8 path)) := rfl
  refine ⟨info, ?_⟩
  rw [perform_of_opened started opened, Binding.complete, shown]
  cases v8.v8String content <;> rfl

/-- `fs.write` with two arguments resolves wherever the file can be written. -/
theorem perform_write (v8 : V8) {disk opened after : σ} {path text : List Char}
    (short : (cString (utf8 path)).length < 4096)
    (openedOut : fs.openOut disk (cString (utf8 path)) = some opened)
    (stored : fs.put opened (cString (utf8 path)) (utf8 text) = (after, true)) :
    ∃ value, fs.perform v8 disk .write [.string path, .string text] =
      (after, .resolved value) := by
  obtain ⟨info, shown⟩ := createInfoValue_of_short fs v8 after short
  have written : fs.writeWork disk (utf8 path) (utf8 text) false =
      (after, .ok
        { bytesWritten := (utf8 text).length
          info := fs.createFileInfo after (utf8 path) }) := by
    simp [FileSystem.writeWork, openedOut, stored]
  have started : fsWrite v8 [.string path, .string text] =
      .starts (.write (utf8 path) (utf8 text) false) := rfl
  refine ⟨.object [("bytesWritten", .number (utf8 text).length), ("info", info)], ?_⟩
  rw [FileSystem.perform, Binding.call, started]
  dsimp only [FileSystem.workCallback]
  rw [written, Binding.complete, shown]
  rfl

/-! ## The round trip -/

/-- Whenever `fs.write` resolves and the file stays as it is, `fs.read` and
`fs.readText` resolve with the text written if and only if the text has no U+0000. -/
theorem text_round_trip_iff (reliable : fs.Reliable) (disk after : σ) (path text : List Char)
    (options : List Value) (value : Value) (held : utf16Length text ≤ kMaxLength)
    (resolved : fs.perform v8 disk .write (.string path :: .string text :: options) =
      (after, .resolved value)) :
    (∀ later, fs.openIn later (cString (utf8 path)) = fs.openIn after (cString (utf8 path)) →
      (∃ info, (fs.perform v8 later .read [.string path, asText]).2 =
        .resolved (.object [("text", .string text), ("info", info)])) ∧
      (fs.perform v8 later .readText [.string path]).2 = .resolved (.string text)) ↔
      '\x00' ∉ text := by
  have stored := openIn_of_write_resolved reliable resolved
  rw [← v8.v8String_utf8_eq_self_iff held]
  constructor
  · intro reads
    have text_back := (reads after rfl).2
    rw [perform_readText stored] at text_back
    cases made : v8.v8String (utf8 text) with
    | none => simp [made, Outcome.ofOption] at text_back
    | some back =>
        simp only [made, Option.map_some, Outcome.ofOption, Outcome.resolved.injEq,
          Value.string.injEq] at text_back
        rw [text_back]
  · intro made later same
    have opened := same.trans stored
    obtain ⟨info, read⟩ := perform_read v8 reliable opened
    refine ⟨⟨info, ?_⟩, ?_⟩
    · rw [read, made]
      rfl
    · rw [perform_readText opened, made]
      rfl

/-- A disk that holds its files in memory. -/
def memoryFs : FileSystem (Bytes → Option Bytes) where
  openIn disk path := if path.length < 4096 then disk path else none
  openOut disk path :=
    if path.length < 4096 then some (Function.update disk path (some [])) else none
  put disk path content := (Function.update disk path (some content), true)
  status disk path := (disk path).map fun content =>
    { isFile := true, isDirectory := false, size := content.length, lastModified := 0 }
  createDirectories disk _ := disk

theorem memoryFs_reliable : memoryFs.Reliable where
  reads_back {disk opened after path content} openedOut stored := by
    obtain ⟨short, -⟩ := Option.ite_none_right_eq_some.mp openedOut
    obtain ⟨rfl, -⟩ := Prod.mk.inj stored
    simp [memoryFs, short]
  path_max opened := (Option.ite_none_right_eq_some.mp opened).1

/-- A decoder of valid UTF-8. Anything else becomes one replacement character. -/
def validUtf8 : V8 where
  decode bytes := bytes.toByteArray.utf8Decode?.elim ['\uFFFD'] Array.toList
  decode_utf8 text := by
    have decoded : (utf8 text).toByteArray.utf8Decode? = some text.toArray :=
      List.utf8Decode?_utf8Encode
    rw [decoded]
    rfl

/-- The disk after one file has been written. -/
def diskWith (path text : List Char) : Bytes → Option Bytes :=
  Function.update (Function.update (fun _ => none) (utf8 path) (some [])) (utf8 path)
    (some (utf8 text))

theorem perform_write_memoryFs (text : List Char) :
    ∃ value, memoryFs.perform validUtf8 (fun _ => none) .write
      [.string "a.txt".toList, .string text] = (diskWith "a.txt".toList text, .resolved value) := by
  have path : cString (utf8 "a.txt".toList) = utf8 "a.txt".toList := by decide
  have openedOut : memoryFs.openOut (fun _ => none) (cString (utf8 "a.txt".toList)) =
      some (Function.update (fun _ => none) (utf8 "a.txt".toList) (some [])) := by
    rw [path]
    rfl
  refine perform_write validUtf8 (by decide) openedOut ?_
  rw [path]
  rfl

theorem text_round_trip_iff_umlaut :
    (memoryFs.perform validUtf8 (diskWith "a.txt".toList "Grüße".toList) .readText
      [.string "a.txt".toList]).2 = .resolved (.string "Grüße".toList) := by
  obtain ⟨value, resolved⟩ := perform_write_memoryFs "Grüße".toList
  have reads := (text_round_trip_iff memoryFs_reliable _ _ _ _ _ value (by decide) resolved).mpr
    (by decide)
  exact (reads _ rfl).2

/-- A text with U+0000 in it comes back cut. -/
theorem null_character_cuts_text :
    ¬ ∀ (fs : FileSystem (Bytes → Option Bytes)) (v8 : V8), fs.Reliable →
      ∀ disk after path text value, utf16Length text ≤ kMaxLength →
        fs.perform v8 disk .write [.string path, .string text] = (after, .resolved value) →
          (fs.perform v8 after .readText [.string path]).2 = .resolved (.string text) := by
  intro always
  obtain ⟨value, resolved⟩ := perform_write_memoryFs ['a', '\x00', 'b']
  have whole := always memoryFs validUtf8 memoryFs_reliable _ _ _ _ value (by decide) resolved
  rw [perform_readText (openIn_of_write_resolved memoryFs_reliable resolved),
    V8.v8String_utf8, if_pos (by decide)] at whole
  simp [Outcome.ofOption] at whole

end Kode.Filesystem
