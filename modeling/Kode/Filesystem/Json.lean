/-
# The info of a file as JSON

`FileInfo::toJSON` writes the fields of an info between braces, with the path and the MIME
type between quotes as they are. JSON reserves the quote, the backslash and the control
characters there, and a path may contain each of them. The text then is no JSON, or it is
the JSON of something else.
-/

import Kode.Filesystem.ModernFS
import Kode.Library.Json

namespace Kode.Filesystem

open Kode.Library

/-- `ModernFS::FileInfo::toJSON`. -/
def FileInfo.toJSON (info : FileInfo) : Bytes :=
  bytesOf "\x7b" ++
    bytesOf "\"path\":\"" ++ info.path ++ bytesOf "\"," ++
    bytesOf "\"size\":" ++ bytesOf (toString info.size) ++ bytesOf "," ++
    bytesOf "\"isFile\":" ++ bytesOf (if info.isFile then "true" else "false") ++ bytesOf "," ++
    bytesOf "\"isDirectory\":" ++ bytesOf (if info.isDirectory then "true" else "false") ++
    bytesOf "," ++
    bytesOf "\"mimeType\":\"" ++ info.mimeType ++ bytesOf "\"," ++
    bytesOf "\"lastModified\":" ++ bytesOf (toString info.lastModified) ++
    bytesOf "\x7d"

/-- The value that an info should be written as. -/
def jsonValue (path mimeType : List Char) (size : ℕ) (isFile isDirectory : Bool)
    (lastModified : ℤ) : Json :=
  .object [("path".toList, .string path), ("size".toList, .number size),
    ("isFile".toList, .bool isFile), ("isDirectory".toList, .bool isDirectory),
    ("mimeType".toList, .string mimeType), ("lastModified".toList, .number lastModified)]

section

variable (path mimeType : List Char) (size : ℕ) (isFile isDirectory : Bool) (lastModified : ℤ)

/-- The text whose encoding is written for a path and a MIME type that are texts. -/
def jsonText : List Char :=
  "\x7b".toList ++
    "\"path\":\"".toList ++ path ++ "\",".toList ++
    "\"size\":".toList ++ (toString size).toList ++ ",".toList ++
    "\"isFile\":".toList ++ (if isFile then "true" else "false").toList ++ ",".toList ++
    "\"isDirectory\":".toList ++ (if isDirectory then "true" else "false").toList ++
    ",".toList ++
    "\"mimeType\":\"".toList ++ mimeType ++ "\",".toList ++
    "\"lastModified\":".toList ++ (toString lastModified).toList ++
    "\x7d".toList

theorem utf8_jsonText :
    utf8 (jsonText path mimeType size isFile isDirectory lastModified) =
      FileInfo.toJSON ⟨utf8 path, size, isFile, isDirectory, utf8 mimeType, lastModified⟩ := by
  unfold jsonText FileInfo.toJSON bytesOf
  dsimp only
  repeat rw [utf8_append]

/-- The last member. -/
def lastMember : List Char :=
  '"' :: ("lastModified".toList ++ '"' :: ':' :: ((toString lastModified).toList ++ ['\x7d']))

/-- The members behind the path. -/
def laterMembers : List Char :=
  '"' :: ("size".toList ++ '"' :: ':' :: ((toString size).toList ++ ',' ::
    '"' :: ("isFile".toList ++ '"' :: ':' ::
      ((if isFile then "true" else "false").toList ++ ',' ::
    '"' :: ("isDirectory".toList ++ '"' :: ':' ::
      ((if isDirectory then "true" else "false").toList ++ ',' ::
    '"' :: ("mimeType".toList ++ '"' :: ':' ::
      '"' :: (mimeType ++ '"' :: ',' :: lastMember lastModified))))))))

theorem jsonText_eq :
    jsonText path mimeType size isFile isDirectory lastModified =
      '\x7b' :: '"' :: ("path".toList ++ '"' :: ':' :: '"' :: (path ++ '"' :: ',' ::
        laterMembers mimeType size isFile isDirectory lastModified)) := by
  unfold jsonText laterMembers lastMember
  have path : "\"path\":\"".toList = '"' :: ("path".toList ++ ['"', ':', '"']) := rfl
  have size : "\"size\":".toList = '"' :: ("size".toList ++ ['"', ':']) := rfl
  have isFile : "\"isFile\":".toList = '"' :: ("isFile".toList ++ ['"', ':']) := rfl
  have isDirectory : "\"isDirectory\":".toList =
    '"' :: ("isDirectory".toList ++ ['"', ':']) := rfl
  have mimeType : "\"mimeType\":\"".toList =
    '"' :: ("mimeType".toList ++ ['"', ':', '"']) := rfl
  have lastModified : "\"lastModified\":".toList =
    '"' :: ("lastModified".toList ++ ['"', ':']) := rfl
  have open' : "\x7b".toList = ['\x7b'] := rfl
  have end' : "\",".toList = ['"', ','] := rfl
  have comma : ",".toList = [','] := rfl
  have close : "\x7d".toList = ['\x7d'] := rfl
  rw [path, size, isFile, isDirectory, mimeType, lastModified, open', end', comma, close]
  simp only [List.append_assoc, List.cons_append, List.nil_append]

theorem readMembers_lastMember (fuel : ℕ) :
    Json.readMembers (fuel + 2) (lastMember lastModified) =
      some ([("lastModified".toList, .number lastModified)], []) := by
  have ends : Json.NumberEnd ['\x7d'] := Json.numberEnd_cons rfl (by decide) []
  rw [lastMember, Json.readMembers_member _ (by decide), Json.readValue_int _ _ ends,
    Option.bind_some]
  exact Json.separated_close _ _ []

/-- The members behind the path are read up to the MIME type. -/
theorem readMembers_laterMembers (fuel : ℕ) :
    Json.readMembers (fuel + 6) (laterMembers mimeType size isFile isDirectory lastModified) =
      ((Json.readString (mimeType ++ '"' :: ',' :: lastMember lastModified)).bind
        fun read => Json.separated '\x7d' (Json.readMembers (fuel + 2))
          ("mimeType".toList, .string read.1) read.2).map
        fun read => (("size".toList, .number size) :: ("isFile".toList, .bool isFile) ::
          ("isDirectory".toList, .bool isDirectory) :: read.1, read.2) := by
  have ends : ∀ rest, Json.NumberEnd (',' :: rest) := Json.numberEnd_cons rfl (by decide)
  have number : (toString size).toList = (toString (size : ℤ)).toList := rfl
  rw [laterMembers, Json.readMembers_member _ (by decide), number,
    Json.readValue_int _ _ (ends _)]
  simp only [Option.bind_some, Json.separated_comma]
  rw [Json.readMembers_member _ (by decide), Json.readValue_bool]
  simp only [Option.bind_some, Json.separated_comma]
  rw [Json.readMembers_member _ (by decide), Json.readValue_bool]
  simp only [Option.bind_some, Json.separated_comma]
  rw [Json.readMembers_member _ (by decide), Json.readValue_string]
  simp only [Option.map_map, Option.bind_map]
  rfl

/-- The text is read as the object of the fields exactly when both strings are clean. -/
theorem parse_jsonText_iff :
    Json.parse (jsonText path mimeType size isFile isDirectory lastModified) =
        some (jsonValue path mimeType size isFile isDirectory lastModified) ↔
      Json.Clean path ∧ Json.Clean mimeType := by
  obtain ⟨fuel, long⟩ : ∃ fuel,
      (jsonText path mimeType size isFile isDirectory lastModified).length = fuel + 7 := by
    refine ⟨_ - 7, (Nat.sub_add_cancel ?_).symm⟩
    rw [jsonText_eq]
    simp only [List.length_cons, List.length_append, show "path".toList.length = 4 from rfl]
    omega
  constructor
  · intro parsed
    obtain ⟨rest, read⟩ := Json.readValue_of_parse parsed
    rw [long, jsonText_eq, Json.readValue_object] at read
    obtain ⟨⟨members, _⟩, read, same⟩ := Option.map_eq_some_iff.mp read
    obtain rfl := Json.object.inj (Prod.mk.inj same).1
    rw [Json.readMembers_member _ (by decide), Json.readValue_string, Option.bind_map] at read
    obtain ⟨⟨text, later⟩, readPath, read⟩ := Option.bind_eq_some_iff.mp read
    obtain rfl : path = text := by simpa using Json.head?_of_separated read
    obtain ⟨cleanPath, rfl⟩ := Json.readString_eq_self_iff.mp readPath
    refine ⟨cleanPath, ?_⟩
    simp only [Function.comp_apply, Json.separated_comma] at read
    obtain ⟨⟨others, _⟩, read, same⟩ := Option.map_eq_some_iff.mp read
    obtain rfl := (List.cons.inj (Prod.mk.inj same).1).2
    rw [readMembers_laterMembers] at read
    obtain ⟨⟨others, _⟩, read, same⟩ := Option.map_eq_some_iff.mp read
    obtain ⟨⟨text, later⟩, readType, read⟩ := Option.bind_eq_some_iff.mp read
    simp only [Prod.mk.injEq, List.cons.injEq, true_and] at same
    obtain ⟨rfl, -⟩ := same
    obtain rfl : mimeType = text := by simpa using Json.head?_of_separated read
    exact (Json.readString_eq_self_iff.mp readType).1
  · rintro ⟨cleanPath, cleanType⟩
    rw [Json.parse, long, jsonText_eq, Json.readValue_object,
      Json.readMembers_member _ (by decide), Json.readValue_string,
      Json.readString_clean cleanPath]
    simp only [Option.map_some, Option.bind_some, Json.separated_comma]
    rw [readMembers_laterMembers, Json.readString_clean cleanType]
    simp only [Option.bind_some, Json.separated_comma]
    rw [readMembers_lastMember]
    rfl

/-- `toJSON` is JSON of exactly the fields of the info if and only if neither string has a
quote, a backslash or a control character. -/
theorem toJSON_decodes_iff :
    (∃ text, utf8 text =
        FileInfo.toJSON ⟨utf8 path, size, isFile, isDirectory, utf8 mimeType, lastModified⟩ ∧
      Json.parse text = some (jsonValue path mimeType size isFile isDirectory lastModified)) ↔
      Json.Clean path ∧ Json.Clean mimeType := by
  rw [← parse_jsonText_iff path mimeType size isFile isDirectory lastModified,
    ← utf8_jsonText]
  constructor
  · rintro ⟨text, same, parsed⟩
    rw [utf8_injective same] at parsed
    exact parsed
  · intro parsed
    exact ⟨_, rfl, parsed⟩

end

/-- A quote in a file name breaks the text. -/
theorem quoted_path_breaks_json :
    ¬ ∀ (path mimeType : List Char) (size : ℕ) (isFile isDirectory : Bool) (lastModified : ℤ),
      ∃ text, utf8 text =
          FileInfo.toJSON ⟨utf8 path, size, isFile, isDirectory, utf8 mimeType, lastModified⟩ ∧
        Json.parse text = some (jsonValue path mimeType size isFile isDirectory lastModified) := by
  intro decodes
  obtain ⟨text, same, parsed⟩ := decodes "a\"b".toList "text/plain".toList 3 true false 0
  rw [← utf8_jsonText] at same
  rw [utf8_injective same] at parsed
  have clean := ((parse_jsonText_iff _ _ _ _ _ _).mp parsed).1
  exact absurd clean (by decide)

end Kode.Filesystem
