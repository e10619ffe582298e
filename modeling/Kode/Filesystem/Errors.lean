/-
# The causes of errors

The error model of `kode:fs` knows `ENOENT` for a missing path and `EIO` for any other
failure of the host. Here the operating system answers each call with a result, with "not
found" or with another failure, and the promise of a call is compared with that answer.

The streams and the catch-all handlers below the bindings keep only whether a call
worked. What is left of the cause is the answer that the author of a branch expected:
`ENOENT` for each read and write, null for each `info`. A stream that breaks off while a
file is read is not noticed at all; a directory reads as an empty text.
-/

import Kode.Filesystem.RoundTrip

namespace Kode.Filesystem

open Kode.Library

universe u

/-- How the operating system answers a call. -/
inductive Answer (α : Type u)
  | ok (result : α)
  | notFound
  /-- No permission, an I/O error, a directory in the place of a file. -/
  | failed

/-- The result of a call that worked. -/
def Answer.result? {α : Type u} : Answer α → Option α
  | .ok result => some result
  | .notFound | .failed => none

/-- What a stream delivers of a file, and whether that is all of it. -/
structure Content where
  bytes : Bytes
  complete : Bool

/-- An operating system that gives a reason for each failure. -/
structure Oracle (σ : Type u) where
  openRead : σ → Bytes → Answer Content
  openWrite : σ → Bytes → Answer σ
  write : σ → Bytes → Bytes → σ × Bool
  stat : σ → Bytes → Answer FileStatus
  createDirectories : σ → Bytes → σ
  /-- A path of `PATH_MAX` bytes is too long, which is not the same as missing. -/
  path_max : ∀ disk {path : Bytes}, 4096 ≤ path.length →
    openRead disk path = .failed ∧ openWrite disk path = .failed ∧ stat disk path = .failed
  /-- The empty path names nothing. -/
  stat_nil : ∀ disk, stat disk [] = .notFound

/-- What `ModernFS` sees of it. Where `exists` throws, no directory is created. -/
def Oracle.fileSystem {σ : Type u} (oracle : Oracle σ) : FileSystem σ where
  openIn disk path := (oracle.openRead disk path).result?.map Content.bytes
  openOut disk path := (oracle.openWrite disk path).result?
  put := oracle.write
  status disk path := (oracle.stat disk path).result?
  createDirectories disk path :=
    match oracle.stat disk path with
    | .failed => disk
    | _ => oracle.createDirectories disk path

/-! ## The error model -/

/-- A promise is rejected with a code. -/
def Outcome.RejectedWith (outcome : Outcome) (code : String) : Prop :=
  ∃ properties, outcome = .rejected (.object properties) ∧
    Value.get properties "code" = .string code.toList

/-- A promise is resolved with the info of a file. -/
def Outcome.ResolvedInfo (v8 : V8) (outcome : Outcome) (path : Bytes) (status : FileStatus) :
    Prop :=
  ∃ properties, outcome = .resolved (.object properties) ∧
    Value.get properties "path" = .string (v8.decode (cString path)) ∧
    Value.get properties "kind" = .string
      (if status.isFile then "file" else if status.isDirectory then "directory"
        else "other").toList ∧
    Value.get properties "size" = .number ((if status.isFile then status.size else 0 : ℕ) : ℤ) ∧
    Value.get properties "lastModified" = .number status.lastModified

namespace Oracle

variable {σ : Type u} (oracle : Oracle σ)

/-- The disk on which a write opens its file. -/
def prepared (disk : σ) (path : Bytes) (createParents : Bool) : σ :=
  if createParents then oracle.fileSystem.ensureDirectoryExists disk path else disk

/-- The outcome of an operation names what went wrong. -/
def NamesCause (v8 : V8) (disk : σ) (operation : Operation) (outcome : Outcome) : Prop :=
  match operation with
  | .read path =>
      (outcome.RejectedWith "ENOENT" ↔ oracle.openRead disk (cString path) = .notFound) ∧
      (oracle.openRead disk (cString path) = .failed → outcome.RejectedWith "EIO") ∧
      (∀ content, oracle.openRead disk (cString path) = .ok content → content.complete = false →
        outcome.RejectedWith "EIO") ∧
      ∀ value, outcome = .resolved value →
        ∃ content, oracle.openRead disk (cString path) = .ok content ∧ content.complete = true
  | .write path content createParents =>
      let disk := oracle.prepared disk path createParents
      (outcome.RejectedWith "ENOENT" ↔ oracle.openWrite disk (cString path) = .notFound) ∧
      (oracle.openWrite disk (cString path) = .failed → outcome.RejectedWith "EIO") ∧
      ∀ opened, oracle.openWrite disk (cString path) = .ok opened →
        (oracle.write opened (cString path) content).2 = false → outcome.RejectedWith "EIO"
  | .info path =>
      (outcome = .resolved .null ↔ oracle.stat disk (cString path) = .notFound) ∧
      (∀ status, oracle.stat disk (cString path) = .ok status →
        outcome.ResolvedInfo v8 path status) ∧
      (oracle.stat disk (cString path) = .failed → outcome.RejectedWith "EIO")

/-- Nothing goes wrong in an operation but a missing path. -/
def Explained (disk : σ) : Operation → Prop
  | .read path =>
      match oracle.openRead disk (cString path) with
      | .ok content => content.complete = true
      | .notFound => True
      | .failed => False
  | .write path content createParents =>
      match oracle.openWrite (oracle.prepared disk path createParents) (cString path) with
      | .ok opened => (oracle.write opened (cString path) content).2 = true
      | .notFound => True
      | .failed => False
  | .info path =>
      match oracle.stat disk (cString path) with
      | .ok _ | .notFound => True
      | .failed => False

end Oracle

/-! ## Settlements -/

theorem length_cString_append_le (front back : Bytes) :
    (cString (front ++ back)).length ≤ front.length + (cString back).length := by
  induction front with
  | nil => exact (Nat.zero_add _).ge
  | cons byte front ih =>
      rw [List.cons_append, cString, List.takeWhile_cons, List.length_cons]
      split
      · rw [List.length_cons]
        exact (Nat.succ_le_succ ih).trans (by omega)
      · exact Nat.zero_le _

theorem not_rejectedWith_resolved (value : Option Value) (code : String) :
    ¬ (Outcome.ofOption .resolved value).RejectedWith code := by
  rintro ⟨properties, rejected, -⟩
  cases value <;> cases rejected

theorem rejected_ne_resolved (value : Option Value) (result : Value) :
    Outcome.ofOption .rejected value ≠ .resolved result := by
  intro resolved
  cases value <;> cases resolved

section

variable {v8 : V8} {message operation path : Bytes}

/-- An error carries the code it was made with. -/
theorem code_of_createKodeError {code : Bytes} {value : Value}
    (made : v8.createKodeError code message operation path = some value) :
    ∃ properties, value = .object properties ∧
      Value.get properties "code" = .string (v8.decode (cString code)) := by
  simp only [V8.createKodeError, Option.bind_eq_bind, Option.bind_eq_some_iff,
    Option.some.injEq] at made
  obtain ⟨messageText, -, codeText, coded, operationText, -, pathText, -, rfl⟩ := made
  obtain ⟨-, decoded⟩ := Option.ite_none_right_eq_some.mp coded
  rw [← Option.some.inj decoded]
  exact ⟨_, rfl, rfl⟩

theorem decode_enoent (v8 : V8) : v8.decode (cString (bytesOf "ENOENT")) = "ENOENT".toList := by
  have whole : cString (bytesOf "ENOENT") = utf8 "ENOENT".toList := by decide
  rw [whole, v8.decode_utf8]

theorem rejectedWith_enoent {code : String}
    (rejected : (Outcome.ofOption .rejected
      (v8.createKodeError (bytesOf "ENOENT") message operation path)).RejectedWith code) :
    code.toList = "ENOENT".toList := by
  obtain ⟨properties, settled, coded⟩ := rejected
  cases made : v8.createKodeError (bytesOf "ENOENT") message operation path with
  | none =>
      rw [made] at settled
      cases settled
  | some value =>
      rw [made] at settled
      obtain ⟨own, rfl, named⟩ := code_of_createKodeError made
      obtain rfl : own = properties := Value.object.inj (Outcome.rejected.inj settled)
      rw [named, decode_enoent] at coded
      exact (Value.string.inj coded).symm

theorem not_rejectedWith_eio :
    ¬ (Outcome.ofOption .rejected
      (v8.createKodeError (bytesOf "ENOENT") message operation path)).RejectedWith "EIO" := by
  intro rejected
  exact absurd (rejectedWith_enoent rejected) (by decide)

/-- An error about a path that the system knows reaches JavaScript. -/
theorem rejectedWith_of_short {front operation : String} {path : List Char}
    (text : (bytesOf front).length ≤ 64) (named : (bytesOf operation).length ≤ 64)
    (short : (cString (utf8 path)).length < 4096) :
    (Outcome.ofOption .rejected (v8.createKodeError (bytesOf "ENOENT")
      (bytesOf front ++ utf8 path) (bytesOf operation) (utf8 path))).RejectedWith "ENOENT" := by
  have limit : 8192 ≤ kMaxLength := by decide
  have cut (bytes : Bytes) : (cString bytes).length ≤ bytes.length :=
    (List.takeWhile_prefix _).length_le
  have made {text : List Char} (fits : (cString (utf8 text)).length ≤ 8192) :
      v8.v8String (utf8 text) = some (text.takeWhile (· ≠ '\x00')) :=
    V8.v8String_of_short (fits.trans limit)
  have messageFits : (cString (utf8 (front.toList ++ path))).length ≤ 8192 := by
    have longer := length_cString_append_le (bytesOf front) (utf8 path)
    rw [utf8_append, ← bytesOf]
    omega
  have operationFits : (cString (utf8 operation.toList)).length ≤ 8192 := by
    have shorter := cut (bytesOf operation)
    rw [← bytesOf]
    omega
  have codeFits : (cString (utf8 "ENOENT".toList)).length ≤ 8192 := by decide
  have message : bytesOf front ++ utf8 path = utf8 (front.toList ++ path) :=
    (utf8_append _ _).symm
  rw [message]
  simp only [V8.createKodeError, bytesOf, made messageFits, made codeFits, made operationFits,
    made (short.le.trans (by decide)), Option.bind_eq_bind, Option.bind_some]
  refine ⟨_, rfl, ?_⟩
  rfl

end

/-! ## The operations -/

section

variable {v8 : V8} {args : List Value} {operation : Operation}

theorem fsRead_starts (started : fsRead v8 args = .starts operation) :
    ∃ path, operation = .read (utf8 path) := by
  unfold fsRead at started
  split at started
  · cases started
  · rename_i path _
    split at started
    · cases started
    · exact ⟨path, (Call.starts.inj started).symm⟩
    · split_ifs at started
      split at started
      · cases started
      · exact ⟨path, (Call.starts.inj started).symm⟩

theorem fsReadText_starts (started : fsReadText args = .starts operation) :
    ∃ path, operation = .read (utf8 path) := by
  unfold fsReadText at started
  split at started
  · cases started
  · rename_i path _
    exact ⟨path, (Call.starts.inj started).symm⟩

theorem fsInfo_starts (started : fsInfo args = .starts operation) :
    ∃ path, operation = .info (utf8 path) := by
  unfold fsInfo at started
  split at started
  · cases started
  · rename_i path _
    exact ⟨path, (Call.starts.inj started).symm⟩

theorem fsWrite_starts_write (started : fsWrite v8 args = .starts operation) :
    ∃ path content createParents, operation = .write (utf8 path) content createParents := by
  have call := started
  unfold fsWrite at call
  split at call
  · obtain ⟨createParents, same⟩ := fsWrite_starts started
    exact ⟨_, _, createParents, same⟩
  · cases call

end

namespace Oracle

variable {σ : Type u} {oracle : Oracle σ} {v8 : V8} {disk : σ} {binding : Binding} {path : Bytes}

theorem short_of_openRead {answer : Answer Content} (known : oracle.openRead disk path = answer)
    (told : answer ≠ .failed) : path.length < 4096 := by
  by_contra long
  exact told (known.symm.trans (oracle.path_max disk (Nat.le_of_not_lt long)).1)

theorem short_of_openWrite {answer : Answer σ} (known : oracle.openWrite disk path = answer)
    (told : answer ≠ .failed) : path.length < 4096 := by
  by_contra long
  exact told (known.symm.trans (oracle.path_max disk (Nat.le_of_not_lt long)).2.1)

theorem short_of_stat {answer : Answer FileStatus} (known : oracle.stat disk path = answer)
    (told : answer ≠ .failed) : path.length < 4096 := by
  by_contra long
  exact told (known.symm.trans (oracle.path_max disk (Nat.le_of_not_lt long)).2.2)

/-- The two bindings that read reject with the same code and differ in the name of the
operation. -/
theorem complete_read_error (v8 : V8) (path error : Bytes)
    (reads : binding = .read ∨ binding = .readText) :
    ∃ name, (bytesOf name).length ≤ 64 ∧ binding.complete v8 path (.read (.error error)) =
      .ofOption .rejected (v8.createKodeError (bytesOf "ENOENT") error (bytesOf name) path) := by
  rcases reads with rfl | rfl
  · exact ⟨"fs.read", by decide, rfl⟩
  · exact ⟨"fs.readText", by decide, rfl⟩

theorem complete_read_ok (v8 : V8) (path : Bytes) (result : ReadResult)
    (reads : binding = .read ∨ binding = .readText) :
    ∃ value, binding.complete v8 path (.read (.ok result)) = .ofOption .resolved value := by
  rcases reads with rfl | rfl <;> exact ⟨_, rfl⟩

theorem readWork_of_ok {content : Content}
    (answer : oracle.openRead disk (cString path) = .ok content) :
    oracle.fileSystem.readWork disk path =
      .ok { content := content.bytes, info := oracle.fileSystem.createFileInfo disk path } := by
  simp only [FileSystem.readWork, fileSystem, answer, Answer.result?, Option.map_some]

theorem readWork_of_none (answer : (oracle.openRead disk (cString path)).result? = none) :
    oracle.fileSystem.readWork disk path = .error (bytesOf "Cannot open file: " ++ path) := by
  simp only [FileSystem.readWork, fileSystem, answer, Option.map_none]

/-- A read names its cause exactly when it reads all of the file or finds none. -/
theorem read_namesCause_iff {path : List Char} (reads : binding = .read ∨ binding = .readText) :
    oracle.NamesCause v8 disk (.read (utf8 path)) (binding.complete v8 (utf8 path)
        (.read (oracle.fileSystem.readWork disk (utf8 path)))) ↔
      oracle.Explained disk (.read (utf8 path)) := by
  have refused := complete_read_error v8 (utf8 path) (bytesOf "Cannot open file: " ++ utf8 path)
    reads
  obtain ⟨name, named, settled⟩ := refused
  cases answer : oracle.openRead disk (cString (utf8 path)) with
  | ok content =>
      have resolves := complete_read_ok v8 (utf8 path)
        { content := content.bytes
          info := oracle.fileSystem.createFileInfo disk (utf8 path) } reads
      obtain ⟨value, resolved⟩ := resolves
      rw [readWork_of_ok answer, resolved]
      simp only [NamesCause, Explained, answer, Answer.ok.injEq]
      constructor
      · rintro ⟨-, -, broken, -⟩
        by_contra partly
        have eio := broken content rfl (Bool.eq_false_iff.mpr partly)
        exact not_rejectedWith_resolved value "EIO" eio
      · intro complete
        refine ⟨iff_of_false (not_rejectedWith_resolved value "ENOENT") nofun, nofun, ?_, ?_⟩
        · rintro _ rfl partly
          rw [complete] at partly
          cases partly
        · exact fun _ _ => ⟨content, rfl, complete⟩
  | notFound =>
      have short := short_of_openRead answer nofun
      have front : (bytesOf "Cannot open file: ").length ≤ 64 := by decide
      rw [readWork_of_none (by rw [answer]; rfl), settled]
      simp only [NamesCause, Explained, answer]
      refine iff_of_true ⟨iff_of_true (rejectedWith_of_short front named short) trivial, nofun,
        nofun, ?_⟩ trivial
      intro value resolved
      exact absurd resolved (rejected_ne_resolved _ value)
  | failed =>
      rw [readWork_of_none (by rw [answer]; rfl), settled]
      simp only [NamesCause, Explained, answer, iff_false]
      rintro ⟨-, eio, -⟩
      exact not_rejectedWith_eio (eio trivial)

/-! ### Writing -/

variable {content : Bytes} {createParents : Bool}

theorem writeWork_of_none
    (answer : (oracle.openWrite (oracle.prepared disk path createParents)
      (cString path)).result? = none) :
    (oracle.fileSystem.writeWork disk path content createParents).2 =
      .error (bytesOf "Cannot create file: " ++ path) := by
  have refused : oracle.fileSystem.openOut (oracle.prepared disk path createParents)
      (cString path) = none := answer
  rw [prepared] at refused
  simp only [FileSystem.writeWork, refused]

theorem writeWork_of_ok {opened : σ}
    (answer : oracle.openWrite (oracle.prepared disk path createParents) (cString path) =
      .ok opened) :
    (oracle.fileSystem.writeWork disk path content createParents).2 =
      if (oracle.write opened (cString path) content).2 then
        .ok
          { bytesWritten := content.length
            info := oracle.fileSystem.createFileInfo
              (oracle.write opened (cString path) content).1 path }
      else .error (bytesOf "Failed to write to file: " ++ path) := by
  have created : oracle.fileSystem.openOut (oracle.prepared disk path createParents)
      (cString path) = some opened := congrArg Answer.result? answer
  rw [prepared] at created
  have put : oracle.fileSystem.put = oracle.write := rfl
  simp only [FileSystem.writeWork, created, put]
  rcases oracle.write opened (cString path) content with ⟨after, good⟩
  cases good <;> rfl

/-- A write names its cause exactly when it stores everything or finds no directory. -/
theorem write_namesCause_iff {path : List Char} :
    oracle.NamesCause v8 disk (.write (utf8 path) content createParents)
        (Binding.complete v8 (utf8 path) .write
          (.write (oracle.fileSystem.writeWork disk (utf8 path) content createParents).2)) ↔
      oracle.Explained disk (.write (utf8 path) content createParents) := by
  have name : (bytesOf "fs.write").length ≤ 64 := by decide
  cases answer : oracle.openWrite (oracle.prepared disk (utf8 path) createParents)
      (cString (utf8 path)) with
  | ok opened =>
      rw [writeWork_of_ok answer]
      simp only [NamesCause, Explained, answer, Answer.ok.injEq]
      cases good : (oracle.write opened (cString (utf8 path)) content).2 with
      | false =>
          simp only [Bool.false_eq_true, if_false, iff_false]
          rintro ⟨-, -, broken⟩
          exact not_rejectedWith_eio (broken opened rfl good)
      | true =>
          refine iff_of_true ⟨iff_of_false (not_rejectedWith_resolved _ "ENOENT") nofun, nofun,
            ?_⟩ rfl
          rintro _ rfl bad
          rw [good] at bad
          cases bad
  | notFound =>
      have short := short_of_openWrite answer nofun
      have front : (bytesOf "Cannot create file: ").length ≤ 64 := by decide
      rw [writeWork_of_none (by rw [answer]; rfl)]
      simp only [NamesCause, Explained, answer]
      exact iff_of_true ⟨iff_of_true (rejectedWith_of_short front name short) trivial, nofun,
        nofun⟩ trivial
  | failed =>
      rw [writeWork_of_none (by rw [answer]; rfl)]
      simp only [NamesCause, Explained, answer, iff_false]
      rintro ⟨-, eio, -⟩
      exact not_rejectedWith_eio (eio trivial)

/-! ### Examining -/

theorem complete_info_none :
    Binding.complete v8 path .info (.info none (bytesOf "File not found: " ++ path)) =
      .resolved .null := by
  have found : (bytesOf "File not found:").isPrefixOf (bytesOf "File not found: " ++ path) := by
    have split : bytesOf "File not found: " = bytesOf "File not found:" ++ [32] := by
      decide
    rw [split, List.append_assoc, List.isPrefixOf_iff_prefix]
    exact List.prefix_append _ _
  simp only [Binding.complete, found, not_true_eq_false, and_false, if_false]
  rfl

theorem workCallback_info_of_none (answer : (oracle.stat disk (cString path)).result? = none) :
    (oracle.fileSystem.workCallback disk (.info path)).2 =
      .info none (bytesOf "File not found: " ++ path) := by
  have missing : oracle.fileSystem.status disk (cString path) = none := answer
  simp only [FileSystem.workCallback, FileSystem.createFileInfo, missing, Option.map_none]

theorem resolvedInfo_of_short {path : List Char} {status : FileStatus}
    (answer : oracle.stat disk (cString (utf8 path)) = .ok status) :
    (Binding.complete v8 (utf8 path) .info (oracle.fileSystem.workCallback disk
      (.info (utf8 path))).2).ResolvedInfo v8 (utf8 path) status := by
  have short := short_of_stat answer nofun
  have found : oracle.fileSystem.status disk (cString (utf8 path)) = some status :=
    congrArg Answer.result? answer
  obtain ⟨value, shown⟩ := createInfoValue_of_short oracle.fileSystem v8 disk short
  simp only [FileSystem.workCallback, FileSystem.createFileInfo, found, Option.map_some,
    Binding.complete] at shown ⊢
  rw [if_neg (by simp), shown]
  simp only [V8.createInfoValue, Option.bind_eq_bind, Option.bind_eq_some_iff,
    Option.some.injEq] at shown
  obtain ⟨pathText, made, mimeText, -, rfl⟩ := shown
  obtain ⟨-, decoded⟩ := Option.ite_none_right_eq_some.mp made
  rw [← Option.some.inj decoded]
  exact ⟨_, rfl, rfl, rfl, rfl, rfl⟩

/-- Examining a path names its cause exactly when the path can be examined or is
missing. -/
theorem info_namesCause_iff {path : List Char} :
    oracle.NamesCause v8 disk (.info (utf8 path)) (Binding.complete v8 (utf8 path) .info
        (oracle.fileSystem.workCallback disk (.info (utf8 path))).2) ↔
      oracle.Explained disk (.info (utf8 path)) := by
  cases answer : oracle.stat disk (cString (utf8 path)) with
  | ok status =>
      have settled : (Binding.complete v8 (utf8 path) .info _).ResolvedInfo v8 (utf8 path)
          status := resolvedInfo_of_short answer
      simp only [NamesCause, Explained, answer, Answer.ok.injEq, iff_true]
      refine ⟨iff_of_false ?_ nofun, ?_, nofun⟩
      · intro null
        obtain ⟨properties, resolved, -⟩ := settled
        rw [null] at resolved
        cases resolved
      · rintro _ rfl
        exact settled
  | notFound =>
      rw [workCallback_info_of_none (by rw [answer]; rfl), complete_info_none]
      simp only [NamesCause, Explained, answer]
      exact iff_of_true ⟨trivial, nofun, nofun⟩ trivial
  | failed =>
      rw [workCallback_info_of_none (by rw [answer]; rfl), complete_info_none]
      simp only [NamesCause, Explained, answer, iff_false]
      rintro ⟨-, -, eio⟩
      obtain ⟨properties, rejected, -⟩ := eio trivial
      cases rejected

theorem perform_of_started {args : List Value} {operation : Operation}
    (started : binding.call v8 args = .starts operation) :
    (oracle.fileSystem.perform v8 disk binding args).2 =
      binding.complete v8 operation.path (oracle.fileSystem.workCallback disk operation).2 := by
  rw [FileSystem.perform, started]

/-- Whatever a call starts, its outcome names the cause of a failure if and only if the
only failure on the way is a missing path. -/
theorem errors_name_cause_iff (oracle : Oracle σ) (v8 : V8) (disk : σ) (binding : Binding)
    (args : List Value) (operation : Operation)
    (started : binding.call v8 args = .starts operation) :
    oracle.NamesCause v8 disk operation (oracle.fileSystem.perform v8 disk binding args).2 ↔
      oracle.Explained disk operation := by
  rw [perform_of_started started]
  cases binding with
  | read =>
      obtain ⟨path, rfl⟩ := fsRead_starts started
      exact read_namesCause_iff (Or.inl rfl)
  | readText =>
      obtain ⟨path, rfl⟩ := fsReadText_starts started
      exact read_namesCause_iff (Or.inr rfl)
  | write =>
      obtain ⟨path, content, createParents, rfl⟩ := fsWrite_starts_write started
      exact write_namesCause_iff
  | info =>
      obtain ⟨path, rfl⟩ := fsInfo_starts started
      exact info_namesCause_iff

/-- A directory with one file in it that may not be read. -/
def guarded : Oracle Unit where
  openRead _ path :=
    if 4096 ≤ path.length ∨ path = bytesOf "secret" then .failed else .notFound
  openWrite _ _ := .failed
  write disk _ _ := (disk, false)
  stat _ path :=
    if 4096 ≤ path.length then .failed
    else if path = bytesOf "secret" then
      .ok { isFile := true, isDirectory := false, size := 3, lastModified := 0 }
    else .notFound
  createDirectories disk _ := disk
  path_max _ _ long := ⟨if_pos (Or.inl long), rfl, if_pos long⟩
  stat_nil _ := rfl

theorem guarded_openRead (path : Bytes) :
    guarded.openRead () path =
      if 4096 ≤ path.length ∨ path = bytesOf "secret" then .failed else .notFound := rfl

theorem errors_name_cause_iff_missing :
    guarded.NamesCause validUtf8 () (.read (utf8 "none".toList))
      (guarded.fileSystem.perform validUtf8 () .read [.string "none".toList]).2 := by
  refine (errors_name_cause_iff guarded validUtf8 () .read [.string "none".toList] _ rfl).mpr ?_
  have other : ¬ (4096 ≤ (cString (utf8 "none".toList)).length ∨
      cString (utf8 "none".toList) = bytesOf "secret") := by decide
  have missing : guarded.openRead () (cString (utf8 "none".toList)) = .notFound := by
    rw [guarded_openRead, if_neg other]
  simp only [Explained, missing]

/-- A file that may not be read is reported as missing. -/
theorem protected_file_reported_missing :
    ¬ ∀ (oracle : Oracle Unit) (v8 : V8) (disk : Unit) (binding : Binding) (args : List Value)
      (operation : Operation), binding.call v8 args = .starts operation →
        oracle.NamesCause v8 disk operation
          (oracle.fileSystem.perform v8 disk binding args).2 := by
  intro always
  have started : Binding.call validUtf8 .read [.string "secret".toList] =
      .starts (.read (utf8 "secret".toList)) := rfl
  have secret : cString (utf8 "secret".toList) = bytesOf "secret" := by decide
  have refused : guarded.openRead () (cString (utf8 "secret".toList)) = .failed := by
    rw [guarded_openRead, if_pos (Or.inr secret)]
  have named := always guarded validUtf8 () .read [.string "secret".toList] _ started
  rw [perform_of_started started] at named
  have explained : guarded.Explained () (.read (utf8 "secret".toList)) :=
    (read_namesCause_iff (Or.inl rfl)).mp named
  simp only [Explained, refused] at explained

end Oracle

end Kode.Filesystem
