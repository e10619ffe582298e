/-
# What a load leaves behind

A call into JavaScript may load any number of modules, and some of those loads may
fail. Whatever happens, the directory stack is afterwards what it was before, and
a file that had a cache entry still has the same one: entries are erased only by
the load that made them, and a load of a file with an entry makes none.

The relation `Keeps` says this about a state before and a state after, and also
what was written to the history meanwhile. It is shown for one load under the
assumption that it holds for the calls the load makes, and then for all calls by
induction on their nesting depth.
-/

import Kode.Modules.Loader

namespace Kode.Modules

open Kode.Library.PosixPath

/-- The directory of the entry script or of a module file. -/
def ownerDir (entryDir : Text) : Owner → Text
  | .entry => entryDir
  | .file filename => dirname filename

/-- A resolution in the history used the directory of the innermost running body. -/
def LoadEvent.BasedOnCurrent (entryDir : Text) : LoadEvent → Prop
  | .resolve _ current _ base => base = ownerDir entryDir current
  | _ => True

namespace Loader

/-- What happened between two states while the body of `current` was running,
leaving the cache entry of `except` aside. -/
structure KeepsBut (except : Option Text) (current : Owner) (before after : Loader) : Prop where
  dirStack : after.dirStack = before.dirStack
  entryDir : after.entryDir = before.entryDir
  cache : ∀ filename module, some filename ≠ except → before.cache filename = some module →
    after.cache filename = some module
  /-- If the base directory was the one of the running body, so it was throughout. -/
  log : ∃ new, after.log = new ++ before.log ∧
    (before.baseDir = ownerDir before.entryDir current →
      ∀ event ∈ new, event.BasedOnCurrent before.entryDir)

/-- What happened between two states. -/
abbrev Keeps : Owner → Loader → Loader → Prop := KeepsBut none

namespace KeepsBut

variable {except : Option Text} {current : Owner} {before middle after : Loader}

theorem refl (loader : Loader) : KeepsBut except current loader loader where
  dirStack := rfl
  entryDir := rfl
  cache _ _ _ entry := entry
  log := ⟨[], rfl, by simp⟩

theorem baseDir_eq (keeps : KeepsBut except current before after) :
    after.baseDir = before.baseDir := by
  unfold baseDir
  rw [keeps.dirStack, keeps.entryDir]

theorem trans (first : KeepsBut except current before middle)
    (second : KeepsBut except current middle after) :
    KeepsBut except current before after where
  dirStack := second.dirStack.trans first.dirStack
  entryDir := second.entryDir.trans first.entryDir
  cache filename module other entry :=
    second.cache filename module other (first.cache filename module other entry)
  log := by
    obtain ⟨older, oldLog, oldBased⟩ := first.log
    obtain ⟨newer, newLog, newBased⟩ := second.log
    refine ⟨newer ++ older, ?_, ?_⟩
    · rw [newLog, oldLog, List.append_assoc]
    · intro based event member
      have still : middle.baseDir = ownerDir middle.entryDir current := by
        rw [first.baseDir_eq, first.entryDir]
        exact based
      rcases List.mem_append.mp member with new | old
      · rw [← first.entryDir]
        exact newBased still event new
      · exact oldBased based event old

/-- What keeps every entry keeps all but one. -/
theorem weaken (keeps : Keeps current before after) :
    KeepsBut except current before after where
  dirStack := keeps.dirStack
  entryDir := keeps.entryDir
  cache filename module _ := keeps.cache filename module (by simp)
  log := keeps.log

/-- An entry that was not there need not be kept. -/
theorem strengthen {filename : Text}
    (keeps : KeepsBut (some filename) current before after)
    (absent : before.cache filename = none) : Keeps current before after where
  dirStack := keeps.dirStack
  entryDir := keeps.entryDir
  cache other module _ entry := by
    apply keeps.cache other module _ entry
    intro same
    obtain rfl := Option.some.inj same
    rw [absent] at entry
    cases entry
  log := keeps.log

/-- The heap is none of the loader's business. -/
theorem of_eq (dirStack : after.dirStack = before.dirStack)
    (entryDir : after.entryDir = before.entryDir) (cache : after.cache = before.cache)
    (log : after.log = before.log) : KeepsBut except current before after where
  dirStack := dirStack
  entryDir := entryDir
  cache _ _ _ entry := by rw [cache]; exact entry
  log := ⟨[], log, by simp⟩

/-- Writing to the history. -/
theorem record {event : LoadEvent} (based : before.baseDir = ownerDir before.entryDir current →
    event.BasedOnCurrent before.entryDir) :
    KeepsBut except current before (before.record event) where
  dirStack := rfl
  entryDir := rfl
  cache _ _ _ entry := entry
  log := ⟨[event], rfl, by simpa using based⟩

/-- Giving up a load erases the one entry that is left aside. -/
theorem abandon {filename : Text} : KeepsBut (some filename) current before
    (before.abandon filename) where
  dirStack := rfl
  entryDir := rfl
  cache other module different entry := by
    have distinct : other ≠ filename := fun same => different (congrArg some same)
    simpa [Loader.abandon, Loader.record, distinct] using entry
  log := ⟨[.fail filename], rfl, by simp [LoadEvent.BasedOnCurrent]⟩

/-- A new module enters the cache under the name that is left aside. -/
theorem openModule {filename : Text} : KeepsBut (some filename) current before
    (before.openModule filename) where
  dirStack := rfl
  entryDir := rfl
  cache other module different entry := by
    have distinct : other ≠ filename := fun same => different (congrArg some same)
    simpa [Loader.openModule, Loader.record, distinct] using entry
  log := ⟨[.start filename (before.nextRef + 1)], rfl, by simp [LoadEvent.BasedOnCurrent]⟩

/-- A body runs with its own directory on the stack, whatever the directory of the
caller was, and its directory is taken off again. -/
theorem nested {filename : Text} (keeps : Keeps (.file filename)
      ((before.pushDir (dirname filename)).record (.body filename)) after) :
    KeepsBut except current before after.popDir where
  dirStack := by
    show after.dirStack.tail = before.dirStack
    rw [keeps.dirStack]
    rfl
  entryDir := keeps.entryDir
  cache other module _ entry := keeps.cache other module (by simp) entry
  log := by
    obtain ⟨new, newLog, based⟩ := keeps.log
    refine ⟨new ++ [.body filename], ?_, ?_⟩
    · show after.log = _
      rw [newLog, List.append_assoc]
      rfl
    · intro _ event member
      rcases List.mem_append.mp member with inside | own
      · exact based rfl event inside
      · rw [List.mem_singleton.mp own]
        trivial

end KeepsBut

/-! ## One load -/

/-- Calls keep what they find. -/
def KeepsCalls (call : Caller) : Prop :=
  ∀ owner current callee args loader,
    Keeps current loader (call owner current callee args loader).2

section Load

variable {fs : FileSystem} {call : Caller} (calls : KeepsCalls call)

include calls

theorem keeps_getProperty (owner current : Owner) (target : Value) (name : Text)
    (loader : Loader) :
    Keeps current loader (getProperty call owner current target name loader).2 := by
  unfold getProperty
  split
  · exact .refl loader
  · split
    · exact .refl loader
    · exact .refl loader
    · apply calls
  · exact .refl loader

theorem keeps_readGlobalRequire (owner current : Owner) (loader : Loader) :
    Keeps current loader (readGlobalRequire call owner current loader).2 := by
  unfold readGlobalRequire
  split
  · exact .refl loader
  · apply calls

omit calls in
theorem keeps_setProperty (current : Owner) (target : Value) (name : Text) (value : Value)
    (loader : Loader) : Keeps current loader (setProperty target name value loader).2 := by
  unfold setProperty
  split
  · exact .refl loader
  · split
    · exact .refl loader
    · exact .of_eq rfl rfl rfl rfl
  · exact .refl loader

omit calls in
theorem keeps_defineProperty (current : Owner) (target : Value) (name : Text) (getter : Value)
    (loader : Loader) : Keeps current loader (defineProperty target name getter loader).2 := by
  unfold defineProperty
  split
  · exact .of_eq rfl rfl rfl rfl
  · exact .refl loader

omit calls in
theorem keeps_resume {current : Owner} {before : Loader} {ended : Outcome × Loader}
    {next : Except Value Value → Loader → Outcome × Loader}
    (first : Keeps current before ended.2)
    (rest : ∀ result after, Keeps current after (next result after).2) :
    Keeps current before (resume ended next).2 := by
  obtain ⟨outcome, middle⟩ := ended
  cases outcome with
  | ok value => exact first.trans (rest _ middle)
  | error error => exact first.trans (rest _ middle)
  | exhausted => exact first

theorem keeps_runCode (owner current : Owner) (code : Code) (loader : Loader) :
    Keeps current loader (runCode call owner current code loader).2 := by
  induction code generalizing loader with
  | «return» value => exact .refl loader
  | throw error => exact .refl loader
  | call callee args next ih =>
      apply keeps_resume
      · apply calls
      · intro result after
        exact ih result after
  | get target name next ih =>
      apply keeps_resume
      · exact keeps_getProperty calls owner current target name loader
      · intro result after
        exact ih result after
  | set target name value next ih =>
      apply keeps_resume
      · exact keeps_setProperty current target name value loader
      · intro result after
        exact ih result after
  | define target name getter next ih =>
      apply keeps_resume
      · exact keeps_defineProperty current target name getter loader
      · intro result after
        exact ih result after
  | create next ih =>
      have made : Keeps current loader (loader.allocate none).2 := .of_eq rfl rfl rfl rfl
      exact made.trans (ih _ _)
  | function body next _ ih =>
      have made : Keeps current loader (loader.allocate (some ⟨owner, body⟩)).2 :=
        .of_eq rfl rfl rfl rfl
      exact made.trans (ih _ _)
  | setGlobalRequire value next ih =>
      simp only [runCode]
      split
      · exact ih loader
      · have stored : Keeps current loader { loader with globalRequire := .data value } :=
          .of_eq rfl rfl rfl rfl
        exact stored.trans (ih _)
  | defineGlobalRequire getter next ih =>
      have stored : Keeps current loader { loader with globalRequire := .accessor getter } :=
        .of_eq rfl rfl rfl rfl
      exact stored.trans (ih _)

/-! The stages of a load, each leaving aside the entry of the file that is loaded. -/

theorem keeps_readExports (current : Owner) (filename : Text) (module : ℕ) (loader : Loader) :
    KeepsBut (some filename) current loader
      (readExports call current filename module loader).2 := by
  have read : KeepsBut (some filename) current loader _ :=
    (keeps_getProperty calls (.file filename) current (.object module) exportsName loader).weaken
  unfold readExports
  split
  · rename_i exports after ended
    rw [ended] at read
    apply read.trans
    apply KeepsBut.record
    exact fun _ => trivial
  · rename_i error after ended
    rw [ended] at read
    exact read.trans .abandon
  · rename_i after ended
    rw [ended] at read
    exact read

theorem keeps_callWrapper (current : Owner) (filename : Text) (exports module : ℕ)
    (wrapper requireValue : Value) (loader : Loader) :
    KeepsBut (some filename) current loader
      (callWrapper call current filename exports module wrapper requireValue loader).2 := by
  have body : KeepsBut (some filename) current loader _ :=
    KeepsBut.nested (calls (.file filename) (.file filename) wrapper
      [.object exports, requireValue, .object module, .text filename, .text (dirname filename)]
      ((loader.pushDir (dirname filename)).record (.body filename)))
  unfold callWrapper
  dsimp only
  split
  · rename_i value after ended
    rw [ended] at body
    exact body.trans (keeps_readExports calls current filename module after.popDir)
  · rename_i error after ended
    rw [ended] at body
    exact body.trans .abandon
  · rename_i after ended
    rw [ended] at body
    exact body

theorem keeps_enterModule (current : Owner) (filename : Text) (exports module : ℕ)
    (wrapper : Value) (loader : Loader) :
    KeepsBut (some filename) current loader
      (enterModule call current filename exports module wrapper loader).2 := by
  have read : KeepsBut (some filename) current loader _ :=
    (keeps_readGlobalRequire calls (.file filename) current loader).weaken
  unfold enterModule
  split
  · rename_i requireValue after ended
    rw [ended] at read
    split_ifs
    · exact read.trans (keeps_callWrapper calls _ _ _ _ _ _ _)
    · exact read.trans .abandon
  · rename_i error after ended
    rw [ended] at read
    exact read.trans .abandon
  · rename_i after ended
    rw [ended] at read
    exact read

theorem keeps_evaluateModule (current : Owner) (filename : Text) (exports module : ℕ)
    (source : Source) (loader : Loader) :
    KeepsBut (some filename) current loader
      (evaluateModule call current filename exports module source loader).2 := by
  unfold evaluateModule
  split
  · exact .abandon
  · rename_i code
    have ran : KeepsBut (some filename) current loader _ :=
      (keeps_runCode calls (.file filename) current code loader).weaken
    split
    · rename_i wrapper after ended
      rw [ended] at ran
      split_ifs
      · exact ran.trans (keeps_enterModule calls _ _ _ _ _ _)
      · exact ran.trans .abandon
    · rename_i error after ended
      rw [ended] at ran
      exact ran.trans .abandon
    · rename_i after ended
      rw [ended] at ran
      exact ran

theorem keeps_cachedExports (owner current : Owner) (filename : Text) (module : ℕ)
    (loader : Loader) :
    Keeps current loader (cachedExports call owner current filename module loader).2 := by
  have read := keeps_getProperty calls owner current (.object module) exportsName loader
  unfold cachedExports
  split
  · rename_i exports after ended
    rw [ended] at read
    apply read.trans
    apply KeepsBut.record
    exact fun _ => trivial
  · rename_i error after ended
    rw [ended] at read
    exact read
  · rename_i after ended
    rw [ended] at read
    exact read

/-- A load keeps what it finds. The entry it makes itself was not there before. -/
theorem keeps_loadLocalModule (owner current : Owner) (specifier : Text) (loader : Loader) :
    Keeps current loader (loadLocalModule fs call owner current specifier loader).2 := by
  have resolved : Keeps current loader
      (loader.record (.resolve owner current specifier loader.baseDir)) :=
    .record id
  apply resolved.trans
  unfold loadLocalModule
  dsimp only
  split
  · apply keeps_cachedExports calls
  · rename_i absent
    split
    · exact .refl _
    · rename_i source _
      apply KeepsBut.strengthen _ absent
      apply KeepsBut.openModule.trans
      apply keeps_evaluateModule calls

theorem keeps_requireCallback (owner current : Owner) (args : List Value) (loader : Loader) :
    Keeps current loader (requireCallback fs call owner current args loader).2 := by
  unfold requireCallback
  split
  · rename_i name _
    split_ifs
    · exact .of_eq rfl rfl rfl rfl
    · have loaded : Keeps current loader
          (loadLocalModule fs call owner current name loader).2 :=
        keeps_loadLocalModule calls owner current name loader
      split <;> rename_i ended <;> rw [ended] at loaded <;> exact loaded
    · exact .refl loader
  · exact .refl loader

theorem keepsCalls_callValue : KeepsCalls (callValue fs call) := by
  intro owner current callee args loader
  unfold callValue
  split
  · apply keeps_requireCallback calls
  · split
    · apply keeps_runCode calls
    · exact .refl loader
  · exact .refl loader

end Load

/-- Calls keep what they find at every depth. -/
theorem keepsCalls_invoke (fs : FileSystem) (depth : ℕ) : KeepsCalls (invoke fs depth) := by
  induction depth with
  | zero =>
      intro owner current callee args loader
      exact .refl loader
  | succ depth ih => exact keepsCalls_callValue ih

/-! ## A failed load -/

theorem abandon_cache_self (loader : Loader) (filename : Text) :
    (loader.abandon filename).cache filename = none := by
  simp [abandon, record]

theorem readExports_failed {call : Caller} {current : Owner} {filename : Text} {module : ℕ}
    {loader : Loader}
    (failed : (readExports call current filename module loader).1.failed = true) :
    (readExports call current filename module loader).2.cache filename = none := by
  unfold readExports at failed ⊢
  split at failed
  · cases failed
  · apply abandon_cache_self
  · cases failed

theorem callWrapper_failed {call : Caller} {current : Owner} {filename : Text}
    {exports module : ℕ} {wrapper requireValue : Value} {loader : Loader}
    (failed : (callWrapper call current filename exports module wrapper requireValue
      loader).1.failed = true) :
    (callWrapper call current filename exports module wrapper requireValue
      loader).2.cache filename = none := by
  unfold callWrapper at failed ⊢
  dsimp only at failed ⊢
  split at failed
  · exact readExports_failed failed
  · apply abandon_cache_self
  · cases failed

theorem enterModule_failed {call : Caller} {current : Owner} {filename : Text}
    {exports module : ℕ} {wrapper : Value} {loader : Loader}
    (failed : (enterModule call current filename exports module wrapper loader).1.failed = true) :
    (enterModule call current filename exports module wrapper loader).2.cache filename =
      none := by
  unfold enterModule at failed ⊢
  split at failed
  · split_ifs at failed ⊢
    · exact callWrapper_failed failed
    · apply abandon_cache_self
  · apply abandon_cache_self
  · cases failed

/-- Every way to fail erases the entry. -/
theorem evaluateModule_failed {call : Caller} {current : Owner} {filename : Text}
    {exports module : ℕ} {source : Source} {loader : Loader}
    (failed : (evaluateModule call current filename exports module source
      loader).1.failed = true) :
    (evaluateModule call current filename exports module source loader).2.cache filename =
      none := by
  unfold evaluateModule at failed ⊢
  split at failed
  · apply abandon_cache_self
  · split at failed
    · split_ifs at failed ⊢
      · exact enterModule_failed failed
      · apply abandon_cache_self
    · apply abandon_cache_self
    · cases failed

/-- After a load of a file without an entry has failed, for whatever reason and
however deep, the directory stack is what it was, the file has no entry, and every
file that had an entry has the same module object. -/
theorem failed_load_keeps_loader (fs : FileSystem) (depth : ℕ) (owner current : Owner)
    (specifier : Text) (loader : Loader)
    (absent : loader.cache (fs.resolveLocalModulePath loader.baseDir specifier) = none)
    (failed : (loadLocalModule fs (invoke fs depth) owner current specifier
      loader).1.failed = true) :
    (loadLocalModule fs (invoke fs depth) owner current specifier loader).2.dirStack =
      loader.dirStack ∧
    (loadLocalModule fs (invoke fs depth) owner current specifier loader).2.cache
      (fs.resolveLocalModulePath loader.baseDir specifier) = none ∧
    ∀ filename module, loader.cache filename = some module →
      (loadLocalModule fs (invoke fs depth) owner current specifier loader).2.cache filename =
        some module := by
  have keeps : Keeps current loader
      (loadLocalModule fs (invoke fs depth) owner current specifier loader).2 :=
    keeps_loadLocalModule (keepsCalls_invoke fs depth) owner current specifier loader
  refine ⟨keeps.dirStack, ?_, fun filename module => keeps.cache filename module (by simp)⟩
  unfold loadLocalModule at failed ⊢
  dsimp only at failed ⊢
  split at failed
  · rename_i module present
    exact absurd (absent.symm.trans present) (by simp)
  · split at failed
    · exact absent
    · exact evaluateModule_failed failed

/-- `a` and `b` require each other, and `b` throws; `c` is fine. -/
def failingCycle : FileSystem where
  files :=
    [("/c.js".toList, .module fun _ => .return .undefined),
      ("/a.js".toList, .module fun _ => .call .require [.text "./b".toList] fun
        | .ok exports => .return exports
        | .error error => .throw error),
      ("/b.js".toList, .module fun _ => .call .require [.text "./a.js".toList] fun _ =>
        .throw (.text "boom".toList))]
  currentDirectory := "/".toList

/-- The loader of an entry script that has required `c`. -/
def failingCycleStart : Loader :=
  (runEntry failingCycle 9 "/main.js".toList
    (.call .require [.text "./c".toList] fun _ => .return .undefined)).2

/-- With `c` loaded, a load of `a` fails two levels down and leaves `c` alone. -/
theorem failed_load_keeps_loader_cycle :
    failingCycleStart.cache "/c.js".toList = some 1 ∧
      (loadLocalModule failingCycle (invoke failingCycle 9) .entry .entry "./a".toList
        failingCycleStart).1 = .threw (.text "boom".toList) ∧
      (loadLocalModule failingCycle (invoke failingCycle 9) .entry .entry "./a".toList
        failingCycleStart).2.dirStack = [] ∧
      (loadLocalModule failingCycle (invoke failingCycle 9) .entry .entry "./a".toList
        failingCycleStart).2.cache "/a.js".toList = none ∧
      (loadLocalModule failingCycle (invoke failingCycle 9) .entry .entry "./a".toList
        failingCycleStart).2.cache "/c.js".toList = some 1 := by
  have cached : failingCycleStart.cache "/c.js".toList = some 1 := by decide
  have empty : failingCycleStart.dirStack = [] := by decide
  have file : failingCycle.resolveLocalModulePath failingCycleStart.baseDir "./a".toList =
      "/a.js".toList := by decide
  have absent : failingCycleStart.cache (failingCycle.resolveLocalModulePath
      failingCycleStart.baseDir "./a".toList) = none := by decide
  have threw : (loadLocalModule failingCycle (invoke failingCycle 9) .entry .entry "./a".toList
      failingCycleStart).1 = .threw (.text "boom".toList) := by decide
  obtain ⟨stack, erased, kept⟩ := failed_load_keeps_loader failingCycle 9 .entry .entry
    "./a".toList failingCycleStart absent (by rw [threw]; rfl)
  rw [file] at erased
  exact ⟨cached, threw, stack.trans empty, erased, kept _ _ cached⟩

end Loader

end Kode.Modules
