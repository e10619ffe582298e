/-
# Module graphs with cycles

For every finite set of files made of scripts and syntax errors, with whatever
cycles, and every entry script: loading ends, no file is loaded inside its own
load, a body is started again only after a load of its file has failed, and once a
load has succeeded every `require` that resolves to the file answers with the same
value.
-/

import Kode.Modules.Depth
import Kode.Modules.Script

namespace Kode.Modules

open Kode.Library.PosixPath Loader

namespace Project

/-- A depth at which every entry script of the project ends. -/
def enoughDepth (project : Project) : ℕ := 2 * project.files.length + 1

/-- The run of an entry script. -/
def run (project : Project) (filename : Text) (entry : Script) : Outcome × Loader :=
  runEntry project.fileSystem project.enoughDepth filename entry.entryCode

theorem run_completes (project : Project) (filename : Text) (entry : Script) :
    Completes project (fun _ => .absent) (start project.fileSystem filename)
      (project.run filename entry) :=
  completes_runEntry project filename entry 0

/-- The history of a run follows the rules, and only files of the project are
loaded. -/
theorem run_history (project : Project) (filename : Text) (entry : Script) :
    (∃ status, History (project.run filename entry).2.log status) ∧
      ∀ file module, .start file module ∈ (project.run filename entry).2.log →
        file ∈ project.names := by
  obtain ⟨-, reached, advances⟩ := project.run_completes filename entry
  exact ⟨⟨reached, advances.tracked.history⟩, advances.tracked.known⟩

/-- Files that are being loaded at the same time are different files of the project. -/
theorem inProgress_length_le (project : Project) (filename : Text) (entry : Script)
    {newer older : List LoadEvent}
    (log : (project.run filename entry).2.log = newer ++ older) {files : List Text}
    (distinct : files.Nodup) (progress : ∀ file ∈ files, InProgress older file) :
    files.length ≤ project.files.length := by
  obtain ⟨-, known⟩ := project.run_history filename entry
  have inside : files ⊆ project.names := by
    intro file member
    obtain ⟨before, after, module, rfl, -, -⟩ := progress file member
    apply known file module
    rw [log]
    simp
  calc files.length ≤ project.names.length := distinct.length_le_of_subset inside
    _ = project.files.length := List.length_map _

end Project

/-- An answer from the cache is the current value of `module.exports` and loads
nothing. -/
theorem Loader.loadLocalModule_cached (fs : FileSystem) (call : Caller) (owner current : Owner)
    (specifier : Text) (loader : Loader) {module : ℕ} {exports : Value}
    (entry : loader.cache (fs.resolveLocalModulePath loader.baseDir specifier) = some module)
    (found : loader.objects module exportsName = some (.data exports)) :
    loadLocalModule fs call owner current specifier loader =
      (.value exports, (loader.record (.resolve owner current specifier loader.baseDir)).record
        (.hit (fs.resolveLocalModulePath loader.baseDir specifier) module exports)) := by
  have entryAfter : (loader.record (.resolve owner current specifier loader.baseDir)).cache
      (fs.resolveLocalModulePath loader.baseDir specifier) = some module := entry
  have foundAfter : (loader.record (.resolve owner current specifier loader.baseDir)).objects
      module exportsName = some (.data exports) := found
  simp only [loadLocalModule, entryAfter, cachedExports, getProperty_data foundAfter]

/-- Every run of scripts ends, with the same result at every greater depth. In its
history no load starts inside a load of the same file, at most as many loads are in
progress as there are files, a body is started at most once more than loads of its
file have failed, and after a load has finished every answer for the file is the
value it finished with. A file in the cache is answered with the current value of
its `module.exports`. -/
theorem modules_run_once (project : Project) (filename : Text) (entry : Script) :
    (project.run filename entry).1 ≠ .exhausted ∧
    (∀ extra, runEntry project.fileSystem (project.enoughDepth + extra) filename
      entry.entryCode = project.run filename entry) ∧
    (∀ newer older file module,
      (project.run filename entry).2.log = newer ++ .start file module :: older →
        ¬ InProgress older file) ∧
    (∀ newer older, ∀ files : List Text, (project.run filename entry).2.log = newer ++ older →
      files.Nodup → (∀ file ∈ files, InProgress older file) →
        files.length ≤ project.files.length) ∧
    (∀ newer older file, (project.run filename entry).2.log = newer ++ older →
      older.count (.body file) ≤ 1 + older.count (.fail file)) ∧
    (∀ newer older file exports,
      (project.run filename entry).2.log = newer ++ .finish file exports :: older →
        (∀ module, .start file module ∉ newer) ∧
          ∀ module value, .hit file module value ∈ newer → value = exports) ∧
    ∀ call owner current specifier loader module exports,
      loader.cache (project.fileSystem.resolveLocalModulePath loader.baseDir specifier) =
        some module →
      loader.objects module exportsName = some (.data exports) →
        loadLocalModule project.fileSystem call owner current specifier loader =
          (.value exports,
            (loader.record (.resolve owner current specifier loader.baseDir)).record
              (.hit (project.fileSystem.resolveLocalModulePath loader.baseDir specifier) module
                exports)) := by
  have ends := (project.run_completes filename entry).1
  obtain ⟨⟨status, history⟩, -⟩ := project.run_history filename entry
  refine ⟨ends, fun extra => runEntry_deepens _ _ extra _ _ ends, ?_, ?_, ?_, ?_, ?_⟩
  · intro newer older file module log
    rw [log] at history
    exact history.not_nested
  · intro newer older files log distinct progress
    exact project.inProgress_length_le filename entry log distinct progress
  · intro newer older file log
    rw [log] at history
    obtain ⟨earlier, prior⟩ := history.suffix
    have paid := prior.bodies_le file
    have atMost := (earlier file).bodies_le_one
    omega
  · intro newer older file exports log
    rw [log] at history
    exact history.loaded_of_finish.2
  · intro call owner current specifier loader module exports entry found
    exact loadLocalModule_cached _ call owner current specifier loader entry found

/-- The files of `tests/modules/app_cycle_reassign_exports.js`: `a` replaces its
exports before it requires `b`, and `b` requires `a` back. -/
def cycleReassign : Project where
  files :=
    [("/cycle_reassign_a.js".toList, .ok (.setExports "old".toList (.text "captured".toList)
        (.create fun current => .setModuleExports current
          (.require "./cycle_reassign_b".toList fun _ => .done)))),
      ("/cycle_reassign_b.js".toList, .ok (.require "./cycle_reassign_a".toList fun
        | .ok a => .setExports "a".toList a .done
        | .error error => .throw error))]
  currentDirectory := "/".toList

-- `b` sees the new exports of `a` (object 3), and so does the entry script.
example : (cycleReassign.run "/app.js".toList (.require "./cycle_reassign_a".toList fun
      | .ok a => .throw a
      | .error error => .throw error)).1 = .error (.object 3) ∧
    .hit "/cycle_reassign_a.js".toList 1 (.object 3) ∈
      (cycleReassign.run "/app.js".toList
        (.require "./cycle_reassign_a".toList fun _ => .done)).2.log := by
  decide

end Kode.Modules
