/-
# What a local specifier is relative to

`LoadLocalModule` resolves a specifier against the top of the directory stack,
which is the directory of the innermost module body that is running, or against
the entry directory when none is. The source of the call plays no part. So a
function that a module exports resolves its own `require` calls against the
directory of whoever happens to be loading when it is called, and against the
entry directory when it is called later, from a microtask or a host callback.
-/

import Kode.Modules.Balance

namespace Kode.Modules.Loader

open Kode.Library.PosixPath

/-- Jobs run with an empty directory stack and leave it so. -/
theorem keeps_runJobs (fs : FileSystem) (depth : ℕ) (jobs : List Job) (loader : Loader) :
    Keeps .entry loader (runJobs fs depth jobs loader) := by
  induction jobs generalizing loader with
  | nil => exact .refl loader
  | cons job jobs ih =>
      have first : Keeps .entry loader
          (invoke fs depth .entry .entry (.object job.callee) job.args loader).2 := by
        apply keepsCalls_invoke
      exact first.trans (ih _)

theorem keeps_runProgram (fs : FileSystem) (depth : ℕ) (filename : Text) (entry : Code)
    (jobs : List Job) :
    Keeps .entry (start fs filename) (runProgram fs depth filename entry jobs) := by
  have script : Keeps .entry (start fs filename) (runEntry fs depth filename entry).2 :=
    keeps_runCode (keepsCalls_invoke fs depth) .entry .entry entry (start fs filename)
  exact script.trans (keeps_runJobs fs depth jobs _)

/-- Over a whole run, the base directory is the one of the innermost running body. -/
theorem base_eq_currentDir {fs : FileSystem} {depth : ℕ} {filename : Text} {entry : Code}
    {jobs : List Job} {owner current : Owner} {specifier base : Text}
    (resolved : .resolve owner current specifier base ∈
      (runProgram fs depth filename entry jobs).log) :
    base = ownerDir (start fs filename).entryDir current := by
  obtain ⟨new, newLog, based⟩ := (keeps_runProgram fs depth filename entry jobs).log
  have fresh : (start fs filename).log = [] := rfl
  rw [newLog, fresh, List.append_nil] at resolved
  exact based rfl _ resolved

/-- In every run of a program and of the jobs that follow it, a `require` written
in the source of `owner` is resolved against the directory of `owner` if and only
if that is also the directory of the innermost module body that is running. -/
theorem require_resolves_relative_to_owner (fs : FileSystem) (depth : ℕ) (filename : Text)
    (entry : Code) (jobs : List Job) :
    (∀ owner current specifier base,
      .resolve owner current specifier base ∈ (runProgram fs depth filename entry jobs).log →
        base = ownerDir (start fs filename).entryDir owner) ↔
    ∀ owner current specifier base,
      .resolve owner current specifier base ∈ (runProgram fs depth filename entry jobs).log →
        ownerDir (start fs filename).entryDir current =
          ownerDir (start fs filename).entryDir owner := by
  constructor
  · intro relative owner current specifier base resolved
    rw [← base_eq_currentDir resolved]
    exact relative owner current specifier base resolved
  · intro sameDir owner current specifier base resolved
    rw [base_eq_currentDir resolved]
    exact sameDir owner current specifier base resolved

/-- A module in `lib` that exports a function which requires a neighbour. -/
def exportedRequire : FileSystem where
  files :=
    [("/lib/m.js".toList, .module fun args =>
        .function
          (fun _ => .call .require [.text "./x.js".toList] fun
            | .error error => .throw error
            | .ok exports => .return exports)
          fun f => .set (args.headD .undefined) "f".toList f fun
            | .error error => .throw error
            | .ok _ => .return .undefined),
      ("/lib/x.js".toList, .module fun _ => .return .undefined)]
  currentDirectory := "/".toList

/-- The entry script requires the module and calls the function. -/
def callExported : Code :=
  .call .require [.text "./lib/m.js".toList] fun
    | .error error => .throw error
    | .ok module => .get module "f".toList fun
        | .error error => .throw error
        | .ok f => .call f [] fun
            | .error error => .throw error
            | .ok value => .return value

/-- The function's `require` looks for `/x.js`, which does not exist, and not for its
neighbour `/lib/x.js`. -/
theorem exported_require_resolves_elsewhere :
    ¬ ∀ owner current specifier base, .resolve owner current specifier base ∈
      (runProgram exportedRequire 9 "/main.js".toList callExported []).log →
        base = ownerDir (start exportedRequire "/main.js".toList).entryDir owner := by
  intro relative
  have resolved : .resolve (.file "/lib/m.js".toList) .entry "./x.js".toList "/".toList ∈
      (runProgram exportedRequire 9 "/main.js".toList callExported []).log := by
    decide
  have base := relative _ _ _ _ resolved
  exact absurd base (by decide)

end Kode.Modules.Loader
