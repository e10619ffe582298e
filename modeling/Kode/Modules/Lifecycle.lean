/-
# The life of a module

What caching is for, said about histories alone. A file is absent, being loaded,
or loaded. A load starts only when the file is absent, calls the module's function
once, and ends by failing, after which the file is absent again, or by finishing
with a value. A request in between is answered with the module object of the load
in progress, and a request after a load has finished with the value it finished
with.

A history that follows these rules starts the body of a file at most once more
than its loads have failed, never starts a load inside a load of the same file,
and answers every later request with the same value.
-/

import Kode.Modules.Loader

namespace Kode.Modules

open Kode.Library.PosixPath

/-- Where a file stands. -/
inductive Status
  | absent
  /-- Being loaded; `entered` says whether the module's function has been called. -/
  | opened (module : ℕ) (entered : Bool)
  | loaded (module : ℕ) (exports : Value)
  deriving DecidableEq, Repr

/-- The module object of a file. -/
def Status.module : Status → Option ℕ
  | .absent => none
  | .opened module _ => some module
  | .loaded module _ => some module

/-- How often the body has been started by the load in progress or by the load that
has finished. -/
def Status.bodies : Status → ℕ
  | .absent => 0
  | .opened _ entered => entered.toNat
  | .loaded _ _ => 1

theorem Status.bodies_le_one (status : Status) : status.bodies ≤ 1 := by
  cases status with
  | absent => exact Nat.zero_le 1
  | opened module entered => exact entered.toNat_le
  | loaded module exports => exact Nat.le_refl 1

/-- The histories, newest event first, that follow the rules, with the status of
each file at their end. -/
inductive History : List LoadEvent → (Text → Status) → Prop
  | nil : History [] fun _ => .absent
  | resolve {log : List LoadEvent} {status : Text → Status} (owner current : Owner)
      (specifier base : Text) (prior : History log status) :
      History (.resolve owner current specifier base :: log) status
  | hitOpened {log : List LoadEvent} {status : Text → Status} {filename : Text} {module : ℕ}
      {entered : Bool} (exports : Value) (prior : History log status)
      (here : status filename = .opened module entered) :
      History (.hit filename module exports :: log) status
  | hitLoaded {log : List LoadEvent} {status : Text → Status} {filename : Text} {module : ℕ}
      {exports : Value} (prior : History log status)
      (here : status filename = .loaded module exports) :
      History (.hit filename module exports :: log) status
  | start {log : List LoadEvent} {status : Text → Status} {filename : Text} (module : ℕ)
      (prior : History log status) (here : status filename = .absent) :
      History (.start filename module :: log)
        (Function.update status filename (.opened module false))
  | body {log : List LoadEvent} {status : Text → Status} {filename : Text} {module : ℕ}
      (prior : History log status) (here : status filename = .opened module false) :
      History (.body filename :: log) (Function.update status filename (.opened module true))
  | fail {log : List LoadEvent} {status : Text → Status} {filename : Text} {module : ℕ}
      {entered : Bool} (prior : History log status)
      (here : status filename = .opened module entered) :
      History (.fail filename :: log) (Function.update status filename .absent)
  | finish {log : List LoadEvent} {status : Text → Status} {filename : Text} {module : ℕ}
      (exports : Value) (prior : History log status)
      (here : status filename = .opened module true) :
      History (.finish filename exports :: log)
        (Function.update status filename (.loaded module exports))

/-- A load of the file has started and not ended. -/
def InProgress (log : List LoadEvent) (filename : Text) : Prop :=
  ∃ newer older module, log = newer ++ .start filename module :: older ∧
    .fail filename ∉ newer ∧ ∀ exports, .finish filename exports ∉ newer

namespace History

/-- What came earlier followed the rules too. -/
theorem suffix {newer older : List LoadEvent} {status : Text → Status}
    (history : History (newer ++ older) status) : ∃ earlier, History older earlier := by
  induction newer generalizing status with
  | nil => exact ⟨status, history⟩
  | cons event newer ih =>
      cases history with
      | resolve owner current specifier base prior => exact ih prior
      | hitOpened exports prior here => exact ih prior
      | hitLoaded prior here => exact ih prior
      | start module prior here => exact ih prior
      | body prior here => exact ih prior
      | fail prior here => exact ih prior
      | finish exports prior here => exact ih prior

/-- Files of different status are different. -/
theorem ne_of_status {status : Text → Status} {filename other : Text} {one two : Status}
    (first : status filename = one) (second : status other = two) (distinct : one ≠ two) :
    filename ≠ other := by
  intro same
  apply distinct
  rw [← first, same, second]

/-- A file whose load has started and not ended is being loaded. -/
theorem opened_of_inProgress {log : List LoadEvent} {status : Text → Status} {filename : Text}
    (history : History log status) (progress : InProgress log filename) :
    ∃ module entered, status filename = .opened module entered := by
  obtain ⟨newer, older, started, rfl, notFailed, notFinished⟩ := progress
  induction newer generalizing status with
  | nil =>
      cases history with
      | start _ prior here => exact ⟨started, false, Function.update_self ..⟩
  | cons event newer ih =>
      have inner {before : Text → Status}
          (prior : History (newer ++ .start filename started :: older) before) :
          ∃ module entered, before filename = .opened module entered :=
        ih prior (fun member => notFailed (List.mem_cons_of_mem _ member))
          fun exports member => notFinished exports (List.mem_cons_of_mem _ member)
      cases history with
      | resolve owner current specifier base prior => exact inner prior
      | hitOpened exports prior here => exact inner prior
      | hitLoaded prior here => exact inner prior
      | @start _ before other module prior here =>
          obtain ⟨held, entered, opened⟩ := inner prior
          have different := ne_of_status opened here (by simp)
          exact ⟨held, entered, (Function.update_of_ne different _ _).trans opened⟩
      | @body _ before other module prior here =>
          obtain ⟨held, entered, opened⟩ := inner prior
          by_cases same : filename = other
          · subst same
            exact ⟨module, true, Function.update_self ..⟩
          · exact ⟨held, entered, (Function.update_of_ne same _ _).trans opened⟩
      | @fail _ before other module entered prior here =>
          obtain ⟨held, entered, opened⟩ := inner prior
          have different : filename ≠ other := by
            intro same
            exact notFailed (same ▸ List.mem_cons_self)
          exact ⟨held, entered, (Function.update_of_ne different _ _).trans opened⟩
      | @finish _ before other module exports prior here =>
          obtain ⟨held, entered, opened⟩ := inner prior
          have different : filename ≠ other := by
            intro same
            exact notFinished exports (same ▸ List.mem_cons_self)
          exact ⟨held, entered, (Function.update_of_ne different _ _).trans opened⟩

/-- No load starts inside a load of the same file. -/
theorem not_nested {newer older : List LoadEvent} {status : Text → Status} {filename : Text}
    {module : ℕ} (history : History (newer ++ .start filename module :: older) status) :
    ¬ InProgress older filename := by
  intro progress
  obtain ⟨_, started⟩ := history.suffix
  cases started with
  | start module prior here =>
      obtain ⟨held, entered, opened⟩ := prior.opened_of_inProgress progress
      rw [here] at opened
      cases opened

/-- Failed loads account for all starts of the body except the one of a load that
is in progress or has finished. -/
theorem bodies_le {log : List LoadEvent} {status : Text → Status} (history : History log status)
    (filename : Text) : log.count (.body filename) ≤
      log.count (.fail filename) + (status filename).bodies := by
  induction history with
  | nil => simp
  | resolve owner current specifier base prior ih => simpa using ih
  | hitOpened exports prior here ih => simpa using ih
  | hitLoaded prior here ih => simpa using ih
  | @start log before other module prior here ih =>
      by_cases same : filename = other
      · subst same
        simpa [here, Status.bodies] using ih
      · simpa [same] using ih
  | @body log before other module prior here ih =>
      by_cases same : filename = other
      · subst same
        simpa [here, Status.bodies] using ih
      · simpa [same, Ne.symm same] using ih
  | @fail log before other module entered prior here ih =>
      by_cases same : filename = other
      · subst same
        have atMost := entered.toNat_le
        simp only [here, Status.bodies] at ih
        simp only [Function.update_self, Status.bodies, List.count_cons_self, ne_eq, reduceCtorEq,
          not_false_eq_true, List.count_cons_of_ne]
        omega
      · simpa [same, Ne.symm same] using ih
  | @finish log before other module exports prior here ih =>
      by_cases same : filename = other
      · subst same
        simpa [here, Status.bodies] using ih
      · simpa [same] using ih

/-- Once a load has finished, the file stays loaded with the same value. -/
theorem loaded_of_finish {newer older : List LoadEvent} {status : Text → Status}
    {filename : Text} {exports : Value}
    (history : History (newer ++ .finish filename exports :: older) status) :
    (∃ module, status filename = .loaded module exports) ∧
      (∀ module, .start filename module ∉ newer) ∧
      ∀ module value, .hit filename module value ∈ newer → value = exports := by
  induction newer generalizing status with
  | nil =>
      cases history with
      | @finish _ before _ module _ prior here =>
          exact ⟨⟨module, Function.update_self ..⟩, by simp, by simp⟩
  | cons event newer ih =>
      cases history with
      | resolve owner current specifier base prior =>
          obtain ⟨loaded, noStart, answers⟩ := ih prior
          exact ⟨loaded, by simpa using noStart, by simpa using answers⟩
      | @hitOpened _ _ other module entered value prior here =>
          obtain ⟨⟨held, loaded⟩, noStart, answers⟩ := ih prior
          have different := ne_of_status loaded here (by simp)
          exact ⟨⟨held, loaded⟩, by simpa using noStart, by simpa [different] using answers⟩
      | @hitLoaded _ _ other module value prior here =>
          obtain ⟨⟨held, loaded⟩, noStart, answers⟩ := ih prior
          refine ⟨⟨held, loaded⟩, by simpa using noStart, ?_⟩
          intro asked answer member
          rcases List.mem_cons.mp member with new | old
          · obtain ⟨rfl, rfl, rfl⟩ := LoadEvent.hit.inj new
            exact (Status.loaded.inj (here.symm.trans loaded)).2
          · exact answers asked answer old
      | @start _ before other module prior here =>
          obtain ⟨⟨held, loaded⟩, noStart, answers⟩ := ih prior
          have different := ne_of_status loaded here (by simp)
          exact ⟨⟨held, (Function.update_of_ne different _ _).trans loaded⟩,
            by simpa [different] using noStart, by simpa using answers⟩
      | @body _ before other module prior here =>
          obtain ⟨⟨held, loaded⟩, noStart, answers⟩ := ih prior
          have different := ne_of_status loaded here (by simp)
          exact ⟨⟨held, (Function.update_of_ne different _ _).trans loaded⟩,
            by simpa using noStart, by simpa using answers⟩
      | @fail _ before other module entered prior here =>
          obtain ⟨⟨held, loaded⟩, noStart, answers⟩ := ih prior
          have different := ne_of_status loaded here (by simp)
          exact ⟨⟨held, (Function.update_of_ne different _ _).trans loaded⟩,
            by simpa using noStart, by simpa using answers⟩
      | @finish _ before other module value prior here =>
          obtain ⟨⟨held, loaded⟩, noStart, answers⟩ := ih prior
          have different := ne_of_status loaded here (by simp)
          exact ⟨⟨held, (Function.update_of_ne different _ _).trans loaded⟩,
            by simpa using noStart, by simpa using answers⟩

end History

end Kode.Modules
