/-
# Modules that run in one go

A module body that only requires, reads properties, writes to its `exports`,
reassigns `module.exports`, throws and catches runs to its end, whatever cycles its
files form. Each such body, and each entry script made of the same actions, is a
`Script`; this module shows that the loader brings it to an end and that its
history follows the rules of a module's life.

What makes it end is that a load puts its file into the cache before it runs the
body: along a chain of nested loads the files without an entry become fewer.
-/

import Kode.Modules.Balance
import Kode.Modules.Lifecycle

namespace Kode.Modules

open Kode.Library.PosixPath

/-- Synchronous actions. What a `require` or a property read leads to, and whether
its exception is caught, is up to the continuation. -/
inductive Script
  | done
  | throw (error : Value)
  | require (specifier : Text) (next : Except Value Value → Script)
  | get (target : Value) (name : Text) (next : Except Value Value → Script)
  | create (next : Value → Script)
  /-- `exports.name = value` -/
  | setExports (name : Text) (value : Value) (next : Script)
  /-- `module.exports = value` -/
  | setModuleExports (value : Value) (next : Script)

namespace Script

/-- The code of a script, given its `exports` and `module`. -/
def toCode (exports module : Value) : Script → Code
  | .done => .return .undefined
  | .throw error => .throw error
  | .require specifier next =>
      .call .require [.text specifier] fun result => (next result).toCode exports module
  | .get target name next => .get target name fun result => (next result).toCode exports module
  | .create next => .create fun value => (next value).toCode exports module
  | .setExports name value next =>
      .set exports name value fun
        | .ok _ => next.toCode exports module
        | .error error => .throw error
  | .setModuleExports value next =>
      .set module Loader.exportsName value fun
        | .ok _ => next.toCode exports module
        | .error error => .throw error

/-- The body of a module: its first argument is `exports` and its third `module`. -/
def body (script : Script) (args : List Value) : Code :=
  script.toCode (args.getD 0 .undefined) (args.getD 2 .undefined)

/-- The entry script has neither `exports` nor `module`. -/
def entryCode (script : Script) : Code := script.toCode .undefined .undefined

end Script

/-- A finite set of files, each a script that runs in one go or a syntax error. -/
structure Project where
  files : List (Text × Except Value Script)
  currentDirectory : Text

namespace Project

/-- The files as the loader finds them. -/
def fileSystem (project : Project) : FileSystem where
  files := project.files.map fun file =>
    (file.1, match file.2 with
      | .ok script => .module script.body
      | .error error => .invalid error)
  currentDirectory := project.currentDirectory

/-- The names of the files. -/
def names (project : Project) : List Text := project.files.map Prod.fst

theorem mem_names_of_read {project : Project} {filename : Text} {source : Source}
    (read : project.fileSystem.readFileText filename = some source) :
    filename ∈ project.names := by
  obtain ⟨file, found, _⟩ := Option.map_eq_some_iff.mp read
  have named : file.1 = filename := by simpa using List.find?_some found
  obtain ⟨original, member, rfl⟩ := List.mem_map.mp (List.mem_of_find?_eq_some found)
  exact List.mem_map.mpr ⟨original, member, named⟩

/-- A file is a syntax error or the text of a script. -/
theorem source_cases {project : Project} {filename : Text} {source : Source}
    (read : project.fileSystem.readFileText filename = some source) :
    (∃ error, source = .invalid error) ∨ ∃ script : Script, source = .module script.body := by
  obtain ⟨file, found, rfl⟩ := Option.map_eq_some_iff.mp read
  obtain ⟨original, _, rfl⟩ := List.mem_map.mp (List.mem_of_find?_eq_some found)
  dsimp only
  split
  · rename_i script _
    exact Or.inr ⟨script, rfl⟩
  · rename_i error _
    exact Or.inl ⟨error, rfl⟩

end Project

namespace Loader

variable {project : Project}

/-- How many files have no entry in the cache. -/
def remaining (project : Project) (loader : Loader) : ℕ :=
  project.names.countP fun filename => loader.cache filename = none

/-- The state of a loader whose history follows the rules. -/
structure Tracked (project : Project) (status : Text → Status) (loader : Loader) : Prop where
  history : History loader.log status
  cache : ∀ filename, loader.cache filename = (status filename).module
  /-- Module objects have been made, and each belongs to one file. -/
  bounded : ∀ filename module, loader.cache filename = some module → module < loader.nextRef
  separate : ∀ filename other module, loader.cache filename = some module →
    loader.cache other = some module → filename = other
  /-- The `exports` of a module is a value, and of a loaded one it is the value the
  load finished with. -/
  exported : ∀ filename module, loader.cache filename = some module →
    ∃ exports, loader.objects module exportsName = some (.data exports)
  stable : ∀ filename module exports, status filename = .loaded module exports →
    loader.objects module exportsName = some (.data exports)
  noAccessor : ∀ ref name getter, loader.objects ref name ≠ some (.accessor getter)
  globalRequire : loader.globalRequire = .data .require
  /-- Only files of the project have been loaded. -/
  known : ∀ filename module, .start filename module ∈ loader.log → filename ∈ project.names

/-- What may have happened to a loader, leaving the file `except` aside: files that
were in the cache have the status they had, and other module objects are new. -/
structure Advances (project : Project) (except : Option Text) (status : Text → Status)
    (before after : Loader) (reached : Text → Status) : Prop where
  tracked : Tracked project reached after
  nextRef : before.nextRef ≤ after.nextRef
  fresh : ∀ filename module, after.cache filename = some module →
    before.cache filename = some module ∨ before.nextRef ≤ module
  kept : ∀ filename, some filename ≠ except → status filename ≠ .absent →
    reached filename = status filename

namespace Advances

variable {except : Option Text} {status between reached : Text → Status}
variable {before middle after : Loader}

theorem refl (tracked : Tracked project status before) :
    Advances project except status before before status where
  tracked := tracked
  nextRef := Nat.le_refl _
  fresh _ _ := Or.inl
  kept _ _ _ := rfl

theorem trans (first : Advances project except status before middle between)
    (second : Advances project except between middle after reached) :
    Advances project except status before after reached where
  tracked := second.tracked
  nextRef := Nat.le_trans first.nextRef second.nextRef
  fresh filename module entry := by
    rcases second.fresh filename module entry with old | new
    · exact first.fresh filename module old
    · exact Or.inr (Nat.le_trans first.nextRef new)
  kept filename other present := by
    have same := first.kept filename other present
    rw [← same] at present ⊢
    exact second.kept filename other present

theorem weaken (advances : Advances project none status before after reached) :
    Advances project except status before after reached where
  tracked := advances.tracked
  nextRef := advances.nextRef
  fresh := advances.fresh
  kept filename _ := advances.kept filename (by simp)

/-- An absent file need not be left aside. -/
theorem strengthen {filename : Text}
    (advances : Advances project (some filename) status before after reached)
    (absent : status filename = .absent) :
    Advances project none status before after reached where
  tracked := advances.tracked
  nextRef := advances.nextRef
  fresh := advances.fresh
  kept other _ present := by
    apply advances.kept other _ present
    intro same
    rw [Option.some.inj same] at present
    exact present absent

/-- Files in the cache stay there, so the files that are left become fewer. -/
theorem remaining_le (advances : Advances project none status before after reached)
    (tracked : Tracked project status before) :
    after.remaining project ≤ before.remaining project := by
  apply List.countP_mono_left
  intro filename _ absent
  simp only [decide_eq_true_eq] at absent ⊢
  rw [advances.tracked.cache] at absent
  rw [tracked.cache]
  by_contra present
  have kept := advances.kept filename (by simp) fun gone => present (by rw [gone]; rfl)
  rw [kept] at absent
  exact present absent

end Advances

namespace Tracked

variable {status reached : Text → Status} {loader after : Loader}

/-- A change of the heap that spares the `exports` of the modules. -/
theorem heap (tracked : Tracked project status loader) (log : after.log = loader.log)
    (cache : after.cache = loader.cache)
    (globalRequire : after.globalRequire = loader.globalRequire)
    (nextRef : loader.nextRef ≤ after.nextRef)
    (exported : ∀ filename module, loader.cache filename = some module →
      ∃ exports, after.objects module exportsName = some (.data exports))
    (stable : ∀ filename module exports, status filename = .loaded module exports →
      after.objects module exportsName = some (.data exports))
    (noAccessor : ∀ ref name getter, after.objects ref name ≠ some (.accessor getter)) :
    Advances project none status loader after status where
  tracked :=
    { history := log ▸ tracked.history
      cache := cache ▸ tracked.cache
      bounded := by
        intro filename module entry
        rw [cache] at entry
        exact Nat.lt_of_lt_of_le (tracked.bounded filename module entry) nextRef
      separate := cache ▸ tracked.separate
      exported := cache ▸ exported
      stable := stable
      noAccessor := noAccessor
      globalRequire := globalRequire.trans tracked.globalRequire
      known := log ▸ tracked.known }
  nextRef := nextRef
  fresh _ _ entry := Or.inl (cache ▸ entry)
  kept _ _ _ := rfl

/-- A new object or function. -/
theorem allocate (tracked : Tracked project status loader) (closure : Option Closure) :
    Advances project none status loader (loader.allocate closure).2 status := by
  have old : ∀ filename module, loader.cache filename = some module →
      (loader.allocate closure).2.objects module = loader.objects module := by
    intro filename module entry
    have earlier := tracked.bounded filename module entry
    simp [Loader.allocate, Nat.ne_of_lt earlier]
  refine tracked.heap rfl rfl rfl (Nat.le_succ _) ?_ ?_ ?_
  · intro filename module entry
    rw [old filename module entry]
    exact tracked.exported filename module entry
  · intro filename module exports loaded
    have entry : loader.cache filename = some module := by rw [tracked.cache, loaded]; rfl
    rw [old filename module entry]
    exact tracked.stable filename module exports loaded
  · intro ref name getter
    by_cases new : ref = loader.nextRef
    · subst new
      simp [Loader.allocate]
    · simpa [Loader.allocate, new] using tracked.noAccessor ref name getter

theorem putProperty_noAccessor (tracked : Tracked project status loader) (ref : ℕ) (name : Text)
    (value : Value) (other : ℕ) (key : Text) (getter : Value) :
    (loader.putProperty ref name (.data value)).objects other key ≠ some (.accessor getter) := by
  by_cases here : other = ref
  · subst here
    by_cases same : key = name
    · subst same
      simp [putProperty]
    · simpa [putProperty, same] using tracked.noAccessor other key getter
  · simpa [putProperty, here] using tracked.noAccessor other key getter

/-- A property of an object that is no module. -/
theorem putOther (tracked : Tracked project status loader) {ref : ℕ}
    (noModule : ∀ filename, loader.cache filename ≠ some ref) (name : Text) (value : Value) :
    Advances project none status loader (loader.putProperty ref name (.data value)) status := by
  have same : ∀ filename module, loader.cache filename = some module →
      (loader.putProperty ref name (.data value)).objects module = loader.objects module := by
    intro filename module entry
    have different : module ≠ ref := fun equal => noModule filename (equal ▸ entry)
    simp [putProperty, different]
  refine tracked.heap rfl rfl rfl (Nat.le_refl _) ?_ ?_ ?_
  · intro filename module entry
    rw [same filename module entry]
    exact tracked.exported filename module entry
  · intro filename module exports loaded
    have entry : loader.cache filename = some module := by rw [tracked.cache, loaded]; rfl
    rw [same filename module entry]
    exact tracked.stable filename module exports loaded
  · exact tracked.putProperty_noAccessor ref name value

/-- The `exports` of a module that is being loaded. -/
theorem putExports (tracked : Tracked project status loader) {filename : Text} {module : ℕ}
    {entered : Bool} (opened : status filename = .opened module entered) (value : Value) :
    Advances project none status loader
      (loader.putProperty module exportsName (.data value)) status := by
  have own : loader.cache filename = some module := by rw [tracked.cache, opened]; rfl
  refine tracked.heap rfl rfl rfl (Nat.le_refl _) ?_ ?_ ?_
  · intro other held entry
    by_cases same : held = module
    · subst same
      exact ⟨value, by simp [putProperty]⟩
    · simpa [putProperty, same] using tracked.exported other held entry
  · intro other held exports loaded
    have entry : loader.cache other = some held := by rw [tracked.cache, loaded]; rfl
    have different : held ≠ module := by
      intro same
      subst same
      have equal := tracked.separate other filename held entry own
      rw [equal, opened] at loaded
      cases loaded
    simpa [putProperty, different] using tracked.stable other held exports loaded
  · exact tracked.putProperty_noAccessor module exportsName value

/-- An entry in the history that leaves the cache alone and is not the start of a
load. The status may change from one with a module object to another with the same
one. -/
theorem note (tracked : Tracked project status loader) {event : LoadEvent}
    {except : Option Text} (history : History (event :: loader.log) reached)
    (modules : ∀ filename, (reached filename).module = (status filename).module)
    (kept : ∀ filename, some filename ≠ except → reached filename = status filename)
    (stable : ∀ filename module exports, reached filename = .loaded module exports →
      loader.objects module exportsName = some (.data exports))
    (noStart : ∀ filename module, event ≠ .start filename module) :
    Advances project except status loader (loader.record event) reached where
  tracked :=
    { history := history
      cache := fun filename => (tracked.cache filename).trans (modules filename).symm
      bounded := tracked.bounded
      separate := tracked.separate
      exported := tracked.exported
      stable := stable
      noAccessor := tracked.noAccessor
      globalRequire := tracked.globalRequire
      known := by
        intro filename module member
        rcases List.mem_cons.mp member with new | old
        · exact absurd new.symm (noStart filename module)
        · exact tracked.known filename module old }
  nextRef := Nat.le_refl _
  fresh _ _ := Or.inl
  kept filename other _ := kept filename other

theorem resolve (tracked : Tracked project status loader) (owner current : Owner)
    (specifier base : Text) :
    Advances project none status loader
      (loader.record (.resolve owner current specifier base)) status :=
  tracked.note (.resolve owner current specifier base tracked.history) (fun _ => rfl)
    (fun _ _ => rfl) tracked.stable (by simp)

/-- An answer from the cache. -/
theorem hit (tracked : Tracked project status loader) {filename : Text} {module : ℕ}
    {exports : Value} (entry : loader.cache filename = some module)
    (read : loader.objects module exportsName = some (.data exports)) :
    Advances project none status loader
      (loader.record (.hit filename module exports)) status := by
  have history : History (.hit filename module exports :: loader.log) status := by
    rw [tracked.cache] at entry
    cases here : status filename with
    | absent =>
        rw [here] at entry
        cases entry
    | opened held entered =>
        rw [here] at entry
        obtain rfl : held = module := Option.some.inj entry
        exact .hitOpened exports tracked.history here
    | loaded held value =>
        rw [here] at entry
        obtain rfl : held = module := Option.some.inj entry
        have finished := tracked.stable filename held value here
        obtain rfl : value = exports := by simpa using finished.symm.trans read
        exact .hitLoaded tracked.history here
  exact tracked.note history (fun _ => rfl) (fun _ _ => rfl) tracked.stable (by simp)

/-- The module's function is called. -/
theorem enter (tracked : Tracked project status loader) {filename : Text} {module : ℕ}
    (opened : status filename = .opened module false) :
    Advances project (some filename) status loader (loader.record (.body filename))
      (Function.update status filename (.opened module true)) := by
  refine tracked.note (.body tracked.history opened) (fun other => ?_) (fun other different => ?_)
    (fun other held exports loaded => ?_) (by simp)
  · by_cases same : other = filename
    · subst same
      rw [Function.update_self, opened]
      rfl
    · rw [Function.update_of_ne same]
  · exact Function.update_of_ne (fun same => different (congrArg some same)) _ _
  · by_cases same : other = filename
    · subst same
      rw [Function.update_self] at loaded
      cases loaded
    · rw [Function.update_of_ne same] at loaded
      exact tracked.stable other held exports loaded

/-- The load ends with the value of `module.exports`. -/
theorem finish (tracked : Tracked project status loader) {filename : Text} {module : ℕ}
    {exports : Value} (opened : status filename = .opened module true)
    (read : loader.objects module exportsName = some (.data exports)) :
    Advances project (some filename) status loader (loader.record (.finish filename exports))
      (Function.update status filename (.loaded module exports)) := by
  refine tracked.note (.finish exports tracked.history opened) (fun other => ?_)
    (fun other different => ?_) (fun other held value loaded => ?_) (by simp)
  · by_cases same : other = filename
    · subst same
      rw [Function.update_self, opened]
      rfl
    · rw [Function.update_of_ne same]
  · exact Function.update_of_ne (fun same => different (congrArg some same)) _ _
  · by_cases same : other = filename
    · subst same
      rw [Function.update_self] at loaded
      obtain ⟨rfl, rfl⟩ := Status.loaded.inj loaded
      exact read
    · rw [Function.update_of_ne same] at loaded
      exact tracked.stable other held value loaded

/-- The load fails and the entry is erased. -/
theorem abandon (tracked : Tracked project status loader) {filename : Text} {module : ℕ}
    {entered : Bool} (opened : status filename = .opened module entered) :
    Advances project (some filename) status loader (loader.abandon filename)
      (Function.update status filename .absent) := by
  have before : ∀ other held, (loader.abandon filename).cache other = some held →
      loader.cache other = some held := by
    intro other held entry
    by_cases same : other = filename
    · subst same
      rw [abandon_cache_self] at entry
      cases entry
    · simpa [Loader.abandon, record, same] using entry
  exact
    { tracked :=
        { history := .fail tracked.history opened
          cache := by
            intro other
            by_cases same : other = filename
            · subst same
              rw [abandon_cache_self, Function.update_self]
              rfl
            · simpa [Loader.abandon, record, same] using tracked.cache other
          bounded := fun other held entry => tracked.bounded other held (before other held entry)
          separate := fun one two held first second =>
            tracked.separate one two held (before one held first) (before two held second)
          exported := fun other held entry =>
            tracked.exported other held (before other held entry)
          stable := by
            intro other held exports loaded
            by_cases same : other = filename
            · subst same
              rw [Function.update_self] at loaded
              cases loaded
            · rw [Function.update_of_ne same] at loaded
              exact tracked.stable other held exports loaded
          noAccessor := tracked.noAccessor
          globalRequire := tracked.globalRequire
          known := by
            intro other held member
            apply tracked.known other held
            simpa [Loader.abandon, record] using member }
      nextRef := Nat.le_refl _
      fresh := fun other held entry => Or.inl (before other held entry)
      kept := fun other different _ =>
        Function.update_of_ne (fun same => different (congrArg some same)) _ _ }

/-- A load starts: two new objects, the second of them in the cache. -/
theorem openModule (tracked : Tracked project status loader) {filename : Text}
    (absent : status filename = .absent) (known : filename ∈ project.names) :
    Advances project (some filename) status loader (loader.openModule filename)
      (Function.update status filename (.opened (loader.nextRef + 1) false)) := by
  have unused : ∀ other, loader.cache other ≠ some (loader.nextRef + 1) := by
    intro other entry
    have earlier := tracked.bounded other _ entry
    omega
  -- The heap with the two objects, before the cache changes.
  have exportsMade := tracked.allocate none
  have moduleMade := exportsMade.trans (exportsMade.tracked.allocate none)
  have made := moduleMade.trans
    (moduleMade.tracked.putOther unused exportsName (.object loader.nextRef))
  have entries : ∀ other held, (loader.openModule filename).cache other = some held →
      other = filename ∧ held = loader.nextRef + 1 ∨
        other ≠ filename ∧ loader.cache other = some held := by
    intro other held entry
    by_cases same : other = filename
    · subst same
      exact Or.inl ⟨rfl, by simpa [Loader.openModule, record] using entry.symm⟩
    · exact Or.inr ⟨same, by simpa [Loader.openModule, record, same] using entry⟩
  exact
    { tracked :=
        { history := .start _ tracked.history absent
          cache := by
            intro other
            by_cases same : other = filename
            · subst same
              simp [Loader.openModule, record, Status.module]
            · simpa [Loader.openModule, record, same] using tracked.cache other
          bounded := by
            intro other held entry
            rcases entries other held entry with ⟨-, rfl⟩ | ⟨-, old⟩
            · exact Nat.lt_succ_self _
            · exact made.tracked.bounded other held old
          separate := by
            intro one two held first second
            rcases entries one held first with ⟨rfl, rfl⟩ | ⟨-, oldFirst⟩ <;>
              rcases entries two _ second with ⟨rfl, new⟩ | ⟨-, oldSecond⟩
            · rfl
            · exact absurd oldSecond (unused two)
            · exact absurd (new ▸ oldFirst) (unused one)
            · exact tracked.separate one two held oldFirst oldSecond
          exported := by
            intro other held entry
            rcases entries other held entry with ⟨-, rfl⟩ | ⟨-, old⟩
            · exact ⟨.object loader.nextRef, by
                simp [Loader.openModule, record, putProperty, Loader.allocate]⟩
            · exact made.tracked.exported other held old
          stable := by
            intro other held exports loaded
            by_cases same : other = filename
            · subst same
              rw [Function.update_self] at loaded
              cases loaded
            · rw [Function.update_of_ne same] at loaded
              exact made.tracked.stable other held exports loaded
          noAccessor := made.tracked.noAccessor
          globalRequire := tracked.globalRequire
          known := by
            intro other held member
            rcases List.mem_cons.mp member with new | old
            · rw [(LoadEvent.start.inj new).1]
              exact known
            · exact tracked.known other held old }
      nextRef := made.nextRef
      fresh := by
        intro other held entry
        rcases entries other held entry with ⟨-, rfl⟩ | ⟨-, old⟩
        · exact Or.inr (Nat.le_succ _)
        · exact Or.inl old
      kept := fun other different _ =>
        Function.update_of_ne (fun same => different (congrArg some same)) _ _ }

/-- The directory stack plays no part. -/
theorem withDirStack (tracked : Tracked project status loader) (dirStack : List Text) :
    Advances project none status loader { loader with dirStack } status where
  tracked :=
    { history := tracked.history
      cache := tracked.cache
      bounded := tracked.bounded
      separate := tracked.separate
      exported := tracked.exported
      stable := tracked.stable
      noAccessor := tracked.noAccessor
      globalRequire := tracked.globalRequire
      known := tracked.known }
  nextRef := Nat.le_refl _
  fresh _ _ := Or.inl
  kept _ _ _ := rfl

end Tracked

/-! ## Scripts complete -/

/-- The run ended and the loader is in order. -/
def Completes (project : Project) (status : Text → Status) (before : Loader)
    (ended : Outcome × Loader) : Prop :=
  ended.1 ≠ .exhausted ∧ ∃ reached, Advances project none status before ended.2 reached

/-- Requires complete as long as at most `bound` files are left. -/
def RequiresComplete (project : Project) (bound : ℕ) (call : Caller) : Prop :=
  ∀ owner current specifier loader status, Tracked project status loader →
    loader.remaining project ≤ bound →
      Completes project status loader (call owner current .require [.text specifier] loader)

/-- The `exports` and `module` of running code: none for the entry script, and for a
module that is being loaded an object that is no module, and the module. -/
inductive Own (status : Text → Status) (loader : Loader) : Value → Value → Prop
  | entry : Own status loader .undefined .undefined
  | module {filename : Text} {exports module : ℕ}
      (opened : status filename = .opened module true) (made : exports < loader.nextRef)
      (noModule : ∀ other, loader.cache other ≠ some exports) :
      Own status loader (.object exports) (.object module)

theorem Own.advances {status reached : Text → Status} {before after : Loader}
    {exports module : Value} (own : Own status before exports module)
    (advances : Advances project none status before after reached) :
    Own reached after exports module := by
  cases own with
  | entry => exact .entry
  | @module filename exportsRef moduleRef opened made noModule =>
      have still : reached filename = .opened moduleRef true := by
        rw [advances.kept filename (by simp) (by simp [opened]), opened]
      apply Own.module still (Nat.lt_of_lt_of_le made advances.nextRef)
      intro other entry
      rcases advances.fresh other exportsRef entry with old | new
      · exact noModule other old
      · exact absurd made (Nat.not_lt_of_le new)

theorem Completes.trans {status between : Text → Status} {before middle : Loader}
    {ended : Outcome × Loader} (first : Advances project none status before middle between)
    (second : Completes project between middle ended) : Completes project status before ended := by
  obtain ⟨ends, reached, advances⟩ := second
  exact ⟨ends, reached, first.trans advances⟩

theorem completes_resume {status : Text → Status} {before : Loader} {ended : Outcome × Loader}
    {next : Except Value Value → Loader → Outcome × Loader}
    (first : Completes project status before ended)
    (rest : ∀ result after reached, Advances project none status before after reached →
      Completes project reached after (next result after)) :
    Completes project status before (resume ended next) := by
  obtain ⟨outcome, middle⟩ := ended
  obtain ⟨ends, reached, advances⟩ := first
  cases outcome with
  | ok value => exact Completes.trans advances (rest _ middle reached advances)
  | error error => exact Completes.trans advances (rest _ middle reached advances)
  | exhausted => exact absurd rfl ends

/-- Reading a property calls nothing when there are no accessors. -/
theorem completes_getProperty {status : Text → Status} {loader : Loader}
    (tracked : Tracked project status loader) (call : Caller) (owner current : Owner)
    (target : Value) (name : Text) :
    Completes project status loader (getProperty call owner current target name loader) := by
  have unchanged : Advances project none status loader loader status := .refl tracked
  unfold getProperty
  split
  · exact ⟨by simp, status, unchanged⟩
  · split
    · exact ⟨by simp, status, unchanged⟩
    · exact ⟨by simp, status, unchanged⟩
    · rename_i ref _ getter found
      exact absurd found (tracked.noAccessor ref name getter)
  · exact ⟨by simp, status, unchanged⟩

/-- Assigning to the own `exports` object. -/
theorem completes_setExports {status : Text → Status} {loader : Loader}
    (tracked : Tracked project status loader) {exports module : Value}
    (own : Own status loader exports module) (name : Text) (value : Value) :
    Completes project status loader (setProperty exports name value loader) := by
  cases own with
  | entry => exact ⟨by simp [setProperty], status, .refl tracked⟩
  | module opened made noModule =>
      unfold setProperty
      dsimp only
      split
      · rename_i getter found
        exact absurd found (tracked.noAccessor _ name getter)
      · exact ⟨by simp, status, tracked.putOther noModule name value⟩

/-- Assigning to the `exports` of the own module. -/
theorem completes_setModuleExports {status : Text → Status} {loader : Loader}
    (tracked : Tracked project status loader) {exports module : Value}
    (own : Own status loader exports module) (value : Value) :
    Completes project status loader (setProperty module exportsName value loader) := by
  cases own with
  | entry => exact ⟨by simp [setProperty], status, .refl tracked⟩
  | module opened made noModule =>
      unfold setProperty
      dsimp only
      split
      · rename_i getter found
        exact absurd found (tracked.noAccessor _ exportsName getter)
      · exact ⟨by simp, status, tracked.putExports opened value⟩

/-- A script completes when its requires do. -/
theorem completes_script {bound : ℕ} {call : Caller}
    (requires : RequiresComplete project bound call) (owner current : Owner) (script : Script)
    {status : Text → Status} {loader : Loader} {exports module : Value}
    (tracked : Tracked project status loader) (few : loader.remaining project ≤ bound)
    (own : Own status loader exports module) :
    Completes project status loader
      (runCode call owner current (script.toCode exports module) loader) := by
  induction script generalizing status loader with
  | done => exact ⟨by simp [Script.toCode, runCode], status, .refl tracked⟩
  | throw error => exact ⟨by simp [Script.toCode, runCode], status, .refl tracked⟩
  | require specifier next ih =>
      apply completes_resume (requires owner current specifier loader status tracked few)
      intro result after reached advances
      exact ih result advances.tracked (Nat.le_trans (advances.remaining_le tracked) few)
        (own.advances advances)
  | get target name next ih =>
      apply completes_resume (completes_getProperty tracked call owner current target name)
      intro result after reached advances
      exact ih result advances.tracked (Nat.le_trans (advances.remaining_le tracked) few)
        (own.advances advances)
  | create next ih =>
      have made := tracked.allocate none
      exact Completes.trans made (ih _ made.tracked
        (Nat.le_trans (made.remaining_le tracked) few) (own.advances made))
  | setExports name value next ih =>
      apply completes_resume (completes_setExports tracked own name value)
      intro result after reached advances
      cases result with
      | ok value =>
          exact ih advances.tracked (Nat.le_trans (advances.remaining_le tracked) few)
            (own.advances advances)
      | error error => exact ⟨by simp [runCode], reached, .refl advances.tracked⟩
  | setModuleExports value next ih =>
      apply completes_resume (completes_setModuleExports tracked own value)
      intro result after reached advances
      cases result with
      | ok value =>
          exact ih advances.tracked (Nat.le_trans (advances.remaining_le tracked) few)
            (own.advances advances)
      | error error => exact ⟨by simp [runCode], reached, .refl advances.tracked⟩

/-! ## Loads complete -/

/-- The load of a file ended and the loader is in order, leaving the file aside. -/
def LoadCompletes (project : Project) (except : Option Text) (status : Text → Status)
    (before : Loader) (ended : Loaded × Loader) : Prop :=
  ended.1 ≠ .exhausted ∧ ∃ reached, Advances project except status before ended.2 reached

theorem LoadCompletes.trans {except : Option Text} {status between : Text → Status}
    {before middle : Loader} {ended : Loaded × Loader}
    (first : Advances project except status before middle between)
    (second : LoadCompletes project except between middle ended) :
    LoadCompletes project except status before ended := by
  obtain ⟨ends, reached, advances⟩ := second
  exact ⟨ends, reached, first.trans advances⟩

section Stages

variable {status : Text → Status} {loader : Loader} {filename : Text} {module : ℕ}

theorem getProperty_data {ref : ℕ} {name : Text} {value : Value}
    (found : loader.objects ref name = some (.data value)) (call : Caller)
    (owner current : Owner) :
    getProperty call owner current (.object ref) name loader = (.ok value, loader) := by
  simp [getProperty, found]

theorem loadCompletes_abandon {entered : Bool} {result : Loaded}
    (tracked : Tracked project status loader)
    (opened : status filename = .opened module entered) (ends : result ≠ .exhausted) :
    LoadCompletes project (some filename) status loader (result, loader.abandon filename) :=
  ⟨ends, _, tracked.abandon opened⟩

theorem loadCompletes_readExports (tracked : Tracked project status loader)
    (opened : status filename = .opened module true) (call : Caller) (current : Owner) :
    LoadCompletes project (some filename) status loader
      (readExports call current filename module loader) := by
  have entry : loader.cache filename = some module := by rw [tracked.cache, opened]; rfl
  obtain ⟨exports, found⟩ := tracked.exported filename module entry
  rw [readExports, getProperty_data found]
  exact ⟨by simp, _, tracked.finish opened found⟩

/-- The body of a module completes when at most `bound` files are left behind it. -/
theorem loadCompletes_callWrapper {bound : ℕ} {inner : Caller}
    (requires : RequiresComplete project bound inner) (tracked : Tracked project status loader)
    (few : loader.remaining project ≤ bound)
    (opened : status filename = .opened module false) {exports wrapper : ℕ} {script : Script}
    (made : exports < loader.nextRef) (noModule : ∀ other, loader.cache other ≠ some exports)
    (closure : loader.functions wrapper = some ⟨.file filename, script.body⟩)
    (current : Owner) (requireValue : Value) :
    LoadCompletes project (some filename) status loader
      (callWrapper (callValue project.fileSystem inner) current filename exports module
        (.object wrapper) requireValue loader) := by
  let pushed := (loader.pushDir (dirname filename)).record (.body filename)
  have entered : Advances project (some filename) status loader pushed
      (Function.update status filename (.opened module true)) :=
    (tracked.withDirStack _).weaken.trans ((tracked.withDirStack _).tracked.enter opened)
  have running : Function.update status filename (.opened module true) filename =
      .opened module true := Function.update_self ..
  have body : Completes project (Function.update status filename (.opened module true)) pushed
      (runCode inner (.file filename) (.file filename)
        (script.toCode (.object exports) (.object module)) pushed) :=
    completes_script requires _ _ script entered.tracked few (.module running made noModule)
  have called : callValue project.fileSystem inner (.file filename) (.file filename)
      (.object wrapper)
      [.object exports, requireValue, .object module, .text filename, .text (dirname filename)]
      pushed = runCode inner (.file filename) (.file filename)
        (script.toCode (.object exports) (.object module)) pushed := by
    have found : pushed.functions wrapper = some ⟨.file filename, script.body⟩ := closure
    simp only [callValue, found]
    rfl
  apply LoadCompletes.trans entered
  obtain ⟨ends, reached, advances⟩ := body
  -- Nothing inside the body changed the status of the file.
  have still : reached filename = .opened module true := by
    rw [advances.kept filename (by simp) (by simp), running]
  unfold callWrapper
  dsimp only
  rw [show callValue project.fileSystem inner (.file filename) (.file filename)
    (.object wrapper) _ _ = _ from called]
  split
  · rename_i value after ended
    rw [ended] at advances
    have popped := advances.trans (advances.tracked.withDirStack after.dirStack.tail)
    exact LoadCompletes.trans popped.weaken
      (loadCompletes_readExports popped.tracked still _ current)
  · rename_i error after ended
    rw [ended] at advances
    have popped := advances.trans (advances.tracked.withDirStack after.dirStack.tail)
    exact LoadCompletes.trans popped.weaken
      (loadCompletes_abandon popped.tracked still (by simp))
  · rename_i after ended
    rw [ended] at ends
    exact absurd rfl ends

theorem loadCompletes_enterModule {bound : ℕ} {inner : Caller}
    (requires : RequiresComplete project bound inner) (tracked : Tracked project status loader)
    (few : loader.remaining project ≤ bound)
    (opened : status filename = .opened module false) {exports wrapper : ℕ} {script : Script}
    (made : exports < loader.nextRef) (noModule : ∀ other, loader.cache other ≠ some exports)
    (closure : loader.functions wrapper = some ⟨.file filename, script.body⟩)
    (current : Owner) :
    LoadCompletes project (some filename) status loader
      (enterModule (callValue project.fileSystem inner) current filename exports module
        (.object wrapper) loader) := by
  have present : readGlobalRequire (callValue project.fileSystem inner) (.file filename) current
      loader = (.ok .require, loader) := by
    simp [readGlobalRequire, tracked.globalRequire]
  rw [enterModule, present]
  exact loadCompletes_callWrapper requires tracked few opened made noModule closure current _

/-- A load takes its file off the files that are left. -/
theorem remaining_openModule (known : filename ∈ project.names)
    (absent : loader.cache filename = none) :
    (loader.openModule filename).remaining project + 1 ≤ loader.remaining project := by
  obtain ⟨front, back, split⟩ := List.append_of_mem known
  have fewer (names : List Text) :
      (names.countP fun name => (loader.openModule filename).cache name = none) ≤
        names.countP fun name => loader.cache name = none := by
    apply List.countP_mono_left
    intro name _ missing
    simp only [decide_eq_true_eq] at missing ⊢
    by_cases same : name = filename
    · rw [same]
      exact absent
    · simpa [openModule, record, same] using missing
  have here : (loader.openModule filename).cache filename ≠ none := by
    simp [openModule, record]
  unfold remaining
  rw [split, List.countP_append, List.countP_append, List.countP_cons_of_neg (by simpa using here),
    List.countP_cons_of_pos (by simpa using absent)]
  have frontFewer := fewer front
  have backFewer := fewer back
  omega

/-- A file that is not in the cache is loaded. -/
theorem loadCompletes_evaluateModule {bound : ℕ} {inner : Caller}
    (requires : RequiresComplete project bound inner) (tracked : Tracked project status loader)
    (few : loader.remaining project ≤ bound + 1) (absent : status filename = .absent)
    {source : Source} (read : project.fileSystem.readFileText filename = some source)
    (current : Owner) :
    LoadCompletes project (some filename) status loader
      (evaluateModule (callValue project.fileSystem inner) current filename loader.nextRef
        (loader.nextRef + 1) source (loader.openModule filename)) := by
  have known := Project.mem_names_of_read read
  have missing : loader.cache filename = none := by rw [tracked.cache, absent]; rfl
  have started := tracked.openModule absent known
  have opened : Function.update status filename (.opened (loader.nextRef + 1) false) filename =
      .opened (loader.nextRef + 1) false := Function.update_self ..
  apply LoadCompletes.trans started
  rcases Project.source_cases read with ⟨error, rfl⟩ | ⟨script, rfl⟩
  · exact loadCompletes_abandon started.tracked opened (by simp)
  · -- The script is one function expression, and its value that function.
    have made := started.tracked.allocate (some ⟨.file filename, script.body⟩)
    have fewer := remaining_openModule known missing
    have noModule : ∀ other, (loader.openModule filename).cache other ≠ some loader.nextRef := by
      intro other entry
      by_cases same : other = filename
      · subst same
        simp [openModule, record] at entry
      · have old : loader.cache other = some loader.nextRef := by
          simpa [openModule, record, same] using entry
        exact absurd (tracked.bounded other _ old) (Nat.lt_irrefl _)
    have entered := loadCompletes_enterModule requires made.tracked
      (Nat.le_trans (made.remaining_le started.tracked) (by omega)) opened
      (Nat.lt_of_lt_of_le (Nat.lt_add_of_pos_right (Nat.succ_pos 1)) made.nextRef) noModule
      (Function.update_self ..) current
    have callable : ((loader.openModule filename).allocate
        (some ⟨.file filename, script.body⟩)).2.isFunction
          ((loader.openModule filename).allocate (some ⟨.file filename, script.body⟩)).1 =
            true := by
      simp [isFunction, allocate]
    simp only [evaluateModule, Source.module, runCode, callable, if_true]
    exact LoadCompletes.trans made.weaken entered

end Stages

/-- The files that are not in the cache can be loaded. -/
def LoadsComplete (project : Project) (bound : ℕ) (call : Caller) : Prop :=
  ∀ current filename source loader status, Tracked project status loader →
    loader.remaining project ≤ bound → status filename = .absent →
    project.fileSystem.readFileText filename = some source →
      LoadCompletes project (some filename) status loader
        (evaluateModule call current filename loader.nextRef (loader.nextRef + 1) source
          (loader.openModule filename))

/-- A file without an entry is one of the files that are left. -/
theorem remaining_pos {status : Text → Status} {loader : Loader} {filename : Text}
    {source : Source} (tracked : Tracked project status loader)
    (absent : status filename = .absent)
    (read : project.fileSystem.readFileText filename = some source) :
    0 < loader.remaining project := by
  apply List.countP_pos_iff.mpr
  refine ⟨filename, Project.mem_names_of_read read, ?_⟩
  rw [tracked.cache, absent]
  rfl

theorem loadsComplete_zero (call : Caller) : LoadsComplete project 0 call := by
  intro current filename source loader status tracked few absent read
  have some := remaining_pos tracked absent read
  omega

theorem loadsComplete_succ {bound : ℕ} {inner : Caller}
    (requires : RequiresComplete project bound inner) :
    LoadsComplete project (bound + 1) (callValue project.fileSystem inner) := by
  intro current filename source loader status tracked few absent read
  exact loadCompletes_evaluateModule requires tracked few absent read current

theorem loadCompletes_loadLocalModule {bound : ℕ} {call : Caller}
    (loads : LoadsComplete project bound call) {status : Text → Status} {loader : Loader}
    (tracked : Tracked project status loader) (few : loader.remaining project ≤ bound)
    (owner current : Owner) (specifier : Text) :
    LoadCompletes project none status loader
      (loadLocalModule project.fileSystem call owner current specifier loader) := by
  have resolved := tracked.resolve owner current specifier loader.baseDir
  apply LoadCompletes.trans resolved
  unfold loadLocalModule
  dsimp only
  split
  · rename_i module entry
    obtain ⟨exports, found⟩ := resolved.tracked.exported _ module entry
    rw [cachedExports, getProperty_data found]
    exact ⟨by simp, status, resolved.tracked.hit entry found⟩
  · rename_i missing
    split
    · exact ⟨by simp, status, .refl resolved.tracked⟩
    · rename_i source read
      have absent : status (project.fileSystem.resolveLocalModulePath loader.baseDir specifier) =
          .absent := by
        rw [resolved.tracked.cache] at missing
        revert missing
        cases status (project.fileSystem.resolveLocalModulePath loader.baseDir specifier) <;>
          simp [Status.module]
      obtain ⟨ends, reached, advances⟩ :=
        loads current _ source _ status resolved.tracked few absent read
      exact ⟨ends, reached, advances.strengthen absent⟩

theorem requiresComplete_callValue {bound : ℕ} {call : Caller}
    (loads : LoadsComplete project bound call) :
    RequiresComplete project bound (callValue project.fileSystem call) := by
  intro owner current specifier loader status tracked few
  unfold callValue
  dsimp only
  unfold requireCallback
  dsimp only
  split_ifs
  · exact ⟨by simp, status, tracked.allocate none⟩
  · obtain ⟨ends, reached, advances⟩ :=
      loadCompletes_loadLocalModule loads tracked few owner current specifier
    split
    · rename_i ended
      rw [ended] at advances
      exact ⟨by simp, reached, advances⟩
    · rename_i ended
      rw [ended] at advances
      exact ⟨by simp, reached, advances⟩
    · rename_i ended
      rw [ended] at advances
      exact ⟨by simp, reached, advances⟩
    · rename_i ended
      rw [ended] at ends
      exact absurd rfl ends
  · exact ⟨by simp, status, .refl tracked⟩

/-- Two levels of calls for each file that is left, one for `require` and one for the
module's function, and one more for a `require` that finds nothing to load. -/
theorem requiresComplete_invoke (bound extra : ℕ) :
    RequiresComplete project bound (invoke project.fileSystem (2 * bound + 1 + extra)) := by
  induction bound with
  | zero =>
      have level : 2 * 0 + 1 + extra = extra + 1 := by omega
      rw [level]
      exact requiresComplete_callValue (loadsComplete_zero _)
  | succ bound ih =>
      have level : 2 * (bound + 1) + 1 + extra = 2 * bound + 1 + extra + 1 + 1 := by omega
      rw [level]
      exact requiresComplete_callValue (loadsComplete_succ ih)

theorem tracked_start (project : Project) (filename : Text) :
    Tracked project (fun _ => .absent) (start project.fileSystem filename) where
  history := .nil
  cache _ := rfl
  bounded _ _ entry := by cases entry
  separate _ _ _ entry := by cases entry
  exported _ _ entry := by cases entry
  stable _ _ _ loaded := by cases loaded
  noAccessor _ _ _ found := by cases found
  globalRequire := rfl
  known _ _ member := by cases member

/-- An entry script completes at every depth from twice the number of files on. -/
theorem completes_runEntry (project : Project) (filename : Text) (entry : Script) (extra : ℕ) :
    Completes project (fun _ => .absent) (start project.fileSystem filename)
      (runEntry project.fileSystem (2 * project.files.length + 1 + extra) filename
        entry.entryCode) := by
  have few : (start project.fileSystem filename).remaining project ≤ project.files.length := by
    calc (start project.fileSystem filename).remaining project
        ≤ project.names.length := List.countP_le_length
      _ = project.files.length := List.length_map _
  exact completes_script (requiresComplete_invoke project.files.length extra) .entry .entry entry
    (tracked_start project filename) few .entry

end Loader

end Kode.Modules
