/-
# Dependencies first

A module depends on the files that its script may require. A `require` can find a module in
the cache that is still being loaded, and then hands out exports that are not complete. This
happens only when the module depends on itself, directly or through others: the files that
are being loaded form a chain in which each was required by the one before, and the
`require` closes it.

So in a project without circular dependencies, every module that a `require` takes from the
cache has been loaded to its end, and the value is the one it finished with.

The files of a project are scripts that run in one go. A module that exports a function could
change its exports in a call of that function, after it was loaded.
-/

import Mathlib.Data.List.Pairwise
import Mathlib.Logic.Relation
import Kode.Modules.ModuleGraph

namespace Kode.Modules

open Kode.Library.PosixPath

/-- The script requires the specifier, if the results it gets lead there. -/
inductive Script.Requires : Script → Text → Prop
  | now (specifier : Text) (next : Except Value Value → Script) :
      Requires (.require specifier next) specifier
  | afterRequire {specifier other : Text} {next : Except Value Value → Script}
      (result : Except Value Value) (later : Requires (next result) specifier) :
      Requires (.require other next) specifier
  | afterGet {specifier : Text} {target : Value} {name : Text}
      {next : Except Value Value → Script} (result : Except Value Value)
      (later : Requires (next result) specifier) : Requires (.get target name next) specifier
  | afterCreate {specifier : Text} {next : Value → Script} (value : Value)
      (later : Requires (next value) specifier) : Requires (.create next) specifier
  | afterSetExports {specifier name : Text} {value : Value} {next : Script}
      (later : Requires next specifier) : Requires (.setExports name value next) specifier
  | afterSetModuleExports {specifier : Text} {value : Value} {next : Script}
      (later : Requires next specifier) : Requires (.setModuleExports value next) specifier

namespace Project

/-- The script in a file. -/
def scriptOf (project : Project) (filename : Text) : Option Script :=
  match project.files.find? fun file => file.1 = filename with
  | some (_, .ok script) => some script
  | _ => none

/-- The script of the first file may require the second. -/
def DependsOn (project : Project) (filename other : Text) : Prop :=
  ∃ script specifier, project.scriptOf filename = some script ∧ script.Requires specifier ∧
    isLocalSpecifier specifier = true ∧
    project.fileSystem.resolveLocalModulePath (dirname filename) specifier = other

/-- What the loader reads is a syntax error or the text of the script. -/
theorem source_of_read {project : Project} {filename : Text} {source : Source}
    (read : project.fileSystem.readFileText filename = some source) :
    (∃ error, source = .invalid error) ∨
      ∃ script, project.scriptOf filename = some script ∧ source = .module script.body := by
  obtain ⟨file, found, rfl⟩ := Option.map_eq_some_iff.mp read
  rw [fileSystem, List.find?_map] at found
  obtain ⟨⟨name, content⟩, original, rfl⟩ := Option.map_eq_some_iff.mp found
  cases content with
  | error error => exact Or.inl ⟨error, rfl⟩
  | ok script =>
      right
      refine ⟨script, ?_, rfl⟩
      have same : (project.files.find? fun file => file.1 = filename) = some (name, .ok script) :=
        original
      rw [scriptOf, same]

end Project

/-- What is required is a dependency of the innermost file that is being loaded. -/
def Needs (project : Project) (stack : List Text) (filename : Text) : Prop :=
  ∀ inner ∈ stack.head?, project.DependsOn inner filename

/-- The histories in which loads are nested and each is required by the one around it, with
the files that are being loaded at their end, innermost first. -/
inductive Nested (project : Project) : List Text → List LoadEvent → Prop
  | nil : Nested project [] []
  | resolve {stack : List Text} {log : List LoadEvent} (owner current : Owner)
      (specifier base : Text) (prior : Nested project stack log) :
      Nested project stack (.resolve owner current specifier base :: log)
  | hit {stack : List Text} {log : List LoadEvent} {filename : Text} (module : ℕ)
      (exports : Value) (prior : Nested project stack log)
      (needed : Needs project stack filename) :
      Nested project stack (.hit filename module exports :: log)
  | start {stack : List Text} {log : List LoadEvent} {filename : Text} (module : ℕ)
      (prior : Nested project stack log) (needed : Needs project stack filename) :
      Nested project (filename :: stack) (.start filename module :: log)
  | body {stack : List Text} {log : List LoadEvent} {filename : Text}
      (prior : Nested project (filename :: stack) log) :
      Nested project (filename :: stack) (.body filename :: log)
  | fail {stack : List Text} {log : List LoadEvent} {filename : Text}
      (prior : Nested project (filename :: stack) log) :
      Nested project stack (.fail filename :: log)
  | finish {stack : List Text} {log : List LoadEvent} {filename : Text} (exports : Value)
      (prior : Nested project (filename :: stack) log) :
      Nested project stack (.finish filename exports :: log)

namespace Nested

variable {project : Project} {stack : List Text} {log : List LoadEvent}

/-- What came earlier was nested too. -/
theorem suffix {newer older : List LoadEvent} (nested : Nested project stack (newer ++ older)) :
    ∃ earlier, Nested project earlier older := by
  induction newer generalizing stack with
  | nil => exact ⟨stack, nested⟩
  | cons event newer ih =>
      cases nested with
      | resolve owner current specifier base prior => exact ih prior
      | hit module exports prior needed => exact ih prior
      | start module prior needed => exact ih prior
      | body prior => exact ih prior
      | fail prior => exact ih prior
      | finish exports prior => exact ih prior

/-- Of the files that are being loaded, the outer ones depend on the inner ones. -/
theorem pairwise (nested : Nested project stack log) :
    stack.Pairwise fun inner outer => Relation.TransGen project.DependsOn outer inner := by
  induction nested with
  | nil => exact .nil
  | resolve owner current specifier base prior ih => exact ih
  | hit module exports prior needed ih => exact ih
  | @start stack log filename module prior needed ih =>
      refine .cons (fun outer member => ?_) ih
      cases stack with
      | nil => cases member
      | cons inner rest =>
          have last : project.DependsOn inner filename := needed inner rfl
          rcases List.mem_cons.mp member with rfl | further
          · exact .single last
          · exact .tail (List.rel_of_pairwise_cons ih further) last
  | body prior ih => exact ih
  | fail prior ih => exact ih.of_cons
  | finish exports prior ih => exact ih.of_cons

/-- A file whose load has begun and not ended is one of those that are being loaded. -/
theorem mem_of_opened (nested : Nested project stack log) {status : Text → Status}
    (history : History log status) {filename : Text} {module : ℕ} {entered : Bool}
    (opened : status filename = .opened module entered) : filename ∈ stack := by
  induction nested generalizing status with
  | nil =>
      cases history
      cases opened
  | resolve owner current specifier base prior ih =>
      cases history with
      | resolve _ _ _ _ before => exact ih before opened
  | hit module exports prior needed ih =>
      cases history with
      | hitOpened _ before _ => exact ih before opened
      | hitLoaded before _ => exact ih before opened
  | @start stack log file module prior needed ih =>
      cases history with
      | start _ before _ =>
          by_cases same : filename = file
          · exact same ▸ List.mem_cons_self ..
          · rw [Function.update_of_ne same] at opened
            exact List.mem_cons_of_mem _ (ih before opened)
  | @body stack log file prior ih =>
      cases history with
      | body before _ =>
          by_cases same : filename = file
          · exact same ▸ List.mem_cons_self ..
          · rw [Function.update_of_ne same] at opened
            exact ih before opened
  | @fail stack log file prior ih =>
      cases history with
      | fail before _ =>
          by_cases same : filename = file
          · rw [same, Function.update_self] at opened
            cases opened
          · rw [Function.update_of_ne same] at opened
            exact List.mem_of_ne_of_mem same (ih before opened)
  | @finish stack log file exports prior ih =>
      cases history with
      | finish _ before _ =>
          by_cases same : filename = file
          · rw [same, Function.update_self] at opened
            cases opened
          · rw [Function.update_of_ne same] at opened
            exact List.mem_of_ne_of_mem same (ih before opened)

/-- Of two files that are being loaded one depends on the other. -/
theorem related (nested : Nested project stack log) {filename other : Text}
    (member : filename ∈ stack) (otherMember : other ∈ stack) (distinct : filename ≠ other) :
    Relation.TransGen project.DependsOn filename other ∨
      Relation.TransGen project.DependsOn other filename := by
  have either : stack.Pairwise fun inner outer =>
      Relation.TransGen project.DependsOn inner outer ∨
        Relation.TransGen project.DependsOn outer inner := nested.pairwise.imp Or.inr
  have : Std.Symm fun inner outer => Relation.TransGen project.DependsOn inner outer ∨
      Relation.TransGen project.DependsOn outer inner := ⟨fun _ _ => Or.symm⟩
  exact either.forall member otherMember distinct

/-- What is required while it is being loaded depends on itself. -/
theorem cyclic (nested : Nested project stack log) {filename : Text} (member : filename ∈ stack)
    (needed : Needs project stack filename) :
    Relation.TransGen project.DependsOn filename filename := by
  cases stack with
  | nil => cases member
  | cons inner rest =>
      have last : project.DependsOn inner filename := needed inner rfl
      rcases List.mem_cons.mp member with rfl | outer
      · exact .single last
      · exact .tail (List.rel_of_pairwise_cons nested.pairwise outer) last

end Nested

/-- An update to another status has not made a file loaded. -/
theorem Status.loaded_of_update {status : Text → Status} {filename file : Text} {other : Status}
    {module : ℕ} {exports : Value}
    (loaded : Function.update status file other filename = .loaded module exports)
    (distinct : other ≠ .loaded module exports) : status filename = .loaded module exports := by
  by_cases same : filename = file
  · rw [same, Function.update_self] at loaded
    exact absurd loaded distinct
  · rwa [Function.update_of_ne same] at loaded

/-- A loaded file has finished with its value. -/
theorem History.finish_mem_of_loaded {log : List LoadEvent} {status : Text → Status}
    (history : History log status) {filename : Text} {module : ℕ} {exports : Value}
    (loaded : status filename = .loaded module exports) : .finish filename exports ∈ log := by
  induction history with
  | nil => cases loaded
  | resolve owner current specifier base prior ih => exact List.mem_cons_of_mem _ (ih loaded)
  | hitOpened exports prior here ih => exact List.mem_cons_of_mem _ (ih loaded)
  | hitLoaded prior here ih => exact List.mem_cons_of_mem _ (ih loaded)
  | start module prior here ih =>
      exact List.mem_cons_of_mem _ (ih (Status.loaded_of_update loaded nofun))
  | body prior here ih =>
      exact List.mem_cons_of_mem _ (ih (Status.loaded_of_update loaded nofun))
  | fail prior here ih =>
      exact List.mem_cons_of_mem _ (ih (Status.loaded_of_update loaded nofun))
  | @finish log status file other value prior here ih =>
      by_cases same : Status.loaded other value = .loaded module exports
      · obtain ⟨-, rfl⟩ := Status.loaded.inj same
        by_cases last : filename = file
        · exact last ▸ List.mem_cons_self ..
        · rw [Function.update_of_ne last] at loaded
          exact List.mem_cons_of_mem _ (ih loaded)
      · exact List.mem_cons_of_mem _ (ih (Status.loaded_of_update loaded same))

/-! ## The loader keeps the order -/

namespace Loader

variable {project : Project} {stack entered : List Text} {loader : Loader}

/-- A loader in a run of scripts: loads are nested, the directories of those whose body has
been entered are on the stack, and there are no accessors. -/
structure InOrder (project : Project) (stack entered : List Text) (loader : Loader) : Prop where
  nested : Nested project stack loader.log
  dirs : loader.dirStack = entered.map dirname
  noAccessor : ∀ ref name getter, loader.objects ref name ≠ some (.accessor getter)
  globalRequire : loader.globalRequire = .data .require

namespace InOrder

/-- Only the history has changed. -/
theorem note {event : LoadEvent} {after : List Text}
    (inOrder : InOrder project stack entered loader)
    (nested : Nested project after (event :: loader.log)) :
    InOrder project after entered (loader.record event) where
  nested := nested
  dirs := inOrder.dirs
  noAccessor := inOrder.noAccessor
  globalRequire := inOrder.globalRequire

theorem allocate (inOrder : InOrder project stack entered loader) (closure : Option Closure) :
    InOrder project stack entered (loader.allocate closure).2 where
  nested := inOrder.nested
  dirs := inOrder.dirs
  noAccessor ref name getter := by
    by_cases fresh : ref = loader.nextRef
    · simp [Loader.allocate, fresh]
    · simpa [Loader.allocate, fresh] using inOrder.noAccessor ref name getter
  globalRequire := inOrder.globalRequire

theorem putProperty (inOrder : InOrder project stack entered loader) (ref : ℕ) (name : Text)
    (value : Value) :
    InOrder project stack entered (loader.putProperty ref name (.data value)) where
  nested := inOrder.nested
  dirs := inOrder.dirs
  noAccessor other otherName getter := by
    have before := inOrder.noAccessor other otherName getter
    by_cases here : other = ref
    · subst here
      by_cases same : otherName = name <;> simp [Loader.putProperty, same, before]
    · simpa [Loader.putProperty, here] using before
  globalRequire := inOrder.globalRequire

/-- The base directory is that of the innermost file that has been entered. -/
theorem baseDir {inner : Text} {rest : List Text}
    (inOrder : InOrder project stack (inner :: rest) loader) : loader.baseDir = dirname inner := by
  rw [Loader.baseDir, inOrder.dirs]
  rfl

end InOrder

/-- The run ended in order, if it ended. -/
def Follows (project : Project) (stack : List Text) (ended : Outcome × Loader) : Prop :=
  ended.1 = .exhausted ∨ InOrder project stack stack ended.2

/-- The same of a load. -/
def LoadFollows (project : Project) (stack : List Text) (ended : Loaded × Loader) : Prop :=
  ended.1 = .exhausted ∨ InOrder project stack stack ended.2

/-- The innermost script requires the specifier. -/
def Permits (project : Project) (stack : List Text) (specifier : Text) : Prop :=
  ∀ inner ∈ stack.head?, isLocalSpecifier specifier = true →
    project.DependsOn inner
      (project.fileSystem.resolveLocalModulePath (dirname inner) specifier)

/-- What scripts require is loaded in order. -/
def RequiresFollow (project : Project) (call : Caller) : Prop :=
  ∀ owner current specifier stack loader, InOrder project stack stack loader →
    Permits project stack specifier →
      Follows project stack (call owner current .require [.text specifier] loader)

theorem follows_resume {ended : Outcome × Loader}
    {next : Except Value Value → Loader → Outcome × Loader}
    (first : Follows project stack ended)
    (rest : ∀ result after, InOrder project stack stack after →
      Follows project stack (next result after)) : Follows project stack (resume ended next) := by
  obtain ⟨outcome, after⟩ := ended
  cases outcome with
  | ok value => exact rest _ after (first.resolve_left nofun)
  | error error => exact rest _ after (first.resolve_left nofun)
  | exhausted => exact Or.inl rfl

theorem follows_getProperty (inOrder : InOrder project stack stack loader) (call : Caller)
    (owner current : Owner) (target : Value) (name : Text) :
    Follows project stack (getProperty call owner current target name loader) := by
  unfold getProperty
  split
  · exact Or.inr inOrder
  · split
    · exact Or.inr inOrder
    · exact Or.inr inOrder
    · rename_i ref _ getter found
      exact absurd found (inOrder.noAccessor ref name getter)
  · exact Or.inr inOrder

theorem follows_setProperty (inOrder : InOrder project stack stack loader) (target : Value)
    (name : Text) (value : Value) :
    Follows project stack (setProperty target name value loader) := by
  unfold setProperty
  split
  · exact Or.inr inOrder
  · split
    · exact Or.inr inOrder
    · exact Or.inr (inOrder.putProperty _ _ _)
  · exact Or.inr inOrder

/-- A script that may only require what it is permitted keeps the order. -/
theorem follows_script {call : Caller} (requires : RequiresFollow project call)
    (owner current : Owner) (script : Script) {exports module : Value}
    (inOrder : InOrder project stack stack loader)
    (permits : ∀ specifier, script.Requires specifier → Permits project stack specifier) :
    Follows project stack (runCode call owner current (script.toCode exports module) loader) := by
  induction script generalizing loader with
  | done => exact Or.inr inOrder
  | throw error => exact Or.inr inOrder
  | require specifier next ih =>
      apply follows_resume (requires owner current specifier stack loader inOrder
        (permits specifier (.now specifier next)))
      intro result after inOrder
      exact ih result inOrder fun specifier later => permits specifier (.afterRequire result later)
  | get target name next ih =>
      apply follows_resume (follows_getProperty inOrder call owner current target name)
      intro result after inOrder
      exact ih result inOrder fun specifier later => permits specifier (.afterGet result later)
  | create next ih =>
      exact ih _ (inOrder.allocate none) fun specifier later =>
        permits specifier (.afterCreate _ later)
  | setExports name value next ih =>
      apply follows_resume (follows_setProperty inOrder exports name value)
      intro result after inOrder
      cases result with
      | ok value =>
          exact ih inOrder fun specifier later => permits specifier (.afterSetExports later)
      | error error => exact Or.inr inOrder
  | setModuleExports value next ih =>
      apply follows_resume (follows_setProperty inOrder module exportsName value)
      intro result after inOrder
      cases result with
      | ok value =>
          exact ih inOrder fun specifier later => permits specifier (.afterSetModuleExports later)
      | error error => exact Or.inr inOrder

/-! ## Loads -/

variable {filename : Text}

theorem loadFollows_abandon (inOrder : InOrder project (filename :: stack) stack loader)
    (result : Loaded) : LoadFollows project stack (result, loader.abandon filename) :=
  have still : InOrder project (filename :: stack) stack
      { loader with cache := Function.update loader.cache filename none } :=
    ⟨inOrder.nested, inOrder.dirs, inOrder.noAccessor, inOrder.globalRequire⟩
  Or.inr (still.note (.fail inOrder.nested))

theorem loadFollows_readExports (inOrder : InOrder project (filename :: stack) stack loader)
    (call : Caller) (current : Owner) (module : ℕ) :
    LoadFollows project stack (readExports call current filename module loader) := by
  unfold readExports getProperty
  dsimp only
  cases found : loader.objects module exportsName with
  | none => exact Or.inr (inOrder.note (.finish _ inOrder.nested))
  | some property =>
      cases property with
      | data value => exact Or.inr (inOrder.note (.finish _ inOrder.nested))
      | accessor getter => exact absurd found (inOrder.noAccessor module exportsName getter)

/-- The directory of the entered file is taken off the stack. -/
theorem InOrder.popDir (inOrder : InOrder project stack (filename :: entered) loader) :
    InOrder project stack entered loader.popDir where
  nested := inOrder.nested
  dirs := by rw [Loader.popDir, inOrder.dirs]; rfl
  noAccessor := inOrder.noAccessor
  globalRequire := inOrder.globalRequire

theorem InOrder.pushDir (inOrder : InOrder project stack entered loader) (filename : Text) :
    InOrder project stack (filename :: entered) (loader.pushDir (dirname filename)) where
  nested := inOrder.nested
  dirs := by rw [Loader.pushDir, inOrder.dirs]; rfl
  noAccessor := inOrder.noAccessor
  globalRequire := inOrder.globalRequire

/-- Called with its arguments, the function of a module runs the script of its file. -/
def BodiesFollow (project : Project) (call : Caller) : Prop :=
  ∀ filename stack script wrapper exports module requireValue loader,
    project.scriptOf filename = some script →
    loader.functions wrapper = some ⟨.file filename, script.body⟩ →
    InOrder project (filename :: stack) (filename :: stack) loader →
      Follows project (filename :: stack) (call (.file filename) (.file filename)
        (.object wrapper) [.object exports, requireValue, .object module, .text filename,
          .text (dirname filename)] loader)

theorem bodiesFollow_callValue {call : Caller} (requires : RequiresFollow project call) :
    BodiesFollow project (callValue project.fileSystem call) := by
  intro filename stack script wrapper exports module requireValue loader file closure inOrder
  simp only [callValue, closure]
  refine follows_script requires _ _ script inOrder fun specifier required => ?_
  intro inner innermost isLocal
  obtain rfl := Option.some.inj innermost
  exact ⟨script, specifier, file, required, isLocal, rfl⟩

theorem loadFollows_callWrapper {call : Caller} (bodies : BodiesFollow project call)
    {script : Script} (file : project.scriptOf filename = some script)
    {wrapper : ℕ} (closure : loader.functions wrapper = some ⟨.file filename, script.body⟩)
    (inOrder : InOrder project (filename :: stack) stack loader) (current : Owner)
    (exports module : ℕ) (requireValue : Value) :
    LoadFollows project stack (callWrapper call current filename exports module (.object wrapper)
      requireValue loader) := by
  have pushed := (inOrder.pushDir filename).note (.body inOrder.nested)
  have found : ((loader.pushDir (dirname filename)).record (.body filename)).functions wrapper =
      some ⟨.file filename, script.body⟩ := closure
  have ran := bodies filename stack script wrapper exports module requireValue _ file found pushed
  unfold callWrapper
  dsimp only
  split
  · rename_i value after ended
    rw [ended] at ran
    exact loadFollows_readExports (ran.resolve_left nofun).popDir call current module
  · rename_i error after ended
    rw [ended] at ran
    exact loadFollows_abandon (ran.resolve_left nofun).popDir _
  · exact Or.inl rfl

theorem loadFollows_enterModule {call : Caller} (bodies : BodiesFollow project call)
    {script : Script} (file : project.scriptOf filename = some script)
    {wrapper : ℕ} (closure : loader.functions wrapper = some ⟨.file filename, script.body⟩)
    (inOrder : InOrder project (filename :: stack) stack loader) (current : Owner)
    (exports module : ℕ) :
    LoadFollows project stack (enterModule call current filename exports module (.object wrapper)
      loader) := by
  have present : readGlobalRequire call (.file filename) current loader =
      (.ok .require, loader) := by
    simp [readGlobalRequire, inOrder.globalRequire]
  rw [enterModule, present]
  exact loadFollows_callWrapper bodies file closure inOrder current exports module _

/-- A file that the innermost script needs is opened. -/
theorem InOrder.openModule (inOrder : InOrder project stack stack loader)
    (needed : Needs project stack filename) :
    InOrder project (filename :: stack) stack (loader.openModule filename) :=
  have made := ((inOrder.allocate none).allocate none).putProperty (loader.nextRef + 1) exportsName
    (.object loader.nextRef)
  ⟨.start _ inOrder.nested needed, made.dirs, made.noAccessor, made.globalRequire⟩

theorem loadFollows_evaluateModule {call : Caller} (bodies : BodiesFollow project call)
    {source : Source} (read : project.fileSystem.readFileText filename = some source)
    (inOrder : InOrder project (filename :: stack) stack loader) (current : Owner)
    (exports module : ℕ) :
    LoadFollows project stack
      (evaluateModule call current filename exports module source loader) := by
  rcases Project.source_of_read read with ⟨error, rfl⟩ | ⟨script, file, rfl⟩
  · exact loadFollows_abandon inOrder _
  · -- The text is one function expression, and its value that function.
    have callable : (loader.allocate (some ⟨.file filename, script.body⟩)).2.isFunction
        (loader.allocate (some ⟨.file filename, script.body⟩)).1 = true := by
      simp [isFunction, Loader.allocate]
    simp only [evaluateModule, Source.module, runCode, callable, if_true]
    exact loadFollows_enterModule bodies file (Function.update_self ..) (inOrder.allocate _) current
      exports module

/-- A load that the innermost script needs. -/
theorem loadFollows_loadLocalModule {call : Caller} (bodies : BodiesFollow project call)
    (inOrder : InOrder project stack stack loader) (owner current : Owner) (specifier : Text)
    (needed : Needs project stack
      (project.fileSystem.resolveLocalModulePath loader.baseDir specifier)) :
    LoadFollows project stack
      (loadLocalModule project.fileSystem call owner current specifier loader) := by
  have resolved := inOrder.note (.resolve owner current specifier loader.baseDir inOrder.nested)
  unfold loadLocalModule
  dsimp only
  split
  · rename_i module entry
    unfold cachedExports getProperty
    dsimp only
    cases found : (loader.record (.resolve owner current specifier loader.baseDir)).objects module
        exportsName with
    | none => exact Or.inr (resolved.note (.hit _ _ resolved.nested needed))
    | some property =>
        cases property with
        | data value => exact Or.inr (resolved.note (.hit _ _ resolved.nested needed))
        | accessor getter => exact absurd found (resolved.noAccessor module exportsName getter)
  · split
    · exact Or.inr resolved
    · rename_i source read
      exact loadFollows_evaluateModule bodies read (resolved.openModule needed) current _ _

theorem requiresFollow_callValue {call : Caller} (bodies : BodiesFollow project call) :
    RequiresFollow project (callValue project.fileSystem call) := by
  intro owner current specifier stack loader inOrder permits
  simp only [callValue, requireCallback]
  split_ifs with builtin isLocal
  · exact Or.inr (inOrder.allocate none)
  · have needed : Needs project stack
        (project.fileSystem.resolveLocalModulePath loader.baseDir specifier) := by
      intro inner innermost
      cases stack with
      | nil => cases innermost
      | cons first rest =>
          obtain rfl := Option.some.inj innermost
          rw [inOrder.baseDir]
          exact permits first rfl isLocal
    have loads := loadFollows_loadLocalModule bodies inOrder owner current specifier needed
    rcases ended : loadLocalModule project.fileSystem call owner current specifier loader with
      ⟨loaded, after⟩
    rw [ended] at loads
    cases loaded with
    | value exports => exact Or.inr (loads.resolve_left fun absurd => by cases absurd)
    | threw error => exact Or.inr (loads.resolve_left fun absurd => by cases absurd)
    | nothing => exact Or.inr (loads.resolve_left fun absurd => by cases absurd)
    | exhausted => exact Or.inl rfl
  · exact Or.inr inOrder

/-- At every depth. -/
theorem follow_invoke (project : Project) (depth : ℕ) :
    RequiresFollow project (invoke project.fileSystem depth) ∧
      BodiesFollow project (invoke project.fileSystem depth) := by
  induction depth with
  | zero => exact ⟨fun _ _ _ _ _ _ _ => Or.inl rfl, fun _ _ _ _ _ _ _ _ _ _ _ => Or.inl rfl⟩
  | succ depth ih => exact ⟨requiresFollow_callValue ih.2, bodiesFollow_callValue ih.1⟩

theorem inOrder_start (project : Project) (filename : Text) :
    InOrder project [] [] (start project.fileSystem filename) where
  nested := .nil
  dirs := rfl
  noAccessor _ _ _ found := by cases found
  globalRequire := rfl

end Loader

/-! ## Whole runs -/

namespace Project

theorem nested_run (project : Project) (filename : Text) (entry : Script) :
    Nested project [] (project.run filename entry).2.log := by
  have ran : Loader.Follows project [] (project.run filename entry) :=
    Loader.follows_script (Loader.follow_invoke project project.enoughDepth).1 .entry .entry entry
      (Loader.inOrder_start project filename) fun _ _ _ innermost => by cases innermost
  exact (ran.resolve_left (project.run_completes filename entry).1).nested

/-- Whenever a `require` takes a module from the cache, its load has finished with the value
that is handed out, or the module depends on itself. And of two files that are being loaded
at the same time, one depends on the other. -/
theorem loads_follow_dependencies (project : Project) (filename : Text) (entry : Script)
    {newer older : List LoadEvent} (log : (project.run filename entry).2.log = newer ++ older) :
    (∀ file module exports earlier, older = .hit file module exports :: earlier →
      .finish file exports ∈ earlier ∨ Relation.TransGen project.DependsOn file file) ∧
    ∀ file other, InProgress older file → InProgress older other → file ≠ other →
      Relation.TransGen project.DependsOn file other ∨
        Relation.TransGen project.DependsOn other file := by
  have nested := project.nested_run filename entry
  obtain ⟨⟨status, history⟩, -⟩ := project.run_history filename entry
  rw [log] at nested history
  obtain ⟨stack, nested⟩ := nested.suffix
  obtain ⟨earlier, history⟩ := history.suffix
  constructor
  · rintro file module exports earlier rfl
    cases nested with
    | hit _ _ prior needed =>
        cases history with
        | hitOpened _ before opened =>
            exact Or.inr (prior.cyclic (prior.mem_of_opened before opened) needed)
        | hitLoaded before loaded => exact Or.inl (before.finish_mem_of_loaded loaded)
  · intro file other loading otherLoading distinct
    obtain ⟨_, _, opened⟩ := history.opened_of_inProgress loading
    obtain ⟨_, _, otherOpened⟩ := history.opened_of_inProgress otherLoading
    exact nested.related (nested.mem_of_opened history opened)
      (nested.mem_of_opened history otherOpened) distinct

/-- Two files require a third. -/
def diamond : Project where
  files :=
    [("/a.js".toList, .ok (.require "./b".toList fun _ => .require "./c".toList fun _ => .done)),
      ("/b.js".toList, .ok (.require "./d".toList fun _ => .done)),
      ("/c.js".toList, .ok (.require "./d".toList fun _ => .done)),
      ("/d.js".toList, .ok .done)]
  currentDirectory := "/".toList

-- When `c` requires `d`, the load that `b` required has finished.
theorem loads_follow_dependencies_diamond :
    ∃ newer earlier, (diamond.run "/app.js".toList (.require "./a".toList fun _ => .done)).2.log =
        newer ++ .hit "/d.js".toList 7 (.object 6) :: earlier ∧
      .finish "/d.js".toList (.object 6) ∈ earlier := by
  have log : (diamond.run "/app.js".toList (.require "./a".toList fun _ => .done)).2.log =
      (diamond.run "/app.js".toList (.require "./a".toList fun _ => .done)).2.log.take 2 ++
        .hit "/d.js".toList 7 (.object 6) ::
          (diamond.run "/app.js".toList (.require "./a".toList fun _ => .done)).2.log.drop 3 := by
    decide
  have acyclic : ¬ Relation.TransGen diamond.DependsOn "/d.js".toList "/d.js".toList := by
    intro cyclic
    obtain ⟨other, ⟨script, specifier, file, required, -⟩, -⟩ :=
      Relation.TransGen.head'_iff.mp cyclic
    obtain rfl : Script.done = script := Option.some.inj file
    cases required
  exact ⟨_, _, log, ((loads_follow_dependencies diamond _ _ log).1 _ _ _ _ rfl).resolve_right
    acyclic⟩

end Project

end Kode.Modules
