/-
# Many operations at once

`uv_queue_work` runs `workCallback` on a thread of the pool, so the operations of a script
overlap: between two system calls of one of them come system calls of the others. Here the
callback is cut into these calls, and the pool takes any step of any operation. Run alone,
the steps are the callback.

A read that overlaps a write to its file may find the file emptied. A script that waits for
the promise of a write before it reads finds what it wrote, whatever operations on other
files are under way. And every promise settles once, as no operation waits for another, unless
the process ends: a completion may end it where it makes a string or where it locks V8.

The content of a file is read in one step and written in one step. Only overlapping
operations on one file could tell, and nothing is said about them.
-/

import Kode.Filesystem.RoundTrip
import Kode.Library.Family
import Kode.Library.StepSystem

namespace Kode.Filesystem

open Kode.Library

universe u

/-- Where a thread stands in `workCallback`. -/
inductive Stage
  | start
  /-- A read has the content and will make the file info. -/
  | describing (content : Bytes)
  /-- A write found no parent directory and will create it. -/
  | creating
  | truncating
  | putting
  /-- A write has closed the file and will make the file info. -/
  | inspecting
  | finished (result : WorkResult)

namespace FileSystem

variable {σ : Type u} (fs : FileSystem σ)

/-- The next system call of an operation. -/
def workStep (disk : σ) : Operation → Stage → Option (σ × Stage)
  | .read path, .start =>
      match fs.openIn disk (cString path) with
      | none => some (disk, .finished (.read (.error (bytesOf "Cannot open file: " ++ path))))
      | some content => some (disk, .describing content)
  | .read path, .describing content =>
      some (disk, .finished (.read (.ok { content, info := fs.createFileInfo disk path })))
  | .write path _ createParents, .start =>
      if createParents ∧ parentPath path ≠ [] ∧
          fs.status disk (cString (parentPath path)) = none then
        some (disk, .creating)
      else some (disk, .truncating)
  | .write path _ _, .creating =>
      some (fs.createDirectories disk (cString (parentPath path)), .truncating)
  | .write path _ _, .truncating =>
      match fs.openOut disk (cString path) with
      | none => some (disk, .finished (.write (.error (bytesOf "Cannot create file: " ++ path))))
      | some opened => some (opened, .putting)
  | .write path content _, .putting =>
      match fs.put disk (cString path) content with
      | (after, true) => some (after, .inspecting)
      | (after, false) =>
          some (after, .finished (.write (.error (bytesOf "Failed to write to file: " ++ path))))
  | .write path content _, .inspecting =>
      some (disk, .finished (.write (.ok
        { bytesWritten := content.length, info := fs.createFileInfo disk path })))
  | .info path, .start => some (disk, .finished (fs.workCallback disk (.info path)).2)
  | _, _ => none

/-- The rest of `workCallback`, if no other thread does anything meanwhile. -/
def conclude (disk : σ) : Operation → Stage → σ × WorkResult
  | _, .finished result => (disk, result)
  | .read path, .describing content =>
      (disk, .read (.ok { content, info := fs.createFileInfo disk path }))
  | .write path content _, .creating =>
      let written := fs.writeWork (fs.createDirectories disk (cString (parentPath path)))
        path content false
      (written.1, .write written.2)
  | .write path content _, .truncating =>
      let written := fs.writeWork disk path content false
      (written.1, .write written.2)
  | .write path content _, .putting =>
      match fs.put disk (cString path) content with
      | (after, true) =>
          (after, .write (.ok
            { bytesWritten := content.length, info := fs.createFileInfo after path }))
      | (after, false) =>
          (after, .write (.error (bytesOf "Failed to write to file: " ++ path)))
  | .write path content _, .inspecting =>
      (disk, .write (.ok
        { bytesWritten := content.length, info := fs.createFileInfo disk path }))
  | operation, _ => fs.workCallback disk operation

/-- Each step leaves the result of an undisturbed run as it was. -/
theorem conclude_workStep {disk after : σ} {operation : Operation} {stage next : Stage}
    (taken : fs.workStep disk operation stage = some (after, next)) :
    fs.conclude after operation next = fs.conclude disk operation stage := by
  cases operation with
  | info path =>
      cases stage with
      | start =>
          obtain ⟨rfl, rfl⟩ := Prod.mk.inj (Option.some.inj taken)
          simp only [conclude, workCallback]
          split <;> rfl
      | _ => cases taken
  | read path =>
      cases stage with
      | start =>
          simp only [workStep] at taken
          split at taken
          · rename_i missing
            obtain ⟨rfl, rfl⟩ := Prod.mk.inj (Option.some.inj taken)
            simp [conclude, workCallback, readWork, missing]
          · rename_i content opened
            obtain ⟨rfl, rfl⟩ := Prod.mk.inj (Option.some.inj taken)
            simp [conclude, workCallback, readWork, opened]
      | describing content =>
          obtain ⟨rfl, rfl⟩ := Prod.mk.inj (Option.some.inj taken)
          rfl
      | _ => cases taken
  | write path content createParents =>
      cases stage with
      | start =>
          simp only [workStep] at taken
          split_ifs at taken with missing
          · obtain ⟨rfl, rfl⟩ := Prod.mk.inj (Option.some.inj taken)
            simp [conclude, workCallback, writeWork, ensureDirectoryExists, missing]
          · obtain ⟨rfl, rfl⟩ := Prod.mk.inj (Option.some.inj taken)
            have present : (if createParents then fs.ensureDirectoryExists disk path
                else disk) = disk := by
              cases createParents with
              | false => rfl
              | true =>
                  rw [if_pos rfl]
                  exact if_neg fun absent => missing ⟨rfl, absent⟩
            simp [conclude, workCallback, writeWork, present]
      | creating =>
          obtain ⟨rfl, rfl⟩ := Prod.mk.inj (Option.some.inj taken)
          rfl
      | truncating =>
          simp only [workStep] at taken
          split at taken
          · rename_i refused
            obtain ⟨rfl, rfl⟩ := Prod.mk.inj (Option.some.inj taken)
            simp [conclude, writeWork, refused]
          · rename_i opened openedOut
            obtain ⟨rfl, rfl⟩ := Prod.mk.inj (Option.some.inj taken)
            cases stored : fs.put opened (cString path) content with
            | mk final good =>
                cases good <;> simp [conclude, writeWork, openedOut, stored]
      | putting =>
          simp only [workStep] at taken
          split at taken
          · rename_i final stored
            obtain ⟨rfl, rfl⟩ := Prod.mk.inj (Option.some.inj taken)
            simp [conclude, stored]
          · rename_i final failed
            obtain ⟨rfl, rfl⟩ := Prod.mk.inj (Option.some.inj taken)
            simp [conclude, failed]
      | inspecting =>
          obtain ⟨rfl, rfl⟩ := Prod.mk.inj (Option.some.inj taken)
          rfl
      | _ => cases taken

/-- Run alone, the steps are `workCallback`. -/
theorem workCallback_of_alone {disk after : σ} {operation : Operation} {result : WorkResult}
    (alone : Reachable (fun (state : σ × Stage) (_ : Unit) =>
      fs.workStep state.1 operation state.2) (disk, .start) (after, .finished result)) :
    (after, result) = fs.workCallback disk operation := by
  have kept := alone.invariant (motive := fun state =>
    fs.conclude state.1 operation state.2 = fs.conclude disk operation .start) rfl
    fun _ _ _ same _ taken => (fs.conclude_workStep taken).trans same
  have begin : fs.conclude disk operation .start = fs.workCallback disk operation := by
    cases operation <;> rfl
  exact kept.trans begin

end FileSystem

/-! ## The pool -/

/-- How far a call has come. -/
inductive Progress
  | working (operation : Operation) (stage : Stage)
  | settled (outcome : Outcome)

/-- How a call begins: it fails at once or puts its operation into the queue. -/
def Progress.ofCall : Call → Progress
  | .throws message => .settled (.threw message)
  | .rejects reason => .settled (.rejected reason)
  | .starts operation => .working operation .start

/-- A call of a binding. -/
structure Request where
  binding : Binding
  args : List Value
  progress : Progress

/-- A failed `ToLocalChecked`. -/
def Outcome.isAborted : Outcome → Bool
  | .aborted => true
  | .threw _ | .resolved _ | .rejected _ => false

/-- The disk and all calls so far; a call is named by its number. -/
structure Pool (σ : Type u) where
  disk : σ
  requests : List Request
  /-- The process has ended. -/
  aborted : Bool

/-- What happens next. -/
inductive PoolEvent
  | call (binding : Binding) (args : List Value)
  /-- A thread makes a system call for an operation. -/
  | work (request : ℕ)
  /-- `afterWorkCallback`, on the main thread. -/
  | settle (request : ℕ)
  /-- V8 ends the process, as it may in a completion: each one locks the isolate, which the
  main thread has entered without a lock. -/
  | crash

/-- A new call. -/
def PoolEvent.isCall : PoolEvent → Bool
  | .call _ _ => true
  | .work _ | .settle _ | .crash => false

/-- A step of an operation on its way. -/
def PoolEvent.isProgress : PoolEvent → Bool
  | .work _ | .settle _ => true
  | .call _ _ | .crash => false

namespace Pool

variable {σ : Type u} (fs : FileSystem σ) (v8 : V8)

/-- No call has been made. -/
def start (disk : σ) : Pool σ := { disk, requests := [], aborted := false }

def step (pool : Pool σ) (event : PoolEvent) : Option (Pool σ) :=
  if pool.aborted then none
  else
    match event with
    | .call binding args =>
        some { pool with
          requests := pool.requests ++ [⟨binding, args, .ofCall (binding.call v8 args)⟩] }
    | .work index =>
        match pool.requests[index]? with
        | some ⟨binding, args, .working operation stage⟩ =>
            (fs.workStep pool.disk operation stage).map fun next =>
              { pool with
                disk := next.1
                requests := pool.requests.set index ⟨binding, args, .working operation next.2⟩ }
        | _ => none
    | .settle index =>
        match pool.requests[index]? with
        | some ⟨binding, args, .working operation (.finished result)⟩ =>
            let outcome := binding.complete v8 operation.path result
            some { pool with
              requests := pool.requests.set index ⟨binding, args, .settled outcome⟩
              aborted := outcome.isAborted }
        | _ => none
    | .crash => some { pool with aborted := true }

/-- Everything that can happen. -/
inductive Move (pool : Pool σ) : PoolEvent → Pool σ → Prop
  | call (binding : Binding) (args : List Value) :
      Move pool (.call binding args) { pool with
        requests := pool.requests ++ [⟨binding, args, .ofCall (binding.call v8 args)⟩] }
  | work (index : ℕ) (binding : Binding) (args : List Value) (operation : Operation)
      (stage next : Stage) (disk : σ)
      (found : pool.requests[index]? = some ⟨binding, args, .working operation stage⟩)
      (taken : fs.workStep pool.disk operation stage = some (disk, next)) :
      Move pool (.work index) { pool with
        disk
        requests := pool.requests.set index ⟨binding, args, .working operation next⟩ }
  | settle (index : ℕ) (binding : Binding) (args : List Value) (operation : Operation)
      (result : WorkResult)
      (found : pool.requests[index]? =
        some ⟨binding, args, .working operation (.finished result)⟩) :
      Move pool (.settle index) { pool with
        requests := pool.requests.set index
          ⟨binding, args, .settled (binding.complete v8 operation.path result)⟩
        aborted := (binding.complete v8 operation.path result).isAborted }
  | crash : Move pool .crash { pool with aborted := true }

variable {fs v8}

theorem step_move {pool target : Pool σ} {event : PoolEvent}
    (taken : pool.step fs v8 event = some target) :
    pool.aborted = false ∧ Move fs v8 pool event target := by
  obtain ⟨running, taken⟩ := Option.ite_none_left_eq_some.mp taken
  refine ⟨by simpa using running, ?_⟩
  cases event with
  | call binding args =>
      obtain rfl := Option.some.inj taken
      exact .call binding args
  | work index =>
      dsimp only at taken
      split at taken
      · rename_i binding args operation stage found
        obtain ⟨⟨disk, next⟩, worked, rfl⟩ := Option.map_eq_some_iff.mp taken
        exact .work index binding args operation stage next disk found worked
      · cases taken
  | settle index =>
      dsimp only at taken
      split at taken
      · rename_i binding args operation result found
        obtain rfl := Option.some.inj taken
        exact .settle index binding args operation result found
      · cases taken
  | crash =>
      obtain rfl := Option.some.inj taken
      exact .crash

/-- What one step can have done to one request. -/
inductive Became (fs : FileSystem σ) (v8 : V8) (pool target : Pool σ) (event : PoolEvent)
    (index : ℕ) (request : Request) : Prop
  | stayed (idle : event ≠ .work index) (before : pool.requests[index]? = some request)
  | called (event_eq : event = .call request.binding request.args)
      (index_eq : index = pool.requests.length)
      (progress : request.progress = .ofCall (request.binding.call v8 request.args))
  | worked (operation : Operation) (stage next : Stage) (event_eq : event = .work index)
      (before : pool.requests[index]? =
        some ⟨request.binding, request.args, .working operation stage⟩)
      (taken : fs.workStep pool.disk operation stage = some (target.disk, next))
      (progress : request.progress = .working operation next)
  | settled (operation : Operation) (result : WorkResult) (event_eq : event = .settle index)
      (before : pool.requests[index]? =
        some ⟨request.binding, request.args, .working operation (.finished result)⟩)
      (progress : request.progress =
        .settled (request.binding.complete v8 operation.path result))

theorem became_of_move {pool target : Pool σ} {event : PoolEvent}
    (move : Move fs v8 pool event target) {index : ℕ} {request : Request}
    (found : target.requests[index]? = some request) :
    Became fs v8 pool target event index request := by
  cases move with
  | call binding args =>
      by_cases old : index < pool.requests.length
      · rw [List.getElem?_append_left old] at found
        exact .stayed (by simp) found
      · rw [List.getElem?_append_right (Nat.le_of_not_lt old)] at found
        obtain ⟨inside, rfl⟩ := List.getElem?_eq_some_iff.mp found
        rw [List.length_singleton] at inside
        rw [List.getElem_singleton]
        exact .called rfl (by omega) rfl
  | work acting binding args operation stage next disk before taken =>
      by_cases same : acting = index
      · subst same
        obtain ⟨inside, -⟩ := List.getElem?_eq_some_iff.mp before
        rw [List.getElem?_set_self inside] at found
        obtain rfl := Option.some.inj found
        exact .worked operation stage next rfl before taken rfl
      · rw [List.getElem?_set_ne same] at found
        exact .stayed (by simpa using same) found
  | settle acting binding args operation result before =>
      by_cases same : acting = index
      · subst same
        obtain ⟨inside, -⟩ := List.getElem?_eq_some_iff.mp before
        rw [List.getElem?_set_self inside] at found
        obtain rfl := Option.some.inj found
        exact .settled operation result rfl before rfl
      · rw [List.getElem?_set_ne same] at found
        exact .stayed (by simp) found
  | crash => exact .stayed (by simp) found

/-! ## Waiting for a write -/

end Pool

/-- What the system guarantees of a file between the calls of different threads: opened for
writing it is empty and can be read; while it can be read it holds what is put into it; and
making directories does not change it. -/
structure FileSystem.Steady {σ : Type u} (fs : FileSystem σ) (path : Bytes) : Prop where
  emptied : ∀ {disk opened}, fs.openOut disk path = some opened → fs.openIn opened path = some []
  stored : ∀ {disk after old content}, fs.openIn disk path = some old →
    fs.put disk path content = (after, true) → fs.openIn after path = some content
  directories : ∀ disk directory,
    fs.openIn (fs.createDirectories disk directory) path = fs.openIn disk path

/-- Writing to the other path leaves the file as it is. -/
def FileSystem.Apart {σ : Type u} (fs : FileSystem σ) (path other : Bytes) : Prop :=
  (∀ disk opened, fs.openOut disk other = some opened →
    fs.openIn opened path = fs.openIn disk path) ∧
  ∀ disk content, fs.openIn (fs.put disk other content).1 path = fs.openIn disk path

section

variable {σ : Type u} (fs : FileSystem σ) (v8 : V8) (path : Bytes)

/-- The operation does not write to the file. -/
def Operation.LeavesAlone : Operation → Prop
  | .write other _ _ => fs.Apart path (cString other)
  | .read _ | .info _ => True

/-- What is left of the call does not write to the file. -/
def Progress.Harmless : Progress → Prop
  | .settled _ | .working _ (.finished _) => True
  | .working operation _ => operation.LeavesAlone fs path

/-- No call that writes to the file is made. -/
def NoWriteTo (_ : Pool σ) : PoolEvent → Prop
  | .call binding args =>
      ∀ operation, binding.call v8 args = .starts operation → operation.LeavesAlone fs path
  | .work _ | .settle _ | .crash => True

variable {fs v8 path}

theorem FileSystem.workStep_finished (disk : σ) (operation : Operation) (result : WorkResult) :
    fs.workStep disk operation (.finished result) = none := by
  cases operation <;> rfl

theorem Operation.LeavesAlone.harmless {operation : Operation}
    (alone : operation.LeavesAlone fs path) (stage : Stage) :
    (Progress.working operation stage).Harmless fs path := by
  cases stage <;> first | exact alone | trivial

theorem Progress.Harmless.leavesAlone {operation : Operation} {stage next : Stage}
    {disk after : σ} (harmless : (Progress.working operation stage).Harmless fs path)
    (taken : fs.workStep disk operation stage = some (after, next)) :
    operation.LeavesAlone fs path := by
  cases stage with
  | finished result =>
      rw [FileSystem.workStep_finished] at taken
      cases taken
  | _ => exact harmless

/-- A call that leaves the file alone leaves its content alone. -/
theorem openIn_workStep (steady : fs.Steady path) {operation : Operation} {stage next : Stage}
    {disk after : σ} (alone : operation.LeavesAlone fs path)
    (taken : fs.workStep disk operation stage = some (after, next)) :
    fs.openIn after path = fs.openIn disk path := by
  cases operation with
  | info other =>
      cases stage with
      | start =>
          obtain ⟨rfl, -⟩ := Prod.mk.inj (Option.some.inj taken)
          rfl
      | _ => cases taken
  | read other =>
      cases stage with
      | start =>
          simp only [FileSystem.workStep] at taken
          split at taken <;>
            obtain ⟨rfl, -⟩ := Prod.mk.inj (Option.some.inj taken) <;> rfl
      | describing content =>
          obtain ⟨rfl, -⟩ := Prod.mk.inj (Option.some.inj taken)
          rfl
      | _ => cases taken
  | write other content createParents =>
      cases stage with
      | start =>
          simp only [FileSystem.workStep] at taken
          split_ifs at taken <;>
            obtain ⟨rfl, -⟩ := Prod.mk.inj (Option.some.inj taken) <;> rfl
      | creating =>
          obtain ⟨rfl, -⟩ := Prod.mk.inj (Option.some.inj taken)
          exact steady.directories _ _
      | truncating =>
          simp only [FileSystem.workStep] at taken
          split at taken
          · obtain ⟨rfl, -⟩ := Prod.mk.inj (Option.some.inj taken)
            rfl
          · rename_i opened openedOut
            obtain ⟨rfl, -⟩ := Prod.mk.inj (Option.some.inj taken)
            exact alone.1 _ _ openedOut
      | putting =>
          have kept := alone.2 disk content
          simp only [FileSystem.workStep] at taken
          split at taken <;> rename_i final put <;> rw [put] at kept <;>
            obtain ⟨rfl, -⟩ := Prod.mk.inj (Option.some.inj taken) <;> exact kept
      | inspecting =>
          obtain ⟨rfl, -⟩ := Prod.mk.inj (Option.some.inj taken)
          rfl
      | _ => cases taken

namespace Pool

variable {pool target : Pool σ} {event : PoolEvent}

/-- A harmless call stays harmless, and a new one is. -/
theorem Became.harmless {index : ℕ} {request : Request}
    (became : Became fs v8 pool target event index request)
    (allowed : NoWriteTo fs v8 path pool event)
    (before : ∀ earlier, pool.requests[index]? = some earlier →
      earlier.progress.Harmless fs path) : request.progress.Harmless fs path := by
  cases became with
  | stayed idle found => exact before request found
  | called event_eq index_eq progress =>
      subst event_eq
      rw [progress]
      cases called : request.binding.call v8 request.args with
      | throws message => trivial
      | rejects reason => trivial
      | starts operation => exact (allowed operation called).harmless .start
  | worked operation stage next event_eq found taken progress =>
      rw [progress]
      exact ((before _ found).leavesAlone taken).harmless next
  | settled operation result event_eq found progress =>
      rw [progress]
      trivial

/-- No call is forgotten. -/
theorem exists_of_move (move : Move fs v8 pool event target) {index : ℕ} {request : Request}
    (found : pool.requests[index]? = some request) :
    ∃ later, target.requests[index]? = some later := by
  obtain ⟨inside, -⟩ := List.getElem?_eq_some_iff.mp found
  have still : index < target.requests.length := by
    cases move with
    | call => rw [List.length_append]; omega
    | work => rwa [List.length_set]
    | settle => rwa [List.length_set]
    | crash => exact inside
  exact ⟨_, List.getElem?_eq_getElem still⟩

/-- A step changes the file only if the operation that takes it writes to the file. -/
theorem openIn_of_move (steady : fs.Steady path) (move : Move fs v8 pool event target)
    (acting : ∀ index request, event = .work index → pool.requests[index]? = some request →
      request.progress.Harmless fs path) :
    fs.openIn target.disk path = fs.openIn pool.disk path := by
  cases move with
  | call => rfl
  | settle => rfl
  | crash => rfl
  | work index binding args operation stage next disk found taken =>
      exact openIn_workStep steady ((acting index _ rfl found).leavesAlone taken) taken

end Pool

/-- What is known of a write to the file until its promise is settled, and then if it
resolves. -/
def Progress.Writes (fs : FileSystem σ) (disk : σ) (path content : Bytes)
    (createParents : Bool) : Progress → Prop
  | .working operation stage => operation = .write path content createParents ∧
      match stage with
      | .putting => ∃ old, fs.openIn disk (cString path) = some old
      | .inspecting | .finished (.write (.ok _)) => fs.openIn disk (cString path) = some content
      | _ => True
  | .settled (.resolved _) => fs.openIn disk (cString path) = some content
  | .settled _ => True

section

variable {content : Bytes} {createParents : Bool} {disk after : σ}

theorem Progress.Writes.congr {progress : Progress}
    (writes : progress.Writes fs disk path content createParents)
    (same : fs.openIn after (cString path) = fs.openIn disk (cString path)) :
    progress.Writes fs after path content createParents := by
  unfold Progress.Writes at writes ⊢
  rw [same]
  exact writes

/-- The write goes on. -/
theorem Progress.Writes.workStep (steady : fs.Steady (cString path))
    {operation : Operation} {stage next : Stage}
    (writes : (Progress.working operation stage).Writes fs disk path content createParents)
    (taken : fs.workStep disk operation stage = some (after, next)) :
    (Progress.working operation next).Writes fs after path content createParents := by
  obtain ⟨rfl, known⟩ := writes
  refine ⟨rfl, ?_⟩
  cases stage with
  | start =>
      simp only [FileSystem.workStep] at taken
      split_ifs at taken <;> obtain ⟨-, rfl⟩ := Prod.mk.inj (Option.some.inj taken) <;> trivial
  | creating =>
      obtain ⟨-, rfl⟩ := Prod.mk.inj (Option.some.inj taken)
      trivial
  | truncating =>
      simp only [FileSystem.workStep] at taken
      split at taken
      · obtain ⟨-, rfl⟩ := Prod.mk.inj (Option.some.inj taken)
        trivial
      · rename_i opened openedOut
        obtain ⟨rfl, rfl⟩ := Prod.mk.inj (Option.some.inj taken)
        exact ⟨[], steady.emptied openedOut⟩
  | putting =>
      obtain ⟨old, readable⟩ := known
      simp only [FileSystem.workStep] at taken
      split at taken
      · rename_i final put
        obtain ⟨rfl, rfl⟩ := Prod.mk.inj (Option.some.inj taken)
        exact steady.stored readable put
      · obtain ⟨-, rfl⟩ := Prod.mk.inj (Option.some.inj taken)
        trivial
  | inspecting =>
      obtain ⟨rfl, rfl⟩ := Prod.mk.inj (Option.some.inj taken)
      exact known
  | describing | finished => cases taken

/-- If the promise of the write resolves, the file has the content. -/
theorem Progress.Writes.settled {operation : Operation} {result : WorkResult} {name : Bytes}
    (writes : (Progress.working operation (.finished result)).Writes fs disk path content
      createParents) :
    (Progress.settled (Binding.complete v8 name .write result)).Writes fs disk path content
      createParents := by
  obtain ⟨-, known⟩ := writes
  cases outcome : Binding.complete v8 name .write result with
  | resolved value =>
      match result with
      | .write (.ok _) => exact known
      | .write (.error message) =>
          simp only [Binding.complete] at outcome
          cases made : v8.createKodeError (bytesOf "ENOENT") message (bytesOf "fs.write") name <;>
            simp [made, Outcome.ofOption] at outcome
      | .read _ | .info _ _ => cases outcome
  | threw | rejected | aborted => trivial

end

/-- What is known of a read of the file while it has the content. -/
def Progress.Reads (v8 : V8) (binding : Binding) (path content : Bytes) : Progress → Prop
  | .working operation stage => operation = .read path ∧
      match stage with
      | .start => True
      | .describing found => found = content
      | .finished result => ∃ info, result = .read (.ok { content, info })
      | _ => False
  | .settled outcome => ∃ info, outcome = binding.complete v8 path (.read (.ok { content, info }))

theorem Progress.Reads.workStep {binding : Binding} {content : Bytes} {disk after : σ}
    {operation : Operation} {stage next : Stage}
    (reads : (Progress.working operation stage).Reads v8 binding path content)
    (opened : fs.openIn disk (cString path) = some content)
    (taken : fs.workStep disk operation stage = some (after, next)) :
    (Progress.working operation next).Reads v8 binding path content := by
  obtain ⟨rfl, known⟩ := reads
  refine ⟨rfl, ?_⟩
  cases stage with
  | start =>
      simp only [FileSystem.workStep, opened, Option.some.injEq, Prod.mk.injEq] at taken
      obtain ⟨-, rfl⟩ := taken
      rfl
  | describing found =>
      obtain ⟨-, rfl⟩ := Prod.mk.inj (Option.some.inj taken)
      subst known
      exact ⟨_, rfl⟩
  | _ => cases taken

namespace Pool

variable {pool target : Pool σ} {event : PoolEvent} {content : Bytes}

/-- A write to the file is on its way, and nothing else writes to it. -/
structure Writing (fs : FileSystem σ) (path content : Bytes) (createParents : Bool) (index : ℕ)
    (args : List Value) (pool : Pool σ) : Prop where
  own : ∃ progress, pool.requests[index]? = some ⟨.write, args, progress⟩ ∧
    progress.Writes fs pool.disk path content createParents
  others : ∀ (other : ℕ) (request : Request), other ≠ index → pool.requests[other]? = some request →
    request.progress.Harmless fs (cString path)

theorem Writing.step (steady : fs.Steady (cString path)) {createParents : Bool} {index : ℕ}
    {args : List Value}
    (writing : Writing fs path content createParents index args pool)
    (allowed : NoWriteTo fs v8 (cString path) pool event)
    (taken : pool.step fs v8 event = some target) :
    Writing fs path content createParents index args target := by
  obtain ⟨-, move⟩ := step_move taken
  obtain ⟨⟨progress, found, writes⟩, others⟩ := writing
  refine ⟨?_, fun other request different present =>
    (became_of_move move present).harmless allowed fun earlier => others other earlier different⟩
  obtain ⟨request, present⟩ := exists_of_move move found
  have became := became_of_move move present
  -- Unless a thread works for the write itself, the file stays as it is.
  have elsewhere (notOwn : event ≠ .work index) :
      fs.openIn target.disk (cString path) = fs.openIn pool.disk (cString path) :=
    openIn_of_move steady move fun acting earlier acts known =>
      others acting earlier (fun same => notOwn (same ▸ acts)) known
  cases became with
  | stayed idle before =>
      obtain rfl := Option.some.inj (found.symm.trans before)
      exact ⟨progress, present, writes.congr (elsewhere idle)⟩
  | called event_eq index_eq _ =>
      obtain ⟨inside, -⟩ := List.getElem?_eq_some_iff.mp found
      omega
  | worked operation stage next event_eq before worked progress_eq =>
      rw [found] at before
      obtain ⟨binding_eq, args_eq, rfl⟩ := Request.mk.inj (Option.some.inj before)
      obtain ⟨binding, others, progress⟩ := request
      simp only at binding_eq args_eq progress_eq
      subst binding_eq args_eq progress_eq
      exact ⟨_, present, writes.workStep steady worked⟩
  | settled operation result event_eq before progress_eq =>
      rw [found] at before
      obtain ⟨binding_eq, args_eq, rfl⟩ := Request.mk.inj (Option.some.inj before)
      obtain ⟨binding, others, progress⟩ := request
      simp only at binding_eq args_eq progress_eq
      subst binding_eq args_eq progress_eq
      refine ⟨_, present, Progress.Writes.congr writes.settled (elsewhere ?_)⟩
      rw [event_eq]
      simp

/-- The file has the content, nothing on its way writes to it, and the reads of it that were
called from a number on find the content. -/
structure Reading (fs : FileSystem σ) (v8 : V8) (path content : Bytes) (first : ℕ)
    (pool : Pool σ) : Prop where
  stored : fs.openIn pool.disk path = some content
  harmless : ∀ (index : ℕ) (request : Request), pool.requests[index]? = some request →
    request.progress.Harmless fs path
  readers : ∀ (index : ℕ) (request : Request) (other : Bytes), first ≤ index →
    pool.requests[index]? = some request →
    request.binding.call v8 request.args = .starts (.read other) → cString other = path →
      request.progress.Reads v8 request.binding other content

theorem Reading.step (steady : fs.Steady path) {first : ℕ}
    (reading : Reading fs v8 path content first pool) (allowed : NoWriteTo fs v8 path pool event)
    (taken : pool.step fs v8 event = some target) :
    Reading fs v8 path content first target := by
  obtain ⟨-, move⟩ := step_move taken
  refine ⟨?_, fun index request present => ?_, ?_⟩
  · rw [openIn_of_move steady move fun index request _ found =>
      reading.harmless index request found, reading.stored]
  · exact (became_of_move move present).harmless allowed fun earlier =>
      reading.harmless index earlier
  · intro index request other newer present starts same
    obtain ⟨binding, args, progress⟩ := request
    cases became_of_move move present with
    | stayed idle before => exact reading.readers index _ other newer before starts same
    | called event_eq index_eq progress_eq =>
        simp only at starts progress_eq
        rw [progress_eq, starts]
        exact ⟨rfl, trivial⟩
    | worked operation stage next event_eq before worked progress_eq =>
        have reads := reading.readers index _ other newer before starts same
        simp only at progress_eq
        rw [progress_eq]
        exact reads.workStep (same ▸ reading.stored) worked
    | settled operation result event_eq before progress_eq =>
        obtain ⟨rfl, info, rfl⟩ := reading.readers index _ other newer before starts same
        simp only at progress_eq
        subst progress_eq
        exact ⟨info, rfl⟩

/-- A script waits for the promise of a write, and meanwhile and afterwards only operations
that do not write to that file are called. Any read of the file that is called after the
promise has resolved finds the content written, however the threads of the pool are
scheduled. -/
theorem awaited_write_is_read (steady : fs.Steady (cString path))
    {begun called resolved final : Pool σ}
    {args : List Value} {createParents : Bool}
    (quiet : ∀ (index : ℕ) (request : Request), begun.requests[index]? = some request →
      request.progress.Harmless fs (cString path))
    (writes : Binding.write.call v8 args = .starts (.write path content createParents))
    (calls : begun.step fs v8 (.call .write args) = some called)
    (during : ReachableUnder (Pool.step fs v8) (NoWriteTo fs v8 (cString path)) called resolved)
    {written : Request} (own : resolved.requests[begun.requests.length]? = some written)
    {value : Value} (success : written.progress = .settled (.resolved value))
    (later : ReachableUnder (Pool.step fs v8) (NoWriteTo fs v8 (cString path)) resolved final)
    {index : ℕ} (newer : resolved.requests.length ≤ index) {request : Request}
    (made : final.requests[index]? = some request) {other : Bytes}
    (reads : request.binding.call v8 request.args = .starts (.read other))
    (same : cString other = cString path) {outcome : Outcome}
    (settled : request.progress = .settled outcome) :
    ∃ info, outcome = request.binding.complete v8 other (.read (.ok { content, info })) := by
  have begins : Writing fs path content createParents begun.requests.length args called := by
    obtain ⟨-, move⟩ := step_move calls
    cases move with
    | call =>
        refine ⟨⟨.ofCall (Binding.write.call v8 args), by simp, ?_⟩, ?_⟩
        · rw [writes]
          exact ⟨rfl, trivial⟩
        · intro others earlier different present
          have old : others < begun.requests.length := by
            obtain ⟨inside, -⟩ := List.getElem?_eq_some_iff.mp present
            rw [List.length_append, List.length_singleton] at inside
            omega
          rw [List.getElem?_append_left old] at present
          exact quiet others earlier present
  have writing := during.invariant begins fun _ _ _ writing allowed taken =>
    writing.step steady allowed taken
  obtain ⟨⟨progress, found, holds⟩, others⟩ := writing
  obtain rfl := Option.some.inj (own.symm.trans found)
  simp only at success
  subst success
  have waits : Reading fs v8 (cString path) content resolved.requests.length resolved := by
    refine ⟨holds, fun index request present => ?_, fun index request other new present => ?_⟩
    · by_cases itself : index = begun.requests.length
      · subst itself
        obtain rfl := Option.some.inj (own.symm.trans present)
        trivial
      · exact others index request itself present
    · obtain ⟨inside, -⟩ := List.getElem?_eq_some_iff.mp present
      omega
  have reading := later.invariant waits fun _ _ _ reading allowed taken =>
    reading.step steady allowed taken
  have read := reading.readers index request other newer made reads same
  rw [settled] at read
  exact read

end Pool

end

/-! ## Every promise settles -/

/-- The stage is one of the operation. -/
def Stage.fits : Operation → Stage → Bool
  | _, .start | _, .finished _ => true
  | .read _, .describing _ => true
  | .write _ _ _, .creating | .write _ _ _, .truncating | .write _ _ _, .putting
  | .write _ _ _, .inspecting => true
  | _, _ => false

/-- The steps that are left for an operation, with that of the main thread. -/
def Stage.stepsLeft : Operation → Stage → ℕ
  | _, .finished _ => 1
  | .read _, .start => 3
  | .write _ _ _, .start => 6
  | .info _, .start => 2
  | _, .describing _ | _, .inspecting => 2
  | _, .putting => 3
  | _, .truncating => 4
  | _, .creating => 5

/-- The steps that are left until the call is settled. -/
def Progress.stepsLeft : Progress → ℕ
  | .settled _ => 0
  | .working operation stage => stage.stepsLeft operation

/-- The call stands where its operation can. -/
def Progress.fits : Progress → Bool
  | .settled _ => true
  | .working operation stage => stage.fits operation

section

variable {σ : Type u} {fs : FileSystem σ} {v8 : V8}

theorem Stage.fits_workStep {operation : Operation} {stage next : Stage} {disk after : σ}
    (taken : fs.workStep disk operation stage = some (after, next)) :
    next.fits operation = true ∧ next.stepsLeft operation + 1 ≤ stage.stepsLeft operation := by
  cases operation with
  | info path =>
      cases stage with
      | start =>
          obtain ⟨-, rfl⟩ := Prod.mk.inj (Option.some.inj taken)
          exact ⟨rfl, le_rfl⟩
      | _ => cases taken
  | read path =>
      cases stage with
      | start =>
          simp only [FileSystem.workStep] at taken
          split at taken <;> obtain ⟨-, rfl⟩ := Prod.mk.inj (Option.some.inj taken) <;>
            exact ⟨rfl, by simp [Stage.stepsLeft]⟩
      | describing content =>
          obtain ⟨-, rfl⟩ := Prod.mk.inj (Option.some.inj taken)
          exact ⟨rfl, le_rfl⟩
      | _ => cases taken
  | write path content createParents =>
      cases stage with
      | start =>
          simp only [FileSystem.workStep] at taken
          split_ifs at taken <;> obtain ⟨-, rfl⟩ := Prod.mk.inj (Option.some.inj taken) <;>
            exact ⟨rfl, by simp [Stage.stepsLeft]⟩
      | creating | inspecting =>
          obtain ⟨-, rfl⟩ := Prod.mk.inj (Option.some.inj taken)
          exact ⟨rfl, le_rfl⟩
      | truncating | putting =>
          simp only [FileSystem.workStep] at taken
          split at taken <;> obtain ⟨-, rfl⟩ := Prod.mk.inj (Option.some.inj taken) <;>
            exact ⟨rfl, by simp [Stage.stepsLeft]⟩
      | describing | finished => cases taken

/-- An operation that is not finished can make its next system call. -/
theorem Stage.workStep_of_fits (fs : FileSystem σ) (disk : σ) {operation : Operation}
    {stage : Stage} (fits : stage.fits operation = true)
    (working : ∀ result, stage ≠ .finished result) :
    fs.workStep disk operation stage ≠ none := by
  cases operation with
  | info path =>
      cases stage with
      | start => simp [FileSystem.workStep]
      | finished result => exact absurd rfl (working result)
      | _ => cases fits
  | read path =>
      cases stage with
      | start =>
          simp only [FileSystem.workStep]
          split <;> simp
      | describing content => simp [FileSystem.workStep]
      | finished result => exact absurd rfl (working result)
      | _ => cases fits
  | write path content createParents =>
      cases stage with
      | start =>
          simp only [FileSystem.workStep]
          split_ifs <;> simp
      | truncating | putting =>
          simp only [FileSystem.workStep]
          split <;> simp
      | creating | inspecting => simp [FileSystem.workStep]
      | finished result => exact absurd rfl (working result)
      | describing content => cases fits

namespace Pool

variable {pool target : Pool σ} {event : PoolEvent}

/-- The steps that are left until all calls are settled. -/
def stepsLeft (pool : Pool σ) : ℕ :=
  (pool.requests.map fun request => request.progress.stepsLeft).sum

theorem stepsLeft_of_move (move : Move fs v8 pool event target) (noCall : event.isCall = false) :
    target.stepsLeft + (if event.isProgress then 1 else 0) ≤ pool.stepsLeft := by
  cases move with
  | call => cases noCall
  | crash => exact le_rfl
  | work index binding args operation stage next disk found taken =>
      have changed := sum_map_set found (fun request => request.progress.stepsLeft)
        ⟨binding, args, .working operation next⟩
      have lower := (Stage.fits_workStep taken).2
      simp only [stepsLeft, Progress.stepsLeft, PoolEvent.isProgress, if_true] at changed ⊢
      omega
  | settle index binding args operation result found =>
      have changed := sum_map_set found (fun request => request.progress.stepsLeft)
        ⟨binding, args, .settled (binding.complete v8 operation.path result)⟩
      have last : Stage.stepsLeft operation (.finished result) = 1 := by cases operation <;> rfl
      simp only [stepsLeft, Progress.stepsLeft, last, PoolEvent.isProgress, if_true] at changed ⊢
      omega

/-- Every call stands where its operation can. -/
def Fits (pool : Pool σ) : Prop :=
  ∀ (index : ℕ) (request : Request), pool.requests[index]? = some request →
    request.progress.fits = true

theorem Fits.step (fits : pool.Fits) (taken : pool.step fs v8 event = some target) :
    target.Fits := by
  obtain ⟨-, move⟩ := step_move taken
  intro index request present
  cases became_of_move move present with
  | stayed idle before => exact fits index request before
  | called event_eq index_eq progress =>
      rw [progress]
      cases request.binding.call v8 request.args <;> rfl
  | worked operation stage next event_eq before worked progress =>
      rw [progress]
      exact (Stage.fits_workStep worked).1
  | settled operation result event_eq before progress =>
      rw [progress]
      rfl

theorem fits_start (disk : σ) : (start disk).Fits := by
  intro index request present
  cases present

/-- A settled call stays as it is. -/
theorem settled_of_move (move : Move fs v8 pool event target) {index : ℕ} {request : Request}
    {outcome : Outcome} (found : pool.requests[index]? = some request)
    (settled : request.progress = .settled outcome) : target.requests[index]? = some request := by
  obtain ⟨later, present⟩ := exists_of_move move found
  rw [present]
  cases became_of_move move present with
  | stayed idle before => exact before.symm.trans found
  | called event_eq index_eq progress =>
      obtain ⟨inside, -⟩ := List.getElem?_eq_some_iff.mp found
      omega
  | worked operation stage next event_eq before worked progress =>
      obtain rfl := Option.some.inj (found.symm.trans before)
      cases settled
  | settled operation result event_eq before progress =>
      obtain rfl := Option.some.inj (found.symm.trans before)
      cases settled

/-- An unsettled call can go on. -/
theorem Fits.goes_on (fits : pool.Fits) (running : pool.aborted = false) {index : ℕ}
    {request : Request} (found : pool.requests[index]? = some request)
    (unsettled : ∀ outcome, request.progress ≠ .settled outcome) :
    ∃ event, event.isProgress = true ∧ pool.step fs v8 event ≠ none := by
  obtain ⟨binding, args, progress⟩ := request
  cases progress with
  | settled outcome => exact absurd rfl (unsettled outcome)
  | working operation stage =>
      by_cases ended : ∃ result, stage = .finished result
      · obtain ⟨result, rfl⟩ := ended
        exact ⟨.settle index, rfl, by simp [Pool.step, running, found]⟩
      · have enabled := Stage.workStep_of_fits fs pool.disk (fits index _ found)
          fun result same => ended ⟨result, same⟩
        obtain ⟨next, worked⟩ := Option.ne_none_iff_exists'.mp enabled
        exact ⟨.work index, rfl, by simp [Pool.step, running, found, worked]⟩

/-- What a run without new calls keeps of the pool it began with. -/
structure Continues (begun pool : Pool σ) : Prop where
  fits : pool.Fits
  kept : ∀ (index : ℕ) (request : Request) (outcome : Outcome),
    begun.requests[index]? = some request → request.progress = .settled outcome →
      pool.requests[index]? = some request

theorem Continues.step {begun : Pool σ} (continues : Continues begun pool)
    (taken : pool.step fs v8 event = some target) : Continues begun target where
  fits := continues.fits.step taken
  kept index request outcome found settled :=
    settled_of_move (step_move taken).2 (continues.kept index request outcome found settled) settled

/-- When no further calls are made, the operations on their way take at most as many steps as
are left for them, in any order. No settled call changes. And where none of them can take a
step any more, every call has been settled, unless the process has ended. -/
theorem every_call_settles {disk : σ} (reached : Reachable (Pool.step fs v8) (start disk) pool)
    {later : Pool σ × ℕ}
    (run : ReachableUnder (metered (Pool.step fs v8) fun _ event => event.isProgress)
      (fun _ event => event.isCall = false) (pool, 0) later) :
    later.1.stepsLeft + later.2 ≤ pool.stepsLeft ∧
    (∀ (index : ℕ) (request : Request) (outcome : Outcome),
      pool.requests[index]? = some request → request.progress = .settled outcome →
        later.1.requests[index]? = some request) ∧
    (later.1.aborted = false →
      (∀ event, event.isProgress = true → later.1.step fs v8 event = none) →
        ∀ (index : ℕ) (request : Request), later.1.requests[index]? = some request →
          ∃ outcome, request.progress = .settled outcome) := by
  have fits := reached.invariant (motive := Fits) (fits_start disk)
    fun _ _ _ fits _ taken => fits.step taken
  have begins : Continues pool pool := ⟨fits, fun _ _ _ found _ => found⟩
  have keeps (state : Pool σ) (event : PoolEvent) (next : Pool σ)
      (continues : Continues pool state) (_ : event.isCall = false)
      (taken : state.step fs v8 event = some next) : Continues pool next :=
    continues.step taken
  have lowers (state : Pool σ) (event : PoolEvent) (next : Pool σ)
      (_ : Continues pool state) (noCall : event.isCall = false)
      (taken : state.step fs v8 event = some next) :
      next.stepsLeft + (if event.isProgress then 1 else 0) ≤ state.stepsLeft :=
    stepsLeft_of_move (step_move taken).2 noCall
  obtain ⟨continues, bound⟩ := ReachableUnder.metered_le (Continues pool) stepsLeft keeps lowers
    begins run
  refine ⟨bound, continues.kept, fun running stuck index request found => ?_⟩
  by_contra unsettled
  have waiting (outcome : Outcome) : request.progress ≠ .settled outcome :=
    fun settled => unsettled ⟨outcome, settled⟩
  obtain ⟨event, progresses, enabled⟩ := continues.fits.goes_on running found waiting
  exact enabled (stuck event progresses)

end Pool

end

/-! ## A disk in memory -/

theorem memoryFs_steady (path : Bytes) : memoryFs.Steady path where
  emptied openedOut := by
    obtain ⟨short, same⟩ := Option.ite_none_right_eq_some.mp openedOut
    obtain rfl := Option.some.inj same
    simp [memoryFs, short]
  stored readable put := by
    obtain ⟨short, -⟩ := Option.ite_none_right_eq_some.mp readable
    obtain ⟨rfl, -⟩ := Prod.mk.inj put
    simp [memoryFs, short]
  directories _ _ := rfl

/-- The call reads or asks for a file's info. -/
def PoolEvent.isLookup : PoolEvent → Bool
  | .call .readText _ | .call .info _ | .work _ | .settle _ | .crash => true
  | .call .read _ | .call .write _ => false

theorem noWriteTo_of_isLookup {path : Bytes} (pool : Pool (Bytes → Option Bytes))
    (event : PoolEvent) (lookup : event.isLookup = true) :
    NoWriteTo memoryFs validUtf8 path pool event := by
  cases event with
  | work | settle | crash => trivial
  | call binding args =>
      intro operation starts
      cases binding with
      | readText =>
          simp only [Binding.call, fsReadText] at starts
          split at starts
          · cases starts
          · obtain rfl := Call.starts.inj starts
            trivial
      | info =>
          simp only [Binding.call, fsInfo] at starts
          split at starts
          · cases starts
          · obtain rfl := Call.starts.inj starts
            trivial
      | read | write => cases lookup

/-- The name of a file. -/
def noteName : Value := .string "a.txt".toList

/-- The arguments of a write to it. -/
def noteArgs : List Value := [noteName, .string "x".toList]

/-- The info of the file is asked for while it is written. -/
def writeNote : List PoolEvent :=
  [.call .info [noteName], .work 0, .work 1, .work 0, .work 0, .work 0, .settle 1, .settle 0]

/-- The same while it is read. -/
def readNote : List PoolEvent :=
  [.call .info [noteName], .call .readText [noteName], .work 3, .work 2, .work 3, .settle 3]

/-- Whether a call has resolved. -/
def Progress.isResolved : Progress → Bool
  | .settled (.resolved _) => true
  | _ => false

/-- The file a call reads. -/
def Call.reads? : Call → Option Bytes
  | .starts (.read path) => some path
  | _ => none

theorem Progress.exists_of_isResolved {progress : Progress} (resolved : progress.isResolved) :
    ∃ value, progress = .settled (.resolved value) := by
  unfold isResolved at resolved
  split at resolved
  · exact ⟨_, rfl⟩
  · cases resolved

theorem Call.starts_of_reads? {call : Call} {path : Bytes} (reads : call.reads? = some path) :
    call = .starts (.read path) := by
  unfold reads? at reads
  split at reads
  · rw [Option.some.inj reads]
  · cases reads

namespace Pool

/-- No file and no call. -/
def empty : Pool (Bytes → Option Bytes) := start fun _ => none

/-- The pool when the write has just been called. -/
def noteCalled : Pool (Bytes → Option Bytes) where
  disk := fun _ => none
  requests := [⟨.write, noteArgs,
    .working (.write (utf8 "a.txt".toList) (utf8 "x".toList) false) .start⟩]
  aborted := false

/-- The calls above, each but the first with nothing but lookups before it. -/
def lookupRun (pool : Pool (Bytes → Option Bytes)) (events : List PoolEvent) :
    Option (Pool (Bytes → Option Bytes)) :=
  runSteps (guarded (Pool.step memoryFs validUtf8) fun _ => PoolEvent.isLookup) pool events

/-- The write resolves, and the read has been called for the file and resolves. -/
def noteIsRead : Bool :=
  (lookupRun noteCalled writeNote).any fun resolved =>
    ((resolved.requests[0]?).any fun request => request.progress.isResolved) &&
      decide (resolved.requests.length = 2) &&
      (lookupRun resolved readNote).any fun final =>
        (final.requests[3]?).any fun request =>
          request.progress.isResolved &&
            decide ((request.binding.call validUtf8 request.args).reads? =
              some (utf8 "a.txt".toList))

theorem reachableUnder_of_lookupRun (path : Bytes) {pool target : Pool (Bytes → Option Bytes)}
    {events : List PoolEvent} (ran : lookupRun pool events = some target) :
    ReachableUnder (Pool.step memoryFs validUtf8) (NoWriteTo memoryFs validUtf8 path) pool
      target :=
  reachableUnder_of_guarded noWriteTo_of_isLookup ran

theorem awaited_write_is_read_note :
    ∃ (final : Pool (Bytes → Option Bytes)) (request : Request) (info : Option FileInfo),
      Reachable (Pool.step memoryFs validUtf8) noteCalled final ∧
      final.requests[3]? = some request ∧
      request.progress = .settled (request.binding.complete validUtf8
        (utf8 "a.txt".toList) (.read (.ok { content := utf8 "x".toList, info }))) := by
  have evaluated : noteIsRead = true := by decide
  obtain ⟨resolved, wrote, evaluated⟩ := (Option.any_eq_true ..).mp evaluated
  obtain ⟨⟨first, count⟩, evaluated⟩ := by simpa only [Bool.and_eq_true] using evaluated
  obtain ⟨written, own, success⟩ := (Option.any_eq_true ..).mp first
  obtain ⟨final, readBack, evaluated⟩ := (Option.any_eq_true ..).mp evaluated
  obtain ⟨request, made, evaluated⟩ := (Option.any_eq_true ..).mp evaluated
  obtain ⟨resolves, reads⟩ := (Bool.and_eq_true_iff ..).mp evaluated
  obtain ⟨value, success⟩ := Progress.exists_of_isResolved success
  obtain ⟨found, settled⟩ := Progress.exists_of_isResolved resolves
  have reads := Call.starts_of_reads? (of_decide_eq_true reads)
  have during := reachableUnder_of_lookupRun (cString (utf8 "a.txt".toList)) wrote
  have later := reachableUnder_of_lookupRun (cString (utf8 "a.txt".toList)) readBack
  have nothing (index : ℕ) (earlier : Request)
      (present : empty.requests[index]? = some earlier) :
      earlier.progress.Harmless memoryFs (cString (utf8 "a.txt".toList)) := by
    cases present
  have newer : resolved.requests.length ≤ 3 := by
    rw [of_decide_eq_true count]
    decide
  have calls : empty.step memoryFs validUtf8 (.call .write noteArgs) = some noteCalled := rfl
  obtain ⟨info, outcome⟩ := awaited_write_is_read (memoryFs_steady _) nothing rfl calls during
    own success later newer made reads rfl settled
  exact ⟨final, request, info, (during.trans later).toReachable, made, by rw [settled, outcome]⟩

/-- The write has been called and begun, and a read of the file, which is not there yet. -/
def noteBegins : List PoolEvent :=
  [.call .write noteArgs, .call .readText [noteName], .work 0, .work 1]

/-- The rest of both. -/
def noteEnds : List PoolEvent := [.work 0, .settle 1, .work 0, .work 0, .settle 0]

/-- The pool ends with nothing left to do. -/
def noteSettles : Bool :=
  (runSteps (Pool.step memoryFs validUtf8) empty noteBegins).any fun pool =>
    decide (pool.requests.length = 2) &&
      (runSteps (guarded (metered (Pool.step memoryFs validUtf8) fun _ event => event.isProgress)
        fun _ event => !event.isCall) (pool, 0) noteEnds).any fun later =>
          decide (later.2 = 5) && !later.1.aborted && decide (later.1.stepsLeft = 0)

theorem every_call_settles_note :
    ∃ (pool : Pool (Bytes → Option Bytes)) (later : Pool (Bytes → Option Bytes) × ℕ),
      pool.requests.length = 2 ∧ later.2 = 5 ∧ later.1.stepsLeft + later.2 ≤ pool.stepsLeft ∧
      ∀ (index : ℕ) (request : Request), later.1.requests[index]? = some request →
        ∃ outcome, request.progress = .settled outcome := by
  have evaluated : noteSettles = true := by decide
  obtain ⟨pool, begins, evaluated⟩ := (Option.any_eq_true ..).mp evaluated
  obtain ⟨two, evaluated⟩ := (Bool.and_eq_true_iff ..).mp evaluated
  obtain ⟨later, ends, evaluated⟩ := (Option.any_eq_true ..).mp evaluated
  obtain ⟨⟨five, runs⟩, nothing⟩ := by simpa only [Bool.and_eq_true] using evaluated
  have running : later.1.aborted = false := by simpa using runs
  have run : ReachableUnder (metered (Pool.step memoryFs validUtf8) fun _ event =>
      event.isProgress) (fun _ event => event.isCall = false) (pool, 0) later :=
    reachableUnder_of_guarded (fun _ event noCall => by simpa using noCall) ends
  have stuck (event : PoolEvent) (progresses : event.isProgress = true) :
      later.1.step memoryFs validUtf8 event = none := by
    by_contra enabled
    obtain ⟨next, taken⟩ := Option.ne_none_iff_exists'.mp enabled
    have noCall : event.isCall = false := by cases event <;> first | rfl | cases progresses
    have lower := stepsLeft_of_move (step_move taken).2 noCall
    rw [of_decide_eq_true nothing, if_pos progresses] at lower
    omega
  obtain ⟨bound, -, settles⟩ := every_call_settles (reachable_of_runSteps begins) run
  exact ⟨pool, later, of_decide_eq_true two, of_decide_eq_true five, bound, settles running stuck⟩

end Pool

end Kode.Filesystem
