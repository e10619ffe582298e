/-
# Closing a connection

Two callbacks close the handle of a client: `read_cb` at the end of the input or on an
error, and `after_write_cb` when the response is written. Neither knows of the other.
When the response is written first, `uv_close` stops the reading and `read_cb` is not
called again. When the input ends first, while the response is still being written, the
write request is completed all the same, and its callback closes the handle once more.
-/

import Kode.Http.Server

namespace Kode.Http.Connection

open Kode.Library

/-- `uv_close` was called at most once, and never on a closing handle. -/
def ClosedOnce (connection : Connection) : Prop :=
  connection.closeCalls ≤ 1 ∧ connection.fatal = false

/-- The step is no end of input and no read error while a write is on its way. -/
def EndsAfterWrite (connection : Connection) (event : Event) : Prop :=
  event = .eof ∨ event = .readError → connection.writes = []

/-- What keeps the two closing callbacks apart: a write is on its way only on a handle
that is open, and then it is the only one and the connection has its response. -/
structure Orderly (connection : Connection) : Prop where
  safe : connection.fatal = false
  counted : connection.closeCalls = if connection.closing then 1 else 0
  silent : connection.reading = true → connection.closing = false
  writing : connection.writes ≠ [] → connection.closing = false ∧
    connection.responded = true ∧ connection.writes.length = 1

theorem Orderly.closedOnce {connection : Connection} (orderly : connection.Orderly) :
    connection.ClosedOnce := by
  refine ⟨?_, orderly.safe⟩
  rw [orderly.counted]
  split_ifs <;> omega

/-- `uv_close` on an open handle without a write. -/
theorem Orderly.uvClose {connection : Connection} (safe : connection.fatal = false)
    (counted : connection.closeCalls = 0) (isOpen : connection.closing = false)
    (idle : connection.writes = []) : connection.uvClose.Orderly := by
  rw [Connection.uvClose, isOpen]
  exact ⟨safe, by simp [counted], by simp, fun writing => absurd idle writing⟩

theorem orderly_onNewConnection (accepted : Bool) : (onNewConnection accepted).Orderly := by
  cases accepted with
  | false =>
      have closed : fresh.uvClose.Orderly := Orderly.uvClose rfl rfl rfl rfl
      exact closed
  | true => exact ⟨rfl, rfl, fun _ => rfl, fun writing => absurd rfl writing⟩

/-- Only the first complete request is answered. -/
theorem Orderly.readData {connection : Connection} (orderly : connection.Orderly)
    (reading : connection.reading = true) (server : HttpServer) (chunk : Bytes)
    (accepted : Bool) : (connection.readData server chunk accepted).1.Orderly := by
  have isOpen := orderly.silent reading
  unfold Connection.readData
  dsimp only
  split_ifs with complete
  · have idle : connection.writes = [] := by
      by_contra writing
      have responded := (orderly.writing writing).2.1
      rw [complete.1] at responded
      cases responded
    refine ⟨orderly.safe, orderly.counted, fun _ => isOpen, fun writing => ?_⟩
    cases accepted with
    | false => exact absurd (by simpa [handleRequest] using idle) writing
    | true => exact ⟨isOpen, rfl, by simp [handleRequest, idle]⟩
  · exact ⟨orderly.safe, orderly.counted, orderly.silent, orderly.writing⟩

theorem Orderly.step {server : HttpServer} {connection target : Connection} {event : Event}
    (orderly : connection.Orderly) (ends : connection.EndsAfterWrite event)
    (taken : connection.step server event = some target) : target.Orderly := by
  have zero : connection.closing = false → connection.closeCalls = 0 := fun isOpen => by
    rw [orderly.counted, isOpen]
    rfl
  obtain ⟨-, -, move⟩ := step_move taken
  cases move with
  | data chunk accepted reading => exact orderly.readData reading server chunk accepted
  | nothing => exact orderly
  | ended _ atEnd reading =>
      have isOpen := orderly.silent reading
      exact Orderly.uvClose orderly.safe (zero isOpen) isOpen (ends atEnd)
  | written status request rest writes =>
      obtain ⟨isOpen, -, single⟩ := orderly.writing (by simp [writes])
      have last : rest = [] := by simpa [writes] using single
      exact Orderly.uvClose orderly.safe (zero isOpen) isOpen last
  | closeCallback closing idle =>
      exact ⟨orderly.safe, orderly.counted, orderly.silent, orderly.writing⟩

/-- After an end of input during a write, the callback of the write closes again. -/
theorem closes_again {server : HttpServer} {connection target : Connection} {event : Event}
    (orderly : connection.Orderly) (early : ¬ connection.EndsAfterWrite event)
    (taken : connection.step server event = some target) (status : ℤ) :
    ∃ final, target.step server (.written status) = some final ∧ ¬ final.ClosedOnce := by
  obtain ⟨atEnd, writing⟩ := Classical.not_imp.mp early
  obtain ⟨request, rest, writes⟩ := List.exists_cons_of_ne_nil writing
  obtain ⟨safe, notClosed, move⟩ := step_move taken
  have ended : target = connection.uvClose := by
    cases move with
    | ended => rfl
    | _ => rcases atEnd with same | same <;> cases same
  have isOpen := (orderly.writing writing).1
  have closing : target = { connection with
      closing := true, reading := false, closeCalls := connection.closeCalls + 1 } := by
    rw [ended, Connection.uvClose, isOpen]
    rfl
  refine ⟨{ target with writes := rest }.uvClose, ?_, ?_⟩
  · simp [Connection.step, closing, safe, notClosed, writes]
  · simp [closing, ClosedOnce, Connection.uvClose]

/-! ## At most one close -/

/-- In a run in which the input never ends while a write is on its way, `uv_close` is
called at most once and on no closing handle. The first end of input that comes during a
write is followed, when the write ends, by a second call. -/
theorem closed_at_most_once (server : HttpServer) (accepted : Bool) {connection : Connection}
    (reached : ReachableUnder (step server) EndsAfterWrite (onNewConnection accepted)
      connection) :
    connection.ClosedOnce ∧
    ∀ event target status, ¬ connection.EndsAfterWrite event →
      connection.step server event = some target →
      ∃ final, target.step server (.written status) = some final ∧ ¬ final.ClosedOnce := by
  have orderly : connection.Orderly :=
    reached.invariant (orderly_onNewConnection accepted)
      fun _ _ _ orderly ends taken => orderly.step ends taken
  exact ⟨orderly.closedOnce, fun event target status early taken =>
    closes_again orderly early taken status⟩

/-- A server without handlers. -/
def bareServer : HttpServer := ⟨none, fun _ _ => none⟩

/-- A request for the root. -/
def rootRequest : Bytes := bytesOf "GET / HTTP/1.1\r\n\r\n"

/-- A test for the condition on the steps. -/
def endsAfterWrite (connection : Connection) (event : Event) : Bool :=
  decide (event ≠ .eof ∧ event ≠ .readError) || decide (connection.writes = [])

theorem endsAfterWrite_sound {connection : Connection} {event : Event}
    (passed : endsAfterWrite connection event = true) : connection.EndsAfterWrite event := by
  simp only [endsAfterWrite, Bool.or_eq_true, decide_eq_true_eq] at passed
  rintro (rfl | rfl) <;> simpa using passed

/-- The client waits for its answer. -/
theorem closed_at_most_once_patientClient :
    ∃ connection, ReachableUnder (step bareServer) EndsAfterWrite (onNewConnection true)
      connection ∧ connection.closed = true ∧ connection.closeCalls = 1 ∧
      connection.ClosedOnce := by
  have evaluated : (runSteps (guarded (step bareServer) endsAfterWrite) (onNewConnection true)
      [.data rootRequest true, .written 0, .closeCallback]).map
      (fun c => (c.closed, c.closeCalls)) = some (true, 1) := by decide
  obtain ⟨connection, ran, facts⟩ := Option.map_eq_some_iff.mp evaluated
  obtain ⟨closed, calls⟩ := Prod.mk.inj facts
  have reached : ReachableUnder (step bareServer) EndsAfterWrite (onNewConnection true)
      connection := reachableUnder_of_guarded (fun _ _ => endsAfterWrite_sound) ran
  exact ⟨connection, reached, closed, calls, (closed_at_most_once bareServer true reached).1⟩

/-- A server whose responses no socket takes at once. -/
def largeServer : HttpServer :=
  ⟨some fun _ _ _ => { body := List.replicate (2 ^ 26) 97 }, fun _ _ => none⟩

/-- The client closes its side right after the request, and the response is still being
written. -/
theorem half_closed_client_closed_twice :
    ¬ ∀ connection, Reachable (step largeServer) (onNewConnection true) connection →
      connection.ClosedOnce := by
  intro always
  have evaluated : (runSteps (step largeServer) (onNewConnection true)
      [.data rootRequest true, .eof, .written (-125)]).map (·.closeCalls) = some 2 := by
    decide
  obtain ⟨connection, ran, calls⟩ := Option.map_eq_some_iff.mp evaluated
  have once := (always connection (reachable_of_runSteps ran)).1
  omega

end Kode.Http.Connection
