/-
# When a request is dispatched

`read_cb` appends each chunk to the buffer and calls `handle_request` at the first chunk
after which the buffer contains an empty line. That depends on the bytes received and not
on where they were cut, and a request line is always in the buffer by then: the end of
the headers cannot begin before the end of the first line.

The handlers are given the buffer as it is at that moment. Nothing waits for a body, so
they see as much of it as came along in the chunk that completed the headers.
-/

import Kode.Http.Server
import Mathlib.Data.List.Infix
import Mathlib.Data.List.ReduceOption

namespace Kode.Http

open Kode.Library

/-! ## Searching a byte string -/

theorem find_isSome_iff {needle bytes : Bytes} :
    (find needle bytes).isSome = true ↔ needle <:+: bytes := by
  induction bytes with
  | nil =>
      unfold find
      split_ifs with nothing <;> simp [nothing]
  | cons byte rest ih =>
      rw [List.infix_cons_iff, find]
      split_ifs with here
      · simp [List.isPrefixOf_iff_prefix.mp here]
      · have elsewhere : ¬ needle <+: byte :: rest := mt List.isPrefixOf_iff_prefix.mpr here
        rw [Option.isSome_map, ih]
        simp [elsewhere]

theorem find_byte {byte : UInt8} {before : Bytes} (absent : byte ∉ before) (rest : Bytes) :
    find [byte] (before ++ byte :: rest) = some before.length := by
  induction before with
  | nil => simp [find]
  | cons other before ih =>
      have differs : byte ≠ other := fun same => absent (by simp [same])
      have later := ih fun member => absent (List.mem_cons_of_mem _ member)
      rw [List.cons_append, find, if_neg (by simpa using differs), later]
      rfl

/-! ## Calls of `handle_request` -/

/-- The end of the headers. -/
def headEnd : Bytes := bytesOf "\r\n\r\n"

theorem headEnd_eq : headEnd = [13, 10, 13, 10] := by decide

/-- The bytes that a callback brings. -/
def Event.received : Event → Bytes
  | .data chunk _ => chunk
  | _ => []

/-- The bytes that a list of callbacks brings. -/
def received (events : List Event) : Bytes := events.flatMap Event.received

namespace Connection

variable {server : HttpServer} {connection target : Connection} {event : Event}
  {events : List Event} {bytes : Bytes} {call : Option Dispatch} {calls : List (Option Dispatch)}

/-- The call of `handle_request` that a callback makes. -/
def dispatch? (server : HttpServer) (connection : Connection) : Event → Option Dispatch
  | .data chunk accepted => (connection.readData server chunk accepted).2
  | _ => none

/-- One callback, with the call of `handle_request` that it makes. -/
def observe (server : HttpServer) (connection : Connection) (event : Event) :
    Option (Connection × Option Dispatch) :=
  (connection.step server event).map fun target => (target, connection.dispatch? server event)

theorem dispatch?_data (server : HttpServer) (connection : Connection) (chunk : Bytes)
    (accepted : Bool) :
    connection.dispatch? server (.data chunk accepted) =
      if connection.responded = false ∧ (find headEnd (connection.buffer ++ chunk)).isSome then
        some (.ofBuffer (connection.buffer ++ chunk))
      else none := by
  unfold dispatch? readData
  exact apply_ite Prod.snd _ _ _

/-- `read_cb` writes the response of the handlers to the call that it makes. -/
theorem readData_eq (server : HttpServer) (connection : Connection) (chunk : Bytes)
    (accepted : Bool) :
    (connection.readData server chunk accepted).1 =
      match connection.dispatch? server (.data chunk accepted) with
      | some call => { connection with
          buffer := call.rawRequest
          responded := true
          writes := if accepted then connection.writes ++
              [HttpServer.uvBufInit (HttpServer.serialize
                (server.lookup call.method call.path call.rawRequest))]
            else connection.writes }
      | none => { connection with buffer := connection.buffer ++ chunk } := by
  rw [dispatch?_data, readData]
  dsimp only
  by_cases dispatched : connection.responded = false ∧
      (find headEnd (connection.buffer ++ chunk)).isSome
  · rw [if_pos dispatched]
    exact congrArg Prod.fst (if_pos dispatched)
  · rw [if_neg dispatched]
    exact congrArg Prod.fst (if_neg dispatched)

/-- What the connection knows of the bytes received: they are in the buffer, and it has
answered if they contain the end of the headers. -/
structure Holds (connection : Connection) (bytes : Bytes) : Prop where
  buffer : connection.buffer = bytes
  responded : connection.responded = true ↔ headEnd <:+: bytes

/-- The call that is due when a chunk follows the bytes received before. -/
def due (bytes chunk : Bytes) : Option Dispatch :=
  if ¬ headEnd <:+: bytes ∧ headEnd <:+: bytes ++ chunk then some (.ofBuffer (bytes ++ chunk))
  else none

theorem due_nil (bytes : Bytes) : due bytes [] = none := by
  unfold due
  rw [List.append_nil]
  exact if_neg fun both => both.1 both.2

theorem Holds.dispatch? (holds : connection.Holds bytes) (chunk : Bytes) (accepted : Bool) :
    connection.dispatch? server (.data chunk accepted) = due bytes chunk := by
  rw [dispatch?_data, holds.buffer]
  unfold due
  simp only [find_isSome_iff, ← holds.responded, Bool.not_eq_true]

/-- A chunk that is due for a call completes the headers. -/
theorem Holds.readData (holds : connection.Holds bytes) (chunk : Bytes) (accepted : Bool) :
    (connection.readData server chunk accepted).1.Holds (bytes ++ chunk) := by
  rw [readData_eq, holds.dispatch?]
  unfold due
  by_cases completes : ¬ headEnd <:+: bytes ∧ headEnd <:+: bytes ++ chunk
  · rw [if_pos completes]
    exact ⟨rfl, by simp [completes.2]⟩
  · rw [if_neg completes]
    refine ⟨by rw [holds.buffer], ?_⟩
    show connection.responded = true ↔ _
    rw [holds.responded]
    constructor
    · exact fun found => found.trans (List.prefix_append _ _).isInfix
    · intro found
      by_contra before
      exact completes ⟨before, found⟩

theorem holds_uvClose (holds : connection.Holds bytes) : connection.uvClose.Holds bytes := by
  unfold uvClose
  split_ifs <;> exact ⟨holds.buffer, holds.responded⟩

theorem Holds.after_observe (holds : connection.Holds bytes)
    (taken : connection.observe server event = some (target, call)) :
    target.Holds (bytes ++ event.received) ∧ call = due bytes event.received := by
  obtain ⟨next, stepped, same⟩ := Option.map_eq_some_iff.mp taken
  obtain ⟨rfl, rfl⟩ := Prod.mk.inj same
  obtain ⟨-, -, move⟩ := step_move stepped
  -- a callback without data changes neither the buffer nor the flag
  have silent (quiet : event.received = []) (none : connection.dispatch? server event = none)
      (kept : next.Holds bytes) : next.Holds (bytes ++ event.received) ∧
        connection.dispatch? server event = due bytes event.received := by
    rw [quiet, List.append_nil, due_nil]
    exact ⟨kept, none⟩
  cases move with
  | data chunk accepted reading =>
      exact ⟨holds.readData chunk accepted, holds.dispatch? chunk accepted⟩
  | nothing => exact silent rfl rfl holds
  | ended _ atEnd reading =>
      rcases atEnd with rfl | rfl <;> exact silent rfl rfl (holds_uvClose holds)
  | written status request rest writes =>
      refine silent rfl rfl (holds_uvClose ?_)
      exact ⟨holds.buffer, holds.responded⟩
  | closeCallback closing idle => exact silent rfl rfl ⟨holds.buffer, holds.responded⟩

/-! ## Whole runs -/

/-- The calls of a run, one entry for each callback. -/
def dueCalls (bytes : Bytes) : List Event → List (Option Dispatch)
  | [] => []
  | event :: events => due bytes event.received :: dueCalls (bytes ++ event.received) events

theorem Holds.calls_eq (holds : connection.Holds bytes)
    (ran : transcript (observe server) connection events = some calls) :
    calls = dueCalls bytes events := by
  induction events generalizing connection bytes calls with
  | nil => exact (Option.some.inj ran).symm
  | cons event events ih =>
      obtain ⟨next, call, rest, taken, remaining, rfl⟩ := transcript_cons_eq_some.mp ran
      obtain ⟨kept, rfl⟩ := holds.after_observe taken
      rw [dueCalls, ← ih kept remaining]

theorem holds_onNewConnection (accepted : Bool) : (onNewConnection accepted).Holds [] := by
  have nothing : ¬ headEnd <:+: [] := by decide
  have empty : fresh.Holds [] := ⟨rfl, by simp [fresh, nothing]⟩
  cases accepted with
  | false => exact holds_uvClose empty
  | true => exact ⟨rfl, empty.responded⟩

/-- After the end of the headers nothing is dispatched. -/
theorem dueCalls_of_complete (complete : headEnd <:+: bytes) (events : List Event) :
    dueCalls bytes events = List.replicate events.length none := by
  induction events generalizing bytes with
  | nil => rfl
  | cons event events ih =>
      have still : headEnd <:+: bytes ++ event.received :=
        complete.trans (List.prefix_append _ _).isInfix
      rw [dueCalls, ih still, due, if_neg fun both => both.1 complete]
      rfl

/-- The callback that completes the headers makes the only call. -/
theorem dueCalls_of_received (incomplete : ¬ headEnd <:+: bytes)
    (complete : headEnd <:+: bytes ++ received events) :
    ∃ before event after, events = before ++ event :: after ∧
      ¬ headEnd <:+: bytes ++ received before ∧
      headEnd <:+: bytes ++ received before ++ event.received ∧
      dueCalls bytes events = List.replicate before.length none ++
        some (.ofBuffer (bytes ++ received before ++ event.received)) ::
          List.replicate after.length none := by
  induction events generalizing bytes with
  | nil => exact absurd complete (by simpa [received] using incomplete)
  | cons event events ih =>
      by_cases now : headEnd <:+: bytes ++ event.received
      · refine ⟨[], event, events, rfl, by simpa [received] using incomplete,
          by simpa [received] using now, ?_⟩
        rw [dueCalls, dueCalls_of_complete now, due, if_pos ⟨incomplete, now⟩]
        simp [received]
      · have rest : headEnd <:+: (bytes ++ event.received) ++ received events := by
          simpa [received] using complete
        obtain ⟨before, last, after, rfl, notYet, done, calls⟩ := ih now rest
        refine ⟨event :: before, last, after, rfl, by simpa [received] using notYet,
          by simpa [received] using done, ?_⟩
        rw [dueCalls, calls, due, if_neg fun both => now both.2]
        simp [received, List.replicate_succ]

/-- A run that receives the end of the headers makes one call, at the callback that
completes them. -/
theorem dispatched_at (ran : transcript (observe server) (onNewConnection true) events =
      some calls) (complete : headEnd <:+: received events) :
    ∃ before event after, events = before ++ event :: after ∧
      ¬ headEnd <:+: received before ∧ headEnd <:+: received before ++ event.received ∧
      calls = List.replicate before.length none ++
        some (.ofBuffer (received before ++ event.received)) ::
          List.replicate after.length none := by
  rw [(holds_onNewConnection true).calls_eq ran]
  have nothing : ¬ headEnd <:+: ([] : Bytes) := by decide
  simpa using dueCalls_of_received nothing complete

/-- The callbacks for a stream that arrives in chunks. -/
def chunkEvents (chunks : List Bytes) (accepted : Bool) : List Event :=
  chunks.map fun chunk => .data chunk accepted

@[simp]
theorem received_chunkEvents (chunks : List Bytes) (accepted : Bool) :
    received (chunkEvents chunks accepted) = chunks.flatten := by
  induction chunks with
  | nil => rfl
  | cons chunk chunks ih =>
      have unfolded : received (chunkEvents (chunk :: chunks) accepted) =
          chunk ++ received (chunkEvents chunks accepted) := rfl
      rw [unfolded, ih, List.flatten_cons]

theorem step_data (server : HttpServer) (connection : Connection)
    (alive : ¬ (connection.fatal ∨ connection.closed)) (reading : connection.reading = true)
    {chunk : Bytes} (nonempty : chunk ≠ []) (accepted : Bool) :
    connection.step server (.data chunk accepted) =
      some (connection.readData server chunk accepted).1 := by
  unfold step
  rw [if_neg alive]
  exact if_pos ⟨reading, nonempty⟩

/-- Chunks can arrive as long as the connection is read. -/
theorem transcript_chunkEvents (server : HttpServer) {chunks : List Bytes}
    (nonempty : ∀ chunk ∈ chunks, chunk ≠ []) (accepted : Bool) (connection : Connection)
    (alive : ¬ (connection.fatal ∨ connection.closed)) (reading : connection.reading = true) :
    ∃ calls, transcript (observe server) connection (chunkEvents chunks accepted) =
      some calls := by
  induction chunks generalizing connection with
  | nil => exact ⟨[], rfl⟩
  | cons chunk chunks ih =>
      have taken := step_data server connection alive reading
        (nonempty chunk List.mem_cons_self) accepted
      have unchanged : ¬ ((connection.readData server chunk accepted).1.fatal ∨
          (connection.readData server chunk accepted).1.closed) ∧
            (connection.readData server chunk accepted).1.reading = true := by
        rw [readData_eq]
        split <;> exact ⟨alive, reading⟩
      obtain ⟨calls, ran⟩ := ih (fun other member => nonempty other (List.mem_cons_of_mem _ member))
        (connection.readData server chunk accepted).1 unchanged.1 unchanged.2
      refine ⟨connection.dispatch? server (.data chunk accepted) :: calls, ?_⟩
      refine transcript_cons_eq_some.mpr ⟨_, _, _, ?_, ran, rfl⟩
      exact Option.map_eq_some_iff.mpr ⟨_, taken, rfl⟩

end Connection

/-! ## The request line -/

/-- A request line as a client sends it. -/
structure RequestLine where
  method : Bytes
  path : Bytes
  version : Bytes
  method_ne : method ≠ []
  path_ne : path ≠ []
  method_clean : ∀ byte ∈ method, byte ≠ 32 ∧ byte ≠ 13 ∧ byte ≠ 10
  path_clean : ∀ byte ∈ path, byte ≠ 32 ∧ byte ≠ 13 ∧ byte ≠ 10
  version_clean : ∀ byte ∈ version, byte ≠ 13 ∧ byte ≠ 10

namespace RequestLine

variable (line : RequestLine)

/-- The line up to its second space. -/
def target : Bytes := line.method ++ 32 :: (line.path ++ [32])

/-- The bytes of the line. -/
def bytes : Bytes := line.target ++ line.version ++ [13, 10]

theorem requestLine_target (rest : Bytes) :
    requestLine (line.target ++ rest) = (line.method, line.path) := by
  have method_free : (32 : UInt8) ∉ line.method := fun member => (line.method_clean _ member).1 rfl
  have path_free : (32 : UInt8) ∉ line.path := fun member => (line.path_clean _ member).1 rfl
  have whole : line.target ++ rest = line.method ++ 32 :: (line.path ++ 32 :: rest) := by
    simp [target]
  have first := find_byte method_free (line.path ++ 32 :: rest)
  have behind : (line.method ++ 32 :: (line.path ++ 32 :: rest)).drop (line.method.length + 1) =
      line.path ++ 32 :: rest := by
    rw [List.drop_append]
    simp
  have second : findFrom [32] (line.method ++ 32 :: (line.path ++ 32 :: rest))
      (line.method.length + 1) = some (line.path.length + (line.method.length + 1)) := by
    rw [findFrom, behind, find_byte path_free]
    rfl
  have width : line.path.length + (line.method.length + 1) - line.method.length - 1 =
      line.path.length := by omega
  rw [whole, requestLine, first]
  dsimp only
  rw [second]
  dsimp only
  rw [behind, width, List.take_left, List.take_left]

/-- The end of the headers lies behind the request line, so a buffer that contains it
has the line up to its second space. -/
theorem requestLine_of_complete {rest buffer : Bytes} (received : buffer <+: line.bytes ++ rest)
    (complete : headEnd <:+: buffer) : requestLine buffer = (line.method, line.path) := by
  have start : line.target <+: line.bytes ++ rest :=
    ⟨line.version ++ [13, 10] ++ rest, by simp [bytes]⟩
  rcases List.prefix_or_prefix_of_prefix start received with ⟨tail, rfl⟩ | short
  · exact line.requestLine_target tail
  · exfalso
    have member : (13 : UInt8) ∈ line.target :=
      short.subset (complete.subset (by simp [headEnd_eq]))
    simp only [target, List.mem_append, List.mem_cons, List.not_mem_nil, or_false] at member
    rcases member with inMethod | space | inPath | space
    · exact (line.method_clean _ inMethod).2.1 rfl
    · cases space
    · exact (line.path_clean _ inPath).2.1 rfl
    · cases space

end RequestLine

namespace Connection

/-- However a request is cut into chunks, they can be read, and every run that receives
it calls `handle_request` once: at the first callback after which the bytes received
contain the end of the headers, with the method and the path of the request line. -/
theorem request_line_dispatched_once (server : HttpServer) (line : RequestLine) (rest : Bytes)
    (complete : headEnd <:+: line.bytes ++ rest) :
    (∀ chunks, (∀ chunk ∈ chunks, chunk ≠ []) → chunks.flatten = line.bytes ++ rest →
      ∀ accepted, ∃ calls, transcript (observe server) (onNewConnection true)
        (chunkEvents chunks accepted) = some calls) ∧
    ∀ events calls, received events = line.bytes ++ rest →
      transcript (observe server) (onNewConnection true) events = some calls →
      ∃ before event after, events = before ++ event :: after ∧
        ¬ headEnd <:+: received before ∧ headEnd <:+: received (before ++ [event]) ∧
        calls = List.replicate before.length none ++
          some ⟨line.method, line.path, received (before ++ [event])⟩ ::
            List.replicate after.length none := by
  constructor
  · intro chunks nonempty _ accepted
    exact transcript_chunkEvents server nonempty accepted (onNewConnection true) (by decide) rfl
  · intro events calls whole ran
    rw [← whole] at complete
    obtain ⟨before, event, after, rfl, notYet, done, rfl⟩ := dispatched_at ran complete
    have joined : received (before ++ [event]) = received before ++ event.received := by
      simp [received]
    have start : received before ++ event.received <+: line.bytes ++ rest :=
      ⟨received after, by rw [← whole]; simp [received]⟩
    refine ⟨before, event, after, rfl, notYet, joined ▸ done, ?_⟩
    rw [Dispatch.ofBuffer, line.requestLine_of_complete start done, joined]

/-- The request line of a request for the root. -/
def rootLine : RequestLine where
  method := bytesOf "GET"
  path := bytesOf "/"
  version := bytesOf "HTTP/1.1"
  method_ne := by decide
  path_ne := by decide
  method_clean := by decide +kernel
  path_clean := by decide +kernel
  version_clean := by decide +kernel

/-- A request that is cut inside its method and inside the end of its headers, with a
byte behind it. -/
def cutRequest : List Bytes := ["G", "ET / HTTP/1.1\r", "\n\r", "\n", "x"].map bytesOf

theorem request_line_dispatched_once_cut :
    ∃ before after : List Event, ∃ event, transcript (observe ⟨none, fun _ _ => none⟩)
        (onNewConnection true) (chunkEvents cutRequest true) =
      some (List.replicate before.length none ++
        some ⟨bytesOf "GET", bytesOf "/", received (before ++ [event])⟩ ::
          List.replicate after.length none) := by
  have whole : cutRequest.flatten = rootLine.bytes ++ bytesOf "\r\nx" := by decide
  obtain ⟨reads, once⟩ := request_line_dispatched_once ⟨none, fun _ _ => none⟩ rootLine
    (bytesOf "\r\nx") (by decide)
  obtain ⟨calls, ran⟩ := reads cutRequest (by decide) whole true
  obtain ⟨before, event, after, -, -, -, rfl⟩ :=
    once _ calls ((received_chunkEvents _ _).trans whole) ran
  exact ⟨before, after, event, ran⟩

/-! ## What the handlers see -/

/-- The raw requests that the handlers are given in a run. -/
def rawRequests (calls : List (Option Dispatch)) : List Bytes :=
  calls.reduceOption.map Dispatch.rawRequest

/-- The chunks are a way of cutting the stream. -/
def Cuts (chunks : List Bytes) (stream : Bytes) : Prop :=
  (∀ chunk ∈ chunks, chunk ≠ []) ∧ chunks.flatten = stream

/-- The handlers see the bytes up to the end of the chunk that completes the headers. -/
theorem rawRequests_of_chunks {server : HttpServer} {chunks : List Bytes} {accepted : Bool}
    {calls : List (Option Dispatch)} (complete : headEnd <:+: chunks.flatten)
    (ran : transcript (observe server) (onNewConnection true) (chunkEvents chunks accepted) =
      some calls) :
    ∃ before chunk after, chunks = before ++ chunk :: after ∧ ¬ headEnd <:+: before.flatten ∧
      headEnd <:+: before.flatten ++ chunk ∧ rawRequests calls = [before.flatten ++ chunk] := by
  rw [← received_chunkEvents chunks accepted] at complete
  obtain ⟨first, event, last, split, notYet, done, rfl⟩ := dispatched_at ran complete
  obtain ⟨before, others, rfl, rfl, tail⟩ := List.map_eq_append_iff.mp split
  obtain ⟨chunk, after, rfl, rfl, rfl⟩ := List.map_eq_cons_iff.mp tail
  have arrived : received (before.map fun chunk => .data chunk accepted) = before.flatten :=
    received_chunkEvents before accepted
  rw [arrived] at notYet done ⊢
  refine ⟨before, chunk, after, rfl, notYet, done, ?_⟩
  simp [rawRequests, List.reduceOption_append, Dispatch.ofBuffer, Event.received]

/-- The head of a request: the first empty line in it is at its end. -/
structure EndsHead (head : Bytes) : Prop where
  ends : headEnd <:+ head
  first : ¬ headEnd <:+: head.dropLast

namespace EndsHead

variable {head start : Bytes}

theorem ne_nil (ends : EndsHead head) : head ≠ [] := by
  rintro rfl
  exact absurd ends.ends (by decide)

/-- The beginning of a request contains the end of the headers if it contains the head. -/
theorem headEnd_infix_iff (ends : EndsHead head) (body : Bytes)
    (prior : start <+: head ++ body) :
    headEnd <:+: start ↔ head.length ≤ start.length := by
  constructor
  · intro found
    by_contra short
    have inHead : start <+: head := List.prefix_of_prefix_length_le prior
      (List.prefix_append head body) (Nat.le_of_not_le short)
    have before : start <+: head.dropLast := by
      refine List.prefix_of_prefix_length_le inHead (List.dropLast_prefix head) ?_
      rw [List.length_dropLast]
      omega
    exact ends.first (found.trans before.isInfix)
  · intro long
    have whole := List.prefix_of_prefix_length_le (List.prefix_append head body) prior long
    exact ends.ends.isInfix.trans whole.isInfix

end EndsHead

theorem Cuts.infix_of_head {head body : Bytes} {chunks : List Bytes} (ends : EndsHead head)
    (cuts : Cuts chunks (head ++ body)) : headEnd <:+: chunks.flatten := by
  rw [cuts.2]
  exact ends.ends.isInfix.trans (List.prefix_append head body).isInfix

/-- The handlers see the whole request if the last chunk completes the head. -/
theorem rawRequests_eq_iff {server : HttpServer} {head body : Bytes} (ends : EndsHead head)
    {chunks : List Bytes} (cuts : Cuts chunks (head ++ body)) {accepted : Bool}
    {calls : List (Option Dispatch)}
    (ran : transcript (observe server) (onNewConnection true) (chunkEvents chunks accepted) =
      some calls) :
    rawRequests calls = [head ++ body] ↔ chunks.dropLast.flatten.length < head.length := by
  obtain ⟨before, chunk, after, rfl, notYet, done, raw⟩ :=
    rawRequests_of_chunks (cuts.infix_of_head ends) ran
  have whole : before.flatten ++ chunk ++ after.flatten = head ++ body := by
    simpa using cuts.2
  rw [ends.headEnd_infix_iff body ⟨chunk ++ after.flatten, by simpa using whole⟩] at notYet
  rw [ends.headEnd_infix_iff body ⟨after.flatten, whole⟩] at done
  rw [raw, List.cons.injEq, and_iff_left rfl]
  constructor
  · intro everything
    have nothing : after.flatten = [] := by simpa [← everything] using whole
    have last : after = [] := by
      cases after with
      | nil => rfl
      | cons other after =>
          exact absurd (List.append_eq_nil_iff.mp nothing).1 (cuts.1 other (by simp))
    subst last
    simpa using notYet
  · intro short
    cases after with
    | nil => simpa using whole
    | cons other after =>
        have longer : (before ++ chunk :: other :: after).dropLast =
            before ++ chunk :: (other :: after).dropLast := by
          rw [List.dropLast_append_of_ne_nil (by simp), List.dropLast_cons_of_ne_nil (by simp)]
        rw [longer] at short
        simp at short done
        omega

/-- For one way of cutting a request, the handlers see all of it exactly if the last chunk
completes the head. They see the same whole request for every way of cutting it exactly
if it has no body. -/
theorem whole_request_seen_iff (server : HttpServer) {head body : Bytes} (ends : EndsHead head) :
    (∀ chunks, Cuts chunks (head ++ body) → ∀ accepted calls,
      transcript (observe server) (onNewConnection true) (chunkEvents chunks accepted) =
        some calls →
      (rawRequests calls = [head ++ body] ↔ chunks.dropLast.flatten.length < head.length)) ∧
    ((∃ raw, head ++ body <:+: raw ∧ ∀ chunks, Cuts chunks (head ++ body) → ∀ accepted calls,
      transcript (observe server) (onNewConnection true) (chunkEvents chunks accepted) =
        some calls → rawRequests calls = [raw]) ↔ body = []) := by
  refine ⟨fun chunks cuts accepted calls ran => rawRequests_eq_iff ends cuts ran, ?_, ?_⟩
  · rintro ⟨raw, complete, same⟩
    by_contra some_body
    -- the head in one chunk, the body in the next
    have cuts : Cuts [head, body] (head ++ body) := by
      refine ⟨?_, by simp⟩
      simp [ends.ne_nil, some_body]
    obtain ⟨calls, ran⟩ := transcript_chunkEvents server cuts.1 true (onNewConnection true)
      (by decide) rfl
    have seen := same _ cuts true calls ran
    obtain ⟨before, chunk, after, split, -, -, prior⟩ :=
      rawRequests_of_chunks (cuts.infix_of_head ends) ran
    obtain rfl : raw = before.flatten ++ chunk := List.singleton_inj.mp (seen.symm.trans prior)
    have within : (before.flatten ++ chunk).length ≤ (head ++ body).length := by
      rw [← cuts.2, split]
      simp
    have everything := complete.eq_of_length_le within
    rw [← everything, rawRequests_eq_iff ends cuts ran] at seen
    simp at seen
  · rintro rfl
    refine ⟨head ++ [], List.infix_rfl, fun chunks cuts accepted calls ran => ?_⟩
    rw [rawRequests_eq_iff ends cuts ran]
    have some_chunk : chunks ≠ [] := by
      rintro rfl
      exact ends.ne_nil (by simpa using cuts.2.symm)
    have last := cuts.1 _ (List.getLast_mem some_chunk)
    have whole : (chunks.dropLast ++ [chunks.getLast some_chunk]).flatten = head := by
      rw [List.dropLast_append_getLast, cuts.2, List.append_nil]
    have longer := List.length_pos_of_ne_nil last
    rw [← whole, List.flatten_append, List.length_append]
    simpa using longer

/-- The head of a request that announces a body of two bytes. -/
def postHead : Bytes := bytesOf "POST /a HTTP/1.1\r\nContent-Length: 2\r\n\r\n"

theorem endsHead_postHead : EndsHead postHead := ⟨by decide, by decide⟩

/-- A request whose body comes with the end of the head is seen whole. -/
theorem whole_request_seen_iff_oneChunk :
    ∃ calls, transcript (observe ⟨none, fun _ _ => none⟩) (onNewConnection true)
        (chunkEvents [postHead ++ bytesOf "ok"] true) = some calls ∧
      rawRequests calls = [postHead ++ bytesOf "ok"] := by
  have cuts : Cuts [postHead ++ bytesOf "ok"] (postHead ++ bytesOf "ok") :=
    ⟨by decide, by simp⟩
  obtain ⟨calls, ran⟩ := transcript_chunkEvents ⟨none, fun _ _ => none⟩ cuts.1 true
    (onNewConnection true) (by decide) rfl
  have seen := (whole_request_seen_iff ⟨none, fun _ _ => none⟩ endsHead_postHead).1 _ cuts true
    calls ran
  exact ⟨calls, ran, seen.mpr (by decide)⟩

/-- The head has a `Content-Length` header with the value. -/
def Announces (head : Bytes) (length : ℕ) : Prop :=
  bytesOf "\r\nContent-Length: " ++ bytesOf (toString length) ++ bytesOf "\r\n" <:+: head

/-- A body that comes in a chunk of its own is not seen. -/
theorem late_body_unseen :
    ¬ ∀ (server : HttpServer) (head body : Bytes), EndsHead head →
      Announces head body.length → ∃ raw, head ++ body <:+: raw ∧
        ∀ chunks, Cuts chunks (head ++ body) → ∀ accepted calls,
          transcript (observe server) (onNewConnection true) (chunkEvents chunks accepted) =
            some calls → rawRequests calls = [raw] := by
  intro always
  have evaluated : (transcript (observe ⟨none, fun _ _ => none⟩) (onNewConnection true)
      (chunkEvents [postHead, bytesOf "ok"] true)).map rawRequests = some [postHead] := by
    decide
  obtain ⟨calls, ran, seen⟩ := Option.map_eq_some_iff.mp evaluated
  have cuts : Cuts [postHead, bytesOf "ok"] (postHead ++ bytesOf "ok") :=
    ⟨by decide, by simp⟩
  have announced : Announces postHead (bytesOf "ok").length := by
    unfold Announces
    decide
  obtain ⟨raw, complete, same⟩ := always _ postHead (bytesOf "ok") endsHead_postHead announced
  obtain rfl : postHead = raw :=
    List.singleton_inj.mp (seen.symm.trans (same _ cuts true calls ran))
  exact absurd complete (by decide)

end Connection

end Kode.Http
