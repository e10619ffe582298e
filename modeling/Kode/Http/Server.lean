/-
# The HTTP server

`HttpServer` collects what a client sends until it sees the end of the headers, makes
one response and closes the connection when the response is written. One connection
is modelled together with the handle that libuv keeps for it, as a step function over
the callbacks that libuv can make.

About libuv the model has what its documentation says. Read callbacks come only while
the handle is being read; `uv_close` stops that. A write request ends with one
callback, with an error code if the handle was closed before. The close callback comes
after the callbacks of all write requests. `uv_close` on a handle that is closing
already is a fatal error.

The fields of `Connection` that no function reads are left out.
-/

import Kode.Library.StepSystem
import Kode.Library.Utf8
import Mathlib.Algebra.GroupWithZero.Nat

namespace Kode.Http

open Kode.Library

/-- `HttpServer::Response`. -/
structure Response where
  status : ℤ := 200
  contentType : Bytes := bytesOf "text/plain"
  body : Bytes := []
  headers : List (Bytes × Bytes) := []
  deriving DecidableEq, Repr

/-- `HttpServer::Handler`: method, path and raw request. A handler is a function of these and
keeps no state. -/
abbrev Handler := Bytes → Bytes → Bytes → Response

/-- The fallback handler and the routes of a server. -/
structure HttpServer where
  handler : Option Handler
  routes : Bytes → Bytes → Option Handler

/-- `std::string::find`: where `needle` first begins. -/
def find (needle : Bytes) : Bytes → Option ℕ
  | [] => if needle = [] then some 0 else none
  | byte :: rest =>
      if needle.isPrefixOf (byte :: rest) then some 0 else (find needle rest).map (· + 1)

/-- `std::string::find` from a position on. -/
def findFrom (needle bytes : Bytes) (position : ℕ) : Option ℕ :=
  (find needle (bytes.drop position)).map (· + position)

/-- The method and the path that `handle_request` takes from the buffer. -/
def requestLine (buffer : Bytes) : Bytes × Bytes :=
  match find [32] buffer with
  | none => (bytesOf "GET", bytesOf "/")
  | some sp1 =>
      match findFrom [32] buffer (sp1 + 1) with
      | none => (buffer.take sp1, bytesOf "/")
      | some sp2 => (buffer.take sp1, (buffer.drop (sp1 + 1)).take (sp2 - sp1 - 1))

namespace HttpServer

/-- The response of the route, or of the fallback where that has no body. -/
def lookup (server : HttpServer) (method path buffer : Bytes) : Response :=
  let routed : Response :=
    match server.routes method path with
    | some handler => handler method path buffer
    | none => {}
  if routed.body = [] then
    match server.handler with
    | some handler => handler method path buffer
    | none =>
        { routed with
          status := 200
          contentType := bytesOf "text/plain"
          body := bytesOf "Hello from Kode HTTP" }
  else routed

/-- The text for a status. -/
def statusText (status : ℤ) : Bytes :=
  if status = 404 then bytesOf "Not Found"
  else if status = 500 then bytesOf "Internal Server Error"
  else bytesOf "OK"

/-- The bytes of a response. -/
def serialize (response : Response) : Bytes :=
  bytesOf "HTTP/1.1 " ++ bytesOf (toString response.status) ++ bytesOf " " ++
    statusText response.status ++ bytesOf "\r\n" ++ bytesOf "Connection: close\r\n" ++
    bytesOf "Content-Type: " ++ response.contentType ++ bytesOf "\r\n" ++
    response.headers.flatMap (fun header =>
      header.1 ++ bytesOf ": " ++ header.2 ++ bytesOf "\r\n") ++
    bytesOf "Content-Length: " ++ bytesOf (toString response.body.length) ++
    bytesOf "\r\n\r\n" ++ response.body

/-- `uv_buf_init`, whose length is an `unsigned int`. -/
def uvBufInit (response : Bytes) : Bytes := response.take (response.length % 2 ^ 32)

/-- The bytes that `handle_request` writes for the request in the buffer. -/
def respond (server : HttpServer) (buffer : Bytes) : Bytes :=
  let line := requestLine buffer
  uvBufInit (serialize (server.lookup line.1 line.2 buffer))

end HttpServer

/-! ## A connection -/

/-- A call of `handle_request`: what it hands to the handlers. -/
structure Dispatch where
  method : Bytes
  path : Bytes
  rawRequest : Bytes
  deriving DecidableEq, Repr

/-- The call for the request in the buffer. -/
def Dispatch.ofBuffer (buffer : Bytes) : Dispatch where
  method := (requestLine buffer).1
  path := (requestLine buffer).2
  rawRequest := buffer

/-- `HttpServer::Connection` with the state of its handle. `writes` are the write
requests without a callback so far, `closeCalls` counts the calls of `uv_close`, and
`fatal` is set by one on a closing handle. -/
structure Connection where
  buffer : Bytes
  responded : Bool
  reading : Bool
  writes : List Bytes
  closing : Bool
  closed : Bool
  closeCalls : ℕ
  fatal : Bool
  deriving DecidableEq, Repr

/-- A callback of libuv on one connection. `accepted` says whether a `uv_write` made
in it is taken up; the server does not look at its result. -/
inductive Event
  /-- `nread > 0`. -/
  | data (chunk : Bytes) (accepted : Bool)
  /-- `nread = 0`. -/
  | nothing
  | eof
  | readError
  | written (status : ℤ)
  | closeCallback
  deriving DecidableEq, Repr

namespace Connection

/-- `uv_close`. -/
def uvClose (connection : Connection) : Connection :=
  if connection.closing then
    { connection with closeCalls := connection.closeCalls + 1, fatal := true }
  else
    { connection with
      closing := true, reading := false, closeCalls := connection.closeCalls + 1 }

/-- A new `Connection` with its handle. -/
def fresh : Connection :=
  { buffer := [], responded := false, reading := false, writes := [], closing := false,
    closed := false, closeCalls := 0, fatal := false }

/-- `on_new_connection`; `accepted` is the success of `uv_accept`. -/
def onNewConnection (accepted : Bool) : Connection :=
  if accepted then { fresh with reading := true } else fresh.uvClose

/-- `handle_request`, with what it hands to the handlers. -/
def handleRequest (server : HttpServer) (connection : Connection) (accepted : Bool) :
    Connection × Dispatch :=
  ({ connection with
      responded := true
      writes := if accepted then connection.writes ++ [server.respond connection.buffer]
        else connection.writes },
    .ofBuffer connection.buffer)

/-- `read_cb` with data, and the call of `handle_request` that it makes. -/
def readData (server : HttpServer) (connection : Connection) (chunk : Bytes)
    (accepted : Bool) : Connection × Option Dispatch :=
  let received := { connection with buffer := connection.buffer ++ chunk }
  if received.responded = false ∧ (find (bytesOf "\r\n\r\n") received.buffer).isSome then
    ((received.handleRequest server accepted).1, some (received.handleRequest server accepted).2)
  else (received, none)

/-- One callback. -/
def step (server : HttpServer) (connection : Connection) (event : Event) :
    Option Connection :=
  if connection.fatal ∨ connection.closed then none
  else
    match event with
    | .data chunk accepted =>
        if connection.reading ∧ chunk ≠ [] then
          some (connection.readData server chunk accepted).1
        else none
    | .nothing => if connection.reading then some connection else none
    | .eof => if connection.reading then some connection.uvClose else none
    | .readError => if connection.reading then some connection.uvClose else none
    | .written _ =>
        -- `after_write_cb` does not look at the status.
        match connection.writes with
        | [] => none
        | _ :: rest => some { connection with writes := rest }.uvClose
    | .closeCallback =>
        if connection.closing ∧ connection.writes = [] then
          some { connection with closed := true }
        else none

/-- Everything a callback can do. -/
inductive Move (server : HttpServer) (connection : Connection) : Event → Connection → Prop
  | data (chunk : Bytes) (accepted : Bool) (reading : connection.reading = true) :
      Move server connection (.data chunk accepted)
        (connection.readData server chunk accepted).1
  | nothing : Move server connection .nothing connection
  | ended (event : Event) (atEnd : event = .eof ∨ event = .readError)
      (reading : connection.reading = true) : Move server connection event connection.uvClose
  | written (status : ℤ) (request : Bytes) (rest : List Bytes)
      (writes : connection.writes = request :: rest) :
      Move server connection (.written status) { connection with writes := rest }.uvClose
  | closeCallback (closing : connection.closing = true) (idle : connection.writes = []) :
      Move server connection .closeCallback { connection with closed := true }

theorem step_move {server : HttpServer} {connection target : Connection} {event : Event}
    (taken : connection.step server event = some target) :
    connection.fatal = false ∧ connection.closed = false ∧
      Move server connection event target := by
  unfold step at taken
  by_cases gone : connection.fatal ∨ connection.closed
  · rw [if_pos gone] at taken
    cases taken
  rw [if_neg gone] at taken
  simp only [not_or, Bool.not_eq_true] at gone
  refine ⟨gone.1, gone.2, ?_⟩
  cases event with
  | data chunk accepted =>
      obtain ⟨⟨reading, -⟩, same⟩ := Option.ite_none_right_eq_some.mp taken
      obtain rfl := Option.some.inj same
      exact .data chunk accepted reading
  | nothing =>
      obtain ⟨-, same⟩ := Option.ite_none_right_eq_some.mp taken
      obtain rfl := Option.some.inj same
      exact .nothing
  | eof =>
      obtain ⟨reading, same⟩ := Option.ite_none_right_eq_some.mp taken
      obtain rfl := Option.some.inj same
      exact .ended _ (Or.inl rfl) reading
  | readError =>
      obtain ⟨reading, same⟩ := Option.ite_none_right_eq_some.mp taken
      obtain rfl := Option.some.inj same
      exact .ended _ (Or.inr rfl) reading
  | written status =>
      dsimp only at taken
      split at taken
      · cases taken
      · rename_i request rest writes
        obtain rfl := Option.some.inj taken
        exact .written status request rest writes
  | closeCallback =>
      obtain ⟨⟨closing, idle⟩, same⟩ := Option.ite_none_right_eq_some.mp taken
      obtain rfl := Option.some.inj same
      exact .closeCallback closing idle

end Connection

end Kode.Http
