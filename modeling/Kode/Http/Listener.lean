/-
# Many connections on one server

All connections of an `HttpServer` are served by one event loop, so their callbacks come
in any order, between calls that register handlers and calls that start and stop the
server. A connection has a buffer of its own and looks its handler up when its request is
complete.

The server is compared with one that keeps no state. That one is given the whole history
of the loop and computes each response from the bytes that came on the connection and from
the registrations up to then. So no cut of the stream can be seen in a response, and no
connection is sent a second one; a response that libuv refuses to write is never sent.

Handlers are functions of their arguments. Connections are named by an arbitrary type, and a
name is not used twice. The fatal error of one connection ends the process, and with it all
others.
-/

import Kode.Http.Dispatch
import Kode.Http.Routing

namespace Kode.Http

open Kode.Library

universe u

/-- libuv takes up what is written in the callback. -/
def Event.takenUp : Event → Bool
  | .data _ accepted => accepted
  | _ => false

/-- The response that a callback sends. -/
def Connection.written (server : HttpServer) (connection : Connection) (event : Event) :
    Option Bytes :=
  if event.takenUp then
    (connection.dispatch? server event).map fun call => server.respond call.rawRequest
  else none

/-- It is what the callback adds to the write requests. -/
theorem Connection.writes_readData (server : HttpServer) (connection : Connection)
    (chunk : Bytes) (accepted : Bool) :
    (connection.readData server chunk accepted).1.writes =
      connection.writes ++ (connection.written server (.data chunk accepted)).toList := by
  rw [written, readData_eq]
  cases called : connection.dispatch? server (.data chunk accepted) with
  | none => simp
  | some call =>
      have raw : call = .ofBuffer call.rawRequest := by
        rw [dispatch?_data] at called
        obtain ⟨-, same⟩ := Option.ite_none_right_eq_some.mp called
        rw [← Option.some.inj same]
        rfl
      cases accepted with
      | false => simp [Event.takenUp]
      | true =>
          rw [raw]
          rfl

/-- An `HttpServer` with the connections it has accepted so far. -/
structure Listener (ι : Type u) where
  server : HttpServer
  running : Bool
  connections : ι → Option Connection
  /-- A connection met a fatal error. -/
  aborted : Bool

namespace Listener

variable {ι : Type u} [DecidableEq ι]

/-- What the event loop can bring next. -/
inductive LoopEvent (ι : Type u)
  /-- A call of `start`; `bound` is the success of binding and listening. -/
  | start (bound : Bool)
  | stop
  | register (call : HttpServer.Registration)
  /-- `on_new_connection` with a negative status. -/
  | refused
  | connect (connection : ι) (accepted : Bool)
  | callback (connection : ι) (event : Event)

/-- `HttpServer(loop)`. -/
def created : Listener ι :=
  { server := .empty, running := false, connections := fun _ => none, aborted := false }

/-- One event, with the response it sends. -/
def step (listener : Listener ι) (event : LoopEvent ι) :
    Option (Listener ι × Option (ι × Bytes)) :=
  if listener.aborted then none
  else
    match event with
    | .start bound => some ({ listener with running := listener.running || bound }, none)
    | .stop => some ({ listener with running := false }, none)
    | .register call => some ({ listener with server := listener.server.register call }, none)
    | .refused => if listener.running then some (listener, none) else none
    | .connect name accepted =>
        if listener.running ∧ listener.connections name = none then
          some ({ listener with
            connections := Function.update listener.connections name
              (some (.onNewConnection accepted)) }, none)
        else none
    | .callback name event =>
        match listener.connections name with
        | none => none
        | some connection =>
            (connection.step listener.server event).map fun target =>
              ({ listener with
                connections := Function.update listener.connections name (some target)
                aborted := target.fatal },
                (connection.written listener.server event).map fun bytes => (name, bytes))

/-! ## The history of the loop -/

/-- The calls that registered a handler. -/
def registrations (history : List (LoopEvent ι)) : List HttpServer.Registration :=
  history.filterMap fun
    | .register call => some call
    | _ => none

/-- The bytes that an event brings on a connection. -/
def LoopEvent.receivedOn (name : ι) : LoopEvent ι → Bytes
  | .callback other event => if other = name then event.received else []
  | _ => []

/-- The bytes that came on a connection. -/
def receivedOn (name : ι) (history : List (LoopEvent ι)) : Bytes :=
  history.flatMap (LoopEvent.receivedOn name)

/-- libuv takes up what is written in the event. -/
def LoopEvent.takenUp : LoopEvent ι → Bool
  | .callback _ event => event.takenUp
  | _ => false

/-- The response that is due behind a history: the first time the bytes of the connection
contain the end of the headers, by the handlers registered up to then. -/
def reply (history : List (LoopEvent ι)) : LoopEvent ι → Option (ι × Bytes)
  | .callback name event =>
      if event.takenUp then
        (Connection.due (receivedOn name history) event.received).map fun call =>
          (name, (HttpServer.configure (registrations history)).respond call.rawRequest)
      else none
  | _ => none

@[simp]
theorem receivedOn_append_singleton (name : ι) (history : List (LoopEvent ι))
    (event : LoopEvent ι) :
    receivedOn name (history ++ [event]) = receivedOn name history ++ event.receivedOn name := by
  simp [receivedOn]

/-- What the state knows of the history. -/
structure Summarizes (listener : Listener ι) (history : List (LoopEvent ι)) : Prop where
  server : listener.server = HttpServer.configure (registrations history)
  known : ∀ name connection, listener.connections name = some connection →
    connection.Holds (receivedOn name history)
  unknown : ∀ name, listener.connections name = none → receivedOn name history = []

theorem summarizes_created : (created : Listener ι).Summarizes [] where
  server := rfl
  known name connection known := by cases known
  unknown name _ := rfl

/-- An event that brings no bytes and touches no connection. -/
theorem Summarizes.silent {listener target : Listener ι} {history : List (LoopEvent ι)}
    (summarizes : listener.Summarizes history) {event : LoopEvent ι}
    (server : target.server = HttpServer.configure (registrations (history ++ [event])))
    (same : target.connections = listener.connections)
    (nothing : ∀ name, event.receivedOn name = []) : target.Summarizes (history ++ [event]) where
  server := server
  known name connection known := by
    rw [receivedOn_append_singleton, nothing, List.append_nil]
    exact summarizes.known name connection (same ▸ known)
  unknown name unknown := by
    rw [receivedOn_append_singleton, nothing, List.append_nil]
    exact summarizes.unknown name (same ▸ unknown)

omit [DecidableEq ι] in
/-- An event that is no registration leaves the tables alone. -/
theorem registrations_append_singleton {history : List (LoopEvent ι)} {event : LoopEvent ι}
    (other : ∀ call, event ≠ .register call) :
    registrations (history ++ [event]) = registrations history := by
  cases event with
  | register call => exact absurd rfl (other call)
  | _ => simp [registrations]

/-- An event that sets one connection. -/
theorem Summarizes.update {listener : Listener ι} {history : List (LoopEvent ι)}
    (summarizes : listener.Summarizes history) {name : ι} {target : Connection}
    {event : LoopEvent ι} (other : ∀ call, event ≠ .register call)
    (holds : target.Holds (receivedOn name history ++ event.receivedOn name))
    (elsewhere : ∀ others, others ≠ name → event.receivedOn others = []) (aborted : Bool) :
    Summarizes { listener with
      connections := Function.update listener.connections name (some target), aborted }
      (history ++ [event]) where
  server := by
    rw [registrations_append_singleton other]
    exact summarizes.server
  known asked connection known := by
    rw [receivedOn_append_singleton]
    by_cases same : asked = name
    · subst same
      simp only [Function.update_self] at known
      obtain rfl := Option.some.inj known
      exact holds
    · simp only [Function.update_of_ne same] at known
      rw [elsewhere asked same, List.append_nil]
      exact summarizes.known asked connection known
  unknown asked unknown := by
    by_cases same : asked = name
    · subst same
      simp only [Function.update_self, reduceCtorEq] at unknown
    · simp only [Function.update_of_ne same] at unknown
      rw [receivedOn_append_singleton, elsewhere asked same, List.append_nil]
      exact summarizes.unknown asked unknown

theorem Summarizes.step {listener target : Listener ι} {history : List (LoopEvent ι)}
    {event : LoopEvent ι} {output : Option (ι × Bytes)} (summarizes : listener.Summarizes history)
    (taken : listener.step event = some (target, output)) :
    target.Summarizes (history ++ [event]) ∧ output = reply history event := by
  obtain ⟨-, taken⟩ := Option.ite_none_left_eq_some.mp taken
  cases event with
  | start bound | stop =>
      obtain ⟨rfl, rfl⟩ := Prod.mk.inj (Option.some.inj taken)
      refine ⟨summarizes.silent ?_ rfl fun _ => rfl, rfl⟩
      rw [registrations_append_singleton (by simp)]
      exact summarizes.server
  | register call =>
      obtain ⟨rfl, rfl⟩ := Prod.mk.inj (Option.some.inj taken)
      refine ⟨summarizes.silent ?_ rfl fun _ => rfl, rfl⟩
      have later : registrations (history ++ [LoopEvent.register call]) =
          registrations history ++ [call] := by simp [registrations]
      rw [later, HttpServer.configure_append_singleton, ← summarizes.server]
  | refused =>
      obtain ⟨-, same⟩ := Option.ite_none_right_eq_some.mp taken
      obtain ⟨rfl, rfl⟩ := Prod.mk.inj (Option.some.inj same)
      refine ⟨summarizes.silent ?_ rfl fun _ => rfl, rfl⟩
      rw [registrations_append_singleton (by simp)]
      exact summarizes.server
  | connect name accepted =>
      obtain ⟨⟨-, fresh⟩, same⟩ := Option.ite_none_right_eq_some.mp taken
      obtain ⟨rfl, rfl⟩ := Prod.mk.inj (Option.some.inj same)
      refine ⟨summarizes.update (by simp) ?_ (fun _ _ => rfl) _, rfl⟩
      rw [summarizes.unknown name fresh]
      exact Connection.holds_onNewConnection accepted
  | callback name event =>
      dsimp only at taken
      split at taken
      · cases taken
      · rename_i connection found
        obtain ⟨next, stepped, same⟩ := Option.map_eq_some_iff.mp taken
        obtain ⟨rfl, rfl⟩ := Prod.mk.inj same
        have observed : connection.observe listener.server event =
            some (next, connection.dispatch? listener.server event) := by
          rw [Connection.observe, stepped]
          rfl
        obtain ⟨holds, call⟩ := (summarizes.known name connection found).after_observe observed
        refine ⟨summarizes.update (by simp) ?_ (fun others other => ?_) _, ?_⟩
        · simpa [LoopEvent.receivedOn] using holds
        · exact if_neg fun same => other same.symm
        · rw [Connection.written, call, reply, ← summarizes.server]
          split_ifs
          · rw [Option.map_map]
            rfl
          · rfl

/-! ## The responses on one connection -/

/-- The responses of a run that went to a connection. -/
def responsesOn (name : ι) (outputs : List (Option (ι × Bytes))) : List Bytes :=
  outputs.filterMap fun output =>
    output.bind fun sent => if sent.1 = name then some sent.2 else none

theorem responsesOn_cons (name : ι) (output : Option (ι × Bytes))
    (outputs : List (Option (ι × Bytes))) :
    responsesOn name (output :: outputs) =
      responsesOn name [output] ++ responsesOn name outputs :=
  List.filterMap_append (l := [output])

/-- The response that an event sends on a connection whose headers it completes. -/
def sentOn (name : ι) (history : List (LoopEvent ι)) (event : LoopEvent ι) : List Bytes :=
  if event.takenUp then
    [(HttpServer.configure (registrations history)).respond (receivedOn name (history ++ [event]))]
  else []

/-- The reply to an event goes to the connection whose headers it completes. -/
theorem responsesOn_reply (name : ι) (history : List (LoopEvent ι)) (event : LoopEvent ι) :
    responsesOn name [reply history event] =
      if ¬ headEnd <:+: receivedOn name history ∧
          headEnd <:+: receivedOn name (history ++ [event]) then
        sentOn name history event
      else [] := by
  have idle : ∀ event : LoopEvent ι, event.receivedOn name = [] →
      ¬ (¬ headEnd <:+: receivedOn name history ∧
        headEnd <:+: receivedOn name (history ++ [event])) := by
    intro event nothing both
    rw [receivedOn_append_singleton, nothing, List.append_nil] at both
    exact both.1 both.2
  cases event with
  | callback other event =>
      by_cases same : other = name
      · subst same
        simp only [reply, Connection.due, sentOn, receivedOn_append_singleton,
          LoopEvent.receivedOn, LoopEvent.takenUp, if_true]
        cases event.takenUp with
        | false => simp [responsesOn]
        | true =>
            simp only [if_true]
            split_ifs with completes
            · simp [responsesOn, Dispatch.ofBuffer]
            · rfl
      · have elsewhere : LoopEvent.receivedOn name (.callback other event) = [] := if_neg same
        rw [if_neg (idle _ elsewhere), reply]
        cases event.takenUp with
        | false => rfl
        | true =>
            cases Connection.due (receivedOn other history) event.received with
            | none => rfl
            | some call => simp [responsesOn, same]
  | _ => exact (if_neg (idle _ rfl)).symm

theorem responsesOn_of_complete {name : ι} {history : List (LoopEvent ι)}
    (complete : headEnd <:+: receivedOn name history) (events : List (LoopEvent ι)) :
    responsesOn name (replies reply history events) = [] := by
  induction events generalizing history with
  | nil => rfl
  | cons event events ih =>
      have still : headEnd <:+: receivedOn name (history ++ [event]) := by
        rw [receivedOn_append_singleton]
        exact complete.trans (List.prefix_append _ _).isInfix
      rw [replies, responsesOn_cons, ih still, responsesOn_reply,
        if_neg fun both => both.1 complete, List.append_nil]

theorem receivedOn_append (name : ι) (history events : List (LoopEvent ι)) :
    receivedOn name history <+: receivedOn name (history ++ events) := by
  rw [receivedOn, receivedOn, List.flatMap_append]
  exact List.prefix_append _ _

theorem responsesOn_of_incomplete {name : ι} {history events : List (LoopEvent ι)}
    (incomplete : ¬ headEnd <:+: receivedOn name (history ++ events)) :
    responsesOn name (replies reply history events) = [] := by
  induction events generalizing history with
  | nil => rfl
  | cons event events ih =>
      rw [List.append_cons] at incomplete
      have notYet : ¬ headEnd <:+: receivedOn name (history ++ [event]) := fun now =>
        incomplete (now.trans (receivedOn_append name _ events).isInfix)
      rw [replies, responsesOn_cons, ih incomplete, responsesOn_reply,
        if_neg fun both => notYet both.2, List.append_nil]

/-- The event that completes the headers of a connection sends the only response. -/
theorem responsesOn_of_received {name : ι} {history events : List (LoopEvent ι)}
    (incomplete : ¬ headEnd <:+: receivedOn name history)
    (complete : headEnd <:+: receivedOn name (history ++ events)) :
    ∃ before event after, events = before ++ event :: after ∧
      ¬ headEnd <:+: receivedOn name (history ++ before) ∧
      headEnd <:+: receivedOn name (history ++ before ++ [event]) ∧
      responsesOn name (replies reply history events) =
        sentOn name (history ++ before) event := by
  induction events generalizing history with
  | nil => exact absurd (by simpa using complete) incomplete
  | cons event events ih =>
      by_cases now : headEnd <:+: receivedOn name (history ++ [event])
      · refine ⟨[], event, events, rfl, by simpa using incomplete, by simpa using now, ?_⟩
        rw [replies, responsesOn_cons, responsesOn_of_complete now, responsesOn_reply,
          if_pos ⟨incomplete, now⟩, List.append_nil, List.append_nil]
      · rw [List.append_cons] at complete
        obtain ⟨before, last, after, rfl, notYet, done, sent⟩ := ih now complete
        rw [← List.append_cons] at notYet done sent
        refine ⟨event :: before, last, after, rfl, notYet, done, ?_⟩
        rw [replies, responsesOn_cons, sent, responsesOn_reply, if_neg fun both => now both.2]
        rfl

/-- In every run of the server, with any connections, calls and callbacks in any order: a
connection on which no end of headers has come is sent nothing. Any other is sent one
response, in the callback that completes its headers, if libuv takes it up there, and
nothing if not; the response is the one to the bytes that came on this connection, by the
handlers that were registered before that callback. -/
theorem connections_answered_alone {events : List (LoopEvent ι)}
    {outputs : List (Option (ι × Bytes))}
    (ran : transcript step (created : Listener ι) events = some outputs) (name : ι) :
    (¬ headEnd <:+: receivedOn name events → responsesOn name outputs = []) ∧
    (headEnd <:+: receivedOn name events →
      ∃ before event after, events = before ++ event :: after ∧
        ¬ headEnd <:+: receivedOn name before ∧ headEnd <:+: receivedOn name (before ++ [event]) ∧
        responsesOn name outputs =
          if event.takenUp then
            [(HttpServer.configure (registrations before)).respond
              (receivedOn name (before ++ [event]))]
          else []) := by
  obtain rfl := transcript_eq_replies Summarizes (fun summarizes taken => summarizes.step taken)
    summarizes_created ran
  have nothing : ¬ headEnd <:+: receivedOn name ([] : List (LoopEvent ι)) := by
    show ¬ headEnd <:+: []
    decide
  exact ⟨fun incomplete => responsesOn_of_incomplete incomplete,
    fun complete => responsesOn_of_received nothing complete⟩

/-- The request of one connection comes in two chunks, with another connection's bytes and
the registration of its handler in between. -/
def twoClients : List (LoopEvent ℕ) :=
  [.start true, .connect 0 true, .callback 0 (.data (bytesOf "GET /a HTTP/1.1\r\n") true),
    .connect 1 true, .callback 1 (.data (bytesOf "PUT") true),
    .register (.addRoute (bytesOf "GET") (bytesOf "/a") fun _ _ _ => { body := bytesOf "a" }),
    .callback 0 (.data (bytesOf "\r\n") true)]

theorem connections_answered_alone_twoClients :
    ∃ outputs, transcript step created twoClients = some outputs ∧
      responsesOn 1 outputs = [] ∧ (responsesOn 0 outputs).length ≤ 1 := by
  obtain ⟨outputs, ran⟩ : ∃ outputs, transcript step created twoClients = some outputs :=
    Option.isSome_iff_exists.mp (by decide)
  have first := (connections_answered_alone ran 0).2 (by decide)
  have second := (connections_answered_alone ran 1).1 (by decide)
  obtain ⟨_, _, _, -, -, -, sent⟩ := first
  refine ⟨outputs, ran, second, ?_⟩
  rw [sent]
  split_ifs
  · exact Nat.le_refl 1
  · exact Nat.zero_le 1

end Listener

end Kode.Http
