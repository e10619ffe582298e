/-
# Routes and the fallback handler

`add_route` and `set_handler` fill the tables of a server, and a later call replaces an
earlier one for the same key. `handle_request` looks the request up and calls the handler
it finds. Whether it then goes on to the fallback does not depend on the lookup, though,
but on the response: a route that answers without a body is overruled.
-/

import Kode.Http.Server
import Mathlib.Data.List.Induction
import Mathlib.Logic.Function.Basic

namespace Kode.Http.HttpServer

open Kode.Library

/-- A server before any registration. -/
def empty : HttpServer := ⟨none, fun _ _ => none⟩

/-- `add_route`: `routes_[method][path] = h`. -/
def addRoute (server : HttpServer) (method path : Bytes) (handler : Handler) : HttpServer :=
  { server with
    routes := Function.update server.routes method
      (Function.update (server.routes method) path (some handler)) }

/-- `set_handler`; an empty `std::function` takes the handler away. -/
def setHandler (server : HttpServer) (handler : Option Handler) : HttpServer :=
  { server with handler }

/-- A call that changes the tables. -/
inductive Registration
  | addRoute (method path : Bytes) (handler : Handler)
  | setHandler (handler : Option Handler)

/-- The server after one more call. -/
def register (server : HttpServer) : Registration → HttpServer
  | .addRoute method path handler => server.addRoute method path handler
  | .setHandler handler => server.setHandler handler

/-- The server after a sequence of calls. -/
def configure (registrations : List Registration) : HttpServer :=
  registrations.foldl register empty

/-- Which handler is called. -/
inductive Callee
  | route
  | fallback
  deriving DecidableEq, Repr

/-- The lookup of `handle_request`, with the handlers that it calls. -/
def consult (server : HttpServer) (method path buffer : Bytes) : List Callee × Response :=
  let routed : List Callee × Response :=
    match server.routes method path with
    | some handler => ([.route], handler method path buffer)
    | none => ([], {})
  if routed.2.body = [] then
    match server.handler with
    | some handler => (routed.1 ++ [.fallback], handler method path buffer)
    | none =>
        (routed.1, { routed.2 with
          status := 200
          contentType := bytesOf "text/plain"
          body := bytesOf "Hello from Kode HTTP" })
  else routed

/-- The response that is written is the one of the lookup. -/
theorem consult_snd (server : HttpServer) (method path buffer : Bytes) :
    (server.consult method path buffer).2 = server.lookup method path buffer := by
  unfold consult lookup
  cases server.routes method path with
  | none => cases server.handler <;> rfl
  | some routed =>
      dsimp only
      split_ifs
      · cases server.handler <;> rfl
      · rfl

/-! ## What the registrations ask for -/

/-- The handler that a call registers for exactly this method and path. -/
def Registration.route? (method path : Bytes) : Registration → Option Handler
  | .addRoute otherMethod otherPath handler =>
      if otherMethod = method ∧ otherPath = path then some handler else none
  | .setHandler _ => none

/-- The fallback handler that a call sets or takes away. -/
def Registration.fallback? : Registration → Option (Option Handler)
  | .setHandler handler => some handler
  | .addRoute _ _ _ => none

/-- The handler of the last `add_route` for exactly this method and path. -/
def lastRoute (registrations : List Registration) (method path : Bytes) : Option Handler :=
  registrations.reverse.findSome? (Registration.route? method path)

/-- The handler of the last `set_handler`. -/
def lastHandler (registrations : List Registration) : Option Handler :=
  (registrations.reverse.findSome? Registration.fallback?).join

/-- The built-in response. -/
def defaultResponse : Response := { body := bytesOf "Hello from Kode HTTP" }

/-- The handler to call and the response to send. -/
def intended (registrations : List Registration) (method path buffer : Bytes) :
    List Callee × Response :=
  match lastRoute registrations method path with
  | some handler => ([.route], handler method path buffer)
  | none =>
      match lastHandler registrations with
      | some handler => ([.fallback], handler method path buffer)
      | none => ([], defaultResponse)

section

variable (registrations : List Registration) (last : Registration)

theorem configure_append_singleton :
    configure (registrations ++ [last]) = (configure registrations).register last :=
  List.foldl_concat ..

theorem lastRoute_append_singleton (method path : Bytes) :
    lastRoute (registrations ++ [last]) method path =
      (last.route? method path).or (lastRoute registrations method path) := by
  simp only [lastRoute, List.reverse_append, List.reverse_singleton, List.singleton_append,
    List.findSome?_cons]
  cases last.route? method path <;> rfl

end

/-- The table holds the last handler of each route. -/
theorem routes_configure (registrations : List Registration) (method path : Bytes) :
    (configure registrations).routes method path = lastRoute registrations method path := by
  induction registrations using List.reverseRecOn with
  | nil => rfl
  | append_singleton registrations last ih =>
      rw [configure_append_singleton, lastRoute_append_singleton]
      cases last with
      | setHandler handler => exact ih
      | addRoute otherMethod otherPath handler =>
          show Function.update (configure registrations).routes otherMethod _ method path = _
          by_cases sameMethod : method = otherMethod
          · subst sameMethod
            rw [Function.update_self]
            by_cases samePath : path = otherPath
            · subst samePath
              simp [Registration.route?]
            · have other : ¬ otherPath = path := fun same => samePath same.symm
              rw [Function.update_of_ne samePath, ih]
              simp [Registration.route?, other]
          · have other : ¬ otherMethod = method := fun same => sameMethod same.symm
            rw [Function.update_of_ne sameMethod, ih]
            simp [Registration.route?, other]

theorem handler_configure (registrations : List Registration) :
    (configure registrations).handler = lastHandler registrations := by
  induction registrations using List.reverseRecOn with
  | nil => rfl
  | append_singleton registrations last ih =>
      rw [configure_append_singleton]
      cases last with
      | setHandler handler =>
          rw [lastHandler, List.reverse_concat, List.findSome?_cons]
          rfl
      | addRoute method path handler =>
          rw [lastHandler, List.reverse_concat, List.findSome?_cons]
          exact ih

/-- The server calls the handlers that its registrations ask for, and sends their
response, exactly if the handler registered for the request does not answer without a
body. -/
theorem routing_picks_registered_iff (registrations : List Registration)
    (method path buffer : Bytes) :
    (configure registrations).consult method path buffer =
        intended registrations method path buffer ↔
      ∀ handler, lastRoute registrations method path = some handler →
        (handler method path buffer).body ≠ [] := by
  unfold consult intended
  rw [routes_configure, handler_configure]
  cases lastRoute registrations method path with
  | none =>
      simp only [reduceCtorEq, false_implies, implies_true, iff_true]
      cases lastHandler registrations <;> rfl
  | some handler =>
      simp only [Option.some.injEq, forall_eq']
      by_cases silent : (handler method path buffer).body = []
      · rw [if_pos silent]
        refine iff_of_false ?_ fun answers => answers silent
        cases lastHandler registrations with
        | some fallback => simp
        | none =>
            intro same
            have body := congrArg (fun result => result.2.body) same
            dsimp only at body
            rw [silent] at body
            exact absurd body (by decide)
      · rw [if_neg silent]
        exact iff_of_true rfl silent

/-- A route that answers 404 without a body: the client gets the built-in response. -/
theorem bodiless_route_overruled :
    ¬ ∀ registrations method path buffer,
      (configure registrations).consult method path buffer =
        intended registrations method path buffer := by
  intro always
  have same := always [.addRoute (bytesOf "GET") (bytesOf "/") fun _ _ _ => { status := 404 }]
    (bytesOf "GET") (bytesOf "/") (bytesOf "GET / HTTP/1.1\r\n\r\n")
  have status := congrArg (fun result => result.2.status) same
  exact absurd status (by decide)

end Kode.Http.HttpServer
