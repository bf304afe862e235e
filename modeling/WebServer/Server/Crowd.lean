import Mathlib.Logic.Function.Basic
import WebServer.Base.Sectioned
import WebServer.Server.Steps

/-!
# Connections side by side

As many connections as there are sockets, each with a handler's call at some stage,
and one router that all calls lead to. A step is one step of the handler on one of
them, in any order.

A call of the router is not one step. What it leads to has more than one mutex, and a
handler may hold one, let go of it and take the next: the router is `Sectioned` here,
and other connections' sections come between those of one call. The turn of the parse
loop that makes the call ends when the router returns; its clock shows what it likes.

`taken` and `decided` are records that the program does not keep, of the sections in
their order, and of the requests in the order in which their answers were settled.
`told` is what the router looks like from one connection: something that has an answer
for its first request, one for its second, and so on.
-/

namespace WebServer

variable {ρ : Type u} {τ : Type v} {χ : Type w}

/-- A router that the handlers of all connections share. -/
abbrev SharedRouter (ρ : Type u) (τ : Type v) (χ : Type w) :=
  Sectioned ρ HttpRequest τ χ HttpResponse

/-- A router whose calls are one section each, from the first lookup to the return. -/
def SharedRouter.whole (route : ρ → HttpRequest → HttpResponse × ρ) :
    SharedRouter ρ (HttpRequest ⊕ HttpResponse) Unit where
  enter := .inl
  take server
    | (.inl request, _) =>
      let (response, server) := route server request
      (.inr response, server)
    | (.inr response, _) => (.inr response, server)
  returned := Sum.getRight?

/-- A response, and the microseconds the clock shows for it. -/
abbrev Reply := HttpResponse × Nat

/-- A connection, the record of it, and where the handler is with it. -/
structure Guest (τ : Type v) where
  connection : Connection := {}
  history : History := {}
  stage : Stage := .waiting .waitRead
  /-- The request that the router has in hand, and what is left of its call. -/
  call : Option (HttpRequest × τ) := none
  /-- What the router's calls have returned. -/
  replies : List Reply := []

structure Crowd (ρ : Type u) (τ : Type v) (χ : Type w) where
  server : ρ
  guests : Nat → Guest τ := fun _ => {}
  /-- The sections taken so far, each beside the connection it was taken for. -/
  taken : List (Nat × τ × χ) := []
  /-- The requests whose answers are settled, each beside the connection it came in on. -/
  decided : List (Nat × HttpRequest × HttpResponse) := []

/-- The request that the next turn of the parse loop puts to the router. -/
def Session.asks {σ : Type x} (s : Session σ) : Option HttpRequest :=
  if s.connection.readBuffer = [] then none
  else
    match s.connection.parser.parse s.connection.readBuffer with
    | (.Complete, parser, _) => some parser.req
    | _ => none

/-- A router that gives this reply. -/
def Reply.routing (reply : Reply) : Routing Unit where
  route _ _ := (reply.1, ())
  micros _ _ := reply.2

/-- The next part of a call of the router. -/
inductive RouteStep (χ : Type w) where
  /-- The parse loop calls the router. -/
  | enter
  /-- A section, and what it finds besides the server's state. -/
  | take (found : χ)
  /-- The router has returned, and the clock shows so many microseconds for it. -/
  | leave (micros : Nat)

inductive GuestStep (χ : Type w) where
  /-- A step of the handler that does not lead to the router. -/
  | own (step : HandlerStep)
  | route (step : RouteStep χ)

/-- The handler's step does not lead to the router. -/
def Session.unrouted {σ : Type x} (s : Session σ) : HandlerStep → Bool
  | .parse => s.asks.isNone
  | _ => true

/-- A connection as the handler is given it. -/
def Guest.session (guest : Guest τ) : Session Unit where
  connection := guest.connection
  server := ()
  history := guest.history

namespace Crowd

def session (crowd : Crowd ρ τ χ) (k : Nat) : Session Unit := (crowd.guests k).session

/-- The crowd after a step of the handler on one connection. -/
def settle (crowd : Crowd ρ τ χ) (k : Nat) (s : Session Unit) (stage : Stage) : Crowd ρ τ χ :=
  { crowd with
    guests := Function.update crowd.guests k
      { crowd.guests k with connection := s.connection, history := s.history, stage } }

/-- The event loop enters the handler, or gives the connection up. -/
def setStage (crowd : Crowd ρ τ χ) (k : Nat) (stage : Stage) : Crowd ρ τ χ :=
  { crowd with guests := Function.update crowd.guests k { crowd.guests k with stage } }

/-- So much is left of the connection's call of the router. -/
def holdCall (router : SharedRouter ρ τ χ) (crowd : Crowd ρ τ χ) (k : Nat) (request : HttpRequest)
    (left : τ) : Crowd ρ τ χ :=
  { crowd with
    guests := Function.update crowd.guests k { crowd.guests k with call := some (request, left) }
    decided := crowd.decided ++
      ((router.returned left).map (k, request, ·)).toList }

/-- The router's call has returned this. -/
def endCall (crowd : Crowd ρ τ χ) (k : Nat) (reply : Reply) : Crowd ρ τ χ :=
  { crowd with
    guests := Function.update crowd.guests k
      { crowd.guests k with call := none, replies := (crowd.guests k).replies ++ [reply] } }

/-- One part of a call of the router. -/
def routeStep (router : SharedRouter ρ τ χ) (crowd : Crowd ρ τ χ) (k : Nat) :
    RouteStep χ → Option (Crowd ρ τ χ)
  | .enter =>
    match (crowd.guests k).stage, (crowd.guests k).call, (crowd.session k).asks with
    | .parsing, none, some request => some (crowd.holdCall router k request (router.enter request))
    | _, _, _ => none
  | .take found =>
    match (crowd.guests k).stage, (crowd.guests k).call with
    | .parsing, some (request, task) =>
      match router.returned task with
      | some _ => none
      | none =>
        let (left, server) := router.take crowd.server (task, found)
        some ({ crowd with server, taken := crowd.taken ++ [(k, task, found)] }.holdCall router k
          request left)
    | _, _ => none
  | .leave micros =>
    match (crowd.guests k).call with
    | some (_, task) =>
      (router.returned task).bind fun response =>
        (handlerStep (Reply.routing (response, micros)) (crowd.session k) (crowd.guests k).stage
          .parse).map fun outcome =>
            (crowd.settle k outcome.1 outcome.2).endCall k (response, micros)
    | none => none

end Crowd

/-- One step on one connection. -/
def crowdStep (router : SharedRouter ρ τ χ) (crowd : Crowd ρ τ χ) (label : Nat × GuestStep χ) :
    Option (Crowd ρ τ χ) :=
  match label.2 with
  | .own step =>
    if (crowd.session label.1).unrouted step then
      (handlerStep (Reply.routing ({}, 0)) (crowd.session label.1) (crowd.guests label.1).stage
        step).map fun outcome => crowd.settle label.1 outcome.1 outcome.2
    else none
  | .route step => crowd.routeStep router label.1 step

/-- All connections, from a server's start in the given state of the router. -/
def crowdMachine (router : SharedRouter ρ τ χ) (server : ρ) :
    Machine (Crowd ρ τ χ) (Nat × GuestStep χ) where
  start := { server }
  step := crowdStep router

/-! ## The router as one connection sees it -/

/-- The router as an object that answers requests. -/
def Routing.reply (routing : Routing ρ) (server : ρ) (request : HttpRequest) : Reply × ρ :=
  let (response, after) := routing.route server request
  ((response, routing.micros server request), after)

/-- A router that gives these replies in turn, whatever it is asked. -/
def told (replies : List Reply) : Routing Nat where
  route n _ := ((replies[n]?.map Prod.fst).getD {}, n + 1)
  micros n _ := (replies[n]?.map Prod.snd).getD 0

/-- What the router was asked, and what it returned. -/
def Guest.answered (guest : Guest τ) : List (HttpRequest × HttpResponse) :=
  guest.history.routed.zip (guest.replies.map Prod.fst)

/-- The answer of the call that is about to return. -/
def Guest.settled (router : SharedRouter ρ τ χ) (guest : Guest τ) :
    Option (HttpRequest × HttpResponse) :=
  guest.call.bind fun call => (router.returned call.2).map (call.1, ·)

/-- The sections in their order, each beside its connection and what it left. -/
def Crowd.sections (router : SharedRouter ρ τ χ) (server : ρ) (crowd : Crowd ρ τ χ) :
    List (Nat × (τ × χ) × τ) :=
  Serial.exchanges router.take server crowd.taken

end WebServer
