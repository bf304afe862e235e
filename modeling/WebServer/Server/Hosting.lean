import WebServer.Pool.Model
import WebServer.Server.Crowd

/-!
# Connections under an event loop

The models of the two event loops leave open what a connection says: `recv` and `send`
may answer anything. Here a loop runs with the connections it serves. `LoopCall` is what
a step of the loop is for the handler: it is called, goes on by a call into the kernel,
or the loop gives the connection up without it. `hosted` takes both steps at once; the
turns of the parse loop and the calls of the router, of which the loop knows nothing,
come in between.

The loop does not ask which action the handler returned last when it calls it again.
That it calls `onReadable` only after `WaitRead`, and `onWritable` only after
`WaitWrite`, is therefore a law of each loop and not part of this.
-/

namespace WebServer

variable {σ : Type x} {α : Type y} {ρ : Type u} {τ : Type v} {χ : Type w}

/-- What a step of an event loop is for the handler. -/
inductive LoopCall where
  /-- No connection's handler has a part in it. -/
  | nothing
  | onReadable (k : Nat)
  | onWritable (k : Nat)
  /-- The loop is about to close the connection by itself. -/
  | giveUp (k : Nat)
  | recv (k : Nat) (kind : Pool.Recv)
  | stamp (k : Nat) (now : Int)
  | send (k : Nat) (kind : Pool.Send)
  | flushed (k : Nat) (closeAfterWrite : Bool)
  deriving DecidableEq

/-- The loop knows of a result of `recv` this much. -/
def RecvResult.kind : RecvResult → Pool.Recv
  | .data _ => .data
  | .eof => .eof
  | .interrupted => .interrupted
  | .wouldBlock => .wouldBlock
  | .failed => .failed

def SendResult.kind : SendResult → Pool.Send
  | .accepted _ => .sent
  | .interrupted => .interrupted
  | .wouldBlock => .wouldBlock
  | .failed => .failed

/-- What both loops call for an event that is not for themselves. -/
def LoopCall.of (e : Pool.Event) (k : Nat) : LoopCall :=
  if e.events.epollhup || e.events.epollerr then .giveUp k
  else if e.events.epollout then .onWritable k
  else .onReadable k

/-- What a connection waits for that is registered so. -/
def Pool.Interest.action : Pool.Interest → Action
  | .epollin => .waitRead
  | .epollout => .waitWrite

/-- The connection that a call is about. -/
def LoopCall.subject : LoopCall → Option Nat
  | .nothing => none
  | .onReadable k | .onWritable k | .giveUp k | .recv k _ | .stamp k _ | .send k _
  | .flushed k _ => some k

/-- What the call into the kernel answers, for the handler's eyes. -/
inductive IoResult where
  | none
  | recv (result : RecvResult)
  | send (result : SendResult)

/-- The connections when the loop has made the call. -/
def Crowd.follow (router : SharedRouter ρ τ χ) (crowd : Crowd ρ τ χ) :
    LoopCall → IoResult → Option (Crowd ρ τ χ)
  | .nothing, .none => some crowd
  | .onReadable k, .none => some (crowd.setStage k (.reading []))
  | .onWritable k, .none => some (crowd.setStage k .writing)
  | .giveUp k, .none => some (crowd.setStage k (.waiting .close))
  | .recv k kind, .recv result =>
    if result.kind = kind then crowdStep router crowd (k, .own (.recv result)) else none
  | .stamp k now, .none => crowdStep router crowd (k, .own (.stamp now))
  | .send k kind, .send result =>
    if result.kind = kind then crowdStep router crowd (k, .own (.send result)) else none
  | .flushed k closeAfterWrite, .none =>
    if (crowd.guests k).connection.closeAfterWrite = closeAfterWrite then
      crowdStep router crowd (k, .own .flushed)
    else none
  | _, _ => none

/-- An event loop, and the connections it serves. -/
structure Hosted (σ : Type x) (ρ : Type u) (τ : Type v) (χ : Type w) where
  loop : σ
  crowd : Crowd ρ τ χ

inductive HostLabel (α : Type y) (χ : Type w) where
  | loop (a : α) (io : IoResult)
  /-- A turn of the parse loop on a connection that does not lead to the router. -/
  | parse (k : Nat)
  /-- A part of one that does. -/
  | route (k : Nat) (step : RouteStep χ)

def hostStep (loop : Machine σ α) (calls : σ → α → LoopCall) (router : SharedRouter ρ τ χ)
    (h : Hosted σ ρ τ χ) : HostLabel α χ → Option (Hosted σ ρ τ χ)
  | .loop a io =>
    (loop.step h.loop a).bind fun after =>
      (h.crowd.follow router (calls h.loop a) io).map fun crowd => ⟨after, crowd⟩
  | .parse k => (crowdStep router h.crowd (k, .own .parse)).map fun crowd => { h with crowd }
  | .route k step => (crowdStep router h.crowd (k, .route step)).map fun crowd => { h with crowd }

/-- The loop with its connections, from a server's start. -/
def hosted (loop : Machine σ α) (calls : σ → α → LoopCall) (router : SharedRouter ρ τ χ)
    (server : ρ) : Machine (Hosted σ ρ τ χ) (HostLabel α χ) where
  start := ⟨loop.start, { server }⟩
  step := hostStep loop calls router

/-- A condition on the steps of the loop, as one on the steps of both. -/
def Hosted.On (ok : σ → α → Prop) (h : Hosted σ ρ τ χ) : HostLabel α χ → Prop
  | .loop a _ => ok h.loop a
  | _ => True

instance Hosted.decidableOn (ok : σ → α → Prop) [∀ s a, Decidable (ok s a)] (h : Hosted σ ρ τ χ) :
    ∀ label, Decidable (Hosted.On ok h label)
  | .loop a _ => inferInstanceAs (Decidable (ok h.loop a))
  | .parse _ | .route _ _ => isTrue trivial

/-- These steps tell the handler nothing that it does not ask. -/
def plainly (labels : List α) : List (HostLabel α χ) :=
  labels.map fun label => .loop label .none

/-- A call of the router that is one section, and so many microseconds later. -/
def routed (k : Nat) (found : χ) (micros : Nat) : List (HostLabel α χ) :=
  [.route k .enter, .route k (.take found), .route k (.leave micros)]

end WebServer
