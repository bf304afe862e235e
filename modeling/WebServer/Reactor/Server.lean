import WebServer.Reactor.Model
import WebServer.Server.Hosting
/-! # The reactors with the connections they serve

Which step of a reactor calls the handler, and on which connection: an event leads to
`onReadable` or `onWritable` or closes at once, the handler's calls into the kernel are
the reactor's, and a connection is closed without the handler when it cannot be rearmed
and when it has been idle for too long.
-/

namespace WebServer.Reactors

variable {m : Nat} {ρ : Type u} {τ : Type v} {χ : Type w}

/-- What a step of the reactors is for the handler. -/
def handling (cfg : Config m) (s : State m) : Label m → LoopCall
  | .reactor i c =>
    match (s.reactors i).pc, c with
    | .dispatch (e :: _), .go =>
      if e.fd = cfg.stopFd i ∨ e.fd = cfg.listenFd i then .nothing
      else ((s.reactors i).connections.lookup e.fd).elim .nothing (LoopCall.of e)
    | .reading _ _ k, .recv r => .recv k r
    | .drained _ _ k, .go => .stamp k s.now
    | .writing _ _ k, .send r => .send k r
    | .writing _ _ k, .flushed closeAfterWrite => .flushed k closeAfterWrite
    | .rearming _ _ k _, .ctlMod false => .giveUp k
    | .expire _ (fd :: _) .erase, .go =>
      ((s.reactors i).connections.lookup fd).elim .nothing .giveUp
    | _, _ => .nothing
  | _ => .nothing

/-- The reactor loop with its connections, from a server's start. -/
def server (m : Nat) (cfg : Config m) (router : SharedRouter ρ τ χ) (services : ρ) :
    Machine (Hosted (State m) ρ τ χ) (HostLabel (Label m) χ) :=
  hosted (loop m cfg) (handling cfg) router services

end WebServer.Reactors
