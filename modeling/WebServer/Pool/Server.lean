import WebServer.Server.Hosting
/-! # The pool with the connections it serves

Which step of the pool calls the handler, and on which connection. The workers do as
the reactors do; the sweep of the accept thread and `stop()` close connections without
the handler. `stop()` has no connection left when it closes a number, so what it gives
up is whatever the kernel has under that number.
-/

namespace WebServer.Pool

variable {n : Nat} {ρ : Type u} {τ : Type v} {χ : Type w}

/-- What a step of the pool is for the handler. -/
def handling (s : State n) : Label n → LoopCall
  | .worker w c =>
    match s.workers w, c with
    | .taken e, .go => (s.connections.lookup e.fd).elim .nothing (LoopCall.of e)
    | .reading _ k, .recv r => .recv k r
    | .drained _ k, .go => .stamp k s.now
    | .writing _ k, .send r => .send k r
    | .writing _ k, .flushed closeAfterWrite => .flushed k closeAfterWrite
    | .rearming _ k _, .ctlMod false => .giveUp k
    | _, _ => .nothing
  | .accepter .go =>
    match s.accepter with
    | .expire _ (fd :: _) .erase => (s.connections.lookup fd).elim .nothing .giveUp
    | _ => .nothing
  | .stopper .go =>
    match s.stopper with
    | .close (fd :: _) => (s.files fd).elim .nothing .giveUp
    | _ => .nothing
  | _ => .nothing

/-- The pool loop with its connections, from a server's start. -/
def server (n : Nat) (cfg : Config) (router : SharedRouter ρ τ χ) (services : ρ) :
    Machine (Hosted (State n) ρ τ χ) (HostLabel (Label n) χ) :=
  hosted (loop n cfg) handling router services

end WebServer.Pool
