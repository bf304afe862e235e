import WebServer.Metrics.Counters
import WebServer.Server.Handler

/-!
# The connections of a server

`connectionMachine` is the life of one connection. Here there are as many as have
been accepted, and they share what the handler's references refer to: the router's
state, and the counters. Each step is the acceptance of a connection or one call of
the handler, whose calls of `recordRequest` are made on the counters.
-/

namespace WebServer

variable {ρ : Type u}

/-- A connection, the record of it, and the action the last call returned. -/
structure Peer where
  connection : Connection := {}
  history : History := {}
  phase : Option Action := some .waitRead

structure Site (ρ : Type u) where
  server : ρ
  metrics : Metrics := {}
  peers : List Peer := []

inductive SiteEvent where
  | accept
  | wakeup (i : Nat) (wakeup : Wakeup)

namespace Site

/-- A connection as the handler is given it. -/
def session (site : Site ρ) (peer : Peer) : Session ρ where
  connection := peer.connection
  server := site.server
  history := peer.history

/-- The server after a call of the handler on a connection: what the call recorded is
counted. -/
def settle (site : Site ρ) (i : Nat) (peer : Peer) (s : Session ρ) (phase : Option Action) :
    Site ρ where
  server := s.server
  metrics := ((s.history.recorded.drop peer.history.recorded.length).map Recorded.call).foldl
    Metrics.recordRequest site.metrics
  peers := site.peers.set i { connection := s.connection, history := s.history, phase }

end Site

/-- One event, with what its calls answer. -/
def siteStep (routing : Routing ρ) (site : Site ρ) : SiteEvent → Option (Site ρ)
  | .accept => some { site with peers := site.peers ++ [{}] }
  | .wakeup i wakeup =>
    match site.peers[i]? with
    | none => none
    | some peer =>
      (connectionStep routing (site.session peer, peer.phase) wakeup).map fun outcome =>
        site.settle i peer outcome.1 outcome.2

/-- A server from its start, in the given state of the router. -/
def siteMachine (routing : Routing ρ) (server : ρ) : Machine (Site ρ) SiteEvent where
  start := { server }
  step := siteStep routing

end WebServer
