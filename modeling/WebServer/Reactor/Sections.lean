import WebServer.Pool.Sections
import WebServer.Reactor.Model
/-! # The mutexes of the reactors, and the signal handler

The reactors' own steps take no mutex, nor does `stop()`; the log, the store and the
file cache are locked in the code that `Reactor.Model` leaves out.
-/

namespace WebServer.Reactors

/-- The threads that a signal can interrupt in reactor mode. -/
inductive Host (m : Nat) where
  | reactor (i : Fin m)
  /-- The main thread, which joins the reactors. -/
  | main
  /-- `Logger::drainLoop`. -/
  | logger
  deriving DecidableEq, Repr

variable {m : Nat}

/-- What a thread may lock. `run()` logs before it starts the reactors. After a
reactor has drained a socket it answers the requests. -/
def calls (s : State m) : Host m → Mutex → Bool
  | .reactor i, mutex =>
    match (s.reactors i).pc with
    | .writing _ e _ => !e.events.epollout && mutex.answers
    | _ => false
  | .main, mutex => mutex = .log
  | .logger, mutex => mutex = .log

/-- Who takes a step of the loop. -/
def Label.party : Label m → Option (Party (Host m))
  | .tick _ => none
  | .reactor i _ => some (.thread (.reactor i))
  | .stopper => some .handler

/-- The reactors with the mutexes and the signal handler. -/
def sections (m : Nat) (cfg : Config m) : Sections (State m) (Label m) (Host m) Mutex where
  machine := loop m cfg
  party := Label.party
  guards := fun _ _ => none
  calls := calls
  entry := .stopper
  returned := fun s => s.stopper = .done

end WebServer.Reactors
