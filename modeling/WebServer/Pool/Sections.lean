import WebServer.Base.Interrupt
import WebServer.Pool.Waiting
/-! # The mutexes of the pool, and the signal handler

`Pool.Model` takes a section under a mutex in one step. Here is which mutex it is,
for every thread, and what else a thread locks in the code that the model leaves
out: the log, the store and the file cache while it answers requests, and the queue
when it finds nothing to do there. `stop()` is called by `handleSignal`, on the
thread that the signal interrupts.

The locks inside the C library are not the program's, and are left out.
-/

namespace WebServer

/-- The mutexes of the program. -/
inductive Mutex where
  /-- `PoolLoop::connectionsMutex`. -/
  | connections
  /-- `PoolLoop::queueMutex`. -/
  | queue
  /-- `Logger::logMutex`. -/
  | log
  /-- `KvStore::storeMutex`. -/
  | store
  /-- `LRUCache::cacheMutex`. -/
  | cache
  deriving DecidableEq, Repr

/-- What is locked while requests are answered. -/
def Mutex.answers : Mutex → Bool
  | .log | .store | .cache => true
  | .connections | .queue => false

namespace Pool

/-- The threads that a signal can interrupt in pool mode. -/
inductive Host (n : Nat) where
  /-- The main thread, in `acceptLoop`. -/
  | accepter
  | worker (w : Fin n)
  /-- `Logger::drainLoop`. -/
  | logger
  deriving DecidableEq, Repr

variable {n : Nat}

/-- The mutex of the accept thread's next step. -/
def acceptGuard (cfg : Config) (s : State n) : Option Mutex :=
  match s.accepter with
  | .dispatch _ => if pushes cfg s .go then some .queue else none
  | .insert .. => some .connections
  | .scan .. => some .connections
  | .expire _ (_ :: _) .erase => some .connections
  | _ => none

/-- The mutex of a worker's next step. -/
def WorkerPc.guard : WorkerPc → Option Mutex
  | .idle => some .queue
  | .taken _ => some .connections
  | .served .. => some .connections
  | .closing _ _ .erase => some .connections
  | _ => none

/-- The mutex of the next step of `stop()`. -/
def StopPc.guard : StopPc → Option Mutex
  | .clear => some .connections
  | _ => none

/-- The mutex of a party's next step. -/
def guards (cfg : Config) (s : State n) : Party (Host n) → Option Mutex
  | .thread .accepter => acceptGuard cfg s
  | .thread (.worker w) => (s.workers w).guard
  | .thread .logger => none
  | .handler => s.stopper.guard

/-- What a thread may lock besides. `run()` logs before the loop. A worker tests the
predicate of its wait and finds it false; after it has drained a socket it answers
the requests. -/
def calls (s : State n) : Host n → Mutex → Bool
  | .accepter, m => s.accepter = .poll && m = .log
  | .worker w, m =>
    match s.workers w with
    | .idle => m = .queue && s.workQueue = [] && s.running
    | .writing e _ => !e.events.epollout && m.answers
    | _ => false
  | .logger, m => m = .log

/-- Who takes a step of the loop. -/
def Label.party : Label n → Option (Party (Host n))
  | .tick _ => none
  | .accepter _ => some (.thread .accepter)
  | .worker w _ => some (.thread (.worker w))
  | .stopper _ => some .handler

/-- The pool loop with its mutexes and its signal handler. -/
def sections (n : Nat) (cfg : Config) : Sections (State n) (Label n) (Host n) Mutex where
  machine := loop n cfg
  party := Label.party
  guards := guards cfg
  calls := calls
  entry := .stopper .go
  returned := fun s => s.stopper = .done

end Pool

end WebServer
