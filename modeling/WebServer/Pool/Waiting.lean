import WebServer.Pool.Model
/-! # The condition variable of the pool

`Pool.Model` lets a worker that finds nothing to do wait, and says no more. Here
the wait is taken apart: a worker tests the predicate holding `queueMutex`, and if
it is false releases the mutex and blocks in one step; `notify_one` and
`notify_all` wake who is blocked then, and nobody else. The loop's own steps are
those of `Pool.Model`, taken when the mutex and the waits allow.
-/

namespace WebServer.Pool

/-- Where a worker is in `queueCondition.wait`. -/
inductive Stage where
  /-- Not in the wait, or woken and about to lock the mutex again. -/
  | away
  /-- The predicate was false; the worker still holds `queueMutex`. -/
  | tested
  /-- Blocked on `queueCondition`. -/
  | blocked
  deriving DecidableEq, Repr

/-- The loop with what its waits need. -/
structure Waiting (n : Nat) where
  pool : State n
  stage : Fin n → Stage
  /-- The accept thread has pushed an event and not called `notify_one` yet. -/
  owesNotify : Bool
  /-- `stop()` has called `notify_all`. -/
  stopNotified : Bool
  /-- `run()` has called `notify_all`. -/
  runNotified : Bool

variable {n : Nat}

def Waiting.initial (n : Nat) (cfg : Config) : Waiting n where
  pool := .initial n cfg
  stage := fun _ => .away
  owesNotify := false
  stopNotified := false
  runNotified := false

/-- Nobody is between a test and its block, so `queueMutex` can be locked. -/
def Waiting.mutexFree (s : Waiting n) : Bool :=
  decide (∀ w, s.stage w ≠ .tested)

def Waiting.setStage (s : Waiting n) (w : Fin n) (stage : Stage) : Waiting n :=
  { s with stage := Function.update s.stage w stage }

/-- Everybody blocked is woken. -/
def Waiting.notifyAll (s : Waiting n) : Waiting n :=
  { s with stage := fun w => if s.stage w = .blocked then .away else s.stage w }

/-- The accept thread's step is the push of an event. -/
def pushes (cfg : Config) (s : State n) (c : AcceptChoice) : Bool :=
  match s.accepter, c with
  | .dispatch (e :: _), .go => e.fd ≠ cfg.stopFd && s.listenFd ≠ some e.fd
  | _, _ => false

/-- What the mutex, and the order of the calls, ask of a step of the loop. A worker
at the queue takes an event, or leaves, when it finds the predicate true. -/
def Waiting.allows (cfg : Config) (s : Waiting n) : Label n → Bool
  | .tick _ => true
  | .accepter c => !s.owesNotify && (!pushes cfg s.pool c || s.mutexFree)
  | .worker w _ => s.pool.workers w ≠ .idle || s.stage w = .away && s.mutexFree
  | .stopper _ => s.pool.stopper ≠ .clear || s.stopNotified

/-- Who moves. -/
inductive WaitLabel (n : Nat) where
  /-- A step of the loop. -/
  | pool (l : Label n)
  /-- The worker finds the predicate false. -/
  | test (w : Fin n)
  | block (w : Fin n)
  /-- The worker is woken for no reason. -/
  | spurious (w : Fin n)
  /-- `notify_one`, with the worker it wakes if any is blocked. -/
  | notifyOne (w : Option (Fin n))
  /-- `notify_all` in `stop()`, between the write to the eventfd and the table. -/
  | stopNotify
  /-- `notify_all` in `run()`, after `acceptLoop`. -/
  | runNotify
  deriving DecidableEq, Repr

/-- One step of the loop with its waits. -/
def waitStep (cfg : Config) (s : Waiting n) : WaitLabel n → Option (Waiting n)
  | .pool l =>
    if s.allows cfg l then
      (step cfg s.pool l).map fun pool =>
        { s with
          pool := pool
          owesNotify := s.owesNotify || match l with
            | .accepter c => pushes cfg s.pool c
            | _ => false }
    else none
  | .test w =>
    if s.pool.workers w = .idle ∧ s.stage w = .away ∧ s.mutexFree ∧
        s.pool.workQueue = [] ∧ s.pool.running = true then
      some (s.setStage w .tested)
    else none
  | .block w => if s.stage w = .tested then some (s.setStage w .blocked) else none
  | .spurious w => if s.stage w = .blocked then some (s.setStage w .away) else none
  | .notifyOne target =>
    if s.owesNotify then
      match target with
      | none =>
        if ∀ w, s.stage w ≠ .blocked then some { s with owesNotify := false } else none
      | some w =>
        if s.stage w = .blocked then some ({ s with owesNotify := false }.setStage w .away)
        else none
    else none
  | .stopNotify =>
    if s.pool.stopper = .clear ∧ s.stopNotified = false then
      some { s.notifyAll with stopNotified := true }
    else none
  | .runNotify =>
    if s.pool.accepter = .done ∧ s.owesNotify = false ∧ s.runNotified = false then
      some { s.notifyAll with runNotified := true }
    else none

/-- The loop with `n` workers and their waits. -/
def waiting (n : Nat) (cfg : Config) : Machine (Waiting n) (WaitLabel n) where
  start := .initial n cfg
  step := waitStep cfg

end WebServer.Pool
