import WebServer.Base.Machine
import WebServer.Metrics.Counters

/-!
# Threads that record

Any number of threads call `recordRequest` on one `Metrics`. Each `fetch_add` is one
step, taken in program order within a call and in any order across threads; what a
thread still has to add says where in its call it is.
-/

namespace WebServer

structure Recorders where
  metrics : Metrics := {}
  /-- The `fetch_add`s that are left of each thread's call; none between calls. -/
  pending : List (List (Counter × UInt64))
  /-- The calls made so far, those in flight among them; the program keeps no such
  record. -/
  calls : List RecordCall := []

inductive RecorderStep where
  /-- The thread enters `recordRequest`. -/
  | call (thread : Nat) (call : RecordCall)
  /-- The thread makes its next `fetch_add`, and returns after the last. -/
  | add (thread : Nat)

namespace Recorders

def step (s : Recorders) : RecorderStep → Option Recorders
  | .call thread call =>
    match s.pending[thread]? with
    | some [] =>
      some { s with
        pending := s.pending.set thread call.fetchAdds
        calls := s.calls ++ [call] }
    | _ => none
  | .add thread =>
    match s.pending[thread]? with
    | some (add :: left) =>
      some { s with
        metrics := s.metrics.fetchAdd add.1 add.2
        pending := s.pending.set thread left }
    | _ => none

/-- The number of calls in flight. -/
def inFlight (s : Recorders) : Nat := s.pending.countP fun left => !left.isEmpty

end Recorders

def recordersMachine (threads : Nat) : Machine Recorders RecorderStep where
  start := { pending := List.replicate threads [] }
  step := Recorders.step

end WebServer
