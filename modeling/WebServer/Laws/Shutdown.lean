import WebServer.Laws.Pool.Wakeup
import WebServer.Laws.Reactor.Shutdown
/-! # Shutdown, in both loops

`stop()` promises that the process can exit with nothing left open. In the pool it
keeps that unless it crosses the accept thread; in the reactors it keeps it only if
the clients have all gone before (`shutdownCloses`). Two short runs with a single
client show what is left otherwise (`not_shutdownCloses`).
-/

namespace WebServer

/-- In every run of the pool in which `stop()` and the accept thread do not cross
and the threads outlast `stop()`'s closes, and in every run of the reactors in which
each reactor leaves with an empty table, every socket accepted has been closed once
when `run()` returns, and the counter is 0. -/
theorem shutdownCloses (n m : Nat) (poolCfg : Pool.Config) (cfg : Reactors.Config m)
    (p : Pool.State n × Pool.Ledger n) (q : Reactors.State m × (Nat → Nat)) :
    ((Pool.ledgered n poolCfg).Reach (fun p l => Pool.Orderly p.1 l) p → p.1.returned →
        Pool.Closed p.1 p.2) ∧
      ((Reactors.ledgered m cfg).Reach (fun q l => Reactors.LeavesEmpty cfg q.1 l) q →
        q.1.returned → Reactors.Closed q.1 q.2) :=
  ⟨Pool.closed_of_orderly, Reactors.closed_of_leavesEmpty⟩

/-! ## A shutdown that waits -/

/-- The pool has one client when `stop()` is called. The accept thread wakes up, and
leaves when `stop()` is through with the table. -/
def poolStops : List (Pool.Label 1) :=
  Pool.acceptSix ++
    [.accepter .go, .stopper .go, .stopper .go, .accepter (.ready [Pool.stopping]),
      .accepter .go, .accepter .go] ++
    Pool.works [.go] ++
    [.stopper (.order [6]), .stopper .go, .stopper .go, .stopper .go, .accepter .go]

/-- Where that run ends. -/
def poolStopsEnd : Pool.State 1 × Pool.Ledger 1 :=
  ((Pool.ledgered 1 {}).exec (Pool.ledgered 1 {}).start poolStops).get (by decide +kernel)

/-- The eventfd of the reactor was written. -/
def reactorStopping (i : Fin 2) : Pool.Event :=
  { fd := Reactors.pair.stopFd i, events := { epollin := true }, raisedFor := none }

open Reactors in
/-- The first reactor's only client hangs up before `stop()` is called. -/
def reactorsStop : List (Reactors.Label 2) :=
  greets first 10 ++
    runs first [.go, .go, .go, .ready [hungUp], .go, .go, .go, .go, .go, .go, .go, .go] ++
    [.stopper, .stopper, .stopper, .stopper] ++
    runs first [.ready [reactorStopping first], .go] ++ runs second [.go]

/-- Where that run ends. -/
def reactorsStopEnd : Reactors.State 2 × (Nat → Nat) :=
  ((Reactors.ledgered 2 Reactors.pair).exec (Reactors.ledgered 2 Reactors.pair).start
    reactorsStop).get (by decide +kernel)

/-- One client was accepted in each run, and closed. -/
theorem shutdownCloses_stops :
    (poolStopsEnd.1.next = 1 ∧ Pool.Closed poolStopsEnd.1 poolStopsEnd.2) ∧
      reactorsStopEnd.1.next = 1 ∧ Reactors.Closed reactorsStopEnd.1 reactorsStopEnd.2 := by
  obtain ⟨pool, reactors⟩ := shutdownCloses 1 2 {} Reactors.pair poolStopsEnd reactorsStopEnd
  refine ⟨⟨by decide +kernel, pool ?_ ⟨by decide +kernel, by decide +kernel⟩⟩,
    by decide +kernel, reactors ?_ ?_⟩
  · exact .of_exec .start (by decide +kernel) (Option.some_get _).symm
  · exact .of_exec .start (by decide +kernel) (Option.some_get _).symm
  · unfold Reactors.State.returned
    decide +kernel

/-! ## A shutdown that leaves a client -/

/-- `stop()` finds the table empty and closes the listener; the accept thread, which
was in its accept loop all the time, has meanwhile accepted a client. -/
def poolLeaves : List (Pool.Label 1) :=
  [.accepter .go, .accepter (.ready [Pool.connecting]), .accepter .go, .stopper .go,
    .stopper .go, .stopper (.order []), .accepter (.accepted 6), .stopper .go, .stopper .go,
    .stopper .go, .accepter .go, .accepter .go, .accepter (.ctlAdd true), .accepter .refused,
    .accepter .go, .accepter .go, .accepter .go] ++ Pool.works [.go]

/-- Where that run ends. -/
def poolLeavesEnd : Pool.State 1 × Pool.Ledger 1 :=
  ((Pool.ledgered 1 {}).exec (Pool.ledgered 1 {}).start poolLeaves).get (by decide +kernel)

open Reactors in
/-- The first reactor has one client when `stop()` is called. -/
def reactorsLeave : List (Reactors.Label 2) :=
  greets first 10 ++ runs first [.go, .go] ++ [.stopper, .stopper, .stopper, .stopper] ++
    runs first [.go] ++ runs second [.go]

/-- Where that run ends. -/
def reactorsLeaveEnd : Reactors.State 2 × (Nat → Nat) :=
  ((Reactors.ledgered 2 Reactors.pair).exec (Reactors.ledgered 2 Reactors.pair).start
    reactorsLeave).get (by decide +kernel)

/-- In each loop `stop()` can be called and done, and `run()` return, with a client
still open and counted. -/
theorem not_shutdownCloses :
    (¬ ∀ (n : Nat) (cfg : Pool.Config) (p : Pool.State n × Pool.Ledger n),
      (Pool.ledgered n cfg).Reachable p → p.1.stopper = .done → p.1.returned →
        Pool.Closed p.1 p.2) ∧
    ¬ ∀ (m : Nat) (cfg : Reactors.Config m) (p : Reactors.State m × (Nat → Nat)),
      (Reactors.ledgered m cfg).Reachable p → p.1.stopper = .done → p.1.returned →
        Reactors.Closed p.1 p.2 := by
  constructor
  · intro h
    have closed := h 1 {} poolLeavesEnd (.of_exec (Option.some_get _).symm) (by decide +kernel)
      ⟨by decide +kernel, by decide +kernel⟩
    exact absurd closed.active (by decide +kernel)
  · intro h
    have closed := h 2 Reactors.pair reactorsLeaveEnd (.of_exec (Option.some_get _).symm)
      (by decide +kernel) (by unfold Reactors.State.returned; decide +kernel)
    exact absurd closed.active (by decide +kernel)

end WebServer
