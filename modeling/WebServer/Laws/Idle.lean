import WebServer.Laws.Reactor.Idle
/-! # The idle sweep, in both loops

The sweep is there for clients that have gone silent. It goes by `lastActive`,
which `onReadable` sets and `onWritable` does not, so a client that reads a long
response for more than the timeout, and sends nothing, is taken for one
(`not_sweepsSilent`). Where whom the sweep collects was sent nothing after its stamp,
the sweep is right (`sweepsSilent`); in the pool it also has to leave alone whoever
has an event waiting. Until a sweep walks its table nothing is asked of a run.
-/

namespace WebServer

/-- In every run of either loop whose sweeps collect nobody that was sent bytes after
its stamp, and in the pool nobody with an event waiting, what a sweep closes has been
silent both ways for longer than the timeout. -/
theorem sweepsSilent (n m : Nat) (poolCfg : Pool.Config) (cfg : Reactors.Config m)
    (p : Pool.State n × Pool.Past) (q : Reactors.State m × Pool.Traffic) :
    ((Pool.timed n poolCfg).Reach (Pool.Attentive poolCfg) p → Pool.Idle poolCfg p.1 p.2.traffic) ∧
      ((Reactors.timed m cfg).Reach (Reactors.Unsent cfg) q → Reactors.Idle cfg q.1 q.2) :=
  ⟨Pool.idle_of_attentive, Reactors.idle_of_unsent⟩

/-! ## A client that is answered and goes silent -/

open Pool in
/-- The first client sends a request, is answered, and sixteen silent seconds later
the sweep takes its connection out of the table. -/
def answeredThenSwept : List (Pool.Label 1) :=
  acceptSix ++ [.accepter .go, .accepter (.ready [firstReadable]), .accepter .go, .accepter .go,
      .accepter .go] ++
    works [.go, .go, .recv .data, .recv .wouldBlock, .go, .send .sent, .flushed false, .go,
      .ctlMod true] ++
    [.tick 16000000000, .accepter .go, .accepter (.ready []), .accepter .go, .accepter .go,
      .accepter .go, .accepter (.order [6]), .accepter .go]

/-- Where that run ends. -/
def answeredThenSweptEnd : Pool.State 1 × Pool.Past :=
  ((Pool.timed 1 {}).exec (Pool.timed 1 {}).start answeredThenSwept).get (by decide +kernel)

/-- The first reactor's client has sent bytes. -/
def clientReadable : Pool.Event :=
  { fd := 10, events := { epollin := true }, raisedFor := some 0 }

open Reactors in
/-- The same in a reactor. -/
def reactorAnswersThenSweeps : List (Reactors.Label 2) :=
  greets first 10 ++
    runs first [.go, .go, .go, .ready [clientReadable], .go, .recv .data, .recv .wouldBlock, .go,
      .send .sent, .flushed false, .ctlMod true, .go] ++
    [.tick 16000000000] ++ runs first [.go, .go, .order [10], .go]

/-- Where that run ends. -/
def reactorAnswersThenSweepsEnd : Reactors.State 2 × Pool.Traffic :=
  ((Reactors.timed 2 Reactors.pair).exec (Reactors.timed 2 Reactors.pair).start
    reactorAnswersThenSweeps).get (by decide +kernel)

/-- Both loops are closing a client, and it has been silent. -/
theorem sweepsSilent_answered :
    (answeredThenSweptEnd.1.accepter.removing = some 6 ∧
      Pool.Idle {} answeredThenSweptEnd.1 answeredThenSweptEnd.2.traffic) ∧
    (reactorAnswersThenSweepsEnd.1.reactors 0).pc.sweeping = some 10 ∧
      Reactors.Idle Reactors.pair reactorAnswersThenSweepsEnd.1 reactorAnswersThenSweepsEnd.2 := by
  obtain ⟨pool, reactors⟩ := sweepsSilent 1 2 {} Reactors.pair answeredThenSweptEnd
    reactorAnswersThenSweepsEnd
  refine ⟨⟨by decide +kernel, pool ?_⟩, by decide +kernel, reactors ?_⟩
  · exact .of_exec .start (by decide +kernel) (Option.some_get _).symm
  · exact .of_exec .start (by decide +kernel) (Option.some_get _).symm

/-! ## A client that is still downloading -/

/-- The first client's socket takes bytes again. -/
def firstWritable : Pool.Event := { fd := 6, events := { epollout := true }, raisedFor := some 0 }

open Pool in
/-- The client asks for a large response. Ten seconds after the request its socket
takes some more of it, ten seconds after that the sweep comes. -/
def sweptDownload : List (Pool.Label 1) :=
  acceptSix ++ [.accepter .go, .accepter (.ready [firstReadable]), .accepter .go, .accepter .go,
      .accepter .go] ++
    works [.go, .go, .recv .data, .recv .wouldBlock, .go, .send .sent, .send .wouldBlock, .go,
      .ctlMod true] ++
    [.tick 10000000000, .accepter .go, .accepter (.ready [firstWritable]), .accepter .go] ++
    works [.go, .go, .send .sent, .send .wouldBlock, .go, .ctlMod true] ++
    [.tick 10000000000, .accepter .go, .accepter .go, .accepter .go, .accepter (.order [6]),
      .accepter .go]

/-- Where that run ends. -/
def sweptDownloadEnd : Pool.State 1 × Pool.Past :=
  ((Pool.timed 1 {}).exec (Pool.timed 1 {}).start sweptDownload).get (by decide +kernel)

/-- The first reactor's client takes bytes again. -/
def clientWritable : Pool.Event :=
  { fd := 10, events := { epollout := true }, raisedFor := some 0 }

open Reactors in
/-- The same in a reactor, whose sweep after the first ten seconds finds nobody. -/
def reactorSweepsDownload : List (Reactors.Label 2) :=
  greets first 10 ++
    runs first [.go, .go, .go, .ready [clientReadable], .go, .recv .data, .recv .wouldBlock, .go,
      .send .sent, .send .wouldBlock, .ctlMod true, .go, .go] ++
    [.tick 10000000000] ++
    runs first [.go, .ready [clientWritable], .go, .send .sent, .send .wouldBlock, .ctlMod true,
      .go, .go, .go, .order [], .go] ++
    [.tick 10000000000] ++ runs first [.go, .ready [], .go, .go, .go, .order [10], .go]

/-- Where that run ends. -/
def reactorSweepsDownloadEnd : Reactors.State 2 × Pool.Traffic :=
  ((Reactors.timed 2 Reactors.pair).exec (Reactors.timed 2 Reactors.pair).start
    reactorSweepsDownload).get (by decide +kernel)

/-- Each loop's sweep can close a client that took bytes within the timeout. -/
theorem not_sweepsSilent :
    (¬ ∀ (n : Nat) (cfg : Pool.Config) (p : Pool.State n × Pool.Past),
      (Pool.timed n cfg).Reachable p → Pool.Idle cfg p.1 p.2.traffic) ∧
    ¬ ∀ (m : Nat) (cfg : Reactors.Config m) (p : Reactors.State m × Pool.Traffic),
      (Reactors.timed m cfg).Reachable p → Reactors.Idle cfg p.1 p.2 := by
  constructor
  · intro h
    have idle := h 1 {} sweptDownloadEnd (.of_exec (Option.some_get _).symm)
    have silent := idle 6 0 (by decide +kernel) (by decide +kernel)
    exact absurd (silent.sent 10000000000 (by decide +kernel)) (by decide +kernel)
  · intro h
    have idle := h 2 Reactors.pair reactorSweepsDownloadEnd (.of_exec (Option.some_get _).symm)
    have silent := idle 0 10 0 (by decide +kernel) (by decide +kernel)
    exact absurd (silent.sent 10000000000 (by decide +kernel)) (by decide +kernel)

end WebServer
