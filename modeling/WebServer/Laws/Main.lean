import WebServer.Laws.Pool.Server
import WebServer.Laws.Reactor.Server
import WebServer.Laws.Server.Main

/-!
# The server of `main()` under each of its loops

`main()` chooses one of two loops and gives it the router. What was said of the loops for
any router, and of the router for any order of the sections of its calls, comes together
here: a client of either server hears one reply for each of its requests, in order, and
what it hears is true. For the pool this is so on clean runs.
-/

namespace WebServer

open Base

variable {μ : Type} {root : FileTree} {toJson : μ → Nat → Nat → Bytes} {staticRoot : Bytes}
  {cacheCapacity : Int}

/-- A loop, and the connections of `main()`. -/
abbrev MainServed (σ μ : Type) := Hosted σ Desk Errand (Found μ)

/-- A request that stores a value. -/
def storeRequest : Chunk where
  bytes := ascii "POST /api/kv HTTP/1.1" ++ CRLF ++ ascii "Content-Length: 13" ++ CRLF ++ CRLF ++
    ascii "key=a&value=x"
  nonempty := by decide
  fits := by decide

/-- A request for it. -/
def fetchRequest : Chunk where
  bytes := ascii "GET /api/kv?key=a HTTP/1.1" ++ CRLF ++ CRLF
  nonempty := by decide
  fits := by decide

namespace Reactors

variable {m : Nat} {cfg : Config m} {h h' : MainServed (State m) μ}
  {labels : List (HostLabel (Label m) (Found μ))}

/-- The reactors, with the router of `main()`. -/
def mainServer (m : Nat) (cfg : Config m) (root : FileTree) (toJson : μ → Nat → Nat → Bytes)
    (staticRoot : Bytes) (cacheCapacity : Int) :
    Machine (MainServed (State m) μ) (HostLabel (Label m) (Found μ)) :=
  server m cfg (mainRouter root toJson staticRoot cacheCapacity)
    (Desk.start root staticRoot cacheCapacity)

/-- What clients may rely on between two moments of a run: what they are told is true, and
a client that a reactor listens for can read it. -/
structure Serves (root : FileTree) (toJson : μ → Nat → Nat → Bytes)
    (staticRoot : Bytes) (cacheCapacity : Int) (h h' : MainServed (State m) μ) :
    Prop where
  truthful : Truthful root toJson (StaticFileHandler.new root staticRoot cacheCapacity).staticRoot
    h.crowd h'.crowd
  legible : ∀ i fd k, Listening h'.loop i fd k → (h'.crowd.guests k).Legible

/-- Every run of the reactors serves, whichever reactor has which client. -/
theorem reactors_serve
    (r : (mainServer m cfg root toJson staticRoot cacheCapacity).Reachable h)
    (run : (mainServer m cfg root toJson staticRoot cacheCapacity).exec h labels = some h') :
    Serves root toJson staticRoot cacheCapacity h h' := by
  have r' := Machine.Reach.of_exec r (Machine.meets_true _ _ _) run
  obtain ⟨hcoupled, hcrowd⟩ := coupled_of_server r'
  constructor
  · exact WebServer.truthful (decided_prefix_exec run) hcrowd
  · intro i fd k listening
    exact dialogue_legible hcrowd
      (hcoupled.listening (owned_of_reach (loop_of_server r')) listening)
      (Desk.shared_clean root toJson _)

/-- A client connects to the reactor, makes its request in one piece, and is answered. -/
def asks (i : Fin 2) (fd k : Nat) (request : Chunk) : List (HostLabel (Label 2) (Found Unit)) :=
  plainly (greets i fd ++ runs i [.go, .go, .go,
      .ready [{ fd, events := { epollin := true }, raisedFor := some k }], .go]) ++
    [.loop (.reactor i (.recv .data)) (.recv (.data request)),
      .loop (.reactor i (.recv .wouldBlock)) (.recv .wouldBlock)] ++
    plainly (runs i [.go]) ++
    routed k { metrics := () } 7 ++
    [.parse k, .loop (.reactor i (.send .sent)) (.send (.accepted 1000))] ++
    plainly (runs i [.flushed false, .ctlMod true])

/-- Two reactors without files. -/
def smallServer :
    Machine (MainServed (State 2) Unit) (HostLabel (Label 2) (Found Unit)) :=
  mainServer 2 pair (.directory true []) (fun _ _ _ => []) [] 0

/-- A client of the first reactor has stored a value. -/
def stored : MainServed (State 2) Unit :=
  (smallServer.exec smallServer.start (asks first 10 0 storeRequest)).get (by decide +kernel)

/-- Then a client of the second one has asked for it. -/
def fetched : MainServed (State 2) Unit :=
  (smallServer.exec stored (asks second 11 1 fetchRequest)).get (by decide +kernel)

theorem reactors_serve_fetched :
    (fetched.crowd.decided.map Prod.fst, (fetched.crowd.guests 1).stage) =
        ([0, 1], .waiting .waitRead) ∧
      Serves (.directory true []) (fun _ _ _ => []) [] 0 stored fetched :=
  ⟨by decide +kernel,
    reactors_serve (.of_exec (Option.some_get _).symm) (Option.some_get _).symm⟩

end Reactors

namespace Pool

variable {n : Nat} {cfg : Config} {h h' : MainServed (State n) μ}
  {labels : List (HostLabel (Label n) (Found μ))}

/-- The pool, with the router of `main()`. -/
def mainServer (n : Nat) (cfg : Config) (root : FileTree) (toJson : μ → Nat → Nat → Bytes)
    (staticRoot : Bytes) (cacheCapacity : Int) :
    Machine (MainServed (State n) μ) (HostLabel (Label n) (Found μ)) :=
  server n cfg (mainRouter root toJson staticRoot cacheCapacity)
    (Desk.start root staticRoot cacheCapacity)

/-- What clients may rely on between two moments of a run: what they are told is true, and
a client whose connection is armed for input can read it. -/
structure Serves (root : FileTree) (toJson : μ → Nat → Nat → Bytes)
    (staticRoot : Bytes) (cacheCapacity : Int) (h h' : MainServed (State n) μ) :
    Prop where
  truthful : Truthful root toJson (StaticFileHandler.new root staticRoot cacheCapacity).staticRoot
    h.crowd h'.crowd
  legible : ∀ fd k, Listening h'.loop fd k → (h'.crowd.guests k).Legible

/-- Every clean run of the pool serves, whichever worker takes which event. -/
theorem workers_serve
    (r : (mainServer n cfg root toJson staticRoot cacheCapacity).Reach
      (Hosted.On (Clean cfg)) h)
    (meets : (mainServer n cfg root toJson staticRoot cacheCapacity).Meets
      (Hosted.On (Clean cfg)) h labels)
    (run : (mainServer n cfg root toJson staticRoot cacheCapacity).exec h labels = some h') :
    Serves root toJson staticRoot cacheCapacity h h' := by
  have r' := Machine.Reach.of_exec r meets run
  obtain ⟨hcoupled, hcrowd⟩ := coupled_of_clean r'
  constructor
  · exact WebServer.truthful (decided_prefix_exec run) hcrowd
  · intro fd k listening
    exact dialogue_legible hcrowd
      (hcoupled.armed fd k .epollin listening.armed listening.isOpen listening.unswept)
      (Desk.shared_clean root toJson _)

/-- A client connects, makes its request in one piece, and is answered by the worker. -/
def asks (fd k : Nat) (request : Chunk) : List (HostLabel (Label 1) (Found Unit)) :=
  plainly ([.accepter .go, .accepter (.ready [connecting]), .accepter .go,
      .accepter (.accepted fd), .accepter .go, .accepter .go, .accepter (.ctlAdd true),
      .accepter .refused, .accepter .go, .accepter .go, .accepter .go,
      .accepter (.ready [{ fd, events := { epollin := true }, raisedFor := some k }]),
      .accepter .go] ++ works [.go, .go]) ++
    [.loop (.worker lone (.recv .data)) (.recv (.data request)),
      .loop (.worker lone (.recv .wouldBlock)) (.recv .wouldBlock)] ++
    plainly (works [.go]) ++
    routed k { metrics := () } 7 ++
    [.parse k, .loop (.worker lone (.send .sent)) (.send (.accepted 1000))] ++
    plainly (works [.flushed false, .go, .ctlMod true] ++ [.accepter .go, .accepter .go])

/-- A pool of one worker without files. -/
def smallServer : Machine (MainServed (State 1) Unit) (HostLabel (Label 1) (Found Unit)) :=
  mainServer 1 {} (.directory true []) (fun _ _ _ => []) [] 0

/-- A client has stored a value. -/
def stored : MainServed (State 1) Unit :=
  (smallServer.exec smallServer.start (asks 6 0 storeRequest)).get (by decide +kernel)

/-- Then another one has asked for it. -/
def fetched : MainServed (State 1) Unit :=
  (smallServer.exec stored (asks 7 1 fetchRequest)).get (by decide +kernel)

theorem workers_serve_fetched :
    (fetched.crowd.decided.map Prod.fst, (fetched.crowd.guests 1).stage) =
        ([0, 1], .waiting .waitRead) ∧
      Serves (.directory true []) (fun _ _ _ => []) [] 0 stored fetched :=
  ⟨by decide +kernel,
    workers_serve (.of_exec .start (by decide +kernel) (Option.some_get _).symm) (by decide +kernel)
      (Option.some_get _).symm⟩

end Pool

end WebServer
