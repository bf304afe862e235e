import WebServer.Server.Handler

/-!
# The handler step by step

`ConnectionHandler` with one step for each call into the kernel, each look at the clock
and each turn of the parse loop: between any two of them another thread can do
something. A `Stage` is where the handler is with a connection. `steppedMachine` is one
connection that nobody else gets in the way of.
-/

namespace WebServer

open Base

variable {ρ : Type u}

/-- Where the handler is with a connection. -/
inductive Stage where
  /-- In no call; this is what the last one returned. -/
  | waiting (action : Action)
  /-- In the `recv` loop, which has read these bytes. -/
  | reading (bytes : Bytes)
  /-- The `recv` loop is done; before the clock is read. -/
  | drained (bytes : Bytes)
  /-- In the parse loop. -/
  | parsing
  /-- In `flush`. -/
  | writing
  deriving DecidableEq

inductive HandlerStep where
  /-- `onReadable` is called. -/
  | readable
  /-- `onWritable` is called. -/
  | writable
  /-- The event loop makes up its mind to close without a call. -/
  | hangup
  | recv (result : RecvResult)
  /-- The clock is read. -/
  | stamp (now : Int)
  /-- One turn of the parse loop. -/
  | parse
  | send (result : SendResult)
  /-- Nothing is left to send. -/
  | flushed

namespace Session

/-- What the `recv` loop makes of one result. -/
def recvStep (s : Session ρ) (bytes : Bytes) : RecvResult → Session ρ × Stage
  | .data chunk => (s.receive chunk.bytes, .reading (bytes ++ chunk.bytes))
  | .eof =>
    ({ s with connection := { s.connection with closeAfterWrite := true } }, .drained bytes)
  | .interrupted => (s, .reading bytes)
  | .wouldBlock => (s, .drained bytes)
  | .failed => (s, .waiting .close)

/-- The clock is read; the record gets the bytes of the call. -/
def stamp (s : Session ρ) (bytes : Bytes) (now : Int) : Session ρ :=
  { s with
    connection := { s.connection with lastActive := now }
    history := { s.history with batches := s.history.batches ++ [bytes] } }

/-- One turn of the parse loop, and whether there is another. -/
def turn (routing : Routing ρ) (s : Session ρ) : Session ρ × Bool :=
  if s.connection.readBuffer = [] then (s, false)
  else
    match s.connection.parser.parse s.connection.readBuffer with
    | (.NeedMore, parser, rest) =>
      ({ s with connection := { s.connection with parser, readBuffer := rest } }, false)
    | (.Error, parser, _) => (s.reject parser, false)
    | (.Complete, parser, rest) =>
      let s := s.respond routing parser rest
      if s.connection.closeAfterWrite then
        ({ s with connection := { s.connection with readBuffer := [] } }, false)
      else (s, true)

/-- What `flush` makes of one result of `send`. -/
def sendStep (s : Session ρ) : SendResult → Session ρ × Stage
  | .accepted more =>
    let offered := s.connection.writeBuffer.drop s.connection.writeOffset
    let written := offered.take (more + 1)
    ({ s with
      connection := { s.connection with
        writeOffset := s.connection.writeOffset + written.length }
      history := { s.history with sent := s.history.sent ++ written } }, .writing)
  | .interrupted => (s, .writing)
  | .wouldBlock => (s, .waiting .waitWrite)
  | .failed => (s, .waiting .close)

/-- The end of `flush`. -/
def flushed (s : Session ρ) : Session ρ × Stage :=
  ({ s with connection := { s.connection with writeBuffer := [], writeOffset := 0 } },
    .waiting (if s.connection.closeAfterWrite then .close else .waitRead))

end Session

/-- One step of the handler. The event loops call `onReadable` after `WaitRead` and
`onWritable` after `WaitWrite`. -/
def handlerStep (routing : Routing ρ) (s : Session ρ) : Stage → HandlerStep →
    Option (Session ρ × Stage)
  | .waiting .waitRead, .readable => some (s, .reading [])
  | .waiting .waitWrite, .writable => some (s, .writing)
  | .waiting .waitRead, .hangup => some (s, .waiting .close)
  | .waiting .waitWrite, .hangup => some (s, .waiting .close)
  | .reading bytes, .recv result => some (s.recvStep bytes result)
  | .drained bytes, .stamp now => some (s.stamp bytes now, .parsing)
  | .parsing, .parse =>
    let (s, more) := s.turn routing
    some (s, if more then .parsing else .writing)
  | .writing, .send result =>
    if s.connection.writeOffset < s.connection.writeBuffer.length then some (s.sendStep result)
    else none
  | .writing, .flushed =>
    if s.connection.writeOffset < s.connection.writeBuffer.length then none
    else some s.flushed
  | _, _ => none

/-- One connection, from its acceptance in the given server state. -/
def steppedMachine (routing : Routing ρ) (server : ρ) :
    Machine (Session ρ × Stage) HandlerStep where
  start := ({ server }, .waiting .waitRead)
  step state step := handlerStep routing state.1 state.2 step

end WebServer
