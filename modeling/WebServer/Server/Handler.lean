import WebServer.Base.Machine
import WebServer.Server.Connection

/-!
# The connection handler

`ConnectionHandler` of `src/connection_handler.cpp`. The results of the calls to
`recv` and `send` are given as lists, one result for each call; a list that ends
before the handler is done is a moment inside the handler, and there is no
action yet. What a list holds beyond the last call is not looked at.

`connectionMachine` drives one connection as the event loops do: `onReadable`
after `WaitRead`, `onWritable` after `WaitWrite`, nothing after `Close`, and in
place of either a hang-up, which closes.
-/

namespace WebServer

open Base

variable {ρ : Type u}

/-- The log record of a response. -/
def logData (request : HttpRequest) (response : HttpResponse) : LogData where
  ip := request.header (ascii "host")
  level := .info
  startLine := request.method ++ [32] ++ request.target ++ [32] ++ request.version
  responseCode := decimalInt response.status
  responseSize := decimal response.body.length

namespace Session

/-- `ConnectionHandler::appendResponse`. -/
def appendResponse (s : Session ρ) (request : HttpRequest) (response : HttpResponse) :
    Session ρ :=
  let response := { response with keepAlive := response.keepAlive && request.keepAlive }
  let queued : Queued := { response, omitBody := request.method = ascii "HEAD" }
  { s with
    connection := { s.connection with
      writeBuffer := s.connection.writeBuffer ++ queued.wire
      closeAfterWrite := s.connection.closeAfterWrite || !response.keepAlive }
    history := { s.history with
      queued := s.history.queued ++ [queued]
      logged := s.history.logged ++ [logData request response] } }

/-- `metrics.recordRequest`. -/
def record (s : Session ρ) (response : HttpResponse) (micros : Nat) : Session ρ :=
  { s with
    history := { s.history with
      recorded := s.history.recorded ++
        [{ status := response.status, responseBytes := response.body.length,
           latencyMicros := micros }] } }

/-- What the parse loop does with a request that the parser refused. -/
def reject (s : Session ρ) (parser : RequestParser) : Session ρ :=
  let bad := { parser.req with keepAlive := false }
  let errorResponse := HttpResponse.error parser.error
  let s := (s.record errorResponse 0).appendResponse bad errorResponse
  { s with
    connection := { s.connection with closeAfterWrite := true, readBuffer := [], parser }
    history := { s.history with rejected := s.history.rejected ++ [parser.error] } }

/-- What the parse loop does with a completed request, up to the `reset`; `rest`
is what the parser left in the read buffer. -/
def respond (routing : Routing ρ) (s : Session ρ) (parser : RequestParser) (rest : Bytes) :
    Session ρ :=
  let request := parser.req
  let (response, server) := routing.route s.server request
  let micros := routing.micros s.server request
  let s := (s.record response micros).appendResponse request response
  { s with
    server
    connection := { s.connection with parser := parser.reset, readBuffer := rest }
    history := { s.history with
      completed := s.history.completed ++ [request]
      routed := s.history.routed ++ [request] } }

/-- The parse loop of `onReadable`. -/
def answerAll (routing : Routing ρ) (s : Session ρ) : Session ρ :=
  if s.connection.readBuffer = [] then s
  else
    match _h : s.connection.parser.parse s.connection.readBuffer with
    | (.NeedMore, parser, rest) =>
      { s with connection := { s.connection with parser, readBuffer := rest } }
    | (.Error, parser, _) => s.reject parser
    | (.Complete, parser, rest) =>
      let s := s.respond routing parser rest
      if s.connection.closeAfterWrite then
        { s with connection := { s.connection with readBuffer := [] } }
      else s.answerAll routing
termination_by s.connection.parser.readWeight s.connection.readBuffer
decreasing_by exact RequestParser.readWeight_reset _h

/-- `ConnectionHandler::flush`. -/
def flush (s : Session ρ) (sends : List SendResult) : Session ρ × Option Action :=
  if s.connection.writeOffset < s.connection.writeBuffer.length then
    match sends with
    | [] => (s, none)
    | .accepted more :: sends =>
      let offered := s.connection.writeBuffer.drop s.connection.writeOffset
      let written := offered.take (more + 1)
      flush { s with
        connection := { s.connection with
          writeOffset := s.connection.writeOffset + written.length }
        history := { s.history with sent := s.history.sent ++ written } } sends
    | .interrupted :: sends => s.flush sends
    | .wouldBlock :: _ => (s, some .waitWrite)
    | .failed :: _ => (s, some .close)
  else
    ({ s with connection := { s.connection with writeBuffer := [], writeOffset := 0 } },
      some (if s.connection.closeAfterWrite then .close else .waitRead))
termination_by structural sends

/-- Appends what `recv` brought to the read buffer. -/
def receive (s : Session ρ) (bytes : Bytes) : Session ρ :=
  { s with connection := { s.connection with
      readBuffer := s.connection.readBuffer ++ bytes } }

/-- How the `recv` loop of `onReadable` ends. -/
inductive Drained where
  /-- The calls have not come to an end yet. -/
  | pending
  /-- The socket is drained, with or without an end of stream. -/
  | drained (eof : Bool)
  | failed
  deriving DecidableEq

/-- The `recv` loop: the bytes it reads, and how it ends. -/
def drain : List RecvResult → Bytes × Drained
  | [] => ([], .pending)
  | .data chunk :: recvs => (chunk.bytes ++ (drain recvs).1, (drain recvs).2)
  | .eof :: _ => ([], .drained true)
  | .interrupted :: recvs => drain recvs
  | .wouldBlock :: _ => ([], .drained false)
  | .failed :: _ => ([], .failed)

/-- `ConnectionHandler::onReadable`; the clock shows `now` when the socket is
drained. -/
def onReadable (routing : Routing ρ) (s : Session ρ) (recvs : List RecvResult) (now : Int)
    (sends : List SendResult) : Session ρ × Option Action :=
  let (bytes, ending) := drain recvs
  let s := s.receive bytes
  match ending with
  | .pending => (s, none)
  | .failed => (s, some .close)
  | .drained eof =>
    let s := { s with
      connection := { s.connection with
        closeAfterWrite := s.connection.closeAfterWrite || eof
        lastActive := now }
      history := { s.history with batches := s.history.batches ++ [bytes] } }
    (s.answerAll routing).flush sends

/-- `ConnectionHandler::onWritable`. -/
def onWritable (s : Session ρ) (sends : List SendResult) : Session ρ × Option Action :=
  s.flush sends

end Session

/-- One event of the connection's life, with what its calls answer. -/
inductive Wakeup where
  | readable (recvs : List RecvResult) (now : Int) (sends : List SendResult)
  | writable (sends : List SendResult)
  | hangup

/-- One call of the handler by an event loop. A state is a session and the
action the last call returned; `none` is a moment inside a call. -/
def connectionStep (routing : Routing ρ) (state : Session ρ × Option Action) (wakeup : Wakeup) :
    Option (Session ρ × Option Action) :=
  match state, wakeup with
  | (s, some .waitRead), .readable recvs now sends => some (s.onReadable routing recvs now sends)
  | (s, some .waitWrite), .writable sends => some (s.onWritable sends)
  | (s, some .waitRead), .hangup => some (s, some .close)
  | (s, some .waitWrite), .hangup => some (s, some .close)
  | _, _ => none

/-- The life of one connection, from its acceptance in the given server state. -/
def connectionMachine (routing : Routing ρ) (server : ρ) :
    Machine (Session ρ × Option Action) Wakeup where
  start := ({ server }, some .waitRead)
  step := connectionStep routing

end WebServer
