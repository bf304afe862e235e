import WebServer.Http.Feed
import WebServer.Http.Response

/-!
# A connection and the handler's view of it

The buffers of one live connection (`include/connection.h`), what the two event
loops pass in and get back, and a record of what the handler has done: which
bytes came in with each wakeup, what the parser answered, which requests were
routed, which responses were queued and logged, and which bytes `send` took. The
program keeps no such record; no branch of the handler reads it.
-/

namespace WebServer

open Base

/-- `ConnectionHandler::Action`. -/
inductive Action where
  | waitRead
  | waitWrite
  | close
  deriving DecidableEq, Repr

/-- The fields of `Connection` that the handler works with. -/
structure Connection where
  readBuffer : Bytes := []
  writeBuffer : Bytes := []
  writeOffset : Nat := 0
  parser : RequestParser := {}
  closeAfterWrite : Bool := false
  /-- Nanoseconds of the steady clock. -/
  lastActive : Int := 0

/-- The size of the buffer `onReadable` reads into. -/
def recvBuffer : Nat := 16 * 1024

/-- What one successful `recv` brings. -/
structure Chunk where
  bytes : Bytes
  nonempty : bytes ≠ []
  fits : bytes.length ≤ recvBuffer

/-- What `recv` answers: bytes, 0, `EINTR`, `EAGAIN`, another failure. -/
inductive RecvResult where
  | data (chunk : Chunk)
  | eof
  | interrupted
  | wouldBlock
  | failed

/-- What `send` answers: it took one byte and up to so many more of those
offered, `EINTR`, `EAGAIN`, another failure. -/
inductive SendResult where
  | accepted (more : Nat)
  | interrupted
  | wouldBlock
  | failed
  deriving DecidableEq, Repr

inductive LogLevel where
  | debug
  | info
  | warning
  | err
  deriving DecidableEq, Repr

structure LogData where
  ip : Bytes
  level : LogLevel
  startLine : Bytes
  responseCode : Bytes
  responseSize : Bytes
  deriving DecidableEq

/-- The arguments of one `Metrics::recordRequest`. -/
structure Recorded where
  status : Int
  responseBytes : Nat
  latencyMicros : Nat
  deriving DecidableEq, Repr

/-- A response as it was appended to the write buffer. -/
structure Queued where
  response : HttpResponse
  omitBody : Bool
  deriving DecidableEq

/-- The bytes a queued response put on the write buffer. -/
def Queued.wire (queued : Queued) : Bytes := queued.response.serialize queued.omitBody

/-- What the handler has done on a connection so far. -/
structure History where
  /-- The bytes read in each `onReadable` that came to parse them. -/
  batches : List Bytes := []
  /-- The requests the parser answered `Complete` with. -/
  completed : List HttpRequest := []
  /-- The statuses the parser answered `Error` with. -/
  rejected : List Nat := []
  routed : List HttpRequest := []
  recorded : List Recorded := []
  queued : List Queued := []
  logged : List LogData := []
  sent : Bytes := []

/-- The router, for whom a request may change the server's state, and the
microseconds the clock shows for it. -/
structure Routing (ρ : Type u) where
  route : ρ → HttpRequest → HttpResponse × ρ
  micros : ρ → HttpRequest → Nat

/-- A connection, the server's state, and the record. -/
structure Session (ρ : Type u) where
  connection : Connection := {}
  server : ρ
  history : History := {}

end WebServer
