import WebServer.Config.Settings
import WebServer.Http.Response

/-!
# The listening sockets

How the server comes from its configuration to the sockets that it listens with:
`createListener` of `src/net.cpp`, and the beginnings of `PoolLoop::run` and
`ReactorLoop::run`, up to where connections are accepted. What the calls of the system
answer is a parameter.
-/

namespace WebServer

open Base

/-- What the calls that make one listener answer. A call that fails says why, with the
text of its `errno`. -/
structure SocketCalls where
  socket : Except Bytes Int
  setReusePort : Except Bytes Unit
  inetPton : Bytes → Option UInt32
  bind : UInt32 → UInt16 → Except Bytes Unit
  listen : Except Bytes Unit
  setNonBlocking : Except Bytes Unit
  /-- `epoll_create1` and `eventfd`. -/
  makeEvents : Except Bytes Unit

/-- A socket that listens, and the address that it was bound to. -/
structure Listener where
  fd : Int
  address : UInt32
  port : UInt16

/-- What failed stands in front of the reason. -/
def failing {α : Type} (what : Bytes) (result : Except Bytes α) : Except Bytes α :=
  result.mapError fun error => what ++ error

/-- `createListener`. The result of `SO_REUSEADDR` is not looked at, and the port is cast
to sixteen bits. -/
def createListener (calls : SocketCalls) (ip : Bytes) (port : Int) (reusePort : Bool) :
    Except Bytes Listener := do
  let fd ← failing (ascii "socket(): ") calls.socket
  failing (ascii "SO_REUSEPORT: ") (if reusePort then calls.setReusePort else .ok ())
  match calls.inetPton (cString ip) with
  | none => throw (ascii "invalid bind address: " ++ ip)
  | some address =>
    let port := UInt16.ofInt port
    failing (ascii "bind(): ") (calls.bind address port)
    failing (ascii "listen(): ") calls.listen
    failing (ascii "fcntl(): ") calls.setNonBlocking
    return { fd, address, port }

namespace ServerConfig

/-- `ReactorLoop::setupReactor`. -/
def setupReactor (calls : SocketCalls) (config : ServerConfig) : Except Bytes Listener := do
  let listener ← createListener calls config.ip config.port true
  failing (ascii "epoll/eventfd: ") calls.makeEvents
  return listener

/-- The listener that `PoolLoop::run` makes. -/
def poolListener (calls : SocketCalls) (config : ServerConfig) : Except Bytes Listener := do
  let listener ← failing (ascii "Listener failed: ")
    (createListener calls config.ip config.port false)
  failing (ascii "epoll/eventfd failed: ") calls.makeEvents
  return listener

/-- The listeners of the loop that was chosen: one for each thread of the reactor. Where
one cannot be made, the error is what the log says. -/
def listeners (calls : Nat → SocketCalls) (config : ServerConfig) :
    Except Bytes (List Listener) :=
  if config.mode = ascii "reactor" then
    (List.range config.threads.toNat).mapM fun i =>
      failing (ascii "Reactor " ++ decimal i ++ ascii " failed: ") (setupReactor (calls i) config)
  else do
    let listener ← poolListener (calls 0) config
    return [listener]

end ServerConfig

/-- What `main` does up to where the server accepts connections. -/
def startup (calls : Nat → SocketCalls) (envFile : Bytes) (getenv : Bytes → Option Bytes)
    (args : List Bytes) : Except Bytes (List Listener) := do
  let config ← ServerConfig.load envFile getenv args
  config.listeners calls

end WebServer
