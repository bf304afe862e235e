import Mathlib.Data.List.AList
import WebServer.Base.Machine
import WebServer.Server.Connection
/-! # The pool loop as interleaved steps

One thread accepts, delivers readiness and sweeps; the workers take events from
the queue and serve them; some thread may call `stop()`. A step is one section
under a mutex, or one call into the kernel, or one access to a shared variable:
the threads interleave between steps in every order. Labels carry what the
kernel and the clock choose.

What a connection says is not modelled here, only which calls are made on whose
behalf: `recv` and `send` may answer anything, so `onReadable` and `onWritable`
cover every router and every client. Sockets are told apart by a number that the
kernel never uses twice, which is also the identity of the `Connection` object
made for it; no branch of the loops reads it.
-/

namespace WebServer.Pool

/-- A descriptor number. -/
abbrev Fd := Nat

/-- An accepted socket, and the `Connection` object created for it. -/
abbrev Sock := Nat

/-- Nanoseconds of the steady clock. -/
abbrev Time := Int

/-- `std::chrono::seconds(n)`. -/
def seconds (n : Int) : Time := n * 1000000000

/-- `epoll_wait` is given room for this many events. -/
def kMaxEvents : Nat := 256

/-- The bits of `epoll_event::events` that the loop looks at. -/
structure EventBits where
  epollin : Bool := false
  epollout : Bool := false
  epollhup : Bool := false
  epollerr : Bool := false
  deriving DecidableEq, Repr

/-- What a registration asks for besides the conditions always reported. -/
inductive Interest where
  | epollin
  | epollout
  deriving DecidableEq, Repr

/-- The bits the kernel may report: an error or a hang-up always, readiness only
if it was asked for, and something in any case. -/
def Interest.reports (i : Interest) (bits : EventBits) : Bool :=
  (bits.epollin || bits.epollout || bits.epollhup || bits.epollerr) &&
    (!bits.epollin || i = .epollin) && (!bits.epollout || i = .epollout)

/-- A descriptor's entry in the epoll set, always `EPOLLONESHOT` for a client:
after one report the entry stays, disarmed, until the next `EPOLL_CTL_MOD`. -/
inductive Registration where
  | absent
  | disarmed
  | armed (interest : Interest)
  deriving DecidableEq, Repr

/-- `PoolLoop::Event`. The program has the number and the bits; `raisedFor` is
the socket the kernel meant, `none` for the listener and the eventfd. -/
structure Event where
  fd : Fd
  events : EventBits
  raisedFor : Option Sock
  deriving DecidableEq, Repr

/-- The fields of `Connection` that the loop itself reads. -/
structure Connection where
  fd : Fd
  busy : Bool := false
  lastActive : Time
  deriving DecidableEq, Repr

/-- The calls of `closeConnection(fd)`, in order. -/
inductive Closing where
  | erase
  | ctlDel
  | close
  | account
  deriving DecidableEq, Repr

/-- Where the accept thread is in `acceptLoop`. -/
inductive AcceptPc where
  /-- Before the test of `running`. -/
  | poll
  /-- In `epoll_wait`. -/
  | wait
  /-- In the loop over the batch, with the events not looked at yet. -/
  | dispatch (batch : List Event)
  /-- In the accept loop, before `accept`. -/
  | accept (batch : List Event)
  /-- `accept` returned `fd`; before the insertion. -/
  | insert (batch : List Event) (fd : Fd) (sock : Sock)
  /-- Before `connectionOpened()`. -/
  | opened (batch : List Event) (fd : Fd)
  /-- Before `EPOLL_CTL_ADD`. -/
  | register (batch : List Event) (fd : Fd)
  /-- After the batch, before the clock is read. -/
  | afterBatch
  /-- `sweepIdleConnections` is entered at loop time `at_`. -/
  | sweep (at_ : Time)
  /-- The sweep has read the clock; before its section over the table. -/
  | scan (at_ now : Time)
  /-- Closing the expired connections, the first being at the given call. -/
  | expire (at_ : Time) (expired : List Fd) (stage : Closing)
  /-- The loop was left. -/
  | done
  deriving DecidableEq, Repr

/-- Where a worker is in `workerLoop` and `handleEvent`. -/
inductive WorkerPc where
  /-- At the queue. -/
  | idle
  /-- An event was taken; before the lookup. -/
  | taken (event : Event)
  /-- In `onReadable`, before a `recv`. -/
  | reading (event : Event) (sock : Sock)
  /-- `onReadable` has drained the socket; before `lastActive` is set. -/
  | drained (event : Event) (sock : Sock)
  /-- In `flush`, before a `send` or its end. -/
  | writing (event : Event) (sock : Sock)
  /-- The action is known; before `busy` is cleared. -/
  | served (event : Event) (sock : Sock) (action : Action)
  /-- In `rearm(event.fd, interest)`. -/
  | rearming (event : Event) (sock : Sock) (interest : Interest)
  /-- In `closeConnection(event.fd)`. -/
  | closing (event : Event) (sock : Sock) (stage : Closing)
  /-- `workerLoop` returned. -/
  | exited
  deriving DecidableEq, Repr

/-- Where the one effective call of `stop()` is. -/
inductive StopPc where
  | idle
  /-- Before the write to the eventfd. -/
  | wake
  /-- Before the section that empties the table. -/
  | clear
  /-- Before the close of the first of the listed descriptors. -/
  | close (open_ : List Fd)
  /-- Before `connectionClosed()`, with the descriptors still to close. -/
  | account (open_ : List Fd)
  /-- Before the close of the listener. -/
  | closeListener
  /-- Before `listenFd = -1`. -/
  | resetListener
  | done
  deriving DecidableEq, Repr

/-- The descriptors `run()` sets up, and the idle timeout. -/
structure Config where
  listenFd : Fd := 3
  epollFd : Fd := 4
  stopFd : Fd := 5
  idleTimeoutSeconds : Int := 15

/-- The descriptors no connection can have while the loop runs. -/
def Config.reserved (cfg : Config) : List Fd :=
  [cfg.listenFd, cfg.epollFd, cfg.stopFd]

/-- The state shared by the threads, the kernel's part of it, and where each
thread is. -/
structure State (n : Nat) where
  /-- The open client descriptors. -/
  files : Fd → Option Sock
  /-- The epoll set's client entries. -/
  epoll : Fd → Registration
  /-- The next socket's number. -/
  next : Sock
  /-- The listener is open in the kernel. -/
  listening : Bool
  /-- The eventfd has been written. -/
  stopSignal : Bool
  now : Time
  running : Bool
  /-- `listenFd`, while it is not -1. -/
  listenFd : Option Fd
  connections : AList fun _ : Fd => Sock
  objects : Sock → Connection
  workQueue : List Event
  activeConnections : Int
  lastSweep : Time
  accepter : AcceptPc
  workers : Fin n → WorkerPc
  stopper : StopPc

variable {n : Nat}

/-- The state in which `run()` starts its threads. -/
def State.initial (n : Nat) (cfg : Config) : State n where
  files := fun _ => none
  epoll := fun _ => .absent
  next := 0
  listening := true
  stopSignal := false
  now := 0
  running := true
  listenFd := some cfg.listenFd
  connections := ∅
  objects := fun _ => { fd := 0, lastActive := 0 }
  workQueue := []
  activeConnections := 0
  lastSweep := 0
  accepter := .poll
  workers := fun _ => .idle
  stopper := .idle

/-- Moves one worker. -/
def State.setWorker (s : State n) (w : Fin n) (pc : WorkerPc) : State n :=
  { s with workers := Function.update s.workers w pc }

/-- Writes to a `Connection` object through the pointer to it. -/
def State.setObject (s : State n) (k : Sock) (c : Connection) : State n :=
  { s with objects := Function.update s.objects k c }

/-- `close(fd)`: the number is free again, and with the file goes its epoll
entry. -/
def State.closeFd (s : State n) (fd : Fd) : State n :=
  { s with
    files := Function.update s.files fd none
    epoll := Function.update s.epoll fd .absent }

/-- `PoolLoop::closeConnection`, one call at a time: the state after the call
and the call that follows, if any. -/
def closeConnection (s : State n) (fd : Fd) : Closing → State n × Option Closing
  | .erase =>
    if fd ∈ s.connections then
      ({ s with connections := s.connections.erase fd }, some .ctlDel)
    else (s, none)
  | .ctlDel => ({ s with epoll := Function.update s.epoll fd .absent }, some .close)
  | .close => (s.closeFd fd, some .account)
  | .account => ({ s with activeConnections := s.activeConnections - 1 }, none)

/-! ## The accept thread -/

/-- What is chosen for a step of the accept thread: `go` where there is nothing
to choose. -/
inductive AcceptChoice where
  | go
  /-- `epoll_wait` returned these events. -/
  | ready (batch : List Event)
  /-- `epoll_wait` failed with `EINTR`. -/
  | interrupted
  /-- `epoll_wait` failed otherwise. -/
  | failed
  /-- `accept` returned this descriptor. -/
  | accepted (fd : Fd)
  /-- `accept` failed. -/
  | refused
  | ctlAdd (ok : Bool)
  /-- The order in which the table is walked. -/
  | order (fds : List Fd)
  deriving DecidableEq, Repr

/-- The event is one the kernel may report now. -/
def deliverable (cfg : Config) (s : State n) (e : Event) : Bool :=
  match e.raisedFor with
  | none => (e.fd = cfg.stopFd && s.stopSignal) || (e.fd = cfg.listenFd && s.listening)
  | some k =>
    s.files e.fd = some k &&
      match s.epoll e.fd with
      | .armed i => i.reports e.events
      | _ => false

/-- The epoll set after a batch was taken: its clients are disarmed. -/
def disarm (s : State n) (batch : List Event) (fd : Fd) : Registration :=
  if batch.any fun e => e.raisedFor.isSome && e.fd = fd then .disarmed else s.epoll fd

/-- The descriptors that `sweepIdleConnections` collects. -/
def State.expired (cfg : Config) (s : State n) (now : Time) : List Fd :=
  (s.connections.entries.filter fun entry =>
    let connection := s.objects entry.2
    !connection.busy && now - connection.lastActive > seconds cfg.idleTimeoutSeconds).map
      Sigma.fst

/-- One step of `PoolLoop::acceptLoop` and what it calls. -/
def acceptStep (cfg : Config) (s : State n) (c : AcceptChoice) : Option (State n) :=
  match s.accepter, c with
  | .poll, .go => some { s with accepter := if s.running then .wait else .done }
  | .wait, .ready batch =>
    if batch.length ≤ kMaxEvents ∧ (batch.map Event.fd).Nodup ∧
        ∀ e ∈ batch, deliverable cfg s e then
      some { s with epoll := disarm s batch, accepter := .dispatch batch }
    else none
  | .wait, .interrupted => some { s with accepter := .poll }
  | .wait, .failed => some { s with accepter := .done }
  | .dispatch [], .go => some { s with accepter := .afterBatch }
  | .dispatch (e :: batch), .go =>
    if e.fd = cfg.stopFd then some { s with running := false, accepter := .afterBatch }
    else if s.listenFd = some e.fd then some { s with accepter := .accept batch }
    else some { s with workQueue := s.workQueue ++ [e], accepter := .dispatch batch }
  | .accept batch, .accepted fd =>
    if s.listening ∧ s.files fd = none ∧ fd ∉ cfg.reserved then
      some { s with
        files := Function.update s.files fd (some s.next)
        next := s.next + 1
        accepter := .insert batch fd s.next }
    else none
  | .accept batch, .refused => some { s with accepter := .dispatch batch }
  | .insert batch fd k, .go =>
    some { s.setObject k { fd := fd, lastActive := s.now } with
      connections := s.connections.insert fd k
      accepter := .opened batch fd }
  | .opened batch fd, .go =>
    some { s with
      activeConnections := s.activeConnections + 1
      accepter := .register batch fd }
  | .register batch fd, .ctlAdd true =>
    if s.files fd ≠ none ∧ s.epoll fd = .absent then
      some { s with
        epoll := Function.update s.epoll fd (.armed .epollin)
        accepter := .accept batch }
    else none
  | .register batch _, .ctlAdd false => some { s with accepter := .accept batch }
  | .afterBatch, .go =>
    some { s with
      accepter := if s.now - s.lastSweep ≥ seconds 1 then .sweep s.now else .poll }
  | .sweep at_, .go => some { s with accepter := .scan at_ s.now }
  | .scan at_ now, .order fds =>
    if fds.Perm (s.expired cfg now) then some { s with accepter := .expire at_ fds .erase }
    else none
  | .expire at_ [] _, .go => some { s with lastSweep := at_, accepter := .poll }
  | .expire at_ (fd :: fds) stage, .go =>
    match closeConnection s fd stage with
    | (s', some next) => some { s' with accepter := .expire at_ (fd :: fds) next }
    | (s', none) => some { s' with accepter := .expire at_ fds .erase }
  | _, _ => none

/-! ## The workers -/

/-- What `recv` answers: some bytes, end of stream, `EINTR`, `EAGAIN`, another
failure. -/
inductive Recv where
  | data
  | eof
  | interrupted
  | wouldBlock
  | failed
  deriving DecidableEq, Repr

/-- What `send` answers: some bytes taken, `EINTR`, `EAGAIN`, another failure. -/
inductive Send where
  | sent
  | interrupted
  | wouldBlock
  | failed
  deriving DecidableEq, Repr

/-- What is chosen for a step of a worker. -/
inductive WorkerChoice where
  | go
  | recv (r : Recv)
  | send (r : Send)
  /-- Nothing is left to send. -/
  | flushed (closeAfterWrite : Bool)
  | ctlMod (ok : Bool)
  deriving DecidableEq, Repr

/-- The code that `handleEvent` enters with the connection it found. -/
def enter (e : Event) (k : Sock) : WorkerPc :=
  if e.events.epollhup || e.events.epollerr then .served e k .close
  else if e.events.epollout then .writing e k
  else .reading e k

/-- What follows the clearing of `busy`. -/
def act (e : Event) (k : Sock) : Action → WorkerPc
  | .waitRead => .rearming e k .epollin
  | .waitWrite => .rearming e k .epollout
  | .close => .closing e k .erase

/-- One step of `PoolLoop::workerLoop`, of `handleEvent` and of what they call.
A descriptor that is not open answers only failures. -/
def workerStep (s : State n) (w : Fin n) (c : WorkerChoice) : Option (State n) :=
  match s.workers w, c with
  | .idle, .go =>
    match s.workQueue with
    | [] => if s.running then none else some (s.setWorker w .exited)
    | e :: rest => some ({ s with workQueue := rest }.setWorker w (.taken e))
  | .taken e, .go =>
    match s.connections.lookup e.fd with
    | none => some (s.setWorker w .idle)
    | some k =>
      some ((s.setObject k { s.objects k with busy := true }).setWorker w (enter e k))
  | .reading e k, .recv r =>
    match r, s.files (s.objects k).fd with
    | .data, some _ => some s
    | .interrupted, some _ => some s
    | .eof, some _ => some (s.setWorker w (.drained e k))
    | .wouldBlock, some _ => some (s.setWorker w (.drained e k))
    | .failed, _ => some (s.setWorker w (.served e k .close))
    | _, none => none
  | .drained e k, .go =>
    some ((s.setObject k { s.objects k with lastActive := s.now }).setWorker w (.writing e k))
  | .writing e k, .send r =>
    match r, s.files (s.objects k).fd with
    | .sent, some _ => some s
    | .interrupted, some _ => some s
    | .wouldBlock, some _ => some (s.setWorker w (.served e k .waitWrite))
    | .failed, _ => some (s.setWorker w (.served e k .close))
    | _, none => none
  | .writing e k, .flushed closeAfterWrite =>
    some (s.setWorker w (.served e k (if closeAfterWrite then .close else .waitRead)))
  | .served e k action, .go =>
    some ((s.setObject k { s.objects k with busy := false }).setWorker w (act e k action))
  | .rearming e _ i, .ctlMod true =>
    if s.epoll e.fd = .absent then none
    else
      some ({ s with epoll := Function.update s.epoll e.fd (.armed i) }.setWorker w .idle)
  | .rearming e k _, .ctlMod false => some (s.setWorker w (.closing e k .erase))
  | .closing e k stage, .go =>
    match closeConnection s e.fd stage with
    | (s', some next) => some (s'.setWorker w (.closing e k next))
    | (s', none) => some (s'.setWorker w .idle)
  | _, _ => none

/-! ## `stop()` -/

/-- What is chosen for a step of `stop()`. -/
inductive StopChoice where
  | go
  /-- The order in which the table is walked. -/
  | order (fds : List Fd)
  deriving DecidableEq, Repr

/-- One step of `PoolLoop::stop`. Every call after the first that finds
`running` set returns at once and is no step. -/
def stopStep (s : State n) (c : StopChoice) : Option (State n) :=
  match s.stopper, c with
  | .idle, .go => if s.running then some { s with running := false, stopper := .wake } else none
  | .wake, .go => some { s with stopSignal := true, stopper := .clear }
  | .clear, .order fds =>
    if fds.Perm s.connections.keys then
      some { s with connections := ∅, stopper := .close fds }
    else none
  | .close [], .go =>
    some { s with stopper := if s.listenFd.isSome then .closeListener else .done }
  | .close (fd :: fds), .go => some { s.closeFd fd with stopper := .account fds }
  | .account fds, .go =>
    some { s with activeConnections := s.activeConnections - 1, stopper := .close fds }
  | .closeListener, .go => some { s with listening := false, stopper := .resetListener }
  | .resetListener, .go => some { s with listenFd := none, stopper := .done }
  | _, _ => none

/-! ## The whole loop -/

/-- Who moves, and what was chosen for it. -/
inductive Label (n : Nat) where
  /-- Time passes. -/
  | tick (elapsed : Nat)
  | accepter (c : AcceptChoice)
  | worker (w : Fin n) (c : WorkerChoice)
  | stopper (c : StopChoice)
  deriving DecidableEq, Repr

/-- One step of the pool loop. -/
def step (cfg : Config) (s : State n) : Label n → Option (State n)
  | .tick elapsed => some { s with now := s.now + elapsed }
  | .accepter c => acceptStep cfg s c
  | .worker w c => workerStep s w c
  | .stopper c => stopStep s c

/-- The pool loop with `n` workers. -/
def loop (n : Nat) (cfg : Config) : Machine (State n) (Label n) where
  start := .initial n cfg
  step := step cfg

end WebServer.Pool
