import WebServer.Pool.Model
/-! # The reactors as interleaved steps

Every reactor is a thread with an epoll set, a listener, an eventfd and a table
of its own; it accepts, reads, writes, closes and sweeps by itself and takes no
lock. The reactors share the process: the kernel's descriptor numbers, the
`running` flag, the counter of connections, the clock. A step is one call into
the kernel or one access to something shared, and the reactors' steps interleave
in every order, with those of the thread that calls `stop()`.

As in the pool, what a connection says is left open: `recv` and `send` may
answer anything. Registrations are level-triggered here: a descriptor stays
registered when it was reported.
-/

namespace WebServer.Reactors

open Pool (Fd Sock Time seconds kMaxEvents Interest Event Closing Recv Send)

/-- Where a reactor is in `reactorLoop`. The events of the batch not looked at
yet come first. -/
inductive Pc where
  /-- Before the test of `running`. -/
  | poll
  /-- In `epoll_wait`. -/
  | wait
  /-- In the loop over the batch. -/
  | dispatch (batch : List Event)
  /-- In the accept loop, before `accept`. -/
  | accept (batch : List Event)
  /-- `accept` returned `fd`; before the insertion. -/
  | insert (batch : List Event) (fd : Fd) (sock : Sock)
  /-- Before `connectionOpened()`. -/
  | opened (batch : List Event) (fd : Fd)
  /-- Before `EPOLL_CTL_ADD`. -/
  | register (batch : List Event) (fd : Fd)
  /-- In `onReadable`, before a `recv`. -/
  | reading (batch : List Event) (event : Event) (sock : Sock)
  /-- `onReadable` has drained the socket; before `lastActive` is set. -/
  | drained (batch : List Event) (event : Event) (sock : Sock)
  /-- In `flush`, before a `send` or its end. -/
  | writing (batch : List Event) (event : Event) (sock : Sock)
  /-- Before `EPOLL_CTL_MOD`. -/
  | rearming (batch : List Event) (event : Event) (sock : Sock) (interest : Interest)
  /-- In `closeConnection(event.fd)`. -/
  | closing (batch : List Event) (event : Event) (sock : Sock) (stage : Closing)
  /-- After the batch, before the clock is read. -/
  | afterBatch
  /-- `sweepIdleConnections` is entered at loop time `at_`. -/
  | sweep (at_ : Time)
  /-- The sweep has read the clock; before its walk over the table. -/
  | scan (at_ now : Time)
  /-- Closing the expired connections, the first being at the given call. -/
  | expire (at_ : Time) (expired : List Fd) (stage : Closing)
  /-- The loop was left. -/
  | done
  deriving DecidableEq, Repr

/-- `ReactorLoop::Reactor`, with the local variables of its thread. -/
structure Reactor where
  connections : AList fun _ : Fd => Sock
  lastSweep : Time
  pc : Pc

/-- Where the one effective call of `stop()` is. -/
inductive StopPc (m : Nat) where
  | idle
  /-- Before the write to the first of the listed reactors' eventfds. -/
  | wake (rest : List (Fin m))
  | done
  deriving DecidableEq, Repr

/-- The descriptors that `setupReactor` makes, and the idle timeout. -/
structure Config (m : Nat) where
  listenFd : Fin m → Fd
  epollFd : Fin m → Fd
  stopFd : Fin m → Fd
  idleTimeoutSeconds : Int := 15

/-- The descriptors no connection can have while the loop runs. -/
def Config.reserved {m : Nat} (cfg : Config m) : List Fd :=
  (List.finRange m).flatMap fun i => [cfg.listenFd i, cfg.epollFd i, cfg.stopFd i]

/-- What the reactors share, the kernel's part of it, and the reactors. -/
structure State (m : Nat) where
  /-- The open client descriptors of the process. -/
  files : Fd → Option Sock
  /-- Each epoll set's client entries. -/
  epoll : Fin m → Fd → Option Interest
  /-- The next socket's number. -/
  next : Sock
  /-- The eventfds that have been written. -/
  stopSignal : Fin m → Bool
  now : Time
  running : Bool
  objects : Sock → Pool.Connection
  activeConnections : Int
  reactors : Fin m → Reactor
  stopper : StopPc m

variable {m : Nat}

/-- The state in which `run()` starts its threads. -/
def State.initial (m : Nat) : State m where
  files := fun _ => none
  epoll := fun _ _ => none
  next := 0
  stopSignal := fun _ => false
  now := 0
  running := true
  objects := fun _ => { fd := 0, lastActive := 0 }
  activeConnections := 0
  reactors := fun _ => { connections := ∅, lastSweep := 0, pc := .poll }
  stopper := .idle

def State.setReactor (s : State m) (i : Fin m) (reactor : Reactor) : State m :=
  { s with reactors := Function.update s.reactors i reactor }

/-- Moves one reactor's thread. -/
def State.setPc (s : State m) (i : Fin m) (pc : Pc) : State m :=
  s.setReactor i { s.reactors i with pc := pc }

/-- `close(fd)`: the number is free again, and with the file go its epoll
entries. -/
def State.closeFd (s : State m) (fd : Fd) : State m :=
  { s with
    files := Function.update s.files fd none
    epoll := fun i => Function.update (s.epoll i) fd none }

/-- `epoll_ctl` on the reactor's own epoll set. -/
def State.setEpoll (s : State m) (i : Fin m) (fd : Fd) (interest : Option Interest) : State m :=
  { s with
    epoll := Function.update s.epoll i (Function.update (s.epoll i) fd interest) }

/-- `ReactorLoop::closeConnection`, one call at a time: the state after the call
and the call that follows, if any. -/
def closeConnection (s : State m) (i : Fin m) (fd : Fd) : Closing → State m × Option Closing
  | .erase =>
    if fd ∈ (s.reactors i).connections then
      (s.setReactor i
        { s.reactors i with connections := (s.reactors i).connections.erase fd }, some .ctlDel)
    else (s, none)
  | .ctlDel => (s.setEpoll i fd none, some .close)
  | .close => (s.closeFd fd, some .account)
  | .account => ({ s with activeConnections := s.activeConnections - 1 }, none)

/-- What is chosen for a step of a reactor: `go` where there is nothing to
choose. -/
inductive Choice where
  | go
  /-- `epoll_wait` returned these events. -/
  | ready (batch : List Event)
  /-- `epoll_wait` failed with `EINTR`. -/
  | interrupted
  /-- `epoll_wait` failed otherwise. -/
  | failed
  /-- `accept` returned this descriptor. -/
  | accepted (fd : Fd)
  /-- `accept` failed. -/
  | refused
  | ctlAdd (ok : Bool)
  | recv (r : Recv)
  | send (r : Send)
  /-- Nothing is left to send. -/
  | flushed (closeAfterWrite : Bool)
  | ctlMod (ok : Bool)
  /-- The order in which the table is walked. -/
  | order (fds : List Fd)
  deriving DecidableEq, Repr

/-- The event is one the kernel may report to the reactor now. -/
def deliverable (cfg : Config m) (s : State m) (i : Fin m) (e : Event) : Bool :=
  match e.raisedFor with
  | none => (e.fd = cfg.stopFd i && s.stopSignal i) || e.fd = cfg.listenFd i
  | some k => s.files e.fd = some k && (s.epoll i e.fd).any fun interest => interest.reports e.events

/-- The descriptors that `sweepIdleConnections` collects. -/
def State.expired (cfg : Config m) (s : State m) (i : Fin m) (now : Time) : List Fd :=
  ((s.reactors i).connections.entries.filter fun entry =>
    now - (s.objects entry.2).lastActive > seconds cfg.idleTimeoutSeconds).map Sigma.fst

/-- The code that is entered with the connection that was found. -/
def enter (batch : List Event) (e : Event) (k : Sock) : Pc :=
  if e.events.epollhup || e.events.epollerr then .closing batch e k .erase
  else if e.events.epollout then .writing batch e k
  else .reading batch e k

/-- What follows the handler. -/
def act (batch : List Event) (e : Event) (k : Sock) : Action → Pc
  | .waitRead => .rearming batch e k .epollin
  | .waitWrite => .rearming batch e k .epollout
  | .close => .closing batch e k .erase

/-- One step of `ReactorLoop::reactorLoop` for the reactor `i`, and of what it
calls. A descriptor that is not open answers only failures. -/
def reactorStep (cfg : Config m) (s : State m) (i : Fin m) (c : Choice) : Option (State m) :=
  match (s.reactors i).pc, c with
  | .poll, .go => some (s.setPc i (if s.running then .wait else .done))
  | .wait, .ready batch =>
    if batch.length ≤ kMaxEvents ∧ (batch.map Event.fd).Nodup ∧
        ∀ e ∈ batch, deliverable cfg s i e then
      some (s.setPc i (.dispatch batch))
    else none
  | .wait, .interrupted => some (s.setPc i .poll)
  | .wait, .failed => some (s.setPc i .done)
  | .dispatch [], .go => some (s.setPc i .afterBatch)
  | .dispatch (e :: batch), .go =>
    if e.fd = cfg.stopFd i then some (s.setPc i .done)
    else if e.fd = cfg.listenFd i then some (s.setPc i (.accept batch))
    else
      match (s.reactors i).connections.lookup e.fd with
      | none => some (s.setPc i (.dispatch batch))
      | some k => some (s.setPc i (enter batch e k))
  | .accept batch, .accepted fd =>
    if s.files fd = none ∧ fd ∉ cfg.reserved then
      some ({ s with
        files := Function.update s.files fd (some s.next)
        next := s.next + 1 }.setPc i (.insert batch fd s.next))
    else none
  | .accept batch, .refused => some (s.setPc i (.dispatch batch))
  | .insert batch fd k, .go =>
    some ({ s with
      objects := Function.update s.objects k { fd := fd, lastActive := s.now } }.setReactor i
        { s.reactors i with
          connections := (s.reactors i).connections.insert fd k
          pc := .opened batch fd })
  | .opened batch fd, .go =>
    some ({ s with activeConnections := s.activeConnections + 1 }.setPc i (.register batch fd))
  | .register batch fd, .ctlAdd true =>
    if s.files fd ≠ none ∧ s.epoll i fd = none then
      some ((s.setEpoll i fd (some .epollin)).setPc i (.accept batch))
    else none
  | .register batch _, .ctlAdd false => some (s.setPc i (.accept batch))
  | .reading batch e k, .recv r =>
    match r, s.files (s.objects k).fd with
    | .data, some _ => some s
    | .interrupted, some _ => some s
    | .eof, some _ => some (s.setPc i (.drained batch e k))
    | .wouldBlock, some _ => some (s.setPc i (.drained batch e k))
    | .failed, _ => some (s.setPc i (act batch e k .close))
    | _, none => none
  | .drained batch e k, .go =>
    some ({ s with
      objects := Function.update s.objects k { s.objects k with lastActive := s.now } }.setPc i
        (.writing batch e k))
  | .writing batch e k, .send r =>
    match r, s.files (s.objects k).fd with
    | .sent, some _ => some s
    | .interrupted, some _ => some s
    | .wouldBlock, some _ => some (s.setPc i (act batch e k .waitWrite))
    | .failed, _ => some (s.setPc i (act batch e k .close))
    | _, none => none
  | .writing batch e k, .flushed closeAfterWrite =>
    some (s.setPc i (act batch e k (if closeAfterWrite then .close else .waitRead)))
  | .rearming batch e _ interest, .ctlMod true =>
    if s.epoll i e.fd = none then none
    else some ((s.setEpoll i e.fd (some interest)).setPc i (.dispatch batch))
  | .rearming batch e k _, .ctlMod false => some (s.setPc i (.closing batch e k .erase))
  | .closing batch e k stage, .go =>
    match closeConnection s i e.fd stage with
    | (s', some next) => some (s'.setPc i (.closing batch e k next))
    | (s', none) => some (s'.setPc i (.dispatch batch))
  | .afterBatch, .go =>
    some (s.setPc i
      (if s.now - (s.reactors i).lastSweep ≥ seconds 1 then .sweep s.now else .poll))
  | .sweep at_, .go => some (s.setPc i (.scan at_ s.now))
  | .scan at_ now, .order fds =>
    if fds.Perm (s.expired cfg i now) then some (s.setPc i (.expire at_ fds .erase)) else none
  | .expire at_ [] _, .go =>
    some (s.setReactor i { s.reactors i with lastSweep := at_, pc := .poll })
  | .expire at_ (fd :: fds) stage, .go =>
    match closeConnection s i fd stage with
    | (s', some next) => some (s'.setPc i (.expire at_ (fd :: fds) next))
    | (s', none) => some (s'.setPc i (.expire at_ fds .erase))
  | _, _ => none

/-- One step of `ReactorLoop::stop`. Every call after the first that finds
`running` set returns at once and is no step. -/
def stopStep (s : State m) : Option (State m) :=
  match s.stopper with
  | .idle =>
    if s.running then some { s with running := false, stopper := .wake (List.finRange m) }
    else none
  | .wake (i :: rest) =>
    some { s with stopSignal := Function.update s.stopSignal i true, stopper := .wake rest }
  | .wake [] => some { s with stopper := .done }
  | .done => none

/-- Who moves, and what was chosen for it. -/
inductive Label (m : Nat) where
  /-- Time passes. -/
  | tick (elapsed : Nat)
  | reactor (i : Fin m) (c : Choice)
  | stopper
  deriving DecidableEq, Repr

/-- One step of the reactor loop. -/
def step (cfg : Config m) (s : State m) : Label m → Option (State m)
  | .tick elapsed => some { s with now := s.now + elapsed }
  | .reactor i c => reactorStep cfg s i c
  | .stopper => stopStep s

/-- The reactor loop with `m` reactors. -/
def loop (m : Nat) (cfg : Config m) : Machine (State m) (Label m) where
  start := .initial m
  step := step cfg

/-- `run()` has returned: every thread it joins has left its loop. -/
def State.returned (s : State m) : Prop :=
  ∀ i, (s.reactors i).pc = .done

end WebServer.Reactors
