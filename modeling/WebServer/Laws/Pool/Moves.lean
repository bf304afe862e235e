import WebServer.Pool.Model
/-! # What each step of the pool loop does

`acceptStep`, `workerStep` and `stopStep` are functions on the whole state. Here
each is read backwards, once: a step that was taken is one of the listed moves,
with where its thread was, what it tested, and the state it left. An invariant
of the loop is then one case for each move that matters to it, and none of them
unfolds a step function again.
-/

namespace WebServer.Pool

variable {n : Nat} {cfg : Config} {s s' : State n}

/-- The moves of the accept thread. -/
inductive AcceptMove (cfg : Config) (s : State n) : AcceptChoice → State n → Prop where
  | stopped (pc : s.accepter = .poll) (running : s.running = false) :
      AcceptMove cfg s .go { s with accepter := .done }
  | wait (pc : s.accepter = .poll) (running : s.running = true) :
      AcceptMove cfg s .go { s with accepter := .wait }
  | ready {batch : List Event} (pc : s.accepter = .wait)
      (short : batch.length ≤ kMaxEvents) (nodup : (batch.map Event.fd).Nodup)
      (deliver : ∀ e ∈ batch, deliverable cfg s e) :
      AcceptMove cfg s (.ready batch)
        { s with epoll := disarm s batch, accepter := .dispatch batch }
  | interrupted (pc : s.accepter = .wait) :
      AcceptMove cfg s .interrupted { s with accepter := .poll }
  | failed (pc : s.accepter = .wait) :
      AcceptMove cfg s .failed { s with accepter := .done }
  | batchEnd (pc : s.accepter = .dispatch []) :
      AcceptMove cfg s .go { s with accepter := .afterBatch }
  | stopEvent {e : Event} {batch : List Event} (pc : s.accepter = .dispatch (e :: batch))
      (isStop : e.fd = cfg.stopFd) :
      AcceptMove cfg s .go { s with running := false, accepter := .afterBatch }
  | listenEvent {e : Event} {batch : List Event} (pc : s.accepter = .dispatch (e :: batch))
      (isListen : s.listenFd = some e.fd) :
      AcceptMove cfg s .go { s with accepter := .accept batch }
  | push {e : Event} {batch : List Event} (pc : s.accepter = .dispatch (e :: batch))
      (notStop : e.fd ≠ cfg.stopFd) (notListen : s.listenFd ≠ some e.fd) :
      AcceptMove cfg s .go
        { s with workQueue := s.workQueue ++ [e], accepter := .dispatch batch }
  | accepted {batch : List Event} {fd : Fd} (pc : s.accepter = .accept batch)
      (listening : s.listening = true) (free : s.files fd = none) (new : fd ∉ cfg.reserved) :
      AcceptMove cfg s (.accepted fd) { s with
        files := Function.update s.files fd (some s.next)
        next := s.next + 1
        accepter := .insert batch fd s.next }
  | refused {batch : List Event} (pc : s.accepter = .accept batch) :
      AcceptMove cfg s .refused { s with accepter := .dispatch batch }
  | insert {batch : List Event} {fd : Fd} {k : Sock} (pc : s.accepter = .insert batch fd k) :
      AcceptMove cfg s .go { s.setObject k { fd := fd, lastActive := s.now } with
        connections := s.connections.insert fd k
        accepter := .opened batch fd }
  | opened {batch : List Event} {fd : Fd} (pc : s.accepter = .opened batch fd) :
      AcceptMove cfg s .go { s with
        activeConnections := s.activeConnections + 1
        accepter := .register batch fd }
  | added {batch : List Event} {fd : Fd} (pc : s.accepter = .register batch fd)
      (isOpen : s.files fd ≠ none) (absent : s.epoll fd = .absent) :
      AcceptMove cfg s (.ctlAdd true) { s with
        epoll := Function.update s.epoll fd (.armed .epollin)
        accepter := .accept batch }
  | notAdded {batch : List Event} {fd : Fd} (pc : s.accepter = .register batch fd) :
      AcceptMove cfg s (.ctlAdd false) { s with accepter := .accept batch }
  | due (pc : s.accepter = .afterBatch) (due : s.now - s.lastSweep ≥ seconds 1) :
      AcceptMove cfg s .go { s with accepter := .sweep s.now }
  | notDue (pc : s.accepter = .afterBatch) :
      AcceptMove cfg s .go { s with accepter := .poll }
  | sweep {at_ : Time} (pc : s.accepter = .sweep at_) :
      AcceptMove cfg s .go { s with accepter := .scan at_ s.now }
  | scan {at_ now : Time} {fds : List Fd} (pc : s.accepter = .scan at_ now)
      (perm : fds.Perm (s.expired cfg now)) :
      AcceptMove cfg s (.order fds) { s with accepter := .expire at_ fds .erase }
  | swept {at_ : Time} {stage : Closing} (pc : s.accepter = .expire at_ [] stage) :
      AcceptMove cfg s .go { s with lastSweep := at_, accepter := .poll }
  | closing {at_ : Time} {fd : Fd} {fds : List Fd} {stage next : Closing} {t : State n}
      (pc : s.accepter = .expire at_ (fd :: fds) stage)
      (call : closeConnection s fd stage = (t, some next)) :
      AcceptMove cfg s .go { t with accepter := .expire at_ (fd :: fds) next }
  | closed {at_ : Time} {fd : Fd} {fds : List Fd} {stage : Closing} {t : State n}
      (pc : s.accepter = .expire at_ (fd :: fds) stage)
      (call : closeConnection s fd stage = (t, none)) :
      AcceptMove cfg s .go { t with accepter := .expire at_ fds .erase }

/-- A step of the accept thread is one of its moves. -/
theorem acceptStep_move {c : AcceptChoice} (hs : acceptStep cfg s c = some s') :
    AcceptMove cfg s c s' := by
  cases hpc : s.accepter with
  | poll =>
    cases c <;> simp only [acceptStep, hpc, reduceCtorEq] at hs
    cases hs
    split
    case isTrue running => exact .wait hpc running
    case isFalse stopped => exact .stopped hpc (Bool.eq_false_iff.mpr stopped)
  | wait =>
    cases c <;> simp only [acceptStep, hpc, reduceCtorEq] at hs
    case ready =>
      split at hs
      case isFalse => cases hs
      case isTrue ok =>
        cases hs
        exact .ready hpc ok.1 ok.2.1 ok.2.2
    case interrupted =>
      cases hs
      exact .interrupted hpc
    case failed =>
      cases hs
      exact .failed hpc
  | dispatch batch =>
    cases batch with
    | nil =>
      cases c <;> simp only [acceptStep, hpc, reduceCtorEq] at hs
      cases hs
      exact .batchEnd hpc
    | cons e batch =>
      cases c <;> simp only [acceptStep, hpc, reduceCtorEq] at hs
      split at hs
      case isTrue isStop =>
        cases hs
        exact .stopEvent hpc isStop
      case isFalse notStop =>
        split at hs
        case isTrue isListen =>
          cases hs
          exact .listenEvent hpc isListen
        case isFalse notListen =>
          cases hs
          exact .push hpc notStop notListen
  | accept batch =>
    cases c <;> simp only [acceptStep, hpc, reduceCtorEq] at hs
    case accepted fd =>
      split at hs
      case isFalse => cases hs
      case isTrue ok =>
        cases hs
        exact .accepted hpc ok.1 ok.2.1 ok.2.2
    case refused =>
      cases hs
      exact .refused hpc
  | insert batch fd k =>
    cases c <;> simp only [acceptStep, hpc, reduceCtorEq] at hs
    cases hs
    exact .insert hpc
  | opened batch fd =>
    cases c <;> simp only [acceptStep, hpc, reduceCtorEq] at hs
    cases hs
    exact .opened hpc
  | register batch fd =>
    cases c with
    | ctlAdd ok =>
      cases ok <;> simp only [acceptStep, hpc] at hs
      case false =>
        cases hs
        exact .notAdded hpc
      case true =>
        split at hs
        case isFalse => cases hs
        case isTrue ok =>
          cases hs
          exact .added hpc ok.1 ok.2
    | _ => simp only [acceptStep, hpc, reduceCtorEq] at hs
  | afterBatch =>
    cases c <;> simp only [acceptStep, hpc, reduceCtorEq] at hs
    cases hs
    split
    case isTrue due => exact .due hpc due
    case isFalse => exact .notDue hpc
  | sweep at_ =>
    cases c <;> simp only [acceptStep, hpc, reduceCtorEq] at hs
    cases hs
    exact .sweep hpc
  | scan at_ now =>
    cases c <;> simp only [acceptStep, hpc, reduceCtorEq] at hs
    case order fds =>
      split at hs
      case isFalse => cases hs
      case isTrue perm =>
        cases hs
        exact .scan hpc perm
  | expire at_ fds stage =>
    cases fds with
    | nil =>
      cases c <;> simp only [acceptStep, hpc, reduceCtorEq] at hs
      cases hs
      exact .swept hpc
    | cons fd fds =>
      cases c <;> simp only [acceptStep, hpc, reduceCtorEq] at hs
      split at hs
      case h_1 t next call =>
        cases hs
        exact .closing hpc call
      case h_2 t call =>
        cases hs
        exact .closed hpc call
  | done => cases c <;> simp only [acceptStep, hpc, reduceCtorEq] at hs

/-- The moves of the worker `w`. -/
inductive WorkerMove (s : State n) (w : Fin n) : WorkerChoice → State n → Prop where
  | exit (pc : s.workers w = .idle) (queue : s.workQueue = []) (running : s.running = false) :
      WorkerMove s w .go (s.setWorker w .exited)
  | take {e : Event} {rest : List Event} (pc : s.workers w = .idle)
      (queue : s.workQueue = e :: rest) :
      WorkerMove s w .go ({ s with workQueue := rest }.setWorker w (.taken e))
  | gone {e : Event} (pc : s.workers w = .taken e) (gone : s.connections.lookup e.fd = none) :
      WorkerMove s w .go (s.setWorker w .idle)
  | found {e : Event} {k : Sock} (pc : s.workers w = .taken e)
      (found : s.connections.lookup e.fd = some k) :
      WorkerMove s w .go
        ((s.setObject k { s.objects k with busy := true }).setWorker w (enter e k))
  | received {e : Event} {k : Sock} {r : Recv} (pc : s.workers w = .reading e k)
      (goesOn : r = .data ∨ r = .interrupted) (isOpen : s.files (s.objects k).fd ≠ none) :
      WorkerMove s w (.recv r) s
  | drained {e : Event} {k : Sock} {r : Recv} (pc : s.workers w = .reading e k)
      (ends : r = .eof ∨ r = .wouldBlock) (isOpen : s.files (s.objects k).fd ≠ none) :
      WorkerMove s w (.recv r) (s.setWorker w (.drained e k))
  | recvFailed {e : Event} {k : Sock} (pc : s.workers w = .reading e k) :
      WorkerMove s w (.recv .failed) (s.setWorker w (.served e k .close))
  | stamp {e : Event} {k : Sock} (pc : s.workers w = .drained e k) :
      WorkerMove s w .go
        ((s.setObject k { s.objects k with lastActive := s.now }).setWorker w (.writing e k))
  | sent {e : Event} {k : Sock} {r : Send} (pc : s.workers w = .writing e k)
      (goesOn : r = .sent ∨ r = .interrupted) (isOpen : s.files (s.objects k).fd ≠ none) :
      WorkerMove s w (.send r) s
  | stalled {e : Event} {k : Sock} (pc : s.workers w = .writing e k)
      (isOpen : s.files (s.objects k).fd ≠ none) :
      WorkerMove s w (.send .wouldBlock) (s.setWorker w (.served e k .waitWrite))
  | sendFailed {e : Event} {k : Sock} (pc : s.workers w = .writing e k) :
      WorkerMove s w (.send .failed) (s.setWorker w (.served e k .close))
  | flushed {e : Event} {k : Sock} {close : Bool} (pc : s.workers w = .writing e k) :
      WorkerMove s w (.flushed close)
        (s.setWorker w (.served e k (if close then .close else .waitRead)))
  | release {e : Event} {k : Sock} {action : Action} (pc : s.workers w = .served e k action) :
      WorkerMove s w .go
        ((s.setObject k { s.objects k with busy := false }).setWorker w (act e k action))
  | rearmed {e : Event} {k : Sock} {i : Interest} (pc : s.workers w = .rearming e k i)
      (present : s.epoll e.fd ≠ .absent) :
      WorkerMove s w (.ctlMod true)
        ({ s with epoll := Function.update s.epoll e.fd (.armed i) }.setWorker w .idle)
  | notRearmed {e : Event} {k : Sock} {i : Interest} (pc : s.workers w = .rearming e k i) :
      WorkerMove s w (.ctlMod false) (s.setWorker w (.closing e k .erase))
  | closing {e : Event} {k : Sock} {stage next : Closing} {t : State n}
      (pc : s.workers w = .closing e k stage)
      (call : closeConnection s e.fd stage = (t, some next)) :
      WorkerMove s w .go (t.setWorker w (.closing e k next))
  | closed {e : Event} {k : Sock} {stage : Closing} {t : State n}
      (pc : s.workers w = .closing e k stage)
      (call : closeConnection s e.fd stage = (t, none)) :
      WorkerMove s w .go (t.setWorker w .idle)

/-- A step of a worker is one of its moves. -/
theorem workerStep_move {w : Fin n} {c : WorkerChoice} (hs : workerStep s w c = some s') :
    WorkerMove s w c s' := by
  cases hpc : s.workers w with
  | idle =>
    cases c <;> simp only [workerStep, hpc, reduceCtorEq] at hs
    split at hs
    case h_1 queue =>
      split at hs
      case isTrue => cases hs
      case isFalse running =>
        cases hs
        exact .exit hpc queue (Bool.eq_false_iff.mpr running)
    case h_2 queue =>
      cases hs
      exact .take hpc queue
  | taken e =>
    cases c <;> simp only [workerStep, hpc, reduceCtorEq] at hs
    split at hs
    case h_1 gone =>
      cases hs
      exact .gone hpc gone
    case h_2 found =>
      cases hs
      exact .found hpc found
  | reading e k =>
    cases c <;> simp only [workerStep, hpc, reduceCtorEq] at hs
    split at hs
    case h_1 isOpen =>
      cases hs
      exact .received hpc (.inl rfl) (by simp [isOpen])
    case h_2 isOpen =>
      cases hs
      exact .received hpc (.inr rfl) (by simp [isOpen])
    case h_3 isOpen =>
      cases hs
      exact .drained hpc (.inl rfl) (by simp [isOpen])
    case h_4 isOpen =>
      cases hs
      exact .drained hpc (.inr rfl) (by simp [isOpen])
    case h_5 =>
      cases hs
      exact .recvFailed hpc
    case h_6 => cases hs
  | drained e k =>
    cases c <;> simp only [workerStep, hpc, reduceCtorEq] at hs
    cases hs
    exact .stamp hpc
  | writing e k =>
    cases c <;> simp only [workerStep, hpc, reduceCtorEq] at hs
    case send =>
      split at hs
      case h_1 isOpen =>
        cases hs
        exact .sent hpc (.inl rfl) (by simp [isOpen])
      case h_2 isOpen =>
        cases hs
        exact .sent hpc (.inr rfl) (by simp [isOpen])
      case h_3 isOpen =>
        cases hs
        exact .stalled hpc (by simp [isOpen])
      case h_4 =>
        cases hs
        exact .sendFailed hpc
      case h_5 => cases hs
    case flushed =>
      cases hs
      exact .flushed hpc
  | served e k action =>
    cases c <;> simp only [workerStep, hpc, reduceCtorEq] at hs
    cases hs
    exact .release hpc
  | rearming e k i =>
    cases c with
    | ctlMod ok =>
      cases ok <;> simp only [workerStep, hpc] at hs
      case false =>
        cases hs
        exact .notRearmed hpc
      case true =>
        split at hs
        case isTrue => cases hs
        case isFalse present =>
          cases hs
          exact .rearmed hpc present
    | _ => simp only [workerStep, hpc, reduceCtorEq] at hs
  | closing e k stage =>
    cases c <;> simp only [workerStep, hpc, reduceCtorEq] at hs
    split at hs
    case h_1 t next call =>
      cases hs
      exact .closing hpc call
    case h_2 t call =>
      cases hs
      exact .closed hpc call
  | exited => cases c <;> simp only [workerStep, hpc, reduceCtorEq] at hs

/-- The moves of `stop()`. -/
inductive StopMove (s : State n) : StopChoice → State n → Prop where
  | begin (pc : s.stopper = .idle) (running : s.running = true) :
      StopMove s .go { s with running := false, stopper := .wake }
  | wake (pc : s.stopper = .wake) :
      StopMove s .go { s with stopSignal := true, stopper := .clear }
  | clear {fds : List Fd} (pc : s.stopper = .clear) (perm : fds.Perm s.connections.keys) :
      StopMove s (.order fds) { s with connections := ∅, stopper := .close fds }
  | closedAll (pc : s.stopper = .close []) :
      StopMove s .go
        { s with stopper := if s.listenFd.isSome then .closeListener else .done }
  | close {fd : Fd} {fds : List Fd} (pc : s.stopper = .close (fd :: fds)) :
      StopMove s .go { s.closeFd fd with stopper := .account fds }
  | account {fds : List Fd} (pc : s.stopper = .account fds) :
      StopMove s .go
        { s with activeConnections := s.activeConnections - 1, stopper := .close fds }
  | closeListener (pc : s.stopper = .closeListener) :
      StopMove s .go { s with listening := false, stopper := .resetListener }
  | resetListener (pc : s.stopper = .resetListener) :
      StopMove s .go { s with listenFd := none, stopper := .done }

/-- A step of `stop()` is one of its moves. -/
theorem stopStep_move {c : StopChoice} (hs : stopStep s c = some s') : StopMove s c s' := by
  cases hpc : s.stopper with
  | idle =>
    cases c <;> simp only [stopStep, hpc, reduceCtorEq] at hs
    split at hs
    case isTrue running =>
      cases hs
      exact .begin hpc running
    case isFalse => cases hs
  | wake =>
    cases c <;> simp only [stopStep, hpc, reduceCtorEq] at hs
    cases hs
    exact .wake hpc
  | clear =>
    cases c <;> simp only [stopStep, hpc, reduceCtorEq] at hs
    split at hs
    case isFalse => cases hs
    case isTrue perm =>
      cases hs
      exact .clear hpc perm
  | close fds =>
    cases fds with
    | nil =>
      cases c <;> simp only [stopStep, hpc, reduceCtorEq] at hs
      cases hs
      exact .closedAll hpc
    | cons fd fds =>
      cases c <;> simp only [stopStep, hpc, reduceCtorEq] at hs
      cases hs
      exact .close hpc
  | account fds =>
    cases c <;> simp only [stopStep, hpc, reduceCtorEq] at hs
    cases hs
    exact .account hpc
  | closeListener =>
    cases c <;> simp only [stopStep, hpc, reduceCtorEq] at hs
    cases hs
    exact .closeListener hpc
  | resetListener =>
    cases c <;> simp only [stopStep, hpc, reduceCtorEq] at hs
    cases hs
    exact .resetListener hpc
  | done => cases c <;> simp only [stopStep, hpc, reduceCtorEq] at hs

/-! ## What `epoll_wait` reports -/

/-- A client's event names the open socket, which was armed. -/
theorem deliverable_client {e : Event} {k : Sock} (h : deliverable cfg s e)
    (hk : e.raisedFor = some k) : s.files e.fd = some k ∧ ∃ i, s.epoll e.fd = .armed i := by
  simp only [deliverable, hk, Bool.and_eq_true, decide_eq_true_eq] at h
  refine ⟨h.1, ?_⟩
  cases hr : s.epoll e.fd with
  | armed i => exact ⟨i, rfl⟩
  | _ => simp [hr] at h

/-- Any other event is the eventfd's, once it was written, or the listener's. -/
theorem deliverable_system {e : Event} (h : deliverable cfg s e) (hn : e.raisedFor = none) :
    (e.fd = cfg.stopFd ∧ s.stopSignal = true) ∨ e.fd = cfg.listenFd := by
  simp only [deliverable, hn, Bool.or_eq_true, Bool.and_eq_true, decide_eq_true_eq] at h
  exact h.imp id And.left

/-- What is still armed after a batch was armed before, and is not in it. -/
theorem armed_of_disarm {batch : List Event} {fd : Fd} {i : Interest}
    (h : disarm s batch fd = .armed i) :
    s.epoll fd = .armed i ∧ ∀ e ∈ batch, e.raisedFor ≠ none → e.fd ≠ fd := by
  simp only [disarm] at h
  split at h
  case isTrue => cases h
  case isFalse hb =>
    refine ⟨h, ?_⟩
    intro e he hne hfd
    apply hb
    rw [List.any_eq_true]
    exact ⟨e, he, by simp [Option.isSome_iff_ne_none.mpr hne, hfd]⟩

/-- A batch leaves a registration alone, or has an event for its number. -/
theorem disarm_cases (s : State n) (batch : List Event) (fd : Fd) :
    disarm s batch fd = s.epoll fd ∨ ∃ e ∈ batch, e.raisedFor ≠ none ∧ e.fd = fd := by
  unfold disarm
  split
  case isTrue hb =>
    obtain ⟨e, he, hfd⟩ := List.any_eq_true.mp hb
    simp only [Bool.and_eq_true, decide_eq_true_eq] at hfd
    exact .inr ⟨e, he, Option.isSome_iff_ne_none.mp hfd.1, hfd.2⟩
  case isFalse => exact .inl rfl

/-! ## `closeConnection` -/

/-- A call of `closeConnection` touches the pcs of no thread and gives no object
another descriptor. -/
theorem closeConnection_frame {fd : Fd} {stage : Closing} {next : Option Closing}
    (hc : closeConnection s fd stage = (s', next)) :
    s'.accepter = s.accepter ∧ s'.workers = s.workers ∧ s'.stopper = s.stopper ∧
      s'.next = s.next ∧ s'.objects = s.objects := by
  cases stage <;> simp only [closeConnection] at hc
  case erase => split at hc <;> cases hc <;> simp
  all_goals
    cases hc
    simp [State.closeFd]

/-- A call of `closeConnection` leaves the queue, the flags and the listener alone. -/
theorem closeConnection_flags {fd : Fd} {stage : Closing} {next : Option Closing}
    (hc : closeConnection s fd stage = (s', next)) :
    s'.workQueue = s.workQueue ∧ s'.stopSignal = s.stopSignal ∧ s'.listenFd = s.listenFd ∧
      s'.running = s.running ∧ s'.now = s.now := by
  cases stage <;> simp only [closeConnection] at hc
  case erase => split at hc <;> cases hc <;> simp
  all_goals
    cases hc
    simp [State.closeFd]

/-- A call of `closeConnection` opens nothing and enters nothing in the table. -/
theorem closeConnection_less {fd : Fd} {stage : Closing} {next : Option Closing}
    (hc : closeConnection s fd stage = (s', next)) :
    (∀ fd' k, s'.files fd' = some k → s.files fd' = some k) ∧
      ∀ fd' k, s'.connections.lookup fd' = some k → s.connections.lookup fd' = some k := by
  cases stage <;> simp only [closeConnection] at hc
  case erase =>
    split at hc <;> cases hc <;> refine ⟨fun _ _ hk => hk, ?_⟩
    · intro fd' k hk
      by_cases hfd : fd' = fd
      · subst hfd
        rw [AList.lookup_erase] at hk
        cases hk
      · rwa [AList.lookup_erase_ne hfd] at hk
    · exact fun _ _ hk => hk
  case close =>
    cases hc
    refine ⟨?_, fun _ _ hk => hk⟩
    intro fd' k hk
    simp only [State.closeFd, Function.update_apply] at hk
    split at hk
    · cases hk
    · exact hk
  all_goals
    cases hc
    exact ⟨fun _ _ hk => hk, fun _ _ hk => hk⟩

/-! ## A pool of one worker -/

/-- The worker of a pool that has one. -/
def lone : Fin 1 := .last 0

/-- That worker makes these steps. -/
def works (choices : List WorkerChoice) : List (Label 1) := choices.map (Label.worker lone)

end WebServer.Pool
