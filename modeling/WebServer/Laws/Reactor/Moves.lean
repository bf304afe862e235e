import WebServer.Reactor.Model
/-! # What each step of a reactor does

`reactorStep` and `stopStep` read backwards: a step that was taken is one of the
listed moves, with where the thread was, what it tested, and the state it left.
-/

namespace WebServer.Reactors

open Pool (Fd Sock Time seconds kMaxEvents Interest Event Closing Recv Send)

variable {m : Nat} {cfg : Config m} {s s' : State m} {i : Fin m}

/-- The moves of the reactor `i`. -/
inductive Move (cfg : Config m) (s : State m) (i : Fin m) : Choice → State m → Prop where
  | wait (pc : (s.reactors i).pc = .poll) (running : s.running = true) :
      Move cfg s i .go (s.setPc i .wait)
  | stopped (pc : (s.reactors i).pc = .poll) (running : s.running = false) :
      Move cfg s i .go (s.setPc i .done)
  | ready {batch : List Event} (pc : (s.reactors i).pc = .wait)
      (short : batch.length ≤ kMaxEvents) (nodup : (batch.map Event.fd).Nodup)
      (deliver : ∀ e ∈ batch, deliverable cfg s i e) :
      Move cfg s i (.ready batch) (s.setPc i (.dispatch batch))
  | interrupted (pc : (s.reactors i).pc = .wait) : Move cfg s i .interrupted (s.setPc i .poll)
  | failed (pc : (s.reactors i).pc = .wait) : Move cfg s i .failed (s.setPc i .done)
  | batchEnd (pc : (s.reactors i).pc = .dispatch []) : Move cfg s i .go (s.setPc i .afterBatch)
  | stopEvent {e : Event} {batch : List Event} (pc : (s.reactors i).pc = .dispatch (e :: batch))
      (isStop : e.fd = cfg.stopFd i) : Move cfg s i .go (s.setPc i .done)
  | listenEvent {e : Event} {batch : List Event}
      (pc : (s.reactors i).pc = .dispatch (e :: batch)) (isListen : e.fd = cfg.listenFd i) :
      Move cfg s i .go (s.setPc i (.accept batch))
  | gone {e : Event} {batch : List Event} (pc : (s.reactors i).pc = .dispatch (e :: batch))
      (gone : (s.reactors i).connections.lookup e.fd = none) :
      Move cfg s i .go (s.setPc i (.dispatch batch))
  | found {e : Event} {batch : List Event} {k : Sock}
      (pc : (s.reactors i).pc = .dispatch (e :: batch)) (notStop : e.fd ≠ cfg.stopFd i)
      (notListen : e.fd ≠ cfg.listenFd i)
      (found : (s.reactors i).connections.lookup e.fd = some k) :
      Move cfg s i .go (s.setPc i (enter batch e k))
  | accepted {batch : List Event} {fd : Fd} (pc : (s.reactors i).pc = .accept batch)
      (free : s.files fd = none) (new : fd ∉ cfg.reserved) :
      Move cfg s i (.accepted fd) ({ s with
        files := Function.update s.files fd (some s.next)
        next := s.next + 1 }.setPc i (.insert batch fd s.next))
  | refused {batch : List Event} (pc : (s.reactors i).pc = .accept batch) :
      Move cfg s i .refused (s.setPc i (.dispatch batch))
  | insert {batch : List Event} {fd : Fd} {k : Sock}
      (pc : (s.reactors i).pc = .insert batch fd k) :
      Move cfg s i .go ({ s with
        objects := Function.update s.objects k { fd := fd, lastActive := s.now } }.setReactor i
          { s.reactors i with
            connections := (s.reactors i).connections.insert fd k
            pc := .opened batch fd })
  | opened {batch : List Event} {fd : Fd} (pc : (s.reactors i).pc = .opened batch fd) :
      Move cfg s i .go ({ s with
        activeConnections := s.activeConnections + 1 }.setPc i (.register batch fd))
  | added {batch : List Event} {fd : Fd} (pc : (s.reactors i).pc = .register batch fd)
      (isOpen : s.files fd ≠ none) (absent : s.epoll i fd = none) :
      Move cfg s i (.ctlAdd true) ((s.setEpoll i fd (some .epollin)).setPc i (.accept batch))
  | notAdded {batch : List Event} {fd : Fd} (pc : (s.reactors i).pc = .register batch fd) :
      Move cfg s i (.ctlAdd false) (s.setPc i (.accept batch))
  | received {batch : List Event} {e : Event} {k : Sock} {r : Recv}
      (pc : (s.reactors i).pc = .reading batch e k) (goesOn : r = .data ∨ r = .interrupted)
      (isOpen : s.files (s.objects k).fd ≠ none) : Move cfg s i (.recv r) s
  | drained {batch : List Event} {e : Event} {k : Sock} {r : Recv}
      (pc : (s.reactors i).pc = .reading batch e k) (ends : r = .eof ∨ r = .wouldBlock)
      (isOpen : s.files (s.objects k).fd ≠ none) :
      Move cfg s i (.recv r) (s.setPc i (.drained batch e k))
  | recvFailed {batch : List Event} {e : Event} {k : Sock}
      (pc : (s.reactors i).pc = .reading batch e k) :
      Move cfg s i (.recv .failed) (s.setPc i (act batch e k .close))
  | stamp {batch : List Event} {e : Event} {k : Sock}
      (pc : (s.reactors i).pc = .drained batch e k) :
      Move cfg s i .go ({ s with
        objects := Function.update s.objects k
          { s.objects k with lastActive := s.now } }.setPc i (.writing batch e k))
  | sent {batch : List Event} {e : Event} {k : Sock} {r : Send}
      (pc : (s.reactors i).pc = .writing batch e k) (goesOn : r = .sent ∨ r = .interrupted)
      (isOpen : s.files (s.objects k).fd ≠ none) : Move cfg s i (.send r) s
  | stalled {batch : List Event} {e : Event} {k : Sock}
      (pc : (s.reactors i).pc = .writing batch e k) (isOpen : s.files (s.objects k).fd ≠ none) :
      Move cfg s i (.send .wouldBlock) (s.setPc i (act batch e k .waitWrite))
  | sendFailed {batch : List Event} {e : Event} {k : Sock}
      (pc : (s.reactors i).pc = .writing batch e k) :
      Move cfg s i (.send .failed) (s.setPc i (act batch e k .close))
  | flushed {batch : List Event} {e : Event} {k : Sock} {close : Bool}
      (pc : (s.reactors i).pc = .writing batch e k) :
      Move cfg s i (.flushed close)
        (s.setPc i (act batch e k (if close then .close else .waitRead)))
  | rearmed {batch : List Event} {e : Event} {k : Sock} {interest : Interest}
      (pc : (s.reactors i).pc = .rearming batch e k interest) (present : s.epoll i e.fd ≠ none) :
      Move cfg s i (.ctlMod true)
        ((s.setEpoll i e.fd (some interest)).setPc i (.dispatch batch))
  | notRearmed {batch : List Event} {e : Event} {k : Sock} {interest : Interest}
      (pc : (s.reactors i).pc = .rearming batch e k interest) :
      Move cfg s i (.ctlMod false) (s.setPc i (.closing batch e k .erase))
  | closing {batch : List Event} {e : Event} {k : Sock} {stage next : Closing} {t : State m}
      (pc : (s.reactors i).pc = .closing batch e k stage)
      (call : closeConnection s i e.fd stage = (t, some next)) :
      Move cfg s i .go (t.setPc i (.closing batch e k next))
  | closed {batch : List Event} {e : Event} {k : Sock} {stage : Closing} {t : State m}
      (pc : (s.reactors i).pc = .closing batch e k stage)
      (call : closeConnection s i e.fd stage = (t, none)) :
      Move cfg s i .go (t.setPc i (.dispatch batch))
  | due (pc : (s.reactors i).pc = .afterBatch) : Move cfg s i .go (s.setPc i (.sweep s.now))
  | notDue (pc : (s.reactors i).pc = .afterBatch) : Move cfg s i .go (s.setPc i .poll)
  | sweep {at_ : Time} (pc : (s.reactors i).pc = .sweep at_) :
      Move cfg s i .go (s.setPc i (.scan at_ s.now))
  | scan {at_ now : Time} {fds : List Fd} (pc : (s.reactors i).pc = .scan at_ now)
      (perm : fds.Perm (s.expired cfg i now)) :
      Move cfg s i (.order fds) (s.setPc i (.expire at_ fds .erase))
  | swept {at_ : Time} {stage : Closing} (pc : (s.reactors i).pc = .expire at_ [] stage) :
      Move cfg s i .go (s.setReactor i { s.reactors i with lastSweep := at_, pc := .poll })
  | sweepClosing {at_ : Time} {fd : Fd} {fds : List Fd} {stage next : Closing} {t : State m}
      (pc : (s.reactors i).pc = .expire at_ (fd :: fds) stage)
      (call : closeConnection s i fd stage = (t, some next)) :
      Move cfg s i .go (t.setPc i (.expire at_ (fd :: fds) next))
  | sweepClosed {at_ : Time} {fd : Fd} {fds : List Fd} {stage : Closing} {t : State m}
      (pc : (s.reactors i).pc = .expire at_ (fd :: fds) stage)
      (call : closeConnection s i fd stage = (t, none)) :
      Move cfg s i .go (t.setPc i (.expire at_ fds .erase))

/-- A step of a reactor is one of its moves. -/
theorem reactorStep_move {c : Choice} (hs : reactorStep cfg s i c = some s') :
    Move cfg s i c s' := by
  cases hpc : (s.reactors i).pc with
  | poll =>
    cases c <;> simp only [reactorStep, hpc, reduceCtorEq] at hs
    cases hs
    split
    case isTrue running => exact .wait hpc running
    case isFalse stopped => exact .stopped hpc (Bool.eq_false_iff.mpr stopped)
  | wait =>
    cases c <;> simp only [reactorStep, hpc, reduceCtorEq] at hs
    case ready =>
      split at hs
      case isFalse => cases hs
      case isTrue ok =>
        cases hs
        exact .ready hpc ok.1 ok.2.1 ok.2.2
    case interrupted =>
      cases hs
      exact .interrupted hpc
    case failed =>
      cases hs
      exact .failed hpc
  | dispatch batch =>
    cases batch with
    | nil =>
      cases c <;> simp only [reactorStep, hpc, reduceCtorEq] at hs
      cases hs
      exact .batchEnd hpc
    | cons e batch =>
      cases c <;> simp only [reactorStep, hpc, reduceCtorEq] at hs
      split at hs
      case isTrue isStop =>
        cases hs
        exact .stopEvent hpc isStop
      case isFalse notStop =>
        split at hs
        case isTrue isListen =>
          cases hs
          exact .listenEvent hpc isListen
        case isFalse notListen =>
          split at hs
          case h_1 gone =>
            cases hs
            exact .gone hpc gone
          case h_2 k found =>
            cases hs
            exact .found hpc notStop notListen found
  | accept batch =>
    cases c <;> simp only [reactorStep, hpc, reduceCtorEq] at hs
    case accepted fd =>
      split at hs
      case isFalse => cases hs
      case isTrue ok =>
        cases hs
        exact .accepted hpc ok.1 ok.2
    case refused =>
      cases hs
      exact .refused hpc
  | insert batch fd k =>
    cases c <;> simp only [reactorStep, hpc, reduceCtorEq] at hs
    cases hs
    exact .insert hpc
  | opened batch fd =>
    cases c <;> simp only [reactorStep, hpc, reduceCtorEq] at hs
    cases hs
    exact .opened hpc
  | register batch fd =>
    cases c with
    | ctlAdd ok =>
      cases ok <;> simp only [reactorStep, hpc] at hs
      case false =>
        cases hs
        exact .notAdded hpc
      case true =>
        split at hs
        case isFalse => cases hs
        case isTrue ok =>
          cases hs
          exact .added hpc ok.1 ok.2
    | _ => simp only [reactorStep, hpc, reduceCtorEq] at hs
  | reading batch e k =>
    cases c <;> simp only [reactorStep, hpc, reduceCtorEq] at hs
    split at hs
    case h_1 isOpen =>
      cases hs
      exact .received hpc (.inl rfl) (by simp [isOpen])
    case h_2 isOpen =>
      cases hs
      exact .received hpc (.inr rfl) (by simp [isOpen])
    case h_3 isOpen =>
      cases hs
      exact .drained hpc (.inl rfl) (by simp [isOpen])
    case h_4 isOpen =>
      cases hs
      exact .drained hpc (.inr rfl) (by simp [isOpen])
    case h_5 =>
      cases hs
      exact .recvFailed hpc
    case h_6 => cases hs
  | drained batch e k =>
    cases c <;> simp only [reactorStep, hpc, reduceCtorEq] at hs
    cases hs
    exact .stamp hpc
  | writing batch e k =>
    cases c <;> simp only [reactorStep, hpc, reduceCtorEq] at hs
    case send =>
      split at hs
      case h_1 isOpen =>
        cases hs
        exact .sent hpc (.inl rfl) (by simp [isOpen])
      case h_2 isOpen =>
        cases hs
        exact .sent hpc (.inr rfl) (by simp [isOpen])
      case h_3 isOpen =>
        cases hs
        exact .stalled hpc (by simp [isOpen])
      case h_4 =>
        cases hs
        exact .sendFailed hpc
      case h_5 => cases hs
    case flushed =>
      cases hs
      exact .flushed hpc
  | rearming batch e k interest =>
    cases c with
    | ctlMod ok =>
      cases ok <;> simp only [reactorStep, hpc] at hs
      case false =>
        cases hs
        exact .notRearmed hpc
      case true =>
        split at hs
        case isTrue => cases hs
        case isFalse present =>
          cases hs
          exact .rearmed hpc present
    | _ => simp only [reactorStep, hpc, reduceCtorEq] at hs
  | closing batch e k stage =>
    cases c <;> simp only [reactorStep, hpc, reduceCtorEq] at hs
    split at hs
    case h_1 t next call =>
      cases hs
      exact .closing hpc call
    case h_2 t call =>
      cases hs
      exact .closed hpc call
  | afterBatch =>
    cases c <;> simp only [reactorStep, hpc, reduceCtorEq] at hs
    cases hs
    split
    · exact .due hpc
    · exact .notDue hpc
  | sweep at_ =>
    cases c <;> simp only [reactorStep, hpc, reduceCtorEq] at hs
    cases hs
    exact .sweep hpc
  | scan at_ now =>
    cases c <;> simp only [reactorStep, hpc, reduceCtorEq] at hs
    case order fds =>
      split at hs
      case isFalse => cases hs
      case isTrue perm =>
        cases hs
        exact .scan hpc perm
  | expire at_ fds stage =>
    cases fds with
    | nil =>
      cases c <;> simp only [reactorStep, hpc, reduceCtorEq] at hs
      cases hs
      exact .swept hpc
    | cons fd fds =>
      cases c <;> simp only [reactorStep, hpc, reduceCtorEq] at hs
      split at hs
      case h_1 t next call =>
        cases hs
        exact .sweepClosing hpc call
      case h_2 t call =>
        cases hs
        exact .sweepClosed hpc call
  | done => cases c <;> simp only [reactorStep, hpc, reduceCtorEq] at hs

/-- The moves of `stop()`. -/
inductive StopMove (s : State m) : State m → Prop where
  | begin (pc : s.stopper = .idle) (running : s.running = true) :
      StopMove s { s with running := false, stopper := .wake (List.finRange m) }
  | wake {i : Fin m} {rest : List (Fin m)} (pc : s.stopper = .wake (i :: rest)) :
      StopMove s { s with
        stopSignal := Function.update s.stopSignal i true
        stopper := .wake rest }
  | done (pc : s.stopper = .wake []) : StopMove s { s with stopper := .done }

/-- A step of `stop()` is one of its moves. -/
theorem stopStep_move (hs : stopStep s = some s') : StopMove s s' := by
  unfold stopStep at hs
  split at hs
  case h_1 pc =>
    split at hs
    case isTrue running =>
      cases hs
      exact .begin pc running
    case isFalse => cases hs
  case h_2 pc =>
    cases hs
    exact .wake pc
  case h_3 pc =>
    cases hs
    exact .done pc
  case h_4 => cases hs

/-! ## What a move leaves alone -/

theorem setPc_self (s : State m) (i : Fin m) (pc : Pc) :
    (s.setPc i pc).reactors i = { s.reactors i with pc := pc } :=
  Function.update_self ..

theorem setPc_of_ne {j : Fin m} (s : State m) (pc : Pc) (hj : j ≠ i) :
    (s.setPc i pc).reactors j = s.reactors j :=
  Function.update_of_ne hj _ _

/-- A call of `closeConnection` moves no thread, and touches no other reactor's
table and no object. -/
theorem closeConnection_frame {t : State m} {fd : Fd} {stage : Closing} {next : Option Closing}
    (call : closeConnection s i fd stage = (t, next)) :
    (∀ j, j ≠ i → t.reactors j = s.reactors j) ∧ (t.reactors i).pc = (s.reactors i).pc ∧
      t.next = s.next ∧ t.now = s.now ∧ t.objects = s.objects := by
  cases stage <;> simp only [closeConnection] at call
  case erase =>
    split at call <;> cases call
    · refine ⟨?_, ?_, rfl, rfl, rfl⟩
      · intro j hj
        exact Function.update_of_ne hj _ _
      · simp [State.setReactor]
    · exact ⟨fun _ _ => rfl, rfl, rfl, rfl, rfl⟩
  all_goals
    cases call
    exact ⟨fun _ _ => rfl, rfl, rfl, rfl, rfl⟩

/-- A call of `closeConnection(fd)` opens nothing, closes `fd` at most, and enters
nothing in the table. -/
theorem closeConnection_less {t : State m} {fd : Fd} {stage : Closing} {next : Option Closing}
    (call : closeConnection s i fd stage = (t, next)) :
    (∀ fd' k, t.files fd' = some k → s.files fd' = some k) ∧
      (∀ fd', fd' ≠ fd → t.files fd' = s.files fd') ∧
      ∀ fd' k, (t.reactors i).connections.lookup fd' = some k →
        (s.reactors i).connections.lookup fd' = some k := by
  cases stage <;> simp only [closeConnection] at call
  case erase =>
    split at call <;> cases call <;> refine ⟨fun _ _ hk => hk, fun _ _ => rfl, ?_⟩
    · intro fd' k hk
      simp only [State.setReactor, Function.update_self] at hk
      by_cases hfd : fd' = fd
      · subst hfd
        rw [AList.lookup_erase] at hk
        cases hk
      · rwa [AList.lookup_erase_ne hfd] at hk
    · exact fun _ _ hk => hk
  case close =>
    cases call
    refine ⟨?_, fun _ hne => Function.update_of_ne hne _ _, fun _ _ hk => hk⟩
    intro fd' k hk
    simp only [State.closeFd, Function.update_apply] at hk
    split at hk
    · cases hk
    · exact hk
  all_goals
    cases call
    exact ⟨fun _ _ hk => hk, fun _ _ => rfl, fun _ _ hk => hk⟩

end WebServer.Reactors
