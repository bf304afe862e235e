import WebServer.Laws.Pool.Serving
/-! # No connection is left deaf

`EPOLLONESHOT` disarms a descriptor with every event, so somebody owes each
connection in the table the next `EPOLL_CTL_MOD` or its close. Until `stop()` is
called that somebody is the accept thread, which still has to register it; or
nobody, since it is armed; or whoever will take the event that waits for its
number; or a worker that has such an event in hand. The law needs no ownership:
a stale event for a reused number does no harm here, because the worker that
takes it rearms or closes whatever has the number now.
-/

namespace WebServer.Pool

variable {n : Nat} {cfg : Config} {s s' : State n}

/-- The condition on a step: `EPOLL_CTL_ADD` does not fail on the descriptor just
accepted while it is open. -/
def AddSucceeds (s : State n) : Label n → Prop
  | .accepter (.ctlAdd false) => ∀ fd ∈ s.accepter.registering, s.files fd = none
  | _ => True

instance (s : State n) : ∀ l, Decidable (AddSucceeds s l)
  | .accepter (.ctlAdd false) =>
    inferInstanceAs (Decidable (∀ fd ∈ s.accepter.registering, s.files fd = none))
  | .tick _ | .worker _ _ | .stopper _ | .accepter .go | .accepter (.ready _)
  | .accepter .interrupted | .accepter .failed | .accepter (.accepted _) | .accepter .refused
  | .accepter (.ctlAdd true) | .accepter (.order _) => isTrue trivial

/-- Somebody owes the descriptor a turn, or it is armed. -/
def State.Heard (s : State n) (fd : Fd) : Prop :=
  s.accepter.registering = some fd ∨ (∃ i, s.epoll fd = .armed i) ∨
    (∃ e ∈ s.waiting, e.fd = fd) ∨ ∃ w e, (s.workers w).event = some e ∧ e.fd = fd

/-- The invariant: the law itself, and why no event of a client is dropped from
the accept thread's batch before `stop()`. -/
structure Attended (cfg : Config) (s : State n) : Prop where
  heard : s.stopper = .idle → ∀ fd ∈ s.connections, s.Heard fd
  stopEvent : ∀ e ∈ s.accepter.batch, e.fd = cfg.stopFd → s.stopSignal = true
  unsignalled : s.stopper = .idle → s.stopSignal = false
  listener : ∀ fd, s.listenFd = some fd → fd = cfg.listenFd

theorem attended_initial (n : Nat) (cfg : Config) : Attended cfg (State.initial n cfg) := by
  constructor
  · intro _ fd mem
    exact absurd mem (AList.notMem_empty fd)
  · simp [State.initial, AcceptPc.batch]
  · simp [State.initial]
  · simp [State.initial]

/-- Nothing changes for the accept thread's batch, the signal and the listener,
and each connection left in the table keeps its turn. -/
theorem Attended.frame (h : Attended cfg s)
    (idle : s'.stopper = .idle → s.stopper = .idle)
    (heard : s.stopper = .idle → ∀ fd ∈ s'.connections, (fd ∈ s.connections → s.Heard fd) →
      s'.Heard fd)
    (batch : ∀ e ∈ s'.accepter.batch, e ∈ s.accepter.batch)
    (signal : s'.stopSignal = s.stopSignal) (listenFd : s'.listenFd = s.listenFd) :
    Attended cfg s' where
  heard hi fd mem := heard (idle hi) fd mem fun old => h.heard (idle hi) fd old
  stopEvent e he hfd := by
    rw [signal]
    exact h.stopEvent e (batch e he) hfd
  unsignalled hi := by
    rw [signal]
    exact h.unsignalled (idle hi)
  listener := by
    rw [listenFd]
    exact h.listener

/-- A turn is kept when its place is. -/
theorem State.Heard.mono {fd : Fd} (h : s.Heard fd)
    (registering : s.accepter.registering = some fd → s'.Heard fd)
    (armed : ∀ i, s.epoll fd = .armed i → s'.Heard fd)
    (waiting : ∀ e ∈ s.waiting, e.fd = fd → s'.Heard fd)
    (event : ∀ w e, (s.workers w).event = some e → e.fd = fd → s'.Heard fd) : s'.Heard fd := by
  rcases h with h | ⟨i, h⟩ | ⟨e, h, hfd⟩ | ⟨w, e, h, hfd⟩
  · exact registering h
  · exact armed i h
  · exact waiting e h hfd
  · exact event w e h hfd

/-- Everything that gives the descriptor its turn is still there. -/
theorem State.Heard.keep {fd : Fd} (h : s.Heard fd)
    (registering : s.accepter.registering = some fd → s'.accepter.registering = some fd)
    (epoll : s'.epoll fd = s.epoll fd) (waiting : ∀ e ∈ s.waiting, e ∈ s'.waiting)
    (event : ∀ w e, (s.workers w).event = some e → (s'.workers w).event = some e) :
    s'.Heard fd := by
  apply h.mono
  · exact fun hr => .inl (registering hr)
  · exact fun i hi => .inr (.inl ⟨i, epoll ▸ hi⟩)
  · exact fun e he hfd => .inr (.inr (.inl ⟨e, waiting e he, hfd⟩))
  · exact fun w e he hfd => .inr (.inr (.inr ⟨w, e, event w e he, hfd⟩))

theorem State.Heard.queued {e : Event} (h : e ∈ s.waiting) : s.Heard e.fd :=
  .inr (.inr (.inl ⟨e, h, rfl⟩))

theorem State.Heard.inHand {w : Fin n} {e : Event} (h : (s.workers w).event = some e) :
    s.Heard e.fd :=
  .inr (.inr (.inr ⟨w, e, h, rfl⟩))

/-- A call of `closeConnection` leaves every descriptor's place in the epoll set
that is in the table afterwards. -/
theorem Owned.kept_epoll (o : Owned cfg s) {p : Owner n} {fd fd' : Fd} {stage : Closing}
    {next : Option Closing} (c : Calls s s' p fd stage next) (mem : fd' ∈ s'.connections) :
    fd' ∈ s.connections ∧ s'.epoll fd' = s.epoll fd' := by
  obtain ⟨⟨u, hc, same, _, epoll⟩, notTable, _, before, _, _, _, _⟩ := c
  rw [same.connections] at mem
  rw [epoll]
  -- a party that has yet to close has taken the entry out
  have apart : stage.owes = true → fd' ∈ s.connections → fd' ≠ fd := by
    rintro owes mem rfl
    exact notTable (o.exclusive _ _ _ ((before fd').mpr ⟨rfl, owes⟩) mem)
  cases stage with
  | erase =>
    simp only [closeConnection] at hc
    split at hc <;> cases hc
    · exact ⟨(AList.mem_erase.mp mem).2, rfl⟩
    · exact ⟨mem, rfl⟩
  | ctlDel =>
    cases hc
    exact ⟨mem, Function.update_of_ne (apart rfl mem) _ _⟩
  | close =>
    cases hc
    exact ⟨mem, Function.update_of_ne (apart rfl mem) _ _⟩
  | account =>
    cases hc
    exact ⟨mem, rfl⟩

/-! ## Every step -/

/-- A call of `closeConnection` by the sweep leaves nobody deaf. -/
theorem Attended.sweepCall (h : Attended cfg s) (o : Owned cfg s) {at_ : Time} {fd : Fd}
    {fds rest : List Fd} {stage stage' : Closing} {next : Option Closing} {t : State n}
    (pc : s.accepter = .expire at_ (fd :: fds) stage)
    (call : closeConnection s fd stage = (t, next))
    (c : Calls s { t with accepter := .expire at_ rest stage' } .sweep fd stage next) :
    Attended cfg { t with accepter := .expire at_ rest stage' } := by
  obtain ⟨_, workers, stopper, _, _⟩ := closeConnection_frame call
  obtain ⟨queue, signal, listenFd, _, _⟩ := closeConnection_flags call
  refine h.frame (by rw [stopper]; exact id) ?_ (List.forall_mem_nil _) signal listenFd
  intro _ fd' mem old
  obtain ⟨mem, epoll⟩ := o.kept_epoll c mem
  refine (old mem).keep ?_ epoll ?_ ?_
  · simp [pc, AcceptPc.registering]
  · simp [State.waiting, queue, pc, AcceptPc.batch]
  · rw [workers]
    exact fun _ _ he => he

/-- The accept thread moves, registers nothing and drops no event. -/
theorem Attended.moveAccepter (h : Attended cfg s) (stopper : s'.stopper = s.stopper)
    (connections : s'.connections = s.connections) (registering : s.accepter.registering = none)
    (epoll : s'.epoll = s.epoll) (waiting : s'.waiting = s.waiting)
    (workers : s'.workers = s.workers) (batch : s'.accepter.batch = s.accepter.batch)
    (signal : s'.stopSignal = s.stopSignal) (listenFd : s'.listenFd = s.listenFd) :
    Attended cfg s' := by
  refine h.frame (by rw [stopper]; exact id) ?_ (by rw [batch]; exact fun _ he => he) signal
    listenFd
  intro _ fd mem old
  rw [connections] at mem
  refine (old mem).keep ?_ (congrFun epoll fd) ?_ ?_
  · simp [registering]
  · rw [waiting]
    exact fun _ he => he
  · rw [workers]
    exact fun _ _ he => he

/-- `epoll_wait` disarms what it reports, and the reports now wait in the batch. -/
theorem Attended.ready (h : Attended cfg s) (o : Owned cfg s) (distinct : cfg.listenFd ≠ cfg.stopFd)
    {batch : List Event} (pc : s.accepter = .wait) (deliver : ∀ e ∈ batch, deliverable cfg s e) :
    Attended cfg { s with epoll := disarm s batch, accepter := .dispatch batch } := by
  refine ⟨?_, ?_, h.unsignalled, h.listener⟩
  · intro hi fd mem
    have idle : s.waiting = s.workQueue := by simp [State.waiting, pc, AcceptPc.batch]
    refine (h.heard hi fd mem).mono ?_ ?_ ?_ ?_
    · simp [pc, AcceptPc.registering]
    · intro i hi
      rcases disarm_cases s batch fd with same | ⟨e, he, -, rfl⟩
      · exact .inr (.inl ⟨i, same.trans hi⟩)
      · exact .queued (List.mem_append_right _ he)
    · rintro e he rfl
      rw [idle] at he
      exact .queued (List.mem_append_left _ he)
    · rintro w e he rfl
      exact .inHand he
  · -- only the eventfd itself is reported under its number
    intro e he hfd
    cases hr : e.raisedFor with
    | none =>
      rcases deliverable_system (deliver e he) hr with ⟨-, signal⟩ | listen
      · exact signal
      · exact absurd (listen.symm.trans hfd) distinct
    | some k =>
      have isOpen := (deliverable_client (deliver e he) hr).1
      have := o.reserved e.fd (by simp [isOpen])
      simp [Config.reserved, hfd] at this

/-- The accept thread drops an event of the listener: no connection has that number. -/
theorem Attended.listenEvent (h : Attended cfg s) (o : Owned cfg s) {e : Event}
    {batch : List Event} (pc : s.accepter = .dispatch (e :: batch))
    (isListen : s.listenFd = some e.fd) : Attended cfg { s with accepter := .accept batch } := by
  refine h.frame id ?_ ?_ rfl rfl
  · intro _ fd mem old
    have hfd : e.fd ≠ fd := by
      rintro rfl
      have := o.reserved _ (o.live .table _ mem)
      simp [Config.reserved, h.listener _ isListen] at this
    refine (old mem).mono ?_ ?_ ?_ ?_
    · simp [pc, AcceptPc.registering]
    · exact fun i hi => .inr (.inl ⟨i, hi⟩)
    · rintro e' he rfl
      have he : e' ∈ s.workQueue ∨ e' = e ∨ e' ∈ batch := by
        simpa [State.waiting, pc, AcceptPc.batch] using he
      rcases he with he | rfl | he
      · exact .queued (List.mem_append_left _ he)
      · exact absurd rfl hfd
      · exact .queued (List.mem_append_right _ he)
    · rintro w e' he rfl
      exact .inHand he
  · rw [pc]
    exact fun _ he => List.mem_cons_of_mem _ he

/-- A move of the accept thread leaves nobody deaf. -/
theorem Attended.acceptMove {c : AcceptChoice} (h : Attended cfg s) (o : Owned cfg s)
    (distinct : cfg.listenFd ≠ cfg.stopFd) (ok : AddSucceeds s (.accepter c))
    (move : AcceptMove cfg s c s') : Attended cfg s' := by
  cases move with
  | ready pc _ _ deliver => exact h.ready o distinct pc deliver
  | @stopEvent e batch pc isStop =>
    have signal : s.stopSignal = true :=
      h.stopEvent e (by simp [pc, AcceptPc.batch]) isStop
    refine h.frame id ?_ (List.forall_mem_nil _) rfl rfl
    intro hi
    rw [h.unsignalled hi] at signal
    cases signal
  | listenEvent pc isListen => exact h.listenEvent o pc isListen
  | @push e batch pc =>
    refine h.frame id ?_ ?_ rfl rfl
    · intro _ fd mem old
      refine (old mem).keep ?_ rfl ?_ (fun _ _ he => he)
      · simp [pc, AcceptPc.registering]
      · simp [State.waiting, pc, AcceptPc.batch]
    · rw [pc]
      exact fun _ he => List.mem_cons_of_mem _ he
  | @insert batch fd k pc =>
    refine h.frame id ?_ ?_ rfl rfl
    · intro _ fd' mem old
      rcases (AList.mem_insert _).mp mem with rfl | mem
      · exact .inl rfl
      · refine (old mem).keep ?_ rfl ?_ (fun _ _ he => he)
        · rw [pc]
          exact id
        · simp [State.waiting, State.setObject, pc, AcceptPc.batch]
    · rw [pc]
      exact fun _ he => he
  | @opened batch fd pc =>
    refine h.frame id ?_ ?_ rfl rfl
    · intro _ fd' mem old
      refine (old mem).keep ?_ rfl ?_ (fun _ _ he => he)
      · rw [pc]
        exact id
      · simp [State.waiting, pc, AcceptPc.batch]
    · rw [pc]
      exact fun _ he => he
  | @added batch fd pc isOpen absent =>
    refine h.frame id ?_ ?_ rfl rfl
    · intro _ fd' mem old
      by_cases hfd : fd' = fd
      · exact .inr (.inl ⟨.epollin, by simp [hfd]⟩)
      · refine (old mem).keep ?_ (Function.update_of_ne hfd _ _) ?_ (fun _ _ he => he)
        · simp only [pc, AcceptPc.registering, Option.some.injEq]
          exact fun e => absurd e.symm hfd
        · simp [State.waiting, pc, AcceptPc.batch]
    · rw [pc]
      exact fun _ he => he
  | @notAdded batch fd pc =>
    have closed : s.files fd = none := ok fd (by rw [pc]; rfl)
    refine h.frame id ?_ ?_ rfl rfl
    · intro _ fd' mem old
      have hfd : fd ≠ fd' := by
        rintro rfl
        exact o.live .table _ mem closed
      refine (old mem).keep ?_ rfl ?_ (fun _ _ he => he)
      · simp only [pc, AcceptPc.registering, Option.some.injEq]
        exact fun e => absurd e hfd
      · simp [State.waiting, pc, AcceptPc.batch]
    · rw [pc]
      exact fun _ he => he
  | closing pc call => exact h.sweepCall o pc call (calls_next_sweep pc call)
  | closed pc call => exact h.sweepCall o pc call (calls_last_sweep pc call)
  | _ pc =>
    refine h.moveAccepter rfl rfl ?_ rfl ?_ rfl ?_ rfl rfl
    · rw [pc]
      rfl
    · simp [State.waiting, pc, AcceptPc.batch]
    · rw [pc]
      rfl

/-- A worker moves, and if it lets its event go, the connection with that number
is armed or gone. -/
theorem Attended.moveWorker (h : Attended cfg s) {w : Fin n} {pc : WorkerPc}
    (accepter : s'.accepter = s.accepter) (stopper : s'.stopper = s.stopper)
    (signal : s'.stopSignal = s.stopSignal) (listenFd : s'.listenFd = s.listenFd)
    (workers : s'.workers = Function.update s.workers w pc)
    (table : ∀ fd ∈ s'.connections, fd ∈ s.connections)
    (epoll : ∀ fd ∈ s'.connections, s'.epoll fd = s.epoll fd ∨ ∃ i, s'.epoll fd = .armed i)
    (queue : ∀ e ∈ s.workQueue, e ∈ s'.workQueue ∨ pc.event = some e)
    (event : ∀ e, (s.workers w).event = some e → e.fd ∈ s'.connections →
      pc.event = some e ∨ ∃ i, s'.epoll e.fd = .armed i) : Attended cfg s' := by
  have hand : ∀ e, pc.event = some e → s'.Heard e.fd := by
    intro e he
    apply State.Heard.inHand (w := w)
    rw [workers, Function.update_self, he]
  refine h.frame (by rw [stopper]; exact id) ?_ (by rw [accepter]; exact fun _ he => he) signal
    listenFd
  intro _ fd mem old
  refine (old (table fd mem)).mono ?_ ?_ ?_ ?_
  · intro hr
    exact .inl (by rw [accepter, hr])
  · intro i hi
    rcases epoll fd mem with he | armed
    · exact .inr (.inl ⟨i, by rw [he, hi]⟩)
    · exact .inr (.inl armed)
  · rintro e he rfl
    rcases List.mem_append.mp he with he | he
    · rcases queue e he with he | he
      · exact .queued (List.mem_append_left _ he)
      · exact hand e he
    · rw [← accepter] at he
      exact .queued (List.mem_append_right _ he)
  · rintro w' e he rfl
    by_cases hw : w' = w
    · subst hw
      rcases event e he mem with he | armed
      · exact hand e he
      · exact .inr (.inl armed)
    · apply State.Heard.inHand (w := w')
      rw [workers, Function.update_of_ne hw, he]

/-- A call of `closeConnection` by a worker leaves nobody deaf. -/
theorem Attended.workerCall (h : Attended cfg s) (o : Owned cfg s) {w : Fin n} {e : Event}
    {k : Sock} {stage : Closing} {next : Option Closing} {pc' : WorkerPc} {t : State n}
    (pc : s.workers w = .closing e k stage)
    (call : closeConnection s e.fd stage = (t, next))
    (c : Calls s (t.setWorker w pc') (.worker w) e.fd stage next)
    (event : stage = .erase → e.fd ∈ s.connections → pc'.event = some e)
    (event' : stage = .ctlDel → pc'.event = some e) : Attended cfg (t.setWorker w pc') := by
  obtain ⟨accepter, workers, stopper, _, _⟩ := closeConnection_frame call
  obtain ⟨queue, signal, listenFd, _, _⟩ := closeConnection_flags call
  refine h.moveWorker accepter stopper signal listenFd
    (congrArg (Function.update · w _) workers) ?_ ?_ ?_ ?_
  · exact fun fd mem => (o.kept_epoll c mem).1
  · exact fun fd mem => .inl (o.kept_epoll c mem).2
  · intro e' he
    exact .inl (queue ▸ he)
  · intro e' he mem
    rw [pc] at he
    have hev := WorkerPc.closing_event he
    subst hev
    have old := (o.kept_epoll c mem).1
    cases stage with
    | erase => exact .inl (event rfl old)
    | ctlDel => exact .inl (event' rfl)
    | close => cases o.exclusive _ .table _ ((c.before _).mpr ⟨rfl, rfl⟩) old
    | account => cases he

/-- A worker goes on with the event it has. -/
theorem Attended.goOn (h : Attended cfg s) {w : Fin n} {pc : WorkerPc}
    (accepter : s'.accepter = s.accepter) (stopper : s'.stopper = s.stopper)
    (signal : s'.stopSignal = s.stopSignal) (listenFd : s'.listenFd = s.listenFd)
    (workers : s'.workers = Function.update s.workers w pc)
    (connections : s'.connections = s.connections) (epoll : s'.epoll = s.epoll)
    (queue : s'.workQueue = s.workQueue)
    (event : ∀ e, (s.workers w).event = some e → pc.event = some e) : Attended cfg s' := by
  refine h.moveWorker accepter stopper signal listenFd workers ?_ ?_ ?_ ?_
  · exact fun fd mem => connections ▸ mem
  · exact fun fd _ => .inl (congrFun epoll fd)
  · exact fun e he => .inl (queue ▸ he)
  · exact fun e he _ => .inl (event e he)

/-- A move of a worker leaves nobody deaf. -/
theorem Attended.workerMove {w : Fin n} {c : WorkerChoice} (h : Attended cfg s) (o : Owned cfg s)
    (move : WorkerMove s w c s') : Attended cfg s' := by
  cases move with
  | received => exact h
  | sent => exact h
  | take pc queue =>
    refine h.moveWorker rfl rfl rfl rfl rfl (fun _ mem => mem) (fun _ _ => .inl rfl) ?_ ?_
    · intro e' he
      rw [queue, List.mem_cons] at he
      rcases he with rfl | he
      · exact .inr rfl
      · exact .inl he
    · simp [pc, WorkerPc.event]
  | @gone e pc gone =>
    refine h.moveWorker rfl rfl rfl rfl rfl (fun _ mem => mem) (fun _ _ => .inl rfl)
      (fun _ he => .inl he) ?_
    intro e' he mem
    rw [pc] at he
    cases he
    exact absurd mem (AList.lookup_eq_none.mp gone)
  | @found e k pc _ =>
    refine h.goOn rfl rfl rfl rfl rfl rfl rfl rfl ?_
    intro e' he
    rw [pc] at he
    rw [← he]
    unfold enter
    split
    · rfl
    · split <;> rfl
  | @release e k action pc =>
    refine h.goOn rfl rfl rfl rfl rfl rfl rfl rfl ?_
    intro e' he
    rw [pc] at he
    rw [← he]
    cases action <;> rfl
  | @rearmed e k i pc present =>
    refine h.moveWorker rfl rfl rfl rfl rfl (fun _ mem => mem) ?_ (fun _ he => .inl he) ?_
    · intro fd _
      by_cases hfd : fd = e.fd
      · exact .inr ⟨i, by simp [State.setWorker, hfd]⟩
      · exact .inl (Function.update_of_ne hfd _ _)
    · intro e' he _
      rw [pc] at he
      cases he
      exact .inr ⟨i, by simp [State.setWorker]⟩
  | @closing e k stage next t pc call =>
    refine h.workerCall o pc call (calls_next_worker pc call) ?_ ?_
    · rintro rfl mem
      simp only [closeConnection, mem, ↓reduceIte] at call
      cases call
      rfl
    · rintro rfl
      cases call
      rfl
  | closed pc call =>
    refine h.workerCall o pc call (calls_last_worker pc call) ?_ ?_
    · rintro rfl mem
      simp only [closeConnection, mem, ↓reduceIte] at call
      cases call
    · rintro rfl
      cases call
  | _ pc =>
    refine h.goOn rfl rfl rfl rfl rfl rfl rfl rfl ?_
    rw [pc]
    simp [WorkerPc.event]

/-- A move of `stop()` comes after the states in question. -/
theorem Attended.stopMove {c : StopChoice} (h : Attended cfg s) (move : StopMove s c s') :
    Attended cfg s' := by
  cases move with
  | wake pc => exact ⟨by simp, fun _ _ _ => rfl, by simp, h.listener⟩
  | closedAll pc =>
    refine ⟨?_, h.stopEvent, ?_, h.listener⟩ <;>
      cases s.listenFd <;> simp
  | resetListener pc => exact ⟨by simp, h.stopEvent, by simp, by simp⟩
  | _ => exact ⟨by simp, h.stopEvent, by simp, h.listener⟩

/-- The invariant holds in every state reached by steps in which
`EPOLL_CTL_ADD` succeeds. -/
theorem attended_of_reach (distinct : cfg.listenFd ≠ cfg.stopFd)
    (r : (loop n cfg).Reach AddSucceeds s) : Attended cfg s := by
  refine (r.invariant (I := fun s => Owned cfg s ∧ Attended cfg s)
    ⟨owned_initial n cfg, attended_initial n cfg⟩ ?_).2
  rintro s l s' ⟨o, h⟩ ok hs
  refine ⟨o.step hs, ?_⟩
  cases l with
  | tick elapsed =>
    cases hs
    exact ⟨h.heard, h.stopEvent, h.unsignalled, h.listener⟩
  | accepter c => exact h.acceptMove o distinct ok (acceptStep_move hs)
  | worker w c => exact h.workerMove o (workerStep_move hs)
  | stopper c => exact h.stopMove (stopStep_move hs)

/-- Before `stop()`, each connection in the table is being registered, or is
armed, or an event for its number waits (in the accept thread's batch or in the
queue), or a worker has one in hand that it has yet to rearm or close. -/
theorem heard (distinct : cfg.listenFd ≠ cfg.stopFd) (r : (loop n cfg).Reach AddSucceeds s)
    (before : s.stopper = .idle) {fd : Fd} (mem : fd ∈ s.connections) :
    s.accepter.registering = some fd ∨ (∃ i, s.epoll fd = .armed i) ∨
      (∃ e ∈ s.workQueue ++ s.accepter.batch, e.fd = fd) ∨
      ∃ w e, (s.workers w).event = some e ∧ e.fd = fd :=
  (attended_of_reach distinct r).heard before fd mem

/-- The accept thread has been given an event and has not queued it yet. -/
def reported : List (Label 1) :=
  acceptSix ++ [.accepter .go, .accepter (.ready [firstReadable])]

/-- The state between `epoll_wait` and the push to the queue. -/
def reportedEnd : State 1 :=
  ((loop 1 {}).exec (.initial 1 {}) reported).get (by decide)

theorem reportedEnd_reach : (loop 1 {}).Reach AddSucceeds reportedEnd :=
  .of_exec .start (by decide) (Option.some_get _).symm

/-- The event that was reported gives the connection its turn. -/
theorem heard_reported :
    reportedEnd.accepter.registering = some 6 ∨ (∃ i, reportedEnd.epoll 6 = .armed i) ∨
      (∃ e ∈ reportedEnd.workQueue ++ reportedEnd.accepter.batch, e.fd = 6) ∨
      ∃ w e, (reportedEnd.workers w).event = some e ∧ e.fd = 6 :=
  heard (by decide) reportedEnd_reach rfl (by decide)

/-- The queue alone is not enough: an event is with the accept thread first. -/
theorem not_heard_queue : ¬ ∀ (n : Nat) (cfg : Config) (s : State n),
    cfg.listenFd ≠ cfg.stopFd → (loop n cfg).Reach AddSucceeds s → s.stopper = .idle →
    ∀ fd ∈ s.connections, s.accepter.registering = some fd ∨ (∃ i, s.epoll fd = .armed i) ∨
      (∃ e ∈ s.workQueue, e.fd = fd) ∨ ∃ w e, (s.workers w).event = some e ∧ e.fd = fd := by
  intro claim
  have idle : reportedEnd.workers 0 = .idle := by decide
  rcases claim 1 {} reportedEnd (by decide) reportedEnd_reach rfl 6 (by decide) with
    h | ⟨i, h⟩ | ⟨e, h, _⟩ | ⟨w, e, h, _⟩
  · revert h
    decide
  · have disarmed : reportedEnd.epoll 6 = .disarmed := by decide
    rw [disarmed] at h
    cases h
  · have empty : reportedEnd.workQueue = [] := by decide
    rw [empty] at h
    cases h
  · rw [Subsingleton.elim w 0, idle] at h
    cases h

end WebServer.Pool
