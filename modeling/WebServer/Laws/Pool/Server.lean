import WebServer.Laws.Pool.Serving
import WebServer.Laws.Server.Dialogue
import WebServer.Laws.Server.EndOfStream
import WebServer.Laws.Server.Hosting
import WebServer.Pool.Server
/-! # A worker calls the handler when it is to be called

In the pool an event travels: it is reported, waits in the queue, is taken by a worker
and looked up, and all the while the connection must go on waiting for what it was
armed for. `Coupled` follows the descriptor's one turn (`State.Turn`) through these
places and says at each of them where the handler is. It holds on clean runs, where the
turn is in one place; there the workers, in every order of their steps, drive each
connection as if it were alone (`dialogue_of_clean`).
-/

namespace WebServer.Pool

variable {n : Nat} {ρ : Type u} {τ : Type v} {χ : Type w} {cfg : Config}
  {router : SharedRouter ρ τ χ} {s s' : State n} {crowd crowd' : Crowd ρ τ χ}

/-! ## Where a connection is -/

/-- The stage of the connection that a worker serves suits the worker. -/
def WorkerPc.Suits : WorkerPc → WebServer.Stage → Prop
  | .reading _ _, stage => ∃ bytes, stage = .reading bytes
  | .drained _ _, stage => ∃ bytes, stage = .drained bytes
  | .writing _ _, stage => stage = .parsing ∨ stage = .writing
  | .served _ _ action, stage => stage = .waiting action
  | .rearming _ _ i, stage => stage = .waiting i.action
  | .closing _ _ _, stage => stage = .waiting .close
  | _, _ => True

/-- The event was reported and its connection is not looked up yet. -/
def State.Unserved (s : State n) (e : Event) : Prop :=
  e ∈ s.waiting ∨ ∃ w, s.workers w = .taken e

/-- Nobody serves the connection. -/
def State.Rests (s : State n) (k : Sock) : Prop :=
  ∀ w e, (s.workers w).serving ≠ some (e, k)

/-- The pool and the connections go together: wherever the turn of a descriptor is, the
handler is where that place asks for it. -/
structure Coupled (s : State n) (crowd : Crowd ρ τ χ) : Prop where
  fresh : ∀ k, s.next ≤ k → crowd.Waits k .waitRead
  registering : ∀ fd k, s.accepter.registering = some fd → s.files fd = some k →
    crowd.Waits k .waitRead
  armed : ∀ fd k i, s.epoll fd = .armed i → s.files fd = some k →
    s.accepter.removing ≠ some fd → crowd.Waits k i.action
  raised : ∀ e k, s.Unserved e → e.raisedFor = some k →
    ∃ i : Interest, i.reports e.events = true ∧ crowd.Waits k i.action
  serving : ∀ w e k, (s.workers w).serving = some (e, k) →
    (s.workers w).Suits (crowd.guests k).stage
  resting : ∀ fd k, s.files fd = some k → s.Rests k → ∃ action, crowd.Waits k action

theorem coupled_initial (server : ρ) :
    Coupled (State.initial n cfg) ({ server } : Crowd ρ τ χ) where
  fresh k _ := rfl
  registering fd k hr := by cases hr
  armed fd k i hi := by cases hi
  raised e k he := by
    simp [State.Unserved, State.waiting, State.initial, AcceptPc.batch] at he
  serving w e k hs := by cases hs
  resting fd k hk := by cases hk

theorem State.Unserved.carries {e : Event} (h : s.Unserved e) : s.Carries e := by
  obtain he | ⟨w, hw⟩ := h
  · exact .inl he
  · exact .inr ⟨w, by rw [hw]; rfl⟩

/-- A step of which the handler knows nothing: no descriptor is opened or armed, and no
event is reported. -/
theorem Coupled.still (h : Coupled s crowd) (next : s'.next = s.next)
    (files : ∀ fd k, s'.files fd = some k → s.files fd = some k)
    (registering : ∀ fd, s'.accepter.registering = some fd → s.accepter.registering = some fd)
    (epoll : ∀ fd i, s'.epoll fd = .armed i → s.epoll fd = .armed i)
    (removing : ∀ fd k, s'.files fd = some k → s.accepter.removing = some fd →
      s'.accepter.removing = some fd)
    (unserved : ∀ e, s'.Unserved e → s.Unserved e)
    (serving : ∀ w e k, (s'.workers w).serving = some (e, k) →
      (s.workers w).serving = some (e, k) ∧
        ∀ stage, (s.workers w).Suits stage → (s'.workers w).Suits stage)
    (resting : ∀ fd k, s'.files fd = some k → s'.Rests k →
      s.Rests k ∨ ∃ action, crowd.Waits k action) : Coupled s' crowd where
  fresh k hk := h.fresh k (next ▸ hk)
  registering fd k hr hk := h.registering fd k (registering fd hr) (files fd k hk)
  armed fd k i hi hk hn :=
    h.armed fd k i (epoll fd i hi) (files fd k hk) fun hr => hn (removing fd k hk hr)
  raised e k he hk := h.raised e k (unserved e he) hk
  serving w e k hs := (serving w e k hs).2 _ (h.serving w e k (serving w e k hs).1)
  resting fd k hk hr := by
    obtain old | known := resting fd k hk hr
    · exact h.resting fd k (files fd k hk) old
    · exact known

/-- A worker that serves nobody moves to where it serves nobody. -/
theorem Coupled.besides (h : Coupled s crowd) {w : Fin n} {pc : WorkerPc}
    (workers : s'.workers = Function.update s.workers w pc)
    (before : (s.workers w).serving = none) (after : pc.serving = none) (next : s'.next = s.next)
    (files : s'.files = s.files) (epoll : s'.epoll = s.epoll) (accepter : s'.accepter = s.accepter)
    (waiting : ∀ e ∈ s'.waiting, e ∈ s.waiting) (taken : ∀ e, pc = .taken e → s.Unserved e) :
    Coupled s' crowd := by
  have there : ∀ w', w' ≠ w → s'.workers w' = s.workers w' := by
    intro w' hw
    rw [workers, Function.update_of_ne hw]
  have here : s'.workers w = pc := by
    rw [workers, Function.update_self]
  refine h.still next ?_ ?_ ?_ ?_ ?_ ?_ ?_
  · rw [files]
    exact fun _ _ hk => hk
  · rw [accepter]
    exact fun _ hr => hr
  · rw [epoll]
    exact fun _ _ hi => hi
  · rw [accepter]
    exact fun _ _ _ hr => hr
  · rintro e (he | ⟨w', he⟩)
    · exact .inl (waiting e he)
    · by_cases hw : w' = w
      · subst hw
        exact taken e (here.symm.trans he)
      · exact .inr ⟨w', there w' hw ▸ he⟩
  · intro w' e k hs
    by_cases hw : w' = w
    · subst hw
      rw [here, after] at hs
      cases hs
    · rw [there w' hw] at hs ⊢
      exact ⟨hs, fun _ suits => suits⟩
  · intro fd k _ hr
    left
    intro w' e hs
    by_cases hw : w' = w
    · subst hw
      rw [before] at hs
      cases hs
    · exact hr w' e (there w' hw ▸ hs)

/-- The turn of the connection that a worker has in hand is nowhere else. -/
theorem Kept.elsewhere (kept : Kept cfg s) {w : Fin n} {e : Event} {k k' : Sock} {p : Place n}
    {fd : Fd} (event : (s.workers w).event = some e) (client : e.raisedFor = some k)
    (turn : s.Turn p fd) (hp : p ≠ .worker w) (hk : s.files fd = some k') : k' ≠ k := by
  rintro rfl
  have isOpen : s.files e.fd = some k' := kept.raised e k' (.inr ⟨w, event⟩) client
  have hfd := kept.owned.injective fd e.fd k' hk isOpen
  exact hp (kept.exclusive p (.worker w) fd turn ⟨e, event, by simp [client], hfd.symm⟩)

/-- An event in the queue, in the batch or with another worker is for another connection. -/
theorem Kept.unheard (kept : Kept cfg s) {w : Fin n} {e e' : Event} {k k' : Sock}
    (event : (s.workers w).event = some e) (client : e.raisedFor = some k)
    (he : e' ∈ s.waiting ∨ ∃ w', w' ≠ w ∧ (s.workers w').event = some e')
    (hk : e'.raisedFor = some k') : k' ≠ k := by
  obtain he | ⟨w', hw, hevent⟩ := he
  · exact kept.elsewhere (p := .waiting) event client ⟨e', he, by simp [hk], rfl⟩ (by simp)
      (kept.raised e' k' (.inl he) hk)
  · exact kept.elsewhere (p := .worker w') event client ⟨e', hevent, by simp [hk], rfl⟩
      (fun same => hw (Place.worker.inj same)) (kept.raised e' k' (.inr ⟨w', hevent⟩) hk)

/-- A worker goes on with the event it has in hand, whose connection nobody else has
anything to do with. -/
theorem Coupled.serve (h : Coupled s crowd) (kept : Kept cfg s) {w : Fin n} {pc : WorkerPc}
    {e : Event} {k : Sock} (event : (s.workers w).event = some e) (client : e.raisedFor = some k)
    (workers : s'.workers = Function.update s.workers w pc) (next : s'.next = s.next)
    (accepter : s'.accepter = s.accepter) (queue : s'.workQueue = s.workQueue)
    (files : ∀ fd k', s'.files fd = some k' → s.files fd = some k')
    (epoll : ∀ fd i, s'.epoll fd = .armed i →
      s.epoll fd = .armed i ∨ (fd = e.fd ∧ crowd'.Waits k i.action))
    (others : ∀ k', k' ≠ k → crowd'.guests k' = crowd.guests k') (untaken : ∀ e', pc ≠ .taken e')
    (serving : ∀ p, pc.serving = some p → p = (e, k) ∧ pc.Suits (crowd'.guests k).stage)
    (rests : pc.serving = none → ∃ action, crowd'.Waits k action) : Coupled s' crowd' := by
  have isOpen : s.files e.fd = some k := kept.raised e k (.inr ⟨w, event⟩) client
  have here : s'.workers w = pc := by
    rw [workers, Function.update_self]
  have there : ∀ w', w' ≠ w → s'.workers w' = s.workers w' := by
    intro w' hw
    rw [workers, Function.update_of_ne hw]
  have waits : ∀ {k' action}, k' ≠ k → crowd.Waits k' action → crowd'.Waits k' action := by
    intro k' action hk old
    show (crowd'.guests k').stage = _
    rw [others k' hk]
    exact old
  constructor
  · intro k' hk'
    rw [next] at hk'
    refine waits ?_ (h.fresh k' hk')
    rintro rfl
    exact Nat.not_le_of_gt (kept.owned.fresh e.fd k' isOpen) hk'
  · intro fd k' hr hk'
    rw [accepter] at hr
    have hk' := files fd k' hk'
    refine waits ?_ (h.registering fd k' hr hk')
    exact kept.elsewhere (p := .registering) event client ⟨hr, by simp [hk']⟩ (by simp) hk'
  · intro fd k' i hi hk' hn
    rw [accepter] at hn
    have hk' := files fd k' hk'
    obtain old | ⟨rfl, new⟩ := epoll fd i hi
    · refine waits ?_ (h.armed fd k' i old hk' hn)
      exact kept.elsewhere (p := .armed) event client ⟨i, old⟩ (by simp) hk'
    · rw [isOpen, Option.some.injEq] at hk'
      exact hk' ▸ new
  · intro e' k' he hk'
    have old : s.Unserved e' ∧ k' ≠ k := by
      obtain he | ⟨w', hw⟩ := he
      · have he : e' ∈ s.waiting := by
          simpa only [State.waiting, queue, accepter] using he
        exact ⟨.inl he, kept.unheard event client (.inl he) hk'⟩
      · have hne : w' ≠ w := by
          rintro rfl
          exact untaken e' (here.symm.trans hw)
        rw [there w' hne] at hw
        refine ⟨.inr ⟨w', hw⟩, kept.unheard event client (.inr ⟨w', hne, ?_⟩) hk'⟩
        rw [hw]
        rfl
    obtain ⟨i, hreports, hwaits⟩ := h.raised e' k' old.1 hk'
    exact ⟨i, hreports, waits old.2 hwaits⟩
  · intro w' e' k' hs
    by_cases hw : w' = w
    · subst hw
      rw [here] at hs ⊢
      obtain ⟨hp, suits⟩ := serving _ hs
      cases hp
      exact suits
    · rw [there w' hw] at hs ⊢
      rw [others k' (kept.unheard event client (.inr ⟨w', hw, WorkerPc.event_of_serving hs⟩)
        (kept.serving w' e' k' hs).1)]
      exact h.serving w' e' k' hs
  · intro fd k' hk' hr
    have hk' := files fd k' hk'
    by_cases hk : k' = k
    · subst hk
      cases hp : pc.serving with
      | none => exact rests hp
      | some p =>
        obtain ⟨rfl, -⟩ := serving p hp
        exact absurd hp (here ▸ hr w e)
    · have old : s.Rests k' := by
        intro w' e' hs
        by_cases hw : w' = w
        · subst hw
          have same : e' = e := Option.some.inj ((WorkerPc.event_of_serving hs).symm.trans event)
          have hraised := (kept.serving w' e' k' hs).1
          rw [same, client, Option.some.injEq] at hraised
          exact hk hraised.symm
        · exact hr w' e' (there w' hw ▸ hs)
      obtain ⟨action, hwaits⟩ := h.resting fd k' hk' old
      exact ⟨action, waits hk hwaits⟩

/-- The states agree on all that events and descriptors are about. -/
structure State.Alike (s s' : State n) : Prop where
  next : s'.next = s.next
  files : s'.files = s.files
  epoll : s'.epoll = s.epoll
  queue : s'.workQueue = s.workQueue
  accepter : s'.accepter = s.accepter

/-- A worker that serves a connection, or is about to, goes on with it. -/
theorem Coupled.goOn (h : Coupled s crowd) (kept : Kept cfg s) {w : Fin n} {pc : WorkerPc}
    {e : Event} {k : Sock} {call : LoopCall} {io : IoResult}
    (event : (s.workers w).event = some e) (client : e.raisedFor = some k)
    (workers : s'.workers = Function.update s.workers w pc) (alike : s.Alike s')
    (hf : crowd.follow router call io = some crowd') (subject : call.subject = some k)
    (after : pc.serving = some (e, k)) (suits : pc.Suits (crowd'.guests k).stage) :
    Coupled s' crowd' := by
  refine h.serve kept event client workers alike.next alike.accepter alike.queue ?_ ?_ ?_ ?_ ?_ ?_
  · rw [alike.files]
    exact fun _ _ hk => hk
  · rw [alike.epoll]
    exact fun _ _ hi => .inl hi
  · intro k' hk
    refine follow_others hf ?_
    rw [subject]
    exact fun same => hk (Option.some.inj same).symm
  · rintro e' rfl
    cases after
  · intro p hp
    rw [after] at hp
    exact ⟨(Option.some.inj hp).symm, suits⟩
  · intro hp
    rw [after] at hp
    cases hp

/-! ## The workers -/

/-- The connection that a worker finds for its event, and what it waits for. -/
theorem Coupled.finds (h : Coupled s crowd) (kept : Kept cfg s) {w : Fin n} {e : Event} {k : Sock}
    (pc : s.workers w = .taken e) (found : s.connections.lookup e.fd = some k) :
    e.raisedFor = some k ∧ ∃ i : Interest, i.reports e.events = true ∧ crowd.Waits k i.action := by
  have isOpen := (kept.owned.table e.fd k found).1
  have carried : s.Carries e := .inr ⟨w, by rw [pc]; rfl⟩
  cases hr : e.raisedFor with
  | none => exact absurd (kept.own e carried hr) (kept.owned.reserved e.fd (by simp [isOpen]))
  | some k' =>
    have hk := kept.raised e k' carried hr
    rw [isOpen, Option.some.injEq] at hk
    subst hk
    exact ⟨rfl, h.raised e k (.inr ⟨w, pc⟩) hr⟩

theorem serving_enter (e : Event) (k : Sock) : (enter e k).serving = some (e, k) := by
  unfold enter
  split
  · rfl
  · split <;> rfl

/-- Where a worker enters is where the handler is then. -/
theorem suits_entered {e : Event} {k : Sock} {io : IoResult}
    (hf : crowd.follow router (LoopCall.of e k) io = some crowd') :
    (enter e k).Suits (crowd'.guests k).stage := by
  unfold LoopCall.of at hf
  unfold enter
  split
  next hup =>
    rw [if_pos hup] at hf
    exact follow_giveUp hf
  next hquiet =>
    rw [if_neg hquiet] at hf
    split
    next hout =>
      rw [if_pos hout] at hf
      exact .inr (follow_onWritable hf)
    next hout =>
      rw [if_neg hout] at hf
      exact ⟨[], follow_onReadable hf⟩

theorem suits_act {e : Event} {k : Sock} {action : Action} {stage : WebServer.Stage}
    (h : stage = .waiting action) :
    (act e k action).serving = some (e, k) ∧ (act e k action).Suits stage := by
  cases action <;> exact ⟨rfl, h⟩

/-- A call of `closeConnection` arms nothing. -/
theorem closeConnection_epoll {fd : Fd} {stage : Closing} {next : Option Closing}
    (hc : closeConnection s fd stage = (s', next)) :
    ∀ fd' i, s'.epoll fd' = .armed i → s.epoll fd' = .armed i := by
  intro fd' i hi
  cases stage <;> simp only [closeConnection] at hc
  case erase => split at hc <;> cases hc <;> exact hi
  case account =>
    cases hc
    exact hi
  all_goals
    cases hc
    simp only [State.closeFd, Function.update_apply] at hi
    split at hi
    · cases hi
    · exact hi

theorem serving_closing (e : Event) (k : Sock) {stage : Closing} (hst : stage ≠ .account) :
    (WorkerPc.closing e k stage).serving = some (e, k) := by
  cases stage <;> first | rfl | exact absurd rfl hst

theorem update_worker_self {w : Fin n} {pc : WorkerPc} (hpc : s.workers w = pc) :
    s.workers = Function.update s.workers w pc := by
  rw [← hpc]
  exact (Function.update_eq_self w s.workers).symm

/-- A worker makes a call of `closeConnection` for the connection in its hands. -/
theorem Coupled.closes (h : Coupled s crowd) (kept : Kept cfg s) {w : Fin n} {pc : WorkerPc}
    {e : Event} {k : Sock} {stage : Closing} {next : Option Closing} {t : State n}
    (event : (s.workers w).event = some e) (client : e.raisedFor = some k)
    (now : crowd.Waits k .close) (call : closeConnection s e.fd stage = (t, next))
    (untaken : ∀ e', pc ≠ .taken e')
    (serving : ∀ p, pc.serving = some p → p = (e, k) ∧ pc.Suits (crowd.guests k).stage) :
    Coupled (t.setWorker w pc) crowd := by
  obtain ⟨accepter, workers, -, issued, -⟩ := closeConnection_frame call
  exact h.serve kept event client (by rw [← workers]; rfl) issued accepter
    (closeConnection_flags call).1 (closeConnection_less call).1
    (fun fd i hi => .inl (closeConnection_epoll call fd i hi)) (fun _ _ => rfl) untaken serving
    fun _ => ⟨.close, now⟩

/-- What a worker has in hand was raised for the connection it serves. -/
theorem Coupled.inHand (h : Coupled s crowd) (kept : Kept cfg s) {w : Fin n} {pc : WorkerPc}
    {e : Event} {k : Sock} (here : s.workers w = pc) (serving : pc.serving = some (e, k)) :
    (s.workers w).event = some e ∧ e.raisedFor = some k ∧ pc.Suits (crowd.guests k).stage := by
  subst here
  exact ⟨WorkerPc.event_of_serving serving, (kept.serving w e k serving).1, h.serving w e k serving⟩

/-- The worker is done with the handler, whose action it takes. -/
theorem Coupled.release (h : Coupled s crowd) (kept : Kept cfg s) {w : Fin n} {e : Event}
    {k : Sock} {action : Action} (here : s.workers w = .served e k action)
    (workers : s'.workers = Function.update s.workers w (act e k action)) (alike : s.Alike s') :
    Coupled s' crowd := by
  obtain ⟨event, client, now⟩ := h.inHand kept here rfl
  obtain ⟨after, suits⟩ := suits_act (e := e) (k := k) now
  refine h.serve kept event client workers alike.next alike.accepter alike.queue ?_ ?_
    (fun _ _ => rfl) ?_ ?_ ?_
  · rw [alike.files]
    exact fun _ _ hk => hk
  · rw [alike.epoll]
    exact fun _ _ hi => .inl hi
  · intro e' he
    rw [he] at after
    cases after
  · intro p hp
    rw [after] at hp
    exact ⟨(Option.some.inj hp).symm, suits⟩
  · intro hp
    rw [after] at hp
    cases hp

/-- Every move of a worker keeps the pool and the connections together. -/
theorem Coupled.work (h : Coupled s crowd) (kept : Kept cfg s) {w : Fin n} {c : WorkerChoice}
    {io : IoResult} (move : WorkerMove s w c s')
    (hf : crowd.follow router (handling s (.worker w c)) io = some crowd') :
    Coupled s' crowd' := by
  have alike : s.Alike s := ⟨rfl, rfl, rfl, rfl, rfl⟩
  cases move with
  | exit pc =>
    simp only [handling, pc] at hf
    obtain rfl := follow_nothing hf
    exact h.besides rfl (by rw [pc]; rfl) rfl rfl rfl rfl rfl (fun _ he => he)
      (by simp)
  | @gone e pc gone =>
    simp only [handling, pc, gone, Option.elim_none] at hf
    obtain rfl := follow_nothing hf
    exact h.besides rfl (by rw [pc]; rfl) rfl rfl rfl rfl rfl (fun _ he => he)
      (by simp)
  | @take e rest pc queue =>
    simp only [handling, pc] at hf
    obtain rfl := follow_nothing hf
    have mem : ∀ e' ∈ rest ++ s.accepter.batch, e' ∈ s.waiting := by
      intro e' he
      rw [State.waiting, queue]
      exact List.mem_cons_of_mem e he
    refine h.besides rfl (by rw [pc]; rfl) rfl rfl rfl rfl rfl mem ?_
    intro e' he
    cases he
    exact .inl (by simp [State.waiting, queue])
  | @found e k pc found =>
    simp only [handling, pc, found, Option.elim_some] at hf
    obtain ⟨client, -⟩ := h.finds kept pc found
    have event : (s.workers w).event = some e := by
      rw [pc]
      rfl
    exact h.goOn kept event client rfl ⟨rfl, rfl, rfl, rfl, rfl⟩ hf (subject_of e k)
      (serving_enter e k) (suits_entered hf)
  | received pc goesOn isOpen =>
    simp only [handling, pc] at hf
    obtain ⟨event, client, bytes, now⟩ := h.inHand kept pc rfl
    exact h.goOn kept event client (update_worker_self pc) alike hf rfl rfl
      (follow_received hf goesOn now)
  | drained pc ends isOpen =>
    simp only [handling, pc] at hf
    obtain ⟨event, client, bytes, now⟩ := h.inHand kept pc rfl
    exact h.goOn kept event client rfl ⟨rfl, rfl, rfl, rfl, rfl⟩ hf rfl rfl
      (follow_drained hf ends now)
  | recvFailed pc =>
    simp only [handling, pc] at hf
    obtain ⟨event, client, bytes, now⟩ := h.inHand kept pc rfl
    exact h.goOn kept event client rfl ⟨rfl, rfl, rfl, rfl, rfl⟩ hf rfl rfl
      (follow_recvFailed hf now)
  | stamp pc =>
    simp only [handling, pc] at hf
    obtain ⟨event, client, bytes, now⟩ := h.inHand kept pc rfl
    exact h.goOn kept event client rfl ⟨rfl, rfl, rfl, rfl, rfl⟩ hf rfl rfl
      (.inl (follow_stamp hf now))
  | sent pc goesOn isOpen =>
    simp only [handling, pc] at hf
    obtain ⟨event, client, now⟩ := h.inHand kept pc rfl
    exact h.goOn kept event client (update_worker_self pc) alike hf rfl rfl
      (.inr (follow_sent hf goesOn now))
  | stalled pc isOpen =>
    simp only [handling, pc] at hf
    obtain ⟨event, client, now⟩ := h.inHand kept pc rfl
    exact h.goOn kept event client rfl ⟨rfl, rfl, rfl, rfl, rfl⟩ hf rfl rfl (follow_stalled hf now)
  | sendFailed pc =>
    simp only [handling, pc] at hf
    obtain ⟨event, client, now⟩ := h.inHand kept pc rfl
    exact h.goOn kept event client rfl ⟨rfl, rfl, rfl, rfl, rfl⟩ hf rfl rfl
      (follow_sendFailed hf now)
  | flushed pc =>
    simp only [handling, pc] at hf
    obtain ⟨event, client, now⟩ := h.inHand kept pc rfl
    exact h.goOn kept event client rfl ⟨rfl, rfl, rfl, rfl, rfl⟩ hf rfl rfl (follow_flushed hf now)
  | release pc =>
    simp only [handling, pc] at hf
    obtain rfl := follow_nothing hf
    exact h.release kept pc rfl ⟨rfl, rfl, rfl, rfl, rfl⟩
  | rearmed pc present =>
    simp only [handling, pc] at hf
    obtain rfl := follow_nothing hf
    obtain ⟨event, client, now⟩ := h.inHand kept pc rfl
    refine h.serve kept event client rfl rfl rfl rfl (fun _ _ hk => hk) ?_
      (fun _ _ => rfl) (by simp) (by simp [WorkerPc.serving]) fun _ => ⟨_, now⟩
    intro fd j hj
    simp only [State.setWorker, Function.update_apply] at hj
    split at hj
    next hfd =>
      cases hj
      exact .inr ⟨hfd, now⟩
    next => exact .inl hj
  | notRearmed pc =>
    simp only [handling, pc] at hf
    obtain ⟨event, client, -⟩ := h.inHand kept pc rfl
    exact h.goOn kept event client rfl ⟨rfl, rfl, rfl, rfl, rfl⟩ hf rfl rfl (follow_giveUp hf)
  | @closing e k stage next t pc call =>
    simp only [handling, pc] at hf
    obtain rfl := follow_nothing hf
    have hst : stage ≠ .account := by
      rintro rfl
      cases call
    obtain ⟨event, client, now⟩ := h.inHand kept pc (serving_closing e k hst)
    refine h.closes kept event client now call (by simp) ?_
    intro p hp
    cases next <;> cases hp <;> exact ⟨rfl, now⟩
  | @closed e k stage t pc call =>
    simp only [handling, pc] at hf
    obtain rfl := follow_nothing hf
    by_cases hst : stage = .account
    · subst hst
      cases call
      exact h.besides rfl (by rw [pc]; rfl) rfl rfl rfl rfl rfl (fun _ he => he)
        (by simp)
    · obtain ⟨event, client, now⟩ := h.inHand kept pc (serving_closing e k hst)
      exact h.closes kept event client now call (by simp) (by simp [WorkerPc.serving])

/-! ## The accept thread -/

/-- A step that is not a worker's, and gives no descriptor a turn that it did not have. -/
theorem Coupled.apart (h : Coupled s crowd) (workers : s'.workers = s.workers)
    (next : s'.next = s.next) (files : ∀ fd k, s'.files fd = some k → s.files fd = some k)
    (epoll : ∀ fd i, s'.epoll fd = .armed i → s.epoll fd = .armed i)
    (registering : ∀ fd, s'.accepter.registering = some fd → s.accepter.registering = some fd)
    (removing : ∀ fd k, s'.files fd = some k → s.accepter.removing = some fd →
      s'.accepter.removing = some fd)
    (waiting : ∀ e ∈ s'.waiting, e ∈ s.waiting) : Coupled s' crowd := by
  refine h.still next files registering epoll removing ?_ ?_ ?_
  · rintro e (he | ⟨w, he⟩)
    · exact .inl (waiting e he)
    · exact .inr ⟨w, workers ▸ he⟩
  · intro w e k hs
    rw [workers] at hs ⊢
    exact ⟨hs, fun _ suits => suits⟩
  · intro fd k _ hr
    exact .inl fun w e hs => hr w e (workers ▸ hs)

/-- A quiet connection is given up: it is closed at once, or the sweep has erased it. -/
theorem Coupled.giveUp (h : Coupled s crowd) (kept : Kept cfg s) {fd : Fd} {k : Sock}
    {io : IoResult} (isOpen : s.files fd = some k) (quiet : s.Quiet fd)
    (hf : crowd.follow router (.giveUp k) io = some crowd') (workers : s'.workers = s.workers)
    (next : s'.next = s.next) (files : ∀ fd k, s'.files fd = some k → s.files fd = some k)
    (epoll : ∀ fd i, s'.epoll fd = .armed i → s.epoll fd = .armed i)
    (registering : ∀ fd, s'.accepter.registering = some fd → s.accepter.registering = some fd)
    (removing : ∀ fd, s.accepter.removing = some fd → s'.accepter.removing = some fd)
    (waiting : ∀ e ∈ s'.waiting, e ∈ s.waiting)
    (left : s'.files fd = none ∨
      (s'.accepter.registering = none ∧ s'.accepter.removing = some fd)) : Coupled s' crowd' := by
  have now : crowd'.Waits k .close := follow_giveUp hf
  have others : ∀ k', k' ≠ k → crowd'.guests k' = crowd.guests k' :=
    fun k' hk => follow_others hf fun same => hk (Option.some.inj same).symm
  -- an event in hand or waiting is for another connection
  have unheard : ∀ e k', s.Carries e → e.raisedFor = some k' → k' ≠ k := by
    rintro e k' he hk rfl
    exact quiet e he (kept.owned.injective e.fd fd k' (kept.raised e k' he hk) isOpen)
  have waits : ∀ {k' action}, k' ≠ k → crowd.Waits k' action → crowd'.Waits k' action := by
    intro k' action hk old
    show (crowd'.guests k').stage = _
    rw [others k' hk]
    exact old
  constructor
  · intro k' hk'
    rw [next] at hk'
    refine waits ?_ (h.fresh k' hk')
    rintro rfl
    exact Nat.not_le_of_gt (kept.owned.fresh fd k' isOpen) hk'
  · intro fd' k' hr hk'
    refine waits ?_ (h.registering fd' k' (registering fd' hr) (files fd' k' hk'))
    rintro rfl
    have hfd := kept.owned.injective fd' fd k' (files fd' k' hk') isOpen
    subst hfd
    obtain closed | ⟨unregistered, -⟩ := left
    · rw [closed] at hk'
      cases hk'
    · rw [unregistered] at hr
      cases hr
  · intro fd' k' i hi hk' hn
    refine waits ?_ (h.armed fd' k' i (epoll fd' i hi) (files fd' k' hk')
      fun hr => hn (removing fd' hr))
    rintro rfl
    have hfd := kept.owned.injective fd' fd k' (files fd' k' hk') isOpen
    subst hfd
    obtain closed | ⟨-, erased⟩ := left
    · rw [closed] at hk'
      cases hk'
    · exact hn erased
  · intro e k' he hk'
    have he : s.Unserved e := by
      obtain he | ⟨w, hw⟩ := he
      · exact .inl (waiting e he)
      · exact .inr ⟨w, workers ▸ hw⟩
    obtain ⟨i, hreports, old⟩ := h.raised e k' he hk'
    exact ⟨i, hreports, waits (unheard e k' he.carries hk') old⟩
  · intro w e k' hs
    rw [workers] at hs ⊢
    rw [others k' (unheard e k' (.inr ⟨w, WorkerPc.event_of_serving hs⟩)
      (kept.serving w e k' hs).1)]
    exact h.serving w e k' hs
  · intro fd' k' hk' hr
    by_cases hk : k' = k
    · subst hk
      exact ⟨.close, now⟩
    · obtain ⟨action, old⟩ :=
        h.resting fd' k' (files fd' k' hk') fun w e hs => hr w e (workers ▸ hs)
      exact ⟨action, waits hk old⟩

/-- The kernel reports what was armed, and so what the handler waits for. -/
theorem Coupled.reports (h : Coupled s crowd) {batch : List Event} (pc : s.accepter = .wait)
    (deliver : ∀ e ∈ batch, deliverable cfg s e) :
    Coupled { s with epoll := disarm s batch, accepter := .dispatch batch } crowd where
  fresh := h.fresh
  registering fd k hr := by cases hr
  armed fd k i hi hk _ :=
    h.armed fd k i (armed_of_disarm hi).1 hk (by rw [pc]; simp [AcceptPc.removing])
  raised e k he hk := by
    obtain he | he := he
    · obtain old | new := List.mem_append.mp he
      · exact h.raised e k (.inl (List.mem_append_left _ old)) hk
      · have now := deliver e new
        simp only [deliverable, hk, Bool.and_eq_true, decide_eq_true_eq] at now
        obtain ⟨isOpen, reports⟩ := now
        split at reports
        next i armed =>
          exact ⟨i, reports,
            h.armed e.fd k i armed isOpen (by rw [pc]; simp [AcceptPc.removing])⟩
        next => cases reports
    · exact h.raised e k (.inr he) hk
  serving := h.serving
  resting := h.resting

/-- A client is accepted, of which the handler knows nothing yet. -/
theorem Coupled.accepts (h : Coupled s crowd) (kept : Kept cfg s) {batch : List Event} {fd : Fd}
    (pc : s.accepter = .accept batch) (free : s.files fd = none) :
    Coupled { s with
      files := Function.update s.files fd (some s.next)
      next := s.next + 1
      accepter := .insert batch fd s.next } crowd := by
  have known : ∀ {fd' k}, Function.update s.files fd (some s.next) fd' = some k →
      (fd' = fd ∧ k = s.next) ∨ s.files fd' = some k := by
    intro fd' k hk
    rw [Function.update_apply] at hk
    split at hk
    next hfd =>
      cases hk
      exact .inl ⟨hfd, rfl⟩
    next => exact .inr hk
  constructor
  · exact fun k hk => h.fresh k (Nat.le_of_succ_le hk)
  · intro fd' k hr hk
    cases hr
    simp only [Function.update_self, Option.some.injEq] at hk
    exact h.fresh k hk.le
  · intro fd' k i hi hk _
    obtain ⟨rfl, -⟩ | old := known hk
    · exact absurd free (kept.registered fd' (by simp [show s.epoll fd' = _ from hi]))
    · exact h.armed fd' k i hi old (by rw [pc]; simp [AcceptPc.removing])
  · intro e k he hk
    refine h.raised e k ?_ hk
    obtain he | he := he
    · exact .inl (by simpa [State.waiting, pc, AcceptPc.batch] using he)
    · exact .inr he
  · exact h.serving
  · intro fd' k hk hr
    obtain ⟨-, rfl⟩ | old := known hk
    · exact ⟨.waitRead, h.fresh _ le_rfl⟩
    · exact h.resting fd' k old hr

/-- A registered client's handler waits for its first bytes. -/
theorem Coupled.arms (h : Coupled s crowd) {batch : List Event} {fd : Fd}
    (pc : s.accepter = .register batch fd) :
    Coupled { s with
      epoll := Function.update s.epoll fd (.armed .epollin)
      accepter := .accept batch } crowd where
  fresh := h.fresh
  registering fd k hr := by cases hr
  armed fd' k i hi hk _ := by
    simp only [Function.update_apply] at hi
    split at hi
    next hfd =>
      subst hfd
      cases hi
      exact h.registering fd' k (by rw [pc]; rfl) hk
    next => exact h.armed fd' k i hi hk (by rw [pc]; simp [AcceptPc.removing])
  raised e k he hk := by
    refine h.raised e k ?_ hk
    obtain he | he := he
    · exact .inl (by simpa [State.waiting, pc, AcceptPc.batch] using he)
    · exact .inr he
  serving := h.serving
  resting := h.resting

/-- Who is charged with a descriptor is so until it is closed. -/
theorem owes_of_open {fd : Fd} {k : Sock} {stage : Closing} {next : Option Closing}
    (call : closeConnection s fd stage = (s', next)) (owes : stage.owes = true)
    (isOpen : s'.files fd = some k) : next.any Closing.owes = true := by
  cases stage with
  | erase => cases owes
  | ctlDel =>
    cases call
    rfl
  | close =>
    cases call
    simp [State.closeFd] at isOpen
  | account => cases owes

/-- The sweep erases a connection, which is quiet, or has nothing to say to it. -/
theorem Coupled.sweeps (h : Coupled s crowd) (kept : Kept cfg s) {at_ : Time} {fd : Fd}
    {fds rest : List Fd} {stage stage' : Closing} {next : Option Closing} {t : State n}
    {io : IoResult} (pc : s.accepter = .expire at_ (fd :: fds) stage)
    (call : closeConnection s fd stage = (t, next))
    (hf : crowd.follow router (handling s (.accepter .go)) io = some crowd')
    (after : ∀ fd', (AcceptPc.expire at_ rest stage').removing = some fd' ↔
      fd' = fd ∧ next.any Closing.owes = true) :
    Coupled { t with accepter := .expire at_ rest stage' } crowd' := by
  obtain ⟨-, workers, -, issued, -⟩ := closeConnection_frame call
  have files := (closeConnection_less call).1
  have epoll := closeConnection_epoll call
  have waiting : ∀ e ∈ State.waiting { t with accepter := .expire at_ rest stage' },
      e ∈ s.waiting := by
    simp [State.waiting, AcceptPc.batch, (closeConnection_flags call).1, pc]
  have before : ∀ fd', s.accepter.removing = some fd' ↔ fd' = fd ∧ stage.owes = true := by
    rw [pc]
    exact fun fd' => removing_expire at_ fd fd' fds stage
  cases stage with
  | erase =>
    have none_before : ∀ fd', s.accepter.removing ≠ some fd' := by
      intro fd' hr
      cases ((before fd').mp hr).2
    simp only [handling, pc] at hf
    cases hk : s.connections.lookup fd with
    | none =>
      rw [hk, Option.elim_none] at hf
      obtain rfl := follow_nothing hf
      exact h.apart workers issued files epoll (by simp [AcceptPc.registering])
        (fun fd' _ _ hr => absurd hr (none_before fd')) waiting
    | some k =>
      rw [hk, Option.elim_some] at hf
      have mem : fd ∈ s.connections := AList.lookup_isSome.mp (by rw [hk]; rfl)
      have quiet := kept.expiring fd (by rw [pc]; exact List.mem_cons_self)
      simp only [closeConnection, mem, if_true, Prod.mk.injEq] at call
      refine h.giveUp kept (kept.owned.table fd k hk).1 quiet hf workers issued files epoll
        (by simp [AcceptPc.registering]) (fun fd' hr => absurd hr (none_before fd')) waiting ?_
      refine .inr ⟨rfl, (after fd).mpr ⟨rfl, ?_⟩⟩
      rw [← call.2]
      rfl
  | ctlDel | close | account =>
    simp only [handling, pc] at hf
    obtain rfl := follow_nothing hf
    refine h.apart workers issued files epoll (by simp [AcceptPc.registering]) ?_ waiting
    intro fd' k hk hr
    obtain ⟨rfl, owes⟩ := (before fd').mp hr
    exact (after fd').mpr ⟨rfl, owes_of_open call owes hk⟩

/-- Every move of the accept thread keeps the pool and the connections together. -/
theorem Coupled.accept (h : Coupled s crowd) (kept : Kept cfg s) {c : AcceptChoice}
    {io : IoResult} (move : AcceptMove cfg s c s')
    (hf : crowd.follow router (handling s (.accepter c)) io = some crowd') :
    Coupled s' crowd' := by
  cases move with
  | closing pc call => exact h.sweeps kept pc call hf fun fd' => removing_expire _ _ fd' _ _
  | closed pc call => exact h.sweeps kept pc call hf (by simp [removing_erase])
  | ready pc short nodup deliver =>
    simp only [handling] at hf
    obtain rfl := follow_nothing hf
    exact h.reports pc deliver
  | accepted pc listening free new =>
    simp only [handling] at hf
    obtain rfl := follow_nothing hf
    exact h.accepts kept pc free
  | added pc isOpen absent =>
    simp only [handling] at hf
    obtain rfl := follow_nothing hf
    exact h.arms pc
  | stopped pc | wait pc | interrupted pc | failed pc | batchEnd pc | stopEvent pc | listenEvent pc
  | push pc | refused pc | insert pc | opened pc | notAdded pc | due pc | notDue pc | sweep pc
  | scan pc | swept pc =>
    simp only [handling, pc] at hf
    obtain rfl := follow_nothing hf
    refine h.apart rfl rfl (fun _ _ hk => hk) (fun _ _ hi => hi) ?_ ?_ ?_
    · simp [AcceptPc.registering, pc]
    · simp [AcceptPc.removing, pc]
    · intro e he
      simp only [State.waiting, AcceptPc.batch, pc, State.setObject, List.mem_append,
        List.mem_cons] at he ⊢
      grind

/-! ## Runs -/

/-- Every move of `stop()` keeps the pool and the connections together. -/
theorem Coupled.stops (h : Coupled s crowd) (kept : Kept cfg s) {c : StopChoice} {io : IoResult}
    (clean : Clean cfg s (.stopper c)) (move : StopMove s c s')
    (hf : crowd.follow router (handling s (.stopper c)) io = some crowd') :
    Coupled s' crowd' := by
  cases move with
  | @close fd fds pc =>
    obtain ⟨held, -, -⟩ := kept.owned.stopClose pc
    obtain ⟨k, isOpen⟩ := Option.ne_none_iff_exists'.mp (kept.owned.live .stopper fd held)
    simp only [handling, pc, isOpen, Option.elim_some] at hf
    have quiet : s.Quiet fd := clean fd (by simp [State.stops, pc])
    have closed : closeConnection s fd .close = (s.closeFd fd, some .account) := rfl
    exact h.giveUp kept isOpen quiet hf rfl rfl (closeConnection_less closed).1
      (fun fd' i hi => closeConnection_epoll closed fd' i hi) (fun _ hr => hr) (fun _ hr => hr)
      (fun _ he => he)
      (.inl (Function.update_self ..))
  | begin pc | wake pc | clear pc | closedAll pc | account pc | closeListener pc
  | resetListener pc =>
    simp only [handling, pc] at hf
    obtain rfl := follow_nothing hf
    exact h.apart rfl rfl (fun _ _ hk => hk) (fun _ _ hi => hi) (fun _ hr => hr)
      (fun _ _ _ hr => hr) fun _ he => he

/-- Every clean step keeps the pool and the connections together. -/
theorem Coupled.step (h : Coupled s crowd) (kept : Kept cfg s) {l : Label n} {io : IoResult}
    (clean : Clean cfg s l) (hs : (loop n cfg).step s l = some s')
    (hf : crowd.follow router (handling s l) io = some crowd') : Coupled s' crowd' := by
  cases l with
  | tick elapsed =>
    obtain rfl := follow_nothing hf
    cases hs
    exact h.apart rfl rfl (fun _ _ hk => hk) (fun _ _ hi => hi) (fun _ hr => hr)
      (fun _ _ _ hr => hr) fun _ he => he
  | accepter c => exact h.accept kept (acceptStep_move hs) hf
  | worker w c => exact h.work kept (workerStep_move hs) hf
  | stopper c => exact h.stops kept clean (stopStep_move hs) hf

/-- A turn of the parse loop is taken by the worker that has the connection in hand. -/
theorem suits_parsed {pc : WorkerPc} {stage : WebServer.Stage} (h : pc.Suits .parsing)
    (after : stage = .parsing ∨ stage = .writing) : pc.Suits stage := by
  cases pc with
  | writing e k => exact after
  | reading e k | drained e k =>
    obtain ⟨bytes, h⟩ := h
    cases h
  | served e k action | rearming e k i | closing e k stage => cases h
  | idle | taken e | exited => trivial

theorem Coupled.turn (h : Coupled s crowd) {k : Nat} {step : GuestStep χ} (inTurn : step.InTurn)
    (hs : crowdStep router crowd (k, step) = some crowd') : Coupled s crowd' := by
  obtain ⟨before, after⟩ := parse_stage inTurn hs
  have others : ∀ k', k' ≠ k → crowd'.guests k' = crowd.guests k' :=
    fun _ hk => crowdStep_others hs hk
  -- who waits is not in the parse loop
  have waits : ∀ {k' action}, crowd.Waits k' action → crowd'.Waits k' action := by
    intro k' action old
    have hne : k' ≠ k := by
      rintro rfl
      cases before.symm.trans old
    show (crowd'.guests k').stage = _
    rw [others k' hne]
    exact old
  constructor
  · exact fun k' hk' => waits (h.fresh k' hk')
  · exact fun fd k' hr hk' => waits (h.registering fd k' hr hk')
  · exact fun fd k' i hi hk' hn => waits (h.armed fd k' i hi hk' hn)
  · intro e k' he hk'
    obtain ⟨i, hreports, old⟩ := h.raised e k' he hk'
    exact ⟨i, hreports, waits old⟩
  · intro w e k' hs'
    have old := h.serving w e k' hs'
    by_cases hk : k' = k
    · subst hk
      rw [before] at old
      exact suits_parsed old after
    · rw [others k' hk]
      exact old
  · intro fd k' hk' hr
    obtain ⟨action, old⟩ := h.resting fd k' hk' hr
    exact ⟨action, waits old⟩

/-- A quiet connection is served by nobody. -/
theorem Kept.rests (kept : Kept cfg s) {fd : Fd} {k : Sock} (isOpen : s.files fd = some k)
    (quiet : s.Quiet fd) : s.Rests k := by
  intro w e hs
  exact quiet e (.inr ⟨w, WorkerPc.event_of_serving hs⟩)
    (kept.owned.injective e.fd fd k (kept.named hs) isOpen)

/-- On clean runs the loop calls the handler only as its last action asks, and closes by
itself only what is in no call. -/
theorem Coupled.ready_step (h : Coupled s crowd) (kept : Kept cfg s) {l : Label n}
    (clean : Clean cfg s l) (hs : (loop n cfg).step s l = some s') :
    crowd.Ready (handling s l) := by
  cases l with
  | tick elapsed => trivial
  | accepter c =>
    have move : AcceptMove cfg s c s' := acceptStep_move hs
    cases move with
    | @closing at_ fd fds stage next t pc call | @closed at_ fd fds stage t pc call =>
      cases stage <;> simp only [handling, pc]
      case erase =>
        cases hk : s.connections.lookup fd with
        | none => trivial
        | some k =>
          have isOpen := (kept.owned.table fd k hk).1
          have quiet := kept.expiring fd (by rw [pc]; exact List.mem_cons_self)
          exact h.resting fd k isOpen (kept.rests isOpen quiet)
      all_goals trivial
    | stopped pc | wait pc | interrupted pc | failed pc | batchEnd pc | stopEvent pc
    | listenEvent pc | push pc | refused pc | insert pc | opened pc | notAdded pc | due pc
    | notDue pc | sweep pc | scan pc | swept pc | ready pc | accepted pc | added pc =>
      simp only [handling, pc]
      trivial
  | worker w c =>
    have move := workerStep_move hs
    cases move with
    | @found e k pc found =>
      simp only [handling, pc, found, Option.elim_some]
      obtain ⟨-, i, reports, waits⟩ := h.finds kept pc found
      exact ready_of_reports reports waits
    | @notRearmed e k i pc =>
      simp only [handling, pc]
      have now := h.serving w e k (by rw [pc]; rfl)
      rw [pc] at now
      exact ⟨i.action, now⟩
    | gone pc gone =>
      simp only [handling, pc, gone, Option.elim_none]
      trivial
    | exit pc | take pc | received pc | drained pc | recvFailed pc | stamp pc | sent pc
    | stalled pc | sendFailed pc | flushed pc | release pc | rearmed pc | closing pc
    | closed pc =>
      simp only [handling, pc]
      trivial
  | stopper c =>
    have move := stopStep_move hs
    cases move with
    | @close fd fds pc =>
      simp only [handling, pc]
      cases hk : s.files fd with
      | none => trivial
      | some k =>
        exact h.resting fd k hk (kept.rests hk (clean fd (by simp [State.stops, pc])))
    | begin pc | wake pc | clear pc | closedAll pc | account pc | closeListener pc
    | resetListener pc =>
      simp only [handling, pc]
      trivial

variable {services : ρ} {h : Hosted (State n) ρ τ χ}

/-- The loop runs as it does without its connections. -/
theorem loop_of_clean (r : (server n cfg router services).Reach (Hosted.On (Clean cfg)) h) :
    (loop n cfg).Reach (Clean cfg) h.loop :=
  loop_of_hosted r

/-- On clean runs, whatever the workers do with their connections, the connections come
to it by their own steps. -/
theorem coupled_of_clean (r : (server n cfg router services).Reach (Hosted.On (Clean cfg)) h) :
    Coupled h.loop h.crowd ∧ (crowdMachine router services).Reachable h.crowd :=
  crowd_of_hosted (I := Coupled) (coupled_initial services)
    (fun reach kept clean hs hf => kept.step (kept_of_reach reach) clean hs hf)
    (fun inTurn _ kept hs => kept.turn inTurn hs)
    (fun reach kept clean hs => kept.ready_step (kept_of_reach reach) clean hs) r

/-- What the workers owe their connections, in a state of the server: whatever clean step
comes next, the handler is called only as its last action asks, and a connection that the
loop closes by itself is in no call; one that the handler is in is served by one worker;
and so the connections got where they are by their own steps. -/
structure Attends (cfg : Config) (router : SharedRouter ρ τ χ) (services : ρ)
    (h : Hosted (State n) ρ τ χ) : Prop where
  ready : ∀ l s', Clean cfg h.loop l → step cfg h.loop l = some s' →
    h.crowd.Ready (handling h.loop l)
  reads : ∀ w e k, h.loop.workers w = .reading e k →
    ∃ bytes, (h.crowd.guests k).stage = .reading bytes
  writes : ∀ w e k, h.loop.workers w = .writing e k →
    (h.crowd.guests k).stage = .parsing ∨ (h.crowd.guests k).stage = .writing
  one : ∀ w w' e e' k, (h.loop.workers w).serving = some (e, k) →
    (h.loop.workers w').serving = some (e', k) → w = w'
  own_steps : (crowdMachine router services).Reachable h.crowd

theorem workers_attend (r : (server n cfg router services).Reach (Hosted.On (Clean cfg)) h) :
    Attends cfg router services h := by
  have kept := kept_of_reach (loop_of_clean r)
  obtain ⟨hcoupled, hcrowd⟩ := coupled_of_clean r
  constructor
  · intro l s' clean hs
    exact hcoupled.ready_step kept clean hs
  · intro w e k pc
    have now := hcoupled.serving w e k (by rw [pc]; rfl)
    rw [pc] at now
    exact now
  · intro w e k pc
    have now := hcoupled.serving w e k (by rw [pc]; rfl)
    rw [pc] at now
    exact now
  · exact kept.singleOwner.alone
  · exact hcrowd

/-- The connection is armed for input, and the sweep is not closing it. -/
structure Listening (s : State n) (fd : Fd) (k : Sock) : Prop where
  isOpen : s.files fd = some k
  armed : s.epoll fd = .armed .epollin
  unswept : s.accepter.removing ≠ some fd

/-- On clean runs, where a connection is armed for input all that has arrived on it was
read, answered and sent, whichever workers did it, and what it was told are the replies its
calls of the router returned from their sections in the one order of the sections of all. -/
theorem dialogue_of_clean (r : (server n cfg router services).Reach (Hosted.On (Clean cfg)) h)
    {fd : Fd} {k : Sock} (listening : Listening h.loop fd k) :
    Dialogue router services h.crowd k := by
  obtain ⟨hcoupled, hcrowd⟩ := coupled_of_clean r
  exact dialogue hcrowd
    (hcoupled.armed fd k .epollin listening.armed listening.isOpen listening.unswept)

/-- A client connects and asks for the root; a worker tells it in two pieces that there
is no such page. -/
def rootAsked : List (HostLabel (Label 1) Unit) :=
  plainly (acceptSix ++ [.accepter .go, .accepter (.ready [firstReadable]), .accepter .go] ++
      works [.go, .go]) ++
    [.loop (.worker lone (.recv .data)) (.recv (.data oneRoot)),
      .loop (.worker lone (.recv .wouldBlock)) (.recv .wouldBlock)] ++
    plainly (works [.go]) ++ routed 0 () 7 ++ [.parse 0,
      .loop (.worker lone (.send .sent)) (.send (.accepted 20)),
      .loop (.worker lone (.send .sent)) (.send (.accepted 1000))] ++
    plainly (works [.flushed false, .go, .ctlMod true])

/-- The state in which the worker is in the parse loop. -/
def rootAskedMidway : Hosted (State 1) Unit (HttpRequest ⊕ HttpResponse) Unit :=
  ((server 1 {} noPagesShared ()).exec (server 1 {} noPagesShared ()).start (rootAsked.take 18)).get
    (by decide +kernel)

/-- The state in which the connection is armed again. -/
def rootAskedEnd : Hosted (State 1) Unit (HttpRequest ⊕ HttpResponse) Unit :=
  ((server 1 {} noPagesShared ()).exec (server 1 {} noPagesShared ()).start rootAsked).get
    (by decide +kernel)

theorem workers_attend_root :
    (rootAskedMidway.crowd.guests 0).stage = .parsing ∧
      Attends {} noPagesShared () rootAskedMidway :=
  ⟨by decide +kernel,
    workers_attend (.of_exec .start (by decide +kernel) (Option.some_get _).symm)⟩

theorem dialogue_of_clean_root :
    (rootAskedEnd.crowd.decided.map fun one => one.2.1.target) = [Base.ascii "/"] ∧
      Dialogue noPagesShared () rootAskedEnd.crowd 0 :=
  ⟨by decide +kernel,
    dialogue_of_clean (.of_exec .start (by decide +kernel) (Option.some_get _).symm)
      (⟨by decide +kernel, by decide +kernel, by decide +kernel⟩ : Listening _ 6 0)⟩

end WebServer.Pool
