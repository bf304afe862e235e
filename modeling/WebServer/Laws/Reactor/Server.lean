import WebServer.Laws.Reactor.Tables
import WebServer.Laws.Server.Dialogue
import WebServer.Laws.Server.EndOfStream
import WebServer.Laws.Server.Hosting
import WebServer.Reactor.Server
/-! # A reactor calls the handler when it is to be called

Nothing in the loop remembers which action the handler returned last: the epoll set
does. A connection that nobody serves waits for what it is registered for
(`Coupled.suits`), and the events not looked at yet are such as the registration asks
for (`Coupled.ahead`), so `onReadable` follows `WaitRead` and `onWritable` follows
`WaitWrite`, with any number of reactors and in every order of their steps. What is true
of connections side by side is therefore true of the server (`dialogue_of_server`).
-/

namespace WebServer.Reactors

open Pool (Fd Sock Interest Event Closing)

variable {m : Nat} {ρ : Type u} {τ : Type v} {χ : Type w} {cfg : Config m}
  {router : SharedRouter ρ τ χ} {s s' : State m} {i : Fin m} {crowd crowd' : Crowd ρ τ χ}

/-! ## Where a connection is -/

/-- A connection that nobody serves waits for what it is registered for, if it is. -/
def Rests (registered : Option Interest) (stage : Stage) : Prop :=
  ∃ action, stage = .waiting action ∧ ∀ interest, registered = some interest →
    action = interest.action

/-- What the place of a reactor says of a descriptor that it has in hand: how that is
registered, and where the handler is with the connection. -/
def Pc.hand : Pc → Fd → Option (Option Interest → Stage → Prop)
  | .insert _ fd' _, fd | .opened _ fd', fd | .register _ fd', fd =>
    if fd' = fd then some fun registered stage => registered = none ∧ stage = .waiting .waitRead
    else none
  | .reading _ e _, fd =>
    if e.fd = fd then some fun _ stage => ∃ bytes, stage = .reading bytes else none
  | .drained _ e _, fd =>
    if e.fd = fd then some fun _ stage => ∃ bytes, stage = .drained bytes else none
  | .writing _ e _, fd =>
    if e.fd = fd then some fun _ stage => stage = .parsing ∨ stage = .writing else none
  | .rearming _ e _ interest, fd =>
    if e.fd = fd then some fun _ stage => stage = .waiting interest.action else none
  | .closing _ _ _ .account, _ => none
  | .closing _ e _ _, fd => if e.fd = fd then some fun _ stage => stage = .waiting .close else none
  | .expire _ (fd' :: _) stage, fd =>
    if stage.owes ∧ fd' = fd then some fun _ stage => stage = .waiting .close else none
  | _, _ => none

/-- The stage of the descriptor's connection suits the reactor. -/
def Pc.Suits (pc : Pc) (fd : Fd) (registered : Option Interest) (stage : Stage) : Prop :=
  match pc.hand fd with
  | some fits => fits registered stage
  | none => Rests registered stage

/-- The events behind the one in hand. -/
def Pc.ahead : Pc → List Event
  | .dispatch batch | .accept batch | .insert batch _ _ | .opened batch _ | .register batch _
  | .reading batch _ _ | .drained batch _ _ | .writing batch _ _ | .rearming batch _ _ _
  | .closing batch _ _ _ => batch
  | _ => []

theorem Pc.suits_of_hand {pc : Pc} {fd : Fd} {fits : Option Interest → Stage → Prop}
    (hand : pc.hand fd = some fits) (registered : Option Interest) (stage : Stage) :
    pc.Suits fd registered stage ↔ fits registered stage := by
  rw [Suits, hand]

theorem Pc.suits_of_none {pc : Pc} {fd : Fd} (hand : pc.hand fd = none)
    (registered : Option Interest) (stage : Stage) :
    pc.Suits fd registered stage ↔ Rests registered stage := by
  rw [Suits, hand]

section Suits

variable {batch : List Event} {e : Event} {k : Sock} {registered : Option Interest} {stage : Stage}

theorem suits_reading :
    (Pc.reading batch e k).Suits e.fd registered stage ↔ ∃ bytes, stage = .reading bytes := by
  simp [Pc.Suits, Pc.hand]

theorem suits_drained :
    (Pc.drained batch e k).Suits e.fd registered stage ↔ ∃ bytes, stage = .drained bytes := by
  simp [Pc.Suits, Pc.hand]

theorem suits_writing :
    (Pc.writing batch e k).Suits e.fd registered stage ↔ stage = .parsing ∨ stage = .writing := by
  simp [Pc.Suits, Pc.hand]

theorem suits_rearming {interest : Interest} :
    (Pc.rearming batch e k interest).Suits e.fd registered stage ↔
      stage = .waiting interest.action := by
  simp [Pc.Suits, Pc.hand]

/-- The connection is in hand as a new one. -/
def New (pc : Pc) (fd : Fd) : Prop :=
  pc.hand fd = some fun registered stage => registered = none ∧ stage = .waiting .waitRead

theorem suits_new {pc : Pc} {fd : Fd} (new : New pc fd) :
    pc.Suits fd registered stage ↔ registered = none ∧ stage = .waiting .waitRead :=
  Pc.suits_of_hand new _ _

theorem hand_closing {closing : Closing} (owes : closing ≠ .account) :
    (Pc.closing batch e k closing).hand e.fd = some fun _ stage => stage = .waiting .close := by
  cases closing with
  | account => exact absurd rfl owes
  | _ => exact if_pos rfl

theorem suits_closing {closing : Closing} (owes : closing ≠ .account) :
    (Pc.closing batch e k closing).Suits e.fd registered stage ↔ stage = .waiting .close :=
  Pc.suits_of_hand (hand_closing owes) _ _

theorem hand_closing_of_ne {closing : Closing} {fd : Fd} (hfd : fd ≠ e.fd) :
    (Pc.closing batch e k closing).hand fd = none := by
  cases closing with
  | account => rfl
  | _ => exact if_neg hfd.symm

theorem hand_expire {at_ : Pool.Time} {fd : Fd} {fds : List Fd} {closing : Closing}
    (owes : closing.owes = true) :
    (Pc.expire at_ (fd :: fds) closing).hand fd = some fun _ stage => stage = .waiting .close :=
  if_pos ⟨owes, rfl⟩

theorem hand_expire_of_ne {at_ : Pool.Time} {fd fd' : Fd} {fds : List Fd} {closing : Closing}
    (hfd : fd' ≠ fd) : (Pc.expire at_ (fd :: fds) closing).hand fd' = none :=
  if_neg fun both => hfd both.2.symm

theorem hand_expire_idle {at_ : Pool.Time} {fds : List Fd} {closing : Closing} {fd : Fd}
    (idle : closing.owes = false) : (Pc.expire at_ fds closing).hand fd = none := by
  cases fds with
  | nil => rfl
  | cons fd' fds => exact if_neg fun both => by simp [idle] at both

theorem suits_act {action : Action} :
    (act batch e k action).Suits e.fd registered stage ↔ stage = .waiting action := by
  cases action with
  | waitRead => exact suits_rearming
  | waitWrite => exact suits_rearming
  | close => exact suits_closing (by simp)

end Suits

theorem Pc.ahead_events (pc : Pc) : pc.ahead.Sublist pc.events := by
  cases pc with
  | reading | drained | writing | rearming => exact List.sublist_cons_self _ _
  | closing batch e k stage =>
    cases stage with
    | account => exact .refl _
    | _ => exact List.sublist_cons_self _ _
  | _ => exact .refl _

/-- The reactors and the connections go together: a socket not accepted yet is new to
the handler, an open one is where its reactor takes it to be, and the events to come are
such as their registrations ask for. -/
structure Coupled (s : State m) (crowd : Crowd ρ τ χ) : Prop where
  fresh : ∀ k, s.next ≤ k → crowd.Waits k .waitRead
  suits : ∀ i fd k, (s.reactors i).Claims fd → s.files fd = some k →
    (s.reactors i).pc.Suits fd (s.epoll i fd) (crowd.guests k).stage
  ahead : ∀ i e k, e ∈ (s.reactors i).pc.ahead → e.raisedFor = some k →
    ∃ interest, s.epoll i e.fd = some interest ∧ interest.reports e.events = true

theorem coupled_initial (server : ρ) : Coupled (State.initial m) ({ server } : Crowd ρ τ χ) where
  fresh k _ := rfl
  suits i fd k _ hk := by cases hk
  ahead i e k he := by cases he

/-- A step of the reactor `i` with descriptors that no other reactor is charged with. -/
theorem Coupled.move (h : Coupled s crowd) (owned : Owned cfg s) (touched : Fd → Prop)
    (reactors : ∀ j, j ≠ i → s'.reactors j = s.reactors j)
    (apart : ∀ j fd, j ≠ i → touched fd → ¬ (s.reactors j).Claims fd)
    (claims : ∀ fd, ¬ touched fd → (s'.reactors i).Claims fd → (s.reactors i).Claims fd)
    (files : ∀ fd, ¬ touched fd → s'.files fd = s.files fd)
    (epoll : ∀ j fd, ¬ touched fd → s'.epoll j fd = s.epoll j fd)
    (hands : ∀ fd, ¬ touched fd →
      (s.reactors i).pc.hand fd = none ∧ (s'.reactors i).pc.hand fd = none)
    (stages : ∀ k, (∀ fd, touched fd → s.files fd ≠ some k) → k < s.next →
      (crowd'.guests k).stage = (crowd.guests k).stage)
    (fresh : ∀ k, s'.next ≤ k → crowd'.Waits k .waitRead)
    (here : ∀ fd k, touched fd → (s'.reactors i).Claims fd → s'.files fd = some k →
      (s'.reactors i).pc.Suits fd (s'.epoll i fd) (crowd'.guests k).stage)
    (ahead : ∀ e ∈ (s'.reactors i).pc.ahead, e.raisedFor ≠ none →
      e ∈ (s.reactors i).pc.ahead ∧ ¬ touched e.fd) : Coupled s' crowd' := by
  -- a connection under another number is as it was
  have same : ∀ fd k, ¬ touched fd → s.files fd = some k →
      (crowd'.guests k).stage = (crowd.guests k).stage := by
    intro fd k hfd hk
    refine stages k (fun fd' hfd' hk' => hfd ?_) (owned.fresh fd k hk)
    exact owned.injective fd fd' k hk hk' ▸ hfd'
  constructor
  · exact fresh
  · intro j fd k hc hk
    by_cases hj : j = i
    · subst hj
      by_cases hfd : touched fd
      · exact here fd k hfd hc hk
      · rw [files fd hfd] at hk
        have old := h.suits j fd k (claims fd hfd hc) hk
        rw [Pc.suits_of_none (hands fd hfd).1] at old
        rw [Pc.suits_of_none (hands fd hfd).2, epoll j fd hfd, same fd k hfd hk]
        exact old
    · rw [reactors j hj] at hc ⊢
      have hfd : ¬ touched fd := fun hfd => apart j fd hj hfd hc
      rw [files fd hfd] at hk
      rw [epoll j fd hfd, same fd k hfd hk]
      exact h.suits j fd k hc hk
  · intro j e k he hk
    by_cases hj : j = i
    · subst hj
      obtain ⟨old, hfd⟩ := ahead e he (by rw [hk]; exact Option.some_ne_none k)
      rw [epoll j e.fd hfd]
      exact h.ahead j e k old hk
    · rw [reactors j hj] at he
      have hc := ((owned.held j).raised e k ((s.reactors j).pc.ahead_events.subset he) hk).2
      rw [epoll j e.fd fun hfd => apart j e.fd hj hfd hc]
      exact h.ahead j e k he hk

/-- The reactor has nothing in hand before the step or after it. -/
theorem Coupled.pass (h : Coupled s crowd) (owned : Owned cfg s) {pc : Pc} {r : Reactor}
    (here : (s.reactors i).pc = pc) (reactors : s'.reactors = Function.update s.reactors i r)
    (files : s'.files = s.files) (epoll : s'.epoll = s.epoll) (next : s'.next = s.next)
    (connections : r.connections = (s.reactors i).connections)
    (inserting : r.pc.inserting = pc.inserting) (removing : r.pc.removing = pc.removing)
    (before : ∀ fd, pc.hand fd = none) (after : ∀ fd, r.pc.hand fd = none)
    (ahead : r.pc.ahead.Sublist pc.ahead) : Coupled s' crowd := by
  have there : s'.reactors i = r := by
    rw [reactors, Function.update_self]
  subst here
  refine h.move (i := i) owned (fun _ => False) ?_ ?_ ?_ ?_ ?_ ?_ ?_ ?_ ?_ ?_
  · intro j hj
    rw [reactors, Function.update_of_ne hj]
  · exact fun _ _ _ hfd => hfd.elim
  · intro fd _ hc
    rw [there] at hc
    unfold Reactor.Claims at hc ⊢
    rwa [connections, inserting, removing] at hc
  · intro fd _
    rw [files]
  · intro j fd _
    rw [epoll]
  · intro fd _
    rw [there]
    exact ⟨before fd, after fd⟩
  · exact fun _ _ _ => rfl
  · intro k hk
    exact h.fresh k (next ▸ hk)
  · exact fun _ _ hfd => hfd.elim
  · intro e he _
    rw [there] at he
    exact ⟨ahead.subset he, id⟩

/-- The handler goes on with the connection it has: nothing is opened, closed or
registered. -/
theorem Coupled.serve (h : Coupled s crowd) (owned : Owned cfg s) {pc : Pc} {e : Event} {k : Sock}
    (reactors : s'.reactors = Function.update s.reactors i { s.reactors i with pc := pc })
    (files : s'.files = s.files) (epoll : s'.epoll = s.epoll) (next : s'.next = s.next)
    (isOpen : s.files e.fd = some k) (charged : (s.reactors i).Claims e.fd)
    (inserting : pc.inserting = (s.reactors i).pc.inserting)
    (removing : pc.removing = (s.reactors i).pc.removing)
    (before : ∀ fd, fd ≠ e.fd → (s.reactors i).pc.hand fd = none)
    (after : ∀ fd, fd ≠ e.fd → pc.hand fd = none)
    (others : ∀ k', k' ≠ k → crowd'.guests k' = crowd.guests k')
    (suits : pc.Suits e.fd (s.epoll i e.fd) (crowd'.guests k).stage)
    (ahead : pc.ahead.Sublist (s.reactors i).pc.ahead)
    (apart : ∀ e' ∈ pc.ahead, e'.fd ≠ e.fd) : Coupled s' crowd' := by
  have here : s'.reactors i = { s.reactors i with pc := pc } := by
    rw [reactors, Function.update_self]
  have hnext : k < s.next := owned.fresh e.fd k isOpen
  refine h.move (i := i) owned (· = e.fd) ?_ ?_ ?_ ?_ ?_ ?_ ?_ ?_ ?_ ?_
  · intro j hj
    rw [reactors, Function.update_of_ne hj]
  · rintro j fd hj rfl hc
    exact hj (owned.exclusive j i _ hc charged)
  · intro fd _ hc
    rw [here] at hc
    exact (Reactor.claims_setPc inserting removing fd).mp hc
  · intro fd _
    rw [files]
  · intro j fd _
    rw [epoll]
  · intro fd hfd
    rw [here]
    exact ⟨before fd hfd, after fd hfd⟩
  · intro k' hk' _
    rw [others k']
    rintro rfl
    exact hk' e.fd rfl isOpen
  · intro k' hk'
    rw [next] at hk'
    show (crowd'.guests k').stage = _
    rw [others k' (Nat.ne_of_gt (Nat.lt_of_lt_of_le hnext hk'))]
    exact h.fresh k' hk'
  · rintro fd k' rfl _ hk'
    rw [files, isOpen, Option.some.injEq] at hk'
    subst hk'
    rw [here, epoll]
    exact suits
  · intro e' he' _
    rw [here] at he'
    exact ⟨ahead.subset he', apart e' he'⟩

/-- The reactor takes a new connection in, or rearms one: nothing is opened or closed,
and the handler is not called. -/
theorem Coupled.register (h : Coupled s crowd) (owned : Owned cfg s) {r : Reactor} {fd : Fd}
    (charged : (s.reactors i).Claims fd) (reactors : s'.reactors = Function.update s.reactors i r)
    (files : s'.files = s.files) (next : s'.next = s.next)
    (epoll : ∀ j fd', fd' ≠ fd → s'.epoll j fd' = s.epoll j fd')
    (claims : ∀ fd', r.Claims fd' → (s.reactors i).Claims fd')
    (before : ∀ fd', fd' ≠ fd → (s.reactors i).pc.hand fd' = none)
    (after : ∀ fd', fd' ≠ fd → r.pc.hand fd' = none)
    (here : ∀ k, s.files fd = some k → r.pc.Suits fd (s'.epoll i fd) (crowd.guests k).stage)
    (ahead : r.pc.ahead.Sublist (s.reactors i).pc.ahead)
    (apart : ∀ e ∈ r.pc.ahead, e.raisedFor ≠ none → e.fd ≠ fd) : Coupled s' crowd := by
  have there : s'.reactors i = r := by
    rw [reactors, Function.update_self]
  refine h.move (i := i) owned (· = fd) ?_ ?_ ?_ ?_ epoll ?_ ?_ ?_ ?_ ?_
  · intro j hj
    rw [reactors, Function.update_of_ne hj]
  · rintro j _ hj rfl hc
    exact hj (owned.exclusive j i _ hc charged)
  · intro fd' _ hc
    exact claims fd' (there ▸ hc)
  · intro fd' _
    rw [files]
  · intro fd' hfd
    rw [there]
    exact ⟨before fd' hfd, after fd' hfd⟩
  · exact fun _ _ _ => rfl
  · intro k hk
    exact h.fresh k (next ▸ hk)
  · rintro _ k rfl _ hk
    rw [there]
    exact here k (files ▸ hk)
  · intro e he hr
    rw [there] at he
    exact ⟨ahead.subset he, apart e he hr⟩

/-- The events to come are for connections that are registered already. -/
theorem Coupled.apart (h : Coupled s crowd) {fd : Fd} (absent : s.epoll i fd = none) {e : Event}
    (he : e ∈ (s.reactors i).pc.ahead) (hr : e.raisedFor ≠ none) : e.fd ≠ fd := by
  rintro rfl
  obtain ⟨k, hk⟩ := Option.ne_none_iff_exists'.mp hr
  obtain ⟨interest, hregistered, -⟩ := h.ahead i e k he hk
  rw [absent] at hregistered
  cases hregistered

theorem setEpoll_self (fd : Fd) (interest : Option Interest) :
    (s.setEpoll i fd interest).epoll i fd = interest := by
  simp [State.setEpoll]

theorem setEpoll_of_ne {fd fd' : Fd} (interest : Option Interest) (s : State m) (j : Fin m)
    (hfd : fd' ≠ fd) : (s.setEpoll i fd interest).epoll j fd' = s.epoll j fd' := by
  simp only [State.setEpoll, Function.update_apply]
  split
  case isTrue same => rw [Function.update_of_ne hfd, same]
  case isFalse => rfl

/-- A connection that the reactor takes in is not registered yet, and new to the handler. -/
theorem Coupled.new (h : Coupled s crowd) (owned : Owned cfg s) {fd : Fd}
    (charged : (s.reactors i).Claims fd) (new : New (s.reactors i).pc fd) :
    s.epoll i fd = none ∧ ∀ k, s.files fd = some k →
      s.epoll i fd = none ∧ (crowd.guests k).stage = .waiting .waitRead := by
  have here : ∀ k, s.files fd = some k →
      s.epoll i fd = none ∧ (crowd.guests k).stage = .waiting .waitRead :=
    fun k hk => (suits_new new).mp (h.suits i fd k charged hk)
  obtain ⟨k, hk⟩ := Option.ne_none_iff_exists'.mp (owned.live i fd charged)
  exact ⟨(here k hk).1, here⟩

/-- A call of `closeConnection(fd)` by the reactor that is charged with the descriptor. -/
theorem Coupled.call (h : Coupled s crowd) (owned : Owned cfg s) {t : State m} {fd : Fd}
    {stage next : Closing} {pc : Pc} (call : closeConnection s i fd stage = (t, some next))
    (charged : (s.reactors i).Claims fd) (inserting : pc.inserting = none)
    (removing : pc.removing = if next.owes then some fd else none)
    (before : ∀ fd', fd' ≠ fd → (s.reactors i).pc.hand fd' = none)
    (after : ∀ fd', fd' ≠ fd → pc.hand fd' = none)
    (hand : next ≠ .account → pc.hand fd = some fun _ stage => stage = .waiting .close)
    (others : ∀ k, s.files fd ≠ some k → crowd'.guests k = crowd.guests k)
    (closes : ∀ k, s.files fd = some k → crowd'.Waits k .close)
    (ahead : pc.ahead.Sublist (s.reactors i).pc.ahead) (apart : ∀ e ∈ pc.ahead, e.fd ≠ fd) :
    Coupled (t.setPc i pc) crowd' := by
  obtain ⟨reactors, -, hnext, -⟩ := closeConnection_frame call
  obtain ⟨opens, files, enters⟩ := closeConnection_less call
  have epoll : ∀ j fd', fd' ≠ fd → t.epoll j fd' = s.epoll j fd' := by
    obtain ⟨rfl, rfl⟩ | ⟨rfl, rfl⟩ | ⟨rfl, rfl⟩ := closeConnection_some call
    · simp only [closeConnection] at call
      split at call <;> cases call
      exact fun _ _ _ => rfl
    · cases call
      exact fun j fd' hfd => setEpoll_of_ne none s j hfd
    · cases call
      exact fun j fd' hfd => Function.update_of_ne hfd _ _
  refine h.move (i := i) owned (· = fd) ?_ ?_ ?_ ?_ ?_ ?_ ?_ ?_ ?_ ?_
  · intro j hj
    rw [setPc_of_ne t pc hj, reactors j hj]
  · rintro j _ hj rfl hc
    exact hj (owned.exclusive j i _ hc charged)
  · intro fd' hfd hc
    rw [setPc_self] at hc
    obtain mem | ⟨k, hk⟩ | hr := hc
    · obtain ⟨k, hk⟩ := Option.isSome_iff_exists.mp (AList.lookup_isSome.mpr mem)
      exact .inl (AList.lookup_isSome.mp (by rw [enters fd' k hk]; rfl))
    · rw [inserting] at hk
      cases hk
    · simp only [removing] at hr
      split at hr
      · exact absurd (Option.some.inj hr).symm hfd
      · cases hr
  · exact fun fd' hfd => files fd' hfd
  · exact fun j fd' hfd => epoll j fd' hfd
  · intro fd' hfd
    rw [setPc_self]
    exact ⟨before fd' hfd, after fd' hfd⟩
  · intro k hk _
    rw [others k (hk fd rfl)]
  · intro k hk
    have hk : s.next ≤ k := hnext ▸ hk
    show (crowd'.guests k).stage = _
    rw [others k]
    · exact h.fresh k hk
    · exact fun hopen => Nat.not_le_of_gt (owned.fresh fd k hopen) hk
  · rintro fd' k rfl _ hk
    have hopen := opens fd' k hk
    rw [setPc_self]
    refine (Pc.suits_of_hand (hand ?_) _ _).mpr (closes k hopen)
    -- a closed descriptor is nobody's
    rintro rfl
    obtain ⟨-, hn⟩ | ⟨-, hn⟩ | ⟨rfl, -⟩ := closeConnection_some call
    · cases hn
    · cases hn
    · cases call
      have hclosed : (s.closeFd fd').files fd' = none := Function.update_self ..
      rw [show ((s.closeFd fd').setPc i pc).files fd' = none from hclosed] at hk
      cases hk
  · intro e he _
    rw [setPc_self] at he
    exact ⟨ahead.subset he, apart e he⟩

/-! ## The event in hand -/

theorem Pc.Serves.hand {pc : Pc} {batch : List Event} {e : Event} {k : Sock}
    (h : pc.Serves batch e k) {fd : Fd} (hfd : fd ≠ e.fd) : pc.hand fd = none := by
  have hs := h.serving
  cases pc with
  | reading | drained | writing | rearming =>
    cases hs
    exact if_neg hfd.symm
  | closing batch e' k' stage =>
    cases stage with
    | account => cases hs
    | _ =>
      cases hs
      exact if_neg hfd.symm
  | _ => cases hs

theorem Pc.Serves.ahead {pc : Pc} {batch : List Event} {e : Event} {k : Sock}
    (h : pc.Serves batch e k) : pc.ahead = batch := by
  have hs := h.serving
  have he := h.events
  cases pc with
  | reading | drained | writing | rearming => exact (List.cons.inj he).2
  | closing batch e' k' stage =>
    cases stage with
    | account => cases hs
    | _ => exact (List.cons.inj he).2
  | _ => cases hs

/-- The number in hand is not in the batch again. -/
theorem Pc.Serves.apart {batch : List Event} {e : Event} {k : Sock}
    (h : (s.reactors i).pc.Serves batch e k) (owned : Owned cfg s) {e' : Event} (he : e' ∈ batch) :
    e'.fd ≠ e.fd := by
  intro same
  have distinct := (owned.held i).distinct
  rw [h.events, List.map_cons, List.nodup_cons] at distinct
  exact distinct.1 (same ▸ List.mem_map_of_mem he)

/-- A reactor that serves a connection goes on with it. -/
theorem Coupled.goOn (h : Coupled s crowd) (owned : Owned cfg s) {batch : List Event} {e : Event}
    {k : Sock} {pc pc' : Pc} {call : LoopCall} {io : IoResult} (here : (s.reactors i).pc = pc)
    (before : pc.Serves batch e k) (after : pc'.Serves batch e k)
    (reactors : s'.reactors = Function.update s.reactors i { s.reactors i with pc := pc' })
    (files : s'.files = s.files) (epoll : s'.epoll = s.epoll) (next : s'.next = s.next)
    (hf : crowd.follow router call io = some crowd') (subject : call.subject = some k)
    (suits : pc'.Suits e.fd (s.epoll i e.fd) (crowd'.guests k).stage) : Coupled s' crowd' := by
  subst here
  obtain ⟨-, isOpen, charged⟩ := owned.applied before.serving
  refine h.serve owned reactors files epoll next isOpen charged ?_ ?_ ?_ ?_ ?_ suits ?_ ?_
  · rw [after.inserting, before.inserting]
  · rw [after.removing, before.removing]
  · exact fun fd hfd => before.hand hfd
  · exact fun fd hfd => after.hand hfd
  · intro k' hk
    refine follow_others hf ?_
    rw [subject]
    exact fun same => hk (Option.some.inj same).symm
  · rw [after.ahead, before.ahead]
  · intro e' he'
    rw [after.ahead] at he'
    exact before.apart owned he'

/-- Where the handler is with the connection served. -/
theorem Coupled.served (h : Coupled s crowd) (owned : Owned cfg s) {batch : List Event} {e : Event}
    {k : Sock} {pc : Pc} (here : (s.reactors i).pc = pc) (serves : pc.Serves batch e k) :
    pc.Suits e.fd (s.epoll i e.fd) (crowd.guests k).stage := by
  subst here
  obtain ⟨-, isOpen, charged⟩ := owned.applied serves.serving
  exact h.suits i e.fd k charged isOpen

/-- The connection of an event that the loop comes to, and what it waits for. -/
theorem Coupled.finds (h : Coupled s crowd) (owned : Owned cfg s) {e : Event} {batch : List Event}
    {k : Sock} (pc : (s.reactors i).pc = .dispatch (e :: batch)) (notStop : e.fd ≠ cfg.stopFd i)
    (notListen : e.fd ≠ cfg.listenFd i)
    (found : (s.reactors i).connections.lookup e.fd = some k) :
    s.files e.fd = some k ∧ (s.reactors i).Claims e.fd ∧
      ∃ interest : Interest, interest.reports e.events = true ∧ crowd.Waits k interest.action := by
  have hmem : e ∈ (s.reactors i).pc.events := by simp [pc, Pc.events]
  cases hr : e.raisedFor with
  | none =>
    rcases (owned.held i).own e hmem hr with own | own
    · exact absurd own notStop
    · exact absurd own notListen
  | some k' =>
    obtain ⟨hopen, hcharged⟩ := (owned.held i).raised e k' hmem hr
    have hk : k' = k := Option.some.inj ((owned.finds pc hr).2.symm.trans found)
    subst hk
    obtain ⟨interest, hregistered, hreports⟩ :=
      h.ahead i e k' (by simp [pc, Pc.ahead]) hr
    have hsuits := h.suits i e.fd k' hcharged hopen
    rw [Pc.suits_of_none (by rw [pc]; rfl)] at hsuits
    obtain ⟨action, hstage, hawaits⟩ := hsuits
    exact ⟨hopen, hcharged, interest, hreports, hawaits interest hregistered ▸ hstage⟩

/-- Where the loop enters is where the handler is then. -/
theorem suits_entered {batch : List Event} {e : Event} {k : Sock} {io : IoResult}
    (hf : crowd.follow router (LoopCall.of e k) io = some crowd') (registered : Option Interest) :
    (enter batch e k).Suits e.fd registered (crowd'.guests k).stage := by
  unfold LoopCall.of at hf
  unfold enter
  split
  next hup =>
    rw [if_pos hup] at hf
    exact (suits_closing (by simp)).mpr (follow_giveUp hf)
  next hquiet =>
    rw [if_neg hquiet] at hf
    split
    next hout =>
      rw [if_pos hout] at hf
      exact suits_writing.mpr (.inr (follow_onWritable hf))
    next hout =>
      rw [if_neg hout] at hf
      exact suits_reading.mpr ⟨[], follow_onReadable hf⟩

/-- A connection that was just accepted is nobody's yet. -/
theorem Coupled.accept (h : Coupled s crowd) (owned : Owned cfg s) {batch : List Event} {fd : Fd}
    (pc : (s.reactors i).pc = .accept batch) (free : s.files fd = none) :
    Coupled ({ s with
      files := Function.update s.files fd (some s.next)
      next := s.next + 1 }.setPc i (.insert batch fd s.next)) crowd := by
  have absent : s.epoll i fd = none := by
    by_contra hne
    obtain mem | hr := (owned.held i).registered fd hne
    · exact owned.live i fd (.inl mem) free
    · exact owned.live i fd (.inr (.inr hr)) free
  refine h.move (i := i) owned (· = fd) ?_ ?_ ?_ ?_ ?_ ?_ ?_ ?_ ?_ ?_
  · exact fun j hj => setPc_of_ne _ _ hj
  · rintro j _ - rfl hc
    exact owned.live j _ hc free
  · intro fd' hfd hc
    rw [setPc_self] at hc
    obtain mem | ⟨k, hk⟩ | hr := hc
    · exact .inl mem
    · cases hk
      exact absurd rfl hfd
    · cases hr
  · exact fun fd' hfd => Function.update_of_ne hfd _ _
  · exact fun _ _ _ => rfl
  · intro fd' hfd
    rw [setPc_self, pc]
    exact ⟨rfl, if_neg (Ne.symm hfd)⟩
  · exact fun _ _ _ => rfl
  · exact fun k hk => h.fresh k (Nat.le_of_succ_le hk)
  · rintro fd' k rfl _ hk
    have hk : Function.update s.files fd' (some s.next) fd' = some k := hk
    rw [Function.update_self, Option.some.injEq] at hk
    subst hk
    rw [setPc_self]
    exact (suits_new (by exact if_pos rfl)).mpr ⟨absent, h.fresh _ (Nat.le_refl _)⟩
  · intro e he hr
    rw [setPc_self] at he
    refine ⟨by rw [pc]; exact he, ?_⟩
    rintro rfl
    obtain ⟨k, hk⟩ := Option.ne_none_iff_exists'.mp hr
    obtain ⟨interest, hregistered, -⟩ := h.ahead i e k (by rw [pc]; exact he) hk
    rw [absent] at hregistered
    cases hregistered

/-- A batch is of events that the registrations ask for. -/
theorem Coupled.ready (h : Coupled s crowd) {batch : List Event} (pc : (s.reactors i).pc = .wait)
    (deliver : ∀ e ∈ batch, deliverable cfg s i e) :
    Coupled (s.setPc i (.dispatch batch)) crowd := by
  constructor
  · exact h.fresh
  · intro j fd k hc hk
    by_cases hj : j = i
    · subst hj
      rw [setPc_self] at hc ⊢
      have hc := (Reactor.claims_setPc (by rw [pc]; rfl) (by rw [pc]; rfl) fd).mp hc
      have old := h.suits j fd k hc hk
      rw [pc] at old
      exact old
    · rw [setPc_of_ne s _ hj] at hc ⊢
      exact h.suits j fd k hc hk
  · intro j e k he hk
    by_cases hj : j = i
    · subst hj
      rw [setPc_self] at he
      have hdeliver := deliver e he
      simp only [deliverable, hk, Bool.and_eq_true, decide_eq_true_eq, Option.any_eq_true]
        at hdeliver
      exact hdeliver.2
    · rw [setPc_of_ne s _ hj] at he
      exact h.ahead j e k he hk

/-- The reactor stays where it is. -/
theorem update_pc_self (pc : Pc) (hpc : (s.reactors i).pc = pc) :
    s.reactors = Function.update s.reactors i { s.reactors i with pc := pc } := by
  rw [← hpc]
  exact (Function.update_eq_self i s.reactors).symm

/-! ## The moves -/

section Moves

variable {batch : List Event} {e : Event} {k : Sock} {pc : Pc} {io : IoResult}

theorem reading_serves (batch : List Event) (e : Event) (k : Sock) :
    (Pc.reading batch e k).Serves batch e k :=
  ⟨rfl, rfl, rfl, rfl, rfl⟩

theorem drained_serves (batch : List Event) (e : Event) (k : Sock) :
    (Pc.drained batch e k).Serves batch e k :=
  ⟨rfl, rfl, rfl, rfl, rfl⟩

theorem writing_serves (batch : List Event) (e : Event) (k : Sock) :
    (Pc.writing batch e k).Serves batch e k :=
  ⟨rfl, rfl, rfl, rfl, rfl⟩

theorem rearming_serves (batch : List Event) (e : Event) (k : Sock) (interest : Interest) :
    (Pc.rearming batch e k interest).Serves batch e k :=
  ⟨rfl, rfl, rfl, rfl, rfl⟩

/-- The loop comes to the event of a connection it knows. -/
theorem Coupled.entered (h : Coupled s crowd) (owned : Owned cfg s)
    (here : (s.reactors i).pc = .dispatch (e :: batch)) (notStop : e.fd ≠ cfg.stopFd i)
    (notListen : e.fd ≠ cfg.listenFd i)
    (found : (s.reactors i).connections.lookup e.fd = some k)
    (hf : crowd.follow router (LoopCall.of e k) io = some crowd') :
    Coupled (s.setPc i (enter batch e k)) crowd' := by
  obtain ⟨isOpen, charged, -⟩ := h.finds owned here notStop notListen found
  have entered := enter_serves batch e k
  refine h.serve owned (e := e) (k := k) rfl rfl rfl rfl isOpen charged ?_ ?_
    (fun fd _ => by rw [here]; rfl) (fun fd hfd => entered.hand hfd) ?_ (suits_entered hf _) ?_ ?_
  · rw [entered.inserting, here]
    rfl
  · rw [entered.removing, here]
    rfl
  · intro k' hk
    refine follow_others hf ?_
    rw [subject_of]
    exact fun same => hk (Option.some.inj same).symm
  · rw [entered.ahead, here]
    exact List.sublist_cons_self _ _
  · intro e' he' same
    rw [entered.ahead] at he'
    have distinct := (owned.held i).distinct
    rw [here] at distinct
    exact (List.nodup_cons.mp distinct).1 (same ▸ List.mem_map_of_mem he')

/-- A step of the accept loop with a connection that is new to the handler. -/
theorem Coupled.take (h : Coupled s crowd) (owned : Owned cfg s) {r : Reactor} {fd : Fd}
    (here : (s.reactors i).pc = pc) (charged : (s.reactors i).Claims fd) (new : New pc fd)
    (reactors : s'.reactors = Function.update s.reactors i r) (files : s'.files = s.files)
    (next : s'.next = s.next) (epoll : ∀ j fd', fd' ≠ fd → s'.epoll j fd' = s.epoll j fd')
    (claims : ∀ fd', r.Claims fd' → (s.reactors i).Claims fd')
    (before : ∀ fd', fd' ≠ fd → pc.hand fd' = none)
    (after : ∀ fd', fd' ≠ fd → r.pc.hand fd' = none)
    (suits : ∀ stage : Stage, s.epoll i fd = none → stage = .waiting .waitRead →
      r.pc.Suits fd (s'.epoll i fd) stage)
    (ahead : r.pc.ahead = pc.ahead) : Coupled s' crowd := by
  subst here
  have fresh := h.new owned charged new
  refine h.register owned charged reactors files next epoll claims before after ?_ ?_ ?_
  · exact fun k' hk' => suits _ fresh.1 (fresh.2 k' hk').2
  · rw [ahead]
  · intro e' he' hr
    rw [ahead] at he'
    exact h.apart fresh.1 he' hr

/-- The new connection goes into the table. -/
theorem Coupled.insert (h : Coupled s crowd) (owned : Owned cfg s) {fd : Fd}
    (here : (s.reactors i).pc = .insert batch fd k) :
    Coupled ({ s with
      objects := Function.update s.objects k { fd := fd, lastActive := s.now } }.setReactor i
        { s.reactors i with
          connections := (s.reactors i).connections.insert fd k
          pc := .opened batch fd }) crowd := by
  have charged : (s.reactors i).Claims fd := .inr (.inl ⟨k, by rw [here]; rfl⟩)
  refine h.take owned here charged (if_pos rfl) rfl rfl rfl (fun _ _ _ => rfl) ?_
    (fun fd' hfd => if_neg hfd.symm) (fun fd' hfd => if_neg hfd.symm)
    (fun stage absent fresh => (suits_new (by exact if_pos rfl)).mpr ⟨absent, fresh⟩) rfl
  rintro fd' (mem | ⟨k', hk'⟩ | hr)
  · rw [AList.mem_insert] at mem
    obtain rfl | mem := mem
    · exact charged
    · exact .inl mem
  · cases hk'
  · cases hr

/-- `epoll_ctl` has added the new connection, or has not: `acceptReady` goes on. -/
theorem Coupled.added (h : Coupled s crowd) (owned : Owned cfg s) {fd : Fd}
    (here : (s.reactors i).pc = .register batch fd)
    (reactors : s'.reactors =
      Function.update s.reactors i { s.reactors i with pc := .accept batch })
    (files : s'.files = s.files) (next : s'.next = s.next)
    (epoll : ∀ j fd', fd' ≠ fd → s'.epoll j fd' = s.epoll j fd')
    (registered : s.epoll i fd = none → ∀ interest, s'.epoll i fd = some interest →
      interest = .epollin) : Coupled s' crowd := by
  have charged : (s.reactors i).Claims fd :=
    .inl ((owned.held i).registering fd (by rw [here]; rfl))
  refine h.take owned here charged (if_pos rfl) reactors files next epoll
    (fun fd' hc => (Reactor.claims_setPc (by rw [here]; rfl) (by rw [here]; rfl) fd').mp hc)
    (fun fd' hfd => if_neg hfd.symm) (fun fd' hfd => rfl) ?_ rfl
  intro stage absent fresh
  refine (Pc.suits_of_none rfl _ _).mpr ⟨.waitRead, fresh, ?_⟩
  intro interest hregistered
  rw [registered absent interest hregistered]
  rfl

/-- `epoll_ctl` has rearmed the connection. -/
theorem Coupled.rearmed (h : Coupled s crowd) (owned : Owned cfg s) {interest : Interest}
    (here : (s.reactors i).pc = .rearming batch e k interest) :
    Coupled ((s.setEpoll i e.fd (some interest)).setPc i (.dispatch batch)) crowd := by
  have serves : (s.reactors i).pc.Serves batch e k := here ▸ rearming_serves batch e k interest
  obtain ⟨-, isOpen, charged⟩ := owned.applied serves.serving
  have now := suits_rearming.mp (h.served owned here (rearming_serves batch e k interest))
  refine h.register owned charged rfl rfl rfl ?_
    (fun fd' hc => (Reactor.claims_setPc (by rw [here]; rfl) (by rw [here]; rfl) fd').mp hc)
    (fun fd' hfd => serves.hand hfd) (fun fd' hfd => rfl) ?_ (by rw [serves.ahead]; exact .refl _)
    (fun e' he' _ => serves.apart owned he')
  · exact fun j fd' hfd => setEpoll_of_ne _ _ j hfd
  · intro k' hk'
    rw [isOpen, Option.some.injEq] at hk'
    subst hk'
    refine (Pc.suits_of_none rfl _ _).mpr ⟨interest.action, now, ?_⟩
    intro interest' hregistered
    rw [show ((s.setEpoll i e.fd (some interest)).setPc i (.dispatch batch)).epoll i e.fd =
      some interest from setEpoll_self _ _] at hregistered
    cases hregistered
    rfl

/-- The serving reactor is closing the connection. -/
theorem Coupled.closing (h : Coupled s crowd) (owned : Owned cfg s) {stage next : Closing}
    {t : State m} (here : (s.reactors i).pc = .closing batch e k stage)
    (call : closeConnection s i e.fd stage = (t, some next)) :
    Coupled (t.setPc i (.closing batch e k next)) crowd := by
  have live : stage ≠ .account := by
    rintro rfl
    cases call
  have serving : (s.reactors i).pc.serving = some (e, k) := by
    rw [here]
    cases stage with
    | account => exact absurd rfl live
    | _ => rfl
  have events : (s.reactors i).pc.events = e :: batch := by
    rw [here]
    cases stage with
    | account => exact absurd rfl live
    | _ => rfl
  obtain ⟨-, isOpen, charged⟩ := owned.applied serving
  have now := h.suits i e.fd k charged isOpen
  rw [here, suits_closing live] at now
  refine h.call owned call charged rfl rfl
    (fun fd' hfd => by rw [here]; exact hand_closing_of_ne hfd)
    (fun fd' hfd => hand_closing_of_ne hfd) hand_closing (fun _ _ => rfl) ?_
    (by rw [here]; exact .refl _) ?_
  · intro k' hk'
    rw [isOpen, Option.some.injEq] at hk'
    exact hk' ▸ now
  · intro e' he' same
    have distinct := (owned.held i).distinct
    rw [events, List.map_cons, List.nodup_cons] at distinct
    exact distinct.1 (same ▸ List.mem_map_of_mem he')

/-- The connection in hand is closed, and counted. -/
theorem Coupled.closed (h : Coupled s crowd) (owned : Owned cfg s) {stage : Closing}
    {t : State m} (here : (s.reactors i).pc = .closing batch e k stage)
    (call : closeConnection s i e.fd stage = (t, none)) :
    Coupled (t.setPc i (.dispatch batch)) crowd := by
  obtain rfl | rfl := closeConnection_none call
  · -- the connection in hand is in the table
    have serving : (s.reactors i).pc.serving = some (e, k) := by
      rw [here]
      rfl
    obtain ⟨-, -, charged⟩ := owned.applied serving
    have mem : e.fd ∈ (s.reactors i).connections := by
      simpa [Reactor.Claims, here, Pc.inserting, Pc.removing, Closing.owes] using charged
    simp [closeConnection, mem] at call
  · cases call
    exact h.pass owned here rfl rfl rfl rfl rfl rfl rfl (fun _ => rfl) (fun _ => rfl) (.refl _)

/-- The sweep finds an expired connection in its table and takes it out. -/
theorem Coupled.expire (h : Coupled s crowd) (owned : Owned cfg s) {at_ : Pool.Time} {fd : Fd}
    {fds : List Fd} {next : Closing} {t : State m}
    (here : (s.reactors i).pc = .expire at_ (fd :: fds) .erase)
    (call : closeConnection s i fd .erase = (t, some next))
    (hf : crowd.follow router (handling cfg s (.reactor i .go)) io = some crowd') :
    Coupled (t.setPc i (.expire at_ (fd :: fds) next)) crowd' := by
  have mem : fd ∈ (s.reactors i).connections := by
    by_contra absent
    simp [closeConnection, absent] at call
  obtain ⟨k, hk⟩ := Option.isSome_iff_exists.mp (AList.lookup_isSome.mpr mem)
  have isOpen := (owned.table i fd k hk).1
  have owes : next.owes = true := by
    obtain ⟨-, rfl⟩ | ⟨hn, -⟩ | ⟨hn, -⟩ := closeConnection_some call
    · rfl
    · cases hn
    · cases hn
  simp only [handling, here, hk, Option.elim_some] at hf
  refine h.call owned call (.inl mem) rfl rfl
    (fun fd' hfd => by rw [here]; exact hand_expire_of_ne hfd)
    (fun fd' hfd => hand_expire_of_ne hfd) (fun _ => hand_expire owes) ?_ ?_ (List.nil_sublist _)
    (List.forall_mem_nil _)
  · intro k' hk'
    refine follow_others hf fun same => hk' ?_
    rw [isOpen, Option.some.inj same]
  · intro k' hk'
    rw [isOpen, Option.some.injEq] at hk'
    exact hk' ▸ follow_giveUp hf

/-- The sweep goes on with the connection it has taken out. -/
theorem Coupled.expiring (h : Coupled s crowd) (owned : Owned cfg s) {at_ : Pool.Time} {fd : Fd}
    {fds : List Fd} {stage next : Closing} {t : State m}
    (here : (s.reactors i).pc = .expire at_ (fd :: fds) stage) (owes : stage.owes = true)
    (call : closeConnection s i fd stage = (t, some next)) :
    Coupled (t.setPc i (.expire at_ (fd :: fds) next)) crowd := by
  have charged : (s.reactors i).Claims fd := .inr (.inr (by rw [here]; exact if_pos owes))
  refine h.call owned call charged rfl rfl
    (fun fd' hfd => by rw [here]; exact hand_expire_of_ne hfd)
    (fun fd' hfd => hand_expire_of_ne hfd) ?_ (fun _ _ => rfl) ?_ (List.nil_sublist _)
    (List.forall_mem_nil _)
  · intro hnext
    refine hand_expire ?_
    obtain ⟨-, rfl⟩ | ⟨-, rfl⟩ | ⟨-, rfl⟩ := closeConnection_some call
    · rfl
    · rfl
    · exact absurd rfl hnext
  · intro k hk
    have now := h.suits i fd k charged hk
    rw [here] at now
    exact (Pc.suits_of_hand (hand_expire owes) _ _).mp now

/-- The sweep is done with a connection: it had gone, or it is closed now. -/
theorem Coupled.expired (h : Coupled s crowd) (owned : Owned cfg s) {at_ : Pool.Time} {fd : Fd}
    {fds : List Fd} {stage : Closing} {t : State m}
    (here : (s.reactors i).pc = .expire at_ (fd :: fds) stage)
    (call : closeConnection s i fd stage = (t, none))
    (hf : crowd.follow router (handling cfg s (.reactor i .go)) io = some crowd') :
    Coupled (t.setPc i (.expire at_ fds .erase)) crowd' := by
  have idle : stage.owes = false := by
    obtain rfl | rfl := closeConnection_none call <;> rfl
  have removing : (Pc.expire at_ fds .erase).removing =
      (Pc.expire at_ (fd :: fds) stage).removing := by
    rw [show (Pc.expire at_ (fd :: fds) stage).removing = none from
      if_neg (by rw [idle]; exact Bool.false_ne_true)]
    cases fds <;> rfl
  obtain rfl | rfl := closeConnection_none call
  · have absent : fd ∉ (s.reactors i).connections := by
      intro mem
      simp [closeConnection, mem] at call
    simp only [handling, here, AList.lookup_eq_none.mpr absent, Option.elim_none] at hf
    obtain rfl := follow_nothing hf
    simp only [closeConnection, absent, if_false, Prod.mk.injEq, and_true] at call
    subst call
    exact h.pass owned here rfl rfl rfl rfl rfl rfl removing (fun fd' => hand_expire_idle idle)
      (fun fd' => hand_expire_idle rfl) (List.nil_sublist _)
  · simp only [handling, here] at hf
    obtain rfl := follow_nothing hf
    cases call
    exact h.pass owned here rfl rfl rfl rfl rfl rfl removing (fun fd' => hand_expire_idle idle)
      (fun fd' => hand_expire_idle rfl) (List.nil_sublist _)

end Moves

/-- Every move of a reactor keeps the reactors and the connections together. -/
theorem Coupled.follow (h : Coupled s crowd) (owned : Owned cfg s) {c : Choice} {io : IoResult}
    (move : Move cfg s i c s')
    (hf : crowd.follow router (handling cfg s (.reactor i c)) io = some crowd') :
    Coupled s' crowd' := by
  cases move with
  | wait pc | stopped pc | interrupted pc | failed pc | batchEnd pc | due pc | notDue pc
  | sweep pc | refused pc =>
    simp only [handling, pc] at hf
    obtain rfl := follow_nothing hf
    exact h.pass owned pc rfl rfl rfl rfl rfl rfl rfl (fun _ => rfl) (fun _ => rfl) (.refl _)
  | stopEvent pc isStop =>
    simp only [handling, pc, isStop, true_or, if_true] at hf
    obtain rfl := follow_nothing hf
    exact h.pass owned pc rfl rfl rfl rfl rfl rfl rfl (fun _ => rfl) (fun _ => rfl)
      (List.nil_sublist _)
  | listenEvent pc isListen =>
    simp only [handling, pc, isListen, or_true, if_true] at hf
    obtain rfl := follow_nothing hf
    exact h.pass owned pc rfl rfl rfl rfl rfl rfl rfl (fun _ => rfl) (fun _ => rfl)
      (List.sublist_cons_self _ _)
  | gone pc gone =>
    simp only [handling, pc, gone, Option.elim_none, ite_self] at hf
    obtain rfl := follow_nothing hf
    exact h.pass owned pc rfl rfl rfl rfl rfl rfl rfl (fun _ => rfl) (fun _ => rfl)
      (List.sublist_cons_self _ _)
  | found pc notStop notListen found =>
    simp only [handling, pc, notStop, notListen, or_self, if_false, found, Option.elim_some] at hf
    exact h.entered owned pc notStop notListen found hf
  | ready pc short nodup deliver =>
    simp only [handling, pc] at hf
    obtain rfl := follow_nothing hf
    exact h.ready pc deliver
  | @received batch e k r pc goesOn isOpen =>
    simp only [handling, pc] at hf
    have serves := reading_serves batch e k
    obtain ⟨bytes, now⟩ := suits_reading.mp (h.served owned pc serves)
    exact h.goOn owned pc serves serves (update_pc_self _ pc) rfl rfl rfl hf rfl
      (suits_reading.mpr (follow_received hf goesOn now))
  | @drained batch e k r pc ends isOpen =>
    simp only [handling, pc] at hf
    have serves := reading_serves batch e k
    obtain ⟨bytes, now⟩ := suits_reading.mp (h.served owned pc serves)
    exact h.goOn owned pc serves (drained_serves batch e k) rfl rfl rfl rfl hf rfl
      (suits_drained.mpr (follow_drained hf ends now))
  | @recvFailed batch e k pc =>
    simp only [handling, pc] at hf
    have serves := reading_serves batch e k
    obtain ⟨bytes, now⟩ := suits_reading.mp (h.served owned pc serves)
    exact h.goOn owned pc serves (act_serves batch e k .close) rfl rfl rfl rfl hf rfl
      (suits_act.mpr (follow_recvFailed hf now))
  | @stamp batch e k pc =>
    simp only [handling, pc] at hf
    have serves := drained_serves batch e k
    obtain ⟨bytes, now⟩ := suits_drained.mp (h.served owned pc serves)
    exact h.goOn owned pc serves (writing_serves batch e k) rfl rfl rfl rfl hf rfl
      (suits_writing.mpr (.inl (follow_stamp hf now)))
  | @sent batch e k r pc goesOn isOpen =>
    simp only [handling, pc] at hf
    have serves := writing_serves batch e k
    have now := suits_writing.mp (h.served owned pc serves)
    exact h.goOn owned pc serves serves (update_pc_self _ pc) rfl rfl rfl hf rfl
      (suits_writing.mpr (.inr (follow_sent hf goesOn now)))
  | @stalled batch e k pc isOpen =>
    simp only [handling, pc] at hf
    have serves := writing_serves batch e k
    have now := suits_writing.mp (h.served owned pc serves)
    exact h.goOn owned pc serves (act_serves batch e k .waitWrite) rfl rfl rfl rfl hf rfl
      (suits_act.mpr (follow_stalled hf now))
  | @sendFailed batch e k pc =>
    simp only [handling, pc] at hf
    have serves := writing_serves batch e k
    have now := suits_writing.mp (h.served owned pc serves)
    exact h.goOn owned pc serves (act_serves batch e k .close) rfl rfl rfl rfl hf rfl
      (suits_act.mpr (follow_sendFailed hf now))
  | @flushed batch e k close pc =>
    simp only [handling, pc] at hf
    have serves := writing_serves batch e k
    have now := suits_writing.mp (h.served owned pc serves)
    exact h.goOn owned pc serves (act_serves batch e k _) rfl rfl rfl rfl hf rfl
      (suits_act.mpr (follow_flushed hf now))
  | rearmed pc present =>
    simp only [handling, pc] at hf
    obtain rfl := follow_nothing hf
    exact h.rearmed owned pc
  | @notRearmed batch e k interest pc =>
    simp only [handling, pc] at hf
    exact h.goOn owned pc (rearming_serves batch e k interest) ⟨rfl, rfl, rfl, rfl, rfl⟩
      rfl rfl rfl rfl hf rfl
      ((suits_closing (by simp)).mpr (follow_giveUp hf))
  | @scan at_ now fds pc perm =>
    simp only [handling, pc] at hf
    obtain rfl := follow_nothing hf
    have removing : (Pc.expire at_ fds .erase).removing = none := by
      cases fds <;> simp [Pc.removing, Closing.owes]
    exact h.pass owned pc rfl rfl rfl rfl rfl rfl removing (fun _ => rfl)
      (fun _ => hand_expire_idle rfl) (List.nil_sublist _)
  | swept pc =>
    simp only [handling, pc] at hf
    obtain rfl := follow_nothing hf
    exact h.pass owned pc rfl rfl rfl rfl rfl rfl rfl (fun _ => rfl) (fun _ => rfl)
      (List.nil_sublist _)
  | accepted pc free new =>
    simp only [handling, pc] at hf
    obtain rfl := follow_nothing hf
    exact h.accept owned pc free
  | insert pc =>
    simp only [handling, pc] at hf
    obtain rfl := follow_nothing hf
    exact h.insert owned pc
  | @opened batch fd pc =>
    simp only [handling, pc] at hf
    obtain rfl := follow_nothing hf
    have charged : (s.reactors i).Claims fd :=
      .inl ((owned.held i).registering fd (by rw [pc]; rfl))
    exact h.take owned pc charged (if_pos rfl) rfl rfl rfl (fun _ _ _ => rfl)
      (fun fd' hc => (Reactor.claims_setPc (by rw [pc]; rfl) (by rw [pc]; rfl) fd').mp hc)
      (fun fd' hfd => if_neg hfd.symm) (fun fd' hfd => if_neg hfd.symm)
      (fun stage absent fresh => (suits_new (by exact if_pos rfl)).mpr ⟨absent, fresh⟩) rfl
  | @added batch fd pc isOpen absent =>
    simp only [handling, pc] at hf
    obtain rfl := follow_nothing hf
    refine h.added owned pc rfl rfl rfl (fun j fd' hfd => setEpoll_of_ne _ _ j hfd) ?_
    intro _ interest hregistered
    rw [show ((s.setEpoll i fd (some .epollin)).setPc i (.accept batch)).epoll i fd = some .epollin
      from setEpoll_self _ _] at hregistered
    exact (Option.some.inj hregistered).symm
  | @notAdded batch fd pc =>
    simp only [handling, pc] at hf
    obtain rfl := follow_nothing hf
    refine h.added owned pc rfl rfl rfl (fun _ _ _ => rfl) ?_
    intro absent interest hregistered
    cases absent.symm.trans hregistered
  | closing pc call =>
    simp only [handling, pc] at hf
    obtain rfl := follow_nothing hf
    exact h.closing owned pc call
  | closed pc call =>
    simp only [handling, pc] at hf
    obtain rfl := follow_nothing hf
    exact h.closed owned pc call
  | @sweepClosing at_ fd fds stage next t pc call =>
    obtain ⟨rfl, -⟩ | owes : (stage = .erase ∧ next = .ctlDel) ∨ stage.owes = true := by
      obtain both | ⟨rfl, -⟩ | ⟨rfl, -⟩ := closeConnection_some call
      · exact .inl both
      · exact .inr rfl
      · exact .inr rfl
    · exact h.expire owned pc call hf
    · have still : crowd' = crowd := by
        cases stage <;> simp only [handling, pc] at hf
        case erase => cases owes
        all_goals exact follow_nothing hf
      subst still
      exact h.expiring owned pc owes call
  | sweepClosed pc call => exact h.expired owned pc call hf

/-- A turn of the parse loop is taken by the reactor that has the connection in hand. -/
theorem suits_parsed {pc : Pc} {fd : Fd} {registered : Option Interest} {stage : Stage}
    (h : pc.Suits fd registered .parsing) (after : stage = .parsing ∨ stage = .writing) :
    pc.Suits fd registered stage := by
  cases hand : pc.hand fd with
  | none =>
    rw [Pc.suits_of_none hand] at h
    obtain ⟨action, hstage, -⟩ := h
    cases hstage
  | some fits =>
    rw [Pc.suits_of_hand hand] at h ⊢
    cases pc with
    | writing batch e k =>
      simp only [Pc.hand, Option.ite_none_right_eq_some, Option.some.injEq] at hand
      obtain ⟨-, rfl⟩ := hand
      exact after
    | insert | opened | register =>
      simp only [Pc.hand, Option.ite_none_right_eq_some, Option.some.injEq] at hand
      obtain ⟨-, rfl⟩ := hand
      cases h.2
    | reading | drained =>
      simp only [Pc.hand, Option.ite_none_right_eq_some, Option.some.injEq] at hand
      obtain ⟨-, rfl⟩ := hand
      obtain ⟨bytes, h⟩ := h
      cases h
    | rearming =>
      simp only [Pc.hand, Option.ite_none_right_eq_some, Option.some.injEq] at hand
      obtain ⟨-, rfl⟩ := hand
      cases h
    | closing batch e k closing =>
      cases closing <;>
        simp only [Pc.hand, Option.ite_none_right_eq_some, Option.some.injEq, reduceCtorEq] at hand
      all_goals
        obtain ⟨-, rfl⟩ := hand
        cases h
    | expire at_ fds closing =>
      cases fds <;>
        simp only [Pc.hand, Option.ite_none_right_eq_some, Option.some.injEq, reduceCtorEq] at hand
      obtain ⟨-, rfl⟩ := hand
      cases h
    | _ => cases hand

theorem Coupled.turn (h : Coupled s crowd) {k : Nat} {step : GuestStep χ} (inTurn : step.InTurn)
    (hs : crowdStep router crowd (k, step) = some crowd') : Coupled s crowd' := by
  obtain ⟨before, after⟩ := parse_stage inTurn hs
  have others : ∀ k', k' ≠ k → crowd'.guests k' = crowd.guests k' :=
    fun _ hk => crowdStep_others hs hk
  constructor
  · intro k' hk'
    have old : (crowd.guests k').stage = .waiting .waitRead := h.fresh k' hk'
    have hne : k' ≠ k := by
      rintro rfl
      rw [before] at old
      cases old
    show (crowd'.guests k').stage = _
    rw [others k' hne, old]
  · intro i fd k' hc hk'
    have old := h.suits i fd k' hc hk'
    by_cases hk : k' = k
    · subst hk
      rw [before] at old
      exact suits_parsed old after
    · rw [others k' hk]
      exact old
  · exact h.ahead

/-! ## Runs -/

/-- Every step keeps the reactors and the connections together. -/
theorem Coupled.step (h : Coupled s crowd) (owned : Owned cfg s) {l : Label m} {io : IoResult}
    (hs : (loop m cfg).step s l = some s')
    (hf : crowd.follow router (handling cfg s l) io = some crowd') : Coupled s' crowd' := by
  cases l with
  | tick elapsed =>
    obtain rfl := follow_nothing hf
    cases hs
    exact ⟨h.fresh, h.suits, h.ahead⟩
  | reactor i c => exact h.follow owned (reactorStep_move hs) hf
  | stopper =>
    obtain rfl := follow_nothing hf
    cases stopStep_move hs <;> exact ⟨h.fresh, h.suits, h.ahead⟩

/-- The loop calls the handler only as its last action asks, and closes by itself only
what is in no call. -/
theorem Coupled.ready_step (h : Coupled s crowd) (owned : Owned cfg s) {l : Label m}
    (hs : (loop m cfg).step s l = some s') : crowd.Ready (handling cfg s l) := by
  cases l with
  | tick elapsed => trivial
  | stopper => trivial
  | reactor i c =>
    have move : Move cfg s i c s' := reactorStep_move hs
    cases move with
    | stopEvent pc isStop =>
      simp only [handling, pc, isStop, true_or, if_true]
      trivial
    | listenEvent pc isListen =>
      simp only [handling, pc, isListen, or_true, if_true]
      trivial
    | gone pc gone =>
      simp only [handling, pc, gone, Option.elim_none, ite_self]
      trivial
    | @found e batch k pc notStop notListen found =>
      simp only [handling, pc, notStop, notListen, or_self, if_false, found, Option.elim_some]
      obtain ⟨-, -, interest, reports, waits⟩ := h.finds owned pc notStop notListen found
      exact ready_of_reports reports waits
    | @notRearmed batch e k interest pc =>
      simp only [handling, pc]
      exact ⟨interest.action,
        suits_rearming.mp (h.served owned pc (rearming_serves batch e k interest))⟩
    | @sweepClosing at_ fd fds stage next t pc call | @sweepClosed at_ fd fds stage t pc call =>
      cases stage <;> simp only [handling, pc]
      case erase =>
        cases hk : (s.reactors i).connections.lookup fd with
        | none => trivial
        | some k =>
          have mem : fd ∈ (s.reactors i).connections := AList.lookup_isSome.mp (by rw [hk]; rfl)
          have now := h.suits i fd k (.inl mem) (owned.table i fd k hk).1
          rw [pc, Pc.suits_of_none (hand_expire_idle rfl)] at now
          obtain ⟨action, hstage, -⟩ := now
          exact ⟨action, hstage⟩
      all_goals trivial
    | wait pc | stopped pc | interrupted pc | failed pc | batchEnd pc | due pc | notDue pc
    | sweep pc | refused pc | ready pc | accepted pc | insert pc | opened pc | added pc
    | notAdded pc | received pc | drained pc | recvFailed pc | stamp pc | sent pc | stalled pc
    | sendFailed pc | flushed pc | rearmed pc | closing pc | closed pc | scan pc | swept pc =>
      simp only [handling, pc]
      trivial

variable {services : ρ} {h : Hosted (State m) ρ τ χ}

/-- The loop runs as it does without its connections. -/
theorem loop_of_server (r : (server m cfg router services).Reachable h) :
    (loop m cfg).Reachable h.loop :=
  loop_of_hosted (Hosted.on_any r)

/-- Whatever the reactors do with their connections, the connections come to it by their
own steps. -/
theorem coupled_of_server (r : (server m cfg router services).Reachable h) :
    Coupled h.loop h.crowd ∧ (crowdMachine router services).Reachable h.crowd :=
  crowd_of_hosted (I := Coupled) (coupled_initial services)
    (fun reach kept _ hs hf => kept.step (owned_of_reach reach) hs hf)
    (fun inTurn _ kept hs => kept.turn inTurn hs)
    (fun reach kept _ hs => kept.ready_step (owned_of_reach reach) hs) (Hosted.on_any r)

/-- Two reactors never serve one connection. -/
theorem serving_unique (owned : Owned cfg s) {j : Fin m} {e e' : Event} {k : Sock}
    (hi : (s.reactors i).pc.serving = some (e, k)) (hj : (s.reactors j).pc.serving = some (e', k)) :
    i = j := by
  obtain ⟨-, hopen, hcharged⟩ := owned.applied hi
  obtain ⟨-, hopen', hcharged'⟩ := owned.applied hj
  have hfd := owned.injective e.fd e'.fd k hopen hopen'
  exact owned.exclusive i j e'.fd (hfd ▸ hcharged) hcharged'

/-- What the reactors owe their connections, in a state of the server: whatever step
comes next, the handler is called only as its last action asks, and a connection that
the loop closes by itself is in no call; one that the handler is in is served by one
reactor; and so the connections got where they are by their own steps. -/
structure Attends (cfg : Config m) (router : SharedRouter ρ τ χ) (services : ρ)
    (h : Hosted (State m) ρ τ χ) : Prop where
  ready : ∀ l s', step cfg h.loop l = some s' → h.crowd.Ready (handling cfg h.loop l)
  reads : ∀ i batch e k, (h.loop.reactors i).pc = .reading batch e k →
    ∃ bytes, (h.crowd.guests k).stage = .reading bytes
  writes : ∀ i batch e k, (h.loop.reactors i).pc = .writing batch e k →
    (h.crowd.guests k).stage = .parsing ∨ (h.crowd.guests k).stage = .writing
  one : ∀ i j e e' k, (h.loop.reactors i).pc.serving = some (e, k) →
    (h.loop.reactors j).pc.serving = some (e', k) → i = j
  own_steps : (crowdMachine router services).Reachable h.crowd

theorem reactors_attend (r : (server m cfg router services).Reachable h) :
    Attends cfg router services h := by
  have owned := owned_of_reach (loop_of_server r)
  obtain ⟨hcoupled, hcrowd⟩ := coupled_of_server r
  constructor
  · intro l s' hs
    exact hcoupled.ready_step owned hs
  · intro i batch e k pc
    exact suits_reading.mp (hcoupled.served owned pc (reading_serves batch e k))
  · intro i batch e k pc
    exact suits_writing.mp (hcoupled.served owned pc (writing_serves batch e k))
  · exact fun i j e e' k => serving_unique owned
  · exact hcrowd

/-- The connection is in the reactor's table, registered for input, and the reactor is
not at an event of it. -/
structure Listening (s : State m) (i : Fin m) (fd : Fd) (k : Sock) : Prop where
  found : (s.reactors i).connections.lookup fd = some k
  registered : s.epoll i fd = some .epollin
  idle : ∀ e, (s.reactors i).pc.serving ≠ some (e, k)

/-- The handler waits for more on a connection that the reactor listens for. -/
theorem Coupled.listening (h : Coupled s crowd) (owned : Owned cfg s) {fd : Fd} {k : Sock}
    (listening : Listening s i fd k) : crowd.Waits k .waitRead := by
  have mem : fd ∈ (s.reactors i).connections :=
    AList.lookup_isSome.mp (by rw [listening.found]; rfl)
  have isOpen := (owned.table i fd k listening.found).1
  have now := h.suits i fd k (.inl mem) isOpen
  have rests : Rests (s.epoll i fd) (crowd.guests k).stage → crowd.Waits k .waitRead := by
    rintro ⟨action, hstage, hawaits⟩
    rw [hawaits .epollin listening.registered] at hstage
    exact hstage
  -- what the reactor has in hand is another descriptor
  have other : ∀ e k', (s.reactors i).pc.serving = some (e, k') → fd ≠ e.fd := by
    rintro e k' hs rfl
    obtain ⟨-, hopen, -⟩ := owned.applied hs
    rw [hopen, Option.some.injEq] at isOpen
    exact listening.idle e (isOpen ▸ hs)
  cases hand : (s.reactors i).pc.hand fd with
  | none => exact rests ((Pc.suits_of_none hand _ _).mp now)
  | some fits =>
    rw [Pc.suits_of_hand hand] at now
    exfalso
    cases pc : (s.reactors i).pc with
    | insert | opened | register =>
      simp only [pc, Pc.hand, Option.ite_none_right_eq_some, Option.some.injEq] at hand
      obtain ⟨-, rfl⟩ := hand
      rw [listening.registered] at now
      cases now.1
    | reading batch e k' | drained batch e k' | writing batch e k' | rearming batch e k' =>
      have hne := other e k' (by rw [pc]; rfl)
      simp only [pc, Pc.hand, if_neg hne.symm, reduceCtorEq] at hand
    | closing batch e k' closing =>
      cases closing with
      | account => simp only [pc, Pc.hand, reduceCtorEq] at hand
      | _ =>
        have hne := other e k' (by rw [pc]; rfl)
        simp only [pc, Pc.hand, if_neg hne.symm, reduceCtorEq] at hand
    | expire at_ fds closing =>
      cases fds with
      | nil => simp only [pc, Pc.hand, reduceCtorEq] at hand
      | cons fd' fds =>
        simp only [pc, Pc.hand, Option.ite_none_right_eq_some] at hand
        obtain ⟨⟨owes, rfl⟩, -⟩ := hand
        exact (owned.held i).removing fd' (by rw [pc]; exact if_pos owes) mem
    | _ => simp only [pc, Pc.hand, reduceCtorEq] at hand

/-- Where a reactor listens for more on a connection, all that has arrived on it was
read, answered and sent, and what it was told are the replies its calls of the router
returned from their sections in the one order of the sections of all. -/
theorem dialogue_of_server (r : (server m cfg router services).Reachable h) {fd : Fd} {k : Sock}
    (listening : Listening h.loop i fd k) : Dialogue router services h.crowd k := by
  obtain ⟨hcoupled, hcrowd⟩ := coupled_of_server r
  exact dialogue hcrowd (hcoupled.listening (owned_of_reach (loop_of_server r)) listening)

/-- The first client has sent something. -/
def firstReadable : Event := { fd := 10, events := { epollin := true }, raisedFor := some 0 }

/-- A client connects to the first reactor and asks for the root, and is told in two
pieces that there is no such page. -/
def rootAsked : List (HostLabel (Label 2) Unit) :=
  plainly (greets first 10 ++ runs first [.go, .go, .go, .ready [firstReadable], .go]) ++
    [.loop (.reactor first (.recv .data)) (.recv (.data oneRoot)),
      .loop (.reactor first (.recv .wouldBlock)) (.recv .wouldBlock)] ++
    plainly (runs first [.go]) ++ routed 0 () 7 ++ [.parse 0,
      .loop (.reactor first (.send .sent)) (.send (.accepted 20)),
      .loop (.reactor first (.send .sent)) (.send (.accepted 1000))] ++
    plainly (runs first [.flushed false, .ctlMod true])

/-- The state in which the first reactor listens for more. -/
def rootAskedEnd : Hosted (State 2) Unit (HttpRequest ⊕ HttpResponse) Unit :=
  ((server 2 pair noPagesShared ()).exec (server 2 pair noPagesShared ()).start rootAsked).get
    (by decide +kernel)

/-- The state in which the first reactor is in the parse loop of the client. -/
def rootAskedMidway : Hosted (State 2) Unit (HttpRequest ⊕ HttpResponse) Unit :=
  ((server 2 pair noPagesShared ()).exec (server 2 pair noPagesShared ()).start
    (rootAsked.take 17)).get (by decide +kernel)

theorem reactors_attend_root :
    (rootAskedMidway.crowd.guests 0).stage = .parsing ∧
      Attends pair noPagesShared () rootAskedMidway :=
  ⟨by decide +kernel, reactors_attend (.of_exec (Option.some_get _).symm)⟩

theorem dialogue_of_server_root :
    (rootAskedEnd.crowd.decided.map fun one => one.2.1.target) = [Base.ascii "/"] ∧
      Dialogue noPagesShared () rootAskedEnd.crowd 0 := by
  have listening : Listening rootAskedEnd.loop first 10 0 := by
    refine ⟨by decide +kernel, by decide +kernel, fun e => ?_⟩
    have idle : (rootAskedEnd.loop.reactors first).pc.serving = none := by decide +kernel
    rw [idle]
    exact (Option.some_ne_none _).symm
  exact ⟨by decide +kernel, dialogue_of_server (.of_exec (Option.some_get _).symm) listening⟩

end WebServer.Reactors
