import WebServer.Laws.Pool.Descriptors
import WebServer.Laws.Reactor.Moves
/-! # Every reactor keeps to its own descriptors

Descriptor numbers are the process's, and a batch of events is a list of bare
numbers that are worked through one by one while connections close and new ones
are accepted. What keeps an old number from meaning a new client is that a
reactor's connections are closed by that reactor alone: an open descriptor is
charged to one reactor (`Owned`), and the events a reactor has yet to look at are
for descriptors it is still charged with (`Held.raised`), each at most once. So
the number cannot have been given away in between.

`ownEvents` is the law for the events and the tables, over every run.
-/

namespace WebServer.Reactors

open Pool (Fd Sock Time seconds kMaxEvents Interest Event Closing)

variable {m : Nat} {cfg : Config m} {s s' t : State m} {i : Fin m}

/-- The connection accepted but not inserted yet. -/
def Pc.inserting : Pc → Option (Fd × Sock)
  | .insert _ fd k => some (fd, k)
  | _ => none

/-- The descriptor inserted and not registered yet. -/
def Pc.registering : Pc → Option Fd
  | .opened _ fd | .register _ fd => some fd
  | _ => none

/-- The descriptor erased from the table and not closed yet. -/
def Pc.removing : Pc → Option Fd
  | .closing _ e _ stage => if stage.owes then some e.fd else none
  | .expire _ (fd :: _) stage => if stage.owes then some fd else none
  | _ => none

/-- The events the reactor is not done with, the one in hand first. An event that
closes its connection is done with when the descriptor is closed. -/
def Pc.events : Pc → List Event
  | .dispatch batch | .accept batch | .insert batch _ _ | .opened batch _
  | .register batch _ => batch
  | .reading batch e _ | .drained batch e _ | .writing batch e _ | .rearming batch e _ _ =>
    e :: batch
  | .closing batch _ _ .account => batch
  | .closing batch e _ _ => e :: batch
  | _ => []

/-- The connection an event is applied to, and the event, from the lookup until
the connection is rearmed or its descriptor closed. -/
def Pc.serving : Pc → Option (Event × Sock)
  | .reading _ e k | .drained _ e k | .writing _ e k | .rearming _ e k _ => some (e, k)
  | .closing _ _ _ .account => none
  | .closing _ e k _ => some (e, k)
  | _ => none

/-- The reactor is charged with the open descriptor. -/
def Reactor.Claims (r : Reactor) (fd : Fd) : Prop :=
  fd ∈ r.connections ∨ (∃ k, r.pc.inserting = some (fd, k)) ∨ r.pc.removing = some fd

/-- One reactor's view, against the process's descriptors and its own epoll set:
what it is about to insert, register or close, and the events it has yet to
handle. -/
structure Held (cfg : Config m) (files : Fd → Option Sock) (epoll : Fd → Option Interest)
    (i : Fin m) (r : Reactor) : Prop where
  inserting : ∀ fd k, r.pc.inserting = some (fd, k) → files fd = some k ∧ fd ∉ r.connections
  registering : ∀ fd, r.pc.registering = some fd → fd ∈ r.connections
  removing : ∀ fd, r.pc.removing = some fd → fd ∉ r.connections
  registered : ∀ fd, epoll fd ≠ none → fd ∈ r.connections ∨ r.pc.removing = some fd
  raised : ∀ e k, e ∈ r.pc.events → e.raisedFor = some k → files e.fd = some k ∧ r.Claims e.fd
  own : ∀ e, e ∈ r.pc.events → e.raisedFor = none → e.fd = cfg.stopFd i ∨ e.fd = cfg.listenFd i
  distinct : (r.pc.events.map Event.fd).Nodup
  serving : ∀ e k, r.pc.serving = some (e, k) → e.raisedFor = some k

/-- Each open descriptor is charged to one reactor at most, and every reactor
holds to its own. -/
structure Owned (cfg : Config m) (s : State m) : Prop where
  exclusive : Exclusive fun i fd => (s.reactors i).Claims fd
  live : ∀ i fd, (s.reactors i).Claims fd → s.files fd ≠ none
  table : ∀ i fd k, (s.reactors i).connections.lookup fd = some k →
    s.files fd = some k ∧ (s.objects k).fd = fd
  injective : ∀ fd fd' k, s.files fd = some k → s.files fd' = some k → fd = fd'
  fresh : ∀ fd k, s.files fd = some k → k < s.next
  reserved : ∀ fd, s.files fd ≠ none → fd ∉ cfg.reserved
  held : ∀ i, Held cfg s.files (s.epoll i) i (s.reactors i)

theorem owned_initial (m : Nat) (cfg : Config m) : Owned cfg (State.initial m) := by
  have none_claims : ∀ i fd, ¬ ((State.initial m).reactors i).Claims fd := by
    intro i fd h
    simp [Reactor.Claims, State.initial, Pc.inserting, Pc.removing] at h
  constructor
  · intro i j fd h
    exact absurd h (none_claims i fd)
  · intro i fd h
    exact absurd h (none_claims i fd)
  case held =>
    intro i
    constructor <;> simp [State.initial, Pc.inserting, Pc.registering, Pc.removing, Pc.events,
      Pc.serving]
  all_goals simp [State.initial]

/-- What the reactor is charged with depends on its table and on where it is. -/
theorem Reactor.claims_setPc {r : Reactor} {pc : Pc} (inserting : pc.inserting = r.pc.inserting)
    (removing : pc.removing = r.pc.removing) (fd : Fd) :
    Reactor.Claims { r with pc := pc } fd ↔ r.Claims fd := by
  simp only [Reactor.Claims, inserting, removing]

/-- A reactor's view stays while nothing it is charged with, or registered,
changes. -/
theorem Held.frame {files files' : Fd → Option Sock} {epoll epoll' : Fd → Option Interest}
    {r : Reactor} (h : Held cfg files epoll i r)
    (same : ∀ fd, r.Claims fd → files' fd = files fd)
    (less : ∀ fd, epoll' fd ≠ none → epoll fd ≠ none) : Held cfg files' epoll' i r where
  inserting fd k hk := by
    rw [same fd (.inr (.inl ⟨k, hk⟩))]
    exact h.inserting fd k hk
  registering := h.registering
  removing := h.removing
  registered fd hne := h.registered fd (less fd hne)
  raised e k he hk := by
    obtain ⟨hf, hc⟩ := h.raised e k he hk
    exact ⟨(same e.fd hc).trans hf, hc⟩
  own := h.own
  distinct := h.distinct
  serving := h.serving

/-- The thread moves, charged with what it was charged with and with no event it
did not have. -/
theorem Held.setPc {files : Fd → Option Sock} {epoll : Fd → Option Interest} {r : Reactor}
    (h : Held cfg files epoll i r) {pc : Pc} (inserting : pc.inserting = r.pc.inserting)
    (removing : pc.removing = r.pc.removing)
    (registering : ∀ fd, pc.registering = some fd → r.pc.registering = some fd)
    (events : pc.events.Sublist r.pc.events)
    (serving : ∀ e k, pc.serving = some (e, k) → e.raisedFor = some k) :
    Held cfg files epoll i { r with pc := pc } where
  inserting fd k hk := h.inserting fd k (inserting ▸ hk)
  registering fd hfd := h.registering fd (registering fd hfd)
  removing fd hfd := h.removing fd (removing ▸ hfd)
  registered fd hne := by
    rw [removing]
    exact h.registered fd hne
  raised e k he hk := by
    obtain ⟨hf, hc⟩ := h.raised e k (events.subset he) hk
    exact ⟨hf, (Reactor.claims_setPc inserting removing e.fd).mpr hc⟩
  own e he := h.own e (events.subset he)
  distinct := h.distinct.sublist (events.map _)
  serving := serving

/-- A step of the reactor `i` that opens and closes nothing and charges it with
nothing new. -/
theorem Owned.frame (h : Owned cfg s) {r : Reactor}
    (reactors : t.reactors = Function.update s.reactors i r) (files : t.files = s.files)
    (next : t.next = s.next)
    (objects : ∀ fd k, s.files fd = some k → (s.objects k).fd = fd → (t.objects k).fd = fd)
    (epoll : ∀ j, j ≠ i → t.epoll j = s.epoll j)
    (claims : ∀ fd, r.Claims fd → (s.reactors i).Claims fd)
    (table : ∀ fd k, r.connections.lookup fd = some k →
      s.files fd = some k ∧ (t.objects k).fd = fd)
    (held : Held cfg s.files (t.epoll i) i r) : Owned cfg t := by
  have here : t.reactors i = r := by
    rw [reactors, Function.update_self]
  have other : ∀ j, j ≠ i → t.reactors j = s.reactors j := by
    intro j hj
    rw [reactors, Function.update_of_ne hj]
  have back : ∀ j fd, (t.reactors j).Claims fd → (s.reactors j).Claims fd := by
    intro j fd hc
    by_cases hj : j = i
    · subst hj
      exact claims fd (here ▸ hc)
    · exact other j hj ▸ hc
  constructor
  · exact h.exclusive.shrink back
  · intro j fd hc
    rw [files]
    exact h.live j fd (back j fd hc)
  · intro j fd k hk
    rw [files]
    by_cases hj : j = i
    · subst hj
      exact table fd k (here ▸ hk)
    · rw [other j hj] at hk
      obtain ⟨hf, ho⟩ := h.table j fd k hk
      exact ⟨hf, objects fd k hf ho⟩
  · rw [files]
    exact h.injective
  · rw [files, next]
    exact h.fresh
  · rw [files]
    exact h.reserved
  · intro j
    rw [files]
    by_cases hj : j = i
    · subst hj
      exact here ▸ held
    · rw [other j hj, epoll j hj]
      exact h.held j

/-- The states agree on the descriptors, the epoll sets and what the objects are
for. -/
structure State.Agrees (s t : State m) : Prop where
  files : t.files = s.files
  next : t.next = s.next
  epoll : t.epoll = s.epoll
  objects : ∀ k, (t.objects k).fd = (s.objects k).fd

/-- The reactor `i` moves, and nothing that `Owned` is about changes. -/
theorem Owned.setPc (h : Owned cfg s) {pc : Pc} (same : s.Agrees t)
    (reactors : t.reactors = s.reactors) (inserting : pc.inserting = (s.reactors i).pc.inserting)
    (removing : pc.removing = (s.reactors i).pc.removing)
    (registering : ∀ fd, pc.registering = some fd → (s.reactors i).pc.registering = some fd)
    (events : pc.events.Sublist (s.reactors i).pc.events)
    (serving : ∀ e k, pc.serving = some (e, k) → e.raisedFor = some k) :
    Owned cfg (t.setPc i pc) := by
  have held := (h.held i).setPc inserting removing registering events serving
  refine h.frame (i := i) (r := { s.reactors i with pc := pc }) ?_ same.files same.next ?_ ?_ ?_
    ?_ ?_
  · simp only [State.setPc, State.setReactor, reactors]
  · intro fd k _ ho
    exact (same.objects k).trans ho
  · intro j _
    exact congrFun same.epoll j
  · intro fd hc
    exact (Reactor.claims_setPc inserting removing fd).mp hc
  · intro fd k hk
    obtain ⟨hf, ho⟩ := h.table i fd k hk
    exact ⟨hf, (same.objects k).trans ho⟩
  · exact congrFun same.epoll i ▸ held

/-- The reactor applies the event, with the batch still to come, to the
connection. -/
structure Pc.Serves (pc : Pc) (batch : List Event) (e : Event) (k : Sock) : Prop where
  inserting : pc.inserting = none
  registering : pc.registering = none
  removing : pc.removing = none
  events : pc.events = e :: batch
  serving : pc.serving = some (e, k)

theorem enter_serves (batch : List Event) (e : Event) (k : Sock) :
    (enter batch e k).Serves batch e k := by
  unfold enter
  split
  · exact ⟨rfl, rfl, rfl, rfl, rfl⟩
  · split <;> exact ⟨rfl, rfl, rfl, rfl, rfl⟩

theorem act_serves (batch : List Event) (e : Event) (k : Sock) (action : Action) :
    (act batch e k action).Serves batch e k := by
  cases action <;> exact ⟨rfl, rfl, rfl, rfl, rfl⟩

/-- The handler goes on with the connection it has. -/
theorem Owned.serve (h : Owned cfg s) {pc : Pc} {batch : List Event} {e : Event} {k : Sock}
    (same : s.Agrees t) (reactors : t.reactors = s.reactors)
    (before : (s.reactors i).pc.Serves batch e k) (after : pc.Serves batch e k) :
    Owned cfg (t.setPc i pc) := by
  refine h.setPc same reactors ?_ ?_ ?_ ?_ ?_
  · rw [after.inserting, before.inserting]
  · rw [after.removing, before.removing]
  · rw [after.registering]
    exact fun _ hfd => by cases hfd
  · rw [after.events, before.events]
  · intro e' k' hs
    rw [after.serving] at hs
    cases hs
    exact (h.held i).serving e k before.serving

/-- A batch is for the reactor's own connections: each is registered, so in the
table, under the socket that the kernel reports. -/
theorem Owned.ready (h : Owned cfg s) {batch : List Event} (hpc : (s.reactors i).pc = .wait)
    (nodup : (batch.map Event.fd).Nodup) (deliver : ∀ e ∈ batch, deliverable cfg s i e) :
    Owned cfg (s.setPc i (.dispatch batch)) := by
  have at_wait := h.held i
  have mem : ∀ fd, s.epoll i fd ≠ none → fd ∈ (s.reactors i).connections := by
    intro fd hne
    rcases at_wait.registered fd hne with hmem | hr
    · exact hmem
    · simp [hpc, Pc.removing] at hr
  have claims : ∀ fd, Reactor.Claims { s.reactors i with pc := .dispatch batch } fd ↔
      (s.reactors i).Claims fd :=
    Reactor.claims_setPc (by rw [hpc]; rfl) (by rw [hpc]; rfl)
  refine h.frame (i := i) (r := { s.reactors i with pc := .dispatch batch }) rfl rfl rfl
    (fun _ _ _ ho => ho) (fun _ _ => rfl) (fun fd hc => (claims fd).mp hc) (h.table i) ?_
  constructor
  · simp [Pc.inserting]
  · simp [Pc.registering]
  · simp [Pc.removing]
  · intro fd hne
    exact .inl (mem fd hne)
  · intro e k he hk
    have := deliver e he
    simp only [deliverable, hk, Bool.and_eq_true, decide_eq_true_eq] at this
    refine ⟨this.1, .inl (mem e.fd ?_)⟩
    intro hn
    rw [hn] at this
    simp at this
  · intro e he hn
    have := deliver e he
    simp only [deliverable, hn, Bool.or_eq_true, Bool.and_eq_true, decide_eq_true_eq] at this
    exact this.imp And.left id
  · exact nodup
  · simp [Pc.serving]

/-- In the loop over the batch, a client's event finds the connection that it was
reported for. -/
theorem Owned.finds (h : Owned cfg s) {e : Event} {batch : List Event} {k : Sock}
    (hpc : (s.reactors i).pc = .dispatch (e :: batch)) (hk : e.raisedFor = some k) :
    e.fd ∉ cfg.reserved ∧ (s.reactors i).connections.lookup e.fd = some k := by
  obtain ⟨hf, hc⟩ := (h.held i).raised e k (by simp [hpc, Pc.events]) hk
  refine ⟨h.reserved e.fd (by simp [hf]), ?_⟩
  simp only [Reactor.Claims, hpc, Pc.inserting, Pc.removing, reduceCtorEq, exists_const,
    or_false] at hc
  obtain ⟨k', hk'⟩ := Option.isSome_iff_exists.mp (AList.lookup_isSome.mpr hc)
  rw [hk', ← (h.table i e.fd k' hk').1, hf]

/-- The event in hand passes to the handler. -/
theorem Owned.found (h : Owned cfg s) {e : Event} {batch : List Event} {k : Sock}
    (hpc : (s.reactors i).pc = .dispatch (e :: batch)) (notStop : e.fd ≠ cfg.stopFd i)
    (notListen : e.fd ≠ cfg.listenFd i)
    (found : (s.reactors i).connections.lookup e.fd = some k) :
    Owned cfg (s.setPc i (enter batch e k)) := by
  have entered := enter_serves batch e k
  refine h.setPc ⟨rfl, rfl, rfl, fun _ => rfl⟩ rfl ?_ ?_ ?_ ?_ ?_
  · rw [entered.inserting, hpc]
    rfl
  · rw [entered.removing, hpc]
    rfl
  · rw [entered.registering]
    exact fun _ hfd => by cases hfd
  · rw [entered.events, hpc]
    exact .refl _
  · intro e' k' hs
    rw [entered.serving] at hs
    cases hs
    -- it is a client's event, for the listener and the eventfd were ruled out
    cases hr : e.raisedFor with
    | none =>
      rcases (h.held i).own e (by simp [hpc, Pc.events]) hr with own | own
      · exact absurd own notStop
      · exact absurd own notListen
    | some k' =>
      rw [← (h.finds hpc hr).2, found]

/-- The reactor has accepted a connection and is about to insert it. -/
theorem Held.accept {files : Fd → Option Sock} {epoll : Fd → Option Interest} {r : Reactor}
    (h : Held cfg files epoll i r) {batch : List Event} {fd : Fd} {k : Sock}
    (hpc : r.pc = .accept batch) (isOpen : files fd = some k) (absent : fd ∉ r.connections) :
    Held cfg files epoll i { r with pc := .insert batch fd k } := by
  have events : (Pc.insert batch fd k).events = r.pc.events := by
    rw [hpc]
    rfl
  constructor
  · intro fd' k' hk
    cases hk
    exact ⟨isOpen, absent⟩
  · simp [Pc.registering]
  · simp [Pc.removing]
  · intro fd' hne
    rcases h.registered fd' hne with mem | hr
    · exact .inl mem
    · simp [hpc, Pc.removing] at hr
  · intro e k' he hk
    obtain ⟨hf, mem | ⟨k'', hi⟩ | hr⟩ := h.raised e k' (events ▸ he) hk
    · exact ⟨hf, .inl mem⟩
    · simp [hpc, Pc.inserting] at hi
    · simp [hpc, Pc.removing] at hr
  · exact fun e he => h.own e (events ▸ he)
  · exact events ▸ h.distinct
  · simp [Pc.serving]

/-- `accept` returns a number that no reactor is charged with. -/
theorem Owned.accept (h : Owned cfg s) {batch : List Event} {fd : Fd} {r : Reactor}
    (hpc : (s.reactors i).pc = .accept batch) (free : s.files fd = none)
    (new : fd ∉ cfg.reserved) (hr : r = { s.reactors i with pc := .insert batch fd s.next })
    (reactors : t.reactors = Function.update s.reactors i r)
    (files : t.files = Function.update s.files fd (some s.next)) (next : t.next = s.next + 1)
    (objects : t.objects = s.objects) (epoll : t.epoll = s.epoll) : Owned cfg t := by
  have here : t.reactors i = r := by
    rw [reactors, Function.update_self]
  have other : ∀ j, j ≠ i → t.reactors j = s.reactors j := by
    intro j hj
    rw [reactors, Function.update_of_ne hj]
  have kept : ∀ fd', s.files fd' ≠ none → t.files fd' = s.files fd' := by
    intro fd' hne
    rw [files, Function.update_of_ne]
    rintro rfl
    exact hne free
  have numbered := Numbered.issue ⟨h.injective, h.fresh⟩ fd
  have mine : ∀ fd', r.Claims fd' ↔ fd' = fd ∨ (s.reactors i).Claims fd' := by
    intro fd'
    simp only [hr, Reactor.Claims, hpc, Pc.inserting, Pc.removing, Option.some.injEq,
      Prod.mk.injEq, reduceCtorEq, exists_and_left, exists_eq', and_true, exists_const, or_false]
    rw [or_comm, eq_comm]
  constructor
  · apply h.exclusive.gain i
    · intro j fd' hj hc
      exact other j hj ▸ hc
    · intro fd' hc
      rcases (mine fd').mp (here ▸ hc) with rfl | old
      · right
        intro j hj hc'
        exact h.live j fd' (other j hj ▸ hc') free
      · exact .inl old
  · intro j fd' hc
    by_cases hj : j = i
    · subst hj
      rcases (mine fd').mp (here ▸ hc) with rfl | old
      · rw [files, Function.update_self]
        exact Option.some_ne_none _
      · rw [kept fd' (h.live j fd' old)]
        exact h.live j fd' old
    · have old := h.live j fd' (other j hj ▸ hc)
      rwa [kept fd' old]
  · intro j fd' k hk
    have hk : (s.reactors j).connections.lookup fd' = some k := by
      by_cases hj : j = i
      · subst hj
        rwa [here, hr] at hk
      · exact other j hj ▸ hk
    obtain ⟨hf, ho⟩ := h.table j fd' k hk
    rw [kept fd' (by simp [hf]), objects]
    exact ⟨hf, ho⟩
  · rw [files]
    exact numbered.injective
  · rw [files, next]
    exact numbered.fresh
  · intro fd' hne
    obtain ⟨k, hk⟩ := Option.ne_none_iff_exists'.mp hne
    rw [files] at hk
    rcases entry_of_issue hk with ⟨rfl, -⟩ | old
    · exact new
    · exact h.reserved fd' (by simp [old])
  · intro j
    rw [epoll]
    have old : Held cfg t.files (s.epoll j) j (s.reactors j) :=
      (h.held j).frame (fun fd' hc => kept fd' (h.live j fd' hc)) fun _ hne => hne
    by_cases hj : j = i
    · subst hj
      rw [here, hr]
      refine old.accept hpc ?_ ?_
      · rw [files, Function.update_self]
      · exact fun mem => h.live j fd (.inl mem) free
    · rw [other j hj]
      exact old

/-- The connection accepted goes into the table. -/
theorem Owned.insert (h : Owned cfg s) {batch : List Event} {fd : Fd} {k : Sock}
    (hpc : (s.reactors i).pc = .insert batch fd k) :
    Owned cfg ({ s with
      objects := Function.update s.objects k { fd := fd, lastActive := s.now } }.setReactor i
        { s.reactors i with
          connections := (s.reactors i).connections.insert fd k
          pc := .opened batch fd }) := by
  have isOpen : s.files fd = some k := ((h.held i).inserting fd k (by rw [hpc]; rfl)).1
  have objects : ∀ fd' k', s.files fd' = some k' → (s.objects k').fd = fd' →
      (Function.update s.objects k { fd := fd, lastActive := s.now } k').fd = fd' := by
    intro fd' k' hf ho
    rw [Function.update_apply]
    split
    case isTrue same => exact h.injective fd fd' k isOpen (same ▸ hf)
    case isFalse => exact ho
  have claims : ∀ fd', Reactor.Claims { s.reactors i with
        connections := (s.reactors i).connections.insert fd k
        pc := .opened batch fd } fd' ↔ (s.reactors i).Claims fd' := by
    intro fd'
    simp only [Reactor.Claims, hpc, Pc.inserting, Pc.removing, AList.mem_insert,
      Option.some.injEq, Prod.mk.injEq, reduceCtorEq, exists_and_left, exists_eq', and_true,
      exists_const, or_false]
    rw [or_comm, eq_comm]
  refine h.frame (i := i) rfl rfl rfl objects (fun _ _ => rfl) (fun fd' hc => (claims fd').mp hc)
    ?_ ?_
  · intro fd' k' hk
    by_cases hfd : fd' = fd
    · subst hfd
      rw [AList.lookup_insert, Option.some.injEq] at hk
      subst hk
      exact ⟨isOpen, by simp [State.setReactor]⟩
    · rw [AList.lookup_insert_ne hfd] at hk
      obtain ⟨hf, ho⟩ := h.table i fd' k' hk
      exact ⟨hf, objects fd' k' hf ho⟩
  · have old := h.held i
    have events : (Pc.opened batch fd).events = (s.reactors i).pc.events := by
      rw [hpc]
      rfl
    constructor
    · simp [Pc.inserting]
    · intro fd' hfd
      cases hfd
      exact (AList.mem_insert _).mpr (.inl rfl)
    · simp [Pc.removing]
    · intro fd' hne
      rcases old.registered fd' hne with hmem | hremoving
      · exact .inl ((AList.mem_insert _).mpr (.inr hmem))
      · simp [hpc, Pc.removing] at hremoving
    · intro e k' he hk
      obtain ⟨hf, hc⟩ := old.raised e k' (events ▸ he) hk
      exact ⟨hf, (claims e.fd).mpr hc⟩
    · intro e he
      exact old.own e (events ▸ he)
    · exact events ▸ old.distinct
    · simp [Pc.serving]

/-- `epoll_ctl` registers, or changes, a descriptor of the reactor's table, and
the reactor moves on. -/
theorem Owned.ctl (h : Owned cfg s) {fd : Fd} {interest : Interest} {pc : Pc}
    (mem : fd ∈ (s.reactors i).connections) (inserting : pc.inserting = (s.reactors i).pc.inserting)
    (removing : pc.removing = (s.reactors i).pc.removing) (registering : pc.registering = none)
    (events : pc.events.Sublist (s.reactors i).pc.events) (serving : pc.serving = none) :
    Owned cfg ((s.setEpoll i fd (some interest)).setPc i pc) := by
  have moved := (h.held i).setPc inserting removing (by simp [registering]) events
    (by simp [serving])
  refine h.frame (i := i) rfl rfl rfl (fun _ _ _ ho => ho) ?_
    (fun fd' hc => (Reactor.claims_setPc inserting removing fd').mp hc) (h.table i) ?_
  · intro j hj
    exact Function.update_of_ne hj _ _
  · refine { moved with registered := ?_ }
    intro fd' hne
    simp only [State.setPc, State.setReactor, State.setEpoll, Function.update_self,
      Function.update_apply] at hne
    split at hne
    case isTrue same => exact .inl (same ▸ mem)
    case isFalse => exact moved.registered fd' hne

/-- The reactor has closed the descriptor it was charged with, and keeps no client
event for that number. -/
theorem Held.close {files files' : Fd → Option Sock} {epoll epoll' : Fd → Option Interest}
    {r : Reactor} (h : Held cfg files epoll i r) {fd : Fd} {pc : Pc}
    (removing : r.pc.removing = some fd) (inserting' : pc.inserting = none)
    (registering' : pc.registering = none) (removing' : pc.removing = none)
    (kept : ∀ fd', fd' ≠ fd → files' fd' = files fd')
    (less : ∀ fd', epoll' fd' ≠ none → fd' ≠ fd ∧ epoll fd' ≠ none)
    (events : pc.events.Sublist r.pc.events) (gone : ∀ e ∈ pc.events, e.fd ≠ fd)
    (claims : ∀ fd', fd' ≠ fd → r.Claims fd' → Reactor.Claims { r with pc := pc } fd')
    (serving : ∀ e k, pc.serving = some (e, k) → e.raisedFor = some k) :
    Held cfg files' epoll' i { r with pc := pc } := by
  constructor
  · simp [inserting']
  · simp [registering']
  · simp [removing']
  · intro fd' hne
    obtain ⟨hfd, hne⟩ := less fd' hne
    rcases h.registered fd' hne with mem | hr
    · exact .inl mem
    · rw [removing, Option.some.injEq] at hr
      exact absurd hr.symm hfd
  · intro e k he hk
    obtain ⟨hf, hc⟩ := h.raised e k (events.subset he) hk
    have hne := gone e he
    exact ⟨(kept e.fd hne).trans hf, claims e.fd hne hc⟩
  · exact fun e he => h.own e (events.subset he)
  · exact h.distinct.sublist (events.map _)
  · exact serving

/-- The reactor closes the descriptor it has erased, and no client event it keeps
is for that number. -/
theorem Owned.close (h : Owned cfg s) {fd : Fd} {pc : Pc}
    (removing : (s.reactors i).pc.removing = some fd)
    (inserting : (s.reactors i).pc.inserting = none) (inserting' : pc.inserting = none)
    (registering' : pc.registering = none) (removing' : pc.removing = none)
    (events : pc.events.Sublist (s.reactors i).pc.events) (gone : ∀ e ∈ pc.events, e.fd ≠ fd)
    (serving : ∀ e k, pc.serving = some (e, k) → e.raisedFor = some k) :
    Owned cfg ((s.closeFd fd).setPc i pc) := by
  have held : (s.reactors i).Claims fd := .inr (.inr removing)
  let r : Reactor := { s.reactors i with pc := pc }
  have mine : ∀ fd', r.Claims fd' ↔ fd' ≠ fd ∧ (s.reactors i).Claims fd' := by
    intro fd'
    simp only [r, Reactor.Claims, inserting, inserting', removing, removing', reduceCtorEq,
      exists_const, or_false, false_or, Option.some.injEq]
    constructor
    · intro mem
      refine ⟨?_, .inl mem⟩
      rintro rfl
      exact (h.held i).removing fd' removing mem
    · rintro ⟨hne, mem | same⟩
      · exact mem
      · exact absurd same.symm hne
  have here : ((s.closeFd fd).setPc i pc).reactors i = r := Function.update_self ..
  have other : ∀ j, j ≠ i → ((s.closeFd fd).setPc i pc).reactors j = s.reactors j :=
    fun j hj => Function.update_of_ne hj _ _
  have back : ∀ j fd', (((s.closeFd fd).setPc i pc).reactors j).Claims fd' →
      fd' ≠ fd ∧ (s.reactors j).Claims fd' := by
    intro j fd' hc
    by_cases hj : j = i
    · subst hj
      exact (mine fd').mp (here ▸ hc)
    · have old : (s.reactors j).Claims fd' := other j hj ▸ hc
      refine ⟨?_, old⟩
      rintro rfl
      exact hj (h.exclusive j i fd' old held)
  have kept : ∀ fd', fd' ≠ fd → ((s.closeFd fd).setPc i pc).files fd' = s.files fd' :=
    fun fd' hne => Function.update_of_ne hne _ _
  have numbered := Numbered.revoke ⟨h.injective, h.fresh⟩ fd
  constructor
  · exact h.exclusive.shrink fun j fd' hc => (back j fd' hc).2
  · intro j fd' hc
    obtain ⟨hne, hc⟩ := back j fd' hc
    rw [kept fd' hne]
    exact h.live j fd' hc
  · intro j fd' k hk
    have hne := (back j fd' (.inl (AList.lookup_isSome.mp (by simp [hk])))).1
    rw [kept fd' hne]
    apply h.table j fd' k
    by_cases hj : j = i
    · subst hj
      rwa [here] at hk
    · rwa [other j hj] at hk
  · exact numbered.injective
  · exact numbered.fresh
  · intro fd' hne
    obtain ⟨k, hk⟩ := Option.ne_none_iff_exists'.mp hne
    exact h.reserved fd' (by simp [entry_of_revoke hk])
  · intro j
    have less : ∀ fd', ((s.closeFd fd).setPc i pc).epoll j fd' ≠ none →
        fd' ≠ fd ∧ s.epoll j fd' ≠ none := by
      intro fd' hne
      simp only [State.setPc, State.setReactor, State.closeFd, Function.update_apply] at hne
      split at hne
      · exact absurd rfl hne
      · exact ⟨‹_›, hne⟩
    by_cases hj : j = i
    · subst hj
      rw [here]
      refine (h.held j).close removing inserting' registering' removing' ?_ less events gone ?_
        serving
      · exact kept
      · exact fun fd' hne hc => (mine fd').mpr ⟨hne, hc⟩
    · rw [other j hj]
      refine (h.held j).frame ?_ fun fd' hne => (less fd' hne).2
      intro fd' hc
      refine kept fd' ?_
      rintro rfl
      exact hj (h.exclusive j i fd' hc held)

/-- The reactor takes an entry out of its table, and is charged with its closing. -/
theorem Owned.erase (h : Owned cfg s) {fd : Fd} {pc : Pc}
    (mem : fd ∈ (s.reactors i).connections) (inserting : (s.reactors i).pc.inserting = none)
    (removing : (s.reactors i).pc.removing = none) (inserting' : pc.inserting = none)
    (registering' : pc.registering = none) (removing' : pc.removing = some fd)
    (events : pc.events.Sublist (s.reactors i).pc.events)
    (serving : ∀ e k, pc.serving = some (e, k) → e.raisedFor = some k) :
    Owned cfg (s.setReactor i { s.reactors i with
      connections := (s.reactors i).connections.erase fd
      pc := pc }) := by
  have claims : ∀ fd', Reactor.Claims { s.reactors i with
      connections := (s.reactors i).connections.erase fd
      pc := pc } fd' ↔ (s.reactors i).Claims fd' := by
    intro fd'
    simp only [Reactor.Claims, inserting, inserting', removing, removing', Option.some.injEq,
      AList.mem_erase]
    by_cases hfd : fd' = fd
    · simp [hfd, mem]
    · simp [hfd, Ne.symm hfd]
  have old := h.held i
  refine h.frame (i := i) rfl rfl rfl (fun _ _ _ ho => ho) (fun _ _ => rfl)
    (fun fd' hc => (claims fd').mp hc) ?_ ?_
  · intro fd' k hk
    by_cases hfd : fd' = fd
    · subst hfd
      rw [AList.lookup_erase] at hk
      cases hk
    · rw [AList.lookup_erase_ne hfd] at hk
      exact h.table i fd' k hk
  · constructor
    · simp [inserting']
    · simp [registering']
    · intro fd' hfd
      simp only [removing', Option.some.injEq] at hfd
      simp [hfd]
    · intro fd' hne
      simp only [removing', Option.some.injEq, AList.mem_erase]
      rcases old.registered fd' hne with hmem | hr
      · by_cases hfd : fd' = fd
        · exact .inr hfd.symm
        · exact .inl ⟨hfd, hmem⟩
      · rw [removing] at hr
        cases hr
    · intro e k he hk
      obtain ⟨hf, hc⟩ := old.raised e k (events.subset he) hk
      exact ⟨hf, (claims e.fd).mpr hc⟩
    · exact fun e he => old.own e (events.subset he)
    · exact old.distinct.sublist (events.map _)
    · exact serving

/-- A call of `closeConnection(fd)` by the reactor `i`, and where it goes on. Until
the descriptor is closed the reactor stays charged with it; then no client event it
keeps is for that number. -/
theorem Owned.call (h : Owned cfg s) {fd : Fd} {stage : Closing} {next : Option Closing} {pc : Pc}
    (call : closeConnection s i fd stage = (t, next))
    (inserting : (s.reactors i).pc.inserting = none)
    (removing : (s.reactors i).pc.removing = if stage.owes then some fd else none)
    (inserting' : pc.inserting = none) (registering' : pc.registering = none)
    (removing' : pc.removing = if next.any Closing.owes then some fd else none)
    (events : pc.events.Sublist (s.reactors i).pc.events)
    (gone : stage = .close → ∀ e ∈ pc.events, e.fd ≠ fd)
    (serving : ∀ p, pc.serving = some p → (s.reactors i).pc.serving = some p) :
    Owned cfg (t.setPc i pc) := by
  have serves : ∀ e k, pc.serving = some (e, k) → e.raisedFor = some k :=
    fun e k hs => (h.held i).serving e k (serving _ hs)
  have registers : ∀ fd', pc.registering = some fd' → (s.reactors i).pc.registering = some fd' := by
    simp [registering']
  cases stage with
  | erase =>
    simp only [closeConnection] at call
    split at call
    case isFalse =>
      cases call
      exact h.setPc ⟨rfl, rfl, rfl, fun _ => rfl⟩ rfl (inserting'.trans inserting.symm)
        (removing'.trans removing.symm) registers events serves
    case isTrue mem =>
      cases call
      have erased := h.erase mem inserting (by simpa [Closing.owes] using removing) inserting'
        registering' (by simpa [Closing.owes] using removing') events serves
      simpa [State.setPc, State.setReactor] using erased
  | ctlDel =>
    cases call
    have moved := (h.held i).setPc (inserting'.trans inserting.symm) (removing'.trans removing.symm)
      registers events serves
    refine h.frame (i := i) rfl rfl rfl (fun _ _ _ ho => ho) ?_ ?_ (h.table i)
      (moved.frame (fun _ _ => rfl) ?_)
    · intro j hj
      exact Function.update_of_ne hj _ _
    · intro fd' hc
      exact (Reactor.claims_setPc (inserting'.trans inserting.symm) (removing'.trans removing.symm)
        fd').mp hc
    · intro fd' hne
      simp only [State.setPc, State.setReactor, State.setEpoll, Function.update_self,
        Function.update_apply] at hne
      split at hne
      · exact absurd rfl hne
      · exact hne
  | close =>
    cases call
    exact h.close removing inserting inserting' registering' removing' events (gone rfl) serves
  | account =>
    cases call
    exact h.setPc ⟨rfl, rfl, rfl, fun _ => rfl⟩ rfl (inserting'.trans inserting.symm)
      (removing'.trans removing.symm) registers events serves

/-! ## Every step -/

/-- A call of `closeConnection` that another one follows. -/
theorem closeConnection_some {fd : Fd} {stage next : Closing}
    (call : closeConnection s i fd stage = (t, some next)) :
    (stage = .erase ∧ next = .ctlDel) ∨ (stage = .ctlDel ∧ next = .close) ∨
      (stage = .close ∧ next = .account) := by
  cases stage with
  | erase =>
    simp only [closeConnection] at call
    split at call <;> cases call
    exact .inl ⟨rfl, rfl⟩
  | ctlDel =>
    cases call
    exact .inr (.inl ⟨rfl, rfl⟩)
  | close =>
    cases call
    exact .inr (.inr ⟨rfl, rfl⟩)
  | account => cases call

/-- The last call of `closeConnection`: the entry was not there, or all is done. -/
theorem closeConnection_none {fd : Fd} {stage : Closing}
    (call : closeConnection s i fd stage = (t, none)) : stage = .erase ∨ stage = .account := by
  cases stage with
  | erase => exact .inl rfl
  | account => exact .inr rfl
  | ctlDel | close => cases call

/-- A call of `closeConnection` for the event in hand that another one follows. -/
theorem Owned.closing (h : Owned cfg s) {batch : List Event} {e : Event} {k : Sock}
    {stage next : Closing} (pc : (s.reactors i).pc = .closing batch e k stage)
    (call : closeConnection s i e.fd stage = (t, some next)) :
    Owned cfg (t.setPc i (.closing batch e k next)) := by
  have follows := closeConnection_some call
  refine h.call call (by rw [pc]; rfl) (by rw [pc]; rfl) rfl rfl (by simp [Pc.removing]) ?_ ?_ ?_
  · rw [pc]
    obtain ⟨rfl, rfl⟩ | ⟨rfl, rfl⟩ | ⟨rfl, rfl⟩ := follows
    · exact .refl _
    · exact .refl _
    · exact List.sublist_cons_self _ _
  · rintro rfl e' he hfd
    -- the number closed occurs once in the batch
    cases call
    have distinct := (h.held i).distinct
    rw [pc] at distinct
    exact (List.nodup_cons.mp distinct).1 (hfd ▸ List.mem_map_of_mem he)
  · intro p hs
    rw [pc]
    obtain ⟨rfl, rfl⟩ | ⟨rfl, rfl⟩ | ⟨rfl, rfl⟩ := follows
    · exact hs
    · exact hs
    · cases hs

/-- Every move of a reactor keeps the descriptors owned. -/
theorem Owned.move (h : Owned cfg s) {c : Choice} (move : Move cfg s i c s') : Owned cfg s' := by
  -- the thread moves to where it has no connection in hand, and no more events than before
  have pass : ∀ {u : State m} {pc : Pc}, s.Agrees u → u.reactors = s.reactors →
      pc.inserting = (s.reactors i).pc.inserting → pc.removing = (s.reactors i).pc.removing →
      (∀ fd, pc.registering = some fd → (s.reactors i).pc.registering = some fd) →
      pc.events.Sublist (s.reactors i).pc.events → pc.serving = none →
      Owned cfg (u.setPc i pc) := by
    intro u pc same reactors inserting removing registering events serving
    exact h.setPc same reactors inserting removing registering events (by simp [serving])
  have same : s.Agrees s := ⟨rfl, rfl, rfl, fun _ => rfl⟩
  cases move with
  | wait pc | stopped pc | interrupted pc | failed pc | batchEnd pc | due pc | notDue pc
  | sweep pc | refused pc | notAdded pc =>
    refine pass same rfl ?_ ?_ (fun _ hfd => by cases hfd) ?_ rfl <;> rw [pc] <;> rfl
  | stopEvent pc =>
    refine pass same rfl ?_ ?_ (fun _ hfd => by cases hfd) (List.nil_sublist _) rfl <;>
      rw [pc] <;> rfl
  | listenEvent pc | gone pc =>
    refine pass same rfl ?_ ?_ (fun _ hfd => by cases hfd) ?_ rfl <;> rw [pc]
    case refine_3 => exact List.sublist_cons_self _ _
    all_goals rfl
  | @scan at_ now fds pc perm =>
    refine pass same rfl ?_ ?_ (fun _ hfd => by cases hfd) (List.nil_sublist _) rfl <;> rw [pc]
    case refine_1 => rfl
    case refine_2 => cases fds <;> rfl
  | swept pc =>
    refine h.frame (i := i) rfl rfl rfl (fun _ _ _ ho => ho) (fun _ _ => rfl) ?_ (h.table i) ?_
    · intro fd hc
      exact (Reactor.claims_setPc (by rw [pc]; rfl) (by rw [pc]; rfl) fd).mp hc
    · have held : Held cfg s.files (s.epoll i) i { s.reactors i with pc := .poll } :=
        (h.held i).setPc (by rw [pc]; rfl) (by rw [pc]; rfl) (fun _ hfd => by cases hfd)
          (List.nil_sublist _) (fun _ _ hs => by cases hs)
      exact ⟨held.inserting, held.registering, held.removing, held.registered, held.raised,
        held.own, held.distinct, held.serving⟩
  | ready pc short nodup deliver => exact h.ready pc nodup deliver
  | found pc notStop notListen found => exact h.found pc notStop notListen found
  | accepted pc free new => exact h.accept pc free new rfl rfl rfl rfl rfl rfl
  | insert pc => exact h.insert pc
  | opened pc =>
    refine pass ⟨rfl, rfl, rfl, fun _ => rfl⟩ rfl ?_ ?_ ?_ ?_ rfl <;> rw [pc]
    case refine_3 => exact fun _ hfd => hfd
    all_goals rfl
  | added pc isOpen absent =>
    refine h.ctl ((h.held i).registering _ (by rw [pc]; rfl)) ?_ ?_ rfl ?_ rfl <;> rw [pc] <;> rfl
  | received | sent => exact h
  | drained pc | notRearmed pc =>
    exact h.serve same rfl (pc ▸ ⟨rfl, rfl, rfl, rfl, rfl⟩) ⟨rfl, rfl, rfl, rfl, rfl⟩
  | recvFailed pc | stalled pc | sendFailed pc | flushed pc =>
    exact h.serve same rfl (pc ▸ ⟨rfl, rfl, rfl, rfl, rfl⟩) (act_serves ..)
  | @stamp batch e k pc =>
    refine h.serve ⟨rfl, rfl, rfl, ?_⟩ rfl (pc ▸ ⟨rfl, rfl, rfl, rfl, rfl⟩)
      ⟨rfl, rfl, rfl, rfl, rfl⟩
    intro k'
    simp only [Function.update_apply]
    split
    case isTrue same => rw [same]
    case isFalse => rfl
  | @rearmed batch e k interest pc present =>
    have mem : e.fd ∈ (s.reactors i).connections := by
      rcases (h.held i).registered e.fd present with mem | hr
      · exact mem
      · simp [pc, Pc.removing] at hr
    refine h.ctl mem ?_ ?_ rfl ?_ rfl <;> rw [pc]
    case refine_3 => exact List.sublist_cons_self _ _
    all_goals rfl
  | closing pc call => exact h.closing pc call
  | @closed batch e k stage t pc call =>
    have last := closeConnection_none call
    refine h.call call (by rw [pc]; rfl) (by rw [pc]; rfl) rfl rfl rfl ?_ ?_
      (fun _ hs => by cases hs)
    · rw [pc]
      rcases last with rfl | rfl
      · exact List.sublist_cons_self _ _
      · exact .refl _
    · rintro rfl
      simp at last
  | @sweepClosing at_ fd fds stage next t pc call =>
    exact h.call call (by rw [pc]; rfl) (by rw [pc]; rfl) rfl rfl (by simp [Pc.removing])
      (List.nil_sublist _) (fun _ => List.forall_mem_nil _) (fun _ hs => by cases hs)
  | @sweepClosed at_ fd fds stage t pc call =>
    exact h.call call (by rw [pc]; rfl) (by rw [pc]; rfl) rfl rfl (by cases fds <;> rfl)
      (List.nil_sublist _) (fun _ => List.forall_mem_nil _) (fun _ hs => by cases hs)

/-- A step keeps what `Owned` says when it changes neither the descriptors nor a
reactor. -/
theorem Owned.still (h : Owned cfg s) (same : s.Agrees t) (reactors : t.reactors = s.reactors) :
    Owned cfg t where
  exclusive := reactors ▸ h.exclusive
  live i fd hc := by
    rw [same.files]
    exact h.live i fd (reactors ▸ hc)
  table i fd k hk := by
    rw [same.files, same.objects]
    exact h.table i fd k (reactors ▸ hk)
  injective := same.files ▸ h.injective
  fresh := by
    rw [same.files, same.next]
    exact h.fresh
  reserved := same.files ▸ h.reserved
  held i := by
    rw [same.files, same.epoll, reactors]
    exact h.held i

/-- Every step keeps the descriptors owned. -/
theorem Owned.step (h : Owned cfg s) {l : Label m} (hs : step cfg s l = some s') :
    Owned cfg s' := by
  cases l with
  | tick elapsed =>
    cases hs
    exact h.still ⟨rfl, rfl, rfl, fun _ => rfl⟩ rfl
  | reactor i c => exact h.move (reactorStep_move hs)
  | stopper => cases stopStep_move hs <;> exact h.still ⟨rfl, rfl, rfl, fun _ => rfl⟩ rfl

theorem owned_of_reach {ok : State m → Label m → Prop} (r : (loop m cfg).Reach ok s) :
    Owned cfg s :=
  r.invariant (owned_initial m cfg) fun _ _ _ h _ hs => h.step hs

/-- The event in hand is not done with. -/
theorem Pc.mem_events_of_serving {pc : Pc} {e : Event} {k : Sock} (h : pc.serving = some (e, k)) :
    e ∈ pc.events := by
  cases pc with
  | reading | drained | writing | rearming =>
    cases h
    exact List.mem_cons_self
  | closing batch e' k' stage =>
    cases stage with
    | account => cases h
    | erase | ctlDel | close =>
      cases h
      exact List.mem_cons_self
  | _ => cases h

/-- While an event is in hand, no accepted connection waits to be inserted. -/
theorem Pc.inserting_of_serving {pc : Pc} {p : Event × Sock} (h : pc.serving = some p) :
    pc.inserting = none := by
  cases pc with
  | insert => cases h
  | _ => rfl

/-- What an event is applied to is its own connection, open and the reactor's. -/
theorem Owned.applied (h : Owned cfg s) {e : Event} {k : Sock}
    (hs : (s.reactors i).pc.serving = some (e, k)) :
    e.raisedFor = some k ∧ s.files e.fd = some k ∧ (s.reactors i).Claims e.fd := by
  have hk := (h.held i).serving e k hs
  exact ⟨hk, (h.held i).raised e k (Pc.mem_events_of_serving hs) hk⟩

/-- The object of the connection served has its open descriptor, until the entry
is erased. -/
theorem Owned.named (h : Owned cfg s) {e : Event} {k : Sock}
    (hs : (s.reactors i).pc.serving = some (e, k)) (hr : (s.reactors i).pc.removing = none) :
    (s.objects k).fd = e.fd := by
  obtain ⟨-, hf, mem | ⟨k', hi⟩ | hr'⟩ := h.applied hs
  · obtain ⟨k', hk'⟩ := Option.isSome_iff_exists.mp (AList.lookup_isSome.mpr mem)
    obtain ⟨hf', ho⟩ := h.table i e.fd k' hk'
    rw [hf, Option.some.injEq] at hf'
    exact hf' ▸ ho
  · rw [Pc.inserting_of_serving hs] at hi
    cases hi
  · rw [hr] at hr'
    cases hr'

/-! ## The law -/

/-- A client's event, when its turn in the batch comes, is looked up under a
number that is still its connection's. Until the connection is rearmed or its
descriptor closed, what is done for the event is done to that connection, and the
number names its open socket, in the event and until the closing in the object
too. The reactors' tables have no number in common, and only open ones. -/
structure OwnEvents (cfg : Config m) (s : State m) : Prop where
  found : ∀ i e batch k, (s.reactors i).pc = .dispatch (e :: batch) → e.raisedFor = some k →
    e.fd ≠ cfg.stopFd i ∧ e.fd ≠ cfg.listenFd i ∧
      (s.reactors i).connections.lookup e.fd = some k
  applied : ∀ i e k, (s.reactors i).pc.serving = some (e, k) →
    e.raisedFor = some k ∧ s.files e.fd = some k ∧
      ((s.reactors i).pc.removing = none → (s.objects k).fd = e.fd)
  apart : ∀ i j fd, i ≠ j → fd ∈ (s.reactors i).connections → fd ∉ (s.reactors j).connections
  isOpen : ∀ i fd, fd ∈ (s.reactors i).connections → s.files fd ≠ none

/-- In every run, with any number of reactors and whatever the kernel reports, no
event is stale and no descriptor shared. -/
theorem ownEvents (r : (loop m cfg).Reachable s) : OwnEvents cfg s := by
  have h := owned_of_reach r
  constructor
  · intro i e batch k hpc hk
    obtain ⟨client, found⟩ := h.finds hpc hk
    simp only [Config.reserved, List.mem_flatMap, List.mem_finRange, true_and, not_exists,
      List.mem_cons, not_or] at client
    exact ⟨(client i).2.2.1, (client i).1, found⟩
  · intro i e k hs
    exact ⟨(h.applied hs).1, (h.applied hs).2.1, h.named hs⟩
  · intro i j fd hij hi hj
    exact hij (h.exclusive i j fd (.inl hi) (.inl hj))
  · intro i fd hfd
    exact h.live i fd (.inl hfd)

/-! ## A number reused within a batch -/

/-- Two reactors: descriptors 3 to 5 are the first one's, 6 to 8 the other's. -/
def pair : Config 2 where
  listenFd i := 3 * i + 3
  epollFd i := 3 * i + 4
  stopFd i := 3 * i + 5

/-- The listener of the reactor is readable. -/
def connecting (i : Fin 2) : Event :=
  { fd := pair.listenFd i, events := { epollin := true }, raisedFor := none }

/-- The first reactor. -/
def first : Fin 2 := .castSucc (.last 0)

/-- The other one. -/
def second : Fin 2 := .last 1

/-- The reactor makes these steps. -/
def runs (i : Fin 2) (choices : List Choice) : List (Label 2) := choices.map (Label.reactor i)

/-- In its accept loop the reactor accepts one client. -/
def accepts (i : Fin 2) (fd : Fd) : List (Label 2) :=
  runs i [.accepted fd, .go, .go, .ctlAdd true, .refused]

/-- A client connects, and the reactor accepts it. -/
def greets (i : Fin 2) (fd : Fd) : List (Label 2) :=
  runs i [.go, .ready [connecting i], .go] ++ accepts i fd

/-- The first client has hung up. -/
def hungUp : Event := { fd := 10, events := { epollhup := true }, raisedFor := some 0 }

/-- The third client, with the first one's number, has sent bytes. -/
def thirdReadable : Event := { fd := 10, events := { epollin := true }, raisedFor := some 2 }

/-- Each reactor accepts a client. Then one batch tells the first reactor that its
client has hung up and that another one is there, who gets the number. The next
batch has that client's bytes. -/
def reusedInBatch : List (Label 2) :=
  greets first 10 ++ greets second 11 ++
    runs first [.go, .go, .go, .ready [hungUp, connecting first], .go, .go, .go, .go, .go, .go] ++
    accepts first 10 ++ runs first [.go, .go, .go, .ready [thirdReadable], .go]

/-- The state in which the bytes are about to be read. -/
def reusedInBatchEnd : State 2 :=
  ((loop 2 pair).exec (loop 2 pair).start reusedInBatch).get (by decide +kernel)

/-- They are read for the third client, whose number it is now. -/
theorem ownEvents_reusedInBatch :
    (reusedInBatchEnd.reactors 0).pc = .reading [] thirdReadable 2 ∧
      reusedInBatchEnd.files 10 = some 2 ∧ OwnEvents pair reusedInBatchEnd :=
  ⟨by decide +kernel, by decide +kernel, ownEvents (.of_exec (Option.some_get _).symm)⟩

end WebServer.Reactors
