import WebServer.Laws.Pool.Idle
import WebServer.Laws.Reactor.Tables
/-! # Whom a reactor's sweep closes

A reactor sweeps between batches, when it has nothing in hand: all it has received
by then is stamped, and no other thread touches its connections. So of the pool's
condition what was sent remains (`idle_of_unsent`): the bytes sent to a connection
leave no stamp here either.
-/

namespace WebServer.Reactors

open Pool (Fd Sock Time seconds Event Closing Traffic overdue)

variable {m : Nat} {cfg : Config m} {s s' t : State m} {i : Fin m}

/-- The connection on whose behalf the next call is `recv` or `send`. -/
def Pc.io : Pc → Option Sock
  | .reading _ _ k | .writing _ _ k => some k
  | _ => none

/-- The socket behind the reactor's next `recv` or `send`. -/
def State.socket (s : State m) (i : Fin m) : Option Sock :=
  (s.reactors i).pc.io.bind fun k => s.files (s.objects k).fd

/-- What a step adds to the history. -/
def State.traffic (s : State m) (l : Label m) (h : Traffic) : Traffic :=
  match l with
  | .reactor i (.recv .data) => h.receive (s.socket i) s.now
  | .reactor i (.send .sent) => h.send (s.socket i) s.now
  | _ => h

/-- The reactors with the history of their clients' bytes. -/
def timed (m : Nat) (cfg : Config m) : Machine (State m × Traffic) (Label m) :=
  (loop m cfg).recording {} State.traffic

/-- What the sweep of the reactor is about to collect. -/
def State.collects (cfg : Config m) (s : State m) (i : Fin m) : List Fd :=
  match (s.reactors i).pc with
  | .scan _ now => s.expired cfg i now
  | _ => []

/-- The condition under which the sweep closes only silent clients, on the state
before its walk over the table: the connections it is about to collect were sent no
bytes after their stamps. Other steps are free. -/
def Unsent (cfg : Config m) (p : State m × Traffic) : Label m → Prop
  | .reactor i (.order _) =>
    ∀ fd ∈ p.1.collects cfg i, ∀ k ∈ (p.1.reactors i).connections.lookup fd, ∀ t ∈ p.2.sent k,
      t ≤ (p.1.objects k).lastActive
  | _ => True

instance (cfg : Config m) (p : State m × Traffic) : ∀ l, Decidable (Unsent cfg p l)
  | .reactor i (.order _) => inferInstanceAs (Decidable (∀ fd ∈ p.1.collects cfg i,
      ∀ k ∈ (p.1.reactors i).connections.lookup fd, ∀ t ∈ p.2.sent k,
        t ≤ (p.1.objects k).lastActive))
  | .tick _ | .stopper => isTrue trivial
  | .reactor _ .go | .reactor _ (.ready _) | .reactor _ .interrupted | .reactor _ .failed
  | .reactor _ (.accepted _) | .reactor _ .refused | .reactor _ (.ctlAdd _)
  | .reactor _ (.recv _) | .reactor _ (.send _) | .reactor _ (.flushed _)
  | .reactor _ (.ctlMod _) => isTrue trivial

/-- The descriptor that the sweep has taken out of the table and is closing. -/
def Pc.sweeping : Pc → Option Fd
  | .expire _ (fd :: _) stage => if stage.owes then some fd else none
  | _ => none

/-- A connection that a sweep has taken out of its table and is closing is silent. -/
def Idle (cfg : Config m) (s : State m) (h : Traffic) : Prop :=
  ∀ i fd k, (s.reactors i).pc.sweeping = some fd → s.files fd = some k →
    h.Silent cfg.idleTimeoutSeconds s.now k

/-- The reactor may have received bytes it has not stamped, and will stamp them or
close the connection. -/
def Pc.unstamped : Pc → Option (Event × Sock)
  | .reading _ e k | .drained _ e k | .closing _ e k .erase => some (e, k)
  | _ => none

/-- The descriptors the sweep has collected and is not done with. -/
def Pc.expiring : Pc → List Fd
  | .expire _ fds _ => fds
  | _ => []

/-- One reactor's part of the history against the stamps. -/
structure Fresh (cfg : Config m) (s : State m) (h : Traffic) (r : Reactor) : Prop where
  new : ∀ fd k, r.pc.inserting = some (fd, k) → h.received k = none
  stamped : ∀ fd k t, r.connections.lookup fd = some k → h.received k = some t →
    t ≤ (s.objects k).lastActive ∨ ∃ e, r.pc.unstamped = some (e, k)
  scan : ∀ at_ now, r.pc = .scan at_ now → now ≤ s.now
  silent : ∀ fd k, fd ∈ r.pc.expiring → r.Claims fd → s.files fd = some k →
    h.Silent cfg.idleTimeoutSeconds s.now k

/-- The history against the stamps. -/
structure Dated (cfg : Config m) (s : State m) (h : Traffic) : Prop where
  past : ∀ k t, h.received k = some t → t ≤ s.now
  unknown : ∀ k, s.next ≤ k → h.received k = none
  each : ∀ i, Fresh cfg s h (s.reactors i)

theorem dated_initial (m : Nat) (cfg : Config m) : Dated cfg (State.initial m) {} := by
  refine ⟨by simp, by simp, ?_⟩
  intro i
  constructor <;> simp [State.initial, Pc.inserting, Pc.expiring]

/-- A step of the reactor `i` with no bytes moved. -/
theorem Dated.frame {h : Traffic} (d : Dated cfg s h) (now : t.now = s.now)
    (next : s.next ≤ t.next) (other : ∀ j, j ≠ i → t.reactors j = s.reactors j)
    (files : ∀ j fd, j ≠ i → (s.reactors j).Claims fd → t.files fd = s.files fd)
    (objects : ∀ k u, h.received k = some u → u ≤ (s.objects k).lastActive →
      u ≤ (t.objects k).lastActive)
    (here : Fresh cfg t h (t.reactors i)) : Dated cfg t h where
  past k u hu := by
    rw [now]
    exact d.past k u hu
  unknown k hk := d.unknown k (next.trans hk)
  each j := by
    by_cases hj : j = i
    · subst hj
      exact here
    · rw [other j hj]
      have old := d.each j
      constructor
      · exact old.new
      · intro fd k u hk hu
        exact (old.stamped fd k u hk hu).imp_left (objects k u hu)
      · rw [now]
        exact old.scan
      · intro fd k hfd hc hk
        rw [now]
        exact old.silent fd k hfd hc (files j fd hj hc ▸ hk)

/-- All that a reactor with nothing in hand has received for its table is stamped. -/
theorem Dated.stamped {h : Traffic} (d : Dated cfg s h)
    (nothing : (s.reactors i).pc.unstamped = none) {fd : Fd} {k : Sock} {u : Time}
    (hk : (s.reactors i).connections.lookup fd = some k) (hu : h.received k = some u) :
    u ≤ (s.objects k).lastActive := by
  rcases (d.each i).stamped fd k u hk hu with old | ⟨e, hp⟩
  · exact old
  · rw [nothing] at hp
    cases hp

/-- The reactor `i` moves to where it is neither inserting nor sweeping. What it
leaves unstamped it has stamped now. -/
theorem Dated.setPc {h : Traffic} (d : Dated cfg s h) {pc : Pc} (now : t.now = s.now)
    (next : t.next = s.next) (files : t.files = s.files) (reactors : t.reactors = s.reactors)
    (objects : ∀ k u, h.received k = some u → u ≤ (s.objects k).lastActive →
      u ≤ (t.objects k).lastActive)
    (inserting : pc.inserting = none) (expiring : pc.expiring = [])
    (scan : ∀ at_ now, pc ≠ .scan at_ now)
    (leaves : ∀ e k, (s.reactors i).pc.unstamped = some (e, k) → pc.unstamped = some (e, k) ∨
      ∀ u, h.received k = some u → u ≤ (t.objects k).lastActive) :
    Dated cfg (t.setPc i pc) h := by
  refine d.frame (i := i) now next.ge ?_ (fun _ _ _ _ => by rw [← files]; rfl) objects ?_
  · intro j hj
    rw [setPc_of_ne t pc hj, reactors]
  · rw [setPc_self, reactors]
    constructor
    · simp [inserting]
    · intro fd k u hk hu
      rcases (d.each i).stamped fd k u hk hu with old | ⟨e, hp⟩
      · exact .inl (objects k u hu old)
      · rcases leaves e k hp with still | stamped
        · exact .inr ⟨e, still⟩
        · exact .inl (stamped u hu)
    · intro at_ now' hpc
      exact absurd hpc (scan at_ now')
    · simp [expiring]

/-- The connection an event is applied to is the one reactor's: no other reactor
inserts it or sweeps it, and this one is at neither. -/
theorem Owned.apart (o : Owned cfg s) {e : Event} {k : Sock}
    (hs : (s.reactors i).pc.serving = some (e, k)) :
    (∀ j fd, (s.reactors j).pc.inserting ≠ some (fd, k)) ∧
      ∀ j fd, fd ∈ (s.reactors j).pc.expiring → (s.reactors j).Claims fd →
        s.files fd ≠ some k := by
  obtain ⟨-, hf, hc⟩ := o.applied hs
  have mine : ∀ j fd, (s.reactors j).Claims fd → s.files fd = some k → j = i := by
    intro j fd hj hk
    have hfd := o.injective fd e.fd k hk hf
    subst hfd
    exact o.exclusive j i _ hj hc
  constructor
  · intro j fd hi
    have hj := mine j fd (.inr (.inl ⟨k, hi⟩)) ((o.held j).inserting fd k hi).1
    subst hj
    rw [Pc.inserting_of_serving hs] at hi
    cases hi
  · intro j fd hfd hj hk
    have hj := mine j fd hj hk
    subst hj
    cases hpc : (s.reactors j).pc with
    | expire =>
      rw [hpc] at hs
      cases hs
    | _ =>
      rw [hpc] at hfd
      cases hfd

/-- The bytes received are the client's whose event is in hand. -/
theorem Dated.receive {h : Traffic} (d : Dated cfg s h) (o : Owned cfg s) {batch : List Event}
    {e : Event} {k : Sock} (pc : (s.reactors i).pc = .reading batch e k) :
    Dated cfg s (h.receive (s.socket i) s.now) := by
  have serves : (s.reactors i).pc.serving = some (e, k) := by
    rw [pc]
    rfl
  have hf : s.files e.fd = some k := (o.applied serves).2.1
  have socket : s.socket i = some k := by
    simp only [State.socket, pc, Pc.io, Option.bind_some]
    rw [o.named serves (by rw [pc]; rfl), hf]
  obtain ⟨notNew, notExpiring⟩ := o.apart serves
  have known : k < s.next := o.fresh e.fd k hf
  rw [socket]
  refine ⟨fun k' u hu => h.receive_past d.past k k' hu, ?_, ?_⟩
  · intro k' hk'
    rw [h.receive_of_ne (Nat.ne_of_gt (Nat.lt_of_lt_of_le known hk'))]
    exact d.unknown k' hk'
  · intro j
    have old := d.each j
    constructor
    · intro fd k' hi
      have hne : k' ≠ k := by
        rintro rfl
        exact notNew j fd hi
      rw [h.receive_of_ne hne]
      exact old.new fd k' hi
    · intro fd k' u hk' hu
      by_cases hk : k' = k
      · subst hk
        have hj : j = i := by
          obtain ⟨hf', -⟩ := o.table j fd k' hk'
          have hfd := o.injective fd e.fd k' hf' hf
          subst hfd
          exact o.exclusive j i _ (.inl (AList.lookup_isSome.mp (by simp [hk'])))
            (o.applied serves).2.2
        subst hj
        exact .inr ⟨e, by rw [pc]; rfl⟩
      · exact old.stamped fd k' u hk' (h.receive_of_ne hk _ ▸ hu)
    · exact old.scan
    · intro fd k' hfd hc hk'
      refine (old.silent fd k' hfd hc hk').receive ?_ _
      rintro rfl
      exact notExpiring j fd hfd hc hk'

/-- Bytes are sent to the client whose event is in hand, and no sweep is closing
that one. -/
theorem Dated.send {h : Traffic} (d : Dated cfg s h) (o : Owned cfg s) {batch : List Event}
    {e : Event} {k : Sock} (pc : (s.reactors i).pc = .writing batch e k) :
    Dated cfg s (h.send (s.socket i) s.now) := by
  have serves : (s.reactors i).pc.serving = some (e, k) := by
    rw [pc]
    rfl
  have socket : s.socket i = some k := by
    simp only [State.socket, pc, Pc.io, Option.bind_some]
    rw [o.named serves (by rw [pc]; rfl), (o.applied serves).2.1]
  have notExpiring := (o.apart serves).2
  rw [socket]
  refine ⟨d.past, d.unknown, ?_⟩
  intro j
  have old := d.each j
  refine ⟨old.new, old.stamped, old.scan, ?_⟩
  intro fd k' hfd hc hk'
  refine (old.silent fd k' hfd hc hk').send ?_ _
  rintro rfl
  exact notExpiring j fd hfd hc hk'

/-- What the sweep collects has been silent: its stamp is old, what was received is
not later, because the reactor has nothing in hand, and what was sent is not by the
condition. -/
theorem Dated.collect {h : Traffic} (d : Dated cfg s h) (o : Owned cfg s) {at_ now : Time}
    {fds : List Fd} (pc : (s.reactors i).pc = .scan at_ now)
    (perm : fds.Perm (s.expired cfg i now)) (ok : Unsent cfg (s, h) (.reactor i (.order fds)))
    {fd : Fd} {k : Sock} (hfd : fd ∈ fds) (hk : s.files fd = some k) :
    h.Silent cfg.idleTimeoutSeconds s.now k := by
  have listed : fd ∈ s.expired cfg i now := perm.mem_iff.mp hfd
  have collected : fd ∈ s.collects cfg i := by
    rw [State.collects, pc]
    exact listed
  simp only [State.expired, List.mem_map, List.mem_filter, decide_eq_true_eq] at listed
  obtain ⟨⟨fd', k'⟩, ⟨entry, old⟩, rfl⟩ := listed
  have found : (s.reactors i).connections.lookup fd' = some k' := AList.mem_lookup_iff.mpr entry
  have hk' := (o.table i fd' k' found).1
  rw [hk, Option.some.injEq] at hk'
  subst hk'
  have before := (d.each i).scan at_ now pc
  constructor
  · intro u hu
    exact overdue old before (d.stamped (by rw [pc]; rfl) found hu)
  · intro u hu
    exact overdue old before (ok fd' collected k found u hu)

/-- A reactor that closes the descriptor it is charged with closes no other
reactor's. -/
theorem Owned.callApart (o : Owned cfg s) {fd : Fd} {stage : Closing} {next : Option Closing}
    (call : closeConnection s i fd stage = (t, next))
    (removing : (s.reactors i).pc.removing = if stage.owes then some fd else none) {j : Fin m}
    (hj : j ≠ i) {fd' : Fd} (hc : (s.reactors j).Claims fd') : t.files fd' = s.files fd' := by
  cases stage with
  | close =>
    apply (closeConnection_less call).2.1
    rintro rfl
    exact hj (o.exclusive j i fd' hc (.inr (.inr removing)))
  | erase =>
    simp only [closeConnection] at call
    split at call <;> cases call <;> rfl
  | ctlDel | account =>
    cases call
    rfl

/-- After its erasing a connection is under no number in the table, and so it is
when there was nothing to erase. -/
theorem Owned.erased (o : Owned cfg s) {batch : List Event} {e : Event} {k : Sock}
    {next : Option Closing} (pc : (s.reactors i).pc = .closing batch e k .erase)
    (call : closeConnection s i e.fd .erase = (t, next)) (fd : Fd) :
    (t.reactors i).connections.lookup fd ≠ some k := by
  intro hk
  have named := (o.table i fd k ((closeConnection_less call).2.2 fd k hk)).2
  rw [o.named (e := e) (by rw [pc]; rfl) (by rw [pc]; rfl)] at named
  subst named
  simp only [closeConnection] at call
  split at call
  case isTrue =>
    cases call
    simp [State.setReactor, AList.lookup_erase] at hk
  case isFalse gone =>
    cases call
    rw [← AList.lookup_eq_none] at gone
    rw [gone] at hk
    cases hk

/-- A call of `closeConnection` for the event in hand. -/
theorem Dated.closing {h : Traffic} (d : Dated cfg s h) (o : Owned cfg s) {batch : List Event}
    {e : Event} {k : Sock} {stage : Closing} {next : Option Closing} {pc : Pc}
    (hpc : (s.reactors i).pc = .closing batch e k stage)
    (call : closeConnection s i e.fd stage = (t, next)) (inserting : pc.inserting = none)
    (expiring : pc.expiring = []) (scan : ∀ at_ now, pc ≠ .scan at_ now) :
    Dated cfg (t.setPc i pc) h := by
  obtain ⟨other, -, next, now, objects⟩ := closeConnection_frame call
  refine d.frame (i := i) now next.ge ?_ ?_ ?_ ?_
  · intro j hj
    rw [setPc_of_ne t pc hj, other j hj]
  · intro j fd hj hc
    exact o.callApart call (by rw [hpc]; rfl) hj hc
  · intro k' u _ old
    exact objects ▸ old
  · rw [setPc_self]
    constructor
    · simp [inserting]
    · intro fd k' u hk hu
      rcases (d.each i).stamped fd k' u ((closeConnection_less call).2.2 fd k' hk) hu with
        old | ⟨e', hp⟩
      · exact .inl (objects ▸ old)
      · rw [hpc] at hp
        cases stage with
        | erase =>
          cases hp
          exact absurd hk (o.erased hpc call fd)
        | ctlDel | close | account => cases hp
    · intro at_ now' hs
      exact absurd hs (scan at_ now')
    · simp [expiring]

/-- A call of `closeConnection` by the sweep, which is charged with no more after
it. -/
theorem Dated.sweeping {h : Traffic} (d : Dated cfg s h) (o : Owned cfg s) {at_ : Time} {fd : Fd}
    {fds : List Fd} {stage : Closing} {next : Option Closing} {pc : Pc}
    (hpc : (s.reactors i).pc = .expire at_ (fd :: fds) stage)
    (call : closeConnection s i fd stage = (t, next)) (inserting : pc.inserting = none)
    (removing : pc.removing = if next.any Closing.owes then some fd else none)
    (expiring : pc.expiring ⊆ fd :: fds) (scan : ∀ at_ now, pc ≠ .scan at_ now) :
    Dated cfg (t.setPc i pc) h := by
  have charged : (s.reactors i).pc.removing = if stage.owes then some fd else none := by
    rw [hpc]
    rfl
  obtain ⟨other, -, next, now, objects⟩ := closeConnection_frame call
  have claims : ∀ fd', Reactor.Claims { t.reactors i with pc := pc } fd' →
      (s.reactors i).Claims fd' := by
    rintro fd' (mem | ⟨k, hi⟩ | hr)
    · obtain ⟨k, hk⟩ := Option.isSome_iff_exists.mp (AList.lookup_isSome.mpr mem)
      have := (closeConnection_less call).2.2 fd' k hk
      exact .inl (AList.lookup_isSome.mp (by simp [this]))
    · rw [inserting] at hi
      cases hi
    · rw [removing] at hr
      cases stage with
      | erase =>
        simp only [closeConnection] at call
        split at call
        case isTrue mem =>
          cases call
          cases hr
          exact .inl mem
        case isFalse =>
          cases call
          cases hr
      | ctlDel =>
        cases call
        cases hr
        exact .inr (.inr charged)
      | close | account =>
        cases call
        cases hr
  refine d.frame (i := i) now next.ge ?_ ?_ ?_ ?_
  · intro j hj
    rw [setPc_of_ne t pc hj, other j hj]
  · intro j fd' hj hc
    exact o.callApart call charged hj hc
  · intro k u _ old
    exact objects ▸ old
  · rw [setPc_self]
    constructor
    · simp [inserting]
    · intro fd' k u hk hu
      have old := d.stamped (by rw [hpc]; rfl) ((closeConnection_less call).2.2 fd' k hk) hu
      exact .inl (objects ▸ old)
    · intro at_' now' hs
      exact absurd hs (scan at_' now')
    · intro fd' k hfd hc hk
      have silent := (d.each i).silent fd' k (by rw [hpc]; exact expiring hfd) (claims fd' hc)
        ((closeConnection_less call).1 fd' k hk)
      exact now ▸ silent

/-- A socket just accepted has sent nothing yet. -/
theorem Dated.accept {h : Traffic} (d : Dated cfg s h) (o : Owned cfg s) {batch : List Event}
    {fd : Fd} (pc : (s.reactors i).pc = .accept batch) (free : s.files fd = none) :
    Dated cfg ({ s with
      files := Function.update s.files fd (some s.next)
      next := s.next + 1 }.setPc i (.insert batch fd s.next)) h := by
  refine d.frame (i := i) rfl (Nat.le_succ _) ?_ ?_ (fun _ _ _ old => old) ?_
  · intro j hj
    exact setPc_of_ne _ _ hj
  · intro j fd' _ hc
    refine Function.update_of_ne ?_ _ _
    rintro rfl
    exact o.live j fd' hc free
  · rw [setPc_self]
    refine ⟨?_, ?_, by simp, by simp [Pc.expiring]⟩
    · intro fd' k hi
      cases hi
      exact d.unknown s.next le_rfl
    · intro fd' k u hk hu
      exact .inl (d.stamped (by rw [pc]; rfl) hk hu)

/-- The object of a new connection is stamped before anything is received. -/
theorem Dated.insert {h : Traffic} (d : Dated cfg s h) {batch : List Event} {fd : Fd} {k : Sock}
    (pc : (s.reactors i).pc = .insert batch fd k) :
    Dated cfg ({ s with
      objects := Function.update s.objects k { fd := fd, lastActive := s.now } }.setReactor i
        { s.reactors i with
          connections := (s.reactors i).connections.insert fd k
          pc := .opened batch fd }) h := by
  have fresh : h.received k = none := (d.each i).new fd k (by rw [pc]; rfl)
  have known : ∀ k' u, h.received k' = some u → k' ≠ k := by
    rintro k' u hu rfl
    rw [fresh] at hu
    cases hu
  refine d.frame (i := i) rfl le_rfl ?_ (fun _ _ _ _ => rfl) ?_ ?_
  · intro j hj
    exact Function.update_of_ne hj _ _
  · intro k' u hu old
    simp only [State.setReactor, Function.update_of_ne (known k' u hu)]
    exact old
  · simp only [State.setReactor, Function.update_self]
    refine ⟨by simp [Pc.inserting], ?_, by simp, by simp [Pc.expiring]⟩
    intro fd' k' u hk hu
    have hne := known k' u hu
    have hfd : fd' ≠ fd := by
      rintro rfl
      simp only [AList.lookup_insert, Option.some.injEq] at hk
      exact hne hk.symm
    simp only [AList.lookup_insert_ne hfd] at hk
    simp only [Function.update_of_ne hne]
    exact .inl (d.stamped (by rw [pc]; rfl) hk hu)

/-- With nothing in hand the reactor goes to or from its sweep. -/
theorem Dated.setReactor {h : Traffic} (d : Dated cfg s h) {r : Reactor}
    (connections : r.connections = (s.reactors i).connections)
    (nothing : (s.reactors i).pc.unstamped = none) (inserting : r.pc.inserting = none)
    (scan : ∀ at_ now, r.pc = .scan at_ now → now ≤ s.now)
    (silent : ∀ fd k, fd ∈ r.pc.expiring → s.files fd = some k →
      h.Silent cfg.idleTimeoutSeconds s.now k) : Dated cfg (s.setReactor i r) h := by
  refine d.frame (i := i) rfl le_rfl ?_ (fun _ _ _ _ => rfl) (fun _ _ _ old => old) ?_
  · intro j hj
    exact Function.update_of_ne hj _ _
  · simp only [State.setReactor, Function.update_self]
    refine ⟨by simp [inserting], ?_, scan, ?_⟩
    · intro fd k u hk hu
      rw [connections] at hk
      exact .inl (d.stamped nothing hk hu)
    · intro fd k hfd _ hk
      exact silent fd k hfd hk

/-- The reactor goes on, and has what was unstamped still in hand. -/
theorem Dated.goOn {h : Traffic} (d : Dated cfg s h) {pc : Pc} (now : t.now = s.now)
    (next : t.next = s.next) (files : t.files = s.files) (reactors : t.reactors = s.reactors)
    (objects : t.objects = s.objects) (inserting : pc.inserting = none)
    (expiring : pc.expiring = []) (scan : ∀ at_ now, pc ≠ .scan at_ now)
    (unstamped : ∀ p, (s.reactors i).pc.unstamped = some p → pc.unstamped = some p) :
    Dated cfg (t.setPc i pc) h := by
  refine d.setPc now next files reactors ?_ inserting expiring scan ?_
  · intro k u _ old
    rwa [objects]
  · intro e k hp
    exact .inl (unstamped _ hp)

/-- What was received is stamped. -/
theorem Dated.stamp {h : Traffic} (d : Dated cfg s h) {batch : List Event} {e : Event} {k : Sock}
    (pc : (s.reactors i).pc = .drained batch e k) :
    Dated cfg ({ s with
      objects := Function.update s.objects k
        { s.objects k with lastActive := s.now } }.setPc i (.writing batch e k)) h := by
  refine d.setPc rfl rfl rfl rfl ?_ rfl rfl (by simp) ?_
  · intro k' u hu old
    simp only [Function.update_apply]
    split
    case isTrue => exact d.past k' u hu
    case isFalse => exact old
  · intro e' k' hp
    rw [pc] at hp
    cases hp
    refine .inr ?_
    intro u hu
    simp only [Function.update_self]
    exact d.past k u hu

/-! ## Every step -/

/-- Every move of a reactor keeps the history dated. -/
theorem Dated.move {h : Traffic} (d : Dated cfg s h) (o : Owned cfg s) {c : Choice}
    (ok : Unsent cfg (s, h) (.reactor i c)) (move : Move cfg s i c s') :
    Dated cfg s' (s.traffic (.reactor i c) h) := by
  have scanless : ∀ {e : Event} {k : Sock} {batch : List Event} {action : Action} (at_ now : Time),
      act batch e k action ≠ .scan at_ now := by
    intro e k batch action at_ now
    cases action <;> simp [act]
  cases move with
  | @received batch e k r pc =>
    cases r with
    | data => exact d.receive o pc
    | _ => exact d
  | @sent batch e k r pc =>
    cases r with
    | sent => exact d.send o pc
    | _ => exact d
  | stamp pc => exact d.stamp pc
  | accepted pc free => exact d.accept o pc free
  | insert pc => exact d.insert pc
  | scan pc perm =>
    refine d.setReactor rfl (by rw [pc]; rfl) rfl (by simp) ?_
    intro fd k hfd hk
    exact d.collect o pc perm ok hfd hk
  | sweep pc =>
    refine d.setReactor rfl (by rw [pc]; rfl) rfl ?_ (by simp [Pc.expiring])
    intro at_ now hs
    cases hs
    exact Int.le_refl _
  | swept pc => exact d.setReactor rfl (by rw [pc]; rfl) rfl (by simp) (by simp [Pc.expiring])
  | closing pc call => exact d.closing o pc call rfl rfl (by simp)
  | closed pc call => exact d.closing o pc call rfl rfl (by simp)
  | @sweepClosing at_ fd fds stage next t pc call =>
    exact d.sweeping o pc call rfl (by simp [Pc.removing]) (List.Subset.refl _) (by simp)
  | @sweepClosed at_ fd fds stage t pc call =>
    exact d.sweeping o pc call rfl (by cases fds <;> rfl) (List.subset_cons_self _ _) (by simp)
  | drained pc ends =>
    obtain rfl | rfl := ends <;>
      refine d.goOn rfl rfl rfl rfl rfl rfl rfl (by simp) ?_ <;>
      exact fun p hp => by rwa [pc] at hp
  | recvFailed pc =>
    refine d.goOn rfl rfl rfl rfl rfl rfl rfl (by simp [act]) ?_
    exact fun p hp => by rwa [pc] at hp
  | @found e batch k pc =>
    have entered : ∀ at_ now, enter batch e k ≠ .scan at_ now := by
      intro at_ now
      unfold enter
      split
      · simp
      · split <;> simp
    refine d.goOn rfl rfl rfl rfl rfl (enter_serves batch e k).inserting ?_ entered ?_
    · unfold enter
      split
      · rfl
      · split <;> rfl
    · intro p hp
      rw [pc] at hp
      cases hp
  | stalled pc | sendFailed pc | notRearmed pc =>
    refine d.goOn rfl rfl rfl rfl rfl rfl rfl (by simp [act]) ?_
    intro p hp
    rw [pc] at hp
    cases hp
  | @flushed batch e k close pc =>
    refine d.goOn rfl rfl rfl rfl rfl (act_serves ..).inserting ?_ scanless ?_
    · cases close <;> rfl
    · intro p hp
      rw [pc] at hp
      cases hp
  | _ pc =>
    refine d.goOn rfl rfl rfl rfl rfl rfl rfl (by simp) ?_
    intro p hp
    rw [pc] at hp
    cases hp

/-- Every step keeps the history dated. -/
theorem Dated.step {h : Traffic} (d : Dated cfg s h) (o : Owned cfg s) {l : Label m}
    (ok : Unsent cfg (s, h) l) (hs : step cfg s l = some s') :
    Dated cfg s' (s.traffic l h) := by
  cases l with
  | tick elapsed =>
    cases hs
    have later : s.now ≤ s.now + elapsed := Int.le_add_of_nonneg_right (Int.natCast_nonneg _)
    refine ⟨?_, d.unknown, ?_⟩
    · intro k u hu
      exact Int.le_trans (d.past k u hu) later
    · intro i
      have old := d.each i
      refine ⟨old.new, old.stamped, ?_, ?_⟩
      · intro at_ now pc
        exact Int.le_trans (old.scan at_ now pc) later
      · intro fd k hfd hc hk
        exact (old.silent fd k hfd hc hk).later later
  | reactor i c => exact d.move o ok (reactorStep_move hs)
  | stopper =>
    cases stopStep_move hs <;> refine ⟨d.past, d.unknown, ?_⟩ <;> intro i <;>
      exact ⟨(d.each i).new, (d.each i).stamped, (d.each i).scan, (d.each i).silent⟩

/-- A sweep is charged with what it is closing. -/
theorem Pc.expiring_of_sweeping {pc : Pc} {fd : Fd} (h : pc.sweeping = some fd) :
    fd ∈ pc.expiring ∧ pc.removing = some fd := by
  cases pc with
  | expire at_ fds stage =>
    cases fds with
    | nil => cases h
    | cons fd' fds =>
      refine ⟨?_, h⟩
      simp only [Pc.sweeping] at h
      split at h
      · cases h
        exact List.mem_cons_self
      · cases h
  | _ => cases h

/-- On runs in which no sweep collects a client that was sent bytes after its stamp,
the sweeps close only clients that have been silent for longer than the timeout. -/
theorem idle_of_unsent {p : State m × Traffic} (r : (timed m cfg).Reach (Unsent cfg) p) :
    Idle cfg p.1 p.2 := by
  have h : Owned cfg p.1 ∧ Dated cfg p.1 p.2 := by
    refine r.invariant (I := fun p => Owned cfg p.1 ∧ Dated cfg p.1 p.2)
      ⟨owned_initial m cfg, dated_initial m cfg⟩ ?_
    rintro p l q ⟨o, d⟩ ok hs
    obtain ⟨hs, hq⟩ := Machine.recording_step hs
    rw [hq]
    exact ⟨o.step hs, d.step o ok hs⟩
  intro i fd k hr hk
  obtain ⟨hfd, hr⟩ := Pc.expiring_of_sweeping hr
  exact (h.2.each i).silent fd k hfd (.inr (.inr hr)) hk

end WebServer.Reactors
