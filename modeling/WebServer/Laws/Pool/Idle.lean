import WebServer.Base.History
import WebServer.Laws.Pool.Serving
/-! # Whom the pool's sweep closes

The sweep measures silence by `lastActive`, and `lastActive` is set in one place:
in `onReadable`, after the socket was drained. What a clean run receives is
stamped before the sweep can look; bytes that the client takes leave no trace.
`Traffic` is the history that the loop does not keep, of when bytes last came from
and went to each socket. `Attentive` asks of each walk of the sweep what the code does
not check: that whom it finds too old was sent nothing after the stamp it goes by, and
has no event waiting. On runs that meet it the sweep closes only clients that have been
silent both ways (`idle_of_attentive`).

What `stop()` does is no part of the condition, and a run may go on after it. When it
closes a descriptor that has an event waiting, the loop is torn: a worker may then
receive on the socket of another. So a torn loop may not collect anybody; what was
collected before stays silent (`Settled`).
-/

namespace WebServer.Pool

variable {n : Nat} {cfg : Config} {s s' : State n}

/-- When bytes were last received from, and last sent to, each socket. -/
structure Traffic where
  received : Sock → Option Time := fun _ => none
  sent : Sock → Option Time := fun _ => none

/-- `recv` returned bytes of the socket. -/
def Traffic.receive (h : Traffic) (socket : Option Sock) (now : Time) : Traffic :=
  match socket with
  | none => h
  | some k => { h with received := Function.update h.received k (some now) }

/-- `send` took bytes for the socket. -/
def Traffic.send (h : Traffic) (socket : Option Sock) (now : Time) : Traffic :=
  match socket with
  | none => h
  | some k => { h with sent := Function.update h.sent k (some now) }

/-- The last byte either way is more than `idleTimeoutSeconds` old. -/
structure Traffic.Silent (h : Traffic) (idleTimeoutSeconds : Int) (now : Time) (k : Sock) :
    Prop where
  received : ∀ t, h.received k = some t → now - t > seconds idleTimeoutSeconds
  sent : ∀ t, h.sent k = some t → now - t > seconds idleTimeoutSeconds

/-- What the sweep found too old then is too old now. -/
theorem overdue {now₀ now stamp t timeout : Time} (old : now₀ - stamp > timeout)
    (since : now₀ ≤ now) (before : t ≤ stamp) : now - t > timeout := by
  simp only [Time] at *
  omega

/-- A stamp that was set after the sweep is not too old for it. -/
theorem within {swept now : Time} {patience : Int} (past : swept ≤ now) (patient : 0 ≤ patience) :
    swept - now ≤ patience := by
  simp only [Time] at *
  omega

/-- Who was silent is silent while no byte moves. -/
theorem Traffic.Silent.later {h : Traffic} {timeout : Int} {now₀ now : Time} {k : Sock}
    (silent : h.Silent timeout now₀ k) (since : now₀ ≤ now) : h.Silent timeout now k where
  received t ht := overdue (silent.received t ht) since (Int.le_refl t)
  sent t ht := overdue (silent.sent t ht) since (Int.le_refl t)

theorem Traffic.receive_of_ne (h : Traffic) {k k' : Sock} (hne : k' ≠ k) (now : Time) :
    (h.receive (some k) now).received k' = h.received k' :=
  Function.update_of_ne hne _ _

theorem Traffic.send_of_ne (h : Traffic) {k k' : Sock} (hne : k' ≠ k) (now : Time) :
    (h.send (some k) now).sent k' = h.sent k' :=
  Function.update_of_ne hne _ _

/-- Nothing has been received later than now, and what is received now neither. -/
theorem Traffic.receive_past {h : Traffic} {now : Time}
    (past : ∀ k t, h.received k = some t → t ≤ now) (k k' : Sock) {t : Time}
    (ht : (h.receive (some k) now).received k' = some t) : t ≤ now := by
  by_cases hk : k' = k
  · simp only [hk, Traffic.receive, Function.update_self, Option.some.injEq] at ht
    exact Int.le_of_eq ht.symm
  · exact past k' t (h.receive_of_ne hk now ▸ ht)

/-- Bytes from another socket do not end a silence. -/
theorem Traffic.Silent.receive {h : Traffic} {timeout : Int} {now : Time} {k k' : Sock}
    (silent : h.Silent timeout now k') (hne : k' ≠ k) (u : Time) :
    (h.receive (some k) u).Silent timeout now k' where
  received := by
    rw [h.receive_of_ne hne]
    exact silent.received
  sent := silent.sent

/-- Bytes to another socket do not end a silence. -/
theorem Traffic.Silent.send {h : Traffic} {timeout : Int} {now : Time} {k k' : Sock}
    (silent : h.Silent timeout now k') (hne : k' ≠ k) (u : Time) :
    (h.send (some k) u).Silent timeout now k' where
  received := silent.received
  sent := by
    rw [h.send_of_ne hne]
    exact silent.sent

/-- The socket behind the worker's next `recv` or `send`. -/
def State.socket (s : State n) (w : Fin n) : Option Sock :=
  (s.workers w).io.bind fun k => s.files (s.objects k).fd

/-- What a step adds to the history. -/
def State.traffic (s : State n) (l : Label n) (h : Traffic) : Traffic :=
  match l with
  | .worker w (.recv .data) => h.receive (s.socket w) s.now
  | .worker w (.send .sent) => h.send (s.socket w) s.now
  | _ => h

/-- The history: the bytes, and whether `stop()` has closed a descriptor that was not
quiet. -/
structure Past where
  traffic : Traffic := {}
  torn : Bool := false

/-- `stop()` is about to close a descriptor that is not quiet. -/
def State.tears (s : State n) : Label n → Bool
  | .stopper .go => s.stops.any fun fd => !decide (s.Quiet fd)
  | _ => false

def State.past (s : State n) (l : Label n) (h : Past) : Past where
  traffic := s.traffic l h.traffic
  torn := h.torn || s.tears l

/-- The pool loop with its history. -/
def timed (n : Nat) (cfg : Config) : Machine (State n × Past) (Label n) :=
  (loop n cfg).recording {} State.past

/-- What the sweep is about to collect has no event waiting, `stop()` has closed nothing
that had one, and the connection was sent no bytes after its stamp. -/
structure Collectable (s : State n) (h : Past) (fd : Fd) : Prop where
  quiet : s.Quiet fd
  whole : h.torn = false
  unsent : ∀ k ∈ s.connections.lookup fd, ∀ t ∈ h.traffic.sent k, t ≤ (s.objects k).lastActive

instance (s : State n) (h : Past) (fd : Fd) : Decidable (Collectable s h fd) :=
  decidable_of_iff (s.Quiet fd ∧ h.torn = false ∧
      ∀ k ∈ s.connections.lookup fd, ∀ t ∈ h.traffic.sent k, t ≤ (s.objects k).lastActive)
    ⟨fun ⟨quiet, whole, unsent⟩ => ⟨quiet, whole, unsent⟩,
      fun ⟨quiet, whole, unsent⟩ => ⟨quiet, whole, unsent⟩⟩

/-- The condition under which the sweep closes only silent clients, on the state before
its walk over the table. Other steps are free. -/
def Attentive (cfg : Config) (p : State n × Past) : Label n → Prop
  | .accepter (.order _) => ∀ fd ∈ p.1.collects cfg, Collectable p.1 p.2 fd
  | _ => True

instance (cfg : Config) (p : State n × Past) : ∀ l, Decidable (Attentive cfg p l)
  | .accepter (.order _) => inferInstanceAs (Decidable (∀ fd ∈ p.1.collects cfg,
      Collectable p.1 p.2 fd))
  | .tick _ | .worker _ _ | .stopper _ => isTrue trivial
  | .accepter .go | .accepter (.ready _) | .accepter .interrupted | .accepter .failed
  | .accepter (.accepted _) | .accepter .refused | .accepter (.ctlAdd _) => isTrue trivial

/-- A connection that the sweep has taken out of the table and is closing is
silent. -/
def Idle (cfg : Config) (s : State n) (h : Traffic) : Prop :=
  ∀ fd k, s.accepter.removing = some fd → s.files fd = some k →
    h.Silent cfg.idleTimeoutSeconds s.now k

/-- The worker may have received bytes it has not stamped, and will stamp them or
close the connection. -/
def WorkerPc.unstamped : WorkerPc → Option (Event × Sock)
  | .reading e k | .drained e k | .served e k .close | .closing e k .erase => some (e, k)
  | _ => none

/-- The history against the stamps. -/
structure Dated (cfg : Config) (s : State n) (h : Traffic) : Prop where
  past : ∀ k t, h.received k = some t → t ≤ s.now
  unknown : ∀ k, s.next ≤ k → h.received k = none
  new : ∀ fd k, s.accepter.inserting = some (fd, k) → h.received k = none
  stamped : ∀ fd k t, s.connections.lookup fd = some k → h.received k = some t →
    t ≤ (s.objects k).lastActive ∨ ∃ w e, (s.workers w).unstamped = some (e, k)
  scan : ∀ at_ now, s.accepter = .scan at_ now → now ≤ s.now
  silent : ∀ fd k, fd ∈ s.accepter.expiring → s.files fd = some k →
    h.Silent cfg.idleTimeoutSeconds s.now k

theorem dated_initial (n : Nat) (cfg : Config) : Dated cfg (State.initial n cfg) {} := by
  constructor <;> simp [State.initial, AcceptPc.inserting, AcceptPc.expiring]

/-- A worker with unstamped bytes is serving the connection. -/
theorem WorkerPc.serving_of_unstamped {pc : WorkerPc} {p : Event × Sock}
    (h : pc.unstamped = some p) : pc.serving = some p := by
  cases pc with
  | reading | drained => exact h
  | served e k action =>
    cases action with
    | close => exact h
    | waitRead | waitWrite => cases h
  | closing e k stage =>
    cases stage with
    | erase => exact h
    | ctlDel | close | account => cases h
  | _ => cases h

/-- A step of the accept thread or of `stop()`, with no bytes moved: nobody is
entered in the table, and nobody new is collected. -/
theorem Dated.frame {h : Traffic} (d : Dated cfg s h) (now : s'.now = s.now)
    (next : s.next ≤ s'.next) (objects : s'.objects = s.objects) (workers : s'.workers = s.workers)
    (connections : ∀ fd k, s'.connections.lookup fd = some k → s.connections.lookup fd = some k)
    (new : ∀ fd k, s'.accepter.inserting = some (fd, k) → h.received k = none)
    (scan : ∀ at_ now, s'.accepter = .scan at_ now → now ≤ s.now)
    (silent : ∀ fd k, fd ∈ s'.accepter.expiring → s'.files fd = some k →
      fd ∈ s.accepter.expiring ∧ s.files fd = some k) : Dated cfg s' h where
  past k t ht := by
    rw [now]
    exact d.past k t ht
  unknown k hk := d.unknown k (next.trans hk)
  new := new
  stamped fd k t hk ht := by
    rw [objects, workers]
    exact d.stamped fd k t (connections fd k hk) ht
  scan at_ now' hpc := by
    rw [now]
    exact scan at_ now' hpc
  silent fd k hfd hk := by
    obtain ⟨hfd, hk⟩ := silent fd k hfd hk
    rw [now]
    exact d.silent fd k hfd hk

/-- A worker's step with no bytes moved. What it leaves unstamped it has stamped
now, or the connection is not in the table. -/
theorem Dated.moveWorker {h : Traffic} (d : Dated cfg s h) {w : Fin n} {pc : WorkerPc}
    (now : s'.now = s.now) (next : s'.next = s.next) (accepter : s'.accepter = s.accepter)
    (workers : s'.workers = Function.update s.workers w pc)
    (files : ∀ fd k, s'.files fd = some k → s.files fd = some k)
    (connections : ∀ fd k, s'.connections.lookup fd = some k → s.connections.lookup fd = some k)
    (objects : ∀ k t, h.received k = some t → t ≤ (s.objects k).lastActive →
      t ≤ (s'.objects k).lastActive)
    (leaves : ∀ e k, (s.workers w).unstamped = some (e, k) → pc.unstamped = some (e, k) ∨
      (∀ t, h.received k = some t → t ≤ (s'.objects k).lastActive) ∨
      ∀ fd, s'.connections.lookup fd ≠ some k) : Dated cfg s' h where
  past k t ht := by
    rw [now]
    exact d.past k t ht
  unknown := by
    rw [next]
    exact d.unknown
  new := by
    rw [accepter]
    exact d.new
  stamped fd k t hk ht := by
    rcases d.stamped fd k t (connections fd k hk) ht with old | ⟨w', e, hw⟩
    · exact .inl (objects k t ht old)
    · by_cases same : w' = w
      · subst same
        rcases leaves e k hw with still | stamped | gone
        · exact .inr ⟨w', e, by rw [workers, Function.update_self, still]⟩
        · exact .inl (stamped t ht)
        · exact absurd hk (gone fd)
      · exact .inr ⟨w', e, by rw [workers, Function.update_of_ne same, hw]⟩
  scan := by
    rw [accepter, now]
    exact d.scan
  silent fd k hfd hk := by
    rw [accepter] at hfd
    rw [now]
    exact d.silent fd k hfd (files fd k hk)

/-- A client whose event is with a worker: nothing the accept thread is busy with
is its connection. -/
theorem Kept.apart (kept : Kept cfg s) {w : Fin n} {e : Event} {k : Sock}
    (hs : (s.workers w).serving = some (e, k)) :
    (∀ fd, s.accepter.inserting ≠ some (fd, k)) ∧
      ∀ fd ∈ s.accepter.expiring, s.files fd ≠ some k := by
  have named := kept.named hs
  have held : (s.workers w).event = some e := WorkerPc.event_of_serving hs
  constructor
  · intro fd hi
    have hfd : fd = e.fd := kept.owned.injective _ _ k (kept.owned.inserting fd k hi) named
    subst hfd
    have registering : s.Turn .registering e.fd := by
      refine ⟨?_, by simp [named]⟩
      cases hpc : s.accepter with
      | insert =>
        rw [hpc] at hi
        simp only [AcceptPc.inserting, Option.some.injEq, Prod.mk.injEq] at hi
        simp [AcceptPc.registering, hi.1]
      | _ =>
        rw [hpc] at hi
        cases hi
    have client : e.raisedFor ≠ none := by simp [(kept.serving w e k hs).1]
    have worker : s.Turn (.worker w) e.fd := ⟨e, held, client, rfl⟩
    cases kept.exclusive _ _ _ registering worker
  · intro fd hfd hk
    refine kept.expiring fd hfd e (.inr ⟨w, held⟩) ?_
    exact (kept.owned.injective fd e.fd k hk named).symm

/-- The bytes received are the client's whose connection the worker serves. -/
theorem Dated.receive {h : Traffic} (d : Dated cfg s h) (kept : Kept cfg s) {w : Fin n}
    {e : Event} {k : Sock} (pc : s.workers w = .reading e k) :
    Dated cfg s (h.receive (s.socket w) s.now) := by
  have serves : (s.workers w).serving = some (e, k) := by
    rw [pc]
    rfl
  have socket : s.socket w = some k := by
    simp only [State.socket, pc, WorkerPc.io, Option.bind_some]
    exact kept.ioSafe.socket w k (by rw [pc]; rfl)
  obtain ⟨notNew, notExpiring⟩ := kept.apart serves
  have known : k < s.next := kept.owned.fresh e.fd k (kept.named serves)
  rw [socket]
  constructor
  · exact fun k' t ht => h.receive_past d.past k k' ht
  · intro k' hk'
    rw [h.receive_of_ne (Nat.ne_of_gt (Nat.lt_of_lt_of_le known hk'))]
    exact d.unknown k' hk'
  · intro fd k' hi
    have hne : k' ≠ k := by
      rintro rfl
      exact notNew fd hi
    rw [h.receive_of_ne hne]
    exact d.new fd k' hi
  · intro fd k' t hk' ht
    by_cases hk : k' = k
    · exact .inr ⟨w, e, by rw [pc, hk]; rfl⟩
    · exact d.stamped fd k' t hk' (h.receive_of_ne hk _ ▸ ht)
  · exact d.scan
  · intro fd k' hfd hk'
    refine (d.silent fd k' hfd hk').receive ?_ _
    rintro rfl
    exact notExpiring fd hfd hk'

/-- Bytes are sent to the client whose connection the worker serves, and the sweep
is not closing that one. -/
theorem Dated.send {h : Traffic} (d : Dated cfg s h) (kept : Kept cfg s) {w : Fin n}
    {e : Event} {k : Sock} (pc : s.workers w = .writing e k) :
    Dated cfg s (h.send (s.socket w) s.now) := by
  have socket : s.socket w = some k := by
    simp only [State.socket, pc, WorkerPc.io, Option.bind_some]
    exact kept.ioSafe.socket w k (by rw [pc]; rfl)
  have notExpiring := (kept.apart (w := w) (e := e) (k := k) (by rw [pc]; rfl)).2
  rw [socket]
  refine ⟨d.past, d.unknown, d.new, d.stamped, d.scan, ?_⟩
  intro fd k' hfd hk'
  refine (d.silent fd k' hfd hk').send ?_ _
  rintro rfl
  exact notExpiring fd hfd hk'

/-- What the sweep collects has been silent: its stamp is old, what was received is not
later, because it is quiet, and what was sent is not by the condition. -/
theorem Dated.collect {h : Past} (d : Dated cfg s h.traffic) (kept : Kept cfg s) {at_ now : Time}
    {fds : List Fd} (pc : s.accepter = .scan at_ now) (perm : fds.Perm (s.expired cfg now))
    (ok : Attentive cfg (s, h) (.accepter (.order fds))) {fd : Fd} {k : Sock} (hfd : fd ∈ fds)
    (hk : s.files fd = some k) : h.traffic.Silent cfg.idleTimeoutSeconds s.now k := by
  have listed : fd ∈ s.expired cfg now := perm.mem_iff.mp hfd
  have collected : fd ∈ s.collects cfg := by
    rw [State.collects, pc]
    exact listed
  simp only [State.expired, List.mem_map, List.mem_filter, Bool.and_eq_true, decide_eq_true_eq]
    at listed
  obtain ⟨⟨fd', k'⟩, ⟨entry, -, old⟩, rfl⟩ := listed
  have found : s.connections.lookup fd' = some k' := AList.mem_lookup_iff.mpr entry
  obtain ⟨hk', obj⟩ := kept.owned.table fd' k' found
  rw [hk, Option.some.injEq] at hk'
  subst hk'
  have before := d.scan at_ now pc
  constructor
  · intro t ht
    rcases d.stamped fd' k t found ht with stamped | ⟨w, e, hw⟩
    · exact overdue old before stamped
    · have serves := WorkerPc.serving_of_unstamped hw
      have quiet := (ok fd' collected).quiet e (.inr ⟨w, WorkerPc.event_of_serving serves⟩)
      exact absurd ((kept.serving w e k serves).2.symm.trans obj) quiet
  · intro t ht
    exact overdue old before ((ok fd' collected).unsent k found t ht)

/-- A call of `closeConnection` by the sweep. -/
theorem Dated.sweeping {h : Traffic} (d : Dated cfg s h) {at_ : Time} {fd : Fd}
    {fds rest : List Fd} {stage stage' : Closing} {next : Option Closing} {t : State n}
    (pc : s.accepter = .expire at_ (fd :: fds) stage)
    (call : closeConnection s fd stage = (t, next)) (sub : rest ⊆ fd :: fds) :
    Dated cfg { t with accepter := .expire at_ rest stage' } h := by
  obtain ⟨-, workers, -, next, objects⟩ := closeConnection_frame call
  obtain ⟨-, -, -, -, now⟩ := closeConnection_flags call
  refine d.frame now next.ge objects workers (closeConnection_less call).2 ?_ ?_ ?_
  · simp [AcceptPc.inserting]
  · simp
  · intro fd' k hfd hk
    refine ⟨?_, (closeConnection_less call).1 fd' k hk⟩
    rw [pc]
    exact sub hfd

/-- Every move of the accept thread keeps the history dated. -/
theorem Dated.acceptMove {h : Past} (d : Dated cfg s h.traffic) (kept : Kept cfg s)
    {c : AcceptChoice} (ok : Attentive cfg (s, h) (.accepter c)) (move : AcceptMove cfg s c s') :
    Dated cfg s' h.traffic := by
  cases move with
  | scan pc perm =>
    refine ⟨d.past, d.unknown, ?_, d.stamped, ?_, ?_⟩
    · simp [AcceptPc.inserting]
    · simp
    · intro fd k hfd hk
      exact d.collect kept pc perm ok hfd hk
  | sweep pc =>
    refine d.frame rfl le_rfl rfl rfl (fun _ _ hk => hk) ?_ ?_ ?_
    · simp [AcceptPc.inserting]
    · intro at_ now hpc
      cases hpc
      exact Int.le_refl _
    · simp [AcceptPc.expiring]
  | accepted pc _ free =>
    refine ⟨d.past, ?_, ?_, d.stamped, ?_, ?_⟩
    · intro k hk
      exact d.unknown k (Nat.le_of_succ_le hk)
    · intro fd k hi
      cases hi
      exact d.unknown s.next le_rfl
    · simp
    · simp [AcceptPc.expiring]
  | @insert batch fd k pc =>
    have fresh : h.traffic.received k = none := d.new fd k (by rw [pc]; rfl)
    refine ⟨d.past, d.unknown, ?_, ?_, ?_, ?_⟩
    · simp [AcceptPc.inserting]
    · intro fd' k' t hk' ht
      have hne : k' ≠ k := by
        rintro rfl
        rw [fresh] at ht
        cases ht
      have hfd : fd' ≠ fd := by
        rintro rfl
        simp only [AList.lookup_insert, Option.some.injEq] at hk'
        exact hne hk'.symm
      simp only [AList.lookup_insert_ne hfd] at hk'
      simp only [State.setObject, Function.update_of_ne hne]
      exact d.stamped fd' k' t hk' ht
    · simp
    · simp [AcceptPc.expiring]
  | @closing at_ fd fds stage next t pc call =>
    exact d.sweeping pc call (List.Subset.refl _)
  | @closed at_ fd fds stage t pc call => exact d.sweeping pc call (List.subset_cons_self _ _)
  | _ pc =>
    refine d.frame rfl le_rfl rfl rfl (fun _ _ hk => hk) ?_ ?_ ?_
    · simp [AcceptPc.inserting]
    · simp
    · simp [AcceptPc.expiring]

/-- After its erasing a connection is under no number in the table, and so it is
when there was nothing to erase. -/
theorem Kept.erased (kept : Kept cfg s) {w : Fin n} {e : Event} {k : Sock} {t : State n}
    {next : Option Closing} (pc : s.workers w = .closing e k .erase)
    (call : closeConnection s e.fd .erase = (t, next)) (fd : Fd) :
    t.connections.lookup fd ≠ some k := by
  intro hk
  have serves : (s.workers w).serving = some (e, k) := by
    rw [pc]
    rfl
  have obj := (kept.owned.table fd k ((closeConnection_less call).2 fd k hk)).2
  rw [(kept.serving w e k serves).2] at obj
  subst obj
  simp only [closeConnection] at call
  split at call
  case isTrue =>
    cases call
    simp [AList.lookup_erase] at hk
  case isFalse gone =>
    cases call
    rw [← AList.lookup_eq_none] at gone
    rw [gone] at hk
    cases hk

/-- The worker goes on, on no descriptor, and has what was unstamped still in hand. -/
theorem Dated.goOn {h : Traffic} (d : Dated cfg s h) {w : Fin n} {pc : WorkerPc}
    (now : s'.now = s.now) (next : s'.next = s.next) (accepter : s'.accepter = s.accepter)
    (connections : s'.connections = s.connections) (files : s'.files = s.files)
    (workers : s'.workers = Function.update s.workers w pc)
    (objects : ∀ k, (s'.objects k).lastActive = (s.objects k).lastActive)
    (unstamped : ∀ p, (s.workers w).unstamped = some p → pc.unstamped = some p) :
    Dated cfg s' h := by
  refine d.moveWorker now next accepter workers ?_ ?_ ?_ ?_
  · rw [files]
    exact fun _ _ hk => hk
  · rw [connections]
    exact fun _ _ hk => hk
  · intro k t _ ht
    rwa [objects]
  · intro e k hp
    exact .inl (unstamped _ hp)

/-- A call of `closeConnection` by a worker. -/
theorem Dated.closing {h : Traffic} (d : Dated cfg s h) (kept : Kept cfg s) {w : Fin n}
    {e : Event} {k : Sock} {stage : Closing} {next : Option Closing} {t : State n} {pc : WorkerPc}
    (hpc : s.workers w = .closing e k stage) (call : closeConnection s e.fd stage = (t, next)) :
    Dated cfg (t.setWorker w pc) h := by
  obtain ⟨accepter, workers, -, next, objects⟩ := closeConnection_frame call
  obtain ⟨-, -, -, -, now⟩ := closeConnection_flags call
  refine d.moveWorker now next accepter (by rw [State.setWorker, workers])
    (closeConnection_less call).1 (closeConnection_less call).2 ?_ ?_
  · intro k' t' _ old
    simpa only [State.setWorker, objects] using old
  · intro e' k' hp
    rw [hpc] at hp
    cases stage with
    | erase =>
      cases hp
      have gone := kept.erased hpc call
      exact .inr (.inr gone)
    | ctlDel | close | account => cases hp

/-- What was received is stamped. -/
theorem Dated.stamp {h : Traffic} (d : Dated cfg s h) {w : Fin n} {e : Event} {k : Sock}
    (pc : s.workers w = .drained e k) :
    Dated cfg ((s.setObject k { s.objects k with lastActive := s.now }).setWorker w
      (.writing e k)) h := by
  refine d.moveWorker rfl rfl rfl rfl (fun _ _ hk => hk) (fun _ _ hk => hk) ?_ ?_
  · intro k' t ht old
    simp only [State.setWorker, State.setObject, Function.update_apply]
    split
    case isTrue => exact d.past k' t ht
    case isFalse => exact old
  · intro e' k' hp
    rw [pc] at hp
    cases hp
    refine .inr (.inl ?_)
    intro t ht
    simp only [State.setWorker, State.setObject, Function.update_self]
    exact d.past k t ht

/-- Taking or releasing a connection leaves the stamps alone. -/
theorem lastActive_setBusy (s : State n) (k : Sock) (b : Bool) (k' : Sock) :
    ((s.setObject k { s.objects k with busy := b }).objects k').lastActive =
      (s.objects k').lastActive := by
  simp only [State.setObject, Function.update_apply]
  split
  case isTrue hk => rw [hk]
  case isFalse => rfl

/-- Every move of a worker keeps the history dated. -/
theorem Dated.workerMove {h : Traffic} (d : Dated cfg s h) (kept : Kept cfg s) {w : Fin n}
    {c : WorkerChoice} (move : WorkerMove s w c s') : Dated cfg s' (s.traffic (.worker w c) h) := by
  cases move with
  | @received e k r pc goesOn =>
    cases r with
    | data => exact d.receive kept pc
    | _ => exact d
  | @sent e k r pc goesOn =>
    cases r with
    | sent => exact d.send kept pc
    | _ => exact d
  | stamp pc => exact d.stamp pc
  | closing pc call => exact d.closing kept pc call
  | closed pc call => exact d.closing kept pc call
  | @found e k pc =>
    refine d.goOn rfl rfl rfl rfl rfl rfl (lastActive_setBusy s k true) ?_
    intro p hp
    rw [pc] at hp
    cases hp
  | @release e k action pc =>
    refine d.goOn rfl rfl rfl rfl rfl rfl (lastActive_setBusy s k false) ?_
    intro p hp
    rw [pc] at hp
    cases action with
    | close => exact hp
    | waitRead | waitWrite => cases hp
  | drained pc ends =>
    obtain rfl | rfl := ends <;> refine d.goOn rfl rfl rfl rfl rfl rfl (fun _ => rfl) ?_ <;>
      exact fun p hp => by rwa [pc] at hp
  | recvFailed pc =>
    refine d.goOn rfl rfl rfl rfl rfl rfl (fun _ => rfl) ?_
    exact fun p hp => by rwa [pc] at hp
  | _ pc =>
    refine d.goOn rfl rfl rfl rfl rfl rfl (fun _ => rfl) ?_
    intro p hp
    rw [pc] at hp
    cases hp

/-- Every move of `stop()` keeps the history dated. -/
theorem Dated.stopMove {h : Traffic} (d : Dated cfg s h) {c : StopChoice}
    (move : StopMove s c s') : Dated cfg s' h := by
  cases move with
  | clear pc perm =>
    refine d.frame rfl le_rfl rfl rfl ?_ d.new d.scan fun _ _ hfd hk => ⟨hfd, hk⟩
    simp
  | @close fd fds pc =>
    refine d.frame rfl le_rfl rfl rfl (fun _ _ hk => hk) d.new d.scan ?_
    intro fd' k hfd hk
    exact ⟨hfd, entry_of_revoke hk⟩
  | _ pc => exact ⟨d.past, d.unknown, d.new, d.stamped, d.scan, d.silent⟩

/-- Every step keeps the history dated. -/
theorem Dated.step {h : Past} (d : Dated cfg s h.traffic) (kept : Kept cfg s) {l : Label n}
    (ok : Attentive cfg (s, h) l) (hs : step cfg s l = some s') :
    Dated cfg s' (s.traffic l h.traffic) := by
  cases l with
  | tick elapsed =>
    cases hs
    have later : s.now ≤ s.now + elapsed := Int.le_add_of_nonneg_right (Int.natCast_nonneg _)
    refine ⟨?_, d.unknown, d.new, d.stamped, ?_, ?_⟩
    · intro k t ht
      exact Int.le_trans (d.past k t ht) later
    · intro at_ now pc
      exact Int.le_trans (d.scan at_ now pc) later
    · intro fd k hfd hk
      exact (d.silent fd k hfd hk).later later
  | accepter c => exact d.acceptMove kept ok (acceptStep_move hs)
  | worker w c => exact d.workerMove kept (workerStep_move hs)
  | stopper c => exact d.stopMove (stopStep_move hs)

/-- A step that the condition leaves free is clean unless it tears the loop. -/
theorem clean_of_attentive {h : Past} {l : Label n} (ok : Attentive cfg (s, h) l)
    (whole : s.tears l = false) : Clean cfg s l := by
  cases l with
  | accepter c =>
    cases c with
    | order fds => exact fun fd hfd => (ok fd hfd).quiet
    | _ => trivial
  | stopper c =>
    cases c with
    | go =>
      intro fd hfd
      rw [State.tears, List.any_eq_false] at whole
      simpa using whole fd hfd
    | order fds => trivial
  | _ => trivial

/-! ## After the loop is torn -/

/-- What the sweep has collected is silent, and stays so: nobody serves it, and nobody comes
to. -/
structure Settled (cfg : Config) (s : State n) (h : Traffic) : Prop where
  quiet : ∀ fd ∈ s.accepter.expiring, s.Quiet fd
  named : s.accepter.expiring ≠ [] → ∀ w e k, (s.workers w).serving = some (e, k) →
    (s.objects k).fd = e.fd
  silent : ∀ fd k, fd ∈ s.accepter.expiring → s.files fd = some k →
    h.Silent cfg.idleTimeoutSeconds s.now k

theorem Dated.settled {h : Traffic} (d : Dated cfg s h) (kept : Kept cfg s) : Settled cfg s h where
  quiet := kept.expiring
  named _ w e k hs := (kept.serving w e k hs).2
  silent := d.silent

/-- There is nobody to be closed. -/
theorem Settled.of_idle {h : Traffic} (idle : s.accepter.expiring = []) : Settled cfg s h where
  quiet _ hfd := absurd (idle ▸ hfd) List.not_mem_nil
  named some_ := absurd idle some_
  silent _ _ hfd := absurd (idle ▸ hfd) List.not_mem_nil

/-- A step after which there is no more to be closed, and no event for it. -/
theorem Settled.frame {h : Traffic} (st : Settled cfg s h) (now : s'.now = s.now)
    (expiring : s'.accepter.expiring ⊆ s.accepter.expiring)
    (files : ∀ fd k, s'.files fd = some k → s.files fd = some k)
    (carries : ∀ e, s'.Carries e → s.Carries e)
    (named : s.accepter.expiring ≠ [] → ∀ w e k, (s'.workers w).serving = some (e, k) →
      (s'.objects k).fd = e.fd) : Settled cfg s' h where
  quiet fd hfd e he := st.quiet fd (expiring hfd) e (carries e he)
  named some_ := named fun idle => some_ (List.subset_nil.mp (idle ▸ expiring))
  silent fd k hfd hk := by
    rw [now]
    exact st.silent fd k (expiring hfd) (files fd k hk)

/-- The worker has no event that was not there, and serves the connection that it served,
or the one its event names. -/
theorem Settled.moveWorker {h : Traffic} (st : Settled cfg s h) {w : Fin n} {pc : WorkerPc}
    (now : s'.now = s.now) (accepter : s'.accepter = s.accepter)
    (files : ∀ fd k, s'.files fd = some k → s.files fd = some k)
    (workers : s'.workers = Function.update s.workers w pc)
    (waiting : ∀ e ∈ s'.waiting, e ∈ s.waiting)
    (objects : ∀ k, (s'.objects k).fd = (s.objects k).fd)
    (event : ∀ e, pc.event = some e → s.Carries e)
    (serving : ∀ e k, pc.serving = some (e, k) →
      (s.workers w).serving = some (e, k) ∨ (s.objects k).fd = e.fd) : Settled cfg s' h := by
  refine st.frame now (by rw [accepter]; exact List.Subset.refl _) files ?_ ?_
  · rintro e (he | ⟨w', he⟩)
    · exact .inl (waiting e he)
    · rw [workers, Function.update_apply] at he
      split at he
      · exact event e he
      · exact .inr ⟨w', he⟩
  · intro some_ w' e k hs
    rw [objects]
    rw [workers, Function.update_apply] at hs
    split at hs
    · exact (serving e k hs).elim (st.named some_ w e k) id
    · exact st.named some_ w' e k hs

/-- Bytes go to and come from sockets that are not to be closed. -/
theorem Settled.elsewhere {h : Traffic} (st : Settled cfg s h) (owned : Owned cfg s) {w : Fin n}
    {k : Sock} (io : (s.workers w).io = some k) {fd : Fd} {k' k'' : Sock}
    (hfd : fd ∈ s.accepter.expiring) (hk : s.files fd = some k') (socket : s.socket w = some k'') :
    k' ≠ k'' := by
  rintro rfl
  obtain ⟨e, serves⟩ := WorkerPc.serving_of_io io
  rw [State.socket, io, Option.bind_some, st.named (List.ne_nil_of_mem hfd) w e k serves] at socket
  exact st.quiet fd hfd e (.inr ⟨w, WorkerPc.event_of_serving serves⟩)
    (owned.injective e.fd fd k' socket hk)

theorem Settled.receive {h : Traffic} (st : Settled cfg s h) (owned : Owned cfg s) {w : Fin n}
    {k : Sock} (io : (s.workers w).io = some k) :
    Settled cfg s (h.receive (s.socket w) s.now) := by
  refine ⟨st.quiet, st.named, fun fd k' hfd hk => ?_⟩
  cases socket : s.socket w with
  | none => exact st.silent fd k' hfd hk
  | some k'' => exact (st.silent fd k' hfd hk).receive (st.elsewhere owned io hfd hk socket) _

theorem Settled.send {h : Traffic} (st : Settled cfg s h) (owned : Owned cfg s) {w : Fin n}
    {k : Sock} (io : (s.workers w).io = some k) :
    Settled cfg s (h.send (s.socket w) s.now) := by
  refine ⟨st.quiet, st.named, fun fd k' hfd hk => ?_⟩
  cases socket : s.socket w with
  | none => exact st.silent fd k' hfd hk
  | some k'' => exact (st.silent fd k' hfd hk).send (st.elsewhere owned io hfd hk socket) _

/-- A worker's step on no descriptor, with an event and a connection that it had. -/
theorem Settled.goOn {h : Traffic} (st : Settled cfg s h) {w : Fin n} {pc : WorkerPc}
    (now : s'.now = s.now) (accepter : s'.accepter = s.accepter) (files : s'.files = s.files)
    (workers : s'.workers = Function.update s.workers w pc) (queue : s'.workQueue = s.workQueue)
    (objects : ∀ k, (s'.objects k).fd = (s.objects k).fd)
    (event : ∀ e, pc.event = some e → (s.workers w).event = some e)
    (serving : ∀ e k, pc.serving = some (e, k) →
      (s.workers w).serving = some (e, k) ∨ (s.objects k).fd = e.fd) : Settled cfg s' h := by
  refine st.moveWorker now accepter ?_ workers ?_ objects ?_ serving
  · rw [files]
    exact fun _ _ hk => hk
  · rw [State.waiting, queue, accepter]
    exact fun _ he => he
  · exact fun e he => .inr ⟨w, event e he⟩

/-- A call of `closeConnection` by a worker. -/
theorem Settled.closing {h : Traffic} (st : Settled cfg s h) {w : Fin n} {e : Event}
    {stage : Closing} {next : Option Closing} {t : State n} {pc : WorkerPc}
    (call : closeConnection s e.fd stage = (t, next))
    (event : ∀ e', pc.event = some e' → (s.workers w).event = some e')
    (serving : ∀ p, pc.serving = some p → (s.workers w).serving = some p) :
    Settled cfg (t.setWorker w pc) h := by
  obtain ⟨accepter, workers, -, -, objects⟩ := closeConnection_frame call
  obtain ⟨queue, -, -, -, now⟩ := closeConnection_flags call
  refine st.moveWorker now accepter (closeConnection_less call).1
    (by rw [State.setWorker, workers]) ?_ ?_ ?_ ?_
  · simp [State.waiting, State.setWorker, queue, accepter]
  · simp [State.setWorker, objects]
  · exact fun e' he => .inr ⟨w, event e' he⟩
  · exact fun e' k' hs => .inl (serving _ hs)

/-- No store in an object gives its connection another descriptor. -/
theorem fd_setObject (s : State n) (k : Sock) {c : Connection} (same : c.fd = (s.objects k).fd)
    (k' : Sock) : ((s.setObject k c).objects k').fd = (s.objects k').fd := by
  simp only [State.setObject, Function.update_apply]
  split
  case isTrue hk => rw [hk, same]
  case isFalse => rfl

/-- Every move of a worker keeps what is being closed silent. -/
theorem Settled.workerMove {h : Traffic} (st : Settled cfg s h) (owned : Owned cfg s) {w : Fin n}
    {c : WorkerChoice} (move : WorkerMove s w c s') :
    Settled cfg s' (s.traffic (.worker w c) h) := by
  cases move with
  | @received e k r pc goesOn =>
    cases r with
    | data => exact st.receive owned (w := w) (k := k) (by rw [pc]; rfl)
    | _ => exact st
  | @sent e k r pc goesOn =>
    cases r with
    | sent => exact st.send owned (w := w) (k := k) (by rw [pc]; rfl)
    | _ => exact st
  | @take e rest pc queue =>
    refine st.moveWorker rfl rfl (fun _ _ hk => hk) rfl ?_ (fun _ => rfl) ?_ ?_
    · intro e' he
      simp only [State.waiting, State.setWorker, queue, List.cons_append] at he ⊢
      exact List.mem_cons_of_mem e he
    · intro e' he
      cases he
      exact .inl (by simp [State.waiting, queue])
    · intro e' k' hs
      cases hs
  | @found e k pc found =>
    refine st.goOn rfl rfl rfl rfl rfl (fd_setObject s k rfl) ?_ ?_
    · intro e' he
      rw [pc]
      simp only [enter] at he
      split at he
      · exact he
      · split at he <;> exact he
    · intro e' k' hs
      have served : some (e, k) = some (e', k') := by
        simp only [enter] at hs
        split at hs
        · exact hs
        · split at hs <;> exact hs
      cases served
      exact .inr (owned.table e.fd k found).2
  | @closing e k stage next t pc call =>
    -- after the last stage there is no next
    cases stage with
    | account => cases call
    | _ => refine st.closing call ?_ ?_ <;> cases next <;>
        simp [pc, WorkerPc.event, WorkerPc.serving]
  | closed pc call =>
    exact st.closing call (fun _ he => by cases he) (fun _ hs => by cases hs)
  | @release e k action pc =>
    refine st.goOn rfl rfl rfl rfl rfl (fd_setObject s k rfl) ?_ ?_ <;>
      cases action <;> simp [pc, act, WorkerPc.event, WorkerPc.serving]
  | @stamp e k pc =>
    refine st.goOn rfl rfl rfl rfl rfl (fd_setObject s k rfl) ?_ ?_ <;>
      simp [pc, WorkerPc.event, WorkerPc.serving]
  | drained pc ends =>
    obtain rfl | rfl := ends <;> refine st.goOn rfl rfl rfl rfl rfl (fun _ => rfl) ?_ ?_ <;>
      simp [pc, WorkerPc.event, WorkerPc.serving]
  | @flushed e k close pc =>
    refine st.goOn rfl rfl rfl rfl rfl (fun _ => rfl) ?_ ?_ <;>
      cases close <;> simp [pc, WorkerPc.event, WorkerPc.serving]
  | rearmed pc =>
    refine st.goOn rfl rfl rfl rfl rfl (fun _ => rfl) ?_ ?_ <;>
      simp [WorkerPc.event, WorkerPc.serving]
  | _ pc =>
    refine st.goOn rfl rfl rfl rfl rfl (fun _ => rfl) ?_ ?_ <;>
      simp [pc, WorkerPc.event, WorkerPc.serving]

/-- A call of `closeConnection` by the sweep. -/
theorem Settled.sweeping {h : Traffic} (st : Settled cfg s h) {at_ : Time} {fd : Fd}
    {fds rest : List Fd} {stage stage' : Closing} {next : Option Closing} {t : State n}
    (pc : s.accepter = .expire at_ (fd :: fds) stage)
    (call : closeConnection s fd stage = (t, next)) (sub : rest ⊆ fd :: fds) :
    Settled cfg { t with accepter := .expire at_ rest stage' } h := by
  obtain ⟨-, workers, -, -, objects⟩ := closeConnection_frame call
  obtain ⟨queue, -, -, -, now⟩ := closeConnection_flags call
  refine st.frame now ?_ (closeConnection_less call).1 ?_ ?_
  · rw [pc]
    exact sub
  · rintro e (he | ⟨w, he⟩)
    · exact .inl (by simpa [State.waiting, AcceptPc.batch, pc, queue] using he)
    · exact .inr ⟨w, workers ▸ he⟩
  · intro some_ w e k hs
    simp only [workers] at hs
    simp only [objects]
    exact st.named some_ w e k hs

/-- Every move of the accept thread of a torn loop keeps what is being closed silent: it
collects nobody. -/
theorem Settled.acceptMove {h : Past} (st : Settled cfg s h.traffic) (torn : h.torn = true)
    {c : AcceptChoice} (ok : Attentive cfg (s, h) (.accepter c)) (move : AcceptMove cfg s c s') :
    Settled cfg s' h.traffic := by
  cases move with
  | @scan at_ now fds pc perm =>
    have nobody : fds = [] := by
      refine List.eq_nil_iff_forall_not_mem.mpr fun fd hfd => ?_
      have collected : fd ∈ s.collects cfg := by
        rw [State.collects, pc]
        exact perm.mem_iff.mp hfd
      have whole : h.torn = false := (ok fd collected).whole
      rw [torn] at whole
      cases whole
    exact .of_idle nobody
  | closing pc call => exact st.sweeping pc call (List.Subset.refl _)
  | closed pc call => exact st.sweeping pc call (List.subset_cons_self _ _)
  | _ => exact .of_idle rfl

/-- Every move of `stop()` keeps what is being closed silent. -/
theorem Settled.stopMove {h : Traffic} (st : Settled cfg s h) {c : StopChoice}
    (move : StopMove s c s') : Settled cfg s' h := by
  cases move with
  | @close fd fds pc =>
    exact st.frame rfl (List.Subset.refl _) (fun _ _ hk => entry_of_revoke hk) (fun _ he => he)
      st.named
  | _ => exact ⟨st.quiet, st.named, st.silent⟩

/-- Every step that leaves the loop torn keeps what is being closed silent. -/
theorem Settled.step {h : Past} (st : Settled cfg s h.traffic) (owned : Owned cfg s) {l : Label n}
    (torn : (s.past l h).torn = true) (ok : Attentive cfg (s, h) l)
    (hs : step cfg s l = some s') : Settled cfg s' (s.traffic l h.traffic) := by
  cases l with
  | tick elapsed =>
    cases hs
    have later : s.now ≤ s.now + elapsed := Int.le_add_of_nonneg_right (Int.natCast_nonneg _)
    exact ⟨st.quiet, st.named, fun fd k hfd hk => (st.silent fd k hfd hk).later later⟩
  | accepter c =>
    have before : h.torn = true := by simpa [State.past, State.tears] using torn
    exact st.acceptMove before ok (acceptStep_move hs)
  | worker w c => exact st.workerMove owned (workerStep_move hs)
  | stopper c => exact st.stopMove (stopStep_move hs)

/-- The invariant of attentive runs: a loop that is not torn is as on a clean run. -/
structure Observed (cfg : Config) (s : State n) (h : Past) : Prop where
  owned : Owned cfg s
  settled : Settled cfg s h.traffic
  whole : h.torn = false → Kept cfg s ∧ Dated cfg s h.traffic

theorem observed_initial (n : Nat) (cfg : Config) : Observed cfg (State.initial n cfg) {} where
  owned := owned_initial n cfg
  settled := .of_idle rfl
  whole _ := ⟨kept_initial n cfg, dated_initial n cfg⟩

theorem Observed.step {h : Past} (observed : Observed cfg s h) {l : Label n}
    (ok : Attentive cfg (s, h) l) (hs : step cfg s l = some s') : Observed cfg s' (s.past l h) := by
  have owned : Owned cfg s' := observed.owned.step hs
  by_cases torn : (s.past l h).torn = true
  · exact ⟨owned, observed.settled.step observed.owned torn ok hs, fun whole => by simp_all⟩
  · have calm : h.torn = false ∧ s.tears l = false := by simpa [State.past] using torn
    obtain ⟨kept, dated⟩ := observed.whole calm.1
    have kept' : Kept cfg s' := kept.step (clean_of_attentive ok calm.2) hs
    have dated' : Dated cfg s' (s.past l h).traffic := dated.step kept ok hs
    exact ⟨owned, dated'.settled kept', fun _ => ⟨kept', dated'⟩⟩

/-- On runs in which the sweep collects nobody who has an event waiting or was sent bytes
after the stamp, nor anybody once the loop is torn, it closes only clients that have been
silent for longer than the timeout. -/
theorem idle_of_attentive {p : State n × Past} (r : (timed n cfg).Reach (Attentive cfg) p) :
    Idle cfg p.1 p.2.traffic := by
  have observed : Observed cfg p.1 p.2 := by
    refine r.invariant (I := fun p => Observed cfg p.1 p.2) (observed_initial n cfg) ?_
    rintro p l q observed ok hs
    obtain ⟨hs, hq⟩ := Machine.recording_step hs
    rw [hq]
    exact observed.step ok hs
  intro fd k hr hk
  exact observed.settled.silent fd k (AcceptPc.expiring_of_removing hr) hk

end WebServer.Pool
