import WebServer.Base.Holding
import WebServer.Laws.Pool.Moves
/-! # Who may close a descriptor

An open client descriptor is at every moment in the hands of one party: the
accept thread before it inserts the connection, the table, or whoever erased the
table's entry and has yet to close the number (the sweep, a worker, or `stop()`).
`Owned` says so, and every step of the loop keeps it, under every interleaving.
It is what makes the numbers in the table numbers of open sockets.

It does not say that whoever closes a descriptor is the only one using it: a
worker may still hold the number of a connection that another thread erased.
-/

namespace WebServer.Pool

variable {n : Nat} {cfg : Config} {s s' : State n}

/-- The parties that can be charged with an open descriptor. -/
inductive Owner (n : Nat) where
  | accepter
  | table
  | sweep
  | worker (w : Fin n)
  | stopper
  deriving DecidableEq

/-- The connection accepted but not inserted yet. -/
def AcceptPc.inserting : AcceptPc → Option (Fd × Sock)
  | .insert _ fd k => some (fd, k)
  | _ => none

/-- The closer has erased the entry and not closed the number yet. -/
def Closing.owes : Closing → Bool
  | .ctlDel | .close => true
  | _ => false

/-- The descriptor that the sweep has erased and not closed yet. -/
def AcceptPc.removing : AcceptPc → Option Fd
  | .expire _ (fd :: _) stage => if stage.owes then some fd else none
  | _ => none

/-- The descriptor that the worker has erased and not closed yet. -/
def WorkerPc.removing : WorkerPc → Option Fd
  | .closing e _ stage => if stage.owes then some e.fd else none
  | _ => none

/-- The descriptors that `stop()` has cleared and not closed yet. -/
def StopPc.toClose : StopPc → List Fd
  | .close fds | .account fds => fds
  | _ => []

/-- The party is charged with the descriptor. -/
def State.Claims (s : State n) : Owner n → Fd → Prop
  | .accepter, fd => ∃ k, s.accepter.inserting = some (fd, k)
  | .table, fd => fd ∈ s.connections
  | .sweep, fd => s.accepter.removing = some fd
  | .worker w, fd => (s.workers w).removing = some fd
  | .stopper, fd => fd ∈ s.stopper.toClose

/-- Open descriptors and the table agree, and each open descriptor that anyone
is charged with is charged to one party. -/
structure Owned (cfg : Config) (s : State n) : Prop where
  exclusive : Exclusive s.Claims
  live : ∀ o fd, s.Claims o fd → s.files fd ≠ none
  table : ∀ fd k, s.connections.lookup fd = some k → s.files fd = some k ∧ (s.objects k).fd = fd
  inserting : ∀ fd k, s.accepter.inserting = some (fd, k) → s.files fd = some k
  toClose : s.stopper.toClose.Nodup
  injective : ∀ fd fd' k, s.files fd = some k → s.files fd' = some k → fd = fd'
  fresh : ∀ fd k, s.files fd = some k → k < s.next
  reserved : ∀ fd, s.files fd ≠ none → fd ∉ cfg.reserved

theorem owned_initial (n : Nat) (cfg : Config) : Owned cfg (State.initial n cfg) := by
  have none_claims : ∀ o fd, ¬ (State.initial n cfg).Claims o fd := by
    intro o fd h
    cases o <;> simp [State.Claims, State.initial, AcceptPc.inserting, AcceptPc.removing,
      WorkerPc.removing, StopPc.toClose] at h
  constructor
  · intro o o' fd h
    exact absurd h (none_claims o fd)
  · intro o fd h
    exact absurd h (none_claims o fd)
  all_goals simp [State.initial, AcceptPc.inserting, StopPc.toClose]

/-- A step that opens and closes nothing, enters nothing in the table and charges
nobody with anything new. -/
theorem Owned.frame (h : Owned cfg s) (files : s'.files = s.files) (next : s'.next = s.next)
    (claims : ∀ o fd, s'.Claims o fd → s.Claims o fd)
    (table : ∀ fd k, s'.connections.lookup fd = some k → s.connections.lookup fd = some k)
    (objects : ∀ k, (s'.objects k).fd = (s.objects k).fd)
    (inserting : ∀ p, s'.accepter.inserting = some p → s.accepter.inserting = some p)
    (toClose : s'.stopper.toClose.Nodup) : Owned cfg s' where
  exclusive := h.exclusive.shrink claims
  live o fd hc := by
    rw [files]
    exact h.live o fd (claims o fd hc)
  table fd k hk := by
    rw [files, objects]
    exact h.table fd k (table fd k hk)
  inserting fd k hk := by
    rw [files]
    exact h.inserting fd k (inserting _ hk)
  toClose := toClose
  injective := by
    rw [files]
    exact h.injective
  fresh := by
    rw [files, next]
    exact h.fresh
  reserved := by
    rw [files]
    exact h.reserved

/-- The states agree on the descriptors, the table and what the objects are for. -/
structure State.Agrees (s s' : State n) : Prop where
  files : s'.files = s.files
  next : s'.next = s.next
  connections : s'.connections = s.connections
  objects : ∀ k, (s'.objects k).fd = (s.objects k).fd

/-- The accept thread moves to where it is charged with nothing. -/
theorem Owned.moveAccepter (h : Owned cfg s) (same : s.Agrees s')
    (workers : s'.workers = s.workers) (stopper : s'.stopper = s.stopper)
    (inserting : s'.accepter.inserting = none) (removing : s'.accepter.removing = none) :
    Owned cfg s' := by
  refine h.frame same.files same.next ?_ ?_ same.objects ?_ ?_
  · intro o fd hc
    cases o <;> simp_all [State.Claims, same.connections]
  · rw [same.connections]
    exact fun _ _ hk => hk
  · simp [inserting]
  · rw [stopper]
    exact h.toClose

/-- A worker moves to where it is charged with nothing. -/
theorem Owned.moveWorker (h : Owned cfg s) (same : s.Agrees s') {w : Fin n} {pc : WorkerPc}
    (workers : s'.workers = Function.update s.workers w pc) (stopper : s'.stopper = s.stopper)
    (accepter : s'.accepter = s.accepter) (removing : pc.removing = none) : Owned cfg s' := by
  refine h.frame same.files same.next ?_ ?_ same.objects ?_ ?_
  · intro o fd hc
    cases o with
    | worker w' =>
      simp only [State.Claims, workers, Function.update_apply] at hc ⊢
      split at hc
      · simp [removing] at hc
      · exact hc
    | _ => simp_all [State.Claims, same.connections]
  · rw [same.connections]
    exact fun _ _ hk => hk
  · rw [accepter]
    exact fun _ hp => hp
  · rw [stopper]
    exact h.toClose

/-- `stop()` moves and is charged with no more than before. -/
theorem Owned.moveStopper (h : Owned cfg s) (same : s.Agrees s')
    (workers : s'.workers = s.workers) (accepter : s'.accepter = s.accepter)
    (toClose : s'.stopper.toClose.Sublist s.stopper.toClose) : Owned cfg s' := by
  refine h.frame same.files same.next ?_ ?_ same.objects ?_ (h.toClose.sublist toClose)
  · intro o fd hc
    cases o with
    | stopper => exact toClose.subset hc
    | _ => simp_all [State.Claims, same.connections]
  · rw [same.connections]
    exact fun _ _ hk => hk
  · rw [accepter]
    exact fun _ hp => hp

/-- A party erases an entry of the table and is charged with its descriptor. -/
theorem Owned.erase (h : Owned cfg s) {fd : Fd} (o : Owner n) (mem : fd ∈ s.connections)
    (files : s'.files = s.files) (next : s'.next = s.next)
    (connections : s'.connections = s.connections.erase fd) (objects : s'.objects = s.objects)
    (others : ∀ o' fd', o' ≠ o → o' ≠ .table → s'.Claims o' fd' → s.Claims o' fd')
    (taker : ∀ fd', s'.Claims o fd' → fd' = fd ∨ s.Claims o fd') (notTable : o ≠ .table)
    (inserting : ∀ p, s'.accepter.inserting = some p → s.accepter.inserting = some p)
    (toClose : s'.stopper.toClose = s.stopper.toClose) : Owned cfg s' := by
  have old : ∀ o' fd', o' ≠ o → s'.Claims o' fd' → s.Claims o' fd' := by
    intro o' fd' hne hc
    by_cases ht : o' = .table
    · subst ht
      simp only [State.Claims, connections, AList.mem_erase] at hc
      exact hc.2
    · exact others o' fd' hne ht hc
  have held : s.Claims .table fd := mem
  constructor
  · apply h.exclusive.gain o old
    intro fd' hc
    rcases taker fd' hc with rfl | hc
    · right
      intro o' hne hc'
      by_cases ht : o' = .table
      · subst ht
        simp [State.Claims, connections] at hc'
      · exact h.exclusive.not_holds held (Ne.symm ht) (old o' _ hne hc')
    · exact .inl hc
  · intro o' fd' hc
    rw [files]
    by_cases ho : o' = o
    · subst ho
      rcases taker fd' hc with rfl | hc
      · exact h.live _ _ held
      · exact h.live _ _ hc
    · exact h.live o' fd' (old o' fd' ho hc)
  · intro fd' k hk
    rw [files, objects]
    apply h.table fd' k
    rw [connections] at hk
    by_cases hfd : fd' = fd
    · subst hfd
      rw [AList.lookup_erase] at hk
      cases hk
    · rwa [AList.lookup_erase_ne hfd] at hk
  · intro fd' k hk
    rw [files]
    exact h.inserting fd' k (inserting _ hk)
  · rw [toClose]
    exact h.toClose
  · rw [files]
    exact h.injective
  · rw [files, next]
    exact h.fresh
  · rw [files]
    exact h.reserved

/-- The party charged with a descriptor closes it and is charged with it no more. -/
theorem Owned.close (h : Owned cfg s) {fd : Fd} (o : Owner n) (held : s.Claims o fd)
    (files : s'.files = Function.update s.files fd none) (next : s'.next = s.next)
    (connections : s'.connections = s.connections) (objects : s'.objects = s.objects)
    (claims : ∀ o' fd', s'.Claims o' fd' → s.Claims o' fd')
    (done : ¬ s'.Claims o fd) (notTable : o ≠ .table) (notAccepter : o ≠ .accepter)
    (inserting : s'.accepter.inserting = s.accepter.inserting)
    (toClose : s'.stopper.toClose.Sublist s.stopper.toClose) : Owned cfg s' := by
  have apart : ∀ o' fd', s'.Claims o' fd' → fd' ≠ fd := by
    intro o' fd' hc hfd
    subst hfd
    have := h.exclusive o' o fd' (claims o' fd' hc) held
    subst this
    exact done hc
  have numbered := Numbered.revoke ⟨h.injective, h.fresh⟩ fd
  constructor
  · exact h.exclusive.shrink claims
  · intro o' fd' hc
    rw [files, Function.update_of_ne (apart o' fd' hc)]
    exact h.live o' fd' (claims o' fd' hc)
  · intro fd' k hk
    rw [connections] at hk
    have hfd : fd' ≠ fd := by
      intro hfd
      subst hfd
      have mem : s.Claims .table fd' := by
        simp only [State.Claims, ← AList.lookup_isSome, hk, Option.isSome_some]
      exact notTable (h.exclusive o .table fd' held mem)
    rw [files, objects, Function.update_of_ne hfd]
    exact h.table fd' k hk
  · intro fd' k hk
    rw [inserting] at hk
    have hfd : fd' ≠ fd := by
      intro hfd
      subst hfd
      exact notAccepter (h.exclusive o .accepter fd' held ⟨k, hk⟩)
    rw [files, Function.update_of_ne hfd]
    exact h.inserting fd' k hk
  · exact h.toClose.sublist toClose
  · rw [files]
    exact numbered.injective
  · rw [files, next]
    exact numbered.fresh
  · intro fd' hne
    apply h.reserved fd'
    intro hnone
    apply hne
    rw [files, Function.update_apply, hnone, ite_self]

/-! ## Every step -/

/-- The party `o` makes one call of `closeConnection(fd)` in `s` and moves on to
the next one in `t`. Between the erasing and the close it is charged with the
descriptor and nothing else. -/
structure Calls (s t : State n) (o : Owner n) (fd : Fd) (stage : Closing)
    (next : Option Closing) : Prop where
  call : ∃ u, closeConnection s fd stage = (u, next) ∧ u.Agrees t ∧ t.objects = u.objects ∧
    t.epoll = u.epoll
  notTable : o ≠ .table
  notAccepter : o ≠ .accepter
  before : ∀ fd', s.Claims o fd' ↔ fd' = fd ∧ stage.owes = true
  after : ∀ fd', t.Claims o fd' ↔ fd' = fd ∧ (next.any Closing.owes) = true
  others : ∀ o' fd', o' ≠ o → o' ≠ .table → (t.Claims o' fd' ↔ s.Claims o' fd')
  inserting : t.accepter.inserting = s.accepter.inserting
  toClose : t.stopper.toClose = s.stopper.toClose

/-- A call of `closeConnection` keeps descriptors owned, whichever it is. -/
theorem Owned.closing (h : Owned cfg s) {t : State n} {o : Owner n} {fd : Fd} {stage : Closing}
    {next : Option Closing} (c : Calls s t o fd stage next) : Owned cfg t := by
  obtain ⟨⟨u, hc, same, objects, _⟩, notTable, notAccepter, before, after, others, inserting,
    toClose⟩ := c
  have keeps : t.connections = s.connections → stage.owes = true ∨ next.any Closing.owes = false →
      ∀ o' fd', t.Claims o' fd' → s.Claims o' fd' := by
    intro conn step o' fd' hc'
    by_cases ho : o' = o
    · subst ho
      rw [after] at hc'
      rw [before]
      rcases step with held | gone
      · exact ⟨hc'.1, held⟩
      · simp [gone] at hc'
    · by_cases ht : o' = .table
      · subst ht
        simpa only [State.Claims, conn] using hc'
      · exact (others o' fd' ho ht).mp hc'
  -- the call closes nothing and takes nothing out of the table
  have still : s.Agrees t → stage.owes = true ∨ next.any Closing.owes = false → Owned cfg t := by
    intro agrees step
    refine h.frame agrees.files agrees.next (keeps agrees.connections step) ?_ agrees.objects ?_ ?_
    · rw [agrees.connections]
      exact fun _ _ hk => hk
    · rw [inserting]
      exact fun _ hp => hp
    · rw [toClose]
      exact h.toClose
  cases stage with
  | erase =>
    simp only [closeConnection] at hc
    split at hc
    case isTrue mem =>
      cases hc
      refine h.erase o mem same.files same.next same.connections objects
        (fun o' fd' ho ht => (others o' fd' ho ht).mp) ?_ notTable ?_ toClose
      · intro fd' hc'
        exact .inl ((after fd').mp hc').1
      · rw [inserting]
        exact fun _ hp => hp
    case isFalse =>
      cases hc
      exact still ⟨same.files, same.next, same.connections, same.objects⟩ (.inr rfl)
  | close =>
    cases hc
    refine h.close o ((before fd).mpr ⟨rfl, rfl⟩) same.files same.next same.connections
      objects (keeps same.connections (.inl rfl)) ?_ notTable notAccepter inserting ?_
    · rw [after]
      exact fun hc => Bool.false_ne_true hc.2
    · rw [toClose]
  | ctlDel =>
    cases hc
    exact still ⟨same.files, same.next, same.connections, same.objects⟩ (.inl rfl)
  | account =>
    cases hc
    exact still ⟨same.files, same.next, same.connections, same.objects⟩ (.inr rfl)

/-- `accept` returns a number that nobody is charged with. -/
theorem Owned.accept (h : Owned cfg s) {batch : List Event} {fd : Fd}
    (free : s.files fd = none) (new : fd ∉ cfg.reserved) :
    Owned cfg { s with
      files := Function.update s.files fd (some s.next)
      next := s.next + 1
      accepter := .insert batch fd s.next } := by
  have kept : ∀ fd' k, s.files fd' = some k →
      Function.update s.files fd (some s.next) fd' = some k := by
    intro fd' k hk
    rw [Function.update_of_ne, hk]
    rintro rfl
    rw [free] at hk
    cases hk
  have numbered := Numbered.issue ⟨h.injective, h.fresh⟩ fd
  have old : ∀ (o : Owner n) fd', o ≠ .accepter →
      State.Claims { s with
        files := Function.update s.files fd (some s.next)
        next := s.next + 1
        accepter := .insert batch fd s.next } o fd' → s.Claims o fd' := by
    intro o fd' hne hc
    cases o with
    | accepter => exact absurd rfl hne
    | sweep => simp [State.Claims, AcceptPc.removing] at hc
    | _ => exact hc
  constructor
  · apply h.exclusive.gain .accepter old
    intro fd' hc
    right
    intro o hne hc'
    simp only [State.Claims, AcceptPc.inserting, Option.some.injEq, Prod.mk.injEq] at hc
    obtain ⟨_, rfl, rfl⟩ := hc
    exact h.live o _ (old o _ hne hc') free
  · intro o fd' hc
    by_cases ho : o = .accepter
    · subst ho
      simp only [State.Claims, AcceptPc.inserting, Option.some.injEq, Prod.mk.injEq] at hc
      obtain ⟨_, rfl, rfl⟩ := hc
      simp
    · obtain ⟨k, hk⟩ := Option.ne_none_iff_exists'.mp (h.live o fd' (old o fd' ho hc))
      simp [kept fd' k hk]
  · intro fd' k hk
    exact ⟨kept fd' k (h.table fd' k hk).1, (h.table fd' k hk).2⟩
  · intro fd' k hk
    simp only [AcceptPc.inserting, Option.some.injEq, Prod.mk.injEq] at hk
    obtain ⟨rfl, rfl⟩ := hk
    simp
  · exact h.toClose
  · exact numbered.injective
  · exact numbered.fresh
  · intro fd' hne
    by_cases hfd : fd' = fd
    · subst hfd
      exact new
    · apply h.reserved fd'
      simpa only [Function.update_of_ne hfd] using hne

/-- The accepted connection enters the table, and the accept thread is charged
with it no more. -/
theorem Owned.insert (h : Owned cfg s) {batch : List Event} {fd : Fd} {k : Sock}
    (hpc : s.accepter = .insert batch fd k) :
    Owned cfg { s.setObject k { fd := fd, lastActive := s.now } with
      connections := s.connections.insert fd k
      accepter := .opened batch fd } := by
  have held : s.Claims .accepter fd := by
    simp [State.Claims, hpc, AcceptPc.inserting]
  have hk : s.files fd = some k := h.inserting fd k (by rw [hpc]; rfl)
  have old : ∀ (o : Owner n) fd', o ≠ .table →
      State.Claims { s.setObject k { fd := fd, lastActive := s.now } with
        connections := s.connections.insert fd k
        accepter := .opened batch fd } o fd' → s.Claims o fd' := by
    intro o fd' hne hc
    cases o with
    | table => exact absurd rfl hne
    | accepter => simp [State.Claims, AcceptPc.inserting] at hc
    | sweep => simp [State.Claims, AcceptPc.removing] at hc
    | _ => exact hc
  constructor
  · apply h.exclusive.gain .table old
    intro fd' hc
    simp only [State.Claims, AList.mem_insert] at hc
    rcases hc with rfl | hc
    · right
      intro o hne hc'
      by_cases ho : o = .accepter
      · subst ho
        simp [State.Claims, AcceptPc.inserting] at hc'
      · exact h.exclusive.not_holds held (Ne.symm ho) (old o _ hne hc')
    · exact .inl hc
  · intro o fd' hc
    by_cases ho : o = .table
    · subst ho
      simp only [State.Claims, AList.mem_insert] at hc
      rcases hc with rfl | hc
      · exact h.live _ _ held
      · exact h.live .table fd' hc
    · exact h.live o fd' (old o fd' ho hc)
  · intro fd' k' hk'
    by_cases hfd : fd' = fd
    · subst hfd
      rw [AList.lookup_insert] at hk'
      cases hk'
      exact ⟨hk, by simp [State.setObject]⟩
    · rw [AList.lookup_insert_ne hfd] at hk'
      obtain ⟨hf, ho⟩ := h.table fd' k' hk'
      refine ⟨hf, ?_⟩
      have hne : k' ≠ k := by
        rintro rfl
        exact hfd (h.injective fd' fd k' hf hk)
      simp only [State.setObject, Function.update_of_ne hne, ho]
  · intro fd' k' hk'
    simp [AcceptPc.inserting] at hk'
  · exact h.toClose
  · exact h.injective
  · exact h.fresh
  · exact h.reserved

/-- `stop()` empties the table and is charged with all of it. -/
theorem Owned.clear (h : Owned cfg s) {fds : List Fd}
    (perm : fds.Perm s.connections.keys) :
    Owned cfg { s with connections := ∅, stopper := .close fds } := by
  have mem : ∀ fd, fd ∈ fds ↔ s.Claims .table fd := by
    intro fd
    rw [perm.mem_iff, State.Claims, AList.mem_keys]
  have old : ∀ (o : Owner n) fd, o ≠ .stopper →
      State.Claims { s with connections := ∅, stopper := .close fds } o fd → s.Claims o fd := by
    intro o fd hne hc
    cases o with
    | stopper => exact absurd rfl hne
    | table => exact absurd hc (AList.notMem_empty fd)
    | _ => exact hc
  constructor
  · apply h.exclusive.gain .stopper old
    intro fd hc
    right
    intro o hne hc'
    have held : s.Claims .table fd := (mem fd).mp hc
    by_cases ho : o = .table
    · subst ho
      exact AList.notMem_empty fd hc'
    · exact h.exclusive.not_holds held (Ne.symm ho) (old o fd hne hc')
  · intro o fd hc
    by_cases ho : o = .stopper
    · subst ho
      exact h.live .table fd ((mem fd).mp hc)
    · exact h.live o fd (old o fd ho hc)
  · intro fd k hk
    simp at hk
  · exact h.inserting
  · exact perm.nodup_iff.mpr s.connections.keys_nodup
  · exact h.injective
  · exact h.fresh
  · exact h.reserved

/-- The sweep is charged with the descriptor it is closing, from the erasing to
the close. -/
theorem removing_expire (at_ : Time) (fd fd' : Fd) (fds : List Fd) (stage : Closing) :
    (AcceptPc.expire at_ (fd :: fds) stage).removing = some fd' ↔
      fd' = fd ∧ stage.owes = true := by
  cases stage <;> simp [AcceptPc.removing, Closing.owes, eq_comm (a := fd) (b := fd')]

/-- Between two descriptors the sweep is charged with nothing. -/
theorem removing_erase (at_ : Time) (fds : List Fd) :
    (AcceptPc.expire at_ fds .erase).removing = none := by
  cases fds <;> rfl

/-- A worker is charged with the descriptor it is closing, from the erasing to
the close. -/
theorem removing_closing (e : Event) (k : Sock) (fd' : Fd) (stage : Closing) :
    (WorkerPc.closing e k stage).removing = some fd' ↔ fd' = e.fd ∧ stage.owes = true := by
  cases stage <;> simp [WorkerPc.removing, Closing.owes, eq_comm (a := e.fd) (b := fd')]

/-- A worker that enters a handler is charged with nothing. -/
theorem removing_enter (e : Event) (k : Sock) : (enter e k).removing = none := by
  unfold enter
  split
  · rfl
  · split <;> rfl

/-- A worker that has cleared `busy` is not charged yet. -/
theorem removing_act (e : Event) (k : Sock) (action : Action) :
    (act e k action).removing = none := by
  cases action <;> rfl

/-- The sweep's calls of `closeConnection`. -/
theorem calls_sweep {at_ : Time} {fd : Fd} {fds rest : List Fd} {stage stage' : Closing}
    {next : Option Closing} {t : State n} (pc : s.accepter = .expire at_ (fd :: fds) stage)
    (call : closeConnection s fd stage = (t, next))
    (after : ∀ fd', (AcceptPc.expire at_ rest stage').removing = some fd' ↔
      fd' = fd ∧ next.any Closing.owes = true) :
    Calls s { t with accepter := .expire at_ rest stage' } .sweep fd stage next := by
  obtain ⟨_, workers, stopper, _, _⟩ := closeConnection_frame call
  refine ⟨⟨t, call, ⟨rfl, rfl, rfl, fun _ => rfl⟩, rfl, rfl⟩, by simp, by simp, ?_, after, ?_,
    by rw [pc]; rfl, congrArg _ stopper⟩
  · intro fd'
    rw [State.Claims, pc, removing_expire]
  · intro o' fd' hne ht
    cases o' with
    | accepter => simp [State.Claims, pc, AcceptPc.inserting]
    | table => exact absurd rfl ht
    | sweep => exact absurd rfl hne
    | worker w => simp only [State.Claims, workers]
    | stopper => simp only [State.Claims, stopper]

/-- A worker's calls of `closeConnection`. -/
theorem calls_worker {w : Fin n} {e : Event} {k : Sock} {stage : Closing}
    {next : Option Closing} {t : State n} {pc' : WorkerPc}
    (pc : s.workers w = .closing e k stage) (call : closeConnection s e.fd stage = (t, next))
    (after : ∀ fd', pc'.removing = some fd' ↔ fd' = e.fd ∧ next.any Closing.owes = true) :
    Calls s (t.setWorker w pc') (.worker w) e.fd stage next := by
  obtain ⟨accepter, workers, stopper, _, _⟩ := closeConnection_frame call
  refine ⟨⟨t, call, ⟨rfl, rfl, rfl, fun _ => rfl⟩, rfl, rfl⟩, by simp, by simp, ?_, ?_, ?_,
    congrArg _ accepter, congrArg _ stopper⟩
  · intro fd'
    rw [State.Claims, pc, removing_closing]
  · intro fd'
    simpa only [State.Claims, State.setWorker, Function.update_self] using after fd'
  · intro o' fd' hne ht
    cases o' with
    | accepter | sweep => simp only [State.Claims, State.setWorker, accepter]
    | table => exact absurd rfl ht
    | worker w' =>
      have hw : w' ≠ w := fun e => hne (congrArg _ e)
      simp only [State.Claims, State.setWorker, Function.update_of_ne hw, workers]
    | stopper => simp only [State.Claims, State.setWorker, stopper]

/-- Between two calls a closing party is charged as the second call says. -/
theorem calls_next_sweep {at_ : Time} {fd : Fd} {fds : List Fd} {stage next : Closing}
    {t : State n} (pc : s.accepter = .expire at_ (fd :: fds) stage)
    (call : closeConnection s fd stage = (t, some next)) :
    Calls s { t with accepter := .expire at_ (fd :: fds) next } .sweep fd stage (some next) :=
  calls_sweep pc call fun fd' => removing_expire at_ fd fd' fds next

/-- After its last call for a descriptor the sweep is charged with nothing. -/
theorem calls_last_sweep {at_ : Time} {fd : Fd} {fds : List Fd} {stage : Closing} {t : State n}
    (pc : s.accepter = .expire at_ (fd :: fds) stage)
    (call : closeConnection s fd stage = (t, none)) :
    Calls s { t with accepter := .expire at_ fds .erase } .sweep fd stage none := by
  apply calls_sweep pc call
  simp [removing_erase]

theorem calls_next_worker {w : Fin n} {e : Event} {k : Sock} {stage next : Closing}
    {t : State n} (pc : s.workers w = .closing e k stage)
    (call : closeConnection s e.fd stage = (t, some next)) :
    Calls s (t.setWorker w (.closing e k next)) (.worker w) e.fd stage (some next) :=
  calls_worker pc call fun fd' => removing_closing e k fd' next

theorem calls_last_worker {w : Fin n} {e : Event} {k : Sock} {stage : Closing} {t : State n}
    (pc : s.workers w = .closing e k stage)
    (call : closeConnection s e.fd stage = (t, none)) :
    Calls s (t.setWorker w .idle) (.worker w) e.fd stage none := by
  apply calls_worker pc call
  simp [WorkerPc.removing]

/-- A move of the accept thread keeps descriptors owned. -/
theorem Owned.acceptMove {c : AcceptChoice} (h : Owned cfg s) (move : AcceptMove cfg s c s') :
    Owned cfg s' := by
  -- all but five of the moves charge nobody with anything
  have moves : ∀ {t : State n}, s.Agrees t → t.workers = s.workers → t.stopper = s.stopper →
      t.accepter.inserting = none → t.accepter.removing = none → Owned cfg t := h.moveAccepter
  cases move with
  | accepted pc _ free new => exact h.accept free new
  | insert pc => exact h.insert pc
  | scan => exact moves ⟨rfl, rfl, rfl, fun _ => rfl⟩ rfl rfl rfl (removing_erase _ _)
  | closing pc call => exact h.closing (calls_next_sweep pc call)
  | closed pc call => exact h.closing (calls_last_sweep pc call)
  | _ => exact moves ⟨rfl, rfl, rfl, fun _ => rfl⟩ rfl rfl rfl rfl

/-- A move of a worker keeps descriptors owned. -/
theorem Owned.workerMove {w : Fin n} {c : WorkerChoice} (h : Owned cfg s)
    (move : WorkerMove s w c s') : Owned cfg s' := by
  have moves : ∀ {t : State n} {pc : WorkerPc}, s.Agrees t →
      t.workers = Function.update s.workers w pc → t.stopper = s.stopper →
      t.accepter = s.accepter → pc.removing = none → Owned cfg t := fun same => h.moveWorker same
  -- a write to an object leaves it the descriptor it was made for
  have writes : ∀ (k : Sock) (c : Connection) {pc : WorkerPc}, c.fd = (s.objects k).fd →
      pc.removing = none → Owned cfg ((s.setObject k c).setWorker w pc) := by
    intro k c pc hc hpc
    refine moves ⟨rfl, rfl, rfl, ?_⟩ rfl rfl rfl hpc
    intro k'
    by_cases hk : k' = k
    · simp [State.setWorker, State.setObject, hk, hc]
    · simp [State.setWorker, State.setObject, hk]
  cases move with
  | received => exact h
  | sent => exact h
  | found => exact writes _ _ rfl (removing_enter _ _)
  | stamp => exact writes _ _ rfl rfl
  | release => exact writes _ _ rfl (removing_act _ _ _)
  | closing pc call => exact h.closing (calls_next_worker pc call)
  | closed pc call => exact h.closing (calls_last_worker pc call)
  | _ => exact moves ⟨rfl, rfl, rfl, fun _ => rfl⟩ rfl rfl rfl rfl

/-- `stop()` is charged with the descriptor it is about to close, and not
afterwards. -/
theorem Owned.stopClose (h : Owned cfg s) {fd : Fd} {fds : List Fd}
    (pc : s.stopper = .close (fd :: fds)) :
    s.Claims .stopper fd ∧ fds.Sublist s.stopper.toClose ∧ fd ∉ fds := by
  have nodup : (fd :: fds).Nodup := by
    have := h.toClose
    rwa [pc] at this
  refine ⟨?_, ?_, (List.nodup_cons.mp nodup).1⟩
  · simp [State.Claims, pc, StopPc.toClose]
  · rw [pc]
    exact List.sublist_cons_self fd fds

/-- A move of `stop()` keeps descriptors owned. -/
theorem Owned.stopMove {c : StopChoice} (h : Owned cfg s) (move : StopMove s c s') :
    Owned cfg s' := by
  have moves : ∀ {t : State n}, s.Agrees t → t.workers = s.workers → t.accepter = s.accepter →
      t.stopper.toClose.Sublist s.stopper.toClose → Owned cfg t := h.moveStopper
  cases move with
  | clear _ perm => exact h.clear perm
  | closedAll =>
    refine moves ⟨rfl, rfl, rfl, fun _ => rfl⟩ rfl rfl ?_
    split <;> exact List.nil_sublist _
  | @close fd fds pc =>
    obtain ⟨held, shorter, gone⟩ := h.stopClose pc
    refine h.close .stopper held rfl rfl rfl rfl ?_ gone (by simp) (by simp) rfl shorter
    intro o fd' hc
    cases o with
    | stopper => exact shorter.subset hc
    | _ => exact hc
  | account pc =>
    refine moves ⟨rfl, rfl, rfl, fun _ => rfl⟩ rfl rfl ?_
    rw [pc]
    exact List.Sublist.refl _
  | _ => exact moves ⟨rfl, rfl, rfl, fun _ => rfl⟩ rfl rfl (List.nil_sublist _)

/-- Every step keeps descriptors owned. -/
theorem Owned.step {l : Label n} (h : Owned cfg s) (hs : step cfg s l = some s') :
    Owned cfg s' := by
  cases l with
  | tick elapsed =>
    cases hs
    exact h.frame rfl rfl (fun _ _ hc => hc) (fun _ _ hk => hk) (fun _ => rfl)
      (fun _ hp => hp) h.toClose
  | accepter c => exact h.acceptMove (acceptStep_move hs)
  | worker w c => exact h.workerMove (workerStep_move hs)
  | stopper c => exact h.stopMove (stopStep_move hs)

/-- Descriptors are owned in every state the loop can reach. -/
theorem owned_of_reach {ok : State n → Label n → Prop} (r : (loop n cfg).Reach ok s) :
    Owned cfg s :=
  r.invariant (owned_initial n cfg) fun _ _ _ h _ hs => h.step hs

end WebServer.Pool
