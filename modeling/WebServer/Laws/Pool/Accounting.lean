import Mathlib.Algebra.BigOperators.Fin
import WebServer.Base.History
import WebServer.Laws.Pool.Serving
/-! # Every socket closed once, and counted

Four paths close a client: a worker's close, a failed rearm, the idle sweep and
`stop()`. Each takes the entry out of the table first and calls `close()` later,
and the counter is updated in a third step. The ledger below is the history that
tells who did what to which socket; with `Owned` it shows that whoever closes a
socket is the one thread that took its entry out, and that it does so once.

The counter is a matter of the present: it is the size of the table, corrected
by what is between its section over the table and its update of the counter.
-/

namespace WebServer.Pool

variable {n : Nat} {cfg : Config} {s s' : State n}

/-- The threads that take entries out of the table and close descriptors. -/
inductive Thread (n : Nat) where
  | accepter
  | worker (w : Fin n)
  | stopper
  deriving DecidableEq

/-- The party as which the thread is charged while it closes. -/
def Thread.owner : Thread n → Owner n
  | .accepter => .sweep
  | .worker w => .worker w
  | .stopper => .stopper

/-- The sockets whose entries the step takes out of the table, and who does. -/
def State.removes (s : State n) : Label n → Option (Thread n × List Sock)
  | .accepter .go =>
    match s.accepter with
    | .expire _ (fd :: _) .erase => some (.accepter, (s.connections.lookup fd).toList)
    | _ => none
  | .worker w .go =>
    match s.workers w with
    | .closing e _ .erase => some (.worker w, (s.connections.lookup e.fd).toList)
    | _ => none
  | .stopper (.order _) => some (.stopper, s.connections.entries.map Sigma.snd)
  | _ => none

/-- The descriptor that the step calls `close()` on, and who does. -/
def State.closes (s : State n) : Label n → Option (Thread n × Fd)
  | .accepter .go =>
    match s.accepter with
    | .expire _ (fd :: _) .close => some (.accepter, fd)
    | _ => none
  | .worker w .go =>
    match s.workers w with
    | .closing e _ .close => some (.worker w, e.fd)
    | _ => none
  | .stopper .go =>
    match s.stopper with
    | .close (fd :: _) => some (.stopper, fd)
    | _ => none
  | _ => none

/-- Who took a socket's entry out of the table, and who called `close()` while
its number named it, once for each time. -/
structure Ledger (n : Nat) where
  removedBy : Sock → List (Thread n) := fun _ => []
  closedBy : Sock → List (Thread n) := fun _ => []

def Ledger.remove (ledger : Ledger n) (t : Thread n) (ks : List Sock) : Ledger n :=
  { ledger with
    removedBy := fun k => if k ∈ ks then t :: ledger.removedBy k else ledger.removedBy k }

def Ledger.close (ledger : Ledger n) (t : Thread n) (k : Option Sock) : Ledger n :=
  { ledger with
    closedBy := fun k' => if k = some k' then t :: ledger.closedBy k' else ledger.closedBy k' }

/-- What a step adds to the ledger. -/
def State.record (s : State n) (l : Label n) (ledger : Ledger n) : Ledger n :=
  let removed :=
    match s.removes l with
    | some (t, ks) => ledger.remove t ks
    | none => ledger
  match s.closes l with
  | some (t, fd) => removed.close t (s.files fd)
  | none => removed

/-- The pool loop with its ledger. -/
def ledgered (n : Nat) (cfg : Config) : Machine (State n × Ledger n) (Label n) :=
  (loop n cfg).recording {} State.record

/-! ## Who closes what -/

/-- What the ledger says of the sockets, by where they are. -/
structure Audited (s : State n) (ledger : Ledger n) : Prop where
  held : ∀ t fd k, s.Claims (Thread.owner t) fd → s.files fd = some k →
    ledger.removedBy k = [t] ∧ ledger.closedBy k = []
  tabled : ∀ fd k, s.connections.lookup fd = some k →
    ledger.removedBy k = [] ∧ ledger.closedBy k = []
  inserting : ∀ fd k, s.accepter.inserting = some (fd, k) →
    ledger.removedBy k = [] ∧ ledger.closedBy k = []
  fresh : ∀ k, s.next ≤ k → ledger.removedBy k = [] ∧ ledger.closedBy k = []
  closers : ∀ k t, t ∈ ledger.closedBy k → ledger.removedBy k = [t]
  once : ∀ k, (ledger.closedBy k).length ≤ 1

theorem audited_initial (n : Nat) (cfg : Config) : Audited (State.initial n cfg) {} := by
  constructor
  · intro t fd k _ hk
    simp [State.initial] at hk
  all_goals simp [State.initial, AcceptPc.inserting]

/-- A step that takes nothing out of the table and closes nothing. -/
theorem Audited.frame {ledger : Ledger n} (h : Audited s ledger)
    (held : ∀ t fd k, s'.Claims (Thread.owner t) fd → s'.files fd = some k →
      s.Claims t.owner fd ∧ s.files fd = some k)
    (tabled : ∀ fd k, s'.connections.lookup fd = some k →
      s.connections.lookup fd = some k ∨ s.accepter.inserting = some (fd, k))
    (inserting : ∀ fd k, s'.accepter.inserting = some (fd, k) →
      s.accepter.inserting = some (fd, k) ∨ s.next ≤ k)
    (next : s.next ≤ s'.next) : Audited s' ledger where
  held t fd k hc hk := by
    obtain ⟨hc, hk⟩ := held t fd k hc hk
    exact h.held t fd k hc hk
  tabled fd k hk := by
    rcases tabled fd k hk with hk | hk
    · exact h.tabled fd k hk
    · exact h.inserting fd k hk
  inserting fd k hk := by
    rcases inserting fd k hk with hk | hk
    · exact h.inserting fd k hk
    · exact h.fresh k hk
  fresh k hk := h.fresh k (Nat.le_trans next hk)
  closers := h.closers
  once := h.once

/-- A step on no descriptor, after which no thread is charged with more. -/
theorem Audited.keep {ledger : Ledger n} (h : Audited s ledger) (files : s'.files = s.files)
    (next : s'.next = s.next) (connections : s'.connections = s.connections)
    (inserting : ∀ fd k, s'.accepter.inserting = some (fd, k) →
      s.accepter.inserting = some (fd, k))
    (claims : ∀ t fd, s'.Claims (Thread.owner t) fd → s.Claims t.owner fd) :
    Audited s' ledger := by
  refine h.frame ?_ ?_ ?_ (Nat.le_of_eq next.symm)
  · intro t fd k hc hk
    exact ⟨claims t fd hc, by rwa [← files]⟩
  · intro fd k hk
    exact .inl (by rwa [← connections])
  · exact fun fd k hk => .inl (inserting fd k hk)

/-- A thread takes entries out of the table. -/
theorem Audited.remove {ledger : Ledger n} (h : Audited s ledger) (o : Owned cfg s)
    (t : Thread n) {ks : List Sock} (known : ∀ k ∈ ks, ∃ fd, s.connections.lookup fd = some k)
    (files : s'.files = s.files) (next : s'.next = s.next)
    (held : ∀ t' fd k, s'.Claims (Thread.owner t') fd → s.files fd = some k →
      (t' = t ∧ k ∈ ks) ∨ s.Claims t'.owner fd)
    (tabled : ∀ fd k, s'.connections.lookup fd = some k →
      s.connections.lookup fd = some k ∧ k ∉ ks)
    (inserting : s'.accepter.inserting = s.accepter.inserting) :
    Audited s' (ledger.remove t ks) := by
  have clean : ∀ k ∈ ks, ledger.removedBy k = [] ∧ ledger.closedBy k = [] := by
    intro k hk
    obtain ⟨fd, hfd⟩ := known k hk
    exact h.tabled fd k hfd
  -- a party other than the table has none of the sockets taken out
  have apart : ∀ o' fd k, o' ≠ .table → s.Claims o' fd → s.files fd = some k → k ∉ ks := by
    intro o' fd k hne hc hf hk
    obtain ⟨fd', hfd'⟩ := known k hk
    have hfd : fd' = fd := o.injective _ _ k (o.table fd' k hfd').1 hf
    have mem : s.Claims .table fd := by
      rw [← hfd]
      simp only [State.Claims, ← AList.lookup_isSome, hfd', Option.isSome_some]
    exact hne (o.exclusive _ _ _ hc mem)
  constructor
  · intro t' fd k hc hk
    rw [files] at hk
    rcases held t' fd k hc hk with ⟨rfl, hks⟩ | hc
    · simp [Ledger.remove, hks, clean k hks]
    · have hne : t'.owner ≠ Owner.table := by cases t' <;> simp [Thread.owner]
      simpa [Ledger.remove, apart _ fd k hne hc hk] using h.held t' fd k hc hk
  · intro fd k hk
    obtain ⟨hk, hks⟩ := tabled fd k hk
    simpa [Ledger.remove, hks] using h.tabled fd k hk
  · intro fd k hk
    rw [inserting] at hk
    have hks := apart .accepter fd k (by simp) ⟨k, hk⟩ (o.inserting fd k hk)
    simpa [Ledger.remove, hks] using h.inserting fd k hk
  · intro k hk
    rw [next] at hk
    have hks : k ∉ ks := by
      intro hks
      obtain ⟨fd, hfd⟩ := known k hks
      exact absurd (o.fresh fd k (o.table fd k hfd).1) (Nat.not_lt.mpr hk)
    simpa [Ledger.remove, hks] using h.fresh k hk
  · intro k t' ht
    have hks : k ∉ ks := by
      intro hks
      simp [Ledger.remove, (clean k hks).2] at ht
    simpa [Ledger.remove, hks] using h.closers k t' ht
  · exact h.once

/-- A thread closes the descriptor it is charged with. -/
theorem Audited.close {ledger : Ledger n} (h : Audited s ledger) (o : Owned cfg s)
    (t : Thread n) {fd : Fd} (charged : s.Claims t.owner fd)
    (files : s'.files = Function.update s.files fd none) (next : s'.next = s.next)
    (held : ∀ t' fd', s'.Claims (Thread.owner t') fd' → s.Claims t'.owner fd')
    (connections : s'.connections = s.connections)
    (inserting : s'.accepter.inserting = s.accepter.inserting) :
    Audited s' (ledger.close t (s.files fd)) := by
  obtain ⟨k, hk⟩ := Option.ne_none_iff_exists'.mp (o.live _ fd charged)
  have mine := h.held t fd k charged hk
  -- another number names another socket
  have other : ∀ fd' k', fd' ≠ fd → s.files fd' = some k' → k ≠ k' := by
    rintro fd' k' hne hk' rfl
    exact hne (o.injective fd' fd k hk' hk)
  have apart : ∀ o' fd', o' ≠ t.owner → s.Claims o' fd' → fd' ≠ fd := by
    rintro o' fd' hne hc rfl
    exact hne (o.exclusive _ _ _ hc charged)
  rw [hk]
  constructor
  · intro t' fd' k' hc hk'
    rw [files, Function.update_apply] at hk'
    split at hk'
    case isTrue => cases hk'
    case isFalse hfd =>
      simpa [Ledger.close, other fd' k' hfd hk'] using h.held t' fd' k' (held t' fd' hc) hk'
  · intro fd' k' hk'
    rw [connections] at hk'
    have mem : s.Claims .table fd' := by
      simp only [State.Claims, ← AList.lookup_isSome, hk', Option.isSome_some]
    have hfd := apart .table fd' (by cases t <;> simp [Thread.owner]) mem
    simpa [Ledger.close, other fd' k' hfd (o.table fd' k' hk').1] using h.tabled fd' k' hk'
  · intro fd' k' hk'
    rw [inserting] at hk'
    have hfd := apart .accepter fd' (by cases t <;> simp [Thread.owner]) ⟨k', hk'⟩
    simpa [Ledger.close, other fd' k' hfd (o.inserting fd' k' hk')] using h.inserting fd' k' hk'
  · intro k' hk'
    rw [next] at hk'
    have hne : k ≠ k' := Nat.ne_of_lt (Nat.lt_of_lt_of_le (o.fresh fd k hk) hk')
    simpa [Ledger.close, hne] using h.fresh k' hk'
  · intro k' t' ht
    by_cases hkk : k = k'
    · subst hkk
      simp only [Ledger.close, ↓reduceIte, mine.2, List.mem_singleton] at ht
      subst ht
      exact mine.1
    · apply h.closers k' t'
      simpa [Ledger.close, hkk] using ht
  · intro k'
    by_cases hkk : k = k'
    · subst hkk
      simp [Ledger.close, mine.2]
    · simpa [Ledger.close, hkk] using h.once k'

@[simp] theorem Ledger.remove_nil (ledger : Ledger n) (t : Thread n) :
    ledger.remove t [] = ledger := by
  simp [Ledger.remove]

@[simp] theorem Thread.owner_ne_table (t : Thread n) : t.owner ≠ .table := by
  cases t <;> simp [Thread.owner]

theorem Thread.owner_inj {t t' : Thread n} (h : t.owner = t'.owner) : t = t' := by
  cases t <;> cases t' <;> simp_all [Thread.owner]

/-- What a call of `closeConnection` adds to the ledger. -/
def Ledger.call (ledger : Ledger n) (s : State n) (t : Thread n) (fd : Fd) : Closing → Ledger n
  | .erase => ledger.remove t (s.connections.lookup fd).toList
  | .close => ledger.close t (s.files fd)
  | _ => ledger

/-- A call of `closeConnection` keeps the ledger right, whichever it is. -/
theorem Audited.call {ledger : Ledger n} (h : Audited s ledger) (o : Owned cfg s) {t : Thread n}
    {fd : Fd} {stage : Closing} {next : Option Closing} (c : Calls s s' t.owner fd stage next) :
    Audited s' (ledger.call s t fd stage) := by
  obtain ⟨⟨u, hc, same, _, _⟩, _, _, before, after, others, inserting, _⟩ := c
  have claims : ∀ t' fd', s'.Claims (Thread.owner t') fd' →
      s.Claims t'.owner fd' ∨ (t' = t ∧ fd' = fd ∧ (next.any Closing.owes) = true) := by
    intro t' fd' hcl
    by_cases ht : t' = t
    · subst ht
      exact .inr ⟨rfl, (after fd').mp hcl⟩
    · exact .inl ((others _ fd' (fun e => ht (Thread.owner_inj e)) t'.owner_ne_table).mp hcl)
  have keeps : s'.files = s.files → s'.next = s.next → s'.connections = s.connections →
      (∀ t' fd', s'.Claims (Thread.owner t') fd' → s.Claims t'.owner fd') → Audited s' ledger := by
    intro files next connections
    exact h.keep files next connections fun _ _ hk => inserting ▸ hk
  cases stage with
  | erase =>
    simp only [closeConnection] at hc
    split at hc
    case isTrue mem =>
      cases hc
      obtain ⟨k₀, hk₀⟩ := Option.isSome_iff_exists.mp (AList.lookup_isSome.mpr mem)
      simp only [Ledger.call, hk₀, Option.toList_some]
      refine h.remove o t ?_ same.files same.next ?_ ?_ inserting
      · intro k hk
        rw [List.mem_singleton] at hk
        exact ⟨fd, hk ▸ hk₀⟩
      · intro t' fd' k hcl hk
        rcases claims t' fd' hcl with hcl | ⟨ht, rfl, _⟩
        · exact .inr hcl
        · rw [(o.table _ k₀ hk₀).1] at hk
          cases hk
          exact .inl ⟨ht, List.mem_singleton_self k₀⟩
      · intro fd' k hk
        rw [same.connections] at hk
        have hfd : fd' ≠ fd := by
          rintro rfl
          rw [AList.lookup_erase] at hk
          cases hk
        rw [AList.lookup_erase_ne hfd] at hk
        refine ⟨hk, ?_⟩
        rw [List.mem_singleton]
        rintro rfl
        exact hfd (o.injective fd' fd k (o.table fd' k hk).1 (o.table fd k hk₀).1)
    case isFalse absent =>
      cases hc
      rw [← AList.lookup_eq_none] at absent
      simp only [Ledger.call, absent, Option.toList_none, Ledger.remove_nil]
      refine keeps same.files same.next same.connections ?_
      intro t' fd' hcl
      rcases claims t' fd' hcl with hcl | ⟨_, _, owes⟩
      · exact hcl
      · simp at owes
  | ctlDel =>
    cases hc
    refine keeps same.files same.next same.connections ?_
    intro t' fd' hcl
    rcases claims t' fd' hcl with hcl | ⟨rfl, rfl, _⟩
    · exact hcl
    · exact (before _).mpr ⟨rfl, rfl⟩
  | close =>
    cases hc
    refine h.close o t ((before fd).mpr ⟨rfl, rfl⟩) same.files same.next ?_ same.connections
      inserting
    intro t' fd' hcl
    rcases claims t' fd' hcl with hcl | ⟨_, _, owes⟩
    · exact hcl
    · simp [Closing.owes] at owes
  | account =>
    cases hc
    refine keeps same.files same.next same.connections ?_
    intro t' fd' hcl
    rcases claims t' fd' hcl with hcl | ⟨_, _, owes⟩
    · exact hcl
    · simp at owes

/-- A move of the accept thread keeps the ledger right. -/
theorem Audited.acceptMove {ledger : Ledger n} (h : Audited s ledger) (o : Owned cfg s)
    {c : AcceptChoice} (move : AcceptMove cfg s c s') :
    Audited s' (s.record (.accepter c) ledger) := by
  -- the thread goes where it is charged with nothing
  have moves : ∀ {t : State n}, t.files = s.files → t.next = s.next →
      t.connections = s.connections → t.workers = s.workers → t.stopper = s.stopper →
      t.accepter.inserting = none → t.accepter.removing = none → Audited t ledger := by
    intro t files next connections workers stopper inserting removing
    refine h.keep files next connections (by simp [inserting]) ?_
    intro t' fd hc
    cases t' with
    | accepter => simp [State.Claims, Thread.owner, removing] at hc
    | worker w => simpa only [State.Claims, Thread.owner, workers] using hc
    | stopper => simpa only [State.Claims, Thread.owner, stopper] using hc
  cases move with
  | closing pc call =>
    rename_i stage _ _
    have step := h.call (t := .accepter) o (calls_next_sweep pc call)
    cases stage <;> simpa [State.record, State.removes, State.closes, pc, Ledger.call] using step
  | closed pc call =>
    rename_i stage _
    have step := h.call (t := .accepter) o (calls_last_sweep pc call)
    cases stage <;> simpa [State.record, State.removes, State.closes, pc, Ledger.call] using step
  | @accepted batch fd pc listening free new =>
    simp only [State.record, State.removes, State.closes]
    refine h.frame ?_ (fun _ _ hk => .inl hk) ?_ (Nat.le_succ _)
    · intro t fd' k hc hk
      have old : s.Claims t.owner fd' := by
        cases t with
        | accepter => simp [State.Claims, Thread.owner, AcceptPc.removing] at hc
        | _ => exact hc
      have hne : fd' ≠ fd := by
        rintro rfl
        exact o.live _ _ old free
      exact ⟨old, by simpa only [Function.update_of_ne hne] using hk⟩
    · intro fd' k hk
      simp only [AcceptPc.inserting, Option.some.injEq, Prod.mk.injEq] at hk
      exact .inr (Nat.le_of_eq hk.2)
  | @insert batch fd k pc =>
    simp only [State.record, State.removes, State.closes, pc]
    refine h.frame ?_ ?_ (by simp [AcceptPc.inserting]) (Nat.le_refl _)
    · intro t fd' k' hc hk
      cases t with
      | accepter => simp [State.Claims, Thread.owner, AcceptPc.removing] at hc
      | _ => exact ⟨hc, hk⟩
    · intro fd' k' hk
      by_cases hfd : fd' = fd
      · subst hfd
        rw [AList.lookup_insert] at hk
        cases hk
        exact .inr (by rw [pc]; rfl)
      · rw [AList.lookup_insert_ne hfd] at hk
        exact .inl hk
  | scan pc =>
    simp only [State.record, State.removes, State.closes]
    exact moves rfl rfl rfl rfl rfl rfl (removing_erase _ _)
  | _ pc =>
    simp only [State.record, State.removes, State.closes, pc]
    exact moves rfl rfl rfl rfl rfl rfl rfl

/-- A move of a worker keeps the ledger right. -/
theorem Audited.workerMove {ledger : Ledger n} (h : Audited s ledger) (o : Owned cfg s)
    {w : Fin n} {c : WorkerChoice} (move : WorkerMove s w c s') :
    Audited s' (s.record (.worker w c) ledger) := by
  -- the worker goes where it is charged with nothing
  have moves : ∀ {t : State n} {pc : WorkerPc}, t.files = s.files → t.next = s.next →
      t.connections = s.connections → t.workers = Function.update s.workers w pc →
      t.stopper = s.stopper → t.accepter = s.accepter → pc.removing = none →
      Audited t ledger := by
    intro t pc files next connections workers stopper accepter removing
    refine h.keep files next connections (fun _ _ hk => accepter ▸ hk) ?_
    intro t' fd hc
    cases t' with
    | accepter => simpa only [State.Claims, Thread.owner, accepter] using hc
    | worker w' =>
      simp only [State.Claims, Thread.owner, workers, Function.update_apply] at hc ⊢
      split at hc
      · simp [removing] at hc
      · exact hc
    | stopper => simpa only [State.Claims, Thread.owner, stopper] using hc
  cases move with
  | closing pc call =>
    rename_i stage _ _
    have step := h.call (t := .worker w) o (calls_next_worker pc call)
    cases stage <;> simpa [State.record, State.removes, State.closes, pc, Ledger.call] using step
  | closed pc call =>
    rename_i stage _
    have step := h.call (t := .worker w) o (calls_last_worker pc call)
    cases stage <;> simpa [State.record, State.removes, State.closes, pc, Ledger.call] using step
  | received => simpa [State.record, State.removes, State.closes] using h
  | sent => simpa [State.record, State.removes, State.closes] using h
  | found pc =>
    simp only [State.record, State.removes, State.closes, pc]
    exact moves rfl rfl rfl rfl rfl rfl (removing_enter _ _)
  | release pc =>
    simp only [State.record, State.removes, State.closes, pc]
    exact moves rfl rfl rfl rfl rfl rfl (removing_act _ _ _)
  | _ pc =>
    simp only [State.record, State.removes, State.closes, pc]
    exact moves rfl rfl rfl rfl rfl rfl rfl

/-- A move of `stop()` keeps the ledger right. -/
theorem Audited.stopMove {ledger : Ledger n} (h : Audited s ledger) (o : Owned cfg s)
    {c : StopChoice} (move : StopMove s c s') :
    Audited s' (s.record (.stopper c) ledger) := by
  have moves : ∀ {t : State n}, t.files = s.files → t.next = s.next →
      t.connections = s.connections → t.workers = s.workers → t.accepter = s.accepter →
      t.stopper.toClose.Sublist s.stopper.toClose → Audited t ledger := by
    intro t files next connections workers accepter toClose
    refine h.keep files next connections (fun _ _ hk => accepter ▸ hk) ?_
    intro t' fd hc
    cases t' with
    | accepter => simpa only [State.Claims, Thread.owner, accepter] using hc
    | worker w => simpa only [State.Claims, Thread.owner, workers] using hc
    | stopper => exact toClose.subset hc
  cases move with
  | @clear fds pc perm =>
    simp only [State.record, State.removes, State.closes]
    refine h.remove o .stopper ?_ rfl rfl ?_ ?_ rfl
    · intro k hk
      obtain ⟨⟨fd, k⟩, mem, rfl⟩ := List.mem_map.mp hk
      exact ⟨fd, AList.mem_lookup_iff.mpr mem⟩
    · intro t' fd k hc hk
      cases t' with
      | stopper =>
        have mem : fd ∈ s.connections := AList.mem_keys.mp (perm.mem_iff.mp hc)
        obtain ⟨k', hk'⟩ := Option.isSome_iff_exists.mp (AList.lookup_isSome.mpr mem)
        rw [(o.table fd k' hk').1] at hk
        cases hk
        exact .inl ⟨rfl, List.mem_map.mpr ⟨⟨fd, k⟩, AList.mem_lookup_iff.mp hk', rfl⟩⟩
      | _ => exact .inr hc
    · intro fd k hk
      simp at hk
  | @close fd fds pc =>
    obtain ⟨charged, shorter, gone⟩ := o.stopClose pc
    simp only [State.record, State.removes, State.closes, pc]
    refine h.close o .stopper charged rfl rfl ?_ rfl rfl
    intro t' fd' hc
    cases t' with
    | stopper => exact shorter.subset hc
    | _ => exact hc
  | closedAll pc =>
    simp only [State.record, State.removes, State.closes, pc]
    refine moves rfl rfl rfl rfl rfl ?_
    split <;> exact List.nil_sublist _
  | account pc =>
    simp only [State.record, State.removes, State.closes, pc]
    refine moves rfl rfl rfl rfl rfl ?_
    rw [pc]
    exact List.Sublist.refl _
  | _ pc =>
    simp only [State.record, State.removes, State.closes, pc]
    exact moves rfl rfl rfl rfl rfl (List.nil_sublist _)

/-- The ledger is right in every state that the loop can reach with it. -/
theorem audited_of_reach {p : State n × Ledger n} (r : (ledgered n cfg).Reachable p) :
    Audited p.1 p.2 := by
  have owned : ∀ s, (loop n cfg).Reachable s → Owned cfg s := fun _ => owned_of_reach
  refine Machine.Reach.history owned (audited_initial n cfg) ?_ r
  intro s l s' ledger o h _ hs
  cases l with
  | tick elapsed =>
    cases hs
    exact h.frame (fun _ _ _ hc hk => ⟨hc, hk⟩) (fun _ _ hk => .inl hk) (fun _ _ hk => .inl hk)
      (Nat.le_refl _)
  | accepter c => exact h.acceptMove o (acceptStep_move hs)
  | worker w c => exact h.workerMove o (workerStep_move hs)
  | stopper c => exact h.stopMove o (stopStep_move hs)

/-- The thread that a step has call `close()` is charged with the descriptor. -/
theorem claims_of_closes {l : Label n} {t : Thread n} {fd : Fd}
    (h : s.closes l = some (t, fd)) : s.Claims t.owner fd := by
  unfold State.closes at h
  split at h
  case h_1 =>
    split at h
    case h_1 pc =>
      cases h
      simp [Thread.owner, State.Claims, pc, AcceptPc.removing, Closing.owes]
    case h_2 => cases h
  case h_2 =>
    split at h
    case h_1 pc =>
      cases h
      simp [Thread.owner, State.Claims, pc, WorkerPc.removing, Closing.owes]
    case h_2 => cases h
  case h_3 =>
    split at h
    case h_1 pc =>
      cases h
      simp [Thread.owner, State.Claims, pc, StopPc.toClose]
    case h_2 => cases h
  case h_4 => cases h

/-! ## The counter -/

/-- The entry is erased and `connectionClosed()` has not run. -/
def Closing.unaccounted : Closing → Int
  | .erase => 0
  | _ => 1

/-- The connections the thread has taken out of the table and not accounted. -/
def AcceptPc.unaccounted : AcceptPc → Int
  | .expire _ (_ :: _) stage => stage.unaccounted
  | _ => 0

/-- The connections the worker has taken out of the table and not accounted. -/
def WorkerPc.unaccounted : WorkerPc → Int
  | .closing _ _ stage => stage.unaccounted
  | _ => 0

/-- The connections `stop()` has taken out of the table and not accounted. -/
def StopPc.unaccounted : StopPc → Int
  | .close fds => fds.length
  | .account fds => fds.length + 1
  | _ => 0

/-- The connections inserted whose `connectionOpened()` has not run. -/
def AcceptPc.unopened : AcceptPc → Int
  | .opened _ _ => 1
  | _ => 0

/-- The connections taken out of the table whose `connectionClosed()` has not run. -/
def State.unaccounted (s : State n) : Int :=
  s.accepter.unaccounted + (Finset.univ.sum fun w => (s.workers w).unaccounted) +
    s.stopper.unaccounted

/-- The counter agrees with the table. -/
def Balanced (s : State n) : Prop :=
  s.activeConnections =
    s.connections.keys.length + s.unaccounted - s.accepter.unopened

theorem balanced_initial (n : Nat) (cfg : Config) : Balanced (State.initial n cfg) := by
  simp [Balanced, State.initial, State.unaccounted, AcceptPc.unaccounted, AcceptPc.unopened,
    WorkerPc.unaccounted, StopPc.unaccounted]

/-- A sum over the threads when one of them moves. -/
theorem sum_update {α : Type} (workers : Fin n → α) (w : Fin n) (pc : α) (count : α → Int) :
    (Finset.univ.sum fun w' => count (Function.update workers w pc w')) =
      (Finset.univ.sum fun w' => count (workers w')) + count pc - count (workers w) := by
  have rest : ((Finset.univ.erase w).sum fun w' => count (Function.update workers w pc w')) =
      (Finset.univ.erase w).sum fun w' => count (workers w') := by
    apply Finset.sum_congr rfl
    intro w' hw'
    rw [Function.update_of_ne (Finset.ne_of_mem_erase hw')]
  rw [← Finset.add_sum_erase _ _ (Finset.mem_univ w), rest, Function.update_self,
    ← Finset.add_sum_erase (f := fun w' => count (workers w')) _ (Finset.mem_univ w)]
  omega

/-- Each call of `closeConnection` moves one connection from the table to what is
unaccounted, or from there to the counter, or nothing. -/
theorem closeConnection_balance {fd : Fd} {stage : Closing} {next : Option Closing}
    (hc : closeConnection s fd stage = (s', next)) :
    s'.activeConnections - s'.connections.keys.length =
      s.activeConnections - s.connections.keys.length +
        (next.elim 0 Closing.unaccounted - stage.unaccounted) := by
  cases stage <;> simp only [closeConnection] at hc
  case erase =>
    split at hc
    case isTrue mem =>
      cases hc
      have some_ : 0 < s.connections.keys.length := List.length_pos_of_mem (AList.mem_keys.mpr mem)
      simp only [AList.keys_erase, List.length_erase_of_mem (AList.mem_keys.mpr mem),
        Option.elim_some, Closing.unaccounted]
      omega
    case isFalse =>
      cases hc
      simp [Closing.unaccounted]
  all_goals
    cases hc
    simp [Closing.unaccounted, State.closeFd]
  omega

/-- A move of the accept thread keeps the balance. -/
theorem Balanced.acceptMove {c : AcceptChoice} (h : Balanced s) (o : Owned cfg s)
    (move : AcceptMove cfg s c s') : Balanced s' := by
  unfold Balanced State.unaccounted at h ⊢
  cases move with
  | @insert batch fd k pc =>
    have fresh : fd ∉ s.connections := by
      intro mem
      have claim : s.Claims .accepter fd := ⟨k, by rw [pc]; rfl⟩
      cases o.exclusive .accepter .table fd claim mem
    have keys : fd ∉ s.connections.keys := fresh
    simp only [pc, AcceptPc.unaccounted, AcceptPc.unopened, AList.keys_insert,
      List.erase_of_not_mem keys, List.length_cons, State.setObject] at h ⊢
    omega
  | @scan at_ now fds pc perm =>
    cases fds <;>
      simpa [pc, AcceptPc.unaccounted, AcceptPc.unopened, Closing.unaccounted] using h
  | closing pc call =>
    obtain ⟨_, workers, stopper, _, _⟩ := closeConnection_frame call
    have := closeConnection_balance call
    simp only [pc, AcceptPc.unaccounted, AcceptPc.unopened, workers, stopper,
      Option.elim_some] at h this ⊢
    omega
  | @closed at_ fd fds stage t pc call =>
    obtain ⟨_, workers, stopper, _, _⟩ := closeConnection_frame call
    have := closeConnection_balance call
    cases fds <;>
      simp only [pc, AcceptPc.unaccounted, AcceptPc.unopened, workers, stopper,
        Closing.unaccounted, Option.elim_none] at h this ⊢ <;>
      omega
  | _ pc =>
    simp only [pc, AcceptPc.unaccounted, AcceptPc.unopened] at h ⊢
    omega

/-- A worker moves, and the counter and the table change by what the move takes
from the one to the other. -/
theorem Balanced.moveWorker (h : Balanced s) {w : Fin n} {pc : WorkerPc}
    (workers : s'.workers = Function.update s.workers w pc) (accepter : s'.accepter = s.accepter)
    (stopper : s'.stopper = s.stopper)
    (moved : s'.activeConnections - s'.connections.keys.length =
      s.activeConnections - s.connections.keys.length +
        (pc.unaccounted - (s.workers w).unaccounted)) : Balanced s' := by
  have sum := sum_update s.workers w pc WorkerPc.unaccounted
  rw [← workers] at sum
  unfold Balanced State.unaccounted at h ⊢
  rw [accepter, stopper, sum]
  omega

/-- A move of a worker keeps the balance. -/
theorem Balanced.workerMove {w : Fin n} {c : WorkerChoice} (h : Balanced s)
    (move : WorkerMove s w c s') : Balanced s' := by
  cases move with
  | received => exact h
  | sent => exact h
  | @found e k pc _ =>
    have entered : (enter e k).unaccounted = 0 := by
      unfold enter
      split
      · rfl
      · split <;> rfl
    refine h.moveWorker rfl rfl rfl ?_
    rw [pc, entered]
    simp [State.setWorker, State.setObject, WorkerPc.unaccounted]
  | @release e k action pc =>
    have acted : (act e k action).unaccounted = 0 := by cases action <;> rfl
    refine h.moveWorker rfl rfl rfl ?_
    rw [pc, acted]
    simp [State.setWorker, State.setObject, WorkerPc.unaccounted]
  | closing pc call | closed pc call =>
    obtain ⟨accepter, workers, stopper, _, _⟩ := closeConnection_frame call
    refine h.moveWorker (congrArg (Function.update · w _) workers) accepter stopper ?_
    rw [pc]
    exact closeConnection_balance call
  | _ pc =>
    refine h.moveWorker rfl rfl rfl ?_
    simp [State.setWorker, State.setObject, pc, WorkerPc.unaccounted, Closing.unaccounted]

/-- A move of `stop()` keeps the balance. -/
theorem Balanced.stopMove {c : StopChoice} (h : Balanced s) (move : StopMove s c s') :
    Balanced s' := by
  unfold Balanced State.unaccounted at h ⊢
  cases move with
  | clear pc perm =>
    simp only [pc, StopPc.unaccounted, AList.keys_empty, List.length_nil, perm.length_eq] at h ⊢
    omega
  | closedAll pc =>
    by_cases isOpen : s.listenFd.isSome = true <;>
      simp only [pc, isOpen, ↓reduceIte, StopPc.unaccounted, List.length_nil] at h ⊢ <;>
      simpa using h
  | close pc =>
    simp only [pc, StopPc.unaccounted, List.length_cons, State.closeFd] at h ⊢
    omega
  | account pc =>
    simp only [pc, StopPc.unaccounted] at h ⊢
    omega
  | _ pc =>
    simp only [pc, StopPc.unaccounted] at h ⊢
    omega

/-- The counter agrees with the table in every state the loop can reach. -/
theorem balanced_of_reach {ok : State n → Label n → Prop} (r : (loop n cfg).Reach ok s) :
    Balanced s := by
  refine (r.invariant (I := fun s => Owned cfg s ∧ Balanced s)
    ⟨owned_initial n cfg, balanced_initial n cfg⟩ ?_).2
  rintro s l s' ⟨o, h⟩ _ hs
  refine ⟨o.step hs, ?_⟩
  cases l with
  | tick elapsed =>
    cases hs
    exact h
  | accepter c => exact h.acceptMove o (acceptStep_move hs)
  | worker w c => exact h.workerMove (workerStep_move hs)
  | stopper c => exact h.stopMove (stopStep_move hs)

/-! ## The account -/

/-- Whoever calls `close()` on a client descriptor closes an open socket, is the
thread that took its entry out of the table, and is the first to close it; the
table holds open descriptors; the counter is the table's size, plus what was
taken out and is not accounted yet, minus what was put in and is not. -/
structure Accounted (cfg : Config) (s : State n) (ledger : Ledger n) : Prop where
  closer : ∀ k t, t ∈ ledger.closedBy k → ledger.removedBy k = [t]
  once : ∀ k, (ledger.closedBy k).length ≤ 1
  closes : ∀ l s' t fd, step cfg s l = some s' → s.closes l = some (t, fd) →
    ∃ k, s.files fd = some k ∧ ledger.removedBy k = [t] ∧ ledger.closedBy k = []
  table : ∀ fd ∈ s.connections, s.files fd ≠ none
  active : s.activeConnections =
    s.connections.keys.length + s.unaccounted - s.accepter.unopened

/-- The account is right in every state of every run. -/
theorem accounted {p : State n × Ledger n} (r : (ledgered n cfg).Reachable p) :
    Accounted cfg p.1 p.2 := by
  have audited := audited_of_reach r
  have base : (loop n cfg).Reachable p.1 := Machine.Reach.forget r
  have owned := owned_of_reach base
  refine ⟨audited.closers, audited.once, ?_, fun fd mem => owned.live .table fd mem,
    balanced_of_reach base⟩
  intro l s' t fd _ hc
  have claim := claims_of_closes hc
  obtain ⟨k, hk⟩ := Option.ne_none_iff_exists'.mp (owned.live _ _ claim)
  exact ⟨k, hk, audited.held t fd k claim hk⟩

/-- Where the run that sweeps a silent client ends, with its ledger. -/
def sweptInTimeLedger : State 1 × Ledger 1 :=
  ((ledgered 1 {}).exec (ledgered 1 {}).start sweptInTime).get (by decide)

/-- The sweep took the first client's entry out and closed it; the second client
is counted. -/
theorem accounted_sweptInTime :
    sweptInTimeLedger.2.closedBy 0 = [.accepter] ∧ sweptInTimeLedger.1.activeConnections = 1 ∧
      Accounted {} sweptInTimeLedger.1 sweptInTimeLedger.2 :=
  ⟨by decide, by decide, accounted (.of_exec (Option.some_get _).symm)⟩

end WebServer.Pool
