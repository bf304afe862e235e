import WebServer.Laws.Pool.Accounting
/-! # What is left when the pool has shut down

`stop()` empties the table once, closes what was in it, and does not wait for the
accept thread; `run()` waits for its own threads and not for `stop()`. So a client
accepted around the emptying stays in the table, or is never put there in time, and
nobody closes it afterwards. `Orderly` is the condition that the two do not cross
each other; on runs that meet it every socket is closed and counted off when
`run()` returns (`closed_of_orderly`).

The argument needs that no open descriptor is ever lost: each is charged to
somebody (`Charged`), and when everybody is done there is nobody left to charge.
-/

namespace WebServer.Pool

variable {n : Nat} {cfg : Config} {s s' : State n}

/-- `run()` has returned: the accept loop was left and every worker joined. -/
def State.returned (s : State n) : Prop :=
  s.accepter = .done ∧ ∀ w, s.workers w = .exited

/-- `stop()` has emptied the table. -/
def StopPc.cleared : StopPc → Bool
  | .idle | .wake | .clear => false
  | _ => true

/-- `stop()` has closed all it took out of the table. -/
def StopPc.finished : StopPc → Bool
  | .close [] | .closeListener | .resetListener | .done => true
  | _ => false

/-- With this step the last of the threads that `run()` waits for leaves. -/
def State.lastOut (s : State n) : Label n → Bool
  | .accepter .go => s.accepter = .poll && !s.running && decide (∀ w, s.workers w = .exited)
  | .accepter .failed => s.accepter = .wait && decide (∀ w, s.workers w = .exited)
  | .worker w .go =>
    s.workers w = .idle && s.workQueue.isEmpty && !s.running && s.accepter = .done &&
      decide (∀ w', w' ≠ w → s.workers w' = .exited)
  | _ => false

/-- With this step `stop()` and the accept thread cross: the table is emptied while
a connection is between `accept` and its insertion, or one is accepted after the
table was emptied. -/
def State.crosses (s : State n) : Label n → Bool
  | .stopper (.order _) => s.accepter.inserting.isSome
  | .accepter (.accepted _) => s.stopper.cleared
  | _ => false

/-- The condition under which shutdown closes everything, on the state before a
step: `stop()` and the accept thread do not cross, and the last of the threads
leaves when `stop()` has closed what it took. -/
def Orderly (s : State n) (l : Label n) : Prop :=
  s.crosses l = false ∧ (s.lastOut l = true → s.stopper.finished = true)

instance (s : State n) (l : Label n) : Decidable (Orderly s l) :=
  inferInstanceAs (Decidable (s.crosses l = false ∧ (s.lastOut l = true → _)))

/-- Every socket that was accepted has been closed, once, and none is counted. -/
structure Closed (s : State n) (ledger : Ledger n) : Prop where
  once : ∀ k, k < s.next → ∃ t, ledger.closedBy k = [t]
  active : s.activeConnections = 0

/-! ## Nothing is lost -/

/-- Each open descriptor is charged to somebody. -/
def Charged (s : State n) : Prop :=
  ∀ fd, s.files fd ≠ none → ∃ o, s.Claims o fd

/-- Whoever was charged with a descriptor that is still open passes it on. -/
theorem Charged.frame (h : Charged s)
    (files : ∀ fd, s'.files fd ≠ none → s.files fd ≠ none)
    (claims : ∀ o fd, s'.files fd ≠ none → s.Claims o fd → ∃ o', s'.Claims o' fd) :
    Charged s' := by
  intro fd hne
  obtain ⟨o, hc⟩ := h fd (files fd hne)
  exact claims o fd hne hc

/-- The accept thread moves from where it is charged with nothing. -/
theorem Charged.moveAccepter (h : Charged s)
    (files : s'.files = s.files) (connections : s'.connections = s.connections)
    (workers : s'.workers = s.workers) (stopper : s'.stopper = s.stopper)
    (inserting : s.accepter.inserting = none) (removing : s.accepter.removing = none) :
    Charged s' := by
  refine h.frame (fun _ hne => files ▸ hne) ?_
  intro o fd _ hc
  cases o with
  | accepter => simp [State.Claims, inserting] at hc
  | sweep => simp [State.Claims, removing] at hc
  | table => exact ⟨.table, by rwa [State.Claims, connections]⟩
  | worker w => exact ⟨.worker w, by rwa [State.Claims, workers]⟩
  | stopper => exact ⟨.stopper, by rwa [State.Claims, stopper]⟩

/-- A worker moves from where it is charged with nothing. -/
theorem Charged.moveWorker (h : Charged s) {w : Fin n}
    {pc : WorkerPc} (files : s'.files = s.files) (connections : s'.connections = s.connections)
    (workers : s'.workers = Function.update s.workers w pc) (stopper : s'.stopper = s.stopper)
    (accepter : s'.accepter = s.accepter) (removing : (s.workers w).removing = none) :
    Charged s' := by
  refine h.frame (fun _ hne => files ▸ hne) ?_
  intro o fd _ hc
  cases o with
  | worker w' =>
    have hw : w' ≠ w := by
      rintro rfl
      simp [State.Claims, removing] at hc
    refine ⟨.worker w', ?_⟩
    rwa [State.Claims, workers, Function.update_of_ne hw]
  | accepter => exact ⟨.accepter, by rwa [State.Claims, accepter]⟩
  | sweep => exact ⟨.sweep, by rwa [State.Claims, accepter]⟩
  | table => exact ⟨.table, by rwa [State.Claims, connections]⟩
  | stopper => exact ⟨.stopper, by rwa [State.Claims, stopper]⟩

/-- `stop()` moves, charged with what it was charged with. -/
theorem Charged.moveStopper (h : Charged s) (files : s'.files = s.files)
    (connections : s'.connections = s.connections) (workers : s'.workers = s.workers)
    (accepter : s'.accepter = s.accepter)
    (toClose : s'.stopper.toClose = s.stopper.toClose) : Charged s' := by
  refine h.frame (fun _ hne => files ▸ hne) ?_
  intro o fd _ hc
  refine ⟨o, ?_⟩
  cases o with
  | stopper => rwa [State.Claims, toClose]
  | table => rwa [State.Claims, connections]
  | worker w => rwa [State.Claims, workers]
  | accepter | sweep => rwa [State.Claims, accepter]

/-- A call of `closeConnection`: the table's charge passes to the caller, and the
caller's ends with the close. -/
theorem Charged.call (h : Charged s) {o : Owner n} {fd : Fd}
    {stage : Closing} {next : Option Closing} (c : Calls s s' o fd stage next) : Charged s' := by
  obtain ⟨⟨u, call, same, _, _⟩, notTable, notAccepter, before, after, others, _, _⟩ := c
  have less := (closeConnection_less call).1
  refine h.frame ?_ ?_
  · intro fd' hne
    obtain ⟨k, hk⟩ := Option.ne_none_iff_exists'.mp hne
    rw [same.files] at hk
    simp [less fd' k hk]
  · intro o' fd' hne hc
    by_cases ho : o' = o
    · subst ho
      obtain ⟨rfl, owes⟩ := (before fd').mp hc
      cases stage with
      | erase | account => cases owes
      | ctlDel =>
        cases call
        exact ⟨o', (after fd').mpr ⟨rfl, rfl⟩⟩
      | close =>
        cases call
        rw [same.files] at hne
        simp [State.closeFd] at hne
    · by_cases ht : o' = .table
      · subst ht
        cases stage with
        | erase =>
          simp only [closeConnection] at call
          split at call
          case isTrue mem =>
            cases call
            by_cases hfd : fd' = fd
            · exact ⟨o, (after fd').mpr ⟨hfd, rfl⟩⟩
            · refine ⟨.table, ?_⟩
              rw [State.Claims, same.connections, AList.mem_erase]
              exact ⟨hfd, hc⟩
          case isFalse =>
            cases call
            exact ⟨.table, by rwa [State.Claims, same.connections]⟩
        | ctlDel | close | account =>
          cases call
          exact ⟨.table, by rwa [State.Claims, same.connections]⟩
      · exact ⟨o', (others o' fd' ho ht).mpr hc⟩

/-- Every step leaves each open descriptor charged to somebody. -/
theorem Charged.step (h : Charged s) {l : Label n} (hs : step cfg s l = some s') : Charged s' := by
  cases l with
  | tick elapsed =>
    cases hs
    exact h
  | accepter c =>
    cases acceptStep_move hs with
    | @accepted batch fd pc _ free =>
      intro fd' hne
      by_cases hfd : fd' = fd
      · exact ⟨.accepter, s.next, by rw [hfd]; rfl⟩
      · simp only [Function.update_of_ne hfd] at hne
        obtain ⟨o, hc⟩ := h fd' hne
        refine ⟨o, ?_⟩
        cases o with
        | accepter => simp [State.Claims, pc, AcceptPc.inserting] at hc
        | sweep => simp [State.Claims, pc, AcceptPc.removing] at hc
        | _ => exact hc
    | @insert batch fd k pc =>
      refine h.frame (fun _ hne => hne) ?_
      intro o fd' _ hc
      cases o with
      | accepter =>
        simp only [State.Claims, pc, AcceptPc.inserting, Option.some.injEq, Prod.mk.injEq,
          exists_and_left, exists_eq', and_true] at hc
        exact ⟨.table, by simp [State.Claims, hc]⟩
      | sweep => simp [State.Claims, pc, AcceptPc.removing] at hc
      | table => exact ⟨.table, (AList.mem_insert _).mpr (.inr hc)⟩
      | worker w => exact ⟨.worker w, hc⟩
      | stopper => exact ⟨.stopper, hc⟩
    | closing pc call => exact h.call (calls_next_sweep pc call)
    | closed pc call => exact h.call (calls_last_sweep pc call)
    | _ pc =>
      refine h.moveAccepter rfl rfl rfl rfl ?_ ?_ <;> rw [pc] <;> rfl
  | worker w c =>
    cases workerStep_move hs with
    | received | sent => exact h
    | closing pc call => exact h.call (calls_next_worker pc call)
    | closed pc call => exact h.call (calls_last_worker pc call)
    | _ pc => exact h.moveWorker rfl rfl rfl rfl rfl (by rw [pc]; rfl)
  | stopper c =>
    cases stopStep_move hs with
    | clear pc perm =>
      refine h.frame (fun _ hne => hne) ?_
      intro o fd _ hc
      cases o with
      | table => exact ⟨.stopper, perm.mem_iff.mpr (AList.mem_keys.mp hc)⟩
      | stopper => simp [State.Claims, pc, StopPc.toClose] at hc
      | accepter => exact ⟨.accepter, hc⟩
      | sweep => exact ⟨.sweep, hc⟩
      | worker w => exact ⟨.worker w, hc⟩
    | @close fd fds pc =>
      intro fd' hne
      have hfd : fd' ≠ fd := by
        rintro rfl
        simp [State.closeFd] at hne
      simp only [State.closeFd, Function.update_of_ne hfd] at hne
      obtain ⟨o, hc⟩ := h fd' hne
      refine ⟨o, ?_⟩
      cases o with
      | stopper => simpa [State.Claims, pc, StopPc.toClose, hfd] using hc
      | _ => exact hc
    | closedAll pc =>
      refine h.moveStopper rfl rfl rfl rfl ?_
      rw [pc]
      split <;> rfl
    | _ pc => exact h.moveStopper rfl rfl rfl rfl (by rw [pc]; rfl)

/-- A call of `closeConnection` closes the descriptor that the history records, or
leaves them all alone. -/
theorem files_of_call {l : Label n} {t : Thread n} {fd : Fd} {stage : Closing}
    {next : Option Closing} (call : closeConnection s fd stage = (s', next))
    (closes : s.closes l = if stage = .close then some (t, fd) else none) :
    (s.closes l = none ∧ s'.files = s.files ∧ s'.next = s.next) ∨
      ∃ t fd, s.closes l = some (t, fd) ∧ s'.files = Function.update s.files fd none ∧
        s'.next = s.next := by
  cases stage with
  | erase =>
    simp only [closeConnection] at call
    split at call <;> cases call <;> exact .inl ⟨closes, rfl, rfl⟩
  | close =>
    cases call
    exact .inr ⟨t, fd, closes, rfl, rfl⟩
  | ctlDel | account =>
    cases call
    exact .inl ⟨closes, rfl, rfl⟩

/-- What a step does to the descriptors: nothing, a close that the history records,
or an accept. -/
theorem step_files {l : Label n} (hs : step cfg s l = some s') :
    (s.closes l = none ∧ s'.files = s.files ∧ s'.next = s.next) ∨
      (∃ t fd, s.closes l = some (t, fd) ∧ s'.files = Function.update s.files fd none ∧
        s'.next = s.next) ∨
      ∃ fd, l = .accepter (.accepted fd) ∧ s.files fd = none ∧
        s'.files = Function.update s.files fd (some s.next) ∧ s'.next = s.next + 1 := by
  cases l with
  | tick elapsed =>
    cases hs
    exact .inl ⟨rfl, rfl, rfl⟩
  | accepter c =>
    cases acceptStep_move hs with
    | accepted pc _ free => exact .inr (.inr ⟨_, rfl, free, rfl, rfl⟩)
    | @closing at_ fd fds stage next t pc call | @closed at_ fd fds stage t pc call =>
      refine (files_of_call (t := .accepter) call ?_).imp_right .inl
      simp only [State.closes, pc]
      cases stage <;> rfl
    | _ pc => exact .inl ⟨by simp only [State.closes, pc], rfl, rfl⟩
  | worker w c =>
    cases workerStep_move hs with
    | @closing e k stage next t pc call | @closed e k stage t pc call =>
      refine (files_of_call (t := .worker w) call ?_).imp_right .inl
      simp only [State.closes, pc]
      cases stage <;> rfl
    | _ pc => exact .inl ⟨by simp only [State.closes, pc], rfl, rfl⟩
  | stopper c =>
    cases stopStep_move hs with
    | @close fd fds pc =>
      exact .inr (.inl ⟨.stopper, fd, by simp only [State.closes, pc], rfl, rfl⟩)
    | _ pc => exact .inl ⟨by simp only [State.closes, pc], rfl, rfl⟩

/-- A socket that nobody has closed is open. -/
def Unclosed (s : State n) (ledger : Ledger n) : Prop :=
  ∀ k, k < s.next → ledger.closedBy k = [] → ∃ fd, s.files fd = some k

/-- The removals a step records close nothing. -/
theorem closedBy_record (s : State n) (l : Label n) (ledger : Ledger n) (k : Sock) :
    (s.record l ledger).closedBy k =
      match s.closes l with
      | some (t, fd) => if s.files fd = some k then t :: ledger.closedBy k else ledger.closedBy k
      | none => ledger.closedBy k := by
  unfold State.record
  cases s.removes l <;> cases s.closes l <;> rfl

/-- Every step records the sockets it closes. -/
theorem Unclosed.step {ledger : Ledger n} (h : Unclosed s ledger) {l : Label n}
    (hs : step cfg s l = some s') : Unclosed s' (s.record l ledger) := by
  intro k hk hc
  rw [closedBy_record] at hc
  rcases step_files hs with ⟨closes, files, next⟩ | ⟨t, fd, closes, files, next⟩ |
    ⟨fd, rfl, free, files, next⟩
  · rw [closes] at hc
    rw [files]
    exact h k (next ▸ hk) hc
  · simp only [closes] at hc
    split at hc
    case isTrue => cases hc
    case isFalse other =>
      obtain ⟨fd', hk'⟩ := h k (next ▸ hk) hc
      refine ⟨fd', ?_⟩
      rw [files, Function.update_of_ne, hk']
      rintro rfl
      exact other hk'
  · simp only [State.closes] at hc
    by_cases new : k = s.next
    · exact ⟨fd, by rw [files, new, Function.update_self]⟩
    · rw [next] at hk
      obtain ⟨fd', hk'⟩ := h k (Nat.lt_of_le_of_ne (Nat.lt_succ_iff.mp hk) new) hc
      refine ⟨fd', ?_⟩
      rw [files, Function.update_of_ne, hk']
      rintro rfl
      rw [free] at hk'
      cases hk'

/-! ## The order that is kept -/

/-- Once `stop()` has emptied the table it stays empty, and nothing is on its way
into it. -/
def Emptied (s : State n) : Prop :=
  s.stopper.cleared = true → s.connections = ∅ ∧ s.accepter.inserting = none

/-- There is nothing to erase in an empty table. -/
theorem Emptied.call (h : Emptied s) {fd : Fd} {stage : Closing} {next : Option Closing}
    (call : closeConnection s fd stage = (s', next)) (cleared : s'.stopper.cleared = true) :
    s'.connections = ∅ ∧ s'.accepter.inserting = none := by
  obtain ⟨accepter, -, stopper, -, -⟩ := closeConnection_frame call
  rw [stopper] at cleared
  obtain ⟨empty, inserting⟩ := h cleared
  refine ⟨?_, by rw [accepter, inserting]⟩
  cases stage <;> simp only [closeConnection] at call
  case erase =>
    split at call
    case isTrue mem =>
      rw [empty] at mem
      exact absurd mem (AList.notMem_empty fd)
    case isFalse =>
      cases call
      exact empty
  all_goals
    cases call
    exact empty

theorem Emptied.step (h : Emptied s) {l : Label n} (ok : Orderly s l)
    (hs : step cfg s l = some s') : Emptied s' := by
  intro cleared
  cases l with
  | tick elapsed =>
    cases hs
    exact h cleared
  | accepter c =>
    cases acceptStep_move hs with
    | accepted pc =>
      have early : s.stopper.cleared = false := ok.1
      rw [early] at cleared
      cases cleared
    | insert pc =>
      have held := (h cleared).2
      rw [pc] at held
      cases held
    | closing pc call | closed pc call =>
      have kept := h.call call cleared
      exact ⟨kept.1, rfl⟩
    | _ pc => exact ⟨(h cleared).1, rfl⟩
  | worker w c =>
    cases workerStep_move hs with
    | closing pc call | closed pc call =>
      have kept := h.call call cleared
      exact kept
    | _ pc => exact h cleared
  | stopper c =>
    cases stopStep_move hs with
    | clear pc perm => exact ⟨rfl, Option.not_isSome_iff_eq_none.mp (Bool.eq_false_iff.mp ok.1)⟩
    | begin | wake => cases cleared
    | _ pc => exact h (by rw [pc]; rfl)

/-- `run()` does not return before `stop()` has closed what it took. -/
def Waits (s : State n) : Prop :=
  s.returned → s.stopper.finished = true

theorem Waits.step (h : Waits s) {l : Label n} (ok : Orderly s l)
    (hs : step cfg s l = some s') : Waits s' := by
  rintro ⟨left, joined⟩
  cases l with
  | tick elapsed =>
    cases hs
    exact h ⟨left, joined⟩
  | accepter c =>
    cases acceptStep_move hs with
    | stopped pc running =>
      have joined : ∀ w, s.workers w = .exited := joined
      exact ok.2 (by simp [State.lastOut, pc, running, joined])
    | failed pc =>
      have joined : ∀ w, s.workers w = .exited := joined
      exact ok.2 (by simp [State.lastOut, pc, joined])
    | _ pc => cases left
  | worker w c =>
    -- whoever moved without leaving is still there
    have stays : ∀ {pc : WorkerPc}, s'.workers w = pc → pc = .exited := by
      rintro pc rfl
      exact joined w
    cases workerStep_move hs with
    | received | sent => exact h ⟨left, joined⟩
    | exit pc queue running =>
      have left : s.accepter = .done := left
      have others : ∀ w', w' ≠ w → s.workers w' = .exited := by
        intro w' hw
        have := joined w'
        simpa only [State.setWorker, Function.update_of_ne hw] using this
      refine ok.2 ?_
      simpa [State.lastOut, pc, queue, running, left] using others
    | @found e k pc =>
      have := stays (Function.update_self ..)
      unfold enter at this
      split at this
      · cases this
      · split at this <;> cases this
    | @release e k action pc =>
      have := stays (Function.update_self ..)
      cases action <;> cases this
    | _ pc => cases stays (Function.update_self ..)
  | stopper c =>
    cases stopStep_move hs with
    | clear pc | begin pc | wake pc =>
      have := h ⟨left, joined⟩
      rw [pc] at this
      cases this
    | close pc | account pc =>
      have := h ⟨left, joined⟩
      rw [pc] at this
      cases this
    | closedAll pc =>
      simp only
      split <;> rfl
    | _ pc => rfl

/-- When `stop()` has closed all it took, it owes nothing. -/
theorem StopPc.owesNothing {pc : StopPc} (h : pc.finished = true) :
    pc.cleared = true ∧ pc.toClose = [] ∧ pc.unaccounted = 0 := by
  cases pc with
  | idle | wake | clear | account => cases h
  | close fds =>
    cases fds with
    | nil => exact ⟨rfl, rfl, rfl⟩
    | cons fd fds => cases h
  | closeListener | resetListener | done => exact ⟨rfl, rfl, rfl⟩

/-- In runs in which the emptying of the table and the accepting do not cross, and
`stop()` is waited for, every socket accepted has been closed once when `run()`
returns, and the counter is 0. -/
theorem closed_of_orderly {p : State n × Ledger n}
    (r : (ledgered n cfg).Reach (fun p l => Orderly p.1 l) p) (returned : p.1.returned) :
    Closed p.1 p.2 := by
  have base : (loop n cfg).Reach Orderly p.1 := Machine.Reach.forget r
  have kept : Charged p.1 ∧ Emptied p.1 ∧ Waits p.1 := by
    refine base.invariant (I := fun s => Charged s ∧ Emptied s ∧ Waits s) ⟨?_, ?_, ?_⟩ ?_
    · intro fd hne
      exact absurd rfl hne
    · exact fun cleared => by cases cleared
    · exact fun returned => by cases returned.1
    · rintro s l s' ⟨charged, emptied, waits⟩ ok hs
      exact ⟨charged.step hs, emptied.step ok hs, waits.step ok hs⟩
  obtain ⟨charged, emptied, waits⟩ := kept
  have unclosed : Unclosed p.1 p.2 := by
    refine Machine.Reach.history (I := fun _ => True) (H := Unclosed) (fun _ _ => trivial) ?_ ?_ r
    · intro k hk
      exact absurd hk (Nat.not_lt_zero k)
    · exact fun s l s' ledger _ h _ hs => h.step hs
  obtain ⟨cleared, toClose, stopped⟩ := StopPc.owesNothing (waits returned)
  obtain ⟨empty, -⟩ := emptied cleared
  obtain ⟨left, joined⟩ := returned
  have free : ∀ fd, p.1.files fd = none := by
    intro fd
    by_contra hne
    obtain ⟨o, hc⟩ := charged fd hne
    cases o with
    | accepter => simp [State.Claims, left, AcceptPc.inserting] at hc
    | sweep => simp [State.Claims, left, AcceptPc.removing] at hc
    | worker w => simp [State.Claims, joined w, WorkerPc.removing] at hc
    | table =>
      rw [State.Claims, empty] at hc
      exact AList.notMem_empty fd hc
    | stopper => simp [State.Claims, toClose] at hc
  constructor
  · intro k hk
    have once := (audited_of_reach r.reachable).once k
    rcases hc : p.2.closedBy k with _ | ⟨t, _ | ⟨t', ts⟩⟩
    · obtain ⟨fd, hfd⟩ := unclosed k hk hc
      rw [free fd] at hfd
      cases hfd
    · exact ⟨t, rfl⟩
    · simp [hc] at once
  · have balanced := balanced_of_reach base
    simpa [Balanced, State.unaccounted, empty, left, joined, stopped, AcceptPc.unaccounted,
      AcceptPc.unopened, WorkerPc.unaccounted] using balanced

end WebServer.Pool
