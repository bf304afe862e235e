import WebServer.Laws.Pool.Shutdown
import WebServer.Laws.Reactor.Tables
/-! # What is left when the reactors have shut down

`ReactorLoop::stop()` wakes the reactors, and a reactor that finds the loop stopped
leaves it. Neither closes a connection. So what a table holds when its reactor
leaves stays open and counted; if every reactor leaves with an empty table, every
socket has been closed and counted off (`closed_of_leavesEmpty`).
-/

namespace WebServer.Reactors

open Pool (Fd Sock Time seconds kMaxEvents Interest Event Closing)

variable {m : Nat} {cfg : Config m} {s s' t : State m} {i : Fin m}

/-- With this step the reactor leaves its loop. -/
def State.leaves (cfg : Config m) (s : State m) (i : Fin m) (c : Choice) : Bool :=
  match (s.reactors i).pc, c with
  | .poll, .go => !s.running
  | .wait, .failed => true
  | .dispatch (e :: _), .go => e.fd = cfg.stopFd i
  | _, _ => false

/-- The condition under which shutdown leaves nothing open, on the state before a
step: a reactor leaves its loop with an empty table only. -/
def LeavesEmpty (cfg : Config m) (s : State m) : Label m → Prop
  | .reactor i c => s.leaves cfg i c = true → (s.reactors i).connections.keys = []
  | _ => True

instance (cfg : Config m) (s : State m) : ∀ l, Decidable (LeavesEmpty cfg s l)
  | .reactor i c =>
    inferInstanceAs (Decidable (s.leaves cfg i c = true → (s.reactors i).connections.keys = []))
  | .tick _ | .stopper => isTrue trivial

/-- The descriptor that the step calls `close()` on. -/
def State.closes (s : State m) : Label m → Option Fd
  | .reactor i .go =>
    match (s.reactors i).pc with
    | .closing _ e _ .close => some e.fd
    | .expire _ (fd :: _) .close => some fd
    | _ => none
  | _ => none

/-- How often each socket was closed: what a step adds to the history. -/
def State.record (s : State m) (l : Label m) (closed : Sock → Nat) : Sock → Nat :=
  match (s.closes l).bind s.files with
  | some k => Function.update closed k (closed k + 1)
  | none => closed

/-- The reactors with the history of their closes. -/
def ledgered (m : Nat) (cfg : Config m) : Machine (State m × (Sock → Nat)) (Label m) :=
  (loop m cfg).recording (fun _ => 0) State.record

/-- Every socket that was accepted has been closed, once, and none is counted. -/
structure Closed (s : State m) (closed : Sock → Nat) : Prop where
  once : ∀ k, k < s.next → closed k = 1
  active : s.activeConnections = 0

/-! ## What a step does to the descriptors -/

/-- A call of `closeConnection` closes the descriptor that the history records, or
leaves them all alone. -/
theorem files_of_call {l : Label m} {fd : Fd} {stage : Closing} {next : Option Closing}
    (call : closeConnection s i fd stage = (t, next))
    (closes : s.closes l = if stage = .close then some fd else none) :
    (s.closes l = none ∧ t.files = s.files ∧ t.next = s.next) ∨
      ∃ fd, s.closes l = some fd ∧ t.files = Function.update s.files fd none ∧
        t.next = s.next := by
  cases stage with
  | erase =>
    simp only [closeConnection] at call
    split at call <;> cases call <;> exact .inl ⟨closes, rfl, rfl⟩
  | close =>
    cases call
    exact .inr ⟨fd, closes, rfl, rfl⟩
  | ctlDel | account =>
    cases call
    exact .inl ⟨closes, rfl, rfl⟩

/-- What a step does to the descriptors: nothing, a close that the history records,
or an accept. -/
theorem step_files {l : Label m} (hs : step cfg s l = some s') :
    (s.closes l = none ∧ s'.files = s.files ∧ s'.next = s.next) ∨
      (∃ fd, s.closes l = some fd ∧ s'.files = Function.update s.files fd none ∧
        s'.next = s.next) ∨
      ∃ fd, s.closes l = none ∧ s.files fd = none ∧
        s'.files = Function.update s.files fd (some s.next) ∧ s'.next = s.next + 1 := by
  cases l with
  | tick elapsed =>
    cases hs
    exact .inl ⟨rfl, rfl, rfl⟩
  | reactor i c =>
    cases reactorStep_move hs with
    | accepted pc free => exact .inr (.inr ⟨_, rfl, free, rfl, rfl⟩)
    | @closing batch e k stage next t pc call | @closed batch e k stage t pc call
    | @sweepClosing at_ fd fds stage next t pc call | @sweepClosed at_ fd fds stage t pc call =>
      refine (files_of_call call ?_).imp_right .inl
      simp only [State.closes, pc]
      cases stage <;> rfl
    | _ pc => exact .inl ⟨by simp only [State.closes, pc], rfl, rfl⟩
  | stopper => cases stopStep_move hs <;> exact .inl ⟨rfl, rfl, rfl⟩

/-- The history counts each socket that is closed, and no other. -/
structure Counted (s : State m) (closed : Sock → Nat) : Prop where
  isOpen : ∀ fd k, s.files fd = some k → closed k = 0
  fresh : ∀ k, s.next ≤ k → closed k = 0
  shut : ∀ k, k < s.next → (∀ fd, s.files fd ≠ some k) → closed k = 1

/-- No descriptor changes. -/
theorem Counted.keep {closed : Sock → Nat} (h : Counted s closed) (files : s'.files = s.files)
    (next : s'.next = s.next) : Counted s' closed := by
  constructor
  · rw [files]
    exact h.isOpen
  · rw [next]
    exact h.fresh
  · rw [files, next]
    exact h.shut

/-- The socket `k` is closed, and counted. -/
theorem Counted.close {closed : Sock → Nat} (h : Counted s closed) (o : Owned cfg s) {fd : Fd}
    {k : Sock} (hk : s.files fd = some k) (files : s'.files = Function.update s.files fd none)
    (next : s'.next = s.next) : Counted s' (Function.update closed k 1) := by
  have others : ∀ fd', fd' ≠ fd → s'.files fd' = s.files fd' := by
    intro fd' hne
    rw [files, Function.update_of_ne hne]
  constructor
  · intro fd' k' hk'
    have hne : fd' ≠ fd := by
      rintro rfl
      rw [files, Function.update_self] at hk'
      cases hk'
    rw [others fd' hne] at hk'
    rw [Function.update_of_ne, h.isOpen fd' k' hk']
    rintro rfl
    exact hne (o.injective fd' fd k' hk' hk)
  · intro k' hk'
    rw [next] at hk'
    rw [Function.update_of_ne, h.fresh k' hk']
    rintro rfl
    exact absurd (o.fresh fd k' hk) (Nat.not_lt.mpr hk')
  · intro k' hk' gone
    by_cases hkk : k' = k
    · rw [hkk, Function.update_self]
    · rw [Function.update_of_ne hkk]
      refine h.shut k' (next ▸ hk') ?_
      intro fd' hfd'
      refine gone fd' ?_
      rw [others fd' ?_, hfd']
      rintro rfl
      rw [hk, Option.some.injEq] at hfd'
      exact hkk hfd'.symm

/-- A socket is accepted, and was never closed before. -/
theorem Counted.accept {closed : Sock → Nat} (h : Counted s closed) {fd : Fd}
    (free : s.files fd = none) (files : s'.files = Function.update s.files fd (some s.next))
    (next : s'.next = s.next + 1) : Counted s' closed := by
  have others : ∀ fd', fd' ≠ fd → s'.files fd' = s.files fd' := by
    intro fd' hne
    rw [files, Function.update_of_ne hne]
  constructor
  · intro fd' k hk
    by_cases hfd : fd' = fd
    · rw [hfd, files, Function.update_self, Option.some.injEq] at hk
      exact h.fresh k (Nat.le_of_eq hk)
    · exact h.isOpen fd' k (others fd' hfd ▸ hk)
  · intro k hk
    rw [next] at hk
    exact h.fresh k (Nat.le_of_succ_le hk)
  · intro k hk gone
    rw [next] at hk
    have old : k ≠ s.next := by
      rintro rfl
      exact gone fd (by rw [files, Function.update_self])
    refine h.shut k (Nat.lt_of_le_of_ne (Nat.lt_succ_iff.mp hk) old) ?_
    intro fd' hfd'
    refine gone fd' ?_
    rw [others fd' ?_, hfd']
    rintro rfl
    rw [free] at hfd'
    cases hfd'

/-- Every step counts what it closes. -/
theorem Counted.step {closed : Sock → Nat} (h : Counted s closed) (o : Owned cfg s) {l : Label m}
    (hs : step cfg s l = some s') : Counted s' (s.record l closed) := by
  rcases step_files hs with ⟨closes, files, next⟩ | ⟨fd, closes, files, next⟩ |
    ⟨fd, closes, free, files, next⟩
  · have same : s.record l closed = closed := by simp [State.record, closes]
    rw [same]
    exact h.keep files next
  · cases hk : s.files fd with
    | none =>
      have same : s.record l closed = closed := by simp [State.record, closes, hk]
      have still : s'.files = s.files := by
        rw [files, ← hk, Function.update_eq_self]
      rw [same]
      exact h.keep still next
    | some k =>
      have one : s.record l closed = Function.update closed k 1 := by
        simp [State.record, closes, hk, h.isOpen fd k hk]
      rw [one]
      exact h.close o hk files next
  · have same : s.record l closed = closed := by simp [State.record, closes]
    rw [same]
    exact h.accept free files next

/-! ## Nothing is lost -/

/-- Each open descriptor is charged to a reactor. -/
def Charged (s : State m) : Prop :=
  ∀ fd, s.files fd ≠ none → ∃ i, (s.reactors i).Claims fd

/-- A step of the reactor `i` that opens nothing: what it was charged with, and is
still open, it stays charged with. -/
theorem Charged.frame (h : Charged s) (other : ∀ j, j ≠ i → t.reactors j = s.reactors j)
    (files : ∀ fd, t.files fd ≠ none → s.files fd ≠ none)
    (claims : ∀ fd, t.files fd ≠ none → (s.reactors i).Claims fd → (t.reactors i).Claims fd) :
    Charged t := by
  intro fd hne
  obtain ⟨j, hc⟩ := h fd (files fd hne)
  refine ⟨j, ?_⟩
  by_cases hj : j = i
  · subst hj
    exact claims fd hne hc
  · rwa [other j hj]

/-- The thread moves, charged with what it was charged with. -/
theorem Charged.setPc (h : Charged s) {pc : Pc} (files : t.files = s.files)
    (reactors : t.reactors = s.reactors) (inserting : pc.inserting = (s.reactors i).pc.inserting)
    (removing : pc.removing = (s.reactors i).pc.removing) : Charged (t.setPc i pc) := by
  refine h.frame (i := i) ?_ (fun _ hne => files ▸ hne) ?_
  · intro j hj
    rw [setPc_of_ne t pc hj, reactors]
  · intro fd _ hc
    rw [setPc_self, reactors]
    exact (Reactor.claims_setPc inserting removing fd).mpr hc

/-- A call of `closeConnection`: the charge of the table's entry passes to the
closing, and ends with the close. -/
theorem Charged.call (h : Charged s) {fd : Fd} {stage : Closing} {next : Option Closing} {pc : Pc}
    (call : closeConnection s i fd stage = (t, next))
    (inserting : (s.reactors i).pc.inserting = none)
    (removing : (s.reactors i).pc.removing = if stage.owes then some fd else none)
    (removing' : pc.removing = if next.any Closing.owes then some fd else none) :
    Charged (t.setPc i pc) := by
  refine h.frame (i := i) ?_ ?_ ?_
  · intro j hj
    rw [setPc_of_ne t pc hj, (closeConnection_frame call).1 j hj]
  · intro fd' hne
    obtain ⟨k, hk⟩ := Option.ne_none_iff_exists'.mp hne
    simp [(closeConnection_less call).1 fd' k hk]
  · intro fd' hne hc
    rw [setPc_self]
    rcases hc with mem | ⟨k, hi⟩ | hr
    · cases stage with
      | erase =>
        simp only [closeConnection] at call
        split at call <;> cases call
        · by_cases hfd : fd' = fd
          · exact .inr (.inr (by rw [removing', hfd]; rfl))
          · refine .inl ?_
            simp only [State.setReactor, Function.update_self]
            exact (AList.mem_erase ..).mpr ⟨hfd, mem⟩
        · exact .inl mem
      | ctlDel | close | account =>
        cases call
        exact .inl mem
    · rw [inserting] at hi
      cases hi
    · rw [removing] at hr
      cases stage with
      | erase | account => cases hr
      | ctlDel =>
        cases call
        cases hr
        exact .inr (.inr removing')
      | close =>
        cases call
        cases hr
        simp [State.closeFd, State.setPc, State.setReactor] at hne

/-- Every step leaves each open descriptor charged to a reactor. -/
theorem Charged.step (h : Charged s) {l : Label m} (hs : step cfg s l = some s') : Charged s' := by
  cases l with
  | tick elapsed =>
    cases hs
    exact h
  | reactor i c =>
    cases reactorStep_move hs with
    | @accepted batch fd pc free =>
      intro fd' hne
      by_cases hfd : fd' = fd
      · refine ⟨i, .inr (.inl ⟨s.next, ?_⟩)⟩
        rw [setPc_self, hfd]
        rfl
      · have was : s.files fd' ≠ none := by
          simpa [State.setPc, State.setReactor, Function.update_of_ne hfd] using hne
        obtain ⟨j, hc⟩ := h fd' was
        refine ⟨j, ?_⟩
        by_cases hj : j = i
        · subst hj
          rw [setPc_self]
          rcases hc with mem | ⟨k, hi⟩ | hr
          · exact .inl mem
          · simp [pc, Pc.inserting] at hi
          · simp [pc, Pc.removing] at hr
        · rwa [setPc_of_ne _ _ hj]
    | @insert batch fd k pc =>
      refine h.frame (i := i) ?_ (fun _ hne => hne) ?_
      · intro j hj
        exact Function.update_of_ne hj _ _
      · intro fd' _ hc
        refine .inl ?_
        simp only [State.setReactor, Function.update_self, AList.mem_insert]
        rcases hc with mem | ⟨k', hi⟩ | hr
        · exact .inr mem
        · simp only [pc, Pc.inserting, Option.some.injEq, Prod.mk.injEq] at hi
          exact .inl hi.1.symm
        · simp [pc, Pc.removing] at hr
    | swept pc =>
      refine h.frame (i := i) ?_ (fun _ hne => hne) ?_
      · intro j hj
        exact Function.update_of_ne hj _ _
      · rintro fd _ (mem | ⟨k, hi⟩ | hr)
        · refine .inl ?_
          simpa [State.setReactor] using mem
        · simp [pc, Pc.inserting] at hi
        · simp [pc, Pc.removing] at hr
    | closing pc call =>
      exact h.call call (by rw [pc]; rfl) (by rw [pc]; rfl) (by simp [Pc.removing])
    | closed pc call => exact h.call call (by rw [pc]; rfl) (by rw [pc]; rfl) rfl
    | sweepClosing pc call =>
      exact h.call call (by rw [pc]; rfl) (by rw [pc]; rfl) (by simp [Pc.removing])
    | @sweepClosed at_ fd fds stage t pc call =>
      exact h.call call (by rw [pc]; rfl) (by rw [pc]; rfl) (by cases fds <;> rfl)
    | received | sent => exact h
    | @scan at_ now fds pc perm =>
      exact h.setPc rfl rfl (by rw [pc]; rfl) (by rw [pc]; cases fds <;> rfl)
    | @found e batch k pc =>
      have entered := enter_serves batch e k
      exact h.setPc rfl rfl (by rw [pc, entered.inserting]; rfl) (by rw [pc, entered.removing]; rfl)
    | @flushed batch e k close pc =>
      have acts := act_serves batch e k (if close then .close else .waitRead)
      exact h.setPc rfl rfl (by rw [pc, acts.inserting]; rfl) (by rw [pc, acts.removing]; rfl)
    | _ pc => exact h.setPc rfl rfl (by rw [pc]; rfl) (by rw [pc]; rfl)
  | stopper => cases stopStep_move hs <;> exact h

/-- A reactor that has left its loop has an empty table. -/
def LeftEmpty (s : State m) : Prop :=
  ∀ i, (s.reactors i).pc = .done → (s.reactors i).connections.keys = []

/-- A reactor that moves and does not leave keeps the others where they are. -/
theorem LeftEmpty.frame (h : LeftEmpty s) (other : ∀ j, j ≠ i → t.reactors j = s.reactors j)
    (here : (t.reactors i).pc = .done → (t.reactors i).connections.keys = []) : LeftEmpty t := by
  intro j hpc
  by_cases hj : j = i
  · subst hj
    exact here hpc
  · rw [other j hj] at hpc ⊢
    exact h j hpc

/-- The thread moves to a place in the loop. -/
theorem LeftEmpty.stay (h : LeftEmpty s) {pc : Pc}
    (other : ∀ j, j ≠ i → t.reactors j = s.reactors j) (inLoop : pc ≠ .done) :
    LeftEmpty (t.setPc i pc) := by
  refine h.frame (i := i) ?_ ?_
  · intro j hj
    rw [setPc_of_ne _ _ hj, other j hj]
  · intro hpc
    rw [setPc_self] at hpc
    exact absurd hpc inLoop

theorem LeftEmpty.step (h : LeftEmpty s) {l : Label m} (ok : LeavesEmpty cfg s l)
    (hs : step cfg s l = some s') : LeftEmpty s' := by
  cases l with
  | tick elapsed =>
    cases hs
    exact h
  | reactor i c =>
    have leave : s.leaves cfg i c = true →
        LeftEmpty (s.setPc i .done) := by
      intro leaves
      refine h.frame (i := i) (fun j hj => setPc_of_ne _ _ hj) ?_
      intro _
      rw [setPc_self]
      exact ok leaves
    cases reactorStep_move hs with
    | stopped pc running => exact leave (by simp [State.leaves, pc, running])
    | failed pc => exact leave (by simp [State.leaves, pc])
    | stopEvent pc isStop => exact leave (by simp [State.leaves, pc, isStop])
    | insert pc | swept pc =>
      refine h.frame (i := i) (fun j hj => Function.update_of_ne hj _ _) ?_
      intro hpc
      simp [State.setReactor] at hpc
    | closing pc call | closed pc call | sweepClosing pc call | sweepClosed pc call =>
      exact h.stay (closeConnection_frame call).1 (by simp)
    | received | sent => exact h
    | @found e batch k pc =>
      refine h.stay (fun _ _ => rfl) ?_
      unfold enter
      split
      · simp
      · split <;> simp
    | @flushed batch e k close pc =>
      refine h.stay (fun _ _ => rfl) ?_
      cases close <;> simp [act]
    | recvFailed | stalled | sendFailed => exact h.stay (fun _ _ => rfl) (by simp [act])
    | _ => exact h.stay (fun _ _ => rfl) (by simp)
  | stopper => cases stopStep_move hs <;> exact h

/-! ## The counter -/

/-- The connections the reactor has taken out of its table and not accounted. -/
def Pc.unaccounted : Pc → Int
  | .closing _ _ _ stage => stage.unaccounted
  | .expire _ (_ :: _) stage => stage.unaccounted
  | _ => 0

/-- The connections inserted whose `connectionOpened()` has not run. -/
def Pc.unopened : Pc → Int
  | .opened _ _ => 1
  | _ => 0

/-- The reactor's part of the counter. -/
def Reactor.counted (r : Reactor) : Int :=
  r.connections.keys.length + r.pc.unaccounted - r.pc.unopened

/-- The counter is the sum of the reactors' parts. -/
def Balanced (s : State m) : Prop :=
  s.activeConnections = Finset.univ.sum fun i => (s.reactors i).counted

/-- A step of the reactor `i` changes the counter by what its part changes. -/
theorem Balanced.frame (h : Balanced s) {r : Reactor}
    (reactors : t.reactors = Function.update s.reactors i r)
    (balance : t.activeConnections - r.counted = s.activeConnections - (s.reactors i).counted) :
    Balanced t := by
  have sum := Pool.sum_update s.reactors i r Reactor.counted
  unfold Balanced at h ⊢
  rw [reactors, sum]
  omega

/-- A step that leaves the table and the counter alone. -/
theorem Balanced.setPc (h : Balanced s) {pc : Pc} (reactors : t.reactors = s.reactors)
    (active : t.activeConnections = s.activeConnections)
    (unaccounted : pc.unaccounted = (s.reactors i).pc.unaccounted)
    (unopened : pc.unopened = (s.reactors i).pc.unopened) : Balanced (t.setPc i pc) := by
  refine h.frame (i := i) (r := { s.reactors i with pc := pc }) ?_ ?_
  · simp only [State.setPc, State.setReactor, reactors]
  · simp only [State.setPc, State.setReactor, active, Reactor.counted, unaccounted, unopened]

/-- Each call of `closeConnection` moves one connection from the table to what is
unaccounted, or from there to the counter, or nothing. -/
theorem closeConnection_balance {fd : Fd} {stage : Closing} {next : Option Closing}
    (call : closeConnection s i fd stage = (t, next)) :
    t.activeConnections - (t.reactors i).connections.keys.length =
      s.activeConnections - (s.reactors i).connections.keys.length +
        (next.elim 0 Closing.unaccounted - stage.unaccounted) := by
  cases stage <;> simp only [closeConnection] at call
  case erase =>
    split at call
    case isTrue mem =>
      cases call
      have some_ : 0 < (s.reactors i).connections.keys.length :=
        List.length_pos_of_mem (AList.mem_keys.mpr mem)
      simp only [State.setReactor, Function.update_self, AList.keys_erase,
        List.length_erase_of_mem (AList.mem_keys.mpr mem), Option.elim_some, Closing.unaccounted]
      omega
    case isFalse =>
      cases call
      simp [Closing.unaccounted]
  all_goals
    cases call
    simp [Closing.unaccounted, State.closeFd, State.setEpoll]
  omega

theorem Balanced.call (h : Balanced s) {fd : Fd} {stage : Closing} {next : Option Closing} {pc : Pc}
    (call : closeConnection s i fd stage = (t, next))
    (before : (s.reactors i).pc.unaccounted = stage.unaccounted)
    (after : pc.unaccounted = next.elim 0 Closing.unaccounted)
    (unopened : (s.reactors i).pc.unopened = 0) (unopened' : pc.unopened = 0) :
    Balanced (t.setPc i pc) := by
  have balance := closeConnection_balance call
  refine h.frame (i := i) (r := { t.reactors i with pc := pc }) ?_ ?_
  · funext j
    by_cases hj : j = i
    · subst hj
      rw [setPc_self, Function.update_self]
    · rw [setPc_of_ne _ _ hj, Function.update_of_ne hj, (closeConnection_frame call).1 j hj]
  · simp only [State.setPc, State.setReactor, Reactor.counted, before, after, unopened, unopened']
    omega

/-- Every step keeps the balance. -/
theorem Balanced.step (h : Balanced s) (o : Owned cfg s) {l : Label m}
    (hs : step cfg s l = some s') : Balanced s' := by
  cases l with
  | tick elapsed =>
    cases hs
    exact h
  | reactor i c =>
    cases reactorStep_move hs with
    | @insert batch fd k pc =>
      have new : fd ∉ (s.reactors i).connections.keys :=
        ((o.held i).inserting fd k (by rw [pc]; rfl)).2
      refine h.frame (i := i) rfl ?_
      simp only [State.setReactor, Reactor.counted, pc, Pc.unaccounted, Pc.unopened,
        AList.keys_insert, List.erase_of_not_mem new, List.length_cons]
      omega
    | opened pc =>
      refine h.frame (i := i) rfl ?_
      simp only [State.setPc, State.setReactor, Reactor.counted, pc, Pc.unaccounted, Pc.unopened]
      omega
    | swept pc =>
      refine h.frame (i := i) rfl ?_
      simp only [State.setReactor, Reactor.counted, pc, Pc.unaccounted, Pc.unopened]
    | closing pc call => exact h.call call (by rw [pc]; rfl) rfl (by rw [pc]; rfl) rfl
    | closed pc call => exact h.call call (by rw [pc]; rfl) rfl (by rw [pc]; rfl) rfl
    | sweepClosing pc call => exact h.call call (by rw [pc]; rfl) rfl (by rw [pc]; rfl) rfl
    | @sweepClosed at_ fd fds stage t pc call =>
      exact h.call call (by rw [pc]; rfl) (by cases fds <;> rfl) (by rw [pc]; rfl) rfl
    | received | sent => exact h
    | @scan at_ now fds pc perm =>
      exact h.setPc rfl rfl (by rw [pc]; cases fds <;> rfl) (by rw [pc]; rfl)
    | @found e batch k pc =>
      have entered : (enter batch e k).unaccounted = 0 ∧ (enter batch e k).unopened = 0 := by
        unfold enter
        split
        · exact ⟨rfl, rfl⟩
        · split <;> exact ⟨rfl, rfl⟩
      exact h.setPc rfl rfl (by rw [pc, entered.1]; rfl) (by rw [pc, entered.2]; rfl)
    | @flushed batch e k close pc =>
      refine h.setPc rfl rfl ?_ ?_ <;> rw [pc] <;> cases close <;> rfl
    | _ pc => exact h.setPc rfl rfl (by rw [pc]; rfl) (by rw [pc]; rfl)
  | stopper => cases stopStep_move hs <;> exact h

/-! ## The law -/

/-- In runs in which every reactor leaves with an empty table, every socket accepted
has been closed once when `run()` returns, and the counter is 0. -/
theorem closed_of_leavesEmpty {p : State m × (Sock → Nat)}
    (r : (ledgered m cfg).Reach (fun p l => LeavesEmpty cfg p.1 l) p) (returned : p.1.returned) :
    Closed p.1 p.2 := by
  have base : (loop m cfg).Reach (LeavesEmpty cfg) p.1 := Machine.Reach.forget r
  have kept : Owned cfg p.1 ∧ Charged p.1 ∧ LeftEmpty p.1 ∧ Balanced p.1 := by
    refine base.invariant (I := fun s => Owned cfg s ∧ Charged s ∧ LeftEmpty s ∧ Balanced s)
      ⟨owned_initial m cfg, ?_, ?_, ?_⟩ ?_
    · intro fd hne
      exact absurd rfl hne
    · exact fun i pc => by cases pc
    · simp [Balanced, loop, State.initial, Reactor.counted, Pc.unaccounted, Pc.unopened]
    · rintro s l s' ⟨o, charged, left, balanced⟩ ok hs
      exact ⟨o.step hs, charged.step hs, left.step ok hs, balanced.step o hs⟩
  obtain ⟨-, charged, left, balanced⟩ := kept
  have counted : Counted p.1 p.2 := by
    refine Machine.Reach.history (H := Counted) (fun _ => owned_of_reach) ?_ ?_ r
    · constructor <;> simp [loop, State.initial]
    · exact fun s l s' closed o h _ hs => h.step o hs
  have free : ∀ fd k, p.1.files fd ≠ some k := by
    intro fd k hk
    obtain ⟨i, mem | ⟨k', hi⟩ | hr⟩ := charged fd (by simp [hk])
    · have mem : fd ∈ (p.1.reactors i).connections.keys := mem
      rw [left i (returned i)] at mem
      cases mem
    · simp [returned i, Pc.inserting] at hi
    · simp [returned i, Pc.removing] at hr
  constructor
  · intro k hk
    exact counted.shut k hk fun fd => free fd k
  · rw [balanced]
    refine Finset.sum_eq_zero fun i _ => ?_
    simp [Reactor.counted, returned i, left i (returned i), Pc.unaccounted, Pc.unopened]

end WebServer.Reactors
