import WebServer.Laws.Reactor.Idle
/-! # What a reactor's sweep leaves

The other half of the idle timeout: who is silent for too long does not stay. A reactor
sweeps alone, and a connection is stamped when it is inserted and when it was read from,
so what a sweep leaves was not overdue at the loop time the sweep was entered with, and
stays so (`Prompt`). A reactor that ends a turn of its loop without a sweep has begun one
less than a second before (`reactors_sweep`). Only a wait that is interrupted goes round
both.
-/

namespace WebServer.Reactors

open Pool (Fd Sock Time seconds Event Closing within)

variable {m : Nat} {cfg : Config m} {s s' t : State m} {i : Fin m}

/-- How long a connection may have been silent at a sweep. -/
def Config.patience (cfg : Config m) : Int :=
  max 0 (seconds cfg.idleTimeoutSeconds)

/-- The loop time up to which the reactor has swept: that of the sweep that is closing
connections, or of the last one. -/
def Reactor.sweptAt (r : Reactor) : Time :=
  match r.pc with
  | .expire at_ _ _ => at_
  | _ => r.lastSweep

/-- The reactor's table holds nobody whom its last sweep should have closed, but for those
it is still closing. -/
structure Prompt (cfg : Config m) (s : State m) (r : Reactor) : Prop where
  last : r.lastSweep ≤ s.now
  sweep : ∀ at_, r.pc = .sweep at_ → r.lastSweep ≤ at_ ∧ at_ ≤ s.now
  scan : ∀ at_ now, r.pc = .scan at_ now → r.lastSweep ≤ at_ ∧ at_ ≤ now ∧ now ≤ s.now
  expire : ∀ at_ fds stage, r.pc = .expire at_ fds stage → r.lastSweep ≤ at_ ∧ at_ ≤ s.now
  erased : ∀ at_ fd fds stage, r.pc = .expire at_ (fd :: fds) stage → stage ≠ .erase →
    fd ∉ r.connections
  active : ∀ fd k, r.connections.lookup fd = some k → fd ∉ r.pc.expiring →
    r.sweptAt - (s.objects k).lastActive ≤ cfg.patience

theorem prompt_initial (i : Fin m) : Prompt cfg (State.initial m) ((State.initial m).reactors i) := by
  constructor <;> simp [State.initial]

theorem Prompt.sweptAt_le {r : Reactor} (h : Prompt cfg s r) : r.sweptAt ≤ s.now := by
  unfold Reactor.sweptAt
  split
  next at_ fds stage pc => exact (h.expire at_ fds stage pc).2
  next => exact h.last

theorem Config.patience_nonneg (cfg : Config m) : 0 ≤ cfg.patience :=
  Int.le_max_left _ _

/-- Time passes, and connections are stamped. -/
theorem Prompt.later {r : Reactor} (h : Prompt cfg s r) (now : s.now ≤ t.now)
    (stamps : ∀ k, (t.objects k).lastActive = (s.objects k).lastActive ∨
      (t.objects k).lastActive = s.now) : Prompt cfg t r where
  last := Int.le_trans h.last now
  sweep at_ pc := (h.sweep at_ pc).imp_right (Int.le_trans · now)
  scan at_ now' pc := (h.scan at_ now' pc).imp_right (And.imp_right (Int.le_trans · now))
  expire at_ fds stage pc := (h.expire at_ fds stage pc).imp_right (Int.le_trans · now)
  erased := h.erased
  active fd k hk hfd := by
    obtain same | new := stamps k
    · rw [same]
      exact h.active fd k hk hfd
    · rw [new]
      exact within h.sweptAt_le cfg.patience_nonneg

/-- In a sweep, or about to begin one. -/
def Pc.sweeps : Pc → Bool
  | .sweep _ | .scan _ _ | .expire _ _ _ => true
  | _ => false

theorem Reactor.not_sweeping {r : Reactor} (h : r.pc.sweeps = false) :
    r.sweptAt = r.lastSweep ∧ r.pc.expiring = [] := by
  cases pc : r.pc <;> simp_all [Pc.sweeps, Reactor.sweptAt, Pc.expiring]

/-- The reactor goes on outside of a sweep, with nobody new in its table but who is new. -/
theorem Prompt.goOn {r r' : Reactor} (h : Prompt cfg s r) (before : r.pc.sweeps = false)
    (after : r'.pc.sweeps = false) (lastSweep : r'.lastSweep = r.lastSweep)
    (connections : ∀ fd k, r'.connections.lookup fd = some k →
      r.connections.lookup fd = some k ∨ (s.objects k).lastActive = s.now) : Prompt cfg s r' where
  last := lastSweep ▸ h.last
  sweep at_ pc := by rw [pc] at after; cases after
  scan at_ now pc := by rw [pc] at after; cases after
  expire at_ fds stage pc := by rw [pc] at after; cases after
  erased at_ fd fds stage pc := by rw [pc] at after; cases after
  active fd k hk _ := by
    rw [(Reactor.not_sweeping after).1, lastSweep]
    obtain old | new := connections fd k hk
    · have known := h.active fd k old
        (by rw [(Reactor.not_sweeping before).2]; exact List.not_mem_nil)
      rwa [(Reactor.not_sweeping before).1] at known
    · rw [new]
      exact within h.last cfg.patience_nonneg

/-- Who is not collected is not overdue. -/
theorem not_overdue {fd : Fd} {k : Sock} {now : Time}
    (hk : (s.reactors i).connections.lookup fd = some k) (left : fd ∉ s.expired cfg i now) :
    now - (s.objects k).lastActive ≤ seconds cfg.idleTimeoutSeconds := by
  by_contra old
  apply left
  simp only [State.expired, List.mem_map, List.mem_filter, decide_eq_true_eq]
  exact ⟨⟨fd, k⟩, ⟨AList.mem_lookup_iff.mp hk, Int.not_le.mp old⟩, rfl⟩

/-- What the sweep does not collect may stay. -/
theorem Prompt.collect (h : Prompt cfg s (s.reactors i)) {at_ now : Time} {fds : List Fd}
    (pc : (s.reactors i).pc = .scan at_ now) (perm : fds.Perm (s.expired cfg i now)) :
    Prompt cfg s { s.reactors i with pc := .expire at_ fds .erase } := by
  obtain ⟨since, before, past⟩ := h.scan at_ now pc
  constructor
  · exact h.last
  · rintro at_ ⟨⟩
  · rintro at_ now ⟨⟩
  · rintro at_ fds stage ⟨⟩
    exact ⟨since, Int.le_trans before past⟩
  · rintro at_ fd fds stage ⟨⟩ hne
    exact absurd rfl hne
  · intro fd k hk hfd
    have young := not_overdue hk fun listed => hfd (perm.mem_iff.mpr listed)
    show at_ - _ ≤ max 0 _
    simp only [Time] at *
    omega

/-- No call of `closeConnection` sets the time of the last sweep. -/
theorem closeConnection_lastSweep {fd : Fd} {stage : Closing} {next : Option Closing}
    (call : closeConnection s i fd stage = (t, next)) :
    (t.reactors i).lastSweep = (s.reactors i).lastSweep := by
  cases stage <;> simp only [closeConnection] at call
  case erase => split at call <;> cases call <;> simp [State.setReactor]
  all_goals
    cases call
    rfl

/-- The sweep is done with its first descriptor, or makes its next call for it. -/
theorem Prompt.expires (h : Prompt cfg s (s.reactors i)) {at_ : Time} {fd : Fd} {fds : List Fd}
    {stage : Closing} {next : Option Closing}
    (pc : (s.reactors i).pc = .expire at_ (fd :: fds) stage)
    (call : closeConnection s i fd stage = (t, next)) {fds' : List Fd} {stage' : Closing}
    (goesOn : next = some stage' ∧ fds' = fd :: fds ∨ next = none ∧ stage' = .erase ∧ fds' = fds) :
    Prompt cfg t { t.reactors i with pc := .expire at_ fds' stage' } := by
  obtain ⟨-, -, -, now, objects⟩ := closeConnection_frame call
  have less := (closeConnection_less call).2.2
  have last := closeConnection_lastSweep call
  -- past the erasing, the descriptor is not in the table
  have gone : next ≠ some .erase ∧ fd ∉ (t.reactors i).connections := by
    cases stage with
    | erase =>
      simp only [closeConnection] at call
      split at call <;> cases call
      · simp [State.setReactor]
      next absent => exact ⟨by simp, absent⟩
    | ctlDel | close | account =>
      have absent := h.erased at_ fd fds _ pc (by simp)
      cases call
      exact ⟨by simp, absent⟩
  have known := h.expire at_ _ stage pc
  constructor
  · rw [now, show Reactor.lastSweep _ = _ from last]
    exact h.last
  · rintro at_ ⟨⟩
  · rintro at_ now ⟨⟩
  · rintro at_ fds stage ⟨⟩
    rw [now, show Reactor.lastSweep _ = _ from last]
    exact known
  · rintro at_ fd' fds' stage'' ⟨⟩ hne
    obtain ⟨-, same⟩ | ⟨-, erase, -⟩ := goesOn
    · cases same
      exact gone.2
    · exact absurd erase hne
  · intro fd' k hk hfd
    rw [objects]
    have old := h.active fd' k (less fd' k hk)
    rw [Reactor.sweptAt, pc] at old
    refine old ?_
    intro listed
    obtain ⟨-, rfl⟩ | ⟨-, -, rfl⟩ := goesOn
    · exact hfd listed
    · obtain rfl | listed := List.mem_cons.mp listed
      · exact gone.2 (AList.lookup_isSome.mp (by rw [hk]; rfl))
      · exact hfd listed

/-! ## Every step -/

/-- What a move of the reactor `i` leaves alone: the clock, the other reactors, and every
stamp but those it sets to the present. -/
theorem Move.stamps {c : Choice} (move : Move cfg s i c s') :
    s'.now = s.now ∧ (∀ j, j ≠ i → s'.reactors j = s.reactors j) ∧
      ∀ k, (s'.objects k).lastActive = (s.objects k).lastActive ∨
        (s'.objects k).lastActive = s.now := by
  cases move with
  | insert pc =>
    refine ⟨rfl, fun j hj => Function.update_of_ne hj _ _, ?_⟩
    intro k
    simp only [State.setReactor, Function.update_apply]
    split
    · exact .inr rfl
    · exact .inl rfl
  | stamp pc =>
    refine ⟨rfl, fun j hj => setPc_of_ne _ _ hj, ?_⟩
    intro k
    simp only [State.setPc, State.setReactor, Function.update_apply]
    split
    · exact .inr rfl
    · exact .inl rfl
  | closing pc call | closed pc call | sweepClosing pc call | sweepClosed pc call =>
    obtain ⟨other, -, -, now, objects⟩ := closeConnection_frame call
    refine ⟨now, ?_, ?_⟩
    · intro j hj
      rw [setPc_of_ne _ _ hj, other j hj]
    · intro k
      exact .inl (congrArg (fun o => (o k).lastActive) objects)
  | swept pc => exact ⟨rfl, fun j hj => Function.update_of_ne hj _ _, fun _ => .inl rfl⟩
  | received | sent => exact ⟨rfl, fun _ _ => rfl, fun _ => .inl rfl⟩
  | _ => exact ⟨rfl, fun j hj => setPc_of_ne _ _ hj, fun _ => .inl rfl⟩

/-- Every move of a reactor keeps its table prompt. -/
theorem Prompt.move {c : Choice} (h : Prompt cfg s (s.reactors i)) (move : Move cfg s i c s') :
    Prompt cfg s' (s'.reactors i) := by
  obtain ⟨now, -, stamps⟩ := move.stamps
  have aged : Prompt cfg s' (s.reactors i) := h.later (Int.le_of_eq now.symm) stamps
  cases move with
  | due pc =>
    rw [setPc_self]
    refine ⟨h.last, ?_, by simp, by simp, by simp, ?_⟩
    · rintro at_ ⟨⟩
      exact ⟨h.last, Int.le_refl _⟩
    · intro fd k hk hfd
      have old := h.active fd k hk (by rw [pc]; exact List.not_mem_nil)
      rwa [Reactor.sweptAt, pc] at old
  | sweep pc =>
    rw [setPc_self]
    obtain ⟨since, past⟩ := h.sweep _ pc
    refine ⟨h.last, by simp, ?_, by simp, by simp, ?_⟩
    · rintro at_ now ⟨⟩
      exact ⟨since, past, Int.le_refl _⟩
    · intro fd k hk hfd
      have old := h.active fd k hk (by rw [pc]; exact List.not_mem_nil)
      rwa [Reactor.sweptAt, pc] at old
  | scan pc perm =>
    rw [setPc_self]
    exact (h.collect pc perm).later (Int.le_refl _) fun _ => .inl rfl
  | swept pc =>
    simp only [State.setReactor, Function.update_self]
    obtain ⟨-, past⟩ := h.expire _ _ _ pc
    refine ⟨past, by simp, by simp, by simp, by simp, ?_⟩
    intro fd k hk hfd
    have old := h.active fd k hk (by rw [pc]; exact List.not_mem_nil)
    rwa [Reactor.sweptAt, pc] at old
  | sweepClosing pc call =>
    rw [setPc_self]
    exact (h.expires pc call (.inl ⟨rfl, rfl⟩)).later (Int.le_refl _) fun _ => .inl rfl
  | sweepClosed pc call =>
    rw [setPc_self]
    exact (h.expires pc call (.inr ⟨rfl, rfl, rfl⟩)).later (Int.le_refl _) fun _ => .inl rfl
  | closing pc call | closed pc call =>
    rw [setPc_self]
    refine aged.goOn (by rw [pc]; rfl) rfl (closeConnection_lastSweep call) ?_
    intro fd k hk
    exact .inl ((closeConnection_less call).2.2 fd k hk)
  | @insert batch fd k pc =>
    simp only [State.setReactor, Function.update_self]
    refine aged.goOn (by rw [pc]; rfl) rfl rfl ?_
    intro fd' k' hk
    by_cases hfd : fd' = fd
    · subst hfd
      simp only [AList.lookup_insert, Option.some.injEq] at hk
      subst hk
      exact .inr (by simp [State.setReactor])
    · exact .inl (by rwa [AList.lookup_insert_ne hfd] at hk)
  | @found e batch k pc =>
    rw [setPc_self]
    refine aged.goOn (by rw [pc]; rfl) ?_ rfl fun _ _ hk => .inl hk
    unfold enter
    split
    · rfl
    · split <;> rfl
  | @flushed batch e k close pc =>
    rw [setPc_self]
    refine aged.goOn (by rw [pc]; rfl) ?_ rfl fun _ _ hk => .inl hk
    cases close <;> rfl
  | received | sent => exact aged
  | _ pc =>
    rw [setPc_self]
    exact aged.goOn (by rw [pc]; rfl) rfl rfl fun _ _ hk => .inl hk

/-- Every step keeps every reactor's table prompt. -/
theorem Prompt.step {l : Label m} (h : ∀ i, Prompt cfg s (s.reactors i))
    (hs : step cfg s l = some s') (j : Fin m) : Prompt cfg s' (s'.reactors j) := by
  cases l with
  | tick elapsed =>
    cases hs
    exact (h j).later (Int.le_add_of_nonneg_right (Int.natCast_nonneg _)) fun _ => .inl rfl
  | reactor i c =>
    have move := reactorStep_move hs
    by_cases hj : j = i
    · subst hj
      exact (h j).move move
    · obtain ⟨now, other, stamps⟩ := move.stamps
      rw [other j hj]
      exact (h j).later (Int.le_of_eq now.symm) stamps
  | stopper => cases stopStep_move hs <;> exact (h j).later (Int.le_refl _) fun _ => .inl rfl

/-- What every run keeps. -/
theorem prompt_of_reach (r : (loop m cfg).Reachable s) (i : Fin m) :
    Prompt cfg s (s.reactors i) := by
  refine r.invariant (I := fun s => ∀ i, Prompt cfg s (s.reactors i)) prompt_initial ?_ i
  exact fun s l s' h _ hs => Prompt.step h hs

/-! ## The law -/

/-- Whom a reactor still has in its table, but for those its sweep is closing, was not
overdue at its last sweep. When it ends a turn of its loop without another, he is not
overdue by a second. -/
structure Swept (cfg : Config m) (s : State m) : Prop where
  left : ∀ i fd k, (s.reactors i).connections.lookup fd = some k → fd ∉ (s.reactors i).pc.expiring →
    (s.reactors i).lastSweep - (s.objects k).lastActive ≤ cfg.patience
  turn : ∀ i s', (s.reactors i).pc = .afterBatch → step cfg s (.reactor i .go) = some s' →
    (s'.reactors i).pc = .poll → ∀ fd k, (s'.reactors i).connections.lookup fd = some k →
      s'.now - (s'.objects k).lastActive < cfg.patience + seconds 1

/-- The last sweep was no later than what the reactor has swept up to. -/
theorem Prompt.since {r : Reactor} (h : Prompt cfg s r) : r.lastSweep ≤ r.sweptAt := by
  unfold Reactor.sweptAt
  split
  next at_ fds stage pc => exact (h.expire at_ fds stage pc).1
  next => exact Int.le_refl _

/-- A turn that goes round the sweep has come less than a second after the last one. -/
theorem turn_soon (pc : (s.reactors i).pc = .afterBatch)
    (hs : step cfg s (.reactor i .go) = some s') (poll : (s'.reactors i).pc = .poll) :
    s.now - (s.reactors i).lastSweep < seconds 1 ∧ s' = s.setPc i .poll := by
  simp only [step, reactorStep, pc] at hs
  cases hs
  rw [setPc_self] at poll
  split at poll
  next => cases poll
  next soon =>
    rw [if_neg soon]
    exact ⟨Int.not_le.mp soon, rfl⟩

/-- In every run of the reactors, their tables hold nobody overdue whom a sweep has seen,
and nobody is overdue by a second at the end of a turn. -/
theorem reactors_sweep (r : (loop m cfg).Reachable s) : Swept cfg s := by
  have prompt := prompt_of_reach r
  constructor
  · intro i fd k hk hfd
    have young := (prompt i).active fd k hk hfd
    have since := (prompt i).since
    simp only [Time] at *
    omega
  · intro i s' pc hs poll fd k hk
    obtain ⟨soon, rfl⟩ := turn_soon pc hs poll
    rw [setPc_self] at hk
    have young := (prompt i).active fd k hk (by rw [pc]; exact List.not_mem_nil)
    rw [Reactor.sweptAt, pc] at young
    show s.now - (s.objects k).lastActive < _
    simp only [Time] at *
    omega

/-- A client that says nothing: ten seconds after it came the reactor sweeps and leaves it,
and half a second later it ends a turn without a sweep. -/
def leavesSilent : List (Label 2) :=
  greets first 10 ++ runs first [.go] ++ [.tick 10000000000] ++
    runs first [.go, .go, .order [], .go, .go, .ready []] ++ [.tick 500000000] ++ runs first [.go]

/-- Where that run ends. -/
def leavesSilentEnd : State 2 :=
  ((loop 2 pair).exec (loop 2 pair).start leavesSilent).get (by decide +kernel)

/-- The turn is over, and the client is there. -/
theorem reactors_sweep_silent :
    ((leavesSilentEnd.reactors first).pc = .afterBatch ∧
      (leavesSilentEnd.reactors first).connections.lookup 10 = some 0 ∧
      (leavesSilentEnd.reactors first).lastSweep = seconds 10) ∧ Swept pair leavesSilentEnd :=
  ⟨by decide +kernel, reactors_sweep (.of_exec (Option.some_get _).symm)⟩

end WebServer.Reactors
