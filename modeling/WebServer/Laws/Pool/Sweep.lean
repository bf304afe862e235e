import WebServer.Laws.Pool.Idle
/-! # What the pool's sweep leaves

The other half of the pool's idle timeout. The sweep passes over a connection that a worker
has in hand, so what it leaves was not overdue, or was busy when the table was walked; the
loop keeps no record of the latter, and `sparing` does. Workers go on closing and stamping
while the accept thread is at the descriptors it has collected, but nobody else inserts, so
a descriptor that it has erased stays out of the table (`Prompt.erased`), and what was young
enough stays so (`workers_sweep`).
-/

namespace WebServer.Pool

variable {n : Nat} {cfg : Config} {s s' t : State n} {spared : List Sock}

/-- How long a connection may have been silent at a sweep. -/
def Config.patience (cfg : Config) : Int :=
  max 0 (seconds cfg.idleTimeoutSeconds)

/-- The sockets in the table that a worker has marked as its own. -/
def State.busy (s : State n) : List Sock :=
  (s.connections.entries.filter fun entry => (s.objects entry.2).busy).map Sigma.snd

/-- What a step makes of the record of whom the last walk over the table found busy. -/
def State.spare (s : State n) (l : Label n) (spared : List Sock) : List Sock :=
  match l with
  | .accepter (.order _) => s.busy
  | _ => spared

/-- The pool loop with that record. -/
def sparing (n : Nat) (cfg : Config) : Machine (State n × List Sock) (Label n) :=
  (loop n cfg).recording [] State.spare

/-- The loop time up to which the accept thread has swept: that of the sweep that is closing
connections, or of the last one. -/
def State.sweptAt (s : State n) : Time :=
  match s.accepter with
  | .expire at_ _ _ => at_
  | _ => s.lastSweep

/-- The table holds nobody whom the last sweep should have closed, but for those it is still
closing and those it has spared. -/
structure Prompt (cfg : Config) (s : State n) (spared : List Sock) : Prop where
  last : s.lastSweep ≤ s.now
  sweep : ∀ at_, s.accepter = .sweep at_ → s.lastSweep ≤ at_ ∧ at_ ≤ s.now
  scan : ∀ at_ now, s.accepter = .scan at_ now → s.lastSweep ≤ at_ ∧ at_ ≤ now ∧ now ≤ s.now
  expire : ∀ at_ fds stage, s.accepter = .expire at_ fds stage → s.lastSweep ≤ at_ ∧ at_ ≤ s.now
  erased : ∀ at_ fd fds stage, s.accepter = .expire at_ (fd :: fds) stage → stage ≠ .erase →
    fd ∉ s.connections
  active : ∀ fd k, s.connections.lookup fd = some k → fd ∉ s.accepter.expiring → k ∉ spared →
    s.sweptAt - (s.objects k).lastActive ≤ cfg.patience

theorem prompt_initial (n : Nat) (cfg : Config) : Prompt cfg (State.initial n cfg) [] := by
  constructor <;> simp [State.initial]

theorem Prompt.sweptAt_le (h : Prompt cfg s spared) : s.sweptAt ≤ s.now := by
  unfold State.sweptAt
  split
  next at_ fds stage pc => exact (h.expire at_ fds stage pc).2
  next => exact h.last

theorem Config.patience_nonneg (cfg : Config) : 0 ≤ cfg.patience :=
  Int.le_max_left _ _

/-- What the accept thread does not do: time passes, connections are stamped and closed. -/
structure State.Ages (s t : State n) : Prop where
  now : s.now ≤ t.now
  lastSweep : t.lastSweep = s.lastSweep
  stamps : ∀ k, (t.objects k).lastActive = (s.objects k).lastActive ∨
    (t.objects k).lastActive = s.now
  less : ∀ fd k, t.connections.lookup fd = some k → s.connections.lookup fd = some k

theorem mem_of_lookup {fd : Fd} {k : Sock} (h : s.connections.lookup fd = some k) :
    fd ∈ s.connections :=
  AList.lookup_isSome.mp (by rw [h]; rfl)

theorem Prompt.later (h : Prompt cfg s spared) (ages : s.Ages t)
    (accepter : t.accepter = s.accepter) : Prompt cfg t spared := by
  obtain ⟨now, last, stamps, less⟩ := ages
  have swept : t.sweptAt = s.sweptAt := by
    simp only [State.sweptAt, accepter, last]
  constructor
  · exact last ▸ Int.le_trans h.last now
  · rw [accepter, last]
    exact fun at_ pc => (h.sweep at_ pc).imp_right (Int.le_trans · now)
  · rw [accepter, last]
    exact fun at_ now' pc => (h.scan at_ now' pc).imp_right (And.imp_right (Int.le_trans · now))
  · rw [accepter, last]
    exact fun at_ fds stage pc => (h.expire at_ fds stage pc).imp_right (Int.le_trans · now)
  · rw [accepter]
    intro at_ fd fds stage pc hne mem
    obtain ⟨k, hk⟩ := Option.isSome_iff_exists.mp (AList.lookup_isSome.mpr mem)
    exact h.erased at_ fd fds stage pc hne (mem_of_lookup (less fd k hk))
  · rw [accepter, swept]
    intro fd k hk hfd hspared
    obtain same | new := stamps k
    · rw [same]
      exact h.active fd k (less fd k hk) hfd hspared
    · rw [new]
      exact within h.sweptAt_le cfg.patience_nonneg

/-- In a sweep, or about to begin one. -/
def AcceptPc.sweeps : AcceptPc → Bool
  | .sweep _ | .scan _ _ | .expire _ _ _ => true
  | _ => false

theorem not_sweeping (h : s.accepter.sweeps = false) :
    s.sweptAt = s.lastSweep ∧ s.accepter.expiring = [] := by
  cases pc : s.accepter <;> simp_all [AcceptPc.sweeps, State.sweptAt, AcceptPc.expiring]

/-- The accept thread goes on outside of a sweep, with nobody new in the table but who is
new. -/
theorem Prompt.goOn (h : Prompt cfg s spared) (before : s.accepter.sweeps = false)
    (after : t.accepter.sweeps = false) (now : t.now = s.now) (lastSweep : t.lastSweep = s.lastSweep)
    (young : ∀ fd k, t.connections.lookup fd = some k →
      s.connections.lookup fd = some k ∧ (t.objects k).lastActive = (s.objects k).lastActive ∨
        (t.objects k).lastActive = s.now) : Prompt cfg t spared := by
  constructor
  · rw [now, lastSweep]
    exact h.last
  · intro at_ pc
    rw [pc] at after
    cases after
  · intro at_ now pc
    rw [pc] at after
    cases after
  · intro at_ fds stage pc
    rw [pc] at after
    cases after
  · intro at_ fd fds stage pc
    rw [pc] at after
    cases after
  · intro fd k hk _ hspared
    rw [(not_sweeping after).1, lastSweep]
    obtain ⟨old, same⟩ | new := young fd k hk
    · have known := h.active fd k old (by rw [(not_sweeping before).2]; exact List.not_mem_nil)
        hspared
      rw [(not_sweeping before).1] at known
      rwa [same]
    · rw [new]
      exact within h.last cfg.patience_nonneg

/-- Who is neither collected nor busy is not overdue. -/
theorem not_overdue {fd : Fd} {k : Sock} {now : Time} (hk : s.connections.lookup fd = some k)
    (left : fd ∉ s.expired cfg now) (idle : k ∉ s.busy) :
    now - (s.objects k).lastActive ≤ seconds cfg.idleTimeoutSeconds := by
  have entry : (⟨fd, k⟩ : Sigma fun _ : Fd => Sock) ∈ s.connections.entries :=
    AList.mem_lookup_iff.mp hk
  by_contra old
  have free : (s.objects k).busy = false := by
    rw [← Bool.not_eq_true]
    intro busy
    exact idle (List.mem_map.mpr ⟨_, List.mem_filter.mpr ⟨entry, busy⟩, rfl⟩)
  apply left
  simp only [State.expired, List.mem_map, List.mem_filter, Bool.and_eq_true, Bool.not_eq_true',
    decide_eq_true_eq]
  exact ⟨_, ⟨entry, free, Int.not_le.mp old⟩, rfl⟩

/-- What the sweep neither collects nor spares may stay. -/
theorem Prompt.collect (h : Prompt cfg s spared) {at_ now : Time} {fds : List Fd}
    (pc : s.accepter = .scan at_ now) (perm : fds.Perm (s.expired cfg now)) :
    Prompt cfg { s with accepter := .expire at_ fds .erase } s.busy := by
  obtain ⟨since, before, past⟩ := h.scan at_ now pc
  constructor
  · exact h.last
  · rintro at_ ⟨⟩
  · rintro at_ now ⟨⟩
  · rintro at_ fds stage ⟨⟩
    exact ⟨since, Int.le_trans before past⟩
  · rintro at_ fd fds stage ⟨⟩ hne
    exact absurd rfl hne
  · intro fd k hk hfd hspared
    have young := not_overdue hk (fun listed => hfd (perm.mem_iff.mpr listed)) hspared
    show at_ - _ ≤ max 0 _
    simp only [Time] at *
    omega

/-- A call of `closeConnection` by whichever thread. -/
theorem closeConnection_ages {fd : Fd} {stage : Closing} {next : Option Closing}
    (call : closeConnection s fd stage = (t, next)) : s.Ages t := by
  obtain ⟨-, -, -, -, objects⟩ := closeConnection_frame call
  obtain ⟨-, -, -, -, now⟩ := closeConnection_flags call
  refine ⟨Int.le_of_eq now.symm, ?_, ?_, (closeConnection_less call).2⟩
  · cases stage <;> simp only [closeConnection] at call
    case erase => split at call <;> cases call <;> rfl
    all_goals
      cases call
      rfl
  · intro k
    rw [objects]
    exact .inl rfl

/-- The sweep is done with its first descriptor, or makes its next call for it. -/
theorem Prompt.expires (h : Prompt cfg s spared) {at_ : Time} {fd : Fd} {fds : List Fd}
    {stage : Closing} {next : Option Closing} (pc : s.accepter = .expire at_ (fd :: fds) stage)
    (call : closeConnection s fd stage = (t, next)) {fds' : List Fd} {stage' : Closing}
    (goesOn : next = some stage' ∧ fds' = fd :: fds ∨ next = none ∧ stage' = .erase ∧ fds' = fds) :
    Prompt cfg { t with accepter := .expire at_ fds' stage' } spared := by
  have ages := closeConnection_ages call
  obtain ⟨-, -, -, -, objects⟩ := closeConnection_frame call
  -- past the erasing, the descriptor is not in the table
  have gone : fd ∉ t.connections := by
    cases stage with
    | erase =>
      simp only [closeConnection] at call
      split at call <;> cases call
      · simp
      next absent => exact absent
    | ctlDel | close | account =>
      have absent := h.erased at_ fd fds _ pc (by simp)
      cases call
      exact absent
  have known := h.expire at_ _ stage pc
  constructor
  · show t.lastSweep ≤ t.now
    rw [ages.lastSweep]
    exact Int.le_trans h.last ages.now
  · rintro at_ ⟨⟩
  · rintro at_ now ⟨⟩
  · rintro at_ fds stage ⟨⟩
    show t.lastSweep ≤ _ ∧ _ ≤ t.now
    rw [ages.lastSweep]
    exact known.imp_right (Int.le_trans · ages.now)
  · rintro at_ fd' fds' stage'' ⟨⟩ hne
    obtain ⟨-, same⟩ | ⟨-, erase, -⟩ := goesOn
    · cases same
      exact gone
    · exact absurd erase hne
  · intro fd' k hk hfd hspared
    show at_ - (t.objects k).lastActive ≤ _
    rw [objects]
    have old := h.active fd' k (ages.less fd' k hk)
    rw [State.sweptAt, pc] at old
    refine old ?_ hspared
    intro listed
    obtain ⟨-, rfl⟩ | ⟨-, -, rfl⟩ := goesOn
    · exact hfd listed
    · obtain rfl | listed := List.mem_cons.mp listed
      · exact gone (mem_of_lookup hk)
      · exact hfd listed

/-! ## Every step -/

/-- What the accept thread makes of the record. -/
theorem Prompt.accept {c : AcceptChoice} (h : Prompt cfg s spared) (move : AcceptMove cfg s c s') :
    Prompt cfg s' (s.spare (.accepter c) spared) := by
  cases move with
  | due pc =>
    refine ⟨h.last, ?_, by simp, by simp, by simp, ?_⟩
    · rintro at_ ⟨⟩
      exact ⟨h.last, Int.le_refl _⟩
    · intro fd k hk hfd
      have old := h.active fd k hk (by rw [pc]; exact List.not_mem_nil)
      rwa [State.sweptAt, pc] at old
  | sweep pc =>
    obtain ⟨since, past⟩ := h.sweep _ pc
    refine ⟨h.last, by simp, ?_, by simp, by simp, ?_⟩
    · rintro at_ now ⟨⟩
      exact ⟨since, past, Int.le_refl _⟩
    · intro fd k hk hfd
      have old := h.active fd k hk (by rw [pc]; exact List.not_mem_nil)
      rwa [State.sweptAt, pc] at old
  | scan pc perm => exact h.collect pc perm
  | swept pc =>
    obtain ⟨-, past⟩ := h.expire _ _ _ pc
    refine ⟨past, by simp, by simp, by simp, by simp, ?_⟩
    intro fd k hk hfd
    have old := h.active fd k hk (by rw [pc]; exact List.not_mem_nil)
    rwa [State.sweptAt, pc] at old
  | closing pc call => exact h.expires pc call (.inl ⟨rfl, rfl⟩)
  | closed pc call => exact h.expires pc call (.inr ⟨rfl, rfl, rfl⟩)
  | @insert batch fd k pc =>
    refine h.goOn (by rw [pc]; rfl) rfl rfl rfl ?_
    intro fd' k' hk
    by_cases hfd : fd' = fd
    · subst hfd
      simp only [AList.lookup_insert, Option.some.injEq] at hk
      subst hk
      exact .inr (by simp [State.setObject])
    · simp only [State.setObject, Function.update_apply]
      split
      · exact .inr rfl
      · exact .inl ⟨by rwa [AList.lookup_insert_ne hfd] at hk, rfl⟩
  | _ pc => exact h.goOn (by rw [pc]; rfl) rfl rfl rfl fun _ _ hk => .inl ⟨hk, rfl⟩

theorem WorkerMove.ages {w : Fin n} {c : WorkerChoice} (move : WorkerMove s w c s') :
    s.Ages s' ∧ s'.accepter = s.accepter := by
  cases move with
  | found | stamp | release =>
    refine ⟨⟨Int.le_refl _, rfl, ?_, fun _ _ hk => hk⟩, rfl⟩
    intro k
    simp only [State.setWorker, State.setObject, Function.update_apply]
    split
    next same =>
      subst same
      simp
    next => exact .inl rfl
  | closing pc call | closed pc call =>
    obtain ⟨now, last, stamps, less⟩ := closeConnection_ages call
    exact ⟨⟨now, last, stamps, less⟩, (closeConnection_frame call).1⟩
  | _ => exact ⟨⟨Int.le_refl _, rfl, fun _ => .inl rfl, fun _ _ hk => hk⟩, rfl⟩

theorem StopMove.ages {c : StopChoice} (move : StopMove s c s') :
    s.Ages s' ∧ s'.accepter = s.accepter := by
  cases move with
  | clear =>
    refine ⟨⟨Int.le_refl _, rfl, fun _ => .inl rfl, ?_⟩, rfl⟩
    intro fd k hk
    cases hk
  | _ => exact ⟨⟨Int.le_refl _, rfl, fun _ => .inl rfl, fun _ _ hk => hk⟩, rfl⟩

/-- Every step keeps the table prompt. -/
theorem Prompt.step {l : Label n} (h : Prompt cfg s spared) (hs : step cfg s l = some s') :
    Prompt cfg s' (s.spare l spared) := by
  cases l with
  | tick elapsed =>
    cases hs
    have later : s.now ≤ s.now + elapsed := Int.le_add_of_nonneg_right (Int.natCast_nonneg _)
    exact h.later ⟨later, rfl, fun _ => .inl rfl, fun _ _ hk => hk⟩ rfl
  | accepter c => exact h.accept (acceptStep_move hs)
  | worker w c =>
    obtain ⟨ages, accepter⟩ := (workerStep_move hs).ages
    exact h.later ages accepter
  | stopper c =>
    obtain ⟨ages, accepter⟩ := (stopStep_move hs).ages
    exact h.later ages accepter

/-- What every run keeps. -/
theorem prompt_of_reach {p : State n × List Sock} (r : (sparing n cfg).Reachable p) :
    Prompt cfg p.1 p.2 := by
  refine r.invariant (I := fun p => Prompt cfg p.1 p.2) (prompt_initial n cfg) ?_
  intro p l q h _ hs
  obtain ⟨hs, record⟩ := Machine.recording_step hs
  rw [record]
  exact h.step hs

/-! ## The law -/

/-- Whom the table still holds, but for those the sweep is closing and those it found busy,
was not overdue at the last sweep. When the accept thread ends a turn of its loop without
another, he is not overdue by a second. -/
structure Swept (cfg : Config) (s : State n) (spared : List Sock) : Prop where
  left : ∀ fd k, s.connections.lookup fd = some k → fd ∉ s.accepter.expiring → k ∉ spared →
    s.lastSweep - (s.objects k).lastActive ≤ cfg.patience
  turn : ∀ s', s.accepter = .afterBatch → step cfg s (.accepter .go) = some s' →
    s'.accepter = .poll → ∀ fd k, s'.connections.lookup fd = some k → k ∉ spared →
      s'.now - (s'.objects k).lastActive < cfg.patience + seconds 1

/-- The last sweep was no later than what has been swept up to. -/
theorem Prompt.since (h : Prompt cfg s spared) : s.lastSweep ≤ s.sweptAt := by
  unfold State.sweptAt
  split
  next at_ fds stage pc => exact (h.expire at_ fds stage pc).1
  next => exact Int.le_refl _

/-- A turn that goes round the sweep has come less than a second after the last one. -/
theorem turn_soon (pc : s.accepter = .afterBatch) (hs : step cfg s (.accepter .go) = some s')
    (poll : s'.accepter = .poll) :
    s.now - s.lastSweep < seconds 1 ∧ s' = { s with accepter := .poll } := by
  simp only [step, acceptStep, pc] at hs
  cases hs
  dsimp only at poll
  split at poll
  next => cases poll
  next soon =>
    rw [if_neg soon]
    exact ⟨Int.not_le.mp soon, rfl⟩

/-- In every run of the pool, the table holds nobody overdue whom a sweep has found idle,
and at the end of a turn nobody of them is overdue by a second. -/
theorem workers_sweep {p : State n × List Sock} (r : (sparing n cfg).Reachable p) :
    Swept cfg p.1 p.2 := by
  have prompt := prompt_of_reach r
  constructor
  · intro fd k hk hfd hspared
    have young := prompt.active fd k hk hfd hspared
    have since := prompt.since
    simp only [Time] at *
    omega
  · intro s' pc hs poll fd k hk hspared
    obtain ⟨soon, rfl⟩ := turn_soon pc hs poll
    have young := prompt.active fd k hk (by rw [pc]; exact List.not_mem_nil) hspared
    rw [State.sweptAt, pc] at young
    show p.1.now - (p.1.objects k).lastActive < _
    simp only [Time] at *
    omega

/-- A worker has the first client in hand for sixteen seconds; the second came after ten. -/
def sparesFirst : List (Label 1) :=
  List.flatten [acceptSix,
    [.accepter .go, .accepter (.ready [firstReadable]), .accepter .go, .accepter .go,
      .accepter .go],
    works [.go, .go],
    [.tick 10000000000, .accepter .go, .accepter (.ready [connecting]), .accepter .go,
      .accepter (.accepted 7), .accepter .go, .accepter .go, .accepter (.ctlAdd true),
      .accepter .refused, .accepter .go, .accepter .go, .accepter .go, .accepter (.order []),
      .accepter .go],
    [.tick 6000000000, .accepter .go, .accepter (.ready []), .accepter .go, .accepter .go,
      .accepter .go, .accepter (.order []), .accepter .go]]

/-- Where that run ends. -/
def sparesFirstEnd : State 1 × List Sock :=
  ((sparing 1 {}).exec (sparing 1 {}).start sparesFirst).get (by decide +kernel)

/-- The sweep has left both, and spared the first. -/
theorem workers_sweep_spared :
    (sparesFirstEnd.1.connections.lookup 6 = some 0 ∧ sparesFirstEnd.1.connections.lookup 7 = some 1 ∧
      sparesFirstEnd.1.lastSweep = seconds 16 ∧ sparesFirstEnd.2 = [0]) ∧
      Swept {} sparesFirstEnd.1 sparesFirstEnd.2 :=
  ⟨by decide +kernel, workers_sweep (.of_exec (Option.some_get _).symm)⟩

end WebServer.Pool
