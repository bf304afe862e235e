import Mathlib.Logic.Function.Basic
import WebServer.Base.Machine
/-! # Critical sections, and a handler that interrupts a thread

A machine whose steps are atomic does not say which mutex a thread holds when
another one moves. Here a step that the code takes under a mutex becomes three:
the mutex is locked, the step is taken, the mutex is unlocked. Between any two of
its moves a thread may be interrupted. The handler then runs on that thread, which
stands still until the handler has returned; the other threads go on.

A handler must not lock what its thread holds: nobody is left to unlock it
(`SelfWait.forever`). It never does so if no interruption finds the thread with a
mutex that the handler takes (`not_selfWait_of_spares`).
-/

namespace WebServer

/-- Who takes a step: a thread, or the handler on the thread it interrupted. -/
inductive Party (θ : Type u) where
  | thread (t : θ)
  | handler
  deriving DecidableEq, Repr

/-- Where a party is with its mutex. No section lies inside another. -/
inductive Phase (μ : Type u) where
  | outside
  /-- The mutex is locked; before the section's step. -/
  | entered (m : μ)
  /-- After the section's step; before the mutex is unlocked. -/
  | executed (m : μ)
  deriving DecidableEq, Repr

/-- The mutex held in a phase. -/
def Phase.holds {μ : Type u} : Phase μ → Option μ
  | .outside => none
  | .entered m | .executed m => some m

/-- The section's step was taken. -/
def Phase.execute {μ : Type u} : Phase μ → Phase μ
  | .outside => .outside
  | .entered m | .executed m => .executed m

/-- The phase in which a step is taken that needs this mutex, or none. -/
def Phase.before {μ : Type u} : Option μ → Phase μ
  | none => .outside
  | some m => .entered m

@[simp] theorem Phase.holds_execute {μ : Type u} (phase : Phase μ) :
    phase.execute.holds = phase.holds := by
  cases phase <;> rfl

/-- A machine, and which of its steps are taken under which mutex. -/
structure Sections (σ : Type u) (α : Type v) (θ : Type w) (μ : Type x) where
  machine : Machine σ α
  /-- Who takes the step, if anybody does. -/
  party : α → Option (Party θ)
  /-- The mutex that the party's next step is taken under. -/
  guards : σ → Party θ → Option μ
  /-- The thread may lock the mutex in code that the machine leaves out. -/
  calls : σ → θ → μ → Bool
  /-- The handler's first step, which is taken under no mutex. -/
  entry : α
  /-- The handler is through. -/
  returned : σ → Bool

/-- A state of the machine, who holds which mutex, and the thread that the handler
runs on, if it does. -/
structure Locked (σ : Type u) (θ : Type w) (μ : Type x) where
  base : σ
  owner : μ → Option (Party θ)
  phase : Party θ → Phase μ
  host : Option θ
  owned : ∀ p m, owner m = some p ↔ (phase p).holds = some m

/-- Who moves. -/
inductive LockLabel (α : Type v) (θ : Type w) (μ : Type x) where
  | lock (p : Party θ) (m : μ)
  /-- A step of the machine. -/
  | step (a : α)
  /-- The thread executes a section that the machine leaves out. -/
  | call (t : θ)
  | unlock (p : Party θ)
  /-- The thread is interrupted, and the handler takes its first step. -/
  | interrupt (t : θ)
  /-- The handler returns to the thread. -/
  | resume
  deriving DecidableEq, Repr

variable {σ : Type u} {α : Type v} {θ : Type w} {μ : Type x}

/-! ## Mutexes and their owners -/

theorem owned_initial (p : Party θ) (m : μ) :
    (none : Option (Party θ)) = some p ↔ (Phase.outside : Phase μ).holds = some m := by
  simp [Phase.holds]

/-- Nobody holds anything. -/
def Locked.initial (base : σ) : Locked σ θ μ where
  base := base
  owner := fun _ => none
  phase := fun _ => .outside
  host := none
  owned := owned_initial

variable [DecidableEq θ]

/-- The party may move: an interrupted thread stands still, and there is a handler
only on such a thread. -/
def Locked.moves (s : Locked σ θ μ) : Party θ → Bool
  | .thread t => s.host ≠ some t
  | .handler => s.host.isSome

/-- Who moves while there is no handler is not the handler. -/
theorem Locked.not_handler_of_moves {s : Locked σ θ μ} {p : Party θ} (moves : s.moves p = true)
    (host : s.host = none) : Party.handler ≠ p := by
  intro hp
  simp [← hp, Locked.moves, host] at moves

theorem owned_execute (s : Locked σ θ μ) (p q : Party θ) (m : μ) :
    s.owner m = some q ↔ (Function.update s.phase p (s.phase p).execute q).holds = some m := by
  rw [s.owned q m]
  by_cases hq : q = p
  · simp [hq]
  · simp [hq]

/-- The party has executed its section. -/
def Locked.execute (s : Locked σ θ μ) (p : Party θ) : Locked σ θ μ where
  base := s.base
  owner := s.owner
  phase := Function.update s.phase p (s.phase p).execute
  host := s.host
  owned := owned_execute s p

theorem Locked.phase_execute (s : Locked σ θ μ) {p q : Party θ} (h : q ≠ p) :
    (s.execute p).phase q = s.phase q :=
  Function.update_of_ne h ..

theorem owned_leave (s : Locked σ θ μ) (p q : Party θ) (m : μ) :
    (if s.owner m = some p then none else s.owner m) = some q ↔
      (Function.update s.phase p .outside q).holds = some m := by
  have old := s.owned q m
  by_cases hq : q = p
  · subst hq
    by_cases ho : s.owner m = some q <;> simp [ho, Phase.holds]
  · by_cases ho : s.owner m = some p
    · rw [ho] at old
      simpa [hq, ho, Ne.symm hq] using old
    · simpa [hq, ho] using old

/-- The party unlocks what it holds. -/
def Locked.leave (s : Locked σ θ μ) (p : Party θ) : Locked σ θ μ where
  base := s.base
  owner := fun m => if s.owner m = some p then none else s.owner m
  phase := Function.update s.phase p .outside
  host := s.host
  owned := owned_leave s p

theorem Locked.phase_leave (s : Locked σ θ μ) {p q : Party θ} (h : q ≠ p) :
    (s.leave p).phase q = s.phase q :=
  Function.update_of_ne h ..

variable [DecidableEq μ] {s s' : Locked σ θ μ}

theorem owned_enter {p : Party θ} {m : μ} (outside : s.phase p = .outside)
    (free : s.owner m = none) (q : Party θ) (m' : μ) :
    Function.update s.owner m (some p) m' = some q ↔
      (Function.update s.phase p (.entered m) q).holds = some m' := by
  have old := s.owned q m'
  by_cases hm : m' = m
  · subst hm
    by_cases hq : q = p
    · simp [hq, Phase.holds]
    · rw [free] at old
      simpa [hq, Ne.symm hq] using old
  · by_cases hq : q = p
    · rw [hq, outside] at old
      simpa [hq, hm, Ne.symm hm, Phase.holds] using old
    · simpa [hq, hm] using old

/-- The party locks the mutex. -/
def Locked.enter (s : Locked σ θ μ) (p : Party θ) (m : μ) (outside : s.phase p = .outside)
    (free : s.owner m = none) : Locked σ θ μ where
  base := s.base
  owner := Function.update s.owner m (some p)
  phase := Function.update s.phase p (.entered m)
  host := s.host
  owned := owned_enter outside free

theorem Locked.phase_enter {p q : Party θ} {m : μ} (outside : s.phase p = .outside)
    (free : s.owner m = none) (h : q ≠ p) : (s.enter p m outside free).phase q = s.phase q :=
  Function.update_of_ne h ..

theorem Locked.owner_enter {p : Party θ} {m m' : μ} (outside : s.phase p = .outside)
    (free : s.owner m = none) (h : m' ≠ m) : (s.enter p m outside free).owner m' = s.owner m' :=
  Function.update_of_ne h ..

/-! ## The machine with its sections -/

namespace Sections

variable (sys : Sections σ α θ μ)

/-- The party may come to lock the mutex where it is. -/
def wants (s : σ) : Party θ → μ → Bool
  | .thread t, m => sys.guards s (.thread t) = some m || sys.calls s t m
  | .handler, m => sys.guards s .handler = some m

/-- The party takes a step of the machine: inside its mutex where there is one, and
outside of any otherwise. -/
def take (s : Locked σ θ μ) (p : Party θ) (a : α) : Option (Locked σ θ μ) :=
  if s.phase p = .before (sys.guards s.base p) then
    (sys.machine.step s.base a).map fun base => { s with base := base }.execute p
  else none

/-- One move. -/
def lockStep (s : Locked σ θ μ) : LockLabel α θ μ → Option (Locked σ θ μ)
  | .lock p m =>
    if h : s.phase p = .outside ∧ s.owner m = none ∧ s.moves p = true ∧
        sys.wants s.base p m = true then
      some (s.enter p m h.1 h.2.1)
    else none
  | .step a =>
    match sys.party a with
    | none => (sys.machine.step s.base a).map fun base => { s with base := base }
    | some p => if s.moves p then sys.take s p a else none
  | .call t =>
    match s.phase (.thread t) with
    | .entered m =>
      if s.moves (.thread t) ∧ sys.calls s.base t m then some (s.execute (.thread t)) else none
    | _ => none
  | .unlock p =>
    match s.phase p with
    | .executed _ => if s.moves p then some (s.leave p) else none
    | _ => none
  | .interrupt t =>
    if s.host = none then
      (sys.machine.step s.base sys.entry).map fun base =>
        { s with base := base, host := some t }
    else none
  | .resume =>
    if s.phase .handler = .outside ∧ sys.returned s.base then some { s with host := none }
    else none

/-- The machine with its mutexes and its handler. -/
def locked : Machine (Locked σ θ μ) (LockLabel α θ μ) where
  start := .initial sys.machine.start
  step := sys.lockStep

variable {sys}

/-- The moves. -/
inductive Move (sys : Sections σ α θ μ) (s : Locked σ θ μ) :
    LockLabel α θ μ → Locked σ θ μ → Prop where
  | lock {p : Party θ} {m : μ} (outside : s.phase p = .outside) (free : s.owner m = none)
      (moves : s.moves p = true) (wants : sys.wants s.base p m = true) :
      Move sys s (.lock p m) (s.enter p m outside free)
  | nobody {a : α} {base : σ} (party : sys.party a = none)
      (step : sys.machine.step s.base a = some base) : Move sys s (.step a) { s with base := base }
  | step {p : Party θ} {a : α} {base : σ} (party : sys.party a = some p)
      (moves : s.moves p = true) (phase : s.phase p = .before (sys.guards s.base p))
      (step : sys.machine.step s.base a = some base) :
      Move sys s (.step a) ({ s with base := base }.execute p)
  | call {t : θ} (moves : s.moves (.thread t) = true) :
      Move sys s (.call t) (s.execute (.thread t))
  | unlock {p : Party θ} {m : μ} (moves : s.moves p = true) (phase : s.phase p = .executed m) :
      Move sys s (.unlock p) (s.leave p)
  | interrupt {t : θ} {base : σ} (idle : s.host = none)
      (step : sys.machine.step s.base sys.entry = some base) :
      Move sys s (.interrupt t) { s with base := base, host := some t }
  | resume (outside : s.phase .handler = .outside) (returned : sys.returned s.base = true) :
      Move sys s .resume { s with host := none }

theorem lockStep_move {l : LockLabel α θ μ} (hs : sys.lockStep s l = some s') :
    Move sys s l s' := by
  cases l with
  | lock p m =>
    simp only [lockStep] at hs
    split at hs
    case isFalse => cases hs
    case isTrue h =>
      cases hs
      exact .lock h.1 h.2.1 h.2.2.1 h.2.2.2
  | step a =>
    simp only [lockStep] at hs
    split at hs
    case h_1 party =>
      obtain ⟨base, step, rfl⟩ := Option.map_eq_some_iff.mp hs
      exact .nobody party step
    case h_2 p party =>
      split at hs
      case isFalse => cases hs
      case isTrue moves =>
        unfold take at hs
        split at hs
        case isFalse => cases hs
        case isTrue phase =>
          obtain ⟨base, step, rfl⟩ := Option.map_eq_some_iff.mp hs
          exact .step party moves phase step
  | call t =>
    simp only [lockStep] at hs
    split at hs
    case h_2 => cases hs
    case h_1 m phase =>
      split at hs
      case isFalse => cases hs
      case isTrue ok =>
        cases hs
        exact .call ok.1
  | unlock p =>
    simp only [lockStep] at hs
    split at hs
    case h_2 => cases hs
    case h_1 m phase =>
      split at hs
      case isFalse => cases hs
      case isTrue moves =>
        cases hs
        exact .unlock moves phase
  | interrupt t =>
    simp only [lockStep] at hs
    split at hs
    case isFalse => cases hs
    case isTrue idle =>
      obtain ⟨base, step, rfl⟩ := Option.map_eq_some_iff.mp hs
      exact .interrupt idle step
  | resume =>
    simp only [lockStep] at hs
    split at hs
    case isFalse => cases hs
    case isTrue ok =>
      cases hs
      exact .resume ok.1 ok.2

/-- A party that may move, and has locked what it needs, takes its step. -/
theorem lockStep_step {p : Party θ} {a : α} {base : σ} (party : sys.party a = some p)
    (moves : s.moves p = true) (phase : s.phase p = .before (sys.guards s.base p))
    (step : sys.machine.step s.base a = some base) :
    sys.lockStep s (.step a) = some ({ s with base := base }.execute p) := by
  simp only [lockStep, party, moves, take, phase, step]
  rfl

/-- What only the handler's steps change stands still while there is no handler. -/
theorem Move.kept {τ : Type y} {f : σ → τ}
    (keeps : ∀ s s' a, sys.machine.step s a = some s' → sys.party a ≠ some .handler → f s' = f s)
    {l : LockLabel α θ μ} (h : Move sys s l s') (host : s'.host = none) : f s'.base = f s.base := by
  cases h with
  | nobody party step => exact keeps _ _ _ step (by simp [party])
  | step party moves _ step =>
    have other := Locked.not_handler_of_moves moves host
    exact keeps _ _ _ step (by simp [party, other.symm])
  | interrupt => cases host
  | _ => rfl

/-- While there is no handler it is in no section. -/
theorem handler_outside {ok : Locked σ θ μ → LockLabel α θ μ → Prop}
    (r : sys.locked.Reach ok s) (host : s.host = none) : s.phase .handler = .outside := by
  induction r with
  | start => rfl
  | @step s s' l _ _ hs ih =>
    cases lockStep_move hs with
    | lock outside free moves =>
      rw [Locked.phase_enter outside free (Locked.not_handler_of_moves moves host)]
      exact ih host
    | step _ moves =>
      rw [Locked.phase_execute _ (Locked.not_handler_of_moves moves host)]
      exact ih host
    | call moves =>
      rw [Locked.phase_execute _ (Locked.not_handler_of_moves moves host)]
      exact ih host
    | unlock moves =>
      rw [Locked.phase_leave _ (Locked.not_handler_of_moves moves host)]
      exact ih host
    | nobody => exact ih host
    | interrupt => cases host
    | resume outside => exact outside

/-! ## A handler that waits for its own thread -/

/-- The handler is about to lock a mutex that the thread it interrupted holds. -/
def SelfWait (sys : Sections σ α θ μ) (s : Locked σ θ μ) : Prop :=
  ∃ t m, s.host = some t ∧ s.phase .handler = .outside ∧
    sys.guards s.base .handler = some m ∧ s.owner m = some (.thread t)

/-- The condition on the state before a step: an interrupted thread holds none of
the mutexes listed. -/
def Spares (taken : List μ) (s : Locked σ θ μ) : LockLabel α θ μ → Prop
  | .interrupt t => ∀ m ∈ taken, s.owner m ≠ some (.thread t)
  | _ => True

instance (taken : List μ) (s : Locked σ θ μ) :
    ∀ l : LockLabel α θ μ, Decidable (Spares taken s l)
  | .interrupt t => inferInstanceAs (Decidable (∀ m ∈ taken, s.owner m ≠ some (.thread t)))
  | .lock .. | .step _ | .call _ | .unlock _ | .resume => isTrue trivial

/-- A mutex that a thread holds after a step it held before, or locked. -/
theorem Move.owner_thread {l : LockLabel α θ μ} (h : Move sys s l s') {t : θ} {m : μ}
    (owner : s'.owner m = some (.thread t)) :
    s.owner m = some (.thread t) ∨ s.moves (.thread t) = true ∧ s'.host = s.host := by
  cases h with
  | @lock p m' outside free moves =>
    change Function.update s.owner m' (some p) m = some (.thread t) at owner
    by_cases hm : m = m'
    · rw [hm, Function.update_self, Option.some.injEq] at owner
      exact .inr ⟨owner ▸ moves, rfl⟩
    · rw [Function.update_of_ne hm] at owner
      exact .inl owner
  | @unlock p =>
    change (if s.owner m = some p then none else s.owner m) = some (.thread t) at owner
    split at owner
    · cases owner
    · exact .inl owner
  | _ => exact .inl owner

/-- While the handler runs, its thread holds none of the mutexes listed. -/
theorem host_spared {taken : List μ} (r : sys.locked.Reach (Spares taken) s) {t : θ} {m : μ}
    (host : s.host = some t) (hm : m ∈ taken) : s.owner m ≠ some (.thread t) := by
  induction r with
  | start => cases host
  | @step s s' l _ ok hs ih =>
    intro owner
    have move := lockStep_move hs
    rcases move.owner_thread owner with old | ⟨moves, same⟩
    · cases move with
      | interrupt idle =>
        cases host
        exact ok m hm old
      | resume => cases host
      | _ => exact ih host old
    · rw [same] at host
      simp [Locked.moves, host] at moves

/-- A handler that takes only the mutexes listed never waits for its own thread, if
no thread is interrupted while it holds one of them. -/
theorem not_selfWait_of_spares {taken : List μ}
    (takes : ∀ s m, sys.guards s .handler = some m → m ∈ taken)
    (r : sys.locked.Reach (Spares taken) s) : ¬ sys.SelfWait s := by
  intro ⟨t, m, host, _, guards, owner⟩
  exact host_spared r host (takes _ _ guards) owner

/-- Nobody else changes what the handler is about to lock, and a handler that is
through locks nothing. -/
structure Lawful (sys : Sections σ α θ μ) : Prop where
  keeps : ∀ s s' a, sys.machine.step s a = some s' → sys.party a ≠ some .handler →
    sys.guards s' .handler = sys.guards s .handler
  through : ∀ s, sys.returned s = true → sys.guards s .handler = none

/-- A handler that waits for its own thread goes on waiting. -/
theorem SelfWait.step (lawful : sys.Lawful) {l : LockLabel α θ μ} (h : sys.SelfWait s)
    (hs : sys.lockStep s l = some s') : sys.SelfWait s' := by
  obtain ⟨t, m, host, outside, guards, owner⟩ := h
  -- the thread stands still
  have still : ∀ p, s.moves p = true → p ≠ .thread t := by
    intro p moves hp
    simp [hp, Locked.moves, host] at moves
  cases lockStep_move hs with
  | @lock p m' _ free moves wants =>
    have hm : m ≠ m' := by
      intro hm
      rw [hm, free] at owner
      cases owner
    have hp : Party.handler ≠ p := by
      intro hp
      simp [← hp, Sections.wants, guards, hm] at wants
    refine ⟨t, m, host, ?_, guards, ?_⟩
    · rw [Locked.phase_enter _ _ hp, outside]
    · rw [Locked.owner_enter _ _ hm, owner]
  | nobody party step =>
    refine ⟨t, m, host, outside, ?_, owner⟩
    exact (lawful.keeps _ _ _ step (by simp [party])).trans guards
  | @step p a base party moves phase step =>
    have hp : p ≠ .handler := by
      intro hp
      rw [hp, outside, guards] at phase
      cases phase
    refine ⟨t, m, host, ?_, ?_, owner⟩
    · rw [Locked.phase_execute _ hp.symm]
      exact outside
    · exact (lawful.keeps _ _ _ step (by simp [party, hp])).trans guards
  | @call t' =>
    refine ⟨t, m, host, ?_, guards, owner⟩
    rw [Locked.phase_execute _ (by simp), outside]
  | @unlock p m' moves phase =>
    have hp : Party.handler ≠ p := by
      intro hp
      rw [← hp, outside] at phase
      cases phase
    refine ⟨t, m, host, ?_, guards, ?_⟩
    · rw [Locked.phase_leave _ hp, outside]
    · show (if s.owner m = some p then none else s.owner m) = some (.thread t)
      rw [if_neg, owner]
      intro same
      exact still p moves (Option.some.inj (same.symm.trans owner))
  | interrupt idle =>
    rw [idle] at host
    cases host
  | resume _ returned =>
    rw [lawful.through _ returned] at guards
    cases guards

/-- Nothing ends the wait. -/
theorem SelfWait.forever (lawful : sys.Lawful) {ls : List (LockLabel α θ μ)}
    (h : sys.SelfWait s) (hs : sys.locked.exec s ls = some s') : sys.SelfWait s' := by
  induction ls generalizing s with
  | nil =>
    cases hs
    exact h
  | cons l ls ih =>
    obtain ⟨u, step, rest⟩ := Option.bind_eq_some_iff.mp hs
    exact ih (h.step lawful step) rest

end Sections

end WebServer
