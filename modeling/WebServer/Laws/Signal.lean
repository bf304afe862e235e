import WebServer.Laws.Pool.Serving
import WebServer.Laws.Reactor.Tables
import WebServer.Pool.Sections
import WebServer.Reactor.Sections
/-! # A signal in a critical section

`handleSignal` calls `stop()` on the thread it interrupts. In reactor mode `stop()`
takes no mutex. In pool mode it takes `connectionsMutex`, so it waits for its own
thread, and for ever, when it has interrupted one that holds it; and only then
(`handleSignal_spares`). The accept thread inserting a connection is such a thread
(`handleSignal_selfWaits`).
-/

namespace WebServer

namespace Pool

variable {n : Nat} {cfg : Config}

/-- Only `stop()` moves on in `stop()`. -/
theorem step_stopper {s s' : State n} {l : Label n} (hs : step cfg s l = some s')
    (other : l.party ≠ some .handler) : s'.stopper = s.stopper := by
  cases l with
  | tick elapsed =>
    cases hs
    rfl
  | accepter c =>
    cases acceptStep_move hs with
    | closing pc call | closed pc call => exact (closeConnection_frame call).2.2.1
    | _ => rfl
  | worker w c =>
    cases workerStep_move hs with
    | closing pc call | closed pc call => exact (closeConnection_frame call).2.2.1
    | _ => rfl
  | stopper c => exact absurd rfl other

theorem sections_lawful (n : Nat) (cfg : Config) : (sections n cfg).Lawful where
  keeps _ _ _ hs other := congrArg StopPc.guard (step_stopper hs other)
  through s returned := by
    have done : s.stopper = .done := of_decide_eq_true returned
    simp [sections, guards, done, StopPc.guard]

/-- The one mutex that `stop()` takes. -/
theorem stop_takes (s : State n) (mutex : Mutex)
    (h : (sections n cfg).guards s .handler = some mutex) : mutex ∈ [Mutex.connections] := by
  change s.stopper.guard = some mutex at h
  unfold StopPc.guard at h
  split at h <;> cases h
  exact List.mem_singleton_self _

/-- While the handler does not run, `stop()` has not begun or is over. -/
theorem stopper_of_host {s : Locked (State n) (Host n) Mutex}
    (r : (sections n cfg).locked.Reachable s) (host : s.host = none) :
    s.base.stopper = .idle ∨ s.base.stopper = .done := by
  induction r with
  | start => exact .inl rfl
  | @step s s' l _ _ hs ih =>
    have move := Sections.lockStep_move hs
    have kept := move.kept (fun _ _ _ => step_stopper) host
    cases move with
    | interrupt => cases host
    | resume _ returned => exact .inr (of_decide_eq_true returned)
    | _ =>
      rw [kept]
      exact ih host

/-- On a thread that holds `connectionsMutex`, the second step of `stop()` is its
last. -/
theorem selfWait_of_interrupt {s s' : Locked (State n) (Host n) Mutex} {t : Host n}
    (r : (sections n cfg).locked.Reachable s)
    (hs : (sections n cfg).lockStep s (.interrupt t) = some s')
    (owner : s.owner .connections = some (.thread t)) :
    ∃ u, (sections n cfg).lockStep s' (.step (.stopper .go)) = some u ∧
      (sections n cfg).SelfWait u := by
  cases Sections.lockStep_move hs with
  | @interrupt t base idle enters =>
    change stopStep s.base .go = some base at enters
    have wake : base.stopper = .wake := by
      rcases stopper_of_host r idle with pc | pc
      · simp only [stopStep, pc] at enters
        split at enters <;> cases enters
        rfl
      · simp [stopStep, pc] at enters
    have outside := Sections.handler_outside r idle
    have wakes : stopStep base .go =
        some { base with stopSignal := true, stopper := .clear } := by
      simp [stopStep, wake]
    refine ⟨_, Sections.lockStep_step rfl rfl ?_ wakes, ?_⟩
    · simp [outside, sections, guards, wake, StopPc.guard, Phase.before]
    · refine ⟨t, .connections, rfl, ?_, rfl, owner⟩
      simp [Locked.execute, outside, Phase.execute]

end Pool

/-- In pool mode, in every run in which no signal interrupts a thread that holds
`connectionsMutex`, `stop()` never waits for a mutex of the thread it runs on; an
interruption that does find the thread with it makes `stop()` wait from its next
step on, whatever happens. In reactor mode `stop()` never waits for one. -/
theorem handleSignal_spares (n m : Nat) (poolCfg : Pool.Config) (cfg : Reactors.Config m)
    (s : Locked (Pool.State n) (Pool.Host n) Mutex)
    (r : Locked (Reactors.State m) (Reactors.Host m) Mutex) :
    ((Pool.sections n poolCfg).locked.Reach (Sections.Spares [.connections]) s →
        ¬ (Pool.sections n poolCfg).SelfWait s) ∧
      (∀ t s', (Pool.sections n poolCfg).locked.Reachable s →
        (Pool.sections n poolCfg).lockStep s (.interrupt t) = some s' →
        s.owner .connections = some (.thread t) →
        ∃ u, (Pool.sections n poolCfg).lockStep s' (.step (.stopper .go)) = some u ∧
          ∀ ls v, (Pool.sections n poolCfg).locked.exec u ls = some v →
            (Pool.sections n poolCfg).SelfWait v) ∧
      ((Reactors.sections m cfg).locked.Reachable r → ¬ (Reactors.sections m cfg).SelfWait r) := by
  refine ⟨Sections.not_selfWait_of_spares Pool.stop_takes, ?_, ?_⟩
  · intro t s' reach hs owner
    obtain ⟨u, next, wait⟩ := Pool.selfWait_of_interrupt reach hs owner
    exact ⟨u, next, fun _ _ => wait.forever (Pool.sections_lawful n poolCfg)⟩
  · intro _ ⟨_, _, _, _, guards, _⟩
    cases guards

/-! ## Signals that are handled, and one that is not -/

namespace Pool

/-- The accept thread inserts a client. -/
def insertsSix : List (LockLabel (Label 1) (Host 1) Mutex) :=
  [.step (.accepter .go), .step (.accepter (.ready [connecting])), .step (.accepter .go),
    .step (.accepter (.accepted 6)), .lock (.thread .accepter) .connections]

/-- The client was registered and has sent something, which the accept thread is
about to queue. -/
def pushesSix : List (LockLabel (Label 1) (Host 1) Mutex) :=
  insertsSix ++
    [.step (.accepter .go), .unlock (.thread .accepter), .step (.accepter .go),
      .step (.accepter (.ctlAdd true)), .step (.accepter .refused), .step (.accepter .go),
      .step (.accepter .go), .step (.accepter .go), .step (.accepter (.ready [firstReadable])),
      .lock (.thread .accepter) .queue]

/-- The state in which the first signal interrupts the accept thread. -/
def inserting : Locked (State 1) (Host 1) Mutex :=
  ((sections 1 {}).locked.exec (sections 1 {}).locked.start insertsSix).get (by decide +kernel)

/-- The state in which the signal has interrupted it, and `stop()` has begun. -/
def insertInterrupted : Locked (State 1) (Host 1) Mutex :=
  ((sections 1 {}).lockStep inserting (.interrupt .accepter)).get (by decide +kernel)

/-- The accept thread is interrupted before its push, and `stop()` goes on to its
section. -/
def pushInterrupted : Locked (State 1) (Host 1) Mutex :=
  ((sections 1 {}).locked.exec (sections 1 {}).locked.start
    (pushesSix ++ [.interrupt .accepter, .step (.stopper .go)])).get (by decide +kernel)

end Pool

/-- The main thread of two reactors is interrupted while it logs. -/
def Reactors.logInterrupted : Locked (Reactors.State 2) (Reactors.Host 2) Mutex :=
  ((Reactors.sections 2 Reactors.pair).locked.exec
    (Reactors.sections 2 Reactors.pair).locked.start
    [.lock (.thread .main) .log, .interrupt .main, .step .stopper]).get (by decide +kernel)

/-- A signal that finds `queueMutex` or `logMutex` locked does no harm. One that
finds `connectionsMutex` locked does. -/
theorem handleSignal_spares_six :
    (Pool.pushInterrupted.owner .queue = some (.thread .accepter) ∧
        ¬ (Pool.sections 1 {}).SelfWait Pool.pushInterrupted) ∧
      (Reactors.logInterrupted.owner .log = some (.thread .main) ∧
        ¬ (Reactors.sections 2 Reactors.pair).SelfWait Reactors.logInterrupted) ∧
      ∃ u, (Pool.sections 1 {}).lockStep Pool.insertInterrupted (.step (.stopper .go)) = some u ∧
        ∀ ls v, (Pool.sections 1 {}).locked.exec u ls = some v →
          (Pool.sections 1 {}).SelfWait v := by
  obtain ⟨spared, -, reactors⟩ :=
    handleSignal_spares 1 2 {} Reactors.pair Pool.pushInterrupted Reactors.logInterrupted
  obtain ⟨-, waits, -⟩ :=
    handleSignal_spares 1 2 {} Reactors.pair Pool.inserting Reactors.logInterrupted
  refine ⟨⟨by decide +kernel, spared ?_⟩, ⟨by decide +kernel, reactors ?_⟩, ?_⟩
  · exact .of_exec .start (by decide +kernel) (Option.some_get _).symm
  · exact .of_exec (Option.some_get _).symm
  · exact waits .accepter Pool.insertInterrupted (.of_exec (Option.some_get _).symm)
      (Option.some_get _).symm (by decide +kernel)

/-- Where `stop()` waits for the accept thread, on the accept thread. -/
def Pool.selfWaiting : Locked (Pool.State 1) (Pool.Host 1) Mutex :=
  ((Pool.sections 1 {}).locked.exec (Pool.sections 1 {}).locked.start
    (Pool.insertsSix ++ [.interrupt .accepter, .step (.stopper .go)])).get (by decide +kernel)

/-- A signal that arrives while the accept thread inserts a client makes `stop()`
wait for `connectionsMutex` on the thread that holds it. -/
theorem handleSignal_selfWaits :
    ¬ ((∀ (n : Nat) (cfg : Pool.Config) (s : Locked (Pool.State n) (Pool.Host n) Mutex),
          (Pool.sections n cfg).locked.Reachable s → ¬ (Pool.sections n cfg).SelfWait s) ∧
        ∀ (m : Nat) (cfg : Reactors.Config m)
          (r : Locked (Reactors.State m) (Reactors.Host m) Mutex),
          (Reactors.sections m cfg).locked.Reachable r →
            ¬ (Reactors.sections m cfg).SelfWait r) := by
  intro ⟨pool, _⟩
  apply pool 1 {} Pool.selfWaiting (.of_exec (Option.some_get _).symm)
  exact ⟨.accepter, .connections, by decide +kernel⟩

end WebServer
