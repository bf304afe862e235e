import WebServer.Pool.Waiting
import WebServer.Laws.Pool.Moves
/-! # Whether shutdown wakes the workers

A worker that found the predicate false holds `queueMutex` until it blocks, but
`running` is cleared, and `notify_all` called, without the mutex. So both calls can
fall between the test and the block, and then nobody wakes the worker again
(`not_awake`). That is the only way: `awake_iff` says that a run in which the later
of the two calls finds no worker there leaves nobody blocked, and that any other
run is one step away from a worker that sleeps for ever.
-/

namespace WebServer.Pool

variable {n : Nat} {cfg : Config} {s s' : Waiting n}

/-- Shutdown has said all it has to say, there is nothing to do, and a worker is
blocked: `run()` waits for it. -/
def Waiting.Asleep (s : Waiting n) : Prop :=
  s.pool.running = false ∧ s.pool.workQueue = [] ∧ s.stopNotified = true ∧
    s.runNotified = true ∧ ∃ w, s.stage w = .blocked

/-- The condition under which nobody sleeps through shutdown, on the state before a
step: when the later of the two `notify_all` is called, no worker is between its
test and its block. -/
def Heeded (s : Waiting n) : WaitLabel n → Prop
  | .stopNotify => s.runNotified = true → s.mutexFree = true
  | .runNotify => s.stopNotified = true → s.mutexFree = true
  | _ => True

instance (s : Waiting n) : ∀ l, Decidable (Heeded s l)
  | .stopNotify => inferInstanceAs (Decidable (s.runNotified = true → s.mutexFree = true))
  | .runNotify => inferInstanceAs (Decidable (s.stopNotified = true → s.mutexFree = true))
  | .pool _ | .test _ | .block _ | .spurious _ | .notifyOne _ => isTrue trivial

theorem Waiting.mutexFree_iff : s.mutexFree = true ↔ ∀ w, s.stage w ≠ .tested :=
  decide_eq_true_iff

/-- The moves of the loop with its waits. -/
inductive WaitMove (cfg : Config) (s : Waiting n) : WaitLabel n → Waiting n → Prop where
  | pool {l : Label n} {pool : State n} {owes : Bool} (allowed : s.allows cfg l = true)
      (step : step cfg s.pool l = some pool) :
      WaitMove cfg s (.pool l) { s with pool := pool, owesNotify := owes }
  | test {w : Fin n} (free : s.mutexFree = true) (queue : s.pool.workQueue = [])
      (running : s.pool.running = true) : WaitMove cfg s (.test w) (s.setStage w .tested)
  | block {w : Fin n} (tested : s.stage w = .tested) :
      WaitMove cfg s (.block w) (s.setStage w .blocked)
  | spurious {w : Fin n} : WaitMove cfg s (.spurious w) (s.setStage w .away)
  | notifyOne {w : Fin n} :
      WaitMove cfg s (.notifyOne (some w)) ({ s with owesNotify := false }.setStage w .away)
  | notifyNobody : WaitMove cfg s (.notifyOne none) { s with owesNotify := false }
  | stopNotify (pc : s.pool.stopper = .clear) :
      WaitMove cfg s .stopNotify { s.notifyAll with stopNotified := true }
  | runNotify : WaitMove cfg s .runNotify { s.notifyAll with runNotified := true }

/-- A step is one of the moves. -/
theorem waitStep_move {l : WaitLabel n} (hs : waitStep cfg s l = some s') :
    WaitMove cfg s l s' := by
  cases l with
  | pool l =>
    simp only [waitStep] at hs
    split at hs
    case isFalse => cases hs
    case isTrue allowed =>
      obtain ⟨pool, step, rfl⟩ := Option.map_eq_some_iff.mp hs
      exact .pool allowed step
  | test w =>
    simp only [waitStep] at hs
    split at hs
    case isFalse => cases hs
    case isTrue ok =>
      cases hs
      exact .test ok.2.2.1 ok.2.2.2.1 ok.2.2.2.2
  | block w =>
    simp only [waitStep] at hs
    split at hs
    case isFalse => cases hs
    case isTrue tested =>
      cases hs
      exact .block tested
  | spurious w =>
    simp only [waitStep] at hs
    split at hs <;> cases hs
    exact .spurious
  | notifyOne target =>
    simp only [waitStep] at hs
    split at hs
    case isFalse => cases hs
    case isTrue =>
      split at hs <;> split at hs <;> cases hs
      · exact .notifyNobody
      · exact .notifyOne
  | stopNotify =>
    simp only [waitStep] at hs
    split at hs
    case isFalse => cases hs
    case isTrue ok =>
      cases hs
      exact .stopNotify ok.1
  | runNotify =>
    simp only [waitStep] at hs
    split at hs <;> cases hs
    exact .runNotify

/-- What the loop does with its waits it can do without. -/
theorem pool_of_waiting {ok : Waiting n → WaitLabel n → Prop} (r : (waiting n cfg).Reach ok s) :
    (loop n cfg).Reachable s.pool := by
  induction r with
  | start => exact .start
  | step _ _ hs ih =>
    cases waitStep_move hs with
    | pool _ step => exact .step ih trivial step
    | _ => exact ih

/-! ## What the loop's own steps leave alone -/

/-- `stop()` does not go back, and nobody sets `running` again. -/
theorem step_stopped {s s' : State n} {l : Label n} (hs : step cfg s l = some s')
    (h : s.stopper ≠ .idle → s.running = false) :
    (s.stopper ≠ .idle → s'.stopper ≠ .idle) ∧ (s'.stopper ≠ .idle → s'.running = false) := by
  -- a step that leaves both alone
  have still : s'.stopper = s.stopper → s'.running = s.running →
      (s.stopper ≠ .idle → s'.stopper ≠ .idle) ∧ (s'.stopper ≠ .idle → s'.running = false) := by
    intro stopper running
    rw [stopper, running]
    exact ⟨id, h⟩
  cases l with
  | tick elapsed =>
    cases hs
    exact still rfl rfl
  | accepter c =>
    cases acceptStep_move hs with
    | stopEvent => exact ⟨id, fun _ => rfl⟩
    | closing pc call | closed pc call =>
      exact still (closeConnection_frame call).2.2.1 (closeConnection_flags call).2.2.2.1
    | _ => exact still rfl rfl
  | worker w c =>
    cases workerStep_move hs with
    | closing pc call | closed pc call =>
      exact still (closeConnection_frame call).2.2.1 (closeConnection_flags call).2.2.2.1
    | _ => exact still rfl rfl
  | stopper c =>
    cases stopStep_move hs with
    | begin => exact ⟨fun _ => by simp, fun _ => rfl⟩
    | closedAll pc =>
      refine ⟨?_, fun _ => h (by simp [pc])⟩
      intro _
      simp only
      split <;> simp
    | _ pc => exact ⟨fun _ => by simp, fun _ => h (by simp [pc])⟩

/-- Once `stop()` has begun, `running` is false. -/
theorem stopped_of_reach {s : State n} {ok : State n → Label n → Prop}
    (r : (loop n cfg).Reach ok s) : s.stopper ≠ .idle → s.running = false :=
  r.invariant (I := fun s => s.stopper ≠ .idle → s.running = false)
    (fun h => absurd rfl h) fun _ _ _ h _ hs => (step_stopped hs h).2

/-- Only a push, or a worker at the queue, changes the queue. -/
theorem step_queue {s s' : State n} {l : Label n} (hs : step cfg s l = some s')
    (push : ∀ c, l = .accepter c → pushes cfg s c = false)
    (take : ∀ w c, l = .worker w c → s.workers w ≠ .idle) : s'.workQueue = s.workQueue := by
  cases l with
  | tick elapsed =>
    cases hs
    rfl
  | accepter c =>
    cases acceptStep_move hs with
    | push pc notStop notListen =>
      have := push _ rfl
      simp [pushes, pc, notStop, notListen] at this
    | closing pc call | closed pc call => exact (closeConnection_flags call).1
    | _ => rfl
  | worker w c =>
    have busy := take w c rfl
    cases workerStep_move hs with
    | exit pc => exact absurd pc busy
    | take pc => exact absurd pc busy
    | closing pc call | closed pc call => exact (closeConnection_flags call).1
    | _ => rfl
  | stopper c => cases stopStep_move hs <;> rfl

/-! ## What every step keeps -/

/-- The invariant of all runs: `stop()` notifies when it has begun, and while a
worker is between its test and its block the queue stays as the test found it. -/
structure Watched (s : Waiting n) : Prop where
  notified : s.stopNotified = true → s.pool.stopper ≠ .idle
  held : ∀ w, s.stage w = .tested → s.pool.workQueue = []

theorem watched_initial (n : Nat) (cfg : Config) : Watched (Waiting.initial n cfg) := by
  constructor <;> simp [Waiting.initial]

/-- A worker that moves to a stage holds the mutex after it only if it goes to the
test. -/
theorem Waiting.setStage_tested {w w' : Fin n} {stage : Stage}
    (h : (s.setStage w stage).stage w' = .tested) : stage = .tested ∨ s.stage w' = .tested := by
  simp only [Waiting.setStage, Function.update_apply] at h
  split at h
  · exact .inl h
  · exact .inr h

/-- Who is woken was blocked, so `notify_all` passes over a worker that holds the
mutex. -/
theorem Waiting.notifyAll_tested {w : Fin n} :
    s.notifyAll.stage w = .tested ↔ s.stage w = .tested := by
  simp only [Waiting.notifyAll]
  split
  case isTrue blocked => simp [blocked]
  case isFalse => exact Iff.rfl

theorem Watched.step (h : Watched s) (stopped : s.pool.stopper ≠ .idle → s.pool.running = false)
    {l : WaitLabel n} (hs : waitStep cfg s l = some s') : Watched s' := by
  cases waitStep_move hs with
  | @pool l pool owes allowed step =>
    constructor
    · intro done
      exact (step_stopped step stopped).1 (h.notified done)
    · intro w tested
      have locked : s.mutexFree = false := by
        rw [Bool.eq_false_iff, ne_eq, Waiting.mutexFree_iff]
        exact fun free => free w tested
      have same : pool.workQueue = s.pool.workQueue := by
        refine step_queue step ?_ ?_
        · rintro c rfl
          simp only [Waiting.allows, locked, Bool.or_false, Bool.and_eq_true,
            Bool.not_eq_true'] at allowed
          exact allowed.2
        · rintro w' c rfl
          simpa [Waiting.allows, locked] using allowed
      exact same.trans (h.held w tested)
  | test free queue running => exact ⟨h.notified, fun _ _ => queue⟩
  | block | spurious | notifyOne =>
    refine ⟨h.notified, ?_⟩
    intro w' tested
    rcases Waiting.setStage_tested tested with stage | tested
    · cases stage
    · exact h.held w' tested
  | notifyNobody => exact ⟨h.notified, h.held⟩
  | stopNotify pc =>
    refine ⟨fun _ => ?_, fun w tested => h.held w (Waiting.notifyAll_tested.mp tested)⟩
    simp [Waiting.notifyAll, pc]
  | runNotify => exact ⟨h.notified, fun w tested => h.held w (Waiting.notifyAll_tested.mp tested)⟩

theorem watched_of_reach {ok : Waiting n → WaitLabel n → Prop}
    (r : (waiting n cfg).Reach ok s) : Watched s := by
  induction r with
  | start => exact watched_initial n cfg
  | step r _ hs ih => exact ih.step (stopped_of_reach (pool_of_waiting r)) hs

/-- After both calls everybody is awake. -/
def Roused (s : Waiting n) : Prop :=
  s.stopNotified = true → s.runNotified = true → ∀ w, s.stage w = .away

/-- `notify_all` leaves nobody in the wait when nobody holds the mutex. -/
theorem Waiting.notifyAll_away (free : s.mutexFree = true) (w : Fin n) :
    s.notifyAll.stage w = .away := by
  simp only [Waiting.notifyAll]
  split
  · rfl
  · have := Waiting.mutexFree_iff.mp free w
    cases hst : s.stage w <;> simp_all

theorem Roused.step (h : Roused s) (watched : Watched s)
    (stopped : s.pool.stopper ≠ .idle → s.pool.running = false) {l : WaitLabel n}
    (ok : Heeded s l) (hs : waitStep cfg s l = some s') : Roused s' := by
  intro stop run
  cases waitStep_move hs with
  | pool => exact h stop run
  | test _ _ running =>
    rw [stopped (watched.notified stop)] at running
    cases running
  | block tested =>
    rw [h stop run] at tested
    cases tested
  | spurious | notifyOne =>
    intro w'
    simp only [Waiting.setStage, Function.update_apply]
    split
    · rfl
    · exact h stop run w'
  | notifyNobody => exact h stop run
  | stopNotify => exact Waiting.notifyAll_away (ok run)
  | runNotify => exact Waiting.notifyAll_away (ok stop)

theorem roused_of_reach (r : (waiting n cfg).Reach Heeded s) : Roused s := by
  induction r with
  | start => exact fun stop => by cases stop
  | step r ok hs ih =>
    exact ih.step (watched_of_reach r) (stopped_of_reach (pool_of_waiting r)) ok hs

/-! ## The law -/

/-- In runs in which the later `notify_all` finds nobody between test and block,
nobody sleeps through shutdown; and where it finds somebody, that worker's block is
enough for it to sleep for ever. -/
theorem awake_iff (n : Nat) (cfg : Config) :
    (∀ s : Waiting n, (waiting n cfg).Reach Heeded s → ¬ s.Asleep) ∧
      ∀ (s s' : Waiting n) (l : WaitLabel n), (waiting n cfg).Reachable s →
        waitStep cfg s l = some s' → ¬ Heeded s l →
          ∃ w s'', waitStep cfg s' (.block w) = some s'' ∧ s''.Asleep := by
  constructor
  · rintro s r ⟨-, -, stop, run, w, blocked⟩
    rw [roused_of_reach r stop run w] at blocked
    cases blocked
  · intro s s' l r hs crossed
    have watched := watched_of_reach r
    have stopped := stopped_of_reach (pool_of_waiting r)
    -- some worker holds the mutex, and blocks after the call has passed
    have blocks : s.mutexFree = false → s'.stage = s.notifyAll.stage → s'.pool = s.pool →
        s.pool.running = false → s'.stopNotified = true → s'.runNotified = true →
        ∃ w s'', waitStep cfg s' (.block w) = some s'' ∧ s''.Asleep := by
      intro locked stage pool running stop run
      rw [Bool.eq_false_iff, ne_eq, Waiting.mutexFree_iff] at locked
      push Not at locked
      obtain ⟨w, tested⟩ := locked
      have still : s'.stage w = .tested := by
        rw [stage]
        exact Waiting.notifyAll_tested.mpr tested
      refine ⟨w, s'.setStage w .blocked, by simp only [waitStep, still, if_true], ?_⟩
      refine ⟨?_, ?_, stop, run, w, Function.update_self ..⟩
      · exact (congrArg State.running pool).trans running
      · exact (congrArg State.workQueue pool).trans (watched.held w tested)
    cases waitStep_move hs with
    | stopNotify pc =>
      simp only [Heeded, Classical.not_imp, Bool.not_eq_true] at crossed
      exact blocks crossed.2 rfl rfl (stopped (by simp [pc])) rfl crossed.1
    | runNotify =>
      simp only [Heeded, Classical.not_imp, Bool.not_eq_true] at crossed
      exact blocks crossed.2 rfl rfl (stopped (watched.notified crossed.1)) crossed.1 rfl
    | _ => exact absurd trivial crossed

/-! ## Two shutdowns -/

/-- The eventfd was written. -/
def stopping : Event := { fd := 5, events := { epollin := true }, raisedFor := none }

/-- The worker blocks before `stop()` is called, is woken by it, and leaves; the
accept thread has seen the eventfd. -/
def wokenInTime : List (WaitLabel 1) :=
  [.test lone, .block lone, .pool (.accepter .go), .pool (.stopper .go), .pool (.stopper .go),
    .stopNotify, .pool (.worker lone .go), .pool (.accepter (.ready [stopping])),
    .pool (.accepter .go), .pool (.accepter .go), .pool (.accepter .go), .runNotify]

/-- Where that run ends. -/
def wokenInTimeEnd : Waiting 1 :=
  ((waiting 1 {}).exec (waiting 1 {}).start wokenInTime).get (by decide +kernel)

/-- Both calls were made, and the worker has left. -/
theorem awake_iff_wokenInTime :
    wokenInTimeEnd.stopNotified = true ∧ wokenInTimeEnd.runNotified = true ∧
      wokenInTimeEnd.pool.workers 0 = .exited ∧ ¬ wokenInTimeEnd.Asleep :=
  ⟨by decide +kernel, by decide +kernel, by decide +kernel,
    (awake_iff 1 {}).1 _ (.of_exec .start (by decide +kernel) (Option.some_get _).symm)⟩

/-- The worker has found nothing to do when `stop()` is called, and blocks when the
accept thread has left and both calls have passed. -/
def wokenTooEarly : List (WaitLabel 1) :=
  [.pool (.accepter .go), .test lone, .pool (.stopper .go), .pool (.stopper .go), .stopNotify,
    .pool (.accepter (.ready [stopping])), .pool (.accepter .go), .pool (.accepter .go),
    .pool (.accepter .go), .runNotify, .block lone]

/-- Where that run ends. -/
def wokenTooEarlyEnd : Waiting 1 :=
  ((waiting 1 {}).exec (waiting 1 {}).start wokenTooEarly).get (by decide +kernel)

/-- A worker can sleep through shutdown. -/
theorem not_awake : ¬ ∀ (n : Nat) (cfg : Config) (s : Waiting n),
    (waiting n cfg).Reachable s → ¬ s.Asleep := by
  intro awake
  refine awake 1 {} wokenTooEarlyEnd (.of_exec (Option.some_get _).symm) ?_
  exact ⟨by decide +kernel, by decide +kernel, by decide +kernel, by decide +kernel, 0,
    by decide +kernel⟩

end WebServer.Pool
