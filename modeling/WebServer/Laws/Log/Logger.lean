import WebServer.Log.Logger

/-!
# The logger loses nothing and repeats nothing

What was written, the line in the hands of the drain thread and the queue are the lines
pushed, in order (`Accounts`), and the thread leaves with an empty queue once nobody
calls any more. It never sleeps on a queue that has something in it, except until the
`notify_one` of a call that has pushed, and never through a shutdown, except until the
destructor's `notify_all` (`Heard`).
-/

namespace WebServer

open Base

namespace Logger

variable {n : Nat} {s s' : State n}

/-! ## What a step can do -/

/-- The moves of the logger. -/
inductive Move (s : State n) : Label n → State n → Prop where
  | log {thread : Fin n} {call : LogCall} (away : s.producers thread = .away)
      (alive : s.destructor = .idle) : Move s (.log thread call) (s.log thread call.line)
  | push {thread : Fin n} {line : Bytes} (pc : s.producers thread = .checked line)
      (free : s.drain ≠ .tested) :
      Move s (.push thread) ((s.push thread line).setProducer thread .pushed)
  | notifyOne {thread : Fin n} (pc : s.producers thread = .pushed) :
      Move s (.notifyOne thread) ({ s with drain := s.woken }.setProducer thread .away)
  | wait (pc : s.drain = .top) (empty : s.queue = []) (running : s.running = true) :
      Move s .test { s with drain := .tested }
  | leave (pc : s.drain = .top) (empty : s.queue = []) (stopped : s.running = false) :
      Move s .test { s with drain := .done }
  | pop {line : Bytes} {queue : List Bytes} (pc : s.drain = .top)
      (front : s.queue = line :: queue) : Move s .test { s with queue, drain := .popped line }
  | block (pc : s.drain = .tested) : Move s .block { s with drain := .blocked }
  | spurious (pc : s.drain = .blocked) : Move s .spurious { s with drain := .top }
  | write {line : Bytes} (pc : s.drain = .popped line) :
      Move s .write { s with drain := .top, written := s.written ++ [line] }
  | clear (alive : s.destructor = .idle) (returned : ∀ thread, s.producers thread = .away)
      (free : s.drain ≠ .tested) :
      Move s .clear { s with running := false, destructor := .cleared }
  | notifyAll (pc : s.destructor = .cleared) :
      Move s .notifyAll { s with drain := s.woken, destructor := .joining }
  | join (pc : s.destructor = .joining) (done : s.drain = .done) :
      Move s .join { s with destructor := .joined }

theorem State.mutexFree_iff : s.mutexFree = true ↔ s.drain ≠ .tested := decide_eq_true_iff

/-- A step is one of the moves. -/
theorem step_move {l : Label n} (hs : step s l = some s') : Move s l s' := by
  cases l with
  | log thread call =>
    simp only [step] at hs
    split at hs <;> cases hs
    next h => exact .log h.1 h.2
  | push thread =>
    simp only [step] at hs
    split at hs
    next line pc =>
      split at hs <;> cases hs
      next free => exact .push pc (State.mutexFree_iff.mp free)
    next => cases hs
  | notifyOne thread =>
    simp only [step] at hs
    split at hs <;> cases hs
    next pc => exact .notifyOne pc
  | test =>
    simp only [step] at hs
    split at hs
    next pc =>
      unfold State.test at hs
      split at hs
      next empty =>
        by_cases running : s.running = true
        · rw [if_pos running] at hs
          cases hs
          exact .wait pc empty running
        · rw [if_neg running] at hs
          cases hs
          exact .leave pc empty (Bool.not_eq_true _ ▸ running)
      next line queue front =>
        cases hs
        exact .pop pc front
    next => cases hs
  | block =>
    simp only [step] at hs
    split at hs <;> cases hs
    next pc => exact .block pc
  | spurious =>
    simp only [step] at hs
    split at hs <;> cases hs
    next pc => exact .spurious pc
  | write =>
    simp only [step] at hs
    split at hs <;> cases hs
    next line pc => exact .write pc
  | clear =>
    simp only [step] at hs
    split at hs <;> cases hs
    next h => exact .clear h.1 h.2.1 (State.mutexFree_iff.mp h.2.2)
  | notifyAll =>
    simp only [step] at hs
    split at hs <;> cases hs
    next pc => exact .notifyAll pc
  | join =>
    simp only [step] at hs
    split at hs <;> cases hs
    next h => exact .join h.1 h.2

/-! ## The destructor -/

/-- While nobody destroys the logger it is running, and once somebody does nobody
calls it. -/
structure Orderly (s : State n) : Prop where
  running : s.running = true ↔ s.destructor = .idle
  quiet : s.destructor ≠ .idle → ∀ thread, s.producers thread = .away

theorem State.setProducer_self (s : State n) (thread : Fin n) (pc : Producer) :
    (s.setProducer thread pc).producers thread = pc :=
  Function.update_self ..

theorem State.setProducer_of_ne (s : State n) {thread other : Fin n} (h : other ≠ thread)
    (pc : Producer) : (s.setProducer thread pc).producers other = s.producers other :=
  Function.update_of_ne h ..

/-- A thread in a call says that nobody has begun to destroy the logger. -/
theorem Orderly.alive (h : Orderly s) {thread : Fin n} (hpc : s.producers thread ≠ .away) :
    s.destructor = .idle := by
  by_contra hdestructor
  exact hpc (h.quiet hdestructor thread)

theorem State.log_running (s : State n) {thread : Fin n} (line : Bytes)
    (running : s.running = true) :
    s.log thread line =
      { s with called := s.called ++ [(thread, line)] }.setProducer thread (.checked line) :=
  if_pos running

theorem Orderly.step (h : Orderly s) {l : Label n} (hs : Logger.step s l = some s') :
    Orderly s' := by
  cases step_move hs with
  | @log thread call away alive =>
    rw [s.log_running call.line (h.running.mpr alive)]
    exact ⟨h.running, fun hdestructor => absurd alive hdestructor⟩
  | @push thread line pc free =>
    have alive : s.destructor = .idle := h.alive (by rw [pc]; simp)
    exact ⟨h.running, fun hdestructor => absurd alive hdestructor⟩
  | @notifyOne thread pc =>
    have alive : s.destructor = .idle := h.alive (by rw [pc]; simp)
    exact ⟨h.running, fun hdestructor => absurd alive hdestructor⟩
  | clear alive returned free =>
    constructor
    · simp
    · exact fun _ => returned
  | notifyAll pc =>
    have stopped := h.quiet (by rw [pc]; simp)
    constructor
    · show s.running = true ↔ Destructor.joining = .idle
      rw [h.running, pc]
      simp
    · exact fun _ => stopped
  | join pc done =>
    have stopped := h.quiet (by rw [pc]; simp)
    constructor
    · show s.running = true ↔ Destructor.joined = .idle
      rw [h.running, pc]
      simp
    · exact fun _ => stopped
  | _ => exact ⟨h.running, h.quiet⟩

/-! ## The lines -/

/-- The line the drain thread has taken and not yet written. -/
def Drain.inHand : Drain → List Bytes
  | .popped line => [line]
  | _ => []

/-- The line a thread has come to the mutex with. -/
def Producer.held : Producer → List Bytes
  | .checked line => [line]
  | _ => []

/-- The lines of one thread, in order. -/
def linesOf (thread : Fin n) (record : List (Fin n × Bytes)) : List Bytes :=
  (record.filter fun entry => entry.1 = thread).map Prod.snd

theorem linesOf_snoc_self (thread : Fin n) (record : List (Fin n × Bytes)) (line : Bytes) :
    linesOf thread (record ++ [(thread, line)]) = linesOf thread record ++ [line] := by
  simp [linesOf]

theorem linesOf_snoc_of_ne {thread other : Fin n} (h : other ≠ thread)
    (record : List (Fin n × Bytes)) (line : Bytes) :
    linesOf other (record ++ [(thread, line)]) = linesOf other record := by
  simp [linesOf, h.symm]

/-- Every line called for is pushed once, in its thread's order, and every line pushed
is written once, in the order of the pushes. -/
structure Accounts (s : State n) : Prop where
  lines : s.written ++ s.drain.inHand ++ s.queue = s.pushes.map Prod.snd
  calls : ∀ thread, linesOf thread s.called =
    linesOf thread s.pushes ++ (s.producers thread).held

theorem woken_inHand (s : State n) : s.woken.inHand = s.drain.inHand := by
  unfold State.woken
  split
  next pc => rw [pc]; rfl
  next => rfl

/-- A thread moves. Its own calls and pushes have to be told again, the others' stand. -/
theorem Accounts.calls_setProducer (h : Accounts s) {thread : Fin n} {pc : Producer}
    {called pushes : List (Fin n × Bytes)}
    (self : linesOf thread called = linesOf thread pushes ++ pc.held)
    (hcalled : ∀ t, t ≠ thread → linesOf t called = linesOf t s.called)
    (hpushes : ∀ t, t ≠ thread → linesOf t pushes = linesOf t s.pushes) (t : Fin n) :
    linesOf t called = linesOf t pushes ++ ((s.setProducer thread pc).producers t).held := by
  by_cases ht : t = thread
  · rw [ht, State.setProducer_self]
    exact self
  · rw [State.setProducer_of_ne _ ht, hcalled t ht, hpushes t ht]
    exact h.calls t

theorem Accounts.step (h : Accounts s) (orderly : Orderly s) {l : Label n}
    (hs : Logger.step s l = some s') : Accounts s' := by
  cases step_move hs with
  | @log thread call away alive =>
    rw [s.log_running call.line (orderly.running.mpr alive)]
    have hcalls := h.calls thread
    rw [away] at hcalls
    refine ⟨h.lines, h.calls_setProducer ?_ ?_ ?_⟩
    · show linesOf thread (s.called ++ [(thread, call.line)]) =
        linesOf thread s.pushes ++ [call.line]
      rw [linesOf_snoc_self, hcalls]
      exact congrArg (· ++ [call.line]) (List.append_nil _)
    · exact fun t ht => linesOf_snoc_of_ne ht s.called call.line
    · exact fun t _ => rfl
  | @push thread line pc free =>
    have hcalls := h.calls thread
    rw [pc] at hcalls
    refine ⟨?_, h.calls_setProducer ?_ ?_ ?_⟩
    · show s.written ++ s.drain.inHand ++ (s.queue ++ [line]) =
        (s.pushes ++ [(thread, line)]).map Prod.snd
      rw [← List.append_assoc, h.lines, List.map_append, List.map_singleton]
    · show linesOf thread s.called = linesOf thread (s.pushes ++ [(thread, line)]) ++ []
      rw [linesOf_snoc_self, List.append_nil]
      exact hcalls
    · exact fun t _ => rfl
    · exact fun t ht => linesOf_snoc_of_ne ht s.pushes line
  | @notifyOne thread pc =>
    have hcalls := h.calls thread
    rw [pc] at hcalls
    refine ⟨?_, h.calls_setProducer hcalls (fun t _ => rfl) (fun t _ => rfl)⟩
    show s.written ++ s.woken.inHand ++ s.queue = _
    rw [woken_inHand]
    exact h.lines
  | wait pc empty running | leave pc empty stopped =>
    have hlines := h.lines
    rw [pc] at hlines
    exact ⟨hlines, h.calls⟩
  | @pop line queue pc front =>
    have hlines := h.lines
    rw [pc, front] at hlines
    refine ⟨?_, h.calls⟩
    show s.written ++ [line] ++ queue = _
    rw [← hlines]
    simp [Drain.inHand]
  | block pc | spurious pc =>
    have hlines := h.lines
    rw [pc] at hlines
    exact ⟨hlines, h.calls⟩
  | @write line pc =>
    have hlines := h.lines
    rw [pc] at hlines
    refine ⟨?_, h.calls⟩
    show s.written ++ [line] ++ [] ++ s.queue = _
    rw [List.append_nil]
    exact hlines
  | notifyAll pc =>
    refine ⟨?_, h.calls⟩
    show s.written ++ s.woken.inHand ++ s.queue = _
    rw [woken_inHand]
    exact h.lines
  | clear alive returned free | join pc done => exact ⟨h.lines, h.calls⟩

/-! ## The waits -/

/-- Where the drain thread sleeps, somebody is about to notify it if there is anything
for it to do. -/
structure Heard (s : State n) : Prop where
  tested : s.drain = .tested → s.queue = [] ∧ s.running = true
  line : s.drain = .blocked → s.queue ≠ [] → ∃ thread, s.producers thread = .pushed
  stop : s.drain = .blocked → s.running = false → s.destructor = .cleared
  /-- The thread leaves nothing behind. -/
  done : s.drain = .done → s.queue = [] ∧ s.running = false
  joined : s.destructor = .joined → s.drain = .done

theorem woken_ne_blocked (s : State n) : s.woken ≠ .blocked := by
  unfold State.woken
  split
  · simp
  next h => exact h

/-- A notification changes nothing for a thread that is not blocked. -/
theorem woken_eq {pc : Drain} (hpc : pc ≠ .top) (h : s.woken = pc) : s.drain = pc := by
  unfold State.woken at h
  split at h
  · exact absurd h.symm hpc
  · exact h

/-- Nobody has joined a thread that is still there. -/
theorem Heard.not_joined (h : Heard s) (hpc : s.drain ≠ .done) : s.destructor ≠ .joined :=
  fun hjoined => hpc (h.joined hjoined)

/-- The drain thread is up and about. -/
theorem Heard.up (h : Heard s) (here : s.drain ≠ .done)
    (up : s'.drain = .top ∨ ∃ line, s'.drain = .popped line)
    (destructor : s'.destructor = s.destructor) : Heard s' := by
  have joined : s'.destructor = .joined → s'.drain = .done := by
    intro hjoined
    rw [destructor] at hjoined
    exact absurd hjoined (h.not_joined here)
  rcases up with pc | ⟨line, pc⟩
  · constructor
    · simp [pc]
    · simp [pc]
    · simp [pc]
    · simp [pc]
    · exact joined
  · constructor
    · simp [pc]
    · simp [pc]
    · simp [pc]
    · simp [pc]
    · exact joined

/-- The drain thread is notified, and nothing changes for it but that. -/
theorem Heard.woken (h : Heard s) (drain : s'.drain = s.woken) (queue : s'.queue = s.queue)
    (running : s'.running = s.running) (hjoined : s'.destructor ≠ .joined) : Heard s' := by
  constructor
  · intro htested
    rw [queue, running]
    exact h.tested (woken_eq (by simp) (drain.symm.trans htested))
  · intro hblocked
    exact absurd (drain.symm.trans hblocked) (woken_ne_blocked s)
  · intro hblocked
    exact absurd (drain.symm.trans hblocked) (woken_ne_blocked s)
  · intro hdone
    rw [queue, running]
    exact h.done (woken_eq (by simp) (drain.symm.trans hdone))
  · intro h'
    exact absurd h' hjoined

theorem Heard.step (h : Heard s) (orderly : Orderly s) {l : Label n}
    (hs : Logger.step s l = some s') : Heard s' := by
  cases step_move hs with
  | @log thread call away alive =>
    rw [s.log_running call.line (orderly.running.mpr alive)]
    constructor
    · exact h.tested
    · intro hblocked hqueue
      obtain ⟨t, ht⟩ := h.line hblocked hqueue
      refine ⟨t, ?_⟩
      have hne : t ≠ thread := by
        rintro rfl
        rw [away] at ht
        cases ht
      rw [State.setProducer_of_ne _ hne]
      exact ht
    · exact h.stop
    · exact h.done
    · exact h.joined
  | @push thread line pc free =>
    have alive : s.destructor = .idle := orderly.alive (by rw [pc]; simp)
    have running : s.running = true := orderly.running.mpr alive
    constructor
    · exact fun htested => absurd htested free
    · exact fun _ _ => ⟨thread, State.setProducer_self _ _ _⟩
    · exact h.stop
    · intro hdone
      have hstopped := (h.done hdone).2
      rw [running] at hstopped
      cases hstopped
    · exact h.joined
  | @notifyOne thread pc =>
    have alive : s.destructor = .idle := orderly.alive (by rw [pc]; simp)
    refine h.woken rfl rfl rfl ?_
    intro hjoined
    exact absurd (alive.symm.trans hjoined) (by simp)
  | wait pc empty running =>
    constructor
    · exact fun _ => ⟨empty, running⟩
    · simp
    · simp
    · simp
    · exact fun hjoined => absurd hjoined (h.not_joined (by rw [pc]; simp))
  | leave pc empty stopped =>
    constructor
    · simp
    · simp
    · simp
    · exact fun _ => ⟨empty, stopped⟩
    · exact fun _ => rfl
  | @pop line queue pc front => exact h.up (by rw [pc]; simp) (.inr ⟨line, rfl⟩) rfl
  | block pc =>
    obtain ⟨empty, running⟩ := h.tested pc
    constructor
    · simp
    · exact fun _ hqueue => absurd empty hqueue
    · intro _ hstopped
      exact absurd (running.symm.trans hstopped) (by simp)
    · simp
    · exact fun hjoined => absurd hjoined (h.not_joined (by rw [pc]; simp))
  | spurious pc => exact h.up (by rw [pc]; simp) (.inl rfl) rfl
  | @write line pc => exact h.up (by rw [pc]; simp) (.inl rfl) rfl
  | clear alive returned free =>
    constructor
    · exact fun htested => absurd htested free
    · exact h.line
    · exact fun _ _ => rfl
    · exact fun hdone => ⟨(h.done hdone).1, rfl⟩
    · simp
  | notifyAll pc => exact h.woken rfl rfl rfl (by simp)
  | join pc done =>
    constructor
    · exact fun htested => h.tested htested
    · exact h.line
    · intro hblocked
      rw [done] at hblocked
      cases hblocked
    · exact h.done
    · exact fun _ => done

/-! ## Runs -/

/-- What every state of the logger has. -/
structure Sound (s : State n) : Prop where
  orderly : Orderly s
  accounts : Accounts s
  heard : Heard s

theorem sound (r : (logger n true).Reachable s) : Sound s := by
  refine r.invariant (I := Sound) ?_ ?_
  · constructor
    · constructor
      · simp [logger]
      · simp [logger]
    · constructor
      · rfl
      · exact fun _ => rfl
    · constructor <;> simp [logger]
  · intro s l s' h _ hs
    exact ⟨h.orderly.step hs, h.accounts.step h.orderly hs, h.heard.step h.orderly hs⟩

end Logger

open Logger

/-- The logger in every state of every run in which the log file was opened. -/
structure LosesNothing {n : Nat} (s : Logger.State n) : Prop where
  /-- Once the drain thread is joined, the lines written are the lines pushed, in the
  order in which they were pushed. -/
  written : s.destructor = .joined → s.written = s.pushes.map Prod.snd
  /-- These are the lines of all calls, each thread's in the order of its calls. -/
  calls : s.destructor = .joined → ∀ thread, linesOf thread s.pushes = linesOf thread s.called
  /-- The drain thread is not blocked with something to do, unless a call stands between
  its push and its `notify_one` or the destructor between its store and its
  `notify_all`. -/
  awake : s.drain = .blocked → s.queue ≠ [] ∨ s.running = false →
    (∃ thread, s.producers thread = .pushed) ∨ s.destructor = .cleared

/-- The logger loses nothing, repeats nothing, and does not sleep on what it has to do. -/
theorem logger_losesNothing (n : Nat) (s : Logger.State n) (r : (logger n true).Reachable s) :
    LosesNothing s := by
  have h := sound r
  constructor
  · intro hjoined
    have hdone := h.heard.joined hjoined
    have hlines := h.accounts.lines
    rw [hdone, (h.heard.done hdone).1] at hlines
    simpa [Drain.inHand] using hlines
  · intro hjoined thread
    have hquiet := h.orderly.quiet (by rw [hjoined]; simp) thread
    have hcalls := h.accounts.calls thread
    rw [hquiet] at hcalls
    rw [hcalls]
    exact (List.append_nil _).symm
  · intro hblocked hwork
    rcases hwork with hqueue | hstopped
    · exact .inl (h.heard.line hblocked hqueue)
    · exact .inr (h.heard.stop hblocked hstopped)

/-- Two threads, the second of which finds the drain thread blocked; the lines are
written before the destructor is through. -/
def twoCalls (first second : Fin n) : List (Label n) :=
  [.log first (.message [] .info (ascii "a")), .push first, .test, .write, .test, .block,
    .log second (.message [] .err (ascii "b")), .push second, .notifyOne first,
    .notifyOne second, .clear, .test, .notifyAll, .write, .test, .join]

theorem logger_losesNothing_two :
    ∃ (first second : Fin 2) (s : Logger.State 2), first ≠ second ∧
      (logger 2 true).exec (logger 2 true).start (twoCalls first second) = some s ∧
      s.destructor = .joined ∧ s.written.length = 2 ∧ LosesNothing s := by
  have hrun : ∃ s, (logger 2 true).exec (logger 2 true).start (twoCalls 0 1) = some s ∧
      s.destructor = .joined ∧ s.written.length = 2 := ⟨_, rfl, rfl, rfl⟩
  obtain ⟨s, hs, hjoined, hwritten⟩ := hrun
  exact ⟨0, 1, s, by decide, hs, hjoined, hwritten, logger_losesNothing 2 s (.of_exec hs)⟩

/-- A thread pushes while the drain thread is blocked. -/
def pushToBlocked (thread : Fin n) : List (Label n) :=
  [.test, .block, .log thread (.message [] .info []), .push thread]

/-- Between a push and its `notify_one` the drain thread may be blocked on a queue with a
line in it, and no notification has been issued that could still wake it. -/
theorem blocked_on_line :
    ∃ (thread : Fin 1) (s : Logger.State 1),
      (logger 1 true).exec (logger 1 true).start (pushToBlocked thread) = some s ∧
      s.drain = .blocked ∧ s.queue ≠ [] ∧ (∀ t, .notifyOne t ∉ pushToBlocked thread) ∧
      .notifyAll ∉ pushToBlocked thread := by
  refine ⟨0, _, rfl, rfl, ?_, ?_, ?_⟩
  · exact List.cons_ne_nil _ _
  · decide
  · decide

end WebServer
