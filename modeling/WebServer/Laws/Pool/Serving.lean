import WebServer.Laws.Pool.Ownership
/-! # What a worker works on

On clean runs a worker calls `recv` and `send` on the socket its connection was
created for, no two workers serve one connection, and an event is applied to the
connection it was raised for. The idle sweep breaks all three: it reads `busy`
in one section and closes in another, and it does not see an event that waits in
the queue. Each law is followed by a run of the unrestricted loop that breaks
it; both runs need one idle client whose next bytes arrive as the sweep starts,
and a second client to whom the kernel gives the number again.
-/

namespace WebServer.Pool

variable {n : Nat} {cfg : Config} {s : State n}

/-- A worker about to call `recv` or `send` has the socket its connection was
created for, and what a worker serves the sweep is not closing. -/
structure IoSafe (s : State n) : Prop where
  socket : ∀ w k, (s.workers w).io = some k → s.files (s.objects k).fd = some k
  unswept : ∀ w e k, (s.workers w).serving = some (e, k) →
    s.accepter.removing ≠ some (s.objects k).fd

/-- One worker at most serves a connection; it does so for an event that was
raised for that connection, and the number it will rearm or close is still that
connection's. -/
structure SingleOwner (s : State n) : Prop where
  alone : ∀ w w' e e' k, (s.workers w).serving = some (e, k) →
    (s.workers w').serving = some (e', k) → w = w'
  applied : ∀ w e k, (s.workers w).serving = some (e, k) → e.raisedFor = some k
  named : ∀ w e k, (s.workers w).serving = some (e, k) → s.files e.fd = some k

/-- A worker in `recv` or `send` is serving the connection. -/
theorem WorkerPc.serving_of_io {pc : WorkerPc} {k : Sock} (h : pc.io = some k) :
    ∃ e, pc.serving = some (e, k) := by
  cases pc <;> cases h <;> exact ⟨_, rfl⟩

/-- What a worker serves is open under the number in its event. -/
theorem Kept.named (h : Kept cfg s) {w : Fin n} {e : Event} {k : Sock}
    (hs : (s.workers w).serving = some (e, k)) : s.files e.fd = some k :=
  h.raised e k (.inr ⟨w, WorkerPc.event_of_serving hs⟩) (h.serving w e k hs).1

/-- The sweep is charged only with descriptors it has collected. -/
theorem AcceptPc.expiring_of_removing {pc : AcceptPc} {fd : Fd} (h : pc.removing = some fd) :
    fd ∈ pc.expiring := by
  cases pc with
  | expire at_ fds stage =>
    cases fds with
    | nil => cases h
    | cons fd' fds =>
      obtain ⟨rfl, -⟩ := (removing_expire at_ fd' fd fds stage).mp h
      exact List.mem_cons_self
  | _ => cases h

theorem Kept.ioSafe (h : Kept cfg s) : IoSafe s := by
  constructor
  · intro w k hio
    obtain ⟨e, hs⟩ := WorkerPc.serving_of_io hio
    rw [(h.serving w e k hs).2]
    exact h.named hs
  · intro w e k hs hr
    have hq := h.expiring _ (AcceptPc.expiring_of_removing hr)
    apply hq e (.inr ⟨w, WorkerPc.event_of_serving hs⟩)
    rw [(h.serving w e k hs).2]

theorem Kept.singleOwner (h : Kept cfg s) : SingleOwner s := by
  constructor
  · intro w w' e e' k hs hs'
    obtain ⟨raised, obj⟩ := h.serving w e k hs
    obtain ⟨raised', obj'⟩ := h.serving w' e' k hs'
    have turn : s.Turn (.worker w) e.fd :=
      ⟨e, WorkerPc.event_of_serving hs, by simp [raised], rfl⟩
    have turn' : s.Turn (.worker w') e.fd :=
      ⟨e', WorkerPc.event_of_serving hs', by simp [raised'], by rw [← obj, ← obj']⟩
    exact Place.worker.inj (h.exclusive _ _ _ turn turn')
  · intro w e k hs
    exact (h.serving w e k hs).1
  · intro w e k hs
    exact h.named hs

/-! ## Two clients and one descriptor number -/

/-- The listener is readable. -/
def connecting : Event := { fd := 3, events := { epollin := true }, raisedFor := none }

/-- The accept thread accepts one client as descriptor 6 and polls again. -/
def acceptSix : List (Label n) :=
  [.accepter .go, .accepter (.ready [connecting]), .accepter .go, .accepter (.accepted 6),
    .accepter .go, .accepter .go, .accepter (.ctlAdd true), .accepter .refused, .accepter .go,
    .accepter .go]

/-- Bytes of the first client have arrived. -/
def firstReadable : Event := { fd := 6, events := { epollin := true }, raisedFor := some 0 }

/-- After sixteen silent seconds the client's next bytes arrive; the event is
queued, and the same turn of the loop sweeps and collects descriptor 6. -/
def collected : List (Label n) :=
  acceptSix ++
    [.tick 16000000000, .accepter .go, .accepter (.ready [firstReadable]), .accepter .go,
      .accepter .go, .accepter .go, .accepter .go, .accepter (.order [6])]

/-- The sweep closes descriptor 6, and the next client is given the number. -/
def reused : List (Label n) :=
  [.accepter .go, .accepter .go, .accepter .go, .accepter .go, .accepter .go,
    .accepter .go, .accepter (.ready [connecting]), .accepter .go, .accepter (.accepted 6),
    .accepter .go]

/-- Bytes of the second client have arrived. -/
def secondReadable : Event := { fd := 6, events := { epollin := true }, raisedFor := some 1 }

/-- The first client is silent for sixteen seconds and is swept with nothing
waiting; the second is given the number, and a worker reads from it. -/
def sweptInTime : List (Label 1) :=
  acceptSix ++
    [.tick 16000000000, .accepter .go, .accepter (.ready []), .accepter .go, .accepter .go,
      .accepter .go, .accepter (.order [6])] ++
    [.accepter .go, .accepter .go, .accepter .go, .accepter .go, .accepter .go] ++ acceptSix ++
    [.accepter .go, .accepter (.ready [secondReadable]), .accepter .go, .worker 0 .go, .worker 0 .go]

/-- The state in which that worker calls `recv`. -/
def sweptInTimeEnd : State 1 :=
  ((loop 1 {}).exec (.initial 1 {}) sweptInTime).get (by decide)

/-! ## No I/O across connections -/

/-- In every run in which the sweep finds only quiet connections expired, and
`stop()` closes only quiet descriptors, every `recv` and `send` is on the
worker's own socket, and the sweep is never closing what a worker serves. -/
theorem ioSafe_of_clean (r : (loop n cfg).Reach (Clean cfg) s) : IoSafe s :=
  (kept_of_reach r).ioSafe

/-- The sweep that closed a silent client with nothing waiting was clean. -/
theorem ioSafe_sweptInTime : (sweptInTimeEnd.workers 0).io = some 1 ∧ IoSafe sweptInTimeEnd :=
  ⟨by decide, ioSafe_of_clean (.of_exec .start (by decide) (Option.some_get _).symm)⟩

/-- Between the sweep's two sections a worker takes the event, finds the
connection and enters `onReadable`. -/
def crossRead : List (Label 1) :=
  collected ++ [.worker 0 .go, .worker 0 .go] ++ reused

/-- The state in which that worker calls `recv`. -/
def crossReadEnd : State 1 :=
  ((loop 1 {}).exec (.initial 1 {}) crossRead).get (by decide)

/-- The worker serving the first client is about to `recv` from the second. -/
theorem not_ioSafe : ¬ ∀ (n : Nat) (cfg : Config) (s : State n), (loop n cfg).Reachable s →
    IoSafe s := by
  intro h
  have safe : IoSafe crossReadEnd :=
    h 1 {} crossReadEnd (.of_exec (Option.some_get _).symm)
  have reads : (crossReadEnd.workers 0).io = some 0 := by decide
  have other : crossReadEnd.files (crossReadEnd.objects 0).fd = some 1 := by decide
  have := safe.socket 0 0 reads
  rw [other] at this
  cases this

/-! ## Single ownership -/

/-- In every run in which the sweep finds only quiet connections expired, and
`stop()` closes only quiet descriptors, a connection has at most one worker,
which applies to it an event raised for it, under its own number. -/
theorem singleOwner_of_clean (r : (loop n cfg).Reach (Clean cfg) s) : SingleOwner s :=
  (kept_of_reach r).singleOwner

/-- The second client's worker owns it alone. -/
theorem singleOwner_sweptInTime :
    (sweptInTimeEnd.workers 0).serving = some (secondReadable, 1) ∧
      SingleOwner sweptInTimeEnd :=
  ⟨by decide,
    singleOwner_of_clean (.of_exec .start (by decide) (Option.some_get _).symm)⟩

/-- The sweep closes descriptor 6 with its event still in the queue. The second
client is registered under the number, one worker takes the first client's event
and the other the second client's. -/
def staleEvent : List (Label 2) :=
  collected ++ reused ++
    [.accepter .go, .accepter (.ctlAdd true), .accepter .refused, .accepter .go, .accepter .go,
      .accepter .go, .accepter (.ready [secondReadable]), .accepter .go, .worker 0 .go, .worker 0 .go,
      .worker 1 .go, .worker 1 .go]

/-- The state in which both workers have looked up descriptor 6. -/
def staleEventEnd : State 2 :=
  ((loop 2 {}).exec (.initial 2 {}) staleEvent).get (by decide)

/-- Two workers serve the second client, one of them for the first one's event. -/
theorem not_singleOwner : ¬ ∀ (n : Nat) (cfg : Config) (s : State n), (loop n cfg).Reachable s →
    SingleOwner s := by
  intro h
  have own : SingleOwner staleEventEnd :=
    h 2 {} staleEventEnd (.of_exec (Option.some_get _).symm)
  have first : (staleEventEnd.workers 0).serving = some (firstReadable, 1) := by decide
  have second : (staleEventEnd.workers 1).serving = some (secondReadable, 1) := by decide
  cases own.alone 0 1 _ _ 1 first second

end WebServer.Pool
