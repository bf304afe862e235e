import WebServer.Laws.Pool.Descriptors
/-! # One worker for one connection

`EPOLLONESHOT` is meant to give each connection to one worker at a time: a
descriptor is being registered, or armed, or an event for it waits, or a worker
has taken one. `Kept` is that argument, with what it also needs: an event in
hand was raised for the socket that its number still names.

The argument fails in this program in one place. The idle sweep closes a
connection that is not marked busy, and an event already raised for it, or a
worker that has not marked it yet or has just unmarked it, keeps the number
after the kernel may give it to another client. `Clean` is the condition that
the sweep finds no such connection, and that `stop()` closes none; on runs that
meet it every worker works on the socket it was called for, and alone. Two short
runs show that without the condition neither holds.
-/

namespace WebServer.Pool

variable {n : Nat} {cfg : Config} {s s' : State n}

/-- The events of the batch not handed to the queue yet. -/
def AcceptPc.batch : AcceptPc → List Event
  | .dispatch batch | .accept batch | .insert batch _ _ | .opened batch _
  | .register batch _ => batch
  | _ => []

/-- The descriptor between `accept` and `EPOLL_CTL_ADD`. -/
def AcceptPc.registering : AcceptPc → Option Fd
  | .insert _ fd _ | .opened _ fd | .register _ fd => some fd
  | _ => none

/-- The descriptors the sweep has collected and is not done with. -/
def AcceptPc.expiring : AcceptPc → List Fd
  | .expire _ fds _ => fds
  | _ => []

/-- The event a worker has taken, until its connection is rearmed or its
descriptor closed. -/
def WorkerPc.event : WorkerPc → Option Event
  | .taken e | .reading e _ | .drained e _ | .writing e _ | .served e _ _
  | .rearming e _ _ => some e
  | .closing _ _ .account => none
  | .closing e _ _ => some e
  | _ => none

/-- The connection a worker serves, and the event it serves it for, from the
lookup until the connection is rearmed or its descriptor closed. -/
def WorkerPc.serving : WorkerPc → Option (Event × Sock)
  | .reading e k | .drained e k | .writing e k | .served e k _ | .rearming e k _ => some (e, k)
  | .closing _ _ .account => none
  | .closing e k _ => some (e, k)
  | _ => none

/-- The connection on whose behalf the worker's next call is `recv` or `send`. -/
def WorkerPc.io : WorkerPc → Option Sock
  | .reading _ k | .writing _ k => some k
  | _ => none

/-- The events raised and not taken yet, the queue first. -/
def State.waiting (s : State n) : List Event :=
  s.workQueue ++ s.accepter.batch

/-- The event waits or is in some worker's hands. -/
def State.Carries (s : State n) (e : Event) : Prop :=
  e ∈ s.waiting ∨ ∃ w, (s.workers w).event = some e

/-- No event for the descriptor waits, and no worker has one in hand. -/
def State.Quiet (s : State n) (fd : Fd) : Prop :=
  ∀ e, s.Carries e → e.fd ≠ fd

instance (s : State n) (fd : Fd) : Decidable (s.Quiet fd) :=
  decidable_of_iff
    ((∀ e ∈ s.waiting, e.fd ≠ fd) ∧ ∀ w, ((s.workers w).event.all fun e => e.fd ≠ fd) = true) <| by
    simp only [State.Quiet, State.Carries, Option.all_eq_true, decide_eq_true_eq]
    constructor
    · rintro ⟨waiting, workers⟩ e (he | ⟨w, he⟩)
      · exact waiting e he
      · exact workers w e he
    · intro h
      exact ⟨fun e he => h e (.inl he), fun w e he => h e (.inr ⟨w, he⟩)⟩

/-- What the sweep is about to collect. -/
def State.collects (cfg : Config) (s : State n) : List Fd :=
  match s.accepter with
  | .scan _ now => s.expired cfg now
  | _ => []

/-- What `stop()` is about to close. -/
def State.stops (s : State n) : List Fd :=
  match s.stopper with
  | .close (fd :: _) => [fd]
  | _ => []

/-- The condition under which ownership holds, on the state before a step: when
the sweep walks the table, every connection it finds expired is quiet, and when
`stop()` closes a descriptor, that descriptor is. Other steps are free. -/
def Clean (cfg : Config) (s : State n) : Label n → Prop
  | .accepter (.order _) => ∀ fd ∈ s.collects cfg, s.Quiet fd
  | .stopper .go => ∀ fd ∈ s.stops, s.Quiet fd
  | _ => True

instance (cfg : Config) (s : State n) : ∀ l, Decidable (Clean cfg s l)
  | .accepter (.order _) => inferInstanceAs (Decidable (∀ fd ∈ s.collects cfg, s.Quiet fd))
  | .stopper .go => inferInstanceAs (Decidable (∀ fd ∈ s.stops, s.Quiet fd))
  | .tick _ | .worker _ _ | .stopper (.order _) => isTrue trivial
  | .accepter .go | .accepter (.ready _) | .accepter .interrupted | .accepter .failed
  | .accepter (.accepted _) | .accepter .refused | .accepter (.ctlAdd _) => isTrue trivial

/-- Where a descriptor's one turn can be. -/
inductive Place (n : Nat) where
  | registering
  | armed
  | waiting
  | worker (w : Fin n)
  deriving DecidableEq

/-- The descriptor's turn is at the place. -/
def State.Turn (s : State n) : Place n → Fd → Prop
  | .registering, fd => s.accepter.registering = some fd ∧ s.files fd ≠ none
  | .armed, fd => ∃ i, s.epoll fd = .armed i
  | .waiting, fd => ∃ e ∈ s.waiting, e.raisedFor ≠ none ∧ e.fd = fd
  | .worker w, fd => ∃ e, (s.workers w).event = some e ∧ e.raisedFor ≠ none ∧ e.fd = fd

/-- The invariant of clean runs. -/
structure Kept (cfg : Config) (s : State n) : Prop where
  owned : Owned cfg s
  exclusive : Exclusive s.Turn
  registered : ∀ fd, s.epoll fd ≠ .absent → s.files fd ≠ none
  raised : ∀ e k, s.Carries e → e.raisedFor = some k → s.files e.fd = some k
  own : ∀ e, s.Carries e → e.raisedFor = none → e.fd ∈ cfg.reserved
  distinct : ((s.waiting.filter fun e => e.raisedFor.isSome).map Event.fd).Nodup
  serving : ∀ w e k, (s.workers w).serving = some (e, k) →
    e.raisedFor = some k ∧ (s.objects k).fd = e.fd
  expiring : ∀ fd ∈ s.accepter.expiring, s.Quiet fd

theorem kept_initial (n : Nat) (cfg : Config) : Kept cfg (State.initial n cfg) := by
  have idle : ∀ e, ¬ (State.initial n cfg).Carries e := by
    intro e he
    simp [State.Carries, State.waiting, State.initial, AcceptPc.batch, WorkerPc.event] at he
  constructor
  · exact owned_initial n cfg
  · intro p p' fd h
    cases p <;> simp [State.Turn, State.waiting, State.initial, AcceptPc.registering,
      AcceptPc.batch, WorkerPc.event] at h
  · intro fd h
    exact absurd rfl h
  · intro e k he
    exact absurd he (idle e)
  · intro e he
    exact absurd he (idle e)
  · exact List.nodup_nil
  · intro w e k h
    simp [State.initial, WorkerPc.serving] at h
  · intro fd h
    simp [State.initial, AcceptPc.expiring] at h

/-- What a worker serves is what it has in hand. -/
theorem WorkerPc.event_of_serving {pc : WorkerPc} {e : Event} {k : Sock}
    (h : pc.serving = some (e, k)) : pc.event = some e := by
  cases pc with
  | closing e' k' stage => cases stage <;> simp_all [WorkerPc.serving, WorkerPc.event]
  | _ => simp_all [WorkerPc.serving, WorkerPc.event]

/-- A step that opens and closes nothing and gives no descriptor a turn it did
not have. -/
theorem Kept.frame (h : Kept cfg s) (owned : Owned cfg s') (files : s'.files = s.files)
    (epoll : ∀ fd, s'.epoll fd = s.epoll fd ∨ s'.epoll fd = .absent)
    (registering : ∀ fd, s'.accepter.registering = some fd → s.accepter.registering = some fd)
    (waiting : s'.waiting.Sublist s.waiting)
    (event : ∀ w e, (s'.workers w).event = some e → (s.workers w).event = some e)
    (serving : ∀ w e k, (s'.workers w).serving = some (e, k) →
      e.raisedFor = some k ∧ (s'.objects k).fd = e.fd)
    (expiring : ∀ fd ∈ s'.accepter.expiring, s.Quiet fd) : Kept cfg s' := by
  have carries : ∀ e, s'.Carries e → s.Carries e := by
    rintro e (he | ⟨w, he⟩)
    · exact .inl (waiting.subset he)
    · exact .inr ⟨w, event w e he⟩
  constructor
  · exact owned
  · apply h.exclusive.shrink
    intro p fd ht
    cases p with
    | registering => exact ⟨registering fd ht.1, files ▸ ht.2⟩
    | armed =>
      obtain ⟨i, hi⟩ := ht
      rcases epoll fd with he | he
      · exact ⟨i, he ▸ hi⟩
      · simp [he] at hi
    | waiting =>
      obtain ⟨e, he, ht⟩ := ht
      exact ⟨e, waiting.subset he, ht⟩
    | worker w =>
      obtain ⟨e, he, ht⟩ := ht
      exact ⟨e, event w e he, ht⟩
  · intro fd hne
    rw [files]
    apply h.registered fd
    rcases epoll fd with he | he
    · rwa [← he]
    · exact absurd he hne
  · intro e k he hk
    rw [files]
    exact h.raised e k (carries e he) hk
  · intro e he
    exact h.own e (carries e he)
  · exact h.distinct.sublist ((waiting.filter _).map _)
  · exact serving
  · intro fd hfd e he
    exact expiring fd hfd e (carries e he)

/-- A close of a descriptor for which, once its closer is done with it, no client
event is left. -/
theorem Kept.close (h : Kept cfg s) (owned : Owned cfg s') {fd : Fd}
    (files : s'.files = Function.update s.files fd none)
    (epoll : s'.epoll = Function.update s.epoll fd .absent)
    (accepter : s'.accepter.registering = s.accepter.registering)
    (waiting : s'.waiting = s.waiting)
    (event : ∀ w e, (s'.workers w).event = some e → (s.workers w).event = some e)
    (apart : ∀ e, s'.Carries e → e.raisedFor ≠ none → e.fd ≠ fd)
    (serving : ∀ w p, (s'.workers w).serving = some p → (s.workers w).serving = some p)
    (objects : s'.objects = s.objects)
    (expiring : s'.accepter.expiring = s.accepter.expiring) : Kept cfg s' := by
  have carries : ∀ e, s'.Carries e → s.Carries e := by
    rintro e (he | ⟨w, he⟩)
    · exact .inl (waiting ▸ he)
    · exact .inr ⟨w, event w e he⟩
  constructor
  · exact owned
  · apply h.exclusive.shrink
    intro p fd' ht
    cases p with
    | registering =>
      refine ⟨accepter ▸ ht.1, ?_⟩
      intro hn
      apply ht.2
      rw [files, Function.update_apply, hn, ite_self]
    | armed =>
      obtain ⟨i, hi⟩ := ht
      rw [epoll, Function.update_apply] at hi
      split at hi
      · cases hi
      · exact ⟨i, hi⟩
    | waiting =>
      obtain ⟨e, he, ht⟩ := ht
      exact ⟨e, waiting ▸ he, ht⟩
    | worker w =>
      obtain ⟨e, he, ht⟩ := ht
      exact ⟨e, event w e he, ht⟩
  · intro fd' hne
    rw [epoll, Function.update_apply] at hne
    split at hne
    case isTrue => exact absurd rfl hne
    case isFalse hfd =>
      rw [files, Function.update_of_ne hfd]
      exact h.registered fd' hne
  · intro e k he hk
    rw [files, Function.update_of_ne (apart e he (by simp [hk]))]
    exact h.raised e k (carries e he) hk
  · intro e he
    exact h.own e (carries e he)
  · rw [waiting]
    exact h.distinct
  · intro w e k hs
    rw [objects]
    exact h.serving w e k (serving w _ hs)
  · intro fd' hfd e he
    rw [expiring] at hfd
    exact h.expiring fd' hfd e (carries e he)

/-- A worker that has a client's event in hand has the descriptor's turn. -/
theorem Kept.alone (h : Kept cfg s) {w : Fin n} {e e' : Event} (he : (s.workers w).event = some e)
    (client : e.raisedFor ≠ none) (fd : e'.fd = e.fd) (client' : e'.raisedFor ≠ none) :
    e' ∉ s.waiting ∧ ∀ w', w' ≠ w → (s.workers w').event ≠ some e' := by
  have mine : s.Turn (.worker w) e.fd := ⟨e, he, client, rfl⟩
  constructor
  · intro hw
    have := h.exclusive (.worker w) .waiting e.fd mine ⟨e', hw, client', fd⟩
    cases this
  · intro w' hne hw
    have := h.exclusive (.worker w) (.worker w') e.fd mine ⟨e', hw, client', fd⟩
    cases this
    exact hne rfl

/-- `epoll_wait` reports armed descriptors: their turn passes to the batch. -/
theorem Kept.ready (h : Kept cfg s) {batch : List Event} (hpc : s.accepter = .wait)
    (nodup : (batch.map Event.fd).Nodup) (deliver : ∀ e ∈ batch, deliverable cfg s e)
    (owned : Owned cfg { s with epoll := disarm s batch, accepter := .dispatch batch }) :
    Kept cfg { s with epoll := disarm s batch, accepter := .dispatch batch } := by
  have idle : s.waiting = s.workQueue := by
    simp [State.waiting, hpc, AcceptPc.batch]
  -- a client's event in the batch was armed, and names the socket that is open
  have client : ∀ e ∈ batch, ∀ k, e.raisedFor = some k →
      s.files e.fd = some k ∧ s.Turn .armed e.fd :=
    fun e he k hk => deliverable_client (deliver e he) hk
  have system : ∀ e ∈ batch, e.raisedFor = none → e.fd ∈ cfg.reserved := by
    intro e he hn
    rcases deliverable_system (deliver e he) hn with ⟨h, -⟩ | h <;> simp [Config.reserved, h]
  have carries : ∀ e, State.Carries { s with
      epoll := disarm s batch, accepter := .dispatch batch } e → s.Carries e ∨ e ∈ batch := by
    rintro e (he | he)
    · rcases List.mem_append.mp he with he | he
      · exact .inl (.inl (idle ▸ he))
      · exact .inr he
    · exact .inl (.inr he)
  constructor
  · exact owned
  · apply h.exclusive.gain .waiting
    · intro p fd hne ht
      cases p with
      | registering => simp [State.Turn, AcceptPc.registering] at ht
      | armed =>
        obtain ⟨i, hi⟩ := ht
        exact ⟨i, (armed_of_disarm hi).1⟩
      | waiting => exact absurd rfl hne
      | worker w => exact ht
    · rintro fd ⟨e, he, hc, hfd⟩
      rcases List.mem_append.mp he with he | he
      · exact .inl ⟨e, idle ▸ he, hc, hfd⟩
      · right
        intro p hne ht
        obtain ⟨k, hk⟩ := Option.ne_none_iff_exists'.mp hc
        have was : s.Turn .armed fd := hfd ▸ (client e he k hk).2
        cases p with
        | registering => simp [State.Turn, AcceptPc.registering] at ht
        | armed =>
          obtain ⟨i, hi⟩ := ht
          exact (armed_of_disarm hi).2 e he hc hfd
        | waiting => exact hne rfl
        | worker w => cases h.exclusive .armed (.worker w) fd was ht
  · intro fd hne
    rcases disarm_cases s batch fd with same | ⟨e, he, hc, rfl⟩
    · exact h.registered fd (same ▸ hne)
    · obtain ⟨k, hk⟩ := Option.ne_none_iff_exists'.mp hc
      simp [(client e he k hk).1]
  · intro e k he hk
    rcases carries e he with he | he
    · exact h.raised e k he hk
    · exact (client e he k hk).1
  · intro e he hn
    rcases carries e he with he | he
    · exact h.own e he hn
    · exact system e he hn
  · simp only [State.waiting, AcceptPc.batch, List.filter_append, List.map_append]
    rw [List.nodup_append]
    refine ⟨idle ▸ h.distinct, (List.filter_sublist.map _).nodup nodup, ?_⟩
    intro fd hq fd' hb hfd
    subst hfd
    simp only [List.mem_map, List.mem_filter, Option.isSome_iff_exists] at hq hb
    obtain ⟨e, ⟨he, k, hk⟩, rfl⟩ := hq
    obtain ⟨e', ⟨he', k', hk'⟩, hfd⟩ := hb
    have here : s.Turn .waiting e.fd := ⟨e, idle ▸ he, by simp [hk], rfl⟩
    cases h.exclusive .waiting .armed e.fd here (hfd ▸ (client e' he' k' hk').2)
  · exact h.serving
  · intro fd hfd
    simp [AcceptPc.expiring] at hfd

/-- `accept` returns a number whose turn is nowhere. -/
theorem Kept.accept (h : Kept cfg s) {batch : List Event} {fd : Fd}
    (hpc : s.accepter = .accept batch) (free : s.files fd = none)
    (owned : Owned cfg { s with
      files := Function.update s.files fd (some s.next)
      next := s.next + 1
      accepter := .insert batch fd s.next }) :
    Kept cfg { s with
      files := Function.update s.files fd (some s.next)
      next := s.next + 1
      accepter := .insert batch fd s.next } := by
  have waiting : s.waiting = s.workQueue ++ batch := by
    simp [State.waiting, hpc, AcceptPc.batch]
  have carries : ∀ e, State.Carries { s with
      files := Function.update s.files fd (some s.next)
      next := s.next + 1
      accepter := .insert batch fd s.next } e → s.Carries e := by
    rintro e (he | he)
    · exact .inl (waiting ▸ he)
    · exact .inr he
  have open_ : ∀ fd', s.files fd' ≠ none → fd' ≠ fd := by
    rintro fd' hne rfl
    exact hne free
  have old : ∀ (p : Place n) fd', p ≠ .registering → State.Turn { s with
      files := Function.update s.files fd (some s.next)
      next := s.next + 1
      accepter := .insert batch fd s.next } p fd' → s.Turn p fd' := by
    intro p fd' hne ht
    cases p with
    | registering => exact absurd rfl hne
    | armed => exact ht
    | waiting =>
      obtain ⟨e, he, ht⟩ := ht
      exact ⟨e, waiting ▸ he, ht⟩
    | worker w => exact ht
  have placed : ∀ p fd', s.Turn p fd' → s.files fd' ≠ none := by
    intro p fd' ht
    cases p with
    | registering => exact ht.2
    | armed =>
      obtain ⟨i, hi⟩ := ht
      exact h.registered fd' (by simp [hi])
    | waiting =>
      obtain ⟨e, he, hc, rfl⟩ := ht
      obtain ⟨k, hk⟩ := Option.ne_none_iff_exists'.mp hc
      simp [h.raised e k (.inl he) hk]
    | worker w =>
      obtain ⟨e, he, hc, rfl⟩ := ht
      obtain ⟨k, hk⟩ := Option.ne_none_iff_exists'.mp hc
      simp [h.raised e k (.inr ⟨w, he⟩) hk]
  constructor
  · exact owned
  · apply h.exclusive.gain .registering old
    intro fd' ht
    right
    intro p hne ht'
    obtain ⟨hr, -⟩ := ht
    simp only [AcceptPc.registering, Option.some.injEq] at hr
    subst hr
    exact placed p fd (old p fd hne ht') free
  · intro fd' hne
    have := h.registered fd' hne
    simpa only [Function.update_of_ne (open_ fd' this)] using this
  · intro e k he hk
    have hf := h.raised e k (carries e he) hk
    simpa only [Function.update_of_ne (open_ e.fd (by simp [hf]))] using hf
  · intro e he
    exact h.own e (carries e he)
  · have := h.distinct
    rwa [waiting] at this
  · exact h.serving
  · intro fd' hfd
    simp [AcceptPc.expiring] at hfd

/-- `EPOLL_CTL_ADD` arms the descriptor being registered. -/
theorem Kept.register (h : Kept cfg s) {batch : List Event} {fd : Fd}
    (hpc : s.accepter = .register batch fd) (open_ : s.files fd ≠ none)
    (owned : Owned cfg { s with
      epoll := Function.update s.epoll fd (.armed .epollin)
      accepter := .accept batch }) :
    Kept cfg { s with
      epoll := Function.update s.epoll fd (.armed .epollin)
      accepter := .accept batch } := by
  have waiting : s.waiting = s.workQueue ++ batch := by
    simp [State.waiting, hpc, AcceptPc.batch]
  have carries : ∀ e, State.Carries { s with
      epoll := Function.update s.epoll fd (.armed .epollin)
      accepter := .accept batch } e → s.Carries e := by
    rintro e (he | he)
    · exact .inl (waiting ▸ he)
    · exact .inr he
  have mine : s.Turn .registering fd := ⟨by rw [hpc]; rfl, open_⟩
  have old : ∀ (p : Place n) fd', p ≠ .armed → State.Turn { s with
      epoll := Function.update s.epoll fd (.armed .epollin)
      accepter := .accept batch } p fd' → p ≠ .registering ∧ s.Turn p fd' := by
    intro p fd' hne ht
    cases p with
    | registering => simp [State.Turn, AcceptPc.registering] at ht
    | armed => exact absurd rfl hne
    | waiting =>
      obtain ⟨e, he, ht⟩ := ht
      exact ⟨by simp, e, waiting ▸ he, ht⟩
    | worker w => exact ⟨by simp, ht⟩
  constructor
  · exact owned
  · apply h.exclusive.gain .armed
    · intro p fd' hne ht
      exact (old p fd' hne ht).2
    · rintro fd' ⟨i, hi⟩
      simp only [Function.update_apply] at hi
      split at hi
      case isFalse => exact .inl ⟨i, hi⟩
      case isTrue hfd =>
        right
        subst hfd
        intro p hne ht
        obtain ⟨hr, ht⟩ := old p fd' hne ht
        exact hr (h.exclusive p .registering fd' ht mine)
  · intro fd' hne
    simp only [Function.update_apply] at hne
    split at hne
    case isTrue hfd => exact hfd ▸ open_
    case isFalse => exact h.registered fd' hne
  · intro e k he
    exact h.raised e k (carries e he)
  · intro e he
    exact h.own e (carries e he)
  · have := h.distinct
    rwa [waiting] at this
  · exact h.serving
  · intro fd' hfd
    simp [AcceptPc.expiring] at hfd

/-- A worker takes the queue's first event, and with it the descriptor's turn. -/
theorem Kept.take (h : Kept cfg s) {w : Fin n} {e : Event} {rest : List Event}
    (queue : s.workQueue = e :: rest)
    (owned : Owned cfg ({ s with workQueue := rest }.setWorker w (.taken e))) :
    Kept cfg ({ s with workQueue := rest }.setWorker w (.taken e)) := by
  have waiting : s.waiting = e :: (rest ++ s.accepter.batch) := by
    simp [State.waiting, queue]
  have event : ∀ w' e', ((({ s with workQueue := rest } : State n).setWorker w (.taken e)).workers
      w').event = some e' → (w' = w ∧ e' = e) ∨ (w' ≠ w ∧ (s.workers w').event = some e') := by
    intro w' e' he
    simp only [State.setWorker, Function.update_apply] at he
    split at he
    case isTrue hw =>
      cases he
      exact .inl ⟨hw, rfl⟩
    case isFalse hw => exact .inr ⟨hw, he⟩
  have carries : ∀ e', (({ s with workQueue := rest } : State n).setWorker w (.taken e)).Carries e' →
      s.Carries e' := by
    rintro e' (he | ⟨w', he⟩)
    · exact .inl (by rw [waiting]; exact List.mem_cons_of_mem e he)
    · rcases event w' e' he with ⟨_, rfl⟩ | ⟨_, he⟩
      · exact .inl (by simp [waiting])
      · exact .inr ⟨w', he⟩
  have mine : e.raisedFor ≠ none → s.Turn .waiting e.fd :=
    fun hc => ⟨e, by simp [waiting], hc, rfl⟩
  have distinct := h.distinct
  rw [waiting] at distinct
  have old : ∀ (p : Place n) fd, p ≠ .worker w →
      (({ s with workQueue := rest } : State n).setWorker w (.taken e)).Turn p fd → s.Turn p fd := by
    intro p fd hne ht
    cases p with
    | registering => exact ht
    | armed => exact ht
    | waiting =>
      obtain ⟨e', he, ht⟩ := ht
      exact ⟨e', by rw [waiting]; exact List.mem_cons_of_mem e he, ht⟩
    | worker w' =>
      obtain ⟨e', he, ht⟩ := ht
      rcases event w' e' he with ⟨hw, _⟩ | ⟨_, he⟩
      · exact absurd (congrArg _ hw) hne
      · exact ⟨e', he, ht⟩
  constructor
  · exact owned
  · apply h.exclusive.gain (.worker w) old
    rintro fd ⟨e', he, hc, rfl⟩
    right
    rcases event w e' he with ⟨_, rfl⟩ | ⟨hw, _⟩
    case inr => exact absurd rfl hw
    intro p hne ht
    by_cases hp : p = .waiting
    · subst hp
      obtain ⟨e'', he'', hc'', hfd⟩ := ht
      have client : e'.raisedFor.isSome = true := Option.isSome_iff_ne_none.mpr hc
      simp only [List.filter_cons, client, ↓reduceIte, List.map_cons, List.nodup_cons] at distinct
      apply distinct.1
      rw [List.mem_map]
      exact ⟨e'', List.mem_filter.mpr ⟨he'', Option.isSome_iff_ne_none.mpr hc''⟩, hfd⟩
    · exact hp (h.exclusive p .waiting e'.fd (old p _ hne ht) (mine hc))
  · exact h.registered
  · intro e' k he
    exact h.raised e' k (carries e' he)
  · intro e' he
    exact h.own e' (carries e' he)
  · exact distinct.sublist (((List.sublist_cons_self e _).filter _).map _)
  · intro w' e' k hs
    simp only [State.setWorker, Function.update_apply] at hs
    split at hs
    · cases hs
    · exact h.serving w' e' k hs
  · intro fd hfd e' he
    exact h.expiring fd hfd e' (carries e' he)

/-- `EPOLL_CTL_MOD` arms the descriptor of the connection just served. -/
theorem Kept.rearm (h : Kept cfg s) {w : Fin n} {e : Event} {k : Sock} {i : Interest}
    (hpc : s.workers w = .rearming e k i) (present : s.epoll e.fd ≠ .absent)
    (owned : Owned cfg ({ s with
      epoll := Function.update s.epoll e.fd (.armed i) }.setWorker w .idle)) :
    Kept cfg ({ s with
      epoll := Function.update s.epoll e.fd (.armed i) }.setWorker w .idle) := by
  have event : ∀ w' e', ((({ s with
      epoll := Function.update s.epoll e.fd (.armed i) } : State n).setWorker w .idle).workers
      w').event = some e' → w' ≠ w ∧ (s.workers w').event = some e' := by
    intro w' e' he
    simp only [State.setWorker, Function.update_apply] at he
    split at he
    case isTrue => cases he
    case isFalse hw => exact ⟨hw, he⟩
  have carries : ∀ e', (({ s with
      epoll := Function.update s.epoll e.fd (.armed i) } : State n).setWorker w .idle).Carries e' →
      s.Carries e' := by
    rintro e' (he | ⟨w', he⟩)
    · exact .inl he
    · exact .inr ⟨w', (event w' e' he).2⟩
  have client : e.raisedFor = some k := (h.serving w e k (by rw [hpc]; rfl)).1
  have mine : s.Turn (.worker w) e.fd := ⟨e, by rw [hpc]; rfl, by simp [client], rfl⟩
  have old : ∀ (p : Place n) fd, p ≠ .armed → (({ s with
      epoll := Function.update s.epoll e.fd (.armed i) } : State n).setWorker w .idle).Turn p fd →
      p ≠ .worker w ∧ s.Turn p fd := by
    intro p fd hne ht
    cases p with
    | registering => exact ⟨by simp, ht⟩
    | armed => exact absurd rfl hne
    | waiting => exact ⟨by simp, ht⟩
    | worker w' =>
      obtain ⟨e', he, ht⟩ := ht
      obtain ⟨hw, he⟩ := event w' e' he
      exact ⟨fun hp => hw (Place.worker.inj hp), e', he, ht⟩
  constructor
  · exact owned
  · apply h.exclusive.gain .armed
    · intro p fd hne ht
      exact (old p fd hne ht).2
    · rintro fd ⟨j, hj⟩
      simp only [State.setWorker, Function.update_apply] at hj
      split at hj
      case isFalse => exact .inl ⟨j, hj⟩
      case isTrue hfd =>
        right
        subst hfd
        intro p hne ht
        obtain ⟨hp, ht⟩ := old p _ hne ht
        exact hp (h.exclusive p (.worker w) _ ht mine)
  · intro fd hne
    simp only [State.setWorker, Function.update_apply] at hne
    split at hne
    case isTrue hfd => exact hfd ▸ h.registered e.fd present
    case isFalse => exact h.registered fd hne
  · intro e' k' he
    exact h.raised e' k' (carries e' he)
  · intro e' he
    exact h.own e' (carries e' he)
  · exact h.distinct
  · intro w' e' k' hs
    simp only [State.setWorker, Function.update_apply] at hs
    split at hs
    · cases hs
    · exact h.serving w' e' k' hs
  · intro fd hfd e' he
    exact h.expiring fd hfd e' (carries e' he)

/-! ## Every clean step -/

/-- The calls of `closeConnection` other than `close` open and close nothing. -/
theorem closeConnection_keeps {fd : Fd} {stage : Closing} {next : Option Closing}
    (hc : closeConnection s fd stage = (s', next)) (hne : stage ≠ .close) :
    s'.files = s.files ∧ (∀ fd', s'.epoll fd' = s.epoll fd' ∨ s'.epoll fd' = .absent) ∧
      s'.workQueue = s.workQueue := by
  cases stage <;> simp only [closeConnection] at hc
  case erase => split at hc <;> cases hc <;> exact ⟨rfl, fun _ => .inl rfl, rfl⟩
  case ctlDel =>
    cases hc
    refine ⟨rfl, ?_, rfl⟩
    intro fd'
    by_cases hfd : fd' = fd
    · exact .inr (by simp [hfd])
    · exact .inl (Function.update_of_ne hfd _ _)
  case close => exact absurd rfl hne
  case account =>
    cases hc
    exact ⟨rfl, fun _ => .inl rfl, rfl⟩

/-- The accept thread moves, and no event and no descriptor changes place. -/
theorem Kept.moveAccepter (h : Kept cfg s) (owned : Owned cfg s') (files : s'.files = s.files)
    (epoll : s'.epoll = s.epoll) (workers : s'.workers = s.workers)
    (objects : s'.objects = s.objects)
    (registering : ∀ fd, s'.accepter.registering = some fd → s.accepter.registering = some fd)
    (waiting : s'.waiting.Sublist s.waiting)
    (expiring : ∀ fd ∈ s'.accepter.expiring, s.Quiet fd) : Kept cfg s' := by
  refine h.frame owned files ?_ registering waiting ?_ ?_ expiring
  · intro fd
    exact .inl (congrFun epoll fd)
  · rw [workers]
    exact fun _ _ he => he
  · rw [workers, objects]
    exact h.serving

/-- The accept thread moves to where it has nothing to register and nothing to
close. -/
theorem Kept.freeAccepter (h : Kept cfg s) (owned : Owned cfg s') (files : s'.files = s.files)
    (epoll : s'.epoll = s.epoll) (workers : s'.workers = s.workers)
    (objects : s'.objects = s.objects) (registering : s'.accepter.registering = none)
    (waiting : s'.waiting.Sublist s.waiting) (expiring : s'.accepter.expiring = []) :
    Kept cfg s' := by
  refine h.moveAccepter owned files epoll workers objects ?_ waiting ?_
  · simp [registering]
  · simp [expiring]

/-- The new connection's object is nobody's connection yet. -/
theorem Kept.insert (h : Kept cfg s) {batch : List Event} {fd : Fd} {k : Sock}
    (hpc : s.accepter = .insert batch fd k)
    (owned : Owned cfg { s.setObject k { fd := fd, lastActive := s.now } with
      connections := s.connections.insert fd k
      accepter := .opened batch fd }) :
    Kept cfg { s.setObject k { fd := fd, lastActive := s.now } with
      connections := s.connections.insert fd k
      accepter := .opened batch fd } := by
  have new : s.files fd = some k := h.owned.inserting fd k (by rw [hpc]; rfl)
  refine h.frame owned rfl (fun _ => .inl rfl) ?_ ?_ (fun _ _ he => he) ?_ ?_
  · rw [hpc]
    exact fun _ hr => hr
  · simp [State.waiting, State.setObject, hpc, AcceptPc.batch]
  · intro w e k' hs
    obtain ⟨raised, obj⟩ := h.serving w e k' hs
    refine ⟨raised, ?_⟩
    have he : (s.workers w).event = some e := WorkerPc.event_of_serving hs
    have hne : k' ≠ k := by
      rintro rfl
      have hfd := h.owned.injective e.fd fd k' (h.raised e k' (.inr ⟨w, he⟩) raised) new
      have := h.exclusive (.worker w) .registering fd ⟨e, he, by simp [raised], hfd⟩
        ⟨by rw [hpc]; rfl, by simp [new]⟩
      cases this
    simpa only [State.setObject, Function.update_of_ne hne] using obj
  · intro fd' hfd
    simp [AcceptPc.expiring] at hfd

/-- A call of `closeConnection` by the sweep other than `close`, with only quiet
descriptors still to close. -/
theorem Kept.closingAccepter (h : Kept cfg s) {at_ : Time} {fd : Fd} {fds rest : List Fd}
    {stage stage' : Closing} {next : Option Closing} {t : State n}
    (owned : Owned cfg { t with accepter := .expire at_ rest stage' })
    (pc : s.accepter = .expire at_ (fd :: fds) stage)
    (call : closeConnection s fd stage = (t, next)) (notClose : stage ≠ .close)
    (quiet : ∀ fd' ∈ rest, s.Quiet fd') :
    Kept cfg { t with accepter := .expire at_ rest stage' } := by
  obtain ⟨_, workers, _, _, objects⟩ := closeConnection_frame call
  obtain ⟨files, epoll, queue⟩ := closeConnection_keeps call notClose
  refine h.frame owned files epoll ?_ ?_ ?_ ?_ quiet
  · simp [AcceptPc.registering]
  · simp [State.waiting, queue, pc, AcceptPc.batch]
  · rw [workers]
    exact fun _ _ he => he
  · rw [workers, objects]
    exact h.serving

/-- A clean move of the accept thread keeps the invariant. -/
theorem Kept.acceptMove {c : AcceptChoice} (h : Kept cfg s) (clean : Clean cfg s (.accepter c))
    (move : AcceptMove cfg s c s') : Kept cfg s' := by
  have owned : Owned cfg s' := h.owned.acceptMove move
  have quiet : ∀ {at_ fds stage}, s.accepter = .expire at_ fds stage → ∀ fd ∈ fds, s.Quiet fd := by
    intro at_ fds stage pc fd hfd
    exact h.expiring fd (by rwa [pc])
  cases move with
  | ready pc _ nodup deliver => exact h.ready pc nodup deliver owned
  | accepted pc _ free => exact h.accept pc free owned
  | insert pc => exact h.insert pc owned
  | opened pc =>
    refine h.moveAccepter owned rfl rfl rfl rfl ?_ ?_ (List.forall_mem_nil _)
    · rw [pc]
      exact fun _ hr => hr
    · simp [State.waiting, pc, AcceptPc.batch]
  | added pc isOpen => exact h.register pc isOpen owned
  | scan pc perm =>
    refine h.moveAccepter owned rfl rfl rfl rfl ?_ ?_ ?_
    · simp [AcceptPc.registering]
    · simp [State.waiting, pc, AcceptPc.batch]
    · intro fd hfd
      apply clean fd
      simp only [State.collects, pc]
      exact perm.mem_iff.mp hfd
  | @closing at_ fd fds stage next t pc call =>
    by_cases hst : stage = .close
    · subst hst
      cases call
      refine h.close owned rfl rfl (by rw [pc]; rfl) ?_ (fun _ _ he => he) ?_
        (fun _ _ hp => hp) rfl (by rw [pc]; rfl)
      · simp [State.waiting, State.closeFd, pc, AcceptPc.batch]
      · intro e he _
        apply quiet pc fd List.mem_cons_self
        rcases he with he | he
        · exact .inl (by simpa [State.waiting, State.closeFd, pc, AcceptPc.batch] using he)
        · exact .inr he
    · exact h.closingAccepter owned pc call hst (quiet pc)
  | @closed at_ fd fds stage t pc call =>
    have hst : stage ≠ .close := by
      rintro rfl
      cases call
    refine h.closingAccepter owned pc call hst ?_
    intro fd' hfd
    exact quiet pc fd' (List.mem_cons_of_mem fd hfd)
  | _ pc =>
    refine h.freeAccepter owned rfl rfl rfl rfl rfl ?_ rfl
    simp [State.waiting, pc, AcceptPc.batch]

/-- A worker moves and takes no event. -/
theorem Kept.moveWorker (h : Kept cfg s) (owned : Owned cfg s') {w : Fin n} {pc : WorkerPc}
    (files : s'.files = s.files)
    (epoll : ∀ fd, s'.epoll fd = s.epoll fd ∨ s'.epoll fd = .absent)
    (workers : s'.workers = Function.update s.workers w pc)
    (queue : s'.workQueue = s.workQueue) (accepter : s'.accepter = s.accepter)
    (objects : ∀ k, (s'.objects k).fd = (s.objects k).fd)
    (event : ∀ e, pc.event = some e → (s.workers w).event = some e)
    (serving : ∀ e k, pc.serving = some (e, k) →
      e.raisedFor = some k ∧ (s.objects k).fd = e.fd) : Kept cfg s' := by
  refine h.frame owned files epoll ?_ ?_ ?_ ?_ ?_
  · rw [accepter]
    exact fun _ hr => hr
  · rw [State.waiting, State.waiting, queue, accepter]
  · intro w' e he
    rw [workers, Function.update_apply] at he
    split at he
    case isTrue hw => exact hw ▸ event e he
    case isFalse => exact he
  · intro w' e k hs
    rw [objects]
    rw [workers, Function.update_apply] at hs
    split at hs
    case isTrue => exact serving e k hs
    case isFalse => exact h.serving w' e k hs
  · rw [accepter]
    exact h.expiring

/-- Until the descriptor is closed, a closing worker has its event in hand. -/
theorem WorkerPc.event_closing (e : Event) (k : Sock) {stage : Closing} (hst : stage ≠ .account) :
    (WorkerPc.closing e k stage).event = some e ∧
      (WorkerPc.closing e k stage).serving = some (e, k) := by
  cases stage with
  | account => exact absurd rfl hst
  | _ => exact ⟨rfl, rfl⟩

/-- A closing worker has no other event in hand. -/
theorem WorkerPc.closing_event {e e' : Event} {k : Sock} {stage : Closing}
    (h : (WorkerPc.closing e k stage).event = some e') : e' = e := by
  cases stage <;> cases h <;> rfl

/-- A worker closes the descriptor of its own connection, and has nothing in hand
then. -/
theorem Kept.closeWorker (h : Kept cfg s) {w : Fin n} {e : Event} {k : Sock}
    (pc : s.workers w = .closing e k .close)
    (owned : Owned cfg ((s.closeFd e.fd).setWorker w (.closing e k .account))) :
    Kept cfg ((s.closeFd e.fd).setWorker w (.closing e k .account)) := by
  have mine : (s.workers w).event = some e := by rw [pc]; rfl
  have client : e.raisedFor ≠ none := by
    simp [(h.serving w e k (by rw [pc]; rfl)).1]
  have others : ∀ w' pc', Function.update s.workers w (.closing e k .account) w' = pc' →
      pc' = .closing e k .account ∨ (w' ≠ w ∧ s.workers w' = pc') := by
    intro w' pc' hu
    rw [Function.update_apply] at hu
    split at hu
    case isTrue => exact .inl hu.symm
    case isFalse hw => exact .inr ⟨hw, hu⟩
  refine h.close owned rfl rfl rfl rfl ?_ ?_ ?_ rfl rfl
  · intro w' e' he
    rcases others w' _ rfl with hw | ⟨_, hw⟩
    · exact absurd he (by simp [State.setWorker, State.closeFd, hw, WorkerPc.event])
    · rw [hw]
      exact he
  · rintro e' (he | ⟨w', he⟩) hc hfd
    · exact (h.alone mine client hfd hc).1 he
    · rcases others w' _ rfl with hw | ⟨hne, hw⟩
      · exact absurd he (by simp [State.setWorker, State.closeFd, hw, WorkerPc.event])
      · refine (h.alone mine client hfd hc).2 w' hne ?_
        rw [hw]
        exact he
  · intro w' p hp
    rcases others w' _ rfl with hw | ⟨_, hw⟩
    · exact absurd hp (by simp [State.setWorker, State.closeFd, hw, WorkerPc.serving])
    · rw [hw]
      exact hp

/-- A move of a worker keeps the invariant, whatever it is. -/
theorem Kept.workerMove {w : Fin n} {c : WorkerChoice} (h : Kept cfg s)
    (move : WorkerMove s w c s') : Kept cfg s' := by
  have owned : Owned cfg s' := h.owned.workerMove move
  -- the worker goes on with the event and the connection it has, or with less
  have moves : ∀ {t : State n} {pc : WorkerPc}, Owned cfg t → t.files = s.files →
      t.epoll = s.epoll → t.workers = Function.update s.workers w pc →
      t.workQueue = s.workQueue → t.accepter = s.accepter →
      (∀ k, (t.objects k).fd = (s.objects k).fd) →
      (∀ e, pc.event = some e → (s.workers w).event = some e) →
      (∀ p, pc.serving = some p → (s.workers w).serving = some p) → Kept cfg t := by
    intro t pc owned files epoll workers queue accepter objects event serving
    refine h.moveWorker owned files ?_ workers queue accepter objects event ?_
    · intro fd
      exact .inl (congrFun epoll fd)
    · intro e k hp
      exact h.serving w e k (serving _ hp)
  have same : ∀ (k : Sock) (c : Connection), c.fd = (s.objects k).fd →
      ∀ k', ((s.setObject k c).objects k').fd = (s.objects k').fd := by
    intro k c hc k'
    by_cases hk : k' = k
    · simp [State.setObject, hk, hc]
    · simp [State.setObject, hk]
  cases move with
  | received => exact h
  | sent => exact h
  | exit pc | gone pc =>
    exact moves owned rfl rfl rfl rfl rfl (fun _ => rfl) (by simp [WorkerPc.event])
      (by simp [WorkerPc.serving])
  | take pc queue => exact h.take queue owned
  | @found e k pc found =>
    obtain ⟨file, obj⟩ := h.owned.table e.fd k found
    have carried : s.Carries e := .inr ⟨w, by rw [pc]; rfl⟩
    -- the table's connection is the one that the event was raised for
    have raised : e.raisedFor = some k := by
      cases hr : e.raisedFor with
      | none =>
        have := h.own e carried hr
        exact absurd this (h.owned.reserved e.fd (by simp [file]))
      | some k' =>
        have := h.raised e k' carried hr
        rw [file] at this
        exact this.symm
    have entered : (enter e k).event = some e ∧ (enter e k).serving = some (e, k) := by
      unfold enter
      split
      · exact ⟨rfl, rfl⟩
      · split <;> exact ⟨rfl, rfl⟩
    refine h.moveWorker owned rfl (fun _ => .inl rfl) rfl rfl rfl (same _ _ rfl) ?_ ?_
    · intro e' he
      rw [entered.1] at he
      rw [pc]
      exact he
    · intro e' k' hp
      rw [entered.2] at hp
      cases hp
      exact ⟨raised, obj⟩
  | stamp pc =>
    refine moves owned rfl rfl rfl rfl rfl (same _ _ rfl) ?_ ?_ <;> rw [pc] <;> exact fun _ he => he
  | @release e k action pc =>
    refine moves owned rfl rfl rfl rfl rfl (same _ _ rfl) ?_ ?_ <;> rw [pc] <;>
      cases action <;> exact fun _ he => he
  | rearmed pc present => exact h.rearm pc present owned
  | @closing e k stage next t pc call =>
    by_cases hst : stage = .close
    · subst hst
      cases call
      exact h.closeWorker pc owned
    · obtain ⟨accepter, workers, _, _, objects⟩ := closeConnection_frame call
      obtain ⟨files, epoll, queue⟩ := closeConnection_keeps call hst
      have hacc : stage ≠ .account := by
        rintro rfl
        cases call
      obtain ⟨event, serving⟩ := WorkerPc.event_closing e k hacc
      refine h.moveWorker owned files epoll (congrArg (Function.update · w _) workers) queue
        accepter (fun k => by simp [State.setWorker, objects]) ?_ ?_
      · intro e' he
        rw [pc, event, WorkerPc.closing_event he]
      · intro e' k' hp
        have he := WorkerPc.event_of_serving hp
        apply h.serving w
        rw [pc, serving]
        cases next <;> cases hp <;> rfl
  | @closed e k stage t pc call =>
    have hst : stage ≠ .close := by
      rintro rfl
      cases call
    obtain ⟨accepter, workers, _, _, objects⟩ := closeConnection_frame call
    obtain ⟨files, epoll, queue⟩ := closeConnection_keeps call hst
    refine h.moveWorker owned files epoll (congrArg (Function.update · w _) workers) queue
      accepter (fun k => by simp [State.setWorker, objects]) ?_ ?_
    · simp [WorkerPc.event]
    · simp [WorkerPc.serving]
  | _ pc =>
    refine moves owned rfl rfl rfl rfl rfl (fun _ => rfl) ?_ ?_ <;> rw [pc] <;>
      exact fun _ he => he

/-- A clean move of `stop()` keeps the invariant. -/
theorem Kept.stopMove {c : StopChoice} (h : Kept cfg s) (clean : Clean cfg s (.stopper c))
    (move : StopMove s c s') : Kept cfg s' := by
  have owned : Owned cfg s' := h.owned.stopMove move
  have moves : ∀ {t : State n}, Owned cfg t → t.files = s.files → t.epoll = s.epoll →
      t.workers = s.workers → t.objects = s.objects → t.workQueue = s.workQueue →
      t.accepter = s.accepter → Kept cfg t := by
    intro t owned files epoll workers objects queue accepter
    refine h.moveAccepter owned files epoll workers objects ?_ ?_ ?_
    · rw [accepter]
      exact fun _ hr => hr
    · rw [State.waiting, State.waiting, queue, accepter]
    · rw [accepter]
      exact h.expiring
  cases move with
  | @close fd fds pc =>
    have quiet : s.Quiet fd := by
      apply clean fd
      simp [State.stops, pc]
    exact h.close owned rfl rfl rfl rfl (fun _ _ he => he) (fun e he _ => quiet e he)
      (fun _ _ hp => hp) rfl rfl
  | _ => exact moves owned rfl rfl rfl rfl rfl rfl

/-- Every clean step keeps the invariant. -/
theorem Kept.step {l : Label n} (h : Kept cfg s) (clean : Clean cfg s l)
    (hs : step cfg s l = some s') : Kept cfg s' := by
  cases l with
  | tick elapsed =>
    have owned : Owned cfg s' := h.owned.step hs
    cases hs
    exact h.moveAccepter owned rfl rfl rfl rfl (fun _ hr => hr) (List.Sublist.refl _) h.expiring
  | accepter c => exact h.acceptMove clean (acceptStep_move hs)
  | worker w c => exact h.workerMove (workerStep_move hs)
  | stopper c => exact h.stopMove clean (stopStep_move hs)

/-- The invariant holds in every state of every clean run. -/
theorem kept_of_reach (r : (loop n cfg).Reach (Clean cfg) s) : Kept cfg s :=
  r.invariant (kept_initial n cfg) fun _ _ _ h clean hs => h.step clean hs

end WebServer.Pool
