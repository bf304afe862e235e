import WebServer.Laws.Reactor.Shutdown
/-! # What the reactors owe the process

The reactors take no lock, and descriptor numbers and the counter of connections are
common to all of them. While they run nothing is lost and nothing closed twice: every
open client descriptor is one reactor's to close, that reactor closes it once, and the
counter is what their tables hold, but for the connections that a reactor is opening or
closing right now (`reactors_account`).
-/

namespace WebServer.Reactors

open Pool (Fd Sock)

variable {m : Nat} {cfg : Config m} {s : State m}

/-- Each client descriptor that is open is charged to one reactor. A reactor closes what
it has taken out of its own table, while it is open and for the first time; a socket was
closed if it is open no more; and the counter is the sum of the tables, with what was
taken out and not counted off yet, and without what was put in and not counted yet. -/
structure Accounted (cfg : Config m) (s : State m) (closed : Sock → Nat) : Prop where
  charged : ∀ fd, s.files fd ≠ none → ∃! i, (s.reactors i).Claims fd
  closes : ∀ l s' fd, step cfg s l = some s' → s.closes l = some fd →
    ∃ i k, (s.reactors i).pc.removing = some fd ∧ fd ∉ (s.reactors i).connections ∧
      s.files fd = some k ∧ closed k = 0
  once : ∀ k, closed k ≤ 1
  shut : ∀ k, closed k = 1 ↔ k < s.next ∧ ∀ fd, s.files fd ≠ some k
  active : s.activeConnections = Finset.univ.sum fun i => (s.reactors i).counted

/-- Who closes has taken the descriptor out of its table. -/
theorem removing_of_closes {l : Label m} {fd : Fd} (h : s.closes l = some fd) :
    ∃ i, (s.reactors i).pc.removing = some fd := by
  cases l with
  | reactor i c =>
    refine ⟨i, ?_⟩
    cases c <;> simp only [State.closes, reduceCtorEq] at h
    split at h
    next batch e k pc =>
      cases h
      rw [pc]
      rfl
    next at_ fd' fds pc =>
      cases h
      rw [pc]
      rfl
    next => cases h
  | _ => cases h

/-- What the reactors keep in every state. -/
theorem charged_of_reach (r : (loop m cfg).Reachable s) : Charged s ∧ Balanced s := by
  have kept : Owned cfg s ∧ Charged s ∧ Balanced s := by
    refine r.invariant (I := fun s => Owned cfg s ∧ Charged s ∧ Balanced s)
      ⟨owned_initial m cfg, fun fd hne => absurd rfl hne, ?_⟩ ?_
    · simp [Balanced, loop, State.initial, Reactor.counted, Pc.unaccounted, Pc.unopened]
    · rintro s l s' ⟨o, charged, balanced⟩ - hs
      exact ⟨o.step hs, charged.step hs, balanced.step o hs⟩
  exact kept.2

/-- The history counts each socket that was closed, in every run. -/
theorem counted_of_reach {p : State m × (Sock → Nat)} (r : (ledgered m cfg).Reachable p) :
    Counted p.1 p.2 := by
  refine Machine.Reach.history (H := Counted)
    (fun s (reach : (loop m cfg).Reachable s) => owned_of_reach reach) ?_ ?_ r
  · constructor <;> simp [loop, State.initial]
  · exact fun s l s' closed o h _ hs => h.step o hs

/-- In every run of the reactors nothing is lost and nothing closed twice. -/
theorem reactors_account {p : State m × (Sock → Nat)} (r : (ledgered m cfg).Reachable p) :
    Accounted cfg p.1 p.2 := by
  have base : (loop m cfg).Reachable p.1 := Machine.Reach.forget r
  have owned := owned_of_reach base
  obtain ⟨charged, balanced⟩ := charged_of_reach base
  have counted := counted_of_reach r
  -- a socket is open, closed, or not there yet
  have cases_ : ∀ k, (p.2 k = 0 ∧ (p.1.next ≤ k ∨ ∃ fd, p.1.files fd = some k)) ∨
      (p.2 k = 1 ∧ k < p.1.next ∧ ∀ fd, p.1.files fd ≠ some k) := by
    intro k
    by_cases hk : p.1.next ≤ k
    · exact .inl ⟨counted.fresh k hk, .inl hk⟩
    · by_cases isOpen : ∃ fd, p.1.files fd = some k
      · obtain ⟨fd, hfd⟩ := isOpen
        exact .inl ⟨counted.isOpen fd k hfd, .inr ⟨fd, hfd⟩⟩
      · have gone : ∀ fd, p.1.files fd ≠ some k := fun fd hfd => isOpen ⟨fd, hfd⟩
        exact .inr ⟨counted.shut k (Nat.not_le.mp hk) gone, Nat.not_le.mp hk, gone⟩
  constructor
  · intro fd hne
    obtain ⟨i, claims⟩ := charged fd hne
    exact ⟨i, claims, fun j claims' => owned.exclusive j i fd claims' claims⟩
  · intro l s' fd _ hc
    obtain ⟨i, removing⟩ := removing_of_closes hc
    obtain ⟨k, hk⟩ := Option.ne_none_iff_exists'.mp (owned.live i fd (.inr (.inr removing)))
    exact ⟨i, k, removing, (owned.held i).removing fd removing, hk, counted.isOpen fd k hk⟩
  · intro k
    obtain ⟨h, -⟩ | ⟨h, -⟩ := cases_ k <;> omega
  · intro k
    constructor
    · intro h
      obtain ⟨h', -⟩ | ⟨-, shut⟩ := cases_ k
      · omega
      · exact shut
    · rintro ⟨hk, gone⟩
      exact counted.shut k hk gone
  · exact balanced

/-- The end of the run in which a number is reused within a batch, with its history. -/
def reusedInBatchLedger : State 2 × (Sock → Nat) :=
  ((ledgered 2 pair).exec (ledgered 2 pair).start reusedInBatch).get (by decide +kernel)

/-- The client that hung up was closed, and the two that are there are counted. -/
theorem reactors_account_reused :
    (reusedInBatchLedger.2 0, reusedInBatchLedger.1.activeConnections) = (1, 2) ∧
      Accounted pair reusedInBatchLedger.1 reusedInBatchLedger.2 :=
  ⟨by decide +kernel, reactors_account (.of_exec (Option.some_get _).symm)⟩

end WebServer.Reactors
