import WebServer.Base.Machine
/-! # Machines with a history

Some laws are about what happened on the way to a state and not about the state.
`Machine.recording` runs a machine beside a history that every step adds to and
no step looks at, so the machine takes the same steps with it (`recording_step`)
and reaches the same states (`Reach.forget`).
-/

namespace WebServer.Machine

variable {σ : Type u} {α : Type v} {η : Type w}

/-- The machine with a history. `record` says what a step adds, from the state
it is taken in. -/
def recording (m : Machine σ α) (start : η) (record : σ → α → η → η) :
    Machine (σ × η) α where
  start := (m.start, start)
  step p a := (m.step p.1 a).map fun s' => (s', record p.1 a p.2)

variable {m : Machine σ α} {h₀ : η} {record : σ → α → η → η} {ok : σ → α → Prop}

/-- A step of the machine with a history is a step of the machine. -/
theorem recording_step {p q : σ × η} {a : α} (hs : (m.recording h₀ record).step p a = some q) :
    m.step p.1 a = some q.1 ∧ q.2 = record p.1 a p.2 := by
  obtain ⟨s', base, rfl⟩ := Option.map_eq_some_iff.mp hs
  exact ⟨base, rfl⟩

/-- What is reached with a history is reached without. -/
theorem Reach.forget {p : σ × η} (r : (m.recording h₀ record).Reach (fun p a => ok p.1 a) p) :
    m.Reach ok p.1 := by
  induction r with
  | start => exact .start
  | step _ h hs ih => exact .step ih h (recording_step hs).1

/-- The invariant rule with a history: what the machine's invariant needs may
refer to it. -/
theorem Reach.history {I : σ → Prop} {H : σ → η → Prop} (inv : ∀ s, m.Reach ok s → I s)
    (start : H m.start h₀)
    (keep : ∀ s a s' h, I s → H s h → ok s a → m.step s a = some s' → H s' (record s a h))
    {p : σ × η} (r : (m.recording h₀ record).Reach (fun p a => ok p.1 a) p) : H p.1 p.2 := by
  induction r with
  | start => exact start
  | @step p q a r h hs ih =>
    obtain ⟨hs, hq⟩ := recording_step hs
    rw [hq]
    exact keep _ _ _ _ (inv _ r.forget) ih h hs

end WebServer.Machine
