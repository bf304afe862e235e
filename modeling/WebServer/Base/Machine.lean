/-! # Machines: interleaved steps, runs, and the invariant rule

A `Machine` is a start state and a partial step function: the label of a step
names who moves and carries every outcome the environment chooses, so a step
with its label is a computation and a run can be evaluated. What a proof wants
of a machine is a property of every state its runs reach, either all runs or
those whose steps each satisfy a condition on the state before the step.

The rule that serves is `Reach.invariant`; `Reach.of_exec` is how a concrete run
is shown to be one. Nothing here knows what is being modelled.
-/

namespace WebServer

/-- A start state and a partial step function; `none` says that the step does
not apply. -/
structure Machine (σ : Type u) (α : Type v) where
  start : σ
  step : σ → α → Option σ

namespace Machine

variable {σ : Type u} {α : Type v}

/-- The states reached by steps that each meet the condition `ok` in the state
they are taken from. -/
inductive Reach (m : Machine σ α) (ok : σ → α → Prop) : σ → Prop where
  | start : Reach m ok m.start
  | step {s s' : σ} {a : α} :
      Reach m ok s → ok s a → m.step s a = some s' → Reach m ok s'

/-- The states reached by any steps at all. -/
abbrev Reachable (m : Machine σ α) : σ → Prop :=
  m.Reach fun _ _ => True

/-- Runs the labels in order from a state. -/
def exec (m : Machine σ α) (s : σ) : List α → Option σ
  | [] => some s
  | a :: as => (m.step s a).bind fun s' => m.exec s' as

/-- Every step of the run of `as` from `s` meets the condition. -/
def Meets (m : Machine σ α) (ok : σ → α → Prop) (s : σ) : List α → Prop
  | [] => True
  | a :: as => ok s a ∧ ∀ s', m.step s a = some s' → m.Meets ok s' as

/-- The condition along a run can be evaluated when it can be at each step. -/
instance decidableMeets (m : Machine σ α) (ok : σ → α → Prop)
    [∀ s a, Decidable (ok s a)] : ∀ s as, Decidable (m.Meets ok s as)
  | _, [] => isTrue trivial
  | s, a :: as =>
    match h : m.step s a with
    | none => decidable_of_iff (ok s a) (by simp [Meets, h])
    | some s' =>
      have := decidableMeets m ok s' as
      decidable_of_iff (ok s a ∧ m.Meets ok s' as) (by simp [Meets, h])

variable {m : Machine σ α} {ok : σ → α → Prop}

/-- The state a run ends in is reached, if the run's steps meet the condition. -/
theorem Reach.of_exec {s t : σ} {as : List α} (r : m.Reach ok s)
    (meets : m.Meets ok s as) (h : m.exec s as = some t) : m.Reach ok t := by
  induction as generalizing s with
  | nil =>
    cases h
    exact r
  | cons a as ih =>
    simp only [exec, Option.bind_eq_some_iff] at h
    obtain ⟨s', hs, h⟩ := h
    exact ih (.step r meets.1 hs) (meets.2 s' hs) h

/-- What every step keeps, a run keeps. -/
theorem exec_keeps {I : σ → Prop} (keep : ∀ s a s', I s → m.step s a = some s' → I s')
    {s t : σ} {as : List α} (hs : I s) (h : m.exec s as = some t) : I t := by
  induction as generalizing s with
  | nil =>
    cases h
    exact hs
  | cons a as ih =>
    obtain ⟨s', hstep, h⟩ := Option.bind_eq_some_iff.mp h
    exact ih (keep s a s' hs hstep) h

/-- Every run is a run under the condition that always holds. -/
theorem meets_true (m : Machine σ α) (s : σ) (as : List α) :
    m.Meets (fun _ _ => True) s as := by
  induction as generalizing s with
  | nil => trivial
  | cons a as ih => exact ⟨trivial, fun s' _ => ih s'⟩

/-- The state a run from the start ends in is reachable. -/
theorem Reachable.of_exec {t : σ} {as : List α} (h : m.exec m.start as = some t) :
    m.Reachable t :=
  Reach.of_exec .start (m.meets_true m.start as) h

/-- A condition on the steps only leaves runs out. -/
theorem Reach.reachable {s : σ} (r : m.Reach ok s) : m.Reachable s := by
  induction r with
  | start => exact .start
  | step _ _ hs ih => exact .step ih trivial hs

/-- The invariant rule: what holds at the start and is kept by every step that
meets the condition holds of every state reached. -/
theorem Reach.invariant {I : σ → Prop} (start : I m.start)
    (keep : ∀ s a s', I s → ok s a → m.step s a = some s' → I s')
    {s : σ} (r : m.Reach ok s) : I s := by
  induction r with
  | start => exact start
  | step _ h hs ih => exact keep _ _ _ ih h hs

end Machine

end WebServer
