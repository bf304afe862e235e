import WebServer.Base.Serial

/-!
# Calls that are taken in sections

An object with a mutex for each of its parts is not one that answers calls: a call takes
the object for a section, leaves it, and takes it again, and other callers' sections come
in between. `Sectioned` says what a call begins with, what a section makes of what is left
of it, and when it returns. A section may also read what is no part of the object; that is
given with it.

The sections of all callers have one serial run (`Serial`). What one caller took of it is
a `Course`: its calls, one after the other, each from its beginning through its sections
to its return. `alone` is a call with nobody in between.
-/

namespace WebServer

/-- An object whose calls are taken in sections. `τ` is what is left of a call. -/
structure Sectioned (σ : Type u) (ι : Type v) (τ : Type w) (χ : Type x) (ω : Type y) where
  /-- What a call does before it takes the object. -/
  enter : ι → τ
  /-- A section: what is left then, and the object. -/
  take : σ → τ × χ → τ × σ
  returned : τ → Option ω

namespace Sectioned

variable {σ : Type u} {ι : Type v} {τ : Type w} {χ : Type x} {ω : Type y}

/-- The calls of one caller that have returned, each with its result, the call that it is
in, and the sections it took for them, each with what it left. -/
inductive Course (object : Sectioned σ ι τ χ ω) :
    List (ι × ω) → Option (ι × τ) → List ((τ × χ) × τ) → Prop where
  | start : Course object [] none []
  | enter {done : List (ι × ω)} {sections : List ((τ × χ) × τ)} (i : ι) :
      Course object done none sections → Course object done (some (i, object.enter i)) sections
  | take {done : List (ι × ω)} {sections : List ((τ × χ) × τ)} {i : ι} {t : τ} (x : χ) (left : τ) :
      Course object done (some (i, t)) sections → object.returned t = none →
      Course object done (some (i, left)) (sections ++ [((t, x), left)])
  | leave {done : List (ι × ω)} {sections : List ((τ × χ) × τ)} {i : ι} {t : τ} {o : ω} :
      Course object done (some (i, t)) sections → object.returned t = some o →
      Course object (done ++ [(i, o)]) none sections

variable {object : Sectioned σ ι τ χ ω}

/-- What every call begins with, and a section keeps, holds whenever a call returns. -/
theorem Course.returns {I : τ → Prop} (enter : ∀ i, I (object.enter i))
    (take : ∀ s t x, I t → I (object.take s (t, x)).1) {done : List (ι × ω)}
    {call : Option (ι × τ)} {sections : List ((τ × χ) × τ)} (c : object.Course done call sections)
    (given : ∀ one ∈ sections, ∃ s, one.2 = (object.take s one.1).1) :
    (∀ one ∈ done, ∃ t, I t ∧ object.returned t = some one.2) ∧
      ∀ i t, call = some (i, t) → I t := by
  induction c with
  | start => exact ⟨List.forall_mem_nil _, fun i t h => by cases h⟩
  | enter i _ ih =>
    refine ⟨(ih given).1, fun i' t h => ?_⟩
    cases h
    exact enter i
  | take x left _ _ ih =>
    obtain ⟨before, last⟩ := List.forall_mem_append.mp given
    obtain ⟨hdone, hcall⟩ := ih before
    refine ⟨hdone, fun i' t h => ?_⟩
    cases h
    obtain ⟨s, hleft⟩ := last _ (List.mem_singleton_self _)
    rw [show left = _ from hleft]
    exact take s _ x (hcall _ _ rfl)
  | leave _ hreturned ih =>
    obtain ⟨hdone, hcall⟩ := ih given
    refine ⟨fun one hone => ?_, fun i' t h => by cases h⟩
    rcases List.mem_append.mp hone with hone | hone
    · exact hdone one hone
    · cases List.mem_singleton.mp hone
      exact ⟨_, hcall _ _ rfl, hreturned⟩

/-- What is left of a call taken by itself, at most so many sections of it, all of which
find the same. -/
def alone (object : Sectioned σ ι τ χ ω) (x : χ) : Nat → σ → τ → Option ω × σ
  | 0, s, t => (object.returned t, s)
  | n + 1, s, t =>
    match object.returned t with
    | some o => (some o, s)
    | none =>
      let (left, s) := object.take s (t, x)
      object.alone x n s left

end Sectioned

end WebServer
