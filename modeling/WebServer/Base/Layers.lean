import Mathlib.Data.List.AList

/-! # Settings in layers

A layer gives values to names, and within a layer the last word counts. Laying one
layer over another name by name lets the upper one speak first for every name
(`lookup_overlay`). A setting that goes by two names, of which one is preferred, can
then be read in two ways: each name through both layers, or each layer for both names.
The two agree unless the upper layer gives it under the other name only and the lower
one under the preferred name (`byName_eq_byLayer`, `byName_of_shadowed`). -/

namespace WebServer.Layers

section Tables

variable {κ β : Type} [DecidableEq κ]

/-- The value that was given to the name last. -/
def lastGiven (name : κ) : List (κ × β) → Option β
  | [] => none
  | given :: later => (lastGiven name later).or (if given.1 = name then some given.2 else none)

theorem lastGiven_cons (name : κ) (given : κ × β) (later : List (κ × β)) :
    lastGiven name (given :: later) = (lastGiven name later).or (lastGiven name [given]) := rfl

/-- A layer written over another. -/
def overlay (givens : List (κ × β)) (below : AList fun _ : κ => β) : AList fun _ : κ => β :=
  givens.foldl (fun table given => table.insert given.1 given.2) below

/-- The layer above speaks first. -/
theorem lookup_overlay (givens : List (κ × β)) (below : AList fun _ : κ => β) (name : κ) :
    (overlay givens below).lookup name = (lastGiven name givens).or (below.lookup name) := by
  induction givens generalizing below with
  | nil => rfl
  | cons given later ih =>
    show (overlay later (below.insert given.1 given.2)).lookup name = _
    rw [ih, lastGiven, Option.or_assoc]
    congr 1
    by_cases hname : given.1 = name
    · rw [if_pos hname, ← hname, AList.lookup_insert]
      rfl
    · rw [if_neg hname, AList.lookup_insert_ne (Ne.symm hname)]
      rfl

/-- What a layer gives to some names, one after the other. -/
def givenTo (layer : κ → Option β) (names : List κ) : List (κ × β) :=
  names.filterMap fun name => (layer name).map (Prod.mk name)

theorem lastGiven_givenTo (layer : κ → Option β) (names : List κ) (name : κ) :
    lastGiven name (givenTo layer names) = if name ∈ names then layer name else none := by
  induction names with
  | nil => rfl
  | cons head names ih =>
    cases hl : layer head with
    | none =>
      rw [givenTo, List.filterMap_cons_none (by rw [hl]; rfl), ← givenTo, ih]
      by_cases hname : name = head
      · subst hname
        simp [hl]
      · simp [hname]
    | some value =>
      rw [givenTo, List.filterMap_cons_some (by rw [hl]; rfl), ← givenTo, lastGiven, ih]
      by_cases hname : name = head
      · subst hname
        by_cases hin : name ∈ names
        · simp [hin, hl]
        · simp [hin, hl]
      · simp [hname, Ne.symm hname]

end Tables

/-! ## A setting with two names -/

section Names

variable {κ β : Type} (above below : κ → Option β) (preferred other : κ)

/-- Each name through both layers. -/
def byName : Option β :=
  ((above preferred).or (below preferred)).or ((above other).or (below other))

/-- Each layer for both names. -/
def byLayer : Option β :=
  ((above preferred).or (above other)).or ((below preferred).or (below other))

variable {above below preferred other}

/-- The preferred name reaches past the other one only if it is given below alone. -/
theorem byName_eq_byLayer
    (h : above preferred ≠ none ∨ above other = none ∨ below preferred = none) :
    byName above below preferred other = byLayer above below preferred other := by
  unfold byName byLayer
  cases ha : above preferred with
  | some value => simp
  | none =>
    cases hb : above other with
    | none => simp
    | some value =>
      have hc : below preferred = none := by simpa [ha, hb] using h
      simp [hc]

/-- There the two differ. -/
theorem byName_of_shadowed {value hidden : β} (ha : above preferred = none)
    (hb : above other = some value) (hc : below preferred = some hidden) :
    byName above below preferred other = some hidden ∧
      byLayer above below preferred other = some value := by
  unfold byName byLayer
  rw [ha, hb, hc]
  exact ⟨rfl, rfl⟩

end Names

end WebServer.Layers
