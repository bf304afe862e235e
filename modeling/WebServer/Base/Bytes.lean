/-!
# Byte strings and searching in them

The carrier of every text in this development is a list of octets. A
text constant is written as an ASCII string and turned into octets by
`ascii`.

`find` is the search every scanner rests on: the position of the first
occurrence of a pattern, or `none`. Three facts about it carry the
streaming proofs:

- a found position stays where it is when more octets arrive
  (`find_append`), and one that was not found before they arrive ends
  among them (`find_none_append`);
- what is found splits the text, and the part before it holds no
  occurrence (`find_split`);
- a pattern of two different octets cannot overlap itself, so a text free
  of it, followed by it, is found at exactly its own length
  (`find_pair_of_free`).
-/

namespace WebServer.Base

/-- A byte string. -/
abbrev Bytes := List UInt8

/-- The octets of an ASCII text constant. -/
def ascii (text : String) : Bytes := text.toList.map fun c => UInt8.ofNat c.toNat

section Find

variable {α : Type} [DecidableEq α]

/-- The position of the first occurrence of `pattern`, if there is one. -/
def find (pattern : List α) : List α → Option Nat
  | [] => if pattern = [] then some 0 else none
  | a :: text =>
    if pattern.isPrefixOf (a :: text) then some 0
    else (find pattern text).map (· + 1)

/-- A found pattern splits the text at its position, and there is no
occurrence that ends before it does. -/
theorem find_split {pattern : List α} (hp : pattern ≠ []) :
    ∀ {text : List α} {i : Nat}, find pattern text = some i →
      ∃ before after, text = before ++ pattern ++ after ∧ before.length = i ∧
        find pattern before = none
  | [], i, h => by
    rw [find, if_neg hp] at h
    cases h
  | a :: text, i, h => by
    rw [find] at h
    split at h
    next hpre =>
      cases h
      obtain ⟨after, hafter⟩ := List.isPrefixOf_iff_prefix.mp hpre
      exact ⟨[], after, hafter.symm, rfl, by rw [find, if_neg hp]⟩
    next hpre =>
      obtain ⟨j, hj, rfl⟩ := Option.map_eq_some_iff.mp h
      obtain ⟨before, after, rfl, rfl, hfree⟩ := find_split hp hj
      refine ⟨a :: before, after, rfl, rfl, ?_⟩
      -- An occurrence at the front of `a :: before` is one at the front
      -- of the whole text.
      have hnot : ¬ pattern.isPrefixOf (a :: before) = true := fun hin =>
        hpre (List.isPrefixOf_iff_prefix.mpr
          ((List.isPrefixOf_iff_prefix.mp hin).trans
            ⟨pattern ++ after, by simp only [List.cons_append, List.append_assoc]⟩))
      rw [find, if_neg hnot, hfree]
      rfl

/-- A found pattern lies inside the text. -/
theorem find_fits {pattern text : List α} {i : Nat} (hp : pattern ≠ [])
    (h : find pattern text = some i) : i + pattern.length ≤ text.length := by
  obtain ⟨before, after, rfl, rfl, _⟩ := find_split hp h
  simp only [List.length_append]
  omega

/-- Arriving octets do not move an occurrence that was already found. -/
theorem find_append {pattern : List α} (hp : pattern ≠ []) :
    ∀ {text : List α} {i : Nat}, find pattern text = some i →
      ∀ more, find pattern (text ++ more) = some i
  | [], i, h, more => by
    rw [find, if_neg hp] at h
    cases h
  | a :: text, i, h, more => by
    rw [List.cons_append, find]
    rw [find] at h
    split at h
    next hpre =>
      cases h
      have hmore : pattern <+: a :: (text ++ more) :=
        (List.isPrefixOf_iff_prefix.mp hpre).trans (List.prefix_append (a :: text) more)
      rw [if_pos (List.isPrefixOf_iff_prefix.mpr hmore)]
    next hpre =>
      obtain ⟨j, hj, rfl⟩ := Option.map_eq_some_iff.mp h
      -- The pattern was found further on, so it fits inside the text: as a
      -- prefix of the longer text it would be a prefix of the shorter.
      have hnot : ¬ pattern.isPrefixOf (a :: (text ++ more)) = true := fun hin => by
        have hfit := find_fits hp hj
        have hlen : pattern.length ≤ (a :: text).length := by
          simp only [List.length_cons]
          omega
        exact hpre (List.isPrefixOf_iff_prefix.mpr
          (List.prefix_of_prefix_length_le (List.isPrefixOf_iff_prefix.mp hin)
            (List.prefix_append (a :: text) more) hlen))
      rw [if_neg hnot, find_append hp hj more]
      rfl

/-- A text that ends in the pattern has an occurrence of it. -/
theorem find_suffix_ne_none {pattern : List α} (hp : pattern ≠ []) :
    ∀ before : List α, find pattern (before ++ pattern) ≠ none
  | [], h => by
    cases pattern with
    | nil => exact hp rfl
    | cons a rest =>
      rw [List.nil_append, find, if_pos (by simp)] at h
      cases h
  | a :: before, h => by
    rw [List.cons_append, find] at h
    split at h
    next => cases h
    next => exact find_suffix_ne_none hp before (Option.map_eq_none_iff.mp h)

/-- An occurrence that was not there before more octets arrived ends among
the new ones. -/
theorem find_none_append {pattern : List α} (hp : pattern ≠ []) {text more : List α} {i : Nat}
    (hnone : find pattern text = none) (h : find pattern (text ++ more) = some i) :
    text.length < i + pattern.length := by
  obtain ⟨before, after, hsplit, hlen, _⟩ := find_split hp h
  refine Nat.lt_of_not_le fun hle => ?_
  -- Otherwise the occurrence lies inside the old text.
  have hpre : before ++ pattern <+: text :=
    List.prefix_of_prefix_length_le ⟨after, hsplit.symm⟩ (List.prefix_append text more)
      (by simp only [List.length_append]; omega)
  obtain ⟨rest, rfl⟩ := hpre
  cases hbp : find pattern (before ++ pattern) with
  | none => exact find_suffix_ne_none hp before hbp
  | some j =>
    rw [find_append hp hbp rest] at hnone
    cases hnone

/-- A pattern of two different octets is found at the end of any text that
is free of it. -/
theorem find_pair_of_free {a b : α} (hab : a ≠ b) (after : List α) :
    ∀ {text : List α}, find [a, b] text = none →
      find [a, b] (text ++ a :: b :: after) = some text.length
  | [], _ => by
    rw [List.nil_append, find, if_pos (by simp)]
    rfl
  | c :: text, h => by
    rw [find] at h
    split at h
    next => cases h
    next hpre =>
      have ih := find_pair_of_free hab after (Option.map_eq_none_iff.mp h)
      have hnot : ¬ [a, b].isPrefixOf (c :: (text ++ a :: b :: after)) = true := by
        cases text with
        | nil => simp [List.isPrefixOf]; intro _ hba; exact absurd hba.symm hab
        | cons d text => simpa [List.isPrefixOf] using hpre
      rw [List.cons_append, find, if_neg hnot, ih]
      rfl

/-- A text that lacks one octet of the pattern is free of the pattern. -/
theorem find_none_of_not_mem {pattern text : List α} {a : α} (ha : a ∈ pattern)
    (h : a ∉ text) : find pattern text = none := by
  cases hf : find pattern text with
  | none => rfl
  | some i =>
    obtain ⟨before, after, rfl, _, _⟩ := find_split (List.ne_nil_of_mem ha) hf
    exact absurd (by simp [ha]) h

/-- A single octet is absent exactly when the search for it fails. -/
theorem find_single_eq_none {c : α} : ∀ {text : List α}, find [c] text = none ↔ c ∉ text
  | [] => by simp [find]
  | a :: text => by
    rw [find]
    by_cases hc : c = a
    · simp [hc, List.isPrefixOf]
    · simp [hc, List.isPrefixOf, find_single_eq_none]

/-- A single octet is found right after any text that lacks it. -/
theorem find_single_of_not_mem {c : α} (after : List α) :
    ∀ {text : List α}, c ∉ text → find [c] (text ++ c :: after) = some text.length
  | [], _ => by rw [List.nil_append, find, if_pos (by simp)]; rfl
  | a :: text, h => by
    have hne : c ≠ a := fun heq => h (heq ▸ List.mem_cons_self)
    have hrest : c ∉ text := fun hmem => h (List.mem_cons_of_mem a hmem)
    rw [List.cons_append, find, if_neg (by simp [List.isPrefixOf, hne]),
      find_single_of_not_mem after hrest]
    rfl

end Find

end WebServer.Base
