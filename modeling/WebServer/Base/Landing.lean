import WebServer.Base.Tally

/-! # Where a running sum lands

A quantity is added up over a list from the left until the sum reaches a target. `landing`
is the place where that happens, behind the last element if it never does. A greater
quantity lands earlier (`landing_anti`), a higher target later (`landing_mono`).

The quantity may grow while it is read, one element after the other. What was read then
stands for no moment, but it lands between the first moment and the last: that follows from
the rules for an element that was passed (`landing_pass`) and for the one that was reached
(`landing_reach`).
-/

namespace WebServer.Base

variable {α : Type u} {f g : α → Nat} {target seen seen' : Nat} {xs : List α}

/-- The place of the element with which the sum reaches the target. -/
def landing (f : α → Nat) (target : Nat) : Nat → List α → Nat
  | _, [] => 0
  | seen, x :: xs => if target ≤ seen + f x then 0 else landing f target (seen + f x) xs + 1

theorem landing_le_length (f : α → Nat) (target seen : Nat) (xs : List α) :
    landing f target seen xs ≤ xs.length := by
  induction xs generalizing seen with
  | nil => exact Nat.le_refl 0
  | cons x xs ih =>
    rw [landing, List.length_cons]
    split
    · exact Nat.zero_le _
    · exact Nat.succ_le_succ (ih _)

/-- With more to add up, the target is reached no later. -/
theorem landing_anti (less : seen ≤ seen') (h : ∀ x ∈ xs, f x ≤ g x) :
    landing g target seen' xs ≤ landing f target seen xs := by
  induction xs generalizing seen seen' with
  | nil => exact Nat.le_refl 0
  | cons x xs ih =>
    obtain ⟨hx, hxs⟩ := List.forall_mem_cons.mp h
    simp only [landing]
    by_cases reached : target ≤ seen' + g x
    · rw [if_pos reached]
      exact Nat.zero_le _
    · rw [if_neg reached, if_neg (by omega)]
      exact Nat.succ_le_succ (ih (by omega) hxs)

/-- A higher target is reached no earlier. -/
theorem landing_mono {target' : Nat} (h : target ≤ target') :
    landing f target seen xs ≤ landing f target' seen xs := by
  induction xs generalizing seen with
  | nil => exact Nat.le_refl 0
  | cons x xs ih =>
    simp only [landing]
    by_cases reached : target ≤ seen + f x
    · rw [if_pos reached]
      exact Nat.zero_le _
    · rw [if_neg reached, if_neg (by omega)]
      exact Nat.succ_le_succ ih

/-- What was read of an element, no less than it once was, did not reach the target: the
element would have been passed then. -/
theorem landing_pass {x : α} {read : Nat} (grown : f x ≤ read) (passed : ¬ target ≤ seen + read) :
    landing f target (seen + read) xs + 1 ≤ landing f target seen (x :: xs) := by
  rw [landing, if_neg (by omega)]
  exact Nat.succ_le_succ (landing_anti (by omega) fun _ _ => Nat.le_refl _)

/-- If the first elements come to enough, the target is reached among them. -/
theorem landing_reach {front rest : List α} {x : α} (enough : target ≤ seen + (total f front + f x)) :
    landing f target seen (front ++ x :: rest) ≤ front.length := by
  induction front generalizing seen with
  | nil =>
    rw [total_nil, Nat.zero_add] at enough
    rw [List.nil_append, landing, if_pos enough]
    exact Nat.le_refl 0
  | cons first front ih =>
    rw [List.cons_append, landing, List.length_cons]
    split
    · exact Nat.zero_le _
    · refine Nat.succ_le_succ (ih ?_)
      rw [total_cons] at enough
      omega

end WebServer.Base
