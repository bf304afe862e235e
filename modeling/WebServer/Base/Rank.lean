/-!
# Ranks

The elements of a list in ascending order. Of a property that holds of everything
below an element it holds of, more than `k` elements have it exactly when the
element of rank `k` does (`lt_countP_iff`): that is how counts say where in a
distribution an element stands.
-/

namespace WebServer.Base

variable {α : Type u} [LE α]

/-- In an ascending list, what has a property that is inherited downwards stands in
front. -/
theorem lt_countP_sorted {p : α → Bool} (down : ∀ {a b}, a ≤ b → p b = true → p a = true)
    {xs : List α} (sorted : xs.Pairwise fun a b => a ≤ b) {k : Nat} {a : α}
    (h : xs[k]? = some a) : k < xs.countP p ↔ p a = true := by
  induction xs generalizing k with
  | nil => cases h
  | cons x xs ih =>
    obtain ⟨hx, hxs⟩ := List.pairwise_cons.mp sorted
    by_cases hp : p x = true
    · rw [List.countP_cons_of_pos hp]
      cases k with
      | zero =>
        obtain rfl := Option.some.inj h
        exact iff_of_true (Nat.succ_pos _) hp
      | succ k => exact Nat.succ_lt_succ_iff.trans (ih hxs h)
    · have hnone : ∀ y ∈ x :: xs, ¬ p y = true := by
        intro y hy
        rcases List.mem_cons.mp hy with rfl | hy
        · exact hp
        · exact fun hpy => hp (down (hx y hy) hpy)
      rw [List.countP_eq_zero.mpr hnone]
      exact iff_of_false (Nat.not_lt_zero k) (hnone a (List.mem_of_getElem? h))

variable [DecidableLE α]

/-- The elements in ascending order. -/
def ranked (xs : List α) : List α := xs.mergeSort fun a b => decide (a ≤ b)

theorem ranked_perm (xs : List α) : (ranked xs).Perm xs := List.mergeSort_perm xs _

theorem length_ranked (xs : List α) : (ranked xs).length = xs.length := List.length_mergeSort xs

theorem mem_of_ranked {xs : List α} {k : Nat} {a : α} (h : (ranked xs)[k]? = some a) : a ∈ xs :=
  (ranked_perm xs).mem_iff.mp (List.mem_of_getElem? h)

/-- There is an element of each rank below the length. -/
theorem ranked_of_lt {xs : List α} {k : Nat} (h : k < xs.length) :
    ∃ a, (ranked xs)[k]? = some a := by
  rw [← length_ranked] at h
  exact ⟨_, List.getElem?_eq_getElem h⟩

variable [Std.IsLinearPreorder α]

theorem pairwise_ranked (xs : List α) : (ranked xs).Pairwise fun a b => a ≤ b := by
  have trans : ∀ a b c : α, decide (a ≤ b) = true → decide (b ≤ c) = true →
      decide (a ≤ c) = true := by
    intro a b c hab hbc
    rw [decide_eq_true_eq] at *
    exact Std.le_trans hab hbc
  have total : ∀ a b : α, (decide (a ≤ b) || decide (b ≤ a)) = true := by
    intro a b
    rw [Bool.or_eq_true, decide_eq_true_eq, decide_eq_true_eq]
    exact Std.le_total
  exact (List.pairwise_mergeSort trans total xs).imp fun h => of_decide_eq_true h

/-- More than `k` elements have the property exactly when the element of rank `k` has
it. -/
theorem lt_countP_iff {p : α → Bool} (down : ∀ {a b}, a ≤ b → p b = true → p a = true)
    {xs : List α} {k : Nat} {a : α} (h : (ranked xs)[k]? = some a) :
    k < xs.countP p ↔ p a = true := by
  rw [← (ranked_perm xs).countP_eq]
  exact lt_countP_sorted down (pairwise_ranked xs) h

/-- Ranks go up. -/
theorem ranked_le {xs : List α} {j k : Nat} {a b : α} (hjk : j ≤ k) (ha : (ranked xs)[j]? = some a)
    (hb : (ranked xs)[k]? = some b) : a ≤ b := by
  have hcount : k < xs.countP fun c => decide (c ≤ b) :=
    (lt_countP_iff (fun hle hp => decide_eq_true (Std.le_trans hle (of_decide_eq_true hp)))
      hb).mpr (decide_eq_true (Std.le_refl b))
  exact of_decide_eq_true ((lt_countP_iff
    (fun hle hp => decide_eq_true (Std.le_trans hle (of_decide_eq_true hp))) ha).mp
      (Nat.lt_of_le_of_lt hjk hcount))

end WebServer.Base
