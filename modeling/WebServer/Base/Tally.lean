/-!
# Tallies

What a quantity comes to over a list, and what becomes of that when an element is
replaced. A system of many parts, each with its share of something, keeps a total
when every step takes from one share what it adds elsewhere; `total_set` is that
step.
-/

namespace WebServer.Base

variable {α : Type u} {β : Type v} {f g : α → Nat}

/-- The quantity over all elements. -/
def total (f : α → Nat) (xs : List α) : Nat := xs.foldr (fun x n => f x + n) 0

@[simp] theorem total_nil (f : α → Nat) : total f [] = 0 := rfl

@[simp] theorem total_cons (f : α → Nat) (x : α) (xs : List α) :
    total f (x :: xs) = f x + total f xs := rfl

@[simp] theorem total_append (f : α → Nat) (xs ys : List α) :
    total f (xs ++ ys) = total f xs + total f ys := by
  induction xs with
  | nil => simp
  | cons x xs ih => rw [List.cons_append, total_cons, total_cons, ih, Nat.add_assoc]

theorem total_flatMap (f : β → Nat) (step : α → List β) (xs : List α) :
    total f (xs.flatMap step) = total (fun x => total f (step x)) xs := by
  induction xs with
  | nil => rfl
  | cons x xs ih => rw [List.flatMap_cons, total_append, ih, total_cons]

theorem total_map (f : β → Nat) (step : α → β) (xs : List α) :
    total f (xs.map step) = total (fun x => f (step x)) xs := by
  induction xs with
  | nil => rfl
  | cons x xs ih => rw [List.map_cons, total_cons, ih, total_cons]

theorem total_add (f g : α → Nat) (xs : List α) :
    total (fun x => f x + g x) xs = total f xs + total g xs := by
  induction xs with
  | nil => rfl
  | cons x xs ih =>
    simp only [total_cons, ih]
    omega

theorem total_congr {xs : List α} (h : ∀ x ∈ xs, f x = g x) : total f xs = total g xs := by
  induction xs with
  | nil => rfl
  | cons x xs ih =>
    obtain ⟨hx, hxs⟩ := List.forall_mem_cons.mp h
    rw [total_cons, total_cons, hx, ih hxs]

theorem total_le {xs : List α} (h : ∀ x ∈ xs, f x ≤ g x) : total f xs ≤ total g xs := by
  induction xs with
  | nil => exact Nat.le_refl 0
  | cons x xs ih =>
    obtain ⟨hx, hxs⟩ := List.forall_mem_cons.mp h
    exact Nat.add_le_add hx (ih hxs)

theorem total_eq_zero {xs : List α} (h : ∀ x ∈ xs, f x = 0) : total f xs = 0 := by
  induction xs with
  | nil => rfl
  | cons x xs ih =>
    obtain ⟨hx, hxs⟩ := List.forall_mem_cons.mp h
    rw [total_cons, hx, ih hxs]

/-- Counting is the total of a quantity that is one or nothing. -/
theorem total_one (p : α → Bool) (xs : List α) :
    total (fun x => if p x then 1 else 0) xs = xs.countP p := by
  induction xs with
  | nil => rfl
  | cons x xs ih => rw [total_cons, ih, List.countP_cons, Nat.add_comm]

theorem total_length (xs : List α) : total (fun _ => 1) xs = xs.length := by
  induction xs with
  | nil => rfl
  | cons x xs ih => rw [total_cons, ih, List.length_cons, Nat.add_comm]

/-- Rows first or columns first. -/
theorem total_comm (f : α → β → Nat) (xs : List α) (ys : List β) :
    total (fun x => total (f x) ys) xs = total (fun y => total (fun x => f x y) xs) ys := by
  induction xs with
  | nil => exact (total_eq_zero fun _ _ => rfl).symm
  | cons x xs ih =>
    rw [total_cons, ih, ← total_add]
    rfl

/-- A quantity that one element has and no other. -/
theorem total_single [DecidableEq α] {xs : List α} (nodup : xs.Nodup) {x : α} (h : x ∈ xs)
    (n : Nat) : total (fun y => if x = y then n else 0) xs = n := by
  induction xs with
  | nil => cases h
  | cons z xs ih =>
    obtain ⟨hz, hxs⟩ := List.nodup_cons.mp nodup
    rw [total_cons]
    by_cases heq : x = z
    · subst heq
      have hnone : total (fun y => if x = y then n else 0) xs = 0 :=
        total_eq_zero fun y hy => if_neg fun hxy : x = y => hz (hxy ▸ hy)
      rw [if_pos rfl, hnone, Nat.add_zero]
    · rw [if_neg heq, Nat.zero_add, ih hxs ((List.mem_cons.mp h).resolve_left heq)]

/-- Replacing an element exchanges its share of the total. -/
theorem total_set {xs : List α} {i : Nat} {x : α} (h : xs[i]? = some x) (y : α) :
    total f (xs.set i y) + f x = total f xs + f y := by
  induction xs generalizing i with
  | nil => cases h
  | cons z xs ih =>
    cases i with
    | zero =>
      obtain rfl := Option.some.inj h
      simp only [List.set_cons_zero, total_cons]
      omega
    | succ i =>
      have hrest := ih (i := i) h
      simp only [List.set_cons_succ, total_cons]
      omega

end WebServer.Base
