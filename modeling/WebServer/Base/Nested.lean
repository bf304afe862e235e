import WebServer.Base.Recency

/-! # Two policies of different sizes

Two policies keep the keys used last, one of them fewer than the other, and both
start with nothing. A use that only the larger one notices moves a key that the
smaller one does not have, so the keys they share stay in one order; and the
smaller one drops a key only when it is full. `Nested` says both, and every kind
of use keeps it: then the smaller list is always part of the larger one. -/

namespace WebServer.Recency

/-- The keys kept by a policy of size `n`, within those that a larger one
keeps. -/
structure Nested {κ : Type u} (n : Nat) (few many : List κ) : Prop where
  sublist : few.Sublist many
  length_eq : few.length = min n many.length

namespace Nested

section

variable {κ : Type u} {n : Nat} {few many : List κ}

theorem nil (n : Nat) : Nested n ([] : List κ) [] where
  sublist := .slnil
  length_eq := (Nat.min_zero n).symm

/-- As long as there is room nothing has been dropped. -/
theorem eq_of_room (h : Nested n few many) (room : few.length < n) : few = many := by
  have hlength := h.length_eq
  apply h.sublist.eq_of_length
  omega

theorem sublist_dropLast (h : few.Sublist many) : few.dropLast.Sublist many.dropLast := by
  have hreverse : few.reverse.tail.Sublist many.reverse.tail := h.reverse.tail
  rw [List.tail_reverse, List.tail_reverse] at hreverse
  exact List.reverse_sublist.mp hreverse

/-- What is left of two lists that are cut by one, the smaller of them at its
last key. -/
theorem sublist_take {m : Nat} (h : few.Sublist many) (hfew : few.length = n + 1)
    (hmany : many.length ≤ m + 1) : (few.take n).Sublist (many.take m) := by
  by_cases room : many.length ≤ m
  · rw [List.take_of_length_le room]
    exact (List.take_sublist n few).trans h
  · have hn : n = few.length - 1 := by omega
    have hm : m = many.length - 1 := by omega
    rw [hn, hm, ← List.dropLast_eq_take, ← List.dropLast_eq_take]
    exact sublist_dropLast h

end

variable {κ : Type u} [DecidableEq κ] {n : Nat} {key : κ} {few many : List κ}

/-- A key is used that both have. -/
theorem touch_both (h : Nested n few many) (hin : key ∈ few) :
    Nested n (touch key few) (touch key many) where
  sublist := (h.sublist.erase key).cons_cons key
  length_eq := by
    rw [length_touch hin, length_touch (h.sublist.subset hin)]
    exact h.length_eq

theorem sublist_erase (h : few.Sublist many) (hout : key ∉ few) : few.Sublist (many.erase key) := by
  have herase := h.erase key
  rwa [List.erase_of_not_mem hout] at herase

/-- A key is used that only the larger one still has. -/
theorem touch_many (h : Nested n few many) (hout : key ∉ few) (hin : key ∈ many) :
    Nested n few (touch key many) where
  sublist := (sublist_erase h.sublist hout).cons key
  length_eq := by
    rw [length_touch hin]
    exact h.length_eq

/-- A key is stored, whichever of the two has it. -/
theorem store {m : Nat} (h : Nested n few many) (hle : n ≤ m) (hmany : many.length ≤ m)
    (key : κ) : Nested n ((touch key few).take n) ((touch key many).take m) := by
  have hlength := h.length_eq
  have hshort := h.sublist.length_le
  by_cases hin : key ∈ few
  · rw [List.take_of_length_le (by rw [length_touch hin]; omega),
      List.take_of_length_le (by rw [length_touch (h.sublist.subset hin)]; exact hmany)]
    exact h.touch_both hin
  · rw [touch_of_not_mem hin]
    by_cases room : few.length < n
    · -- Both lists are the same, and so is what becomes of them.
      obtain rfl := h.eq_of_room room
      rw [touch_of_not_mem hin, List.take_of_length_le (by rw [List.length_cons]; omega),
        List.take_of_length_le (by rw [List.length_cons]; omega)]
      exact ⟨.refl _, by rw [List.length_cons]; omega⟩
    · cases n with
      | zero => exact ⟨List.nil_sublist _, by rw [Nat.zero_min]; rfl⟩
      | succ n =>
        obtain ⟨m, rfl⟩ : ∃ k, m = k + 1 := ⟨m - 1, by omega⟩
        have hpart := sublist_erase h.sublist hin
        have hrest : (many.erase key).length ≤ m + 1 :=
          Nat.le_trans List.erase_sublist.length_le hmany
        have hlong := hpart.length_le
        rw [touch, List.take_succ_cons, List.take_succ_cons]
        refine ⟨(sublist_take hpart (by omega) hrest).cons_cons key, ?_⟩
        rw [List.length_cons, List.length_cons, List.length_take, List.length_take]
        omega

end Nested

end WebServer.Recency
