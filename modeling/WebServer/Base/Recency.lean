import Mathlib.Data.Finset.Card
import Mathlib.Data.Finset.Dedup
import Mathlib.Data.List.Nodup

/-! # Keys by their most recent use

Uses of keys are listed newest first. `recent` keeps each key once, at its most
recent use, and `since key` is what has been used since that key last was. The
two meet in `since_recent`: how deep a key lies in `recent` is how many other
keys have been used since (`length_since_recent`). A policy that keeps the `n`
keys used last is then one that keeps a key as long as fewer than `n` others
have been used after it (`mem_take_recent`), and it is enough for it to
remember those `n` keys (`take_touch`). Nothing here knows what the keys are of.
-/

namespace WebServer.Recency

variable {κ : Type u} [DecidableEq κ]

/-- Moves a key to the front, or puts it there. -/
def touch (key : κ) (keys : List κ) : List κ := key :: keys.erase key

/-- The keys used, each once, in the order of their most recent uses. -/
def recent : List κ → List κ
  | [] => []
  | key :: older => touch key (recent older)

/-- What has been used since the key last was. -/
def since (key : κ) (uses : List κ) : List κ := uses.takeWhile (· ≠ key)

/-- The first key has been used since the second last was. -/
def UsedSince (uses : List κ) (key other : κ) : Prop := key ∈ since other uses

variable {key other : κ} {uses keys : List κ}

@[simp] theorem since_cons_self (key : κ) (uses : List κ) : since key (key :: uses) = [] := by
  simp [since]

theorem since_cons_ne (h : other ≠ key) : since key (other :: uses) = other :: since key uses := by
  simp [since, h]

@[simp] theorem mem_recent : key ∈ recent uses ↔ key ∈ uses := by
  induction uses with
  | nil => rfl
  | cons head older ih =>
    rw [recent, touch, List.mem_cons, List.mem_cons]
    by_cases h : key = head
    · simp only [h, true_or]
    · rw [List.mem_erase_of_ne h, ih]

theorem recent_nodup (uses : List κ) : (recent uses).Nodup := by
  induction uses with
  | nil => exact List.nodup_nil
  | cons head older ih => exact List.nodup_cons.mpr ⟨ih.not_mem_erase, ih.erase head⟩

/-- Each key that was used is counted once. -/
theorem length_recent (uses : List κ) : (recent uses).length = uses.toFinset.card := by
  rw [← List.toFinset_card_of_nodup (recent_nodup uses)]
  congr 1
  ext key
  rw [List.mem_toFinset, List.mem_toFinset, mem_recent]

theorem since_erase (h : other ≠ key) (keys : List κ) :
    since key (keys.erase other) = (since key keys).erase other := by
  induction keys with
  | nil => rfl
  | cons head keys ih =>
    by_cases hhead : head = other
    · subst hhead
      rw [List.erase_cons_head, since_cons_ne h, List.erase_cons_head]
    · rw [List.erase_cons_tail (by simpa using hhead)]
      by_cases hkey : head = key
      · subst hkey
        rw [since_cons_self, since_cons_self]
        rfl
      · rw [since_cons_ne hkey, since_cons_ne hkey, List.erase_cons_tail (by simpa using hhead), ih]

/-- Reducing to the most recent uses commutes with stopping at a key. -/
theorem since_recent (key : κ) (uses : List κ) :
    since key (recent uses) = recent (since key uses) := by
  induction uses with
  | nil => rfl
  | cons head older ih =>
    by_cases h : head = key
    · subst h
      rw [recent, touch, since_cons_self, since_cons_self]
      rfl
    · rw [recent, touch, since_cons_ne h, since_cons_ne h, since_erase h, ih, recent, touch]

/-- A key lies as deep as there are keys used since. -/
theorem length_since_recent (key : κ) (uses : List κ) :
    (since key (recent uses)).length = (since key uses).toFinset.card := by
  rw [since_recent, length_recent]

theorem mem_take_iff (n : Nat) (keys : List κ) :
    key ∈ keys.take n ↔ key ∈ keys ∧ (since key keys).length < n := by
  induction keys generalizing n with
  | nil => simp
  | cons head keys ih =>
    cases n with
    | zero => simp
    | succ n =>
      rw [List.take_succ_cons, List.mem_cons, List.mem_cons]
      by_cases h : head = key
      · simp [h]
      · rw [since_cons_ne h, List.length_cons, Nat.add_lt_add_iff_right, ih]
        simp only [Ne.symm h, false_or]

theorem mem_since_of_mem_take {n : Nat} (h : other ∈ since key (keys.take n)) :
    other ∈ since key keys := by
  induction keys generalizing n with
  | nil => simp [since] at h
  | cons head keys ih =>
    cases n with
    | zero => simp [since] at h
    | succ n =>
      rw [List.take_succ_cons] at h
      by_cases hhead : head = key
      · simp [hhead] at h
      · rw [since_cons_ne hhead, List.mem_cons] at h ⊢
        exact h.imp_right ih

/-- All the keys come before the last one. -/
theorem mem_since_of_last (last : keys.length ≤ (since key keys).length + 1)
    (hin : other ∈ keys) (hne : other ≠ key) : other ∈ since key keys := by
  induction keys with
  | nil => cases hin
  | cons head keys ih =>
    by_cases hhead : head = key
    · rw [hhead, since_cons_self, List.length_cons] at last
      rw [List.eq_nil_of_length_eq_zero (Nat.le_zero.mp (Nat.le_of_succ_le_succ last)),
        List.mem_singleton] at hin
      exact absurd (hin.trans hhead) hne
    · rw [since_cons_ne hhead, List.length_cons, List.length_cons] at last
      rw [since_cons_ne hhead]
      rcases List.mem_cons.mp hin with heq | hin
      · exact List.mem_cons.mpr (.inl heq)
      · exact List.mem_cons_of_mem _ (ih (Nat.le_of_succ_le_succ last) hin)

/-- The `n` keys used last are those after which fewer than `n` others have
been used. -/
theorem mem_take_recent (n : Nat) :
    key ∈ (recent uses).take n ↔ key ∈ uses ∧ (since key uses).toFinset.card < n := by
  rw [mem_take_iff, mem_recent, length_since_recent]

/-- The keys are in the order of their uses. -/
theorem recent_ordered (uses : List κ) : (recent uses).Pairwise (UsedSince uses) := by
  induction uses with
  | nil => exact .nil
  | cons head older ih =>
    rw [recent, touch, List.pairwise_cons]
    have hne : ∀ other ∈ (recent older).erase head, head ≠ other := fun other hin heq =>
      (recent_nodup older).not_mem_erase (heq ▸ hin)
    refine ⟨fun other hin => ?_, ?_⟩
    · rw [UsedSince, since_cons_ne (hne other hin)]
      exact List.mem_cons_self
    · refine (ih.sublist List.erase_sublist).imp_of_mem fun _ hin h => ?_
      rw [UsedSince, since_cons_ne (hne _ hin)]
      exact List.mem_cons_of_mem _ h

/-- Among keys listed once, touching one takes it out in front of the others. -/
theorem touch_eq_filter (once : keys.Nodup) (hin : key ∈ keys) :
    touch key keys = keys.filter (· = key) ++ keys.filter (· ≠ key) := by
  have hothers : keys.filter (· ≠ key) = keys.erase key := by
    rw [once.erase_eq_filter]
    exact List.filter_congr fun k _ => by rw [bne, beq_eq_decide, decide_not]
  rw [List.filter_eq, List.count_eq_one_of_mem once hin, hothers]
  rfl

theorem touch_of_not_mem (hout : key ∉ keys) : touch key keys = key :: keys := by
  rw [touch, List.erase_of_not_mem hout]

theorem mem_of_mem_touch (h : other ∈ touch key keys) : other = key ∨ other ∈ keys :=
  (List.mem_cons.mp h).imp id List.mem_of_mem_erase

theorem touch_perm (hin : key ∈ keys) : (touch key keys).Perm keys :=
  (List.perm_cons_erase hin).symm

theorem length_touch (hin : key ∈ keys) : (touch key keys).length = keys.length :=
  (touch_perm hin).length_eq

theorem take_erase (key : κ) (keys : List κ) (n : Nat) :
    ((keys.take (n + 1)).erase key).take n = (keys.erase key).take n := by
  induction keys generalizing n with
  | nil => rfl
  | cons head keys ih =>
    rw [List.take_succ_cons]
    by_cases h : head = key
    · rw [h, List.erase_cons_head, List.erase_cons_head, List.take_take, Nat.min_self]
    · rw [List.erase_cons_tail (by simpa using h), List.erase_cons_tail (by simpa using h)]
      cases n with
      | zero => rfl
      | succ n => rw [List.take_succ_cons, List.take_succ_cons, ih]

/-- To know the `n` keys used last after another use, it is enough to know those
before. -/
theorem take_touch (key : κ) (keys : List κ) (n : Nat) :
    (touch key (keys.take n)).take n = (touch key keys).take n := by
  cases n with
  | zero => rfl
  | succ n => rw [touch, touch, List.take_succ_cons, List.take_succ_cons, take_erase]

end WebServer.Recency
