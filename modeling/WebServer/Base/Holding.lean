import Mathlib.Logic.Function.Basic
/-! # Exclusive holding

Several holders claim resources; a resource is held exclusively when no two
holders claim it. A step of a system keeps that in one of two ways: it gives no
holder anything new, or it gives one holder resources that no other holder
keeps. The two rules below are all that a hand-over argument needs; neither the
holders nor the resources have to be finite, and a holder may claim many
resources.

Where resources go by names that are used again, a table says what each name
stands for now. `Numbered` tables name each resource once, and never one that
has not been handed out; issuing a name and revoking one keep that.
-/

namespace WebServer

/-- No resource is claimed by two holders. -/
def Exclusive {H : Type u} {R : Type v} (holds : H → R → Prop) : Prop :=
  ∀ h h' r, holds h r → holds h' r → h = h'

namespace Exclusive

variable {H : Type u} {R : Type v} {holds holds' : H → R → Prop}

/-- Dropping claims keeps holding exclusive. -/
theorem shrink (ex : Exclusive holds) (sub : ∀ h r, holds' h r → holds h r) :
    Exclusive holds' := by
  intro h h' r hr hr'
  exact ex h h' r (sub h r hr) (sub h' r hr')

/-- One holder may gain resources, so long as every other holder's claims are
old ones and none of them is to a resource gained. -/
theorem gain (ex : Exclusive holds) (taker : H)
    (others : ∀ h r, h ≠ taker → holds' h r → holds h r)
    (gained : ∀ r, holds' taker r → holds taker r ∨ ∀ h, h ≠ taker → ¬ holds' h r) :
    Exclusive holds' := by
  have key : ∀ h r, h ≠ taker → holds' h r → ¬ holds' taker r := by
    intro h r hne hr ht
    rcases gained r ht with old | free
    · exact hne (ex h taker r (others h r hne hr) old)
    · exact free h hne hr
  intro h h' r hr hr'
  by_cases ht : h = taker
  · by_cases ht' : h' = taker
    · rw [ht, ht']
    · exact absurd (ht ▸ hr) (key h' r ht' hr')
  · by_cases ht' : h' = taker
    · exact absurd (ht' ▸ hr') (key h r ht hr)
    · exact ex h h' r (others h r ht hr) (others h' r ht' hr')

/-- What one holder claims, another does not. -/
theorem not_holds (ex : Exclusive holds) {h h' : H} {r : R} (hr : holds h r) (hne : h ≠ h') :
    ¬ holds h' r :=
  fun hr' => hne (ex h h' r hr hr')

end Exclusive

variable {A : Type u} [DecidableEq A] {table : A → Option Nat} {next : Nat}

/-- After an entry was written a name stands for what was written, or for what it
stood for. -/
theorem entry_of_issue {a b : A} {k k' : Nat} (h : Function.update table a (some k) b = some k') :
    (b = a ∧ k' = k) ∨ table b = some k' := by
  by_cases hb : b = a
  · rw [hb, Function.update_self, Option.some.injEq] at h
    exact .inl ⟨hb, h.symm⟩
  · rw [Function.update_of_ne hb] at h
    exact .inr h

/-- After an entry was removed a name stands for what it stood for. -/
theorem entry_of_revoke {a b : A} {k : Nat} (h : Function.update table a none b = some k) :
    table b = some k := by
  by_cases hb : b = a
  · rw [hb, Function.update_self] at h
    cases h
  · rwa [Function.update_of_ne hb] at h

/-- Each resource has one name in the table, and was handed out. -/
structure Numbered (table : A → Option Nat) (next : Nat) : Prop where
  injective : ∀ a b k, table a = some k → table b = some k → a = b
  fresh : ∀ a k, table a = some k → k < next

namespace Numbered

/-- The next resource is handed out under some name. -/
theorem issue (h : Numbered table next) (a : A) :
    Numbered (Function.update table a (some next)) (next + 1) where
  injective b c k hb hc := by
    rcases entry_of_issue hb with ⟨hba, hk⟩ | oldb <;> rcases entry_of_issue hc with ⟨hca, hk'⟩ | oldc
    · rw [hba, hca]
    · exact absurd (hk ▸ h.fresh c k oldc) (Nat.lt_irrefl next)
    · exact absurd (hk' ▸ h.fresh b k oldb) (Nat.lt_irrefl next)
    · exact h.injective b c k oldb oldc
  fresh b k hb := by
    rcases entry_of_issue hb with ⟨-, rfl⟩ | hb
    · exact Nat.lt_succ_self _
    · exact Nat.lt_succ_of_lt (h.fresh b k hb)

/-- A name is given up. -/
theorem revoke (h : Numbered table next) (a : A) : Numbered (Function.update table a none) next where
  injective b c k hb hc := h.injective b c k (entry_of_revoke hb) (entry_of_revoke hc)
  fresh b k hb := h.fresh b k (entry_of_revoke hb)

end Numbered

end WebServer
