import Mathlib.Logic.Basic
import Std.Data.ExtTreeMap

/-!
# Maps from their entries

A map that is read back from its entries, written one after the other, is the map
again, in whatever order they stand: no key has two of them.
-/

namespace WebServer.Base

variable {α : Type u} {β : Type v} {cmp : α → α → Ordering} [Std.TransCmp cmp]

/-- The entries of a map, in any order. -/
def EntriesOf (map : Std.ExtTreeMap α β cmp) (entries : List (α × β)) : Prop :=
  entries.Perm map.toList

variable {map : Std.ExtTreeMap α β cmp} {entries : List (α × β)}

theorem EntriesOf.distinct (h : EntriesOf map entries) :
    entries.Pairwise fun a b => ¬ cmp a.1 b.1 = .eq := by
  have symm : ∀ {a b : α × β}, ¬ cmp a.1 b.1 = .eq → ¬ cmp b.1 a.1 = .eq :=
    fun hne heq => hne (Std.OrientedCmp.eq_symm heq)
  exact (List.Perm.pairwise_iff symm h).mpr map.distinct_keys_toList

variable [Std.LawfulEqCmp cmp]

omit [Std.TransCmp cmp] in
/-- The order tells the keys apart. -/
theorem if_compare {γ : Type w} [DecidableEq α] (key key' : α) (a b : γ) :
    (if cmp key key' = .eq then a else b) = if key' = key then a else b :=
  if_congr (Std.LawfulEqCmp.compare_eq_iff_eq.trans eq_comm) rfl rfl

theorem EntriesOf.mem_iff (h : EntriesOf map entries) {key : α} {value : β} :
    (key, value) ∈ entries ↔ map[key]? = some value :=
  (List.Perm.mem_iff h).trans Std.ExtTreeMap.mem_toList_iff_getElem?_eq_some

/-- Written one after the other, the entries of a map give the map. -/
theorem EntriesOf.ofList_eq (h : EntriesOf map entries) :
    Std.ExtTreeMap.ofList entries cmp = map := by
  classical
  apply Std.ExtTreeMap.ext_getElem?
  intro key
  cases hvalue : map[key]? with
  | some value =>
    exact Std.ExtTreeMap.getElem?_ofList_of_mem Std.ReflCmp.compare_self h.distinct
      (h.mem_iff.mpr hvalue)
  | none =>
    apply Std.ExtTreeMap.getElem?_ofList_of_contains_eq_false
    rw [List.contains_eq_mem, decide_eq_false_iff_not]
    intro hmem
    obtain ⟨⟨_, value⟩, hentry, rfl⟩ := List.mem_map.mp hmem
    rw [h.mem_iff.mp hentry] at hvalue
    cases hvalue

end WebServer.Base
