import Mathlib.Data.Finmap

/-!
# Maps of bounded size

A finite map that can never hold more keys than its capacity, nor an entry it
does not admit: both are fields, so an operation has to show them before it has
a result. A new key needs room (`HasRoom`); overwriting and erasing never do.
Nothing here knows what is being stored.
-/

namespace WebServer

/-- A finite map of at most `capacity` keys, every entry of which is admitted. -/
structure BoundedMap {κ : Type u} {ν : Type v} [DecidableEq κ] (admits : κ → ν → Prop)
    (capacity : Nat) where
  entries : Finmap fun _ : κ => ν
  fits : entries.keys.card ≤ capacity
  admitted : ∀ {key value}, entries.lookup key = some value → admits key value

namespace BoundedMap

variable {κ : Type u} {ν : Type v} [DecidableEq κ] {admits : κ → ν → Prop} {capacity : Nat}

def lookup (m : BoundedMap admits capacity) (key : κ) : Option ν := m.entries.lookup key

theorem admits_of_lookup {m : BoundedMap admits capacity} {key : κ} {value : ν}
    (h : m.lookup key = some value) : admits key value :=
  m.admitted h

def count (m : BoundedMap admits capacity) : Nat := m.entries.keys.card

theorem count_le (m : BoundedMap admits capacity) : m.count ≤ capacity := m.fits

/-- There is an entry under the key already, or room for one more. -/
def HasRoom (m : BoundedMap admits capacity) (key : κ) : Prop :=
  m.lookup key ≠ none ∨ m.count < capacity

def empty (admits : κ → ν → Prop) (capacity : Nat) : BoundedMap admits capacity where
  entries := ∅
  fits := Nat.zero_le capacity
  admitted h := by cases (Finmap.lookup_empty _).symm.trans h

@[simp] theorem lookup_empty (key : κ) : (empty admits capacity).lookup key = none :=
  Finmap.lookup_empty key

theorem keys_insert (entries : Finmap fun _ : κ => ν) (key : κ) (value : ν) :
    (entries.insert key value).keys = Insert.insert key entries.keys := by
  ext k
  rw [Finmap.mem_keys, Finmap.mem_insert, Finset.mem_insert, Finmap.mem_keys]

/-- Sets the value of a key there is room for. -/
def insert (m : BoundedMap admits capacity) (key : κ) (value : ν) (admitted : admits key value)
    (room : m.HasRoom key) : BoundedMap admits capacity where
  entries := m.entries.insert key value
  fits := by
    rw [keys_insert]
    rcases room with present | free
    · have hin : key ∈ m.entries.keys := by
        rw [Finmap.mem_keys, ← Finmap.lookup_isSome]
        exact Option.isSome_iff_ne_none.mpr present
      rw [Finset.insert_eq_of_mem hin]
      exact m.fits
    · exact (Finset.card_insert_le key m.entries.keys).trans free
  admitted {k v} h := by
    by_cases hk : k = key
    · subst hk
      rw [Finmap.lookup_insert] at h
      cases h
      exact admitted
    · rw [Finmap.lookup_insert_of_ne _ hk] at h
      exact m.admitted h

theorem lookup_insert (m : BoundedMap admits capacity) {key : κ} {value : ν}
    (admitted : admits key value) (room : m.HasRoom key) (k : κ) :
    (m.insert key value admitted room).lookup k = if k = key then some value else m.lookup k := by
  by_cases hk : k = key
  · subst hk
    rw [if_pos rfl]
    exact Finmap.lookup_insert m.entries
  · rw [if_neg hk]
    exact Finmap.lookup_insert_of_ne m.entries hk

/-- Drops a key, whether it is there or not. -/
def erase (m : BoundedMap admits capacity) (key : κ) : BoundedMap admits capacity where
  entries := m.entries.erase key
  fits := by
    rw [Finmap.keys_erase]
    exact (Finset.card_erase_le).trans m.fits
  admitted {k v} h := by
    by_cases hk : k = key
    · rw [hk, Finmap.lookup_erase] at h
      cases h
    · rw [Finmap.lookup_erase_ne hk] at h
      exact m.admitted h

theorem lookup_erase (m : BoundedMap admits capacity) (key k : κ) :
    (m.erase key).lookup k = if k = key then none else m.lookup k := by
  by_cases hk : k = key
  · rw [if_pos hk, hk]
    exact Finmap.lookup_erase key m.entries
  · rw [if_neg hk]
    exact Finmap.lookup_erase_ne hk

/-- Keys listed once each are as many as the map has. -/
theorem count_eq_length (m : BoundedMap admits capacity) {keys : List κ} (once : keys.Nodup)
    (listed : ∀ key, key ∈ keys ↔ m.lookup key ≠ none) : m.count = keys.length := by
  have hkeys : m.entries.keys = keys.toFinset := by
    ext key
    rw [Finmap.mem_keys, ← Finmap.lookup_isSome, List.mem_toFinset, listed key]
    exact Option.isSome_iff_ne_none
  rw [count, hkeys]
  exact List.toFinset_card_of_nodup once

end BoundedMap

end WebServer
