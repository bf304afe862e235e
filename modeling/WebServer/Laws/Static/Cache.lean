import WebServer.Static.LruCache

/-!
# The cache's list and index agree

`Valid` is the representation invariant of `LRUCache`: the index leads from
exactly the keys in the list, each to the node that holds it, and the list is no
longer than the capacity. Every operation keeps it (`Valid.get`, `Valid.put`),
so no iterator in the index ever dangles. `Holds` says something of every
entry; an operation keeps it if what it inserts satisfies it.
-/

namespace WebServer.LRUCache

open Base

variable {cache : LRUCache} {key value : Bytes}

/-- The representation invariant. -/
structure Valid (cache : LRUCache) : Prop where
  live : ∀ key i, cache.index.lookup key = some i ↔
    ∃ node ∈ cache.entries, node.id = i ∧ node.key = key
  ids : (cache.entries.map CacheNode.id).Nodup
  fresh : ∀ node ∈ cache.entries, node.id < cache.nextNode
  bound : cache.entries.length ≤ cache.capacity
  positive : 0 < cache.capacity

/-- Every entry satisfies the predicate. -/
def Holds (P : Bytes → Bytes → Prop) (cache : LRUCache) : Prop :=
  ∀ node ∈ cache.entries, P node.key node.value

theorem valid_new (capacity : Nat) : (new capacity).Valid where
  live key i := by simp [new]
  ids := List.nodup_nil
  fresh _ h := absurd h List.not_mem_nil
  bound := Nat.zero_le _
  positive := by
    simp only [new]
    split <;> omega

theorem holds_new (P : Bytes → Bytes → Prop) (capacity : Nat) : (new capacity).Holds P :=
  fun _ h => absurd h List.not_mem_nil

/-- The node of an identity is the one node that has it. -/
theorem Valid.unique (h : cache.Valid) {a b : CacheNode} (ha : a ∈ cache.entries)
    (hb : b ∈ cache.entries) (hid : a.id = b.id) : a = b :=
  List.inj_on_of_nodup_map h.ids ha hb hid

/-- No two nodes hold one key. -/
theorem Valid.keys_nodup (h : cache.Valid) : (cache.entries.map CacheNode.key).Nodup := by
  rw [List.nodup_map_iff_inj_on h.ids.of_map]
  intro a ha b hb hkey
  apply h.unique ha hb
  have la := (h.live a.key a.id).mpr ⟨a, ha, rfl, rfl⟩
  have lb := (h.live b.key b.id).mpr ⟨b, hb, rfl, rfl⟩
  rw [hkey, lb] at la
  exact (Option.some.inj la).symm

/-- The index has the list's keys. -/
theorem Valid.keys_perm (h : cache.Valid) :
    cache.index.keys.Perm (cache.entries.map CacheNode.key) := by
  rw [List.perm_ext_iff_of_nodup cache.index.keys_nodup h.keys_nodup]
  intro key
  rw [← AList.mem_keys, ← AList.lookup_isSome, Option.isSome_iff_exists, List.mem_map]
  constructor
  · rintro ⟨i, hi⟩
    obtain ⟨node, hmem, -, hkey⟩ := (h.live key i).mp hi
    exact ⟨node, hmem, hkey⟩
  · rintro ⟨node, hmem, hkey⟩
    exact ⟨node.id, (h.live key node.id).mpr ⟨node, hmem, rfl, hkey⟩⟩

theorem Valid.size (h : cache.Valid) : cache.index.keys.length = cache.entries.length := by
  rw [h.keys_perm.length_eq, List.length_map]

/-- An iterator in the index leads to the node that holds the key. -/
theorem Valid.deref (h : cache.Valid) {i : Nat} (hi : cache.index.lookup key = some i) :
    ∃ node ∈ cache.entries, cache.deref i = some node ∧ node.id = i ∧ node.key = key := by
  obtain ⟨node, hmem, hid, hkey⟩ := (h.live key i).mp hi
  cases hf : cache.deref i with
  | none =>
    have := List.find?_eq_none.mp hf node hmem
    simp [hid] at this
  | some found =>
    have hfound := List.mem_of_find?_eq_some hf
    have hfid : found.id = i := by simpa using List.find?_some hf
    have := h.unique hfound hmem (hfid.trans hid.symm)
    subst this
    exact ⟨found, hmem, rfl, hid, hkey⟩

/-- Moving a node to the front only reorders the list. -/
theorem splice_perm (entries : List CacheNode) (i : Nat) : (splice entries i).Perm entries := by
  have := List.filter_append_perm (fun node : CacheNode => decide (node.id = i)) entries
  simpa only [splice, ne_eq, decide_not] using this

/-- A list with the same identities and keys, in any order, does as well. -/
theorem Valid.reorder (h : cache.Valid) {entries : List CacheNode}
    (perm : (entries.map fun node => (node.id, node.key)).Perm
      (cache.entries.map fun node => (node.id, node.key))) :
    Valid { cache with entries := entries } := by
  have mem : ∀ i k, (∃ node ∈ entries, node.id = i ∧ node.key = k) ↔
      ∃ node ∈ cache.entries, node.id = i ∧ node.key = k := by
    intro i k
    have := perm.mem_iff (a := (i, k))
    simpa only [List.mem_map, Prod.mk.injEq] using this
  constructor
  · intro k i
    rw [h.live, mem]
  · have ids := perm.map Prod.fst
    simp only [List.map_map] at ids
    exact ids.nodup_iff.mpr h.ids
  · intro node hmem
    obtain ⟨node', hmem', hid, -⟩ := (mem node.id node.key).mp ⟨node, hmem, rfl, rfl⟩
    exact hid ▸ h.fresh node' hmem'
  · have := perm.length_eq
    simp only [List.length_map] at this
    exact this ▸ h.bound
  · exact h.positive

/-- A lookup keeps the invariant. -/
theorem Valid.get (h : cache.Valid) (key : Bytes) : (cache.get key).2.Valid := by
  cases hi : cache.index.lookup key with
  | none =>
    simp only [LRUCache.get, hi]
    exact ⟨h.live, h.ids, h.fresh, h.bound, h.positive⟩
  | some i =>
    obtain ⟨node, -, hd, -⟩ := h.deref hi
    simp only [LRUCache.get, hi, hd]
    have := h.reorder ((splice_perm cache.entries i).map fun node => (node.id, node.key))
    exact ⟨this.live, this.ids, this.fresh, this.bound, this.positive⟩

/-- A lookup that hits answers an entry's value under that entry's key. -/
theorem Valid.get_some (h : cache.Valid) (hit : (cache.get key).1 = some value) :
    ∃ node ∈ cache.entries, node.key = key ∧ node.value = value := by
  cases hi : cache.index.lookup key with
  | none => simp [LRUCache.get, hi] at hit
  | some i =>
    obtain ⟨node, hmem, hd, -, hkey⟩ := h.deref hi
    simp only [LRUCache.get, hi, hd, Option.some.injEq] at hit
    exact ⟨node, hmem, hkey, hit⟩

/-- A lookup changes no entry. -/
theorem mem_get {node : CacheNode} (hmem : node ∈ (cache.get key).2.entries) :
    node ∈ cache.entries := by
  simp only [LRUCache.get] at hmem
  split at hmem
  · exact hmem
  · split at hmem
    · exact (splice_perm _ _).subset hmem
    · exact hmem

theorem Holds.get {P : Bytes → Bytes → Prop} (h : cache.Holds P) (key : Bytes) :
    (cache.get key).2.Holds P :=
  fun node hmem => h node (mem_get hmem)

/-- Dropping the back node and its key keeps what is left in agreement. -/
theorem Valid.drop_back (cache : LRUCache) {entries : List CacheNode} {back : CacheNode}
    (h : Valid { cache with entries := entries ++ [back], capacity := cache.capacity + 1 })
    (positive : 0 < cache.capacity) :
    Valid { cache with entries := entries, index := cache.index.erase back.key } := by
  have keys := h.keys_nodup
  simp only [List.map_append, List.map_cons, List.map_nil] at keys
  have other : ∀ node ∈ entries, node.key ≠ back.key := by
    intro node hmem hkey
    have := (List.nodup_append.mp keys).2.2 node.key (List.mem_map_of_mem hmem) back.key
      (List.mem_singleton_self _)
    exact this hkey
  constructor
  · intro k i
    by_cases hk : k = back.key
    · subst hk
      constructor
      · intro hl
        rw [AList.lookup_erase] at hl
        cases hl
      · rintro ⟨node, hmem, -, hkey⟩
        exact absurd hkey (other node hmem)
    · rw [AList.lookup_erase_ne hk, h.live]
      constructor
      · rintro ⟨node, hmem, hid, hkey⟩
        rcases List.mem_append.mp hmem with hmem | hmem
        · exact ⟨node, hmem, hid, hkey⟩
        · rw [List.mem_singleton.mp hmem] at hkey
          exact absurd hkey.symm hk
      · rintro ⟨node, hmem, hid, hkey⟩
        exact ⟨node, List.mem_append_left _ hmem, hid, hkey⟩
  · have := h.ids
    simp only [List.map_append] at this
    exact this.of_append_left
  · intro node hmem
    exact h.fresh node (List.mem_append_left _ hmem)
  · have := h.bound
    simp only [List.length_append, List.length_singleton] at this
    exact Nat.le_of_succ_le_succ this
  · exact positive

/-- A node for a key the index does not have may be put in front. -/
theorem Valid.push_front (h : cache.Valid) (miss : cache.index.lookup key = none)
    (value : Bytes) (capacity : Nat) (room : cache.entries.length < capacity) :
    Valid { cache with
      capacity := capacity
      entries := { id := cache.nextNode, key := key, value := value } :: cache.entries
      index := cache.index.insert key cache.nextNode
      nextNode := cache.nextNode + 1 } := by
  constructor
  · intro k i
    simp only [List.exists_mem_cons_iff]
    by_cases hk : k = key
    · subst hk
      rw [AList.lookup_insert]
      constructor
      · intro hl
        exact .inl ⟨Option.some.inj hl, rfl⟩
      · rintro (⟨hid, -⟩ | hold)
        · rw [hid]
        · rw [(h.live k i).mpr hold] at miss
          cases miss
    · rw [AList.lookup_insert_ne hk, h.live]
      constructor
      · exact .inr
      · rintro (⟨-, hkey⟩ | hold)
        · exact absurd hkey.symm hk
        · exact hold
  · rw [List.map_cons, List.nodup_cons]
    refine ⟨?_, h.ids⟩
    intro hmem
    obtain ⟨node, hmem, hid⟩ := List.mem_map.mp hmem
    exact absurd (hid ▸ h.fresh node hmem) (Nat.lt_irrefl _)
  · intro node hmem
    rcases List.mem_cons.mp hmem with rfl | hmem
    · exact Nat.lt_succ_self _
    · exact Nat.lt_succ_of_lt (h.fresh node hmem)
  · exact room
  · exact Nat.zero_lt_of_lt room

/-- Overwriting the value of one node changes no identity and no key. -/
theorem overwrite_perm (entries : List CacheNode) (i : Nat) (value : Bytes) :
    ((splice (entries.map fun node => if node.id = i then { node with value := value } else node)
      i).map fun node => (node.id, node.key)).Perm
      (entries.map fun node => (node.id, node.key)) := by
  refine ((splice_perm _ i).map _).trans (List.Perm.of_eq ?_)
  rw [List.map_map]
  apply List.map_congr_left
  intro node _
  simp only [Function.comp_apply]
  split <;> rfl

/-- What an insertion of a new key does: a node in front, and the back node gone
if the list was full. -/
theorem Valid.put_new (h : cache.Valid) (miss : cache.index.lookup key = none) (value : Bytes) :
    (cache.put key value).Valid ∧ ∀ node ∈ (cache.put key value).entries,
      node = { id := cache.nextNode, key := key, value := value } ∨ node ∈ cache.entries := by
  have pushed := h.push_front miss value (cache.capacity + 1) (Nat.lt_succ_of_le h.bound)
  have size : (cache.index.insert key cache.nextNode).keys.length = cache.entries.length + 1 :=
    pushed.size
  simp only [put, miss, evict, size]
  split
  next full =>
    cases hl : ({ id := cache.nextNode, key := key, value := value } :: cache.entries).getLast?
    case none => simp at hl
    case some back =>
      obtain ⟨front, hfront⟩ := List.getLast?_eq_some_iff.mp hl
      simp only [hfront, List.dropLast_concat]
      rw [hfront] at pushed
      refine ⟨Valid.drop_back { cache with
        index := cache.index.insert key cache.nextNode
        nextNode := cache.nextNode + 1 } pushed h.positive, ?_⟩
      intro node hmem
      have : node ∈ { id := cache.nextNode, key := key, value := value } :: cache.entries := by
        rw [hfront]
        exact List.mem_append_left _ hmem
      exact List.mem_cons.mp this
  next room =>
    refine ⟨h.push_front miss value cache.capacity (by omega), ?_⟩
    intro node hmem
    exact List.mem_cons.mp hmem

/-- An insertion keeps the invariant. -/
theorem Valid.put (h : cache.Valid) (key value : Bytes) : (cache.put key value).Valid := by
  cases hi : cache.index.lookup key with
  | none => exact (h.put_new hi value).1
  | some i =>
    simp only [LRUCache.put, hi]
    exact h.reorder (overwrite_perm cache.entries i value)

/-- An insertion keeps what holds of every entry, if it holds of the new one. -/
theorem Holds.put {P : Bytes → Bytes → Prop} (h : cache.Holds P) (valid : cache.Valid)
    (new : P key value) : (cache.put key value).Holds P := by
  cases hi : cache.index.lookup key with
  | none =>
    intro node hmem
    rcases (valid.put_new hi value).2 node hmem with rfl | hmem
    · exact new
    · exact h node hmem
  | some i =>
    obtain ⟨found, hfound, -, hid, hkey⟩ := valid.deref hi
    intro node hmem
    simp only [LRUCache.put, hi] at hmem
    obtain ⟨old, hold, rfl⟩ := List.mem_map.mp ((splice_perm _ i).subset hmem)
    split
    next hold' =>
      have : old = found := valid.unique hold hfound (hold'.trans hid.symm)
      rw [this, hkey]
      exact new
    next => exact h old hold

end WebServer.LRUCache
