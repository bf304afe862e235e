import WebServer.Base.Nested
import WebServer.Laws.Static.Lru

/-!
# A larger cache never loses a hit

Two caches take the same calls. A lookup that hits in the larger one alone
reorders that one alone, so the two lists drift apart; what stays is `Within`:
the smaller cache's keys are in the larger one's list in the same order, and the
smaller one is full before it drops anything. Each call keeps that, and what the
smaller cache finds, the larger one finds too.
-/

namespace WebServer.LRUCache

open Base Recency

variable {small large : LRUCache} {key value : Bytes}

/-- Whatever the one cache has, the other has: its entries, the answers it gives,
and at least as many hits. -/
structure HeldBy (small large : LRUCache) : Prop where
  entries : ∀ node ∈ small.entries, ∃ held ∈ large.entries,
    held.key = node.key ∧ held.value = node.value
  index : ∀ key ∈ small.index, key ∈ large.index
  finds : ∀ key value, (small.get key).1 = some value → (large.get key).1 = some value
  hits_le : small.hits ≤ large.hits

/-- What two caches keep that take the same calls. -/
structure Within (small large : LRUCache) : Prop where
  valid : small.Valid
  validLarge : large.Valid
  capacity_le : small.capacity ≤ large.capacity
  nested : Nested small.capacity small.keys large.keys
  agree : ∀ a ∈ small.entries, ∀ b ∈ large.entries, a.key = b.key → a.value = b.value
  hits_le : small.hits ≤ large.hits

theorem hits_get_of_hit (h : large.Valid) (hit : (large.get key).1 ≠ none) :
    (large.get key).2.hits = large.hits + 1 := by
  cases hi : large.index.lookup key with
  | none => simp [LRUCache.get, hi] at hit
  | some i =>
    obtain ⟨node, -, hd, -⟩ := h.deref hi
    simp only [hits, LRUCache.get, hi, hd]

theorem hits_put (cache : LRUCache) (key value : Bytes) :
    (cache.put key value).hits = cache.hits := by
  unfold LRUCache.put
  split
  · rfl
  · unfold evict
    split
    · split <;> rfl
    · rfl

theorem hits_le_get (h : large.Valid) (key : Bytes) : large.hits ≤ (large.get key).2.hits := by
  by_cases hit : (large.get key).1 = none
  · rw [h.get_miss hit]
    exact Nat.le_refl _
  · rw [hits_get_of_hit h hit]
    exact Nat.le_succ _

namespace Within

theorem new {c d : Nat} (hle : c ≤ d) : Within (new c) (new d) where
  valid := valid_new c
  validLarge := valid_new d
  capacity_le := by
    simp only [LRUCache.new]
    split <;> split <;> omega
  nested := .nil _
  agree _ ha := absurd ha List.not_mem_nil
  hits_le := Nat.le_refl 0

/-- The keys of the two after a lookup, whichever of them it hits. -/
theorem nested_get (h : Within small large) (key : Bytes) :
    Nested small.capacity (small.get key).2.keys (large.get key).2.keys := by
  by_cases inSmall : key ∈ small.keys
  · rw [h.valid.keys_get ((h.valid.get_hits_iff key).mpr inSmall),
      h.validLarge.keys_get ((h.validLarge.get_hits_iff key).mpr (h.nested.sublist.subset inSmall))]
    exact h.nested.touch_both inSmall
  · have missSmall : (small.get key).1 = none := by
      by_contra hit
      exact inSmall ((h.valid.get_hits_iff key).mp hit)
    rw [h.valid.get_miss missSmall]
    by_cases inLarge : key ∈ large.keys
    · rw [h.validLarge.keys_get ((h.validLarge.get_hits_iff key).mpr inLarge)]
      exact h.nested.touch_many inSmall inLarge
    · have missLarge : (large.get key).1 = none := by
        by_contra hit
        exact inLarge ((h.validLarge.get_hits_iff key).mp hit)
      rw [h.validLarge.get_miss missLarge]
      exact h.nested

/-- What the smaller cache hits, the larger one hits. -/
theorem hit (h : Within small large) (hit : (small.get key).1 ≠ none) :
    (large.get key).1 ≠ none :=
  (h.validLarge.get_hits_iff key).mpr
    (h.nested.sublist.subset ((h.valid.get_hits_iff key).mp hit))

theorem get (h : Within small large) (key : Bytes) :
    Within (small.get key).2 (large.get key).2 where
  valid := h.valid.get key
  validLarge := h.validLarge.get key
  capacity_le := by
    rw [capacity_get, capacity_get]
    exact h.capacity_le
  nested := by
    rw [capacity_get]
    exact h.nested_get key
  agree a ha b hb := h.agree a (mem_get ha) b (mem_get hb)
  hits_le := by
    have hle := h.hits_le
    by_cases hmiss : (small.get key).1 = none
    · rw [h.valid.get_miss hmiss]
      exact Nat.le_trans hle (hits_le_get h.validLarge key)
    · rw [hits_get_of_hit h.valid hmiss, hits_get_of_hit h.validLarge (h.hit hmiss)]
      exact Nat.succ_le_succ hle

theorem put (h : Within small large) (key value : Bytes) :
    Within (small.put key value) (large.put key value) where
  valid := h.valid.put key value
  validLarge := h.validLarge.put key value
  capacity_le := by
    rw [capacity_put, capacity_put]
    exact h.capacity_le
  nested := by
    have hlarge : large.keys.length ≤ large.capacity := by
      rw [keys, List.length_map]
      exact h.validLarge.bound
    rw [capacity_put, h.valid.keys_put, h.validLarge.keys_put]
    exact h.nested.store h.capacity_le hlarge key
  agree a ha b hb heq := by
    rcases h.valid.mem_put ha with ⟨hkey, hvalue⟩ | ⟨hkey, hold⟩
    · rcases h.validLarge.mem_put hb with ⟨-, hvalue'⟩ | ⟨hkey', -⟩
      · rw [hvalue, hvalue']
      · exact absurd (heq.symm.trans hkey) hkey'
    · rcases h.validLarge.mem_put hb with ⟨hkey', -⟩ | ⟨-, hold'⟩
      · exact absurd (heq.trans hkey') hkey
      · exact h.agree a hold b hold' heq
  hits_le := by
    rw [hits_put, hits_put]
    exact h.hits_le

/-- An entry of the smaller cache is one of the larger. -/
theorem entry (h : Within small large) {node : CacheNode} (hmem : node ∈ small.entries) :
    ∃ held ∈ large.entries, held.key = node.key ∧ held.value = node.value := by
  have hin : node.key ∈ large.keys := h.nested.sublist.subset (List.mem_map_of_mem hmem)
  obtain ⟨held, hheld, hkey⟩ := List.mem_map.mp hin
  exact ⟨held, hheld, hkey, (h.agree node hmem held hheld hkey.symm).symm⟩

theorem finds (h : Within small large) (found : (small.get key).1 = some value) :
    (large.get key).1 = some value := by
  obtain ⟨node, hmem, hkey, rfl⟩ := h.valid.get_some found
  have hit : (large.get key).1 ≠ none := h.hit (by rw [found]; exact Option.some_ne_none _)
  obtain ⟨answer, hanswer⟩ := Option.ne_none_iff_exists'.mp hit
  obtain ⟨held, hheld, hkey', rfl⟩ := h.validLarge.get_some hanswer
  rw [hanswer, h.agree node hmem held hheld (hkey.trans hkey'.symm)]

theorem heldBy (h : Within small large) : small.HeldBy large where
  entries _ hmem := h.entry hmem
  index key hin := by
    rw [AList.mem_keys, h.valid.keys_perm.mem_iff] at hin
    rw [AList.mem_keys, h.validLarge.keys_perm.mem_iff]
    exact h.nested.sublist.subset hin
  finds _ _ := h.finds
  hits_le := h.hits_le

/-- The calls of a run keep the two caches together. -/
theorem exec (c d : Nat) (calls : List LruCall) :
    ∀ {small large : LRUCache}, Within small large →
      ∃ small' large', (lruMachine c).exec small calls = some small' ∧
        (lruMachine d).exec large calls = some large' ∧ Within small' large' := by
  induction calls with
  | nil => exact fun {small large} h => ⟨small, large, rfl, rfl, h⟩
  | cons call calls ih =>
    intro small large h
    cases call with
    | get key => exact ih (h.get key)
    | put key value => exact ih (h.put key value)

end Within

/-- Whatever calls two caches have taken, the one of the smaller capacity holds
and has found nothing that the other has not. -/
theorem heldBy_exec {c d : Nat} (hle : c ≤ d) (calls : List LruCall) :
    ∃ small large, (lruMachine c).exec (lruMachine c).start calls = some small ∧
      (lruMachine d).exec (lruMachine d).start calls = some large ∧ small.HeldBy large := by
  obtain ⟨small, large, hsmall, hlarge, h⟩ := Within.exec c d calls (Within.new hle)
  exact ⟨small, large, hsmall, hlarge, h.heldBy⟩

/-- With room for one and for two entries, a lookup that only the larger finds. -/
theorem heldBy_exec_one_two : 1 ≤ 2 ∧
    ∃ small large, (lruMachine 1).exec (lruMachine 1).start promoted = some small ∧
      (lruMachine 2).exec (lruMachine 2).start promoted = some large ∧ small.HeldBy large :=
  ⟨by decide, heldBy_exec (by decide) promoted⟩

end WebServer.LRUCache
