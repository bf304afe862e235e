import WebServer.Base.History
import WebServer.Base.Recency
import WebServer.Laws.Static.Cache

/-!
# The cache keeps what was used last

A use of a key is a `put`, or a `get` that finds it. Over any run of the cache
its list has the keys of the last `max 1 capacity` used, the newest in front
(`Tracks`), each with the value that was put last. What the cache answers and
what it drops then follow from the order of the uses alone (`actsAsLru`).
-/

namespace WebServer.LRUCache

open Base Recency

variable {cache : LRUCache} {key value : Bytes}

/-- The keys of the list, front first. -/
def keys (cache : LRUCache) : List Bytes := cache.entries.map CacheNode.key

/-! ## What a call does to the keys -/

/-- Among the nodes, those an iterator names are those of its key. -/
theorem Valid.id_iff (h : cache.Valid) {i : Nat} (hi : cache.index.lookup key = some i)
    {node : CacheNode} (hmem : node ∈ cache.entries) : node.id = i ↔ node.key = key := by
  obtain ⟨found, hfound, hid, hkey⟩ := (h.live key i).mp hi
  constructor
  · intro heq
    rw [h.unique hmem hfound (heq.trans hid.symm), hkey]
  · intro heq
    rw [← heq, (h.live node.key node.id).mpr ⟨node, hmem, rfl, rfl⟩] at hi
    exact Option.some.inj hi

theorem Valid.lookup_none_iff (h : cache.Valid) (key : Bytes) :
    cache.index.lookup key = none ↔ key ∉ cache.keys := by
  rw [AList.lookup_eq_none, AList.mem_keys, h.keys_perm.mem_iff, keys]

/-- Moving the node of a key to the front moves the key there. -/
theorem Valid.keys_splice (h : cache.Valid) {i : Nat} (hi : cache.index.lookup key = some i) :
    (splice cache.entries i).map CacheNode.key = touch key cache.keys := by
  have hin : key ∈ cache.keys := by
    by_contra hout
    rw [(h.lookup_none_iff key).mpr hout] at hi
    cases hi
  have hfirst : (cache.entries.filter fun node => decide (node.id = i)) =
      cache.entries.filter ((fun k => decide (k = key)) ∘ CacheNode.key) :=
    List.filter_congr fun node hmem => decide_eq_decide.mpr (h.id_iff hi hmem)
  have hrest : (cache.entries.filter fun node => decide (node.id ≠ i)) =
      cache.entries.filter ((fun k => decide (k ≠ key)) ∘ CacheNode.key) :=
    List.filter_congr fun node hmem => decide_eq_decide.mpr (not_congr (h.id_iff hi hmem))
  rw [splice, hfirst, hrest, List.map_append, ← List.filter_map, ← List.filter_map]
  exact (touch_eq_filter h.keys_nodup hin).symm

/-- A lookup that hits touches its key. -/
theorem Valid.keys_get (h : cache.Valid) (hit : (cache.get key).1 ≠ none) :
    (cache.get key).2.keys = touch key cache.keys := by
  cases hi : cache.index.lookup key with
  | none => simp [LRUCache.get, hi] at hit
  | some i =>
    obtain ⟨node, -, hd, -⟩ := h.deref hi
    simp only [LRUCache.get, hi, hd]
    exact h.keys_splice hi

/-- A lookup that misses only counts. -/
theorem Valid.get_miss (h : cache.Valid) (miss : (cache.get key).1 = none) :
    (cache.get key).2 = { cache with missCount := cache.missCount + 1 } := by
  cases hi : cache.index.lookup key with
  | none => simp only [LRUCache.get, hi]
  | some i =>
    obtain ⟨node, -, hd, -⟩ := h.deref hi
    simp [LRUCache.get, hi, hd] at miss

/-- A lookup hits the keys of the list. -/
theorem Valid.get_hits_iff (h : cache.Valid) (key : Bytes) :
    (cache.get key).1 ≠ none ↔ key ∈ cache.keys := by
  cases hi : cache.index.lookup key with
  | none =>
    have hout := (h.lookup_none_iff key).mp hi
    simp [LRUCache.get, hi, hout]
  | some i =>
    obtain ⟨node, hmem, hd, -, hkey⟩ := h.deref hi
    have hin : key ∈ cache.keys := List.mem_map.mpr ⟨node, hmem, hkey⟩
    simp [LRUCache.get, hi, hd, hin]

/-- Rewriting nodes in place commutes with moving one of them. -/
theorem splice_map {f : CacheNode → CacheNode} (hf : ∀ node, (f node).id = node.id)
    (entries : List CacheNode) (i : Nat) : splice (entries.map f) i = (splice entries i).map f := by
  simp only [splice, List.filter_map, List.map_append, Function.comp_def, hf]

/-- A `put` touches its key, and the list is cut at the capacity. -/
theorem Valid.keys_put (h : cache.Valid) (key value : Bytes) :
    (cache.put key value).keys = (touch key cache.keys).take cache.capacity := by
  have hlength : cache.keys.length ≤ cache.capacity := by
    rw [keys, List.length_map]
    exact h.bound
  cases hi : cache.index.lookup key with
  | some i =>
    have hin : key ∈ cache.keys := by
      by_contra hout
      rw [(h.lookup_none_iff key).mpr hout] at hi
      cases hi
    have hkeys : (cache.put key value).keys = touch key cache.keys := by
      rw [keys, LRUCache.put, hi]
      dsimp only
      rw [splice_map (fun node => by split <;> rfl), List.map_map, ← h.keys_splice hi]
      refine List.map_congr_left fun node _ => ?_
      rw [Function.comp_apply]
      split <;> rfl
    rw [hkeys, List.take_of_length_le]
    rw [length_touch hin]
    exact hlength
  | none =>
    rw [touch_of_not_mem ((h.lookup_none_iff key).mp hi)]
    have hsize : (cache.index.insert key cache.nextNode).keys.length = cache.keys.length + 1 := by
      rw [keys, List.length_map]
      exact (h.push_front hi value (cache.capacity + 1) (Nat.lt_succ_of_le h.bound)).size
    simp only [LRUCache.put, hi, evict, hsize]
    split
    next full =>
      cases hl : ({ id := cache.nextNode, key := key, value := value } :: cache.entries).getLast? with
      | none => simp at hl
      | some back =>
        have hfull : (key :: cache.keys).length - 1 = cache.capacity := by
          rw [List.length_cons]
          omega
        rw [← hfull, ← List.dropLast_eq_take]
        exact List.map_dropLast
    next room =>
      rw [List.take_of_length_le (by simpa using room)]
      rfl

/-- The nodes behind a `put`: that of the key has the new value, and the others
were there. -/
theorem Valid.mem_put (h : cache.Valid) {node : CacheNode}
    (hmem : node ∈ (cache.put key value).entries) :
    (node.key = key ∧ node.value = value) ∨ (node.key ≠ key ∧ node ∈ cache.entries) := by
  cases hi : cache.index.lookup key with
  | none =>
    rcases (h.put_new hi value).2 node hmem with rfl | hold
    · exact .inl ⟨rfl, rfl⟩
    · refine .inr ⟨fun hkey => (h.lookup_none_iff key).mp hi ?_, hold⟩
      exact List.mem_map.mpr ⟨node, hold, hkey⟩
  | some i =>
    simp only [LRUCache.put, hi] at hmem
    obtain ⟨old, hold, rfl⟩ := List.mem_map.mp ((splice_perm _ i).subset hmem)
    by_cases hid : old.id = i
    · rw [if_pos hid]
      exact .inl ⟨(h.id_iff hi hold).mp hid, rfl⟩
    · rw [if_neg hid]
      exact .inr ⟨fun hkey => hid ((h.id_iff hi hold).mpr hkey), hold⟩

theorem capacity_get (cache : LRUCache) (key : Bytes) :
    (cache.get key).2.capacity = cache.capacity := by
  unfold LRUCache.get
  split
  · rfl
  · split <;> rfl

theorem capacity_put (cache : LRUCache) (key value : Bytes) :
    (cache.put key value).capacity = cache.capacity := by
  unfold LRUCache.put
  split
  · rfl
  · unfold evict
    split
    · split <;> rfl
    · rfl

/-- The sum of the counters. -/
def counted (cache : LRUCache) : Nat := cache.hits + cache.misses

theorem Valid.counted_get (h : cache.Valid) (key : Bytes) :
    (cache.get key).2.counted = cache.counted + 1 := by
  cases hi : cache.index.lookup key with
  | none =>
    simp only [counted, hits, misses, LRUCache.get, hi]
    omega
  | some i =>
    obtain ⟨node, -, hd, -⟩ := h.deref hi
    simp only [counted, hits, misses, LRUCache.get, hi, hd]
    omega

theorem counted_put (cache : LRUCache) (key value : Bytes) :
    (cache.put key value).counted = cache.counted := by
  unfold LRUCache.put
  split
  · rfl
  · unfold evict
    split
    · split <;> rfl
    · rfl

/-! ## The calls that were made -/

/-- A call that is over. -/
inductive Done where
  | hit (key : Bytes)
  | miss (key : Bytes)
  | put (key value : Bytes)
  deriving DecidableEq

/-- The key that a call has used. -/
def Done.used : Done → Option Bytes
  | .hit key | .put key _ => some key
  | .miss _ => none

def Done.isGet : Done → Bool
  | .hit _ | .miss _ => true
  | .put _ _ => false

/-- What a call adds to the calls that are over, the newest first. -/
def finished (cache : LRUCache) (call : LruCall) (past : List Done) : List Done :=
  match call with
  | .get key => (if (cache.get key).1 = none then .miss key else .hit key) :: past
  | .put key value => .put key value :: past

/-- The uses of keys, the newest first. -/
def uses (past : List Done) : List Bytes := past.filterMap Done.used

/-- The value that was last put under the key. -/
def lastPut (key : Bytes) : List Done → Option Bytes
  | [] => none
  | .put k value :: past => if key = k then some value else lastPut key past
  | .hit _ :: past | .miss _ :: past => lastPut key past

/-- The cache has followed the calls: its keys are those used last, with the
values put last, and a key that was used was put. -/
structure Tracks (cache : LRUCache) (past : List Done) : Prop where
  valid : cache.Valid
  keys_eq : cache.keys = (recent (uses past)).take cache.capacity
  values : cache.Holds fun key value => lastPut key past = some value
  wasPut : ∀ key ∈ uses past, ∃ value, .put key value ∈ past
  counted_eq : cache.counted = past.countP Done.isGet

theorem tracks_new (capacity : Nat) : (new capacity).Tracks [] where
  valid := valid_new capacity
  keys_eq := List.take_nil.symm
  values := holds_new _ capacity
  wasPut _ h := absurd h List.not_mem_nil
  counted_eq := rfl

namespace Tracks

variable {past : List Done}

/-- A lookup that misses is no use. -/
theorem miss (h : cache.Tracks past) (hmiss : (cache.get key).1 = none) :
    (cache.get key).2.Tracks (.miss key :: past) where
  valid := h.valid.get key
  keys_eq := by
    rw [h.valid.get_miss hmiss]
    exact h.keys_eq
  values := h.values.get key
  wasPut k hin := by
    obtain ⟨value, hput⟩ := h.wasPut k hin
    exact ⟨value, List.mem_cons_of_mem _ hput⟩
  counted_eq := by
    rw [h.valid.counted_get, h.counted_eq, List.countP_cons_of_pos rfl]

/-- Only keys that were used are in the list. -/
theorem used (h : cache.Tracks past) (hin : key ∈ cache.keys) : key ∈ uses past := by
  rw [h.keys_eq] at hin
  exact mem_recent.mp (List.mem_of_mem_take hin)

theorem hit (h : cache.Tracks past) (hhit : (cache.get key).1 ≠ none) :
    (cache.get key).2.Tracks (.hit key :: past) where
  valid := h.valid.get key
  keys_eq := by
    have hin := (h.valid.get_hits_iff key).mp hhit
    have hlength : (touch key cache.keys).length ≤ cache.capacity := by
      rw [length_touch hin, keys, List.length_map]
      exact h.valid.bound
    calc (cache.get key).2.keys
        = touch key cache.keys := h.valid.keys_get hhit
      _ = (touch key cache.keys).take cache.capacity := (List.take_of_length_le hlength).symm
      _ = (touch key (recent (uses past))).take cache.capacity := by rw [h.keys_eq, take_touch]
      _ = (recent (uses (.hit key :: past))).take (cache.get key).2.capacity := by
        rw [capacity_get]
        rfl
  values := h.values.get key
  wasPut k hin := by
    have hused : k ∈ uses past := by
      rcases List.mem_cons.mp hin with rfl | hin
      · exact h.used ((h.valid.get_hits_iff k).mp hhit)
      · exact hin
    obtain ⟨value, hput⟩ := h.wasPut k hused
    exact ⟨value, List.mem_cons_of_mem _ hput⟩
  counted_eq := by
    rw [h.valid.counted_get, h.counted_eq, List.countP_cons_of_pos rfl]

theorem put (h : cache.Tracks past) (key value : Bytes) :
    (cache.put key value).Tracks (.put key value :: past) where
  valid := h.valid.put key value
  keys_eq := by
    rw [h.valid.keys_put, h.keys_eq, take_touch, capacity_put]
    rfl
  values node hmem := by
    rcases h.valid.mem_put hmem with ⟨hkey, hvalue⟩ | ⟨hkey, hold⟩
    · rw [lastPut, if_pos hkey, hvalue]
    · rw [lastPut, if_neg hkey]
      exact h.values node hold
  wasPut k hin := by
    rcases List.mem_cons.mp hin with rfl | hin
    · exact ⟨value, List.mem_cons_self⟩
    · obtain ⟨v, hput⟩ := h.wasPut k hin
      exact ⟨v, List.mem_cons_of_mem _ hput⟩
  counted_eq := by
    rw [counted_put, h.counted_eq]
    rfl

end Tracks

/-- The state of a run: the cache has its capacity and has followed the calls. -/
theorem tracks_run {capacity : Nat} {p : LRUCache × List Done}
    (r : ((lruMachine capacity).recording [] finished).Reachable p) :
    p.1.capacity = max 1 capacity ∧ p.1.Tracks p.2 := by
  refine r.invariant
    (I := fun p => p.1.capacity = max 1 capacity ∧ p.1.Tracks p.2) ⟨?_, tracks_new capacity⟩ ?_
  · simp only [Machine.recording, lruMachine, new]
    split <;> omega
  · rintro ⟨cache, past⟩ call ⟨cache', past'⟩ ⟨hcapacity, h⟩ - hs
    obtain ⟨hstep, hpast⟩ := Machine.recording_step hs
    dsimp only at hcapacity h hstep hpast ⊢
    cases call with
    | get key =>
      obtain rfl : (cache.get key).2 = cache' := Option.some.inj hstep
      rw [hpast, capacity_get]
      refine ⟨hcapacity, ?_⟩
      rw [finished]
      split
      next hmiss => exact h.miss hmiss
      next hhit => exact h.hit hhit
    | put key value =>
      obtain rfl : cache.put key value = cache' := Option.some.inj hstep
      rw [hpast, capacity_put]
      exact ⟨hcapacity, h.put key value⟩

/-! ## The policy -/

/-- Every other key of the list has been used since this one last was. -/
def LeastRecent (cache : LRUCache) (past : List Done) (key : Bytes) : Prop :=
  key ∈ cache.keys ∧ ∀ other ∈ cache.keys, other ≠ key → UsedSince (uses past) other key

/-- The law of the cache over a run, from the calls that are over. -/
structure ActsAsLru (cache : LRUCache) (capacity : Nat) (past : List Done) : Prop where
  index_iff : ∀ key i, cache.index.lookup key = some i ↔
    ∃ node ∈ cache.entries, node.id = i ∧ node.key = key
  ids_nodup : (cache.entries.map CacheNode.id).Nodup
  keys_nodup : cache.keys.Nodup
  length_le : cache.entries.length ≤ max 1 capacity
  ordered : cache.keys.Pairwise (UsedSince (uses past))
  get_hits : ∀ key, (cache.get key).1 ≠ none ↔
    (∃ value, .put key value ∈ past) ∧ (since key (uses past)).toFinset.card < max 1 capacity
  get_value : ∀ {key value}, (cache.get key).1 = some value → lastPut key past = some value
  get_keeps : ∀ key, (cache.get key).2.keys.Perm cache.keys
  put_stores : ∀ key value, key ∈ (cache.put key value).keys
  put_evicts : ∀ {key value gone}, gone ∈ cache.keys → gone ∉ (cache.put key value).keys →
    key ∉ cache.keys ∧ cache.entries.length = max 1 capacity ∧ cache.LeastRecent past gone
  counts : cache.hits + cache.misses = past.countP Done.isGet

namespace Tracks

variable {past : List Done}

theorem used_iff (h : cache.Tracks past) (key : Bytes) :
    key ∈ uses past ↔ ∃ value, .put key value ∈ past := by
  refine ⟨h.wasPut key, ?_⟩
  rintro ⟨value, hput⟩
  exact List.mem_filterMap.mpr ⟨.put key value, hput, rfl⟩

theorem ordered (h : cache.Tracks past) : cache.keys.Pairwise (UsedSince (uses past)) := by
  rw [h.keys_eq]
  exact (recent_ordered (uses past)).sublist (List.take_sublist _ _)

theorem get_hits (h : cache.Tracks past) (key : Bytes) :
    (cache.get key).1 ≠ none ↔ (∃ value, .put key value ∈ past) ∧
      (since key (uses past)).toFinset.card < cache.capacity := by
  rw [h.valid.get_hits_iff, h.keys_eq, mem_take_recent, h.used_iff]

theorem get_value (h : cache.Tracks past) (hvalue : (cache.get key).1 = some value) :
    lastPut key past = some value := by
  obtain ⟨node, hmem, rfl, rfl⟩ := h.valid.get_some hvalue
  exact h.values node hmem

/-- A lookup drops nothing. -/
theorem get_keeps (h : cache.Tracks past) (key : Bytes) :
    (cache.get key).2.keys.Perm cache.keys := by
  by_cases hit : (cache.get key).1 = none
  · rw [h.valid.get_miss hit]
    exact .refl _
  · rw [h.valid.keys_get hit]
    exact touch_perm ((h.valid.get_hits_iff key).mp hit)

theorem put_stores (h : cache.Tracks past) (key value : Bytes) :
    key ∈ (cache.put key value).keys := by
  rw [h.valid.keys_put, mem_take_iff, touch, since_cons_self]
  exact ⟨List.mem_cons_self, h.valid.positive⟩

/-- A `put` drops a key only to make room for a new one, and only the one that
was not used for longest. -/
theorem put_evicts (h : cache.Tracks past) {gone : Bytes} (hin : gone ∈ cache.keys)
    (hout : gone ∉ (cache.put key value).keys) :
    key ∉ cache.keys ∧ cache.entries.length = cache.capacity ∧ cache.LeastRecent past gone := by
  have hlength : cache.keys.length = cache.entries.length := List.length_map _
  have hbound := h.valid.bound
  rw [h.valid.keys_put] at hout
  have hnew : key ∉ cache.keys := by
    intro hold
    rw [List.take_of_length_le (by rw [length_touch hold, hlength]; exact hbound)] at hout
    exact hout ((touch_perm hold).mem_iff.mpr hin)
  have hne : key ≠ gone := fun heq => hnew (heq ▸ hin)
  rw [touch_of_not_mem hnew, mem_take_iff, since_cons_ne hne, List.length_cons] at hout
  have hdeep : cache.capacity ≤ (since gone cache.keys).length + 1 := by
    by_contra hshallow
    exact hout ⟨List.mem_cons_of_mem _ hin, Nat.lt_of_not_le hshallow⟩
  have hfull : cache.entries.length = cache.capacity := by
    by_contra hroom
    have hshallow := ((mem_take_iff cache.keys.length cache.keys).mp
      (by rw [List.take_length]; exact hin)).2
    omega
  refine ⟨hnew, hfull, hin, fun other hother hdistinct => ?_⟩
  have hsince := mem_since_of_last (by omega) hother hdistinct
  rw [h.keys_eq] at hsince
  have hrecent := mem_since_of_mem_take hsince
  rw [since_recent] at hrecent
  exact mem_recent.mp hrecent

end Tracks

/-- In every run of a cache of any capacity, the cache is the list of the keys
used last. -/
theorem actsAsLru {capacity : Nat} {p : LRUCache × List Done}
    (r : ((lruMachine capacity).recording [] finished).Reachable p) :
    p.1.ActsAsLru capacity p.2 := by
  obtain ⟨hcapacity, h⟩ := tracks_run r
  have hbound := h.valid.bound
  rw [hcapacity] at hbound
  have hhits := h.get_hits
  rw [hcapacity] at hhits
  have hevicts : ∀ {key value gone : Bytes}, gone ∈ p.1.keys →
      gone ∉ (p.1.put key value).keys → key ∉ p.1.keys ∧
        p.1.entries.length = p.1.capacity ∧ p.1.LeastRecent p.2 gone := h.put_evicts
  rw [hcapacity] at hevicts
  exact {
    index_iff := h.valid.live
    ids_nodup := h.valid.ids
    keys_nodup := h.valid.keys_nodup
    length_le := hbound
    ordered := h.ordered
    get_hits := hhits
    get_value := h.get_value
    get_keeps := h.get_keeps
    put_stores := h.put_stores
    put_evicts := hevicts
    counts := h.counted_eq }

/-- Two keys are put into a cache of two, the first is read, and a third comes. -/
def promoted : List LruCall :=
  [.put (ascii "a") (ascii "1"), .put (ascii "b") (ascii "2"), .get (ascii "a"),
    .put (ascii "c") (ascii "3")]

/-- The one that was read stays, and the other goes. -/
theorem actsAsLru_promoted :
    ∃ p, ((lruMachine 2).recording [] finished).exec (new 2, []) promoted = some p ∧
      (p.1.get (ascii "a")).1 ≠ none ∧ (p.1.get (ascii "b")).1 = none := by
  have hrun : (((lruMachine 2).recording [] finished).exec (new 2, []) promoted).map Prod.snd =
      some [.put (ascii "c") (ascii "3"), .hit (ascii "a"), .put (ascii "b") (ascii "2"),
        .put (ascii "a") (ascii "1")] := by decide +kernel
  obtain ⟨p, hexec, hpast⟩ := Option.map_eq_some_iff.mp hrun
  have hacts := actsAsLru (.of_exec hexec)
  rw [hpast] at hacts
  refine ⟨p, hexec, (hacts.get_hits (ascii "a")).mpr ⟨⟨ascii "1", ?_⟩, ?_⟩, ?_⟩
  · decide +kernel
  · decide +kernel
  · refine not_not.mp fun hhit => ?_
    exact absurd ((hacts.get_hits (ascii "b")).mp hhit).2 (by decide +kernel)

end WebServer.LRUCache
