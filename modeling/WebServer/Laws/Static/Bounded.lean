import WebServer.Laws.Static.Lru
import WebServer.Static.Handler

/-!
# How many files the cache holds

The capacity comes from the configuration as an `int`. From 0 on the cache is bounded
by it, with 0 for 1. A negative one becomes a `size_t` of more than `2^63`, and the
cache drops nothing before it holds that many files. So the bound is kept exactly for
the capacities from 0 on, and in the runs that never read a second file
(`held_le_iff`).
-/

namespace WebServer.FileManager

open Base LRUCache Recency

variable {manager : FileManager} {root : FileTree} {path : Bytes}

/-- The number of files in the cache. -/
def held (manager : FileManager) : Nat := manager.cache.entries.length

/-- The manager after calls of `readFile`, each with the files as they are then. -/
def after (cacheCapacity : Int) (calls : List (FileTree × Bytes)) : FileManager :=
  calls.foldl (fun manager call => (manager.readFile call.1 call.2).2) (.new cacheCapacity)

/-- A call that finds a file to read. -/
def Finds (call : FileTree × Bytes) : Prop := readRegular call.1 call.2 ≠ none

theorem after_concat (cacheCapacity : Int) (calls : List (FileTree × Bytes))
    (call : FileTree × Bytes) :
    after cacheCapacity (calls ++ [call]) =
      ((after cacheCapacity calls).readFile call.1 call.2).2 :=
  List.foldl_concat _ _ _ _

/-! ## What a call does to the cache -/

theorem valid_readFile (h : manager.cache.Valid) :
    (manager.readFile root path).2.cache.Valid ∧
      (manager.readFile root path).2.cache.capacity = manager.cache.capacity := by
  have hvalid := h.get path
  have hcapacity := capacity_get manager.cache path
  unfold readFile
  rcases hget : manager.cache.get path with ⟨_ | content, cache⟩
  · rw [hget] at hvalid hcapacity
    cases hread : readRegular root path with
    | none => exact ⟨hvalid, hcapacity⟩
    | some content => exact ⟨hvalid.put path content, (capacity_put cache path content).trans hcapacity⟩
  · rw [hget] at hvalid hcapacity
    exact ⟨hvalid, hcapacity⟩

/-- The keys behind a call: the path is touched, stored, or neither. -/
theorem keys_readFile (h : manager.cache.Valid) :
    (manager.readFile root path).2.cache.keys =
      if path ∈ manager.cache.keys then touch path manager.cache.keys
      else if readRegular root path = none then manager.cache.keys
      else (touch path manager.cache.keys).take manager.cache.capacity := by
  have hits := h.get_hits_iff path
  unfold readFile
  rcases hget : manager.cache.get path with ⟨_ | content, cache⟩
  · have hmiss : (manager.cache.get path).1 = none := by rw [hget]
    have hcache : cache = { manager.cache with missCount := manager.cache.missCount + 1 } := by
      rw [← h.get_miss hmiss, hget]
    have hout : path ∉ manager.cache.keys := fun hin => hits.mpr hin hmiss
    have hvalid : cache.Valid := by
      have hkept := h.get path
      rwa [hget] at hkept
    rw [if_neg hout]
    cases hread : readRegular root path with
    | none =>
      rw [if_pos rfl, hcache]
      rfl
    | some content =>
      rw [if_neg (Option.some_ne_none content)]
      show (cache.put path content).keys = _
      rw [hvalid.keys_put, hcache]
      rfl
  · have hhit : (manager.cache.get path).1 ≠ none := by
      rw [hget]
      exact Option.some_ne_none content
    have hkeys := h.keys_get hhit
    rw [hget] at hkeys
    rw [if_pos (hits.mp hhit)]
    exact hkeys

theorem held_eq (manager : FileManager) : manager.held = manager.cache.keys.length :=
  (List.length_map _).symm

/-- There is one file at most where all that is held are one file. -/
theorem held_le_one_iff (h : manager.cache.Valid) :
    manager.held ≤ 1 ↔ ∀ a ∈ manager.cache.keys, ∀ b ∈ manager.cache.keys, a = b := by
  have hnodup : manager.cache.keys.Nodup := h.keys_nodup
  rw [held_eq, ← List.toFinset_card_of_nodup hnodup, Finset.card_le_one]
  simp only [List.mem_toFinset]

/-! ## Runs -/

theorem valid_after (cacheCapacity : Int) (calls : List (FileTree × Bytes)) :
    (after cacheCapacity calls).cache.Valid ∧
      (after cacheCapacity calls).cache.capacity = (FileManager.new cacheCapacity).cache.capacity := by
  induction calls using List.reverseRecOn with
  | nil => exact ⟨valid_new _, rfl⟩
  | append_singleton calls call ih =>
    rw [after_concat]
    have hstep := @valid_readFile _ call.1 call.2 ih.1
    exact ⟨hstep.1, hstep.2.trans ih.2⟩

/-- Only files that were found are held. -/
theorem found_of_held (cacheCapacity : Int) (calls : List (FileTree × Bytes)) :
    ∀ key ∈ (after cacheCapacity calls).cache.keys, ∃ call ∈ calls, Finds call ∧ call.2 = key := by
  induction calls using List.reverseRecOn with
  | nil => exact fun key hin => absurd hin List.not_mem_nil
  | append_singleton calls call ih =>
    have earlier : ∀ key ∈ (after cacheCapacity calls).cache.keys,
        ∃ c ∈ calls ++ [call], Finds c ∧ c.2 = key := by
      intro key hin
      obtain ⟨c, hc, hfinds, hkey⟩ := ih key hin
      exact ⟨c, List.mem_append_left _ hc, hfinds, hkey⟩
    intro key hin
    rw [after_concat, keys_readFile (valid_after cacheCapacity calls).1] at hin
    split at hin
    next hold => exact earlier key ((touch_perm hold).mem_iff.mp hin)
    next =>
      split at hin
      next => exact earlier key hin
      next hfinds =>
        rcases mem_of_mem_touch (List.mem_of_mem_take hin) with rfl | hin
        · exact ⟨call, List.mem_append_right _ List.mem_cons_self, hfinds, rfl⟩
        · exact earlier key hin

/-- Where there is room a call drops nothing, and stores what it finds. -/
theorem keys_readFile_of_room (h : manager.cache.Valid)
    (room : manager.held + 1 ≤ manager.cache.capacity) :
    manager.cache.keys ⊆ (manager.readFile root path).2.cache.keys ∧
      (readRegular root path ≠ none → path ∈ (manager.readFile root path).2.cache.keys) := by
  rw [keys_readFile h]
  split
  next hold =>
    exact ⟨fun key hin => (touch_perm hold).mem_iff.mpr hin, fun _ => List.mem_cons_self⟩
  next hout =>
    split
    next hnone => exact ⟨List.Subset.refl _, fun hfinds => absurd hnone hfinds⟩
    next =>
      rw [held_eq] at room
      rw [touch_of_not_mem hout, List.take_of_length_le room]
      exact ⟨List.subset_cons_self _ _, fun _ => List.mem_cons_self⟩

/-- Where no two files were ever held at once, every file that was found is held. -/
theorem held_of_found {cacheCapacity : Int} (room : 2 ≤ (FileManager.new cacheCapacity).cache.capacity)
    (calls : List (FileTree × Bytes))
    (few : ∀ before, before <+: calls → (after cacheCapacity before).held ≤ 1) :
    ∀ call ∈ calls, Finds call → call.2 ∈ (after cacheCapacity calls).cache.keys := by
  induction calls using List.reverseRecOn with
  | nil => exact fun call hin => absurd hin List.not_mem_nil
  | append_singleton calls last ih =>
    have hprefix : calls <+: calls ++ [last] := List.prefix_append calls [last]
    have hheld := few calls hprefix
    obtain ⟨hvalid, hcapacity⟩ := valid_after cacheCapacity calls
    obtain ⟨hkeeps, hstores⟩ := @keys_readFile_of_room _ last.1 last.2 hvalid (by omega)
    intro call hin hfinds
    rw [after_concat]
    rcases List.mem_append.mp hin with hin | hin
    · exact hkeeps (ih (fun before h => few before (h.trans hprefix)) call hin hfinds)
    · obtain rfl := List.mem_singleton.mp hin
      exact hstores hfinds

/-! ## The bound -/

theorem capacity_new (cacheCapacity : Int) : (FileManager.new cacheCapacity).cache.capacity =
    if (cacheCapacity % 18446744073709551616).toNat = 0 then 1
    else (cacheCapacity % 18446744073709551616).toNat := rfl

theorem capacity_of_natural (n : Int32) (h : 0 ≤ n.toInt) :
    ((FileManager.new n.toInt).cache.capacity : Int) = max 1 n.toInt := by
  have hlt := n.toInt_lt
  rw [capacity_new]
  split <;> omega

/-- A negative capacity is none. -/
theorem capacity_of_negative (n : Int32) (h : n.toInt < 0) :
    2 ≤ (FileManager.new n.toInt).cache.capacity := by
  have hle := n.le_toInt
  rw [capacity_new]
  split <;> omega

/-- In a run of calls, whatever files there are, the cache never holds more files than
the configured capacity, or one, exactly if the capacity is not negative or the calls
never find two different files. -/
theorem held_le_iff (n : Int32) (calls : List (FileTree × Bytes)) :
    (∀ before, before <+: calls → ((after n.toInt before).held : Int) ≤ max 1 n.toInt) ↔
      0 ≤ n.toInt ∨ ∀ a ∈ calls, ∀ b ∈ calls, Finds a → Finds b → a.2 = b.2 := by
  constructor
  · intro hbound
    by_cases hn : 0 ≤ n.toInt
    · exact .inl hn
    · have hnegative : n.toInt < 0 := Int.not_le.mp hn
      have few : ∀ before, before <+: calls → (after n.toInt before).held ≤ 1 := by
        intro before hprefix
        have hle := hbound before hprefix
        omega
      refine .inr fun a ha b hb hfa hfb => ?_
      have hheld := held_of_found (capacity_of_negative n hnegative) calls few
      have hone := few calls (List.prefix_refl calls)
      exact (held_le_one_iff (valid_after n.toInt calls).1).mp hone _ (hheld a ha hfa) _
        (hheld b hb hfb)
  · intro hcases before hprefix
    obtain ⟨hvalid, hcapacity⟩ := valid_after n.toInt before
    rcases hcases with hn | hsame
    · have hle := hvalid.bound
      rw [hcapacity] at hle
      rw [← capacity_of_natural n hn]
      exact Int.ofNat_le.mpr hle
    · have hone : (after n.toInt before).held ≤ 1 := by
        rw [held_le_one_iff hvalid]
        intro key hin key' hin'
        obtain ⟨a, ha, hfa, rfl⟩ := found_of_held n.toInt before key hin
        obtain ⟨b, hb, hfb, rfl⟩ := found_of_held n.toInt before key' hin'
        exact hsame a (List.IsPrefix.subset hprefix ha) b (List.IsPrefix.subset hprefix hb) hfa hfb
      omega

/-- Two files in a directory. -/
def twoFiles : FileTree :=
  .directory true [(ascii "a", .file [] true), (ascii "b", .file [] true)]

/-- A cache of capacity -1 holds both. -/
theorem not_held_le : ¬ ∀ (n : Int32) (calls : List (FileTree × Bytes)) (before : List (FileTree × Bytes)),
    before <+: calls → ((after n.toInt before).held : Int) ≤ max 1 n.toInt := by
  intro all
  have hbound := all (-1) [(twoFiles, ascii "/a"), (twoFiles, ascii "/b")] _ (List.prefix_refl _)
  have hheld : (after (-1) [(twoFiles, ascii "/a"), (twoFiles, ascii "/b")]).held = 2 := by
    decide +kernel
  exact absurd hbound (by decide +kernel)

end WebServer.FileManager
