import WebServer.Laws.Static.Containment
import WebServer.Static.Sharing

/-!
# The file cache is transparent

What the cache holds is what the file system holds, and what a thread carries from its
read to its insert is what the file system holds (`Faithful`). So it does not matter
what other threads put there in between, or in which order: every call answers what
reading the file answers (`readFile_transparent`). A path that cannot be read is not
put there at all.
-/

namespace WebServer

open Base

variable {root : FileTree}

/-- The cache has nothing under a path, neither in its list nor in its index. -/
def LRUCache.Lacks (cache : LRUCache) (path : Bytes) : Prop :=
  path ∉ cache.index ∧ ∀ node ∈ cache.entries, node.key ≠ path

/-- A path that cannot be read is not in a cache that holds what can be. -/
theorem LRUCache.Valid.lacks {cache : LRUCache} (valid : cache.Valid)
    (holds : cache.Holds fun path content => readRegular root path = some content)
    {path : Bytes} (h : readRegular root path = none) : cache.Lacks path := by
  have absent : ∀ node ∈ cache.entries, node.key ≠ path := by
    intro node hmem hkey
    have hread := holds node hmem
    rw [hkey, h] at hread
    cases hread
  refine ⟨?_, absent⟩
  intro hin
  obtain ⟨iterator, hlookup⟩ := Option.isSome_iff_exists.mp (AList.lookup_isSome.mpr hin)
  obtain ⟨node, hmem, -, hkey⟩ := (valid.live path iterator).mp hlookup
  exact absent node hmem hkey

/-! ## One call after the other -/

theorem FileManager.Transparent.readFiles {manager : FileManager} (h : manager.Transparent root)
    (paths : List Bytes) :
    (manager.readFiles root paths).1 = paths.map (readRegular root) ∧
      (manager.readFiles root paths).2.Transparent root := by
  induction paths generalizing manager with
  | nil => exact ⟨rfl, h⟩
  | cons path paths ih =>
    obtain ⟨same, kept⟩ := h.readFile path
    obtain ⟨later, end_⟩ := ih kept
    refine ⟨?_, end_⟩
    exact List.cons_eq_cons.mpr ⟨same, later⟩

/-! ## Threads -/

namespace FileThreads

variable {s : FileThreads}

/-- Nothing in the cache, in a thread's hands or among the answers differs from the
file system. -/
structure Faithful (root : FileTree) (s : FileThreads) : Prop where
  valid : s.cache.Valid
  holds : s.cache.Holds fun path content => readRegular root path = some content
  read : ∀ thread path content, s.threads thread = .read path content →
    readRegular root path = some content
  returned : ∀ call ∈ s.returned, call.2 = readRegular root call.1

/-- A thread moves on to a place where it carries nothing wrong. -/
theorem Faithful.move (h : s.Faithful root) {pc : ReadPc}
    (hpc : ∀ path content, pc = .read path content → readRegular root path = some content)
    (thread : Nat) :
    Faithful root { s with threads := Function.update s.threads thread pc } where
  valid := h.valid
  holds := h.holds
  read t path content hread := by
    dsimp only at hread
    by_cases ht : t = thread
    · rw [ht, Function.update_self] at hread
      exact hpc path content hread
    · rw [Function.update_of_ne ht] at hread
      exact h.read t path content hread
  returned := h.returned

theorem Faithful.answer (h : s.Faithful root) {path : Bytes} {content : Option Bytes}
    (hcontent : content = readRegular root path) (thread : Nat) :
    (s.answer thread path content).Faithful root := by
  have hidle : ∀ path content, ReadPc.idle = .read path content →
      readRegular root path = some content := by
    intro path content heq
    cases heq
  have hmove := h.move hidle thread
  constructor
  · exact h.valid
  · exact h.holds
  · exact hmove.read
  · intro call hin
    rcases List.mem_cons.mp hin with rfl | hold
    · exact hcontent
    · exact h.returned call hold

/-- A hit is what the file system holds. -/
theorem Faithful.hit (h : s.Faithful root) {path content : Bytes}
    (hget : (s.cache.get path).1 = some content) : some content = readRegular root path := by
  obtain ⟨node, hmem, hkey, hvalue⟩ := h.valid.get_some hget
  have hread := h.holds node hmem
  rw [hkey, hvalue] at hread
  exact hread.symm

theorem Faithful.lookup (h : s.Faithful root) (path : Bytes) :
    Faithful root { s with cache := (s.cache.get path).2 } where
  valid := h.valid.get path
  holds := h.holds.get path
  read := h.read
  returned := h.returned

theorem Faithful.insert (h : s.Faithful root) {path content : Bytes}
    (hread : readRegular root path = some content) :
    Faithful root { s with cache := s.cache.put path content } where
  valid := h.valid.put path content
  holds := h.holds.put h.valid hread
  read := h.read
  returned := h.returned

/-- Whichever thread steps, nothing wrong comes in. -/
theorem Faithful.step (h : s.Faithful root) {s' : FileThreads} {event : ReadEvent}
    (hs : step root s event = some s') : s'.Faithful root := by
  cases event with
  | lookup thread path =>
    have hlookup := h.lookup path
    have hhit : ∀ content, (s.cache.get path).1 = some content →
        some content = readRegular root path := fun _ hget => h.hit hget
    simp only [FileThreads.step] at hs
    split at hs
    next content cache _ hget =>
      rw [hget] at hlookup hhit
      cases hs
      exact hlookup.answer (hhit content rfl) thread
    next cache _ hget =>
      rw [hget] at hlookup
      cases hs
      refine hlookup.move ?_ thread
      intro p content heq
      cases heq
    next => cases hs
  | read thread =>
    simp only [FileThreads.step] at hs
    split at hs
    next path _ =>
      split at hs
      next hnone =>
        cases hs
        exact h.answer hnone.symm thread
      next content hsome =>
        cases hs
        refine h.move ?_ thread
        intro p c heq
        cases heq
        exact hsome
    next => cases hs
  | insert thread =>
    simp only [FileThreads.step] at hs
    split at hs
    next path content hpc =>
      have hread := h.read thread path content hpc
      cases hs
      exact (h.insert hread).answer hread.symm thread
    next => cases hs

end FileThreads

theorem faithful {cacheCapacity : Int} {s : FileThreads}
    (r : (fileThreads root cacheCapacity).Reachable s) : s.Faithful root := by
  have empty := FileManager.transparent_new root cacheCapacity
  refine r.invariant (I := FileThreads.Faithful root) ?_ ?_
  · constructor
    · exact empty.valid
    · exact empty.holds
    · intro thread path content hread
      cases hread
    · exact List.forall_mem_nil _
  · intro s event s' h _ hs
    exact h.step hs

/-- A cache of this capacity makes no difference to what is read. -/
structure CacheTransparent (root : FileTree) (cacheCapacity : Int) : Prop where
  /-- Calls one after the other. -/
  sequence : ∀ paths, ((FileManager.new cacheCapacity).readFiles root paths).1 =
    paths.map (readRegular root)
  sequence_lacks : ∀ paths path, readRegular root path = none →
    ((FileManager.new cacheCapacity).readFiles root paths).2.cache.Lacks path
  /-- Calls of any threads, with their steps in any order. -/
  threads : ∀ s, (fileThreads root cacheCapacity).Reachable s → ∀ call ∈ s.returned,
    call.2 = readRegular root call.1
  threads_lack : ∀ s, (fileThreads root cacheCapacity).Reachable s → ∀ path,
    readRegular root path = none → s.cache.Lacks path

/-- Every call of `readFile` answers what reading the file answers, and a path that
could not be read never enters the cache. -/
theorem readFile_transparent (root : FileTree) (cacheCapacity : Int) :
    CacheTransparent root cacheCapacity := by
  have fresh := FileManager.transparent_new root cacheCapacity
  constructor
  · intro paths
    exact (fresh.readFiles paths).1
  · intro paths path h
    have kept := (fresh.readFiles paths).2
    exact kept.valid.lacks kept.holds h
  · intro s r
    exact (faithful r).returned
  · intro s r path h
    exact (faithful r).valid.lacks (faithful r).holds h

/-- A directory with one file, which is empty. -/
def emptyFile : FileTree := .directory true [(ascii "a", .file [] true)]

/-- Two threads miss the same file, and the one that read it last inserts it first. -/
def sharedMiss : List ReadEvent :=
  [.lookup 0 (ascii "/a"), .lookup 1 (ascii "/a"), .read 0, .read 1, .insert 1, .insert 0]

/-- Both get the empty content. -/
theorem readFile_transparent_shared :
    ∃ s, (fileThreads emptyFile 0).exec (fileThreads emptyFile 0).start sharedMiss = some s ∧
      s.returned.length = 2 ∧ ∀ call ∈ s.returned, call.2 = readRegular emptyFile call.1 := by
  have hrun : ∃ s, (fileThreads emptyFile 0).exec (fileThreads emptyFile 0).start sharedMiss =
      some s ∧ s.returned.length = 2 := ⟨_, rfl, rfl⟩
  obtain ⟨s, hs, hlength⟩ := hrun
  exact ⟨s, hs, hlength, (readFile_transparent emptyFile 0).threads s (.of_exec hs)⟩

end WebServer
