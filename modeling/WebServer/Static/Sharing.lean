import WebServer.Static.Handler

/-!
# The file cache between threads

A call of `readFile` is a lookup under the cache's mutex, a read of the file under no
mutex at all, and an insert under the mutex again. Other threads may step in between.
`readFile_steps` says that the steps of one call, taken one after the other, make up
`FileManager.readFile`.
-/

namespace WebServer

open Base

/-- Calls of `readFile` one after the other: what they found, and the manager they leave. -/
def FileManager.readFiles (root : FileTree) (manager : FileManager) :
    List Bytes → List (Option Bytes) × FileManager
  | [] => ([], manager)
  | path :: paths =>
    let (content, manager) := manager.readFile root path
    let (contents, manager) := manager.readFiles root paths
    (content :: contents, manager)

/-- Where a thread stands in `readFile`. -/
inductive ReadPc where
  | idle
  /-- Behind a lookup that missed. -/
  | missed (path : Bytes)
  /-- Behind the read, in front of the insert. -/
  | read (path content : Bytes)

/-- The cache, the threads that read through it, and the calls that have returned, each
with its path and the content it found. -/
structure FileThreads where
  cache : LRUCache
  threads : Nat → ReadPc := fun _ => .idle
  returned : List (Bytes × Option Bytes) := []

inductive ReadEvent where
  /-- A thread calls `readFile`, and looks the path up. -/
  | lookup (thread : Nat) (path : Bytes)
  /-- A thread whose lookup missed reads the file. -/
  | read (thread : Nat)
  /-- A thread puts what it read into the cache, and returns it. -/
  | insert (thread : Nat)

namespace FileThreads

/-- A thread returns. -/
def answer (s : FileThreads) (thread : Nat) (path : Bytes) (content : Option Bytes) :
    FileThreads :=
  { s with
    threads := Function.update s.threads thread .idle
    returned := (path, content) :: s.returned }

def step (root : FileTree) (s : FileThreads) (event : ReadEvent) : Option FileThreads :=
  match event with
  | .lookup thread path =>
    match s.threads thread, s.cache.get path with
    | .idle, (some content, cache) => some ({ s with cache }.answer thread path (some content))
    | .idle, (none, cache) =>
      some { s with cache, threads := Function.update s.threads thread (.missed path) }
    | _, _ => none
  | .read thread =>
    match s.threads thread with
    | .missed path =>
      match readRegular root path with
      | none => some (s.answer thread path none)
      | some content =>
        some { s with threads := Function.update s.threads thread (.read path content) }
    | _ => none
  | .insert thread =>
    match s.threads thread with
    | .read path content =>
      some ({ s with cache := s.cache.put path content }.answer thread path (some content))
    | _ => none

end FileThreads

/-- The calls of any threads, from an empty cache on. -/
def fileThreads (root : FileTree) (cacheCapacity : Int) : Machine FileThreads ReadEvent where
  start := { cache := (FileManager.new cacheCapacity).cache }
  step := FileThreads.step root

/-- The steps of one call, with no other thread in between. -/
def readFileEvents (root : FileTree) (cache : LRUCache) (thread : Nat) (path : Bytes) :
    List ReadEvent :=
  match (cache.get path).1, readRegular root path with
  | some _, _ => [.lookup thread path]
  | none, none => [.lookup thread path, .read thread]
  | none, some _ => [.lookup thread path, .read thread, .insert thread]

/-- They answer what `readFile` answers, and leave the cache that it leaves. -/
theorem readFile_steps (root : FileTree) (cacheCapacity : Int) {s : FileThreads} {thread : Nat}
    (idle : s.threads thread = .idle) (path : Bytes) :
    ((fileThreads root cacheCapacity).exec s (readFileEvents root s.cache thread path)).map
        (fun s' => (s'.returned, s'.cache)) =
      some ((path, ((FileManager.mk s.cache).readFile root path).1) :: s.returned,
        ((FileManager.mk s.cache).readFile root path).2.cache) := by
  unfold readFileEvents FileManager.readFile
  cases hget : s.cache.get path with
  | mk cached cache =>
    cases cached with
    | some content =>
      simp only [Machine.exec, fileThreads, FileThreads.step, idle, hget, FileThreads.answer,
        Option.bind_some, Option.map_some]
    | none =>
      cases hread : readRegular root path with
      | none =>
        simp only [Machine.exec, fileThreads, FileThreads.step, idle, hget, hread,
          Function.update_self, FileThreads.answer, Option.bind_some, Option.map_some]
      | some content =>
        simp only [Machine.exec, fileThreads, FileThreads.step, idle, hget, hread,
          Function.update_self, FileThreads.answer, Option.bind_some, Option.map_some]

end WebServer
