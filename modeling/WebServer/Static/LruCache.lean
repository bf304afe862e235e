import Mathlib.Data.List.AList
import WebServer.Base.Bytes
import WebServer.Base.Machine

/-!
# `LRUCache`

A `std::list` of entries, the most recently used in front, and a hash table from
keys to iterators into that list. An iterator names its list node for as long as
the node lives, wherever the node is moved; here a node carries a number that is
never used twice, and the number is the iterator. Each operation is one section
under the cache's mutex.
-/

namespace WebServer

open Base

/-- A node of the list: the identity its iterators have, and the entry. -/
structure CacheNode where
  id : Nat
  key : Bytes
  value : Bytes
  deriving DecidableEq, Repr

/-- The two counts are of type `size_t` in the source: 2^64 lookups are taken to be out of
reach. -/
structure LRUCache where
  capacity : Nat
  /-- Front = most recent. -/
  entries : List CacheNode := []
  index : AList (fun _ : Bytes => Nat) := ∅
  /-- The next node's number. -/
  nextNode : Nat := 0
  hitCount : Nat := 0
  missCount : Nat := 0

namespace LRUCache

/-- The constructor: a capacity of 0 counts as 1. -/
def new (capacity : Nat) : LRUCache where
  capacity := if capacity = 0 then 1 else capacity

/-- Reads through an iterator. -/
def deref (cache : LRUCache) (iterator : Nat) : Option CacheNode :=
  cache.entries.find? (·.id = iterator)

/-- `entries.splice(entries.begin(), entries, iterator)`. -/
def splice (entries : List CacheNode) (iterator : Nat) : List CacheNode :=
  entries.filter (·.id = iterator) ++ entries.filter (·.id ≠ iterator)

/-- The value found, if any. An iterator in the index always leads to a node
(`Valid.deref` in the laws), so the last branch is not taken. -/
def get (cache : LRUCache) (key : Bytes) : Option Bytes × LRUCache :=
  match cache.index.lookup key with
  | none => (none, { cache with missCount := cache.missCount + 1 })
  | some iterator =>
    match cache.deref iterator with
    | some node =>
      (some node.value, { cache with
        entries := splice cache.entries iterator
        hitCount := cache.hitCount + 1 })
    | none => (none, cache)

/-- Drops the back of the list when the index has outgrown the capacity. -/
def evict (cache : LRUCache) : LRUCache :=
  if cache.capacity < cache.index.keys.length then
    match cache.entries.getLast? with
    | some back => { cache with
        index := cache.index.erase back.key
        entries := cache.entries.dropLast }
    | none => cache
  else cache

def put (cache : LRUCache) (key value : Bytes) : LRUCache :=
  match cache.index.lookup key with
  | some iterator =>
    { cache with
      entries := splice (cache.entries.map fun node =>
        if node.id = iterator then { node with value := value } else node) iterator }
  | none =>
    evict { cache with
      entries := { id := cache.nextNode, key := key, value := value } :: cache.entries
      index := cache.index.insert key cache.nextNode
      nextNode := cache.nextNode + 1 }

def hits (cache : LRUCache) : Nat := cache.hitCount

def misses (cache : LRUCache) : Nat := cache.missCount

end LRUCache

/-- A call of the cache's interface. -/
inductive LruCall where
  | get (key : Bytes)
  | put (key value : Bytes)

/-- The cache from its construction on, under any sequence of calls. -/
def lruMachine (capacity : Nat) : Machine LRUCache LruCall where
  start := LRUCache.new capacity
  step cache call :=
    match call with
    | .get key => some (cache.get key).2
    | .put key value => some (cache.put key value)

end WebServer
