import WebServer.Api.KvStore
import WebServer.Base.History

/-!
# The store between threads

Each call of `KvStore` is a part in front of its `lock_guard`, which reads
nothing shared (`validate`), and a part under the mutex (`locked`); `call_eq`
says that the two make up the call. `kvThreads` is the store under any number of
threads: one step is what a thread does in front of the mutex or what it does
under it, and other threads may step in between. The history keeps every call
beside its answer, the newest first.
-/

namespace WebServer

open Base

namespace KvStore

/-- A call of the store's interface. -/
inductive Op where
  | list
  | get (key : Bytes)
  | put (request : HttpRequest)
  | remove (key : Bytes)

/-- What a call answers, and the store it leaves. -/
def call (store : KvStore) : Op → HttpResponse × KvStore
  | .list => (store.list, store)
  | .get key => (store.get key, store)
  | .put request => store.put request
  | .remove key => store.remove key

/-- What a call goes to the mutex with. -/
inductive Task where
  | list
  | get (key : Bytes)
  | put (key value : Bytes)
  | remove (key : Bytes)

/-- The part of a call in front of the mutex: an answer, or what is left to do. -/
def validate : Op → HttpResponse ⊕ Task
  | .list => .inr .list
  | .get key =>
    if key = [] then .inl (.json (ascii "\x7b\"error\":\"missing key parameter\"\x7d") 400)
    else .inr (.get key)
  | .put request =>
    match readFields request with
    | none => .inl (.json (ascii "\x7b\"error\":\"malformed JSON body\"\x7d") 400)
    | some fields =>
      let key := fields[ascii "key"]?.getD []
      let value := fields[ascii "value"]?.getD []
      if key = [] then .inl (.json (ascii "\x7b\"error\":\"key is required\"\x7d") 400)
      else if key.length > maxKeyLength ∨ value.length > maxValueLength then
        .inl (.json (ascii "\x7b\"error\":\"key or value too long\"\x7d") 413)
      else .inr (.put key value)
  | .remove key =>
    if key = [] then .inl (.json (ascii "\x7b\"error\":\"missing key parameter\"\x7d") 400)
    else .inr (.remove key)

/-- The part of a call under the mutex. -/
def locked (store : KvStore) : Task → HttpResponse × KvStore
  | .list => (store.list, store)
  | .get key =>
    match store.entries[key]? with
    | none => (.json (ascii "\x7b\"error\":\"not found\"\x7d") 404, store)
    | some value => (.json (entryJson key value), store)
  | .put key value =>
    let replacing := key ∈ store.entries
    if ¬ replacing ∧ store.entries.size ≥ maxEntries then
      (.json (ascii "\x7b\"error\":\"store is full\"\x7d") 507, store)
    else
      (.json (entryJson key value) (if replacing then 200 else 201),
        { entries := store.entries.insert key value })
  | .remove key =>
    if key ∈ store.entries then
      (.json (ascii "\x7b\"deleted\":true\x7d"), { entries := store.entries.erase key })
    else (.json (ascii "\x7b\"error\":\"not found\"\x7d") 404, store)

/-- A call is its part in front of the mutex, and what is left of it under it. -/
theorem call_eq (store : KvStore) (op : Op) :
    store.call op = (validate op).elim (fun answer => (answer, store)) store.locked := by
  cases op with
  | list => rfl
  | get key =>
    by_cases hkey : key = []
    · simp only [call, get, validate, if_pos hkey, Sum.elim_inl]
    · simp only [call, get, validate, if_neg hkey, Sum.elim_inr, locked]
      cases hv : store.entries[key]? with
      | none => rfl
      | some value => rfl
  | put request =>
    cases hfields : readFields request with
    | none => simp only [call, put, validate, hfields, Sum.elim_inl]
    | some fields =>
      simp only [call, put, validate, hfields]
      split
      · rw [Sum.elim_inl]
      · split
        · rw [Sum.elim_inl]
        · rw [Sum.elim_inr, locked]
  | remove key =>
    by_cases hkey : key = []
    · simp only [call, remove, validate, if_pos hkey, Sum.elim_inl]
    · simp only [call, remove, validate, if_neg hkey, Sum.elim_inr, locked]

theorem call_of_answer {op : Op} {answer : HttpResponse} (h : validate op = .inl answer)
    (store : KvStore) : store.call op = (answer, store) := by
  rw [call_eq, h, Sum.elim_inl]

theorem call_of_task {op : Op} {task : Task} (h : validate op = .inr task) (store : KvStore) :
    store.call op = store.locked task := by
  rw [call_eq, h, Sum.elim_inr]

/-- The answered calls, the newest first. -/
abbrev History := List (Op × HttpResponse)

end KvStore

open KvStore

/-- The store under calls that are each one step. -/
def kvCalls : Machine KvStore Op where
  start := {}
  step store op := some (store.call op).2

/-- What a call adds to the history. -/
def KvStore.answered (store : KvStore) (op : Op) (past : History) : History :=
  (op, (store.call op).1) :: past

/-- The store, and the threads that are in front of its mutex: the call of each
and what is left of it. -/
structure KvThreads where
  store : KvStore := {}
  waiting : Nat → Option (Op × Task) := fun _ => none

inductive KvEvent where
  /-- A thread makes a call, and comes to the mutex or answers without. -/
  | enter (thread : Nat) (op : Op)
  /-- A thread takes the mutex, does what is left of its call, and answers. -/
  | lock (thread : Nat)

/-- The store under the calls of any threads. -/
def kvThreads : Machine KvThreads KvEvent where
  start := {}
  step s event :=
    match event with
    | .enter thread op =>
      match s.waiting thread with
      | some _ => none
      | none =>
        match validate op with
        | .inl _ => some s
        | .inr task =>
          some { s with waiting := Function.update s.waiting thread (some (op, task)) }
    | .lock thread =>
      match s.waiting thread with
      | none => none
      | some (_, task) =>
        some { store := (s.store.locked task).2
               waiting := Function.update s.waiting thread none }

/-- What a step of a thread adds to the history. -/
def KvThreads.answered (s : KvThreads) (event : KvEvent) (past : History) : History :=
  match event with
  | .enter _ op =>
    match validate op with
    | .inl answer => (op, answer) :: past
    | .inr _ => past
  | .lock thread =>
    match s.waiting thread with
    | none => past
    | some (op, task) => (op, (s.store.locked task).1) :: past

end WebServer
