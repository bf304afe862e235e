import WebServer.Api.Text
import WebServer.Base.Machine
import WebServer.Http.Request
import WebServer.Http.Response

/-!
# The key/value store

`KvStore` of `src/api.cpp`. Each call holds the store's mutex while it looks at
or changes the entries, so a call is one step from one state of the entries to
the next; `kvMachine` is the store under any sequence of calls that change it.
-/

namespace WebServer

open Base

structure KvStore where
  entries : Table := ∅
  deriving DecidableEq

namespace KvStore

def maxEntries : Nat := 50
def maxKeyLength : Nat := 64
def maxValueLength : Nat := 256

/-- A key and its value as `list`, `get` and `put` write them. -/
def entryJson (key value : Bytes) : Bytes :=
  ascii "\x7b\"key\":\"" ++ jsonEscape key ++ ascii "\",\"value\":\"" ++ jsonEscape value ++ ascii "\"\x7d"

/-- The loop of `list`: a comma before every entry but the first. -/
def entriesJson (first : Bool) : List (Bytes × Bytes) → Bytes
  | [] => []
  | (key, value) :: rest =>
    (if first then [] else ascii ",") ++ entryJson key value ++ entriesJson false rest

def list (store : KvStore) : HttpResponse :=
  .json (ascii "\x7b\"count\":" ++ decimal store.entries.size ++ ascii ",\"entries\":[" ++
    entriesJson true store.entries.toList ++ ascii "]\x7d")

def get (store : KvStore) (key : Bytes) : HttpResponse :=
  if key = [] then .json (ascii "\x7b\"error\":\"missing key parameter\"\x7d") 400
  else
    match store.entries[key]? with
    | none => .json (ascii "\x7b\"error\":\"not found\"\x7d") 404
    | some value => .json (entryJson key value)

/-- The fields of a `put`: the body read as its content type says, or `none` if
that is JSON and malformed. -/
def readFields (request : HttpRequest) : Option Table :=
  if find (ascii "application/json") (request.header (ascii "content-type")) ≠ none then
    match parseFlatJson request.body with
    | (fields, true) => some fields
    | (_, false) => none
  else some (parseFormEncoded request.body)

def put (store : KvStore) (request : HttpRequest) : HttpResponse × KvStore :=
  match readFields request with
  | none => (.json (ascii "\x7b\"error\":\"malformed JSON body\"\x7d") 400, store)
  | some fields =>
    let key := fields[ascii "key"]?.getD []
    let value := fields[ascii "value"]?.getD []
    if key = [] then (.json (ascii "\x7b\"error\":\"key is required\"\x7d") 400, store)
    else if key.length > maxKeyLength ∨ value.length > maxValueLength then
      (.json (ascii "\x7b\"error\":\"key or value too long\"\x7d") 413, store)
    else
      let replacing := key ∈ store.entries
      if ¬ replacing ∧ store.entries.size ≥ maxEntries then
        (.json (ascii "\x7b\"error\":\"store is full\"\x7d") 507, store)
      else
        (.json (entryJson key value) (if replacing then 200 else 201),
          { entries := store.entries.insert key value })

def remove (store : KvStore) (key : Bytes) : HttpResponse × KvStore :=
  if key = [] then (.json (ascii "\x7b\"error\":\"missing key parameter\"\x7d") 400, store)
  else if key ∈ store.entries then
    (.json (ascii "\x7b\"deleted\":true\x7d"), { entries := store.entries.erase key })
  else (.json (ascii "\x7b\"error\":\"not found\"\x7d") 404, store)

end KvStore

/-- A call that may change the store. -/
inductive KvCall where
  | put (request : HttpRequest)
  | remove (key : Bytes)

/-- The store from its construction on. -/
def kvMachine : Machine KvStore KvCall where
  start := {}
  step store call :=
    match call with
    | .put request => some (store.put request).2
    | .remove key => some (store.remove key).2

end WebServer
