import WebServer.Api.Sharing
import WebServer.Server.Crowd
import WebServer.Server.Routes

/-!
# The router of `main()` while it serves

What a request leads to has a mutex of its own: the store has one, and the file cache
has another, which a static file takes twice and `/api/stats` takes twice, once for each
number. Between two of these sections every other connection may have its own. A call
of the router is therefore split here where it takes a mutex and where it reads a file.
`Errand.router` are the routes of `main()` as far as each comes without one, and
`Desk.take` is the next section of what is left.

`/api/stats` also shows counters that every connection moves meanwhile, and the compiler
may read the two numbers of the cache in either order. So the counters and the order are
open here, and a section finds them (`Found`).
-/

namespace WebServer

open Base

/-- What a section finds that is not in the objects of `main()`. -/
structure Found (μ : Type) where
  metrics : μ
  /-- Of the two arguments in `/api/stats`, the hits are read first. -/
  hitsFirst : Bool := true

/-- The objects of `main()` that its handlers refer to. -/
structure Desk where
  kvStore : KvStore := {}
  staticFiles : StaticFileHandler

/-- What is left of a call of the router. -/
inductive Errand where
  /-- In front of the store's mutex. -/
  | store (task : KvStore.Task)
  /-- In front of the lookup in the file cache. -/
  | lookup (filePath : Bytes)
  /-- Behind a lookup that missed. -/
  | missed (filePath : Bytes)
  /-- Behind the read of the file, in front of the insert. -/
  | insert (filePath content : Bytes)
  /-- In `/api/stats`, which has read these numbers of the cache. -/
  | stats (hits misses : Option Nat)
  /-- The answer is there. -/
  | answered (response : HttpResponse)

namespace Errand

/-- A handler, as far as it comes without a mutex: it hands over what is left to do. -/
def handler (begins : HttpRequest → Errand) : Handler (Option Errand) :=
  fun _ request => ({}, some (begins request))

/-- A call of the store, up to its mutex. -/
def call (op : KvStore.Op) : Errand :=
  match KvStore.validate op with
  | .inl answer => .answered answer
  | .inr task => .store task

/-- The fallback. -/
def serveFile (root : FileTree) (staticRoot : Bytes) (request : HttpRequest) : Errand :=
  match StaticFileHandler.resolve root staticRoot request.path with
  | none => .answered (.error 403)
  | some filePath => .lookup filePath

def healthz (_ : HttpRequest) : Errand :=
  .answered (.json (ascii "\x7b\"status\":\"ok\"\x7d"))

def getKv (request : HttpRequest) : Errand :=
  let key := request.queryParam (ascii "key")
  call (if key = [] then .list else .get key)

def postKv (request : HttpRequest) : Errand := call (.put request)

def deleteKv (request : HttpRequest) : Errand :=
  call (.remove (request.queryParam (ascii "key")))

/-- The routes of `main()`. -/
def router (root : FileTree) (staticRoot : Bytes) : Router (Option Errand) :=
  (((((Router.setFallback {} (handler (serveFile root staticRoot))).add
    (ascii "GET") (ascii "/healthz") (handler healthz)).add
    (ascii "GET") (ascii "/api/stats") (handler fun _ => .stats none none)).add
    (ascii "GET") (ascii "/api/kv") (handler getKv)).add
    (ascii "POST") (ascii "/api/kv") (handler postKv)).add
    (ascii "DELETE") (ascii "/api/kv") (handler deleteKv)

/-- What `Router::route` comes to without a mutex. -/
def ofRequest (root : FileTree) (staticRoot : Bytes) (request : HttpRequest) : Errand :=
  match (router root staticRoot).route none request with
  | (_, some errand) => errand
  | (response, none) => .answered response

/-- The call returns. -/
def response? : Errand → Option HttpResponse
  | answered response => some response
  | _ => none

end Errand

/-- A file, as the handler sends it. -/
def servedFile (filePath content : Bytes) : HttpResponse where
  contentType := mimeType filePath
  body := content

namespace Desk

variable {μ : Type}

/-- As `main()` sets them up. -/
def start (root : FileTree) (staticRoot : Bytes) (cacheCapacity : Int) : Desk where
  staticFiles := .new root staticRoot cacheCapacity

/-- The file cache. -/
def cache (desk : Desk) : LRUCache := desk.staticFiles.fileManager.cache

def setCache (desk : Desk) (cache : LRUCache) : Desk :=
  { desk with staticFiles := { desk.staticFiles with fileManager := { cache } } }

/-- The next section of what is left of a call. -/
def take (root : FileTree) (toJson : μ → Nat → Nat → Bytes) (desk : Desk) :
    Errand × Found μ → Errand × Desk
  | (.store task, _) =>
    let (response, kvStore) := desk.kvStore.locked task
    (.answered response, { desk with kvStore })
  | (.lookup filePath, _) =>
    match desk.cache.get filePath with
    | (some cachedContent, cache) =>
      (.answered (servedFile filePath cachedContent), desk.setCache cache)
    | (none, cache) => (.missed filePath, desk.setCache cache)
  | (.missed filePath, _) =>
    match readRegular root filePath with
    | none => (.answered (.error 404), desk)
    | some content => (.insert filePath content, desk)
  | (.insert filePath content, _) =>
    (.answered (servedFile filePath content), desk.setCache (desk.cache.put filePath content))
  | (.stats (some hits) (some misses), found) =>
    (.answered (.json (toJson found.metrics hits misses)), desk)
  | (.stats (some hits) none, _) => (.stats (some hits) (some desk.cache.misses), desk)
  | (.stats none (some misses), _) => (.stats (some desk.cache.hits) (some misses), desk)
  | (.stats none none, found) =>
    (if found.hitsFirst then .stats (some desk.cache.hits) none
      else .stats none (some desk.cache.misses), desk)
  | (.answered response, _) => (.answered response, desk)

/-- The router of `main()`, whose static files are below this root. -/
def shared (root : FileTree) (toJson : μ → Nat → Nat → Bytes) (staticRoot : Bytes) :
    SharedRouter Desk Errand (Found μ) where
  enter := Errand.ofRequest root staticRoot
  take := take root toJson
  returned := Errand.response?

/-- The objects, with counters that stand still. -/
def services (desk : Desk) (metrics : μ) : Services μ where
  metrics
  kvStore := desk.kvStore
  staticFiles := desk.staticFiles

end Desk

/-- The router of `main()`, as it is set up. -/
def mainRouter {μ : Type} (root : FileTree) (toJson : μ → Nat → Nat → Bytes)
    (staticRoot : Bytes) (cacheCapacity : Int) : SharedRouter Desk Errand (Found μ) :=
  Desk.shared root toJson (StaticFileHandler.new root staticRoot cacheCapacity).staticRoot

/-- The connections of `main()`. -/
abbrev MainCrowd (μ : Type) := Crowd Desk Errand (Found μ)

namespace Services

/-- The call of the store that a request leads to, if it leads there. -/
def kvOp (request : HttpRequest) : Option KvStore.Op :=
  if request.path = ascii "/api/kv" then
    if Router.lookedUp request.method = ascii "GET" then
      let key := request.queryParam (ascii "key")
      some (if key = [] then .list else .get key)
    else if request.method = ascii "POST" then some (.put request)
    else if request.method = ascii "DELETE" then
      some (.remove (request.queryParam (ascii "key")))
    else none
  else none

end Services

end WebServer
