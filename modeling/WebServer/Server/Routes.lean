import WebServer.Api.KvStore
import WebServer.Http.Query
import WebServer.Http.Router
import WebServer.Static.Handler

/-!
# The routes of `main()`

What `src/main.cpp` builds between reading its configuration and starting the
loop: the store, the static files, and the router that leads to them. The metrics
are a parameter, and so is what `Metrics::toJson` writes of them, which goes through
floating-point percentiles.
-/

namespace WebServer

open Base

/-- The objects the handlers refer to. -/
structure Services (μ : Type) where
  metrics : μ
  kvStore : KvStore := {}
  staticFiles : StaticFileHandler

namespace Services

variable {μ : Type}

/-- The fallback. -/
def serveFile (root : FileTree) : Handler (Services μ) := fun services request =>
  let (response, staticFiles) := services.staticFiles.call root request
  (response, { services with staticFiles })

def healthz : Handler (Services μ) := fun services _ =>
  (.json (ascii "\x7b\"status\":\"ok\"\x7d"), services)

/-- Live server metrics, with the hits and misses of the file cache. -/
def stats (toJson : μ → Nat → Nat → Bytes) : Handler (Services μ) := fun services _ =>
  let cache := services.staticFiles.fileManager.cache
  (.json (toJson services.metrics cache.hits cache.misses), services)

def getKv : Handler (Services μ) := fun services request =>
  let key := request.queryParam (ascii "key")
  (if key = [] then services.kvStore.list else services.kvStore.get key, services)

def postKv : Handler (Services μ) := fun services request =>
  let (response, kvStore) := services.kvStore.put request
  (response, { services with kvStore })

def deleteKv : Handler (Services μ) := fun services request =>
  let (response, kvStore) := services.kvStore.remove (request.queryParam (ascii "key"))
  (response, { services with kvStore })

def router (root : FileTree) (toJson : μ → Nat → Nat → Bytes) : Router (Services μ) :=
  (((((Router.setFallback {} (serveFile root)).add
    (ascii "GET") (ascii "/healthz") healthz).add
    (ascii "GET") (ascii "/api/stats") (stats toJson)).add
    (ascii "GET") (ascii "/api/kv") getKv).add
    (ascii "POST") (ascii "/api/kv") postKv).add
    (ascii "DELETE") (ascii "/api/kv") deleteKv

end Services

end WebServer
