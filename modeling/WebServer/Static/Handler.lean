import WebServer.Base.FileSystem
import WebServer.Http.Request
import WebServer.Http.Response
import WebServer.Static.LruCache

/-!
# Static files

`FileManager` reads a file through the cache, `StaticFileHandler` turns a
request path into a file path below its root and serves the file. The file
system is a parameter: nothing here writes to it.
-/

namespace WebServer

open Base

structure FileManager where
  cache : LRUCache

namespace FileManager

/-- The constructor: the `int` becomes a `size_t`. -/
def new (cacheCapacity : Int) : FileManager where
  cache := .new (cacheCapacity % 18446744073709551616).toNat

/-- `readFile`: the content when `found` is set, and the manager afterwards. -/
def readFile (root : FileTree) (manager : FileManager) (filePath : Bytes) :
    Option Bytes × FileManager :=
  match manager.cache.get filePath with
  | (some cachedContent, cache) => (some cachedContent, { manager with cache := cache })
  | (none, cache) =>
    match readRegular root filePath with
    | none => (none, { manager with cache := cache })
    | some content => (some content, { manager with cache := cache.put filePath content })

end FileManager

def kMimeTypes : List (Bytes × Bytes) :=
  [("html", "text/html"), ("css", "text/css"), ("js", "text/javascript"),
    ("json", "application/json"), ("png", "image/png"), ("jpg", "image/jpeg"),
    ("jpeg", "image/jpeg"), ("gif", "image/gif"), ("svg", "image/svg+xml"),
    ("ico", "image/x-icon"), ("txt", "text/plain")].map fun (extension, type) =>
      (ascii extension, ascii type)

/-- `mimeType`: by what follows the last dot of the whole path. -/
def mimeType (filePath : Bytes) : Bytes :=
  if 46 ∈ filePath then
    (kMimeTypes.lookup (filePath.reverse.takeWhile (· ≠ 46)).reverse).getD
      (ascii "application/octet-stream")
  else ascii "application/octet-stream"

structure StaticFileHandler where
  staticRoot : Bytes
  fileManager : FileManager

namespace StaticFileHandler

/-- The constructor: the root is made canonical if it exists. -/
def new (root : FileTree) (staticRoot : Bytes) (cacheCapacity : Int) : StaticFileHandler where
  staticRoot :=
    match realpath root staticRoot with
    | .found canonical => pathText canonical
    | _ => staticRoot
  fileManager := .new cacheCapacity

/-- The path that `resolve` makes canonical: a directory's path, with the slash
at its end, means its index. -/
def candidate (staticRoot path : Bytes) : Bytes :=
  let relative := if path.getLast? = some 47 then path ++ ascii "index.html" else path
  joinPath staticRoot relative.tail

/-- `resolve`: the file's path, or `none` where `escaped` is set. -/
def resolve (root : FileTree) (staticRoot path : Bytes) : Option Bytes :=
  if path.head? ≠ some 47 then none
  else
    match weaklyCanonical root (candidate staticRoot path) with
    | none => none
    | some candidate =>
      let resolved := candidate.text
      if staticRoot.isPrefixOf resolved then some resolved else none

/-- `operator()`. -/
def call (root : FileTree) (handler : StaticFileHandler) (request : HttpRequest) :
    HttpResponse × StaticFileHandler :=
  match resolve root handler.staticRoot request.path with
  | none => (.error 403, handler)
  | some filePath =>
    match handler.fileManager.readFile root filePath with
    | (none, manager) => (.error 404, { handler with fileManager := manager })
    | (some content, manager) =>
      ({ contentType := mimeType filePath, body := content },
        { handler with fileManager := manager })

/-- The handler after a sequence of requests. -/
def serve (root : FileTree) (handler : StaticFileHandler) (requests : List HttpRequest) :
    StaticFileHandler :=
  requests.foldl (fun handler request => (handler.call root request).2) handler

end StaticFileHandler

end WebServer
