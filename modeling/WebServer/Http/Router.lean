import Std.Data.ExtTreeMap
import Std.Data.ExtTreeSet
import WebServer.Base.Machine
import WebServer.Http.Request
import WebServer.Http.Response

/-!
# The router

`Router` of `include/router.h` and `src/router.cpp`. A handler is a function of the
server's state and the request, and it may change that state; the router itself is
not changed by a request.
-/

namespace WebServer

open Base

/-- `Handler`, for whom a request may change the server's state. -/
abbrev Handler (ρ : Type u) := ρ → HttpRequest → HttpResponse × ρ

/-- `operator<` of a pair of strings: by the method, then by the path. -/
def comparePairs : Bytes × Bytes → Bytes × Bytes → Ordering :=
  compareLex (compareOn Prod.fst) (compareOn Prod.snd)

instance : Std.TransCmp comparePairs :=
  inferInstanceAs (Std.TransCmp (compareLex (compareOn Prod.fst) (compareOn Prod.snd)))

instance : Std.LawfulEqCmp comparePairs where
  compare_self := (inferInstance : Std.ReflCmp comparePairs).compare_self
  eq_of_compare h := by
    obtain ⟨hfst, hsnd⟩ := compareLex_eq_eq.mp h
    exact Prod.ext (Std.LawfulEqCmp.eq_of_compare hfst) (Std.LawfulEqCmp.eq_of_compare hsnd)

structure Router (ρ : Type u) where
  /-- By (method, path). -/
  routes : Std.ExtTreeMap (Bytes × Bytes) (Handler ρ) comparePairs := ∅
  knownPaths : Std.ExtTreeSet Bytes compare := ∅
  fallback : Option (Handler ρ) := none

namespace Router

variable {ρ : Type u}

def add (router : Router ρ) (method path : Bytes) (handler : Handler ρ) : Router ρ :=
  { router with
    routes := router.routes.insert (method, path) handler
    knownPaths := router.knownPaths.insert path }

def setFallback (router : Router ρ) (handler : Handler ρ) : Router ρ :=
  { router with fallback := some handler }

/-- The method that is looked up: HEAD is served by the GET handler, and the caller
drops the body. -/
def lookedUp (method : Bytes) : Bytes := if method = ascii "HEAD" then ascii "GET" else method

/-- What the loop over the routes adds to the Allow header for one method. -/
def allowMore (allowed method : Bytes) : Bytes :=
  (if allowed = [] then allowed else allowed ++ ascii ", ") ++ method ++
    (if method = ascii "GET" then ascii ", HEAD" else [])

/-- The value of the Allow header: the loop passes over the routes in order. -/
def allowed (router : Router ρ) (path : Bytes) : Bytes :=
  router.routes.keys.foldl
    (fun allowed key => if key.2 = path then allowMore allowed key.1 else allowed) []

/-- The 405 of a path that exists under a different method. -/
def methodNotAllowed (router : Router ρ) (path : Bytes) : HttpResponse :=
  let response := HttpResponse.error 405
  { response with
    extraHeaders := response.extraHeaders ++ [(ascii "Allow", router.allowed path)] }

def route (router : Router ρ) (server : ρ) (request : HttpRequest) : HttpResponse × ρ :=
  match router.routes[(lookedUp request.method, request.path)]? with
  | some handler => handler server request
  | none =>
    if request.path ∈ router.knownPaths then (router.methodNotAllowed request.path, server)
    else
      match router.fallback with
      | some fallback => fallback server request
      | none => (.error 404, server)

end Router

/-- A call that sets the router up. -/
inductive RouterCall (ρ : Type u) where
  | add (method path : Bytes) (handler : Handler ρ)
  | setFallback (handler : Handler ρ)

/-- The router from its construction on, under any sequence of calls. -/
def routerMachine (ρ : Type u) : Machine (Router ρ) (RouterCall ρ) where
  start := {}
  step router call :=
    match call with
    | .add method path handler => some (router.add method path handler)
    | .setFallback handler => some (router.setFallback handler)

end WebServer
