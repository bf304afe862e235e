import WebServer.Laws.Http.Router
import WebServer.Laws.Static.Containment
import WebServer.Server.Main

/-!
# Where `main()` sends a request

`Destination.of` tells a request's route from its path and its method, and that is what a
router with the routes of `main()` does, whatever they lead to (`route_routesOf`). The two
such routers of this development, the one that takes a request as a whole and the one that
stops in front of every mutex, therefore send it the same way, and the sections of a call
that nobody gets in the way of make up the whole (`Desk.alone_eq_route`).
-/

namespace WebServer

open Base

/-! ## Routes -/

/-- What a request is for. -/
inductive Destination where
  | file
  | healthz
  | stats
  | getKv
  | postKv
  | deleteKv
  /-- The path is known, and not under this method. -/
  | refused
  deriving DecidableEq

/-- A path that only the fallback serves. -/
def Services.Unrouted (path : Bytes) : Prop :=
  path ≠ ascii "/healthz" ∧ path ≠ ascii "/api/stats" ∧ path ≠ ascii "/api/kv"

namespace Destination

def of (request : HttpRequest) : Destination :=
  if request.path = ascii "/healthz" then
    if Router.lookedUp request.method = ascii "GET" then healthz else refused
  else if request.path = ascii "/api/stats" then
    if Router.lookedUp request.method = ascii "GET" then stats else refused
  else if request.path = ascii "/api/kv" then
    if Router.lookedUp request.method = ascii "GET" then getKv
    else if Router.lookedUp request.method = ascii "POST" then postKv
    else if Router.lookedUp request.method = ascii "DELETE" then deleteKv
    else refused
  else file

/-- What the path and the method of a request with this destination are. -/
inductive Suits (path method : Bytes) : Destination → Prop where
  | healthz : path = ascii "/healthz" → method = ascii "GET" → Suits path method .healthz
  | stats : path = ascii "/api/stats" → method = ascii "GET" → Suits path method .stats
  | getKv : path = ascii "/api/kv" → method = ascii "GET" → Suits path method .getKv
  | postKv : path = ascii "/api/kv" → method = ascii "POST" → Suits path method .postKv
  | deleteKv : path = ascii "/api/kv" → method = ascii "DELETE" → Suits path method .deleteKv
  | refused : ¬ Services.Unrouted path → method ≠ ascii "GET" →
      (path = ascii "/api/kv" → method ≠ ascii "POST" ∧ method ≠ ascii "DELETE") →
      Suits path method .refused
  | file : Services.Unrouted path → Suits path method .file

theorem suits (request : HttpRequest) :
    Suits request.path (Router.lookedUp request.method) (of request) := by
  have apart : ascii "/healthz" ≠ ascii "/api/kv" ∧ ascii "/api/stats" ≠ ascii "/api/kv" := by
    decide
  unfold of
  split
  next path =>
    split
    next method => exact .healthz path method
    next method =>
      exact .refused (fun other => other.1 path) method fun kv =>
        absurd (path.symm.trans kv) apart.1
  next noHealthz =>
    split
    next path =>
      split
      next method => exact .stats path method
      next method =>
        exact .refused (fun other => other.2.1 path) method fun kv =>
          absurd (path.symm.trans kv) apart.2
    next noStats =>
      split
      next path =>
        split
        next method => exact .getKv path method
        next noGet =>
          split
          next method => exact .postKv path method
          next noPost =>
            split
            next method => exact .deleteKv path method
            next noDelete =>
              exact .refused (fun other => other.2.2 path) noGet fun _ => ⟨noPost, noDelete⟩
      next noKv => exact .file ⟨noHealthz, noStats, noKv⟩

theorem of_unrouted {request : HttpRequest} (unrouted : Services.Unrouted request.path) :
    of request = file := by
  rw [of, if_neg unrouted.1, if_neg unrouted.2.1, if_neg unrouted.2.2]

end Destination

/-- The 405 of `main()`, with the methods that the path exists under. -/
def refusal (path : Bytes) : HttpResponse :=
  { HttpResponse.error 405 with
    extraHeaders := [(ascii "Allow",
      if path = ascii "/api/kv" then ascii "DELETE, GET, HEAD, POST" else ascii "GET, HEAD")] }

section Routes

variable {ρ : Type u}

/-- The routes of `main()`, whatever they lead to. -/
def Router.routesOf (file healthz stats getKv postKv deleteKv : Handler ρ) : Router ρ :=
  (((((Router.setFallback {} file).add
    (ascii "GET") (ascii "/healthz") healthz).add
    (ascii "GET") (ascii "/api/stats") stats).add
    (ascii "GET") (ascii "/api/kv") getKv).add
    (ascii "POST") (ascii "/api/kv") postKv).add
    (ascii "DELETE") (ascii "/api/kv") deleteKv

variable (file healthz stats getKv postKv deleteKv : Handler ρ)

/-- The routes, looked up one after the other. -/
theorem getElem?_routesOf (key : Bytes × Bytes) :
    (Router.routesOf file healthz stats getKv postKv deleteKv).routes[key]? =
      if (ascii "DELETE", ascii "/api/kv") = key then some deleteKv
      else if (ascii "POST", ascii "/api/kv") = key then some postKv
      else if (ascii "GET", ascii "/api/kv") = key then some getKv
      else if (ascii "GET", ascii "/api/stats") = key then some stats
      else if (ascii "GET", ascii "/healthz") = key then some healthz
      else none := by
  have added : ∀ (r : Router ρ) method path handler,
      (r.add method path handler).routes[key]? =
        if (method, path) = key then some handler else r.routes[key]? := by
    intro r method path handler
    split
    next h => rw [← h, Router.getElem?_add_self]
    next h => exact Router.getElem?_add_of_ne r handler h
  rw [Router.routesOf, added, added, added, added, added]
  rfl

/-- The paths that exist under some method are not the fallback's. -/
theorem known_routesOf (path : Bytes) :
    path ∈ (Router.routesOf file healthz stats getKv postKv deleteKv).knownPaths ↔
      ¬ Services.Unrouted path := by
  have added : ∀ (r : Router ρ) method new handler,
      path ∈ (r.add method new handler).knownPaths ↔ new = path ∨ path ∈ r.knownPaths := by
    intro r method new handler
    rw [Router.add, Std.ExtTreeSet.mem_insert, Std.LawfulEqCmp.compare_eq_iff_eq]
  have none_ : path ∉ (Router.setFallback {} file).knownPaths := Std.ExtTreeSet.not_mem_empty
  rw [Router.routesOf, added, added, added, added, added, Services.Unrouted]
  simp only [none_, or_false, eq_comm (a := path), ne_eq]
  tauto

/-- The list for a known path. -/
theorem methodNotAllowed_routesOf {path : Bytes} (known : ¬ Services.Unrouted path) :
    (Router.routesOf file healthz stats getKv postKv deleteKv).methodNotAllowed path =
      refusal path := by
  have one : path = ascii "/healthz" ∨ path = ascii "/api/stats" ∨ path = ascii "/api/kv" := by
    unfold Services.Unrouted at known
    tauto
  obtain rfl | rfl | rfl := one <;> rfl

/-- A request goes to its destination. -/
theorem route_routesOf (server : ρ) (request : HttpRequest) :
    (Router.routesOf file healthz stats getKv postKv deleteKv).route server request =
      match Destination.of request with
      | .file => file server request
      | .healthz => healthz server request
      | .stats => stats server request
      | .getKv => getKv server request
      | .postKv => postKv server request
      | .deleteKv => deleteKv server request
      | .refused => (refusal request.path, server) := by
  have routes := getElem?_routesOf file healthz stats getKv postKv deleteKv
    (Router.lookedUp request.method, request.path)
  have suits := Destination.suits request
  unfold Router.route
  generalize Destination.of request = destination at suits
  cases suits with
  | healthz path method =>
    rw [path, method, if_neg (by decide), if_neg (by decide), if_neg (by decide),
      if_neg (by decide), if_pos rfl] at routes
    rw [path, method, routes]
  | stats path method =>
    rw [path, method, if_neg (by decide), if_neg (by decide), if_neg (by decide), if_pos rfl]
      at routes
    rw [path, method, routes]
  | getKv path method =>
    rw [path, method, if_neg (by decide), if_neg (by decide), if_pos rfl] at routes
    rw [path, method, routes]
  | postKv path method =>
    rw [path, method, if_neg (by decide), if_pos rfl] at routes
    rw [path, method, routes]
  | deleteKv path method =>
    rw [path, method, if_pos rfl] at routes
    rw [path, method, routes]
  | refused known noGet others =>
    -- the path is known, and none of its routes is for this method
    rw [if_neg, if_neg, if_neg, if_neg, if_neg] at routes
    · rw [routes, methodNotAllowed_routesOf _ _ _ _ _ _ known]
      exact if_pos ((known_routesOf ..).mpr known)
    · exact fun same => noGet (Prod.mk.inj same).1.symm
    · exact fun same => noGet (Prod.mk.inj same).1.symm
    · exact fun same => noGet (Prod.mk.inj same).1.symm
    · exact fun same => (others (Prod.mk.inj same).2.symm).1 (Prod.mk.inj same).1.symm
    · exact fun same => (others (Prod.mk.inj same).2.symm).2 (Prod.mk.inj same).1.symm
  | file unrouted =>
    rw [if_neg, if_neg, if_neg, if_neg, if_neg] at routes
    · rw [routes]
      exact if_neg fun known => (known_routesOf ..).mp known unrouted
    · exact fun same => unrouted.1 (Prod.mk.inj same).2.symm
    · exact fun same => unrouted.2.1 (Prod.mk.inj same).2.symm
    · exact fun same => unrouted.2.2 (Prod.mk.inj same).2.symm
    · exact fun same => unrouted.2.2 (Prod.mk.inj same).2.symm
    · exact fun same => unrouted.2.2 (Prod.mk.inj same).2.symm

end Routes

/-! ## A request taken as a whole, and its sections -/

section Whole

variable {μ : Type} {root : FileTree} {toJson : μ → Nat → Nat → Bytes} {staticRoot : Bytes}

theorem Services.route_eq (services : Services μ) (request : HttpRequest) :
    (Services.router root toJson).route services request =
      match Destination.of request with
      | .file => serveFile root services request
      | .healthz => healthz services request
      | .stats => stats toJson services request
      | .getKv => getKv services request
      | .postKv => postKv services request
      | .deleteKv => deleteKv services request
      | .refused => (refusal request.path, services) :=
  route_routesOf ..

theorem Errand.ofRequest_eq (request : HttpRequest) :
    Errand.ofRequest root staticRoot request =
      match Destination.of request with
      | .file => serveFile root staticRoot request
      | .healthz => healthz request
      | .stats => .stats none none
      | .getKv => getKv request
      | .postKv => postKv request
      | .deleteKv => deleteKv request
      | .refused => .answered (refusal request.path) := by
  have route : (Errand.router root staticRoot).route none request = _ := route_routesOf ..
  rw [Errand.ofRequest, route]
  cases Destination.of request <;> rfl

/-- The destinations that lead to the store. -/
theorem Services.kvOp_eq (request : HttpRequest) :
    Services.kvOp request =
      match Destination.of request with
      | .getKv => some (if request.queryParam (ascii "key") = [] then .list
          else .get (request.queryParam (ascii "key")))
      | .postKv => some (.put request)
      | .deleteKv => some (.remove (request.queryParam (ascii "key")))
      | _ => none := by
  have suits := Destination.suits request
  -- the method that is looked up is the request's, except for HEAD
  have own : Router.lookedUp request.method ≠ ascii "GET" →
      Router.lookedUp request.method = request.method := by
    intro noGet
    unfold Router.lookedUp at noGet ⊢
    split
    next head => exact absurd (if_pos head) noGet
    next => rfl
  unfold Services.kvOp
  generalize Destination.of request = destination at suits
  cases suits with
  | healthz path _ | stats path _ => rw [path, if_neg (by decide)]
  | file unrouted => rw [if_neg unrouted.2.2]
  | getKv path method =>
    rw [if_pos path, if_pos method]
  | postKv path method =>
    have post : request.method = ascii "POST" := by
      rw [← own (by rw [method]; decide), method]
    rw [if_pos path, if_neg (by rw [method]; decide), if_pos post]
  | deleteKv path method =>
    have delete : request.method = ascii "DELETE" := by
      rw [← own (by rw [method]; decide), method]
    rw [if_pos path, if_neg (by rw [method]; decide), if_neg (by rw [delete]; decide),
      if_pos delete]
  | refused known noGet others =>
    by_cases path : request.path = ascii "/api/kv"
    · obtain ⟨noPost, noDelete⟩ := others path
      rw [own noGet] at noPost noDelete
      rw [if_pos path, if_neg noGet, if_neg noPost, if_neg noDelete]
    · rw [if_neg path]

/-- A call of the store whose sections nobody gets in between is the call. -/
theorem Desk.alone_call (desk : Desk) (found : Found μ) (op : KvStore.Op) :
    (Desk.shared root toJson staticRoot).alone found 3 desk (Errand.call op) =
      (some (desk.kvStore.call op).1, { desk with kvStore := (desk.kvStore.call op).2 }) := by
  cases hvalid : KvStore.validate op with
  | inl answer =>
    rw [Errand.call, hvalid, KvStore.call_of_answer hvalid]
    rfl
  | inr task =>
    rw [Errand.call, hvalid, KvStore.call_of_task hvalid]
    rfl

/-- So it is with the lookup, the read and the insert of a file. -/
theorem Desk.alone_file {desk : Desk} (at_ : desk.staticFiles.staticRoot = staticRoot)
    (found : Found μ) (request : HttpRequest) :
    (Desk.shared root toJson staticRoot).alone found 3 desk
        (Errand.serveFile root staticRoot request) =
      (some (desk.staticFiles.call root request).1,
        { desk with staticFiles := (desk.staticFiles.call root request).2 }) := by
  subst at_
  rw [Errand.serveFile, StaticFileHandler.call]
  cases StaticFileHandler.resolve root desk.staticFiles.staticRoot request.path with
  | none => rfl
  | some filePath =>
    rcases hget : desk.staticFiles.fileManager.cache.get filePath with ⟨_ | content, after⟩
    · cases hread : readRegular root filePath with
      | none =>
        simp only [FileManager.readFile, hget, hread, Sectioned.alone, shared, take, cache,
          Errand.response?, setCache]
      | some content =>
        simp only [FileManager.readFile, hget, hread, Sectioned.alone, shared, take, cache,
          Errand.response?, setCache, servedFile]
    · simp only [FileManager.readFile, hget, Sectioned.alone, shared, take, cache,
        Errand.response?, setCache, servedFile]

/-- The sections of a call with nobody in between are the request taken as a whole. -/
theorem Desk.alone_eq_route {desk : Desk} (at_ : desk.staticFiles.staticRoot = staticRoot)
    (found : Found μ) (request : HttpRequest) :
    let alone := (Desk.shared root toJson staticRoot).alone found 3 desk
      (Errand.ofRequest root staticRoot request)
    let whole := (Services.router root toJson).route (desk.services found.metrics) request
    alone.1 = some whole.1 ∧ alone.2.services found.metrics = whole.2 := by
  dsimp only
  rw [Errand.ofRequest_eq, Services.route_eq]
  cases Destination.of request with
  | file =>
    dsimp only
    rw [Desk.alone_file at_]
    exact ⟨rfl, rfl⟩
  | healthz => exact ⟨rfl, rfl⟩
  | stats =>
    obtain ⟨metrics, hitsFirst⟩ := found
    cases hitsFirst <;> exact ⟨rfl, rfl⟩
  | getKv =>
    dsimp only
    rw [Errand.getKv, Desk.alone_call, Services.getKv]
    split <;> exact ⟨rfl, rfl⟩
  | postKv =>
    dsimp only
    rw [Errand.postKv, Desk.alone_call]
    exact ⟨rfl, rfl⟩
  | deleteKv =>
    dsimp only
    rw [Errand.deleteKv, Desk.alone_call]
    exact ⟨rfl, rfl⟩
  | refused => exact ⟨rfl, rfl⟩

end Whole

end WebServer
