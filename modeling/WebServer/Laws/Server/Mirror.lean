import WebServer.Http.Router
import WebServer.Server.Handler
import WebServer.Server.Routes

/-!
# HEAD mirrors GET

HEAD is not a method of its own: the router looks GET up for it, the Allow header
and the fallback go by the path, and `appendResponse` leaves the body out. So long
as no handler looks at the method, a HEAD request is answered with the bytes of the
GET request up to the body (`head_mirrors_get`). The handlers of `main()` do not
look at it (`Services.router_ignoresMethod`).
-/

namespace WebServer

open Base

variable {ρ : Type u}

/-- The handler's answer does not depend on the request's method. -/
def IgnoresMethod (handler : Handler ρ) : Prop :=
  ∀ server request method, (handler server { request with method }).1 = (handler server request).1

/-- No handler that the router leads to looks at the method. -/
structure Router.IgnoresMethod (router : Router ρ) : Prop where
  routes : ∀ (key : Bytes × Bytes) (handler : Handler ρ), router.routes[key]? = some handler →
    WebServer.IgnoresMethod handler
  fallback : ∀ handler, router.fallback = some handler → WebServer.IgnoresMethod handler

/-- The request, made with this method. -/
def HttpRequest.by (request : HttpRequest) (method : String) : HttpRequest :=
  { request with method := ascii method }

/-- What the loop does with a request: it is routed, and the answer is appended. -/
def Session.answer (router : Router ρ) (s : Session ρ) (request : HttpRequest) : Session ρ :=
  s.appendResponse request (router.route s.server request).1

/-- HEAD gets the answer of GET. -/
theorem Router.route_head {router : Router ρ} (ignores : router.IgnoresMethod) (server : ρ)
    (request : HttpRequest) :
    (router.route server (request.by "HEAD")).1 = (router.route server (request.by "GET")).1 := by
  have same : ∀ handler : Handler ρ, WebServer.IgnoresMethod handler →
      (handler server (request.by "HEAD")).1 = (handler server (request.by "GET")).1 := by
    intro handler h
    exact (h server request _).trans (h server request _).symm
  have head : lookedUp (ascii "HEAD") = ascii "GET" := by decide
  have get : lookedUp (ascii "GET") = ascii "GET" := by decide
  unfold route HttpRequest.by
  dsimp only
  rw [head, get]
  cases hroute : router.routes[(ascii "GET", request.path)]? with
  | some handler => exact same handler (ignores.routes _ handler hroute)
  | none =>
    dsimp only
    split
    · rfl
    · cases hfallback : router.fallback with
      | none => rfl
      | some fallback => exact same fallback (ignores.fallback fallback hfallback)

/-- Without the body there is everything else. -/
theorem HttpResponse.serialize_body (response : HttpResponse) :
    response.serialize false = response.serialize true ++ response.body := by
  unfold serialize
  simp only [Bool.false_eq_true, if_false, if_true, List.append_nil]

/-- What a connection has for a HEAD request beside what it has for the GET request. -/
structure Mirrored (router : Router ρ) (s : Session ρ) (request : HttpRequest) : Prop where
  /-- The bytes for GET are the bytes for HEAD and the body, behind what was there. -/
  bytes : ∃ front,
    (s.answer router (request.by "HEAD")).connection.writeBuffer =
      s.connection.writeBuffer ++ front ∧
    (s.answer router (request.by "GET")).connection.writeBuffer =
      s.connection.writeBuffer ++ (front ++ (router.route s.server (request.by "GET")).1.body)
  close : (s.answer router (request.by "HEAD")).connection.closeAfterWrite =
    (s.answer router (request.by "GET")).connection.closeAfterWrite

theorem head_mirrors_get (router : Router ρ) (ignores : router.IgnoresMethod) (s : Session ρ)
    (request : HttpRequest) : Mirrored router s request := by
  have response := Router.route_head ignores s.server request
  constructor
  · refine ⟨({ (router.route s.server (request.by "GET")).1 with
      keepAlive := (router.route s.server (request.by "GET")).1.keepAlive &&
        request.keepAlive } : HttpResponse).serialize true, ?_, ?_⟩
    · unfold Session.answer
      rw [response]
      rfl
    · rw [← HttpResponse.serialize_body]
      rfl
  · unfold Session.answer
    rw [response]
    rfl

/-! ## The routes of `main()` -/

theorem Router.IgnoresMethod.empty : ({} : Router ρ).IgnoresMethod where
  routes key handler h := by
    rw [Std.ExtTreeMap.getElem?_empty] at h
    cases h
  fallback handler h := by cases h

theorem Router.IgnoresMethod.add {router : Router ρ} (h : router.IgnoresMethod)
    {handler : Handler ρ} (ignores : WebServer.IgnoresMethod handler) (method path : Bytes) :
    (router.add method path handler).IgnoresMethod where
  routes key found hfound := by
    unfold Router.add at hfound
    rw [Std.ExtTreeMap.getElem?_insert] at hfound
    split at hfound
    · cases hfound
      exact ignores
    · exact h.routes key found hfound
  fallback := h.fallback

theorem Router.IgnoresMethod.setFallback {router : Router ρ} (h : router.IgnoresMethod)
    {handler : Handler ρ} (ignores : WebServer.IgnoresMethod handler) :
    (router.setFallback handler).IgnoresMethod where
  routes := h.routes
  fallback found hfound := by
    cases hfound
    exact ignores

namespace Services

variable {μ : Type} (root : FileTree) (toJson : μ → Nat → Nat → Bytes)

theorem router_ignoresMethod : (router root toJson).IgnoresMethod := by
  unfold router
  repeat
    refine Router.IgnoresMethod.add ?_ (fun _ _ _ => rfl) _ _
  exact Router.IgnoresMethod.setFallback .empty fun _ _ _ => rfl

end Services

/-- A server without files or entries. -/
def noFiles : Services Unit where
  metrics := ()
  staticFiles := .new (.directory true []) [] 0

/-- HEAD and GET of the list of entries, on a fresh connection. -/
theorem head_mirrors_get_list :
    Mirrored (Services.router (.directory true []) fun _ _ _ => []) { server := noFiles }
      { path := ascii "/api/kv" } :=
  head_mirrors_get _ (Services.router_ignoresMethod _ _) _ _

end WebServer
