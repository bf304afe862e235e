import WebServer.Laws.Http.Client
import WebServer.Laws.Server.Calls
import WebServer.Server.Routes

/-!
# What a client reads

A response whose texts have no line ends in them is read back from the bytes of
`serialize`, and so is a stream of them, in whatever pieces it arrives
(`responses_decoded`). The responses of `main()` are such: their content types are
constants or come out of the table of `mimeType`, and the one field they add lists the
methods of routes (`Services.queued_clean`).
-/

namespace WebServer

open Base

variable {ρ : Type u}

/-! ## Responses that stay what they are on the wire -/

/-- A handler whose responses are clean. -/
def CleanHandler (handler : Handler ρ) : Prop :=
  ∀ server request, (handler server request).1.Clean

namespace HttpResponse

/-- A response without fields of its own is as clean as its content type. -/
theorem clean_of_contentType {response : HttpResponse} (htype : OneLine response.contentType)
    (hextra : response.extraHeaders = []) : response.Clean := by
  constructor
  · exact htype
  · rw [hextra]
    exact List.forall_mem_nil _
  · rw [hextra]
    exact List.forall_mem_nil _

theorem error_clean (status : Int) : (error status).Clean := by
  have htype : OneLine (ascii "text/html") := by decide
  exact clean_of_contentType htype rfl

theorem json_clean (payload : Bytes) (status : Int) : (json payload status).Clean := by
  have htype : OneLine (ascii "application/json") := by decide
  exact clean_of_contentType htype rfl

/-- What the connection is to do after a response is in no text of it. -/
theorem Clean.keepAlive {response : HttpResponse} (h : response.Clean) (keepAlive : Bool) :
    { response with keepAlive }.Clean where
  contentType := h.contentType
  names := h.names
  values := h.values

end HttpResponse

/-! ## The router -/

/-- The routes' methods are words, and every handler's responses are clean. -/
structure Router.Clean (router : Router ρ) : Prop where
  methods : ∀ key ∈ router.routes, OneLine key.1
  routes : ∀ (key : Bytes × Bytes) (handler : Handler ρ), router.routes[key]? = some handler →
    CleanHandler handler
  fallback : ∀ handler, router.fallback = some handler → CleanHandler handler

namespace Router

variable {router : Router ρ}

theorem Clean.empty : ({} : Router ρ).Clean where
  methods key h := absurd h Std.ExtTreeMap.not_mem_empty
  routes key handler h := by
    rw [Std.ExtTreeMap.getElem?_empty] at h
    cases h
  fallback handler h := by cases h

theorem Clean.setFallback (h : router.Clean) {handler : Handler ρ}
    (clean : CleanHandler handler) : (router.setFallback handler).Clean where
  methods := h.methods
  routes := h.routes
  fallback found hfound := by
    cases hfound
    exact clean

theorem Clean.add (h : router.Clean) {method path : Bytes} {handler : Handler ρ}
    (word : OneLine method) (clean : CleanHandler handler) :
    (router.add method path handler).Clean where
  methods key hkey := by
    rcases Std.ExtTreeMap.mem_insert.mp hkey with hsame | hother
    · rw [← Std.LawfulEqCmp.eq_of_compare hsame]
      exact word
    · exact h.methods key hother
  routes key found hfound := by
    unfold Router.add at hfound
    rw [Std.ExtTreeMap.getElem?_insert] at hfound
    split at hfound
    · cases hfound
      exact clean
    · exact h.routes key found hfound
  fallback := h.fallback

theorem allowMore_oneLine {allowed method : Bytes} (hallowed : OneLine allowed)
    (hmethod : OneLine method) : OneLine (allowMore allowed method) := by
  have hcomma : OneLine (ascii ", ") := by decide
  have hhead : OneLine (ascii ", HEAD") := by decide
  have hnone : OneLine [] := by decide
  unfold allowMore
  refine OneLine.append (OneLine.append ?_ hmethod) ?_
  · split
    · exact hallowed
    · exact hallowed.append hcomma
  · split
    · exact hhead
    · exact hnone

theorem Clean.allowed (h : router.Clean) (path : Bytes) : OneLine (router.allowed path) := by
  have hfold : ∀ (keys : List (Bytes × Bytes)) (allowed : Bytes), (∀ key ∈ keys, OneLine key.1) →
      OneLine allowed → OneLine (keys.foldl
        (fun allowed key => if key.2 = path then allowMore allowed key.1 else allowed)
          allowed) := by
    intro keys
    induction keys with
    | nil => exact fun _ _ hallowed => hallowed
    | cons key keys ih =>
      intro allowed hkeys hallowed
      apply ih
      · exact fun k hk => hkeys k (List.mem_cons_of_mem key hk)
      · show OneLine (if key.2 = path then allowMore allowed key.1 else allowed)
        split
        · exact allowMore_oneLine hallowed (hkeys key List.mem_cons_self)
        · exact hallowed
  apply hfold
  · exact fun key hkey => h.methods key (Std.ExtTreeMap.mem_keys.mp hkey)
  · decide

theorem Clean.methodNotAllowed (h : router.Clean) (path : Bytes) :
    (router.methodNotAllowed path).Clean := by
  have hname : OneLine (ascii "Allow") ∧ 58 ∉ ascii "Allow" ∧
      toLower (ascii "Allow") ≠ ascii "content-length" := by
    decide
  constructor
  · exact (HttpResponse.error_clean 405).contentType
  · intro field hin
    cases List.mem_singleton.mp hin
    exact hname
  · intro field hin
    cases List.mem_singleton.mp hin
    exact h.allowed path

/-- Whatever is asked, the answer of a clean router is clean. -/
theorem Clean.route (h : router.Clean) : CleanHandler router.route := by
  intro server request
  unfold Router.route
  cases hroute : router.routes[(lookedUp request.method, request.path)]? with
  | some handler => exact h.routes _ handler hroute server request
  | none =>
    dsimp only
    split
    · exact h.methodNotAllowed request.path
    · cases hfallback : router.fallback with
      | some fallback => exact h.fallback fallback hfallback server request
      | none => exact HttpResponse.error_clean 404

end Router

/-! ## The routes of `main()` -/

theorem mimeType_oneLine (filePath : Bytes) : OneLine (mimeType filePath) := by
  have hother : OneLine (ascii "application/octet-stream") := by decide
  have htable : ∀ entry ∈ kMimeTypes, OneLine entry.2 := by decide +kernel
  unfold mimeType
  split
  · cases hfound : kMimeTypes.lookup (filePath.reverse.takeWhile (· ≠ 46)).reverse with
    | none => exact hother
    | some type =>
      obtain ⟨front, back, hsplit, -⟩ := List.lookup_eq_some_iff.mp hfound
      have hentry : ((filePath.reverse.takeWhile (· ≠ 46)).reverse, type) ∈ kMimeTypes := by
        rw [hsplit]
        exact List.mem_append_right _ List.mem_cons_self
      exact htable _ hentry
  · exact hother

theorem StaticFileHandler.call_clean (root : FileTree) (handler : StaticFileHandler)
    (request : HttpRequest) : (handler.call root request).1.Clean := by
  unfold call
  split
  · exact HttpResponse.error_clean 403
  · split
    · exact HttpResponse.error_clean 404
    · exact HttpResponse.clean_of_contentType (mimeType_oneLine _) rfl

namespace KvStore

theorem get_clean (store : KvStore) (key : Bytes) : (store.get key).Clean := by
  unfold get
  split
  · exact HttpResponse.json_clean _ _
  · split <;> exact HttpResponse.json_clean _ _

theorem put_clean (store : KvStore) (request : HttpRequest) : (store.put request).1.Clean := by
  unfold put
  split
  · exact HttpResponse.json_clean _ _
  · dsimp only
    split
    · exact HttpResponse.json_clean _ _
    · split
      · exact HttpResponse.json_clean _ _
      · split <;> exact HttpResponse.json_clean _ _

theorem remove_clean (store : KvStore) (key : Bytes) : (store.remove key).1.Clean := by
  unfold remove
  split
  · exact HttpResponse.json_clean _ _
  · split <;> exact HttpResponse.json_clean _ _

end KvStore

namespace Services

variable {μ : Type} (root : FileTree) (toJson : μ → Nat → Nat → Bytes)

theorem getKv_clean : CleanHandler (getKv : Handler (Services μ)) := by
  intro services request
  show HttpResponse.Clean (if _ then _ else _)
  split
  · exact HttpResponse.json_clean _ _
  · exact services.kvStore.get_clean _

theorem router_clean : (router root toJson).Clean := by
  have hget : OneLine (ascii "GET") := by decide
  have hpost : OneLine (ascii "POST") := by decide
  have hdelete : OneLine (ascii "DELETE") := by decide
  unfold router
  refine Router.Clean.add ?_ hdelete fun services request => services.kvStore.remove_clean _
  refine Router.Clean.add ?_ hpost fun services request => services.kvStore.put_clean request
  refine Router.Clean.add ?_ hget getKv_clean
  refine Router.Clean.add ?_ hget fun services request => HttpResponse.json_clean _ _
  refine Router.Clean.add ?_ hget fun services request => HttpResponse.json_clean _ _
  exact Router.Clean.empty.setFallback fun services request =>
    services.staticFiles.call_clean root request

end Services

/-! ## Runs -/

section Runs

variable {routing : Routing ρ} {server : ρ} {s : Session ρ}

/-- What holds of every response of the router and of every refusal, and does not depend
on what the connection is to do next. -/
structure Pledge (routing : Routing ρ) (P : HttpResponse → Prop) : Prop where
  error : ∀ status, P (.error status)
  route : ∀ server request, P (routing.route server request).1
  keepAlive : ∀ {response : HttpResponse}, P response → ∀ keepAlive,
    P { response with keepAlive }

variable {P : HttpResponse → Prop}

theorem Pledge.appendResponse (pledge : Pledge routing P)
    (h : ∀ queued ∈ s.history.queued, P queued.response) {response : HttpResponse}
    (hresponse : P response) (request : HttpRequest) :
    ∀ queued ∈ (s.appendResponse request response).history.queued, P queued.response := by
  intro queued hin
  rcases List.mem_append.mp hin with hold | hnew
  · exact h queued hold
  · cases List.mem_singleton.mp hnew
    exact pledge.keepAlive hresponse _

theorem Pledge.answerAll (pledge : Pledge routing P)
    (h : ∀ queued ∈ s.history.queued, P queued.response) :
    ∀ queued ∈ (s.answerAll routing).history.queued, P queued.response := by
  fun_induction Session.answerAll routing s with
  | case1 s hnil => exact h
  | case2 s hne parser rest hparse => exact h
  | case3 s hne parser rest hparse =>
    exact pledge.appendResponse (s := s.record (.error parser.error) 0) h
      (pledge.error parser.error) _
  | case4 s hne parser rest hparse t hclose =>
    exact pledge.appendResponse (s := s.record _ _) h (pledge.route s.server parser.req) parser.req
  | case5 s hne parser rest hparse t hgoing ih =>
    apply ih
    exact pledge.appendResponse (s := s.record _ _) h (pledge.route s.server parser.req) parser.req

/-- In a connection's life nothing else is queued. -/
theorem Pledge.run (pledge : Pledge routing P) {phase : Option Action}
    (r : (connectionMachine routing server).Reachable (s, phase)) :
    ∀ queued ∈ s.history.queued, P queued.response := by
  refine r.invariant (I := fun state => ∀ queued ∈ state.1.history.queued, P queued.response) ?_ ?_
  · exact List.forall_mem_nil _
  · intro state wakeup state' h _ hs
    obtain ⟨s, phase⟩ := state
    obtain ⟨t, phase'⟩ := state'
    rcases connectionStep_cases hs with ⟨recvs, now, sends, rfl, rfl, hread⟩ |
      ⟨sends, rfl, rfl, hwrite⟩ | ⟨rfl, hphase, rfl, rfl⟩
    · rcases Session.onReadable_cases hread with ⟨rfl, hstop⟩ | ⟨eof, hflush⟩
      · exact h
      · have hanswered := pledge.answerAll (s := s.batch (Session.drain recvs).1 eof now) h
        rw [← Session.queued_flush hflush] at hanswered
        exact hanswered
    · rw [← Session.queued_flush hwrite] at h
      exact h
    · exact h

end Runs

/-- The responses of `main()` stay what they are on the wire. -/
theorem Services.queued_clean {μ : Type} (root : FileTree) (toJson : μ → Nat → Nat → Bytes)
    (micros : Services μ → HttpRequest → Nat) {services : Services μ} {s : Session (Services μ)}
    {phase : Option Action}
    (r : (connectionMachine ⟨(Services.router root toJson).route, micros⟩ services).Reachable
      (s, phase)) : ∀ queued ∈ s.history.queued, queued.response.Clean := by
  have pledge : Pledge ⟨(Services.router root toJson).route, micros⟩ HttpResponse.Clean := by
    constructor
    · exact HttpResponse.error_clean
    · exact (Services.router_clean root toJson).route
    · exact fun h keepAlive => h.keepAlive keepAlive
  exact pledge.run r

/-- What a client reads from a stream of clean responses, in whatever pieces it arrives,
are these responses, and nothing is left over; and the responses of `main()` are clean. A
client that takes off all blanks around a value, and not just the one that `serialize`
writes, reads the same where no value has any. -/
theorem responses_decoded :
    (∀ (exchanges : List (Bytes × HttpResponse)) (pieces : List Bytes),
      (∀ exchange ∈ exchanges, exchange.2.Clean) → pieces.flatten = Client.wireOf exchanges →
      (client Client.oneBlank).feed (exchanges.map Prod.fst) [] pieces =
        (exchanges.map fun exchange => exchange.2.answer exchange.1, .waiting [] [])) ∧
    (∀ (exchanges : List (Bytes × HttpResponse)) (pieces : List Bytes),
      (∀ exchange ∈ exchanges, exchange.2.Clean) → pieces.flatten = Client.wireOf exchanges →
      (∀ exchange ∈ exchanges, ∀ field ∈ exchange.2.fields, trim field.2 = field.2) →
      (client trim).feed (exchanges.map Prod.fst) [] pieces =
        (exchanges.map fun exchange => exchange.2.answer exchange.1, .waiting [] [])) ∧
    ∀ (μ : Type) (root : FileTree) (toJson : μ → Nat → Nat → Bytes)
      (micros : Services μ → HttpRequest → Nat) (services : Services μ)
      (s : Session (Services μ)) (phase : Option Action),
      (connectionMachine ⟨(Services.router root toJson).route, micros⟩ services).Reachable
        (s, phase) → ∀ queued ∈ s.history.queued, queued.response.Clean := by
  refine ⟨?_, ?_, ?_⟩
  · intro exchanges pieces clean whole
    exact Client.feed_wire clean (fun _ _ _ _ => rfl) whole
  · intro exchanges pieces clean whole trimmed
    exact Client.feed_wire_trim clean trimmed whole
  · intro μ root toJson micros services s phase r
    exact Services.queued_clean root toJson micros r

/-- A body that looks like a response, to a GET, behind the answer to a HEAD. -/
def lookalike : List (Bytes × HttpResponse) :=
  [(ascii "HEAD", .error 404),
    (ascii "GET", .text (ascii "HTTP/1.1 200 OK\r\nContent-Length: 0\r\n\r\n"))]

/-- It is read as a body, also when every byte comes alone, by either client. -/
theorem responses_decoded_lookalike :
    (client Client.oneBlank).feed (lookalike.map Prod.fst) []
        ((Client.wireOf lookalike).map fun c => [c]) =
      (lookalike.map fun exchange => exchange.2.answer exchange.1, .waiting [] []) ∧
    (client trim).feed (lookalike.map Prod.fst) []
        ((Client.wireOf lookalike).map fun c => [c]) =
      (lookalike.map fun exchange => exchange.2.answer exchange.1, .waiting [] []) := by
  have clean : ∀ exchange ∈ lookalike, exchange.2.Clean := by
    have htext : OneLine (ascii "text/plain") := by decide
    intro exchange hin
    rcases List.mem_cons.mp hin with rfl | hin
    · exact HttpResponse.error_clean 404
    · cases List.mem_singleton.mp hin
      exact HttpResponse.clean_of_contentType htext rfl
  have whole : ((Client.wireOf lookalike).map fun c => [c]).flatten = Client.wireOf lookalike :=
    List.flatMap_def.symm.trans (List.flatMap_singleton' _)
  exact ⟨responses_decoded.1 lookalike _ clean whole,
    responses_decoded.2.1 lookalike _ clean whole (by decide +kernel)⟩

end WebServer
