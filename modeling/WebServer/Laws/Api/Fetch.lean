import WebServer.Laws.Api.Form
import WebServer.Laws.Api.Listing
import WebServer.Laws.Http.Query
import WebServer.Laws.Http.RoundTrip
import WebServer.Laws.Http.Router
import WebServer.Server.Routes

/-!
# Every entry can be reached over HTTP

A key is any text of 1 to 64 octets, and a request names it in its query,
percent-encoded. However it is encoded, the request line holds no octet that the
parser, the split of the target or the query scanner would take for its own
(`octets`), the decoder gives the key back as it does in a form (`form`), and the routes
of `main()` lead to the store. So no entry can get stuck in it (`stored_fetchable`).
-/

namespace WebServer

open Base

/-! ## Percent-encoding -/

/-- The characters that stand for themselves in any part of a target. -/
def isUnreserved (c : UInt8) : Bool :=
  isdigit c || (65 ≤ c && c ≤ 90) || (97 ≤ c && c ≤ 122) || (ascii "-._~").contains c

/-- A text and a way to write it: each octet as itself, if it is unreserved, or as two
hexadecimal digits of either case behind a percent sign. -/
inductive PercentEncodes : Bytes → Bytes → Prop where
  | nil : PercentEncodes [] []
  | literal {c : UInt8} {text encoded : Bytes} :
      isUnreserved c = true → PercentEncodes text encoded →
      PercentEncodes (c :: text) (c :: encoded)
  | escape {c high low : UInt8} {text encoded : Bytes} :
      isxdigit high = true → isxdigit low = true →
      c.toNat = 16 * hexValue high + hexValue low → PercentEncodes text encoded →
      PercentEncodes (c :: text) (37 :: high :: low :: encoded)

namespace PercentEncodes

variable {text encoded : Bytes}

/-- It is a spelling in a form. -/
theorem form (h : PercentEncodes text encoded) : FormEncodes text encoded := by
  induction h with
  | nil => exact .nil
  | @literal c text encoded hc _ ih =>
    have ne_of_reserved : ∀ {special : UInt8}, isUnreserved special = false → c ≠ special := by
      rintro special hspecial rfl
      exact absurd (hspecial.symm.trans hc) Bool.false_ne_true
    exact .cons (.literal (ne_of_reserved (by decide)) (ne_of_reserved (by decide))
      (ne_of_reserved (by decide)) (ne_of_reserved (by decide))) ih
  | escape hhigh hlow hvalue _ ih => exact .cons (.escape hhigh hlow hvalue) ih

/-- What an encoded text is made of. -/
theorem octets (h : PercentEncodes text encoded) :
    ∀ c ∈ encoded, isUnreserved c = true ∨ c = 37 ∨ isxdigit c = true := by
  induction h with
  | nil => exact List.forall_mem_nil _
  | literal hc _ ih =>
    intro c hmem
    rcases List.mem_cons.mp hmem with rfl | hmem
    · exact .inl hc
    · exact ih c hmem
  | escape hhigh hlow _ _ ih =>
    intro c hmem
    simp only [List.mem_cons] at hmem
    rcases hmem with rfl | rfl | rfl | hmem
    · exact .inr (.inl rfl)
    · exact .inr (.inr hhigh)
    · exact .inr (.inr hlow)
    · exact ih c hmem

/-- No octet of an encoded text is a separator. -/
theorem not_mem (h : PercentEncodes text encoded) {c : UInt8}
    (hc : (isUnreserved c || c == 37 || isxdigit c) = false) : c ∉ encoded := by
  intro hmem
  simp only [Bool.or_eq_false_iff, beq_eq_false_iff_ne, ne_eq] at hc
  obtain ⟨⟨hliteral, hpercent⟩, hdigit⟩ := hc
  rcases h.octets c hmem with h | h | h
  · rw [hliteral] at h
    cases h
  · exact hpercent h
  · rw [hdigit] at h
    cases h

theorem length_le (h : PercentEncodes text encoded) : encoded.length ≤ 3 * text.length := by
  induction h with
  | nil => exact Nat.le_refl _
  | literal _ _ ih =>
    simp only [List.length_cons]
    omega
  | escape _ _ _ _ ih =>
    simp only [List.length_cons]
    omega

end PercentEncodes

/-- The query scanner finds an encoded text under its name. -/
theorem queryParam_encoded {text encoded : Bytes} (h : PercentEncodes text encoded) :
    urlDecode ((firstNamed (ascii "key=" ++ encoded) (ascii "key")).getD []) = text := by
  have hfree : find [38] (ascii "key=" ++ encoded) = none := by
    rw [find_single_eq_none, List.mem_append, not_or]
    exact ⟨by decide, h.not_mem (by decide)⟩
  have hcut : cutField (ascii "key=" ++ encoded) = some (ascii "key", encoded) :=
    cutField_append (show 61 ∉ ascii "key" by decide) encoded
  rw [firstNamed, formFields_last hfree, hcut]
  exact h.form.urlDecode_eq

/-! ## The request -/

/-- The bytes of a request that names an encoded key. -/
def kvWire (method : String) (encoded : Bytes) : Bytes :=
  ascii method ++ ascii " /api/kv?key=" ++ encoded ++ ascii " HTTP/1.1" ++ CRLF ++ CRLF

/-- A method is a word of a request line. -/
def IsWord (method : Bytes) : Prop :=
  method ≠ [] ∧ method.length ≤ 16 ∧ ∀ c ∈ method, c ≠ 32 ∧ c ≠ 13 ∧ c ≠ 10

/-- What a request without fields and body has to show besides its request line. -/
theorem bare_version : ascii "HTTP/1.1" = ascii "HTTP/1.1" ∨ ascii "HTTP/1.1" = ascii "HTTP/1.0" :=
  .inl rfl

theorem bare_transfer : valuesOf [] (ascii "transfer-encoding") = [] := rfl

theorem bare_announced : (valuesOf [] (ascii "content-length") = [] ∧ ([] : Bytes) = []) ∨
    ∃ digits, valuesOf [] (ascii "content-length") = [digits] ∧ digits ≠ [] ∧
      (∀ c ∈ digits, isdigit c = true) ∧ decimalValue digits = ([] : Bytes).length :=
  .inl ⟨rfl, rfl⟩

theorem bare_block : (renderFields []).length ≤ maxHeaderBlock := by decide

theorem bare_body : ([] : Bytes).length ≤ maxBody := Nat.zero_le _

theorem kvPath_word : ∀ c ∈ ascii "/api/kv?key=", c ≠ 32 ∧ c ≠ 13 ∧ c ≠ 10 := by
  decide +kernel

theorem kvTarget_word {text encoded : Bytes} (encodes : PercentEncodes text encoded) :
    ∀ c ∈ ascii "/api/kv?key=" ++ encoded, c ≠ 32 ∧ c ≠ 13 ∧ c ≠ 10 := by
  intro c hc
  rcases List.mem_append.mp hc with hc | hc
  · exact kvPath_word c hc
  · refine ⟨?_, ?_, ?_⟩ <;>
    · rintro rfl
      exact encodes.not_mem (by decide) hc

/-- A key that the store takes fits the request line, with every octet escaped. -/
theorem kvLine_short {method : Bytes} (word : IsWord method) {text encoded : Bytes}
    (encodes : PercentEncodes text encoded) (short : text.length ≤ KvStore.maxKeyLength) :
    (method ++ (ascii " " ++ (ascii "/api/kv?key=" ++ encoded ++
      (ascii " " ++ ascii "HTTP/1.1")))).length < maxRequestLine := by
  have hlen := encodes.length_le
  have hmethod := word.2.1
  have htarget : (ascii "/api/kv?key=").length = 12 := by decide
  have hversion : (ascii "HTTP/1.1").length = 8 := by decide
  have hspace : (ascii " ").length = 1 := by decide
  simp only [List.length_append, htarget, hversion, hspace, maxRequestLine,
    KvStore.maxKeyLength] at *
  omega

/-- The request as a client writes it. -/
def kvRequest {method : Bytes} (word : IsWord method) {text encoded : Bytes}
    (encodes : PercentEncodes text encoded) (short : text.length ≤ KvStore.maxKeyLength) :
    ClientRequest where
  method := method
  target := ascii "/api/kv?key=" ++ encoded
  version := ascii "HTTP/1.1"
  fields := []
  body := []
  method_ne := word.1
  method_word := word.2.2
  target_head := rfl
  target_word := kvTarget_word encodes
  version_known := bare_version
  no_transfer := bare_transfer
  announced := bare_announced
  line_short := kvLine_short word encodes short
  block_short := bare_block
  body_short := bare_body

/-- A fresh parser takes the request whole, and finds the key in it. -/
theorem parse_kvWire {method : String} (word : IsWord (ascii method)) {text encoded : Bytes}
    (encodes : PercentEncodes text encoded) (short : text.length ≤ KvStore.maxKeyLength) :
    ∃ parser, ({} : RequestParser).parse (kvWire method encoded) = (.Complete, parser, []) ∧
      parser.req.method = ascii method ∧ parser.req.path = ascii "/api/kv" ∧
      parser.req.queryParam (ascii "key") = text := by
  let r := kvRequest word encodes short
  obtain ⟨parser, hparse, hreq⟩ := RequestParser.parse_of_wireRequest r.wireRequest []
  have hrender : r.render ++ [] = kvWire method encoded := by
    unfold kvWire ClientRequest.render ClientRequest.line renderFields
    simp only [r, kvRequest, List.flatMap_nil, List.nil_append, List.append_nil, List.append_assoc]
    rfl
  rw [hrender] at hparse
  have hreads := r.reads
  rw [← hreq] at hreads
  have htarget : r.target = ascii "/api/kv" ++ 63 :: (ascii "key=" ++ encoded) := rfl
  have hsplit : parser.req.path = ascii "/api/kv" ∧ parser.req.query = ascii "key=" ++ encoded := by
    rcases hreads.split with ⟨hfree, -, -⟩ | ⟨hfree, heq⟩
    · rw [htarget] at hfree
      exact absurd (List.mem_append_right _ List.mem_cons_self) hfree
    · rw [htarget] at heq
      have hname : (63 : UInt8) ∉ ascii "/api/kv" := by decide
      have hquery : (63 : UInt8) ∉ ascii "key=" ++ encoded := by
        rw [List.mem_append, not_or]
        exact ⟨by decide, encodes.not_mem (by decide)⟩
      obtain ⟨hpath, -, hrest⟩ := (List.append_cons_inj_of_notMem hname hquery).mp heq
      exact ⟨hpath.symm, hrest.symm⟩
  refine ⟨parser, hparse, hreads.method, hsplit.1, ?_⟩
  rw [queryParam_eq, hsplit.2]
  exact queryParam_encoded encodes

/-! ## The store behind it -/

namespace KvStore

/-- The keys that can be stored. -/
def KeysFit (store : KvStore) : Prop :=
  ∀ key ∈ store.entries, key ≠ [] ∧ key.length ≤ maxKeyLength

theorem keysFit_of_reachable {store : KvStore} (r : kvMachine.Reachable store) : store.KeysFit := by
  refine r.invariant (I := KeysFit) ?_ ?_
  · intro key hmem
    exact absurd hmem Std.ExtTreeMap.not_mem_empty
  · intro store call store' fit _ hs key hmem
    cases call with
    | put request =>
      cases hs
      rcases store.put_cases request with ⟨new, value, accepts, -, -, hstore⟩ | ⟨-, hstore⟩
      · rw [hstore, Std.ExtTreeMap.mem_insert] at hmem
        rcases hmem with heq | hmem
        · rw [← Std.LawfulEqCmp.eq_of_compare heq]
          exact ⟨accepts.key_ne, accepts.key_short⟩
        · exact fit key hmem
      · rw [hstore] at hmem
        exact fit key hmem
    | remove old =>
      cases hs
      rcases store.remove_entries old with hstore | hstore
      · rw [hstore] at hmem
        exact fit key hmem
      · rw [hstore, Std.ExtTreeMap.mem_erase] at hmem
        exact fit key hmem.2

end KvStore

/-- Parses the bytes with a fresh parser and routes the request they are, if they are
one and no more. -/
def exchange {ρ : Type} (router : Router ρ) (server : ρ) (wire : Bytes) :
    Option (HttpResponse × ρ) :=
  match ({} : RequestParser).parse wire with
  | (.Complete, parser, []) => some (router.route server parser.req)
  | _ => none

namespace Services

variable {μ : Type} (root : FileTree) (toJson : μ → Nat → Nat → Bytes)

/-- The services when the entry has been removed. -/
def without (services : Services μ) (key : Bytes) : Services μ :=
  { services with kvStore := { entries := services.kvStore.entries.erase key } }

theorem route_get {services : Services μ} {request : HttpRequest}
    (method : request.method = ascii "GET") (path : request.path = ascii "/api/kv") :
    (router root toJson).route services request = getKv services request := by
  have lookedUp : Router.lookedUp (ascii "GET") = ascii "GET" := by decide
  unfold Router.route
  rw [method, path, lookedUp, router, Router.getElem?_add_of_ne _ _ (by decide),
    Router.getElem?_add_of_ne _ _ (by decide), Router.getElem?_add_self]

theorem route_delete {services : Services μ} {request : HttpRequest}
    (method : request.method = ascii "DELETE") (path : request.path = ascii "/api/kv") :
    (router root toJson).route services request = deleteKv services request := by
  have lookedUp : Router.lookedUp (ascii "DELETE") = ascii "DELETE" := by decide
  unfold Router.route
  rw [method, path, lookedUp, router, Router.getElem?_add_self]

variable {key encoded : Bytes}

/-- A GET of the key is a `get` of the store. -/
theorem exchange_get (services : Services μ) (hkey : key ≠ [])
    (short : key.length ≤ KvStore.maxKeyLength) (encodes : PercentEncodes key encoded) :
    exchange (router root toJson) services (kvWire "GET" encoded) =
      some (services.kvStore.get key, services) := by
  have word : IsWord (ascii "GET") := by
    unfold IsWord
    decide +kernel
  obtain ⟨parser, parsed, method, path, query⟩ := parse_kvWire word encodes short
  unfold exchange
  rw [parsed]
  dsimp only
  rw [route_get root toJson method path, getKv, query, if_neg hkey]

/-- A DELETE of the key is a `remove` from the store. -/
theorem exchange_delete (services : Services μ) (short : key.length ≤ KvStore.maxKeyLength)
    (encodes : PercentEncodes key encoded) :
    exchange (router root toJson) services (kvWire "DELETE" encoded) =
      some ((services.kvStore.remove key).1,
        { services with kvStore := (services.kvStore.remove key).2 }) := by
  have word : IsWord (ascii "DELETE") := by
    unfold IsWord
    decide +kernel
  obtain ⟨parser, parsed, method, path, query⟩ := parse_kvWire word encodes short
  unfold exchange
  rw [parsed]
  dsimp only
  rw [route_delete root toJson method path, deleteKv, query]

/-- An entry can be fetched and deleted by every way to write its key. -/
structure Fetchable (services : Services μ) (key value : Bytes) : Prop where
  get : ∀ encoded, PercentEncodes key encoded →
    exchange (router root toJson) services (kvWire "GET" encoded) =
      some (.json (KvStore.entryJson key value) 200, services)
  delete : ∀ encoded, PercentEncodes key encoded →
    exchange (router root toJson) services (kvWire "DELETE" encoded) =
      some (.json (ascii "\x7b\"deleted\":true\x7d") 200, services.without key)
  /-- The entry is gone, and no other. -/
  only : ∀ k, (services.without key).kvStore.entries[k]? =
    if k = key then none else services.kvStore.entries[k]?
  gone : ∀ encoded, PercentEncodes key encoded → ∃ response,
    exchange (router root toJson) (services.without key) (kvWire "GET" encoded) =
      some (response, services.without key) ∧ response.status = 404

theorem stored_fetchable (services : Services μ) (r : kvMachine.Reachable services.kvStore)
    {key value : Bytes} (stored : services.kvStore.entries[key]? = some value) :
    Fetchable root toJson services key value := by
  have hmem : key ∈ services.kvStore.entries :=
    Std.ExtTreeMap.mem_iff_isSome_getElem?.mpr (by rw [stored]; rfl)
  obtain ⟨hkey, short⟩ := KvStore.keysFit_of_reachable r key hmem
  have only : ∀ k, (services.without key).kvStore.entries[k]? =
      if k = key then none else services.kvStore.entries[k]? := by
    intro k
    unfold without
    rw [Std.ExtTreeMap.getElem?_erase, if_compare]
  constructor
  · intro encoded encodes
    rw [exchange_get root toJson services hkey short encodes, KvStore.get, if_neg hkey, stored]
  · intro encoded encodes
    rw [exchange_delete root toJson services short encodes, KvStore.remove, if_neg hkey,
      if_pos hmem]
    rfl
  · exact only
  · intro encoded encodes
    refine ⟨_, exchange_get root toJson _ hkey short encodes, ?_⟩
    rw [KvStore.get, if_neg hkey, only key, if_pos rfl]
    rfl

/-- A key of separators, a percent sign, a line end and a NUL. -/
def awkwardKey : Bytes := ascii "&=%+?" ++ CRLF ++ [0]

/-- The body of a POST that stores it. -/
def awkwardForm : HttpRequest where
  body := ascii "key=%26%3D%25%2B%3F%0D%0A%00&value=v"

/-- A server without files that has these entries. -/
def serverOf (kvStore : KvStore) : Services Unit where
  metrics := ()
  kvStore := kvStore
  staticFiles := .new (.directory true []) [] 0

/-- It can be fetched and deleted. -/
theorem stored_fetchable_awkward :
    Fetchable (.directory true []) (fun _ _ _ => []) (serverOf (KvStore.put {} awkwardForm).2)
      awkwardKey (ascii "v") := by
  have r : kvMachine.Reachable (KvStore.put {} awkwardForm).2 :=
    .step (a := .put awkwardForm) .start trivial rfl
  have stored : (KvStore.put {} awkwardForm).2.entries[awkwardKey]? = some (ascii "v") := by
    decide +kernel
  generalize (KvStore.put {} awkwardForm).2 = store at r stored
  exact stored_fetchable _ _ (serverOf store) r stored

end Services

end WebServer
