import WebServer.Laws.Http.Chunking
import WebServer.Laws.Http.HeaderTable

/-!
# Reading back what a client wrote

`ClientRequest` is a request as a well-behaved client would put it on the
wire; its fields carry their own well-formedness, so there is no ill-formed
one to rule out later. `render` writes it with CRLF line ends. The round trip
is `feedChunks_render`: a pipeline of such requests, cut anywhere, comes out
of the parser as exactly those requests and nothing is left over.

The proof has two halves. A rendered request stands on the wire in the sense
of the grammar (`ClientRequest.wireRequest`), so a drain takes it; and its
request line is under the limit, so no cut can be the one that fragmentation
minds (`line_short_of_render`).
-/

namespace WebServer

open Base

/-! ## Requests as a client writes them -/

/-- The octets a field name is made of, a token of RFC 9110. -/
def isTokenOctet (c : UInt8) : Bool :=
  isdigit c || (65 ≤ c && c ≤ 90) || (97 ≤ c && c ≤ 122) || (ascii "!#$%&'*+-.^_`|~").contains c

/-- A header field as a client writes it. -/
structure ClientField where
  name : Bytes
  value : Bytes
  name_ne : name ≠ []
  name_token : ∀ c ∈ name, isTokenOctet c = true
  value_line : ∀ c ∈ value, c ≠ 13 ∧ c ≠ 10
  value_head : ∀ c, value.head? = some c → isBlank c = false
  value_last : ∀ h : value ≠ [], isBlank (value.getLast h) = false

namespace ClientField

/-- The name under which the field is stored. -/
def key (f : ClientField) : Bytes := toLower f.name

/-- The field's line, its line end not included. -/
def line (f : ClientField) : Bytes := f.name ++ (ascii ": " ++ f.value)

end ClientField

/-- The values of the fields stored under a name, in order of arrival. -/
def valuesOf (fields : List ClientField) (key : Bytes) : List Bytes :=
  (fields.filter fun f => f.key = key).map (·.value)

/-- The header lines and the blank line behind them. -/
def renderFields (fields : List ClientField) : Bytes :=
  fields.flatMap (fun f => f.line ++ CRLF) ++ CRLF

/-- A request as a client writes it: the body is announced by one decimal
`Content-Length`, which an empty body may leave out. -/
structure ClientRequest where
  method : Bytes
  target : Bytes
  version : Bytes
  fields : List ClientField
  body : Bytes
  method_ne : method ≠ []
  method_word : ∀ c ∈ method, c ≠ 32 ∧ c ≠ 13 ∧ c ≠ 10
  target_head : target.head? = some 47
  target_word : ∀ c ∈ target, c ≠ 32 ∧ c ≠ 13 ∧ c ≠ 10
  version_known : version = ascii "HTTP/1.1" ∨ version = ascii "HTTP/1.0"
  no_transfer : valuesOf fields (ascii "transfer-encoding") = []
  announced : (valuesOf fields (ascii "content-length") = [] ∧ body = []) ∨
    ∃ digits, valuesOf fields (ascii "content-length") = [digits] ∧ digits ≠ [] ∧
      (∀ c ∈ digits, isdigit c = true) ∧ decimalValue digits = body.length
  line_short : (method ++ (ascii " " ++ (target ++ (ascii " " ++ version)))).length < maxRequestLine
  block_short : (renderFields fields).length ≤ maxHeaderBlock
  body_short : body.length ≤ maxBody

namespace ClientRequest

def line (r : ClientRequest) : Bytes :=
  r.method ++ (ascii " " ++ (r.target ++ (ascii " " ++ r.version)))

/-- The octets a client sends. -/
def render (r : ClientRequest) : Bytes :=
  r.line ++ (CRLF ++ (renderFields r.fields ++ r.body))

end ClientRequest

/-- A parsed request is the one the client wrote. -/
structure Reads (r : ClientRequest) (request : HttpRequest) : Prop where
  method : request.method = r.method
  target : request.target = r.target
  version : request.version = r.version
  body : request.body = r.body
  /-- The target is split at its first question mark. -/
  split : (63 ∉ r.target ∧ request.path = r.target ∧ request.query = []) ∨
    (63 ∉ request.path ∧ r.target = request.path ++ 63 :: request.query)
  /-- Repeated fields are joined in order of arrival, and a name that was not
  sent is not there. -/
  headers : ∀ key, request.headers.lookup key =
    match valuesOf r.fields key with
    | [] => none
    | value :: values => some ((ascii ", ").intercalate (value :: values))
  keepAlive : request.keepAlive =
    let connection := toLower
      ((ascii ", ").intercalate (valuesOf r.fields (ascii "connection")))
    if (find (ascii "close") connection).isSome then false
    else if (find (ascii "keep-alive") connection).isSome then true
    else decide (r.version = ascii "HTTP/1.1")

/-! ## The header table -/

/-- The table after the fields of a header block. -/
def tableOf (headers : Headers) (fields : List ClientField) : Headers :=
  fields.foldl (fun h f => RequestParser.addHeader h f.key f.value) headers

theorem lookup_tableOf (headers : Headers) (fields : List ClientField) (key : Bytes) :
    (tableOf headers fields).lookup key =
      (valuesOf fields key).foldl joinValue (headers.lookup key) := by
  have hfields := lookup_foldl_addHeader (fields.map fun f => (f.key, f.value)) headers key
  rw [List.foldl_map, List.filter_map, List.map_map] at hfields
  exact hfields

/-! ## One line -/

theorem isTokenOctet_spec {c : UInt8} (h : isTokenOctet c = true) :
    c ≠ 58 ∧ c ≠ 13 ∧ isBlank c = false := by
  refine ⟨?_, ?_, ?_⟩
  · rintro rfl; exact absurd h (by decide)
  · rintro rfl; exact absurd h (by decide)
  · cases hb : isBlank c with
    | false => rfl
    | true =>
      simp only [isBlank, Bool.or_eq_true, beq_iff_eq] at hb
      rcases hb with rfl | rfl <;> exact absurd h (by decide)

theorem trim_eq_self {text : Bytes} (hhead : ∀ c, text.head? = some c → isBlank c = false)
    (hlast : ∀ h : text ≠ [], isBlank (text.getLast h) = false) : trim text = text := by
  have hdrop : text.dropWhile isBlank = text := by
    cases text with
    | nil => rfl
    | cons c text => rw [List.dropWhile_cons_of_neg (by simp [hhead c rfl])]
  rw [trim, hdrop]
  exact List.rdropWhile_eq_self_iff.mpr fun hne => by simp [hlast hne]

theorem trim_blank_cons (c : UInt8) (text : Bytes) (hc : isBlank c = true) :
    trim (c :: text) = trim text := by
  rw [trim, trim, List.dropWhile_cons_of_pos hc]

namespace ClientField

theorem line_free (f : ClientField) : find CRLF f.line = none := by
  refine find_crlf_of_not_mem fun hmem => ?_
  rcases List.mem_append.mp hmem with hname | hrest
  · exact (isTokenOctet_spec (f.name_token 13 hname)).2.1 rfl
  · rcases List.mem_append.mp hrest with hsep | hvalue
    · revert hsep; decide
    · exact (f.value_line 13 hvalue).1 rfl

theorem line_ne (f : ClientField) : f.line ≠ [] := by
  simp [line, f.name_ne]

/-- A rendered field line carries the field's name and value. -/
theorem fieldOf_line (f : ClientField) : fieldOf f.line = some (f.key, f.value) := by
  have hcolon : (58 : UInt8) ∉ f.name := fun hmem =>
    (isTokenOctet_spec (f.name_token 58 hmem)).1 rfl
  have hfind : find (ascii ":") f.line = some f.name.length :=
    find_single_of_not_mem (32 :: f.value) hcolon
  have hname : trim f.name = f.name := by
    refine trim_eq_self (fun c hc => ?_) fun h => ?_
    · exact (isTokenOctet_spec (f.name_token c (List.mem_of_mem_head? hc))).2.2
    · exact (isTokenOctet_spec (f.name_token _ (List.getLast_mem h))).2.2
  have htake : f.line.take f.name.length = f.name := List.take_left
  have hdrop : f.line.drop (f.name.length + 1) = 32 :: f.value := by
    rw [show f.line = (f.name ++ [58]) ++ (32 :: f.value) by simp [line, ascii]]
    exact List.drop_left' (by simp)
  have hvalue : trim (32 :: f.value) = f.value := by
    rw [trim_blank_cons 32 f.value (by decide)]
    exact trim_eq_self f.value_head f.value_last
  obtain ⟨n, hn⟩ := Nat.exists_eq_succ_of_ne_zero (List.length_pos_iff.mpr f.name_ne).ne'
  have hfield : fieldOf f.line = some (toLower (trim (f.line.take f.name.length)),
      trim (f.line.drop (f.name.length + 1))) := by
    simp only [fieldOf, hfind, hn]
  rw [hfield, htake, hdrop, hname, hvalue]
  rfl

end ClientField

namespace RequestParser

/-- The parser after a run of field lines. -/
def addFields (p : RequestParser) (fields : List ClientField) : RequestParser :=
  fields.foldl (fun p f => p.addField f.line (f.key, f.value)) p

theorem addFields_req (p : RequestParser) (fields : List ClientField) :
    (p.addFields fields).req = { p.req with headers := tableOf p.req.headers fields } := by
  induction fields generalizing p with
  | nil => rfl
  | cons f fields ih =>
    rw [addFields, List.foldl_cons, ← addFields, ih]
    rfl

theorem addFields_length (p : RequestParser) (fields : List ClientField) :
    (p.addFields fields).contentLength = p.contentLength := by
  induction fields generalizing p with
  | nil => rfl
  | cons f fields ih =>
    rw [addFields, List.foldl_cons, ← addFields, ih]
    rfl

/-- Rendered fields are a header block, when they fit and what they say is
accepted. -/
theorem headerBlock_render {fields : List ClientField} {p q : RequestParser}
    (hfit : p.headerBytes + (renderFields fields).length ≤ maxHeaderBlock)
    (hfin : ((p.addFields fields).countLine []).finishHeaders = (true, q)) :
    HeaderBlock p (renderFields fields) q := by
  induction fields generalizing p with
  | nil => exact .blank hfit hfin
  | cons f fields ih =>
    have hblock : renderFields (f :: fields) = f.line ++ (CRLF ++ renderFields fields) := by
      simp only [renderFields, List.flatMap_cons, List.append_assoc]
    rw [hblock] at hfit ⊢
    have hlen : (p.addField f.line (f.key, f.value)).headerBytes =
        p.headerBytes + (f.line.length + 2) := rfl
    simp only [List.length_append, CRLF, List.length_cons, List.length_nil] at hfit
    refine .field f.line_ne f.line_free ?_ f.fieldOf_line (ih ?_ hfin)
    · show p.headerBytes + (f.line.length + 2) ≤ maxHeaderBlock
      omega
    · rw [hlen]
      omega

end RequestParser

namespace ClientRequest

variable (r : ClientRequest)

theorem line_free : find CRLF r.line = none := by
  refine find_crlf_of_not_mem ?_
  have hversion : (13 : UInt8) ∉ r.version := by
    rcases r.version_known with h | h <;> rw [h] <;> decide
  simp only [line, List.mem_append, not_or]
  exact ⟨fun h => (r.method_word 13 h).2.1 rfl, by decide,
    fun h => (r.target_word 13 h).2.1 rfl, by decide, hversion⟩

/-- The request line parsed, before the headers are read. -/
def lineRequest : HttpRequest :=
  let req : HttpRequest :=
    { method := r.method, target := r.target, version := r.version }
  let req := match find (ascii "?") r.target with
    | none => { req with path := r.target }
    | some queryStart =>
      { req with path := r.target.take queryStart, query := r.target.drop (queryStart + 1) }
  { req with keepAlive := r.version = ascii "HTTP/1.1" }

theorem parseRequestLine_line :
    RequestParser.parseRequestLine {} r.line = (true, { req := r.lineRequest }) := by
  have hfirst : find (ascii " ") r.line = some r.method.length :=
    find_single_of_not_mem _ fun h => (r.method_word 32 h).1 rfl
  have hmethod : r.line.take r.method.length = r.method := List.take_left
  have htail : r.line.drop (r.method.length + 1) = r.target ++ (ascii " " ++ r.version) := by
    rw [show r.line = (r.method ++ ascii " ") ++ (r.target ++ (ascii " " ++ r.version)) by
      simp [line]]
    exact List.drop_left' (by simp [ascii])
  have hsecond : find (ascii " ") (r.target ++ (ascii " " ++ r.version)) =
      some r.target.length :=
    find_single_of_not_mem _ fun h => (r.target_word 32 h).1 rfl
  have htarget : (r.target ++ (ascii " " ++ r.version)).take
      (r.method.length + 1 + r.target.length - r.method.length - 1) = r.target :=
    List.take_left' (by omega)
  have hversion : r.line.drop (r.method.length + 1 + r.target.length + 1) = r.version := by
    rw [show r.line = (r.method ++ (ascii " " ++ (r.target ++ ascii " "))) ++ r.version by
      simp [line]]
    exact List.drop_left' (by simp [ascii]; omega)
  have hne : ¬ (r.method = [] ∨ r.target = [] ∨ r.target.head? ≠ some 47) := by
    have htne : r.target ≠ [] := fun h => by
      have := r.target_head
      rw [h] at this
      cases this
    simp [r.method_ne, htne, r.target_head]
  have hknown : ¬ (r.version ≠ ascii "HTTP/1.1" ∧ r.version ≠ ascii "HTTP/1.0") := by
    rcases r.version_known with h | h <;> simp [h]
  cases hquery : find (ascii "?") r.target <;>
    simp only [RequestParser.parseRequestLine, hfirst, htail, hsecond, hmethod, htarget, hversion,
      if_neg hne, if_neg hknown, lineRequest, hquery]

/-- The parsed request. -/
def meaning : HttpRequest :=
  { RequestParser.applyConnection
      { r.lineRequest with headers := tableOf ∅ r.fields } with body := r.body }

theorem lineRequest_headers : r.lineRequest.headers = ∅ := by
  unfold lineRequest
  dsimp only
  split <;> rfl

/-- What the header table answers for a name in lower case. -/
theorem lookup_table (key : Bytes) : (tableOf ∅ r.fields).lookup key =
    match valuesOf r.fields key with
    | [] => none
    | value :: values => some ((ascii ", ").intercalate (value :: values)) := by
  rw [lookup_tableOf, AList.lookup_empty, foldl_joinValue_none]
  cases valuesOf r.fields key with
  | nil => rfl
  | cons value values => rfl

theorem header_table (key : Bytes) (hkey : toLower key = key) :
    ({ r.lineRequest with headers := tableOf ∅ r.fields } : HttpRequest).header key =
      (ascii ", ").intercalate (valuesOf r.fields key) := by
  rw [HttpRequest.header, hkey]
  dsimp only
  rw [r.lookup_table]
  cases valuesOf r.fields key with
  | nil => rfl
  | cons value values => rfl

/-- The headers a client writes are accepted, and the body they announce is
the one it sends. -/
theorem finishHeaders_table {p : RequestParser} (hlen : p.contentLength = 0)
    (hreq : p.req = { r.lineRequest with headers := tableOf ∅ r.fields }) :
    p.finishHeaders = (true, { p with
      contentLength := r.body.length, req := RequestParser.applyConnection p.req }) := by
  have htransfer : p.req.header (ascii "transfer-encoding") = [] := by
    rw [hreq, r.header_table _ (by decide), r.no_transfer]
    rfl
  have hlength : p.req.header (ascii "content-length") =
      (ascii ", ").intercalate (valuesOf r.fields (ascii "content-length")) := by
    rw [hreq, r.header_table _ (by decide)]
  unfold RequestParser.finishHeaders
  rw [if_neg (by simp [htransfer])]
  rcases r.announced with ⟨hvals, hbody⟩ | ⟨digits, hvals, hne, hdigits, hvalue⟩
  · have hnil : p.req.header (ascii "content-length") = [] := by rw [hlength, hvals]; rfl
    simp only [hnil, if_true, hbody, List.length_nil, ← hlen]
  · have hdig : p.req.header (ascii "content-length") = digits := by
      rw [hlength, hvals]
      simp [List.intercalate]
    have hc : cString digits = digits :=
      List.takeWhile_eq_self_iff.mpr fun c hc => by
        have := hdigits c hc
        simp only [decide_eq_true_eq]
        rintro rfl
        exact absurd this (by decide)
    have hbody := r.body_short
    have hread : strtoll digits = some ((decimalValue digits : Int), []) :=
      strtoll_digits hne hdigits (by rw [hvalue]; simp only [longMax, maxBody] at *; omega)
    rw [hvalue] at hread
    have hpos : ¬ ((([] : Bytes) ≠ []) ∨ ((r.body.length : Int)) < 0) := by simp
    have hfit : ¬ r.body.length > maxBody := Nat.not_lt.mpr hbody
    simp only [hdig, if_neg hne, hc, hread, if_neg hpos, Int.toNat_natCast, if_neg hfit]

/-- A rendered request stands on the wire and means what the client wrote. -/
theorem wireRequest : WireRequest r.render r.meaning := by
  let p : RequestParser := { req := r.lineRequest, state := .Headers }
  have hreq : ((p.addFields r.fields).countLine []).req =
      { r.lineRequest with headers := tableOf ∅ r.fields } := by
    show (p.addFields r.fields).req = _
    rw [RequestParser.addFields_req, show p.req = r.lineRequest from rfl, r.lineRequest_headers]
  have hfin := r.finishHeaders_table
    (p := (p.addFields r.fields).countLine []) (RequestParser.addFields_length p r.fields) hreq
  have hfit : p.headerBytes + (renderFields r.fields).length ≤ maxHeaderBlock := by
    have := r.block_short
    show 0 + (renderFields r.fields).length ≤ maxHeaderBlock
    omega
  have hblock := RequestParser.headerBlock_render hfit hfin
  rw [meaning, ← hreq]
  exact .mk r.line_free (Nat.le_of_lt r.line_short) r.parseRequestLine_line hblock rfl

theorem lineRequest_split : (63 ∉ r.target ∧ r.lineRequest.path = r.target ∧
      r.lineRequest.query = []) ∨
    (63 ∉ r.lineRequest.path ∧
      r.target = r.lineRequest.path ++ 63 :: r.lineRequest.query) := by
  cases hq : find (ascii "?") r.target with
  | none =>
    refine .inl ⟨find_single_eq_none.mp hq, ?_, ?_⟩ <;> simp only [lineRequest, hq]
  | some queryStart =>
    obtain ⟨before, after, hsplit, rfl, hfree⟩ := find_split (by decide) hq
    have hpath : r.lineRequest.path = before := by
      rw [show r.lineRequest.path = r.target.take before.length by simp only [lineRequest, hq],
        hsplit, List.append_assoc, List.take_left]
    have hquery : r.lineRequest.query = after := by
      rw [show r.lineRequest.query = r.target.drop (before.length + 1) by
        simp only [lineRequest, hq], hsplit]
      exact List.drop_left' (by simp [ascii])
    refine .inr ⟨?_, ?_⟩
    · rw [hpath]
      exact find_single_eq_none.mp hfree
    · rw [hpath, hquery, hsplit, List.append_assoc]
      rfl

/-- The parsed request is the one the client wrote. -/
theorem reads : Reads r r.meaning := by
  have hconn := r.header_table (ascii "connection") (by decide)
  have hline : r.lineRequest.method = r.method ∧ r.lineRequest.target = r.target ∧
      r.lineRequest.version = r.version ∧
      r.lineRequest.keepAlive = decide (r.version = ascii "HTTP/1.1") := by
    unfold lineRequest
    dsimp only
    split <;> exact ⟨rfl, rfl, rfl, rfl⟩
  obtain ⟨hmethod, htarget, hversion, hkeep⟩ := hline
  -- Whatever the connection header says, only `keepAlive` is touched.
  have hrest : ∃ k, r.meaning =
      { r.lineRequest with headers := tableOf ∅ r.fields, body := r.body, keepAlive := k } ∧
      k = let connection := toLower
            ((ascii ", ").intercalate (valuesOf r.fields (ascii "connection")))
          if (find (ascii "close") connection).isSome then false
          else if (find (ascii "keep-alive") connection).isSome then true
          else decide (r.version = ascii "HTTP/1.1") := by
    unfold meaning RequestParser.applyConnection
    simp only [hconn]
    split
    · exact ⟨false, rfl, rfl⟩
    · split
      · exact ⟨true, rfl, rfl⟩
      · exact ⟨_, rfl, hkeep⟩
  obtain ⟨k, hmeaning, hk⟩ := hrest
  rw [hmeaning]
  exact ⟨hmethod, htarget, hversion, rfl, r.lineRequest_split, r.lookup_table, hk⟩

end ClientRequest

/-! ## A pipeline -/

open RequestParser

theorem wireRequests_render (requests : List ClientRequest) :
    WireRequests (requests.map (·.render)).flatten (requests.map (·.meaning)) := by
  induction requests with
  | nil => exact .nil
  | cons r requests ih => exact .cons r.wireRequest ih

/-- Behind complete requests, a pipeline goes on with a request line under
the limit: the grammar and the renderer agree on where requests begin. -/
theorem line_short_of_render {wire line : Bytes} {parsed : List HttpRequest}
    (hwire : WireRequests wire parsed) (hfree : find CRLF line = none) (rest : Bytes) :
    ∀ requests : List ClientRequest,
      (requests.map (·.render)).flatten = wire ++ (line ++ (CRLF ++ rest)) →
        line.length < maxRequestLine := by
  induction hwire with
  | nil =>
    intro requests h
    cases requests with
    | nil => simp [CRLF] at h
    | cons r requests =>
      have hfirst := find_crlf_line hfree rest
      rw [List.map_cons, List.flatten_cons, ClientRequest.render, List.append_assoc,
        List.append_assoc, List.nil_append] at h
      rw [← h, find_crlf_line r.line_free] at hfirst
      have hshort := r.line_short
      rw [← Option.some.inj hfirst]
      exact hshort
  | @cons part tail request others hpart _ ih =>
    intro requests h
    obtain ⟨p, hp, _⟩ := parse_of_wireRequest hpart (tail ++ (line ++ (CRLF ++ rest)))
    rw [List.append_assoc] at h
    cases requests with
    | nil =>
      rw [List.map_nil, List.flatten_nil] at h
      rw [← h, parse_fresh_nil] at hp
      cases hp
    | cons r requests =>
      -- Both decompositions begin with the one request a parser completes.
      rw [List.map_cons, List.flatten_cons] at h
      obtain ⟨q, hq, _⟩ := parse_of_wireRequest r.wireRequest
        (requests.map (·.render)).flatten
      rw [h, hp] at hq
      exact ih requests (Prod.mk.inj (Prod.mk.inj hq).2).2.symm

/-- Decoding undoes encoding: however a pipeline of rendered requests is cut,
the parser returns exactly those requests, in order, and nothing is left. -/
theorem feedChunks_render (requests : List ClientRequest) {chunks : List Bytes}
    (h : chunks.flatten = (requests.map (·.render)).flatten) :
    ∃ parsed, feedChunks {} [] chunks = (parsed, .waiting {} []) ∧
      List.Forall₂ Reads requests parsed := by
  have htakes := takes_of_wireRequests (wireRequests_render requests) []
  rw [List.append_nil] at htakes
  have hdrain : reader.drain {} (requests.map (·.render)).flatten =
      (requests.map (·.meaning), .waiting {} []) := by
    rw [htakes.drain_eq,
      reader.drain_more (read_needMore parse_fresh_nil)]
    simp [Reader.prepend]
  have hfeed : reader.feed {} [] chunks =
      reader.drain {} ([] ++ chunks.flatten) := by
    refine reader.feed_eq_drain
      (read_needMore parse_fresh_nil) fun fed rest hsplit _ e he => ?_
    -- A refused beginning is refused for good, or was cut in a full line.
    rw [List.nil_append] at he
    have hfed : reader.drain {} fed.flatten =
        ((reader.drain {} fed.flatten).1, .failed e) := by rw [← he]
    have hall : (requests.map (·.render)).flatten = fed.flatten ++ rest.flatten := by
      rw [← h, hsplit, List.flatten_append]
    rcases drain_failed_append hfed rest.flatten with
      hsame | ⟨wire, tail, hwhere, hwire, line, more, hfree, hlen, rfl, hmore⟩
    · rw [← hall, hdrain] at hsame
      cases (Prod.mk.inj hsame).2
    · have hline := line_short_of_render hwire hfree more requests (by
        rw [hall, hwhere, hmore]
        simp [CRLF])
      omega
  refine ⟨requests.map (·.meaning), ?_, ?_⟩
  · rw [feedChunks_eq_feed, hfeed, List.nil_append, h, hdrain]
  · rw [List.forall₂_map_right_iff]
    exact List.forall₂_same.mpr fun r _ => r.reads

/-- A POST with a repeated field and a body that looks like a header. -/
def samplePost : ClientRequest where
  method := ascii "POST"
  target := ascii "/api/kv?x=1"
  version := ascii "HTTP/1.1"
  fields :=
    [⟨ascii "Accept", ascii "a", by decide +kernel, by decide +kernel, by decide +kernel, by rintro c ⟨⟩; rfl, by decide +kernel⟩,
     ⟨ascii "content-length", ascii "9", by decide +kernel, by decide +kernel, by decide +kernel, by rintro c ⟨⟩; rfl,
      by decide +kernel⟩,
     ⟨ascii "ACCEPT", ascii "b", by decide +kernel, by decide +kernel, by decide +kernel, by rintro c ⟨⟩; rfl, by decide +kernel⟩]
  body := ascii "Host: x\r\n"
  method_ne := by decide +kernel
  method_word := by decide +kernel
  target_head := by decide +kernel
  target_word := by decide +kernel
  version_known := by decide +kernel
  no_transfer := by decide +kernel
  announced := .inr ⟨ascii "9", by decide +kernel, by decide +kernel, by decide +kernel, by decide +kernel⟩
  line_short := by decide +kernel
  block_short := by decide +kernel
  body_short := by decide +kernel

/-- Two of them in a row, cut inside the first request line and behind the
first carriage return. -/
theorem feedChunks_render_samplePost :
    ∃ parsed, feedChunks {} []
        [ascii "POS", ascii "T /api/kv?x=1 HTTP/1.1\r",
          (samplePost.render ++ samplePost.render).drop 26] = (parsed, .waiting {} []) ∧
      List.Forall₂ Reads [samplePost, samplePost] parsed :=
  feedChunks_render [samplePost, samplePost] (by decide)

end WebServer
