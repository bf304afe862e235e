import WebServer.Http.Client
import WebServer.Laws.Http.Decimal
import WebServer.Laws.Http.Framing
import WebServer.Laws.Http.RoundTrip

/-!
# Responses are read back

A response on the wire is its lines, a blank line and the body (`serialize_eq`). A
client finds the same lines (`takeHead_blockText`), cuts each field at the colon that
`serialize` wrote, and finds `Content-Length` once (`readHead_lines`). The body may be
any bytes: it is counted, not searched. So a stream of responses is read back one by
one, and nothing of one response is taken for the next (`takes_wire`).
-/

namespace WebServer

open Base

/-- A text without line ends. -/
def OneLine (text : Bytes) : Prop := 13 ∉ text ∧ 10 ∉ text

instance (text : Bytes) : Decidable (OneLine text) :=
  inferInstanceAs (Decidable (13 ∉ text ∧ 10 ∉ text))

theorem OneLine.append {front back : Bytes} (hfront : OneLine front) (hback : OneLine back) :
    OneLine (front ++ back) := by
  constructor
  · rw [List.mem_append, not_or]
    exact ⟨hfront.1, hback.1⟩
  · rw [List.mem_append, not_or]
    exact ⟨hfront.2, hback.2⟩

theorem OneLine.free {text : Bytes} (h : OneLine text) : find CRLF text = none :=
  find_crlf_of_not_mem h.1

/-! ## Numbers -/

theorem decimal_ne_nil (n : Nat) : decimal n ≠ [] := by
  intro hnil
  have hvalue := decimalValue_decimal n
  by_cases hn : n < 10
  · rw [decimal_digit hn] at hnil
    cases hnil
  · rw [decimal_step (by omega)] at hnil
    exact List.cons_ne_nil _ _ (List.append_eq_nil_iff.mp hnil).2

/-- An octet that is no digit is not written. -/
theorem not_mem_decimal {c : UInt8} (h : isdigit c = false) (n : Nat) : c ∉ decimal n := by
  intro hin
  rw [decimal_isdigit n c hin] at h
  cases h

theorem not_mem_decimalInt {c : UInt8} (h : isdigit c = false) (hminus : c ≠ 45) (n : Int) :
    c ∉ decimalInt n := by
  cases n with
  | ofNat n => exact not_mem_decimal h n
  | negSucc n =>
    intro hin
    rcases List.mem_cons.mp hin with hc | hc
    · exact hminus hc
    · exact not_mem_decimal h (n + 1) hc

theorem decimal_oneLine (n : Nat) : OneLine (decimal n) :=
  ⟨not_mem_decimal (by decide) n, not_mem_decimal (by decide) n⟩

theorem decimalInt_oneLine (n : Int) : OneLine (decimalInt n) :=
  ⟨not_mem_decimalInt (by decide) (by decide) n, not_mem_decimalInt (by decide) (by decide) n⟩

theorem statusMessage_oneLine (status : Int) : OneLine (statusMessage status) := by
  unfold statusMessage
  split <;> decide

namespace Client

theorem readNat_decimal (n : Nat) : readNat (decimal n) = some n := by
  unfold readNat
  rw [if_pos ⟨decimal_ne_nil n, List.all_eq_true.mpr (decimal_isdigit n)⟩, decimalValue_decimal]

theorem readInt_decimalInt (n : Int) : readInt (decimalInt n) = some n := by
  unfold readInt
  cases n with
  | ofNat n =>
    have hhead : (decimal n).head? ≠ some 45 := fun h =>
      not_mem_decimal (by decide) n (List.mem_of_mem_head? h)
    show (if (decimal n).head? = some 45 then _ else (readNat (decimal n)).map Int.ofNat) = _
    rw [if_neg hhead, readNat_decimal]
    rfl
  | negSucc n =>
    show (readNat (decimal (n + 1))).map _ = _
    rw [readNat_decimal]
    rfl

end Client

/-! ## A response on the wire -/

namespace HttpResponse

def statusLine (response : HttpResponse) : Bytes :=
  ascii "HTTP/1.1 " ++ (decimalInt response.status ++ 32 :: statusMessage response.status)

/-- The fields in the order in which they are written. -/
def fields (response : HttpResponse) : List (Bytes × Bytes) :=
  (ascii "Content-Length", decimal response.body.length) ::
  (ascii "Content-Type", response.contentType) ::
  (ascii "Connection", if response.keepAlive then ascii "keep-alive" else ascii "close") ::
  response.extraHeaders

end HttpResponse

def fieldLine (field : Bytes × Bytes) : Bytes := field.1 ++ 58 :: 32 :: field.2

namespace HttpResponse

variable {response : HttpResponse}

theorem blockText_fields (fields : List (Bytes × Bytes)) :
    blockText (fields.map fieldLine) =
      (fields.flatMap fun (name, value) => name ++ ascii ": " ++ value ++ [13, 10]) ++ [13, 10] := by
  induction fields with
  | nil => rfl
  | cons field fields ih =>
    rw [List.map_cons, blockText, ih, List.flatMap_cons]
    simp only [fieldLine, CRLF, List.append_assoc, List.cons_append, List.nil_append]
    rfl

theorem serialize_eq (response : HttpResponse) (omitBody : Bool) :
    response.serialize omitBody =
      blockText (response.statusLine :: response.fields.map fieldLine) ++
        (if omitBody then [] else response.body) := by
  have hlength : ascii "Content-Length: " = ascii "Content-Length" ++ ascii ": " := rfl
  have htype : ascii "Content-Type: " = ascii "Content-Type" ++ ascii ": " := rfl
  have hconnection : ascii "Connection: " = ascii "Connection" ++ ascii ": " := rfl
  rw [blockText, blockText_fields]
  unfold serialize statusLine fields
  simp only [List.flatMap_cons, hlength, htype, hconnection, CRLF, List.append_assoc,
    List.cons_append, List.nil_append]

/-- A response whose lines stay lines: no text in it has a line end, a name ends at its
colon, and the length is announced once. -/
structure Clean (response : HttpResponse) : Prop where
  contentType : OneLine response.contentType
  names : ∀ field ∈ response.extraHeaders,
    OneLine field.1 ∧ 58 ∉ field.1 ∧ toLower field.1 ≠ ascii "content-length"
  values : ∀ field ∈ response.extraHeaders, OneLine field.2

theorem Clean.field_oneLine (h : response.Clean) :
    ∀ field ∈ response.fields, OneLine (fieldLine field) ∧ 58 ∉ field.1 := by
  have hsep : OneLine (ascii ": ") := by decide
  have hlength : (58 : UInt8) ∉ ascii "Content-Length" := by decide
  have htype : (58 : UInt8) ∉ ascii "Content-Type" := by decide
  have hconnection : (58 : UInt8) ∉ ascii "Connection" := by decide
  have hline : ∀ {name value : Bytes}, OneLine name → OneLine value →
      OneLine (fieldLine (name, value)) :=
    fun hname hvalue => hname.append (hsep.append hvalue)
  intro field hin
  unfold fields at hin
  rcases List.mem_cons.mp hin with rfl | hin
  · exact ⟨hline (by decide) (decimal_oneLine _), hlength⟩
  rcases List.mem_cons.mp hin with rfl | hin
  · exact ⟨hline (by decide) h.contentType, htype⟩
  rcases List.mem_cons.mp hin with rfl | hin
  · refine ⟨hline (by decide) ?_, hconnection⟩
    split <;> decide
  · have hname := h.names field hin
    exact ⟨hline hname.1 (h.values field hin), hname.2.1⟩

/-- What a client is to have of the response to a request with this method. -/
def answer (response : HttpResponse) (method : Bytes) : Answer where
  status := response.status
  contentType := response.contentType
  keepAlive := response.keepAlive
  extraHeaders := response.extraHeaders
  length := response.body.length
  body := if method = ascii "HEAD" then none else some response.body

end HttpResponse

/-! ## Reading it -/

namespace Client

variable {response : HttpResponse} {strip : Bytes → Bytes}

theorem takeLine_line {line : Bytes} (hfree : find CRLF line = none) (rest : Bytes) :
    takeLine (line ++ (CRLF ++ rest)) = some (line, rest) := by
  unfold takeLine
  rw [RequestParser.find_crlf_line hfree, Option.map_some, RequestParser.take_line,
    RequestParser.drop_line]

theorem find_crlf_nil : find CRLF [] = none := rfl

/-- The lines are found again, whatever follows the blank line. -/
theorem takeHead_blockText {lines : List Bytes}
    (h : ∀ line ∈ lines, line ≠ [] ∧ find CRLF line = none) (rest : Bytes) :
    takeHead (blockText lines ++ rest) = some (lines, rest) := by
  induction lines with
  | nil => exact takeHead_blank (takeLine_line find_crlf_nil rest)
  | cons line lines ih =>
    obtain ⟨hne, hfree⟩ := h line List.mem_cons_self
    have hlines := ih fun later hin => h later (List.mem_cons_of_mem line hin)
    rw [blockText, List.append_assoc, List.append_assoc,
      takeHead_line (takeLine_line hfree _) hne, hlines]
    rfl

theorem readStatus_statusLine (response : HttpResponse) :
    readStatus response.statusLine = some response.status := by
  have hprefix : (ascii "HTTP/1.1 ").isPrefixOf response.statusLine = true :=
    List.isPrefixOf_iff_prefix.mpr (List.prefix_append _ _)
  have hdrop : response.statusLine.drop 9 =
      decimalInt response.status ++ 32 :: statusMessage response.status := rfl
  have hblank : (32 : UInt8) ∉ decimalInt response.status :=
    not_mem_decimalInt (by decide) (by decide) _
  unfold readStatus
  rw [if_pos hprefix, hdrop, find_single_of_not_mem _ hblank]
  show readInt (List.take _ _) = _
  rw [List.take_left, readInt_decimalInt]

/-- A field is cut where it was put together. -/
theorem readField_fieldLine {field : Bytes × Bytes} (hcolon : 58 ∉ field.1)
    (hstrip : strip (32 :: field.2) = field.2) :
    readField strip (fieldLine field) = some field := by
  unfold readField fieldLine
  rw [find_single_of_not_mem _ hcolon, Option.map_some, List.take_left, ← List.drop_drop,
    List.drop_left]
  show some (field.1, strip (32 :: field.2)) = _
  rw [hstrip]

theorem readFields_lines {fields : List (Bytes × Bytes)} (hcolon : ∀ field ∈ fields, 58 ∉ field.1)
    (hstrip : ∀ field ∈ fields, strip (32 :: field.2) = field.2) :
    (fields.map fieldLine).mapM (readField strip) = some fields := by
  induction fields with
  | nil => rfl
  | cons field fields ih =>
    have hrest := ih (fun f hf => hcolon f (List.mem_cons_of_mem field hf))
      fun f hf => hstrip f (List.mem_cons_of_mem field hf)
    rw [List.map_cons, List.mapM_cons,
      readField_fieldLine (hcolon field List.mem_cons_self) (hstrip field List.mem_cons_self),
      hrest]
    rfl

/-- The fields of a response say what the response says. -/
theorem readFields_fields (h : response.Clean) :
    readFields response.status response.fields =
      some (response.answer (ascii "HEAD")) := by
  have hextra : response.extraHeaders.filter (named "content-length") = [] := by
    rw [List.filter_eq_nil_iff]
    intro field hin
    simp only [named, decide_eq_true_eq]
    exact (h.names field hin).2.2
  have hlength : response.fields.filter (named "content-length") =
      [(ascii "Content-Length", decimal response.body.length)] := by
    show _ :: response.extraHeaders.filter _ = _
    rw [hextra]
  have hkeep : decide (toLower (if response.keepAlive then ascii "keep-alive" else ascii "close") ≠
      ascii "close") = response.keepAlive := by
    cases response.keepAlive <;> decide
  have htype : response.fields.find? (named "content-type") =
      some (ascii "Content-Type", response.contentType) := rfl
  have hconnection : response.fields.find? (named "connection") = some (ascii "Connection",
      if response.keepAlive then ascii "keep-alive" else ascii "close") := rfl
  have hothers : ((response.fields.eraseP (named "content-length")).eraseP
      (named "content-type")).eraseP (named "connection") = response.extraHeaders := rfl
  unfold readFields
  simp only [hlength, readNat_decimal, Option.map_some, htype, hconnection, hothers,
    Option.getD_some, hkeep]
  rfl

/-- The head of a response is read back. -/
theorem readHead_lines (h : response.Clean)
    (hstrip : ∀ field ∈ response.fields, strip (32 :: field.2) = field.2) :
    readHead strip (response.statusLine :: response.fields.map fieldLine) =
      some (response.answer (ascii "HEAD")) := by
  have hcolon : ∀ field ∈ response.fields, 58 ∉ field.1 := fun field hin =>
    (h.field_oneLine field hin).2
  show (readStatus response.statusLine).bind _ = _
  rw [readStatus_statusLine, Option.bind_some, readFields_lines hcolon hstrip, Option.bind_some,
    readFields_fields h]

theorem lines_free (h : response.Clean) :
    ∀ line ∈ response.statusLine :: response.fields.map fieldLine,
      line ≠ [] ∧ find CRLF line = none := by
  intro line hin
  rcases List.mem_cons.mp hin with rfl | hin
  · have hspace : OneLine [32] := by decide
    have hblank : OneLine (32 :: statusMessage response.status) :=
      hspace.append (statusMessage_oneLine response.status)
    have hversion : OneLine (ascii "HTTP/1.1 ") := by decide
    refine ⟨?_, (hversion.append ((decimalInt_oneLine response.status).append hblank)).free⟩
    exact List.cons_ne_nil _ _
  · obtain ⟨field, hfield, rfl⟩ := List.mem_map.mp hin
    refine ⟨?_, ((h.field_oneLine field hfield).1).free⟩
    exact List.append_ne_nil_of_right_ne_nil _ (List.cons_ne_nil _ _)

/-- One response is read back, and what is behind it is left. -/
theorem read_wire (h : response.Clean)
    (hstrip : ∀ field ∈ response.fields, strip (32 :: field.2) = field.2)
    (method : Bytes) (methods : List Bytes) (rest : Bytes) :
    (client strip).read (method :: methods)
        (response.serialize (method = ascii "HEAD") ++ rest) =
      .item (response.answer method) methods rest := by
  have hread := readHead_lines h hstrip
  rw [HttpResponse.serialize_eq, List.append_assoc]
  by_cases hmethod : method = ascii "HEAD"
  · subst hmethod
    exact read_head (takeHead_blockText (lines_free h) _) hread methods
  · have hhead := takeHead_blockText (lines_free h) (response.body ++ rest)
    have hlength : (response.answer (ascii "HEAD")).length = response.body.length := rfl
    have hlong : (response.answer (ascii "HEAD")).length ≤ (response.body ++ rest).length := by
      rw [hlength, List.length_append]
      exact Nat.le_add_right _ _
    have hbody := read_body hhead hread hlong hmethod methods
    rw [hlength, List.take_left, List.drop_left] at hbody
    simp only [hmethod, decide_false, Bool.false_eq_true, if_false]
    refine hbody.trans ?_
    simp only [HttpResponse.answer, hmethod, if_false]

/-! ## A stream of responses -/

/-- Requests' methods and the responses to them, on the wire. -/
def wireOf (exchanges : List (Bytes × HttpResponse)) : Bytes :=
  exchanges.flatMap fun exchange => exchange.2.serialize (exchange.1 = ascii "HEAD")

/-- The responses are taken off the stream one by one, up to its end. -/
theorem takes_wire {exchanges : List (Bytes × HttpResponse)}
    (clean : ∀ exchange ∈ exchanges, exchange.2.Clean)
    (hstrip : ∀ exchange ∈ exchanges, ∀ field ∈ exchange.2.fields,
      strip (32 :: field.2) = field.2) (methods : List Bytes) (rest : Bytes) :
    (client strip).Takes (exchanges.map Prod.fst ++ methods) (wireOf exchanges ++ rest)
      (exchanges.map fun exchange => exchange.2.answer exchange.1) methods rest := by
  induction exchanges with
  | nil => exact .refl methods rest
  | cons exchange exchanges ih =>
    have hlater := ih (fun e he => clean e (List.mem_cons_of_mem exchange he))
      fun e he => hstrip e (List.mem_cons_of_mem exchange he)
    have hfirst := read_wire (clean exchange List.mem_cons_self)
      (hstrip exchange List.mem_cons_self) exchange.1 (exchanges.map Prod.fst ++ methods)
      (wireOf exchanges ++ rest)
    rw [← List.append_assoc] at hfirst
    exact .step hfirst hlater

/-- A client that has no request open leaves what it gets. -/
theorem drain_wire {exchanges : List (Bytes × HttpResponse)}
    (clean : ∀ exchange ∈ exchanges, exchange.2.Clean)
    (hstrip : ∀ exchange ∈ exchanges, ∀ field ∈ exchange.2.fields,
      strip (32 :: field.2) = field.2) :
    (client strip).drain (exchanges.map Prod.fst) (wireOf exchanges) =
      (exchanges.map fun exchange => exchange.2.answer exchange.1, .waiting [] []) := by
  have htakes := takes_wire clean hstrip [] []
  rw [List.append_nil, List.append_nil] at htakes
  have hidle : (client strip).read [] [] = .more [] [] := rfl
  rw [htakes.drain_eq, Reader.drain_more _ hidle, Reader.prepend, List.append_nil]

/-- What a client refuses it refuses whatever follows. -/
theorem read_fail {methods : List Bytes} {wire : Bytes}
    (h : read strip methods wire = .fail ()) (more : Bytes) :
    read strip methods (wire ++ more) = .fail () := by
  unfold read at h
  split at h
  · cases h
  · cases h
  next method later lines after hhead =>
    split at h
    next hfront => simp only [read, takeHead_append hhead more, hfront]
    next front hfront =>
      split at h
      · cases h
      · split at h <;> cases h

theorem read_nil (methods : List Bytes) : read strip methods [] = .more methods [] := by
  have hhead : takeHead [] = none := by
    rw [takeHead]
    rfl
  unfold read
  rw [hhead]
  cases methods <;> rfl

/-- The responses are read back in whatever pieces the stream arrives. -/
theorem feed_wire {exchanges : List (Bytes × HttpResponse)} {pieces : List Bytes}
    (clean : ∀ exchange ∈ exchanges, exchange.2.Clean)
    (hstrip : ∀ exchange ∈ exchanges, ∀ field ∈ exchange.2.fields,
      strip (32 :: field.2) = field.2) (whole : pieces.flatten = wireOf exchanges) :
    (client strip).feed (exchanges.map Prod.fst) [] pieces =
      (exchanges.map fun exchange => exchange.2.answer exchange.1, .waiting [] []) := by
  refine Reader.feed_eq_of_waiting _ (fun h more => read_fail h more) (read_nil _) ?_
  rw [List.nil_append, whole]
  exact drain_wire clean hstrip

/-- So are responses whose values have no blanks around them by a client that takes all
such blanks off. -/
theorem feed_wire_trim {exchanges : List (Bytes × HttpResponse)} {pieces : List Bytes}
    (clean : ∀ exchange ∈ exchanges, exchange.2.Clean)
    (trimmed : ∀ exchange ∈ exchanges, ∀ field ∈ exchange.2.fields, trim field.2 = field.2)
    (whole : pieces.flatten = wireOf exchanges) :
    (client trim).feed (exchanges.map Prod.fst) [] pieces =
      (exchanges.map fun exchange => exchange.2.answer exchange.1, .waiting [] []) := by
  refine feed_wire clean ?_ whole
  intro exchange hin field hfield
  rw [trim_blank_cons 32 field.2 rfl]
  exact trimmed exchange hin field hfield

end Client

end WebServer
