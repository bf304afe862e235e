import WebServer.Laws.Http.Parse

/-!
# The requests the parser accepts, as a grammar

`WireRequest wire request` says, without running `parse`, that the octets
`wire` are one complete request and `request` is what it means: a request
line within the limit, a block of field lines within theirs, a blank line,
and a body of the announced length. What a single line means is the code's
own `parseRequestLine`, `fieldOf` and `finishHeaders`; the grammar is about
where the lines and the body begin and end.

The two directions are `parse_of_wireRequest` and `wireRequest_of_parse`: a
fresh parser completes a request exactly when the buffer begins with one,
and it leaves exactly what follows it.
-/

namespace WebServer

open Base

/-- The name and value a field line carries, if it has a colon behind a
name. -/
def fieldOf (line : Bytes) : Option (Bytes × Bytes) :=
  match find (ascii ":") line with
  | none | some 0 => none
  | some colon => some (toLower (trim (line.take colon)), trim (line.drop (colon + 1)))

namespace RequestParser

/-- The parser after a field line was consumed. -/
def addField (p : RequestParser) (line : Bytes) (field : Bytes × Bytes) : RequestParser :=
  { p.countLine line with
    req := { p.req with headers := addHeader p.req.headers field.1 field.2 } }

/-- A field line, seen through the name and value it carries. -/
theorem turnField_eq (p : RequestParser) (line rest : Bytes) :
    p.turnField line rest =
      match fieldOf line with
      | none => .ret .Error { p with error := 400 } rest
      | some field =>
        .again { p with req := { p.req with headers := addHeader p.req.headers field.1 field.2 } }
          rest := by
  rcases hf : find (ascii ":") line with _ | _ | colon <;> simp only [turnField, fieldOf, hf]

/-- A header block, its blank line included, read from one parser state to
another. -/
inductive HeaderBlock : RequestParser → Bytes → RequestParser → Prop where
  | blank {p q : RequestParser} :
      (p.countLine []).headerBytes ≤ maxHeaderBlock →
      (p.countLine []).finishHeaders = (true, q) → HeaderBlock p CRLF q
  | field {p q : RequestParser} {line block : Bytes} {f : Bytes × Bytes} :
      line ≠ [] → find CRLF line = none →
      (p.countLine line).headerBytes ≤ maxHeaderBlock → fieldOf line = some f →
      HeaderBlock (p.addField line f) block q → HeaderBlock p (line ++ (CRLF ++ block)) q

end RequestParser

/-- One complete request on the wire, and its meaning. -/
inductive WireRequest : Bytes → HttpRequest → Prop where
  | mk {line block body : Bytes} {p q : RequestParser} :
      find CRLF line = none → line.length ≤ maxRequestLine →
      RequestParser.parseRequestLine {} line = (true, p) →
      RequestParser.HeaderBlock { p with state := .Headers } block q →
      body.length = q.contentLength →
      WireRequest (line ++ (CRLF ++ (block ++ body))) { q.req with body }

namespace RequestParser

/-! ## What the line functions leave alone -/

theorem parseRequestLine_rest {p q : RequestParser} {line : Bytes} {ok : Bool}
    (h : p.parseRequestLine line = (ok, q)) :
    q.state = p.state ∧ q.contentLength = p.contentLength ∧ q.headerBytes = p.headerBytes ∧
      q.req.body = p.req.body ∧ q.req.headers = p.req.headers := by
  unfold parseRequestLine at h
  split at h
  · cases h; exact ⟨rfl, rfl, rfl, rfl, rfl⟩
  · split at h
    · cases h; exact ⟨rfl, rfl, rfl, rfl, rfl⟩
    · dsimp only at h
      split at h
      · cases h; exact ⟨rfl, rfl, rfl, rfl, rfl⟩
      · split at h
        · cases h; exact ⟨rfl, rfl, rfl, rfl, rfl⟩
        · split at h <;> (cases h; exact ⟨rfl, rfl, rfl, rfl, rfl⟩)

@[simp] theorem applyConnection_body (req : HttpRequest) :
    (applyConnection req).body = req.body := by
  unfold applyConnection
  dsimp only
  split
  · rfl
  · split <;> rfl

/-- What `finishHeaders` does, with what it found in the table. -/
inductive Finished (p : RequestParser) : Bool × RequestParser → Prop where
  | encoded (transfer : p.req.header (ascii "transfer-encoding") ≠ []) :
      Finished p (false, { p with error := 501 })
  | unannounced (transfer : p.req.header (ascii "transfer-encoding") = [])
      (length : p.req.header (ascii "content-length") = []) :
      Finished p (true, { p with req := applyConnection p.req })
  | unreadable (length : p.req.header (ascii "content-length") ≠ []) :
      Finished p (false, { p with error := 400 })
  | tooLong (length : p.req.header (ascii "content-length") ≠ []) :
      Finished p (false, { p with error := 413 })
  | announced {parsed : Int} (transfer : p.req.header (ascii "transfer-encoding") = [])
      (length : p.req.header (ascii "content-length") ≠ [])
      (read : strtoll (cString (p.req.header (ascii "content-length"))) = some (parsed, []))
      (natural : 0 ≤ parsed) (fits : parsed.toNat ≤ maxBody) :
      Finished p
        (true, { p with contentLength := parsed.toNat, req := applyConnection p.req })

theorem finished_of_finishHeaders {p : RequestParser} {r : Bool × RequestParser}
    (h : p.finishHeaders = r) : Finished p r := by
  subst h
  unfold finishHeaders
  split
  case isTrue transfer => exact .encoded transfer
  case isFalse transfer =>
    have transfer := not_not.mp transfer
    dsimp only
    split
    case isTrue length => exact .unannounced transfer length
    case isFalse length =>
      split
      case h_1 => exact .unreadable length
      case h_2 parsed rest read =>
        split
        case isTrue => exact .unreadable length
        case isFalse whole =>
          rw [not_or, not_not, Int.not_lt] at whole
          split
          case isTrue => exact .tooLong length
          case isFalse fits =>
            rw [whole.1] at read
            exact .announced transfer length read whole.2 (Nat.le_of_not_lt fits)

theorem finishHeaders_true {p q : RequestParser} (h : p.finishHeaders = (true, q)) :
    q.state = p.state ∧ q.req = applyConnection p.req := by
  cases finished_of_finishHeaders h with
  | unannounced | announced => exact ⟨rfl, rfl⟩

theorem HeaderBlock.keeps {p q : RequestParser} {block : Bytes} (h : HeaderBlock p block q) :
    q.state = p.state ∧ q.req.body = p.req.body := by
  induction h with
  | blank _ hfin =>
    obtain ⟨hs, hreq⟩ := finishHeaders_true hfin
    exact ⟨hs, by rw [hreq, applyConnection_body]; rfl⟩
  | field _ _ _ _ _ ih => exact ih

/-! ## From the grammar to the parser -/

/-- The parser after the body was taken. -/
def finish (q : RequestParser) (body : Bytes) : RequestParser :=
  { q with req := { q.req with body }, state := .Done }

/-- A parser that has read a header block takes the body and completes. -/
theorem parse_body {q : RequestParser} {body : Bytes} (hbody : body.length = q.contentLength)
    (hempty : q.req.body = []) (rest : Bytes) :
    ({ q with state := if q.contentLength > 0 then .Body else .Done } : RequestParser).parse
      (body ++ rest) = (.Complete, q.finish body, rest) := by
  by_cases hpos : q.contentLength > 0
  · have hturn : ({ q with state := .Body } : RequestParser).turn (body ++ rest) =
        .again (q.finish body) rest := by
      have hlong : ¬ (body ++ rest).length < q.contentLength := by
        simp only [List.length_append]
        omega
      simp only [turn, turnBody, if_neg hlong]
      rw [List.take_left' hbody, List.drop_left' hbody]
      rfl
    simp only [if_pos hpos]
    rw [parse_again hturn]
    exact parse_ret rfl
  · have hnil : body = [] := List.length_eq_zero_iff.mp (by omega)
    subst hnil
    simp only [if_neg hpos]
    have hdone : ({ q with state := .Done } : RequestParser).turn rest =
        .ret .Complete { q with state := .Done } rest := rfl
    rw [List.nil_append, parse_ret hdone]
    simp only [finish, ← hempty]

/-- Behind a header block, the parser waits for the body that was announced, or
takes it and completes. -/
theorem parse_announced {q : RequestParser} (hempty : q.req.body = []) (rest : Bytes) :
    ({ q with state := if q.contentLength > 0 then .Body else .Done } : RequestParser).parse rest =
      if rest.length < q.contentLength then (.NeedMore, { q with state := .Body }, rest)
      else (.Complete, q.finish (rest.take q.contentLength), rest.drop q.contentLength) := by
  by_cases hshort : rest.length < q.contentLength
  · have hpos : q.contentLength > 0 := by omega
    have hstop : ({ q with state := .Body } : RequestParser).turn rest =
        .ret .NeedMore { q with state := .Body } rest := by
      simp only [turn, turnBody, if_pos hshort]
    rw [if_pos hshort, if_pos hpos]
    exact parse_ret hstop
  · have hlen : (rest.take q.contentLength).length = q.contentLength := by
      rw [List.length_take]
      omega
    rw [if_neg hshort]
    have hbody := parse_body hlen hempty (rest.drop q.contentLength)
    rw [List.take_append_drop] at hbody
    exact hbody

/-- A header block is read up to its end. -/
theorem HeaderBlock.parse_block {p q : RequestParser} {block : Bytes}
    (h : HeaderBlock p block q) (hs : p.state = .Headers) (rest : Bytes) :
    p.parse (block ++ rest) =
      ({ q with state := if q.contentLength > 0 then .Body else .Done } : RequestParser).parse
        rest := by
  induction h with
  | @blank p q hle hfin =>
    have hturn : p.turn (CRLF ++ rest) =
        .again { q with state := if q.contentLength > 0 then .Body else .Done } rest := by
      simp only [turn, hs]
      rw [← List.nil_append (CRLF ++ _), turnHeaders_line p (by decide),
        if_neg (Nat.not_lt.mpr hle), if_pos rfl, hfin]
    exact parse_again hturn
  | @field p q line block f hne hfree hle hfield _ ih =>
    have hturn : p.turn (line ++ (CRLF ++ block) ++ rest) =
        .again (p.addField line f) (block ++ rest) := by
      simp only [turn, hs]
      rw [append_line, turnHeaders_line p hfree, if_neg (Nat.not_lt.mpr hle), if_neg hne,
        turnField_eq, hfield]
      rfl
    rw [parse_again hturn]
    exact ih hs

/-- A header block in front of a body and a rest is read to the end of the
body. -/
theorem HeaderBlock.parse_eq {p q : RequestParser} {block body : Bytes}
    (h : HeaderBlock p block q) (hs : p.state = .Headers) (hempty : p.req.body = [])
    (hbody : body.length = q.contentLength) (rest : Bytes) :
    p.parse (block ++ (body ++ rest)) = (.Complete, q.finish body, rest) := by
  rw [h.parse_block hs]
  exact parse_body hbody (h.keeps.2.trans hempty) rest

/-- A request line in front of the rest is judged by itself. -/
theorem parse_requestLine {line : Bytes} (hfree : find CRLF line = none)
    (hlen : line.length ≤ maxRequestLine) {p : RequestParser}
    (hline : ({} : RequestParser).parseRequestLine line = (true, p)) (rest : Bytes) :
    ({} : RequestParser).parse (line ++ (CRLF ++ rest)) =
      ({ p with state := .Headers } : RequestParser).parse rest := by
  have hturn : ({} : RequestParser).turn (line ++ (CRLF ++ rest)) =
      .again { p with state := .Headers } rest := by
    simp only [turn]
    rw [turnRequestLine_line _ hfree, if_neg (Nat.not_lt.mpr hlen), hline]
  exact parse_again hturn

/-- A fresh parser completes a request that stands on the wire, and leaves
what follows it. -/
theorem parse_of_wireRequest {wire : Bytes} {request : HttpRequest}
    (h : WireRequest wire request) (rest : Bytes) :
    ∃ p, ({} : RequestParser).parse (wire ++ rest) = (.Complete, p, rest) ∧ p.req = request := by
  obtain ⟨hfree, hlen, hline, hblock, hbody⟩ := h
  rename_i line block body p q
  obtain ⟨_, _, _, hempty, _⟩ := parseRequestLine_rest hline
  refine ⟨q.finish body, ?_, rfl⟩
  rw [append_line, List.append_assoc, parse_requestLine hfree hlen hline]
  exact hblock.parse_eq rfl hempty hbody rest

/-! ## From the parser to the grammar -/

theorem fieldOf_of_find {line : Bytes} {colon : Nat} (found : find (ascii ":") line = some colon)
    (name : colon ≠ 0) :
    fieldOf line = some (toLower (trim (line.take colon)), trim (line.drop (colon + 1))) := by
  cases colon with
  | zero => exact absurd rfl name
  | succ colon => simp only [fieldOf, found]

/-- A line with a colon in it is not blank. -/
theorem ne_nil_of_find {line : Bytes} {colon : Nat} (found : find (ascii ":") line = some colon) :
    line ≠ [] := by
  intro hnil
  have hfits := find_fits (by decide) found
  rw [hnil] at hfits
  cases hfits

/-- What a parser that completed from behind the request line has read. -/
theorem headerBlock_of_parse {p p' : RequestParser} {buffer rest : Bytes}
    (h : p.parse buffer = (.Complete, p', rest)) (hs : p.state = .Headers)
    (hempty : p.req.body = []) :
    ∃ block body q, buffer = block ++ (body ++ rest) ∧ HeaderBlock p block q ∧
      body.length = q.contentLength ∧ p' = q.finish body := by
  fun_induction parse p buffer with
  | case1 p buffer p₁ tail ht ih =>
    cases turn_round ht with
    | line state | body state =>
      rw [hs] at state
      cases state
    | @headers _ q _ split fits finished =>
      have hblock : HeaderBlock p CRLF q := .blank fits finished
      have hq : q.req.body = [] := hblock.keeps.2.trans hempty
      rw [parse_announced hq] at h
      -- The body is what is announced, or the buffer was too short.
      split at h
      · cases h
      next hlong =>
        cases h
        refine ⟨CRLF, tail.take q.contentLength, q, ?_, hblock, ?_, rfl⟩
        · rw [List.take_append_drop, split]
        · rw [List.length_take]
          omega
    | @field line _ colon _ split free fits found name =>
      obtain ⟨block, body, q, htail, hblock, hlen, hq⟩ := ih h hs hempty
      refine ⟨line ++ (CRLF ++ block), body, q, ?_, ?_, hlen, hq⟩
      · rw [append_line, split, htail]
      · exact .field (ne_nil_of_find found) free fits (fieldOf_of_find found name) hblock
  | case2 p buffer result p₁ tail ht =>
    cases h
    cases turn_round ht with
    | done state =>
      rw [hs] at state
      cases state

/-- What a fresh parser completes stands on the wire. -/
theorem wireRequest_of_parse {p' : RequestParser} {buffer rest : Bytes}
    (h : ({} : RequestParser).parse buffer = (.Complete, p', rest)) :
    ∃ wire, buffer = wire ++ rest ∧ WireRequest wire p'.req := by
  cases ht : ({} : RequestParser).turn buffer with
  | again p tail =>
    rw [parse_again ht] at h
    cases turn_round ht with
    | @line line _ q _ split free fits parsed =>
      obtain ⟨_, _, _, hempty, _⟩ := parseRequestLine_rest parsed
      obtain ⟨block, body, q', htail, hblock, hlen, hq⟩ := headerBlock_of_parse h rfl hempty
      refine ⟨line ++ (CRLF ++ (block ++ body)), ?_, ?_⟩
      · rw [append_line, List.append_assoc, split, htail]
      · rw [hq]
        exact .mk free fits parsed hblock hlen
    | headers state | field state | body state => cases state
  | ret result p tail =>
    rw [parse_ret ht] at h
    cases h
    cases turn_round ht with
    | done state => cases state

end RequestParser

end WebServer
