import WebServer.Laws.Http.Framing
import WebServer.Laws.Http.Retention

/-!
# Line feeds in a request

A line of a request ends at CRLF and nowhere else, and `trim` takes off blanks and
tabs only. A line feed of its own in the request line or behind the colon of a field
is then an octet like any other, and is kept. `Unbroken` says of the octets of a
request that there is none in the request line or in a `Host` field the parser comes
to; what the parser keeps of these two has a line feed exactly when the octets have
one there (`RequestParser.unsplit_iff`), whether the request is completed or refused.
-/

namespace WebServer

open Base

/-- The line feed. -/
def LF : UInt8 := 10

/-- The three parts of the request line, as a log shows them. -/
def HttpRequest.startLine (request : HttpRequest) : Bytes :=
  request.method ++ [32] ++ request.target ++ [32] ++ request.version

/-- What a log shows of a request has no line feed. -/
def HttpRequest.Unsplit (request : HttpRequest) : Prop :=
  LF ∉ request.startLine ∧ LF ∉ request.header (ascii "host")

/-! ## The lines of a request -/

/-- A text begins with a request line within the limit. -/
structure Opens (text line rest : Bytes) : Prop where
  text_eq : text = line ++ (CRLF ++ rest)
  free : find CRLF line = none
  short : line.length ≤ maxRequestLine

/-- The field lines in front of a text that are taken while the header block has so
much room: up to a line that is blank, that has no name, or that does not fit. -/
def fieldLines (room : Nat) (text : Bytes) : List Bytes :=
  match _h : find CRLF text with
  | none => []
  | some lineEnd =>
    if lineEnd + 2 ≤ room ∧ fieldOf (text.take lineEnd) ≠ none then
      text.take lineEnd :: fieldLines (room - (lineEnd + 2)) (text.drop (lineEnd + 2))
    else []
termination_by text.length
decreasing_by
  have hfits := find_fits CRLF_ne_nil _h
  simp only [CRLF, List.length_cons, List.length_nil, List.length_drop] at hfits ⊢
  omega

/-- No line feed stands in the request line, if that is cut in three by blanks, nor
behind the colon of a `Host` field of a request whose line is accepted. -/
structure Unbroken (text : Bytes) : Prop where
  requestLine : ∀ line rest, Opens text line rest → 2 ≤ line.count 32 → LF ∉ line
  host : ∀ line rest, Opens text line rest → (RequestParser.parseRequestLine {} line).1 = true →
    ∀ field ∈ fieldsOf (fieldLines maxHeaderBlock rest), field.1 = ascii "host" → LF ∉ field.2

theorem fieldLines_none {text : Bytes} (h : find CRLF text = none) (room : Nat) :
    fieldLines room text = [] := by
  rw [fieldLines]
  split <;> simp_all

theorem fieldLines_line {line : Bytes} (free : find CRLF line = none) (rest : Bytes) (room : Nat) :
    fieldLines room (line ++ (CRLF ++ rest)) =
      if line.length + 2 ≤ room ∧ fieldOf line ≠ none then
        line :: fieldLines (room - (line.length + 2)) rest
      else [] := by
  rw [fieldLines]
  split
  next hnone =>
    rw [RequestParser.find_crlf_line free] at hnone
    cases hnone
  next lineEnd hfound =>
    rw [RequestParser.find_crlf_line free] at hfound
    obtain rfl := Option.some.inj hfound
    rw [RequestParser.take_line, RequestParser.drop_line]

/-- A text opens in one way. -/
theorem Opens.unique {text line line' rest rest' : Bytes} (h : Opens text line rest)
    (h' : Opens text line' rest') : line = line' ∧ rest = rest' :=
  line_unique h.free h'.free (h.text_eq.symm.trans h'.text_eq)

namespace RequestParser

/-! ## The request line -/

/-- The three parts are the line, or it has no three parts and nothing is kept. -/
theorem startLine_of_parseRequestLine {line : Bytes} {ok : Bool} {q : RequestParser}
    (h : ({} : RequestParser).parseRequestLine line = (ok, q)) :
    (line.count 32 < 2 ∧ ok = false ∧ q.req = {}) ∨
      (2 ≤ line.count 32 ∧ q.req.startLine = line) := by
  have hblank : ascii " " = [32] := rfl
  rw [parseRequestLine, hblank] at h
  cases hfirst : find [32] line with
  | none =>
    simp only [hfirst, Prod.mk.injEq] at h
    obtain ⟨rfl, rfl⟩ := h
    have hcount := List.count_eq_zero.mpr (find_single_eq_none.mp hfirst)
    exact .inl ⟨by omega, rfl, rfl⟩
  | some firstSpace =>
    obtain ⟨method, behind, rfl, rfl, hmethod⟩ := find_split (List.cons_ne_nil 32 []) hfirst
    have hnone := List.count_eq_zero.mpr (find_single_eq_none.mp hmethod)
    have hdrop : (method ++ [32] ++ behind).drop (method.length + 1) = behind :=
      List.drop_left' (by rw [List.length_append, List.length_singleton])
    have hcount : (method ++ [32] ++ behind).count 32 = behind.count 32 + 1 := by
      rw [List.count_append, List.count_append, hnone, List.count_singleton_self]
      omega
    simp only [hfirst, hdrop] at h
    cases hsecond : find [32] behind with
    | none =>
      simp only [hsecond, Prod.mk.injEq] at h
      obtain ⟨rfl, rfl⟩ := h
      have hzero := List.count_eq_zero.mpr (find_single_eq_none.mp hsecond)
      exact .inl ⟨by omega, rfl, rfl⟩
    | some gap =>
      obtain ⟨target, version, rfl, rfl, -⟩ := find_split (List.cons_ne_nil 32 []) hsecond
      have htwo : 2 ≤ (method ++ [32] ++ (target ++ [32] ++ version)).count 32 := by
        rw [hcount, List.count_append, List.count_append, List.count_singleton_self]
        omega
      have hmethod : (method ++ [32] ++ (target ++ [32] ++ version)).take method.length = method := by
        rw [List.append_assoc]
        exact List.take_left
      have htarget : (target ++ [32] ++ version).take
          (method.length + 1 + target.length - method.length - 1) = target := by
        rw [List.append_assoc, List.take_left' (by omega)]
      have hversion : (method ++ [32] ++ (target ++ [32] ++ version)).drop
          (method.length + 1 + target.length + 1) = version := by
        rw [Nat.add_assoc, ← List.drop_drop, hdrop]
        exact List.drop_left' (by rw [List.length_append, List.length_singleton])
      simp only [hsecond, hmethod, htarget, hversion] at h
      have hline : q.req.startLine = method ++ [32] ++ target ++ [32] ++ version := by
        split at h
        · cases h
          rfl
        · split at h
          · cases h
            rfl
          · split at h <;>
            · cases h
              rfl
      refine .inr ⟨htwo, ?_⟩
      rw [hline]
      simp only [List.append_assoc]

/-! ## The header block -/

theorem applyConnection_startLine (req : HttpRequest) :
    (applyConnection req).startLine = req.startLine := by
  unfold applyConnection
  dsimp only
  split
  · rfl
  · split <;> rfl

/-- A round that returns has come to no field line, and leaves the request as it was. -/
theorem fieldLines_of_ret {p q : RequestParser} {buffer rest : Bytes} {result : Result}
    (hs : p.state = .Headers) (h : p.turn buffer = .ret result q rest) :
    fieldLines (maxHeaderBlock - p.headerBytes) buffer = [] ∧ q.req = p.req := by
  simp only [turn, hs] at h
  rcases crlf_cases buffer with free | ⟨line, tail, free, rfl⟩
  · refine ⟨fieldLines_none free _, ?_⟩
    simp only [turnHeaders, free] at h
    split at h <;>
    · cases h
      rfl
  · rw [fieldLines_line free]
    rw [turnHeaders_line p free] at h
    split at h
    next long =>
      cases h
      have hover : ¬ line.length + 2 ≤ maxHeaderBlock - p.headerBytes := by
        simp only [countLine] at long
        omega
      exact ⟨if_neg fun htaken => hover htaken.1, rfl⟩
    next fits =>
      split at h
      next blank =>
        subst blank
        refine ⟨if_neg fun htaken => htaken.2 rfl, ?_⟩
        split at h
        next q' finished =>
          cases h
          cases finished_of_finishHeaders finished with
          | encoded | unreadable | tooLong => rfl
        next => cases h
      next =>
        rw [turnField_eq] at h
        cases hfield : fieldOf line with
        | none =>
          rw [hfield] at h
          cases h
          exact ⟨if_neg fun htaken => htaken.2 rfl, rfl⟩
        | some field =>
          rw [hfield] at h
          cases h

/-- What the parser keeps of the request line and of the fields, from behind the
request line on: the one stays, and of the others it has the lines it came to. -/
theorem parse_fieldLines {p q : RequestParser} {buffer rest : Bytes} {result : Result}
    (h : p.parse buffer = (result, q, rest)) (hs : p.state = .Headers)
    (hempty : p.req.body = []) (hmore : result ≠ .NeedMore) :
    q.req.startLine = p.req.startLine ∧ q.req.headers =
      (p.addLines (fieldLines (maxHeaderBlock - p.headerBytes) buffer)).req.headers := by
  fun_induction parse p buffer with
  | case1 p buffer p₁ tail ht ih =>
    cases turn_round ht with
    | line state | body state =>
      rw [hs] at state
      cases state
    | @headers _ q₀ _ split fits finished =>
      have hlines : fieldLines (maxHeaderBlock - p.headerBytes) buffer = [] := by
        rw [split, ← List.nil_append (CRLF ++ tail), fieldLines_line (by decide)]
        exact if_neg fun htaken => htaken.2 rfl
      have hreq := (finishHeaders_true finished).2
      have hbody : q₀.req.body = [] := by
        rw [hreq, applyConnection_body]
        exact hempty
      rw [parse_announced hbody] at h
      split at h
      · cases h
        exact absurd rfl hmore
      · cases h
        rw [hlines]
        constructor
        · show q₀.req.startLine = _
          rw [hreq]
          exact applyConnection_startLine _
        · show q₀.req.headers = _
          rw [hreq]
          exact applyConnection_headers _
    | @field line _ colon _ split free fits found name =>
      obtain ⟨hline, hheaders⟩ := ih h hs hempty
      refine ⟨hline, ?_⟩
      have hfield := fieldOf_of_find found name
      have hroom : line.length + 2 ≤ maxHeaderBlock - p.headerBytes ∧ fieldOf line ≠ none := by
        simp only [countLine] at fits
        exact ⟨by omega, by rw [hfield]; exact Option.some_ne_none _⟩
      rw [split, fieldLines_line free, if_pos hroom, addLines, hfield, hheaders]
      have hleft : maxHeaderBlock - p.headerBytes - (line.length + 2) =
          maxHeaderBlock - (p.countLine line).headerBytes := by
        simp only [countLine]
        omega
      rw [hleft]
      rfl
  | case2 p buffer result₁ p₁ tail ht =>
    cases h
    obtain ⟨hlines, hreq⟩ := fieldLines_of_ret hs ht
    rw [hlines, hreq]
    exact ⟨rfl, rfl⟩

/-! ## What is kept of both -/

/-- Nothing but the separators comes between joined values. -/
theorem mem_joinValues {c : UInt8} (hc : c ∉ ascii ", ") (values : List Bytes) :
    c ∈ (joinValues values).getD [] ↔ ∃ value ∈ values, c ∈ value := by
  cases values with
  | nil => simp [joinValues]
  | cons value values =>
    rw [joinValues, Option.getD_some]
    induction values generalizing value with
    | nil => simp
    | cons next values ih =>
      rw [List.intercalate_cons_cons, List.mem_append, List.mem_append, ih]
      simp only [List.exists_mem_cons_iff, hc, or_false]

/-- What stands under a name has the octets that the values of the name have. -/
theorem mem_header_addLines {p : RequestParser} (hempty : p.req.headers = ∅) {c : UInt8}
    (hc : c ∉ ascii ", ") (lines : List Bytes) {name : Bytes} (hlower : toLower name = name) :
    c ∈ (p.addLines lines).req.header name ↔
      ∃ field ∈ fieldsOf lines, field.1 = name ∧ c ∈ field.2 := by
  rw [header_addLines hempty lines hlower, combined, mem_joinValues hc]
  simp only [List.mem_map, List.mem_filter, decide_eq_true_eq]
  constructor
  · rintro ⟨value, ⟨field, ⟨hin, hname⟩, rfl⟩, hmem⟩
    exact ⟨field, hin, hname, hmem⟩
  · rintro ⟨field, hin, hname, hmem⟩
    exact ⟨field.2, ⟨field, ⟨hin, hname⟩, rfl⟩, hmem⟩

theorem unsplit_fresh : HttpRequest.Unsplit {} := ⟨by decide, by decide⟩

/-- Without a request line within the limit there is nothing to be broken. -/
theorem unbroken_of_not_opens {text : Bytes} (h : ∀ line rest, ¬ Opens text line rest) :
    Unbroken text where
  requestLine line rest hopens := absurd hopens (h line rest)
  host line rest hopens := absurd hopens (h line rest)

theorem unbroken_iff {text line rest : Bytes} (hopens : Opens text line rest) :
    Unbroken text ↔ (2 ≤ line.count 32 → LF ∉ line) ∧
      ((parseRequestLine {} line).1 = true →
        ∀ field ∈ fieldsOf (fieldLines maxHeaderBlock rest),
          field.1 = ascii "host" → LF ∉ field.2) := by
  constructor
  · intro h
    exact ⟨h.requestLine line rest hopens, h.host line rest hopens⟩
  · intro ⟨hline, hhost⟩
    constructor
    · intro line' rest' hopens'
      obtain ⟨rfl, rfl⟩ := hopens.unique hopens'
      exact hline
    · intro line' rest' hopens'
      obtain ⟨rfl, rfl⟩ := hopens.unique hopens'
      exact hhost

/-- A text without a line end: it is too long, or more is asked for. -/
theorem unsplit_iff_of_free {text rest : Bytes} {result : Result} {q : RequestParser}
    (free : find CRLF text = none) (h : ({} : RequestParser).parse text = (result, q, rest))
    (hmore : result ≠ .NeedMore) : q.req.Unsplit ↔ Unbroken text := by
  have hturn : ({} : RequestParser).turn text =
      if text.length > maxRequestLine then .ret .Error { error := 414 } text
      else .ret .NeedMore {} text := by
    simp only [turn, turnRequestLine, free]
  have hnot : ∀ line rest, ¬ Opens text line rest := by
    intro line rest hopens
    rw [hopens.text_eq, find_crlf_line hopens.free] at free
    cases free
  split at hturn
  · rw [parse_ret hturn] at h
    cases h
    exact iff_of_true unsplit_fresh (unbroken_of_not_opens hnot)
  · rw [parse_ret hturn] at h
    cases h
    exact absurd rfl hmore

/-- A text whose first line is no request line. -/
theorem unsplit_iff_of_refused {line tail : Bytes} {p : RequestParser}
    (hopens : Opens (line ++ (CRLF ++ tail)) line tail)
    (hline : ({} : RequestParser).parseRequestLine line = (false, p)) :
    p.req.Unsplit ↔ Unbroken (line ++ (CRLF ++ tail)) := by
  rw [unbroken_iff hopens, hline]
  rcases startLine_of_parseRequestLine hline with ⟨hfew, -, hreq⟩ | ⟨htwo, hstart⟩
  · rw [hreq]
    exact iff_of_true unsplit_fresh ⟨fun htwo => absurd hfew (by omega), Bool.noConfusion⟩
  · have hhost : p.req.header (ascii "host") = [] := by
      rw [HttpRequest.header, (parseRequestLine_fresh hline).1, AList.lookup_empty]
      rfl
    rw [HttpRequest.Unsplit, hstart, hhost]
    constructor
    · exact fun hkept => ⟨fun _ => hkept.1, Bool.noConfusion⟩
    · exact fun hunbroken => ⟨hunbroken.1 htwo, List.not_mem_nil⟩

/-- A text whose first line is a request line. -/
theorem unsplit_iff_of_accepted {line tail rest : Bytes} {result : Result} {p q : RequestParser}
    (hopens : Opens (line ++ (CRLF ++ tail)) line tail)
    (hline : ({} : RequestParser).parseRequestLine line = (true, p))
    (h : ({} : RequestParser).parse (line ++ (CRLF ++ tail)) = (result, q, rest))
    (hmore : result ≠ .NeedMore) : q.req.Unsplit ↔ Unbroken (line ++ (CRLF ++ tail)) := by
  obtain ⟨hheaders, -, hbytes, hempty⟩ := parseRequestLine_fresh hline
  have htwo : 2 ≤ line.count 32 ∧ p.req.startLine = line := by
    rcases startLine_of_parseRequestLine hline with ⟨-, hok, -⟩ | htwo
    · cases hok
    · exact htwo
  rw [parse_requestLine hopens.free hopens.short hline] at h
  obtain ⟨hstart, htable⟩ := parse_fieldLines h rfl hempty hmore
  have hroom : maxHeaderBlock - ({ p with state := .Headers } : RequestParser).headerBytes =
      maxHeaderBlock := by
    show maxHeaderBlock - p.headerBytes = maxHeaderBlock
    rw [hbytes, Nat.sub_zero]
  have hhost : q.req.header (ascii "host") =
      (({ p with state := .Headers } : RequestParser).addLines
        (fieldLines maxHeaderBlock tail)).req.header (ascii "host") := by
    rw [HttpRequest.header, HttpRequest.header, htable, hroom]
  have hlower : toLower (ascii "host") = ascii "host" := by decide
  have hmem := mem_header_addLines (p := { p with state := .Headers }) hheaders
    (c := LF) (by decide) (fieldLines maxHeaderBlock tail) hlower
  rw [unbroken_iff hopens, HttpRequest.Unsplit, hstart, hhost, hmem, hline]
  show LF ∉ p.req.startLine ∧ _ ↔ _
  rw [htwo.2]
  constructor
  · rintro ⟨hkept, hnone⟩
    exact ⟨fun _ => hkept, fun _ field hin hname hfeed => hnone ⟨field, hin, hname, hfeed⟩⟩
  · rintro ⟨hkept, hnone⟩
    refine ⟨hkept htwo.1, ?_⟩
    rintro ⟨field, hin, hname, hfeed⟩
    exact hnone rfl field hin hname hfeed

/-- The parser has kept no line feed exactly if there is none among the octets that
it has taken for its request line or for a `Host` field. -/
theorem unsplit_iff {text rest : Bytes} {result : Result} {q : RequestParser}
    (h : ({} : RequestParser).parse text = (result, q, rest)) (hmore : result ≠ .NeedMore) :
    q.req.Unsplit ↔ Unbroken text := by
  rcases crlf_cases text with free | ⟨line, tail, free, rfl⟩
  · exact unsplit_iff_of_free free h hmore
  · have hround : ({} : RequestParser).turn (line ++ (CRLF ++ tail)) = _ :=
      turnRequestLine_line {} free tail
    by_cases long : line.length > maxRequestLine
    · rw [if_pos long] at hround
      have hnot : ∀ line' rest', ¬ Opens (line ++ (CRLF ++ tail)) line' rest' := by
        intro line' rest' hopens
        obtain ⟨rfl, -⟩ := line_unique free hopens.free hopens.text_eq
        exact absurd hopens.short (Nat.not_le_of_lt long)
      rw [parse_ret hround] at h
      cases h
      exact iff_of_true unsplit_fresh (unbroken_of_not_opens hnot)
    · have hopens : Opens (line ++ (CRLF ++ tail)) line tail := ⟨rfl, free, Nat.le_of_not_lt long⟩
      rcases hline : ({} : RequestParser).parseRequestLine line with ⟨_ | _, p⟩
      · rw [if_neg long, hline] at hround
        rw [parse_ret hround] at h
        cases h
        exact unsplit_iff_of_refused hopens hline
      · exact unsplit_iff_of_accepted hopens hline h hmore

end RequestParser

end WebServer
