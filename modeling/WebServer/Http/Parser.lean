import WebServer.Http.Request

/-!
# The incremental request parser

`RequestParser` of `include/http.h` and `src/http.cpp`. `parse` is a
`while (true)` around a `switch` on the state; one round of that loop is
`turn`, which either goes round again or returns. Whatever a round consumes
is gone from the front of the buffer, and everything else lives in the
parser between two calls.

The loop ends because a round that goes on has consumed octets, or has left
the body state (`turn_again_weight`).
-/

namespace WebServer

open Base

def maxRequestLine : Nat := 8 * 1024
def maxHeaderBlock : Nat := 16 * 1024
def maxBody : Nat := 1024 * 1024

/-- `RequestParser::Result`. -/
inductive Result where
  | NeedMore | Complete | Error
  deriving DecidableEq

/-- `RequestParser::State`. -/
inductive State where
  | RequestLine | Headers | Body | Done
  deriving DecidableEq

structure RequestParser where
  state : State := .RequestLine
  req : HttpRequest := {}
  contentLength : Nat := 0
  headerBytes : Nat := 0
  error : Nat := 400
  deriving DecidableEq

/-- What one round of the loop does: go round again, or return. -/
inductive Turn where
  | again (parser : RequestParser) (buffer : Bytes)
  | ret (result : Result) (parser : RequestParser) (buffer : Bytes)

namespace RequestParser

/-- `RequestParser::reset`. Every field goes back to its initial value. -/
def reset (_ : RequestParser) : RequestParser := {}

/-- `RequestParser::parseRequestLine`. The fields of the request are set
before they are judged, so a refused line leaves them behind. -/
def parseRequestLine (p : RequestParser) (line : Bytes) : Bool × RequestParser :=
  match find (ascii " ") line with
  | none => (false, { p with error := 400 })
  | some firstSpace =>
    match find (ascii " ") (line.drop (firstSpace + 1)) with
    | none => (false, { p with error := 400 })
    | some gap =>
      -- `find` with a start position answers an absolute position.
      let secondSpace := firstSpace + 1 + gap
      let method := line.take firstSpace
      let target := (line.drop (firstSpace + 1)).take (secondSpace - firstSpace - 1)
      let version := line.drop (secondSpace + 1)
      let req := { p.req with method, target, version }
      if method = [] ∨ target = [] ∨ target.head? ≠ some 47 then
        (false, { p with req, error := 400 })
      else if version ≠ ascii "HTTP/1.1" ∧ version ≠ ascii "HTTP/1.0" then
        (false, { p with req, error := 505 })
      else
        let req := match find (ascii "?") target with
          | none => { req with path := target }
          | some queryStart =>
            { req with path := target.take queryStart, query := target.drop (queryStart + 1) }
        (true, { p with req := { req with keepAlive := version = ascii "HTTP/1.1" } })

/-- The `Connection` header's say over persistence, in `finishHeaders`. -/
def applyConnection (req : HttpRequest) : HttpRequest :=
  let connectionHeader := toLower (req.header (ascii "connection"))
  if (find (ascii "close") connectionHeader).isSome then { req with keepAlive := false }
  else if (find (ascii "keep-alive") connectionHeader).isSome then { req with keepAlive := true }
  else req

/-- `RequestParser::finishHeaders`. The length is read with `strtoll` on
`c_str()`, so an embedded NUL ends it and leading white space and a sign are
taken. -/
def finishHeaders (p : RequestParser) : Bool × RequestParser :=
  if p.req.header (ascii "transfer-encoding") ≠ [] then (false, { p with error := 501 })
  else
    let lengthHeader := p.req.header (ascii "content-length")
    if lengthHeader = [] then (true, { p with req := applyConnection p.req })
    else
      match strtoll (cString lengthHeader) with
      | none => (false, { p with error := 400 })
      | some (parsed, rest) =>
        if rest ≠ [] ∨ parsed < 0 then (false, { p with error := 400 })
        else if parsed.toNat > maxBody then (false, { p with error := 413 })
        else (true, { p with contentLength := parsed.toNat, req := applyConnection p.req })

/-- `headers.emplace(name, value)`, or the value joined to the one that is
already there. -/
def addHeader (headers : Headers) (name value : Bytes) : Headers :=
  match headers.lookup name with
  | none => headers.insert name value
  | some old => headers.insert name (old ++ ascii ", " ++ value)

/-- `case State::RequestLine`. -/
def turnRequestLine (p : RequestParser) (buffer : Bytes) : Turn :=
  match find CRLF buffer with
  | none =>
    if buffer.length > maxRequestLine then .ret .Error { p with error := 414 } buffer
    else .ret .NeedMore p buffer
  | some lineEnd =>
    if lineEnd > maxRequestLine then .ret .Error { p with error := 414 } buffer
    else
      let line := buffer.take lineEnd
      let buffer := buffer.drop (lineEnd + 2)
      match p.parseRequestLine line with
      | (false, p) => .ret .Error p buffer
      | (true, p) => .again { p with state := .Headers } buffer

/-- A header line that is not blank, in `case State::Headers`. -/
def turnField (p : RequestParser) (line buffer : Bytes) : Turn :=
  match find (ascii ":") line with
  | none | some 0 => .ret .Error { p with error := 400 } buffer
  | some colon =>
    let name := toLower (trim (line.take colon))
    let value := trim (line.drop (colon + 1))
    .again { p with req := { p.req with headers := addHeader p.req.headers name value } } buffer

/-- `case State::Headers`. -/
def turnHeaders (p : RequestParser) (buffer : Bytes) : Turn :=
  match find CRLF buffer with
  | none =>
    if buffer.length + p.headerBytes > maxHeaderBlock then
      .ret .Error { p with error := 431 } buffer
    else .ret .NeedMore p buffer
  | some lineEnd =>
    let line := buffer.take lineEnd
    let buffer := buffer.drop (lineEnd + 2)
    let p := { p with headerBytes := p.headerBytes + (lineEnd + 2) }
    if p.headerBytes > maxHeaderBlock then .ret .Error { p with error := 431 } buffer
    else if line = [] then
      match p.finishHeaders with
      | (false, p) => .ret .Error p buffer
      | (true, p) =>
        .again { p with state := if p.contentLength > 0 then .Body else .Done } buffer
    else p.turnField line buffer

/-- `case State::Body`. -/
def turnBody (p : RequestParser) (buffer : Bytes) : Turn :=
  if buffer.length < p.contentLength then .ret .NeedMore p buffer
  else
    .again
      { p with req := { p.req with body := buffer.take p.contentLength }, state := .Done }
      (buffer.drop p.contentLength)

/-- One round of the loop in `RequestParser::parse`. -/
def turn (p : RequestParser) (buffer : Bytes) : Turn :=
  match p.state with
  | .RequestLine => p.turnRequestLine buffer
  | .Headers => p.turnHeaders buffer
  | .Body => p.turnBody buffer
  | .Done => .ret .Complete p buffer

/-! ## Rounds on a framed line

A buffer holds a whole line or it does not (`crlf_cases`). On one that does,
a round is a function of the line, and the rest of the buffer is handed on
untouched; the two equations below are the only place where positions and
substrings are computed with. -/

/-- A buffer without a line end, or a first line and what follows it. -/
theorem crlf_cases (buffer : Bytes) :
    find CRLF buffer = none ∨
      ∃ line rest, find CRLF line = none ∧ buffer = line ++ (CRLF ++ rest) := by
  cases h : find CRLF buffer with
  | none => exact .inl rfl
  | some lineEnd =>
    obtain ⟨line, rest, rfl, _, hfree⟩ := find_split CRLF_ne_nil h
    exact .inr ⟨line, rest, hfree, List.append_assoc ..⟩

theorem find_crlf_line {line : Bytes} (hfree : find CRLF line = none) (rest : Bytes) :
    find CRLF (line ++ (CRLF ++ rest)) = some line.length :=
  find_pair_of_free (by decide) rest hfree

theorem take_line (line rest : Bytes) : (line ++ (CRLF ++ rest)).take line.length = line :=
  List.take_left

theorem drop_line (line rest : Bytes) :
    (line ++ (CRLF ++ rest)).drop (line.length + 2) = rest := by
  rw [← List.append_assoc]
  exact List.drop_left' (by simp [CRLF])

/-- A round in the request line state, on a buffer that holds the line. -/
theorem turnRequestLine_line (p : RequestParser) {line : Bytes} (hfree : find CRLF line = none)
    (rest : Bytes) :
    p.turnRequestLine (line ++ (CRLF ++ rest)) =
      if line.length > maxRequestLine then
        .ret .Error { p with error := 414 } (line ++ (CRLF ++ rest))
      else match p.parseRequestLine line with
        | (false, p) => .ret .Error p rest
        | (true, p) => .again { p with state := .Headers } rest := by
  unfold turnRequestLine
  simp only [find_crlf_line hfree rest, take_line, drop_line]

/-- The parser after a header line of this length was consumed. -/
def countLine (p : RequestParser) (line : Bytes) : RequestParser :=
  { p with headerBytes := p.headerBytes + (line.length + 2) }

/-- A round in the header state, on a buffer that holds the line. -/
theorem turnHeaders_line (p : RequestParser) {line : Bytes} (hfree : find CRLF line = none)
    (rest : Bytes) :
    p.turnHeaders (line ++ (CRLF ++ rest)) =
      if (p.countLine line).headerBytes > maxHeaderBlock then
        .ret .Error { p.countLine line with error := 431 } rest
      else if line = [] then
        match (p.countLine line).finishHeaders with
        | (false, p) => .ret .Error p rest
        | (true, p) =>
          .again { p with state := if p.contentLength > 0 then .Body else .Done } rest
      else (p.countLine line).turnField line rest := by
  unfold turnHeaders
  simp only [find_crlf_line hfree rest, take_line, drop_line]
  rfl

/-! ## What a round does

A fact about rounds is one case for each of these. -/

/-- The rounds of the loop, each with what it tested. -/
inductive Round (p : RequestParser) (buffer : Bytes) : Turn → Prop where
  | lineOver (state : p.state = .RequestLine)
      (long : maxRequestLine < (find CRLF buffer).getD buffer.length) :
      Round p buffer (.ret .Error { p with error := 414 } buffer)
  | lineWaits (state : p.state = .RequestLine) (free : find CRLF buffer = none)
      (fits : buffer.length ≤ maxRequestLine) : Round p buffer (.ret .NeedMore p buffer)
  | lineRefused {line rest : Bytes} {q : RequestParser} (state : p.state = .RequestLine)
      (split : buffer = line ++ (CRLF ++ rest)) (free : find CRLF line = none)
      (parsed : p.parseRequestLine line = (false, q)) : Round p buffer (.ret .Error q rest)
  | line {line rest : Bytes} {q : RequestParser} (state : p.state = .RequestLine)
      (split : buffer = line ++ (CRLF ++ rest)) (free : find CRLF line = none)
      (fits : line.length ≤ maxRequestLine) (parsed : p.parseRequestLine line = (true, q)) :
      Round p buffer (.again { q with state := .Headers } rest)
  | headersOver (state : p.state = .Headers) (free : find CRLF buffer = none)
      (long : maxHeaderBlock < buffer.length + p.headerBytes) :
      Round p buffer (.ret .Error { p with error := 431 } buffer)
  | headersWait (state : p.state = .Headers) (free : find CRLF buffer = none)
      (fits : buffer.length + p.headerBytes ≤ maxHeaderBlock) :
      Round p buffer (.ret .NeedMore p buffer)
  | blockOver {line rest : Bytes} (state : p.state = .Headers)
      (split : buffer = line ++ (CRLF ++ rest)) (free : find CRLF line = none)
      (long : maxHeaderBlock < (p.countLine line).headerBytes) :
      Round p buffer (.ret .Error { p.countLine line with error := 431 } rest)
  | headersRefused {rest : Bytes} {q : RequestParser} (state : p.state = .Headers)
      (split : buffer = CRLF ++ rest) (finished : (p.countLine []).finishHeaders = (false, q)) :
      Round p buffer (.ret .Error q rest)
  | headers {rest : Bytes} {q : RequestParser} (state : p.state = .Headers)
      (split : buffer = CRLF ++ rest) (fits : (p.countLine []).headerBytes ≤ maxHeaderBlock)
      (finished : (p.countLine []).finishHeaders = (true, q)) :
      Round p buffer
        (.again { q with state := if q.contentLength > 0 then .Body else .Done } rest)
  | fieldRefused {line rest : Bytes} (state : p.state = .Headers)
      (split : buffer = line ++ (CRLF ++ rest)) (free : find CRLF line = none) :
      Round p buffer (.ret .Error { p.countLine line with error := 400 } rest)
  | field {line rest : Bytes} {colon : Nat} (state : p.state = .Headers)
      (split : buffer = line ++ (CRLF ++ rest)) (free : find CRLF line = none)
      (fits : (p.countLine line).headerBytes ≤ maxHeaderBlock)
      (found : find (ascii ":") line = some colon) (name : colon ≠ 0) :
      Round p buffer
        (.again { p.countLine line with
          req := { p.req with
            headers := addHeader p.req.headers (toLower (trim (line.take colon)))
              (trim (line.drop (colon + 1))) } } rest)
  | bodyWaits (state : p.state = .Body) (short : buffer.length < p.contentLength) :
      Round p buffer (.ret .NeedMore p buffer)
  | body (state : p.state = .Body) (full : p.contentLength ≤ buffer.length) :
      Round p buffer
        (.again { p with
          req := { p.req with body := buffer.take p.contentLength }, state := .Done }
          (buffer.drop p.contentLength))
  | done (state : p.state = .Done) : Round p buffer (.ret .Complete p buffer)

theorem requestLine_round {p : RequestParser} {buffer : Bytes} {t : Turn}
    (state : p.state = .RequestLine) (h : p.turnRequestLine buffer = t) : Round p buffer t := by
  subst h
  rcases crlf_cases buffer with free | ⟨line, rest, free, split⟩
  · simp only [turnRequestLine, free]
    split
    case isTrue long => exact .lineOver state (by rwa [free])
    case isFalse fits => exact .lineWaits state free (Nat.le_of_not_lt fits)
  · rw [split, turnRequestLine_line p free, ← split]
    split
    case isTrue long =>
      refine .lineOver state ?_
      rw [split, find_crlf_line free]
      exact long
    case isFalse fits =>
      split
      case h_1 q parsed => exact .lineRefused state split free parsed
      case h_2 q parsed => exact .line state split free (Nat.le_of_not_lt fits) parsed

theorem headers_round {p : RequestParser} {buffer : Bytes} {t : Turn}
    (state : p.state = .Headers) (h : p.turnHeaders buffer = t) : Round p buffer t := by
  subst h
  rcases crlf_cases buffer with free | ⟨line, rest, free, split⟩
  · simp only [turnHeaders, free]
    split
    case isTrue long => exact .headersOver state free long
    case isFalse fits => exact .headersWait state free (Nat.le_of_not_lt fits)
  · rw [split, turnHeaders_line p free, ← split]
    split
    case isTrue long => exact .blockOver state split free long
    case isFalse fits =>
      have fits := Nat.le_of_not_lt fits
      split
      case isTrue blank =>
        subst blank
        split
        case h_1 q finished => exact .headersRefused state split finished
        case h_2 q finished => exact .headers state split fits finished
      case isFalse =>
        unfold turnField
        split
        case h_1 => exact .fieldRefused state split free
        case h_2 => exact .fieldRefused state split free
        case h_3 colon name found => exact .field state split free fits found name

theorem body_round {p : RequestParser} {buffer : Bytes} {t : Turn}
    (state : p.state = .Body) (h : p.turnBody buffer = t) : Round p buffer t := by
  subst h
  unfold turnBody
  split
  case isTrue short => exact .bodyWaits state short
  case isFalse full => exact .body state (Nat.le_of_not_lt full)

/-- A round is one of the rounds. -/
theorem turn_round {p : RequestParser} {buffer : Bytes} {t : Turn} (h : p.turn buffer = t) :
    Round p buffer t := by
  unfold turn at h
  split at h
  case h_1 state => exact requestLine_round state h
  case h_2 state => exact headers_round state h
  case h_3 state => exact body_round state h
  case h_4 state =>
    subst h
    exact .done state

/-! ## The loop -/

/-- What a round that goes on uses up: octets, or the body state. -/
def weight (p : RequestParser) (buffer : Bytes) : Nat :=
  2 * buffer.length + if p.state = .Body then 1 else 0

theorem weight_le (p : RequestParser) (buffer : Bytes) :
    p.weight buffer ≤ 2 * buffer.length + 1 := by
  unfold weight
  split <;> omega

/-- A line that was taken off outweighs the state. -/
theorem weight_line (p q : RequestParser) (line rest : Bytes) :
    q.weight rest < p.weight (line ++ (CRLF ++ rest)) := by
  have hle := weight_le q rest
  simp only [weight, List.length_append, CRLF, List.length_cons, List.length_nil] at hle ⊢
  omega

/-- A round that goes on used something up. -/
theorem turn_again_weight {p p' : RequestParser} {buffer buffer' : Bytes}
    (h : p.turn buffer = .again p' buffer') : p'.weight buffer' < p.weight buffer := by
  cases turn_round h with
  | line _ split => exact split ▸ weight_line ..
  | headers _ split => exact split ▸ weight_line p _ [] buffer'
  | field _ split => exact split ▸ weight_line ..
  | body state full =>
    simp only [weight, state, List.length_drop, reduceCtorEq, if_false, if_true]
    omega

/-- `RequestParser::parse`: round after round, until one returns. -/
def parse (p : RequestParser) (buffer : Bytes) : Result × RequestParser × Bytes :=
  match _h : p.turn buffer with
  | .again p' buffer' => p'.parse buffer'
  | .ret result p' buffer' => (result, p', buffer')
termination_by p.weight buffer
decreasing_by exact turn_again_weight _h

theorem parse_again {p p' : RequestParser} {buffer buffer' : Bytes}
    (h : p.turn buffer = .again p' buffer') : p.parse buffer = p'.parse buffer' := by
  rw [parse]
  split <;> simp_all

theorem parse_ret {p p' : RequestParser} {buffer buffer' : Bytes} {result : Result}
    (h : p.turn buffer = .ret result p' buffer') : p.parse buffer = (result, p', buffer') := by
  rw [parse]
  split <;> simp_all

end RequestParser

end WebServer
