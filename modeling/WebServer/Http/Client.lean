import WebServer.Base.Reader
import WebServer.Http.Request
import WebServer.Http.Response

/-!
# A client that reads responses

What the other end of a connection makes of the bytes that `serialize` wrote: a status
line, field lines up to the first blank line, and as many bytes of body as
`Content-Length` says, none behind the answer to a HEAD. Its state is the methods of the
requests that have no answer yet. What it takes for the blanks around a field's value is
a parameter.

Everything is read again from the front when more has arrived, so an unfinished
response is left as it is.
-/

namespace WebServer

open Base

/-- What a client has of a response; there is no body in the answer to a HEAD. -/
structure Answer where
  status : Int
  contentType : Bytes
  keepAlive : Bool
  extraHeaders : List (Bytes × Bytes)
  length : Nat
  body : Option Bytes := none
  deriving DecidableEq

namespace Client

/-- The first line, and what follows it. -/
def takeLine (wire : Bytes) : Option (Bytes × Bytes) :=
  (find CRLF wire).map fun lineEnd => (wire.take lineEnd, wire.drop (lineEnd + 2))

theorem takeLine_length {wire line rest : Bytes} (h : takeLine wire = some (line, rest)) :
    rest.length < wire.length := by
  obtain ⟨lineEnd, hfind, hcut⟩ := Option.map_eq_some_iff.mp h
  have hfit := find_fits CRLF_ne_nil hfind
  have hlen : CRLF.length = 2 := rfl
  cases hcut
  rw [List.length_drop]
  omega

/-- The lines up to the first blank one, and what follows that. -/
def takeHead (wire : Bytes) : Option (List Bytes × Bytes) :=
  match _h : takeLine wire with
  | none => none
  | some (line, rest) =>
    if line = [] then some ([], rest)
    else (takeHead rest).map fun (lines, rest) => (line :: lines, rest)
termination_by wire.length
decreasing_by exact takeLine_length _h

/-- A number in decimal. -/
def readNat (digits : Bytes) : Option Nat :=
  if digits ≠ [] ∧ digits.all isdigit then some (decimalValue digits) else none

/-- A number in decimal that may have a minus sign. -/
def readInt (text : Bytes) : Option Int :=
  if text.head? = some 45 then (readNat text.tail).map fun n => -Int.ofNat n
  else (readNat text).map Int.ofNat

/-- The status of a status line, between its first two blanks. -/
def readStatus (line : Bytes) : Option Int :=
  if (ascii "HTTP/1.1 ").isPrefixOf line then
    match find [32] (line.drop 9) with
    | none => none
    | some blank => readInt ((line.drop 9).take blank)
  else none

/-- A field line is cut at its first colon. -/
def readField (strip : Bytes → Bytes) (line : Bytes) : Option (Bytes × Bytes) :=
  (find [58] line).map fun colon => (line.take colon, strip (line.drop (colon + 1)))

/-- The names of fields are compared without their case. -/
def named (name : String) (field : Bytes × Bytes) : Bool := toLower field.1 = ascii name

/-- What the fields of a response say, apart from its body. `Content-Length` has to be
there once; of the other two fields that every response has, the first is taken. -/
def readFields (status : Int) (fields : List (Bytes × Bytes)) : Option Answer :=
  match fields.filter (named "content-length") with
  | [(_, digits)] =>
    (readNat digits).map fun length =>
      { status
        contentType := ((fields.find? (named "content-type")).map Prod.snd).getD []
        keepAlive := toLower (((fields.find? (named "connection")).map Prod.snd).getD []) ≠
          ascii "close"
        extraHeaders := ((fields.eraseP (named "content-length")).eraseP
          (named "content-type")).eraseP (named "connection")
        length }
  | _ => none

/-- The head of a response. -/
def readHead (strip : Bytes → Bytes) : List Bytes → Option Answer
  | [] => none
  | line :: lines =>
    (readStatus line).bind fun status =>
      (lines.mapM (readField strip)).bind (readFields status)

/-- The response at the front of the bytes, for the first request without an answer. -/
def read (strip : Bytes → Bytes) (methods : List Bytes) (wire : Bytes) :
    Reply (List Bytes) UInt8 Answer Unit :=
  match methods, takeHead wire with
  | [], _ => .more [] wire
  | method :: methods, none => .more (method :: methods) wire
  | method :: methods, some (lines, rest) =>
    match readHead strip lines with
    | none => .fail ()
    | some answer =>
      if method = ascii "HEAD" then .item answer methods rest
      else if rest.length < answer.length then .more (method :: methods) wire
      else
        .item { answer with body := some (rest.take answer.length) } methods
          (rest.drop answer.length)

/-- The one blank that `serialize` writes behind the colon is not part of the value. -/
def oneBlank (text : Bytes) : Bytes := if text.head? = some 32 then text.tail else text

/-! ## A resumable reader -/

theorem takeLine_append {wire line rest : Bytes} (h : takeLine wire = some (line, rest))
    (more : Bytes) : takeLine (wire ++ more) = some (line, rest ++ more) := by
  obtain ⟨lineEnd, hfind, hcut⟩ := Option.map_eq_some_iff.mp h
  have hfit := find_fits CRLF_ne_nil hfind
  have hlen : CRLF.length = 2 := rfl
  cases hcut
  unfold takeLine
  rw [find_append CRLF_ne_nil hfind more, Option.map_some,
    List.take_append_of_le_length (by omega), List.drop_append_of_le_length (by omega)]

theorem takeHead_blank {wire rest : Bytes} (h : takeLine wire = some ([], rest)) :
    takeHead wire = some ([], rest) := by
  rw [takeHead]
  split <;> simp_all

theorem takeHead_line {wire line rest : Bytes} (h : takeLine wire = some (line, rest))
    (hne : line ≠ []) :
    takeHead wire = (takeHead rest).map fun (lines, rest) => (line :: lines, rest) := by
  rw [takeHead]
  split <;> simp_all

/-- A head that has arrived stays what it is. -/
theorem takeHead_append {wire rest : Bytes} {lines : List Bytes}
    (h : takeHead wire = some (lines, rest)) (more : Bytes) :
    takeHead (wire ++ more) = some (lines, rest ++ more) := by
  fun_induction takeHead wire generalizing lines rest with
  | case1 wire hline => cases h
  | case2 wire after hline =>
    cases h
    exact takeHead_blank (takeLine_append hline more)
  | case3 wire line after hline hne ih =>
    obtain ⟨⟨later, tail⟩, hlater, hcut⟩ := Option.map_eq_some_iff.mp h
    cases hcut
    rw [takeHead_line (takeLine_append hline more) hne, ih hlater]
    rfl

/-- What one read can do: it waits, or it takes the answer of the first request from
behind a head. -/
theorem read_item {strip : Bytes → Bytes} {methods methods' : List Bytes} {wire rest : Bytes}
    {answer : Answer} (h : read strip methods wire = .item answer methods' rest) :
    ∃ method lines after front, methods = method :: methods' ∧
      takeHead wire = some (lines, after) ∧ readHead strip lines = some front ∧
      ((method = ascii "HEAD" ∧ answer = front ∧ rest = after) ∨
        (method ≠ ascii "HEAD" ∧ front.length ≤ after.length ∧
          answer = { front with body := some (after.take front.length) } ∧
          rest = after.drop front.length)) := by
  unfold read at h
  split at h
  · cases h
  · cases h
  next method later lines after hhead =>
    split at h
    · cases h
    next front hfront =>
      split at h
      next hmethod =>
        cases h
        exact ⟨method, lines, rest, answer, rfl, hhead, hfront, .inl ⟨hmethod, rfl, rfl⟩⟩
      next hmethod =>
        split at h
        · cases h
        next hlong =>
          cases h
          exact ⟨method, lines, after, front, rfl, hhead, hfront,
            .inr ⟨hmethod, Nat.le_of_not_lt hlong, rfl, rfl⟩⟩

/-- A read that waits leaves everything as it is. -/
theorem read_more {strip : Bytes → Bytes} {methods methods' : List Bytes} {wire rest : Bytes}
    (h : read strip methods wire = .more methods' rest) : methods' = methods ∧ rest = wire := by
  unfold read at h
  split at h
  · cases h
    exact ⟨rfl, rfl⟩
  · cases h
    exact ⟨rfl, rfl⟩
  · split at h
    · cases h
    · split at h
      · cases h
      · split at h
        · cases h
          exact ⟨rfl, rfl⟩
        · cases h

/-- The answer to a HEAD ends with its head. -/
theorem read_head {strip : Bytes → Bytes} {lines : List Bytes} {wire rest : Bytes}
    {front : Answer} (hhead : takeHead wire = some (lines, rest))
    (hfront : readHead strip lines = some front) (methods : List Bytes) :
    read strip (ascii "HEAD" :: methods) wire = .item front methods rest := by
  simp only [read, hhead, hfront, if_true]

/-- Any other answer has its body behind the head. -/
theorem read_body {strip : Bytes → Bytes} {lines : List Bytes} {wire rest : Bytes}
    {front : Answer} (hhead : takeHead wire = some (lines, rest))
    (hfront : readHead strip lines = some front) (hlong : front.length ≤ rest.length)
    {method : Bytes} (hmethod : method ≠ ascii "HEAD") (methods : List Bytes) :
    read strip (method :: methods) wire =
      .item { front with body := some (rest.take front.length) } methods
        (rest.drop front.length) := by
  simp only [read, hhead, hfront, if_neg hmethod, if_neg (Nat.not_lt.mpr hlong)]

end Client

/-- A client that takes what it calls the blanks around a value off with `strip`. -/
def client (strip : Bytes → Bytes) : Reader (List Bytes) UInt8 Answer Unit where
  read := Client.read strip
  weight methods _ := methods.length
  item_weight h := by
    obtain ⟨method, lines, after, front, rfl, -⟩ := Client.read_item h
    exact Nat.lt_succ_self _
  item_append h more := by
    obtain ⟨method, lines, after, front, rfl, hhead, hfront, hend⟩ := Client.read_item h
    have hmore := Client.takeHead_append hhead more
    rcases hend with ⟨rfl, rfl, rfl⟩ | ⟨hmethod, hlong, rfl, rfl⟩
    · exact Client.read_head hmore hfront _
    · have hlonger : front.length ≤ (after ++ more).length := by
        rw [List.length_append]
        omega
      rw [Client.read_body hmore hfront hlonger hmethod, List.take_append_of_le_length hlong,
        List.drop_append_of_le_length hlong]
  more_append h more := by
    obtain ⟨rfl, rfl⟩ := Client.read_more h
    rfl

end WebServer
