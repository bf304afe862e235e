import WebServer.Base.Reader
import WebServer.Http.Parser

/-!
# Feeding the parser

How a caller drives `RequestParser`: append what has arrived to the buffer,
call `parse`, take the request and `reset` after each `Complete`, parse on
while the buffer is not empty, stop at the first `Error`. `parseOn` is what
happens after one append, `feedChunks` a whole connection's worth of them.
-/

namespace WebServer

open Base

/-- The buffer a round leaves. -/
def Turn.buffer : Turn → Bytes
  | .again _ buffer => buffer
  | .ret _ _ buffer => buffer

namespace RequestParser

theorem suffix_line (line rest : Bytes) : rest <:+ line ++ (CRLF ++ rest) :=
  (List.suffix_append CRLF rest).trans (List.suffix_append line _)

/-- A round takes octets off the front only. -/
theorem turn_suffix (p : RequestParser) (buffer : Bytes) :
    (p.turn buffer).buffer <:+ buffer := by
  generalize ht : p.turn buffer = t
  cases turn_round ht with
  | lineRefused _ split | line _ split | blockOver _ split | fieldRefused _ split
  | field _ split => exact split ▸ suffix_line ..
  | headersRefused _ split | headers _ split => exact split ▸ suffix_line [] _
  | body => exact List.drop_suffix _ _
  | _ => exact List.suffix_refl _

/-- `parse` takes octets off the front only. -/
theorem parse_suffix (p : RequestParser) (buffer : Bytes) : (p.parse buffer).2.2 <:+ buffer := by
  fun_induction parse p buffer with
  | case1 p buffer p' buffer' h ih =>
    have hturn := turn_suffix p buffer
    rw [h] at hturn
    exact ih.trans hturn
  | case2 p buffer result p' buffer' h =>
    have hturn := turn_suffix p buffer
    rw [h] at hturn
    exact hturn

/-- A request completed from its request line on took at least that line. -/
theorem parse_complete_length {p p' : RequestParser} {buffer rest : Bytes}
    (hs : p.state = .RequestLine) (h : p.parse buffer = (.Complete, p', rest)) :
    rest.length < buffer.length := by
  cases ht : p.turn buffer with
  | again q buffer' =>
    have hw := turn_again_weight ht
    have hsuf := (parse_suffix q buffer').length_le
    rw [← parse_again ht, h] at hsuf
    dsimp only at hsuf
    simp only [weight, hs, reduceCtorEq, if_false] at hw
    omega
  | ret result q buffer' =>
    rw [parse_ret ht] at h
    cases h
    cases turn_round ht with
    | done state =>
      rw [hs] at state
      cases state

/-- What completing a request uses up: its octets, or the middle of a
request. -/
def readWeight (p : RequestParser) (buffer : Bytes) : Nat :=
  2 * buffer.length + if p.state = .RequestLine then 0 else 1

theorem readWeight_reset {p p' : RequestParser} {buffer rest : Bytes}
    (h : p.parse buffer = (.Complete, p', rest)) :
    p'.reset.readWeight rest < p.readWeight buffer := by
  have hle := (parse_suffix p buffer).length_le
  rw [h] at hle
  by_cases hs : p.state = .RequestLine
  · have hlt := parse_complete_length hs h
    simp only [readWeight, reset, hs, if_true]
    omega
  · simp only [readWeight, reset, hs, if_true, if_false]
    dsimp only at hle
    omega

/-- Parse on while the buffer is not empty, with a reset after each completed
request, up to the first error. -/
def parseOn (p : RequestParser) (buffer : Bytes) :
    List HttpRequest × Ending RequestParser UInt8 Nat :=
  match _h : p.parse buffer with
  | (.NeedMore, p', rest) => ([], .waiting p' rest)
  | (.Error, p', _) => ([], .failed p'.error)
  | (.Complete, p', rest) =>
    if rest = [] then ([p'.req], .waiting p'.reset [])
    else Reader.prepend [p'.req] (p'.reset.parseOn rest)
termination_by p.readWeight buffer
decreasing_by exact readWeight_reset _h

/-- Append one chunk after the other and parse on after each. -/
def feedChunks (p : RequestParser) (buffer : Bytes) :
    List Bytes → List HttpRequest × Ending RequestParser UInt8 Nat
  | [] => ([], .waiting p buffer)
  | chunk :: chunks =>
    match p.parseOn (buffer ++ chunk) with
    | (requests, .waiting p' rest) => Reader.prepend requests (p'.feedChunks rest chunks)
    | (requests, .failed e) => (requests, .failed e)

end RequestParser

/-- The completed requests of a fresh parser, and the error status it stopped
at, if it stopped. -/
def feedResult (chunks : List Bytes) : List HttpRequest × Option Nat :=
  let (requests, ending) := RequestParser.feedChunks {} [] chunks
  (requests, ending.error?)

end WebServer
