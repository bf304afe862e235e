import Mathlib.Data.List.AList
import Mathlib.Data.List.DropRight
import WebServer.Base.CLib

/-!
# Requests

`HttpRequest` as `include/http.h` declares it, and the helpers of
`src/http.cpp` that read it. Field names are stored in lower case, so
`header` lower-cases the name it is asked for.
-/

namespace WebServer

open Base

/-- Carriage return and line feed, the end of every line on the wire. -/
def CRLF : Bytes := [13, 10]

theorem CRLF_ne_nil : CRLF ≠ [] := List.cons_ne_nil 13 [10]

/-- A line without a carriage return holds no line end. -/
theorem find_crlf_of_not_mem {line : Bytes} (h : 13 ∉ line) : find CRLF line = none :=
  find_none_of_not_mem List.mem_cons_self h

/-- `toLower` of `http.cpp`: every octet through `std::tolower`. -/
def toLower (text : Bytes) : Bytes := text.map tolower

/-- The octets `trim` strips: blank and tab. -/
def isBlank (c : UInt8) : Bool := c == 32 || c == 9

/-- `trim` of `http.cpp`: blanks and tabs off both ends. -/
def trim (text : Bytes) : Bytes := (text.dropWhile isBlank).rdropWhile isBlank

/-- The header table: an `unordered_map` from lower-case names to values. -/
abbrev Headers := AList fun _ : Bytes => Bytes

structure HttpRequest where
  method : Bytes := []
  /-- The raw request target, query included. -/
  target : Bytes := []
  /-- The target with the query stripped. -/
  path : Bytes := []
  query : Bytes := []
  version : Bytes := []
  headers : Headers := ∅
  body : Bytes := []
  keepAlive : Bool := true
  deriving DecidableEq

/-- `HttpRequest::header`: the value stored under the name, or the empty
string. -/
def HttpRequest.header (request : HttpRequest) (name : Bytes) : Bytes :=
  (request.headers.lookup (toLower name)).getD []

end WebServer
