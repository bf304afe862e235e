import WebServer.Api.Text
import WebServer.Http.Request

/-!
# Query parameters

`HttpRequest::queryParam` of `src/http.cpp`. The loop moves a position over the
query; here it is given what is behind the position, `query.substr(position)`.
-/

namespace WebServer

open Base

/-- What the loop looks for in one segment: the decoded value, if the segment has
an equals sign and what stands in front of the first one is the name. -/
def pairValue (name pair : Bytes) : Option Bytes :=
  match find [61] pair with
  | none => none
  | some equals =>
    if pair.take equals = name then some (urlDecode (pair.drop (equals + 1))) else none

/-- The loop of `queryParam`, from some position on. -/
def scanQuery (name query : Bytes) : Bytes :=
  if query = [] then []
  else
    match _h : find [38] query with
    | none => (pairValue name query).getD []
    | some amp =>
      match pairValue name (query.take amp) with
      | some value => value
      | none => scanQuery name (query.drop (amp + 1))
termination_by query.length
decreasing_by
  have hfit := find_fits (List.cons_ne_nil 38 []) _h
  simp only [List.length_cons, List.length_nil] at hfit
  rw [List.length_drop]
  omega

def HttpRequest.queryParam (request : HttpRequest) (name : Bytes) : Bytes :=
  scanQuery name request.query

end WebServer
