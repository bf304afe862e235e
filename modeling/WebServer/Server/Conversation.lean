import WebServer.Server.Connection

/-!
# Conversations

What a connection is for, without buffers, wakeups or partial reads: requests
are put to the router one after the other, each gets one answer, and after the
first answer that closes the connection nothing is answered any more. This is a
statement of purpose and not translated from the program; the handler is shown
to hold the conversation of the requests it received.
-/

namespace WebServer

open Base

/-- The requests answered so far, their answers, and the router's state. -/
structure Conversation (ρ : Type u) where
  answered : List HttpRequest := []
  answers : List Queued := []
  server : ρ
  closed : Bool := false

namespace Conversation

variable {ρ : Type u}

/-- The answer to a request: it keeps the connection open when the router's
response and the request both do, and HEAD gets no body. -/
def answer (request : HttpRequest) (response : HttpResponse) : Queued where
  response := { response with keepAlive := response.keepAlive && request.keepAlive }
  omitBody := request.method = ascii "HEAD"

/-- Puts one more request to the router, unless the conversation is closed. -/
def ask (routing : Routing ρ) (c : Conversation ρ) (request : HttpRequest) : Conversation ρ :=
  if c.closed then c
  else
    let (response, server) := routing.route c.server request
    let queued := answer request response
    { answered := c.answered ++ [request]
      answers := c.answers ++ [queued]
      server
      closed := !queued.response.keepAlive }

/-- Puts the requests to the router in order. -/
def hold (routing : Routing ρ) (c : Conversation ρ) (requests : List HttpRequest) :
    Conversation ρ :=
  requests.foldl (ask routing) c

/-- What a refusal is answered with; the refused request is known in part. -/
def refusal (request : HttpRequest) (status : Nat) : Queued :=
  answer { request with keepAlive := false } (.error status)

/-- The statuses of the refusals a conversation gives when the reading of its
requests ended so: one at most, and none after it was closed. -/
def refused (c : Conversation ρ) (ending : Ending RequestParser UInt8 Nat) : List Nat :=
  if c.closed then [] else ending.error?.toList

/-! ## Laws -/

theorem hold_nil (routing : Routing ρ) (c : Conversation ρ) : c.hold routing [] = c := rfl

theorem hold_cons (routing : Routing ρ) (c : Conversation ρ) (request : HttpRequest)
    (requests : List HttpRequest) :
    c.hold routing (request :: requests) = (c.ask routing request).hold routing requests := rfl

theorem hold_append (routing : Routing ρ) (c : Conversation ρ) (xs ys : List HttpRequest) :
    c.hold routing (xs ++ ys) = (c.hold routing xs).hold routing ys :=
  List.foldl_append

/-- A closed conversation answers nothing more. -/
theorem hold_of_closed (routing : Routing ρ) {c : Conversation ρ} (h : c.closed = true)
    (requests : List HttpRequest) : c.hold routing requests = c := by
  induction requests with
  | nil => rfl
  | cons request requests ih => rw [hold_cons, ask, if_pos h, ih]

/-- Every request that was answered has one answer. -/
theorem length_answers (routing : Routing ρ) (requests : List HttpRequest) {c : Conversation ρ}
    (h : c.answers.length = c.answered.length) :
    (c.hold routing requests).answers.length = (c.hold routing requests).answered.length := by
  induction requests generalizing c with
  | nil => exact h
  | cons request requests ih =>
    rw [hold_cons]
    apply ih
    unfold ask
    split
    · exact h
    · simp only [List.length_append, List.length_singleton, h]

/-- The requests that were answered are the first ones, in order. -/
theorem answered_prefix (routing : Routing ρ) (requests : List HttpRequest) (c : Conversation ρ) :
    (c.hold routing requests).answered <+: c.answered ++ requests := by
  induction requests generalizing c with
  | nil => exact List.prefix_append c.answered []
  | cons request requests ih =>
    by_cases hc : c.closed = true
    · rw [hold_of_closed routing hc]
      exact List.prefix_append c.answered (request :: requests)
    · have hrest := ih (c.ask routing request)
      rw [hold_cons]
      rw [ask, if_neg hc] at hrest ⊢
      simpa using hrest

/-- A conversation that is open has answered every request, in order. -/
theorem answered_of_open (routing : Routing ρ) (requests : List HttpRequest) {c : Conversation ρ}
    (h : (c.hold routing requests).closed = false) :
    (c.hold routing requests).answered = c.answered ++ requests := by
  induction requests generalizing c with
  | nil => rw [hold_nil, List.append_nil]
  | cons request requests ih =>
    rw [hold_cons] at h ⊢
    have hopen : c.closed = false := by
      cases hc : c.closed with
      | false => rfl
      | true =>
        have hask : (c.ask routing request).closed = true := by rw [ask, if_pos hc, hc]
        rw [hold_of_closed routing hask, hask] at h
        cases h
    rw [ih h, ask, if_neg (by simp [hopen])]
    simp

end Conversation

end WebServer
