import WebServer.Laws.Server.Calls

/-!
# Delivery

What a connection has sent and what it still holds, in order, are the responses
it has queued (`Delivers`). Nothing else about the write buffer matters: it
grows at the back, the offset moves over what `send` took, and both are reset
only when nothing is left. From there `delivery` says what a client may rely on
after any number of wakeups and partial writes.
-/

namespace WebServer

open Base

variable {ρ : Type u} {routing : Routing ρ} {server : ρ} {s : Session ρ}

namespace Session

/-- The responses queued so far, on the wire. -/
def pledged (s : Session ρ) : Bytes := s.history.queued.flatMap Queued.wire

/-- What is still to be sent. -/
def unsent (s : Session ρ) : Bytes :=
  s.connection.writeBuffer.drop s.connection.writeOffset

/-- What was sent and what is to be sent are what was queued. -/
structure Delivers (s : Session ρ) : Prop where
  fits : s.connection.writeOffset ≤ s.connection.writeBuffer.length
  account : s.history.sent ++ s.unsent = s.pledged

/-! ## Queueing -/

theorem Delivers.appendResponse (h : s.Delivers) (request : HttpRequest)
    (response : HttpResponse) : (s.appendResponse request response).Delivers := by
  constructor
  · simp only [Session.appendResponse, List.length_append]
    exact Nat.le_add_right_of_le h.fits
  · simp only [Session.appendResponse, unsent, pledged, List.flatMap_append,
      List.flatMap_singleton]
    rw [List.drop_append_of_le_length h.fits, ← List.append_assoc]
    congr 1
    exact h.account

theorem Delivers.record (h : s.Delivers) (response : HttpResponse) (micros : Nat) :
    (s.record response micros).Delivers :=
  ⟨h.fits, h.account⟩

theorem Delivers.reject (h : s.Delivers) (parser : RequestParser) :
    (s.reject parser).Delivers := by
  have hqueued := (h.record (.error parser.error) 0).appendResponse
    { parser.req with keepAlive := false } (.error parser.error)
  exact ⟨hqueued.fits, hqueued.account⟩

theorem Delivers.respond (h : s.Delivers) (parser : RequestParser) (rest : Bytes) :
    (s.respond routing parser rest).Delivers := by
  have hqueued := (h.record (routing.route s.server parser.req).1
    (routing.micros s.server parser.req)).appendResponse parser.req
    (routing.route s.server parser.req).1
  exact ⟨hqueued.fits, hqueued.account⟩

theorem Delivers.answerAll (h : s.Delivers) : (s.answerAll routing).Delivers := by
  fun_induction Session.answerAll routing s with
  | case1 s hempty => exact h
  | case2 s hne parser rest hparse => exact ⟨h.fits, h.account⟩
  | case3 s hne parser rest hparse => exact h.reject parser
  | case4 s hne parser rest hparse t hclose =>
    have ht : t.Delivers := h.respond parser rest
    exact ⟨ht.fits, ht.account⟩
  | case5 s hne parser rest hparse t hgoing ih => exact ih (h.respond parser rest)

/-! ## Sending -/

/-- `send` takes its bytes off the front of what is to be sent. -/
theorem Delivers.accepted (h : s.Delivers) (k : Nat) :
    let written := s.unsent.take k
    Delivers { s with
      connection := { s.connection with
        writeOffset := s.connection.writeOffset + written.length }
      history := { s.history with sent := s.history.sent ++ written } } := by
  intro written
  have hlen : written.length ≤ s.connection.writeBuffer.length - s.connection.writeOffset := by
    have hle := List.length_take_le' k s.unsent
    simp only [unsent, List.length_drop] at hle
    exact hle
  constructor
  · show s.connection.writeOffset + written.length ≤ s.connection.writeBuffer.length
    have hfits := h.fits
    omega
  · show (s.history.sent ++ written) ++
      s.connection.writeBuffer.drop (s.connection.writeOffset + written.length) = s.pledged
    have hrest : s.connection.writeBuffer.drop (s.connection.writeOffset + written.length) =
        s.unsent.drop written.length := by
      rw [unsent, List.drop_drop]
    have hfront : written ++ s.unsent.drop written.length = s.unsent :=
      List.prefix_iff_eq_append.mp (List.take_prefix k s.unsent)
    rw [hrest, List.append_assoc, hfront]
    exact h.account

/-- With nothing left, the buffer may be given up. -/
theorem Delivers.cleared (h : s.Delivers)
    (hdone : s.connection.writeBuffer.length ≤ s.connection.writeOffset) :
    Delivers { s with connection := { s.connection with writeBuffer := [], writeOffset := 0 } } := by
  have hnothing : s.unsent = [] := List.drop_eq_nil_of_le hdone
  have haccount := h.account
  rw [hnothing] at haccount
  exact ⟨Nat.le_refl 0, haccount⟩

theorem Delivers.flush (h : s.Delivers) (sends : List SendResult) : (s.flush sends).1.Delivers := by
  fun_induction Session.flush s sends with
  | case1 s hleft => exact h
  | case2 s hleft more sends offered written ih => exact ih (h.accepted (more + 1))
  | case3 s hleft sends ih => exact ih h
  | case4 s hleft sends => exact h
  | case5 s hleft sends => exact h
  | case6 sends s hdone => exact h.cleared (Nat.le_of_not_lt hdone)

/-! ## What an action says about the buffer -/

/-- The state of the write buffer when an action was returned. -/
def Awaits (s : Session ρ) : Option Action → Prop
  | some .waitRead => s.connection.writeBuffer = []
  | some .waitWrite => s.connection.writeOffset < s.connection.writeBuffer.length
  | _ => True

theorem awaits_flush (s : Session ρ) (sends : List SendResult) :
    (s.flush sends).1.Awaits (s.flush sends).2 := by
  fun_induction Session.flush s sends with
  | case1 s hleft => trivial
  | case2 s hleft more sends offered written ih => exact ih
  | case3 s hleft sends ih => exact ih
  | case4 s hleft sends => exact hleft
  | case5 s hleft sends => trivial
  | case6 sends s hdone => cases s.connection.closeAfterWrite <;> trivial

/-! ## The handler's calls -/

theorem Delivers.onReadable (routing : Routing ρ) (h : s.Delivers) (recvs : List RecvResult) (now : Int)
    (sends : List SendResult) :
    (s.onReadable routing recvs now sends).1.Delivers ∧
      (s.onReadable routing recvs now sends).1.Awaits
        (s.onReadable routing recvs now sends).2 := by
  rcases hdrain : drain recvs with ⟨bytes, ending⟩
  have hreceive : (s.receive bytes).Delivers := ⟨h.fits, h.account⟩
  simp only [Session.onReadable, hdrain]
  cases ending with
  | pending => exact ⟨hreceive, trivial⟩
  | failed => exact ⟨hreceive, trivial⟩
  | drained eof =>
    refine ⟨Delivers.flush (Delivers.answerAll ?_) sends, awaits_flush _ sends⟩
    exact ⟨hreceive.fits, hreceive.account⟩

end Session

/-! ## Runs -/

/-- Every call of the handler keeps the account. -/
theorem delivers_step {phase phase' : Option Action} {wakeup : Wakeup} {t : Session ρ}
    (h : s.Delivers) (hstep : connectionStep routing (s, phase) wakeup = some (t, phase')) :
    t.Delivers ∧ t.Awaits phase' := by
  rcases connectionStep_cases hstep with
    ⟨recvs, now, sends, -, -, hcall⟩ | ⟨sends, -, -, hcall⟩ | ⟨-, -, rfl, rfl⟩
  · have hread := h.onReadable routing recvs now sends
    rw [hcall] at hread
    exact hread
  · have hsent := h.flush sends
    have hawaits := s.awaits_flush sends
    rw [hcall] at hsent hawaits
    exact ⟨hsent, hawaits⟩
  · exact ⟨h, trivial⟩

/-- Every run keeps the account. -/
theorem delivers_run {phase : Option Action}
    (r : (connectionMachine routing server).Reachable (s, phase)) :
    s.Delivers ∧ s.Awaits phase := by
  refine r.invariant (I := fun state => state.1.Delivers ∧ state.1.Awaits state.2) ?_ ?_
  · exact ⟨⟨Nat.le_refl 0, rfl⟩, rfl⟩
  · intro state wakeup state' h _ hstep
    exact delivers_step h.1 hstep

/-- What the client of a connection may rely on, at a moment of its life or
after an action was returned. -/
structure Delivery (s : Session ρ) (phase : Option Action) : Prop where
  in_order : s.history.sent <+: s.pledged
  all_read : phase = some .waitRead → s.history.sent = s.pledged
  all_closed : phase = some .close → s.connection.closeAfterWrite = true →
    s.connection.writeBuffer.length ≤ s.connection.writeOffset → s.history.sent = s.pledged
  left_write : phase = some .waitWrite →
    s.connection.writeOffset < s.connection.writeBuffer.length

/-- With nothing left to send, everything was sent. -/
theorem Session.Delivers.sent_eq (h : s.Delivers)
    (hdone : s.connection.writeBuffer.length ≤ s.connection.writeOffset) :
    s.history.sent = s.pledged := by
  have haccount := h.account
  rw [Session.unsent, List.drop_eq_nil_of_le hdone, List.append_nil] at haccount
  exact haccount

/-- Partial writes neither lose, repeat nor reorder a byte, in any run. -/
theorem delivery {phase : Option Action}
    (r : (connectionMachine routing server).Reachable (s, phase)) : Delivery s phase := by
  obtain ⟨h, hawaits⟩ := delivers_run r
  constructor
  · exact ⟨s.unsent, h.account⟩
  · rintro rfl
    have hempty : s.connection.writeBuffer = [] := hawaits
    exact h.sent_eq (by rw [hempty]; exact Nat.zero_le _)
  · intro _ _ hdone
    exact h.sent_eq hdone
  · rintro rfl
    exact hawaits

/-- A request line of one word. -/
def oneWord : Chunk where
  bytes := ascii "x" ++ CRLF
  nonempty := by decide
  fits := by decide

/-- The first five octets of the answer to a malformed request have been sent
and the socket is full. -/
theorem delivery_partial :
    let called := ({ server := () } : Session Unit).onReadable noPages
      [.data oneWord, .interrupted, .wouldBlock] 0 [.accepted 1, .interrupted, .accepted 2, .wouldBlock]
    called.2 = some .waitWrite ∧ called.1.history.sent = ascii "HTTP/" ∧
      Delivery called.1 called.2 := by
  intro called
  let received := { ({ server := () } : Session Unit).receive oneWord.bytes with
    history := { batches := [oneWord.bytes] } }
  have hparse : received.connection.parser.parse received.connection.readBuffer =
      (.Error, { error := 400 }, []) := RequestParser.parse_ret rfl
  have hcalled : called = (received.reject { error := 400 }).flush
      [.accepted 1, .interrupted, .accepted 2, .wouldBlock] := by
    show (received.answerAll noPages).flush _ = _
    rw [Session.answerAll_error hparse (by decide)]
  have hstep : (connectionMachine noPages ()).step (connectionMachine noPages ()).start
      (.readable [.data oneWord, .interrupted, .wouldBlock] 0
        [.accepted 1, .interrupted, .accepted 2, .wouldBlock]) = some called := rfl
  refine ⟨?_, ?_, delivery (.step .start trivial hstep)⟩
  · rw [hcalled]
    decide
  · rw [hcalled]
    decide

end WebServer
