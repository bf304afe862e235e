import WebServer.Server.Handler

/-!
# The handler's calls

What each piece of the handler can do, once for all runs: which calls an event
loop makes, what the parse loop does at each answer of the parser, and what
`flush` leaves alone.
-/

namespace WebServer

open Base

variable {ρ : Type u} {routing : Routing ρ} {s : Session ρ}

/-- The event loops make three calls: read, write, and closing on a hang-up. -/
theorem connectionStep_cases {phase phase' : Option Action} {wakeup : Wakeup} {t : Session ρ}
    (h : connectionStep routing (s, phase) wakeup = some (t, phase')) :
    (∃ recvs now sends, wakeup = .readable recvs now sends ∧ phase = some .waitRead ∧
      s.onReadable routing recvs now sends = (t, phase')) ∨
    (∃ sends, wakeup = .writable sends ∧ phase = some .waitWrite ∧ s.flush sends = (t, phase')) ∨
    (wakeup = .hangup ∧ (phase = some .waitRead ∨ phase = some .waitWrite) ∧ t = s ∧
      phase' = some .close) := by
  unfold connectionStep at h
  split at h
  next s' recvs now sends heq =>
    cases heq
    exact .inl ⟨recvs, now, sends, rfl, rfl, Option.some.inj h⟩
  next s' sends heq =>
    cases heq
    exact .inr (.inl ⟨sends, rfl, rfl, Option.some.inj h⟩)
  next s' heq =>
    cases heq
    cases h
    exact .inr (.inr ⟨rfl, .inl rfl, rfl, rfl⟩)
  next s' heq =>
    cases heq
    cases h
    exact .inr (.inr ⟨rfl, .inr rfl, rfl, rfl⟩)
  next => cases h

namespace Session

/-! ## The parse loop -/

theorem answerAll_nil (h : s.connection.readBuffer = []) : s.answerAll routing = s := by
  rw [answerAll, if_pos h]

theorem answerAll_needMore {parser : RequestParser} {rest : Bytes}
    (h : s.connection.parser.parse s.connection.readBuffer = (.NeedMore, parser, rest))
    (hne : s.connection.readBuffer ≠ []) :
    s.answerAll routing =
      { s with connection := { s.connection with parser, readBuffer := rest } } := by
  rw [answerAll, if_neg hne]
  split <;> simp_all

theorem answerAll_error {parser : RequestParser} {rest : Bytes}
    (h : s.connection.parser.parse s.connection.readBuffer = (.Error, parser, rest))
    (hne : s.connection.readBuffer ≠ []) :
    s.answerAll routing = s.reject parser := by
  rw [answerAll, if_neg hne]
  split <;> simp_all

theorem answerAll_closing {parser : RequestParser} {rest : Bytes}
    (h : s.connection.parser.parse s.connection.readBuffer = (.Complete, parser, rest))
    (hne : s.connection.readBuffer ≠ [])
    (hclose : (s.respond routing parser rest).connection.closeAfterWrite = true) :
    s.answerAll routing =
      { s.respond routing parser rest with
        connection := { (s.respond routing parser rest).connection with readBuffer := [] } } := by
  rw [answerAll, if_neg hne]
  split <;> simp_all

theorem answerAll_going {parser : RequestParser} {rest : Bytes}
    (h : s.connection.parser.parse s.connection.readBuffer = (.Complete, parser, rest))
    (hne : s.connection.readBuffer ≠ [])
    (hgoing : (s.respond routing parser rest).connection.closeAfterWrite = false) :
    s.answerAll routing = (s.respond routing parser rest).answerAll routing := by
  rw [answerAll, if_neg hne]
  split <;> simp_all

/-- The parse loop reads nothing. -/
theorem answerAll_batches (s : Session ρ) :
    (s.answerAll routing).history.batches = s.history.batches := by
  fun_induction Session.answerAll routing s with
  | case5 s hne parser rest hparse t hgoing ih => exact ih
  | _ => rfl

/-! ## Sending -/

/-- `flush` touches the write buffer, and nothing but what `send` took is added
to the record. -/
theorem flush_leaves (s : Session ρ) (sends : List SendResult) :
    ∃ writeBuffer writeOffset sent, (s.flush sends).1 =
      { s with
        connection := { s.connection with writeBuffer, writeOffset }
        history := { s.history with sent } } := by
  fun_induction Session.flush s sends with
  | case2 s hleft more sends offered written ih =>
    obtain ⟨writeBuffer, writeOffset, sent, h⟩ := ih
    exact ⟨writeBuffer, writeOffset, sent, h⟩
  | case3 s hleft sends ih => exact ih
  | _ => exact ⟨_, _, _, rfl⟩

theorem queued_flush {t : Session ρ} {sends : List SendResult} {phase : Option Action}
    (h : s.flush sends = (t, phase)) : t.history.queued = s.history.queued := by
  obtain ⟨writeBuffer, writeOffset, sent, hflush⟩ := s.flush_leaves sends
  rw [h] at hflush
  dsimp only at hflush
  rw [hflush]

theorem closeAfterWrite_flush (s : Session ρ) (sends : List SendResult) :
    (s.flush sends).1.connection.closeAfterWrite = s.connection.closeAfterWrite := by
  obtain ⟨writeBuffer, writeOffset, sent, h⟩ := s.flush_leaves sends
  rw [h]

/-- `flush` waits for more requests only on a connection that is not closing. -/
theorem flush_waitRead {s : Session ρ} {sends : List SendResult}
    (h : (s.flush sends).2 = some .waitRead) : s.connection.closeAfterWrite = false := by
  fun_induction Session.flush s sends with
  | case2 s hleft more sends offered written ih => exact ih h
  | case3 s hleft sends ih => exact ih h
  | case6 sends s hdone =>
    cases hclose : s.connection.closeAfterWrite with
    | false => rfl
    | true =>
      simp only [hclose, if_true] at h
      cases h
  | _ => cases h

/-- When `send` takes all there is, the connection closes or waits for more
requests. -/
theorem flush_accepted {s : Session ρ} {more : Nat}
    (h : s.connection.writeBuffer.length ≤ s.connection.writeOffset + (more + 1)) :
    ∃ sent, s.flush [.accepted more] =
      ({ s with
          connection := { s.connection with writeBuffer := [], writeOffset := 0 }
          history := { s.history with sent } },
        some (if s.connection.closeAfterWrite then .close else .waitRead)) := by
  rw [flush]
  split
  next hleft =>
    refine ⟨s.history.sent ++
      (s.connection.writeBuffer.drop s.connection.writeOffset).take (more + 1), ?_⟩
    dsimp only
    rw [flush, if_neg]
    simp only [List.length_take, List.length_drop]
    omega
  next => exact ⟨s.history.sent, rfl⟩

/-! ## Receiving -/

theorem drain_eof {recvs : List RecvResult} {bytes : Bytes}
    (h : drain recvs = (bytes, .drained true)) : .eof ∈ recvs := by
  induction recvs generalizing bytes with
  | nil => cases h
  | cons recv recvs ih =>
    cases recv with
    | data chunk =>
      simp only [drain, Prod.mk.injEq] at h
      exact List.mem_cons_of_mem _ (ih (Prod.ext rfl h.2))
    | eof => exact List.mem_cons_self
    | interrupted => exact List.mem_cons_of_mem _ (ih h)
    | wouldBlock => cases h
    | failed => cases h

/-- The loop goes on after bytes and after `EINTR`. -/
def RecvGoesOn : RecvResult → Prop
  | .data _ => True
  | .interrupted => True
  | _ => False

theorem drain_append {recvs : List RecvResult} (h : ∀ recv ∈ recvs, RecvGoesOn recv)
    (more : List RecvResult) :
    drain (recvs ++ more) = ((drain recvs).1 ++ (drain more).1, (drain more).2) := by
  induction recvs with
  | nil => rfl
  | cons recv recvs ih =>
    have hrest := ih fun r hr => h r (List.mem_cons_of_mem recv hr)
    have hgoes := h recv List.mem_cons_self
    cases recv with
    | data chunk => simp only [List.cons_append, drain, hrest, List.append_assoc]
    | interrupted => simp only [List.cons_append, drain, hrest]
    | eof => exact hgoes.elim
    | wouldBlock => exact hgoes.elim
    | failed => exact hgoes.elim

/-- Without data nothing is read. -/
theorem drain_silent {recvs : List RecvResult} (h : ∀ chunk, .data chunk ∉ recvs) :
    (drain recvs).1 = [] := by
  induction recvs with
  | nil => rfl
  | cons recv recvs ih =>
    cases recv with
    | data chunk => exact absurd List.mem_cons_self (h chunk)
    | interrupted => exact ih fun chunk hin => h chunk (List.mem_cons_of_mem _ hin)
    | _ => rfl

/-- A session between its socket being drained and its requests being parsed. -/
def batch (s : Session ρ) (bytes : Bytes) (eof : Bool) (now : Int) : Session ρ :=
  { s with
    connection := { s.connection with
      readBuffer := s.connection.readBuffer ++ bytes
      closeAfterWrite := s.connection.closeAfterWrite || eof
      lastActive := now }
    history := { s.history with batches := s.history.batches ++ [bytes] } }

/-- Once the socket is drained, what it brought is answered and the answers are
sent. -/
theorem onReadable_drained {recvs : List RecvResult} {bytes : Bytes} {eof : Bool}
    (h : drain recvs = (bytes, .drained eof)) (now : Int) (sends : List SendResult) :
    s.onReadable routing recvs now sends =
      ((s.batch bytes eof now).answerAll routing).flush sends := by
  simp only [onReadable, h]
  rfl

/-- A call to `onReadable` stops while it reads, or its socket is drained. -/
theorem onReadable_cases {recvs : List RecvResult} {now : Int} {sends : List SendResult}
    {t : Session ρ} {phase : Option Action}
    (h : s.onReadable routing recvs now sends = (t, phase)) :
    (t = s.receive (drain recvs).1 ∧ (phase = none ∨ phase = some .close)) ∨
    ∃ eof, ((s.batch (drain recvs).1 eof now).answerAll routing).flush sends = (t, phase) := by
  cases hdrain : drain recvs with
  | mk bytes ending =>
    cases ending with
    | pending =>
      simp only [onReadable, hdrain, Prod.mk.injEq] at h
      exact .inl ⟨h.1.symm, .inl h.2.symm⟩
    | failed =>
      simp only [onReadable, hdrain, Prod.mk.injEq] at h
      exact .inl ⟨h.1.symm, .inr h.2.symm⟩
    | drained eof =>
      rw [onReadable_drained hdrain] at h
      exact .inr ⟨eof, h⟩

end Session

/-- A router that knows no page. -/
def noPages : Routing Unit where
  route _ _ := (.error 404, ())
  micros _ _ := 0

/-- The first wakeup brings one request, and a router without pages answers it. -/
theorem one_wakeup {chunk : Chunk} {parser : RequestParser}
    (hparse : ({} : RequestParser).parse chunk.bytes = (.Complete, parser, []))
    (hkeep : parser.req.keepAlive = true) :
    connectionStep noPages ({ server := () }, some .waitRead)
      (.readable [.data chunk, .wouldBlock] 0 []) =
        some (((({ server := () } : Session Unit).batch chunk.bytes false 0).respond noPages
          parser []).flush []) := by
  let s := ({ server := () } : Session Unit).batch chunk.bytes false 0
  have hbuffer : s.connection.readBuffer = chunk.bytes := rfl
  have hne : s.connection.readBuffer ≠ [] := chunk.nonempty
  have hgoing : (s.respond noPages parser []).connection.closeAfterWrite = false := by
    show (false || !(true && parser.req.keepAlive)) = false
    rw [hkeep]
    rfl
  have hall : s.answerAll noPages = s.respond noPages parser [] := by
    rw [Session.answerAll_going (hbuffer ▸ hparse) hne hgoing, Session.answerAll_nil rfl]
  have hdrain : Session.drain [.data chunk, .wouldBlock] = (chunk.bytes, .drained false) := by
    show (chunk.bytes ++ [], Session.Drained.drained false) = _
    rw [List.append_nil]
  show some (Session.onReadable _ _ _ _ _) = _
  rw [Session.onReadable_drained hdrain]
  show some ((s.answerAll noPages).flush []) = _
  rw [hall]

end WebServer
