import WebServer.Laws.Http.Retention
import WebServer.Laws.Server.Calls

/-!
# What a connection holds of what it has read

The limits of the parser hold for what it leaves behind: less than `maxBody` bytes
after every call of the handler that goes on (`Leftover`). They are applied once the
socket is drained, and the `recv` loop counts nothing. How much a call reads before
`EAGAIN` is decided by the client, and the buffer stays within the parser's limits and
one `recv` exactly as long as every call leaves it there (`readBuffer_within`).
-/

namespace WebServer

open Base

variable {ρ : Type u} {routing : Routing ρ} {server : ρ} {s : Session ρ}

/-- What the parser may leave behind, and one `recv`. -/
def readLimit : Nat := maxRequestLine + maxHeaderBlock + maxBody + recvBuffer

/-- How many bytes come in before the socket is drained, at its end, or fails. -/
def arriving : List RecvResult → Nat
  | .data chunk :: recvs => chunk.bytes.length + arriving recvs
  | .interrupted :: recvs => arriving recvs
  | _ => 0

/-- What comes in with this wakeup has room behind what the last call left unparsed. -/
def Fits (state : Session ρ × Option Action) : Wakeup → Prop
  | .readable recvs _ _ => state.1.connection.readBuffer.length + arriving recvs ≤ readLimit
  | .writable _ => True
  | .hangup => True

namespace Session

/-! ## The recv loop -/

theorem drain_length (recvs : List RecvResult) : (drain recvs).1.length = arriving recvs := by
  induction recvs with
  | nil => rfl
  | cons recv recvs ih =>
    cases recv with
    | data chunk =>
      show (chunk.bytes ++ (drain recvs).1).length = chunk.bytes.length + arriving recvs
      rw [List.length_append, ih]
    | interrupted => exact ih
    | _ => rfl

/-- The moment of the loop at which all has come in and nothing is decided yet. -/
theorem drain_moment (recvs : List RecvResult) :
    ∃ earlier, earlier <+: recvs ∧ drain earlier = ((drain recvs).1, .pending) := by
  induction recvs with
  | nil => exact ⟨[], List.prefix_refl _, rfl⟩
  | cons recv recvs ih =>
    obtain ⟨earlier, hprefix, hdrain⟩ := ih
    cases recv with
    | data chunk =>
      refine ⟨.data chunk :: earlier, List.cons_prefix_cons.mpr ⟨rfl, hprefix⟩, ?_⟩
      simp only [drain, hdrain]
    | interrupted =>
      exact ⟨.interrupted :: earlier, List.cons_prefix_cons.mpr ⟨rfl, hprefix⟩, hdrain⟩
    | _ => exact ⟨[], List.nil_prefix, rfl⟩

/-! ## The parse loop -/

/-- The parse loop that starts at `s` comes by `t`. -/
inductive Answering (routing : Routing ρ) (s : Session ρ) : Session ρ → Prop where
  | start : Answering routing s s
  | answered {t : Session ρ} {parser : RequestParser} {rest : Bytes} :
      Answering routing s t →
      t.connection.parser.parse t.connection.readBuffer = (.Complete, parser, rest) →
      (t.respond routing parser rest).connection.closeAfterWrite = false →
      Answering routing s (t.respond routing parser rest)

/-- Parsing takes from the buffer and puts nothing there. -/
theorem Answering.shrinks {t : Session ρ} (h : s.Answering routing t) :
    t.connection.readBuffer.length ≤ s.connection.readBuffer.length := by
  induction h with
  | start => exact Nat.le_refl _
  | @answered t parser rest _ hparse _ ih =>
    have hsuffix := t.connection.parser.parse_suffix t.connection.readBuffer
    rw [hparse] at hsuffix
    exact hsuffix.length_le.trans ih

theorem maxBody_pos : 0 < maxBody := by decide

theorem answerAll_shrinks (s : Session ρ) :
    (s.answerAll routing).connection.readBuffer.length ≤ s.connection.readBuffer.length := by
  fun_induction Session.answerAll routing s with
  | case1 s hnil => exact Nat.le_refl _
  | case2 s hne parser rest hparse =>
    have hsuffix := s.connection.parser.parse_suffix s.connection.readBuffer
    rw [hparse] at hsuffix
    exact hsuffix.length_le
  | case3 s hne parser rest hparse => exact Nat.zero_le _
  | case4 s hne parser rest hparse t hclose => exact Nat.zero_le _
  | case5 s hne parser rest hparse t hgoing ih =>
    have hsuffix := s.connection.parser.parse_suffix s.connection.readBuffer
    rw [hparse] at hsuffix
    exact ih.trans hsuffix.length_le

/-- What the parse loop leaves is within the limits of an unfinished request. -/
theorem answerAll_leaves (routing : Routing ρ) (h : s.connection.parser.contentLength ≤ maxBody) :
    (s.answerAll routing).connection.parser.contentLength ≤ maxBody ∧
      (s.answerAll routing).connection.readBuffer.length < maxBody := by
  fun_induction Session.answerAll routing s with
  | case1 s hnil =>
    rw [hnil]
    exact ⟨h, maxBody_pos⟩
  | case2 s hne parser rest hparse =>
    have hlength := RequestParser.parse_contentLength h s.connection.readBuffer
    rw [hparse] at hlength
    exact ⟨hlength, RequestParser.parse_needMore_length h hparse⟩
  | case3 s hne parser rest hparse =>
    have hlength := RequestParser.parse_contentLength h s.connection.readBuffer
    rw [hparse] at hlength
    exact ⟨hlength, maxBody_pos⟩
  | case4 s hne parser rest hparse t hclose => exact ⟨Nat.zero_le _, maxBody_pos⟩
  | case5 s hne parser rest hparse t hgoing ih => exact ih (Nat.zero_le _)

/-! ## Calls -/

/-- Sending leaves the reading side alone. -/
theorem flush_reading {t : Session ρ} {sends : List SendResult} {phase : Option Action}
    (h : s.flush sends = (t, phase)) :
    t.connection.readBuffer = s.connection.readBuffer ∧
      t.connection.parser = s.connection.parser := by
  obtain ⟨writeBuffer, writeOffset, sent, hflush⟩ := s.flush_leaves sends
  rw [h] at hflush
  dsimp only at hflush
  rw [hflush]
  exact ⟨rfl, rfl⟩

theorem receive_length (s : Session ρ) (recvs : List RecvResult) :
    (s.receive (drain recvs).1).connection.readBuffer.length =
      s.connection.readBuffer.length + arriving recvs := by
  show (s.connection.readBuffer ++ (drain recvs).1).length = _
  rw [List.length_append, drain_length]

theorem batch_length (s : Session ρ) (recvs : List RecvResult) (eof : Bool) (now : Int) :
    (s.batch (drain recvs).1 eof now).connection.readBuffer.length =
      s.connection.readBuffer.length + arriving recvs :=
  s.receive_length recvs

end Session

/-- What the last call left, while the connection goes on. -/
structure Leftover (state : Session ρ × Option Action) : Prop where
  announced : state.1.connection.parser.contentLength ≤ maxBody
  short : state.2 = some .waitRead ∨ state.2 = some .waitWrite →
    state.1.connection.readBuffer.length < maxBody

theorem Leftover.start (server : ρ) : Leftover ({ server }, some .waitRead) where
  announced := Nat.zero_le _
  short _ := Session.maxBody_pos

theorem Leftover.step {state state' : Session ρ × Option Action} {wakeup : Wakeup}
    (h : Leftover state) (hs : connectionStep routing state wakeup = some state') :
    Leftover state' := by
  obtain ⟨s, phase⟩ := state
  obtain ⟨t, phase'⟩ := state'
  rcases connectionStep_cases hs with ⟨recvs, now, sends, rfl, rfl, hread⟩ |
    ⟨sends, rfl, rfl, hwrite⟩ | ⟨rfl, hphase, rfl, rfl⟩
  · rcases Session.onReadable_cases hread with ⟨rfl, hstop⟩ | ⟨eof, hflush⟩
    · -- the connection does not go on from a call that stopped
      constructor
      · exact h.announced
      · intro hgoes
        rcases hstop with rfl | rfl <;> simp at hgoes
    · obtain ⟨hbuffer, hparser⟩ := Session.flush_reading hflush
      have hleaves := Session.answerAll_leaves routing
        (s := s.batch (Session.drain recvs).1 eof now) h.announced
      constructor
      · show t.connection.parser.contentLength ≤ maxBody
        rw [hparser]
        exact hleaves.1
      · intro _
        show t.connection.readBuffer.length < maxBody
        rw [hbuffer]
        exact hleaves.2
  · obtain ⟨hbuffer, hparser⟩ := Session.flush_reading hwrite
    constructor
    · show t.connection.parser.contentLength ≤ maxBody
      rw [hparser]
      exact h.announced
    · intro _
      show t.connection.readBuffer.length < maxBody
      rw [hbuffer]
      exact h.short (.inr rfl)
  · constructor
    · exact h.announced
    · simp

theorem leftover {state : Session ρ × Option Action}
    (r : (connectionMachine routing server).Reachable state) : Leftover state :=
  r.invariant (I := Leftover) (Leftover.start server) fun _ _ _ h _ hs => h.step hs

/-- A call that fits keeps the buffer within the limit. -/
theorem within_step {state state' : Session ρ × Option Action} {wakeup : Wakeup}
    (h : state.1.connection.readBuffer.length ≤ readLimit) (fits : Fits state wakeup)
    (hs : connectionStep routing state wakeup = some state') :
    state'.1.connection.readBuffer.length ≤ readLimit := by
  obtain ⟨s, phase⟩ := state
  obtain ⟨t, phase'⟩ := state'
  rcases connectionStep_cases hs with ⟨recvs, now, sends, rfl, rfl, hread⟩ |
    ⟨sends, rfl, rfl, hwrite⟩ | ⟨rfl, hphase, rfl, rfl⟩
  · rcases Session.onReadable_cases hread with ⟨rfl, hstop⟩ | ⟨eof, hflush⟩
    · exact (s.receive_length recvs).trans_le fits
    · show t.connection.readBuffer.length ≤ readLimit
      rw [(Session.flush_reading hflush).1]
      refine (Session.answerAll_shrinks _).trans ?_
      exact (s.batch_length recvs eof now).trans_le fits
  · show t.connection.readBuffer.length ≤ readLimit
    rw [(Session.flush_reading hwrite).1]
    exact h
  · exact h

/-- A moment inside the `recv` loop. -/
theorem pending_step (routing : Routing ρ) (s : Session ρ) {recvs : List RecvResult}
    (h : (Session.drain recvs).2 = .pending) (now : Int) (sends : List SendResult) :
    connectionStep routing (s, some .waitRead) (.readable recvs now sends) =
      some (s.receive (Session.drain recvs).1, none) := by
  have hdrain : Session.drain recvs = ((Session.drain recvs).1, .pending) := Prod.ext rfl h
  show some (s.onReadable routing recvs now sends) = _
  rw [Session.onReadable, hdrain]

/-- The limit in a connection's life, and where it is lost. -/
structure ReadsWithin (routing : Routing ρ) (server : ρ) : Prop where
  /-- In a run of calls that fit, every state is within the limit, the moments inside
  the `recv` loop included. -/
  run : ∀ (s : Session ρ) phase, (connectionMachine routing server).Reach Fits (s, phase) →
    s.connection.readBuffer.length ≤ readLimit
  /-- So is every moment of the parse loop that follows. -/
  parsing : ∀ (s t : Session ρ) recvs eof now,
    s.connection.readBuffer.length + arriving recvs ≤ readLimit →
    (s.batch (Session.drain recvs).1 eof now).Answering routing t →
    t.connection.readBuffer.length ≤ readLimit
  /-- A call that does not fit is past the limit at one of its `recv`s. -/
  exceeded : ∀ (s : Session ρ) recvs now sends,
    ¬ Fits (s, some .waitRead) (.readable recvs now sends) → ∃ earlier t, earlier <+: recvs ∧
      connectionStep routing (s, some .waitRead) (.readable earlier now sends) = some (t, none) ∧
      readLimit < t.connection.readBuffer.length
  /-- What a call may bring in whatever the run before it was. -/
  modest : ∀ (s : Session ρ) recvs now sends,
    (connectionMachine routing server).Reachable (s, some .waitRead) →
    arriving recvs ≤ maxRequestLine + maxHeaderBlock + recvBuffer →
    Fits (s, some .waitRead) (.readable recvs now sends)

/-- The read buffer stays within the limit exactly as long as every call to `onReadable`
finds the room for what comes in before its socket is drained. -/
theorem readBuffer_within (routing : Routing ρ) (server : ρ) : ReadsWithin routing server := by
  constructor
  · intro s phase r
    refine r.invariant (I := fun state => state.1.connection.readBuffer.length ≤ readLimit) ?_ ?_
    · exact Nat.zero_le _
    · intro state wakeup state' h fits hs
      exact within_step h fits hs
  · intro s t recvs eof now hfits hmoment
    refine hmoment.shrinks.trans ?_
    exact (s.batch_length recvs eof now).trans_le hfits
  · intro s recvs now sends hfull
    obtain ⟨earlier, hprefix, hdrain⟩ := Session.drain_moment recvs
    refine ⟨earlier, s.receive (Session.drain earlier).1, hprefix, ?_, ?_⟩
    · exact pending_step routing s (congrArg Prod.snd hdrain) now sends
    · rw [congrArg Prod.fst hdrain, Session.receive_length]
      exact Nat.lt_of_not_le hfull
  · intro s recvs now sends r hmodest
    have hshort := (leftover r).short (.inl rfl)
    show s.connection.readBuffer.length + arriving recvs ≤ readLimit
    unfold readLimit
    dsimp only at hshort
    omega

/-- A connection that brings half a request line. -/
def halfLine : Chunk where
  bytes := ascii "GET /"
  nonempty := by decide
  fits := by decide

/-- It arrives, and the socket is drained. -/
def halfLineRun : List Wakeup := [.readable [.data halfLine, .wouldBlock] 0 []]

/-- Half a request line fits. -/
theorem readBuffer_within_halfLine :
    ∃ s phase, (connectionMachine noPages ()).exec (connectionMachine noPages ()).start
        halfLineRun = some (s, phase) ∧ s.connection.readBuffer.length ≤ readLimit := by
  obtain ⟨state, hs⟩ : ∃ state, (connectionMachine noPages ()).exec
      (connectionMachine noPages ()).start halfLineRun = some state := ⟨_, rfl⟩
  refine ⟨state.1, state.2, hs, (readBuffer_within noPages ()).run state.1 state.2 ?_⟩
  have hroom : ([] : Bytes).length + arriving [.data halfLine, .wouldBlock] ≤ readLimit := by
    decide
  have hfits : (connectionMachine noPages ()).Meets Fits (connectionMachine noPages ()).start
      halfLineRun := ⟨hroom, fun _ _ => trivial⟩
  exact .of_exec .start hfits hs

/-- A full `recv` buffer. -/
def fullRecv : Chunk where
  bytes := List.replicate recvBuffer 71
  nonempty h := absurd (congrArg List.length h) (by rw [List.length_replicate]; decide)
  fits := List.length_replicate.le

theorem arriving_replicate (chunk : Chunk) (n : Nat) :
    arriving (List.replicate n (.data chunk)) = n * chunk.bytes.length := by
  induction n with
  | zero => exact (Nat.zero_mul _).symm
  | succ n ih =>
    rw [List.replicate_succ, arriving, ih, Nat.succ_mul, Nat.add_comm]

/-- A client that fills 67 `recv` buffers before the socket is drained has the
connection hold more than the limit. -/
theorem readBuffer_exceeds :
    ∃ s phase, (connectionMachine noPages ()).Reachable (s, phase) ∧
      readLimit < s.connection.readBuffer.length := by
  have hpending : ∀ n, (Session.drain (List.replicate n (.data fullRecv))).2 = .pending := by
    intro n
    induction n with
    | zero => rfl
    | succ n ih => exact ih
  refine ⟨Session.receive { server := () }
    (Session.drain (List.replicate 67 (.data fullRecv))).1, none, ?_, ?_⟩
  · have hstep := pending_step noPages { server := () } (hpending 67) 0 []
    exact Machine.Reach.step (a := .readable (List.replicate 67 (.data fullRecv)) 0 [])
      .start trivial hstep
  · have hlength : fullRecv.bytes.length = recvBuffer := List.length_replicate
    have hpast : readLimit < 67 * recvBuffer := by decide
    rw [Session.receive_length, arriving_replicate, hlength]
    exact hpast.trans_le (Nat.le_add_left _ _)

end WebServer
