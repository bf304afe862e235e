import WebServer.Laws.Http.Parse
import WebServer.Laws.Server.Delivery
import WebServer.Server.Conversation

/-!
# One answer for each request

While the stream is open, what a connection has answered is the conversation
of the requests a parser reads in what was received, however that was cut up
(`oneEach`). In particular a request that has arrived is not left in the
buffer: where the handler waits, the parser asks for more.
-/

namespace WebServer

open Base

variable {ρ : Type u} {routing : Routing ρ} {server : ρ} {s : Session ρ} {c : Conversation ρ}

namespace Session

/-- The parser has read all it can, and waits for more. -/
def Stuck (s : Session ρ) : Prop :=
  s.connection.parser.parse s.connection.readBuffer =
    (.NeedMore, s.connection.parser, s.connection.readBuffer)

/-- A session that has held this conversation and refused nothing. -/
structure Holds (s : Session ρ) (c : Conversation ρ) : Prop where
  completed : s.history.completed = c.answered
  routed : s.history.routed = c.answered
  rejected : s.history.rejected = []
  queued : s.history.queued = c.answers
  server : s.server = c.server
  closing : s.connection.closeAfterWrite = c.closed

/-- A session that has held this conversation and then refused a request. -/
structure Refuses (s : Session ρ) (c : Conversation ρ) (status : Nat) : Prop where
  completed : s.history.completed = c.answered
  routed : s.history.routed = c.answered
  rejected : s.history.rejected = [status]
  queued : s.history.queued =
    c.answers ++ [Conversation.refusal s.connection.parser.req status]
  closing : s.connection.closeAfterWrite = true

/-- What the handler makes of a conversation, by how the reading of its
requests ends: it waits where the parser waits, closes where the conversation
closed, and refuses where the parser does. -/
inductive Served (s : Session ρ) (c : Conversation ρ) :
    Ending RequestParser UInt8 Nat → Prop where
  | waits : s.Holds c → c.closed = false → s.Stuck →
      Served s c (.waiting s.connection.parser s.connection.readBuffer)
  | closes {ending : Ending RequestParser UInt8 Nat} : s.Holds c → c.closed = true →
      Served s c ending
  | refuses {status : Nat} : s.Refuses c status → c.closed = false →
      Served s c (.failed status)

/-! ## The parse loop -/

/-- The handler answers a completed request as the conversation does. -/
theorem Holds.respond (h : s.Holds c) (hopen : c.closed = false) (parser : RequestParser)
    (rest : Bytes) : (s.respond routing parser rest).Holds (c.ask routing parser.req) := by
  have hcompleted := h.completed
  have hrouted := h.routed
  have hqueued := h.queued
  have hclosing : s.connection.closeAfterWrite = false := by rw [h.closing, hopen]
  rw [Conversation.ask, if_neg (by rw [hopen]; exact Bool.false_ne_true)]
  constructor
  · simp only [Session.respond, appendResponse, record, hcompleted]
  · simp only [Session.respond, appendResponse, record, hrouted]
  · exact h.rejected
  · simp only [Session.respond, appendResponse, record, hqueued, h.server, Conversation.answer]
  · simp only [Session.respond, h.server]
  · simp only [Session.respond, appendResponse, record, hclosing, h.server, Conversation.answer,
      Bool.false_or]

/-- The handler answers a request that the parser refused with the parser's
status, and closes. -/
theorem Holds.reject (h : s.Holds c) (parser : RequestParser) :
    (s.reject parser).Refuses c parser.error := by
  have hrejected := h.rejected
  have hqueued := h.queued
  constructor
  · exact h.completed
  · exact h.routed
  · simp only [Session.reject, appendResponse, record, hrejected, List.nil_append]
  · simp only [Session.reject, appendResponse, record, hqueued, Conversation.refusal,
      Conversation.answer]
  · rfl

/-- The parse loop holds the conversation of the requests in the buffer. -/
theorem Holds.answerAll (routing : Routing ρ) (h : s.Holds c) (hopen : c.closed = false)
    (hready : s.connection.readBuffer = [] → s.Stuck) :
    let (requests, ending) := s.connection.parser.parseOn s.connection.readBuffer
    (s.answerAll routing).Served (c.hold routing requests) ending := by
  fun_induction Session.answerAll routing s generalizing c with
  | case1 s hempty =>
    rw [RequestParser.parseOn_needMore (hready hempty)]
    exact .waits h hopen (hready hempty)
  | case2 s hne parser rest hparse =>
    rw [RequestParser.parseOn_needMore hparse]
    exact .waits ⟨h.completed, h.routed, h.rejected, h.queued, h.server, h.closing⟩ hopen
      (RequestParser.parse_needMore_again hparse)
  | case3 s hne parser rest hparse =>
    rw [RequestParser.parseOn_error hparse]
    exact .refuses (h.reject parser) hopen
  | case4 s hne parser rest hparse t =>
    rename_i hclose
    have ht : (s.respond routing parser rest).Holds (c.ask routing parser.req) :=
      h.respond hopen parser rest
    have hclosed : (c.ask routing parser.req).closed = true := by rw [← ht.closing, hclose]
    rw [RequestParser.parseOn_complete hparse]
    simp only [Reader.prepend, List.singleton_append, Conversation.hold_cons,
      Conversation.hold_of_closed routing hclosed]
    exact .closes ⟨ht.completed, ht.routed, ht.rejected, ht.queued, ht.server, ht.closing⟩ hclosed
  | case5 s hne parser rest hparse t hgoing =>
    rename_i ih
    have ht : (s.respond routing parser rest).Holds (c.ask routing parser.req) :=
      h.respond hopen parser rest
    have hstill : (c.ask routing parser.req).closed = false := by
      rw [← ht.closing]
      exact eq_false_of_ne_true hgoing
    have hfresh : rest = [] → (s.respond routing parser rest).Stuck := by
      rintro rfl
      exact RequestParser.parse_fresh_nil
    rw [RequestParser.parseOn_complete hparse]
    exact ih ht hstill hfresh

theorem Served.flush {ending : Ending RequestParser UInt8 Nat} (h : s.Served c ending)
    (sends : List SendResult) : (s.flush sends).1.Served c ending := by
  obtain ⟨writeBuffer, writeOffset, sent, hflush⟩ := s.flush_leaves sends
  rw [hflush]
  cases h with
  | waits h hopen hstuck =>
    exact .waits ⟨h.completed, h.routed, h.rejected, h.queued, h.server, h.closing⟩ hopen hstuck
  | closes h hclosed =>
    exact .closes ⟨h.completed, h.routed, h.rejected, h.queued, h.server, h.closing⟩ hclosed
  | refuses h hopen =>
    exact .refuses ⟨h.completed, h.routed, h.rejected, h.queued, h.closing⟩ hopen

/-! ## Runs -/

/-- What a parser reads in the bytes received so far. -/
def reading (s : Session ρ) : List HttpRequest × Ending RequestParser UInt8 Nat :=
  RequestParser.feedChunks {} [] s.history.batches

/-- The conversation of the requests received so far. -/
def spoken (routing : Routing ρ) (server : ρ) (s : Session ρ) : Conversation ρ :=
  ({ server } : Conversation ρ).hold routing s.reading.1

/-- The record of a session is that of a conversation and of the refusal its
reading ended with. -/
structure Answered (s : Session ρ) (c : Conversation ρ)
    (ending : Ending RequestParser UInt8 Nat) : Prop where
  completed : s.history.completed = c.answered
  routed : s.history.routed = c.answered
  rejected : s.history.rejected = c.refused ending
  queued : s.history.queued =
    c.answers ++ (c.refused ending).map (Conversation.refusal s.connection.parser.req)

theorem Served.answered {ending : Ending RequestParser UInt8 Nat} (h : s.Served c ending) :
    s.Answered c ending := by
  cases h with
  | waits h hopen _ =>
    have hnone : c.refused (.waiting s.connection.parser s.connection.readBuffer) = [] := by
      rw [Conversation.refused, hopen]
      rfl
    exact ⟨h.completed, h.routed, by rw [hnone, h.rejected], by rw [hnone, h.queued]; simp⟩
  | closes h hclosed =>
    have hnone : c.refused ending = [] := by rw [Conversation.refused, if_pos hclosed]
    exact ⟨h.completed, h.routed, by rw [hnone, h.rejected], by rw [hnone, h.queued]; simp⟩
  | @refuses status h hopen =>
    have hone : c.refused (.failed status) = [status] := by
      rw [Conversation.refused, hopen]
      rfl
    exact ⟨h.completed, h.routed, by rw [hone, h.rejected], by rw [hone, h.queued]; rfl⟩

/-- A connection that is not closing waits, and its parser has read all it
can. -/
theorem Served.waiting {ending : Ending RequestParser UInt8 Nat} (h : s.Served c ending)
    (hopen : s.connection.closeAfterWrite = false) :
    s.Holds c ∧ c.closed = false ∧ s.Stuck ∧
      ending = .waiting s.connection.parser s.connection.readBuffer := by
  cases h with
  | waits h hc hstuck => exact ⟨h, hc, hstuck, rfl⟩
  | closes h hclosed =>
    rw [h.closing, hclosed] at hopen
    cases hopen
  | refuses h _ =>
    rw [h.closing] at hopen
    cases hopen

end Session

/-- No `recv` of the call finds the end of the stream or a failure. -/
def Wakeup.StreamOpen : Wakeup → Prop
  | .readable recvs _ _ => .eof ∉ recvs ∧ .failed ∉ recvs
  | _ => True

/-- What a run with an open stream keeps. -/
structure Serving (routing : Routing ρ) (server : ρ) (s : Session ρ) (phase : Option Action) :
    Prop where
  answered : s.Answered (s.spoken routing server) s.reading.2
  settled : phase = some .waitRead ∨ phase = some .waitWrite →
    s.Served (s.spoken routing server) s.reading.2
  going : phase = some .waitRead → s.connection.closeAfterWrite = false

/-- What `flush` is left with when the requests are answered. -/
theorem Serving.of_flush (h : s.Served (s.spoken routing server) s.reading.2)
    (sends : List SendResult) : Serving routing server (s.flush sends).1 (s.flush sends).2 := by
  have hbatches : (s.flush sends).1.history.batches = s.history.batches := by
    obtain ⟨writeBuffer, writeOffset, sent, hflush⟩ := s.flush_leaves sends
    rw [hflush]
  have hserved : (s.flush sends).1.Served ((s.flush sends).1.spoken routing server)
      (s.flush sends).1.reading.2 := by
    rw [Session.spoken, Session.reading, hbatches]
    exact h.flush sends
  refine ⟨hserved.answered, fun _ => hserved, fun hread => ?_⟩
  have hopen := Session.flush_waitRead hread
  obtain ⟨writeBuffer, writeOffset, sent, hflush⟩ := s.flush_leaves sends
  rw [hflush]
  exact hopen

/-- The parse loop answers a batch as the conversation goes on with the
requests in it. -/
theorem Session.Served.batch (h : s.Served (s.spoken routing server) s.reading.2)
    (hopen : s.connection.closeAfterWrite = false) (bytes : Bytes) (now : Int) :
    let t := (s.batch bytes false now).answerAll routing
    t.Served (t.spoken routing server) t.reading.2 := by
  intro t
  obtain ⟨hholds, hc, hstuck, hending⟩ := h.waiting hopen
  have hbatch : (s.batch bytes false now).Holds (s.spoken routing server) :=
    ⟨hholds.completed, hholds.routed, hholds.rejected, hholds.queued, hholds.server,
      by rw [Session.batch, Bool.or_false]; exact hholds.closing⟩
  have hready : (s.batch bytes false now).connection.readBuffer = [] →
      (s.batch bytes false now).Stuck := by
    intro hnil
    obtain ⟨-, rfl⟩ := List.append_eq_nil_iff.mp hnil
    have hsame : (s.batch [] false now).connection.readBuffer = s.connection.readBuffer :=
      List.append_nil _
    rw [Stuck, hsame]
    exact hstuck
  have hserved := hbatch.answerAll routing hc hready
  have hreading : t.reading = Reader.prepend s.reading.1
      (s.connection.parser.parseOn (s.connection.readBuffer ++ bytes)) := by
    rw [reading, answerAll_batches]
    exact RequestParser.feedChunks_snoc (Prod.ext rfl hending) bytes
  rw [spoken, hreading]
  simp only [Reader.prepend, Conversation.hold_append]
  exact hserved

/-- `onReadable` answers what it has received. -/
theorem Serving.onReadable (h : Serving routing server s (some .waitRead))
    {recvs : List RecvResult} (heof : .eof ∉ recvs) (now : Int) (sends : List SendResult) :
    Serving routing server (s.onReadable routing recvs now sends).1
      (s.onReadable routing recvs now sends).2 := by
  rcases hdrain : Session.drain recvs with ⟨bytes, _ | ⟨_ | _⟩ | _⟩
  case pending =>
    simp only [Session.onReadable, hdrain]
    exact ⟨⟨h.answered.completed, h.answered.routed, h.answered.rejected, h.answered.queued⟩,
      fun hphase => by simp at hphase, fun hphase => by cases hphase⟩
  case drained.false =>
    rw [Session.onReadable_drained hdrain]
    exact .of_flush ((h.settled (.inl rfl)).batch (h.going rfl) bytes now) sends
  case drained.true => exact absurd (Session.drain_eof hdrain) heof
  case failed =>
    simp only [Session.onReadable, hdrain]
    exact ⟨⟨h.answered.completed, h.answered.routed, h.answered.rejected, h.answered.queued⟩,
      fun hphase => by simp at hphase, fun hphase => by cases hphase⟩

theorem serving_step {phase phase' : Option Action} {wakeup : Wakeup} {t : Session ρ}
    (h : Serving routing server s phase) (hopen : wakeup.StreamOpen)
    (hstep : connectionStep routing (s, phase) wakeup = some (t, phase')) :
    Serving routing server t phase' := by
  rcases connectionStep_cases hstep with
    ⟨recvs, now, sends, rfl, rfl, hcall⟩ | ⟨sends, rfl, rfl, hcall⟩ | ⟨rfl, -, rfl, rfl⟩
  · have hread := h.onReadable hopen.1 now sends
    rw [hcall] at hread
    exact hread
  · have hwrite := Serving.of_flush (h.settled (.inr rfl)) sends
    rw [hcall] at hwrite
    exact hwrite
  · exact ⟨h.answered, fun hphase => by simp at hphase, fun hphase => by cases hphase⟩

theorem serving_run {phase : Option Action}
    (r : (connectionMachine routing server).Reach (fun _ wakeup => wakeup.StreamOpen) (s, phase)) :
    Serving routing server s phase := by
  refine r.invariant (I := fun state => Serving routing server state.1 state.2) ?_ ?_
  · have hstart : ({ server } : Session ρ).Served { server } (.waiting {} []) :=
      .waits ⟨rfl, rfl, rfl, rfl, rfl, rfl⟩ rfl RequestParser.parse_fresh_nil
    exact ⟨hstart.answered, fun _ => hstart, fun _ => rfl⟩
  · intro state wakeup state' h hopen hstep
    exact serving_step h hopen hstep

/-- One answer for each request the parser completes in what was received, in
order, and one for the refusal if there is one; each request is routed once; the
answers are what is sent and about to be sent; and no request that has arrived is
left behind. -/
structure OneEach (routing : Routing ρ) (server : ρ) (s : Session ρ) (phase : Option Action) :
    Prop where
  answered : s.Answered (s.spoken routing server) s.reading.2
  counted : s.history.queued.length = s.history.completed.length + s.history.rejected.length
  one_refusal : s.history.rejected.length ≤ 1
  in_order : s.history.completed <+: s.reading.1
  on_the_wire : s.Delivers
  all_answered : (s.spoken routing server).closed = false → s.history.completed = s.reading.1
  none_stranded : phase = some .waitRead ∨ phase = some .waitWrite →
    s.connection.closeAfterWrite = false → s.Stuck

theorem oneEach {phase : Option Action}
    (r : (connectionMachine routing server).Reach (fun _ wakeup => wakeup.StreamOpen) (s, phase)) :
    OneEach routing server s phase := by
  have h := serving_run r
  obtain ⟨hcompleted, hrouted, hrejected, hqueued⟩ := h.answered
  refine ⟨h.answered, ?_, ?_, ?_, (delivers_run r.reachable).1, ?_, ?_⟩
  · rw [hqueued, hcompleted, hrejected, List.length_append, List.length_map]
    congr 1
    exact Conversation.length_answers routing s.reading.1 rfl
  · rw [hrejected, Conversation.refused]
    split
    · exact Nat.zero_le 1
    · exact Option.length_toList_le
  · rw [hcompleted]
    exact Conversation.answered_prefix routing s.reading.1 { server }
  · intro hopen
    rw [hcompleted]
    exact Conversation.answered_of_open routing s.reading.1 hopen
  · intro hphase hopen
    exact ((h.settled hphase).waiting hopen).2.2.1

/-- `GET / HTTP/1.1` without header fields, as the parser reads it. -/
def rootRequest : HttpRequest where
  method := ascii "GET"
  target := ascii "/"
  path := ascii "/"
  version := ascii "HTTP/1.1"

/-- The parser that has read it. -/
def rootParser : RequestParser where
  state := .Done
  req := rootRequest
  headerBytes := 2

theorem parse_root (rest : Bytes) :
    ({} : RequestParser).parse (ascii "GET / HTTP/1.1" ++ CRLF ++ CRLF ++ rest) =
      (.Complete, rootParser, rest) := by
  have hline : ({} : RequestParser).turn (ascii "GET / HTTP/1.1" ++ CRLF ++ CRLF ++ rest) =
      .again { state := .Headers, req := rootRequest } (CRLF ++ rest) := rfl
  have hblock : ({ state := .Headers, req := rootRequest } : RequestParser).turn (CRLF ++ rest) =
      .again rootParser rest := rfl
  rw [RequestParser.parse_again hline, RequestParser.parse_again hblock]
  exact RequestParser.parse_ret rfl

theorem parse_root_only :
    ({} : RequestParser).parse (ascii "GET / HTTP/1.1" ++ CRLF ++ CRLF) =
      (.Complete, rootParser, []) := by
  have hroot := parse_root []
  rwa [List.append_nil] at hroot

/-- A request line but for its end. -/
def openLine : Chunk where
  bytes := ascii "GET / HTTP/1.1"
  nonempty := by decide
  fits := by decide

/-- The rest of that request, and a malformed one. -/
def restAndOneWord : Chunk where
  bytes := CRLF ++ CRLF ++ (ascii "x" ++ CRLF)
  nonempty := by decide
  fits := by decide

/-- A request that arrives in two wakeups is answered by the router, and the
malformed one behind it is refused. -/
theorem oneEach_split :
    let first := ({ server := () } : Session Unit).onReadable noPages
      [.data openLine, .wouldBlock] 0 []
    let second := first.1.onReadable noPages [.data restAndOneWord, .wouldBlock] 1 []
    second.1.history.completed = [rootRequest] ∧ second.1.history.rejected = [400] ∧
      OneEach noPages () second.1 second.2 := by
  intro first second
  let opened := ({ server := () } : Session Unit).batch openLine.bytes false 0
  let whole := opened.batch restAndOneWord.bytes false 1
  have hopen : opened.connection.parser.parse opened.connection.readBuffer =
      (.NeedMore, {}, openLine.bytes) := RequestParser.parse_ret rfl
  have hfirst : first = (opened, some .waitRead) := by
    have hdrain : Session.drain [.data openLine, .wouldBlock] =
        (openLine.bytes, .drained false) := rfl
    show Session.onReadable _ _ _ _ _ = _
    rw [Session.onReadable_drained hdrain, Session.answerAll_needMore hopen (by decide)]
    rfl
  have hwhole : whole.connection.parser.parse whole.connection.readBuffer =
      (.Complete, rootParser, ascii "x" ++ CRLF) := parse_root (ascii "x" ++ CRLF)
  have hword : ({} : RequestParser).parse (ascii "x" ++ CRLF) = (.Error, { error := 400 }, []) :=
    RequestParser.parse_ret rfl
  have hsecond : second =
      ((whole.respond noPages rootParser (ascii "x" ++ CRLF)).reject { error := 400 }).flush [] := by
    have hdrain : Session.drain [.data restAndOneWord, .wouldBlock] =
        (restAndOneWord.bytes, .drained false) := rfl
    show Session.onReadable _ first.1 _ _ _ = _
    rw [hfirst, Session.onReadable_drained hdrain, Session.answerAll_going hwhole (by decide) rfl,
      Session.answerAll_error hword (by decide)]
  have hstep : (connectionMachine noPages ()).step (connectionMachine noPages ()).start
      (.readable [.data openLine, .wouldBlock] 0 []) = some (opened, some .waitRead) :=
    congrArg some hfirst
  have hnext : (connectionMachine noPages ()).step (opened, some .waitRead)
      (.readable [.data restAndOneWord, .wouldBlock] 1 []) = some second := by
    show some (opened.onReadable _ _ _ _) = some (first.1.onReadable _ _ _ _)
    rw [hfirst]
  obtain ⟨writeBuffer, writeOffset, sent, hflush⟩ := Session.flush_leaves
    ((whole.respond noPages rootParser (ascii "x" ++ CRLF)).reject { error := 400 }) []
  refine ⟨?_, ?_, oneEach (.step (.step .start ?_ hstep) ?_ hnext)⟩
  · rw [hsecond, hflush]
    rfl
  · rw [hsecond, hflush]
    rfl
  · exact ⟨by simp, by simp⟩
  · exact ⟨by simp, by simp⟩

end WebServer
