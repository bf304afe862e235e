import WebServer.Laws.Http.Client
import WebServer.Laws.Http.LineFeeds
import WebServer.Laws.Server.Answers
import WebServer.Log.Logger

/-!
# The records of a connection

`appendResponse` logs a record for each request that the parser completes or refuses,
and puts into it what the client has sent: the `Host` value and the three parts of the
request line. `Told` cuts the octets received into those of the requests that have a
record, in order. A record is one line exactly when its request is unbroken
(`RecordOf.singleLine_iff`): a client who puts a line feed of its own into one of these
places writes lines of its own into the log.
-/

namespace WebServer

open Base

variable {ρ : Type u} {routing : Routing ρ} {server : ρ} {s : Session ρ}

/-- One line feed, and nothing behind it. -/
def SingleLine (line : Bytes) : Prop := ∃ text, LF ∉ text ∧ line = text ++ [LF]

theorem singleLine_concat (text : Bytes) : SingleLine (text ++ [LF]) ↔ LF ∉ text := by
  constructor
  · rintro ⟨front, hfront, heq⟩
    rw [List.append_cancel_right heq]
    exact hfront
  · exact fun h => ⟨text, h, rfl⟩

theorem lf_not_mem_twoDigits (n : Nat) : LF ∉ twoDigits n := by
  have hdecimal : LF ∉ decimal n := not_mem_decimal (by decide) n
  unfold twoDigits
  split
  · rw [List.mem_append, not_or]
    exact ⟨by decide, hdecimal⟩
  · exact hdecimal

theorem lf_not_mem_getTime (timeParts : TimeParts) : LF ∉ getTime timeParts := by
  have hyear : LF ∉ decimalInt (timeParts.year + 1900) :=
    not_mem_decimalInt (by decide) (by decide) _
  have hdash : LF ∉ ascii "-" := by decide
  have hcolon : LF ∉ ascii ":" := by decide
  have hblank : LF ∉ ascii " " := by decide
  simp only [getTime, List.mem_append, hyear, hdash, hcolon, hblank, lf_not_mem_twoDigits, or_false,
    not_false_eq_true]

/-- Of all that goes into a record, only what the client has sent can break it. -/
theorem singleLine_logData_iff (timeParts : TimeParts) (request : HttpRequest)
    (response : HttpResponse) :
    SingleLine (LogCall.data (getTime timeParts) (logData request response)).line ↔
      request.Unsplit := by
  have htime := lf_not_mem_getTime timeParts
  have hcode : LF ∉ decimalInt response.status := not_mem_decimalInt (by decide) (by decide) _
  have hsize : LF ∉ decimal response.body.length := not_mem_decimal (by decide) _
  have hfront : LF ∉ ascii " - " := by decide
  have hblank : LF ∉ ascii " " := by decide
  have hlevel : LF ∉ LogLevel.info.str := by decide +kernel
  have hopen : LF ∉ ascii " \"" := by decide
  have hclose : LF ∉ ascii "\" " := by decide
  have hend : ascii "\n" = [LF] := rfl
  simp only [LogCall.line, logData, hend, singleLine_concat, List.mem_append, htime, hcode, hsize,
    hfront, hblank, hlevel, hopen, hclose, or_false, not_or]
  simp only [HttpRequest.Unsplit, HttpRequest.startLine, List.mem_append, not_or]
  tauto

/-! ## What the records are of -/

/-- A record of a request that is completed or refused at these octets. -/
structure RecordOf (text : Bytes) (data : LogData) : Prop where
  read : ∃ result parser rest response, ({} : RequestParser).parse text = (result, parser, rest) ∧
    result ≠ .NeedMore ∧ data = logData parser.req response

/-- The octets received are those of the requests that have a record, in order, and
some behind them. -/
structure Session.Told (s : Session ρ) (texts : List Bytes) (pending : Bytes) : Prop where
  stream : s.history.batches.flatten = texts.flatten ++ pending
  records : List.Forall₂ RecordOf texts s.history.logged

theorem RecordOf.singleLine_iff {text : Bytes} {data : LogData} (h : RecordOf text data)
    (timeParts : TimeParts) :
    SingleLine (LogCall.data (getTime timeParts) data).line ↔ Unbroken text := by
  obtain ⟨result, parser, rest, response, hparse, hmore, rfl⟩ := h.read
  rw [singleLine_logData_iff, RequestParser.unsplit_iff hparse hmore]

/-- A completed request has its own octets for a text. -/
theorem recordOf_complete {pending rest : Bytes} {parser : RequestParser}
    (hparse : ({} : RequestParser).parse pending = (.Complete, parser, rest))
    (response : HttpResponse) :
    ∃ wire, pending = wire ++ rest ∧ RecordOf wire (logData parser.req response) := by
  obtain ⟨wire, hwire, hrequest⟩ := RequestParser.wireRequest_of_parse hparse
  obtain ⟨p, hp, hreq⟩ := RequestParser.parse_of_wireRequest hrequest []
  rw [List.append_nil] at hp
  exact ⟨wire, hwire, .Complete, p, [], response, hp, Result.noConfusion, by rw [hreq]⟩

namespace Session

/-- What is in the buffer when a parse is due: the parser has been fed a part of the
octets that are pending, and the rest stands behind what that left. -/
structure Due (s : Session ρ) (pending : Bytes) : Prop where
  fed : ∃ received buffer chunk, RequestParser.Fed received s.connection.parser buffer ∧
    s.connection.readBuffer = buffer ++ chunk ∧ pending = received ++ chunk

/-- The parser has been fed the octets that are pending. -/
def Waits (s : Session ρ) (pending : Bytes) : Prop :=
  RequestParser.Fed pending s.connection.parser s.connection.readBuffer

theorem Due.parse {pending : Bytes} (h : s.Due pending) :
    s.connection.parser.parse s.connection.readBuffer = ({} : RequestParser).parse pending := by
  obtain ⟨received, buffer, chunk, hfed, hbuffer, rfl⟩ := h.fed
  rw [hbuffer]
  exact hfed.parse chunk

theorem Due.needMore {pending rest : Bytes} {parser : RequestParser} (h : s.Due pending)
    (hparse : s.connection.parser.parse s.connection.readBuffer = (.NeedMore, parser, rest)) :
    RequestParser.Fed pending parser rest := by
  obtain ⟨received, buffer, chunk, hfed, hbuffer, rfl⟩ := h.fed
  rw [hbuffer] at hparse
  exact .more hfed hparse

/-- The octets behind a completed request are due for a fresh parser. -/
theorem due_fresh {parser : RequestParser} {rest : Bytes} :
    (s.respond routing parser rest).Due rest where
  fed := ⟨[], [], rest, .fresh, rfl, rfl⟩

variable {texts : List Bytes} {pending : Bytes}

theorem Told.respond (h : s.Told texts pending) {parser : RequestParser} {rest wire : Bytes}
    (hwire : pending = wire ++ rest)
    (hrecord : RecordOf wire (logData parser.req (routing.route s.server parser.req).1)) :
    (s.respond routing parser rest).Told (texts ++ [wire]) rest where
  stream := by
    rw [List.flatten_append, List.flatten_singleton, List.append_assoc, ← hwire]
    exact h.stream
  records := List.rel_append h.records (.cons hrecord .nil)

theorem Told.reject (h : s.Told texts pending) {parser : RequestParser}
    (hrecord : RecordOf pending (logData parser.req (.error parser.error))) :
    (s.reject parser).Told (texts ++ [pending]) [] where
  stream := by
    rw [List.flatten_append, List.flatten_singleton, List.append_nil]
    exact h.stream
  records := List.rel_append h.records (.cons hrecord .nil)

/-- The parse loop makes its records, and if it does not close the parser has taken
what is left. -/
theorem Told.answerAll (routing : Routing ρ) (h : s.Told texts pending) (hdue : s.Due pending) :
    ∃ texts' pending', (s.answerAll routing).Told texts' pending' ∧
      ((s.answerAll routing).connection.closeAfterWrite = false →
        (s.answerAll routing).Waits pending') := by
  fun_induction Session.answerAll routing s generalizing texts pending with
  | case1 s hnil =>
    refine ⟨texts, pending, h, fun _ => ?_⟩
    obtain ⟨received, buffer, chunk, hfed, hbuffer, rfl⟩ := hdue.fed
    obtain ⟨rfl, rfl⟩ := List.append_eq_nil_iff.mp (hbuffer.symm.trans hnil)
    rw [Waits, hnil, List.append_nil]
    exact hfed
  | case2 s hne parser rest hparse =>
    exact ⟨texts, pending, ⟨h.stream, h.records⟩, fun _ => hdue.needMore hparse⟩
  | case3 s hne parser rest hparse =>
    have hrecord : RecordOf pending (logData parser.req (.error parser.error)) :=
      ⟨.Error, parser, rest, _, hdue.parse.symm.trans hparse, Result.noConfusion, rfl⟩
    exact ⟨_, _, h.reject hrecord, fun hopen => Bool.noConfusion hopen⟩
  | case4 s hne parser rest hparse t =>
    rename_i hclose
    obtain ⟨wire, hwire, hrecord⟩ := recordOf_complete (hdue.parse.symm.trans hparse)
      (routing.route s.server parser.req).1
    have ht : t.Told (texts ++ [wire]) rest := h.respond hwire hrecord
    exact ⟨_, _, ⟨ht.stream, ht.records⟩, fun hopen => absurd (hclose.symm.trans hopen) (by simp)⟩
  | case5 s hne parser rest hparse t hgoing =>
    rename_i ih
    obtain ⟨wire, hwire, hrecord⟩ := recordOf_complete (hdue.parse.symm.trans hparse)
      (routing.route s.server parser.req).1
    exact ih (h.respond hwire hrecord) due_fresh

/-- Sending makes no record. -/
theorem flush_told (h : s.Told texts pending) (sends : List SendResult) :
    (s.flush sends).1.Told texts pending := by
  obtain ⟨writeBuffer, writeOffset, sent, hflush⟩ := s.flush_leaves sends
  rw [hflush]
  exact ⟨h.stream, h.records⟩

theorem flush_waits (h : s.Waits pending) (sends : List SendResult) :
    (s.flush sends).1.Waits pending := by
  obtain ⟨writeBuffer, writeOffset, sent, hflush⟩ := s.flush_leaves sends
  rw [hflush]
  exact h

end Session

/-! ## Runs -/

/-- What a run keeps: the records are told, and a connection that goes on has been fed
what is pending. -/
structure Recounts (state : Session ρ × Option Action) (texts : List Bytes) (pending : Bytes) :
    Prop where
  told : state.1.Told texts pending
  waits : state.2 = some .waitRead ∨ state.2 = some .waitWrite →
    state.1.connection.closeAfterWrite = false → state.1.Waits pending
  reads : state.2 = some .waitRead → state.1.connection.closeAfterWrite = false

theorem recounts_start (server : ρ) : Recounts (({ server } : Session ρ), some .waitRead) [] [] where
  told := ⟨rfl, .nil⟩
  waits _ _ := .fresh
  reads _ := rfl

theorem Recounts.step {state state' : Session ρ × Option Action} {wakeup : Wakeup}
    {texts : List Bytes} {pending : Bytes} (h : Recounts state texts pending)
    (hs : connectionStep routing state wakeup = some state') :
    ∃ texts' pending', Recounts state' texts' pending' := by
  obtain ⟨s, phase⟩ := state
  obtain ⟨t, phase'⟩ := state'
  rcases connectionStep_cases hs with ⟨recvs, now, sends, rfl, rfl, hread⟩ |
    ⟨sends, rfl, rfl, hwrite⟩ | ⟨rfl, hphase, rfl, rfl⟩
  · rcases Session.onReadable_cases hread with ⟨rfl, hstop⟩ | ⟨eof, hflush⟩
    · refine ⟨texts, pending, ⟨h.told.stream, h.told.records⟩, fun hgoes => ?_, fun hgoes => ?_⟩
      · rcases hstop with rfl | rfl <;> simp at hgoes
      · rcases hstop with rfl | rfl <;> cases hgoes
    · let b := s.batch (Session.drain recvs).1 eof now
      have htold : b.Told texts (pending ++ (Session.drain recvs).1) := by
        refine ⟨?_, h.told.records⟩
        show (s.history.batches ++ [_]).flatten = _
        rw [List.flatten_append, List.flatten_singleton, h.told.stream, List.append_assoc]
      have hdue : b.Due (pending ++ (Session.drain recvs).1) :=
        ⟨pending, s.connection.readBuffer, _, h.waits (.inl rfl) (h.reads rfl), rfl, rfl⟩
      obtain ⟨texts', pending', htold', hwaits'⟩ := htold.answerAll routing hdue
      have hflushed := Session.flush_told htold' sends
      have hclosing := (b.answerAll routing).closeAfterWrite_flush sends
      have hagain : ((b.answerAll routing).flush sends).2 = some .waitRead → _ :=
        Session.flush_waitRead
      have hfed : ∀ hopen, _ := fun hopen => Session.flush_waits (hwaits' hopen) sends
      rw [hflush] at hflushed hclosing hagain hfed
      refine ⟨texts', pending', hflushed, fun _ hopen => hfed ?_, fun hphase => ?_⟩
      · rw [← hclosing]
        exact hopen
      · rw [hclosing]
        exact hagain hphase
  · have hflushed := Session.flush_told h.told sends
    have hclosing := s.closeAfterWrite_flush sends
    have hagain : (s.flush sends).2 = some .waitRead → _ := Session.flush_waitRead
    have hfed : ∀ hopen, _ := fun hopen => Session.flush_waits (h.waits (.inr rfl) hopen) sends
    rw [hwrite] at hflushed hclosing hagain hfed
    refine ⟨texts, pending, hflushed, fun _ hopen => hfed ?_, fun hphase => ?_⟩
    · rw [← hclosing]
      exact hopen
    · rw [hclosing]
      exact hagain hphase
  · exact ⟨texts, pending, h.told, fun hgoes => by simp at hgoes, fun hgoes => by cases hgoes⟩

theorem recounts {state : Session ρ × Option Action}
    (r : (connectionMachine routing server).Reachable state) :
    ∃ texts pending, Recounts state texts pending :=
  r.invariant (I := fun state => ∃ texts pending, Recounts state texts pending)
    ⟨[], [], recounts_start server⟩ fun _ _ _ ⟨_, _, h⟩ _ hs => h.step hs

/-- What holds of the right-hand members of related lists, read from the left. -/
theorem forall₂_forall_iff {α β : Type} {R : α → β → Prop} {P : β → Prop} {Q : α → Prop}
    (hRel : ∀ a b, R a b → (P b ↔ Q a)) {as : List α} {bs : List β} (h : List.Forall₂ R as bs) :
    (∀ b ∈ bs, P b) ↔ ∀ a ∈ as, Q a := by
  induction h with
  | nil => exact iff_of_true (List.forall_mem_nil P) (List.forall_mem_nil Q)
  | cons hab _ ih => rw [List.forall_mem_cons, List.forall_mem_cons, hRel _ _ hab, ih]

/-- In every run of a connection, whatever the time is, all its records are single
lines exactly when all the requests that have a record are unbroken. -/
theorem records_singleLine_iff {phase : Option Action}
    (r : (connectionMachine routing server).Reachable (s, phase)) :
    (∃ texts pending, s.Told texts pending) ∧
      ∀ texts pending, s.Told texts pending →
        ((∀ data ∈ s.history.logged, ∀ timeParts,
            SingleLine (LogCall.data (getTime timeParts) data).line) ↔
          ∀ text ∈ texts, Unbroken text) := by
  obtain ⟨texts, pending, h⟩ := recounts r
  refine ⟨⟨texts, pending, h.told⟩, fun texts pending told => ?_⟩
  apply forall₂_forall_iff (R := RecordOf) _ told.records
  intro text data hrecord
  constructor
  · intro hsingle
    exact (hrecord.singleLine_iff ⟨0, 0, 1, 0, 0, 0⟩).mp (hsingle _)
  · intro hunbroken timeParts
    exact (hrecord.singleLine_iff timeParts).mpr hunbroken

/-- A connection that brings one request has one record. -/
theorem one_record {chunk : Chunk} {parser : RequestParser}
    (hparse : ({} : RequestParser).parse chunk.bytes = (.Complete, parser, []))
    (hkeep : parser.req.keepAlive = true) :
    ∃ (s : Session Unit) (phase : Option Action),
      (connectionMachine noPages ()).Reachable (s, phase) ∧ s.history.batches = [chunk.bytes] ∧
        s.history.logged = [logData parser.req (.error 404)] := by
  let answered := (({ server := () } : Session Unit).batch chunk.bytes false 0).respond noPages
    parser []
  have hstep : (connectionMachine noPages ()).step (connectionMachine noPages ()).start
      (.readable [.data chunk, .wouldBlock] 0 []) = some (answered.flush []) :=
    one_wakeup hparse hkeep
  obtain ⟨writeBuffer, writeOffset, sent, hflush⟩ := answered.flush_leaves []
  refine ⟨(answered.flush []).1, (answered.flush []).2, .step .start trivial hstep, ?_⟩
  rw [hflush]
  exact ⟨rfl, rfl⟩

/-- The request of `parse_root` has a record of one line. -/
theorem records_singleLine_iff_root :
    ∃ (s : Session Unit) (phase : Option Action),
      (connectionMachine noPages ()).Reachable (s, phase) ∧ s.history.logged ≠ [] ∧
        ∀ data ∈ s.history.logged, ∀ timeParts,
          SingleLine (LogCall.data (getTime timeParts) data).line := by
  let chunk : Chunk := ⟨ascii "GET / HTTP/1.1" ++ CRLF ++ CRLF, by decide, by decide⟩
  have hparse : ({} : RequestParser).parse chunk.bytes = (.Complete, rootParser, []) :=
    parse_root_only
  obtain ⟨s, phase, r, hbatches, hlogged⟩ := one_record hparse rfl
  have told : s.Told [chunk.bytes] [] := by
    refine ⟨by rw [hbatches, List.append_nil], ?_⟩
    rw [hlogged]
    exact .cons ⟨.Complete, rootParser, [], _, hparse, Result.noConfusion, rfl⟩ .nil
  have hopens : Opens chunk.bytes (ascii "GET / HTTP/1.1") CRLF := by
    refine ⟨?_, by decide +kernel, by decide⟩
    show _ ++ CRLF ++ CRLF = _
    rw [List.append_assoc]
  have hlines : fieldLines maxHeaderBlock CRLF = [] := by
    rw [← List.append_nil CRLF, ← List.nil_append (CRLF ++ []), fieldLines_line (by decide)]
    exact if_neg fun htaken => htaken.2 rfl
  refine ⟨s, phase, r, by rw [hlogged]; exact List.cons_ne_nil _ _,
    ((records_singleLine_iff r).2 _ _ told).mpr ?_⟩
  rw [List.forall_mem_singleton, RequestParser.unbroken_iff hopens, hlines]
  exact ⟨fun _ => by decide, fun _ => List.forall_mem_nil _⟩

/-- A request whose `Host` value has a line feed in it. -/
def forgedRequest : HttpRequest :=
  { rootRequest with
    headers := RequestParser.addHeader ∅ (ascii "host") (ascii "a" ++ [LF] ++ ascii "b") }

/-- It is taken, and its record is two lines. -/
theorem not_records_singleLine :
    ¬ ∀ (s : Session Unit) (phase : Option Action),
      (connectionMachine noPages ()).Reachable (s, phase) →
        ∀ data ∈ s.history.logged, ∀ timeParts,
          SingleLine (LogCall.data (getTime timeParts) data).line := by
  intro all
  let chunk : Chunk := ⟨ascii "GET / HTTP/1.1" ++ (CRLF ++
    (ascii "Host: a" ++ [LF] ++ ascii "b" ++ (CRLF ++ CRLF))), by decide, by decide⟩
  have hparse : ({} : RequestParser).parse chunk.bytes =
      (.Complete, { state := .Done, req := forgedRequest, headerBytes := 13 }, []) := by
    have hline : ({} : RequestParser).turn chunk.bytes =
        .again { state := .Headers, req := rootRequest }
          (ascii "Host: a" ++ [LF] ++ ascii "b" ++ (CRLF ++ CRLF)) := rfl
    have hfield : ({ state := .Headers, req := rootRequest } : RequestParser).turn
        (ascii "Host: a" ++ [LF] ++ ascii "b" ++ (CRLF ++ CRLF)) =
        .again { state := .Headers, req := forgedRequest, headerBytes := 11 } CRLF := rfl
    have hblank : ({ state := .Headers, req := forgedRequest, headerBytes := 11 } :
        RequestParser).turn CRLF =
        .again { state := .Done, req := forgedRequest, headerBytes := 13 } [] := rfl
    rw [RequestParser.parse_again hline, RequestParser.parse_again hfield,
      RequestParser.parse_again hblank]
    exact RequestParser.parse_ret rfl
  obtain ⟨s, phase, r, -, hlogged⟩ := one_record hparse rfl
  have hsingle := all s phase r
  rw [hlogged, List.forall_mem_singleton] at hsingle
  have hunsplit := (singleLine_logData_iff ⟨0, 0, 1, 0, 0, 0⟩ _ _).mp (hsingle _)
  exact hunsplit.2 (by decide +kernel)

end WebServer
