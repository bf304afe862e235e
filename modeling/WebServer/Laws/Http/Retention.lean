import WebServer.Base.Machine
import WebServer.Laws.Http.Grammar

/-!
# What an unfinished request can hold on to

Between two calls the parser holds the header table and the body, and its caller the
buffer. `Bounded` is what keeps the table small: what is stored is paid for by the
octets of the header lines, which are counted and limited. A line pays for its name,
its value and the two octets that joining a repeated field adds, since it had a
colon and a line end beside them (`storedBytes_addHeader`, `field_length`). The
buffer is limited where `parse` asks for more (`turn_needMore`).
-/

namespace WebServer

open Base

/-! ## The header table -/

/-- The length of all stored names and values. -/
def storedBytes (headers : Headers) : Nat :=
  (headers.entries.flatMap fun entry => entry.1 ++ entry.2).length

/-- A new field adds its name and its value, a repeated one its value and the
separator. -/
theorem storedBytes_addHeader (headers : Headers) (name value : Bytes) :
    storedBytes (RequestParser.addHeader headers name value) ≤
      storedBytes headers + name.length + value.length + 2 := by
  unfold RequestParser.addHeader
  cases hl : headers.lookup name with
  | none =>
    have hnew : name ∉ headers := AList.lookup_eq_none.mp hl
    unfold storedBytes
    rw [AList.entries_insert_of_notMem hnew]
    simp only [List.flatMap_cons, List.length_append]
    omega
  | some old =>
    have hmem : name ∈ headers.entries.keys :=
      AList.mem_keys.mp (AList.lookup_isSome.mp (by rw [hl]; rfl))
    obtain ⟨stored, front, back, -, hentries, herase⟩ := List.exists_of_kerase hmem
    have hstored : stored = old := by
      have hin : (⟨name, stored⟩ : Sigma fun _ : Bytes => Bytes) ∈ headers.entries := by
        rw [hentries]
        exact List.mem_append_right _ List.mem_cons_self
      have hlookup := AList.mem_lookup_iff.mpr hin
      rw [hl] at hlookup
      exact (Option.some.inj hlookup).symm
    have hsep : (ascii ", ").length = 2 := by decide
    unfold storedBytes
    rw [AList.entries_insert, herase, hentries, hstored]
    simp only [List.flatMap_cons, List.flatMap_append, List.length_append, hsep]
    omega

theorem trim_length (text : Bytes) : (trim text).length ≤ text.length :=
  (List.rdropWhile_prefix _ _).length_le.trans (List.dropWhile_suffix _).length_le

/-- A field line is longer than the name and the value it carries. -/
theorem field_length {line : Bytes} {colon : Nat} (h : find (ascii ":") line = some colon) :
    (toLower (trim (line.take colon))).length + (trim (line.drop (colon + 1))).length + 1 ≤
      line.length := by
  have hfit := find_fits (by decide) h
  have hname := trim_length (line.take colon)
  have hvalue := trim_length (line.drop (colon + 1))
  have hlower : (toLower (trim (line.take colon))).length = (trim (line.take colon)).length :=
    List.length_map _
  have hone : (ascii ":").length = 1 := by decide
  rw [List.length_take] at hname
  rw [List.length_drop] at hvalue
  omega

/-! ## One round -/

/-- What is stored is paid for, and no more than the limits allow. -/
structure RequestParser.Bounded (p : RequestParser) : Prop where
  stored : storedBytes p.req.headers ≤ p.headerBytes
  block : p.headerBytes ≤ maxHeaderBlock

/-- The parser a round leaves. -/
def Turn.parser : Turn → RequestParser
  | .again parser _ => parser
  | .ret _ parser _ => parser

namespace RequestParser

theorem applyConnection_headers (req : HttpRequest) :
    (applyConnection req).headers = req.headers := by
  unfold applyConnection
  dsimp only
  split
  · rfl
  · split <;> rfl

/-- `finishHeaders` announces no body beyond the limit, and stores nothing. -/
theorem finishHeaders_keeps {p q : RequestParser} {ok : Bool} (h : p.finishHeaders = (ok, q)) :
    q.headerBytes = p.headerBytes ∧ q.req.headers = p.req.headers ∧
      (p.contentLength ≤ maxBody → q.contentLength ≤ maxBody) := by
  cases finished_of_finishHeaders h with
  | unannounced => exact ⟨rfl, applyConnection_headers _, id⟩
  | announced _ _ _ _ fits => exact ⟨rfl, applyConnection_headers _, fun _ => fits⟩
  | _ => exact ⟨rfl, rfl, id⟩

/-- The announced length is within the limit after every round, a refusal
included. -/
theorem turn_contentLength {p : RequestParser} (h : p.contentLength ≤ maxBody) (buffer : Bytes) :
    (p.turn buffer).parser.contentLength ≤ maxBody := by
  generalize ht : p.turn buffer = t
  cases turn_round ht with
  | @lineRefused line rest q _ _ _ parsed | @line line rest q _ _ _ _ parsed =>
    show q.contentLength ≤ maxBody
    rw [(parseRequestLine_rest parsed).2.1]
    exact h
  | headersRefused _ _ finished | headers _ _ _ finished =>
    exact (finishHeaders_keeps finished).2.2 h
  | _ => exact h

/-- A round that goes on keeps the parser bounded. -/
theorem Bounded.turn {p p' : RequestParser} {buffer rest : Bytes} (h : p.Bounded)
    (ht : p.turn buffer = .again p' rest) : p'.Bounded := by
  have hstored := h.stored
  cases turn_round ht with
  | @line _ _ q _ _ _ _ parsed =>
    obtain ⟨-, -, hbytes, -, hheaders⟩ := parseRequestLine_rest parsed
    constructor
    · show storedBytes q.req.headers ≤ q.headerBytes
      rw [hheaders, hbytes]
      exact hstored
    · show q.headerBytes ≤ maxHeaderBlock
      rw [hbytes]
      exact h.block
  | @headers _ q _ _ fits finished =>
    obtain ⟨hbytes, hheaders, -⟩ := finishHeaders_keeps finished
    constructor
    · show storedBytes q.req.headers ≤ q.headerBytes
      rw [hheaders, hbytes]
      exact hstored.trans (Nat.le_add_right _ _)
    · show q.headerBytes ≤ maxHeaderBlock
      rw [hbytes]
      exact fits
  | @field line _ colon _ _ _ fits found =>
    have hpaid := field_length found
    have hadded := storedBytes_addHeader p.req.headers (toLower (trim (line.take colon)))
      (trim (line.drop (colon + 1)))
    constructor
    · show storedBytes (addHeader p.req.headers _ _) ≤ p.headerBytes + (line.length + 2)
      omega
    · exact fits
  | body => exact ⟨hstored, h.block⟩

/-- Where `parse` asks for more, the buffer is within the limit of the state. -/
structure Waits (p : RequestParser) (buffer : Bytes) : Prop where
  requestLine : p.state = .RequestLine → buffer.length ≤ maxRequestLine
  headers : p.state = .Headers → buffer.length + p.headerBytes ≤ maxHeaderBlock
  body : p.state = .Body → buffer.length < p.contentLength ∧ p.contentLength ≤ maxBody

theorem turn_needMore {p p' : RequestParser} {buffer rest : Bytes}
    (ht : p.turn buffer = .ret .NeedMore p' rest) :
    p' = p ∧ (p.contentLength ≤ maxBody → p.Waits rest) := by
  cases turn_round ht with
  | lineWaits state _ fits =>
    refine ⟨rfl, fun _ => ?_⟩
    constructor
    · exact fun _ => fits
    · simp [state]
    · simp [state]
  | headersWait state _ fits =>
    refine ⟨rfl, fun _ => ?_⟩
    constructor
    · simp [state]
    · exact fun _ => fits
    · simp [state]
  | bodyWaits state short =>
    refine ⟨rfl, fun h => ?_⟩
    constructor
    · simp [state]
    · simp [state]
    · exact fun _ => ⟨short, h⟩

theorem turn_complete {p p' : RequestParser} {buffer rest : Bytes}
    (ht : p.turn buffer = .ret .Complete p' rest) : p' = p := by
  cases turn_round ht with
  | done => rfl

/-! ## One call -/

theorem parse_contentLength {p : RequestParser} (h : p.contentLength ≤ maxBody) (buffer : Bytes) :
    (p.parse buffer).2.1.contentLength ≤ maxBody := by
  fun_induction parse p buffer with
  | case1 p buffer p' buffer' ht ih =>
    have hturn := turn_contentLength h buffer
    rw [ht] at hturn
    exact ih hturn
  | case2 p buffer result p' buffer' ht =>
    have hturn := turn_contentLength h buffer
    rw [ht] at hturn
    exact hturn

/-- A call that asks for more leaves a buffer within the limits. -/
theorem parse_needMore {p p' : RequestParser} {buffer rest : Bytes} (h : p.contentLength ≤ maxBody)
    (hparse : p.parse buffer = (.NeedMore, p', rest)) : p'.Waits rest := by
  fun_induction parse p buffer with
  | case1 p buffer q buffer' ht ih =>
    have hturn := turn_contentLength h buffer
    rw [ht] at hturn
    exact ih hturn hparse
  | case2 p buffer result q buffer' ht =>
    cases hparse
    obtain ⟨rfl, hwaits⟩ := turn_needMore ht
    exact hwaits h

/-- Whatever the state, less than the largest body is left when `parse` asks for more. -/
theorem parse_needMore_length {p p' : RequestParser} {buffer rest : Bytes}
    (h : p.contentLength ≤ maxBody) (hparse : p.parse buffer = (.NeedMore, p', rest)) :
    rest.length < maxBody := by
  have hwaits := parse_needMore h hparse
  have hagain := parse_needMore_again hparse
  have hline : maxRequestLine < maxBody := by decide
  have hblock : maxHeaderBlock < maxBody := by decide
  cases hs : p'.state with
  | RequestLine => exact (hwaits.requestLine hs).trans_lt hline
  | Headers => exact ((Nat.le_add_right _ _).trans (hwaits.headers hs)).trans_lt hblock
  | Body => exact (hwaits.body hs).1.trans_le (hwaits.body hs).2
  | Done =>
    -- a completed request asks for nothing
    have hret : p'.turn rest = .ret .Complete p' rest := by
      unfold RequestParser.turn
      simp only [hs]
    rw [parse_ret hret] at hagain
    cases hagain

/-- A call that does not fail keeps the parser bounded. -/
theorem Bounded.parse {p p' : RequestParser} {buffer rest : Bytes} {result : Result}
    (h : p.Bounded) (hparse : p.parse buffer = (result, p', rest)) (hresult : result ≠ .Error) :
    p'.Bounded := by
  fun_induction RequestParser.parse p buffer with
  | case1 p buffer q buffer' ht ih => exact ih (h.turn ht) hparse
  | case2 p buffer result q buffer' ht =>
    cases hparse
    cases result with
    | Error => exact absurd rfl hresult
    | NeedMore =>
      rw [(turn_needMore ht).1]
      exact h
    | Complete =>
      rw [turn_complete ht]
      exact h

theorem bounded_fresh : ({} : RequestParser).Bounded where
  stored := Nat.zero_le _
  block := Nat.zero_le _

end RequestParser

/-! ## Any sequence of calls -/

/-- A parser, the buffer it is given, and what its caller has been told. -/
structure Feeding where
  parser : RequestParser := {}
  buffer : Bytes := []
  /-- What the last call was answered, if that call was to `parse`. -/
  answer : Option Result := none
  /-- `parse` has answered `Error` since the last `reset`. -/
  failed : Bool := false

inductive FeedCall where
  /-- The caller appends a chunk to the buffer. -/
  | append (chunk : Bytes)
  | parse
  | reset

/-- A fresh parser under any sequence of calls. -/
def feedingMachine : Machine Feeding FeedCall where
  start := {}
  step s call :=
    match call with
    | .append chunk => some { s with buffer := s.buffer ++ chunk, answer := none }
    | .parse =>
      let (result, parser, rest) := s.parser.parse s.buffer
      some { parser, buffer := rest, answer := some result, failed := s.failed || result = .Error }
    | .reset => some { s with parser := s.parser.reset, answer := none, failed := false }

/-- What is held on to between two calls. -/
structure Feeding.Retains (s : Feeding) : Prop where
  needMore : s.answer = some .NeedMore → s.parser.Waits s.buffer
  fields : s.failed = false → s.parser.Bounded

/-- Every call keeps what is held on to within the limits. -/
theorem Feeding.Retains.step {s s' : Feeding} {call : FeedCall} (h : s.Retains)
    (length : s.parser.contentLength ≤ maxBody) (hs : feedingMachine.step s call = some s') :
    s'.Retains ∧ s'.parser.contentLength ≤ maxBody := by
  cases call with
  | append chunk =>
    cases hs
    refine ⟨?_, length⟩
    constructor
    · intro hanswer
      cases hanswer
    · exact h.fields
  | parse =>
    cases hs
    refine ⟨?_, RequestParser.parse_contentLength length s.buffer⟩
    constructor
    · intro hanswer
      have hresult : (s.parser.parse s.buffer).1 = .NeedMore := Option.some.inj hanswer
      exact RequestParser.parse_needMore length (Prod.ext hresult rfl)
    · intro hfailed
      simp only [Bool.or_eq_false_iff, decide_eq_false_iff_not] at hfailed
      exact (h.fields hfailed.1).parse rfl hfailed.2
  | reset =>
    cases hs
    refine ⟨?_, Nat.zero_le _⟩
    constructor
    · intro hanswer
      cases hanswer
    · intro _
      exact RequestParser.bounded_fresh

/-- Whatever is fed and however it is cut, what an unfinished request makes the server
hold on to is within the limits. -/
theorem retains {s : Feeding} (r : feedingMachine.Reachable s) : s.Retains := by
  have hinv : s.Retains ∧ s.parser.contentLength ≤ maxBody := by
    refine r.invariant (I := fun s => s.Retains ∧ s.parser.contentLength ≤ maxBody) ?_ ?_
    · refine ⟨?_, Nat.zero_le _⟩
      constructor
      · intro hanswer
        cases hanswer
      · intro _
        exact RequestParser.bounded_fresh
    · intro s call s' h _ hs
      exact h.1.step h.2 hs
  exact hinv.1

/-- A request line, a repeated field, and half a line, in two chunks. -/
def halfway : List FeedCall :=
  [.append (ascii "GET / HTTP/1.1\r\nA: b\r"), .parse, .append (ascii "\nA: c\r\nHo"), .parse]

/-- What is held on to halfway through a request. -/
theorem retains_halfway :
    ∃ s, feedingMachine.exec feedingMachine.start halfway = some s ∧ s.Retains := by
  obtain ⟨s, hs⟩ : ∃ s, feedingMachine.exec feedingMachine.start halfway = some s := ⟨_, rfl⟩
  exact ⟨s, hs, retains (.of_exec hs)⟩

end WebServer
