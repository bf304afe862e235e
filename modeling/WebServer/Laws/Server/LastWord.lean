import WebServer.Laws.Http.Refusals
import WebServer.Laws.Server.Calls

/-!
# A closing response is the last

Every response carries a `Connection` field, which `serialize` writes from
`keepAlive`. The handler keeps to what the field announces: the responses before
the last one of a connection say `keep-alive`, and behind one that says `close`
nothing is answered and nothing is routed, however the connection goes on
(`closeIsLast`). A request that the parser refuses is answered with such a
response, so what follows a protocol error on the wire is not read as a request.
-/

namespace WebServer

open Base

variable {ρ : Type u} {routing : Routing ρ} {server : ρ} {s : Session ρ}

/-! ## What a response announces -/

namespace Queued

/-- A response on the wire, up to its `Connection` field. -/
def front (queued : Queued) : Bytes :=
  ascii "HTTP/1.1 " ++ decimalInt queued.response.status ++ [32] ++
    statusMessage queued.response.status ++ [13, 10] ++
  (ascii "Content-Length: " ++ decimal queued.response.body.length ++ [13, 10]) ++
  (ascii "Content-Type: " ++ queued.response.contentType ++ [13, 10])

/-- The `Connection` field, which `serialize` writes in front of the fields that a
router adds, has this value. -/
def Announces (queued : Queued) (value : Bytes) : Prop :=
  ∃ behind, queued.wire = queued.front ++ (ascii "Connection: " ++ value ++ [13, 10]) ++ behind

theorem announces_keepAlive (queued : Queued) :
    queued.Announces (if queued.response.keepAlive then ascii "keep-alive" else ascii "close") := by
  unfold Announces wire front HttpResponse.serialize
  simp only [List.append_assoc, List.append_right_inj]
  exact ⟨_, rfl⟩

/-- The field has one value: it cannot say `close` and `keep-alive`. -/
theorem not_announces_both {queued : Queued} (hclose : queued.Announces (ascii "close")) :
    ¬ queued.Announces (ascii "keep-alive") := by
  rintro ⟨behind, hkeep⟩
  obtain ⟨behind', hclose⟩ := hclose
  rw [hclose] at hkeep
  simp only [List.append_assoc, List.append_right_inj] at hkeep
  cases congrArg List.head? hkeep

theorem announces_close_iff (queued : Queued) :
    queued.Announces (ascii "close") ↔ queued.response.keepAlive = false := by
  have hfield := queued.announces_keepAlive
  cases hkeep : queued.response.keepAlive with
  | false =>
    rw [hkeep] at hfield
    exact iff_of_true hfield rfl
  | true =>
    rw [hkeep] at hfield
    exact iff_of_false (fun hclose => not_announces_both hclose hfield) Bool.false_ne_true.symm

theorem announces_keepAlive_iff (queued : Queued) :
    queued.Announces (ascii "keep-alive") ↔ queued.response.keepAlive = true := by
  have hfield := queued.announces_keepAlive
  cases hkeep : queued.response.keepAlive with
  | false =>
    rw [hkeep] at hfield
    exact iff_of_false (not_announces_both hfield) Bool.false_ne_true
  | true =>
    rw [hkeep] at hfield
    exact iff_of_true hfield rfl

end Queued

/-! ## What a run keeps -/

namespace Session

/-- Nothing was refused, and every response keeps the connection open; each
answers the request routed at its place. -/
structure KeepsOn (s : Session ρ) : Prop where
  open_ : ∀ queued ∈ s.history.queued, queued.response.keepAlive = true
  none_refused : s.history.rejected = []
  counted : s.history.queued.length = s.history.routed.length

/-- Only the last response may close, and if it does, or answers a refusal, the
connection is closing. -/
structure LastWord (s : Session ρ) : Prop where
  earlier : ∀ queued ∈ s.history.queued.dropLast, queued.response.keepAlive = true
  closing : s.connection.closeAfterWrite = false → s.KeepsOn
  counted : s.history.queued.length = s.history.routed.length + s.history.rejected.length
  refusals : ∀ status ∈ s.history.rejected, status ∈ protocolErrors ∧
    ∃ refusal, s.history.queued.getLast? = some refusal ∧
      refusal.response.status = status ∧ refusal.response.keepAlive = false

theorem KeepsOn.lastWord (h : s.KeepsOn) : s.LastWord where
  earlier queued hin := h.open_ queued (List.dropLast_subset _ hin)
  closing _ := h
  counted := by rw [h.none_refused, h.counted, List.length_nil, Nat.add_zero]
  refusals status hin := by
    rw [h.none_refused] at hin
    cases hin

/-- The response to a completed request is the last if the connection is closing
behind it. -/
theorem KeepsOn.respond (h : s.KeepsOn) (parser : RequestParser) (rest : Bytes) :
    (s.respond routing parser rest).LastWord := by
  have hcounted := h.counted
  constructor
  · simp only [Session.respond, appendResponse, record, List.dropLast_concat]
    exact h.open_
  · intro hopen
    simp only [Session.respond, appendResponse, record, Bool.or_eq_false_iff,
      Bool.not_eq_false'] at hopen
    constructor
    · simp only [Session.respond, appendResponse, record, List.mem_append, List.mem_singleton]
      rintro queued (hin | rfl)
      · exact h.open_ queued hin
      · exact hopen.2
    · exact h.none_refused
    · simp only [Session.respond, appendResponse, record, List.length_append, hcounted,
        List.length_singleton]
  · simp only [Session.respond, appendResponse, record, List.length_append, hcounted,
      List.length_singleton, h.none_refused, List.length_nil, Nat.add_zero]
  · intro status hin
    simp only [Session.respond, appendResponse, record, h.none_refused, List.not_mem_nil] at hin

/-- The response to a refused request is the last. -/
theorem KeepsOn.reject (h : s.KeepsOn) {parser : RequestParser}
    (herror : parser.error ∈ protocolErrors) : (s.reject parser).LastWord := by
  have hcounted := h.counted
  constructor
  · simp only [Session.reject, appendResponse, record, List.dropLast_concat]
    exact h.open_
  · intro hopen
    cases hopen
  · simp only [Session.reject, appendResponse, record, List.length_append, hcounted,
      List.length_singleton, h.none_refused, List.nil_append]
  · intro status hin
    simp only [Session.reject, appendResponse, record, h.none_refused, List.nil_append,
      List.mem_singleton] at hin
    rw [hin]
    refine ⟨herror, _, List.getLast?_concat, rfl, ?_⟩
    simp only [Bool.and_false]

/-- The parse loop stops behind a closing response. -/
theorem KeepsOn.answerAll (h : s.KeepsOn) : (s.answerAll routing).LastWord := by
  fun_induction Session.answerAll routing s with
  | case1 s hempty => exact h.lastWord
  | case2 s hne parser rest hparse =>
    exact KeepsOn.lastWord ⟨h.open_, h.none_refused, h.counted⟩
  | case3 s hne parser rest hparse => exact h.reject (RequestParser.parse_error hparse)
  | case4 s hne parser rest hparse t hclose =>
    have ht : t.LastWord := h.respond parser rest
    exact ⟨ht.earlier, fun hopen => absurd (hclose.symm.trans hopen) (by simp), ht.counted, ht.refusals⟩
  | case5 s hne parser rest hparse t hgoing ih =>
    have ht : t.LastWord := h.respond parser rest
    exact ih (ht.closing (eq_false_of_ne_true hgoing))

theorem LastWord.flush (h : s.LastWord) (sends : List SendResult) :
    (s.flush sends).1.LastWord := by
  obtain ⟨writeBuffer, writeOffset, sent, hflush⟩ := s.flush_leaves sends
  rw [hflush]
  refine ⟨h.earlier, fun hopen => ?_, h.counted, h.refusals⟩
  have hkeeps := h.closing hopen
  exact ⟨hkeeps.open_, hkeeps.none_refused, hkeeps.counted⟩

/-- A call that reads goes on only on a connection that is not closing. -/
theorem LastWord.onReadable (routing : Routing ρ) (h : s.LastWord)
    (hopen : s.connection.closeAfterWrite = false) (recvs : List RecvResult) (now : Int)
    (sends : List SendResult) :
    (s.onReadable routing recvs now sends).1.LastWord ∧
      ((s.onReadable routing recvs now sends).2 = some .waitRead →
        (s.onReadable routing recvs now sends).1.connection.closeAfterWrite = false) := by
  have hkeeps := h.closing hopen
  rcases hdrain : drain recvs with ⟨bytes, ending⟩
  cases ending with
  | pending =>
    simp only [Session.onReadable, hdrain]
    exact ⟨KeepsOn.lastWord ⟨hkeeps.open_, hkeeps.none_refused, hkeeps.counted⟩,
      fun hread => by cases hread⟩
  | failed =>
    simp only [Session.onReadable, hdrain]
    exact ⟨KeepsOn.lastWord ⟨hkeeps.open_, hkeeps.none_refused, hkeeps.counted⟩,
      fun hread => by cases hread⟩
  | drained eof =>
    rw [onReadable_drained hdrain]
    have hbatch : (s.batch bytes eof now).KeepsOn :=
      ⟨hkeeps.open_, hkeeps.none_refused, hkeeps.counted⟩
    refine ⟨hbatch.answerAll.flush sends, fun hread => ?_⟩
    rw [closeAfterWrite_flush]
    exact flush_waitRead hread

end Session

/-- Every call keeps the law, and none is made to read behind a closing
response. -/
theorem lastWord_step {phase phase' : Option Action} {wakeup : Wakeup} {t : Session ρ}
    (h : s.LastWord) (hread : phase = some .waitRead → s.connection.closeAfterWrite = false)
    (hstep : connectionStep routing (s, phase) wakeup = some (t, phase')) :
    t.LastWord ∧ (phase' = some .waitRead → t.connection.closeAfterWrite = false) := by
  rcases connectionStep_cases hstep with
    ⟨recvs, now, sends, -, hphase, hcall⟩ | ⟨sends, -, -, hcall⟩ | ⟨-, -, rfl, rfl⟩
  · have hnext := h.onReadable routing (hread hphase) recvs now sends
    rw [hcall] at hnext
    exact hnext
  · have hnext := h.flush sends
    have hopen := s.closeAfterWrite_flush sends
    rw [hcall] at hnext hopen
    refine ⟨hnext, fun hphase => ?_⟩
    rw [hopen]
    exact Session.flush_waitRead (by rw [hcall]; exact hphase)
  · exact ⟨h, fun hphase => by cases hphase⟩

theorem lastWord_run {phase : Option Action}
    (r : (connectionMachine routing server).Reachable (s, phase)) :
    s.LastWord ∧ (phase = some .waitRead → s.connection.closeAfterWrite = false) := by
  refine r.invariant (I := fun state => state.1.LastWord ∧
    (state.2 = some .waitRead → state.1.connection.closeAfterWrite = false)) ?_ ?_
  · exact ⟨Session.KeepsOn.lastWord ⟨List.forall_mem_nil _, rfl, rfl⟩, fun _ => rfl⟩
  · rintro ⟨s, phase⟩ wakeup ⟨t, phase'⟩ ⟨h, hread⟩ - hstep
    exact lastWord_step h hread hstep

/-! ## Behind a closing response -/

/-- What the handler has said and asked: the responses, and the requests that it
completed, refused and routed. -/
def Session.said (s : Session ρ) : List Queued × List HttpRequest × List Nat × List HttpRequest :=
  (s.history.queued, s.history.completed, s.history.rejected, s.history.routed)

/-- A connection that is closing only sends what it has queued. -/
theorem said_step {phase phase' : Option Action} {wakeup : Wakeup} {t : Session ρ}
    (hclosing : s.connection.closeAfterWrite = true) (hread : phase ≠ some .waitRead)
    (hstep : connectionStep routing (s, phase) wakeup = some (t, phase')) :
    t.said = s.said ∧ t.connection.closeAfterWrite = true ∧ phase' ≠ some .waitRead := by
  rcases connectionStep_cases hstep with
    ⟨recvs, now, sends, -, hphase, hcall⟩ | ⟨sends, -, -, hcall⟩ | ⟨-, -, rfl, rfl⟩
  · exact absurd hphase hread
  · obtain ⟨writeBuffer, writeOffset, sent, hflush⟩ := s.flush_leaves sends
    have hopen : (s.flush sends).2 = some .waitRead → _ := Session.flush_waitRead
    rw [hcall] at hflush hopen
    obtain rfl := hflush
    refine ⟨rfl, hclosing, fun hphase => ?_⟩
    rw [hopen hphase] at hclosing
    cases hclosing
  · exact ⟨rfl, hclosing, by simp⟩

theorem said_exec {state state' : Session ρ × Option Action} {wakeups : List Wakeup}
    (hclosing : state.1.connection.closeAfterWrite = true) (hread : state.2 ≠ some .waitRead)
    (hexec : (connectionMachine routing server).exec state wakeups = some state') :
    state'.1.said = state.1.said := by
  induction wakeups generalizing state with
  | nil =>
    cases hexec
    rfl
  | cons wakeup wakeups ih =>
    obtain ⟨next, hstep, hrest⟩ := Option.bind_eq_some_iff.mp hexec
    obtain ⟨hsaid, hclosing', hread'⟩ := said_step hclosing hread hstep
    rw [ih hclosing' hread' hrest, hsaid]

/-- The parse loop has ended with a closing response to a refused request, and
what was left of the input is gone. -/
def Session.RefusedBehind (t s : Session ρ) (status : Nat) : Prop :=
  status ∈ protocolErrors ∧ t.connection.readBuffer = [] ∧
    t.history.rejected = s.history.rejected ++ [status] ∧ t.history.routed = s.history.routed ∧
    ∃ refusal : Queued, t.history.queued = s.history.queued ++ [refusal] ∧
      refusal.response.status = status ∧ refusal.Announces (ascii "close")

theorem answerAll_refuses {parser : RequestParser} {rest : Bytes}
    (hne : s.connection.readBuffer ≠ [])
    (hparse : s.connection.parser.parse s.connection.readBuffer = (.Error, parser, rest)) :
    (s.answerAll routing).RefusedBehind s parser.error := by
  rw [Session.answerAll_error hparse hne]
  refine ⟨RequestParser.parse_error hparse, rfl, rfl, rfl, _, rfl, rfl, ?_⟩
  rw [Queued.announces_close_iff]
  exact Bool.and_false _

/-- The law of closing responses, in a state of a run. Every response before the
last one says `keep-alive`; one that says `close` is the last and no request was
routed behind it, and nothing the connection does from there on changes that. A
request that the parser refuses, in whatever state, is answered with such a
response. -/
structure CloseIsLast (routing : Routing ρ) (server : ρ) (s : Session ρ)
    (phase : Option Action) : Prop where
  earlier : ∀ front last, s.history.queued = front ++ [last] →
    ∀ queued ∈ front, queued.Announces (ascii "keep-alive")
  last : ∀ front queued behind, s.history.queued = front ++ queued :: behind →
    queued.Announces (ascii "close") →
    behind = [] ∧ s.history.routed.length ≤ front.length + 1
  final : ∀ queued ∈ s.history.queued, queued.Announces (ascii "close") →
    ∀ wakeups state, (connectionMachine routing server).exec (s, phase) wakeups = some state →
      state.1.said = s.said
  refusals : ∀ status ∈ s.history.rejected, status ∈ protocolErrors ∧
    ∃ refusal, s.history.queued.getLast? = some refusal ∧
      refusal.response.status = status ∧ refusal.Announces (ascii "close")
  refuses : ∀ {t : Session ρ} {parser : RequestParser} {rest : Bytes},
    t.connection.readBuffer ≠ [] →
    t.connection.parser.parse t.connection.readBuffer = (.Error, parser, rest) →
    (t.answerAll routing).RefusedBehind t parser.error

theorem closeIsLast {phase : Option Action}
    (r : (connectionMachine routing server).Reachable (s, phase)) :
    CloseIsLast routing server s phase := by
  obtain ⟨h, hread⟩ := lastWord_run r
  have hclosing : ∀ queued ∈ s.history.queued, queued.Announces (ascii "close") →
      s.connection.closeAfterWrite = true := by
    intro queued hin hclose
    by_contra hopen
    have hkeep := (h.closing (eq_false_of_ne_true hopen)).open_ queued hin
    rw [(Queued.announces_close_iff queued).mp hclose] at hkeep
    cases hkeep
  constructor
  · intro front last hqueued queued hin
    rw [Queued.announces_keepAlive_iff]
    refine h.earlier queued ?_
    rw [hqueued, List.dropLast_concat]
    exact hin
  · intro front queued behind hqueued hclose
    have hbehind : behind = [] := by
      by_contra hmore
      have hkeep := h.earlier queued (by
        rw [hqueued, List.dropLast_append_cons, List.dropLast_cons_of_ne_nil hmore]
        exact List.mem_append_right _ List.mem_cons_self)
      rw [(Queued.announces_close_iff queued).mp hclose] at hkeep
      cases hkeep
    refine ⟨hbehind, ?_⟩
    have hcounted := h.counted
    rw [hqueued, hbehind, List.length_append, List.length_singleton] at hcounted
    omega
  · intro queued hin hclose wakeups state hexec
    refine said_exec (hclosing queued hin hclose) (fun hphase => ?_) hexec
    have hopen := hread hphase
    rw [hclosing queued hin hclose] at hopen
    cases hopen
  · intro status hin
    obtain ⟨hstatus, refusal, hlast, hsame, hkeep⟩ := h.refusals status hin
    exact ⟨hstatus, refusal, hlast, hsame, (Queued.announces_close_iff refusal).mpr hkeep⟩
  · exact answerAll_refuses

/-- A malformed request, and one that is not behind it. -/
def oneWordAndRoot : Chunk where
  bytes := ascii "x" ++ CRLF ++ ascii "GET / HTTP/1.1" ++ CRLF ++ CRLF
  nonempty := by decide
  fits := by decide

/-- The malformed request is refused, and whatever becomes of the connection, the
other is not read. -/
theorem closeIsLast_refused :
    let called := ({ server := () } : Session Unit).onReadable noPages
      [.data oneWordAndRoot, .wouldBlock] 0 [.wouldBlock]
    called.2 = some .waitWrite ∧ called.1.history.rejected = [400] ∧
      ∀ wakeups state, (connectionMachine noPages ()).exec called wakeups = some state →
        state.1.history.routed = [] := by
  intro called
  let received := ({ server := () } : Session Unit).batch oneWordAndRoot.bytes false 0
  have hparse : received.connection.parser.parse received.connection.readBuffer =
      (.Error, { error := 400 }, ascii "GET / HTTP/1.1" ++ CRLF ++ CRLF) :=
    RequestParser.parse_ret rfl
  have hcalled : called = (received.reject { error := 400 }).flush [.wouldBlock] := by
    have hdrain : Session.drain [.data oneWordAndRoot, .wouldBlock] =
        (oneWordAndRoot.bytes, .drained false) := rfl
    show Session.onReadable _ _ _ _ _ = _
    rw [Session.onReadable_drained hdrain, Session.answerAll_error hparse (by decide)]
  have hstep : (connectionMachine noPages ()).step (connectionMachine noPages ()).start
      (.readable [.data oneWordAndRoot, .wouldBlock] 0 [.wouldBlock]) = some called := rfl
  have hlast : CloseIsLast noPages () called.1 called.2 :=
    closeIsLast (.step .start trivial hstep)
  have hrejected : called.1.history.rejected = [400] := by
    rw [hcalled]
    rfl
  refine ⟨by rw [hcalled]; rfl, hrejected, fun wakeups state hexec => ?_⟩
  obtain ⟨refusal, hin, hclose⟩ : ∃ refusal ∈ called.1.history.queued,
      refusal.Announces (ascii "close") := by
    obtain ⟨-, refusal, hrefusal, -, hclose⟩ := hlast.refusals 400 (by rw [hrejected]; exact List.mem_cons_self)
    exact ⟨refusal, List.mem_of_getLast? hrefusal, hclose⟩
  have hsaid := hlast.final refusal hin hclose wakeups state hexec
  have hrouted : state.1.history.routed = called.1.history.routed :=
    congrArg (fun said => said.2.2.2) hsaid
  rw [hrouted, hcalled]
  rfl

end WebServer
