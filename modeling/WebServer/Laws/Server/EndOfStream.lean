import WebServer.Laws.Server.Answers

/-!
# End of stream

A client may send its requests and then half-close. When the end of stream is
found in a call of its own, every request before it has been answered. When the
call that finds it also brings requests, it sets `closeAfterWrite` before they
are parsed, and the parse loop takes the flag for that of the first answer: it
stops there and drops the rest (`eof_drops_second`). The two agree exactly when
there is one answer to give (`sameAnswers_iff`).
-/

namespace WebServer

open Base

variable {ρ : Type u} {routing : Routing ρ} {server : ρ} {s : Session ρ}

namespace Session

/-- The requests routed, and the status and body of each response queued. -/
def answers (s : Session ρ) : List HttpRequest × List (Int × Bytes) :=
  (s.history.routed, s.history.queued.map fun queued =>
    (queued.response.status, queued.response.body))

theorem answers_flush (s : Session ρ) (sends : List SendResult) :
    (s.flush sends).1.answers = s.answers := by
  obtain ⟨writeBuffer, writeOffset, sent, hflush⟩ := s.flush_leaves sends
  rw [hflush]
  rfl

/-! ## What the parse loop adds -/

/-- The parse loop takes no answer back. -/
theorem queued_le_answerAll (s : Session ρ) :
    s.history.queued.length ≤ (s.answerAll routing).history.queued.length := by
  fun_induction Session.answerAll routing s with
  | case1 s hempty => exact Nat.le_refl _
  | case2 s hne parser rest hparse => exact Nat.le_refl _
  | case3 s hne parser rest hparse =>
    simp only [Session.reject, appendResponse, record, List.length_append]
    exact Nat.le_add_right _ _
  | case4 s hne parser rest hparse t hclose =>
    simp only [t, respond, appendResponse, record, List.length_append]
    exact Nat.le_add_right _ _
  | case5 s hne parser rest hparse t hgoing ih =>
    refine Nat.le_trans ?_ ih
    simp only [t, respond, appendResponse, record, List.length_append]
    exact Nat.le_add_right _ _

/-- A request the parser completes or refuses is answered. -/
theorem queued_lt_answerAll (hne : s.connection.readBuffer ≠ [])
    (h : (s.connection.parser.parse s.connection.readBuffer).1 ≠ .NeedMore) :
    s.history.queued.length < (s.answerAll routing).history.queued.length := by
  rcases hparse : s.connection.parser.parse s.connection.readBuffer with ⟨result, parser, rest⟩
  rw [hparse] at h
  cases result with
  | NeedMore => exact absurd rfl h
  | Error =>
    rw [answerAll_error hparse hne]
    simp [Session.reject, appendResponse, record]
  | Complete =>
    have hone : s.history.queued.length <
        (s.respond routing parser rest).history.queued.length := by
      simp [respond, appendResponse, record]
    cases hclose : (s.respond routing parser rest).connection.closeAfterWrite with
    | true =>
      rw [answerAll_closing hparse hne hclose]
      exact hone
    | false =>
      rw [answerAll_going hparse hne hclose]
      exact Nat.lt_of_lt_of_le hone (queued_le_answerAll _)

/-- Where the parser asks for more, nothing is answered. -/
theorem answers_answerAll_needMore
    (h : (s.connection.parser.parse s.connection.readBuffer).1 = .NeedMore) :
    (s.answerAll routing).answers = s.answers := by
  by_cases hempty : s.connection.readBuffer = []
  · rw [answerAll_nil hempty]
  · rcases hparse : s.connection.parser.parse s.connection.readBuffer with ⟨result, parser, rest⟩
    rw [hparse] at h
    cases h
    rw [answerAll_needMore hparse hempty]
    rfl

/-- There is one answer to give at most: if a request is complete and its
answer keeps the connection, what is behind it is the beginning of a request or
nothing. -/
def OneAnswerDue (routing : Routing ρ) (s : Session ρ) (bytes : Bytes) : Prop :=
  ∀ parser rest,
    s.connection.parser.parse (s.connection.readBuffer ++ bytes) = (.Complete, parser, rest) →
    ((routing.route s.server parser.req).1.keepAlive && parser.req.keepAlive) = true →
    (({} : RequestParser).parse rest).1 = .NeedMore

/-- The parse loop gives the same answers with the end of stream found and with
it not found yet exactly when there is one answer to give. -/
theorem answers_batch_iff (hopen : s.connection.closeAfterWrite = false)
    (hstuck : s.Stuck) (bytes : Bytes) (now now' : Int) :
    ((s.batch bytes true now).answerAll routing).answers =
        ((s.batch bytes false now').answerAll routing).answers ↔
      s.OneAnswerDue routing bytes := by
  let found := s.batch bytes true now
  let due := s.batch bytes false now'
  rcases hparse : s.connection.parser.parse (s.connection.readBuffer ++ bytes) with
    ⟨result, parser, rest⟩
  have hfound : found.connection.parser.parse found.connection.readBuffer =
      (result, parser, rest) := hparse
  have hdue : due.connection.parser.parse due.connection.readBuffer = (result, parser, rest) :=
    hparse
  by_cases hneed : result = .NeedMore
  · subst hneed
    have hone : s.OneAnswerDue routing bytes := fun p r hp => by rw [hparse] at hp; cases hp
    refine iff_of_true ?_ hone
    rw [answers_answerAll_needMore (by rw [hfound]), answers_answerAll_needMore (by rw [hdue])]
    rfl
  -- What is not asked for more of is not empty.
  have hne : s.connection.readBuffer ++ bytes ≠ [] := fun hnil => by
    obtain ⟨hbuffer, rfl⟩ := List.append_eq_nil_iff.mp hnil
    rw [Stuck, hbuffer] at hstuck
    rw [hnil, hstuck] at hparse
    cases hparse
    exact hneed rfl
  cases result with
  | NeedMore => exact absurd rfl hneed
  | Error =>
    have hone : s.OneAnswerDue routing bytes := fun p r hp => by rw [hparse] at hp; cases hp
    refine iff_of_true ?_ hone
    rw [answerAll_error hfound hne, answerAll_error hdue hne]
    rfl
  | Complete =>
    have hclose : (found.respond routing parser rest).connection.closeAfterWrite = true := by
      simp [found, respond, appendResponse, record, Session.batch]
    have hflag : (due.respond routing parser rest).connection.closeAfterWrite =
        !((routing.route s.server parser.req).1.keepAlive && parser.req.keepAlive) := by
      simp [due, respond, appendResponse, record, Session.batch, hopen]
    have hsame : (found.respond routing parser rest).answers =
        (due.respond routing parser rest).answers := rfl
    rw [answerAll_closing hfound hne hclose]
    show (found.respond routing parser rest).answers = _ ↔ _
    cases hkeep : (routing.route s.server parser.req).1.keepAlive && parser.req.keepAlive with
    | false =>
      rw [hkeep] at hflag
      rw [answerAll_closing hdue hne hflag]
      refine iff_of_true hsame fun p r hp hk => ?_
      rw [hparse] at hp
      cases hp
      rw [hkeep] at hk
      cases hk
    | true =>
      rw [hkeep] at hflag
      rw [answerAll_going hdue hne hflag, hsame]
      constructor
      · intro heq p r hp _
        rw [hparse] at hp
        cases hp
        refine Classical.byContradiction fun hmore => ?_
        have hrest : rest ≠ [] := fun hnil => hmore (by rw [hnil, RequestParser.parse_fresh_nil])
        have hlt : (due.respond routing parser rest).history.queued.length <
            ((due.respond routing parser rest).answerAll routing).history.queued.length :=
          queued_lt_answerAll hrest hmore
        have hlen := congrArg (fun answers => answers.2.length) heq
        simp only [answers, List.length_map] at hlen
        omega
      · intro hone
        exact (answers_answerAll_needMore (hone parser rest hparse hkeep)).symm

/-- Where the parser waits, the parse loop does nothing. -/
theorem answerAll_stuck (h : s.Stuck) : s.answerAll routing = s := by
  by_cases hempty : s.connection.readBuffer = []
  · exact answerAll_nil hempty
  · exact answerAll_needMore h hempty

end Session

/-! ## Calls that bring nothing -/

/-- An event that brings no bytes. -/
def Wakeup.Silent : Wakeup → Prop
  | .readable recvs _ _ => ∀ chunk, .data chunk ∉ recvs
  | _ => True

/-- A session that has answered all it received, as an action finds it. -/
structure Quiet (s : Session ρ) (phase : Option Action) : Prop where
  stuck : phase = some .waitRead ∨ phase = some .waitWrite →
    s.connection.closeAfterWrite = false → s.Stuck
  going : phase = some .waitRead → s.connection.closeAfterWrite = false

theorem Serving.quiet {phase : Option Action} (h : Serving routing server s phase) :
    Quiet s phase :=
  ⟨fun hphase hopen => ((h.settled hphase).waiting hopen).2.2.1, h.going⟩

theorem Quiet.of_flush (h : s.connection.closeAfterWrite = false → s.Stuck)
    (sends : List SendResult) : Quiet (s.flush sends).1 (s.flush sends).2 := by
  obtain ⟨writeBuffer, writeOffset, sent, hflush⟩ := s.flush_leaves sends
  refine ⟨fun _ hopen => ?_, fun hread => ?_⟩
  · rw [hflush] at hopen ⊢
    exact h hopen
  · have hopen := Session.flush_waitRead hread
    rw [hflush]
    exact hopen

/-- An event that brings no bytes gets no answer. -/
theorem Quiet.step {phase phase' : Option Action} {wakeup : Wakeup} {t : Session ρ}
    (h : Quiet s phase) (hsilent : wakeup.Silent)
    (hstep : connectionStep routing (s, phase) wakeup = some (t, phase')) :
    t.answers = s.answers ∧ Quiet t phase' := by
  rcases connectionStep_cases hstep with
    ⟨recvs, now, sends, rfl, rfl, hcall⟩ | ⟨sends, rfl, rfl, hcall⟩ | ⟨rfl, -, rfl, rfl⟩
  · have hstuck := h.stuck (.inl rfl) (h.going rfl)
    rcases hdrain : Session.drain recvs with ⟨bytes, ending⟩
    have hnothing := Session.drain_silent hsilent
    rw [hdrain] at hnothing
    obtain rfl : bytes = [] := hnothing
    cases ending with
    | drained eof =>
      have hbatch : (s.batch [] eof now).Stuck := by
        have hsame : (s.batch [] eof now).connection.readBuffer = s.connection.readBuffer :=
          List.append_nil _
        rw [Session.Stuck, hsame]
        exact hstuck
      rw [Session.onReadable_drained hdrain, Session.answerAll_stuck hbatch] at hcall
      have hanswers := (s.batch [] eof now).answers_flush sends
      have hquiet := Quiet.of_flush (fun _ => hbatch) sends
      rw [hcall] at hanswers hquiet
      exact ⟨hanswers, hquiet⟩
    | pending =>
      simp only [Session.onReadable, hdrain, Prod.mk.injEq] at hcall
      obtain ⟨rfl, rfl⟩ := hcall
      exact ⟨rfl, fun hphase => by simp at hphase, fun hphase => by cases hphase⟩
    | failed =>
      simp only [Session.onReadable, hdrain, Prod.mk.injEq] at hcall
      obtain ⟨rfl, rfl⟩ := hcall
      exact ⟨rfl, fun hphase => by simp at hphase, fun hphase => by cases hphase⟩
  · have hanswers := s.answers_flush sends
    have hquiet := Quiet.of_flush (h.stuck (.inr rfl)) sends
    rw [hcall] at hanswers hquiet
    exact ⟨hanswers, hquiet⟩
  · exact ⟨rfl, fun hphase => by simp at hphase, fun hphase => by cases hphase⟩

/-- However many of them follow, they get no answer. -/
theorem Quiet.exec {later : List Wakeup} {phase phase' : Option Action} {t : Session ρ}
    (h : Quiet s phase) (hsilent : ∀ wakeup ∈ later, wakeup.Silent)
    (hrun : (connectionMachine routing server).exec (s, phase) later = some (t, phase')) :
    t.answers = s.answers := by
  induction later generalizing s phase with
  | nil =>
    cases hrun
    rfl
  | cons wakeup later ih =>
    simp only [Machine.exec, Option.bind_eq_some_iff] at hrun
    obtain ⟨⟨u, phase''⟩, hstep, hrest⟩ := hrun
    obtain ⟨hanswers, hquiet⟩ := h.step (hsilent wakeup List.mem_cons_self) hstep
    rw [ih hquiet (fun w hw => hsilent w (List.mem_cons_of_mem wakeup hw)) hrest, hanswers]

/-! ## Found with the last requests, or later -/

/-- A call that finds the end of stream behind the last bytes gives the answers
that a call without it, and any calls that bring no more bytes, give: exactly
when there is one answer to give. -/
theorem sameAnswers_iff
    (r : (connectionMachine routing server).Reach (fun _ wakeup => wakeup.StreamOpen)
      (s, some .waitRead))
    {recvs : List RecvResult} (hrecvs : ∀ recv ∈ recvs, Session.RecvGoesOn recv)
    (now now' : Int) (sends sends' : List SendResult)
    {later : List Wakeup} (hlater : ∀ wakeup ∈ later, wakeup.Silent)
    {t : Session ρ} {phase : Option Action}
    (hrun : (connectionMachine routing server).exec (s, some .waitRead)
      (.readable (recvs ++ [.wouldBlock]) now' sends' :: later) = some (t, phase)) :
    (s.onReadable routing (recvs ++ [.eof]) now sends).1.answers = t.answers ↔
      s.OneAnswerDue routing (Session.drain recvs).1 := by
  have hserving := serving_run r
  have hopen := hserving.going rfl
  have hstuck := hserving.quiet.stuck (.inl rfl) hopen
  have hfound : Session.drain (recvs ++ [.eof]) = ((Session.drain recvs).1, .drained true) := by
    rw [Session.drain_append hrecvs]
    simp [Session.drain]
  have hblock : Session.drain (recvs ++ [.wouldBlock]) =
      ((Session.drain recvs).1, .drained false) := by
    rw [Session.drain_append hrecvs]
    simp [Session.drain]
  simp only [Machine.exec, Option.bind_eq_some_iff] at hrun
  obtain ⟨u, hstep, hrest⟩ := hrun
  have hu : s.onReadable routing (recvs ++ [.wouldBlock]) now' sends' = u := Option.some.inj hstep
  have hquiet : Quiet u.1 u.2 := by
    rw [← hu, Session.onReadable_drained hblock]
    exact (Serving.of_flush ((hserving.settled (.inl rfl)).batch hopen _ now') sends').quiet
  rw [hquiet.exec hlater hrest, ← hu, Session.onReadable_drained hfound,
    Session.onReadable_drained hblock, Session.answers_flush, Session.answers_flush]
  exact Session.answers_batch_iff hopen hstuck _ now now'

/-- One request. -/
def oneRoot : Chunk where
  bytes := ascii "GET / HTTP/1.1" ++ CRLF ++ CRLF ++ []
  nonempty := by decide
  fits := by decide

/-- One request and the end of stream in one call: the request is answered, as
it is without the end of stream. -/
theorem sameAnswers_oneRoot :
    (({ server := () } : Session Unit).onReadable noPages
        ([.data oneRoot] ++ [.eof]) 0 []).1.answers =
      (({ server := () } : Session Unit).onReadable noPages
        ([.data oneRoot] ++ [.wouldBlock]) 0 []).1.answers := by
  have hgoes : ∀ recv ∈ [RecvResult.data oneRoot], Session.RecvGoesOn recv := by
    intro recv hrecv
    cases List.mem_singleton.mp hrecv
    trivial
  have hstart : (connectionMachine noPages ()).Reach (fun _ wakeup => wakeup.StreamOpen)
      (({ server := () } : Session Unit), some .waitRead) := .start
  have hnone : ∀ wakeup ∈ ([] : List Wakeup), wakeup.Silent := List.forall_mem_nil _
  refine (sameAnswers_iff hstart hgoes 0 0 [] [] hnone rfl).mpr fun parser rest hparse _ => ?_
  cases (parse_root []).symm.trans hparse
  rw [RequestParser.parse_fresh_nil]

/-- Two requests, one behind the other. -/
def twoRoots : Chunk where
  bytes := ascii "GET / HTTP/1.1" ++ CRLF ++ CRLF ++ (ascii "GET / HTTP/1.1" ++ CRLF ++ CRLF ++ [])
  nonempty := by decide
  fits := by decide

/-- Two requests and the end of stream found in one call: the second request is
dropped. With the end of stream in a call of its own both are answered. -/
theorem eof_drops_second :
    let found := ({ server := () } : Session Unit).onReadable noPages [.data twoRoots, .eof] 0 []
    ∃ later : Session Unit, (connectionMachine noPages ()).exec ({ server := () }, some .waitRead)
        [.readable [.data twoRoots, .wouldBlock] 0 [.accepted 499], .readable [.eof] 1 []] =
          some (later, some .close) ∧
      found.1.history.routed = [rootRequest] ∧
      later.history.routed = [rootRequest, rootRequest] ∧ found.1.answers ≠ later.answers := by
  intro found
  let second := ascii "GET / HTTP/1.1" ++ CRLF ++ CRLF ++ []
  let closing := ({ server := () } : Session Unit).batch twoRoots.bytes true 0
  let received := ({ server := () } : Session Unit).batch twoRoots.bytes false 0
  let answered := (received.respond noPages rootParser second).respond noPages rootParser []
  have hfound : found.1.answers = (closing.respond noPages rootParser second).answers := by
    have hdrain : Session.drain [.data twoRoots, .eof] = (twoRoots.bytes, .drained true) := rfl
    show (Session.onReadable _ _ _ _ _).1.answers = _
    rw [Session.onReadable_drained hdrain,
      Session.answerAll_closing (parse_root second) (by decide) rfl, Session.answers_flush]
    rfl
  have hreceived : ({ server := () } : Session Unit).onReadable noPages
      [.data twoRoots, .wouldBlock] 0 [.accepted 499] = answered.flush [.accepted 499] := by
    have hdrain : Session.drain [.data twoRoots, .wouldBlock] = (twoRoots.bytes, .drained false) :=
      rfl
    have hone : received.answerAll noPages =
        (received.respond noPages rootParser second).answerAll noPages :=
      Session.answerAll_going (parse_root second) (by decide) rfl
    have htwo : (received.respond noPages rootParser second).answerAll noPages =
        answered.answerAll noPages :=
      Session.answerAll_going (parse_root []) (by decide) rfl
    rw [Session.onReadable_drained hdrain, hone, htwo, Session.answerAll_nil rfl]
  have hfits : answered.connection.writeBuffer.length ≤ answered.connection.writeOffset + 500 := by
    decide +kernel
  obtain ⟨sent, hsent⟩ := Session.flush_accepted hfits
  have hexec : (connectionMachine noPages ()).exec ({ server := () }, some .waitRead)
      [.readable [.data twoRoots, .wouldBlock] 0 [.accepted 499], .readable [.eof] 1 []] =
        (connectionMachine noPages ()).exec (answered.flush [.accepted 499])
          [.readable [.eof] 1 []] := by
    rw [← hreceived]
    rfl
  let sentAll : Session Unit := { answered with
    connection := { answered.connection with writeBuffer := [], writeOffset := 0 }
    history := { answered.history with sent } }
  rw [hexec, hsent]
  refine ⟨sentAll.batch [] true 1, ?_, congrArg Prod.fst hfound, ?_, ?_⟩
  · have hdrain : Session.drain [.eof] = ([], .drained true) := rfl
    show some (Session.onReadable _ _ _ _ _) = _
    rw [Session.onReadable_drained hdrain, Session.answerAll_nil rfl]
    rfl
  · rfl
  · rw [hfound]
    intro heq
    have hlen : 1 = 2 := congrArg (fun answers => answers.1.length) heq
    omega

end WebServer
