import WebServer.Laws.Server.Answers
import WebServer.Laws.Server.Crowd
import WebServer.Laws.Server.Delivery
import WebServer.Laws.Server.LastWord
import WebServer.Laws.Server.Responses

/-!
# From the bytes that arrive to the bytes that are sent

Where the handler waits for more on one of many connections, all that has arrived on it
is read, answered and sent (`dialogue`): the requests are those a parser reads in the
bytes, each was put to the router once, the router's calls took their sections in the
one serial run of everybody's, and what was sent are the replies they returned. A client
reads them back, in whatever pieces they arrive (`dialogue_legible`).
-/

namespace WebServer

open Base

/-! ## One connection that is not closing -/

section Alone

variable {ρ : Type u} {routing : Routing ρ} {server : ρ} {s : Session ρ}

/-- A connection that is to close stays so while requests are answered. -/
theorem Session.closeAfterWrite_answerAll (h : s.connection.closeAfterWrite = true) :
    (s.answerAll routing).connection.closeAfterWrite = true := by
  fun_induction Session.answerAll routing s with
  | case1 s hnil => exact h
  | case2 s hne parser rest hparse => exact h
  | case3 s hne parser rest hparse => rfl
  | case4 s hne parser rest hparse t hclose => exact hclose
  | case5 s hne parser rest hparse t hgoing ih =>
    apply ih
    show (s.connection.closeAfterWrite || _) = true
    rw [h]
    rfl

/-- What was received of a connection that is not closing. -/
def CaughtUp (routing : Routing ρ) (server : ρ) (state : Session ρ × Option Action) : Prop :=
  state.2 = some .waitRead ∨ state.2 = some .waitWrite →
    state.1.connection.closeAfterWrite = false →
      state.1.Served (state.1.spoken routing server) state.1.reading.2

/-- Sending changes nothing about what is answered. -/
theorem CaughtUp.of_flush {sends : List SendResult}
    (h : s.connection.closeAfterWrite = false → s.Served (s.spoken routing server) s.reading.2) :
    CaughtUp routing server (s.flush sends) := by
  rintro - hopen
  have hserved := (h (s.closeAfterWrite_flush sends ▸ hopen)).flush sends
  obtain ⟨writeBuffer, writeOffset, sent, hflush⟩ := s.flush_leaves sends
  have hbatches : (s.flush sends).1.history.batches = s.history.batches := by rw [hflush]
  rw [Session.spoken, Session.reading, hbatches]
  exact hserved

theorem CaughtUp.step {state state' : Session ρ × Option Action} {wakeup : Wakeup}
    (h : CaughtUp routing server state)
    (hread : state.2 = some .waitRead → state.1.connection.closeAfterWrite = false)
    (hs : connectionStep routing state wakeup = some state') : CaughtUp routing server state' := by
  obtain ⟨s, phase⟩ := state
  obtain ⟨t, phase'⟩ := state'
  rcases connectionStep_cases hs with ⟨recvs, now, sends, -, rfl, hcall⟩ |
    ⟨sends, -, rfl, hcall⟩ | ⟨-, -, rfl, rfl⟩
  · have hopen := hread rfl
    rcases Session.onReadable_cases hcall with ⟨-, rfl | rfl⟩ | ⟨eof, hflush⟩
    · rintro (hphase | hphase) <;> cases hphase
    · rintro (hphase | hphase) <;> cases hphase
    · rw [← hflush]
      refine .of_flush fun hstill => ?_
      cases eof with
      | false => exact (h (.inl rfl) hopen).batch hopen _ now
      | true =>
        -- the end of the stream was found, so the connection is to close
        have hclosing : ((s.batch (Session.drain recvs).1 true now).answerAll
            routing).connection.closeAfterWrite = true :=
          Session.closeAfterWrite_answerAll (Bool.or_true _)
        rw [hclosing] at hstill
        cases hstill
  · rw [← hcall]
    exact .of_flush (h (.inr rfl))
  · rintro (hphase | hphase) <;> cases hphase

/-- In every run, what a connection has received is answered while it is not closing. -/
theorem caughtUp_run {phase : Option Action}
    (r : (connectionMachine routing server).Reachable (s, phase)) :
    CaughtUp routing server (s, phase) := by
  let Known := fun state : Session ρ × Option Action =>
    (connectionMachine routing server).Reachable state ∧ CaughtUp routing server state
  have hstart : CaughtUp routing server (connectionMachine routing server).start := by
    rintro - -
    exact .waits ⟨rfl, rfl, rfl, rfl, rfl, rfl⟩ rfl RequestParser.parse_fresh_nil
  have hknown : Known (s, phase) := by
    refine r.invariant ⟨.start, hstart⟩ ?_
    rintro state wakeup state' ⟨r, h⟩ - hs
    exact ⟨.step r trivial hs, h.step (lastWord_run r).2 hs⟩
  exact hknown.2

/-- A router that is told its replies answers the requests with them, in order. -/
theorem hold_told {replies : List Reply} {requests : List HttpRequest} {c : Conversation Nat}
    (enough : c.server + requests.length ≤ replies.length)
    (hopen : (c.hold (told replies) requests).closed = false) :
    (c.hold (told replies) requests).answers =
      c.answers ++ List.zipWith (fun request reply => Conversation.answer request reply.1) requests
        (replies.drop c.server) := by
  induction requests generalizing c with
  | nil => rw [Conversation.hold_nil, List.zipWith_nil_left, List.append_nil]
  | cons request requests ih =>
    have hc : c.closed = false := by
      by_contra hclosed
      rw [Conversation.hold_of_closed _ (eq_true_of_ne_false hclosed)] at hopen
      exact hclosed hopen
    rw [List.length_cons] at enough
    have hlt : c.server < replies.length := by omega
    have hreply : replies[c.server]? = some replies[c.server] := List.getElem?_eq_getElem hlt
    rw [Conversation.hold_cons, Conversation.ask, if_neg (by rw [hc]; exact Bool.false_ne_true)]
      at hopen ⊢
    have hrest := ih (by show c.server + 1 + _ ≤ _; omega) hopen
    rw [hrest, List.drop_eq_getElem_cons hlt, List.zipWith_cons_cons]
    simp [told, hreply]

end Alone

/-! ## One of many connections -/

section Heard

variable {ρ : Type u} {τ : Type v} {χ : Type w} {router : SharedRouter ρ τ χ} {server : ρ}
  {crowd : Crowd ρ τ χ} {k : Nat}

/-- A reply as it is queued for the request. -/
def Reply.to (reply : Reply) (request : HttpRequest) : Queued :=
  Conversation.answer request reply.1

/-- What has been said on a connection where the handler waits for more: the requests
are those that a parser finds in what has arrived, none was refused, each was routed
once and in order, and what was sent are the router's replies to them, which its calls
returned from their sections in the one serial run of the sections of all connections. -/
structure Dialogue (router : SharedRouter ρ τ χ) (server : ρ) (crowd : Crowd ρ τ χ) (k : Nat) :
    Prop where
  final : crowd.server = Serial.run router.take server crowd.taken
  course : router.Course (crowd.guests k).answered none
    (Serial.share k (crowd.sections router server))
  one : (crowd.guests k).replies.length = (crowd.guests k).history.routed.length
  arrived : feedResult (crowd.guests k).history.batches = ((crowd.guests k).history.routed, none)
  queued : (crowd.guests k).history.queued =
    List.zipWith (fun request reply => Reply.to reply request)
      (crowd.guests k).history.routed (crowd.guests k).replies
  sent : (crowd.guests k).history.sent = (crowd.guests k).history.queued.flatMap Queued.wire

theorem dialogue (r : (crowdMachine router server).Reachable crowd)
    (waits : (crowd.guests k).stage = .waiting .waitRead) : Dialogue router server crowd k := by
  have hserial := serially r
  have explained := hserial.each k
  have ralone := alone_between r waits
  have hopen := (lastWord_run ralone).2 rfl
  obtain ⟨hholds, hc, -, hending⟩ := (caughtUp_run ralone (.inl rfl) hopen).waiting hopen
  -- the conversation was open to its end, so its requests are all that was read
  have hread : (crowd.guests k).history.routed =
      (RequestParser.feedChunks {} [] (crowd.guests k).history.batches).1 := by
    have hrouted := hholds.routed
    rw [Session.spoken, Conversation.answered_of_open _ _ hc] at hrouted
    exact hrouted
  have hcall : (crowd.guests k).call = none := by
    cases hcall : (crowd.guests k).call with
    | none => rfl
    | some call => cases waits.symm.trans (explained.asking call.1 call.2 hcall).1
  constructor
  · exact hserial.final
  · have hcourse := explained.course
    rw [hcall] at hcourse
    exact hcourse
  · exact explained.length
  · rw [hread]
    exact Prod.ext rfl (congrArg Ending.error? hending)
  · have henough : 0 + (crowd.guests k).history.routed.length ≤
        (crowd.guests k).replies.length := by
      rw [Nat.zero_add, explained.length]
    have hqueued := hholds.queued
    rw [Session.spoken, hold_told (by rw [hread] at henough; exact henough) hc] at hqueued
    rw [hread]
    exact hqueued
  · obtain ⟨hdelivers, hawaits⟩ := delivers_run ralone
    have hempty : (crowd.guests k).connection.writeBuffer = [] := hawaits
    exact hdelivers.sent_eq (show (crowd.guests k).connection.writeBuffer.length ≤ _ by
      rw [hempty]
      exact Nat.zero_le _)

/-- What a client is to have of the reply to a request. -/
def Reply.received (reply : Reply) (request : HttpRequest) : Answer :=
  (reply.to request).response.answer request.method

/-- The requests' methods, and the responses that were queued for them. -/
def exchanged (requests : List HttpRequest) (replies : List Reply) : List (Bytes × HttpResponse) :=
  List.zipWith (fun request reply => (request.method, (reply.to request).response)) requests replies

theorem wireOf_exchanged (requests : List HttpRequest) (replies : List Reply) :
    Client.wireOf (exchanged requests replies) =
      (List.zipWith (fun request reply => Reply.to reply request) requests replies).flatMap
        Queued.wire := by
  induction requests generalizing replies with
  | nil => rfl
  | cons request requests ih =>
    cases replies with
    | nil => rfl
    | cons reply replies => exact congrArg (_ ++ ·) (ih replies)

theorem methods_exchanged {requests : List HttpRequest} {replies : List Reply}
    (h : replies.length = requests.length) :
    (exchanged requests replies).map Prod.fst = requests.map HttpRequest.method := by
  have hfirst : (requests.zip replies).map Prod.fst = requests :=
    List.map_fst_zip (Nat.le_of_eq h.symm)
  rw [exchanged, ← List.map_uncurry_zip_eq_zipWith, List.map_map]
  nth_rewrite 2 [← hfirst]
  rw [List.map_map]
  rfl

theorem clean_exchanged {requests : List HttpRequest} {replies : List Reply}
    (h : ∀ reply ∈ replies, reply.1.Clean) :
    ∀ exchange ∈ exchanged requests replies, exchange.2.Clean := by
  intro exchange hin
  rw [exchanged, ← List.map_uncurry_zip_eq_zipWith] at hin
  obtain ⟨⟨request, reply⟩, hzip, rfl⟩ := List.mem_map.mp hin
  exact (h reply (List.of_mem_zip hzip).2).keepAlive _

/-- A client that has everything sent on the connection, in whatever pieces, has read the
router's replies to the requests of that connection, one for each, and nothing is left
over. -/
def Guest.Legible (guest : Guest τ) : Prop :=
  ∀ pieces : List Bytes, pieces.flatten = guest.history.sent →
    (client Client.oneBlank).feed (guest.history.routed.map HttpRequest.method) [] pieces =
      (List.zipWith (fun request reply => Reply.received reply request) guest.history.routed
        guest.replies, .waiting [] [])

/-- A router whose calls begin with what is clean, which its sections keep, returns clean
responses. -/
structure SharedRouter.Clean (router : SharedRouter ρ τ χ) (I : τ → Prop) : Prop where
  enter : ∀ request, I (router.enter request)
  take : ∀ server task found, I task → I (router.take server (task, found)).1
  returned : ∀ task response, I task → router.returned task = some response → response.Clean

/-- Where the handler waits for more, what was sent is legible. -/
theorem dialogue_legible {I : τ → Prop} (r : (crowdMachine router server).Reachable crowd)
    (waits : (crowd.guests k).stage = .waiting .waitRead) (clean : router.Clean I) :
    (crowd.guests k).Legible := by
  intro pieces whole
  have h := dialogue r waits
  obtain ⟨returns, -⟩ := h.course.returns clean.enter clean.take
    (Serial.share_all (P := fun one : (τ × χ) × τ => ∃ s, one.2 = (router.take s one.1).1)
      (Serial.exchanges_given router.take server crowd.taken))
  have hclean : ∀ reply ∈ (crowd.guests k).replies, reply.1.Clean := by
    intro reply hreply
    have hsecond : ((crowd.guests k).answered).map Prod.snd =
        (crowd.guests k).replies.map Prod.fst :=
      List.map_snd_zip (by rw [List.length_map, h.one])
    have hmem : reply.1 ∈ ((crowd.guests k).answered).map Prod.snd := by
      rw [hsecond]
      exact List.mem_map_of_mem hreply
    obtain ⟨one, hone, hsame⟩ := List.mem_map.mp hmem
    obtain ⟨task, htask, hreturned⟩ := returns one hone
    rw [← hsame]
    exact clean.returned task one.2 htask hreturned
  have hanswers : (exchanged (crowd.guests k).history.routed
      (crowd.guests k).replies).map (fun exchange => exchange.2.answer exchange.1) =
        List.zipWith (fun request reply => Reply.received reply request)
          (crowd.guests k).history.routed (crowd.guests k).replies :=
    List.map_zipWith
  rw [← methods_exchanged h.one, ← hanswers]
  refine Client.feed_wire (clean_exchanged hclean) (fun _ _ _ _ => rfl) ?_
  rw [whole, h.sent, h.queued, wireOf_exchanged]

end Heard

end WebServer
