import WebServer.Laws.Metrics.Counters
import WebServer.Laws.Server.Answers
import WebServer.Laws.Server.Calls
import WebServer.Server.Site

/-!
# What `bytesOut` counts

Every response is recorded once and appended once, in one turn of the parse loop, so
over any connections there are as many records as responses (`Answers`). What is
recorded is the size of the body; what is appended is the body, unless the request
was a HEAD. So the counter is right exactly as long as the bodies that were left
out for HEAD come to nothing, modulo 2^64 (`countsSent_iff`).
-/

namespace WebServer

open Base

variable {ρ : Type u} {routing : Routing ρ}

/-- How much of the body was put on the write buffer. -/
def Queued.sent (queued : Queued) : Nat :=
  if queued.omitBody then 0 else queued.response.body.length

/-- How much of it was left out. -/
def Queued.omitted (queued : Queued) : Nat :=
  if queued.omitBody then queued.response.body.length else 0

theorem Queued.sent_add_omitted (queued : Queued) :
    queued.sent + queued.omitted = queued.response.body.length := by
  unfold sent omitted
  split
  · exact Nat.zero_add _
  · rfl

/-! ## Records and responses -/

/-- What is recorded between two sessions is what is appended. -/
def Answers (s t : Session ρ) : Prop :=
  ∃ (queued : List Queued) (recorded : List Recorded),
    t.history.queued = s.history.queued ++ queued ∧
    t.history.recorded = s.history.recorded ++ recorded ∧
    recorded.map (·.responseBytes) = queued.map (·.response.body.length)

namespace Answers

variable {s t r : Session ρ}

theorem of_same (queued : t.history.queued = s.history.queued)
    (recorded : t.history.recorded = s.history.recorded) : Answers s t :=
  ⟨[], [], queued.trans (List.append_nil _).symm, recorded.trans (List.append_nil _).symm, rfl⟩

theorem trans (h : Answers s t) (h' : Answers t r) : Answers s r := by
  obtain ⟨queued, recorded, hq, hr, heq⟩ := h
  obtain ⟨queued', recorded', hq', hr', heq'⟩ := h'
  refine ⟨queued ++ queued', recorded ++ recorded', ?_, ?_, ?_⟩
  · rw [hq', hq, List.append_assoc]
  · rw [hr', hr, List.append_assoc]
  · rw [List.map_append, List.map_append, heq, heq']

/-- A response is recorded, and appended. -/
theorem one {request : HttpRequest} {response : HttpResponse} {micros : Nat}
    (queued : t.history.queued =
      ((s.record response micros).appendResponse request response).history.queued)
    (recorded : t.history.recorded =
      ((s.record response micros).appendResponse request response).history.recorded) :
    Answers s t :=
  ⟨_, _, queued, recorded, rfl⟩

/-- The parse loop answers what it takes off the buffer. -/
theorem answerAll (s : Session ρ) : Answers s (s.answerAll routing) := by
  fun_induction Session.answerAll routing s with
  | case3 s hne parser rest hparse => exact one rfl rfl
  | case4 s hne parser rest hparse t hclose => exact one rfl rfl
  | case5 s hne parser rest hparse t hgoing ih =>
    have hone : Answers s t := one rfl rfl
    exact hone.trans ih
  | _ => exact of_same rfl rfl

theorem flush {sends : List SendResult} {phase : Option Action}
    (h : s.flush sends = (t, phase)) : Answers s t := by
  obtain ⟨writeBuffer, writeOffset, sent, hflush⟩ := s.flush_leaves sends
  rw [h] at hflush
  dsimp only at hflush
  rw [hflush]
  exact of_same rfl rfl

theorem step {phase phase' : Option Action} {wakeup : Wakeup}
    (h : connectionStep routing (s, phase) wakeup = some (t, phase')) : Answers s t := by
  rcases connectionStep_cases h with ⟨recvs, now, sends, -, -, hread⟩ | ⟨sends, -, -, hwrite⟩ |
    ⟨-, -, rfl, -⟩
  · rcases Session.onReadable_cases hread with ⟨rfl, -⟩ | ⟨eof, hflush⟩
    · exact of_same rfl rfl
    · have hbatch : Answers s (s.batch (Session.drain recvs).1 eof now) := of_same rfl rfl
      exact (hbatch.trans (answerAll _)).trans (flush hflush)
  · exact flush hwrite
  · exact of_same rfl rfl

end Answers

/-! ## The counters -/

namespace Metrics

variable (metrics : Metrics)

theorem recordRequest_counts (call : RecordCall) :
    (metrics.recordRequest call).totalRequests = metrics.totalRequests + 1 ∧
      (metrics.recordRequest call).bytesOut = metrics.bytesOut + call.responseBytes := by
  obtain ⟨bucket, -, hadds⟩ := fetchAdds_eq call
  have hload := metrics.load_addAll call.fetchAdds
  rw [hadds] at hload
  have hrequests := hload .totalRequests
  have hbytes := hload .bytesOut
  unfold recordRequest
  rw [hadds]
  rcases statusCounter_cases call.status with h | h | h <;>
  · rw [h] at hrequests hbytes ⊢
    exact ⟨hrequests.trans (by simp [amount, load]), hbytes.trans (by simp [amount, load])⟩

/-- What a list of records adds to the two counters. -/
theorem foldl_recordRequest (recorded : List Recorded) :
    ((recorded.map Recorded.call).foldl recordRequest metrics).totalRequests =
        metrics.totalRequests + UInt64.ofNat recorded.length ∧
      ((recorded.map Recorded.call).foldl recordRequest metrics).bytesOut =
        metrics.bytesOut + UInt64.ofNat (total (·.responseBytes) recorded) := by
  induction recorded generalizing metrics with
  | nil => exact ⟨(UInt64.add_zero _).symm, (UInt64.add_zero _).symm⟩
  | cons first recorded ih =>
    obtain ⟨hrequests, hbytes⟩ := metrics.recordRequest_counts first.call
    obtain ⟨ihrequests, ihbytes⟩ := ih (metrics.recordRequest first.call)
    rw [List.map_cons, List.foldl_cons, ihrequests, ihbytes, hrequests, hbytes, List.length_cons,
      total_cons, Nat.add_comm recorded.length 1, UInt64.ofNat_add, UInt64.ofNat_add,
      UInt64.add_assoc, UInt64.add_assoc]
    exact ⟨rfl, rfl⟩

end Metrics

/-! ## The server -/

/-- The responses appended to write buffers so far, connection by connection. -/
def Site.responses (site : Site ρ) : List Queued := site.peers.flatMap (·.history.queued)

/-- `bytesOut` is the number of body bytes that were appended, modulo 2^64, and
`totalRequests` the number of responses. -/
structure CountsSent (site : Site ρ) : Prop where
  bytesOut : site.metrics.bytesOut = UInt64.ofNat (total Queued.sent site.responses)
  totalRequests : site.metrics.totalRequests = UInt64.ofNat site.responses.length

/-- The counters hold what the responses are made of. -/
structure CountsMade (site : Site ρ) : Prop where
  bytesOut : site.metrics.bytesOut =
    UInt64.ofNat (total (·.response.body.length) site.responses)
  totalRequests : site.metrics.totalRequests = UInt64.ofNat site.responses.length

/-- What a connection's new responses add to a quantity over all of them. -/
theorem total_responses_set (f : Queued → Nat) {site : Site ρ} {i : Nat} {peer : Peer}
    (h : site.peers[i]? = some peer) {peer' : Peer} {queued : List Queued}
    (hqueued : peer'.history.queued = peer.history.queued ++ queued) :
    total f ((site.peers.set i peer').flatMap (·.history.queued)) =
      total f site.responses + total f queued := by
  have hset := total_set (f := fun peer : Peer => total f peer.history.queued) h peer'
  rw [hqueued, total_append] at hset
  unfold Site.responses
  rw [total_flatMap, total_flatMap]
  omega

theorem CountsMade.settle {site : Site ρ} (made : CountsMade site) {i : Nat} {peer : Peer}
    (h : site.peers[i]? = some peer) {s : Session ρ} (answers : Answers (site.session peer) s)
    (phase : Option Action) : CountsMade (site.settle i peer s phase) := by
  obtain ⟨queued, recorded, hqueued, hrecorded, hsizes⟩ := answers
  have hnew : s.history.recorded.drop peer.history.recorded.length = recorded := by
    rw [hrecorded]
    exact List.drop_left
  have hlength : recorded.length = queued.length := by
    have hlen := congrArg List.length hsizes
    rwa [List.length_map, List.length_map] at hlen
  have hbytes : total (·.responseBytes) recorded = total (·.response.body.length) queued := by
    have hmap := congrArg (total fun n => n) hsizes
    rwa [total_map, total_map] at hmap
  obtain ⟨hrequests, hout⟩ := site.metrics.foldl_recordRequest recorded
  let peer' : Peer := { connection := s.connection, history := s.history, phase }
  have hgrown : peer'.history.queued = peer.history.queued ++ queued := hqueued
  have hsum := total_responses_set (·.response.body.length) h hgrown
  have hcount := total_responses_set (fun _ => 1) h hgrown
  rw [total_length, total_length, total_length] at hcount
  constructor
  · show (((s.history.recorded.drop _).map Recorded.call).foldl _ site.metrics).bytesOut =
      UInt64.ofNat (total _ ((site.peers.set i peer').flatMap _))
    rw [hnew, hout, made.bytesOut, hsum, UInt64.ofNat_add, hbytes]
  · show (((s.history.recorded.drop _).map Recorded.call).foldl _ site.metrics).totalRequests =
      UInt64.ofNat ((site.peers.set i peer').flatMap _).length
    rw [hnew, hrequests, made.totalRequests, hcount, UInt64.ofNat_add, hlength]

/-- Over any connections, whatever arrives on them. -/
theorem countsMade {server : ρ} {site : Site ρ}
    (r : (siteMachine routing server).Reachable site) : CountsMade site := by
  refine r.invariant ⟨rfl, rfl⟩ fun site event site' made _ hs => ?_
  cases event with
  | accept =>
    cases hs
    constructor
    · have hbytes := made.bytesOut
      simpa [Site.responses] using hbytes
    · have hrequests := made.totalRequests
      simpa [Site.responses] using hrequests
  | wakeup i wakeup =>
    simp only [siteMachine, siteStep] at hs
    split at hs
    · cases hs
    · rename_i peer hpeer
      obtain ⟨⟨s, phase⟩, hstep, rfl⟩ := Option.map_eq_some_iff.mp hs
      exact made.settle hpeer (.step hstep) phase

/-- The counters are right exactly as long as what was left out for HEAD comes to
nothing, modulo 2^64. -/
theorem countsSent_iff {server : ρ} {site : Site ρ}
    (r : (siteMachine routing server).Reachable site) :
    CountsSent site ↔ UInt64.size ∣ total Queued.omitted site.responses := by
  have made := countsMade r
  have hsplit : total (·.response.body.length) site.responses =
      total Queued.sent site.responses + total Queued.omitted site.responses := by
    rw [← total_add]
    exact total_congr fun queued _ => queued.sent_add_omitted.symm
  have hbytes := made.bytesOut
  rw [hsplit, UInt64.ofNat_add] at hbytes
  have hnone : UInt64.ofNat (total Queued.omitted site.responses) = 0 ↔
      UInt64.size ∣ total Queued.omitted site.responses := by
    rw [← UInt64.toNat_inj, UInt64.toNat_ofNat', Nat.dvd_iff_mod_eq_zero]
    exact Iff.rfl
  rw [← hnone]
  constructor
  · intro sent
    rw [sent.bytesOut] at hbytes
    exact UInt64.left_eq_add.mp hbytes
  · intro h
    rw [h, UInt64.add_zero] at hbytes
    exact ⟨hbytes, made.totalRequests⟩

/-! ## A GET and a HEAD -/

/-- A first connection brings one request, and a router without pages answers it. -/
theorem one_request {chunk : Chunk} {parser : RequestParser}
    (hparse : ({} : RequestParser).parse chunk.bytes = (.Complete, parser, []))
    (hkeep : parser.req.keepAlive = true) :
    ∃ site, (siteMachine noPages ()).Reachable site ∧
      site.responses = [Conversation.answer parser.req (.error 404)] := by
  let s := ({ server := () } : Session Unit).batch chunk.bytes false 0
  let t := (s.respond noPages parser []).flush []
  have hstep : connectionStep noPages (({ server := () } : Session Unit), some .waitRead)
      (.readable [.data chunk, .wouldBlock] 0 []) = some t := one_wakeup hparse hkeep
  let opened : Site Unit := { server := (), peers := [{}] }
  have haccept : (siteMachine noPages ()).Reachable opened :=
    .step (a := .accept) .start trivial rfl
  have hsite : (siteMachine noPages ()).step opened
      (.wakeup 0 (.readable [.data chunk, .wouldBlock] 0 [])) =
        some (opened.settle 0 {} t.1 t.2) :=
    congrArg (Option.map fun outcome : Session Unit × Option Action =>
      opened.settle 0 {} outcome.1 outcome.2) hstep
  refine ⟨opened.settle 0 {} t.1 t.2, .step haccept trivial hsite, ?_⟩
  have hqueued : t.1.history.queued = (s.respond noPages parser []).history.queued :=
    Session.queued_flush rfl
  show t.1.history.queued ++ [] = _
  rw [List.append_nil, hqueued]
  rfl

/-- The parser that has read the request of `parse_root`, as a HEAD. -/
def headParser : RequestParser where
  state := .Done
  req := { rootRequest with method := ascii "HEAD" }
  headerBytes := 2

theorem parse_head : ({} : RequestParser).parse (ascii "HEAD / HTTP/1.1" ++ CRLF ++ CRLF) =
    (.Complete, headParser, []) := by
  have hline : ({} : RequestParser).turn (ascii "HEAD / HTTP/1.1" ++ CRLF ++ CRLF) =
      .again { state := .Headers, req := headParser.req } CRLF := rfl
  have hblock : ({ state := .Headers, req := headParser.req } : RequestParser).turn CRLF =
      .again headParser [] := rfl
  rw [RequestParser.parse_again hline, RequestParser.parse_again hblock]
  exact RequestParser.parse_ret rfl

/-- After a GET the counters are right. -/
theorem countsSent_iff_get :
    ∃ site, (siteMachine noPages ()).Reachable site ∧ site.responses ≠ [] ∧ CountsSent site := by
  let chunk : Chunk := ⟨ascii "GET / HTTP/1.1" ++ CRLF ++ CRLF, by decide, by decide⟩
  have hparse : ({} : RequestParser).parse chunk.bytes = (.Complete, rootParser, []) :=
    parse_root_only
  obtain ⟨site, r, hresponses⟩ := one_request hparse rfl
  refine ⟨site, r, ?_, (countsSent_iff r).mpr ?_⟩
  · rw [hresponses]
    exact List.cons_ne_nil _ _
  · rw [hresponses]
    exact ⟨0, rfl⟩

/-- After a HEAD they are not: the body of the answer is counted and not sent. -/
theorem not_countsSent : ¬ ∀ site, (siteMachine noPages ()).Reachable site → CountsSent site := by
  intro all
  let chunk : Chunk := ⟨ascii "HEAD / HTTP/1.1" ++ CRLF ++ CRLF, by decide, by decide⟩
  have hparse : ({} : RequestParser).parse chunk.bytes = (.Complete, headParser, []) := parse_head
  obtain ⟨site, r, hresponses⟩ := one_request hparse rfl
  have hsent := (all site r).bytesOut
  rw [(countsMade r).bytesOut, hresponses] at hsent
  exact absurd hsent (by decide +kernel)

end WebServer
