import WebServer.Laws.Server.EndOfStream
import WebServer.Laws.Server.Steps
import WebServer.Server.Crowd

/-!
# Every connection has the router to itself

The handler knows the router by its replies only (`handlerStep_asked`). So whatever the
order in which the connections were served, there is one serial run of the sections of
all their calls (`Serially.final`), and of each connection (`Explained`): its part of
the run is what its own calls make of it, one after the other (`course`), and it is
where it would be alone with a router that gives it what they returned (`alone`). What
is true of every run of one connection is true of each of many.
-/

namespace WebServer

open Base

variable {ρ : Type u} {τ : Type v} {χ : Type w} {routing : Routing ρ}

/-! ## What the handler knows of the router -/

/-- The same connection, before a router that counts. -/
def Session.over (s : Session ρ) (server : Nat) : Session Nat where
  connection := s.connection
  server
  history := s.history

/-- A step that puts no request to the router. -/
structure Session.Unasked (s t : Session ρ) (stage stage' : Stage) (step : HandlerStep) : Prop where
  routed : t.history.routed = s.history.routed
  server : t.server = s.server
  elsewhere : ∀ (routing' : Routing Nat) (server' : Nat),
    handlerStep routing' (s.over server') stage step = some (t.over server', stage')

/-- A step that puts the request to the router. -/
structure Session.Asked (routing : Routing ρ) (s t : Session ρ) (stage stage' : Stage)
    (step : HandlerStep) (request : HttpRequest) : Prop where
  routed : t.history.routed = s.history.routed ++ [request]
  server : t.server = (routing.reply s.server request).2
  elsewhere : ∀ (routing' : Routing Nat) (server' : Nat),
    (routing'.reply server' request).1 = (routing.reply s.server request).1 →
      handlerStep routing' (s.over server') stage step =
        some (t.over (routing'.reply server' request).2, stage')

namespace Session

variable {s t : Session ρ}

/-- What the handler appends is not put to the router, and is the same before any. -/
theorem respond_over {parser : RequestParser} {rest : Bytes} (routing' : Routing Nat)
    (server' : Nat)
    (same : (routing'.reply server' parser.req).1 = (routing.reply s.server parser.req).1) :
    (s.over server').respond routing' parser rest =
      (s.respond routing parser rest).over (routing'.reply server' parser.req).2 := by
  have response : (routing'.route server' parser.req).1 = (routing.route s.server parser.req).1 :=
    congrArg Prod.fst same
  have micros : routing'.micros server' parser.req = routing.micros s.server parser.req :=
    congrArg Prod.snd same
  simp only [respond, Session.over, Routing.reply, record, appendResponse, response, micros]

/-- What a turn is going to ask tells how the parser ends. -/
theorem asks_some {request : HttpRequest} (h : s.asks = some request) :
    s.connection.readBuffer ≠ [] ∧ ∃ parser rest,
      s.connection.parser.parse s.connection.readBuffer = (.Complete, parser, rest) ∧
        parser.req = request := by
  unfold asks at h
  split at h
  next => cases h
  next hne =>
    split at h
    next parser rest hparse =>
      cases h
      exact ⟨hne, parser, rest, hparse, rfl⟩
    next => cases h

/-- A turn of the parse loop that does not ask the router. -/
theorem turn_unasked (h : s.asks = none) :
    Unasked s (s.turn routing).1 .parsing (if (s.turn routing).2 then .parsing else .writing)
      .parse := by
  by_cases hnil : s.connection.readBuffer = []
  · rw [turn_nil hnil]
    refine ⟨rfl, rfl, fun routing' server' => ?_⟩
    simp only [handlerStep, turn_nil (s := s.over server') hnil]
  · rw [asks, if_neg hnil] at h
    rcases hparse : s.connection.parser.parse s.connection.readBuffer with ⟨_ | _ | _, parser, rest⟩
    · rw [turn_needMore hparse hnil]
      refine ⟨rfl, rfl, fun routing' server' => ?_⟩
      simp only [handlerStep, turn_needMore (s := s.over server') hparse hnil]
      rfl
    · rw [hparse] at h
      cases h
    · rw [turn_error hparse hnil]
      refine ⟨rfl, rfl, fun routing' server' => ?_⟩
      simp only [handlerStep, turn_error (s := s.over server') hparse hnil]
      rfl

/-- A turn that asks the router. -/
theorem turn_asked {request : HttpRequest} (h : s.asks = some request) :
    Asked routing s (s.turn routing).1 .parsing (if (s.turn routing).2 then .parsing else .writing)
      .parse request := by
  obtain ⟨hnil, parser, rest, hparse, rfl⟩ := asks_some h
  cases hclose : (s.respond routing parser rest).connection.closeAfterWrite with
  | true =>
    rw [turn_closing hparse hnil hclose]
    refine ⟨rfl, rfl, fun routing' server' same => ?_⟩
    have hover : (s.over server').respond routing' parser rest = _ :=
      respond_over routing' server' same
    have hclose' : ((s.over server').respond routing' parser rest).connection.closeAfterWrite =
        true := by
      rw [hover]
      exact hclose
    simp only [handlerStep, turn_closing (s := s.over server') hparse hnil hclose']
    rw [hover]
    rfl
  | false =>
    rw [turn_going hparse hnil hclose]
    refine ⟨rfl, rfl, fun routing' server' same => ?_⟩
    have hover : (s.over server').respond routing' parser rest = _ :=
      respond_over routing' server' same
    have hgoing : ((s.over server').respond routing' parser rest).connection.closeAfterWrite =
        false := by
      rw [hover]
      exact hclose
    simp only [handlerStep, turn_going (s := s.over server') hparse hnil hgoing]
    rw [hover]

end Session

/-- A step leads to the router or does not. -/
theorem Session.unrouted_or_asks (s : Session ρ) (step : HandlerStep) :
    s.unrouted step = true ∨ ∃ request, s.asks = some request ∧ step = .parse := by
  cases step with
  | parse =>
    cases h : s.asks with
    | none => exact .inl (Option.isNone_iff_eq_none.mpr h)
    | some request => exact .inr ⟨request, rfl, rfl⟩
  | _ => exact .inl rfl

/-- A step that does not lead to the router is the same before any. -/
theorem handlerStep_unasked {s t : Session ρ} {stage stage' : Stage} {step : HandlerStep}
    (unrouted : s.unrouted step = true)
    (hs : handlerStep routing s stage step = some (t, stage')) :
    Session.Unasked s t stage stage' step := by
  cases stage with
  | waiting action =>
    cases action <;> cases step <;> simp only [handlerStep, reduceCtorEq] at hs
    all_goals
      cases hs
      exact ⟨rfl, rfl, fun _ _ => rfl⟩
  | reading bytes =>
    cases step <;> simp only [handlerStep, reduceCtorEq] at hs
    case recv result =>
      cases result
      all_goals
        cases hs
        exact ⟨rfl, rfl, fun _ _ => rfl⟩
  | drained bytes =>
    cases step <;> simp only [handlerStep, reduceCtorEq] at hs
    case stamp now =>
      cases hs
      exact ⟨rfl, rfl, fun _ _ => rfl⟩
  | parsing =>
    cases step <;> simp only [handlerStep, reduceCtorEq] at hs
    case parse =>
      cases hs
      exact Session.turn_unasked (Option.isNone_iff_eq_none.mp unrouted)
  | writing =>
    cases step <;> simp only [handlerStep, reduceCtorEq] at hs
    case send result =>
      split at hs
      next hleft =>
        cases result
        all_goals
          cases hs
          exact ⟨rfl, rfl, fun _ _ => if_pos hleft⟩
      next => cases hs
    case flushed =>
      split at hs
      next => cases hs
      next hdone =>
        cases hs
        exact ⟨rfl, rfl, fun _ _ => if_neg hdone⟩

/-- A turn that leads to the router asks it once, and nothing else about it matters. -/
theorem handlerStep_asked {s t : Session ρ} {stage stage' : Stage} {request : HttpRequest}
    (asks : s.asks = some request)
    (hs : handlerStep routing s stage .parse = some (t, stage')) :
    Session.Asked routing s t stage stage' .parse request := by
  cases stage with
  | waiting action => cases action <;> simp only [handlerStep, reduceCtorEq] at hs
  | parsing =>
    cases hs
    exact Session.turn_asked asks
  | _ => simp only [handlerStep, reduceCtorEq] at hs

/-! ## The replies -/

/-- Told this, a router replies it. -/
theorem told_reply {replies : List Reply} {n : Nat} {reply : Reply} (h : replies[n]? = some reply)
    (request : HttpRequest) : (told replies).reply n request = (reply, n + 1) := by
  simp [Routing.reply, told, h]

/-- A connection that got no further than its replies would not notice more of them. -/
theorem stepped_told_append {replies : List Reply} {state : Session Nat × Stage}
    (r : (steppedMachine (told replies) 0).Reachable state)
    (short : state.1.server ≤ replies.length) (more : List Reply) :
    (steppedMachine (told (replies ++ more)) 0).Reachable state := by
  induction r with
  | start => exact .start
  | @step state state' step r _ hs ih =>
    obtain unrouted | ⟨request, asks, rfl⟩ := state.1.unrouted_or_asks step
    · have unasked := handlerStep_unasked unrouted hs
      have hserver : state'.1.server = state.1.server := unasked.server
      have helsewhere := unasked.elsewhere (told (replies ++ more)) state.1.server
      refine .step (ih (by omega)) trivial (helsewhere.trans ?_)
      rw [← hserver]
      rfl
    · have asked := handlerStep_asked asks hs
      have hserver : state'.1.server = state.1.server + 1 := asked.server
      have hlt : state.1.server < replies.length := by omega
      have hreply := List.getElem?_eq_getElem hlt
      have hsame : (replies ++ more)[state.1.server]? = some replies[state.1.server] := by
        rw [List.getElem?_append_left hlt, hreply]
      have helsewhere := asked.elsewhere (told (replies ++ more)) state.1.server
        (by rw [told_reply hsame, told_reply hreply])
      rw [told_reply hsame] at helsewhere
      refine .step (ih (by omega)) trivial (helsewhere.trans ?_)
      rw [← hserver]
      rfl

/-! ## What a step does to one connection -/

variable {router : SharedRouter ρ τ χ} {server : ρ} {crowd crowd' : Crowd ρ τ χ}

/-- What a step on the connection makes of all of them. -/
inductive CrowdMove (router : SharedRouter ρ τ χ) (crowd : Crowd ρ τ χ) (k : Nat) :
    GuestStep χ → Crowd ρ τ χ → Prop where
  | own {step : HandlerStep} {t : Session Unit} {stage : Stage} :
      (crowd.session k).unrouted step = true →
      handlerStep (Reply.routing ({}, 0)) (crowd.session k) (crowd.guests k).stage step =
        some (t, stage) →
      CrowdMove router crowd k (.own step) (crowd.settle k t stage)
  | enter {request : HttpRequest} :
      (crowd.guests k).stage = .parsing → (crowd.guests k).call = none →
      (crowd.session k).asks = some request →
      CrowdMove router crowd k (.route .enter)
        (crowd.holdCall router k request (router.enter request))
  | take {request : HttpRequest} {task : τ} (found : χ) :
      (crowd.guests k).stage = .parsing → (crowd.guests k).call = some (request, task) →
      router.returned task = none →
      CrowdMove router crowd k (.route (.take found))
        ({ crowd with
            server := (router.take crowd.server (task, found)).2
            taken := crowd.taken ++ [(k, task, found)] }.holdCall router k request
          (router.take crowd.server (task, found)).1)
  | leave {request : HttpRequest} {task : τ} {response : HttpResponse} {t : Session Unit}
      {stage : Stage} (micros : Nat) :
      (crowd.guests k).call = some (request, task) → router.returned task = some response →
      handlerStep (Reply.routing (response, micros)) (crowd.session k) (crowd.guests k).stage
        .parse = some (t, stage) →
      CrowdMove router crowd k (.route (.leave micros))
        ((crowd.settle k t stage).endCall k (response, micros))

theorem crowdStep_move {k : Nat} {step : GuestStep χ}
    (hs : crowdStep router crowd (k, step) = some crowd') :
    CrowdMove router crowd k step crowd' := by
  cases step with
  | own step =>
    simp only [crowdStep] at hs
    split at hs
    next unrouted =>
      obtain ⟨⟨t, stage⟩, hstep, rfl⟩ := Option.map_eq_some_iff.mp hs
      exact .own unrouted hstep
    next => cases hs
  | route step =>
    cases step with
    | enter =>
      simp only [crowdStep, Crowd.routeStep] at hs
      split at hs
      next stage call asks =>
        cases hs
        exact .enter stage call asks
      next => cases hs
    | take found =>
      simp only [crowdStep, Crowd.routeStep] at hs
      split at hs
      next request task stage call =>
        split at hs
        next => cases hs
        next pending =>
          cases hs
          exact .take found stage call pending
      next => cases hs
    | leave micros =>
      simp only [crowdStep, Crowd.routeStep] at hs
      split at hs
      next request task call =>
        obtain ⟨response, returned, hs⟩ := Option.bind_eq_some_iff.mp hs
        obtain ⟨⟨t, stage⟩, hstep, rfl⟩ := Option.map_eq_some_iff.mp hs
        exact .leave micros call returned hstep
      next => cases hs

section Guests

variable {k : Nat} {t : Session Unit} {stage : Stage} {request : HttpRequest} {left : τ}
  {reply : Reply}

theorem Crowd.settle_self (crowd : Crowd ρ τ χ) (k : Nat) (t : Session Unit) (stage : Stage) :
    (crowd.settle k t stage).guests k =
      { crowd.guests k with connection := t.connection, history := t.history, stage } :=
  Function.update_self ..

theorem Crowd.holdCall_self (crowd : Crowd ρ τ χ) (k : Nat) (request : HttpRequest) (left : τ) :
    (crowd.holdCall router k request left).guests k =
      { crowd.guests k with call := some (request, left) } :=
  Function.update_self ..

theorem Crowd.endCall_self (crowd : Crowd ρ τ χ) (k : Nat) (reply : Reply) :
    (crowd.endCall k reply).guests k =
      { crowd.guests k with call := none, replies := (crowd.guests k).replies ++ [reply] } :=
  Function.update_self ..

theorem Crowd.settle_of_ne {k' : Nat} (hk : k' ≠ k) :
    (crowd.settle k t stage).guests k' = crowd.guests k' :=
  Function.update_of_ne hk _ _

theorem Crowd.holdCall_of_ne {k' : Nat} (hk : k' ≠ k) :
    (crowd.holdCall router k request left).guests k' = crowd.guests k' :=
  Function.update_of_ne hk _ _

theorem Crowd.endCall_of_ne {k' : Nat} (hk : k' ≠ k) :
    (crowd.endCall k reply).guests k' = crowd.guests k' :=
  Function.update_of_ne hk _ _

/-- A step on a connection leaves the others as they are. -/
theorem CrowdMove.others {step : GuestStep χ} (move : CrowdMove router crowd k step crowd')
    {k' : Nat} (hk : k' ≠ k) : crowd'.guests k' = crowd.guests k' := by
  cases move with
  | own => exact Crowd.settle_of_ne hk
  | enter => exact Crowd.holdCall_of_ne hk
  | take => exact Crowd.holdCall_of_ne hk
  | leave => exact (Crowd.endCall_of_ne hk).trans (Crowd.settle_of_ne hk)

end Guests

/-! ## One connection, and its part of the run -/

/-- What explains a connection: the sections in which its calls had the router, and the
answers that were settled for it. -/
structure Explained (router : SharedRouter ρ τ χ) (guest : Guest τ)
    (sections : List ((τ × χ) × τ)) (decided : List (HttpRequest × HttpResponse)) : Prop where
  course : router.Course guest.answered guest.call sections
  decided : decided = guest.answered ++ (guest.settled router).toList
  length : guest.replies.length = guest.history.routed.length
  asking : ∀ request left, guest.call = some (request, left) →
    guest.stage = .parsing ∧ guest.session.asks = some request
  alone : (steppedMachine (told guest.replies) 0).Reachable
    (guest.session.over guest.replies.length, guest.stage)

namespace Explained

variable {guest : Guest τ} {sections : List ((τ × χ) × τ)}
  {decided : List (HttpRequest × HttpResponse)} {t : Session Unit} {stage : Stage}
  {request : HttpRequest} {left : τ}

/-- The handler is not in a call of the router when it does something else. -/
theorem uncalled {step : HandlerStep} {reply : Reply} {outcome : Session Unit × Stage}
    (h : Explained router guest sections decided) (unrouted : guest.session.unrouted step = true)
    (hs : handlerStep reply.routing guest.session guest.stage step = some outcome) :
    guest.call = none := by
  cases hcall : guest.call with
  | none => rfl
  | some call =>
    obtain ⟨hstage, hasks⟩ := h.asking call.1 call.2 hcall
    rw [hstage] at hs
    cases step with
    | parse =>
      rw [Session.unrouted, hasks] at unrouted
      cases unrouted
    | _ => simp only [handlerStep, reduceCtorEq] at hs

theorem own {step : HandlerStep} (h : Explained router guest sections decided)
    (unrouted : guest.session.unrouted step = true)
    (hs : handlerStep (Reply.routing ({}, 0)) guest.session guest.stage step = some (t, stage)) :
    Explained router { guest with connection := t.connection, history := t.history, stage }
      sections decided := by
  have hcall := h.uncalled unrouted hs
  have unasked := handlerStep_unasked unrouted hs
  have hrouted : t.history.routed = guest.history.routed := unasked.routed
  have hanswered : Guest.answered
      { guest with connection := t.connection, history := t.history, stage } = guest.answered := by
    rw [Guest.answered, Guest.answered, hrouted]
  constructor
  · rw [hanswered]
    exact h.course
  · rw [hanswered]
    exact h.decided
  · exact h.length.trans (congrArg List.length hrouted.symm)
  · intro request left hc
    cases hcall.symm.trans hc
  · exact .step h.alone trivial (unasked.elsewhere (told guest.replies) guest.replies.length)

theorem enter (h : Explained router guest sections decided) (hstage : guest.stage = .parsing)
    (hcall : guest.call = none) (hasks : guest.session.asks = some request) :
    Explained router { guest with call := some (request, router.enter request) } sections
      (decided ++ ((router.returned (router.enter request)).map (request, ·)).toList) := by
  have hcourse := h.course
  have hdecided := h.decided
  rw [hcall] at hcourse
  rw [Guest.settled, hcall] at hdecided
  constructor
  · exact .enter request hcourse
  · rw [hdecided]
    exact congrArg (· ++ _) (List.append_nil _)
  · exact h.length
  · intro request' left hc
    cases hc
    exact ⟨hstage, hasks⟩
  · exact h.alone

theorem take {task : τ} (h : Explained router guest sections decided)
    (hcall : guest.call = some (request, task)) (pending : router.returned task = none) (found : χ)
    (left : τ) :
    Explained router { guest with call := some (request, left) }
      (sections ++ [((task, found), left)])
      (decided ++ ((router.returned left).map (request, ·)).toList) := by
  have hcourse := h.course
  have hdecided := h.decided
  rw [hcall] at hcourse
  rw [Guest.settled, hcall, Option.bind_some, pending] at hdecided
  constructor
  · exact .take found left hcourse pending
  · rw [hdecided]
    exact congrArg (· ++ _) (List.append_nil _)
  · exact h.length
  · intro request' left' hc
    cases hc
    exact h.asking request task hcall
  · exact h.alone

theorem leave {task : τ} {response : HttpResponse} {micros : Nat}
    (h : Explained router guest sections decided) (hcall : guest.call = some (request, task))
    (returned : router.returned task = some response)
    (hs : handlerStep (Reply.routing (response, micros)) guest.session guest.stage .parse =
      some (t, stage)) :
    Explained router
      { connection := t.connection, history := t.history, stage,
        replies := guest.replies ++ [(response, micros)] } sections decided := by
  obtain ⟨hstage, hasks⟩ := h.asking request task hcall
  have asked := handlerStep_asked hasks hs
  have hrouted : t.history.routed = guest.history.routed ++ [request] := asked.routed
  have hanswered : Guest.answered (τ := τ)
      { connection := t.connection, history := t.history, stage,
        replies := guest.replies ++ [(response, micros)] } =
      guest.answered ++ [(request, response)] := by
    rw [Guest.answered, hrouted, List.map_append, List.zip_append]
    · rfl
    · rw [List.length_map, h.length]
  have hcourse := h.course
  have hdecided := h.decided
  rw [hcall] at hcourse
  rw [Guest.settled, hcall, Option.bind_some, returned] at hdecided
  constructor
  · rw [hanswered]
    exact .leave hcourse returned
  · rw [hanswered, hdecided]
    exact (List.append_nil _).symm
  · rw [hrouted, List.length_append, List.length_append, h.length]
    rfl
  · intro request' left hc
    cases hc
  · have hlast : (guest.replies ++ [(response, micros)])[guest.replies.length]? =
        some (response, micros) :=
      List.getElem?_concat_length
    have r := stepped_told_append h.alone (Nat.le_refl _) [(response, micros)]
    have hstep := asked.elsewhere (told (guest.replies ++ [(response, micros)]))
      guest.replies.length (by rw [told_reply hlast]; rfl)
    rw [told_reply hlast] at hstep
    rw [List.length_append]
    exact .step r trivial hstep

end Explained

/-! ## All connections -/

/-- One serial run of sections explains what the server is like now, and each connection by
its part of the run. -/
structure Serially (router : SharedRouter ρ τ χ) (server : ρ) (crowd : Crowd ρ τ χ) : Prop where
  final : crowd.server = Serial.run router.take server crowd.taken
  each : ∀ k, Explained router (crowd.guests k) (Serial.share k (crowd.sections router server))
    (Serial.share k crowd.decided)

/-- What the connection's call adds to the answers that are settled is its own. -/
theorem share_settled (k k' : Nat) (decided : List (Nat × HttpRequest × HttpResponse))
    (request : HttpRequest) (response : Option HttpResponse) :
    Serial.share k' (decided ++ (response.map (k, request, ·)).toList) =
      Serial.share k' decided ++
        if k' = k then (response.map (request, ·)).toList else [] := by
  cases response with
  | none =>
    rw [Option.map_none, Option.map_none, Option.toList_none, Option.toList_none, List.append_nil,
      ite_self, List.append_nil]
  | some response =>
    by_cases hk : k' = k
    · subst hk
      rw [if_pos rfl]
      exact Serial.share_concat_self ..
    · rw [if_neg hk, List.append_nil]
      exact Serial.share_concat_of_ne (Ne.symm hk) ..

theorem Serially.step {label : Nat × GuestStep χ} (h : Serially router server crowd)
    (hs : crowdStep router crowd label = some crowd') : Serially router server crowd' := by
  obtain ⟨k, step⟩ := label
  have move := crowdStep_move hs
  have others := fun k' (hk : k' ≠ k) => move.others hk
  cases move with
  | own unrouted hstep =>
    refine ⟨h.final, fun k' => ?_⟩
    by_cases hk : k' = k
    · subst hk
      rw [Crowd.settle_self]
      exact (h.each k').own unrouted hstep
    · rw [others k' hk]
      exact h.each k'
  | enter stage call asks =>
    refine ⟨h.final, fun k' => ?_⟩
    rw [show Serial.share k' (Crowd.decided _) = _ from share_settled k k' crowd.decided _ _]
    by_cases hk : k' = k
    · subst hk
      rw [Crowd.holdCall_self, if_pos rfl]
      exact (h.each k').enter stage call asks
    · rw [others k' hk, if_neg hk, List.append_nil]
      exact h.each k'
  | @take request task found stage call pending =>
    have hsections : Crowd.sections router server (Crowd.holdCall router
        { crowd with
          server := (router.take crowd.server (task, found)).2
          taken := crowd.taken ++ [(k, task, found)] } k request
        (router.take crowd.server (task, found)).1) =
        crowd.sections router server ++
          [(k, (task, found), (router.take crowd.server (task, found)).1)] := by
      rw [h.final]
      exact Serial.exchanges_concat ..
    refine ⟨?_, fun k' => ?_⟩
    · show (router.take crowd.server (task, found)).2 = _
      rw [h.final]
      exact (Serial.run_concat ..).symm
    rw [hsections, show Serial.share k' (Crowd.decided _) = _ from
      share_settled k k' crowd.decided _ _]
    by_cases hk : k' = k
    · subst hk
      rw [Crowd.holdCall_self, if_pos rfl, Serial.share_concat_self]
      exact (h.each k').take call pending found _
    · rw [others k' hk, if_neg hk, List.append_nil, Serial.share_concat_of_ne (Ne.symm hk)]
      exact h.each k'
  | leave micros call returned hstep =>
    refine ⟨h.final, fun k' => ?_⟩
    by_cases hk : k' = k
    · subst hk
      rw [Crowd.endCall_self, Crowd.settle_self]
      exact (h.each k').leave call returned hstep
    · rw [others k' hk]
      exact h.each k'

/-- Answers are settled one after the other. -/
theorem decided_prefix_step {label : Nat × GuestStep χ}
    (hs : crowdStep router crowd label = some crowd') : crowd.decided <+: crowd'.decided := by
  obtain ⟨k, step⟩ := label
  cases crowdStep_move hs with
  | own | leave => exact List.prefix_rfl
  | enter | take => exact List.prefix_append _ _

/-- However the connections were served, one serial run of the sections of all their calls
explains each of them. -/
theorem serially (r : (crowdMachine router server).Reachable crowd) :
    Serially router server crowd := by
  refine r.invariant ?_ fun _ _ _ h _ hs => h.step hs
  exact ⟨rfl, fun _ => ⟨.start, rfl, rfl, fun _ _ h => (Option.some_ne_none _ h.symm).elim, .start⟩⟩

/-- A router without pages, which is one section. -/
def noPagesShared : SharedRouter Unit (HttpRequest ⊕ HttpResponse) Unit :=
  .whole noPages.route

/-- Two connections are readable at once, and the second one's request is answered while
the first one's call has begun. -/
def interleaved : List (Nat × GuestStep Unit) :=
  [(0, .own .readable), (1, .own .readable), (1, .own (.recv (.data oneRoot))),
    (0, .own (.recv (.data oneRoot))), (0, .own (.recv .wouldBlock)),
    (1, .own (.recv .wouldBlock)), (0, .own (.stamp 0)), (1, .own (.stamp 0)), (0, .route .enter),
    (1, .route .enter), (1, .route (.take ())), (0, .route (.take ())), (0, .route (.leave 7)),
    (1, .route (.leave 7))]

def interleavedEnd : Crowd Unit (HttpRequest ⊕ HttpResponse) Unit :=
  ((crowdMachine noPagesShared ()).exec (crowdMachine noPagesShared ()).start interleaved).get
    (by decide +kernel)

theorem serially_interleaved :
    interleavedEnd.decided.map Prod.fst = [1, 0] ∧ Serially noPagesShared () interleavedEnd :=
  ⟨by decide +kernel, serially (.of_exec (Option.some_get _).symm)⟩

/-- What holds of every run of one connection holds of each of many, whenever the
handler is not called on it. -/
theorem alone_between (r : (crowdMachine router server).Reachable crowd)
    {k : Nat} {action : Action} (waits : (crowd.guests k).stage = .waiting action) :
    (connectionMachine (told (crowd.guests k).replies) 0).Reachable
      ((crowd.session k).over (crowd.guests k).replies.length, some action) := by
  have halone := ((serially r).each k).alone
  rw [waits] at halone
  exact reachable_of_stepped halone

end WebServer
