import WebServer.Laws.Server.Calls
import WebServer.Server.Steps

/-!
# The steps of the handler make up its calls

`Session.rest` is what is left of a call at each of its stages, as a function of what
the calls to come will answer. A step takes one answer off the front of that
(`rest_step`), so a run of steps that comes to the end of a call is the call
(`reachable_of_stepped`); and a call can be taken step by step (`stepped_of_reachable`).
Between calls the two ways to run a connection reach the same states (`stepped_iff`).
-/

namespace WebServer

open Base

variable {ρ : Type u} {routing : Routing ρ} {server : ρ} {s t : Session ρ}

/-! ## What is left of a call -/

/-- The answers that a step uses up. -/
def HandlerStep.recvs : HandlerStep → List RecvResult
  | .recv result => [result]
  | _ => []

def HandlerStep.clock (step : HandlerStep) (later : Int) : Int :=
  match step with
  | .stamp now => now
  | _ => later

def HandlerStep.sends : HandlerStep → List SendResult
  | .send result => [result]
  | _ => []

namespace Session

/-- What is left of `onReadable` in its `recv` loop. -/
def readOn (routing : Routing ρ) (s : Session ρ) (bytes : Bytes) (recvs : List RecvResult)
    (now : Int) (sends : List SendResult) : Session ρ × Option Action :=
  match drain recvs with
  | (more, .pending) => (s.receive more, none)
  | (more, .failed) => (s.receive more, some .close)
  | (more, .drained eof) =>
    let s := s.receive more
    let s := { s with
      connection := { s.connection with closeAfterWrite := s.connection.closeAfterWrite || eof } }
    ((s.stamp (bytes ++ more) now).answerAll routing).flush sends

/-- What is left of a call. -/
def rest (routing : Routing ρ) (s : Session ρ) (stage : Stage) (recvs : List RecvResult)
    (now : Int) (sends : List SendResult) : Session ρ × Option Action :=
  match stage with
  | .waiting action => (s, some action)
  | .reading bytes => s.readOn routing bytes recvs now sends
  | .drained bytes => ((s.stamp bytes now).answerAll routing).flush sends
  | .parsing => (s.answerAll routing).flush sends
  | .writing => s.flush sends

theorem receive_nil (s : Session ρ) : s.receive [] = s := by
  rw [receive, List.append_nil]

theorem receive_receive (s : Session ρ) (bytes more : Bytes) :
    (s.receive bytes).receive more = s.receive (bytes ++ more) := by
  simp only [receive, List.append_assoc]

theorem readOn_nil (recvs : List RecvResult) (now : Int) (sends : List SendResult) :
    s.readOn routing [] recvs now sends = s.onReadable routing recvs now sends := by
  unfold readOn onReadable
  rcases drain recvs with ⟨bytes, _ | eof | _⟩
  · rfl
  · rfl
  · rfl

/-- The `recv` loop takes one result. -/
theorem readOn_recv (bytes : Bytes) (result : RecvResult) (recvs : List RecvResult) (now : Int)
    (sends : List SendResult) :
    s.readOn routing bytes (result :: recvs) now sends =
      (s.recvStep bytes result).1.rest routing (s.recvStep bytes result).2 recvs now sends := by
  cases result with
  | data chunk =>
    show _ = (s.receive chunk.bytes).readOn routing (bytes ++ chunk.bytes) recvs now sends
    unfold readOn
    rw [drain]
    rcases drain recvs with ⟨more, _ | eof | _⟩
    · simp only [receive_receive]
    · simp only [receive_receive, List.append_assoc]
    · simp only [receive_receive]
  | eof => simp only [readOn, drain, receive_nil, List.append_nil, Bool.or_true, recvStep, rest]
  | interrupted => rfl
  | wouldBlock => simp only [readOn, drain, receive_nil, List.append_nil, Bool.or_false, recvStep, rest]
  | failed => simp only [readOn, drain, receive_nil, recvStep, rest]

/-! ### The turns of the parse loop -/

theorem turn_nil (h : s.connection.readBuffer = []) : s.turn routing = (s, false) := by
  rw [turn, if_pos h]

theorem turn_needMore {parser : RequestParser} {rest : Bytes}
    (h : s.connection.parser.parse s.connection.readBuffer = (.NeedMore, parser, rest))
    (hne : s.connection.readBuffer ≠ []) :
    s.turn routing =
      ({ s with connection := { s.connection with parser, readBuffer := rest } }, false) := by
  rw [turn, if_neg hne, h]

theorem turn_error {parser : RequestParser} {rest : Bytes}
    (h : s.connection.parser.parse s.connection.readBuffer = (.Error, parser, rest))
    (hne : s.connection.readBuffer ≠ []) : s.turn routing = (s.reject parser, false) := by
  rw [turn, if_neg hne, h]

theorem turn_closing {parser : RequestParser} {rest : Bytes}
    (h : s.connection.parser.parse s.connection.readBuffer = (.Complete, parser, rest))
    (hne : s.connection.readBuffer ≠ [])
    (hclose : (s.respond routing parser rest).connection.closeAfterWrite = true) :
    s.turn routing =
      ({ s.respond routing parser rest with
        connection := { (s.respond routing parser rest).connection with readBuffer := [] } },
        false) := by
  rw [turn, if_neg hne, h]
  exact if_pos hclose

theorem turn_going {parser : RequestParser} {rest : Bytes}
    (h : s.connection.parser.parse s.connection.readBuffer = (.Complete, parser, rest))
    (hne : s.connection.readBuffer ≠ [])
    (hgoing : (s.respond routing parser rest).connection.closeAfterWrite = false) :
    s.turn routing = (s.respond routing parser rest, true) := by
  rw [turn, if_neg hne, h]
  exact if_neg (by rw [hgoing]; exact Bool.false_ne_true)

/-- The parse loop takes one turn. -/
theorem answerAll_turn (s : Session ρ) :
    s.answerAll routing =
      if (s.turn routing).2 then (s.turn routing).1.answerAll routing else (s.turn routing).1 := by
  by_cases hnil : s.connection.readBuffer = []
  · rw [answerAll_nil hnil, turn_nil hnil]
    rfl
  · rcases hparse : s.connection.parser.parse s.connection.readBuffer with ⟨_ | _ | _, parser, rest⟩
    · rw [answerAll_needMore hparse hnil, turn_needMore hparse hnil]
      rfl
    · cases hclose : (s.respond routing parser rest).connection.closeAfterWrite with
      | true =>
        rw [answerAll_closing hparse hnil hclose, turn_closing hparse hnil hclose]
        rfl
      | false =>
        rw [answerAll_going hparse hnil hclose, turn_going hparse hnil hclose]
        rfl
    · rw [answerAll_error hparse hnil, turn_error hparse hnil]
      rfl

/-! ### Each step -/

/-- `flush` takes one result. -/
theorem flush_send (hleft : s.connection.writeOffset < s.connection.writeBuffer.length)
    (result : SendResult) (recvs : List RecvResult) (now : Int) (sends : List SendResult) :
    s.flush (result :: sends) =
      (s.sendStep result).1.rest routing (s.sendStep result).2 recvs now sends := by
  unfold flush
  rw [if_pos hleft]
  cases result <;> rfl

theorem flush_flushed (hdone : ¬ s.connection.writeOffset < s.connection.writeBuffer.length)
    (sends : List SendResult) :
    s.flush sends = ({ s with connection := { s.connection with writeBuffer := [], writeOffset := 0 } },
      some (if s.connection.closeAfterWrite then .close else .waitRead)) := by
  unfold flush
  rw [if_neg hdone]

/-- A step inside a call uses up its part of the answers. -/
theorem rest_step {stage stage' : Stage} {step : HandlerStep} (inside : ∀ a, stage ≠ .waiting a)
    (hs : handlerStep routing s stage step = some (t, stage')) (recvs : List RecvResult)
    (now : Int) (sends : List SendResult) :
    t.rest routing stage' recvs now sends =
      s.rest routing stage (step.recvs ++ recvs) (step.clock now) (step.sends ++ sends) := by
  cases stage with
  | waiting action => exact absurd rfl (inside action)
  | reading bytes =>
    cases step <;> simp only [handlerStep, reduceCtorEq] at hs
    case recv result =>
      obtain rfl : (s.recvStep bytes result).1 = t := congrArg Prod.fst (Option.some.inj hs)
      obtain rfl : (s.recvStep bytes result).2 = stage' := congrArg Prod.snd (Option.some.inj hs)
      exact (readOn_recv bytes result recvs now sends).symm
  | drained bytes =>
    cases step <;> simp only [handlerStep, reduceCtorEq] at hs
    case stamp clock =>
      cases hs
      rfl
  | parsing =>
    cases step <;> simp only [handlerStep, reduceCtorEq] at hs
    case parse =>
      cases hs
      show _ = (s.answerAll routing).flush sends
      rw [answerAll_turn]
      cases (s.turn routing).2 with
      | true => rfl
      | false => rfl
  | writing =>
    cases step <;> simp only [handlerStep, reduceCtorEq] at hs
    case send result =>
      split at hs
      next hleft =>
        obtain rfl : (s.sendStep result).1 = t := congrArg Prod.fst (Option.some.inj hs)
        obtain rfl : (s.sendStep result).2 = stage' := congrArg Prod.snd (Option.some.inj hs)
        exact (flush_send hleft result recvs now sends).symm
      next => cases hs
    case flushed =>
      split at hs
      next => cases hs
      next hdone =>
        cases hs
        exact (flush_flushed hdone sends).symm

end Session

/-! ## From steps to calls -/

/-- What is known of a connection at a stage: between calls it is where the calls so far
have brought it; inside a call, some call has got so far, whatever will be answered. -/
inductive Moment (routing : Routing ρ) (server : ρ) (s : Session ρ) (stage : Stage) : Prop where
  | between {action : Action} (waits : stage = .waiting action)
      (reached : (connectionMachine routing server).Reachable (s, some action))
  | inside {entered : Session ρ} {action : Action}
      (wakeup : List RecvResult → Int → List SendResult → Wakeup)
      (notWaiting : ∀ a, stage ≠ .waiting a)
      (reached : (connectionMachine routing server).Reachable (entered, some action))
      (call : ∀ recvs now sends,
        connectionStep routing (entered, some action) (wakeup recvs now sends) =
          some (s.rest routing stage recvs now sends))

/-- A call that has got to a stage is a moment there. -/
theorem Moment.of_call {entered : Session ρ} {action : Action} {stage : Stage}
    (wakeup : List RecvResult → Int → List SendResult → Wakeup)
    (reached : (connectionMachine routing server).Reachable (entered, some action))
    (call : ∀ recvs now sends,
      connectionStep routing (entered, some action) (wakeup recvs now sends) =
        some (s.rest routing stage recvs now sends)) : Moment routing server s stage := by
  cases stage with
  | waiting action' => exact .between rfl (.step reached trivial (call [] 0 []))
  | _ => exact .inside wakeup (by simp) reached call

theorem Moment.step {stage stage' : Stage} {step : HandlerStep} (h : Moment routing server s stage)
    (hs : handlerStep routing s stage step = some (t, stage')) : Moment routing server t stage' := by
  cases h with
  | inside wakeup notWaiting reached call =>
    refine .of_call (fun recvs now sends =>
      wakeup (step.recvs ++ recvs) (step.clock now) (step.sends ++ sends)) reached
      fun recvs now sends => ?_
    rw [Session.rest_step notWaiting hs]
    exact call _ _ _
  | @between action waits reached =>
    subst waits
    cases action with
    | waitRead =>
      cases step <;> simp only [handlerStep, Option.some.injEq, Prod.mk.injEq, reduceCtorEq] at hs
      case readable =>
        obtain ⟨rfl, rfl⟩ := hs
        refine .of_call Wakeup.readable reached fun recvs now sends => ?_
        show some (s.onReadable routing recvs now sends) = some (s.readOn routing [] recvs now sends)
        rw [Session.readOn_nil]
      case hangup =>
        obtain ⟨rfl, rfl⟩ := hs
        exact .between rfl (.step (a := .hangup) reached trivial rfl)
    | waitWrite =>
      cases step <;> simp only [handlerStep, Option.some.injEq, Prod.mk.injEq, reduceCtorEq] at hs
      case writable =>
        obtain ⟨rfl, rfl⟩ := hs
        exact .of_call (fun _ _ sends => .writable sends) reached fun _ _ _ => rfl
      case hangup =>
        obtain ⟨rfl, rfl⟩ := hs
        exact .between rfl (.step (a := .hangup) reached trivial rfl)
    | close => cases step <;> cases hs

/-- Whatever the steps, a connection is between calls or some way into one. -/
theorem moment_of_stepped {stage : Stage}
    (r : (steppedMachine routing server).Reachable (s, stage)) : Moment routing server s stage :=
  r.invariant (I := fun state => Moment routing server state.1 state.2) (.between rfl .start)
    fun _ _ _ h _ hs => h.step hs

theorem reachable_of_stepped {action : Action}
    (r : (steppedMachine routing server).Reachable (s, .waiting action)) :
    (connectionMachine routing server).Reachable (s, some action) := by
  cases moment_of_stepped r with
  | between waits reached =>
    cases waits
    exact reached
  | inside wakeup notWaiting => exact absurd rfl (notWaiting action)

/-! ## From calls to steps -/

section Taken

variable {t : Session ρ} {action : Action} {sends : List SendResult}

/-- `flush` can be taken step by step. -/
theorem stepped_flush (r : (steppedMachine routing server).Reachable (s, .writing))
    (h : s.flush sends = (t, some action)) :
    (steppedMachine routing server).Reachable (t, .waiting action) := by
  induction sends generalizing s with
  | nil =>
    by_cases hleft : s.connection.writeOffset < s.connection.writeBuffer.length
    · rw [Session.flush, if_pos hleft] at h
      cases h
    · rw [Session.flush_flushed hleft] at h
      cases h
      refine .step (a := .flushed) r trivial ?_
      exact if_neg hleft
  | cons result sends ih =>
    by_cases hleft : s.connection.writeOffset < s.connection.writeBuffer.length
    · have hstep : (steppedMachine routing server).step (s, .writing) (.send result) =
          some (s.sendStep result) := if_pos hleft
      have r' := Machine.Reach.step r trivial hstep
      have hsend : s.flush (result :: sends) =
          (s.sendStep result).1.rest routing (s.sendStep result).2 [] 0 sends :=
        Session.flush_send hleft result [] 0 sends
      rw [hsend] at h
      cases result with
      | accepted more => exact ih r' h
      | interrupted => exact ih r' h
      | wouldBlock =>
        cases h
        exact r'
      | failed =>
        cases h
        exact r'
    · rw [Session.flush_flushed hleft] at h
      cases h
      refine .step (a := .flushed) r trivial ?_
      exact if_neg hleft

/-- One turn of the parse loop, as a step. -/
theorem stepped_turn {more : Bool} (r : (steppedMachine routing server).Reachable (s, .parsing))
    (h : s.turn routing = (t, more)) :
    (steppedMachine routing server).Reachable (t, if more then .parsing else .writing) := by
  refine .step (a := .parse) r trivial ?_
  show some ((s.turn routing).1, if (s.turn routing).2 then Stage.parsing else .writing) = _
  rw [h]

/-- The parse loop can be taken turn by turn. -/
theorem stepped_answerAll (r : (steppedMachine routing server).Reachable (s, .parsing)) :
    (steppedMachine routing server).Reachable (s.answerAll routing, .writing) := by
  fun_induction Session.answerAll routing s with
  | case1 s hnil => exact stepped_turn r (Session.turn_nil hnil)
  | case2 s hne parser rest hparse => exact stepped_turn r (Session.turn_needMore hparse hne)
  | case3 s hne parser rest hparse => exact stepped_turn r (Session.turn_error hparse hne)
  | case4 s hne parser rest hparse t hclose =>
    exact stepped_turn r (Session.turn_closing hparse hne hclose)
  | case5 s hne parser rest hparse t hgoing ih =>
    exact ih (stepped_turn r (Session.turn_going hparse hne (by simpa using hgoing)))

/-- What follows the `recv` loop can be taken step by step. -/
theorem stepped_drained {bytes : Bytes} {now : Int}
    (r : (steppedMachine routing server).Reachable (s, .drained bytes))
    (h : ((s.stamp bytes now).answerAll routing).flush sends = (t, some action)) :
    (steppedMachine routing server).Reachable (t, .waiting action) := by
  have hstamp : (steppedMachine routing server).Reachable (s.stamp bytes now, .parsing) :=
    .step (a := .stamp now) r trivial rfl
  exact stepped_flush (stepped_answerAll hstamp) h

/-- So can what is left of `onReadable` at any point of the `recv` loop. -/
theorem stepped_readOn {bytes : Bytes} {recvs : List RecvResult} {now : Int}
    (r : (steppedMachine routing server).Reachable (s, .reading bytes))
    (h : s.readOn routing bytes recvs now sends = (t, some action)) :
    (steppedMachine routing server).Reachable (t, .waiting action) := by
  induction recvs generalizing s bytes with
  | nil => cases h
  | cons result recvs ih =>
    have r' := Machine.Reach.step (a := .recv result) r trivial rfl
    rw [Session.readOn_recv] at h
    cases result with
    | data chunk => exact ih r' h
    | eof => exact stepped_drained r' h
    | interrupted => exact ih r' h
    | wouldBlock => exact stepped_drained r' h
    | failed =>
      cases h
      exact r'

end Taken

theorem stepped_of_reachable {phase : Option Action}
    (r : (connectionMachine routing server).Reachable (s, phase)) :
    ∀ action, phase = some action →
      (steppedMachine routing server).Reachable (s, .waiting action) := by
  refine r.invariant (I := fun state => ∀ action, state.2 = some action →
    (steppedMachine routing server).Reachable (state.1, .waiting action)) ?_ ?_
  · rintro action h
    cases h
    exact .start
  · rintro ⟨s, phase⟩ wakeup ⟨t, phase'⟩ ih - hs action haction
    dsimp only at haction
    subst haction
    obtain ⟨recvs, now, sends, -, rfl, h⟩ | ⟨sends, -, rfl, h⟩ | ⟨-, hphase, rfl, h⟩ :=
      connectionStep_cases hs
    · rw [← Session.readOn_nil] at h
      exact stepped_readOn (.step (a := .readable) (ih .waitRead rfl) trivial rfl) h
    · exact stepped_flush (.step (a := .writable) (ih .waitWrite rfl) trivial rfl) h
    · cases h
      obtain rfl | rfl := hphase
      · exact .step (a := .hangup) (ih .waitRead rfl) trivial rfl
      · exact .step (a := .hangup) (ih .waitWrite rfl) trivial rfl

/-- Between calls, the handler reaches the same by steps as by whole calls. -/
theorem stepped_iff {action : Action} :
    (steppedMachine routing server).Reachable (s, .waiting action) ↔
      (connectionMachine routing server).Reachable (s, some action) :=
  ⟨reachable_of_stepped, fun r => stepped_of_reachable r action rfl⟩

end WebServer
