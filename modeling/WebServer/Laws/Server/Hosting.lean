import WebServer.Laws.Server.Crowd
import WebServer.Server.Hosting

/-!
# What an event loop owes its connections

The handler relies on its caller: it is called only when its last action asked for it,
and what the loop closes by itself is in no call. `Crowd.Ready` is this for one step of
a loop. A loop that is always ready drives its connections as if each had come in its
own good time (`crowd_of_hosted`), so the laws of one connection and of many are laws of
the server.
-/

namespace WebServer

variable {σ : Type x} {α : Type y} {ρ : Type u} {τ : Type v} {χ : Type w} {loop : Machine σ α}
  {calls : σ → α → LoopCall} {router : SharedRouter ρ τ χ} {server : ρ}
  {crowd crowd' : Crowd ρ τ χ} {call : LoopCall} {io : IoResult}

/-- The handler's last action on the connection. -/
def Crowd.Waits (crowd : Crowd ρ τ χ) (k : Nat) (action : Action) : Prop :=
  (crowd.guests k).stage = .waiting action

/-- The handler may be called so. -/
def Crowd.Ready (crowd : Crowd ρ τ χ) : LoopCall → Prop
  | .onReadable k => crowd.Waits k .waitRead
  | .onWritable k => crowd.Waits k .waitWrite
  | .giveUp k => ∃ action, crowd.Waits k action
  | _ => True

/-- A call that moves the connection, and nothing but its stage. -/
theorem Crowd.settle_session (crowd : Crowd ρ τ χ) (k : Nat) (stage : Stage) :
    crowd.settle k (crowd.session k) stage = crowd.setStage k stage := by
  simp [settle, setStage, session, Guest.session]

/-! ## What a call leaves alone -/

theorem crowdStep_own {k : Nat} {step : HandlerStep}
    (h : crowdStep router crowd (k, .own step) = some crowd') :
    ∃ t, handlerStep (Reply.routing ({}, 0)) (crowd.session k) (crowd.guests k).stage step =
      some (t, (crowd'.guests k).stage) := by
  cases crowdStep_move h with
  | own unrouted hstep =>
    rw [Crowd.settle_self]
    exact ⟨_, hstep⟩

theorem crowdStep_others {k : Nat} {step : GuestStep χ}
    (h : crowdStep router crowd (k, step) = some crowd') {k' : Nat} (hk : k' ≠ k) :
    crowd'.guests k' = crowd.guests k' :=
  (crowdStep_move h).others hk

/-- What the connections do when the loop makes a call. -/
inductive Followed (router : SharedRouter ρ τ χ) (crowd : Crowd ρ τ χ) :
    LoopCall → IoResult → Crowd ρ τ χ → Prop where
  | nothing : Followed router crowd .nothing .none crowd
  | onReadable {k : Nat} :
      Followed router crowd (.onReadable k) .none (crowd.setStage k (.reading []))
  | onWritable {k : Nat} : Followed router crowd (.onWritable k) .none (crowd.setStage k .writing)
  | giveUp {k : Nat} :
      Followed router crowd (.giveUp k) .none (crowd.setStage k (.waiting .close))
  | recv {k : Nat} {kind : Pool.Recv} {result : RecvResult} {crowd' : Crowd ρ τ χ}
      (same : result.kind = kind)
      (step : crowdStep router crowd (k, .own (.recv result)) = some crowd') :
      Followed router crowd (.recv k kind) (.recv result) crowd'
  | stamp {k : Nat} {now : Int} {crowd' : Crowd ρ τ χ}
      (step : crowdStep router crowd (k, .own (.stamp now)) = some crowd') :
      Followed router crowd (.stamp k now) .none crowd'
  | send {k : Nat} {kind : Pool.Send} {result : SendResult} {crowd' : Crowd ρ τ χ}
      (same : result.kind = kind)
      (step : crowdStep router crowd (k, .own (.send result)) = some crowd') :
      Followed router crowd (.send k kind) (.send result) crowd'
  | flushed {k : Nat} {closeAfterWrite : Bool} {crowd' : Crowd ρ τ χ}
      (same : (crowd.guests k).connection.closeAfterWrite = closeAfterWrite)
      (step : crowdStep router crowd (k, .own .flushed) = some crowd') :
      Followed router crowd (.flushed k closeAfterWrite) .none crowd'

theorem followed_of_follow (h : crowd.follow router call io = some crowd') :
    Followed router crowd call io crowd' := by
  unfold Crowd.follow at h
  split at h
  case h_1 =>
    cases h
    exact .nothing
  case h_2 =>
    cases h
    exact .onReadable
  case h_3 =>
    cases h
    exact .onWritable
  case h_4 =>
    cases h
    exact .giveUp
  case h_5 =>
    split at h
    next same => exact .recv same h
    next => cases h
  case h_6 => exact .stamp h
  case h_7 =>
    split at h
    next same => exact .send same h
    next => cases h
  case h_8 =>
    split at h
    next same => exact .flushed same h
    next => cases h
  case h_9 => cases h

/-- A call touches the connection that it is about. -/
theorem follow_others (h : crowd.follow router call io = some crowd') {k' : Nat}
    (hk : call.subject ≠ some k') : crowd'.guests k' = crowd.guests k' := by
  have other : ∀ {k : Nat}, some k ≠ some k' → k' ≠ k :=
    fun hk same => hk (congrArg some same.symm)
  cases followed_of_follow h with
  | nothing => rfl
  | onReadable | onWritable | giveUp => exact Function.update_of_ne (other hk) _ _
  | recv _ step | stamp step | send _ step | flushed _ step =>
    exact crowdStep_others step (other hk)

theorem subject_of (e : Pool.Event) (k : Nat) : (LoopCall.of e k).subject = some k := by
  unfold LoopCall.of
  split
  · rfl
  · split <;> rfl

/-- An event calls for what its connection waits for. -/
theorem ready_of_reports {e : Pool.Event} {k : Nat} {interest : Pool.Interest}
    (reports : interest.reports e.events = true) (waits : crowd.Waits k interest.action) :
    crowd.Ready (LoopCall.of e k) := by
  unfold LoopCall.of
  split
  next => exact ⟨interest.action, waits⟩
  next hquiet =>
    simp only [Pool.Interest.reports, Bool.and_eq_true, Bool.or_eq_true, Bool.not_eq_true',
      decide_eq_true_eq] at reports hquiet
    split
    next hout =>
      cases interest with
      | epollin => simp [hout] at reports
      | epollout => exact waits
    next hout =>
      cases interest with
      | epollin => exact waits
      | epollout => simp_all

/-- What is settled stays settled, and in its order. -/
theorem decided_prefix_follow (h : crowd.follow router call io = some crowd') :
    crowd.decided <+: crowd'.decided := by
  cases followed_of_follow h with
  | nothing | onReadable | onWritable | giveUp => exact List.prefix_rfl
  | recv _ step | stamp step | send _ step | flushed _ step => exact decided_prefix_step step

/-! ## Where a call leaves the handler -/

section Stages

variable {k : Nat}

theorem follow_nothing (h : crowd.follow router .nothing io = some crowd') : crowd' = crowd := by
  cases followed_of_follow h
  rfl

theorem follow_giveUp (h : crowd.follow router (.giveUp k) io = some crowd') :
    crowd'.Waits k .close := by
  cases followed_of_follow h
  simp [Crowd.Waits, Crowd.setStage]

theorem follow_onReadable (h : crowd.follow router (.onReadable k) io = some crowd') :
    (crowd'.guests k).stage = .reading [] := by
  cases followed_of_follow h
  simp [Crowd.setStage]

theorem follow_onWritable (h : crowd.follow router (.onWritable k) io = some crowd') :
    (crowd'.guests k).stage = .writing := by
  cases followed_of_follow h
  simp [Crowd.setStage]

theorem follow_recv {kind : Pool.Recv} {bytes : Base.Bytes}
    (h : crowd.follow router (.recv k kind) io = some crowd')
    (stage : (crowd.guests k).stage = .reading bytes) :
    ∃ result : RecvResult, result.kind = kind ∧
      (crowd'.guests k).stage = ((crowd.session k).recvStep bytes result).2 := by
  cases followed_of_follow h with
  | recv hkind step =>
    obtain ⟨t, hstep⟩ := crowdStep_own step
    rw [stage] at hstep
    exact ⟨_, hkind, (congrArg Prod.snd (Option.some.inj hstep)).symm⟩

/-- `onReadable` reads on. -/
theorem follow_received {kind : Pool.Recv} {bytes : Base.Bytes}
    (h : crowd.follow router (.recv k kind) io = some crowd')
    (goesOn : kind = .data ∨ kind = .interrupted)
    (stage : (crowd.guests k).stage = .reading bytes) :
    ∃ bytes', (crowd'.guests k).stage = .reading bytes' := by
  obtain ⟨result, rfl, hstage⟩ := follow_recv h stage
  cases result with
  | data chunk => exact ⟨_, hstage⟩
  | interrupted => exact ⟨_, hstage⟩
  | _ => simp [RecvResult.kind] at goesOn

/-- `onReadable` has read what there is. -/
theorem follow_drained {kind : Pool.Recv} {bytes : Base.Bytes}
    (h : crowd.follow router (.recv k kind) io = some crowd')
    (ends : kind = .eof ∨ kind = .wouldBlock) (stage : (crowd.guests k).stage = .reading bytes) :
    ∃ bytes', (crowd'.guests k).stage = .drained bytes' := by
  obtain ⟨result, rfl, hstage⟩ := follow_recv h stage
  cases result with
  | eof => exact ⟨_, hstage⟩
  | wouldBlock => exact ⟨_, hstage⟩
  | _ => simp [RecvResult.kind] at ends

theorem follow_recvFailed {bytes : Base.Bytes}
    (h : crowd.follow router (.recv k .failed) io = some crowd')
    (stage : (crowd.guests k).stage = .reading bytes) : crowd'.Waits k .close := by
  obtain ⟨result, hkind, hstage⟩ := follow_recv h stage
  cases result with
  | failed => exact hstage
  | _ => cases hkind

theorem follow_stamp {now : Int} {bytes : Base.Bytes}
    (h : crowd.follow router (.stamp k now) io = some crowd')
    (stage : (crowd.guests k).stage = .drained bytes) : (crowd'.guests k).stage = .parsing := by
  cases followed_of_follow h with
  | stamp step =>
    obtain ⟨t, hstep⟩ := crowdStep_own step
    rw [stage] at hstep
    exact (congrArg Prod.snd (Option.some.inj hstep)).symm

theorem follow_send {kind : Pool.Send} (h : crowd.follow router (.send k kind) io = some crowd')
    (stage : (crowd.guests k).stage = .parsing ∨ (crowd.guests k).stage = .writing) :
    ∃ result : SendResult, result.kind = kind ∧
      (crowd'.guests k).stage = ((crowd.session k).sendStep result).2 := by
  cases followed_of_follow h with
  | send hkind step =>
    obtain ⟨t, hstep⟩ := crowdStep_own step
    obtain hparsing | hwriting := stage
    · rw [hparsing] at hstep
      cases hstep
    · rw [hwriting] at hstep
      simp only [handlerStep] at hstep
      split at hstep
      · exact ⟨_, hkind, (congrArg Prod.snd (Option.some.inj hstep)).symm⟩
      · cases hstep

/-- `onWritable` writes on. -/
theorem follow_sent {kind : Pool.Send} (h : crowd.follow router (.send k kind) io = some crowd')
    (goesOn : kind = .sent ∨ kind = .interrupted)
    (stage : (crowd.guests k).stage = .parsing ∨ (crowd.guests k).stage = .writing) :
    (crowd'.guests k).stage = .writing := by
  obtain ⟨result, rfl, hstage⟩ := follow_send h stage
  cases result with
  | accepted more => exact hstage
  | interrupted => exact hstage
  | _ => simp [SendResult.kind] at goesOn

theorem follow_stalled (h : crowd.follow router (.send k .wouldBlock) io = some crowd')
    (stage : (crowd.guests k).stage = .parsing ∨ (crowd.guests k).stage = .writing) :
    crowd'.Waits k .waitWrite := by
  obtain ⟨result, hkind, hstage⟩ := follow_send h stage
  cases result with
  | wouldBlock => exact hstage
  | _ => cases hkind

theorem follow_sendFailed (h : crowd.follow router (.send k .failed) io = some crowd')
    (stage : (crowd.guests k).stage = .parsing ∨ (crowd.guests k).stage = .writing) :
    crowd'.Waits k .close := by
  obtain ⟨result, hkind, hstage⟩ := follow_send h stage
  cases result with
  | failed => exact hstage
  | _ => cases hkind

theorem follow_flushed {closeAfterWrite : Bool}
    (h : crowd.follow router (.flushed k closeAfterWrite) io = some crowd')
    (stage : (crowd.guests k).stage = .parsing ∨ (crowd.guests k).stage = .writing) :
    crowd'.Waits k (if closeAfterWrite then .close else .waitRead) := by
  cases followed_of_follow h with
  | flushed hclose step =>
    obtain ⟨t, hstep⟩ := crowdStep_own step
    obtain hparsing | hwriting := stage
    · rw [hparsing] at hstep
      cases hstep
    · rw [hwriting] at hstep
      simp only [handlerStep] at hstep
      split at hstep
      · cases hstep
      · rw [← hclose]
        exact (congrArg Prod.snd (Option.some.inj hstep)).symm

/-- Steps that are parts of turns of the parse loop. -/
def GuestStep.InTurn : GuestStep χ → Prop
  | .own .parse | .route _ => True
  | _ => False

/-- A turn of the parse loop is made in it, and leaves it for `flush`. -/
theorem handlerStep_parse {s t : Session Unit} {stage stage' : Stage} {reply : Reply}
    (h : handlerStep reply.routing s stage .parse = some (t, stage')) :
    stage = .parsing ∧ (stage' = .parsing ∨ stage' = .writing) := by
  cases stage with
  | parsing =>
    have hstage : (if (s.turn reply.routing).2 then Stage.parsing else .writing) = stage' :=
      congrArg Prod.snd (Option.some.inj h)
    rw [← hstage]
    cases (s.turn reply.routing).2 with
    | true => exact ⟨rfl, .inl rfl⟩
    | false => exact ⟨rfl, .inr rfl⟩
  | waiting action => cases action <;> cases h
  | reading bytes => cases h
  | drained bytes => cases h
  | writing => cases h

/-- A part of a turn leaves the connection in the handler's call. -/
theorem parse_stage {step : GuestStep χ} (inTurn : step.InTurn)
    (h : crowdStep router crowd (k, step) = some crowd') :
    (crowd.guests k).stage = .parsing ∧
      ((crowd'.guests k).stage = .parsing ∨ (crowd'.guests k).stage = .writing) := by
  cases crowdStep_move h with
  | @own own t stage unrouted hstep =>
    cases own with
    | parse =>
      rw [Crowd.settle_self]
      exact handlerStep_parse hstep
    | _ => exact inTurn.elim
  | enter stage call asks =>
    rw [Crowd.holdCall_self]
    exact ⟨stage, .inl stage⟩
  | take found stage call pending =>
    rw [Crowd.holdCall_self]
    exact ⟨stage, .inl stage⟩
  | leave micros call returned hstep =>
    rw [Crowd.endCall_self, Crowd.settle_self]
    exact handlerStep_parse hstep

end Stages

/-! ## The connections' own steps -/

/-- A loop that is ready drives the connections by their own steps. -/
theorem crowd_follow (r : (crowdMachine router server).Reachable crowd) (ready : crowd.Ready call)
    (h : crowd.follow router call io = some crowd') :
    (crowdMachine router server).Reachable crowd' := by
  have own : ∀ {k : Nat} {step : HandlerStep},
      crowdStep router crowd (k, .own step) = some crowd' →
      (crowdMachine router server).Reachable crowd' :=
    fun {k step} hs => .step (a := (k, .own step)) r trivial hs
  -- the loop enters the handler, or gives the connection up, by a step of the handler
  have enters : ∀ {k : Nat} {action : Action} (step : HandlerStep) {stage : Stage},
      crowd.Waits k action → (crowd.session k).unrouted step = true →
      handlerStep (Reply.routing ({}, 0)) (crowd.session k) (.waiting action) step =
        some (crowd.session k, stage) →
      (crowdMachine router server).Reachable (crowd.setStage k stage) := by
    intro k action step stage waits unrouted hstep
    refine .step (a := (k, .own step)) r trivial ?_
    show crowdStep router crowd (k, .own step) = _
    have hstage : (crowd.guests k).stage = .waiting action := waits
    simp only [crowdStep, if_pos unrouted, hstage, hstep, Option.map_some, Crowd.settle_session]
  cases followed_of_follow h with
  | nothing => exact r
  | onReadable => exact enters .readable ready rfl rfl
  | onWritable => exact enters .writable ready rfl rfl
  | @giveUp k =>
    obtain ⟨action, waits⟩ := ready
    cases action with
    | waitRead => exact enters .hangup waits rfl rfl
    | waitWrite => exact enters .hangup waits rfl rfl
    | close =>
      -- it was to close anyway
      have hsame : crowd.setStage k (.waiting .close) = crowd := by
        have hstage : (crowd.guests k).stage = .waiting .close := waits
        have hguest : { crowd.guests k with stage := .waiting .close } = crowd.guests k := by
          rw [← hstage]
        rw [Crowd.setStage, hguest, Function.update_eq_self]
      rw [hsame]
      exact r
  | recv _ step | stamp step | send _ step | flushed _ step => exact own step

/-- A step of both is a step of the loop with what it means for the connections, or a
part of a turn of the parse loop. -/
theorem hostStep_cases {h h' : Hosted σ ρ τ χ} {label : HostLabel α χ}
    (hs : hostStep loop calls router h label = some h') :
    (∃ a io after crowd, label = .loop a io ∧ loop.step h.loop a = some after ∧
      h.crowd.follow router (calls h.loop a) io = some crowd ∧ h' = ⟨after, crowd⟩) ∨
    ∃ k step crowd, step.InTurn ∧ crowdStep router h.crowd (k, step) = some crowd ∧
      h' = { h with crowd } := by
  cases label with
  | loop a io =>
    obtain ⟨after, hloop, hs⟩ := Option.bind_eq_some_iff.mp hs
    obtain ⟨crowd, hcrowd, rfl⟩ := Option.map_eq_some_iff.mp hs
    exact .inl ⟨a, io, after, crowd, rfl, hloop, hcrowd, rfl⟩
  | parse k =>
    obtain ⟨crowd, hcrowd, rfl⟩ := Option.map_eq_some_iff.mp hs
    exact .inr ⟨k, .own .parse, crowd, trivial, hcrowd, rfl⟩
  | route k step =>
    obtain ⟨crowd, hcrowd, rfl⟩ := Option.map_eq_some_iff.mp hs
    exact .inr ⟨k, .route step, crowd, trivial, hcrowd, rfl⟩

/-- Later answers come behind in the order. -/
theorem decided_prefix_exec {h h' : Hosted σ ρ τ χ} {labels : List (HostLabel α χ)}
    (run : (hosted loop calls router server).exec h labels = some h') :
    h.crowd.decided <+: h'.crowd.decided := by
  refine Machine.exec_keeps (I := fun later => h.crowd.decided <+: later.crowd.decided) ?_
    List.prefix_rfl run
  intro s label s' before hs
  obtain ⟨a, io, after, crowd, rfl, -, hfollow, rfl⟩ | ⟨k, step, crowd, -, hturn, rfl⟩ :=
    hostStep_cases hs
  · exact before.trans (decided_prefix_follow hfollow)
  · exact before.trans (decided_prefix_step hturn)

/-- Without a condition on the loop there is none on both. -/
theorem Hosted.on_any {h : Hosted σ ρ τ χ} (r : (hosted loop calls router server).Reachable h) :
    (hosted loop calls router server).Reach (Hosted.On fun _ _ => True) h := by
  induction r with
  | start => exact .start
  | @step h h' label _ _ hs ih =>
    refine .step ih ?_ hs
    cases label with
    | loop a io => trivial
    | parse k => trivial
    | route k step => trivial

/-- With its connections the loop does nothing that it does not do without them. -/
theorem loop_of_hosted {ok : σ → α → Prop} {h : Hosted σ ρ τ χ}
    (r : (hosted loop calls router server).Reach (Hosted.On ok) h) : loop.Reach ok h.loop := by
  refine r.invariant (I := fun h => loop.Reach ok h.loop) .start ?_
  intro h label h' r hok hs
  obtain ⟨a, io, after, crowd, rfl, hloop, -, rfl⟩ | ⟨k, step, crowd, -, -, rfl⟩ :=
    hostStep_cases hs
  · exact .step r hok hloop
  · exact r

/-- An invariant that makes the loop ready makes the connections reachable by their own
steps. -/
theorem crowd_of_hosted {ok : σ → α → Prop} {I : σ → Crowd ρ τ χ → Prop}
    (start : I loop.start { server })
    (follow : ∀ {s after crowd crowd' a io}, loop.Reach ok s → I s crowd → ok s a →
      loop.step s a = some after → crowd.follow router (calls s a) io = some crowd' →
      I after crowd')
    (turn : ∀ {s crowd crowd' k} {step : GuestStep χ}, step.InTurn → loop.Reach ok s →
      I s crowd → crowdStep router crowd (k, step) = some crowd' → I s crowd')
    (ready : ∀ {s after crowd a}, loop.Reach ok s → I s crowd → ok s a →
      loop.step s a = some after → crowd.Ready (calls s a))
    {h : Hosted σ ρ τ χ} (r : (hosted loop calls router server).Reach (Hosted.On ok) h) :
    I h.loop h.crowd ∧ (crowdMachine router server).Reachable h.crowd := by
  suffices hall : loop.Reach ok h.loop ∧ I h.loop h.crowd ∧
      (crowdMachine router server).Reachable h.crowd from hall.2
  refine r.invariant (I := fun h => loop.Reach ok h.loop ∧ I h.loop h.crowd ∧
    (crowdMachine router server).Reachable h.crowd) ⟨.start, start, .start⟩ ?_
  rintro h label h' ⟨hreach, hkept, hcrowd⟩ hok hs
  obtain ⟨a, io, after, crowd, rfl, hloop, hfollow, rfl⟩ | ⟨k, step, crowd, inTurn, hturn, rfl⟩ :=
    hostStep_cases hs
  · exact ⟨.step hreach hok hloop, follow hreach hkept hok hloop hfollow,
      crowd_follow hcrowd (ready hreach hkept hok hloop) hfollow⟩
  · exact ⟨hreach, turn inTurn hreach hkept hturn, .step hcrowd trivial hturn⟩

end WebServer
