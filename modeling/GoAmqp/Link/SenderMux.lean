import GoAmqp.Frames.Types

set_option autoImplicit false

/-! # `Sender.mux` (`sender.go`)

The loop of a sender link: it takes transfers from `Sender.send` while there is credit, hands them to
the session, and handles the frames the session passes on. The loop has two `select`s, one for taking
a transfer and one, inside it, for handing it over; both handle frames. -/

namespace GoAmqp

open Lib

/-- `l.err` when the mux of a link returns. -/
inductive LinkError where
  /-- `&DetachError{RemoteErr: ...}`, with no error when the link was closed -/
  | detach (remoteErr : Option (AmqpError Value))
  | nonClosingDetach (body : PerformDetach)
  | session

/-- Where the mux stands. -/
inductive SenderPhase where
  /-- in the outer `select` -/
  | waiting
  /-- in the inner `select`, with a transfer for the session -/
  | holding (tr : PerformTransfer)
  | returned (err : LinkError)
  | panicked

/-- The state of `Sender.mux`: the credit that the peer has given, and where the mux stands. -/
structure SenderMux where
  handle : UInt32
  receiverSettleMode : Option ReceiverSettleMode
  detachOnDispositionError : Bool
  deliveryCount : UInt32
  availableCredit : UInt32
  detachReceived : Bool
  phase : SenderPhase

/-- What a step of the mux does outside the link. -/
inductive SenderEvent where
  /-- `s.l.session.txTransfer <- &tr` -/
  | txTransfer (tr : PerformTransfer)
  /-- `s.l.session.txFrame(body, nil)`, which does not pass through the session's mux -/
  | txFrame (body : FrameBody)

/-- What a step of the mux is about. -/
inductive SenderInput where
  | rx (body : FrameBody)
  /-- `tr := <-outgoingTransfers` -/
  | transfer (tr : PerformTransfer)
  /-- the session takes the transfer -/
  | handOver
  | close
  | sessionDone

namespace SenderMux

/-- The mux's state when it starts. -/
def start (handle : UInt32) (mode : Option ReceiverSettleMode) (detachOnDispositionError : Bool) :
    SenderMux where
  handle := handle
  receiverSettleMode := mode
  detachOnDispositionError := detachOnDispositionError
  deliveryCount := 0
  availableCredit := 0
  detachReceived := false
  phase := .waiting

/-- Whether a rejection ends the link. -/
def detachOnRejectDisp (s : SenderMux) : Bool :=
  s.detachOnDispositionError &&
    (s.receiverSettleMode == none || s.receiverSettleMode == some ReceiverSettleMode.first)

/-- `linkCredit := *fr.LinkCredit - s.l.deliveryCount`, and the delivery-count of the frame if set. -/
def creditOf (s : SenderMux) (linkCredit : UInt32) (deliveryCount : Option UInt32) : UInt32 :=
  match deliveryCount with
  | some count => linkCredit - s.deliveryCount + count
  | none => linkCredit - s.deliveryCount

/-- A flow of the peer: the new credit, and the answer to an echo. -/
def handleFlow (s : SenderMux) (fr : PerformFlow) : SenderMux × List SenderEvent :=
  match fr.linkCredit with
  | none => ({ s with phase := .panicked }, [])
  | some credit =>
    let linkCredit := s.creditOf credit fr.deliveryCount
    ({ s with availableCredit := linkCredit },
      if fr.echo then [.txFrame (.flow { PerformFlow.zero with
        handle := some s.handle
        deliveryCount := some s.deliveryCount
        linkCredit := some linkCredit })]
      else [])

/-- The answer to a disposition that does not end the link. -/
def answerDisposition (fr : PerformDisposition) : List SenderEvent :=
  if fr.settled then []
  else [.txFrame (.disposition { PerformDisposition.zero with
    role := Role.sender
    first := fr.first
    last := fr.last
    settled := true })]

/-- A disposition of the peer: a rejection may end the link, and an unsettled one is answered. -/
def handleDisposition (s : SenderMux) (fr : PerformDisposition) : SenderMux × List SenderEvent :=
  match fr.state with
  | some (.rejected error) =>
    if s.detachOnRejectDisp then ({ s with phase := .returned (.detach error) }, [])
    else (s, answerDisposition fr)
  | _ => (s, answerDisposition fr)

/-- `link.muxHandleFrame` for a detach. -/
def handleDetach (s : SenderMux) (fr : PerformDetach) : SenderMux :=
  if fr.closed then { s with detachReceived := true, phase := .returned (.detach fr.error) }
  else { s with phase := .returned (.nonClosingDetach fr) }

/-- `muxHandleFrame`; an error ends the mux. -/
def muxHandleFrame (s : SenderMux) : FrameBody → SenderMux × List SenderEvent
  | .flow fr => s.handleFlow fr
  | .disposition fr => s.handleDisposition fr
  | .detach fr => (s.handleDetach fr, [])
  | _ => (s, [])

/-- The state after a transfer has been handed over: credit is used up by whole messages. -/
def handedOver (s : SenderMux) (tr : PerformTransfer) : SenderMux :=
  if tr.more then { s with phase := .waiting }
  else { s with
    phase := .waiting
    deliveryCount := s.deliveryCount + 1
    availableCredit := s.availableCredit - 1 }

/-- One step; `none` where the mux does not stand at that case. -/
def step (s : SenderMux) : SenderInput → Option (SenderMux × List SenderEvent)
  | .rx body =>
    match s.phase with
    | .waiting | .holding _ => some (s.muxHandleFrame body)
    | _ => none
  | .transfer tr =>
    match s.phase with
    | .waiting => if s.availableCredit > 0 then some ({ s with phase := .holding tr }, []) else none
    | _ => none
  | .handOver =>
    match s.phase with
    | .holding tr => some (s.handedOver tr, [.txTransfer tr])
    | _ => none
  | .close =>
    match s.phase with
    | .waiting | .holding _ => some ({ s with phase := .returned (.detach none) }, [])
    | _ => none
  | .sessionDone =>
    match s.phase with
    | .waiting | .holding _ => some ({ s with phase := .returned .session }, [])
    | _ => none

/-! ## What a step can do -/

/-- The mux is in one of its two `select`s. -/
def Running (s : SenderMux) : Prop := s.phase = .waiting ∨ ∃ tr, s.phase = .holding tr

/-- The flow frame a body is. -/
def flow? : FrameBody → Option PerformFlow
  | .flow fr => some fr
  | _ => none

/-- A frame changes the credit if it is a flow, and can end the mux. -/
inductive FrameEffect (s : SenderMux) (body : FrameBody) (s' : SenderMux) : Prop
  | credit (fr : PerformFlow) (credit : UInt32) : body = .flow fr → fr.linkCredit = some credit →
      s' = { s with availableCredit := s.creditOf credit fr.deliveryCount } → FrameEffect s body s'
  | kept : flow? body = none → s' = s → FrameEffect s body s'
  | ended : ¬ s'.Running → FrameEffect s body s'

theorem not_running_returned (s : SenderMux) (err : LinkError) :
    ¬ ({ s with phase := .returned err } : SenderMux).Running := by
  rintro (h | ⟨tr, h⟩) <;> cases h

theorem not_running_panicked (s : SenderMux) : ¬ ({ s with phase := .panicked } : SenderMux).Running := by
  rintro (h | ⟨tr, h⟩) <;> cases h

theorem muxHandleFrame_effect (s : SenderMux) (body : FrameBody) : FrameEffect s body (s.muxHandleFrame body).1 := by
  cases body with
  | flow fr =>
    simp only [muxHandleFrame, handleFlow]
    cases hc : fr.linkCredit with
    | none => exact .ended (not_running_panicked s)
    | some credit => exact .credit fr credit rfl hc rfl
  | disposition fr =>
    simp only [muxHandleFrame, handleDisposition]
    split
    · split
      · exact .ended (not_running_returned s _)
      · exact .kept rfl rfl
    · exact .kept rfl rfl
  | detach fr =>
    simp only [muxHandleFrame, handleDetach]
    split <;> exact .ended (by rintro (h | ⟨tr, h⟩) <;> cases h)
  | _ => exact .kept rfl rfl

/-- What a step does to a mux that is running afterwards. -/
inductive StepEffect (s : SenderMux) : SenderInput → List SenderEvent → SenderMux → Prop
  | credit (fr : PerformFlow) (credit : UInt32) (events : List SenderEvent) :
      s.Running → fr.linkCredit = some credit →
      StepEffect s (.rx (.flow fr)) events
        { s with availableCredit := s.creditOf credit fr.deliveryCount }
  | kept (body : FrameBody) (events : List SenderEvent) : s.Running → flow? body = none →
      StepEffect s (.rx body) events s
  | taken (tr : PerformTransfer) : s.phase = .waiting → s.availableCredit ≠ 0 →
      StepEffect s (.transfer tr) [] { s with phase := .holding tr }
  | handedOver (tr : PerformTransfer) : s.phase = .holding tr →
      StepEffect s .handOver [.txTransfer tr] (s.handedOver tr)

variable {s s' : SenderMux} {events : List SenderEvent}

/-- A frame from the session is handled while the mux runs. -/
theorem step_rx {body : FrameBody} (h : s.step (.rx body) = some (s', events))
    : s.Running ∧ s.muxHandleFrame body = (s', events) := by
  unfold step at h
  cases hp : s.phase with
  | waiting => rw [hp] at h; exact ⟨.inl hp, Option.some.inj h⟩
  | holding tr => rw [hp] at h; exact ⟨.inr ⟨tr, hp⟩, Option.some.inj h⟩
  | returned err => rw [hp] at h; cases h
  | panicked => rw [hp] at h; cases h

theorem step_transfer {tr : PerformTransfer} (h : s.step (.transfer tr) = some (s', events)) :
    s.phase = .waiting ∧ s.availableCredit ≠ 0 ∧ s' = { s with phase := .holding tr } ∧ events = [] := by
  unfold step at h
  cases hp : s.phase with
  | waiting =>
    simp only [hp] at h
    split at h
    · next hcredit =>
      obtain ⟨rfl, rfl⟩ := Prod.mk.inj (Option.some.inj h)
      exact ⟨rfl, fun hz => by rw [hz] at hcredit; exact absurd hcredit (by decide), rfl, rfl⟩
    · cases h
  | holding tr => rw [hp] at h; cases h
  | returned err => rw [hp] at h; cases h
  | panicked => rw [hp] at h; cases h

theorem step_handOver (h : s.step .handOver = some (s', events)) :
    ∃ tr, s.phase = .holding tr ∧ s' = s.handedOver tr ∧ events = [.txTransfer tr] := by
  unfold step at h
  cases hp : s.phase with
  | holding tr =>
    rw [hp] at h
    obtain ⟨rfl, rfl⟩ := Prod.mk.inj (Option.some.inj h)
    exact ⟨tr, rfl, rfl, rfl⟩
  | waiting => rw [hp] at h; cases h
  | returned err => rw [hp] at h; cases h
  | panicked => rw [hp] at h; cases h

/-- **Step inversion.** A step ends the mux or has one of the effects above. -/
theorem step_cases {i : SenderInput} (h : s.step i = some (s', events))
    : StepEffect s i events s' ∨ ¬ s'.Running := by
  cases i with
  | rx body =>
    obtain ⟨hrun, hstep⟩ := step_rx h
    have heffect : FrameEffect s body s' := by
      have := muxHandleFrame_effect s body
      rwa [hstep] at this
    cases heffect with
    | credit fr credit hbody hcredit hs' =>
      subst hbody hs'
      exact .inl (.credit fr credit _ hrun hcredit)
    | kept hbody hs' =>
      subst hs'
      exact .inl (.kept body _ hrun hbody)
    | ended hend => exact .inr hend
  | transfer tr =>
    obtain ⟨hp, hcredit, rfl, rfl⟩ := step_transfer h
    exact .inl (.taken tr hp hcredit)
  | handOver =>
    obtain ⟨tr, hp, rfl, rfl⟩ := step_handOver h
    exact .inl (.handedOver tr hp)
  | close =>
    unfold step at h
    cases hp : s.phase <;> rw [hp] at h <;> cases h <;> exact .inr (not_running_returned s _)
  | sessionDone =>
    unfold step at h
    cases hp : s.phase <;> rw [hp] at h <;> cases h <;> exact .inr (not_running_returned s _)

end SenderMux

end GoAmqp
