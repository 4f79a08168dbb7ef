import GoAmqp.Link.Receive
import GoAmqp.Link.SenderMux
import GoAmqp.Lib.Transition

set_option autoImplicit false

/-! # `Receiver.mux` (`receiver.go`) and `creditor` (`creditor.go`)

The loop of a receiver link. An iteration first looks whether credit can be reclaimed, then asks the
creditor for the values of the next flow frame, hands the frame to the session, and waits for the next
thing to do. The application shares the creditor, the channel of messages and the map of unsettled
messages with the mux, so that an iteration is cut into a step for each access to them; the handling of
one transfer by `muxReceive` is one step. `IssueCredit` is two steps under the creditor's lock: it reads
the number of unsettled messages before the available credit.

When the loop ends the mux goes through `muxDetach`, in which transfers are still passed to
`muxReceive`. -/

namespace GoAmqp

open Lib Buffer

/-! ## The creditor -/

/-- The state of `creditor`: what the application has asked for and no flow has told yet. -/
structure Creditor where
  pendingDrain : Bool
  creditsToAdd : UInt32
  /-- whether `drained` is set: a drain is active -/
  drained : Bool
deriving DecidableEq

namespace Creditor

def zero : Creditor := ⟨false, 0, false⟩

/-- The text of `errLinkDraining`. -/
def errLinkDraining : String := "link is currently draining, no credits can be added"
/-- The text of `errAlreadyDraining`. -/
def errAlreadyDraining : String := "drain already in process"

def endDrain (mc : Creditor) : Creditor := { mc with drained := false }

/-- The new state, and the drain flag and credits of the next flow frame. -/
def flowBits (mc : Creditor) (currentCredits : UInt32) : Creditor × Bool × UInt32 :=
  ({ mc with pendingDrain := false, creditsToAdd := 0 }, mc.pendingDrain,
    if mc.pendingDrain || mc.creditsToAdd == 0 then 0 else mc.creditsToAdd + currentCredits)

/-- `Drain` up to its wait. -/
def drain (mc : Creditor) : Except String Creditor :=
  if mc.drained then .error errAlreadyDraining
  else .ok { mc with drained := true, pendingDrain := true }

/-- `IssueCredit` with what it reads of the receiver. -/
def issueCredit (mc : Creditor) (credits unsettled availableCredit maxCredit : UInt32) :
    Except String Creditor :=
  if mc.drained then .error errLinkDraining
  else if credits + unsettled + availableCredit > maxCredit then
    .error (s!"link credit exceeded: requested {credits.toNat}, available {availableCredit.toNat}, max {maxCredit.toNat}, {unsettled.toNat} unsettled messages")
  else .ok { mc with creditsToAdd := mc.creditsToAdd + credits }

end Creditor

/-! ## State -/

/-- `l.err` when the loop of the mux ends. -/
inductive ReceiverError where
  | link (e : LinkError)
  /-- from `muxReceive` -/
  | receive (e : DetachError)
  /-- from `IssueCredit` -/
  | credit (text : String)

/-- Where the mux stands. -/
inductive ReceiverPhase where
  /-- at the head of the loop -/
  | looping
  /-- before `r.creditor.IssueCredit(pendingCredit, r)` -/
  | issuing (pendingCredit : UInt32)
  /-- before `r.creditor.FlowBits(r.l.availableCredit)` -/
  | flowBits
  /-- at the beginning of `muxFlow(credits, drain)` -/
  | muxFlow (credits : UInt32) (drain : Bool)
  /-- in the `select` of `muxFlow` -/
  | sending (fr : PerformFlow)
  /-- in the `select` of the loop -/
  | selecting
  /-- before `r.creditor.EndDrain()`; the frame was received in `muxFlow` if there is a flow to send -/
  | endingDrain (flow : Option PerformFlow)
  /-- in the loop of `inFlight.remove`, before the test of the loop -/
  | removing (i last : UInt32) (err : Option (AmqpError Value)) (flow : Option PerformFlow)
  /-- in `muxDetach`, with the detach frame as long as it is not sent -/
  | detaching (err : ReceiverError) (unsent : Option PerformDetach)
  /-- before `r.inFlight.clear(r.l.err)` -/
  | clearing (err : ReceiverError)
  /-- before `close(l.detached)` -/
  | closing (err : ReceiverError)
  | exited (err : ReceiverError)

/-- The state of `Receiver.mux`: the link, its creditor, the call that issues credit, the signals to the mux, and
    where the mux stands. -/
structure ReceiverMux where
  receiver : Receiver
  handle : UInt32
  autoSendFlow : Bool
  maxCredit : UInt32
  creditor : Creditor
  /-- the credits and the number of unsettled messages of a call of `IssueCredit` that holds the
      creditor's lock and is about to read the available credit -/
  issuer : Option (UInt32 × UInt32)
  /-- whether `receiverReady` holds a value -/
  receiverReady : Bool
  /-- whether `Close` has closed `l.close`; otherwise `closeWithError` does -/
  closed : Bool
  detachReceived : Bool
  phase : ReceiverPhase

/-- What a step does outside the mux and the data it shares with the application. -/
inductive ReceiverEvent where
  /-- `muxFlow` has built a flow frame -/
  | flow (fr : PerformFlow)
  /-- `r.l.session.tx <- body` -/
  | tx (body : FrameBody)
  /-- `r.l.session.txFrame(body, nil)`, which does not pass through the session's mux -/
  | txFrame (body : FrameBody)
  /-- a round of `inFlight.remove` for the delivery-id -/
  | remove (deliveryID : UInt32) (err : Option (AmqpError Value))
  /-- `r.inFlight.clear(err)` -/
  | clear (err : ReceiverError)
  /-- the application receives a message -/
  | receive (m : Message)
  /-- a call of `IssueCredit` returns -/
  | issued (credits : UInt32) (err : Option String)
  /-- a call of `DrainCredit` returns an error or begins to wait -/
  | drained (err : Option String)

/-- What a step is about. -/
inductive ReceiverInput where
  | check
  | issue
  | flowBits
  | muxFlow
  /-- the session takes the frame from `tx` -/
  | handOver
  | rx (body : FrameBody)
  | endDrain
  | removeRound
  /-- `inFlight.remove` returns before its loop, as no message was ever in flight -/
  | removeNil
  /-- `<-r.receiverReady` -/
  | ready
  /-- `<-r.l.close` -/
  | close
  | sessionDone
  | clear
  | closeDetached
  /-- `msg := <-r.messages` of `Receive` or `Prefetched` -/
  | receive
  /-- `r.receiverReady <- struct{}{}` if there is room -/
  | signal
  | deleteUnsettled (deliveryTag : Bytes)
  /-- `Close`, up to its wait -/
  | closeLink
  /-- `IssueCredit` up to the call of `countUnsettled` -/
  | issueCredit (credits : UInt32)
  /-- the rest of it -/
  | issueCheck
  | drainCredit

variable {s s' : ReceiverMux} {i : ReceiverInput} {events : List ReceiverEvent}

namespace ReceiverMux

/-- `uint32(r.countUnsettled())`. -/
def countUnsettled (s : ReceiverMux) : UInt32 := UInt32.ofNat s.receiver.unsettledMessages.length

def availableCredit (s : ReceiverMux) : UInt32 := s.receiver.availableCredit

def setCredit (s : ReceiverMux) (credit : UInt32) : ReceiverMux :=
  { s with receiver := { s.receiver with availableCredit := credit } }

/-- The detach frame of the link. `closeOnce` keeps the error out of it when `Close` was first. -/
def detachFrame (s : ReceiverMux) : PerformDetach where
  handle := s.handle
  closed := true
  error :=
    match s.closed, s.receiver.detachError with
    | false, some (.closed condition description) =>
      some { condition := ascii condition, description := ascii description, info := [] }
    | _, _ => none

/-- The loop ends with an error, and `muxDetach` begins. -/
def detach (s : ReceiverMux) (err : ReceiverError) : ReceiverMux :=
  { s with phase := .detaching err (some s.detachFrame) }

/-! ## An iteration of the loop -/

/-- `r.maxCredit - (r.l.availableCredit + uint32(r.countUnsettled()))`. -/
def pendingCredit (s : ReceiverMux) : UInt32 := s.maxCredit - (s.availableCredit + s.countUnsettled)

/-- The head of the loop: with half of the credit used up, and no manual credit, the mux issues more. -/
def check (s : ReceiverMux) : ReceiverMux :=
  if s.pendingCredit ≥ s.maxCredit / 2 ∧ s.autoSendFlow = true then { s with phase := .issuing s.pendingCredit }
  else { s with phase := .flowBits }

/-- The mux's own call of `IssueCredit`; an error detaches the link. -/
def issue (s : ReceiverMux) (pendingCredit : UInt32) : ReceiverMux :=
  match s.creditor.issueCredit pendingCredit s.countUnsettled s.availableCredit s.maxCredit with
  | .ok creditor => { s with creditor := creditor, phase := .flowBits }
  | .error text => s.detach (.credit text)

/-- `FlowBits`: a drain or new credit makes the mux send a flow, and otherwise it selects. -/
def flowBits (s : ReceiverMux) : ReceiverMux :=
  let bits := s.creditor.flowBits s.availableCredit
  if bits.2.1 || decide (bits.2.2 > 0) then
    { s with creditor := bits.1, phase := .muxFlow bits.2.2 bits.2.1 }
  else { s with creditor := bits.1, phase := .selecting }

/-- The flow frame of `muxFlow`. -/
def flowFrame (s : ReceiverMux) (linkCredit : UInt32) (drain : Bool) : PerformFlow :=
  { PerformFlow.zero with
    handle := some s.handle
    deliveryCount := some s.receiver.deliveryCount
    linkCredit := some linkCredit
    drain := drain }

/-- `muxFlow` up to its `select`: a drain leaves the credit as it is. -/
def muxFlow (s : ReceiverMux) (credits : UInt32) (drain : Bool) : ReceiverMux × List ReceiverEvent :=
  let fr := s.flowFrame credits drain
  ({ (if drain then s else s.setCredit credits) with phase := .sending fr }, [.flow fr])

/-! ## Frames of the peer -/

/-- Back to the `select` of `muxFlow` after a frame, or to the head of the loop. -/
def resume : Option PerformFlow → ReceiverPhase
  | some fr => .sending fr
  | none => .looping

/-- `muxReceive`; an error ends the loop. -/
def handleTransfer (s : ReceiverMux) (flow : Option PerformFlow) (fr : PerformTransfer) : ReceiverMux :=
  match s.receiver.muxReceive fr with
  | (receiver, some e) => detach { s with receiver := receiver } (.receive e)
  | (receiver, none) => { s with receiver := receiver, phase := resume flow }

/-- A flow of the peer: an echo is answered, and a drain takes manual credit back. -/
def handleFlow (s : ReceiverMux) (flow : Option PerformFlow) (fr : PerformFlow) :
    ReceiverMux × List ReceiverEvent :=
  if fr.echo then
    ({ s with phase := resume flow }, [.txFrame (.flow (s.flowFrame s.availableCredit false))])
  else if fr.drain = true ∧ s.autoSendFlow = false then
    ({ s.setCredit 0 with phase := .endingDrain flow }, [])
  else ({ s with phase := resume flow }, [])

/-- The error of a rejected delivery, if the peer gives one. -/
def dispositionError : Option (DeliveryState Value) → Option (AmqpError Value)
  | some (.rejected error) => error
  | _ => none

/-- `link.muxHandleFrame` for a detach. -/
def handleDetach (s : ReceiverMux) (fr : PerformDetach) : ReceiverMux :=
  if fr.closed then detach { s with detachReceived := true } (.link (.detach fr.error))
  else s.detach (.link (.nonClosingDetach fr))

/-- `muxHandleFrame`, by the kind of frame. -/
def muxHandleFrame (s : ReceiverMux) (flow : Option PerformFlow) : FrameBody → ReceiverMux × List ReceiverEvent
  | .transfer fr => (s.handleTransfer flow fr, [])
  | .flow fr => s.handleFlow flow fr
  | .disposition fr =>
    ({ s with phase := .removing fr.first (fr.last.getD fr.first) (dispositionError fr.state) flow }, [])
  | .detach fr => (s.handleDetach fr, [])
  | _ => ({ s with phase := resume flow }, [])

/-- A frame in `muxDetach`: errors of `muxReceive` are dropped. -/
def rxDetaching (s : ReceiverMux) (err : ReceiverError) (unsent : Option PerformDetach) :
    FrameBody → ReceiverMux
  | .transfer fr => { s with receiver := (s.receiver.muxReceive fr).1 }
  | .detach fr =>
    if fr.closed then
      if unsent.isNone then { s with phase := .clearing err } else { s with detachReceived := true }
    else s
  | _ => s

/-- The transfer completes a message that does not fit into `r.messages`. -/
def blocks (s : ReceiverMux) : FrameBody → Bool
  | .transfer fr =>
    decide ((s.receiver.muxReceive fr).1.messages.length > s.receiver.messages.length ∧
      s.receiver.messages.length ≥ s.maxCredit.toNat)
  | _ => false

/-- `for i := first; i <= ll; i++`: the test and, if it holds, one round. -/
def removeRound (s : ReceiverMux) (i last : UInt32) (err : Option (AmqpError Value))
    (flow : Option PerformFlow) : ReceiverMux × List ReceiverEvent :=
  if i ≤ last then ({ s with phase := .removing (i + 1) last err flow }, [.remove i err])
  else ({ s with phase := resume flow }, [])

/-- The session has taken the detach frame. -/
def detachSent (s : ReceiverMux) (err : ReceiverError) : ReceiverMux :=
  { s with phase := if s.detachReceived then .clearing err else .detaching err none }

/-! ## The application -/

def deleteUnsettled (s : ReceiverMux) (deliveryTag : Bytes) : ReceiverMux :=
  { s with receiver := { s.receiver with
    unsettledMessages := s.receiver.unsettledMessages.erase deliveryTag } }

/-- The check of `IssueCredit` under its lock, and its result. -/
def issueCheck (s : ReceiverMux) (credits unsettled : UInt32) : ReceiverMux × List ReceiverEvent :=
  match s.creditor.issueCredit credits unsettled s.availableCredit s.maxCredit with
  | .ok creditor => ({ s with issuer := none, creditor := creditor }, [.issued credits none])
  | .error text => ({ s with issuer := none }, [.issued credits (some text)])

/-- `creditor.Drain` up to the wait for its end. -/
def drainCredit (s : ReceiverMux) : ReceiverMux × List ReceiverEvent :=
  match s.creditor.drain with
  | .ok creditor => ({ s with creditor := creditor }, [.drained none])
  | .error text => (s, [.drained (some text)])

/-! ## Steps -/

/-- One step; `none` where the mux does not stand at that case, or has to wait. -/
def step (s : ReceiverMux) : ReceiverInput → Option (ReceiverMux × List ReceiverEvent)
  | .check =>
    match s.phase with
    | .looping => some (s.check, [])
    | _ => none
  | .issue =>
    match s.phase, s.issuer with
    | .issuing pendingCredit, none => some (s.issue pendingCredit, [])
    | _, _ => none
  | .flowBits =>
    match s.phase, s.issuer with
    | .flowBits, none => some (s.flowBits, [])
    | _, _ => none
  | .muxFlow =>
    match s.phase with
    | .muxFlow credits drain => some (s.muxFlow credits drain)
    | _ => none
  | .handOver =>
    match s.phase with
    | .sending fr => some ({ s with phase := .selecting }, [.tx (.flow fr)])
    | .detaching err (some fr) => some (s.detachSent err, [.tx (.detach fr)])
    | _ => none
  | .rx body =>
    if s.blocks body then none
    else
      match s.phase with
      | .selecting => some (s.muxHandleFrame none body)
      | .sending fr => some (s.muxHandleFrame (some fr) body)
      | .detaching err unsent => some (s.rxDetaching err unsent body, [])
      | _ => none
  | .endDrain =>
    match s.phase, s.issuer with
    | .endingDrain flow, none => some ({ s with creditor := s.creditor.endDrain, phase := resume flow }, [])
    | _, _ => none
  | .removeRound =>
    match s.phase with
    | .removing i last err flow => some (s.removeRound i last err flow)
    | _ => none
  | .removeNil =>
    match s.phase with
    | .removing _ _ _ flow => some ({ s with phase := resume flow }, [])
    | _ => none
  | .ready =>
    match s.phase with
    | .selecting => if s.receiverReady then some ({ s with receiverReady := false, phase := .looping }, []) else none
    | _ => none
  | .close =>
    if s.closed || s.receiver.detachError.isSome then
      match s.phase with
      | .selecting | .sending _ => some (s.detach (.link (.detach none)), [])
      | _ => none
    else none
  | .sessionDone =>
    match s.phase with
    | .selecting | .sending _ => some (s.detach (.link .session), [])
    | .detaching err _ => some ({ s with phase := .clearing err }, [])
    | _ => none
  | .clear =>
    match s.phase, s.issuer with
    | .clearing err, none => some ({ s with
        creditor := if s.autoSendFlow then s.creditor else s.creditor.endDrain
        phase := .closing err }, [.clear err])
    | _, _ => none
  | .closeDetached =>
    match s.phase with
    | .closing err => some ({ s with phase := .exited err }, [])
    | _ => none
  | .receive =>
    match s.receiver.messages with
    | m :: messages => some ({ s with receiver := { s.receiver with messages := messages } }, [.receive m])
    | [] => none
  | .signal => some ({ s with receiverReady := true }, [])
  | .deleteUnsettled deliveryTag => some (s.deleteUnsettled deliveryTag, [])
  | .closeLink => some ({ s with closed := s.closed || s.receiver.detachError.isNone }, [])
  | .issueCredit credits =>
    if s.autoSendFlow then
      some (s, [.issued credits
        (some "issueCredit can only be used with receiver links using manual credit management")])
    else
      match s.issuer with
      | none =>
        if s.creditor.drained then some (s, [.issued credits (some Creditor.errLinkDraining)])
        else some ({ s with issuer := some (credits, s.countUnsettled) }, [])
      | some _ => none
  | .issueCheck =>
    match s.issuer with
    | some (credits, unsettled) => some (s.issueCheck credits unsettled)
    | none => none
  | .drainCredit =>
    if s.autoSendFlow then
      some (s, [.drained
        (some "drain can only be used with receiver links using manual credit management")])
    else
      match s.issuer with
      | none => some s.drainCredit
      | some _ => none

/-- The mux's state when it starts, after the attach of the peer. -/
def start (maxMessageSize : UInt64) (mode : Option ReceiverSettleMode) (initialDeliveryCount handle : UInt32)
    (autoSendFlow : Bool) (maxCredit : UInt32) : ReceiverMux where
  receiver := {
    maxMessageSize := maxMessageSize
    receiverSettleMode := mode
    deliveryCount := initialDeliveryCount
    availableCredit := 0
    detached := none
    detachError := none
    messages := []
    unsettledMessages := []
    msgBuf := .new []
    more := false
    msg := .zero }
  handle := handle
  autoSendFlow := autoSendFlow
  maxCredit := maxCredit
  creditor := .zero
  issuer := none
  receiverReady := false
  closed := false
  detachReceived := false
  phase := .looping

/-! ## What a step is -/

/-- The flow frame that waits while the mux is in one of its two `select`s. -/
def selectFlow : ReceiverPhase → Option (Option PerformFlow)
  | .selecting => some none
  | .sending fr => some (some fr)
  | _ => none

/-- What a step is, by its input. -/
inductive StepOf (s : ReceiverMux) : ReceiverInput → List ReceiverEvent → ReceiverMux → Prop
  | check : s.phase = .looping → StepOf s .check [] s.check
  | issue (p : UInt32) : s.phase = .issuing p → s.issuer = none → StepOf s .issue [] (s.issue p)
  | flowBits : s.phase = .flowBits → s.issuer = none → StepOf s .flowBits [] s.flowBits
  | muxFlow (credits : UInt32) (drain : Bool) : s.phase = .muxFlow credits drain →
      StepOf s .muxFlow (s.muxFlow credits drain).2 (s.muxFlow credits drain).1
  | handOver (fr : PerformFlow) : s.phase = .sending fr →
      StepOf s .handOver [.tx (.flow fr)] { s with phase := .selecting }
  | handOverDetach (err : ReceiverError) (fr : PerformDetach) : s.phase = .detaching err (some fr) →
      StepOf s .handOver [.tx (.detach fr)] (s.detachSent err)
  | rx (body : FrameBody) (flow : Option PerformFlow) : selectFlow s.phase = some flow → s.blocks body = false →
      StepOf s (.rx body) (s.muxHandleFrame flow body).2 (s.muxHandleFrame flow body).1
  | rxDetaching (body : FrameBody) (err : ReceiverError) (unsent : Option PerformDetach) :
      s.phase = .detaching err unsent → s.blocks body = false →
      StepOf s (.rx body) [] (s.rxDetaching err unsent body)
  | endDrain (flow : Option PerformFlow) : s.phase = .endingDrain flow → s.issuer = none →
      StepOf s .endDrain [] { s with creditor := s.creditor.endDrain, phase := resume flow }
  | removeRound (i last : UInt32) (err : Option (AmqpError Value)) (flow : Option PerformFlow) :
      s.phase = .removing i last err flow →
      StepOf s .removeRound (s.removeRound i last err flow).2 (s.removeRound i last err flow).1
  | removeNil (i last : UInt32) (err : Option (AmqpError Value)) (flow : Option PerformFlow) :
      s.phase = .removing i last err flow → StepOf s .removeNil [] { s with phase := resume flow }
  | ready : s.phase = .selecting → s.receiverReady = true →
      StepOf s .ready [] { s with receiverReady := false, phase := .looping }
  | close (flow : Option PerformFlow) : selectFlow s.phase = some flow →
      StepOf s .close [] (s.detach (.link (.detach none)))
  | sessionDone (flow : Option PerformFlow) : selectFlow s.phase = some flow →
      StepOf s .sessionDone [] (s.detach (.link .session))
  | sessionDoneDetaching (err : ReceiverError) (unsent : Option PerformDetach) : s.phase = .detaching err unsent →
      StepOf s .sessionDone [] { s with phase := .clearing err }
  | clear (err : ReceiverError) : s.phase = .clearing err → s.issuer = none →
      StepOf s .clear [.clear err] { s with
        creditor := if s.autoSendFlow then s.creditor else s.creditor.endDrain
        phase := .closing err }
  | closeDetached (err : ReceiverError) : s.phase = .closing err →
      StepOf s .closeDetached [] { s with phase := .exited err }
  | receive (m : Message) (messages : List Message) : s.receiver.messages = m :: messages →
      StepOf s .receive [.receive m] { s with receiver := { s.receiver with messages := messages } }
  | signal : StepOf s .signal [] { s with receiverReady := true }
  | deleteUnsettled (deliveryTag : Bytes) :
      StepOf s (.deleteUnsettled deliveryTag) [] (s.deleteUnsettled deliveryTag)
  | closeLink : StepOf s .closeLink [] { s with closed := s.closed || s.receiver.detachError.isNone }
  | issueRefused (credits : UInt32) (text : String) :
      StepOf s (.issueCredit credits) [.issued credits (some text)] s
  | issueCredit (credits : UInt32) : s.autoSendFlow = false → s.issuer = none → s.creditor.drained = false →
      StepOf s (.issueCredit credits) [] { s with issuer := some (credits, s.countUnsettled) }
  | issueCheck (credits unsettled : UInt32) : s.issuer = some (credits, unsettled) →
      StepOf s .issueCheck (s.issueCheck credits unsettled).2 (s.issueCheck credits unsettled).1
  | drainRefused (text : String) : s.autoSendFlow = true → StepOf s .drainCredit [.drained (some text)] s
  | drainCredit : s.autoSendFlow = false → s.issuer = none →
      StepOf s .drainCredit s.drainCredit.2 s.drainCredit.1

/-- **Step inversion.** -/
theorem step_cases (h : s.step i = some (s', events)) : StepOf s i events s' := by
  cases i with
  | check =>
    simp only [step] at h
    split at h
    · next hphase => cases h; exact .check hphase
    · cases h
  | issue =>
    simp only [step] at h
    split at h
    · next p hphase hissuer => cases h; exact .issue p hphase hissuer
    · cases h
  | flowBits =>
    simp only [step] at h
    split at h
    · next hphase hissuer => cases h; exact .flowBits hphase hissuer
    · cases h
  | muxFlow =>
    simp only [step] at h
    split at h
    · next credits drain hphase => cases h; exact .muxFlow credits drain hphase
    · cases h
  | handOver =>
    simp only [step] at h
    split at h
    · next fr hphase => cases h; exact .handOver fr hphase
    · next err fr hphase => cases h; exact .handOverDetach err fr hphase
    · cases h
  | rx body =>
    have hrx : ∀ flow, selectFlow s.phase = some flow → s.blocks body = false →
        s.muxHandleFrame flow body = (s', events) → StepOf s (.rx body) events s' := by
      intro flow hflow hblocks heq
      have hstep := StepOf.rx body flow hflow hblocks
      rwa [heq] at hstep
    simp only [step] at h
    split at h
    · cases h
    · next hblocks =>
      simp only [Bool.not_eq_true] at hblocks
      split at h
      · next hphase => exact hrx none (by rw [hphase]; rfl) hblocks (Option.some.inj h)
      · next fr hphase => exact hrx (some fr) (by rw [hphase]; rfl) hblocks (Option.some.inj h)
      · next err unsent hphase => cases h; exact .rxDetaching body err unsent hphase hblocks
      · cases h
  | endDrain =>
    simp only [step] at h
    split at h
    · next flow hphase hissuer => cases h; exact .endDrain flow hphase hissuer
    · cases h
  | removeRound =>
    simp only [step] at h
    split at h
    · next i last err flow hphase =>
      have hstep := StepOf.removeRound i last err flow hphase
      rwa [Option.some.inj h] at hstep
    · cases h
  | removeNil =>
    simp only [step] at h
    split at h
    · next i last err flow hphase => cases h; exact .removeNil i last err flow hphase
    · cases h
  | ready =>
    simp only [step] at h
    split at h
    · next hphase =>
      split at h
      · next hready => cases h; exact .ready hphase hready
      · cases h
    · cases h
  | close =>
    simp only [step] at h
    split at h
    · split at h
      · next hphase => cases h; exact .close none (by rw [hphase]; rfl)
      · next fr hphase => cases h; exact .close (some fr) (by rw [hphase]; rfl)
      · cases h
    · cases h
  | sessionDone =>
    simp only [step] at h
    split at h
    · next hphase => cases h; exact .sessionDone none (by rw [hphase]; rfl)
    · next fr hphase => cases h; exact .sessionDone (some fr) (by rw [hphase]; rfl)
    · next err unsent hphase => cases h; exact .sessionDoneDetaching err unsent hphase
    · cases h
  | clear =>
    simp only [step] at h
    split at h
    · next err hphase hissuer => cases h; exact .clear err hphase hissuer
    · cases h
  | closeDetached =>
    simp only [step] at h
    split at h
    · next err hphase => cases h; exact .closeDetached err hphase
    · cases h
  | receive =>
    simp only [step] at h
    split at h
    · next m messages hmessages => cases h; exact .receive m messages hmessages
    · cases h
  | signal => cases h; exact .signal
  | deleteUnsettled tag => cases h; exact .deleteUnsettled tag
  | closeLink => cases h; exact .closeLink
  | issueCredit credits =>
    simp only [step] at h
    split at h
    · cases h; exact .issueRefused credits _
    · next hauto =>
      split at h
      · next hissuer =>
        split at h
        · cases h; exact .issueRefused credits _
        · next hdrained =>
          cases h
          exact .issueCredit credits (by simpa using hauto) hissuer (by simpa using hdrained)
      · cases h
  | issueCheck =>
    simp only [step] at h
    split at h
    · next credits unsettled hissuer =>
      have hstep := StepOf.issueCheck credits unsettled hissuer
      rwa [Option.some.inj h] at hstep
    · cases h
  | drainCredit =>
    simp only [step] at h
    split at h
    · next hauto => cases h; exact .drainRefused _ hauto
    · next hauto =>
      split at h
      · next hissuer =>
        have hstep := StepOf.drainCredit (s := s) (by simpa using hauto) hissuer
        rwa [Option.some.inj h] at hstep
      · cases h

/-! ## What a step can do -/

/-- The flow frame that is built and not yet handed to the session. -/
def held : ReceiverPhase → Option PerformFlow
  | .sending fr => some fr
  | .endingDrain flow => flow
  | .removing _ _ _ flow => flow
  | _ => none

/-- The mux is not between its look at the credit and the building of a flow frame. -/
def plain : ReceiverPhase → Bool
  | .issuing _ => false
  | .flowBits => false
  | .muxFlow _ _ => false
  | _ => true

/-- A phase that can follow when no flow frame is built. -/
structure Continues (p p' : ReceiverPhase) : Prop where
  plain : plain p' = true
  held : held p' = none ∨ held p' = held p

/-- The flow frame that an event builds or puts on the way. -/
def flowOf : ReceiverEvent → Option PerformFlow
  | .flow fr => some fr
  | .tx (.flow fr) => some fr
  | .txFrame (.flow fr) => some fr
  | _ => none

/-- Events that put no flow frame on the way. -/
def Silent (events : List ReceiverEvent) : Prop := ∀ e ∈ events, flowOf e = none

/-- What a step does, by what it needs: the cases that invariants are proved by. -/
inductive Effect (s : ReceiverMux) : ReceiverInput → List ReceiverEvent → ReceiverMux → Prop
  | checked : s.phase = .looping → Effect s .check [] s.check
  | issued (p : UInt32) : s.phase = .issuing p → s.issuer = none → Effect s .issue [] (s.issue p)
  | bits : s.phase = .flowBits → s.issuer = none → Effect s .flowBits [] s.flowBits
  | built (credits : UInt32) (drain : Bool) : s.phase = .muxFlow credits drain →
      Effect s .muxFlow (s.muxFlow credits drain).2 (s.muxFlow credits drain).1
  | handedOver (fr : PerformFlow) : s.phase = .sending fr →
      Effect s .handOver [.tx (.flow fr)] { s with phase := .selecting }
  /-- a transfer is passed to `muxReceive` -/
  | received (fr : PerformTransfer) (p : ReceiverPhase) : plain s.phase = true →
      s.blocks (.transfer fr) = false → Continues s.phase p →
      Effect s (.rx (.transfer fr)) [] { s with receiver := (s.receiver.muxReceive fr).1, phase := p }
  /-- a flow frame is answered -/
  | echoed (fr : PerformFlow) (p : ReceiverPhase) : plain s.phase = true → Continues s.phase p →
      Effect s (.rx (.flow fr)) [.txFrame (.flow (s.flowFrame s.availableCredit false))] { s with phase := p }
  /-- the peer has used up or given back its credit -/
  | drained (fr : PerformFlow) (p : ReceiverPhase) : plain s.phase = true → s.autoSendFlow = false →
      Continues s.phase p → Effect s (.rx (.flow fr)) [] { s.setCredit 0 with phase := p }
  /-- any other step of the mux -/
  | moved (i : ReceiverInput) (events : List ReceiverEvent) (p : ReceiverPhase)
      (receiverReady detachReceived : Bool) : plain s.phase = true → Continues s.phase p → Silent events →
      Effect s i events
        { s with phase := p, receiverReady := receiverReady, detachReceived := detachReceived }
  | drainEnded (i : ReceiverInput) (events : List ReceiverEvent) (p : ReceiverPhase) : plain s.phase = true →
      s.issuer = none → Continues s.phase p → Silent events →
      Effect s i events { s with creditor := s.creditor.endDrain, phase := p }
  | took (m : Message) (messages : List Message) : s.receiver.messages = m :: messages →
      Effect s .receive [.receive m] { s with receiver := { s.receiver with messages := messages } }
  | signalled (i : ReceiverInput) (receiverReady closed : Bool) :
      Effect s i [] { s with receiverReady := receiverReady, closed := closed }
  | deleted (deliveryTag : Bytes) : Effect s (.deleteUnsettled deliveryTag) [] (s.deleteUnsettled deliveryTag)
  /-- a call that changes nothing -/
  | refused (i : ReceiverInput) (events : List ReceiverEvent) : Silent events → Effect s i events s
  | asked (credits : UInt32) : s.autoSendFlow = false → s.issuer = none → s.creditor.drained = false →
      Effect s (.issueCredit credits) [] { s with issuer := some (credits, s.countUnsettled) }
  | answered (credits unsettled : UInt32) : s.issuer = some (credits, unsettled) →
      Effect s .issueCheck (s.issueCheck credits unsettled).2 (s.issueCheck credits unsettled).1
  | drains : s.autoSendFlow = false → s.issuer = none →
      Effect s .drainCredit s.drainCredit.2 s.drainCredit.1

theorem silent_nil : Silent [] := by
  intro e he
  cases he

theorem silent_singleton {e : ReceiverEvent} (h : flowOf e = none) : Silent [e] := by
  intro e' he'
  rwa [List.mem_singleton.mp he']

theorem continues_resume (p : ReceiverPhase) : Continues p (resume (held p)) := by
  cases h : held p with
  | none => exact ⟨rfl, .inl rfl⟩
  | some fr => exact ⟨rfl, .inr h.symm⟩

theorem selectFlow_held {p : ReceiverPhase} {flow : Option PerformFlow} (h : selectFlow p = some flow) :
    plain p = true ∧ flow = held p := by
  cases p <;> cases h <;> exact ⟨rfl, rfl⟩

theorem muxHandleFrame_effect (hplain : plain s.phase = true) {body : FrameBody} (hblocks : s.blocks body = false) :
    Effect s (.rx body) (s.muxHandleFrame (held s.phase) body).2 (s.muxHandleFrame (held s.phase) body).1 := by
  have hresume := continues_resume s.phase
  cases body with
  | transfer fr =>
    simp only [muxHandleFrame, handleTransfer]
    split
    · next receiver e hreceive =>
      have heq : receiver = (s.receiver.muxReceive fr).1 := by rw [hreceive]
      subst heq
      exact .received fr _ hplain hblocks ⟨rfl, .inl rfl⟩
    · next receiver hreceive =>
      have heq : receiver = (s.receiver.muxReceive fr).1 := by rw [hreceive]
      subst heq
      exact .received fr _ hplain hblocks hresume
  | flow fr =>
    simp only [muxHandleFrame, handleFlow]
    split
    · exact .echoed fr _ hplain hresume
    · split
      · next hdrain => exact .drained fr _ hplain hdrain.2 ⟨rfl, .inr rfl⟩
      · exact .moved _ _ _ s.receiverReady s.detachReceived hplain hresume silent_nil
  | disposition fr => exact .moved _ _ _ s.receiverReady s.detachReceived hplain ⟨rfl, .inr rfl⟩ silent_nil
  | detach fr =>
    simp only [muxHandleFrame, handleDetach]
    split
    · exact .moved _ _ _ s.receiverReady true hplain ⟨rfl, .inl rfl⟩ silent_nil
    · exact .moved _ _ _ s.receiverReady s.detachReceived hplain ⟨rfl, .inl rfl⟩ silent_nil
  | _ => exact .moved _ _ _ s.receiverReady s.detachReceived hplain hresume silent_nil

theorem rxDetaching_effect {err : ReceiverError} {unsent : Option PerformDetach}
    (hphase : s.phase = .detaching err unsent) {body : FrameBody} (hblocks : s.blocks body = false) :
    Effect s (.rx body) [] (s.rxDetaching err unsent body) := by
  have hplain : plain s.phase = true := by rw [hphase]; rfl
  have hsame : Continues s.phase s.phase := ⟨hplain, .inr rfl⟩
  cases body with
  | transfer fr => exact .received fr s.phase hplain hblocks hsame
  | detach fr =>
    simp only [rxDetaching]
    split
    · split
      · exact .moved _ _ _ s.receiverReady s.detachReceived hplain ⟨rfl, .inl rfl⟩ silent_nil
      · exact .moved _ _ s.phase s.receiverReady true hplain hsame silent_nil
    · exact .refused _ _ silent_nil
  | _ => exact .refused _ _ silent_nil

theorem removeRound_effect {i last : UInt32} {err : Option (AmqpError Value)} {flow : Option PerformFlow}
    (hphase : s.phase = .removing i last err flow) :
    Effect s .removeRound (s.removeRound i last err flow).2 (s.removeRound i last err flow).1 := by
  have hplain : plain s.phase = true := by rw [hphase]; rfl
  have hheld : held s.phase = flow := by rw [hphase]; rfl
  unfold removeRound
  split
  · exact .moved _ _ _ s.receiverReady s.detachReceived hplain ⟨rfl, .inr hheld.symm⟩
      (silent_singleton rfl)
  · rw [← hheld]
    exact .moved _ _ _ s.receiverReady s.detachReceived hplain (continues_resume s.phase) silent_nil

/-- What a step does to the credit and to the flow frames. -/
theorem step_effect (h : s.step i = some (s', events)) : Effect s i events s' := by
  cases step_cases h with
  | check hphase => exact .checked hphase
  | issue p hphase hissuer => exact .issued p hphase hissuer
  | flowBits hphase hissuer => exact .bits hphase hissuer
  | muxFlow credits drain hphase => exact .built credits drain hphase
  | handOver fr hphase => exact .handedOver fr hphase
  | handOverDetach err fr hphase =>
    refine .moved _ _ _ s.receiverReady s.detachReceived (by rw [hphase]; rfl) ?_ (silent_singleton rfl)
    split
    · exact ⟨rfl, .inl rfl⟩
    · exact ⟨rfl, .inl rfl⟩
  | rx body flow hselect hblocks =>
    obtain ⟨hplain, rfl⟩ := selectFlow_held hselect
    exact muxHandleFrame_effect hplain hblocks
  | rxDetaching body err unsent hphase hblocks => exact rxDetaching_effect hphase hblocks
  | endDrain flow hphase hissuer =>
    have hheld : held s.phase = flow := by rw [hphase]; rfl
    exact .drainEnded _ _ _ (by rw [hphase]; rfl) hissuer (hheld ▸ continues_resume s.phase) silent_nil
  | removeRound i last err flow hphase => exact removeRound_effect hphase
  | removeNil i last err flow hphase =>
    have hheld : held s.phase = flow := by rw [hphase]; rfl
    exact .moved _ _ _ s.receiverReady s.detachReceived (by rw [hphase]; rfl) (hheld ▸ continues_resume s.phase)
      silent_nil
  | ready hphase _ => exact .moved _ _ _ false s.detachReceived (by rw [hphase]; rfl) ⟨rfl, .inl rfl⟩ silent_nil
  | close flow hselect =>
    exact .moved _ _ _ s.receiverReady s.detachReceived (selectFlow_held hselect).1 ⟨rfl, .inl rfl⟩ silent_nil
  | sessionDone flow hselect =>
    exact .moved _ _ _ s.receiverReady s.detachReceived (selectFlow_held hselect).1 ⟨rfl, .inl rfl⟩ silent_nil
  | sessionDoneDetaching err unsent hphase =>
    exact .moved _ _ _ s.receiverReady s.detachReceived (by rw [hphase]; rfl) ⟨rfl, .inl rfl⟩ silent_nil
  | clear err hphase hissuer =>
    have hplain : plain s.phase = true := by rw [hphase]; rfl
    have hsilent : Silent [.clear err] := silent_singleton rfl
    split
    · exact .moved _ _ _ s.receiverReady s.detachReceived hplain ⟨rfl, .inl rfl⟩ hsilent
    · exact .drainEnded _ _ _ hplain hissuer ⟨rfl, .inl rfl⟩ hsilent
  | closeDetached err hphase =>
    exact .moved _ _ _ s.receiverReady s.detachReceived (by rw [hphase]; rfl) ⟨rfl, .inl rfl⟩ silent_nil
  | receive m messages hmessages => exact .took m messages hmessages
  | signal => exact .signalled _ true s.closed
  | deleteUnsettled tag => exact .deleted tag
  | closeLink => exact .signalled _ s.receiverReady _
  | issueRefused credits text => exact .refused _ _ (silent_singleton rfl)
  | issueCredit credits hauto hissuer hdrained => exact .asked credits hauto hissuer hdrained
  | issueCheck credits unsettled hissuer => exact .answered credits unsettled hissuer
  | drainRefused text _ => exact .refused _ _ (silent_singleton rfl)
  | drainCredit hauto hissuer => exact .drains hauto hissuer

theorem silent_issueCheck (s : ReceiverMux) (credits unsettled : UInt32) :
    Silent (s.issueCheck credits unsettled).2 := by
  unfold issueCheck
  split
  · exact silent_singleton rfl
  · exact silent_singleton rfl

theorem silent_drainCredit (s : ReceiverMux) : Silent s.drainCredit.2 := by
  unfold drainCredit
  split
  · exact silent_singleton rfl
  · exact silent_singleton rfl

/-- What is set when the link is made. -/
structure SameConfig (s s' : ReceiverMux) : Prop where
  autoSendFlow : s'.autoSendFlow = s.autoSendFlow
  maxCredit : s'.maxCredit = s.maxCredit
  receiverSettleMode : s'.receiver.receiverSettleMode = s.receiver.receiverSettleMode

theorem step_config (hattached : s.receiver.detached = none) (h : s.step i = some (s', events)) :
    SameConfig s s' := by
  have heffect := step_effect h
  cases heffect with
  | checked => unfold check; split <;> exact ⟨rfl, rfl, rfl⟩
  | issued p => unfold issue; split <;> exact ⟨rfl, rfl, rfl⟩
  | bits => unfold flowBits; dsimp only; split <;> exact ⟨rfl, rfl, rfl⟩
  | built credits drain => cases drain <;> exact ⟨rfl, rfl, rfl⟩
  | received fr p =>
    refine ⟨rfl, rfl, ?_⟩
    have hreceive := Receiver.muxReceive_effect hattached fr
    dsimp only
    generalize (s.receiver.muxReceive fr).1 = r at hreceive ⊢
    cases hreceive with
    | kept => rfl
    | received => rfl
  | answered credits unsettled => unfold issueCheck; split <;> exact ⟨rfl, rfl, rfl⟩
  | drains => unfold drainCredit; split <;> exact ⟨rfl, rfl, rfl⟩
  | _ => exact ⟨rfl, rfl, rfl⟩

/-! ## What a step does to the messages -/

/-- What a step does to the credit and the messages of the link. -/
inductive Touches (s : ReceiverMux) : ReceiverInput → List ReceiverEvent → ReceiverMux → Prop
  | received (fr : PerformTransfer) (s' : ReceiverMux) : s'.receiver = (s.receiver.muxReceive fr).1 →
      Touches s (.rx (.transfer fr)) [] s'
  | took (m : Message) (messages : List Message) : s.receiver.messages = m :: messages →
      Touches s .receive [.receive m] { s with receiver := { s.receiver with messages := messages } }
  | deleted (tag : Bytes) : Touches s (.deleteUnsettled tag) [] (s.deleteUnsettled tag)
  | kept (i : ReceiverInput) (events : List ReceiverEvent) (s' : ReceiverMux) (credit : UInt32) :
      i ≠ .receive → s'.receiver = { s.receiver with availableCredit := credit } →
      (credit = s.availableCredit ∨ credit = 0 ∨ i = .muxFlow) → Touches s i events s'

theorem step_touches (h : s.step i = some (s', events)) : Touches s i events s' := by
  by_cases hi : i = .receive
  · subst hi
    simp only [step] at h
    split at h
    · next m messages hmessages => cases h; exact .took m messages hmessages
    · cases h
  · have hsame : ∀ {s' : ReceiverMux}, s'.receiver = s.receiver → Touches s i events s' :=
      fun hreceiver => .kept i events _ s.availableCredit hi hreceiver (.inl rfl)
    cases step_effect h with
    | checked => exact hsame (by unfold check; split <;> rfl)
    | issued p => exact hsame (by unfold issue; split <;> rfl)
    | bits => exact hsame (by unfold flowBits; dsimp only; split <;> rfl)
    | built credits drain =>
      cases drain with
      | true => exact hsame rfl
      | false => exact .kept _ _ _ credits hi rfl (.inr (.inr rfl))
    | received fr => exact .received fr _ rfl
    | drained => exact .kept _ _ _ 0 hi rfl (.inr (.inl rfl))
    | took => exact absurd rfl hi
    | deleted tag => exact .deleted tag
    | answered => exact hsame (by unfold issueCheck; split <;> rfl)
    | drains => exact hsame (by unfold drainCredit; split <;> rfl)
    | handedOver | echoed | moved | drainEnded | signalled | refused | asked => exact hsame rfl

/-- The channel `detached` is closed after the last call of `muxReceive`. -/
theorem step_attached (hattached : s.receiver.detached = none) (h : s.step i = some (s', events)) :
    s'.receiver.detached = none := by
  cases step_touches h with
  | received fr _ hreceiver =>
    rw [hreceiver]
    exact Receiver.muxReceive_detached hattached fr
  | took => exact hattached
  | deleted => exact hattached
  | kept _ _ _ credit _ hreceiver => rw [hreceiver]; exact hattached

end ReceiverMux

end GoAmqp
