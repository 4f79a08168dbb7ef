import GoAmqp.Conn.Sessions
import GoAmqp.Link.ReceiverMux

set_option autoImplicit false

/-! # The optional fields of frames as pointers

An optional field of a frame is a pointer, which is nil when the field is null or left out. The models of the
handlers match on the field. Here each handler is written with the tests for nil and the dereferences that the
source has, in their order, and compared with the model: it returns what the model says, or it ends the process
with a nil dereference. -/

namespace GoAmqp

open Lib

namespace Pointers

/-- `*p`. -/
def deref {α : Type} : Option α → Except Fault α
  | some x => .ok x
  | none => .error .nilDeref

/-- `if p != nil { x = *p }`. -/
def orElse {α : Type} (p : Option α) (x : α) : Except Fault α := if p.isSome then deref p else .ok x

variable {α : Type} (s : SenderMux) (r : Receiver)

@[simp]
theorem deref_some (x : α) : deref (some x) = .ok x := rfl

theorem ok_bind {β : Type} (x : α) (f : α → Except Fault β) : (Except.ok x >>= f) = f x := rfl

@[simp]
theorem orElse_eq (p : Option α) (x : α) : orElse p x = .ok (p.getD x) := by
  cases p <;> rfl

/-! ## `connReader` -/

/-- The cases of `connReader` that dereference. -/
def connReader (c : Connection) (channel : UInt16) : FrameBody → Except Fault (Connection × List ConnEvent)
  | .begin_ body => do
    if body.remoteChannel.isNone then return c.fail ((FrameBody.begin_ body).typeName ++ ": nil RemoteChannel")
    match c.sessionsByChannel (← deref body.remoteChannel) with
    | none =>
      let remoteChannel ← deref body.remoteChannel
      return c.fail (s!"unexpected remote channel number {remoteChannel.toNat}")
    | some s =>
      return { c with sessionsByRemoteChannel :=
        Function.update c.sessionsByRemoteChannel channel (some s) }.passOn s (.begin_ body)
  -- an error is kept as a pointer
  | body => return c.readFrame channel body

theorem connReader_eq (c : Connection) (channel : UInt16) (body : FrameBody) :
    connReader c channel body = .ok (c.readFrame channel body) := by
  cases body with
  | begin_ body =>
    simp only [connReader, Connection.readFrame]
    cases body.remoteChannel with
    | none => rfl
    | some remoteChannel =>
      cases hs : c.sessionsByChannel remoteChannel with
      | none => simp [hs, ok_bind]
      | some s =>
        simp [hs, ok_bind]
        rfl
  | _ => rfl

/-! ## `Session.mux` -/

/-- The start and the end of the loop over the delivery-ids of a disposition. -/
def dispositionRange (body : PerformDisposition) : Except Fault (UInt32 × UInt32) := do
  return (body.first, ← orElse body.last body.first)

def rxFlow (s : Session) (body : PerformFlow) : Except Fault (Session × List MuxEvent) := do
  -- the error of the protocol
  if body.nextIncomingID.isNone then return s.rxFlow body
  let s := s.updateRemote body (← deref body.nextIncomingID)
  if body.handle.isSome then return (s, s.forward (← deref body.handle) (.flow body))
  return (s, if body.echo then [.txFrame (.flow (s.fillFlow .zero)) none] else [])

/-- `link.receiverSettleMode` is a pointer as well. -/
def trackRemote (s : Session) (l : LinkID) (body : PerformTransfer) : Except Fault Session := do
  if !body.settled && body.deliveryID.isSome && (s.link l).receiverSettleMode.isSome then
    if (← deref (s.link l).receiverSettleMode) == ReceiverSettleMode.second then
      return { s with handlesByRemoteDeliveryID :=
        Function.update s.handlesByRemoteDeliveryID (← deref body.deliveryID) (some body.handle) }
    else return s
  else return s

def rxTransfer (s : Session) (body : PerformTransfer) : Except Fault (Session × List MuxEvent) := do
  match s.links body.handle with
  | none => return (s.countTransfer, [])
  | some l =>
    let updated := (← trackRemote s.countTransfer l body).updateWindow
    return (updated.1, .toLink l (.transfer body) :: updated.2)

/-- `case fr := <-s.rx`. -/
def sessionMux (s : Session) : FrameBody → Except Fault (Session × List MuxEvent)
  | .disposition body => do
    let range ← dispositionRange body
    return ({ s with phase := .disposition body range.1 }, [])
  | .flow body => rxFlow s body
  | .transfer body => rxTransfer s body
  -- an error is kept as a pointer, and no other field of these frames is one
  | body => return s.rx body

theorem dispositionRange_eq (body : PerformDisposition) : dispositionRange body = .ok (body.first, body.end_) := by
  simp only [dispositionRange, orElse_eq]
  rfl

theorem rxFlow_eq (s : Session) (body : PerformFlow) : rxFlow s body = .ok (s.rxFlow body) := by
  unfold rxFlow
  cases hn : body.nextIncomingID with
  | none => rfl
  | some nextIncomingID =>
    simp only [Session.rxFlow, hn]
    cases body.handle <;> rfl

theorem trackRemote_eq (s : Session) (l : LinkID) (body : PerformTransfer) :
    trackRemote s l body = .ok (s.trackRemote l body) := by
  unfold trackRemote Session.trackRemote
  cases body.deliveryID with
  | none => simp; rfl
  | some deliveryID =>
    cases body.settled <;> cases (s.link l).receiverSettleMode with
    | none => simp; rfl
    | some mode => by_cases hmode : mode = .second <;> simp [ok_bind, hmode] <;> rfl

theorem sessionMux_eq (s : Session) (body : FrameBody) : sessionMux s body = .ok (s.rx body) := by
  cases body with
  | disposition body =>
    simp only [sessionMux, dispositionRange_eq]
    rfl
  | flow body => exact rxFlow_eq s body
  | transfer body =>
    simp only [sessionMux, rxTransfer, Session.rx, Session.rxTransfer]
    cases s.links body.handle with
    | none => rfl
    | some l =>
      simp only [trackRemote_eq]
      rfl
  | _ => rfl

/-! ## `link.muxHandleFrame` -/

/-- The error for a detach holds the pointer of the frame. -/
def linkMuxHandleFrame : FrameBody → Except Fault (Option LinkError)
  | .detach fr =>
    if !fr.closed then return some (.nonClosingDetach fr)
    else if fr.error.isSome then return some (.detach fr.error)
    else return some (.detach none)
  | _ => return none

/-! ## `Sender.muxHandleFrame` -/

def senderFlow (s : SenderMux) (fr : PerformFlow) : Except Fault (SenderMux × List SenderEvent) := do
  let mut linkCredit := (← deref fr.linkCredit) - s.deliveryCount
  if fr.deliveryCount.isSome then linkCredit := linkCredit + (← deref fr.deliveryCount)
  return ({ s with availableCredit := linkCredit },
    if fr.echo then [.txFrame (.flow { PerformFlow.zero with
      handle := some s.handle
      deliveryCount := some s.deliveryCount
      linkCredit := some linkCredit })]
    else [])

def detachOnRejectDisp (s : SenderMux) : Except Fault Bool := do
  if s.detachOnDispositionError then
    if s.receiverSettleMode.isNone then return true
    else return (← deref s.receiverSettleMode) == ReceiverSettleMode.first
  else return false

def senderDisposition (s : SenderMux) (fr : PerformDisposition) : Except Fault (SenderMux × List SenderEvent) := do
  match fr.state with
  | some (.rejected error) =>
    if ← detachOnRejectDisp s then return ({ s with phase := .returned (.detach error) }, [])
    else return (s, SenderMux.answerDisposition fr)
  | _ => return (s, SenderMux.answerDisposition fr)

def senderMuxHandleFrame (s : SenderMux) : FrameBody → Except Fault (SenderMux × List SenderEvent)
  | .flow fr => senderFlow s fr
  | .disposition fr => senderDisposition s fr
  | .detach fr => do
    match ← linkMuxHandleFrame (.detach fr) with
    | some err => return ({ s with detachReceived := s.detachReceived || fr.closed, phase := .returned err }, [])
    | none => return (s, [])
  | body => do
    let _ ← linkMuxHandleFrame body
    return (s, [])

/-- The flow has a credit. -/
def HasCredit (body : FrameBody) : Prop := ∀ fr, body = .flow fr → fr.linkCredit ≠ none

theorem senderFlow_eq (fr : PerformFlow) (h : fr.linkCredit ≠ none) : senderFlow s fr = .ok (s.handleFlow fr) := by
  unfold senderFlow SenderMux.handleFlow SenderMux.creditOf
  cases hc : fr.linkCredit with
  | none => exact absurd hc h
  | some credit => cases fr.deliveryCount <;> rfl

theorem detachOnRejectDisp_eq : detachOnRejectDisp s = .ok s.detachOnRejectDisp := by
  unfold detachOnRejectDisp SenderMux.detachOnRejectDisp
  cases s.detachOnDispositionError with
  | false => rfl
  | true =>
    cases s.receiverSettleMode with
    | none => rfl
    | some mode => simp

theorem senderDisposition_eq (fr : PerformDisposition) : senderDisposition s fr = .ok (s.handleDisposition fr) := by
  unfold senderDisposition SenderMux.handleDisposition
  cases fr.state with
  | none => rfl
  | some state =>
    cases state with
    | rejected error =>
      simp only [detachOnRejectDisp_eq, ok_bind]
      split <;> rfl
    | _ => rfl

theorem senderMuxHandleFrame_eq (body : FrameBody) (h : HasCredit body) :
    senderMuxHandleFrame s body = .ok (s.muxHandleFrame body) := by
  cases body with
  | flow fr => exact senderFlow_eq s fr (h fr rfl)
  | disposition fr => exact senderDisposition_eq s fr
  | detach fr =>
    simp only [senderMuxHandleFrame, linkMuxHandleFrame, SenderMux.muxHandleFrame, SenderMux.handleDetach]
    cases fr.closed <;> cases fr.error <;> simp <;> rfl
  | _ => rfl

/-- The credit of a flow is followed without a test. -/
theorem senderMuxHandleFrame_nil {fr : PerformFlow} (h : fr.linkCredit = none) :
    senderMuxHandleFrame s (.flow fr) = .error .nilDeref := by
  simp only [senderMuxHandleFrame, senderFlow, h]
  rfl

/-! ## `Receiver.muxHandleFrame` -/

/-- `p != nil && *p != x`. -/
def differs {α : Type} [DecidableEq α] (p : Option α) (x : α) : Except Fault Bool := do
  if p.isSome then return (← deref p) ≠ x else return false

/-- The first transfer of a message. -/
def checkFirst (r : Receiver) (fr : PerformTransfer) : Except Fault (Receiver × Option DetachError) := do
  let deliveryID ← orElse fr.deliveryID r.msg.deliveryID
  let format ← orElse fr.messageFormat r.msg.format
  let r := { r with msg := { r.msg with
    deliveryID := deliveryID
    format := format
    deliveryTag := fr.deliveryTag } }
  if fr.deliveryID.isNone then
    return r.closeWithError ErrCond.notAllowed "received message without a delivery-id"
  else if fr.messageFormat.isNone then
    return r.closeWithError ErrCond.notAllowed "received message without a message-format"
  else if fr.deliveryTag.isNone then
    return r.closeWithError ErrCond.notAllowed "received message without a delivery-tag"
  else return (r, none)

/-- A continuation. The delivery-tag is a slice, and nil is one of length zero. -/
def checkContinuation (r : Receiver) (fr : PerformTransfer) : Except Fault (Receiver × Option DetachError) := do
  if ← differs fr.deliveryID r.msg.deliveryID then
    let deliveryID ← deref fr.deliveryID
    return r.closeWithError ErrCond.notAllowed
      (s!"received continuation transfer with inconsistent delivery-id: {deliveryID.toNat} != {r.msg.deliveryID.toNat}")
  else if ← differs fr.messageFormat r.msg.format then
    let format ← deref fr.messageFormat
    return r.closeWithError ErrCond.notAllowed
      (s!"received continuation transfer with inconsistent message-format: {format.toNat} != {r.msg.format.toNat}")
  else if Receiver.inconsistent fr.deliveryTag (r.msg.deliveryTag.getD []) then
    return r.closeWithError ErrCond.notAllowed
      ("received continuation transfer with inconsistent delivery-tag: "
        ++ quote (fr.deliveryTag.getD []) ++ " != " ++ quote (r.msg.deliveryTag.getD []))
  else return (r, none)

def muxReceive (r : Receiver) (fr : PerformTransfer) : Except Fault (Receiver × Option DetachError) := do
  match ← if r.more then checkContinuation r fr else checkFirst r fr with
  | (r, some e) => return (r, some e)
  -- what follows reads no pointer of the frame
  | (r, none) => return r.acceptTransfer fr

def receiverMuxHandleFrame (r : ReceiverMux) (flow : Option PerformFlow) :
    FrameBody → Except Fault (ReceiverMux × List ReceiverEvent)
  | .transfer fr => do
    match ← muxReceive r.receiver fr with
    | (receiver, some e) => return (ReceiverMux.detach { r with receiver := receiver } (.receive e), [])
    | (receiver, none) => return ({ r with receiver := receiver, phase := ReceiverMux.resume flow }, [])
  | .disposition fr => do
    -- the pointers are passed on to `inFlight.remove`, which tests `last`
    let last ← orElse fr.last fr.first
    return ({ r with phase := .removing fr.first last (ReceiverMux.dispositionError fr.state) flow }, [])
  -- nothing is read from a flow but its flags
  | .flow fr => return r.handleFlow flow fr
  | .detach fr => do
    match ← linkMuxHandleFrame (.detach fr) with
    | some err => return (ReceiverMux.detach { r with detachReceived := r.detachReceived || fr.closed } (.link err), [])
    | none => return (r, [])
  | body => do
    let _ ← linkMuxHandleFrame body
    return ({ r with phase := ReceiverMux.resume flow }, [])

theorem differs_eq [DecidableEq α] (p : Option α) (x : α) : differs p x = .ok (Receiver.inconsistent p x) := by
  cases p <;> rfl

theorem checkFirst_eq (fr : PerformTransfer) : checkFirst r fr = .ok (r.checkFirst fr) := by
  simp only [checkFirst, orElse_eq, ok_bind, Receiver.checkFirst]
  split
  · rfl
  · split
    · rfl
    · split <;> rfl

theorem checkContinuation_eq (fr : PerformTransfer) : checkContinuation r fr = .ok (r.checkContinuation fr) := by
  simp only [checkContinuation, differs_eq, ok_bind, Receiver.checkContinuation]
  split
  · next hdiffers =>
    cases hid : fr.deliveryID with
    | none => simp [hid, Receiver.inconsistent] at hdiffers
    | some deliveryID => rfl
  · split
    · next hdiffers =>
      cases hformat : fr.messageFormat with
      | none => simp [hformat, Receiver.inconsistent] at hdiffers
      | some format => rfl
    · split <;> rfl

theorem muxReceive_eq (fr : PerformTransfer) : muxReceive r fr = .ok (r.muxReceive fr) := by
  unfold muxReceive Receiver.muxReceive
  cases r.more with
  | true =>
    simp only [checkContinuation_eq, ok_bind, if_true]
    rcases r.checkContinuation fr with ⟨r', _ | e⟩ <;> rfl
  | false =>
    simp only [checkFirst_eq, ok_bind, Bool.false_eq_true, if_false]
    rcases r.checkFirst fr with ⟨r', _ | e⟩ <;> rfl

theorem receiverMuxHandleFrame_eq (r : ReceiverMux) (flow : Option PerformFlow) (body : FrameBody) :
    receiverMuxHandleFrame r flow body = .ok (r.muxHandleFrame flow body) := by
  cases body with
  | transfer fr =>
    simp only [receiverMuxHandleFrame, muxReceive_eq, ok_bind, ReceiverMux.muxHandleFrame, ReceiverMux.handleTransfer]
    rcases r.receiver.muxReceive fr with ⟨receiver, _ | e⟩ <;> rfl
  | disposition fr =>
    simp only [receiverMuxHandleFrame, orElse_eq, ok_bind]
    rfl
  | detach fr =>
    simp only [receiverMuxHandleFrame, linkMuxHandleFrame, ReceiverMux.muxHandleFrame, ReceiverMux.handleDetach]
    cases fr.closed <;> cases fr.error <;> simp <;> rfl
  | _ => rfl

/-- The handler returns: it has followed no nil pointer. -/
def Returns {α : Type} (x : Except Fault α) : Prop := ∃ a, x = .ok a

end Pointers

open Pointers

/-- **Nil pointers.** The handlers return, in every state and for every frame, unless the frame is a flow without
    link-credit that a sender handles. -/
theorem handlers_return_iff (c : Connection) (channel : UInt16) (s : Session) (snd : SenderMux) (r : ReceiverMux)
    (flow : Option PerformFlow) (body : FrameBody) :
    (Returns (connReader c channel body) ∧ Returns (sessionMux s body) ∧ Returns (linkMuxHandleFrame body) ∧
      Returns (senderMuxHandleFrame snd body) ∧ Returns (receiverMuxHandleFrame r flow body)) ↔ HasCredit body := by
  constructor
  · rintro ⟨-, -, -, ⟨res, hsender⟩, -⟩ fr rfl hnone
    rw [senderMuxHandleFrame_nil snd hnone] at hsender
    cases hsender
  · intro hcredit
    refine ⟨⟨_, connReader_eq c channel body⟩, ⟨_, sessionMux_eq s body⟩, ?_,
      ⟨_, senderMuxHandleFrame_eq snd body hcredit⟩, ⟨_, receiverMuxHandleFrame_eq r flow body⟩⟩
    cases body with
    | detach fr =>
      simp only [linkMuxHandleFrame]
      split
      · exact ⟨_, rfl⟩
      · split <;> exact ⟨_, rfl⟩
    | _ => exact ⟨_, rfl⟩

namespace Pointers

/-- The flow that `parseBody` returns. -/
def flowIn (payload : Bytes) : Option PerformFlow :=
  match parseBody.run (.new payload) with
  | .ok (.flow fr) _ => some fr
  | _ => none

/-- A flow with five fields, all zero: what follows the handle is left out. -/
def creditlessFlow : Bytes := [0x00, 0x53, 0x13, 0xc0, 0x06, 0x05, 0x43, 0x43, 0x43, 0x43, 0x43]

/-- A session with a sender that is attached under the remote handle 0. -/
def withSender : List MuxInput :=
  [.newLink ⟨ascii "a", Role.sender⟩ none,
    .rx (.attach { PerformAttach.zero with name := ascii "a", role := Role.receiver, handle := 0 })]

end Pointers

/-- The session passes a flow without link-credit on to a sender, and the sender follows the nil pointer. -/
theorem creditless_flow_crashes : ∃ fr rest trace s s',
    parseBody.run (.new creditlessFlow) = .ok (.flow fr) rest ∧
      Run (Fires Session.step) (.start 10 10 10 .zero) trace s ∧ (s.link 0).key.role = Role.sender ∧
      sessionMux s (.flow fr) = .ok (s', [.toLink 0 (.flow fr)]) ∧
      senderMuxHandleFrame (.start 0 none false) (.flow fr) = .error .nilDeref := by
  have hparse : (flowIn creditlessFlow).map (fun fr => (fr.nextIncomingID, fr.handle, fr.linkCredit)) =
      some (some 0, some 0, none) := by
    decide +kernel
  have hexec : (exec Session.step [] (.start 10 10 10 .zero) withSender).map
      (fun r => (r.2.links 0, (r.2.link 0).key.role)) = some (some 0, Role.sender) := by
    decide +kernel
  obtain ⟨fr, hflow, hfields⟩ := Option.map_eq_some_iff.mp hparse
  simp only [Prod.mk.injEq] at hfields
  obtain ⟨hnext, hhandle, hcredit⟩ := hfields
  obtain ⟨⟨trace, s⟩, hexec, hlink⟩ := Option.map_eq_some_iff.mp hexec
  obtain ⟨hlinks, hrole⟩ : s.links 0 = some 0 ∧ (s.link 0).key.role = Role.sender := Prod.mk.inj hlink
  obtain ⟨rest, hbody⟩ : ∃ rest, parseBody.run (.new creditlessFlow) = .ok (.flow fr) rest := by
    unfold flowIn at hflow
    split at hflow
    · next heq =>
      cases hflow
      exact ⟨_, heq⟩
    · cases hflow
  refine ⟨fr, rest, trace, s, s.updateRemote fr 0, hbody, .of_exec _ .start hexec, hrole, ?_,
    senderMuxHandleFrame_nil _ hcredit⟩
  have hforward : s.forward 0 (.flow fr) = [.toLink 0 (.flow fr)] := by rw [Session.forward, hlinks]
  simp only [sessionMux_eq, Session.rx, Session.rxFlow, hnext, hhandle, hforward]

end GoAmqp
