import GoAmqp.Link.Reassembly
import GoAmqp.Link.ReceiverMux
import GoAmqp.Message.Shrinks

set_option autoImplicit false

/-! # What the attach of the peer does to the settings of a link (`link.go`)

`link.attach` after the peer's attach frame: the limit on the size of messages is negotiated, and the
settlement modes are taken over or refused. A limit of zero stands for no limit on both sides, but the
comparison takes the smaller number: a peer that does not limit the size removes the limit of a receiver
that has one. -/

namespace GoAmqp

open Lib Buffer

/-! ## Settings -/

/-- The fields of `link` that the attach of the peer can change. -/
structure LinkSettings where
  maxMessageSize : UInt64
  senderSettleMode : Option SenderSettleMode
  receiverSettleMode : Option ReceiverSettleMode

/-- A receiver before it is attached. -/
structure NewReceiver where
  settings : LinkSettings
  autoSendFlow : Bool
  maxCredit : UInt32

def SenderSettleMode.string (m : SenderSettleMode) : String :=
  if m = .unsettled then "unsettled" else if m = .settled then "settled" else if m = .mixed then "mixed"
  else s!"unknown sender mode {m.toNat}"

def ReceiverSettleMode.string (m : ReceiverSettleMode) : String :=
  if m = .first then "first" else if m = .second then "second" else s!"unknown receiver mode {m.toNat}"

/-- A mode that is not set stands for mixed. -/
def senderSettleModeValue (m : Option SenderSettleMode) : SenderSettleMode := m.getD .mixed

namespace LinkSettings

/-- `if l.maxMessageSize == 0 || resp.MaxMessageSize < l.maxMessageSize { ... }`. -/
def negotiate (l : LinkSettings) (resp : PerformAttach) : LinkSettings :=
  if l.maxMessageSize = 0 ∨ resp.maxMessageSize < l.maxMessageSize then
    { l with maxMessageSize := resp.maxMessageSize }
  else l

/-- One of the two modes: a mode that was asked for must be honored. -/
def honored {M : Type} [DecidableEq M] (side : String) (string : M → String) (value : Option M → M)
    (requested received : Option M) : Except String M :=
  match requested with
  | some m =>
    if m ≠ value received then
      .error (s!"amqp: {side} settlement mode \"" ++ string m ++ "\" requested, received \""
        ++ string (value received) ++ "\" from server")
    else .ok (value received)
  | none => .ok (value received)

/-- The modes of the peer: a mode that was asked for must have been honored. -/
def setSettleModes (l : LinkSettings) (resp : PerformAttach) : Except String LinkSettings := do
  let receiver ← honored "receiver" ReceiverSettleMode.string Receiver.receiverSettleModeValue
    l.receiverSettleMode resp.receiverSettleMode
  let sender ← honored "sender" SenderSettleMode.string senderSettleModeValue
    l.senderSettleMode resp.senderSettleMode
  pure { l with receiverSettleMode := some receiver, senderSettleMode := some sender }

end LinkSettings

/-- The attach has no terminus; a detach follows. -/
def PerformAttach.refused (resp : PerformAttach) : Bool := resp.source.isNone && resp.target.isNone

/-- What `attach` makes of a response that is not refused: the mux of the receiver, or an error of
    `setSettleModes`. -/
def NewReceiver.attach (r : NewReceiver) (handle : UInt32) (resp : PerformAttach) : Except String ReceiverMux := do
  let settings ← (r.settings.negotiate resp).setSettleModes resp
  pure (.start settings.maxMessageSize settings.receiverSettleMode resp.initialDeliveryCount handle
    r.autoSendFlow r.maxCredit)

/-! ## The limit of a receiver -/

namespace Receiver

/-- The sections of the message are what `Unmarshal` makes of at most `n` bytes. -/
def DecodedWithin (n : Nat) (m : Message) : Prop :=
  ∃ bs : Bytes, bs.length ≤ n ∧ decodeSections bs = some m.toSections

/-- If the transfer completes a message (it passes the checks of its fields and of the size, and is not
    aborted), then the message can be decoded. -/
def CompletesDecodable (r : Receiver) (fr : PerformTransfer) : Prop :=
  (if r.more then r.checkContinuation fr else r.checkFirst fr).2 = none → fr.aborted = false →
    r.tooLarge fr.payload.length = false → fr.more = false →
    (decodeSections (r.msgBuf.unread ++ fr.payload)).isSome = true

/-- An attached receiver with a limit of at most `n`, which also bounds what it holds of the message under
    way. -/
structure Limited (n : Nat) (r : Receiver) : Prop where
  buffered : r.msgBuf.left ≤ n
  limit : r.maxMessageSize ≠ 0
  le : r.maxMessageSize.toNat ≤ n
  attached : r.detached = none

/-- The messages had at most `n` bytes, and of the one under way nothing has been decoded. -/
structure Undecoded (n : Nat) (r : Receiver) : Prop where
  messages : ∀ m ∈ r.messages, DecodedWithin n m
  sections : r.msg.toSections = .zero
  unread : r.msgBuf.i = 0

variable {n : Nat} {r : Receiver} {fr : PerformTransfer}

theorem left_append (buf : Buffer) (bs : Bytes) : (buf.append bs).left ≤ buf.left + bs.length := by
  simp only [Buffer.left, Buffer.append, List.length_append]
  omega

/-- The checks of a transfer record its id, format and tag, or close the link. -/
theorem checks_kept (r : Receiver) (fr : PerformTransfer) :
    ∃ (msg : Message) (e : Option DetachError),
      (if r.more then r.checkContinuation fr else r.checkFirst fr).1 = { r with msg := msg, detachError := e } ∧
      msg.toSections = r.msg.toSections := by
  split
  · unfold checkContinuation
    split_ifs <;> exact ⟨_, _, rfl, rfl⟩
  · unfold checkFirst
    dsimp only
    split_ifs <;> exact ⟨_, _, rfl, rfl⟩

theorem Limited.takePayload (h : Limited n r) (hsmall : r.tooLarge fr.payload.length = false) :
    Limited n (r.takePayload fr) := by
  refine ⟨Nat.le_trans (left_append r.msgBuf fr.payload) ?_, h.limit, h.le, h.attached⟩
  simp only [tooLarge, ne_eq, decide_eq_false_iff_not, not_and, Nat.not_lt, gt_iff_lt] at hsmall
  exact Nat.le_trans (hsmall h.limit) h.le

theorem Limited.decodeMessage (h : Limited n r) (hmore : r.more = false) : Limited n r.decodeMessage.1 := by
  have hleft := left_unmarshal r.msg r.msgBuf
  rw [Receiver.decodeMessage]
  generalize Message.unmarshal.run (r.msg, r.msgBuf) = res at hleft
  rcases res with ⟨_, msg, buf⟩ | ⟨_, msg, buf⟩
  · dsimp only
    rw [deliver_of_attached (by exact h.attached) (by exact hmore)]
    exact ⟨Nat.zero_le n, h.limit, h.le, h.attached⟩
  · exact ⟨Nat.le_trans hleft h.buffered, h.limit, h.le, h.attached⟩

theorem Limited.acceptTransfer (h : Limited n r) : Limited n (r.acceptTransfer fr).1 := by
  unfold Receiver.acceptTransfer
  split
  · exact ⟨Nat.zero_le n, h.limit, h.le, h.attached⟩
  split
  · exact ⟨h.buffered, h.limit, h.le, h.attached⟩
  next hsmall =>
  have htaken := h.takePayload (Bool.eq_false_iff.mpr hsmall)
  split
  · exact htaken
  · next hmore => exact htaken.decodeMessage (Bool.eq_false_iff.mpr hmore)

/-- **One transfer** keeps to the limit. -/
theorem Limited.muxReceive (h : Limited n r) : Limited n (r.muxReceive fr).1 := by
  obtain ⟨msg, e, hchecked, -⟩ := checks_kept r fr
  have hkept : Limited n (if r.more then r.checkContinuation fr else r.checkFirst fr).1 := by
    rw [hchecked]
    exact ⟨h.buffered, h.limit, h.le, h.attached⟩
  unfold Receiver.muxReceive
  generalize (if r.more then r.checkContinuation fr else r.checkFirst fr) = checked at hkept
  rcases checked with ⟨r₁, _ | _⟩
  · exact hkept.acceptTransfer
  · exact hkept

theorem Undecoded.decodeMessage (h : Undecoded n r) (hlimited : Limited n r) (hmore : r.more = false)
    (hdecodes : (decodeSections r.msgBuf.unread).isSome = true) : Undecoded n r.decodeMessage.1 := by
  obtain ⟨sections, hsections⟩ := Option.isSome_iff_exists.mp hdecodes
  have hnew : r.msgBuf = .new r.msgBuf.unread := by
    rw [Buffer.unread, h.unread]
    exact congrArg (Buffer.mk r.msgBuf.b) h.unread
  obtain ⟨buf, hrun⟩ := run_unmarshal h.sections hsections
  rw [Receiver.decodeMessage, hnew, hrun]
  dsimp only
  rw [deliver_of_attached (by exact hlimited.attached) (by exact hmore)]
  refine ⟨?_, rfl, rfl⟩
  intro m hm
  rcases List.mem_append.mp hm with hm | hm
  · exact h.messages m hm
  · rw [List.mem_singleton.mp hm]
    exact ⟨_, Nat.le_trans (Nat.le_of_eq (length_unread r.msgBuf)) hlimited.buffered, hsections⟩

theorem Undecoded.acceptTransfer (h : Undecoded n r) (hlimited : Limited n r)
    (hdecodes : fr.aborted = false → r.tooLarge fr.payload.length = false → fr.more = false →
      (decodeSections (r.msgBuf.unread ++ fr.payload)).isSome = true) :
    Undecoded n (r.acceptTransfer fr).1 := by
  unfold Receiver.acceptTransfer
  split
  · exact ⟨h.messages, rfl, rfl⟩
  next haborted =>
  split
  · exact ⟨h.messages, h.sections, h.unread⟩
  next hsmall =>
  rw [Bool.not_eq_true] at haborted hsmall
  have htaken : Undecoded n (r.takePayload fr) := ⟨h.messages, h.sections, h.unread⟩
  split
  · exact htaken
  next hmore =>
  rw [Bool.not_eq_true] at hmore
  refine htaken.decodeMessage (hlimited.takePayload hsmall) hmore ?_
  have hunread : (r.takePayload fr).msgBuf.unread = r.msgBuf.unread ++ fr.payload := by
    simp [Receiver.takePayload, Buffer.unread, Buffer.append, h.unread]
  rw [hunread]
  exact hdecodes haborted hsmall hmore

/-- **One transfer** leaves nothing decoded behind, unless it completes a message beyond decoding. -/
theorem Undecoded.muxReceive (h : Undecoded n r) (hlimited : Limited n r) (hdecodes : r.CompletesDecodable fr) :
    Undecoded n (r.muxReceive fr).1 := by
  obtain ⟨msg, e, hchecked, hsections⟩ := checks_kept r fr
  have hkept : Undecoded n { r with msg := msg, detachError := e } :=
    ⟨h.messages, hsections.trans h.sections, h.unread⟩
  unfold CompletesDecodable at hdecodes
  unfold Receiver.muxReceive
  generalize (if r.more then r.checkContinuation fr else r.checkFirst fr) = checked at hchecked hdecodes
  rcases checked with ⟨_, _ | _⟩
  · cases hchecked
    exact hkept.acceptTransfer ⟨hlimited.buffered, hlimited.limit, hlimited.le, hlimited.attached⟩ (hdecodes rfl)
  · cases hchecked
    exact hkept

/-- The transfers of a run keep to the limit of the receiver. -/
theorem Limited.run (h : Limited n r) {trace : List Passed} {r' : Receiver}
    (hrun : Run (Fires passTransfer) r trace r') : Limited n r' := by
  refine hrun.invariant (P := fun _ => Limited n) h ?_
  rintro trace r₁ ⟨fr, errors⟩ r₂ hlimited hstep
  obtain ⟨rfl, -⟩ := Prod.mk.inj (Option.some.inj hstep)
  exact hlimited.muxReceive

theorem Undecoded.run (h : Undecoded n r) (hlimited : Limited n r) {trace : List Passed} {r' : Receiver}
    (hrun : RunIf (Fires passTransfer) (fun _ r l => r.CompletesDecodable l.1) r trace r') : Undecoded n r' := by
  suffices Limited n r' ∧ Undecoded n r' from this.2
  refine hrun.invariant (P := fun _ r' => Limited n r' ∧ Undecoded n r') ⟨hlimited, h⟩ ?_
  rintro trace r₁ ⟨fr, errors⟩ r₂ ⟨hlimited, hwhole⟩ hstep hdecodes
  obtain ⟨rfl, -⟩ := Prod.mk.inj (Option.some.inj hstep)
  exact ⟨hlimited.muxReceive, hwhole.muxReceive hlimited hdecodes⟩

end Receiver

open Receiver

/-- A receiver that has not been passed a transfer. -/
structure Receiver.Fresh (r : Receiver) : Prop where
  msgBuf : r.msgBuf = .new []
  messages : r.messages = []
  msg : r.msg = .zero
  detached : r.detached = none

end GoAmqp
