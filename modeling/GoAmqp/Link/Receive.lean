import GoAmqp.Message

set_option autoImplicit false

/-! # `Receiver.muxReceive` (`receiver.go`)

The reassembly of transfers into messages. `messages` collects what has been put on the channel of the
same name; the link's mux is the only writer of the other fields that appear here. -/

namespace GoAmqp

open Lib Buffer

/-- The errors `muxReceive` ends the link with, `&DetachError{inner: ...}`. -/
inductive DetachError where
  /-- from `closeWithError` -/
  | closed (condition : String) (description : String)
  /-- an error of the decoder -/
  | inner (e : Fault)
deriving DecidableEq

def ErrCond.notAllowed : String := "amqp:not-allowed"
def ErrCond.messageSizeExceeded : String := "amqp:link:message-size-exceeded"

/-- The key of a message in `unsettledMessages`. -/
def Message.tag (m : Message) : Bytes := m.deliveryTag.getD []

/-- What `muxReceive` reads and writes: the settings of the link, its credit, the messages it has passed on, and the
    message it is putting together. -/
structure Receiver where
  maxMessageSize : UInt64
  receiverSettleMode : Option ReceiverSettleMode
  deliveryCount : UInt32
  availableCredit : UInt32
  /-- the error of the link once its `detached` channel is closed -/
  detached : Option DetachError
  /-- the error of the first `closeWithError` -/
  detachError : Option DetachError
  messages : List Message
  /-- the delivery tags in `unsettledMessages` -/
  unsettledMessages : List Bytes
  msgBuf : Buffer
  more : Bool
  msg : Message

namespace Receiver

/-- `closeWithError`; only the first call sets the error of the link. -/
def closeWithError (r : Receiver) (condition description : String) : Receiver × Option DetachError :=
  ({ r with detachError := r.detachError.or (some (.closed condition description)) },
    some (.closed condition description))

/-- The first transfer of a message: its id, format and tag are recorded, then required. -/
def checkFirst (r : Receiver) (fr : PerformTransfer) : Receiver × Option DetachError :=
  let r := { r with msg := { r.msg with
    deliveryID := fr.deliveryID.getD r.msg.deliveryID
    format := fr.messageFormat.getD r.msg.format
    deliveryTag := fr.deliveryTag } }
  if fr.deliveryID.isNone then
    r.closeWithError ErrCond.notAllowed "received message without a delivery-id"
  else if fr.messageFormat.isNone then
    r.closeWithError ErrCond.notAllowed "received message without a message-format"
  else if fr.deliveryTag.isNone then
    r.closeWithError ErrCond.notAllowed "received message without a delivery-tag"
  else (r, none)

/-- Whether a field that may be left out differs from the recorded one. -/
def inconsistent {α : Type} [DecidableEq α] (field : Option α) (recorded : α) : Bool :=
  match field with
  | none => false
  | some a => a ≠ recorded

/-- A continuation: what it repeats of the first transfer must be the same. -/
def checkContinuation (r : Receiver) (fr : PerformTransfer) : Receiver × Option DetachError :=
  if inconsistent fr.deliveryID r.msg.deliveryID then
    r.closeWithError ErrCond.notAllowed
      (s!"received continuation transfer with inconsistent delivery-id: {(fr.deliveryID.getD 0).toNat} != {r.msg.deliveryID.toNat}")
  else if inconsistent fr.messageFormat r.msg.format then
    r.closeWithError ErrCond.notAllowed
      (s!"received continuation transfer with inconsistent message-format: {(fr.messageFormat.getD 0).toNat} != {r.msg.format.toNat}")
  else if inconsistent fr.deliveryTag (r.msg.deliveryTag.getD []) then
    r.closeWithError ErrCond.notAllowed
      ("received continuation transfer with inconsistent delivery-tag: "
        ++ quote (fr.deliveryTag.getD []) ++ " != " ++ quote (r.msg.deliveryTag.getD []))
  else (r, none)

/-- A mode that is not set stands for the first. -/
def receiverSettleModeValue (m : Option ReceiverSettleMode) : ReceiverSettleMode := m.getD .first

/-- `addUnsettled`. -/
def addUnsettled (r : Receiver) : Receiver :=
  if receiverSettleModeValue r.receiverSettleMode == .second then
    { r with unsettledMessages := r.unsettledMessages.insert (r.msg.deliveryTag.getD []) }
  else r

/-- The message is complete and goes to the application, unless the link is detached. -/
def deliver (r : Receiver) : Receiver × Option DetachError :=
  let r := r.addUnsettled
  match r.detached with
  | some e => (r, some e)
  | none =>
    ({ r with
      messages := r.messages ++ [r.msg]
      msgBuf := reset r.msgBuf
      msg := .zero
      deliveryCount := r.deliveryCount + 1
      availableCredit := r.availableCredit - 1 }, none)

/-- The last frame of a message has been buffered. -/
def decodeMessage (r : Receiver) : Receiver × Option DetachError :=
  match Message.unmarshal.run (r.msg, r.msgBuf) with
  | .error e (msg, buf) => ({ r with msg := msg, msgBuf := buf }, some (.inner e))
  | .ok _ (msg, buf) => deliver { r with msg := msg, msgBuf := buf }

/-- Whether a payload of `n` bytes takes the message over the limit of the link. -/
def tooLarge (r : Receiver) (n : Nat) : Bool :=
  decide (r.maxMessageSize ≠ 0 ∧ (r.msgBuf.b.length - r.msgBuf.i) + n > r.maxMessageSize.toNat)

/-- The payload is added to the buffer; one settled frame settles the message. -/
def takePayload (r : Receiver) (fr : PerformTransfer) : Receiver := { r with
  msgBuf := r.msgBuf.append fr.payload
  msg := { r.msg with settled := r.msg.settled || fr.settled }
  more := fr.more }

/-- The part of `muxReceive` that follows the checks of the transfer's fields. -/
def acceptTransfer (r : Receiver) (fr : PerformTransfer) : Receiver × Option DetachError :=
  if fr.aborted then ({ r with msgBuf := reset r.msgBuf, msg := .zero, more := false }, none)
  else if r.tooLarge fr.payload.length then
    r.closeWithError ErrCond.messageSizeExceeded
      (s!"received message larger than max size of {r.maxMessageSize.toNat}")
  else if fr.more then (r.takePayload fr, none)
  else (r.takePayload fr).decodeMessage

/-- A transfer is checked against the message in progress, buffered, and at the last one the message is decoded and
    passed on. -/
def muxReceive (r : Receiver) (fr : PerformTransfer) : Receiver × Option DetachError :=
  match if r.more then r.checkContinuation fr else r.checkFirst fr with
  | (r, some e) => (r, some e)
  | (r, none) => r.acceptTransfer fr

/-- The transfers of a link one after the other; the first error ends the run. -/
def receiveAll (r : Receiver) : List PerformTransfer → Receiver × Option DetachError
  | [] => (r, none)
  | fr :: frs =>
    match r.muxReceive fr with
    | (r, some e) => (r, some e)
    | (r, none) => r.receiveAll frs

/-! ## What a call can do -/

/-- The tags in `unsettledMessages` after a message with the given tag. -/
def unsettledAfter (r : Receiver) (tag : Bytes) : List Bytes :=
  if receiverSettleModeValue r.receiverSettleMode == .second then r.unsettledMessages.insert tag
  else r.unsettledMessages

/-- The receiver after the complete message `m`. -/
def received (r : Receiver) (m : Message) : Receiver := { r with
  messages := r.messages ++ [m]
  unsettledMessages := r.unsettledAfter (m.deliveryTag.getD [])
  deliveryCount := r.deliveryCount + 1
  availableCredit := r.availableCredit - 1
  msgBuf := .new []
  msg := .zero
  more := false }

theorem addUnsettled_eq (r : Receiver) :
    r.addUnsettled = { r with unsettledMessages := r.unsettledAfter (r.msg.deliveryTag.getD []) } := by
  unfold addUnsettled unsettledAfter
  split <;> rfl

variable {r : Receiver}

/-- On an attached link a complete message always goes to the application. -/
theorem deliver_of_attached (hdetached : r.detached = none) (hmore : r.more = false) :
    r.deliver = (r.received r.msg, none) := by
  rw [deliver, addUnsettled_eq]
  simp only [hdetached, received, hmore]
  rfl

/-- The tag of the message that a transfer is taken to belong to. -/
def tagFor (r : Receiver) (fr : PerformTransfer) : Option Bytes :=
  if r.more then r.msg.deliveryTag else fr.deliveryTag

/-- The message has the tag of the transfer's message; a first transfer sets it. -/
structure Belongs (r : Receiver) (fr : PerformTransfer) (m : Message) : Prop where
  tag : m.deliveryTag = r.tagFor fr
  first : r.more = false → fr.deliveryTag.isSome = true

/-- A call changes what is kept of the message under way, or completes a message. -/
inductive Effect (r : Receiver) (fr : PerformTransfer) : Receiver → Prop
  | kept (detachError : Option DetachError) (msgBuf : Buffer) (more : Bool) (msg : Message) :
      (more = true → r.Belongs fr msg) →
      Effect r fr { r with detachError := detachError, msgBuf := msgBuf, more := more, msg := msg }
  | received (m : Message) : fr.more = false → fr.aborted = false → r.Belongs fr m → Effect r fr (r.received m)

theorem Effect.closeWithError {fr : PerformTransfer} {msg : Message}
    (hbelongs : r.more = true → r.Belongs fr msg) (condition description : String) :
    Effect r fr (Receiver.closeWithError { r with msg := msg } condition description).1 :=
  .kept _ _ _ _ hbelongs

/-- `Unmarshal` changes the sections of a message only. -/
theorem run_unmarshal_eq {m m' : Message} {buf buf' : Buffer}
    (h : Message.unmarshal.run (m, buf) = .ok () (m', buf')) : m' = { m with toSections := m'.toSections } := by
  simp only [Message.unmarshal, zoom, EStateM.run] at h
  split at h
  · cases h
    rfl
  · cases h

theorem acceptTransfer_effect (hdetached : r.detached = none) {fr : PerformTransfer} {msg : Message}
    (hbelongs : r.Belongs fr msg) : Effect r fr (acceptTransfer { r with msg := msg } fr).1 := by
  unfold acceptTransfer
  split
  · exact .kept _ _ _ _ (fun h => by cases h)
  split
  · exact .closeWithError (fun _ => hbelongs) _ _
  split
  · exact .kept _ _ _ _ (fun _ => ⟨hbelongs.tag, hbelongs.first⟩)
  next haborted _ hmore =>
  simp only [Bool.not_eq_true] at haborted hmore
  rw [decodeMessage]
  split
  · refine .kept _ _ _ _ ?_
    intro h
    rw [show fr.more = true from h] at hmore
    cases hmore
  · next m buf hrun =>
    rw [deliver_of_attached (by exact hdetached) (by exact hmore)]
    have hkept : m.deliveryTag = msg.deliveryTag := by rw [run_unmarshal_eq hrun]; rfl
    exact .received m hmore haborted ⟨hkept.trans hbelongs.tag, hbelongs.first⟩

/-- The checks record fields of the transfer, or refuse it. -/
inductive Checked (r : Receiver) (fr : PerformTransfer) : Receiver × Option DetachError → Prop
  | passed (msg : Message) : r.Belongs fr msg → Checked r fr ({ r with msg := msg }, none)
  | refused (msg : Message) (condition description : String) : (r.more = true → r.Belongs fr msg) →
      Checked r fr (Receiver.closeWithError { r with msg := msg } condition description)

theorem checkFirst_checked (hmore : r.more = false) (fr : PerformTransfer) : Checked r fr (r.checkFirst fr) := by
  have hrefused : ∀ {P : Prop}, r.more = true → P := by
    intro P h
    rw [hmore] at h
    cases h
  unfold checkFirst
  split
  · exact .refused _ _ _ hrefused
  split
  · exact .refused _ _ _ hrefused
  split
  · exact .refused _ _ _ hrefused
  · next htag =>
    refine .passed _ ⟨?_, fun _ => by simpa [Option.isSome_iff_ne_none] using htag⟩
    simp [tagFor, hmore]

theorem checkContinuation_checked (hmore : r.more = true) (fr : PerformTransfer) :
    Checked r fr (r.checkContinuation fr) := by
  have hbelongs : r.Belongs fr r.msg := by
    refine ⟨by simp [tagFor, hmore], ?_⟩
    intro h
    rw [hmore] at h
    cases h
  unfold checkContinuation
  split
  · exact .refused r.msg _ _ fun _ => hbelongs
  split
  · exact .refused r.msg _ _ fun _ => hbelongs
  split
  · exact .refused r.msg _ _ fun _ => hbelongs
  · exact .passed r.msg hbelongs

theorem checks_checked (r : Receiver) (fr : PerformTransfer) :
    Checked r fr (if r.more then r.checkContinuation fr else r.checkFirst fr) := by
  split
  · next hmore => exact checkContinuation_checked hmore fr
  · next hmore => exact checkFirst_checked (by simpa using hmore) fr

/-- **What a call can do** on an attached link. -/
theorem muxReceive_effect (hdetached : r.detached = none) (fr : PerformTransfer) :
    Effect r fr (r.muxReceive fr).1 := by
  have hchecked := checks_checked r fr
  unfold muxReceive
  generalize (if r.more then r.checkContinuation fr else r.checkFirst fr) = checked at hchecked
  cases hchecked with
  | passed msg hbelongs => exact acceptTransfer_effect hdetached hbelongs
  | refused msg condition description hbelongs => exact .closeWithError hbelongs condition description

theorem muxReceive_detached (hdetached : r.detached = none) (fr : PerformTransfer) :
    (r.muxReceive fr).1.detached = none := by
  have heffect := muxReceive_effect hdetached fr
  generalize (r.muxReceive fr).1 = r' at heffect
  cases heffect with
  | kept => exact hdetached
  | received m => exact hdetached

end Receiver

end GoAmqp
