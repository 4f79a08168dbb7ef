import GoAmqp.Message

set_option autoImplicit false

/-! # `Sender.send` (`sender.go`)

The part of a sender that cuts a message into transfers. The sender's buffer is the buffer of the
computation, and `transfers` collects what has been put on the channel of the same name. A new `Done`
channel is a number that has not been used before. `send` is modelled without cancellation: every
transfer is taken from the channel. -/

namespace GoAmqp

open Lib Buffer

/-- What `Sender.send` reads and writes: the settings of the link, the counters, and the transfers handed to the mux
    so far. -/
structure Sender where
  handle : UInt32
  maxMessageSize : UInt64
  senderSettleMode : Option SenderSettleMode
  /-- of the connection -/
  peerMaxFrameSize : UInt32
  nextDeliveryTag : UInt64
  /-- of the session, shared with its other senders -/
  nextDeliveryID : UInt32
  /-- the number of `Done` channels made so far -/
  channels : Nat
  transfers : List PerformTransfer

namespace Sender

/-- The limit of the protocol. -/
def maxDeliveryTagLength : Nat := 32

/-- The room that `send` leaves for the header of a frame. -/
def maxTransferFrameHeader : Int := 66

/-- `Next` with a signed argument: a negative one slices backwards. -/
def nextSigned (n : Int) : BufM Bytes :=
  match n with
  | .ofNat n => Prod.fst <$> next n
  | .negSucc _ => throw .outOfRange

/-- Whether the sender settles the message itself. -/
def senderSettled (s : Sender) (msg : Message) : Bool :=
  match s.senderSettleMode with
  | none => false
  | some mode => mode == .settled || (mode == .mixed && msg.sendSettled)

/-- What the peer's frame size leaves for a payload; it may be negative. -/
def maxPayloadSize (s : Sender) : Int := (s.peerMaxFrameSize.toNat : Int) - maxTransferFrameHeader

/-- The delivery tag of a message: its own, or else the counter as eight bytes. -/
def takeDeliveryTag (msg : Message) : IntoM Sender Bytes := do
  if (msg.deliveryTag.getD []).isEmpty then
    let s ← get
    set ({ s.1 with nextDeliveryTag := s.1.nextDeliveryTag + 1 }, s.2)
    pure (be64 s.1.nextDeliveryTag)
  else pure (msg.deliveryTag.getD [])

/-- `atomic.AddUint32(&nextDeliveryID, 1)`. -/
def takeDeliveryID : IntoM Sender UInt32 := do
  let s ← get
  set ({ s.1 with nextDeliveryID := s.1.nextDeliveryID + 1 }, s.2)
  pure (s.1.nextDeliveryID + 1)

/-- The last transfer is the one that can be settled and has a `Done` channel. -/
def finish (senderSettled : Bool) (fr : PerformTransfer) : IntoM Sender PerformTransfer := do
  if fr.more then pure fr
  else
    let s ← get
    set ({ s.1 with channels := s.1.channels + 1 }, s.2)
    pure { fr with settled := senderSettled, done := some s.1.channels }

/-- `s.transfers <- fr`. -/
def push (fr : PerformTransfer) : IntoM Sender Unit :=
  modify fun s => ({ s.1 with transfers := s.1.transfers ++ [fr] }, s.2)

/-- `for fr.More { ... }`. The loop ends because every round takes a byte out of the buffer, as long
    as payloads are not empty. -/
def sendLoop (maxPayloadSize : Int) (senderSettled : Bool) :
    Nat → PerformTransfer → IntoM Sender (Option Nat)
  | 0, _ => throw .depth
  | bound + 1, fr =>
    if fr.more then do
      let buf ← onBuffer (nextSigned maxPayloadSize)
      let left ← onBuffer len
      let fr ← finish senderSettled { fr with payload := buf, more := decide (left > 0) }
      push fr
      sendLoop maxPayloadSize senderSettled bound
        { fr with deliveryID := none, deliveryTag := none, messageFormat := none }
    else pure fr.done

/-- The part of `send` that follows the checks, with the encoded message in the buffer. -/
def sendEncoded (msg : Message) : IntoM Sender (Option Nat) := do
  let s ← get
  let deliveryID ← takeDeliveryID
  let deliveryTag ← takeDeliveryTag msg
  let left ← onBuffer len
  sendLoop s.1.maxPayloadSize (s.1.senderSettled msg) (left + 2) { PerformTransfer.zero with
    handle := s.1.handle
    deliveryID := some deliveryID
    deliveryTag := some deliveryTag
    messageFormat := some msg.format
    more := decide (left > 0) }

/-- The size check of `send`, with the encoded message in the buffer. -/
def checkSize : IntoM Sender Unit := do
  let s ← get
  let left ← onBuffer len
  if s.1.maxMessageSize ≠ 0 ∧ left > s.1.maxMessageSize.toNat then
    fail (s!"encoded message size exceeds max of {s.1.maxMessageSize.toNat}")
  else pure ()

/-- `Sender.send`: the message is encoded, given a delivery-id and a tag, and cut into transfers; the result is the
    `Done` channel of the last. -/
def send (msg : Message) : IntoM Sender (Option Nat) :=
  if (msg.deliveryTag.getD []).length > maxDeliveryTagLength then
    fail (s!"delivery tag is over the allowed {maxDeliveryTagLength} bytes, len: {(msg.deliveryTag.getD []).length}")
  else do
    modify fun s => (s.1, reset s.2)
    onBuffer msg.marshal
    checkSize
    sendEncoded msg

/-- One `send` after the other, collecting the transfers of each. The other senders of the session
    share the delivery-id counter, which each message therefore finds at an arbitrary value. -/
def sendAll : List (UInt32 × Message) → IntoM Sender (List (List PerformTransfer))
  | [] => pure []
  | (nextDeliveryID, msg) :: msgs => do
    modify fun s => ({ s.1 with nextDeliveryID := nextDeliveryID, transfers := [] }, s.2)
    let _ ← send msg
    let s ← get
    let rest ← sendAll msgs
    pure (s.1.transfers :: rest)

end Sender

end GoAmqp
