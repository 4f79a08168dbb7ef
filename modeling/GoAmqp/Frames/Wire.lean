import GoAmqp.Frames.Types
import GoAmqp.Encoding.Wire

set_option autoImplicit false

/-! # The wire format of frames

For every performative its encoding, the value that the encoding stands for, and which bodies the
format carries. A body loses in normalisation only what the wire has no place for: the difference
between an empty and a missing delivery tag, the default expiry policy, the initial delivery count of
a receiver, and the `Done` channel of a transfer; the values inside are normalised as `Value.norm`
does. -/

namespace GoAmqp

open Lib TypeCode

/-! ## Fields -/

def encodeUshort (n : UInt16) : Bytes := ushort :: be16 n

def encodeUbyte (n : UInt8) : Bytes := [ubyte, n]

/-- Milliseconds as the encoder truncates them. -/
def encodeMilliseconds (d : Duration) : Bytes := encodeUint32 (d / 1000000).toUInt64.toUInt32

def encodeSymbols : List Bytes → Bytes := encodeVariableArray sym8 sym32

def encodeSymbolMap (m : SymbolMap) : Bytes := encodeMap m.length (encodeSymbolEntries m)

def encodeUnsettledEntry (e : Bytes × Option (DeliveryState Value)) : Bytes :=
  encodeString e.1 ++ (e.2.map encodeState).getD [TypeCode.null]

def encodeUnsettled (u : Unsettled) : Bytes := encodeMap u.length (u.flatMap encodeUnsettledEntry)

/-- An entry that is set is a described type. -/
def encodeFilterEntry (e : Bytes × Option (Value × Value)) : Bytes :=
  encodeSymbol e.1 ++ (e.2.map fun d => 0x0 :: (encode d.1 ++ encode d.2)).getD []

def encodeFilter (f : Filter) : Bytes := encodeMap f.length (f.flatMap encodeFilterEntry)

def normUnsettled (u : Unsettled) : Unsettled := u.map fun e => (e.1, e.2.map normState)

def normFilter (f : Filter) : Filter := f.map fun e => (e.1, e.2.map fun d => (d.1.norm, d.2.norm))

def codableSymbols (a : List Bytes) : Bool := a.all fun s => !s.isEmpty

def codableSymbolMap (m : SymbolMap) : Bool := codableValues m && distinctStrings m

def codableUnsettled (u : Unsettled) : Bool :=
  u.all (fun e => validUtf8 e.1 && e.2.all codableState) && decide (u.map Prod.fst).Nodup

def codableFilterEntry : Option (Value × Value) → Bool
  | none => false
  | some (d, v) => d.codable && v.codable

def codableFilter (f : Filter) : Bool := f.all (fun e => codableFilterEntry e.2) && decide (f.map Prod.fst).Nodup

/-- A whole number of milliseconds that fits in 32 bits. -/
def codableMilliseconds (d : Duration) : Bool :=
  decide (0 ≤ d.toInt) && d.toInt % 1000000 == 0 && decide (d.toInt / 1000000 < 2 ^ 32)

def codableExpiryPolicy (e : ExpiryPolicy) : Bool := e.isEmpty || e.valid

def normExpiryPolicy (e : ExpiryPolicy) : ExpiryPolicy := if e.isEmpty then .sessionEnd else e

/-! ## Source and target -/

def Source.encode (s : Source) : Bytes := encodeComposite TypeCode.source [
  fieldUnless s.address.isEmpty (encodeString s.address),
  fieldUnless (s.durable == 0) (encodeUint32 s.durable),
  fieldUnless s.expiryPolicy.isDefault (encodeSymbol s.expiryPolicy),
  fieldUnless (s.timeout == 0) (encodeUint32 s.timeout),
  fieldUnless (!s.dynamic) (encodeBool s.dynamic),
  fieldUnless s.dynamicNodeProperties.isEmpty (encodeSymbolMap s.dynamicNodeProperties),
  fieldUnless s.distributionMode.isEmpty (encodeSymbol s.distributionMode),
  fieldUnless s.filter.isEmpty (encodeFilter s.filter),
  none,
  fieldUnless s.outcomes.isEmpty (encodeSymbols s.outcomes),
  fieldUnless s.capabilities.isEmpty (encodeSymbols s.capabilities)]

def Source.norm (s : Source) : Source := { s with
  expiryPolicy := normExpiryPolicy s.expiryPolicy
  dynamicNodeProperties := normStringEntries s.dynamicNodeProperties
  filter := normFilter s.filter }

def Source.codable (s : Source) : Bool :=
  validUtf8 s.address && codableExpiryPolicy s.expiryPolicy
    && codableSymbolMap s.dynamicNodeProperties && codableFilter s.filter && s.defaultOutcome.isNil
    && codableSymbols s.outcomes && codableSymbols s.capabilities

def Target.encode (t : Target) : Bytes := encodeComposite TypeCode.target [
  fieldUnless t.address.isEmpty (encodeString t.address),
  fieldUnless (t.durable == 0) (encodeUint32 t.durable),
  fieldUnless t.expiryPolicy.isDefault (encodeSymbol t.expiryPolicy),
  fieldUnless (t.timeout == 0) (encodeUint32 t.timeout),
  fieldUnless (!t.dynamic) (encodeBool t.dynamic),
  fieldUnless t.dynamicNodeProperties.isEmpty (encodeSymbolMap t.dynamicNodeProperties),
  fieldUnless t.capabilities.isEmpty (encodeSymbols t.capabilities)]

def Target.norm (t : Target) : Target := { t with
  expiryPolicy := normExpiryPolicy t.expiryPolicy
  dynamicNodeProperties := normStringEntries t.dynamicNodeProperties }

def Target.codable (t : Target) : Bool :=
  validUtf8 t.address && codableExpiryPolicy t.expiryPolicy
    && codableSymbolMap t.dynamicNodeProperties && codableSymbols t.capabilities

/-! ## Performatives -/

def PerformOpen.encode (o : PerformOpen) : Bytes := encodeComposite TypeCode.open_ [
  some (encodeString o.containerID),
  fieldUnless o.hostname.isEmpty (encodeString o.hostname),
  fieldUnless (o.maxFrameSize == 4294967295) (encodeUint32 o.maxFrameSize),
  fieldUnless (o.channelMax == 65535) (encodeUshort o.channelMax),
  fieldUnless (o.idleTimeout == 0) (encodeMilliseconds o.idleTimeout),
  fieldUnless o.outgoingLocales.isEmpty (encodeSymbols o.outgoingLocales),
  fieldUnless o.incomingLocales.isEmpty (encodeSymbols o.incomingLocales),
  fieldUnless o.offeredCapabilities.isEmpty (encodeSymbols o.offeredCapabilities),
  fieldUnless o.desiredCapabilities.isEmpty (encodeSymbols o.desiredCapabilities),
  fieldUnless o.properties.isEmpty (encodeSymbolMap o.properties)]

def PerformOpen.norm (o : PerformOpen) : PerformOpen := { o with properties := normStringEntries o.properties }

def PerformOpen.codable (o : PerformOpen) : Bool :=
  validUtf8 o.containerID && validUtf8 o.hostname && codableMilliseconds o.idleTimeout
    && codableSymbols o.outgoingLocales && codableSymbols o.incomingLocales
    && codableSymbols o.offeredCapabilities && codableSymbols o.desiredCapabilities
    && codableSymbolMap o.properties

def PerformBegin.encode (b : PerformBegin) : Bytes := encodeComposite TypeCode.begin_ [
  b.remoteChannel.map encodeUshort,
  some (encodeUint32 b.nextOutgoingID),
  some (encodeUint32 b.incomingWindow),
  some (encodeUint32 b.outgoingWindow),
  fieldUnless (b.handleMax == 4294967295) (encodeUint32 b.handleMax),
  fieldUnless b.offeredCapabilities.isEmpty (encodeSymbols b.offeredCapabilities),
  fieldUnless b.desiredCapabilities.isEmpty (encodeSymbols b.desiredCapabilities),
  b.properties.map encodeSymbolMap]

def PerformBegin.norm (b : PerformBegin) : PerformBegin := { b with properties := b.properties.map normStringEntries }

def PerformBegin.codable (b : PerformBegin) : Bool :=
  codableSymbols b.offeredCapabilities && codableSymbols b.desiredCapabilities
    && b.properties.all codableSymbolMap

def PerformAttach.encode (a : PerformAttach) : Bytes := encodeComposite TypeCode.attach [
  some (encodeString a.name),
  some (encodeUint32 a.handle),
  some (encodeBool a.role),
  a.senderSettleMode.map encodeUbyte,
  a.receiverSettleMode.map encodeUbyte,
  a.source.map Source.encode,
  a.target.map Target.encode,
  fieldUnless a.unsettled.isEmpty (encodeUnsettled a.unsettled),
  fieldUnless (!a.incompleteUnsettled) (encodeBool a.incompleteUnsettled),
  fieldUnless (a.role == .receiver) (encodeUint32 a.initialDeliveryCount),
  fieldUnless (a.maxMessageSize == 0) (encodeUint64 a.maxMessageSize),
  fieldUnless a.offeredCapabilities.isEmpty (encodeSymbols a.offeredCapabilities),
  fieldUnless a.desiredCapabilities.isEmpty (encodeSymbols a.desiredCapabilities),
  fieldUnless a.properties.isEmpty (encodeSymbolMap a.properties)]

def PerformAttach.norm (a : PerformAttach) : PerformAttach := { a with
  source := a.source.map Source.norm
  target := a.target.map Target.norm
  unsettled := normUnsettled a.unsettled
  initialDeliveryCount := if a.role == .receiver then 0 else a.initialDeliveryCount
  properties := normStringEntries a.properties }

def PerformAttach.codable (a : PerformAttach) : Bool :=
  validUtf8 a.name && a.source.all Source.codable && a.target.all Target.codable
    && codableUnsettled a.unsettled && codableSymbols a.offeredCapabilities
    && codableSymbols a.desiredCapabilities && codableSymbolMap a.properties

def PerformFlow.encode (f : PerformFlow) : Bytes := encodeComposite TypeCode.flow [
  f.nextIncomingID.map encodeUint32,
  some (encodeUint32 f.incomingWindow),
  some (encodeUint32 f.nextOutgoingID),
  some (encodeUint32 f.outgoingWindow),
  f.handle.map encodeUint32,
  f.deliveryCount.map encodeUint32,
  f.linkCredit.map encodeUint32,
  f.available.map encodeUint32,
  fieldUnless (!f.drain) (encodeBool f.drain),
  fieldUnless (!f.echo) (encodeBool f.echo),
  fieldUnless f.properties.isEmpty (encodeSymbolMap f.properties)]

def PerformFlow.norm (f : PerformFlow) : PerformFlow := { f with properties := normStringEntries f.properties }

def PerformFlow.codable (f : PerformFlow) : Bool := codableSymbolMap f.properties

def PerformTransfer.encodeComposite (t : PerformTransfer) : Bytes :=
  GoAmqp.encodeComposite TypeCode.transfer [
    some (encodeUint32 t.handle),
    t.deliveryID.map encodeUint32,
    fieldUnless (t.deliveryTag.getD []).isEmpty (encodeBinary (t.deliveryTag.getD [])),
    t.messageFormat.map encodeUint32,
    fieldUnless (!t.settled) (encodeBool t.settled),
    fieldUnless (!t.more) (encodeBool t.more),
    t.receiverSettleMode.map encodeUbyte,
    t.state.map encodeState,
    fieldUnless (!t.resume) (encodeBool t.resume),
    fieldUnless (!t.aborted) (encodeBool t.aborted),
    fieldUnless (!t.batchable) (encodeBool t.batchable)]

def PerformTransfer.encode (t : PerformTransfer) : Bytes := t.encodeComposite ++ t.payload

def PerformTransfer.norm (t : PerformTransfer) : PerformTransfer := { t with
  deliveryTag := t.deliveryTag.filter fun tag => !tag.isEmpty
  state := t.state.map normState
  done := none }

def PerformTransfer.codable (t : PerformTransfer) : Bool := t.state.all codableState

def PerformDisposition.encode (d : PerformDisposition) : Bytes :=
  encodeComposite TypeCode.disposition [
    some (encodeBool d.role),
    some (encodeUint32 d.first),
    d.last.map encodeUint32,
    fieldUnless (!d.settled) (encodeBool d.settled),
    d.state.map encodeState,
    fieldUnless (!d.batchable) (encodeBool d.batchable)]

def PerformDisposition.norm (d : PerformDisposition) : PerformDisposition := { d with state := d.state.map normState }

def PerformDisposition.codable (d : PerformDisposition) : Bool := d.state.all codableState

def PerformDetach.encode (d : PerformDetach) : Bytes := encodeComposite TypeCode.detach [
  some (encodeUint32 d.handle),
  fieldUnless (!d.closed) (encodeBool d.closed),
  d.error.map encodeError]

def PerformDetach.norm (d : PerformDetach) : PerformDetach := { d with error := d.error.map normError }

def PerformEnd.encode (e : PerformEnd) : Bytes := encodeComposite TypeCode.end_ [e.error.map encodeError]

def PerformClose.encode (c : PerformClose) : Bytes := encodeComposite TypeCode.close [c.error.map encodeError]

def SASLMechanisms.encode (sm : SASLMechanisms) : Bytes :=
  encodeComposite saslMechanism [some (encodeSymbols sm.mechanisms)]

def SASLChallenge.encode (sc : SASLChallenge) : Bytes :=
  encodeComposite saslChallenge [some (encodeBinary sc.challenge)]

def SASLOutcome.encode (so : SASLOutcome) : Bytes := encodeComposite saslOutcome [
  some (encodeUbyte so.code),
  fieldUnless so.additionalData.isEmpty (encodeBinary so.additionalData)]

/-! ## Frame bodies -/

/-- The bytes of a frame body. -/
def FrameBody.encode : FrameBody → Bytes
  | .open_ b => b.encode
  | .begin_ b => b.encode
  | .attach b => b.encode
  | .flow b => b.encode
  | .transfer b => b.encode
  | .disposition b => b.encode
  | .detach b => b.encode
  | .end_ b => b.encode
  | .close b => b.encode
  | .saslMechanisms b => b.encode
  | .saslChallenge b => b.encode
  | .saslOutcome b => b.encode
  -- not `codable`: the parser has no case for them
  | .saslInit _ | .saslResponse _ => []

/-- The frame body that is read back. -/
def FrameBody.norm : FrameBody → FrameBody
  | .open_ b => .open_ b.norm
  | .begin_ b => .begin_ b.norm
  | .attach b => .attach b.norm
  | .flow b => .flow b.norm
  | .transfer b => .transfer b.norm
  | .disposition b => .disposition b.norm
  | .detach b => .detach b.norm
  | .end_ b => .end_ ⟨b.error.map normError⟩
  | .close b => .close ⟨b.error.map normError⟩
  | b => b

/-- The frame body reads back. -/
def FrameBody.codable : FrameBody → Bool
  | .open_ b => b.codable
  | .begin_ b => b.codable
  | .attach b => b.codable
  | .flow b => b.codable
  | .transfer b => b.codable
  | .disposition b => b.codable
  | .detach b => b.error.all codableError
  | .end_ b => b.error.all codableError
  | .close b => b.error.all codableError
  | .saslMechanisms b => codableSymbols b.mechanisms
  | .saslChallenge _ | .saslOutcome _ => true
  | .saslInit _ | .saslResponse _ => false

end GoAmqp
