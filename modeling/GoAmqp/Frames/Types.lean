import GoAmqp.Encoding.Decode

set_option autoImplicit false

/-! # Performatives (`internal/frames/frames.go`)

The frame bodies, each with its `Marshal` and `Unmarshal`. A pointer field is an `Option`; a slice or
map that the code only tests for being empty is a list. Where the code tells nil from empty
(`PerformBegin.Properties`, a delivery tag) the field is an `Option`.

`String` methods are not modelled. The `Done` channel of a transfer is a number that names the
channel; it is never on the wire. -/

namespace GoAmqp

open Lib Buffer TypeCode

/-! ## Field types of `internal/encoding/types.go` -/

/-- `encoding.Role`: false for the sender. -/
abbrev Role := Bool
def Role.sender : Role := false
def Role.receiver : Role := true

/-- `encoding.SenderSettleMode`; any byte is decoded. -/
abbrev SenderSettleMode := UInt8
def SenderSettleMode.unsettled : SenderSettleMode := 0
def SenderSettleMode.settled : SenderSettleMode := 1
def SenderSettleMode.mixed : SenderSettleMode := 2

/-- `encoding.ReceiverSettleMode`; any byte is decoded. -/
abbrev ReceiverSettleMode := UInt8
def ReceiverSettleMode.first : ReceiverSettleMode := 0
def ReceiverSettleMode.second : ReceiverSettleMode := 1

abbrev Durability := UInt32

abbrev ExpiryPolicy := Bytes
def ExpiryPolicy.linkDetach : ExpiryPolicy := ascii "link-detach"
def ExpiryPolicy.sessionEnd : ExpiryPolicy := ascii "session-end"
def ExpiryPolicy.connectionClose : ExpiryPolicy := ascii "connection-close"
def ExpiryPolicy.never : ExpiryPolicy := ascii "never"

def ExpiryPolicy.valid (e : ExpiryPolicy) : Bool :=
  e == linkDetach || e == sessionEnd || e == connectionClose || e == never

/-- The text `%q` gives for a string of printable ASCII characters; other bytes are escaped. -/
def quote (s : Bytes) : String :=
  let one (b : UInt8) : String :=
    if b = 0x22 then "\\\"" else if b = 0x5c then "\\\\"
    else if 0x20 ≤ b ∧ b < 0x7f then String.ofList [Char.ofNat b.toNat] else "\\x" ++ hex2 b
  "\"" ++ String.join (s.map one) ++ "\""

/-- Symbol-keyed maps (`map[Symbol]any`). -/
abbrev SymbolMap := List (Bytes × Value)

/-- The unsettled map of an attach; a state may be nil. -/
abbrev Unsettled := List (Bytes × Option (DeliveryState Value))

/-- A filter set; an entry may be a nil pointer. -/
abbrev Filter := List (Bytes × Option (Value × Value))

/-! ## Writing fields -/

def marshalUint16 (n : UInt16) : BufM Unit := do
  appendByte ushort
  appendUint16 n

def marshalUint8 (n : UInt8) : BufM Unit := appendBytes [ubyte, n]

/-- `Marshal` of a `map[Symbol]any`. -/
def marshalSymbolMap (m : SymbolMap) : BufM Unit := writeMap m.length (marshalSymbolEntries m)

/-- A field that is a pointer: left out when nil. -/
def ptrField {α : Type} (write : α → BufM Unit) : Option α → MarshalField
  | none => { value := throw .nilDeref, omitted := true }
  | some a => { value := write a, omitted := false }

/-- `writeMap` over an `Unsettled`. -/
def marshalUnsettled (u : Unsettled) : BufM Unit := writeMap u.length <| u.forM fun e => do
  writeString e.1
  match e.2 with
  | none => appendByte TypeCode.null
  | some s => marshalState s

/-- `writeMap` over a `Filter`. -/
def marshalFilter (f : Filter) : BufM Unit := writeMap f.length <| f.forM fun e => do
  marshalSymbol e.1
  match e.2 with
  | none => throw .nilDeref
  | some d => marshal (.described d.1 d.2)

/-! ## Reading fields -/

/-- Read a value into the variable itself. -/
def store {α : Type} (read : BufM α) : IntoM α Unit := do
  let a ← onBuffer read
  modify fun s => (a, s.2)

/-- `n, err := read(r); *t = n; return err` on the variable itself. -/
def storeAlways {α : Type} (read : BufM α) (zero : α) : IntoM α Unit := fun s =>
  match read.run s.2 with
  | .ok a r => .ok () (a, r)
  | .error e r => .error e (zero, r)

/-- The nanoseconds of `n` milliseconds, as `Milliseconds.Unmarshal` computes them. -/
def durationOfMillis (n : UInt64) : Duration := n.toInt64 * 1000000

def unmarshalMilliseconds : BufM Duration := durationOfMillis <$> readUintValue

/-- `ExpiryPolicy.Unmarshal`: the policy is assigned before it is validated. -/
def unmarshalExpiryPolicy : IntoM ExpiryPolicy Unit := do
  store readString
  let s ← get
  if ExpiryPolicy.valid s.1 then pure () else fail ("unknown expiry-policy " ++ quote s.1)

/-- `Unsettled.Unmarshal`. -/
def unmarshalUnsettled : BufM Unsettled := unmarshalMap fun m => do
  let key ← readString
  if ← tryReadNull then pure (mapAssign (· == ·) key none m)
  else
    let value ← unmarshalDeliveryState readAny
    pure (mapAssign (· == ·) key (some value) m)

/-- `Filter.Unmarshal`; a null entry is read as a described type with nil fields. -/
def unmarshalFilter : BufM Filter := unmarshalMap fun m => do
  let key ← readString
  if ← tryReadNull then pure (mapAssign (· == ·) key (some (.nil, .nil)) m)
  else
    let value ← unmarshalDescribed readAny
    pure (mapAssign (· == ·) key (some value) m)

/-- `Unmarshal` into an `any`. -/
def assignAnyField {σ : Type} (put : Value → σ → σ) : IntoM σ Unit := assign readAny put

def errorField {σ : Type} (part : σ → Option (AmqpError Value))
    (put : Option (AmqpError Value) → σ → σ) : UnmarshalField σ :=
  { field := assignPtr part put zeroError (unmarshalError readAny) }

/-! ## Source and target -/

/-- The source of a link. -/
structure Source where
  address : Bytes
  durable : Durability
  expiryPolicy : ExpiryPolicy
  timeout : UInt32
  dynamic : Bool
  dynamicNodeProperties : SymbolMap
  distributionMode : Bytes
  filter : Filter
  defaultOutcome : Value
  outcomes : List Bytes
  capabilities : List Bytes

/-- Whether a terminus leaves its expiry policy out. -/
def ExpiryPolicy.isDefault (e : ExpiryPolicy) : Bool := e.isEmpty || e == sessionEnd

/-- Whether an `any` is nil. -/
def Value.isNil : Value → Bool
  | .nil => true
  | _ => false

def Source.marshal (s : Source) : BufM Unit := marshalComposite TypeCode.source [
  { value := writeString s.address, omitted := s.address.isEmpty },
  { value := writeUint32 s.durable, omitted := s.durable == 0 },
  { value := marshalSymbol s.expiryPolicy, omitted := s.expiryPolicy.isDefault },
  { value := writeUint32 s.timeout, omitted := s.timeout == 0 },
  { value := writeBool s.dynamic, omitted := !s.dynamic },
  { value := marshalSymbolMap s.dynamicNodeProperties, omitted := s.dynamicNodeProperties.isEmpty },
  { value := marshalSymbol s.distributionMode, omitted := s.distributionMode.isEmpty },
  { value := marshalFilter s.filter, omitted := s.filter.isEmpty },
  -- the field is passed as a pointer to an interface, which `Marshal` does not handle
  { value := fail "marshal not implemented for *interface \x7b\x7d",
    omitted := s.defaultOutcome.isNil },
  { value := marshalArraySymbol s.outcomes, omitted := s.outcomes.isEmpty },
  { value := marshalArraySymbol s.capabilities, omitted := s.capabilities.isEmpty }]

def Source.zero : Source := ⟨[], 0, [], 0, false, [], [], [], .nil, [], []⟩

def Source.unmarshal : IntoM Source Unit := unmarshalComposite TypeCode.source [
  { field := assign readString fun v s => { s with address := v } },
  { field := assign readUint32Value fun v s => { s with durable := v } },
  { field := orNull (zoom Source.expiryPolicy (fun v s => { s with expiryPolicy := v })
      unmarshalExpiryPolicy),
    handleNull := default_ fun s => { s with expiryPolicy := .sessionEnd } },
  { field := assign readUint32Value fun v s => { s with timeout := v } },
  { field := assign readBool fun v s => { s with dynamic := v } },
  { field := assign (unmarshalMapStringAny readAny) fun v s =>
      { s with dynamicNodeProperties := v } },
  { field := assign readString fun v s => { s with distributionMode := v } },
  { field := assign unmarshalFilter fun v s => { s with filter := v } },
  { field := assignAnyField fun v s => { s with defaultOutcome := v } },
  { field := assign unmarshalMultiSymbol fun v s => { s with outcomes := v } },
  { field := assign unmarshalMultiSymbol fun v s => { s with capabilities := v } }]

/-- The target of a link. -/
structure Target where
  address : Bytes
  durable : Durability
  expiryPolicy : ExpiryPolicy
  timeout : UInt32
  dynamic : Bool
  dynamicNodeProperties : SymbolMap
  capabilities : List Bytes

def Target.marshal (t : Target) : BufM Unit := marshalComposite TypeCode.target [
  { value := writeString t.address, omitted := t.address.isEmpty },
  { value := writeUint32 t.durable, omitted := t.durable == 0 },
  { value := marshalSymbol t.expiryPolicy, omitted := t.expiryPolicy.isDefault },
  { value := writeUint32 t.timeout, omitted := t.timeout == 0 },
  { value := writeBool t.dynamic, omitted := !t.dynamic },
  { value := marshalSymbolMap t.dynamicNodeProperties, omitted := t.dynamicNodeProperties.isEmpty },
  { value := marshalArraySymbol t.capabilities, omitted := t.capabilities.isEmpty }]

def Target.zero : Target := ⟨[], 0, [], 0, false, [], []⟩

def Target.unmarshal : IntoM Target Unit := unmarshalComposite TypeCode.target [
  { field := assign readString fun v t => { t with address := v } },
  { field := assign readUint32Value fun v t => { t with durable := v } },
  { field := orNull (zoom Target.expiryPolicy (fun v t => { t with expiryPolicy := v })
      unmarshalExpiryPolicy),
    handleNull := default_ fun t => { t with expiryPolicy := .sessionEnd } },
  { field := assign readUint32Value fun v t => { t with timeout := v } },
  { field := assign readBool fun v t => { t with dynamic := v } },
  { field := assign (unmarshalMapStringAny readAny) fun v t =>
      { t with dynamicNodeProperties := v } },
  { field := assign unmarshalMultiSymbol fun v t => { t with capabilities := v } }]

/-! ## Connection performatives -/

/-- Open: the limits of a connection. -/
structure PerformOpen where
  containerID : Bytes
  hostname : Bytes
  maxFrameSize : UInt32
  channelMax : UInt16
  idleTimeout : Duration
  outgoingLocales : List Bytes
  incomingLocales : List Bytes
  offeredCapabilities : List Bytes
  desiredCapabilities : List Bytes
  properties : SymbolMap

def PerformOpen.marshal (o : PerformOpen) : BufM Unit := marshalComposite TypeCode.open_ [
  { value := writeString o.containerID, omitted := false },
  { value := writeString o.hostname, omitted := o.hostname.isEmpty },
  { value := writeUint32 o.maxFrameSize, omitted := o.maxFrameSize == 4294967295 },
  { value := marshalUint16 o.channelMax, omitted := o.channelMax == 65535 },
  { value := marshalMilliseconds o.idleTimeout, omitted := o.idleTimeout == 0 },
  { value := marshalArraySymbol o.outgoingLocales, omitted := o.outgoingLocales.isEmpty },
  { value := marshalArraySymbol o.incomingLocales, omitted := o.incomingLocales.isEmpty },
  { value := marshalArraySymbol o.offeredCapabilities, omitted := o.offeredCapabilities.isEmpty },
  { value := marshalArraySymbol o.desiredCapabilities, omitted := o.desiredCapabilities.isEmpty },
  { value := marshalSymbolMap o.properties, omitted := o.properties.isEmpty }]

def PerformOpen.zero : PerformOpen := ⟨[], [], 0, 0, 0, [], [], [], [], []⟩

def PerformOpen.unmarshal : IntoM PerformOpen Unit := unmarshalComposite TypeCode.open_ [
  { field := assign readString fun v o => { o with containerID := v },
    handleNull := required "Open.ContainerID is required" },
  { field := assign readString fun v o => { o with hostname := v } },
  { field := assign readUint32Value fun v o => { o with maxFrameSize := v },
    handleNull := default_ fun o => { o with maxFrameSize := 4294967295 } },
  { field := assign readUshort fun v o => { o with channelMax := v },
    handleNull := default_ fun o => { o with channelMax := 65535 } },
  { field := assignAlways unmarshalMilliseconds 0 fun v o => { o with idleTimeout := v } },
  { field := assign unmarshalMultiSymbol fun v o => { o with outgoingLocales := v } },
  { field := assign unmarshalMultiSymbol fun v o => { o with incomingLocales := v } },
  { field := assign unmarshalMultiSymbol fun v o => { o with offeredCapabilities := v } },
  { field := assign unmarshalMultiSymbol fun v o => { o with desiredCapabilities := v } },
  { field := assign (unmarshalMapStringAny readAny) fun v o => { o with properties := v } }]

/-- Close: the end of a connection. -/
structure PerformClose where
  error : Option (AmqpError Value)

def PerformClose.marshal (c : PerformClose) : BufM Unit :=
  marshalComposite TypeCode.close [ptrField marshalError c.error]

def PerformClose.unmarshal : IntoM PerformClose Unit :=
  unmarshalComposite TypeCode.close [errorField PerformClose.error fun v c => { c with error := v }]

/-! ## Session performatives -/

/-- Begin: the windows of a session. -/
structure PerformBegin where
  remoteChannel : Option UInt16
  nextOutgoingID : UInt32
  incomingWindow : UInt32
  outgoingWindow : UInt32
  handleMax : UInt32
  offeredCapabilities : List Bytes
  desiredCapabilities : List Bytes
  properties : Option SymbolMap

def PerformBegin.marshal (b : PerformBegin) : BufM Unit := marshalComposite TypeCode.begin_ [
  ptrField marshalUint16 b.remoteChannel,
  { value := writeUint32 b.nextOutgoingID, omitted := false },
  { value := writeUint32 b.incomingWindow, omitted := false },
  { value := writeUint32 b.outgoingWindow, omitted := false },
  { value := writeUint32 b.handleMax, omitted := b.handleMax == 4294967295 },
  { value := marshalArraySymbol b.offeredCapabilities, omitted := b.offeredCapabilities.isEmpty },
  { value := marshalArraySymbol b.desiredCapabilities, omitted := b.desiredCapabilities.isEmpty },
  ptrField marshalSymbolMap b.properties]

def PerformBegin.zero : PerformBegin := ⟨none, 0, 0, 0, 0, [], [], none⟩

def PerformBegin.unmarshal : IntoM PerformBegin Unit := unmarshalComposite TypeCode.begin_ [
  { field := assignPtr PerformBegin.remoteChannel (fun v b => { b with remoteChannel := v }) 0
      (store readUshort) },
  { field := assign readUint32Value fun v b => { b with nextOutgoingID := v },
    handleNull := required "Begin.NextOutgoingID is required" },
  { field := assign readUint32Value fun v b => { b with incomingWindow := v },
    handleNull := required "Begin.IncomingWindow is required" },
  { field := assign readUint32Value fun v b => { b with outgoingWindow := v },
    handleNull := required "Begin.OutgoingWindow is required" },
  { field := assign readUint32Value fun v b => { b with handleMax := v },
    handleNull := default_ fun b => { b with handleMax := 4294967295 } },
  { field := assign unmarshalMultiSymbol fun v b => { b with offeredCapabilities := v } },
  { field := assign unmarshalMultiSymbol fun v b => { b with desiredCapabilities := v } },
  { field := assign (unmarshalMapStringAny readAny) fun v b => { b with properties := some v } }]

/-- End: the end of a session. -/
structure PerformEnd where
  error : Option (AmqpError Value)

def PerformEnd.marshal (e : PerformEnd) : BufM Unit := marshalComposite TypeCode.end_ [ptrField marshalError e.error]

def PerformEnd.unmarshal : IntoM PerformEnd Unit :=
  unmarshalComposite TypeCode.end_ [errorField PerformEnd.error fun v e => { e with error := v }]

/-! ## Link performatives -/

/-- Attach: the two ends of a link. -/
structure PerformAttach where
  name : Bytes
  handle : UInt32
  role : Role
  senderSettleMode : Option SenderSettleMode
  receiverSettleMode : Option ReceiverSettleMode
  source : Option Source
  target : Option Target
  unsettled : Unsettled
  incompleteUnsettled : Bool
  initialDeliveryCount : UInt32
  maxMessageSize : UInt64
  offeredCapabilities : List Bytes
  desiredCapabilities : List Bytes
  properties : SymbolMap

def PerformAttach.marshal (a : PerformAttach) : BufM Unit := marshalComposite TypeCode.attach [
  { value := writeString a.name, omitted := false },
  { value := writeUint32 a.handle, omitted := false },
  { value := writeBool a.role, omitted := false },
  ptrField marshalUint8 a.senderSettleMode,
  ptrField marshalUint8 a.receiverSettleMode,
  ptrField Source.marshal a.source,
  ptrField Target.marshal a.target,
  { value := marshalUnsettled a.unsettled, omitted := a.unsettled.isEmpty },
  { value := writeBool a.incompleteUnsettled, omitted := !a.incompleteUnsettled },
  { value := writeUint32 a.initialDeliveryCount, omitted := a.role == .receiver },
  { value := writeUint64 a.maxMessageSize, omitted := a.maxMessageSize == 0 },
  { value := marshalArraySymbol a.offeredCapabilities, omitted := a.offeredCapabilities.isEmpty },
  { value := marshalArraySymbol a.desiredCapabilities, omitted := a.desiredCapabilities.isEmpty },
  { value := marshalSymbolMap a.properties, omitted := a.properties.isEmpty }]

def PerformAttach.zero : PerformAttach := ⟨[], 0, false, none, none, none, none, [], false, 0, 0, [], [], []⟩

def PerformAttach.unmarshal : IntoM PerformAttach Unit := unmarshalComposite TypeCode.attach [
  { field := assign readString fun v a => { a with name := v },
    handleNull := required "Attach.Name is required" },
  { field := assign readUint32Value fun v a => { a with handle := v },
    handleNull := required "Attach.Handle is required" },
  { field := assignAlways readBool false fun v a => { a with role := v },
    handleNull := required "Attach.Role is required" },
  { field := assignPtr PerformAttach.senderSettleMode (fun v a => { a with senderSettleMode := v })
      0 (storeAlways readUbyte 0) },
  { field := assignPtr PerformAttach.receiverSettleMode
      (fun v a => { a with receiverSettleMode := v }) 0 (storeAlways readUbyte 0) },
  { field := assignPtr PerformAttach.source (fun v a => { a with source := v }) .zero
      Source.unmarshal },
  { field := assignPtr PerformAttach.target (fun v a => { a with target := v }) .zero
      Target.unmarshal },
  { field := assign unmarshalUnsettled fun v a => { a with unsettled := v } },
  { field := assign readBool fun v a => { a with incompleteUnsettled := v } },
  { field := assign readUint32Value fun v a => { a with initialDeliveryCount := v } },
  { field := assign readUlong fun v a => { a with maxMessageSize := v } },
  { field := assign unmarshalMultiSymbol fun v a => { a with offeredCapabilities := v } },
  { field := assign unmarshalMultiSymbol fun v a => { a with desiredCapabilities := v } },
  { field := assign (unmarshalMapStringAny readAny) fun v a => { a with properties := v } }]

/-- Flow: the state of a session, and of a link if it has a handle. -/
structure PerformFlow where
  nextIncomingID : Option UInt32
  incomingWindow : UInt32
  nextOutgoingID : UInt32
  outgoingWindow : UInt32
  handle : Option UInt32
  deliveryCount : Option UInt32
  linkCredit : Option UInt32
  available : Option UInt32
  drain : Bool
  echo : Bool
  properties : SymbolMap

def PerformFlow.marshal (f : PerformFlow) : BufM Unit := marshalComposite TypeCode.flow [
  ptrField writeUint32 f.nextIncomingID,
  { value := writeUint32 f.incomingWindow, omitted := false },
  { value := writeUint32 f.nextOutgoingID, omitted := false },
  { value := writeUint32 f.outgoingWindow, omitted := false },
  ptrField writeUint32 f.handle,
  ptrField writeUint32 f.deliveryCount,
  ptrField writeUint32 f.linkCredit,
  ptrField writeUint32 f.available,
  { value := writeBool f.drain, omitted := !f.drain },
  { value := writeBool f.echo, omitted := !f.echo },
  { value := marshalSymbolMap f.properties, omitted := f.properties.isEmpty }]

def PerformFlow.zero : PerformFlow := ⟨none, 0, 0, 0, none, none, none, none, false, false, []⟩

def PerformFlow.unmarshal : IntoM PerformFlow Unit := unmarshalComposite TypeCode.flow [
  { field := assign readUint32Value fun v f => { f with nextIncomingID := some v } },
  { field := assign readUint32Value fun v f => { f with incomingWindow := v },
    handleNull := required "Flow.IncomingWindow is required" },
  { field := assign readUint32Value fun v f => { f with nextOutgoingID := v },
    handleNull := required "Flow.NextOutgoingID is required" },
  { field := assign readUint32Value fun v f => { f with outgoingWindow := v },
    handleNull := required "Flow.OutgoingWindow is required" },
  { field := assign readUint32Value fun v f => { f with handle := some v } },
  { field := assign readUint32Value fun v f => { f with deliveryCount := some v } },
  { field := assign readUint32Value fun v f => { f with linkCredit := some v } },
  { field := assign readUint32Value fun v f => { f with available := some v } },
  { field := assign readBool fun v f => { f with drain := v } },
  { field := assign readBool fun v f => { f with echo := v } },
  { field := assign (unmarshalMapStringAny readAny) fun v f => { f with properties := v } }]

/-- Transfer: a message or a part of one. -/
structure PerformTransfer where
  handle : UInt32
  deliveryID : Option UInt32
  deliveryTag : Option Bytes
  messageFormat : Option UInt32
  settled : Bool
  more : Bool
  receiverSettleMode : Option ReceiverSettleMode
  state : Option (DeliveryState Value)
  resume : Bool
  aborted : Bool
  batchable : Bool
  payload : Bytes
  /-- the channel of the waiting `Send`, if any -/
  done : Option Nat

/-- The composite of a transfer, which stands in front of its payload. -/
def PerformTransfer.marshalComposite (t : PerformTransfer) : BufM Unit :=
  GoAmqp.marshalComposite TypeCode.transfer [
    { value := writeUint32 t.handle, omitted := false },
    ptrField writeUint32 t.deliveryID,
    { value := writeBinary (t.deliveryTag.getD []), omitted := (t.deliveryTag.getD []).isEmpty },
    ptrField writeUint32 t.messageFormat,
    { value := writeBool t.settled, omitted := !t.settled },
    { value := writeBool t.more, omitted := !t.more },
    ptrField marshalUint8 t.receiverSettleMode,
    ptrField marshalState t.state,
    { value := writeBool t.resume, omitted := !t.resume },
    { value := writeBool t.aborted, omitted := !t.aborted },
    { value := writeBool t.batchable, omitted := !t.batchable }]

def PerformTransfer.marshal (t : PerformTransfer) : BufM Unit := do
  t.marshalComposite
  appendBytes t.payload

def PerformTransfer.zero : PerformTransfer :=
  ⟨0, none, none, none, false, false, none, none, false, false, false, [], none⟩

def PerformTransfer.unmarshalComposite : IntoM PerformTransfer Unit :=
  GoAmqp.unmarshalComposite TypeCode.transfer [
    { field := assign readUint32Value fun v t => { t with handle := v },
      handleNull := required "Transfer.Handle is required" },
    { field := assign readUint32Value fun v t => { t with deliveryID := some v } },
    { field := assign readBinary fun v t => { t with deliveryTag := some v } },
    { field := assign readUint32Value fun v t => { t with messageFormat := some v } },
    { field := assign readBool fun v t => { t with settled := v } },
    { field := assign readBool fun v t => { t with more := v } },
    { field := assignPtr PerformTransfer.receiverSettleMode
        (fun v t => { t with receiverSettleMode := v }) 0 (storeAlways readUbyte 0) },
    { field := assign (unmarshalDeliveryState readAny) fun v t => { t with state := some v } },
    { field := assign readBool fun v t => { t with resume := v } },
    { field := assign readBool fun v t => { t with aborted := v } },
    { field := assign readBool fun v t => { t with batchable := v } }]

/-- The payload is what is left of the buffer; it is not consumed. -/
def PerformTransfer.unmarshalPayload : IntoM PerformTransfer Unit := do
  let payload ← onBuffer bytes
  modify fun s => ({ s.1 with payload := payload }, s.2)

def PerformTransfer.unmarshal : IntoM PerformTransfer Unit := do
  PerformTransfer.unmarshalComposite
  PerformTransfer.unmarshalPayload

/-- Disposition: the state of a range of deliveries. -/
structure PerformDisposition where
  role : Role
  first : UInt32
  last : Option UInt32
  settled : Bool
  state : Option (DeliveryState Value)
  batchable : Bool

def PerformDisposition.marshal (d : PerformDisposition) : BufM Unit :=
  marshalComposite TypeCode.disposition [
    { value := writeBool d.role, omitted := false },
    { value := writeUint32 d.first, omitted := false },
    ptrField writeUint32 d.last,
    { value := writeBool d.settled, omitted := !d.settled },
    ptrField marshalState d.state,
    { value := writeBool d.batchable, omitted := !d.batchable }]

def PerformDisposition.zero : PerformDisposition := ⟨false, 0, none, false, none, false⟩

def PerformDisposition.unmarshal : IntoM PerformDisposition Unit :=
  unmarshalComposite TypeCode.disposition [
    { field := assignAlways readBool false fun v d => { d with role := v },
      handleNull := required "Disposition.Role is required" },
    { field := assign readUint32Value fun v d => { d with first := v },
      handleNull := required "Disposition.Handle is required" },
    { field := assign readUint32Value fun v d => { d with last := some v } },
    { field := assign readBool fun v d => { d with settled := v } },
    { field := assign (unmarshalDeliveryState readAny) fun v d => { d with state := some v } },
    { field := assign readBool fun v d => { d with batchable := v } }]

/-- Detach: the end of a link. -/
structure PerformDetach where
  handle : UInt32
  closed : Bool
  error : Option (AmqpError Value)

def PerformDetach.marshal (d : PerformDetach) : BufM Unit := marshalComposite TypeCode.detach [
  { value := writeUint32 d.handle, omitted := false },
  { value := writeBool d.closed, omitted := !d.closed },
  ptrField marshalError d.error]

def PerformDetach.zero : PerformDetach := ⟨0, false, none⟩

def PerformDetach.unmarshal : IntoM PerformDetach Unit := unmarshalComposite TypeCode.detach [
  { field := assign readUint32Value fun v d => { d with handle := v },
    handleNull := required "Detach.Handle is required" },
  { field := assign readBool fun v d => { d with closed := v } },
  errorField PerformDetach.error fun v d => { d with error := v }]

/-! ## SASL frames -/

/-- The choice of a mechanism. -/
structure SASLInit where
  mechanism : Bytes
  initialResponse : Bytes
  hostname : Bytes

def SASLInit.marshal (si : SASLInit) : BufM Unit := marshalComposite TypeCode.saslInit [
  { value := marshalSymbol si.mechanism, omitted := false },
  { value := writeBinary si.initialResponse, omitted := false },
  { value := writeString si.hostname, omitted := si.hostname.isEmpty }]

/-- The mechanisms of the server. -/
structure SASLMechanisms where
  mechanisms : List Bytes

def SASLMechanisms.marshal (sm : SASLMechanisms) : BufM Unit :=
  marshalComposite saslMechanism [
    { value := marshalArraySymbol sm.mechanisms, omitted := false }]

def SASLMechanisms.unmarshal : IntoM SASLMechanisms Unit :=
  unmarshalComposite saslMechanism [
    { field := assign unmarshalMultiSymbol fun v sm => { sm with mechanisms := v },
      handleNull := required "saslMechanisms.Mechanisms is required" }]

/-- A challenge of the server. -/
structure SASLChallenge where
  challenge : Bytes

def SASLChallenge.marshal (sc : SASLChallenge) : BufM Unit :=
  marshalComposite TypeCode.saslChallenge [
    { value := writeBinary sc.challenge, omitted := false }]

def SASLChallenge.unmarshal : IntoM SASLChallenge Unit :=
  unmarshalComposite TypeCode.saslChallenge [
    { field := assign readBinary fun v sc => { sc with challenge := v },
      handleNull := required "saslChallenge.Challenge is required" }]

/-- The answer to a challenge. -/
structure SASLResponse where
  response : Bytes

def SASLResponse.marshal (sr : SASLResponse) : BufM Unit :=
  marshalComposite TypeCode.saslResponse [
    { value := writeBinary sr.response, omitted := false }]

/-- The result of the authentication. -/
structure SASLOutcome where
  code : UInt8
  additionalData : Bytes

def SASLOutcome.marshal (so : SASLOutcome) : BufM Unit := marshalComposite TypeCode.saslOutcome [
  { value := marshalUint8 so.code, omitted := false },
  { value := writeBinary so.additionalData, omitted := so.additionalData.isEmpty }]

def SASLOutcome.unmarshal : IntoM SASLOutcome Unit := unmarshalComposite TypeCode.saslOutcome [
  { field := assignAlways readUbyte 0 fun v so => { so with code := v },
    handleNull := required "saslOutcome.AdditionalData is required" },
  { field := assign readBinary fun v so => { so with additionalData := v } }]

/-! ## Frames (`internal/frames/parsing.go`) -/

/-- `frames.FrameBody`. -/
inductive FrameBody where
  | open_ (b : PerformOpen)
  | begin_ (b : PerformBegin)
  | attach (b : PerformAttach)
  | flow (b : PerformFlow)
  | transfer (b : PerformTransfer)
  | disposition (b : PerformDisposition)
  | detach (b : PerformDetach)
  | end_ (b : PerformEnd)
  | close (b : PerformClose)
  | saslInit (b : SASLInit)
  | saslMechanisms (b : SASLMechanisms)
  | saslChallenge (b : SASLChallenge)
  | saslResponse (b : SASLResponse)
  | saslOutcome (b : SASLOutcome)

/-- `Marshal` of a frame body. -/
def FrameBody.marshal : FrameBody → BufM Unit
  | .open_ b => b.marshal
  | .begin_ b => b.marshal
  | .attach b => b.marshal
  | .flow b => b.marshal
  | .transfer b => b.marshal
  | .disposition b => b.marshal
  | .detach b => b.marshal
  | .end_ b => b.marshal
  | .close b => b.marshal
  | .saslInit b => b.marshal
  | .saslMechanisms b => b.marshal
  | .saslChallenge b => b.marshal
  | .saslResponse b => b.marshal
  | .saslOutcome b => b.marshal

/-- `frames.Frame`, without its `Done` channel. -/
structure Frame where
  type_ : UInt8
  channel : UInt16
  body : FrameBody

/-- The end of `frames.Write`: the size is checked and put into the header. -/
def writeSize : BufM Unit := do
  let n ← len
  if n > 4294967295 then fail "frame too large"
  else
    let bufBytes ← bytes
    putUint32 0 (UInt32.ofNat bufBytes.length)

/-- `frames.Write`. -/
def Frame.write (fr : Frame) : BufM Unit := do
  -- the size is overwritten at the end
  appendBytes [0, 0, 0, 0, 2, fr.type_]
  appendUint16 fr.channel
  fr.body.marshal
  writeSize

structure Header where
  size : UInt32
  dataOffset : UInt8
  frameType : UInt8
  channel : UInt16
deriving DecidableEq

def headerSize : UInt32 := 8

/-- The header in the first eight bytes of `buf`. -/
def Header.ofBytes (buf : Bytes) : BufM Header := do
  let size ← bigEndian 4 buf
  let dataOffset ← index buf 4
  let frameType ← index buf 5
  let channel ← bigEndian 2 (buf.drop 6)
  pure ⟨UInt32.ofNat size, dataOffset, frameType, UInt16.ofNat channel⟩

def parseHeader : BufM Header := do
  let (buf, ok) ← next 8
  if !ok then fail "invalid frameHeader"
  else
    let fh ← Header.ofBytes buf
    if fh.size < headerSize then
      fail (s!"received frame header with invalid size {fh.size.toNat}")
    else if fh.dataOffset < 2 then
      fail (s!"received frame header with invalid data offset {fh.dataOffset.toNat}")
    else pure fh

/-- The switch of `ParseBody` on the descriptor. -/
def bodyReader (pType : UInt8) : BufM FrameBody :=
  if pType = TypeCode.open_ then .open_ <$> runNew .zero PerformOpen.unmarshal
  else if pType = TypeCode.begin_ then .begin_ <$> runNew .zero PerformBegin.unmarshal
  else if pType = TypeCode.attach then .attach <$> runNew .zero PerformAttach.unmarshal
  else if pType = TypeCode.flow then .flow <$> runNew .zero PerformFlow.unmarshal
  else if pType = TypeCode.transfer then .transfer <$> runNew .zero PerformTransfer.unmarshal
  else if pType = TypeCode.disposition then
    .disposition <$> runNew .zero PerformDisposition.unmarshal
  else if pType = TypeCode.detach then .detach <$> runNew .zero PerformDetach.unmarshal
  else if pType = TypeCode.end_ then .end_ <$> runNew ⟨none⟩ PerformEnd.unmarshal
  else if pType = TypeCode.close then .close <$> runNew ⟨none⟩ PerformClose.unmarshal
  else if pType = saslMechanism then
    .saslMechanisms <$> runNew ⟨[]⟩ SASLMechanisms.unmarshal
  else if pType = TypeCode.saslChallenge then
    .saslChallenge <$> runNew ⟨[]⟩ SASLChallenge.unmarshal
  else if pType = TypeCode.saslOutcome then .saslOutcome <$> runNew ⟨0, []⟩ SASLOutcome.unmarshal
  else fail ("unknown performative type " ++ hex2 pType)

/-- `ParseBody`: the type of the body is its descriptor. -/
def parseBody : BufM FrameBody := do
  let payload ← bytes
  let n ← len
  if n < 3 then fail "invalid frame body header"
  else
    let b0 ← index payload 0
    let b1 ← index payload 1
    if b0 ≠ 0 ∨ b1 ≠ smallUlong then fail "invalid frame body header"
    else
      let pType ← index payload 2
      bodyReader pType

end GoAmqp
