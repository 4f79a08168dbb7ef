import GoAmqp.Frames.Types

set_option autoImplicit false

/-! # Messages (`message.go`)

A message is its sections together with the data of its delivery. `Unmarshal` reads sections until
the buffer is empty; it touches nothing but the sections, so it is defined on them and lifted to the
message. The pointer to the receiving link is not modelled. The decoders copy the bytes they return,
so a decoded message does not share memory with the buffer it was read from. -/

namespace GoAmqp

open Lib Buffer TypeCode

/-! ## Header -/

/-- The header section. -/
structure MessageHeader where
  durable : Bool
  priority : UInt8
  ttl : Duration
  firstAcquirer : Bool
  deliveryCount : UInt32

/-- A priority of 4 is the default and left out. -/
def MessageHeader.marshal (h : MessageHeader) : BufM Unit := marshalComposite TypeCode.messageHeader [
  { value := writeBool h.durable, omitted := !h.durable },
  { value := marshalUint8 h.priority, omitted := h.priority == 4 },
  { value := marshalMilliseconds h.ttl, omitted := h.ttl == 0 },
  { value := writeBool h.firstAcquirer, omitted := !h.firstAcquirer },
  { value := writeUint32 h.deliveryCount, omitted := h.deliveryCount == 0 }]

def MessageHeader.zero : MessageHeader := ⟨false, 0, 0, false, 0⟩

/-- `MessageHeader.Unmarshal`: a null priority stands for 4. -/
def MessageHeader.unmarshal : IntoM MessageHeader Unit := unmarshalComposite TypeCode.messageHeader [
  { field := assign readBool fun v h => { h with durable := v } },
  { field := assign readUbyte fun v h => { h with priority := v },
    handleNull := default_ fun h => { h with priority := 4 } },
  { field := assignAlways unmarshalMilliseconds 0 fun v h => { h with ttl := v } },
  { field := assign readBool fun v h => { h with firstAcquirer := v } },
  { field := assign readUint32Value fun v h => { h with deliveryCount := v } }]

/-! ## Properties -/

/-- The properties section; the two ids may hold any value. -/
structure MessageProperties where
  messageID : Value
  userID : Bytes
  to_ : Option Bytes
  subject : Option Bytes
  replyTo : Option Bytes
  correlationID : Value
  contentType : Option Bytes
  contentEncoding : Option Bytes
  absoluteExpiryTime : Option Time
  creationTime : Option Time
  groupID : Option Bytes
  groupSequence : Option UInt32
  replyToGroupID : Option Bytes

def MessageProperties.marshal (p : MessageProperties) : BufM Unit :=
  marshalComposite TypeCode.messageProperties [
    { value := GoAmqp.marshal p.messageID, omitted := p.messageID.isNil },
    { value := writeBinary p.userID, omitted := p.userID.isEmpty },
    ptrField writeString p.to_,
    ptrField writeString p.subject,
    ptrField writeString p.replyTo,
    { value := GoAmqp.marshal p.correlationID, omitted := p.correlationID.isNil },
    ptrField marshalSymbol p.contentType,
    ptrField marshalSymbol p.contentEncoding,
    ptrField writeTimestamp p.absoluteExpiryTime,
    ptrField writeTimestamp p.creationTime,
    ptrField writeString p.groupID,
    ptrField writeUint32 p.groupSequence,
    ptrField writeString p.replyToGroupID]

def MessageProperties.zero : MessageProperties :=
  ⟨.nil, [], none, none, none, .nil, none, none, none, none, none, none, none⟩

/-- `time.Time{}`, the first of January of the year 1. -/
def Time.zero : Time := ⟨-62135596800000000000⟩

/-- A `**string` field. -/
def stringPtr {σ : Type} (part : σ → Option Bytes) (put : Option Bytes → σ → σ) : UnmarshalField σ :=
  { field := assignPtr part put [] (store readString) }

/-- A `**time.Time` field. -/
def timePtr {σ : Type} (part : σ → Option Time) (put : Option Time → σ → σ) : UnmarshalField σ :=
  { field := assignPtr part put .zero (store readTimestamp) }

def MessageProperties.unmarshal : IntoM MessageProperties Unit :=
  unmarshalComposite TypeCode.messageProperties [
    { field := assign readAny fun v p => { p with messageID := v } },
    { field := assign readBinary fun v p => { p with userID := v } },
    stringPtr MessageProperties.to_ fun v p => { p with to_ := v },
    stringPtr MessageProperties.subject fun v p => { p with subject := v },
    stringPtr MessageProperties.replyTo fun v p => { p with replyTo := v },
    { field := assign readAny fun v p => { p with correlationID := v } },
    stringPtr MessageProperties.contentType fun v p => { p with contentType := v },
    stringPtr MessageProperties.contentEncoding fun v p => { p with contentEncoding := v },
    timePtr MessageProperties.absoluteExpiryTime fun v p => { p with absoluteExpiryTime := v },
    timePtr MessageProperties.creationTime fun v p => { p with creationTime := v },
    stringPtr MessageProperties.groupID fun v p => { p with groupID := v },
    { field := assign readUint32Value fun v p => { p with groupSequence := some v } },
    stringPtr MessageProperties.replyToGroupID fun v p => { p with replyToGroupID := v }]

/-! ## Sections -/

/-- The sections of a message. A map that is nil is left out by `Marshal`, an empty one is not. -/
structure Sections where
  header : Option MessageHeader
  deliveryAnnotations : Option Annotations
  annotations : Option Annotations
  properties : Option MessageProperties
  applicationProperties : Option (List (Bytes × Value))
  data : List Bytes
  value : Value
  sequence : List (List Value)
  footer : Option Annotations

/-- No section is set. -/
def Sections.zero : Sections := ⟨none, none, none, none, none, [], .nil, [], none⟩

/-- A message: its sections, and what the link keeps about its delivery. -/
structure Message extends Sections where
  format : UInt32
  deliveryTag : Option Bytes
  sendSettled : Bool
  deliveryID : UInt32
  settled : Bool

def Message.zero : Message := ⟨.zero, 0, none, false, 0, false⟩

/-- A section that is written when it is set. -/
def writeOptional {α : Type} (write : α → BufM Unit) : Option α → BufM Unit
  | none => pure ()
  | some a => write a

/-- A section whose descriptor is written in front of it. -/
def writeSection {α : Type} (code : UInt8) (write : α → BufM Unit) (a : α) : BufM Unit := do
  writeDescriptor code
  write a

/-- Whether the section of the value is written. -/
def Value.optional : Value → Option Value
  | .nil => none
  | v => some v

theorem Value.optional_eq_some {v w : Value} (h : v.optional = some w) : v = w ∧ w.isNil = false := by
  cases v <;> simp_all [Value.optional, Value.isNil] <;> subst h <;> simp

/-- The sections that are set, in the order of the protocol. -/
def Sections.marshal (m : Sections) : BufM Unit := do
  writeOptional MessageHeader.marshal m.header
  writeOptional (writeSection TypeCode.deliveryAnnotations marshalAnnotations) m.deliveryAnnotations
  writeOptional (writeSection messageAnnotations marshalAnnotations) m.annotations
  writeOptional MessageProperties.marshal m.properties
  writeOptional (writeSection TypeCode.applicationProperties fun p => GoAmqp.marshal (.mapString p))
    m.applicationProperties
  m.data.forM (writeSection applicationData writeBinary)
  writeOptional (writeSection amqpValue GoAmqp.marshal) m.value.optional
  m.sequence.forM (writeSection amqpSequence fun xs => GoAmqp.marshal (.list xs))
  writeOptional (writeSection TypeCode.footer marshalAnnotations) m.footer

/-- `Message.Marshal`. -/
def Message.marshal (m : Message) : BufM Unit := m.toSections.marshal

/-- Read into a new variable, which a null leaves at its zero value. -/
def readNullable {α : Type} (zero : α) (read : BufM α) : BufM α := do
  if ← tryReadNull then pure zero else read

/-- A section whose header is skipped and which replaces the field. -/
def sectionInto (headerLength : Nat) {α : Type} (read : BufM α) (put : α → Sections → Sections) :
    IntoM Sections Unit := do
  onBuffer (skip headerLength)
  assign read put

/-- A section whose header is skipped and which is appended to the field. -/
def sectionAppend (headerLength : Nat) {α : Type} (zero : α) (read : BufM α)
    (put : α → Sections → Sections) : IntoM Sections Unit := do
  onBuffer (skip headerLength)
  let a ← onBuffer (readNullable zero read)
  modify fun s => (put a s.1, s.2)

/-- The switch of `Message.Unmarshal` on the type of the section. -/
def readSection (type_ : UInt8) (headerLength : Nat) : IntoM Sections Unit :=
  if type_ = TypeCode.messageHeader then
    assignPtr Sections.header (fun v m => { m with header := v }) .zero MessageHeader.unmarshal
  else if type_ = TypeCode.deliveryAnnotations then
    sectionInto headerLength (unmarshalAnnotations readAny) fun v m =>
      { m with deliveryAnnotations := some v }
  else if type_ = messageAnnotations then
    sectionInto headerLength (unmarshalAnnotations readAny) fun v m =>
      { m with annotations := some v }
  else if type_ = TypeCode.messageProperties then
    assignPtr Sections.properties (fun v m => { m with properties := v }) .zero
      MessageProperties.unmarshal
  else if type_ = TypeCode.applicationProperties then
    sectionInto headerLength (unmarshalMapStringAny readAny) fun v m =>
      { m with applicationProperties := some v }
  else if type_ = applicationData then
    sectionAppend headerLength [] readBinary fun v m => { m with data := m.data ++ [v] }
  else if type_ = amqpSequence then
    sectionAppend headerLength [] (unmarshalList readAny) fun v m =>
      { m with sequence := m.sequence ++ [v] }
  else if type_ = TypeCode.footer then
    sectionInto headerLength (unmarshalAnnotations readAny) fun v m => { m with footer := some v }
  else if type_ = amqpValue then
    sectionInto headerLength readAny fun v m => { m with value := v }
  else fail ("unknown message section 0x" ++ hex2 type_)

/-- The loop of `Message.Unmarshal`. Every round reads at least one byte, so a bound above the number
    of unread bytes is never reached. -/
def sectionsLoop : Nat → IntoM Sections Unit
  | 0 => throw .depth
  | bound + 1 => do
    let left ← onBuffer len
    if left > 0 then
      let buf ← onBuffer bytes
      let (type_, headerLength) ← onBuffer (peekMessageType buf)
      readSection type_ headerLength
      sectionsLoop bound
    else pure ()

/-- The loop over the sections, while the buffer has bytes. Every round takes some, which bounds the loop. -/
def Sections.unmarshal : IntoM Sections Unit := do
  let left ← onBuffer len
  sectionsLoop (left + 1)

/-- `Message.Unmarshal`. -/
def Message.unmarshal : IntoM Message Unit :=
  zoom Message.toSections (fun v m => { m with toSections := v }) Sections.unmarshal

end GoAmqp
