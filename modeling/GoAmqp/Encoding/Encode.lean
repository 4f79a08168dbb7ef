import GoAmqp.Encoding.Types
import GoAmqp.Lib.Utf8

set_option autoImplicit false

/-! # The encoder (`internal/encoding/encode.go` and the `Marshal` methods of `types.go`)

`marshal` is the type switch of `Marshal`. Sizes of lists, maps and composites are written as the
source writes them: a placeholder first, overwritten with `putUint32` when the contents are known.
Lengths are naturals; each conversion to `byte` or `uint32` is the truncating one of the source. -/

namespace GoAmqp

open Lib Buffer TypeCode

/-! ## Scalars -/

def writeInt32 (n : Int32) : BufM Unit :=
  if n < 128 ∧ n ≥ -128 then appendBytes [smallint, n.toUInt32.toUInt8]
  else do
    appendByte int
    appendUint32 n.toUInt32

def writeInt64 (n : Int64) : BufM Unit :=
  if n < 128 ∧ n ≥ -128 then appendBytes [smalllong, n.toUInt64.toUInt8]
  else do
    appendByte long
    appendUint64 n.toUInt64

def writeUint32 (n : UInt32) : BufM Unit :=
  if n = 0 then appendByte uint0
  else if n < 256 then appendBytes [smallUint, n.toUInt8]
  else do
    appendByte TypeCode.uint
    appendUint32 n

def writeUint64 (n : UInt64) : BufM Unit :=
  if n = 0 then appendByte ulong0
  else if n < 256 then appendBytes [smallUlong, n.toUInt8]
  else do
    appendByte TypeCode.ulong
    appendUint64 n

def writeFloat (bits : UInt32) : BufM Unit := do
  appendByte float
  appendUint32 bits

def writeDouble (bits : UInt64) : BufM Unit := do
  appendByte double
  appendUint64 bits

def writeTimestamp (t : Time) : BufM Unit := do
  appendByte timestamp
  appendUint64 t.millis.toUInt64

def writeBool (b : Bool) : BufM Unit := appendByte (if b then boolTrue else boolFalse)

/-- The shared body of `writeString`, `WriteBinary` and `Symbol.Marshal`: a one-byte length when it
    fits, else a four-byte one. -/
def writeVariable (code8 code32 : UInt8) (s : Bytes) : BufM Unit :=
  if s.length < 256 then do
    appendBytes [code8, UInt8.ofNat s.length]
    appendBytes s
  else if s.length < 4294967295 then do
    appendByte code32
    appendUint32 (UInt32.ofNat s.length)
    appendBytes s
  else fail "too long"

/-- `WriteString`; only valid UTF-8 is written. -/
def writeString (s : Bytes) : BufM Unit :=
  if !validUtf8 s then fail "not a valid UTF-8 string"
  else writeVariable str8 str32 s

def writeBinary (b : Bytes) : BufM Unit := writeVariable vbin8 vbin32 b

/-- `Symbol.Marshal`. -/
def marshalSymbol (s : Bytes) : BufM Unit := writeVariable sym8 sym32 s

/-- `UUID.Marshal`. -/
def marshalUUID (u : UUID) : BufM Unit := do
  appendByte uuid
  appendBytes u.bytes

/-- `LifetimePolicy.Marshal`. -/
def marshalLifetimePolicy (code : UInt8) : BufM Unit := appendBytes [0x0, smallUlong, code, list0]

/-- A `time.Duration` is a number of nanoseconds. -/
abbrev Duration := Int64

/-- `Milliseconds.Marshal`. -/
def marshalMilliseconds (d : Duration) : BufM Unit := writeUint32 (d / 1000000).toUInt64.toUInt32

/-! ## Composites -/

/-- A field to be marshalled; an omitted field is written as null or, past the last set field, not
    at all. -/
structure MarshalField where
  value : BufM Unit
  omitted : Bool

/-- The index of the last field that is not omitted, `-1` when there is none. -/
def lastSetIdx (fields : List MarshalField) : Int :=
  fields.zipIdx.foldl (fun last p => if p.1.omitted then last else (p.2 : Int)) (-1)

def writeDescriptor (code : UInt8) : BufM Unit := appendBytes [0x0, smallUlong, code]

/-- A field in its place. -/
def MarshalField.write (f : MarshalField) : BufM Unit :=
  if f.omitted then appendByte TypeCode.null else f.value

/-- The loop of `MarshalComposite` over the fields up to the last set one. -/
def marshalFields : List MarshalField → BufM Unit
  | [] => pure ()
  | f :: fs => do
    f.write
    marshalFields fs

/-- `MarshalComposite`: the fields up to the last that is set, in a list whose size is filled in at the end. -/
def marshalComposite (code : UInt8) (fields : List MarshalField) : BufM Unit :=
  if lastSetIdx fields = -1 then
    appendBytes [0x0, smallUlong, code, list0]
  else do
    let count := (lastSetIdx fields + 1).toNat
    writeDescriptor code
    appendByte list32
    -- the size is overwritten below
    let sizeIdx ← len
    appendBytes [0, 0, 0, 0]
    let preFieldLen ← len
    appendUint32 (UInt32.ofNat count)
    marshalFields (fields.take count)
    let l ← len
    putUint32 sizeIdx (UInt32.ofNat (l - preFieldLen))

/-! ## Maps, arrays and lists -/

/-- `writeMap`, given the number of entries and the loop that writes them. -/
def writeMap (length : Nat) (entries : BufM Unit) : BufM Unit := do
  let startIdx ← len
  appendBytes [map32, 0, 0, 0, 0, 0, 0, 0, 0]
  entries
  let pairs := length * 2
  if pairs > 4294967295 - 4 then fail "map contains too many elements"
  else do
    let l ← len
    putUint32 (startIdx + 1) (UInt32.ofNat (l - startIdx - 1 - 4))
    putUint32 (startIdx + 5) (UInt32.ofNat pairs)

/-- Size and length fields of an array header, whose `size` covers the elements. -/
def writeArraySize (length size : Nat) (type_ : UInt8) : BufM Unit :=
  if size + 2 ≤ 255 then
    appendBytes [array8, UInt8.ofNat (size + 2), UInt8.ofNat length, type_]
  else do
    appendByte array32
    appendUint32 (UInt32.ofNat (size + 5))
    appendUint32 (UInt32.ofNat length)
    appendByte type_

def writeArrayHeader (length typeSize : Nat) (type_ : UInt8) : BufM Unit :=
  writeArraySize length (length * typeSize) type_

def writeVariableArrayHeader (length elementsSizeTotal : Nat) (type_ : UInt8) : BufM Unit :=
  let elementTypeSize := if type_ &&& 0xf0 = 0xb0 then 4 else 1
  writeArraySize length (elementsSizeTotal + length * elementTypeSize) type_

/-- `Marshal` of an array whose elements all have `typeSize` bytes. -/
def marshalArray {α : Type} (typeSize : Nat) (type_ : UInt8) (element : α → Bytes) (a : List α) :
    BufM Unit := do
  writeArrayHeader a.length typeSize type_
  a.forM fun x => appendBytes (element x)

def marshalArrayUByte (a : List UInt8) : BufM Unit := do
  writeArrayHeader a.length 1 ubyte
  appendBytes a

def marshalArrayInt8 : List Int8 → BufM Unit := marshalArray 1 TypeCode.byte fun n => [n.toUInt8]

def marshalArrayUint16 : List UInt16 → BufM Unit := marshalArray 2 ushort be16

def marshalArrayInt16 : List Int16 → BufM Unit := marshalArray 2 short fun n => be16 n.toUInt16

def marshalArrayUint32 (a : List UInt32) : BufM Unit :=
  if a.any (· > 255) then marshalArray 4 TypeCode.uint be32 a
  else marshalArray 1 smallUint (fun n => [n.toUInt8]) a

def marshalArrayInt32 (a : List Int32) : BufM Unit :=
  if a.any (· > 127) then marshalArray 4 int (fun n => be32 n.toUInt32) a
  else marshalArray 1 smallint (fun n => [n.toUInt32.toUInt8]) a

def marshalArrayUint64 (a : List UInt64) : BufM Unit :=
  if a.any (· > 255) then marshalArray 8 TypeCode.ulong be64 a
  else marshalArray 1 smallUlong (fun n => [n.toUInt8]) a

def marshalArrayInt64 (a : List Int64) : BufM Unit :=
  if a.any (· > 127) then marshalArray 8 long (fun n => be64 n.toUInt64) a
  else marshalArray 1 smalllong (fun n => [n.toUInt64.toUInt8]) a

def marshalArrayFloat : List UInt32 → BufM Unit := marshalArray 4 float be32

def marshalArrayDouble : List UInt64 → BufM Unit := marshalArray 8 double be64

def marshalArrayBool : List Bool → BufM Unit := marshalArray 1 TypeCode.bool fun b => [if b then 1 else 0]

def marshalArrayTimestamp : List Time → BufM Unit := marshalArray 8 timestamp fun t => be64 t.millis.toUInt64

def marshalArrayUUID : List UUID → BufM Unit := marshalArray 16 uuid UUID.bytes

/-- `Marshal` of an array of strings, symbols or byte slices. The four-byte lengths are used as soon
    as one element needs them. -/
def marshalVariableArray (code8 code32 : UInt8) (a : List Bytes) : BufM Unit :=
  let elementsSizeTotal := (a.map List.length).sum
  let elementType := if a.any (fun s => s.length > 255) then code32 else code8
  do
    writeVariableArrayHeader a.length elementsSizeTotal elementType
    if elementType = code32 then
      a.forM fun s => do
        appendUint32 (UInt32.ofNat s.length)
        appendBytes s
    else
      a.forM fun s => do
        appendByte (UInt8.ofNat s.length)
        appendBytes s

def marshalArrayString (a : List Bytes) : BufM Unit :=
  if a.any (fun s => !validUtf8 s) then fail "not a valid UTF-8 string"
  else marshalVariableArray str8 str32 a

def marshalArraySymbol : List Bytes → BufM Unit := marshalVariableArray sym8 sym32

def marshalArrayBinary : List Bytes → BufM Unit := marshalVariableArray vbin8 vbin32

/-- `list.Marshal`, given the number of elements and the loop that writes them. -/
def marshalList (length : Nat) (elements : BufM Unit) : BufM Unit :=
  if length = 0 then appendByte list0
  else do
    appendByte list32
    let sizeIdx ← len
    appendBytes [0, 0, 0, 0]
    appendUint32 (UInt32.ofNat length)
    elements
    let l ← len
    putUint32 sizeIdx (UInt32.ofNat (l - (sizeIdx + 4)))

/-- The key of an annotations entry: strings are written as symbols. -/
def marshalAnnotationKey : Value → BufM Unit
  | .string s => marshalSymbol s
  | .symbol s => marshalSymbol s
  | .int64 n => writeInt64 n
  | .int n => writeInt64 n
  | k => fail ("unsupported Annotations key type " ++ k.typeName)

/-! ## The type switch -/

/-- `t.Marshal(wr)` for a value that writes itself. -/
def Marshaler.marshal (m : Marshaler) : BufM Unit := do
  appendBytes m.written
  match m.fault with
  | none => pure ()
  | some f => throw f

mutual

/-- `Marshal`, by the cases of its type switch. -/
def marshal : Value → BufM Unit
  | .nil => appendByte TypeCode.null
  | .bool b => writeBool b
  | .uint n => writeUint64 n
  | .uint64 n => writeUint64 n
  | .uint32 n => writeUint32 n
  | .uint16 n => do
    appendByte ushort
    appendUint16 n
  | .uint8 n => appendBytes [ubyte, n]
  | .int n => writeInt64 n
  | .int8 n => appendBytes [TypeCode.byte, n.toUInt8]
  | .int16 n => do
    appendByte short
    appendUint16 n.toUInt16
  | .int32 n => writeInt32 n
  | .int64 n => writeInt64 n
  | .float32 bits => writeFloat bits
  | .float64 bits => writeDouble bits
  | .string s => writeString s
  | .symbol s => marshalSymbol s
  | .binary b => writeBinary b
  | .time t => writeTimestamp t
  | .uuid u => marshalUUID u
  | .arrayUByte a => marshalArrayUByte a
  | .arrayInt8 a => marshalArrayInt8 a
  | .arrayUint16 a => marshalArrayUint16 a
  | .arrayInt16 a => marshalArrayInt16 a
  | .arrayUint32 a => marshalArrayUint32 a
  | .arrayInt32 a => marshalArrayInt32 a
  | .arrayUint64 a => marshalArrayUint64 a
  | .arrayInt64 a => marshalArrayInt64 a
  | .arrayFloat a => marshalArrayFloat a
  | .arrayDouble a => marshalArrayDouble a
  | .arrayBool a => marshalArrayBool a
  | .arrayString a => marshalArrayString a
  | .arraySymbol a => marshalArraySymbol a
  | .arrayBinary a => marshalArrayBinary a
  | .arrayTimestamp a => marshalArrayTimestamp a
  | .arrayUUID a => marshalArrayUUID a
  | .list xs => marshalList xs.length (marshalElements xs)
  | .mapAny m => writeMap m.length (marshalEntries m)
  | .mapString m => writeMap m.length (marshalStringEntries m)
  | .mapSymbol m => writeMap m.length (marshalSymbolEntries m)
  | .described d v => do
    appendByte 0x0
    marshal d
    marshal v
  | .error e => marshalError e
  | .state s => marshalState s
  | .lifetimePolicy code => marshalLifetimePolicy code
  | .marshaler m => m.marshal
  | .other type_ => fail ("marshal not implemented for " ++ type_)

/-- `Error.Marshal`. -/
def marshalError : AmqpError Value → BufM Unit
  | ⟨condition, description, info⟩ =>
    marshalComposite TypeCode.error [
      { value := marshalSymbol condition, omitted := false },
      { value := writeString description, omitted := description.isEmpty },
      { value := writeMap info.length (marshalStringEntries info), omitted := info.isEmpty }]

/-- The `Marshal` methods of the delivery states. -/
def marshalState : DeliveryState Value → BufM Unit
  | .received sectionNumber sectionOffset =>
    marshalComposite stateReceived [
      { value := writeUint32 sectionNumber, omitted := false },
      { value := writeUint64 sectionOffset, omitted := false }]
  | .accepted => marshalComposite stateAccepted []
  | .rejected none =>
    marshalComposite stateRejected [{ value := throw .nilDeref, omitted := true }]
  | .rejected (some e) =>
    marshalComposite stateRejected [{ value := marshalError e, omitted := false }]
  | .released => marshalComposite stateReleased []
  | .modified deliveryFailed undeliverableHere none =>
    marshalComposite stateModified [
      { value := writeBool deliveryFailed, omitted := !deliveryFailed },
      { value := writeBool undeliverableHere, omitted := !undeliverableHere },
      { value := writeMap 0 (pure ()), omitted := true }]
  | .modified deliveryFailed undeliverableHere (some m) =>
    marshalComposite stateModified [
      { value := writeBool deliveryFailed, omitted := !deliveryFailed },
      { value := writeBool undeliverableHere, omitted := !undeliverableHere },
      { value := writeMap m.length (marshalAnnotationEntries m), omitted := false }]

/-- The loop of `list.Marshal`. -/
def marshalElements : List Value → BufM Unit
  | [] => pure ()
  | x :: xs => do
    marshal x
    marshalElements xs

/-- The loop of `writeMap` over a `map[any]any`. -/
def marshalEntries : List (Value × Value) → BufM Unit
  | [] => pure ()
  | (k, v) :: m => do
    marshal k
    marshal v
    marshalEntries m

/-- The loop of `writeMap` over a `map[string]any`. -/
def marshalStringEntries : List (Bytes × Value) → BufM Unit
  | [] => pure ()
  | (k, v) :: m => do
    writeString k
    marshal v
    marshalStringEntries m

/-- The loop of `writeMap` over a `map[Symbol]any`. -/
def marshalSymbolEntries : List (Bytes × Value) → BufM Unit
  | [] => pure ()
  | (k, v) :: m => do
    marshalSymbol k
    marshal v
    marshalSymbolEntries m

/-- The loop of `writeMap` over an annotations map. -/
def marshalAnnotationEntries : List (Value × Value) → BufM Unit
  | [] => pure ()
  | (k, v) :: m => do
    marshalAnnotationKey k
    marshal v
    marshalAnnotationEntries m

end

/-- `Annotations.Marshal`. -/
def marshalAnnotations (a : Annotations) : BufM Unit := writeMap a.length (marshalAnnotationEntries a)

end GoAmqp
