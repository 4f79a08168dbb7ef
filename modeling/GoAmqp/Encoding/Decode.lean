import GoAmqp.Encoding.Encode

set_option autoImplicit false

/-! # The decoder (`internal/encoding/decode.go` and the `Unmarshal` methods of `types.go`)

Readers are computations on the buffer. `ReadAny` calls itself through lists, maps, described types,
errors and delivery states; those readers take the nested `ReadAny` as a parameter and `readAny`
closes the recursion with a bound on the nesting depth, chosen so that it is never reached
(every nested call starts behind at least one more byte).

`Unmarshal(r, &x)` decodes into an existing variable. A reader into a record of type `σ` is a
computation on the record and the buffer together (`IntoM σ`), so what an error leaves behind in the
record is kept. -/

namespace GoAmqp

open Lib Buffer TypeCode

/-! ## Type codes and headers -/

def readType : BufM UInt8 := readByte

def peekType : BufM UInt8 := peekByte

/-- A null is taken, and anything else is left. -/
def tryReadNull : BufM Bool := do
  let n ← len
  if n > 0 then
    let buf ← bytes
    let t ← index buf 0
    if t = TypeCode.null then
      skip 1
      pure true
    else pure false
  else pure false

/-- Size and count of a compound with one-byte widths; `avail` is what follows the type code. -/
def readSizes8 (avail : Nat) : BufM Nat := do
  let (buf, ok) ← next 2
  if !ok then fail "invalid length"
  else
    let count ← index buf 1
    let size ← index buf 0
    if size.toNat > avail - 1 then fail "invalid length" else pure count.toNat

/-- Size and count of a compound with four-byte widths. -/
def readSizes32 (avail : Nat) (tooLong : String) : BufM Nat := do
  let (buf, ok) ← next 8
  if !ok then fail "invalid length"
  else
    let size ← bigEndian 4 (buf.take 4)
    let count ← bigEndian 4 (buf.drop 4)
    if size > avail - 4 then fail tooLong else pure count

/-- `readListHeader`; the size is only compared with what is left. -/
def readListHeader : BufM Nat := do
  let type_ ← readType
  let listLength ← len
  if type_ = list0 then pure 0
  else if type_ = list8 then readSizes8 listLength
  else if type_ = list32 then readSizes32 listLength "invalid length"
  else fail ("type code 0x" ++ hex2 type_ ++ " is not a recognized list type")

def readArrayHeader : BufM Nat := do
  let type_ ← readType
  let arrayLength ← len
  if type_ = array8 then readSizes8 arrayLength
  else if type_ = array32 then
    readSizes32 arrayLength ("invalid length for type " ++ hex2 type_)
  else fail ("type code 0x" ++ hex2 type_ ++ " is not a recognized array type")

/-- Size and count of a map, after its type code. -/
def readMapSizes (type_ : UInt8) (length : Nat) : BufM Nat :=
  if type_ = map8 then readSizes8 length
  else if type_ = map32 then readSizes32 length "invalid length"
  else fail ("invalid map type 0x" ++ hex2 type_)

/-- `readMapHeader`; the count may not exceed the bytes that are left. -/
def readMapHeader : BufM UInt32 := do
  let type_ ← readType
  let length ← len
  let count ← readMapSizes type_ length
  let left ← len
  if count > left then fail "invalid length" else pure (UInt32.ofNat count)

/-! ## Scalars -/

/-- The one- or four-byte length that follows the type code of a string or a byte slice. -/
def readLength (is8 is32 : UInt8 → Bool) (kind : String) (type_ : UInt8) : BufM Nat :=
  if is8 type_ then UInt8.toNat <$> readByte
  else if is32 type_ then do
    let (buf, ok) ← next 4
    if !ok then fail ("invalid length for type 0x" ++ hex2 type_) else bigEndian 4 buf
  else fail ("type code 0x" ++ hex2 type_ ++ " is not a recognized " ++ kind ++ " type")

/-- The shared body of `ReadString` and `readBinary`. -/
def readVariable (is8 is32 : UInt8 → Bool) (kind : String) : BufM Bytes := do
  let type_ ← readType
  let length ← readLength is8 is32 kind type_
  let (buf, ok) ← next length
  if !ok then fail "invalid length" else pure buf

/-- `ReadString`: strings and symbols, whatever their bytes. -/
def readString : BufM Bytes :=
  readVariable (fun t => t == str8 || t == sym8)
    (fun t => t == str32 || t == sym32) "string"

def readBinary : BufM Bytes := readVariable (· == vbin8) (· == vbin32) "binary"

/-- The instant `ms` milliseconds after the epoch, as `readTimestamp` builds it. -/
def Time.ofMillis (ms : Int64) : Time := Time.unix (ms / 1000) ((ms % 1000) * 1000000)

def readTimestamp : BufM Time := do
  let type_ ← readType
  if type_ ≠ TypeCode.timestamp then fail ("invalid type for timestamp " ++ hex2 type_)
  else
    let n ← readUint64
    pure (Time.ofMillis n.toInt64)

def readLong : BufM Int64 := do
  let type_ ← readType
  if type_ = smalllong then
    let n ← readByte
    pure n.toInt8.toInt64
  else if type_ = TypeCode.long then
    let n ← readUint64
    pure n.toInt64
  else fail ("invalid type for uint32 " ++ hex2 type_)

def readInt32 : BufM Int32 := do
  let type_ ← readType
  if type_ = smallint then
    let n ← readByte
    pure n.toInt8.toInt32
  else if type_ = TypeCode.int then
    let n ← readUint32
    pure n.toInt32
  else fail ("invalid type for int32 " ++ hex2 type_)

/-- The shared body of the readers of types with a single encoding. -/
def readFixed {α : Type} (code : UInt8) (name : String) (read : BufM α) : BufM α := do
  let type_ ← readType
  if type_ ≠ code then fail ("invalid type for " ++ name ++ " " ++ hex2 type_) else read

def readShort : BufM Int16 := readFixed TypeCode.short "short" (UInt16.toInt16 <$> readUint16)

def readSbyte : BufM Int8 := readFixed TypeCode.byte "int8" (UInt8.toInt8 <$> readByte)

def readUbyte : BufM UInt8 := readFixed TypeCode.ubyte "ubyte" readByte

def readUshort : BufM UInt16 := readFixed TypeCode.ushort "ushort" readUint16

def readFloat : BufM UInt32 := readFixed TypeCode.float "float32" readUint32

def readDouble : BufM UInt64 := readFixed TypeCode.double "float64" readUint64

/-- `readUint32` of `decode.go`. -/
def readUint32Value : BufM UInt32 := do
  let type_ ← readType
  if type_ = uint0 then pure 0
  else if type_ = smallUint then
    let n ← readByte
    pure n.toUInt32
  else if type_ = TypeCode.uint then readUint32
  else fail ("invalid type for uint32 " ++ hex2 type_)

def readUlong : BufM UInt64 := do
  let type_ ← readType
  if type_ = ulong0 then pure 0
  else if type_ = smallUlong then
    let n ← readByte
    pure n.toUInt64
  else if type_ = TypeCode.ulong then readUint64
  else fail ("invalid type for uint32 " ++ hex2 type_)

/-- `readBool`; any byte but zero is true. -/
def readBool : BufM Bool := do
  let type_ ← readType
  if type_ = TypeCode.bool then
    let b ← readByte
    pure (b ≠ 0)
  else if type_ = boolTrue then pure true
  else if type_ = boolFalse then pure false
  else fail ("type code 0x" ++ hex2 type_ ++ " is not a recognized bool type")

/-- `readUint` of `decode.go`: any unsigned integer type. -/
def readUintValue : BufM UInt64 := do
  let type_ ← readType
  if type_ = uint0 ∨ type_ = ulong0 then pure 0
  else if type_ = TypeCode.ubyte ∨ type_ = smallUint ∨ type_ = smallUlong then
    let n ← readByte
    pure n.toUInt64
  else if type_ = TypeCode.ushort then
    let n ← readUint16
    pure n.toUInt64
  else if type_ = TypeCode.uint then
    let n ← readUint32
    pure n.toUInt64
  else if type_ = TypeCode.ulong then readUint64
  else fail ("type code 0x" ++ hex2 type_ ++ " is not a recognized number type")

/-- The UUID whose bytes are the first sixteen of `buf`. -/
def UUID.ofBytes (buf : Bytes) : BufM UUID :=
  if h : (buf.take 16).length = 16 then pure ⟨buf.take 16, h⟩ else throw .outOfRange

def readUUID : BufM UUID := do
  let type_ ← readType
  if type_ ≠ TypeCode.uuid then fail ("type code 0x" ++ hex1 type_ ++ " is not a UUID")
  else
    let (buf, ok) ← next 16
    if !ok then fail "invalid length" else UUID.ofBytes buf

/-! ## Arrays -/

/-- The element loop of the fixed-width arrays: `n` elements of `typeSize` bytes each. -/
def elements {α : Type} (typeSize : Nat) (element : Bytes → BufM α) : Nat → Bytes → BufM (List α)
  | 0, _ => pure []
  | n + 1, buf => do
    let x ← element buf
    let xs ← elements typeSize element n (buf.drop typeSize)
    pure (x :: xs)

/-- Take `length` elements of `typeSize` bytes from the buffer. -/
def readElements {α : Type} (typeSize : Nat) (tooLong : String) (element : Bytes → BufM α)
    (length : Nat) : BufM (List α) := do
  let (buf, ok) ← next (length * typeSize)
  if !ok then fail tooLong else elements typeSize element length buf

/-- `Unmarshal` of an array type with a single element encoding. -/
def unmarshalArray {α : Type} (code : UInt8) (name : String) (typeSize : Nat)
    (element : Bytes → BufM α) : BufM (List α) := do
  let length ← readArrayHeader
  let type_ ← readType
  if type_ ≠ code then fail ("invalid type for " ++ name ++ " " ++ hex2 type_)
  else readElements typeSize (s!"invalid length {length}") element length

def byteElement {α : Type} (f : UInt8 → α) (buf : Bytes) : BufM α := f <$> index buf 0

def uint16Element (buf : Bytes) : BufM UInt16 := UInt16.ofNat <$> bigEndian 2 buf

def uint32Element (buf : Bytes) : BufM UInt32 := UInt32.ofNat <$> bigEndian 4 buf

def uint64Element (buf : Bytes) : BufM UInt64 := UInt64.ofNat <$> bigEndian 8 buf

def unmarshalArrayUByte : BufM (List UInt8) := do
  let length ← readArrayHeader
  let type_ ← readType
  if type_ ≠ TypeCode.ubyte then fail ("invalid type for []uint16 " ++ hex2 type_)
  else
    let (buf, ok) ← next length
    if !ok then fail (s!"invalid length {length}") else pure buf

def unmarshalArrayInt8 : BufM (List Int8) := unmarshalArray TypeCode.byte "[]uint16" 1 (byteElement UInt8.toInt8)

def unmarshalArrayUint16 : BufM (List UInt16) := unmarshalArray TypeCode.ushort "[]uint16" 2 uint16Element

def unmarshalArrayInt16 : BufM (List Int16) :=
  unmarshalArray TypeCode.short "[]uint16" 2 fun buf => UInt16.toInt16 <$> uint16Element buf

def unmarshalArrayUint32 : BufM (List UInt32) := do
  let length ← readArrayHeader
  let type_ ← readType
  if type_ = uint0 then pure (List.replicate length 0)
  else if type_ = smallUint then
    readElements 1 "invalid length" (byteElement UInt8.toUInt32) length
  else if type_ = TypeCode.uint then
    readElements 4 (s!"invalid length {length}") uint32Element length
  else fail ("invalid type for []uint32 " ++ hex2 type_)

def unmarshalArrayInt32 : BufM (List Int32) := do
  let length ← readArrayHeader
  let type_ ← readType
  if type_ = smallint then
    readElements 1 "invalid length" (byteElement fun n => n.toInt8.toInt32) length
  else if type_ = TypeCode.int then
    readElements 4 (s!"invalid length {length}") (fun buf => UInt32.toInt32 <$> uint32Element buf)
      length
  else fail ("invalid type for []int32 " ++ hex2 type_)

def unmarshalArrayUint64 : BufM (List UInt64) := do
  let length ← readArrayHeader
  let type_ ← readType
  if type_ = ulong0 then pure (List.replicate length 0)
  else if type_ = smallUlong then
    readElements 1 "invalid length" (byteElement UInt8.toUInt64) length
  else if type_ = TypeCode.ulong then readElements 8 "invalid length" uint64Element length
  else fail ("invalid type for []uint64 " ++ hex2 type_)

def unmarshalArrayInt64 : BufM (List Int64) := do
  let length ← readArrayHeader
  let type_ ← readType
  if type_ = smalllong then
    readElements 1 "invalid length" (byteElement fun n => n.toInt8.toInt64) length
  else if type_ = TypeCode.long then
    readElements 8 "invalid length" (fun buf => UInt64.toInt64 <$> uint64Element buf) length
  else fail ("invalid type for []uint64 " ++ hex2 type_)

def unmarshalArrayFloat : BufM (List UInt32) := unmarshalArray TypeCode.float "[]float32" 4 uint32Element

def unmarshalArrayDouble : BufM (List UInt64) := unmarshalArray TypeCode.double "[]float64" 8 uint64Element

/-- `arrayBool.Unmarshal`: an array of bytes, or of one constant. -/
def unmarshalArrayBool : BufM (List Bool) := do
  let length ← readArrayHeader
  let type_ ← readType
  if type_ = TypeCode.bool then
    readElements 1 "invalid length" (byteElement fun b => decide (b ≠ 0)) length
  else if type_ = boolTrue then pure (List.replicate length true)
  else if type_ = boolFalse then pure (List.replicate length false)
  else fail ("invalid type for []bool " ++ hex2 type_)

/-- An element with a one-byte length. -/
def element8 (tooLong : String) : BufM Bytes := do
  let size ← readByte
  let (buf, ok) ← next size.toNat
  if !ok then fail tooLong else pure buf

/-- An element with a four-byte length. -/
def element32 : BufM Bytes := do
  let (buf, ok) ← next 4
  if !ok then fail "invalid length"
  else
    let size ← bigEndian 4 buf
    let (buf, ok) ← next size
    if !ok then fail "invalid length" else pure buf

/-- `Unmarshal` of an array of strings, symbols or byte slices. Every element is taken to have at
    least two bytes. -/
def unmarshalVariableArray (code8 code32 : UInt8) (name : String) (tooLong8 : Nat → String) :
    BufM (List Bytes) := do
  let length ← readArrayHeader
  let left ← len
  if length * 2 > left then fail (s!"invalid length {length}")
  else
    let type_ ← readType
    if type_ = code8 then readN (element8 (tooLong8 length)) length
    else if type_ = code32 then readN element32 length
    else fail ("invalid type for " ++ name ++ " " ++ hex2 type_)

def unmarshalArrayString : BufM (List Bytes) := unmarshalVariableArray str8 str32 "[]string" fun _ => "invalid length"

def unmarshalArraySymbol : BufM (List Bytes) := unmarshalVariableArray sym8 sym32 "[]Symbol" fun _ => "invalid length"

def unmarshalArrayBinary : BufM (List Bytes) :=
  unmarshalVariableArray vbin8 vbin32 "[][]byte" fun length =>
    s!"invalid length {length}"

def unmarshalArrayTimestamp : BufM (List Time) :=
  unmarshalArray TypeCode.timestamp "[]time.Time" 8 fun buf =>
    (fun n => Time.ofMillis n.toInt64) <$> uint64Element buf

def unmarshalArrayUUID : BufM (List UUID) := do
  let length ← readArrayHeader
  let type_ ← readType
  if type_ ≠ TypeCode.uuid then fail ("invalid type for []UUID 0x" ++ hex2 type_)
  else readElements 16 (s!"invalid length {length}") UUID.ofBytes length

/-- `MultiSymbol.Unmarshal`: a single symbol or an array of symbols. -/
def unmarshalMultiSymbol : BufM (List Bytes) := do
  let type_ ← peekType
  if type_ = sym8 ∨ type_ = sym32 then
    let s ← readString
    pure [s]
  else unmarshalArraySymbol

/-! ## Decoding into records -/

/-- Computations on a record and the buffer it is decoded from. -/
abbrev IntoM (σ : Type) := EStateM Fault (σ × Buffer)

/-- Run a reader on the buffer, leaving the record alone. -/
def onBuffer {σ α : Type} (m : BufM α) : IntoM σ α := fun s =>
  match m.run s.2 with
  | .ok a r => .ok a (s.1, r)
  | .error e r => .error e (s.1, r)

theorem run_onBuffer {σ α : Type} {m : BufM α} {a : α} {s : σ × Buffer} {r : Buffer}
    (h : m.run s.2 = .ok a r) : (onBuffer m : IntoM σ α).run s = .ok a (s.1, r) := by
  show onBuffer m s = _
  rw [onBuffer, h]

theorem run_onBuffer_error {σ α : Type} {m : BufM α} {e : Fault} {s : σ × Buffer} {r : Buffer}
    (h : m.run s.2 = .error e r) : (onBuffer m : IntoM σ α).run s = .error e (s.1, r) := by
  show onBuffer m s = _
  rw [onBuffer, h]

/-- Work on a part of the record. -/
def zoom {σ τ α : Type} (part : σ → τ) (put : τ → σ → σ) (m : IntoM τ α) : IntoM σ α := fun s =>
  match m.run (part s.1, s.2) with
  | .ok a (t, r) => .ok a (put t s.1, r)
  | .error e (t, r) => .error e (put t s.1, r)

/-- Decode into a new record. -/
def runNew {σ : Type} (zero : σ) (m : IntoM σ Unit) : BufM σ := fun r =>
  match m.run (zero, r) with
  | .ok _ (s, r') => .ok s r'
  | .error e (_, r') => .error e r'

/-- A field to be decoded. `HandleNull` of the source either fills in a default or is an error. -/
structure UnmarshalField (σ : Type) where
  field : IntoM σ Unit
  handleNull : Option (σ → Except String σ) := none

/-- `Unmarshal` leaves its target alone when the next value is null. -/
def orNull {σ : Type} (m : IntoM σ Unit) : IntoM σ Unit := do
  if ← onBuffer tryReadNull then pure () else m

/-- `Unmarshal` into a variable that is assigned when the read succeeds. -/
def assign {σ α : Type} (read : BufM α) (put : α → σ → σ) : IntoM σ Unit := orNull do
  let a ← onBuffer read
  modify fun s => (put a s.1, s.2)

/-- `n, err := read(r); *t = n; return err`: the variable is assigned `zero` when the read fails. -/
def assignAlways {σ α : Type} (read : BufM α) (zero : α) (put : α → σ → σ) : IntoM σ Unit :=
  orNull fun s =>
    match read.run s.2 with
    | .ok a r => .ok () (put a s.1, r)
    | .error e r => .error e (put zero s.1, r)

/-- `Unmarshal` through a pointer: a nil pointer is set to a new variable first. -/
def assignPtr {σ τ : Type} (part : σ → Option τ) (put : Option τ → σ → σ) (zero : τ)
    (m : IntoM τ Unit) : IntoM σ Unit :=
  orNull (zoom (fun s => (part s).getD zero) (fun t => put (some t)) (orNull m))

/-- A field that must not be null, with the error it gives. -/
def required {σ : Type} (msg : String) : Option (σ → Except String σ) := some fun _ => .error msg

/-- A field with a default. -/
def default_ {σ : Type} (put : σ → σ) : Option (σ → Except String σ) := some fun s => .ok (put s)

/-- The null handler of the field, if it has one. -/
def UnmarshalField.null {σ : Type} (f : UnmarshalField σ) : IntoM σ Unit :=
  match f.handleNull with
  | none => pure ()
  | some h => fun s =>
    match h s.1 with
    | .ok s' => .ok () (s', s.2)
    | .error msg => .error (.err msg) s

/-- The error of a nested call with a text in front. -/
def Fault.wrap (text : String) : Fault → Fault
  | .err msg => .err (text ++ msg)
  | f => f

/-- One round of the loop below. -/
def unmarshalField {σ : Type} (i : Nat) (f : UnmarshalField σ) : IntoM σ Unit := do
  if ← onBuffer tryReadNull then f.null
  else f.field.adaptExcept (Fault.wrap s!"unmarshaling field {i}: ")

/-- The loop of `UnmarshalComposite` over the fields that are present, from index `i`. -/
def unmarshalFields {σ : Type} : Nat → List (UnmarshalField σ) → IntoM σ Unit
  | _, [] => pure ()
  | i, f :: fs => do
    unmarshalField i f
    unmarshalFields (i + 1) fs

/-- The loop of `UnmarshalComposite` over the fields that are absent. -/
def nullFields {σ : Type} : List (UnmarshalField σ) → IntoM σ Unit
  | [] => pure ()
  | f :: fs => do
    f.null
    nullFields fs

/-- Descriptor, as its low eight bits, and number of fields of a composite. -/
def readCompositeHeader : BufM (UInt8 × Nat) := do
  let type_ ← readType
  if type_ ≠ 0 then fail ("invalid composite header 0x" ++ hex2 type_)
  else
    let v ← readUlong
    let fields ← readListHeader
    pure (v.toUInt8, fields)

/-- `UnmarshalComposite`: the fields that are there, then the null handlers of the rest. -/
def unmarshalComposite {σ : Type} (type_ : UInt8) (fields : List (UnmarshalField σ)) :
    IntoM σ Unit := do
  let (cType, numFields) ← onBuffer readCompositeHeader
  if cType ≠ type_ then fail ("invalid header 0x" ++ hex1 cType ++ " for 0x" ++ hex1 type_)
  else if numFields > fields.length then
    fail (s!"invalid field count {numFields} for 0x" ++ hex1 type_)
  else
    unmarshalFields 0 (fields.take numFields)
    nullFields (fields.drop numFields)

/-- `PeekMessageType`: the low eight bits of a descriptor and the length of its encoding. -/
def peekMessageType (buf : Bytes) : BufM (UInt8 × Nat) := do
  if buf.length < 3 then fail "invalid message"
  else
    let b0 ← index buf 0
    if b0 ≠ 0 then fail ("invalid composite header " ++ hex2 b0)
    else
      let t ← index buf 1
      if t = ulong0 then pure (0, 2)
      else if t = smallUlong then
        if (buf.drop 2).length = 0 then fail "invalid ulong"
        else
          let c ← index buf 2
          pure (c, 3)
      else if t ≠ TypeCode.ulong then fail ("invalid type for uint32 " ++ hex2 t)
      else if (buf.drop 2).length < 8 then fail "invalid ulong"
      else
        let v ← bigEndian 8 (buf.drop 2)
        pure (UInt8.ofNat v, 10)

/-! ## Maps and lists -/

/-- The entry loop of the map decoders, `for i := uint32(0); i < count; i += 2`. The bound covers
    the rounds that the unread bytes allow. -/
def mapLoop {μ : Type} (round : μ → BufM μ) : Nat → UInt32 → UInt32 → μ → BufM μ
  | 0, _, _, _ => throw .depth
  | bound + 1, i, count, m =>
    if i < count then do
      let m' ← round m
      mapLoop round bound (i + 2) count m'
    else pure m

/-- The loop of the decoders of maps, given its round. -/
def unmarshalMap {κ β : Type} (round : List (κ × β) → BufM (List (κ × β))) :
    BufM (List (κ × β)) := do
  let count ← readMapHeader
  let left ← len
  mapLoop round (left + 1) 0 count []

section ReadAny

/-! ## `ReadAny`

`readAny` stands for the nested calls. -/

variable (readAny : BufM Value)

/-- `list.Unmarshal`. -/
def unmarshalList : BufM (List Value) := do
  let length ← readListHeader
  let left ← len
  if length > left then fail (s!"invalid length {length}") else readN readAny length

/-- `mapAnyAny.Unmarshal`; slices and maps are refused as keys. -/
def unmarshalMapAnyAny : BufM (List (Value × Value)) := unmarshalMap fun m => do
  let key ← readAny
  let value ← readAny
  if key.kind ≠ .other then fail "invalid map key" else assignAny m key value

/-- `Annotations.Unmarshal`. -/
def unmarshalAnnotations : BufM Annotations := unmarshalMap fun m => do
  let key ← readAny
  let value ← readAny
  assignAny m key value

/-- `mapStringAny.Unmarshal`, also `mapSymbolAny.Unmarshal`. -/
def unmarshalMapStringAny : BufM (List (Bytes × Value)) := unmarshalMap fun m => do
  let key ← readString
  let value ← readAny
  pure (assignString m key value)

/-- Whether a key of a decoded map is a string or a symbol. -/
def Value.isStringKey : Value → Bool
  | .string _ | .symbol _ => true
  | _ => false

/-- The copy of a map with string keys into a `map[string]any`. -/
def toStringMap (m : List (Value × Value)) : List (Bytes × Value) :=
  m.foldl (fun mm e =>
    match e.1 with
    | .string key => assignString mm key e.2
    | .symbol key => assignString mm key e.2
    | _ => mm) []

/-- `readAnyMap`: with string keys only, the map becomes a `map[string]any`. -/
def readAnyMap : BufM Value := do
  let m ← unmarshalMapAnyAny readAny
  if m.isEmpty then pure (.mapAny m)
  else if m.all (fun e => e.1.isStringKey) then pure (.mapString (toStringMap m))
  else pure (.mapAny m)

/-- `Unmarshal` into a nil `any`. -/
def unmarshalAny : BufM Value := do
  if ← tryReadNull then pure Value.nil else readAny

/-- `DescribedType.Unmarshal`. -/
def unmarshalDescribed : BufM (Value × Value) := do
  let b ← readByte
  if b ≠ 0 then fail ("invalid described type header " ++ hex2 b)
  else
    let descriptor ← unmarshalAny readAny
    let value ← unmarshalAny readAny
    pure (descriptor, value)

/-- `Error{}`. -/
def zeroError : AmqpError Value := ⟨[], [], []⟩

/-- `Error.Unmarshal`. -/
def unmarshalError : IntoM (AmqpError Value) Unit := unmarshalComposite TypeCode.error [
  { field := assignAlways readString [] fun v e => { e with condition := v },
    handleNull := required "Error.Condition is required" },
  { field := assign readString fun v e => { e with description := v } },
  { field := assign (unmarshalMapStringAny readAny) fun v e => { e with info := v } }]

/-- `StateReceived.Unmarshal`. -/
def unmarshalStateReceived : IntoM (UInt32 × UInt64) Unit :=
  unmarshalComposite stateReceived [
    { field := assign readUint32Value fun v s => (v, s.2),
      handleNull := required "StateReceiver.SectionNumber is required" },
    { field := assign readUlong fun v s => (s.1, v),
      handleNull := required "StateReceiver.SectionOffset is required" }]

/-- `StateRejected.Unmarshal`. -/
def unmarshalStateRejected : IntoM (Option (AmqpError Value)) Unit :=
  unmarshalComposite stateRejected [
    { field := assignPtr id (fun v _ => v) zeroError (unmarshalError readAny) }]

/-- `StateModified.Unmarshal`. -/
def unmarshalStateModified : IntoM (Bool × Bool × Option Annotations) Unit :=
  unmarshalComposite stateModified [
    { field := assign readBool fun v s => (v, s.2) },
    { field := assign readBool fun v s => (s.1, v, s.2.2) },
    { field := assign (unmarshalAnnotations readAny) fun v s => (s.1, s.2.1, some v) }]

/-- `Unmarshal` of a new delivery state of the type that `code` names. -/
def unmarshalState (code : UInt8) : BufM (DeliveryState Value) :=
  if code = stateAccepted then do
    let _ ← runNew () (unmarshalComposite stateAccepted [])
    pure .accepted
  else if code = stateModified then do
    let s ← runNew (false, false, none) (unmarshalStateModified readAny)
    pure (.modified s.1 s.2.1 s.2.2)
  else if code = stateReceived then do
    let s ← runNew (0, 0) unmarshalStateReceived
    pure (.received s.1 s.2)
  else if code = stateRejected then do
    let s ← runNew none (unmarshalStateRejected readAny)
    pure (.rejected s)
  else if code = stateReleased then do
    let _ ← runNew () (unmarshalComposite stateReleased [])
    pure .released
  else fail (s!"unexpected type {code.toNat} for deliveryState")

/-- `Unmarshal` into a `DeliveryState` variable, past the test for null. -/
def unmarshalDeliveryState : BufM (DeliveryState Value) := do
  let buf ← bytes
  let (type_, _) ← peekMessageType buf
  unmarshalState readAny type_

/-- `LifetimePolicy.Unmarshal`. -/
def unmarshalLifetimePolicy : BufM UInt8 := do
  let (typ, fields) ← readCompositeHeader
  if fields ≠ 0 then fail (s!"invalid size {fields} for lifetime-policy") else pure typ

/-- The descriptors that `readComposite` knows and does not decode. -/
def notImplemented : List UInt8 := [
  TypeCode.open_, TypeCode.begin_, TypeCode.attach, TypeCode.flow, TypeCode.transfer,
  TypeCode.disposition, TypeCode.detach, TypeCode.end_, TypeCode.close, TypeCode.source,
  TypeCode.target, TypeCode.messageHeader, TypeCode.deliveryAnnotations,
  messageAnnotations, TypeCode.messageProperties, TypeCode.applicationProperties,
  applicationData, amqpSequence, amqpValue, TypeCode.footer,
  saslMechanism, TypeCode.saslInit, saslChallenge, TypeCode.saslResponse,
  saslOutcome]

/-- The descriptor of a composite as `readComposite` peeks at it: zero unless it is a ulong. -/
def peekDescriptor (buf : Bytes) : BufM Nat := do
  let b1 ← index buf 1
  if b1 = smallUlong then
    if buf.length < 3 then fail "invalid length for smallulong"
    else
      let c ← index buf 2
      pure c.toNat
  else if b1 = TypeCode.ulong then
    if buf.length < 10 then fail "invalid length for ulong" else bigEndian 8 (buf.drop 2)
  else pure 0

def readDescribed : BufM Value := do
  let dt ← unmarshalDescribed readAny
  pure (.described dt.1 dt.2)

/-- The switch of `readComposite` on a descriptor of at most eight bits. -/
def compositeReader (code : UInt8) : BufM Value :=
  if code = TypeCode.error then do
    let e ← runNew zeroError (unmarshalError readAny)
    pure (.error e)
  else if code = deleteOnClose ∨ code = deleteOnNoMessages
      ∨ code = deleteOnNoLinks ∨ code = deleteOnNoLinksOrMessages then do
    let p ← unmarshalLifetimePolicy
    pure (.lifetimePolicy p)
  else if code = stateAccepted ∨ code = stateModified
      ∨ code = stateReceived ∨ code = stateRejected
      ∨ code = stateReleased then do
    let s ← unmarshalState readAny code
    pure (.state s)
  else if notImplemented.contains code then
    fail ("readComposite unmarshal not implemented for 0x" ++ hex2 code)
  else readDescribed readAny

/-- `readComposite`, by the descriptor, which is looked at and then read again. -/
def readComposite : BufM Value := do
  let buf ← bytes
  if buf.length < 2 then fail "invalid length for composite"
  else
    let b0 ← index buf 0
    if b0 ≠ 0 then fail ("invalid composite header 0x" ++ hex2 b0)
    else
      let compositeType ← peekDescriptor buf
      if compositeType > 255 then readDescribed readAny
      else compositeReader readAny (UInt8.ofNat compositeType)

/-- The switch of `readAnyArray` on the element type. -/
def arrayReader (code : UInt8) : BufM Value :=
  if code = TypeCode.byte then .arrayInt8 <$> unmarshalArrayInt8
  else if code = TypeCode.ubyte then .arrayUByte <$> unmarshalArrayUByte
  else if code = TypeCode.ushort then .arrayUint16 <$> unmarshalArrayUint16
  else if code = TypeCode.short then .arrayInt16 <$> unmarshalArrayInt16
  else if code = uint0 ∨ code = smallUint ∨ code = TypeCode.uint then
    .arrayUint32 <$> unmarshalArrayUint32
  else if code = smallint ∨ code = TypeCode.int then .arrayInt32 <$> unmarshalArrayInt32
  else if code = ulong0 ∨ code = smallUlong ∨ code = TypeCode.ulong then
    .arrayUint64 <$> unmarshalArrayUint64
  else if code = smalllong ∨ code = TypeCode.long then
    .arrayInt64 <$> unmarshalArrayInt64
  else if code = TypeCode.float then .arrayFloat <$> unmarshalArrayFloat
  else if code = TypeCode.double then .arrayDouble <$> unmarshalArrayDouble
  else if code = TypeCode.bool ∨ code = boolTrue ∨ code = boolFalse then
    .arrayBool <$> unmarshalArrayBool
  else if code = str8 ∨ code = str32 then
    .arrayString <$> unmarshalArrayString
  else if code = sym8 ∨ code = sym32 then
    .arraySymbol <$> unmarshalArraySymbol
  else if code = vbin8 ∨ code = vbin32 then
    .arrayBinary <$> unmarshalArrayBinary
  else if code = TypeCode.timestamp then .arrayTimestamp <$> unmarshalArrayTimestamp
  else if code = TypeCode.uuid then .arrayUUID <$> unmarshalArrayUUID
  else fail ("array decoding not implemented for 0x" ++ hex2 code)

/-- Where the element type of an array stands. -/
def arrayTypeIdx (b0 : UInt8) : BufM Nat :=
  if b0 = array8 then pure 3
  else if b0 = array32 then pure 9
  else fail ("invalid array type " ++ hex2 b0)

/-- `readAnyArray`, by the type of the elements. -/
def readAnyArray : BufM Value := do
  let buf ← bytes
  if buf.length < 1 then fail "invalid length"
  else
    let b0 ← index buf 0
    let typeIdx ← arrayTypeIdx b0
    if buf.length < typeIdx + 1 then fail "invalid length"
    else
      let code ← index buf typeIdx
      arrayReader code

/-- The switch of `ReadAny` on the type code. -/
def anyReader (type_ : UInt8) : BufM Value :=
  if type_ = 0x0 then readComposite readAny
  else if type_ = TypeCode.bool ∨ type_ = boolTrue ∨ type_ = boolFalse then
    .bool <$> readBool
  else if type_ = TypeCode.ubyte then .uint8 <$> readUbyte
  else if type_ = TypeCode.ushort then .uint16 <$> readUshort
  else if type_ = TypeCode.uint ∨ type_ = smallUint ∨ type_ = uint0 then
    .uint32 <$> readUint32Value
  else if type_ = TypeCode.ulong ∨ type_ = smallUlong ∨ type_ = ulong0 then
    .uint64 <$> readUlong
  else if type_ = TypeCode.byte then .int8 <$> readSbyte
  else if type_ = TypeCode.short then .int16 <$> readShort
  else if type_ = TypeCode.int ∨ type_ = smallint then .int32 <$> readInt32
  else if type_ = TypeCode.long ∨ type_ = smalllong then .int64 <$> readLong
  else if type_ = TypeCode.float then .float32 <$> readFloat
  else if type_ = TypeCode.double then .float64 <$> readDouble
  else if type_ = vbin8 ∨ type_ = vbin32 then .binary <$> readBinary
  else if type_ = str8 ∨ type_ = str32 then .string <$> readString
  else if type_ = sym8 ∨ type_ = sym32 then .string <$> readString
  else if type_ = TypeCode.timestamp then .time <$> readTimestamp
  else if type_ = TypeCode.uuid then .uuid <$> readUUID
  else if type_ = array8 ∨ type_ = array32 then readAnyArray
  else if type_ = list0 ∨ type_ = list8 ∨ type_ = list32 then
    .list <$> unmarshalList readAny
  else if type_ = map8 ∨ type_ = map32 then readAnyMap readAny
  else if type_ = TypeCode.decimal32 then fail "decimal32 not implemented"
  else if type_ = TypeCode.decimal64 then fail "decimal64 not implemented"
  else if type_ = TypeCode.decimal128 then fail "decimal128 not implemented"
  else if type_ = TypeCode.char then fail "char not implemented"
  else fail ("unknown type 0x" ++ hex2 type_)

/-- The body of `ReadAny`. -/
def readAnyBody : BufM Value := do
  if ← tryReadNull then pure .nil
  else
    let left ← len
    -- `peekType` fails only at the end of the buffer; its error is replaced
    if left = 0 then fail "invalid length"
    else
      let type_ ← peekType
      anyReader readAny type_

end ReadAny

/-- `ReadAny` with at most `depth` nested calls on a path. -/
def readAnyDepth : Nat → BufM Value
  | 0 => throw .depth
  | depth + 1 => readAnyBody (readAnyDepth depth)

/-- `ReadAny`: the depth bound exceeds the number of unread bytes. -/
def readAny : BufM Value := do
  let left ← len
  readAnyDepth (left + 1)

end GoAmqp
