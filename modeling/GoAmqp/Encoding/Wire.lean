import GoAmqp.Encoding.Types
import GoAmqp.Lib.Utf8

set_option autoImplicit false

/-! # The wire format

What the codec is for, stated without buffers: `encode v` is the encoding of `v`, `v.norm` is the
value that the encoding stands for, and `v.codable` holds of the values the format can carry without
loss. The encoder is proved to write `encode v`, the decoder to read `v.norm` back from it.

The wire has one type of map and no difference between strings and symbols once decoded, so `norm`
turns symbols into strings, the machine-sized integers into their 64-bit types, and a non-empty map
whose keys are all strings into a `map[string]any`. An empty map decodes as a `map[any]any`. -/

namespace GoAmqp

open Lib TypeCode List

variable {m : List (Value × Value)} {codes : List UInt8} {bs : Bytes} {α : Type}

/-! ## Scalars -/

def encodeInt32 (n : Int32) : Bytes :=
  if n < 128 ∧ n ≥ -128 then [smallint, n.toUInt32.toUInt8]
  else TypeCode.int :: be32 n.toUInt32

def encodeInt64 (n : Int64) : Bytes :=
  if n < 128 ∧ n ≥ -128 then [smalllong, n.toUInt64.toUInt8]
  else TypeCode.long :: be64 n.toUInt64

def encodeUint32 (n : UInt32) : Bytes :=
  if n = 0 then [uint0]
  else if n < 256 then [smallUint, n.toUInt8]
  else TypeCode.uint :: be32 n

def encodeUint64 (n : UInt64) : Bytes :=
  if n = 0 then [ulong0]
  else if n < 256 then [smallUlong, n.toUInt8]
  else TypeCode.ulong :: be64 n

def encodeBool (b : Bool) : Bytes := [if b then boolTrue else boolFalse]

def encodeTimestamp (t : Time) : Bytes := timestamp :: be64 t.millis.toUInt64

/-- Strings, symbols and byte slices: a one-byte length when it fits, else a four-byte one. -/
def encodeVariable (code8 code32 : UInt8) (s : Bytes) : Bytes :=
  if s.length < 256 then code8 :: UInt8.ofNat s.length :: s
  else code32 :: (be32 (UInt32.ofNat s.length) ++ s)

def encodeString : Bytes → Bytes := encodeVariable str8 str32

def encodeSymbol : Bytes → Bytes := encodeVariable sym8 sym32

def encodeBinary : Bytes → Bytes := encodeVariable vbin8 vbin32

def encodeUUID (u : UUID) : Bytes := TypeCode.uuid :: u.bytes

def encodeLifetimePolicy (code : UInt8) : Bytes := [0x0, smallUlong, code, list0]

/-! ## Compounds -/

/-- A list or a map: four-byte size and count, then the contents. -/
def encodeCompound (code : UInt8) (count : Nat) (contents : Bytes) : Bytes :=
  code :: (be32 (UInt32.ofNat (contents.length + 4)) ++ (be32 (UInt32.ofNat count) ++ contents))

/-- A list, given its contents. -/
def encodeList (length : Nat) (contents : Bytes) : Bytes :=
  if length = 0 then [list0] else encodeCompound list32 length contents

/-- A map, given its contents. -/
def encodeMap (length : Nat) (contents : Bytes) : Bytes := encodeCompound map32 (length * 2) contents

/-- Type code, size and length of an array whose elements take `size` bytes. -/
def encodeArraySizes (length size : Nat) : Bytes :=
  if size + 2 ≤ 255 then [array8, UInt8.ofNat (size + 2), UInt8.ofNat length]
  else array32 :: (be32 (UInt32.ofNat (size + 5)) ++ be32 (UInt32.ofNat length))

/-- The header of an array. -/
def encodeArrayHeader (length size : Nat) (type_ : UInt8) : Bytes := encodeArraySizes length size ++ [type_]

/-- An array whose elements all have `typeSize` bytes. -/
def encodeArray {α : Type} (typeSize : Nat) (type_ : UInt8) (element : α → Bytes) (a : List α) :
    Bytes :=
  encodeArrayHeader a.length (a.length * typeSize) type_ ++ a.flatMap element

def encodeArrayUint32 (a : List UInt32) : Bytes :=
  if a.any (· > 255) then encodeArray 4 TypeCode.uint be32 a
  else encodeArray 1 smallUint (fun n => [n.toUInt8]) a

def encodeArrayUint64 (a : List UInt64) : Bytes :=
  if a.any (· > 255) then encodeArray 8 TypeCode.ulong be64 a
  else encodeArray 1 smallUlong (fun n => [n.toUInt8]) a

/-- An array of strings, symbols or byte slices; four-byte lengths as soon as one is needed. -/
def encodeVariableArray (code8 code32 : UInt8) (a : List Bytes) : Bytes :=
  let size := (a.map List.length).sum
  if a.any (fun s => s.length > 255) then
    encodeArrayHeader a.length (size + a.length * 4) code32
      ++ a.flatMap fun s => be32 (UInt32.ofNat s.length) ++ s
  else
    encodeArrayHeader a.length (size + a.length) code8
      ++ a.flatMap fun s => UInt8.ofNat s.length :: s

/-- The fields of a composite up to the last one that is set. -/
def trimFields : List (Option Bytes) → List (Option Bytes)
  | [] => []
  | f :: fs => if f.isNone && (trimFields fs).isEmpty then [] else f :: trimFields fs

/-- The encoding of a field; one that is not set is null. -/
def encodeField (f : Option Bytes) : Bytes := f.getD [TypeCode.null]

/-- A described list of fields. -/
def encodeComposite (code : UInt8) (fields : List (Option Bytes)) : Bytes :=
  let set_ := trimFields fields
  [0x0, smallUlong, code] ++ encodeList set_.length (set_.flatMap encodeField)

/-- A field that is only written when `omitted` is false. -/
def fieldUnless (omitted : Bool) (bs : Bytes) : Option Bytes := if omitted then none else some bs

/-! ## Values -/

/-- The key of an annotations entry; strings are symbols on the wire. -/
def encodeAnnotationKey : Value → Bytes
  | .string s => encodeSymbol s
  | .symbol s => encodeSymbol s
  | .int64 n => encodeInt64 n
  | .int n => encodeInt64 n
  | _ => []

mutual

/-- The bytes that `Marshal` writes. -/
def encode : Value → Bytes
  | .nil => [TypeCode.null]
  | .bool b => encodeBool b
  | .uint n => encodeUint64 n
  | .uint64 n => encodeUint64 n
  | .uint32 n => encodeUint32 n
  | .uint16 n => ushort :: be16 n
  | .uint8 n => [ubyte, n]
  | .int n => encodeInt64 n
  | .int8 n => [TypeCode.byte, n.toUInt8]
  | .int16 n => TypeCode.short :: be16 n.toUInt16
  | .int32 n => encodeInt32 n
  | .int64 n => encodeInt64 n
  | .float32 bits => float :: be32 bits
  | .float64 bits => double :: be64 bits
  | .string s => encodeString s
  | .symbol s => encodeSymbol s
  | .binary b => encodeBinary b
  | .time t => encodeTimestamp t
  | .uuid u => encodeUUID u
  | .arrayUByte a => encodeArray 1 ubyte (fun n => [n]) a
  | .arrayInt8 a => encodeArray 1 TypeCode.byte (fun n => [n.toUInt8]) a
  | .arrayUint16 a => encodeArray 2 ushort be16 a
  | .arrayInt16 a => encodeArray 2 TypeCode.short (fun n => be16 n.toUInt16) a
  | .arrayUint32 a => encodeArrayUint32 a
  | .arrayUint64 a => encodeArrayUint64 a
  | .arrayFloat a => encodeArray 4 float be32 a
  | .arrayDouble a => encodeArray 8 double be64 a
  | .arrayBool a => encodeArray 1 TypeCode.bool (fun b => [if b then 1 else 0]) a
  | .arrayTimestamp a => encodeArray 8 timestamp (fun t => be64 t.millis.toUInt64) a
  | .arrayUUID a => encodeArray 16 TypeCode.uuid UUID.bytes a
  | .list xs => encodeList xs.length (encodeElements xs)
  | .mapAny m => encodeMap m.length (encodeEntries m)
  | .mapString m => encodeMap m.length (encodeStringEntries m)
  | .mapSymbol m => encodeMap m.length (encodeSymbolEntries m)
  | .described d v => 0x0 :: (encode d ++ encode v)
  | .error e => encodeError e
  | .state s => encodeState s
  | .lifetimePolicy code => encodeLifetimePolicy code
  -- not `codable`
  | .arrayInt32 _ | .arrayInt64 _ | .arrayString _ | .arraySymbol _ | .arrayBinary _
  | .marshaler _ | .other _ => []

def encodeError : AmqpError Value → Bytes
  | ⟨condition, description, info⟩ =>
    encodeComposite TypeCode.error [
      some (encodeSymbol condition),
      fieldUnless description.isEmpty (encodeString description),
      fieldUnless info.isEmpty (encodeMap info.length (encodeStringEntries info))]

def encodeState : DeliveryState Value → Bytes
  | .received sectionNumber sectionOffset =>
    encodeComposite stateReceived [
      some (encodeUint32 sectionNumber), some (encodeUint64 sectionOffset)]
  | .accepted => encodeComposite stateAccepted []
  | .rejected none => encodeComposite stateRejected [none]
  | .rejected (some e) => encodeComposite stateRejected [some (encodeError e)]
  | .released => encodeComposite stateReleased []
  | .modified deliveryFailed undeliverableHere none =>
    encodeComposite stateModified [
      fieldUnless (!deliveryFailed) (encodeBool deliveryFailed),
      fieldUnless (!undeliverableHere) (encodeBool undeliverableHere),
      none]
  | .modified deliveryFailed undeliverableHere (some m) =>
    encodeComposite stateModified [
      fieldUnless (!deliveryFailed) (encodeBool deliveryFailed),
      fieldUnless (!undeliverableHere) (encodeBool undeliverableHere),
      some (encodeMap m.length (encodeAnnotationEntries m))]

def encodeElements : List Value → Bytes
  | [] => []
  | x :: xs => encode x ++ encodeElements xs

def encodeEntries : List (Value × Value) → Bytes
  | [] => []
  | (k, v) :: m => (encode k ++ encode v) ++ encodeEntries m

def encodeStringEntries : List (Bytes × Value) → Bytes
  | [] => []
  | (k, v) :: m => (encodeString k ++ encode v) ++ encodeStringEntries m

def encodeSymbolEntries : List (Bytes × Value) → Bytes
  | [] => []
  | (k, v) :: m => (encodeSymbol k ++ encode v) ++ encodeSymbolEntries m

def encodeAnnotationEntries : List (Value × Value) → Bytes
  | [] => []
  | (k, v) :: m => (encodeAnnotationKey k ++ encode v) ++ encodeAnnotationEntries m

end

def encodeAnnotations (a : Annotations) : Bytes := encodeMap a.length (encodeAnnotationEntries a)

/-! ## Normal forms -/

/-- The key of a `map[string]any` that a string or symbol key turns into. -/
def Value.keyBytes? : Value → Option Bytes
  | .string s => some s
  | .symbol s => some s
  | _ => none

/-- The entries of a map whose keys are strings. -/
def stringEntries (m : List (Value × Value)) : List (Bytes × Value) :=
  m.filterMap fun e => e.1.keyBytes?.map fun k => (k, e.2)

/-- A decoded map. -/
def Value.ofEntries (m : List (Value × Value)) : Value :=
  if m.isEmpty || !m.all (fun e => e.1.keyBytes?.isSome) then .mapAny m
  else .mapString (stringEntries m)

/-- A decoded map all of whose keys were strings or symbols. -/
def Value.ofStringEntries (m : List (Bytes × Value)) : Value :=
  if m.isEmpty then .mapAny [] else .mapString m

mutual

/-- The value that is read back. -/
def Value.norm : Value → Value
  | .uint n => .uint64 n
  | .int n => .int64 n
  | .symbol s => .string s
  | .list xs => .list (normElements xs)
  | .mapAny m => .ofEntries (normEntries m)
  | .mapString m => .ofStringEntries (normStringEntries m)
  | .mapSymbol m => .ofStringEntries (normStringEntries m)
  | .described d v => .described d.norm v.norm
  | .error e => .error (normError e)
  | .state s => .state (normState s)
  | v => v

def normError : AmqpError Value → AmqpError Value
  | ⟨condition, description, info⟩ => ⟨condition, description, normStringEntries info⟩

def normState : DeliveryState Value → DeliveryState Value
  | .rejected (some e) => .rejected (some (normError e))
  | .modified deliveryFailed undeliverableHere (some m) =>
    .modified deliveryFailed undeliverableHere (some (normEntries m))
  | s => s

def normElements : List Value → List Value
  | [] => []
  | x :: xs => x.norm :: normElements xs

def normEntries : List (Value × Value) → List (Value × Value)
  | [] => []
  | (k, v) :: m => (k.norm, v.norm) :: normEntries m

def normStringEntries : List (Bytes × Value) → List (Bytes × Value)
  | [] => []
  | (k, v) :: m => (k, v.norm) :: normStringEntries m

end

/-! ## The values the format carries -/

/-- Whole milliseconds within the range of `UnixNano`. -/
def Time.codable (t : Time) : Bool := t.ns % 1000000 == 0 && decide (-2 ^ 63 ≤ t.ns) && decide (t.ns < 2 ^ 63)

/-- The keys of a `map[any]any`: booleans, integers, strings, symbols and UUIDs. -/
def Value.codableKey : Value → Bool
  | .bool _ | .uint _ | .uint64 _ | .uint32 _ | .uint16 _ | .uint8 _ | .int _ | .int8 _ | .int16 _
  | .int32 _ | .int64 _ | .symbol _ | .uuid _ => true
  | .string s => validUtf8 s
  | _ => false

/-- The keys of an annotations map. Strings are written as symbols, whatever their bytes. -/
def Value.annotationKey : Value → Bool
  | .string _ | .symbol _ | .int64 _ | .int _ => true
  | _ => false

/-- No two entries of a map have the same key once decoded. -/
def distinctKeys (m : List (Value × Value)) : Bool :=
  decide ((m.map fun e => e.1.norm).Pairwise fun k k' => k.keyEq k' = false)

/-- No two entries have the same key. -/
def distinctStrings (m : List (Bytes × Value)) : Bool := decide (m.map Prod.fst).Nodup

/-- The descriptors for which `readComposite` does not decode a described type. -/
def reservedCodes : List UInt8 := [
  -- performatives
  0x10, 0x11, 0x12, 0x13, 0x14, 0x15, 0x16, 0x17, 0x18,
  -- error, delivery states, source and target, lifetime policies
  0x1d, 0x23, 0x24, 0x25, 0x26, 0x27, 0x28, 0x29, 0x2b, 0x2c, 0x2d, 0x2e,
  -- SASL frames
  0x40, 0x41, 0x42, 0x43, 0x44,
  -- message sections
  0x70, 0x71, 0x72, 0x73, 0x74, 0x75, 0x76, 0x77, 0x78]

/-- The value is a ulong with one of the reserved codes. -/
def Value.reserved : Value → Bool
  | .uint64 n | .uint n => n < 256 && reservedCodes.contains n.toUInt8
  | _ => false

/-- The four lifetime policies. -/
def lifetimePolicies : List UInt8 := [
  deleteOnClose, deleteOnNoLinks, deleteOnNoMessages,
  deleteOnNoLinksOrMessages]

mutual

/-- The values that read back in normal form. Of what `Marshal` writes it leaves out the arrays of `int32`,
    `int64`, strings, symbols and byte slices, and the other types with a `Marshal` method. -/
def Value.codable : Value → Bool
  | .nil | .bool _ | .uint _ | .uint64 _ | .uint32 _ | .uint16 _ | .uint8 _ | .int _ | .int8 _
  | .int16 _ | .int32 _ | .int64 _ | .float32 _ | .float64 _ | .symbol _ | .binary _ | .uuid _
  | .arrayUByte _ | .arrayInt8 _ | .arrayUint16 _ | .arrayInt16 _ | .arrayUint32 _ | .arrayUint64 _
  | .arrayFloat _ | .arrayDouble _ | .arrayBool _ | .arrayUUID _ => true
  | .string s => validUtf8 s
  | .time t => t.codable
  | .arrayTimestamp ts => ts.all Time.codable
  | .list xs => codableElements xs
  | .mapAny m => codableEntries m && m.all (fun e => e.1.codableKey) && distinctKeys m
  | .mapString m => codableValues m && m.all (fun e => validUtf8 e.1) && distinctStrings m
  | .mapSymbol m => codableValues m && distinctStrings m
  | .described d v => d.codable && v.codable && !d.reserved
  | .error e => codableError e
  | .state s => codableState s
  | .lifetimePolicy code => lifetimePolicies.contains code
  | .arrayInt32 _ | .arrayInt64 _ | .arrayString _ | .arraySymbol _ | .arrayBinary _
  | .marshaler _ | .other _ => false

def codableError : AmqpError Value → Bool
  | ⟨_, description, info⟩ =>
    validUtf8 description && codableValues info && info.all (fun e => validUtf8 e.1)
      && distinctStrings info

def codableState : DeliveryState Value → Bool
  | .rejected (some e) => codableError e
  | .modified _ _ (some m) =>
    codableEntries m && m.all (fun e => e.1.annotationKey) && distinctKeys m
  | _ => true

def codableElements : List Value → Bool
  | [] => true
  | x :: xs => x.codable && codableElements xs

/-- The values of the entries; what the keys may be depends on the map. -/
def codableEntries : List (Value × Value) → Bool
  | [] => true
  | (_, v) :: m => v.codable && codableEntries m

def codableValues : List (Bytes × Value) → Bool
  | [] => true
  | (_, v) :: m => v.codable && codableValues m

end

/-- The annotations maps the format carries. -/
def codableAnnotations (m : Annotations) : Bool :=
  codableEntries m && m.all (fun e => e.1.annotationKey) && distinctKeys m

/-! ## Loops as list functions -/

theorem encodeElements_eq (xs : List Value) : encodeElements xs = xs.flatMap encode := by
  induction xs with
  | nil => rfl
  | cons x xs ih => rw [encodeElements, ih, flatMap_cons]

theorem encodeEntries_eq (m : List (Value × Value)) :
    encodeEntries m = m.flatMap fun e => encode e.1 ++ encode e.2 := by
  induction m with
  | nil => rfl
  | cons e m ih => rw [encodeEntries, ih, flatMap_cons]

theorem encodeStringEntries_eq (m : List (Bytes × Value)) :
    encodeStringEntries m = m.flatMap fun e => encodeString e.1 ++ encode e.2 := by
  induction m with
  | nil => rfl
  | cons e m ih => rw [encodeStringEntries, ih, flatMap_cons]

theorem encodeSymbolEntries_eq (m : List (Bytes × Value)) :
    encodeSymbolEntries m = m.flatMap fun e => encodeSymbol e.1 ++ encode e.2 := by
  induction m with
  | nil => rfl
  | cons e m ih => rw [encodeSymbolEntries, ih, flatMap_cons]

theorem encodeAnnotationEntries_eq (m : List (Value × Value)) :
    encodeAnnotationEntries m = m.flatMap fun e => encodeAnnotationKey e.1 ++ encode e.2 := by
  induction m with
  | nil => rfl
  | cons e m ih => rw [encodeAnnotationEntries, ih, flatMap_cons]

theorem normElements_eq (xs : List Value) : normElements xs = xs.map Value.norm := by
  induction xs with
  | nil => rfl
  | cons x xs ih => rw [normElements, ih, map_cons]

theorem normEntries_eq (m : List (Value × Value)) : normEntries m = m.map fun e => (e.1.norm, e.2.norm) := by
  induction m with
  | nil => rfl
  | cons e m ih => rw [normEntries, ih, map_cons]

theorem normStringEntries_eq (m : List (Bytes × Value)) : normStringEntries m = m.map fun e => (e.1, e.2.norm) := by
  induction m with
  | nil => rfl
  | cons e m ih => rw [normStringEntries, ih, map_cons]

theorem codableElements_iff {xs : List Value} : codableElements xs = true ↔ ∀ x ∈ xs, x.codable = true := by
  induction xs with
  | nil => simp [codableElements]
  | cons x xs ih => simp [codableElements, ih]

theorem codableEntries_iff : codableEntries m = true ↔ ∀ e ∈ m, e.2.codable = true := by
  induction m with
  | nil => simp [codableEntries]
  | cons e m ih => simp [codableEntries, ih]

theorem codableValues_iff {m : List (Bytes × Value)} : codableValues m = true ↔ ∀ e ∈ m, e.2.codable = true := by
  induction m with
  | nil => simp [codableValues]
  | cons e m ih => simp [codableValues, ih]

/-! ## Type codes

Every encoding starts with a type code; which codes are possible decides how the decoder goes on. -/

/-- `bs` starts with one of `codes`. -/
def StartsWith (codes : List UInt8) (bs : Bytes) : Prop := ∃ t tail, bs = t :: tail ∧ t ∈ codes

namespace StartsWith

theorem cons {t : UInt8} (tail : Bytes) (h : t ∈ codes) : StartsWith codes (t :: tail) := ⟨t, tail, rfl, h⟩

theorem mono {codes' : List UInt8} (h : StartsWith codes bs) (hsub : codes ⊆ codes') : StartsWith codes' bs := by
  obtain ⟨t, tail, rfl, ht⟩ := h
  exact ⟨t, tail, rfl, hsub ht⟩

theorem pos (h : StartsWith codes bs) : 0 < bs.length := by
  obtain ⟨t, tail, rfl, -⟩ := h
  exact Nat.succ_pos _

theorem append (h : StartsWith codes bs) (cs : Bytes) : StartsWith codes (bs ++ cs) := by
  obtain ⟨t, tail, rfl, ht⟩ := h
  exact ⟨t, tail ++ cs, rfl, ht⟩

end StartsWith

theorem starts_encodeUint32 (n : UInt32) : StartsWith [uint0, smallUint, TypeCode.uint] (encodeUint32 n) := by
  unfold encodeUint32
  split
  · exact .cons _ (by decide)
  split <;> exact .cons _ (by decide)

theorem starts_encodeUint64 (n : UInt64) : StartsWith [ulong0, smallUlong, TypeCode.ulong] (encodeUint64 n) := by
  unfold encodeUint64
  split
  · exact .cons _ (by decide)
  split <;> exact .cons _ (by decide)

theorem starts_encodeInt32 (n : Int32) : StartsWith [smallint, TypeCode.int] (encodeInt32 n) := by
  unfold encodeInt32
  split <;> exact .cons _ (by decide)

theorem starts_encodeInt64 (n : Int64) : StartsWith [smalllong, TypeCode.long] (encodeInt64 n) := by
  unfold encodeInt64
  split <;> exact .cons _ (by decide)

theorem starts_encodeBool (b : Bool) : StartsWith [boolTrue, boolFalse] (encodeBool b) := by
  cases b <;> exact .cons _ (by decide)

theorem starts_encodeVariable (code8 code32 : UInt8) (s : Bytes) :
    StartsWith [code8, code32] (encodeVariable code8 code32 s) := by
  unfold encodeVariable
  split <;> exact .cons _ (by simp)

theorem starts_encodeArrayHeader (length size : Nat) (type_ : UInt8) :
    StartsWith [array8, array32] (encodeArrayHeader length size type_) := by
  unfold encodeArrayHeader encodeArraySizes
  split <;> exact .cons _ (by decide)

theorem starts_encodeArray (typeSize : Nat) (type_ : UInt8) (element : α → Bytes) (a : List α) :
    StartsWith [array8, array32] (encodeArray typeSize type_ element a) :=
  (starts_encodeArrayHeader _ _ type_).append _

theorem starts_encodeVariableArray (code8 code32 : UInt8) (a : List Bytes) :
    StartsWith [array8, array32] (encodeVariableArray code8 code32 a) := by
  unfold encodeVariableArray
  split <;> exact (starts_encodeArrayHeader ..).append _

theorem starts_encodeList (length : Nat) (contents : Bytes) :
    StartsWith [list0, list32] (encodeList length contents) := by
  unfold encodeList
  split <;> exact .cons _ (by decide)

theorem starts_encodeMap (length : Nat) (contents : Bytes) :
    StartsWith [map32] (encodeMap length contents) := .cons _ (by decide)

theorem starts_encodeComposite (code : UInt8) (fields : List (Option Bytes)) :
    StartsWith [0x0] (encodeComposite code fields) := .cons _ (by decide)

theorem starts_encodeError (e : AmqpError Value) : StartsWith [0x0] (encodeError e) := by
  obtain ⟨condition, description, info⟩ := e
  exact starts_encodeComposite _ _

theorem starts_encodeState (s : DeliveryState Value) : StartsWith [0x0] (encodeState s) := by
  unfold encodeState
  split <;> exact starts_encodeComposite _ _

theorem starts_encodeAnnotationKey {k : Value} (h : k.annotationKey = true) :
    StartsWith [sym8, sym32, smalllong, TypeCode.long]
      (encodeAnnotationKey k) := by
  cases k with
  | string s => exact (starts_encodeVariable _ _ s).mono (by decide)
  | symbol s => exact (starts_encodeVariable _ _ s).mono (by decide)
  | int64 n => exact (starts_encodeInt64 n).mono (by decide)
  | int n => exact (starts_encodeInt64 n).mono (by decide)
  | _ => exact absurd h (by simp [Value.annotationKey])

/-- The type codes that are neither null nor that of a ulong. -/
def otherCodes : List UInt8 := [
  0x0, boolTrue, boolFalse, ubyte, ushort, TypeCode.uint,
  smallUint, uint0, TypeCode.byte, TypeCode.short, TypeCode.int,
  smallint, TypeCode.long, smalllong, float, double,
  timestamp, TypeCode.uuid, vbin8, vbin32, str8,
  str32, sym8, sym32, list0, list32, map32,
  array8, array32]

/-- Only nil is encoded as null, and only an unsigned 64-bit integer as a ulong. -/
theorem encode_starts {v : Value} (h : v.codable = true) :
    v = .nil ∨ (∃ n, (v = .uint64 n ∨ v = .uint n) ∧ encode v = encodeUint64 n)
      ∨ StartsWith otherCodes (encode v) := by
  cases v with
  | nil => exact .inl rfl
  | uint n => exact .inr (.inl ⟨n, .inr rfl, rfl⟩)
  | uint64 n => exact .inr (.inl ⟨n, .inl rfl, rfl⟩)
  | bool b => exact .inr (.inr ((starts_encodeBool b).mono (by decide)))
  | uint32 n => exact .inr (.inr ((starts_encodeUint32 n).mono (by decide)))
  | int n => exact .inr (.inr ((starts_encodeInt64 n).mono (by decide)))
  | int32 n => exact .inr (.inr ((starts_encodeInt32 n).mono (by decide)))
  | int64 n => exact .inr (.inr ((starts_encodeInt64 n).mono (by decide)))
  | string s | symbol s | binary s =>
    exact .inr (.inr ((starts_encodeVariable _ _ s).mono (by decide)))
  | arrayUint32 a =>
    refine .inr (.inr ?_)
    simp only [encode, encodeArrayUint32]
    split <;> exact (starts_encodeArray ..).mono (by decide)
  | arrayUint64 a =>
    refine .inr (.inr ?_)
    simp only [encode, encodeArrayUint64]
    split <;> exact (starts_encodeArray ..).mono (by decide)
  | arrayUByte a | arrayInt8 a | arrayUint16 a | arrayInt16 a | arrayFloat a | arrayDouble a
  | arrayBool a | arrayTimestamp a | arrayUUID a =>
    exact .inr (.inr ((starts_encodeArray _ _ _ a).mono (by decide)))
  | list xs => exact .inr (.inr ((starts_encodeList _ _).mono (by decide)))
  | mapAny m | mapString m | mapSymbol m =>
    exact .inr (.inr ((starts_encodeMap _ _).mono (by decide)))
  | error e => exact .inr (.inr ((starts_encodeError e).mono (by decide)))
  | state s => exact .inr (.inr ((starts_encodeState s).mono (by decide)))
  | arrayInt32 | arrayInt64 | arrayString | arraySymbol | arrayBinary | marshaler | other =>
    exact absurd h (by simp [Value.codable])
  | uint16 | uint8 | int8 | int16 | float32 | float64 | time | uuid | described | lifetimePolicy =>
    exact .inr (.inr (.cons _ (by decide)))

/-- The encoding of a codable value has at least one byte. -/
theorem encode_pos {v : Value} (h : v.codable = true) : 0 < (encode v).length := by
  rcases encode_starts h with rfl | ⟨n, -, he⟩ | hs
  · exact Nat.one_pos
  · rw [he]
    exact (starts_encodeUint64 n).pos
  · exact hs.pos

/-! ## Lengths of the parts -/

theorem length_le_flatMap {f : α → Bytes} {x : α} {xs : List α} (h : x ∈ xs) :
    (f x).length ≤ (xs.flatMap f).length := by
  induction xs with
  | nil => exact absurd h (by simp)
  | cons y ys ih =>
    rw [flatMap_cons, length_append]
    rcases mem_cons.mp h with rfl | hmem
    · omega
    · have := ih hmem
      omega

/-- Items of at least `k` bytes each. -/
theorem mul_length_le_flatMap {f : α → Bytes} {k : Nat} {xs : List α} (h : ∀ x ∈ xs, k ≤ (f x).length) :
    xs.length * k ≤ (xs.flatMap f).length := by
  induction xs with
  | nil => simp
  | cons x xs ih =>
    have hx := h x (mem_cons_self ..)
    have hxs := ih fun y hy => h y (mem_cons_of_mem _ hy)
    rw [flatMap_cons, length_append, length_cons, Nat.succ_mul]
    omega

/-- A key and a value take at least one byte each. -/
theorem pairs_le_flatMap {f g : α → Bytes} {xs : List α} (hf : ∀ x ∈ xs, 1 ≤ (f x).length)
    (hg : ∀ x ∈ xs, 1 ≤ (g x).length) : xs.length * 2 ≤ (xs.flatMap fun x => f x ++ g x).length := by
  refine mul_length_le_flatMap fun x hx => ?_
  have h1 := hf x hx
  have h2 := hg x hx
  rw [length_append]
  omega

theorem length_encodeCompound (code : UInt8) (count : Nat) (contents : Bytes) :
    (encodeCompound code count contents).length = contents.length + 9 := by
  simp only [encodeCompound, length_cons, length_append, length_be32]
  omega

theorem length_encodeMap (length : Nat) (contents : Bytes) :
    (encodeMap length contents).length = contents.length + 9 := length_encodeCompound ..

/-- The contents of a non-empty list are shorter than the list. -/
theorem length_encodeList {length : Nat} (contents : Bytes) (h : length ≠ 0) :
    (encodeList length contents).length = contents.length + 9 := by
  rw [encodeList, if_neg h, length_encodeCompound]

theorem Value.codable_of_codableKey {k : Value} (h : k.codableKey = true) : k.codable = true := by
  cases k <;> simp_all [Value.codableKey, Value.codable]

theorem length_encodeElements {xs : List Value} (h : codableElements xs = true) :
    xs.length ≤ (encodeElements xs).length := by
  rw [encodeElements_eq]
  have hone : ∀ x ∈ xs, 1 ≤ (encode x).length := fun x hx =>
    encode_pos (codableElements_iff.mp h x hx)
  have hle := mul_length_le_flatMap hone
  omega

/-- Each entry of a map takes at least two bytes. -/
theorem length_encodeEntries (hv : codableEntries m = true) (hk : ∀ e ∈ m, e.1.codableKey = true) :
    m.length * 2 ≤ (encodeEntries m).length := by
  rw [encodeEntries_eq]
  exact pairs_le_flatMap (fun e he => encode_pos (Value.codable_of_codableKey (hk e he)))
    fun e he => encode_pos (codableEntries_iff.mp hv e he)

theorem length_encodeStringEntries {m : List (Bytes × Value)} (hv : codableValues m = true) :
    m.length * 2 ≤ (encodeStringEntries m).length := by
  rw [encodeStringEntries_eq]
  exact pairs_le_flatMap (fun e _ => (starts_encodeVariable _ _ e.1).pos)
    fun e he => encode_pos (codableValues_iff.mp hv e he)

theorem length_encodeSymbolEntries {m : List (Bytes × Value)} (hv : codableValues m = true) :
    m.length * 2 ≤ (encodeSymbolEntries m).length := by
  rw [encodeSymbolEntries_eq]
  exact pairs_le_flatMap (fun e _ => (starts_encodeVariable _ _ e.1).pos)
    fun e he => encode_pos (codableValues_iff.mp hv e he)

theorem length_encodeAnnotationEntries (hv : codableEntries m = true)
    (hk : ∀ e ∈ m, e.1.annotationKey = true) : m.length * 2 ≤ (encodeAnnotationEntries m).length := by
  rw [encodeAnnotationEntries_eq]
  exact pairs_le_flatMap (fun e he => (starts_encodeAnnotationKey (hk e he)).pos)
    fun e he => encode_pos (codableEntries_iff.mp hv e he)

theorem drop_trimFields (bs : List (Option Bytes)) : ∀ b ∈ bs.drop (trimFields bs).length, b = none := by
  induction bs with
  | nil => simp
  | cons b bs ih =>
    unfold trimFields
    split
    · next hnone =>
      simp only [Bool.and_eq_true, Option.isNone_iff_eq_none, List.isEmpty_iff] at hnone
      rw [hnone.2] at ih
      rintro b' hb'
      rcases mem_cons.mp hb' with rfl | hmem
      · exact hnone.1
      · exact ih b' hmem
    · exact ih

theorem trimFields_take (bs : List (Option Bytes)) : bs.take (trimFields bs).length = trimFields bs := by
  induction bs with
  | nil => rfl
  | cons b bs ih =>
    unfold trimFields
    split
    · rfl
    · rw [length_cons, take_succ_cons, ih]

theorem length_trimFields_le (bs : List (Option Bytes)) : (trimFields bs).length ≤ bs.length := by
  rw [← trimFields_take bs, length_take]
  exact Nat.min_le_right _ _

theorem mem_trimFields {fields : List (Option Bytes)} (h : some bs ∈ fields) : some bs ∈ trimFields fields := by
  induction fields with
  | nil => exact absurd h (by simp)
  | cons f fs ih =>
    unfold trimFields
    rcases mem_cons.mp h with rfl | hmem
    · simp
    · have hfs := ih hmem
      have hne : (trimFields fs).isEmpty = false := by
        cases ht : trimFields fs with
        | nil => rw [ht] at hfs; exact absurd hfs (by simp)
        | cons _ _ => rfl
      rw [hne, Bool.and_false, if_neg (by simp)]
      exact mem_cons_of_mem _ hfs

/-- A field that is set is shorter than the composite. -/
theorem length_lt_encodeComposite {fields : List (Option Bytes)} (code : UInt8) (h : some bs ∈ fields) :
    bs.length < (encodeComposite code fields).length := by
  have hmem := mem_trimFields h
  have hle : bs.length ≤ ((trimFields fields).flatMap encodeField).length := length_le_flatMap (f := encodeField) hmem
  have hne : (trimFields fields).length ≠ 0 := by
    intro h0
    rw [length_eq_zero_iff] at h0
    rw [h0] at hmem
    exact absurd hmem (by simp)
  simp only [encodeComposite, length_append, length_encodeList _ hne]
  omega

/-! ## Forms

The encoder picks one form of a value; these are all of them. -/

/-- The forms of a string, a symbol or a byte slice. -/
inductive VariableForm (code8 code32 : UInt8) (s : Bytes) : Bytes → Prop where
  | short (h : s.length < 256) : VariableForm code8 code32 s (code8 :: UInt8.ofNat s.length :: s)
  | long (h : s.length < 2 ^ 32) :
      VariableForm code8 code32 s (code32 :: (be32 (UInt32.ofNat s.length) ++ s))

/-- The forms of a compound. The size covers the count and the contents. -/
inductive CompoundForm (code8 code32 : UInt8) (count : Nat) (contents : Bytes) : Bytes → Prop where
  | short (hsize : contents.length + 1 < 256) (hcount : count < 256) :
      CompoundForm code8 code32 count contents
        (code8 :: ([UInt8.ofNat (contents.length + 1), UInt8.ofNat count] ++ contents))
  | long (hsize : contents.length + 4 < 2 ^ 32) (hcount : count < 2 ^ 32) :
      CompoundForm code8 code32 count contents
        (code32 :: ((be32 (UInt32.ofNat (contents.length + 4)) ++ be32 (UInt32.ofNat count))
          ++ contents))

/-- Lists have a third form, for the empty list. -/
inductive ListForm (count : Nat) (contents : Bytes) : Bytes → Prop where
  | empty (hcount : count = 0) (hcontents : contents = []) :
      ListForm count contents [list0]
  | sized {bs : Bytes} (h : CompoundForm list8 list32 count contents bs) :
      ListForm count contents bs

theorem VariableForm.starts {code8 code32 : UInt8} {s bs : Bytes} (h : VariableForm code8 code32 s bs) :
    StartsWith [code8, code32] bs := by
  cases h <;> exact .cons _ (by simp)

theorem CompoundForm.starts {code8 code32 : UInt8} {count : Nat} {contents bs : Bytes}
    (h : CompoundForm code8 code32 count contents bs) : StartsWith [code8, code32] bs := by
  cases h <;> exact .cons _ (by simp)

theorem variableForm_encodeVariable {code8 code32 : UInt8} {s : Bytes}
    (hlt : (encodeVariable code8 code32 s).length < 2 ^ 32) :
    VariableForm code8 code32 s (encodeVariable code8 code32 s) := by
  unfold encodeVariable at hlt ⊢
  split
  · next hshort => exact .short hshort
  · next hlong =>
    rw [if_neg hlong] at hlt
    simp only [length_cons, length_append, length_be32] at hlt
    exact .long (by omega)

theorem compoundForm_encodeCompound {code8 code32 : UInt8} {count : Nat} {contents : Bytes}
    (hcount : count ≤ contents.length) (hlt : (encodeCompound code32 count contents).length < 2 ^ 32) :
    CompoundForm code8 code32 count contents (encodeCompound code32 count contents) := by
  rw [length_encodeCompound] at hlt
  rw [encodeCompound, ← append_assoc]
  exact .long (by omega) (by omega)

theorem listForm_encodeList {count : Nat} {contents : Bytes} (hcount : count ≤ contents.length)
    (hzero : count = 0 → contents = []) (hlt : (encodeList count contents).length < 2 ^ 32) :
    ListForm count contents (encodeList count contents) := by
  unfold encodeList at hlt ⊢
  split
  · next hempty => exact .empty hempty (hzero hempty)
  · next hsome =>
    rw [if_neg hsome] at hlt
    exact .sized (compoundForm_encodeCompound hcount hlt)

/-- The size of an array covers its count and its element type. -/
theorem compoundForm_array {length size : Nat} {type_ : UInt8} {contents : Bytes} (hle : length ≤ size)
    (hsize : contents.length = size) (hlt : (encodeArrayHeader length size type_ ++ contents).length < 2 ^ 32) :
    CompoundForm array8 array32 length (type_ :: contents)
      (encodeArrayHeader length size type_ ++ contents) := by
  subst hsize
  unfold encodeArrayHeader encodeArraySizes at hlt ⊢
  split
  · next hshort => exact .short (by rw [length_cons]; omega) (by omega)
  · next hlong =>
    rw [if_neg hlong] at hlt
    simp only [length_append, length_cons, length_be32] at hlt
    rw [append_assoc, singleton_append]
    exact .long (by rw [length_cons]; omega) (by omega)

end GoAmqp
