import GoAmqp.Buffer

set_option autoImplicit false

/-! # AMQP types and values (`internal/encoding/types.go`)

The type codes of the wire format and the Go values the codec handles. `Value` has one constructor
for each dynamic type that `Marshal` accepts in its type switch or that `ReadAny` returns; a pointer
to one of these types is marshalled as the value it points to and has no constructor of its own.

A Go string is its bytes. A nil and an empty slice (or map) are one value here: `Marshal` treats
them alike, and where a record's code tells them apart the record has an `Option`. A map is the list
of its entries in the order an iteration visits them, so a statement about every such list covers
every iteration order. -/

namespace GoAmqp

open Lib

/-! ## Type codes -/

namespace TypeCode

abbrev null : UInt8 := 0x40

abbrev bool : UInt8 := 0x56
abbrev boolTrue : UInt8 := 0x41
abbrev boolFalse : UInt8 := 0x42

abbrev ubyte : UInt8 := 0x50
abbrev ushort : UInt8 := 0x60
abbrev uint : UInt8 := 0x70
abbrev smallUint : UInt8 := 0x52
abbrev uint0 : UInt8 := 0x43
abbrev ulong : UInt8 := 0x80
abbrev smallUlong : UInt8 := 0x53
abbrev ulong0 : UInt8 := 0x44

abbrev byte : UInt8 := 0x51
abbrev short : UInt8 := 0x61
abbrev int : UInt8 := 0x71
abbrev smallint : UInt8 := 0x54
abbrev long : UInt8 := 0x81
abbrev smalllong : UInt8 := 0x55

abbrev float : UInt8 := 0x72
abbrev double : UInt8 := 0x82
abbrev decimal32 : UInt8 := 0x74
abbrev decimal64 : UInt8 := 0x84
abbrev decimal128 : UInt8 := 0x94

abbrev char : UInt8 := 0x73
abbrev timestamp : UInt8 := 0x83
abbrev uuid : UInt8 := 0x98

abbrev vbin8 : UInt8 := 0xa0
abbrev vbin32 : UInt8 := 0xb0
abbrev str8 : UInt8 := 0xa1
abbrev str32 : UInt8 := 0xb1
abbrev sym8 : UInt8 := 0xa3
abbrev sym32 : UInt8 := 0xb3

abbrev list0 : UInt8 := 0x45
abbrev list8 : UInt8 := 0xc0
abbrev list32 : UInt8 := 0xd0
abbrev map8 : UInt8 := 0xc1
abbrev map32 : UInt8 := 0xd1
abbrev array8 : UInt8 := 0xe0
abbrev array32 : UInt8 := 0xf0

-- composites
abbrev open_ : UInt8 := 0x10
abbrev begin_ : UInt8 := 0x11
abbrev attach : UInt8 := 0x12
abbrev flow : UInt8 := 0x13
abbrev transfer : UInt8 := 0x14
abbrev disposition : UInt8 := 0x15
abbrev detach : UInt8 := 0x16
abbrev end_ : UInt8 := 0x17
abbrev close : UInt8 := 0x18

abbrev source : UInt8 := 0x28
abbrev target : UInt8 := 0x29
abbrev error : UInt8 := 0x1d

abbrev messageHeader : UInt8 := 0x70
abbrev deliveryAnnotations : UInt8 := 0x71
abbrev messageAnnotations : UInt8 := 0x72
abbrev messageProperties : UInt8 := 0x73
abbrev applicationProperties : UInt8 := 0x74
abbrev applicationData : UInt8 := 0x75
abbrev amqpSequence : UInt8 := 0x76
abbrev amqpValue : UInt8 := 0x77
abbrev footer : UInt8 := 0x78

abbrev stateReceived : UInt8 := 0x23
abbrev stateAccepted : UInt8 := 0x24
abbrev stateRejected : UInt8 := 0x25
abbrev stateReleased : UInt8 := 0x26
abbrev stateModified : UInt8 := 0x27

abbrev saslMechanism : UInt8 := 0x40
abbrev saslInit : UInt8 := 0x41
abbrev saslChallenge : UInt8 := 0x42
abbrev saslResponse : UInt8 := 0x43
abbrev saslOutcome : UInt8 := 0x44

abbrev deleteOnClose : UInt8 := 0x2b
abbrev deleteOnNoLinks : UInt8 := 0x2c
abbrev deleteOnNoMessages : UInt8 := 0x2d
abbrev deleteOnNoLinksOrMessages : UInt8 := 0x2e

end TypeCode

/-! ## Scalars with structure -/

/-- A UUID is an array of sixteen bytes. -/
structure UUID where
  bytes : Bytes
  length_bytes : bytes.length = 16
deriving DecidableEq

/-- A point in time, in nanoseconds since the Unix epoch. Location and monotonic reading of a
    `time.Time` are not kept: the codec neither writes nor reads them. -/
structure Time where
  ns : Int
deriving DecidableEq

namespace Time

/-- `time.Unix(sec, nsec)`. -/
def unix (sec nsec : Int64) : Time := ⟨sec.toInt * 1000000000 + nsec.toInt⟩

/-- `t.UnixNano()`: the nanoseconds since the epoch as an `int64`, wrapping outside its range. -/
def unixNano (t : Time) : Int64 := Int64.ofInt t.ns

/-- Milliseconds since the epoch, by truncating division of the nanoseconds. -/
def millis (t : Time) : Int64 := t.unixNano / 1000000

end Time

/-- The bytes of an ASCII string constant of the source. -/
def ascii (s : String) : Bytes := s.toList.map fun c => UInt8.ofNat c.toNat

/-! ## Values -/

/-- An AMQP error. -/
structure AmqpError (V : Type) where
  condition : Bytes
  description : Bytes
  info : List (Bytes × V)

/-- The delivery states. The annotations of a modified state may be nil, which is not the same to
    its `Marshal` as empty. -/
inductive DeliveryState (V : Type) where
  | received (sectionNumber : UInt32) (sectionOffset : UInt64)
  | accepted
  | rejected (error : Option (AmqpError V))
  | released
  | modified (deliveryFailed undeliverableHere : Bool) (messageAnnotations : Option (List (V × V)))

/-- A value with a `Marshal` method that is none of the types below: the name of its type, the bytes
    that the method appends, and the fault it ends with if it does. -/
structure Marshaler where
  type_ : String
  written : Bytes
  fault : Option Fault

/-- Go values by dynamic type. Floating-point numbers are their IEEE 754 bits; `int` and `uint` are
    64 bits wide. -/
inductive Value where
  | nil
  | bool (b : Bool)
  | uint (n : UInt64)
  | uint64 (n : UInt64)
  | uint32 (n : UInt32)
  | uint16 (n : UInt16)
  | uint8 (n : UInt8)
  | int (n : Int64)
  | int8 (n : Int8)
  | int16 (n : Int16)
  | int32 (n : Int32)
  | int64 (n : Int64)
  | float32 (bits : UInt32)
  | float64 (bits : UInt64)
  | string (s : Bytes)
  | symbol (s : Bytes)
  | binary (b : Bytes)
  | time (t : Time)
  | uuid (u : UUID)
  | arrayUByte (xs : List UInt8)
  | arrayInt8 (xs : List Int8)
  | arrayUint16 (xs : List UInt16)
  | arrayInt16 (xs : List Int16)
  | arrayUint32 (xs : List UInt32)
  | arrayInt32 (xs : List Int32)
  | arrayUint64 (xs : List UInt64)
  | arrayInt64 (xs : List Int64)
  | arrayFloat (xs : List UInt32)
  | arrayDouble (xs : List UInt64)
  | arrayBool (xs : List Bool)
  | arrayString (xs : List Bytes)
  | arraySymbol (xs : List Bytes)
  | arrayBinary (xs : List Bytes)
  | arrayTimestamp (xs : List Time)
  | arrayUUID (xs : List UUID)
  | list (xs : List Value)
  | mapAny (m : List (Value × Value))
  | mapString (m : List (Bytes × Value))
  | mapSymbol (m : List (Bytes × Value))
  | described (descriptor value : Value)
  | error (e : AmqpError Value)
  | state (s : DeliveryState Value)
  | lifetimePolicy (code : UInt8)
  /-- a value that writes itself -/
  | marshaler (m : Marshaler)
  /-- a value of a type that `Marshal` does not handle, with the name `%T` gives it -/
  | other (type_ : String)

/-- The name `%T` prints for the dynamic type of a value. -/
def Value.typeName : Value → String
  | .nil => "<nil>"
  | .bool _ => "bool"
  | .uint _ => "uint"
  | .uint64 _ => "uint64"
  | .uint32 _ => "uint32"
  | .uint16 _ => "uint16"
  | .uint8 _ => "uint8"
  | .int _ => "int"
  | .int8 _ => "int8"
  | .int16 _ => "int16"
  | .int32 _ => "int32"
  | .int64 _ => "int64"
  | .float32 _ => "float32"
  | .float64 _ => "float64"
  | .string _ => "string"
  | .symbol _ => "encoding.Symbol"
  | .binary _ => "[]uint8"
  | .time _ => "time.Time"
  | .uuid _ => "encoding.UUID"
  | .arrayUByte _ => "encoding.ArrayUByte"
  | .arrayInt8 _ => "[]int8"
  | .arrayUint16 _ => "[]uint16"
  | .arrayInt16 _ => "[]int16"
  | .arrayUint32 _ => "[]uint32"
  | .arrayInt32 _ => "[]int32"
  | .arrayUint64 _ => "[]uint64"
  | .arrayInt64 _ => "[]int64"
  | .arrayFloat _ => "[]float32"
  | .arrayDouble _ => "[]float64"
  | .arrayBool _ => "[]bool"
  | .arrayString _ => "[]string"
  | .arraySymbol _ => "[]encoding.Symbol"
  | .arrayBinary _ => "[][]uint8"
  | .arrayTimestamp _ => "[]time.Time"
  | .arrayUUID _ => "[]encoding.UUID"
  | .list _ => "[]interface \x7b\x7d"
  | .mapAny _ => "map[interface \x7b\x7d]interface \x7b\x7d"
  | .mapString _ => "map[string]interface \x7b\x7d"
  | .mapSymbol _ => "map[encoding.Symbol]interface \x7b\x7d"
  | .described _ _ => "encoding.DescribedType"
  | .error _ => "*encoding.Error"
  | .state (.received _ _) => "*encoding.StateReceived"
  | .state .accepted => "*encoding.StateAccepted"
  | .state (.rejected _) => "*encoding.StateRejected"
  | .state .released => "*encoding.StateReleased"
  | .state (.modified _ _ _) => "*encoding.StateModified"
  | .lifetimePolicy _ => "encoding.LifetimePolicy"
  | .marshaler m => m.type_
  | .other type_ => type_

/-- An annotations map, whose keys are meant to be strings, symbols or integers. -/
abbrev Annotations := List (Value × Value)

/-! ## Map keys -/

/-- The `reflect.Kind` of a value, as far as `mapAnyAny.Unmarshal` tells kinds apart. It asks this of
    values that `ReadAny` returned; none of these is a `marshaler`. -/
inductive Kind where
  | slice
  | map
  | other
deriving DecidableEq, Repr

def Value.kind : Value → Kind
  | .binary _ | .arrayUByte _ | .arrayInt8 _ | .arrayUint16 _ | .arrayInt16 _ | .arrayUint32 _
  | .arrayInt32 _ | .arrayUint64 _ | .arrayInt64 _ | .arrayFloat _ | .arrayDouble _ | .arrayBool _
  | .arrayString _ | .arraySymbol _ | .arrayBinary _ | .arrayTimestamp _ | .arrayUUID _
  | .list _ => .slice
  | .mapAny _ | .mapString _ | .mapSymbol _ => .map
  | _ => .other

/-- Whether the run-time can hash a value: not a slice or a map, and not a struct that holds one.
    Pointers (errors, delivery states) are hashable whatever they point to. -/
def Value.hashable : Value → Bool
  | .described d v => d.hashable && v.hashable
  | v => v.kind == .other

/-- `==` on the bits of two `float32`: NaN equals nothing, the zeros equal each other. -/
def float32Eq (a b : UInt32) : Bool :=
  let mag (x : UInt32) := x &&& 0x7fffffff
  if mag a > 0x7f800000 || mag b > 0x7f800000 then false
  else a == b || (mag a == 0 && mag b == 0)

/-- `==` on the bits of two `float64`. -/
def float64Eq (a b : UInt64) : Bool :=
  let mag (x : UInt64) := x &&& 0x7fffffffffffffff
  if mag a > 0x7ff0000000000000 || mag b > 0x7ff0000000000000 then false
  else a == b || (mag a == 0 && mag b == 0)

/-- `==` on two hashable interface values: same dynamic type and equal values. Two pointers from
    different allocations are different keys. -/
def Value.keyEq : Value → Value → Bool
  | .nil, .nil => true
  | .bool a, .bool b => a == b
  | .uint a, .uint b => a == b
  | .uint64 a, .uint64 b => a == b
  | .uint32 a, .uint32 b => a == b
  | .uint16 a, .uint16 b => a == b
  | .uint8 a, .uint8 b => a == b
  | .int a, .int b => a == b
  | .int8 a, .int8 b => a == b
  | .int16 a, .int16 b => a == b
  | .int32 a, .int32 b => a == b
  | .int64 a, .int64 b => a == b
  | .float32 a, .float32 b => float32Eq a b
  | .float64 a, .float64 b => float64Eq a b
  | .string a, .string b => a == b
  | .symbol a, .symbol b => a == b
  | .time a, .time b => a == b
  | .uuid a, .uuid b => a == b
  | .described d v, .described d' v' => d.keyEq d' && v.keyEq v'
  | .lifetimePolicy a, .lifetimePolicy b => a == b
  | _, _ => false

/-- The assignment `m[k] = v` on a `map[any]any`; it panics when `k` cannot be hashed. -/
def assignAny {σ : Type} (m : List (Value × Value)) (k v : Value) :
    EStateM Fault σ (List (Value × Value)) :=
  if k.hashable then pure (mapAssign Value.keyEq k v m) else throw .unhashable

/-- The assignment `m[k] = v` on a map with string or symbol keys. -/
def assignString {V : Type} (m : List (Bytes × V)) (k : Bytes) (v : V) : List (Bytes × V) := mapAssign (· == ·) k v m

end GoAmqp
