import GoAmqp.Encoding.Decode

set_option autoImplicit false

/-! # The layout of encoded values

A description of the wire format that is independent of the decoder: for each kind of value, a
scanner that passes over its bytes. A scanner keeps nothing of a value but what decides whether the
value can be a map key (`KeyClass`), knows nothing of buffers, record fields or error texts, and has
three ways to stop: the bytes are malformed, an entry of a map has a key that cannot be hashed, or
the bound on the nesting is reached.

What the decoder does on an arbitrary byte string is stated in terms of these scanners. -/

namespace GoAmqp

open TypeCode

/-- Whether a value can be a key of a Go map with interface keys. -/
inductive KeyClass where
  | hashable
  /-- a struct that holds a slice or a map -/
  | holder
  /-- a slice or a map -/
  | compound
deriving DecidableEq, Repr

/-- The class of a decoded key. -/
def Value.keyClass (v : Value) : KeyClass :=
  if v.kind ≠ .other then .compound else if v.hashable then .hashable else .holder

namespace Layout

open Lib

/-- Why a scanner stops. -/
inductive Stop where
  | malformed
  | unhashableKey
  | exhausted
deriving DecidableEq, Repr

/-- A reader of bytes that keeps no values. -/
abbrev Scanner := EStateM Stop Bytes

def malformed {α : Type} : Scanner α := throw .malformed

/-! ## Bytes -/

def remaining : Scanner Nat := List.length <$> get

def take (n : Nat) : Scanner Bytes := do
  let bs ← get
  if n ≤ bs.length then
    set (bs.drop n)
    pure (bs.take n)
  else malformed

def byte : Scanner UInt8 := do
  match ← get with
  | [] => malformed
  | b :: bs =>
    set bs
    pure b

/-- A big-endian number of `k` bytes. -/
def number (k : Nat) : Scanner Nat := beNat <$> take k

/-- Pass over a null, if it is next. -/
def null : Scanner Bool := do
  let bs ← get
  if bs.head? = some TypeCode.null then
    set bs.tail
    pure true
  else pure false

/-- The same form `n` times. -/
def times (sc : Scanner Unit) : Nat → Scanner Unit
  | 0 => pure ()
  | n + 1 => do
    sc
    times sc n

/-! ## Scalars -/

/-- The bytes of a fixed-width value after its type code: the upper half of the code says how
    many. -/
def fixedWidth (code : UInt8) : Option Nat :=
  match code.toNat / 16 with
  | 4 => some 0
  | 5 => some 1
  | 6 => some 2
  | 7 => some 4
  | 8 => some 8
  | 9 => some 16
  | _ => none

/-- The width of the length in front of a value of variable width. -/
def lengthWidth (code : UInt8) : Nat := if code.toNat / 16 = 10 then 1 else 4

/-- What stands behind a type code of fixed or variable width. -/
def payload (code : UInt8) : Scanner Bytes :=
  match fixedWidth code with
  | some n => take n
  | none => do
    let n ← number (lengthWidth code)
    take n

/-- A value with one of the given type codes, as its payload. -/
def scalar (codes : List UInt8) : Scanner Bytes := do
  let t ← byte
  if t ∈ codes then payload t else malformed

def boolCodes : List UInt8 := [TypeCode.bool, boolTrue, boolFalse]

def uintCodes : List UInt8 := [uint0, smallUint, TypeCode.uint]

def ulongCodes : List UInt8 := [ulong0, smallUlong, TypeCode.ulong]

def intCodes : List UInt8 := [smallint, int]

def longCodes : List UInt8 := [smalllong, long]

def stringCodes : List UInt8 := [str8, str32]

def symbolCodes : List UInt8 := [sym8, sym32]

def binaryCodes : List UInt8 := [vbin8, vbin32]

def textCodes : List UInt8 := stringCodes ++ symbolCodes

/-- The unsigned integers of every width. -/
def unsignedCodes : List UInt8 := ubyte :: ushort :: (uintCodes ++ ulongCodes)

/-- The fixed-width types that `ReadAny` knows, all of which are hashable. -/
def fixedCodes : List UInt8 :=
  boolCodes ++ uintCodes ++ ulongCodes ++ intCodes ++ longCodes ++
    [ubyte, ushort, TypeCode.byte, short, float, double,
      timestamp, uuid]

/-! ## Compounds -/

/-- Size and count of a compound, each of `k` bytes. The size is checked against what is left after
    the type code and not used otherwise. -/
def sizes (k left : Nat) : Scanner Nat := do
  let buf ← take (k + k)
  if beNat (buf.take k) > left - k then malformed else pure (beNat (buf.drop k))

def listCount : Scanner Nat := do
  let t ← byte
  let left ← remaining
  if t = list0 then pure 0
  else if t = list8 then sizes 1 left
  else if t = list32 then sizes 4 left
  else malformed

def arrayCount : Scanner Nat := do
  let t ← byte
  let left ← remaining
  if t = array8 then sizes 1 left
  else if t = array32 then sizes 4 left
  else malformed

def mapSizes (t : UInt8) (left : Nat) : Scanner Nat :=
  if t = map8 then sizes 1 left
  else if t = map32 then sizes 4 left
  else malformed

/-- The header of a map; the count fits in what is left. -/
def mapCount : Scanner Nat := do
  let t ← byte
  let left ← remaining
  let n ← mapSizes t left
  let left ← remaining
  if n > left then malformed else pure n

/-- `n` payloads of the type `code`. Elements of variable width are taken to have two bytes at
    least; `left` counts the type code too. -/
def elements (code : UInt8) (left n : Nat) : Scanner Unit :=
  match fixedWidth code with
  | some width => do
    let _ ← take (n * width)
    pure ()
  | none => if n * 2 > left then malformed else times (do let _ ← payload code) n

/-- An array with elements of one of these types. -/
def array (codes : List UInt8) : Scanner Unit := do
  let n ← arrayCount
  let left ← remaining
  let t ← byte
  if t ∈ codes then elements t left n else malformed

/-- The entries of a map: a round for `i`, `i + 2`, ... while that is below the count, in 32 bits. -/
def entries (round : Scanner Unit) : Nat → UInt32 → UInt32 → Scanner Unit
  | 0, _, _ => throw .exhausted
  | bound + 1, i, n =>
    if i < n then do
      round
      entries round bound (i + 2) n
    else pure ()

/-- A map, given the form of an entry. -/
def map (round : Scanner Unit) : Scanner Unit := do
  let n ← mapCount
  let left ← remaining
  entries round (left + 1) 0 (UInt32.ofNat n)

/-! ## Records -/

/-- A field of a record: how it is laid out, and whether it may be null or absent. -/
structure Field where
  scan : Scanner Unit
  required : Bool

/-- A field that may be null or left out. -/
def optional {α : Type} (sc : Scanner α) : Field := ⟨do let _ ← sc, false⟩

/-- A field that may not. -/
def mandatory {α : Type} (sc : Scanner α) : Field := ⟨do let _ ← sc, true⟩

def Field.absent (f : Field) : Scanner Unit := if f.required then malformed else pure ()

/-- The field is there, and may be null. -/
def Field.present (f : Field) : Scanner Unit := do
  if ← null then f.absent else f.scan

/-- The fields of a record of which `n` are present. -/
def fields : List Field → Nat → Scanner Unit
  | [], _ => pure ()
  | f :: fs, 0 => do
    f.absent
    fields fs 0
  | f :: fs, n + 1 => do
    f.present
    fields fs n

/-- An unsigned long, with its value. -/
def ulong : Scanner Nat := beNat <$> scalar ulongCodes

/-- The low eight bits of the descriptor of a record, and the number of its fields. -/
def recordHeader : Scanner (UInt8 × Nat) := do
  let t ← byte
  if t ≠ 0 then malformed
  else
    let d ← ulong
    let n ← listCount
    pure (UInt8.ofNat d, n)

/-- A composite with this descriptor, and at most these fields. -/
def record (code : UInt8) (fs : List Field) : Scanner Unit := do
  let (d, n) ← recordHeader
  if d ≠ code then malformed
  else if n > fs.length then malformed
  else fields fs n

/-! ## Values of any type -/

section Any

variable (any : Scanner KeyClass)

/-- A list of values. -/
def list : Scanner Unit := do
  let n ← listCount
  let left ← remaining
  if n > left then malformed else times (do let _ ← any) n

/-- An entry of a `map[any]any`: slices and maps are refused as keys. -/
def anyEntry : Scanner Unit := do
  let key ← any
  let _ ← any
  match key with
  | .hashable => pure ()
  | .holder => throw .unhashableKey
  | .compound => malformed

/-- An entry of an annotations map, whose keys are not looked at. -/
def annotationEntry : Scanner Unit := do
  let key ← any
  let _ ← any
  match key with
  | .hashable => pure ()
  | .holder | .compound => throw .unhashableKey

/-- An annotations map. -/
def annotations : Scanner Unit := map (annotationEntry any)

/-- A map with string or symbol keys. -/
def stringMap : Scanner Unit := map do
  let _ ← scalar textCodes
  let _ ← any

/-- A value, or null where the type is not looked at. -/
def nullable : Scanner KeyClass := do
  if ← null then pure .hashable else any

/-- A descriptor and a value, both of any type. -/
def described : Scanner KeyClass := do
  let t ← byte
  if t ≠ 0 then malformed
  else
    let d ← nullable any
    let v ← nullable any
    pure (if d = .hashable ∧ v = .hashable then .hashable else .holder)

/-- An error composite. -/
def error : Scanner Unit := record TypeCode.error [
  mandatory (scalar textCodes), optional (scalar textCodes), optional (stringMap any)]

/-- The delivery state with the descriptor `code`. -/
def state (code : UInt8) : Scanner Unit :=
  if code = stateAccepted ∨ code = stateReleased then record code []
  else if code = stateModified then record code [
    optional (scalar boolCodes), optional (scalar boolCodes), optional (annotations any)]
  else if code = stateReceived then record code [
    mandatory (scalar uintCodes), mandatory (scalar ulongCodes)]
  else if code = stateRejected then record code [optional (error any)]
  else malformed

/-- The low eight bits of the descriptor at the front, and the length of the header up to it. -/
def descriptorByte : Bytes → Option (UInt8 × Nat)
  | b :: t :: c :: rest =>
    if b ≠ 0 then none
    else if t = ulong0 then some (0, 2)
    else if t = smallUlong then some (c, 3)
    else if t = TypeCode.ulong ∧ 7 ≤ rest.length then
      some (UInt8.ofNat (beNat ((c :: rest).take 8)), 10)
    else none
  | _ => none

/-- A delivery state, by its descriptor. -/
def deliveryState : Scanner Unit := do
  match descriptorByte (← get) with
  | none => malformed
  | some (code, _) => state any code

/-- The descriptor at the front; zero if it is not an unsigned long of one or eight bytes. -/
def descriptor : Bytes → Option Nat
  | b :: t :: rest =>
    if b ≠ 0 then none
    else if t = smallUlong then rest.head?.map UInt8.toNat
    else if t = TypeCode.ulong then
      if 8 ≤ rest.length then some (beNat (rest.take 8)) else none
    else some 0
  | _ => none

def lifetimeCodes : List UInt8 := [deleteOnClose, deleteOnNoMessages, deleteOnNoLinks, deleteOnNoLinksOrMessages]

def stateCodes : List UInt8 := [stateAccepted, stateModified, stateReceived, stateRejected, stateReleased]

/-- A lifetime policy is a record without fields. -/
def lifetimePolicy : Scanner Unit := do
  let (_, n) ← recordHeader
  if n ≠ 0 then malformed else pure ()

/-- A value behind the descriptor `d`. The records that have a type of their own are pointers, or an
    integer for the lifetime policies, and hashable; every other one is a described type. -/
def compositeOf (d : Nat) : Scanner KeyClass :=
  if d > 255 then described any
  else if UInt8.ofNat d = TypeCode.error then do
    error any
    pure .hashable
  else if UInt8.ofNat d ∈ lifetimeCodes then do
    lifetimePolicy
    pure .hashable
  else if UInt8.ofNat d ∈ stateCodes then do
    state any (UInt8.ofNat d)
    pure .hashable
  else if UInt8.ofNat d ∈ notImplemented then malformed
  else described any

/-- A composite that stands as a value. -/
def composite : Scanner KeyClass := do
  match descriptor (← get) with
  | none => malformed
  | some d => compositeOf any d

/-- The value whose type code is `t`, which is next. -/
def anyOf (t : UInt8) : Scanner KeyClass :=
  if t = 0 then composite any
  else if t ∈ fixedCodes ++ textCodes then do
    let _ ← scalar (fixedCodes ++ textCodes)
    pure .hashable
  else if t ∈ binaryCodes then do
    let _ ← scalar binaryCodes
    pure .compound
  else if t = array8 ∨ t = array32 then do
    array (fixedCodes ++ textCodes ++ binaryCodes)
    pure .compound
  else if t = list0 ∨ t = list8 ∨ t = list32 then do
    list any
    pure .compound
  else if t = map8 ∨ t = map32 then do
    map (anyEntry any)
    pure .compound
  else malformed

/-- A value, given the form of those inside it. -/
def anyBody : Scanner KeyClass := do
  if ← null then pure .hashable
  else
    match (← get).head? with
    | none => malformed
    | some t => anyOf any t

end Any

/-- A value with at most `depth` values around one another. -/
def anyDepth : Nat → Scanner KeyClass
  | 0 => throw .exhausted
  | depth + 1 => anyBody (anyDepth depth)

/-- Any value. Each level takes a byte, which bounds the depth. -/
def any : Scanner KeyClass := do
  let left ← remaining
  anyDepth (left + 1)

/-- A symbol or an array of symbols. -/
def multiSymbol : Scanner Unit := do
  let bs ← get
  if bs.head? = some sym8 ∨ bs.head? = some sym32 then
    let _ ← scalar symbolCodes
  else array symbolCodes

end Layout

end GoAmqp
