import GoAmqp.Encoding.DecodeSpec.Values
import GoAmqp.Encoding.Grammar

set_option autoImplicit false

/-! # The widths a sender may choose

Our own encoder picks one encoding for each value, and other peers pick others. `Encodes Key v bs`
says that `bs` is an encoding of `v` with any of the AMQP constructors that can carry it, chosen anew
at every node, and with exact size fields; `Key` says which values may be the keys of a map.

`Encodes.reads`: in front of any encoding of `v`, `ReadAny` returns `v.received`, which does not
depend on the encoding. -/

namespace GoAmqp

open Lib Buffer TypeCode Value

variable {v : Value} {m : BufM Value} {bs contents : Bytes} {count : Nat} {Key : Value → Prop}

/-! ## Encodings -/

/-- The encodings of a value. -/
inductive Encodes (Key : Value → Prop) : Value → Bytes → Prop where
  | null : Encodes Key .nil [TypeCode.null]
  | boolCode (b : Bool) :
      Encodes Key (.bool b) [if b then boolTrue else boolFalse]
  | boolByte (b : Bool) : Encodes Key (.bool b) [TypeCode.bool, if b then 1 else 0]
  | ubyte (n : UInt8) : Encodes Key (.uint8 n) [TypeCode.ubyte, n]
  | ushort (n : UInt16) : Encodes Key (.uint16 n) (TypeCode.ushort :: be16 n)
  | uint0 : Encodes Key (.uint32 0) [TypeCode.uint0]
  | smallUint (n : UInt8) : Encodes Key (.uint32 n.toUInt32) [TypeCode.smallUint, n]
  | uint (n : UInt32) : Encodes Key (.uint32 n) (TypeCode.uint :: be32 n)
  | ulong0 : Encodes Key (.uint64 0) [TypeCode.ulong0]
  | smallUlong (n : UInt8) : Encodes Key (.uint64 n.toUInt64) [TypeCode.smallUlong, n]
  | ulong (n : UInt64) : Encodes Key (.uint64 n) (TypeCode.ulong :: be64 n)
  | byte (n : Int8) : Encodes Key (.int8 n) [TypeCode.byte, n.toUInt8]
  | short (n : Int16) : Encodes Key (.int16 n) (TypeCode.short :: be16 n.toUInt16)
  | smallint (n : Int8) : Encodes Key (.int32 n.toInt32) [TypeCode.smallint, n.toUInt8]
  | int (n : Int32) : Encodes Key (.int32 n) (TypeCode.int :: be32 n.toUInt32)
  | smalllong (n : Int8) : Encodes Key (.int64 n.toInt64) [TypeCode.smalllong, n.toUInt8]
  | long (n : Int64) : Encodes Key (.int64 n) (TypeCode.long :: be64 n.toUInt64)
  | string {s bs : Bytes} (h : VariableForm str8 str32 s bs) :
      Encodes Key (.string s) bs
  | symbol {s bs : Bytes} (h : VariableForm sym8 sym32 s bs) :
      Encodes Key (.symbol s) bs
  | binary {b bs : Bytes} (h : VariableForm vbin8 vbin32 b bs) :
      Encodes Key (.binary b) bs
  | list {xs : List (Value × Bytes)} {bs : Bytes} (hxs : ∀ x ∈ xs, Encodes Key x.1 x.2)
      (h : ListForm xs.length (xs.flatMap Prod.snd) bs) : Encodes Key (.list (xs.map Prod.fst)) bs
  | map {es : List ((Value × Bytes) × (Value × Bytes))} {bs : Bytes}
      (hkey : ∀ e ∈ es, Key e.1.1) (hkeys : ∀ e ∈ es, Encodes Key e.1.1 e.1.2)
      (hvalues : ∀ e ∈ es, Encodes Key e.2.1 e.2.2)
      (h : CompoundForm map8 map32 (es.length * 2)
        (es.flatMap fun e => e.1.2 ++ e.2.2) bs) :
      Encodes Key (.mapAny (es.map fun e => (e.1.1, e.2.1))) bs
  | array {v : Value} {count : Nat} {elements bs : Bytes} (he : EncodesElements v count elements)
      (h : CompoundForm array8 array32 count elements bs) : Encodes Key v bs
  | described {d v : Value} {ds vs : Bytes} (hd : Encodes Key d ds) (hv : Encodes Key v vs)
      (hres : d.reserved = false) : Encodes Key (.described d v) (0x0 :: (ds ++ vs))

/-! ## What is received -/

/-- Entries that are assigned one after the other. -/
def assignEntries (m : List (Value × Value)) : List (Value × Value) :=
  m.foldl (fun mm e => mapAssign keyEq e.1 e.2 mm) []

mutual

/-- The value that `ReadAny` returns for any encoding. Symbols become strings; of two entries of a
    map with the same key, the value of the later one stays. -/
def Value.received : Value → Value
  | .symbol s => .string s
  | .list xs => .list (receivedElements xs)
  | .mapAny m => .ofAssigned (assignEntries (receivedEntries m))
  | .described d v => .described d.received v.received
  | v => v

def receivedElements : List Value → List Value
  | [] => []
  | x :: xs => x.received :: receivedElements xs

def receivedEntries : List (Value × Value) → List (Value × Value)
  | [] => []
  | (k, v) :: m => (k.received, v.received) :: receivedEntries m

end

theorem receivedElements_eq (xs : List Value) : receivedElements xs = xs.map received := by
  induction xs with
  | nil => rfl
  | cons x xs ih => rw [receivedElements, ih, List.map_cons]

theorem receivedEntries_eq (m : List (Value × Value)) :
    receivedEntries m = m.map fun e => (e.1.received, e.2.received) := by
  induction m with
  | nil => rfl
  | cons e m ih => rw [receivedEntries, ih, List.map_cons]

/-! ## Values by their type code -/

variable {rest : Bytes}

/-- Whatever the elements are, the value is received as it is. -/
theorem EncodesElements.received_eq {elements : Bytes} (he : EncodesElements v count elements) : v.received = v := by
  cases he <;> rfl

/-! ## Lists, maps and described types -/

/-- The keys that `mapAnyAny.Unmarshal` accepts, once they are decoded. -/
def Value.MapKey (k : Value) : Prop := k.received.kind = .other ∧ k.received.hashable = true

theorem reads_readAny_entries {es : List ((Value × Bytes) × (Value × Bytes))}
    (h : CompoundForm map8 map32 (es.length * 2)
      (es.flatMap fun e => e.1.2 ++ e.2.2) bs)
    (hkpos : ∀ e ∈ es, 1 ≤ e.1.2.length) (hvpos : ∀ e ∈ es, 1 ≤ e.2.2.length)
    (hkey : ∀ e ∈ es, e.1.1.MapKey) (hkeys : ∀ e ∈ es, ∀ tail, Reads readAny e.1.2 tail e.1.1.received)
    (hvalues : ∀ e ∈ es, ∀ tail, Reads readAny e.2.2 tail e.2.1.received) :
    Reads readAny bs rest (.ofAssigned (assignEntries (receivedEntries (es.map fun e => (e.1.1, e.2.1))))) := by
  rw [assignEntries, receivedEntries_eq, List.map_map, List.foldl_map]
  refine reads_readAny_map h.starts (h.reads_rounds hkpos hvpos hkeys hvalues fun e he m v => ?_)
  obtain ⟨hkind, hhash⟩ := hkey e he
  rw [if_neg (by simp [hkind])]
  exact assignAny_of_hashable hhash m v

/-- Whatever its encoding, a descriptor that is not reserved is not taken for a reserved one. -/
theorem Encodes.peeksFree {d : Value} {ds : Bytes} (h : Encodes Key d ds) (hres : d.reserved = false) :
    PeeksFree ds := by
  cases h with
  | smallUlong n =>
    refine peeksFree_smallUlong ?_
    have hlt : n.toUInt64 < 256 := by
      rw [UInt64.lt_iff_toNat_lt, UInt8.toNat_toUInt64]
      exact n.toNat_lt
    simpa [reserved, hlt] using hres
  | ulong n => exact peeksFree_ulong fun hlt => by simpa [reserved, hlt] using hres
  | boolCode b => cases b <;> exact peeksFree_cons (by decide)
  | string h | symbol h | binary h => cases h <;> exact peeksFree_cons (by decide)
  | list _ h =>
    rcases h with _ | h
    · exact peeksFree_cons (by decide)
    · cases h <;> exact peeksFree_cons (by decide)
  | map _ _ _ h | array _ h => cases h <;> exact peeksFree_cons (by decide)
  | _ => exact peeksFree_cons (by decide)

/-! ## All encodings -/

theorem Encodes.pos (h : Encodes Key v bs) : 1 ≤ bs.length := by
  cases h with
  | string h | symbol h | binary h => cases h <;> simp
  | list _ h =>
    rcases h with _ | h
    · simp
    · cases h <;> simp
  | map _ _ _ h | array _ h => cases h <;> simp
  | _ => simp

/-- **`ReadAny` does not depend on the widths.** In front of any encoding of a value it returns the
    same value and stops behind the encoding. -/
theorem Encodes.reads (hKey : ∀ k, Key k → k.MapKey) (h : Encodes Key v bs) (rest : Bytes) :
    Reads readAny bs rest v.received := by
  induction h generalizing rest with
  | null => exact reads_readAny_nil
  | boolCode b =>
    exact reads_readAny_starts (starts_encodeBool b) (by decide) ((reads_readBool b).map bool) ⟨rfl, rfl⟩
  | boolByte b => exact reads_readAny_code (by decide) ((reads_boolByte b).map bool)
  | ubyte n =>
    exact reads_readAny_code (by decide) ((reads_readFixed _ (reads_readByte n)).map uint8)
  | ushort n =>
    exact reads_readAny_code (by decide) ((reads_readFixed _ (reads_readUint16 n)).map uint16)
  | uint0 => exact reads_readAny_code (by decide) (reads_uint0.map uint32)
  | smallUint n => exact reads_readAny_code (by decide) ((reads_smallUint n).map uint32)
  | uint n => exact reads_readAny_code (by decide) ((reads_uint n).map uint32)
  | ulong0 => exact reads_readAny_code (by decide) (reads_ulong0.map uint64)
  | smallUlong n => exact reads_readAny_code (by decide) ((reads_smallUlong n).map uint64)
  | ulong n => exact reads_readAny_code (by decide) ((reads_ulong n).map uint64)
  | byte n =>
    exact reads_readAny_code (by decide)
      (((reads_readFixed _ ((reads_readByte _).map _)).map _).congr rfl (by simp [received]))
  | short n =>
    exact reads_readAny_code (by decide)
      (((reads_readFixed _ ((reads_readUint16 _).map _)).map _).congr rfl (by simp [received]))
  | smallint n =>
    exact reads_readAny_code (by decide)
      (((reads_smallint n.toUInt8).map _).congr rfl (by simp [received]))
  | int n => exact reads_readAny_code (by decide) ((reads_int n).map int32)
  | smalllong n =>
    exact reads_readAny_code (by decide)
      (((reads_smalllong n.toUInt8).map _).congr rfl (by simp [received]))
  | long n => exact reads_readAny_code (by decide) ((reads_long n).map int64)
  | string h | symbol h =>
    exact reads_readAny_starts h.starts (by decide)
      ((h.reads "string" (by decide) (by decide)).map Value.string) ⟨rfl, rfl⟩
  | binary h =>
    exact reads_readAny_starts h.starts (by decide)
      ((h.reads "binary" (by decide) (by decide)).map Value.binary) ⟨rfl, rfl⟩
  | list hxs h ih =>
    rw [received, receivedElements_eq, List.map_map]
    exact h.reads_readAny (h.reads_unmarshalList (fun x hx => (hxs x hx).pos) ih)
  | map hkey hkeys hvalues h ihk ihv =>
    exact reads_readAny_entries h (fun e he => (hkeys e he).pos) (fun e he => (hvalues e he).pos)
      (fun e he => hKey _ (hkey e he)) ihk ihv
  | array he h =>
    rw [he.received_eq]
    exact reads_readAny_elements he h
  | described hd _ hres ihd ihv => exact reads_readAny_described hd.pos (hd.peeksFree hres) (ihd _) (ihv rest)

/-- The scalars: booleans, integers, strings, symbols and byte slices. -/
def Value.isScalar : Value → Bool
  | .bool _ | .uint8 _ | .uint16 _ | .uint32 _ | .uint64 _ | .int8 _ | .int16 _ | .int32 _
  | .int64 _ | .string _ | .symbol _ | .binary _ => true
  | _ => false

def Value.isBinary : Value → Bool
  | .binary _ => true
  | _ => false

/-- A scalar that is not a byte slice. -/
def Value.ScalarKey (k : Value) : Prop := k.isScalar = true ∧ k.isBinary = false

theorem Value.ScalarKey.mapKey {k : Value} (h : k.ScalarKey) : k.MapKey := by
  obtain ⟨hscalar, hbinary⟩ := h
  cases k <;>
    simp_all [isScalar, isBinary, MapKey, received, kind, hashable]

/-- **The widths that a sender chooses do not matter.** When no map has a byte slice as a key,
    `ReadAny` succeeds in front of any two encodings of a value, returns the same value and leaves the
    bytes that follow. -/
theorem readAny_width_irrelevant {v : Value} {bs cs : Bytes} (hbs : Encodes ScalarKey v bs)
    (hcs : Encodes ScalarKey v cs) (rest : Bytes) :
    ∃ x, Reads readAny bs rest x ∧ Reads readAny cs rest x := by
  have hKey : ∀ k : Value, k.ScalarKey → k.MapKey := fun _ h => h.mapKey
  exact ⟨v.received, hbs.reads hKey rest, hcs.reads hKey rest⟩

/-- The list of the uint 0 and the map of `a` to true, in the narrow and in the wide forms. -/
def narrowBytes : Bytes := [0xc0, 9, 2, 0x43, 0xc1, 5, 2, 0xa1, 1, 97, 0x41]

def wideBytes : Bytes := [
  0xd0, 0, 0, 0, 26, 0, 0, 0, 2, 0x70, 0, 0, 0, 0,
  0xd1, 0, 0, 0, 12, 0, 0, 0, 2, 0xb1, 0, 0, 0, 1, 97, 0x56, 1]

/-- A map with one entry. -/
theorem Encodes.entry {k w : Value} (ks ws : Bytes) {bs : Bytes} (hkey : Key k) (hk : Encodes Key k ks)
    (hw : Encodes Key w ws) (h : CompoundForm map8 map32 2 (ks ++ ws) bs) : Encodes Key (.mapAny [(k, w)]) bs :=
  @Encodes.map _ [((k, ks), (w, ws))] _ (List.forall_mem_singleton.mpr hkey) (List.forall_mem_singleton.mpr hk)
    (List.forall_mem_singleton.mpr hw) (by simpa using h)

/-- A list of two values. -/
theorem Encodes.pair {v w : Value} (vs ws : Bytes) {bs : Bytes} (hv : Encodes Key v vs) (hw : Encodes Key w ws)
    (h : CompoundForm list8 list32 2 (vs ++ ws) bs) : Encodes Key (.list [v, w]) bs :=
  @Encodes.list _ [(v, vs), (w, ws)] _ (List.forall_mem_cons.mpr ⟨hv, List.forall_mem_singleton.mpr hw⟩)
    (.sized (by simpa using h))

theorem encodes_narrowBytes :
    Encodes ScalarKey (.list [.uint32 0, .mapAny [(.string [97], .bool true)]]) narrowBytes :=
  .pair [0x43] [0xc1, 5, 2, 0xa1, 1, 97, 0x41] .uint0
    (.entry [0xa1, 1, 97] [0x41] ⟨rfl, rfl⟩ (.string (.short (by decide))) (.boolCode true)
      (.short (by decide) (by decide)))
    (.short (by decide) (by decide))

theorem encodes_wideBytes : Encodes ScalarKey (.list [.uint32 0, .mapAny [(.string [97], .bool true)]]) wideBytes :=
  .pair [0x70, 0, 0, 0, 0] [0xd1, 0, 0, 0, 12, 0, 0, 0, 2, 0xb1, 0, 0, 0, 1, 97, 0x56, 1] (.uint 0)
    (.entry [0xb1, 0, 0, 0, 1, 97] [0x56, 1] ⟨rfl, rfl⟩ (.string (.long (by decide))) (.boolByte true)
      (.long (by decide) (by decide)))
    (.long (by decide) (by decide))

theorem readAny_width_irrelevant_nested :
    ∃ x, Reads readAny narrowBytes [7] x ∧ Reads readAny wideBytes [7] x :=
  readAny_width_irrelevant encodes_narrowBytes encodes_wideBytes [7]

/-- A byte slice is a scalar as well, but as the key of a map it is refused in either encoding. -/
theorem binary_key_refused :
    let v : Value := .mapAny [(.binary [1], .bool true)]
    let bs : Bytes := [0xc1, 5, 2, 0xa0, 1, 1, 0x41]
    let cs : Bytes := [0xd1, 0, 0, 0, 12, 0, 0, 0, 2, 0xb0, 0, 0, 0, 1, 1, 0x56, 1]
    (Encodes (fun k => k.isScalar = true) v bs ∧ Encodes (fun k => k.isScalar = true) v cs) ∧
    (∃ r, readAny.run (.new bs) = .error (.err "invalid map key") r) ∧
    ∃ r, readAny.run (.new cs) = .error (.err "invalid map key") r := by
  refine ⟨⟨?_, ?_⟩, ⟨_, rfl⟩, ⟨_, rfl⟩⟩
  · exact .entry [0xa0, 1, 1] [0x41] rfl (.binary (.short (by decide))) (.boolCode true)
      (.short (by decide) (by decide))
  · exact .entry [0xb0, 0, 0, 0, 1, 1] [0x56, 1] rfl (.binary (.long (by decide))) (.boolByte true)
      (.long (by decide) (by decide))

end GoAmqp
