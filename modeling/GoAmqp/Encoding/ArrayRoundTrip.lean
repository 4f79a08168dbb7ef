import GoAmqp.Encoding.DecodeSpec.Scalars
import GoAmqp.Encoding.EncodeSpec

set_option autoImplicit false

/-! # Arrays whose encoding does not always read back

Two families of arrays lose something between `Marshal` and `Unmarshal`.

* Signed integers. The element width is chosen by a scan for elements above 127, so an array whose
  elements are all at most 127 gets one byte for each, however negative they are.
* Strings, symbols and byte slices. Before it reads the first element the decoder asks for two
  bytes an element in what is left of the buffer, while an empty element takes one byte.

`RoundTrips` says of one array, and of the bytes behind it, that the decoder returns what was
written. For both families it is characterised exactly. -/

namespace GoAmqp

open Lib Buffer TypeCode

/-- The two sides of one array type. -/
structure ArrayCodec (α : Type) where
  marshal : List α → BufM Unit
  unmarshal : BufM (List α)

/-- `Marshal` appends some bytes to whatever the buffer holds, and `Unmarshal` in front of these
    bytes and `rest` returns the array and stops in front of `rest`. -/
def ArrayCodec.RoundTrips {α : Type} (c : ArrayCodec α) (a : List α) (rest : Bytes) : Prop :=
  ∃ bs, Writes (c.marshal a) bs ∧ Reads c.unmarshal bs rest a

def arrayInt32 : ArrayCodec Int32 := ⟨marshalArrayInt32, unmarshalArrayInt32⟩

def arrayInt64 : ArrayCodec Int64 := ⟨marshalArrayInt64, unmarshalArrayInt64⟩

def arrayString : ArrayCodec Bytes := ⟨marshalArrayString, unmarshalArrayString⟩

def arraySymbol : ArrayCodec Bytes := ⟨marshalArraySymbol, unmarshalArraySymbol⟩

def arrayBinary : ArrayCodec Bytes := ⟨marshalArrayBinary, unmarshalArrayBinary⟩

/-! ## What is written and what is read are determined -/

variable {bs rest : Bytes} {α : Type} {a : List Bytes}

theorem Writes.unique {m : BufM Unit} {cs : Bytes} (hbs : Writes m bs) (hcs : Writes m cs) : bs = cs := by
  have hwf : (Buffer.new []).WF := Nat.le_refl 0
  have heq : (Buffer.new []).append bs = (Buffer.new []).append cs := by
    have h := (hbs _ hwf).symm.trans (hcs _ hwf)
    injection h
  exact congrArg Buffer.b heq

theorem run_new_append {m : BufM α} {a : α} (h : Reads m bs rest a) :
    m.run (Buffer.new (bs ++ rest)) = .ok a ((Buffer.new (bs ++ rest)).advance bs.length) :=
  h _ (Nat.zero_le _) rfl

theorem reads_unique {m : BufM α} {a b : α} (ha : Reads m bs rest a) (hb : Reads m bs rest b) : a = b := by
  have h := (run_new_append ha).symm.trans (run_new_append hb)
  injection h

/-- With the bytes that are written and the array that is read in front of them known, the round
    trip is an equation between arrays. -/
theorem ArrayCodec.roundTrips_iff_eq {c : ArrayCodec α} {a b : List α} (hw : Writes (c.marshal a) bs)
    (hr : Reads c.unmarshal bs rest b) : c.RoundTrips a rest ↔ b = a := by
  constructor
  · rintro ⟨cs, hcs, ha⟩
    rw [hcs.unique hw] at ha
    exact reads_unique hr ha
  · rintro rfl
    exact ⟨bs, hw, hr⟩

/-! ## Signed integers -/

/-- What a 32-bit integer becomes in one signed byte. -/
def narrow32 (n : Int32) : Int32 := n.toUInt32.toUInt8.toInt8.toInt32

def narrow64 (n : Int64) : Int64 := n.toUInt64.toUInt8.toInt8.toInt64

theorem narrow32_eq_iff {n : Int32} (h : ¬ n > 127) : narrow32 n = n ↔ -128 ≤ n := by
  constructor
  · intro heq
    have hlo := Int8.minValue_le n.toUInt32.toUInt8.toInt8
    rw [← heq, narrow32, Int32.le_iff_toInt_le, Int8.toInt_toInt32]
    exact Int8.le_iff_toInt_le.mp hlo
  · intro hlo
    refine Int32.lowByte_widen ⟨?_, hlo⟩
    simp only [gt_iff_lt, Int32.lt_iff_toInt_lt, Int32.reduceToInt] at h ⊢
    omega

theorem narrow64_eq_iff {n : Int64} (h : ¬ n > 127) : narrow64 n = n ↔ -128 ≤ n := by
  constructor
  · intro heq
    have hlo := Int8.minValue_le n.toUInt64.toUInt8.toInt8
    rw [← heq, narrow64, Int64.le_iff_toInt_le, Int8.toInt_toInt64]
    exact Int8.le_iff_toInt_le.mp hlo
  · intro hlo
    refine Int64.lowByte_widen ⟨?_, hlo⟩
    simp only [gt_iff_lt, Int64.lt_iff_toInt_lt, Int64.reduceToInt] at h ⊢
    omega

/-- Elements written in one byte each: what is read is what the bytes say. -/
theorem reads_narrowed {type_ : UInt8} (low : α → UInt8) (widen : UInt8 → α) {k : Nat → UInt8 → BufM (List α)}
    (a : List α) (hk : ∀ l, k l type_ = readElements 1 "invalid length" (byteElement widen) l)
    (hlt : (encodeArray 1 type_ (fun n => [low n]) a).length < 2 ^ 32) :
    Reads (do
      let l ← readArrayHeader
      let t ← readType
      k l t) (encodeArray 1 type_ (fun n => [low n]) a) rest (a.map fun n => widen (low n)) := by
  refine (compoundForm_encodeArray hlt (Nat.le_refl 1) fun _ _ => rfl).reads_array ?_
  rw [hk]
  exact reads_readElements_map _ _ a (fun _ _ => rfl) fun _ _ _ => rfl

theorem length_encodeArray_lt {typeSize : Nat} (type_ : UInt8) {enc : α → Bytes} {a : List α}
    (hle : typeSize ≤ 8) (hsize : ∀ x ∈ a, (enc x).length = typeSize) (h : a.length < 2 ^ 28)
    : (encodeArray typeSize type_ enc a).length < 2 ^ 32 := by
  have hmul : a.length * typeSize ≤ a.length * 8 := Nat.mul_le_mul_left _ hle
  rw [encodeArray, List.length_append, length_flatMap_const a hsize, encodeArrayHeader, encodeArraySizes]
  split <;> simp only [List.length_append, List.length_cons, List.length_nil, length_be32] <;> omega

/-- An encoder that writes the whole array wide as soon as one element is `big`, and otherwise
    narrows every element. -/
theorem ArrayCodec.roundTrips_iff_of_narrow {c : ArrayCodec α} {big fits : α → Prop} {narrow : α → α} {a : List α}
    (wide small : Bytes) (hwide : (∃ n ∈ a, big n) → Writes (c.marshal a) wide ∧ Reads c.unmarshal wide rest a)
    (hsmall : (¬ ∃ n ∈ a, big n) → Writes (c.marshal a) small ∧ Reads c.unmarshal small rest (a.map narrow))
    (hnarrow : ∀ n, ¬ big n → (narrow n = n ↔ fits n)) :
    c.RoundTrips a rest ↔ (∃ n ∈ a, big n) ∨ ∀ n ∈ a, fits n := by
  by_cases hbig : ∃ n ∈ a, big n
  · obtain ⟨hw, hr⟩ := hwide hbig
    simp [c.roundTrips_iff_eq hw hr, hbig]
  · obtain ⟨hw, hr⟩ := hsmall hbig
    have hmap : a.map narrow = a ↔ ∀ n ∈ a, narrow n = n := by
      rw [← List.map_inj_left, List.map_id']
    have hfits : (∀ n ∈ a, narrow n = n) ↔ ∀ n ∈ a, fits n :=
      forall₂_congr fun n hn => hnarrow n fun hb => hbig ⟨n, hn, hb⟩
    rw [c.roundTrips_iff_eq hw hr, hmap, hfits, or_iff_right hbig]

theorem arrayInt32_roundTrips_iff {a : List Int32} (h : a.length < 2 ^ 28) (rest : Bytes) :
    arrayInt32.RoundTrips a rest ↔ (∃ n ∈ a, n > 127) ∨ ∀ n ∈ a, -128 ≤ n := by
  refine ArrayCodec.roundTrips_iff_of_narrow
    (encodeArray 4 int (fun n => be32 n.toUInt32) a)
    (encodeArray 1 smallint (fun n => [n.toUInt32.toUInt8]) a)
    (fun hbig => ?_) (fun hbig => ?_) fun n => narrow32_eq_iff
  · have hlt := length_encodeArray_lt int (by decide)
      (fun (n : Int32) _ => length_be32 n.toUInt32) h
    constructor
    · show Writes (marshalArrayInt32 a) _
      rw [marshalArrayInt32, if_pos (by simpa using hbig)]
      exact writes_marshalArray _ _ _ a
    · refine (compoundForm_encodeArray hlt (by decide) fun _ _ => rfl).reads_array ?_
      refine reads_readElements _ a (fun _ _ => rfl) fun n _ tail => ?_
      rw [uint32Element_be32, map_pure, Int32.toInt32_toUInt32]
  · have hlt := length_encodeArray_lt smallint (by decide)
      (fun (n : Int32) _ => List.length_singleton (a := n.toUInt32.toUInt8)) h
    constructor
    · show Writes (marshalArrayInt32 a) _
      rw [marshalArrayInt32, if_neg (by simpa using hbig)]
      exact writes_marshalArray _ _ _ a
    · refine reads_narrowed (fun n => n.toUInt32.toUInt8) (fun b => b.toInt8.toInt32) a ?_ hlt
      intro l
      rfl

theorem arrayInt64_roundTrips_iff {a : List Int64} (h : a.length < 2 ^ 28) (rest : Bytes) :
    arrayInt64.RoundTrips a rest ↔ (∃ n ∈ a, n > 127) ∨ ∀ n ∈ a, -128 ≤ n := by
  refine ArrayCodec.roundTrips_iff_of_narrow
    (encodeArray 8 long (fun n => be64 n.toUInt64) a)
    (encodeArray 1 smalllong (fun n => [n.toUInt64.toUInt8]) a)
    (fun hbig => ?_) (fun hbig => ?_) fun n => narrow64_eq_iff
  · have hlt := length_encodeArray_lt long (by decide)
      (fun (n : Int64) _ => length_be64 n.toUInt64) h
    constructor
    · show Writes (marshalArrayInt64 a) _
      rw [marshalArrayInt64, if_pos (by simpa using hbig)]
      exact writes_marshalArray _ _ _ a
    · refine (compoundForm_encodeArray hlt (by decide) fun _ _ => rfl).reads_array ?_
      refine reads_readElements _ a (fun _ _ => rfl) fun n _ tail => ?_
      rw [uint64Element_be64, map_pure, Int64.toInt64_toUInt64]
  · have hlt := length_encodeArray_lt smalllong (by decide)
      (fun (n : Int64) _ => List.length_singleton (a := n.toUInt64.toUInt8)) h
    constructor
    · show Writes (marshalArrayInt64 a) _
      rw [marshalArrayInt64, if_neg (by simpa using hbig)]
      exact writes_marshalArray _ _ _ a
    · refine reads_narrowed (fun n => n.toUInt64.toUInt8) (fun b => b.toInt8.toInt64) a ?_ hlt
      intro l
      rfl

/-- Signed integer arrays read back, whatever follows them, exactly when no element is below −128
    or some element is above 127 and widens the whole array. -/
theorem signed_arrays_roundTrip_iff (a : List Int32) (b : List Int64) (rest : Bytes)
    (ha : a.length < 2 ^ 28) (hb : b.length < 2 ^ 28) :
    (arrayInt32.RoundTrips a rest ↔ (∃ n ∈ a, n > 127) ∨ ∀ n ∈ a, -128 ≤ n) ∧
      (arrayInt64.RoundTrips b rest ↔ (∃ n ∈ b, n > 127) ∨ ∀ n ∈ b, -128 ≤ n) :=
  ⟨arrayInt32_roundTrips_iff ha rest, arrayInt64_roundTrips_iff hb rest⟩

/-- An array in each of the two encodings, with a negative element. -/
theorem signed_arrays_roundTrip_examples :
    arrayInt32.RoundTrips [-128, 0, 127] [] ∧ arrayInt64.RoundTrips [-128, 0, 127] [] ∧
      arrayInt32.RoundTrips [-1000, 1000] [0x40] ∧ arrayInt64.RoundTrips [-1000, 1000] [0x40] := by
  have hsmall := signed_arrays_roundTrip_iff [-128, 0, 127] [-128, 0, 127] [] (by decide) (by decide)
  have hwide := signed_arrays_roundTrip_iff [-1000, 1000] [-1000, 1000] [0x40] (by decide) (by decide)
  exact ⟨hsmall.1.mpr (by simp), hsmall.2.mpr (by simp), hwide.1.mpr (by simp), hwide.2.mpr (by simp)⟩

/-- −1000 alone is written as the byte 0x18, which reads back as 24. -/
theorem signed_array_truncated :
    marshalArrayInt32 [-1000] (.new []) = .ok () (.new [array8, 3, 1, smallint, 0x18]) ∧
      unmarshalArrayInt32 (.new [array8, 3, 1, smallint, 0x18])
        = .ok [24] ⟨[array8, 3, 1, smallint, 0x18], 5⟩ ∧
      ∀ rest, ¬ arrayInt32.RoundTrips [-1000] rest ∧ ¬ arrayInt64.RoundTrips [-1000] rest := by
  refine ⟨rfl, rfl, fun rest => ⟨?_, ?_⟩⟩
  · simp [arrayInt32_roundTrips_iff]
  · simp [arrayInt64_roundTrips_iff]

/-! ## Strings, symbols and byte slices -/

section Variable

variable {code8 code32 : UInt8} {name : String} {tooLong8 : Nat → String} {a : List Bytes}
  {rest : Bytes}

/-- The decoder refuses an array whose count does not pass its check. -/
theorem countPasses_of_reads (hlt : (encodeVariableArray code8 code32 a).length < 2 ^ 32)
    (h : Reads (unmarshalVariableArray code8 code32 name tooLong8)
      (encodeVariableArray code8 code32 a) rest a) : CountPasses a rest := by
  by_cases hlong : (a.any fun s => decide (s.length > 255)) = true
  · exact .inl (by simpa using hlong)
  refine .inr ?_
  have hlen := length_flatMap_element8 a
  simp only [encodeVariableArray, if_neg hlong] at hlt h
  obtain ⟨header, heq, hread⟩ := (compoundForm_array (Nat.le_add_left ..) hlen hlt).exists_arrayHeader
  rw [heq] at h
  have hheader : Reads (do
      let length ← readArrayHeader
      let left ← len
      pure (length, left)) _ (code8 :: a.flatMap (fun s => UInt8.ofNat s.length :: s) ++ rest) _ :=
    (hread rest).bind_pure (reads_len.bind_peek (Reads.pure _ _))
  by_contra hcount
  -- the header is read, and the check behind it fails
  have hrun := hheader.run_behind (f := fun (length, left) =>
    if length * 2 > left then fail (s!"invalid length {length}") else do
      let type_ ← readType
      if type_ = code8 then readN (element8 (tooLong8 length)) length
      else if type_ = code32 then readN element32 length
      else fail ("invalid type for " ++ name ++ " " ++ hex2 type_))
    (by simpa [unmarshalVariableArray] using h) (s := .new _) (Nat.zero_le _) rfl
  simp only at hrun
  rw [if_pos (by simp only [List.nil_append, List.length_append, List.length_cons, hlen]; omega)]
    at hrun
  cases hrun

theorem ArrayCodec.roundTrips_iff_countPasses {c : ArrayCodec Bytes} (hne : code32 ≠ code8)
    (hw : Writes (c.marshal a) (encodeVariableArray code8 code32 a))
    (hr : c.unmarshal = unmarshalVariableArray code8 code32 name tooLong8)
    (hlt : (encodeVariableArray code8 code32 a).length < 2 ^ 32) : c.RoundTrips a rest ↔ CountPasses a rest := by
  constructor
  · rintro ⟨bs, hbs, h⟩
    rw [hbs.unique hw, hr] at h
    exact countPasses_of_reads hlt h
  · intro h
    refine ⟨_, hw, ?_⟩
    rw [hr]
    exact reads_unmarshalVariableArray_of_countPasses hne name tooLong8 h hlt

end Variable

theorem writes_marshalArrayString (ha : ∀ s ∈ a, validUtf8 s = true) :
    Writes (marshalArrayString a) (encodeVariableArray str8 str32 a) := by
  rw [marshalArrayString, if_neg (by simpa using ha)]
  exact writes_marshalVariableArray (by decide) (by decide) a

theorem arrayString_roundTrips_iff (ha : ∀ s ∈ a, validUtf8 s = true)
    (hlt : (encodeVariableArray str8 str32 a).length < 2 ^ 32) : arrayString.RoundTrips a rest ↔ CountPasses a rest :=
  ArrayCodec.roundTrips_iff_countPasses (by decide) (writes_marshalArrayString ha) rfl hlt

theorem arraySymbol_roundTrips_iff (hlt : (encodeVariableArray sym8 sym32 a).length < 2 ^ 32) :
    arraySymbol.RoundTrips a rest ↔ CountPasses a rest :=
  ArrayCodec.roundTrips_iff_countPasses (by decide)
    (writes_marshalVariableArray (by decide) (by decide) a) rfl hlt

theorem arrayBinary_roundTrips_iff (hlt : (encodeVariableArray vbin8 vbin32 a).length < 2 ^ 32) :
    arrayBinary.RoundTrips a rest ↔ CountPasses a rest :=
  ArrayCodec.roundTrips_iff_countPasses (by decide)
    (writes_marshalVariableArray (by decide) (by decide) a) rfl hlt

/-- Arrays of strings, symbols and byte slices read back in front of `rest` exactly when the count
    passes the decoder's check: some element needs a four-byte length, or the elements and `rest`
    together have at least as many bytes as there are elements, less one. -/
theorem variable_arrays_roundTrip_iff (a : List Bytes) (rest : Bytes) :
    ((∀ s ∈ a, validUtf8 s = true) → (encodeVariableArray str8 str32 a).length < 2 ^ 32 →
      (arrayString.RoundTrips a rest ↔ CountPasses a rest)) ∧
    ((encodeVariableArray sym8 sym32 a).length < 2 ^ 32 → (arraySymbol.RoundTrips a rest ↔ CountPasses a rest)) ∧
    ((encodeVariableArray vbin8 vbin32 a).length < 2 ^ 32 → (arrayBinary.RoundTrips a rest ↔ CountPasses a rest)) :=
  ⟨arrayString_roundTrips_iff, arraySymbol_roundTrips_iff, arrayBinary_roundTrips_iff⟩

/-- `["é", "", "a"]`: one empty element among others. -/
theorem variable_arrays_roundTrip_mixed :
    arrayString.RoundTrips [[0xc3, 0xa9], [], [0x61]] [] ∧ arraySymbol.RoundTrips [[0xc3, 0xa9], [], [0x61]] [] ∧
      arrayBinary.RoundTrips [[0xc3, 0xa9], [], [0x61]] [] := by
  obtain ⟨hstring, hsymbol, hbinary⟩ := variable_arrays_roundTrip_iff [[0xc3, 0xa9], [], [0x61]] []
  exact ⟨(hstring (by decide) (by decide)).mpr (by decide), (hsymbol (by decide)).mpr (by decide),
    (hbinary (by decide)).mpr (by decide)⟩

/-- Two empty strings at the end of the buffer: six bytes are written, and the decoder, with three
    of them left behind the sizes, refuses a count of two. One trailing byte more and it accepts. -/
theorem variable_array_refused :
    marshalArrayString [[], []] (.new [])
        = .ok () (.new [array8, 4, 2, str8, 0, 0]) ∧
      unmarshalArrayString (.new [array8, 4, 2, str8, 0, 0])
        = .error (.err "invalid length 2") ⟨[array8, 4, 2, str8, 0, 0], 3⟩ ∧
      ¬ arrayString.RoundTrips [[], []] [] ∧ arrayString.RoundTrips [[], []] [0x40] ∧
      ¬ arraySymbol.RoundTrips [[], []] [] ∧ ¬ arrayBinary.RoundTrips [[], []] [] := by
  refine ⟨rfl, rfl, ?_, ?_, ?_, ?_⟩
  · rw [arrayString_roundTrips_iff (by decide) (by decide)]
    decide
  · rw [arrayString_roundTrips_iff (by decide) (by decide)]
    decide
  · rw [arraySymbol_roundTrips_iff (by decide)]
    decide
  · rw [arrayBinary_roundTrips_iff (by decide)]
    decide

end GoAmqp
