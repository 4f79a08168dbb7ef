import GoAmqp.Encoding.Decode
import GoAmqp.Encoding.Wire
import GoAmqp.Lib.Integers

set_option autoImplicit false

/-! # Headers, scalars and arrays read back

For each reader, what it returns in front of an encoding. `Reads` facts compose along the reader's
own text. -/

namespace GoAmqp

open Lib Buffer TypeCode List

variable {code32 code8 t type_ : UInt8} {count length size typeSize : Nat} {bs contents s : Bytes} {v : Value}
  {a : List Bytes}

variable {rest : Bytes}

/-! ## Type codes and headers -/

theorem reads_skip (bs : Bytes) : Reads (skip bs.length) bs rest () := by
  intro r _ _
  rfl

theorem reads_tryReadNull : Reads tryReadNull [TypeCode.null] rest true := by
  refine .bind_peek reads_len ?_
  rw [if_pos (by simp)]
  exact .bind_peek reads_bytes (.bind_peek (.pure _ _)
    (.bind_pure (reads_skip [TypeCode.null]) (.pure _ _)))

theorem reads_tryReadNull_other (ht : t ≠ TypeCode.null) : Reads tryReadNull [] (t :: rest) false := by
  refine .bind_peek reads_len ?_
  rw [if_pos (by simp)]
  refine .bind_peek reads_bytes (.bind_peek (.pure _ _) ?_)
  rw [if_neg ht]
  exact .pure _ _

theorem reads_readSizes8 {avail : Nat} {size count : UInt8} (h : size.toNat ≤ avail - 1) :
    Reads (readSizes8 avail) [size, count] rest count.toNat := by
  refine .bind_pure (reads_next [size, count]) ?_
  refine .bind_peek (.pure count _) (.bind_peek (.pure size _) ?_)
  rw [if_neg (by omega)]
  exact .pure _ _

theorem bigEndian_be32 (n : UInt32) : bigEndian 4 (be32 n) = pure n.toNat := by
  have h : bigEndian 4 (be32 n ++ []) = pure (beNat (be32 n)) := bigEndian_append rfl
  rwa [List.append_nil, beNat_be32] at h

theorem reads_readSizes32 {avail : Nat} {size count : UInt32} (tooLong : String) (h : size.toNat ≤ avail - 4) :
    Reads (readSizes32 avail tooLong) (be32 size ++ be32 count) rest count.toNat := by
  refine .bind_pure (reads_next (be32 size ++ be32 count)) ?_
  show Reads (do
    let size' ← bigEndian 4 (be32 size)
    let count' ← bigEndian 4 (be32 count)
    if size' > avail - 4 then fail tooLong else pure count') [] rest count.toNat
  rw [bigEndian_be32, bigEndian_be32]
  refine .bind_peek (.pure _ _) (.bind_peek (.pure _ _) ?_)
  rw [if_neg (by omega)]
  exact .pure _ _

theorem reads_readListHeader_list0 : Reads readListHeader [list0] rest 0 :=
  .bind_pure (reads_readByte _) (.bind_peek reads_len (.pure _ _))

/-- The check of a four-byte size field against what is left. A size that does not fit in the field
    is written modulo 2^32 and passes the check too. -/
theorem size_le_avail (contents : Bytes) (count : UInt32) :
    (UInt32.ofNat (contents.length + 4)).toNat
      ≤ (be32 (UInt32.ofNat (contents.length + 4)) ++ be32 count ++ (contents ++ rest)).length - 4 := by
  have hmod : (UInt32.ofNat (contents.length + 4)).toNat ≤ contents.length + 4 := by
    rw [UInt32.toNat_ofNat']
    exact Nat.mod_le _ _
  simp only [length_append, length_be32]
  omega

/-- A header with four-byte size and count, in front of contents of that size. -/
theorem reads_readListHeader (hcount : count < 2 ^ 32) :
    Reads readListHeader (list32 :: (be32 (UInt32.ofNat (contents.length + 4))
      ++ be32 (UInt32.ofNat count))) (contents ++ rest) count := by
  refine .bind_cons (reads_readByte list32) (.bind_peek reads_len ?_)
  refine (reads_readSizes32 "invalid length" ?_).congr rfl (toNat_ofNat32 hcount)
  exact size_le_avail contents _

/-- The header of a compound in either form, by the branches of the decoder that it takes. -/
theorem CompoundForm.exists_header (h : CompoundForm code8 code32 count contents bs) {sizes : UInt8 → Nat → BufM Nat}
    (h8 : sizes code8 = readSizes8) {tooLong : String} (h32 : sizes code32 = fun avail => readSizes32 avail tooLong) :
    ∃ header, bs = header ++ contents ∧ ∀ rest,
      Reads (do
        let type_ ← readType
        let avail ← len
        sizes type_ avail) header (contents ++ rest) count := by
  cases h with
  | short hsize hcount =>
    refine ⟨code8 :: [UInt8.ofNat (contents.length + 1), UInt8.ofNat count], rfl, fun rest => ?_⟩
    refine .bind_cons (reads_readByte code8) (.bind_peek reads_len ?_)
    rw [h8]
    refine (reads_readSizes8 ?_).congr rfl (toNat_ofNat8 hcount)
    rw [toNat_ofNat8 hsize]
    simp only [length_append, length_cons, length_nil]
    omega
  | long hsize hcount =>
    refine ⟨code32 :: (be32 (UInt32.ofNat (contents.length + 4)) ++ be32 (UInt32.ofNat count)), rfl,
      fun rest => ?_⟩
    refine .bind_cons (reads_readByte code32) (.bind_peek reads_len ?_)
    rw [h32]
    exact (reads_readSizes32 tooLong (size_le_avail contents _)).congr rfl (toNat_ofNat32 hcount)

theorem CompoundForm.exists_listHeader (h : CompoundForm list8 list32 count contents bs) :
    ∃ header, bs = header ++ contents ∧ ∀ rest, Reads readListHeader header (contents ++ rest) count :=
  h.exists_header rfl rfl

theorem CompoundForm.exists_arrayHeader (h : CompoundForm array8 array32 count contents bs) :
    ∃ header, bs = header ++ contents ∧ ∀ rest, Reads readArrayHeader header (contents ++ rest) count :=
  h.exists_header rfl rfl

theorem CompoundForm.exists_mapHeader (h : CompoundForm map8 map32 count contents bs)
    (hcount : count ≤ contents.length) :
    ∃ header, bs = header ++ contents ∧
      ∀ rest, Reads readMapHeader header (contents ++ rest) (UInt32.ofNat count) := by
  have h8 : readMapSizes map8 = readSizes8 := rfl
  have h32 : readMapSizes map32 = fun avail => readSizes32 avail "invalid length" := rfl
  obtain ⟨header, rfl, hheader⟩ := h.exists_header h8 h32
  refine ⟨header, rfl, fun rest => ?_⟩
  have heq : readMapHeader = ((do
      let type_ ← readType
      let length ← len
      readMapSizes type_ length) >>= fun count => (do
        let left ← len
        if count > left then fail "invalid length" else pure (UInt32.ofNat count))) := by
    simp only [readMapHeader, bind_assoc]
  rw [heq]
  refine .bind_pure (hheader rest) (.bind_peek reads_len ?_)
  rw [if_neg (by simp only [length_append, nil_append]; omega)]
  exact .pure _ _

/-! ## Scalars -/

theorem VariableForm.reads {is8 is32 : UInt8 → Bool} (hform : VariableForm code8 code32 s bs)
    (kind : String) (h8 : is8 code8 = true) (h32 : is8 code32 = false ∧ is32 code32 = true) :
    Reads (readVariable is8 is32 kind) bs rest s := by
  have hnext : Reads (next s.length >>= fun x =>
      if !x.2 then fail "invalid length" else pure x.1) s rest s :=
    .bind_pure (reads_next s) (.pure _ _)
  cases hform with
  | short hshort =>
    refine .bind_cons (reads_readByte code8) (.bind_cons ?_ hnext)
    rw [readLength, if_pos h8]
    exact (Reads.map UInt8.toNat (reads_readByte _)).congr rfl (toNat_ofNat8 hshort)
  | long hlong =>
    refine .bind_cons (reads_readByte code32) (.bind ?_ hnext)
    rw [readLength, if_neg (by simp [h32.1]), if_pos h32.2]
    refine .bind_pure (reads_next (be32 (UInt32.ofNat s.length))) ?_
    show Reads (bigEndian 4 (be32 (UInt32.ofNat s.length))) [] (s ++ rest) s.length
    rw [bigEndian_be32, toNat_ofNat32 hlong]
    exact .pure _ _

theorem reads_readVariable {is8 is32 : UInt8 → Bool} (kind : String) (s : Bytes) (h8 : is8 code8 = true)
    (h32 : is8 code32 = false ∧ is32 code32 = true) (hlen : (encodeVariable code8 code32 s).length < 2 ^ 32) :
    Reads (readVariable is8 is32 kind) (encodeVariable code8 code32 s) rest s :=
  (variableForm_encodeVariable hlen).reads kind h8 h32

theorem reads_readString (s : Bytes) (h : (encodeString s).length < 2 ^ 32) :
    Reads readString (encodeString s) rest s :=
  reads_readVariable _ s (by decide) (by decide) h

/-- Symbols are read by the string reader. -/
theorem reads_readString_symbol (s : Bytes) (h : (encodeSymbol s).length < 2 ^ 32) :
    Reads readString (encodeSymbol s) rest s :=
  reads_readVariable _ s (by decide) (by decide) h

theorem reads_readBinary (b : Bytes) (h : (encodeBinary b).length < 2 ^ 32) :
    Reads readBinary (encodeBinary b) rest b :=
  reads_readVariable _ b (by decide) (by decide) h

/-! ### Integers in each of their widths -/

theorem reads_uint0 : Reads readUint32Value [TypeCode.uint0] rest 0 := .bind_pure (reads_readByte _) (.pure _ _)

theorem reads_smallUint (n : UInt8) : Reads readUint32Value [TypeCode.smallUint, n] rest n.toUInt32 :=
  .bind_cons (reads_readByte _) (.bind_pure (reads_readByte _) (.pure _ _))

theorem reads_uint (n : UInt32) : Reads readUint32Value (TypeCode.uint :: be32 n) rest n :=
  .bind_cons (reads_readByte _) (reads_readUint32 n)

theorem reads_ulong0 : Reads readUlong [TypeCode.ulong0] rest 0 := .bind_pure (reads_readByte _) (.pure _ _)

theorem reads_smallUlong (n : UInt8) : Reads readUlong [TypeCode.smallUlong, n] rest n.toUInt64 :=
  .bind_cons (reads_readByte _) (.bind_pure (reads_readByte _) (.pure _ _))

theorem reads_ulong (n : UInt64) : Reads readUlong (TypeCode.ulong :: be64 n) rest n :=
  .bind_cons (reads_readByte _) (reads_readUint64 n)

theorem reads_smallint (n : UInt8) : Reads readInt32 [TypeCode.smallint, n] rest n.toInt8.toInt32 :=
  .bind_cons (reads_readByte _) (.bind_pure (reads_readByte _) (.pure _ _))

theorem reads_int (n : Int32) : Reads readInt32 (TypeCode.int :: be32 n.toUInt32) rest n := by
  refine .bind_cons (reads_readByte _) (.bind_pure (reads_readUint32 _) ?_)
  rw [Int32.toInt32_toUInt32]
  exact .pure _ _

theorem reads_smalllong (n : UInt8) : Reads readLong [TypeCode.smalllong, n] rest n.toInt8.toInt64 :=
  .bind_cons (reads_readByte _) (.bind_pure (reads_readByte _) (.pure _ _))

theorem reads_long (n : Int64) : Reads readLong (TypeCode.long :: be64 n.toUInt64) rest n := by
  refine .bind_cons (reads_readByte _) (.bind_pure (reads_readUint64 _) ?_)
  rw [Int64.toInt64_toUInt64]
  exact .pure _ _

theorem reads_readUint32Value (n : UInt32) : Reads readUint32Value (encodeUint32 n) rest n := by
  unfold encodeUint32
  split
  · next h0 => exact reads_uint0.congr rfl h0.symm
  split
  · next h256 => exact (reads_smallUint _).congr rfl (toUInt8_toUInt32 h256)
  · exact reads_uint n

theorem reads_readUlong (n : UInt64) : Reads readUlong (encodeUint64 n) rest n := by
  unfold encodeUint64
  split
  · next h0 => exact reads_ulong0.congr rfl h0.symm
  split
  · next h256 => exact (reads_smallUlong _).congr rfl (toUInt8_toUInt64 h256)
  · exact reads_ulong n

theorem reads_readInt32 (n : Int32) : Reads readInt32 (encodeInt32 n) rest n := by
  unfold encodeInt32
  split
  · next h => exact (reads_smallint _).congr rfl (Int32.lowByte_widen h)
  · exact reads_int n

theorem reads_readLong (n : Int64) : Reads readLong (encodeInt64 n) rest n := by
  unfold encodeInt64
  split
  · next h => exact (reads_smalllong _).congr rfl (Int64.lowByte_widen h)
  · exact reads_long n

/-! ### Other scalars -/

theorem reads_boolByte (b : Bool) : Reads readBool [TypeCode.bool, if b then 1 else 0] rest b := by
  cases b with
  | true => exact .bind_cons (reads_readByte _) (.bind_pure (reads_readByte _) (.pure _ _))
  | false => exact .bind_cons (reads_readByte _) (.bind_pure (reads_readByte _) (.pure _ _))

theorem reads_readBool (b : Bool) : Reads readBool (encodeBool b) rest b := by
  cases b with
  | true => exact .bind_pure (reads_readByte TypeCode.boolTrue) (.pure _ _)
  | false => exact .bind_pure (reads_readByte TypeCode.boolFalse) (.pure _ _)

/-- A type with a single encoding: its type code, then its contents. -/
theorem reads_readFixed {α : Type} {code : UInt8} (name : String) {read : BufM α} {a : α}
    (h : Reads read bs rest a) : Reads (readFixed code name read) (code :: bs) rest a := by
  refine .bind_cons (reads_readByte code) ?_
  rw [if_neg (by simp)]
  exact h

/-- Decoding is exact: the truncating quotient and remainder belong together, for either sign. -/
theorem Time.ofMillis_ns (ms : Int64) : (Time.ofMillis ms).ns = ms.toInt * 1000000 := by
  have h1000 : (1000 : Int64).toInt = 1000 := by decide
  have h1000000 : (1000000 : Int64).toInt = 1000000 := by decide
  have hlo := Int64.le_toInt ms
  have hhi := Int64.toInt_lt ms
  have hsplit := Int.tmod_add_tdiv_mul ms.toInt 1000
  have hlt := Int.tmod_lt_of_pos ms.toInt (show (0 : Int) < 1000 by decide)
  have hgt := Int.lt_tmod_of_pos ms.toInt (show (0 : Int) < 1000 by decide)
  have hsec : (ms / 1000).toInt = ms.toInt.tdiv 1000 := by
    rw [Int64.toInt_div, h1000, Int.bmod_def]
    omega
  have hnsec : ((ms % 1000) * 1000000).toInt = ms.toInt.tmod 1000 * 1000000 := by
    rw [Int64.toInt_mul, Int64.toInt_mod, h1000, h1000000, Int.bmod_def]
    omega
  show (ms / 1000).toInt * 1000000000 + ((ms % 1000) * 1000000).toInt = _
  rw [hsec, hnsec]
  omega

theorem Time.ofMillis_millis {t : Time} (h : t.codable = true) : Time.ofMillis t.millis = t := by
  simp only [Time.codable, Bool.and_eq_true, beq_iff_eq, decide_eq_true_eq] at h
  obtain ⟨⟨hms, hlo⟩, hhi⟩ := h
  have h1000000 : (1000000 : Int64).toInt = 1000000 := by decide
  have hnano : t.unixNano.toInt = t.ns := by
    rw [Time.unixNano, Int64.toInt_ofInt, Int.bmod_def, Int64.size]
    omega
  have hmillis : t.millis.toInt = t.ns / 1000000 := by
    have htdiv : t.ns.tdiv 1000000 = t.ns / 1000000 := Int.tdiv_eq_ediv_of_dvd (by omega)
    rw [Time.millis, Int64.toInt_div, hnano, h1000000, htdiv, Int.bmod_def]
    omega
  have hns : (Time.ofMillis t.millis).ns = t.ns := by
    rw [Time.ofMillis_ns, hmillis]
    omega
  exact congrArg Time.mk hns

theorem reads_readTimestamp_any (ms : Int64) :
    Reads readTimestamp (TypeCode.timestamp :: be64 ms.toUInt64) rest (Time.ofMillis ms) := by
  refine .bind_cons (reads_readByte TypeCode.timestamp) ?_
  rw [if_neg (by decide)]
  refine .bind_pure (reads_readUint64 _) ?_
  rw [Int64.toInt64_toUInt64]
  exact .pure _ _

theorem reads_readTimestamp {t : Time} (h : t.codable = true) : Reads readTimestamp (encodeTimestamp t) rest t :=
  (reads_readTimestamp_any t.millis).congr rfl (Time.ofMillis_millis h)

theorem UUID.ofBytes_bytes (u : UUID) (tail : Bytes) : UUID.ofBytes (u.bytes ++ tail) = pure u := by
  have htake : (u.bytes ++ tail).take 16 = u.bytes := by
    rw [← u.length_bytes, take_left]
  unfold UUID.ofBytes
  rw [dif_pos (by rw [htake, u.length_bytes])]
  congr 1
  cases u
  simp_all

theorem reads_readUUID (u : UUID) : Reads readUUID (encodeUUID u) rest u := by
  have hnext : Reads (next u.bytes.length) u.bytes rest (u.bytes, true) := reads_next u.bytes
  rw [u.length_bytes] at hnext
  refine .bind_cons (reads_readByte TypeCode.uuid) ?_
  rw [if_neg (by decide)]
  refine .bind_pure hnext ?_
  have hof := UUID.ofBytes_bytes u []
  rw [List.append_nil] at hof
  show Reads (UUID.ofBytes u.bytes) [] rest u
  rw [hof]
  exact .pure _ _

/-! ## Arrays -/

section Arrays

variable {α : Type}

/-- The element loop over the concatenated elements. `dec x` is what is read in front of `enc x`. -/
theorem elements_flatMap {γ : Type} {element : Bytes → BufM α} {enc : γ → Bytes} {dec : γ → α} (a : List γ)
    (hsize : ∀ x ∈ a, (enc x).length = typeSize) (helem : ∀ x ∈ a, ∀ tail, element (enc x ++ tail) = pure (dec x)) :
    elements typeSize element a.length (a.flatMap enc) = pure (a.map dec) := by
  induction a with
  | nil => rfl
  | cons x a ih =>
    have hx := hsize x (mem_cons_self ..)
    have ha := ih (fun y hy => hsize y (mem_cons_of_mem _ hy))
      (fun y hy => helem y (mem_cons_of_mem _ hy))
    have hdrop : (enc x ++ a.flatMap enc).drop typeSize = a.flatMap enc := by
      rw [← hx, drop_left]
    rw [length_cons, elements, flatMap_cons, hdrop, helem x (mem_cons_self ..), ha]
    rfl

theorem length_flatMap_const {enc : α → Bytes} (a : List α) (hsize : ∀ x ∈ a, (enc x).length = typeSize) :
    (a.flatMap enc).length = a.length * typeSize := by
  induction a with
  | nil => simp
  | cons x a ih =>
    rw [flatMap_cons, length_append, hsize x (mem_cons_self ..),
      ih fun y hy => hsize y (mem_cons_of_mem _ hy), length_cons, Nat.succ_mul,
      Nat.add_comm]

theorem reads_readElements_map {γ : Type} {element : Bytes → BufM α} {enc : γ → Bytes} (dec : γ → α)
    (tooLong : String) (a : List γ) (hsize : ∀ x ∈ a, (enc x).length = typeSize)
    (helem : ∀ x ∈ a, ∀ tail, element (enc x ++ tail) = pure (dec x)) :
    Reads (readElements typeSize tooLong element a.length) (a.flatMap enc) rest (a.map dec) := by
  unfold readElements
  rw [← length_flatMap_const a hsize]
  refine .bind_pure (reads_next (a.flatMap enc)) ?_
  show Reads (elements typeSize element a.length (a.flatMap enc)) [] rest (a.map dec)
  rw [elements_flatMap a hsize helem]
  exact .pure _ _

theorem reads_readElements {element : Bytes → BufM α} {enc : α → Bytes} (tooLong : String) (a : List α)
    (hsize : ∀ x ∈ a, (enc x).length = typeSize) (helem : ∀ x ∈ a, ∀ tail, element (enc x ++ tail) = pure x) :
    Reads (readElements typeSize tooLong element a.length) (a.flatMap enc) rest a :=
  (reads_readElements_map id tooLong a hsize helem).congr rfl (map_id a)

/-- Any array decoder: header and element type, then whatever it does with the elements. -/
theorem CompoundForm.reads_array (h : CompoundForm array8 array32 count (type_ :: contents) bs)
    {k : Nat → UInt8 → BufM α} {a : α} (hk : Reads (k count type_) contents rest a) :
    Reads (do
      let l ← readArrayHeader
      let t ← readType
      k l t) bs rest a := by
  obtain ⟨header, rfl, hheader⟩ := h.exists_arrayHeader
  exact .bind (hheader rest) (.bind_cons (reads_readByte type_) hk)

/-- Arrays are written in one of their forms. -/
theorem compoundForm_encodeArray {enc : α → Bytes} {a : List α}
    (hlt : (encodeArray typeSize type_ enc a).length < 2 ^ 32) (hpos : 1 ≤ typeSize)
    (hsize : ∀ x ∈ a, (enc x).length = typeSize) :
    CompoundForm array8 array32 a.length (type_ :: a.flatMap enc)
      (encodeArray typeSize type_ enc a) :=
  compoundForm_array (Nat.le_mul_of_pos_right _ hpos) (length_flatMap_const a hsize) hlt

/-- The element type of an array, where `readAnyArray` looks for it: behind the sizes. -/
theorem reads_readAnyArray_of {sizes : Bytes} (ht : arrayTypeIdx t = pure (sizes.length + 1))
    (h : Reads (arrayReader type_) (t :: (sizes ++ type_ :: contents)) rest v) :
    Reads readAnyArray (t :: (sizes ++ type_ :: contents)) rest v := by
  have htype : (index (t :: (sizes ++ type_ :: contents) ++ rest) (sizes.length + 1) : BufM UInt8)
      = pure type_ := by
    simp [index]
  refine .bind_peek reads_bytes ?_
  rw [if_neg (by simp)]
  refine .bind_peek (.pure t _) ?_
  rw [ht]
  refine .bind_peek (.pure (sizes.length + 1) _) ?_
  rw [if_neg (by simp only [cons_append, length_cons, length_append]; omega), htype]
  exact .bind_peek (.pure type_ _) h

/-- An array whose elements are read by `k`. -/
theorem CompoundForm.reads_readAnyArray
    (hform : CompoundForm array8 array32 count (type_ :: contents) bs) {f : α → Value}
    {k : Nat → UInt8 → BufM α} {a : α}
    (hreader : arrayReader type_ = f <$> (do
      let l ← readArrayHeader
      let t ← readType
      k l t))
    (hk : Reads (k count type_) contents rest a) : Reads readAnyArray bs rest (f a) := by
  have harray : Reads (arrayReader type_) bs rest (f a) := by
    rw [hreader]
    exact (hform.reads_array hk).map f
  cases hform with
  | short => exact reads_readAnyArray_of rfl harray
  | long => exact reads_readAnyArray_of rfl harray

/-- Elements of one byte each. -/
theorem reads_byteElements {α : Type} (g : UInt8 → α) (tooLong : String) (a : Bytes) :
    Reads (readElements 1 tooLong (byteElement g) a.length) a rest (a.map g) := by
  have h : Reads (readElements 1 tooLong (byteElement g) a.length) (a.flatMap fun n => [n]) rest
      (a.map g) := reads_readElements_map g tooLong a (fun _ _ => rfl) fun _ _ _ => rfl
  rwa [flatMap_singleton'] at h

end Arrays

theorem uint16Element_be16 (n : UInt16) (tail : Bytes) : uint16Element (be16 n ++ tail) = pure n := by
  rw [uint16Element, bigEndian_append (length_be16 n), beNat_be16, map_pure, UInt16.ofNat_toNat]

theorem uint32Element_be32 (n : UInt32) (tail : Bytes) : uint32Element (be32 n ++ tail) = pure n := by
  rw [uint32Element, bigEndian_append (length_be32 n), beNat_be32, map_pure, UInt32.ofNat_toNat]

theorem uint64Element_be64 (n : UInt64) (tail : Bytes) : uint64Element (be64 n ++ tail) = pure n := by
  rw [uint64Element, bigEndian_append (length_be64 n), beNat_be64, map_pure, UInt64.ofNat_toNat]

/-- The elements of an array of fixed-width elements, behind the count: their type code and their
    contents. The narrow element types are given by their own elements. -/
inductive EncodesElements : Value → Nat → Bytes → Prop where
  | ubyte (a : List UInt8) : EncodesElements (.arrayUByte a) a.length (TypeCode.ubyte :: a)
  | byte (a : List Int8) :
      EncodesElements (.arrayInt8 a) a.length (TypeCode.byte :: a.flatMap fun n => [n.toUInt8])
  | ushort (a : List UInt16) :
      EncodesElements (.arrayUint16 a) a.length (TypeCode.ushort :: a.flatMap be16)
  | short (a : List Int16) :
      EncodesElements (.arrayInt16 a) a.length
        (TypeCode.short :: a.flatMap fun n => be16 n.toUInt16)
  | uint0 (n : Nat) : EncodesElements (.arrayUint32 (replicate n 0)) n [TypeCode.uint0]
  | smallUint (a : List UInt8) :
      EncodesElements (.arrayUint32 (a.map UInt8.toUInt32)) a.length (TypeCode.smallUint :: a)
  | uint (a : List UInt32) :
      EncodesElements (.arrayUint32 a) a.length (TypeCode.uint :: a.flatMap be32)
  | ulong0 (n : Nat) : EncodesElements (.arrayUint64 (replicate n 0)) n [TypeCode.ulong0]
  | smallUlong (a : List UInt8) :
      EncodesElements (.arrayUint64 (a.map UInt8.toUInt64)) a.length (TypeCode.smallUlong :: a)
  | ulong (a : List UInt64) :
      EncodesElements (.arrayUint64 a) a.length (TypeCode.ulong :: a.flatMap be64)
  | smallint (a : List Int8) :
      EncodesElements (.arrayInt32 (a.map Int8.toInt32)) a.length
        (TypeCode.smallint :: a.flatMap fun n => [n.toUInt8])
  | int (a : List Int32) :
      EncodesElements (.arrayInt32 a) a.length (TypeCode.int :: a.flatMap fun n => be32 n.toUInt32)
  | smalllong (a : List Int8) :
      EncodesElements (.arrayInt64 (a.map Int8.toInt64)) a.length
        (TypeCode.smalllong :: a.flatMap fun n => [n.toUInt8])
  | long (a : List Int64) :
      EncodesElements (.arrayInt64 a) a.length (TypeCode.long :: a.flatMap fun n => be64 n.toUInt64)
  | bool (a : List Bool) :
      EncodesElements (.arrayBool a) a.length
        (TypeCode.bool :: a.flatMap fun b => [if b then 1 else 0])
  | boolTrue (n : Nat) :
      EncodesElements (.arrayBool (replicate n true)) n [TypeCode.boolTrue]
  | boolFalse (n : Nat) :
      EncodesElements (.arrayBool (replicate n false)) n [TypeCode.boolFalse]
  | float (a : List UInt32) :
      EncodesElements (.arrayFloat a) a.length (TypeCode.float :: a.flatMap be32)
  | double (a : List UInt64) :
      EncodesElements (.arrayDouble a) a.length (TypeCode.double :: a.flatMap be64)
  | timestamp (a : List Int64) :
      EncodesElements (.arrayTimestamp (a.map Time.ofMillis)) a.length
        (TypeCode.timestamp :: a.flatMap fun n => be64 n.toUInt64)
  | uuid (a : List UUID) :
      EncodesElements (.arrayUUID a) a.length (TypeCode.uuid :: a.flatMap UUID.bytes)

theorem EncodesElements.reads {elements : Bytes} (he : EncodesElements v count elements)
    (h : CompoundForm array8 array32 count elements bs) : Reads readAnyArray bs rest v := by
  cases he with
  | ubyte a =>
    refine h.reads_readAnyArray (f := Value.arrayUByte) rfl ?_
    rw [if_neg (by simp)]
    exact .bind_pure (reads_next a) (.pure _ _)
  | byte a =>
    refine h.reads_readAnyArray (f := Value.arrayInt8) rfl ?_
    refine reads_readElements _ a (fun _ _ => rfl) fun n _ tail => ?_
    show (pure n.toUInt8.toInt8 : BufM Int8) = pure n
    rw [Int8.toInt8_toUInt8]
  | ushort a =>
    refine h.reads_readAnyArray (f := Value.arrayUint16) rfl ?_
    exact reads_readElements _ a (fun _ _ => rfl) fun n _ => uint16Element_be16 n
  | short a =>
    refine h.reads_readAnyArray (f := Value.arrayInt16) rfl ?_
    refine reads_readElements _ a (fun _ _ => rfl) fun n _ tail => ?_
    rw [uint16Element_be16, map_pure, Int16.toInt16_toUInt16]
  | uint0 n => exact h.reads_readAnyArray (f := Value.arrayUint32) rfl (.pure _ _)
  | smallUint a =>
    exact h.reads_readAnyArray (f := Value.arrayUint32) rfl (reads_byteElements _ _ a)
  | uint a =>
    refine h.reads_readAnyArray (f := Value.arrayUint32) rfl ?_
    exact reads_readElements _ a (fun _ _ => rfl) fun n _ => uint32Element_be32 n
  | ulong0 n => exact h.reads_readAnyArray (f := Value.arrayUint64) rfl (.pure _ _)
  | smallUlong a =>
    exact h.reads_readAnyArray (f := Value.arrayUint64) rfl (reads_byteElements _ _ a)
  | ulong a =>
    refine h.reads_readAnyArray (f := Value.arrayUint64) rfl ?_
    exact reads_readElements _ a (fun _ _ => rfl) fun n _ => uint64Element_be64 n
  | smallint a =>
    refine h.reads_readAnyArray (f := Value.arrayInt32) rfl ?_
    refine reads_readElements_map Int8.toInt32 _ a (fun _ _ => rfl) fun n _ tail => ?_
    show (pure n.toUInt8.toInt8.toInt32 : BufM Int32) = pure n.toInt32
    rw [Int8.toInt8_toUInt8]
  | int a =>
    refine h.reads_readAnyArray (f := Value.arrayInt32) rfl ?_
    refine reads_readElements _ a (fun _ _ => rfl) fun n _ tail => ?_
    rw [uint32Element_be32, map_pure, Int32.toInt32_toUInt32]
  | smalllong a =>
    refine h.reads_readAnyArray (f := Value.arrayInt64) rfl ?_
    refine reads_readElements_map Int8.toInt64 _ a (fun _ _ => rfl) fun n _ tail => ?_
    show (pure n.toUInt8.toInt8.toInt64 : BufM Int64) = pure n.toInt64
    rw [Int8.toInt8_toUInt8]
  | long a =>
    refine h.reads_readAnyArray (f := Value.arrayInt64) rfl ?_
    refine reads_readElements _ a (fun _ _ => rfl) fun n _ tail => ?_
    rw [uint64Element_be64, map_pure, Int64.toInt64_toUInt64]
  | bool a =>
    refine h.reads_readAnyArray (f := Value.arrayBool) rfl ?_
    refine reads_readElements _ a (fun _ _ => rfl) fun b _ tail => ?_
    cases b <;> rfl
  | boolTrue n => exact h.reads_readAnyArray (f := Value.arrayBool) rfl (.pure _ _)
  | boolFalse n => exact h.reads_readAnyArray (f := Value.arrayBool) rfl (.pure _ _)
  | float a =>
    refine h.reads_readAnyArray (f := Value.arrayFloat) rfl ?_
    exact reads_readElements _ a (fun _ _ => rfl) fun n _ => uint32Element_be32 n
  | double a =>
    refine h.reads_readAnyArray (f := Value.arrayDouble) rfl ?_
    exact reads_readElements _ a (fun _ _ => rfl) fun n _ => uint64Element_be64 n
  | timestamp a =>
    refine h.reads_readAnyArray (f := Value.arrayTimestamp) rfl ?_
    refine reads_readElements_map Time.ofMillis _ a (fun _ _ => rfl) fun n _ tail => ?_
    simp only [uint64Element_be64, map_pure, Int64.toInt64_toUInt64]
  | uuid a =>
    refine h.reads_readAnyArray (f := Value.arrayUUID) rfl ?_
    rw [if_neg (by simp)]
    exact reads_readElements _ a (fun u _ => u.length_bytes) fun u _ => UUID.ofBytes_bytes u

theorem map_map_cancel {α β : Type} {f : α → β} {g : β → α} {a : List α} (h : ∀ x ∈ a, g (f x) = x) :
    (a.map f).map g = a := by
  rw [map_map]
  exact (map_congr_left h).trans (map_id a)

/-- Elements of at most one byte, in the width that the encoder takes for them. -/
theorem EncodesElements.narrow32 {a : List UInt32} (h : ∀ n ∈ a, n ≤ 255) :
    EncodesElements (.arrayUint32 a) a.length (TypeCode.smallUint :: a.flatMap fun n => [n.toUInt8]) := by
  have hsmall := EncodesElements.smallUint (a.map UInt32.toUInt8)
  have hwiden : ∀ n ∈ a, n.toUInt8.toUInt32 = n := by
    intro n hn
    have hle := UInt32.le_iff_toNat_le.mp (h n hn)
    exact toUInt8_toUInt32 (UInt32.lt_iff_toNat_lt.mpr (Nat.lt_succ_of_le hle))
  rwa [map_map_cancel hwiden, length_map, map_eq_flatMap] at hsmall

theorem EncodesElements.narrow64 {a : List UInt64} (h : ∀ n ∈ a, n ≤ 255) :
    EncodesElements (.arrayUint64 a) a.length (TypeCode.smallUlong :: a.flatMap fun n => [n.toUInt8]) := by
  have hsmall := EncodesElements.smallUlong (a.map UInt64.toUInt8)
  have hwiden : ∀ n ∈ a, n.toUInt8.toUInt64 = n := by
    intro n hn
    have hle := UInt64.le_iff_toNat_le.mp (h n hn)
    exact toUInt8_toUInt64 (UInt64.lt_iff_toNat_lt.mpr (Nat.lt_succ_of_le hle))
  rwa [map_map_cancel hwiden, length_map, map_eq_flatMap] at hsmall

/-! ## Arrays of symbols -/

theorem reads_element8 (tooLong : String) (h : s.length < 256) :
    Reads (element8 tooLong) (UInt8.ofNat s.length :: s) rest s := by
  refine .bind_cons (reads_readByte _) ?_
  rw [toNat_ofNat8 h]
  exact .bind_pure (reads_next s) (.pure _ _)

theorem reads_element32 (h : s.length < 2 ^ 32) : Reads element32 (be32 (UInt32.ofNat s.length) ++ s) rest s := by
  refine .bind (reads_next (be32 (UInt32.ofNat s.length))) ?_
  show Reads (bigEndian 4 (be32 (UInt32.ofNat s.length)) >>= fun size => next size >>= fun x =>
    if !x.2 then fail "invalid length" else pure x.1) s rest s
  rw [bigEndian_be32, toNat_ofNat32 h]
  exact .bind_peek (.pure _ _) (.bind_pure (reads_next s) (.pure _ _))

/-- Each element has its length in front of it. -/
theorem length_flatMap_prefixed {pre : Bytes → Bytes} {k : Nat} (hpre : ∀ s, (pre s).length = k) (a : List Bytes) :
    (a.flatMap fun s => pre s ++ s).length = (a.map List.length).sum + a.length * k := by
  induction a with
  | nil => simp
  | cons s a ih =>
    rw [flatMap_cons, length_append, length_append, ih, hpre, map_cons, sum_cons, length_cons, Nat.succ_mul]
    omega

theorem length_le_sum_length (ha : ∀ s ∈ a, s ≠ []) : a.length ≤ (a.map List.length).sum := by
  induction a with
  | nil => simp
  | cons s a ih =>
    have hs := length_pos_iff.mpr (ha s (mem_cons_self ..))
    have hle := ih fun t ht => ha t (mem_cons_of_mem _ ht)
    rw [length_cons, map_cons, sum_cons]
    omega

/-- What the array decoders for strings, symbols and byte slices check before they read an element:
    two bytes for each element are left, those behind the array included. With four-byte lengths
    there always are. -/
def CountPasses (a : List Bytes) (rest : Bytes) : Prop :=
  (∃ s ∈ a, 255 < s.length) ∨ a.length ≤ (a.map List.length).sum + rest.length + 1

instance (a : List Bytes) (rest : Bytes) : Decidable (CountPasses a rest) := inferInstanceAs (Decidable (_ ∨ _))

theorem CountPasses.of_ne_nil (ha : ∀ s ∈ a, s ≠ []) : CountPasses a rest := by
  have hsum := length_le_sum_length ha
  exact .inr (by omega)

/-- The length of the elements with one-byte lengths in front. -/
theorem length_flatMap_element8 (a : List Bytes) :
    (a.flatMap fun s => UInt8.ofNat s.length :: s).length = (a.map List.length).sum + a.length := by
  have hone : ∀ s : Bytes, [UInt8.ofNat s.length].length = 1 := fun _ => rfl
  have h := length_flatMap_prefixed hone a
  rwa [Nat.mul_one] at h

theorem length_flatMap_element32 (a : List Bytes) :
    (a.flatMap fun s => be32 (UInt32.ofNat s.length) ++ s).length
      = (a.map List.length).sum + a.length * 4 :=
  length_flatMap_prefixed (fun s => length_be32 (UInt32.ofNat s.length)) a

/-- The elements of such an array, when their count passes the check. -/
theorem CompoundForm.reads_unmarshalVariableArray
    (hform : CompoundForm array8 array32 a.length (type_ :: contents) bs)
    {name : String} {tooLong8 : Nat → String} (hcount : a.length * 2 ≤ contents.length + rest.length + 1)
    (h : Reads (if type_ = code8 then readN (element8 (tooLong8 a.length)) a.length
      else if type_ = code32 then readN element32 a.length
      else fail ("invalid type for " ++ name ++ " " ++ hex2 type_)) contents rest a) :
    Reads (unmarshalVariableArray code8 code32 name tooLong8) bs rest a := by
  obtain ⟨header, rfl, hheader⟩ := hform.exists_arrayHeader
  refine .bind (hheader rest) (.bind_peek reads_len ?_)
  rw [if_neg (by simp only [length_append, length_cons]; omega)]
  exact .bind_cons (reads_readByte type_) h

theorem reads_unmarshalVariableArray_of_countPasses (hne : code32 ≠ code8) (name : String) (tooLong8 : Nat → String)
    (ha : CountPasses a rest) (hlt : (encodeVariableArray code8 code32 a).length < 2 ^ 32) :
    Reads (unmarshalVariableArray code8 code32 name tooLong8) (encodeVariableArray code8 code32 a)
      rest a := by
  unfold encodeVariableArray at hlt ⊢
  split
  · next hlong =>
    rw [if_pos hlong] at hlt
    have hlen := length_flatMap_element32 a
    refine (compoundForm_array (by omega) hlen hlt).reads_unmarshalVariableArray (by omega) ?_
    rw [if_neg hne, if_pos rfl]
    refine (Reads.readN _ id rest a fun s hs tail => reads_element32 ?_).congr rfl (map_id a)
    have hle := length_le_flatMap (f := fun s => be32 (UInt32.ofNat s.length) ++ s) hs
    rw [length_append] at hle hlt
    show s.length < 2 ^ 32
    omega
  · next hshort =>
    rw [if_neg hshort] at hlt
    simp only [any_eq_true, decide_eq_true_eq, not_exists, not_and] at hshort
    have hlen := length_flatMap_element8 a
    have hcount : a.length ≤ (a.map List.length).sum + rest.length + 1 := by
      rcases ha with ⟨s, hs, hlong⟩ | hcount
      · exact absurd hlong (hshort s hs)
      · exact hcount
    refine (compoundForm_array (by omega) hlen hlt).reads_unmarshalVariableArray (by omega) ?_
    rw [if_pos rfl]
    refine (Reads.readN _ id rest a fun s hs tail => reads_element8 _ ?_).congr rfl (map_id a)
    have := hshort s hs
    show s.length < 256
    omega

/-- The array decoders for strings, symbols and byte slices, when no element is empty: the check
    against the bytes that are left counts two bytes an element. -/
theorem reads_unmarshalVariableArray (hne : code32 ≠ code8) (name : String) (tooLong8 : Nat → String)
    (ha : ∀ s ∈ a, s ≠ []) (hlt : (encodeVariableArray code8 code32 a).length < 2 ^ 32) :
    Reads (unmarshalVariableArray code8 code32 name tooLong8) (encodeVariableArray code8 code32 a)
      rest a :=
  reads_unmarshalVariableArray_of_countPasses hne name tooLong8 (.of_ne_nil ha) hlt

theorem reads_peekType {tail : Bytes} : Reads peekType [] (t :: tail) t := reads_peekByte t

/-- What is written for a list of symbols is always an array. -/
theorem reads_unmarshalMultiSymbol (ha : ∀ s ∈ a, s ≠ []) (hlt : (encodeVariableArray sym8 sym32 a).length < 2 ^ 32) :
    Reads unmarshalMultiSymbol (encodeVariableArray sym8 sym32 a) rest a := by
  have harray : Reads unmarshalArraySymbol _ rest a :=
    reads_unmarshalVariableArray (by decide) "[]Symbol" (fun _ => "invalid length") ha hlt
  obtain ⟨t, tail, heq, ht⟩ := starts_encodeVariableArray sym8 sym32 a
  rw [heq] at harray ⊢
  refine .bind_peek reads_peekType ?_
  have hnot : ¬ (t = sym8 ∨ t = sym32) := by
    rcases mem_cons.mp ht with rfl | ht
    · decide
    · rw [mem_singleton.mp ht]
      decide
  rw [if_neg hnot]
  exact harray

end GoAmqp
