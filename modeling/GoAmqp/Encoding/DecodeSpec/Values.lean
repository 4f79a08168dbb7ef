import GoAmqp.Encoding.DecodeSpec.Records
import GoAmqp.Encoding.Recursion

set_option autoImplicit false

/-! # Values read back

`reads_readAny`: in front of the encoding of a codable value, `ReadAny` returns its normal form.
`ReadAny` is a recursion on the unread bytes (`run_readAny_eq`), in which the depth bound of `readAny`
is never reached, so the proof goes by structural recursion on the value. -/

namespace GoAmqp

open Lib Buffer TypeCode Value List

variable {d k v : Value} {rest tail bs contents : Bytes} {m : List (Bytes × Value)}

/-! ## One level of `ReadAny` -/

theorem reads_readAny_of (h : Reads (readAnyBody readAny) bs rest v) : Reads readAny bs rest v := by
  intro r hv hu
  rw [run_readAny_eq]
  exact h r hv hu

theorem reads_readAny_nil : Reads readAny [TypeCode.null] rest .nil :=
  reads_readAny_of (reads_tryReadNull.bind_pure (.pure _ _))

/-- The first byte decides: a value that is not null goes to the reader of its type code. -/
theorem reads_readAny_code {t : UInt8} (ht : t ≠ TypeCode.null)
    (h : Reads (anyReader readAny t) (t :: tail) rest v) : Reads readAny (t :: tail) rest v := by
  refine reads_readAny_of ?_
  refine .bind_peek (reads_tryReadNull_other ht) (.bind_peek reads_len ?_)
  rw [if_neg (by simp)]
  exact .bind_peek (reads_peekByte t) h

/-- The same for an encoding that starts with one of several codes with a common reader. -/
theorem reads_readAny_starts {codes : List UInt8} {read : BufM Value} (hs : StartsWith codes bs)
    (hnull : TypeCode.null ∉ codes) (h : Reads read bs rest v)
    (hread : codes.Forall fun t => anyReader readAny t = read) : Reads readAny bs rest v := by
  obtain ⟨t, tail, rfl, ht⟩ := hs
  refine reads_readAny_code (fun heq => hnull (heq ▸ ht)) ?_
  rw [forall_iff_forall_mem.mp hread t ht]
  exact h

/-- An array is read by its elements. -/
theorem reads_readAny_elements {count : Nat} {elements : Bytes} (he : EncodesElements v count elements)
    (h : CompoundForm array8 array32 count elements bs) : Reads readAny bs rest v :=
  reads_readAny_starts h.starts (by decide) (he.reads h) ⟨rfl, rfl⟩

theorem reads_readAny_array {α : Type} {typeSize : Nat} {type_ : UInt8} {enc : α → Bytes} {a : List α}
    (he : EncodesElements v a.length (type_ :: a.flatMap enc))
    (hlt : (encodeArray typeSize type_ enc a).length < 2 ^ 32) (hpos : 1 ≤ typeSize)
    (hsize : ∀ x ∈ a, (enc x).length = typeSize) : Reads readAny (encodeArray typeSize type_ enc a) rest v :=
  reads_readAny_elements he (compoundForm_encodeArray hlt hpos hsize)

/-! ### Lists -/

theorem ListForm.exists_header {count : Nat} (h : ListForm count contents bs) :
    ∃ header, bs = header ++ contents ∧
      ∀ rest, Reads readListHeader header (contents ++ rest) count := by
  cases h with
  | empty hcount hcontents =>
    subst hcount hcontents
    exact ⟨[list0], rfl, fun _ => reads_readListHeader_list0⟩
  | sized h => exact h.exists_listHeader

theorem ListForm.reads_unmarshalList {α : Type} {xs : List α} {enc : α → Bytes} {val : α → Value}
    (h : ListForm xs.length (xs.flatMap enc) bs) (hpos : ∀ x ∈ xs, 1 ≤ (enc x).length)
    (hread : ∀ x ∈ xs, ∀ tail, Reads readAny (enc x) tail (val x)) :
    Reads (unmarshalList readAny) bs rest (xs.map val) := by
  have hcount := mul_length_le_flatMap hpos
  obtain ⟨header, rfl, hheader⟩ := h.exists_header
  refine .bind (hheader rest) (.bind_peek reads_len ?_)
  rw [if_neg (by rw [length_append]; omega)]
  exact .readN enc val rest xs hread

theorem ListForm.reads_readAny {count : Nat} {xs : List Value} (h : ListForm count contents bs)
    (hlist : Reads (unmarshalList readAny) bs rest xs) : Reads readAny bs rest (.list xs) := by
  cases h with
  | empty => exact reads_readAny_code (by decide) (hlist.map list)
  | sized h => exact reads_readAny_starts h.starts (by decide) (hlist.map list) ⟨rfl, rfl⟩

/-! ### Maps -/

/-- The rounds of a map decoder: the key, then the value, then the assignment. -/
theorem CompoundForm.reads_rounds {ε κ : Type} {readKey : BufM κ} {eq : κ → κ → Bool} {key : ε → κ}
    {val : ε → Value} {kenc venc : ε → Bytes} {es : List ε}
    {put : List (κ × Value) → κ → Value → BufM (List (κ × Value))}
    (h : CompoundForm map8 map32 (es.length * 2)
      (es.flatMap fun e => kenc e ++ venc e) bs)
    (hkpos : ∀ e ∈ es, 1 ≤ (kenc e).length) (hvpos : ∀ e ∈ es, 1 ≤ (venc e).length)
    (hkey : ∀ e ∈ es, ∀ tail, Reads readKey (kenc e) tail (key e))
    (hval : ∀ e ∈ es, ∀ tail, Reads readAny (venc e) tail (val e))
    (hput : ∀ e ∈ es, ∀ m v, put m (key e) v = pure (mapAssign eq (key e) v m)) :
    Reads (unmarshalMap fun m => do
      let k ← readKey
      let v ← readAny
      put m k v) bs rest (es.foldl (fun m e => mapAssign eq (key e) (val e) m) []) := by
  refine h.reads_unmarshalMap (fun e he m tail => ?_) (pairs_le_flatMap hkpos hvpos)
  refine .bind (hkey e he _) (.bind_pure (hval e he tail) ?_)
  rw [hput e he]
  exact .pure _ _

theorem assignAny_of_hashable (h : k.hashable = true) (m : List (Value × Value)) (v : Value) :
    (assignAny m k v : BufM _) = pure (mapAssign keyEq k v m) := by
  rw [assignAny, if_pos h]

/-- A decoded map, once its entries have been assigned one after the other. -/
def Value.ofAssigned (m : List (Value × Value)) : Value :=
  if m.isEmpty then .mapAny m
  else if m.all (fun e => e.1.isStringKey) then .mapString (toStringMap m)
  else .mapAny m

theorem reads_readAny_map {m : List (Value × Value)} (hs : StartsWith [map8, map32] bs)
    (h : Reads (unmarshalMapAnyAny readAny) bs rest m) : Reads readAny bs rest (.ofAssigned m) := by
  have hany : Reads (readAnyMap readAny) bs rest (.ofAssigned m) := by
    refine .bind_pure h ?_
    unfold ofAssigned
    split
    · exact .pure _ _
    split
    · exact .pure _ _
    · exact .pure _ _
  exact reads_readAny_starts hs (by decide) hany ⟨rfl, rfl⟩

/-! ### Maps that become a `map[string]any` -/

/-- A map whose keys are strings, as the entries of a `map[any]any`. -/
def ofStrings (es : List (Bytes × Value)) : List (Value × Value) := es.map fun e => (.string e.1, e.2)

theorem stringEntries_ofStrings (es : List (Bytes × Value)) : stringEntries (ofStrings es) = es := by
  induction es with
  | nil => rfl
  | cons e es ih =>
    show (e.1, e.2) :: stringEntries (ofStrings es) = e :: es
    rw [ih]

theorem toStringMap_ofStrings {es : List (Bytes × Value)} (hd : (es.map Prod.fst).Nodup) :
    toStringMap (ofStrings es) = es := by
  rw [Nodup, pairwise_map] at hd
  have hfold := foldl_mapAssign (fun s t : Bytes => s == t) Prod.fst Prod.snd
    (hd.imp fun hne => by simpa using hne)
  rw [map_id'] at hfold
  rw [toStringMap, ofStrings, foldl_map]
  exact hfold

theorem norm_eq_string (hk : k.codableKey = true) (hs : k.norm.keyBytes?.isSome = true) :
    ∃ s, k.norm = .string s := by
  cases k <;> simp_all [Value.norm, keyBytes?, codableKey]

/-- Normal keys that can be the keys of a `map[string]any` are strings. -/
theorem eq_ofStrings {m : List (Value × Value)} (hk : ∀ e ∈ m, e.1.codableKey = true)
    (hs : (normEntries m).all (fun e => e.1.keyBytes?.isSome) = true) :
    normEntries m = ofStrings (stringEntries (normEntries m)) := by
  induction m with
  | nil => rfl
  | cons e m ih =>
    obtain ⟨k, v⟩ := e
    simp only [normEntries, all_cons, Bool.and_eq_true] at hs ⊢
    have hrest := ih (fun e he => hk e (mem_cons_of_mem _ he)) hs.2
    obtain ⟨s, hks⟩ := norm_eq_string (hk (k, v) (mem_cons_self ..)) hs.1
    rw [hks]
    show _ = (Value.string s, v.norm) :: ofStrings (stringEntries (normEntries m))
    rw [← hrest]

theorem isStringKey_eq (k : Value) : k.isStringKey = k.keyBytes?.isSome := by
  cases k <;> rfl

theorem ofAssigned_ofStrings {es : List (Bytes × Value)} (hd : (es.map Prod.fst).Nodup) :
    ofAssigned (ofStrings es) = .ofStringEntries es := by
  have hall : (ofStrings es).all (fun e => e.1.isStringKey) = true := by
    simp [ofStrings, isStringKey]
  cases es with
  | nil => rfl
  | cons e es =>
    rw [ofAssigned, if_neg (by simp [ofStrings]), if_pos hall, toStringMap_ofStrings hd]
    rfl

theorem Value.keyEq_string (s t : Bytes) : (Value.string s).keyEq (.string t) = (s == t) := rfl

theorem ofEntries_ofStrings (es : List (Bytes × Value)) : ofEntries (ofStrings es) = .ofStringEntries es := by
  unfold ofEntries ofStringEntries
  rw [stringEntries_ofStrings]
  cases es with
  | nil => rfl
  | cons e es => simp [ofStrings, keyBytes?]

theorem pairwise_of_distinctKeys {m : List (Value × Value)} (h : distinctKeys m = true) :
    m.Pairwise fun e e' => e.1.norm.keyEq e'.1.norm = false := by
  simpa only [distinctKeys, decide_eq_true_eq, pairwise_map] using h

/-- What has been assigned in the end is the normal form of the map. -/
theorem ofAssigned_normEntries {m : List (Value × Value)} (hk : ∀ e ∈ m, e.1.codableKey = true)
    (hd : distinctKeys m = true) : ofAssigned (normEntries m) = .ofEntries (normEntries m) := by
  by_cases hstr : (normEntries m).all (fun e => e.1.keyBytes?.isSome) = true
  · have heq := eq_ofStrings hk hstr
    have hpair : (normEntries m).Pairwise fun e e' => e.1.keyEq e'.1 = false := by
      rw [normEntries_eq, pairwise_map]
      exact pairwise_of_distinctKeys hd
    generalize stringEntries (normEntries m) = es at heq
    have hnodup : (es.map Prod.fst).Nodup := by
      rw [heq, ofStrings, pairwise_map] at hpair
      rw [Nodup, pairwise_map]
      exact hpair.imp fun h => by simpa only [keyEq_string, beq_eq_false_iff_ne] using h
    rw [heq, ofAssigned_ofStrings hnodup, ofEntries_ofStrings]
  · simp [ofAssigned, ofEntries, isStringKey_eq, hstr]

/-! ### Composites behind a peeked descriptor -/

/-- A composite whose descriptor has eight bits goes to the reader that its code selects. -/
theorem reads_readAny_composite {code : UInt8}
    (h : Reads (compositeReader readAny code) (0x0 :: smallUlong :: code :: tail) rest v) :
    Reads readAny (0x0 :: smallUlong :: code :: tail) rest v := by
  refine reads_readAny_code (by decide) (.bind_peek reads_bytes ?_)
  rw [if_neg (by simp)]
  refine .bind_peek (.pure 0x0 _) ?_
  rw [if_neg (by simp)]
  refine .bind_peek (show Reads (peekDescriptor _) [] _ code.toNat from ?_) ?_
  · refine .bind_peek (.pure smallUlong _) ?_
    rw [if_pos rfl, if_neg (by simp)]
    exact .bind_peek (.pure code _) (.pure _ _)
  · have hcode := code.toNat_lt
    rw [if_neg (by omega), UInt8.ofNat_toNat]
    exact h

/-- `Unmarshal` into an `any` looks for a null first, as `ReadAny` does itself. -/
theorem run_unmarshalAny (r : Buffer) : (unmarshalAny readAny).run r = readAny.run r := by
  unfold unmarshalAny
  rw [EStateM.run_bind]
  rcases tryReadNull_cases r with ⟨_, -, hnull⟩ | ⟨-, hnull⟩
  · rw [run_readAny_eq, readAnyBody, EStateM.run_bind, hnull]
    rfl
  · rw [hnull]
    rfl

theorem reads_unmarshalAny (h : Reads readAny bs rest v) : Reads (unmarshalAny readAny) bs rest v := by
  intro r hwf hu
  rw [run_unmarshalAny]
  exact h r hwf hu

theorem reads_unmarshalDescribed {ds vs : Bytes} (hd : Reads readAny ds (vs ++ rest) d) (hv : Reads readAny vs rest v) :
    Reads (unmarshalDescribed readAny) (0x0 :: (ds ++ vs)) rest (d, v) := by
  refine .bind_cons (reads_readByte 0x0) ?_
  rw [if_neg (by simp)]
  exact .bind (reads_unmarshalAny hd) (.bind_pure (reads_unmarshalAny hv) (.pure _ _))

theorem compositeReader_of_not_reserved {code : UInt8} (h : reservedCodes.contains code = false) :
    compositeReader readAny code = readDescribed readAny := by
  simp only [reservedCodes, contains_eq_mem, mem_cons, not_mem_nil, or_false, decide_eq_false_iff_not, not_or] at h
  simp [compositeReader, notImplemented, h]

/-- What `readComposite` finds when it peeks at the descriptor `ds`: a number above 255 or one that is
    not reserved. -/
def PeeksFree (ds : Bytes) : Prop :=
  ∀ tail, ∃ c, peekDescriptor (0x0 :: (ds ++ tail)) = pure c ∧
    (c > 255 ∨ reservedCodes.contains (UInt8.ofNat c) = false)

/-- Such a descriptor leads to a described type. -/
theorem reads_readAny_described {ds vs : Bytes} (hpos : 1 ≤ ds.length) (hfree : PeeksFree ds)
    (hd : Reads readAny ds (vs ++ rest) d) (hv : Reads readAny vs rest v) :
    Reads readAny (0x0 :: (ds ++ vs)) rest (.described d v) := by
  have h : Reads (readDescribed readAny) (0x0 :: (ds ++ vs)) rest (.described d v) :=
    .bind_pure (reads_unmarshalDescribed hd hv) (.pure _ _)
  have hlong : ¬ (0x0 :: (ds ++ vs) ++ rest).length < 2 := by
    simp only [cons_append, length_cons, length_append]
    omega
  obtain ⟨c, hpeek, hcode⟩ := hfree (vs ++ rest)
  rw [← append_assoc] at hpeek
  refine reads_readAny_code (by decide) (.bind_peek reads_bytes ?_)
  rw [if_neg hlong]
  refine .bind_peek (.pure 0x0 _) ?_
  rw [if_neg (by simp), cons_append, hpeek]
  refine .bind_peek (.pure c _) ?_
  by_cases hbig : c > 255
  · rwa [if_pos hbig]
  · rw [if_neg hbig, compositeReader_of_not_reserved (hcode.resolve_left hbig)]
    exact h

/-- A descriptor that is not a ulong counts as zero. -/
theorem peeksFree_cons {t : UInt8} (h : t ≠ smallUlong ∧ t ≠ TypeCode.ulong) : PeeksFree (t :: bs) := by
  refine fun tail => ⟨0, ?_, .inr (by decide)⟩
  show (if t = smallUlong then _ else if t = TypeCode.ulong then _ else pure 0
    : BufM Nat) = pure 0
  rw [if_neg h.1, if_neg h.2]

theorem peeksFree_smallUlong {n : UInt8} (h : reservedCodes.contains n = false) : PeeksFree [smallUlong, n] :=
  fun _ => ⟨n.toNat, rfl, .inr (by rwa [UInt8.ofNat_toNat])⟩

theorem peeksFree_ulong {n : UInt64} (h : n < 256 → reservedCodes.contains n.toUInt8 = false) :
    PeeksFree (TypeCode.ulong :: be64 n) := by
  intro tail
  have hbytes : bigEndian 8 (be64 n ++ tail) = pure n.toNat := by
    rw [bigEndian_append (length_be64 n), beNat_be64]
  refine ⟨n.toNat, hbytes ▸ rfl, ?_⟩
  by_cases hlt : n < 256
  · exact .inr (h hlt)
  · rw [UInt64.lt_iff_toNat_lt] at hlt
    simp only [UInt64.reduceToNat] at hlt
    exact .inl (by omega)

theorem peeksFree_encode (hd : d.codable = true) (hres : d.reserved = false) : PeeksFree (encode d) := by
  rcases encode_starts hd with rfl | ⟨n, hn, henc⟩ | hstart
  · exact peeksFree_cons (by decide)
  · have hcode : n < 256 → reservedCodes.contains n.toUInt8 = false := by
      intro hlt
      rcases hn with rfl | rfl <;> simpa [reserved, hlt] using hres
    rw [henc]
    unfold encodeUint64
    split
    · exact peeksFree_cons (by decide)
    split
    · next hlt => exact peeksFree_smallUlong (hcode hlt)
    · exact peeksFree_ulong hcode
  · obtain ⟨t, tail, heq, ht⟩ := hstart
    rw [heq]
    exact peeksFree_cons ⟨fun h => absurd ht (by rw [h]; decide), fun h => absurd ht (by rw [h]; decide)⟩

/-! ## Nested values -/

/-- `ReadAny` gives the value back in its normal form. -/
def Value.ReadsBack (v : Value) : Prop :=
  v.codable = true → (encode v).length < 2 ^ 32 → ∀ rest, Reads readAny (encode v) rest v.norm

theorem listForm_encode {xs : List Value} (hx : (list xs).codable = true)
    (hlt : (encode (.list xs)).length < 2 ^ 32) : ListForm xs.length (xs.flatMap encode) (encode (.list xs)) := by
  rw [encode, encodeElements_eq] at hlt ⊢
  refine listForm_encodeList ?_ (fun h => ?_) hlt
  · rw [← encodeElements_eq]
    exact length_encodeElements hx
  · rw [length_eq_zero_iff.mp h, flatMap_nil]

theorem reads_unmarshalList {xs : List Value} (hread : ∀ x ∈ xs, x.ReadsBack)
    (hx : (list xs).codable = true) (hlt : (encode (.list xs)).length < 2 ^ 32) :
    Reads (unmarshalList readAny) (encode (.list xs)) rest (normElements xs) := by
  have hform := listForm_encode hx hlt
  have hone : ∀ x ∈ xs, x.codable = true := codableElements_iff.mp hx
  rw [normElements_eq]
  refine hform.reads_unmarshalList (fun x hmem => encode_pos (hone x hmem)) fun x hmem => ?_
  refine hread x hmem (hone x hmem) ?_
  have hle : (encode x).length ≤ (xs.flatMap encode).length := length_le_flatMap hmem
  cases xs with
  | nil => exact absurd hmem not_mem_nil
  | cons y ys =>
    have hall := length_encodeList (encodeElements (y :: ys)) (show (y :: ys).length ≠ 0 by simp)
    rw [← encodeElements_eq] at hle
    rw [encode] at hlt
    omega

/-- The maps of our encoder. The keys that are assigned are distinct. -/
theorem reads_entries {ε κ : Type} {readKey : BufM κ} (eq : κ → κ → Bool) (enc : ε → Bytes) (key : ε → κ)
    {val : ε → Value} {put : List (κ × Value) → κ → Value → BufM (List (κ × Value))} {es : List ε}
    (hread : ∀ e ∈ es, (val e).ReadsBack) (hv : ∀ e ∈ es, (val e).codable = true)
    (hpos : ∀ e ∈ es, 1 ≤ (enc e).length)
    (hkey : ∀ e ∈ es, (enc e).length < 2 ^ 32 → ∀ tail, Reads readKey (enc e) tail (key e))
    (hput : ∀ e ∈ es, ∀ m v, put m (key e) v = pure (mapAssign eq (key e) v m))
    (hd : es.Pairwise fun e e' => eq (key e) (key e') = false)
    (hlt : (encodeMap es.length (es.flatMap fun e => enc e ++ encode (val e))).length < 2 ^ 32) :
    Reads (unmarshalMap fun m => do
      let k ← readKey
      let v ← readAny
      put m k v) (encodeMap es.length (es.flatMap fun e => enc e ++ encode (val e))) rest
      (es.map fun e => (key e, (val e).norm)) := by
  have hvpos : ∀ e ∈ es, 1 ≤ (encode (val e)).length := fun e he => encode_pos (hv e he)
  have hle : ∀ e ∈ es, (enc e ++ encode (val e)).length
      ≤ (es.flatMap fun e => enc e ++ encode (val e)).length := fun e he =>
    length_le_flatMap (f := fun e => enc e ++ encode (val e)) he
  have hform : CompoundForm map8 map32 _ _ (encodeMap es.length _) :=
    compoundForm_encodeCompound (pairs_le_flatMap hpos hvpos) hlt
  simp only [length_encodeMap, length_append] at hlt hle
  rw [← foldl_mapAssign eq _ _ hd]
  refine hform.reads_rounds hpos hvpos (fun e he => hkey e he ?_) (fun e he => hread e he (hv e he) ?_) hput
  · have := hle e he
    omega
  · have := hle e he
    omega

section Strings

variable {enc : Bytes → Bytes} (hread : ∀ e ∈ m, e.2.ReadsBack) (hpos : ∀ k, 1 ≤ (enc k).length)
  (hv : codableValues m = true) (hd : distinctStrings m = true)

include hread hpos hv hd

/-- Maps with string keys, whichever of the two encodings the keys have. -/
theorem reads_unmarshalMapStringAny (hkey : ∀ k, (enc k).length < 2 ^ 32 → ∀ tail, Reads readString (enc k) tail k)
    (hlt : (encodeMap m.length (m.flatMap fun e => enc e.1 ++ encode e.2)).length < 2 ^ 32) :
    Reads (unmarshalMapStringAny readAny)
      (encodeMap m.length (m.flatMap fun e => enc e.1 ++ encode e.2)) rest (normStringEntries m) := by
  rw [normStringEntries_eq]
  refine reads_entries (· == ·) (fun e : Bytes × Value => enc e.1) Prod.fst hread
    (codableValues_iff.mp hv) (fun e _ => hpos e.1) (fun e _ => hkey e.1) (fun _ _ _ _ => rfl) ?_ hlt
  simp only [distinctStrings, decide_eq_true_eq, Nodup, pairwise_map] at hd
  exact hd.imp fun hne => by simpa using hne

theorem reads_readAny_strings (hkey : ∀ k, (enc k).length < 2 ^ 32 → ∀ tail, Reads readAny (enc k) tail (.string k))
    (hlt : (encodeMap m.length (m.flatMap fun e => enc e.1 ++ encode e.2)).length < 2 ^ 32) :
    Reads readAny (encodeMap m.length (m.flatMap fun e => enc e.1 ++ encode e.2)) rest
      (.ofStringEntries (normStringEntries m)) := by
  simp only [distinctStrings, decide_eq_true_eq] at hd
  have hnorm : (normStringEntries m).map Prod.fst = m.map Prod.fst := by
    simp only [normStringEntries_eq, map_map, Function.comp_def]
  rw [← ofAssigned_ofStrings (hnorm ▸ hd), ofStrings, normStringEntries_eq, map_map]
  refine reads_readAny_map ((starts_encodeMap _ _).mono (by decide)) ?_
  refine reads_entries keyEq (fun e : Bytes × Value => enc e.1) (fun e => .string e.1) hread
    (codableValues_iff.mp hv) (fun e _ => hpos e.1) (fun e _ => hkey e.1) (fun _ _ _ _ => rfl) ?_ hlt
  rw [Nodup, pairwise_map] at hd
  exact hd.imp fun hne => by simpa only [keyEq_string, beq_eq_false_iff_ne] using hne

end Strings

theorem reads_stringEntries (hread : ∀ e ∈ m, e.2.ReadsBack) (hv : codableValues m = true)
    (hd : distinctStrings m = true) (hlt : (encodeMap m.length (encodeStringEntries m)).length < 2 ^ 32) :
    Reads (unmarshalMapStringAny readAny) (encodeMap m.length (encodeStringEntries m)) rest
      (normStringEntries m) := by
  rw [encodeStringEntries_eq] at hlt ⊢
  exact reads_unmarshalMapStringAny hread (fun k => (starts_encodeVariable _ _ k).pos) hv hd
    (fun k h _ => reads_readString k h) hlt

theorem reads_symbolEntries (hread : ∀ e ∈ m, e.2.ReadsBack) (hv : codableValues m = true)
    (hd : distinctStrings m = true) (hlt : (encodeMap m.length (encodeSymbolEntries m)).length < 2 ^ 32) :
    Reads (unmarshalMapStringAny readAny) (encodeMap m.length (encodeSymbolEntries m)) rest
      (normStringEntries m) := by
  rw [encodeSymbolEntries_eq] at hlt ⊢
  exact reads_unmarshalMapStringAny hread (fun k => (starts_encodeVariable _ _ k).pos) hv hd
    (fun k h _ => reads_readString_symbol k h) hlt

section Entries

variable {m : List (Value × Value)}

theorem hashable_norm_of_codableKey (h : k.codableKey = true) : k.norm.kind = .other ∧ k.norm.hashable = true := by
  cases k <;> simp_all [codableKey, Value.norm, kind, hashable]

theorem hashable_norm_of_annotationKey (h : k.annotationKey = true) : k.norm.hashable = true := by
  cases k <;> simp_all [annotationKey, Value.norm, kind, hashable]

theorem reads_unmarshalMapAnyAny (hread : ∀ e ∈ m, e.1.ReadsBack ∧ e.2.ReadsBack)
    (hv : codableEntries m = true) (hk : ∀ e ∈ m, e.1.codableKey = true) (hd : distinctKeys m = true)
    (hlt : (encodeMap m.length (encodeEntries m)).length < 2 ^ 32) :
    Reads (unmarshalMapAnyAny readAny) (encodeMap m.length (encodeEntries m)) rest (normEntries m) := by
  have hcodable : ∀ e ∈ m, e.1.codable = true := fun e he => codable_of_codableKey (hk e he)
  rw [encodeEntries_eq] at hlt ⊢
  rw [normEntries_eq]
  refine reads_entries keyEq (fun e : Value × Value => encode e.1) (fun e => e.1.norm)
    (fun e he => (hread e he).2) (codableEntries_iff.mp hv) (fun e he => encode_pos (hcodable e he))
    (fun e he => (hread e he).1 (hcodable e he)) (fun e he m v => ?_) (pairwise_of_distinctKeys hd) hlt
  obtain ⟨hkind, hhash⟩ := hashable_norm_of_codableKey (hk e he)
  rw [if_neg (by simp [hkind]), assignAny_of_hashable hhash]

theorem reads_readAny_int64 (n : Int64) : Reads readAny (encodeInt64 n) rest (.int64 n) :=
  reads_readAny_starts (starts_encodeInt64 n) (by decide) ((reads_readLong n).map Value.int64) ⟨rfl, rfl⟩

theorem reads_readAny_string (s : Bytes) (h : (encodeString s).length < 2 ^ 32) :
    Reads readAny (encodeString s) rest (.string s) :=
  reads_readAny_starts (starts_encodeVariable _ _ s) (by decide) ((reads_readString s h).map Value.string)
    ⟨rfl, rfl⟩

theorem reads_readAny_symbol (s : Bytes) (h : (encodeSymbol s).length < 2 ^ 32) :
    Reads readAny (encodeSymbol s) rest (.string s) :=
  reads_readAny_starts (starts_encodeVariable _ _ s) (by decide)
    ((reads_readString_symbol s h).map Value.string) ⟨rfl, rfl⟩

/-- The key of an annotations entry is read as its normal form. -/
theorem reads_annotationKey (hk : k.annotationKey = true) (h : (encodeAnnotationKey k).length < 2 ^ 32) :
    Reads readAny (encodeAnnotationKey k) rest k.norm := by
  cases k with
  | string s => exact reads_readAny_symbol s h
  | symbol s => exact reads_readAny_symbol s h
  | int64 i => exact reads_readAny_int64 i
  | int i => exact reads_readAny_int64 i
  | _ => exact absurd hk (by simp [annotationKey])

theorem reads_unmarshalAnnotations (hread : ∀ e ∈ m, e.1.ReadsBack ∧ e.2.ReadsBack)
    (hv : codableEntries m = true) (hk : ∀ e ∈ m, e.1.annotationKey = true) (hd : distinctKeys m = true)
    (hlt : (encodeAnnotations m).length < 2 ^ 32) :
    Reads (unmarshalAnnotations readAny) (encodeAnnotations m) rest (normEntries m) := by
  unfold encodeAnnotations at hlt ⊢
  rw [encodeAnnotationEntries_eq] at hlt ⊢
  rw [normEntries_eq]
  exact reads_entries keyEq (fun e : Value × Value => encodeAnnotationKey e.1) (fun e => e.1.norm)
    (fun e he => (hread e he).2) (codableEntries_iff.mp hv)
    (fun e he => (starts_encodeAnnotationKey (hk e he)).pos)
    (fun e he h _ => reads_annotationKey (hk e he) h)
    (fun e he => assignAny_of_hashable (hashable_norm_of_annotationKey (hk e he)))
    (pairwise_of_distinctKeys hd) hlt

end Entries

theorem notNull_encodeVariable {code8 code32 : UInt8} (s : Bytes)
    (h : TypeCode.null ∉ [code8, code32]) : NotNull (encodeVariable code8 code32 s) :=
  (starts_encodeVariable code8 code32 s).notNull h

theorem notNull_encodeMap (length : Nat) (contents : Bytes) : NotNull (encodeMap length contents) :=
  (starts_encodeMap length contents).notNull (by decide)

theorem notNull_encodeBool (b : Bool) : NotNull (encodeBool b) := (starts_encodeBool b).notNull (by decide)

theorem notNull_encodeUint32 (k : UInt32) : NotNull (encodeUint32 k) := (starts_encodeUint32 k).notNull (by decide)

theorem notNull_encodeUint64 (k : UInt64) : NotNull (encodeUint64 k) := (starts_encodeUint64 k).notNull (by decide)

theorem notNull_encodeError (e : AmqpError Value) : NotNull (encodeError e) :=
  (starts_encodeError e).notNull (by decide)

/-- The descriptor of a delivery state. -/
def DeliveryState.code : DeliveryState Value → UInt8
  | .received _ _ => stateReceived
  | .accepted => stateAccepted
  | .rejected _ => stateRejected
  | .released => stateReleased
  | .modified _ _ _ => stateModified

theorem encodeState_eq_cons (s : DeliveryState Value) :
    ∃ tail, encodeState s = 0x0 :: smallUlong :: s.code :: tail := by
  unfold encodeState
  split <;> exact ⟨_, rfl⟩

/-! ## All values -/

mutual

/-- **The decoder reads the wire format back.** In front of the encoding of a codable value,
    `ReadAny` returns the value's normal form and stops behind the encoding. -/
theorem reads_readAny : ∀ v : Value, v.ReadsBack
  | .nil, _, _, _ => reads_readAny_nil
  | .bool b, _, _, _ =>
    reads_readAny_starts (starts_encodeBool b) (by decide) ((reads_readBool b).map _) ⟨rfl, rfl⟩
  | .uint k, _, _, _ | .uint64 k, _, _, _ =>
    reads_readAny_starts (starts_encodeUint64 k) (by decide) ((reads_readUlong k).map _) ⟨rfl, rfl, rfl⟩
  | .uint32 k, _, _, _ =>
    reads_readAny_starts (starts_encodeUint32 k) (by decide) ((reads_readUint32Value k).map _) ⟨rfl, rfl, rfl⟩
  | .int k, _, _, _ | .int64 k, _, _, _ => reads_readAny_int64 k
  | .int32 k, _, _, _ =>
    reads_readAny_starts (starts_encodeInt32 k) (by decide) ((reads_readInt32 k).map _) ⟨rfl, rfl⟩
  | .uint16 k, _, _, _ => reads_readAny_code (by decide) ((reads_readFixed _ (reads_readUint16 k)).map _)
  | .uint8 k, _, _, _ => reads_readAny_code (by decide) ((reads_readFixed _ (reads_readByte k)).map _)
  | .int8 k, _, _, _ => reads_readAny_code (by decide)
    (((reads_readFixed _ ((reads_readByte _).map _)).map _).congr rfl (by simp [Value.norm]))
  | .int16 k, _, _, _ => reads_readAny_code (by decide)
    (((reads_readFixed _ ((reads_readUint16 _).map _)).map _).congr rfl (by simp [Value.norm]))
  | .float32 bits, _, _, _ =>
    reads_readAny_code (by decide) ((reads_readFixed _ (reads_readUint32 bits)).map _)
  | .float64 bits, _, _, _ =>
    reads_readAny_code (by decide) ((reads_readFixed _ (reads_readUint64 bits)).map _)
  | .string s, _, hlt, _ => reads_readAny_string s hlt
  | .symbol s, _, hlt, _ => reads_readAny_symbol s hlt
  | .binary b, _, hlt, _ =>
    reads_readAny_starts (starts_encodeVariable _ _ b) (by decide) ((reads_readBinary b hlt).map _)
      ⟨rfl, rfl⟩
  | .time t, hv, _, _ => reads_readAny_code (by decide) ((reads_readTimestamp hv).map _)
  | .uuid u, _, _, _ => reads_readAny_code (by decide) ((reads_readUUID u).map _)
  | .arrayUByte a, _, hlt, _ => by
    refine reads_readAny_array ?_ hlt (by decide) fun _ _ => rfl
    rw [flatMap_singleton']
    exact .ubyte a
  | .arrayInt8 a, _, hlt, _ => reads_readAny_array (.byte a) hlt (by decide) fun _ _ => rfl
  | .arrayUint16 a, _, hlt, _ => reads_readAny_array (.ushort a) hlt (by decide) fun _ _ => rfl
  | .arrayInt16 a, _, hlt, _ => reads_readAny_array (.short a) hlt (by decide) fun _ _ => rfl
  | .arrayFloat a, _, hlt, _ => reads_readAny_array (.float a) hlt (by decide) fun _ _ => rfl
  | .arrayDouble a, _, hlt, _ => reads_readAny_array (.double a) hlt (by decide) fun _ _ => rfl
  | .arrayBool a, _, hlt, _ => reads_readAny_array (.bool a) hlt (by decide) fun _ _ => rfl
  | .arrayTimestamp a, hv, hlt, _ => by
    simp only [Value.codable, all_eq_true] at hv
    refine reads_readAny_array ?_ hlt (by decide) fun _ _ => rfl
    have helements := EncodesElements.timestamp (a.map Time.millis)
    rwa [map_map_cancel fun t ht => Time.ofMillis_millis (hv t ht), length_map, flatMap_map]
      at helements
  | .arrayUUID a, _, hlt, _ => reads_readAny_array (.uuid a) hlt (by decide) fun u _ => u.length_bytes
  | .arrayUint32 a, _, hlt, _ => by
    simp only [encode, encodeArrayUint32] at hlt ⊢
    split_ifs at hlt ⊢ with hbig
    · exact reads_readAny_array (.uint a) hlt (by decide) fun _ _ => rfl
    · refine reads_readAny_array ?_ hlt (by decide) fun _ _ => rfl
      simp only [any_eq_true, decide_eq_true_eq, not_exists, not_and] at hbig
      exact .narrow32 fun n hn => UInt32.not_lt.mp (hbig n hn)
  | .arrayUint64 a, _, hlt, _ => by
    simp only [encode, encodeArrayUint64] at hlt ⊢
    split_ifs at hlt ⊢ with hbig
    · exact reads_readAny_array (.ulong a) hlt (by decide) fun _ _ => rfl
    · refine reads_readAny_array ?_ hlt (by decide) fun _ _ => rfl
      simp only [any_eq_true, decide_eq_true_eq, not_exists, not_and] at hbig
      exact .narrow64 fun n hn => UInt64.not_lt.mp (hbig n hn)
  | .list xs, hv, hlt, _ =>
    (listForm_encode hv hlt).reads_readAny (reads_unmarshalList (readsBack_elements xs) hv hlt)
  | .mapAny m, hv, hlt, _ => by
    simp only [Value.codable, Bool.and_eq_true, all_eq_true] at hv
    rw [Value.norm, ← ofAssigned_normEntries hv.1.2 hv.2]
    exact reads_readAny_map ((starts_encodeMap _ _).mono (by decide))
      (reads_unmarshalMapAnyAny (readsBack_entries m) hv.1.1 hv.1.2 hv.2 hlt)
  | .mapString m, hv, hlt, _ => by
    simp only [Value.codable, Bool.and_eq_true] at hv
    rw [encode, encodeStringEntries_eq] at hlt ⊢
    exact reads_readAny_strings (readsBack_values m) (fun k => (starts_encodeVariable _ _ k).pos) hv.1.1
      hv.2 (fun k h _ => reads_readAny_string k h) hlt
  | .mapSymbol m, hv, hlt, _ => by
    simp only [Value.codable, Bool.and_eq_true] at hv
    rw [encode, encodeSymbolEntries_eq] at hlt ⊢
    exact reads_readAny_strings (readsBack_values m) (fun k => (starts_encodeVariable _ _ k).pos) hv.1
      hv.2 (fun k h _ => reads_readAny_symbol k h) hlt
  | .described d v, hv, hlt, _ => by
    simp only [Value.codable, Bool.and_eq_true, Bool.not_eq_true'] at hv
    obtain ⟨⟨hd, hv⟩, hres⟩ := hv
    simp only [encode, length_cons, length_append] at hlt
    exact reads_readAny_described (encode_pos hd) (peeksFree_encode hd hres)
      (reads_readAny d hd (by omega) _) (reads_readAny v hv (by omega) _)
  | .error e, hv, hlt, rest => by
    obtain ⟨f, hf, hfills⟩ := fills_unmarshalError e hv hlt
    have hread : Reads (compositeReader readAny TypeCode.error) (encodeError e) rest (.error (normError e)) :=
      .bind_pure ((hfills rest).runNew.congr rfl hf) (.pure _ _)
    obtain ⟨condition, description, info⟩ := e
    exact reads_readAny_composite hread
  | .state s, hv, hlt, rest => by
    have hstate := reads_unmarshalState s hv hlt rest
    have hread : Reads (compositeReader readAny s.code) (encodeState s) rest (.state (normState s)) := by
      cases s <;> exact .bind_pure hstate (.pure _ _)
    obtain ⟨tail, htail⟩ := encodeState_eq_cons s
    simp only [encode, htail] at hread ⊢
    exact reads_readAny_composite hread
  | .lifetimePolicy code, hv, _, rest => by
    have hread : Reads unmarshalLifetimePolicy (encodeLifetimePolicy code) rest code :=
      .bind_pure (reads_readCompositeHeader reads_readListHeader_list0) (.pure _ _)
    simp only [Value.codable, lifetimePolicies, contains_eq_mem, mem_cons,
      not_mem_nil, or_false, decide_eq_true_eq] at hv
    refine reads_readAny_composite ?_
    rcases hv with rfl | rfl | rfl | rfl <;> exact .bind_pure hread (.pure _ _)
  | .arrayInt32 _, hv, _, _ | .arrayInt64 _, hv, _, _ | .arrayString _, hv, _, _
  | .arraySymbol _, hv, _, _ | .arrayBinary _, hv, _, _ | .marshaler _, hv, _, _ | .other _, hv, _, _ =>
    absurd hv (by simp [Value.codable])

theorem readsBack_elements : ∀ xs : List Value, ∀ x ∈ xs, x.ReadsBack
  | [] => forall_mem_nil _
  | x :: xs => forall_mem_cons.mpr ⟨reads_readAny x, readsBack_elements xs⟩

theorem readsBack_entries : ∀ m : List (Value × Value), ∀ e ∈ m, e.1.ReadsBack ∧ e.2.ReadsBack
  | [] => forall_mem_nil _
  | (k, v) :: m => forall_mem_cons.mpr ⟨⟨reads_readAny k, reads_readAny v⟩, readsBack_entries m⟩

theorem readsBack_values : ∀ m : List (Bytes × Value), ∀ e ∈ m, e.2.ReadsBack
  | [] => forall_mem_nil _
  | (_, v) :: m => forall_mem_cons.mpr ⟨reads_readAny v, readsBack_values m⟩

/-- Decoding an error into a new one gives the error back. -/
theorem fills_unmarshalError : ∀ e : AmqpError Value, codableError e = true → (encodeError e).length < 2 ^ 32 →
    ∃ f, f zeroError = normError e ∧ ∀ rest, Fills (unmarshalError readAny) (encodeError e) rest f
  | ⟨condition, description, info⟩, he, hlt => by
    simp only [codableError, Bool.and_eq_true] at he
    obtain ⟨⟨⟨-, hvals⟩, -⟩, hdistinct⟩ := he
    unfold encodeError at hlt ⊢
    refine ⟨_, ?_, fun rest => fills_unmarshalComposite TypeCode.error
      (.cons (.assignAlways (notNull_encodeVariable condition (by decide))
        fun h _ => reads_readString_symbol condition h)
      (.cons (.omittable .absent fun _ =>
        .assign (notNull_encodeVariable description (by decide)) fun h _ => reads_readString _ h)
      (.cons (.omittable .absent fun _ => .assign (notNull_encodeMap _ _)
        fun h _ => reads_stringEntries (readsBack_values info) hvals hdistinct h)
      .nil))) hlt⟩
    cases description <;> cases info <;> rfl

theorem reads_unmarshalState : ∀ s : DeliveryState Value, codableState s = true →
    (encodeState s).length < 2 ^ 32 → ∀ rest,
    Reads (unmarshalState readAny s.code) (encodeState s) rest (normState s)
  | .accepted, _, hlt, _ =>
    .bind_pure (fills_unmarshalComposite stateAccepted .nil hlt).runNew (.pure _ _)
  | .released, _, hlt, _ =>
    .bind_pure (fills_unmarshalComposite stateReleased .nil hlt).runNew (.pure _ _)
  | .received sectionNumber sectionOffset, _, hlt, rest => by
    have hfills : Fills unmarshalStateReceived
        (encodeState (.received sectionNumber sectionOffset)) rest _ :=
      fills_unmarshalComposite _
        (.cons (.assign (notNull_encodeUint32 sectionNumber) fun _ _ => reads_readUint32Value _)
        (.cons (.assign (notNull_encodeUint64 sectionOffset) fun _ _ => reads_readUlong _)
        .nil)) hlt
    exact .bind_pure hfills.runNew (.pure _ _)
  | .rejected none, _, hlt, rest => by
    have hfills : Fills (unmarshalStateRejected readAny) (encodeState (.rejected none)) rest _ :=
      fills_unmarshalComposite _ (.cons .absent .nil) hlt
    exact .bind_pure hfills.runNew (.pure _ _)
  | .rejected (some e), hs, hlt, rest => by
    have hfield := length_lt_encodeComposite stateRejected
      (show some (encodeError e) ∈ [some (encodeError e)] from mem_cons_self ..)
    unfold encodeState at hlt ⊢
    obtain ⟨f, hf, herror⟩ := fills_unmarshalError e hs (by omega)
    have hfills : Fills (unmarshalStateRejected readAny)
        (encodeComposite stateRejected [some (encodeError e)]) rest _ :=
      fills_unmarshalComposite _
        (.cons (.assignPtr (notNull_encodeError e) fun _ => herror) .nil) hlt
    refine .bind_pure hfills.runNew ?_
    show Reads (pure (.rejected (some (f zeroError)))) [] rest (normState (.rejected (some e)))
    rw [hf]
    exact .pure _ _
  | .modified deliveryFailed undeliverableHere none, _, hlt, rest => by
    have hfills : Fills (unmarshalStateModified readAny)
        (encodeState (.modified deliveryFailed undeliverableHere none)) rest _ :=
      fills_unmarshalComposite _
        (.cons (.omittable .absent fun _ => .assign (notNull_encodeBool deliveryFailed) fun _ _ => reads_readBool _)
        (.cons (.omittable .absent fun _ =>
          .assign (notNull_encodeBool undeliverableHere) fun _ _ => reads_readBool _)
        (.cons .absent .nil))) hlt
    refine .bind_pure hfills.runNew ?_
    cases deliveryFailed <;> cases undeliverableHere <;> exact .pure _ _
  | .modified deliveryFailed undeliverableHere (some m), hs, hlt, rest => by
    simp only [codableState, Bool.and_eq_true, all_eq_true] at hs
    obtain ⟨⟨hvals, hkeys⟩, hdistinct⟩ := hs
    have hfills : Fills (unmarshalStateModified readAny)
        (encodeState (.modified deliveryFailed undeliverableHere (some m))) rest _ :=
      fills_unmarshalComposite _
        (.cons (.omittable .absent fun _ => .assign (notNull_encodeBool deliveryFailed) fun _ _ => reads_readBool _)
        (.cons (.omittable .absent fun _ =>
          .assign (notNull_encodeBool undeliverableHere) fun _ _ => reads_readBool _)
        (.cons (.assign (notNull_encodeMap _ _) fun h _ =>
          reads_unmarshalAnnotations (readsBack_entries m) hvals hkeys hdistinct h) .nil))) hlt
    refine .bind_pure hfills.runNew ?_
    cases deliveryFailed <;> cases undeliverableHere <;> exact .pure _ _

end

end GoAmqp
