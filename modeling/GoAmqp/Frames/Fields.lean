import GoAmqp.Frames.Wire
import GoAmqp.Encoding.RoundTrip

set_option autoImplicit false

/-! # Fields of performatives

A performative lists its fields twice, once for the encoder and once for the decoder.
`FieldsCarry` walks both lists at once: each place needs one fact about its field, and
`transmits_composite` puts the composite together. -/

namespace GoAmqp

open Lib Buffer TypeCode List

variable {rest : Bytes} {d : Duration} {β : Type} {fs : List MarshalField} {omitted : Bool}

/-! ## Values -/

/-- The bytes `bs` carry `a` from a writer to a reader. -/
structure Carries {α : Type} (write : BufM Unit) (read : BufM α) (bs : Bytes) (a : α) : Prop where
  notNull : NotNull bs
  writes : bs.length < 2 ^ 32 → Writes write bs
  reads : bs.length < 2 ^ 32 → ∀ rest, Reads read bs rest a

theorem carries_string {s : Bytes} (hs : validUtf8 s = true) :
    Carries (writeString s) readString (encodeString s) s where
  notNull := notNull_encodeVariable s (by decide)
  writes := writes_writeString s hs
  reads h _ := reads_readString s h

theorem carries_symbol (s : Bytes) : Carries (marshalSymbol s) readString (encodeSymbol s) s where
  notNull := notNull_encodeVariable s (by decide)
  writes := writes_marshalSymbol s
  reads h _ := reads_readString_symbol s h

theorem carries_binary (b : Bytes) : Carries (writeBinary b) readBinary (encodeBinary b) b where
  notNull := notNull_encodeVariable b (by decide)
  writes := writes_writeBinary b
  reads h _ := reads_readBinary b h

theorem carries_bool (b : Bool) : Carries (writeBool b) readBool (encodeBool b) b where
  notNull := notNull_encodeBool b
  writes _ := writes_writeBool b
  reads _ _ := reads_readBool b

theorem carries_uint32 (n : UInt32) :
    Carries (writeUint32 n) readUint32Value (encodeUint32 n) n where
  notNull := notNull_encodeUint32 n
  writes _ := writes_writeUint32 n
  reads _ _ := reads_readUint32Value n

theorem carries_uint64 (n : UInt64) : Carries (writeUint64 n) readUlong (encodeUint64 n) n where
  notNull := notNull_encodeUint64 n
  writes _ := writes_writeUint64 n
  reads _ _ := reads_readUlong n

theorem carries_uint16 (n : UInt16) : Carries (marshalUint16 n) readUshort (encodeUshort n) n where
  notNull := ⟨_, _, rfl, by decide⟩
  writes _ := (Writes.appendBytes [ushort]).bind (Writes.appendBytes _)
  reads _ _ := reads_readFixed _ (reads_readUint16 n)

theorem carries_ubyte (n : UInt8) : Carries (marshalUint8 n) readUbyte (encodeUbyte n) n where
  notNull := ⟨_, _, rfl, by decide⟩
  writes _ := .appendBytes _
  reads _ _ := reads_readFixed _ (reads_readByte n)

theorem carries_symbols {a : List Bytes} (ha : codableSymbols a = true) :
    Carries (marshalArraySymbol a) unmarshalMultiSymbol (encodeSymbols a) a where
  notNull := (starts_encodeVariableArray _ _ a).notNull (by decide)
  writes _ := writes_marshalVariableArray (by decide) (by decide) a
  reads h _ := by
    refine reads_unmarshalMultiSymbol (fun s hs hnil => ?_) h
    have := all_eq_true.mp ha s hs
    simp [hnil] at this

theorem carries_symbolMap {m : SymbolMap} (hm : codableSymbolMap m = true) :
    Carries (marshalSymbolMap m) (unmarshalMapStringAny readAny) (encodeSymbolMap m)
      (normStringEntries m) := by
  simp only [codableSymbolMap, Bool.and_eq_true] at hm
  obtain ⟨hvals, hdistinct⟩ := hm
  have hpairs := length_encodeSymbolEntries hvals
  have hmap := length_encodeMap m.length (encodeSymbolEntries m)
  refine ⟨notNull_encodeMap _ _, fun h => ?_, fun h rest => ?_⟩
  · unfold encodeSymbolMap at h ⊢
    exact writes_writeMap (writes_marshalSymbolEntries m hvals (by omega)) (by omega)
  · unfold encodeSymbolMap at h ⊢
    exact reads_symbolEntries (readsBack_values m) hvals hdistinct h

theorem reads_unmarshalDeliveryState {s : DeliveryState Value} (hs : codableState s = true)
    (hlt : (encodeState s).length < 2 ^ 32) :
    Reads (unmarshalDeliveryState readAny) (encodeState s) rest (normState s) := by
  have hstate : Reads (unmarshalState readAny s.code) (encodeState s) rest (normState s) :=
    reads_unmarshalState s hs hlt rest
  obtain ⟨tail, heq⟩ := encodeState_eq_cons s
  rw [heq] at hstate ⊢
  exact .bind_peek reads_bytes (.bind_peek (.pure (s.code, 3) _) hstate)

theorem carries_state {s : DeliveryState Value} (hs : codableState s = true) :
    Carries (marshalState s) (unmarshalDeliveryState readAny) (encodeState s) (normState s) where
  notNull := (starts_encodeState s).notNull (by decide)
  writes := writes_marshalState s hs
  reads h _ := reads_unmarshalDeliveryState hs h

/-! ## Milliseconds -/

theorem reads_readUintValue (n : UInt32) : Reads readUintValue (encodeUint32 n) rest n.toUInt64 := by
  unfold encodeUint32
  split
  · next h0 =>
    rw [h0]
    exact .bind_pure (reads_readByte uint0) (.pure _ _)
  split
  · next h256 =>
    refine .bind_cons (reads_readByte smallUint) (.bind_pure (reads_readByte _) ?_)
    have hwiden : n.toUInt8.toUInt64 = n.toUInt64 := by
      rw [← UInt8.toUInt64_toUInt32, toUInt8_toUInt32 h256]
    rw [← hwiden]
    exact .pure _ _
  · exact .bind_cons (reads_readByte TypeCode.uint)
      (.bind_pure (reads_readUint32 n) (.pure _ _))

theorem toInt_durationOfMillis (n : UInt64) :
    (durationOfMillis n).toInt = ((n.toNat : Int) * 1000000).bmod (2 ^ 64) := by
  have h1000000 : (1000000 : Int64).toInt = 1000000 := by decide
  have hn : n.toInt64.toInt = (n.toNat : Int).bmod (2 ^ 64) := by
    rw [← UInt64.ofNat_toNat (x := n), UInt64.toInt64_ofNat', UInt64.ofNat_toNat]
    exact Int64.toInt_ofNat'
  rw [durationOfMillis, Int64.toInt_mul, h1000000, hn, Int.bmod_mul_bmod]

/-- A duration is written as the low 32 bits of its milliseconds. -/
theorem toNat_truncatedMillis (hd : 0 ≤ d.toInt) :
    ((d / 1000000).toUInt64.toUInt32.toUInt64.toNat : Int) = d.toInt / 1000000 % 2 ^ 32 := by
  have h1000000 : (1000000 : Int64).toInt = 1000000 := by decide
  have hlt := Int64.toInt_lt d
  obtain ⟨k, hk⟩ := Int.eq_ofNat_of_zero_le (show 0 ≤ d.toInt / 1000000 by omega)
  have hof : (Int64.ofNat k).toInt = k := Int64.toInt_ofNat_of_lt (by omega)
  have hdiv : d / 1000000 = Int64.ofNat k := by
    have htdiv : d.toInt.tdiv 1000000 = k := by rw [Int.tdiv_eq_ediv_of_nonneg hd, hk]
    apply Int64.toInt_inj.mp
    rw [Int64.toInt_div, h1000000, htdiv, hof]
    exact Int.bmod_eq_of_le (by omega) (by omega)
  rw [hdiv, hk, Int64.toUInt64_ofNat', UInt32.toNat_toUInt64, UInt64.toNat_toUInt32,
    UInt64.toNat_ofNat_of_lt' (by simp only [UInt64.size]; omega)]
  omega

/-- A whole number of milliseconds below 2^32 survives the truncation to 32 bits. -/
theorem durationOfMillis_truncated (hd : codableMilliseconds d = true) :
    durationOfMillis (d / 1000000).toUInt64.toUInt32.toUInt64 = d := by
  simp only [codableMilliseconds, Bool.and_eq_true, decide_eq_true_eq, beq_iff_eq] at hd
  obtain ⟨⟨hpos, hwhole⟩, hfits⟩ := hd
  have hmax := Int64.toInt_lt d
  apply Int64.toInt_inj.mp
  rw [toInt_durationOfMillis, toNat_truncatedMillis hpos, Int.emod_eq_of_lt (by omega) hfits,
    Int.bmod_eq_of_le (by omega) (by omega)]
  omega

theorem carries_milliseconds (hd : codableMilliseconds d = true) :
    Carries (marshalMilliseconds d) unmarshalMilliseconds (encodeMilliseconds d) d where
  notNull := notNull_encodeUint32 _
  writes _ := writes_writeUint32 _
  reads _ _ := (Reads.map durationOfMillis (reads_readUintValue _)).congr rfl
    (durationOfMillis_truncated hd)

/-! ## Maps with their own entry loops -/

/-- A map whose entries are written and read one by one. The entries have distinct keys, so each
    round of the decoder appends one. -/
theorem carries_map {γ : Type} {es : List (Bytes × β)} {write : Bytes × β → BufM Unit}
    {round : List (Bytes × γ) → BufM (List (Bytes × γ))} {f : β → γ} (enc : Bytes × β → Bytes)
    (hdistinct : (es.map Prod.fst).Nodup) (hpos : ∀ e ∈ es, 2 ≤ (enc e).length)
    (hwrite : ∀ e ∈ es, (enc e).length < 2 ^ 32 → Writes (write e) (enc e))
    (hround : ∀ e ∈ es, (enc e).length < 2 ^ 32 → ∀ m tail,
      Reads (round m) (enc e) tail (mapAssign (· == ·) e.1 (f e.2) m)) :
    Carries (writeMap es.length (es.forM write)) (unmarshalMap round)
      (encodeMap es.length (es.flatMap enc)) (es.map fun e => (e.1, f e.2)) := by
  have hpairs := mul_length_le_flatMap hpos
  have hmap := length_encodeMap es.length (es.flatMap enc)
  refine ⟨notNull_encodeMap _ _, fun h => ?_, fun h rest => ?_⟩
  · refine writes_writeMap (writes_forM es fun e he => hwrite e he ?_) (by omega)
    have hle := length_le_flatMap (f := enc) he
    omega
  · have hfold : es.foldl (fun m e => mapAssign (· == ·) e.1 (f e.2) m) []
        = es.map fun e => (e.1, f e.2) := by
      rw [nodup_iff_pairwise_ne, pairwise_map] at hdistinct
      exact foldl_mapAssign _ _ _ (hdistinct.imp fun hne => by simpa using hne)
    rw [← hfold]
    refine reads_unmarshalMap es (fun e he m tail => hround e he ?_ m tail) (by omega) h
    have hle := length_le_flatMap (f := enc) he
    omega

theorem carries_unsettled {u : Unsettled} (hu : codableUnsettled u = true) :
    Carries (marshalUnsettled u) unmarshalUnsettled (encodeUnsettled u) (normUnsettled u) := by
  simp only [codableUnsettled, Bool.and_eq_true, all_eq_true, decide_eq_true_eq] at hu
  obtain ⟨hentries, hdistinct⟩ := hu
  refine carries_map encodeUnsettledEntry hdistinct (fun e he => ?_) (fun e he hlt => ?_)
    (fun e he hlt m tail => ?_)
  · obtain ⟨k, s⟩ := e
    have h1 := (starts_encodeVariable str8 str32 k).pos
    have h2 : 0 < ((s.map encodeState).getD [TypeCode.null]).length := by
      cases s with
      | none => exact Nat.one_pos
      | some s => exact (starts_encodeState s).pos
    simp only [encodeUnsettledEntry, encodeString, length_append]
    omega
  · obtain ⟨k, s⟩ := e
    obtain ⟨hk, hs⟩ := hentries _ he
    simp only [encodeUnsettledEntry, length_append] at hlt ⊢
    refine (writes_writeString k hk (by omega)).bind ?_
    cases s with
    | none => exact .appendBytes [TypeCode.null]
    | some s => exact (carries_state (by simpa using hs)).writes (by simp at hlt; omega)
  · obtain ⟨k, s⟩ := e
    obtain ⟨-, hs⟩ := hentries _ he
    simp only [encodeUnsettledEntry, length_append] at hlt ⊢
    refine .bind (reads_readString k (by omega)) ?_
    cases s with
    | none => exact .bind_pure reads_tryReadNull (.pure _ _)
    | some s =>
      have hstate := carries_state (s := s) (by simpa using hs)
      have hread := hstate.reads (by simp at hlt; omega) tail
      obtain ⟨t, rest, heq, ht⟩ := hstate.notNull
      simp only [Option.map_some, Option.getD_some, heq] at hread ⊢
      exact .bind_peek (reads_tryReadNull_other ht) (.bind_pure hread (.pure _ _))

theorem carries_filter {f : Filter} (hf : codableFilter f = true) :
    Carries (marshalFilter f) unmarshalFilter (encodeFilter f) (normFilter f) := by
  simp only [codableFilter, Bool.and_eq_true, all_eq_true, decide_eq_true_eq] at hf
  obtain ⟨hentries, hdistinct⟩ := hf
  refine carries_map encodeFilterEntry hdistinct (fun e he => ?_) (fun e he hlt => ?_)
    (fun e he hlt m tail => ?_)
  all_goals
    obtain ⟨k, d⟩ := e
    have hd := hentries _ he
    obtain ⟨d, v, rfl⟩ : ∃ d' v', d = some (d', v') := by
      cases d with
      | none => exact absurd hd (by simp [codableFilterEntry])
      | some p => exact ⟨p.1, p.2, rfl⟩
    simp only [codableFilterEntry, Bool.and_eq_true] at hd
    simp only [encodeFilterEntry, Option.map_some, Option.getD_some, length_append, length_cons] at *
  · have h1 := (starts_encodeVariable sym8 sym32 k).pos
    simp only [encodeSymbol]
    omega
  · refine (writes_marshalSymbol k (by omega)).bind ?_
    exact (Writes.appendBytes [0x0]).bind
      ((writes_marshal _ hd.1 (by omega)).bind (writes_marshal _ hd.2 (by omega)))
  · refine .bind (reads_readString_symbol k (by omega)) ?_
    refine .bind_peek (reads_tryReadNull_other (by decide)) (.bind_pure ?_ (.pure _ _))
    exact reads_unmarshalDescribed (reads_readAny _ hd.1 (by omega) _) (reads_readAny _ hd.2 (by omega) _)

/-! ## Records -/

section Records

variable {σ τ α : Type}

/-- The bytes `bs` carry the record `a`: decoded into the record `zero` they give `a`. -/
structure Transmits (write : BufM Unit) (m : IntoM σ Unit) (zero : σ) (bs : Bytes) (a : σ) :
    Prop where
  notNull : NotNull bs
  writes : bs.length < 2 ^ 32 → Writes write bs
  fills : ∃ put, put zero = a ∧ (bs.length < 2 ^ 32 → ∀ rest, Fills m bs rest put)

variable {a : σ} {us : List (UnmarshalField σ)} {ps : List (Option Bytes × (σ → σ))}

theorem Transmits.reads {write : BufM Unit} {m : IntoM σ Unit} {zero : σ} {bs : Bytes}
    (h : Transmits write m zero bs a) (hlt : bs.length < 2 ^ 32) : Reads (runNew zero m) bs rest a := by
  obtain ⟨put, hput, hfills⟩ := h.fills
  exact (hfills hlt rest).runNew.congr rfl hput

theorem transmits_error {e : AmqpError Value} (he : codableError e = true) :
    Transmits (marshalError e) (unmarshalError readAny) zeroError (encodeError e) (normError e) where
  notNull := notNull_encodeError e
  writes := writes_marshalError e he
  fills := by
    by_cases h : (encodeError e).length < 2 ^ 32
    · obtain ⟨put, hput, hfills⟩ := fills_unmarshalError e he h
      exact ⟨put, hput, fun _ => hfills⟩
    · exact ⟨fun _ => normError e, rfl, fun hlt => absurd hlt h⟩

/-- One place of a composite: `f` writes the field and `u` reads it. On the wire the field is `p.1`,
    and reading it updates the record by `p.2`. -/
def FieldCarries (f : MarshalField) (u : UnmarshalField σ) (p : Option Bytes × (σ → σ)) : Prop :=
  FieldWrites f p.1 ∧ FieldReads u p

/-- The places of a composite, in order. -/
inductive FieldsCarry : List MarshalField → List (UnmarshalField σ) → List (Option Bytes × (σ → σ)) → Prop where
  | nil : FieldsCarry [] [] []
  | cons {f : MarshalField} {u : UnmarshalField σ} {p : Option Bytes × (σ → σ)}
      {fs : List MarshalField} {us : List (UnmarshalField σ)} {ps : List (Option Bytes × (σ → σ))} :
      FieldCarries f u p → FieldsCarry fs us ps → FieldsCarry (f :: fs) (u :: us) (p :: ps)

theorem FieldsCarry.writes (h : FieldsCarry fs us ps) : Forall₂ FieldWrites fs (ps.map Prod.fst) := by
  induction h with
  | nil => exact .nil
  | cons hf _ ih => exact .cons hf.1 ih

theorem FieldsCarry.reads (h : FieldsCarry fs us ps) : Forall₂ FieldReads us ps := by
  induction h with
  | nil => exact .nil
  | cons hf _ ih => exact .cons hf.2 ih

/-- **Composites.** When the fields of encoder and decoder go together place by place, the composite
    carries the record that the updates build from `zero`. -/
theorem transmits_composite (code : UInt8) {zero : σ} (h : FieldsCarry fs us ps)
    (ha : applyAll (ps.map Prod.snd) zero = a) :
    Transmits (marshalComposite code fs) (unmarshalComposite code us) zero
      (encodeComposite code (ps.map Prod.fst)) a where
  notNull := (starts_encodeComposite _ _).notNull (by decide)
  writes hlt := writes_marshalComposite code h.writes hlt
  fills := ⟨_, ha, fun hlt _ => fills_unmarshalComposite code h.reads hlt⟩

/-- The bytes `bs` carry the record `a`, whatever their number. -/
structure Conveys (write : BufM Unit) (m : IntoM σ Unit) (zero : σ) (bs : Bytes) (a : σ) : Prop where
  writes : Writes write bs
  fills : ∃ put, put zero = a ∧ ∀ rest, Fills m bs rest put

/-- A composite needs no bound of its own when its fields are short. -/
theorem conveys_composite (code : UInt8) {zero : σ} (h : FieldsCarry fs us ps)
    (ha : applyAll (ps.map Prod.snd) zero = a) (hfits : ∀ p ∈ ps, (encodeField p.1).length < 2 ^ 32)
    (hcount : ps.length < 2 ^ 32) :
    Conveys (marshalComposite code fs) (unmarshalComposite code us) zero
      (encodeComposite code (ps.map Prod.fst)) a := by
  constructor
  · refine writes_marshalComposite_of_fits code h.writes fun x hx => ?_
    obtain ⟨p, hp, heq⟩ := mem_map.1 hx
    have hlt := hfits p hp
    rwa [heq] at hlt
  · refine ⟨_, ha, fun rest => fills_unmarshalComposite_of_fits code h.reads hfits ?_⟩
    have hle := length_trimFields_le (ps.map Prod.fst)
    rw [length_map] at hle
    omega

/-! ## Rules for fields

An omitted field keeps the record's value, so each rule is stated with the projection `part` of the
field: the update sets the field either to what was written or to what it was. -/

namespace FieldCarries

variable {write : BufM Unit} {read : BufM α} {bs : Bytes} {a : α} {put : α → σ → σ}
  {handleNull : Option (σ → Except String σ)}

/-- A field that is never written. -/
theorem absent {f : MarshalField} {field : IntoM σ Unit} (h : f.omitted = true) :
    FieldCarries f ⟨field, none⟩ (none, id) := ⟨h, .absent⟩

theorem always (h : Carries write read bs a) :
    FieldCarries ⟨write, false⟩ ⟨assign read put, handleNull⟩ (some bs, put a) :=
  ⟨.always h.writes, .assign h.notNull h.reads⟩

variable {zero : α}

theorem alwaysAssigned (h : Carries write read bs a) :
    FieldCarries ⟨write, false⟩ ⟨assignAlways read zero put, handleNull⟩ (some bs, put a) :=
  ⟨.always h.writes, .assignAlways h.notNull h.reads⟩

/-- A field that is left out under a condition, read by any decoder without a null handler. -/
theorem unless_ {field : IntoM σ Unit} (part : σ → α) (hlens : (fun s => put (part s) s) = id)
    (hwrite : omitted = false → bs.length < 2 ^ 32 → Writes write bs)
    (hread : omitted = false → FieldReads ⟨field, none⟩ (some bs, put a)) :
    FieldCarries ⟨write, omitted⟩ ⟨field, none⟩
      (fieldUnless omitted bs, fun s => put (if omitted then part s else a) s) := by
  refine ⟨.omittable hwrite, ?_⟩
  cases omitted with
  | true => exact fun s r => by simp [show put (part s) s = s from congrFun hlens s, UnmarshalField.null]
  | false => exact hread rfl

theorem omittableIf (part : σ → α) (hlens : (fun s => put (part s) s) = id)
    (h : omitted = false → Carries write read bs a) :
    FieldCarries ⟨write, omitted⟩ ⟨assign read put, none⟩
      (fieldUnless omitted bs, fun s => put (if omitted then part s else a) s) :=
  unless_ part hlens (fun ho => (h ho).writes) fun ho => .assign (h ho).notNull (h ho).reads

theorem omittable (part : σ → α) (hlens : (fun s => put (part s) s) = id) (h : Carries write read bs a) :
    FieldCarries ⟨write, omitted⟩ ⟨assign read put, none⟩
      (fieldUnless omitted bs, fun s => put (if omitted then part s else a) s) :=
  omittableIf part hlens fun _ => h

theorem omittableAssigned (part : σ → α) (hlens : (fun s => put (part s) s) = id) (h : Carries write read bs a) :
    FieldCarries ⟨write, omitted⟩ ⟨assignAlways read zero put, none⟩
      (fieldUnless omitted bs, fun s => put (if omitted then part s else a) s) :=
  unless_ part hlens (fun _ => h.writes) fun _ => .assignAlways h.notNull h.reads

/-- A field with a default. -/
theorem withDefault {d : α} (h : Carries write read bs a) :
    FieldCarries ⟨write, omitted⟩ ⟨assign read put, default_ (put d)⟩
      (fieldUnless omitted bs, put (if omitted then d else a)) := by
  refine ⟨.omittable fun _ => h.writes, ?_⟩
  cases omitted with
  | true => exact .absentDefault
  | false => exact .assign h.notNull h.reads

/-- A pointer field that the decoder sets to a new variable. -/
theorem pointer {o : Option β} {w : β → BufM Unit} {enc : β → Bytes} {f : β → α} (part : σ → Option α)
    (put : Option α → σ → σ) (hlens : (fun s => put (part s) s) = id)
    (h : ∀ b, o = some b → Carries (w b) read (enc b) (f b)) :
    FieldCarries (ptrField w o) ⟨assign read fun v s => put (some v) s, none⟩
      (o.map enc, fun s => put ((o.map f).or (part s)) s) := by
  cases o with
  | none => exact ⟨rfl, fun s r => by simp [show put (part s) s = s from congrFun hlens s, UnmarshalField.null]⟩
  | some b => exact ⟨.always (h b rfl).writes, .assign (h b rfl).notNull (h b rfl).reads⟩

/-- A field that the decoder sets to a new variable, left out under a condition. -/
theorem omittablePointer (part : σ → Option α) (put : Option α → σ → σ) (hlens : (fun s => put (part s) s) = id)
    (h : Carries write read bs a) :
    FieldCarries ⟨write, omitted⟩ ⟨assign read fun v s => put (some v) s, none⟩
      (fieldUnless omitted bs, fun s => put (if omitted then part s else some a) s) :=
  unless_ part hlens (fun _ => h.writes) fun _ => .assign h.notNull h.reads

theorem fills_store (h : Reads read bs rest a) : Fills (store read) bs rest fun _ => a := by
  have hset : Fills (modify fun s => (a, s.2) : IntoM α Unit) [] rest fun _ => a :=
    fun _ _ _ _ => rfl
  have h' := Fills.onBuffer (k := fun a => modify fun s => (a, s.2))
    (show Reads read bs ([] ++ rest) a from h) hset
  rwa [List.append_nil] at h'

theorem fills_storeAlways (h : Reads read bs rest a) : Fills (storeAlways read zero) bs rest fun _ => a := by
  intro s r hw hu
  have hread := h r hw hu
  simp only [EStateM.run, storeAlways] at hread ⊢
  rw [hread]
  rfl

/-- A pointer field read through a decoder that overwrites what the pointer points to. -/
theorem pointerInto {o : Option α} {w : α → BufM Unit} {enc : α → Bytes} {part : σ → Option α}
    {put : Option α → σ → σ} {m : IntoM α Unit} (hlens : (fun s => put (part s) s) = id)
    (hm : ∀ {bs rest : Bytes} {a : α}, Reads read bs rest a → Fills m bs rest fun _ => a)
    (h : ∀ a, o = some a → Carries (w a) read (enc a) a) :
    FieldCarries (ptrField w o) ⟨assignPtr part put zero m, none⟩
      (o.map enc, fun s => put (o.or (part s)) s) := by
  cases o with
  | none => exact ⟨rfl, fun s r => by simp [show put (part s) s = s from congrFun hlens s, UnmarshalField.null]⟩
  | some a =>
    have ha := h a rfl
    exact ⟨.always ha.writes, .assignPtr ha.notNull fun hlt rest => hm (ha.reads hlt rest)⟩

/-- A pointer to a record. The update is only determined on records whose pointer is nil. -/
theorem pointerRecord {o : Option β} {w : β → BufM Unit} {enc : β → Bytes} {f : β → τ} {zero : τ}
    {m : IntoM τ Unit} (part : σ → Option τ) (put : Option τ → σ → σ) (hlens : (fun s => put (part s) s) = id)
    (h : ∀ b, o = some b → Transmits (w b) m zero (enc b) (f b)) :
    ∃ update, (∀ s, part s = none → update s = put (o.map f) s) ∧
      FieldCarries (ptrField w o) ⟨assignPtr part put zero m, none⟩ (o.map enc, update) := by
  cases o with
  | none =>
    refine ⟨id, fun s hs => ?_, rfl, fun s r => rfl⟩
    have hput : put (part s) s = s := congrFun hlens s
    rw [hs] at hput
    exact hput.symm
  | some b =>
    obtain ⟨g, hg, hfills⟩ := (h b rfl).fills
    refine ⟨_, fun s hs => ?_, .always (h b rfl).writes, .assignPtr (h b rfl).notNull hfills⟩
    rw [hs, Option.getD_none, hg, Option.map_some]

end FieldCarries

end Records

end GoAmqp
