import GoAmqp.Message
import GoAmqp.Frames.RoundTrip

set_option autoImplicit false

/-! # Messages read back

A message on the wire is a sequence of sections, each with a descriptor in front. `Carried` says that
some sections are written and that each of them is read back by one round of the loop in `Unmarshal`;
the sections of a message are put together from the optional and the repeated ones. -/

namespace GoAmqp

open Lib Buffer TypeCode List

variable {v : Value} {α : Type} {bs : Bytes} {code : UInt8} {secs : List (Bytes × (Sections → Sections))}
  {write : BufM Unit}

/-- The values that `ReadAny` gives back. -/
def Value.Transmissible (v : Value) : Prop := v.codable = true ∧ (encode v).length < 2 ^ 32

/-! ## Header and properties -/

theorem carries_value (hv : v.codable = true) (hnil : v.isNil = false) :
    Carries (marshal v) readAny (encode v) v.norm where
  notNull := by
    rcases encode_starts hv with rfl | ⟨k, -, h⟩ | h
    · simp [Value.isNil] at hnil
    · rw [h]
      exact notNull_encodeUint64 k
    · exact h.notNull (by decide)
  writes := writes_marshal v hv
  reads := reads_readAny v hv

theorem carries_timestamp {t : Time} (ht : t.codable = true) :
    Carries (writeTimestamp t) readTimestamp (encodeTimestamp t) t where
  notNull := ⟨_, _, rfl, by decide⟩
  writes _ := writes_writeTimestamp t
  reads _ _ := reads_readTimestamp ht

theorem length_encodeField_map {o : Option α} {enc : α → Bytes}
    (h : ∀ a, o = some a → (enc a).length < 2 ^ 32) : (encodeField (o.map enc)).length < 2 ^ 32 := by
  cases o with
  | none => simp [encodeField]
  | some a => exact h a rfl

theorem length_encodeField_unless {omitted : Bool} (h : bs.length < 2 ^ 32) :
    (encodeField (fieldUnless omitted bs)).length < 2 ^ 32 := by
  cases omitted with
  | true => simp [fieldUnless, encodeField]
  | false => exact h

theorem length_encodeUint32_lt (n : UInt32) : (encodeUint32 n).length < 2 ^ 32 := by
  unfold encodeUint32
  split
  · simp
  · split <;> simp [length_be32]

theorem length_encodeBool_lt (b : Bool) : (encodeBool b).length < 2 ^ 32 := by simp [encodeBool]

def MessageHeader.encode (h : MessageHeader) : Bytes := encodeComposite TypeCode.messageHeader [
  fieldUnless (!h.durable) (encodeBool h.durable),
  fieldUnless (h.priority == 4) (encodeUbyte h.priority),
  fieldUnless (h.ttl == 0) (encodeMilliseconds h.ttl),
  fieldUnless (!h.firstAcquirer) (encodeBool h.firstAcquirer),
  fieldUnless (h.deliveryCount == 0) (encodeUint32 h.deliveryCount)]

/-- The header is read back as it was, with the priority that is left out as the default. -/
theorem conveys_messageHeader {h : MessageHeader} (hh : codableMilliseconds h.ttl = true) :
    Conveys h.marshal MessageHeader.unmarshal .zero h.encode h := by
  refine conveys_composite TypeCode.messageHeader
    (.cons (.omittable MessageHeader.durable rfl (carries_bool h.durable))
    (.cons (.withDefault (carries_ubyte h.priority))
    (.cons (.omittableAssigned MessageHeader.ttl rfl (carries_milliseconds hh))
    (.cons (.omittable MessageHeader.firstAcquirer rfl (carries_bool h.firstAcquirer))
    (.cons (.omittable MessageHeader.deliveryCount rfl (carries_uint32 h.deliveryCount))
    .nil))))) ?_ ?_ (by simp)
  · simp only [applyAll, List.map, foldl, MessageHeader.zero, ite_beq, ite_not]
  · simp only [forall_mem_cons, not_mem_nil, false_implies, implies_true, and_true]
    exact ⟨length_encodeField_unless (length_encodeBool_lt _), length_encodeField_unless (by simp [encodeUbyte]),
      length_encodeField_unless (length_encodeUint32_lt _),
      length_encodeField_unless (length_encodeBool_lt _),
      length_encodeField_unless (length_encodeUint32_lt _)⟩

def MessageProperties.encode (p : MessageProperties) : Bytes := encodeComposite TypeCode.messageProperties [
  fieldUnless p.messageID.isNil (GoAmqp.encode p.messageID),
  fieldUnless p.userID.isEmpty (encodeBinary p.userID),
  p.to_.map encodeString,
  p.subject.map encodeString,
  p.replyTo.map encodeString,
  fieldUnless p.correlationID.isNil (GoAmqp.encode p.correlationID),
  p.contentType.map encodeSymbol,
  p.contentEncoding.map encodeSymbol,
  p.absoluteExpiryTime.map encodeTimestamp,
  p.creationTime.map encodeTimestamp,
  p.groupID.map encodeString,
  p.groupSequence.map encodeUint32,
  p.replyToGroupID.map encodeString]

def MessageProperties.norm (p : MessageProperties) : MessageProperties := { p with
  messageID := p.messageID.norm
  correlationID := p.correlationID.norm }

/-- Every field can be written and read back. -/
structure MessageProperties.Transmissible (p : MessageProperties) : Prop where
  messageID : p.messageID.Transmissible
  correlationID : p.correlationID.Transmissible
  userID : (Value.binary p.userID).Transmissible
  strings : ∀ s, some s ∈ [p.to_, p.subject, p.replyTo, p.groupID, p.replyToGroupID] → (Value.string s).Transmissible
  symbols : ∀ s, some s ∈ [p.contentType, p.contentEncoding] → (Value.symbol s).Transmissible
  times : ∀ t, some t ∈ [p.absoluteExpiryTime, p.creationTime] → (Value.time t).Transmissible

theorem ite_isNil (v : Value) : (if v.isNil = true then .nil else v.norm) = v.norm := by
  split
  · next h => rw [Value.eq_nil_of_isNil h]; rfl
  · rfl

theorem conveys_messageProperties {p : MessageProperties} (hp : p.Transmissible) :
    Conveys p.marshal MessageProperties.unmarshal .zero p.encode p.norm := by
  have hstring : ∀ o ∈ [p.to_, p.subject, p.replyTo, p.groupID, p.replyToGroupID], ∀ s, o = some s →
      validUtf8 s = true ∧ (encodeString s).length < 2 ^ 32 :=
    fun o ho s hs => hp.strings s (hs ▸ ho)
  have hsymbol : ∀ o ∈ [p.contentType, p.contentEncoding], ∀ s, o = some s →
      (encodeSymbol s).length < 2 ^ 32 := fun o ho s hs => (hp.symbols s (hs ▸ ho)).2
  have htime : ∀ o ∈ [p.absoluteExpiryTime, p.creationTime], ∀ t, o = some t →
      t.codable = true ∧ (encodeTimestamp t).length < 2 ^ 32 := fun o ho t ht => hp.times t (ht ▸ ho)
  simp only [forall_mem_cons, not_mem_nil, false_implies, implies_true, and_true]
    at hstring hsymbol htime
  obtain ⟨hto, hsubject, hreplyTo, hgroupID, hreplyToGroupID⟩ := hstring
  obtain ⟨htype, hencoding⟩ := hsymbol
  obtain ⟨hexpiry, hcreation⟩ := htime
  have hptr : ∀ {o : Option Bytes}, (∀ s, o = some s → validUtf8 s = true ∧ (encodeString s).length < 2 ^ 32) →
      ∀ s, o = some s → Carries (writeString s) readString (encodeString s) s :=
    fun h s hs => carries_string (h s hs).1
  have htimePtr : ∀ {o : Option Time}, (∀ t, o = some t → t.codable = true ∧ (encodeTimestamp t).length < 2 ^ 32) →
      ∀ t, o = some t → Carries (writeTimestamp t) readTimestamp (encodeTimestamp t) t :=
    fun h t ht => carries_timestamp (h t ht).1
  refine conveys_composite TypeCode.messageProperties
    (.cons (.omittableIf MessageProperties.messageID rfl (carries_value hp.messageID.1))
    (.cons (.omittable MessageProperties.userID rfl (carries_binary p.userID))
    (.cons (.pointerInto rfl FieldCarries.fills_store (hptr hto))
    (.cons (.pointerInto rfl FieldCarries.fills_store (hptr hsubject))
    (.cons (.pointerInto rfl FieldCarries.fills_store (hptr hreplyTo))
    (.cons (.omittableIf MessageProperties.correlationID rfl (carries_value hp.correlationID.1))
    (.cons (.pointerInto rfl FieldCarries.fills_store fun s _ => carries_symbol s)
    (.cons (.pointerInto rfl FieldCarries.fills_store fun s _ => carries_symbol s)
    (.cons (.pointerInto rfl FieldCarries.fills_store (htimePtr hexpiry))
    (.cons (.pointerInto rfl FieldCarries.fills_store (htimePtr hcreation))
    (.cons (.pointerInto rfl FieldCarries.fills_store (hptr hgroupID))
    (.cons (.pointer (f := id) MessageProperties.groupSequence (fun v p => { p with groupSequence := v })
      rfl fun n _ => carries_uint32 n)
    (.cons (.pointerInto rfl FieldCarries.fills_store (hptr hreplyToGroupID))
    .nil))))))))))))) ?_ ?_ (by simp)
  · simp only [applyAll, List.map, foldl,
      MessageProperties.zero, MessageProperties.norm, ite_isEmpty, ite_isNil, Option.or_none,
      Option.map_id, id_eq]
  · simp only [forall_mem_cons, not_mem_nil, false_implies, implies_true, and_true]
    exact ⟨length_encodeField_unless hp.messageID.2, length_encodeField_unless hp.userID.2,
      length_encodeField_map fun s hs => (hto s hs).2, length_encodeField_map fun s hs => (hsubject s hs).2,
      length_encodeField_map fun s hs => (hreplyTo s hs).2, length_encodeField_unless hp.correlationID.2,
      length_encodeField_map htype, length_encodeField_map hencoding,
      length_encodeField_map fun t ht => (hexpiry t ht).2,
      length_encodeField_map fun t ht => (hcreation t ht).2,
      length_encodeField_map fun s hs => (hgroupID s hs).2,
      length_encodeField_map fun n _ => length_encodeUint32_lt n,
      length_encodeField_map fun s hs => (hreplyToGroupID s hs).2⟩

/-! ## One section -/

/-- The descriptor in front of a section. -/
def descriptor (code : UInt8) : Bytes := [0x0, smallUlong, code]

theorem writes_writeSection (code : UInt8) {write : α → BufM Unit} {a : α} (h : Writes (write a) bs) :
    Writes (writeSection code write a) (descriptor code ++ bs) :=
  (Writes.appendBytes (descriptor code)).bind h

section ReadSection

variable (headerLength : Nat)

/-! The cases of the switch, each under its code. -/

theorem readSection_header : readSection TypeCode.messageHeader headerLength =
    assignPtr Sections.header (fun v m => { m with header := v }) .zero MessageHeader.unmarshal := rfl

theorem readSection_deliveryAnnotations : readSection TypeCode.deliveryAnnotations headerLength =
    sectionInto headerLength (unmarshalAnnotations readAny) fun v m => { m with deliveryAnnotations := some v } :=
  rfl

theorem readSection_annotations : readSection messageAnnotations headerLength =
    sectionInto headerLength (unmarshalAnnotations readAny) fun v m => { m with annotations := some v } := rfl

theorem readSection_properties : readSection TypeCode.messageProperties headerLength =
    assignPtr Sections.properties (fun v m => { m with properties := v }) .zero MessageProperties.unmarshal := rfl

theorem readSection_applicationProperties : readSection TypeCode.applicationProperties headerLength =
    sectionInto headerLength (unmarshalMapStringAny readAny) fun v m =>
      { m with applicationProperties := some v } := rfl

theorem readSection_data : readSection applicationData headerLength =
    sectionAppend headerLength [] readBinary fun v m => { m with data := m.data ++ [v] } := rfl

theorem readSection_value : readSection amqpValue headerLength =
    sectionInto headerLength readAny fun v m => { m with value := v } := rfl

theorem readSection_sequence : readSection amqpSequence headerLength =
    sectionAppend headerLength [] (unmarshalList readAny) fun v m => { m with sequence := m.sequence ++ [v] } :=
  rfl

theorem readSection_footer : readSection TypeCode.footer headerLength =
    sectionInto headerLength (unmarshalAnnotations readAny) fun v m => { m with footer := some v } := rfl

end ReadSection

/-- A section that one round of the loop reads: its bytes, and what the round does to the message. -/
def RoundReads (sec : Bytes × (Sections → Sections)) : Prop :=
  ∃ code tail, sec.1 = descriptor code ++ tail ∧ ∀ rest, Fills (readSection code 3) sec.1 rest sec.2

theorem roundReads_record {τ : Type} {fields : List (Option Bytes)} {part : Sections → Option τ}
    {put : Option τ → Sections → Sections} {zero : τ} {m : IntoM τ Unit} {update : τ → τ}
    (hcode : readSection code 3 = assignPtr part put zero m)
    (h : ∀ rest, Fills m (encodeComposite code fields) rest update) :
    RoundReads (encodeComposite code fields, fun s => put (some (update ((part s).getD zero))) s) := by
  refine ⟨code, _, rfl, fun rest => ?_⟩
  rw [hcode]
  exact .assignPtr ((starts_encodeComposite _ _).notNull (by decide)) (h rest)

variable {put : α → Sections → Sections}

theorem roundReads_into {read : BufM α} {a : α} (hcode : readSection code 3 = sectionInto 3 read put)
    (hnull : NotNull bs) (h : ∀ rest, Reads read bs rest a) : RoundReads (descriptor code ++ bs, put a) := by
  refine ⟨code, bs, rfl, fun rest => ?_⟩
  rw [hcode]
  exact .onBuffer (reads_skip (descriptor code)) (.assign hnull (h rest))

theorem roundReads_append {read : BufM α} {zero a : α} (hcode : readSection code 3 = sectionAppend 3 zero read put)
    (hnull : NotNull bs) (h : ∀ rest, Reads read bs rest a) : RoundReads (descriptor code ++ bs, put a) := by
  refine ⟨code, bs, rfl, fun rest => ?_⟩
  rw [hcode]
  have hread : Reads (readNullable zero read) bs ([] ++ rest) a := by
    obtain ⟨t, tail, rfl, ht⟩ := hnull
    exact .bind_peek (reads_tryReadNull_other ht) (h ([] ++ rest))
  have hput : Fills (modify fun s => (put a s.1, s.2) : IntoM Sections Unit) [] rest (put a) :=
    fun _ _ _ _ => rfl
  have hrest := Fills.onBuffer (k := fun a => modify fun s => (put a s.1, s.2)) hread hput
  rw [List.append_nil] at hrest
  exact .onBuffer (reads_skip (descriptor code)) hrest

/-! ## The loop -/

theorem peekMessageType_descriptor (code : UInt8) (tail : Bytes) :
    peekMessageType (descriptor code ++ tail) = pure (code, 3) := rfl

/-- The loop reads section after section until the buffer is empty. -/
theorem fills_sectionsLoop (h : ∀ sec ∈ secs, RoundReads sec) {bound : Nat} (hbound : secs.length < bound) :
    Fills (sectionsLoop bound) (secs.flatMap Prod.fst) [] (applyAll (secs.map Prod.snd)) := by
  induction secs generalizing bound with
  | nil =>
    obtain ⟨bound, rfl⟩ := Nat.exists_eq_succ_of_ne_zero (Nat.ne_of_gt hbound)
    exact .onBuffer reads_len .pure
  | cons sec secs ih =>
    obtain ⟨bound, rfl⟩ := Nat.exists_eq_succ_of_ne_zero (Nat.ne_of_gt (Nat.zero_lt_of_lt hbound))
    rw [length_cons] at hbound
    obtain ⟨bs, update⟩ := sec
    obtain ⟨code, tail, hbs, hfills⟩ := h (bs, update) (mem_cons_self ..)
    have hrest := ih (fun sec hsec => h sec (mem_cons_of_mem _ hsec)) (Nat.lt_of_succ_lt_succ hbound)
    simp only at hbs
    rw [flatMap_cons, map_cons]
    have hpeek : peekMessageType (bs ++ secs.flatMap Prod.fst ++ []) = pure (code, 3) := by
      rw [hbs, append_assoc, append_assoc]
      exact peekMessageType_descriptor code _
    refine .onBuffer_peek reads_len ?_
    rw [if_pos (by simp [hbs, descriptor])]
    refine .onBuffer_peek reads_bytes ?_
    rw [hpeek]
    refine .onBuffer_peek (.pure _ _) ?_
    exact ((hfills _).bind hrest).congr rfl rfl

/-! ## The sections of a message -/

/-- The sections are written, and each is read back by a round. -/
structure Carried (write : BufM Unit) (secs : List (Bytes × (Sections → Sections))) : Prop where
  writes : Writes write (secs.flatMap Prod.fst)
  reads : ∀ sec ∈ secs, RoundReads sec

variable {sec : α → Bytes × (Sections → Sections)}

namespace Carried

theorem bind {next : Unit → BufM Unit} {secs' : List (Bytes × (Sections → Sections))}
    (h : Carried write secs) (h' : Carried (next ()) secs') : Carried (write >>= next) (secs ++ secs') := by
  constructor
  · rw [flatMap_append]
    exact h.writes.bind h'.writes
  · intro sec hsec
    rcases mem_append.1 hsec with hsec | hsec
    · exact h.reads sec hsec
    · exact h'.reads sec hsec

/-- A section that may be missing. -/
theorem optional {write : α → BufM Unit} {o : Option α}
    (h : ∀ a, o = some a → Writes (write a) (sec a).1 ∧ RoundReads (sec a)) :
    Carried (writeOptional write o) (o.toList.map sec) := by
  cases o with
  | none => exact ⟨.pure, by simp⟩
  | some a =>
    obtain ⟨hwrites, hreads⟩ := h a rfl
    constructor
    · simp only [Option.toList_some, map_cons, map_nil, flatMap_singleton]
      exact hwrites
    · simpa using hreads

/-- A section that may be repeated. -/
theorem repeated {write : α → BufM Unit} {as : List α} (h : ∀ a ∈ as, Writes (write a) (sec a).1 ∧ RoundReads (sec a)) :
    Carried (as.forM write) (as.map sec) := by
  constructor
  · rw [flatMap_map]
    exact writes_forM as fun a ha => (h a ha).1
  · intro s hs
    obtain ⟨a, ha, rfl⟩ := mem_map.1 hs
    exact (h a ha).2

end Carried

/-- Every section can be written and read back. -/
structure Sections.Transmissible (m : Sections) : Prop where
  header : ∀ h, m.header = some h → codableMilliseconds h.ttl = true
  annotations : ∀ a, some a ∈ [m.deliveryAnnotations, m.annotations, m.footer] →
    codableAnnotations a = true ∧ (encodeAnnotations a).length < 2 ^ 32
  properties : ∀ p, m.properties = some p → p.Transmissible
  applicationProperties : ∀ p, m.applicationProperties = some p → (Value.mapString p).Transmissible
  data : ∀ d ∈ m.data, (Value.binary d).Transmissible
  value : m.value.Transmissible
  sequence : ∀ xs ∈ m.sequence, (Value.list xs).Transmissible

/-- The message as it is read back. -/
def Sections.norm (m : Sections) : Sections := { m with
  deliveryAnnotations := m.deliveryAnnotations.map normEntries
  annotations := m.annotations.map normEntries
  properties := m.properties.map MessageProperties.norm
  applicationProperties := m.applicationProperties.map normStringEntries
  value := m.value.norm
  sequence := m.sequence.map normElements
  footer := m.footer.map normEntries }

theorem carries_annotations {a : Annotations} (h : codableAnnotations a = true) :
    Carries (marshalAnnotations a) (unmarshalAnnotations readAny) (encodeAnnotations a) (normEntries a) := by
  simp only [codableAnnotations, Bool.and_eq_true, all_eq_true] at h
  obtain ⟨⟨hvals, hkeys⟩, hdistinct⟩ := h
  have hpairs := length_encodeAnnotationEntries hvals hkeys
  have hmap := length_encodeMap a.length (encodeAnnotationEntries a)
  constructor
  · exact notNull_encodeMap _ _
  · intro hlt
    unfold encodeAnnotations at hlt ⊢
    exact writes_writeMap (writes_marshalAnnotationEntries _ hvals hkeys (by omega)) (by omega)
  · exact fun hlt _ => reads_unmarshalAnnotations (readsBack_entries a) hvals hkeys hdistinct hlt

theorem carries_applicationProperties {p : List (Bytes × Value)} (h : (Value.mapString p).codable = true) :
    Carries (marshal (.mapString p)) (unmarshalMapStringAny readAny) (encode (.mapString p))
      (normStringEntries p) := by
  constructor
  · exact notNull_encodeMap _ _
  · exact writes_marshal _ h
  · intro hlt rest
    simp only [Value.codable, Bool.and_eq_true] at h
    exact reads_stringEntries (readsBack_values p) h.1.1 h.2 hlt

theorem carries_list {xs : List Value} (h : (Value.list xs).codable = true) :
    Carries (marshal (.list xs)) (unmarshalList readAny) (encode (.list xs)) (normElements xs) := by
  constructor
  · exact (starts_encodeList _ _).notNull (by decide)
  · exact writes_marshal _ h
  · exact fun hlt _ => reads_unmarshalList (readsBack_elements xs) h hlt

/-- A section with a descriptor in front, read into a field. -/
theorem Carries.sectionInto {read : BufM α} {a : α} (hcode : readSection code 3 = GoAmqp.sectionInto 3 read put)
    (h : Carries write read bs a) (hlt : bs.length < 2 ^ 32) :
    Writes (writeSection code (fun _ => write) ()) (descriptor code ++ bs) ∧
      RoundReads (descriptor code ++ bs, put a) :=
  ⟨writes_writeSection code (h.writes hlt), roundReads_into hcode h.notNull (h.reads hlt)⟩

/-- A section with a descriptor in front, added to a field. -/
theorem Carries.sectionAppend {read : BufM α} {a zero : α}
    (hcode : readSection code 3 = GoAmqp.sectionAppend 3 zero read put) (h : Carries write read bs a)
    (hlt : bs.length < 2 ^ 32) :
    Writes (writeSection code (fun _ => write) ()) (descriptor code ++ bs) ∧
      RoundReads (descriptor code ++ bs, put a) :=
  ⟨writes_writeSection code (h.writes hlt), roundReads_append hcode h.notNull (h.reads hlt)⟩

/-- The sections that `Marshal` writes, in order. The updates for header and properties are those of
    their composites. -/
def sectionsOf (m : Sections) (header : MessageHeader → MessageHeader)
    (properties : MessageProperties → MessageProperties) :
    List (Bytes × (Sections → Sections)) :=
  m.header.toList.map (fun h => (h.encode,
    fun s => { s with header := some (header (s.header.getD .zero)) })) ++
  (m.deliveryAnnotations.toList.map (fun a => (descriptor TypeCode.deliveryAnnotations ++ encodeAnnotations a,
    fun s => { s with deliveryAnnotations := some (normEntries a) })) ++
  (m.annotations.toList.map (fun a => (descriptor messageAnnotations ++ encodeAnnotations a,
    fun s => { s with annotations := some (normEntries a) })) ++
  (m.properties.toList.map (fun p => (p.encode,
    fun s => { s with properties := some (properties (s.properties.getD .zero)) })) ++
  (m.applicationProperties.toList.map (fun p =>
    (descriptor TypeCode.applicationProperties ++ encode (.mapString p),
      fun s => { s with applicationProperties := some (normStringEntries p) })) ++
  (m.data.map (fun d => (descriptor applicationData ++ encodeBinary d,
    fun s => { s with data := s.data ++ [d] })) ++
  (m.value.optional.toList.map (fun v => (descriptor amqpValue ++ encode v,
    fun s => { s with value := v.norm })) ++
  (m.sequence.map (fun xs => (descriptor amqpSequence ++ encode (.list xs),
    fun s => { s with sequence := s.sequence ++ [normElements xs] })) ++
  m.footer.toList.map (fun a => (descriptor TypeCode.footer ++ encodeAnnotations a,
    fun s => { s with footer := some (normEntries a) })))))))))

theorem Value.optional_eq_none (h : v.optional = none) : v = .nil := by
  cases v <;> simp_all [Value.optional]

theorem carried_sections {m : Sections} (hm : m.Transmissible)
    {header : MessageHeader → MessageHeader} {properties : MessageProperties → MessageProperties}
    (hheader : ∀ h, m.header = some h → ∀ rest, Fills MessageHeader.unmarshal h.encode rest header)
    (hproperties : ∀ p, m.properties = some p → ∀ rest, Fills MessageProperties.unmarshal p.encode rest properties) :
    Carried m.marshal (sectionsOf m header properties) := by
  have hannotations : ∀ a, some a ∈ [m.deliveryAnnotations, m.annotations, m.footer] →
      Carries (marshalAnnotations a) (unmarshalAnnotations readAny) (encodeAnnotations a) (normEntries a) ∧
        (encodeAnnotations a).length < 2 ^ 32 := by
    intro a ha
    obtain ⟨hcodable, hlt⟩ := hm.annotations a ha
    exact ⟨carries_annotations hcodable, hlt⟩
  refine .bind (.optional fun h hh => ?_) (.bind (.optional fun a ha => ?_)
    (.bind (.optional fun a ha => ?_) (.bind (.optional fun p hp => ?_)
    (.bind (.optional fun p hp => ?_) (.bind (.repeated fun d hd => ?_)
    (.bind (.optional fun v hv => ?_) (.bind (.repeated fun xs hxs => ?_)
    (.optional fun a ha => ?_))))))))
  · exact ⟨(conveys_messageHeader (hm.header h hh)).writes, roundReads_record (readSection_header 3) (hheader h hh)⟩
  · obtain ⟨hcarries, hlt⟩ := hannotations a (by simp [ha])
    exact hcarries.sectionInto (readSection_deliveryAnnotations 3) hlt
  · obtain ⟨hcarries, hlt⟩ := hannotations a (by simp [ha])
    exact hcarries.sectionInto (readSection_annotations 3) hlt
  · exact ⟨(conveys_messageProperties (hm.properties p hp)).writes,
      roundReads_record (readSection_properties 3) (hproperties p hp)⟩
  · obtain ⟨hcodable, hlt⟩ := hm.applicationProperties p hp
    exact (carries_applicationProperties hcodable).sectionInto (readSection_applicationProperties 3) hlt
  · exact (carries_binary d).sectionAppend (readSection_data 3) (hm.data d hd).2
  · obtain ⟨hcodable, hlt⟩ := hm.value
    obtain ⟨heq, hnil⟩ := Value.optional_eq_some hv
    rw [heq] at hcodable hlt
    exact (carries_value hcodable hnil).sectionInto (readSection_value 3) hlt
  · obtain ⟨hcodable, hlt⟩ := hm.sequence xs hxs
    exact (carries_list hcodable).sectionAppend (readSection_sequence 3) hlt
  · obtain ⟨hcarries, hlt⟩ := hannotations a (by simp [ha])
    exact hcarries.sectionInto (readSection_footer 3) hlt

/-! ## What the rounds build -/

theorem applyAll_append {σ : Type} (fs gs : List (σ → σ)) (s : σ) :
    applyAll (fs ++ gs) s = applyAll gs (applyAll fs s) := foldl_append

/-- The rounds for an optional section. -/
theorem applyAll_optional {o : Option α} {s t : Sections} (hnone : o = none → s = t)
    (hsome : ∀ a, o = some a → (sec a).2 s = t) : applyAll ((o.toList.map sec).map Prod.snd) s = t := by
  cases o with
  | none => exact hnone rfl
  | some a => exact hsome a rfl

theorem applyAll_data (data : List Bytes) (s : Sections) :
    applyAll ((data.map fun d => (descriptor applicationData ++ encodeBinary d,
      fun s : Sections => { s with data := s.data ++ [d] })).map Prod.snd) s
      = { s with data := s.data ++ data } := by
  induction data generalizing s with
  | nil => simp [applyAll]
  | cons d data ih =>
    rw [map_cons, map_cons]
    refine (ih { s with data := s.data ++ [d] }).trans ?_
    simp

theorem applyAll_sequence (sequence : List (List Value)) (s : Sections) :
    applyAll ((sequence.map fun xs => (descriptor amqpSequence ++ encode (.list xs),
      fun s : Sections => { s with sequence := s.sequence ++ [normElements xs] })).map Prod.snd) s
      = { s with sequence := s.sequence ++ sequence.map normElements } := by
  induction sequence generalizing s with
  | nil => simp [applyAll]
  | cons xs sequence ih =>
    rw [map_cons, map_cons]
    refine (ih { s with sequence := s.sequence ++ [normElements xs] }).trans ?_
    simp

theorem applyAll_sectionsOf {m : Sections} {header : MessageHeader → MessageHeader}
    {properties : MessageProperties → MessageProperties} (hheader : ∀ h, m.header = some h → header .zero = h)
    (hproperties : ∀ p, m.properties = some p → properties .zero = p.norm) :
    applyAll ((sectionsOf m header properties).map Prod.snd) .zero = m.norm := by
  simp only [sectionsOf, map_append, applyAll_append]
  -- one rewrite for each section, in the order of the rounds
  rw [applyAll_optional (o := m.header)
      (t := ⟨m.header, none, none, none, none, [], .nil, [], none⟩),
    applyAll_optional (o := m.deliveryAnnotations)
      (t := ⟨m.header, m.norm.deliveryAnnotations, none, none, none, [], .nil, [], none⟩),
    applyAll_optional (o := m.annotations)
      (t := ⟨m.header, m.norm.deliveryAnnotations, m.norm.annotations, none, none, [], .nil, [], none⟩),
    applyAll_optional (o := m.properties)
      (t := ⟨m.header, m.norm.deliveryAnnotations, m.norm.annotations, m.norm.properties, none, [], .nil, [], none⟩),
    applyAll_optional (o := m.applicationProperties)
      (t := ⟨m.header, m.norm.deliveryAnnotations, m.norm.annotations, m.norm.properties,
        m.norm.applicationProperties, [], .nil, [], none⟩),
    applyAll_data,
    applyAll_optional (o := m.value.optional) (t := { m.norm with sequence := [], footer := none }),
    applyAll_sequence,
    applyAll_optional (o := m.footer) (t := m.norm)]
  case hnone => intro h; simp [Sections.norm, h]
  case hsome => intro a h; simp [Sections.norm, h]
  · intro h
    simp [Sections.norm, Value.optional_eq_none h, Value.norm]
  · intro v h
    simp [Sections.norm, (Value.optional_eq_some h).1]
  · intro h
    simp [Sections.norm, h]
  · intro p h
    simp [Sections.norm, h]
  · intro h
    simp [Sections.norm, h]
  · intro p h
    simp [Sections.norm, h, hproperties p h]
  · intro h
    simp [Sections.norm, h]
  · intro a h
    simp [Sections.norm, h]
  · intro h
    simp [Sections.norm, h]
  · intro a h
    simp [Sections.norm, h]
  · intro h
    simp [Sections.zero, h]
  · intro hd h
    simp [Sections.zero, h, hheader hd h]

/-- Every section has at least one byte. -/
theorem length_le_flatMap_sections (h : ∀ sec ∈ secs, RoundReads sec) :
    secs.length ≤ (secs.flatMap Prod.fst).length := by
  induction secs with
  | nil => simp
  | cons sec secs ih =>
    obtain ⟨code, tail, hbs, -⟩ := h sec (mem_cons_self ..)
    have hle := ih fun sec hsec => h sec (mem_cons_of_mem _ hsec)
    simp only [flatMap_cons, length_append, length_cons, hbs, descriptor]
    omega

theorem fills_sections (h : ∀ sec ∈ secs, RoundReads sec) :
    Fills Sections.unmarshal (secs.flatMap Prod.fst) [] (applyAll (secs.map Prod.snd)) := by
  have hle := length_le_flatMap_sections h
  refine .onBuffer_peek reads_len (fills_sectionsLoop h ?_)
  rw [List.append_nil]
  omega

theorem sections_marshal_unmarshal {m : Sections} (hm : m.Transmissible) :
    ∃ (bs : Bytes) (r : Buffer), m.marshal.run (.new []) = .ok () (.new bs) ∧
      Sections.unmarshal.run (.zero, .new bs) = .ok () (m.norm, r) := by
  have hheader : ∃ header : MessageHeader → MessageHeader, ∀ h, m.header = some h →
      header .zero = h ∧ ∀ rest, Fills MessageHeader.unmarshal h.encode rest header := by
    cases hopt : m.header with
    | none => exact ⟨id, by simp⟩
    | some h =>
      obtain ⟨put, hput, hfills⟩ := (conveys_messageHeader (hm.header h hopt)).fills
      refine ⟨put, fun h' hh' => ?_⟩
      cases hh'
      exact ⟨hput, hfills⟩
  have hproperties : ∃ properties : MessageProperties → MessageProperties, ∀ p, m.properties = some p →
      properties .zero = p.norm ∧ ∀ rest, Fills MessageProperties.unmarshal p.encode rest properties := by
    cases hopt : m.properties with
    | none => exact ⟨id, by simp⟩
    | some p =>
      obtain ⟨put, hput, hfills⟩ := (conveys_messageProperties (hm.properties p hopt)).fills
      refine ⟨put, fun p' hp' => ?_⟩
      cases hp'
      exact ⟨hput, hfills⟩
  obtain ⟨header, hheader⟩ := hheader
  obtain ⟨properties, hproperties⟩ := hproperties
  have hcarried := carried_sections hm (fun h hh => (hheader h hh).2) (fun p hp => (hproperties p hp).2)
  have hbuilt := applyAll_sectionsOf (fun h hh => (hheader h hh).1) (fun p hp => (hproperties p hp).1)
  have hrun := fills_sections hcarried.reads .zero (.new _) (Nat.zero_le _) (List.append_nil _).symm
  rw [hbuilt] at hrun
  exact ⟨_, _, hcarried.writes.run_new, hrun⟩

/-- The other fields of a message stay as they are. -/
theorem run_unmarshal {m : Message} {s : Sections} {r r' : Buffer}
    (h : Sections.unmarshal.run (m.toSections, r) = .ok () (s, r')) :
    Message.unmarshal.run (m, r) = .ok () ({ m with toSections := s }, r') := by
  simp only [EStateM.run, Message.unmarshal, zoom] at h ⊢
  rw [h]

/-- **Message round trip.** A message of transmissible values is marshalled without error, and a zero
    message unmarshalled from what was written has the sections of the message in normal form. -/
theorem unmarshal_marshal (m : Message) (hm : m.toSections.Transmissible) :
    ∃ (bs : Bytes) (r : Buffer), m.marshal.run (.new []) = .ok () (.new bs) ∧
      Message.unmarshal.run (Message.zero, .new bs) =
        .ok () ({ Message.zero with toSections := m.toSections.norm }, r) := by
  obtain ⟨bs, r, hmarshal, hunmarshal⟩ := sections_marshal_unmarshal hm
  exact ⟨bs, r, hmarshal, run_unmarshal hunmarshal⟩

/-- A message with a header, annotations, two data sections and a value. -/
theorem unmarshal_marshal_sections :
    ∃ (bs : Bytes) (r : Buffer),
      (Message.marshal { Message.zero with
        header := some ⟨true, 4, 1000000, false, 0⟩
        annotations := some [(.symbol [0x78], .int 1)]
        data := [[1, 2], []]
        value := .string [0x61] }).run (.new []) = .ok () (.new bs) ∧
      Message.unmarshal.run (Message.zero, .new bs) = .ok () ({ Message.zero with
        header := some ⟨true, 4, 1000000, false, 0⟩
        annotations := some [(.string [0x78], .int64 1)]
        data := [[1, 2], []]
        value := .string [0x61] }, r) := by
  refine unmarshal_marshal _ ⟨?_, ?_, ?_, ?_, ?_, ?_, ?_⟩
  · intro h hh
    cases hh
    decide
  · intro a ha
    have ha' : a = [(.symbol [0x78], .int 1)] := by simpa [Message.zero, Sections.zero] using ha
    subst ha'
    decide
  · intro p hp
    cases hp
  · intro p hp
    cases hp
  · intro d hd
    have hd' : d = [1, 2] ∨ d = [] := by simpa using hd
    rcases hd' with rfl | rfl <;> exact ⟨rfl, by decide⟩
  · exact ⟨rfl, by decide⟩
  · intro xs hxs
    cases hxs

/-! ## Forwarding -/

end GoAmqp
