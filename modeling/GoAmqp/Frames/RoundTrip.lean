import GoAmqp.Frames.Fields

set_option autoImplicit false

/-! # Round trip of frames

Each performative is carried by its encoding; `parseBody` finds the performative again by its
descriptor, and the frame header that `Write` patches in gives the length of the frame. -/

namespace GoAmqp

open Lib Buffer TypeCode List

/-! ## Omitted fields have their zero value -/

theorem ite_isEmpty {α : Type} (l : List α) : (if l.isEmpty = true then [] else l) = l := by
  cases l <;> rfl

theorem ite_isEmpty_norm (m : SymbolMap) :
    (if m.isEmpty = true then [] else normStringEntries m) = normStringEntries m := by
  cases m <;> rfl

theorem ite_isEmpty_normFilter (f : Filter) : (if f.isEmpty = true then [] else normFilter f) = normFilter f := by
  cases f <;> rfl

theorem ite_isEmpty_normUnsettled (u : Unsettled) :
    (if u.isEmpty = true then [] else normUnsettled u) = normUnsettled u := by
  cases u <;> rfl

theorem ite_beq {α : Type} [BEq α] [LawfulBEq α] (a d : α) : (if (a == d) = true then d else a) = a := by
  split
  · next h => exact (beq_iff_eq.mp h).symm
  · rfl

theorem ite_not (b : Bool) : (if (!b) = true then false else b) = b := by cases b <;> rfl

theorem Value.eq_nil_of_isNil {v : Value} (h : v.isNil = true) : v = .nil := by
  cases v <;> first | rfl | exact absurd h (by simp [Value.isNil])

/-! ## Source and target -/

variable {rest : Bytes} {b : FrameBody}

section Terminus

variable {σ : Type} {part : σ → ExpiryPolicy} {put : ExpiryPolicy → σ → σ}

theorem fills_unmarshalExpiryPolicy {e : ExpiryPolicy} (he : e.valid = true) (hlt : (encodeSymbol e).length < 2 ^ 32) :
    Fills unmarshalExpiryPolicy (encodeSymbol e) rest fun _ => e := by
  have hstore : Fills (store readString) (encodeSymbol e) rest fun _ => e :=
    FieldCarries.fills_store (reads_readString_symbol e hlt)
  intro s r hw hu
  rw [unmarshalExpiryPolicy, EStateM.run_bind, hstore s r hw hu]
  show (if ExpiryPolicy.valid e then pure () else fail _ : IntoM ExpiryPolicy Unit).run _ = _
  rw [if_pos he]
  rfl

/-- The expiry policy of a terminus; session-end is the default. -/
theorem fieldCarries_expiryPolicy {e : ExpiryPolicy} (he : codableExpiryPolicy e = true) :
    FieldCarries ⟨marshalSymbol e, e.isDefault⟩
      ⟨orNull (zoom part put unmarshalExpiryPolicy), default_ (put .sessionEnd)⟩
      (fieldUnless e.isDefault (encodeSymbol e), put (normExpiryPolicy e)) := by
  refine ⟨.omittable fun _ => writes_marshalSymbol e, ?_⟩
  unfold normExpiryPolicy
  by_cases hempty : e.isEmpty = true
  · rw [if_pos hempty, ExpiryPolicy.isDefault, hempty]
    exact .absentDefault
  · rw [if_neg hempty]
    have hvalid : e.valid = true := by simpa [codableExpiryPolicy, hempty] using he
    by_cases hdefault : (e == ExpiryPolicy.sessionEnd) = true
    · rw [ExpiryPolicy.isDefault, hdefault, Bool.or_true, beq_iff_eq.mp hdefault]
      exact .absentDefault
    · have hset : e.isDefault = false := by simp [ExpiryPolicy.isDefault, hempty, hdefault]
      rw [hset]
      have hnull : NotNull (encodeSymbol e) := notNull_encodeVariable e (by decide)
      exact ⟨hnull, fun hlt rest => .orNull hnull
        (.zoom (fills_unmarshalExpiryPolicy hvalid hlt))⟩

end Terminus

theorem transmits_source {s : Source} (hs : s.codable = true) :
    Transmits s.marshal Source.unmarshal .zero s.encode s.norm := by
  simp only [Source.codable, Bool.and_eq_true] at hs
  obtain ⟨⟨⟨⟨⟨⟨haddress, hexpiry⟩, hprops⟩, hfilter⟩, hnil⟩, houtcomes⟩, hcaps⟩ := hs
  refine transmits_composite TypeCode.source
    (.cons (.omittable Source.address rfl (carries_string haddress))
    (.cons (.omittable Source.durable rfl (carries_uint32 _))
    (.cons (fieldCarries_expiryPolicy hexpiry)
    (.cons (.omittable Source.timeout rfl (carries_uint32 _))
    (.cons (.omittable Source.dynamic rfl (carries_bool _))
    (.cons (.omittable Source.dynamicNodeProperties rfl (carries_symbolMap hprops))
    (.cons (.omittable Source.distributionMode rfl (carries_symbol _))
    (.cons (.omittable Source.filter rfl (carries_filter hfilter))
    (.cons (.absent hnil)
    (.cons (.omittable Source.outcomes rfl (carries_symbols houtcomes))
    (.cons (.omittable Source.capabilities rfl (carries_symbols hcaps))
    .nil))))))))))) ?_
  simp only [applyAll, List.map, foldl, id_eq,
    Source.zero, Source.norm, ite_isEmpty, ite_isEmpty_norm, ite_isEmpty_normFilter, ite_beq, ite_not,
    Value.eq_nil_of_isNil hnil]

theorem transmits_target {t : Target} (ht : t.codable = true) :
    Transmits t.marshal Target.unmarshal .zero t.encode t.norm := by
  simp only [Target.codable, Bool.and_eq_true] at ht
  obtain ⟨⟨⟨haddress, hexpiry⟩, hprops⟩, hcaps⟩ := ht
  refine transmits_composite TypeCode.target
    (.cons (.omittable Target.address rfl (carries_string haddress))
    (.cons (.omittable Target.durable rfl (carries_uint32 _))
    (.cons (fieldCarries_expiryPolicy hexpiry)
    (.cons (.omittable Target.timeout rfl (carries_uint32 _))
    (.cons (.omittable Target.dynamic rfl (carries_bool _))
    (.cons (.omittable Target.dynamicNodeProperties rfl (carries_symbolMap hprops))
    (.cons (.omittable Target.capabilities rfl (carries_symbols hcaps))
    .nil))))))) ?_
  simp only [applyAll, List.map, foldl, Target.zero, Target.norm, ite_isEmpty, ite_isEmpty_norm, ite_beq, ite_not]

/-! ## Performatives -/

theorem transmits_open {o : PerformOpen} (ho : o.codable = true) :
    Transmits o.marshal PerformOpen.unmarshal .zero o.encode o.norm := by
  simp only [PerformOpen.codable, Bool.and_eq_true] at ho
  obtain ⟨⟨⟨⟨⟨⟨⟨hid, hhost⟩, hidle⟩, hout⟩, hin⟩, hoffered⟩, hdesired⟩, hprops⟩ := ho
  refine transmits_composite TypeCode.open_
    (.cons (.always (carries_string hid))
    (.cons (.omittable PerformOpen.hostname rfl (carries_string hhost))
    (.cons (.withDefault (carries_uint32 _))
    (.cons (.withDefault (carries_uint16 _))
    (.cons (.omittableAssigned PerformOpen.idleTimeout rfl (carries_milliseconds hidle))
    (.cons (.omittable PerformOpen.outgoingLocales rfl (carries_symbols hout))
    (.cons (.omittable PerformOpen.incomingLocales rfl (carries_symbols hin))
    (.cons (.omittable PerformOpen.offeredCapabilities rfl (carries_symbols hoffered))
    (.cons (.omittable PerformOpen.desiredCapabilities rfl (carries_symbols hdesired))
    (.cons (.omittable PerformOpen.properties rfl (carries_symbolMap hprops))
    .nil)))))))))) ?_
  simp only [applyAll, List.map, foldl, PerformOpen.zero, PerformOpen.norm, ite_isEmpty, ite_isEmpty_norm, ite_beq]

theorem transmits_begin {b : PerformBegin} (hb : b.codable = true) :
    Transmits b.marshal PerformBegin.unmarshal .zero b.encode b.norm := by
  simp only [PerformBegin.codable, Bool.and_eq_true, Option.all_eq_true] at hb
  obtain ⟨⟨hoffered, hdesired⟩, hprops⟩ := hb
  refine transmits_composite TypeCode.begin_
    (.cons (.pointerInto rfl FieldCarries.fills_store fun n _ => carries_uint16 n)
    (.cons (.always (carries_uint32 _))
    (.cons (.always (carries_uint32 _))
    (.cons (.always (carries_uint32 _))
    (.cons (.withDefault (carries_uint32 _))
    (.cons (.omittable PerformBegin.offeredCapabilities rfl (carries_symbols hoffered))
    (.cons (.omittable PerformBegin.desiredCapabilities rfl (carries_symbols hdesired))
    (.cons (.pointer PerformBegin.properties (fun v b => { b with properties := v })
      rfl fun m hm => carries_symbolMap (hprops m hm))
    .nil)))))))) ?_
  simp only [applyAll, List.map, foldl, PerformBegin.zero, PerformBegin.norm, ite_isEmpty, ite_beq, Option.or_none]

theorem transmits_attach {a : PerformAttach} (ha : a.codable = true) :
    Transmits a.marshal PerformAttach.unmarshal .zero a.encode a.norm := by
  simp only [PerformAttach.codable, Bool.and_eq_true, Option.all_eq_true] at ha
  obtain ⟨⟨⟨⟨⟨⟨hname, hsource⟩, htarget⟩, hunsettled⟩, hoffered⟩, hdesired⟩, hprops⟩ := ha
  obtain ⟨updateSource, hupdateSource, hsourceField⟩ :=
    FieldCarries.pointerRecord PerformAttach.source (fun v a => { a with source := v })
      rfl fun s hs => transmits_source (hsource s hs)
  obtain ⟨updateTarget, hupdateTarget, htargetField⟩ :=
    FieldCarries.pointerRecord PerformAttach.target (fun v a => { a with target := v })
      rfl fun t ht => transmits_target (htarget t ht)
  refine transmits_composite TypeCode.attach
    (.cons (.always (carries_string hname))
    (.cons (.always (carries_uint32 _))
    (.cons (.alwaysAssigned (carries_bool _))
    (.cons (.pointerInto rfl FieldCarries.fills_storeAlways fun n _ => carries_ubyte n)
    (.cons (.pointerInto rfl FieldCarries.fills_storeAlways fun n _ => carries_ubyte n)
    (.cons hsourceField
    (.cons htargetField
    (.cons (.omittable PerformAttach.unsettled rfl (carries_unsettled hunsettled))
    (.cons (.omittable PerformAttach.incompleteUnsettled rfl (carries_bool _))
    (.cons (.omittable PerformAttach.initialDeliveryCount rfl (carries_uint32 _))
    (.cons (.omittable PerformAttach.maxMessageSize rfl (carries_uint64 _))
    (.cons (.omittable PerformAttach.offeredCapabilities rfl (carries_symbols hoffered))
    (.cons (.omittable PerformAttach.desiredCapabilities rfl (carries_symbols hdesired))
    (.cons (.omittable PerformAttach.properties rfl (carries_symbolMap hprops))
    .nil)))))))))))))) ?_
  simp only [applyAll, List.map, foldl,
    PerformAttach.zero, PerformAttach.norm, hupdateSource, hupdateTarget, ite_isEmpty,
    ite_isEmpty_norm, ite_isEmpty_normUnsettled, ite_beq, ite_not, Option.or_none]

theorem transmits_flow {f : PerformFlow} (hf : f.codable = true) :
    Transmits f.marshal PerformFlow.unmarshal .zero f.encode f.norm := by
  refine transmits_composite TypeCode.flow
    (.cons (.pointer (f := id) PerformFlow.nextIncomingID (fun v f => { f with nextIncomingID := v })
      rfl fun n _ => carries_uint32 n)
    (.cons (.always (carries_uint32 _))
    (.cons (.always (carries_uint32 _))
    (.cons (.always (carries_uint32 _))
    (.cons (.pointer (f := id) PerformFlow.handle (fun v f => { f with handle := v })
      rfl fun n _ => carries_uint32 n)
    (.cons (.pointer (f := id) PerformFlow.deliveryCount (fun v f => { f with deliveryCount := v })
      rfl fun n _ => carries_uint32 n)
    (.cons (.pointer (f := id) PerformFlow.linkCredit (fun v f => { f with linkCredit := v })
      rfl fun n _ => carries_uint32 n)
    (.cons (.pointer (f := id) PerformFlow.available (fun v f => { f with available := v })
      rfl fun n _ => carries_uint32 n)
    (.cons (.omittable PerformFlow.drain rfl (carries_bool _))
    (.cons (.omittable PerformFlow.echo rfl (carries_bool _))
    (.cons (.omittable PerformFlow.properties rfl (carries_symbolMap hf))
    .nil))))))))))) ?_
  simp only [applyAll, List.map, foldl,
    PerformFlow.zero, PerformFlow.norm, ite_isEmpty_norm, ite_not, Option.map_id, Option.or_none,
    id_eq]

/-- The tag of a transfer is left out when it is empty. -/
theorem ite_deliveryTag (tag : Option Bytes) :
    (if (tag.getD []).isEmpty = true then none else some (tag.getD []))
      = tag.filter fun t => !t.isEmpty := by
  rcases tag with - | (- | ⟨b, t⟩) <;> rfl

/-- The composite of a transfer, without its payload. -/
theorem transmits_transferComposite {t : PerformTransfer} (ht : t.codable = true) :
    Transmits t.marshalComposite PerformTransfer.unmarshalComposite .zero t.encodeComposite
      { t.norm with payload := [] } := by
  simp only [PerformTransfer.codable, Option.all_eq_true] at ht
  refine transmits_composite TypeCode.transfer
    (.cons (.always (carries_uint32 _))
    (.cons (.pointer (f := id) PerformTransfer.deliveryID (fun v t => { t with deliveryID := v })
      rfl fun n _ => carries_uint32 n)
    (.cons (.omittablePointer PerformTransfer.deliveryTag (fun v t => { t with deliveryTag := v })
      rfl (carries_binary _))
    (.cons (.pointer (f := id) PerformTransfer.messageFormat
      (fun v t => { t with messageFormat := v }) rfl fun n _ => carries_uint32 n)
    (.cons (.omittable PerformTransfer.settled rfl (carries_bool _))
    (.cons (.omittable PerformTransfer.more rfl (carries_bool _))
    (.cons (.pointerInto rfl FieldCarries.fills_storeAlways fun n _ => carries_ubyte n)
    (.cons (.pointer PerformTransfer.state (fun v t => { t with state := v })
      rfl fun s hs => carries_state (ht s hs))
    (.cons (.omittable PerformTransfer.resume rfl (carries_bool _))
    (.cons (.omittable PerformTransfer.aborted rfl (carries_bool _))
    (.cons (.omittable PerformTransfer.batchable rfl (carries_bool _))
    .nil))))))))))) ?_
  simp only [applyAll, List.map, foldl,
    PerformTransfer.zero, PerformTransfer.norm, ite_not, ite_deliveryTag, Option.map_id,
    Option.or_none, id_eq]

theorem transmits_disposition {d : PerformDisposition} (hd : d.codable = true) :
    Transmits d.marshal PerformDisposition.unmarshal .zero d.encode d.norm := by
  simp only [PerformDisposition.codable, Option.all_eq_true] at hd
  refine transmits_composite TypeCode.disposition
    (.cons (.alwaysAssigned (carries_bool _))
    (.cons (.always (carries_uint32 _))
    (.cons (.pointer (f := id) PerformDisposition.last (fun v d => { d with last := v })
      rfl fun n _ => carries_uint32 n)
    (.cons (.omittable PerformDisposition.settled rfl (carries_bool _))
    (.cons (.pointer PerformDisposition.state (fun v d => { d with state := v })
      rfl fun s hs => carries_state (hd s hs))
    (.cons (.omittable PerformDisposition.batchable rfl (carries_bool _))
    .nil)))))) ?_
  simp only [applyAll, List.map, foldl,
    PerformDisposition.zero, PerformDisposition.norm, ite_not, Option.map_id, Option.or_none, id_eq]

theorem transmits_detach {d : PerformDetach} (hd : d.error.all codableError = true) :
    Transmits d.marshal PerformDetach.unmarshal .zero d.encode d.norm := by
  rw [Option.all_eq_true] at hd
  obtain ⟨update, hupdate, hfield⟩ := FieldCarries.pointerRecord PerformDetach.error
    (fun v d => { d with error := v }) rfl fun e he => transmits_error (hd e he)
  refine transmits_composite TypeCode.detach
    (.cons (.always (carries_uint32 _))
    (.cons (.omittable PerformDetach.closed rfl (carries_bool _))
    (.cons hfield .nil))) ?_
  simp only [applyAll, List.map, foldl, PerformDetach.zero, PerformDetach.norm, ite_not, hupdate]

theorem transmits_end {e : PerformEnd} (he : e.error.all codableError = true) :
    Transmits e.marshal PerformEnd.unmarshal ⟨none⟩ e.encode ⟨e.error.map normError⟩ := by
  rw [Option.all_eq_true] at he
  obtain ⟨update, hupdate, hfield⟩ := FieldCarries.pointerRecord PerformEnd.error
    (fun v d => { d with error := v }) rfl fun e' he' => transmits_error (he e' he')
  exact transmits_composite TypeCode.end_ (.cons hfield .nil) (hupdate _ rfl)

theorem transmits_close {c : PerformClose} (hc : c.error.all codableError = true) :
    Transmits c.marshal PerformClose.unmarshal ⟨none⟩ c.encode ⟨c.error.map normError⟩ := by
  rw [Option.all_eq_true] at hc
  obtain ⟨update, hupdate, hfield⟩ := FieldCarries.pointerRecord PerformClose.error
    (fun v d => { d with error := v }) rfl fun e he => transmits_error (hc e he)
  exact transmits_composite TypeCode.close (.cons hfield .nil) (hupdate _ rfl)

theorem transmits_saslMechanisms {sm : SASLMechanisms} (h : codableSymbols sm.mechanisms = true) :
    Transmits sm.marshal SASLMechanisms.unmarshal ⟨[]⟩ sm.encode sm :=
  transmits_composite saslMechanism (.cons (.always (carries_symbols h)) .nil) rfl

theorem transmits_saslChallenge (sc : SASLChallenge) :
    Transmits sc.marshal SASLChallenge.unmarshal ⟨[]⟩ sc.encode sc :=
  transmits_composite TypeCode.saslChallenge (.cons (.always (carries_binary _)) .nil) rfl

theorem transmits_saslOutcome (so : SASLOutcome) :
    Transmits so.marshal SASLOutcome.unmarshal ⟨0, []⟩ so.encode so := by
  refine transmits_composite TypeCode.saslOutcome
    (.cons (.alwaysAssigned (carries_ubyte _))
    (.cons (.omittable SASLOutcome.additionalData rfl (carries_binary _))
    .nil)) ?_
  simp only [applyAll, List.map, foldl, ite_isEmpty]

/-- What follows the composite is the payload. -/
theorem reads_transfer {t : PerformTransfer} (ht : t.codable = true) (hlt : t.encodeComposite.length < 2 ^ 32) :
    Reads (runNew .zero PerformTransfer.unmarshal) t.encodeComposite t.payload t.norm := by
  obtain ⟨put, hput, hfills⟩ := (transmits_transferComposite ht).fills
  have hpayload : Fills PerformTransfer.unmarshalPayload [] t.payload
      fun s => { s with payload := t.payload } :=
    .onBuffer reads_bytes fun _ _ _ _ => rfl
  have hall : Fills PerformTransfer.unmarshal (t.encodeComposite ++ []) t.payload _ :=
    (hfills hlt ([] ++ t.payload)).bind hpayload
  refine hall.runNew.congr (List.append_nil _) ?_
  rw [hput]
  rfl

/-! ## Bodies -/

/-- The performative of a body and the payload behind it. -/
def FrameBody.split : FrameBody → Bytes × Bytes
  | .transfer b => (b.encodeComposite, b.payload)
  | b => (b.encode, [])

theorem FrameBody.split_append (b : FrameBody) : b.split.1 ++ b.split.2 = b.encode := by
  cases b <;> first | rfl | exact List.append_nil _

theorem reads_parseBody {code : UInt8} {tail : Bytes}
    (h : Reads (bodyReader code) (0x0 :: smallUlong :: code :: tail) rest b) :
    Reads parseBody (0x0 :: smallUlong :: code :: tail) rest b := by
  refine .bind_peek reads_bytes (.bind_peek reads_len ?_)
  rw [if_neg (by simp)]
  refine .bind_peek (.pure 0x0 _) (.bind_peek (.pure smallUlong _) ?_)
  rw [if_neg (by simp)]
  exact .bind_peek (.pure code _) h

/-- A body that is a composite goes to the decoder that the descriptor selects. -/
theorem Transmits.parseBody {σ : Type} {write : BufM Unit} {m : IntoM σ Unit} {zero a : σ} {code : UInt8}
    {fields : List (Option Bytes)} {wrap : σ → FrameBody} (h : Transmits write m zero (encodeComposite code fields) a)
    (hcode : bodyReader code = wrap <$> runNew zero m) (hlt : (encodeComposite code fields).length < 2 ^ 32) :
    Reads GoAmqp.parseBody (encodeComposite code fields) [] (wrap a) := by
  refine reads_parseBody ?_
  rw [hcode]
  exact .map wrap (h.reads hlt)

theorem writes_body (hb : b.codable = true) (hlt : b.split.1.length < 2 ^ 32) : Writes b.marshal b.encode := by
  cases b with
  | open_ b => exact (transmits_open hb).writes hlt
  | begin_ b => exact (transmits_begin hb).writes hlt
  | attach b => exact (transmits_attach hb).writes hlt
  | flow b => exact (transmits_flow hb).writes hlt
  | transfer b => exact ((transmits_transferComposite hb).writes hlt).bind (.appendBytes _)
  | disposition b => exact (transmits_disposition hb).writes hlt
  | detach b => exact (transmits_detach hb).writes hlt
  | end_ b => exact (transmits_end hb).writes hlt
  | close b => exact (transmits_close hb).writes hlt
  | saslMechanisms b => exact (transmits_saslMechanisms hb).writes hlt
  | saslChallenge b => exact (transmits_saslChallenge b).writes hlt
  | saslOutcome b => exact (transmits_saslOutcome b).writes hlt
  | saslInit | saslResponse => exact absurd hb (by simp [FrameBody.codable])

theorem reads_body (hb : b.codable = true) (hlt : b.split.1.length < 2 ^ 32) :
    Reads parseBody b.split.1 b.split.2 b.norm := by
  cases b with
  | open_ b => exact (transmits_open hb).parseBody rfl hlt
  | begin_ b => exact (transmits_begin hb).parseBody rfl hlt
  | attach b => exact (transmits_attach hb).parseBody rfl hlt
  | flow b => exact (transmits_flow hb).parseBody rfl hlt
  | transfer b => exact reads_parseBody (.map FrameBody.transfer (reads_transfer hb hlt))
  | disposition b => exact (transmits_disposition hb).parseBody rfl hlt
  | detach b => exact (transmits_detach hb).parseBody rfl hlt
  | end_ b => exact (transmits_end hb).parseBody rfl hlt
  | close b => exact (transmits_close hb).parseBody rfl hlt
  | saslMechanisms b => exact (transmits_saslMechanisms hb).parseBody rfl hlt
  | saslChallenge b => exact (transmits_saslChallenge b).parseBody rfl hlt
  | saslOutcome b => exact (transmits_saslOutcome b).parseBody rfl hlt
  | saslInit | saslResponse => exact absurd hb (by simp [FrameBody.codable])

/-! ## Frames -/

/-- The frame header, with the size of the whole frame. -/
def Frame.encodeHeader (fr : Frame) : Bytes :=
  be32 (UInt32.ofNat (fr.body.encode.length + 8)) ++ (2 :: fr.type_ :: be16 fr.channel)

theorem Frame.length_encodeHeader (fr : Frame) : fr.encodeHeader.length = 8 := rfl

theorem run_writeSize (post : Bytes) :
    writeSize.run (.new ([0, 0, 0, 0] ++ post)) =
      if post.length + 4 > 4294967295 then .error (.err "frame too large") (.new ([0, 0, 0, 0] ++ post))
      else .ok () (.new (be32 (UInt32.ofNat (post.length + 4)) ++ post)) := by
  have hbytes : bytes.run (.new ([0, 0, 0, 0] ++ post))
      = .ok ([0, 0, 0, 0] ++ post) (.new ([0, 0, 0, 0] ++ post)) := by
    have hreads : Reads bytes [] ([0, 0, 0, 0] ++ post) ([0, 0, 0, 0] ++ post) := reads_bytes
    exact reads_run_new hreads
  have hlen : ([0, 0, 0, 0] ++ post).length = post.length + 4 := by simp
  have hleft : (Buffer.new ([0, 0, 0, 0] ++ post)).b.length - (Buffer.new ([0, 0, 0, 0] ++ post)).i
      = post.length + 4 := hlen
  rw [writeSize, run_len_bind]
  by_cases hlarge : post.length + 4 > 4294967295
  · rw [if_pos hlarge, if_pos (by rw [hleft]; exact hlarge)]
    rfl
  · rw [if_neg hlarge, if_neg (by rw [hleft]; exact hlarge), EStateM.run_bind, hbytes]
    dsimp only
    rw [hlen]
    exact run_putUint32 (w := new []) (Nat.le_refl 0) [] post _

/-- `Write` succeeds exactly when the size of the frame fits in its field. -/
theorem run_write {fr : Frame} (hwrites : Writes fr.body.marshal fr.body.encode) :
    fr.write.run (.new []) =
      if fr.body.encode.length + 8 > 4294967295 then
        .error (.err "frame too large")
          (.new ([0, 0, 0, 0] ++ (2 :: fr.type_ :: (be16 fr.channel ++ fr.body.encode))))
      else .ok () (.new (fr.encodeHeader ++ fr.body.encode)) := by
  have hw0 : (new []).WF := Nat.le_refl 0
  have hw1 := hw0.append [0, 0, 0, 0, 2, fr.type_]
  have hw2 := hw1.append (be16 fr.channel)
  have hlen : (2 :: fr.type_ :: (be16 fr.channel ++ fr.body.encode)).length + 4
      = fr.body.encode.length + 8 := by
    simp only [length_append, length_cons, length_be16]
    omega
  rw [Frame.write, (Writes.appendBytes _).run_bind hw0, appendUint16,
    (Writes.appendBytes _).run_bind hw1, hwrites.run_bind hw2, append_append, append_append]
  show writeSize.run (.new ([0, 0, 0, 0] ++ (2 :: fr.type_ :: (be16 fr.channel ++ fr.body.encode)))) = _
  rw [run_writeSize, hlen, Frame.encodeHeader, append_assoc]
  rfl

/-- The eight bytes of a header. -/
theorem ofBytes_header (size : UInt32) (dataOffset frameType : UInt8) (channel : UInt16) :
    Header.ofBytes (be32 size ++ (dataOffset :: frameType :: be16 channel))
      = pure ⟨size, dataOffset, frameType, channel⟩ := by
  have hchannel : bigEndian 2 (be16 channel ++ []) = pure channel.toNat := by
    rw [bigEndian_append (length_be16 channel), beNat_be16]
  rw [List.append_nil] at hchannel
  rw [Header.ofBytes, bigEndian_append (length_be32 size), beNat_be32]
  show (bigEndian 2 (be16 channel) >>= fun c =>
    pure ⟨UInt32.ofNat size.toNat, dataOffset, frameType, UInt16.ofNat c⟩ : BufM Header) = _
  rw [hchannel, UInt32.ofNat_toNat]
  show (pure ⟨size, dataOffset, frameType, UInt16.ofNat channel.toNat⟩ : BufM Header) = _
  rw [UInt16.ofNat_toNat]

/-- `parseHeader`, with the header taken from the buffer. -/
theorem run_parseHeader {size : UInt32} {dataOffset frameType : UInt8} {channel : UInt16} {r : Buffer}
    (hwf : r.WF) (hunread : r.unread = be32 size ++ (dataOffset :: frameType :: be16 channel) ++ rest) :
    parseHeader.run r =
      if size < headerSize then
        .error (.err (s!"received frame header with invalid size {size.toNat}")) (r.advance 8)
      else if dataOffset < 2 then
        .error (.err (s!"received frame header with invalid data offset {dataOffset.toNat}")) (r.advance 8)
      else .ok ⟨size, dataOffset, frameType, channel⟩ (r.advance 8) := by
  have hnext := reads_next (be32 size ++ (dataOffset :: frameType :: be16 channel)) r hwf hunread
  show ((next (be32 size ++ (dataOffset :: frameType :: be16 channel)).length) >>= _).run r = _
  rw [EStateM.run_bind, hnext]
  show (Header.ofBytes (be32 size ++ (dataOffset :: frameType :: be16 channel)) >>= _).run (r.advance 8) = _
  rw [ofBytes_header]
  show EStateM.run (if size < headerSize then
      fail (s!"received frame header with invalid size {size.toNat}")
    else if dataOffset < 2 then
      fail (s!"received frame header with invalid data offset {dataOffset.toNat}")
    else (pure ⟨size, dataOffset, frameType, channel⟩ : BufM Header)) (r.advance 8) = _
  split_ifs <;> rfl

theorem reads_parseHeader {size : UInt32} {dataOffset frameType : UInt8} {channel : UInt16}
    (hsize : ¬ size < headerSize) (hoffset : ¬ dataOffset < 2) :
    Reads parseHeader (be32 size ++ (dataOffset :: frameType :: be16 channel)) rest
      ⟨size, dataOffset, frameType, channel⟩ := by
  intro r hwf hunread
  rw [run_parseHeader hwf hunread, if_neg hsize, if_neg hoffset]
  rfl

theorem FrameBody.length_split_le (b : FrameBody) : b.split.1.length ≤ b.encode.length := by
  rw [← b.split_append, length_append]
  omega

/-- **Frame round trip.** A codable frame of less than 2^32 bytes is written without error; its header
    is parsed back with the number of bytes written as its size, data offset 2 and the frame's type
    and channel; and the body parsed from the rest is the normal form of the body written. -/
theorem parseBody_write (fr : Frame) (hbody : fr.body.codable = true)
    (hlen : fr.body.encode.length + 8 < 2 ^ 32) :
    ∃ (w : Buffer) (fh : Header) (r : Buffer), fr.write.run (.new []) = .ok () w ∧ parseHeader.run w = .ok fh r ∧
      fh.size.toNat = w.unread.length ∧ fh.dataOffset = 2 ∧ fh.frameType = fr.type_ ∧
      fh.channel = fr.channel ∧
      ∃ r', parseBody.run r = .ok fr.body.norm r' := by
  have hsplit := fr.body.length_split_le
  have hwrites := writes_body hbody (by omega)
  have hsize : (UInt32.ofNat (fr.body.encode.length + 8)).toNat = fr.body.encode.length + 8 := toNat_ofNat32 hlen
  have hheader : Reads parseHeader fr.encodeHeader fr.body.encode
      ⟨UInt32.ofNat (fr.body.encode.length + 8), 2, fr.type_, fr.channel⟩ := by
    refine reads_parseHeader ?_ (by decide)
    rw [UInt32.lt_iff_toNat_lt, hsize]
    show ¬ fr.body.encode.length + 8 < 8
    omega
  refine ⟨.new (fr.encodeHeader ++ fr.body.encode), _, _, ?_, reads_run_new hheader, ?_, rfl, rfl, rfl,
    _, reads_body hbody (by omega) _ ?_ ?_⟩
  · rw [run_write hwrites, if_neg (by omega)]
  · rw [hsize, length_unread]
    simp only [new, length_append, Frame.length_encodeHeader]
    omega
  · show fr.encodeHeader.length ≤ (fr.encodeHeader ++ fr.body.encode).length
    rw [length_append]
    omega
  · rw [FrameBody.split_append]
    exact drop_left

/-- A flow frame with properties, as an instance. -/
theorem parseBody_write_flow :
    ∃ (w : Buffer) (fh : Header) (r : Buffer),
      (Frame.mk 0 7 (.flow { PerformFlow.zero with
        nextIncomingID := some 300, linkCredit := some 0, drain := true,
        properties := [([0x6b], .int 5)] })).write.run (.new []) = .ok () w ∧
      parseHeader.run w = .ok fh r ∧
      fh.size.toNat = w.unread.length ∧ fh.dataOffset = 2 ∧ fh.frameType = 0 ∧ fh.channel = 7 ∧
      ∃ r', parseBody.run r = .ok (.flow { PerformFlow.zero with
        nextIncomingID := some 300, linkCredit := some 0, drain := true,
        properties := [([0x6b], .int64 5)] }) r' :=
  parseBody_write _ (by decide) (by decide)

/-- A transfer whose payload does not fit in a frame is rejected by `Write`. -/
theorem write_transfer_tooLarge (type_ : UInt8) (channel : UInt16) (payload : Bytes)
    (hlarge : 2 ^ 32 ≤ payload.length) :
    ∃ r, (Frame.mk type_ channel (.transfer { PerformTransfer.zero with payload := payload })).write.run
      (.new []) = .error (.err "frame too large") r := by
  have hwrites : Writes (FrameBody.transfer { PerformTransfer.zero with payload := payload }).marshal
      (FrameBody.transfer { PerformTransfer.zero with payload := payload }).encode :=
    writes_body rfl (show PerformTransfer.zero.encodeComposite.length < 2 ^ 32 by decide)
  have hencode : payload.length
      ≤ (FrameBody.transfer { PerformTransfer.zero with payload := payload }).encode.length := by
    show payload.length ≤ (PerformTransfer.zero.encodeComposite ++ payload).length
    rw [length_append]
    omega
  refine ⟨_, (run_write hwrites).trans (if_pos ?_)⟩
  dsimp only at hencode ⊢
  omega

/-- A codable transfer with a payload of 2^32 bytes cannot be written. -/
theorem write_large_payload :
    (FrameBody.transfer { PerformTransfer.zero with payload := replicate (2 ^ 32) 0 }).codable
      = true ∧
    ∃ r, (Frame.mk 0 0 (.transfer { PerformTransfer.zero with
      payload := replicate (2 ^ 32) 0 })).write.run (.new [])
        = .error (.err "frame too large") r :=
  ⟨rfl, write_transfer_tooLarge 0 0 _ (Nat.le_of_eq length_replicate.symm)⟩

end GoAmqp
