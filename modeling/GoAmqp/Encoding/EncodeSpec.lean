import GoAmqp.Encoding.Encode
import GoAmqp.Encoding.Wire
import Mathlib.Data.List.Forall2

set_option autoImplicit false

/-! # The encoder writes the wire format

`writes_marshal`: on a codable value whose encoding is shorter than 2^32 bytes, `marshal` succeeds on
every buffer and appends exactly `encode v`. The back-patched size fields are handled once, in
`run_putUint32`; the rest follows the structure of the encoder. -/

namespace GoAmqp

open Lib Buffer TypeCode List

variable {w : Buffer} {bs : List (Option Bytes)} {contents : Bytes} {fields : List MarshalField}

/-! ## Scalars -/

theorem writes_writeInt32 (n : Int32) : Writes (writeInt32 n) (encodeInt32 n) := by
  unfold writeInt32 encodeInt32
  split
  · exact .appendBytes _
  · exact (Writes.appendBytes [TypeCode.int]).bind (Writes.appendBytes _)

theorem writes_writeInt64 (n : Int64) : Writes (writeInt64 n) (encodeInt64 n) := by
  unfold writeInt64 encodeInt64
  split
  · exact .appendBytes _
  · exact (Writes.appendBytes [long]).bind (Writes.appendBytes _)

theorem writes_writeUint32 (n : UInt32) : Writes (writeUint32 n) (encodeUint32 n) := by
  unfold writeUint32 encodeUint32
  split
  · exact .appendBytes _
  split
  · exact .appendBytes _
  · exact (Writes.appendBytes [TypeCode.uint]).bind (Writes.appendBytes _)

theorem writes_writeUint64 (n : UInt64) : Writes (writeUint64 n) (encodeUint64 n) := by
  unfold writeUint64 encodeUint64
  split
  · exact .appendBytes _
  split
  · exact .appendBytes _
  · exact (Writes.appendBytes [TypeCode.ulong]).bind (Writes.appendBytes _)

theorem writes_writeBool (b : Bool) : Writes (writeBool b) (encodeBool b) := .appendBytes _

theorem writes_writeTimestamp (t : Time) : Writes (writeTimestamp t) (encodeTimestamp t) :=
  (Writes.appendBytes [timestamp]).bind (Writes.appendBytes _)

theorem writes_marshalUUID (u : UUID) : Writes (marshalUUID u) (encodeUUID u) :=
  (Writes.appendBytes [uuid]).bind (Writes.appendBytes _)

theorem writes_writeVariable (code8 code32 : UInt8) (s : Bytes) (h : (encodeVariable code8 code32 s).length < 2 ^ 32) :
    Writes (writeVariable code8 code32 s) (encodeVariable code8 code32 s) := by
  unfold writeVariable
  unfold encodeVariable at h ⊢
  split
  · exact (Writes.appendBytes [code8, UInt8.ofNat s.length]).bind (Writes.appendBytes _)
  · next hlong =>
    -- five bytes of header keep the contents below the encoder's own limit
    have hlt : s.length < 4294967295 := by
      rw [if_neg hlong] at h
      simp only [length_cons, length_append, length_be32] at h
      omega
    rw [if_pos hlt]
    exact (Writes.appendBytes [code32]).bind
      ((Writes.appendBytes (be32 (UInt32.ofNat s.length))).bind (Writes.appendBytes _))

theorem writes_writeString (s : Bytes) (hs : validUtf8 s = true)
    (h : (encodeString s).length < 2 ^ 32) : Writes (writeString s) (encodeString s) := by
  unfold writeString
  rw [hs]
  exact writes_writeVariable _ _ s h

theorem writes_writeBinary (b : Bytes) (h : (encodeBinary b).length < 2 ^ 32) :
    Writes (writeBinary b) (encodeBinary b) :=
  writes_writeVariable _ _ b h

theorem writes_marshalSymbol (s : Bytes) (h : (encodeSymbol s).length < 2 ^ 32) :
    Writes (marshalSymbol s) (encodeSymbol s) :=
  writes_writeVariable _ _ s h

/-! ## Back-patched sizes -/

theorem run_len (w : Buffer) : len.run w = .ok (w.b.length - w.i) w := rfl

/-- Overwriting a four-byte field that lies `pre` bytes behind the end of the old contents. -/
theorem run_putUint32 (hw : w.WF) (pre post : Bytes) (n : UInt32) :
    (putUint32 (w.b.length - w.i + pre.length) n).run (w.append (pre ++ ([0, 0, 0, 0] ++ post)))
      = .ok () (w.append (pre ++ (be32 n ++ post))) := by
  have hi : w.i ≤ w.b.length := hw
  have hat : w.i + (w.b.length - w.i + pre.length) = (w.b ++ pre).length := by
    simp only [length_append]
    omega
  simp only [putUint32, append, EStateM.run_bind, EStateM.run_get, hat]
  have hfit : (w.b ++ pre).length + 4 ≤ (w.b ++ (pre ++ ([0, 0, 0, 0] ++ post))).length := by
    simp only [length_append, length_cons, length_nil]
    omega
  have htake : (w.b ++ (pre ++ ([0, 0, 0, 0] ++ post))).take (w.b ++ pre).length = w.b ++ pre := by
    rw [← append_assoc, take_left]
  have hdrop : (w.b ++ (pre ++ ([0, 0, 0, 0] ++ post))).drop ((w.b ++ pre).length + 4) = post := by
    rw [← append_assoc, ← drop_drop, drop_left]
    rfl
  rw [if_pos hfit, htake, hdrop, EStateM.run_set]
  simp only [append_assoc]

theorem Writes.run_bind {m : BufM Unit} {f : Unit → BufM Unit} {bs : Bytes} (h : Writes m bs) (hw : w.WF) :
    (m >>= f).run w = (f ()).run (w.append bs) := by
  rw [EStateM.run_bind, h w hw]

theorem run_len_bind (f : Nat → BufM Unit) (w : Buffer) : (len >>= f).run w = (f (w.b.length - w.i)).run w := rfl

/-- The unread length after an append. -/
theorem length_append_sub (hw : w.WF) (bs : Bytes) :
    (w.append bs).b.length - (w.append bs).i = w.b.length - w.i + bs.length := by
  have hi : w.i ≤ w.b.length := hw
  simp only [append, length_append]
  omega

theorem writes_marshalList {length : Nat} {elements : BufM Unit} (h : Writes elements contents) :
    Writes (marshalList length elements) (encodeList length contents) := by
  unfold marshalList encodeList
  split
  · exact .appendBytes _
  intro w hw
  have hw1 := hw.append [list32]
  have hw2 := hw1.append [0, 0, 0, 0]
  have hw3 := hw2.append (be32 (UInt32.ofNat length))
  rw [appendByte, (Writes.appendBytes _).run_bind hw, run_len_bind,
    (Writes.appendBytes _).run_bind hw1, appendUint32, (Writes.appendBytes _).run_bind hw2,
    h.run_bind hw3, run_len_bind]
  simp only [append_append, append_assoc, length_append_sub hw]
  have hsize : w.b.length - w.i + ([list32] ++ ([0, 0, 0, 0]
      ++ (be32 (UInt32.ofNat length) ++ contents))).length
      - (w.b.length - w.i + [list32].length + 4) = contents.length + 4 := by
    simp only [length_append, length_cons, length_nil, length_be32]
    omega
  rw [hsize]
  exact run_putUint32 hw [list32] (be32 (UInt32.ofNat length) ++ contents) _

theorem writes_writeMap {length : Nat} {entries : BufM Unit} (h : Writes entries contents)
    (hlen : length * 2 ≤ 4294967295 - 4) : Writes (writeMap length entries) (encodeMap length contents) := by
  unfold writeMap
  intro w hw
  have hw1 := hw.append [map32, 0, 0, 0, 0, 0, 0, 0, 0]
  rw [run_len_bind, (Writes.appendBytes _).run_bind hw, h.run_bind hw1]
  simp only [if_neg (show ¬ length * 2 > 4294967295 - 4 by omega)]
  rw [run_len_bind]
  simp only [append_append, length_append_sub hw]
  -- the size is patched first, one byte behind the start, then the count behind it
  have hsize : w.b.length - w.i + ([map32, 0, 0, 0, 0, 0, 0, 0, 0] ++ contents).length
      - (w.b.length - w.i) - 1 - 4 = contents.length + 4 := by
    simp only [length_append, length_cons, length_nil]
    omega
  rw [hsize, EStateM.run_bind]
  have hpatched : (putUint32 (w.b.length - w.i + 1) (UInt32.ofNat (contents.length + 4))).run
      (w.append ([map32, 0, 0, 0, 0, 0, 0, 0, 0] ++ contents))
      = .ok () (w.append ([map32] ++ (be32 (UInt32.ofNat (contents.length + 4))
          ++ ([0, 0, 0, 0] ++ contents)))) :=
    run_putUint32 hw [map32] ([0, 0, 0, 0] ++ contents) _
  rw [hpatched]
  exact run_putUint32 hw (map32 :: be32 (UInt32.ofNat (contents.length + 4))) contents _

/-! ## Composites -/

/-- The running index of `lastSetIdx`, started at `k` with `acc` as the last set index so far. -/
theorem foldl_lastSetIdx (h : fields.map MarshalField.omitted = bs.map Option.isNone) (k : Nat) (acc : Int) :
    (fields.zipIdx k).foldl (fun last p => if p.1.omitted then last else (p.2 : Int)) acc
      = if (trimFields bs).isEmpty then acc else (k : Int) + (trimFields bs).length - 1 := by
  induction bs generalizing fields k acc with
  | nil =>
    have hnil : fields = [] := by simpa using h
    subst hnil
    rfl
  | cons b bs ih =>
    cases fields with
    | nil => exact absurd h (by simp)
    | cons f fields =>
      simp only [map_cons, List.cons.injEq] at h
      obtain ⟨hf, hfs⟩ := h
      rw [zipIdx_cons, foldl_cons, ih hfs]
      cases b with
      | none =>
        rw [Option.isNone_none] at hf
        cases ht : trimFields bs with
        | nil => simp [trimFields, hf, ht]
        | cons t ts => simp [trimFields, ht]; omega
      | some x =>
        rw [Option.isNone_some] at hf
        cases ht : trimFields bs with
        | nil => simp [trimFields, hf, ht]
        | cons t ts => simp [trimFields, ht]; omega

theorem lastSetIdx_eq (h : fields.map MarshalField.omitted = bs.map Option.isNone) :
    lastSetIdx fields = (trimFields bs).length - 1 := by
  rw [lastSetIdx, foldl_lastSetIdx h]
  split
  · next hnil => simp [isEmpty_iff.mp hnil]
  · simp

/-- A field as the encoder is given it and as it is on the wire. -/
def FieldWrites (f : MarshalField) (b : Option Bytes) : Prop :=
  match b with
  | none => f.omitted = true
  | some bs => f.omitted = false ∧ (bs.length < 2 ^ 32 → Writes f.value bs)

theorem FieldWrites.omitted {f : MarshalField} {b : Option Bytes} (h : FieldWrites f b) : f.omitted = b.isNone := by
  cases b with
  | none => exact h
  | some bs => exact h.1

theorem FieldWrites.always {value : BufM Unit} {bs : Bytes}
    (h : bs.length < 2 ^ 32 → Writes value bs) : FieldWrites ⟨value, false⟩ (some bs) := ⟨rfl, h⟩

/-- A field with an `Omit` condition. -/
theorem FieldWrites.omittable {value : BufM Unit} {omitted : Bool} {bs : Bytes}
    (h : omitted = false → bs.length < 2 ^ 32 → Writes value bs) :
    FieldWrites ⟨value, omitted⟩ (fieldUnless omitted bs) := by
  cases omitted with
  | true => rfl
  | false => exact ⟨rfl, h rfl⟩

theorem writes_marshalFields (h : Forall₂ FieldWrites fields bs) (hfits : ∀ x, some x ∈ bs → x.length < 2 ^ 32) :
    Writes (marshalFields fields) (bs.flatMap encodeField) := by
  induction h with
  | nil => exact .pure
  | @cons f b fields bs hf hfs ih =>
    rw [flatMap_cons]
    refine .bind ?_ (ih fun x hx => hfits x (mem_cons_of_mem _ hx))
    unfold MarshalField.write
    cases b with
    | none =>
      simp only [FieldWrites] at hf
      rw [if_pos hf]
      exact .appendBytes _
    | some x =>
      simp only [FieldWrites] at hf
      rw [if_neg (by simp [hf.1])]
      exact hf.2 (hfits x (mem_cons_self ..))

/-- The descriptor, then the first `n` fields as a list, where the last set field is the `n`-th. The
    size is written modulo 2^32. -/
theorem writes_marshalComposite_of_last (code : UInt8) {n : Nat} (hlast : lastSetIdx fields = n - 1)
    (hfields : Writes (marshalFields (fields.take n)) contents) :
    Writes (marshalComposite code fields)
      ([0x0, smallUlong, code] ++ encodeList n contents) := by
  unfold marshalComposite
  simp only [encodeList]
  split
  · next hnone =>
    rw [if_pos (by omega)]
    exact .appendBytes _
  next hsome =>
  have hcount : (lastSetIdx fields + 1).toNat = n := by omega
  rw [if_neg (by omega), hcount]
  intro w hw
  have hw1 := hw.append [0x0, smallUlong, code]
  have hw2 := hw1.append [list32]
  have hw3 := hw2.append [0, 0, 0, 0]
  have hw4 := hw3.append (be32 (UInt32.ofNat n))
  rw [writeDescriptor, (Writes.appendBytes _).run_bind hw, appendByte,
    (Writes.appendBytes _).run_bind hw1, run_len_bind, (Writes.appendBytes _).run_bind hw2,
    run_len_bind, appendUint32, (Writes.appendBytes _).run_bind hw3, hfields.run_bind hw4,
    run_len_bind]
  simp only [append_append, append_assoc, length_append_sub hw]
  have hsize : w.b.length - w.i + ([0x0, smallUlong, code] ++ ([list32]
      ++ ([0, 0, 0, 0] ++ (be32 (UInt32.ofNat n) ++ contents)))).length
      - (w.b.length - w.i + ([0x0, smallUlong, code]
        ++ ([list32] ++ [0, 0, 0, 0])).length) = contents.length + 4 := by
    simp only [length_append, length_cons, length_nil, length_be32]
    omega
  rw [hsize]
  exact run_putUint32 hw ([0x0, smallUlong, code] ++ [list32])
    (be32 (UInt32.ofNat n) ++ contents) _

/-- Only the fields have to be short: the size of a composite is written modulo 2^32. -/
theorem writes_marshalComposite_of_fits (code : UInt8) (h : Forall₂ FieldWrites fields bs)
    (hfits : ∀ x, some x ∈ bs → x.length < 2 ^ 32) :
    Writes (marshalComposite code fields) (encodeComposite code bs) := by
  have homit : fields.map MarshalField.omitted = bs.map Option.isNone := by
    clear hfits
    induction h with
    | nil => rfl
    | cons hf _ ih => rw [map_cons, map_cons, hf.omitted, ih]
  refine writes_marshalComposite_of_last code (lastSetIdx_eq homit) ?_
  have htake := forall₂_take (trimFields bs).length h
  refine writes_marshalFields (by rwa [trimFields_take] at htake) fun x hx => hfits x ?_
  rw [← trimFields_take] at hx
  exact mem_of_mem_take hx

theorem writes_marshalComposite (code : UInt8) (h : Forall₂ FieldWrites fields bs)
    (hlen : (encodeComposite code bs).length < 2 ^ 32) :
    Writes (marshalComposite code fields) (encodeComposite code bs) :=
  writes_marshalComposite_of_fits code h fun _ hx =>
    Nat.lt_trans (length_lt_encodeComposite code hx) hlen

/-! ## Arrays -/

theorem writes_forM {α : Type} {f : α → BufM Unit} {enc : α → Bytes} (a : List α)
    (h : ∀ x ∈ a, Writes (f x) (enc x)) : Writes (a.forM f) (a.flatMap enc) := by
  induction a with
  | nil => exact .pure
  | cons x a ih =>
    have hx := h x (mem_cons_self ..)
    have ha := ih fun y hy => h y (mem_cons_of_mem _ hy)
    exact hx.bind ha

theorem writes_writeArraySize (length size : Nat) (type_ : UInt8) :
    Writes (writeArraySize length size type_) (encodeArrayHeader length size type_) := by
  unfold writeArraySize encodeArrayHeader encodeArraySizes
  split
  · exact .appendBytes _
  · refine Writes.congr ((Writes.appendBytes [array32]).bind ((Writes.appendBytes _).bind
      ((Writes.appendBytes _).bind (Writes.appendBytes [type_])))) ?_
    simp only [cons_append, nil_append, append_assoc]

theorem writes_marshalArray {α : Type} (typeSize : Nat) (type_ : UInt8) (element : α → Bytes) (a : List α) :
    Writes (marshalArray typeSize type_ element a) (encodeArray typeSize type_ element a) :=
  (writes_writeArraySize _ _ _).bind (writes_forM a fun x _ => .appendBytes (element x))

/-- Arrays of strings, symbols or byte slices; the width of the lengths is read off the type code. -/
theorem writes_marshalVariableArray {code8 code32 : UInt8} (h8 : code8 &&& 0xf0 ≠ 0xb0) (h32 : code32 &&& 0xf0 = 0xb0)
    (a : List Bytes) : Writes (marshalVariableArray code8 code32 a) (encodeVariableArray code8 code32 a) := by
  have hne : code8 ≠ code32 := fun h => h8 (h ▸ h32)
  unfold marshalVariableArray encodeVariableArray
  by_cases hlong : (a.any fun s => decide (s.length > 255)) = true
  · simp only [hlong, if_true, writeVariableArrayHeader, if_pos h32]
    refine (writes_writeArraySize _ _ _).bind (writes_forM a fun s _ => ?_)
    exact (Writes.appendBytes _).bind (Writes.appendBytes _)
  · simp only [hlong, if_false, Bool.false_eq_true, writeVariableArrayHeader, if_neg h8, if_neg hne, Nat.mul_one]
    refine (writes_writeArraySize _ _ _).bind (writes_forM a fun s _ => ?_)
    exact (Writes.appendBytes [UInt8.ofNat s.length]).bind (Writes.appendBytes _)

theorem writes_marshalArrayUByte (a : List UInt8) :
    Writes (marshalArrayUByte a) (encodeArray 1 ubyte (fun n => [n]) a) := by
  have hflat : a.flatMap (fun n => [n]) = a := flatMap_singleton' a
  rw [encodeArray, hflat]
  exact (writes_writeArraySize _ _ _).bind (.appendBytes a)

theorem writes_marshalArrayUint32 (a : List UInt32) : Writes (marshalArrayUint32 a) (encodeArrayUint32 a) := by
  unfold marshalArrayUint32 encodeArrayUint32
  split <;> exact writes_marshalArray _ _ _ a

theorem writes_marshalArrayUint64 (a : List UInt64) : Writes (marshalArrayUint64 a) (encodeArrayUint64 a) := by
  unfold marshalArrayUint64 encodeArrayUint64
  split <;> exact writes_marshalArray _ _ _ a

/-! ## Values -/

theorem writes_marshalAnnotationKey {k : Value} (hk : k.annotationKey = true)
    (hlen : (encodeAnnotationKey k).length < 2 ^ 32) : Writes (marshalAnnotationKey k) (encodeAnnotationKey k) := by
  cases k with
  | string s => exact writes_marshalSymbol s hlen
  | symbol s => exact writes_marshalSymbol s hlen
  | int64 n => exact writes_writeInt64 n
  | int n => exact writes_writeInt64 n
  | _ => exact absurd hk (by simp [Value.annotationKey])

mutual

/-- **The encoder writes the wire format.** `Marshal` succeeds on every codable value with a short
    enough encoding, and appends that encoding. -/
theorem writes_marshal : ∀ v : Value, v.codable = true → (encode v).length < 2 ^ 32 → Writes (marshal v) (encode v)
  | .nil, _, _ => .appendBytes _
  | .bool b, _, _ => writes_writeBool b
  | .uint k, _, _ => writes_writeUint64 k
  | .uint64 k, _, _ => writes_writeUint64 k
  | .uint32 k, _, _ => writes_writeUint32 k
  | .uint16 _, _, _ => (Writes.appendBytes [ushort]).bind (Writes.appendBytes _)
  | .uint8 _, _, _ => .appendBytes _
  | .int k, _, _ => writes_writeInt64 k
  | .int8 _, _, _ => .appendBytes _
  | .int16 _, _, _ => (Writes.appendBytes [short]).bind (Writes.appendBytes _)
  | .int32 k, _, _ => writes_writeInt32 k
  | .int64 k, _, _ => writes_writeInt64 k
  | .float32 _, _, _ => (Writes.appendBytes [float]).bind (Writes.appendBytes _)
  | .float64 _, _, _ => (Writes.appendBytes [double]).bind (Writes.appendBytes _)
  | .string s, hv, hlen => writes_writeString s hv hlen
  | .symbol s, _, hlen => writes_marshalSymbol s hlen
  | .binary b, _, hlen => writes_writeBinary b hlen
  | .time t, _, _ => writes_writeTimestamp t
  | .uuid u, _, _ => writes_marshalUUID u
  | .arrayUByte a, _, _ => writes_marshalArrayUByte a
  | .arrayUint32 a, _, _ => writes_marshalArrayUint32 a
  | .arrayUint64 a, _, _ => writes_marshalArrayUint64 a
  | .arrayInt8 a, _, _ | .arrayUint16 a, _, _ | .arrayInt16 a, _, _ | .arrayFloat a, _, _
  | .arrayDouble a, _, _ | .arrayBool a, _, _ | .arrayTimestamp a, _, _ | .arrayUUID a, _, _ =>
    writes_marshalArray _ _ _ a
  | .list [], _, _ => writes_marshalList .pure
  | .list (x :: xs), hv, hlen => by
    have hcontents := length_encodeList (encodeElements (x :: xs)) (show (x :: xs).length ≠ 0 by simp)
    simp only [encode] at hlen
    exact writes_marshalList (writes_marshalElements (x :: xs) hv (by omega))
  | .mapAny m, hv, hlen => by
    simp only [Value.codable, Bool.and_eq_true, all_eq_true] at hv
    simp only [encode, length_encodeMap] at hlen
    have hpairs := length_encodeEntries hv.1.1 hv.1.2
    exact writes_writeMap (writes_marshalEntries m hv.1.1 hv.1.2 (by omega)) (by omega)
  | .mapString m, hv, hlen => by
    simp only [Value.codable, Bool.and_eq_true, all_eq_true] at hv
    simp only [encode, length_encodeMap] at hlen
    have hpairs := length_encodeStringEntries hv.1.1
    exact writes_writeMap (writes_marshalStringEntries m hv.1.1 hv.1.2 (by omega)) (by omega)
  | .mapSymbol m, hv, hlen => by
    simp only [Value.codable, Bool.and_eq_true] at hv
    simp only [encode, length_encodeMap] at hlen
    have hpairs := length_encodeSymbolEntries hv.1
    exact writes_writeMap (writes_marshalSymbolEntries m hv.1 (by omega)) (by omega)
  | .described d v, hv, hlen => by
    simp only [Value.codable, Bool.and_eq_true] at hv
    simp only [encode, length_cons, length_append] at hlen
    exact (Writes.appendBytes [0x0]).bind
      ((writes_marshal d hv.1.1 (by omega)).bind (writes_marshal v hv.1.2 (by omega)))
  | .error e, hv, hlen => writes_marshalError e hv hlen
  | .state s, hv, hlen => writes_marshalState s hv hlen
  | .lifetimePolicy _, _, _ => .appendBytes _
  | .arrayInt32 _, hv, _ | .arrayInt64 _, hv, _ | .arrayString _, hv, _ | .arraySymbol _, hv, _
  | .arrayBinary _, hv, _ | .marshaler _, hv, _ | .other _, hv, _ => absurd hv (by simp [Value.codable])

theorem writes_marshalError : ∀ e : AmqpError Value, codableError e = true →
    (encodeError e).length < 2 ^ 32 → Writes (marshalError e) (encodeError e)
  | ⟨condition, description, info⟩, he, hlen => by
    simp only [codableError, Bool.and_eq_true, all_eq_true] at he
    obtain ⟨⟨⟨hdesc, hvals⟩, hkeys⟩, -⟩ := he
    refine writes_marshalComposite _ (.cons (.always (writes_marshalSymbol condition))
      (.cons (.omittable fun _ => writes_writeString description hdesc)
        (.cons (.omittable fun _ hinfo => ?_) .nil))) hlen
    have hpairs := length_encodeStringEntries hvals
    rw [length_encodeMap] at hinfo
    exact writes_writeMap (writes_marshalStringEntries info hvals hkeys (by omega)) (by omega)

theorem writes_marshalState : ∀ s : DeliveryState Value, codableState s = true →
    (encodeState s).length < 2 ^ 32 → Writes (marshalState s) (encodeState s)
  | .received sectionNumber sectionOffset, _, hlen =>
    writes_marshalComposite _ (.cons (.always fun _ => writes_writeUint32 sectionNumber)
      (.cons (.always fun _ => writes_writeUint64 sectionOffset) .nil)) hlen
  | .accepted, _, hlen => writes_marshalComposite _ .nil hlen
  | .released, _, hlen => writes_marshalComposite _ .nil hlen
  | .rejected none, _, hlen => writes_marshalComposite _ (.cons rfl .nil) hlen
  | .rejected (some e), hs, hlen =>
    writes_marshalComposite _ (.cons (.always (writes_marshalError e hs)) .nil) hlen
  | .modified deliveryFailed undeliverableHere annotations, hs, hlen => by
    have hflag : ∀ b : Bool, FieldWrites ⟨writeBool b, !b⟩ (fieldUnless (!b) (encodeBool b)) :=
      fun b => .omittable fun _ _ => writes_writeBool b
    have hfailed := hflag deliveryFailed
    have hhere := hflag undeliverableHere
    match annotations with
    | none => exact writes_marshalComposite _ (.cons hfailed (.cons hhere (.cons rfl .nil))) hlen
    | some m =>
      simp only [codableState, Bool.and_eq_true, all_eq_true] at hs
      obtain ⟨⟨hvals, hkeys⟩, -⟩ := hs
      refine writes_marshalComposite _ (.cons hfailed (.cons hhere
        (.cons (.always fun hmap => ?_) .nil))) hlen
      have hpairs := length_encodeAnnotationEntries hvals hkeys
      rw [length_encodeMap] at hmap
      exact writes_writeMap (writes_marshalAnnotationEntries m hvals hkeys (by omega)) (by omega)

theorem writes_marshalElements : ∀ xs : List Value, codableElements xs = true →
    (encodeElements xs).length < 2 ^ 32 → Writes (marshalElements xs) (encodeElements xs)
  | [], _, _ => .pure
  | x :: xs, hx, hlen => by
    simp only [codableElements, Bool.and_eq_true] at hx
    simp only [encodeElements, length_append] at hlen ⊢
    exact (writes_marshal x hx.1 (by omega)).bind (writes_marshalElements xs hx.2 (by omega))

theorem writes_marshalEntries : ∀ m : List (Value × Value), codableEntries m = true →
    (∀ e ∈ m, e.1.codableKey = true) → (encodeEntries m).length < 2 ^ 32 →
    Writes (marshalEntries m) (encodeEntries m)
  | [], _, _, _ => .pure
  | (k, v) :: m, hv, hk, hlen => by
    simp only [codableEntries, Bool.and_eq_true] at hv
    simp only [encodeEntries, length_append] at hlen ⊢
    obtain ⟨hkey, hkeys⟩ := forall_mem_cons.mp hk
    rw [append_assoc]
    exact (writes_marshal k (Value.codable_of_codableKey hkey) (by omega)).bind
      ((writes_marshal v hv.1 (by omega)).bind (writes_marshalEntries m hv.2 hkeys (by omega)))

theorem writes_marshalStringEntries : ∀ m : List (Bytes × Value), codableValues m = true →
    (∀ e ∈ m, validUtf8 e.1 = true) → (encodeStringEntries m).length < 2 ^ 32 →
    Writes (marshalStringEntries m) (encodeStringEntries m)
  | [], _, _, _ => .pure
  | (k, v) :: m, hv, hk, hlen => by
    simp only [codableValues, Bool.and_eq_true] at hv
    simp only [encodeStringEntries, length_append] at hlen ⊢
    obtain ⟨hkey, hkeys⟩ := forall_mem_cons.mp hk
    rw [append_assoc]
    exact (writes_writeString k hkey (by omega)).bind ((writes_marshal v hv.1 (by omega)).bind
      (writes_marshalStringEntries m hv.2 hkeys (by omega)))

theorem writes_marshalSymbolEntries : ∀ m : List (Bytes × Value), codableValues m = true →
    (encodeSymbolEntries m).length < 2 ^ 32 → Writes (marshalSymbolEntries m) (encodeSymbolEntries m)
  | [], _, _ => .pure
  | (k, v) :: m, hv, hlen => by
    simp only [codableValues, Bool.and_eq_true] at hv
    simp only [encodeSymbolEntries, length_append] at hlen ⊢
    rw [append_assoc]
    exact (writes_marshalSymbol k (by omega)).bind ((writes_marshal v hv.1 (by omega)).bind
      (writes_marshalSymbolEntries m hv.2 (by omega)))

theorem writes_marshalAnnotationEntries : ∀ m : List (Value × Value), codableEntries m = true →
    (∀ e ∈ m, e.1.annotationKey = true) → (encodeAnnotationEntries m).length < 2 ^ 32 →
    Writes (marshalAnnotationEntries m) (encodeAnnotationEntries m)
  | [], _, _, _ => .pure
  | (k, v) :: m, hv, hk, hlen => by
    simp only [codableEntries, Bool.and_eq_true] at hv
    simp only [encodeAnnotationEntries, length_append] at hlen ⊢
    obtain ⟨hkey, hkeys⟩ := forall_mem_cons.mp hk
    rw [append_assoc]
    exact (writes_marshalAnnotationKey (k := k) hkey (by omega)).bind ((writes_marshal v hv.1 (by omega)).bind
      (writes_marshalAnnotationEntries m hv.2 hkeys (by omega)))

end

end GoAmqp
