import GoAmqp.Encoding.DecodeSpec.Scalars
import GoAmqp.Encoding.EncodeSpec
import GoAmqp.Encoding.Layout

set_option autoImplicit false

/-! # A strict grammar of encoded values

`ReadAny` steps over the elements of a list or a map one by one; of the size field of a compound it
only asks that it does not exceed what is left. `Item` is the grammar of a reader that goes by the
size fields instead: the size of a compound is the number of bytes up to its end, the contents are
exactly as many items as the count says, and a field of one byte holds what fits in one byte.

`emits_marshal`: on any value, `Marshal` refuses whatever the buffer holds, or it appends an item. Of
the value it is only asked that values with a `Marshal` of their own, which is called for whatever it
writes, write one item, so this also covers the values that do not read back. -/

namespace GoAmqp

open Lib Buffer TypeCode List

variable {bs contents : Bytes} {depth n size : Nat} {α β : Type} {code : UInt8} {f : MarshalField}
  {fields : List MarshalField} {S : Prop}

/-! ## Items -/

/-- The type codes of the values of fixed width. -/
def fixedCodes : List UInt8 := [
  TypeCode.null, boolTrue, boolFalse, uint0, ulong0,
  TypeCode.bool, ubyte, TypeCode.byte, smallUint, smallUlong,
  smallint, smalllong, ushort, TypeCode.short, TypeCode.uint,
  int, float, TypeCode.ulong, TypeCode.long, double, timestamp,
  uuid]

/-- The type codes of strings, symbols and byte slices, with one-byte and four-byte lengths. -/
def variableCodes : List (UInt8 × UInt8) := [
  (str8, str32), (sym8, sym32), (vbin8, vbin32)]

/-- The elements of an array, which share the type code in front of them. -/
inductive ArrayElements (code : UInt8) (elements : List Bytes) : Prop where
  | fixed {width : Nat} (hc : code ∈ fixedCodes) (hw : Layout.fixedWidth code = some width)
      (h : ∀ e ∈ elements, e.length = width)
  | short {code32 : UInt8} (hc : (code, code32) ∈ variableCodes)
      (h : ∀ e ∈ elements, ∃ s : Bytes, s.length < 256 ∧ e = UInt8.ofNat s.length :: s)
  | long {code8 : UInt8} (hc : (code8, code) ∈ variableCodes)
      (h : ∀ e ∈ elements, ∃ s : Bytes, s.length < 2 ^ 32 ∧ e = be32 (UInt32.ofNat s.length) ++ s)

/-- The bytes of one value, under the strict grammar. -/
inductive Item : Bytes → Prop where
  | fixed {code : UInt8} {payload : Bytes} (hc : code ∈ fixedCodes)
      (h : Layout.fixedWidth code = some payload.length) : Item (code :: payload)
  | var {code8 code32 : UInt8} {s bs : Bytes} (hc : (code8, code32) ∈ variableCodes)
      (h : VariableForm code8 code32 s bs) : Item bs
  | list {items : List Bytes} {bs : Bytes} (hitems : ∀ x ∈ items, Item x)
      (h : ListForm items.length items.flatten bs) : Item bs
  | map {pairs : List (Bytes × Bytes)} {bs : Bytes} (hkeys : ∀ p ∈ pairs, Item p.1)
      (hvalues : ∀ p ∈ pairs, Item p.2)
      (h : CompoundForm map8 map32 (pairs.length * 2)
        (pairs.flatMap fun p => p.1 ++ p.2) bs) : Item bs
  | array {code : UInt8} {elements : List Bytes} {bs : Bytes} (helements : ArrayElements code elements)
      (h : CompoundForm array8 array32 elements.length
        (code :: elements.flatten) bs) : Item bs
  | described {descriptor value : Bytes} (hd : Item descriptor) (hv : Item value) :
      Item (0x0 :: (descriptor ++ value))

theorem Item.pos (h : Item bs) : 1 ≤ bs.length := by
  cases h with
  | fixed => simp
  | var _ h => cases h <;> simp
  | list _ h =>
    rcases h with _ | h
    · simp
    · cases h <;> simp
  | map _ _ h => cases h <;> simp
  | array _ h => cases h <;> simp
  | described => simp

/-- `n` items, one behind the other. -/
def Items (n : Nat) (bs : Bytes) : Prop :=
  ∃ items : List Bytes, items.length = n ∧ (∀ x ∈ items, Item x) ∧ bs = items.flatten

/-- `n` pairs of items. -/
def Pairs (n : Nat) (bs : Bytes) : Prop :=
  ∃ pairs : List (Bytes × Bytes), pairs.length = n ∧ (∀ p ∈ pairs, Item p.1) ∧
    (∀ p ∈ pairs, Item p.2) ∧ bs = pairs.flatMap fun p => p.1 ++ p.2

theorem Items.nil : Items 0 [] := ⟨[], rfl, by simp, rfl⟩

theorem Items.cons {x : Bytes} (hx : Item x) (h : Items n bs) : Items (n + 1) (x ++ bs) := by
  obtain ⟨items, rfl, hitems, rfl⟩ := h
  exact ⟨x :: items, rfl, forall_mem_cons.mpr ⟨hx, hitems⟩, rfl⟩

theorem Pairs.nil : Pairs 0 [] := ⟨[], rfl, by simp, by simp, rfl⟩

theorem Pairs.cons {k v : Bytes} (hk : Item k) (hv : Item v) (h : Pairs n bs) : Pairs (n + 1) (k ++ (v ++ bs)) := by
  obtain ⟨pairs, rfl, hkeys, hvalues, rfl⟩ := h
  refine ⟨(k, v) :: pairs, rfl, forall_mem_cons.mpr ⟨hk, hkeys⟩, forall_mem_cons.mpr ⟨hv, hvalues⟩, ?_⟩
  simp

/-! ## Boundaries -/

/-- The number of bytes of the value in front, as the type code and the size field behind it say. The
    upper half of a type code is the width of its size field, or of the whole payload. A described
    value has no size of its own. -/
def boundaryWithin : Nat → Bytes → Option Nat
  | 0, _ => none
  | _ + 1, [] => none
  | depth + 1, code :: rest =>
    if code = 0x0 then do
      let d ← boundaryWithin depth rest
      let v ← boundaryWithin depth (rest.drop d)
      some (1 + d + v)
    else match Layout.fixedWidth code with
      | some width => some (1 + width)
      | none =>
        let width := if code.toNat / 16 % 2 = 0 then 1 else 4
        some (1 + width + beNat (rest.take width))

/-- Where a strict reader finds the end of the first item. -/
def boundary (bs : Bytes) : Option Nat := boundaryWithin bs.length bs

/-- A pair of type codes that stand in front of a size field of one and of four bytes. -/
def SizedCodes (code8 code32 : UInt8) : Prop :=
  (code8 ≠ 0x0 ∧ Layout.fixedWidth code8 = none ∧ code8.toNat / 16 % 2 = 0) ∧
  (code32 ≠ 0x0 ∧ Layout.fixedWidth code32 = none ∧ code32.toNat / 16 % 2 ≠ 0)

instance (code8 code32 : UInt8) : Decidable (SizedCodes code8 code32) :=
  inferInstanceAs (Decidable ((_ ∧ _ ∧ _) ∧ (_ ∧ _ ∧ _)))

section SizedCodes

variable {code8 code32 : UInt8} (h : SizedCodes code8 code32)
include h

theorem SizedCodes.boundary8 (tail : Bytes) (hsize : size < 256) :
    boundaryWithin (depth + 1) (code8 :: UInt8.ofNat size :: tail) = some (2 + size) := by
  obtain ⟨⟨h0, hw, h8⟩, -⟩ := h
  rw [boundaryWithin, if_neg h0, hw]
  simp only [if_pos h8, take_succ_cons, take_zero]
  rw [show beNat [UInt8.ofNat size] = size by simp [beNat, toNat_ofNat8 hsize]]

theorem SizedCodes.boundary32 (tail : Bytes) (hsize : size < 2 ^ 32) :
    boundaryWithin (depth + 1) (code32 :: (be32 (UInt32.ofNat size) ++ tail)) = some (5 + size) := by
  obtain ⟨-, h0, hw, h32⟩ := h
  rw [boundaryWithin, if_neg h0, hw]
  simp only [if_neg h32]
  rw [take_left' (length_be32 _), beNat_be32, toNat_ofNat32 hsize]

theorem VariableForm.boundary {s : Bytes} (hform : VariableForm code8 code32 s bs) (depth : Nat)
    (rest : Bytes) : boundaryWithin (depth + 1) (bs ++ rest) = some bs.length := by
  cases hform with
  | short hlt =>
    rw [cons_append, cons_append, h.boundary8 _ hlt]
    simp only [length_cons]
    congr 1
    omega
  | long hlt =>
    rw [cons_append, append_assoc, h.boundary32 _ hlt]
    simp only [length_cons, length_append, length_be32]
    congr 1
    omega

theorem CompoundForm.boundary {count : Nat} (hform : CompoundForm code8 code32 count contents bs)
    (depth : Nat) (rest : Bytes) : boundaryWithin (depth + 1) (bs ++ rest) = some bs.length := by
  cases hform with
  | short hsize =>
    simp only [cons_append]
    rw [h.boundary8 _ hsize]
    simp only [length_cons, length_append, length_nil]
    congr 1
    omega
  | long hsize =>
    simp only [cons_append, append_assoc]
    rw [h.boundary32 _ hsize]
    simp only [length_cons, length_append, length_be32]
    congr 1
    omega

end SizedCodes

theorem sizedCodes_variable {code8 code32 : UInt8} (hc : (code8, code32) ∈ variableCodes) :
    SizedCodes code8 code32 := by
  simp only [variableCodes, mem_cons, Prod.mk.injEq, not_mem_nil, or_false] at hc
  rcases hc with ⟨rfl, rfl⟩ | ⟨rfl, rfl⟩ | ⟨rfl, rfl⟩ <;> decide

/-- The depth is enough for the described values in a descriptor or under one. -/
theorem Item.boundaryWithin_eq (h : Item bs) (hdepth : bs.length ≤ depth + 1) (rest : Bytes) :
    boundaryWithin (depth + 1) (bs ++ rest) = some bs.length := by
  induction h generalizing depth rest with
  | @fixed code payload hc hw =>
    have h0 : code ≠ 0x0 := fun h => absurd hc (by rw [h]; decide)
    rw [cons_append, boundaryWithin, if_neg h0, hw, length_cons, Nat.add_comm]
  | var hc hform => exact hform.boundary (sizedCodes_variable hc) depth rest
  | list _ hform =>
    rcases hform with _ | hform
    · rfl
    · exact hform.boundary (by decide) depth rest
  | map _ _ hform => exact hform.boundary (by decide) depth rest
  | array _ hform => exact hform.boundary (by decide) depth rest
  | @described d v hd hv ihd ihv =>
    have hdpos := hd.pos
    rw [length_cons, length_append] at hdepth ⊢
    obtain ⟨depth, rfl⟩ := Nat.exists_eq_succ_of_ne_zero (show depth ≠ 0 by omega)
    have hdesc := ihd (show d.length ≤ depth + 1 by omega) (v ++ rest)
    have hval := ihv (show v.length ≤ depth + 1 by omega) rest
    rw [cons_append, append_assoc, boundaryWithin, if_pos rfl, hdesc]
    simp only [Option.bind_eq_bind, Option.bind_some, drop_left, hval]
    congr 1
    omega

/-- **Boundaries come from the size fields.** Whatever follows an item, its type code and the size
    field behind it say where it ends. -/
theorem Item.boundary_append (h : Item bs) (rest : Bytes) : boundary (bs ++ rest) = some bs.length := by
  have hpos := h.pos
  obtain ⟨depth, hdepth⟩ := Nat.exists_eq_succ_of_ne_zero
    (show (bs ++ rest).length ≠ 0 by rw [length_append]; omega)
  rw [boundary, hdepth]
  rw [length_append] at hdepth
  exact h.boundaryWithin_eq (by omega) rest

/-! ## What a writer emits -/

/-- The computation fails, whatever the buffer holds. -/
def Refuses {α : Type} (m : BufM α) : Prop := ∀ w, w.WF → ∃ e w', m.run w = .error e w'

/-- Whatever the buffer holds, `m` fails, or it appends the same bytes, which satisfy `P` if they
    are less than 2^32 and `S` holds. -/
def Emits (S : Prop) (P : Bytes → Prop) (m : BufM Unit) : Prop :=
  Refuses m ∨ ∃ bs, Writes m bs ∧ (bs.length < 2 ^ 32 → S → P bs)

theorem refuses_throw (e : Fault) : Refuses (throw e : BufM α) := fun w _ => ⟨e, w, rfl⟩

theorem refuses_fail (msg : String) : Refuses (fail msg : BufM α) := refuses_throw _

theorem Refuses.bind {m : BufM α} (h : Refuses m) (f : α → BufM β) : Refuses (m >>= f) := by
  intro w hw
  obtain ⟨e, w', hrun⟩ := h w hw
  exact ⟨e, w', by rw [EStateM.run_bind, hrun]⟩

theorem refuses_len_bind {f : Nat → BufM β} (h : ∀ n, Refuses (f n)) : Refuses (len >>= f) := fun w hw => h _ w hw

theorem Writes.refuses_bind {m : BufM Unit} {f : Unit → BufM β} (hm : Writes m bs) (h : Refuses (f ())) :
    Refuses (m >>= f) := by
  intro w hw
  obtain ⟨e, w', hrun⟩ := h _ (hw.append bs)
  exact ⟨e, w', by rw [EStateM.run_bind, hm w hw]; exact hrun⟩

section Emits

variable {P Q R : Bytes → Prop} {m : BufM Unit}

theorem Writes.emits_if (h : Writes m bs) (hP : bs.length < 2 ^ 32 → S → P bs) : Emits S P m := .inr ⟨bs, h, hP⟩

theorem Writes.emits (h : Writes m bs) (hP : bs.length < 2 ^ 32 → P bs) : Emits S P m :=
  h.emits_if fun hlt _ => hP hlt

@[simp] theorem Emits.fail (msg : String) : Emits S P (fail msg) := .inl (refuses_fail msg)

theorem Emits.ite {c : Prop} [Decidable c] {m' : BufM Unit} (ht : c → Emits S P m)
    (hf : ¬ c → Emits S P m') : Emits S P (if c then m else m') := by
  split
  · next hc => exact ht hc
  · next hc => exact hf hc

theorem Emits.bind {f : Unit → BufM Unit} (hm : Emits S P m) (hf : Emits S Q (f ()))
    (happ : ∀ bs cs, P bs → Q cs → R (bs ++ cs)) : Emits S R (m >>= f) := by
  rcases hm with hm | ⟨bs, hm, hP⟩
  · exact .inl (hm.bind f)
  rcases hf with hf | ⟨cs, hf, hQ⟩
  · exact .inl (hm.refuses_bind hf)
  refine (hm.bind hf).emits_if fun hlt hS => ?_
  rw [length_append] at hlt
  exact happ bs cs (hP (by omega) hS) (hQ (by omega) hS)

theorem Emits.mono (h : Emits S P m) (hPQ : ∀ bs, P bs → Q bs) : Emits S Q m :=
  h.imp_right fun ⟨bs, hw, hP⟩ => ⟨bs, hw, fun hlt hS => hPQ bs (hP hlt hS)⟩

/-- Some fixed bytes in front. -/
theorem Emits.after (pre : Bytes) (h : Emits S P m) (happ : ∀ bs, P bs → R (pre ++ bs)) :
    Emits S R (appendBytes pre >>= fun _ => m) := by
  have hpre : Emits S (· = pre) (appendBytes pre) := (Writes.appendBytes pre).emits fun _ => rfl
  refine hpre.bind h ?_
  rintro _ bs rfl hbs
  exact happ bs hbs

/-- A writer that did not fail has appended what it emits. -/
theorem Emits.of_run (h : Emits S P m) (hS : S) {w w' : Buffer} (hw : w.WF) (hrun : m.run w = .ok () w') :
    ∃ bs, w' = w.append bs ∧ (bs.length < 2 ^ 32 → P bs) := by
  rcases h with h | ⟨bs, h, hP⟩
  · obtain ⟨e, w'', herr⟩ := h w hw
    rw [hrun] at herr
    exact absurd herr (by simp)
  · rw [h w hw] at hrun
    injection hrun with _ heq
    exact ⟨bs, heq.symm, fun hlt => hP hlt hS⟩

end Emits

/-! ## Scalars -/

theorem emits_writeVariable {code8 code32 : UInt8} (hc : (code8, code32) ∈ variableCodes) (s : Bytes) :
    Emits S Item (writeVariable code8 code32 s) := by
  refine .ite (fun hshort => ?_) fun _ => .ite (fun _ => ?_) fun _ => .fail _
  · have hw := (Writes.appendBytes [code8, UInt8.ofNat s.length]).bind
      (f := fun _ => Buffer.appendBytes s) (.appendBytes s)
    exact hw.emits fun _ => .var hc (.short hshort)
  · have hw := (Writes.appendBytes [code32]).bind
      (f := fun _ => appendUint32 (UInt32.ofNat s.length) >>= fun _ => Buffer.appendBytes s)
      ((Writes.appendBytes (be32 (UInt32.ofNat s.length))).bind (Writes.appendBytes s))
    refine hw.emits fun hlt => .var hc (.long ?_)
    simp only [length_append] at hlt
    omega

@[simp] theorem emits_writeString (s : Bytes) : Emits S Item (writeString s) :=
  .ite (fun _ => .fail _) fun _ => emits_writeVariable (by decide) s

@[simp] theorem emits_writeBinary (b : Bytes) : Emits S Item (writeBinary b) := emits_writeVariable (by decide) b

@[simp] theorem emits_marshalSymbol (s : Bytes) : Emits S Item (marshalSymbol s) := emits_writeVariable (by decide) s

/-- A writer of a type code and a payload of the width that the code stands for. -/
theorem Writes.emits_fixed {payload : Bytes} {m : BufM Unit} (h : Writes m (code :: payload))
    (hc : code ∈ fixedCodes) (hw : Layout.fixedWidth code = some payload.length) : Emits S Item m :=
  h.emits fun _ => .fixed hc hw

@[simp] theorem emits_writeUint32 (n : UInt32) : Emits S Item (writeUint32 n) := by
  refine (writes_writeUint32 n).emits fun _ => ?_
  unfold encodeUint32
  split
  · exact .fixed (by decide) rfl
  split
  · exact .fixed (by decide) rfl
  · exact .fixed (by decide) rfl

@[simp] theorem emits_writeUint64 (n : UInt64) : Emits S Item (writeUint64 n) := by
  refine (writes_writeUint64 n).emits fun _ => ?_
  unfold encodeUint64
  split
  · exact .fixed (by decide) rfl
  split
  · exact .fixed (by decide) rfl
  · exact .fixed (by decide) rfl

@[simp] theorem emits_writeInt32 (n : Int32) : Emits S Item (writeInt32 n) := by
  refine (writes_writeInt32 n).emits fun _ => ?_
  unfold encodeInt32
  split
  · exact .fixed (by decide) rfl
  · exact .fixed (by decide) rfl

@[simp] theorem emits_writeInt64 (n : Int64) : Emits S Item (writeInt64 n) := by
  refine (writes_writeInt64 n).emits fun _ => ?_
  unfold encodeInt64
  split
  · exact .fixed (by decide) rfl
  · exact .fixed (by decide) rfl

@[simp] theorem emits_writeBool (b : Bool) : Emits S Item (writeBool b) := by
  refine (writes_writeBool b).emits fun _ => ?_
  cases b <;> exact .fixed (by decide) rfl

@[simp] theorem emits_writeTimestamp (t : Time) : Emits S Item (writeTimestamp t) :=
  (writes_writeTimestamp t).emits_fixed (by decide) rfl

theorem emits_marshalUUID (u : UUID) : Emits S Item (marshalUUID u) :=
  (writes_marshalUUID u).emits_fixed (by decide) (by rw [u.length_bytes]; rfl)

/-- A two-byte number behind its type code. -/
theorem writes_uint16 (code : UInt8) (n : UInt16) :
    Writes (appendByte code >>= fun _ => appendUint16 n) (code :: be16 n) :=
  (Writes.appendBytes [code]).bind (Writes.appendBytes _)

/-! ## Compounds -/

theorem Items.item_encodeList (h : Items n contents) (hlt : (encodeList n contents).length < 2 ^ 32) :
    Item (encodeList n contents) := by
  obtain ⟨items, rfl, hitems, rfl⟩ := h
  have hcount : items.length ≤ items.flatten.length := by
    have hle := mul_length_le_flatMap (f := id) fun x hx => (hitems x hx).pos
    rwa [flatMap_id, Nat.mul_one] at hle
  refine .list hitems (listForm_encodeList hcount (fun hzero => ?_) hlt)
  rw [length_eq_zero_iff.mp hzero, flatten_nil]

theorem Pairs.item_encodeMap (h : Pairs n contents) (hlt : (encodeMap n contents).length < 2 ^ 32) :
    Item (encodeMap n contents) := by
  obtain ⟨pairs, rfl, hkeys, hvalues, rfl⟩ := h
  exact .map hkeys hvalues (compoundForm_encodeCompound
    (pairs_le_flatMap (fun p hp => (hkeys p hp).pos) fun p hp => (hvalues p hp).pos) hlt)

theorem emits_marshalList {elements : BufM Unit} (h : Emits S (Items n) elements) :
    Emits S Item (marshalList n elements) := by
  unfold marshalList
  refine .ite (fun _ => ?_) fun hpos => ?_
  · exact (Writes.appendBytes _).emits fun _ => Items.nil.item_encodeList (by decide)
  rcases h with h | ⟨contents, h, hitems⟩
  · exact .inl ((Writes.appendBytes _).refuses_bind (refuses_len_bind fun _ =>
      (Writes.appendBytes _).refuses_bind ((Writes.appendBytes _).refuses_bind (h.bind _))))
  have hwrites : Writes (marshalList n elements) _ := writes_marshalList h
  rw [marshalList, if_neg hpos] at hwrites
  refine hwrites.emits_if fun hlt hS => Items.item_encodeList (hitems ?_ hS) hlt
  rw [length_encodeList _ hpos] at hlt
  omega

theorem emits_writeMap {entries : BufM Unit} (h : Emits S (Pairs n) entries) : Emits S Item (writeMap n entries) := by
  rcases h with h | ⟨contents, h, hpairs⟩
  · exact .inl (refuses_len_bind fun _ => (Writes.appendBytes _).refuses_bind (h.bind _))
  by_cases hmany : n * 2 > 4294967295 - 4
  · refine .inl (refuses_len_bind fun _ => (Writes.appendBytes _).refuses_bind (h.refuses_bind ?_))
    rw [if_pos hmany]
    exact refuses_fail _
  · refine (writes_writeMap h (by omega)).emits_if fun hlt hS => Pairs.item_encodeMap (hpairs ?_ hS) hlt
    rw [length_encodeMap] at hlt
    omega

/-! ## Composites -/

theorem item_descriptor (code : UInt8) : Item [smallUlong, code] := .fixed (by decide) rfl

/-- The field is omitted or its encoder emits an item. -/
def MarshalField.EmitsItem (f : MarshalField) (S : Prop) : Prop := f.omitted = false → Emits S Item f.value

@[simp] theorem emitsItem_mk (value : BufM Unit) (omitted : Bool) :
    (MarshalField.mk value omitted).EmitsItem S ↔ (omitted = false → Emits S Item value) := Iff.rfl

theorem emits_write (h : f.EmitsItem S) : Emits S Item f.write := by
  refine .ite (fun _ => ?_) fun hset => h (by simpa using hset)
  exact (Writes.appendBytes [TypeCode.null]).emits_fixed (by decide) rfl

theorem emits_marshalFields (h : ∀ f ∈ fields, f.EmitsItem S) :
    Emits S (Items fields.length) (marshalFields fields) := by
  induction fields with
  | nil => exact Writes.pure.emits fun _ => .nil
  | cons f fields ih =>
    obtain ⟨hf, hfields⟩ := forall_mem_cons.mp h
    exact (emits_write hf).bind (ih hfields) fun _ _ => .cons

/-- Where the last set field stands. -/
theorem exists_lastSetIdx (fields : List MarshalField) :
    ∃ n ≤ fields.length, lastSetIdx fields = n - 1 ∧ ∀ f ∈ fields.drop n, f.omitted = true := by
  let bs : List (Option Bytes) := fields.map fun f => if f.omitted then none else some []
  have homit : fields.map MarshalField.omitted = bs.map Option.isNone := by
    rw [map_map]
    refine map_congr_left fun f _ => ?_
    show f.omitted = (if f.omitted then none else some ([] : Bytes)).isNone
    cases f.omitted <;> rfl
  have hle := length_trimFields_le bs
  have hdrop := drop_trimFields bs
  rw [length_map] at hle
  rw [← map_drop, forall_mem_map] at hdrop
  refine ⟨(trimFields bs).length, hle, lastSetIdx_eq homit, fun f hf => ?_⟩
  simpa using hdrop f hf

theorem refuses_marshalFields (h : ∀ f ∈ fields, f.EmitsItem S) (hf : f ∈ fields) (hset : f.omitted = false)
    (hrefuses : Refuses f.value) : Refuses (marshalFields fields) := by
  induction fields with
  | nil => cases hf
  | cons g fields ih =>
    obtain ⟨hg, hfields⟩ := forall_mem_cons.mp h
    have hfirst : Emits S Item g.write := emits_write hg
    rcases mem_cons.mp hf with rfl | hf
    · have hwrite : f.write = f.value := by simp [MarshalField.write, hset]
      exact .bind (hwrite ▸ hrefuses) _
    · rcases hfirst with hfirst | ⟨bs, hfirst, -⟩
      · exact hfirst.bind _
      · exact hfirst.refuses_bind (ih hfields hf)

theorem refuses_marshalComposite (hlast : lastSetIdx fields = n - 1) (hpos : n ≠ 0)
    (h : Refuses (marshalFields (fields.take n))) : Refuses (marshalComposite code fields) := by
  unfold marshalComposite
  have hcount : (lastSetIdx fields + 1).toNat = n := by omega
  rw [if_neg (by omega), hcount]
  exact (Writes.appendBytes _).refuses_bind ((Writes.appendBytes _).refuses_bind (refuses_len_bind
    fun _ => (Writes.appendBytes _).refuses_bind (refuses_len_bind fun _ =>
      (Writes.appendBytes _).refuses_bind (h.bind _))))

/-- A composite is not written when one of its fields is not. -/
theorem refuses_marshalComposite_of_field (h : ∀ f ∈ fields, f.EmitsItem False) (hf : f ∈ fields)
    (hset : f.omitted = false) (hrefuses : Refuses f.value) : Refuses (marshalComposite code fields) := by
  obtain ⟨n, hle, hlast, homitted⟩ := exists_lastSetIdx fields
  have hmem : f ∈ fields.take n := by
    rw [← take_append_drop n fields, mem_append] at hf
    refine hf.resolve_right fun hdrop => ?_
    rw [homitted f hdrop] at hset
    cases hset
  refine refuses_marshalComposite hlast ?_ (refuses_marshalFields
    (fun g hg => h g (mem_of_mem_take hg)) hmem hset hrefuses)
  rintro rfl
  rw [take_zero] at hmem
  cases hmem

/-- A section of a message: there is something, and under the assumption it is one item. -/
def Section_ (S : Prop) (bs : Bytes) : Prop := bs ≠ [] ∧ (S → Item bs)

theorem emits_compositeSection (h : ∀ f ∈ fields, f.EmitsItem S) :
    Emits True (Section_ S) (marshalComposite code fields) := by
  have hdescriptor := item_descriptor code
  obtain ⟨n, hle, hlast, -⟩ := exists_lastSetIdx fields
  rcases Nat.eq_zero_or_pos n with rfl | hpos
  · have hwrites := writes_marshalComposite_of_last code hlast .pure
    exact hwrites.emits fun _ => ⟨by simp, fun _ => .described hdescriptor (Items.nil.item_encodeList (by decide))⟩
  have hfields := emits_marshalFields fun f hf => h f (mem_of_mem_take (i := n) hf)
  rw [length_take, Nat.min_eq_left hle] at hfields
  rcases hfields with hrefuses | ⟨contents, hwrites, hitems⟩
  · exact .inl (refuses_marshalComposite hlast (by omega) hrefuses)
  refine (writes_marshalComposite_of_last code hlast hwrites).emits fun hlt => ⟨by simp, fun hS => ?_⟩
  rw [length_append] at hlt
  have hlist := length_encodeList contents (show n ≠ 0 by omega)
  exact .described hdescriptor (Items.item_encodeList (hitems (by omega) hS) (by omega))

/-- A composite is a described list. -/
theorem emits_marshalComposite (h : ∀ f ∈ fields, f.EmitsItem S) : Emits S Item (marshalComposite code fields) :=
  (emits_compositeSection h).imp_right fun ⟨bs, hw, hsection⟩ => ⟨bs, hw, fun hlt => (hsection hlt trivial).2⟩

/-! ## Arrays -/

theorem item_array {elements : List Bytes} (helements : ArrayElements code elements)
    (hsize : elements.flatten.length = size) (hcount : elements.length ≤ size)
    (hlt : (encodeArrayHeader elements.length size code ++ elements.flatten).length < 2 ^ 32) :
    Item (encodeArrayHeader elements.length size code ++ elements.flatten) :=
  .array helements (compoundForm_array hcount hsize hlt)

/-- The element types that the encoder uses: elements of `typeSize` bytes, and not of none. -/
def HasWidth (type_ : UInt8) (typeSize : Nat) : Prop :=
  type_ ∈ fixedCodes ∧ Layout.fixedWidth type_ = some typeSize ∧ 1 ≤ typeSize

instance (type_ : UInt8) (typeSize : Nat) : Decidable (HasWidth type_ typeSize) :=
  inferInstanceAs (Decidable (_ ∧ _ ∧ _))

theorem item_encodeArray {typeSize : Nat} {type_ : UInt8} {element : α → Bytes} (h : HasWidth type_ typeSize)
    (hsize : ∀ x, (element x).length = typeSize) {a : List α}
    (hlt : (encodeArray typeSize type_ element a).length < 2 ^ 32) : Item (encodeArray typeSize type_ element a) := by
  obtain ⟨hc, hw, hpos⟩ := h
  have hle : a.length ≤ a.length * typeSize := Nat.le_mul_of_pos_right _ hpos
  have helements : ArrayElements type_ (a.map element) := .fixed hc hw (forall_mem_map.mpr fun x _ => hsize x)
  have hitem := item_array helements (length_flatMap_const a fun x _ => hsize x)
    (by rw [length_map]; exact hle)
  rw [length_map] at hitem
  exact hitem hlt

theorem emits_marshalArray {typeSize : Nat} {type_ : UInt8} {element : α → Bytes}
    (h : HasWidth type_ typeSize) (hsize : ∀ x, (element x).length = typeSize) (a : List α) :
    Emits S Item (marshalArray typeSize type_ element a) :=
  (writes_marshalArray typeSize type_ element a).emits (item_encodeArray h hsize)

theorem emits_marshalArrayUByte (a : List UInt8) : Emits S Item (marshalArrayUByte a) :=
  (writes_marshalArrayUByte a).emits (item_encodeArray (by decide) fun _ => by rfl)

/-- An array whose elements have their length in front of them, in `width` bytes. -/
theorem item_variableArray {pre : Bytes → Bytes} {width : Nat} {a : List Bytes}
    (hpos : 1 ≤ width) (hpre : ∀ s, (pre s).length = width)
    (helements : ArrayElements code (a.map fun s => pre s ++ s))
    (hlt : (encodeArrayHeader a.length ((a.map List.length).sum + a.length * width) code
      ++ a.flatMap fun s => pre s ++ s).length < 2 ^ 32) :
    Item (encodeArrayHeader a.length ((a.map List.length).sum + a.length * width) code
      ++ a.flatMap fun s => pre s ++ s) := by
  have hle : a.length ≤ a.length * width := Nat.le_mul_of_pos_right _ hpos
  have hitem := item_array helements (length_flatMap_prefixed hpre a)
    (by rw [length_map]; omega)
  rw [length_map] at hitem
  exact hitem hlt

theorem emits_marshalVariableArray {code8 code32 : UInt8} (hc : (code8, code32) ∈ variableCodes)
    (h8 : code8 &&& 0xf0 ≠ 0xb0) (h32 : code32 &&& 0xf0 = 0xb0) (a : List Bytes) :
    Emits S Item (marshalVariableArray code8 code32 a) := by
  refine (writes_marshalVariableArray h8 h32 a).emits fun hlt => ?_
  unfold encodeVariableArray at hlt ⊢
  split
  · next hlong =>
    rw [if_pos hlong] at hlt
    refine item_variableArray (by decide) (fun s => length_be32 (UInt32.ofNat s.length))
      (.long hc (forall_mem_map.mpr fun s hs => ⟨s, ?_, rfl⟩)) hlt
    have hle := length_le_flatMap (f := fun s : Bytes => be32 (UInt32.ofNat s.length) ++ s) hs
    simp only [length_append] at hle hlt
    omega
  · next hshort =>
    rw [if_neg hshort] at hlt
    simp only [any_eq_true, decide_eq_true_eq, not_exists, not_and] at hshort
    have helements : ArrayElements code8 (a.map fun s => [UInt8.ofNat s.length] ++ s) := by
      refine .short hc (forall_mem_map.mpr fun s hs => ⟨s, ?_, rfl⟩)
      have := hshort s hs
      omega
    have hitem := item_variableArray (Nat.le_refl 1) (fun _ => by rfl) helements
    rw [Nat.mul_one] at hitem
    exact hitem hlt

theorem emits_marshalArrayString (a : List Bytes) : Emits S Item (marshalArrayString a) :=
  .ite (fun _ => .fail _) fun _ => emits_marshalVariableArray (by decide) (by decide) (by decide) a

@[simp] theorem emits_marshalArraySymbol (a : List Bytes) : Emits S Item (marshalArraySymbol a) :=
  emits_marshalVariableArray (by decide) (by decide) (by decide) a

/-! ## Values -/

/-- What the value writes is one item, unless it refuses. -/
def Marshaler.Single (m : Marshaler) : Prop := m.fault = none → m.written.length < 2 ^ 32 → Item m.written

mutual

/-- Each value inside that writes itself writes one item. -/
def Value.Single : Value → Prop
  | .list xs => SingleElements xs
  | .mapAny m => SingleEntries m
  | .mapString m | .mapSymbol m => SingleKeyed m
  | .described d v => d.Single ∧ v.Single
  | .error e => SingleError e
  | .state s => SingleState s
  | .marshaler m => m.Single
  | _ => True

/-- The values in an error write one item each. -/
def SingleError : AmqpError Value → Prop
  | ⟨_, _, info⟩ => SingleKeyed info

def SingleState : DeliveryState Value → Prop
  | .rejected (some e) => SingleError e
  | .modified _ _ (some m) => SingleEntries m
  | _ => True

def SingleElements : List Value → Prop
  | [] => True
  | x :: xs => x.Single ∧ SingleElements xs

def SingleEntries : List (Value × Value) → Prop
  | [] => True
  | (k, v) :: m => k.Single ∧ v.Single ∧ SingleEntries m

def SingleKeyed : List (Bytes × Value) → Prop
  | [] => True
  | (_, v) :: m => v.Single ∧ SingleKeyed m

end

theorem emits_marshaler (m : Marshaler) (h : S → m.Single) : Emits S Item m.marshal := by
  have hwrites := Writes.appendBytes m.written
  unfold Marshaler.marshal
  cases hfault : m.fault with
  | none =>
    refine .inr ⟨m.written, fun w hw => hwrites w hw, fun hlt hS => h hS hfault hlt⟩
  | some f => exact .inl (hwrites.refuses_bind (refuses_throw f))

theorem emits_marshalAnnotationKey (k : Value) : Emits S Item (marshalAnnotationKey k) := by
  unfold marshalAnnotationKey
  split
  · exact emits_marshalSymbol _
  · exact emits_marshalSymbol _
  · exact emits_writeInt64 _
  · exact emits_writeInt64 _
  · exact .fail _

/-- A round of an entry loop: a key and a value in front of the other entries. -/
theorem Emits.pair {key value entries : BufM Unit} (hk : Emits S Item key) (hv : Emits S Item value)
    (h : Emits S (Pairs n) entries) : Emits S (Pairs (n + 1)) (do key; value; entries) := by
  have hrest : Emits S (fun bs => ∃ v cs, Item v ∧ Pairs n cs ∧ bs = v ++ cs) (do value; entries) :=
    hv.bind h fun v cs hv hcs => ⟨v, cs, hv, hcs, rfl⟩
  refine hk.bind hrest ?_
  rintro k _ hk ⟨v, cs, hv, hcs, rfl⟩
  exact .cons hk hv hcs

theorem Emits.described {descriptor value : BufM Unit} (hd : Emits S Item descriptor)
    (hv : Emits S Item value) : Emits S Item (do appendByte 0x0; descriptor; value) := by
  have hboth : Emits S (fun bs => ∃ x y, Item x ∧ Item y ∧ bs = x ++ y) (do descriptor; value) :=
    hd.bind hv fun x y hx hy => ⟨x, y, hx, hy, rfl⟩
  refine hboth.after [0x0] ?_
  rintro _ ⟨x, y, hx, hy, rfl⟩
  show Item (0x0 :: (x ++ y))
  exact .described hx hy

mutual

/-- **`Marshal` emits items.** -/
theorem emits_marshal : ∀ v : Value, (S → v.Single) → Emits S Item (marshal v)
  | .nil, _ => (Writes.appendBytes _).emits_fixed (by decide) rfl
  | .bool b, _ => emits_writeBool b
  | .uint n, _ => emits_writeUint64 n
  | .uint64 n, _ => emits_writeUint64 n
  | .uint32 n, _ => emits_writeUint32 n
  | .uint16 n, _ => (writes_uint16 _ n).emits_fixed (by decide) rfl
  | .uint8 _, _ => (Writes.appendBytes _).emits_fixed (by decide) rfl
  | .int n, _ => emits_writeInt64 n
  | .int8 _, _ => (Writes.appendBytes _).emits_fixed (by decide) rfl
  | .int16 n, _ => (writes_uint16 _ n.toUInt16).emits_fixed (by decide) rfl
  | .int32 n, _ => emits_writeInt32 n
  | .int64 n, _ => emits_writeInt64 n
  | .float32 bits, _ => ((Writes.appendBytes [float]).bind
      (.appendBytes (be32 bits))).emits_fixed (by decide) rfl
  | .float64 bits, _ => ((Writes.appendBytes [double]).bind
      (.appendBytes (be64 bits))).emits_fixed (by decide) rfl
  | .string s, _ => emits_writeString s
  | .symbol s, _ => emits_marshalSymbol s
  | .binary b, _ => emits_writeBinary b
  | .time t, _ => emits_writeTimestamp t
  | .uuid u, _ => emits_marshalUUID u
  | .arrayUByte a, _ => emits_marshalArrayUByte a
  | .arrayInt8 a, _ => emits_marshalArray (by decide) (fun _ => by rfl) a
  | .arrayUint16 a, _ => emits_marshalArray (by decide) (fun _ => by rfl) a
  | .arrayInt16 a, _ => emits_marshalArray (by decide) (fun _ => by rfl) a
  | .arrayUint32 a, _ => .ite
      (fun _ => emits_marshalArray (by decide) (fun _ => by rfl) a)
      (fun _ => emits_marshalArray (by decide) (fun _ => by rfl) a)
  | .arrayInt32 a, _ => .ite
      (fun _ => emits_marshalArray (by decide) (fun _ => by rfl) a)
      (fun _ => emits_marshalArray (by decide) (fun _ => by rfl) a)
  | .arrayUint64 a, _ => .ite
      (fun _ => emits_marshalArray (by decide) (fun _ => by rfl) a)
      (fun _ => emits_marshalArray (by decide) (fun _ => by rfl) a)
  | .arrayInt64 a, _ => .ite
      (fun _ => emits_marshalArray (by decide) (fun _ => by rfl) a)
      (fun _ => emits_marshalArray (by decide) (fun _ => by rfl) a)
  | .arrayFloat a, _ => emits_marshalArray (by decide) (fun _ => by rfl) a
  | .arrayDouble a, _ => emits_marshalArray (by decide) (fun _ => by rfl) a
  | .arrayBool a, _ => emits_marshalArray (by decide) (fun _ => by rfl) a
  | .arrayString a, _ => emits_marshalArrayString a
  | .arraySymbol a, _ => emits_marshalArraySymbol a
  | .arrayBinary a, _ => emits_marshalVariableArray (by decide) (by decide) (by decide) a
  | .arrayTimestamp a, _ => emits_marshalArray (by decide) (fun _ => by rfl) a
  | .arrayUUID a, _ => emits_marshalArray (by decide) UUID.length_bytes a
  | .list xs, h => emits_marshalList (emits_marshalElements xs h)
  | .mapAny m, h => emits_writeMap (emits_marshalEntries m h)
  | .mapString m, h => emits_writeMap (emits_marshalStringEntries m h)
  | .mapSymbol m, h => emits_writeMap (emits_marshalSymbolEntries m h)
  | .described d v, h => (emits_marshal d fun hS => (h hS).1).described (emits_marshal v fun hS => (h hS).2)
  | .error e, h => emits_marshalError e h
  | .state s, h => emits_marshalState s h
  | .lifetimePolicy code, _ => (Writes.appendBytes _).emits fun _ =>
    .described (item_descriptor code) (Items.nil.item_encodeList (by decide))
  | .marshaler m, h => emits_marshaler m h
  | .other _, _ => .fail _

theorem emits_marshalError : ∀ e : AmqpError Value, (S → SingleError e) → Emits S Item (marshalError e)
  | ⟨_, _, info⟩, h =>
    emits_marshalComposite (by simp [emits_writeMap (emits_marshalStringEntries info h)])

theorem emits_marshalState : ∀ s : DeliveryState Value, (S → SingleState s) → Emits S Item (marshalState s)
  | .received _ _, _ => emits_marshalComposite (by simp)
  | .accepted, _ => emits_marshalComposite (by simp)
  | .rejected none, _ => emits_marshalComposite (by simp)
  | .rejected (some e), h => emits_marshalComposite (by simp [emits_marshalError e h])
  | .released, _ => emits_marshalComposite (by simp)
  | .modified _ _ none, _ => emits_marshalComposite (by simp)
  | .modified _ _ (some m), h =>
    emits_marshalComposite (by simp [emits_writeMap (emits_marshalAnnotationEntries m h)])

theorem emits_marshalElements :
    ∀ xs : List Value, (S → SingleElements xs) → Emits S (Items xs.length) (marshalElements xs)
  | [], _ => Writes.pure.emits fun _ => .nil
  | x :: xs, h => (emits_marshal x fun hS => (h hS).1).bind
      (emits_marshalElements xs fun hS => (h hS).2) fun _ _ => .cons

theorem emits_marshalEntries :
    ∀ m : List (Value × Value), (S → SingleEntries m) → Emits S (Pairs m.length) (marshalEntries m)
  | [], _ => Writes.pure.emits fun _ => .nil
  | (k, v) :: m, h => (emits_marshal k fun hS => (h hS).1).pair (emits_marshal v fun hS => (h hS).2.1)
      (emits_marshalEntries m fun hS => (h hS).2.2)

theorem emits_marshalStringEntries :
    ∀ m : List (Bytes × Value), (S → SingleKeyed m) → Emits S (Pairs m.length) (marshalStringEntries m)
  | [], _ => Writes.pure.emits fun _ => .nil
  | (k, v) :: m, h => (emits_writeString k).pair (emits_marshal v fun hS => (h hS).1)
      (emits_marshalStringEntries m fun hS => (h hS).2)

theorem emits_marshalSymbolEntries :
    ∀ m : List (Bytes × Value), (S → SingleKeyed m) → Emits S (Pairs m.length) (marshalSymbolEntries m)
  | [], _ => Writes.pure.emits fun _ => .nil
  | (k, v) :: m, h => (emits_marshalSymbol k).pair (emits_marshal v fun hS => (h hS).1)
      (emits_marshalSymbolEntries m fun hS => (h hS).2)

theorem emits_marshalAnnotationEntries :
    ∀ m : List (Value × Value), (S → SingleEntries m) → Emits S (Pairs m.length) (marshalAnnotationEntries m)
  | [], _ => Writes.pure.emits fun _ => .nil
  | (k, v) :: m, h => (emits_marshalAnnotationKey k).pair (emits_marshal v fun hS => (h hS).2.1)
      (emits_marshalAnnotationEntries m fun hS => (h hS).2.2)

end

end GoAmqp
