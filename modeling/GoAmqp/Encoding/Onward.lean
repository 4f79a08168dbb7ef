import GoAmqp.Encoding.DecodeSpec.Scalars
import GoAmqp.Lib.Shrinks

set_option autoImplicit false

/-! # Decoding only moves onward

A decoder never changes the bytes of the buffer, never moves the read index back and never moves it
past the end, also when it returns an error and leaves the buffer where it stopped. When it returns a
value, it has read a type code or passed over a null, so at least one byte. The primitives of the
buffer are looked at one by one; everything else is made of them. -/

namespace GoAmqp

open Lib Buffer

/-- `b.Len()`. -/
def Buffer.left (r : Buffer) : Nat := r.b.length - r.i

/-- The unread bytes behind a record that is being decoded. -/
def leftInto {σ : Type} (s : σ × Buffer) : Nat := s.2.left

/-- The same bytes, the read index not before where it was, and not behind the end. -/
def Onward (r r' : Buffer) : Prop := r'.b = r.b ∧ r.i ≤ r'.i ∧ (r.WF → r'.WF)

/-- The same behind a record that is being decoded. -/
def OnwardInto {σ : Type} (s s' : σ × Buffer) : Prop := Onward s.2 s'.2

theorem Onward.trans {r r' r'' : Buffer} (h : Onward r r') (h' : Onward r' r'') : Onward r r'' :=
  ⟨h'.1.trans h.1, Nat.le_trans h.2.1 h'.2.1, fun hwf => h'.2.2 (h.2.2 hwf)⟩

instance : IsPreorder Buffer Onward where
  refl := fun _ => ⟨rfl, Nat.le_refl _, id⟩
  trans := fun _ _ _ => .trans

instance {σ : Type} : IsPreorder (σ × Buffer) OnwardInto where
  refl := fun s => Std.Refl.refl s.2
  trans := fun _ _ _ => .trans

theorem Onward.left_le {r r' : Buffer} (h : Onward r r') : r'.left ≤ r.left := by
  obtain ⟨hb, hi, -⟩ := h
  simp only [Buffer.left, hb]
  omega

instance {α : Type} (m : BufM α) [Steps Onward m] : Shrinks Buffer.left m :=
  Shrinks.of_steps fun _ _ => Onward.left_le

instance {σ α : Type} (m : IntoM σ α) [Steps OnwardInto m] : Shrinks leftInto m :=
  Shrinks.of_steps (R := OnwardInto) fun _ _ => Onward.left_le

/-- A decoder that moves onward, and has read at least one byte when it returns. -/
class Takes {α : Type} (m : BufM α) : Prop where
  steps : Steps Onward m
  consumes : Consumes Buffer.left m

/-- A decoder into a record that moves onward, and consumes when it returns. -/
class TakesInto {σ : Type} (m : IntoM σ Unit) : Prop where
  steps : Steps OnwardInto m
  consumes : Consumes leftInto m

section Takes

variable {σ α : Type}

theorem Takes.of {m : BufM α} [h : Steps Onward m] [h' : Consumes Buffer.left m] : Takes m := ⟨h, h'⟩

theorem TakesInto.of {m : IntoM σ Unit} [h : Steps OnwardInto m] [h' : Consumes leftInto m] : TakesInto m := ⟨h, h'⟩

instance (priority := low) (m : BufM α) [h : Takes m] : Steps Onward m := h.steps

instance (priority := low) (m : BufM α) [h : Takes m] : Consumes Buffer.left m := h.consumes

instance (priority := low) (m : IntoM σ Unit) [h : TakesInto m] : Steps OnwardInto m := h.steps

instance (priority := low) (m : IntoM σ Unit) [h : TakesInto m] : Consumes leftInto m := h.consumes

end Takes

section Primitives

variable {σ α : Type} {R : σ → σ → Prop} [IsPreorder σ R]

instance (b : List α) (i : Nat) : Steps R (index b i : EStateM Fault σ α) := by
  unfold index
  split <;> infer_instance

instance (b : List α) (i j : Nat) : Steps R (slice b i j : EStateM Fault σ (List α)) := by
  unfold slice
  infer_instance

instance (msg : String) : Steps R (fail msg : EStateM Fault σ α) := by
  unfold fail
  infer_instance

instance {left : σ → Nat} (msg : String) : Consumes left (fail msg : EStateM Fault σ α) := by
  unfold fail
  infer_instance

instance (m : List (Value × Value)) (k v : Value) :
    Steps R (assignAny m k v : EStateM Fault σ (List (Value × Value))) := by
  unfold assignAny
  infer_instance

end Primitives

/-! ## The buffer -/

section Reads

variable {α β : Type}

theorem onward_refl (r : Buffer) : Onward r r := Std.Refl.refl r

theorem steps_get {f : Buffer → BufM α} (h : ∀ r, Onward r (stateAfter ((f r).run r))) : Steps Onward (get >>= f) :=
  ⟨h⟩

/-- The index is set after something was read. -/
theorem onward_set {r r' : Buffer} {m : BufM α} [hm : Steps Onward m] {k : α → BufM β} [hk : ∀ a, Steps Onward (k a)]
    (hle : Onward r r') : Onward r (stateAfter ((m >>= fun a => set r' >>= fun _ => k a).run r)) := by
  have hread := hm.after r
  rw [EStateM.run_bind]
  cases hrun : m.run r with
  | ok a s => exact hle.trans ((hk a).after r')
  | error e s =>
    rw [hrun] at hread
    exact hread

theorem onward_advance {r : Buffer} {n : Nat} (h : ¬ r.readCheck n = true) : Onward r { r with i := r.i + n } := by
  simp only [readCheck, decide_eq_true_eq] at h
  exact ⟨rfl, Nat.le_add_right .., fun _ => Nat.le_of_not_lt h⟩

end Reads

instance : Steps Onward len := steps_get onward_refl

instance : Steps Onward bytes := steps_get fun r => Steps.after (m := slice r.b r.i r.b.length) r

instance (n : Nat) : Steps Onward (next n) := by
  refine steps_get fun r => ?_
  split
  · by_cases hwf : r.i ≤ r.b.length
    · exact onward_set ⟨rfl, hwf, fun _ => Nat.le_refl _⟩
    · -- behind the end there is nothing to slice
      simp only [slice, hwf, false_and, if_false]
      exact onward_refl r
  · next h => exact onward_set (onward_advance h)

instance : Steps Onward readByte := by
  refine steps_get fun r => ?_
  split
  · exact onward_refl r
  · next h => exact onward_set (onward_advance h)

instance : Steps Onward peekByte := by
  refine steps_get fun r => ?_
  split
  · exact onward_refl r
  · exact Steps.after (m := index r.b r.i) r

instance (k : Nat) (buf : Bytes) : Steps Onward (bigEndian k buf) := by
  unfold bigEndian
  infer_instance

instance (k : Nat) : Steps Onward (readUint k) := by
  refine steps_get fun r => ?_
  split
  · exact onward_refl r
  · next h =>
    rw [← bind_assoc]
    exact onward_set (onward_advance h)

instance : Steps Onward readUint16 := inferInstanceAs (Steps _ (UInt16.ofNat <$> readUint 2))

instance : Steps Onward readUint32 := inferInstanceAs (Steps _ (UInt32.ofNat <$> readUint 4))

instance : Steps Onward readUint64 := inferInstanceAs (Steps _ (UInt64.ofNat <$> readUint 8))

/-! ## Headers and scalars -/

instance : Steps Onward readType := inferInstanceAs (Steps _ readByte)

instance : Steps Onward peekType := inferInstanceAs (Steps _ peekByte)

theorem left_eq_length_unread (r : Buffer) : r.left = r.unread.length := (length_unread r).symm

theorem wf_of_unread_cons {r : Buffer} {t : UInt8} {rest : Bytes} (h : r.unread = t :: rest) : r.WF := by
  have hlen := congrArg List.length h
  rw [length_unread, List.length_cons] at hlen
  unfold WF
  omega

/-- A null is passed over; in front of anything else the buffer stays where it is. -/
theorem tryReadNull_cases (r : Buffer) :
    (∃ rest, r.unread = TypeCode.null :: rest ∧ tryReadNull.run r = .ok true (r.advance 1)) ∨
      (∀ rest, r.unread ≠ TypeCode.null :: rest) ∧ tryReadNull.run r = .ok false r := by
  match hu : r.unread with
  | [] =>
    have hleft : r.b.length - r.i = 0 := by rw [← length_unread, hu, List.length_nil]
    refine .inr ⟨nofun, ?_⟩
    show (len >>= _).run r = _
    rw [EStateM.run_bind]
    show EStateM.run (if r.b.length - r.i > 0 then _ else _) r = _
    rw [if_neg (by omega)]
    rfl
  | t :: rest =>
    have hwf := wf_of_unread_cons hu
    by_cases ht : t = TypeCode.null
    · rw [ht] at hu ⊢
      exact .inl ⟨rest, rfl, reads_tryReadNull r hwf hu⟩
    · exact .inr ⟨fun _ h => ht (List.cons.inj h).1, reads_tryReadNull_other ht r hwf hu⟩

theorem onward_advance_of_le {r : Buffer} {n : Nat} (h : n ≤ r.left) : Onward r (r.advance n) := by
  refine ⟨rfl, Nat.le_add_right .., fun hwf => hwf.advance ?_⟩
  rwa [← left_eq_length_unread]

instance : Steps Onward tryReadNull := by
  constructor
  intro r
  rcases tryReadNull_cases r with ⟨rest, hu, hrun⟩ | ⟨-, hrun⟩
  · rw [hrun]
    refine onward_advance_of_le ?_
    rw [left_eq_length_unread, hu, List.length_cons]
    omega
  · rw [hrun]
    exact onward_refl r

theorem left_lt_of_reads {α : Type} {m : BufM α} {bs rest : Bytes} {a b : α} {r r' : Buffer} (h : Reads m bs rest a)
    (hwf : r.WF) (hu : r.unread = bs ++ rest) (hbs : bs ≠ []) (hrun : m.run r = .ok b r') : r'.left < r.left := by
  have hr' : r' = r.advance bs.length := by
    have hok := (h r hwf hu).symm.trans hrun
    injection hok with _ hstate
    exact hstate.symm
  have hlen := List.length_pos_iff.mpr hbs
  rw [hr', left_eq_length_unread, left_eq_length_unread, unread_advance, List.length_drop, hu, List.length_append]
  omega

instance : Consumes Buffer.left readByte := by
  constructor
  intro r x r' hrun
  match hu : r.unread with
  | [] =>
    have hleft : r.b.length - r.i = 0 := by rw [← length_unread, hu, List.length_nil]
    have hcheck : r.readCheck 1 = true := by
      simp only [readCheck, decide_eq_true_eq]
      omega
    have hfail : readByte.run r = .error (.err "EOF") r := by
      show EStateM.run (if r.readCheck 1 then _ else _) r = _
      rw [if_pos hcheck]
      rfl
    rw [hfail] at hrun
    cases hrun
  | t :: rest =>
    exact left_lt_of_reads (reads_readByte t) (wf_of_unread_cons hu) hu (by simp) hrun

instance : Consumes Buffer.left readType := inferInstanceAs (Consumes _ readByte)

/-- What follows a test for null consumes, also when the test passed over one. -/
theorem consumes_orNull {α : Type} {m k : BufM α} [hm : Steps Onward m] [hk : Consumes Buffer.left k] :
    Consumes Buffer.left (do if ← tryReadNull then m else k) := by
  constructor
  intro r a r' hrun
  obtain ⟨b, t, hnull, hrest⟩ := Consumes.bind_ok hrun
  rcases tryReadNull_cases r with ⟨rest, hu, htrue⟩ | ⟨-, hfalse⟩
  · rw [htrue] at hnull
    injection hnull with hb ht
    subst hb ht
    have hstep := (Steps.ok m hrest : Onward _ _).left_le
    have hadvance : (r.advance 1).left < r.left := by
      rw [left_eq_length_unread, left_eq_length_unread, unread_advance, hu]
      simp
    exact Nat.lt_of_le_of_lt hstep hadvance
  · rw [hfalse] at hnull
    injection hnull with hb ht
    subst hb ht
    exact hk.lt r a r' hrest

instance (avail : Nat) : Steps Onward (readSizes8 avail) := by unfold readSizes8; infer_instance

instance (avail : Nat) (tooLong : String) : Steps Onward (readSizes32 avail tooLong) := by
  unfold readSizes32
  infer_instance

instance : Takes readListHeader := by unfold readListHeader; exact .of

instance : Takes readArrayHeader := by unfold readArrayHeader; exact .of

instance (type_ : UInt8) (length : Nat) : Steps Onward (readMapSizes type_ length) := by
  unfold readMapSizes
  infer_instance

instance : Takes readMapHeader := by unfold readMapHeader; exact .of

instance (is8 is32 : UInt8 → Bool) (kind : String) (type_ : UInt8) :
    Steps Onward (readLength is8 is32 kind type_) := by
  unfold readLength
  infer_instance

instance (is8 is32 : UInt8 → Bool) (kind : String) : Takes (readVariable is8 is32 kind) := by
  unfold readVariable
  exact .of

instance : Takes readString := by unfold readString; exact .of

instance : Takes readBinary := by unfold readBinary; exact .of

instance : Takes readTimestamp := by unfold readTimestamp; exact .of

instance : Takes readLong := by unfold readLong; exact .of

instance : Takes readInt32 := by unfold readInt32; exact .of

instance {α : Type} (code : UInt8) (name : String) (read : BufM α) [Steps Onward read] :
    Takes (readFixed code name read) := by
  unfold readFixed
  exact .of

instance : Takes readShort := by unfold readShort; exact .of

instance : Takes readSbyte := by unfold readSbyte; exact .of

instance : Takes readUbyte := by unfold readUbyte; exact .of

instance : Takes readUshort := by unfold readUshort; exact .of

instance : Takes readFloat := by unfold readFloat; exact .of

instance : Takes readDouble := by unfold readDouble; exact .of

instance : Takes readUint32Value := by unfold readUint32Value; exact .of

instance : Takes readUlong := by unfold readUlong; exact .of

instance : Takes readBool := by unfold readBool; exact .of

instance : Takes readUintValue := by unfold readUintValue; exact .of

instance (buf : Bytes) : Steps Onward (UUID.ofBytes buf) := by
  unfold UUID.ofBytes
  split <;> infer_instance

instance : Takes readUUID := by unfold readUUID; exact .of

/-! ## Arrays -/

instance {α : Type} (typeSize : Nat) (element : Bytes → BufM α) [∀ buf, Steps Onward (element buf)]
    (n : Nat) (buf : Bytes) : Steps Onward (elements typeSize element n buf) := by
  induction n generalizing buf with
  | zero => exact .pure []
  | succ n ih =>
    unfold elements
    infer_instance

instance {α : Type} (typeSize : Nat) (tooLong : String) (element : Bytes → BufM α)
    [∀ buf, Steps Onward (element buf)] (length : Nat) :
    Steps Onward (readElements typeSize tooLong element length) := by
  unfold readElements
  infer_instance

instance {α : Type} (code : UInt8) (name : String) (typeSize : Nat) (element : Bytes → BufM α)
    [∀ buf, Steps Onward (element buf)] :
    Takes (unmarshalArray code name typeSize element) := by
  unfold unmarshalArray
  exact .of

instance {α : Type} (f : UInt8 → α) (buf : Bytes) : Steps Onward (byteElement f buf) := by
  unfold byteElement
  infer_instance

instance (buf : Bytes) : Steps Onward (uint16Element buf) := by unfold uint16Element; infer_instance

instance (buf : Bytes) : Steps Onward (uint32Element buf) := by unfold uint32Element; infer_instance

instance (buf : Bytes) : Steps Onward (uint64Element buf) := by unfold uint64Element; infer_instance

instance (tooLong : String) : Steps Onward (element8 tooLong) := by unfold element8; infer_instance

instance : Steps Onward element32 := by unfold element32; infer_instance

instance (code8 code32 : UInt8) (name : String) (tooLong8 : Nat → String) :
    Takes (unmarshalVariableArray code8 code32 name tooLong8) := by
  unfold unmarshalVariableArray
  exact .of

instance : Takes unmarshalArrayInt8 := by unfold unmarshalArrayInt8; exact .of

instance : Takes unmarshalArrayUByte := by unfold unmarshalArrayUByte; exact .of

instance : Takes unmarshalArrayUint16 := by unfold unmarshalArrayUint16; exact .of

instance : Takes unmarshalArrayInt16 := by unfold unmarshalArrayInt16; exact .of

instance : Takes unmarshalArrayUint32 := by unfold unmarshalArrayUint32; exact .of

instance : Takes unmarshalArrayInt32 := by unfold unmarshalArrayInt32; exact .of

instance : Takes unmarshalArrayUint64 := by unfold unmarshalArrayUint64; exact .of

instance : Takes unmarshalArrayInt64 := by unfold unmarshalArrayInt64; exact .of

instance : Takes unmarshalArrayFloat := by unfold unmarshalArrayFloat; exact .of

instance : Takes unmarshalArrayDouble := by unfold unmarshalArrayDouble; exact .of

instance : Takes unmarshalArrayBool := by unfold unmarshalArrayBool; exact .of

instance : Takes unmarshalArrayString := by unfold unmarshalArrayString; exact .of

instance : Takes unmarshalArraySymbol := by unfold unmarshalArraySymbol; exact .of

instance : Takes unmarshalArrayBinary := by unfold unmarshalArrayBinary; exact .of

instance : Takes unmarshalArrayTimestamp := by unfold unmarshalArrayTimestamp; exact .of

instance : Takes unmarshalArrayUUID := by unfold unmarshalArrayUUID; exact .of

instance : Takes unmarshalMultiSymbol := by unfold unmarshalMultiSymbol; exact .of

instance (code : UInt8) : Takes (arrayReader code) := by unfold arrayReader; exact .of

instance (b0 : UInt8) : Steps Onward (arrayTypeIdx b0) := by unfold arrayTypeIdx; infer_instance

instance : Takes readAnyArray := by unfold readAnyArray; exact .of

/-! ## Records -/

section Records

variable {σ τ α : Type}

instance (m : BufM α) [h : Steps Onward m] : Steps OnwardInto (onBuffer m : IntoM σ α) := by
  constructor
  intro s
  have hm := h.after s.2
  show OnwardInto s (stateAfter (onBuffer m s))
  unfold onBuffer
  cases hrun : m.run s.2 <;> rw [hrun] at hm <;> exact hm

instance (m : BufM α) [h : Consumes Buffer.left m] : Consumes leftInto (onBuffer m : IntoM σ α) := by
  constructor
  intro s a s' hrun
  cases hm : m.run s.2 with
  | ok b r =>
    rw [run_onBuffer hm] at hrun
    injection hrun with _ hs
    rw [← hs]
    exact h.lt s.2 b r hm
  | error e r =>
    rw [run_onBuffer_error hm] at hrun
    cases hrun

instance (part : σ → τ) (put : τ → σ → σ) (m : IntoM τ α) [h : Steps OnwardInto m] :
    Steps OnwardInto (zoom part put m) := by
  constructor
  intro s
  have hm := h.after (part s.1, s.2)
  show OnwardInto s (stateAfter (zoom part put m s))
  unfold zoom
  cases hrun : m.run (part s.1, s.2) <;> rw [hrun] at hm <;> exact hm

instance (zero : σ) (m : IntoM σ Unit) [h : Steps OnwardInto m] : Steps Onward (runNew zero m) := by
  constructor
  intro r
  have hm := h.after (zero, r)
  show Onward r (stateAfter (runNew zero m r))
  unfold runNew
  cases hrun : m.run (zero, r) <;> rw [hrun] at hm <;> exact hm

instance (zero : σ) (m : IntoM σ Unit) [h : Consumes leftInto m] :
    Consumes Buffer.left (runNew zero m) := by
  constructor
  intro r a r' hrun
  have hnew : runNew zero m r = .ok a r' := hrun
  unfold runNew at hnew
  cases hm : m.run (zero, r) with
  | ok b t =>
    rw [hm] at hnew
    injection hnew with _ hr
    rw [← hr]
    exact h.lt (zero, r) b t hm
  | error e t =>
    rw [hm] at hnew
    cases hnew

/-- Changing the record leaves the buffer as it is. -/
instance (f : σ × Buffer → σ) : Steps OnwardInto (modify fun s => (f s, s.2) : IntoM σ PUnit) :=
  ⟨fun s => onward_refl s.2⟩

instance steps_orNull (m : IntoM σ Unit) [Steps OnwardInto m] : Steps OnwardInto (orNull m) := by
  unfold orNull
  infer_instance

instance consumes_orNull_into (m : IntoM σ Unit) [hm : Consumes leftInto m] :
    Consumes leftInto (orNull m) := by
  constructor
  intro s a s' hrun
  obtain ⟨b, t, hnull, hrest⟩ := Consumes.bind_ok hrun
  rcases tryReadNull_cases s.2 with ⟨rest, hu, htrue⟩ | ⟨-, hfalse⟩
  · rw [run_onBuffer htrue] at hnull
    injection hnull with hb ht
    subst hb ht
    injection hrest with _ hs
    rw [← hs]
    show (s.2.advance 1).left < s.2.left
    rw [left_eq_length_unread, left_eq_length_unread, unread_advance, hu]
    simp
  · rw [run_onBuffer hfalse] at hnull
    injection hnull with hb ht
    subst hb ht
    exact hm.lt _ a s' hrest

instance (read : BufM α) [Steps Onward read] (put : α → σ → σ) : Steps OnwardInto (assign read put) := by
  unfold assign
  infer_instance

instance (read : BufM α) [Consumes Buffer.left read] (put : α → σ → σ) :
    Consumes leftInto (assign read put) := by
  unfold assign
  infer_instance

instance (read : BufM α) [h : Steps Onward read] (zero : α) (put : α → σ → σ) :
    Steps OnwardInto (assignAlways read zero put) := by
  unfold assignAlways
  refine @steps_orNull σ _ ⟨fun s => ?_⟩
  have hm := h.after s.2
  unfold EStateM.run at hm ⊢
  beta_reduce
  cases hrun : read s.2 <;> rw [hrun] at hm <;> exact hm

instance (part : σ → Option τ) (put : Option τ → σ → σ) (zero : τ) (m : IntoM τ Unit) [Steps OnwardInto m] :
    Steps OnwardInto (assignPtr part put zero m) := by
  unfold assignPtr
  infer_instance

instance (f : UnmarshalField σ) : Steps OnwardInto f.null := by
  unfold UnmarshalField.null
  split
  · infer_instance
  · next h _ =>
    constructor
    intro s
    unfold EStateM.run
    beta_reduce
    cases h s.1 <;> exact onward_refl _

/-- The readers of all fields. -/
class FieldsStep (fields : List (UnmarshalField σ)) : Prop where
  field : ∀ f ∈ fields, Steps OnwardInto f.field

instance : FieldsStep ([] : List (UnmarshalField σ)) := ⟨fun _ h => absurd h List.not_mem_nil⟩

instance (f : UnmarshalField σ) (fs : List (UnmarshalField σ)) [hf : Steps OnwardInto f.field]
    [hfs : FieldsStep fs] : FieldsStep (f :: fs) :=
  ⟨List.forall_mem_cons.mpr ⟨hf, hfs.field⟩⟩

instance (i : Nat) (f : UnmarshalField σ) [Steps OnwardInto f.field] : Steps OnwardInto (unmarshalField i f) := by
  unfold unmarshalField
  infer_instance

theorem steps_unmarshalFields (i : Nat) {fields : List (UnmarshalField σ)}
    (h : ∀ f ∈ fields, Steps OnwardInto f.field) : Steps OnwardInto (unmarshalFields i fields) := by
  induction fields generalizing i with
  | nil => exact .pure ()
  | cons f fs ih =>
    obtain ⟨hf, hfs⟩ := List.forall_mem_cons.mp h
    have hrest := ih (i + 1) hfs
    unfold unmarshalFields
    infer_instance

instance (fields : List (UnmarshalField σ)) : Steps OnwardInto (nullFields fields) := by
  induction fields with
  | nil => exact .pure ()
  | cons f fs ih =>
    unfold nullFields
    infer_instance

instance : Takes readCompositeHeader := by unfold readCompositeHeader; exact .of

instance (type_ : UInt8) (fields : List (UnmarshalField σ)) [h : FieldsStep fields] :
    TakesInto (unmarshalComposite type_ fields) := by
  have hpresent : ∀ n, Steps OnwardInto (unmarshalFields 0 (fields.take n)) := fun n =>
    steps_unmarshalFields 0 fun f hf => h.field f (List.mem_of_mem_take hf)
  unfold unmarshalComposite
  exact .of

end Records

instance (buf : Bytes) : Steps Onward (peekMessageType buf) := by unfold peekMessageType; infer_instance

/-! ## Lists, maps and `ReadAny` -/

instance {μ : Type} (round : μ → BufM μ) [∀ m, Steps Onward (round m)] (bound : Nat) (i count : UInt32)
    (m : μ) : Steps Onward (mapLoop round bound i count m) := by
  induction bound generalizing i m with
  | zero => exact .throw _
  | succ bound ih =>
    unfold mapLoop
    infer_instance

instance {κ β : Type} (round : List (κ × β) → BufM (List (κ × β))) [∀ m, Steps Onward (round m)] :
    Takes (unmarshalMap round) := by
  unfold unmarshalMap
  exact .of

section ReadAny

variable (readAny : BufM Value) [Steps Onward readAny]

instance : Takes (unmarshalList readAny) := by unfold unmarshalList; exact .of

instance : Takes (unmarshalMapAnyAny readAny) := by unfold unmarshalMapAnyAny; exact .of

instance : Takes (unmarshalAnnotations readAny) := by unfold unmarshalAnnotations; exact .of

instance : Takes (unmarshalMapStringAny readAny) := by unfold unmarshalMapStringAny; exact .of

instance : Takes (readAnyMap readAny) := by unfold readAnyMap; exact .of

instance : Steps Onward (unmarshalAny readAny) := by unfold unmarshalAny; infer_instance

instance : Takes (unmarshalDescribed readAny) := by unfold unmarshalDescribed; exact .of

instance : TakesInto (unmarshalError readAny) := by unfold unmarshalError; exact .of

instance : TakesInto unmarshalStateReceived := by unfold unmarshalStateReceived; exact .of

instance : TakesInto (unmarshalStateRejected readAny) := by unfold unmarshalStateRejected; exact .of

instance : TakesInto (unmarshalStateModified readAny) := by unfold unmarshalStateModified; exact .of

instance (code : UInt8) : Takes (unmarshalState readAny code) := by
  unfold unmarshalState
  exact .of

instance : Takes (unmarshalDeliveryState readAny) := by
  unfold unmarshalDeliveryState
  exact .of

instance : Takes unmarshalLifetimePolicy := by unfold unmarshalLifetimePolicy; exact .of

instance (buf : Bytes) : Steps Onward (peekDescriptor buf) := by unfold peekDescriptor; infer_instance

instance : Takes (readDescribed readAny) := by unfold readDescribed; exact .of

instance (code : UInt8) : Takes (compositeReader readAny code) := by
  unfold compositeReader
  exact .of

instance : Takes (readComposite readAny) := by unfold readComposite; exact .of

instance (type_ : UInt8) : Takes (anyReader readAny type_) := by
  unfold anyReader
  exact .of

instance : Takes (readAnyBody readAny) := by
  unfold readAnyBody
  exact ⟨inferInstance, consumes_orNull⟩

end ReadAny

instance (depth : Nat) : Takes (readAnyDepth depth) := by
  induction depth with
  | zero => exact ⟨.throw _, .throw _⟩
  | succ depth ih =>
    unfold readAnyDepth
    infer_instance

instance : Takes readAny := by unfold readAny; exact .of

end GoAmqp
