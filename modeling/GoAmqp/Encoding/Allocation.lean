import GoAmqp.Encoding.DecodeLayout.Scalars
import GoAmqp.Encoding.MapRounds
import GoAmqp.Frames.Onward

set_option autoImplicit false

/-! # What the decoders allocate

Each array, list and map decoder has one `make`, whose length comes from the header of the value. A
`Making` cuts such a decoder in two: what runs up to the `make`, with the length it asks for, and what
runs afterwards. The two pieces put together are the decoder again, so the length is what the decoder
allocates, whether or not it then succeeds. The rules follow the text of the decoders.

Most decoders have compared the length with the bytes that are left. Three have not: `arrayUint32`
and `arrayUint64` for elements that have no bytes, and `arrayBool`, which allocates before it has
looked at the type of its elements. For these, and so for `ReadAny`, the bound depends on what the
header of the array declares, and on nothing else. -/

namespace GoAmqp

open Lib Buffer TypeCode List EStateM

variable {p : Prop} {r r' : Buffer} {n : Nat} {α β γ : Type}

/-- A decoder in two pieces. `upTo` runs up to the `make` and returns the length it asks for and what
    is left of the decoder. -/
class Making (m : BufM α) where
  upTo : BufM (Nat × BufM α)
  whole : upTo >>= Prod.snd = m

/-- The decoder at `r` gets as far as its `make` and asks for `n` elements. -/
def Allocates (m : BufM α) [c : Making m] (r : Buffer) (n : Nat) : Prop := ∃ rest r', c.upTo.run r = .ok (n, rest) r'

/-- What is allocated at `r` is at most what is unread there. -/
def Bounded (m : BufM α) [Making m] (r : Buffer) : Prop := ∀ n, Allocates m r n → n ≤ r.left

theorem fail_bind {σ α β : Type} (msg : String) (f : α → EStateM Fault σ β) :
    (fail msg : EStateM Fault σ α) >>= f = fail msg :=
  funext fun _ => rfl

theorem ite_bind {σ α β : Type} {c : Prop} [Decidable c] (m m' : EStateM Fault σ α)
    (f : α → EStateM Fault σ β) : (if c then m else m') >>= f = if c then m >>= f else m' >>= f := by
  split <;> rfl

namespace Making

variable {m m' : BufM α} {f : γ → BufM α}

instance fail (msg : String) : Making (Lib.fail msg : BufM α) := ⟨Lib.fail msg, fail_bind msg _⟩

theorem whole_ite [Decidable p] [c : Making m] [d : Making m'] :
    (if p then c.upTo else d.upTo) >>= Prod.snd = if p then m else m' := by
  rw [ite_bind, c.whole, d.whole]

instance ite [Decidable p] [c : Making m] [d : Making m'] : Making (if p then m else m') :=
  ⟨if p then c.upTo else d.upTo, whole_ite⟩

theorem whole_bind {m : BufM γ} [c : ∀ a, Making (f a)] : (m >>= fun a => (c a).upTo) >>= Prod.snd = m >>= f := by
  simp [whole]

/-- The `make` stands in the continuation. -/
instance bind {m : BufM γ} [c : ∀ a, Making (f a)] : Making (m >>= f) := ⟨m >>= fun a => (c a).upTo, whole_bind⟩

@[simp] theorem upTo_ite [Decidable p] [Making m] [Making m'] :
    upTo (if p then m else m') = if p then upTo m else upTo m' := rfl

@[simp] theorem upTo_bind {m : BufM γ} [∀ a, Making (f a)] : upTo (m >>= f) = m >>= fun a => upTo (f a) := rfl

/-- The first piece of `m`, and `f` after the second. -/
def upToThen (m : BufM γ) [c : Making m] (f : γ → BufM α) : BufM (Nat × BufM α) :=
  (fun p => (p.1, p.2 >>= f)) <$> c.upTo

theorem whole_upToThen (m : BufM γ) [c : Making m] (f : γ → BufM α) : upToThen m f >>= Prod.snd = m >>= f := by
  conv_rhs => rw [← c.whole]
  simp [upToThen]

instance map (f : γ → α) (m : BufM γ) [Making m] : Making (f <$> m) :=
  ⟨upToThen m (pure ∘ f), (whole_upToThen m _).trans (map_eq_pure_bind f m).symm⟩

end Making

/-! ## The decoders in two pieces -/

section Arrays

variable (typeSize : Nat) (tooLong : String) (element : Bytes → BufM α) (length : Nat)

/-- Elements of `typeSize` bytes each: they are taken from the buffer before the `make`. -/
def makingElements : BufM (Nat × BufM (List α)) := do
  let (buf, ok) ← next (length * typeSize)
  if !ok then fail tooLong else pure (length, elements typeSize element length buf)

theorem whole_makingElements :
    makingElements typeSize tooLong element length >>= Prod.snd
      = readElements typeSize tooLong element length := by
  simp [makingElements, readElements, fail_bind, ite_bind]

instance : Making (readElements typeSize tooLong element length) :=
  ⟨makingElements typeSize tooLong element length, whole_makingElements ..⟩

/-- Elements that have no bytes. -/
instance (x : α) : Making (pure (replicate length x) : BufM (List α)) :=
  ⟨pure (length, pure (replicate length x)), pure_bind ..⟩

end Arrays

/-- A length that was compared with the bytes that are left. -/
instance (readAny : BufM Value) (length : Nat) : Making (readN readAny length) :=
  ⟨pure (length, readN readAny length), pure_bind ..⟩

/-- `append([]byte(nil), buf...)` allocates what was taken from the buffer. -/
def makingArrayUByte : BufM (Nat × BufM (List UInt8)) := do
  let length ← readArrayHeader
  let type_ ← readType
  if type_ ≠ ubyte then fail ("invalid type for []uint16 " ++ hex2 type_)
  else
    let (buf, ok) ← next length
    if !ok then fail (s!"invalid length {length}") else pure (length, pure buf)

theorem whole_makingArrayUByte : makingArrayUByte >>= Prod.snd = unmarshalArrayUByte := by
  simp [makingArrayUByte, unmarshalArrayUByte, fail_bind, ite_bind]

/-- The `make` of `arrayBool` stands before the element type is read. -/
def makingArrayBool : BufM (Nat × BufM (List Bool)) := do
  let length ← readArrayHeader
  pure (length, do
    let type_ ← readType
    if type_ = TypeCode.bool then
      readElements 1 "invalid length" (byteElement fun b => decide (b ≠ 0)) length
    else if type_ = boolTrue then pure (replicate length true)
    else if type_ = boolFalse then pure (replicate length false)
    else fail ("invalid type for []bool " ++ hex2 type_))

theorem whole_makingArrayBool : makingArrayBool >>= Prod.snd = unmarshalArrayBool := by
  simp [makingArrayBool, unmarshalArrayBool]

/-- Strings, symbols and byte slices: the `make` stands before the element type is read, but the
    count has been compared with the bytes that are left. -/
def makingVariableArray (code8 code32 : UInt8) (name : String) (tooLong8 : Nat → String) :
    BufM (Nat × BufM (List Bytes)) := do
  let length ← readArrayHeader
  let left ← len
  if length * 2 > left then fail (s!"invalid length {length}")
  else pure (length, do
    let type_ ← readType
    if type_ = code8 then readN (element8 (tooLong8 length)) length
    else if type_ = code32 then readN element32 length
    else fail ("invalid type for " ++ name ++ " " ++ hex2 type_))

theorem whole_makingVariableArray (code8 code32 : UInt8) (name : String) (tooLong8 : Nat → String) :
    makingVariableArray code8 code32 name tooLong8 >>= Prod.snd
      = unmarshalVariableArray code8 code32 name tooLong8 := by
  simp [makingVariableArray, unmarshalVariableArray, fail_bind, ite_bind]

/-- The map decoders make room for half as many entries as there are keys and values. -/
def makingMap {κ β : Type} (round : List (κ × β) → BufM (List (κ × β))) :
    BufM (Nat × BufM (List (κ × β))) := do
  let count ← readMapHeader
  pure (count.toNat / 2, do
    let left ← len
    mapLoop round (left + 1) 0 count [])

theorem whole_makingMap {κ β : Type} (round : List (κ × β) → BufM (List (κ × β))) :
    makingMap round >>= Prod.snd = unmarshalMap round := by
  simp [makingMap, unmarshalMap]

instance : Making unmarshalArrayBool := ⟨makingArrayBool, whole_makingArrayBool⟩

instance : Making unmarshalArrayUint32 := by delta unmarshalArrayUint32; infer_instance

instance : Making unmarshalArrayUint64 := by delta unmarshalArrayUint64; infer_instance

/-! ## Lengths and bytes that are left -/

/-- A first piece that asks for at most as many elements as there were unread bytes. -/
def Fits (u : BufM (Nat × β)) : Prop := ∀ r p r', u.run r = .ok p r' → p.1 ≤ r.left

namespace Fits

theorem fail (msg : String) : Fits (Lib.fail msg : BufM (Nat × β)) := by
  intro r p r' hrun
  cases hrun

theorem ite [Decidable p] {u u' : BufM (Nat × β)} (h : Fits u) (h' : Fits u') : Fits (if p then u else u') := by
  split <;> assumption

/-- What is read before can only leave less. -/
theorem bind {m : BufM γ} [Steps Onward m] {u : γ → BufM (Nat × β)} (h : ∀ a, Fits (u a)) : Fits (m >>= u) := by
  intro r p r' hrun
  obtain ⟨a, t, hm, hu⟩ := Consumes.bind_ok hrun
  exact Nat.le_trans (h a t p r' hu) (Steps.ok m hm : Onward _ _).left_le

theorem upToThen {m : BufM γ} [c : Making m] (h : Fits c.upTo) (f : γ → BufM α) : Fits (Making.upToThen m f) := by
  intro r p r' hrun
  rw [Making.upToThen, map_eq_pure_bind] at hrun
  obtain ⟨q, t, hu, hrest⟩ := Consumes.bind_ok hrun
  injection hrest with hp _
  rw [← hp]
  exact h r q t hu

end Fits

/-- Bytes that `Next` returned were there. -/
theorem next_ok {k : Nat} {buf : Bytes} (hrun : (next k).run r = .ok (buf, true) r') :
    k ≤ r.left ∧ r' = r.advance k := by
  have hif : run (if r.readCheck k then (do
      let buf ← slice r.b r.i r.b.length
      set { r with i := r.b.length }
      pure (buf, false))
    else (do
      let buf ← slice r.b r.i (r.i + k)
      set { r with i := r.i + k }
      pure (buf, true))) r = .ok (buf, true) r' := hrun
  by_cases hcheck : r.readCheck k = true
  · rw [if_pos hcheck] at hif
    obtain ⟨b, t, -, hrest⟩ := Consumes.bind_ok hif
    cases hrest
  · rw [if_neg hcheck] at hif
    obtain ⟨b, t, -, hrest⟩ := Consumes.bind_ok hif
    injection hrest with _ hr
    simp only [readCheck, decide_eq_true_eq] at hcheck
    refine ⟨?_, hr.symm⟩
    rw [Buffer.left]
    omega

/-- A length of which the bytes were taken from the buffer. -/
theorem fits_next {k : Nat} (hk : n ≤ k) {msg : String} {rest : Bytes → β} :
    Fits (do
      let (buf, ok) ← next k
      if !ok then fail msg else pure (n, rest buf)) := by
  intro r p r' hrun
  obtain ⟨⟨buf, ok⟩, t, hnext, hrest⟩ := Consumes.bind_ok hrun
  cases ok with
  | false => cases hrest
  | true =>
    injection hrest with hp _
    rw [← hp]
    exact Nat.le_trans hk (next_ok hnext).1

/-- A length that was compared with what is left. -/
theorem fits_len {c : Nat → Prop} [DecidablePred c] {msg : String} {rest : β} (hc : ∀ left, ¬ c left → n ≤ left) :
    Fits (do
      let left ← len
      if c left then fail msg else pure (n, rest)) := by
  intro r p r' hrun
  have hif : run (if c r.left then fail msg else pure (n, rest)) r = .ok p r' := hrun
  by_cases h : c r.left
  · rw [if_pos h] at hif
    cases hif
  · rw [if_neg h] at hif
    injection hif with hp _
    rw [← hp]
    exact hc r.left h

theorem fits_makingMap {κ β : Type} (round : List (κ × β) → BufM (List (κ × β))) : Fits (makingMap round) := by
  intro r p r' hrun
  obtain ⟨count, t, hheader, hrest⟩ := Consumes.bind_ok hrun
  injection hrest with hp _
  rw [← hp]
  calc count.toNat / 2 ≤ count.toNat := Nat.div_le_self ..
    _ ≤ t.left := count_le_left hheader
    _ ≤ r.left := (Steps.ok readMapHeader hheader : Onward _ _).left_le

/-- A decoder that allocates at most as many elements as there are unread bytes. -/
class Checked (m : BufM α) extends Making m where
  fits : Fits upTo

theorem Checked.bounded (m : BufM α) [c : Checked m] (r : Buffer) : Bounded m r := by
  rintro n ⟨rest, r', hrun⟩
  exact c.fits r (n, rest) r' hrun

namespace Checked

variable {m m' : BufM α} {f : γ → BufM α}

instance fail (msg : String) : Checked (Lib.fail msg : BufM α) := ⟨.fail msg⟩

instance ite [Decidable p] [c : Checked m] [d : Checked m'] : Checked (if p then m else m') := ⟨.ite c.fits d.fits⟩

instance bind {m : BufM γ} [Steps Onward m] [c : ∀ a, Checked (f a)] : Checked (m >>= f) :=
  ⟨.bind fun a => (c a).fits⟩

instance map (f : γ → α) (m : BufM γ) [c : Checked m] : Checked (f <$> m) := ⟨.upToThen c.fits _⟩

instance readElements {typeSize : Nat} [NeZero typeSize] {tooLong : String} {element : Bytes → BufM α}
    {length : Nat} : Checked (readElements typeSize tooLong element length) :=
  ⟨fits_next (Nat.le_mul_of_pos_right _ (Nat.pos_of_neZero _))⟩

end Checked

instance {code : UInt8} {name : String} {typeSize : Nat} [NeZero typeSize] {element : Bytes → BufM α} :
    Checked (unmarshalArray code name typeSize element) := by delta unmarshalArray; infer_instance

instance {code8 code32 : UInt8} {name : String} {tooLong8 : Nat → String} :
    Checked (unmarshalVariableArray code8 code32 name tooLong8) where
  upTo := makingVariableArray code8 code32 name tooLong8
  whole := whole_makingVariableArray ..
  fits := .bind fun _ => fits_len fun _ h => by omega

instance : Checked unmarshalArrayUByte where
  upTo := makingArrayUByte
  whole := whole_makingArrayUByte
  fits := .bind fun _ => .bind fun _ => .ite (.fail _) (fits_next (Nat.le_refl _))

instance (readAny : BufM Value) : Checked (unmarshalList readAny) where
  toMaking := by delta unmarshalList; infer_instance
  fits := .bind fun _ => fits_len fun _ h => Nat.le_of_not_lt h

instance {κ β : Type} (round : List (κ × β) → BufM (List (κ × β))) : Checked (unmarshalMap round) :=
  { upTo := makingMap round, whole := whole_makingMap round, fits := fits_makingMap round }

instance : Checked unmarshalArrayInt8 := by delta unmarshalArrayInt8; infer_instance
instance : Checked unmarshalArrayUint16 := by delta unmarshalArrayUint16; infer_instance
instance : Checked unmarshalArrayInt16 := by delta unmarshalArrayInt16; infer_instance
instance : Checked unmarshalArrayInt32 := by delta unmarshalArrayInt32; infer_instance
instance : Checked unmarshalArrayInt64 := by delta unmarshalArrayInt64; infer_instance
instance : Checked unmarshalArrayFloat := by delta unmarshalArrayFloat; infer_instance
instance : Checked unmarshalArrayDouble := by delta unmarshalArrayDouble; infer_instance
instance : Checked unmarshalArrayString := by delta unmarshalArrayString; infer_instance
instance : Checked unmarshalArraySymbol := by delta unmarshalArraySymbol; infer_instance
instance : Checked unmarshalArrayBinary := by delta unmarshalArrayBinary; infer_instance
instance : Checked unmarshalArrayTimestamp := by delta unmarshalArrayTimestamp; infer_instance
instance : Checked unmarshalArrayUUID := by delta unmarshalArrayUUID; infer_instance

/-! ## `ReadAny` -/

instance (code : UInt8) : Making (arrayReader code) := by delta arrayReader; infer_instance

instance : Making readAnyArray := by delta readAnyArray; infer_instance

instance (readAny : BufM Value) : Checked (unmarshalMapAnyAny readAny) := by
  delta unmarshalMapAnyAny; infer_instance

/-- What `readAnyMap` does with the map that was decoded allocates no more. -/
instance (readAny : BufM Value) : Checked (readAnyMap readAny) where
  upTo := Making.upToThen (unmarshalMapAnyAny readAny) _
  whole := Making.whole_upToThen (unmarshalMapAnyAny readAny) _
  fits := .upToThen Checked.fits _

/-- The switch of `ReadAny`: the arrays, lists and maps. Other values have no `make` of their own; the
    maps inside errors and delivery states are decoded by calls of their own. -/
def makingAnyReader (type_ : UInt8) : BufM (Nat × BufM Value) :=
  if type_ = array8 ∨ type_ = array32 then Making.upTo readAnyArray
  else if type_ = list0 ∨ type_ = list8 ∨ type_ = list32 then
    Making.upTo (.list <$> unmarshalList readAny)
  else if type_ = map8 ∨ type_ = map32 then Making.upTo (readAnyMap readAny)
  else pure (0, anyReader readAny type_)

theorem whole_makingAnyReader (type_ : UInt8) : makingAnyReader type_ >>= Prod.snd = anyReader readAny type_ := by
  unfold makingAnyReader
  simp only [ite_bind, Making.whole]
  by_cases harray : type_ = array8 ∨ type_ = array32
  · rw [if_pos harray]
    rcases harray with rfl | rfl <;> rfl
  rw [if_neg harray]
  by_cases hlist : type_ = list0 ∨ type_ = list8 ∨ type_ = list32
  · rw [if_pos hlist]
    rcases hlist with rfl | rfl | rfl <;> rfl
  rw [if_neg hlist]
  by_cases hmap : type_ = map8 ∨ type_ = map32
  · rw [if_pos hmap]
    rcases hmap with rfl | rfl <;> rfl
  · rw [if_neg hmap]
    rfl

instance (type_ : UInt8) : Making (anyReader readAny type_) := ⟨makingAnyReader type_, whole_makingAnyReader type_⟩

instance : Making (pure .nil : BufM Value) := ⟨pure (0, pure .nil), pure_bind ..⟩

instance : Making (readAnyBody readAny) := by delta readAnyBody; infer_instance

theorem whole_makingAny : Making.upTo (readAnyBody readAny) >>= Prod.snd = readAny :=
  Making.whole.trans (funext run_readAny_eq).symm

instance : Making readAny := ⟨Making.upTo (readAnyBody readAny), whole_makingAny⟩

theorem upTo_readAny : Making.upTo readAny = (do
    if ← tryReadNull then pure (0, pure .nil)
    else
      let left ← len
      if left = 0 then fail "invalid length"
      else
        let type_ ← peekType
        makingAnyReader type_) := rfl

/-! ## Lengths that are not compared with anything -/

section Bounded

variable {m m' : BufM α} [c : Making m] [d : Making m']

theorem bounded_of_ok {rest : BufM α} (h : c.upTo.run r = .ok (n, rest) r') : Bounded m r ↔ n ≤ r.left := by
  refine ⟨fun hbounded => hbounded n ⟨rest, r', h⟩, ?_⟩
  rintro hle k ⟨_, _, hrun⟩
  rw [h] at hrun
  injection hrun with hp _
  rwa [← (Prod.mk.inj hp).1]

theorem bounded_of_error {e : Fault} (h : c.upTo.run r = .error e r') : Bounded m r := by
  rintro k ⟨_, _, hrun⟩
  rw [h] at hrun
  cases hrun

theorem bounded_congr (h : c.upTo.run r = d.upTo.run r) : Bounded m r ↔ Bounded m' r := by
  simp only [Bounded, Allocates, h]

theorem bounded_map {f : α → β} : Bounded (f <$> m) r ↔ Bounded m r := by
  have hmap : (Making.upTo (f <$> m)).run r
      = (c.upTo >>= fun p => pure (p.1, p.2 >>= (pure ∘ f))).run r :=
    congrArg (run · r) (map_eq_pure_bind _ c.upTo)
  rw [run_bind] at hmap
  cases hrun : c.upTo.run r with
  | error e r' =>
    rw [hrun] at hmap
    exact iff_of_true (bounded_of_error hmap) (bounded_of_error hrun)
  | ok p r' =>
    rw [hrun] at hmap
    exact (bounded_of_ok hmap).trans (bounded_of_ok hrun).symm

theorem bounded_ite [Decidable p] (hm : p → Bounded m r) (hm' : ¬ p → Bounded m' r) :
    Bounded (if p then m else m') r := by
  by_cases hp : p
  · exact (bounded_congr (by rw [Making.upTo_ite, if_pos hp])).mpr (hm hp)
  · exact (bounded_congr (by rw [Making.upTo_ite, if_neg hp])).mpr (hm' hp)

end Bounded

theorem readByte_ok {t : UInt8} (h : readByte.run r = .ok t r') : r.unread.head? = some t ∧ r' = r.advance 1 := by
  cases hu : r.unread with
  | nil =>
    have hlt := (inferInstance : Consumes Buffer.left readByte).lt r t r' h
    rw [left_eq_length_unread r, hu] at hlt
    cases hlt
  | cons x rest =>
    have hok := (reads_readByte x r (wf_of_unread_cons hu) hu).symm.trans h
    injection hok with hx hr
    exact ⟨congrArg some hx, hr.symm⟩

/-- The header of an array in front of `r` is refused or declares at most as many elements as there are
    unread bytes. -/
def Modest (r : Buffer) : Prop := ∀ n rest, Layout.arrayCount.run r.unread = .ok n rest → n ≤ r.left

/-- A header that is accepted, with the element type behind it, or one that is refused. -/
theorem readArrayHeader_cases (hr : r.WF) :
    (∃ n r', readArrayHeader.run r = .ok n r' ∧ r'.WF ∧ r'.unread.head? = elementCode r.unread ∧
      (Modest r ↔ n ≤ r.left)) ∨
    (∃ e r', readArrayHeader.run r = .error e r') ∧ Modest r := by
  have hstep := follows_readArrayHeader r r.unread ⟨hr, rfl⟩
  unfold InStepAt at hstep
  unfold Modest
  cases hscan : Layout.arrayCount.run r.unread with
  | error e rest =>
    rw [hscan] at hstep
    cases hrun : readArrayHeader.run r with
    | error e r' => exact .inr ⟨⟨e, r', rfl⟩, nofun⟩
    | ok n r' => rw [hrun] at hstep; exact hstep.elim
  | ok count rest =>
    rw [hscan] at hstep
    cases hrun : readArrayHeader.run r with
    | error e r' => rw [hrun] at hstep; exact hstep.elim
    | ok n r' =>
      rw [hrun] at hstep
      obtain ⟨hat, rfl⟩ := hstep
      have hhead := (outcome_arrayCount r.unread).ok hscan
      rw [← hat.unread] at hhead
      exact .inl ⟨n, r', rfl, hat.wf, hhead, by simp⟩

/-- `arrayBool` allocates what its header declares. -/
theorem bounded_arrayBool (hr : r.WF) : Bounded unmarshalArrayBool r ↔ Modest r := by
  have hrun : (Making.upTo unmarshalArrayBool).run r = _ := run_bind ..
  rcases readArrayHeader_cases hr with ⟨n, r', hheader, -, -, hmodest⟩ | ⟨⟨e, r', hheader⟩, hmodest⟩
  · rw [hheader] at hrun
    exact (bounded_of_ok hrun).trans hmodest.symm
  · rw [hheader] at hrun
    exact iff_of_true (bounded_of_error hrun) hmodest

/-- Arrays with a choice of element types, one of which has no bytes. -/
theorem bounded_switch {m : Nat → UInt8 → BufM (List α)} [hm : ∀ length t, Checked (m length t)]
    {empty : UInt8} {x : α} (hr : r.WF) :
    Bounded (do
      let length ← readArrayHeader
      let type_ ← readType
      if type_ = empty then pure (replicate length x) else m length type_) r
    ↔ (elementCode r.unread = some empty → Modest r) := by
  rcases readArrayHeader_cases hr with ⟨n, r', hheader, hwf, hhead, hmodest⟩ | ⟨⟨e, r', hheader⟩, hmodest⟩
  · by_cases ht : elementCode r.unread = some empty
    · rw [hmodest, ← hhead] at *
      obtain ⟨tail, htail⟩ := head?_eq_some_iff.mp ht
      have htype : readType.run r' = .ok empty (r'.advance 1) := reads_readByte empty r' hwf htail
      rw [bounded_of_ok (by simp only [Making.upTo_bind, run_bind, hheader, htype, Making.upTo_ite]; rfl)]
      simp [ht]
    · refine iff_of_true ?_ fun h => absurd h ht
      rintro k ⟨rest, r₂, hrun⟩
      obtain ⟨length, r₁, hlength, hrest⟩ := Consumes.bind_ok hrun
      rw [hheader] at hlength
      cases hlength
      obtain ⟨t, r₃, htype, hlast⟩ := Consumes.bind_ok hrest
      have hne : t ≠ empty := fun h => ht (by rw [← hhead, ← h]; exact (readByte_ok htype).1)
      rw [Making.upTo_ite, if_neg hne] at hlast
      calc k ≤ r₃.left := (hm n t).fits r₃ (k, rest) r₂ hlast
        _ ≤ r'.left := (Steps.ok readType htype : Onward _ _).left_le
        _ ≤ r.left := (Steps.ok readArrayHeader hheader : Onward _ _).left_le
  · refine iff_of_true ?_ fun _ => hmodest
    rintro k ⟨rest, r₂, hrun⟩
    obtain ⟨length, r₁, hlength, -⟩ := Consumes.bind_ok hrun
    rw [hheader] at hlength
    cases hlength

theorem bounded_arrayUint32 (hr : r.WF) :
    Bounded unmarshalArrayUint32 r ↔ (elementCode r.unread = some uint0 → Modest r) :=
  bounded_switch hr

theorem bounded_arrayUint64 (hr : r.WF) :
    Bounded unmarshalArrayUint64 r ↔ (elementCode r.unread = some ulong0 → Modest r) :=
  bounded_switch hr

/-! ## What `ReadAny` allocates -/

/-- The element types for which the count of an array is not compared with the bytes that are left. -/
def uncheckedTypes : List UInt8 := [uint0, ulong0, TypeCode.bool, boolTrue, boolFalse]

theorem bounded_arrayReader {code : UInt8} (hr : r.WF) (htype : elementCode r.unread = some code) :
    Bounded (arrayReader code) r ↔ (code ∈ uncheckedTypes → Modest r) := by
  have h32 := (bounded_map (f := Value.arrayUint32)).trans (bounded_arrayUint32 hr)
  have h64 := (bounded_map (f := Value.arrayUint64)).trans (bounded_arrayUint64 hr)
  have hbool := (bounded_map (f := Value.arrayBool)).trans (bounded_arrayBool hr)
  rw [htype] at h32 h64
  by_cases hcode : code ∈ uncheckedTypes
  · simp only [hcode, true_imp_iff]
    simp only [uncheckedTypes, mem_cons, not_mem_nil, or_false] at hcode
    rcases hcode with rfl | rfl | rfl | rfl | rfl
    · exact h32.trans (by simp)
    · exact h64.trans (by simp)
    iterate 3 exact hbool
  · refine iff_of_true ?_ fun h => absurd h hcode
    have hne (t : UInt8) (ht : t ∈ uncheckedTypes) : some code ≠ some t := fun h => hcode (Option.some.inj h ▸ ht)
    iterate 4 refine bounded_ite (fun _ => Checked.bounded _ r) fun _ => ?_
    refine bounded_ite (fun _ => h32.mpr fun h => absurd h (hne _ (by decide))) fun _ => ?_
    refine bounded_ite (fun _ => Checked.bounded _ r) fun _ => ?_
    refine bounded_ite (fun _ => h64.mpr fun h => absurd h (hne _ (by decide))) fun _ => ?_
    iterate 3 refine bounded_ite (fun _ => Checked.bounded _ r) fun _ => ?_
    refine bounded_ite (fun hbool => ?_) fun _ => ?_
    · exact absurd (by rcases hbool with rfl | rfl | rfl <;> decide) hcode
    iterate 5 refine bounded_ite (fun _ => Checked.bounded _ r) fun _ => ?_
    exact bounded_of_error rfl

theorem bytes_ok {buf : Bytes} (h : bytes.run r = .ok buf r') : buf = r.unread ∧ r' = r := by
  have hslice : (slice r.b r.i r.b.length : BufM Bytes).run r = .ok buf r' := h
  rw [slice] at hslice
  split at hslice
  · injection hslice with hbuf hr
    rw [take_length] at hbuf
    exact ⟨hbuf.symm, hr.symm⟩
  · cases hslice

theorem index_ok {b : Bytes} {i : Nat} {x : UInt8} (h : (index b i : BufM UInt8).run r = .ok x r') :
    b[i]? = some x ∧ r' = r := by
  unfold index at h
  cases hb : b[i]? with
  | none =>
    rw [hb] at h
    cases h
  | some y =>
    rw [hb] at h
    injection h with hy hr
    exact ⟨congrArg some hy, hr.symm⟩

theorem bounded_anyReader {type_ : UInt8} (h : Bounded readAnyArray r) : Bounded (anyReader readAny type_) r := by
  rintro n ⟨rest, r', hrun⟩
  have hread : (makingAnyReader type_).run r = .ok (n, rest) r' := hrun
  unfold makingAnyReader at hread
  split at hread
  · exact h n ⟨rest, r', hread⟩
  split at hread
  · exact Checked.bounded (.list <$> unmarshalList readAny) r n ⟨rest, r', hread⟩
  split at hread
  · exact Checked.bounded (readAnyMap readAny) r n ⟨rest, r', hread⟩
  · cases hread
    exact Nat.zero_le _

theorem peekByte_ok {t : UInt8} (h : peekByte.run r = .ok t r') : r' = r := by
  have hif : run (if r.readCheck 1 then fail "EOF" else index r.b r.i) r = .ok t r' := h
  split at hif
  · cases hif
  · exact (index_ok hif).2

theorem bounded_readAny_of_array (h : Bounded readAnyArray r) : Bounded readAny r := by
  rcases tryReadNull_cases r with ⟨_, -, htrue⟩ | ⟨-, hfalse⟩
  · have hnull : (Making.upTo readAny).run r = .ok (0, pure .nil) (r.advance 1) := by
      rw [upTo_readAny, run_bind, htrue]
      rfl
    exact (bounded_of_ok hnull).mpr (Nat.zero_le _)
  · rintro n ⟨rest, r', hrun⟩
    rw [upTo_readAny, run_bind, hfalse] at hrun
    obtain ⟨left, r₁, hlen, hrun⟩ := Consumes.bind_ok hrun
    cases hlen
    split at hrun
    · cases hrun
    obtain ⟨t, r₂, hpeek, hreader⟩ := Consumes.bind_ok hrun
    rw [peekByte_ok hpeek] at hreader
    exact bounded_anyReader h n ⟨rest, r', hreader⟩

/-- In front of an array `ReadAny` is `readAnyArray`. -/
theorem run_upTo_array {t : UInt8} (hr : r.WF) (ht : elementCode r.unread = some t) :
    (Making.upTo readAny).run r = (Making.upTo readAnyArray).run r := by
  have hrun {b0 : UInt8} {tail : Bytes} (hu : r.unread = b0 :: tail) (hnull : b0 ≠ TypeCode.null) :
      (Making.upTo readAny).run r = (makingAnyReader b0).run r := by
    have hat : At r (b0 :: tail) := ⟨hr, hu⟩
    rw [upTo_readAny, run_bind, hat.run_peek (reads_tryReadNull_other hnull)]
    show run (len >>= _) r = _
    rw [run_bind, hat.run_peek reads_len]
    show run (peekType >>= _) r = _
    rw [run_bind, hat.run_peek reads_peekType]
  unfold elementCode at ht
  split at ht
  · next h8 =>
    obtain ⟨tail, hu⟩ := head?_eq_some_iff.mp h8
    exact hrun hu (by decide)
  split at ht
  · next h32 =>
    obtain ⟨tail, hu⟩ := head?_eq_some_iff.mp h32
    exact hrun hu (by decide)
  · cases ht

theorem bounded_readAny (hr : r.WF) :
    Bounded readAny r ↔ ∀ t ∈ uncheckedTypes, elementCode r.unread = some t → Modest r := by
  rcases run_atElementCode (m := Making.upTo readAnyArray) (fun code => Making.upTo (arrayReader code)) rfl
    ⟨hr, rfl⟩ with ⟨t, ht, hrun⟩ | ⟨hnone, msg, hrun⟩
  · rw [bounded_congr ((run_upTo_array hr ht).trans hrun), bounded_arrayReader hr ht, ht]
    exact ⟨fun h t' hmem heq => h (Option.some.inj heq ▸ hmem), fun h hmem => h t hmem rfl⟩
  · exact iff_of_true (bounded_readAny_of_array (bounded_of_error hrun)) (by simp [hnone])

/-! ## The result -/

/-- A decoder and its `make`. -/
structure MakingDecoder where
  {result : Type}
  decode : BufM result
  [making : Making decode]

attribute [instance] MakingDecoder.making

/-- The decoders that compare the length with what is left. -/
def checkedDecoders : List MakingDecoder :=
  [⟨unmarshalArrayUByte⟩, ⟨unmarshalArrayInt8⟩, ⟨unmarshalArrayUint16⟩, ⟨unmarshalArrayInt16⟩,
    ⟨unmarshalArrayInt32⟩, ⟨unmarshalArrayInt64⟩, ⟨unmarshalArrayFloat⟩, ⟨unmarshalArrayDouble⟩,
    ⟨unmarshalArrayString⟩, ⟨unmarshalArraySymbol⟩, ⟨unmarshalArrayBinary⟩, ⟨unmarshalArrayTimestamp⟩,
    ⟨unmarshalArrayUUID⟩, ⟨unmarshalList readAny⟩]

theorem checkedDecoders_bounded (r : Buffer) : ∀ d ∈ checkedDecoders, Bounded d.decode r := by
  simp only [checkedDecoders, forall_mem_cons]
  iterate 14 refine ⟨Checked.bounded _ r, ?_⟩
  exact fun _ h => absurd h not_mem_nil

/-- **What a decoder allocates is bounded by its input**, for every buffer and every cursor in it: at its
    `make` an array, list or map decoder asks for at most as many elements as there were unread bytes
    in front of the header. The exceptions are `arrayBool`, and `arrayUint32` and `arrayUint64` in front of
    elements that have no bytes, exactly when the header declares more. A call of `ReadAny` allocates, for
    the value it stands in front of, what the decoder for that value does. -/
theorem allocations_bounded (r : Buffer) (hr : r.WF) :
    (∀ d ∈ checkedDecoders, Bounded d.decode r) ∧
    (∀ (κ β : Type) (round : List (κ × β) → BufM (List (κ × β))), Bounded (unmarshalMap round) r) ∧
    (Bounded unmarshalArrayUint32 r ↔ (elementCode r.unread = some uint0 → Modest r)) ∧
    (Bounded unmarshalArrayUint64 r ↔ (elementCode r.unread = some ulong0 → Modest r)) ∧
    (Bounded unmarshalArrayBool r ↔ Modest r) ∧
    (Bounded readAny r ↔ ∀ t ∈ uncheckedTypes, elementCode r.unread = some t → Modest r) :=
  ⟨checkedDecoders_bounded r, fun _ _ _ => Checked.bounded _ r, bounded_arrayUint32 hr,
    bounded_arrayUint64 hr, bounded_arrayBool hr, bounded_readAny hr⟩

/-- An array of three bools, as `ReadAny` meets it: three elements, seven unread bytes. -/
theorem allocations_bounded_bool :
    Allocates readAny (.new [0xe0, 5, 3, TypeCode.bool, 1, 0, 1]) 3 ∧
      Bounded readAny (.new [0xe0, 5, 3, TypeCode.bool, 1, 0, 1]) := by
  refine ⟨⟨_, _, rfl⟩, (allocations_bounded _ (Nat.zero_le _)).2.2.2.2.2.mpr ?_⟩
  rintro t - - n rest h
  cases h
  decide

/-- Ten bytes for which four thousand million elements are allocated. In front of `uint0`, `ulong0`
    and `true` the array even decodes; in front of `bool` the check fails after the `make`. -/
theorem ten_bytes_allocate :
    Allocates readAny (.new [0xf0, 0, 0, 0, 5, 0xff, 0xff, 0xff, 0xff, uint0]) 4294967295 ∧
    Allocates readAny (.new [0xf0, 0, 0, 0, 5, 0xff, 0xff, 0xff, 0xff, ulong0]) 4294967295 ∧
    Allocates readAny (.new [0xf0, 0, 0, 0, 5, 0xff, 0xff, 0xff, 0xff, boolTrue]) 4294967295 ∧
    Allocates readAny (.new [0xf0, 0, 0, 0, 5, 0xff, 0xff, 0xff, 0xff, TypeCode.bool]) 4294967295 ∧
    ∃ r', readAny.run (.new [0xf0, 0, 0, 0, 5, 0xff, 0xff, 0xff, 0xff, uint0])
      = .ok (.arrayUint32 (replicate 4294967295 0)) r' := by
  refine ⟨⟨_, _, rfl⟩, ⟨_, _, rfl⟩, ⟨_, _, rfl⟩, ⟨_, _, rfl⟩, ?_⟩
  rw [run_readAny_eq]
  exact ⟨_, rfl⟩

end GoAmqp
