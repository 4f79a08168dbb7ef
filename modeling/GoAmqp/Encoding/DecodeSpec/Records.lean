import GoAmqp.Encoding.DecodeSpec.Scalars
import Mathlib.Data.List.Forall2

set_option autoImplicit false

/-! # Maps and composites read back

The entry loop of the map decoders, and the decoding of composites into records. `Fills` is the
version of `Reads` for a computation that also updates a record; `fills_unmarshalComposite` reduces
a composite to one fact for each of its fields. -/

namespace GoAmqp

open Lib Buffer TypeCode List EStateM

variable {rest : Bytes}

/-! ## Maps -/

variable {bs : Bytes}

section Maps

variable {ε μ : Type}

/-- The entry loop: every round reads one entry and `step` is what it does to the map. -/
theorem reads_mapLoop {round : μ → BufM μ} {enc : ε → Bytes} {step : μ → ε → μ} (es : List ε)
    (hround : ∀ e ∈ es, ∀ m tail, Reads (round m) (enc e) tail (step m e)) (bound : Nat)
    (hbound : es.length < bound) (i count : UInt32) (hcount : count.toNat = i.toNat + 2 * es.length)
    (m : μ) : Reads (mapLoop round bound i count m) (es.flatMap enc) rest (es.foldl step m) := by
  induction es generalizing bound i m with
  | nil =>
    obtain ⟨bound, rfl⟩ := Nat.exists_eq_succ_of_ne_zero (Nat.ne_of_gt hbound)
    have hdone : ¬ i < count := by
      rw [UInt32.lt_iff_toNat_lt, hcount]
      simp
    rw [mapLoop, if_neg hdone]
    exact .pure _ _
  | cons e es ih =>
    obtain ⟨bound, rfl⟩ := Nat.exists_eq_succ_of_ne_zero (Nat.ne_of_gt (Nat.zero_lt_of_lt hbound))
    rw [length_cons] at hcount hbound
    have hmore : i < count := by
      rw [UInt32.lt_iff_toNat_lt, hcount]
      omega
    have hnext : (i + 2).toNat = i.toNat + 2 := by
      have := count.toNat_lt
      rw [UInt32.toNat_add]
      exact Nat.mod_eq_of_lt (show i.toNat + 2 < 2 ^ 32 by omega)
    rw [mapLoop, if_pos hmore, flatMap_cons]
    refine .bind (hround e (mem_cons_self ..) m _) ?_
    exact ih (fun e' he' => hround e' (mem_cons_of_mem _ he')) bound (by omega) (i + 2)
      (by rw [hnext]; omega) _

theorem CompoundForm.reads_unmarshalMap {κ β : Type} {round : List (κ × β) → BufM (List (κ × β))} {enc : ε → Bytes}
    {step : List (κ × β) → ε → List (κ × β)} {es : List ε}
    (h : CompoundForm map8 map32 (es.length * 2) (es.flatMap enc) bs)
    (hround : ∀ e ∈ es, ∀ m tail, Reads (round m) (enc e) tail (step m e))
    (hpairs : es.length * 2 ≤ (es.flatMap enc).length) : Reads (unmarshalMap round) bs rest (es.foldl step []) := by
  have hcount : (UInt32.ofNat (es.length * 2)).toNat = es.length * 2 := by
    cases h with
    | short _ hcount => exact toNat_ofNat32 (by omega)
    | long _ hcount => exact toNat_ofNat32 hcount
  obtain ⟨header, rfl, hheader⟩ := h.exists_mapHeader hpairs
  refine .bind (hheader rest) (.bind_peek reads_len ?_)
  refine reads_mapLoop es hround _ ?_ _ _ ?_ _
  · rw [length_append]
    omega
  · rw [hcount, show (0 : UInt32).toNat = 0 from rfl]
    omega

theorem reads_unmarshalMap {κ β : Type} {round : List (κ × β) → BufM (List (κ × β))} {enc : ε → Bytes}
    {step : List (κ × β) → ε → List (κ × β)} (es : List ε)
    (hround : ∀ e ∈ es, ∀ m tail, Reads (round m) (enc e) tail (step m e))
    (hpairs : es.length * 2 ≤ (es.flatMap enc).length) (hlt : (encodeMap es.length (es.flatMap enc)).length < 2 ^ 32) :
    Reads (unmarshalMap round) (encodeMap es.length (es.flatMap enc)) rest (es.foldl step []) :=
  (compoundForm_encodeCompound hpairs hlt).reads_unmarshalMap hround hpairs

end Maps

/-! ## Records -/

/-- The record version of `Reads`: in front of `bs ++ rest`, the computation moves past `bs` and
    updates the record by `put`. -/
def Fills {σ : Type} (m : IntoM σ Unit) (bs rest : Bytes) (put : σ → σ) : Prop :=
  ∀ (s : σ) (r : Buffer), r.WF → r.unread = bs ++ rest → m.run (s, r) = .ok () (put s, r.advance bs.length)

/-- The encoding of a field that is set never looks like null. -/
def NotNull (bs : Bytes) : Prop := ∃ t tail, bs = t :: tail ∧ t ≠ TypeCode.null

theorem StartsWith.notNull {codes : List UInt8} (h : StartsWith codes bs) (hcodes : TypeCode.null ∉ codes)
    : NotNull bs := by
  obtain ⟨t, tail, rfl, ht⟩ := h
  exact ⟨t, tail, rfl, fun h => hcodes (h ▸ ht)⟩

namespace Fills

variable {σ τ : Type}

theorem pure : Fills (Pure.pure () : IntoM σ Unit) [] rest id := fun _ _ _ _ => rfl

variable {m : IntoM σ Unit}

theorem bind {k : Unit → IntoM σ Unit} {cs : Bytes} {f g : σ → σ} (hm : Fills m bs (cs ++ rest) f)
    (hk : Fills (k ()) cs rest g) : Fills (m >>= k) (bs ++ cs) rest (fun s => g (f s)) := by
  intro s r hw hu
  have hu₁ : r.unread = bs ++ (cs ++ rest) := by rw [hu, append_assoc]
  have hle : bs.length ≤ r.unread.length := by rw [hu₁]; simp
  have hu₂ : (r.advance bs.length).unread = cs ++ rest := by
    rw [unread_advance, hu₁, drop_left]
  rw [run_bind, hm s r hw hu₁]
  show (k ()).run _ = _
  rw [hk _ _ (hw.advance hle) hu₂]
  simp [advance, Nat.add_assoc]

/-- A reader on the buffer first. -/
theorem onBuffer {α : Type} {m : BufM α} {k : α → IntoM σ Unit} {cs : Bytes} {a : α} {g : σ → σ}
    (hm : Reads m bs (cs ++ rest) a) (hk : Fills (k a) cs rest g) :
    Fills (GoAmqp.onBuffer m >>= k) (bs ++ cs) rest g := by
  intro s r hw hu
  have hu₁ : r.unread = bs ++ (cs ++ rest) := by rw [hu, append_assoc]
  have hle : bs.length ≤ r.unread.length := by rw [hu₁]; simp
  have hu₂ : (r.advance bs.length).unread = cs ++ rest := by
    rw [unread_advance, hu₁, drop_left]
  rw [run_bind, run_onBuffer (hm r hw hu₁)]
  show (k a).run (s, r.advance bs.length) = _
  rw [hk _ _ (hw.advance hle) hu₂]
  simp [advance, Nat.add_assoc]

/-- `onBuffer` when the reader consumes nothing. -/
theorem onBuffer_peek {α : Type} {m : BufM α} {k : α → IntoM σ Unit} {cs : Bytes} {a : α} {g : σ → σ}
    (hm : Reads m [] (cs ++ rest) a) (hk : Fills (k a) cs rest g) : Fills (GoAmqp.onBuffer m >>= k) cs rest g :=
  onBuffer hm hk

theorem congr {bs' : Bytes} {f f' : σ → σ} (h : Fills m bs rest f) (hbs : bs = bs') (hf : f = f')
    : Fills m bs' rest f' := by
  subst hbs hf
  exact h

theorem orNull {f : σ → σ} (hnull : NotNull bs) (h : Fills m bs rest f) : Fills (GoAmqp.orNull m) bs rest f := by
  obtain ⟨t, tail, rfl, ht⟩ := hnull
  have hnot : Reads tryReadNull [] (t :: tail ++ rest) false := reads_tryReadNull_other ht
  exact .onBuffer hnot (k := fun isNull => if isNull then Pure.pure () else m) h

theorem assign {α : Type} {read : BufM α} {put : α → σ → σ} {a : α} (hnull : NotNull bs)
    (h : Reads read bs rest a) : Fills (GoAmqp.assign read put) bs rest (put a) := by
  refine orNull hnull ?_
  have hset : Fills (modify fun s => (put a s.1, s.2) : IntoM σ Unit) [] rest (put a) :=
    fun _ _ _ _ => rfl
  have h' := Fills.onBuffer (k := fun a => modify fun s => (put a s.1, s.2))
    (show Reads read bs ([] ++ rest) a from h) hset
  rwa [List.append_nil] at h'

theorem assignAlways {α : Type} {read : BufM α} {zero : α} {put : α → σ → σ} {a : α} (hnull : NotNull bs)
    (h : Reads read bs rest a) : Fills (GoAmqp.assignAlways read zero put) bs rest (put a) := by
  refine orNull hnull fun s r hw hu => ?_
  have hread := h r hw hu
  simp only [run] at hread ⊢
  rw [hread]
  rfl

theorem zoom {part : σ → τ} {put : τ → σ → σ} {m : IntoM τ Unit} {f : τ → τ} (h : Fills m bs rest f) :
    Fills (GoAmqp.zoom part put m) bs rest fun s => put (f (part s)) s := by
  intro s r hw hu
  have hm := h (part s) r hw hu
  simp only [run, GoAmqp.zoom] at hm ⊢
  rw [hm]

theorem assignPtr {part : σ → Option τ} {put : Option τ → σ → σ} {zero : τ} {m : IntoM τ Unit} {f : τ → τ}
    (hnull : NotNull bs) (h : Fills m bs rest f) :
    Fills (GoAmqp.assignPtr part put zero m) bs rest
      (fun s => put (some (f ((part s).getD zero))) s) :=
  orNull hnull (zoom (orNull hnull h))

theorem adaptExcept {f : σ → σ} (w : Fault → Fault) (h : Fills m bs rest f) : Fills (m.adaptExcept w) bs rest f := by
  intro s r hw hu
  have hm := h s r hw hu
  simp only [run, EStateM.adaptExcept] at hm ⊢
  rw [hm]

/-- A new record. -/
theorem runNew {zero : σ} {f : σ → σ} (h : Fills m bs rest f) : Reads (GoAmqp.runNew zero m) bs rest (f zero) := by
  intro r hw hu
  have hm := h zero r hw hu
  simp only [run, GoAmqp.runNew] at hm ⊢
  rw [hm]
  rfl

end Fills

/-! ## Composites -/

section Composites

variable {σ : Type}

/-- A field of a composite on the wire, and what decoding it does to the record: a field that is set
    is read by the field's decoder, one that is not goes through its null handler. -/
def FieldReads (u : UnmarshalField σ) (p : Option Bytes × (σ → σ)) : Prop :=
  match p.1 with
  | none => ∀ s r, u.null.run (s, r) = .ok () (p.2 s, r)
  | some bs => NotNull bs ∧ (bs.length < 2 ^ 32 → ∀ rest, Fills u.field bs rest p.2)

/-- The updates of the fields in order. -/
def applyAll (fs : List (σ → σ)) (s : σ) : σ := fs.foldl (fun s f => f s) s

theorem fills_unmarshalField {u : UnmarshalField σ} {p : Option Bytes × (σ → σ)} (i : Nat) (h : FieldReads u p)
    (hlen : (encodeField p.1).length < 2 ^ 32) : Fills (unmarshalField i u) (encodeField p.1) rest p.2 := by
  obtain ⟨b, put⟩ := p
  cases b with
  | none =>
    have hnull : Fills u.null [] rest put := fun s r _ _ => h s r
    exact .onBuffer reads_tryReadNull hnull
  | some bs =>
    obtain ⟨⟨t, tail, rfl, ht⟩, hfield⟩ := h
    have hnot : Reads tryReadNull [] (t :: tail ++ rest) false := reads_tryReadNull_other ht
    exact .onBuffer hnot ((hfield hlen rest).adaptExcept _)

variable {ps : List (Option Bytes × (σ → σ))} {us : List (UnmarshalField σ)}

theorem fills_unmarshalFields (h : Forall₂ FieldReads us ps) (i : Nat)
    (hfits : ∀ p ∈ ps, (encodeField p.1).length < 2 ^ 32) :
    Fills (unmarshalFields i us) ((ps.map Prod.fst).flatMap encodeField) rest
      (applyAll (ps.map Prod.snd)) := by
  induction h generalizing i with
  | nil => exact .pure
  | @cons u p us ps hu _ ih =>
    have hfields := ih (i + 1) fun q hq => hfits q (mem_cons_of_mem _ hq)
    rw [map_cons, flatMap_cons]
    exact (Fills.bind (fills_unmarshalField i hu (hfits p (mem_cons_self ..))) hfields).congr rfl rfl

theorem run_nullFields (h : Forall₂ FieldReads us ps) (hnone : ∀ p ∈ ps, p.1 = none) (s : σ) (r : Buffer) :
    (nullFields us).run (s, r) = .ok () (applyAll (ps.map Prod.snd) s, r) := by
  induction h generalizing s with
  | nil => rfl
  | @cons u p us ps hu _ ih =>
    obtain ⟨b, put⟩ := p
    have hb : b = none := hnone (b, put) (mem_cons_self ..)
    subst hb
    rw [nullFields, run_bind, hu s r]
    exact ih (fun p hp => hnone p (mem_cons_of_mem _ hp)) (put s)

/-- The composite header: descriptor and number of fields. -/
theorem reads_readCompositeHeader {code : UInt8} {count : Nat} {header tail : Bytes}
    (h : Reads readListHeader header tail count) :
    Reads readCompositeHeader ([0x0, smallUlong, code] ++ header) tail (code, count) := by
  refine .bind_cons (reads_readByte 0x0) ?_
  rw [if_neg (by simp)]
  have hulong : Reads readUlong [smallUlong, code] (header ++ tail) code.toUInt64 :=
    .bind_cons (reads_readByte smallUlong)
      (.bind_pure (reads_readByte code) (.pure _ _))
  have hpair : Reads (pure (code.toUInt64.toUInt8, count) : BufM (UInt8 × Nat)) [] tail
      (code, count) := by
    rw [UInt8.toUInt8_toUInt64]
    exact .pure _ _
  exact .bind hulong (.bind_pure h hpair)

/-- The list header of a composite, in front of its fields. -/
theorem reads_fieldsHeader {count : Nat} {contents : Bytes} (h0 : count = 0 → contents = []) (hcount : count < 2 ^ 32) :
    ∃ header, encodeList count contents = header ++ contents ∧
      Reads readListHeader header (contents ++ rest) count := by
  unfold encodeList
  split
  · next hzero =>
    refine ⟨[list0], by simp [h0 hzero], ?_⟩
    rw [hzero]
    exact reads_readListHeader_list0
  · exact ⟨_, by simp [encodeCompound], reads_readListHeader hcount⟩

/-- **Composites.** When every field on the wire goes with its place in the list of fields to be
    decoded, decoding the composite applies the updates of all fields in order. Only the fields have to
    be short: the size of the composite itself is not used. -/
theorem fills_unmarshalComposite_of_fits (code : UInt8) (h : Forall₂ FieldReads us ps)
    (hfits : ∀ p ∈ ps, (encodeField p.1).length < 2 ^ 32) (hcount : (trimFields (ps.map Prod.fst)).length < 2 ^ 32) :
    Fills (unmarshalComposite code us) (encodeComposite code (ps.map Prod.fst)) rest
      (applyAll (ps.map Prod.snd)) := by
  generalize hn : (trimFields (ps.map Prod.fst)).length = n
  have htrim : trimFields (ps.map Prod.fst) = (ps.take n).map Prod.fst := by
    rw [map_take, ← hn, trimFields_take]
  have hlen : ((ps.take n).map Prod.fst).length = n := by rw [← htrim, hn]
  have htake := forall₂_take n h
  have hnle : n ≤ us.length := by
    rw [← hn, h.length_eq, ← length_map Prod.fst]
    exact length_trimFields_le _
  -- past the last set field there are only null handlers
  have hnone : ∀ p ∈ ps.drop n, p.1 = none := fun p hp => by
    have hmem : p.1 ∈ (ps.map Prod.fst).drop n := by
      rw [← map_drop]
      exact mem_map_of_mem hp
    exact drop_trimFields _ p.1 (hn ▸ hmem)
  have hall : applyAll (ps.map Prod.snd)
      = fun s => applyAll ((ps.drop n).map Prod.snd) (applyAll ((ps.take n).map Prod.snd) s) := by
    funext s
    have hsplit : ps.map Prod.snd = (ps.take n).map Prod.snd ++ (ps.drop n).map Prod.snd := by
      rw [← map_append, take_append_drop]
    rw [hsplit, applyAll, foldl_append]
    rfl
  simp only [encodeComposite, htrim, hlen]
  have hzero : n = 0 → ((ps.take n).map Prod.fst).flatMap encodeField = [] := by
    rintro rfl
    rfl
  rw [hn] at hcount
  obtain ⟨header, hheader, hreads⟩ : ∃ header, _ ∧ Reads readListHeader header (_ ++ rest) n :=
    reads_fieldsHeader hzero hcount
  have hfields : Fills (unmarshalFields 0 (us.take n)) _ ([] ++ rest) _ :=
    fills_unmarshalFields htake 0 fun p hp => hfits p (mem_of_mem_take hp)
  have hnull : Fills (nullFields (us.drop n)) [] rest (applyAll ((ps.drop n).map Prod.snd)) :=
    fun s r _ _ => run_nullFields (forall₂_drop n h) hnone s r
  rw [hheader, ← append_assoc, hall]
  refine .onBuffer (reads_readCompositeHeader hreads) ?_
  dsimp only
  rw [if_neg (by simp), if_neg (by omega)]
  exact (hfields.bind hnull).congr (List.append_nil _) rfl

theorem FieldReads.pos {u : UnmarshalField σ} {p : Option Bytes × (σ → σ)} (h : FieldReads u p) :
    1 ≤ (encodeField p.1).length := by
  obtain ⟨b, put⟩ := p
  cases b with
  | none => exact Nat.le_refl 1
  | some bs =>
    obtain ⟨⟨t, tail, rfl, -⟩, -⟩ := h
    exact Nat.succ_pos _

theorem length_fields_le (h : Forall₂ FieldReads us ps) :
    ps.length ≤ ((ps.map Prod.fst).flatMap encodeField).length := by
  induction h with
  | nil => simp
  | cons hu _ ih =>
    have := hu.pos
    rw [map_cons, flatMap_cons, length_append, length_cons]
    omega

/-- A composite that is short has short fields. -/
theorem fills_unmarshalComposite (code : UInt8) (h : Forall₂ FieldReads us ps)
    (hlt : (encodeComposite code (ps.map Prod.fst)).length < 2 ^ 32) :
    Fills (unmarshalComposite code us) (encodeComposite code (ps.map Prod.fst)) rest
      (applyAll (ps.map Prod.snd)) := by
  refine fills_unmarshalComposite_of_fits code h (fun p hp => ?_) ?_
  · cases hb : p.1 with
    | none => simp [encodeField]
    | some bs =>
      have hmem : some bs ∈ ps.map Prod.fst := mem_map.2 ⟨p, hp, hb⟩
      exact Nat.lt_trans (length_lt_encodeComposite code hmem) hlt
  · have htrim : trimFields (ps.map Prod.fst)
        = (ps.take (trimFields (ps.map Prod.fst)).length).map Prod.fst := by
      rw [map_take, trimFields_take]
    have hle := length_fields_le (forall₂_take (trimFields (ps.map Prod.fst)).length h)
    rw [← htrim, ← length_map Prod.fst, ← htrim] at hle
    by_cases hzero : (trimFields (ps.map Prod.fst)).length = 0
    · omega
    · simp only [encodeComposite, length_append, length_encodeList _ hzero] at hlt
      omega

namespace FieldReads

variable {u : UnmarshalField σ} {bs : Bytes} {f g : σ → σ}

/-- A field without a null handler that is left out. -/
theorem absent {field : IntoM σ Unit} : FieldReads ⟨field, none⟩ (none, id) := fun _ _ => rfl

/-- A field with a default that is left out. -/
theorem absentDefault {field : IntoM σ Unit} {put : σ → σ} :
    FieldReads ⟨field, default_ put⟩ (none, put) := fun _ _ => rfl

variable {handleNull : Option (σ → Except String σ)}

theorem assign {α : Type} {read : BufM α} {put : α → σ → σ} {a : α} (hnull : NotNull bs)
    (h : bs.length < 2 ^ 32 → ∀ rest, Reads read bs rest a) :
    FieldReads ⟨GoAmqp.assign read put, handleNull⟩ (some bs, put a) :=
  ⟨hnull, fun hlt rest => .assign hnull (h hlt rest)⟩

theorem assignAlways {α : Type} {read : BufM α} {zero : α} {put : α → σ → σ} {a : α} (hnull : NotNull bs)
    (h : bs.length < 2 ^ 32 → ∀ rest, Reads read bs rest a) :
    FieldReads ⟨GoAmqp.assignAlways read zero put, handleNull⟩ (some bs, put a) :=
  ⟨hnull, fun hlt rest => .assignAlways hnull (h hlt rest)⟩

theorem assignPtr {τ : Type} {part : σ → Option τ} {put : Option τ → σ → σ} {zero : τ} {m : IntoM τ Unit}
    {t : τ → τ} (hnull : NotNull bs) (h : bs.length < 2 ^ 32 → ∀ rest, Fills m bs rest t) :
    FieldReads ⟨GoAmqp.assignPtr part put zero m, handleNull⟩
      (some bs, fun s => put (some (t ((part s).getD zero))) s) :=
  ⟨hnull, fun hlt rest => .assignPtr hnull (h hlt rest)⟩

/-- A field that is left out under a condition. -/
theorem omittable {omitted : Bool} (habsent : FieldReads u (none, g))
    (h : omitted = false → FieldReads u (some bs, f)) :
    FieldReads u (fieldUnless omitted bs, if omitted then g else f) := by
  cases omitted with
  | true => exact habsent
  | false => exact h rfl

end FieldReads

end Composites

end GoAmqp
