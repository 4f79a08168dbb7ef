import Mathlib.Data.List.Forall2
import GoAmqp.Encoding.DecodeLayout.Scalars

set_option autoImplicit false

/-! # The decoder follows the layout: records and values of any type

The readers of lists, maps, records and described types are in step with their scanners when the
nested `ReadAny` is; with a bound on the nesting, `ReadAny` itself is by induction on the bound. -/

namespace GoAmqp

open Lib Buffer Layout List
open TypeCode hiding null ulong

variable {bs tail : Bytes} {v : Value} {t : UInt8} {r : Buffer}

/-! ## Decoding into records -/

section Records

variable {σ τ α β : Type}

/-- The same for a decoder that fills a record. -/
abbrev FollowsIntoAt (R : α → β → Prop) (m : IntoM σ α) (s : σ × Buffer) (sc : Scanner β)
    (bs : Bytes) : Prop :=
  InStepAt (fun s bs => At s.2 bs) Stops R m s sc bs

/-- `Follows` for a reader into a record, whatever the record holds. -/
abbrev FollowsInto (R : α → β → Prop) (m : IntoM σ α) (sc : Scanner β) : Prop :=
  InStep (fun s bs => At s.2 bs) Stops R m sc

variable {s : σ × Buffer}

/-- A reader that only looks at the buffer. -/
theorem run_onBuffer_peek {m : BufM α} {a : α} (h : m.run s.2 = .ok a s.2) :
    (onBuffer m : IntoM σ α).run s = .ok a s :=
  run_onBuffer h

variable {R : α → β → Prop}

theorem followsAt_onBuffer {m : BufM α} {sc : Scanner β} (h : FollowsAt R m s.2 sc bs)
    : FollowsIntoAt R (onBuffer m : IntoM σ α) s sc bs := by
  have hrun : (onBuffer m : IntoM σ α).run s
      = repack (fun a _ => a) (fun _ r => (s.1, r)) (fun r => (s.1, r)) (m.run s.2) := by
    show onBuffer m s = _
    unfold onBuffer
    cases m.run s.2 <;> rfl
  unfold FollowsIntoAt InStepAt
  rw [hrun]
  exact h.repack fun _ _ _ _ hs hR => ⟨hs, hR⟩

theorem follows_onBuffer {m : BufM α} {sc : Scanner β} (h : Follows R m sc) :
    FollowsInto R (onBuffer m : IntoM σ α) sc :=
  fun s bs hs => followsAt_onBuffer (h s.2 bs hs)

theorem followsAt_zoom {part : σ → τ} {put : τ → σ → σ} {m : IntoM τ α} {sc : Scanner β}
    (h : FollowsIntoAt R m (part s.1, s.2) sc bs) : FollowsIntoAt R (zoom part put m) s sc bs := by
  have hrun : (zoom part put m).run s = repack (fun a _ => a) (fun _ t => (put t.1 s.1, t.2))
      (fun t => (put t.1 s.1, t.2)) (m.run (part s.1, s.2)) := by
    show zoom part put m s = _
    unfold zoom
    cases m.run (part s.1, s.2) <;> rfl
  unfold FollowsIntoAt InStepAt
  rw [hrun]
  exact h.repack fun _ _ _ _ hs hR => ⟨hs, hR⟩

theorem follows_zoom {part : σ → τ} {put : τ → σ → σ} {m : IntoM τ α} {sc : Scanner β}
    (h : FollowsInto R m sc) : FollowsInto R (zoom part put m) sc :=
  fun s bs hs => followsAt_zoom (h (part s.1, s.2) bs hs)

variable {m : IntoM σ Unit}

theorem follows_runNew {zero : σ} {R : Unit → β → Prop} {sc : Scanner β} (h : FollowsInto R m sc)
    : Follows Any (runNew zero m) sc := by
  intro r bs hr
  have hrun : (runNew zero m).run r
      = repack (fun _ t => t.1) (fun _ t => t.2) (fun t => t.2) (m.run (zero, r)) := by
    show runNew zero m r = _
    unfold runNew
    cases m.run (zero, r) <;> rfl
  unfold InStepAt
  rw [hrun]
  exact (h (zero, r) bs hr).repack fun _ _ _ _ hs _ => ⟨hs, trivial⟩

/-- The scanner's result does not matter either. -/
theorem FollowsIntoAt.discard {m : IntoM σ α} {sc : Scanner β} (h : FollowsIntoAt R m s sc bs)
    : FollowsIntoAt Any m s (do let _ ← sc) bs := by
  have hbind := InStepAt.bind (f := pure) (g := fun _ => pure PUnit.unit) (Q := Any) h
    fun _ _ _ _ _ hs => ⟨hs, trivial⟩
  rwa [bind_pure] at hbind

/-! ### Fields -/

/-- How a field is read when it is not null. -/
def BodyFollows (m : IntoM σ Unit) (sc : Scanner β) : Prop :=
  ∀ s bs, At s.2 bs → bs.head? ≠ some TypeCode.null → FollowsIntoAt Any m s sc bs

/-- A field is laid out as `l` says. -/
structure FieldFollows (f : UnmarshalField σ) (l : Field) : Prop where
  absent : FollowsInto Any f.null l.absent
  body : BodyFollows f.field l.scan

/-- The test for null on both sides, with what it leaves. -/
theorem run_tryReadNull (hs : At s.2 bs) :
    ∃ b s' bs', (onBuffer tryReadNull : IntoM σ Bool).run s = .ok b s' ∧ null.run bs = .ok b bs' ∧
      At s'.2 bs' ∧ (b = false → bs' = bs) ∧ (b = true ↔ bs.head? = some TypeCode.null) := by
  have hstep := follows_onBuffer (σ := σ) follows_tryReadNull s bs hs
  unfold InStepAt at hstep
  cases hrun : (onBuffer tryReadNull : IntoM σ Bool).run s with
  | error e s' =>
    rw [hrun] at hstep
    by_cases hhead : bs.head? = some TypeCode.null
    · simp [null, hhead, Agree] at hstep
    · simp [null, hhead, Agree] at hstep
  | ok b s' =>
    rw [hrun] at hstep
    by_cases hhead : bs.head? = some TypeCode.null
    · have hnull : null.run bs = .ok true bs.tail := by simp [null, hhead]
      rw [hnull] at hstep
      obtain ⟨hs', rfl⟩ := hstep
      exact ⟨true, s', bs.tail, rfl, hnull, hs', by simp, by simp [hhead]⟩
    · have hnull : null.run bs = .ok false bs := by simp [null, hhead]
      rw [hnull] at hstep
      obtain ⟨hs', rfl⟩ := hstep
      exact ⟨false, s', bs, rfl, hnull, hs', fun _ => rfl, by simp [hhead]⟩

theorem BodyFollows.orNull {R : Unit → β → Prop} {sc : Scanner β}
    (h : ∀ s bs, At s.2 bs → bs.head? ≠ some TypeCode.null → FollowsIntoAt R m s sc bs) :
    BodyFollows (orNull m) sc := by
  intro s bs hs hhead
  obtain ⟨b, s', bs', hrun, -, hs', hsame, hnull⟩ := run_tryReadNull hs
  cases b with
  | true => exact absurd (hnull.mp rfl) hhead
  | false =>
    rw [hsame rfl] at hs'
    exact .bind_left hrun ((h s' bs hs' hhead).mono fun _ _ _ => trivial)

/-- An `Unmarshal` that reads a variable. -/
theorem body_assign {read : BufM α} {put : α → σ → σ} {sc : Scanner β} (h : Follows R read sc)
    : BodyFollows (assign read put) sc := by
  refine BodyFollows.orNull (R := Any) fun s bs hs _ => ?_
  have hbind := (follows_onBuffer (σ := σ) h).bind (g := pure) (Q := Any)
    (f := fun a => modify fun s => (put a s.1, s.2)) fun a b _ s bs hs => ⟨hs, trivial⟩
  rw [bind_pure] at hbind
  exact hbind s bs hs

theorem body_assignAlways {read : BufM α} {zero : α} {put : α → σ → σ} {sc : Scanner β}
    (h : Follows R read sc) : BodyFollows (assignAlways read zero put) sc := by
  refine BodyFollows.orNull (R := Any) fun s bs hs _ => ?_
  have hstep := h s.2 bs hs
  have hpacked := hstep.repack (P := fun s bs => At s.2 bs) (V := Any) (f := fun _ _ => ())
    (g := fun a r => (put a s.1, r)) (k := fun r => (put zero s.1, r)) fun _ _ _ _ hs _ => ⟨hs, trivial⟩
  unfold FollowsIntoAt InStepAt
  simp only [EStateM.run] at hpacked ⊢
  cases hrun : read s.2 <;> rw [hrun] at hpacked <;> exact hpacked

/-- An `Unmarshal` through a pointer. -/
theorem body_assignPtr {part : σ → Option τ} {put : Option τ → σ → σ} {zero : τ} {m : IntoM τ Unit}
    {R : Unit → β → Prop} {sc : Scanner β} (h : FollowsInto R m sc) : BodyFollows (assignPtr part put zero m) sc := by
  have hinner : BodyFollows (orNull m) sc := BodyFollows.orNull fun s bs hs _ => h s bs hs
  exact BodyFollows.orNull fun s bs hs hhead => followsAt_zoom (hinner _ bs hs hhead)

theorem FieldFollows.optional {sc : Scanner β} (h : BodyFollows m sc) :
    FieldFollows { field := m } (optional sc) where
  absent := .pure trivial
  body := fun s bs hs hhead => (h s bs hs hhead).discard

theorem FieldFollows.withDefault {put : σ → σ} {sc : Scanner β} (h : BodyFollows m sc) :
    FieldFollows { field := m, handleNull := default_ put } (Layout.optional sc) where
  absent := fun _ _ hs => ⟨hs, trivial⟩
  body := fun s bs hs hhead => (h s bs hs hhead).discard

theorem FieldFollows.mandatory {msg : String} {sc : Scanner β} (h : BodyFollows m sc) :
    FieldFollows { field := m, handleNull := required msg } (mandatory sc) where
  absent := fun _ _ _ => rfl
  body := fun s bs hs hhead => (h s bs hs hhead).discard

/-! ### Composites -/

theorem stop_wrap (text : String) (f : Fault) : Fault.stop (Fault.wrap text f) = Fault.stop f := by
  cases f <;> rfl

theorem followsAt_adaptExcept {m : IntoM σ α} {sc : Scanner β} (h : FollowsIntoAt R m s sc bs) (text : String) :
    FollowsIntoAt R (m.adaptExcept (Fault.wrap text)) s sc bs := by
  have hrun : (m.adaptExcept (Fault.wrap text)).run s = (match m.run s with
      | .ok a s => .ok a s
      | .error e s => .error (Fault.wrap text e) s) := by
    simp only [EStateM.run, EStateM.adaptExcept]
    cases m s <;> rfl
  unfold FollowsIntoAt InStepAt at *
  rw [hrun]
  cases hm : m.run s with
  | ok a s' =>
    rw [hm] at h
    exact h
  | error e s' =>
    rw [hm] at h
    cases hsc : sc.run bs with
    | ok b t =>
      rw [hsc] at h
      exact h.elim
    | error d t =>
      rw [hsc] at h
      exact (stop_wrap text e).trans h

theorem FieldFollows.unmarshalField {f : UnmarshalField σ} {l : Field} (h : FieldFollows f l)
    (i : Nat) : FollowsInto Any (unmarshalField i f) l.present := by
  intro s bs hs
  obtain ⟨b, s', bs', hrun, hscan, hs', hsame, hnull⟩ := run_tryReadNull hs
  refine .bind_left hrun (.bind_right hscan ?_)
  cases b with
  | true => exact h.absent s' bs' hs'
  | false =>
    have hhead : bs.head? ≠ some TypeCode.null := fun hnull' => by simpa using hnull.mpr hnull'
    rw [hsame rfl] at hs' ⊢
    exact followsAt_adaptExcept (h.body s' bs hs' hhead) _

/-- The loops of `UnmarshalComposite`: the fields that are present, then those that are absent. -/
theorem follows_fields {fs : List (UnmarshalField σ)} {ls : List Field} (h : Forall₂ FieldFollows fs ls) (i n : Nat) :
    FollowsInto Any (do
      unmarshalFields i (fs.take n)
      nullFields (fs.drop n)) (fields ls n) := by
  induction h generalizing i n with
  | nil =>
    rw [take_nil, drop_nil]
    exact fun s bs hs => ⟨hs, trivial⟩
  | @cons f l fs ls hf _ ih =>
    cases n with
    | zero =>
      have hrest := ih i 0
      rw [take_zero, drop_zero, unmarshalFields, pure_bind] at hrest ⊢
      exact .bind hf.absent fun _ _ _ => hrest
    | succ n =>
      rw [take_succ_cons, drop_succ_cons, unmarshalFields, bind_assoc, fields]
      exact .bind (hf.unmarshalField i) fun _ _ _ => ih (i + 1) n

theorem follows_readCompositeHeader : Follows Eq readCompositeHeader recordHeader := by
  refine .bind_eq follows_readByte fun t => ?_
  refine .ite Iff.rfl (fun _ => follows_fail) fun _ => ?_
  simp only [ulong, bind_map_left]
  refine .bind follows_readUlong ?_
  rintro _ buf rfl
  refine .bind_eq follows_readListHeader fun n => ?_
  refine .pure ?_
  have hdescriptor : (UInt64.ofNat (beNat buf)).toUInt8 = UInt8.ofNat (beNat buf) := by
    apply UInt8.toNat_inj.mp
    simp
  rw [hdescriptor]

/-- **Records.** `UnmarshalComposite` follows the layout of its fields. -/
theorem follows_unmarshalComposite {fs : List (UnmarshalField σ)} {ls : List Field} (h : Forall₂ FieldFollows fs ls)
    (code : UInt8) : FollowsInto Any (unmarshalComposite code fs) (record code ls) := by
  refine .bind_eq (follows_onBuffer follows_readCompositeHeader) fun ⟨d, n⟩ => ?_
  refine .ite Iff.rfl (fun _ => .throw rfl) fun _ => ?_
  refine .ite (by rw [h.length_eq]) (fun _ => .throw rfl) fun _ => ?_
  exact follows_fields h 0 n

/-! ### The layout of a reader by instance search

A record is laid out as its fields are, and a field as what it reads. -/

/-- The reader follows the scanner, whatever it makes of the bytes. -/
class Laid (m : BufM α) (sc : Scanner β) : Prop where
  follows : Follows Any m sc

/-- The scanner that a decoder follows is found by its shape. -/
class LaidInto (m : IntoM σ Unit) (sc : Scanner β) : Prop where
  follows : FollowsInto Any m sc

class LaidBody (m : IntoM σ Unit) (sc : Scanner β) : Prop where
  follows : BodyFollows m sc

/-- The same for the fields of a composite, one by one. -/
class LaidFields (fs : List (UnmarshalField σ)) (ls : List Field) : Prop where
  follows : Forall₂ FieldFollows fs ls

attribute [class] FieldFollows

section Instances

variable {m : IntoM σ Unit} {read : BufM α} {sc : Scanner β} {γ : Type}

theorem Follows.laid (h : Follows R read sc) : Laid read sc := ⟨h.mono fun _ _ _ => trivial⟩

instance [h : Laid read sc] (put : α → σ → σ) : LaidBody (assign read put) sc := ⟨body_assign h.follows⟩

instance [h : Laid read sc] (zero : α) (put : α → σ → σ) : LaidBody (assignAlways read zero put) sc :=
  ⟨body_assignAlways h.follows⟩

instance [h : LaidInto m sc] (part : τ → Option σ) (put : Option σ → τ → τ) (zero : σ) :
    LaidBody (assignPtr part put zero m) sc :=
  ⟨body_assignPtr h.follows⟩

instance [h : LaidBody m sc] : FieldFollows { field := m } (optional sc) := .optional h.follows

instance [h : LaidBody m sc] (put : σ → σ) :
    FieldFollows { field := m, handleNull := default_ put } (optional sc) :=
  .withDefault h.follows

instance [h : LaidBody m sc] (msg : String) :
    FieldFollows { field := m, handleNull := required msg } (mandatory sc) :=
  .mandatory h.follows

instance : LaidFields ([] : List (UnmarshalField σ)) [] := ⟨.nil⟩

instance {f : UnmarshalField σ} {l : Field} {fs : List (UnmarshalField σ)} {ls : List Field}
    [hf : FieldFollows f l] [h : LaidFields fs ls] : LaidFields (f :: fs) (l :: ls) :=
  ⟨.cons hf h.follows⟩

theorem laid_unmarshalComposite {fs : List (UnmarshalField σ)} {ls : List Field} [h : LaidFields fs ls]
    (code : UInt8) : LaidInto (unmarshalComposite code fs) (record code ls) :=
  ⟨follows_unmarshalComposite h.follows code⟩

instance [h : LaidInto m sc] (zero : σ) : Laid (runNew zero m) sc := ⟨follows_runNew h.follows⟩

instance [h : Laid read sc] (f : α → γ) : Laid (f <$> read) sc := ⟨h.follows.map_left fun _ _ _ => trivial⟩

instance [h : Laid read sc] (f : α → γ) : Laid (do let a ← read; pure (f a)) sc := ⟨h.follows.then_pure f⟩

instance {p : Prop} [Decidable p] {read' : BufM α} {sc' : Scanner β} [h : Laid read sc] [h' : Laid read' sc'] :
    Laid (if p then read else read') (if p then sc else sc') :=
  ⟨.ite Iff.rfl (fun _ => h.follows) fun _ => h'.follows⟩

instance (msg : String) : Laid (fail msg : BufM α) (malformed : Scanner β) := ⟨follows_fail⟩

end Instances

instance : Laid readString (scalar textCodes) := follows_readString.laid

instance : Laid readBool (scalar boolCodes) := follows_readBool.laid

instance : Laid readUint32Value (scalar uintCodes) := follows_readUint32Value.laid

instance : Laid readUlong (scalar ulongCodes) := follows_readUlong.laid

end Records

/-! ## Maps -/

section Maps

variable {κ β : Type}

theorem follows_mapLoop {μ : Type} {round : μ → BufM μ} {sc : Scanner Unit} (h : ∀ m, Follows Any (round m) sc)
    (bound : Nat) (i n : UInt32) (m : μ) : Follows Any (mapLoop round bound i n m) (entries sc bound i n) := by
  induction bound generalizing i m with
  | zero => exact .throw rfl
  | succ bound ih =>
    refine .ite Iff.rfl (fun _ => ?_) fun _ => .pure trivial
    exact .bind (h m) fun m' _ _ => ih (i + 2) m'

theorem follows_unmarshalMap {round : List (κ × β) → BufM (List (κ × β))} {sc : Scanner Unit}
    (h : ∀ m, Follows Any (round m) sc) : Follows Any (unmarshalMap round) (map sc) := by
  refine .bind follows_readMapHeader ?_
  rintro _ n rfl
  refine .bind_eq follows_len fun left => ?_
  exact follows_mapLoop h (left + 1) 0 (UInt32.ofNat n) []

end Maps

/-! ## Keys -/

theorem Value.kind_of_hashable (h : v.hashable = true) : v.kind = .other := by
  cases v <;> first | rfl | cases h

theorem Value.keyClass_eq_hashable : v.keyClass = .hashable ↔ v.hashable = true := by
  unfold Value.keyClass
  by_cases h : v.hashable = true
  · simp [h, Value.kind_of_hashable h]
  · by_cases hkind : v.kind = .other <;> simp [h, hkind]

theorem Value.keyClass_eq_compound : v.keyClass = .compound ↔ v.kind ≠ .other := by
  unfold Value.keyClass
  by_cases hkind : v.kind = .other
  · by_cases h : v.hashable = true <;> simp [h, hkind]
  · simp [hkind]

theorem Value.keyClass_described (d v : Value) : (Value.described d v).keyClass
    = if d.keyClass = .hashable ∧ v.keyClass = .hashable then .hashable else .holder := by
  have hkind : (Value.described d v).kind = .other := rfl
  have hhash : (Value.described d v).hashable = (d.hashable && v.hashable) := rfl
  simp only [Value.keyClass_eq_hashable]
  unfold Value.keyClass
  rw [hkind, hhash]
  simp

section Values

variable {readAny : BufM Value} {any : Scanner KeyClass}

/-- The scanner finds the class of the value. -/
def Classified (v : Value) (c : KeyClass) : Prop := v.keyClass = c

variable (hany : Follows Classified readAny any)

include hany

theorem follows_mapAnyAny : Follows Any (unmarshalMapAnyAny readAny) (map (anyEntry any)) := by
  refine follows_unmarshalMap fun m => ?_
  refine .bind_eq hany fun key => ?_
  refine .bind hany fun value _ _ => ?_
  by_cases hkind : key.kind ≠ .other
  · rw [if_pos hkind, Value.keyClass_eq_compound.mpr hkind]
    exact follows_fail
  · rw [if_neg hkind, assignAny]
    by_cases hhash : key.hashable = true
    · rw [if_pos hhash, Value.keyClass_eq_hashable.mpr hhash]
      exact .pure trivial
    · have hclass : key.keyClass = .holder := by
        unfold Value.keyClass
        rw [if_neg hkind, if_neg hhash]
      rw [if_neg hhash, hclass]
      exact .throw rfl

theorem follows_annotations : Follows Any (unmarshalAnnotations readAny) (annotations any) := by
  refine follows_unmarshalMap fun m => ?_
  refine .bind_eq hany fun key => ?_
  refine .bind hany fun value _ _ => ?_
  rw [assignAny]
  by_cases hhash : key.hashable = true
  · rw [if_pos hhash, Value.keyClass_eq_hashable.mpr hhash]
    exact .pure trivial
  · have hclass : key.keyClass ≠ .hashable := mt Value.keyClass_eq_hashable.mp hhash
    rw [if_neg hhash]
    cases hkey : key.keyClass with
    | hashable => exact absurd hkey hclass
    | holder => exact .throw rfl
    | compound => exact .throw rfl

theorem follows_stringMap : Follows Any (unmarshalMapStringAny readAny) (stringMap any) := by
  refine follows_unmarshalMap fun m => ?_
  refine .bind follows_readString fun key _ _ => ?_
  exact .bind hany fun value _ _ => .pure trivial

/-! ## Lists, described types and maps of any type -/

theorem follows_unmarshalList : Follows Any (unmarshalList readAny) (list any) := by
  refine .bind_eq follows_readListHeader fun n => ?_
  refine .bind_eq follows_len fun left => ?_
  exact .ite Iff.rfl (fun _ => follows_fail) fun _ => follows_readN hany n

theorem follows_unmarshalAny : Follows Classified (unmarshalAny readAny) (nullable any) := by
  refine .bind_eq follows_tryReadNull fun b => ?_
  exact .ite Iff.rfl (fun _ => .pure rfl) fun _ => hany

theorem follows_unmarshalDescribed :
    Follows (fun d c => (Value.described d.1 d.2).keyClass = c) (unmarshalDescribed readAny)
      (described any) := by
  refine .bind_eq follows_readByte fun t => ?_
  refine .ite Iff.rfl (fun _ => follows_fail) fun _ => ?_
  refine .bind_eq (follows_unmarshalAny hany) fun d => ?_
  refine .bind_eq (follows_unmarshalAny hany) fun v => ?_
  exact .pure (Value.keyClass_described d v)

theorem follows_readDescribed : Follows Classified (readDescribed readAny) (described any) := by
  rw [readDescribed, ← map_eq_pure_bind]
  exact (follows_unmarshalDescribed hany).map_left fun _ _ h => h

theorem follows_readAnyMap :
    Follows (fun v _ => v.keyClass = .compound) (readAnyMap readAny) (map (anyEntry any)) := by
  rw [← bind_pure (map (anyEntry any))]
  refine .bind (follows_mapAnyAny hany) fun m _ _ => ?_
  split
  · exact .pure rfl
  · split
    · exact .pure rfl
    · exact .pure rfl

/-! ## Errors and delivery states -/

theorem follows_unmarshalError : FollowsInto Any (unmarshalError readAny) (error any) :=
  have := (follows_stringMap hany).laid
  (laid_unmarshalComposite _).follows

theorem follows_unmarshalState (code : UInt8) : Follows Any (unmarshalState readAny code) (state any code) := by
  have hannotations := (follows_annotations hany).laid
  have herror : LaidInto (unmarshalError readAny) (error any) := ⟨follows_unmarshalError hany⟩
  have hcomposite {σ : Type} {zero : σ} {fs : List (UnmarshalField σ)} {ls : List Field}
      [LaidFields fs ls] (f : σ → DeliveryState Value) :
      Follows Any (do let s ← runNew zero (unmarshalComposite code fs); pure (f s)) (record code ls) :=
    have : LaidInto (unmarshalComposite code fs) (record code ls) := laid_unmarshalComposite code
    Laid.follows
  unfold unmarshalState state
  by_cases hacc : code = stateAccepted
  · subst hacc
    rw [if_pos rfl, if_pos (.inl rfl)]
    exact hcomposite _
  by_cases hmod : code = stateModified
  · subst hmod
    rw [if_neg (by decide), if_pos rfl, if_neg (by decide), if_pos rfl]
    exact hcomposite _
  by_cases hrec : code = stateReceived
  · subst hrec
    rw [if_neg (by decide), if_neg (by decide), if_pos rfl, if_neg (by decide), if_neg (by decide), if_pos rfl]
    exact hcomposite _
  by_cases hrej : code = stateRejected
  · subst hrej
    rw [if_neg (by decide), if_neg (by decide), if_neg (by decide), if_pos rfl, if_neg (by decide),
      if_neg (by decide), if_neg (by decide), if_pos rfl]
    exact hcomposite _
  by_cases hrel : code = stateReleased
  · subst hrel
    rw [if_neg (by decide), if_neg (by decide), if_neg (by decide), if_neg (by decide), if_pos rfl, if_pos (.inr rfl)]
    exact hcomposite _
  rw [if_neg hacc, if_neg hmod, if_neg hrec, if_neg hrej, if_neg hrel,
    if_neg (not_or.mpr ⟨hacc, hrel⟩), if_neg hmod, if_neg hrec, if_neg hrej]
  exact follows_fail

/-! ## Composites

The decoder peeks at the descriptor and then reads it again. -/

omit hany in
/-- A descriptor starts with the zero byte and has at least two. -/
theorem descriptorByte_head {n : Nat} (h : descriptorByte bs = some (t, n)) :
    bs.head? = some 0 ∧ 2 ≤ n ∧ n ≤ bs.length := by
  match bs, h with
  | b :: c :: d :: rest, h =>
    simp only [descriptorByte] at h
    split_ifs at h with hb h0 h8 h64
    · cases h
      exact ⟨by simpa using hb, by omega, by simp⟩
    · cases h
      exact ⟨by simpa using hb, by omega, by simp⟩
    · cases h
      refine ⟨by simpa using hb, by omega, ?_⟩
      simp
      omega

omit hany in
theorem run_peekMessageType (r : Buffer) (bs : Bytes) :
    (∃ p, descriptorByte bs = some p ∧ (peekMessageType bs).run r = .ok p r) ∨
      (descriptorByte bs = none ∧ ∃ msg, (peekMessageType bs).run r = .error (.err msg) r) := by
  match bs with
  | [] => exact .inr ⟨rfl, _, rfl⟩
  | [_] => exact .inr ⟨rfl, _, rfl⟩
  | [_, _] => exact .inr ⟨rfl, _, rfl⟩
  | b :: t :: c :: rest =>
    have hlen : ¬ (b :: t :: c :: rest).length < 3 := by simp
    have h0 : (index (b :: t :: c :: rest) 0 : BufM UInt8) = pure b := rfl
    have h1 : (index (b :: t :: c :: rest) 1 : BufM UInt8) = pure t := rfl
    have h2 : (index (b :: t :: c :: rest) 2 : BufM UInt8) = pure c := rfl
    have hdrop : (b :: t :: c :: rest).drop 2 = c :: rest := rfl
    rw [peekMessageType, if_neg hlen, h0, pure_bind, h1, h2, hdrop]
    by_cases hb : b ≠ 0
    · rw [if_pos hb]
      exact .inr ⟨by simp [descriptorByte, hb], _, rfl⟩
    rw [if_neg hb, pure_bind]
    rw [not_not] at hb
    subst hb
    by_cases ht0 : t = ulong0
    · subst ht0
      exact .inl ⟨(0, 2), rfl, rfl⟩
    by_cases ht8 : t = smallUlong
    · subst ht8
      exact .inl ⟨(c, 3), rfl, rfl⟩
    rw [if_neg ht0, if_neg ht8]
    by_cases ht64 : t = TypeCode.ulong
    · subst ht64
      by_cases hrest : 7 ≤ rest.length
      · have hshort : ¬ (c :: rest).length < 8 := by
          simp
          omega
        refine .inl ⟨(UInt8.ofNat (beNat ((c :: rest).take 8)), 10), ?_, ?_⟩
        · simp [descriptorByte, hrest, ht0, ht8]
        · rw [if_neg (not_not_intro rfl), if_neg hshort, bigEndian_of_le (Nat.le_of_not_lt hshort)]
          rfl
      · have hshort : (c :: rest).length < 8 := by
          simp
          omega
        rw [if_neg (not_not_intro rfl), if_pos hshort]
        exact .inr ⟨by simp [descriptorByte, hrest, ht0, ht8], _, rfl⟩
    · rw [if_pos ht64]
      exact .inr ⟨by simp [descriptorByte, ht0, ht8, ht64], _, rfl⟩

theorem follows_unmarshalDeliveryState : Follows Any (unmarshalDeliveryState readAny) (deliveryState any) := by
  intro r bs h
  refine .bind_left (h.run_peek reads_bytes) ?_
  refine .bind_right (b := bs) (u := bs) rfl ?_
  rcases run_peekMessageType r bs with ⟨⟨code, n⟩, hcode, hrun⟩ | ⟨hnone, msg, hrun⟩
  · refine .bind_left hrun ?_
    rw [hcode]
    exact follows_unmarshalState hany code r bs h
  · unfold InStepAt
    rw [EStateM.run_bind, hrun, hnone]
    rfl

omit hany in
theorem follows_lifetimePolicy : Follows Any unmarshalLifetimePolicy lifetimePolicy := by
  refine .bind_eq follows_readCompositeHeader fun ⟨d, n⟩ => ?_
  exact .ite Iff.rfl (fun _ => follows_fail) fun _ => .pure trivial

omit hany in
/-- What `readComposite` does with the descriptor. -/
theorem run_readComposite (h : At r bs) :
    (∃ d, descriptor bs = some d ∧ (readComposite readAny).run r
        = (if d > 255 then readDescribed readAny
          else compositeReader readAny (UInt8.ofNat d)).run r) ∨
      (descriptor bs = none ∧ ∃ msg, (readComposite readAny).run r = .error (.err msg) r) := by
  rw [readComposite, EStateM.run_bind, h.run_peek reads_bytes]
  dsimp only
  match bs with
  | [] => exact .inr ⟨rfl, _, rfl⟩
  | [_] => exact .inr ⟨rfl, _, rfl⟩
  | b :: t :: rest =>
    have hlen : ¬ (b :: t :: rest).length < 2 := by simp
    have h0 : (index (b :: t :: rest) 0 : BufM UInt8) = pure b := rfl
    have h1 : (index (b :: t :: rest) 1 : BufM UInt8) = pure t := rfl
    have hdrop : (b :: t :: rest).drop 2 = rest := rfl
    rw [if_neg hlen, h0, pure_bind, peekDescriptor, h1, pure_bind, hdrop]
    by_cases hb : b ≠ 0
    · rw [if_pos hb]
      exact .inr ⟨by simp [descriptor, hb], _, rfl⟩
    rw [if_neg hb]
    rw [not_not] at hb
    subst hb
    by_cases ht8 : t = smallUlong
    · subst ht8
      cases rest with
      | nil => exact .inr ⟨rfl, _, rfl⟩
      | cons c rest =>
        have hlen' : ¬ (0 :: smallUlong :: c :: rest).length < 3 := by simp
        rw [if_pos rfl, if_neg hlen']
        exact .inl ⟨c.toNat, rfl, rfl⟩
    rw [if_neg ht8]
    by_cases ht64 : t = TypeCode.ulong
    · subst ht64
      rw [if_pos rfl]
      by_cases hrest : 8 ≤ rest.length
      · have hshort : ¬ (0 :: TypeCode.ulong :: rest).length < 10 := by
          simp
          omega
        rw [if_neg hshort, bigEndian_of_le hrest, pure_bind]
        exact .inl ⟨beNat (rest.take 8), by simp [descriptor, hrest, ht8], rfl⟩
      · have hshort : (0 :: TypeCode.ulong :: rest).length < 10 := by
          simp
          omega
        rw [if_pos hshort]
        exact .inr ⟨by simp [descriptor, hrest, ht8], _, rfl⟩
    · rw [if_neg ht64, pure_bind]
      exact .inl ⟨0, by simp [descriptor, ht8, ht64], rfl⟩

theorem follows_compositeReader (d : Nat) :
    Follows Classified (if d > 255 then readDescribed readAny
      else compositeReader readAny (UInt8.ofNat d)) (compositeOf any d) := by
  refine .ite Iff.rfl (fun _ => follows_readDescribed hany) fun _ => ?_
  refine .ite Iff.rfl (fun _ => ?_) fun _ => ?_
  · exact .bind (follows_runNew (follows_unmarshalError hany)) fun _ _ _ => .pure rfl
  refine .ite (by simp [lifetimeCodes]) (fun _ => ?_) fun _ => ?_
  · exact .bind follows_lifetimePolicy fun _ _ _ => .pure rfl
  refine .ite (by simp [stateCodes]) (fun _ => ?_) fun _ => ?_
  · exact .bind (follows_unmarshalState hany _) fun _ _ _ => .pure rfl
  exact .ite (by simp) (fun _ => follows_fail) fun _ => follows_readDescribed hany

theorem follows_readComposite : Follows Classified (readComposite readAny) (composite any) := by
  intro r bs h
  refine .bind_right (b := bs) (u := bs) rfl ?_
  unfold InStepAt
  rcases run_readComposite h with ⟨d, hd, hrun⟩ | ⟨hnone, msg, hrun⟩
  · rw [hrun, hd]
    exact follows_compositeReader hany d r bs h
  · rw [hrun, hnone]
    rfl

/-! ## `ReadAny` -/

omit hany in
/-- A scalar among all those of hashable types. -/
theorem followsAt_hashable {α : Type} {R : α → Bytes → Prop} {m : BufM α} {codes : List UInt8}
    {f : α → Value} (h : Follows R m (scalar codes)) (hat : At r (t :: tail)) (hmem : t ∈ codes)
    (hmem' : t ∈ fixedCodes ++ textCodes) (hf : ∀ a, (f a).keyClass = .hashable) :
    FollowsAt Classified (f <$> m) r (do
      let _ ← scalar (fixedCodes ++ textCodes)
      pure .hashable) (t :: tail) := by
  have hstep : FollowsAt R m r (scalar codes) (t :: tail) := h r _ hat
  rw [map_eq_pure_bind]
  refine .bind (FollowsAt.scalar_congr hstep hmem hmem') ?_
  intro a _ r' bs' _ hat'
  exact ⟨hat', hf a⟩

omit hany in
theorem followsAt_anyReader_scalar (hat : At r (t :: tail)) (ht : t ∈ fixedCodes ++ textCodes) :
    FollowsAt Classified (anyReader readAny t) r (anyOf any t) (t :: tail) := by
  have hmem := ht
  simp only [fixedCodes, boolCodes, uintCodes, ulongCodes, intCodes, longCodes, textCodes,
    stringCodes, symbolCodes, cons_append, nil_append, mem_cons,
    not_mem_nil, or_false] at ht
  rcases ht with rfl | rfl | rfl | rfl | rfl | rfl | rfl | rfl | rfl | rfl | rfl | rfl | rfl | rfl |
    rfl | rfl | rfl | rfl | rfl | rfl | rfl | rfl | rfl | rfl | rfl
  -- bool, uint, ulong, int and long have several encodings each
  iterate 3 exact followsAt_hashable follows_readBool hat (by decide) hmem fun _ => rfl
  iterate 3 exact followsAt_hashable follows_readUint32Value hat (by decide) hmem fun _ => rfl
  iterate 3 exact followsAt_hashable follows_readUlong hat (by decide) hmem fun _ => rfl
  iterate 2 exact followsAt_hashable follows_readInt32 hat (by decide) hmem fun _ => rfl
  iterate 2 exact followsAt_hashable follows_readLong hat (by decide) hmem fun _ => rfl
  -- ubyte, ushort, byte, short, float, double, timestamp, uuid
  · exact followsAt_hashable follows_readUbyte hat (by decide) hmem fun _ => rfl
  · exact followsAt_hashable follows_readUshort hat (by decide) hmem fun _ => rfl
  · exact followsAt_hashable follows_readSbyte hat (by decide) hmem fun _ => rfl
  · exact followsAt_hashable follows_readShort hat (by decide) hmem fun _ => rfl
  · exact followsAt_hashable follows_readFloat hat (by decide) hmem fun _ => rfl
  · exact followsAt_hashable follows_readDouble hat (by decide) hmem fun _ => rfl
  · exact followsAt_hashable follows_readTimestamp hat (by decide) hmem fun _ => rfl
  · exact followsAt_hashable follows_readUUID hat (by decide) hmem fun _ => rfl
  -- strings and symbols
  iterate 4 exact followsAt_hashable follows_readString hat (by decide) hmem fun _ => rfl

omit hany in
/-- A reader of slices or maps. -/
theorem Follows.classify {β : Type} {m : BufM Value} {sc : Scanner β}
    (h : Follows (fun v _ => v.keyClass = .compound) m sc) :
    Follows Classified m (do
      let _ ← sc
      pure .compound) := by
  rw [← bind_pure m]
  refine .bind h ?_
  intro v _ hv
  exact .pure hv

omit hany in
theorem anyReader_other (readAny : BufM Value) (h0 : t ≠ 0) (hscalar : t ∉ fixedCodes ++ textCodes)
    (hbinary : t ∉ binaryCodes) (harray : ¬ (t = array8 ∨ t = array32))
    (hlist : ¬ (t = list0 ∨ t = list8 ∨ t = list32))
    (hmap : ¬ (t = map8 ∨ t = map32)) : ∃ msg, anyReader readAny t = fail msg := by
  simp only [fixedCodes, boolCodes, uintCodes, ulongCodes, intCodes, longCodes, textCodes,
    stringCodes, symbolCodes, cons_append, nil_append, mem_cons,
    not_mem_nil, or_false, not_or] at hscalar
  simp only [binaryCodes, mem_cons, not_mem_nil, or_false] at hbinary
  simp only [anyReader, h0, hscalar, hbinary, harray, hlist, hmap, or_self, if_false]
  split_ifs
  · exact ⟨_, rfl⟩
  · exact ⟨_, rfl⟩
  · exact ⟨_, rfl⟩
  · exact ⟨_, rfl⟩
  · exact ⟨_, rfl⟩

theorem followsAt_anyReader (hat : At r (t :: tail)) :
    FollowsAt Classified (anyReader readAny t) r (anyOf any t) (t :: tail) := by
  by_cases hscalar : t ∈ fixedCodes ++ textCodes
  · exact followsAt_anyReader_scalar hat hscalar
  by_cases h0 : t = 0
  · subst h0
    exact follows_readComposite hany r _ hat
  by_cases hbinary : t ∈ binaryCodes
  · have hreader : anyReader readAny t = Value.binary <$> readBinary := by
      simp only [binaryCodes, mem_cons, not_mem_nil, or_false] at hbinary
      rcases hbinary with rfl | rfl <;> rfl
    rw [anyOf, if_neg h0, if_neg hscalar, if_pos hbinary, hreader]
    exact Follows.classify (follows_readBinary.map_left fun _ _ _ => rfl) r _ hat
  by_cases harray : t = array8 ∨ t = array32
  · have hreader : anyReader readAny t = readAnyArray := by
      rcases harray with rfl | rfl <;> rfl
    rw [anyOf, if_neg h0, if_neg hscalar, if_neg hbinary, if_pos harray, hreader]
    exact Follows.classify follows_readAnyArray r _ hat
  by_cases hlist : t = list0 ∨ t = list8 ∨ t = list32
  · have hreader : anyReader readAny t = Value.list <$> unmarshalList readAny := by
      rcases hlist with rfl | rfl | rfl <;> rfl
    rw [anyOf, if_neg h0, if_neg hscalar, if_neg hbinary, if_neg harray, if_pos hlist, hreader]
    exact Follows.classify ((follows_unmarshalList hany).map_left fun _ _ _ => rfl) r _ hat
  by_cases hmap : t = map8 ∨ t = map32
  · have hreader : anyReader readAny t = readAnyMap readAny := by
      rcases hmap with rfl | rfl <;> rfl
    rw [anyOf, if_neg h0, if_neg hscalar, if_neg hbinary, if_neg harray, if_neg hlist, if_pos hmap, hreader]
    exact Follows.classify (follows_readAnyMap hany) r _ hat
  obtain ⟨msg, hmsg⟩ := anyReader_other readAny h0 hscalar hbinary harray hlist hmap
  rw [anyOf, if_neg h0, if_neg hscalar, if_neg hbinary, if_neg harray, if_neg hlist, if_neg hmap, hmsg]
  exact follows_fail r _ hat

theorem follows_readAnyBody : Follows Classified (readAnyBody readAny) (anyBody any) := by
  refine .bind_eq follows_tryReadNull fun b => ?_
  refine .ite Iff.rfl (fun _ => .pure rfl) fun _ => ?_
  intro r bs h
  refine .bind_left (h.run_peek reads_len) ?_
  refine .bind_right (b := bs) (u := bs) rfl ?_
  cases bs with
  | nil => rfl
  | cons t tail =>
    rw [if_neg (by simp)]
    exact .bind_left (h.run_peek reads_peekType) (followsAt_anyReader hany h)

end Values

theorem follows_readAnyDepth (depth : Nat) : Follows Classified (readAnyDepth depth) (anyDepth depth) := by
  induction depth with
  | zero => exact .throw rfl
  | succ depth ih => exact follows_readAnyBody ih

/-- **`ReadAny` follows the layout of values.** -/
theorem follows_readAny : Follows Classified readAny any := by
  refine .bind_eq follows_len fun left => ?_
  exact follows_readAnyDepth (left + 1)

end GoAmqp
