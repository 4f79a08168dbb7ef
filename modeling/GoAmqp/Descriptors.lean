import GoAmqp.Encoding.Allocation
import GoAmqp.Message.Shrinks

set_option autoImplicit false

/-! # Descriptors

The descriptor of a described value is an unsigned long of up to 64 bits, and the descriptors of the
built-in types have eight. `PeekMessageType` and `readCompositeHeader` narrow what they read to eight bits
before it is compared, `readComposite` compares first. So a descriptor with a built-in code as its low byte
is taken for that code by the first two (`descriptorByte_value`, `readCompositeHeader_ok`) and not by the
third (`readComposite_described`). -/

namespace GoAmqp

open Lib Buffer Layout Consumes List
open TypeCode hiding null

variable {bs : Bytes} {c : UInt8} {k : Nat} {r r' : Buffer} {n : UInt64} {read : BufM Value}

/-! ## The descriptor on the wire -/

/-- The descriptor in front of the bytes, in any of the forms of an unsigned long. -/
def descriptorValue : Bytes → Option UInt64
  | b :: t :: rest =>
    if b ≠ 0 then none
    else if t = ulong0 then some 0
    else if t = smallUlong then rest.head?.map UInt8.toUInt64
    else if t = TypeCode.ulong ∧ 8 ≤ rest.length then some (UInt64.ofNat (beNat (rest.take 8)))
    else none
  | _ => none

theorem descriptorValue_ulong {rest : Bytes} (h : 8 ≤ rest.length) :
    descriptorValue (0x0 :: TypeCode.ulong :: rest) = some (UInt64.ofNat (beNat (rest.take 8))) := by
  have h0 : TypeCode.ulong ≠ ulong0 := by decide
  have h8 : TypeCode.ulong ≠ smallUlong := by decide
  simp [descriptorValue, h0, h8, h]

/-- The low byte is the whole descriptor exactly for the descriptors of eight bits. -/
theorem eq_lowByte_iff (n : UInt64) : n = n.toUInt8.toUInt64 ↔ n < 256 := by
  rw [← UInt64.toNat_inj, UInt8.toNat_toUInt64, UInt64.toNat_toUInt8, UInt64.lt_iff_toNat_lt]
  simp only [UInt64.reduceToNat]
  omega

/-- A descriptor that is taken for the type `c`. -/
def TakenFor (bs : Bytes) (c : UInt8) : Prop := ∃ n, descriptorValue bs = some n ∧ n.toUInt8 = c

theorem TakenFor.matched (h : TakenFor bs c) : ∃ n, descriptorValue bs = some n ∧ (n = c.toUInt64 ↔ n < 256) := by
  obtain ⟨n, hn, rfl⟩ := h
  exact ⟨n, hn, eq_lowByte_iff n⟩

theorem descriptorByte_value (h : descriptorByte bs = some (c, k)) : TakenFor bs c := by
  match bs with
  | [] => cases h
  | [_] => cases h
  | [_, _] => cases h
  | b :: t :: x :: rest =>
    simp only [descriptorByte] at h
    split_ifs at h with hb h0 h8 h64
    all_goals
      cases h
      obtain rfl : b = 0 := not_not.mp hb
    · subst h0
      exact ⟨0, rfl, rfl⟩
    · subst h8
      exact ⟨c.toUInt64, rfl, by simp⟩
    · obtain ⟨rfl, hlen⟩ := h64
      exact ⟨_, descriptorValue_ulong (Nat.succ_le_succ hlen), by simp⟩

theorem peekMessageType_ok {buf : Bytes} (h : (peekMessageType buf).run r = .ok (c, k) r') : TakenFor buf c := by
  rcases run_peekMessageType r buf with ⟨p, hp, hrun⟩ | ⟨-, msg, hrun⟩
  · rw [hrun] at h
    cases h
    exact descriptorByte_value hp
  · rw [hrun] at h
    cases h

/-! ## Peeking and reading -/

theorem readUint_ok {n : Nat} (h : (readUint k).run r = .ok n r') :
    k ≤ r.unread.length ∧ n = beNat (r.unread.take k) := by
  by_cases hfits : r.i + k ≤ r.b.length
  · have hwf : r.WF := Nat.le_trans (Nat.le_add_right ..) hfits
    have hle : k ≤ r.unread.length := by
      rw [length_unread]
      omega
    have hreads : Reads (readUint (r.unread.take k).length) (r.unread.take k) (r.unread.drop k) _ :=
      reads_readUint (r.unread.take k)
    rw [length_take_of_le hle] at hreads
    have hok := (hreads r hwf (take_append_drop ..).symm).symm.trans h
    injection hok with hn _
    exact ⟨hle, hn.symm⟩
  · have hcheck : r.readCheck k = true := by
      rw [Buffer.readCheck, decide_eq_true_eq]
      omega
    simp only [readUint, EStateM.run_bind, EStateM.run_get, hcheck] at h
    cases h

theorem readUlong_ok (h : readUlong.run r = .ok n r') : descriptorValue (0 :: r.unread) = some n := by
  obtain ⟨t, r₁, htype, hrest⟩ := bind_ok h
  obtain ⟨hhead, rfl⟩ := readByte_ok htype
  obtain ⟨rest, hunread⟩ : ∃ rest, r.unread = t :: rest := head?_eq_some_iff.mp hhead
  have hafter : (r.advance 1).unread = rest := by rw [unread_advance, hunread, drop_one, tail_cons]
  rw [hunread]
  split_ifs at hrest with h0 h8 h64
  · subst h0
    cases hrest
    rfl
  · subst h8
    obtain ⟨x, r₂, hbyte, hpure⟩ := bind_ok hrest
    obtain ⟨hx, -⟩ := readByte_ok hbyte
    cases hpure
    rw [hafter] at hx
    obtain ⟨tail, rfl⟩ := head?_eq_some_iff.mp hx
    rfl
  · subst h64
    rw [readUint64, run_map] at hrest
    split at hrest
    · next k r₂ hrun =>
      cases hrest
      obtain ⟨hle, rfl⟩ := readUint_ok hrun
      rw [hafter] at hle ⊢
      exact descriptorValue_ulong hle
    · cases hrest
  · cases hrest

/-- Where `PeekMessageType` finds a descriptor, the reads find it too, and they end where it says. -/
theorem descriptorByte_reads (hwf : r.WF) (h : descriptorByte r.unread = some (c, k)) :
    ∃ v, readByte.run r = .ok 0 (r.advance 1) ∧ readUlong.run (r.advance 1) = .ok v (r.advance k) ∧
      v.toUInt8 = c := by
  obtain ⟨hhead, -, -⟩ := descriptorByte_head h
  obtain ⟨bs, hbs⟩ : ∃ bs, r.unread = 0 :: bs := head?_eq_some_iff.mp hhead
  have hzero : readByte.run r = .ok 0 (r.advance 1) := reads_readByte 0 r hwf hbs
  have hwf₁ : (r.advance 1).WF := hwf.advance (by simp [hbs])
  have hunread : (r.advance 1).unread = bs := by rw [unread_advance, hbs, drop_one, tail_cons]
  rw [hbs] at h
  match bs with
  | [] => cases h
  | [_] => cases h
  | t :: x :: rest =>
    simp only [descriptorByte] at h
    split_ifs at h with hb h0 h8 h64
    all_goals cases h
    · subst h0
      exact ⟨0, hzero, reads_ulong0 _ hwf₁ hunread, rfl⟩
    · subst h8
      exact ⟨c.toUInt64, hzero, reads_smallUlong c _ hwf₁ hunread, by simp⟩
    · obtain ⟨rfl, hlen⟩ := h64
      have height : ((x :: rest).take 8).length = 8 := length_take_of_le (Nat.succ_le_succ hlen)
      have hreads := (@reads_readUint ((x :: rest).drop 8) ((x :: rest).take 8)).map UInt64.ofNat
      rw [height] at hreads
      have hrun := (.bind_cons (reads_readByte TypeCode.ulong) hreads : Reads readUlong _ _ _)
        _ hwf₁ (by rw [cons_append, take_append_drop]; exact hunread)
      rw [length_cons, height] at hrun
      exact ⟨_, hzero, hrun, by simp⟩

/-- Three bytes are enough for `PeekMessageType` to find what the reads find. -/
theorem descriptorByte_isSome (h : descriptorValue bs = some n) (hlen : 3 ≤ bs.length) :
    descriptorByte bs ≠ none := by
  match bs with
  | [] => cases h
  | [_] => cases h
  | [_, _] => simp at hlen
  | b :: t :: x :: rest =>
    simp only [descriptorValue] at h
    split_ifs at h with hb h0 h8 h64
    all_goals rw [descriptorByte, if_neg hb]
    · rw [if_pos h0]
      exact Option.some_ne_none _
    · rw [if_neg h0, if_pos h8]
      exact Option.some_ne_none _
    · rw [if_neg h0, if_neg h8, if_pos ⟨h64.1, Nat.le_of_succ_le_succ h64.2⟩]
      exact Option.some_ne_none _

/-- **Peeking at a descriptor is reading it.** In front of three bytes or more, `PeekMessageType` returns
    `(c, n)` if and only if a zero byte and then an unsigned long can be read, the low byte of the long is
    `c` and the two take `n` bytes. `Skip(n)` then ends where the reads end, inside the buffer. -/
theorem peekMessageType_iff_reads (r : Buffer) (hwf : r.WF) (hlen : 3 ≤ r.unread.length) :
    (∀ (c : UInt8) (n : Nat), (peekMessageType r.unread).run r = .ok (c, n) r ↔
      ∃ (v : UInt64) (r₁ r₂ : Buffer), readByte.run r = .ok 0 r₁ ∧ readUlong.run r₁ = .ok v r₂ ∧
        c.toNat = v.toNat % 256 ∧ n = r₂.i - r.i) ∧
    ∀ (c : UInt8) (n : Nat) (v : UInt64) (r₁ r₂ : Buffer),
      (peekMessageType r.unread).run r = .ok (c, n) r → readByte.run r = .ok 0 r₁ →
      readUlong.run r₁ = .ok v r₂ → (skip n).run r = .ok () r₂ ∧ r₂.WF := by
  rcases run_peekMessageType r r.unread with ⟨⟨c, k⟩, hpeek, hrun⟩ | ⟨hnone, msg, hrun⟩
  · obtain ⟨v, hzero, hulong, rfl⟩ := descriptorByte_reads hwf hpeek
    have hreads {v' : UInt64} {r₁ r₂ : Buffer} (h₁ : readByte.run r = .ok 0 r₁)
        (h₂ : readUlong.run r₁ = .ok v' r₂) : v' = v ∧ r₂ = r.advance k := by
      cases hzero.symm.trans h₁
      cases hulong.symm.trans h₂
      exact ⟨rfl, rfl⟩
    refine ⟨fun c n => ⟨fun h => ?_, ?_⟩, fun c n v' r₁ r₂ h h₁ h₂ => ?_⟩
    · cases hrun.symm.trans h
      exact ⟨v, _, _, hzero, hulong, by simp, by simp [advance]⟩
    · rintro ⟨v', r₁, r₂, h₁, h₂, hc, rfl⟩
      obtain ⟨rfl, rfl⟩ := hreads h₁ h₂
      rw [hrun]
      congr 2
      · apply UInt8.toNat_inj.mp
        simp [hc]
      · simp [advance]
    · cases hrun.symm.trans h
      obtain ⟨-, rfl⟩ := hreads h₁ h₂
      exact ⟨rfl, hwf.advance (descriptorByte_head hpeek).2.2⟩
  · have hno {c : UInt8} {n : Nat} : (peekMessageType r.unread).run r ≠ .ok (c, n) r := by simp [hrun]
    refine ⟨fun c n => ⟨fun h => absurd h hno, ?_⟩, fun c n v r₁ r₂ h => absurd h hno⟩
    rintro ⟨v, r₁, r₂, h₁, h₂, -⟩
    obtain ⟨hhead, rfl⟩ := readByte_ok h₁
    obtain ⟨bs, hbs⟩ : ∃ bs, r.unread = 0 :: bs := head?_eq_some_iff.mp hhead
    have hvalue := readUlong_ok h₂
    rw [unread_advance, hbs, drop_one, tail_cons, ← hbs] at hvalue
    exact absurd hnone (descriptorByte_isSome hvalue hlen)

theorem peekMessageType_iff_reads_header :
    (skip 3).run (.new [0x0, 0x53, 0x70, 0xc0]) = .ok () ⟨[0x0, 0x53, 0x70, 0xc0], 3⟩ ∧
      Buffer.WF ⟨[0x0, 0x53, 0x70, 0xc0], 3⟩ :=
  (peekMessageType_iff_reads (.new [0x0, 0x53, 0x70, 0xc0]) (Nat.zero_le _) (by decide)).2
    0x70 3 0x70 _ _ rfl rfl rfl

/-! ## Composites -/

theorem readCompositeHeader_ok {count : Nat} (h : readCompositeHeader.run r = .ok (c, count) r') :
    TakenFor r.unread c := by
  obtain ⟨t, r₁, htype, hrest⟩ := bind_ok h
  obtain ⟨hhead, rfl⟩ := readByte_ok htype
  obtain ⟨rest, hunread⟩ : ∃ rest, r.unread = t :: rest := head?_eq_some_iff.mp hhead
  have hafter : (r.advance 1).unread = rest := by rw [unread_advance, hunread, drop_one, tail_cons]
  split_ifs at hrest with h0
  · cases hrest
  · obtain ⟨v, r₂, hulong, hrest⟩ := bind_ok hrest
    obtain ⟨fields, r₃, -, hpure⟩ := bind_ok hrest
    cases hpure
    have hvalue := readUlong_ok hulong
    rw [hafter, ← not_not.mp h0, ← hunread] at hvalue
    exact ⟨v, hvalue, rfl⟩

theorem onBuffer_ok {σ α : Type} {m : BufM α} {s s' : σ × Buffer} {a : α}
    (h : (onBuffer m : IntoM σ α).run s = .ok a s') : m.run s.2 = .ok a s'.2 ∧ s'.1 = s.1 := by
  cases hrun : m.run s.2 with
  | ok x r =>
    rw [run_onBuffer hrun] at h
    cases h
    exact ⟨rfl, rfl⟩
  | error e r =>
    rw [run_onBuffer_error hrun] at h
    cases h

/-- A record is decoded from a composite of its type, up to the narrowing. -/
theorem unmarshalComposite_ok {σ : Type} {type_ : UInt8} {fields : List (UnmarshalField σ)} {s s' : σ × Buffer}
    (h : (unmarshalComposite type_ fields).run s = .ok () s') : TakenFor s.2.unread type_ := by
  obtain ⟨⟨c, count⟩, s₁, hheader, hrest⟩ := bind_ok h
  obtain ⟨hrun, -⟩ := onBuffer_ok hheader
  dsimp only at hrest
  split_ifs at hrest with hc
  · cases hrest
  · cases hrest
  · rw [← not_not.mp hc]
    exact readCompositeHeader_ok hrun

/-! ## Delivery states -/

theorem unmarshalState_ok {code : UInt8} {state : DeliveryState Value}
    (h : (unmarshalState read code).run r = .ok state r') : state.code = code := by
  unfold unmarshalState at h
  split_ifs at h with h1 h2 h3 h4 h5
  · obtain ⟨x, r₁, -, hpure⟩ := bind_ok h
    cases hpure
    exact h1.symm
  · obtain ⟨x, r₁, -, hpure⟩ := bind_ok h
    cases hpure
    exact h2.symm
  · obtain ⟨x, r₁, -, hpure⟩ := bind_ok h
    cases hpure
    exact h3.symm
  · obtain ⟨x, r₁, -, hpure⟩ := bind_ok h
    cases hpure
    exact h4.symm
  · obtain ⟨x, r₁, -, hpure⟩ := bind_ok h
    cases hpure
    exact h5.symm
  · cases h

theorem unmarshalDeliveryState_ok {state : DeliveryState Value}
    (h : (unmarshalDeliveryState read).run r = .ok state r') : TakenFor r.unread state.code := by
  obtain ⟨buf, r₁, hbytes, hrest⟩ := bind_ok h
  obtain ⟨⟨c, k⟩, r₂, hpeek, hstate⟩ := bind_ok hrest
  obtain ⟨rfl, rfl⟩ := bytes_ok hbytes
  rw [unmarshalState_ok hstate]
  exact peekMessageType_ok hpeek

/-! ## Sections -/

/-- The loop of `Message.Unmarshal` gets to a section that starts with `bs` and treats it as one of the
    type `c`. -/
inductive Treats : Sections × Buffer → UInt8 → Bytes → Prop where
  | here {s : Sections × Buffer} {c : UInt8} {headerLength : Nat} :
      (peekMessageType s.2.unread).run s.2 = .ok (c, headerLength) s.2 → Treats s c s.2.unread
  | later {s s' : Sections × Buffer} {c : UInt8} {bs : Bytes} :
      sectionRound.run s = .ok () s' → Treats s' c bs → Treats s c bs

theorem Treats.takenFor {s : Sections × Buffer} (h : Treats s c bs) : TakenFor bs c := by
  induction h with
  | here hpeek => exact peekMessageType_ok hpeek
  | later _ _ ih => exact ih

/-! ## Values -/

/-- A descriptor above 255 is encoded in full. -/
theorem descriptorValue_large (h : descriptorValue bs = some n) (hlarge : 255 < n.toNat) :
    ∃ rest, bs = 0x0 :: TypeCode.ulong :: rest ∧ 8 ≤ rest.length ∧
      n = UInt64.ofNat (beNat (rest.take 8)) := by
  match bs with
  | [] => cases h
  | [_] => cases h
  | b :: t :: rest =>
    simp only [descriptorValue] at h
    split_ifs at h with hb h0 h8 h64
    all_goals obtain rfl : b = 0 := not_not.mp hb
    · cases h
      exact absurd hlarge (by decide)
    · obtain ⟨c, -, rfl⟩ := Option.map_eq_some_iff.mp h
      rw [UInt8.toNat_toUInt64] at hlarge
      exact absurd c.toNat_lt (by omega)
    · obtain ⟨rfl, hlen⟩ := h64
      exact ⟨rest, rfl, hlen, (Option.some.inj h).symm⟩

/-- Above 255, `readComposite` makes a described type of a descriptor. -/
theorem readComposite_described {v : Value} (h : (readComposite read).run r = .ok v r')
    (hn : descriptorValue r.unread = some n) (hlarge : 255 < n.toNat) : ∃ d x, v = .described d x := by
  obtain ⟨rest, hunread, hlen, rfl⟩ := descriptorValue_large hn hlarge
  obtain ⟨buf, r₁, hbytes, hrest⟩ := bind_ok h
  obtain ⟨rfl, rfl⟩ := bytes_ok hbytes
  rw [hunread, if_neg (by simp)] at hrest
  obtain ⟨b0, r₂, hindex, hrest⟩ := bind_ok hrest
  obtain ⟨hb0, rfl⟩ := index_ok hindex
  obtain rfl : 0 = b0 := Option.some.inj hb0
  rw [if_neg (by simp)] at hrest
  have hpeek : peekDescriptor (0x0 :: TypeCode.ulong :: rest) = pure (beNat (rest.take 8)) := by
    show (if (0x0 :: TypeCode.ulong :: rest).length < 10 then _ else bigEndian 8 rest : BufM Nat) = _
    rw [if_neg (by simp; omega), bigEndian_of_le hlen]
  rw [hpeek, pure_bind] at hrest
  have hbig : beNat (rest.take 8) > 255 :=
    Nat.lt_of_lt_of_le hlarge (by rw [UInt64.toNat_ofNat']; exact Nat.mod_le ..)
  rw [if_pos hbig] at hrest
  obtain ⟨dt, r₃, -, hpure⟩ := bind_ok hrest
  cases hpure
  exact ⟨_, _, rfl⟩

/-- **Descriptors are matched up to their low byte.** Whatever the bytes: a section of a message that is
    treated as one of the type `c`, a composite that is decoded as a record of the type `c`, and a delivery
    state that is decoded as the state `c`, have a descriptor which is `c` if and only if it is less than
    256. Only `readComposite` never takes a larger descriptor for a built-in type. -/
theorem descriptors_matched_iff (r : Buffer) :
    (∀ (s : Sections) (c : UInt8) (bs : Bytes), Treats (s, r) c bs →
      ∃ n, descriptorValue bs = some n ∧ (n = c.toUInt64 ↔ n < 256)) ∧
    (∀ (σ : Type) (c : UInt8) (fields : List (UnmarshalField σ)) (s : σ) (s' : σ × Buffer),
      (unmarshalComposite c fields).run (s, r) = .ok () s' →
      ∃ n, descriptorValue r.unread = some n ∧ (n = c.toUInt64 ↔ n < 256)) ∧
    (∀ (state : DeliveryState Value) (r' : Buffer), (unmarshalDeliveryState readAny).run r = .ok state r' →
      ∃ n, descriptorValue r.unread = some n ∧ (n = state.code.toUInt64 ↔ n < 256)) ∧
    (∀ (v : Value) (r' : Buffer) (n : UInt64), (readComposite readAny).run r = .ok v r' →
      descriptorValue r.unread = some n → 255 < n.toNat → ∃ d x, v = .described d x) := by
  refine ⟨?_, ?_, ?_, ?_⟩
  · intro s c bs h
    exact h.takenFor.matched
  · intro σ c fields s s' h
    exact (unmarshalComposite_ok h).matched
  · intro state r' h
    exact (unmarshalDeliveryState_ok h).matched
  · intro v r' n h hn hlarge
    exact readComposite_described h hn hlarge

/-- An amqp-value section, an accepted state, and a value with the descriptor 0x124. -/
theorem descriptors_matched_iff_small :
    let section_ : Bytes := [0x0, 0x53, 0x77, 0x41]
    let state : Bytes := [0x0, 0x53, 0x24, 0x45]
    let value : Bytes := [0x0, 0x80, 0, 0, 0, 0, 0, 0, 1, 0x24, 0x45]
    (Treats (.zero, .new section_) amqpValue section_ ∧
      ∃ n, descriptorValue section_ = some n ∧ (n = amqpValue.toUInt64 ↔ n < 256)) ∧
    (∃ r', (unmarshalDeliveryState readAny).run (.new state) = .ok .accepted r' ∧
      ∃ n, descriptorValue state = some n ∧ (n = stateAccepted.toUInt64 ↔ n < 256)) ∧
    ∃ v r', (readComposite readAny).run (.new value) = .ok v r' ∧ ∃ d x, v = .described d x := by
  refine ⟨⟨.here rfl, ?_⟩, ⟨_, rfl, ?_⟩, _, _, rfl, ?_⟩
  · exact (descriptors_matched_iff (.new [0x0, 0x53, 0x77, 0x41])).1 .zero _ _ (.here rfl)
  · obtain ⟨-, -, hstate, -⟩ := descriptors_matched_iff (.new [0x0, 0x53, 0x24, 0x45])
    exact hstate .accepted _ rfl
  · obtain ⟨-, -, -, hvalue⟩ := descriptors_matched_iff (.new [0x0, 0x80, 0, 0, 0, 0, 0, 0, 1, 0x24, 0x45])
    exact hvalue _ _ 0x124 rfl (by decide +kernel) (by decide +kernel)

/-- The descriptors 0x177 and 0x124 are taken for an amqp-value section and for the accepted state; in a
    value the second is a described type. -/
theorem vendor_descriptor_taken :
    let section_ : Bytes := [0x0, 0x80, 0, 0, 0, 0, 0, 0, 1, 0x77, 0x41]
    let state : Bytes := [0x0, 0x80, 0, 0, 0, 0, 0, 0, 1, 0x24, 0x45]
    (descriptorValue section_ = some 0x177 ∧ Treats (.zero, .new section_) amqpValue section_ ∧
      ∃ r, Message.unmarshal.run (.zero, .new section_)
        = .ok () ({ Message.zero with value := .bool true }, r)) ∧
    (descriptorValue state = some 0x124 ∧ (∃ r, (unmarshalDeliveryState readAny).run (.new state) = .ok .accepted r) ∧
      ∃ r, readAny.run (.new state) = .ok (.described (.uint64 0x124) (.list [])) r) := by
  refine ⟨⟨?_, .here rfl, _, rfl⟩, ?_, ⟨_, rfl⟩, _, rfl⟩
  · decide +kernel
  · decide +kernel

end GoAmqp
