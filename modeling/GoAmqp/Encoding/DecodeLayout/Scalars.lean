import GoAmqp.Lib.Outcome
import GoAmqp.Lib.Simulation
import GoAmqp.Encoding.Layout
import GoAmqp.Encoding.DecodeSpec.Scalars

set_option autoImplicit false

/-! # The decoder follows the layout: scalars and arrays

`Follows R m sc`: on a buffer whose unread bytes are `bs`, the reader `m` does what the scanner `sc`
does on `bs`. It returns exactly when the scanner does, with the scanner's rest as its unread bytes,
and it stops exactly when the scanner stops, with an error value where the bytes are malformed and
with the panic of the run-time where a key cannot be hashed. There is no scanner's stop for an index
or slice out of range, so a reader that follows a scanner never meets one. -/

namespace GoAmqp

open Lib Buffer Layout EStateM
open List hiding take
open TypeCode hiding null

variable {bs buf : Bytes} {n typeSize : Nat} {code t : UInt8} {codes' : List UInt8} {name : String}

/-- The scanner's word for the way a call ends. -/
def Fault.stop : Fault → Option Stop
  | .err _ => some .malformed
  | .unhashable => some .unhashableKey
  | .depth => some .exhausted
  | .outOfRange | .nilDeref => none

/-- The unread bytes of the buffer are `bs`. -/
structure At (r : Buffer) (bs : Bytes) : Prop where
  wf : r.WF
  unread : r.unread = bs

/-- The call and the scanner end in the same way. -/
def Stops (f : Fault) (d : Stop) : Prop := Fault.stop f = some d

/-- On this buffer the reader does what the scanner does. -/
abbrev FollowsAt {α β : Type} (R : α → β → Prop) (m : BufM α) (r : Buffer) (sc : Scanner β)
    (bs : Bytes) : Prop :=
  InStepAt At Stops R m r sc bs

/-- On every buffer the reader does what the scanner does. -/
abbrev Follows {α β : Type} (R : α → β → Prop) (m : BufM α) (sc : Scanner β) : Prop := InStep At Stops R m sc

/-- The results do not matter. -/
abbrev Any {α β : Type} (_ : α) (_ : β) : Prop := True

section Primitives

variable {α β : Type} {R : α → β → Prop} {r : Buffer}

theorem At.new (bs : Bytes) : At (.new bs) bs := ⟨Nat.zero_le _, rfl⟩

theorem At.advance {rest : Bytes} (h : At r (bs ++ rest)) : At (r.advance bs.length) rest := by
  have hlen : bs.length ≤ r.unread.length := by
    rw [h.unread, length_append]
    omega
  refine ⟨h.wf.advance hlen, ?_⟩
  rw [unread_advance, h.unread, drop_left]

/-- A step of the reader that always succeeds on what is there. -/
theorem At.run {m : BufM α} {rest : Bytes} {a : α} (h : At r (bs ++ rest)) (hm : Reads m bs rest a) :
    m.run r = .ok a (r.advance bs.length) :=
  hm r h.wf h.unread

theorem At.run_peek {m : BufM α} {a : α} (h : At r bs) (hm : Reads m [] bs a) : m.run r = .ok a r :=
  hm r h.wf h.unread

theorem At.readCheck (h : At r bs) (n : Nat) : r.readCheck n = decide (bs.length < n) := by
  have hlen := r.length_unread
  have hi : r.i ≤ r.b.length := h.wf
  rw [h.unread] at hlen
  unfold Buffer.readCheck
  congr 1
  simp only [eq_iff_iff]
  omega

theorem follows_fail {msg : String} : Follows R (fail msg) malformed := .throw rfl

theorem follows_len : Follows Eq len remaining := by
  intro r bs h
  unfold InStepAt
  rw [h.run_peek reads_len]
  exact ⟨h, rfl⟩

theorem follows_bytes : Follows Eq bytes get := by
  intro r bs h
  unfold InStepAt
  rw [h.run_peek reads_bytes]
  exact ⟨h, rfl⟩

theorem At.run_readByte_nil (h : At r []) : readByte.run r = .error (.err "EOF") r := by
  have hchk : r.readCheck 1 = true := by rw [h.readCheck]; rfl
  simp only [readByte, run_bind, run_get, hchk]
  rfl

theorem follows_readByte : Follows Eq readByte byte := by
  intro r bs h
  cases bs with
  | nil =>
    unfold InStepAt
    rw [h.run_readByte_nil]
    rfl
  | cons b bs =>
    have hat : At r ([b] ++ bs) := h
    unfold InStepAt
    rw [hat.run (reads_readByte b)]
    exact ⟨hat.advance, rfl⟩

theorem run_take_le (h : n ≤ bs.length) : (take n).run bs = .ok (bs.take n) (bs.drop n) := by
  simp [take, h]

theorem run_take_lt (h : ¬ n ≤ bs.length) : (take n).run bs = .error .malformed bs := by
  simp only [take, run_bind, run_get, if_neg h]
  rfl

theorem At.run_next_le (h : At r bs) (hn : n ≤ bs.length) :
    (next n).run r = .ok (bs.take n, true) (r.advance n) ∧ At (r.advance n) (bs.drop n) := by
  have hat : At r (bs.take n ++ bs.drop n) := by rwa [take_append_drop]
  have hlen : (bs.take n).length = n := length_take_of_le hn
  have hrun := hat.run (reads_next (bs.take n))
  have hadv := hat.advance
  rw [hlen] at hrun hadv
  exact ⟨hrun, hadv⟩

theorem At.run_next_lt (h : At r bs) (hn : ¬ n ≤ bs.length) : ∃ buf r', (next n).run r = .ok (buf, false) r' := by
  have hchk : r.readCheck n = true := by
    rw [h.readCheck, decide_eq_true_eq]
    omega
  have hi : r.i ≤ r.b.length := h.wf
  refine ⟨r.b.drop r.i, { r with i := r.b.length }, ?_⟩
  simp [Buffer.next, hchk, slice, hi]

/-- `next` with its test, against `take`. -/
theorem follows_next {msg : String} {k : Bytes → BufM α} {k' : Bytes → Scanner β}
    (hk : ∀ buf, buf.length = n → Follows R (k buf) (k' buf)) :
    Follows R (do
      let (buf, ok) ← next n
      if !ok then fail msg else k buf) (do
      let buf ← take n
      k' buf) := by
  intro r bs h
  by_cases hn : n ≤ bs.length
  · obtain ⟨hrun, hat⟩ := h.run_next_le hn
    exact .bind_left hrun (.bind_right (run_take_le hn)
      (hk _ (length_take_of_le hn) _ _ hat))
  · obtain ⟨buf, r', hrun⟩ := h.run_next_lt hn
    unfold InStepAt
    rw [run_bind, run_bind, hrun, run_take_lt hn]
    rfl

theorem follows_readUint (k : Nat) : Follows (fun n buf => n = beNat buf) (readUint k) (take k) := by
  intro r bs h
  by_cases hk : k ≤ bs.length
  · have hat : At r (bs.take k ++ bs.drop k) := by rwa [take_append_drop]
    have hlen : (bs.take k).length = k := length_take_of_le hk
    have hrun := hat.run (reads_readUint (bs.take k))
    have hadv := hat.advance
    rw [hlen] at hrun hadv
    unfold InStepAt
    rw [hrun, run_take_le hk]
    exact ⟨hadv, rfl⟩
  · have hchk : r.readCheck k = true := by
      rw [h.readCheck, decide_eq_true_eq]
      omega
    have hrun : (readUint k).run r = .error (.err "EOF") r := by
      simp only [readUint, run_bind, run_get, hchk]
      rfl
    unfold InStepAt
    rw [run_take_lt hk, hrun]
    rfl

theorem follows_tryReadNull : Follows Eq tryReadNull null := by
  intro r bs h
  unfold InStepAt
  cases bs with
  | nil =>
    have hrun : tryReadNull.run r = .ok false r := by
      rw [tryReadNull, run_bind, h.run_peek reads_len]
      rfl
    rw [hrun]
    exact ⟨h, rfl⟩
  | cons t bs =>
    by_cases ht : t = TypeCode.null
    · subst ht
      have hat : At r ([TypeCode.null] ++ bs) := h
      rw [hat.run reads_tryReadNull]
      exact ⟨hat.advance, rfl⟩
    · rw [h.run_peek (reads_tryReadNull_other ht)]
      have hrun : null.run (t :: bs) = .ok false (t :: bs) := by simp [null, ht]
      rw [hrun]
      exact ⟨h, rfl⟩

end Primitives

/-! ## Scalars -/

variable {codes : List UInt8}

section Scalars

variable {α β : Type}

/-- A reader that looks at the type code: for each code of the list it follows the scanner for the code,
    for all others it fails. -/
structure Dispatches (R : α → β → Prop) (f : UInt8 → BufM α) (sc : UInt8 → Scanner β)
    (codes : List UInt8) : Prop where
  listed : ∀ t ∈ codes, Follows R (f t) (sc t)
  others : ∀ t, t ∉ codes → ∃ msg, f t = fail msg

namespace Dispatches

variable {R : α → β → Prop} {f : UInt8 → BufM α} {sc : UInt8 → Scanner β} {codes : List UInt8} {m : BufM α}

theorem none (msg : UInt8 → String) : Dispatches R (fun t => fail (msg t)) sc [] :=
  ⟨fun _ ht => absurd ht not_mem_nil, fun t _ => ⟨msg t, rfl⟩⟩

/-- One more test, for the codes of another list. -/
theorem test {c : UInt8 → Prop} [DecidablePred c] (these : List UInt8) (hc : ∀ t, c t ↔ t ∈ these)
    (hm : ∀ t ∈ these, Follows R m (sc t)) (h : Dispatches R f sc codes) :
    Dispatches R (fun t => if c t then m else f t) sc (these ++ codes) := by
  refine ⟨fun t ht => ?_, fun t ht => ?_⟩
  · split
    · next hthis => exact hm t ((hc t).mp hthis)
    · next hthis => exact h.listed t ((mem_append.mp ht).resolve_left (mt (hc t).mpr hthis))
  · obtain ⟨hthese, hcodes⟩ := not_or.mp (mt mem_append.mpr ht)
    obtain ⟨msg, hmsg⟩ := h.others t hcodes
    exact ⟨msg, (if_neg (mt (hc t).mp hthese)).trans hmsg⟩

theorem cons (hm : Follows R m (sc code)) (h : Dispatches R f sc codes) :
    Dispatches R (fun t => if t = code then m else f t) sc (code :: codes) := by
  refine h.test [code] (fun _ => mem_singleton.symm) fun t ht => ?_
  rwa [mem_singleton.mp ht]

/-- A reader for a single code. -/
theorem only (msg : UInt8 → String) (hm : Follows R m (sc code)) :
    Dispatches R (fun t => if t ≠ code then fail (msg t) else m) sc [code] := by
  have h := cons hm (none msg)
  simpa only [ne_eq, ite_not] using h

theorem congr (h : Dispatches R f sc codes) (hmem : ∀ t, t ∈ codes' ↔ t ∈ codes) : Dispatches R f sc codes' :=
  ⟨fun t ht => h.listed t ((hmem t).mp ht), fun t ht => h.others t (mt (hmem t).mpr ht)⟩

/-- The scanner makes the same test. -/
theorem follows (h : Dispatches R f sc codes) (t : UInt8) :
    Follows R (f t) (if t ∈ codes then sc t else malformed) := by
  by_cases ht : t ∈ codes
  · rw [if_pos ht]
    exact h.listed t ht
  · obtain ⟨msg, hmsg⟩ := h.others t ht
    rw [if_neg ht, hmsg]
    exact follows_fail

end Dispatches

theorem follows_scalar {R : α → Bytes → Prop} {f : UInt8 → BufM α} (h : Dispatches R f payload codes)
    : Follows R (readType >>= f) (scalar codes) := by
  refine .bind_eq follows_readByte fun t => ?_
  exact h.follows t

/-- Which types are allowed besides the one that is there does not matter. -/
theorem run_scalar_congr (hmem : t ∈ codes) (hmem' : t ∈ codes') :
    (scalar codes).run (t :: bs) = (scalar codes').run (t :: bs) := by
  show (if t ∈ codes then payload t else malformed).run bs
    = (if t ∈ codes' then payload t else malformed).run bs
  rw [if_pos hmem, if_pos hmem']

theorem FollowsAt.scalar_congr {R : α → Bytes → Prop} {m : BufM α} {r : Buffer}
    (h : FollowsAt R m r (scalar codes) (t :: bs)) (hmem : t ∈ codes) (hmem' : t ∈ codes') :
    FollowsAt R m r (scalar codes') (t :: bs) := by
  unfold FollowsAt InStepAt at *
  rwa [← run_scalar_congr hmem hmem']

/-- Nothing to read: the type code is the value. -/
theorem follows_take_zero (a : α) : Follows Any (pure a : BufM α) (take 0) := by
  intro r bs h
  unfold InStepAt
  rw [run_take_le (Nat.zero_le _)]
  exact ⟨h, trivial⟩

theorem follows_take_one : Follows (fun b buf => buf = [b]) readByte (take 1) := by
  intro r bs h
  unfold InStepAt
  cases bs with
  | nil =>
    rw [h.run_readByte_nil]
    rfl
  | cons b bs =>
    have hat : At r ([b] ++ bs) := h
    rw [hat.run (reads_readByte b)]
    exact ⟨hat.advance, rfl⟩

theorem follows_readUint16 : Follows (fun n buf => n = UInt16.ofNat (beNat buf)) readUint16 (take 2) :=
  (follows_readUint 2).map_left fun _ _ h => congrArg UInt16.ofNat h

theorem follows_readUint32 : Follows (fun n buf => n = UInt32.ofNat (beNat buf)) readUint32 (take 4) :=
  (follows_readUint 4).map_left fun _ _ h => congrArg UInt32.ofNat h

theorem follows_readUint64 : Follows (fun n buf => n = UInt64.ofNat (beNat buf)) readUint64 (take 8) :=
  (follows_readUint 8).map_left fun _ _ h => congrArg UInt64.ofNat h

/-- What the reader makes of the payload does not matter. -/
theorem Follows.then_pure {R : α → β → Prop} {m : BufM α} {sc : Scanner β} {γ : Type}
    (h : Follows R m sc) (f : α → γ) : Follows Any (do let a ← m; pure (f a)) sc := by
  rw [← map_eq_pure_bind]
  exact h.map_left fun _ _ _ => trivial

theorem follows_readFixed {R : α → Bytes → Prop} {read : BufM α} (h : Follows R read (payload code)) :
    Follows R (readFixed code name read) (scalar [code]) :=
  follows_scalar (.only _ h)

theorem follows_readUbyte : Follows Any readUbyte (scalar [TypeCode.ubyte]) :=
  follows_readFixed (follows_take_one.mono fun _ _ _ => trivial)

theorem follows_readSbyte : Follows Any readSbyte (scalar [TypeCode.byte]) :=
  follows_readFixed (follows_take_one.map_left fun _ _ _ => trivial)

theorem follows_readUshort : Follows Any readUshort (scalar [TypeCode.ushort]) :=
  follows_readFixed (follows_readUint16.mono fun _ _ _ => trivial)

theorem follows_readShort : Follows Any readShort (scalar [short]) :=
  follows_readFixed (follows_readUint16.map_left fun _ _ _ => trivial)

theorem follows_readFloat : Follows Any readFloat (scalar [float]) :=
  follows_readFixed (follows_readUint32.mono fun _ _ _ => trivial)

theorem follows_readDouble : Follows Any readDouble (scalar [double]) :=
  follows_readFixed (follows_readUint64.mono fun _ _ _ => trivial)

theorem follows_readBool : Follows Any readBool (scalar boolCodes) :=
  follows_scalar <| .cons (follows_take_one.then_pure _) <| .cons (follows_take_zero true) <|
    .cons (follows_take_zero false) <| .none _

theorem follows_readUint32Value : Follows Any readUint32Value (scalar uintCodes) :=
  follows_scalar <| .cons (follows_take_zero 0) <| .cons (follows_take_one.then_pure _) <|
    .cons (follows_readUint32.mono fun _ _ _ => trivial) <| .none _

/-- The descriptors of composites are read with their values. -/
theorem follows_readUlong : Follows (fun n buf => n = UInt64.ofNat (beNat buf)) readUlong (scalar ulongCodes) := by
  have hbyte : Follows (fun n buf => n = UInt64.ofNat (beNat buf))
      (UInt8.toUInt64 <$> readByte) (take 1) := by
    refine follows_take_one.map_left ?_
    rintro b _ rfl
    apply UInt64.toNat_inj.mp
    have hb := b.toNat_lt
    simp [beNat]
  rw [map_eq_pure_bind] at hbyte
  exact follows_scalar <| .cons (fun r bs h => ⟨h, rfl⟩) <| .cons hbyte <| .cons follows_readUint64 <| .none _

theorem follows_readInt32 : Follows Any readInt32 (scalar intCodes) :=
  follows_scalar <| .cons (follows_take_one.then_pure _) <| .cons (follows_readUint32.then_pure _) <| .none _

theorem follows_readLong : Follows Any readLong (scalar longCodes) :=
  follows_scalar <| .cons (follows_take_one.then_pure _) <| .cons (follows_readUint64.then_pure _) <| .none _

theorem follows_readTimestamp : Follows Any readTimestamp (scalar [timestamp]) :=
  follows_scalar <| .only _ <| follows_readUint64.then_pure _

theorem follows_readUintValue : Follows Any readUintValue (scalar unsignedCodes) := by
  refine follows_scalar <| Dispatches.congr (.test [uint0, ulong0] (by simp) ?_ <|
    .test [TypeCode.ubyte, smallUint, smallUlong] (by simp) ?_ <|
    .cons (follows_readUint16.then_pure _) <| .cons (follows_readUint32.then_pure _) <|
    .cons (follows_readUint64.mono fun _ _ _ => trivial) <| .none _) ?_
  · rintro t (_ | ⟨_, _ | ⟨_, ⟨⟩⟩⟩) <;> exact follows_take_zero 0
  · rintro t (_ | ⟨_, _ | ⟨_, _ | ⟨_, ⟨⟩⟩⟩⟩) <;> exact follows_take_one.then_pure _
  · intro t
    simp only [unsignedCodes, uintCodes, ulongCodes, mem_cons, mem_append, not_mem_nil, or_false]
    tauto

theorem UUID.ofBytes_of_le (h : 16 ≤ buf.length) : ∃ u : UUID, UUID.ofBytes buf = pure u := by
  have hlen : (buf.take 16).length = 16 := length_take_of_le h
  exact ⟨⟨buf.take 16, hlen⟩, dif_pos hlen⟩

theorem follows_readUUID : Follows Any readUUID (scalar [uuid]) := by
  refine follows_scalar (.only _ ?_)
  rw [← bind_pure (payload uuid)]
  refine follows_next fun buf hbuf => ?_
  obtain ⟨u, hu⟩ := UUID.ofBytes_of_le (Nat.le_of_eq hbuf.symm)
  rw [hu]
  exact .pure trivial

/-- The shared part of strings and byte slices, once the length is known. -/
theorem follows_text (n : Nat) (msg : String) :
    Follows Eq (do
      let (buf, ok) ← next n
      if !ok then fail msg else pure buf) (take n) := by
  rw [← bind_pure (take n)]
  exact follows_next fun buf _ => .pure rfl

theorem bigEndian_of_le {k : Nat} (h : k ≤ buf.length) : bigEndian k buf = pure (beNat (buf.take k)) := by
  have happend : bigEndian k (buf.take k ++ buf.drop k) = pure (beNat (buf.take k)) :=
    bigEndian_append (length_take_of_le h)
  rwa [take_append_drop] at happend

theorem bigEndian_of_length {k : Nat} (h : buf.length = k) : bigEndian k buf = pure (beNat buf) := by
  rw [bigEndian_of_le (Nat.le_of_eq h.symm), take_of_length_le (Nat.le_of_eq h)]

/-- The length of a string or a byte slice. -/
theorem follows_readLength {is8 is32 : UInt8 → Bool} {kind : String}
    (h : is8 t = true ∧ t.toNat / 16 = 10 ∨ is8 t = false ∧ is32 t = true ∧ t.toNat / 16 = 11) :
    Follows Eq (readLength is8 is32 kind t) (number (lengthWidth t)) := by
  unfold readLength number
  rcases h with ⟨h8, hcode⟩ | ⟨h8, h32, hcode⟩
  · have hwidth : lengthWidth t = 1 := if_pos hcode
    rw [if_pos h8, hwidth, map_eq_pure_bind, map_eq_pure_bind]
    refine .bind follows_take_one ?_
    rintro b _ rfl
    exact .pure (by simp [beNat])
  · have hwidth : lengthWidth t = 4 := if_neg (by omega)
    rw [if_neg (by simp [h8]), if_pos h32, hwidth, map_eq_pure_bind]
    refine follows_next fun buf hbuf => ?_
    rw [bigEndian_of_length hbuf]
    exact .pure rfl

theorem follows_readVariable {is8 is32 : UInt8 → Bool} {kind : String}
    (hin : ∀ t ∈ codes, fixedWidth t = none ∧ (is8 t = true ∧ t.toNat / 16 = 10 ∨ is8 t = false ∧ is32 t = true ∧ t.toNat / 16 = 11))
    (hout : ∀ t, t ∉ codes → is8 t = false ∧ is32 t = false) :
    Follows Eq (readVariable is8 is32 kind) (scalar codes) := by
  refine .bind_eq follows_readByte fun t => ?_
  by_cases ht : t ∈ codes
  · obtain ⟨hfixed, hcode⟩ := hin t ht
    rw [if_pos ht]
    simp only [payload, hfixed]
    refine .bind_eq (follows_readLength hcode) fun n => ?_
    exact follows_text n _
  · obtain ⟨h8, h32⟩ := hout t ht
    rw [if_neg ht, readLength, if_neg (by simp [h8]), if_neg (by simp [h32])]
    exact fun _ _ _ => rfl

theorem follows_readString : Follows Eq readString (scalar textCodes) := by
  refine follows_readVariable ?_ ?_
  · intro t ht
    simp only [textCodes, stringCodes, symbolCodes, cons_append, nil_append, mem_cons, not_mem_nil, or_false] at ht
    rcases ht with rfl | rfl | rfl | rfl
    · exact ⟨rfl, .inl ⟨rfl, rfl⟩⟩
    · exact ⟨rfl, .inr ⟨rfl, rfl, rfl⟩⟩
    · exact ⟨rfl, .inl ⟨rfl, rfl⟩⟩
    · exact ⟨rfl, .inr ⟨rfl, rfl, rfl⟩⟩
  · intro t ht
    simp only [textCodes, stringCodes, symbolCodes, cons_append, nil_append, mem_cons,
      not_mem_nil, or_false, not_or] at ht
    obtain ⟨hstr8, hstr32, hsym8, hsym32⟩ := ht
    simp only [Bool.or_eq_false_iff, beq_eq_false_iff_ne]
    exact ⟨⟨hstr8, hsym8⟩, hstr32, hsym32⟩

theorem follows_readBinary : Follows Eq readBinary (scalar binaryCodes) := by
  refine follows_readVariable ?_ ?_
  · intro t ht
    simp only [binaryCodes, mem_cons, not_mem_nil, or_false] at ht
    rcases ht with rfl | rfl
    · exact ⟨rfl, .inl ⟨rfl, rfl⟩⟩
    · exact ⟨rfl, .inr ⟨rfl, rfl, rfl⟩⟩
  · intro t ht
    simp only [binaryCodes, mem_cons, not_mem_nil, or_false, not_or] at ht
    simp only [beq_eq_false_iff_ne]
    exact ht

end Scalars

/-! ## Compound headers -/

section Headers

theorem follows_readSizes8 (left : Nat) : Follows Eq (readSizes8 left) (sizes 1 left) := by
  refine follows_next (n := 2) (k := fun buf => do
    let count ← index buf 1
    let size ← index buf 0
    if size.toNat > left - 1 then fail "invalid length" else pure count.toNat) fun buf hbuf => ?_
  obtain ⟨size, count, rfl⟩ : ∃ size count, buf = [size, count] := by
    match buf, hbuf with
    | [size, count], _ => exact ⟨size, count, rfl⟩
  have hcount : (index [size, count] 1 : BufM UInt8) = pure count := rfl
  have hsize : (index [size, count] 0 : BufM UInt8) = pure size := rfl
  rw [hcount, pure_bind, hsize, pure_bind]
  refine .ite (by simp [beNat]) (fun _ => follows_fail) fun _ => .pure ?_
  simp [beNat]

theorem follows_readSizes32 (left : Nat) (tooLong : String) :
    Follows Eq (readSizes32 left tooLong) (sizes 4 left) := by
  refine follows_next (n := 8) (k := fun buf => do
    let size ← bigEndian 4 (buf.take 4)
    let count ← bigEndian 4 (buf.drop 4)
    if size > left - 4 then fail tooLong else pure count) fun buf hbuf => ?_
  have htake : (buf.take 4).length = 4 := by rw [length_take, hbuf]; rfl
  have hdrop : (buf.drop 4).length = 4 := by rw [length_drop, hbuf]
  rw [bigEndian_of_length htake, pure_bind, bigEndian_of_length hdrop, pure_bind]
  exact .ite Iff.rfl (fun _ => follows_fail) fun _ => .pure rfl

theorem follows_readListHeader : Follows Eq readListHeader listCount := by
  refine .bind_eq follows_readByte fun t => ?_
  refine .bind_eq follows_len fun left => ?_
  refine .ite Iff.rfl (fun _ => .pure rfl) fun _ => ?_
  refine .ite Iff.rfl (fun _ => follows_readSizes8 left) fun _ => ?_
  exact .ite Iff.rfl (fun _ => follows_readSizes32 left _) fun _ => follows_fail

theorem follows_readArrayHeader : Follows Eq readArrayHeader arrayCount := by
  refine .bind_eq follows_readByte fun t => ?_
  refine .bind_eq follows_len fun left => ?_
  refine .ite Iff.rfl (fun _ => follows_readSizes8 left) fun _ => ?_
  exact .ite Iff.rfl (fun _ => follows_readSizes32 left _) fun _ => follows_fail

theorem follows_readMapHeader : Follows (fun n m => n = UInt32.ofNat m) readMapHeader mapCount := by
  refine .bind_eq follows_readByte fun t => ?_
  refine .bind_eq follows_len fun left => ?_
  have hsizes : Follows Eq (readMapSizes t left) (mapSizes t left) := by
    refine .ite Iff.rfl (fun _ => follows_readSizes8 left) fun _ => ?_
    exact .ite Iff.rfl (fun _ => follows_readSizes32 left _) fun _ => follows_fail
  refine .bind_eq hsizes fun n => ?_
  refine .bind_eq follows_len fun left' => ?_
  exact .ite Iff.rfl (fun _ => follows_fail) fun _ => .pure rfl

end Headers

/-! ## Arrays -/

section Arrays

variable {α : Type}

/-- A fixed-width element can be taken out of any slice that is long enough. -/
def Total (typeSize : Nat) (element : Bytes → BufM α) : Prop :=
  ∀ buf : Bytes, typeSize ≤ buf.length → ∃ x, element buf = pure x

variable {element : Bytes → BufM α}

theorem Total.elements (h : Total typeSize element) (n : Nat) (buf : Bytes) (hbuf : buf.length = n * typeSize)
    : ∃ xs, elements typeSize element n buf = pure xs := by
  induction n generalizing buf with
  | zero => exact ⟨[], rfl⟩
  | succ n ih =>
    have hle : typeSize ≤ buf.length := by
      rw [hbuf, Nat.succ_mul]
      exact Nat.le_add_left ..
    have hdrop : (buf.drop typeSize).length = n * typeSize := by
      rw [length_drop, hbuf, Nat.succ_mul, Nat.add_sub_cancel]
    obtain ⟨x, hx⟩ := h buf hle
    obtain ⟨xs, hxs⟩ := ih (buf.drop typeSize) hdrop
    exact ⟨x :: xs, by rw [GoAmqp.elements, hx, pure_bind, hxs, pure_bind]⟩

theorem total_bigEndian {β : Type} (k : Nat) (f : Nat → β) : Total k fun buf => f <$> bigEndian k buf := by
  intro buf hbuf
  exact ⟨f (beNat (buf.take k)), by simp only [bigEndian_of_le hbuf, map_pure]⟩

theorem Total.map {β : Type} (h : Total typeSize element) (f : α → β) :
    Total typeSize fun buf => f <$> element buf := by
  intro buf hbuf
  obtain ⟨x, hx⟩ := h buf hbuf
  exact ⟨f x, by simp only [hx, map_pure]⟩

theorem total_byteElement (f : UInt8 → α) : Total 1 (byteElement f) := by
  intro buf hbuf
  cases buf with
  | nil => simp at hbuf
  | cons b buf => exact ⟨f b, rfl⟩

theorem total_uint16 : Total 2 uint16Element := total_bigEndian 2 UInt16.ofNat

theorem total_uint32 : Total 4 uint32Element := total_bigEndian 4 UInt32.ofNat

theorem total_uint64 : Total 8 uint64Element := total_bigEndian 8 UInt64.ofNat

theorem follows_readElements {tooLong : String} (hwidth : fixedWidth code = some typeSize)
    (htotal : Total typeSize element) (left n : Nat) :
    Follows Any (readElements typeSize tooLong element n) (Layout.elements code left n) := by
  simp only [Layout.elements, hwidth]
  refine follows_next fun buf hbuf => ?_
  obtain ⟨xs, hxs⟩ := htotal.elements n buf hbuf
  rw [hxs]
  exact .pure trivial

/-- The elements have no bytes. -/
theorem follows_replicate (hwidth : fixedWidth code = some 0) (left n : Nat) (a : α) :
    Follows Any (pure (replicate n a) : BufM (List α)) (Layout.elements code left n) := by
  simp only [Layout.elements, hwidth, Nat.mul_zero]
  intro r bs h
  exact .bind_right (run_take_le (Nat.zero_le _)) ⟨h, trivial⟩

/-- An array whose readers look at the element type after the header. -/
theorem follows_array {f : Nat → UInt8 → BufM α} (h : ∀ left n, Dispatches Any (f n) (Layout.elements · left n) codes) :
    Follows Any (do
      let n ← readArrayHeader
      let t ← readType
      f n t) (array codes) := by
  refine .bind_eq follows_readArrayHeader fun n => ?_
  intro r bs hat
  refine .bind_right (b := bs.length) (u := bs) rfl ?_
  refine (follows_readByte r bs hat).bind ?_
  rintro t _ r' bs' rfl hat'
  exact (h bs.length n).follows t r' bs' hat'

theorem follows_unmarshalArray (hwidth : fixedWidth code = some typeSize) (htotal : Total typeSize element) :
    Follows Any (unmarshalArray code name typeSize element) (array [code]) :=
  follows_array fun left n => .only _ (follows_readElements hwidth htotal left n)

theorem follows_unmarshalArrayUByte : Follows Any unmarshalArrayUByte (array [TypeCode.ubyte]) := by
  refine follows_array fun left n => .only _ ?_
  have hwidth : Layout.elements TypeCode.ubyte left n = (do let _ ← take (n * 1)) := rfl
  rw [hwidth, Nat.mul_one]
  exact follows_next fun buf _ => .pure trivial

theorem follows_unmarshalArrayUint32 : Follows Any unmarshalArrayUint32 (array uintCodes) :=
  follows_array fun left n => .cons (follows_replicate rfl left n 0) <|
    .cons (follows_readElements rfl (total_byteElement _) left n) <|
    .cons (follows_readElements rfl total_uint32 left n) <| .none _

theorem follows_unmarshalArrayInt32 : Follows Any unmarshalArrayInt32 (array intCodes) :=
  follows_array fun left n => .cons (follows_readElements rfl (total_byteElement _) left n) <|
    .cons (follows_readElements rfl (total_uint32.map _) left n) <| .none _

theorem follows_unmarshalArrayUint64 : Follows Any unmarshalArrayUint64 (array ulongCodes) :=
  follows_array fun left n => .cons (follows_replicate rfl left n 0) <|
    .cons (follows_readElements rfl (total_byteElement _) left n) <|
    .cons (follows_readElements rfl total_uint64 left n) <| .none _

theorem follows_unmarshalArrayInt64 : Follows Any unmarshalArrayInt64 (array longCodes) :=
  follows_array fun left n => .cons (follows_readElements rfl (total_byteElement _) left n) <|
    .cons (follows_readElements rfl (total_uint64.map _) left n) <| .none _

theorem follows_unmarshalArrayBool : Follows Any unmarshalArrayBool (array boolCodes) :=
  follows_array fun left n => .cons (follows_readElements rfl (total_byteElement _) left n) <|
    .cons (follows_replicate rfl left n true) <| .cons (follows_replicate rfl left n false) <| .none _

theorem follows_unmarshalArrayUUID : Follows Any unmarshalArrayUUID (array [uuid]) :=
  follows_array fun left n => .only _ (follows_readElements rfl (fun _ h => UUID.ofBytes_of_le h) left n)

/-- A counted loop. -/
theorem follows_readN {β : Type} {R : α → β → Prop} {m : BufM α} {sc : Scanner β} (h : Follows R m sc)
    (n : Nat) : Follows Any (readN m n) (times (do let _ ← sc) n) := by
  induction n with
  | zero => exact .pure trivial
  | succ n ih =>
    have hround : Follows Any m (do let _ ← sc) := by
      have hbind := h.bind (f := pure) (g := fun _ => pure PUnit.unit) (Q := Any)
        fun _ _ _ => .pure trivial
      rwa [bind_pure] at hbind
    rw [readN, times]
    refine .bind hround fun x _ _ => ?_
    exact Follows.then_pure ih fun xs => x :: xs

theorem follows_element8 (tooLong : String) (hcode : code.toNat / 16 = 10) :
    Follows Eq (element8 tooLong) (payload code) := by
  have hfixed : fixedWidth code = none := by simp only [fixedWidth, hcode]
  have hwidth : lengthWidth code = 1 := if_pos hcode
  simp only [payload, hfixed, number, hwidth, bind_map_left]
  refine .bind follows_take_one ?_
  rintro b _ rfl
  have hlen : beNat [b] = b.toNat := by simp [beNat]
  rw [hlen]
  exact follows_text b.toNat tooLong

theorem follows_element32 (hcode : code.toNat / 16 = 11) : Follows Eq element32 (payload code) := by
  have hfixed : fixedWidth code = none := by simp only [fixedWidth, hcode]
  have hwidth : lengthWidth code = 4 := if_neg (by omega)
  simp only [payload, hfixed, number, hwidth, bind_map_left]
  refine follows_next (k := fun buf => do
    let size ← bigEndian 4 buf
    let (buf, ok) ← next size
    if !ok then fail "invalid length" else pure buf) fun buf hbuf => ?_
  rw [bigEndian_of_length hbuf, pure_bind]
  exact follows_text _ _

/-- Arrays of strings, symbols and byte slices. -/
theorem follows_unmarshalVariableArray {code8 code32 : UInt8} {tooLong8 : Nat → String}
    (h8 : code8.toNat / 16 = 10) (h32 : code32.toNat / 16 = 11) :
    Follows Any (unmarshalVariableArray code8 code32 name tooLong8) (array [code8, code32]) := by
  have hfixed8 : fixedWidth code8 = none := by simp only [fixedWidth, h8]
  have hfixed32 : fixedWidth code32 = none := by simp only [fixedWidth, h32]
  have hne : code32 ≠ code8 := by
    rintro rfl
    omega
  refine .bind_eq follows_readArrayHeader fun n => ?_
  refine .bind_eq follows_len fun left => ?_
  -- the reader tests the count before the type code, the scanner after it
  by_cases hlong : n * 2 > left
  · rw [if_pos hlong]
    intro r bs h
    unfold InStepAt
    cases bs with
    | nil => rfl
    | cons t bs =>
      have hstep : ∀ rest, (if t ∈ [code8, code32] then Layout.elements t left n else malformed).run
          rest = .error .malformed rest := by
        intro rest
        split
        · next ht =>
          have hfixed : fixedWidth t = none := by
            simp only [mem_cons, not_mem_nil, or_false] at ht
            rcases ht with rfl | rfl
            · exact hfixed8
            · exact hfixed32
          simp only [Layout.elements, hfixed, if_pos hlong]
          rfl
        · rfl
      rw [run_bind]
      show Agree At Stops Any _ ((if t ∈ [code8, code32] then Layout.elements t left n
        else malformed).run bs)
      rw [hstep]
      rfl
  · rw [if_neg hlong]
    refine .bind_eq follows_readByte fun t => ?_
    by_cases ht8 : t = code8
    · subst ht8
      rw [if_pos rfl, if_pos (mem_cons_self ..)]
      simp only [Layout.elements, hfixed8, if_neg hlong]
      exact follows_readN (follows_element8 _ h8) n
    · by_cases ht32 : t = code32
      · subst ht32
        rw [if_neg ht8, if_pos rfl, if_pos (by simp)]
        simp only [Layout.elements, hfixed32, if_neg hlong]
        exact follows_readN (follows_element32 h32) n
      · rw [if_neg ht8, if_neg ht32, if_neg (by simp [ht8, ht32])]
        exact follows_fail

/-! ## Arrays of any type

`readAnyArray` looks at the element type before it reads the header. -/

/-- The element type of the array at the front. -/
def elementCode (bs : Bytes) : Option UInt8 :=
  if bs.head? = some array8 then bs[3]?
  else if bs.head? = some array32 then bs[9]?
  else none

theorem outcome_sizes (k left : Nat) (bs : Bytes) :
    Outcome (sizes k left) bs (fun _ rest => rest = bs.drop (k + k)) (· = .malformed) := by
  refine .bind (P := fun _ rest => rest = bs.drop (k + k)) ?_ fun buf rest hrest => ?_
  · by_cases h : k + k ≤ bs.length
    · exact (Outcome.of_ok (run_take_le h)).mpr rfl
    · exact (Outcome.of_error (run_take_lt h)).mpr rfl
  · exact .ite (fun _ => rfl) fun _ => hrest

/-- After the header of an array comes its element type. -/
theorem outcome_arrayCount (bs : Bytes) :
    Outcome arrayCount bs (fun _ rest => rest.head? = elementCode bs) (· = .malformed) := by
  cases bs with
  | nil => rfl
  | cons t tail =>
    show Outcome (if t = array8 then sizes 1 tail.length
      else if t = array32 then sizes 4 tail.length else malformed) tail _ _
    refine .ite (fun ht => ?_) fun h8 => .ite (fun ht => ?_) fun h32 => rfl
    · subst ht
      refine (outcome_sizes 1 tail.length tail).mono ?_ fun _ h => h
      rintro _ _ rfl
      simp [elementCode, head?_drop]
    · subst ht
      refine (outcome_sizes 4 tail.length tail).mono ?_ fun _ h => h
      rintro _ _ rfl
      simp [elementCode, head?_drop, h8]

/-- An array stops when its element type is missing or not allowed. -/
theorem run_array_malformed (bs : Bytes) (codes : List UInt8) (h : ∀ t, elementCode bs = some t → t ∉ codes) :
    ∃ rest, (array codes).run bs = .error .malformed rest := by
  have houtcome := outcome_arrayCount bs
  cases hrun : arrayCount.run bs with
  | error e rest =>
    rw [array, run_bind, hrun, houtcome.error hrun]
    exact ⟨rest, rfl⟩
  | ok n rest =>
    have hhead := houtcome.ok hrun
    rw [array, run_bind, hrun]
    cases rest with
    | nil => exact ⟨_, rfl⟩
    | cons t rest =>
      refine ⟨rest, ?_⟩
      show (if t ∈ codes then Layout.elements t (rest.length + 1) n else malformed).run rest = _
      rw [if_neg (h t hhead.symm)]
      rfl

/-- Which types are allowed besides the element type of an array does not matter. -/
theorem run_array_congr (ht : elementCode bs = some t) (hmem : t ∈ codes) (hmem' : t ∈ codes')
    : (array codes).run bs = (array codes').run bs := by
  have houtcome := outcome_arrayCount bs
  rw [array, array, run_bind, run_bind]
  cases hrun : arrayCount.run bs with
  | error e rest => rfl
  | ok n rest =>
    have hhead := houtcome.ok hrun
    rw [ht] at hhead
    cases rest with
    | nil => cases hhead
    | cons t' rest =>
      obtain rfl : t' = t := Option.some.inj hhead
      show (if t' ∈ codes then Layout.elements t' (rest.length + 1) n else malformed).run rest
        = (if t' ∈ codes' then Layout.elements t' (rest.length + 1) n else malformed).run rest
      rw [if_pos hmem, if_pos hmem']

/-- The types of elements that arrays have. -/
def arrayCodes : List UInt8 := fixedCodes ++ textCodes ++ binaryCodes

/-- The readers give slices. -/
theorem Follows.compound {m : BufM (List α)} (h : Follows Any m (array codes)) {f : List α → Value}
    (hf : ∀ a, (f a).keyClass = .compound) : Follows (fun v _ => v.keyClass = .compound) (f <$> m) (array codes) :=
  h.map_left fun a _ _ => hf a

/-- Every element type that `readAnyArray` knows has a reader for its arrays. -/
theorem follows_arrayReader (ht : t ∈ arrayCodes) :
    ∃ codes, t ∈ codes ∧
      Follows (fun v _ => v.keyClass = .compound) (arrayReader t) (array codes) := by
  simp only [arrayCodes, fixedCodes, boolCodes, uintCodes, ulongCodes, intCodes, longCodes, textCodes,
    stringCodes, symbolCodes, binaryCodes, cons_append, nil_append, mem_cons,
    not_mem_nil, or_false] at ht
  rcases ht with rfl | rfl | rfl | rfl | rfl | rfl | rfl | rfl | rfl | rfl | rfl | rfl | rfl | rfl |
    rfl | rfl | rfl | rfl | rfl | rfl | rfl | rfl | rfl | rfl | rfl | rfl | rfl
  -- bool, uint, ulong, int and long have several encodings each
  iterate 3 exact ⟨boolCodes, by decide, follows_unmarshalArrayBool.compound fun _ => rfl⟩
  iterate 3 exact ⟨uintCodes, by decide, follows_unmarshalArrayUint32.compound fun _ => rfl⟩
  iterate 3 exact ⟨ulongCodes, by decide, follows_unmarshalArrayUint64.compound fun _ => rfl⟩
  iterate 2 exact ⟨intCodes, by decide, follows_unmarshalArrayInt32.compound fun _ => rfl⟩
  iterate 2 exact ⟨longCodes, by decide, follows_unmarshalArrayInt64.compound fun _ => rfl⟩
  -- ubyte, ushort, byte, short, float, double, timestamp, uuid
  · exact ⟨_, mem_cons_self .., follows_unmarshalArrayUByte.compound fun _ => rfl⟩
  · exact ⟨_, mem_cons_self .., (follows_unmarshalArray rfl total_uint16).compound fun _ => rfl⟩
  · exact ⟨_, mem_cons_self .., (follows_unmarshalArray rfl (total_byteElement _)).compound fun _ => rfl⟩
  · exact ⟨_, mem_cons_self .., (follows_unmarshalArray rfl (total_uint16.map _)).compound fun _ => rfl⟩
  · exact ⟨_, mem_cons_self .., (follows_unmarshalArray rfl total_uint32).compound fun _ => rfl⟩
  · exact ⟨_, mem_cons_self .., (follows_unmarshalArray rfl total_uint64).compound fun _ => rfl⟩
  · exact ⟨_, mem_cons_self .., (follows_unmarshalArray rfl (total_uint64.map _)).compound fun _ => rfl⟩
  · exact ⟨_, mem_cons_self .., follows_unmarshalArrayUUID.compound fun _ => rfl⟩
  -- strings, symbols and byte slices
  iterate 6 exact ⟨[_, _], by simp, (follows_unmarshalVariableArray rfl rfl).compound fun _ => rfl⟩

theorem arrayReader_other (ht : t ∉ arrayCodes) : ∃ msg, arrayReader t = fail msg := by
  simp only [arrayCodes, fixedCodes, boolCodes, uintCodes, ulongCodes, intCodes, longCodes, textCodes,
    stringCodes, symbolCodes, binaryCodes, cons_append, nil_append, mem_cons,
    not_mem_nil, or_false, not_or] at ht
  exact ⟨"array decoding not implemented for 0x" ++ hex2 t,
    by simp only [arrayReader, ht, or_self, if_false]⟩

/-- Where `readAnyArray` finds the element type, whatever it then does with it. -/
theorem run_atElementCode {β : Type} {r : Buffer} {m : BufM β} (reader : UInt8 → BufM β) (hm : m = do
      let buf ← bytes
      if buf.length < 1 then fail "invalid length"
      else
        let b0 ← index buf 0
        let typeIdx ← arrayTypeIdx b0
        if buf.length < typeIdx + 1 then fail "invalid length"
        else
          let code ← index buf typeIdx
          reader code) (h : At r bs) :
    (∃ t, elementCode bs = some t ∧ m.run r = (reader t).run r) ∨
      (elementCode bs = none ∧ ∃ msg, m.run r = .error (.err msg) r) := by
  have hbytes := h.run_peek reads_bytes
  have hrun : m.run r = (if bs.length < 1 then fail "invalid length"
      else do
        let b0 ← index bs 0
        let typeIdx ← arrayTypeIdx b0
        if bs.length < typeIdx + 1 then fail "invalid length"
        else
          let code ← index bs typeIdx
          reader code : BufM β).run r := by
    rw [hm, run_bind, hbytes]
  -- the element type stands at index `k`, if the array is that long
  have hat (k : Nat) (b0 : UInt8) (htype : arrayTypeIdx b0 = pure k) (hb0 : bs[0]? = some b0) :
      (∃ t, bs[k]? = some t ∧ m.run r = (reader t).run r) ∨
        (bs[k]? = none ∧ ∃ msg, m.run r = .error (.err msg) r) := by
    have hlen : ¬ bs.length < 1 := by
      rintro hlt
      rw [getElem?_eq_none (by omega)] at hb0
      cases hb0
    rw [if_neg hlen, index_of_lt hb0, pure_bind, htype, pure_bind] at hrun
    by_cases hk : bs.length < k + 1
    · rw [if_pos hk] at hrun
      exact .inr ⟨getElem?_eq_none (by omega), _, hrun⟩
    · have hget : bs[k]? = some bs[k] := getElem?_eq_getElem (by omega)
      rw [if_neg hk, index_of_lt hget, pure_bind] at hrun
      exact .inl ⟨bs[k], hget, hrun⟩
  cases bs with
  | nil => exact .inr ⟨rfl, _, hrun⟩
  | cons b0 tail =>
    by_cases h8 : b0 = array8
    · subst h8
      have helement : elementCode (array8 :: tail) = (array8 :: tail)[3]? := rfl
      rw [helement]
      exact hat 3 array8 rfl rfl
    · by_cases h32 : b0 = array32
      · subst h32
        have helement : elementCode (array32 :: tail) = (array32 :: tail)[9]? := rfl
        rw [helement]
        exact hat 9 array32 rfl rfl
      · refine .inr ⟨by simp [elementCode, h8, h32], "invalid array type " ++ hex2 b0, ?_⟩
        have htype : arrayTypeIdx b0 = fail ("invalid array type " ++ hex2 b0) := by
          rw [arrayTypeIdx, if_neg h8, if_neg h32]
        have hb0 : (b0 :: tail)[0]? = some b0 := rfl
        rw [if_neg (by simp), index_of_lt hb0, pure_bind, htype] at hrun
        exact hrun

theorem follows_readAnyArray : Follows (fun v _ => v.keyClass = .compound) readAnyArray (array arrayCodes) := by
  intro r bs h
  unfold InStepAt
  rcases run_atElementCode (m := readAnyArray) arrayReader rfl h with ⟨t, ht, hrun⟩ | ⟨hnone, msg, hrun⟩
  · rw [hrun]
    by_cases hmem : t ∈ arrayCodes
    · obtain ⟨codes, hcodes, hfollows⟩ := follows_arrayReader hmem
      rw [run_array_congr ht hmem hcodes]
      exact hfollows r bs h
    · obtain ⟨msg, hmsg⟩ := arrayReader_other hmem
      obtain ⟨rest, hrest⟩ := run_array_malformed bs arrayCodes fun t' ht' => by
        rw [ht] at ht'
        cases ht'
        exact hmem
      rw [hmsg, hrest]
      rfl
  · obtain ⟨rest, hrest⟩ := run_array_malformed bs arrayCodes fun t ht => by
      rw [hnone] at ht
      cases ht
    rw [hrun, hrest]
    rfl

theorem follows_unmarshalMultiSymbol : Follows Any unmarshalMultiSymbol multiSymbol := by
  intro r bs h
  refine .bind_right (b := bs) (u := bs) rfl ?_
  cases bs with
  | nil =>
    have hchk : r.readCheck 1 = true := by rw [h.readCheck]; rfl
    have hrun : unmarshalMultiSymbol.run r = .error (.err "EOF") r := by
      simp only [unmarshalMultiSymbol, peekType, peekByte, run_bind, run_get, hchk]
      rfl
    unfold InStepAt
    rw [hrun]
    rfl
  | cons t tail =>
    refine .bind_left (h.run_peek reads_peekType) ?_
    simp only [head?_cons, Option.some.injEq]
    by_cases ht : t = sym8 ∨ t = sym32
    · have htext : t ∈ textCodes := by rcases ht with rfl | rfl <;> decide
      have hsymbol : t ∈ symbolCodes := by rcases ht with rfl | rfl <;> decide
      have hstring : FollowsAt Eq readString r (scalar textCodes) (t :: tail) := follows_readString r _ h
      rw [if_pos ht, if_pos ht]
      refine .bind (FollowsAt.scalar_congr hstring htext hsymbol) ?_
      intro _ _ r' bs' _ h'
      exact ⟨h', trivial⟩
    · rw [if_neg ht, if_neg ht]
      exact follows_unmarshalVariableArray rfl rfl r _ h

end Arrays

end GoAmqp
