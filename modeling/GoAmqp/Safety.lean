import GoAmqp.Frames.Layout
import GoAmqp.Message

set_option autoImplicit false

/-! # How the decoder ends on arbitrary input

The layout of messages, which `Message.Unmarshal` follows, and what the layouts say about the three
entry points of the decoder: on every byte string they return a value or an error, except where the
layout has a map entry whose key cannot be hashed. There the run-time panics. -/

namespace GoAmqp

open Lib Buffer TypeCode

namespace Layout

def messageHeader : Scanner Unit := record TypeCode.messageHeader [
  optional bool, optional ubyte, optional milliseconds, optional bool, optional uint]

def messageProperties : Scanner Unit := record TypeCode.messageProperties [
  optional any, optional binary, optional text, optional text, optional text, optional any,
  optional text, optional text, optional (scalar [timestamp]),
  optional (scalar [timestamp]), optional text, optional uint, optional text]

/-- A section whose contents, or null, follow the header of `n` bytes. -/
def contents {α : Type} (n : Nat) (sc : Scanner α) : Scanner Unit := do
  let _ ← take n
  if ← null then pure ()
  else
    let _ ← sc

/-- A section of the type `t`, whose descriptor has `n` bytes. -/
def sectionOf (t : UInt8) (n : Nat) : Scanner Unit :=
  if t = TypeCode.messageHeader then messageHeader
  else if t = deliveryAnnotations then contents n (annotations any)
  else if t = messageAnnotations then contents n (annotations any)
  else if t = TypeCode.messageProperties then messageProperties
  else if t = applicationProperties then contents n (stringMap any)
  else if t = applicationData then contents n binary
  else if t = amqpSequence then contents n (list any)
  else if t = footer then contents n (annotations any)
  else if t = amqpValue then contents n any
  else malformed

/-- Sections up to the end, at most `bound` of them. -/
def sections : Nat → Scanner Unit
  | 0 => throw .exhausted
  | bound + 1 => do
    let bs ← get
    if bs.length > 0 then
      match descriptorByte bs with
      | none => malformed
      | some (t, n) =>
        sectionOf t n
        sections bound
    else pure ()

/-- A whole message. -/
def message : Scanner Unit := do
  let left ← remaining
  sections (left + 1)

end Layout

open Layout

/-! ## Messages -/

instance : LaidInto MessageHeader.unmarshal messageHeader := laid_unmarshalComposite _

instance {σ : Type} {part : σ → Option Bytes} {put : Option Bytes → σ → σ} :
    FieldFollows (stringPtr part put) (optional text) :=
  .optional LaidBody.follows

instance {σ : Type} {part : σ → Option Time} {put : Option Time → σ → σ} :
    FieldFollows (timePtr part put) (optional (scalar [timestamp])) :=
  have : Laid readTimestamp (scalar [timestamp]) := ⟨follows_readTimestamp⟩
  .optional LaidBody.follows

instance : LaidInto MessageProperties.unmarshal messageProperties := laid_unmarshalComposite _

section Contents

variable {α β : Type} {s : Sections × Buffer} {bs : Bytes} {n : Nat}

/-- `Skip` over a header that is there. -/
theorem run_skip (hs : At s.2 bs) (hn : n ≤ bs.length) :
    ∃ s', (onBuffer (skip n) : IntoM Sections Unit).run s = .ok () s' ∧ At s'.2 (bs.drop n) := by
  have hat : At s.2 (bs.take n ++ bs.drop n) := by rwa [List.take_append_drop]
  have hadvance := hat.advance
  rw [List.length_take_of_le hn] at hadvance
  exact ⟨(s.1, s.2.advance n), rfl, hadvance⟩

/-- The contents of a section that replaces a field. -/
theorem followsAt_sectionInto {read : BufM α} {put : α → Sections → Sections} {R : α → β → Prop}
    {sc : Scanner β} (h : Follows R read sc) (hs : At s.2 bs) (hn : n ≤ bs.length) :
    FollowsIntoAt Any (sectionInto n read put) s (contents n sc) bs := by
  obtain ⟨s', hskip, hs'⟩ := run_skip hs hn
  refine .bind_left hskip (.bind_right (run_take_le hn) ?_)
  obtain ⟨b, s'', bs'', hrun, hscan, hs'', hsame, hnull⟩ := run_tryReadNull hs'
  refine .bind_left hrun (.bind_right hscan ?_)
  cases b with
  | true => exact ⟨hs'', trivial⟩
  | false =>
    refine .bind (followsAt_onBuffer (h s''.2 bs'' hs'')) ?_
    exact fun a _ t rest _ ht => ⟨ht, trivial⟩

/-- The contents of a section that is added to a field. -/
theorem followsAt_sectionAppend {read : BufM α} {zero : α} {put : α → Sections → Sections} {R : α → β → Prop}
    {sc : Scanner β} (h : Follows R read sc) (hs : At s.2 bs) (hn : n ≤ bs.length) :
    FollowsIntoAt Any (sectionAppend n zero read put) s (contents n sc) bs := by
  obtain ⟨s', hskip, hs'⟩ := run_skip hs hn
  refine .bind_left hskip (.bind_right (run_take_le hn) ?_)
  have hread : Follows Any (readNullable zero read) (do
      if ← null then pure ()
      else
        let _ ← sc) := by
    refine .bind_eq follows_tryReadNull fun b => ?_
    refine .ite Iff.rfl (fun _ => .pure trivial) fun _ => ?_
    rw [← bind_pure read]
    exact .bind h fun _ _ _ => .pure trivial
  rw [← bind_pure (null >>= _)]
  refine .bind (followsAt_onBuffer (hread s'.2 _ hs')) ?_
  exact fun a _ t rest _ ht => ⟨ht, trivial⟩

end Contents

/-- A section that is read through a pointer, with its header. -/
theorem followsAt_sectionRecord {τ β : Type} {part : Sections → Option τ} {put : Option τ → Sections → Sections}
    {zero : τ} {m : IntoM τ Unit} {sc : Scanner β} [h : LaidInto m sc] {s : Sections × Buffer} {bs : Bytes}
    (hs : At s.2 bs) (hhead : bs.head? = some 0) : FollowsIntoAt Any (assignPtr part put zero m) s sc bs := by
  refine body_assignPtr h.follows s bs hs ?_
  rw [hhead]
  decide

theorem followsAt_readSection {s : Sections × Buffer} {bs : Bytes} {t : UInt8} {n : Nat} (hs : At s.2 bs)
    (hdescriptor : descriptorByte bs = some (t, n)) : FollowsIntoAt Any (readSection t n) s (sectionOf t n) bs := by
  obtain ⟨hhead, -, hn⟩ := descriptorByte_head hdescriptor
  have hinto {α β : Type} {read : BufM α} {put : α → Sections → Sections} {R : α → β → Prop}
      {sc : Scanner β} (h : Follows R read sc) :
      FollowsIntoAt Any (sectionInto n read put) s (contents n sc) bs :=
    followsAt_sectionInto h hs hn
  refine .ite Iff.rfl (fun _ => followsAt_sectionRecord hs hhead) fun _ => ?_
  refine .ite Iff.rfl (fun _ => hinto (follows_annotations follows_readAny)) fun _ => ?_
  refine .ite Iff.rfl (fun _ => hinto (follows_annotations follows_readAny)) fun _ => ?_
  refine .ite Iff.rfl (fun _ => followsAt_sectionRecord hs hhead) fun _ => ?_
  refine .ite Iff.rfl (fun _ => hinto (follows_stringMap follows_readAny)) fun _ => ?_
  refine .ite Iff.rfl (fun _ => followsAt_sectionAppend follows_readBinary hs hn) fun _ => ?_
  refine .ite Iff.rfl
    (fun _ => followsAt_sectionAppend (follows_unmarshalList follows_readAny) hs hn) fun _ => ?_
  refine .ite Iff.rfl (fun _ => hinto (follows_annotations follows_readAny)) fun _ => ?_
  exact .ite Iff.rfl (fun _ => hinto follows_readAny) fun _ => rfl

theorem follows_sectionsLoop (bound : Nat) : FollowsInto Any (sectionsLoop bound) (Layout.sections bound) := by
  induction bound with
  | zero => exact .throw rfl
  | succ bound ih =>
    intro s bs hs
    have hlen : (onBuffer len : IntoM Sections Nat).run s = .ok bs.length s :=
      run_onBuffer_peek (hs.run_peek reads_len)
    refine .bind_left hlen (.bind_right (b := bs) (u := bs) rfl ?_)
    by_cases hempty : bs.length > 0
    · rw [if_pos hempty, if_pos hempty]
      refine .bind_left (run_onBuffer_peek (hs.run_peek reads_bytes)) ?_
      rcases run_peekMessageType s.2 bs with ⟨⟨t, n⟩, hp, hrun⟩ | ⟨hnone, msg, hrun⟩
      · refine .bind_left (run_onBuffer_peek hrun) ?_
        rw [hp]
        refine .bind (followsAt_readSection hs hp) ?_
        exact fun _ _ s' bs' _ hs' => ih s' bs' hs'
      · rw [hnone]
        have herror : (onBuffer (peekMessageType bs) : IntoM Sections (UInt8 × Nat)).run s
            = .error (.err msg) s := run_onBuffer_error hrun
        unfold InStepAt
        rw [EStateM.run_bind, herror]
        rfl
    · rw [if_neg hempty, if_neg hempty]
      exact ⟨hs, trivial⟩

/-- **`Message.Unmarshal` follows the layout of messages**, whatever the message held before. -/
theorem follows_unmarshal : FollowsInto Any Message.unmarshal message := by
  refine follows_zoom (.bind (follows_onBuffer follows_len) ?_)
  rintro left _ rfl
  exact follows_sectionsLoop (left + 1)

namespace Layout

variable {k : Nat}

theorem forward_messageHeader : Advances (k + 1) messageHeader :=
  advances_record (by simp [bool, ubyte, uint, milliseconds, forward_scalar]) _

theorem forward_messageProperties : Advances (k + 1) messageProperties :=
  advances_record (by simp [binary, text, uint, forward_scalar, (advances_any k).forward]) _

/-- A section has a header of two bytes at least. -/
theorem outcome_contents {α : Type} {sc : Scanner α} (h : Forward k sc) {bs : Bytes} {n : Nat}
    (hpos : 0 < n) (hn : n ≤ bs.length) (hbs : bs.length < k + 1) :
    Outcome (contents n sc) bs (fun _ rest => rest.length < bs.length) (· ≠ .exhausted) := by
  refine Outcome.bind_iff.mpr ((Outcome.of_ok (run_take_le hn)).mpr ?_)
  have hrest : Forward k (do
      if ← null then pure ()
      else
        let _ ← sc) := forward_null.bind fun _ => .ite (.pure _) (h.bind fun _ => .pure _)
  have hlen : (bs.drop n).length < bs.length := by
    rw [List.length_drop]
    omega
  exact (hrest _ (by omega)).mono (fun _ _ hle => Nat.lt_of_le_of_lt hle hlen) fun _ he => he

theorem outcome_sectionOf {bs : Bytes} {t : UInt8} {n : Nat} (hdescriptor : descriptorByte bs = some (t, n)) :
    Outcome (sectionOf t n) bs (fun _ rest => rest.length < bs.length) (· ≠ .exhausted) := by
  obtain ⟨-, hpos, hn⟩ := descriptorByte_head hdescriptor
  have hbs : bs.length < bs.length + 1 := Nat.lt_succ_self _
  have hannotations := outcome_contents (advances_annotations (advances_any bs.length)).shorter
    (Nat.lt_of_lt_of_le Nat.zero_lt_two hpos) hn hbs
  have hcontents {α : Type} {sc : Scanner α} (h : Forward bs.length sc) :=
    outcome_contents h (Nat.lt_of_lt_of_le Nat.zero_lt_two hpos) hn hbs
  refine .ite (fun _ => forward_messageHeader bs hbs) fun _ => ?_
  refine .ite (fun _ => hannotations) fun _ => ?_
  refine .ite (fun _ => hannotations) fun _ => ?_
  refine .ite (fun _ => forward_messageProperties bs hbs) fun _ => ?_
  refine .ite (fun _ => hcontents (advances_stringMap (advances_any _)).shorter) fun _ => ?_
  refine .ite (fun _ => hcontents (forward_scalar _)) fun _ => ?_
  refine .ite (fun _ => hcontents (advances_list (advances_any _)).shorter) fun _ => ?_
  refine .ite (fun _ => hannotations) fun _ => ?_
  exact .ite (fun _ => hcontents (advances_any _).forward) fun _ => advances_malformed bs hbs

theorem outcome_sections (bound : Nat) (bs : Bytes) (hbound : bs.length < bound) :
    Outcome (sections bound) bs (fun _ _ => True) (· ≠ .exhausted) := by
  induction bound generalizing bs with
  | zero => omega
  | succ bound ih =>
    refine Outcome.bind_iff.mpr (Outcome.get_iff.mpr (Outcome.ite (fun _ => ?_) fun _ => trivial))
    split
    · exact Outcome.throw_iff.mpr (by decide)
    · next t n hdescriptor =>
      refine (outcome_sectionOf hdescriptor).bind fun _ rest hrest => ?_
      exact ih rest (by omega)

theorem outcome_message (bs : Bytes) : Outcome message bs (fun _ _ => True) (· ≠ .exhausted) := by
  have hleft : remaining.run bs = .ok bs.length bs := rfl
  refine Outcome.bind_iff.mpr ((Outcome.of_ok hleft).mpr ?_)
  exact outcome_sections (bs.length + 1) bs (Nat.lt_succ_self _)

end Layout

/-! ## The three entry points -/

/-- How a call ended, other than by returning a value. -/
def fault? {σ α : Type} : EStateM.Result Fault σ α → Option Fault
  | .ok _ _ => none
  | .error f _ => some f

/-- The call returned, with a value or with an error. -/
def Returned {σ α : Type} (res : EStateM.Result Fault σ α) : Prop :=
  fault? res = none ∨ ∃ msg, fault? res = some (.err msg)

/-- The layout of `bs` has no map entry with a key that cannot be hashed. -/
def KeysHashable {α : Type} (sc : Scanner α) (bs : Bytes) : Prop := ∀ rest, sc.run bs ≠ .error .unhashableKey rest

/-- A reader that follows a scanner returns unless the scanner meets such a key. -/
theorem returned_iff {σ α β : Type} {S : σ → Bytes → Prop} {R : α → β → Prop} {m : EStateM Fault σ α} {s : σ}
    {sc : Scanner β} {bs : Bytes} {Q : β → Bytes → Prop} (h : InStepAt S Stops R m s sc bs)
    (hbound : Outcome sc bs Q (· ≠ .exhausted)) : Returned (m.run s) ↔ KeysHashable sc bs := by
  unfold InStepAt at h
  unfold KeysHashable
  cases hsc : sc.run bs with
  | ok b rest =>
    cases hm : m.run s with
    | ok a s' => simp [Returned, fault?]
    | error f s' =>
      rw [hm, hsc] at h
      exact h.elim
  | error d rest =>
    have hd := hbound.error hsc
    cases hm : m.run s with
    | ok a s' =>
      rw [hm, hsc] at h
      exact h.elim
    | error f s' =>
      rw [hm, hsc] at h
      -- the reader's fault is the one of the scanner's stop
      have hstop : Fault.stop f = some d := h
      cases d with
      | malformed => cases f <;> simp_all [Fault.stop, Returned, fault?]
      | unhashableKey => cases f <;> simp_all [Fault.stop, Returned, fault?]
      | exhausted => exact absurd rfl hd

/-- **The decoder on hostile input.** On every byte string, `ReadAny`, `Message.Unmarshal` (into any
    message) and `ParseBody` return a value or an error if and only if the bytes, up to where they
    are malformed, hold no map entry whose key is a slice, a map or a struct with one inside, at a
    place where the decoder does not refuse it. No index or slice is out of range. -/
theorem decoders_return_iff (bs : Bytes) :
    (Returned (readAny.run (.new bs)) ↔ KeysHashable any bs) ∧
    (∀ msg, Returned (Message.unmarshal.run (msg, .new bs)) ↔ KeysHashable message bs) ∧
    (Returned (parseBody.run (.new bs)) ↔ KeysHashable frameBody bs) := by
  have hlt : bs.length < bs.length + 1 := Nat.lt_succ_self _
  refine ⟨?_, fun msg => ?_, ?_⟩
  · exact returned_iff (follows_readAny _ _ (.new bs)) (advances_any _ bs hlt)
  · exact returned_iff (follows_unmarshal (msg, .new bs) bs (At.new bs)) (outcome_message bs)
  · exact returned_iff (follows_parseBody _ _ (.new bs)) (forward_frameBody bs hlt)

/-- A map whose key is a described empty byte slice, an annotation with an empty byte slice as its
    key, and a disposition whose state has such an annotation. -/
theorem decoders_panic :
    fault? (readAny.run (.new [0xc1, 0x06, 0x02, 0x00, 0x40, 0xa0, 0x00, 0x40]))
      = some .unhashable ∧
    fault? (Message.unmarshal.run
        (.zero, .new [0x00, 0x53, 0x72, 0xc1, 0x04, 0x02, 0xa0, 0x00, 0x40]))
      = some .unhashable ∧
    fault? (parseBody.run (.new [0x00, 0x53, 0x15, 0xc0, 0x13, 0x05, 0x41, 0x43, 0x40, 0x40, 0x00, 0x53,
        0x27, 0xc0, 0x09, 0x03, 0x40, 0x40, 0xc1, 0x04, 0x02, 0xa0, 0x00, 0x40]))
      = some .unhashable := by
  decide +kernel

end GoAmqp
