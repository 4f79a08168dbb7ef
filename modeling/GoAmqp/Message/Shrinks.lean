import GoAmqp.Encoding.DecodeLayout.Values
import GoAmqp.Frames.Onward
import GoAmqp.Message

set_option autoImplicit false

/-! # Decoding a message only consumes

What is left unread after a call of `Message.Unmarshal` is never more than what was unread before it,
also when the call returns an error and leaves the buffer where it stopped. -/

namespace GoAmqp

open Lib Buffer Layout EStateM

/-! ## Messages -/

instance : Steps OnwardInto MessageHeader.unmarshal := by unfold MessageHeader.unmarshal; infer_instance

instance {σ : Type} (part : σ → Option Bytes) (put : Option Bytes → σ → σ) :
    Steps OnwardInto (stringPtr part put).field :=
  inferInstanceAs (Steps OnwardInto (assignPtr part put [] (store readString)))

instance {σ : Type} (part : σ → Option Time) (put : Option Time → σ → σ) : Steps OnwardInto (timePtr part put).field :=
  inferInstanceAs (Steps OnwardInto (assignPtr part put .zero (store readTimestamp)))

instance : Steps OnwardInto MessageProperties.unmarshal := by unfold MessageProperties.unmarshal; infer_instance

instance {α : Type} (zero : α) (read : BufM α) [Steps Onward read] :
    Steps Onward (readNullable zero read) := by
  unfold readNullable
  infer_instance

/-! A section is only entered with a header that is there: `PeekMessageType` has looked at all of it. -/

section Sections

variable {α : Type} {n : Nat} {s : Sections × Buffer}

theorem onward_skip {k : IntoM Sections Unit} [hk : Steps OnwardInto k] (hn : n ≤ leftInto s) :
    OnwardInto s (stateAfter ((do onBuffer (skip n); k).run s)) :=
  (onward_advance_of_le hn).trans (hk.after (s.1, s.2.advance n))

theorem onward_readSection (type_ : UInt8) (hn : n ≤ leftInto s) :
    OnwardInto s (stateAfter ((readSection type_ n).run s)) := by
  have hinto {α : Type} (read : BufM α) [Steps Onward read] (put : α → Sections → Sections) :
      OnwardInto s (stateAfter ((sectionInto n read put).run s)) := onward_skip hn
  have happend {α : Type} (zero : α) (read : BufM α) [Steps Onward read]
      (put : α → Sections → Sections) :
      OnwardInto s (stateAfter ((sectionAppend n zero read put).run s)) := onward_skip hn
  unfold readSection
  split_ifs
  · exact Steps.after s
  · exact hinto ..
  · exact hinto ..
  · exact Steps.after s
  · exact hinto ..
  · exact happend ..
  · exact happend ..
  · exact hinto ..
  · exact hinto ..
  · exact Steps.after s

end Sections

/-- One round of the loop, with the buffer not empty. -/
def sectionRound : IntoM Sections Unit := do
  let buf ← onBuffer bytes
  let (type_, headerLength) ← onBuffer (peekMessageType buf)
  readSection type_ headerLength

/-- A round that gets as far as reading the section knows the length of its header. -/
theorem sectionRound_cases (s : Sections × Buffer) :
    (∃ t n, descriptorByte s.2.unread = some (t, n) ∧ sectionRound.run s = (readSection t n).run s) ∨
      ∃ f, sectionRound.run s = .error f s := by
  by_cases hwf : s.2.WF
  · have hbytes : (onBuffer bytes : IntoM Sections Bytes).run s = .ok s.2.unread s :=
      run_onBuffer (reads_bytes s.2 hwf rfl)
    rcases run_peekMessageType s.2 s.2.unread with ⟨⟨t, n⟩, hp, hrun⟩ | ⟨-, msg, hrun⟩
    · refine .inl ⟨t, n, hp, ?_⟩
      have hpeek : (onBuffer (peekMessageType s.2.unread) : IntoM Sections _).run s = .ok (t, n) s :=
        run_onBuffer hrun
      rw [sectionRound, run_bind, hbytes]
      show run (onBuffer (peekMessageType s.2.unread) >>= _) s = _
      rw [run_bind, hpeek]
    · have hpeek : (onBuffer (peekMessageType s.2.unread) : IntoM Sections _).run s
          = .error (.err msg) s := run_onBuffer_error hrun
      refine .inr ⟨.err msg, ?_⟩
      rw [sectionRound, run_bind, hbytes]
      show run (onBuffer (peekMessageType s.2.unread) >>= _) s = _
      rw [run_bind, hpeek]
  · refine .inr ⟨.outOfRange, ?_⟩
    have hbytes : bytes.run s.2 = .error .outOfRange s.2 := by
      show (slice s.2.b s.2.i s.2.b.length : BufM Bytes).run s.2 = _
      rw [slice, if_neg fun h => hwf h.1]
      rfl
    rw [sectionRound, run_bind, run_onBuffer_error hbytes]

instance : Steps OnwardInto sectionRound := by
  constructor
  intro s
  rcases sectionRound_cases s with ⟨t, n, hp, hrun⟩ | ⟨f, hrun⟩
  · rw [hrun]
    refine onward_readSection t ?_
    rw [leftInto, left_eq_length_unread]
    exact (descriptorByte_head hp).2.2
  · rw [hrun]
    exact onward_refl s.2

instance (bound : Nat) : Steps OnwardInto (sectionsLoop bound) := by
  induction bound with
  | zero => exact .throw _
  | succ bound ih =>
    have hloop : sectionsLoop (bound + 1) = (do
        let left ← onBuffer len
        if left > 0 then
          sectionRound
          sectionsLoop bound
        else pure ()) := by
      simp only [sectionsLoop, sectionRound, bind_assoc]
    rw [hloop]
    infer_instance

instance : Steps OnwardInto Message.unmarshal := by
  unfold Message.unmarshal Sections.unmarshal
  infer_instance

/-- What is unread after a call of `Message.Unmarshal`. -/
theorem left_unmarshal (m : Message) (buf : Buffer) :
    (stateAfter (Message.unmarshal.run (m, buf))).2.left ≤ buf.left :=
  (inferInstance : Shrinks leftInto Message.unmarshal).le (m, buf)

end GoAmqp
