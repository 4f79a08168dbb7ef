import GoAmqp.Encoding.Onward
import GoAmqp.Frames.Types

set_option autoImplicit false

/-! # Decoding a frame body moves onward and consumes

The reader of a frame body is made of the readers of its fields, and these of the readers of values. Each
keeps the bytes of the buffer and moves its read index onward, and a reader of a whole performative or
terminus consumes at least the byte of its descriptor; what is made of such readers is of the same kind,
so that every instance is found from the shape of the reader. -/

namespace GoAmqp

open Lib Buffer

section Fields

variable {σ α : Type}

instance (read : BufM α) [Steps Onward read] : Steps OnwardInto (store read) := by
  unfold store
  infer_instance

instance (read : BufM α) [h : Steps Onward read] (zero : α) :
    Steps OnwardInto (storeAlways read zero) := by
  constructor
  intro s
  have hm := h.after s.2
  show OnwardInto s (stateAfter (storeAlways read zero s))
  unfold storeAlways
  cases hrun : read.run s.2 <;> rw [hrun] at hm <;> exact hm

instance : Takes unmarshalMilliseconds := by unfold unmarshalMilliseconds; exact .of

instance : Steps OnwardInto (get : IntoM σ (σ × Buffer)) := ⟨fun s => onward_refl s.2⟩

instance : Steps OnwardInto unmarshalExpiryPolicy := by unfold unmarshalExpiryPolicy; infer_instance

instance : Takes unmarshalUnsettled := by unfold unmarshalUnsettled; exact .of

instance : Takes unmarshalFilter := by unfold unmarshalFilter; exact .of

instance (put : Value → σ → σ) : Steps OnwardInto (assignAnyField put) := by
  unfold assignAnyField
  infer_instance

instance (part : σ → Option (AmqpError Value)) (put : Option (AmqpError Value) → σ → σ) :
    Steps OnwardInto (errorField part put).field :=
  inferInstanceAs (Steps OnwardInto (assignPtr part put zeroError (unmarshalError readAny)))

end Fields

instance : TakesInto Source.unmarshal := by unfold Source.unmarshal; exact .of

instance : TakesInto Target.unmarshal := by unfold Target.unmarshal; exact .of

instance : TakesInto PerformOpen.unmarshal := by unfold PerformOpen.unmarshal; exact .of

instance : TakesInto PerformClose.unmarshal := by unfold PerformClose.unmarshal; exact .of

instance : TakesInto PerformBegin.unmarshal := by unfold PerformBegin.unmarshal; exact .of

instance : TakesInto PerformEnd.unmarshal := by unfold PerformEnd.unmarshal; exact .of

instance : TakesInto PerformAttach.unmarshal := by unfold PerformAttach.unmarshal; exact .of

instance : TakesInto PerformFlow.unmarshal := by unfold PerformFlow.unmarshal; exact .of

instance : TakesInto PerformDisposition.unmarshal := by unfold PerformDisposition.unmarshal; exact .of

instance : TakesInto PerformDetach.unmarshal := by unfold PerformDetach.unmarshal; exact .of

instance : TakesInto SASLMechanisms.unmarshal := by unfold SASLMechanisms.unmarshal; exact .of

instance : TakesInto SASLChallenge.unmarshal := by unfold SASLChallenge.unmarshal; exact .of

instance : TakesInto SASLOutcome.unmarshal := by unfold SASLOutcome.unmarshal; exact .of

instance : TakesInto PerformTransfer.unmarshal := by
  unfold PerformTransfer.unmarshal PerformTransfer.unmarshalComposite PerformTransfer.unmarshalPayload
  exact .of

instance (pType : UInt8) : Takes (bodyReader pType) := by unfold bodyReader; exact .of

instance : Takes parseBody := by unfold parseBody; exact .of

end GoAmqp
