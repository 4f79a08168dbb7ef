import GoAmqp.Encoding.Grammar
import GoAmqp.Lib.Outcome

set_option autoImplicit false

/-! # The encoder does not move the read index

Writers append and overwrite; none of them reads. Into an empty buffer a writer therefore leaves a
buffer of which nothing has been read, for every value it accepts (not only the codable ones). -/

namespace GoAmqp

open Lib Buffer

/-- If the computation succeeds, the read index is where it was. -/
def KeepsCursor {α : Type} (m : BufM α) : Prop :=
  ∀ w, w.WF → Outcome m w (fun _ w' => w'.i = w.i ∧ w'.WF) fun _ => True

theorem Emits.keepsCursor {S : Prop} {P : Bytes → Prop} {m : BufM Unit} (h : Emits S P m) : KeepsCursor m := by
  intro w hw
  rcases h with h | ⟨bs, h, -⟩
  · obtain ⟨e, w', hrun⟩ := h w hw
    rw [Outcome.of_error hrun]
    trivial
  · rw [Outcome.of_ok (h w hw)]
    exact ⟨rfl, hw.append bs⟩

end GoAmqp
