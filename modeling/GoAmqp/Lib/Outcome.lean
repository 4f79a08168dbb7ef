import Mathlib.Tactic.Common

set_option autoImplicit false

/-! # Outcomes of stateful computations

`Outcome m s Q E` says what one run of `m` from the state `s` gives: a result and state that satisfy
`Q`, or an error that satisfies `E`. The rules follow the text of a `do` block. -/

namespace GoAmqp.Lib

variable {ε σ α β : Type}

/-- A result satisfies `Q`, and an error `E`. -/
def Outcome (m : EStateM ε σ α) (s : σ) (Q : α → σ → Prop) (E : ε → Prop) : Prop :=
  match m.run s with
  | .ok a s' => Q a s'
  | .error e _ => E e

namespace Outcome

variable {m : EStateM ε σ α} {s : σ} {Q Q' : α → σ → Prop} {E E' : ε → Prop}

theorem of_ok {a : α} {s' : σ} (h : m.run s = .ok a s') : Outcome m s Q E ↔ Q a s' := by
  rw [Outcome, h]

theorem of_error {e : ε} {s' : σ} (h : m.run s = .error e s') : Outcome m s Q E ↔ E e := by
  rw [Outcome, h]

/-- The facts about a run that succeeded. -/
theorem ok (h : Outcome m s Q E) {a : α} {s' : σ} (hrun : m.run s = .ok a s') : Q a s' := (of_ok hrun).mp h

theorem error (h : Outcome m s Q E) {e : ε} {s' : σ} (hrun : m.run s = .error e s') : E e := (of_error hrun).mp h

theorem mono (h : Outcome m s Q E) (hQ : ∀ a s', Q a s' → Q' a s') (hE : ∀ e, E e → E' e) : Outcome m s Q' E' := by
  unfold Outcome at *
  split at h
  · exact hQ _ _ h
  · exact hE _ h

theorem throw_iff {e : ε} : Outcome (throw e : EStateM ε σ α) s Q E ↔ E e := Iff.rfl

theorem get_iff {Q : σ → σ → Prop} : Outcome (get : EStateM ε σ σ) s Q E ↔ Q s s := Iff.rfl

theorem bind_iff {f : α → EStateM ε σ β} {Q : β → σ → Prop} :
    Outcome (m >>= f) s Q E ↔ Outcome m s (fun a s' => Outcome (f a) s' Q E) E := by
  unfold Outcome
  rw [EStateM.run_bind]
  cases m.run s <;> rfl

theorem bind {f : α → EStateM ε σ β} {Q : β → σ → Prop} {P : α → σ → Prop} (hm : Outcome m s P E)
    (hf : ∀ a s', P a s' → Outcome (f a) s' Q E) : Outcome (m >>= f) s Q E :=
  bind_iff.mpr (hm.mono hf fun _ he => he)

theorem ite {c : Prop} [Decidable c] {m' : EStateM ε σ α} (ht : c → Outcome m s Q E)
    (hf : ¬ c → Outcome m' s Q E) : Outcome (if c then m else m') s Q E := by
  split
  · next h => exact ht h
  · next h => exact hf h

end Outcome

end GoAmqp.Lib
