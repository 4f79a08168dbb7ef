import GoAmqp.Lib.Cursor
import Mathlib.Order.Defs.Unbundled

set_option autoImplicit false

/-! # Computations that never put anything back

A stateful computation steps along a relation if every run of it, whether it returns or stops with an
error, ends in a state that is related to the one it started from. For a preorder the rules follow the
text of a `do` block. `Steps` is a class and the rules are instances: for a function made of others,
instance search puts the proof together. `Shrinks` is the case of a measure that does not grow and
`Consumes` the one of a measure that gets smaller whenever the run returns. `Agrees` compares two
computations on the states below a measure, which is what a recursion on that measure needs. -/

namespace GoAmqp.Lib

open EStateM

variable {ε σ α β : Type}

/-- The state that a run leaves. -/
def stateAfter : Result ε σ α → σ
  | .ok _ s => s
  | .error _ s => s

/-- The state after a run, also after an error, is related to the state before. -/
class Steps (R : σ → σ → Prop) (m : EStateM ε σ α) : Prop where
  after : ∀ s, R s (stateAfter (m.run s))

theorem Steps.ok {R : σ → σ → Prop} (m : EStateM ε σ α) [h : Steps R m] {s s' : σ} {a : α}
    (hrun : m.run s = .ok a s') : R s s' := by
  have hs := h.after s
  rwa [hrun] at hs

namespace Steps

variable {R : σ → σ → Prop} {m m' : EStateM ε σ α} {f : α → EStateM ε σ β}

instance pure [Std.Refl R] (a : α) : Steps R (Pure.pure a : EStateM ε σ α) := ⟨Std.Refl.refl⟩

instance throw [Std.Refl R] (e : ε) : Steps R (MonadExcept.throw e : EStateM ε σ α) := ⟨Std.Refl.refl⟩

instance bind [IsTrans σ R] [h : Steps R m] [hf : ∀ a, Steps R (f a)] : Steps R (m >>= f) := by
  constructor
  intro s
  have hm := h.after s
  rw [run_bind]
  cases hrun : m.run s with
  | ok a s' =>
    rw [hrun] at hm
    exact IsTrans.trans _ _ _ hm ((hf a).after s')
  | error e s' =>
    rw [hrun] at hm
    exact hm

instance map [IsPreorder σ R] (g : α → β) [Steps R m] : Steps R (g <$> m) := by
  rw [map_eq_pure_bind]
  infer_instance

instance ite {c : Prop} [Decidable c] [Steps R m] [Steps R m'] : Steps R (if c then m else m') := by
  split <;> assumption

instance adaptExcept {δ : Type} (g : ε → δ) [h : Steps R m] : Steps R (m.adaptExcept g) := by
  constructor
  intro s
  have hm := h.after s
  show R s (stateAfter (EStateM.adaptExcept g m s))
  unfold EStateM.adaptExcept
  cases hrun : m.run s with
  | ok a s' =>
    rw [hrun] at hm
    rw [show m s = .ok a s' from hrun]
    exact hm
  | error e s' =>
    rw [hrun] at hm
    rw [show m s = .error e s' from hrun]
    exact hm

instance readN [IsPreorder σ R] [Steps R m] (n : Nat) : Steps R (Lib.readN m n) := by
  induction n with
  | zero => exact .pure []
  | succ n ih =>
    unfold Lib.readN
    infer_instance

end Steps

/-! ## A measure that does not grow -/

/-- A run never adds to what is left. -/
class Shrinks (left : σ → Nat) (m : EStateM ε σ α) : Prop where
  le : ∀ s, left (stateAfter (m.run s)) ≤ left s

theorem Shrinks.of_steps {R : σ → σ → Prop} {left : σ → Nat} {m : EStateM ε σ α}
    (hR : ∀ s s', R s s' → left s' ≤ left s) [h : Steps R m] : Shrinks left m :=
  ⟨fun s => hR _ _ (h.after s)⟩

/-! ## A measure that gets smaller -/

/-- Every run that returns makes the measure smaller. -/
class Consumes (left : σ → Nat) (m : EStateM ε σ α) : Prop where
  lt : ∀ s a s', m.run s = .ok a s' → left s' < left s

namespace Consumes

variable {left : σ → Nat} {m m' : EStateM ε σ α} {f : α → EStateM ε σ β}

instance throw (e : ε) : Consumes left (MonadExcept.throw e : EStateM ε σ α) := ⟨nofun⟩

theorem bind_ok {s s' : σ} {b : β} (h : (m >>= f).run s = .ok b s') :
    ∃ a t, m.run s = .ok a t ∧ (f a).run t = .ok b s' := by
  rw [run_bind] at h
  cases hrun : m.run s with
  | ok a t =>
    rw [hrun] at h
    exact ⟨a, t, rfl, h⟩
  | error e t =>
    rw [hrun] at h
    cases h

instance bind_left [h : Consumes left m] [hf : ∀ a, Shrinks left (f a)] :
    Consumes left (m >>= f) := by
  constructor
  intro s b s' hrun
  obtain ⟨a, t, hm, hfa⟩ := bind_ok hrun
  have hle := (hf a).le t
  rw [hfa] at hle
  exact Nat.lt_of_le_of_lt hle (h.lt s a t hm)

instance (priority := low) bind_right [h : Shrinks left m] [hf : ∀ a, Consumes left (f a)] :
    Consumes left (m >>= f) := by
  constructor
  intro s b s' hrun
  obtain ⟨a, t, hm, hfa⟩ := bind_ok hrun
  have hle := h.le s
  rw [hm] at hle
  exact Nat.lt_of_lt_of_le ((hf a).lt t b s' hfa) hle

instance map (g : α → β) [h : Consumes left m] : Consumes left (g <$> m) := by
  constructor
  intro s b s' hrun
  rw [map_eq_pure_bind] at hrun
  obtain ⟨a, t, hm, hfa⟩ := bind_ok hrun
  injection hfa with _ hstate
  exact hstate ▸ h.lt s a t hm

instance ite {c : Prop} [Decidable c] [Consumes left m] [Consumes left m'] :
    Consumes left (if c then m else m') := by
  split <;> assumption

end Consumes

/-! ## Agreement below a bound -/

/-- The two computations cannot be told apart on states with less than `n` left. -/
class Agrees (left : σ → Nat) (n : Nat) (m m' : EStateM ε σ α) : Prop where
  eq : ∀ s, left s < n → m.run s = m'.run s

namespace Agrees

variable {left : σ → Nat} {n : Nat} {m m' k k' : EStateM ε σ α} {f f' : α → EStateM ε σ β}

instance (priority := high) refl : Agrees left n m m := ⟨fun _ _ => rfl⟩

instance bind [h : Agrees left n m m'] [hs : Shrinks left m'] [hf : ∀ a, Agrees left n (f a) (f' a)] :
    Agrees left n (m >>= f) (m' >>= f') := by
  constructor
  intro s hlt
  have hle := hs.le s
  rw [run_bind, run_bind, h.eq s hlt]
  cases hrun : m'.run s with
  | ok a t =>
    rw [hrun] at hle
    exact (hf a).eq t (Nat.lt_of_le_of_lt hle hlt)
  | error e t => rfl

/-- Behind something that consumes, agreement on less is enough. -/
instance (priority := high) bind_consumes [h : Consumes left m] [hf : ∀ a, Agrees left n (f a) (f' a)] :
    Agrees left (n + 1) (m >>= f) (m >>= f') := by
  constructor
  intro s hlt
  rw [run_bind, run_bind]
  cases hrun : m.run s with
  | ok a t => exact (hf a).eq t (Nat.lt_of_lt_of_le (h.lt s a t hrun) (Nat.le_of_lt_succ hlt))
  | error e t => rfl

instance map (g : α → β) [h : Agrees left n m m'] : Agrees left n (g <$> m) (g <$> m') := by
  constructor
  intro s hlt
  rw [run_map, run_map, h.eq s hlt]

instance ite {c : Prop} [Decidable c] [Agrees left n m m'] [Agrees left n k k'] :
    Agrees left n (if c then m else k) (if c then m' else k') := by
  split <;> assumption

instance adaptExcept {δ : Type} (g : ε → δ) [h : Agrees left n m m'] :
    Agrees left n (m.adaptExcept g) (m'.adaptExcept g) := by
  constructor
  intro s hlt
  show EStateM.adaptExcept g m s = EStateM.adaptExcept g m' s
  unfold EStateM.adaptExcept
  rw [show m s = m' s from h.eq s hlt]

instance readN [Agrees left n m m'] [Shrinks left m'] (k : Nat) [∀ j, Shrinks left (Lib.readN m' j)] :
    Agrees left n (Lib.readN m k) (Lib.readN m' k) := by
  induction k with
  | zero => exact .refl
  | succ k ih =>
    unfold Lib.readN
    infer_instance

end Agrees

end GoAmqp.Lib
