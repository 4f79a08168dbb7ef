import Mathlib.Tactic.Common

set_option autoImplicit false

/-! # Computations in step

Two stateful computations are in step when, from related states, both return, with related results
and related states, or both stop with an error, and the errors are related. So whatever is known of
how one of them ends is known of the other. -/

namespace GoAmqp.Lib

open EStateM

variable {ε δ σ τ α β γ κ : Type}

/-- The two results of a pair of runs agree. -/
def Agree (S : σ → τ → Prop) (E : ε → δ → Prop) (R : α → β → Prop) :
    Result ε σ α → Result δ τ β → Prop
  | .ok a s, .ok b t => S s t ∧ R a b
  | .error e _, .error d _ => E e d
  | _, _ => False

/-- `m` from `s` and `n` from `t` are in step. -/
def InStepAt (S : σ → τ → Prop) (E : ε → δ → Prop) (R : α → β → Prop) (m : EStateM ε σ α) (s : σ)
    (n : EStateM δ τ β) (t : τ) : Prop :=
  Agree S E R (m.run s) (n.run t)

/-- `m` and `n` are in step from all related states. -/
def InStep (S : σ → τ → Prop) (E : ε → δ → Prop) (R : α → β → Prop) (m : EStateM ε σ α)
    (n : EStateM δ τ β) : Prop :=
  ∀ s t, S s t → InStepAt S E R m s n t

variable {S : σ → τ → Prop} {E : ε → δ → Prop} {R : α → β → Prop} {Q : γ → κ → Prop}
  {m : EStateM ε σ α} {n : EStateM δ τ β}

/-- A run whose result and state are repacked. -/
def repack {ρ : Type} (f : α → σ → γ) (g : α → σ → ρ) (k : σ → ρ) :
    Result ε σ α → Result ε ρ γ
  | .ok a s => .ok (f a s) (g a s)
  | .error e s => .error e (k s)

theorem Agree.repack {ρ : Type} {P : ρ → τ → Prop} {V : γ → β → Prop} {x : Result ε σ α}
    {y : Result δ τ β} (h : Agree S E R x y) {f : α → σ → γ} {g : α → σ → ρ} {k : σ → ρ}
    (hok : ∀ a s b t, S s t → R a b → P (g a s) t ∧ V (f a s) b) : Agree P E V (repack f g k x) y := by
  cases x <;> cases y
  · exact hok _ _ _ _ h.1 h.2
  · exact h
  · exact h
  · exact h

variable {f : α → EStateM ε σ γ} {g : β → EStateM δ τ κ}

namespace InStepAt

variable {s : σ} {t : τ}

theorem bind (h : InStepAt S E R m s n t) (hf : ∀ a b s' t', R a b → S s' t' → InStepAt S E Q (f a) s' (g b) t') :
    InStepAt S E Q (m >>= f) s (n >>= g) t := by
  unfold InStepAt at *
  rw [run_bind, run_bind]
  cases hm : m.run s with
  | ok a s' =>
    cases hn : n.run t with
    | ok b t' =>
      rw [hm, hn] at h
      exact hf a b s' t' h.2 h.1
    | error d t' => rw [hm, hn] at h; exact h.elim
  | error e s' =>
    cases hn : n.run t with
    | ok b t' => rw [hm, hn] at h; exact h.elim
    | error d t' => rw [hm, hn] at h; exact h

theorem mono {R' : α → β → Prop} (h : InStepAt S E R m s n t) (hR : ∀ a b, R a b → R' a b) :
    InStepAt S E R' m s n t := by
  unfold InStepAt at *
  cases hm : m.run s <;> cases hn : n.run t <;> rw [hm, hn] at h
  · exact ⟨h.1, hR _ _ h.2⟩
  · exact h
  · exact h
  · exact h

/-- A pure step on the left. -/
theorem bind_left {n : EStateM δ τ κ} {a : α} {s' : σ} (hm : m.run s = .ok a s')
    (h : InStepAt S E Q (f a) s' n t) : InStepAt S E Q (m >>= f) s n t := by
  unfold InStepAt at *
  rw [run_bind, hm]
  exact h

/-- A pure step on the right. -/
theorem bind_right {m : EStateM ε σ γ} {b : β} {u : τ} (hn : n.run t = .ok b u)
    (h : InStepAt S E Q m s (g b) u) : InStepAt S E Q m s (n >>= g) t := by
  unfold InStepAt at *
  rw [run_bind, hn]
  exact h

theorem ite {c d : Prop} [Decidable c] [Decidable d] {m' : EStateM ε σ α} {n' : EStateM δ τ β}
    (hcd : c ↔ d) (ht : c → InStepAt S E R m s n t) (hf : ¬ c → InStepAt S E R m' s n' t) :
    InStepAt S E R (if c then m else m') s (if d then n else n') t := by
  by_cases hc : c
  · rw [if_pos hc, if_pos (hcd.mp hc)]
    exact ht hc
  · rw [if_neg hc, if_neg (mt hcd.mpr hc)]
    exact hf hc

end InStepAt

namespace InStep

theorem pure {a : α} {b : β} (h : R a b) : InStep S E R (Pure.pure a) (Pure.pure b) :=
  fun _ _ hs => ⟨hs, h⟩

theorem throw {e : ε} {d : δ} (h : E e d) : InStep S E R (MonadExcept.throw e) (MonadExcept.throw d) :=
  fun _ _ _ => h

theorem bind (h : InStep S E R m n) (hf : ∀ a b, R a b → InStep S E Q (f a) (g b))
    : InStep S E Q (m >>= f) (n >>= g) :=
  fun s t hs => (h s t hs).bind fun a b s' t' hab hs' => hf a b hab s' t' hs'

/-- The result on the right is determined by the one on the left. -/
theorem bind_eq {F : α → β} (h : InStep S E (fun a b => F a = b) m n)
    (hf : ∀ a, InStep S E Q (f a) (g (F a))) : InStep S E Q (m >>= f) (n >>= g) := by
  refine h.bind ?_
  rintro a _ rfl
  exact hf a

theorem mono {R' : α → β → Prop} (h : InStep S E R m n) (hR : ∀ a b, R a b → R' a b) : InStep S E R' m n :=
  fun s t hs => (h s t hs).mono hR

/-- The left side computes something from its result. -/
theorem map_left {f : α → γ} {R' : γ → β → Prop} (h : InStep S E R m n)
    (hf : ∀ a b, R a b → R' (f a) b) : InStep S E R' (f <$> m) n := by
  have hbind := h.bind (f := fun a => Pure.pure (f a)) (g := Pure.pure) fun a b hab => pure (hf a b hab)
  rwa [bind_pure, ← map_eq_pure_bind] at hbind

theorem ite {c d : Prop} [Decidable c] [Decidable d] {m' : EStateM ε σ α} {n' : EStateM δ τ β}
    (hcd : c ↔ d) (ht : c → InStep S E R m n) (hf : ¬ c → InStep S E R m' n') :
    InStep S E R (if c then m else m') (if d then n else n') :=
  fun s t hs => InStepAt.ite hcd (fun hc => ht hc s t hs) fun hc => hf hc s t hs

end InStep

end GoAmqp.Lib
