import Mathlib.Tactic.Common

set_option autoImplicit false

/-! # Cursor readers

A reader is a state-passing computation `EStateM ε σ α` over a state that has a list of items still
to be read. `Reads m bs rest a` says that `m`, started in front of `bs ++ rest`, returns `a` and
moves past exactly `bs`; the suffix `rest` is a parameter because a reader may look ahead (a length
check against what is left, a peek at the next item). The rules below compose such facts along
`pure`, `bind` and counted loops, so a proof about a decoder follows the decoder's own text. -/

namespace GoAmqp.Lib

@[simp] theorem run_map {ε σ α γ : Type} (f : α → γ) (m : EStateM ε σ α) (s : σ) :
    (f <$> m).run s = match m.run s with
      | .ok a s' => .ok (f a) s'
      | .error e s' => .error e s' := rfl

/-- A state with a list of unread items and a way to move past some of them. `Valid` is whatever
    the state needs for its reads to be in range. -/
class Cursor (σ : Type) (β : outParam Type) where
  unread : σ → List β
  advance : σ → Nat → σ
  Valid : σ → Prop
  unread_advance : ∀ s n, unread (advance s n) = (unread s).drop n
  advance_zero : ∀ s, advance s 0 = s
  advance_add : ∀ s m n, advance (advance s m) n = advance s (m + n)
  valid_advance : ∀ s n, Valid s → n ≤ (unread s).length → Valid (advance s n)

variable {ε σ β α γ : Type} [Cursor σ β]

/-- `m` in front of `bs ++ rest` returns `a` and stops in front of `rest`. -/
def Reads (m : EStateM ε σ α) (bs rest : List β) (a : α) : Prop :=
  ∀ s : σ, Cursor.Valid s → Cursor.unread s = bs ++ rest → m.run s = .ok a (Cursor.advance s bs.length)

variable {m : EStateM ε σ α}

namespace Reads

theorem pure (a : α) (rest : List β) : Reads (Pure.pure a : EStateM ε σ α) [] rest a := by
  intro s _ _
  simp [Cursor.advance_zero]

variable {f : α → EStateM ε σ γ} {rest bs : List β} {a : α} {c : γ}

/-- Sequential composition: the first reader sees the second one's items as part of its rest. -/
theorem bind {bs₁ bs₂ : List β} (hm : Reads m bs₁ (bs₂ ++ rest) a) (hf : Reads (f a) bs₂ rest c) :
    Reads (m >>= f) (bs₁ ++ bs₂) rest c := by
  intro s hv hu
  have hu₁ : Cursor.unread s = bs₁ ++ (bs₂ ++ rest) := by rw [hu, List.append_assoc]
  have hle : bs₁.length ≤ (Cursor.unread s).length := by rw [hu₁]; simp
  have hu₂ : Cursor.unread (Cursor.advance s bs₁.length) = bs₂ ++ rest := by
    rw [Cursor.unread_advance, hu₁, List.drop_left]
  rw [EStateM.run_bind, hm s hv hu₁]
  show (f a).run _ = _
  rw [hf _ (Cursor.valid_advance s _ hv hle) hu₂, Cursor.advance_add, List.length_append]

/-- `bind` when the first reader consumes one item. -/
theorem bind_cons {x : β} (hm : Reads m [x] (bs ++ rest) a) (hf : Reads (f a) bs rest c) :
    Reads (m >>= f) (x :: bs) rest c :=
  bind hm hf

/-- `bind` when the first reader consumes nothing (a peek, a length test). -/
theorem bind_peek (hm : Reads m [] (bs ++ rest) a) (hf : Reads (f a) bs rest c) : Reads (m >>= f) bs rest c :=
  bind hm hf

/-- `bind` when the second reader consumes nothing. -/
theorem bind_pure (hm : Reads m bs rest a) (hf : Reads (f a) [] rest c) : Reads (m >>= f) bs rest c := by
  have h := bind (show Reads m bs ([] ++ rest) a from hm) hf
  rwa [List.append_nil] at h

theorem map (f : α → γ) (hm : Reads m bs rest a) : Reads (f <$> m) bs rest (f a) := by
  rw [map_eq_pure_bind]
  exact bind_pure hm (.pure (f a) rest)

theorem congr {bs' : List β} {a' : α} (hm : Reads m bs rest a) (hbs : bs = bs') (ha : a = a')
    : Reads m bs' rest a' := by
  subst hbs ha
  exact hm

/-- What is left to do behind the first of two readers. -/
theorem run_behind {bs₁ bs₂ : List β} (hm : Reads m bs₁ (bs₂ ++ rest) a) (h : Reads (m >>= f) (bs₁ ++ bs₂) rest c)
    {s : σ} (hv : Cursor.Valid s) (hu : Cursor.unread s = bs₁ ++ (bs₂ ++ rest)) :
    (f a).run (Cursor.advance s bs₁.length) = .ok c (Cursor.advance s (bs₁ ++ bs₂).length) := by
  have hrun := h s hv (by rw [hu, List.append_assoc])
  rw [EStateM.run_bind, hm s hv hu] at hrun
  exact hrun

end Reads

/-! ## Counted loops -/

/-- Run `m` a given number of times, collecting the results. -/
def readN (m : EStateM ε σ α) : Nat → EStateM ε σ (List α)
  | 0 => pure []
  | n + 1 => do
    let x ← m
    let xs ← readN m n
    pure (x :: xs)

/-- A loop of `readN` reads the concatenation of what its rounds read, provided each round reads
    its own item whatever follows it. -/
theorem Reads.readN (enc : γ → List β) (dec : γ → α) (rest : List β) :
    ∀ xs : List γ, (∀ x ∈ xs, ∀ tail, Reads m (enc x) tail (dec x)) →
      Reads (Lib.readN m xs.length) (xs.flatMap enc) rest (xs.map dec)
  | [], _ => .pure _ rest
  | x :: xs, h => by
    have hx := h x (List.mem_cons_self ..) (xs.flatMap enc ++ rest)
    have hxs := Reads.readN enc dec rest xs (fun y hy => h y (List.mem_cons_of_mem _ hy))
    exact hx.bind (hxs.bind_pure (.pure _ rest))

end GoAmqp.Lib
