import Mathlib.Algebra.GroupWithZero.Nat

set_option autoImplicit false

/-! # Credit

One party may use something a number of times, up to a limit that another party announces and raises.
Uses and limits are counted without bound here, as natural numbers; the parties keep 32 bits of each.
`Ledger limit used left` is what the user of the credit knows: `left` is the rest of the limit, to 32
bits. `Rising announces lo queue hi` is what is on the way to it: announcements of limits that never
fall, from the limit `lo` it goes by to the limit `hi` of the announcer. -/

namespace GoAmqp.Lib

/-! ## 32-bit serial order -/

/-- `a` comes before `b` as serial numbers: `b` is less than half the number space ahead. -/
def SerialLt (a b : UInt32) : Prop := 0 < (b - a).toNat ∧ (b - a).toNat < 2 ^ 31

instance (a b : UInt32) : Decidable (SerialLt a b) := inferInstanceAs (Decidable (_ ∧ _))

theorem ofNat_succ (n : Nat) : UInt32.ofNat (n + 1) = UInt32.ofNat n + 1 := by
  rw [UInt32.ofNat_add]; rfl

theorem toNat_pos_of_ne_zero {a : UInt32} (h : a ≠ 0) : 0 < a.toNat := by
  rcases Nat.eq_zero_or_pos a.toNat with hz | hpos
  · exact absurd (UInt32.toNat_inj.1 hz) h
  · exact hpos

theorem toNat_sub_one {a : UInt32} (h : a ≠ 0) : (a - 1).toNat = a.toNat - 1 := by
  have hone : (1 : UInt32) ≤ a := UInt32.le_iff_toNat_le.2 (toNat_pos_of_ne_zero h)
  exact UInt32.toNat_sub_of_le a 1 hone

/-! ## The user's side -/

/-- `left` is what `limit` leaves after `used`, in arithmetic that wraps. -/
structure Ledger (limit used : Nat) (left : UInt32) : Prop where
  le : used ≤ limit
  left_eq : left = UInt32.ofNat limit - UInt32.ofNat used

namespace Ledger

variable {limit used : Nat} {left : UInt32}

/-- Credit that has not run out to 32 bits has not run out. -/
theorem lt_of_ne_zero (h : Ledger limit used left) (hleft : left ≠ 0) : used < limit := by
  rcases Nat.lt_or_eq_of_le h.le with hlt | heq
  · exact hlt
  · exact absurd (by rw [h.left_eq, heq]; grind) hleft

/-- One use below the limit. The 32 bits of `left` may be zero: then a multiple of `2 ^ 32` is left. -/
theorem spend (h : Ledger limit used left) (hlt : used < limit) : Ledger limit (used + 1) (left - 1) := by
  refine ⟨hlt, ?_⟩
  rw [h.left_eq, ofNat_succ]
  grind

/-- The credit computed from an announcement of `credit` uses after the first `count`. -/
theorem of_announced {count : Nat} {credit : UInt32} (hle : used ≤ count + credit.toNat) :
    Ledger (count + credit.toNat) used (credit - UInt32.ofNat used + UInt32.ofNat count) := by
  refine ⟨hle, ?_⟩
  rw [UInt32.ofNat_add, UInt32.ofNat_toNat]
  grind

end Ledger

/-! ## Announcements on the way -/

section Rising

variable {α : Type} {announces : α → Nat → Prop}

/-- The announcements in the queue rise from `lo` to `hi`. -/
inductive Rising (announces : α → Nat → Prop) : Nat → List α → Nat → Prop
  | nil {lo hi : Nat} : lo ≤ hi → Rising announces lo [] hi
  | cons {lo mid hi : Nat} {a : α} {queue : List α} :
      announces a mid → lo ≤ mid → Rising announces mid queue hi → Rising announces lo (a :: queue) hi

namespace Rising

variable {lo hi : Nat} {queue front back : List α} {a : α}

theorem le (h : Rising announces lo queue hi) : lo ≤ hi := by
  induction h with
  | nil hle => exact hle
  | cons _ hle _ ih => exact Nat.le_trans hle ih

/-- The user of the credit may go by a lower limit. -/
theorem lower {lo' : Nat} (h : Rising announces lo queue hi) (hle : lo' ≤ lo) : Rising announces lo' queue hi := by
  cases h with
  | nil h => exact .nil (Nat.le_trans hle h)
  | cons ha h htail => exact .cons ha (Nat.le_trans hle h) htail

/-- An announcement is sent: it raises the limit. -/
theorem snoc {hi' : Nat} (h : Rising announces lo queue hi) (ha : announces a hi') (hle : hi ≤ hi') :
    Rising announces lo (queue ++ [a]) hi' := by
  induction h with
  | nil hlo => exact .cons ha (Nat.le_trans hlo hle) (.nil (Nat.le_refl _))
  | cons hb hlo _ ih => exact .cons hb hlo (ih hle)

/-- The limit is raised, and announcements of the new limit are sent. -/
theorem append {hi' : Nat} {sent : List α} (h : Rising announces lo queue hi) (hle : hi ≤ hi')
    (hsent : ∀ a ∈ sent, announces a hi') : Rising announces lo (queue ++ sent) hi' := by
  induction sent generalizing queue hi with
  | nil =>
    rw [List.append_nil]
    induction h with
    | nil hlo => exact .nil (Nat.le_trans hlo hle)
    | cons hb hlo _ ih => exact .cons hb hlo (ih hle)
  | cons a sent ih =>
    rw [List.append_cons]
    exact ih (h.snoc (hsent a (List.mem_cons_self ..)) hle) (Nat.le_refl _)
      (fun b hb => hsent b (List.mem_cons_of_mem _ hb))

/-- The first announcement is lost. -/
theorem tail (h : Rising announces lo (a :: queue) hi) : Rising announces lo queue hi := by
  cases h with
  | cons _ hle htail => exact htail.lower hle

/-- An announcement is lost. -/
theorem drop (h : Rising announces lo (front ++ a :: back) hi) : Rising announces lo (front ++ back) hi := by
  induction front generalizing lo with
  | nil => exact h.tail
  | cons b front ih =>
    cases h with
    | cons hb hle htail => exact .cons hb hle (ih htail)

/-- Something that announces nothing takes a place in the queue. -/
theorem insert (h : Rising announces lo (front ++ back) hi) (ha : ∀ n, announces a n) :
    Rising announces lo (front ++ a :: back) hi := by
  induction front generalizing lo with
  | nil => exact .cons (ha lo) (Nat.le_refl _) h
  | cons b front ih =>
    cases h with
    | cons hb hle htail => exact .cons hb hle (ih htail)

theorem mono {announces' : α → Nat → Prop} (h : Rising announces lo queue hi)
    (himp : ∀ a ∈ queue, ∀ n, announces a n → announces' a n) : Rising announces' lo queue hi := by
  induction h with
  | nil hle => exact .nil hle
  | @cons lo mid hi b queue hb hle _ ih =>
    exact .cons (himp b (List.mem_cons_self ..) mid hb) hle
      (ih fun c hc => himp c (List.mem_cons_of_mem _ hc))

end Rising

end Rising

end GoAmqp.Lib
