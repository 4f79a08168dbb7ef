import GoAmqp.Lib.Outcome
import GoAmqp.Encoding.Layout

set_option autoImplicit false

/-! # The bounds of the scanners are never reached

A scanner goes forward: what it leaves is no longer than what it was given, and a scanner of a value
passes over at least its type code. So a bound above the number of bytes left is enough for the
nesting of values and for the rounds of a map. `Forward k` and `Advances k` say this for inputs of
less than `k` bytes, which is all that a value nested in a value of `k` bytes needs. -/

namespace GoAmqp.Layout

open Lib Outcome

/-- On less than `k` bytes `sc` goes forward and does not reach a bound. -/
def Forward {α : Type} (k : Nat) (sc : Scanner α) : Prop :=
  ∀ bs : Bytes, bs.length < k → Outcome sc bs (fun _ rest => rest.length ≤ bs.length) (· ≠ .exhausted)

/-- `Forward`, by at least one byte. -/
def Advances {α : Type} (k : Nat) (sc : Scanner α) : Prop :=
  ∀ bs : Bytes, bs.length < k → Outcome sc bs (fun _ rest => rest.length < bs.length) (· ≠ .exhausted)

section Rules

variable {α β : Type} {k : Nat} {sc : Scanner α}

theorem Advances.forward (h : Advances k sc) : Forward k sc :=
  fun bs hbs => (h bs hbs).mono (fun _ _ hlt => Nat.le_of_lt hlt) fun _ he => he

/-- What holds for longer inputs holds for shorter ones. -/
theorem Advances.shorter (h : Advances (k + 1) sc) : Forward k sc :=
  fun bs hbs => h.forward bs (Nat.lt_succ_of_lt hbs)

theorem Forward.pure (a : α) : Forward k (Pure.pure a) := fun _ _ => Nat.le_refl _

theorem advances_malformed : Advances k (malformed : Scanner α) :=
  fun _ _ => throw_iff.mpr (by decide)

theorem forward_malformed : Forward k (malformed : Scanner α) := advances_malformed.forward

theorem Forward.bind {f : α → Scanner β} (h : Forward k sc) (hf : ∀ a, Forward k (f a)) : Forward k (sc >>= f) := by
  intro bs hbs
  refine (h bs hbs).bind fun a rest hrest => ?_
  exact (hf a rest (by omega)).mono (fun _ _ hle => Nat.le_trans hle hrest) fun _ he => he

/-- After a step that advances, less is left. -/
theorem Advances.bind {f : α → Scanner β} (h : Advances (k + 1) sc) (hf : ∀ a, Forward k (f a)) :
    Advances (k + 1) (sc >>= f) := by
  intro bs hbs
  refine (h bs hbs).bind fun a rest hrest => ?_
  exact (hf a rest (by omega)).mono (fun _ _ hle => Nat.lt_of_le_of_lt hle hrest) fun _ he => he

theorem Advances.bind_pure {f : α → β} (h : Advances k sc) : Advances k (do let a ← sc; Pure.pure (f a)) :=
  fun bs hbs => (h bs hbs).bind fun _ _ hrest => hrest

theorem Forward.ite {c : Prop} [Decidable c] {sc' : Scanner α} (ht : Forward k sc)
    (hf : Forward k sc') : Forward k (if c then sc else sc') := by
  split
  · exact ht
  · exact hf

theorem Advances.ite {c : Prop} [Decidable c] {sc' : Scanner α} (ht : Advances k sc)
    (hf : Advances k sc') : Advances k (if c then sc else sc') := by
  split
  · exact ht
  · exact hf

theorem Forward.map {f : α → β} (h : Forward k sc) : Forward k (f <$> sc) := by
  rw [map_eq_pure_bind]
  exact h.bind fun _ => .pure _

theorem Forward.times {sc : Scanner Unit} (h : Forward k sc) (n : Nat) : Forward k (times sc n) := by
  induction n with
  | zero => exact .pure ()
  | succ n ih => exact h.bind fun _ => ih

end Rules

/-! ## Bytes and scalars -/

section Scalars

variable {k : Nat}

theorem forward_remaining : Forward k remaining := fun _ _ => Nat.le_refl _

theorem forward_take (n : Nat) : Forward k (take n) := by
  intro bs _
  refine bind_iff.mpr (get_iff.mpr ?_)
  refine ite (fun _ => ?_) fun _ => throw_iff.mpr (by decide)
  show (bs.drop n).length ≤ bs.length
  rw [List.length_drop]
  omega

theorem advances_byte : Advances k byte := by
  intro bs _
  cases bs with
  | nil => exact fun h => by cases h
  | cons b bs => exact Nat.lt_succ_self _

theorem forward_null : Forward k null := by
  intro bs _
  refine bind_iff.mpr (get_iff.mpr ?_)
  refine ite (fun _ => ?_) fun _ => Nat.le_refl _
  show bs.tail.length ≤ bs.length
  rw [List.length_tail]
  omega

theorem forward_payload (code : UInt8) : Forward k (payload code) := by
  unfold payload
  split
  · exact forward_take _
  · exact ((forward_take _).map).bind fun n => forward_take n

theorem advances_scalar (codes : List UInt8) : Advances (k + 1) (scalar codes) :=
  advances_byte.bind fun t => .ite (forward_payload t) forward_malformed

theorem forward_scalar (codes : List UInt8) : Forward k (scalar codes) := (advances_scalar codes).shorter

theorem forward_sizes (w left : Nat) : Forward k (sizes w left) :=
  (forward_take _).bind fun _ => .ite forward_malformed (.pure _)

theorem advances_listCount : Advances (k + 1) listCount :=
  advances_byte.bind fun _ => forward_remaining.bind fun _ =>
    .ite (.pure _) (.ite (forward_sizes _ _) (.ite (forward_sizes _ _) forward_malformed))

theorem advances_arrayCount : Advances (k + 1) arrayCount :=
  advances_byte.bind fun _ => forward_remaining.bind fun _ =>
    .ite (forward_sizes _ _) (.ite (forward_sizes _ _) forward_malformed)

theorem advances_mapCount : Advances (k + 1) mapCount :=
  advances_byte.bind fun _ => forward_remaining.bind fun _ =>
    Forward.bind (.ite (forward_sizes _ _) (.ite (forward_sizes _ _) forward_malformed)) fun _ =>
      forward_remaining.bind fun _ => .ite forward_malformed (.pure _)

theorem forward_elements (code : UInt8) (left n : Nat) : Forward k (elements code left n) := by
  unfold elements
  split
  · exact (forward_take _).bind fun _ => .pure _
  · exact .ite forward_malformed (.times ((forward_payload code).bind fun _ => .pure _) n)

theorem advances_array (codes : List UInt8) : Advances (k + 1) (array codes) :=
  advances_arrayCount.bind fun _ => forward_remaining.bind fun _ =>
    advances_byte.forward.bind fun _ => .ite (forward_elements _ _ _) forward_malformed

theorem advances_recordHeader : Advances (k + 1) recordHeader :=
  advances_byte.bind fun _ => .ite forward_malformed
    (((forward_scalar ulongCodes).map).bind fun _ => advances_listCount.shorter.bind fun _ => .pure _)

end Scalars

/-! ## Maps and records -/

section Compounds

variable {k : Nat}

/-- A round of a map passes over a byte at least, so the rounds end before the bound. -/
theorem outcome_entries {round : Scanner Unit} (h : Advances k round) (bound : Nat) (i n : UInt32)
    (bs : Bytes) (hbs : bs.length < k) (hbound : bs.length < bound) :
    Outcome (entries round bound i n) bs (fun _ rest => rest.length ≤ bs.length)
      (· ≠ .exhausted) := by
  induction bound generalizing i bs with
  | zero => omega
  | succ bound ih =>
    refine .ite (fun _ => ?_) fun _ => Nat.le_refl _
    refine (h bs hbs).bind fun _ rest hrest => ?_
    refine (ih (i + 2) rest (by omega) (by omega)).mono ?_ fun _ he => he
    intro _ rest' hrest'
    exact Nat.le_trans hrest' (Nat.le_of_lt hrest)

theorem advances_map {round : Scanner Unit} (h : Advances k round) : Advances (k + 1) (map round) := by
  refine advances_mapCount.bind fun n bs hbs => ?_
  exact outcome_entries h (bs.length + 1) 0 _ bs hbs (Nat.lt_succ_self _)

@[simp] theorem forward_optional {α : Type} {sc : Scanner α} : Forward k (optional sc).scan ↔ Forward k sc :=
  forall₂_congr fun _ _ => bind_iff

@[simp] theorem forward_mandatory {α : Type} {sc : Scanner α} : Forward k (mandatory sc).scan ↔ Forward k sc :=
  forall₂_congr fun _ _ => bind_iff

theorem Field.forward_absent (f : Field) : Forward k f.absent := .ite forward_malformed (.pure _)

theorem forward_fields {fs : List Field} (h : ∀ f ∈ fs, Forward k f.scan) (n : Nat) : Forward k (fields fs n) := by
  induction fs generalizing n with
  | nil => exact .pure ()
  | cons f fs ih =>
    have hrest := ih fun g hg => h g (List.mem_cons_of_mem _ hg)
    cases n with
    | zero => exact f.forward_absent.bind fun _ => hrest 0
    | succ n =>
      refine Forward.bind ?_ fun _ => hrest n
      exact forward_null.bind fun _ => .ite f.forward_absent (h f (List.mem_cons_self ..))

theorem advances_record {fs : List Field} (h : ∀ f ∈ fs, Forward k f.scan) (code : UInt8) :
    Advances (k + 1) (record code fs) :=
  advances_recordHeader.bind fun ⟨_, n⟩ =>
    .ite forward_malformed (.ite forward_malformed (forward_fields h n))

end Compounds

/-! ## Values of any type -/

section Any

variable {k : Nat} {any : Scanner KeyClass}

variable (hany : Advances k any)

include hany

theorem advances_entry {f : KeyClass → Scanner Unit} (hf : ∀ c, Forward k (f c)) :
    Advances k (do
      let key ← any
      let _ ← any
      f key) := by
  intro bs hbs
  refine (hany bs hbs).bind fun key rest hrest => ?_
  refine ((hany.forward.bind fun _ => hf key) rest (by omega)).mono ?_ fun _ he => he
  exact fun _ _ hle => Nat.lt_of_le_of_lt hle hrest

theorem advances_anyEntry : Advances k (anyEntry any) := by
  refine advances_entry hany fun c => ?_
  cases c with
  | hashable => exact .pure ()
  | holder => exact fun _ _ => throw_iff.mpr (by decide)
  | compound => exact forward_malformed

theorem advances_annotations : Advances (k + 1) (annotations any) := by
  refine advances_map (advances_entry hany fun c => ?_)
  cases c with
  | hashable => exact .pure ()
  | holder => exact fun _ _ => throw_iff.mpr (by decide)
  | compound => exact fun _ _ => throw_iff.mpr (by decide)

omit hany in
/-- A round that reads a string or symbol key first. -/
theorem advances_keyed {sc : Scanner Unit} (h : Forward k sc) : Advances k (do
    let _ ← scalar textCodes
    sc) := by
  intro bs hbs
  refine (advances_scalar textCodes bs (Nat.lt_succ_of_lt hbs)).bind fun _ rest hrest => ?_
  refine (h rest (by omega)).mono ?_ fun _ he => he
  exact fun _ _ hle => Nat.lt_of_le_of_lt hle hrest

theorem advances_stringMap : Advances (k + 1) (stringMap any) :=
  advances_map (advances_keyed (hany.forward.bind fun _ => .pure _))

theorem advances_list : Advances (k + 1) (list any) :=
  advances_listCount.bind fun n => forward_remaining.bind fun _ =>
    .ite forward_malformed (.times (hany.forward.bind fun _ => .pure _) n)

theorem forward_nullable : Forward k (nullable any) := forward_null.bind fun _ => .ite (.pure _) hany.forward

theorem advances_described : Advances (k + 1) (described any) :=
  advances_byte.bind fun _ => .ite forward_malformed
    ((forward_nullable hany).bind fun _ => (forward_nullable hany).bind fun _ => .pure _)

theorem advances_error : Advances (k + 1) (error any) :=
  advances_record (by simp [forward_scalar, (advances_stringMap hany).shorter]) _

theorem advances_state (code : UInt8) : Advances (k + 1) (state any code) := by
  refine .ite (advances_record (by simp) _) (.ite (advances_record ?_ _) (.ite (advances_record ?_ _)
    (.ite (advances_record ?_ _) advances_malformed)))
  · simp [forward_scalar, (advances_annotations hany).shorter]
  · simp [forward_scalar]
  · simp [(advances_error hany).shorter]

theorem advances_deliveryState : Advances (k + 1) (deliveryState any) := by
  intro bs hbs
  refine bind_iff.mpr (get_iff.mpr ?_)
  split
  · exact advances_malformed bs hbs
  · exact advances_state hany _ bs hbs

theorem advances_composite : Advances (k + 1) (composite any) := by
  intro bs hbs
  refine bind_iff.mpr (get_iff.mpr ?_)
  split
  · exact advances_malformed bs hbs
  · next d _ =>
    have hlifetime : Advances (k + 1) lifetimePolicy :=
      advances_recordHeader.bind fun _ => .ite forward_malformed (.pure _)
    have hof : Advances (k + 1) (compositeOf any d) :=
      .ite (advances_described hany) (.ite ((advances_error hany).bind_pure)
        (.ite hlifetime.bind_pure (.ite ((advances_state hany _).bind_pure)
          (.ite advances_malformed (advances_described hany)))))
    exact hof bs hbs

theorem advances_anyOf (t : UInt8) : Advances (k + 1) (anyOf any t) :=
  .ite (advances_composite hany) (.ite (advances_scalar _).bind_pure (.ite (advances_scalar _).bind_pure
    (.ite (advances_array _).bind_pure (.ite (advances_list hany).bind_pure
      (.ite (advances_map (advances_anyEntry hany)).bind_pure advances_malformed)))))

theorem advances_anyBody : Advances (k + 1) (anyBody any) := by
  intro bs hbs
  refine bind_iff.mpr (bind_iff.mpr (get_iff.mpr ?_))
  by_cases hnull : bs.head? = some TypeCode.null
  · rw [if_pos hnull]
    cases bs with
    | nil => cases hnull
    | cons b bs => exact Nat.lt_succ_self _
  · rw [if_neg hnull]
    cases bs with
    | nil => exact advances_malformed (α := KeyClass) [] hbs
    | cons t bs => exact advances_anyOf hany t (t :: bs) hbs

end Any

/-- Less than `depth` bytes hold less than `depth` nested values. -/
theorem advances_anyDepth (depth : Nat) : Advances depth (anyDepth depth) := by
  induction depth with
  | zero => exact fun bs hbs => absurd hbs (Nat.not_lt_zero _)
  | succ depth ih => exact advances_anyBody ih

theorem advances_any (k : Nat) : Advances k any := by
  intro bs _
  have hleft : remaining.run bs = .ok bs.length bs := rfl
  refine bind_iff.mpr ((of_ok hleft).mpr ?_)
  exact advances_anyDepth (bs.length + 1) bs (Nat.lt_succ_self _)

theorem forward_multiSymbol (k : Nat) : Forward k multiSymbol := by
  refine Forward.bind (fun _ _ => Nat.le_refl _) fun bs => .ite ?_ (advances_array _).shorter
  exact (forward_scalar _).bind fun _ => .pure _

end GoAmqp.Layout
