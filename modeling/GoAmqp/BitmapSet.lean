import GoAmqp.Bitmap
import GoAmqp.Lib.Transition
import Mathlib.Order.Bounds.Basic

set_option autoImplicit false

/-! # A bitmap is a set of numbers

What the callers of `internal/bitmap` rely on: the bitmap is a set of numbers up to `max`, and `Next` takes
the least one that is not in it. `SetStep` says this without words and bits. Every sequence of calls on a
new bitmap is one on the empty set, with the same answers. -/

namespace GoAmqp

open Lib

/-- A call of one of the three methods. -/
inductive BitmapCall where
  | add (n : UInt32)
  | remove (n : UInt32)
  | next

/-- The calls on a set of numbers up to `max`. An event is the answer of `Next`; its number means nothing
    when there is none. -/
inductive SetStep (max : UInt32) (S : Set UInt32) : BitmapCall × List (UInt32 × Bool) → Set UInt32 → Prop
  | add (n : UInt32) : n ≤ max → SetStep max S (.add n, []) (insert n S)
  | addBeyond (n : UInt32) : max < n → SetStep max S (.add n, []) S
  | remove (n : UInt32) : SetStep max S (.remove n, []) (S \ {n})
  | next (n : UInt32) : IsLeast {m | m ≤ max ∧ m ∉ S} n → SetStep max S (.next, [(n, true)]) (insert n S)
  | full (n : UInt32) : (∀ m ≤ max, m ∈ S) → SetStep max S (.next, [(n, false)]) S

namespace Bitmap

/-- One call, with the number and the answer of `Next`. -/
def step (b : Bitmap) : BitmapCall → Option (Bitmap × List (UInt32 × Bool))
  | .add n => some (b.add n, [])
  | .remove n => some (b.remove n, [])
  | .next => some (b.next.2.2, [(b.next.1, b.next.2.1)])

/-- The set that the bitmap stands for. -/
def members (b : Bitmap) : Set UInt32 := {n | b.has n = true}

/-- The bitmap stands for the set, which has no number above `max`. -/
structure StandsFor (max : UInt32) (b : Bitmap) (S : Set UInt32) : Prop where
  max_eq : b.max = max
  members_eq : b.members = S
  bounded : ∀ n ∈ S, n ≤ max

variable {max : UInt32} {b b' : Bitmap} {S : Set UInt32}

theorem standsFor_new (max : UInt32) : StandsFor max (.new max) ∅ := by
  refine ⟨rfl, ?_, fun n hn => absurd hn (Set.notMem_empty n)⟩
  ext n
  simp [members]

theorem members_add (n : UInt32) : (b.add n).members = {m | m ∈ b.members ∨ m = n ∧ n ≤ b.max} := by
  ext m
  simp [members, has_add]

theorem max_add (n : UInt32) : (b.add n).max = b.max := by
  unfold add
  split <;> rfl

theorem StandsFor.add (h : StandsFor max b S) (n : UInt32) :
    ∃ S', SetStep max S (.add n, []) S' ∧ StandsFor max (b.add n) S' := by
  obtain ⟨rfl, rfl, hbounded⟩ := h
  by_cases hn : n ≤ b.max
  · refine ⟨insert n b.members, .add n hn, max_add n, ?_, ?_⟩
    · ext m
      simp [members_add, hn, or_comm]
    · rintro m (rfl | hm)
      · exact hn
      · exact hbounded m hm
  · refine ⟨b.members, .addBeyond n (UInt32.not_le.mp hn), max_add n, ?_, hbounded⟩
    ext m
    simp [members_add, hn]

theorem StandsFor.remove (h : StandsFor max b S) (n : UInt32) :
    ∃ S', SetStep max S (.remove n, []) S' ∧ StandsFor max (b.remove n) S' := by
  obtain ⟨rfl, rfl, hbounded⟩ := h
  refine ⟨b.members \ {n}, .remove n, rfl, ?_, fun m hm => hbounded m hm.1⟩
  ext m
  simp [members, has_remove]

/-- A number is free for `Next` if it is not in the set. -/
theorem StandsFor.next (h : StandsFor max b S) :
    ∃ S', SetStep max S (.next, [(b.next.1, b.next.2.1)]) S' ∧ StandsFor max b.next.2.2 S' := by
  obtain ⟨rfl, rfl, hbounded⟩ := h
  rcases hnext : b.next with ⟨n, ok, b'⟩
  cases ok with
  | true =>
    obtain ⟨hfree, hadded⟩ := next_spec hnext
    obtain ⟨hle, hmax⟩ := next_le hnext
    refine ⟨insert n b.members, .next n ⟨⟨hle, by simp [members, hfree]⟩, fun m hm => ?_⟩, hmax, ?_, ?_⟩
    · -- a smaller number is taken
      refine UInt32.not_lt.mp fun hlt => hm.2 ?_
      exact next_least hnext hlt
    · ext m
      simp [members, hadded, or_comm]
    · rintro m (rfl | hm)
      · exact hle
      · exact hbounded m hm
  | false =>
    obtain ⟨rfl, hfull⟩ := next_full hnext
    exact ⟨b'.members, .full n hfull, rfl, rfl, hbounded⟩

theorem StandsFor.step (h : StandsFor max b S) {l : BitmapCall × List (UInt32 × Bool)}
    (hstep : Fires Bitmap.step b l b') : ∃ S', SetStep max S l S' ∧ StandsFor max b' S' := by
  obtain ⟨call, events⟩ := l
  cases call <;> cases hstep
  · exact h.add _
  · exact h.remove _
  · exact h.next

/-- What the code computes with indices: the word of a bit that is set or looked at is there, and the
    numbers that are converted to 32 bits fit. -/
structure InRange (b : Bitmap) : Prop where
  added : ∀ n, n.toNat / 64 < (grow b.bits n).length
  found : ∀ i offset, firstUnset b.bits 0 = some (i, offset) →
    i < b.bits.length ∧ (UInt32.ofNat (i * 64 + offset)).toNat = i * 64 + offset
  appended : b.bits.length * 64 ≤ b.max.toNat → (UInt32.ofNat b.bits.length * 64).toNat = b.bits.length * 64

theorem inRange (b : Bitmap) : InRange b := by
  have hmax : b.max.toNat < 2 ^ 32 := b.max.toNat_lt
  have hfits := b.fits
  refine ⟨lt_length_grow b.bits, fun i offset hfirst => ?_, fun hle => ?_⟩
  · obtain ⟨k, hi, hk, ho, -⟩ := firstUnset_spec hfirst
    rw [Nat.zero_add] at hi
    subst hi
    exact ⟨hk, UInt32.toNat_ofNat_of_lt' (by simp only [UInt32.size]; omega)⟩
  · rw [UInt32.toNat_mul, UInt32.toNat_ofNat_of_lt' (by simp only [UInt32.size]; omega)]
    exact Nat.mod_eq_of_lt (by simp only [UInt32.toNat_ofNat]; omega)

end Bitmap

/-- **A bitmap refines a set with least-free allocation.** Every sequence of calls on a new bitmap runs to its
    end; on the empty set it gives the same answers and the set that the bitmap stands for, which has no number
    above the maximum. No index is out of range and no conversion loses anything. -/
theorem bitmap_refines_set (max : UInt32) (calls : List BitmapCall) :
    ∃ trace b, exec Bitmap.step [] (.new max) calls = some (trace, b) ∧
      Run (SetStep max) ∅ trace b.members ∧ (∀ n ∈ b.members, n ≤ max) ∧ b.InRange := by
  have htotal (b : Bitmap) (call : BitmapCall) : (b.step call).isSome = true := by cases call <;> rfl
  obtain ⟨⟨trace, b⟩, hexec⟩ := exec_isSome htotal [] (.new max) calls
  have hrun := Run.of_exec calls .start hexec
  obtain ⟨S, habstract, -, rfl, hbounded⟩ :=
    Run.simulates (R := Fires Bitmap.step) (Bitmap.standsFor_new max) (fun _ _ _ _ h => h.step) hrun
  exact ⟨trace, b, hexec, habstract, hbounded, b.inRange⟩

end GoAmqp
