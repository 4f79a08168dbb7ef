import Mathlib.Algebra.GroupWithZero.Nat
import Mathlib.Tactic.Common

set_option autoImplicit false

/-! # Exact covers

A list of keys, each with a value, is divided into parts: every key is in exactly one part, and a part
has one value, that of all its keys. A part covers keys by any relation. Keys are added one by one, to
a part that is there or as a part of their own; which parts are there is all that counts, not their
order.

The parts meant are ranges of serial numbers, which may pass the largest number. -/

namespace GoAmqp.Lib

open List

universe u v w

variable {P : Type u} {K : Type v} {V : Type w}

/-- No key is in both parts. -/
def Apart (covers : P → K → Prop) (p q : P) : Prop := ∀ k, covers p k → ¬ covers q k

theorem Apart.symm {covers : P → K → Prop} {p q : P} (h : Apart covers p q) : Apart covers q p :=
  fun k hq hp => h k hp hq

/-- The parts divide the entries. -/
structure ExactCover (covers : P → K → Prop) (value : P → V) (parts : List P) (entries : List (K × V)) : Prop where
  apart : parts.Pairwise (Apart covers)
  sound : ∀ p ∈ parts, ∀ k, covers p k → (k, value p) ∈ entries
  complete : ∀ e ∈ entries, ∃ p ∈ parts, covers p e.1

namespace ExactCover

variable {covers : P → K → Prop} {value : P → V} {parts : List P} {entries : List (K × V)} {k : K}

theorem nil : ExactCover covers value [] [] :=
  ⟨.nil, fun _ h => absurd h not_mem_nil, fun _ h => absurd h not_mem_nil⟩

theorem perm (h : ExactCover covers value parts entries) {parts' : List P} (hperm : parts.Perm parts') :
    ExactCover covers value parts' entries := by
  refine ⟨(hperm.pairwise_iff Apart.symm).mp h.apart, ?_, ?_⟩
  · intro p hp
    exact h.sound p (hperm.mem_iff.mpr hp)
  · intro e he
    obtain ⟨p, hp, hcovers⟩ := h.complete e he
    exact ⟨p, hperm.mem_iff.mp hp, hcovers⟩

/-- A key without an entry is in no part. -/
theorem not_covers (h : ExactCover covers value parts entries) (hnew : k ∉ entries.map Prod.fst) {p : P}
    (hp : p ∈ parts) : ¬ covers p k :=
  fun hcovers => hnew (mem_map_of_mem (f := Prod.fst) (h.sound p hp k hcovers))

/-- A part with more keys, in the place of the first one. -/
theorem grow {p q : P} (h : ExactCover covers value (p :: parts) entries) (hnew : k ∉ entries.map Prod.fst)
    (hcovers : ∀ i, covers q i ↔ covers p i ∨ i = k) (hvalue : value q = value p) :
    ExactCover covers value (q :: parts) ((k, value q) :: entries) := by
  obtain ⟨hfirst, hrest⟩ := pairwise_cons.mp h.apart
  refine ⟨pairwise_cons.mpr ⟨?_, hrest⟩, ?_, ?_⟩
  · intro r hr i hi
    rcases (hcovers i).mp hi with hi | rfl
    · exact hfirst r hr i hi
    · exact h.not_covers hnew (mem_cons_of_mem _ hr)
  · intro r hr i hi
    rcases mem_cons.mp hr with rfl | hr
    · rcases (hcovers i).mp hi with hi | rfl
      · rw [hvalue]
        exact mem_cons_of_mem _ (h.sound p mem_cons_self i hi)
      · exact mem_cons_self
    · exact mem_cons_of_mem _ (h.sound r (mem_cons_of_mem _ hr) i hi)
  · intro e he
    rcases mem_cons.mp he with rfl | he
    · exact ⟨q, mem_cons_self, (hcovers k).mpr (.inr rfl)⟩
    · obtain ⟨r, hr, hi⟩ := h.complete e he
      rcases mem_cons.mp hr with rfl | hr
      · exact ⟨q, mem_cons_self, (hcovers _).mpr (.inl hi)⟩
      · exact ⟨r, mem_cons_of_mem _ hr, hi⟩

/-- A part of its own. -/
theorem cons {p : P} (h : ExactCover covers value parts entries) (hnew : k ∉ entries.map Prod.fst)
    (hcovers : ∀ i, covers p i ↔ i = k) : ExactCover covers value (p :: parts) ((k, value p) :: entries) := by
  refine ⟨pairwise_cons.mpr ⟨?_, h.apart⟩, ?_, ?_⟩
  · intro q hq i hi
    rw [(hcovers i).mp hi]
    exact h.not_covers hnew hq
  · intro q hq i hi
    rcases mem_cons.mp hq with rfl | hq
    · rw [(hcovers i).mp hi]
      exact mem_cons_self
    · exact mem_cons_of_mem _ (h.sound q hq i hi)
  · intro e he
    rcases mem_cons.mp he with rfl | he
    · exact ⟨p, mem_cons_self, (hcovers k).mpr rfl⟩
    · obtain ⟨q, hq, hi⟩ := h.complete e he
      exact ⟨q, mem_cons_of_mem _ hq, hi⟩

end ExactCover

/-! ## Ranges of serial numbers -/

/-- The serial number is in the range, which may pass the largest number. -/
def Within (first last n : UInt32) : Prop := n - first ≤ last - first

instance (first last n : UInt32) : Decidable (Within first last n) := inferInstanceAs (Decidable (_ ≤ _))

theorem within_first (first last : UInt32) : Within first last first := by
  rw [Within, UInt32.sub_self]
  exact UInt32.zero_le

theorem within_singleton {first n : UInt32} : Within first first n ↔ n = first := by
  have hzero : n - first = 0 ↔ n = first := by grind
  simp [Within, hzero]

/-- A range that is not the whole circle grows by one number. -/
theorem within_succ {first last n : UInt32} (h : (last - first).toNat + 1 < 2 ^ 32) :
    Within first (last + 1) n ↔ Within first last n ∨ n = last + 1 := by
  have hlen : last + 1 - first = last - first + 1 := by grind
  have hnext : n = last + 1 ↔ n - first = last - first + 1 := by grind
  rw [Within, Within, hnext, hlen, UInt32.le_iff_toNat_le, UInt32.le_iff_toNat_le, ← UInt32.toNat_inj,
    UInt32.toNat_add, UInt32.toNat_one, Nat.mod_eq_of_lt h]
  omega

end GoAmqp.Lib
