import Mathlib.Algebra.GroupWithZero.Nat
import Mathlib.Data.List.GetD
import Mathlib.Data.List.Perm.Subperm
import Mathlib.Data.List.Nodup

set_option autoImplicit false

/-! # `internal/bitmap/bitmap.go`

The set of handles (or channels) in use, as the code keeps it: a slice of 64-bit words that grows on
demand. The slice never has more words than `max` needs, which keeps every index computed from it
within 32 bits. -/

namespace GoAmqp

open List

variable {base i offset : Nat} {bits : List UInt64} {m : UInt32}

/-- `bits.TrailingZeros64`. -/
def trailingZeros64 (v : UInt64) : Nat := ((range 64).find? v.toBitVec.getLsbD).getD 64

/-- `Bitmap`: the words never reach past the one that holds `max`. -/
structure Bitmap where
  max : UInt32
  bits : List UInt64
  fits : bits.length ≤ max.toNat / 64 + 1

namespace Bitmap

/-- `New`. -/
def new (max : UInt32) : Bitmap := ⟨max, [], Nat.zero_le _⟩

/-- Whether the bit `n` is set. -/
def has (b : Bitmap) (n : UInt32) : Bool := (b.bits.getD (n.toNat / 64) 0).toBitVec.getLsbD (n.toNat % 64)

@[simp] theorem has_new (max n : UInt32) : (new max).has n = false := by simp [has, new]

/-- `1 << offset`. -/
def bit (offset : Nat) : UInt64 := 1 <<< UInt64.ofNat offset

/-- The words that `Add` needs for `n`. -/
def grow (bits : List UInt64) (n : UInt32) : List UInt64 :=
  if n.toNat / 64 ≥ bits.length then bits ++ replicate (n.toNat / 64 - bits.length + 1) 0 else bits

theorem lt_length_grow (bits : List UInt64) (n : UInt32) : n.toNat / 64 < (grow bits n).length := by
  unfold grow
  split
  · rw [length_append, length_replicate]
    omega
  · omega

theorem length_grow_le {n : UInt32} {k : Nat} (hbits : bits.length ≤ k) (hn : n.toNat / 64 < k) :
    (grow bits n).length ≤ k := by
  unfold grow
  split
  · rw [length_append, length_replicate]
    omega
  · exact hbits

/-- `Add`; a number above `max` is ignored. -/
def add (b : Bitmap) (n : UInt32) : Bitmap :=
  if h : n > b.max then b
  else { b with
    bits := (grow b.bits n).modify (n.toNat / 64) fun v => v ||| bit (n.toNat % 64)
    fits := by
      have hn := Nat.div_le_div_right (c := 64) (UInt32.le_iff_toNat_le.mp (UInt32.not_lt.mp h))
      rw [length_modify]
      exact length_grow_le b.fits (Nat.lt_succ_of_le hn) }

/-- `Remove`; words are never taken away. -/
def remove (b : Bitmap) (n : UInt32) : Bitmap :=
  { b with
    bits := b.bits.modify (n.toNat / 64) fun v => v &&& ~~~ bit (n.toNat % 64)
    fits := by rw [length_modify]; exact b.fits }

/-- `for i, v := range b.bits` of `Next`: the first word that is not full, with its lowest unset bit. -/
def firstUnset : List UInt64 → Nat → Option (Nat × Nat)
  | [], _ => none
  | v :: bits, i => if v = ~~~ 0 then firstUnset bits (i + 1) else some (i, trailingZeros64 (~~~ v))

/-- `Next`: the value and whether there is one. -/
def next (b : Bitmap) : UInt32 × Bool × Bitmap :=
  match firstUnset b.bits 0 with
  | some (i, offset) =>
    if UInt32.ofNat (i * 64 + offset) > b.max then (UInt32.ofNat (i * 64 + offset), false, b)
    else (UInt32.ofNat (i * 64 + offset), true, { b with
      bits := b.bits.modify i fun v => v ||| bit offset
      fits := by rw [length_modify]; exact b.fits })
  | none =>
    if h : b.bits.length * 64 > b.max.toNat then (0, false, b)
    else (UInt32.ofNat b.bits.length * 64, true, { b with
      bits := b.bits ++ [1]
      fits := by
        have := b.fits
        rw [length_append, length_singleton]
        omega })

/-! ## The set of bits -/

theorem getLsbD_bit {j : Nat} (ho : offset < 64) : (bit offset).toBitVec.getLsbD j = decide (j = offset) := by
  have hmod : offset % 18446744073709551616 % (64 : BitVec 64).toNat = offset := by
    rw [show (64 : BitVec 64).toNat = 64 from rfl]; omega
  have hbit : (bit offset).toBitVec = 1#64 <<< offset := by
    simp only [bit, UInt64.toBitVec_shiftLeft, UInt64.toBitVec_ofNat', UInt64.toBitVec_one,
      BitVec.shiftLeft_eq', BitVec.toNat_umod, BitVec.toNat_ofNat, Nat.reducePow, hmod]
  rw [hbit, BitVec.getLsbD_shiftLeft, BitVec.getLsbD_one]
  by_cases hj : j = offset
  · subst hj; simp [ho]
  · simp [hj]; omega

/-- The bits after a word has been changed. -/
theorem getD_modify (bits : List UInt64) (i j : Nat) (f : UInt64 → UInt64) (hi : i < bits.length) :
    (bits.modify i f).getD j 0 = if j = i then f (bits.getD i 0) else bits.getD j 0 := by
  simp only [getD_eq_getElem?_getD, getElem?_modify]
  by_cases hj : j = i
  · subst hj
    simp [hi]
  · simp [hj, Ne.symm hj]

/-- Two numbers are equal when they are the same bit of the same word. -/
theorem eq_iff_word_offset (m n : UInt32) : m = n ↔ m.toNat / 64 = n.toNat / 64 ∧ m.toNat % 64 = n.toNat % 64 := by
  rw [← UInt32.toNat_inj]
  omega

theorem has_remove (b : Bitmap) (n m : UInt32) : (b.remove n).has m = (b.has m && decide (m ≠ n)) := by
  have ho : n.toNat % 64 < 64 := Nat.mod_lt _ (by decide)
  have hj : m.toNat % 64 < 64 := Nat.mod_lt _ (by decide)
  by_cases hi : n.toNat / 64 < b.bits.length
  · simp only [has, remove, getD_modify _ _ _ _ hi]
    by_cases hw : m.toNat / 64 = n.toNat / 64
    · simp only [hw, if_true, UInt64.toBitVec_and, UInt64.toBitVec_not, BitVec.getLsbD_and,
        BitVec.getLsbD_not, getLsbD_bit ho, ne_eq, eq_iff_word_offset m n, true_and, hj, decide_true,
        Bool.true_and, decide_not]
    · simp only [hw, if_false, ne_eq, eq_iff_word_offset m n, false_and, not_false_eq_true,
        decide_true, Bool.and_true]
  · -- the bit lies past the words in use
    have hlen : b.bits.length ≤ n.toNat / 64 := Nat.le_of_not_lt hi
    have hsame : (b.remove n).bits = b.bits := modify_eq_self hlen
    by_cases hm : m = n
    · subst hm
      have hz : b.bits.getD (m.toNat / 64) 0 = 0 := getD_eq_default _ _ hlen
      rw [has, hsame, hz, has, hz]
      simp
    · simp [has, hsame, hm]

theorem getD_grow (bits : List UInt64) (n : UInt32) (j : Nat) : (grow bits n).getD j 0 = bits.getD j 0 := by
  unfold grow
  split
  · rcases Nat.lt_or_ge j bits.length with hj | hj
    · exact getD_append _ _ _ _ hj
    · rw [getD_append_right _ _ _ _ hj, getD_eq_default _ _ hj, getD_eq_getElem?_getD, getElem?_replicate]
      split <;> rfl
  · rfl

theorem has_add (b : Bitmap) (n m : UInt32) : (b.add n).has m = (b.has m || decide (m = n ∧ n ≤ b.max)) := by
  have ho : n.toNat % 64 < 64 := Nat.mod_lt _ (by decide)
  unfold add
  split
  · next hgt => simp [UInt32.not_le.mpr hgt]
  · next hle =>
    simp only [has, getD_modify _ _ _ _ (lt_length_grow b.bits n), getD_grow, eq_iff_word_offset m n, UInt32.not_lt.mp hle, and_true]
    by_cases hw : m.toNat / 64 = n.toNat / 64
    · simp only [hw, if_true, UInt64.toBitVec_or, BitVec.getLsbD_or, getLsbD_bit ho, true_and]
    · simp only [hw, if_false, false_and, decide_false, Bool.or_false]

/-! ## The lowest unset bit -/

theorem trailingZeros64_spec {v : UInt64} (hv : v ≠ ~~~ 0) :
    trailingZeros64 (~~~ v) < 64 ∧ v.toBitVec.getLsbD (trailingZeros64 (~~~ v)) = false := by
  unfold trailingZeros64
  cases hf : (range 64).find? (~~~ v).toBitVec.getLsbD with
  | some k =>
    have hk := find?_some hf
    have hmem : k < 64 := mem_range.1 (mem_of_find?_eq_some hf)
    rw [UInt64.toBitVec_not, BitVec.getLsbD_not] at hk
    refine ⟨hmem, ?_⟩
    simpa [hmem] using hk
  | none =>
    -- every bit of the word is set
    refine absurd (UInt64.toBitVec_inj.1 (BitVec.eq_of_getLsbD_eq fun i hi => ?_)) hv
    have hno := find?_eq_none.1 hf i (mem_range.2 hi)
    rw [UInt64.toBitVec_not, BitVec.getLsbD_not] at hno
    have hset : v.toBitVec.getLsbD i = true := by simpa [hi] using hno
    rw [hset, UInt64.toBitVec_not, BitVec.getLsbD_not]
    simp [hi]

theorem firstUnset_spec (h : firstUnset bits base = some (i, offset)) :
    ∃ k, i = base + k ∧ k < bits.length ∧ offset < 64 ∧
      (bits.getD k 0).toBitVec.getLsbD offset = false := by
  induction bits generalizing base with
  | nil => simp [firstUnset] at h
  | cons v bits ih =>
    unfold firstUnset at h
    split at h
    · obtain ⟨k, hi, hk, ho, hbit⟩ := ih h
      exact ⟨k + 1, by omega, by rw [length_cons]; omega, ho, hbit⟩
    · next hv =>
      injection h with h
      injection h with hi ho
      subst hi; subst ho
      obtain ⟨hlt, hbit⟩ := trailingZeros64_spec hv
      exact ⟨0, rfl, by rw [length_cons]; omega, hlt, hbit⟩

/-- **`Next` takes a free number.** The number it returns was not in the set, and it is the only one
    added. -/
theorem next_spec {b b' : Bitmap} {n : UInt32} (h : b.next = (n, true, b')) :
    b.has n = false ∧ ∀ m, b'.has m = (b.has m || decide (m = n)) := by
  have hmax : b.max.toNat < 2 ^ 32 := b.max.toNat_lt
  have hfits := b.fits
  unfold next at h
  split at h
  · next i offset hfirst =>
    obtain ⟨k, hi, hk, ho, hbit⟩ := firstUnset_spec hfirst
    rw [Nat.zero_add] at hi
    subst hi
    have hn : (UInt32.ofNat (i * 64 + offset)).toNat = i * 64 + offset :=
      UInt32.toNat_ofNat_of_lt' (by simp only [UInt32.size]; omega)
    have hword : (UInt32.ofNat (i * 64 + offset)).toNat / 64 = i := by omega
    have hoffset : (UInt32.ofNat (i * 64 + offset)).toNat % 64 = offset := by omega
    split at h
    · simp at h
    · simp only [Prod.mk.injEq, true_and] at h
      obtain ⟨rfl, rfl⟩ := h
      refine ⟨by rw [has, hword, hoffset]; exact hbit, fun m => ?_⟩
      simp only [has, getD_modify _ _ _ _ hk, eq_iff_word_offset m, hword, hoffset]
      by_cases hw : m.toNat / 64 = i
      · simp only [hw, if_true, UInt64.toBitVec_or, BitVec.getLsbD_or, getLsbD_bit ho, true_and]
      · simp only [hw, if_false, false_and, decide_false, Bool.or_false]
  · split at h
    · simp at h
    · next hlen =>
      simp only [Prod.mk.injEq, true_and] at h
      obtain ⟨rfl, rfl⟩ := h
      have hn : (UInt32.ofNat b.bits.length * 64).toNat = b.bits.length * 64 := by
        rw [UInt32.toNat_mul, UInt32.toNat_ofNat_of_lt' (by simp only [UInt32.size]; omega)]
        exact Nat.mod_eq_of_lt (by simp only [UInt32.toNat_ofNat]; omega)
      have hword : (UInt32.ofNat b.bits.length * 64).toNat / 64 = b.bits.length := by omega
      have hoffset : (UInt32.ofNat b.bits.length * 64).toNat % 64 = 0 := by omega
      have hbeyond : b.bits.getD b.bits.length 0 = 0 := getD_eq_default _ _ (Nat.le_refl _)
      refine ⟨by rw [has, hword, hoffset, hbeyond]; rfl, fun m => ?_⟩
      simp only [has, eq_iff_word_offset m, hword, hoffset]
      rcases Nat.lt_trichotomy (m.toNat / 64) b.bits.length with hw | hw | hw
      · rw [getD_append _ _ _ _ hw]
        simp [Nat.ne_of_lt hw]
      · rw [hw, getD_append_right _ _ _ _ (Nat.le_refl _), Nat.sub_self, hbeyond]
        simp
      · rw [getD_append_right _ _ _ _ (Nat.le_of_lt hw), getD_eq_default _ _ (by simp; omega),
          getD_eq_default _ _ (Nat.le_of_lt hw)]
        simp [Nat.ne_of_gt hw]

/-- The number is within the limit, which stays. -/
theorem next_le {b b' : Bitmap} {n : UInt32} (h : b.next = (n, true, b')) : n ≤ b.max ∧ b'.max = b.max := by
  have hmax : b.max.toNat < 2 ^ 32 := b.max.toNat_lt
  unfold next at h
  split at h
  · split at h
    · simp at h
    · next hle =>
      simp only [Prod.mk.injEq, true_and] at h
      obtain ⟨rfl, rfl⟩ := h
      exact ⟨UInt32.not_lt.mp hle, rfl⟩
  · split at h
    · simp at h
    · next hlen =>
      simp only [Prod.mk.injEq, true_and] at h
      obtain ⟨rfl, rfl⟩ := h
      refine ⟨?_, rfl⟩
      rw [UInt32.le_iff_toNat_le, UInt32.toNat_mul, UInt32.toNat_ofNat_of_lt' (by simp only [UInt32.size]; omega)]
      exact Nat.le_trans (Nat.mod_le _ _) (Nat.not_lt.mp hlen)

/-! ## The least free number -/

theorem getLsbD_of_lt_trailingZeros64 {v : UInt64} {j : Nat} (hj : j < trailingZeros64 (~~~ v)) (hlt : j < 64) :
    v.toBitVec.getLsbD j = true := by
  unfold trailingZeros64 at hj
  -- the search has passed the bit, whether or not it has found one
  have hpassed : ¬ (~~~ v).toBitVec.getLsbD j = true := by
    cases hf : (range 64).find? (~~~ v).toBitVec.getLsbD with
    | some k =>
      rw [hf, Option.getD_some] at hj
      have hbefore := (find?_range_eq_some.mp hf).2.2 j hj
      intro hset
      rw [hset] at hbefore
      cases hbefore
    | none => exact find?_eq_none.mp hf j (mem_range.mpr hlt)
  rw [UInt64.toBitVec_not, BitVec.getLsbD_not] at hpassed
  simpa [hlt] using hpassed

/-- The words before the one that `firstUnset` finds are full. -/
theorem firstUnset_before (h : firstUnset bits base = some (i, offset)) {k : Nat} (hk : base + k < i) :
    bits.getD k 0 = ~~~ 0 := by
  induction bits generalizing base k with
  | nil => simp [firstUnset] at h
  | cons v bits ih =>
    unfold firstUnset at h
    split at h
    · next hv =>
      rcases k with _ | k
      · simpa using hv
      · rw [getD_cons_succ]
        exact ih h (by omega)
    · simp only [Option.some.injEq, Prod.mk.injEq] at h
      omega

theorem firstUnset_offset (h : firstUnset bits base = some (i, offset)) :
    offset = trailingZeros64 (~~~ bits.getD (i - base) 0) := by
  induction bits generalizing base with
  | nil => simp [firstUnset] at h
  | cons v bits ih =>
    unfold firstUnset at h
    split at h
    · obtain ⟨k, hi, -⟩ := firstUnset_spec h
      rw [show i - base = (i - (base + 1)) + 1 by omega, getD_cons_succ]
      exact ih h
    · simp only [Option.some.injEq, Prod.mk.injEq] at h
      obtain ⟨rfl, rfl⟩ := h
      simp

theorem firstUnset_none (h : firstUnset bits base = none) {k : Nat} (hk : k < bits.length) :
    bits.getD k 0 = ~~~ 0 := by
  induction bits generalizing base k with
  | nil => simp at hk
  | cons v bits ih =>
    unfold firstUnset at h
    split at h
    · next hv =>
      rcases k with _ | k
      · simpa using hv
      · rw [getD_cons_succ]
        exact ih h (by simpa using hk)
    · cases h

theorem has_of_full {b : Bitmap} (h : b.bits.getD (m.toNat / 64) 0 = ~~~ 0) : b.has m = true := by
  have hlt : m.toNat % 64 < 64 := Nat.mod_lt _ (by decide)
  rw [has, h, UInt64.toBitVec_not, BitVec.getLsbD_not]
  simp [hlt]

/-- Every number below the one that `firstUnset` finds is set. -/
theorem has_of_lt_firstUnset {b : Bitmap} (h : firstUnset b.bits 0 = some (i, offset))
    (hm : m.toNat < i * 64 + offset) : b.has m = true := by
  have hlt : m.toNat % 64 < 64 := Nat.mod_lt _ (by decide)
  rcases Nat.lt_or_ge (m.toNat / 64) i with hword | hword
  · exact has_of_full (firstUnset_before h (by omega))
  · -- the number is in the word itself, below the offset
    obtain ⟨-, -, -, ho, -⟩ := firstUnset_spec h
    have hsame : m.toNat / 64 = i := by omega
    have hoffset := firstUnset_offset h
    rw [Nat.sub_zero, ← hsame] at hoffset
    exact getLsbD_of_lt_trailingZeros64 (by omega) hlt

/-- Without an unset bit in its words, every number within them is set. -/
theorem has_of_firstUnset_none {b : Bitmap} (h : firstUnset b.bits 0 = none)
    (hm : m.toNat < b.bits.length * 64) : b.has m = true :=
  has_of_full (firstUnset_none h (by omega))

/-- **`Next` takes the least free number.** -/
theorem next_least {b b' : Bitmap} {n : UInt32} (h : b.next = (n, true, b')) (hm : m < n) : b.has m = true := by
  rw [UInt32.lt_iff_toNat_lt] at hm
  unfold next at h
  split at h
  · next i offset hfirst =>
    split at h
    · simp at h
    · simp only [Prod.mk.injEq, true_and] at h
      obtain ⟨rfl, -⟩ := h
      refine has_of_lt_firstUnset hfirst (Nat.lt_of_lt_of_le hm ?_)
      rw [UInt32.toNat_ofNat']
      exact Nat.mod_le _ _
  · next hfirst =>
    split at h
    · simp at h
    · simp only [Prod.mk.injEq, true_and] at h
      obtain ⟨rfl, -⟩ := h
      refine has_of_firstUnset_none hfirst (Nat.lt_of_lt_of_le hm ?_)
      rw [UInt32.toNat_mul, UInt32.toNat_ofNat']
      exact Nat.le_trans (Nat.mod_le _ _) (Nat.mul_le_mul (Nat.mod_le _ _) (Nat.le_refl _))

/-- **`Next` fails only when every number is taken**, and then it changes nothing. -/
theorem next_full {b b' : Bitmap} {n : UInt32} (h : b.next = (n, false, b')) :
    b' = b ∧ ∀ m ≤ b.max, b.has m = true := by
  have hmax : b.max.toNat < 2 ^ 32 := b.max.toNat_lt
  have hfits := b.fits
  unfold next at h
  split at h
  · next i offset hfirst =>
    obtain ⟨k, hi, hk, ho, -⟩ := firstUnset_spec hfirst
    split at h
    · next hgt =>
      simp only [Prod.mk.injEq, true_and] at h
      refine ⟨h.2.symm, fun m hm => has_of_lt_firstUnset hfirst ?_⟩
      rw [gt_iff_lt, UInt32.lt_iff_toNat_lt, UInt32.toNat_ofNat_of_lt' (by simp only [UInt32.size]; omega)] at hgt
      rw [UInt32.le_iff_toNat_le] at hm
      omega
    · simp at h
  · next hfirst =>
    split at h
    · next hgt =>
      simp only [Prod.mk.injEq, true_and] at h
      refine ⟨h.2.symm, fun m hm => has_of_firstUnset_none hfirst ?_⟩
      rw [UInt32.le_iff_toNat_le] at hm
      omega
    · simp at h

/-! ## Holders of numbers

Links hold handles and sessions hold channels. That each has a number of its own, and that nothing else is
in the set, is stated once for both. -/

/-- The numbers in the set are those of `holders`, each of which has its own. -/
structure Pool {ι : Type} (b : Bitmap) (holders : List ι) (number : ι → UInt32) : Prop where
  nodup : holders.Nodup
  distinct : ∀ i ∈ holders, ∀ j ∈ holders, number i = number j → i = j
  has_iff : ∀ n, b.has n = true ↔ ∃ i ∈ holders, number i = n
  bounded : ∀ i ∈ holders, number i ≤ b.max

namespace Pool

variable {ι : Type} {b b' : Bitmap} {holders : List ι} {number number' : ι → UInt32} {n : UInt32}

theorem new (max : UInt32) (number : ι → UInt32) : Pool (.new max) [] number := ⟨.nil, by simp, by simp, by simp⟩

variable (h : Pool b holders number)

include h

theorem congr (heq : ∀ i ∈ holders, number' i = number i) : Pool b holders number' := by
  refine ⟨h.nodup, fun i hi j hj hij => ?_, fun n => ?_, fun i hi => ?_⟩
  · rw [heq i hi, heq j hj] at hij
    exact h.distinct i hi j hj hij
  · rw [h.has_iff]
    exact exists_congr fun i => and_congr_right fun hi => by rw [heq i hi]
  · rw [heq i hi]
    exact h.bounded i hi

/-- The number that `Next` gives is nobody's. -/
theorem next_ne (hnext : b.next = (n, true, b')) {i : ι} (hi : i ∈ holders) : number i ≠ n := by
  intro heq
  have hset := (h.has_iff n).mpr ⟨i, hi, heq⟩
  rw [(next_spec hnext).1] at hset
  cases hset

theorem add (hnext : b.next = (n, true, b')) {i : ι} (hi : i ∉ holders) (hnew : number' i = n)
    (hold : ∀ j ∈ holders, number' j = number j) : Pool b' (i :: holders) number' := by
  have hpool := h.congr hold
  obtain ⟨hle, hmax⟩ := next_le hnext
  refine ⟨nodup_cons.mpr ⟨hi, h.nodup⟩, fun j hj k hk hjk => ?_, fun m => ?_, fun j hj => ?_⟩
  · rcases mem_cons.mp hj with rfl | hold <;> rcases mem_cons.mp hk with rfl | hold'
    · rfl
    · exact absurd (hjk.symm.trans hnew) (hpool.next_ne hnext hold')
    · exact absurd (hjk.trans hnew) (hpool.next_ne hnext hold)
    · exact hpool.distinct j hold k hold' hjk
  · rw [(next_spec hnext).2, Bool.or_eq_true, hpool.has_iff, decide_eq_true_iff]
    constructor
    · rintro (⟨j, hj, hm⟩ | rfl)
      · exact ⟨j, mem_cons_of_mem i hj, hm⟩
      · exact ⟨i, mem_cons_self, hnew⟩
    · rintro ⟨j, hj, rfl⟩
      rcases mem_cons.mp hj with rfl | hj
      · exact .inr hnew
      · exact .inl ⟨j, hj, rfl⟩
  · rw [hmax]
    rcases mem_cons.mp hj with rfl | hj
    · rw [hnew]
      exact hle
    · exact hpool.bounded j hj

theorem remove [DecidableEq ι] {i : ι} (hi : i ∈ holders) : Pool (b.remove (number i)) (holders.erase i) number := by
  have hmem : ∀ j, j ∈ holders.erase i ↔ j ≠ i ∧ j ∈ holders := fun j => h.nodup.mem_erase_iff
  refine ⟨h.nodup.erase i, fun j hj k hk => ?_, fun n => ?_, fun j hj => ?_⟩
  · exact h.distinct j ((hmem j).mp hj).2 k ((hmem k).mp hk).2
  · rw [has_remove, Bool.and_eq_true, h.has_iff, decide_eq_true_iff]
    constructor
    · rintro ⟨⟨j, hj, rfl⟩, hne⟩
      exact ⟨j, (hmem j).mpr ⟨fun heq => hne (congrArg number heq), hj⟩, rfl⟩
    · rintro ⟨j, hj, rfl⟩
      obtain ⟨hne, hj⟩ := (hmem j).mp hj
      exact ⟨⟨j, hj, rfl⟩, fun heq => hne (h.distinct j hj i hi heq)⟩
  · exact h.bounded j ((hmem j).mp hj).2

/-- Holders of numbers up to `m` are at most `m + 1`. -/
theorem length_le (hm : ∀ i ∈ holders, number i ≤ m) : holders.length ≤ m.toNat + 1 := by
  have hnodup : (holders.map fun i => (number i).toNat).Nodup := by
    refine Nodup.map_on (fun i hi j hj hij => ?_) h.nodup
    exact h.distinct i hi j hj (UInt32.toNat_inj.mp hij)
  have hsub : (holders.map fun i => (number i).toNat) ⊆ range (m.toNat + 1) := by
    intro k hk
    obtain ⟨i, hi, rfl⟩ := mem_map.mp hk
    exact mem_range.mpr (Nat.lt_succ_of_le (UInt32.le_iff_toNat_le.mp (hm i hi)))
  simpa using (hnodup.subperm hsub).length_le

/-- `Next` fails exactly if every number is held. -/
theorem next_fails_iff : b.next.2.1 = false ↔ ∀ n ≤ b.max, ∃ i ∈ holders, number i = n := by
  rcases hnext : b.next with ⟨n, ok, b'⟩
  cases ok with
  | false => simpa [← h.has_iff] using (next_full hnext).2
  | true =>
    simp only [Bool.true_eq_false, false_iff]
    intro hall
    obtain ⟨i, hi, heq⟩ := hall n (next_le hnext).1
    exact h.next_ne hnext hi heq

/-- There is a number as long as not all of them are held. -/
theorem next_of_length (hlen : holders.length ≤ b.max.toNat) : ∃ n b', b.next = (n, true, b') := by
  rcases hnext : b.next with ⟨n, ok, b'⟩
  cases ok with
  | true => exact ⟨n, b', rfl⟩
  | false =>
    have hall := h.next_fails_iff.mp (by rw [hnext])
    -- every number up to the maximum is that of a holder
    have hsub : range (b.max.toNat + 1) ⊆ holders.map fun i => (number i).toNat := by
      intro k hk
      have hk := Nat.le_of_lt_succ (mem_range.mp hk)
      have hlt : k < UInt32.size := Nat.lt_of_le_of_lt hk b.max.toNat_lt
      obtain ⟨i, hi, heq⟩ := hall (UInt32.ofNat k) (by
        rwa [UInt32.le_iff_toNat_le, UInt32.toNat_ofNat_of_lt' hlt])
      exact mem_map.mpr ⟨i, hi, by rw [heq, UInt32.toNat_ofNat_of_lt' hlt]⟩
    have hle := (nodup_range.subperm hsub).length_le
    simp only [length_range, length_map] at hle
    omega

end Pool

end Bitmap

end GoAmqp
