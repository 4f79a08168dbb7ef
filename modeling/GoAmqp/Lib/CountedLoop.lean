import GoAmqp.Lib.ExactCover
import GoAmqp.Lib.Transition
import Mathlib.Data.List.Nodup
import Mathlib.Logic.Function.Basic

set_option autoImplicit false

/-! # Loops with a 32-bit counter

The loop `for i := first; i <= last; i++` in a system whose other steps may come between the rounds of
the loop. The counter wraps, so the test cannot fail when the bound is the largest number: such a loop
never ends. With any other bound it makes a round for each number from `first` to `last`, and none if
`last` is smaller.

A range of serial numbers from `first` to `last` may go past the largest number to zero. The loop
reaches its numbers only if it does not. -/

namespace GoAmqp.Lib

open Function List

/-- The largest 32-bit number. -/
def maxSerial : UInt32 := 0xFFFFFFFF

/-- A loop of a system. `position` is where the system stands while it is in the loop: what the loop was
    entered with, and the counter before the test. A step of the loop itself is the test and, if it
    holds, one round. -/
structure CountedLoop (S L P : Type) where
  step : S → L → S → Prop
  position : S → Option (P × UInt32)
  bound : P → UInt32
  own : L → Bool
  stays {s s' : S} {l : L} {x : P × UInt32} :
    position s = some x → step s l s' → own l = false → position s' = some x
  round {s s' : S} {l : L} {p : P} {i : UInt32} :
    position s = some (p, i) → step s l s' → own l = true → i ≤ bound p → position s' = some (p, i + 1)
  ready {s : S} {x : P × UInt32} : position s = some x → ∃ l s', step s l s' ∧ own l = true

namespace CountedLoop

variable {S L P : Type}

/-- The system has come from `s₀`, where it enters the loop, to `s` in `k` rounds and is still in the
    loop. -/
inductive Inside (c : CountedLoop S L P) (s₀ : S) : Nat → S → Prop
  | start : Inside c s₀ 0 s₀
  | other {k : Nat} {s s' : S} {l : L} :
      Inside c s₀ k s → c.step s l s' → c.own l = false → Inside c s₀ k s'
  | round {k : Nat} {s s' : S} {l : L} {p : P} {i : UInt32} :
      Inside c s₀ k s → c.position s = some (p, i) → i ≤ c.bound p → c.step s l s' → c.own l = true →
      Inside c s₀ (k + 1) s'

/-- The test fails after `k` rounds, in a step to `s'`. -/
def Leaves (c : CountedLoop S L P) (s₀ : S) (k : Nat) (s' : S) : Prop :=
  ∃ s l p i, c.Inside s₀ k s ∧ c.position s = some (p, i) ∧ ¬ i ≤ c.bound p ∧ c.step s l s' ∧ c.own l = true

/-- However the other steps come between them, there are at most `n` rounds, and the loop can always take
    a step of its own. -/
def EndsWithin (c : CountedLoop S L P) (s₀ : S) (n : Nat) : Prop :=
  ∀ k s, c.Inside s₀ k s → k ≤ n ∧ ∃ l s', c.step s l s' ∧ c.own l = true

variable {c : CountedLoop S L P} {s₀ s s' : S} {p : P} {first : UInt32} {k n : Nat}

/-! ## The counter -/

theorem Inside.position (h : c.Inside s₀ k s) (h₀ : c.position s₀ = some (p, first)) :
    c.position s = some (p, first + UInt32.ofNat k) := by
  induction h with
  | start => simpa using h₀
  | other _ hstep hown ih => exact c.stays ih hstep hown
  | @round k s s' l p' i _ hpos hle hstep hown ih =>
    rw [hpos] at ih
    obtain ⟨rfl, rfl⟩ : p' = p ∧ i = first + UInt32.ofNat k := by simpa using ih
    rw [c.round hpos hstep hown hle, UInt32.ofNat_add, UInt32.add_assoc]
    rfl

/-- Rounds can be made as long as the test holds. -/
theorem exists_inside (h₀ : c.position s₀ = some (p, first))
    (htest : ∀ j < k, first + UInt32.ofNat j ≤ c.bound p) : ∃ s, c.Inside s₀ k s := by
  induction k with
  | zero => exact ⟨s₀, .start⟩
  | succ k ih =>
    obtain ⟨s, hs⟩ := ih fun j hj => htest j (Nat.lt_succ_of_lt hj)
    have hpos := hs.position h₀
    obtain ⟨l, s', hstep, hown⟩ := c.ready hpos
    exact ⟨s', hs.round hpos (htest k (Nat.lt_succ_self k)) hstep hown⟩

/-- The number of rounds of a loop from `first` to `last`. -/
def rounds (first last : UInt32) : Nat := last.toNat + 1 - first.toNat

theorem toNat_counter {last : UInt32} (hlast : last ≠ maxSerial) (hk : k ≤ rounds first last) :
    (first + UInt32.ofNat k).toNat = first.toNat + k := by
  have hlt : last.toNat + 1 < 2 ^ 32 := by
    have hne : last.toNat ≠ 2 ^ 32 - 1 := fun h => hlast (UInt32.toNat_inj.mp h)
    have := last.toNat_lt
    omega
  have hfirst := first.toNat_lt
  unfold rounds at hk
  rw [UInt32.toNat_add, UInt32.toNat_ofNat', Nat.add_mod_mod]
  exact Nat.mod_eq_of_lt (by omega)

/-- The test before the round `k`. -/
theorem counter_le_iff {last : UInt32} (hlast : last ≠ maxSerial) (hk : k ≤ rounds first last) :
    first + UInt32.ofNat k ≤ last ↔ k < rounds first last := by
  rw [UInt32.le_iff_toNat_le, toNat_counter hlast hk]
  unfold rounds
  omega

theorem Inside.le_rounds (h : c.Inside s₀ k s) (h₀ : c.position s₀ = some (p, first))
    (hlast : c.bound p ≠ maxSerial) : k ≤ rounds first (c.bound p) := by
  induction h with
  | start => exact Nat.zero_le _
  | other _ _ _ ih => exact ih
  | @round k s s' l p' i hinside hpos hle _ _ ih =>
    rw [hinside.position h₀] at hpos
    obtain ⟨rfl, rfl⟩ : p = p' ∧ first + UInt32.ofNat k = i := by simpa using hpos
    exact (counter_le_iff hlast ih).mp hle

theorem Leaves.eq_rounds (h : c.Leaves s₀ k s') (h₀ : c.position s₀ = some (p, first))
    (hlast : c.bound p ≠ maxSerial) : k = rounds first (c.bound p) := by
  obtain ⟨s, l, p', i, hinside, hpos, hgt, -⟩ := h
  have hk := hinside.le_rounds h₀ hlast
  rw [hinside.position h₀] at hpos
  obtain ⟨rfl, rfl⟩ : p = p' ∧ first + UInt32.ofNat k = i := by simpa using hpos
  rw [counter_le_iff hlast hk] at hgt
  omega

/-- A loop with another bound than the largest number can be left. -/
theorem exists_leaves (h₀ : c.position s₀ = some (p, first)) (hlast : c.bound p ≠ maxSerial) :
    ∃ s', c.Leaves s₀ (rounds first (c.bound p)) s' := by
  obtain ⟨s, hs⟩ := exists_inside h₀ fun j hj => (counter_le_iff hlast (Nat.le_of_lt hj)).mpr hj
  have hpos := hs.position h₀
  obtain ⟨l, s', hstep, hown⟩ := c.ready hpos
  have hgt := mt (counter_le_iff hlast (Nat.le_refl (rounds first (c.bound p)))).mp (Nat.lt_irrefl _)
  exact ⟨s', s, l, p, _, hs, hpos, hgt, hstep, hown⟩

/-! ## Whether the loop ends -/

theorem le_maxSerial (i : UInt32) : i ≤ maxSerial := by
  have := i.toNat_lt
  rw [UInt32.le_iff_toNat_le, show maxSerial.toNat = 2 ^ 32 - 1 from rfl]
  omega

/-- A loop up to the largest number makes any number of rounds and is never left. -/
theorem endless (h₀ : c.position s₀ = some (p, first)) (hlast : c.bound p = maxSerial) :
    (∀ k, ∃ s, c.Inside s₀ k s) ∧ ∀ k s', ¬ c.Leaves s₀ k s' := by
  refine ⟨fun k => exists_inside h₀ fun j _ => hlast ▸ le_maxSerial _, ?_⟩
  rintro k s' ⟨s, l, p', i, hinside, hpos, hgt, -⟩
  rw [hinside.position h₀] at hpos
  obtain ⟨rfl, rfl⟩ : p = p' ∧ first + UInt32.ofNat k = i := by simpa using hpos
  exact hgt (hlast ▸ le_maxSerial _)

/-- The rounds are at most the numbers of the range, counted as serial numbers. -/
theorem rounds_le (first last : UInt32) : rounds first last ≤ (last - first).toNat + 1 := by
  unfold rounds
  rcases Nat.lt_or_ge last.toNat first.toNat with hlt | hle
  · omega
  · rw [UInt32.toNat_sub_of_le _ _ (UInt32.le_iff_toNat_le.mpr hle)]
    omega

/-- **When a counted loop ends.** -/
theorem endsWithin_iff (h₀ : c.position s₀ = some (p, first)) :
    c.EndsWithin s₀ ((c.bound p - first).toNat + 1) ↔ c.bound p ≠ maxSerial := by
  constructor
  · intro h hlast
    obtain ⟨s, hs⟩ := (endless h₀ hlast).1 ((c.bound p - first).toNat + 2)
    have := (h _ s hs).1
    omega
  · intro hlast k s hs
    exact ⟨Nat.le_trans (hs.le_rounds h₀ hlast) (rounds_le first (c.bound p)), c.ready (hs.position h₀)⟩

/-! ## What the loop does to a table -/

/-- The rounds of a loop reach the range, or nothing if the range passes zero. -/
theorem lt_rounds_iff {first last : UInt32} (d : UInt32) :
    (d - first).toNat < rounds first last ↔ first ≤ last ∧ Within first last d := by
  unfold rounds Within
  rw [UInt32.le_iff_toNat_le, UInt32.le_iff_toNat_le]
  constructor
  · intro hlt
    have hle : first.toNat ≤ last.toNat := by omega
    refine ⟨hle, ?_⟩
    rw [UInt32.toNat_sub_of_le _ _ (UInt32.le_iff_toNat_le.mpr hle)]
    omega
  · rintro ⟨hle, hin⟩
    rw [UInt32.toNat_sub_of_le _ _ (UInt32.le_iff_toNat_le.mpr hle)] at hin
    omega

/-- The number whose round comes next. -/
theorem eq_counter_iff {first d : UInt32} (hk : k < 2 ^ 32) : d = first + UInt32.ofNat k ↔ (d - first).toNat = k := by
  have hofNat : (UInt32.ofNat k).toNat = k := by
    rw [UInt32.toNat_ofNat']
    exact Nat.mod_eq_of_lt hk
  constructor
  · rintro rfl
    rw [UInt32.add_comm, UInt32.add_sub_cancel, hofNat]
  · intro h
    have hsub : d - first = UInt32.ofNat k := UInt32.toNat_inj.mp (h.trans hofNat.symm)
    rw [← hsub, UInt32.add_comm, UInt32.sub_add_cancel]

/-- The loop handles a table with an entry for each number: the round for `i` changes the entry of `i`,
    and other steps change none. -/
structure Sweeps (c : CountedLoop S L P) {β : Type} (table : S → UInt32 → β) (f : P → β → β) : Prop where
  other {s s' : S} {l : L} {x : P × UInt32} :
    c.position s = some x → c.step s l s' → c.own l = false → table s' = table s
  round {s s' : S} {l : L} {p : P} {i : UInt32} :
    c.position s = some (p, i) → c.step s l s' → c.own l = true → i ≤ c.bound p →
      table s' = update (table s) i (f p (table s i))
  leave {s s' : S} {l : L} {p : P} {i : UInt32} :
    c.position s = some (p, i) → c.step s l s' → c.own l = true → ¬ i ≤ c.bound p → table s' = table s

variable {β : Type} {table : S → UInt32 → β} {f : P → β → β}

/-- The table after `k` rounds. -/
theorem Sweeps.inside (hsweeps : c.Sweeps table f) (h : c.Inside s₀ k s)
    (h₀ : c.position s₀ = some (p, first)) (hlast : c.bound p ≠ maxSerial) (d : UInt32) :
    table s d = if (d - first).toNat < k then f p (table s₀ d) else table s₀ d := by
  induction h with
  | start => simp
  | other hinside hstep hown ih => rw [hsweeps.other (hinside.position h₀) hstep hown, ih]
  | @round k s s' l p' i hinside hpos hle hstep hown ih =>
    have hk := (hinside.round hpos hle hstep hown).le_rounds h₀ hlast
    have hbound : k < 2 ^ 32 := by
      have := (c.bound p).toNat_lt
      unfold rounds at hk
      omega
    rw [hsweeps.round hpos hstep hown hle]
    rw [hinside.position h₀] at hpos
    obtain ⟨rfl, rfl⟩ : p = p' ∧ first + UInt32.ofNat k = i := by simpa using hpos
    by_cases hd : d = first + UInt32.ofNat k
    · -- the round for `d`, whose entry is as it was
      have hoffset := (eq_counter_iff hbound).mp hd
      rw [← hd, update_self, ih, if_neg (by omega), if_pos (by omega)]
    · have hoffset := mt (eq_counter_iff hbound).mpr hd
      rw [update_of_ne hd, ih]
      exact if_congr (by omega) rfl rfl

/-- **The table when the loop has been left.** -/
theorem Sweeps.leaves (hsweeps : c.Sweeps table f) (h : c.Leaves s₀ k s')
    (h₀ : c.position s₀ = some (p, first)) (hlast : c.bound p ≠ maxSerial) (d : UInt32) :
    table s' d =
      if first ≤ c.bound p ∧ Within first (c.bound p) d then f p (table s₀ d) else table s₀ d := by
  have hk := h.eq_rounds h₀ hlast
  obtain ⟨s, l, p', i, hinside, hpos, hgt, hstep, hown⟩ := h
  rw [hsweeps.leave hpos hstep hown hgt, hsweeps.inside hinside h₀ hlast, hk]
  exact if_congr (lt_rounds_iff d) rfl rfl

/-! ## What the loop puts out -/

/-- The steps of `trace`, latest first, take the system through the loop, from its start at `s₀` to the
    first state outside. -/
def Through (c : CountedLoop S L P) (s₀ : S) (trace : List L) (s' : S) : Prop :=
  RunIf c.step (fun _ s _ => c.position s ≠ none) s₀ trace s' ∧ c.position s' = none

/-- The numbers that get a round, in their order. -/
def visited (first last : UInt32) : List UInt32 := (range (rounds first last)).map fun k => first + UInt32.ofNat k

theorem lt_of_lt_rounds {first last : UInt32} (hk : k < rounds first last) : k < 2 ^ 32 := by
  have := last.toNat_lt
  unfold rounds at hk
  omega

theorem mem_visited {first last d : UInt32} : d ∈ visited first last ↔ first ≤ last ∧ Within first last d := by
  rw [← lt_rounds_iff, visited, mem_map]
  constructor
  · rintro ⟨k, hk, rfl⟩
    have hk := mem_range.mp hk
    rwa [(eq_counter_iff (lt_of_lt_rounds hk)).mp rfl]
  · intro hlt
    exact ⟨_, mem_range.mpr hlt, ((eq_counter_iff (lt_of_lt_rounds hlt)).mpr rfl).symm⟩

theorem nodup_visited (first last : UInt32) : (visited first last).Nodup := by
  refine nodup_range.map_on fun j hj k hk heq => ?_
  have hj := lt_of_lt_rounds (mem_range.mp hj)
  have hk := lt_of_lt_rounds (mem_range.mp hk)
  rw [← (eq_counter_iff hk).mp heq, (eq_counter_iff hj).mp rfl]

variable {α : Type} {out : L → List α} {g : P → β → List α}

/-- What the steps put out: the round for `i` something that is read from the entry of `i`, other steps
    nothing. A step at which the test fails leads out of the loop. -/
structure PutsOut (c : CountedLoop S L P) (table : S → UInt32 → β) (out : L → List α)
    (g : P → β → List α) : Prop where
  other {s s' : S} {l : L} {x : P × UInt32} :
    c.position s = some x → c.step s l s' → c.own l = false → out l = []
  round {s s' : S} {l : L} {p : P} {i : UInt32} :
    c.position s = some (p, i) → c.step s l s' → c.own l = true → i ≤ c.bound p → out l = g p (table s i)
  leave {s s' : S} {l : L} {p : P} {i : UInt32} :
    c.position s = some (p, i) → c.step s l s' → c.own l = true → ¬ i ≤ c.bound p → out l = [] ∧ c.position s' = none

/-- A run within the loop, while it lasts and when it has been left. -/
theorem Sweeps.during (hsweeps : c.Sweeps table f) (hout : c.PutsOut table out g)
    (h₀ : c.position s₀ = some (p, first)) (hlast : c.bound p ≠ maxSerial) {trace : List L}
    (h : RunIf c.step (fun _ s _ => c.position s ≠ none) s₀ trace s) :
    ∃ k, (c.Inside s₀ k s ∨ c.position s = none ∧ k = rounds first (c.bound p)) ∧
      trace.reverse.flatMap out = (range k).flatMap fun j => g p (table s₀ (first + UInt32.ofNat j)) := by
  induction h with
  | start => exact ⟨0, .inl .start, rfl⟩
  | @step trace s s' l _ hstep hin ih =>
    obtain ⟨k, hinside | ⟨hleft, -⟩, hputs⟩ := ih
    · have hpos := hinside.position h₀
      rw [reverse_cons, flatMap_append, flatMap_singleton, hputs]
      rcases Bool.eq_false_or_eq_true (c.own l) with hown | hown
      · by_cases hle : first + UInt32.ofNat k ≤ c.bound p
        · -- the entry of the round's number is as it was at the start
          have hround := hinside.round hpos hle hstep hown
          have hk := lt_of_lt_rounds (hround.le_rounds h₀ hlast)
          have hentry := hsweeps.inside hinside h₀ hlast (first + UInt32.ofNat k)
          rw [(eq_counter_iff hk).mp rfl, if_neg (Nat.lt_irrefl k)] at hentry
          refine ⟨k + 1, .inl hround, ?_⟩
          rw [hout.round hpos hstep hown hle, hentry, range_succ, flatMap_append, flatMap_singleton]
        · obtain ⟨hnone, hleft⟩ := hout.leave hpos hstep hown hle
          have hleaves : c.Leaves s₀ k s' := ⟨s, l, p, _, hinside, hpos, hle, hstep, hown⟩
          refine ⟨k, .inr ⟨hleft, hleaves.eq_rounds h₀ hlast⟩, ?_⟩
          rw [hnone, List.append_nil]
      · refine ⟨k, .inl (hinside.other hstep hown), ?_⟩
        rw [hout.other hpos hstep hown, List.append_nil]
    · exact absurd hleft hin

/-- **What is put out on the way through the loop.** -/
theorem Sweeps.through (hsweeps : c.Sweeps table f) (hout : c.PutsOut table out g)
    (h₀ : c.position s₀ = some (p, first)) (hlast : c.bound p ≠ maxSerial) {trace : List L}
    (h : c.Through s₀ trace s') :
    trace.reverse.flatMap out = (visited first (c.bound p)).flatMap fun d => g p (table s₀ d) := by
  obtain ⟨k, hinside | ⟨-, hk⟩, hputs⟩ := hsweeps.during hout h₀ hlast h.1
  · have hpos := hinside.position h₀
    rw [h.2] at hpos
    cases hpos
  · rw [hputs, hk, visited, flatMap_map]

theorem Inside.exists_run (h : c.Inside s₀ k s) (h₀ : c.position s₀ = some (p, first)) :
    ∃ trace, RunIf c.step (fun _ s _ => c.position s ≠ none) s₀ trace s := by
  have hin : ∀ {k s}, c.Inside s₀ k s → c.position s ≠ none := fun h => by
    rw [h.position h₀]
    exact Option.some_ne_none _
  induction h with
  | start => exact ⟨[], .start⟩
  | other hinside hstep _ ih =>
    obtain ⟨trace, hrun⟩ := ih
    exact ⟨_, hrun.step hstep (hin hinside)⟩
  | round hinside _ _ hstep _ ih =>
    obtain ⟨trace, hrun⟩ := ih
    exact ⟨_, hrun.step hstep (hin hinside)⟩

theorem PutsOut.exists_through (hout : c.PutsOut table out g) (h₀ : c.position s₀ = some (p, first))
    (hlast : c.bound p ≠ maxSerial) : ∃ trace s', c.Through s₀ trace s' := by
  obtain ⟨s', s, l, p', i, hinside, hpos, hgt, hstep, hown⟩ := exists_leaves h₀ hlast
  obtain ⟨trace, hrun⟩ := hinside.exists_run h₀
  have hin : c.position s ≠ none := by
    rw [hpos]
    exact Option.some_ne_none _
  exact ⟨l :: trace, s', hrun.step hstep hin, (hout.leave hpos hstep hown hgt).2⟩

end CountedLoop

end GoAmqp.Lib
