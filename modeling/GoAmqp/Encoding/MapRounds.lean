import GoAmqp.Encoding.DecodeSpec.Values

set_option autoImplicit false

/-! # How often the entry loop of a map goes round

`for i := uint32(0); i < count; i += 2` ends after `⌈count / 2⌉` rounds, except for the largest
count: 2^32 − 1 is odd, the counter steps from 2^32 − 2 to 0 and the test never fails. Then only the
end of the buffer stops the loop. Every round reads two values, so it takes a buffer of 2^33 bytes to
get past as many rounds as the header declares. -/

namespace GoAmqp

open Lib Buffer List EStateM

/-- The map decoder with a loop that gives up after as many rounds as the header declares. -/
def unmarshalMapWithin {κ β : Type} (round : List (κ × β) → BufM (List (κ × β))) :
    BufM (List (κ × β)) := do
  let count ← readMapHeader
  mapLoop round (count.toNat + 1) 0 count []

section Loop

variable {μ : Type} {round : μ → BufM μ}

/-- A count that the counter can pass bounds the number of rounds. -/
theorem mapLoop_eq_of_count {count : UInt32} (hcount : count.toNat < 2 ^ 32 - 1) {b b' : Nat} {i : UInt32}
    (hi : i.toNat ≤ count.toNat + 1) (hb : count.toNat ≤ i.toNat + 2 * b) (hb' : count.toNat ≤ i.toNat + 2 * b')
    (m : μ) : mapLoop round (b + 1) i count m = mapLoop round (b' + 1) i count m := by
  induction b generalizing b' i m with
  | zero =>
    have hstop : ¬ i < count := by
      rw [UInt32.lt_iff_toNat_lt]
      omega
    rw [mapLoop, mapLoop, if_neg hstop, if_neg hstop]
  | succ b ih =>
    rw [mapLoop, mapLoop]
    by_cases hlt : i < count
    · have hlt' := UInt32.lt_iff_toNat_lt.mp hlt
      have hnext : (i + 2).toNat = i.toNat + 2 := by
        rw [UInt32.toNat_add, show (2 : UInt32).toNat = 2 from rfl]
        omega
      obtain ⟨b', rfl⟩ : ∃ c, b' = c + 1 := ⟨b' - 1, by omega⟩
      rw [if_pos hlt, if_pos hlt]
      congr 1
      funext m'
      exact ih (by omega) (by omega) (by omega) m'
    · rw [if_neg hlt, if_neg hlt]

/-- Rounds that read two bytes each are bounded by what is left. -/
theorem run_mapLoop_eq_of_left (hround : ∀ m r m' r', (round m).run r = .ok m' r' → r'.left + 2 ≤ r.left)
    {b b' : Nat} (i count : UInt32) (m : μ) {r : Buffer} (hb : r.left < 2 * b) (hb' : r.left < 2 * b') :
    (mapLoop round b i count m).run r = (mapLoop round b' i count m).run r := by
  induction b generalizing b' i m r with
  | zero => omega
  | succ b ih =>
    obtain ⟨b', rfl⟩ : ∃ c, b' = c + 1 := ⟨b' - 1, by omega⟩
    rw [mapLoop, mapLoop]
    by_cases hlt : i < count
    · rw [if_pos hlt, if_pos hlt, run_bind, run_bind]
      cases hrun : (round m).run r with
      | ok m' r' =>
        have hle := hround m r m' r' hrun
        exact ih (i + 2) m' (by omega) (by omega)
      | error e r' => rfl
    · rw [if_neg hlt, if_neg hlt]

end Loop

/-! ## The rounds read two values -/

section Rounds

variable {α β : Type}

/-- Two reads that consume, one after the other, take two bytes. -/
theorem left_of_two {m : BufM α} {k : α → BufM β} [hm : Consumes Buffer.left m] [h : ∀ a, Consumes Buffer.left (k a)]
    {r r' : Buffer} {b : β} (hrun : (m >>= k).run r = .ok b r') : r'.left + 2 ≤ r.left := by
  obtain ⟨a, r₁, hfirst, hsecond⟩ := Consumes.bind_ok hrun
  have h₁ := hm.lt r a r₁ hfirst
  have h₂ := (h a).lt r₁ b r' hsecond
  omega

end Rounds

theorem count_le_left {r r' : Buffer} {count : UInt32} (h : readMapHeader.run r = .ok count r') :
    count.toNat ≤ r'.left := by
  obtain ⟨t, r₁, -, h₁⟩ := Consumes.bind_ok h
  obtain ⟨length, r₂, -, h₂⟩ := Consumes.bind_ok h₁
  obtain ⟨n, r₃, -, h₃⟩ := Consumes.bind_ok h₂
  obtain ⟨left, r₄, hlen, h₄⟩ := Consumes.bind_ok h₃
  have hlen' : (Result.ok (r₃.b.length - r₃.i) r₃ : Result Fault Buffer Nat) = .ok left r₄ := hlen
  injection hlen' with hleft hr
  split at h₄
  · cases h₄
  · next hle =>
    injection h₄ with hcount hr'
    rw [← hcount, ← hr', ← hr, UInt32.toNat_ofNat']
    refine Nat.le_trans (Nat.mod_le ..) ?_
    rw [Buffer.left]
    omega

/-- The entry loop of a map runs at most as many rounds as the header declares, if the counter can pass the
    count or the bytes behind the header do not suffice for 2^32 rounds. -/
theorem run_unmarshalMap_eq {κ β : Type} {round : List (κ × β) → BufM (List (κ × β))} {r r' : Buffer}
    (hround : ∀ m r m' r', (round m).run r = .ok m' r' → r'.left + 2 ≤ r.left) {count : UInt32}
    (hheader : readMapHeader.run r = .ok count r') (h : count ≠ 0xffffffff ∨ r'.left < 2 ^ 33) :
    (unmarshalMap round).run r = (unmarshalMapWithin round).run r := by
  rw [unmarshalMap, unmarshalMapWithin, run_bind, run_bind, hheader]
  have hle := count_le_left hheader
  show (mapLoop round (r'.left + 1) 0 count []).run r' = _
  by_cases hmax : count = 0xffffffff
  · have hshort := h.resolve_left fun hne => hne hmax
    have hcount : count.toNat = 2 ^ 32 - 1 := by rw [hmax]; rfl
    exact run_mapLoop_eq_of_left hround 0 count [] (by omega) (by omega)
  · have hlt : count.toNat < 2 ^ 32 - 1 := by
      have hne : count.toNat ≠ 2 ^ 32 - 1 := fun h => hmax (UInt32.toNat_inj.mp h)
      have := count.toNat_lt
      omega
    exact congrFun (mapLoop_eq_of_count hlt (Nat.zero_le _) (by omega) (by omega) []) r'

/-! ## The count 2^32 − 1 -/

/-- One round of `mapAnyAny.Unmarshal`. -/
def mapAnyAnyRound (m : List (Value × Value)) : BufM (List (Value × Value)) := do
  let key ← readAny
  let value ← readAny
  if key.kind ≠ .other then fail "invalid map key" else assignAny m key value

theorem reads_mapAnyAnyRound_nulls {m : List (Value × Value)} {rest : Bytes} (hm : m = [] ∨ m = [(.nil, .nil)]) :
    Reads (mapAnyAnyRound m) [TypeCode.null, TypeCode.null] rest [(.nil, .nil)] := by
  refine .bind_cons reads_readAny_nil (.bind_pure reads_readAny_nil ?_)
  rw [if_neg (by decide)]
  rcases hm with rfl | rfl <;> exact .pure _ _

theorem run_readAny_empty {r : Buffer} (hu : r.unread = []) : readAny.run r = .error (.err "invalid length") r := by
  have hleft : r.b.length - r.i = 0 := by rw [← length_unread, hu, length_nil]
  rcases tryReadNull_cases r with ⟨rest, hnull, -⟩ | ⟨-, hfalse⟩
  · rw [hu] at hnull
    cases hnull
  · rw [run_readAny_eq, readAnyBody, run_bind, hfalse]
    show run (if r.b.length - r.i = 0 then fail "invalid length" else _) r = _
    rw [if_pos hleft]
    rfl

/-- The counter stays even and so below 2^32 − 1, and each round passes over two nulls: the loop is stopped
    by its bound or by the end of the buffer. -/
theorem run_mapLoop_nulls (bound n : Nat) {i : UInt32} (hi : i.toNat % 2 = 0) {m : List (Value × Value)}
    (hm : m = [] ∨ m = [(.nil, .nil)]) {r : Buffer} (hwf : r.WF) (hu : r.unread = replicate n TypeCode.null) :
    ∃ r', (mapLoop mapAnyAnyRound bound i 0xffffffff m).run r
      = .error (if 2 * bound ≤ n then .depth else .err "invalid length") r' := by
  induction bound generalizing n i m r with
  | zero => exact ⟨r, rfl⟩
  | succ bound ih =>
    have hlt : i < 0xffffffff := by
      have := i.toNat_lt
      rw [UInt32.lt_iff_toNat_lt, show (0xffffffff : UInt32).toNat = 2 ^ 32 - 1 from rfl]
      omega
    have hnext : (i + 2).toNat % 2 = 0 := by
      rw [UInt32.toNat_add, show (2 : UInt32).toNat = 2 from rfl]
      omega
    rw [mapLoop, if_pos hlt, run_bind]
    rcases n with _ | _ | n
    · rw [mapAnyAnyRound, run_bind, run_readAny_empty hu, if_neg (by omega)]
      exact ⟨r, rfl⟩
    · have hempty : (r.advance 1).unread = [] := by
        rw [unread_advance, hu]
        rfl
      have hkey : readAny.run r = .ok .nil (r.advance 1) := reads_readAny_nil r hwf hu
      rw [mapAnyAnyRound, run_bind, hkey, if_neg (by omega)]
      dsimp only
      rw [run_bind, run_readAny_empty hempty]
      exact ⟨_, rfl⟩
    · have hu' : r.unread = [TypeCode.null, TypeCode.null] ++ replicate n TypeCode.null := by
        rw [hu, Nat.add_comm, replicate_add]
        rfl
      have hunread : (r.advance 2).unread = replicate n TypeCode.null := by
        rw [unread_advance, hu']
        rfl
      obtain ⟨r', hr'⟩ := ih n hnext (.inr rfl) (hwf.advance (n := 2) (by rw [hu']; simp)) hunread
      refine ⟨r', ?_⟩
      have hround : (mapAnyAnyRound m).run r = .ok [(.nil, .nil)] (r.advance 2) :=
        reads_mapAnyAnyRound_nulls hm r hwf hu'
      rw [hround]
      simpa [Nat.mul_succ] using hr'

/-- A map that declares 2^32 − 1 keys and values, with `n` nulls behind its header. -/
def largestMap (n : Nat) : Bytes := TypeCode.map32 :: (be32 0 ++ be32 0xffffffff) ++ replicate n TypeCode.null

theorem reads_readMapHeader_largest {n : Nat} (hn : 2 ^ 32 ≤ n) :
    Reads readMapHeader (TypeCode.map32 :: (be32 0 ++ be32 0xffffffff))
      (replicate n TypeCode.null) 0xffffffff := by
  have hmax : (0xffffffff : UInt32).toNat = 2 ^ 32 - 1 := rfl
  refine .bind_cons (reads_readByte TypeCode.map32) (.bind_peek reads_len ?_)
  refine .bind_pure (reads_readSizes32 "invalid length" (Nat.zero_le _)) ?_
  refine .bind_peek reads_len ?_
  rw [if_neg (by rw [hmax, nil_append, length_replicate]; omega)]
  exact .pure _ _

/-- With 2^33 nulls behind the header the loop wants another round when it has made 2^32 of them; without
    a bound it goes on to the end of the buffer. -/
theorem run_largestMap {n : Nat} (hn : 2 ^ 33 ≤ n) :
    ∃ r₀ r₁ r₂, readMapHeader.run (.new (largestMap n)) = .ok 0xffffffff r₀ ∧ r₀.left = n ∧
      (unmarshalMapWithin mapAnyAnyRound).run (.new (largestMap n)) = .error .depth r₁ ∧
      (unmarshalMap mapAnyAnyRound).run (.new (largestMap n)) = .error (.err "invalid length") r₂ := by
  have hmax : (0xffffffff : UInt32).toNat + 1 = 2 ^ 32 := rfl
  have hwf : (Buffer.new (largestMap n)).WF := Nat.zero_le _
  have hheader := reads_readMapHeader_largest (n := n) (by omega) _ hwf rfl
  have hunread : ((Buffer.new (largestMap n)).advance 9).unread = replicate n TypeCode.null := by
    rw [unread_advance]
    rfl
  have hleft : ((Buffer.new (largestMap n)).advance 9).left = n := by
    rw [left_eq_length_unread, hunread, length_replicate]
  have hwf' : ((Buffer.new (largestMap n)).advance 9).WF := hwf.advance (by
    show 9 ≤ (largestMap n).length
    simp only [largestMap, length_append, length_cons, length_be32]
    omega)
  obtain ⟨r₁, h₁⟩ := run_mapLoop_nulls ((0xffffffff : UInt32).toNat + 1) n (i := 0) rfl (.inl rfl) hwf' hunread
  obtain ⟨r₂, h₂⟩ := run_mapLoop_nulls (n + 1) n (i := 0) rfl (.inl rfl) hwf' hunread
  rw [if_pos (by omega)] at h₁
  rw [if_neg (by omega)] at h₂
  refine ⟨_, r₁, r₂, hheader, hleft, ?_, ?_⟩
  · rw [unmarshalMapWithin, run_bind, hheader]
    exact h₁
  · rw [unmarshalMap, run_bind, hheader]
    show (mapLoop mapAnyAnyRound (((Buffer.new (largestMap n)).advance 9).left + 1) 0 0xffffffff []).run _ = _
    rw [hleft]
    exact h₂

end GoAmqp
