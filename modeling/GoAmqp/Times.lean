import GoAmqp.Encoding.ArrayRoundTrip
import GoAmqp.Frames.Fields

set_option autoImplicit false

/-! # Timestamps and durations

On the wire both are milliseconds, in memory both are nanoseconds, so that each direction has a range of
its own. A timestamp is decoded to any instant but encoded from a 64-bit count of nanoseconds
(`Time.millis_ofMillis_iff`). A duration is encoded as 32 bits of milliseconds and decoded from 64 bits of
them (`toInt_durationOfMillis`). -/

namespace GoAmqp

open Lib Buffer TypeCode

/-! ## Timestamps -/

/-- The milliseconds whose nanoseconds are a signed 64-bit count. -/
def FitsUnixNano (ms : Int64) : Prop := -2 ^ 63 ≤ ms.toInt * 1000000 ∧ ms.toInt * 1000000 < 2 ^ 63

instance (ms : Int64) : Decidable (FitsUnixNano ms) := inferInstanceAs (Decidable (_ ∧ _))

/-- Truncating division by a positive number, as linear facts. -/
theorem tdiv_million (x : Int) : ∃ k, x = x.tdiv 1000000 * 1000000 + k ∧ -1000000 < k ∧ k < 1000000 :=
  ⟨x.tmod 1000000, by have := Int.tmod_add_tdiv_mul x 1000000; omega,
    Int.lt_tmod_of_pos x (by decide), Int.tmod_lt_of_pos x (by decide)⟩

theorem Time.toInt_millis_ofMillis (ms : Int64) :
    (Time.ofMillis ms).millis.toInt = ((ms.toInt * 1000000).bmod (2 ^ 64)).tdiv 1000000 := by
  have h1000000 : (1000000 : Int64).toInt = 1000000 := by decide
  have hnano : (Time.ofMillis ms).unixNano.toInt = (ms.toInt * 1000000).bmod (2 ^ 64) := by
    rw [Time.unixNano, Time.ofMillis_ns]
    exact Int64.toInt_ofInt
  have hlo := Int64.le_toInt (Time.ofMillis ms).unixNano
  have hhi := Int64.toInt_lt (Time.ofMillis ms).unixNano
  obtain ⟨k, hk, hklo, hkhi⟩ := tdiv_million (Time.ofMillis ms).unixNano.toInt
  rw [Time.millis, Int64.toInt_div, h1000000, ← hnano]
  apply Int.bmod_eq_of_le <;> omega

/-- **Timestamps survive exactly within the range of `UnixNano`.** Outside of it the count of nanoseconds
    wraps, and what it wraps to is a time within the range. -/
theorem Time.millis_ofMillis_iff (ms : Int64) : (Time.ofMillis ms).millis = ms ↔ FitsUnixNano ms := by
  rw [← Int64.toInt_inj, Time.toInt_millis_ofMillis, FitsUnixNano]
  constructor
  · intro heq
    obtain ⟨k, hk, hklo, hkhi⟩ := tdiv_million ((ms.toInt * 1000000).bmod (2 ^ 64))
    -- the wrapped count differs from the true one by a multiple of 2^64, and here by less than a million
    rw [heq, Int.bmod_def] at hk
    omega
  · rintro ⟨hlo, hhi⟩
    rw [Int.bmod_eq_of_le (by omega) (by omega)]
    exact Int.mul_tdiv_cancel _ (by decide)

theorem be64_toUInt64_inj {m n : Int64} : be64 m.toUInt64 = be64 n.toUInt64 ↔ m = n := by
  constructor
  · intro h
    have hnat : m.toUInt64.toNat = n.toUInt64.toNat := by rw [← beNat_be64, ← beNat_be64, h]
    have heq := congrArg UInt64.toInt64 (UInt64.toNat_inj.mp hnat)
    rwa [Int64.toInt64_toUInt64, Int64.toInt64_toUInt64] at heq
  · rintro rfl
    rfl

/-- Two encodings of a list with elements of the same widths agree when they agree on the elements. -/
theorem flatMap_eq_flatMap_iff {α : Type} {f g : α → Bytes} (h : ∀ x, (f x).length = (g x).length)
    (l : List α) : l.flatMap f = l.flatMap g ↔ ∀ x ∈ l, f x = g x := by
  induction l with
  | nil => simp
  | cons x l ih =>
    rw [List.flatMap_cons, List.flatMap_cons, List.forall_mem_cons, ← ih]
    constructor
    · intro heq
      exact List.append_inj heq (h x)
    · rintro ⟨hx, hl⟩
      rw [hx, hl]

theorem writes_timestamp_iff (ms : Int64) :
    Writes (writeTimestamp (Time.ofMillis ms)) (timestamp :: be64 ms.toUInt64)
      ↔ FitsUnixNano ms := by
  have hwrites := writes_writeTimestamp (Time.ofMillis ms)
  rw [← Time.millis_ofMillis_iff, ← be64_toUInt64_inj]
  constructor
  · intro h
    exact (List.cons.inj (hwrites.unique h)).2
  · intro h
    rwa [encodeTimestamp, h] at hwrites

theorem writes_arrayTimestamp_iff (a : List Int64) :
    Writes (marshalArrayTimestamp (a.map Time.ofMillis))
        (encodeArray 8 timestamp (fun ms : Int64 => be64 ms.toUInt64) a)
      ↔ ∀ ms ∈ a, FitsUnixNano ms := by
  have hwrites : Writes (marshalArrayTimestamp (a.map Time.ofMillis)) (encodeArray 8 timestamp
      (fun ms => be64 (Time.ofMillis ms).millis.toUInt64) a) := by
    have h := writes_marshalArray 8 timestamp (fun t : Time => be64 t.millis.toUInt64)
      (a.map Time.ofMillis)
    rwa [encodeArray, List.length_map, List.flatMap_map] at h
  have hsame := flatMap_eq_flatMap_iff (f := fun ms => be64 (Time.ofMillis ms).millis.toUInt64)
    (g := fun ms : Int64 => be64 ms.toUInt64) (fun _ => rfl) a
  simp only [be64_toUInt64_inj, Time.millis_ofMillis_iff] at hsame
  rw [← hsame]
  constructor
  · intro h
    exact List.append_cancel_left (hwrites.unique h)
  · intro h
    rwa [encodeArray, h] at hwrites

/-- **Timestamps that are decoded and encoded again.** Every 64-bit count of milliseconds is decoded, alone
    and as an element of an array, whatever the form of the array; the encoding of what was decoded is the
    same count if and only if its nanoseconds fit in 64 bits. -/
theorem timestamps_survive_iff (rest : Bytes) :
    (∀ ms : Int64, ∃ t, Reads readTimestamp (timestamp :: be64 ms.toUInt64) rest t ∧
      (Writes (writeTimestamp t) (timestamp :: be64 ms.toUInt64) ↔ FitsUnixNano ms)) ∧
    (∀ (a : List Int64) (bs : Bytes), CompoundForm array8 array32 a.length
        (timestamp :: a.flatMap fun ms => be64 ms.toUInt64) bs →
      ∃ ts, Reads unmarshalArrayTimestamp bs rest ts ∧
        (Writes (marshalArrayTimestamp ts)
            (encodeArray 8 timestamp (fun ms : Int64 => be64 ms.toUInt64) a)
          ↔ ∀ ms ∈ a, FitsUnixNano ms)) := by
  constructor
  · intro ms
    exact ⟨_, reads_readTimestamp_any ms, writes_timestamp_iff ms⟩
  · intro a bs hform
    refine ⟨_, hform.reads_array ?_, writes_arrayTimestamp_iff a⟩
    refine reads_readElements_map Time.ofMillis _ a (fun _ _ => rfl) fun n _ tail => ?_
    simp only [uint64Element_be64, map_pure, Int64.toInt64_toUInt64]

theorem timestamps_survive_iff_signs :
    (∃ t, Reads readTimestamp (timestamp :: be64 (-1 : Int64).toUInt64) [] t ∧
      Writes (writeTimestamp t) (timestamp :: be64 (-1 : Int64).toUInt64)) ∧
    ∃ bs ts, Reads unmarshalArrayTimestamp bs [] ts ∧ Writes (marshalArrayTimestamp ts)
      (encodeArray 8 timestamp (fun ms : Int64 => be64 ms.toUInt64) [-1, 1]) := by
  obtain ⟨halone, harray⟩ := timestamps_survive_iff []
  constructor
  · obtain ⟨t, hreads, hiff⟩ := halone (-1)
    exact ⟨t, hreads, hiff.mpr (by decide +kernel)⟩
  · obtain ⟨ts, hreads, hiff⟩ := harray [-1, 1] _ (.short (by decide) (by decide))
    refine ⟨_, ts, hreads, hiff.mpr ?_⟩
    rw [List.forall_mem_cons, List.forall_mem_singleton]
    decide +kernel

/-- The last millisecond of the year 9999 is written as one of the year 1816. -/
theorem timestamp_year9999_distorted :
    Reads readTimestamp (timestamp :: be64 (253402300799999 : Int64).toUInt64) []
      (Time.ofMillis 253402300799999) ∧
    Writes (writeTimestamp (Time.ofMillis 253402300799999))
      (timestamp :: be64 (-4852116231934 : Int64).toUInt64) := by
  refine ⟨reads_readTimestamp_any _, ?_⟩
  have hmillis : (Time.ofMillis 253402300799999).millis = -4852116231934 := by decide +kernel
  have hwrites := writes_writeTimestamp (Time.ofMillis 253402300799999)
  rwa [encodeTimestamp, hmillis] at hwrites

/-! ## Durations -/

/-- The milliseconds whose nanoseconds are a `time.Duration`. -/
def FitsDuration (n : UInt64) : Prop := n.toNat * 1000000 < 2 ^ 63

theorem durationOfMillis_exact_iff (n : UInt64) :
    (0 ≤ (durationOfMillis n).toInt ∧ (durationOfMillis n).toInt = n.toNat * 1000000) ↔ FitsDuration n := by
  have hlt := Int64.toInt_lt (durationOfMillis n)
  rw [FitsDuration]
  constructor
  · rintro ⟨-, heq⟩
    omega
  · intro hfits
    rw [toInt_durationOfMillis, Int.bmod_eq_of_le (by omega) (by omega)]
    omega

/-- **Durations that are encoded and decoded, and decoded from any encoding.** `Milliseconds.Marshal` never
    fails; what `Unmarshal` makes of its output is the duration rounded down to a millisecond if and only
    if there are fewer than 2^32 of them. And from a number that `readUint` accepts, in whatever encoding,
    `Unmarshal` makes as many milliseconds if and only if their nanoseconds fit in a `time.Duration`. -/
theorem durations_exact_iff (rest : Bytes) :
    (∀ d : Duration, 0 ≤ d.toInt → ∃ bs d', Writes (marshalMilliseconds d) bs ∧
      Reads unmarshalMilliseconds bs rest d' ∧
      (d'.toInt = d.toInt / 1000000 * 1000000 ↔ d.toInt / 1000000 < 2 ^ 32)) ∧
    (∀ (r r' : Buffer) (n : UInt64), readUintValue.run r = .ok n r' →
      ∃ d, unmarshalMilliseconds.run r = .ok d r' ∧
        ((0 ≤ d.toInt ∧ d.toInt = n.toNat * 1000000) ↔ FitsDuration n)) := by
  constructor
  · intro d hd
    refine ⟨_, _, writes_writeUint32 _, .map durationOfMillis (reads_readUintValue _), ?_⟩
    have hexact := (durationOfMillis_exact_iff (d / 1000000).toUInt64.toUInt32.toUInt64).mpr
    have hnat := toNat_truncatedMillis hd
    rw [FitsDuration] at hexact
    obtain ⟨-, hread⟩ := hexact (by omega)
    rw [hread, hnat]
    omega
  · intro r r' n hrun
    refine ⟨durationOfMillis n, ?_, durationOfMillis_exact_iff n⟩
    rw [unmarshalMilliseconds, run_map, hrun]

theorem durations_exact_iff_second : ∃ bs d', Writes (marshalMilliseconds 1000000000) bs ∧
    Reads unmarshalMilliseconds bs [] d' ∧ d'.toInt = 1000000000 := by
  obtain ⟨bs, d', hw, hr, hiff⟩ := (durations_exact_iff []).1 1000000000 (by decide +kernel)
  exact ⟨bs, d', hw, hr, hiff.mpr (by decide +kernel)⟩

/-- 2^32 milliseconds are written as none; and some three hundred years are read as a negative duration. -/
theorem durations_distorted :
    (Writes (marshalMilliseconds 4294967296000000) [uint0] ∧ Reads unmarshalMilliseconds [uint0] [] 0) ∧
    (Reads readUintValue (TypeCode.ulong :: be64 9223372036855) [] 9223372036855 ∧
      Reads unmarshalMilliseconds (TypeCode.ulong :: be64 9223372036855) [] (-9223372036854551616)) := by
  have hulong : Reads readUintValue (TypeCode.ulong :: be64 9223372036855) [] 9223372036855 :=
    .bind_cons (reads_readByte TypeCode.ulong) (reads_readUint64 _)
  refine ⟨⟨?_, ?_⟩, hulong, (Reads.map durationOfMillis hulong).congr rfl (by decide +kernel)⟩
  · have hmillis : ((4294967296000000 : Duration) / 1000000).toUInt64.toUInt32 = 0 := by decide +kernel
    have hwrites := writes_writeUint32 ((4294967296000000 : Duration) / 1000000).toUInt64.toUInt32
    rwa [hmillis] at hwrites
  · exact (Reads.map durationOfMillis (reads_readUintValue 0)).congr rfl (by decide +kernel)

end GoAmqp
