import GoAmqp.Encoding.MapRounds
import GoAmqp.Message.Shrinks
import GoAmqp.Safety

set_option autoImplicit false

/-! # Decoding ends and stays inside the buffer

The results of the previous modules put together: `ReadAny` is a recursion on the number of unread
bytes, no decoder moves the cursor back or past the end, every decoder that returns has read
something, every round of `Message.Unmarshal` takes two bytes, and the entry loop of a map is bounded
by its count, unless the count is 2^32 − 1 and 2^33 bytes follow the header. -/

namespace GoAmqp

open Lib Buffer Layout
open TypeCode hiding null

/-! ## Bounds that are not reached -/

variable {σ α β : Type} {r : Buffer}

/-- A reader that follows a scanner does not reach its depth bound if the scanner does not. -/
theorem fault?_ne_depth {S : σ → Bytes → Prop} {R : α → β → Prop} {m : EStateM Fault σ α} {s : σ}
    {sc : Scanner β} {bs : Bytes} {Q : β → Bytes → Prop} (h : InStepAt S Stops R m s sc bs)
    (hbound : Outcome sc bs Q (· ≠ .exhausted)) : fault? (m.run s) ≠ some .depth := by
  intro hdepth
  cases hm : m.run s with
  | ok a s' => simp [hm, fault?] at hdepth
  | error f s' =>
    have hf : f = .depth := by simpa [hm, fault?] using hdepth
    subst hf
    unfold InStepAt at h
    rw [hm] at h
    cases hsc : sc.run bs with
    | ok b rest =>
      rw [hsc] at h
      exact h.elim
    | error d rest =>
      rw [hsc] at h
      have hstop : some Stop.exhausted = some d := h
      exact hbound.error hsc (Option.some.inj hstop).symm

theorem at_unread (h : r.WF) : At r r.unread := ⟨h, rfl⟩

/-! ## The rounds of `Message.Unmarshal` -/

section Rounds

variable {s s' : Sections × Buffer} {t : UInt8} {n : Nat}

/-- Behind a header of two bytes or more at least these are gone. -/
theorem left_of_skip {k : IntoM Sections Unit} [Steps OnwardInto k] (hn : 2 ≤ n ∧ n ≤ leftInto s)
    (hrun : (do onBuffer (skip n); k).run s = .ok () s') : leftInto s' + 2 ≤ leftInto s := by
  have hk : k.run (s.1, s.2.advance n) = .ok () s' := hrun
  have hle : leftInto s' ≤ (s.2.advance n).left := (Steps.ok k hk : OnwardInto _ _).left_le
  have hadvance : (s.2.advance n).left = leftInto s - n := by
    simp only [leftInto, Buffer.left, Buffer.advance]
    omega
  omega

/-- What the first of two steps takes is gone behind the second. -/
theorem left_of_first {left : σ → Nat} {m : EStateM Fault σ α} {f : α → EStateM Fault σ β} {k : Nat}
    [hf : ∀ a, Shrinks left (f a)] (hm : ∀ s a s', m.run s = .ok a s' → left s' + k ≤ left s) {s s' : σ}
    {b : β} (hrun : (m >>= f).run s = .ok b s') : left s' + k ≤ left s := by
  obtain ⟨a, t, hfirst, hsecond⟩ := Consumes.bind_ok hrun
  have hle := (hf a).le t
  rw [hsecond] at hle
  exact Nat.le_trans (Nat.add_le_add_right hle k) (hm s a t hfirst)

/-- A composite has a zero byte and a descriptor. -/
theorem left_of_compositeHeader {r' : Buffer} {a : UInt8 × Nat} (hrun : readCompositeHeader.run r = .ok a r')
    : r'.left + 2 ≤ r.left := by
  obtain ⟨t, r₁, htype, hrest⟩ := Consumes.bind_ok hrun
  have h₁ := (inferInstance : Consumes Buffer.left readType).lt r t r₁ htype
  split at hrest
  · cases hrest
  · have h₂ := left_of_first (k := 1) (inferInstance : Consumes Buffer.left readUlong).lt hrest
    omega

theorem left_of_composite {type_ : UInt8} {fields : List (UnmarshalField σ)} [h : FieldsStep fields]
    {s s' : σ × Buffer} (hrun : (unmarshalComposite type_ fields).run s = .ok () s')
    : leftInto s' + 2 ≤ leftInto s := by
  have hpresent : ∀ n, Steps OnwardInto (unmarshalFields 0 (fields.take n)) := fun n =>
    steps_unmarshalFields 0 fun f hf => h.field f (List.mem_of_mem_take hf)
  unfold unmarshalComposite at hrun
  refine left_of_first (m := onBuffer readCompositeHeader) (fun t a t' hheader => ?_) hrun
  cases hm : readCompositeHeader.run t.2 with
  | ok b r =>
    rw [run_onBuffer hm] at hheader
    injection hheader with _ ht
    rw [← ht]
    exact left_of_compositeHeader hm
  | error e r =>
    rw [run_onBuffer_error hm] at hheader
    cases hheader

theorem run_orNull {m : IntoM σ Unit} {s : σ × Buffer} (h : ∀ rest, s.2.unread ≠ TypeCode.null :: rest)
    : (orNull m).run s = m.run s := by
  rcases tryReadNull_cases s.2 with ⟨rest, hu, -⟩ | ⟨-, hfalse⟩
  · exact absurd hu (h rest)
  · rw [orNull, EStateM.run_bind, run_onBuffer hfalse]
    rfl

/-- In front of a zero byte nothing is passed over as a null, so a section that is read through a
    pointer is read as a composite. -/
theorem left_of_assignPtr {τ : Type} {part : Sections → Option τ} {put : Option τ → Sections → Sections}
    {zero : τ} {m : IntoM τ Unit} (hm : ∀ t t', m.run t = .ok () t' → leftInto t' + 2 ≤ leftInto t)
    (hhead : s.2.unread.head? = some 0) (hrun : (assignPtr part put zero m).run s = .ok () s') :
    leftInto s' + 2 ≤ leftInto s := by
  have hnull : ∀ rest, s.2.unread ≠ TypeCode.null :: rest := by
    intro rest hu
    rw [hu] at hhead
    cases hhead
  rw [assignPtr, run_orNull hnull] at hrun
  have hzoom : zoom _ _ (orNull m) s = .ok () s' := hrun
  unfold zoom at hzoom
  rw [run_orNull (s := ((part s.1).getD zero, s.2)) hnull] at hzoom
  cases hread : m.run ((part s.1).getD zero, s.2) with
  | ok a t =>
    rw [hread] at hzoom
    injection hzoom with _ hs
    rw [← hs]
    exact hm _ t hread
  | error e t =>
    rw [hread] at hzoom
    cases hzoom

theorem left_readSection (hp : descriptorByte s.2.unread = some (t, n))
    (hrun : (readSection t n).run s = .ok () s') : leftInto s' + 2 ≤ leftInto s := by
  obtain ⟨hhead, htwo, hle⟩ := descriptorByte_head hp
  have hn : 2 ≤ n ∧ n ≤ leftInto s := by
    rw [leftInto, left_eq_length_unread]
    exact ⟨htwo, hle⟩
  unfold readSection at hrun
  split_ifs at hrun
  · exact left_of_assignPtr (fun _ _ => left_of_composite) hhead hrun
  · exact left_of_skip hn hrun
  · exact left_of_skip hn hrun
  · exact left_of_assignPtr (fun _ _ => left_of_composite) hhead hrun
  · exact left_of_skip hn hrun
  · exact left_of_skip hn hrun
  · exact left_of_skip hn hrun
  · exact left_of_skip hn hrun
  · exact left_of_skip hn hrun
  · cases hrun

/-- **A round of the section loop that does not fail takes at least two bytes.** -/
theorem left_sectionRound (hrun : sectionRound.run s = .ok () s') : leftInto s' + 2 ≤ leftInto s := by
  rcases sectionRound_cases s with ⟨t, n, hp, heq⟩ | ⟨f, heq⟩
  · exact left_readSection hp (heq ▸ hrun)
  · rw [heq] at hrun
    cases hrun

end Rounds

/-! ## All decoders -/

/-- What a call of a decoder keeps to, wherever the cursor stands: the bytes of the buffer stay, the
    cursor goes neither back nor past the end, and a call that returns has read something. -/
structure Inside {α : Type} (m : BufM α) : Prop where
  onward : ∀ r, Onward r (stateAfter (m.run r))
  consumes : ∀ r a r', m.run r = .ok a r' → r'.left < r.left

/-- A decoder into a record stays inside the buffer, and consumes when it returns. -/
structure InsideInto {σ : Type} (m : IntoM σ Unit) : Prop where
  onward : ∀ s, OnwardInto s (stateAfter (m.run s))
  consumes : ∀ s s', m.run s = .ok () s' → leftInto s' < leftInto s

theorem Inside.of (m : BufM α) [h : Steps Onward m] [hc : Consumes Buffer.left m] : Inside m := ⟨h.after, hc.lt⟩

theorem InsideInto.of (m : IntoM σ Unit) [h : Steps OnwardInto m] [hc : Consumes leftInto m] : InsideInto m :=
  ⟨h.after, fun s => hc.lt s ()⟩

/-- The readers that `Unmarshal` and `ReadAny` choose from. -/
def valueDecoders : List (Σ α : Type, BufM α) := [
  ⟨_, readAny⟩, ⟨_, readBool⟩, ⟨_, readUbyte⟩, ⟨_, readUshort⟩, ⟨_, readUint32Value⟩, ⟨_, readUlong⟩,
  ⟨_, readSbyte⟩, ⟨_, readShort⟩, ⟨_, readInt32⟩, ⟨_, readLong⟩, ⟨_, readFloat⟩, ⟨_, readDouble⟩,
  ⟨_, readString⟩, ⟨_, readBinary⟩, ⟨_, readTimestamp⟩, ⟨_, readUUID⟩, ⟨_, unmarshalMilliseconds⟩,
  ⟨_, unmarshalArrayUByte⟩, ⟨_, unmarshalArrayInt8⟩, ⟨_, unmarshalArrayUint16⟩,
  ⟨_, unmarshalArrayInt16⟩, ⟨_, unmarshalArrayUint32⟩, ⟨_, unmarshalArrayInt32⟩,
  ⟨_, unmarshalArrayUint64⟩, ⟨_, unmarshalArrayInt64⟩, ⟨_, unmarshalArrayFloat⟩,
  ⟨_, unmarshalArrayDouble⟩, ⟨_, unmarshalArrayBool⟩, ⟨_, unmarshalArrayString⟩,
  ⟨_, unmarshalArraySymbol⟩, ⟨_, unmarshalArrayBinary⟩, ⟨_, unmarshalArrayTimestamp⟩,
  ⟨_, unmarshalArrayUUID⟩, ⟨_, unmarshalMultiSymbol⟩, ⟨_, unmarshalList readAny⟩,
  ⟨_, unmarshalMapAnyAny readAny⟩, ⟨_, unmarshalMapStringAny readAny⟩,
  ⟨_, unmarshalAnnotations readAny⟩, ⟨_, unmarshalUnsettled⟩, ⟨_, unmarshalFilter⟩,
  ⟨_, unmarshalDescribed readAny⟩, ⟨_, unmarshalDeliveryState readAny⟩, ⟨_, unmarshalLifetimePolicy⟩,
  ⟨_, parseBody⟩]

/-- The records that are decoded by `UnmarshalComposite`. -/
def recordDecoders : List (Σ σ : Type, IntoM σ Unit) := [
  ⟨_, unmarshalError readAny⟩, ⟨_, unmarshalStateReceived⟩, ⟨_, unmarshalStateRejected readAny⟩,
  ⟨_, unmarshalStateModified readAny⟩, ⟨_, Source.unmarshal⟩, ⟨_, Target.unmarshal⟩,
  ⟨_, PerformOpen.unmarshal⟩, ⟨_, PerformBegin.unmarshal⟩, ⟨_, PerformAttach.unmarshal⟩,
  ⟨_, PerformFlow.unmarshal⟩, ⟨_, PerformTransfer.unmarshal⟩, ⟨_, PerformDisposition.unmarshal⟩,
  ⟨_, PerformDetach.unmarshal⟩, ⟨_, PerformEnd.unmarshal⟩, ⟨_, PerformClose.unmarshal⟩,
  ⟨_, SASLMechanisms.unmarshal⟩, ⟨_, SASLChallenge.unmarshal⟩, ⟨_, SASLOutcome.unmarshal⟩,
  ⟨_, MessageHeader.unmarshal⟩, ⟨_, MessageProperties.unmarshal⟩]

instance : Consumes leftInto MessageHeader.unmarshal := by unfold MessageHeader.unmarshal; infer_instance

instance : Consumes leftInto MessageProperties.unmarshal := by
  unfold MessageProperties.unmarshal
  infer_instance

theorem valueDecoders_inside : ∀ d ∈ valueDecoders, Inside d.2 := by
  simp only [valueDecoders, List.forall_mem_cons]
  repeat' apply And.intro
  all_goals first | exact Inside.of _ | exact fun _ h => absurd h List.not_mem_nil

theorem recordDecoders_inside : ∀ d ∈ recordDecoders, InsideInto d.2 ∧ InsideInto (orNull d.2) := by
  simp only [recordDecoders, List.forall_mem_cons]
  repeat' apply And.intro
  all_goals first | exact InsideInto.of _ | exact fun _ h => absurd h List.not_mem_nil

/-- `Unmarshal` into a variable adds the test for null. -/
theorem Inside.assign {m : BufM α} (h : Inside m) (put : α → σ → σ) : InsideInto (assign m put) := by
  have hsteps : Steps Onward m := ⟨h.onward⟩
  have hconsumes : Consumes Buffer.left m := ⟨h.consumes⟩
  exact InsideInto.of _

/-- A map decoder, with a round of its entry loop. -/
structure MapDecoder where
  {key value : Type}
  decode : BufM (List (key × value))
  round : List (key × value) → BufM (List (key × value))
  loops : decode = unmarshalMap round

/-- The entry loop of the decoder, run at `r`, is over when it has made as many rounds as the header
    declares. -/
def MapDecoder.CountsRounds (d : MapDecoder) (r : Buffer) : Prop :=
  d.decode.run r = (unmarshalMapWithin d.round).run r

/-- The decoders of maps, each with the round of its loop. -/
def mapDecoders : List MapDecoder := [
  ⟨unmarshalMapAnyAny readAny, mapAnyAnyRound, rfl⟩, ⟨unmarshalMapStringAny readAny, _, rfl⟩,
  ⟨unmarshalAnnotations readAny, _, rfl⟩, ⟨unmarshalUnsettled, _, rfl⟩, ⟨unmarshalFilter, _, rfl⟩]

theorem mapDecoders_rounds : ∀ d ∈ mapDecoders, ∀ m r m' r',
    (d.round m).run r = .ok m' r' → r'.left + 2 ≤ r.left := by
  simp only [mapDecoders, List.forall_mem_cons]
  refine ⟨?_, ?_, ?_, ?_, ?_, fun _ hd => absurd hd List.not_mem_nil⟩
  iterate 3 exact fun _ _ _ _ => left_of_two
  iterate 2 exact fun _ _ _ _ => left_of_two (h := fun _ => consumes_orNull)

/-- A count that the counter cannot pass, with room for 2^32 rounds behind the header, is outrun by
    `mapAnyAny` over nulls. -/
theorem countsRounds_iff (count : UInt32) (n : Nat) :
    (∀ d ∈ mapDecoders, ∀ r r', readMapHeader.run r = .ok count r' → r'.left = n → d.CountsRounds r) ↔
      count ≠ 0xffffffff ∨ n < 2 ^ 33 := by
  constructor
  · intro h
    by_contra hnot
    simp only [not_or, not_not, Nat.not_lt] at hnot
    obtain ⟨rfl, hn⟩ := hnot
    obtain ⟨r₀, r₁, r₂, hheader, hleft, hwithin, hrun⟩ := run_largestMap hn
    have hcounts := h _ (List.mem_cons_self ..) _ r₀ hheader hleft
    have hsame := (hrun.symm.trans hcounts).trans hwithin
    cases hsame
  · rintro h d hd r r' hheader rfl
    unfold MapDecoder.CountsRounds
    rw [d.loops]
    exact run_unmarshalMap_eq (mapDecoders_rounds d hd) hheader h

/-- **Decoding ends and stays inside the buffer**, for every buffer with its cursor anywhere in it.
    * `ReadAny` is `readAnyBelow`: every nested call finds strictly fewer unread bytes.
    * Every decoder, into a variable or into a record, leaves the bytes alone, moves the cursor neither
      back nor past the end, and reads something if it returns.
    * The entry loops of the maps run at most as often as their headers declare, for all contents of `n`
      bytes, if and only if the count is not 2^32 − 1 or `n` is less than 2^33.
    * `Message.Unmarshal` ends, and each of its rounds takes two bytes or fails. -/
theorem decoding_terminates (r : Buffer) (hwf : r.WF) :
    (readAny.run r = (readAnyBelow r.left).run r ∧ fault? (readAny.run r) ≠ some .depth) ∧
    (∀ d ∈ valueDecoders, Inside d.2 ∧ ∀ (σ : Type) (put : d.1 → σ → σ), InsideInto (assign d.2 put)) ∧
    (∀ d ∈ recordDecoders, InsideInto d.2 ∧ InsideInto (orNull d.2)) ∧
    (∀ (count : UInt32) (n : Nat),
      (∀ d ∈ mapDecoders, ∀ r r', readMapHeader.run r = .ok count r' → r'.left = n → d.CountsRounds r) ↔
        count ≠ 0xffffffff ∨ n < 2 ^ 33) ∧
    (∀ s s' : Sections × Buffer, sectionRound.run s = .ok () s' → leftInto s' + 2 ≤ leftInto s) ∧
    ∀ msg : Message, OnwardInto (msg, r) (stateAfter (Message.unmarshal.run (msg, r))) ∧
      fault? (Message.unmarshal.run (msg, r)) ≠ some .depth := by
  refine ⟨⟨(run_readAnyBelow (Nat.le_refl _)).symm, ?_⟩, fun d hd => ⟨?_, fun σ put => ?_⟩,
    recordDecoders_inside, countsRounds_iff, fun _ _ => left_sectionRound, fun msg => ⟨?_, ?_⟩⟩
  · exact fault?_ne_depth (follows_readAny r _ (at_unread hwf)) (advances_any _ _ (Nat.lt_succ_self _))
  · exact valueDecoders_inside d hd
  · exact (valueDecoders_inside d hd).assign put
  · exact Steps.after (m := Message.unmarshal) (msg, r)
  · exact fault?_ne_depth (follows_unmarshal (msg, r) _ (at_unread hwf)) (outcome_message _)

/-- The cursor on the first of two nulls in a list, and on a map of one string and a number. -/
theorem decoding_terminates_in_list :
    fault? (readAny.run ⟨[list8, 3, 2, TypeCode.null, TypeCode.null], 3⟩) ≠ some .depth ∧
    ∀ d ∈ mapDecoders, d.CountsRounds ⟨[7, map8, 6, 2, str8, 1, 0x6b, ubyte, 9], 1⟩ := by
  obtain ⟨⟨-, hdepth⟩, -, -, hcounts, -⟩ := decoding_terminates
    ⟨[list8, 3, 2, TypeCode.null, TypeCode.null], 3⟩ (show 3 ≤ 5 by decide)
  exact ⟨hdepth, fun d hd => (hcounts 2 5).mpr (.inl (by decide)) d hd _ _ rfl rfl⟩

/-- 2^33 nulls behind the header of a map that declares 2^32 − 1 keys and values: the loop has made
    2^32 rounds when it is stopped, and was not over. -/
theorem map_loop_outruns_count :
    ∃ bs : Bytes, bs.length = 9 + 2 ^ 33 ∧ bs.take 9 = [map32, 0, 0, 0, 0, 0xff, 0xff, 0xff, 0xff] ∧
      ∃ round, unmarshalMapAnyAny readAny = unmarshalMap round ∧
        ∃ r', (unmarshalMapWithin round).run (.new bs) = .error .depth r' := by
  obtain ⟨-, r', -, -, -, hwithin, -⟩ := run_largestMap (Nat.le_refl (2 ^ 33))
  refine ⟨largestMap (2 ^ 33), ?_, rfl, mapAnyAnyRound, rfl, r', hwithin⟩
  simp only [largestMap, List.length_append, List.length_cons, length_be32, List.length_replicate]

end GoAmqp
