import GoAmqp.Link.Confirmation
import GoAmqp.Lib.ExactCover

set_option autoImplicit false

/-! # What the batcher sends

`dispositionBatcher` on its own: it gets decisions, each an id with a state, and reads its timer, and it
sends disposition frames for ranges of ids. The frames sent and the open batch divide the decisions, as
an `ExactCover`, as long as the timer is read only while a batch is open.

The timer is set when a batch is opened and stopped when a batch is full. A batch that is sent because
of a decision that does not continue it leaves the timer running, and the read of the timer does not ask
whether a batch is open: it sends the range of the last batch again. -/

namespace GoAmqp

open Lib

/-- The ids of a disposition frame. -/
def SendDisposition.Covers (d : SendDisposition) (id : UInt32) : Prop := Within d.first (d.last.getD d.first) id

variable (b : Batcher) {s : ReceiverLink}

namespace Batcher

/-- The open batch. -/
def pending (b : Batcher) : List SendDisposition := if b.batchStarted then [b.current] else []

/-- The id is in the open batch. -/
def Open (b : Batcher) (id : UInt32) : Prop := b.batchStarted = true ∧ Within b.first b.last id

abbrev BatchTrace := Trace BatchInput SendDisposition

/-- The decision of a step. -/
def decision : BatchInput → Option (UInt32 × DeliveryState Value)
  | .submit id state => some (id, state)
  | _ => none

/-- The decisions that the batcher has taken up. -/
def submitted (trace : BatchTrace) : List (UInt32 × DeliveryState Value) := trace.filterMap fun l => decision l.1

/-- The dispositions that it has sent. -/
def sent (trace : BatchTrace) : List SendDisposition := trace.flatMap Prod.snd

/-- The id of a decision is new. -/
def Fresh (trace : BatchTrace) (l : BatchInput × List SendDisposition) : Prop :=
  ∀ id state, l.1 = .submit id state → id ∉ (submitted trace).map Prod.fst

/-- The timer is read while a batch is open. -/
def InTime (b : Batcher) (l : BatchInput × List SendDisposition) : Prop := l.1 = .expire → b.batchStarted = true

/-- No id is covered twice, an id is covered with the state that was decided for it, and every id that
    was decided is in the open batch or covered. -/
structure Exact (trace : BatchTrace) (b : Batcher) : Prop where
  once : (sent trace).Pairwise (Apart SendDisposition.Covers)
  decided : ∀ d ∈ sent trace, ∀ id, d.Covers id → (id, d.state) ∈ submitted trace
  rest : ∀ x ∈ submitted trace, b.Open x.1 ∨ ∃ d ∈ sent trace, d.Covers x.1

/-- The invariant of a batcher whose timer is read in time. -/
structure Divided (batchSize : UInt32) (trace : BatchTrace) (b : Batcher) : Prop where
  cover : ExactCover SendDisposition.Covers SendDisposition.state (b.pending ++ sent trace) (submitted trace)
  small : b.batchStarted = true → (b.last - b.first).toNat + 1 < batchSize.toNat
  closed : b.batchStarted = false → b.running = true ∨ b.fired = true → ∃ d ∈ sent trace, d.Covers b.first

section

variable {batchSize : UInt32} {trace : BatchTrace} {b b' : Batcher} {id : UInt32} {state : DeliveryState Value}

variable (h : Divided batchSize trace b)

include h

theorem Divided.exact : Exact trace b := by
  refine ⟨(List.pairwise_append.mp h.cover.apart).2.1, ?_, ?_⟩
  · intro d hd
    exact h.cover.sound d (List.mem_append_right _ hd)
  · intro x hx
    obtain ⟨d, hd, hcovers⟩ := h.cover.complete x hx
    rcases List.mem_append.mp hd with hd | hd
    · left
      unfold pending at hd
      split at hd
      · next hstarted =>
        rw [List.mem_singleton.mp hd] at hcovers
        exact ⟨hstarted, hcovers⟩
      · cases hd
    · exact .inr ⟨d, hd, hcovers⟩

omit h in
theorem Divided.zero : Divided batchSize [] zero :=
  ⟨.nil, (fun h => by cases h), (fun _ h => by rcases h with h | h <;> cases h)⟩

/-! ## Steps -/

/-- A decision that is sent by itself, after the open batch. -/
theorem Divided.alone (hnew : id ∉ (submitted trace).map Prod.fst) :
    Divided batchSize ((.submit id state, b.pending ++ [⟨id, none, state⟩]) :: trace)
      { b with batchStarted := false } := by
  have hcovers : ∀ i, (⟨id, none, state⟩ : SendDisposition).Covers i ↔ i = id := fun i => within_singleton
  refine ⟨?_, (fun h => by cases h), ?_⟩
  · have hcover := h.cover.cons hnew hcovers
    refine hcover.perm ?_
    show List.Perm _ (b.pending ++ [⟨id, none, state⟩] ++ sent trace)
    rw [List.append_assoc]
    exact List.perm_middle.symm
  · intro _ htimer
    show ∃ d ∈ b.pending ++ [⟨id, none, state⟩] ++ sent trace, d.Covers b.first
    cases hstarted : b.batchStarted with
    | true =>
      refine ⟨b.current, ?_, within_first _ _⟩
      simp [pending, hstarted]
    | false =>
      obtain ⟨d, hd, hfirst⟩ := h.closed hstarted htimer
      exact ⟨d, List.mem_append_right _ hd, hfirst⟩

/-- A decision that opens or continues the batch. -/
theorem Divided.extend (hnew : id ∉ (submitted trace).map Prod.fst) (hnext : b.batchStarted = true → id = b.last + 1) :
    ExactCover SendDisposition.Covers SendDisposition.state ((b.extend id).current :: sent trace)
      ((id, .accepted) :: submitted trace) := by
  have hcover := h.cover
  unfold Batcher.extend pending at *
  cases hstarted : b.batchStarted with
  | true =>
    have hsmall := h.small hstarted
    have hlt := batchSize.toNat_lt
    simp only [hstarted, if_true] at hcover ⊢
    refine hcover.grow hnew ?_ rfl
    intro i
    have hshort : (b.last - b.first).toNat + 1 < 2 ^ 32 := by omega
    rw [hnext hstarted]
    exact within_succ hshort
  | false =>
    simp only [hstarted, Bool.false_eq_true, if_false] at hcover ⊢
    exact hcover.cons hnew (fun i => within_singleton)

theorem length_extend (id : UInt32) : ((b.extend id).last - (b.extend id).first).toNat + 1 < 2 ^ 32 := by
  unfold Batcher.extend
  cases hstarted : b.batchStarted with
  | true =>
    have hsmall := h.small hstarted
    have hlt := batchSize.toNat_lt
    have hlen : b.last + 1 - b.first = b.last - b.first + 1 := by grind
    rw [if_pos rfl, hlen, UInt32.toNat_add, UInt32.toNat_one]
    omega
  | false => simp

omit h in
@[simp] theorem batchStarted_extend (id : UInt32) : (b.extend id).batchStarted = true := by
  unfold Batcher.extend
  split <;> simp_all

omit h in
@[simp] theorem batchStarted_stop : b.stop.batchStarted = b.batchStarted := by
  unfold stop
  split <;> rfl

omit h in
@[simp] theorem first_stop : b.stop.first = b.first := by
  unfold stop
  split <;> rfl

theorem Divided.submit (hnew : id ∉ (submitted trace).map Prod.fst) :
    Divided batchSize ((.submit id state, (b.submit batchSize id state).2) :: trace)
      (b.submit batchSize id state).1 := by
  unfold Batcher.submit
  split
  · exact h.alone hnew
  · next hjoins =>
    simp only [Bool.or_eq_true, Bool.not_eq_true', Bool.and_eq_true, bne_iff_ne, ne_eq, not_or, Bool.not_eq_false,
      not_and, not_not] at hjoins
    obtain ⟨haccept, hnext⟩ := hjoins
    obtain rfl : state = .accepted := by
      cases state <;> first | rfl | cases haccept
    have hcover := h.extend hnew (fun hstarted => (hnext hstarted).symm)
    split
    · refine ⟨?_, (fun hstarted => by simp at hstarted), ?_⟩
      · simpa [pending, submitted, sent, decision] using hcover
      · intro _ _
        refine ⟨(b.extend id).current, List.mem_append_left _ List.mem_cons_self, ?_⟩
        rw [first_stop]
        exact within_first _ _
    · next hopen =>
      refine ⟨?_, ?_, (fun hstarted => by simp at hstarted)⟩
      · simpa [pending, submitted, sent, decision] using hcover
      · intro _
        have hlength := length_extend h id
        rw [ge_iff_le, UInt32.le_iff_toNat_le, UInt32.toNat_add, UInt32.toNat_one, Nat.mod_eq_of_lt hlength] at hopen
        exact Nat.lt_of_not_le hopen

theorem Divided.fire (hrunning : b.running = true) : Divided batchSize ((.fire, []) :: trace) b.fire :=
  ⟨h.cover, h.small, fun hclosed _ => h.closed hclosed (.inl hrunning)⟩

/-- The timer is read while a batch is open. -/
theorem Divided.expire (hstarted : b.batchStarted = true) :
    Divided batchSize ((.expire, b.expire.2) :: trace) b.expire.1 := by
  refine ⟨?_, (fun h => by cases h), (fun _ htimer => by rcases htimer with h | h <;> cases h)⟩
  have hcover := h.cover
  rw [pending, if_pos hstarted] at hcover
  exact hcover

/-- The timer is read while no batch is open: the last batch is sent again. -/
theorem Divided.repeats (hstarted : b.batchStarted = false) (hfired : b.fired = true) :
    ¬ (sent ((.expire, b.expire.2) :: trace)).Pairwise (Apart SendDisposition.Covers) := by
  obtain ⟨d, hd, hfirst⟩ := h.closed hstarted (.inr hfired)
  intro hapart
  exact (List.pairwise_cons.mp hapart).1 d hd b.first (within_first _ _) hfirst

theorem Divided.step {l : BatchInput × List SendDisposition} (hstep : Fires (Batcher.step batchSize) b l b')
    (hfresh : Fresh trace l) (htime : InTime b l) : Divided batchSize (l :: trace) b' := by
  obtain ⟨i, events⟩ := l
  cases i with
  | submit id state =>
    have hsubmit : Divided batchSize ((.submit id state, (b.submit batchSize id state).2) :: trace)
        (b.submit batchSize id state).1 := h.submit (hfresh id state rfl)
    rwa [Option.some.inj hstep] at hsubmit
  | fire =>
    simp only [Fires, Batcher.step] at hstep
    split at hstep
    · next hrunning =>
      cases hstep
      exact h.fire hrunning
    · cases hstep
  | expire =>
    simp only [Fires, Batcher.step] at hstep
    split at hstep
    · have hexpire := h.expire (htime rfl)
      rwa [Option.some.inj hstep] at hexpire
    · cases hstep

end

end Batcher

open Batcher

/-- **Every decision is sent once.** As long as the timer was read only while a batch was open, the frames
    sent are exact, and the next step keeps them so if and only if it does not read the timer without an
    open batch. -/
theorem decisions_sent_once (batchSize : UInt32) {trace : BatchTrace} {b : Batcher}
    (hrun : RunIf (Fires (Batcher.step batchSize)) (fun trace b l => Fresh trace l ∧ b.InTime l) .zero trace b) :
    Exact trace b ∧ ∀ l b', Fires (Batcher.step batchSize) b l b' → Fresh trace l →
      (Exact (l :: trace) b' ↔ b.InTime l) := by
  have hdivided : Divided batchSize trace b := by
    refine hrun.invariant (P := Divided batchSize) .zero ?_
    intro trace b l b' h hstep hguard
    exact h.step hstep hguard.1 hguard.2
  refine ⟨hdivided.exact, ?_⟩
  intro l b' hstep hfresh
  refine ⟨?_, fun htime => (hdivided.step hstep hfresh htime).exact⟩
  rintro hexact hexpire
  obtain ⟨i, events⟩ := l
  dsimp only at hexpire
  subst hexpire
  by_contra hclosed
  simp only [Fires, Batcher.step] at hstep
  split at hstep
  · next hfired =>
    cases hstep
    exact hdivided.repeats (by simpa using hclosed) hfired hexact.once
  · cases hstep

namespace Batcher

/-- A test that implies `Fresh`. -/
def fresh (trace : BatchTrace) : BatchInput → Bool
  | .submit id _ => !((submitted trace).map Prod.fst).contains id
  | _ => true

theorem fresh_of_test (trace : BatchTrace) (i : BatchInput) (events : List SendDisposition)
    (h : fresh trace i = true) : Fresh trace (i, events) := by
  intro id state hi
  dsimp only at hi
  subst hi
  simpa [fresh] using h

/-- A test that implies `InTime`. -/
def inTime (b : Batcher) : BatchInput → Bool
  | .expire => b.batchStarted
  | _ => true

theorem inTime_of_test (i : BatchInput) (events : List SendDisposition) (h : b.inTime i = true)
    : b.InTime (i, events) := by
  intro hi
  dsimp only at hi
  subst hi
  exact h

/-- The ranges of frames. -/
def ranges (frames : List SendDisposition) : List (UInt32 × Option UInt32) := frames.map fun d => (d.first, d.last)

end Batcher

/-- Two ids in order are sent when the timer is read. -/
theorem decisions_sent_once_two :
    ∃ (trace : BatchTrace) (b : Batcher),
      RunIf (Fires (Batcher.step 10)) (fun trace b l => Fresh trace l ∧ b.InTime l) .zero trace b ∧
      (submitted trace).length = 2 ∧ ranges (sent trace) = [(1, some 2)] ∧
      Exact trace b := by
  have hexec : (execIf (Batcher.step 10) (fun trace b i => fresh trace i && b.inTime i) [] .zero
      [.submit 1 .accepted, .submit 2 .accepted, .fire, .expire]).map (fun res =>
        ((submitted res.1).length, ranges (sent res.1))) = some (2, [(1, some 2)]) := by
    decide +kernel
  obtain ⟨⟨trace, b⟩, hexec, hres⟩ := Option.map_eq_some_iff.mp hexec
  simp only [Prod.mk.injEq] at hres
  have hrun : RunIf (Fires (Batcher.step 10)) (fun trace b l => Fresh trace l ∧ b.InTime l) .zero trace b := by
    refine RunIf.of_execIf ?_ _ .start hexec
    intro trace b i events hok
    rw [Bool.and_eq_true] at hok
    exact ⟨fresh_of_test trace i events hok.1, b.inTime_of_test i events hok.2⟩
  exact ⟨trace, b, hrun, hres.1, hres.2, (decisions_sent_once 10 hrun).1⟩

/-- The second id does not continue the batch of the first, which is sent for that reason, and again when
    the timer runs out. -/
theorem decision_sent_twice :
    ∃ (trace : BatchTrace) (b : Batcher),
      RunIf (Fires (Batcher.step 10)) (fun trace _ l => Fresh trace l) .zero trace b ∧
      (submitted trace).map Prod.fst = [5, 1] ∧
      ranges (sent trace) = [(1, some 1), (1, some 1), (5, none)] := by
  have hexec : (execIf (Batcher.step 10) (fun trace _ i => fresh trace i) [] .zero
      [.submit 1 .accepted, .submit 5 .accepted, .fire, .expire]).map (fun res =>
        ((submitted res.1).map Prod.fst, ranges (sent res.1)))
      = some ([5, 1], [(1, some 1), (1, some 1), (5, none)]) := by
    decide +kernel
  obtain ⟨⟨trace, b⟩, hexec, hres⟩ := Option.map_eq_some_iff.mp hexec
  simp only [Prod.mk.injEq] at hres
  exact ⟨trace, b, RunIf.of_execIf (fun trace _ => fresh_of_test trace) _ .start hexec, hres⟩

/-! ## The batcher of a link -/

namespace ReceiverLink

theorem batcher_removeID (s : ReceiverLink) (id : UInt32) (err : Option SettleError) :
    (s.removeID id err).batcher = s.batcher := by
  unfold removeID
  split <;> rfl

/-- What the mux causes in the link leaves the batcher as it is. -/
theorem foldl_handle_batcher (events : List ReceiverEvent) (s : ReceiverLink) :
    (events.foldl handle s).batcher = s.batcher := by
  induction events generalizing s with
  | nil => rfl
  | cons e events ih =>
    rw [List.foldl_cons, ih]
    cases e with
    | remove id err => exact batcher_removeID s id _
    | _ => rfl

end ReceiverLink

/-- The batcher of a link takes steps of `Batcher.step`, and the frames they give are the ones it sends. -/
theorem ReceiverLink.step_batcher {s' : ReceiverLink} {i : SettleInput} {events : List ReceiverEvent}
    (h : s.step i = some (s', events)) :
    s'.batcher = s.batcher ∨
      ∃ j frames, s.batcher.step s.mux.maxCredit j = some (s'.batcher, frames) ∧
        (s'.batcherPhase = .after frames ∨ frames = []) := by
  cases step_effect h with
  | mux i events m => exact .inl (foldl_handle_batcher events { s with mux := m })
  | batched _ j dispositions batcher frames hstep => exact .inr ⟨j, frames, hstep, .inl rfl⟩
  | fired hrunning => exact .inr ⟨.fire, [], if_pos hrunning, .inr rfl⟩
  | removed i last e todo => exact .inl (batcher_removeID s i (some e))
  | entered | registered | moved | completed | batcherMoved | failed => exact .inl rfl

theorem ReceiverLink.step_maxCredit {s' : ReceiverLink} {i : SettleInput} {events : List ReceiverEvent}
    (hattached : s.mux.receiver.detached = none) (h : s.step i = some (s', events)) :
    s'.mux.maxCredit = s.mux.maxCredit := by
  rcases step_mux h with hmux | ⟨j, events', hstep, -⟩
  · rw [hmux]
  · exact (ReceiverMux.step_config hattached hstep).maxCredit

/-- The batcher of a link that was just made runs as `dispositionBatcher`, with the maximum credit as the
    size of a batch. -/
theorem ReceiverLink.batcher_runs (maxMessageSize : UInt64) (mode : Option ReceiverSettleMode)
    (initialDeliveryCount handle : UInt32) (autoSendFlow : Bool) (maxCredit : UInt32) (batching : Bool)
    {trace : Trace SettleInput ReceiverEvent}
    (hrun : Run (Fires ReceiverLink.step) (.start maxMessageSize mode initialDeliveryCount handle autoSendFlow maxCredit batching) trace s) :
    ∃ batches, Run (Fires (Batcher.step maxCredit)) .zero batches s.batcher := by
  have hinvariant : s.mux.receiver.detached = none ∧ s.mux.maxCredit = maxCredit ∧
      ∃ batches, Run (Fires (Batcher.step maxCredit)) .zero batches s.batcher := by
    refine hrun.invariant (P := fun _ (s : ReceiverLink) => s.mux.receiver.detached = none ∧
      s.mux.maxCredit = maxCredit ∧ ∃ batches, Run (Fires (Batcher.step maxCredit)) .zero batches s.batcher)
      ⟨rfl, rfl, [], .start⟩ ?_
    rintro trace s ⟨i, events⟩ s' ⟨hattached, hmax, batches, hbatches⟩ hstep
    refine ⟨step_attached hattached hstep, (step_maxCredit hattached hstep).trans hmax, ?_⟩
    rcases step_batcher hstep with hsame | ⟨j, frames, hbatch, -⟩
    · exact ⟨batches, hsame ▸ hbatches⟩
    · rw [hmax] at hbatch
      exact ⟨(j, frames) :: batches, .step hbatches hbatch⟩
  exact hinvariant.2.2

end GoAmqp
