import GoAmqp.Link.ReceiverMux
import GoAmqp.Lib.Credit

set_option autoImplicit false

/-! # The credit of a receiver stays within its maximum

The credit a receiver has given, the credit it is about to give and its unsettled messages together
never exceed `maxCredit`. A step that completes a message takes one credit and may add one unsettled
message; a step of an iteration moves what is about to be given on towards the available credit. Only
`IssueCredit` adds to the sum, and its check covers neither the credits that still wait in the creditor
nor an overflow of its own sum. -/

namespace GoAmqp

open Lib ReceiverMux

variable {s s' : ReceiverMux} {credits : UInt32} {events : List ReceiverEvent}

/-- The transfer completes a message. -/
def Receiver.completes (r : Receiver) (fr : PerformTransfer) : Bool :=
  decide ((r.muxReceive fr).1.messages.length > r.messages.length)

namespace ReceiverMux

/-- The number of unsettled messages. -/
def unsettled (s : ReceiverMux) : Nat := s.receiver.unsettledMessages.length

/-- The credit that the mux or the creditor is about to add. -/
def promised (s : ReceiverMux) : Nat :=
  s.creditor.creditsToAdd.toNat +
    match s.phase with
    | .issuing pendingCredit => pendingCredit.toNat
    | .muxFlow credits false => credits.toNat - s.availableCredit.toNat
    | _ => 0

/-- What holds of the mux's local variables. -/
def Stage (s : ReceiverMux) : Prop :=
  match s.phase with
  | .issuing _ => s.autoSendFlow = true
  | .muxFlow credits false => s.availableCredit.toNat ≤ credits.toNat
  | _ => True

/-- The credit given, that promised and the unsettled messages stay within the maximum. -/
structure Bounded (s : ReceiverMux) : Prop where
  bound : s.availableCredit.toNat + s.promised + s.unsettled ≤ s.maxCredit.toNat
  stage : s.Stage
  auto : s.autoSendFlow = true → s.issuer = none ∧ (s.phase ≠ .flowBits → s.creditor.creditsToAdd = 0)
  attached : s.receiver.detached = none

/-- A call of `IssueCredit` whose check is exact: no other credits wait, the sum does not overflow, and
    no message has been completed since it has read the number of unsettled ones. -/
def ChecksAll (s : ReceiverMux) : Prop :=
  ∀ credits unsettled, s.issuer = some (credits, unsettled) →
    s.creditor.creditsToAdd = 0 ∧ (∀ c, s.phase ≠ .muxFlow c false) ∧ s.unsettled ≤ unsettled.toNat ∧
      credits.toNat + unsettled.toNat + s.availableCredit.toNat < 2 ^ 32

/-- Messages are completed on credit. -/
def OnCredit (s : ReceiverMux) (i : ReceiverInput) : Prop :=
  ∀ fr, i = .rx (.transfer fr) → s.receiver.completes fr = true → s.availableCredit ≠ 0

theorem promised_eq (hissuing : ∀ p, s.phase ≠ .issuing p)
    (hflow : ∀ credits, s.phase ≠ .muxFlow credits false) : s.promised = s.creditor.creditsToAdd.toNat := by
  unfold promised
  split
  · next p hp => exact absurd hp (hissuing p)
  · next credits hp => exact absurd hp (hflow credits)
  · rfl

theorem ne_of_plain {p p' : ReceiverPhase} (h : plain p = true) (h' : plain p' = false) : p ≠ p' := by
  rintro rfl
  rw [h] at h'
  cases h'

theorem promised_of_plain (h : plain s.phase = true) : s.promised = s.creditor.creditsToAdd.toNat :=
  promised_eq (fun _ => ne_of_plain h rfl) (fun _ => ne_of_plain h rfl)

theorem stage_of_plain (h : plain s.phase = true) : s.Stage := by
  unfold Stage
  split
  · next p hp => exact absurd hp (ne_of_plain h rfl)
  · next credits hp => exact absurd hp (ne_of_plain h rfl)
  · trivial

theorem Bounded.start (maxMessageSize : UInt64) (mode : Option ReceiverSettleMode)
    (initialDeliveryCount handle : UInt32) (autoSendFlow : Bool) (maxCredit : UInt32) :
    Bounded (.start maxMessageSize mode initialDeliveryCount handle autoSendFlow maxCredit) :=
  ⟨Nat.zero_le _, trivial, fun _ => ⟨rfl, fun _ => rfl⟩, rfl⟩

/-- A step from one plain phase to another that takes no more than it gives. -/
theorem Bounded.of_plain (h : Bounded s) (hplain : plain s.phase = true) (hplain' : plain s'.phase = true)
    (hauto : s'.autoSendFlow = s.autoSendFlow) (hmax : s'.maxCredit = s.maxCredit) (hissuer : s'.issuer = s.issuer)
    (hadd : s'.creditor.creditsToAdd = s.creditor.creditsToAdd) (hattached : s'.receiver.detached = none)
    (hsum : s'.availableCredit.toNat + s'.unsettled ≤ s.availableCredit.toNat + s.unsettled) : Bounded s' := by
  have hbound := h.bound
  rw [promised_of_plain hplain] at hbound
  refine ⟨?_, stage_of_plain hplain', ?_, hattached⟩
  · rw [promised_of_plain hplain', hadd, hmax]
    omega
  · rw [hauto, hissuer, hadd]
    intro hon
    obtain ⟨hnone, hzero⟩ := h.auto hon
    exact ⟨hnone, fun _ => hzero (ne_of_plain hplain rfl)⟩

theorem length_unsettledAfter_le (r : Receiver) (tag : Bytes) :
    (r.unsettledAfter tag).length ≤ r.unsettledMessages.length + 1 := by
  unfold Receiver.unsettledAfter
  split
  · rw [List.insert]
    split
    · omega
    · simp
  · omega

/-- A transfer takes a credit for the message it completes, and adds at most that message to the
    unsettled ones. -/
theorem muxReceive_sum_le {r : Receiver} (hattached : r.detached = none) {fr : PerformTransfer}
    (hcredit : r.completes fr = true → r.availableCredit ≠ 0) :
    (r.muxReceive fr).1.availableCredit.toNat + (r.muxReceive fr).1.unsettledMessages.length
      ≤ r.availableCredit.toNat + r.unsettledMessages.length := by
  have heffect := Receiver.muxReceive_effect hattached fr
  unfold Receiver.completes at hcredit
  generalize (r.muxReceive fr).1 = r' at heffect hcredit ⊢
  cases heffect with
  | kept => exact Nat.le_refl _
  | received m =>
    have hne : r.availableCredit ≠ 0 := hcredit (by simp [Receiver.received])
    have hpos := toNat_pos_of_ne_zero hne
    have hlen := length_unsettledAfter_le r (m.deliveryTag.getD [])
    simp only [Receiver.received, toNat_sub_one hne]
    omega

/-! ## The steps of an iteration -/

theorem Bounded.countUnsettled_toNat (h : Bounded s) : s.countUnsettled.toNat = s.unsettled := by
  have hbound := h.bound
  have hmax := s.maxCredit.toNat_lt
  unfold countUnsettled unsettled at *
  rw [UInt32.toNat_ofNat']
  exact Nat.mod_eq_of_lt (by omega)

/-- What can be reclaimed is computed without overflow. -/
theorem Bounded.pendingCredit_toNat (h : Bounded s) :
    s.pendingCredit.toNat + (s.availableCredit.toNat + s.unsettled) = s.maxCredit.toNat := by
  have hbound := h.bound
  have hmax := s.maxCredit.toNat_lt
  have hused : (s.availableCredit + s.countUnsettled).toNat = s.availableCredit.toNat + s.unsettled := by
    rw [UInt32.toNat_add, h.countUnsettled_toNat]
    exact Nat.mod_eq_of_lt (by omega)
  have hle : s.availableCredit + s.countUnsettled ≤ s.maxCredit := by
    rw [UInt32.le_iff_toNat_le, hused]
    omega
  rw [pendingCredit, UInt32.toNat_sub_of_le _ _ hle, hused]
  omega

theorem Bounded.check (h : Bounded s) (hphase : s.phase = .looping) : Bounded s.check := by
  have hplain : plain s.phase = true := by rw [hphase]; rfl
  have hbound := h.bound
  rw [promised_of_plain hplain] at hbound
  unfold ReceiverMux.check
  split
  · next hreclaim =>
    obtain ⟨hnone, hzero⟩ := h.auto hreclaim.2
    have hadd := hzero (ne_of_plain hplain rfl)
    have hpending := h.pendingCredit_toNat
    refine ⟨?_, hreclaim.2, fun _ => ⟨hnone, fun _ => hadd⟩, h.attached⟩
    show s.availableCredit.toNat + (s.creditor.creditsToAdd.toNat + s.pendingCredit.toNat) + s.unsettled
      ≤ s.maxCredit.toNat
    rw [hadd, UInt32.toNat_zero]
    omega
  · exact ⟨hbound, trivial, fun hon => ⟨(h.auto hon).1, fun hne => absurd rfl hne⟩, h.attached⟩

theorem issueCredit_ok {unsettled : UInt32} {mc mc' : Creditor} {available max : UInt32}
    (h : mc.issueCredit credits unsettled available max = .ok mc') :
    mc' = { mc with creditsToAdd := mc.creditsToAdd + credits } ∧ mc.drained = false ∧
      (credits + unsettled + available).toNat ≤ max.toNat := by
  unfold Creditor.issueCredit at h
  split at h
  · cases h
  · next hdrained =>
    split at h
    · cases h
    · next hle =>
      cases h
      exact ⟨rfl, by simpa using hdrained, UInt32.le_iff_toNat_le.mp (by simpa using hle)⟩

theorem Bounded.issue (h : Bounded s) {p : UInt32} (hphase : s.phase = .issuing p) : Bounded (s.issue p) := by
  have hauto : s.autoSendFlow = true := by
    have hstage := h.stage
    rwa [Stage, hphase] at hstage
  obtain ⟨hnone, hzero⟩ := h.auto hauto
  have hadd : s.creditor.creditsToAdd = 0 := hzero (by rw [hphase]; simp)
  have hbound := h.bound
  simp only [promised, hphase, hadd, UInt32.toNat_zero] at hbound
  unfold ReceiverMux.issue
  split
  · next mc hissue =>
    obtain ⟨rfl, -, -⟩ := issueCredit_ok hissue
    refine ⟨?_, trivial, fun _ => ⟨hnone, fun hne => absurd rfl hne⟩, h.attached⟩
    show s.availableCredit.toNat + ((s.creditor.creditsToAdd + p).toNat + 0) + s.unsettled ≤ s.maxCredit.toNat
    rw [hadd, UInt32.zero_add]
    omega
  · refine ⟨?_, trivial, fun _ => ⟨hnone, fun _ => hadd⟩, h.attached⟩
    show s.availableCredit.toNat + (s.creditor.creditsToAdd.toNat + 0) + s.unsettled ≤ s.maxCredit.toNat
    rw [hadd, UInt32.toNat_zero]
    omega

/-- `FlowBits` empties the creditor; the mux goes on with a drain, with the credits of the creditor added
    to the available ones, or with no flow frame. -/
theorem flowBits_cases (s : ReceiverMux) :
    ∃ p, s.flowBits = { s with
        creditor := { s.creditor with pendingDrain := false, creditsToAdd := 0 }, phase := p } ∧
      (p = .selecting ∨ p = .muxFlow 0 true ∧ s.creditor.pendingDrain = true ∨
        p = .muxFlow (s.creditor.creditsToAdd + s.availableCredit) false) := by
  by_cases hdrain : s.creditor.pendingDrain = true
  · exact ⟨_, by simp [flowBits, Creditor.flowBits, hdrain], .inr (.inl ⟨rfl, hdrain⟩)⟩
  · by_cases hadd : s.creditor.creditsToAdd = 0
    · exact ⟨_, by simp [flowBits, Creditor.flowBits, hdrain, hadd], .inl rfl⟩
    · by_cases hpos : s.creditor.creditsToAdd + s.availableCredit > 0
      · refine ⟨_, ?_, .inr (.inr rfl)⟩
        simp [flowBits, Creditor.flowBits, hdrain, hadd, hpos]
      · refine ⟨_, ?_, .inl rfl⟩
        simp [flowBits, Creditor.flowBits, hdrain, hadd, hpos]

theorem Bounded.flowBits (h : Bounded s) (hphase : s.phase = .flowBits) : Bounded s.flowBits := by
  have hbound := h.bound
  have hmax := s.maxCredit.toNat_lt
  have hauto : s.autoSendFlow = true → s.issuer = none := fun hon => (h.auto hon).1
  simp only [promised, hphase, Nat.add_zero] at hbound
  have hsum : (s.creditor.creditsToAdd + s.availableCredit).toNat
      = s.creditor.creditsToAdd.toNat + s.availableCredit.toNat := by
    rw [UInt32.toNat_add]
    exact Nat.mod_eq_of_lt (by omega)
  obtain ⟨p, hbits, hp⟩ := s.flowBits_cases
  rw [hbits]
  rcases hp with rfl | ⟨rfl, -⟩ | rfl
  · refine ⟨?_, trivial, fun hon => ⟨hauto hon, fun _ => rfl⟩, h.attached⟩
    show s.availableCredit.toNat + 0 + s.unsettled ≤ s.maxCredit.toNat
    omega
  · refine ⟨?_, trivial, fun hon => ⟨hauto hon, fun _ => rfl⟩, h.attached⟩
    show s.availableCredit.toNat + 0 + s.unsettled ≤ s.maxCredit.toNat
    omega
  · refine ⟨?_, ?_, fun hon => ⟨hauto hon, fun _ => rfl⟩, h.attached⟩
    · show s.availableCredit.toNat
          + (0 + ((s.creditor.creditsToAdd + s.availableCredit).toNat - s.availableCredit.toNat))
          + s.unsettled ≤ s.maxCredit.toNat
      omega
    · show s.availableCredit.toNat ≤ (s.creditor.creditsToAdd + s.availableCredit).toNat
      omega

theorem Bounded.muxFlow (h : Bounded s) {drain : Bool} (hphase : s.phase = .muxFlow credits drain) :
    Bounded (s.muxFlow credits drain).1 := by
  have hbound := h.bound
  have hauto : s.autoSendFlow = true → s.issuer = none ∧ s.creditor.creditsToAdd = 0 := by
    intro hon
    obtain ⟨hnone, hzero⟩ := h.auto hon
    exact ⟨hnone, hzero (by rw [hphase]; simp)⟩
  cases drain with
  | true =>
    simp only [promised, hphase] at hbound
    exact ⟨hbound, trivial, fun hon => ⟨(hauto hon).1, fun _ => (hauto hon).2⟩, h.attached⟩
  | false =>
    have hle : s.availableCredit.toNat ≤ credits.toNat := by
      have hstage := h.stage
      rwa [Stage, hphase] at hstage
    simp only [promised, hphase] at hbound
    refine ⟨?_, trivial, fun hon => ⟨(hauto hon).1, fun _ => (hauto hon).2⟩, h.attached⟩
    show credits.toNat + (s.creditor.creditsToAdd.toNat + 0) + s.unsettled ≤ s.maxCredit.toNat
    omega

/-! ## All steps -/

/-- A call of `IssueCredit` that is accepted keeps the bound if its check is exact. -/
theorem Bounded.issueCheck {unsettled : UInt32} (h : Bounded s) (hissuer : s.issuer = some (credits, unsettled))
    (hchecks : s.ChecksAll) : Bounded (s.issueCheck credits unsettled).1 := by
  obtain ⟨hadd, hflow, hread, hfits⟩ := hchecks credits unsettled hissuer
  have hmanual : ¬ s.autoSendFlow = true := by
    intro hon
    rw [(h.auto hon).1] at hissuer
    cases hissuer
  have hissuing : ∀ p, s.phase ≠ .issuing p := by
    intro p hp
    have hstage := h.stage
    rw [Stage, hp] at hstage
    exact hmanual hstage
  have hbound := h.bound
  rw [promised_eq hissuing hflow] at hbound
  unfold ReceiverMux.issueCheck
  split
  · next mc hissue =>
    obtain ⟨rfl, -, hle⟩ := issueCredit_ok hissue
    have hsum : (credits + unsettled + s.availableCredit).toNat
        = credits.toNat + unsettled.toNat + s.availableCredit.toNat := by
      rw [UInt32.toNat_add, UInt32.toNat_add]
      omega
    refine ⟨?_, h.stage, fun hon => absurd hon hmanual, h.attached⟩
    rw [promised_eq (by exact hissuing) (by exact hflow)]
    show s.availableCredit.toNat + (s.creditor.creditsToAdd + credits).toNat + s.unsettled ≤ s.maxCredit.toNat
    rw [hadd, UInt32.zero_add]
    omega
  · refine ⟨?_, h.stage, fun hon => absurd hon hmanual, h.attached⟩
    rw [promised_eq (by exact hissuing) (by exact hflow)]
    exact hbound

/-- Steps that change nothing of what the bound is about. -/
theorem Bounded.congr (h : Bounded s) (hphase : s'.phase = s.phase) (hauto : s'.autoSendFlow = s.autoSendFlow)
    (hmax : s'.maxCredit = s.maxCredit) (hadd : s'.creditor.creditsToAdd = s.creditor.creditsToAdd)
    (hissuer : s.autoSendFlow = true → s'.issuer = s.issuer) (hcredit : s'.availableCredit = s.availableCredit)
    (hattached : s'.receiver.detached = s.receiver.detached) (hunsettled : s'.unsettled ≤ s.unsettled) :
    Bounded s' := by
  have hbound := h.bound
  refine ⟨?_, ?_, ?_, ?_⟩
  · simp only [promised, hphase, hadd, hcredit, hmax] at hbound ⊢
    omega
  · have hstage := h.stage
    simpa only [Stage, hphase, hauto, hcredit] using hstage
  · intro hon
    rw [hauto] at hon
    rw [hissuer hon, hphase, hadd]
    exact h.auto hon
  · rw [hattached]
    exact h.attached

theorem Bounded.drainCredit (h : Bounded s) : Bounded s.drainCredit.1 := by
  unfold ReceiverMux.drainCredit Creditor.drain
  split
  · next creditor hdrain =>
    split at hdrain
    · cases hdrain
    · cases hdrain
      exact h.congr rfl rfl rfl rfl (fun _ => rfl) rfl rfl (Nat.le_refl _)
  · exact h

theorem Bounded.step {i : ReceiverInput} (h : Bounded s) (hstep : s.step i = some (s', events))
    (hcredit : s.OnCredit i) (hissue : i = .issueCheck → s.ChecksAll) : Bounded s' := by
  have heffect := step_effect hstep
  cases heffect with
  | checked hphase => exact h.check hphase
  | issued p hphase _ => exact h.issue hphase
  | bits hphase _ => exact h.flowBits hphase
  | built credits drain hphase => exact h.muxFlow hphase
  | handedOver fr hphase =>
    exact h.of_plain (by rw [hphase]; rfl) rfl rfl rfl rfl rfl h.attached (Nat.le_refl _)
  | received fr p hplain _ hp =>
    exact h.of_plain hplain hp.plain rfl rfl rfl rfl (Receiver.muxReceive_detached h.attached fr)
      (muxReceive_sum_le h.attached (hcredit fr rfl))
  | echoed fr p hplain hp => exact h.of_plain hplain hp.plain rfl rfl rfl rfl h.attached (Nat.le_refl _)
  | drained fr p hplain _ hp =>
    refine h.of_plain hplain hp.plain rfl rfl rfl rfl h.attached ?_
    show 0 + s.unsettled ≤ _
    omega
  | moved _ _ p _ _ hplain hp _ => exact h.of_plain hplain hp.plain rfl rfl rfl rfl h.attached (Nat.le_refl _)
  | drainEnded _ _ p hplain _ hp _ => exact h.of_plain hplain hp.plain rfl rfl rfl rfl h.attached (Nat.le_refl _)
  | took m messages _ => exact h.congr rfl rfl rfl rfl (fun _ => rfl) rfl rfl (Nat.le_refl _)
  | signalled => exact h.congr rfl rfl rfl rfl (fun _ => rfl) rfl rfl (Nat.le_refl _)
  | deleted tag => exact h.congr rfl rfl rfl rfl (fun _ => rfl) rfl rfl List.length_erase_le
  | refused => exact h
  | asked credits hmanual _ _ =>
    exact h.congr rfl rfl rfl rfl (fun hon => by rw [hmanual] at hon; cases hon) rfl rfl (Nat.le_refl _)
  | answered credits unsettled hissuer => exact h.issueCheck hissuer (hissue rfl)
  | drains _ _ => exact h.drainCredit

/-! ## Flow frames -/

/-- The flow frame that an event builds. -/
def builtFlow : ReceiverEvent → Option PerformFlow
  | .flow fr => some fr
  | .txFrame (.flow fr) => some fr
  | _ => none

theorem flowOf_of_builtFlow {e : ReceiverEvent} {fr : PerformFlow} (h : builtFlow e = some fr) :
    flowOf e = some fr := by
  unfold builtFlow at h
  split at h
  · exact h
  · exact h
  · cases h

/-- The link credit of a flow frame leaves room for the unsettled messages, unless the frame drains. -/
def FlowBounded (s : ReceiverMux) (e : ReceiverEvent) : Prop :=
  ∀ fr, builtFlow e = some fr → fr.drain = false →
    ∃ credit, fr.linkCredit = some credit ∧ credit.toNat + s.unsettled ≤ s.maxCredit.toNat

theorem flowBounded_of_silent (h : Silent events) : ∀ e ∈ events, FlowBounded s e := by
  intro e he fr hfr
  have hnone := h e he
  rw [flowOf_of_builtFlow hfr] at hnone
  cases hnone

theorem Bounded.built (h : Bounded s) {drain : Bool} (hphase : s.phase = .muxFlow credits drain) :
    ∀ e ∈ (s.muxFlow credits drain).2, FlowBounded (s.muxFlow credits drain).1 e := by
  intro e he fr hfr hdrain
  rw [List.mem_singleton.mp he] at hfr
  cases hfr
  have hno : drain = false := hdrain
  subst hno
  refine ⟨credits, rfl, ?_⟩
  have hbound := h.bound
  simp only [promised, hphase] at hbound
  show credits.toNat + s.unsettled ≤ s.maxCredit.toNat
  have hle : s.availableCredit.toNat ≤ credits.toNat := by
    have hstage := h.stage
    rwa [Stage, hphase] at hstage
  omega

theorem Bounded.flows {i : ReceiverInput} (h : Bounded s) (hstep : s.step i = some (s', events)) :
    ∀ e ∈ events, FlowBounded s' e := by
  have heffect := step_effect hstep
  cases heffect with
  | built credits drain hphase => exact h.built hphase
  | handedOver fr =>
    intro e he fr hfr
    rw [List.mem_singleton.mp he] at hfr
    cases hfr
  | echoed fr p =>
    intro e he fr hfr _
    rw [List.mem_singleton.mp he] at hfr
    cases hfr
    have hbound := h.bound
    exact ⟨s.availableCredit, rfl, show s.availableCredit.toNat + s.unsettled ≤ s.maxCredit.toNat by omega⟩
  | moved _ _ _ _ _ _ _ hsilent => exact flowBounded_of_silent hsilent
  | drainEnded _ _ _ _ _ _ hsilent => exact flowBounded_of_silent hsilent
  | refused _ _ hsilent => exact flowBounded_of_silent hsilent
  | took m => exact flowBounded_of_silent (silent_singleton rfl)
  | answered credits unsettled => exact flowBounded_of_silent (silent_issueCheck s credits unsettled)
  | drains => exact flowBounded_of_silent (silent_drainCredit s)
  | _ => exact flowBounded_of_silent silent_nil

/-- A call that asks for more than there is room for is refused, if its check is exact. -/
theorem issueCheck_refused {unsettled : UInt32}
    (hissuer : s.issuer = some (credits, unsettled)) (hchecks : s.ChecksAll)
    (hover : s.maxCredit.toNat < credits.toNat + s.creditor.creditsToAdd.toNat + s.unsettled + s.availableCredit.toNat) :
    ∃ text, s.issueCheck credits unsettled = ({ s with issuer := none }, [.issued credits (some text)]) := by
  obtain ⟨hadd, -, hread, hfits⟩ := hchecks credits unsettled hissuer
  unfold issueCheck
  cases hissue : s.creditor.issueCredit credits unsettled s.availableCredit s.maxCredit with
  | ok mc =>
    obtain ⟨-, -, hle⟩ := issueCredit_ok hissue
    rw [UInt32.toNat_add, UInt32.toNat_add] at hle
    rw [hadd, UInt32.toNat_zero] at hover
    omega
  | error text => exact ⟨text, rfl⟩

/-- The condition on the steps of a receiver with manual credits. -/
structure Careful (_ : Trace ReceiverInput ReceiverEvent) (s : ReceiverMux)
    (l : ReceiverInput × List ReceiverEvent) : Prop where
  onCredit : s.OnCredit l.1
  checks : l.1 = .issueCheck → s.ChecksAll

theorem run_bounded {s₀ : ReceiverMux} {trace : Trace ReceiverInput ReceiverEvent} (h₀ : Bounded s₀)
    (hrun : RunIf (Fires ReceiverMux.step) Careful s₀ trace s) : Bounded s ∧ s.maxCredit = s₀.maxCredit := by
  refine hrun.invariant (P := fun _ (s : ReceiverMux) => Bounded s ∧ s.maxCredit = s₀.maxCredit) ⟨h₀, rfl⟩ ?_
  intro trace s l s' hs hstep hguard
  exact ⟨hs.1.step hstep hguard.onCredit hguard.checks, ((step_config hs.1.attached hstep).maxCredit).trans hs.2⟩

end ReceiverMux

open ReceiverMux

/-- **Manual credit stays within the maximum.** In every run of a receiver with manual credits whose
    steps meet the condition, a flow frame that a step builds and that does not drain has a link credit
    that leaves room for the unsettled messages, and a call of `IssueCredit` that asks for more than
    there is room for returns an error and leaves the creditor as it is. -/
theorem manual_credit_bounded (maxMessageSize : UInt64) (mode : Option ReceiverSettleMode)
    (initialDeliveryCount handle maxCredit : UInt32) {trace : Trace ReceiverInput ReceiverEvent}
    {s s' : ReceiverMux} {l : ReceiverInput × List ReceiverEvent}
    (hrun : RunIf (Fires ReceiverMux.step) Careful
      (.start maxMessageSize mode initialDeliveryCount handle false maxCredit) trace s)
    (hstep : Fires ReceiverMux.step s l s') (hguard : Careful trace s l) :
    (∀ e ∈ l.2, ∀ fr, builtFlow e = some fr → fr.drain = false →
      ∃ credit, fr.linkCredit = some credit ∧ credit.toNat + s'.receiver.unsettledMessages.length ≤ maxCredit.toNat) ∧
    (∀ credits unsettled, l.1 = .issueCheck → s.issuer = some (credits, unsettled) →
      maxCredit.toNat < credits.toNat + s.creditor.creditsToAdd.toNat + s.receiver.unsettledMessages.length
        + s.receiver.availableCredit.toNat →
      (∃ text, l.2 = [.issued credits (some text)]) ∧ s'.creditor = s.creditor) := by
  obtain ⟨hbounded, hmax⟩ := run_bounded (.start _ _ _ _ _ _) hrun
  have hmax' : s'.maxCredit = maxCredit := (step_config hbounded.attached hstep).maxCredit.trans hmax
  constructor
  · intro e he fr hfr hdrain
    have hflow := hbounded.flows hstep e he fr hfr hdrain
    rwa [hmax'] at hflow
  · intro credits unsettled hi hissuer hover
    have hmaxCredit : s.maxCredit = maxCredit := hmax
    obtain ⟨text, hrefused⟩ := issueCheck_refused hissuer (hguard.checks hi) (by rwa [hmaxCredit])
    obtain ⟨i, events⟩ := l
    dsimp only at hi
    subst hi
    have hresult : some (s.issueCheck credits unsettled) = some (s', events) := by
      have hfires : s.step .issueCheck = some (s', events) := hstep
      simpa only [ReceiverMux.step, hissuer] using hfires
    rw [hrefused] at hresult
    cases hresult
    exact ⟨⟨text, rfl⟩, rfl⟩

namespace ReceiverMux

/-- A receiver with manual credits and a maximum of ten. -/
def manualTen : ReceiverMux := .start 0 none 0 0 false 10

/-- The mux is between `FlowBits` and the update of the credit. -/
def addsCredit : ReceiverPhase → Bool
  | .muxFlow _ false => true
  | _ => false

/-- `Careful`, as a test. -/
def carefully (_ : Trace ReceiverInput ReceiverEvent) (s : ReceiverMux) : ReceiverInput → Bool
  | .rx (.transfer fr) => !s.receiver.completes fr || s.availableCredit != 0
  | .issueCheck =>
    s.issuer.all fun (credits, unsettled) =>
      s.creditor.creditsToAdd == 0 && !addsCredit s.phase && decide (s.unsettled ≤ unsettled.toNat) &&
        decide (credits.toNat + unsettled.toNat + s.availableCredit.toNat < 2 ^ 32)
  | _ => true

theorem careful_of_carefully (trace : Trace ReceiverInput ReceiverEvent) (s : ReceiverMux) (i : ReceiverInput)
    (events : List ReceiverEvent) (h : carefully trace s i = true) : Careful trace s (i, events) := by
  constructor
  · rintro fr hi hcompletes
    dsimp only at hi
    subst hi
    simpa [carefully, hcompletes] using h
  · rintro hi credits unsettled hissuer
    dsimp only at hi
    subst hi
    simp only [carefully, hissuer, Option.all_some, Bool.and_eq_true, beq_iff_eq, Bool.not_eq_true',
      decide_eq_true_eq] at h
    obtain ⟨⟨⟨hadd, hphase⟩, hread⟩, hfits⟩ := h
    refine ⟨hadd, ?_, hread, hfits⟩
    intro c hc
    rw [hc] at hphase
    cases hphase

end ReceiverMux

/-- A call for ten credits, the next iteration of the mux and the flow frame it builds. -/
theorem manual_credit_bounded_ten :
    ∃ (trace : Trace ReceiverInput ReceiverEvent) (s s' : ReceiverMux) (events : List ReceiverEvent)
      (fr : PerformFlow), RunIf (Fires ReceiverMux.step) Careful manualTen trace s ∧
      Fires ReceiverMux.step s (.muxFlow, events) s' ∧ events.filterMap builtFlow = [fr] ∧
      ∃ credit, fr.linkCredit = some credit ∧
        credit.toNat + s'.receiver.unsettledMessages.length ≤ (10 : UInt32).toNat := by
  have hexec : ((execIf ReceiverMux.step carefully [] manualTen
      [.check, .flowBits, .issueCredit 10, .issueCheck, .signal, .ready, .check, .flowBits]).bind fun res =>
        (res.2.step .muxFlow).map fun out =>
          (out.2.filterMap builtFlow).map fun fr => (fr.linkCredit, fr.drain))
        = some [(some 10, false)] := by decide +kernel
  obtain ⟨⟨trace, s⟩, hexec, hstep⟩ := Option.bind_eq_some_iff.mp hexec
  obtain ⟨⟨s', events⟩, hstep, hflows⟩ := Option.map_eq_some_iff.mp hstep
  obtain ⟨fr, hfr, hfields⟩ := List.map_eq_singleton_iff.mp hflows
  have hrun := RunIf.of_execIf careful_of_carefully _ .start hexec
  have hmem : fr ∈ events.filterMap builtFlow := by rw [hfr]; exact List.mem_singleton_self fr
  obtain ⟨e, he, hbuilt⟩ := List.mem_filterMap.mp hmem
  have hbound := (manual_credit_bounded 0 none 0 0 10 hrun (l := (.muxFlow, events)) hstep
    (careful_of_carefully trace s .muxFlow events rfl)).1 e he fr hbuilt (congrArg Prod.snd hfields)
  exact ⟨trace, s, s', events, fr, hrun, hstep, hfr, hbound⟩

/-- Two calls for ten credits each before the mux comes round: both pass the check against the maximum
    of ten, and the flow frame gives twenty. -/
theorem manual_credit_exceeded :
    ∃ (trace : Trace ReceiverInput ReceiverEvent) (s : ReceiverMux), Run (Fires ReceiverMux.step) manualTen trace s ∧
      (trace.flatMap fun l => l.2.filterMap builtFlow).map (fun fr => (fr.linkCredit, fr.drain))
        = [(some 20, false)] := by
  refine ⟨_, _, .of_exec [.check, .flowBits, .issueCredit 10, .issueCheck, .signal, .issueCredit 10, .issueCheck,
    .signal, .ready, .check, .flowBits, .muxFlow] .start rfl, ?_⟩
  decide +kernel

end GoAmqp
