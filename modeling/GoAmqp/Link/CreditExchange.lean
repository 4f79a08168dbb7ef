import GoAmqp.Link.CreditBound
import GoAmqp.Link.Reassembly

set_option autoImplicit false

/-! # Credit between a receiver and its peer

A receiver with automatic flow and a sending peer, with the flow frames that are on their way to the
peer and the frames that are on their way to the receiver, both first in, first out. The peer starts a
delivery only below the delivery limit, delivery-count plus link-credit, of the latest flow frame it
has received. It may put anything into its transfers, and may send any other frame at any time.

The receiver's mux updates its credit when it builds a flow frame, before the session takes the frame;
transfers that arrive in between use the new credit already. The proof counts deliveries without bound:
`D` is the receiver's delivery-count and `L` the limit it has given. Every flow frame that is built,
held or on its way announces a limit of at most `L`, and no delivery is started past it. -/

namespace GoAmqp

open Lib ReceiverMux List

/-- A sending peer. -/
structure SendingPeer where
  /-- its delivery-count, counted on without bound -/
  count : Nat
  /-- the delivery limit of the latest flow frame it has received -/
  limit : Nat
  /-- it has started a delivery and neither ended nor aborted it -/
  opened : Bool

namespace SendingPeer

/-- The delivery-count of a flow frame is the latest number with its 32 bits that is not ahead of the
    peer's own count. -/
def countOf (p : SendingPeer) (deliveryCount : UInt32) : Nat := p.count - (UInt32.ofNat p.count - deliveryCount).toNat

/-- A flow frame that sets no delivery-count or no link-credit leaves the limit as it is. -/
def receiveFlow (p : SendingPeer) (fr : PerformFlow) : SendingPeer :=
  match fr.deliveryCount, fr.linkCredit with
  | some deliveryCount, some linkCredit => { p with limit := p.countOf deliveryCount + linkCredit.toNat }
  | _, _ => p

/-- The first transfer of a delivery. A delivery that is aborted may be taken out of the count. -/
def first (p : SendingPeer) (fr : PerformTransfer) (counted : Bool) : SendingPeer :=
  { p with
    count := if fr.aborted && !counted then p.count else p.count + 1
    opened := fr.more && !fr.aborted }

/-- A later one. -/
def later (p : SendingPeer) (fr : PerformTransfer) (counted : Bool) : SendingPeer :=
  { p with
    count := if fr.aborted && !counted then p.count - 1 else p.count
    opened := fr.more && !fr.aborted }

end SendingPeer

/-- A receiver, its peer, and the flows and transfers on their way. -/
structure CreditExchange where
  mux : ReceiverMux
  peer : SendingPeer
  toPeer : List PerformFlow
  fromPeer : List FrameBody

/-- A step of the receiver, of its peer, or of the network. -/
inductive CreditInput where
  /-- a step of the receiver for which it takes no frame -/
  | mux (i : ReceiverInput)
  /-- the receiver takes the next frame of the peer -/
  | rx
  /-- the peer takes the next flow frame of the receiver -/
  | flow
  | first (fr : PerformTransfer) (counted : Bool)
  | later (fr : PerformTransfer) (counted : Bool)
  /-- the peer sends a frame that is no transfer -/
  | send (body : FrameBody)

namespace CreditExchange

/-- The flow frame that an event puts on its way. -/
def sentFlow : ReceiverEvent → Option PerformFlow
  | .tx (.flow fr) => some fr
  | .txFrame (.flow fr) => some fr
  | _ => none

def isRx : ReceiverInput → Bool
  | .rx _ => true
  | _ => false

def isTransfer : FrameBody → Bool
  | .transfer _ => true
  | _ => false

/-- A step of the receiver, after which the frames in `fromPeer` are still to come. -/
def muxStep (s : CreditExchange) (i : ReceiverInput) (fromPeer : List FrameBody) :
    Option (CreditExchange × List ReceiverEvent) :=
  match s.mux.step i with
  | some (mux, events) =>
    some ({ s with mux := mux, toPeer := s.toPeer ++ events.filterMap sentFlow, fromPeer := fromPeer }, events)
  | none => none

/-- One step of the two; frames arrive in their order. -/
def step (s : CreditExchange) : CreditInput → Option (CreditExchange × List ReceiverEvent)
  | .mux i => if isRx i then none else s.muxStep i s.fromPeer
  | .rx =>
    match s.fromPeer with
    | body :: fromPeer => s.muxStep (.rx body) fromPeer
    | [] => none
  | .flow =>
    match s.toPeer with
    | fr :: toPeer => some ({ s with peer := s.peer.receiveFlow fr, toPeer := toPeer }, [])
    | [] => none
  | .first fr counted =>
    if s.peer.opened = false ∧ s.peer.count < s.peer.limit then
      some ({ s with peer := s.peer.first fr counted, fromPeer := s.fromPeer ++ [.transfer fr] }, [])
    else none
  | .later fr counted =>
    if s.peer.opened then
      some ({ s with peer := s.peer.later fr counted, fromPeer := s.fromPeer ++ [.transfer fr] }, [])
    else none
  | .send body => if isTransfer body then none else some ({ s with fromPeer := s.fromPeer ++ [body] }, [])

/-- After the attach: the peer has no credit. -/
def start (maxMessageSize : UInt64) (mode : Option ReceiverSettleMode) (initialDeliveryCount handle maxCredit : UInt32) :
    CreditExchange where
  mux := .start maxMessageSize mode initialDeliveryCount handle true maxCredit
  peer := { count := initialDeliveryCount.toNat, limit := initialDeliveryCount.toNat, opened := false }
  toPeer := []
  fromPeer := []

/-! ## What a step can do -/

/-- The frame that the receiver takes for a step is the first one on the way. -/
def Takes (i : ReceiverInput) (fromPeer fromPeer' : List FrameBody) : Prop :=
  match i with
  | .rx body => fromPeer = body :: fromPeer'
  | _ => fromPeer' = fromPeer

/-- The receiver's step for an input. -/
def Drives (input : CreditInput) (i : ReceiverInput) : Prop := input = .mux i ∨ input = .rx ∧ isRx i = true

/-- What a step does, by what it needs. -/
inductive Effect (s : CreditExchange) : CreditInput → List ReceiverEvent → CreditExchange → Prop
  | mux (input : CreditInput) (i : ReceiverInput) (events : List ReceiverEvent) (mux : ReceiverMux)
      (fromPeer : List FrameBody) : s.mux.step i = some (mux, events) → Takes i s.fromPeer fromPeer →
      Drives input i → Effect s input events
        { s with mux := mux, toPeer := s.toPeer ++ events.filterMap sentFlow, fromPeer := fromPeer }
  | flow (fr : PerformFlow) (toPeer : List PerformFlow) : s.toPeer = fr :: toPeer →
      Effect s .flow [] { s with peer := s.peer.receiveFlow fr, toPeer := toPeer }
  | first (fr : PerformTransfer) (counted : Bool) : s.peer.opened = false → s.peer.count < s.peer.limit →
      Effect s (.first fr counted) []
        { s with peer := s.peer.first fr counted, fromPeer := s.fromPeer ++ [.transfer fr] }
  | later (fr : PerformTransfer) (counted : Bool) : s.peer.opened = true →
      Effect s (.later fr counted) []
        { s with peer := s.peer.later fr counted, fromPeer := s.fromPeer ++ [.transfer fr] }
  | send (body : FrameBody) : isTransfer body = false →
      Effect s (.send body) [] { s with fromPeer := s.fromPeer ++ [body] }

variable {i : ReceiverInput} {s s' : CreditExchange} {fromPeer : List FrameBody} {events : List ReceiverEvent}
  {D' : Nat} {fr : PerformFlow}

theorem takes_of_not_rx (h : isRx i = false) (fromPeer : List FrameBody) : Takes i fromPeer fromPeer := by
  cases i with
  | rx body => cases h
  | _ => rfl

theorem muxStep_effect {input : CreditInput} (h : s.muxStep i fromPeer = some (s', events))
    (htakes : Takes i s.fromPeer fromPeer) (hdrives : Drives input i) : Effect s input events s' := by
  unfold muxStep at h
  split at h
  · next mux events hstep =>
    cases h
    exact .mux input i _ mux fromPeer hstep htakes hdrives
  · cases h

theorem step_effect {i : CreditInput} (h : s.step i = some (s', events)) : Effect s i events s' := by
  cases i with
  | mux i =>
    simp only [step] at h
    split at h
    · cases h
    · next hrx => exact muxStep_effect h (takes_of_not_rx (by simpa using hrx) s.fromPeer) (.inl rfl)
  | rx =>
    simp only [step] at h
    split at h
    · next body fromPeer hqueue => exact muxStep_effect h hqueue (.inr ⟨rfl, rfl⟩)
    · cases h
  | flow =>
    simp only [step] at h
    split at h
    · next fr toPeer hqueue => cases h; exact .flow fr toPeer hqueue
    · cases h
  | first fr counted =>
    simp only [step] at h
    split at h
    · next hmay => cases h; exact .first fr counted hmay.1 hmay.2
    · cases h
  | later fr counted =>
    simp only [step] at h
    split at h
    · next hopened => cases h; exact .later fr counted hopened
    · cases h
  | send body =>
    simp only [step] at h
    split at h
    · cases h
    · next hbody => cases h; exact .send body (by simpa using hbody)

/-! ## Deliveries under way -/

/-- The transfer can complete a message. -/
def endsMessage : FrameBody → Bool
  | .transfer fr => !fr.more && !fr.aborted
  | _ => false

/-- The deliveries that the receiver may still complete: those with their last transfer on the way, the
    one under way at the peer, and those the peer may start below its limit. -/
def mayComplete (s : CreditExchange) : Nat :=
  s.fromPeer.countP endsMessage + s.peer.opened.toNat + (s.peer.limit - s.peer.count)

/-- The flow frame built last. -/
def lastFlow (trace : Trace CreditInput ReceiverEvent) : Option PerformFlow :=
  trace.findSome? fun l => l.2.findSome? builtFlow

/-! ## The invariant -/

/-- The flow frame announces the limit `n`, at a delivery-count that is not ahead of `D`. -/
def Announces (D : Nat) (fr : PerformFlow) (n : Nat) : Prop :=
  ∃ (d : Nat) (linkCredit : UInt32), d ≤ D ∧ fr.deliveryCount = some (UInt32.ofNat d) ∧
    fr.linkCredit = some linkCredit ∧ n = d + linkCredit.toNat

theorem Announces.mono {D n : Nat} (h : Announces D fr n) (hle : D ≤ D') : Announces D' fr n := by
  obtain ⟨d, linkCredit, hd, hfields⟩ := h
  exact ⟨d, linkCredit, Nat.le_trans hd hle, hfields⟩

/-- The peer reads the limit that is announced. -/
theorem receiveFlow_limit {p : SendingPeer} {D n : Nat} (h : Announces D fr n) (hD : D ≤ p.count)
    (hn : p.count ≤ n) : p.receiveFlow fr = { p with limit := n } := by
  obtain ⟨d, linkCredit, hd, hcount, hcredit, rfl⟩ := h
  have hlt := linkCredit.toNat_lt
  have hdiff : UInt32.ofNat p.count - UInt32.ofNat d = UInt32.ofNat (p.count - d) := by
    have hsplit : UInt32.ofNat p.count = UInt32.ofNat (p.count - d) + UInt32.ofNat d := by
      rw [← UInt32.ofNat_add, Nat.sub_add_cancel (by omega)]
    rw [hsplit]
    grind
  have hread : p.countOf (UInt32.ofNat d) = d := by
    rw [SendingPeer.countOf, hdiff, UInt32.toNat_ofNat', Nat.mod_eq_of_lt (by omega)]
    omega
  simp only [SendingPeer.receiveFlow, hcount, hcredit, hread]

/-- No drain is asked for. -/
structure Undrained (s : ReceiverMux) : Prop where
  auto : s.autoSendFlow = true
  pendingDrain : s.creditor.pendingDrain = false
  phase : ∀ credits, s.phase ≠ .muxFlow credits true

/-- The receiver has completed `D` deliveries and given credit up to the limit `L`. -/
structure Gives (D L : Nat) (s : ReceiverMux) : Prop where
  bounded : s.Bounded
  undrained : Undrained s
  count : s.receiver.deliveryCount = UInt32.ofNat D
  credit : D + s.availableCredit.toNat = L
  held : ∀ fr, ReceiverMux.held s.phase = some fr → Announces D fr L

/-- The peer and the frames on the way are in step with the receiver. -/
structure Synced (D L : Nat) (s : CreditExchange) : Prop where
  gives : Gives D L s.mux
  announced : Rising (Announces D) s.peer.limit s.toPeer L
  below : s.peer.count ≤ s.peer.limit
  counted : D + s.fromPeer.countP endsMessage + s.peer.opened.toNat ≤ s.peer.count

/-! ## Steps of the receiver -/

theorem flowBits_undrained {s : ReceiverMux} (h : Undrained s) : Undrained s.flowBits := by
  obtain ⟨p, hbits, hp⟩ := s.flowBits_cases
  rw [hbits]
  rcases hp with rfl | ⟨-, hdrain⟩ | rfl
  · exact ⟨h.auto, rfl, fun c hc => by cases hc⟩
  · rw [h.pendingDrain] at hdrain
    cases hdrain
  · exact ⟨h.auto, rfl, fun c hc => by cases hc⟩

/-- With automatic flow, `DrainCredit` is refused, so that no drain is ever asked for. -/
theorem Undrained.step {s s' : ReceiverMux} (h : Undrained s) (hstep : s.step i = some (s', events))
    : Undrained s' := by
  have hplain : ∀ {p : ReceiverPhase}, plain p = true → ∀ credits, p ≠ .muxFlow credits true :=
    fun hp _ => ne_of_plain hp rfl
  have hmanual : s.autoSendFlow ≠ false := by rw [h.auto]; decide
  cases ReceiverMux.step_effect hstep with
  | checked =>
    unfold check
    split
    · exact ⟨h.auto, h.pendingDrain, fun c hc => by cases hc⟩
    · exact ⟨h.auto, h.pendingDrain, fun c hc => by cases hc⟩
  | issued p =>
    unfold issue
    split
    · next mc hissue =>
      obtain ⟨rfl, -, -⟩ := issueCredit_ok hissue
      exact ⟨h.auto, h.pendingDrain, fun c hc => by cases hc⟩
    · exact ⟨h.auto, h.pendingDrain, fun c hc => by cases hc⟩
  | bits => exact flowBits_undrained h
  | built credits drain hphase =>
    cases drain with
    | true => exact absurd hphase (h.phase credits)
    | false => exact ⟨h.auto, h.pendingDrain, fun c hc => by cases hc⟩
  | handedOver => exact ⟨h.auto, h.pendingDrain, fun c hc => by cases hc⟩
  | received _ p _ _ hp => exact ⟨h.auto, h.pendingDrain, hplain hp.plain⟩
  | echoed _ p _ hp => exact ⟨h.auto, h.pendingDrain, hplain hp.plain⟩
  | drained _ _ _ hauto => exact absurd hauto hmanual
  | moved _ _ p _ _ _ hp => exact ⟨h.auto, h.pendingDrain, hplain hp.plain⟩
  | drainEnded _ _ p _ _ hp => exact ⟨h.auto, h.pendingDrain, hplain hp.plain⟩
  | took | signalled | deleted | refused => exact ⟨h.auto, h.pendingDrain, h.phase⟩
  | asked _ hauto => exact absurd hauto hmanual
  | answered credits unsettled =>
    unfold issueCheck
    split
    · next mc hissue =>
      obtain ⟨rfl, -, -⟩ := issueCredit_ok hissue
      exact ⟨h.auto, h.pendingDrain, h.phase⟩
    · exact ⟨h.auto, h.pendingDrain, h.phase⟩
  | drains hauto => exact absurd hauto hmanual

/-- A step leads to `D'` completed deliveries and the limit `L'`. -/
structure Leads (D L D' L' : Nat) (i : ReceiverInput) (events : List ReceiverEvent) (s' : ReceiverMux) :
    Prop where
  gives : Gives D' L' s'
  count : D' = D ∨ D' = D + 1 ∧ ∃ fr, i = .rx (.transfer fr) ∧ endsMessage (.transfer fr) = true
  limit : L' = L ∨ L ≤ L' ∧ (events.findSome? builtFlow).isSome = true
  flows : ∀ e ∈ events, ∀ fr, flowOf e = some fr → Announces D' fr L'

section

variable {D L : Nat} {s s' : ReceiverMux} {i : ReceiverInput} {events : List ReceiverEvent}

/-- A step that changes neither the delivery-count nor the credit. -/
theorem Gives.keep (h : Gives D L s) (hbounded : s'.Bounded) (hundrained : Undrained s')
    (hcount : s'.receiver.deliveryCount = s.receiver.deliveryCount) (hcredit : s'.availableCredit = s.availableCredit)
    (hheld : ReceiverMux.held s'.phase = none ∨ ReceiverMux.held s'.phase = ReceiverMux.held s.phase) :
    Gives D L s' := by
  refine ⟨hbounded, hundrained, hcount.trans h.count, by rw [hcredit]; exact h.credit, ?_⟩
  intro fr hfr
  rcases hheld with hnone | hsame
  · rw [hnone] at hfr
    cases hfr
  · exact h.held fr (hsame ▸ hfr)

theorem Leads.silent (h : Gives D L s') (hsilent : Silent events) : Leads D L D L i events s' := by
  refine ⟨h, .inl rfl, .inl rfl, ?_⟩
  intro e he fr hfr
  rw [hsilent e he] at hfr
  cases hfr

/-- The flow frame with the available credit announces the limit. -/
theorem Gives.announces (h : Gives D L s) (drain : Bool) : Announces D (s.flowFrame s.availableCredit drain) L :=
  ⟨D, s.availableCredit, Nat.le_refl _, congrArg some h.count, rfl, h.credit.symm⟩

/-- A transfer that completes a message takes one of the credits given, so that the limit stays. -/
theorem Gives.received (h : Gives D L s) {fr : PerformTransfer} {p : ReceiverPhase}
    (hcredit : s.receiver.completes fr = true → s.availableCredit ≠ 0) (hp : Continues s.phase p)
    (hbounded : ReceiverMux.Bounded { s with receiver := (s.receiver.muxReceive fr).1, phase := p })
    (hundrained : Undrained { s with receiver := (s.receiver.muxReceive fr).1, phase := p }) :
    ∃ D', Leads D L D' L (.rx (.transfer fr)) [] { s with receiver := (s.receiver.muxReceive fr).1, phase := p } := by
  have heffect := Receiver.muxReceive_effect h.bounded.attached fr
  unfold Receiver.completes at hcredit
  generalize (s.receiver.muxReceive fr).1 = r at heffect hcredit hbounded hundrained ⊢
  cases heffect with
  | kept => exact ⟨D, .silent (h.keep hbounded hundrained rfl rfl hp.held) silent_nil⟩
  | received m hmore haborted =>
    have hne : s.availableCredit ≠ 0 := hcredit (by simp [Receiver.received])
    have hpos := toNat_pos_of_ne_zero hne
    have hsum := h.credit
    refine ⟨D + 1, ⟨hbounded, hundrained, ?_, ?_, ?_⟩, ?_, .inl rfl, fun e he => by cases he⟩
    · show s.receiver.deliveryCount + 1 = UInt32.ofNat (D + 1)
      rw [h.count, ofNat_succ]
    · show D + 1 + (s.availableCredit - 1).toNat = L
      rw [toNat_sub_one hne]
      omega
    · intro flow hflow
      rcases hp.held with hnone | hsame
      · rw [hnone] at hflow
        cases hflow
      · exact (h.held flow (hsame ▸ hflow)).mono (Nat.le_succ D)
    · exact .inr ⟨rfl, fr, rfl, by simp [endsMessage, hmore, haborted]⟩

/-- The step that builds a flow frame raises the limit and announces it. -/
theorem Gives.built (h : Gives D L s) {credits : UInt32} (hphase : s.phase = .muxFlow credits false)
    (hbounded : (s.muxFlow credits false).1.Bounded) (hundrained : Undrained (s.muxFlow credits false).1) :
    Leads D L D (D + credits.toNat) .muxFlow (s.muxFlow credits false).2 (s.muxFlow credits false).1 := by
  have hannounces : Announces D (s.flowFrame credits false) (D + credits.toNat) :=
    ⟨D, credits, Nat.le_refl _, congrArg some h.count, rfl, rfl⟩
  have hle : s.availableCredit.toNat ≤ credits.toNat := by
    have hstage := h.bounded.stage
    rwa [Stage, hphase] at hstage
  refine ⟨⟨hbounded, hundrained, h.count, rfl, ?_⟩, .inl rfl, .inr ⟨?_, rfl⟩, ?_⟩
  · intro fr hfr
    cases hfr
    exact hannounces
  · have hsum := h.credit
    omega
  · intro e he fr hfr
    rw [mem_singleton.mp he] at hfr
    cases hfr
    exact hannounces

theorem Gives.step (h : Gives D L s) (hstep : s.step i = some (s', events)) (hcredit : s.OnCredit i) :
    ∃ D' L', Leads D L D' L' i events s' := by
  have hchecks : i = .issueCheck → s.ChecksAll := by
    intro _ credits unsettled hissuer
    rw [(h.bounded.auto h.undrained.auto).1] at hissuer
    cases hissuer
  have hbounded := h.bounded.step hstep hcredit hchecks
  have hundrained := h.undrained.step hstep
  have hmanual : s.autoSendFlow ≠ false := by rw [h.undrained.auto]; decide
  cases ReceiverMux.step_effect hstep with
  | checked =>
    refine ⟨D, L, .silent (h.keep hbounded hundrained ?_ ?_ (.inl ?_)) silent_nil⟩
    all_goals unfold check; split <;> rfl
  | issued p =>
    refine ⟨D, L, .silent (h.keep hbounded hundrained ?_ ?_ (.inl ?_)) silent_nil⟩
    all_goals unfold issue; split <;> rfl
  | bits =>
    refine ⟨D, L, .silent (h.keep hbounded hundrained ?_ ?_ (.inl ?_)) silent_nil⟩
    all_goals unfold flowBits; dsimp only; split <;> rfl
  | built credits drain hphase =>
    cases drain with
    | true => exact absurd hphase (h.undrained.phase credits)
    | false => exact ⟨D, _, h.built hphase hbounded hundrained⟩
  | handedOver fr hphase =>
    have hfr : Announces D fr L := h.held fr (by rw [hphase]; rfl)
    refine ⟨D, L, h.keep hbounded hundrained rfl rfl (.inl rfl), .inl rfl, .inl rfl, ?_⟩
    intro e he fr' hfr'
    rw [mem_singleton.mp he] at hfr'
    cases hfr'
    exact hfr
  | received fr p _ _ hp =>
    obtain ⟨D', hleads⟩ := h.received (hcredit fr rfl) hp hbounded hundrained
    exact ⟨D', L, hleads⟩
  | echoed fr p _ hp =>
    refine ⟨D, L, h.keep hbounded hundrained rfl rfl hp.held, .inl rfl, .inl rfl, ?_⟩
    intro e he fr' hfr'
    rw [mem_singleton.mp he] at hfr'
    cases hfr'
    exact h.announces false
  | drained _ _ _ hauto => exact absurd hauto hmanual
  | moved _ _ p _ _ _ hp hsilent =>
    exact ⟨D, L, .silent (h.keep hbounded hundrained rfl rfl hp.held) hsilent⟩
  | drainEnded _ _ p _ _ hp hsilent =>
    exact ⟨D, L, .silent (h.keep hbounded hundrained rfl rfl hp.held) hsilent⟩
  | took m =>
    exact ⟨D, L, .silent (h.keep hbounded hundrained rfl rfl (.inr rfl)) (silent_singleton rfl)⟩
  | signalled | deleted =>
    exact ⟨D, L, .silent (h.keep hbounded hundrained rfl rfl (.inr rfl)) silent_nil⟩
  | refused _ _ hsilent => exact ⟨D, L, .silent h hsilent⟩
  | asked _ hauto => exact absurd hauto hmanual
  | answered credits unsettled hissuer =>
    rw [(h.bounded.auto h.undrained.auto).1] at hissuer
    cases hissuer
  | drains hauto => exact absurd hauto hmanual

end

/-! ## Steps of the exchange -/

section

variable {D L : Nat} {s s' : CreditExchange}

theorem Synced.start (maxMessageSize : UInt64) (mode : Option ReceiverSettleMode)
    (initialDeliveryCount handle maxCredit : UInt32) :
    Synced initialDeliveryCount.toNat initialDeliveryCount.toNat
      (.start maxMessageSize mode initialDeliveryCount handle maxCredit) where
  gives := ⟨.start _ _ _ _ _ _, ⟨rfl, rfl, fun c hc => by cases hc⟩, (UInt32.ofNat_toNat).symm, rfl,
    fun fr hfr => by cases hfr⟩
  announced := .nil (Nat.le_refl _)
  below := Nat.le_refl _
  counted := Nat.le_refl _

/-- What the peer has started and what it may start is covered by the credit given. -/
theorem Synced.mayComplete_le (h : Synced D L s) : s.mayComplete ≤ s.mux.availableCredit.toNat := by
  have hcredit := h.gives.credit
  have hlimit := h.announced.le
  have hbelow := h.below
  have hcounted := h.counted
  unfold mayComplete
  omega

theorem endsMessage_of_completes {r : Receiver} (hattached : r.detached = none) {fr : PerformTransfer}
    (h : r.completes fr = true) : endsMessage (.transfer fr) = true := by
  have heffect := Receiver.muxReceive_effect hattached fr
  unfold Receiver.completes at h
  generalize (r.muxReceive fr).1 = r' at heffect h
  cases heffect with
  | kept => simp at h
  | received m hmore haborted => simp [endsMessage, hmore, haborted]

/-- A transfer that can complete a message finds credit. -/
theorem Synced.credit_ne_zero (h : Synced D L s) {fr : PerformTransfer}
    (hqueue : s.fromPeer = .transfer fr :: fromPeer) (hends : endsMessage (.transfer fr) = true) :
    s.mux.availableCredit ≠ 0 := by
  have hmay := h.mayComplete_le
  rw [mayComplete, hqueue, countP_cons_of_pos hends] at hmay
  intro hzero
  rw [hzero, UInt32.toNat_zero] at hmay
  omega

theorem Synced.onCredit (h : Synced D L s) (htakes : Takes i s.fromPeer fromPeer) : s.mux.OnCredit i := by
  rintro fr rfl hcompletes
  exact h.credit_ne_zero htakes (endsMessage_of_completes h.gives.bounded.attached hcompletes)

theorem flowOf_of_sentFlow {e : ReceiverEvent} (h : sentFlow e = some fr) : flowOf e = some fr := by
  unfold sentFlow at h
  split at h
  · exact h
  · exact h
  · cases h

/-- The deliveries completed and those still on the way are no more than before. -/
theorem Leads.countP_le {L' : Nat} {m : ReceiverMux} (h : Leads D L D' L' i events m) {fromPeer' : List FrameBody}
    (htakes : Takes i fromPeer fromPeer') : D' + fromPeer'.countP endsMessage ≤ D + fromPeer.countP endsMessage := by
  have hle : fromPeer'.countP endsMessage ≤ fromPeer.countP endsMessage := by
    unfold Takes at htakes
    split at htakes
    · rw [htakes, countP_cons]
      exact Nat.le_add_right _ _
    · exact htakes ▸ Nat.le_refl _
  rcases h.count with hsame | ⟨hnext, fr, rfl, hends⟩
  · omega
  · rw [show fromPeer = .transfer fr :: fromPeer' from htakes, countP_cons_of_pos hends]
    omega

theorem Synced.mux (h : Synced D L s) {L' : Nat} {m : ReceiverMux} (hleads : Leads D L D' L' i events m)
    (htakes : Takes i s.fromPeer fromPeer) :
    Synced D' L'
      { s with mux := m, toPeer := s.toPeer ++ events.filterMap sentFlow, fromPeer := fromPeer } := by
  have hD : D ≤ D' := by rcases hleads.count with hsame | ⟨hnext, -⟩ <;> omega
  have hL : L ≤ L' := by rcases hleads.limit with hsame | ⟨hraised, -⟩ <;> omega
  refine ⟨hleads.gives, ?_, h.below, ?_⟩
  · refine (h.announced.mono fun fr _ n hn => hn.mono hD).append hL ?_
    intro fr hfr
    obtain ⟨e, he, hsent⟩ := mem_filterMap.mp hfr
    exact hleads.flows e he fr (flowOf_of_sentFlow hsent)
  · have hle := hleads.countP_le htakes
    have hcounted := h.counted
    dsimp only
    omega

theorem Synced.flow (h : Synced D L s) {toPeer : List PerformFlow} (hqueue : s.toPeer = fr :: toPeer) :
    Synced D L { s with peer := s.peer.receiveFlow fr, toPeer := toPeer } := by
  have hannounced := h.announced
  rw [hqueue] at hannounced
  cases hannounced with
  | @cons _ n _ _ _ hfr hle htail =>
    have hcounted := h.counted
    have hbelow := Nat.le_trans h.below hle
    rw [receiveFlow_limit hfr (by omega) hbelow]
    exact ⟨h.gives, htail, hbelow, hcounted⟩

theorem countP_append_transfer (fromPeer : List FrameBody) (fr : PerformTransfer) :
    (fromPeer ++ [FrameBody.transfer fr]).countP endsMessage
      = fromPeer.countP endsMessage + (!fr.more && !fr.aborted).toNat := by
  rw [countP_append, countP_singleton, endsMessage]
  cases (!fr.more && !fr.aborted) <;> rfl

/-- A transfer ends a message, leaves the delivery open or aborts it. -/
theorem ends_or_open_or_aborted (fr : PerformTransfer) :
    (!fr.more && !fr.aborted).toNat + (fr.more && !fr.aborted).toNat + fr.aborted.toNat = 1 := by
  cases fr.more <;> cases fr.aborted <;> rfl

theorem Synced.first (h : Synced D L s) (fr : PerformTransfer) (counted : Bool)
    (hopened : s.peer.opened = false) (hmay : s.peer.count < s.peer.limit) :
    Synced D L { s with peer := s.peer.first fr counted, fromPeer := s.fromPeer ++ [.transfer fr] } := by
  have hcounted := h.counted
  have hone := ends_or_open_or_aborted fr
  rw [hopened, Bool.toNat_false] at hcounted
  refine ⟨h.gives, h.announced, ?_, ?_⟩
  · dsimp only [SendingPeer.first]
    split <;> omega
  · dsimp only [SendingPeer.first]
    rw [countP_append_transfer]
    split
    · next haborted =>
      simp only [Bool.and_eq_true] at haborted
      rw [haborted.1, Bool.toNat_true] at hone
      rw [haborted.1]
      omega
    · omega

theorem Synced.later (h : Synced D L s) (fr : PerformTransfer) (counted : Bool) (hopened : s.peer.opened = true) :
    Synced D L { s with peer := s.peer.later fr counted, fromPeer := s.fromPeer ++ [.transfer fr] } := by
  have hcounted := h.counted
  have hbelow := h.below
  have hone := ends_or_open_or_aborted fr
  rw [hopened, Bool.toNat_true] at hcounted
  refine ⟨h.gives, h.announced, ?_, ?_⟩
  · dsimp only [SendingPeer.later]
    split <;> omega
  · dsimp only [SendingPeer.later]
    rw [countP_append_transfer]
    split
    · next haborted =>
      simp only [Bool.and_eq_true] at haborted
      rw [haborted.1, Bool.toNat_true] at hone
      rw [haborted.1]
      omega
    · omega

theorem Synced.send (h : Synced D L s) {body : FrameBody} (hbody : isTransfer body = false) :
    Synced D L { s with fromPeer := s.fromPeer ++ [body] } := by
  have hends : endsMessage body = false := by
    cases body with
    | transfer fr => cases hbody
    | _ => rfl
  refine ⟨h.gives, h.announced, h.below, ?_⟩
  have hcounted := h.counted
  simpa [countP_append, hends] using hcounted

/-- What a step makes of the counts and of the flow frame built last. -/
structure Advances (D L D' L' : Nat) (s : CreditExchange) (events : List ReceiverEvent) (s' : CreditExchange) :
    Prop where
  synced : Synced D' L' s'
  count : D' = D ∨ D' = D + 1 ∧ s.mux.availableCredit ≠ 0
  limit : L' = L ∨ (events.findSome? builtFlow).isSome = true
  built : ∀ fr, events.findSome? builtFlow = some fr → Announces D' fr L'

theorem Synced.advances (h : Synced D L s') : Advances D L D L s [] s' :=
  ⟨h, .inl rfl, .inl rfl, fun fr hfr => by cases hfr⟩

theorem Synced.step (h : Synced D L s) {i : CreditInput} (hstep : s.step i = some (s', events))
    : ∃ D' L', Advances D L D' L' s events s' := by
  cases step_effect hstep with
  | mux input i events m fromPeer hmux htakes =>
    obtain ⟨D', L', hleads⟩ := h.gives.step hmux (h.onCredit htakes)
    refine ⟨D', L', h.mux hleads htakes, ?_, ?_, ?_⟩
    · rcases hleads.count with hsame | ⟨hnext, fr, rfl, hends⟩
      · exact .inl hsame
      · exact .inr ⟨hnext, h.credit_ne_zero htakes hends⟩
    · rcases hleads.limit with hsame | ⟨-, hbuilt⟩
      · exact .inl hsame
      · exact .inr hbuilt
    · intro fr hfr
      obtain ⟨e, he, hbuilt⟩ := exists_of_findSome?_eq_some hfr
      exact hleads.flows e he fr (flowOf_of_builtFlow hbuilt)
  | flow fr toPeer hqueue => exact ⟨D, L, (h.flow hqueue).advances⟩
  | first fr counted hopened hmay => exact ⟨D, L, (h.first fr counted hopened hmay).advances⟩
  | later fr counted hopened => exact ⟨D, L, (h.later fr counted hopened).advances⟩
  | send body hbody => exact ⟨D, L, (h.send hbody).advances⟩

end

/-- The exchange is in step, and the flow frame built last announces the limit given. -/
def InStep (trace : Trace CreditInput ReceiverEvent) (s : CreditExchange) : Prop :=
  ∃ D L, Synced D L s ∧ ∀ fr, lastFlow trace = some fr → Announces D fr L

theorem InStep.step {trace : Trace CreditInput ReceiverEvent} {l : CreditInput × List ReceiverEvent}
    (h : InStep trace s) (hstep : Fires CreditExchange.step s l s') : InStep (l :: trace) s' := by
  obtain ⟨D, L, hsynced, hlast⟩ := h
  obtain ⟨D', L', hsynced', hcount, hlimit, hbuilt⟩ := hsynced.step hstep
  have hD : D ≤ D' := by rcases hcount with hsame | ⟨hnext, -⟩ <;> omega
  refine ⟨D', L', hsynced', ?_⟩
  intro fr hfr
  rw [lastFlow, findSome?_cons] at hfr
  cases hevents : l.2.findSome? builtFlow with
  | some fr' =>
    rw [hevents] at hfr
    cases hfr
    exact hbuilt fr hevents
  | none =>
    rw [hevents] at hfr hlimit
    rcases hlimit with rfl | hsome
    · exact (hlast fr hfr).mono hD
    · cases hsome

theorem run_inStep {maxMessageSize : UInt64} {mode : Option ReceiverSettleMode}
    {initialDeliveryCount handle maxCredit : UInt32} {trace : Trace CreditInput ReceiverEvent}
    (hrun : Run (Fires CreditExchange.step) (.start maxMessageSize mode initialDeliveryCount handle maxCredit) trace s) :
    InStep trace s ∧ s.mux.maxCredit = maxCredit := by
  refine hrun.invariant (P := fun trace (s : CreditExchange) => InStep trace s ∧ s.mux.maxCredit = maxCredit)
    ⟨⟨_, _, .start _ _ _ _ _, fun fr hfr => by cases hfr⟩, rfl⟩ ?_
  rintro trace s ⟨i, events⟩ s' ⟨hin, hmax⟩ hstep
  refine ⟨hin.step hstep, ?_⟩
  obtain ⟨D, L, hsynced, -⟩ := hin
  cases step_effect hstep with
  | mux input i events m fromPeer hmux =>
    exact (step_config hsynced.gives.bounded.attached hmux).maxCredit.trans hmax
  | _ => exact hmax

end CreditExchange

/-- **Automatic credit is exact.** In every state that a receiver with automatic flow and its peer reach,
    the delivery-count and the available credit add up to the limit of the flow frame built last, the
    available credit leaves room for the unsettled messages, and it covers the deliveries the receiver
    may still complete. A step that counts a delivery, and so takes a credit, finds one. -/
theorem auto_credit_exact (maxMessageSize : UInt64) (mode : Option ReceiverSettleMode)
    (initialDeliveryCount handle maxCredit : UInt32) {trace : Trace CreditInput ReceiverEvent}
    {s : CreditExchange}
    (hrun : Run (Fires CreditExchange.step)
      (.start maxMessageSize mode initialDeliveryCount handle maxCredit) trace s) :
    (∀ fr, CreditExchange.lastFlow trace = some fr → ∃ deliveryCount linkCredit,
      fr.deliveryCount = some deliveryCount ∧ fr.linkCredit = some linkCredit ∧
        s.mux.receiver.deliveryCount + s.mux.receiver.availableCredit = deliveryCount + linkCredit) ∧
    s.mux.receiver.availableCredit.toNat + s.mux.receiver.unsettledMessages.length ≤ maxCredit.toNat ∧
    s.mayComplete ≤ s.mux.receiver.availableCredit.toNat ∧
    (∀ l s', Fires CreditExchange.step s l s' →
      s'.mux.receiver.deliveryCount ≠ s.mux.receiver.deliveryCount → s.mux.receiver.availableCredit ≠ 0) := by
  obtain ⟨⟨D, L, hsynced, hlast⟩, hmax⟩ := CreditExchange.run_inStep hrun
  refine ⟨?_, ?_, hsynced.mayComplete_le, ?_⟩
  · intro fr hfr
    obtain ⟨d, linkCredit, -, hcount, hcredit, hlimit⟩ := hlast fr hfr
    refine ⟨UInt32.ofNat d, linkCredit, hcount, hcredit, ?_⟩
    have hsum : D + s.mux.receiver.availableCredit.toNat = d + linkCredit.toNat := hsynced.gives.credit.trans hlimit
    have hbits := congrArg UInt32.ofNat hsum
    rwa [UInt32.ofNat_add, UInt32.ofNat_add, UInt32.ofNat_toNat, UInt32.ofNat_toNat, ← hsynced.gives.count] at hbits
  · have hbound : s.mux.receiver.availableCredit.toNat + s.mux.promised + s.mux.receiver.unsettledMessages.length
        ≤ s.mux.maxCredit.toNat := hsynced.gives.bounded.bound
    rw [hmax] at hbound
    omega
  · intro l s' hstep hne
    obtain ⟨D', L', hadvances⟩ := hsynced.step hstep
    rcases hadvances.count with rfl | ⟨-, hcredit⟩
    · rw [hadvances.synced.gives.count, hsynced.gives.count] at hne
      exact absurd rfl hne
    · exact hcredit

namespace CreditExchange

/-- An iteration of the mux up to the hand-over of its flow frame. -/
def iteration : List CreditInput := [.mux .check, .mux .issue, .mux .flowBits, .mux .muxFlow, .mux .handOver]

end CreditExchange

/-- One delivery of two that the first flow frame allows. -/
theorem auto_credit_exact_two :
    ∃ (trace : Trace CreditInput ReceiverEvent) (s : CreditExchange) (fr : PerformFlow),
      Run (Fires CreditExchange.step) (.start 0 (some .second) 7 0 2) trace s ∧
      CreditExchange.lastFlow trace = some fr ∧ s.mux.receiver.deliveryCount = 8 ∧
      s.mux.receiver.availableCredit = 1 ∧
      ∃ deliveryCount linkCredit, fr.deliveryCount = some deliveryCount ∧ fr.linkCredit = some linkCredit ∧
        s.mux.receiver.deliveryCount + s.mux.receiver.availableCredit = deliveryCount + linkCredit := by
  have hexec : (exec CreditExchange.step [] (.start 0 (some .second) 7 0 2)
      (CreditExchange.iteration ++ [.flow, .first (Receiver.firstOf 1 false Receiver.dataSection) true, .rx])).map
        (fun res => (((CreditExchange.lastFlow res.1).map fun fr => (fr.deliveryCount, fr.linkCredit)),
          res.2.mux.receiver.deliveryCount, res.2.mux.receiver.availableCredit))
      = some (some (some 7, some 2), 8, 1) := by decide +kernel
  obtain ⟨⟨trace, s⟩, hexec, hres⟩ := Option.map_eq_some_iff.mp hexec
  simp only [Prod.mk.injEq] at hres
  obtain ⟨hflow, hcount, hcredit⟩ := hres
  obtain ⟨fr, hfr, -⟩ := Option.map_eq_some_iff.mp hflow
  have hrun : Run (Fires CreditExchange.step) (.start 0 (some .second) 7 0 2) trace s := .of_exec _ .start hexec
  exact ⟨trace, s, fr, hrun, hfr, hcount, hcredit, (auto_credit_exact 0 (some .second) 7 0 2 hrun).1 fr hfr⟩

end GoAmqp
