import GoAmqp.Link.SenderMux
import GoAmqp.Lib.Transition
import GoAmqp.Lib.Credit

set_option autoImplicit false

/-! # The link credit a sender goes by

The limit of a flow frame is its delivery-count plus its link-credit, a 32-bit serial number. A sender
computes its credit as the distance from its own delivery-count to that limit. The distance is right
as long as the limit is not behind: a limit that has been lowered past the delivery-count gives a
distance close to `2 ^ 32`, which the sender takes for credit. -/

namespace GoAmqp

open Lib

namespace SenderMux

/-- The limit a flow frame announces; a delivery-count that is not set counts as zero. -/
def limitOf (fr : PerformFlow) (credit : UInt32) : UInt32 := fr.deliveryCount.getD 0 + credit

/-- The limit a step announces. -/
def announced : SenderInput → Option UInt32
  | .rx body => (flow? body).bind fun fr => fr.linkCredit.map (limitOf fr)
  | _ => none

/-- The limit of the latest flow frame the sender has handled; zero before the first. -/
def latestLimit : Trace SenderInput SenderEvent → UInt32
  | [] => 0
  | l :: trace => (announced l.1).getD (latestLimit trace)

theorem creditOf_eq (s : SenderMux) (fr : PerformFlow) (credit : UInt32) :
    s.creditOf credit fr.deliveryCount = limitOf fr credit - s.deliveryCount := by
  unfold creditOf limitOf
  cases fr.deliveryCount with
  | none => show credit - s.deliveryCount = 0 + credit - s.deliveryCount; grind
  | some count => show credit - s.deliveryCount + count = count + credit - s.deliveryCount; grind

theorem latestLimit_flow {fr : PerformFlow} {credit : UInt32} (h : fr.linkCredit = some credit)
    (events : List SenderEvent) (trace : Trace SenderInput SenderEvent) :
    latestLimit ((.rx (.flow fr), events) :: trace) = limitOf fr credit := by
  simp only [latestLimit, announced, flow?, Option.bind_some, h, Option.map_some, Option.getD_some]

theorem latestLimit_rx {body : FrameBody} (h : flow? body = none) (events : List SenderEvent)
    (trace : Trace SenderInput SenderEvent) : latestLimit ((.rx body, events) :: trace) = latestLimit trace := by
  simp only [latestLimit, announced, h, Option.bind_none, Option.getD_none]

/-- A transfer whose hand-over starts a delivery or uses up credit. -/
def UsesCredit (tr : PerformTransfer) : Prop := tr.deliveryID.isSome = true ∨ tr.more = false

/-- A flow frame is in order for a sender when its limit is not behind the sender's delivery-count, and
    is ahead of it while a transfer that uses credit waits for the session. -/
def FlowInOrder (s : SenderMux) (fr : PerformFlow) : Prop :=
  ∀ credit, fr.linkCredit = some credit → (limitOf fr credit - s.deliveryCount).toNat < 2 ^ 31 ∧
    ∀ tr, s.phase = .holding tr → UsesCredit tr → limitOf fr credit ≠ s.deliveryCount

/-- The flow frames a step handles are in order. -/
def InOrder (s : SenderMux) (l : SenderInput × List SenderEvent) : Prop :=
  ∀ fr, l.1 = .rx (.flow fr) → s.FlowInOrder fr

/-- The credit is the distance to the latest limit, which is not behind. -/
structure CreditInv (trace : Trace SenderInput SenderEvent) (s : SenderMux) : Prop where
  credit : s.availableCredit = latestLimit trace - s.deliveryCount
  ahead : s.availableCredit.toNat < 2 ^ 31
  holding : ∀ tr, s.phase = .holding tr → UsesCredit tr → s.availableCredit ≠ 0

theorem CreditInv.start (handle : UInt32) (mode : Option ReceiverSettleMode) (detach : Bool) :
    CreditInv [] (SenderMux.start handle mode detach) :=
  ⟨(UInt32.sub_self 0).symm, Nat.two_pow_pos 31, fun _ hp => by cases hp⟩

/-- The distance shrinks by one with each message handed over. -/
theorem CreditInv.handedOver {trace : Trace SenderInput SenderEvent} {s : SenderMux}
    {tr : PerformTransfer} (h : CreditInv trace s) (hp : s.phase = .holding tr) :
    CreditInv ((.handOver, [.txTransfer tr]) :: trace) (s.handedOver tr) := by
  have hcredit := h.credit
  have hahead := h.ahead
  unfold SenderMux.handedOver
  split
  · exact ⟨hcredit, hahead, fun _ hp => by cases hp⟩
  · next hmore =>
    have hne : s.availableCredit ≠ 0 := h.holding tr hp (.inr (by simpa using hmore))
    refine ⟨?_, ?_, fun _ hp => by cases hp⟩
    · show s.availableCredit - 1 = latestLimit trace - (s.deliveryCount + 1)
      rw [hcredit]
      grind
    · show (s.availableCredit - 1).toNat < 2 ^ 31
      rw [toNat_sub_one hne]
      omega

theorem CreditInv.step {trace : Trace SenderInput SenderEvent} {s s' : SenderMux}
    {l : SenderInput × List SenderEvent} (h : s.Running → CreditInv trace s)
    (hstep : Guarded (Fires SenderMux.step) InOrder s l s') : s'.Running → CreditInv (l :: trace) s' := by
  intro hrun
  obtain ⟨i, events⟩ := l
  obtain ⟨hfires, horder⟩ := hstep
  rcases step_cases hfires with heffect | hend
  · cases heffect with
    | credit fr credit events hs hcredit =>
      obtain ⟨hahead, hheld⟩ := horder fr rfl credit hcredit
      rw [creditOf_eq]
      refine ⟨by rw [latestLimit_flow hcredit], hahead, fun tr hp huse hzero => ?_⟩
      exact hheld tr hp huse (by
        have hz : limitOf fr credit - s.deliveryCount = 0 := hzero
        grind)
    | kept body events hs hbody =>
      obtain ⟨hcredit, hahead, hheld⟩ := h hs
      exact ⟨by rw [latestLimit_rx hbody]; exact hcredit, hahead, hheld⟩
    | taken tr hp hne =>
      obtain ⟨hcredit, hahead, -⟩ := h (.inl hp)
      exact ⟨hcredit, hahead, fun _ _ _ => hne⟩
    | handedOver tr hp => exact (h (.inr ⟨tr, hp⟩)).handedOver hp
  · exact absurd hrun hend

end SenderMux

open SenderMux

/-- **A sender that sees limits in order keeps to them.** In every run in which each flow frame handled
    has a limit that is not behind the delivery-count, the credit of the running mux is the distance to
    the latest limit and has not wrapped below zero, and a hand-over takes a delivery-count below the
    latest limit if it starts a delivery, and finds credit to use up if it ends one. -/
theorem sender_keeps_to_limit (handle : UInt32) (mode : Option ReceiverSettleMode) (detach : Bool)
    {trace : Trace SenderInput SenderEvent} {s : SenderMux}
    (hrun : Run (Guarded (Fires SenderMux.step) InOrder) (.start handle mode detach) trace s) :
    (s.Running → s.availableCredit = latestLimit trace - s.deliveryCount ∧ s.availableCredit.toNat < 2 ^ 31) ∧
    ∀ s' tr, s.step .handOver = some (s', [.txTransfer tr]) →
      (tr.deliveryID.isSome → SerialLt s.deliveryCount (latestLimit trace)) ∧
      (tr.more = false → s.availableCredit ≠ 0) := by
  have hinv : s.Running → CreditInv trace s :=
    hrun.invariant (P := fun trace s => s.Running → CreditInv trace s)
      (fun _ => .start handle mode detach) (fun _ _ _ _ h hs => .step h hs)
  refine ⟨fun hs => ⟨(hinv hs).credit, (hinv hs).ahead⟩, fun s' tr hstep => ?_⟩
  obtain ⟨_, hphase, -, ⟨⟩⟩ := step_handOver hstep
  obtain ⟨hcredit, hahead, hheld⟩ := hinv (.inr ⟨tr, hphase⟩)
  refine ⟨fun hfirst => ?_, fun hlast => hheld tr hphase (.inr hlast)⟩
  rw [SerialLt, ← hcredit]
  exact ⟨toNat_pos_of_ne_zero (hheld tr hphase (.inl hfirst)), hahead⟩

namespace SenderMux

/-- A flow frame with a delivery-count and a link-credit. -/
def creditFlow (deliveryCount linkCredit : UInt32) : PerformFlow :=
  { PerformFlow.zero with deliveryCount := some deliveryCount, linkCredit := some linkCredit }

/-- The only transfer of a message. -/
def wholeTransfer (deliveryID : UInt32) : PerformTransfer :=
  { PerformTransfer.zero with deliveryID := some deliveryID }

end SenderMux

/-- The peer allows two deliveries, and the first one is handed over. -/
theorem sender_keeps_to_limit_two : ∃ trace s s',
    Run (Guarded (Fires SenderMux.step) InOrder) (.start 0 none true) trace s ∧
    s.step .handOver = some (s', [.txTransfer (wholeTransfer 1)]) ∧ latestLimit trace = 2 ∧
    SerialLt s.deliveryCount (latestLimit trace) := by
  have horder : (start 0 none true).FlowInOrder (creditFlow 0 2) := by
    intro credit hcredit
    cases hcredit
    exact ⟨by decide, fun _ hp => by cases hp⟩
  have hstart : Run (Guarded (Fires SenderMux.step) InOrder) (.start 0 none true) []
      (.start 0 none true) := .start
  have hflow := hstart.fire (.rx (.flow (creditFlow 0 2))) rfl
    (fun fr hfr => by cases hfr; exact horder)
  have htaken := hflow.fire (.transfer (wholeTransfer 1)) rfl (fun fr hfr => by cases hfr)
  exact ⟨_, _, _, htaken, rfl, rfl, ((sender_keeps_to_limit 0 none true htaken).2 _ _ rfl).1 rfl⟩

/-- The limit goes from two down to one after two deliveries; the sender then has `2 ^ 32 - 1` credits
    and hands over a third delivery. -/
theorem sender_passes_lowered_limit : ∃ trace s s', Run (Fires SenderMux.step) (.start 0 none true) trace s ∧
    s.step .handOver = some (s', [.txTransfer (wholeTransfer 3)]) ∧
    s.deliveryCount = 2 ∧ latestLimit trace = 1 ∧
    ¬ SerialLt s.deliveryCount (latestLimit trace) ∧ s.availableCredit = 0xFFFFFFFF := by
  refine ⟨_, _, _, .of_exec [
    .rx (.flow (creditFlow 0 2)),
    .transfer (wholeTransfer 1), .handOver,
    .transfer (wholeTransfer 2), .handOver,
    .rx (.flow (creditFlow 0 1)),
    .transfer (wholeTransfer 3)] .start rfl, rfl, ?_, ?_, ?_, ?_⟩ <;> decide

end GoAmqp
