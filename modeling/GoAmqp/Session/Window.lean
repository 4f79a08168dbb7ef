import GoAmqp.Session.Mux
import GoAmqp.Lib.Transition
import GoAmqp.Lib.Credit

set_option autoImplicit false

/-! # The window of the peer, as the session computes it

`nextOutgoingID` counts the transfers sent, to 32 bits. A flow frame tells how many of them the peer has
received and how many more it will take; the session subtracts what is on the way from the second
number. The subtraction is in 32 bits as well, and wraps when the peer has shrunk its window below what
is on the way. -/

namespace GoAmqp

open Lib UInt32

namespace Session

/-! ## What changes the window -/

/-- The session's view of the peer's window is the same. -/
structure KeepsWindow (s s' : Session) : Prop where
  nextOutgoingID : s'.nextOutgoingID = s.nextOutgoingID
  remoteIncomingWindow : s'.remoteIncomingWindow = s.remoteIncomingWindow

theorem rx_nextOutgoingID (s : Session) (body : FrameBody) : (s.rx body).1.nextOutgoingID = s.nextOutgoingID := by
  cases body with
  | flow body => rw [rx, rxFlow_eq]
  | attach body => rw [rx, rxAttach_eq]
  | transfer body => rw [rx, rxTransfer_eq]
  | detach body => rw [rx, rxDetach_eq]
  | _ => rfl

/-- The transfers a step sends. -/
def transfersSent : MuxInput → Nat
  | .txTransfer _ _ => 1
  | _ => 0

theorem step_nextOutgoingID {s s' : Session} {i : MuxInput} {events : List MuxEvent}
    (h : s.step i = some (s', events)) : s'.nextOutgoingID = s.nextOutgoingID + UInt32.ofNat (transfersSent i) := by
  have hzero : s.nextOutgoingID + UInt32.ofNat 0 = s.nextOutgoingID := UInt32.add_zero _
  cases step_cases h with
  | connDone => exact hzero.symm
  | close => exact hzero.symm
  | rx body => exact (rx_nextOutgoingID s body).trans hzero.symm
  | rxClosing body => exact (congrArg nextOutgoingID (s.rxClosing_eq body)).trans hzero.symm
  | round body deliveryID =>
    exact (congrArg nextOutgoingID (s.dispositionRound_eq body deliveryID)).trans hzero.symm
  | txTransfer l fr => rfl
  | tx body => exact (congrArg nextOutgoingID (s.tx_eq body)).trans hzero.symm
  | newLink key mode => exact (congrArg nextOutgoingID (s.newLink_eq key mode)).trans hzero.symm
  | setReceiverSettleMode l mode => exact hzero.symm
  | deallocateHandle l => exact hzero.symm

/-- The transfers sent in a run. -/
def sent : Trace MuxInput MuxEvent → Nat
  | [] => 0
  | l :: trace => sent trace + transfersSent l.1

theorem run_nextOutgoingID {incomingWindow outgoingWindow handleMax : UInt32} {remoteBegin : PerformBegin}
    {trace : Trace MuxInput MuxEvent} {s : Session}
    (h : Run (Fires Session.step) (.start incomingWindow outgoingWindow handleMax remoteBegin) trace s) :
    s.nextOutgoingID = UInt32.ofNat (sent trace) := by
  refine h.invariant (P := fun trace s => s.nextOutgoingID = UInt32.ofNat (sent trace)) rfl ?_
  intro trace s l s' hs hstep
  rw [step_nextOutgoingID hstep, hs, sent, ofNat_add]

/-! ## The window after a flow frame -/

theorem rxFlow_remoteIncomingWindow (s : Session) {body : PerformFlow} {nextIncomingID : UInt32}
    (h : body.nextIncomingID = some nextIncomingID) :
    (s.rxFlow body).1.remoteIncomingWindow =
      body.incomingWindow - s.nextOutgoingID + nextIncomingID := by
  unfold rxFlow
  split
  · next hnone => rw [hnone] at h; cases h
  · next n hsome =>
    obtain rfl : n = nextIncomingID := Option.some.inj (hsome.symm.trans h)
    split <;> rfl

/-- The computation of the window with `pending` transfers on the way. -/
theorem window_toNat {received pending : Nat} (hpending : pending < 2 ^ 32) (window : UInt32) :
    (window - UInt32.ofNat (received + pending) + UInt32.ofNat received).toNat =
      if pending ≤ window.toNat then window.toNat - pending else window.toNat + 2 ^ 32 - pending := by
  have hwin := window.toNat_lt
  have hring : window - UInt32.ofNat (received + pending) + UInt32.ofNat received =
      window - UInt32.ofNat pending := by
    rw [ofNat_add]
    grind
  have hpend : (UInt32.ofNat pending).toNat = pending := toNat_ofNat_of_lt' hpending
  rw [hring, UInt32.toNat_sub, hpend]
  split <;> omega

end Session

open Session

/-- **The window is right as long as it covers what is on the way.** In every state the session reaches
    with `n` transfers sent, a flow frame of a peer that has received the first `received` of them makes
    the window what the peer will take beyond the `n` transfers, at least zero and at most the window of
    the frame, exactly when that window is not smaller than what is on the way. -/
theorem remoteIncomingWindow_iff {incomingWindow outgoingWindow handleMax : UInt32}
    {remoteBegin : PerformBegin} {trace : Trace MuxInput MuxEvent} {s s' : Session}
    {body : PerformFlow} {events : List MuxEvent} {received : Nat}
    (hrun : Run (Fires Session.step) (.start incomingWindow outgoingWindow handleMax remoteBegin) trace s)
    (hphase : s.phase = .select) (hle : received ≤ sent trace)
    (hserial : sent trace - received < 2 ^ 32)
    (hbody : body.nextIncomingID = some (UInt32.ofNat received))
    (hstep : s.step (.rx (.flow body)) = some (s', events)) :
    ((s'.remoteIncomingWindow.toNat : Int) = max 0 ((received : Int) + body.incomingWindow.toNat - sent trace) ∧
      s'.remoteIncomingWindow ≤ body.incomingWindow) ↔
    sent trace - received ≤ body.incomingWindow.toNat := by
  have hs' : s' = (s.rxFlow body).1 := by
    simp only [Session.step, hphase, rx, Option.some.injEq] at hstep
    rw [hstep]
  obtain ⟨pending, hpending⟩ := Nat.exists_eq_add_of_le hle
  rw [hpending, Nat.add_sub_cancel_left] at hserial ⊢
  have hwindow : s'.remoteIncomingWindow.toNat = if pending ≤ body.incomingWindow.toNat then
      body.incomingWindow.toNat - pending else body.incomingWindow.toNat + 2 ^ 32 - pending := by
    rw [hs', rxFlow_remoteIncomingWindow s hbody, run_nextOutgoingID hrun, hpending]
    exact window_toNat hserial _
  rw [le_iff_toNat_le, hwindow]
  constructor
  · rintro ⟨-, hbound⟩
    split at hbound <;> omega
  · intro hcovers
    rw [if_pos hcovers]
    omega

namespace Session

/-- A session whose peer begins with a window of five transfers. -/
def withWindowFive : Session := .start 100 100 10 { PerformBegin.zero with incomingWindow := 5, outgoingWindow := 5 }

/-- A flow frame of a peer that has received nothing. -/
def windowFlow (window : UInt32) : PerformFlow :=
  { PerformFlow.zero with nextIncomingID := some 0, incomingWindow := window }

def threeTransfers : List MuxInput := [.txTransfer 0 .zero, .txTransfer 0 .zero, .txTransfer 0 .zero]

end Session

theorem remoteIncomingWindow_three : ∃ trace s s' events,
    Run (Fires Session.step) withWindowFive trace s ∧ sent trace = 3 ∧
    s.step (.rx (.flow (windowFlow 4))) = some (s', events) ∧
    s'.remoteIncomingWindow ≤ (windowFlow 4).incomingWindow := by
  have hrun : ∃ trace s, Run (Fires Session.step) withWindowFive trace s ∧ sent trace = 3 ∧ s.phase = .select :=
    ⟨_, _, .of_exec threeTransfers .start rfl, rfl, rfl⟩
  obtain ⟨trace, s, hrun, hsent, hphase⟩ := hrun
  have hstep : s.step (.rx (.flow (windowFlow 4))) =
      some (s.rxFlow (windowFlow 4)) := by
    simp only [Session.step, hphase, rx]
  have hnext : (windowFlow 4).nextIncomingID = some (UInt32.ofNat 0) := rfl
  have hiff := remoteIncomingWindow_iff hrun hphase (Nat.zero_le (sent trace))
    (by rw [hsent]; decide) hnext hstep
  exact ⟨trace, s, _, _, hrun, hsent, hstep, (hiff.2 (by rw [hsent]; decide)).2⟩

/-- With three transfers on the way, a peer that shrinks its window to one opens the session's view of
    it to `2 ^ 32 - 2`. -/
theorem remoteIncomingWindow_wraps : ∃ trace s s' events,
    Run (Fires Session.step) withWindowFive trace s ∧ sent trace = 3 ∧
    s.step (.rx (.flow (windowFlow 1))) = some (s', events) ∧
    s'.remoteIncomingWindow = 0xFFFFFFFE ∧
    (s'.remoteIncomingWindow.toNat : Int) ≠ max 0 (0 + 1 - 3) := by
  exact ⟨_, _, _, _, .of_exec threeTransfers .start rfl, rfl, rfl, by decide, by decide⟩

end GoAmqp
