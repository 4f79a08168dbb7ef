import GoAmqp.Link.ReceiverMux

set_option autoImplicit false

/-! # Wake-ups of a receiver with manual credits (`Receiver.IssueCredit`, `Receiver.DrainCredit`)

A call leaves what it asks for with the creditor and signals `receiverReady`, which holds one value. The mux asks
the creditor in `FlowBits`, and it does so again only after a frame or a signal. `IssueCredit` queues first and
signals then; `DrainCredit` signals first. The calls are cut between the two, so that the mux and other calls can
take steps there. -/

namespace GoAmqp

open Lib
open Option hiding or or_assoc

/-- A receiver, and the calls that are between queueing and signalling. -/
structure ManualReceiver where
  mux : ReceiverMux
  /-- calls of `IssueCredit` that have queued their credit and are about to signal -/
  signalling : Nat
  /-- calls of `DrainCredit` that have signalled and are about to queue the drain -/
  draining : Nat

/-- A step of a call for credit, or of the mux. -/
inductive ManualInput where
  /-- `r.creditor.IssueCredit(credit, r)` returns -/
  | issueQueue
  | issueSignal
  | drainSignal
  /-- `r.creditor.Drain(ctx, r)`, up to its wait -/
  | drainQueue
  /-- a step of the mux, or another step of the application -/
  | other (i : ReceiverInput)

namespace ManualReceiver

/-- `creditor.IssueCredit` has returned nil. -/
def accepted : List ReceiverEvent → Bool
  | [.issued _ none] => true
  | _ => false

/-- The inputs that queue something with the creditor for a call. -/
def queues : ReceiverInput → Bool
  | .issueCheck | .drainCredit => true
  | _ => false

/-- The two halves of `IssueCredit` and `DrainCredit` are steps of their own. -/
def step (s : ManualReceiver) : ManualInput → Option (ManualReceiver × List ReceiverEvent)
  | .issueQueue => (s.mux.step .issueCheck).map fun r =>
    ({ s with mux := r.1, signalling := if accepted r.2 then s.signalling + 1 else s.signalling }, r.2)
  | .issueSignal =>
    match s.signalling with
    | 0 => none
    | n + 1 => (s.mux.step .signal).map fun r => ({ s with mux := r.1, signalling := n }, r.2)
  | .drainSignal =>
    if s.mux.autoSendFlow then (s.mux.step .drainCredit).map fun r => ({ s with mux := r.1 }, r.2)
    else (s.mux.step .signal).map fun r => ({ s with mux := r.1, draining := s.draining + 1 }, r.2)
  | .drainQueue =>
    match s.draining with
    | 0 => none
    | n + 1 => (s.mux.step .drainCredit).map fun r => ({ s with mux := r.1, draining := n }, r.2)
  | .other i => if queues i then none else (s.mux.step i).map fun r => ({ s with mux := r.1 }, r.2)

/-- A receiver with manual credit. -/
def start (maxMessageSize : UInt64) (mode : Option ReceiverSettleMode) (initialDeliveryCount handle maxCredit : UInt32) :
    ManualReceiver :=
  ⟨.start maxMessageSize mode initialDeliveryCount handle false maxCredit, 0, 0⟩

end ManualReceiver

namespace ReceiverMux

/-! ## What wakes the mux -/

/-- Something is queued with the creditor. -/
def queued (s : ReceiverMux) : Bool := decide (s.creditor.creditsToAdd > 0) || s.creditor.pendingDrain

/-- The phases from which the mux does not come to its `select` without a call of `FlowBits`. -/
def checks : ReceiverPhase → Bool
  | .selecting | .muxFlow _ _ | .sending _ | .endingDrain (some _) | .removing _ _ _ (some _) => false
  | _ => true

/-- The mux will call `FlowBits` again, whatever the peer does. -/
def awake (s : ReceiverMux) : Bool := s.receiverReady || checks s.phase

variable {s s' : ReceiverMux} {events : List ReceiverEvent}

/-- A step that queues nothing: the mux comes to the head of its loop, or what kept it awake is still there. -/
inductive Wakes (s s' : ReceiverMux) : Prop
  | loops : checks s'.phase = true → Wakes s s'
  | kept : s'.creditor.creditsToAdd = s.creditor.creditsToAdd → s'.creditor.pendingDrain = s.creditor.pendingDrain →
      (s.awake = true → s'.awake = true) → Wakes s s'
  /-- after `FlowBits` -/
  | emptied : s'.queued = false → Wakes s s'

theorem Wakes.awake (h : Wakes s s') (hq : s'.queued = true) : s'.awake = true ∨ s.queued = true ∧ s.awake = false := by
  cases h with
  | loops hc => exact .inl (by simp [ReceiverMux.awake, hc])
  | kept hcredits hdrain hawake =>
    have hsame : s.queued = true := by simpa [queued, hcredits, hdrain] using hq
    cases ha : s.awake with
    | true => exact .inl (hawake ha)
    | false => exact .inr ⟨hsame, rfl⟩
  | emptied hempty => simp [hempty] at hq

/-- The creditor's values and `receiverReady` are left alone, and the phase goes on in the same round or reaches
    the head of the loop. -/
theorem Wakes.of_same (hcreditor : s'.creditor = s.creditor) (hready : s'.receiverReady = s.receiverReady)
    (hphase : checks s.phase = true → checks s'.phase = true) : Wakes s s' := by
  refine .kept (by rw [hcreditor]) (by rw [hcreditor]) ?_
  simp only [ReceiverMux.awake, hready, Bool.or_eq_true]
  exact Or.imp_right hphase

theorem flowBits_queued (s : ReceiverMux) : s.flowBits.queued = false := by
  unfold flowBits
  dsimp only
  split <;> rfl

theorem muxHandleFrame_same (s : ReceiverMux) (flow : Option PerformFlow) (body : FrameBody) :
    (s.muxHandleFrame flow body).1.creditor = s.creditor ∧
      (s.muxHandleFrame flow body).1.receiverReady = s.receiverReady := by
  cases body with
  | transfer fr =>
    simp only [muxHandleFrame, handleTransfer]
    split <;> simp [detach]
  | flow fr =>
    simp only [muxHandleFrame, handleFlow]
    split
    · simp
    · split <;> simp [setCredit]
  | detach fr =>
    simp only [muxHandleFrame, handleDetach]
    split <;> simp [detach]
  | _ => simp [muxHandleFrame]

/-- After a frame that came in the `select` of the loop the mux asks the creditor again. -/
theorem muxHandleFrame_checks (s : ReceiverMux) (body : FrameBody) :
    checks (s.muxHandleFrame none body).1.phase = true := by
  cases body with
  | transfer fr =>
    simp only [muxHandleFrame, handleTransfer]
    split <;> rfl
  | flow fr =>
    simp only [muxHandleFrame, handleFlow]
    split
    · rfl
    · split <;> rfl
  | detach fr =>
    simp only [muxHandleFrame, handleDetach]
    split <;> rfl
  | _ => rfl

theorem rxDetaching_same (s : ReceiverMux) (err : ReceiverError) (unsent : Option PerformDetach) (body : FrameBody) :
    (s.rxDetaching err unsent body).creditor = s.creditor ∧
      (s.rxDetaching err unsent body).receiverReady = s.receiverReady := by
  cases body with
  | detach fr =>
    simp only [rxDetaching]
    split
    · split <;> simp
    · simp
  | _ => simp [rxDetaching]

theorem rxDetaching_checks {err : ReceiverError} {unsent : Option PerformDetach} (hp : s.phase = .detaching err unsent)
    (body : FrameBody) : checks (s.rxDetaching err unsent body).phase = true := by
  have hsame : checks s.phase = true := by rw [hp]; rfl
  cases body with
  | detach fr =>
    simp only [rxDetaching]
    split
    · split
      · rfl
      · exact hsame
    · exact hsame
  | _ => exact hsame

theorem step_wakes {i : ReceiverInput} (hi : ManualReceiver.queues i = false) (h : s.step i = some (s', events)) :
    Wakes s s' := by
  cases step_cases h with
  | issueCheck => cases hi
  | drainRefused => cases hi
  | drainCredit => cases hi
  | check =>
    refine .loops ?_
    unfold check
    split <;> rfl
  | issue =>
    refine .loops ?_
    unfold issue
    split <;> rfl
  | flowBits => exact .emptied (flowBits_queued s)
  -- the credit of the link changes, the creditor does not
  | muxFlow credits drain hphase => cases drain <;> exact .of_same rfl rfl (by simp [hphase, checks])
  | handOver fr hphase => exact .of_same rfl rfl (by simp [hphase, checks])
  | handOverDetach =>
    refine .loops ?_
    simp only [detachSent]
    split <;> rfl
  | rx body flow hselect =>
    obtain ⟨hcreditor, hready⟩ := muxHandleFrame_same s flow body
    cases flow with
    | none => exact .loops (muxHandleFrame_checks s body)
    | some fr =>
      refine .of_same hcreditor hready ?_
      cases hp : s.phase <;> simp [hp, selectFlow, checks] at hselect ⊢
  | rxDetaching body err unsent hphase =>
    obtain ⟨hcreditor, hready⟩ := rxDetaching_same s err unsent body
    exact .of_same hcreditor hready fun _ => rxDetaching_checks hphase body
  -- `EndDrain` leaves a drain that is still queued alone
  | endDrain flow hphase => exact .kept rfl rfl (by cases flow <;> simp [awake, hphase, checks, resume])
  | removeRound j last err flow hphase =>
    unfold removeRound
    split
    · exact .of_same rfl rfl (by cases flow <;> simp [hphase, checks])
    · exact .of_same rfl rfl (by cases flow <;> simp [hphase, checks, resume])
  | removeNil j last err flow hphase => exact .of_same rfl rfl (by cases flow <;> simp [hphase, checks, resume])
  | ready | close | sessionDone | sessionDoneDetaching | clear | closeDetached => exact .loops rfl
  | signal => exact .kept rfl rfl fun _ => rfl
  | receive | deleteUnsettled | closeLink | issueRefused | issueCredit => exact .of_same rfl rfl id

/-- What a call of `IssueCredit` leaves: the credit is queued if the call returns nil, and nothing else changes. -/
theorem issueCheck_wakes (h : s.step .issueCheck = some (s', events)) :
    ManualReceiver.accepted events = true ∨ Wakes s s' := by
  cases step_cases h with
  | issueCheck credits unsettled =>
    unfold issueCheck
    split
    · exact .inl rfl
    · exact .inr (.of_same rfl rfl id)

/-- A call that is refused queues nothing, and no call moves the mux. -/
theorem drainCredit_wakes (h : s.step .drainCredit = some (s', events)) :
    s'.awake = s.awake ∧ (s.autoSendFlow = true ∨ s.creditor.drained = true → Wakes s s') := by
  cases step_cases h with
  | drainRefused => exact ⟨rfl, fun _ => .of_same rfl rfl id⟩
  | drainCredit hauto =>
    unfold drainCredit Creditor.drain
    cases hdrained : s.creditor.drained with
    | true => exact ⟨rfl, fun _ => .of_same rfl rfl id⟩
    | false => exact ⟨rfl, by simp [hauto]⟩

end ReceiverMux

namespace ManualReceiver

open ReceiverMux

/-! ## Whole runs -/

/-- A drain is queued while a signal is still there to be taken, or the mux has yet to come to `FlowBits`. -/
def InTime (s : ManualReceiver) : ManualInput → Prop
  | .drainQueue => s.mux.creditor.drained = true ∨ s.mux.awake = true ∨ 0 < s.signalling
  | _ => True

/-- What is queued will be seen. -/
def Inv (s : ManualReceiver) : Prop := s.mux.queued = true → s.mux.awake = true ∨ 0 < s.signalling

theorem Inv.wakes {s s' : ManualReceiver} (h : Inv s) (hw : Wakes s.mux s'.mux) (hs : s.signalling ≤ s'.signalling) :
    Inv s' := by
  intro hq
  rcases hw.awake hq with hawake | ⟨hq, hasleep⟩
  · exact .inl hawake
  · rcases h hq with hawake | hsignal
    · rw [hasleep] at hawake
      cases hawake
    · exact .inr (Nat.lt_of_lt_of_le hsignal hs)

theorem Inv.step {s s' : ManualReceiver} {i : ManualInput} {events : List ReceiverEvent} (h : Inv s)
    (hstep : s.step i = some (s', events)) (hin : InTime s i) : Inv s' := by
  cases i with
  | issueQueue =>
    obtain ⟨⟨mux, events⟩, hmux, heq⟩ := map_eq_some_iff.mp hstep
    cases heq
    rcases issueCheck_wakes hmux with haccepted | hw
    · exact fun _ => .inr (by simp [haccepted])
    · refine h.wakes hw ?_
      dsimp only
      split <;> omega
  | issueSignal =>
    simp only [ManualReceiver.step] at hstep
    split at hstep
    · cases hstep
    · obtain ⟨⟨mux, events⟩, hmux, heq⟩ := map_eq_some_iff.mp hstep
      cases heq
      cases hmux
      exact fun _ => .inl rfl
  | drainSignal =>
    simp only [ManualReceiver.step] at hstep
    split at hstep
    · next hauto =>
      obtain ⟨⟨mux, events⟩, hmux, heq⟩ := map_eq_some_iff.mp hstep
      cases heq
      exact h.wakes ((drainCredit_wakes hmux).2 (.inl hauto)) (Nat.le_refl _)
    · obtain ⟨⟨mux, events⟩, hmux, heq⟩ := map_eq_some_iff.mp hstep
      cases heq
      cases hmux
      exact fun _ => .inl rfl
  | drainQueue =>
    simp only [ManualReceiver.step] at hstep
    split at hstep
    · cases hstep
    · obtain ⟨⟨mux, events⟩, hmux, heq⟩ := map_eq_some_iff.mp hstep
      cases heq
      obtain ⟨hawake, hrefused⟩ := drainCredit_wakes hmux
      rcases hin with hdrained | hin | hsignal
      · exact h.wakes (hrefused (.inr hdrained)) (Nat.le_refl _)
      · exact fun _ => .inl (hawake.trans hin)
      · exact fun _ => .inr hsignal
  | other i =>
    simp only [ManualReceiver.step] at hstep
    split at hstep
    · cases hstep
    · next hi =>
      obtain ⟨⟨mux, events⟩, hmux, heq⟩ := map_eq_some_iff.mp hstep
      cases heq
      exact h.wakes (step_wakes (by simpa using hi) hmux) (Nat.le_refl _)

def inTime (s : ManualReceiver) : ManualInput → Bool
  | .drainQueue => s.mux.creditor.drained || s.mux.awake || decide (0 < s.signalling)
  | _ => true

theorem inTime_of_test (_ : Trace ManualInput ReceiverEvent) (s : ManualReceiver) (i : ManualInput)
    (_ : List ReceiverEvent) (h : s.inTime i = true) : InTime s i := by
  cases i with
  | drainQueue => simpa [inTime, InTime, or_assoc] using h
  | _ => trivial

/-- The mux waits in its `select`, and no call will wake it. -/
def asleep (s : ManualReceiver) : Bool :=
  match s.mux.phase with
  | .selecting => !s.mux.receiverReady && s.signalling == 0
  | _ => false

theorem asleep_spec {s : ManualReceiver} (h : s.asleep = true) :
    s.mux.phase = .selecting ∧ s.mux.receiverReady = false ∧ s.signalling = 0 := by
  unfold asleep at h
  split at h
  · next hphase => exact ⟨hphase, by simpa using h⟩
  · cases h

end ManualReceiver

open ManualReceiver

/-- The mux does not wait for a signal while something is queued and no call is about to signal. -/
theorem queued_credit_seen {maxMessageSize : UInt64} {mode : Option ReceiverSettleMode}
    {initialDeliveryCount handle maxCredit : UInt32} {trace : Trace ManualInput ReceiverEvent}
    {s : ManualReceiver} (hrun : RunIf (Fires ManualReceiver.step) (fun _ s x => InTime s x.1)
      (.start maxMessageSize mode initialDeliveryCount handle maxCredit) trace s) :
    ¬(s.mux.phase = .selecting ∧ s.mux.receiverReady = false ∧ s.signalling = 0 ∧
      (s.mux.creditor.creditsToAdd > 0 ∨ s.mux.creditor.pendingDrain = true)) := by
  have hinv : Inv s := by
    refine hrun.invariant (P := fun _ s => Inv s) (fun _ => .inl rfl) ?_
    rintro _ s ⟨i, events⟩ s' h hstep hin
    exact h.step hstep hin
  rintro ⟨hphase, hready, hsignal, hqueued⟩
  rcases hinv (by simpa [ReceiverMux.queued] using hqueued) with hawake | hpos
  · simp [ReceiverMux.awake, ReceiverMux.checks, hphase, hready] at hawake
  · omega

/-- Credit is issued and a drain asked for, and the mux takes the signal after both are queued. -/
theorem queued_credit_seen_both : ∃ trace s,
    RunIf (Fires ManualReceiver.step) (fun _ s x => InTime s x.1) (.start 0 none 0 0 10) trace s ∧
      s.mux.phase = .selecting ∧ s.mux.receiverReady = false ∧ s.signalling = 0 ∧
      ¬(s.mux.creditor.creditsToAdd > 0 ∨ s.mux.creditor.pendingDrain = true) := by
  have hexec : (execIf ManualReceiver.step (fun _ => inTime) [] (.start 0 none 0 0 10)
      [.other .check, .other .flowBits, .other (.issueCredit 5), .issueQueue, .drainSignal, .drainQueue, .issueSignal,
        .other .ready, .other .check, .other .flowBits, .other .muxFlow, .other .handOver]).map
      (fun r => r.2.asleep) = some true := by
    decide +kernel
  obtain ⟨⟨trace, s⟩, hexec, hasleep⟩ := map_eq_some_iff.mp hexec
  obtain ⟨hphase, hready, hsignal⟩ := asleep_spec hasleep
  have hrun := RunIf.of_execIf (G := fun _ s x => InTime s x.1) inTime_of_test _ .start hexec
  exact ⟨trace, s, hrun, hphase, hready, hsignal,
    fun hqueued => queued_credit_seen hrun ⟨hphase, hready, hsignal, hqueued⟩⟩

/-- The mux takes the signal of `DrainCredit` and asks the creditor before the drain is queued. -/
theorem drain_never_sent : ∃ trace s,
    Run (Fires ManualReceiver.step) (.start 0 none 0 0 10) trace s ∧ s.mux.phase = .selecting ∧
      s.mux.receiverReady = false ∧ s.signalling = 0 ∧ s.draining = 0 ∧ s.mux.creditor.pendingDrain = true := by
  have hexec : (exec ManualReceiver.step [] (.start 0 none 0 0 10)
      [.other .check, .other .flowBits, .drainSignal, .other .ready, .other .check, .other .flowBits,
        .drainQueue]).map (fun r => (r.2.asleep, r.2.draining, r.2.mux.creditor.pendingDrain)) =
        some (true, 0, true) := by
    decide +kernel
  obtain ⟨⟨trace, s⟩, hexec, heq⟩ := map_eq_some_iff.mp hexec
  simp only [Prod.mk.injEq] at heq
  obtain ⟨hasleep, hdraining, hpending⟩ := heq
  obtain ⟨hphase, hready, hsignal⟩ := asleep_spec hasleep
  exact ⟨trace, s, .of_exec _ .start hexec, hphase, hready, hsignal, hdraining, hpending⟩

end GoAmqp
