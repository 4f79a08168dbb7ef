import GoAmqp.Link.Delivery
import GoAmqp.Link.SenderMux
import GoAmqp.Lib.Transition
import Mathlib.Data.List.Chain

set_option autoImplicit false

/-! # Calls of `Send` on a sender link

`Sender.send` round by round, together with the mux of the link: a call offers one transfer at a time
on the unbuffered channel `s.transfers`, and the mux takes it in the same step. A call holds the
sender's lock until it returns, so that there is one at a time. While it offers a transfer it can be
cancelled through its context, or find the link detached. -/

namespace GoAmqp

open Lib Buffer SenderMux EStateM

namespace Sender

/-- `send` up to its loop. -/
def beginSend (msg : Message) : IntoM Sender PerformTransfer :=
  if (msg.deliveryTag.getD []).length > maxDeliveryTagLength then
    fail (s!"delivery tag is over the allowed {maxDeliveryTagLength} bytes, len: {(msg.deliveryTag.getD []).length}")
  else do
    modify fun s => (s.1, reset s.2)
    onBuffer msg.marshal
    checkSize
    let s ← get
    let deliveryID ← takeDeliveryID
    let deliveryTag ← takeDeliveryTag msg
    let left ← onBuffer len
    pure { PerformTransfer.zero with
      handle := s.1.handle
      deliveryID := some deliveryID
      deliveryTag := some deliveryTag
      messageFormat := some msg.format
      more := decide (left > 0) }

/-- A round of the loop up to the `select`. -/
def sendRound (maxPayloadSize : Int) (senderSettled : Bool) (fr : PerformTransfer) :
    IntoM Sender PerformTransfer := do
  let buf ← onBuffer (nextSigned maxPayloadSize)
  let left ← onBuffer len
  finish senderSettled { fr with payload := buf, more := decide (left > 0) }

/-- The loop of `send` is made of these rounds. -/
theorem sendLoop_eq (maxPayloadSize : Int) (senderSettled : Bool) (bound : Nat) (fr : PerformTransfer) :
    sendLoop maxPayloadSize senderSettled (bound + 1) fr =
      if fr.more then do
        let fr ← sendRound maxPayloadSize senderSettled fr
        push fr
        sendLoop maxPayloadSize senderSettled bound fr.continuation
      else pure fr.done := by
  simp only [sendLoop, sendRound, bind_assoc]
  rfl

theorem run_takeDeliveryID (s : Sender) (r : Buffer) :
    takeDeliveryID.run (s, r)
      = .ok (s.nextDeliveryID + 1) ({ s with nextDeliveryID := s.nextDeliveryID + 1 }, r) := rfl

theorem run_len_into (s : Sender) (r : Buffer) :
    (onBuffer len : IntoM Sender Nat).run (s, r) = .ok r.unread.length (s, r) :=
  run_onBuffer (run_len_of_wf r)

/-- `send` is its beginning and its loop. -/
theorem run_send_eq (msg : Message) (st : Sender × Buffer) :
    (send msg).run st = (do
      let fr ← beginSend msg
      let s ← get
      let left ← onBuffer len
      sendLoop s.1.maxPayloadSize (s.1.senderSettled msg) (left + 2) fr : IntoM Sender (Option Nat)).run st := by
  unfold send beginSend
  split
  · rfl
  · simp only [bind_assoc, pure_bind, run_bind]
    cases run (modify fun s => (s.1, reset s.2) : IntoM Sender Unit) st with
    | error e st => rfl
    | ok _ st =>
      dsimp only
      cases run (onBuffer msg.marshal : IntoM Sender Unit) st with
      | error e st => rfl
      | ok _ st =>
        dsimp only
        cases run checkSize st with
        | error e st => rfl
        | ok _ st =>
          obtain ⟨s, r⟩ := st
          simp only [sendEncoded, run_bind, run_get, run_takeDeliveryID, run_takeDeliveryTag, run_len_into]
          rfl

end Sender

/-! ## The link -/

/-- A sender with one call of `Send` at a time, and its mux. -/
structure SenderLink where
  sender : Sender
  buf : Buffer
  /-- the transfer that the running call offers, and whether its message is settled by the sender -/
  offered : Option (PerformTransfer × Bool)
  mux : SenderMux

/-- What can happen next to the sender. -/
inductive LinkInput where
  /-- a call of `Send` gets the lock; the other senders of the session have left the delivery-id
      counter at some value -/
  | call (nextDeliveryID : UInt32) (msg : Message)
  /-- `s.transfers <- fr` -/
  | take
  /-- `<-ctx.Done()` -/
  | cancel
  /-- `<-s.l.detached` -/
  | detached
  /-- a step of the mux other than taking a transfer -/
  | mux (i : SenderInput)

variable {fr : PerformTransfer} {s s' : SenderLink} {events : List SenderEvent}
  {trace : Trace LinkInput SenderEvent}

namespace SenderLink

/-- The head of the loop: the next round offers a transfer, or the call returns. -/
def advance (s : SenderLink) (settles : Bool) (fr : PerformTransfer) : Option SenderLink :=
  if fr.more then
    match (Sender.sendRound s.sender.maxPayloadSize settles fr).run (s.sender, s.buf) with
    | .ok fr (sender, buf) => some { s with sender := sender, buf := buf, offered := some (fr, settles) }
    -- a negative payload size panics
    | .error _ _ => none
  else some { s with offered := none }

/-- `Send` up to its first transfer. -/
def call (s : SenderLink) (msg : Message) : Option SenderLink :=
  match (Sender.beginSend msg).run (s.sender, s.buf) with
  | .ok fr (sender, buf) => advance { s with sender := sender, buf := buf } (sender.senderSettled msg) fr
  -- `Send` returns an error
  | .error (.err _) (sender, buf) => some { s with sender := sender, buf := buf }
  | .error _ _ => none

def isTransfer : SenderInput → Bool
  | .transfer _ => true
  | _ => false

def muxReturned (m : SenderMux) : Bool :=
  match m.phase with
  | .returned _ => true
  | _ => false

/-- One step of the sender: of the call that runs, or of the mux. -/
def step (s : SenderLink) : LinkInput → Option (SenderLink × List SenderEvent)
  | .call nextDeliveryID msg =>
    match s.offered with
    | none => (call { s with sender := { s.sender with nextDeliveryID := nextDeliveryID } } msg).map (·, [])
    | some _ => none
  | .take =>
    match s.offered with
    | none => none
    | some (fr, settles) =>
      match s.mux.step (.transfer fr) with
      | some (mux, events) => (advance { s with mux := mux } settles fr.continuation).map (·, events)
      | none => none
  | .cancel =>
    match s.offered with
    | some _ => some ({ s with offered := none }, [])
    | none => none
  | .detached =>
    match s.offered with
    | some _ => if muxReturned s.mux then some ({ s with offered := none }, []) else none
    | none => none
  | .mux i =>
    if isTransfer i then none
    else (s.mux.step i).map fun res => ({ s with mux := res.1 }, res.2)

/-- The link after its attach. -/
def start (sender : Sender) (mode : Option ReceiverSettleMode) (detachOnDispositionError : Bool) :
    SenderLink where
  sender := sender
  buf := .new []
  offered := none
  mux := .start sender.handle mode detachOnDispositionError

/-! ## What a step can do -/

/-- A round keeps the delivery-id of its transfer. -/
theorem sendRound_deliveryID {k : Int} {settles : Bool} {fr' : PerformTransfer} {st st' : Sender × Buffer}
    (h : (Sender.sendRound k settles fr).run st = .ok fr' st') : fr'.deliveryID = fr.deliveryID := by
  simp only [Sender.sendRound, run_bind] at h
  split at h
  · next payload st₁ _ =>
    split at h
    · next left st₂ _ =>
      unfold Sender.finish at h
      split at h
      · cases h
        rfl
      · cases h
        rfl
    · cases h
  · cases h

/-- The call offers a transfer with the delivery-id of `fr`, or returns because nothing follows. -/
theorem advance_cases {settles : Bool} (h : s.advance settles fr = some s') :
    s'.mux = s.mux ∧ ((∃ fr', s'.offered = some (fr', settles) ∧ fr'.deliveryID = fr.deliveryID) ∨
      (fr.more = false ∧ s'.offered = none)) := by
  unfold advance at h
  split at h
  · split at h
    · next fr' sender buf hround =>
      cases h
      exact ⟨rfl, .inl ⟨fr', rfl, sendRound_deliveryID hround⟩⟩
    · cases h
  · next hmore =>
    cases h
    exact ⟨rfl, .inr ⟨by simpa using hmore, rfl⟩⟩

theorem call_mux {msg : Message} (h : s.call msg = some s') : s'.mux = s.mux := by
  unfold call at h
  split at h
  · exact (advance_cases h).1
  · cases h
    rfl
  · cases h

/-- What a step can do to the call that is running and to the mux. -/
inductive Effect (s : SenderLink) : LinkInput → List SenderEvent → SenderLink → Prop
  | called (n : UInt32) (msg : Message) (s' : SenderLink) : s.offered = none → s'.mux = s.mux →
      Effect s (.call n msg) [] s'
  | taken (fr : PerformTransfer) (settles : Bool) (s' : SenderLink) : s.offered = some (fr, settles) →
      s.mux.phase = .waiting → s'.mux = { s.mux with phase := .holding fr } →
      (∀ fr', s'.offered = some fr' → fr'.1.deliveryID = none) → (s'.offered = none → fr.more = false) →
      Effect s .take [] s'
  | cancelled (fr : PerformTransfer) (settles : Bool) : s.offered = some (fr, settles) →
      Effect s .cancel [] { s with offered := none }
  | detached : muxReturned s.mux = true → Effect s .detached [] { s with offered := none }
  | mux (i : SenderInput) (events : List SenderEvent) (mux : SenderMux) : isTransfer i = false →
      s.mux.step i = some (mux, events) → Effect s (.mux i) events { s with mux := mux }

theorem step_effect {i : LinkInput} (h : s.step i = some (s', events)) : Effect s i events s' := by
  cases i with
  | call n msg =>
    simp only [step] at h
    split at h
    · next hnone =>
      simp only [Option.map_eq_some_iff, Prod.mk.injEq] at h
      obtain ⟨s₁, hcall, rfl, rfl⟩ := h
      have hmux := call_mux hcall
      exact .called n msg s₁ hnone hmux
    · cases h
  | take =>
    simp only [step] at h
    split at h
    · cases h
    · next fr settles hoffered =>
      split at h
      · next mux events' hmux =>
        simp only [Option.map_eq_some_iff, Prod.mk.injEq] at h
        obtain ⟨s₁, hadvance, rfl, rfl⟩ := h
        obtain ⟨hkept, hnext⟩ := advance_cases hadvance
        obtain ⟨hphase, -, rfl, rfl⟩ := step_transfer hmux
        refine .taken fr settles s₁ hoffered hphase hkept ?_ ?_
        · intro fr' hfr'
          rcases hnext with ⟨fr₁, hsome, hid⟩ | ⟨-, hnone⟩
          · cases hsome.symm.trans hfr'
            exact hid
          · cases hnone.symm.trans hfr'
        · intro hnone
          rcases hnext with ⟨fr₁, hsome, -⟩ | ⟨hmore, -⟩
          · cases hnone.symm.trans hsome
          · exact hmore
      · cases h
  | cancel =>
    simp only [step] at h
    split at h
    · next fr hoffered =>
      cases h
      exact .cancelled fr.1 fr.2 hoffered
    · cases h
  | detached =>
    simp only [step] at h
    split at h
    · split at h
      · next hreturned =>
        cases h
        exact .detached hreturned
      · cases h
    · cases h
  | mux i =>
    simp only [step] at h
    split at h
    · cases h
    · next htransfer =>
      simp only [Option.map_eq_some_iff, Prod.mk.injEq] at h
      obtain ⟨⟨mux, events'⟩, hmux, rfl, rfl⟩ := h
      exact .mux i events' mux (by simpa using htransfer) hmux

/-! ## Whole deliveries -/

/-- The transfers among the events of a step. -/
def transfersOf : List SenderEvent → List PerformTransfer
  | [] => []
  | .txTransfer tr :: events => tr :: transfersOf events
  | .txFrame _ :: events => transfersOf events

/-- The transfers the link has handed to the session, the oldest first. -/
def handed : Trace LinkInput SenderEvent → List PerformTransfer
  | [] => []
  | l :: trace => handed trace ++ transfersOf l.2

/-- The transfer the mux has taken and not yet handed over. -/
def held (m : SenderMux) : List PerformTransfer :=
  match m.phase with
  | .holding tr => [tr]
  | _ => []

/-- A transfer that starts a delivery comes after the end of another one. -/
def MayFollow (a b : PerformTransfer) : Prop := b.deliveryID.isSome = true → a.more = false ∨ a.aborted = true

/-- The last of the transfers ends a delivery. -/
def Ended (ts : List PerformTransfer) : Prop := ∀ t ∈ ts.getLast?, t.more = false

theorem transfersOf_answer (fr : PerformDisposition) : transfersOf (answerDisposition fr) = [] := by
  unfold answerDisposition
  split <;> rfl

/-- The frames that a sender answers itself are no transfers. -/
theorem transfersOf_muxHandleFrame (m : SenderMux) (body : FrameBody) :
    transfersOf (m.muxHandleFrame body).2 = [] := by
  cases body with
  | flow fr =>
    simp only [muxHandleFrame, handleFlow]
    split
    · rfl
    · dsimp only
      split <;> rfl
  | disposition fr =>
    simp only [muxHandleFrame, handleDisposition]
    split
    · split
      · rfl
      · exact transfersOf_answer fr
    · exact transfersOf_answer fr
  | _ => rfl

theorem held_of_rx {m m' : SenderMux} {body : FrameBody} (h : FrameEffect m body m')
    (hrun : m'.Running) : held m' = held m := by
  cases h with
  | credit fr credit _ _ hm' => subst hm'; rfl
  | kept _ hm' => subst hm'; rfl
  | ended hend => exact absurd hrun hend

/-- The mux hands over what it holds, and takes nothing by itself. -/
theorem mux_hands_over {m m' : SenderMux} {i : SenderInput} (hi : isTransfer i = false)
    (h : m.step i = some (m', events)) :
    m.Running ∧ (transfersOf events = [] ∨ transfersOf events = held m) ∧
      (m'.Running → transfersOf events ++ held m' = held m) := by
  cases i with
  | rx body =>
    obtain ⟨hrun, hframe⟩ := step_rx h
    have hnone := transfersOf_muxHandleFrame m body
    have heffect := muxHandleFrame_effect m body
    rw [hframe] at hnone heffect
    refine ⟨hrun, .inl hnone, ?_⟩
    intro hrun'
    rw [hnone, List.nil_append]
    exact held_of_rx heffect hrun'
  | transfer tr => cases hi
  | handOver =>
    obtain ⟨tr, hp, rfl, rfl⟩ := step_handOver h
    have hheld : held m = [tr] := by simp [held, hp]
    have hwaiting : held (m.handedOver tr) = [] := by
      unfold handedOver
      split <;> rfl
    refine ⟨.inr ⟨tr, hp⟩, .inr hheld.symm, ?_⟩
    intro _
    rw [hheld, hwaiting]
    rfl
  | close =>
    unfold SenderMux.step at h
    cases hp : m.phase <;> rw [hp] at h <;> cases h
    · exact ⟨.inl hp, .inl rfl, fun hrun => absurd hrun (not_running_returned m _)⟩
    · exact ⟨.inr ⟨_, hp⟩, .inl rfl, fun hrun => absurd hrun (not_running_returned m _)⟩
  | sessionDone =>
    unfold SenderMux.step at h
    cases hp : m.phase <;> rw [hp] at h <;> cases h
    · exact ⟨.inl hp, .inl rfl, fun hrun => absurd hrun (not_running_returned m _)⟩
    · exact ⟨.inr ⟨_, hp⟩, .inl rfl, fun hrun => absurd hrun (not_running_returned m _)⟩

/-- A call is cancelled only while it offers the first transfer of its message. -/
def CancelsFirst (_ : Trace LinkInput SenderEvent) (s : SenderLink)
    (l : LinkInput × List SenderEvent) : Prop :=
  l.1 = .cancel → ∀ fr, s.offered = some fr → fr.1.deliveryID.isSome = true

/-- The transfers handed over, followed by the one that the mux holds, form whole deliveries, and a
    running mux has the rest of an unfinished one still to come from the call that is running. -/
structure Formed (trace : Trace LinkInput SenderEvent) (s : SenderLink) : Prop where
  handed : (handed trace).IsChain MayFollow
  taken : s.mux.Running → (SenderLink.handed trace ++ held s.mux).IsChain MayFollow
  idle : s.mux.Running → s.offered = none → Ended (SenderLink.handed trace ++ held s.mux)
  first : s.mux.Running → ∀ fr, s.offered = some fr → fr.1.deliveryID.isSome = true →
    Ended (SenderLink.handed trace ++ held s.mux)

theorem Formed.start (sender : Sender) (mode : Option ReceiverSettleMode) (detach : Bool) :
    Formed [] (SenderLink.start sender mode detach) := by
  refine ⟨.nil, fun _ => .nil, ?_, ?_⟩
  · intro _ _ t ht
    cases ht
  · intro _ fr hfr
    cases hfr

theorem isChain_snoc {ts : List PerformTransfer} (h : ts.IsChain MayFollow)
    (hfr : fr.deliveryID.isSome = true → Ended ts) : (ts ++ [fr]).IsChain MayFollow := by
  rw [List.isChain_append]
  refine ⟨h, .singleton fr, ?_⟩
  intro t ht t' ht' hid
  simp only [List.head?_cons, Option.mem_some_iff] at ht'
  subst ht'
  exact .inl (hfr hid t ht)

theorem ended_snoc {ts : List PerformTransfer} (h : fr.more = false) : Ended (ts ++ [fr]) := by
  intro t ht
  simp only [List.getLast?_append, List.getLast?_singleton, Option.some_or, Option.mem_some_iff] at ht
  rwa [← ht]

/-- A step that hands nothing over: what is left to show is about the transfer held and offered. -/
theorem Formed.kept (h : Formed trace s)
    (i : LinkInput) (taken : s'.mux.Running → (SenderLink.handed trace ++ held s'.mux).IsChain MayFollow)
    (idle : s'.mux.Running → s'.offered = none → Ended (SenderLink.handed trace ++ held s'.mux))
    (first : s'.mux.Running → ∀ fr, s'.offered = some fr → fr.1.deliveryID.isSome = true →
      Ended (SenderLink.handed trace ++ held s'.mux)) : Formed ((i, []) :: trace) s' := by
  have hhanded : SenderLink.handed ((i, []) :: trace) = SenderLink.handed trace := List.append_nil _
  refine ⟨?_, ?_, ?_, ?_⟩
  · rw [hhanded]; exact h.handed
  · rw [hhanded]; exact taken
  · rw [hhanded]; exact idle
  · rw [hhanded]; exact first

theorem Formed.muxStep {i : SenderInput} {mux : SenderMux} (h : Formed trace s) (hi : isTransfer i = false)
    (hmux : s.mux.step i = some (mux, events)) : Formed ((.mux i, events) :: trace) { s with mux := mux } := by
  obtain ⟨hrun, hevents, hheld⟩ := mux_hands_over hi hmux
  have htaken : mux.Running →
      SenderLink.handed ((.mux i, events) :: trace) ++ held mux = SenderLink.handed trace ++ held s.mux := by
    intro hrun'
    rw [← hheld hrun', ← List.append_assoc]
    rfl
  refine ⟨?_, ?_, ?_, ?_⟩
  · show (SenderLink.handed trace ++ transfersOf events).IsChain MayFollow
    rcases hevents with hnone | hsome
    · rw [hnone, List.append_nil]
      exact h.handed
    · rw [hsome]
      exact h.taken hrun
  · intro hrun'
    rw [htaken hrun']
    exact h.taken hrun
  · intro hrun' hoffered
    rw [htaken hrun']
    exact h.idle hrun hoffered
  · intro hrun' fr hfr hid
    rw [htaken hrun']
    exact h.first hrun fr hfr hid

theorem Formed.step {l : LinkInput × List SenderEvent} (h : Formed trace s)
    (hstep : Fires SenderLink.step s l s') (hguard : CancelsFirst trace s l) : Formed (l :: trace) s' := by
  obtain ⟨i, events⟩ := l
  have heffect : Effect s i events s' := step_effect hstep
  cases heffect with
  | called n msg _ hnone hmux =>
    refine h.kept _ ?_ ?_ ?_
    · rw [hmux]
      exact h.taken
    · rw [hmux]
      intro hrun _
      exact h.idle hrun hnone
    · rw [hmux]
      intro hrun _ _ _
      exact h.idle hrun hnone
  | taken fr settles _ hoffered hphase hmux hnext hlast =>
    have hrun : s.mux.Running := .inl hphase
    have hbefore : held s.mux = [] := by simp [held, hphase]
    have hheld : held s'.mux = [fr] := by rw [hmux]; rfl
    have hchain := h.taken hrun
    have hfirst := h.first hrun _ hoffered
    rw [hbefore, List.append_nil] at hchain hfirst
    refine h.kept _ ?_ ?_ ?_
    · intro _
      rw [hheld]
      exact isChain_snoc hchain hfirst
    · intro _ hnone
      rw [hheld]
      exact ended_snoc (hlast hnone)
    · intro _ fr' hfr' hid
      rw [hnext fr' hfr'] at hid
      cases hid
  | cancelled fr settles hoffered =>
    refine h.kept _ h.taken ?_ ?_
    · intro hrun _
      exact h.first hrun _ hoffered (hguard rfl _ hoffered)
    · intro _ fr' hfr'
      cases hfr'
  | detached hreturned =>
    have hend : ¬ s.mux.Running := by
      rintro (hp | ⟨tr, hp⟩) <;> simp [muxReturned, hp] at hreturned
    refine h.kept _ h.taken ?_ ?_
    · intro hrun
      exact absurd hrun hend
    · intro hrun
      exact absurd hrun hend
  | mux i events mux hi hmux => exact h.muxStep hi hmux

end SenderLink

open SenderLink

/-- **Transfers form whole deliveries.** In every run in which calls of `Send` are cancelled only while
    they offer the first transfer of their message, a transfer with a delivery-id is the first that
    the link hands to the session or follows one that ends a delivery. -/
theorem handed_whole_deliveries (sender : Sender) (mode : Option ReceiverSettleMode) (detach : Bool)
    {trace : Trace LinkInput SenderEvent} {s : SenderLink}
    (hrun : RunIf (Fires SenderLink.step) CancelsFirst (.start sender mode detach) trace s) :
    (handed trace).IsChain fun a b =>
      b.deliveryID.isSome = true → a.more = false ∨ a.aborted = true := by
  have hformed : Formed trace s :=
    hrun.invariant (P := fun trace (s : SenderLink) => Formed trace s)
      (.start sender mode detach) (fun _ _ _ _ h hstep hguard => h.step hstep hguard)
  exact hformed.handed

namespace SenderLink

/-- A sender whose transfers carry six bytes. -/
def narrowSender : Sender where
  handle := 0
  maxMessageSize := 0
  senderSettleMode := none
  peerMaxFrameSize := 72
  nextDeliveryTag := 0
  nextDeliveryID := 0
  channels := 0
  transfers := []

/-- A message encoded in nine bytes. -/
def twoTransferMessage : Message := { Message.zero with data := [[1, 2, 3, 4]] }

/-- Two credits. -/
def creditTwo : LinkInput :=
  .mux (.rx (.flow { PerformFlow.zero with deliveryCount := some 0, linkCredit := some 2 }))

/-- Where a call may be cancelled. -/
def mayCancel (_ : Trace LinkInput SenderEvent) (s : SenderLink) : LinkInput → Bool
  | .cancel => s.offered.all fun fr => fr.1.deliveryID.isSome
  | _ => true

theorem cancelsFirst_of_mayCancel (trace : Trace LinkInput SenderEvent) (s : SenderLink) (i : LinkInput)
    (events : List SenderEvent) (h : mayCancel trace s i = true) : CancelsFirst trace s (i, events) := by
  rintro hi fr hfr
  dsimp only at hi
  subst hi
  simpa [mayCancel, hfr] using h

end SenderLink

/-- A call is cancelled before its first transfer is taken, and the next one is not. -/
theorem handed_whole_deliveries_two :
    ∃ trace : Trace LinkInput SenderEvent,
      (handed trace).map (fun t => (t.deliveryID, t.more)) = [(some 2, true), (none, false)] ∧
      (handed trace).IsChain fun a b =>
        b.deliveryID.isSome = true → a.more = false ∨ a.aborted = true := by
  have hexec : (execIf SenderLink.step mayCancel [] (.start narrowSender none true)
      [creditTwo, .call 0 twoTransferMessage, .cancel,
        .call 1 twoTransferMessage, .take, .mux .handOver, .take, .mux .handOver]).map
      (fun res => (handed res.1).map fun t => (t.deliveryID, t.more))
        = some [(some 2, true), (none, false)] := by decide +kernel
  obtain ⟨⟨trace, s⟩, hexec, hhanded⟩ := Option.map_eq_some_iff.mp hexec
  exact ⟨trace, hhanded, handed_whole_deliveries narrowSender none true
    (.of_execIf cancelsFirst_of_mayCancel _ .start hexec)⟩

/-- A call is cancelled after the first of its two transfers; the next call starts another delivery. -/
theorem delivery_left_unfinished :
    ∃ (trace : Trace LinkInput SenderEvent) (s : SenderLink),
      Run (Fires SenderLink.step) (.start narrowSender none true) trace s ∧
      (handed trace).map (fun t => (t.deliveryID, t.more, t.aborted))
        = [(some 1, true, false), (some 2, true, false)] := by
  have hexec : (exec SenderLink.step [] (.start narrowSender none true)
      [creditTwo, .call 0 twoTransferMessage, .take, .mux .handOver, .cancel,
        .call 1 twoTransferMessage, .take, .mux .handOver]).map
      (fun res => (handed res.1).map fun t => (t.deliveryID, t.more, t.aborted))
        = some [(some 1, true, false), (some 2, true, false)] := by decide +kernel
  obtain ⟨⟨trace, s⟩, hexec, hhanded⟩ := Option.map_eq_some_iff.mp hexec
  exact ⟨trace, s, .of_exec _ .start hexec, hhanded⟩

end GoAmqp
