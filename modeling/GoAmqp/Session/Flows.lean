import GoAmqp.Session.Mux
import GoAmqp.Link.ReceiverMux

set_option autoImplicit false

/-! # The flow frames of a session and its links

A flow frame tells the peer about the state of the session, which only the session's mux has. The mux sends flow
frames of its own and fills in those that a receiver hands to it on `s.tx`. A link that answers a flow frame of the
peer with `txFrame` passes by the mux.

`FlowSession` is the session's mux with the muxes of its links. A frame or a transfer that a link hands to the
session is one step of both, as the channels are unbuffered; frames of the peer for a link wait in its `rx`. -/

namespace GoAmqp

open Lib Function List Option

/-! ## The system -/

/-- The frame that is handed to the connection. -/
def MuxEvent.frame? : MuxEvent → Option FrameBody
  | .txFrame body _ => some body
  | _ => none

/-- A session with the muxes of its links, and the channels between them. -/
structure FlowSession where
  session : Session
  sender : LinkID → Option SenderMux
  receiver : LinkID → Option ReceiverMux
  /-- the frames in `link.rx`, oldest first -/
  rx : LinkID → List FrameBody

/-- A step of the session or of one of its links. -/
inductive FlowSessionInput where
  /-- a step of the session's mux that takes nothing from the mux of a link -/
  | session (i : MuxInput)
  /-- a sender takes the attach of the peer, up to `go s.mux()` -/
  | startSender (l : LinkID) (mode : Option ReceiverSettleMode) (detachOnDispositionError : Bool)
  /-- a receiver takes the attach of the peer, up to `go r.mux()` -/
  | startReceiver (l : LinkID) (maxMessageSize : UInt64) (mode : Option ReceiverSettleMode) (autoSendFlow : Bool)
      (maxCredit : UInt32)
  /-- the mux of the link takes the next frame from `rx` -/
  | rx (l : LinkID)
  /-- another step of a sender -/
  | sender (l : LinkID) (i : SenderInput)
  /-- another step of a receiver, or of the application -/
  | receiver (l : LinkID) (i : ReceiverInput)

namespace FlowSession

def start (session : Session) : FlowSession := ⟨session, fun _ => none, fun _ => none, fun _ => []⟩

def setSender (x : FlowSession) (l : LinkID) (s : SenderMux) : FlowSession :=
  { x with sender := update x.sender l (some s) }

def setReceiver (x : FlowSession) (l : LinkID) (r : ReceiverMux) : FlowSession :=
  { x with receiver := update x.receiver l (some r) }

def put (x : FlowSession) : MuxEvent → FlowSession
  | .toLink l body => { x with rx := update x.rx l (x.rx l ++ [body]) }
  | _ => x

/-- A step of the session's mux, and the frames it hands to the connection. -/
def muxStep (x : FlowSession) (i : MuxInput) : Option (FlowSession × List FrameBody) :=
  (x.session.step i).map fun r => (r.2.foldl put { x with session := r.1 }, r.2.filterMap MuxEvent.frame?)

/-- What a sender does reaches the session or the connection. -/
def fromSender (l : LinkID) (x : FlowSession) : SenderEvent → Option (FlowSession × List FrameBody)
  | .txTransfer tr => x.muxStep (.txTransfer l tr)
  | .txFrame body => some (x, [body])

/-- What the session does with an event of a receiver. -/
def fromReceiver (x : FlowSession) : ReceiverEvent → Option (FlowSession × List FrameBody)
  | .tx body => x.muxStep (.tx body)
  | .txFrame body => some (x, [body])
  | _ => some (x, [])

/-- The events of a step of a link, one after the other. -/
def passAll {E : Type} (pass : FlowSession → E → Option (FlowSession × List FrameBody)) :
    FlowSession → List E → Option (FlowSession × List FrameBody)
  | x, [] => some (x, [])
  | x, e :: events =>
    (pass x e).bind fun r => (passAll pass r.1 events).map fun r' => (r'.1, r.2 ++ r'.2)

/-- A step of a sender's mux, and of the session with what it hands over. -/
def senderStep (x : FlowSession) (l : LinkID) (i : SenderInput) : Option (FlowSession × List FrameBody) :=
  ((x.sender l).bind fun s => s.step i).bind fun r =>
    passAll (fromSender l) (x.setSender l r.1) r.2

/-- The same for a receiver. -/
def receiverStep (x : FlowSession) (l : LinkID) (i : ReceiverInput) : Option (FlowSession × List FrameBody) :=
  ((x.receiver l).bind fun r => r.step i).bind fun r =>
    passAll fromReceiver (x.setReceiver l r.1) r.2

/-- Frames for the session come from the links; a flow comes from `muxFlow` only. -/
def ofLink : MuxInput → Bool
  | .txTransfer _ _ => true
  | .tx (.flow _) => true
  | _ => false

def isRx : SenderInput → Bool
  | .rx _ => true
  | _ => false

def isReceiverRx : ReceiverInput → Bool
  | .rx _ => true
  | _ => false

/-- One step, with the frames it hands to the connection. -/
def step (x : FlowSession) : FlowSessionInput → Option (FlowSession × List FrameBody)
  | .session i => if ofLink i then none else x.muxStep i
  | .startSender l mode detachOnDispositionError =>
    match x.rx l, x.sender l, x.receiver l with
    | .attach _ :: rest, none, none =>
      some ({ x with rx := update x.rx l rest }.setSender l
        (.start (x.session.link l).handle mode detachOnDispositionError), [])
    | _, _, _ => none
  | .startReceiver l maxMessageSize mode autoSendFlow maxCredit =>
    match x.rx l, x.sender l, x.receiver l with
    | .attach resp :: rest, none, none =>
      some ({ x with rx := update x.rx l rest }.setReceiver l
        (.start maxMessageSize mode resp.initialDeliveryCount (x.session.link l).handle autoSendFlow maxCredit), [])
    | _, _, _ => none
  | .rx l =>
    match x.rx l with
    | [] => none
    | body :: rest =>
      let x := { x with rx := update x.rx l rest }
      if (x.sender l).isSome then x.senderStep l (.rx body) else x.receiverStep l (.rx body)
  | .sender l i => if isRx i then none else x.senderStep l i
  | .receiver l i => if isReceiverRx i then none else x.receiverStep l i

end FlowSession

/-! ## Flows of the session -/

/-- The frame says what the session's state is. -/
structure Session.Carries (s : Session) (fr : PerformFlow) : Prop where
  nextIncomingID : fr.nextIncomingID = some s.nextIncomingID
  incomingWindow : fr.incomingWindow = s.incomingWindow
  nextOutgoingID : fr.nextOutgoingID = s.nextOutgoingID
  outgoingWindow : fr.outgoingWindow = s.outgoingWindow

/-- A session that receives the frame goes on. -/
def PerformFlow.Accepted (fr : PerformFlow) : Prop := ∀ s : Session, (s.rx (.flow fr)).1.phase = s.phase

namespace Session

variable {s s' : Session} {fr : PerformFlow}

theorem fillFlow_carries (s : Session) (fr : PerformFlow) : s.Carries (s.fillFlow fr) := ⟨rfl, rfl, rfl, rfl⟩

theorem Carries.accepted (h : s.Carries fr) : fr.Accepted := by
  intro s₂
  simp only [rx, rxFlow, h.nextIncomingID]
  split <;> rfl

/-- The flows among the events. -/
def FlowsCarry (s' : Session) (events : List MuxEvent) : Prop :=
  ∀ fr, .flow fr ∈ events.filterMap MuxEvent.frame? → s'.Carries fr

theorem forward_frames (s : Session) (handle : UInt32) (body : FrameBody) :
    (s.forward handle body).filterMap MuxEvent.frame? = [] := by
  unfold forward
  split <;> rfl

theorem FlowsCarry.of_none {events : List MuxEvent} (h : events.filterMap MuxEvent.frame? = []) :
    FlowsCarry s' events := by
  intro fr hfr
  rw [h] at hfr
  cases hfr

theorem rxFlow_carries (s : Session) (body : PerformFlow) : FlowsCarry (s.rxFlow body).1 (s.rxFlow body).2 := by
  unfold rxFlow
  split
  · intro fr hfr
    simp [MuxEvent.frame?] at hfr
  · split
    · exact .of_none (forward_frames s _ _)
    · intro fr hfr
      dsimp only at hfr
      split at hfr
      · simp only [filterMap_cons, MuxEvent.frame?, filterMap_nil, mem_singleton, FrameBody.flow.injEq] at hfr
        rw [hfr]
        exact fillFlow_carries _ _
      · cases hfr

theorem updateWindow_carries (s : Session) : FlowsCarry s.updateWindow.1 s.updateWindow.2 := by
  unfold updateWindow
  split
  · intro fr hfr
    simp only [filterMap_cons, MuxEvent.frame?, filterMap_nil, mem_singleton, FrameBody.flow.injEq] at hfr
    rw [hfr]
    -- the counter that is reset is not part of the frame
    exact ⟨rfl, rfl, rfl, rfl⟩
  · exact .of_none rfl

theorem rx_carries (s : Session) (body : FrameBody) : FlowsCarry (s.rx body).1 (s.rx body).2 := by
  cases body with
  | flow body => exact rxFlow_carries s body
  | attach body =>
    simp only [rx, rxAttach]
    split <;> exact .of_none rfl
  | transfer body =>
    simp only [rx, rxTransfer]
    split
    · exact .of_none rfl
    · intro fr hfr
      exact updateWindow_carries _ fr hfr
  | detach body =>
    simp only [rx, rxDetach]
    split <;> exact .of_none rfl
  | end_ body =>
    intro fr hfr
    simp [rx, MuxEvent.frame?] at hfr
  | _ => exact .of_none rfl

theorem dispositionRound_frames (s : Session) (body : PerformDisposition) (deliveryID : UInt32) :
    (s.dispositionRound body deliveryID).2.filterMap MuxEvent.frame? = [] := by
  unfold dispositionRound dispositionBody
  split
  · dsimp only
    split
    · rfl
    · rw [filterMap_append, forward_frames, List.append_nil]
      unfold confirm
      split
      · split <;> rfl
      · rfl
  · rfl

theorem step_carries {i : MuxInput} {events : List MuxEvent} (h : s.step i = some (s', events)) :
    FlowsCarry s' events := by
  cases step_cases h with
  | connDone => exact .of_none rfl
  | close _ =>
    intro fr hfr
    simp [MuxEvent.frame?] at hfr
  | rx body _ => exact rx_carries s body
  | rxClosing body _ =>
    cases body <;> exact .of_none rfl
  | round body deliveryID _ => exact .of_none (dispositionRound_frames s body deliveryID)
  | txTransfer l fr _ _ =>
    intro fr' hfr
    simp [txTransfer, MuxEvent.frame?] at hfr
  | tx body _ =>
    cases body with
    | flow fr =>
      intro fr' hfr
      simp only [tx, filterMap_cons, MuxEvent.frame?, filterMap_nil, mem_singleton, FrameBody.flow.injEq] at hfr
      rw [hfr]
      exact fillFlow_carries s fr
    | _ =>
      intro fr' hfr
      simp [tx, MuxEvent.frame?] at hfr
  | newLink | setReceiverSettleMode | deallocateHandle => exact .of_none rfl

end Session

/-! ## Flows of the links -/

namespace SenderMux

/-- A step does one thing outside the link at most. A flow is sent as an answer only. -/
inductive Emits (s : SenderMux) : SenderInput → List SenderEvent → Prop
  | echo (fr reply : PerformFlow) : fr.echo = true → fr.linkCredit.isSome = true → reply.nextIncomingID = none →
      Emits s (.rx (.flow fr)) [.txFrame (.flow reply)]
  | disposition (i : SenderInput) (d : PerformDisposition) : (∀ fr, i ≠ .rx (.flow fr)) →
      Emits s i [.txFrame (.disposition d)]
  | transfer (tr : PerformTransfer) : Emits s .handOver [.txTransfer tr]
  | silent (i : SenderInput) : (∀ fr, i = .rx (.flow fr) → fr.echo = true → fr.linkCredit.isSome = false) →
      Emits s i []

theorem muxHandleFrame_emits (s : SenderMux) (body : FrameBody) : Emits s (.rx body) (s.muxHandleFrame body).2 := by
  cases body with
  | flow fr =>
    simp only [muxHandleFrame, handleFlow]
    cases hc : fr.linkCredit with
    | none => exact .silent _ (by rintro _ ⟨⟩ -; simp [hc])
    | some credit =>
      dsimp only
      split
      · next hecho => exact .echo fr _ hecho (by simp [hc]) rfl
      · next hecho => exact .silent _ (by rintro _ ⟨⟩ h; exact absurd h hecho)
  | disposition fr =>
    have hanswer : Emits s (.rx (.disposition fr)) (answerDisposition fr) := by
      unfold answerDisposition
      split
      · exact .silent _ (by rintro _ ⟨⟩)
      · exact .disposition _ _ (by rintro _ ⟨⟩)
    simp only [muxHandleFrame, handleDisposition]
    split
    · split
      · exact .silent _ (by rintro _ ⟨⟩)
      · exact hanswer
    · exact hanswer
  | _ => exact .silent _ (by rintro _ ⟨⟩)

theorem step_emits {s s' : SenderMux} {i : SenderInput} {events : List SenderEvent}
    (h : s.step i = some (s', events)) : Emits s i events := by
  cases i with
  | rx body =>
    have hemits := muxHandleFrame_emits s body
    obtain ⟨-, hframe⟩ := step_rx h
    rwa [hframe] at hemits
  | handOver =>
    obtain ⟨tr, -, -, rfl⟩ := step_handOver h
    exact .transfer tr
  | transfer tr =>
    obtain ⟨-, -, -, rfl⟩ := step_transfer h
    exact .silent _ (by rintro _ ⟨⟩)
  | close | sessionDone =>
    simp only [step] at h
    split at h <;> cases h <;> exact .silent _ (by rintro _ ⟨⟩)

end SenderMux

namespace ReceiverMux

/-- The mux is in one of its two `select`s. -/
def selects : ReceiverPhase → Bool
  | .selecting | .sending _ => true
  | _ => false

/-- The frame is an answer to a flow of the peer. -/
inductive Emits (r : ReceiverMux) : ReceiverInput → List ReceiverEvent → Prop
  | echo (fr reply : PerformFlow) : selects r.phase = true → fr.echo = true → reply.nextIncomingID = none →
      Emits r (.rx (.flow fr)) [.txFrame (.flow reply)]
  | other (i : ReceiverInput) (e : Option ReceiverEvent) : (∀ body, e ≠ some (.txFrame body)) →
      (∀ fr, i = .rx (.flow fr) → selects r.phase = true → fr.echo = false) → Emits r i e.toList

variable {r r' : ReceiverMux} {events : List ReceiverEvent}

theorem Emits.none {i : ReceiverInput} (h : ∀ fr, i = .rx (.flow fr) → selects r.phase = true → fr.echo = false) :
    Emits r i [] :=
  .other i .none (fun _ h => by cases h) h

/-- A step that handles no frame. -/
theorem Emits.one {i : ReceiverInput} (e : ReceiverEvent) (he : ∀ body, e ≠ .txFrame body)
    (hi : FlowSession.isReceiverRx i = false) : Emits r i [e] :=
  .other i (some e) (fun body h => he body (Option.some.inj h)) (by rintro fr rfl; cases hi)

theorem muxHandleFrame_emits (flow : Option PerformFlow) (hselects : selects r.phase = true) (body : FrameBody) :
    Emits r (.rx body) (r.muxHandleFrame flow body).2 := by
  cases body with
  | flow fr =>
    simp only [muxHandleFrame, handleFlow]
    split
    · next hecho => exact .echo fr _ hselects hecho rfl
    · next hecho =>
      have hnot : ∀ fr', ReceiverInput.rx (.flow fr) = .rx (.flow fr') → selects r.phase = true → fr'.echo = false := by
        rintro _ ⟨⟩ -
        simpa using hecho
      split <;> exact .none hnot
  | _ => exact .none (by rintro _ ⟨⟩)

theorem removeRound_emits (j last : UInt32) (err : Option (AmqpError Value)) (flow : Option PerformFlow) :
    Emits r .removeRound (r.removeRound j last err flow).2 := by
  unfold removeRound
  split
  · exact .one _ (by rintro _ ⟨⟩) rfl
  · exact .none (by rintro _ ⟨⟩)

theorem step_emits {i : ReceiverInput} (h : r.step i = some (r', events)) : Emits r i events := by
  cases step_cases h with
  | rx body flow hselect =>
    have hselects : selects r.phase = true := by cases hp : r.phase <;> simp_all [selectFlow, selects]
    exact muxHandleFrame_emits flow hselects body
  -- `muxDetach` answers no flow
  | rxDetaching body err unsent hphase =>
    refine .none ?_
    rintro _ ⟨⟩ hselects
    rw [hphase] at hselects
    cases hselects
  | removeRound j last err flow => exact removeRound_emits j last err flow
  | muxFlow | handOver | handOverDetach | clear | receive | issueRefused | drainRefused =>
    exact .one _ (by rintro _ ⟨⟩) rfl
  | issueCheck =>
    unfold issueCheck
    split <;> exact .one _ (by rintro _ ⟨⟩) rfl
  | drainCredit =>
    unfold drainCredit
    split <;> exact .one _ (by rintro _ ⟨⟩) rfl
  | _ => exact .none (by rintro _ ⟨⟩)

end ReceiverMux

/-! ## Steps of the system -/

namespace FlowSession

variable {x x' : FlowSession} {wire : List FrameBody}

theorem foldl_put_session (events : List MuxEvent) (x : FlowSession) : (events.foldl put x).session = x.session := by
  induction events generalizing x with
  | nil => rfl
  | cons e events ih =>
    rw [foldl_cons, ih]
    cases e <;> rfl

/-- What a step puts on the wire tells the state of the session after it, and is accepted by a session. -/
def FlowsCarry (x' : FlowSession) (wire : List FrameBody) : Prop :=
  ∀ fr, .flow fr ∈ wire → x'.session.Carries fr ∧ fr.Accepted

theorem muxStep_carries {i : MuxInput} (h : x.muxStep i = some (x', wire)) : FlowsCarry x' wire := by
  obtain ⟨⟨session, events⟩, hstep, heq⟩ := map_eq_some_iff.mp h
  cases heq
  intro fr hfr
  have hcarries := Session.step_carries hstep fr hfr
  rw [foldl_put_session]
  exact ⟨hcarries, hcarries.accepted⟩

theorem FlowsCarry.of_not_flow (h : ∀ fr, .flow fr ∉ wire) : FlowsCarry x' wire :=
  fun fr hfr => absurd hfr (h fr)

theorem not_carries_of_nil {reply : PerformFlow} (h : reply.nextIncomingID = none) :
    ¬FlowsCarry x' [.flow reply] := by
  intro hcarry
  have hnext := (hcarry reply (mem_singleton_self _)).1.nextIncomingID
  rw [h] at hnext
  cases hnext

theorem passAll_one {E : Type} {pass : FlowSession → E → Option (FlowSession × List FrameBody)} {e : E}
    (h : passAll pass x [e] = some (x', wire)) : pass x e = some (x', wire) := by
  simp only [passAll, map_some, List.append_nil] at h
  obtain ⟨r, hr, heq⟩ := bind_eq_some_iff.mp h
  rw [hr, ← heq]

/-- The link takes a flow that asks for an answer, and answers it. -/
def Echoes (x : FlowSession) : FlowSessionInput → Prop
  | .rx l => ∃ fr rest, x.rx l = .flow fr :: rest ∧ fr.echo = true ∧
      ((x.sender l).isSome = true ∧ fr.linkCredit.isSome = true ∨
        (x.sender l).isSome = false ∧ ∃ r, x.receiver l = some r ∧ ReceiverMux.selects r.phase = true)
  | _ => False

theorem senderStep_carries {l : LinkID} {i : SenderInput} (h : x.senderStep l i = some (x', wire)) :
    FlowsCarry x' wire ↔ ¬∃ fr, i = .rx (.flow fr) ∧ fr.echo = true ∧ fr.linkCredit.isSome = true := by
  obtain ⟨⟨s', events⟩, hs, hpass⟩ := bind_eq_some_iff.mp h
  obtain ⟨s, -, hstep⟩ := bind_eq_some_iff.mp hs
  cases SenderMux.step_emits hstep with
  | echo fr reply hecho hcredit hnil =>
    cases passAll_one hpass
    refine iff_of_false (not_carries_of_nil hnil) ?_
    exact fun hnot => hnot ⟨fr, rfl, hecho, hcredit⟩
  | disposition i d hi =>
    cases passAll_one hpass
    refine iff_of_true (.of_not_flow (by simp)) ?_
    rintro ⟨fr, hfr, -⟩
    exact hi fr hfr
  | transfer tr =>
    refine iff_of_true (muxStep_carries (passAll_one hpass)) ?_
    rintro ⟨fr, ⟨⟩, -⟩
  | silent i hi =>
    cases hpass
    refine iff_of_true (.of_not_flow (by simp)) ?_
    rintro ⟨fr, hfr, hecho, hcredit⟩
    rw [hi fr hfr hecho] at hcredit
    cases hcredit

theorem fromReceiver_carries {e : ReceiverEvent} (he : ∀ body, e ≠ .txFrame body)
    (h : x.fromReceiver e = some (x', wire)) : FlowsCarry x' wire := by
  cases e with
  | tx body => exact muxStep_carries h
  | txFrame body => exact absurd rfl (he body)
  | _ =>
    cases h
    exact .of_not_flow (by simp)

theorem receiverStep_carries {l : LinkID} {i : ReceiverInput} (h : x.receiverStep l i = some (x', wire)) :
    FlowsCarry x' wire ↔ ¬∃ fr r, i = .rx (.flow fr) ∧ fr.echo = true ∧ x.receiver l = some r ∧
      ReceiverMux.selects r.phase = true := by
  obtain ⟨⟨r', events⟩, hr, hpass⟩ := bind_eq_some_iff.mp h
  obtain ⟨r, hlink, hstep⟩ := bind_eq_some_iff.mp hr
  cases ReceiverMux.step_emits hstep with
  | echo fr reply hselects hecho hnil =>
    cases passAll_one hpass
    refine iff_of_false (not_carries_of_nil hnil) ?_
    exact fun hnot => hnot ⟨fr, r, rfl, hecho, hlink, hselects⟩
  | other i e he hi =>
    refine iff_of_true ?_ ?_
    · cases e with
      | none =>
        cases hpass
        exact .of_not_flow (by simp)
      | some e => exact fromReceiver_carries (fun body heq => he body (congrArg some heq)) (passAll_one hpass)
    · rintro ⟨fr, r₁, hfr, hecho, hr₁, hselects⟩
      rw [hlink] at hr₁
      cases hr₁
      rw [hi fr hfr hselects] at hecho
      cases hecho

theorem rx_carries {l : LinkID} (h : x.step (.rx l) = some (x', wire)) : FlowsCarry x' wire ↔ ¬x.Echoes (.rx l) := by
  simp only [step] at h
  split at h
  · cases h
  · next body rest hrx =>
    split at h
    · next hsender =>
      rw [senderStep_carries h]
      refine not_congr ⟨?_, ?_⟩
      · rintro ⟨fr, ⟨⟩, hecho, hcredit⟩
        exact ⟨fr, rest, hrx, hecho, .inl ⟨hsender, hcredit⟩⟩
      · rintro ⟨fr, rest', hrx', hecho, hlink⟩
        rw [hrx] at hrx'
        cases hrx'
        rcases hlink with ⟨-, hcredit⟩ | ⟨hnone, -⟩
        · exact ⟨fr, rfl, hecho, hcredit⟩
        · simp [hnone] at hsender
    · next hsender =>
      rw [receiverStep_carries h]
      refine not_congr ⟨?_, ?_⟩
      · rintro ⟨fr, r, ⟨⟩, hecho, hlink, hselects⟩
        exact ⟨fr, rest, hrx, hecho, .inr ⟨by simpa using hsender, r, hlink, hselects⟩⟩
      · rintro ⟨fr, rest', hrx', hecho, hlink⟩
        rw [hrx] at hrx'
        cases hrx'
        rcases hlink with ⟨hsome, -⟩ | ⟨-, r, hr, hselects⟩
        · exact absurd hsome hsender
        · exact ⟨fr, r, rfl, hecho, hr, hselects⟩

/-- A step puts only flow frames on the wire that tell the state of the session, unless a link answers. -/
theorem step_carries {i : FlowSessionInput} (hstep : x.step i = some (x', wire)) :
    FlowsCarry x' wire ↔ ¬x.Echoes i := by
  cases i with
  | session i =>
    simp only [FlowSession.step] at hstep
    split at hstep
    · cases hstep
    · exact iff_of_true (muxStep_carries hstep) id
  | startSender l mode detachOnDispositionError =>
    simp only [FlowSession.step] at hstep
    split at hstep <;> cases hstep
    exact iff_of_true (.of_not_flow (by simp)) id
  | startReceiver l maxMessageSize mode autoSendFlow maxCredit =>
    simp only [FlowSession.step] at hstep
    split at hstep <;> cases hstep
    exact iff_of_true (.of_not_flow (by simp)) id
  | rx l => exact rx_carries hstep
  | sender l i =>
    simp only [FlowSession.step] at hstep
    split at hstep
    · cases hstep
    · next hi =>
      refine (senderStep_carries hstep).trans (iff_of_true ?_ id)
      rintro ⟨fr, rfl, -⟩
      exact hi rfl
  | receiver l i =>
    simp only [FlowSession.step] at hstep
    split at hstep
    · cases hstep
    · next hi =>
      refine (receiverStep_carries hstep).trans (iff_of_true ?_ id)
      rintro ⟨fr, r, rfl, -⟩
      exact hi rfl

end FlowSession

open FlowSession

/-- **Flow frames.** From any state, a step puts only flow frames on the wire that tell the state of the
    session, unless a link answers a flow frame of the peer. So in a run without such answers every flow
    frame tells the state that the session has when it is sent. -/
theorem flows_carry_iff (x₀ x : FlowSession) :
    (∀ i x' wire, x.step i = some (x', wire) →
      ((∀ fr, .flow fr ∈ wire → x'.session.Carries fr ∧ fr.Accepted) ↔ ¬x.Echoes i)) ∧
    ∀ trace, RunIf (Fires FlowSession.step) (fun _ y l => ¬y.Echoes l.1) x₀ trace x →
      ∀ l earlier, l :: earlier <:+ trace → ∃ y,
        RunIf (Fires FlowSession.step) (fun _ y l => ¬y.Echoes l.1) x₀ (l :: earlier) y ∧
        ∀ fr, .flow fr ∈ l.2 → y.session.Carries fr ∧ fr.Accepted := by
  refine ⟨fun i x' wire => step_carries, fun trace hrun l earlier hsuffix => ?_⟩
  induction hrun with
  | start => cases suffix_nil.mp hsuffix
  | step hrun hstep hguard ih =>
    rcases suffix_cons_iff.mp hsuffix with heq | hsuffix
    · cases heq
      exact ⟨_, .step hrun hstep hguard, (step_carries hstep).mpr hguard⟩
    · exact ih hsuffix

namespace FlowSession

/-- A session with the link "a", attached under the remote handle 0. -/
def withLink (role : Role) : List FlowSessionInput :=
  [.session (.newLink ⟨ascii "a", role⟩ none),
    .session (.rx (.attach { PerformAttach.zero with name := ascii "a", role := !role, handle := 0 }))]

/-- The mux of a receiver, up to its `select`; with manual credit it has nothing to send. -/
def withReceiver (autoSendFlow : Bool) : List FlowSessionInput :=
  withLink Role.receiver ++ [.startReceiver 0 0 none autoSendFlow 10, .receiver 0 .check]

/-- A flow of the peer for the link, which asks for an answer. -/
def echoRequest : FlowSessionInput := .session (.rx (.flow { PerformFlow.zero with
  nextIncomingID := some 0
  handle := some 0
  linkCredit := some 5
  echo := true }))

/-- No link takes a frame. -/
def notTaken : FlowSessionInput → Bool
  | .rx _ => false
  | _ => true

theorem not_echoes_of_notTaken {x : FlowSession} {i : FlowSessionInput} (h : notTaken i = true) : ¬x.Echoes i := by
  cases i with
  | rx l => cases h
  | _ => exact id

/-- The only frame of a step is a flow; its next-incoming-id. -/
def flowID : Option (FlowSession × List FrameBody) → Option (Option UInt32)
  | some (_, [.flow fr]) => some fr.nextIncomingID
  | _ => none

theorem flowID_spec {res : Option (FlowSession × List FrameBody)} {id : Option UInt32} (h : flowID res = some id) :
    ∃ x' fr, res = some (x', [.flow fr]) ∧ fr.nextIncomingID = id := by
  unfold flowID at h
  split at h
  · next x' fr => exact ⟨x', fr, rfl, Option.some.inj h⟩
  · cases h

/-- After the inputs the link takes a frame and puts a flow on the wire that does not tell the state of the session,
    and that ends a session that receives it. -/
def Misreports (inputs : List FlowSessionInput) : Prop :=
  ∃ trace x x' fr, exec FlowSession.step [] (.start (.start 10 10 10 .zero)) inputs = some (trace, x) ∧
    Run (Fires FlowSession.step) (.start (.start 10 10 10 .zero)) trace x ∧
    x.step (.rx 0) = some (x', [.flow fr]) ∧ ¬x'.session.Carries fr ∧ ¬fr.Accepted

theorem not_accepted_of_nil {fr : PerformFlow} (h : fr.nextIncomingID = none) : ¬fr.Accepted := by
  intro haccepted
  have hphase := haccepted (.start 0 0 0 .zero)
  simp only [Session.rx, Session.rxFlow, h] at hphase
  cases hphase

theorem misreports_of_exec {inputs : List FlowSessionInput}
    (h : (exec FlowSession.step [] (.start (.start 10 10 10 .zero)) inputs).bind (fun r => flowID (r.2.step (.rx 0))) =
      some none) : Misreports inputs := by
  obtain ⟨⟨trace, x⟩, hexec, hid⟩ := bind_eq_some_iff.mp h
  obtain ⟨x', fr, hstep, hnil⟩ := flowID_spec hid
  refine ⟨trace, x, x', fr, hexec, .of_exec inputs .start hexec, hstep, ?_, not_accepted_of_nil hnil⟩
  intro hcarries
  have hnext := hcarries.nextIncomingID
  rw [hnil] at hnext
  cases hnext

end FlowSession

/-- A receiver hands its flow to the session. -/
theorem flows_carry_iff_credit : ∃ (trace : Trace FlowSessionInput FrameBody) (y : FlowSession) (fr : PerformFlow),
    RunIf (Fires FlowSession.step) (fun _ y l => ¬y.Echoes l.1) (.start (.start 10 10 10 .zero))
      ((.receiver 0 .handOver, [.flow fr]) :: trace) y ∧ y.session.Carries fr ∧ fr.Accepted := by
  have hexec : (execIf FlowSession.step (fun _ _ => notTaken) [] (.start (.start 10 10 10 .zero)) (withReceiver true ++
      [.receiver 0 .issue, .receiver 0 .flowBits, .receiver 0 .muxFlow])).bind
      (fun r => flowID (r.2.step (.receiver 0 .handOver))) = some (some 0) := by
    decide +kernel
  obtain ⟨⟨trace, x⟩, hexec, hid⟩ := bind_eq_some_iff.mp hexec
  obtain ⟨x', fr, hstep, -⟩ := flowID_spec hid
  have hrun : RunIf (Fires FlowSession.step) (fun _ y l => ¬y.Echoes l.1) (.start (.start 10 10 10 .zero)) trace x :=
    .of_execIf (fun _ y i _ => not_echoes_of_notTaken) _ .start hexec
  have hsent := hrun.fire (.receiver 0 .handOver) hstep id
  obtain ⟨y, hy, hflow⟩ := (flows_carry_iff _ _).2 _ hsent _ _ (suffix_refl _)
  exact ⟨trace, y, fr, hy, hflow fr (mem_singleton_self _)⟩

/-- The answers of a sender and of a receiver. -/
theorem echo_misreports :
    Misreports (withLink Role.sender ++ [.startSender 0 none false, echoRequest]) ∧
    Misreports (withReceiver false ++ [.receiver 0 .flowBits, echoRequest]) :=
  ⟨misreports_of_exec (by decide +kernel), misreports_of_exec (by decide +kernel)⟩

end GoAmqp
