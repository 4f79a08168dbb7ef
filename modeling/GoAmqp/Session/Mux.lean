import GoAmqp.Frames.Types
import GoAmqp.Bitmap
import Mathlib.Logic.Function.Basic

set_option autoImplicit false

/-! # `Session.mux` (`session.go`)

The session's state, which is the `Session` object together with the local variables of its `mux`, and
one function for each case of the mux's `select`. A map is a function to `Option`.

The mux is one goroutine, so a case runs to its end before the next one is chosen. The exception is
the loop over the delivery-ids of a disposition: its counter is 32 bits wide and can pass the end of
the range without the loop noticing, so the loop is cut into rounds, each a step of its own.

Link objects are shared with the goroutines of the links. They are named by numbers in the order in
which they are made. A frame put on `link.rx`, a frame handed to the connection and the completion of
a `Done` channel are events of a step; what the link and the connection do with them is not the
session's. -/

namespace GoAmqp

open Lib Function

/-! ## State -/

/-- A link of the session, by the order in which the links were made. -/
abbrev LinkID := Nat

/-- What a link is found by before the peer has given it a handle. -/
structure LinkKey where
  name : Bytes
  /-- the local role -/
  role : Role
deriving DecidableEq

/-- The fields of `link` that the session reads or writes. -/
structure Link where
  key : LinkKey
  handle : UInt32
  remoteHandle : UInt32
  receiverSettleMode : Option ReceiverSettleMode

/-- `s.err` when the mux returns. -/
inductive SessionError where
  | connDone
  | protocol (text : String)
  | mismatchedAttach (body : PerformAttach)
  | remote (error : AmqpError Value)

/-- Where the mux stands. -/
inductive MuxPhase where
  | select
  /-- in the loop over the delivery-ids of a disposition, before the test of the loop -/
  | disposition (body : PerformDisposition) (deliveryID : UInt32)
  /-- in `EndLoop` -/
  | closing
  | returned (err : Option SessionError)
  | panicked

/-- The state of `Session.mux`: the windows and id counters of both sides, the tables of links and deliveries, and
    where the mux stands. -/
structure Session where
  incomingWindow : UInt32
  outgoingWindow : UInt32
  needFlowCount : UInt32
  handleMax : UInt32
  handles : Bitmap
  linksByKey : LinkKey → Option LinkID
  /-- the link objects made so far -/
  linkCount : Nat
  link : LinkID → Link
  phase : MuxPhase
  /-- from remote handles -/
  links : UInt32 → Option LinkID
  handlesByDeliveryID : UInt32 → Option UInt32
  deliveryIDByHandle : UInt32 → Option UInt32
  handlesByRemoteDeliveryID : UInt32 → Option UInt32
  settlementByDeliveryID : UInt32 → Option Nat
  nextOutgoingID : UInt32
  nextIncomingID : UInt32
  remoteIncomingWindow : UInt32
  remoteOutgoingWindow : UInt32

/-- What a step of the mux does outside the session. -/
inductive MuxEvent where
  /-- `link.rx <- body` -/
  | toLink (l : LinkID) (body : FrameBody)
  /-- `s.txFrame(body, done)` -/
  | txFrame (body : FrameBody) (done : Option Nat)
  /-- the state is offered to the `Done` channel, which is then closed -/
  | settle (done : Nat) (state : Option (DeliveryState Value))

/-- `end := start; if body.Last != nil { end = *body.Last }`. -/
def PerformDisposition.end_ (body : PerformDisposition) : UInt32 := body.last.getD body.first

namespace Session

/-- The mux's state when it starts: the begin of the peer gives the windows. -/
def start (incomingWindow outgoingWindow handleMax : UInt32) (remoteBegin : PerformBegin) : Session where
  incomingWindow := incomingWindow
  outgoingWindow := outgoingWindow
  needFlowCount := 0
  handleMax := handleMax
  handles := Bitmap.new handleMax
  linksByKey := fun _ => none
  linkCount := 0
  link := fun _ => ⟨⟨[], Role.sender⟩, 0, 0, none⟩
  phase := .select
  links := fun _ => none
  handlesByDeliveryID := fun _ => none
  deliveryIDByHandle := fun _ => none
  handlesByRemoteDeliveryID := fun _ => none
  settlementByDeliveryID := fun _ => none
  nextOutgoingID := 0
  nextIncomingID := remoteBegin.nextOutgoingID
  remoteIncomingWindow := remoteBegin.incomingWindow
  remoteOutgoingWindow := remoteBegin.outgoingWindow

/-! ## Links -/

/-- The link registered under its key. -/
def live (s : Session) (l : LinkID) : Prop := s.linksByKey (s.link l).key = some l

instance (s : Session) (l : LinkID) : Decidable (s.live l) := inferInstanceAs (Decidable (_ = _))

/-- The lowest free handle, up to the handle-max; a name in use is refused. -/
def allocateHandle (s : Session) (l : LinkID) : Except Bytes Session :=
  match s.linksByKey (s.link l).key with
  | some _ => .error (ascii "link with name '" ++ (s.link l).key.name ++ ascii "' already exists")
  | none =>
    match s.handles.next with
    | (_, false, _) =>
      .error (ascii (s!"reached session handle max ({(s.handleMax + 1).toNat})"))
    | (next, true, handles) => .ok { s with
        handles := handles
        link := update s.link l { s.link l with handle := next }
        linksByKey := update s.linksByKey (s.link l).key (some l) }

/-- The key and the handle of the link are free again. -/
def deallocateHandle (s : Session) (l : LinkID) : Session := { s with
  linksByKey := update s.linksByKey (s.link l).key none
  handles := s.handles.remove (s.link l).handle }

/-- A new link object. -/
def makeLink (s : Session) (key : LinkKey) (mode : Option ReceiverSettleMode) : Session := { s with
  linkCount := s.linkCount + 1
  link := update s.link s.linkCount ⟨key, 0, 0, mode⟩ }

/-- A new link object asks for a handle before it attaches. -/
def newLink (s : Session) (key : LinkKey) (mode : Option ReceiverSettleMode) : Session :=
  match (s.makeLink key mode).allocateHandle s.linkCount with
  | .ok s' => s'
  | .error _ => s.makeLink key mode

/-- The frame goes to the link attached under the remote handle, if there is one. -/
def forward (s : Session) (handle : UInt32) (body : FrameBody) : List MuxEvent :=
  match s.links handle with
  | some l => [.toLink l body]
  | none => []

/-! ## Dispositions -/

/-- `handles := handlesByDeliveryID`, or the other map when the peer is the sender. -/
def handlesFor (s : Session) (role : Role) : UInt32 → Option UInt32 :=
  if role = Role.sender then s.handlesByRemoteDeliveryID else s.handlesByDeliveryID

/-- `delete(handles, deliveryID)`. -/
def deleteHandle (s : Session) (role : Role) (deliveryID : UInt32) : Session :=
  if role = Role.sender then
    { s with handlesByRemoteDeliveryID := update s.handlesByRemoteDeliveryID deliveryID none }
  else { s with handlesByDeliveryID := update s.handlesByDeliveryID deliveryID none }

/-- `if body.Settled && body.Role == encoding.RoleReceiver { ... }`. -/
def confirm (s : Session) (body : PerformDisposition) (deliveryID : UInt32) : Session × List MuxEvent :=
  if body.settled = true ∧ body.role = Role.receiver then
    match s.settlementByDeliveryID deliveryID with
    | some done => ({ s with
        settlementByDeliveryID := update s.settlementByDeliveryID deliveryID none },
        [.settle done body.state])
    | none => (s, [])
  else (s, [])

/-- The body of the loop. -/
def dispositionBody (s : Session) (body : PerformDisposition) (deliveryID : UInt32) :
    Session × List MuxEvent :=
  match s.handlesFor body.role deliveryID with
  | none => (s, [])
  | some handle =>
    let confirmed := (s.deleteHandle body.role deliveryID).confirm body deliveryID
    (confirmed.1, confirmed.2 ++ s.forward handle (.disposition body))

/-- `for deliveryID := start; deliveryID <= end; deliveryID++`: the test and, if it holds, one round. -/
def dispositionRound (s : Session) (body : PerformDisposition) (deliveryID : UInt32) :
    Session × List MuxEvent :=
  if deliveryID ≤ body.end_ then
    let round := s.dispositionBody body deliveryID
    ({ round.1 with phase := .disposition body (deliveryID + 1) }, round.2)
  else ({ s with phase := .select }, [])

/-! ## Flows -/

/-- The session's part of a flow frame. -/
def fillFlow (s : Session) (fr : PerformFlow) : PerformFlow := { fr with
  nextIncomingID := some s.nextIncomingID
  incomingWindow := s.incomingWindow
  nextOutgoingID := s.nextOutgoingID
  outgoingWindow := s.outgoingWindow }

/-- The session's view of the peer after a flow frame. -/
def updateRemote (s : Session) (body : PerformFlow) (nextIncomingID : UInt32) : Session := { s with
  nextIncomingID := body.nextOutgoingID
  remoteOutgoingWindow := body.outgoingWindow
  remoteIncomingWindow := body.incomingWindow - s.nextOutgoingID + nextIncomingID }

/-- `case *frames.PerformFlow`: the windows of the peer, then its link gets the frame, or an echo is answered. -/
def rxFlow (s : Session) (body : PerformFlow) : Session × List MuxEvent :=
  match body.nextIncomingID with
  | none =>
    ({ s with phase := .returned (some (.protocol
        "protocol error: received flow without next-incoming-id after session established")) },
      [.txFrame (.end_ ⟨some {
        condition := ascii "amqp:not-allowed"
        description := ascii "next-incoming-id not set after session established"
        info := [] }⟩) none])
  | some nextIncomingID =>
    match body.handle with
    | some handle => (s.updateRemote body nextIncomingID, s.forward handle (.flow body))
    | none => (s.updateRemote body nextIncomingID,
        if body.echo then [.txFrame (.flow ((s.updateRemote body nextIncomingID).fillFlow .zero)) none]
        else [])

/-! ## The other frames of the peer -/

/-- `case *frames.PerformAttach`: the handle of the peer is entered for the link of that name. -/
def rxAttach (s : Session) (body : PerformAttach) : Session × List MuxEvent :=
  match s.linksByKey ⟨body.name, !body.role⟩ with
  | none => ({ s with phase := .returned (some (.mismatchedAttach body)) }, [])
  | some l => ({ s with
      link := update s.link l { s.link l with remoteHandle := body.handle }
      links := update s.links body.handle (some l) }, [.toLink l (.attach body)])

/-- The counters of a received transfer. -/
def countTransfer (s : Session) : Session := { s with
  needFlowCount := s.needFlowCount + 1
  nextIncomingID := s.nextIncomingID + 1
  remoteOutgoingWindow :=
    if s.remoteOutgoingWindow > 0 then s.remoteOutgoingWindow - 1 else s.remoteOutgoingWindow }

/-- `handlesByRemoteDeliveryID[*body.DeliveryID] = body.Handle`, for a delivery whose settlement the
    link will confirm. -/
def trackRemote (s : Session) (l : LinkID) (body : PerformTransfer) : Session :=
  match body.deliveryID with
  | some deliveryID =>
    if body.settled = false ∧ (s.link l).receiverSettleMode = some ReceiverSettleMode.second then
      { s with handlesByRemoteDeliveryID := update s.handlesByRemoteDeliveryID deliveryID (some body.handle) }
    else s
  | none => s

/-- Update the peer's outgoing window if half has been consumed. -/
def updateWindow (s : Session) : Session × List MuxEvent :=
  if s.needFlowCount ≥ s.incomingWindow / 2 then
    ({ s with needFlowCount := 0 }, [.txFrame (.flow (s.fillFlow .zero)) none])
  else (s, [])

/-- `case *frames.PerformTransfer`: it is counted, goes to its link, and the window may be renewed. -/
def rxTransfer (s : Session) (body : PerformTransfer) : Session × List MuxEvent :=
  match s.links body.handle with
  | none => (s.countTransfer, [])
  | some l =>
    let updated := (s.countTransfer.trackRemote l body).updateWindow
    (updated.1, .toLink l (.transfer body) :: updated.2)

/-- `case *frames.PerformDetach`: the link of the handle gets the frame and loses the handle. -/
def rxDetach (s : Session) (body : PerformDetach) : Session × List MuxEvent :=
  match s.links body.handle with
  | none => (s, [])
  | some l => ({ s with
      links := update s.links (s.link l).remoteHandle none
      deliveryIDByHandle := update s.deliveryIDByHandle (s.link l).handle none },
      [.toLink l (.detach body)])

/-- `case fr := <-s.rx`, up to the loop over the delivery-ids of a disposition. -/
def rx (s : Session) : FrameBody → Session × List MuxEvent
  | .disposition body => ({ s with phase := .disposition body body.first }, [])
  | .flow body => s.rxFlow body
  | .attach body => s.rxAttach body
  | .transfer body => s.rxTransfer body
  | .detach body => s.rxDetach body
  | .end_ body =>
    ({ s with phase := .returned (body.error.map .remote) }, [.txFrame (.end_ ⟨none⟩) none])
  | _ => (s, [])

/-! ## Frames of the links -/

/-- Whether `txTransfer` is left in the `select`. -/
def txEnabled (s : Session) : Bool := s.remoteIncomingWindow != 0 && s.outgoingWindow != 0

/-- The delivery a transfer belongs to; a map gives zero for a missing key. -/
def deliveryIDOf (s : Session) (fr : PerformTransfer) : UInt32 :=
  fr.deliveryID.getD ((s.deliveryIDByHandle fr.handle).getD 0)

/-- `if fr.DeliveryID != nil { ... }`. -/
def recordDeliveryID (s : Session) (fr : PerformTransfer) : Session :=
  match fr.deliveryID with
  | some deliveryID => { s with
      deliveryIDByHandle := update s.deliveryIDByHandle fr.handle (some deliveryID)
      handlesByDeliveryID :=
        if fr.settled then s.handlesByDeliveryID
        else update s.handlesByDeliveryID deliveryID (some fr.handle) }
  | none => s

/-- `if fr.Settled { delete(handlesByDeliveryID, deliveryID) }`. -/
def forgetSettled (s : Session) (fr : PerformTransfer) (deliveryID : UInt32) : Session :=
  if fr.settled then
    { s with handlesByDeliveryID := update s.handlesByDeliveryID deliveryID none }
  else s

/-- `if !fr.Settled && fr.Done != nil { ... }`. -/
def awaitSettlement (s : Session) (fr : PerformTransfer) (deliveryID : UInt32) :
    Session × PerformTransfer :=
  if fr.settled then (s, fr)
  else
    match fr.done with
    | some done => ({ s with
        settlementByDeliveryID := update s.settlementByDeliveryID deliveryID (some done) },
        { fr with done := none })
    | none => (s, fr)

/-- `case fr := <-txTransfer`. -/
def txTransfer (s : Session) (fr : PerformTransfer) : Session × List MuxEvent :=
  let deliveryID := s.deliveryIDOf fr
  let recorded := ((s.recordDeliveryID fr).forgetSettled fr deliveryID).awaitSettlement fr deliveryID
  ({ recorded.1 with
      nextOutgoingID := s.nextOutgoingID + 1
      remoteIncomingWindow :=
        if s.remoteIncomingWindow ≠ 0 then s.remoteIncomingWindow - 1 else s.remoteIncomingWindow },
    [.txFrame (.transfer recorded.2) recorded.2.done])

/-- `case fr := <-s.tx`. -/
def tx (s : Session) : FrameBody → Session × List MuxEvent
  | .flow fr => (s, [.txFrame (.flow (s.fillFlow fr)) none])
  | .transfer _ => ({ s with phase := .panicked }, [])
  | body => (s, [.txFrame body none])

end Session

/-! ## Steps -/

/-- What a step of the session is about: a case of the mux's `select`, a round of the loop over the
    delivery-ids of a disposition, or an access of a link to the shared tables. A transfer is labelled
    with the link it comes from, which the mux does not see. -/
inductive MuxInput where
  | connDone
  | close
  | rx (body : FrameBody)
  | round
  | txTransfer (l : LinkID) (fr : PerformTransfer)
  | tx (body : FrameBody)
  | newLink (key : LinkKey) (mode : Option ReceiverSettleMode)
  | setReceiverSettleMode (l : LinkID) (mode : ReceiverSettleMode)
  | deallocateHandle (l : LinkID)

namespace Session

/-- `case fr := <-s.rx` of `EndLoop`. -/
def rxClosing (s : Session) : FrameBody → Session × List MuxEvent
  | .end_ _ => ({ s with phase := .returned none }, [])
  | _ => (s, [])

/-- One step; `none` where the mux does not stand at that case. A link gives its handle back once. -/
def step (s : Session) : MuxInput → Option (Session × List MuxEvent)
  | .connDone =>
    match s.phase with
    | .select | .closing => some ({ s with phase := .returned (some .connDone) }, [])
    | _ => none
  | .close =>
    match s.phase with
    | .select => some ({ s with phase := .closing }, [.txFrame (.end_ ⟨none⟩) none])
    | _ => none
  | .rx body =>
    match s.phase with
    | .select => some (s.rx body)
    | .closing => some (s.rxClosing body)
    | _ => none
  | .round =>
    match s.phase with
    | .disposition body deliveryID => some (s.dispositionRound body deliveryID)
    | _ => none
  | .txTransfer _ fr =>
    match s.phase with
    | .select => if s.txEnabled then some (s.txTransfer fr) else none
    | _ => none
  | .tx body =>
    match s.phase with
    | .select => some (s.tx body)
    | _ => none
  | .newLink key mode => some (s.newLink key mode, [])
  | .setReceiverSettleMode l mode => some ({ s with
      link := update s.link l { s.link l with receiverSettleMode := some mode } }, [])
  | .deallocateHandle l => if s.live l then some (s.deallocateHandle l, []) else none

/-- What a step is, by its input. -/
inductive StepOf (s : Session) : MuxInput → List MuxEvent → Session → Prop
  | connDone : StepOf s .connDone [] { s with phase := .returned (some .connDone) }
  | close : s.phase = .select →
      StepOf s .close [.txFrame (.end_ ⟨none⟩) none] { s with phase := .closing }
  | rx (body : FrameBody) : s.phase = .select → StepOf s (.rx body) (s.rx body).2 (s.rx body).1
  | rxClosing (body : FrameBody) : s.phase = .closing →
      StepOf s (.rx body) (s.rxClosing body).2 (s.rxClosing body).1
  | round (body : PerformDisposition) (deliveryID : UInt32) : s.phase = .disposition body deliveryID →
      StepOf s .round (s.dispositionRound body deliveryID).2 (s.dispositionRound body deliveryID).1
  | txTransfer (l : LinkID) (fr : PerformTransfer) : s.phase = .select → s.txEnabled = true →
      StepOf s (.txTransfer l fr) (s.txTransfer fr).2 (s.txTransfer fr).1
  | tx (body : FrameBody) : s.phase = .select → StepOf s (.tx body) (s.tx body).2 (s.tx body).1
  | newLink (key : LinkKey) (mode : Option ReceiverSettleMode) :
      StepOf s (.newLink key mode) [] (s.newLink key mode)
  | setReceiverSettleMode (l : LinkID) (mode : ReceiverSettleMode) :
      StepOf s (.setReceiverSettleMode l mode) [] { s with
        link := update s.link l { s.link l with receiverSettleMode := some mode } }
  | deallocateHandle (l : LinkID) : s.live l → StepOf s (.deallocateHandle l) [] (s.deallocateHandle l)

/-- **Step inversion.** -/
theorem step_cases {s s' : Session} {i : MuxInput} {events : List MuxEvent}
    (h : s.step i = some (s', events)) : StepOf s i events s' := by
  cases i with
  | connDone =>
    cases hp : s.phase <;>
      simp only [step, hp, Option.some.injEq, Prod.mk.injEq, reduceCtorEq] at h
    all_goals obtain ⟨rfl, rfl⟩ := h; exact .connDone
  | close =>
    cases hp : s.phase <;>
      simp only [step, hp, Option.some.injEq, Prod.mk.injEq, reduceCtorEq] at h
    obtain ⟨rfl, rfl⟩ := h
    exact .close hp
  | rx body =>
    cases hp : s.phase <;> simp only [step, hp, Option.some.injEq, reduceCtorEq] at h
    · have hstep := StepOf.rx body hp
      rwa [h] at hstep
    · have hstep := StepOf.rxClosing body hp
      rwa [h] at hstep
  | round =>
    cases hp : s.phase <;> simp only [step, hp, Option.some.injEq, reduceCtorEq] at h
    next body deliveryID =>
      have hstep := StepOf.round body deliveryID hp
      rwa [h] at hstep
  | txTransfer l fr =>
    cases hp : s.phase <;> simp only [step, hp, reduceCtorEq] at h
    split at h
    · next hen =>
      have hstep := StepOf.txTransfer l fr hp hen
      rwa [Option.some.inj h] at hstep
    · cases h
  | tx body =>
    cases hp : s.phase <;> simp only [step, hp, Option.some.injEq, reduceCtorEq] at h
    have hstep := StepOf.tx body hp
    rwa [h] at hstep
  | newLink key mode =>
    simp only [step, Option.some.injEq, Prod.mk.injEq] at h
    obtain ⟨rfl, rfl⟩ := h
    exact .newLink key mode
  | setReceiverSettleMode l mode =>
    simp only [step, Option.some.injEq, Prod.mk.injEq] at h
    obtain ⟨rfl, rfl⟩ := h
    exact .setReceiverSettleMode l mode
  | deallocateHandle l =>
    simp only [step] at h
    split at h
    · next hlive =>
      cases h
      exact .deallocateHandle l hlive
    · cases h

/-! ## What each case leaves alone -/

section Frame

variable (s : Session)

theorem deleteHandle_eq (role : Role) (deliveryID : UInt32) : s.deleteHandle role deliveryID = { s with
    handlesByDeliveryID := (s.deleteHandle role deliveryID).handlesByDeliveryID
    handlesByRemoteDeliveryID := (s.deleteHandle role deliveryID).handlesByRemoteDeliveryID } := by
  unfold deleteHandle
  split <;> rfl

theorem confirm_eq (body : PerformDisposition) (deliveryID : UInt32) : (s.confirm body deliveryID).1 = { s with
    settlementByDeliveryID := (s.confirm body deliveryID).1.settlementByDeliveryID } := by
  unfold confirm
  split
  · split <;> rfl
  · rfl

theorem dispositionBody_eq (body : PerformDisposition) (deliveryID : UInt32) :
    (s.dispositionBody body deliveryID).1 = { s with
      handlesByDeliveryID := (s.dispositionBody body deliveryID).1.handlesByDeliveryID
      handlesByRemoteDeliveryID := (s.dispositionBody body deliveryID).1.handlesByRemoteDeliveryID
      settlementByDeliveryID := (s.dispositionBody body deliveryID).1.settlementByDeliveryID } := by
  unfold dispositionBody
  split
  · rfl
  · dsimp only
    rw [confirm_eq, deleteHandle_eq]

theorem dispositionRound_eq (body : PerformDisposition) (deliveryID : UInt32) :
    (s.dispositionRound body deliveryID).1 = { s with
      phase := (s.dispositionRound body deliveryID).1.phase
      handlesByDeliveryID := (s.dispositionRound body deliveryID).1.handlesByDeliveryID
      handlesByRemoteDeliveryID := (s.dispositionRound body deliveryID).1.handlesByRemoteDeliveryID
      settlementByDeliveryID := (s.dispositionRound body deliveryID).1.settlementByDeliveryID } := by
  unfold dispositionRound
  split
  · dsimp only
    rw [dispositionBody_eq]
  · rfl

theorem rxFlow_eq (body : PerformFlow) : (s.rxFlow body).1 = { s with
    phase := (s.rxFlow body).1.phase
    nextIncomingID := (s.rxFlow body).1.nextIncomingID
    remoteIncomingWindow := (s.rxFlow body).1.remoteIncomingWindow
    remoteOutgoingWindow := (s.rxFlow body).1.remoteOutgoingWindow } := by
  unfold rxFlow
  split
  · rfl
  · split <;> rfl

theorem rxAttach_eq (body : PerformAttach) : (s.rxAttach body).1 = { s with
    phase := (s.rxAttach body).1.phase
    link := (s.rxAttach body).1.link
    links := (s.rxAttach body).1.links } := by
  unfold rxAttach
  split <;> rfl

theorem trackRemote_eq (l : LinkID) (body : PerformTransfer) : s.trackRemote l body = { s with
    handlesByRemoteDeliveryID := (s.trackRemote l body).handlesByRemoteDeliveryID } := by
  unfold trackRemote
  split
  · split <;> rfl
  · rfl

theorem updateWindow_eq : s.updateWindow.1 = { s with needFlowCount := s.updateWindow.1.needFlowCount } := by
  unfold updateWindow
  split <;> rfl

theorem rxTransfer_eq (body : PerformTransfer) : (s.rxTransfer body).1 = { s with
    needFlowCount := (s.rxTransfer body).1.needFlowCount
    nextIncomingID := (s.rxTransfer body).1.nextIncomingID
    remoteOutgoingWindow := (s.rxTransfer body).1.remoteOutgoingWindow
    handlesByRemoteDeliveryID := (s.rxTransfer body).1.handlesByRemoteDeliveryID } := by
  unfold rxTransfer
  split
  · rfl
  · dsimp only
    rw [updateWindow_eq, trackRemote_eq]
    rfl

theorem rxDetach_eq (body : PerformDetach) : (s.rxDetach body).1 = { s with
    links := (s.rxDetach body).1.links
    deliveryIDByHandle := (s.rxDetach body).1.deliveryIDByHandle } := by
  unfold rxDetach
  split <;> rfl

theorem rxClosing_eq (body : FrameBody) : (s.rxClosing body).1 = { s with
    phase := (s.rxClosing body).1.phase } := by
  unfold rxClosing
  split <;> rfl

theorem tx_eq (body : FrameBody) : (s.tx body).1 = { s with phase := (s.tx body).1.phase } := by
  unfold tx
  split <;> rfl

theorem txTransfer_eq (fr : PerformTransfer) : (s.txTransfer fr).1 = { s with
    deliveryIDByHandle := (s.txTransfer fr).1.deliveryIDByHandle
    handlesByDeliveryID := (s.txTransfer fr).1.handlesByDeliveryID
    settlementByDeliveryID := (s.txTransfer fr).1.settlementByDeliveryID
    nextOutgoingID := (s.txTransfer fr).1.nextOutgoingID
    remoteIncomingWindow := (s.txTransfer fr).1.remoteIncomingWindow } := by
  unfold txTransfer recordDeliveryID forgetSettled awaitSettlement
  dsimp only
  split_ifs <;> split <;> try split
  all_goals rfl

theorem newLink_eq (key : LinkKey) (mode : Option ReceiverSettleMode) : s.newLink key mode = { s with
    handles := (s.newLink key mode).handles
    linksByKey := (s.newLink key mode).linksByKey
    linkCount := (s.newLink key mode).linkCount
    link := (s.newLink key mode).link } := by
  unfold newLink allocateHandle
  split
  · next s' h =>
    split at h
    · cases h
    · split at h
      · cases h
      · cases h; rfl
  · rfl

end Frame

end Session

end GoAmqp
