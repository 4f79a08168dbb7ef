import GoAmqp.Link.Attach
import GoAmqp.Session.Routing

set_option autoImplicit false

/-! # The channels between a session and its links (`session.go`, `link.go`)

A link is created, waits for the answer to its attach, runs its mux and goes through `muxDetach`. On the
way `deallocateHandle` closes the channel on which the session passes frames on to it, and a frame passed
on after that ends the process. The session knows a link by the handle the peer has given it, from the
peer's attach to the peer's detach.

`LinkedSession` is the session together with the goroutines of its links. Each of them takes one step at
a time: a frame that `mux` passes on is under way until the link's channel has room for it, and the mux
does not go on before that. Of the muxes of links the model has what they do with `rx`: which frames other
than a detach make them return is left open. -/

namespace GoAmqp

open Lib Function

/-! ## Links -/

/-- Where the goroutine of a link stands. -/
inductive EndPhase where
  /-- `attach`, waiting for the response -/
  | attaching
  /-- `attach`, waiting for the detach after a response without source and target -/
  | refused
  /-- `attach`, with the frame that came then, before `deallocateHandle` -/
  | dropping (fr : FrameBody)
  /-- `Sender.mux` or `Receiver.mux` -/
  | running
  /-- the first loop of `muxDetach` -/
  | detaching
  /-- the second loop of `muxDetach` -/
  | awaitingDetach
  /-- the deferred function of `muxDetach` -/
  | cleaning
  /-- the deferred function of `muxDetach`, before `close(l.detached)` -/
  | signalling
  /-- nothing is left that reads `rx` -/
  | exited

/-- A link and the goroutine that reads its channel. -/
structure LinkEnd where
  settings : LinkSettings
  phase : EndPhase
  /-- the frames in `l.rx`, oldest first -/
  rx : List FrameBody
  capacity : Nat
  rxClosed : Bool
  /-- the context of the call can expire -/
  expires : Bool
  ctxDone : Bool
  detachReceived : Bool
  detached : Bool

namespace LinkEnd

/-- No link. -/
def none : LinkEnd where
  settings := ⟨0, .none, .none⟩
  phase := .exited
  rx := []
  capacity := 0
  rxClosed := false
  expires := false
  ctxDone := false
  detachReceived := false
  detached := false

/-- A link that has sent its attach. The channel of a sender has room for one frame, that of a receiver for
    as many as it gives credit. -/
def new (role : Role) (settings : LinkSettings) (maxCredit : UInt32) : LinkEnd := { none with
  settings := settings
  phase := .attaching
  capacity := if role = Role.sender then 1 else maxCredit.toNat
  expires := true }

/-- `l.receiverSettleMode` after `setSettleModes`, which sets it even if it refuses the other mode. -/
def receiverSettleModeAfter (l : LinkSettings) (resp : PerformAttach) : Option ReceiverSettleMode :=
  match LinkSettings.honored "receiver" ReceiverSettleMode.string Receiver.receiverSettleModeValue
      l.receiverSettleMode resp.receiverSettleMode with
  | .ok mode => some mode
  | .error _ => l.receiverSettleMode

/-- `attach` with the response of the peer. -/
def attached (e : LinkEnd) (resp : PerformAttach) : LinkEnd :=
  if resp.refused then { e with phase := .refused }
  else
    match (e.settings.negotiate resp).setSettleModes resp with
    | .ok settings => { e with settings := settings, phase := .running, expires := false, ctxDone := false }
    | .error _ => { e with
        settings := { e.settings.negotiate resp with
          receiverSettleMode := receiverSettleModeAfter e.settings resp }
        phase := .detaching }

/-- What the goroutine does with the next frame of `rx`; `fails` if the handler of a mux returns an error
    for a frame that is not a detach. -/
def handle (e : LinkEnd) (fails : Bool) (body : FrameBody) : Option LinkEnd :=
  match e.phase, body with
  | .attaching, .attach resp => some (e.attached resp)
  | .attaching, _ => some { e with phase := .exited }
  | .refused, body => some { e with phase := .dropping body }
  | .running, .detach fr => some { e with
      detachReceived := e.detachReceived || fr.closed, phase := .detaching }
  | .running, _ => some (if fails then { e with phase := .detaching } else e)
  | .detaching, .detach fr => some { e with detachReceived := e.detachReceived || fr.closed }
  | .detaching, _ => some e
  | .awaitingDetach, .detach fr => some (if fr.closed then { e with phase := .cleaning } else e)
  | .awaitingDetach, _ => some e
  | _, _ => .none

/-- `case <-ctx.Done()`; a call of `attach` leaves a `muxDetach` of its own behind, with five seconds. -/
def onCtxDone (e : LinkEnd) : Option LinkEnd :=
  if e.ctxDone then
    match e.phase with
    | .attaching | .refused => some { e with phase := .detaching, expires := true, ctxDone := false }
    | .detaching | .awaitingDetach => some { e with phase := .cleaning }
    | _ => .none
  else .none

/-- `case <-l.session.done`. -/
def onSessionDone (e : LinkEnd) : Option LinkEnd :=
  match e.phase with
  | .attaching | .refused => some { e with phase := .exited }
  | .running => some { e with phase := .detaching }
  | .detaching | .awaitingDetach => some { e with phase := .cleaning }
  | _ => .none

/-- The detach has been handed to the session. -/
def detachSent (e : LinkEnd) : LinkEnd := { e with phase := if e.detachReceived then .cleaning else .awaitingDetach }

end LinkEnd

/-! ## The session and its links -/

/-- A session with the ends of its links: what each has been sent, and how far it has come. -/
structure LinkedSession where
  session : Session
  /-- `s.conn.done` is closed -/
  connDone : Bool
  /-- what the mux is about to put on channels of links, in this order -/
  pending : List (LinkID × FrameBody)
  ends : LinkID → LinkEnd

/-- A step of the session's mux, of a link, or of the connection. -/
inductive LinkedInput where
  | connDone
  /-- a step of `Session.mux` -/
  | mux (i : MuxInput)
  /-- the frame is put on the channel of the link -/
  | handOver
  /-- the frame is dropped, as the link or the connection is gone -/
  | skip
  | newLink (key : LinkKey) (settings : LinkSettings) (maxCredit : UInt32)
  | read (l : LinkID) (fails : Bool)
  /-- the context of the call expires -/
  | expire (l : LinkID)
  | ctxDone (l : LinkID)
  | sessionDone (l : LinkID)
  /-- the mux of the link returns: `l.close`, or an error in what it sends -/
  | stop (l : LinkID)
  | sendDetach (l : LinkID) (error : Option (AmqpError Value))
  | deallocate (l : LinkID)
  | closeDetached (l : LinkID)

/-- What a step does that others see. -/
inductive LinkedEvent where
  | mux (e : MuxEvent)
  /-- the link has taken the frame from its channel -/
  | taken (l : LinkID) (body : FrameBody)

namespace LinkedSession

def start (incomingWindow outgoingWindow handleMax : UInt32) (remoteBegin : PerformBegin) : LinkedSession where
  session := .start incomingWindow outgoingWindow handleMax remoteBegin
  connDone := false
  pending := []
  ends := fun _ => .none

/-- The end of one link changes. -/
def setEnd (s : LinkedSession) (l : LinkID) (e : LinkEnd) : LinkedSession := { s with ends := update s.ends l e }

/-- A step of one link, if it is at that point. -/
def moveEnd (s : LinkedSession) (l : LinkID) (e : Option LinkEnd) :
    Option (LinkedSession × List LinkedEvent) :=
  e.map fun e => (s.setEnd l e, [])

/-- A step of `Session.mux`. -/
def mux (s : LinkedSession) (i : MuxInput) : Option (LinkedSession × List LinkedEvent) :=
  (s.session.step i).map fun r =>
    ({ s with session := r.1, pending := toLinks r.2 }, r.2.map .mux)

/-- `l.rx <- fr`; the process ends if the channel is closed. -/
def handOver (s : LinkedSession) : Option (LinkedSession × List LinkedEvent) :=
  match s.pending with
  | [] => none
  | (l, body) :: pending =>
    if (s.ends l).rxClosed then
      some ({ s with session := { s.session with phase := .panicked }, pending := pending }, [])
    else if (s.ends l).rx.length < (s.ends l).capacity then
      some ({ s.setEnd l { s.ends l with rx := (s.ends l).rx ++ [body] } with pending := pending }, [])
    else none

/-- `case <-l.detached`, which is not there for a transfer, and `case <-s.conn.done`. -/
def skip (s : LinkedSession) : Option (LinkedSession × List LinkedEvent) :=
  match s.pending with
  | [] => none
  | (l, body) :: pending =>
    let gone : Bool := match body with
      | .transfer _ => s.connDone
      | _ => s.connDone || (s.ends l).detached
    if gone then some ({ s with pending := pending }, []) else none

/-- A new link sends its attach if it gets a handle. -/
def newLink (s : LinkedSession) (key : LinkKey) (settings : LinkSettings) (maxCredit : UInt32) :
    LinkedSession :=
  let session := s.session.newLink key settings.receiverSettleMode
  { s with
    session := session
    ends := if session.live s.session.linkCount then
        update s.ends s.session.linkCount (.new key.role settings maxCredit)
      else s.ends }

/-- The receiver settle mode of a link, which the session reads. -/
def setMode (s : Session) (l : LinkID) (mode : Option ReceiverSettleMode) : Session :=
  { s with link := update s.link l { s.link l with receiverSettleMode := mode } }

/-- A link takes a frame from its channel. -/
def read (s : LinkedSession) (l : LinkID) (fails : Bool) : Option (LinkedSession × List LinkedEvent) :=
  match (s.ends l).rx with
  | [] => none
  | body :: rx =>
    ({ s.ends l with rx := rx }.handle fails body).map fun e =>
      ({ s.setEnd l e with session := setMode s.session l e.settings.receiverSettleMode }, [.taken l body])

/-- The first loop of `muxDetach` sends the detach; the session is in its `select`. -/
def sendDetach (s : LinkedSession) (l : LinkID) (error : Option (AmqpError Value)) :
    Option (LinkedSession × List LinkedEvent) :=
  match (s.ends l).phase with
  | .detaching =>
    (s.setEnd l (s.ends l).detachSent).mux
      (.tx (.detach { handle := (s.session.link l).handle, closed := true, error := error }))
  | _ => none

/-- `deallocateHandle`, which closes `rx`; `muxDetach` does without it if its context is done. -/
def deallocate (s : LinkedSession) (l : LinkID) : Option (LinkedSession × List LinkedEvent) :=
  match (s.ends l).phase with
  | .dropping _ =>
    some ({ s.setEnd l { s.ends l with phase := .exited, rxClosed := true } with
      session := s.session.deallocateHandle l }, [])
  | .cleaning =>
    if (s.ends l).ctxDone then some (s.setEnd l { s.ends l with phase := .signalling }, [])
    else
      some ({ s.setEnd l { s.ends l with phase := .signalling, rxClosed := true } with
        session := s.session.deallocateHandle l }, [])
  | _ => none

/-- One step; `none` where nobody stands at that point. While a frame is under way the mux waits for it. -/
def step (s : LinkedSession) : LinkedInput → Option (LinkedSession × List LinkedEvent)
  | .connDone => some ({ s with connDone := true }, [])
  | .mux .connDone => if s.pending.isEmpty && s.connDone then s.mux .connDone else none
  | .mux i => if s.pending.isEmpty && i.ofMux then s.mux i else none
  | .handOver => s.handOver
  | .skip => s.skip
  | .newLink key settings maxCredit => some (s.newLink key settings maxCredit, [])
  | .read l fails => s.read l fails
  | .expire l => s.moveEnd l (if (s.ends l).expires then some { s.ends l with ctxDone := true } else none)
  | .ctxDone l => s.moveEnd l (s.ends l).onCtxDone
  | .sessionDone l => if s.session.phase.over then s.moveEnd l (s.ends l).onSessionDone else none
  | .stop l =>
    match (s.ends l).phase with
    | .running => some (s.setEnd l { s.ends l with phase := .detaching }, [])
    | _ => none
  | .sendDetach l error => if s.pending.isEmpty then s.sendDetach l error else none
  | .deallocate l => s.deallocate l
  | .closeDetached l =>
    match (s.ends l).phase with
    | .signalling => some (s.setEnd l { s.ends l with phase := .exited, detached := true }, [])
    | _ => none

end LinkedSession

end GoAmqp
