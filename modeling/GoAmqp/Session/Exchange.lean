import GoAmqp.Session.Window
import GoAmqp.Link.SenderMux
import Mathlib.Logic.Relation

set_option autoImplicit false

/-! # Senders, their session and a peer

The session's mux, the muxes of its sender links and a peer, joined by first-in first-out queues. A
transfer that a sender holds passes to the session in one step of both, as on an unbuffered channel;
frames for a link wait in its `rx`, and frames to and from the peer in the network.

The peer keeps counts without bound and puts 32 bits of them in its frames. It may raise its window and
the limits of its links, and may announce them at any time, but never lowers them. -/

namespace GoAmqp

open Lib Function

/-- What a peer knows for flow control. -/
structure Peer where
  /-- the transfers received, which is its next-incoming-id -/
  received : Nat
  /-- its incoming-window -/
  window : Nat
  /-- the deliveries started on each link, by the handle its transfers carry -/
  started : UInt32 → Nat
  /-- the delivery-count plus the link-credit of each link -/
  limit : UInt32 → Nat

/-- The peer counts a transfer. -/
def Peer.receive (p : Peer) : FrameBody → Peer
  | .transfer tr => { p with
      received := p.received + 1
      window := p.window - 1
      started := if tr.deliveryID.isSome then
          update p.started tr.handle (p.started tr.handle + 1)
        else p.started }
  | _ => p

/-- A session with its senders and its peer, and the frames on their way. -/
structure Exchange where
  session : Session
  sender : LinkID → SenderMux
  /-- frames the session has put on `link.rx` -/
  rx : LinkID → List FrameBody
  /-- whether the last transfer a link has handed over has more to follow -/
  unfinished : LinkID → Bool
  toPeer : List FrameBody
  fromPeer : List FrameBody
  peer : Peer

namespace Exchange

/-- The link has a remote handle. -/
def Attached (x : Exchange) (l : LinkID) : Prop := ∃ handle, x.session.links handle = some l

/-- The handle the transfers of a link carry. -/
def handle (x : Exchange) (l : LinkID) : UInt32 := (x.session.link l).handle

/-- What an event of the session does to the queues. -/
def emit (x : Exchange) : MuxEvent → Exchange
  | .toLink l body => { x with rx := update x.rx l (x.rx l ++ [body]) }
  | .txFrame body _ => { x with toPeer := x.toPeer ++ [body] }
  | .settle _ _ => x

/-- The events of a step, one after the other. -/
def emitAll (x : Exchange) (events : List MuxEvent) : Exchange := events.foldl emit x

/-- The frames a sender hands to the connection itself. -/
def framesOf : List SenderEvent → List FrameBody
  | [] => []
  | .txFrame body :: events => body :: framesOf events
  | .txTransfer _ :: events => framesOf events

/-- Dispositions and transfers of the peer announce no limit. -/
def noLimit : FrameBody → Bool
  | .disposition _ => true
  | .transfer _ => true
  | _ => false

/-- Steps of the session that do not take a frame of the peer or a transfer, and leave the links as
    they are. -/
def ownStep : MuxInput → Bool
  | .round => true
  | .tx _ => true
  | .connDone => true
  | .close => true
  | .setReceiverSettleMode _ _ => true
  | _ => false

/-- The steps of the session, of its senders, and of a peer that keeps to the protocol. -/
inductive Step (x : Exchange) : Exchange → Prop
  /-- the peer raises its window and says so -/
  | peerFlow (fr : PerformFlow) : fr.nextIncomingID = some (UInt32.ofNat x.peer.received) →
      x.peer.window ≤ fr.incomingWindow.toNat → fr.handle = none →
      Step x { x with
        fromPeer := x.fromPeer ++ [.flow fr]
        peer := { x.peer with window := fr.incomingWindow.toNat } }
  /-- the peer raises its window and the limit of a link and says so -/
  | peerLinkFlow (fr : PerformFlow) (l : LinkID) (remoteHandle : UInt32) (count : Nat) (credit : UInt32) :
      fr.nextIncomingID = some (UInt32.ofNat x.peer.received) →
      x.peer.window ≤ fr.incomingWindow.toNat →
      fr.handle = some remoteHandle → x.session.links remoteHandle = some l →
      fr.deliveryCount = some (UInt32.ofNat count) → fr.linkCredit = some credit →
      x.peer.limit (x.handle l) ≤ count + credit.toNat →
      Step x { x with
        fromPeer := x.fromPeer ++ [.flow fr]
        peer := { x.peer with
          window := fr.incomingWindow.toNat
          limit := update x.peer.limit (x.handle l) (count + credit.toNat) } }
  | peerSend (body : FrameBody) : noLimit body = true →
      Step x { x with fromPeer := x.fromPeer ++ [body] }
  | peerReceive (body : FrameBody) (rest : List FrameBody) : x.toPeer = body :: rest →
      Step x { x with toPeer := rest, peer := x.peer.receive body }
  | sessionRx (body : FrameBody) (rest : List FrameBody) (s : Session) (events : List MuxEvent) :
      x.fromPeer = body :: rest → x.session.step (.rx body) = some (s, events) →
      Step x (emitAll { x with session := s, fromPeer := rest } events)
  | sessionOwn (i : MuxInput) (s : Session) (events : List MuxEvent) : ownStep i = true →
      x.session.step i = some (s, events) → Step x (emitAll { x with session := s } events)
  /-- `Sender.send` offers the next transfer of a message, or the first of the next one -/
  | senderTake (l : LinkID) (tr : PerformTransfer) (m : SenderMux) (events : List SenderEvent) :
      x.Attached l → tr.handle = x.handle l → tr.deliveryID.isSome = !x.unfinished l →
      (x.sender l).step (.transfer tr) = some (m, events) →
      Step x { x with sender := update x.sender l m }
  | handOver (l : LinkID) (tr : PerformTransfer) (m : SenderMux) (s : Session) (events : List MuxEvent) :
      x.Attached l → (x.sender l).step .handOver = some (m, [.txTransfer tr]) →
      x.session.step (.txTransfer l tr) = some (s, events) →
      Step x (emitAll { x with
        session := s
        sender := update x.sender l m
        unfinished := update x.unfinished l tr.more } events)
  | senderRx (l : LinkID) (body : FrameBody) (rest : List FrameBody) (m : SenderMux)
      (events : List SenderEvent) :
      x.rx l = body :: rest → (x.sender l).step (.rx body) = some (m, events) →
      Step x { x with
        rx := update x.rx l rest
        sender := update x.sender l m
        toPeer := x.toPeer ++ framesOf events }
  | senderStop (l : LinkID) (i : SenderInput) (m : SenderMux) (events : List SenderEvent) :
      i = .close ∨ i = .sessionDone → (x.sender l).step i = some (m, events) →
      Step x { x with sender := update x.sender l m }

/-- The links are attached and nothing has been sent: the window is that of the peer's begin, and no
    link has credit. -/
structure Initial (x : Exchange) : Prop where
  distinct : ∀ l l', x.Attached l → x.Attached l' → x.handle l = x.handle l' → l = l'
  nextOutgoingID : x.session.nextOutgoingID = 0
  received : x.peer.received = 0
  window : x.peer.window = x.session.remoteIncomingWindow.toNat
  sender : ∀ l, x.Attached l → ∃ mode detach, x.sender l = SenderMux.start (x.handle l) mode detach
  rx : ∀ l, x.rx l = []
  unfinished : ∀ l, x.unfinished l = false
  toPeer : x.toPeer = []
  fromPeer : x.fromPeer = []
  started : ∀ h, x.peer.started h = 0
  limit : ∀ h, x.peer.limit h = 0

end Exchange

end GoAmqp
