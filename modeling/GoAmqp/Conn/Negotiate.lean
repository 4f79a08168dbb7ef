import GoAmqp.Conn.ReadFrame
import GoAmqp.Conn.WriteFrame
import GoAmqp.Conn.Sessions

set_option autoImplicit false

/-! # Establishing a connection (`Conn.start`, `sasl.go`)

`start` runs a state machine whose states are functions: `negotiateProto`, the exchange of protocol headers,
TLS, the SASL handlers and the exchange of open frames. The state functions read from the network, so that
each is cut at its reads and writes here; frames are read with the steps of `FrameReader`, on the buffer that
also holds what has been read too much of a protocol header. A state function that is a method value holds a
copy of the handler, which is the argument of the phase. -/

namespace GoAmqp

open Lib Buffer

/-! ## SASL handlers -/

/-- An entry of `c.saslHandlers`. -/
inductive SASLHandler where
  | plain (username password : Bytes)
  | anonymous
  | external (resp : Bytes)
  | xoauth2 (response : Bytes) (maxFrameSizeOverride : UInt32)

namespace SASLHandler

/-- The key of the entry. -/
def mechanism : SASLHandler → Bytes
  | .plain .. => ascii "PLAIN"
  | .anonymous => ascii "ANONYMOUS"
  | .external _ => ascii "EXTERNAL"
  | .xoauth2 .. => ascii "XOAUTH2"

/-- The sasl-init of the handler. -/
def init : SASLHandler → SASLInit
  | .plain username password => ⟨ascii "PLAIN", 0 :: username ++ 0 :: password, []⟩
  | .anonymous => ⟨ascii "ANONYMOUS", ascii "anonymous", []⟩
  | .external resp => ⟨ascii "EXTERNAL", resp, []⟩
  | .xoauth2 response _ => ⟨ascii "XOAUTH2", response, []⟩

/-- The limit for the sasl-init. -/
def maxFrameSize (peerMaxFrameSize : UInt32) : SASLHandler → UInt32
  | .xoauth2 _ override => if override > peerMaxFrameSize then override else peerMaxFrameSize
  | _ => peerMaxFrameSize

end SASLHandler

/-- `saslXOAUTH2InitialResponse`. -/
def saslXOAUTH2InitialResponse (username bearer : Bytes) : Except String Bytes :=
  if bearer.isEmpty then .error "unacceptable bearer token"
  else if bearer.any fun char => char < 0x20 || char > 0x7E then .error "unacceptable bearer token"
  else if username.any fun char => char = 0x01 then .error "unacceptable username"
  else .ok (ascii "user=" ++ username ++ 0x01 :: ascii "auth=Bearer " ++ bearer ++ [0x01, 0x01])

/-- `SASLTypeXOAUTH2`. -/
def saslTypeXOAUTH2 (username bearer : Bytes) (saslMaxFrameSizeOverride : UInt32) : Except String SASLHandler :=
  (saslXOAUTH2InitialResponse username bearer).map (.xoauth2 · saslMaxFrameSizeOverride)

/-! ## The state machine -/

/-- `protoID`. -/
inductive Proto where
  | amqp
  | tls
  | sasl
deriving DecidableEq

/-- The protocol id in a header. -/
def Proto.id : Proto → UInt8
  | .amqp => 0x0
  | .tls => 0x2
  | .sasl => 0x3

/-- The errors of the state functions. -/
inductive NegotiationError where
  | read (err : Fault)
  | write (err : Fault)
  | handshake (err : String)
  /-- "invalid protoHeader" -/
  | invalidHeader
  /-- "unexpected protocol %q" -/
  | unexpectedProtocol (buf : Bytes)
  /-- "unexpected protocol version %d.%d.%d" -/
  | unexpectedVersion (major minor revision : UInt8)
  /-- "unexpected protocol header %#00x, expected %#00x" -/
  | unexpectedHeader (id : UInt8) (expected : Proto)
  /-- "no supported auth mechanism (%v)" -/
  | noMechanism (mechanisms : List Bytes)
  /-- ": unexpected frame type %T", after the name of the state function -/
  | unexpectedFrame (state : String) (typeName : String)
  /-- " auth failed with code %#00x: %s", after the name of the mechanism -/
  | authFailed (mechanism : String) (code : UInt8) (additionalData : Bytes) (errorResponse : Option Bytes)
  /-- "SASL XOAUTH2 unexpected additional error response received during exchange. Initial error response: %s,
      additional response: %s" -/
  | additionalResponse (first second : Bytes)

/-- The state function, and where it stands. -/
inductive NegotiationPhase where
  | negotiateProto
  /-- `readProtoHeader`, at its start -/
  | header (pID : Proto)
  /-- `readProtoHeader`, in its loop -/
  | headerLoop (pID : Proto)
  | startTLS
  | negotiateSASL
  | handler (h : SASLHandler)
  | saslOutcome
  /-- `saslXOAUTH2Handler.step`; a challenge that has been read is not nil -/
  | xoauth2Step (errorResponse : Option Bytes)
  /-- `saslXOAUTH2Handler.step`, before the response to a challenge -/
  | xoauth2Respond (errorResponse : Bytes)
  | openAMQP
  /-- `openAMQP`, after the open has been written -/
  | opening
  | returned (err : Option NegotiationError)

def defaultMaxFrameSize : UInt32 := 65536

/-- The fields of `Conn` that `start` uses. -/
structure Negotiation where
  tlsNegotiation : Bool
  tlsComplete : Bool
  /-- in the order in which they were added; an entry replaces one with the same key -/
  saslHandlers : List SASLHandler
  saslComplete : Bool
  containerID : Bytes
  hostname : Bytes
  channelMax : UInt16
  idleTimeout : Duration
  properties : SymbolMap
  peerIdleTimeout : Duration
  peerMaxFrameSize : UInt32
  /-- with `rxBuf` and `maxFrameSize` -/
  reader : FrameReader
  phase : NegotiationPhase

/-- What the network does next. -/
inductive NegotiationInput where
  /-- on to the next read -/
  | go
  | writeErr (err : String)
  /-- a read of `readProtoHeader` -/
  | headerRead (chunk : Bytes)
  | headerReadErr (err : String)
  /-- a step of `readFrame` -/
  | frame (i : ReadInput)
  /-- the TLS handshake ends -/
  | handshake (err : Option String)

/-- What is written and read during the negotiation. -/
inductive NegotiationEvent where
  | wroteHeader (pID : Proto)
  | wroteFrame (body : FrameBody)
  | readHeader (pID : Proto)
  | readFrame (body : FrameBody)

namespace Negotiation

/-- `newConn`, up to the options. -/
def start (tlsNegotiation : Bool) (saslHandlers : List SASLHandler) (containerID hostname : Bytes)
    (maxFrameSize : UInt32) (channelMax : UInt16) (idleTimeout : Duration) (properties : SymbolMap) :
    Negotiation where
  tlsNegotiation := tlsNegotiation
  tlsComplete := false
  saslHandlers := saslHandlers
  saslComplete := false
  containerID := containerID
  hostname := hostname
  channelMax := channelMax
  idleTimeout := idleTimeout
  properties := properties
  peerIdleTimeout := 0
  peerMaxFrameSize := defaultMaxFrameSize
  reader := .start maxFrameSize
  phase := .negotiateProto

/-- `c.saslHandlers[mech]`. -/
def handlerFor (s : Negotiation) (mech : Bytes) : Option SASLHandler :=
  s.saslHandlers.reverse.find? fun h => h.mechanism = mech

/-- `start` returns the error. -/
def fail (s : Negotiation) (err : NegotiationError) : Negotiation := { s with phase := .returned (some err) }

/-- Which header is sent next. -/
def nextProto (s : Negotiation) : Proto :=
  if s.tlsNegotiation && !s.tlsComplete then .tls
  else if !s.saslHandlers.isEmpty && !s.saslComplete then .sasl
  else .amqp

/-- `exchangeProtoHeader`, with the header of the server. -/
def onHeader (s : Negotiation) (pID : Proto) (id : UInt8) : Negotiation × List NegotiationEvent :=
  if id ≠ pID.id then (s.fail (.unexpectedHeader id pID), [])
  else
    ({ s with phase := match pID with
        | .amqp => .openAMQP
        | .tls => .startTLS
        | .sasl => .negotiateSASL }, [.readHeader pID])

/-- The eight bytes of a header. -/
def parseProtoHeader : Bytes → Except NegotiationError UInt8
  | [a, m, q, p, id, major, minor, revision] =>
    if [a, m, q, p] ≠ ascii "AMQP" then .error (.unexpectedProtocol [a, m, q, p])
    else if major ≠ 1 ∨ minor ≠ 0 ∨ revision ≠ 0 then .error (.unexpectedVersion major minor revision)
    else .ok id
  | _ => .error .invalidHeader

/-- `readProtoHeader`, after its reads. -/
def takeHeader (s : Negotiation) (pID : Proto) (rxBuf : Buffer) : Negotiation × List NegotiationEvent :=
  match (next 8).run rxBuf with
  | .ok (buf, ok) rxBuf =>
    let s := { s with reader := { s.reader with rxBuf := rxBuf } }
    if !ok then (s.fail .invalidHeader, [])
    else
      match parseProtoHeader buf with
      | .ok id => s.onHeader pID id
      | .error err => (s.fail err, [])
  | .error err _ => (s.fail (.read err), [])

/-- A frame is written, up to the limit of the peer; then the state function goes on at `phase`. -/
def write (s : Negotiation) (limit : UInt32) (fr : Frame) (phase : NegotiationPhase) :
    Negotiation × List NegotiationEvent :=
  match (writeFrame limit fr).run (.new []) with
  | .ok _ _ => ({ s with phase := phase }, [.wroteFrame fr.body])
  | .error err _ => (s.fail (.write err), [])

/-- `frames.TypeSASL`. -/
def saslFrame (body : FrameBody) : Frame := ⟨0x1, 0, body⟩

/-- The state after the sasl-init. -/
def afterInit : SASLHandler → NegotiationPhase
  | .xoauth2 .. => .xoauth2Step none
  | _ => .saslOutcome

/-- The open of this side. -/
def openFrame (s : Negotiation) : Frame := ⟨0x0, 0, .open_ {
  containerID := s.containerID
  hostname := s.hostname
  maxFrameSize := s.reader.maxFrameSize
  channelMax := s.channelMax
  -- half of the idle timeout
  idleTimeout := s.idleTimeout / 2
  outgoingLocales := []
  incomingLocales := []
  offeredCapabilities := []
  desiredCapabilities := []
  properties := s.properties }⟩

/-- `encoding.CodeSASLOK`. -/
def codeSASLOK : UInt8 := 0

/-- The settings of the peer. -/
def update (s : Negotiation) (o : PerformOpen) : Negotiation := { s with
  peerMaxFrameSize := if o.maxFrameSize > 0 then o.maxFrameSize else s.peerMaxFrameSize
  peerIdleTimeout := if o.idleTimeout > 0 then o.idleTimeout else s.peerIdleTimeout
  channelMax := if o.channelMax < s.channelMax then o.channelMax else s.channelMax
  phase := .returned none }

/-- What a state function does with the frame it has read. -/
def onFrame (s : Negotiation) (body : FrameBody) : Negotiation :=
  match s.phase, body with
  | .negotiateSASL, .saslMechanisms sm =>
    match sm.mechanisms.findSome? s.handlerFor with
    | some h => { s with phase := .handler h }
    | none => s.fail (.noMechanism sm.mechanisms)
  | .negotiateSASL, body => s.fail (.unexpectedFrame "negotiateSASL" body.typeName)
  | .saslOutcome, .saslOutcome so =>
    if so.code ≠ codeSASLOK then s.fail (.authFailed "SASL PLAIN" so.code so.additionalData none)
    else { s with saslComplete := true, phase := .negotiateProto }
  | .saslOutcome, body => s.fail (.unexpectedFrame "saslOutcome" body.typeName)
  | .xoauth2Step errorResponse, .saslOutcome so =>
    if so.code ≠ codeSASLOK then s.fail (.authFailed "SASL XOAUTH2" so.code so.additionalData errorResponse)
    else { s with saslComplete := true, phase := .negotiateProto }
  | .xoauth2Step none, .saslChallenge sc => { s with phase := .xoauth2Respond sc.challenge }
  | .xoauth2Step (some first), .saslChallenge sc => s.fail (.additionalResponse first sc.challenge)
  | .xoauth2Step _, body => s.fail (.unexpectedFrame "sasl" body.typeName)
  | .opening, .open_ o => s.update o
  | .opening, body => s.fail (.unexpectedFrame "openAMQP" body.typeName)
  | _, _ => s

/-- The state functions that read a frame. -/
def readsFrame : NegotiationPhase → Bool
  | .negotiateSASL | .saslOutcome | .xoauth2Step _ | .opening => true
  | _ => false

/-- A step of `readFrame`, and what follows when it returns. -/
def frameStep (s : Negotiation) (i : ReadInput) : Option (Negotiation × List NegotiationEvent) :=
  if readsFrame s.phase then
    (s.reader.step i).map fun r =>
      match r.2 with
      | .ok fr :: _ => ({ s.onFrame fr.body with reader := r.1 }, [.readFrame fr.body])
      | .error err :: _ => ({ s.fail (.read err) with reader := r.1 }, [])
      | [] => ({ s with reader := r.1 }, [])
  else none

/-- One step of `start`. A write that fails may have written. -/
def step (s : Negotiation) : NegotiationInput → Option (Negotiation × List NegotiationEvent)
  | .go =>
    match s.phase with
    | .negotiateProto => some ({ s with phase := .header s.nextProto }, [.wroteHeader s.nextProto])
    | .header pID =>
      if s.reader.rxBuf.b.length - s.reader.rxBuf.i = 0 then some ({ s with phase := .headerLoop pID }, [])
      else some (s.takeHeader pID s.reader.rxBuf)
    | .handler h =>
      some (s.write (h.maxFrameSize s.peerMaxFrameSize) (saslFrame (.saslInit h.init)) (afterInit h))
    | .xoauth2Respond errorResponse =>
      some (s.write s.peerMaxFrameSize (saslFrame (.saslResponse ⟨[]⟩)) (.xoauth2Step (some errorResponse)))
    | .openAMQP => some (s.write s.peerMaxFrameSize s.openFrame .opening)
    | _ => none
  | .writeErr err =>
    match s.phase with
    | .negotiateProto => some (s.fail (.write (.err err)), [.wroteHeader s.nextProto])
    | .handler h => some (s.fail (.write (.err err)), [.wroteFrame (.saslInit h.init)])
    | .xoauth2Respond _ => some (s.fail (.write (.err err)), [.wroteFrame (.saslResponse ⟨[]⟩)])
    | .openAMQP => some (s.fail (.write (.err err)), [.wroteFrame s.openFrame.body])
    | _ => none
  | .headerRead chunk =>
    match s.phase with
    | .headerLoop pID =>
      let rxBuf := s.reader.rxBuf.append chunk
      if rxBuf.b.length - rxBuf.i ≥ 8 then some (s.takeHeader pID rxBuf)
      else some ({ s with reader := { s.reader with rxBuf := rxBuf } }, [])
    | _ => none
  | .headerReadErr err =>
    match s.phase with
    | .headerLoop _ => some (s.fail (.read (.err err)), [])
    | _ => none
  | .frame i => s.frameStep i
  | .handshake err =>
    match s.phase, err with
    | .startTLS, none => some ({ s with tlsComplete := true, phase := .negotiateProto }, [])
    | .startTLS, some err => some (s.fail (.handshake err), [])
    | _, _ => none

/-! ## What a step is -/

/-- The write that the state function comes to, and where it goes on after it. -/
def nextWrite (s : Negotiation) : Option (NegotiationEvent × NegotiationPhase) :=
  match s.phase with
  | .negotiateProto => some (.wroteHeader s.nextProto, .header s.nextProto)
  | .handler h => some (.wroteFrame (.saslInit h.init), afterInit h)
  | .xoauth2Respond errorResponse => some (.wroteFrame (.saslResponse ⟨[]⟩), .xoauth2Step (some errorResponse))
  | .openAMQP => some (.wroteFrame s.openFrame.body, .opening)
  | _ => none

/-- What a step does to the flags and the phase. -/
inductive Turn (s : Negotiation) : List NegotiationEvent → Bool → NegotiationPhase → Prop
  | failed (err : NegotiationError) : Turn s [] s.saslComplete (.returned (some err))
  | wrote (e : NegotiationEvent) (phase : NegotiationPhase) : s.nextWrite = some (e, phase) →
      Turn s [e] s.saslComplete phase
  | writeFailed (e : NegotiationEvent) (phase : NegotiationPhase) (err : NegotiationError) :
      s.nextWrite = some (e, phase) → Turn s [e] s.saslComplete (.returned (some err))
  | waits : Turn s [] s.saslComplete s.phase
  | headerLoop (pID : Proto) : s.phase = .header pID → Turn s [] s.saslComplete (.headerLoop pID)
  | gotHeader (pID : Proto) : s.phase = .header pID ∨ s.phase = .headerLoop pID →
      Turn s [.readHeader pID] s.saslComplete (match pID with
        | .amqp => .openAMQP
        | .tls => .startTLS
        | .sasl => .negotiateSASL)
  | secured : s.phase = .startTLS → Turn s [] s.saslComplete .negotiateProto
  | listed (sm : SASLMechanisms) (h : SASLHandler) : s.phase = .negotiateSASL → h ∈ s.saslHandlers →
      h.mechanism ∈ sm.mechanisms → Turn s [.readFrame (.saslMechanisms sm)] s.saslComplete (.handler h)
  | outcome (so : SASLOutcome) : s.phase = .saslOutcome ∨ (∃ errorResponse, s.phase = .xoauth2Step errorResponse) →
      so.code = codeSASLOK → Turn s [.readFrame (.saslOutcome so)] true .negotiateProto
  | challenged (sc : SASLChallenge) : s.phase = .xoauth2Step none →
      Turn s [.readFrame (.saslChallenge sc)] s.saslComplete (.xoauth2Respond sc.challenge)
  | opened (o : PerformOpen) : s.phase = .opening →
      Turn s [.readFrame (.open_ o)] s.saslComplete (.returned none)
  | refused (body : FrameBody) (err : NegotiationError) : readsFrame s.phase = true →
      Turn s [.readFrame body] s.saslComplete (.returned (some err))

variable {s s' : Negotiation} {events : List NegotiationEvent}

theorem handlerFor_spec {mech : Bytes} {h : SASLHandler} (hfind : s.handlerFor mech = some h) :
    h ∈ s.saslHandlers ∧ h.mechanism = mech := by
  refine ⟨List.mem_reverse.mp (List.mem_of_find?_eq_some hfind), ?_⟩
  simpa using List.find?_some hfind

theorem onFrame_turn (hreads : readsFrame s.phase = true) (body : FrameBody) :
    Turn s [.readFrame body] (s.onFrame body).saslComplete (s.onFrame body).phase ∧
      (s.onFrame body).saslHandlers = s.saslHandlers := by
  unfold onFrame
  split
  · next sm hp =>
    split
    · next h hfind =>
      obtain ⟨mech, hmech, hh⟩ := List.exists_of_findSome?_eq_some hfind
      obtain ⟨hmem, heq⟩ := handlerFor_spec hh
      exact ⟨.listed sm h hp hmem (heq ▸ hmech), rfl⟩
    · exact ⟨.refused _ _ hreads, rfl⟩
  · exact ⟨.refused _ _ hreads, rfl⟩
  · next so hp =>
    split
    · exact ⟨.refused _ _ hreads, rfl⟩
    · next hcode => exact ⟨.outcome so (.inl hp) (not_not.mp hcode), rfl⟩
  · exact ⟨.refused _ _ hreads, rfl⟩
  · next errorResponse so hp =>
    split
    · exact ⟨.refused _ _ hreads, rfl⟩
    · next hcode => exact ⟨.outcome so (.inr ⟨errorResponse, hp⟩) (not_not.mp hcode), rfl⟩
  · next sc hp => exact ⟨.challenged sc hp, rfl⟩
  · exact ⟨.refused _ _ hreads, rfl⟩
  · exact ⟨.refused _ _ hreads, rfl⟩
  · next o hp => exact ⟨.opened o hp, rfl⟩
  · exact ⟨.refused _ _ hreads, rfl⟩
  · exfalso
    cases hp : s.phase <;> simp_all [readsFrame]

/-- The step reads, or writes what comes next. -/
structure StepOf (s : Negotiation) (events : List NegotiationEvent) (s' : Negotiation) : Prop where
  turn : Turn s events s'.saslComplete s'.phase
  handlers : s'.saslHandlers = s.saslHandlers

theorem takeHeader_turn {pID : Proto} (hp : s.phase = .header pID ∨ s.phase = .headerLoop pID)
    (rxBuf : Buffer) : StepOf s (s.takeHeader pID rxBuf).2 (s.takeHeader pID rxBuf).1 := by
  unfold takeHeader
  split
  · dsimp only
    split
    · exact ⟨.failed _, rfl⟩
    · split
      · unfold onHeader
        split
        · exact ⟨.failed _, rfl⟩
        · exact ⟨.gotHeader pID hp, rfl⟩
      · exact ⟨.failed _, rfl⟩
  · exact ⟨.failed _, rfl⟩

theorem write_turn (limit : UInt32) (fr : Frame) (phase : NegotiationPhase)
    (hwrite : s.nextWrite = some (.wroteFrame fr.body, phase)) :
    StepOf s (s.write limit fr phase).2 (s.write limit fr phase).1 := by
  unfold write
  split
  · exact ⟨.wrote _ _ hwrite, rfl⟩
  · exact ⟨.failed _, rfl⟩

theorem frameStep_turn {i : ReadInput} (h : s.frameStep i = some (s', events)) : StepOf s events s' := by
  simp only [frameStep, Option.ite_none_right_eq_some] at h
  obtain ⟨hreads, h⟩ := h
  obtain ⟨⟨reader, results⟩, -, heq⟩ := Option.map_eq_some_iff.mp h
  dsimp only at heq
  split at heq <;> cases heq
  · next fr rest =>
    obtain ⟨hturn, hhandlers⟩ := onFrame_turn hreads fr.body
    exact ⟨hturn, hhandlers⟩
  · exact ⟨.failed _, rfl⟩
  · exact ⟨.waits, rfl⟩

/-- **Step inversion.** -/
theorem step_cases {i : NegotiationInput} (h : s.step i = some (s', events)) : StepOf s events s' := by
  cases i with
  | go =>
    simp only [step] at h
    split at h
    · next hp =>
      cases h
      exact ⟨.wrote _ _ (by simp only [nextWrite, hp]), rfl⟩
    · next pID hp =>
      split at h
      · cases h
        exact ⟨.headerLoop pID hp, rfl⟩
      · have hstep := takeHeader_turn (.inl hp) s.reader.rxBuf
        rwa [Option.some.inj h] at hstep
    · next x hp =>
      have hstep := write_turn (s := s) (x.maxFrameSize s.peerMaxFrameSize) (saslFrame (.saslInit x.init))
        (afterInit x) (by simp only [nextWrite, hp]; rfl)
      rwa [Option.some.inj h] at hstep
    · next errorResponse hp =>
      have hstep := write_turn (s := s) s.peerMaxFrameSize (saslFrame (.saslResponse ⟨[]⟩))
        (.xoauth2Step (some errorResponse)) (by simp only [nextWrite, hp]; rfl)
      rwa [Option.some.inj h] at hstep
    · next hp =>
      have hstep := write_turn (s := s) s.peerMaxFrameSize s.openFrame .opening (by simp only [nextWrite, hp])
      rwa [Option.some.inj h] at hstep
    · cases h
  | writeErr err =>
    simp only [step] at h
    split at h <;> cases h
    all_goals
      next hp => exact ⟨.writeFailed _ _ _ (by simp only [nextWrite, hp]; rfl), rfl⟩
  | headerRead chunk =>
    simp only [step] at h
    split at h
    · next pID hp =>
      split at h
      · have hstep := takeHeader_turn (.inr hp) (s.reader.rxBuf.append chunk)
        rwa [Option.some.inj h] at hstep
      · cases h
        exact ⟨.waits, rfl⟩
    · cases h
  | headerReadErr err =>
    simp only [step] at h
    split at h <;> cases h
    exact ⟨.failed _, rfl⟩
  | frame i => exact frameStep_turn h
  | handshake err =>
    simp only [step] at h
    split at h <;> cases h
    · next hp => exact ⟨.secured hp, rfl⟩
    · exact ⟨.failed _, rfl⟩

end Negotiation

end GoAmqp
