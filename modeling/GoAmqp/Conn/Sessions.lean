import GoAmqp.Session.Routing

set_option autoImplicit false

/-! # The sessions of a connection (`conn.go`, `session.go`)

`connReader` finds the session of a frame by the channel of the peer, in a table of its own: a begin of
the peer makes an entry, an end takes it out again. It then waits until some goroutine of the session takes
the frame, which is one after the other the call of `begin`, the clean-up that `begin` leaves behind when
its context expires, and the mux. The sessions are numbered in the order in which they are made; the
channels they get are numbers that are used again.

The steps of the goroutines of a session are `ConnSession.step`, those of its mux are the steps of
`Session`. Frames are handed over on an unbuffered channel, so that `handOver` is a step of `connReader`
and of the session at once. -/

namespace GoAmqp

open Lib Function

/-! ## Sessions -/

/-- A session of the connection, by the order in which the sessions were made. -/
abbrev SessionID := Nat

/-- The fields of `SessionOptions`; zero stands for the default. -/
structure SessionOptions where
  incomingWindow : UInt32
  outgoingWindow : UInt32
  maxLinks : UInt32

/-- `defaultWindow`, for both windows of a session. -/
def defaultWindow : UInt32 := 5000

/-- Where the goroutines of a session stand that receive from `s.rx`. -/
inductive SessionPhase where
  /-- `begin`, before its frame has been sent -/
  | beginning
  /-- `begin`, in its `select` -/
  | waiting
  /-- `begin`, with a frame from `s.rx` -/
  | answered (body : FrameBody)
  /-- the clean-up of `begin`, before its frame has been sent -/
  | ending
  /-- the clean-up of `begin`, in its `select` -/
  | cleaning
  | running (mux : Session)
  /-- before `deleteSession` -/
  | deleting
  /-- nothing is left, and the session has not been deleted -/
  | abandoned
  | deleted

/-- A goroutine of the session is still going to receive from `s.rx`. -/
def SessionPhase.receives : SessionPhase → Bool
  | .beginning | .waiting | .ending | .cleaning => true
  | .answered (.begin_ _) => true
  | .running mux => !mux.phase.over
  | _ => false

/-- A session as the connection sees it: its channel and options, and how far it has come. -/
structure ConnSession where
  channel : UInt16
  incomingWindow : UInt32
  outgoingWindow : UInt32
  handleMax : UInt32
  phase : SessionPhase

/-- Steps of a session that do not need `connReader`. -/
inductive SessionInput where
  | sendBegin
  /-- the context of `begin` has expired -/
  | expire
  | sendEnd
  /-- the five seconds of the clean-up are over -/
  | timeout
  | connDone
  /-- `begin` starts the mux, or refuses the response -/
  | startMux
  | mux (i : MuxInput)

namespace ConnSession

/-- A field of the options, where zero stands for the default. -/
def option (field : SessionOptions → UInt32) (default : UInt32) (opts : Option SessionOptions) : UInt32 :=
  match opts with
  | some opts => if field opts ≠ 0 then field opts else default
  | none => default

/-- `newSession` of `session.go`. -/
def new (channel : UInt16) (opts : Option SessionOptions) : ConnSession where
  channel := channel
  incomingWindow := option SessionOptions.incomingWindow defaultWindow opts
  outgoingWindow := option SessionOptions.outgoingWindow defaultWindow opts
  -- handles start at zero; without an option this is `math.MaxUint32`
  handleMax := option SessionOptions.maxLinks 0 opts - 1
  phase := .beginning

/-- The begin that `begin` sends. -/
def beginFrame (cs : ConnSession) : FrameBody := .begin_ {
  remoteChannel := none
  nextOutgoingID := 0
  incomingWindow := cs.incomingWindow
  outgoingWindow := cs.outgoingWindow
  handleMax := cs.handleMax
  offeredCapabilities := []
  desiredCapabilities := []
  properties := none }

/-- The frames a step of the mux hands to the connection. -/
def txFrames (events : List MuxEvent) : List FrameBody := events.filterMap fun
  | .txFrame body _ => some body
  | _ => none

/-- A step of the mux, with the frames it sends. -/
def muxStep (mux : Session) (i : MuxInput) : Option (SessionPhase × List FrameBody) :=
  (mux.step i).map fun r => (.running r.1, txFrames r.2)

/-- The mux is started with the response to the begin. -/
def startMux (cs : ConnSession) : FrameBody → SessionPhase
  | .begin_ remoteBegin => .running (.start cs.incomingWindow cs.outgoingWindow cs.handleMax remoteBegin)
  | _ => .deleting

/-- One step; `done` if the connection has terminated. -/
def step (done : Bool) (cs : ConnSession) : SessionInput → Option (SessionPhase × List FrameBody)
  | .sendBegin =>
    match cs.phase with
    | .beginning => some (.waiting, [cs.beginFrame])
    | _ => none
  | .expire =>
    match cs.phase with
    | .waiting => some (.ending, [])
    | _ => none
  | .sendEnd =>
    match cs.phase with
    | .ending => some (.cleaning, [.end_ ⟨none⟩])
    | _ => none
  | .timeout =>
    match cs.phase with
    | .cleaning => some (.abandoned, [])
    | _ => none
  | .connDone =>
    if done then
      match cs.phase with
      | .waiting | .cleaning => some (.abandoned, [])
      | .running mux => muxStep mux .connDone
      | _ => none
    else none
  | .startMux =>
    match cs.phase with
    | .answered body => some (cs.startMux body, [])
    | _ => none
  | .mux i =>
    match cs.phase, i with
    | .running _, .rx _ | .running _, .connDone => none
    | .running mux, i => muxStep mux i
    | _, _ => none

/-- A frame is taken from `s.rx`. -/
def receive (cs : ConnSession) (body : FrameBody) : Option (SessionPhase × List FrameBody) :=
  match cs.phase with
  | .waiting => some (.answered body, [])
  | .cleaning => some (.deleting, [])
  | .running mux => muxStep mux (.rx body)
  | _ => none

/-- What a step does to the phase of a session. -/
inductive PhaseStep (done : Bool) (cs : ConnSession) : SessionInput → SessionPhase → Prop
  | sendBegin : cs.phase = .beginning → PhaseStep done cs .sendBegin .waiting
  | expire : cs.phase = .waiting → PhaseStep done cs .expire .ending
  | sendEnd : cs.phase = .ending → PhaseStep done cs .sendEnd .cleaning
  | timeout : cs.phase = .cleaning → PhaseStep done cs .timeout .abandoned
  | connDone (phase : SessionPhase) : done = true → PhaseStep done cs .connDone phase
  | startMux (body : FrameBody) : cs.phase = .answered body → PhaseStep done cs .startMux (cs.startMux body)
  | mux (m m' : Session) (i : MuxInput) (events : List MuxEvent) : cs.phase = .running m →
      (∀ body, i ≠ .rx body) → i ≠ .connDone → m.step i = some (m', events) →
      PhaseStep done cs (.mux i) (.running m')

theorem step_cases {done : Bool} {cs : ConnSession} {i : SessionInput} {r : SessionPhase × List FrameBody}
    (h : cs.step done i = some r) : PhaseStep done cs i r.1 := by
  cases i with
  | connDone =>
    simp only [step, Option.ite_none_right_eq_some] at h
    exact .connDone _ h.1
  | mux i =>
    simp only [step] at h
    split at h
    · cases h
    · cases h
    · next m hp hrx hdone =>
      obtain ⟨⟨m', events⟩, hstep, rfl⟩ := Option.map_eq_some_iff.mp h
      exact .mux m m' _ events hp hrx hdone hstep
    · cases h
  | _ =>
    simp only [step] at h
    split at h <;> cases h
    next hp =>
      constructor
      exact hp

/-- What a frame does to the phase of a session. -/
inductive Received (cs : ConnSession) (body : FrameBody) : SessionPhase → Prop
  | answered : cs.phase = .waiting → Received cs body (.answered body)
  | cleaned : cs.phase = .cleaning → Received cs body .deleting
  | mux (m m' : Session) (events : List MuxEvent) : cs.phase = .running m →
      m.step (.rx body) = some (m', events) → Received cs body (.running m')

theorem receive_cases {cs : ConnSession} {body : FrameBody} {r : SessionPhase × List FrameBody}
    (h : cs.receive body = some r) : Received cs body r.1 := by
  unfold receive at h
  split at h
  · next hp =>
    cases h
    exact .answered hp
  · next hp =>
    cases h
    exact .cleaned hp
  · next m hp =>
    obtain ⟨⟨m', events⟩, hstep, rfl⟩ := Option.map_eq_some_iff.mp h
    exact .mux m m' events hp hstep
  · cases h

end ConnSession

/-! ## The connection -/

/-- `fmt`'s `%T`. -/
def FrameBody.typeName : FrameBody → String
  | .open_ _ => "*frames.PerformOpen"
  | .begin_ _ => "*frames.PerformBegin"
  | .attach _ => "*frames.PerformAttach"
  | .flow _ => "*frames.PerformFlow"
  | .transfer _ => "*frames.PerformTransfer"
  | .disposition _ => "*frames.PerformDisposition"
  | .detach _ => "*frames.PerformDetach"
  | .end_ _ => "*frames.PerformEnd"
  | .close _ => "*frames.PerformClose"
  | .saslInit _ => "*frames.SASLInit"
  | .saslMechanisms _ => "*frames.SASLMechanisms"
  | .saslChallenge _ => "*frames.SASLChallenge"
  | .saslResponse _ => "*frames.SASLResponse"
  | .saslOutcome _ => "*frames.SASLOutcome"

/-- `c.rxErr`. -/
inductive ReaderError where
  | read
  | text (s : String)
  | remote (error : AmqpError Value)

/-- Where `connReader` stands. -/
inductive ReaderPhase where
  | reading
  /-- in the `select` that passes the frame on -/
  | handing (s : SessionID) (body : FrameBody)
  | exited (err : Option ReaderError)

/-- The state of an open connection: the channels in use on both sides, the sessions, and where `connReader` stands.
    -/
structure Connection where
  channelMax : UInt16
  channels : Bitmap
  sessionsByChannel : UInt16 → Option SessionID
  /-- the sessions made so far -/
  sessionCount : Nat
  session : SessionID → ConnSession
  /-- of `connReader` -/
  reader : ReaderPhase
  sessionsByRemoteChannel : UInt16 → Option SessionID
  /-- `c.rxtxExit` is closed -/
  rxtxExit : Bool
  done : Bool

/-- What can happen next: a call, a step of a session, a step of `connReader`, or the end of the connection. -/
inductive ConnInput where
  | newSession (opts : Option SessionOptions)
  | session (s : SessionID) (i : SessionInput)
  | deleteSession (s : SessionID)
  | read (channel : UInt16) (body : FrameBody)
  | readError
  | handOver
  /-- `Close`, or the end of `connWriter` -/
  | close
  | readerExit
  /-- `close` waits for `connReader` -/
  | done

/-- What a step shows to the application and to `connWriter`. -/
inductive ConnEvent where
  | opened (s : SessionID)
  | refused (text : String)
  /-- a frame of the session goes to `connWriter` -/
  | tx (s : SessionID) (body : FrameBody)
  /-- `connReader` has found the session of a frame -/
  | rx (s : SessionID) (body : FrameBody)

namespace Connection

/-- An established connection without sessions. -/
def start (channelMax : UInt16) : Connection where
  channelMax := channelMax
  channels := .new channelMax.toUInt32
  sessionsByChannel := fun _ => none
  sessionCount := 0
  session := fun _ => ⟨0, 0, 0, 0, .deleted⟩
  reader := .reading
  sessionsByRemoteChannel := fun _ => none
  rxtxExit := false
  done := false

/-- A new session, on a channel that has been taken. -/
def addSession (c : Connection) (channel : UInt32) (channels : Bitmap) (opts : Option SessionOptions) :
    Connection := { c with
  channels := channels
  sessionCount := c.sessionCount + 1
  session := update c.session c.sessionCount (.new channel.toUInt16 opts)
  sessionsByChannel := update c.sessionsByChannel channel.toUInt16 (some c.sessionCount) }

/-- `newSession` of `conn.go`. -/
def newSession (c : Connection) (opts : Option SessionOptions) : Connection × List ConnEvent :=
  match c.channels.next with
  | (_, false, _) => (c, [.refused (s!"reached connection channel max ({c.channelMax.toNat})")])
  | (channel, true, channels) => (c.addSession channel channels opts, [.opened c.sessionCount])

/-- The session of this number moves on. -/
def setPhase (c : Connection) (s : SessionID) (phase : SessionPhase) : Connection :=
  { c with session := update c.session s { c.session s with phase := phase } }

/-- The session moves and sends its frames; nothing is sent any more when the connection is done. -/
def move (c : Connection) (s : SessionID) (r : SessionPhase × List FrameBody) :
    Connection × List ConnEvent :=
  (c.setPhase s r.1, if c.done then [] else r.2.map (.tx s))

/-- `deleteSession`: in the clean-up of `begin`, after an unexpected response, and deferred by the mux. -/
def deleteSession (c : Connection) (s : SessionID) : Connection := { c.setPhase s .deleted with
  sessionsByChannel := update c.sessionsByChannel (c.session s).channel none
  channels := c.channels.remove (c.session s).channel.toUInt32 }

/-- A goroutine of the session is about to delete it. -/
def deletes : SessionPhase → Bool
  | .deleting => true
  | .running mux => mux.phase.over
  | _ => false

/-- `connReader` returns with an error. -/
def fail (c : Connection) (text : String) : Connection × List ConnEvent :=
  ({ c with reader := .exited (some (.text text)) }, [])

/-- The frame is passed on to the session. -/
def passOn (c : Connection) (s : SessionID) (body : FrameBody) : Connection × List ConnEvent :=
  ({ c with reader := .handing s body }, [.rx s body])

/-- `connReader`, with a frame. -/
def readFrame (c : Connection) (channel : UInt16) : FrameBody → Connection × List ConnEvent
  | .close body => ({ c with reader := .exited (body.error.map .remote) }, [])
  | .begin_ body =>
    match body.remoteChannel with
    | none => c.fail ((FrameBody.begin_ body).typeName ++ ": nil RemoteChannel")
    | some remoteChannel =>
      match c.sessionsByChannel remoteChannel with
      | none => c.fail (s!"unexpected remote channel number {remoteChannel.toNat}")
      | some s =>
        { c with sessionsByRemoteChannel :=
            update c.sessionsByRemoteChannel channel (some s) }.passOn s (.begin_ body)
  | .end_ body =>
    match c.sessionsByRemoteChannel channel with
    | none => c.fail ((FrameBody.end_ body).typeName ++
        s!": didn't find channel {channel.toNat} in sessionsByRemoteChannel (PerformEnd)")
    | some s =>
      { c with sessionsByRemoteChannel := update c.sessionsByRemoteChannel channel none }.passOn s
        (.end_ body)
  | body =>
    match c.sessionsByRemoteChannel channel with
    | none => c.fail (body.typeName ++ s!": didn't find channel {channel.toNat} in sessionsByRemoteChannel")
    | some s => c.passOn s body

/-- `session.rx <- fr`. -/
def handOver (c : Connection) (s : SessionID) (body : FrameBody) : Option (Connection × List ConnEvent) :=
  ((c.session s).receive body).map ({ c with reader := .reading }.move s)

/-- One step of the connection, or none where the input is not enabled. -/
def step (c : Connection) : ConnInput → Option (Connection × List ConnEvent)
  | .newSession opts => some (c.newSession opts)
  | .session s i => ((c.session s).step c.done i).map (c.move s)
  | .deleteSession s => if deletes (c.session s).phase then some (c.deleteSession s, []) else none
  | .read channel body =>
    match c.reader with
    | .reading => some (c.readFrame channel body)
    | _ => none
  | .readError =>
    match c.reader with
    | .reading => some ({ c with reader := .exited (some .read) }, [])
    | _ => none
  | .handOver =>
    match c.reader with
    | .handing s body => c.handOver s body
    | _ => none
  | .close => some ({ c with rxtxExit := true }, [])
  | .readerExit =>
    match c.reader, c.rxtxExit with
    | .handing _ _, true => some ({ c with reader := .exited none }, [])
    | _, _ => none
  | .done =>
    match c.reader with
    | .exited _ => some ({ c with done := true }, [])
    | _ => none

/-! ## What a step is -/

/-- What a step is, by its input. -/
inductive StepOf (c : Connection) : ConnInput → List ConnEvent → Connection → Prop
  | refused (opts : Option SessionOptions) (text : String) : StepOf c (.newSession opts) [.refused text] c
  | opened (opts : Option SessionOptions) (channel : UInt32) (channels : Bitmap) :
      c.channels.next = (channel, true, channels) →
      StepOf c (.newSession opts) [.opened c.sessionCount] (c.addSession channel channels opts)
  | session (s : SessionID) (i : SessionInput) (r : SessionPhase × List FrameBody) :
      (c.session s).step c.done i = some r → StepOf c (.session s i) (c.move s r).2 (c.move s r).1
  | deleted (s : SessionID) : deletes (c.session s).phase = true →
      StepOf c (.deleteSession s) [] (c.deleteSession s)
  | began (channel remoteChannel : UInt16) (body : PerformBegin) (s : SessionID) : c.reader = .reading →
      body.remoteChannel = some remoteChannel → c.sessionsByChannel remoteChannel = some s →
      StepOf c (.read channel (.begin_ body)) [.rx s (.begin_ body)] { c with
        reader := .handing s (.begin_ body)
        sessionsByRemoteChannel := update c.sessionsByRemoteChannel channel (some s) }
  | ended (channel : UInt16) (body : PerformEnd) (s : SessionID) : c.reader = .reading →
      c.sessionsByRemoteChannel channel = some s →
      StepOf c (.read channel (.end_ body)) [.rx s (.end_ body)] { c with
        reader := .handing s (.end_ body)
        sessionsByRemoteChannel := update c.sessionsByRemoteChannel channel none }
  | passed (channel : UInt16) (body : FrameBody) (s : SessionID) : c.reader = .reading →
      (∀ e, body ≠ .end_ e) → c.sessionsByRemoteChannel channel = some s →
      StepOf c (.read channel body) [.rx s body] { c with reader := .handing s body }
  | exited (i : ConnInput) (err : Option ReaderError) :
      StepOf c i [] { c with reader := .exited err }
  | handOver (s : SessionID) (body : FrameBody) (r : SessionPhase × List FrameBody) :
      c.reader = .handing s body → (c.session s).receive body = some r →
      StepOf c .handOver ({ c with reader := .reading }.move s r).2 ({ c with reader := .reading }.move s r).1
  | close : StepOf c .close [] { c with rxtxExit := true }
  | done (err : Option ReaderError) : c.reader = .exited err → StepOf c .done [] { c with done := true }

theorem readFrame_cases {c : Connection} (hreader : c.reader = .reading) (channel : UInt16) (body : FrameBody) :
    StepOf c (.read channel body) (c.readFrame channel body).2 (c.readFrame channel body).1 := by
  have hother : (∀ e, body ≠ .end_ e) → ∀ r, (r = match c.sessionsByRemoteChannel channel with
      | none => c.fail (body.typeName ++ s!": didn't find channel {channel.toNat} in sessionsByRemoteChannel")
      | some s => c.passOn s body) → StepOf c (.read channel body) r.2 r.1 := by
    rintro hend r rfl
    split
    · exact .exited _ _
    · next s hs => exact .passed channel body s hreader hend hs
  cases body with
  | close body => exact .exited _ _
  | begin_ body =>
    simp only [readFrame]
    split
    · exact .exited _ _
    · next remoteChannel hremote =>
      split
      · exact .exited _ _
      · next s hs => exact .began channel remoteChannel body s hreader hremote hs
  | end_ body =>
    simp only [readFrame]
    split
    · exact .exited _ _
    · next s hs => exact .ended channel body s hreader hs
  | _ => exact hother (fun _ h => by cases h) _ rfl

/-- **Step inversion.** -/
theorem step_cases {c c' : Connection} {i : ConnInput} {events : List ConnEvent}
    (h : c.step i = some (c', events)) : StepOf c i events c' := by
  cases i with
  | newSession opts =>
    simp only [step, newSession, Option.some.injEq] at h
    split at h <;> cases h
    · exact .refused opts _
    · next channel channels hnext => exact .opened opts channel channels hnext
  | session s i =>
    obtain ⟨r, hr, heq⟩ := Option.map_eq_some_iff.mp h
    have hstep := StepOf.session s i r hr
    rwa [heq] at hstep
  | deleteSession s =>
    simp only [step, Option.ite_none_right_eq_some] at h
    obtain ⟨hdeletes, heq⟩ := h
    cases heq
    exact .deleted s hdeletes
  | read channel body =>
    simp only [step] at h
    split at h
    · next hreader =>
      have hstep := readFrame_cases hreader channel body
      rwa [Option.some.inj h] at hstep
    · cases h
  | readError =>
    simp only [step] at h
    split at h <;> cases h
    exact .exited _ _
  | handOver =>
    simp only [step] at h
    split at h
    · next s body hreader =>
      obtain ⟨r, hr, heq⟩ := Option.map_eq_some_iff.mp h
      have hstep := StepOf.handOver s body r hreader hr
      rwa [heq] at hstep
    · cases h
  | close =>
    cases h
    exact .close
  | readerExit =>
    simp only [step] at h
    split at h <;> cases h
    exact .exited _ _
  | done =>
    simp only [step] at h
    split at h
    · next err hreader =>
      cases h
      exact .done err hreader
    · cases h

end Connection

end GoAmqp
