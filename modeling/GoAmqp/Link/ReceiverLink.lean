import GoAmqp.Link.ReceiverMux
import Mathlib.Logic.Function.Basic

set_option autoImplicit false

/-! # Settlement of messages (`receiver.go`)

`AcceptMessage` and its kin, `messageDisposition`, `inFlight` and `dispositionBatcher`, around the mux of
the receiver. A settlement call registers its message as in flight, sends or queues a disposition, and
waits on a channel of its own. The channel gets a value from `inFlight.remove`, called by the mux for a
disposition of the peer or by the batcher when it cannot send, or from `inFlight.clear` when the link
detaches.

`inFlight.remove` holds the lock of `inFlight` through its loop, so that no call registers meanwhile. The
one who calls it takes the lock in the same step in which it gets the disposition, or the error: a call
that registers in between is one that registers before. A channel that is in the map is empty, so that
sending to it does not wait. -/

namespace GoAmqp

open Lib Function ReceiverMux

/-! ## Calls -/

/-- The errors that a settlement call returns. -/
inductive SettleError where
  /-- `r.l.err` -/
  | link (e : ReceiverError)
  /-- from `txFrame`: the connection has ended -/
  | conn
  /-- the error of a rejected delivery -/
  | rejected (e : AmqpError Value)
  /-- `ctx.Err()` -/
  | context

/-- Where a call of `messageDisposition` stands. -/
inductive CallPhase where
  /-- before `r.inFlight.add` -/
  | entered
  /-- before the disposition is sent or queued -/
  | sending
  /-- in the `select` on `wait` -/
  | waiting
  | returned (err : Option SettleError)

/-- A settlement call of the application. -/
structure SettleCall where
  /-- which of the messages that the application has received -/
  msg : Nat
  /-- that message, as it was received -/
  message : Message
  state : DeliveryState Value
  phase : CallPhase
  /-- what the channel `wait` holds -/
  wait : Option (Option SettleError)

/-- The fields of `ModifyMessageOptions`. -/
structure ModifyMessageOptions where
  deliveryFailed : Bool
  undeliverableHere : Bool
  annotations : Option Annotations

/-! ## The batcher -/

/-- The arguments of `sendDisposition`. -/
structure SendDisposition where
  first : UInt32
  last : Option UInt32
  state : DeliveryState Value

/-- The variables of `dispositionBatcher`. -/
structure Batcher where
  batchStarted : Bool
  first : UInt32
  last : UInt32
  /-- whether `batchTimer` runs -/
  running : Bool
  /-- whether `batchTimer.C` holds a value -/
  fired : Bool

def isAccept : DeliveryState Value → Bool
  | .accepted => true
  | _ => false

namespace Batcher

/-- The variables as the batcher starts. -/
def zero : Batcher := ⟨false, 0, 0, false, false⟩

/-- The batch as it is. -/
def current (b : Batcher) : SendDisposition := ⟨b.first, some b.last, .accepted⟩

/-- The next id goes into the batch. `batchTimer.Reset` leaves a value in `batchTimer.C` there. -/
def extend (b : Batcher) (id : UInt32) : Batcher :=
  if b.batchStarted then { b with last := b.last + 1 } else ⟨true, id, id, true, b.fired⟩

/-- `if !batchTimer.Stop() { <-batchTimer.C }`. -/
def stop (b : Batcher) : Batcher :=
  if b.running then { b with running := false } else { b with fired := false }

/-- The timer runs out; `batchTimer.C` holds one value. -/
def fire (b : Batcher) : Batcher := { b with running := false, fired := true }

/-- `case msgDis := <-r.dispositions`. The timer is not stopped when a batch is sent early. -/
def submit (batchSize : UInt32) (b : Batcher) (id : UInt32) (state : DeliveryState Value) :
    Batcher × List SendDisposition :=
  if !isAccept state || (b.batchStarted && b.last + 1 != id) then
    ({ b with batchStarted := false }, (if b.batchStarted then [b.current] else []) ++ [⟨id, none, state⟩])
  else if (b.extend id).last - (b.extend id).first + 1 ≥ batchSize then
    (stop { b.extend id with batchStarted := false }, [(b.extend id).current])
  else (b.extend id, [])

/-- `case <-batchTimer.C`. `batchTimer.Stop` is part of this step, as it is of `submit`: the timer does not run out
between the last `sendDisposition` and the call. -/
def expire (b : Batcher) : Batcher × List SendDisposition :=
  ({ b with batchStarted := false, running := false, fired := false }, [b.current])

end Batcher

/-- What the `select` of the batcher waits for. -/
inductive BatchInput where
  /-- `msgDis := <-r.dispositions` -/
  | submit (id : UInt32) (state : DeliveryState Value)
  /-- the timer runs out -/
  | fire
  /-- `<-batchTimer.C` -/
  | expire

/-- One step of the batcher, with the frames it sends. -/
def Batcher.step (batchSize : UInt32) (b : Batcher) : BatchInput → Option (Batcher × List SendDisposition)
  | .submit id state => some (b.submit batchSize id state)
  | .fire => if b.running then some (b.fire, []) else none
  | .expire => if b.fired then some b.expire else none

/-- Where the batcher stands. -/
inductive BatcherPhase where
  | selecting
  /-- with calls of `sendDisposition` to make -/
  | sending (todo : List SendDisposition)
  /-- in the loop of `inFlight.remove`, before the test of the loop -/
  | removing (i last : UInt32) (err : SettleError) (todo : List SendDisposition)
  | exited

/-- After a call of `sendDisposition`. -/
def BatcherPhase.after : List SendDisposition → BatcherPhase
  | [] => .selecting
  | todo => .sending todo

/-! ## The link -/

/-- The receiver with its settlement calls: the mux, the messages in the hands of the application, the calls,
    `inFlight`, and the batcher. -/
structure ReceiverLink where
  mux : ReceiverMux
  batching : Bool
  /-- the messages that the application has received -/
  held : List Message
  /-- `msg.settled` of each of them -/
  settled : Nat → Bool
  /-- the calls, each with a number of its own -/
  calls : Nat → Option SettleCall
  /-- `inFlight.m`: the call whose channel stands for a delivery-id -/
  inFlight : UInt32 → Option Nat
  /-- whether `inFlight.m` is made -/
  made : Bool
  /-- the channel `r.dispositions` -/
  dispositions : List (UInt32 × DeliveryState Value)
  batcher : Batcher
  batcherPhase : BatcherPhase

/-- What can happen next to the link, in any order. -/
inductive SettleInput where
  /-- a step of the mux, or of a call other than those below -/
  | mux (i : ReceiverInput)
  /-- a settlement call with number `n` for the `k`th message -/
  | settle (n k : Nat) (state : DeliveryState Value)
  /-- `r.inFlight.add` -/
  | register (n : Nat)
  /-- `r.dispositions <- ...` -/
  | queue (n : Nat)
  /-- `<-r.l.detached` in the same `select` -/
  | queueDetached (n : Nat)
  /-- `r.sendDisposition` without a batcher -/
  | send (n : Nat) (connected : Bool)
  /-- `<-wait` -/
  | complete (n : Nat)
  /-- `<-ctx.Done()` -/
  | cancel (n : Nat)
  /-- the batcher reads `r.dispositions` -/
  | batch
  /-- the batcher's timer runs out -/
  | fire
  /-- the batcher reads `batchTimer.C` -/
  | expire
  | batchSend (connected : Bool)
  | batchRound
  | batchExit

/-! ### The calls of the application -/

def acceptMessage (n k : Nat) : SettleInput := .settle n k .accepted
def rejectMessage (n k : Nat) (e : Option (AmqpError Value)) : SettleInput := .settle n k (.rejected e)
def releaseMessage (n k : Nat) : SettleInput := .settle n k .released

/-- `ModifyMessage`; no options stand for the zero ones. -/
def modifyMessage (n k : Nat) (options : Option ModifyMessageOptions) : SettleInput :=
  let options := options.getD ⟨false, false, none⟩
  .settle n k (.modified options.deliveryFailed options.undeliverableHere options.annotations)

variable {events : List ReceiverEvent} {m : ReceiverMux} {s s' : ReceiverLink} {n : Nat} {c : SettleCall}

namespace ReceiverLink

/-- Deliveries are settled once the sender has confirmed. -/
def second (s : ReceiverLink) : Bool := Receiver.receiverSettleModeValue s.mux.receiver.receiverSettleMode == .second

/-- The call of this number has moved on. -/
def setCall (s : ReceiverLink) (n : Nat) (c : SettleCall) : ReceiverLink :=
  { s with calls := update s.calls n (some c) }

/-! ### `inFlight` -/

/-- The mux holds the lock of `inFlight`. -/
def muxLocks : ReceiverPhase → Bool
  | .removing _ _ _ _ => true
  | _ => false

/-- The batcher holds it. -/
def batcherLocks : BatcherPhase → Bool
  | .removing _ _ _ _ => true
  | _ => false

/-- A round of the loop of `inFlight.remove`. -/
def removeID (s : ReceiverLink) (id : UInt32) (err : Option SettleError) : ReceiverLink :=
  match s.inFlight id with
  | some n => { s with
      calls := update s.calls n ((s.calls n).map fun c => { c with wait := some err })
      inFlight := update s.inFlight id none }
  | none => s

/-- `inFlight.clear`. -/
def clear (s : ReceiverLink) (err : Option SettleError) : ReceiverLink := { s with
  calls := fun n => (s.calls n).map fun c =>
    if s.inFlight c.message.deliveryID = some n then { c with wait := some err } else c
  inFlight := fun _ => none }

/-! ### Steps of the mux -/

/-- What an event of the mux does. -/
def handle (s : ReceiverLink) : ReceiverEvent → ReceiverLink
  | .remove id err => s.removeID id (err.map .rejected)
  | .clear err => s.clear (some (.link err))
  | .receive m => { s with
      held := s.held ++ [m], settled := update s.settled s.held.length m.settled }
  | _ => s

/-- Messages are settled by calls only, and `inFlight.remove` has a loop when the map is made. -/
def admits (s : ReceiverLink) : ReceiverInput → Bool
  | .deleteUnsettled _ => false
  | .removeRound => s.made
  | .removeNil => !s.made
  | .clear => !batcherLocks s.batcherPhase
  | _ => true

/-- A step of the mux, with what its events do to the calls; the lock of `inFlight` has one holder. -/
def muxStep (s : ReceiverLink) (i : ReceiverInput) : Option (ReceiverLink × List ReceiverEvent) :=
  if s.admits i then
    match s.mux.step i with
    | some (mux, events) =>
      if muxLocks mux.phase && batcherLocks s.batcherPhase then none
      else some (events.foldl handle { s with mux := mux }, events)
    | none => none
  else none

/-! ### Steps of a call -/

/-- A settlement call: it returns at once for a message that is settled. -/
def enter (s : ReceiverLink) (n k : Nat) (m : Message) (state : DeliveryState Value) : ReceiverLink :=
  s.setCall n {
    msg := k
    message := m
    state := state
    phase := if s.settled k then .returned none else if s.second then .entered else .sending
    wait := none }

/-- `inFlight.add`: the channel of the call replaces that of an earlier one with the same id. -/
def register (s : ReceiverLink) (n : Nat) (c : SettleCall) : ReceiverLink :=
  { s.setCall n { c with phase := .sending } with
    inFlight := update s.inFlight c.message.deliveryID (some n)
    made := true }

/-- Where a call stands when its disposition is sent or queued. -/
def sent (s : ReceiverLink) : CallPhase := if s.second then .waiting else .returned none

/-- The error of `sendDisposition`. -/
def sendError (s : ReceiverLink) (connected : Bool) : Option SettleError :=
  match s.mux.phase with
  | .exited err => some (.link err)
  | _ => if connected then none else some .conn

/-- The frame of `sendDisposition`. -/
def dispositionFrame (s : ReceiverLink) (x : SendDisposition) : PerformDisposition where
  role := .receiver
  first := x.first
  last := x.last
  settled := Receiver.receiverSettleModeValue s.mux.receiver.receiverSettleMode == .first
  state := some x.state
  batchable := false

/-- `r.dispositions <- ...`, when the channel has room. -/
def queue (s : ReceiverLink) (n : Nat) (c : SettleCall) : Option (ReceiverLink × List ReceiverEvent) :=
  match c.phase with
  | .sending =>
    if s.batching = true ∧ s.dispositions.length < s.mux.maxCredit.toNat then
      some ({ s.setCall n { c with phase := s.sent } with
        dispositions := s.dispositions ++ [(c.message.deliveryID, c.state)] }, [])
    else none
  | _ => none

/-- The link is detached before there is room. -/
def queueDetached (s : ReceiverLink) (n : Nat) (c : SettleCall) : Option (ReceiverLink × List ReceiverEvent) :=
  match c.phase, s.mux.phase with
  | .sending, .exited err =>
    if s.batching then some (s.setCall n { c with phase := .returned (some (.link err)) }, []) else none
  | _, _ => none

/-- The call sends its disposition itself. -/
def send (s : ReceiverLink) (n : Nat) (connected : Bool) (c : SettleCall) :
    Option (ReceiverLink × List ReceiverEvent) :=
  match c.phase with
  | .sending =>
    if s.batching then none
    else
      match s.sendError connected with
      | some e => some (s.setCall n { c with phase := .returned (some e) }, [])
      | none => some (s.setCall n { c with phase := s.sent },
          [.txFrame (.disposition (s.dispositionFrame ⟨c.message.deliveryID, none, c.state⟩))])
  | _ => none

/-- The call gets a value from its channel: it takes the message for settled, whatever the value. -/
def completed (s : ReceiverLink) (n : Nat) (c : SettleCall) (err : Option SettleError) : ReceiverLink :=
  { s.setCall n { c with phase := .returned err, wait := none } with
    mux := s.mux.deleteUnsettled c.message.tag
    settled := update s.settled c.msg true }

/-- The call takes what is in its channel. -/
def complete (s : ReceiverLink) (n : Nat) (c : SettleCall) : Option (ReceiverLink × List ReceiverEvent) :=
  match c.phase, c.wait with
  | .waiting, some err => some (s.completed n c err, [])
  | _, _ => none

/-- The context of the call is done. -/
def cancel (s : ReceiverLink) (n : Nat) (c : SettleCall) : Option (ReceiverLink × List ReceiverEvent) :=
  match c.phase with
  | .waiting => some (s.setCall n { c with phase := .returned (some .context) }, [])
  | _ => none

/-! ### Steps of the batcher -/

/-- The batcher's next call of `sendDisposition`; an error leads to `inFlight.remove`. -/
def batchSend (s : ReceiverLink) (connected : Bool) : Option (ReceiverLink × List ReceiverEvent) :=
  match s.batcherPhase with
  | .sending (x :: todo) =>
    match s.sendError connected with
    | none =>
      some ({ s with batcherPhase := .after todo }, [.txFrame (.disposition (s.dispositionFrame x))])
    | some e =>
      if muxLocks s.mux.phase then none
      else some ({ s with batcherPhase := .removing x.first (x.last.getD x.first) e todo }, [])
  | _ => none

/-- A round of that loop. -/
def batchRound (s : ReceiverLink) : Option (ReceiverLink × List ReceiverEvent) :=
  match s.batcherPhase with
  | .removing i last e todo =>
    if s.made = true ∧ i ≤ last then
      some ({ s.removeID i (some e) with batcherPhase := .removing (i + 1) last e todo }, [])
    else some ({ s with batcherPhase := .after todo }, [])
  | _ => none

/-! ### Steps -/

/-- One step of the link, or none where the input is not enabled. -/
def step (s : ReceiverLink) : SettleInput → Option (ReceiverLink × List ReceiverEvent)
  | .mux i => s.muxStep i
  | .settle n k state =>
    match s.calls n, s.held[k]? with
    | none, some m => some (s.enter n k m state, [])
    | _, _ => none
  | .register n =>
    (s.calls n).bind fun c =>
      match c.phase with
      | .entered =>
        if muxLocks s.mux.phase || batcherLocks s.batcherPhase then none else some (s.register n c, [])
      | _ => none
  | .queue n => (s.calls n).bind (s.queue n)
  | .queueDetached n => (s.calls n).bind (s.queueDetached n)
  | .send n connected => (s.calls n).bind (s.send n connected)
  | .complete n => (s.calls n).bind (s.complete n)
  | .cancel n => (s.calls n).bind (s.cancel n)
  | .batch =>
    match s.batcherPhase, s.dispositions with
    | .selecting, (id, state) :: dispositions =>
      let next := s.batcher.submit s.mux.maxCredit id state
      some ({ s with dispositions := dispositions, batcher := next.1, batcherPhase := .after next.2 }, [])
    | _, _ => none
  | .fire => if s.batcher.running then some ({ s with batcher := s.batcher.fire }, []) else none
  | .expire =>
    match s.batcherPhase with
    | .selecting =>
      if s.batcher.fired then
        some ({ s with batcher := s.batcher.expire.1, batcherPhase := .after s.batcher.expire.2 }, [])
      else none
    | _ => none
  | .batchSend connected => s.batchSend connected
  | .batchRound => s.batchRound
  | .batchExit =>
    match s.batcherPhase, s.mux.phase with
    | .selecting, .exited _ => some ({ s with batcherPhase := .exited }, [])
    | _, _ => none

/-- The link after `NewReceiver`; a maximum credit of one turns batching off. -/
def start (maxMessageSize : UInt64) (mode : Option ReceiverSettleMode) (initialDeliveryCount handle : UInt32)
    (autoSendFlow : Bool) (maxCredit : UInt32) (batching : Bool) : ReceiverLink where
  mux := .start maxMessageSize mode initialDeliveryCount handle autoSendFlow maxCredit
  batching := batching && maxCredit != 1
  held := []
  settled := fun _ => false
  calls := fun _ => none
  inFlight := fun _ => none
  made := false
  dispositions := []
  batcher := .zero
  batcherPhase := .selecting

/-! ## What a step can do -/

/-- Events that do nothing here. -/
def Quiet (events : List ReceiverEvent) : Prop := ∀ e ∈ events, ∀ s : ReceiverLink, s.handle e = s

theorem quiet_nil : Quiet [] := by
  intro e he
  cases he

theorem quiet_singleton {e : ReceiverEvent} (h : ∀ s : ReceiverLink, s.handle e = s) : Quiet [e] := by
  intro e' he'
  rwa [List.mem_singleton.mp he']

theorem foldl_handle (h : Quiet events) (s : ReceiverLink) : events.foldl handle s = s := by
  induction events generalizing s with
  | nil => rfl
  | cons e events ih =>
    rw [List.foldl_cons, h e (List.mem_cons_self ..)]
    exact ih (fun e' he' => h e' (List.mem_cons_of_mem _ he')) s

/-- What a step of the mux does to the calls. -/
inductive Signals (m : ReceiverMux) : ReceiverInput → List ReceiverEvent → ReceiverMux → Prop
  /-- a disposition of the peer: the loop of `inFlight.remove` begins -/
  | began (fr : PerformDisposition) (flow : Option PerformFlow) (m' : ReceiverMux) :
      m'.phase = .removing fr.first (fr.last.getD fr.first) (dispositionError fr.state) flow →
      Signals m (.rx (.disposition fr)) [] m'
  | round (i last : UInt32) (err : Option (AmqpError Value)) (flow : Option PerformFlow) (m' : ReceiverMux) :
      m.phase = .removing i last err flow → i ≤ last → m'.phase = .removing (i + 1) last err flow →
      Signals m .removeRound [.remove i err] m'
  | cleared (err : ReceiverError) (m' : ReceiverMux) : muxLocks m'.phase = false →
      Signals m .clear [.clear err] m'
  | took (msg : Message) (m' : ReceiverMux) : m'.phase = m.phase → Signals m .receive [.receive msg] m'
  | quiet (i : ReceiverInput) (events : List ReceiverEvent) (m' : ReceiverMux) : Quiet events →
      (m'.phase = m.phase ∨ muxLocks m'.phase = false) → Signals m i events m'

theorem muxLocks_resume (flow : Option PerformFlow) : muxLocks (resume flow) = false := by
  cases flow <;> rfl

theorem muxHandleFrame_signals (m : ReceiverMux) (flow : Option PerformFlow) (body : FrameBody) :
    Signals m (.rx body) (m.muxHandleFrame flow body).2 (m.muxHandleFrame flow body).1 := by
  cases body with
  | transfer fr =>
    refine .quiet _ _ _ quiet_nil (.inr ?_)
    simp only [muxHandleFrame, handleTransfer]
    split
    · rfl
    · exact muxLocks_resume flow
  | flow fr =>
    simp only [muxHandleFrame, handleFlow]
    split
    · exact .quiet _ _ _ (quiet_singleton fun _ => rfl) (.inr (muxLocks_resume flow))
    split
    · exact .quiet _ _ _ quiet_nil (.inr rfl)
    · exact .quiet _ _ _ quiet_nil (.inr (muxLocks_resume flow))
  | disposition fr => exact .began fr flow _ rfl
  | detach fr =>
    refine .quiet _ _ _ quiet_nil (.inr ?_)
    simp only [muxHandleFrame, handleDetach]
    split <;> rfl
  | _ => exact .quiet _ _ _ quiet_nil (.inr (muxLocks_resume flow))

theorem rxDetaching_signals {err : ReceiverError} {unsent : Option PerformDetach}
    (hphase : m.phase = .detaching err unsent) (body : FrameBody) :
    Signals m (.rx body) [] (m.rxDetaching err unsent body) := by
  have hlocks : muxLocks m.phase = false := by rw [hphase]; rfl
  refine .quiet _ _ _ quiet_nil (.inr ?_)
  cases body with
  | detach fr =>
    simp only [ReceiverMux.rxDetaching]
    split
    · split
      · rfl
      · exact hlocks
    · exact hlocks
  | _ => exact hlocks

theorem removeRound_signals {i last : UInt32} {err : Option (AmqpError Value)} {flow : Option PerformFlow}
    (hphase : m.phase = .removing i last err flow) :
    Signals m .removeRound (m.removeRound i last err flow).2 (m.removeRound i last err flow).1 := by
  unfold ReceiverMux.removeRound
  split
  · next hle => exact .round i last err flow _ hphase hle rfl
  · exact .quiet _ _ _ quiet_nil (.inr (muxLocks_resume flow))

theorem step_signals {m' : ReceiverMux} {i : ReceiverInput} (h : m.step i = some (m', events)) :
    Signals m i events m' := by
  cases step_cases h with
  | rx body flow => exact muxHandleFrame_signals m flow body
  | rxDetaching body err unsent hphase => exact rxDetaching_signals hphase body
  | removeRound i last err flow hphase => exact removeRound_signals hphase
  | clear err => exact .cleared err _ rfl
  | receive msg => exact .took msg _ rfl
  | check =>
    refine .quiet _ _ _ quiet_nil (.inr ?_)
    unfold ReceiverMux.check
    split <;> rfl
  | issue =>
    refine .quiet _ _ _ quiet_nil (.inr ?_)
    unfold ReceiverMux.issue
    split <;> rfl
  | flowBits =>
    refine .quiet _ _ _ quiet_nil (.inr ?_)
    unfold ReceiverMux.flowBits
    dsimp only
    split <;> rfl
  | handOverDetach =>
    refine .quiet _ _ _ (quiet_singleton fun _ => rfl) (.inr ?_)
    unfold detachSent
    dsimp only
    split <;> rfl
  | muxFlow | handOver => exact .quiet _ _ _ (quiet_singleton fun _ => rfl) (.inr rfl)
  | endDrain | removeNil => exact .quiet _ _ _ quiet_nil (.inr (muxLocks_resume _))
  | ready | close | sessionDone | sessionDoneDetaching | closeDetached => exact .quiet _ _ _ quiet_nil (.inr rfl)
  | signal | deleteUnsettled | closeLink | issueCredit => exact .quiet _ _ _ quiet_nil (.inl rfl)
  | issueRefused | drainRefused => exact .quiet _ _ _ (quiet_singleton fun _ => rfl) (.inl rfl)
  | issueCheck credits unsettled =>
    unfold ReceiverMux.issueCheck
    split <;> exact .quiet _ _ _ (quiet_singleton fun _ => rfl) (.inl rfl)
  | drainCredit =>
    unfold ReceiverMux.drainCredit
    split <;> exact .quiet _ _ _ (quiet_singleton fun _ => rfl) (.inl rfl)

/-- A call goes on without a value from its channel. -/
structure Moves (s : ReceiverLink) (p p' : CallPhase) : Prop where
  before : p = .sending ∨ p = .waiting
  after : p' = s.sent ∨ ∃ e, p' = .returned (some e)

/-- What a step does, by what it needs. -/
inductive Effect (s : ReceiverLink) : SettleInput → List ReceiverEvent → ReceiverLink → Prop
  | mux (i : ReceiverInput) (events : List ReceiverEvent) (m : ReceiverMux) : s.admits i = true →
      s.mux.step i = some (m, events) → (muxLocks m.phase = true → batcherLocks s.batcherPhase = false) →
      Effect s (.mux i) events (events.foldl handle { s with mux := m })
  | entered (n k : Nat) (m : Message) (state : DeliveryState Value) : s.calls n = none → s.held[k]? = some m →
      Effect s (.settle n k state) [] (s.enter n k m state)
  | registered (n : Nat) (c : SettleCall) : s.calls n = some c → c.phase = .entered →
      muxLocks s.mux.phase = false → batcherLocks s.batcherPhase = false →
      Effect s (.register n) [] (s.register n c)
  | moved (i : SettleInput) (events : List ReceiverEvent) (n : Nat) (c : SettleCall) (phase : CallPhase)
      (dispositions : List (UInt32 × DeliveryState Value)) : s.calls n = some c → Moves s c.phase phase →
      Effect s i events { s.setCall n { c with phase := phase } with dispositions := dispositions }
  | completed (n : Nat) (c : SettleCall) (err : Option SettleError) : s.calls n = some c → c.phase = .waiting →
      c.wait = some err → Effect s (.complete n) [] (s.completed n c err)
  | batched (i : SettleInput) (j : BatchInput) (dispositions : List (UInt32 × DeliveryState Value))
      (batcher : Batcher) (frames : List SendDisposition) :
      s.batcher.step s.mux.maxCredit j = some (batcher, frames) →
      Effect s i [] { s with dispositions := dispositions, batcher := batcher, batcherPhase := .after frames }
  | fired : s.batcher.running = true → Effect s .fire [] { s with batcher := s.batcher.fire }
  | batcherMoved (i : SettleInput) (events : List ReceiverEvent) (phase : BatcherPhase) : batcherLocks phase = false →
      Effect s i events { s with batcherPhase := phase }
  | failed (connected : Bool) (x : SendDisposition) (todo : List SendDisposition) (e : SettleError) :
      s.batcherPhase = .sending (x :: todo) → s.sendError connected = some e → muxLocks s.mux.phase = false →
      Effect s (.batchSend connected) []
        { s with batcherPhase := .removing x.first (x.last.getD x.first) e todo }
  | removed (i last : UInt32) (e : SettleError) (todo : List SendDisposition) :
      s.batcherPhase = .removing i last e todo → i ≤ last →
      Effect s .batchRound [] { s.removeID i (some e) with batcherPhase := .removing (i + 1) last e todo }

theorem batcherLocks_after (todo : List SendDisposition) : batcherLocks (.after todo) = false := by
  cases todo <;> rfl

/-- A call that sends or queues its disposition. -/
theorem Effect.sends (hcall : s.calls n = some c) (hphase : c.phase = .sending) (i : SettleInput)
    (events : List ReceiverEvent) {phase : CallPhase} (hafter : phase = s.sent ∨ ∃ e, phase = .returned (some e)) :
    Effect s i events (s.setCall n { c with phase := phase }) :=
  .moved i events n c phase s.dispositions hcall ⟨.inl hphase, hafter⟩

theorem queue_effect (hcall : s.calls n = some c) (h : s.queue n c = some (s', events)) :
    Effect s (.queue n) events s' := by
  unfold queue at h
  split at h
  · next hphase =>
    split at h
    · cases h
      exact .moved _ _ n c _ _ hcall ⟨.inl hphase, .inl rfl⟩
    · cases h
  · cases h

theorem queueDetached_effect (hcall : s.calls n = some c) (h : s.queueDetached n c = some (s', events)) :
    Effect s (.queueDetached n) events s' := by
  unfold queueDetached at h
  split at h
  · next err hphase _ =>
    split at h
    · cases h
      exact .sends hcall hphase _ _ (.inr ⟨_, rfl⟩)
    · cases h
  · cases h

theorem send_effect {connected : Bool} (hcall : s.calls n = some c)
    (h : s.send n connected c = some (s', events)) : Effect s (.send n connected) events s' := by
  unfold send at h
  split at h
  · next hphase =>
    split at h
    · cases h
    · split at h
      · cases h
        exact .sends hcall hphase _ _ (.inr ⟨_, rfl⟩)
      · cases h
        exact .sends hcall hphase _ _ (.inl rfl)
  · cases h

theorem batchSend_effect {connected : Bool} (h : s.batchSend connected = some (s', events)) :
    Effect s (.batchSend connected) events s' := by
  unfold batchSend at h
  split at h
  · next x todo hphase =>
    split at h
    · cases h
      exact .batcherMoved _ _ _ (batcherLocks_after todo)
    · next e herror =>
      split at h
      · cases h
      · next hlocks =>
        cases h
        exact .failed connected x todo e hphase herror (by simpa using hlocks)
  · cases h

theorem batchRound_effect (h : s.batchRound = some (s', events)) : Effect s .batchRound events s' := by
  unfold batchRound at h
  split at h
  · next i last e todo hphase =>
    split at h
    · next hround =>
      cases h
      exact .removed i last e todo hphase hround.2
    · cases h
      exact .batcherMoved _ _ _ (batcherLocks_after todo)
  · cases h

/-- **Step inversion.** -/
theorem step_effect {i : SettleInput} (h : s.step i = some (s', events)) : Effect s i events s' := by
  cases i with
  | mux i =>
    simp only [step, muxStep] at h
    split at h
    · next hadmits =>
      split at h
      · next m events hstep =>
        split at h
        · cases h
        · next hlocks =>
          cases h
          refine .mux i events m hadmits hstep ?_
          intro hm
          rw [hm] at hlocks
          simpa using hlocks
      · cases h
    · cases h
  | settle n k state =>
    simp only [step] at h
    split at h
    · next m hcall hheld => cases h; exact .entered n k m state hcall hheld
    · cases h
  | register n =>
    obtain ⟨c, hcall, h⟩ := Option.bind_eq_some_iff.mp h
    split at h
    · next hphase =>
      split at h
      · cases h
      · next hlocks =>
        cases h
        simp only [Bool.or_eq_true, not_or, Bool.not_eq_true] at hlocks
        exact .registered n c hcall hphase hlocks.1 hlocks.2
    · cases h
  | queue n =>
    obtain ⟨c, hcall, h⟩ := Option.bind_eq_some_iff.mp h
    exact queue_effect hcall h
  | queueDetached n =>
    obtain ⟨c, hcall, h⟩ := Option.bind_eq_some_iff.mp h
    exact queueDetached_effect hcall h
  | send n connected =>
    obtain ⟨c, hcall, h⟩ := Option.bind_eq_some_iff.mp h
    exact send_effect hcall h
  | complete n =>
    obtain ⟨c, hcall, h⟩ := Option.bind_eq_some_iff.mp h
    unfold complete at h
    split at h
    · next err hphase hwait => cases h; exact .completed n c err hcall hphase hwait
    · cases h
  | cancel n =>
    obtain ⟨c, hcall, h⟩ := Option.bind_eq_some_iff.mp h
    unfold cancel at h
    split at h
    · next hphase =>
      cases h
      exact .moved _ _ n c _ s.dispositions hcall ⟨.inr hphase, .inr ⟨_, rfl⟩⟩
    · cases h
  | batch =>
    simp only [step] at h
    split at h
    · next id state dispositions _ _ =>
      cases h
      exact .batched _ (.submit id state) dispositions _ _ rfl
    · cases h
  | fire =>
    simp only [step] at h
    split at h
    · next hrunning =>
      cases h
      exact .fired hrunning
    · cases h
  | expire =>
    simp only [step] at h
    split at h
    · split at h
      · next hfired =>
        cases h
        exact .batched _ .expire s.dispositions _ _ (if_pos hfired)
      · cases h
    · cases h
  | batchSend connected => exact batchSend_effect h
  | batchRound => exact batchRound_effect h
  | batchExit =>
    simp only [step] at h
    split at h
    · cases h
      exact .batcherMoved _ _ _ rfl
    · cases h

/-! ## What a step does to the mux -/

theorem removeID_frame (s : ReceiverLink) (id : UInt32) (err : Option SettleError) :
    (s.removeID id err).settled = s.settled ∧ (s.removeID id err).mux = s.mux ∧
      (s.removeID id err).held = s.held := by
  unfold removeID
  split <;> exact ⟨rfl, rfl, rfl⟩

theorem handle_mux (s : ReceiverLink) (e : ReceiverEvent) : (s.handle e).mux = s.mux := by
  cases e with
  | remove id err =>
    obtain ⟨-, hmux, -⟩ := removeID_frame s id (err.map .rejected)
    exact hmux
  | _ => rfl

theorem foldl_handle_mux (events : List ReceiverEvent) (s : ReceiverLink) : (events.foldl handle s).mux = s.mux := by
  induction events generalizing s with
  | nil => rfl
  | cons e events ih => rw [List.foldl_cons, ih, handle_mux]

/-- The mux takes a step, or stays as it is. -/
theorem step_mux {i : SettleInput} (h : s.step i = some (s', events)) :
    s'.mux = s.mux ∨ ∃ j events', s.mux.step j = some (s'.mux, events') ∧ (j = .clear → i = .mux .clear) := by
  cases step_effect h with
  | mux j _ m _ hstep _ =>
    rw [foldl_handle_mux]
    exact .inr ⟨j, events, hstep, by rintro rfl; rfl⟩
  | completed n c err =>
    -- the call takes its message out of the unsettled ones
    exact .inr ⟨.deleteUnsettled c.message.tag, [], rfl, by rintro ⟨⟩⟩
  | removed id last e todo =>
    obtain ⟨-, hmux, -⟩ := removeID_frame s id (some e)
    exact .inl hmux
  | entered | registered | moved | batched | fired | batcherMoved | failed => exact .inl rfl

end ReceiverLink

end GoAmqp
