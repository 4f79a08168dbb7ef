import GoAmqp.Link.Delivery
import GoAmqp.Lib.Transition

set_option autoImplicit false

/-! # Reassembly after errors

`muxReceive` as a transition system that goes on after an error: `muxDetach` passes the transfers that
still arrive to `muxReceive` and drops what it returns. The peer's transfers form deliveries by
themselves, each ending with a transfer that has no more to follow or is aborted. `muxReceive` keeps in
step with them unless it refuses a transfer that its own state makes part of another delivery, or
leaves the bytes of a message it could not decode in its buffer. -/

namespace GoAmqp

open Lib Buffer

namespace Receiver

/-- One call of `muxReceive`, whether it returns an error or not. -/
def passTransfer (r : Receiver) (fr : PerformTransfer) : Option (Receiver × List DetachError) :=
  some ((r.muxReceive fr).1, (r.muxReceive fr).2.toList)

/-- A transfer with the error that handling it gave, if any. -/
abbrev Passed := PerformTransfer × List DetachError

variable {r r' : Receiver} {d : List PerformTransfer} {fr : PerformTransfer} {trace : List Passed}

/-! ## The deliveries of a sequence of transfers -/

/-- The last transfer of a delivery. -/
def endsDelivery (fr : PerformTransfer) : Bool := fr.aborted || !fr.more

/-- The transfers of the delivery that is under way after the transfers passed. -/
def current : List Passed → List PerformTransfer
  | [] => []
  | l :: trace => if endsDelivery l.1 then [] else current trace ++ [l.1]

/-- The deliveries that have ended, each with all its transfers. -/
def deliveries : List Passed → List (List PerformTransfer)
  | [] => []
  | l :: trace => if endsDelivery l.1 then deliveries trace ++ [current trace ++ [l.1]] else deliveries trace

/-- The payloads, one behind the other. -/
def payloads (d : List PerformTransfer) : Bytes := d.flatMap (·.payload)

/-- What the transfers of a delivery say about its message besides the sections. -/
def heading (d : List PerformTransfer) : Message := { Message.zero with
  deliveryID := (d.head?.bind (·.deliveryID)).getD 0
  format := (d.head?.bind (·.messageFormat)).getD 0
  deliveryTag := d.head?.bind (·.deliveryTag)
  settled := d.any (·.settled) }

/-- The message of a delivery: its payloads decoded into a zero message. -/
def messageOf (d : List PerformTransfer) : Option Message :=
  if d.any (·.aborted) then none
  else (decodeSections (payloads d)).map fun sections => { heading d with toSections := sections }

/-! ## When a transfer keeps the receiver in step -/

/-- A transfer that `muxReceive` takes for the first of a message is refused. -/
def refusesFirst (r : Receiver) (fr : PerformTransfer) : Bool :=
  fr.deliveryID.isNone || fr.messageFormat.isNone || fr.deliveryTag.isNone
    || (!fr.aborted && r.tooLarge fr.payload.length)

/-- A transfer that `muxReceive` takes for a continuation is refused. -/
def refusesContinuation (r : Receiver) (fr : PerformTransfer) : Bool :=
  inconsistent fr.deliveryID r.msg.deliveryID || inconsistent fr.messageFormat r.msg.format
    || inconsistent fr.deliveryTag (r.msg.deliveryTag.getD [])
    || (!fr.aborted && r.tooLarge fr.payload.length)

/-- Conditions on a transfer and the receiver it is passed to. -/
structure InStep (trace : List Passed) (r : Receiver) (l : Passed) : Prop where
  /-- a continuation is not refused -/
  continuation : r.more = true → r.refusesContinuation l.1 = false
  /-- what follows a refused first transfer of the same delivery is refused as well, or ends it -/
  resumed : r.more = false → current trace ≠ [] → r.refusesFirst l.1 = true ∨ l.1.aborted = true
  /-- a message that is complete can be decoded -/
  decodes : l.1.aborted = false → l.1.more = false →
    (if r.more then r.refusesContinuation l.1 else r.refusesFirst l.1) = false →
    (decodeSections (r.msgBuf.unread ++ l.1.payload)).isSome = true

/-! ## Where the receiver stands -/

/-- The receiver holds the transfers `d` of a message. -/
structure Inside (d : List PerformTransfer) (r : Receiver) : Prop where
  more : r.more = true
  msg : r.msg = heading d
  msgBuf : r.msgBuf = .new (payloads d)
  unaborted : d.any (·.aborted) = false

/-- The receiver holds nothing of a message; the fields recorded from a refused first transfer are
    overwritten by the next one. -/
structure Outside (r : Receiver) : Prop where
  more : r.more = false
  msg : ∃ id format tag, r.msg = { Message.zero with deliveryID := id, format := format, deliveryTag := tag }
  msgBuf : r.msgBuf = .new []

/-- What a call can do with a transfer that it does not refuse, after the transfers `d` of its message. -/
inductive Outcome (d : List PerformTransfer) (fr : PerformTransfer) (r r' : Receiver) : Prop
  | buffered : endsDelivery fr = false → r'.Inside (d ++ [fr]) → r'.messages = r.messages → Outcome d fr r r'
  | dropped : fr.aborted = true → r'.Outside → r'.messages = r.messages → Outcome d fr r r'
  | delivered (m : Message) : endsDelivery fr = true → messageOf (d ++ [fr]) = some m → r'.Outside →
      r'.messages = r.messages ++ [m] → Outcome d fr r r'

theorem payloads_append (d : List PerformTransfer) (fr : PerformTransfer) :
    payloads (d ++ [fr]) = payloads d ++ fr.payload := by
  simp [payloads]

theorem outside_zero (hmore : r.more = false) (hmsg : r.msg = .zero) (hbuf : r.msgBuf = .new []) : r.Outside :=
  ⟨hmore, ⟨0, 0, none, hmsg⟩, hbuf⟩

theorem decodeMessage_delivered (hdetached : r.detached = none) (hmore : r.more = false)
    (hmsg : r.msg = heading d) (hbuf : r.msgBuf = .new (payloads d)) (haborted : d.any (·.aborted) = false)
    (hdecodes : (decodeSections (payloads d)).isSome = true) :
    ∃ m, messageOf d = some m ∧ r.decodeMessage.1.Outside ∧ r.decodeMessage.1.messages = r.messages ++ [m] := by
  obtain ⟨sections, hsections⟩ := Option.isSome_iff_exists.mp hdecodes
  obtain ⟨buf, hrun⟩ := run_unmarshal (m := heading d) rfl hsections
  refine ⟨{ heading d with toSections := sections }, by simp [messageOf, haborted, hsections], ?_⟩
  rw [decodeMessage, hmsg, hbuf, hrun]
  dsimp only
  rw [deliver_of_attached (by exact hdetached) (by exact hmore)]
  exact ⟨outside_zero rfl rfl rfl, rfl⟩

/-- A transfer that passes the checks. -/
theorem acceptTransfer_outcome (hdetached : r.detached = none)
    (hmsg : ({ r.msg with settled := r.msg.settled || fr.settled } : Message) = heading (d ++ [fr]))
    (hbuf : r.msgBuf = .new (payloads d)) (haborted : d.any (·.aborted) = false)
    (hfits : (!fr.aborted && r.tooLarge fr.payload.length) = false)
    (hdecodes : fr.aborted = false → fr.more = false → (decodeSections (payloads d ++ fr.payload)).isSome = true) :
    Outcome d fr r (r.acceptTransfer fr).1 := by
  have hbuf' : r.msgBuf.append fr.payload = .new (payloads (d ++ [fr])) := by
    rw [hbuf, payloads_append]
    rfl
  unfold acceptTransfer
  cases hab : fr.aborted with
  | true => exact .dropped hab (outside_zero rfl rfl rfl) rfl
  | false =>
    have hunaborted : (d ++ [fr]).any (·.aborted) = false := by simp [haborted, hab]
    have htooLarge : r.tooLarge fr.payload.length = false := by simpa [hab] using hfits
    simp only [htooLarge, Bool.false_eq_true, if_false]
    cases hmore : fr.more with
    | true => exact .buffered (by simp [endsDelivery, hab, hmore]) ⟨hmore, hmsg, hbuf', hunaborted⟩ rfl
    | false =>
      have hcalled : (r.takePayload fr).detached = none := hdetached
      rw [← payloads_append] at hdecodes
      obtain ⟨m, hm, hout, hmessages⟩ :=
        decodeMessage_delivered hcalled hmore hmsg hbuf' hunaborted (hdecodes hab hmore)
      exact .delivered m (by simp [endsDelivery, hmore]) hm hout hmessages

/-- A continuation that is not refused. -/
theorem muxReceive_inside (h : r.Inside d) (hd : d ≠ []) (hdetached : r.detached = none)
    (haccepted : r.refusesContinuation fr = false)
    (hdecodes : fr.aborted = false → fr.more = false → (decodeSections (payloads d ++ fr.payload)).isSome = true) :
    Outcome d fr r (r.muxReceive fr).1 := by
  simp only [refusesContinuation, Bool.or_eq_false_iff] at haccepted
  obtain ⟨⟨⟨hid, hformat⟩, htag⟩, hfits⟩ := haccepted
  have hcheck : r.checkContinuation fr = (r, none) := by
    simp [checkContinuation, hid, hformat, htag]
  have hmsg : ({ r.msg with settled := r.msg.settled || fr.settled } : Message) = heading (d ++ [fr]) := by
    rw [h.msg]
    cases d with
    | nil => exact absurd rfl hd
    | cons first rest => simp [heading, Bool.or_assoc]
  rw [muxReceive, h.more, if_pos rfl, hcheck]
  exact acceptTransfer_outcome hdetached hmsg h.msgBuf h.unaborted hfits hdecodes

/-- The receiver with the fields of a first transfer recorded. -/
def recordFirst (r : Receiver) (fr : PerformTransfer) : Receiver := { r with msg := { r.msg with
  deliveryID := fr.deliveryID.getD r.msg.deliveryID
  format := fr.messageFormat.getD r.msg.format
  deliveryTag := fr.deliveryTag } }

theorem Outside.recordFirst (h : r.Outside) (fr : PerformTransfer) : (r.recordFirst fr).Outside := by
  obtain ⟨id, format, tag, hmsg⟩ := h.msg
  refine ⟨h.more, ⟨fr.deliveryID.getD id, fr.messageFormat.getD format, fr.deliveryTag, ?_⟩, h.msgBuf⟩
  rw [Receiver.recordFirst, hmsg]

/-- A first transfer that is not refused. -/
theorem muxReceive_outside (h : r.Outside) (hdetached : r.detached = none) (haccepted : r.refusesFirst fr = false)
    (hdecodes : fr.aborted = false → fr.more = false → (decodeSections fr.payload).isSome = true) :
    Outcome [] fr r (r.muxReceive fr).1 := by
  simp only [refusesFirst, Bool.or_eq_false_iff, Option.isNone_eq_false_iff] at haccepted
  obtain ⟨⟨⟨hid, hformat⟩, htag⟩, hfits⟩ := haccepted
  obtain ⟨id, hid⟩ := Option.isSome_iff_exists.mp hid
  obtain ⟨format, hformat⟩ := Option.isSome_iff_exists.mp hformat
  obtain ⟨tag, htag⟩ := Option.isSome_iff_exists.mp htag
  obtain ⟨_, _, _, hmsg⟩ := h.msg
  have hcheck : r.checkFirst fr = (r.recordFirst fr, none) := by
    simp [checkFirst, recordFirst, hid, hformat, htag]
  have hrecorded : ({ (r.recordFirst fr).msg with
      settled := (r.recordFirst fr).msg.settled || fr.settled } : Message) = heading [fr] := by
    simp [Receiver.recordFirst, hmsg, heading, hid, hformat, htag, Message.zero]
  rw [muxReceive, h.more, if_neg Bool.false_ne_true, hcheck]
  have houtcome := acceptTransfer_outcome (r := r.recordFirst fr) (d := []) hdetached hrecorded h.msgBuf rfl
    hfits hdecodes
  cases houtcome with
  | buffered hends hinside hmessages => exact .buffered hends hinside hmessages
  | dropped hab hout hmessages => exact .dropped hab hout hmessages
  | delivered m hends hm hout hmessages => exact .delivered m hends hm hout hmessages

/-- A first transfer that is refused leaves nothing behind but its id, format and tag. -/
theorem muxReceive_refused (h : r.Outside) (hrefused : r.refusesFirst fr = true) :
    (r.muxReceive fr).1.Outside ∧ (r.muxReceive fr).1.messages = r.messages := by
  have hclosed : ∀ condition description, ((r.recordFirst fr).closeWithError condition description).1.Outside ∧
      ((r.recordFirst fr).closeWithError condition description).1.messages = r.messages :=
    fun _ _ => ⟨{ h.recordFirst fr with }, rfl⟩
  rw [muxReceive, h.more, if_neg Bool.false_ne_true]
  by_cases hid : fr.deliveryID.isNone = true
  · simp only [checkFirst, hid, if_true]
    exact hclosed _ _
  by_cases hformat : fr.messageFormat.isNone = true
  · simp only [checkFirst, hid, hformat, Bool.false_eq_true, if_true, if_false]
    exact hclosed _ _
  by_cases htag : fr.deliveryTag.isNone = true
  · simp only [checkFirst, hid, hformat, htag, Bool.false_eq_true, if_true, if_false]
    exact hclosed _ _
  have hcheck : r.checkFirst fr = (r.recordFirst fr, none) := by
    simp only [checkFirst, hid, hformat, htag, Bool.false_eq_true, if_false]
    rfl
  simp only [refusesFirst, hid, hformat, htag, Bool.false_or, Bool.and_eq_true, Bool.not_eq_true'] at hrefused
  have htooLarge : (r.recordFirst fr).tooLarge fr.payload.length = true := hrefused.2
  rw [hcheck]
  simp only [acceptTransfer, hrefused.1, htooLarge, Bool.false_eq_true, if_true, if_false]
  exact hclosed _ _

/-! ## Runs -/

/-- The receiver is in step with the peer, and has delivered whole deliveries only, in their order. -/
structure Whole (trace : List Passed) (r : Receiver) : Prop where
  detached : r.detached = none
  position : (r.Inside (current trace) ∧ current trace ≠ []) ∨ r.Outside
  messages : r.messages.Sublist ((deliveries trace).filterMap messageOf)

theorem sublist_deliveries (l : Passed) (trace : List Passed) :
    ((deliveries trace).filterMap messageOf).Sublist ((deliveries (l :: trace)).filterMap messageOf) := by
  rw [deliveries]
  split
  · rw [List.filterMap_append]
    exact List.sublist_append_left _ _
  · exact List.Sublist.refl _

/-- A call that delivers nothing. -/
theorem Whole.kept (h : Whole trace r) (l : Passed) (hdetached : r'.detached = none)
    (hmessages : r'.messages = r.messages)
    (hposition : (r'.Inside (current (l :: trace)) ∧ current (l :: trace) ≠ []) ∨ r'.Outside) :
    Whole (l :: trace) r' := by
  refine ⟨hdetached, hposition, ?_⟩
  rw [hmessages]
  exact h.messages.trans (sublist_deliveries l trace)

/-- A call that takes its transfer. -/
theorem Whole.outcome (h : Whole trace r) (errs : List DetachError) (hdetached : r'.detached = none)
    (hd : fr.aborted = false → d = current trace) (houtcome : Outcome d fr r r') :
    Whole ((fr, errs) :: trace) r' := by
  cases houtcome with
  | buffered hends hinside hmessages =>
    have hab : fr.aborted = false := by
      simp only [endsDelivery, Bool.or_eq_false_iff] at hends
      exact hends.1
    have hcurrent : current ((fr, errs) :: trace) = d ++ [fr] := by
      simp [current, hends, hd hab]
    refine h.kept _ hdetached hmessages (.inl ⟨hcurrent ▸ hinside, ?_⟩)
    simp [hcurrent]
  | dropped _ hout hmessages => exact h.kept _ hdetached hmessages (.inr hout)
  | delivered m hends hm hout hmessages =>
    have hab : fr.aborted = false := by
      by_contra hne
      simp [messageOf, hne] at hm
    have hdeliveries : deliveries ((fr, errs) :: trace) = deliveries trace ++ [d ++ [fr]] := by
      simp [deliveries, hends, hd hab]
    refine ⟨hdetached, .inr hout, ?_⟩
    rw [hmessages, hdeliveries, List.filterMap_append]
    simp only [List.filterMap_cons, hm, List.filterMap_nil]
    exact h.messages.append (List.Sublist.refl _)

theorem Whole.step {l : Passed} (h : Whole trace r) (hstep : Fires passTransfer r l r')
    (hguard : InStep trace r l) : Whole (l :: trace) r' := by
  obtain ⟨fr, errs⟩ := l
  obtain ⟨rfl, -⟩ := Prod.mk.inj (Option.some.inj hstep)
  have hdetached := muxReceive_detached h.detached fr
  rcases h.position with ⟨hinside, hne⟩ | hout
  · have haccepted := hguard.continuation hinside.more
    refine h.outcome errs hdetached (fun _ => rfl) (muxReceive_inside hinside hne h.detached haccepted ?_)
    intro hab hlast
    have hdecodes := hguard.decodes hab hlast (by rw [hinside.more]; exact haccepted)
    rwa [hinside.msgBuf] at hdecodes
  · cases hrefused : r.refusesFirst fr with
    | true =>
      obtain ⟨hout', hmessages⟩ := muxReceive_refused hout hrefused
      exact h.kept _ hdetached hmessages (.inr hout')
    | false =>
      -- an aborted transfer is dropped whatever came before it
      have hcurrent : fr.aborted = false → [] = current trace := by
        intro hab
        by_contra hne
        rcases hguard.resumed hout.more (Ne.symm hne) with h | h
        · exact absurd h (by simp [hrefused])
        · exact absurd h (by simp [hab])
      refine h.outcome errs hdetached hcurrent (muxReceive_outside hout h.detached hrefused ?_)
      intro hab hlast
      have hdecodes := hguard.decodes hab hlast (by rw [hout.more]; exact hrefused)
      rwa [hout.msgBuf] at hdecodes

end Receiver

open Receiver

/-- **Reassembly keeps deliveries apart.** In every run from a clean receiver in which no continuation
    is refused, what follows a refused first transfer in its delivery is refused or aborted, and
    complete messages decode, the messages put on the channel are messages of whole deliveries, each
    of another delivery and in their order. -/
theorem messages_of_deliveries (r : Receiver) (hclean : r.Clean) (hdetached : r.detached = none)
    (hempty : r.messages = []) {trace : List Passed} {r' : Receiver}
    (hrun : RunIf (Fires passTransfer) Receiver.InStep r trace r') :
    r'.messages.Sublist ((deliveries trace).filterMap messageOf) := by
  have hstart : Whole [] r := ⟨hdetached, .inr (outside_zero hclean.more hclean.msg hclean.msgBuf), by simp [hempty]⟩
  have hwhole : Whole trace r' :=
    hrun.invariant (P := fun trace (r : Receiver) => Whole trace r) hstart
      (fun _ _ _ _ h hstep hguard => h.step hstep hguard)
  exact hwhole.messages

namespace Receiver

/-- A receiver of a link with the given limit, after its attach. -/
def attached (maxMessageSize : UInt64) : Receiver where
  maxMessageSize := maxMessageSize
  receiverSettleMode := none
  deliveryCount := 0
  availableCredit := 1
  detached := none
  detachError := none
  messages := []
  unsettledMessages := []
  msgBuf := .new []
  more := false
  msg := .zero

/-- The first of the transfers of a message. -/
def firstOf (deliveryID : UInt32) (more : Bool) (payload : Bytes) : PerformTransfer :=
  { PerformTransfer.zero with
    deliveryID := some deliveryID, deliveryTag := some [0x61], messageFormat := some 0
    more := more, payload := payload }

/-- A later one. -/
def laterOf (more : Bool) (payload : Bytes) : PerformTransfer :=
  { PerformTransfer.zero with more := more, payload := payload }

/-- The data section of one byte. -/
def dataSection : Bytes := [0x00, 0x53, 0x75, 0xa0, 0x01, 0x61]

end Receiver

/-- A delivery that is aborted after its first transfer, and one that is received. -/
theorem messages_of_deliveries_two :
    ∃ (trace : List Passed) (r' : Receiver), (r'.messages.map (·.data)) = [[[0x61]]] ∧
      r'.messages.Sublist ((deliveries trace).filterMap messageOf) := by
  have hstart : RunIf (Fires passTransfer) Receiver.InStep (.attached 10) [] (.attached 10) := .start
  have hfirst := hstart.fire (firstOf 1 true dataSection) rfl
    ⟨fun h => absurd h (by decide), fun _ h => absurd rfl h, fun _ h => absurd h (by decide)⟩
  have haborted := hfirst.fire { laterOf false [] with aborted := true } rfl
    ⟨fun _ => by decide, fun h => absurd h (by decide), fun h => absurd h (by decide)⟩
  have hsecond := haborted.fire (firstOf 2 false dataSection) rfl
    ⟨fun h => absurd h (by decide), fun _ h => absurd rfl h, fun _ _ _ => by decide +kernel⟩
  exact ⟨_, _, by decide +kernel, messages_of_deliveries (.attached 10) ⟨rfl, rfl, rfl⟩ rfl rfl hsecond⟩

/-- The second of three transfers is refused because the message gets too large, and the third is
    added to the first: the message that is delivered lacks the second data section. -/
theorem message_truncated :
    ∃ (trace : List Passed) (r' : Receiver), Run (Fires passTransfer) (.attached 10) trace r' ∧
      trace.reverse.map Prod.fst = [firstOf 1 true dataSection,
        laterOf true [0x00, 0x53, 0x75, 0xa0, 0x00], laterOf false [0x00, 0x53, 0x77, 0x40]] ∧
      r'.messages.map (·.data) = [[[0x61]]] ∧
      (deliveries trace).map (fun d => (messageOf d).map (·.data)) = [some [[0x61], []]] := by
  refine ⟨_, _, .of_exec [firstOf 1 true dataSection,
    laterOf true [0x00, 0x53, 0x75, 0xa0, 0x00], laterOf false [0x00, 0x53, 0x77, 0x40]]
    .start rfl, rfl, ?_, ?_⟩
  · decide +kernel
  · decide +kernel

end GoAmqp
