import GoAmqp.Link.CreditExchange
import Mathlib.Data.List.Perm.Subperm

set_option autoImplicit false

/-! # The channel of messages of a receiver

`muxReceive` puts a complete message on `r.messages`, whose capacity is the maximum credit, and waits
if the channel is full. In mode second a message stays unsettled at least until the application has
received it, so that the credit given and the messages in the channel together stay within the
maximum, as long as the tags of the peer's deliveries are distinct: the map of unsettled messages counts
tags. In mode first nothing is unsettled, and a flow frame gives the whole maximum, whatever the channel
holds.

The peer's transfers need not be well formed, so that the receiver may lose track of where a delivery
begins. `Fresh` says what it keeps nevertheless: no message that it may still complete has the tag of
one that it has completed. -/

namespace GoAmqp

open Lib Receiver List

/-! ## Distinct delivery tags -/

/-- Where the peer's transfers stand: the tags of the deliveries that are started, and the tag of the one
    under way. -/
structure Stream where
  used : List Bytes
  current : Option Bytes

namespace Stream

/-- The tag of the delivery under way after one of its transfers. -/
def openTag (fr : PerformTransfer) (tag : Bytes) : Option Bytes :=
  if fr.more && !fr.aborted then some tag else none

/-- Every delivery has a new tag, which its first transfer gives and its later ones may repeat. -/
inductive Sends (t : Stream) : FrameBody → Stream → Prop
  | first (fr : PerformTransfer) (tag : Bytes) : t.current = none → fr.deliveryTag = some tag → tag ∉ t.used →
      Sends t (.transfer fr) ⟨tag :: t.used, openTag fr tag⟩
  | later (fr : PerformTransfer) (tag : Bytes) : t.current = some tag →
      (∀ tag', fr.deliveryTag = some tag' → tag' = tag) → Sends t (.transfer fr) ⟨t.used, openTag fr tag⟩
  | other (body : FrameBody) : CreditExchange.isTransfer body = false → Sends t body t

/-- A receiver that has completed the messages with the tags in `done`, before the next transfer. -/
structure Fresh (t : Stream) (done : List Bytes) (r : Receiver) : Prop where
  started : ∀ tag ∈ done, tag ∈ t.used
  current : ∀ tag, t.current = some tag → tag ∈ t.used ∧ tag ∉ done
  underWay : r.more = true → ∃ tag, r.msg.deliveryTag = some tag ∧ tag ∈ t.used ∧ tag ∉ done

section

variable {t t' : Stream} {done : List Bytes} {r r' : Receiver} {body : FrameBody} {fr : PerformTransfer}

theorem openTag_eq {tag tag' : Bytes} (h : openTag fr tag = some tag') : tag' = tag := by
  unfold openTag at h
  split at h
  · exact (Option.some.inj h).symm
  · cases h

theorem Sends.used_mono (h : Sends t body t') : ∀ tag ∈ t.used, tag ∈ t'.used := by
  intro tag htag
  cases h with
  | first => exact mem_cons_of_mem _ htag
  | later => exact htag
  | other => exact htag

/-- The delivery under way after a frame is not among the completed ones. -/
theorem Fresh.current_sends (h : Fresh t done r) (hsends : Sends t body t') :
    ∀ tag, t'.current = some tag → tag ∈ t'.used ∧ tag ∉ done := by
  intro tag htag
  cases hsends with
  | first fr new _ _ hnew =>
    rw [openTag_eq htag]
    exact ⟨mem_cons_self .., fun hdone => hnew (h.started new hdone)⟩
  | later fr old hold _ =>
    rw [openTag_eq htag]
    exact h.current old hold
  | other => exact h.current tag htag

/-- A frame is taken, and the receiver's message under way stays as it is. -/
theorem Fresh.skip (h : Fresh t done r) (hsends : Sends t body t') (hmore : r'.more = r.more)
    (hmsg : r'.msg = r.msg) : Fresh t' done r' := by
  refine ⟨fun tag htag => hsends.used_mono tag (h.started tag htag), h.current_sends hsends, ?_⟩
  rw [hmore, hmsg]
  intro hunderWay
  obtain ⟨tag, hmsg, hused, hdone⟩ := h.underWay hunderWay
  exact ⟨tag, hmsg, hsends.used_mono tag hused, hdone⟩

/-- The message of a transfer has a tag that none of the completed ones has. -/
theorem Fresh.belongs (h : Fresh t done r) (hsends : Sends t (.transfer fr) t') {m : Message}
    (hm : r.Belongs fr m) : ∃ tag, m.deliveryTag = some tag ∧ tag ∈ t'.used ∧ tag ∉ done := by
  rw [hm.tag, tagFor]
  cases hmore : r.more with
  | true =>
    obtain ⟨tag, hmsg, hused, hdone⟩ := h.underWay hmore
    exact ⟨tag, hmsg, hsends.used_mono tag hused, hdone⟩
  | false =>
    obtain ⟨tag, htag⟩ := Option.isSome_iff_exists.mp (hm.first hmore)
    refine ⟨tag, htag, ?_⟩
    cases hsends with
    | first _ new _ hfirst hnew =>
      rw [htag] at hfirst
      cases hfirst
      exact ⟨mem_cons_self .., fun hdone => hnew (h.started tag hdone)⟩
    | later _ old hold hlater =>
      rw [hlater tag htag]
      exact h.current old hold
    | other _ hbody => cases hbody

/-- A transfer that completes no message. -/
theorem Fresh.kept (h : Fresh t done r) (hsends : Sends t (.transfer fr) t')
    (hbelongs : r'.more = true → r.Belongs fr r'.msg) : Fresh t' done r' :=
  ⟨fun tag htag => hsends.used_mono tag (h.started tag htag), h.current_sends hsends,
    fun hmore => h.belongs hsends (hbelongs hmore)⟩

/-- A transfer that completes a message, whose tag is new. -/
theorem Fresh.received (h : Fresh t done r) (hsends : Sends t (.transfer fr) t') {m : Message}
    (hmore : fr.more = false) (hbelongs : r.Belongs fr m) :
    m.tag ∉ done ∧ Fresh t' (done ++ [m.tag]) (r.received m) := by
  obtain ⟨tag, htag, hused, hdone⟩ := h.belongs hsends hbelongs
  have hm : m.tag = tag := by rw [Message.tag, htag, Option.getD_some]
  have hclosed : t'.current = none := by
    cases hsends with
    | first => simp [openTag, hmore]
    | later => simp [openTag, hmore]
    | other _ hbody => cases hbody
  rw [hm]
  refine ⟨hdone, ?_, ?_, fun hunderWay => by cases hunderWay⟩
  · intro tag' htag'
    rcases mem_append.mp htag' with hold | hnew
    · exact hsends.used_mono tag' (h.started tag' hold)
    · rwa [mem_singleton.mp hnew]
  · intro tag' htag'
    rw [hclosed] at htag'
    cases htag'

theorem Fresh.congr {done' : List Bytes} (h : Fresh t done r) (hdone : ∀ tag, tag ∈ done' ↔ tag ∈ done)
    (hmore : r'.more = r.more) (hmsg : r'.msg = r.msg) : Fresh t done' r' := by
  refine ⟨fun tag htag => h.started tag ((hdone tag).mp htag), ?_, ?_⟩
  · intro tag htag
    obtain ⟨hused, hnot⟩ := h.current tag htag
    exact ⟨hused, fun hin => hnot ((hdone tag).mp hin)⟩
  · rw [hmore, hmsg]
    intro hunderWay
    obtain ⟨tag, hmsg, hused, hnot⟩ := h.underWay hunderWay
    exact ⟨tag, hmsg, hused, fun hin => hnot ((hdone tag).mp hin)⟩

end

end Stream

/-! ## Runs with distinct tags -/

namespace CreditExchange

/-- The tags of the deliveries that the peer has started, latest first. -/
def tags : Trace CreditInput ReceiverEvent → List Bytes
  | [] => []
  | l :: trace =>
    match l.1 with
    | .first fr _ => fr.deliveryTag.getD [] :: tags trace
    | _ => tags trace

/-- The tag of a message that the application receives. -/
def receivedTag : ReceiverEvent → Option Bytes
  | .receive m => some m.tag
  | _ => none

/-- The tags of the messages that the application receives in a step. -/
def takenBy (l : CreditInput × List ReceiverEvent) : List Bytes :=
  match l.1 with
  | .mux .receive => l.2.filterMap receivedTag
  | _ => []

/-- The tags of the messages taken from the channel so far. -/
def taken (trace : Trace CreditInput ReceiverEvent) : List Bytes := trace.flatMap takenBy

/-- The peer's deliveries have distinct tags, and the application settles messages that it has
    received. -/
structure Distinct (trace : Trace CreditInput ReceiverEvent) (_ : CreditExchange)
    (l : CreditInput × List ReceiverEvent) : Prop where
  first : ∀ fr counted, l.1 = .first fr counted → ∃ tag, fr.deliveryTag = some tag ∧ tag ∉ tags trace
  later : ∀ fr counted tag, l.1 = .later fr counted → fr.deliveryTag = some tag → (tags trace).head? = some tag
  settles : ∀ tag, l.1 = .mux (.deleteUnsettled tag) → tag ∈ taken trace

/-- Where the peer's transfers stand. -/
def position (trace : Trace CreditInput ReceiverEvent) (s : CreditExchange) : Stream :=
  ⟨tags trace, if s.peer.opened then (tags trace).head? else none⟩

/-- The tags of the messages that the receiver has completed. -/
def delivered (trace : Trace CreditInput ReceiverEvent) (s : CreditExchange) : List Bytes :=
  taken trace ++ s.mux.receiver.messages.map Message.tag

/-- What is on its way are the transfers of one stream of the peer, with distinct tags, from where the receiver has
    got to. -/
structure Streamed (trace : Trace CreditInput ReceiverEvent) (s : CreditExchange) : Prop where
  nodup : (delivered trace s).Nodup
  fresh : ∃ t : Stream, t.Fresh (delivered trace s) s.mux.receiver ∧
    Run Stream.Sends t s.fromPeer.reverse (position trace s)
  opened : s.peer.opened = true → ∃ tag, (tags trace).head? = some tag
  unsettled : receiverSettleModeValue s.mux.receiver.receiverSettleMode = .second →
    ∀ m ∈ s.mux.receiver.messages, m.tag ∈ s.mux.receiver.unsettledMessages

section

variable {trace : Trace CreditInput ReceiverEvent} {s : CreditExchange} {input : CreditInput}
  {i : ReceiverInput} {events : List ReceiverEvent} {fromPeer : List FrameBody} {m : ReceiverMux}

theorem tags_of_drives (h : Drives input i) : tags ((input, events) :: trace) = tags trace := by
  rcases h with rfl | ⟨rfl, -⟩
  · rfl
  · rfl

theorem takenBy_of_drives (h : Drives input i) (hi : i ≠ .receive) : takenBy (input, events) = [] := by
  rcases h with rfl | ⟨rfl, -⟩
  · cases i with
    | receive => exact absurd rfl hi
    | _ => rfl
  · rfl

theorem Streamed.start (maxMessageSize : UInt64) (mode : Option ReceiverSettleMode)
    (initialDeliveryCount handle maxCredit : UInt32) :
    Streamed [] (.start maxMessageSize mode initialDeliveryCount handle maxCredit) where
  nodup := nodup_nil
  fresh := ⟨⟨[], none⟩, ⟨(fun tag htag => by cases htag), (fun tag htag => by cases htag),
    (fun h => by cases h)⟩, .start⟩
  opened := fun h => by cases h
  unsettled := fun _ m hm => by cases hm

variable (h : Streamed trace s)

include h

/-- The receiver takes a frame, or none. -/
theorem Streamed.take (htakes : Takes i s.fromPeer fromPeer) :
    ∃ t : Stream, Run Stream.Sends t fromPeer.reverse (position trace s) ∧
      (∀ r : Receiver, r.more = s.mux.receiver.more → r.msg = s.mux.receiver.msg → t.Fresh (delivered trace s) r) ∧
      (∀ fr, i = .rx (.transfer fr) → ∃ t₀ : Stream, t₀.Fresh (delivered trace s) s.mux.receiver ∧
        t₀.Sends (.transfer fr) t) := by
  obtain ⟨t₀, hfresh, hrun⟩ := h.fresh
  unfold Takes at htakes
  split at htakes
  · next body =>
    rw [htakes, reverse_cons] at hrun
    obtain ⟨t, hsends, hrest⟩ := hrun.uncons
    refine ⟨t, hrest, fun r hmore hmsg => hfresh.skip hsends hmore hmsg, ?_⟩
    intro fr hfr
    cases hfr
    exact ⟨t₀, hfresh, hsends⟩
  · next hrx =>
    rw [htakes]
    refine ⟨t₀, hrun, fun r hmore hmsg => hfresh.congr (fun _ => Iff.rfl) hmore hmsg, ?_⟩
    intro fr hfr
    exact absurd hfr (hrx (.transfer fr))

/-- A step after which the messages in the channel are the same and no more of them are settled. -/
theorem Streamed.same (hdrives : Drives input i) (htaken : takenBy (input, events) = [])
    (hfresh : ∃ t : Stream, t.Fresh (delivered trace s) m.receiver ∧ Run Stream.Sends t fromPeer.reverse (position trace s))
    (hmessages : m.receiver.messages = s.mux.receiver.messages)
    (hmode : m.receiver.receiverSettleMode = s.mux.receiver.receiverSettleMode)
    (hunsettled : ∀ msg ∈ s.mux.receiver.messages, msg.tag ∈ s.mux.receiver.unsettledMessages → msg.tag ∈ m.receiver.unsettledMessages)
    (toPeer : List PerformFlow) :
    Streamed ((input, events) :: trace) { s with mux := m, toPeer := toPeer, fromPeer := fromPeer } := by
  have htags : tags ((input, events) :: trace) = tags trace := tags_of_drives hdrives
  have htaken' : taken ((input, events) :: trace) = taken trace := by
    rw [taken, flatMap_cons, htaken]
    rfl
  refine ⟨?_, ?_, ?_, ?_⟩
  · simpa only [delivered, htaken', hmessages] using h.nodup
  · simpa only [delivered, position, htags, htaken', hmessages] using hfresh
  · simpa only [htags] using h.opened
  · dsimp only
    rw [hmessages, hmode]
    intro hsecond msg hmsg
    exact hunsettled msg hmsg (h.unsettled hsecond msg hmsg)

/-- A message is completed. -/
theorem Streamed.push (hdrives : Drives input i) (htaken : takenBy (input, events) = []) {msg : Message}
    (hnew : msg.tag ∉ delivered trace s) (hreceiver : m.receiver = s.mux.receiver.received msg)
    (hfresh : ∃ t : Stream, t.Fresh (delivered trace s ++ [msg.tag]) m.receiver ∧ Run Stream.Sends t fromPeer.reverse (position trace s))
    (toPeer : List PerformFlow) :
    Streamed ((input, events) :: trace) { s with mux := m, toPeer := toPeer, fromPeer := fromPeer } := by
  have htags : tags ((input, events) :: trace) = tags trace := tags_of_drives hdrives
  have htaken' : taken ((input, events) :: trace) = taken trace := by
    rw [taken, flatMap_cons, htaken]
    rfl
  have hdelivered : delivered ((input, events) :: trace)
      { s with mux := m, toPeer := toPeer, fromPeer := fromPeer } = delivered trace s ++ [msg.tag] := by
    simp [delivered, htaken', hreceiver, Receiver.received]
  refine ⟨?_, ?_, ?_, ?_⟩
  · rw [hdelivered, nodup_append]
    refine ⟨h.nodup, pairwise_singleton _ _, ?_⟩
    rintro tag htag _ hlast rfl
    rw [mem_singleton.mp hlast] at htag
    exact hnew htag
  · rw [hdelivered]
    simpa only [position, htags] using hfresh
  · simpa only [htags] using h.opened
  · dsimp only
    rw [hreceiver]
    intro hsecond msg' hmsg'
    have hafter : (s.mux.receiver.received msg).unsettledMessages
        = s.mux.receiver.unsettledMessages.insert msg.tag := by
      simp only [Receiver.received, unsettledAfter] at hsecond ⊢
      rw [hsecond]
      rfl
    rw [hafter]
    rcases mem_append.mp (show msg' ∈ s.mux.receiver.messages ++ [msg] from hmsg') with hold | hlast
    · exact mem_insert_of_mem (h.unsettled hsecond msg' hold)
    · rw [mem_singleton.mp hlast]
      exact mem_insert_self

/-- The application receives the first message in the channel. -/
theorem Streamed.pop {msg : Message} {messages : List Message} (hmessages : s.mux.receiver.messages = msg :: messages)
    (hreceiver : m.receiver = { s.mux.receiver with messages := messages }) (toPeer : List PerformFlow) :
    Streamed ((.mux .receive, [.receive msg]) :: trace) { s with mux := m, toPeer := toPeer } := by
  have hperm : (delivered ((.mux .receive, [.receive msg]) :: trace) { s with mux := m, toPeer := toPeer }).Perm
      (delivered trace s) := by
    simp only [delivered, taken, flatMap_cons, takenBy, receivedTag, hreceiver, hmessages, map_cons,
      filterMap_cons, filterMap_nil, cons_append, nil_append]
    exact perm_middle.symm
  obtain ⟨t, hfresh, hrun⟩ := h.fresh
  refine ⟨hperm.nodup_iff.mpr h.nodup, ⟨t, ?_, hrun⟩, h.opened, ?_⟩
  · exact hfresh.congr (fun tag => hperm.mem_iff) (by rw [hreceiver]) (by rw [hreceiver])
  · dsimp only
    rw [hreceiver]
    intro hsecond msg' hmsg'
    exact h.unsettled hsecond msg' (by rw [hmessages]; exact mem_cons_of_mem _ hmsg')

/-- A message that is in the channel has not been received, so that it is not settled. -/
theorem Streamed.tag_ne {tag : Bytes} (htaken : tag ∈ taken trace) {msg : Message}
    (hmsg : msg ∈ s.mux.receiver.messages) : msg.tag ≠ tag := by
  rintro rfl
  exact (nodup_append.mp h.nodup).2.2 msg.tag htaken msg.tag (mem_map_of_mem hmsg) rfl

/-- A step of the receiver. -/
theorem Streamed.mux (hattached : s.mux.receiver.detached = none) (hstep : s.mux.step i = some (m, events))
    (htakes : Takes i s.fromPeer fromPeer) (hdrives : Drives input i)
    (hdistinct : Distinct trace s (input, events)) (toPeer : List PerformFlow) :
    Streamed ((input, events) :: trace) { s with mux := m, toPeer := toPeer, fromPeer := fromPeer } := by
  obtain ⟨t, hrun, hskip, htransfer⟩ := h.take htakes
  cases ReceiverMux.step_touches hstep with
  | received fr _ hreceiver =>
    obtain ⟨t₀, hfresh, hsends⟩ := htransfer fr rfl
    have htaken : takenBy (input, ([] : List ReceiverEvent)) = [] := takenBy_of_drives hdrives (fun hi => by cases hi)
    have heffect := muxReceive_effect hattached fr
    rw [← hreceiver] at heffect
    generalize hr : m.receiver = r at heffect
    cases heffect with
    | kept detachError msgBuf more msg hbelongs =>
      refine h.same hdrives htaken ⟨t, ?_, hrun⟩ (by rw [hr]) (by rw [hr]) (fun _ _ hin => by rw [hr]; exact hin) toPeer
      rw [hr]
      exact hfresh.kept hsends hbelongs
    | received msg hmore _ hbelongs =>
      obtain ⟨hnew, hfresh'⟩ := hfresh.received hsends hmore hbelongs
      exact h.push hdrives htaken hnew hr ⟨t, by rw [hr]; exact hfresh', hrun⟩ toPeer
  | took msg messages hmessages =>
    rcases hdrives with rfl | ⟨-, hrx⟩
    · rw [show fromPeer = s.fromPeer from htakes]
      exact h.pop hmessages rfl toPeer
    · cases hrx
  | deleted tag =>
    have htaken : takenBy (input, ([] : List ReceiverEvent)) = [] := takenBy_of_drives hdrives (fun hi => by cases hi)
    have hsettles : tag ∈ taken trace := by
      rcases hdrives with rfl | ⟨-, hrx⟩
      · exact hdistinct.settles tag rfl
      · cases hrx
    have hfresh := hskip (s.mux.deleteUnsettled tag).receiver rfl rfl
    refine h.same (m := s.mux.deleteUnsettled tag) hdrives htaken ⟨t, hfresh, hrun⟩ rfl rfl ?_ toPeer
    intro msg hmsg hin
    exact (mem_erase_of_ne (h.tag_ne hsettles hmsg)).mpr hin
  | kept _ _ _ credit hi hreceiver _ =>
    refine h.same hdrives (takenBy_of_drives hdrives hi) ⟨t, ?_, hrun⟩ (by rw [hreceiver]) (by rw [hreceiver])
      (fun _ _ hin => by rw [hreceiver]; exact hin) toPeer
    exact hskip _ (by rw [hreceiver]) (by rw [hreceiver])

theorem Streamed.first {fr : PerformTransfer} {counted : Bool} (hopened : s.peer.opened = false)
    (hdistinct : Distinct trace s (.first fr counted, [])) :
    Streamed ((.first fr counted, []) :: trace)
      { s with peer := s.peer.first fr counted, fromPeer := s.fromPeer ++ [.transfer fr] } := by
  obtain ⟨tag, htag, hnew⟩ := hdistinct.first fr counted rfl
  obtain ⟨t, hfresh, hrun⟩ := h.fresh
  have hfirst : Stream.Sends (position trace s) (.transfer fr) ⟨tag :: tags trace, Stream.openTag fr tag⟩ :=
    .first fr tag (by simp [position, hopened]) htag hnew
  refine ⟨h.nodup, ⟨t, hfresh, ?_⟩, ?_, h.unsettled⟩
  · rw [reverse_append]
    simpa [position, tags, htag, SendingPeer.first, Stream.openTag] using hrun.step hfirst
  · exact fun _ => ⟨tag, by simp [tags, htag]⟩

theorem Streamed.later {fr : PerformTransfer} {counted : Bool} (hopened : s.peer.opened = true)
    (hdistinct : Distinct trace s (.later fr counted, [])) :
    Streamed ((.later fr counted, []) :: trace)
      { s with peer := s.peer.later fr counted, fromPeer := s.fromPeer ++ [.transfer fr] } := by
  obtain ⟨tag, htag⟩ := h.opened hopened
  obtain ⟨t, hfresh, hrun⟩ := h.fresh
  have hlater : Stream.Sends (position trace s) (.transfer fr) ⟨tags trace, Stream.openTag fr tag⟩ := by
    refine .later fr tag (by simp [position, hopened, htag]) ?_
    intro tag' htag'
    exact Option.some.inj ((hdistinct.later fr counted tag' rfl htag').symm.trans htag)
  refine ⟨h.nodup, ⟨t, hfresh, ?_⟩, fun _ => ⟨tag, htag⟩, h.unsettled⟩
  rw [reverse_append]
  simpa [position, tags, htag, SendingPeer.later, Stream.openTag] using hrun.step hlater

theorem Streamed.step {s' : CreditExchange} (hattached : s.mux.receiver.detached = none)
    (hstep : s.step input = some (s', events)) (hdistinct : Distinct trace s (input, events)) :
    Streamed ((input, events) :: trace) s' := by
  cases step_effect hstep with
  | mux _ i _ m fromPeer hmux htakes hdrives => exact h.mux hattached hmux htakes hdrives hdistinct _
  | flow fr toPeer =>
    have hpeer : (s.peer.receiveFlow fr).opened = s.peer.opened := by
      unfold SendingPeer.receiveFlow
      split <;> rfl
    obtain ⟨t, hfresh, hrun⟩ := h.fresh
    refine ⟨h.nodup, ⟨t, hfresh, ?_⟩, ?_, h.unsettled⟩
    · simpa only [position, tags, hpeer] using hrun
    · dsimp only
      rw [hpeer]
      exact h.opened
  | first fr counted hopened => exact h.first hopened hdistinct
  | later fr counted hopened => exact h.later hopened hdistinct
  | send body hbody =>
    obtain ⟨t, hfresh, hrun⟩ := h.fresh
    refine ⟨h.nodup, ⟨t, hfresh, ?_⟩, h.opened, h.unsettled⟩
    rw [reverse_append]
    exact hrun.step (.other body hbody)

end

/-! ## Room in the channel -/

/-- The messages in the channel and the credit given fit into the channel. -/
def Room (s : ReceiverMux) : Prop := s.receiver.messages.length + s.availableCredit.toNat ≤ s.maxCredit.toNat

/-- In mode second every message in the channel is unsettled, and the credit leaves room for those. -/
theorem Streamed.room {trace : Trace CreditInput ReceiverEvent} {s : CreditExchange}
    (h : Streamed trace s) (hbounded : s.mux.Bounded)
    (hsecond : receiverSettleModeValue s.mux.receiver.receiverSettleMode = .second) : Room s.mux := by
  have hnodup : (s.mux.receiver.messages.map Message.tag).Nodup := (nodup_append.mp h.nodup).2.1
  have hsubset : s.mux.receiver.messages.map Message.tag ⊆ s.mux.receiver.unsettledMessages := by
    intro tag htag
    obtain ⟨m, hm, rfl⟩ := mem_map.mp htag
    exact h.unsettled hsecond m hm
  have hlength := (subperm_of_subset hnodup hsubset).length_le
  rw [length_map] at hlength
  have hbound : s.mux.availableCredit.toNat + s.mux.promised + s.mux.receiver.unsettledMessages.length
      ≤ s.mux.maxCredit.toNat := hbounded.bound
  unfold Room
  omega

/-- The channel is empty when a flow frame is built, unless the mode is second. -/
def EmptyFirst (s : CreditExchange) (l : CreditInput × List ReceiverEvent) : Prop :=
  receiverSettleModeValue s.mux.receiver.receiverSettleMode = .second ∨
    (l.1 = .mux .muxFlow → s.mux.receiver.messages = [])

/-- A step of the receiver that gives credit only when the channel is empty. -/
theorem room_step {s s' : ReceiverMux} {i : ReceiverInput} {events : List ReceiverEvent} (h : Room s)
    (hbounded : s.Bounded) (hbounded' : s'.Bounded) (hstep : s.step i = some (s', events))
    (hcredit : s.OnCredit i) (hempty : i = .muxFlow → s.receiver.messages = []) : Room s' := by
  have hmax := (ReceiverMux.step_config hbounded.attached hstep).maxCredit
  have hbound := hbounded'.bound
  unfold Room at *
  rw [hmax] at hbound ⊢
  cases ReceiverMux.step_touches hstep with
  | received fr _ hreceiver =>
    have honCredit := hcredit fr rfl
    have heffect := muxReceive_effect hbounded.attached fr
    unfold completes at honCredit
    rw [← hreceiver] at heffect honCredit
    unfold ReceiverMux.availableCredit at *
    generalize s'.receiver = r at heffect honCredit ⊢
    cases heffect with
    | kept => exact h
    | received m =>
      have hne : s.receiver.availableCredit ≠ 0 := honCredit (by simp [Receiver.received])
      have hpos := toNat_pos_of_ne_zero hne
      simp only [Receiver.received, length_append, length_singleton, toNat_sub_one hne]
      omega
  | took m messages hmessages =>
    rw [hmessages, length_cons] at h
    exact Nat.le_trans (by dsimp only [ReceiverMux.availableCredit]; omega) h
  | deleted tag => exact h
  | kept _ _ _ credit _ hreceiver hwhy =>
    have hmessages : s'.receiver.messages = s.receiver.messages := by rw [hreceiver]
    have havailable : s'.availableCredit = credit := by rw [ReceiverMux.availableCredit, hreceiver]
    rcases hwhy with rfl | rfl | rfl
    · rwa [hmessages, havailable]
    · rw [hmessages, havailable, UInt32.toNat_zero]
      omega
    · rw [hmessages, hempty rfl, length_nil]
      omega

/-- The exchange keeps to the credit, and the channel has room for what the peer may still complete. -/
structure Roomy (mode : Option ReceiverSettleMode) (maxCredit : UInt32)
    (trace : Trace CreditInput ReceiverEvent) (s : CreditExchange) : Prop where
  inStep : InStep trace s
  streamed : Streamed trace s
  room : Room s.mux
  mode : s.mux.receiver.receiverSettleMode = mode
  maxCredit : s.mux.maxCredit = maxCredit

theorem Roomy.step {mode : Option ReceiverSettleMode} {maxCredit : UInt32}
    {trace : Trace CreditInput ReceiverEvent} {s s' : CreditExchange} {l : CreditInput × List ReceiverEvent}
    (h : Roomy mode maxCredit trace s) (hstep : Fires CreditExchange.step s l s')
    (hdistinct : Distinct trace s l) (hempty : EmptyFirst s l) : Roomy mode maxCredit (l :: trace) s' := by
  obtain ⟨input, events⟩ := l
  obtain ⟨D, L, hsynced, -⟩ := h.inStep
  have hattached := hsynced.gives.bounded.attached
  have hinStep := h.inStep.step hstep
  have hstreamed := h.streamed.step hattached hstep hdistinct
  have ⟨D', L', hsynced', _⟩ := hinStep
  have hquiet : s'.mux = s.mux → Roomy mode maxCredit ((input, events) :: trace) s' := by
    intro hmux
    exact ⟨hinStep, hstreamed, by rw [hmux]; exact h.room, by rw [hmux]; exact h.mode, by rw [hmux]; exact h.maxCredit⟩
  cases step_effect hstep with
  | mux _ i _ m fromPeer hmux htakes hdrives =>
    have hconfig := ReceiverMux.step_config hattached hmux
    have hmode : m.receiver.receiverSettleMode = mode := hconfig.receiverSettleMode.trans h.mode
    refine ⟨hinStep, hstreamed, ?_, hmode, hconfig.maxCredit.trans h.maxCredit⟩
    rcases hempty with hsecond | hempty
    · rw [h.mode, ← hmode] at hsecond
      exact hstreamed.room hsynced'.gives.bounded hsecond
    · refine room_step h.room hsynced.gives.bounded hsynced'.gives.bounded hmux (hsynced.onCredit htakes) ?_
      rintro rfl
      rcases hdrives with rfl | ⟨-, hrx⟩
      · exact hempty rfl
      · cases hrx
  | flow => exact hquiet rfl
  | first => exact hquiet rfl
  | later => exact hquiet rfl
  | send => exact hquiet rfl

end CreditExchange

open CreditExchange

/-- **A complete message finds room.** In every run in which the channel is empty whenever a flow frame is
    built, or the mode is second, a transfer that completes a message finds fewer messages in the channel
    than it can hold. -/
theorem message_finds_room (maxMessageSize : UInt64) (mode : Option ReceiverSettleMode)
    (initialDeliveryCount handle maxCredit : UInt32) {trace : Trace CreditInput ReceiverEvent}
    {s : CreditExchange}
    (hrun : RunIf (Fires CreditExchange.step)
      (fun trace s l => Distinct trace s l ∧ EmptyFirst s l)
      (.start maxMessageSize mode initialDeliveryCount handle maxCredit) trace s)
    {fr : PerformTransfer} {fromPeer : List FrameBody} (hqueue : s.fromPeer = .transfer fr :: fromPeer)
    (hcompletes : s.mux.receiver.completes fr = true) :
    s.mux.receiver.messages.length < maxCredit.toNat := by
  have hroomy : Roomy mode maxCredit trace s := by
    refine hrun.invariant (P := Roomy mode maxCredit) ?_ ?_
    · refine ⟨⟨_, _, .start _ _ _ _ _, ?_⟩, .start _ _ _ _ _, Nat.zero_le _, rfl, rfl⟩
      intro fr hfr
      cases hfr
    · intro trace s l s' h hstep hguard
      exact h.step hstep hguard.1 hguard.2
  obtain ⟨D, L, hsynced, -⟩ := hroomy.inStep
  have hends := endsMessage_of_completes hsynced.gives.bounded.attached hcompletes
  have hpos := toNat_pos_of_ne_zero (hsynced.credit_ne_zero hqueue hends)
  have hroom := hroomy.room
  unfold Room at hroom
  rw [hroomy.maxCredit] at hroom
  omega

namespace CreditExchange

/-- The only transfer of a delivery with the given tag. -/
def delivery (deliveryID : UInt32) (tag : Bytes) : PerformTransfer :=
  { firstOf deliveryID false dataSection with deliveryTag := some tag }

/-- `Distinct`, as a test. -/
def distinctly (trace : Trace CreditInput ReceiverEvent) (_ : CreditExchange) : CreditInput → Bool
  | .first fr _ => fr.deliveryTag.any fun tag => !(tags trace).contains tag
  | .later fr _ => fr.deliveryTag.all fun tag => (tags trace).head? == some tag
  | .mux (.deleteUnsettled tag) => (taken trace).contains tag
  | _ => true

theorem distinct_of_distinctly (trace : Trace CreditInput ReceiverEvent) (s : CreditExchange) (i : CreditInput)
    (events : List ReceiverEvent) (h : distinctly trace s i = true) : Distinct trace s (i, events) := by
  refine ⟨?_, ?_, ?_⟩
  · rintro fr counted hi
    dsimp only at hi
    subst hi
    cases htag : fr.deliveryTag with
    | none => simp [distinctly, htag] at h
    | some tag => exact ⟨tag, rfl, by simpa [distinctly, htag] using h⟩
  · rintro fr counted tag hi htag
    dsimp only at hi
    subst hi
    simpa [distinctly, htag] using h
  · rintro tag hi
    dsimp only at hi
    subst hi
    simpa [distinctly] using h

/-- The mode is second. -/
def inSecond (s : CreditExchange) : Bool := receiverSettleModeValue s.mux.receiver.receiverSettleMode == .second

/-- The transfer that is the next frame to arrive. -/
def nextTransfer (s : CreditExchange) : Option PerformTransfer :=
  match s.fromPeer with
  | .transfer fr :: _ => some fr
  | _ => none

theorem fromPeer_of_nextTransfer {s : CreditExchange} {fr : PerformTransfer} (h : s.nextTransfer = some fr) :
    ∃ fromPeer, s.fromPeer = .transfer fr :: fromPeer := by
  unfold nextTransfer at h
  split at h
  · next fr' fromPeer hqueue =>
    cases h
    exact ⟨fromPeer, hqueue⟩
  · cases h

end CreditExchange

/-- In mode second, two deliveries to an application that receives neither: the second finds room. -/
theorem message_finds_room_two :
    ∃ (trace : Trace CreditInput ReceiverEvent) (s : CreditExchange) (fr : PerformTransfer)
      (fromPeer : List FrameBody),
      RunIf (Fires CreditExchange.step)
        (fun trace s l => Distinct trace s l ∧ EmptyFirst s l)
        (.start 0 (some .second) 0 0 2) trace s ∧
      s.fromPeer = .transfer fr :: fromPeer ∧ s.mux.receiver.completes fr = true ∧
      s.mux.receiver.messages.length = 1 ∧ s.mux.receiver.messages.length < (2 : UInt32).toNat := by
  have hexec : ((execIf CreditExchange.step
      (fun trace s i => distinctly trace s i && s.inSecond) []
      (.start 0 (some .second) 0 0 2)
      (iteration ++ [.flow, .first (delivery 1 [0x61]) true, .rx,
        .first (delivery 2 [0x62]) true])).bind fun res =>
      res.2.nextTransfer.map fun fr => (res.2.mux.receiver.completes fr, res.2.mux.receiver.messages.length))
        = some (true, 1) := by decide +kernel
  obtain ⟨⟨trace, s⟩, hexec, hres⟩ := Option.bind_eq_some_iff.mp hexec
  obtain ⟨fr, hnext, hres⟩ := Option.map_eq_some_iff.mp hres
  obtain ⟨fromPeer, hqueue⟩ := fromPeer_of_nextTransfer hnext
  rw [Prod.mk.injEq] at hres
  obtain ⟨hcompletes, hlength⟩ := hres
  have hrun : RunIf (Fires CreditExchange.step)
      (fun trace s l => Distinct trace s l ∧ EmptyFirst s l)
      (.start 0 (some .second) 0 0 2) trace s := by
    refine .of_execIf ?_ _ .start hexec
    intro trace s i events hok
    rw [Bool.and_eq_true] at hok
    exact ⟨distinct_of_distinctly trace s i events hok.1, .inl (by simpa [inSecond] using hok.2)⟩
  exact ⟨trace, s, fr, fromPeer, hrun, hqueue, hcompletes, hlength,
    message_finds_room 0 (some .second) 0 0 2 hrun hqueue hcompletes⟩

/-- In mode first with a maximum of one: the application does not receive, the receiver gives another
    credit, and the second message finds the channel full, so that the mux cannot take the transfer. -/
theorem message_finds_channel_full :
    ∃ (trace : Trace CreditInput ReceiverEvent) (s : CreditExchange) (fr : PerformTransfer)
      (fromPeer : List FrameBody),
      RunIf (Fires CreditExchange.step) Distinct (.start 0 (some .first) 0 0 1) trace s ∧
      s.fromPeer = .transfer fr :: fromPeer ∧ s.mux.receiver.completes fr = true ∧
      s.mux.receiver.messages.length = (1 : UInt32).toNat ∧ (s.step .rx).isNone = true := by
  have hexec : ((execIf CreditExchange.step distinctly [] (.start 0 (some .first) 0 0 1)
      (iteration ++ [.flow, .first (delivery 1 [0x61]) true, .rx] ++
        iteration ++ [.flow, .first (delivery 2 [0x62]) true])).bind fun res =>
      res.2.nextTransfer.map fun fr =>
        (res.2.mux.receiver.completes fr, res.2.mux.receiver.messages.length, (res.2.step .rx).isNone))
          = some (true, 1, true) := by decide +kernel
  obtain ⟨⟨trace, s⟩, hexec, hres⟩ := Option.bind_eq_some_iff.mp hexec
  obtain ⟨fr, hnext, hres⟩ := Option.map_eq_some_iff.mp hres
  obtain ⟨fromPeer, hqueue⟩ := fromPeer_of_nextTransfer hnext
  simp only [Prod.mk.injEq] at hres
  obtain ⟨hcompletes, hlength, hblocked⟩ := hres
  exact ⟨trace, s, fr, fromPeer, .of_execIf distinct_of_distinctly _ .start hexec, hqueue,
    hcompletes, hlength, hblocked⟩

end GoAmqp
