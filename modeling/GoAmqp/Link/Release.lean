import GoAmqp.Link.Confirmation
import GoAmqp.Link.CreditBound
import Mathlib.Data.List.Nodup

set_option autoImplicit false

/-! # Which messages count as unsettled

In mode second `muxReceive` adds every complete message to the unsettled ones, and a settlement call takes
its message out when it gets a value from its channel. A call for a message that the peer has sent
settled returns at once, so that such a message is never taken out, and its credit is not given again.

`Accounted` says exactly which tags are in `unsettledMessages`, as long as the tags of the messages are
distinct. -/

namespace GoAmqp

open Lib Function
open List hiding getElem?_eq_some_iff

variable {events : List ReceiverEvent}

namespace ReceiverLink

/-- A message that is completed has a tag that no message before it has. -/
def NewTags (_ : Trace SettleInput ReceiverEvent) (s : ReceiverLink)
    (l : SettleInput × List ReceiverEvent) : Prop :=
  ∀ fr m, l.1 = .mux (.rx (.transfer fr)) →
    (s.mux.receiver.muxReceive fr).1.messages = s.mux.receiver.messages ++ [m] →
    m.tag ∉ (s.held ++ s.mux.receiver.messages).map Message.tag

/-- The message that the application holds as its `k`th counts as unsettled. -/
def Counts (s : ReceiverLink) (k : Nat) (m : Message) : Prop := m.settled = true ∨ s.settled k = false

/-- What is known of a call. -/
structure CallAccounted (s : ReceiverLink) (c : SettleCall) : Prop where
  held : s.held[c.msg]? = some c.message
  running : (∀ err, c.phase ≠ .returned err) → c.message.settled = false
  returned : c.phase = .returned none → s.settled c.msg = true

/-- The unsettled tags are those of the messages in the channel, and of those with the application that still count.
    -/
structure Accounted (s : ReceiverLink) : Prop where
  mode : s.second = true
  nodup : ((s.held ++ s.mux.receiver.messages).map Message.tag).Nodup
  unsettled : s.mux.receiver.unsettledMessages.Nodup
  counts : ∀ tag, tag ∈ s.mux.receiver.unsettledMessages ↔
    tag ∈ s.mux.receiver.messages.map Message.tag ∨ ∃ k m, s.held[k]? = some m ∧ m.tag = tag ∧ s.Counts k m
  sent : ∀ k m, s.held[k]? = some m → m.settled = true → s.settled k = true
  calls : ∀ n c, s.calls n = some c → s.CallAccounted c

section

variable {s s' : ReceiverLink} {n : Nat} {c : SettleCall}

theorem Accounted.start (maxMessageSize : UInt64) (initialDeliveryCount handle : UInt32) (autoSendFlow : Bool)
    (maxCredit : UInt32) (batching : Bool) :
    Accounted (.start maxMessageSize (some .second) initialDeliveryCount handle autoSendFlow maxCredit batching) := by
  refine ⟨rfl, nodup_nil, nodup_nil, ?_, ?_, ?_⟩
  · intro tag
    simp [ReceiverLink.start, ReceiverMux.start]
  · intro k m hk
    simp [ReceiverLink.start] at hk
  · intro n c hc
    cases hc

/-- The calls stay where they are, whatever their channels get. -/
def SameCalls (s s' : ReceiverLink) : Prop :=
  ∀ n c', s'.calls n = some c' →
    ∃ c, s.calls n = some c ∧ c'.msg = c.msg ∧ c'.message = c.message ∧ c'.phase = c.phase

theorem SameCalls.of_eq (h : s'.calls = s.calls) : SameCalls s s' := by
  intro n c hc
  exact ⟨c, by rw [← h]; exact hc, rfl, rfl, rfl⟩

theorem sameCalls_removeID (s : ReceiverLink) (id : UInt32) (err : Option SettleError) :
    SameCalls s (s.removeID id err) := by
  unfold removeID
  split
  · next n _ =>
    intro n' c' hc'
    dsimp only at hc'
    rw [update_apply] at hc'
    split at hc'
    · next heq =>
      subst heq
      obtain ⟨c, hc, rfl⟩ := Option.map_eq_some_iff.mp hc'
      exact ⟨c, hc, rfl, rfl, rfl⟩
    · exact ⟨c', hc', rfl, rfl, rfl⟩
  · exact .of_eq rfl

theorem sameCalls_clear (s : ReceiverLink) (err : Option SettleError) : SameCalls s (s.clear err) := by
  intro n c' hc'
  obtain ⟨c, hc, rfl⟩ := Option.map_eq_some_iff.mp hc'
  refine ⟨c, hc, ?_⟩
  split <;> exact ⟨rfl, rfl, rfl⟩

variable (h : Accounted s)

include h

/-- A step that leaves the messages and their settlement as they are. -/
theorem Accounted.congr (hheld : s'.held = s.held) (hsettled : s'.settled = s.settled)
    (hmessages : s'.mux.receiver.messages = s.mux.receiver.messages)
    (hunsettled : s'.mux.receiver.unsettledMessages = s.mux.receiver.unsettledMessages)
    (hmode : s'.mux.receiver.receiverSettleMode = s.mux.receiver.receiverSettleMode)
    (hcalls : ∀ n c, s'.calls n = some c → s.CallAccounted c) : Accounted s' := by
  refine ⟨?_, ?_, ?_, ?_, ?_, ?_⟩
  · rw [second, hmode]
    exact h.mode
  · rw [hheld, hmessages]
    exact h.nodup
  · rw [hunsettled]
    exact h.unsettled
  · simpa only [hunsettled, hmessages, hheld, Counts, hsettled] using h.counts
  · rw [hheld, hsettled]
    exact h.sent
  · intro n c hc
    obtain ⟨hin, hrunning, hreturned⟩ := hcalls n c hc
    exact ⟨by rw [hheld]; exact hin, hrunning, by rw [hsettled]; exact hreturned⟩

theorem SameCalls.accounted (hcalls : SameCalls s s') : ∀ n c, s'.calls n = some c → s.CallAccounted c := by
  intro n c' hc'
  obtain ⟨c, hc, hmsg, hmessage, hphase⟩ := hcalls n c' hc'
  obtain ⟨hin, hrunning, hreturned⟩ := h.calls n c hc
  exact ⟨by rw [hmsg, hmessage]; exact hin, by rw [hphase, hmessage]; exact hrunning,
    by rw [hphase, hmsg]; exact hreturned⟩

/-- One call goes on. -/
theorem Accounted.call {c' : SettleCall} (hc' : s.CallAccounted c')
    (hcalls : s'.calls = update s.calls n (some c')) : ∀ n c, s'.calls n = some c → s.CallAccounted c := by
  intro n' d hd
  rw [hcalls, update_apply] at hd
  split at hd
  · cases hd
    exact hc'
  · exact h.calls n' d hd

/-! ## Steps -/

omit h in
theorem getElem?_lt {m : Message} {k : Nat} (h : s.held[k]? = some m) : k < s.held.length :=
  (getElem?_eq_some_iff.mp h).1

variable {m : ReceiverMux}

/-- The application receives a message. -/
theorem Accounted.took {msg : Message} {messages : List Message}
    (hmessages : s.mux.receiver.messages = msg :: messages)
    (hreceiver : m.receiver = { s.mux.receiver with messages := messages }) :
    Accounted (handle { s with mux := m } (.receive msg)) := by
  have hsettled : ∀ k, k < s.held.length → update s.settled s.held.length msg.settled k = s.settled k :=
    fun k hk => update_of_ne (Nat.ne_of_lt hk) _ _
  have hheld : ∀ k m', (s.held ++ [msg])[k]? = some m' ↔
      s.held[k]? = some m' ∨ k = s.held.length ∧ m' = msg := by
    intro k m'
    rw [getElem?_append]
    split
    · next hk =>
      refine ⟨.inl, ?_⟩
      rintro (hold | ⟨rfl, -⟩)
      · exact hold
      · exact absurd hk (Nat.lt_irrefl _)
    · next hk =>
      rw [getElem?_eq_none (Nat.le_of_not_lt hk)]
      by_cases heq : k = s.held.length
      · subst heq
        simp [eq_comm]
      · simp only [heq, false_and, or_false, reduceCtorEq, iff_false]
        rw [getElem?_eq_none (by simp only [length_singleton]; omega)]
        simp
  refine ⟨?_, ?_, ?_, ?_, ?_, ?_⟩
  · show Receiver.receiverSettleModeValue m.receiver.receiverSettleMode == .second
    rw [hreceiver]
    exact h.mode
  · show ((s.held ++ [msg] ++ m.receiver.messages).map Message.tag).Nodup
    have hnodup := h.nodup
    rw [hmessages] at hnodup
    rwa [hreceiver, append_assoc, singleton_append]
  · show m.receiver.unsettledMessages.Nodup
    rw [hreceiver]
    exact h.unsettled
  · intro tag
    show tag ∈ m.receiver.unsettledMessages ↔ tag ∈ m.receiver.messages.map Message.tag ∨
      ∃ k m', (s.held ++ [msg])[k]? = some m' ∧ m'.tag = tag ∧
        (m'.settled = true ∨ update s.settled s.held.length msg.settled k = false)
    rw [hreceiver]
    refine (h.counts tag).trans ?_
    rw [hmessages, map_cons, mem_cons]
    constructor
    · rintro ((rfl | hin) | ⟨k, m', hk, htag, hcounts⟩)
      · refine .inr ⟨s.held.length, msg, (hheld _ _).mpr (.inr ⟨rfl, rfl⟩), rfl, ?_⟩
        rw [update_self]
        cases msg.settled <;> simp
      · exact .inl hin
      · refine .inr ⟨k, m', (hheld k m').mpr (.inl hk), htag, ?_⟩
        rwa [hsettled k (getElem?_lt hk)]
    · rintro (hin | ⟨k, m', hk, htag, hcounts⟩)
      · exact .inl (.inr hin)
      · rcases (hheld k m').mp hk with hold | ⟨-, rfl⟩
        · rw [hsettled k (getElem?_lt hold)] at hcounts
          exact .inr ⟨k, m', hold, htag, hcounts⟩
        · exact .inl (.inl htag.symm)
  · intro k m' hk hsent
    show update s.settled s.held.length msg.settled k = true
    rcases (hheld k m').mp hk with hold | ⟨rfl, rfl⟩
    · rw [hsettled k (getElem?_lt hold)]
      exact h.sent k m' hold hsent
    · rw [update_self]
      exact hsent
  · intro n c hc
    obtain ⟨hin, hrunning, hreturned⟩ := h.calls n c hc
    refine ⟨(hheld _ _).mpr (.inl hin), hrunning, ?_⟩
    intro hphase
    show update s.settled s.held.length msg.settled c.msg = true
    rw [hsettled c.msg (getElem?_lt hin)]
    exact hreturned hphase

/-- A message with a new tag is completed. -/
theorem Accounted.received {msg : Message} (hreceiver : m.receiver = s.mux.receiver.received msg)
    (hnew : msg.tag ∉ (s.held ++ s.mux.receiver.messages).map Message.tag) : Accounted { s with mux := m } := by
  have hmode : Receiver.receiverSettleModeValue s.mux.receiver.receiverSettleMode = .second := by
    simpa [second] using h.mode
  have hafter : m.receiver.unsettledMessages = s.mux.receiver.unsettledMessages.insert msg.tag := by
    rw [hreceiver, Receiver.received, Receiver.unsettledAfter, hmode]
    rfl
  have hmessages : m.receiver.messages = s.mux.receiver.messages ++ [msg] := by rw [hreceiver]; rfl
  refine ⟨?_, ?_, ?_, ?_, h.sent, fun n c hc => ⟨(h.calls n c hc).held, (h.calls n c hc).running, (h.calls n c hc).returned⟩⟩
  · show Receiver.receiverSettleModeValue m.receiver.receiverSettleMode == .second
    rw [hreceiver]
    exact h.mode
  · show ((s.held ++ m.receiver.messages).map Message.tag).Nodup
    rw [hmessages, ← append_assoc, map_append, nodup_append]
    refine ⟨h.nodup, pairwise_singleton _ _, ?_⟩
    rintro tag htag _ hlast rfl
    rw [mem_singleton.mp hlast] at htag
    exact hnew htag
  · show m.receiver.unsettledMessages.Nodup
    rw [hafter]
    exact Nodup.insert h.unsettled
  · intro tag
    show tag ∈ m.receiver.unsettledMessages ↔ tag ∈ m.receiver.messages.map Message.tag ∨
      ∃ k m', s.held[k]? = some m' ∧ m'.tag = tag ∧ s.Counts k m'
    rw [hafter, hmessages, mem_insert_iff, h.counts tag, map_append, mem_append]
    simp only [map_cons, map_nil, mem_singleton]
    tauto

/-- The message of a call is the only one with its tag, in the channel and among those held. -/
theorem Accounted.tag_unique (hc : s.calls n = some c) :
    c.message.tag ∉ s.mux.receiver.messages.map Message.tag ∧
      ∀ k m, s.held[k]? = some m → m.tag = c.message.tag → k = c.msg := by
  obtain ⟨hheld, -, -⟩ := h.calls n c hc
  have hnodup := h.nodup
  rw [map_append, nodup_append] at hnodup
  refine ⟨fun hin => hnodup.2.2 _ (mem_map_of_mem (mem_of_getElem? hheld)) _ hin rfl, ?_⟩
  intro k m hk htag
  have hk' : (s.held.map Message.tag)[k]? = some c.message.tag := by rw [getElem?_map, hk, ← htag]; rfl
  have hmsg' : (s.held.map Message.tag)[c.msg]? = some c.message.tag := by rw [getElem?_map, hheld]; rfl
  exact (getElem?_inj (getElem?_eq_some_iff.mp hk').1 hnodup.1).mp (hk'.trans hmsg'.symm)

/-- A call gets a value from its channel. -/
theorem Accounted.completed (hc : s.calls n = some c) (hphase : c.phase = .waiting) (err : Option SettleError)
    : Accounted (s.completed n c err) := by
  obtain ⟨hheld, hrunning, -⟩ := h.calls n c hc
  have hsent : c.message.settled = false := hrunning (fun e he => by rw [hphase] at he; cases he)
  obtain ⟨hchannel, hunique⟩ := h.tag_unique hc
  refine ⟨h.mode, h.nodup, ?_, ?_, ?_, ?_⟩
  · exact h.unsettled.erase _
  · intro tag
    show tag ∈ s.mux.receiver.unsettledMessages.erase c.message.tag ↔
      tag ∈ s.mux.receiver.messages.map Message.tag ∨
        ∃ k m, s.held[k]? = some m ∧ m.tag = tag ∧ (m.settled = true ∨ update s.settled c.msg true k = false)
    rw [h.unsettled.mem_erase_iff, h.counts tag]
    constructor
    · rintro ⟨hne, hin | ⟨k, m, hk, htag, hcounts⟩⟩
      · exact .inl hin
      · have hother : k ≠ c.msg := by
          rintro rfl
          rw [hheld] at hk
          cases hk
          exact hne htag.symm
        exact .inr ⟨k, m, hk, htag, by rwa [update_of_ne hother]⟩
    · rintro (hin | ⟨k, m, hk, htag, hcounts⟩)
      · exact ⟨fun heq => hchannel (heq ▸ hin), .inl hin⟩
      · have hother : k ≠ c.msg := by
          rintro rfl
          rw [hheld] at hk
          cases hk
          rw [hsent, update_self] at hcounts
          simp at hcounts
        rw [update_of_ne hother] at hcounts
        refine ⟨fun heq => hother (hunique k m hk (htag.trans heq)), .inr ⟨k, m, hk, htag, hcounts⟩⟩
  · intro k m hk hsettled
    show update s.settled c.msg true k = true
    rw [update_apply]
    split
    · rfl
    · exact h.sent k m hk hsettled
  · intro n' d hd
    have hreturns : ∀ d : SettleCall, (d.phase = .returned none → s.settled d.msg = true) →
        d.phase = .returned none → update s.settled c.msg true d.msg = true := by
      intro d hreturned hdphase
      rw [update_apply]
      split
      · rfl
      · exact hreturned hdphase
    have hd' : update s.calls n (some { c with phase := .returned err, wait := none }) n' = some d := hd
    rw [update_apply] at hd'
    split at hd'
    · cases hd'
      refine ⟨hheld, fun hrun => absurd rfl (hrun err), fun _ => update_self ..⟩
    · obtain ⟨hin, hrunning', hreturned⟩ := h.calls n' d hd'
      exact ⟨hin, hrunning', hreturns d hreturned⟩

/-- A step of the mux. -/
theorem Accounted.muxStep (hattached : s.mux.receiver.detached = none) {i : ReceiverInput}
    (hadmits : s.admits i = true) (hstep : s.mux.step i = some (m, events)) {trace : Trace SettleInput ReceiverEvent}
    (hnew : NewTags trace s (.mux i, events)) : Accounted (events.foldl handle { s with mux := m }) := by
  cases ReceiverMux.step_touches hstep with
  | received fr _ hreceiver =>
    have heffect := Receiver.muxReceive_effect hattached fr
    have hmessages := fun msg => hnew fr msg rfl
    rw [← hreceiver] at heffect hmessages
    generalize hr : m.receiver = r at heffect hmessages
    cases heffect with
    | kept =>
      rw [foldl_nil]
      exact h.congr rfl rfl (by rw [hr]) (by rw [hr]) (by rw [hr]) h.calls
    | received msg => exact h.received hr (hmessages msg rfl)
  | took msg messages hmessages => exact h.took hmessages rfl
  | deleted tag => cases hadmits
  | kept _ _ _ credit hi hreceiver _ =>
    have hkept : ∀ s' : ReceiverLink, s'.held = s.held → s'.settled = s.settled → s'.mux = m →
        SameCalls s s' → Accounted s' := by
      intro s' hheld hsettled hmux hcalls
      exact h.congr hheld hsettled (by rw [hmux, hreceiver]) (by rw [hmux, hreceiver]) (by rw [hmux, hreceiver])
        (hcalls.accounted h)
    cases step_signals hstep with
    | began => exact hkept _ rfl rfl rfl (.of_eq rfl)
    | round id last err =>
      obtain ⟨hsettled, hmux, hheld⟩ := removeID_frame { s with mux := m } id (err.map .rejected)
      exact hkept _ hheld hsettled hmux (sameCalls_removeID { s with mux := m } id _)
    | cleared err => exact hkept _ rfl rfl rfl (sameCalls_clear { s with mux := m } _)
    | took => exact absurd rfl hi
    | quiet _ _ _ hquiet =>
      rw [foldl_handle hquiet]
      exact hkept _ rfl rfl rfl (.of_eq rfl)

theorem Accounted.step (hattached : s.mux.receiver.detached = none)
    {trace : Trace SettleInput ReceiverEvent} {l : SettleInput × List ReceiverEvent}
    (hstep : Fires ReceiverLink.step s l s') (hnew : NewTags trace s l) : Accounted s' := by
  obtain ⟨i, events⟩ := l
  cases step_effect hstep with
  | mux i _ m hadmits hmux _ => exact h.muxStep hattached hadmits hmux hnew
  | entered n k m state hn hk =>
    refine h.congr rfl rfl rfl rfl rfl (h.call ⟨hk, ?_, ?_⟩ rfl)
    · intro hrunning
      cases hsent : m.settled with
      | false => rfl
      | true =>
        dsimp only at hrunning
        rw [h.sent k m hk hsent] at hrunning
        exact absurd rfl (hrunning none)
    · intro hreturned
      dsimp only at hreturned
      split at hreturned
      · next hsettled => exact hsettled
      · rw [h.mode] at hreturned
        cases hreturned
  | registered n c hc hphase =>
    obtain ⟨hin, hrunning, -⟩ := h.calls n c hc
    have hc' : s.CallAccounted { c with phase := .sending } :=
      ⟨hin, fun _ => hrunning (fun e he => by rw [hphase] at he; cases he), fun he => by cases he⟩
    exact h.congr rfl rfl rfl rfl rfl (h.call (n := n) hc' rfl)
  | moved _ _ n c phase dispositions hc hmoves =>
    obtain ⟨hin, hrunning, -⟩ := h.calls n c hc
    have hsent : c.message.settled = false := by
      refine hrunning ?_
      intro e he
      rcases hmoves.before with hbefore | hbefore <;> rw [hbefore] at he <;> cases he
    have hfailed : phase ≠ .returned none := by
      intro hphase
      rcases hmoves.after with hwaits | ⟨e, hfails⟩
      · rw [hwaits, ReceiverLink.sent, h.mode] at hphase
        cases hphase
      · rw [hfails] at hphase
        cases hphase
    have hc' : s.CallAccounted { c with phase := phase } := ⟨hin, fun _ => hsent, fun he => absurd he hfailed⟩
    exact h.congr rfl rfl rfl rfl rfl (h.call (n := n) hc' rfl)
  | completed n c err hc hphase _ => exact h.completed hc hphase err
  | batched | fired | batcherMoved => exact h.congr rfl rfl rfl rfl rfl h.calls
  | failed => exact h.congr rfl rfl rfl rfl rfl h.calls
  | removed i last e todo =>
    obtain ⟨hsettled, hmux, hheld⟩ := removeID_frame s i (some e)
    exact h.congr hheld hsettled (by show (s.removeID i (some e)).mux.receiver.messages = _; rw [hmux])
      (by show (s.removeID i (some e)).mux.receiver.unsettledMessages = _; rw [hmux])
      (by show (s.removeID i (some e)).mux.receiver.receiverSettleMode = _; rw [hmux])
      ((sameCalls_removeID s i (some e)).accounted h)

/-- A message that a call has returned for, without an error, counts if it was sent settled. -/
theorem Accounted.mem_unsettled_iff (hc : s.calls n = some c) (hreturned : c.phase = .returned none) :
    c.message.tag ∈ s.mux.receiver.unsettledMessages ↔ c.message.settled = true := by
  obtain ⟨hheld, -, hsettled⟩ := h.calls n c hc
  obtain ⟨hchannel, hunique⟩ := h.tag_unique hc
  rw [h.counts]
  constructor
  · rintro (hin | ⟨k, m, hk, htag, hcounts⟩)
    · exact absurd hin hchannel
    · obtain rfl := hunique k m hk htag
      rw [hheld] at hk
      cases hk
      rcases hcounts with hsent | hnot
      · exact hsent
      · rw [hsettled hreturned] at hnot
        cases hnot
  · intro hsent
    exact .inr ⟨c.msg, c.message, hheld, rfl, .inl hsent⟩

omit h in
/-- Every message has been received, and a call for it has returned without an error. -/
def AllReturned (s : ReceiverLink) : Prop :=
  s.mux.receiver.messages = [] ∧
    ∀ k, k < s.held.length → ∃ n c, s.calls n = some c ∧ c.msg = k ∧ c.phase = .returned none

/-- Nothing is left to settle if no message was sent settled. -/
theorem Accounted.unsettled_nil_iff (hall : s.AllReturned) :
    s.mux.receiver.unsettledMessages = [] ↔ ∀ m ∈ s.held, m.settled = false := by
  have hcall : ∀ {k : Nat} {m : Message}, s.held[k]? = some m →
      (m.tag ∈ s.mux.receiver.unsettledMessages ↔ m.settled = true) := by
    intro k m hk
    obtain ⟨n, c, hc, hmsg, hreturned⟩ := hall.2 k (getElem?_lt hk)
    have hheld := (h.calls n c hc).held
    rw [hmsg, hk] at hheld
    cases hheld
    exact h.mem_unsettled_iff hc hreturned
  constructor
  · intro hnil m hm
    obtain ⟨k, hk⟩ := getElem?_of_mem hm
    rw [← Bool.not_eq_true, ← hcall hk, hnil]
    exact not_mem_nil
  · intro hunsettled
    rw [eq_nil_iff_forall_not_mem]
    intro tag htag
    rcases (h.counts tag).mp htag with hin | ⟨k, m, hk, rfl, -⟩
    · rw [hall.1] at hin
      cases hin
    · have hsent := (hcall hk).mp htag
      rw [hunsettled m (mem_of_getElem? hk)] at hsent
      cases hsent

end

end ReceiverLink

open ReceiverLink

/-! ## The next iteration of the mux -/

namespace ReceiverMux

/-- With automatic flow only the mux uses the creditor, within an iteration. -/
structure Idle (m : ReceiverMux) : Prop where
  auto : m.autoSendFlow = true
  issuer : m.issuer = none
  drained : m.creditor.drained = false
  pendingDrain : m.creditor.pendingDrain = false
  creditsToAdd : m.phase ≠ .flowBits → m.creditor.creditsToAdd = 0

section

variable {m m' : ReceiverMux}

theorem Idle.congr (h : Idle m) (hauto : m'.autoSendFlow = m.autoSendFlow) (hissuer : m'.issuer = m.issuer)
    (hcreditor : m'.creditor = m.creditor) (hphase : m.phase = .flowBits → m'.phase = .flowBits) : Idle m' := by
  refine ⟨hauto.trans h.auto, hissuer.trans h.issuer, by rw [hcreditor]; exact h.drained,
    by rw [hcreditor]; exact h.pendingDrain, ?_⟩
  rw [hcreditor]
  exact fun hne => h.creditsToAdd (fun heq => hne (hphase heq))

theorem Idle.step (h : Idle m) {i : ReceiverInput} (hstep : m.step i = some (m', events)) : Idle m' := by
  have hplain : plain m.phase = true → ∀ {p : ReceiverPhase}, m.phase = .flowBits → p = .flowBits :=
    fun hp _ hphase => absurd hphase (ne_of_plain hp rfl)
  have hmanual : m.autoSendFlow ≠ false := by rw [h.auto]; decide
  cases step_effect hstep with
  | checked hphase =>
    have hother : ∀ {p : ReceiverPhase}, m.phase = .flowBits → p = .flowBits := by
      intro p hp
      rw [hphase] at hp
      cases hp
    unfold check
    split
    · exact h.congr rfl rfl rfl hother
    · exact h.congr rfl rfl rfl hother
  | issued p hphase =>
    have hzero : m.creditor.creditsToAdd = 0 := h.creditsToAdd (by rw [hphase]; simp)
    unfold issue
    split
    · next mc hissue =>
      obtain ⟨rfl, -, -⟩ := issueCredit_ok hissue
      exact ⟨h.auto, h.issuer, h.drained, h.pendingDrain, fun hne => absurd rfl hne⟩
    · exact ⟨h.auto, h.issuer, h.drained, h.pendingDrain, fun _ => hzero⟩
  | bits =>
    obtain ⟨p, hbits, -⟩ := m.flowBits_cases
    rw [hbits]
    exact ⟨h.auto, h.issuer, h.drained, rfl, fun _ => rfl⟩
  | built credits drain hphase =>
    have hzero : m.creditor.creditsToAdd = 0 := h.creditsToAdd (by rw [hphase]; simp)
    cases drain <;> exact ⟨h.auto, h.issuer, h.drained, h.pendingDrain, fun _ => hzero⟩
  | handedOver fr hphase => exact h.congr rfl rfl rfl (fun hp => by rw [hphase] at hp; cases hp)
  | received fr p hp => exact h.congr rfl rfl rfl (hplain hp)
  | echoed fr p hp => exact h.congr rfl rfl rfl (hplain hp)
  | drained _ _ _ hauto => exact absurd hauto hmanual
  | moved _ _ p _ _ hp => exact h.congr rfl rfl rfl (hplain hp)
  | drainEnded _ _ p hp =>
    have hzero := h.creditsToAdd (ne_of_plain hp rfl)
    exact ⟨h.auto, h.issuer, rfl, h.pendingDrain, fun _ => hzero⟩
  | took | signalled | deleted => exact h.congr rfl rfl rfl id
  | refused => exact h
  | asked _ hauto => exact absurd hauto hmanual
  | answered _ _ hissuer =>
    rw [h.issuer] at hissuer
    cases hissuer
  | drains hauto => exact absurd hauto hmanual

/-- An iteration that finds nothing unsettled, and at least half of the maximum to reclaim, gives the whole
    maximum. -/
theorem Idle.restores (h : Idle m) (hphase : m.phase = .looping) (hunsettled : m.receiver.unsettledMessages = [])
    (hmax : m.maxCredit ≠ 0) (hdue : m.maxCredit - m.receiver.availableCredit ≥ m.maxCredit / 2)
    (hless : m.receiver.availableCredit ≠ m.maxCredit) :
    ∃ trace m', exec ReceiverMux.step [] m [.check, .issue, .flowBits, .muxFlow] = some (trace, m') ∧
      m'.receiver.availableCredit = m.maxCredit ∧ m'.phase = .sending (m.flowFrame m.maxCredit false) := by
  have hcount : m.countUnsettled = 0 := by rw [countUnsettled, hunsettled]; rfl
  have hpending : m.pendingCredit = m.maxCredit - m.receiver.availableCredit := by
    rw [pendingCredit, hcount, availableCredit, UInt32.add_zero]
  have hgives : m.pendingCredit + m.receiver.availableCredit = m.maxCredit := by
    rw [hpending]
    grind
  have hne : m.pendingCredit ≠ 0 := by
    intro heq
    rw [heq, UInt32.zero_add] at hgives
    exact hless hgives
  have hzero : m.creditor.creditsToAdd = 0 := h.creditsToAdd (by rw [hphase]; simp)
  have hchecked : m.step .check = some ({ m with phase := .issuing m.pendingCredit }, []) := by
    simp only [ReceiverMux.step, hphase]
    rw [check, if_pos ⟨by rw [hpending]; exact hdue, h.auto⟩]
  have hissued : { m with phase := .issuing m.pendingCredit }.step .issue
      = some ({ m with
          creditor := { m.creditor with creditsToAdd := m.pendingCredit }, phase := .flowBits }, []) := by
    have hcredit : m.creditor.issueCredit m.pendingCredit m.countUnsettled m.receiver.availableCredit m.maxCredit
        = .ok { m.creditor with creditsToAdd := m.pendingCredit } := by
      rw [Creditor.issueCredit, h.drained, hcount, hzero, UInt32.add_zero, hgives]
      simp [h.drained]
    have hissue : { m with phase := .issuing m.pendingCredit }.issue m.pendingCredit
        = { m with creditor := { m.creditor with creditsToAdd := m.pendingCredit }, phase := .flowBits } := by
      unfold issue
      generalize hread : Creditor.issueCredit _ _ _ _ _ = read
      cases hread.symm.trans hcredit
      rfl
    rw [← hissue]
    unfold ReceiverMux.step
    dsimp only
    split
    · next _ _ heq _ => cases heq; rfl
    · next hother => exact absurd h.issuer (hother _ rfl)
  have hpos : m.maxCredit > 0 := by
    rw [gt_iff_lt, UInt32.lt_iff_toNat_lt]
    exact toNat_pos_of_ne_zero hmax
  have hflow : { m with creditor := { m.creditor with creditsToAdd := m.pendingCredit }, phase := .flowBits }.step
        .flowBits
      = some ({ m with
          creditor := { m.creditor with pendingDrain := false, creditsToAdd := 0 }
          phase := .muxFlow m.maxCredit false }, []) := by
    simp [ReceiverMux.step, h.issuer, flowBits, Creditor.flowBits, h.pendingDrain, hne, availableCredit, hgives, hpos]
  have hexec := (exec_cons hchecked [] [.issue, .flowBits, .muxFlow]).trans
    ((exec_cons hissued _ [.flowBits, .muxFlow]).trans (exec_cons hflow _ [.muxFlow]))
  exact ⟨_, _, hexec, rfl, rfl⟩

end

end ReceiverMux

/-- The mux of a link is one with automatic flow. -/
theorem ReceiverLink.step_idle {s s' : ReceiverLink} {i : SettleInput} (h : s.mux.Idle)
    (hstep : s.step i = some (s', events)) : s'.mux.Idle := by
  rcases step_mux hstep with hmux | ⟨j, events', hmuxStep, -⟩
  · rw [hmux]
    exact h
  · exact h.step hmuxStep

/-! ## Release -/

/-- In mode second, when the tags are distinct: a call for a message that returned without an error has
    taken it out of the unsettled ones if and only if the peer had not sent it settled. If a call has
    returned so for every message, nothing counts as unsettled if and only if none was sent settled.
    `IssueCredit` then accepts all that is missing from the maximum, and with automatic flow an iteration
    of the mux that has at least half of the maximum to reclaim gives the whole maximum. -/
theorem released_iff_sent_unsettled (maxMessageSize : UInt64) (initialDeliveryCount handle : UInt32)
    (autoSendFlow : Bool) (maxCredit : UInt32) (batching : Bool)
    {trace : Trace SettleInput ReceiverEvent} {s : ReceiverLink}
    (hrun : RunIf (Fires ReceiverLink.step) NewTags
      (.start maxMessageSize (some .second) initialDeliveryCount handle autoSendFlow maxCredit batching) trace s) :
    (∀ n c, s.calls n = some c → c.phase = .returned none →
      (c.message.tag ∉ s.mux.receiver.unsettledMessages ↔ c.message.settled = false)) ∧
    (s.AllReturned → (s.mux.countUnsettled = 0 ∧ s.mux.receiver.unsettledMessages = [] ↔
      ∀ m ∈ s.held, m.settled = false)) ∧
    (s.AllReturned → (∀ m ∈ s.held, m.settled = false) →
      (s.mux.creditor.drained = false →
        s.mux.creditor.issueCredit (s.mux.maxCredit - s.mux.availableCredit) s.mux.countUnsettled
          s.mux.availableCredit s.mux.maxCredit
        = .ok { s.mux.creditor with
            creditsToAdd := s.mux.creditor.creditsToAdd + (s.mux.maxCredit - s.mux.availableCredit) }) ∧
      (autoSendFlow = true → s.mux.phase = .looping → s.mux.maxCredit ≠ 0 →
        s.mux.maxCredit - s.mux.availableCredit ≥ s.mux.maxCredit / 2 → s.mux.availableCredit ≠ s.mux.maxCredit →
        ∃ events m, exec ReceiverMux.step [] s.mux [.check, .issue, .flowBits, .muxFlow] = some (events, m) ∧
          m.availableCredit = s.mux.maxCredit ∧ m.phase = .sending (s.mux.flowFrame s.mux.maxCredit false))) := by
  obtain ⟨haccounted, -, hidle⟩ : s.Accounted ∧ s.mux.receiver.detached = none ∧
      (autoSendFlow = true → s.mux.Idle) := by
    refine hrun.invariant (P := fun _ (s : ReceiverLink) => s.Accounted ∧ s.mux.receiver.detached = none ∧
      (autoSendFlow = true → s.mux.Idle)) ⟨.start _ _ _ _ _ _, rfl, fun hauto => ⟨hauto, rfl, rfl, rfl, fun _ => rfl⟩⟩ ?_
    intro trace s l s' ⟨haccounted, hattached, hidle⟩ hstep hguard
    exact ⟨haccounted.step hattached hstep hguard, step_attached hattached hstep,
      fun hauto => step_idle (hidle hauto) hstep⟩
  have hcount : s.mux.receiver.unsettledMessages = [] → s.mux.countUnsettled = 0 := by
    intro hnil
    rw [ReceiverMux.countUnsettled, hnil]
    rfl
  refine ⟨?_, ?_, ?_⟩
  · intro n c hc hreturned
    rw [haccounted.mem_unsettled_iff hc hreturned, Bool.not_eq_true]
  · intro hall
    rw [← haccounted.unsettled_nil_iff hall]
    exact ⟨And.right, fun hnil => ⟨hcount hnil, hnil⟩⟩
  · intro hall hunsettled
    have hnil := (haccounted.unsettled_nil_iff hall).mpr hunsettled
    constructor
    · intro hdrained
      have hgives : s.mux.maxCredit - s.mux.availableCredit + s.mux.availableCredit = s.mux.maxCredit := by grind
      rw [Creditor.issueCredit, hdrained, hcount hnil, UInt32.add_zero, hgives]
      simp [hdrained]
    · intro hauto hphase hmax hdue hless
      exact (hidle hauto).restores hphase hnil hmax hdue hless

namespace ReceiverLink

/-- A test that implies `NewTags`: there is no message before the one that is received. -/
def firstOnly (_ : Trace SettleInput ReceiverEvent) (s : ReceiverLink) : SettleInput → Bool
  | .mux (.rx (.transfer _)) => (s.held ++ s.mux.receiver.messages).isEmpty
  | _ => true

theorem newTags_of_firstOnly (trace : Trace SettleInput ReceiverEvent) (s : ReceiverLink) (i : SettleInput)
    (events : List ReceiverEvent) (h : firstOnly trace s i = true) : NewTags trace s (i, events) := by
  intro fr m hi _
  dsimp only at hi
  subst hi
  simp only [firstOnly, List.isEmpty_iff] at h
  rw [h]
  exact not_mem_nil

/-- A message that the peer sends settled is received by the application, and a call to accept it returns. -/
def acceptSettled : List SettleInput :=
  [.mux .check, .mux .issue, .mux .flowBits, .mux .muxFlow, .mux .handOver,
    .mux (.rx (.transfer { Receiver.firstOf 1 false Receiver.dataSection with settled := true })), .mux .receive,
    acceptMessage 0 0]

/-- A call has returned without an error. -/
def returnedNil (c : SettleCall) : Bool :=
  match c.phase with
  | .returned none => true
  | _ => false

theorem phase_of_returnedNil {c : SettleCall} (h : returnedNil c = true) : c.phase = .returned none := by
  unfold returnedNil at h
  split at h
  · assumption
  · cases h

end ReceiverLink

/-- The peer settles the message, the call returns, and the credit of the message is released. -/
theorem released_iff_sent_unsettled_one :
    ∃ (trace : Trace SettleInput ReceiverEvent) (s : ReceiverLink) (c : SettleCall),
      RunIf (Fires ReceiverLink.step) NewTags (.start 0 (some .second) 0 0 true 2 false) trace s ∧
      s.calls 0 = some c ∧ c.phase = .returned none ∧
      (c.message.tag ∉ s.mux.receiver.unsettledMessages ↔ c.message.settled = false) := by
  have hexec : ((execIf ReceiverLink.step firstOnly [] (.start 0 (some .second) 0 0 true 2 false)
      (acceptFirst ++ answer true ++ [.complete 0])).bind fun res =>
        (res.2.calls 0).map returnedNil) = some true := by decide +kernel
  obtain ⟨⟨trace, s⟩, hexec, hcall⟩ := Option.bind_eq_some_iff.mp hexec
  obtain ⟨c, hc, hreturned⟩ := Option.map_eq_some_iff.mp hcall
  have hphase := phase_of_returnedNil hreturned
  have hrun := RunIf.of_execIf newTags_of_firstOnly _ .start hexec
  exact ⟨trace, s, c, hrun, hc, hphase, (released_iff_sent_unsettled 0 0 0 true 2 false hrun).1 0 c hc hphase⟩

/-- The peer has sent the message settled: the call returns without an error, for the only message, which
    still counts as unsettled. -/
theorem sent_settled_stays_unsettled :
    ∃ (trace : Trace SettleInput ReceiverEvent) (s : ReceiverLink) (c : SettleCall),
      RunIf (Fires ReceiverLink.step) NewTags (.start 0 (some .second) 0 0 true 2 false) trace s ∧
      s.held.length = 1 ∧ s.mux.receiver.messages = [] ∧ s.calls 0 = some c ∧ c.msg = 0 ∧ c.phase = .returned none ∧
      s.mux.receiver.unsettledMessages = [c.message.tag] ∧ s.mux.countUnsettled = 1 := by
  have hexec : ((execIf ReceiverLink.step firstOnly [] (.start 0 (some .second) 0 0 true 2 false)
      acceptSettled).bind fun res => (res.2.calls 0).map fun c =>
        (returnedNil c, res.2.held.length, res.2.mux.receiver.messages.isEmpty, c.msg,
          decide (res.2.mux.receiver.unsettledMessages = [c.message.tag]), res.2.mux.countUnsettled))
      = some (true, 1, true, 0, true, 1) := by decide +kernel
  obtain ⟨⟨trace, s⟩, hexec, hcall⟩ := Option.bind_eq_some_iff.mp hexec
  obtain ⟨c, hc, hres⟩ := Option.map_eq_some_iff.mp hcall
  simp only [Prod.mk.injEq, decide_eq_true_eq, List.isEmpty_iff] at hres
  obtain ⟨hreturned, hheld, hmessages, hmsg, hunsettled, hcount⟩ := hres
  exact ⟨trace, s, c, RunIf.of_execIf newTags_of_firstOnly _ .start hexec, hheld, hmessages, hc, hmsg,
    phase_of_returnedNil hreturned, hunsettled, hcount⟩

end GoAmqp
