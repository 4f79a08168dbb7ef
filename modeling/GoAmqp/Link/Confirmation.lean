import GoAmqp.Link.ReceiverLink
import GoAmqp.Link.Reassembly

set_option autoImplicit false

/-! # What a settlement call takes for a confirmation

A call in mode second takes any value from its channel for the peer's confirmation. The loop of
`inFlight.remove` sends to every channel in its range, whether the disposition is settled or not, and
`inFlight.clear` sends to all of them. The loop compares before it increments, so that a range that ends
at `2 ^ 32 - 1` goes round through all ids.

The proof follows the channels: as long as every loop that can still reach the channel of a call is
there for a disposition that confirms its message, so is every value in a channel. -/

namespace GoAmqp

open Lib Function

variable {i last : UInt32} {m : ReceiverMux} {events : List ReceiverEvent}

/-- The disposition settles the delivery-id at the sender. -/
structure PerformDisposition.Confirms (fr : PerformDisposition) (id : UInt32) : Prop where
  role : fr.role = Role.sender
  settled : fr.settled = true
  covers : fr.first ≤ id ∧ id ≤ fr.last.getD fr.first

namespace ReceiverLink

/-- The call has registered its message. -/
def Registered (trace : Trace SettleInput ReceiverEvent) (n : Nat) : Prop := ∃ l ∈ trace, l.1 = .register n

/-- A disposition that confirms the delivery-id was received after the call had registered. -/
def Confirmed (trace : Trace SettleInput ReceiverEvent) (n : Nat) (id : UInt32) : Prop :=
  ∃ after l before fr, trace = after ++ l :: before ∧ l.1 = .mux (.rx (.disposition fr)) ∧
    fr.Confirms id ∧ Registered before n

/-- The loop of `inFlight.remove` from `i` to `last` comes to `id`. -/
def Reaches (i last id : UInt32) : Prop := i ≤ id ∧ id ≤ last ∨ last = 0xFFFFFFFF

/-- A channel that is sent to belongs to a call whose message the peer has settled. -/
structure Confirming (_ : Trace SettleInput ReceiverEvent) (s : ReceiverLink)
    (l : SettleInput × List ReceiverEvent) : Prop where
  disposition : ∀ fr, l.1 = .mux (.rx (.disposition fr)) → ∀ id n, s.inFlight id = some n →
    Reaches fr.first (fr.last.getD fr.first) id → fr.Confirms id
  clear : l.1 = .mux .clear → ∀ id, s.inFlight id = none
  send : ∀ connected x todo, l.1 = .batchSend connected → s.batcherPhase = .sending (x :: todo) →
    (connected = false ∨ ∃ err, s.mux.phase = .exited err) → ∀ id n, s.inFlight id = some n →
    ¬ Reaches x.first (x.last.getD x.first) id

section

variable {trace : Trace SettleInput ReceiverEvent} {l : SettleInput × List ReceiverEvent}
  {s s' : ReceiverLink} {n : Nat} {id : UInt32}

theorem Registered.cons (h : Registered trace n) : Registered (l :: trace) n := by
  obtain ⟨l', hl', hregister⟩ := h
  exact ⟨l', List.mem_cons_of_mem _ hl', hregister⟩

theorem Confirmed.cons (h : Confirmed trace n id) : Confirmed (l :: trace) n id := by
  obtain ⟨after, l', before, fr, rfl, hrest⟩ := h
  exact ⟨l :: after, l', before, fr, rfl, hrest⟩

theorem reaches_self (h : i ≤ last) : Reaches i last i := .inl ⟨UInt32.le_refl i, h⟩

/-- What the loop reaches after a round, it reaches before. -/
theorem Reaches.of_next (h : Reaches (i + 1) last id) (hle : i ≤ last) : Reaches i last id := by
  rcases h with ⟨hlow, hhigh⟩ | hmax
  · by_cases hlast : last = 0xFFFFFFFF
    · exact .inr hlast
    · refine .inl ⟨?_, hhigh⟩
      have hne : last.toNat ≠ 4294967295 := fun heq => hlast (UInt32.toNat_inj.mp heq)
      have hlt := last.toNat_lt
      rw [UInt32.le_iff_toNat_le] at hle hlow ⊢
      rw [UInt32.toNat_add, UInt32.toNat_one] at hlow
      omega
  · exact .inr hmax

/-! ## The invariant -/

/-- What is known of the channels. -/
structure Channels (trace : Trace SettleInput ReceiverEvent) (s : ReceiverLink) : Prop where
  flight : ∀ id n, s.inFlight id = some n → ∃ c, s.calls n = some c ∧ c.message.deliveryID = id ∧ Registered trace n
  waits : ∀ n c err, s.calls n = some c → c.wait = some err → Confirmed trace n c.message.deliveryID

/-- Channels have values only for deliveries that the peer has confirmed, and the loops in progress keep to this. -/
structure Tracked (trace : Trace SettleInput ReceiverEvent) (s : ReceiverLink) : Prop where
  channels : Channels trace s
  mux : ∀ i last err flow, s.mux.phase = .removing i last err flow → ∀ id n, s.inFlight id = some n →
    Reaches i last id → Confirmed trace n id
  batcher : ∀ i last e todo, s.batcherPhase = .removing i last e todo → ∀ id n, s.inFlight id = some n →
    ¬ Reaches i last id

theorem Tracked.start (maxMessageSize : UInt64) (mode : Option ReceiverSettleMode)
    (initialDeliveryCount handle : UInt32) (autoSendFlow : Bool) (maxCredit : UInt32) (batching : Bool) :
    Tracked [] (.start maxMessageSize mode initialDeliveryCount handle autoSendFlow maxCredit batching) := by
  refine ⟨⟨?_, ?_⟩, ?_, ?_⟩
  · intro id n h
    cases h
  · intro n c err h
    cases h
  · intro i last err flow h
    cases h
  · intro i last e todo h
    cases h

/-- No call is lost, and no channel gets a value. -/
structure KeepsCalls (s s' : ReceiverLink) : Prop where
  kept : ∀ n c, s.calls n = some c → ∃ c', s'.calls n = some c' ∧ c'.message = c.message
  waits : ∀ n c' err, s'.calls n = some c' → c'.wait = some err →
    ∃ c, s.calls n = some c ∧ c.wait = some err ∧ c'.message = c.message

theorem KeepsCalls.of_eq (h : s'.calls = s.calls) : KeepsCalls s s' := by
  constructor
  · intro n c hc
    exact ⟨c, by rw [h]; exact hc, rfl⟩
  · intro n c err hc hwait
    exact ⟨c, by rw [← h]; exact hc, hwait, rfl⟩

/-- One call changes, and its channel does not get a value. -/
theorem KeepsCalls.of_update {c c' : SettleCall} (hcalls : s'.calls = update s.calls n (some c'))
    (hn : s.calls n = some c) (hmessage : c'.message = c.message) (hwait : c'.wait = c.wait ∨ c'.wait = none) :
    KeepsCalls s s' := by
  constructor
  · intro n' d hd
    by_cases heq : n' = n
    · subst heq
      rw [hn] at hd
      cases hd
      exact ⟨c', by rw [hcalls, update_self], hmessage⟩
    · exact ⟨d, by rw [hcalls, update_of_ne heq]; exact hd, rfl⟩
  · intro n' d err hd hwait'
    rw [hcalls] at hd
    by_cases heq : n' = n
    · subst heq
      rw [update_self] at hd
      cases hd
      rcases hwait with hsame | hnone
      · exact ⟨c, hn, by rw [← hsame]; exact hwait', hmessage⟩
      · rw [hnone] at hwait'
        cases hwait'
    · rw [update_of_ne heq] at hd
      exact ⟨d, hd, hwait', rfl⟩

theorem Channels.keep (h : Channels trace s) (hflight : ∀ id n, s'.inFlight id = some n → s.inFlight id = some n)
    (hcalls : KeepsCalls s s') : Channels (l :: trace) s' := by
  constructor
  · intro id n hin
    obtain ⟨c, hc, hid, hregistered⟩ := h.flight id n (hflight id n hin)
    obtain ⟨c', hc', hmessage⟩ := hcalls.kept n c hc
    exact ⟨c', hc', by rw [hmessage]; exact hid, hregistered.cons⟩
  · intro n c' err hc' hwait
    obtain ⟨c, hc, hwait, hmessage⟩ := hcalls.waits n c' err hc' hwait
    rw [hmessage]
    exact (h.waits n c err hc hwait).cons

variable (h : Tracked trace s)

include h

/-- A step in which no loop begins and no channel gets a value. -/
theorem Tracked.keep (hflight : s'.inFlight = s.inFlight) (hcalls : KeepsCalls s s')
    (hmux : s'.mux.phase = s.mux.phase ∨ muxLocks s'.mux.phase = false)
    (hbatcher : s'.batcherPhase = s.batcherPhase ∨ batcherLocks s'.batcherPhase = false) :
    Tracked (l :: trace) s' := by
  refine ⟨h.channels.keep (fun id n hin => by rwa [hflight] at hin) hcalls, ?_, ?_⟩
  · intro i last err flow hphase id n hin hreaches
    rw [hflight] at hin
    rcases hmux with hsame | hlocks
    · exact (h.mux i last err flow (hsame ▸ hphase) id n hin hreaches).cons
    · rw [hphase] at hlocks
      cases hlocks
  · intro i last e todo hphase id n hin
    rw [hflight] at hin
    rcases hbatcher with hsame | hlocks
    · exact h.batcher i last e todo (hsame ▸ hphase) id n hin
    · rw [hphase] at hlocks
      cases hlocks

/-! ## The loop of `inFlight.remove` -/

omit h in
theorem removeID_inFlight {err : Option SettleError} {id' : UInt32}
    (h : (s.removeID id err).inFlight id' = some n) : s.inFlight id' = some n := by
  unfold removeID at h
  split at h
  · dsimp only at h
    by_cases heq : id' = id
    · subst heq
      rw [update_self] at h
      cases h
    · rwa [update_of_ne heq] at h
  · exact h

omit h in
/-- A round of the loop for a delivery-id that is confirmed. -/
theorem Channels.removeID (h : Channels trace s) (hconfirmed : ∀ n, s.inFlight id = some n → Confirmed trace n id)
    (err : Option SettleError) : Channels (l :: trace) (s.removeID id err) := by
  have hsub : ∀ id' n, (s.removeID id err).inFlight id' = some n → s.inFlight id' = some n :=
    fun _ _ => removeID_inFlight
  unfold ReceiverLink.removeID at hsub ⊢
  split at hsub
  · next n hn =>
    obtain ⟨c, hc, hid, hregistered⟩ := h.flight id n hn
    have hcalls : ∀ n', update s.calls n ((s.calls n).map fun c => { c with wait := some err }) n'
        = if n' = n then some { c with wait := some err } else s.calls n' := by
      intro n'
      rw [update_apply, hc]
      rfl
    constructor
    · intro id' n' hin
      obtain ⟨c', hc', hid', hregistered'⟩ := h.flight id' n' (hsub id' n' hin)
      dsimp only
      rw [hcalls]
      split
      · next heq =>
        subst heq
        rw [hc] at hc'
        cases hc'
        exact ⟨_, rfl, hid', hregistered'.cons⟩
      · exact ⟨c', hc', hid', hregistered'.cons⟩
    · intro n' c' err' hc' hwait
      dsimp only at hc'
      rw [hcalls] at hc'
      split at hc'
      · next heq =>
        subst heq
        cases hc'
        rw [hid]
        exact (hconfirmed n' hn).cons
      · exact (h.waits n' c' err' hc' hwait).cons
  · exact h.keep (fun _ _ hin => hin) (.of_eq rfl)

/-- A round of the mux's loop. -/
theorem Tracked.muxRound {err : Option (AmqpError Value)} {flow : Option PerformFlow}
    (hphase : s.mux.phase = .removing i last err flow) (hle : i ≤ last)
    (hnext : m.phase = .removing (i + 1) last err flow) (hbatcher : batcherLocks s.batcherPhase = false)
    (err' : Option SettleError) : Tracked (l :: trace) ({ s with mux := m }.removeID i err') := by
  have hchannels : Channels trace { s with mux := m } := ⟨h.channels.flight, h.channels.waits⟩
  have hsame : ({ s with mux := m }.removeID i err').mux = m ∧
      ({ s with mux := m }.removeID i err').batcherPhase = s.batcherPhase := by
    unfold ReceiverLink.removeID
    split <;> exact ⟨rfl, rfl⟩
  have hconfirmed := fun n hn => h.mux i last err flow hphase i n hn (reaches_self hle)
  refine ⟨hchannels.removeID hconfirmed err', ?_, ?_⟩
  · rw [hsame.1]
    intro i' last' err'' flow' hphase' id n hin hreaches
    rw [hnext] at hphase'
    cases hphase'
    have hin' : s.inFlight id = some n := removeID_inFlight (s := { s with mux := m }) hin
    exact (h.mux i last err flow hphase id n hin' (hreaches.of_next hle)).cons
  · rw [hsame.2]
    intro i' last' e todo hphase'
    rw [hphase'] at hbatcher
    cases hbatcher

/-- The mux gets a disposition that confirms what its loop reaches. -/
theorem Tracked.muxBegan {fr : PerformDisposition} {flow : Option PerformFlow}
    (hphase : m.phase = .removing fr.first (fr.last.getD fr.first) (ReceiverMux.dispositionError fr.state) flow)
    (hconfirms : ∀ id n, s.inFlight id = some n → Reaches fr.first (fr.last.getD fr.first) id → fr.Confirms id)
    (hbatcher : batcherLocks s.batcherPhase = false) :
    Tracked ((.mux (.rx (.disposition fr)), events) :: trace) { s with mux := m } := by
  refine ⟨h.channels.keep (fun _ _ hin => hin) (.of_eq rfl), ?_, ?_⟩
  · intro i last err flow' hphase' id n hin hreaches
    rw [show m.phase = _ from hphase'] at hphase
    cases hphase
    obtain ⟨-, -, -, hregistered⟩ := h.channels.flight id n hin
    exact ⟨[], _, trace, fr, rfl, rfl, hconfirms id n hin hreaches, hregistered⟩
  · intro i last e todo hphase'
    rw [show s.batcherPhase = _ from hphase'] at hbatcher
    cases hbatcher

/-- Nothing is in flight when the channels are cleared. -/
theorem Tracked.muxCleared (hnone : ∀ id, s.inFlight id = none) (hlocks : muxLocks m.phase = false)
    (err : Option SettleError) : Tracked (l :: trace) ({ s with mux := m }.clear err) := by
  have hcalls : ({ s with mux := m }.clear err).calls = s.calls := by
    funext n
    simp [ReceiverLink.clear, hnone]
  exact h.keep (by funext id; exact (hnone id).symm) (.of_eq hcalls) (.inr hlocks) (.inl rfl)

/-- A round of the batcher's loop finds nothing in flight. -/
theorem Tracked.batcherRound {e : SettleError} {todo : List SendDisposition}
    (hphase : s.batcherPhase = .removing i last e todo) (hle : i ≤ last) :
    Tracked (l :: trace) { s.removeID i (some e) with batcherPhase := .removing (i + 1) last e todo } := by
  have hnone : s.inFlight i = none := by
    cases hin : s.inFlight i with
    | none => rfl
    | some n => exact absurd (reaches_self hle) (h.batcher i last e todo hphase i n hin)
  have hsame : s.removeID i (some e) = s := by rw [ReceiverLink.removeID, hnone]
  rw [hsame]
  refine ⟨h.channels.keep (fun _ _ hin => hin) (.of_eq rfl), ?_, ?_⟩
  · intro i' last' err flow hphase' id n hin hreaches
    exact (h.mux i' last' err flow hphase' id n hin hreaches).cons
  · intro i' last' e' todo' hphase' id n hin hreaches
    cases hphase'
    exact h.batcher i last e todo hphase id n hin (hreaches.of_next hle)

/-! ## Steps -/

theorem Tracked.registered {c : SettleCall} (hc : s.calls n = some c) (hmux : muxLocks s.mux.phase = false)
    (hbatcher : batcherLocks s.batcherPhase = false) : Tracked ((.register n, events) :: trace) (s.register n c) := by
  have hcalls : KeepsCalls s (s.register n c) := .of_update rfl hc rfl (.inl rfl)
  refine ⟨⟨?_, ?_⟩, ?_, ?_⟩
  · intro id n' hin
    by_cases heq : id = c.message.deliveryID
    · subst heq
      have hin' : some n = some n' := by simpa [ReceiverLink.register] using hin
      cases hin'
      obtain ⟨c', hc', hmessage⟩ := hcalls.kept n c hc
      exact ⟨c', hc', by rw [hmessage], ⟨_, List.mem_cons_self .., rfl⟩⟩
    · have hin' : s.inFlight id = some n' := by simpa [ReceiverLink.register, update_of_ne heq] using hin
      obtain ⟨d, hd, hid, hregistered⟩ := h.channels.flight id n' hin'
      obtain ⟨d', hd', hmessage⟩ := hcalls.kept n' d hd
      exact ⟨d', hd', by rw [hmessage]; exact hid, hregistered.cons⟩
  · intro n' c' err hc' hwait
    obtain ⟨d, hd, hwait, hmessage⟩ := hcalls.waits n' c' err hc' hwait
    rw [hmessage]
    exact (h.channels.waits n' d err hd hwait).cons
  · intro i last err flow hphase
    rw [show s.mux.phase = _ from hphase] at hmux
    cases hmux
  · intro i last e todo hphase
    rw [show s.batcherPhase = _ from hphase] at hbatcher
    cases hbatcher

theorem Tracked.entered {k : Nat} {m : Message} {state : DeliveryState Value} (hn : s.calls n = none)
    : Tracked (l :: trace) (s.enter n k m state) := by
  refine h.keep rfl ⟨?_, ?_⟩ (.inl rfl) (.inl rfl)
  · intro n' c hc
    have hne : n' ≠ n := by
      rintro rfl
      rw [hn] at hc
      cases hc
    exact ⟨c, by simpa [enter, setCall, update_of_ne hne] using hc, rfl⟩
  · intro n' c err hc hwait
    by_cases heq : n' = n
    · subst heq
      have hc' : some _ = some c := (by simpa [enter, setCall] using hc)
      cases hc'
      cases hwait
    · exact ⟨c, by simpa [enter, setCall, update_of_ne heq] using hc, hwait, rfl⟩

/-- A step of the mux. -/
theorem Tracked.muxStep {i : ReceiverInput} (hstep : s.mux.step i = some (m, events))
    (hlocks : muxLocks m.phase = true → batcherLocks s.batcherPhase = false)
    (hguard : Confirming trace s (.mux i, events)) :
    Tracked ((.mux i, events) :: trace) (events.foldl handle { s with mux := m }) := by
  cases step_signals hstep with
  | began fr flow _ hphase =>
    exact h.muxBegan hphase (hguard.disposition fr rfl) (hlocks (by rw [hphase]; rfl))
  | round i last err flow _ hphase hle hnext =>
    exact h.muxRound hphase hle hnext (hlocks (by rw [hnext]; rfl)) _
  | cleared err _ hunlocked => exact h.muxCleared (hguard.clear rfl) hunlocked _
  | took msg _ hphase => exact h.keep rfl (.of_eq rfl) (.inl hphase) (.inl rfl)
  | quiet _ _ _ hquiet hphase =>
    rw [foldl_handle hquiet]
    exact h.keep rfl (.of_eq rfl) hphase (.inl rfl)

omit h in
theorem sendError_isSome {connected : Bool} {e : SettleError} (h : s.sendError connected = some e) :
    connected = false ∨ ∃ err, s.mux.phase = .exited err := by
  unfold sendError at h
  split at h
  · next err hphase => exact .inr ⟨err, hphase⟩
  · split at h
    · cases h
    · next hconnected => exact .inl (by simpa using hconnected)

theorem Tracked.step (hstep : Fires ReceiverLink.step s l s') (hguard : Confirming trace s l)
    : Tracked (l :: trace) s' := by
  obtain ⟨i, events⟩ := l
  cases step_effect hstep with
  | mux i _ m _ hmux hlocks => exact h.muxStep hmux hlocks hguard
  | entered n k m state hn => exact h.entered hn
  | registered n c hc _ hmux hbatcher => exact h.registered hc hmux hbatcher
  | moved _ _ n c phase dispositions hc _ =>
    exact h.keep rfl (.of_update rfl hc rfl (.inl rfl)) (.inl rfl) (.inl rfl)
  | completed n c err hc _ _ => exact h.keep rfl (.of_update rfl hc rfl (.inr rfl)) (.inl rfl) (.inl rfl)
  | batched _ _ dispositions batcher frames =>
    exact h.keep rfl (.of_eq rfl) (.inl rfl) (.inr (batcherLocks_after frames))
  | batcherMoved _ _ phase hphase => exact h.keep rfl (.of_eq rfl) (.inl rfl) (.inr hphase)
  | fired => exact h.keep rfl (.of_eq rfl) (.inl rfl) (.inl rfl)
  | failed connected x todo e hphase herror _ =>
    refine ⟨h.channels.keep (fun _ _ hin => hin) (.of_eq rfl), ?_, ?_⟩
    · intro i last err flow hphase' id n hin hreaches
      exact (h.mux i last err flow hphase' id n hin hreaches).cons
    · intro i last e' todo' hphase'
      cases hphase'
      exact hguard.send connected x todo rfl hphase (sendError_isSome herror)
  | removed i last e todo hphase hle => exact h.batcherRound hphase hle

end

/-! ## What a step settles -/

/-- The mux takes no message out of the unsettled ones. -/
theorem muxStep_unsettled {m' : ReceiverMux} {i : ReceiverInput} (hattached : m.receiver.detached = none)
    (hstep : m.step i = some (m', events)) (hi : ∀ tag, i ≠ .deleteUnsettled tag) :
    ∀ tag ∈ m.receiver.unsettledMessages, tag ∈ m'.receiver.unsettledMessages := by
  intro tag htag
  cases ReceiverMux.step_touches hstep with
  | received fr _ hreceiver =>
    have heffect := Receiver.muxReceive_effect hattached fr
    rw [← hreceiver] at heffect
    generalize m'.receiver = r at heffect ⊢
    cases heffect with
    | kept => exact htag
    | received msg =>
      simp only [Receiver.received, Receiver.unsettledAfter]
      split
      · exact List.mem_insert_of_mem htag
      · exact htag
  | took => exact htag
  | deleted tag' => exact absurd rfl (hi tag')
  | kept _ _ _ credit _ hreceiver => rw [hreceiver]; exact htag

/-- Nothing that is held is settled, and nothing ceases to be unsettled. -/
structure SettlesNothing (s s' : ReceiverLink) : Prop where
  settled : ∀ k, k < s.held.length → s'.settled k = s.settled k
  unsettled : ∀ tag ∈ s.mux.receiver.unsettledMessages, tag ∈ s'.mux.receiver.unsettledMessages

theorem handle_settles {s : ReceiverLink} {i : ReceiverInput} (hattached : s.mux.receiver.detached = none)
    (hadmits : s.admits i = true) (hstep : s.mux.step i = some (m, events)) :
    SettlesNothing s (events.foldl handle { s with mux := m }) := by
  have hunsettled := muxStep_unsettled hattached hstep (fun tag hi => by rw [hi] at hadmits; cases hadmits)
  cases step_signals hstep with
  | began fr flow _ _ => exact ⟨fun _ _ => rfl, hunsettled⟩
  | round i last err flow _ _ _ _ =>
    obtain ⟨hsettled, hmux, -⟩ := removeID_frame { s with mux := m } i (err.map .rejected)
    refine ⟨fun k _ => ?_, ?_⟩
    · show ({ s with mux := m }.removeID i (err.map .rejected)).settled k = s.settled k
      rw [hsettled]
    · show ∀ tag ∈ s.mux.receiver.unsettledMessages,
        tag ∈ ({ s with mux := m }.removeID i (err.map .rejected)).mux.receiver.unsettledMessages
      rwa [hmux]
  | cleared err _ _ => exact ⟨fun _ _ => rfl, hunsettled⟩
  | took msg _ _ => exact ⟨fun k hk => update_of_ne (Nat.ne_of_lt hk) _ _, hunsettled⟩
  | quiet _ _ _ hquiet _ =>
    rw [foldl_handle hquiet]
    exact ⟨fun _ _ => rfl, hunsettled⟩

/-- Messages are settled by a call that gets a value from its channel, and by nothing else. -/
theorem settles_by_complete {s s' : ReceiverLink} {i : SettleInput}
    (hattached : s.mux.receiver.detached = none) (h : s.step i = some (s', events)) :
    SettlesNothing s s' ∨ ∃ n c err, i = .complete n ∧ s.calls n = some c ∧ c.wait = some err ∧
      s' = s.completed n c err := by
  have hsame : ∀ {s' : ReceiverLink}, s'.settled = s.settled → s'.mux = s.mux → SettlesNothing s s' :=
    fun hsettled hmux => ⟨fun k _ => by rw [hsettled], by rw [hmux]; exact fun _ htag => htag⟩
  cases step_effect h with
  | mux i _ m hadmits hmux _ => exact .inl (handle_settles hattached hadmits hmux)
  | completed n c err hc _ hwait => exact .inr ⟨n, c, err, rfl, hc, hwait, rfl⟩
  | removed i last e todo =>
    obtain ⟨hsettled, hmux, -⟩ := removeID_frame s i (some e)
    exact .inl (hsame hsettled hmux)
  | entered | registered | moved | batched | fired | batcherMoved | failed => exact .inl (hsame rfl rfl)

/-- The mux has not closed `detached` while it runs. -/
theorem step_attached {s s' : ReceiverLink} {i : SettleInput} (hattached : s.mux.receiver.detached = none)
    (h : s.step i = some (s', events)) : s'.mux.receiver.detached = none := by
  rcases step_mux h with hmux | ⟨j, events', hstep, -⟩
  · rw [hmux]
    exact hattached
  · exact ReceiverMux.step_attached hattached hstep

end ReceiverLink

open ReceiverLink

/-- **Settlement is confirmed.** In every run in which a channel is sent to only for a disposition that
    settles the message at the sender, a step that settles a message the application holds, or takes one
    out of the unsettled messages, is a call that returns, and a disposition that settles its message was
    received after the call had registered it. -/
theorem settled_when_confirmed (maxMessageSize : UInt64) (mode : Option ReceiverSettleMode)
    (initialDeliveryCount handle : UInt32) (autoSendFlow : Bool) (maxCredit : UInt32) (batching : Bool)
    {trace : Trace SettleInput ReceiverEvent} {s s' : ReceiverLink}
    {l : SettleInput × List ReceiverEvent}
    (hrun : RunIf (Fires ReceiverLink.step) Confirming
      (.start maxMessageSize mode initialDeliveryCount handle autoSendFlow maxCredit batching) trace s)
    (hstep : Fires ReceiverLink.step s l s') :
    (∀ k, k < s.held.length → s'.settled k ≠ s.settled k → ∃ n c, l.1 = .complete n ∧ s.calls n = some c ∧
      c.msg = k ∧ Confirmed trace n c.message.deliveryID) ∧
    (∀ tag ∈ s.mux.receiver.unsettledMessages, tag ∉ s'.mux.receiver.unsettledMessages →
      ∃ n c, l.1 = .complete n ∧ s.calls n = some c ∧ c.message.tag = tag ∧
        Confirmed trace n c.message.deliveryID) := by
  obtain ⟨htracked, hattached⟩ : Tracked trace s ∧ s.mux.receiver.detached = none := by
    refine hrun.invariant (P := fun trace (s : ReceiverLink) =>
      Tracked trace s ∧ s.mux.receiver.detached = none) ⟨.start _ _ _ _ _ _ _, rfl⟩ ?_
    intro trace s l s' h hstep hguard
    exact ⟨h.1.step hstep hguard, step_attached h.2 hstep⟩
  rcases settles_by_complete hattached hstep with hnothing | ⟨n, c, err, hi, hc, hwait, rfl⟩
  · refine ⟨fun k hk hne => absurd (hnothing.settled k hk) hne, ?_⟩
    intro tag htag hgone
    exact absurd (hnothing.unsettled tag htag) hgone
  · have hconfirmed := htracked.channels.waits n c err hc hwait
    constructor
    · intro k _ hne
      refine ⟨n, c, hi, hc, ?_, hconfirmed⟩
      by_contra hother
      exact hne (update_of_ne (Ne.symm hother) _ _)
    · intro tag htag hgone
      refine ⟨n, c, hi, hc, ?_, hconfirmed⟩
      by_contra hother
      exact hgone ((List.mem_erase_of_ne (Ne.symm hother)).mpr htag)

namespace ReceiverLink

/-- One message is received by the application, and a call to accept it waits for its channel. -/
def acceptFirst : List SettleInput :=
  [.mux .check, .mux .issue, .mux .flowBits, .mux .muxFlow, .mux .handOver,
    .mux (.rx (.transfer (Receiver.firstOf 1 false Receiver.dataSection))), .mux .receive,
    acceptMessage 0 0, .register 0, .send 0 true, .mux .check, .mux .flowBits]

/-- A disposition of the peer for the delivery-id 1. -/
def dispositionOf (settled : Bool) : PerformDisposition :=
  { role := .sender, first := 1, last := none, settled := settled, state := some .accepted, batchable := false }

/-- The disposition and the loop of `inFlight.remove` for it. -/
def answer (settled : Bool) : List SettleInput :=
  [.mux (.rx (.disposition (dispositionOf settled))), .mux .removeRound, .mux .removeRound]

/-- A test that implies `Confirming`: all dispositions confirm what they reach, and nothing fails. -/
def confirmsAll (_ : Trace SettleInput ReceiverEvent) (_ : ReceiverLink) : SettleInput → Bool
  | .mux (.rx (.disposition fr)) =>
    fr.role == Role.sender && fr.settled && fr.last.getD fr.first != 0xFFFFFFFF
  | .mux .clear => false
  | .batchSend _ => false
  | _ => true

theorem confirming_of_confirmsAll (trace : Trace SettleInput ReceiverEvent) (s : ReceiverLink) (i : SettleInput)
    (events : List ReceiverEvent) (h : confirmsAll trace s i = true) : Confirming trace s (i, events) := by
  refine ⟨?_, ?_, ?_⟩
  · rintro fr hi id n - hreaches
    dsimp only at hi
    subst hi
    simp only [confirmsAll, Bool.and_eq_true, beq_iff_eq, bne_iff_ne, ne_eq] at h
    obtain ⟨⟨hrole, hsettled⟩, hlast⟩ := h
    rcases hreaches with hcovers | hmax
    · exact ⟨hrole, hsettled, hcovers⟩
    · exact absurd hmax hlast
  · rintro hi
    dsimp only at hi
    subst hi
    cases h
  · rintro connected x todo hi
    dsimp only at hi
    subst hi
    cases h

end ReceiverLink

/-- The peer settles the message, and the call takes it for settled. -/
theorem settled_when_confirmed_one :
    ∃ (trace : Trace SettleInput ReceiverEvent) (s s' : ReceiverLink) (events : List ReceiverEvent),
      RunIf (Fires ReceiverLink.step) Confirming (.start 0 (some .second) 0 0 true 2 false) trace s ∧
      Fires ReceiverLink.step s (.complete 0, events) s' ∧ s.settled 0 = false ∧ s'.settled 0 = true ∧
      ∃ n c, (SettleInput.complete 0) = .complete n ∧ s.calls n = some c ∧ c.msg = 0 ∧
        Confirmed trace n c.message.deliveryID := by
  have hexec : ((execIf ReceiverLink.step confirmsAll [] (.start 0 (some .second) 0 0 true 2 false)
      (acceptFirst ++ answer true)).bind fun res =>
        (res.2.step (.complete 0)).map fun out =>
          (res.2.held.length, res.2.settled 0, out.1.settled 0)) = some (1, false, true) := by decide +kernel
  obtain ⟨⟨trace, s⟩, hexec, hstep⟩ := Option.bind_eq_some_iff.mp hexec
  obtain ⟨⟨s', events⟩, hstep, hres⟩ := Option.map_eq_some_iff.mp hstep
  simp only [Prod.mk.injEq] at hres
  obtain ⟨hheld, hbefore, hafter⟩ := hres
  have hrun := RunIf.of_execIf confirming_of_confirmsAll _ .start hexec
  refine ⟨trace, s, s', events, hrun, hstep, hbefore, hafter, ?_⟩
  exact (settled_when_confirmed 0 (some .second) 0 0 true 2 false hrun (l := (.complete 0, events)) hstep).1 0
    (by rw [hheld]; decide) (by rw [hbefore, hafter]; decide)

/-- The peer's disposition is not settled, and no other one is received: the call takes the message for
    settled all the same, and it is no longer among the unsettled ones. -/
theorem settled_by_unsettled_disposition :
    ∃ (trace : Trace SettleInput ReceiverEvent) (s : ReceiverLink),
      Run (Fires ReceiverLink.step) (.start 0 (some .second) 0 0 true 2 false) trace s ∧
      s.held.length = 1 ∧ s.settled 0 = true ∧ s.mux.receiver.unsettledMessages = [] ∧
      ∀ l ∈ trace, ∀ fr, l.1 = .mux (.rx (.disposition fr)) → fr.settled = false := by
  have hexec : (exec ReceiverLink.step [] (.start 0 (some .second) 0 0 true 2 false)
      (acceptFirst ++ answer false ++ [.complete 0])).map (fun res =>
        (res.2.held.length, res.2.settled 0, res.2.mux.receiver.unsettledMessages,
          res.1.all fun l => match l.1 with
            | .mux (.rx (.disposition fr)) => !fr.settled
            | _ => true)) = some (1, true, [], true) := by decide +kernel
  obtain ⟨⟨trace, s⟩, hexec, hres⟩ := Option.map_eq_some_iff.mp hexec
  simp only [Prod.mk.injEq] at hres
  obtain ⟨hheld, hsettled, hunsettled, hall⟩ := hres
  refine ⟨trace, s, .of_exec _ .start hexec, hheld, hsettled, hunsettled, ?_⟩
  intro l hl fr hfr
  have htest := List.all_eq_true.mp hall l hl
  rw [hfr] at htest
  simpa using htest

end GoAmqp
