import GoAmqp.Session.Senders

set_option autoImplicit false

/-! # Settlement

A `Done` channel waits in `settlementByDeliveryID` under the delivery-id of its message. A disposition of
the receiver finds it there only if the delivery is still tracked in `handlesByDeliveryID`, and every
disposition of the receiver ends that, settled or not.

`SettleInv` says that channels wait under the right id, `TrackInv` that they are found. -/

namespace GoAmqp

open Lib Function UInt32

variable {body : PerformDisposition} {d k : UInt32} {s s' : Session} {fr : PerformTransfer}
  {trace : Trace MuxInput MuxEvent} {l : LinkID} {events : List MuxEvent}

namespace Session

/-! ## One round -/

/-- A round finds a tracked delivery, or changes nothing about the deliveries sent. -/
inductive RoundEffect (s : Session) (body : PerformDisposition) (d : UInt32) (s' : Session)
    (events : List MuxEvent) : Prop
  | hit : d ≤ body.end_ → body.role = Role.receiver → s.handlesByDeliveryID d ≠ none →
      s'.handlesByDeliveryID = update s.handlesByDeliveryID d none →
      s'.settlementByDeliveryID = (if body.settled then update s.settlementByDeliveryID d none
        else s.settlementByDeliveryID) →
      (∀ c state, .settle c state ∈ events ↔
        body.settled = true ∧ s.settlementByDeliveryID d = some c ∧ state = body.state) →
      RoundEffect s body d s' events
  | miss : (d ≤ body.end_ → body.role = Role.receiver → s.handlesByDeliveryID d = none) →
      s'.handlesByDeliveryID = s.handlesByDeliveryID →
      s'.settlementByDeliveryID = s.settlementByDeliveryID →
      (∀ c state, .settle c state ∉ events) → RoundEffect s body d s' events

theorem settle_not_mem_forward (s : Session) (h : UInt32) (fr : FrameBody) (c : Nat)
    (state : Option (DeliveryState Value)) : .settle c state ∉ s.forward h fr := by
  intro hmem
  unfold forward at hmem
  split at hmem
  · rw [List.mem_singleton] at hmem
    cases hmem
  · cases hmem

/-- The confirmation of a settled disposition. -/
theorem confirm_receiver (s : Session) (d : UInt32) (hrole : body.role = Role.receiver) :
    (s.confirm body d).1.handlesByDeliveryID = s.handlesByDeliveryID ∧
    (s.confirm body d).1.settlementByDeliveryID = (if body.settled then
      update s.settlementByDeliveryID d none else s.settlementByDeliveryID) ∧
    ∀ c state, .settle c state ∈ (s.confirm body d).2 ↔
      body.settled = true ∧ s.settlementByDeliveryID d = some c ∧ state = body.state := by
  unfold confirm
  cases hset : body.settled with
  | false => simp
  | true =>
    cases hs : s.settlementByDeliveryID d with
    | none =>
      have hsame : update s.settlementByDeliveryID d none = s.settlementByDeliveryID := by
        rw [← hs]
        exact update_eq_self ..
      simp [hrole, hsame]
    | some done => simp [hrole, eq_comm]

theorem dispositionBody_effect (s : Session) (hle : d ≤ body.end_) :
    RoundEffect s body d (s.dispositionBody body d).1 (s.dispositionBody body d).2 := by
  rcases Bool.eq_false_or_eq_true body.role with hrole | hrole
  · have hrole : body.role = Role.receiver := hrole
    have hfor : s.handlesFor body.role d = s.handlesByDeliveryID d := by rw [hrole]; rfl
    have hdelete : s.deleteHandle body.role d =
        { s with handlesByDeliveryID := update s.handlesByDeliveryID d none } := by
      rw [hrole]; rfl
    unfold dispositionBody
    rw [hfor]
    cases htr : s.handlesByDeliveryID d with
    | none => exact .miss (fun _ _ => htr) rfl rfl (fun _ _ hmem => by cases hmem)
    | some h =>
      rw [hdelete]
      obtain ⟨hhandles, hsettle, hevents⟩ := confirm_receiver
        { s with handlesByDeliveryID := update s.handlesByDeliveryID d none } d hrole
      refine .hit hle hrole (by rw [htr]; exact Option.some_ne_none h) hhandles hsettle fun c state => ?_
      rw [← hevents c state, List.mem_append]
      exact or_iff_left (settle_not_mem_forward s h _ c state)
  · -- the role of the peer is sender: the map of received deliveries is the one that changes
    have hrole : body.role = Role.sender := hrole
    have hne : body.role ≠ Role.receiver := by rw [hrole]; decide
    have hconfirm : ∀ t : Session, t.confirm body d = (t, []) := by
      intro t
      unfold confirm
      rw [if_neg (fun h => hne h.2)]
    have hdelete : s.deleteHandle body.role d = { s with
        handlesByRemoteDeliveryID := update s.handlesByRemoteDeliveryID d none } := by
      rw [hrole]; rfl
    unfold dispositionBody
    split
    · exact .miss (fun _ h => absurd h hne) rfl rfl (fun _ _ hmem => by cases hmem)
    · next h _ =>
      rw [hconfirm, hdelete]
      exact .miss (fun _ h => absurd h hne) rfl rfl
        (fun c state hmem => settle_not_mem_forward s h _ c state hmem)

theorem dispositionRound_effect (s : Session) (body : PerformDisposition) (d : UInt32) :
    RoundEffect s body d (s.dispositionRound body d).1 (s.dispositionRound body d).2 := by
  unfold dispositionRound
  split
  · next hle =>
    cases dispositionBody_effect s hle with
    | hit h1 h2 h3 h4 h5 h6 => exact .hit h1 h2 h3 h4 h5 h6
    | miss h1 h2 h3 h4 => exact .miss h1 h2 h3 h4
  · next hle => exact .miss (fun h => absurd h hle) rfl rfl (fun _ _ hmem => by cases hmem)

theorem dispositionRound_phase (s : Session) (body : PerformDisposition) (d : UInt32) :
    (s.dispositionRound body d).1.phase =
      if d ≤ body.end_ then .disposition body (d + 1) else .select := by
  unfold dispositionRound
  split <;> rfl

theorem dispositionRound_deliveryIDByHandle (s : Session) (body : PerformDisposition) (d : UInt32) :
    (s.dispositionRound body d).1.deliveryIDByHandle = s.deliveryIDByHandle := by
  rw [dispositionRound_eq]

/-! ## One transfer -/

theorem txTransfer_deliveryIDByHandle (s : Session) (fr : PerformTransfer) :
    (s.txTransfer fr).1.deliveryIDByHandle = match fr.deliveryID with
      | some d => update s.deliveryIDByHandle fr.handle (some d)
      | none => s.deliveryIDByHandle := by
  cases hset : fr.settled <;> cases hid : fr.deliveryID <;> cases hdone : fr.done <;>
    simp [txTransfer, recordDeliveryID, forgetSettled, awaitSettlement, hset, hid, hdone]

theorem txTransfer_settlement (s : Session) (fr : PerformTransfer) :
    (s.txTransfer fr).1.settlementByDeliveryID =
      if fr.settled then s.settlementByDeliveryID
      else match fr.done with
        | some c => update s.settlementByDeliveryID (s.deliveryIDOf fr) (some c)
        | none => s.settlementByDeliveryID := by
  cases hset : fr.settled <;> cases hid : fr.deliveryID <;> cases hdone : fr.done <;>
    simp [txTransfer, recordDeliveryID, forgetSettled, awaitSettlement, hset, hid, hdone]

theorem txTransfer_phase (s : Session) (fr : PerformTransfer) : (s.txTransfer fr).1.phase = s.phase := by
  rw [txTransfer_eq]

/-- A channel that waits after a transfer is the transfer's, or waited before. -/
theorem txTransfer_waits {c : Nat} (h : (s.txTransfer fr).1.settlementByDeliveryID d = some c) :
    (fr.settled = false ∧ fr.done = some c ∧ s.deliveryIDOf fr = d) ∨ s.settlementByDeliveryID d = some c := by
  rw [txTransfer_settlement] at h
  split at h
  · exact .inr h
  · next hset =>
    cases hdone : fr.done with
    | none =>
      simp only [hdone] at h
      exact .inr h
    | some c' =>
      simp only [hdone] at h
      by_cases hd : d = s.deliveryIDOf fr
      · subst hd
        rw [update_self] at h
        exact .inl ⟨by simpa using hset, h, rfl⟩
      · rw [update_of_ne hd] at h
        exact .inr h

/-! ## Channels wait under the id of their own message -/

/-- The loop over the range of a disposition ends, or the range is everything. -/
def Bounded (body : PerformDisposition) : Prop := body.end_ ≠ 0xFFFFFFFF ∨ body.first = 0

instance (body : PerformDisposition) : Decidable (Bounded body) := inferInstanceAs (Decidable (_ ∨ _))

/-- The dispositions that arrive are bounded. -/
def InRange (i : MuxInput) : Prop := ∀ body, i = .rx (.disposition body) → Bounded body

/-- A transfer without a delivery-id comes from a link that has not been detached since the first
    transfer of the message. -/
def StillKnown (s : Session) (i : MuxInput) : Prop :=
  ∀ l fr, i = .txTransfer l fr → fr.deliveryID = none → s.deliveryIDByHandle fr.handle ≠ none

/-- Channels stand under the delivery they were given for, and a link in the middle of a delivery is known with its
    id. -/
structure SettleInv (trace : Trace MuxInput MuxEvent) (s : Session) : Prop where
  table : TableInv s
  progress_lt : ∀ l d, progress l trace = some d → l < s.linkCount
  known : ∀ l d, s.live l → progress l trace = some d →
    s.deliveryIDByHandle (s.link l).handle = none ∨ s.deliveryIDByHandle (s.link l).handle = some d
  owned : ∀ d c, s.settlementByDeliveryID d = some c → owner c trace = some d
  range : ∀ body k, s.phase = .disposition body k → Bounded body ∧ body.first ≤ k

theorem SettleInv.start (incomingWindow outgoingWindow handleMax : UInt32) (remoteBegin : PerformBegin) :
    SettleInv [] (.start incomingWindow outgoingWindow handleMax remoteBegin) := by
  constructor
  · exact .start ..
  · intro l d h
    cases h
  · intro l d hl
    cases hl
  · intro d c h
    cases h
  · intro body k h
    cases h

/-- The session files a transfer under the id of its message. -/
theorem SettleInv.messageOf_eq (h : SettleInv trace s) (hsend : SendsNext trace s l fr)
    (hknown : fr.deliveryID = none → s.deliveryIDByHandle fr.handle ≠ none) :
    messageOf trace l fr = some (s.deliveryIDOf fr) := by
  cases hid : fr.deliveryID with
  | some d => simp [messageOf, deliveryIDOf, hid]
  | none =>
    have hfirst := hsend.first
    rw [hid] at hfirst
    cases hp : progress l trace with
    | none => rw [hp] at hfirst; cases hfirst
    | some d =>
      have hlook : s.deliveryIDByHandle fr.handle = some d := by
        have hne := hknown hid
        rw [hsend.handle] at hne ⊢
        rcases h.known l d hsend.live hp with hnone | hsome
        · exact absurd hnone hne
        · exact hsome
      simp [messageOf, deliveryIDOf, hid, hp, hlook]

theorem SettleInv.calm {l : MuxInput × List MuxEvent} (h : SettleInv trace s) (hl : transfer? l.1 = none)
    (hc : Calm s s') : SettleInv (l :: trace) s' := by
  have ht := hc.table
  constructor
  · exact h.table.same ht
  · intro k d hp
    rw [progress_cons hl] at hp
    rw [ht.linkCount]
    exact h.progress_lt k d hp
  · intro k d hk hp
    rw [progress_cons hl] at hp
    rw [ht.handle]
    cases hd : s'.deliveryIDByHandle (s.link k).handle with
    | none => exact .inl rfl
    | some d' =>
      have hold := hc.known _ _ hd
      rcases h.known k d ((ht.live_iff k).1 hk) hp with hnone | hsome
      · rw [hnone] at hold
        cases hold
      · rw [hsome] at hold
        exact .inr hold.symm
  · intro d c hd
    rw [hc.settlement] at hd
    rw [owner_cons hl]
    exact h.owned d c hd
  · intro body k hp
    exact h.range body k (hc.phase body k hp)

theorem SettleInv.newLink {key : LinkKey} {mode : Option ReceiverSettleMode} (h : SettleInv trace s) :
    SettleInv ((.newLink key mode, []) :: trace) (s.newLink key mode) := by
  obtain ⟨hphase, hsettle, -, hknown⟩ := newLink_deliveries s key mode
  constructor
  · exact h.table.newLink key mode
  · intro k d hp
    rw [newLink_linkCount]
    exact Nat.lt_succ_of_lt (h.progress_lt k d hp)
  · intro k d hk hp
    have hlt := h.progress_lt k d hp
    rw [hknown, newLink_link (Nat.ne_of_lt hlt)]
    rcases newLink_live hk with heq | ⟨-, hk⟩
    · exact absurd heq (Nat.ne_of_lt hlt)
    · exact h.known k d hk hp
  · intro d c hd
    rw [hsettle] at hd
    exact h.owned d c hd
  · intro body k hp
    rw [hphase] at hp
    exact h.range body k hp

theorem SettleInv.deallocateHandle (h : SettleInv trace s) (hl : s.live l) :
    SettleInv ((.deallocateHandle l, []) :: trace) (s.deallocateHandle l) := by
  constructor
  · exact h.table.deallocateHandle hl
  · exact h.progress_lt
  · intro k d hk hp
    exact h.known k d (update_none_eq_some hk).2 hp
  · exact h.owned
  · exact h.range

theorem SettleInv.round (h : SettleInv trace s) (hp : s.phase = .disposition body k) :
    SettleInv ((.round, events) :: trace) (s.dispositionRound body k).1 := by
  have ht := (keeps_dispositionRound s body k).table
  obtain ⟨hbounded, hfirst⟩ := h.range body k hp
  constructor
  · exact h.table.same ht
  · intro l d hd
    rw [ht.linkCount]
    exact h.progress_lt l d hd
  · intro l d hl hd
    rw [dispositionRound_deliveryIDByHandle, ht.handle]
    exact h.known l d ((ht.live_iff l).1 hl) hd
  · intro d c hd
    have hold : s.settlementByDeliveryID d = some c := by
      cases dispositionRound_effect s body k with
      | miss _ _ hsettle _ => rw [hsettle] at hd; exact hd
      | hit _ _ _ _ hsettle _ =>
        rw [hsettle] at hd
        split at hd
        · exact (update_none_eq_some hd).2
        · exact hd
    exact h.owned d c hold
  · intro body' k' hp'
    rw [dispositionRound_phase] at hp'
    split at hp'
    · next hle =>
      cases hp'
      refine ⟨hbounded, ?_⟩
      -- the counter wraps only when the range ends at the largest id, and then it is everything
      rcases hbounded with hend | hzero
      · rw [le_iff_toNat_le] at hfirst hle ⊢
        have hlast : body.end_.toNat ≠ 0xFFFFFFFF := fun heq => hend (UInt32.toNat_inj.1 heq)
        have hsize := body.end_.toNat_lt
        have hadd : (k + 1).toNat = k.toNat + 1 := by
          rw [UInt32.toNat_add]
          exact Nat.mod_eq_of_lt (by simp only [toNat_one]; omega)
        omega
      · rw [hzero]
        exact UInt32.zero_le
    · cases hp'

theorem SettleInv.transfer (h : SettleInv trace s) (hsend : SendsNext trace s l fr)
    (hknown : fr.deliveryID = none → s.deliveryIDByHandle fr.handle ≠ none) :
    SettleInv ((.txTransfer l fr, events) :: trace) (s.txTransfer fr).1 := by
  have ht := sameTable_txTransfer s fr
  have hmessage := h.messageOf_eq hsend hknown
  constructor
  · exact h.table.same ht
  · intro k d hp
    rw [ht.linkCount]
    by_cases hk : l = k
    · rw [← hk]
      exact h.table.live_lt hsend.live
    · rw [progress, if_neg hk] at hp
      exact h.progress_lt k d hp
  · intro k d hk hp
    have hk' := (ht.live_iff k).1 hk
    rw [ht.handle, txTransfer_deliveryIDByHandle]
    by_cases hkl : l = k
    · subst hkl
      rw [progress, if_pos rfl] at hp
      split at hp
      · cases hid : fr.deliveryID with
        | some d' =>
          rw [hid, Option.some_or] at hp
          dsimp only
          rw [← hsend.handle, update_self]
          exact .inr hp
        | none =>
          rw [hid, Option.none_or] at hp
          exact h.known l d hk' hp
      · cases hp
    · rw [progress, if_neg hkl] at hp
      -- the other link has another handle
      have hne : (s.link k).handle ≠ fr.handle := by
        rw [hsend.handle]
        exact fun heq => hkl (h.table.distinct k l hk' hsend.live heq).symm
      cases hid : fr.deliveryID with
      | some d' =>
        simp only [update_of_ne hne]
        exact h.known k d hk' hp
      | none => exact h.known k d hk' hp
  · intro d c hd
    rw [owner]
    rcases txTransfer_waits hd with ⟨-, hdone, hid⟩ | hold
    · rw [if_pos hdone, hmessage, hid]
    · have hne : fr.done ≠ some c := by
        intro hdone
        have hnone := owner_eq_none_of_fresh (hsend.done c hdone)
        rw [h.owned d c hold] at hnone
        cases hnone
      rw [if_neg hne]
      exact h.owned d c hold
  · intro body k hp
    rw [txTransfer_phase] at hp
    exact h.range body k hp

theorem SettleInv.step {l : MuxInput × List MuxEvent} (h : SettleInv trace s)
    (hstep : Fires Session.step s l s') (hsend : FromSend trace s l.1) (hrange : InRange l.1)
    (hknown : StillKnown s l.1) : SettleInv (l :: trace) s' := by
  obtain ⟨i, events⟩ := l
  cases deliveryStep hstep with
  | calm _ _ _ hi _ hc => exact h.calm hi hc
  | newLink key mode => exact h.newLink
  | deallocateHandle k hl => exact h.deallocateHandle hl
  | round body d hp => exact h.round hp
  | transfer k fr => exact h.transfer (hsend k fr rfl) (hknown k fr rfl)
  | disposition body hp =>
    refine ⟨h.table.same (keeps_phase s _).table, h.progress_lt, h.known, h.owned, fun body' k hp' => ?_⟩
    cases hp'
    exact ⟨hrange body rfl, UInt32.le_refl _⟩

/-! ## Channels that wait are found -/

/-- The delivery-id is in the range of the disposition. -/
def Covers (body : PerformDisposition) (d : UInt32) : Prop := body.first ≤ d ∧ d ≤ body.end_

instance (body : PerformDisposition) (d : UInt32) : Decidable (Covers body d) := inferInstanceAs (Decidable (_ ∧ _))

/-- A settled disposition of the receiver that covers `d` arrives. -/
def settles (d : UInt32) : MuxInput → Bool
  | .rx fr =>
    match disposition? fr with
    | some body => body.settled && body.role == Role.receiver && decide (Covers body d)
    | none => false
  | _ => false

/-- The `Done` channel of the delivery `d`, sent unsettled, as long as no settled disposition of the
    receiver that covers `d` has arrived since. -/
def awaiting (d : UInt32) : Trace MuxInput MuxEvent → Option Nat
  | [] => none
  | (.txTransfer l fr, _) :: trace =>
    if fr.settled = false ∧ fr.done.isSome ∧ messageOf trace l fr = some d then fr.done
    else awaiting d trace
  | l :: trace => if settles d l.1 then none else awaiting d trace

theorem awaiting_cons {l : MuxInput × List MuxEvent} (h : transfer? l.1 = none) (d : UInt32)
    (trace : Trace MuxInput MuxEvent) :
    awaiting d (l :: trace) = if settles d l.1 then none else awaiting d trace := by
  obtain ⟨i, events⟩ := l
  cases i with
  | txTransfer k fr => cases h
  | _ => rfl

/-- Only settled dispositions cover a tracked delivery, and only after its last transfer. -/
def SettlesTracked (s : Session) (i : MuxInput) : Prop :=
  ∀ body, i = .rx (.disposition body) → body.role = Role.receiver → ∀ d, Covers body d →
    s.handlesByDeliveryID d ≠ none → body.settled = true ∧ s.settlementByDeliveryID d ≠ none

/-- The delivery-id of a new message is not in use. -/
def NewID (s : Session) (i : MuxInput) : Prop :=
  ∀ l fr d, i = .txTransfer l fr → fr.deliveryID = some d →
    s.handlesByDeliveryID d = none ∧ s.settlementByDeliveryID d = none

/-- A step that takes no waiting `Send` by surprise: ranges are bounded, links are not detached within a
    message, dispositions of the receiver that cover a tracked delivery are settled and come after its
    last transfer, and delivery-ids in use are not used again. -/
structure Undisturbed (s : Session) (i : MuxInput) : Prop where
  inRange : InRange i
  stillKnown : StillKnown s i
  settlesTracked : SettlesTracked s i
  newID : NewID s i

theorem FromSend.of_other {i : MuxInput} (h : transfer? i = none) : FromSend trace s i := by
  intro l fr hi
  rw [hi] at h
  cases h

theorem Undisturbed.of_other {i : MuxInput} (h : transfer? i = none)
    (hd : ∀ body, i ≠ .rx (.disposition body)) : Undisturbed s i := by
  constructor
  · intro body hi
    exact absurd hi (hd body)
  · intro l fr hi
    rw [hi] at h
    cases h
  · intro body hi
    exact absurd hi (hd body)
  · intro l fr d hi
    rw [hi] at h
    cases h

/-- Every `Send` that waits has its channel in the table, under the id of its delivery. -/
structure TrackInv (trace : Trace MuxInput MuxEvent) (s : Session) : Prop where
  settle : SettleInv trace s
  waits : ∀ d c, awaiting d trace = some c → s.settlementByDeliveryID d = some c
  covered : ∀ body k, s.phase = .disposition body k → body.role = Role.receiver → ∀ d, Covers body d →
    (body.settled = true → awaiting d trace = none) ∧
    (s.handlesByDeliveryID d ≠ none → body.settled = true ∧ s.settlementByDeliveryID d ≠ none)
  tracked : ∀ d c, s.settlementByDeliveryID d = some c → s.handlesByDeliveryID d ≠ none
  begun : ∀ l d, s.live l → progress l trace = some d →
    s.handlesByDeliveryID d = some (s.link l).handle ∧ s.settlementByDeliveryID d = none

theorem TrackInv.start (incomingWindow outgoingWindow handleMax : UInt32) (remoteBegin : PerformBegin) :
    TrackInv [] (.start incomingWindow outgoingWindow handleMax remoteBegin) := by
  constructor
  · exact .start ..
  · intro d c h
    cases h
  · intro body k h
    cases h
  · intro d c h
    cases h
  · intro l d h
    cases h

/-- A step that leaves the deliveries and the loop alone. -/
theorem TrackInv.keeps
    {l : MuxInput × List MuxEvent} (h : TrackInv trace s) (hsettle : SettleInv (l :: trace) s')
    (hl : transfer? l.1 = none)
    (hphase : ∀ body k, s'.phase = .disposition body k → s.phase = .disposition body k)
    (hwait : s'.settlementByDeliveryID = s.settlementByDeliveryID)
    (htrack : s'.handlesByDeliveryID = s.handlesByDeliveryID)
    (hlive : ∀ k d, progress k trace = some d → s'.live k →
      s.live k ∧ (s'.link k).handle = (s.link k).handle) : TrackInv (l :: trace) s' := by
  have hawait : ∀ d c, awaiting d (l :: trace) = some c → awaiting d trace = some c := by
    intro d c hd
    rw [awaiting_cons hl] at hd
    split at hd
    · cases hd
    · exact hd
  constructor
  · exact hsettle
  · intro d c hd
    rw [hwait]
    exact h.waits d c (hawait d c hd)
  · intro body k hp hrole d hd
    obtain ⟨hnone, hset⟩ := h.covered body k (hphase body k hp) hrole d hd
    rw [hwait, htrack]
    refine ⟨fun hs => ?_, hset⟩
    rw [awaiting_cons hl, hnone hs]
    split <;> rfl
  · intro d c hd
    rw [hwait] at hd
    rw [htrack]
    exact h.tracked d c hd
  · intro k d hk hp
    rw [progress_cons hl] at hp
    obtain ⟨hk', hhandle⟩ := hlive k d hp hk
    rw [hwait, htrack, hhandle]
    exact h.begun k d hk' hp

theorem TrackInv.round (h : TrackInv trace s) (hp : s.phase = .disposition body k) :
    TrackInv ((.round, events) :: trace) (s.dispositionRound body k).1 := by
  have ht := (keeps_dispositionRound s body k).table
  have hphase : ∀ body' k', (s.dispositionRound body k).1.phase = .disposition body' k' → body' = body := by
    intro body' k' hp'
    rw [dispositionRound_phase] at hp'
    split at hp' <;> cases hp'
    rfl
  cases dispositionRound_effect s body k with
  | miss _ htrack hwait _ =>
    constructor
    · exact h.settle.round hp
    · intro d c hd
      rw [hwait]
      exact h.waits d c hd
    · intro body' k' hp' hrole d hd
      obtain rfl := hphase body' k' hp'
      rw [hwait, htrack]
      exact h.covered body' k hp hrole d hd
    · intro d c hd
      rw [hwait] at hd
      rw [htrack]
      exact h.tracked d c hd
    · intro l d hl hd
      rw [hwait, htrack, ht.handle]
      exact h.begun l d ((ht.live_iff l).1 hl) hd
  | hit hle hrole htracked htrack hwait _ =>
    -- the round settles the delivery `k` and touches no other
    have hcovers : Covers body k := ⟨(h.settle.range body k hp).2, hle⟩
    obtain ⟨hnone, hsettles⟩ := h.covered body k hp hrole k hcovers
    obtain ⟨hset, hwaiting⟩ := hsettles htracked
    rw [hset, if_pos rfl] at hwait
    constructor
    · exact h.settle.round hp
    · intro d c hd
      have hne : d ≠ k := by
        intro heq
        rw [heq] at hd
        have hd' : awaiting k trace = some c := hd
        rw [hnone hset] at hd'
        cases hd'
      rw [hwait, update_of_ne hne]
      exact h.waits d c hd
    · intro body' k' hp' hrole' d hd
      obtain rfl := hphase body' k' hp'
      obtain ⟨hnone', hsettles'⟩ := h.covered body' k hp hrole' d hd
      refine ⟨hnone', fun htr => ?_⟩
      have hne : d ≠ k := by
        intro heq
        rw [htrack, heq, update_self] at htr
        exact htr rfl
      rw [htrack, update_of_ne hne] at htr
      rw [hwait, update_of_ne hne]
      exact hsettles' htr
    · intro d c hd
      rw [hwait] at hd
      obtain ⟨hne, hd⟩ := update_none_eq_some hd
      rw [htrack, update_of_ne hne]
      exact h.tracked d c hd
    · intro l d hl hd
      obtain ⟨hbegun, hfree⟩ := h.begun l d ((ht.live_iff l).1 hl) hd
      have hne : d ≠ k := by
        intro heq
        rw [heq] at hfree
        exact hwaiting hfree
      rw [hwait, htrack, ht.handle, update_of_ne hne, update_of_ne hne]
      exact ⟨hbegun, hfree⟩

/-- The delivery that a transfer belongs to, before the transfer: new, or begun by the same link. -/
theorem TrackInv.message_free (h : TrackInv trace s) (hsend : SendsNext trace s l fr)
    (hknown : fr.deliveryID = none → s.deliveryIDByHandle fr.handle ≠ none)
    (hnew : ∀ d, fr.deliveryID = some d → s.handlesByDeliveryID d = none ∧ s.settlementByDeliveryID d = none) :
    s.settlementByDeliveryID (s.deliveryIDOf fr) = none ∧
    (fr.deliveryID = none → s.handlesByDeliveryID (s.deliveryIDOf fr) = some fr.handle) := by
  cases hid : fr.deliveryID with
  | some d =>
    have hof : s.deliveryIDOf fr = d := by simp [deliveryIDOf, hid]
    rw [hof]
    exact ⟨(hnew d hid).2, fun heq => by cases heq⟩
  | none =>
    have hmessage := h.settle.messageOf_eq hsend hknown
    rw [messageOf, hid, Option.none_or] at hmessage
    obtain ⟨hbegun, hfree⟩ := h.begun l _ hsend.live hmessage
    rw [hsend.handle]
    exact ⟨hfree, fun _ => hbegun⟩

/-- What a transfer leaves alone. -/
theorem txTransfer_other (hd : d ≠ s.deliveryIDOf fr) :
    (s.txTransfer fr).1.handlesByDeliveryID d = s.handlesByDeliveryID d ∧
    (s.txTransfer fr).1.settlementByDeliveryID d = s.settlementByDeliveryID d := by
  rw [txTransfer_handlesByDeliveryID, txTransfer_settlement]
  constructor
  · split
    · rw [update_of_ne hd]
    · cases hid : fr.deliveryID with
      | none => rfl
      | some d' =>
        have hof : s.deliveryIDOf fr = d' := by simp [deliveryIDOf, hid]
        rw [hof] at hd
        exact update_of_ne hd ..
  · split
    · rfl
    · cases fr.done with
      | none => rfl
      | some c => exact update_of_ne hd ..

/-- After an unsettled transfer its delivery is tracked. -/
theorem txTransfer_unsettled (hset : fr.settled = false)
    (hbegun : fr.deliveryID = none → s.handlesByDeliveryID (s.deliveryIDOf fr) = some fr.handle) :
    (s.txTransfer fr).1.handlesByDeliveryID (s.deliveryIDOf fr) = some fr.handle := by
  rw [txTransfer_handlesByDeliveryID, hset]
  cases hid : fr.deliveryID with
  | none => exact hbegun hid
  | some d =>
    have hof : s.deliveryIDOf fr = d := by simp [deliveryIDOf, hid]
    rw [hof]
    exact update_self ..

theorem TrackInv.transfer (h : TrackInv trace s) (hp : s.phase = .select) (hsend : SendsNext trace s l fr)
    (hknown : fr.deliveryID = none → s.deliveryIDByHandle fr.handle ≠ none)
    (hnew : ∀ d, fr.deliveryID = some d → s.handlesByDeliveryID d = none ∧ s.settlementByDeliveryID d = none) :
    TrackInv ((.txTransfer l fr, events) :: trace) (s.txTransfer fr).1 := by
  have ht := sameTable_txTransfer s fr
  have hmessage := h.settle.messageOf_eq hsend hknown
  obtain ⟨hfree, hbegun⟩ := h.message_free hsend hknown hnew
  constructor
  · exact h.settle.transfer hsend hknown
  · intro d c hd
    rw [awaiting] at hd
    split at hd
    · next hwait =>
      obtain ⟨hset, -, hof⟩ := hwait
      rw [hmessage] at hof
      obtain rfl : s.deliveryIDOf fr = d := Option.some.inj hof
      simp only [txTransfer_settlement, hset, Bool.false_eq_true, if_false, hd, update_self]
    · have hold := h.waits d c hd
      have hne : d ≠ s.deliveryIDOf fr := by
        intro heq
        rw [heq, hfree] at hold
        cases hold
      rw [(txTransfer_other hne).2]
      exact hold
  · intro body k hphase
    rw [txTransfer_phase, hp] at hphase
    cases hphase
  · intro d c hd
    rcases txTransfer_waits hd with ⟨hset, -, hof⟩ | hold
    · rw [← hof, txTransfer_unsettled hset hbegun]
      exact Option.some_ne_none _
    · have hne : d ≠ s.deliveryIDOf fr := by
        intro heq
        rw [heq, hfree] at hold
        cases hold
      rw [(txTransfer_other hne).1]
      exact h.tracked d c hold
  · intro k d hk hd
    have hk' := (ht.live_iff k).1 hk
    rw [ht.handle]
    by_cases hkl : l = k
    · subst hkl
      rw [progress, if_pos rfl] at hd
      split at hd
      · next hmore =>
        -- a transfer with more to come is unsettled and has no channel
        obtain ⟨hset, hdone⟩ := hsend.last hmore
        have hof : s.deliveryIDOf fr = d := Option.some.inj (hmessage.symm.trans hd)
        rw [← hof, txTransfer_unsettled hset hbegun, hsend.handle]
        refine ⟨rfl, ?_⟩
        simp only [txTransfer_settlement, hset, hdone, Bool.false_eq_true, if_false]
        exact hfree
      · cases hd
    · rw [progress, if_neg hkl] at hd
      obtain ⟨htrack, hwait⟩ := h.begun k d hk' hd
      have hne : d ≠ s.deliveryIDOf fr := by
        intro heq
        rw [heq] at htrack
        cases hid : fr.deliveryID with
        | some d' =>
          have hof : s.deliveryIDOf fr = d' := by simp [deliveryIDOf, hid]
          rw [hof, (hnew d' hid).1] at htrack
          cases htrack
        | none =>
          rw [hbegun hid, hsend.handle] at htrack
          exact hkl (h.settle.table.distinct l k hsend.live hk' (Option.some.inj htrack))
      rw [(txTransfer_other hne).1, (txTransfer_other hne).2]
      exact ⟨htrack, hwait⟩

theorem TrackInv.step {l : MuxInput × List MuxEvent} (h : TrackInv trace s) (hstep : Fires Session.step s l s')
    (hsend : FromSend trace s l.1) (hundisturbed : Undisturbed s l.1) : TrackInv (l :: trace) s' := by
  obtain ⟨hrange, hknown, hsettles, hnew⟩ := hundisturbed
  have hsettle := h.settle.step hstep hsend hrange hknown
  obtain ⟨i, events⟩ := l
  cases deliveryStep hstep with
  | calm _ _ _ hi _ hc =>
    exact h.keeps hsettle hi hc.phase hc.settlement hc.tracked
      (fun k _ _ hk => ⟨(hc.table.live_iff k).1 hk, hc.table.handle k⟩)
  | newLink key mode =>
    obtain ⟨hphase, hwait, htrack, -⟩ := newLink_deliveries s key mode
    refine h.keeps hsettle rfl (fun _ _ hp => by rw [hphase] at hp; exact hp) hwait htrack ?_
    intro k d hp hk
    have hlt := h.settle.progress_lt k d hp
    rcases newLink_live hk with heq | ⟨hne, hk⟩
    · exact absurd heq (Nat.ne_of_lt hlt)
    · exact ⟨hk, by rw [newLink_link hne]⟩
  | deallocateHandle k hk =>
    exact h.keeps hsettle rfl (fun _ _ hp => hp) rfl rfl
      (fun _ _ _ hlive => ⟨(update_none_eq_some hlive).2, rfl⟩)
  | round body d hp => exact h.round hp
  | transfer k fr hp =>
    exact h.transfer hp (hsend k fr rfl) (hknown k fr rfl) (fun d hid => hnew k fr d rfl hid)
  | disposition body hp =>
    constructor
    · exact hsettle
    · intro d c hd
      rw [awaiting_cons rfl] at hd
      split at hd
      · cases hd
      · exact h.waits d c hd
    · intro body' k hp' hrole d hd
      cases hp'
      refine ⟨fun hset => ?_, hsettles body rfl hrole d hd⟩
      have htrue : settles d (.rx (.disposition body)) = true := by
        simp [settles, disposition?, hset, hrole, hd]
      rw [awaiting_cons rfl, if_pos htrue]
    · exact h.tracked
    · intro k d hk hd
      exact h.begun k d hk hd

/-! ## The rounds up to a delivery -/

/-- The rounds before that for `d` leave `d` alone. -/
theorem exec_rounds (hle : d ≤ body.end_) (n : Nat) (trace : Trace MuxInput MuxEvent)
    (hp : s.phase = .disposition body k) (hk : k.toNat + n = d.toNat) :
    ∃ trace' s', exec Session.step trace s (List.replicate n .round) = some (trace', s') ∧
      s'.phase = .disposition body d ∧ s'.handlesByDeliveryID d = s.handlesByDeliveryID d ∧
      s'.settlementByDeliveryID d = s.settlementByDeliveryID d := by
  induction n generalizing s k trace with
  | zero =>
    obtain rfl : k = d := UInt32.toNat_inj.1 hk
    exact ⟨trace, s, rfl, hp, rfl, rfl⟩
  | succ n ih =>
    have hdlt := d.toNat_lt
    rw [le_iff_toNat_le] at hle
    have hkle : k ≤ body.end_ := le_iff_toNat_le.2 (by omega)
    have hadd : (k + 1).toNat = k.toNat + 1 := by
      rw [UInt32.toNat_add]
      exact Nat.mod_eq_of_lt (by simp only [toNat_one]; omega)
    have hne : d ≠ k := by
      intro heq
      rw [heq] at hk
      omega
    have hstep : s.step .round = some (s.dispositionRound body k) := by simp only [step, hp]
    have hphase : (s.dispositionRound body k).1.phase = .disposition body (k + 1) := by
      rw [dispositionRound_phase, if_pos hkle]
    have hsame : (s.dispositionRound body k).1.handlesByDeliveryID d = s.handlesByDeliveryID d ∧
        (s.dispositionRound body k).1.settlementByDeliveryID d = s.settlementByDeliveryID d := by
      cases dispositionRound_effect s body k with
      | miss _ htrack hwait _ => rw [htrack, hwait]; exact ⟨rfl, rfl⟩
      | hit _ _ _ htrack hwait _ =>
        rw [htrack, hwait, update_of_ne hne]
        refine ⟨rfl, ?_⟩
        split
        · rw [update_of_ne hne]
        · rfl
    obtain ⟨trace', s', hexec, hp', htrack, hwait⟩ :=
      ih ((.round, (s.dispositionRound body k).2) :: trace) hphase (by omega)
    refine ⟨trace', s', ?_, hp', htrack.trans hsame.1, hwait.trans hsame.2⟩
    rw [List.replicate_succ, exec, hstep]
    exact hexec

/-- **A settled disposition finds the channels of the deliveries that are still tracked.** -/
theorem completes_iff_tracked {c : Nat} (hp : s.phase = .disposition body body.first)
    (hrole : body.role = Role.receiver) (hset : body.settled = true) (hcovers : Covers body d)
    (hwait : s.settlementByDeliveryID d = some c) :
    (∃ trace₁ s₁ s₂ events,
      exec Session.step [] s (List.replicate (d.toNat - body.first.toNat) .round) = some (trace₁, s₁) ∧
      s₁.step .round = some (s₂, events) ∧ .settle c body.state ∈ events) ↔
    s.handlesByDeliveryID d ≠ none := by
  have hfirst := le_iff_toNat_le.1 hcovers.1
  obtain ⟨trace₁, s₁, hexec, hp₁, htrack₁, hwait₁⟩ :=
    exec_rounds hcovers.2 (d.toNat - body.first.toNat) [] hp (by omega)
  have hstep : s₁.step .round = some (s₁.dispositionRound body d) := by simp only [step, hp₁]
  constructor
  · rintro ⟨trace', s', s₂, events, hexec', hstep', hmem⟩
    rw [hexec] at hexec'
    cases hexec'
    obtain rfl : events = (s₁.dispositionRound body d).2 := by
      rw [Option.some.inj (hstep.symm.trans hstep')]
    rw [← htrack₁]
    cases dispositionRound_effect s₁ body d with
    | hit _ _ htracked => exact htracked
    | miss _ _ _ hnone => exact absurd hmem (hnone c body.state)
  · intro htracked
    refine ⟨trace₁, s₁, _, _, hexec, hstep, ?_⟩
    rw [← htrack₁] at htracked
    cases dispositionRound_effect s₁ body d with
    | hit _ _ _ _ _ hevents => exact (hevents c body.state).2 ⟨hset, hwait₁.trans hwait, rfl⟩
    | miss hmiss => exact absurd (hmiss hcovers.2 hrole) htracked

end Session

/-- **A settled disposition completes the waiting `Send`.** In every run of undisturbed steps, the first
    settled disposition of the receiver that covers an unsettled delivery offers its state to the
    delivery's `Done` channel and closes it, in the round for that delivery. -/
theorem disposition_completes_send {incomingWindow outgoingWindow handleMax : UInt32}
    {remoteBegin : PerformBegin} {trace : Trace MuxInput MuxEvent} {s s' : Session}
    {body : PerformDisposition} {d : UInt32} {c : Nat} {events : List MuxEvent}
    (hrun : RunIf (Fires Session.step)
      (fun trace s l => Session.FromSend trace s l.1 ∧ Session.Undisturbed s l.1)
      (.start incomingWindow outgoingWindow handleMax remoteBegin) trace s)
    (hphase : s.phase = .select) (hwait : Session.awaiting d trace = some c)
    (hrole : body.role = Role.receiver) (hset : body.settled = true) (hcovers : Session.Covers body d)
    (hstep : s.step (.rx (.disposition body)) = some (s', events)) :
    ∃ trace₁ s₁ s₂ events₁,
      exec Session.step [] s' (List.replicate (d.toNat - body.first.toNat) .round) = some (trace₁, s₁) ∧
      s₁.step .round = some (s₂, events₁) ∧ .settle c body.state ∈ events₁ := by
  have hinv : Session.TrackInv trace s :=
    hrun.invariant (.start incomingWindow outgoingWindow handleMax remoteBegin)
      (fun _ _ _ _ h hs hg => h.step hs hg.1 hg.2)
  have hs' : s' = { s with phase := .disposition body body.first } := by
    simp only [Session.step, hphase, Session.rx, Option.some.injEq, Prod.mk.injEq] at hstep
    exact hstep.1.symm
  have hsettlement := hinv.waits d c hwait
  have hlooked : s'.settlementByDeliveryID d = some c := by rw [hs']; exact hsettlement
  have htracked : s'.handlesByDeliveryID d ≠ none := by rw [hs']; exact hinv.tracked d c hsettlement
  exact (Session.completes_iff_tracked (by rw [hs']) hrole hset hcovers hlooked).2 htracked

namespace Session

/-- The only transfer of an unsettled message, with the `Done` channel five. -/
def waitingFrame : PerformTransfer := { firstTransfer 0 1 with done := some 5 }

/-- A disposition of the receiver that leaves the delivery unsettled. -/
def unsettledFrame (deliveryID : UInt32) : PerformDisposition := { settledFrame deliveryID with settled := false }

/-- The transfer after the link has been attached. -/
theorem sendsNext_waitingFrame (htrace : ∀ l ∈ trace, transfer? l.1 = none) (hprogress : progress 0 trace = none)
    (hlive : s.live 0) (hhandle : (s.link 0).handle = 0) : FromSend trace s (.txTransfer 0 waitingFrame) := by
  intro l fr hi
  cases hi
  refine ⟨hlive, hhandle.symm, by rw [hprogress]; rfl, fun h => (by cases h), fun c _ l fr events hmem => ?_⟩
  cases htrace _ hmem

theorem undisturbed_waitingFrame (hhandles : s.handlesByDeliveryID 1 = none)
    (hsettlement : s.settlementByDeliveryID 1 = none) : Undisturbed s (.txTransfer 0 waitingFrame) := by
  constructor
  · intro body h
    cases h
  · intro l fr h hid
    cases h
    cases hid
  · intro body h
    cases h
  · intro l fr d h hid
    cases h
    cases hid
    exact ⟨hhandles, hsettlement⟩

end Session

open Session

theorem disposition_completes_send_one : ∃ trace s s' events events₁ s₂,
    RunIf (Fires Session.step) (fun trace s l => FromSend trace s l.1 ∧ Undisturbed s l.1)
      firstSession trace s ∧
    s.step (.rx (.disposition (settledFrame 1))) = some (s', events) ∧
    s'.step .round = some (s₂, events₁) ∧ .settle 5 none ∈ events₁ := by
  have hstart : RunIf (Fires Session.step) (fun trace s l => FromSend trace s l.1 ∧ Undisturbed s l.1)
      firstSession [] firstSession := .start
  have hlink := hstart.fire (.newLink ⟨ascii "a", Role.sender⟩ none) rfl
    ⟨.of_other rfl, .of_other rfl (fun _ h => by cases h)⟩
  have hattach := hlink.fire (.rx (.attach (attachFrame "a" 0))) rfl
    ⟨.of_other rfl, .of_other rfl (fun _ h => by cases h)⟩
  have hsent := hattach.fire (.txTransfer 0 waitingFrame) rfl
    ⟨sendsNext_waitingFrame (by simp [transfer?]) rfl (by rfl) rfl, undisturbed_waitingFrame rfl rfl⟩
  have hcovers : Covers (settledFrame 1) 1 := by decide
  obtain ⟨trace₁, s₁, s₂, events₁, hexec, hround, hmem⟩ :=
    disposition_completes_send (d := 1) (c := 5) hsent rfl rfl rfl rfl hcovers rfl
  cases hexec
  exact ⟨_, _, _, _, _, _, hsent, rfl, hround, hmem⟩

/-- An unsettled disposition comes first: the settled one finds the delivery no longer tracked, and the
    round for it does nothing. -/
theorem disposition_leaves_send_waiting : ∃ trace s s' s₂,
    RunIf (Fires Session.step) (fun trace s l => FromSend trace s l.1) firstSession trace s ∧
    s.phase = .select ∧ awaiting 1 trace = some 5 ∧
    s.step (.rx (.disposition (settledFrame 1))) = some (s', []) ∧
    s'.step .round = some (s₂, []) ∧ s₂.phase = .disposition (settledFrame 1) 2 := by
  have hstart : RunIf (Fires Session.step) (fun trace s l => FromSend trace s l.1) firstSession []
      firstSession := .start
  have hlink := hstart.fire (.newLink ⟨ascii "a", Role.sender⟩ none) rfl (.of_other rfl)
  have hattach := hlink.fire (.rx (.attach (attachFrame "a" 0))) rfl (.of_other rfl)
  have hsent := hattach.fire (.txTransfer 0 waitingFrame) rfl
    (sendsNext_waitingFrame (by simp [transfer?]) rfl (by rfl) rfl)
  have hrx := hsent.fire (.rx (.disposition (unsettledFrame 1))) rfl (.of_other rfl)
  have hround := hrx.fire .round rfl (.of_other rfl)
  have hdone := hround.fire .round rfl (.of_other rfl)
  exact ⟨_, _, _, _, hdone, rfl, rfl, rfl, rfl, rfl⟩

end GoAmqp
