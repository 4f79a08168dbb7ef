import GoAmqp.Session.Settlement
import GoAmqp.Link.InFlight

set_option autoImplicit false

/-! # The range of a disposition

A disposition is for the deliveries from `First` to `Last`. Three loops go through such a range: that of
the session's mux, and that of `inFlight.remove` when the mux of a receiver or its batcher runs it. Each
compares a 32-bit counter with the end before it adds one to it.

* A range that ends with the largest delivery-id keeps the loop going for ever.
* A range that passes the largest delivery-id, as delivery-ids do, is not looked at.
* Any other range is gone through once. The session looks for a waiting `Send` only if it still has the
  handle of the delivery. -/

namespace GoAmqp

open Lib Function

variable {i last : UInt32}

namespace Session

/-! ## The loop of the session's mux -/

/-- What the session knows of a delivery-id: the handle of the link that has sent the delivery, of the
    link that has received it, and the `Done` channel. -/
structure Entry where
  sent : Option UInt32
  received : Option UInt32
  settlement : Option Nat

/-- What the session knows about a delivery-id. -/
def entry (s : Session) (d : UInt32) : Entry :=
  ⟨s.handlesByDeliveryID d, s.handlesByRemoteDeliveryID d, s.settlementByDeliveryID d⟩

/-- What a round makes of the entry of its delivery-id. -/
def Entry.dispose (body : PerformDisposition) (e : Entry) : Entry :=
  if body.role = Role.sender then { e with received := none }
  else if e.sent = none then e
  else { e with sent := none, settlement := if body.settled then none else e.settlement }

/-- The tables after a round for a delivery that is found. -/
theorem entry_found (s : Session) (body : PerformDisposition) (i d : UInt32) :
    ((s.deleteHandle body.role i).confirm body i).1.entry d =
      if d = i then
        if body.role = Role.sender then { s.entry d with received := none }
        else { s.entry d with sent := none, settlement := if body.settled then none else s.settlementByDeliveryID d }
      else s.entry d := by
  rcases Bool.eq_false_or_eq_true body.role with hrole | hrole
  · have hrole : body.role = Role.receiver := hrole
    obtain ⟨hhandles, hsettlement, -⟩ := confirm_receiver (s.deleteHandle body.role i) i hrole
    have hreceived : ((s.deleteHandle body.role i).confirm body i).1.handlesByRemoteDeliveryID
        = s.handlesByRemoteDeliveryID := by
      rw [hrole]
      unfold confirm
      split
      · split <;> rfl
      · rfl
    rw [entry, hhandles, hsettlement, hreceived, hrole]
    by_cases hd : d = i
    · subst hd
      cases body.settled <;> simp [deleteHandle, entry, Role.sender, Role.receiver]
    · cases body.settled <;> simp [deleteHandle, entry, Role.sender, Role.receiver, hd]
  · have hrole : body.role = Role.sender := hrole
    have hconfirm : (s.deleteHandle body.role i).confirm body i = (s.deleteHandle body.role i, []) := by
      unfold confirm
      rw [if_neg (by rw [hrole]; simp [Role.sender, Role.receiver])]
    rw [hconfirm, hrole]
    by_cases hd : d = i
    · subst hd
      simp [deleteHandle, entry]
    · simp [deleteHandle, entry, hd]

/-- One round. -/
theorem entry_dispositionBody (s : Session) (body : PerformDisposition) (i : UInt32) :
    (s.dispositionBody body i).1.entry = update s.entry i ((s.entry i).dispose body) := by
  unfold dispositionBody
  split
  · next hnone =>
    -- a delivery that is not found has no handle to lose
    have hsame : (s.entry i).dispose body = s.entry i := by
      unfold handlesFor at hnone
      unfold Entry.dispose
      split
      · next hrole =>
        rw [if_pos hrole] at hnone
        simp [entry, hnone]
      · next hrole =>
        rw [if_neg hrole] at hnone
        exact if_pos hnone
    rw [hsame, update_eq_self]
  · next handle hfound =>
    funext d
    dsimp only
    rw [entry_found, update_apply]
    split
    · next hd =>
      subst hd
      unfold handlesFor at hfound
      unfold Entry.dispose
      split
      · rfl
      · next hrole =>
        rw [if_neg hrole] at hfound
        have hsent : (s.entry d).sent ≠ none := by simp [entry, hfound]
        rw [if_neg hsent]
        rfl
    · rfl

/-- The parameters and the counter of the loop, while the mux is in it. -/
def dispositionAt (s : Session) : Option (PerformDisposition × UInt32) :=
  match s.phase with
  | .disposition body deliveryID => some (body, deliveryID)
  | _ => none

variable {s s' : Session} {body : PerformDisposition}

theorem dispositionAt_eq_some : s.dispositionAt = some (body, i) ↔ s.phase = .disposition body i := by
  unfold dispositionAt
  cases s.phase <;> simp

def isRound : MuxInput → Bool
  | .round => true
  | _ => false

theorem isRound_iff {i : MuxInput} : isRound i = true ↔ i = .round := by
  unfold isRound
  split <;> simp_all

/-- In the loop the mux takes no other step, and the links leave its tables alone. -/
theorem step_between {k : UInt32} {i : MuxInput} {events : List MuxEvent} (hp : s.phase = .disposition body k)
    (hstep : s.step i = some (s', events)) (hi : i ≠ .round)
    : s'.phase = s.phase ∧ s'.entry = s.entry ∧ s'.links = s.links ∧ events = [] := by
  cases i with
  | connDone | close | rx | txTransfer | tx => simp [step, hp] at hstep
  | round => exact absurd rfl hi
  | newLink key mode =>
    cases hstep
    rcases newLink_cases s key mode with heq | ⟨next, handles, -, -, heq⟩ <;> rw [heq] <;>
      exact ⟨rfl, rfl, rfl, rfl⟩
  | setReceiverSettleMode l mode =>
    cases hstep
    exact ⟨rfl, rfl, rfl, rfl⟩
  | deallocateHandle l =>
    simp only [step] at hstep
    split at hstep <;> cases hstep
    exact ⟨rfl, rfl, rfl, rfl⟩

theorem round_eq {k : UInt32} {i : MuxInput} {events : List MuxEvent} (hp : s.dispositionAt = some (body, k))
    (hstep : s.step i = some (s', events)) (hi : isRound i = true)
    : s' = (s.dispositionRound body k).1 ∧ events = (s.dispositionRound body k).2 := by
  rw [isRound_iff.mp hi] at hstep
  simp only [step, dispositionAt_eq_some.mp hp, Option.some.injEq] at hstep
  rw [hstep]
  exact ⟨rfl, rfl⟩

/-- The loop over the delivery-ids of a disposition. -/
def dispositionLoop : CountedLoop Session (MuxInput × List MuxEvent) PerformDisposition where
  step := Fires step
  position := dispositionAt
  bound := PerformDisposition.end_
  own l := isRound l.1
  stays {s s' l x} h hstep hown := by
    have hphase := dispositionAt_eq_some.mp h
    refine dispositionAt_eq_some.mpr ((step_between hphase hstep fun hi => ?_).1.trans hphase)
    rw [isRound_iff.mpr hi] at hown
    cases hown
  round h hstep hown hle := by
    rw [(round_eq h hstep hown).1, dispositionAt_eq_some, dispositionRound_phase, if_pos hle]
  ready {s x} h := by
    refine ⟨(.round, (s.dispositionRound x.1 x.2).2), (s.dispositionRound x.1 x.2).1, ?_, rfl⟩
    simp only [Fires, step, dispositionAt_eq_some.mp h]

theorem dispositionLoop_position (h : s.phase = .disposition body i) : dispositionLoop.position s = some (body, i) :=
  dispositionAt_eq_some.mpr h

theorem dispositionLoop_sweeps : dispositionLoop.Sweeps entry Entry.dispose where
  other {s s' l x} h hstep hown := by
    refine (step_between (dispositionAt_eq_some.mp h) hstep fun hi => ?_).2.1
    rw [show dispositionLoop.own l = true from isRound_iff.mpr hi] at hown
    cases hown
  round {s s' l body i} h hstep hown hle := by
    have hle : i ≤ body.end_ := hle
    rw [(round_eq h hstep hown).1, dispositionRound, if_pos hle]
    exact entry_dispositionBody s body i
  leave {s s' l body i} h hstep hown hgt := by
    have hgt : ¬ i ≤ body.end_ := hgt
    rw [(round_eq h hstep hown).1, dispositionRound, if_neg hgt]
    rfl

/-! ## What a disposition resolves -/

/-- The disposition confirms the settlement of deliveries that this side has sent. -/
def Settles (body : PerformDisposition) : Prop := body.settled = true ∧ body.role = Role.receiver

instance (body : PerformDisposition) : Decidable (Settles body) := inferInstanceAs (Decidable (_ ∧ _))

/-- The deliveries of the range, and no others, are out of the handle map of the disposition's role and,
    if it settles them, out of the map of the waiting `Send`s. -/
structure Resolved (s s' : Session) (body : PerformDisposition) : Prop where
  handles : ∀ d, s'.handlesFor body.role d =
    if Within body.first body.end_ d then none else s.handlesFor body.role d
  settlement : ∀ d, s'.settlementByDeliveryID d =
    if Settles body ∧ Within body.first body.end_ d ∧ s.handlesFor body.role d ≠ none then none
    else s.settlementByDeliveryID d
  others : ∀ role, role ≠ body.role → s'.handlesFor role = s.handlesFor role

/-- The loop ends, and has then resolved its range. -/
def Resolves (s : Session) (body : PerformDisposition) : Prop :=
  dispositionLoop.EndsWithin s ((body.end_ - body.first).toNat + 1) ∧
    ∀ k s', dispositionLoop.Leaves s k s' → s.Resolved s' body

/-- The handle of a delivery in the map for the role. -/
def Entry.handle (role : Role) (e : Entry) : Option UInt32 :=
  if role = Role.sender then e.received else e.sent

theorem handlesFor_eq (s : Session) (role : Role) (d : UInt32) : s.handlesFor role d = (s.entry d).handle role := by
  unfold handlesFor Entry.handle
  split <;> rfl

section

variable (body : PerformDisposition) (e : Entry)

theorem dispose_handle : (e.dispose body).handle body.role = none := by
  unfold Entry.dispose Entry.handle
  by_cases hrole : body.role = Role.sender
  · simp [hrole]
  · by_cases hsent : e.sent = none
    · simp [hrole, hsent]
    · simp [hrole, hsent]

/-- A delivery without a handle is left alone. -/
theorem dispose_untracked (h : e.handle body.role = none) : e.dispose body = e := by
  unfold Entry.handle at h
  unfold Entry.dispose
  split
  · next hrole =>
    rw [if_pos hrole] at h
    rw [← h]
  · next hrole =>
    rw [if_neg hrole] at h
    exact if_pos h

theorem dispose_others {role : Role} (hrole : role ≠ body.role) : (e.dispose body).handle role = e.handle role := by
  have hroles : ¬ (role = Role.sender ∧ body.role = Role.sender) := fun h => hrole (h.1.trans h.2.symm)
  have hcover : role = Role.sender ∨ body.role = Role.sender := by
    by_contra hnone
    simp only [Role.sender, not_or, Bool.not_eq_false] at hnone
    exact hrole (hnone.1.trans hnone.2.symm)
  unfold Entry.dispose Entry.handle
  rcases hcover with h | h
  · rw [if_pos h, if_pos h, if_neg fun hbody => hroles ⟨h, hbody⟩]
    split <;> rfl
  · have hne : role ≠ Role.sender := fun hr => hroles ⟨hr, h⟩
    rw [if_neg hne, if_neg hne, if_pos h]

theorem dispose_settlement : (e.dispose body).settlement =
    if Settles body ∧ e.handle body.role ≠ none then none else e.settlement := by
  unfold Entry.dispose Entry.handle
  by_cases hrole : body.role = Role.sender
  · simp [Settles, hrole, Role.sender, Role.receiver]
  · have hreceiver : body.role = Role.receiver := by simpa [Role.sender, Role.receiver] using hrole
    by_cases hsent : e.sent = none
    · simp [hrole, hsent]
    · cases hset : body.settled <;> simp [Settles, hreceiver, Role.sender, Role.receiver, hsent, hset]

end

/-- The tables when the loop has been left. -/
theorem entry_leaves {k : Nat} (hs : s.phase = .disposition body body.first) (hlast : body.end_ ≠ maxSerial)
    (h : dispositionLoop.Leaves s k s') (d : UInt32) :
    s'.entry d = if body.first ≤ body.end_ ∧ Within body.first body.end_ d then (s.entry d).dispose body
      else s.entry d :=
  dispositionLoop_sweeps.leaves h (dispositionLoop_position hs) hlast d

/-- **When the session resolves a range.** -/
theorem resolves_iff (hs : s.phase = .disposition body body.first) :
    s.Resolves body ↔ body.end_ ≠ maxSerial ∧
      ∀ d, Within body.first body.end_ d → s.handlesFor body.role d ≠ none → body.first ≤ body.end_ := by
  have h₀ := dispositionLoop_position hs
  have hends : dispositionLoop.EndsWithin s ((body.end_ - body.first).toNat + 1) ↔ body.end_ ≠ maxSerial :=
    CountedLoop.endsWithin_iff h₀
  rw [Resolves, hends]
  refine and_congr_right fun hlast => ?_
  constructor
  · intro hresolved d hd htracked
    obtain ⟨s', hleaves⟩ := CountedLoop.exists_leaves h₀ hlast
    have hnone := (hresolved _ s' hleaves).handles d
    by_contra hgt
    rw [if_pos hd, handlesFor_eq, entry_leaves hs hlast hleaves, if_neg fun h => hgt h.1, ← handlesFor_eq] at hnone
    exact htracked hnone
  · intro hreach k s' hleaves
    have hentry : ∀ d, s'.entry d =
        if Within body.first body.end_ d then (s.entry d).dispose body else s.entry d := by
      intro d
      rw [entry_leaves hs hlast hleaves]
      by_cases htracked : s.handlesFor body.role d = none
      · -- the loop may not come to the delivery, but there is nothing to do for it
        rw [dispose_untracked body _ (by rw [← handlesFor_eq]; exact htracked), ite_self, ite_self]
      · exact if_congr (and_iff_right_of_imp fun hd => hreach d hd htracked) rfl rfl
    refine ⟨fun d => ?_, fun d => ?_, fun role hrole => ?_⟩
    · rw [handlesFor_eq, handlesFor_eq, hentry]
      split
      · exact dispose_handle body _
      · rfl
    · show (s'.entry d).settlement = _
      rw [hentry, handlesFor_eq]
      by_cases hd : Within body.first body.end_ d
      · rw [if_pos hd, dispose_settlement]
        exact if_congr (by simp [hd]) rfl rfl
      · rw [if_neg hd, if_neg fun h => hd h.2.1]
        rfl
    · funext d
      rw [handlesFor_eq, handlesFor_eq, hentry]
      split
      · exact dispose_others body _ hrole
      · rfl

/-- When the range is resolved and settled, no `Send` of the range waits any longer if and only if the
    session still had the handle of each delivery that one was waiting for. -/
theorem Resolved.confirms_iff (h : s.Resolved s' body) (hsettles : Settles body) :
    (∀ d, Within body.first body.end_ d → s'.settlementByDeliveryID d = none) ↔
      ∀ d, Within body.first body.end_ d → s.settlementByDeliveryID d ≠ none →
        s.handlesFor body.role d ≠ none := by
  refine forall₂_congr fun d hd => ?_
  rw [h.settlement]
  by_cases htracked : s.handlesFor body.role d = none
  · simp [htracked]
  · simp [hsettles, hd, htracked]

end Session

open Session ReceiverLink

/-! ## The three loops -/

section

variable {maxMessageSize : UInt64} {mode : Option ReceiverSettleMode} {initialDeliveryCount handle : UInt32}
  {autoSendFlow : Bool} {maxCredit : UInt32} {batching : Bool}
  {trace : Trace SettleInput ReceiverEvent} {r : ReceiverLink}

/-- The mux of a reachable receiver in the loop for a disposition. -/
theorem muxRemoval_of_run
    (hrun : Run (Fires ReceiverLink.step) (.start maxMessageSize mode initialDeliveryCount handle autoSendFlow maxCredit batching) trace r)
    (hmade : r.made = true) {err : Option (AmqpError Value)} {flow : Option PerformFlow}
    (hphase : r.mux.phase = .removing i last err flow) : muxRemoveLoop.position r = some (⟨last, err, flow⟩, i) :=
  muxRemoval_eq_some.mpr ⟨hphase, hmade, (flightInv_of_run hrun).exclusive (by rw [hphase]; rfl)⟩

/-- The batcher of a reachable receiver in the loop for a batch that it could not send. -/
theorem batchRemoval_of_run
    (hrun : Run (Fires ReceiverLink.step) (.start maxMessageSize mode initialDeliveryCount handle autoSendFlow maxCredit batching) trace r)
    (hmade : r.made = true) {err : SettleError} {todo : List SendDisposition}
    (hphase : r.batcherPhase = .removing i last err todo) :
    batchRemoveLoop.position r = some (⟨last, err, todo⟩, i) := by
  refine batchRemoval_eq_some.mpr ⟨hphase, hmade, ?_⟩
  by_contra hlocked
  have hfree := (flightInv_of_run hrun).exclusive (by simpa using hlocked)
  rw [hphase] at hfree
  cases hfree

/-- **When the loops end.** For every state of a session at the loop of a disposition, and every reachable
    state of a receiver at the loop of `inFlight.remove`: with at most as many rounds as the range has
    delivery-ids, the loop ends if and only if the range does not end with the largest delivery-id. -/
theorem disposition_loops_end_iff (s : Session) (body : PerformDisposition)
    (hs : s.phase = .disposition body body.first)
    (hrun : Run (Fires ReceiverLink.step)
      (.start maxMessageSize mode initialDeliveryCount handle autoSendFlow maxCredit batching) trace r)
    (hmade : r.made = true) :
    (dispositionLoop.EndsWithin s ((body.end_ - body.first).toNat + 1) ↔ body.end_ ≠ maxSerial) ∧
    (∀ first last err flow, r.mux.phase = .removing first last err flow →
      (muxRemoveLoop.EndsWithin r ((last - first).toNat + 1) ↔ last ≠ maxSerial)) ∧
    ∀ first last err todo, r.batcherPhase = .removing first last err todo →
      (batchRemoveLoop.EndsWithin r ((last - first).toNat + 1) ↔ last ≠ maxSerial) := by
  refine ⟨CountedLoop.endsWithin_iff (dispositionLoop_position hs), fun first last err flow hphase => ?_,
    fun first last err todo hphase => ?_⟩
  · exact CountedLoop.endsWithin_iff (muxRemoval_of_run hrun hmade hphase)
  · exact CountedLoop.endsWithin_iff (batchRemoval_of_run hrun hmade hphase)

end

namespace ReceiverLink

/-- The mux is in the loop of `inFlight.remove` for a range that the peer has accepted, in its `select`
    before. -/
def removing (first last : UInt32) (r : ReceiverLink) : Bool :=
  r.made && match r.mux.phase with
    | .removing i l none none => i == first && l == last
    | _ => false

theorem removing_phase {first : UInt32} {r : ReceiverLink} (h : removing first last r = true) :
    r.made = true ∧ r.mux.phase = .removing first last none none := by
  unfold removing at h
  rw [Bool.and_eq_true] at h
  refine ⟨h.1, ?_⟩
  have hmatch := h.2
  split at hmatch
  · next i l hphase =>
    rw [Bool.and_eq_true, beq_iff_eq, beq_iff_eq] at hmatch
    rw [hphase, hmatch.1, hmatch.2]
  · cases hmatch

/-- Two messages are received, and a call for each waits for its channel. The peer then accepts a range of
    delivery-ids. -/
def acceptTwo (first second : UInt32) (last : Option UInt32) : List SettleInput :=
  [.mux .check, .mux .issue, .mux .flowBits, .mux .muxFlow, .mux .handOver,
    .mux (.rx (.transfer (Receiver.firstOf first false Receiver.dataSection))), .mux .check, .mux .flowBits,
    .mux (.rx (.transfer { Receiver.firstOf second false Receiver.dataSection with deliveryTag := some [0x62] })),
    .mux .receive, .mux .receive,
    acceptMessage 0 0, .register 0, .send 0 true, acceptMessage 1 1, .register 1, .send 1 true,
    .mux .check, .mux .flowBits,
    .mux (.rx (.disposition {
      role := .sender, first := first, last := last, settled := true, state := some .accepted
      batchable := false }))]

/-- A receiver link with room for two messages, whose peer settles first. -/
def roomForTwo : ReceiverLink := .start 0 (some .second) 0 0 true 2 false

/-- A run to the loop of `inFlight.remove`, with two messages in flight. -/
theorem exists_removing (first second last : UInt32) (range : Option UInt32)
    (hexec : (exec ReceiverLink.step [] roomForTwo (acceptTwo first second range)).map (fun res =>
      (removing first last res.2, res.2.inFlight first, res.2.inFlight second)) = some (true, some 0, some 1)) :
    ∃ (trace : Trace SettleInput ReceiverEvent) (r : ReceiverLink),
      Run (Fires ReceiverLink.step) roomForTwo trace r ∧ r.made = true ∧
      r.mux.phase = .removing first last none none ∧ r.inFlight first = some 0 ∧ r.inFlight second = some 1 := by
  obtain ⟨⟨trace, r⟩, hexec, hres⟩ := Option.map_eq_some_iff.mp hexec
  simp only [Prod.mk.injEq] at hres
  obtain ⟨hmade, hphase⟩ := removing_phase hres.1
  exact ⟨trace, r, .of_exec _ .start hexec, hmade, hphase, hres.2⟩

end ReceiverLink

/-- A range of two delivery-ids at a receiver, and one delivery-id at a session. -/
theorem disposition_loops_end_two :
    ∃ (trace : Trace SettleInput ReceiverEvent) (r : ReceiverLink),
      Run (Fires ReceiverLink.step) roomForTwo trace r ∧ r.mux.phase = .removing 1 2 none none ∧
      muxRemoveLoop.EndsWithin r 2 ∧
      dispositionLoop.EndsWithin { firstSession with phase := .disposition (settledFrame 1) 1 } 1 := by
  obtain ⟨trace, r, hrun, hmade, hphase, -⟩ := exists_removing 1 2 2 (some 2) (by decide +kernel)
  obtain ⟨hsession, hmux, -⟩ := disposition_loops_end_iff
    { firstSession with phase := .disposition (settledFrame 1) 1 } (settledFrame 1) rfl hrun hmade
  exact ⟨trace, r, hrun, hphase, (hmux 1 2 none none hphase).mpr (by decide), hsession.mpr (by decide)⟩

/-- The disposition of a range that the peer settles. -/
def rangeFrame (first : UInt32) (last : Option UInt32) : PerformDisposition :=
  { PerformDisposition.zero with role := Role.sender, first := first, last := last, settled := true }

/-- A disposition for the largest delivery-id alone. -/
theorem disposition_loops_endless :
    (∃ (trace : Trace MuxInput MuxEvent) (s : Session), Run (Fires Session.step) firstSession trace s ∧
      s.phase = .disposition (rangeFrame maxSerial none) maxSerial ∧
      (∀ k, ∃ s', dispositionLoop.Inside s k s') ∧ ∀ k s', ¬ dispositionLoop.Leaves s k s') ∧
    ∃ (trace : Trace SettleInput ReceiverEvent) (r : ReceiverLink),
      Run (Fires ReceiverLink.step) roomForTwo trace r ∧ r.mux.phase = .removing maxSerial maxSerial none none ∧
      (∀ k, ∃ r', muxRemoveLoop.Inside r k r') ∧ ∀ k r', ¬ muxRemoveLoop.Leaves r k r' := by
  constructor
  · refine ⟨_, _, Run.of_exec [.rx (.disposition (rangeFrame maxSerial none))] .start rfl, rfl, ?_⟩
    exact CountedLoop.endless (dispositionLoop_position rfl) rfl
  · obtain ⟨trace, r, hrun, hmade, hphase, -⟩ := exists_removing maxSerial 0 maxSerial none (by decide +kernel)
    exact ⟨trace, r, hrun, hphase, CountedLoop.endless (muxRemoval_of_run hrun hmade hphase) rfl⟩

/-- **When a range is resolved exactly.** For every state of a session at the loop of a disposition, and
    every reachable state of a receiver at the loop of `inFlight.remove`: the loop ends with the deliveries
    of the range out of the maps, and all others as they were, if and only if the range does not end with
    the largest delivery-id and either does not pass it or has no delivery that is tracked. A `Send` of a
    settled range is left waiting if the session has lost the handle of its delivery before. A receiver
    whose map is not made has nothing in flight. -/
theorem disposition_ranges_resolved_iff {maxMessageSize : UInt64} {mode : Option ReceiverSettleMode}
    {initialDeliveryCount handle : UInt32} {autoSendFlow : Bool} {maxCredit : UInt32} {batching : Bool}
    {trace : Trace SettleInput ReceiverEvent} {r : ReceiverLink} (s : Session)
    (body : PerformDisposition) (hs : s.phase = .disposition body body.first)
    (hrun : Run (Fires ReceiverLink.step)
      (.start maxMessageSize mode initialDeliveryCount handle autoSendFlow maxCredit batching) trace r) :
    (s.Resolves body ↔ body.end_ ≠ maxSerial ∧
      ∀ d, Within body.first body.end_ d → s.handlesFor body.role d ≠ none → body.first ≤ body.end_) ∧
    (∀ s', s.Resolved s' body → Settles body →
      ((∀ d, Within body.first body.end_ d → s'.settlementByDeliveryID d = none) ↔
        ∀ d, Within body.first body.end_ d → s.settlementByDeliveryID d ≠ none → s.handlesFor body.role d ≠ none)) ∧
    (r.made = true → ∀ first last err flow, r.mux.phase = .removing first last err flow →
      (ReceiverLink.Resolves muxRemoveLoop r first last (err.map .rejected) ↔ last ≠ maxSerial ∧
        ∀ d n, Within first last d → r.inFlight d = some n → first ≤ last)) ∧
    (r.made = true → ∀ first last err todo, r.batcherPhase = .removing first last err todo →
      (ReceiverLink.Resolves batchRemoveLoop r first last (some err) ↔ last ≠ maxSerial ∧
        ∀ d n, Within first last d → r.inFlight d = some n → first ≤ last)) ∧
    (r.made = false → ∀ d, r.inFlight d = none) := by
  have hinv := flightInv_of_run hrun
  refine ⟨Session.resolves_iff hs, fun s' hresolved hsettles => hresolved.confirms_iff hsettles,
    fun hmade first last err flow hphase => ?_, fun hmade first last err todo hphase => ?_, hinv.unmade⟩
  · exact muxRemoveLoop_removes.resolves_iff (muxRemoval_of_run hrun hmade hphase) hinv.calls
  · exact batchRemoveLoop_removes.resolves_iff (batchRemoval_of_run hrun hmade hphase) hinv.calls

/-- The range from 1 to 2, with both messages in flight. -/
theorem disposition_ranges_resolved_two :
    ∃ (trace : Trace SettleInput ReceiverEvent) (r : ReceiverLink),
      Run (Fires ReceiverLink.step) roomForTwo trace r ∧ r.inFlight 1 = some 0 ∧ r.inFlight 2 = some 1 ∧
      ReceiverLink.Resolves muxRemoveLoop r 1 2 none ∧
      Session.Resolves { firstSession with phase := .disposition (settledFrame 1) 1 } (settledFrame 1) := by
  obtain ⟨trace, r, hrun, hmade, hphase, hone, htwo⟩ := exists_removing 1 2 2 (some 2) (by decide +kernel)
  obtain ⟨hsession, -, hmux, -⟩ := disposition_ranges_resolved_iff
    { firstSession with phase := .disposition (settledFrame 1) 1 } (settledFrame 1) rfl hrun
  exact ⟨trace, r, hrun, hone, htwo, (hmux hmade 1 2 none none hphase).mpr ⟨by decide, fun _ _ _ _ => by decide⟩,
    hsession.mpr ⟨by decide, fun _ _ _ => by decide⟩⟩

/-- The peer attaches a sender, whose deliveries have the ids 2^32 − 1 and 0. -/
def receivedTwo : List MuxInput :=
  [.newLink ⟨ascii "a", Role.receiver⟩ (some .second),
    .rx (.attach { attachFrame "a" 0 with role := Role.sender }), .rx (.transfer (firstTransfer 0 maxSerial)),
    .rx (.transfer (firstTransfer 0 0)), .rx (.disposition (rangeFrame maxSerial (some 0)))]

/-- A delivery is sent, its handle is lost to an unsettled disposition, and the settled one comes. -/
def sentOne : List MuxInput :=
  [.newLink ⟨ascii "a", Role.sender⟩ none, .rx (.attach (attachFrame "a" 0)), .txTransfer 0 waitingFrame,
    .rx (.disposition (unsettledFrame 1)), .round, .round, .rx (.disposition (settledFrame 1))]

/-- The range of the two delivery-ids 2^32 − 1 and 0: no round is made for them, at the session or at the
    receiver. And a settled disposition that leaves the `Send` of its delivery waiting. -/
theorem wrapped_range_missed :
    (∃ (trace : Trace MuxInput MuxEvent) (s s' : Session), Run (Fires Session.step) firstSession trace s ∧
      s.phase = .disposition (rangeFrame maxSerial (some 0)) maxSerial ∧ dispositionLoop.Leaves s 0 s' ∧
      s'.handlesByRemoteDeliveryID maxSerial = some 0 ∧ s'.handlesByRemoteDeliveryID 0 = some 0) ∧
    (∃ (trace : Trace SettleInput ReceiverEvent) (r r' : ReceiverLink),
      Run (Fires ReceiverLink.step) roomForTwo trace r ∧ r.mux.phase = .removing maxSerial 0 none none ∧
      muxRemoveLoop.Leaves r 0 r' ∧ r'.inFlight maxSerial = some 0 ∧ r'.inFlight 0 = some 1) ∧
    ∃ (trace : Trace MuxInput MuxEvent) (s s' : Session),
      Run (Fires Session.step) firstSession trace s ∧ s.phase = .disposition (settledFrame 1) 1 ∧
      dispositionLoop.Leaves s 1 s' ∧ s'.settlementByDeliveryID 1 = some 5 := by
  refine ⟨?_, ?_, ?_⟩
  · obtain ⟨trace, s, hrun, hphase, hmax, hzero⟩ : ∃ trace s, Run (Fires Session.step) firstSession trace s ∧
        s.phase = .disposition (rangeFrame maxSerial (some 0)) maxSerial ∧
        s.handlesByRemoteDeliveryID maxSerial = some 0 ∧ s.handlesByRemoteDeliveryID 0 = some 0 :=
      ⟨_, _, .of_exec receivedTwo .start rfl, rfl, rfl, rfl⟩
    obtain ⟨s', hleaves⟩ := CountedLoop.exists_leaves (dispositionLoop_position hphase) (by decide)
    have hsame := entry_leaves hphase (by decide) hleaves
    refine ⟨trace, s, s', hrun, hphase, hleaves, ?_, ?_⟩
    · show (s'.entry maxSerial).received = _
      rw [hsame, if_neg (by decide)]
      exact hmax
    · show (s'.entry 0).received = _
      rw [hsame, if_neg (by decide)]
      exact hzero
  · obtain ⟨trace, r, hrun, hmade, hphase, hmax, hzero⟩ := exists_removing maxSerial 0 0 (some 0) (by decide +kernel)
    have hposition := muxRemoval_of_run hrun hmade hphase
    obtain ⟨r', hleaves⟩ := CountedLoop.exists_leaves hposition (by decide)
    have hsame := muxRemoveLoop_removes.sweeps.leaves hleaves hposition (by decide)
    refine ⟨trace, r, r', hrun, hphase, hleaves, ?_, ?_⟩
    · rw [hsame, if_neg (by decide)]
      exact hmax
    · rw [hsame, if_neg (by decide)]
      exact hzero
  · obtain ⟨trace, s, hrun, hphase, hlost, hwait⟩ : ∃ trace s, Run (Fires Session.step) firstSession trace s ∧
        s.phase = .disposition (settledFrame 1) 1 ∧ s.handlesByDeliveryID 1 = none ∧
        s.settlementByDeliveryID 1 = some 5 :=
      ⟨_, _, .of_exec sentOne .start rfl, rfl, rfl, rfl⟩
    obtain ⟨s', hleaves⟩ := CountedLoop.exists_leaves (dispositionLoop_position hphase) (by decide)
    refine ⟨trace, s, s', hrun, hphase, hleaves, ?_⟩
    show (s'.entry 1).settlement = _
    rw [entry_leaves hphase (by decide) hleaves, dispose_untracked (settledFrame 1) (s.entry 1) hlost, ite_self]
    exact hwait

end GoAmqp
