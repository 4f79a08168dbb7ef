import GoAmqp.Session.Routing
import GoAmqp.Lib.Transition

set_option autoImplicit false

/-! # Where a disposition goes

The session remembers for each delivery the handle of the link that sent it, which is the handle this
side has chosen. It looks for the link of a disposition in a map from the handles that the peer has
chosen. The two agree only if the peer gives every link the handle it already has. -/

namespace GoAmqp

open Lib Function

variable {d : UInt32} {l : MuxInput × List MuxEvent} {trace : Trace MuxInput MuxEvent} {s : Session}

namespace Session

/-! ## What a run has sent -/

/-- The link that starts the delivery `d` in a step. -/
def startedBy (d : UInt32) : MuxInput → Option LinkID
  | .txTransfer l fr => if fr.deliveryID = some d then some l else none
  | _ => none

/-- The link that has sent the transfer with the delivery-id `d`, the latest if there are several. -/
def sentBy (d : UInt32) : Trace MuxInput MuxEvent → Option LinkID
  | [] => none
  | l :: trace => (startedBy d l.1).or (sentBy d trace)

/-- The reply to the link's attach has been passed on to it. -/
def Greeted (trace : Trace MuxInput MuxEvent) (l : LinkID) : Prop :=
  ∃ body, (MuxInput.rx (.attach body), [MuxEvent.toLink l (.attach body)]) ∈ trace

/-- Transfers come from senders: a sender runs between the reply to its attach and the return of its
    handle, and its transfers carry its handle. -/
def FromSender (trace : Trace MuxInput MuxEvent) (s : Session) (i : MuxInput) : Prop :=
  ∀ l fr, i = .txTransfer l fr → s.live l ∧ Greeted trace l ∧ fr.handle = (s.link l).handle

/-- The peer's attach gives a link the handle it has, which is not that of a delivery of another link. -/
def HandlesAgree (trace : Trace MuxInput MuxEvent) (s : Session) (i : MuxInput) : Prop :=
  ∀ body l, i = .rx (.attach body) → s.linksByKey ⟨body.name, !body.role⟩ = some l → body.handle = (s.link l).handle ∧
    ∀ d, s.handlesByDeliveryID d = some body.handle → sentBy d trace = some l

/-! ## The invariant -/

/-- A delivery-id stands for the handle of the link that has sent the delivery. -/
structure RouteInv (trace : Trace MuxInput MuxEvent) (s : Session) : Prop where
  table : TableInv s
  sent_lt : ∀ d l, sentBy d trace = some l → l < s.linkCount
  greeted_lt : ∀ l, Greeted trace l → l < s.linkCount
  own : ∀ h l, s.links h = some l → (s.link l).handle = h ∧ l < s.linkCount
  free : ∀ l, s.live l → Greeted trace l → ∀ l', s.links (s.link l).handle = some l' → l' = l
  tracked : ∀ d h, s.handlesByDeliveryID d = some h → ∃ l, sentBy d trace = some l ∧
    (s.link l).handle = h ∧ ∀ l', s.links h = some l' → l' = l

theorem RouteInv.start (incomingWindow outgoingWindow handleMax : UInt32) (remoteBegin : PerformBegin) :
    RouteInv [] (.start incomingWindow outgoingWindow handleMax remoteBegin) := by
  refine ⟨.start .., fun _ _ h => ?_, fun _ h => ?_, fun _ _ h => ?_, fun _ h => ?_, fun _ _ h => ?_⟩
  · cases h
  · obtain ⟨body, hmem⟩ := h
    cases hmem
  · cases h
  · cases h
  · cases h

/-- A step that is not a transfer and not an attach adds nothing to what a run has sent. -/
theorem sentBy_cons (h : startedBy d l.1 = none) : sentBy d (l :: trace) = sentBy d trace := by
  rw [sentBy, h, Option.none_or]

theorem Greeted.of_cons {k : LinkID} (h : Greeted (l :: trace) k) (hl : ∀ body, l.1 ≠ .rx (.attach body)) :
    Greeted trace k := by
  obtain ⟨body, hmem⟩ := h
  rcases List.mem_cons.1 hmem with heq | hmem
  · exact absurd (congrArg Prod.fst heq).symm (hl body)
  · exact ⟨body, hmem⟩

theorem RouteInv.keeps {s' : Session} (h : RouteInv trace s) (hk : Keeps s s')
    (hstarted : ∀ d, startedBy d l.1 = none) (hattach : ∀ body, l.1 ≠ .rx (.attach body)) :
    RouteInv (l :: trace) s' := by
  have ht := hk.table
  refine ⟨h.table.same ht, fun d k hd => ?_, fun k hg => ?_, fun hd k hl => ?_, fun k hlive hg k' hl => ?_,
    fun d hd htr => ?_⟩
  · rw [sentBy_cons (hstarted d)] at hd
    rw [ht.linkCount]
    exact h.sent_lt d k hd
  · rw [ht.linkCount]
    exact h.greeted_lt k (hg.of_cons hattach)
  · rw [ht.handle, ht.linkCount]
    exact h.own hd k (hk.links hd k hl)
  · rw [ht.handle] at hl
    exact h.free k ((ht.live_iff k).1 hlive) (hg.of_cons hattach) k' (hk.links _ _ hl)
  · obtain ⟨k, hsent, hhandle, honly⟩ := h.tracked d hd (hk.tracked d hd htr)
    refine ⟨k, ?_, ?_, fun k' hl => honly k' (hk.links _ _ hl)⟩
    · rw [sentBy_cons (hstarted d)]
      exact hsent
    · rw [ht.handle]
      exact hhandle

/-! ## The steps that change the links -/

theorem RouteInv.newLink {key : LinkKey} {mode : Option ReceiverSettleMode} (h : RouteInv trace s) :
    RouteInv ((.newLink key mode, []) :: trace) (s.newLink key mode) := by
  have hlinks : (s.newLink key mode).links = s.links := by
    rcases newLink_cases s key mode with heq | ⟨next, handles, -, -, heq⟩ <;> rw [heq] <;> rfl
  have hdeliveries : (s.newLink key mode).handlesByDeliveryID = s.handlesByDeliveryID := by
    rcases newLink_cases s key mode with heq | ⟨next, handles, -, -, heq⟩ <;> rw [heq] <;> rfl
  have hgreeted : ∀ k, Greeted ((.newLink key mode, []) :: trace) k → Greeted trace k :=
    fun k hg => hg.of_cons (fun _ heq => by cases heq)
  have hold : ∀ k, k < s.linkCount → (s.newLink key mode).link k = s.link k :=
    fun k hk => newLink_link (Nat.ne_of_lt hk)
  refine ⟨h.table.newLink key mode, fun d k hd => ?_, fun k hg => ?_, fun hd k hl => ?_,
    fun k hlive hg k' hl => ?_, fun d hd htr => ?_⟩
  · rw [newLink_linkCount]
    exact Nat.lt_succ_of_lt (h.sent_lt d k hd)
  · rw [newLink_linkCount]
    exact Nat.lt_succ_of_lt (h.greeted_lt k (hgreeted k hg))
  · rw [hlinks] at hl
    obtain ⟨hhandle, hlt⟩ := h.own hd k hl
    rw [hold k hlt, newLink_linkCount]
    exact ⟨hhandle, Nat.lt_succ_of_lt hlt⟩
  · have hlt := h.greeted_lt k (hgreeted k hg)
    rw [hlinks, hold k hlt] at hl
    rcases newLink_live hlive with heq | ⟨-, hlive⟩
    · exact absurd heq (Nat.ne_of_lt hlt)
    · exact h.free k hlive (hgreeted k hg) k' hl
  · rw [hdeliveries] at htr
    obtain ⟨k, hsent, hhandle, honly⟩ := h.tracked d hd htr
    rw [hlinks]
    exact ⟨k, hsent, by rw [hold k (h.sent_lt d k hsent)]; exact hhandle, honly⟩

theorem RouteInv.deallocateHandle {l : LinkID} (h : RouteInv trace s) (hl : s.live l) :
    RouteInv ((.deallocateHandle l, []) :: trace) (s.deallocateHandle l) := by
  have hgreeted : ∀ k, Greeted ((.deallocateHandle l, []) :: trace) k → Greeted trace k :=
    fun k hg => hg.of_cons (fun _ heq => by cases heq)
  refine ⟨h.table.deallocateHandle hl, h.sent_lt, fun k hg => h.greeted_lt k (hgreeted k hg), h.own,
    fun k hlive hg => ?_, h.tracked⟩
  have hlive' : s.live k := (update_none_eq_some hlive).2
  exact h.free k hlive' (hgreeted k hg)

theorem RouteInv.setReceiverSettleMode {l : LinkID} {mode : ReceiverSettleMode} (h : RouteInv trace s) :
    RouteInv ((.setReceiverSettleMode l mode, []) :: trace) { s with
      link := update s.link l { s.link l with receiverSettleMode := some mode } } :=
  h.keeps ⟨sameTable_setReceiverSettleMode s l mode, fun _ _ hl => hl, fun _ _ hd => hd⟩
    (fun _ => rfl) (fun _ heq => by cases heq)

/-- An attach: the link is now found under the handle it has. -/
theorem RouteInv.attach {body : PerformAttach} {events : List MuxEvent} (h : RouteInv trace s)
    (hagree : HandlesAgree trace s (.rx (.attach body))) (hevents : events = (s.rxAttach body).2) :
    RouteInv ((.rx (.attach body), events) :: trace) (s.rxAttach body).1 := by
  have ht := sameTable_rxAttach s body
  cases hkey : s.linksByKey ⟨body.name, !body.role⟩ with
  | none =>
    have hstate : (s.rxAttach body).1 = { s with phase := .returned (some (.mismatchedAttach body)) } := by
      simp only [rxAttach, hkey]
    have hnone : events = [] := by rw [hevents]; simp only [rxAttach, hkey]
    have hgreeted : ∀ k, Greeted ((.rx (.attach body), events) :: trace) k → Greeted trace k := by
      rintro k ⟨b, hmem⟩
      rcases List.mem_cons.1 hmem with heq | hmem
      · rw [hnone] at heq
        cases congrArg Prod.snd heq
      · exact ⟨b, hmem⟩
    rw [hstate]
    exact ⟨h.table.same (keeps_phase s _).table, h.sent_lt, fun k hg => h.greeted_lt k (hgreeted k hg),
      h.own, fun k hlive hg => h.free k hlive (hgreeted k hg), h.tracked⟩
  | some l =>
    obtain ⟨hhandle, honly⟩ := hagree body l rfl hkey
    obtain ⟨hlkey, hlt⟩ := h.table.keyed _ l hkey
    have hlive : s.live l := by rw [live, hlkey]; exact hkey
    have hlinks : (s.rxAttach body).1.links = update s.links body.handle (some l) := by
      simp only [rxAttach, hkey]
    have hdeliveries : (s.rxAttach body).1.handlesByDeliveryID = s.handlesByDeliveryID := by
      simp only [rxAttach, hkey]
    have hgreeted : ∀ k, Greeted ((.rx (.attach body), events) :: trace) k → Greeted trace k ∨ k = l := by
      rintro k ⟨b, hmem⟩
      rcases List.mem_cons.1 hmem with heq | hmem
      · rw [hevents] at heq
        simp only [rxAttach, hkey, Prod.mk.injEq, List.cons.injEq, MuxEvent.toLink.injEq] at heq
        exact .inr heq.2.1.1
      · exact .inl ⟨b, hmem⟩
    refine ⟨h.table.same ht, fun d k hd => ?_, fun k hg => ?_, fun hd k hl => ?_, fun k hk hg k' hl => ?_,
      fun d hd htr => ?_⟩
    · rw [ht.linkCount]
      exact h.sent_lt d k hd
    · rw [ht.linkCount]
      rcases hgreeted k hg with hg | rfl
      · exact h.greeted_lt k hg
      · exact hlt
    · rw [ht.handle, ht.linkCount]
      rw [hlinks] at hl
      by_cases hdh : hd = body.handle
      · rw [hdh, update_self] at hl
        obtain rfl : l = k := Option.some.inj hl
        exact ⟨by rw [hdh]; exact hhandle.symm, hlt⟩
      · rw [update_of_ne hdh] at hl
        exact h.own hd k hl
    · rw [ht.handle, hlinks] at hl
      have hk' : s.live k := (ht.live_iff k).1 hk
      by_cases hkl : k = l
      · subst hkl
        rw [← hhandle, update_self] at hl
        exact (Option.some.inj hl).symm
      · -- another registered link has another handle
        have hne : (s.link k).handle ≠ body.handle := by
          rw [hhandle]
          exact fun heq => hkl (h.table.distinct k l hk' hlive heq)
        rw [update_of_ne hne] at hl
        rcases hgreeted k hg with hg | heq
        · exact h.free k hk' hg k' hl
        · exact absurd heq hkl
    · rw [hdeliveries] at htr
      obtain ⟨k, hsent, hkh, hk⟩ := h.tracked d hd htr
      refine ⟨k, hsent, by rw [ht.handle]; exact hkh, fun k' hl => ?_⟩
      rw [hlinks] at hl
      by_cases hdh : hd = body.handle
      · rw [hdh, update_self] at hl
        rw [hdh] at htr
        have hsent' : sentBy d trace = some l := honly d htr
        rw [hsent] at hsent'
        exact (Option.some.inj hl).symm.trans (Option.some.inj hsent').symm
      · rw [update_of_ne hdh] at hl
        exact hk k' hl

/-! ## Transfers -/

/-- What `txTransfer` does to the maps of deliveries. -/
theorem txTransfer_handlesByDeliveryID (s : Session) (fr : PerformTransfer) :
    (s.txTransfer fr).1.handlesByDeliveryID =
      if fr.settled then update s.handlesByDeliveryID (s.deliveryIDOf fr) none
      else match fr.deliveryID with
        | some d => update s.handlesByDeliveryID d (some fr.handle)
        | none => s.handlesByDeliveryID := by
  cases hset : fr.settled <;> cases hid : fr.deliveryID <;> cases hdone : fr.done <;>
    simp [txTransfer, recordDeliveryID, forgetSettled, awaitSettlement, hset, hid, hdone]

/-- A delivery that is tracked after a transfer has been started by it or was tracked before. -/
theorem txTransfer_tracked {fr : PerformTransfer} {h : UInt32}
    (htr : (s.txTransfer fr).1.handlesByDeliveryID d = some h) :
    (fr.deliveryID = some d ∧ h = fr.handle) ∨
    (fr.deliveryID ≠ some d ∧ s.handlesByDeliveryID d = some h) := by
  rw [txTransfer_handlesByDeliveryID] at htr
  split at htr
  · obtain ⟨hne, htr⟩ := update_none_eq_some htr
    refine .inr ⟨fun hid => hne ?_, htr⟩
    rw [deliveryIDOf, hid]
    rfl
  · cases hid : fr.deliveryID with
    | none =>
      simp only [hid] at htr
      exact .inr ⟨(by intro h; cases h), htr⟩
    | some d' =>
      simp only [hid] at htr
      by_cases hd : d = d'
      · subst hd
        rw [update_self] at htr
        exact .inl ⟨rfl, (Option.some.inj htr).symm⟩
      · rw [update_of_ne hd] at htr
        exact .inr ⟨fun heq => hd (Option.some.inj heq).symm, htr⟩

theorem RouteInv.txTransfer {l : LinkID} {fr : PerformTransfer} {events : List MuxEvent}
    (h : RouteInv trace s) (hsender : FromSender trace s (.txTransfer l fr)) :
    RouteInv ((.txTransfer l fr, events) :: trace) (s.txTransfer fr).1 := by
  obtain ⟨hlive, hgreeted, hhandle⟩ := hsender l fr rfl
  have ht := sameTable_txTransfer s fr
  have hlinks : (s.txTransfer fr).1.links = s.links := congrArg Routes.links (routes_txTransfer s fr)
  have hold : ∀ k, Greeted ((.txTransfer l fr, events) :: trace) k → Greeted trace k :=
    fun k hg => hg.of_cons (fun _ heq => by cases heq)
  have hsent : ∀ d, sentBy d ((.txTransfer l fr, events) :: trace) =
      if fr.deliveryID = some d then some l else sentBy d trace := by
    intro d
    simp only [sentBy, startedBy]
    split <;> rfl
  constructor
  · exact h.table.same ht
  · intro d k hd
    rw [hsent] at hd
    rw [ht.linkCount]
    split at hd
    · obtain rfl : l = k := Option.some.inj hd
      exact h.table.live_lt hlive
    · exact h.sent_lt d k hd
  · intro k hg
    rw [ht.linkCount]
    exact h.greeted_lt k (hold k hg)
  · intro hd k hl
    rw [hlinks] at hl
    rw [ht.handle, ht.linkCount]
    exact h.own hd k hl
  · intro k hk hg k' hl
    rw [hlinks, ht.handle] at hl
    exact h.free k ((ht.live_iff k).1 hk) (hold k hg) k' hl
  · intro d hd htr
    rw [hlinks, hsent]
    rcases txTransfer_tracked htr with ⟨hid, hdh⟩ | ⟨hid, htr⟩
    · -- the delivery is the link's own, and its handle is free or leads to it
      refine ⟨l, if_pos hid, by rw [ht.handle, hdh, hhandle], fun k' hl => ?_⟩
      rw [hdh, hhandle] at hl
      exact h.free l hlive hgreeted k' hl
    · obtain ⟨k, hk, hkh, honly⟩ := h.tracked d hd htr
      exact ⟨k, by rw [if_neg hid]; exact hk, by rw [ht.handle]; exact hkh, honly⟩

theorem RouteInv.step {s' : Session} (h : RouteInv trace s) (hstep : Fires Session.step s l s')
    (hsender : FromSender trace s l.1) (hagree : HandlesAgree trace s l.1) : RouteInv (l :: trace) s' := by
  obtain ⟨i, events⟩ := l
  cases step_cases hstep with
  | connDone => exact h.keeps (keeps_phase s _) (fun _ => rfl) (fun _ heq => by cases heq)
  | close => exact h.keeps (keeps_phase s _) (fun _ => rfl) (fun _ heq => by cases heq)
  | rx body =>
    cases hb : attach? body with
    | none => exact h.keeps (keeps_rx s hb) (fun _ => rfl) (fun _ heq => by cases heq; cases hb)
    | some attach =>
      cases body with
      | attach body => exact h.attach hagree rfl
      | _ => cases hb
  | rxClosing body =>
    cases hb : attach? body with
    | none => exact h.keeps (keeps_rxClosing s body) (fun _ => rfl) (fun _ heq => by cases heq; cases hb)
    | some attach =>
      cases body with
      | attach body =>
        -- an attach is dropped, so no link has been greeted by it
        have hold : ∀ k, Greeted ((.rx (.attach body), []) :: trace) k → Greeted trace k := by
          rintro k ⟨b, hmem⟩
          rcases List.mem_cons.1 hmem with heq | hmem
          · cases congrArg Prod.snd heq
          · exact ⟨b, hmem⟩
        exact ⟨h.table, h.sent_lt, fun k hg => h.greeted_lt k (hold k hg), h.own,
          fun k hlive hg => h.free k hlive (hold k hg), h.tracked⟩
      | _ => cases hb
  | round body deliveryID =>
    exact h.keeps (keeps_dispositionRound s body deliveryID) (fun _ => rfl) (fun _ heq => by cases heq)
  | txTransfer k fr => exact h.txTransfer hsender
  | tx body => exact h.keeps (keeps_tx s body) (fun _ => rfl) (fun _ heq => by cases heq)
  | newLink key mode => exact h.newLink
  | setReceiverSettleMode k mode => exact h.setReceiverSettleMode
  | deallocateHandle k hlive => exact h.deallocateHandle hlive

/-! ## The round for one delivery -/

/-- The frames a round passes on: those of the handle the delivery is tracked under. -/
theorem toLink_mem_dispositionRound {body : PerformDisposition} {l : LinkID} {fr : FrameBody}
    (hrole : body.role = Role.receiver) (hle : d ≤ body.end_) :
    .toLink l fr ∈ (s.dispositionRound body d).2 ↔
    fr = .disposition body ∧ ∃ h, s.handlesByDeliveryID d = some h ∧ s.links h = some l := by
  have hconfirm : ∀ t : Session, .toLink l fr ∉ (t.confirm body d).2 := by
    intro t hmem
    unfold confirm at hmem
    split at hmem
    · split at hmem
      · rw [List.mem_singleton] at hmem
        cases hmem
      · cases hmem
    · cases hmem
  have hfor : s.handlesFor body.role d = s.handlesByDeliveryID d := by
    rw [hrole]
    rfl
  simp only [dispositionRound, hle, if_true, dispositionBody, hfor]
  cases htr : s.handlesByDeliveryID d with
  | none => simp
  | some h =>
    simp only [List.mem_append, hconfirm, false_or, forward]
    cases hl : s.links h with
    | none => simp [hl]
    | some k => simp [hl, and_comm, eq_comm]

end Session

/-- **With handles that agree, dispositions reach the link that sent the delivery.** In every run in
    which each attach of the peer gives the link the handle it has on this side, while no delivery of
    another link is tracked under it, a round for the delivery `d` of a disposition of the receiver passes
    the frame on to no link but the one that has sent `d`, and to that one if `d` is tracked and the link
    still attached. -/
theorem disposition_reaches_sender {incomingWindow outgoingWindow handleMax : UInt32}
    {remoteBegin : PerformBegin} {trace : Trace MuxInput MuxEvent} {s s' : Session}
    {body : PerformDisposition} {d : UInt32} {events : List MuxEvent}
    (hrun : RunIf (Fires Session.step)
      (fun trace s l => Session.FromSender trace s l.1 ∧ Session.HandlesAgree trace s l.1)
      (.start incomingWindow outgoingWindow handleMax remoteBegin) trace s)
    (hphase : s.phase = .disposition body d) (hrole : body.role = Role.receiver) (hle : d ≤ body.end_)
    (hstep : s.step .round = some (s', events)) :
    (∀ l fr, .toLink l fr ∈ events → fr = .disposition body ∧ Session.sentBy d trace = some l) ∧
    (∀ l, Session.sentBy d trace = some l → s.handlesByDeliveryID d ≠ none →
      (∃ h, s.links h = some l) → .toLink l (.disposition body) ∈ events) := by
  have hinv : Session.RouteInv trace s :=
    hrun.invariant (.start incomingWindow outgoingWindow handleMax remoteBegin)
      (fun _ _ _ _ h hs hg => h.step hs hg.1 hg.2)
  have hevents : events = (s.dispositionRound body d).2 := by
    simp only [Session.step, hphase, Option.some.injEq] at hstep
    rw [hstep]
  rw [hevents]
  constructor
  · intro l fr hmem
    obtain ⟨hfr, h, htr, hl⟩ := (Session.toLink_mem_dispositionRound hrole hle).1 hmem
    obtain ⟨k, hsent, -, honly⟩ := hinv.tracked d h htr
    exact ⟨hfr, by rw [honly l hl]; exact hsent⟩
  · rintro l hsent htracked ⟨h, hl⟩
    obtain ⟨h', htr⟩ := Option.ne_none_iff_exists'.1 htracked
    obtain ⟨k, hk, hkh, -⟩ := hinv.tracked d h' htr
    obtain rfl : k = l := Option.some.inj (hk.symm.trans hsent)
    obtain rfl : h' = h := hkh.symm.trans (hinv.own h k hl).1
    exact (Session.toLink_mem_dispositionRound hrole hle).2 ⟨rfl, h', htr, hl⟩

namespace Session

/-- The attach of a receiving peer for the link with this name. -/
def attachFrame (name : String) (handle : UInt32) : PerformAttach :=
  { PerformAttach.zero with name := ascii name, role := Role.receiver, handle := handle }

/-- The only transfer of a message, from the link with this handle. -/
def firstTransfer (handle deliveryID : UInt32) : PerformTransfer :=
  { PerformTransfer.zero with handle := handle, deliveryID := some deliveryID }

/-- A disposition of the receiver for one delivery. -/
def settledFrame (deliveryID : UInt32) : PerformDisposition :=
  { PerformDisposition.zero with role := Role.receiver, first := deliveryID, settled := true }

def firstSession : Session := .start 100 100 10 { PerformBegin.zero with incomingWindow := 5, outgoingWindow := 5 }

end Session

open Session

theorem disposition_reaches_sender_one : ∃ trace s s' events,
    RunIf (Fires Session.step)
      (fun trace s l => FromSender trace s l.1 ∧ HandlesAgree trace s l.1) firstSession trace s ∧
    s.step .round = some (s', events) ∧ sentBy 1 trace = some 0 ∧
    .toLink 0 (.disposition (settledFrame 1)) ∈ events := by
  have hstart : RunIf (Fires Session.step)
      (fun trace s l => FromSender trace s l.1 ∧ HandlesAgree trace s l.1) firstSession [] firstSession :=
    .start
  have hlink := hstart.fire (.newLink ⟨ascii "a", Role.sender⟩ none) rfl
    ⟨fun _ _ h => (by cases h), fun _ _ h => (by cases h)⟩
  have hattach := hlink.fire (.rx (.attach (attachFrame "a" 0))) rfl ⟨fun _ _ h => (by cases h), by
    intro body l hbody hl
    cases hbody
    obtain rfl : 0 = l := Option.some.inj hl
    exact ⟨rfl, fun d hd => (by cases hd)⟩⟩
  have hsent := hattach.fire (.txTransfer 0 (firstTransfer 0 1)) rfl ⟨by
    intro l fr hfr
    cases hfr
    exact ⟨rfl, ⟨attachFrame "a" 0, List.mem_cons_self ..⟩, rfl⟩, fun _ _ h => (by cases h)⟩
  have hrx := hsent.fire (.rx (.disposition (settledFrame 1))) rfl
    ⟨fun _ _ h => (by cases h), fun _ _ h => (by cases h)⟩
  obtain ⟨-, hreached⟩ := disposition_reaches_sender hrx rfl rfl (by decide) rfl
  exact ⟨_, _, _, _, hrx, rfl, rfl, hreached 0 rfl (by intro h; cases h) ⟨0, rfl⟩⟩

/-- Two links, to which the peer has given each other's handles: the disposition for the delivery of the
    first is passed on to the second. -/
theorem disposition_reaches_other_link : ∃ trace s s' events,
    RunIf (Fires Session.step) (fun trace s l => FromSender trace s l.1) firstSession trace s ∧
    s.step .round = some (s', events) ∧ sentBy 1 trace = some 0 ∧
    .toLink 1 (.disposition (settledFrame 1)) ∈ events := by
  have hstart : RunIf (Fires Session.step) (fun trace s l => FromSender trace s l.1) firstSession []
      firstSession := .start
  have hfirst := hstart.fire (.newLink ⟨ascii "a", Role.sender⟩ none) rfl (fun _ _ h => (by cases h))
  have hsecond := hfirst.fire (.newLink ⟨ascii "b", Role.sender⟩ none) rfl (fun _ _ h => (by cases h))
  have hattach := hsecond.fire (.rx (.attach (attachFrame "a" 1))) rfl (fun _ _ h => (by cases h))
  have hattach' := hattach.fire (.rx (.attach (attachFrame "b" 0))) rfl (fun _ _ h => (by cases h))
  have hsent := hattach'.fire (.txTransfer 0 (firstTransfer 0 1)) rfl (by
    intro l fr hfr
    cases hfr
    exact ⟨rfl, ⟨attachFrame "a" 1, List.mem_cons_of_mem _ (List.mem_cons_self ..)⟩, rfl⟩)
  have hrx := hsent.fire (.rx (.disposition (settledFrame 1))) rfl (fun _ _ h => (by cases h))
  exact ⟨_, _, _, _, hrx, rfl, rfl, List.mem_cons_self ..⟩

end GoAmqp
