import GoAmqp.Session.Exchange
import GoAmqp.Session.Routing

set_option autoImplicit false

/-! # Senders keep to the limits of a peer that never lowers them

The invariant has two halves of the same shape. For the session, the transfers sent are covered by a
limit that is at most the first one on its way from the peer; for each link, the deliveries started are.
Both ends count, and the announcements between them only rise (`Rising`), so what is covered by the
limit a sender goes by is covered by the limit of the peer. -/

namespace GoAmqp

open Lib Function SenderMux Session List

variable {body : FrameBody} {x y : Exchange} {events : List MuxEvent} {s : Session} {rest : List FrameBody}
  {fr : PerformFlow} {l : LinkID} {count lo : Nat} {m : SenderMux} {tr : PerformTransfer}

namespace Exchange

/-! ## Frames in flight -/

def isTransfer : FrameBody → Bool
  | .transfer _ => true
  | _ => false

/-- The frame starts a delivery on the link with this handle. -/
def startsOn (h : UInt32) : FrameBody → Bool
  | .transfer tr => tr.handle == h && tr.deliveryID.isSome
  | _ => false

theorem startsOn_of_not_transfer {h : UInt32} (hbody : isTransfer body = false) : startsOn h body = false := by
  cases body with
  | transfer tr => cases hbody
  | _ => rfl

/-- The limit on transfers that a frame of the peer announces. -/
def AnnouncesWindow (body : FrameBody) (limit : Nat) : Prop :=
  noLimit body = true ∨ ∃ fr count, body = .flow fr ∧
    fr.nextIncomingID = some (UInt32.ofNat count) ∧ count + fr.incomingWindow.toNat = limit

/-- The limit on deliveries of a link that a frame of the peer announces. -/
def AnnouncesLimit (links : UInt32 → Option LinkID) (l : LinkID) (body : FrameBody) (limit : Nat) : Prop :=
  noLimit body = true ∨ ∃ fr, body = .flow fr ∧
    ∀ handle, fr.handle = some handle → links handle = some l → ∃ count credit,
      fr.deliveryCount = some (UInt32.ofNat count) ∧ fr.linkCredit = some credit ∧
      count + credit.toNat = limit

/-! ## The invariant -/

/-- The transfers sent. -/
def sent (x : Exchange) : Nat := x.peer.received + x.toPeer.countP isTransfer

/-- The deliveries started on the link with this handle. -/
def started (x : Exchange) (h : UInt32) : Nat := x.peer.started h + x.toPeer.countP (startsOn h)

/-- The session goes by the limit `lo`. -/
structure WindowInv (x : Exchange) (lo : Nat) : Prop where
  ledger : Ledger lo x.sent x.session.remoteIncomingWindow
  next : x.session.nextOutgoingID = UInt32.ofNat x.sent
  rising : Rising AnnouncesWindow lo x.fromPeer (x.peer.received + x.peer.window)

/-- The link has completed `count` deliveries and goes by the limit `lo`. -/
structure LinkInv (x : Exchange) (l : LinkID) (count lo : Nat) : Prop where
  started : x.started (x.handle l) = count + (x.unfinished l).toNat
  covered : count + (x.unfinished l).toNat ≤ lo
  running : (x.sender l).Running →
    Ledger lo count (x.sender l).availableCredit ∧ (x.sender l).deliveryCount = UInt32.ofNat count
  holding : ∀ tr, (x.sender l).phase = .holding tr →
    tr.handle = x.handle l ∧ tr.deliveryID.isSome = !x.unfinished l ∧ count < lo
  routed : ∀ fr, .flow fr ∈ x.rx l → ∃ handle, fr.handle = some handle ∧ x.session.links handle = some l
  rising : Rising (AnnouncesLimit x.session.links l) lo (x.rx l ++ x.fromPeer) (x.peer.limit (x.handle l))

/-- The window and the credit of each link are what the peer has announced, less what is under way. -/
structure Inv (x : Exchange) : Prop where
  distinct : ∀ l l', x.Attached l → x.Attached l' → x.handle l = x.handle l' → l = l'
  owned : ∀ tr, .transfer tr ∈ x.toPeer → ∃ l, x.Attached l ∧ x.handle l = tr.handle
  window : ∃ lo, WindowInv x lo
  link : ∀ l, x.Attached l → ∃ count lo, LinkInv x l count lo

theorem Initial.inv (h : x.Initial) : Inv x := by
  have hsent : x.sent = 0 := by simp [sent, h.received, h.toPeer]
  refine ⟨h.distinct, fun tr htr => ?_, ⟨x.session.remoteIncomingWindow.toNat, ?_, ?_, ?_⟩,
    fun l hl => ⟨0, 0, ?_, ?_, ?_, ?_, ?_, ?_⟩⟩
  · rw [h.toPeer] at htr; cases htr
  · rw [hsent]
    refine ⟨Nat.zero_le _, ?_⟩
    rw [UInt32.ofNat_toNat]
    exact (UInt32.sub_zero _).symm
  · rw [hsent]; exact h.nextOutgoingID
  · rw [h.fromPeer, h.received, h.window, Nat.zero_add]
    exact .nil (Nat.le_refl _)
  · simp [Exchange.started, h.started, h.toPeer, h.unfinished]
  · simp [h.unfinished]
  · intro _
    obtain ⟨mode, detach, hs⟩ := h.sender l hl
    rw [hs]
    exact ⟨⟨Nat.le_refl _, (UInt32.sub_self _).symm⟩, rfl⟩
  · intro tr hp
    obtain ⟨mode, detach, hs⟩ := h.sender l hl
    rw [hs] at hp
    cases hp
  · intro fr hfr
    rw [h.rx] at hfr
    cases hfr
  · rw [h.rx, h.fromPeer]
    exact .nil (Nat.zero_le _)

/-! ## Steps of the session that do not concern flow control -/

/-- An event that announces no limit to a link and sends no transfer. -/
def Idle : MuxEvent → Prop
  | .toLink _ body => noLimit body = true
  | .txFrame body _ => isTransfer body = false
  | .settle _ _ => True

theorem idle_nil : ∀ e ∈ ([] : List MuxEvent), Idle e := fun _ he => absurd he not_mem_nil

/-- The frames between the two ends are the same up to such as do not count. -/
theorem Inv.emit {e : MuxEvent} (h : Inv x) (he : Idle e) : Inv (x.emit e) := by
  cases e with
  | settle done state => exact h
  | txFrame body done =>
    have hb : isTransfer body = false := he
    have hsent : (x.emit (.txFrame body done)).sent = x.sent := by
      simp [sent, Exchange.emit, hb]
    have hstarted : ∀ k, (x.emit (.txFrame body done)).started k = x.started k := by
      intro k
      simp [started, Exchange.emit, startsOn_of_not_transfer hb]
    refine ⟨h.distinct, fun tr htr => ?_, ?_, fun l hl => ?_⟩
    · rcases mem_append.1 htr with htr | htr
      · exact h.owned tr htr
      · rw [mem_singleton] at htr
        subst htr
        cases hb
    · obtain ⟨lo, hledger, hnext, hrising⟩ := h.window
      exact ⟨lo, by rw [hsent]; exact hledger, by rw [hsent]; exact hnext, hrising⟩
    · obtain ⟨count, lo, hlink⟩ := h.link l hl
      exact ⟨count, lo, by rw [hstarted]; exact hlink.started, hlink.covered, hlink.running,
        hlink.holding, hlink.routed, hlink.rising⟩
  | toLink k body =>
    have hb : noLimit body = true := he
    obtain ⟨low, hledger, hnext, hwindow⟩ := h.window
    refine ⟨h.distinct, h.owned, ⟨low, hledger, hnext, hwindow⟩, fun l hl => ?_⟩
    obtain ⟨count, lo, hlink⟩ := h.link l hl
    refine ⟨count, lo, hlink.started, hlink.covered, hlink.running, hlink.holding, ?_, ?_⟩
    · intro fr hfr
      by_cases hlk : l = k
      · subst hlk
        rw [show (x.emit (.toLink l body)).rx l = x.rx l ++ [body] from update_self ..] at hfr
        rcases mem_append.1 hfr with hfr | hfr
        · exact hlink.routed fr hfr
        · rw [mem_singleton] at hfr
          subst hfr
          cases hb
      · rw [show (x.emit (.toLink k body)).rx l = x.rx l from update_of_ne hlk ..] at hfr
        exact hlink.routed fr hfr
    · by_cases hlk : l = k
      · subst hlk
        rw [show (x.emit (.toLink l body)).rx l = x.rx l ++ [body] from update_self .., append_assoc]
        exact hlink.rising.insert fun _ => .inl hb
      · rw [show (x.emit (.toLink k body)).rx l = x.rx l from update_of_ne hlk ..]
        exact hlink.rising

theorem Inv.emitAll (h : Inv x) (he : ∀ e ∈ events, Idle e) : Inv (x.emitAll events) := by
  induction events generalizing x with
  | nil => exact h
  | cons e events ih =>
    exact ih (h.emit (he e (mem_cons_self ..))) fun e' he' => he e' (mem_cons_of_mem _ he')

/-- A step of the session that leaves the window and the links as they are. -/
structure Quiet (s s' : Session) (events : List MuxEvent) : Prop extends KeepsWindow s s' where
  links : s'.links = s.links
  handle : ∀ l, (s'.link l).handle = (s.link l).handle
  events : ∀ e ∈ events, Idle e

/-- Such a step of the session keeps the invariant. -/
theorem Inv.quiet (h : Inv x) (hq : Quiet x.session s events) :
    Inv (Exchange.emitAll { x with session := s } events) := by
  refine Inv.emitAll ?_ hq.events
  have hattached : ∀ l, Attached { x with session := s } l ↔ x.Attached l := by
    intro l
    simp only [Attached, hq.links]
  have hhandle : ∀ l, handle { x with session := s } l = x.handle l := hq.handle
  refine ⟨fun l l' hl hl' => ?_, fun tr htr => ?_, ?_, fun l hl => ?_⟩
  · rw [hhandle, hhandle]
    exact h.distinct l l' ((hattached l).1 hl) ((hattached l').1 hl')
  · obtain ⟨l, hl, hlh⟩ := h.owned tr htr
    exact ⟨l, (hattached l).2 hl, by rw [hhandle]; exact hlh⟩
  · obtain ⟨lo, hledger, hnext, hrising⟩ := h.window
    exact ⟨lo, by rw [← hq.remoteIncomingWindow] at hledger; exact hledger,
      by rw [← hq.nextOutgoingID] at hnext; exact hnext, hrising⟩
  · obtain ⟨count, lo, hlink⟩ := h.link l ((hattached l).1 hl)
    refine ⟨count, lo, ?_, hlink.covered, hlink.running, ?_, ?_, ?_⟩
    · rw [hhandle]; exact hlink.started
    · intro tr hp
      rw [hhandle]
      exact hlink.holding tr hp
    · intro fr hfr
      obtain ⟨handle, hfh, hroute⟩ := hlink.routed fr hfr
      exact ⟨handle, hfh, by rw [← hq.links] at hroute; exact hroute⟩
    · rw [hhandle]
      have hrising := hlink.rising
      rw [← hq.links] at hrising
      exact hrising

/-- A frame of the peer is lost. -/
theorem Inv.pop (h : Inv x) (hq : x.fromPeer = body :: rest) : Inv { x with fromPeer := rest } := by
  refine ⟨h.distinct, h.owned, ?_, fun l hl => ?_⟩
  · obtain ⟨lo, hledger, hnext, hrising⟩ := h.window
    rw [hq] at hrising
    exact ⟨lo, hledger, hnext, hrising.tail⟩
  · obtain ⟨count, lo, hlink⟩ := h.link l hl
    have hrising := hlink.rising
    rw [hq] at hrising
    exact ⟨count, lo, hlink.started, hlink.covered, hlink.running, hlink.holding, hlink.routed, hrising.drop⟩

theorem forward_idle {handle : UInt32} (hb : noLimit body = true) : ∀ e ∈ s.forward handle body, Idle e := by
  intro e he
  unfold forward at he
  split at he
  · rw [mem_singleton] at he
    subst he
    exact hb
  · cases he

theorem quiet_phase (s : Session) (phase : MuxPhase) (hevents : ∀ e ∈ events, Idle e) :
    Quiet s { s with phase := phase } events :=
  ⟨⟨rfl, rfl⟩, rfl, fun _ => rfl, hevents⟩

theorem idle_dispositionRound (s : Session) (body : PerformDisposition) (deliveryID : UInt32) :
    ∀ e ∈ (s.dispositionRound body deliveryID).2, Idle e := by
  have hconfirm : ∀ t : Session, ∀ e ∈ (t.confirm body deliveryID).2, Idle e := by
    intro t
    unfold confirm
    split
    · split
      · exact forall_mem_singleton.2 trivial
      · exact idle_nil
    · exact idle_nil
  unfold dispositionRound dispositionBody
  split
  · split
    · exact idle_nil
    · exact forall_mem_append.2 ⟨hconfirm _, forward_idle rfl⟩
  · exact idle_nil

theorem quiet_dispositionRound (s : Session) (body : PerformDisposition) (deliveryID : UInt32) :
    Quiet s (s.dispositionRound body deliveryID).1 (s.dispositionRound body deliveryID).2 := by
  have hevents := idle_dispositionRound s body deliveryID
  rw [dispositionRound_eq]
  exact ⟨⟨rfl, rfl⟩, rfl, fun _ => rfl, hevents⟩

theorem idle_rxTransfer (s : Session) (body : PerformTransfer) : ∀ e ∈ (s.rxTransfer body).2, Idle e := by
  unfold rxTransfer updateWindow
  split
  · exact idle_nil
  · refine forall_mem_cons.2 ⟨rfl, ?_⟩
    split
    · exact forall_mem_singleton.2 rfl
    · exact idle_nil

theorem quiet_rxTransfer (s : Session) (body : PerformTransfer) :
    Quiet s (s.rxTransfer body).1 (s.rxTransfer body).2 := by
  have hevents := idle_rxTransfer s body
  rw [rxTransfer_eq]
  exact ⟨⟨rfl, rfl⟩, rfl, fun _ => rfl, hevents⟩

theorem quiet_rxClosing (s : Session) (body : FrameBody) : Quiet s (s.rxClosing body).1 (s.rxClosing body).2 := by
  unfold Session.rxClosing
  split
  · exact quiet_phase s _ idle_nil
  · exact ⟨⟨rfl, rfl⟩, rfl, fun _ => rfl, idle_nil⟩

theorem quiet_tx (s : Session) (body : FrameBody) : Quiet s (s.tx body).1 (s.tx body).2 := by
  cases body with
  | transfer tr => exact quiet_phase s .panicked idle_nil
  | _ =>
    refine ⟨⟨rfl, rfl⟩, rfl, fun _ => rfl, fun e he => ?_⟩
    have he := mem_singleton.1 he
    subst he
    rfl

/-- Every step the session takes on its own is one of these. -/
theorem quiet_ownStep {s' : Session} {i : MuxInput} (hi : ownStep i = true)
    (h : s.step i = some (s', events)) : Quiet s s' events := by
  cases Session.step_cases h with
  | connDone => exact quiet_phase s _ idle_nil
  | close =>
    refine quiet_phase s _ fun e he => ?_
    rw [mem_singleton] at he
    subst he
    rfl
  | round body deliveryID => exact quiet_dispositionRound s body deliveryID
  | tx body => exact quiet_tx s body
  | setReceiverSettleMode l mode =>
    refine ⟨⟨rfl, rfl⟩, rfl, fun k => ?_, idle_nil⟩
    by_cases hk : k = l
    · subst hk
      simp only [update_self]
    · simp only [update_of_ne hk]
  | rx body => cases hi
  | rxClosing body => cases hi
  | txTransfer l fr => cases hi
  | newLink key mode => cases hi
  | deallocateHandle l => cases hi

/-! ## A flow frame reaches the session -/

/-- The session takes a flow frame; the frame goes to no link, or to the one it is for. -/
theorem Inv.updateRemote {nextIncomingID : UInt32}
    (h : Inv x) (rx : LinkID → List FrameBody) (hq : x.fromPeer = .flow fr :: rest)
    (hnext : fr.nextIncomingID = some nextIncomingID)
    (hrx : ∀ l, rx l = x.rx l ∨ (rx l = x.rx l ++ [.flow fr] ∧
      ∃ handle, fr.handle = some handle ∧ x.session.links handle = some l)) :
    Inv { x with session := x.session.updateRemote fr nextIncomingID, fromPeer := rest, rx := rx } := by
  refine ⟨h.distinct, h.owned, ?_, fun l hl => ?_⟩
  · obtain ⟨lo, hledger, hsent, hrising⟩ := h.window
    rw [hq] at hrising
    cases hrising with
    | @cons _ mid _ _ _ hannounce hle hrest =>
      rcases hannounce with hno | ⟨fr', count, hfr, hcount, hmid⟩
      · cases hno
      · obtain rfl : fr = fr' := FrameBody.flow.inj hfr
        obtain rfl : nextIncomingID = UInt32.ofNat count := Option.some.inj (hnext.symm.trans hcount)
        have hledger' : Ledger mid x.sent
            (fr.incomingWindow - x.session.nextOutgoingID + UInt32.ofNat count) := by
          rw [hsent, ← hmid]
          exact .of_announced (by rw [hmid]; exact Nat.le_trans hledger.le hle)
        exact ⟨mid, hledger', hsent, hrest⟩
  · obtain ⟨count, lo, hlink⟩ := h.link l hl
    have hrising := hlink.rising
    rw [hq] at hrising
    rcases hrx l with hsame | ⟨hadded, hroute⟩
    · refine ⟨count, lo, hlink.started, hlink.covered, hlink.running, hlink.holding, ?_, ?_⟩
      · intro fr' hfr'
        rw [show ({ x with session := _, fromPeer := rest, rx := rx } : Exchange).rx l = rx l from rfl, hsame] at hfr'
        exact hlink.routed fr' hfr'
      · show Rising _ lo (rx l ++ rest) _
        rw [hsame]
        exact hrising.drop
    · refine ⟨count, lo, hlink.started, hlink.covered, hlink.running, hlink.holding, ?_, ?_⟩
      · intro fr' hfr'
        rw [show ({ x with session := _, fromPeer := rest, rx := rx } : Exchange).rx l = rx l from rfl,
          hadded] at hfr'
        rcases mem_append.1 hfr' with hfr' | hfr'
        · exact hlink.routed fr' hfr'
        · rw [mem_singleton, FrameBody.flow.injEq] at hfr'
          subst hfr'
          exact hroute
      · show Rising _ lo (rx l ++ rest) _
        rw [hadded, append_assoc]
        exact hrising

theorem Inv.rxFlow (h : Inv x) (hq : x.fromPeer = .flow fr :: rest) :
    Inv (Exchange.emitAll { x with session := (x.session.rxFlow fr).1, fromPeer := rest }
      (x.session.rxFlow fr).2) := by
  -- the frames of this peer have the field
  have hset : ∃ n, fr.nextIncomingID = some n := by
    obtain ⟨lo, -, -, hrising⟩ := h.window
    rw [hq] at hrising
    cases hrising with
    | cons hannounce _ _ =>
      rcases hannounce with hno | ⟨fr', count, hfr, hcount, -⟩
      · cases hno
      · obtain rfl : fr = fr' := FrameBody.flow.inj hfr
        exact ⟨_, hcount⟩
  obtain ⟨n, hn⟩ := hset
  have hdropped := h.updateRemote x.rx hq hn fun _ => .inl rfl
  unfold Session.rxFlow
  rw [hn]
  cases hh : fr.handle with
  | none =>
    dsimp only
    split
    · exact hdropped.emit (e := .txFrame _ none) rfl
    · exact hdropped
  | some handle =>
    dsimp only [forward]
    cases hl : x.session.links handle with
    | none => exact hdropped
    | some l =>
      refine h.updateRemote _ hq hn fun k => ?_
      by_cases hk : k = l
      · subst hk
        exact .inr ⟨update_self .., handle, hh, hl⟩
      · exact .inl (update_of_ne hk ..)

/-- A frame of the peer reaches the session. -/
theorem Inv.sessionRx (h : Inv x) (hq : x.fromPeer = body :: rest)
    (hstep : x.session.step (.rx body) = some (s, events)) :
    Inv (Exchange.emitAll { x with session := s, fromPeer := rest } events) := by
  have hpopped := h.pop hq
  cases Session.step_cases hstep with
  | rxClosing _ hp => exact hpopped.quiet (quiet_rxClosing x.session body)
  | rx _ hp =>
    have hkind : noLimit body = true ∨ ∃ fr, body = .flow fr := by
      obtain ⟨lo, -, -, hrising⟩ := h.window
      rw [hq] at hrising
      cases hrising with
      | cons hannounce _ _ =>
        rcases hannounce with hno | ⟨fr, _, hfr, _, _⟩
        · exact .inl hno
        · exact .inr ⟨fr, hfr⟩
    rcases hkind with hno | ⟨fr, rfl⟩
    · cases body with
      | disposition d => exact hpopped.quiet (quiet_phase x.session _ idle_nil)
      | transfer tr => exact hpopped.quiet (quiet_rxTransfer x.session tr)
      | _ => cases hno
    · exact h.rxFlow hq

/-! ## Steps of the senders -/

/-- The invariant of the other links does not depend on one link's own state. -/
theorem LinkInv.other (h : LinkInv x l count lo) (hlinks : y.session.links = x.session.links)
    (hhandle : y.handle l = x.handle l) (hstarted : y.started (x.handle l) = x.started (x.handle l))
    (hsender : y.sender l = x.sender l) (hunfinished : y.unfinished l = x.unfinished l)
    (hrx : y.rx l = x.rx l) (hfrom : y.fromPeer = x.fromPeer)
    (hlimit : y.peer.limit (x.handle l) = x.peer.limit (x.handle l)) : LinkInv y l count lo := by
  refine ⟨?_, ?_, ?_, ?_, ?_, ?_⟩
  · rw [hhandle, hstarted, hunfinished]; exact h.started
  · rw [hunfinished]; exact h.covered
  · rw [hsender]; exact h.running
  · rw [hsender, hhandle, hunfinished]; exact h.holding
  · rw [hrx, hlinks]; exact h.routed
  · rw [hrx, hlinks, hfrom, hhandle, hlimit]; exact h.rising

/-- A step of one sender that only concerns its own link. -/
theorem Inv.senderStep (h : Inv x)
    (hlink : ∀ count lo, LinkInv x l count lo → LinkInv { x with sender := update x.sender l m } l count lo) :
    Inv { x with sender := update x.sender l m } := by
  obtain ⟨low, hledger, hnext, hwindow⟩ := h.window
  refine ⟨h.distinct, h.owned, ⟨low, hledger, hnext, hwindow⟩, fun k hk => ?_⟩
  obtain ⟨count, lo, hk'⟩ := h.link k hk
  by_cases hkl : k = l
  · subst hkl
    exact ⟨count, lo, hlink count lo hk'⟩
  · exact ⟨count, lo, hk'.other rfl rfl rfl (update_of_ne hkl ..) rfl rfl rfl rfl⟩

/-- A mux that has ended keeps its side of the invariant, whatever its counters are. -/
theorem LinkInv.ended (h : LinkInv x l count lo) (hend : ¬ m.Running) :
    LinkInv { x with sender := update x.sender l m } l count lo := by
  have hupdate : (update x.sender l m) l = m := update_self ..
  refine ⟨h.started, h.covered, fun hrun => ?_, fun tr hp => ?_, h.routed, h.rising⟩
  · simp only [hupdate] at hrun
    exact absurd hrun hend
  · simp only [hupdate] at hp
    exact absurd (.inr ⟨tr, hp⟩) hend

theorem Inv.senderTake {events : List SenderEvent} (h : Inv x) (hhandle : tr.handle = x.handle l)
    (hfirst : tr.deliveryID.isSome = !x.unfinished l) (hstep : (x.sender l).step (.transfer tr) = some (m, events)) :
    Inv { x with sender := update x.sender l m } := by
  refine h.senderStep fun count lo hlink => ?_
  have hupdate : (update x.sender l m) l = m := update_self ..
  rcases step_cases hstep with heffect | hend
  · cases heffect with
    | taken _ hp hcredit =>
      obtain ⟨hledger, hcount⟩ := hlink.running (.inl hp)
      refine ⟨hlink.started, hlink.covered, fun _ => ?_, fun tr' hp' => ?_, hlink.routed, hlink.rising⟩
      · simp only [hupdate]
        exact ⟨hledger, hcount⟩
      · simp only [hupdate, SenderPhase.holding.injEq] at hp'
        subst hp'
        exact ⟨hhandle, hfirst, hledger.lt_of_ne_zero hcredit⟩
  · exact hlink.ended hend

theorem Inv.senderStop {i : SenderInput} {events : List SenderEvent} (h : Inv x) (hi : i = .close ∨ i = .sessionDone)
    (hstep : (x.sender l).step i = some (m, events)) : Inv { x with sender := update x.sender l m } := by
  refine h.senderStep fun count lo hlink => hlink.ended ?_
  rcases step_cases hstep with heffect | hend
  · rcases hi with rfl | rfl <;> cases heffect
  · exact hend

/-- The frames a sender answers with are no transfers. -/
theorem framesOf_rx {m' : SenderMux} {events : List SenderEvent}
    (hstep : m.step (.rx body) = some (m', events)) : ∀ b ∈ framesOf events, isTransfer b = false := by
  have hevents : events = (m.muxHandleFrame body).2 := by
    cases hp : m.phase <;> simp only [SenderMux.step, hp, Option.some.injEq, reduceCtorEq] at hstep
    all_goals rw [hstep]
  rw [hevents]
  have hdisp : ∀ d, ∀ b ∈ framesOf (answerDisposition d), isTransfer b = false := by
    intro d b hb
    unfold answerDisposition at hb
    split at hb
    · cases hb
    · rw [framesOf, framesOf, mem_singleton] at hb
      subst hb
      rfl
  intro b hb
  cases body with
  | flow fr =>
    simp only [muxHandleFrame, handleFlow] at hb
    split at hb
    · cases hb
    · dsimp only at hb
      split at hb
      · rw [framesOf, framesOf, mem_singleton] at hb
        subst hb
        rfl
      · cases hb
  | disposition d =>
    simp only [muxHandleFrame, handleDisposition] at hb
    split at hb
    · split at hb
      · cases hb
      · exact hdisp d b hb
    · exact hdisp d b hb
  | _ => cases hb

theorem Inv.answer {frames : List FrameBody} (h : Inv x) (hframes : ∀ b ∈ frames, isTransfer b = false) :
    Inv { x with toPeer := x.toPeer ++ frames } := by
  induction frames generalizing x with
  | nil => rw [List.append_nil]; exact h
  | cons b frames ih =>
    have hb : Inv (x.emit (.txFrame b none)) := h.emit (hframes b (mem_cons_self ..))
    have hrest := ih hb fun b' hb' => hframes b' (mem_cons_of_mem _ hb')
    rw [show x.toPeer ++ b :: frames = (x.toPeer ++ [b]) ++ frames by simp]
    exact hrest

theorem LinkInv.senderRx {events : List SenderEvent} (h : LinkInv x l count lo)
    (hrx : x.rx l = body :: rest) (hstep : (x.sender l).step (.rx body) = some (m, events)) :
    ∃ lo', LinkInv { x with
      rx := update x.rx l rest
      sender := update x.sender l m } l count lo' := by
  have hupdate : (update x.sender l m) l = m := update_self ..
  have hupdate' : (update x.rx l rest) l = rest := update_self ..
  have hrouted : ∀ fr, .flow fr ∈ rest → ∃ handle, fr.handle = some handle ∧
      x.session.links handle = some l := by
    intro fr hfr
    exact h.routed fr (by rw [hrx]; exact mem_cons_of_mem _ hfr)
  have hrising := h.rising
  rw [hrx, cons_append] at hrising
  -- unless the frame is a flow, the link keeps going by the same limit
  have hpopped : LinkInv { x with rx := update x.rx l rest } l count lo := by
    refine ⟨h.started, h.covered, h.running, h.holding, ?_, ?_⟩
    · simp only [hupdate']
      exact hrouted
    · simp only [hupdate']
      exact hrising.tail
  rcases step_cases hstep with heffect | hend
  · cases heffect with
    | kept _ _ hrun hbody =>
      refine ⟨lo, ?_⟩
      rw [show update x.sender l (x.sender l) = x.sender from update_eq_self ..]
      exact hpopped
    | credit fr credit _ hrun hcredit =>
      cases hrising with
      | @cons _ mid _ _ _ hannounce hle hrest =>
        rcases hannounce with hno | ⟨fr', hfr, hlimit⟩
        · cases hno
        · obtain rfl : fr = fr' := FrameBody.flow.inj hfr
          obtain ⟨handle, hhandle, hroute⟩ := h.routed fr (by rw [hrx]; exact mem_cons_self ..)
          obtain ⟨k, credit', hk, hcredit', hmid⟩ := hlimit handle hhandle hroute
          obtain rfl : credit = credit' := Option.some.inj (hcredit.symm.trans hcredit')
          obtain ⟨hledger, hcount⟩ := h.running hrun
          have hledger' : Ledger mid count ((x.sender l).creditOf credit fr.deliveryCount) := by
            rw [hk, creditOf, hcount, ← hmid]
            exact .of_announced (by rw [hmid]; exact Nat.le_trans hledger.le hle)
          refine ⟨mid, h.started, Nat.le_trans h.covered hle, fun _ => ?_, fun tr hp => ?_, ?_, ?_⟩
          · simp only [hupdate]
            exact ⟨hledger', hcount⟩
          · simp only [hupdate] at hp
            obtain ⟨htr, hfirst, hlt⟩ := h.holding tr hp
            exact ⟨htr, hfirst, Nat.lt_of_lt_of_le hlt hle⟩
          · simp only [hupdate']
            exact hrouted
          · simp only [hupdate']
            exact hrest
  · exact ⟨lo, hpopped.ended hend⟩

theorem Inv.senderRx {events : List SenderEvent} (h : Inv x) (hrx : x.rx l = body :: rest)
    (hstep : (x.sender l).step (.rx body) = some (m, events)) :
    Inv { x with
      rx := update x.rx l rest
      sender := update x.sender l m
      toPeer := x.toPeer ++ framesOf events } := by
  have hown : Inv { x with
      rx := update x.rx l rest
      sender := update x.sender l m } := by
    obtain ⟨low, hledger, hnext, hwindow⟩ := h.window
    refine ⟨h.distinct, h.owned, ⟨low, hledger, hnext, hwindow⟩, fun k hk => ?_⟩
    obtain ⟨count, lo, hk'⟩ := h.link k hk
    by_cases hkl : k = l
    · subst hkl
      obtain ⟨lo', hlink⟩ := hk'.senderRx hrx hstep
      exact ⟨count, lo', hlink⟩
    · exact ⟨count, lo, hk'.other rfl rfl rfl (update_of_ne hkl ..) rfl
        (update_of_ne hkl ..) rfl rfl⟩
  exact hown.answer (framesOf_rx hstep)

/-! ## A transfer passes to the session -/

/-- What the session puts on the wire for a transfer. -/
theorem awaitSettlement_transfer (s : Session) (fr : PerformTransfer) (deliveryID : UInt32) :
    (s.awaitSettlement fr deliveryID).2.handle = fr.handle ∧
    (s.awaitSettlement fr deliveryID).2.deliveryID = fr.deliveryID := by
  unfold awaitSettlement
  split
  · exact ⟨rfl, rfl⟩
  · split <;> exact ⟨rfl, rfl⟩

/-- The counts after a transfer of the link `l` has been sent. -/
theorem started_append (hpeer : y.peer = x.peer) (hto : y.toPeer = x.toPeer ++ [.transfer tr]) (h : UInt32) :
    y.started h = x.started h + (if tr.handle = h then tr.deliveryID.isSome.toNat else 0) := by
  simp only [started, hpeer, hto, countP_append, countP_singleton, startsOn, ← Nat.add_assoc]
  by_cases hh : tr.handle = h
  · rcases Bool.eq_false_or_eq_true tr.deliveryID.isSome with hd | hd <;> simp [hh, hd]
  · simp [hh]

theorem LinkInv.handOver {tr' : PerformTransfer} (h : LinkInv x l count lo)
    (hstep : (x.sender l).step .handOver = some (m, [.txTransfer tr])) (hlinks : y.session.links = x.session.links)
    (hhandle : y.handle l = x.handle l) (hpeer : y.peer = x.peer) (hto : y.toPeer = x.toPeer ++ [.transfer tr'])
    (htr : tr'.handle = tr.handle ∧ tr'.deliveryID = tr.deliveryID) (hsender : y.sender l = m)
    (hunfinished : y.unfinished l = tr.more) (hrx : y.rx l = x.rx l) (hfrom : y.fromPeer = x.fromPeer) :
    ∃ count', LinkInv y l count' lo := by
  obtain ⟨_, hp, hm, ⟨⟩⟩ := step_handOver hstep
  obtain ⟨hledger, hcount⟩ := h.running (.inr ⟨tr, hp⟩)
  obtain ⟨htrh, hfirst, hlt⟩ := h.holding tr hp
  have hstarted : y.started (y.handle l) = count + 1 := by
    have hold := h.started
    rw [hhandle, started_append hpeer hto, htr.1, htr.2, htrh, if_pos rfl, hold, hfirst]
    cases x.unfinished l <;> rfl
  have hrouted : ∀ fr, .flow fr ∈ y.rx l → ∃ handle, fr.handle = some handle ∧
      y.session.links handle = some l := by
    rw [hrx, hlinks]
    exact h.routed
  have hrising : Rising (AnnouncesLimit y.session.links l) lo (y.rx l ++ y.fromPeer)
      (y.peer.limit (y.handle l)) := by
    rw [hrx, hlinks, hfrom, hpeer, hhandle]
    exact h.rising
  have hwaiting : ∀ t, m.phase ≠ .holding t := by
    intro t ht
    rw [hm, handedOver] at ht
    split at ht <;> cases ht
  cases hmore : tr.more with
  | true =>
    refine ⟨count, ?_, ?_, fun _ => ?_, fun t ht => ?_, hrouted, hrising⟩
    · rw [hstarted, hunfinished, hmore]; rfl
    · rw [hunfinished, hmore]; exact hlt
    · rw [hsender, hm, handedOver, if_pos hmore]
      exact ⟨hledger, hcount⟩
    · rw [hsender] at ht
      exact absurd ht (hwaiting t)
  | false =>
    refine ⟨count + 1, ?_, ?_, fun _ => ?_, fun t ht => ?_, hrouted, hrising⟩
    · rw [hstarted, hunfinished, hmore]; rfl
    · rw [hunfinished, hmore]; exact hlt
    · rw [hsender, hm, handedOver, if_neg (by rw [hmore]; exact Bool.false_ne_true)]
      exact ⟨hledger.spend hlt, by rw [ofNat_succ, ← hcount]⟩
    · rw [hsender] at ht
      exact absurd ht (hwaiting t)

theorem Inv.handOver (h : Inv x) (hl : x.Attached l)
    (hstep : (x.sender l).step .handOver = some (m, [.txTransfer tr]))
    (htx : x.session.step (.txTransfer l tr) = some (s, events)) :
    Inv (Exchange.emitAll { x with
      session := s
      sender := update x.sender l m
      unfinished := update x.unfinished l tr.more } events) := by
  cases Session.step_cases htx with
  | txTransfer _ _ hphase henabled =>
    have hroutes := routes_txTransfer x.session tr
    have hlinks : (x.session.txTransfer tr).1.links = x.session.links := congrArg Routes.links hroutes
    have hlink : (x.session.txTransfer tr).1.link = x.session.link := congrArg Routes.link hroutes
    obtain ⟨tr', hevents, htr⟩ : ∃ tr', (x.session.txTransfer tr).2 = [.txFrame (.transfer tr') tr'.done] ∧
        tr'.handle = tr.handle ∧ tr'.deliveryID = tr.deliveryID :=
      ⟨_, rfl, awaitSettlement_transfer ..⟩
    rw [hevents]
    have hheld : tr.handle = x.handle l := by
      obtain ⟨count, lo, hinv⟩ := h.link l hl
      obtain ⟨_, hp, -, ⟨⟩⟩ := step_handOver hstep
      exact (hinv.holding tr hp).1
    have hne : x.session.remoteIncomingWindow ≠ 0 := by
      intro hz
      simp [txEnabled, hz] at henabled
    have hhandles : ∀ k, ((x.session.txTransfer tr).1.link k).handle = x.handle k := by
      intro k
      rw [hlink]
      rfl
    refine ⟨fun k k' hk hk' => ?_, fun t ht => ?_, ?_, fun k hk => ?_⟩
    · obtain ⟨rh, hk⟩ := hk
      obtain ⟨rh', hk'⟩ := hk'
      intro heq
      exact h.distinct k k' ⟨rh, by rw [← hlinks]; exact hk⟩ ⟨rh', by rw [← hlinks]; exact hk'⟩
        ((hhandles k).symm.trans (heq.trans (hhandles k')))
    · rcases mem_append.1 ht with ht | ht
      · obtain ⟨k, ⟨rh, hk⟩, hkh⟩ := h.owned t ht
        exact ⟨k, ⟨rh, by rw [← hlinks] at hk; exact hk⟩, (hhandles k).trans hkh⟩
      · rw [mem_singleton, FrameBody.transfer.injEq] at ht
        subst ht
        obtain ⟨rh, hk⟩ := hl
        exact ⟨l, ⟨rh, by rw [← hlinks] at hk; exact hk⟩, (hhandles l).trans (hheld.symm.trans htr.1.symm)⟩
    · obtain ⟨lo, hledger, hnext, hrising⟩ := h.window
      have hspent := hledger.spend (hledger.lt_of_ne_zero hne)
      have hsent : sent (Exchange.emitAll { x with
          session := (x.session.txTransfer tr).1
          sender := update x.sender l m
          unfinished := update x.unfinished l tr.more } [.txFrame (.transfer tr') tr'.done]) =
          x.sent + 1 := by
        simp [sent, Exchange.emitAll, Exchange.emit, isTransfer, ← Nat.add_assoc]
      refine ⟨lo, ?_, ?_, hrising⟩
      · rw [hsent]
        have hwindow : (x.session.txTransfer tr).1.remoteIncomingWindow =
            x.session.remoteIncomingWindow - 1 := if_pos hne
        exact hwindow ▸ hspent
      · rw [hsent, ofNat_succ, ← hnext]
        rfl
    · obtain ⟨rh, hk⟩ := hk
      have hk' : x.Attached k := ⟨rh, by rw [← hlinks]; exact hk⟩
      obtain ⟨count, lo, hinv⟩ := h.link k hk'
      by_cases hkl : k = l
      · subst hkl
        exact exists_comm.1 ⟨lo, hinv.handOver hstep hlinks (hhandles k) rfl rfl htr
          (update_self ..) (update_self ..) rfl rfl⟩
      · -- the transfer carries another handle
        have hother : tr'.handle ≠ x.handle k := by
          intro heq
          exact hkl (h.distinct k l hk' hl (heq.symm.trans (htr.1.trans hheld)))
        have hstarted : ∀ y : Exchange, y.peer = x.peer → y.toPeer = x.toPeer ++ [.transfer tr'] →
            y.started (x.handle k) = x.started (x.handle k) := by
          intro y hpeer hto
          rw [started_append hpeer hto, if_neg hother, Nat.add_zero]
        exact ⟨count, lo, hinv.other hlinks (hhandles k) (hstarted _ rfl rfl)
          (update_of_ne hkl ..) (update_of_ne hkl ..) rfl rfl rfl⟩

/-! ## Steps of the peer -/

theorem Inv.peerSend (h : Inv x) (hbody : noLimit body = true) : Inv { x with fromPeer := x.fromPeer ++ [body] } := by
  refine ⟨h.distinct, h.owned, ?_, fun l hl => ?_⟩
  · obtain ⟨lo, hledger, hnext, hrising⟩ := h.window
    exact ⟨lo, hledger, hnext, hrising.snoc (.inl hbody) (Nat.le_refl _)⟩
  · obtain ⟨count, lo, hlink⟩ := h.link l hl
    refine ⟨count, lo, hlink.started, hlink.covered, hlink.running, hlink.holding, hlink.routed, ?_⟩
    show Rising _ lo (x.rx l ++ (x.fromPeer ++ [body])) _
    rw [← append_assoc]
    exact hlink.rising.snoc (.inl hbody) (Nat.le_refl _)

/-- The peer sends a flow frame and raises its window; for each link the frame says nothing or the limit
    the peer now has. -/
theorem Inv.peerFlow {limit : UInt32 → Nat} (h : Inv x)
    (hnext : fr.nextIncomingID = some (UInt32.ofNat x.peer.received))
    (hwindow : x.peer.window ≤ fr.incomingWindow.toNat)
    (hlimit : ∀ l, x.Attached l → x.peer.limit (x.handle l) ≤ limit (x.handle l) ∧
      AnnouncesLimit x.session.links l (.flow fr) (limit (x.handle l))) :
    Inv { x with
      fromPeer := x.fromPeer ++ [.flow fr]
      peer := { x.peer with window := fr.incomingWindow.toNat, limit := limit } } := by
  refine ⟨h.distinct, h.owned, ?_, fun l hl => ?_⟩
  · obtain ⟨lo, hledger, hsent, hrising⟩ := h.window
    exact ⟨lo, hledger, hsent, hrising.snoc (.inr ⟨fr, _, rfl, hnext, rfl⟩)
      (Nat.add_le_add_left hwindow _)⟩
  · obtain ⟨count, lo, hlink⟩ := h.link l hl
    obtain ⟨hle, hannounce⟩ := hlimit l hl
    refine ⟨count, lo, hlink.started, hlink.covered, hlink.running, hlink.holding, hlink.routed, ?_⟩
    show Rising _ lo (x.rx l ++ (x.fromPeer ++ [.flow fr])) _
    rw [← append_assoc]
    exact hlink.rising.snoc hannounce hle

theorem Inv.peerLinkFlow {remoteHandle : UInt32} {credit : UInt32} (h : Inv x)
    (hnext : fr.nextIncomingID = some (UInt32.ofNat x.peer.received))
    (hwindow : x.peer.window ≤ fr.incomingWindow.toNat) (hhandle : fr.handle = some remoteHandle)
    (hlink : x.session.links remoteHandle = some l) (hcount : fr.deliveryCount = some (UInt32.ofNat count))
    (hcredit : fr.linkCredit = some credit) (hle : x.peer.limit (x.handle l) ≤ count + credit.toNat) :
    Inv { x with
      fromPeer := x.fromPeer ++ [.flow fr]
      peer := { x.peer with
        window := fr.incomingWindow.toNat
        limit := update x.peer.limit (x.handle l) (count + credit.toNat) } } := by
  refine h.peerFlow hnext hwindow fun k hk => ?_
  by_cases hkl : k = l
  · subst hkl
    rw [update_self]
    exact ⟨hle, .inr ⟨fr, rfl, fun _ _ _ => ⟨count, credit, hcount, hcredit, rfl⟩⟩⟩
  · have hne : x.handle k ≠ x.handle l := fun heq => hkl (h.distinct k l hk ⟨remoteHandle, hlink⟩ heq)
    rw [update_of_ne hne]
    refine ⟨Nat.le_refl _, .inr ⟨fr, rfl, fun handle hfr hroute => ?_⟩⟩
    -- the frame is for the link `l`, not for `k`
    obtain rfl : handle = remoteHandle := Option.some.inj (hfr.symm.trans hhandle)
    exact absurd (Option.some.inj (hroute.symm.trans hlink)) hkl

/-- The next transfer to arrive is within the window. -/
theorem Inv.window_pos (h : Inv x) (hq : x.toPeer = .transfer tr :: rest) : 0 < x.peer.window := by
  obtain ⟨lo, hledger, -, hrising⟩ := h.window
  have hle := Nat.le_trans hledger.le hrising.le
  have hsent : x.sent = x.peer.received + (rest.countP isTransfer + 1) := by
    simp [sent, hq, countP_cons, isTransfer]
  omega

/-- A transfer that starts a delivery is within the limit of its link. -/
theorem Inv.started_lt_limit (h : Inv x) (hq : x.toPeer = .transfer tr :: rest)
    (hfirst : tr.deliveryID.isSome = true) : x.peer.started tr.handle < x.peer.limit tr.handle := by
  obtain ⟨l, hl, hlh⟩ := h.owned tr (by rw [hq]; exact mem_cons_self ..)
  obtain ⟨count, lo, hlink⟩ := h.link l hl
  have hle := Nat.le_trans hlink.covered hlink.rising.le
  have hstarted := hlink.started
  rw [hlh] at hle hstarted
  have hcount : x.started tr.handle =
      x.peer.started tr.handle + (rest.countP (startsOn tr.handle) + 1) := by
    simp [started, hq, startsOn, hfirst]
  omega

theorem Inv.peerReceive (h : Inv x) (hq : x.toPeer = body :: rest) :
    Inv { x with toPeer := rest, peer := x.peer.receive body } := by
  have hsent : sent { x with toPeer := rest, peer := x.peer.receive body } = x.sent := by
    cases body with
    | transfer tr => simp [sent, hq, Peer.receive, countP_cons, isTransfer]; omega
    | _ => simp [sent, hq, Peer.receive, isTransfer]
  have hstarted : ∀ k, started { x with toPeer := rest, peer := x.peer.receive body } k = x.started k := by
    intro k
    cases body with
    | transfer tr =>
      by_cases hk : tr.handle = k
      · subst hk
        rcases Bool.eq_false_or_eq_true tr.deliveryID.isSome with hd | hd
        · simp [started, hq, Peer.receive, startsOn, hd]; omega
        · simp [started, hq, Peer.receive, startsOn, hd]
      · rcases Bool.eq_false_or_eq_true tr.deliveryID.isSome with hd | hd
        · simp [started, hq, Peer.receive, startsOn, hd, hk, update_of_ne (Ne.symm hk)]
        · simp [started, hq, Peer.receive, startsOn, hd]
    | _ => simp [started, hq, Peer.receive, startsOn]
  have hlimit : (x.peer.receive body).limit = x.peer.limit := by
    cases body <;> rfl
  have hedge : (x.peer.receive body).received + (x.peer.receive body).window =
      x.peer.received + x.peer.window := by
    cases body with
    | transfer tr =>
      have hpos := h.window_pos hq
      show x.peer.received + 1 + (x.peer.window - 1) = _
      omega
    | _ => rfl
  refine ⟨h.distinct, fun tr htr => h.owned tr (by rw [hq]; exact mem_cons_of_mem _ htr), ?_,
    fun l hl => ?_⟩
  · obtain ⟨lo, hledger, hnext, hrising⟩ := h.window
    exact ⟨lo, by rw [hsent]; exact hledger, by rw [hsent]; exact hnext, by rw [← hedge] at hrising; exact hrising⟩
  · obtain ⟨count, lo, hlink⟩ := h.link l hl
    exact ⟨count, lo, hlink.other rfl rfl (hstarted _) rfl rfl rfl rfl (by simp only [hlimit])⟩

/-! ## Runs -/

theorem Inv.step (h : Inv x) (hstep : Step x y) : Inv y := by
  cases hstep with
  | peerFlow fr hnext hwindow hhandle =>
    refine h.peerFlow hnext hwindow fun l _ => ⟨Nat.le_refl _, .inr ⟨fr, rfl, fun handle hfr => ?_⟩⟩
    rw [hhandle] at hfr
    cases hfr
  | peerLinkFlow fr l remoteHandle count credit hnext hwindow hhandle hlink hcount hcredit hle =>
    exact h.peerLinkFlow hnext hwindow hhandle hlink hcount hcredit hle
  | peerSend body hbody => exact h.peerSend hbody
  | peerReceive body rest hq => exact h.peerReceive hq
  | sessionRx body rest s events hq hs => exact h.sessionRx hq hs
  | sessionOwn i s events hi hs => exact h.quiet (quiet_ownStep hi hs)
  | senderTake l tr m events hl hhandle hfirst hs => exact h.senderTake hhandle hfirst hs
  | handOver l tr m s events hl hs htx => exact h.handOver hl hs htx
  | senderRx l body rest m events hrx hs => exact h.senderRx hrx hs
  | senderStop l i m events hi hs => exact h.senderStop hi hs

theorem Inv.run (h : Inv x) (hrun : Relation.ReflTransGen Step x y) : Inv y := by
  induction hrun with
  | refl => exact h
  | tail _ hstep ih => exact ih.step hstep

end Exchange

/-- **Senders keep to the limits of a peer that never lowers them.** In every state that the session, its
    senders and the peer can reach, the next frame to arrive at the peer finds an open window if it is a
    transfer, and a link with a delivery left if it starts one. -/
theorem senders_keep_to_limits {x y : Exchange} (hinit : x.Initial)
    (hrun : Relation.ReflTransGen Exchange.Step x y) {tr : PerformTransfer} {rest : List FrameBody}
    (hnext : y.toPeer = .transfer tr :: rest) :
    y.peer.window ≠ 0 ∧
    (tr.deliveryID.isSome → y.peer.started tr.handle < y.peer.limit tr.handle) := by
  have hinv : y.Inv := hinit.inv.run hrun
  exact ⟨Nat.pos_iff_ne_zero.1 (hinv.window_pos hnext), fun hfirst => hinv.started_lt_limit hnext hfirst⟩

namespace Exchange

/-- One sender with the name "a", to which the peer has given the handle seven. -/
def oneLink : Exchange where
  session := ((withWindowFive.newLink ⟨ascii "a", Role.sender⟩ none).rxAttach
    { PerformAttach.zero with name := ascii "a", role := Role.receiver, handle := 7 }).1
  sender := fun _ => .start 0 none true
  rx := fun _ => []
  unfinished := fun _ => false
  toPeer := []
  fromPeer := []
  peer := ⟨0, 5, fun _ => 0, fun _ => 0⟩

/-- A credit of one for that sender. -/
def oneCredit : PerformFlow := { PerformFlow.zero with
  nextIncomingID := some 0
  incomingWindow := 5
  handle := some 7
  deliveryCount := some 0
  linkCredit := some 1 }

theorem oneLink_links : oneLink.session.links = update (fun _ => none) 7 (some 0) := rfl

theorem oneLink_initial : oneLink.Initial := by
  have hzero : ∀ l, oneLink.Attached l → l = 0 := by
    rintro l ⟨handle, hl⟩
    rw [oneLink_links] at hl
    by_cases hh : handle = 7
    · rw [hh, update_self] at hl
      exact (Option.some.inj hl).symm
    · rw [update_of_ne hh] at hl
      cases hl
  refine ⟨fun l l' hl hl' _ => (hzero l hl).trans (hzero l' hl').symm, rfl, rfl, rfl,
    fun l hl => ⟨none, true, ?_⟩, fun _ => rfl, fun _ => rfl, rfl, rfl, fun _ => rfl, fun _ => rfl⟩
  rw [hzero l hl]
  rfl

end Exchange

theorem senders_keep_to_limits_one : ∃ y tr, Relation.ReflTransGen Exchange.Step Exchange.oneLink y ∧
    y.toPeer = [.transfer tr] ∧ y.peer.window ≠ 0 ∧
    y.peer.started tr.handle < y.peer.limit tr.handle := by
  have hlink : Exchange.oneLink.session.links 7 = some 0 := rfl
  have hflow := Relation.ReflTransGen.single (Exchange.Step.peerLinkFlow (x := Exchange.oneLink)
    Exchange.oneCredit 0 7 0 1 rfl (by decide) rfl hlink rfl rfl (by decide))
  have hrx := hflow.tail (.sessionRx _ _ _ _ rfl rfl)
  have hcredit := hrx.tail (.senderRx 0 _ _ _ _ rfl rfl)
  have htaken := hcredit.tail (.senderTake 0 { PerformTransfer.zero with deliveryID := some 1 } _ _
    ⟨7, rfl⟩ rfl rfl rfl)
  have hsent := htaken.tail (.handOver 0 _ _ _ _ ⟨7, rfl⟩ rfl rfl)
  obtain ⟨hwindow, hlimit⟩ := senders_keep_to_limits Exchange.oneLink_initial hsent rfl
  exact ⟨_, _, hsent, rfl, hwindow, hlimit rfl⟩

end GoAmqp
