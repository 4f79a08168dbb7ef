import GoAmqp.Session.Dispositions

set_option autoImplicit false

/-! # The messages of a run

What the senders of a session do to it: each sender's transfers come in order, message by message, the
first of a message with a delivery-id and the last with a `Done` channel of its own. The history of a
run tells which message a transfer belongs to; the session keeps this for the links in
`deliveryIDByHandle`, and in `settlementByDeliveryID` for the `Done` channels. -/

namespace GoAmqp

open Lib

namespace Session

/-! ## History -/

/-- The delivery-id of the message that the link has begun and not finished. -/
def progress (l : LinkID) : Trace MuxInput MuxEvent → Option UInt32
  | [] => none
  | (.txTransfer k fr, _) :: trace =>
    if k = l then (if fr.more then fr.deliveryID.or (progress l trace) else none) else progress l trace
  | _ :: trace => progress l trace

/-- The delivery-id in the first transfer of the message that this transfer of the link belongs to. -/
def messageOf (trace : Trace MuxInput MuxEvent) (l : LinkID) (fr : PerformTransfer) : Option UInt32 :=
  fr.deliveryID.or (progress l trace)

/-- The delivery-id in the first transfer of the message with the `Done` channel `c`. -/
def owner (c : Nat) : Trace MuxInput MuxEvent → Option UInt32
  | [] => none
  | (.txTransfer l fr, _) :: trace => if fr.done = some c then messageOf trace l fr else owner c trace
  | _ :: trace => owner c trace

/-- The `Done` channel has been in no transfer so far. -/
def FreshDone (c : Nat) (trace : Trace MuxInput MuxEvent) : Prop :=
  ∀ l fr events, (MuxInput.txTransfer l fr, events) ∈ trace → fr.done ≠ some c

/-- A transfer as `Sender.send` makes it, handed over by the sender's mux. -/
structure SendsNext (trace : Trace MuxInput MuxEvent) (s : Session) (l : LinkID)
    (fr : PerformTransfer) : Prop where
  live : s.live l
  handle : fr.handle = (s.link l).handle
  first : fr.deliveryID.isSome = (progress l trace).isNone
  last : fr.more = true → fr.settled = false ∧ fr.done = none
  done : ∀ c, fr.done = some c → FreshDone c trace

/-- The transfers of a step are of this kind. -/
def FromSend (trace : Trace MuxInput MuxEvent) (s : Session) (i : MuxInput) : Prop :=
  ∀ l fr, i = .txTransfer l fr → SendsNext trace s l fr

/-- A step that is no transfer does not change what has been sent. -/
def transfer? : MuxInput → Option (LinkID × PerformTransfer)
  | .txTransfer l fr => some (l, fr)
  | _ => none

theorem progress_cons {l : MuxInput × List MuxEvent} (h : transfer? l.1 = none) (k : LinkID)
    (trace : Trace MuxInput MuxEvent) : progress k (l :: trace) = progress k trace := by
  obtain ⟨i, events⟩ := l
  cases i with
  | txTransfer k fr => cases h
  | _ => rfl

theorem owner_cons {l : MuxInput × List MuxEvent} (h : transfer? l.1 = none) (c : Nat)
    (trace : Trace MuxInput MuxEvent) : owner c (l :: trace) = owner c trace := by
  obtain ⟨i, events⟩ := l
  cases i with
  | txTransfer k fr => cases h
  | _ => rfl

/-- A channel with an owner is not fresh. -/
theorem owner_eq_none_of_fresh {c : Nat} {trace : Trace MuxInput MuxEvent} (h : FreshDone c trace) :
    owner c trace = none := by
  induction trace with
  | nil => rfl
  | cons l trace ih =>
    have hrest : FreshDone c trace := fun k fr events hmem => h k fr events (List.mem_cons_of_mem _ hmem)
    obtain ⟨i, events⟩ := l
    cases i with
    | txTransfer k fr =>
      have hne : fr.done ≠ some c := h k fr events (List.mem_cons_self ..)
      rw [owner, if_neg hne]
      exact ih hrest
    | _ => exact ih hrest

/-! ## Steps that are not about deliveries -/

/-- The maps of deliveries are the same, except that detached links are forgotten. -/
structure Calm (s s' : Session) : Prop where
  table : SameTable s s'
  phase : ∀ body k, s'.phase = .disposition body k → s.phase = .disposition body k
  settlement : s'.settlementByDeliveryID = s.settlementByDeliveryID
  tracked : s'.handlesByDeliveryID = s.handlesByDeliveryID
  known : ∀ h d, s'.deliveryIDByHandle h = some d → s.deliveryIDByHandle h = some d

variable (s : Session)

theorem Calm.refl : Calm s s := ⟨.refl s, fun _ _ h => h, rfl, rfl, fun _ _ h => h⟩

/-- The disposition a phase is in. -/
def MuxPhase.loop : MuxPhase → Option (PerformDisposition × UInt32)
  | .disposition body k => some (body, k)
  | _ => none

theorem calm_phase {phase : MuxPhase} (hphase : MuxPhase.loop phase = none) : Calm s { s with phase := phase } := by
  refine ⟨(keeps_phase s phase).table, fun body k hp => ?_, rfl, rfl, fun _ _ h => h⟩
  have hp' : phase = .disposition body k := hp
  rw [hp'] at hphase
  cases hphase

theorem calm_rxFlow (body : PerformFlow) : Calm s (s.rxFlow body).1 := by
  unfold rxFlow
  split
  · exact calm_phase s rfl
  · split <;> exact ⟨⟨rfl, rfl, rfl, fun _ => rfl, fun _ => rfl⟩, fun _ _ h => h, rfl, rfl, fun _ _ h => h⟩

theorem calm_rxAttach (body : PerformAttach) : Calm s (s.rxAttach body).1 := by
  have ht := sameTable_rxAttach s body
  unfold rxAttach at ht ⊢
  split
  · exact calm_phase s rfl
  · next l hl =>
    simp only [hl] at ht
    exact ⟨ht, fun _ _ h => h, rfl, rfl, fun _ _ h => h⟩

theorem calm_rxTransfer (body : PerformTransfer) : Calm s (s.rxTransfer body).1 := by
  rw [rxTransfer_eq]
  exact ⟨⟨rfl, rfl, rfl, fun _ => rfl, fun _ => rfl⟩, fun _ _ h => h, rfl, rfl, fun _ _ h => h⟩

theorem calm_rxDetach (body : PerformDetach) : Calm s (s.rxDetach body).1 := by
  unfold rxDetach
  split
  · exact .refl s
  · exact ⟨⟨rfl, rfl, rfl, fun _ => rfl, fun _ => rfl⟩, fun _ _ h => h, rfl, rfl,
      fun _ _ h => (update_none_eq_some h).2⟩

/-- The disposition a body is. -/
def disposition? : FrameBody → Option PerformDisposition
  | .disposition body => some body
  | _ => none

theorem calm_rx {body : FrameBody} (hbody : disposition? body = none) : Calm s (s.rx body).1 := by
  cases body with
  | disposition body => cases hbody
  | attach body => exact calm_rxAttach s body
  | flow body => exact calm_rxFlow s body
  | transfer body => exact calm_rxTransfer s body
  | detach body => exact calm_rxDetach s body
  | end_ body => exact calm_phase s rfl
  | _ => exact .refl s

theorem calm_rxClosing (body : FrameBody) : Calm s (s.rxClosing body).1 := by
  unfold rxClosing
  split
  · exact calm_phase s rfl
  · exact .refl s

theorem calm_tx (body : FrameBody) : Calm s (s.tx body).1 := by
  unfold tx
  split
  · exact .refl s
  · exact calm_phase s rfl
  · exact .refl s

theorem calm_setReceiverSettleMode (l : LinkID) (mode : ReceiverSettleMode) : Calm s { s with
    link := Function.update s.link l { s.link l with receiverSettleMode := some mode } } :=
  ⟨sameTable_setReceiverSettleMode s l mode, fun _ _ h => h, rfl, rfl, fun _ _ h => h⟩

/-- **The steps of a session, for its deliveries.** -/
inductive DeliveryStep (s : Session) : MuxInput → List MuxEvent → Session → Prop
  | calm (i : MuxInput) (events : List MuxEvent) (s' : Session) : transfer? i = none →
      (∀ body, i = .rx (.disposition body) → s.phase = .closing) → Calm s s' → DeliveryStep s i events s'
  | newLink (key : LinkKey) (mode : Option ReceiverSettleMode) :
      DeliveryStep s (.newLink key mode) [] (s.newLink key mode)
  | deallocateHandle (l : LinkID) : s.live l →
      DeliveryStep s (.deallocateHandle l) [] (s.deallocateHandle l)
  | disposition (body : PerformDisposition) : s.phase = .select →
      DeliveryStep s (.rx (.disposition body)) [] { s with phase := .disposition body body.first }
  | round (body : PerformDisposition) (d : UInt32) : s.phase = .disposition body d →
      DeliveryStep s .round (s.dispositionRound body d).2 (s.dispositionRound body d).1
  | transfer (l : LinkID) (fr : PerformTransfer) : s.phase = .select →
      DeliveryStep s (.txTransfer l fr) (s.txTransfer fr).2 (s.txTransfer fr).1

theorem deliveryStep {s s' : Session} {i : MuxInput} {events : List MuxEvent}
    (h : s.step i = some (s', events)) : DeliveryStep s i events s' := by
  cases step_cases h with
  | connDone => exact .calm _ _ _ rfl (fun _ heq => by cases heq) (calm_phase s rfl)
  | close => exact .calm _ _ _ rfl (fun _ heq => by cases heq) (calm_phase s rfl)
  | rx body hp =>
    cases hb : disposition? body with
    | none => exact .calm _ _ _ rfl (fun _ heq => by cases heq; cases hb) (calm_rx s hb)
    | some d =>
      cases body with
      | disposition body => exact .disposition body hp
      | _ => cases hb
  | rxClosing body hp => exact .calm _ _ _ rfl (fun _ _ => hp) (calm_rxClosing s body)
  | round body d hp => exact .round body d hp
  | txTransfer l fr hp => exact .transfer l fr hp
  | tx body => exact .calm _ _ _ rfl (fun _ heq => by cases heq) (calm_tx s body)
  | newLink key mode => exact .newLink key mode
  | setReceiverSettleMode l mode =>
    exact .calm _ _ _ rfl (fun _ heq => by cases heq) (calm_setReceiverSettleMode s l mode)
  | deallocateHandle l hl => exact .deallocateHandle l hl

/-- A new link changes no delivery. -/
theorem newLink_deliveries (key : LinkKey) (mode : Option ReceiverSettleMode) :
    (s.newLink key mode).phase = s.phase ∧
    (s.newLink key mode).settlementByDeliveryID = s.settlementByDeliveryID ∧
    (s.newLink key mode).handlesByDeliveryID = s.handlesByDeliveryID ∧
    (s.newLink key mode).deliveryIDByHandle = s.deliveryIDByHandle := by
  rw [newLink_eq]
  exact ⟨rfl, rfl, rfl, rfl⟩

end Session

end GoAmqp
