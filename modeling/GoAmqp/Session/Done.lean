import GoAmqp.Session.Settlement

set_option autoImplicit false

/-! # `Done` channels

Two goroutines close `Done` channels. The mux takes the channel out of an unsettled transfer and closes
it when the transfer is settled; the channel of any other frame goes with the frame to the connection's
writer, which closes it when the frame has been written. Closing a channel twice is a panic.

`Outbound` is a session together with the writer. `DoneInv` says that a channel is in one place at most:
in `settlementByDeliveryID`, in a frame on its way to the writer, or among those already closed. -/

namespace GoAmqp

open Lib Function List

/-- A session and the frames it has handed to `connWriter`, in order, while that runs. -/
structure Outbound where
  session : Session
  txFrame : List (FrameBody × Option Nat)
  writing : Bool

/-- A step of the mux, a frame that the writer takes and writes or fails to write, or the end of the
    writer. -/
inductive OutboundInput where
  | mux (i : MuxInput)
  | write (ok : Bool)
  | rxtxExit

/-- An event of the mux, or of `connWriter`. -/
inductive OutboundEvent where
  | mux (event : MuxEvent)
  /-- `close(fr.Done)` -/
  | close (done : Nat)

variable {o o' : Outbound} {i : MuxInput} {events : List MuxEvent} {c : Nat}

namespace MuxEvent

/-- The frame that an event hands to the writer. -/
def handed : MuxEvent → Option (FrameBody × Option Nat)
  | .txFrame body done => some (body, done)
  | _ => none

/-- The channel that an event closes. -/
def closed : MuxEvent → Option Nat
  | .settle done _ => some done
  | _ => none

end MuxEvent

namespace OutboundEvent

def closed : OutboundEvent → Option Nat
  | .mux event => event.closed
  | .close done => some done

def ofMux : OutboundEvent → Option MuxEvent
  | .mux event => some event
  | .close _ => none

end OutboundEvent

namespace Outbound

def start (s : Session) : Outbound := ⟨s, [], true⟩

/-- One step of the mux or of `connWriter`. -/
def step (o : Outbound) : OutboundInput → Option (Outbound × List OutboundEvent)
  | .mux i =>
    match o.session.step i with
    | some (s, events) =>
      some ({ o with session := s, txFrame := o.txFrame ++ events.filterMap MuxEvent.handed }, events.map .mux)
    | none => none
  | .write ok =>
    match o.writing, o.txFrame with
    | true, (_, done) :: txFrame =>
      if ok then some ({ o with txFrame := txFrame }, done.toList.map .close)
      else some ({ o with txFrame := txFrame, writing := false }, [])
    | _, _ => none
  | .rxtxExit => if o.writing then some ({ o with writing := false }, []) else none

/-- The channels closed in a run, latest first. -/
def closings (trace : Trace OutboundInput OutboundEvent) : List Nat :=
  trace.flatMap fun l => l.2.filterMap OutboundEvent.closed

/-- The steps of the mux in a run. -/
def muxTrace : Trace OutboundInput OutboundEvent → Trace MuxInput MuxEvent
  | [] => []
  | (.mux i, events) :: trace => (i, events.filterMap OutboundEvent.ofMux) :: muxTrace trace
  | _ :: trace => muxTrace trace

/-- The channels on their way to the writer. -/
def queued (o : Outbound) : List Nat := o.txFrame.filterMap Prod.snd

/-- The transfers of a step come from senders. -/
def FromSenders (trace : Trace OutboundInput OutboundEvent) (o : Outbound) (i : OutboundInput) :
    Prop :=
  ∀ j, i = .mux j → Session.FromSend (muxTrace trace) o.session j

/-- The dispositions of a step are bounded, and its transfers come from links that have not been detached
    since the first transfer of the message. -/
def Orderly (o : Outbound) (i : OutboundInput) : Prop :=
  ∀ j, i = .mux j → Session.InRange j ∧ Session.StillKnown o.session j

/-! ## Steps -/

/-- What a step is, by its input. -/
inductive StepOf (o : Outbound) : OutboundInput → List OutboundEvent → Outbound → Prop
  | mux (i : MuxInput) (s : Session) (events : List MuxEvent) : o.session.step i = some (s, events) →
      StepOf o (.mux i) (events.map .mux)
        { o with session := s, txFrame := o.txFrame ++ events.filterMap MuxEvent.handed }
  | written (body : FrameBody) (done : Option Nat) (txFrame : List (FrameBody × Option Nat)) :
      o.txFrame = (body, done) :: txFrame →
      StepOf o (.write true) (done.toList.map .close) { o with txFrame := txFrame }
  | failed (body : FrameBody) (done : Option Nat) (txFrame : List (FrameBody × Option Nat)) :
      o.txFrame = (body, done) :: txFrame →
      StepOf o (.write false) [] { o with txFrame := txFrame, writing := false }
  | rxtxExit : StepOf o .rxtxExit [] { o with writing := false }

theorem step_cases {i : OutboundInput} {events : List OutboundEvent} (h : o.step i = some (o', events)) :
    StepOf o i events o' := by
  cases i with
  | mux i =>
    simp only [step] at h
    split at h
    · next s events hstep =>
      cases h
      exact .mux i s events hstep
    · cases h
  | write ok =>
    cases hw : o.writing with
    | false => simp only [step, hw, reduceCtorEq] at h
    | true =>
      cases hq : o.txFrame with
      | nil => simp only [step, hw, hq, reduceCtorEq] at h
      | cons fr txFrame =>
        obtain ⟨body, done⟩ := fr
        cases ok <;> simp only [step, hw, hq, if_true, Bool.false_eq_true, if_false, Option.some.injEq,
          Prod.mk.injEq] at h <;> obtain ⟨rfl, rfl⟩ := h
        · exact .failed body done txFrame hq
        · have hstep := StepOf.written body done txFrame hq
          rwa [hw] at hstep
  | rxtxExit =>
    simp only [step] at h
    split at h
    · cases h
      exact .rxtxExit
    · cases h

theorem filterMap_ofMux (events : List MuxEvent) :
    (events.map OutboundEvent.mux).filterMap OutboundEvent.ofMux = events := by
  rw [filterMap_map]
  exact filterMap_some

theorem filterMap_closed (events : List MuxEvent) :
    (events.map OutboundEvent.mux).filterMap OutboundEvent.closed = events.filterMap MuxEvent.closed := by
  rw [filterMap_map]
  rfl

/-- **The mux does not see the writer.** A run of both is a run of the mux. -/
theorem run_session {s₀ : Session} {trace : Trace OutboundInput OutboundEvent}
    {G : Trace MuxInput MuxEvent → Session → MuxInput → Prop}
    (h : RunIf (Fires Outbound.step) (fun trace o l => ∀ j, l.1 = .mux j → G (muxTrace trace) o.session j)
      (start s₀) trace o) :
    RunIf (Fires Session.step) (fun trace s l => G trace s l.1) s₀ (muxTrace trace) o.session := by
  induction h with
  | start => exact .start
  | step _ hstep hguard ih =>
    next l _ =>
    obtain ⟨i, events⟩ := l
    cases step_cases hstep with
    | mux i s events hmux =>
      rw [muxTrace, filterMap_ofMux]
      exact ih.fire i hmux (hguard i rfl)
    | written body done txFrame => exact ih
    | failed body done txFrame => exact ih
    | rxtxExit => exact ih

end Outbound

/-! ## What a step of the mux does with channels -/

namespace Session

/-- The channels of the frames that events hand to the writer. -/
def donesOf (events : List MuxEvent) : List Nat := (events.filterMap MuxEvent.handed).filterMap Prod.snd

/-- The events neither close a channel nor hand one to the writer. -/
def Silent (events : List MuxEvent) : Prop := events.filterMap MuxEvent.closed = [] ∧ donesOf events = []

theorem silent_nil : Silent [] := ⟨rfl, rfl⟩

theorem silent_txFrame (body : FrameBody) : Silent [.txFrame body none] := ⟨rfl, rfl⟩

variable (s : Session)

theorem silent_forward (h : UInt32) (body : FrameBody) : Silent (s.forward h body) := by
  unfold forward
  split <;> exact ⟨rfl, rfl⟩

theorem silent_rxFlow (body : PerformFlow) : Silent (s.rxFlow body).2 := by
  unfold rxFlow
  split
  · exact silent_txFrame _
  · split
    · exact silent_forward ..
    · dsimp only
      split
      · exact silent_txFrame _
      · exact silent_nil

theorem silent_rxAttach (body : PerformAttach) : Silent (s.rxAttach body).2 := by
  unfold rxAttach
  split <;> exact ⟨rfl, rfl⟩

theorem silent_rxTransfer (body : PerformTransfer) : Silent (s.rxTransfer body).2 := by
  unfold rxTransfer updateWindow
  split
  · exact silent_nil
  · dsimp only
    split <;> exact ⟨rfl, rfl⟩

theorem silent_rxDetach (body : PerformDetach) : Silent (s.rxDetach body).2 := by
  unfold rxDetach
  split <;> exact ⟨rfl, rfl⟩

theorem silent_rx (body : FrameBody) : Silent (s.rx body).2 := by
  cases body with
  | attach body => exact silent_rxAttach s body
  | flow body => exact silent_rxFlow s body
  | transfer body => exact silent_rxTransfer s body
  | detach body => exact silent_rxDetach s body
  | end_ body => exact silent_txFrame _
  | _ => exact silent_nil

theorem silent_tx (body : FrameBody) : Silent (s.tx body).2 := by
  unfold tx
  split
  · exact silent_txFrame _
  · exact silent_nil
  · exact silent_txFrame _

theorem silent_rxClosing (body : FrameBody) : Silent (s.rxClosing body).2 := by
  unfold rxClosing
  split <;> exact silent_nil

/-- **The steps of a session, for its channels.** A channel comes in with a transfer; it is kept for the
    delivery or goes on with the frame; the mux closes only a channel that it has kept. -/
inductive DoneStep (s : Session) (i : MuxInput) (events : List MuxEvent) (s' : Session) : Prop
  | silent : Silent events → s'.settlementByDeliveryID = s.settlementByDeliveryID → DoneStep s i events s'
  | settle (d : UInt32) (c : Nat) : s.settlementByDeliveryID d = some c →
      s'.settlementByDeliveryID = update s.settlementByDeliveryID d none →
      events.filterMap MuxEvent.closed = [c] → donesOf events = [] → DoneStep s i events s'
  | keep (l : LinkID) (fr : PerformTransfer) (d : UInt32) (c : Nat) : i = .txTransfer l fr →
      fr.done = some c →
      s'.settlementByDeliveryID = update s.settlementByDeliveryID d (some c) →
      Silent events → DoneStep s i events s'
  | hand (l : LinkID) (fr : PerformTransfer) (c : Nat) : i = .txTransfer l fr → fr.done = some c →
      s'.settlementByDeliveryID = s.settlementByDeliveryID →
      events.filterMap MuxEvent.closed = [] → donesOf events = [c] → DoneStep s i events s'

theorem doneStep_dispositionRound (body : PerformDisposition) (d : UInt32) :
    DoneStep s .round (s.dispositionRound body d).2 (s.dispositionRound body d).1 := by
  unfold dispositionRound
  split
  · unfold dispositionBody
    split
    · exact .silent silent_nil rfl
    · next h _ =>
      have hdelete : (s.deleteHandle body.role d).settlementByDeliveryID = s.settlementByDeliveryID := by
        unfold deleteHandle
        split <;> rfl
      obtain ⟨hclosed, hdones⟩ := silent_forward s h (.disposition body)
      unfold confirm
      dsimp only
      split
      · split
        · next c hc =>
          refine .settle d c (hdelete ▸ hc) (by dsimp only; rw [hdelete]) ?_ ?_
          · rw [singleton_append, filterMap_cons, hclosed]
            rfl
          · exact hdones
        · exact .silent ⟨hclosed, hdones⟩ hdelete
      · exact .silent ⟨hclosed, hdones⟩ hdelete
  · exact .silent silent_nil rfl

theorem doneStep_txTransfer (l : LinkID) (fr : PerformTransfer) :
    DoneStep s (.txTransfer l fr) (s.txTransfer fr).2 (s.txTransfer fr).1 := by
  have hsettlement := txTransfer_settlement s fr
  cases hdone : fr.done with
  | none =>
    have hevents : Silent (s.txTransfer fr).2 := by
      simp only [txTransfer, awaitSettlement, hdone, ite_self]
      exact silent_txFrame _
    exact .silent hevents (by simpa only [hdone, ite_self] using hsettlement)
  | some c =>
    cases hset : fr.settled with
    | false =>
      simp only [hset, hdone, Bool.false_eq_true, if_false] at hsettlement
      refine .keep l fr (s.deliveryIDOf fr) c rfl hdone hsettlement ?_
      simp only [txTransfer, awaitSettlement, hset, hdone, Bool.false_eq_true, if_false]
      exact silent_txFrame _
    | true =>
      simp only [hset, if_true] at hsettlement
      refine .hand l fr c rfl hdone hsettlement ?_ ?_ <;>
        simp only [txTransfer, awaitSettlement, hset, if_true, hdone] <;> rfl

theorem doneStep {s s' : Session} (h : s.step i = some (s', events)) : DoneStep s i events s' := by
  cases step_cases h with
  | connDone => exact .silent silent_nil rfl
  | close => exact .silent (silent_txFrame _) rfl
  | rx body =>
    refine .silent (silent_rx s body) ?_
    cases hb : disposition? body with
    | none => exact (calm_rx s hb).settlement
    | some d =>
      cases body with
      | disposition body => rfl
      | _ => cases hb
  | rxClosing body => exact .silent (silent_rxClosing s body) (calm_rxClosing s body).settlement
  | round body d => exact doneStep_dispositionRound s body d
  | txTransfer l fr => exact doneStep_txTransfer s l fr
  | tx body => exact .silent (silent_tx s body) (calm_tx s body).settlement
  | newLink key mode => exact .silent silent_nil (newLink_deliveries s key mode).2.1
  | setReceiverSettleMode l mode => exact .silent silent_nil rfl
  | deallocateHandle l => exact .silent silent_nil rfl

end Session

/-! ## A channel is in one place -/

namespace Outbound

open Session

/-- The channel has been in a transfer. -/
def Used (c : Nat) (trace : Trace MuxInput MuxEvent) : Prop :=
  ∃ l fr events, (MuxInput.txTransfer l fr, events) ∈ trace ∧ fr.done = some c

theorem Used.cons {trace : Trace MuxInput MuxEvent} (h : Used c trace)
    (l : MuxInput × List MuxEvent) : Used c (l :: trace) := by
  obtain ⟨k, fr, events, hmem, hdone⟩ := h
  exact ⟨k, fr, events, mem_cons_of_mem _ hmem, hdone⟩

theorem Used.not_fresh {trace : Trace MuxInput MuxEvent} (h : Used c trace) : ¬ FreshDone c trace := by
  obtain ⟨k, fr, events, hmem, hdone⟩ := h
  exact fun hfresh => hfresh k fr events hmem hdone

/-- A channel is closed, queued for the writer or kept by the mux, once and in one of these places. -/
structure DoneInv (spent : List Nat) (settlement : UInt32 → Option Nat)
    (trace : Trace MuxInput MuxEvent) : Prop where
  once : spent.Nodup
  used : ∀ c ∈ spent, Used c trace
  kept_used : ∀ d c, settlement d = some c → Used c trace
  kept_unspent : ∀ d c, settlement d = some c → c ∉ spent
  kept_once : ∀ d d' c, settlement d = some c → settlement d' = some c → d = d'

variable {spent : List Nat} {settlement : UInt32 → Option Nat} {trace : Trace MuxInput MuxEvent}

theorem DoneInv.nil : DoneInv [] (fun _ => none) [] := by
  constructor
  · exact nodup_nil
  · intro c hc
    cases hc
  all_goals intros; contradiction

/-- Channels may move among those spent, or be dropped. -/
theorem DoneInv.subperm {spent' : List Nat} (h : DoneInv spent settlement trace)
    (hsub : spent'.Subperm spent) : DoneInv spent' settlement trace := by
  obtain ⟨mid, hperm, hsublist⟩ := hsub
  constructor
  · exact hperm.nodup_iff.1 (h.once.sublist hsublist)
  · exact fun c hc => h.used c (hsublist.subset (hperm.mem_iff.2 hc))
  · exact h.kept_used
  · exact fun d c hd hc => h.kept_unspent d c hd (hsublist.subset (hperm.mem_iff.2 hc))
  · exact h.kept_once

theorem DoneInv.cons (h : DoneInv spent settlement trace) (l : MuxInput × List MuxEvent) :
    DoneInv spent settlement (l :: trace) := by
  constructor
  · exact h.once
  · exact fun c hc => (h.used c hc).cons l
  · exact fun d c hd => (h.kept_used d c hd).cons l
  · exact h.kept_unspent
  · exact h.kept_once

/-- The mux closes a channel it has kept. -/
theorem DoneInv.settle {d : UInt32} (h : DoneInv spent settlement trace) (hd : settlement d = some c) :
    DoneInv (c :: spent) (update settlement d none) trace := by
  constructor
  · exact nodup_cons.2 ⟨h.kept_unspent d c hd, h.once⟩
  · intro c' hc'
    rcases mem_cons.1 hc' with rfl | hc'
    · exact h.kept_used d c' hd
    · exact h.used c' hc'
  · intro d' c' hd'
    exact h.kept_used d' c' (update_none_eq_some hd').2
  · intro d' c' hd' hmem
    obtain ⟨hne, hold⟩ := update_none_eq_some hd'
    rcases mem_cons.1 hmem with rfl | hmem
    · exact hne (h.kept_once d' d c' hold hd)
    · exact h.kept_unspent d' c' hold hmem
  · intro d₁ d₂ c' h₁ h₂
    exact h.kept_once d₁ d₂ c' (update_none_eq_some h₁).2 (update_none_eq_some h₂).2

/-- The mux keeps the channel of a transfer. -/
theorem DoneInv.keep {l : LinkID} {fr : PerformTransfer} {d : UInt32} (h : DoneInv spent settlement trace)
    (hdone : fr.done = some c) (hfresh : FreshDone c trace) :
    DoneInv spent (update settlement d (some c)) ((.txTransfer l fr, events) :: trace) := by
  have hused : Used c ((.txTransfer l fr, events) :: trace) := ⟨l, fr, events, mem_cons_self .., hdone⟩
  have hwas : ∀ d' c', update settlement d (some c) d' = some c' →
      (d' = d ∧ c' = c) ∨ settlement d' = some c' := by
    intro d' c' hd'
    by_cases heq : d' = d
    · subst heq
      rw [update_self, Option.some.injEq] at hd'
      exact .inl ⟨rfl, hd'.symm⟩
    · rw [update_of_ne heq] at hd'
      exact .inr hd'
  have hnew : ∀ d', settlement d' ≠ some c := fun d' hd' => (h.kept_used d' c hd').not_fresh hfresh
  constructor
  · exact h.once
  · exact fun c' hc' => (h.used c' hc').cons _
  · intro d' c' hd'
    rcases hwas d' c' hd' with ⟨-, rfl⟩ | hold
    · exact hused
    · exact (h.kept_used d' c' hold).cons _
  · intro d' c' hd' hmem
    rcases hwas d' c' hd' with ⟨-, rfl⟩ | hold
    · exact (h.used c' hmem).not_fresh hfresh
    · exact h.kept_unspent d' c' hold hmem
  · intro d₁ d₂ c' h₁ h₂
    rcases hwas d₁ c' h₁ with ⟨rfl, rfl⟩ | hold₁ <;> rcases hwas d₂ _ h₂ with ⟨rfl, heq⟩ | hold₂
    · rfl
    · exact absurd hold₂ (hnew d₂)
    · rw [heq] at hold₁
      exact absurd hold₁ (hnew d₁)
    · exact h.kept_once d₁ d₂ c' hold₁ hold₂

/-- The channel of a transfer goes on to the writer. -/
theorem DoneInv.hand {l : LinkID} {fr : PerformTransfer} (h : DoneInv spent settlement trace)
    (hdone : fr.done = some c) (hfresh : FreshDone c trace) :
    DoneInv (spent ++ [c]) settlement ((.txTransfer l fr, events) :: trace) := by
  have hnot : c ∉ spent := fun hmem => (h.used c hmem).not_fresh hfresh
  constructor
  · exact nodup_append'.2 ⟨h.once, nodup_singleton c, disjoint_singleton.2 hnot⟩
  · intro c' hc'
    rcases mem_append.1 hc' with hc' | hc'
    · exact (h.used c' hc').cons _
    · rw [mem_singleton] at hc'
      subst hc'
      exact ⟨l, fr, events, mem_cons_self .., hdone⟩
  · exact fun d c' hd => (h.kept_used d c' hd).cons _
  · intro d c' hd hmem
    rcases mem_append.1 hmem with hmem | hmem
    · exact h.kept_unspent d c' hd hmem
    · rw [mem_singleton] at hmem
      subst hmem
      exact (h.kept_used d c' hd).not_fresh hfresh
  · exact h.kept_once

theorem DoneInv.mux {s s' : Session} {closed queued : List Nat}
    (h : DoneInv (closed ++ queued) s.settlementByDeliveryID trace) (hstep : s.step i = some (s', events))
    (hsend : FromSend trace s i) :
    DoneInv (events.filterMap MuxEvent.closed ++ closed ++ (queued ++ donesOf events))
      s'.settlementByDeliveryID ((i, events) :: trace) := by
  cases doneStep hstep with
  | silent hsilent hsettlement =>
    rw [hsilent.1, hsilent.2, hsettlement, nil_append, List.append_nil]
    exact h.cons _
  | settle d c hd hsettlement hclosed hdones =>
    rw [hclosed, hdones, hsettlement, List.append_nil]
    exact (h.settle hd).cons _
  | keep l fr d c hi hdone hsettlement hsilent =>
    subst hi
    rw [hsilent.1, hsilent.2, hsettlement, nil_append, List.append_nil]
    exact h.keep hdone ((hsend l fr rfl).done c hdone)
  | hand l fr c hi hdone hsettlement hclosed hdones =>
    subst hi
    rw [hclosed, hdones, hsettlement, nil_append, ← append_assoc]
    exact h.hand hdone ((hsend l fr rfl).done c hdone)

theorem doneInv_step {trace : Trace OutboundInput OutboundEvent} {l : OutboundInput × List OutboundEvent}
    (h : DoneInv (closings trace ++ o.queued) o.session.settlementByDeliveryID (muxTrace trace))
    (hstep : Fires Outbound.step o l o') (hsend : FromSenders trace o l.1) :
    DoneInv (closings (l :: trace) ++ o'.queued) o'.session.settlementByDeliveryID
      (muxTrace (l :: trace)) := by
  obtain ⟨i, events⟩ := l
  cases step_cases hstep with
  | mux i s events hmux =>
    have hinv := h.mux hmux (hsend i rfl)
    rw [muxTrace, filterMap_ofMux, closings, flatMap_cons, filterMap_closed, queued, filterMap_append]
    exact hinv
  | written body done txFrame hq =>
    rw [queued, hq] at h
    cases done with
    | none => exact h
    | some c => exact h.subperm perm_middle.symm.subperm
  | failed body done txFrame hq =>
    rw [queued, hq] at h
    cases done with
    | none => exact h
    | some c => exact h.subperm ((sublist_cons_self c _).append_left _).subperm
  | rxtxExit => exact h

/-- **No channel is closed twice**, by the mux, by the writer or by both. -/
theorem closings_nodup {incomingWindow outgoingWindow handleMax : UInt32} {remoteBegin : PerformBegin}
    {trace : Trace OutboundInput OutboundEvent}
    (hrun : RunIf (Fires Outbound.step) (fun trace o l => FromSenders trace o l.1)
      (start (.start incomingWindow outgoingWindow handleMax remoteBegin)) trace o) :
    (closings trace).Nodup := by
  have hinv : DoneInv (closings trace ++ o.queued) o.session.settlementByDeliveryID (muxTrace trace) :=
    hrun.invariant (P := fun trace (o : Outbound) =>
      DoneInv (closings trace ++ o.queued) o.session.settlementByDeliveryID (muxTrace trace))
      (by exact .nil) (fun _ _ _ _ h hs hg => doneInv_step h hs hg)
  exact hinv.once.of_append_left

/-- A channel that the mux closes is that of a delivery in the range of the disposition being handled. -/
theorem settle_own {i : OutboundInput} {events : List OutboundEvent} {trace : Trace MuxInput MuxEvent} {done : Nat}
    {state : Option (DeliveryState Value)} (hinv : SettleInv trace o.session) (hstep : o.step i = some (o', events))
    (hmem : .mux (.settle done state) ∈ events) :
    ∃ body k d, o.session.phase = .disposition body k ∧ body.role = Role.receiver ∧ body.settled = true ∧
      owner done trace = some d ∧ Covers body d := by
  cases step_cases hstep with
  | mux j s events hmux =>
    rw [mem_map] at hmem
    obtain ⟨event, hmem, heq⟩ := hmem
    cases heq
    have hclosed : done ∈ events.filterMap MuxEvent.closed := mem_filterMap.2 ⟨_, hmem, rfl⟩
    cases Session.step_cases hmux with
    | round body k hphase =>
      cases dispositionRound_effect o.session body k with
      | hit hle hrole _ _ _ hevents =>
        obtain ⟨hsettled, hkept, -⟩ := (hevents done state).1 hmem
        exact ⟨body, k, k, hphase, hrole, hsettled, hinv.owned k done hkept, (hinv.range body k hphase).2, hle⟩
      | miss _ _ _ hevents => exact absurd hmem (hevents done state)
    | rx body => rw [(silent_rx _ body).1] at hclosed; cases hclosed
    | rxClosing body => rw [(silent_rxClosing _ body).1] at hclosed; cases hclosed
    | tx body => rw [(silent_tx _ body).1] at hclosed; cases hclosed
    | txTransfer l fr => cases hclosed
    | _ => cases hclosed
  | written body d txFrame =>
    rw [mem_map] at hmem
    obtain ⟨_, _, heq⟩ := hmem
    cases heq
  | failed => cases hmem
  | rxtxExit => cases hmem

end Outbound

/-- **`Done` channels are closed at most once, and for their own delivery.** In every run whose
    dispositions are bounded and whose links are not detached within a message: no channel is closed
    twice, by the mux or by the writer, and the mux closes a channel only while it handles a settled
    disposition of the receiver whose range has the delivery-id in the first transfer of the channel's
    message. -/
theorem done_closed_once {incomingWindow outgoingWindow handleMax : UInt32} {remoteBegin : PerformBegin}
    {trace : Trace OutboundInput OutboundEvent} {o : Outbound}
    (hrun : RunIf (Fires Outbound.step)
      (fun trace o l => Outbound.FromSenders trace o l.1 ∧ Outbound.Orderly o l.1)
      (.start (.start incomingWindow outgoingWindow handleMax remoteBegin)) trace o) :
    (Outbound.closings trace).Nodup ∧
    ∀ i o' events done state, o.step i = some (o', events) → .mux (.settle done state) ∈ events →
      ∃ body k d, o.session.phase = .disposition body k ∧ body.role = Role.receiver ∧
        body.settled = true ∧ Session.owner done (Outbound.muxTrace trace) = some d ∧
        Session.Covers body d := by
  constructor
  · exact Outbound.closings_nodup (hrun.mono fun _ _ _ hg => hg.1)
  · intro i o' events done state hstep hmem
    have hmux := Outbound.run_session
      (G := fun trace s j => Session.FromSend trace s j ∧ Session.InRange j ∧ Session.StillKnown s j)
      (hrun.mono fun _ _ _ hg j hj => ⟨hg.1 j hj, hg.2 j hj⟩)
    have hinv : Session.SettleInv (Outbound.muxTrace trace) o.session :=
      hmux.invariant (.start ..) (fun _ _ _ _ h hs hg => h.step hs hg.1 hg.2.1 hg.2.2)
    exact Outbound.settle_own hinv hstep hmem

namespace Outbound

open Session

theorem FromSenders.of_other {trace : Trace OutboundInput OutboundEvent} (h : transfer? i = none) :
    FromSenders trace o (.mux i) := by
  intro j hj
  cases hj
  exact .of_other h

theorem Orderly.of_undisturbed (h : Undisturbed o.session i) : Orderly o (.mux i) := by
  intro j hj
  cases hj
  exact ⟨h.inRange, h.stillKnown⟩

end Outbound

open Session Outbound

theorem done_closed_once_one : ∃ trace o,
    RunIf (Fires Outbound.step) (fun trace o l => FromSenders trace o l.1 ∧ Orderly o l.1)
      (.start firstSession) trace o ∧ (closings trace).Nodup ∧ closings trace = [5] := by
  have hstart : RunIf (Fires Outbound.step) (fun trace o l => FromSenders trace o l.1 ∧ Orderly o l.1)
      (.start firstSession) [] (.start firstSession) := .start
  have hlink := hstart.fire (.mux (.newLink ⟨ascii "a", Role.sender⟩ none)) rfl
    ⟨.of_other rfl, .of_undisturbed (.of_other rfl (fun _ h => by cases h))⟩
  have hattach := hlink.fire (.mux (.rx (.attach (attachFrame "a" 0)))) rfl
    ⟨.of_other rfl, .of_undisturbed (.of_other rfl (fun _ h => by cases h))⟩
  have hsent := hattach.fire (.mux (.txTransfer 0 waitingFrame)) rfl
    ⟨fun j hj => by cases hj; exact sendsNext_waitingFrame (by simp [muxTrace, transfer?]) rfl (by rfl) rfl,
      .of_undisturbed (undisturbed_waitingFrame rfl rfl)⟩
  have hwritten := hsent.fire (.write true) rfl ⟨fun _ h => (by cases h), fun _ h => (by cases h)⟩
  have hinRange : InRange (.rx (.disposition (settledFrame 1))) := by
    intro body h
    cases h
    decide
  have hrx := hwritten.fire (.mux (.rx (.disposition (settledFrame 1)))) rfl
    ⟨.of_other rfl, fun j hj => by cases hj; exact ⟨hinRange, fun _ _ h => (by cases h)⟩⟩
  have hround := hrx.fire (.mux .round) rfl
    ⟨.of_other rfl, .of_undisturbed (.of_other rfl (fun _ h => by cases h))⟩
  exact ⟨_, _, hround, (done_closed_once hround).1, rfl⟩

/-- The loop over the range of a disposition for the last delivery-id does not end there: it goes on
    from zero, and the channel of delivery one is closed. -/
theorem done_closed_outside_range : ∃ trace o o' events body k,
    RunIf (Fires Outbound.step) (fun trace o l => FromSenders trace o l.1)
      (.start firstSession) trace o ∧
    o.step (.mux .round) = some (o', events) ∧ .mux (.settle 5 none) ∈ events ∧
    o.session.phase = .disposition body k ∧ owner 5 (muxTrace trace) = some 1 ∧ ¬ Covers body 1 := by
  have hstart : RunIf (Fires Outbound.step) (fun trace o l => FromSenders trace o l.1)
      (.start firstSession) [] (.start firstSession) := .start
  have hlink := hstart.fire (.mux (.newLink ⟨ascii "a", Role.sender⟩ none)) rfl (.of_other rfl)
  have hattach := hlink.fire (.mux (.rx (.attach (attachFrame "a" 0)))) rfl (.of_other rfl)
  have hsent := hattach.fire (.mux (.txTransfer 0 waitingFrame)) rfl
    (fun j hj => by cases hj; exact sendsNext_waitingFrame (by simp [muxTrace, transfer?]) rfl (by rfl) rfl)
  have hrx := hsent.fire (.mux (.rx (.disposition (settledFrame 0xFFFFFFFF)))) rfl (.of_other rfl)
  have hlast := hrx.fire (.mux .round) rfl (.of_other rfl)
  have hzero := hlast.fire (.mux .round) rfl (.of_other rfl)
  exact ⟨_, _, _, _, settledFrame 0xFFFFFFFF, 1, hzero, rfl, mem_cons_self .., rfl, rfl, by decide⟩

end GoAmqp
