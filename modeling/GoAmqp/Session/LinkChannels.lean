import GoAmqp.Session.LinkEnds

set_option autoImplicit false

/-! # The session and closed channels

A link closes its channel after it has taken a detach of the peer from it, or after the session is gone.
With a peer that keeps to the protocol the detach is the last frame the session passes on to the link, so
that nothing is ever passed on to a closed channel. The session does not enforce this. It takes a link out
of its table under the handle of the latest attach only, looks up attaches by name until the link has
returned its handle, and leaves a refused link in the table whatever frame comes after the refusal. -/

namespace GoAmqp

open Lib Function List Option

namespace LinkedSession

/-! ## What a run has passed on -/

/-- The frames for a link among frames for links. -/
def framesTo (l : LinkID) (frames : List (LinkID × FrameBody)) : List FrameBody :=
  frames.filterMap fun x => if x.1 = l then some x.2 else none

def sentTo (l : LinkID) : LinkedEvent → Option FrameBody
  | .mux (.toLink k body) => if k = l then some body else none
  | _ => none

def takenBy (l : LinkID) : LinkedEvent → Option FrameBody
  | .taken k body => if k = l then some body else none
  | _ => none

abbrev Trace := List (LinkedInput × List LinkedEvent)

/-- The frames that the session has passed on to a link, the latest first. -/
def forwarded (l : LinkID) (trace : Trace) : List FrameBody :=
  trace.flatMap fun x => (x.2.filterMap (sentTo l)).reverse

/-- The frames that a link has taken from its channel, the latest first. -/
def taken (l : LinkID) (trace : Trace) : List FrameBody := trace.flatMap fun x => (x.2.filterMap (takenBy l)).reverse

/-- An attach without source and target. -/
def refuses : FrameBody → Bool
  | .attach body => body.refused
  | _ => false

/-- The frame keeps to the protocol with the link it is for: a link that the peer has detached is not attached
    again, one that is attached again keeps its handle, and after an attach without source and target comes
    the detach. -/
structure Proper (trace : Trace) (s : LinkedSession) (l : LinkID) (body : FrameBody) : Prop where
  undetached : ∀ attach, body = .attach attach → ∀ fr ∈ forwarded l trace, fr.isDetach = false
  sameHandle : ∀ attach, body = .attach attach → forwarded l trace ≠ [] →
    attach.handle = (s.session.link l).remoteHandle
  refused : ∀ fr, (forwarded l trace).head? = some fr → refuses fr = true → body.isDetach = true

/-- The peer sends only such frames. -/
def Orderly (trace : Trace) (s : LinkedSession) (x : LinkedInput × List LinkedEvent) : Prop :=
  ∀ i l body, x.1 = .mux i → s.session.target i = some (l, body) → Proper trace s l body

section History

variable {l k : LinkID} {trace : Trace} {i : LinkedInput}

@[simp] theorem taken_nil : taken l ((i, []) :: trace) = taken l trace := rfl

theorem taken_taken (body : FrameBody) :
    taken l ((i, [.taken k body]) :: trace) = if k = l then body :: taken l trace else taken l trace := by
  by_cases hk : k = l <;> simp [taken, takenBy, hk]

/-- A step of the mux. -/
theorem forwarded_mux (events : List MuxEvent) :
    forwarded l ((i, events.map .mux) :: trace) =
      (framesTo l (toLinks events)).reverse ++ forwarded l trace := by
  have hsame : (events.map LinkedEvent.mux).filterMap (sentTo l) = framesTo l (toLinks events) := by
    rw [filterMap_map, framesTo, toLinks, filterMap_filterMap]
    congr 1
    funext e
    cases e <;> rfl
  rw [forwarded, flatMap_cons, hsame]
  rfl

theorem taken_mux (events : List MuxEvent) : taken l ((i, events.map .mux) :: trace) = taken l trace := by
  have hnone : (events.map LinkedEvent.mux).filterMap (takenBy l) = [] := by
    rw [filterMap_map, filterMap_eq_nil_iff]
    intro e _
    rfl
  rw [taken, flatMap_cons, hnone]
  rfl

end History

end LinkedSession

/-! ## One link -/

/-- The link has closed its channel, or is about to. -/
def LinkEnd.ended (e : LinkEnd) : Bool :=
  e.detachReceived || e.rxClosed ||
    match e.phase with
    | .dropping _ => true
    | .cleaning => !e.ctxDone
    | _ => false

namespace LinkedSession

/-- What may follow a frame to a link: nothing follows a detach, and only a detach an attach without source
    and target. -/
def After (newer older : FrameBody) : Prop := older.isDetach = false ∧ (refuses older = true → newer.isDetach = true)

/-- How a link stands to the frames sent to it: `pend` of them are under way, in `e.rx` and `took` are the
    next ones, in order. It ends after a detach, or if the session is over. -/
structure EndInv (isOver : Bool) (sent took pend : List FrameBody) (e : LinkEnd) : Prop where
  inOrder : (pend ++ (e.rx.reverse ++ took)).Sublist sent
  refused : e.phase = .refused → ∃ fr ∈ took, refuses fr = true
  ended : e.ended = true → isOver = true ∨ ∃ fr ∈ took, fr.isDetach = true

variable {isOver : Bool} {sent took pend : List FrameBody} {e e' : LinkEnd}

theorem EndInv.none : EndInv isOver sent [] [] .none := ⟨nil_sublist _, fun h => (by cases h), fun h => (by cases h)⟩

theorem EndInv.new (role : Role) (settings : LinkSettings) (maxCredit : UInt32) :
    EndInv isOver sent [] [] (.new role settings maxCredit) :=
  ⟨nil_sublist _, fun h => (by cases h), fun h => (by cases h)⟩

/-- A step of the link that takes nothing from the channel. -/
theorem EndInv.move (h : EndInv isOver sent took pend e) (hrx : e'.rx = e.rx)
    (hrefused : e'.phase = .refused → e.phase = .refused)
    (hended : e'.ended = true → isOver = true ∨ e.ended = true) : EndInv isOver sent took pend e' := by
  refine ⟨by rw [hrx]; exact h.inOrder, fun hp => h.refused (hrefused hp), fun he => ?_⟩
  rcases hended he with hover | he
  · exact .inl hover
  · exact h.ended he

variable {body : FrameBody}

/-- Two frames that came to the link one after the other. -/
theorem EndInv.after {fr : FrameBody} {rx : List FrameBody} (h : EndInv isOver sent took pend e)
    (hordered : sent.Pairwise After) (hrx : e.rx = body :: rx) (hfr : fr ∈ took) : After body fr := by
  have hpair := hordered.sublist h.inOrder
  rw [hrx, reverse_cons, append_assoc] at hpair
  have hlast := (pairwise_append.mp (pairwise_append.mp hpair).2.1).2.1
  exact (pairwise_cons.mp hlast).1 fr hfr

/-- The link takes a frame from its channel. -/
theorem EndInv.handle {rx : List FrameBody} {fails : Bool} (h : EndInv isOver sent took pend e)
    (hordered : sent.Pairwise After) (hrx : e.rx = body :: rx)
    (hhandle : { e with rx := rx }.handle fails body = some e') : EndInv isOver sent (body :: took) pend e' := by
  have hin : (pend ++ (rx.reverse ++ body :: took)).Sublist sent := by
    have := h.inOrder
    rwa [hrx, reverse_cons, append_assoc] at this
  -- the link has ended before, or the frame is a detach
  have hkeep : ∀ d : LinkEnd, d.rx = rx → (d.phase = .refused → refuses body = true) →
      (d.ended = true → e.ended = true ∨ body.isDetach = true) → EndInv isOver sent (body :: took) pend d := by
    intro d hd hrefused hended
    refine ⟨by rw [hd]; exact hin, fun hp => ⟨body, mem_cons_self .., hrefused hp⟩, fun he => ?_⟩
    rcases hended he with he | hdetach
    · rcases h.ended he with hover | ⟨fr, hfr, hdetach⟩
      · exact .inl hover
      · exact .inr ⟨fr, mem_cons_of_mem _ hfr, hdetach⟩
    · exact .inr ⟨body, mem_cons_self .., hdetach⟩
  -- the frame changes nothing, or leaves the link in a phase that does not end it
  have hsame : e.phase ≠ .refused → EndInv isOver sent (body :: took) pend { e with rx := rx } :=
    fun hp => hkeep _ rfl (fun hrefused => absurd hrefused hp) .inl
  have hquiet : ∀ d : LinkEnd, d.rx = rx → (d.phase = .refused → refuses body = true) →
      (d.ended = true → (e.detachReceived || e.rxClosed) = true) → EndInv isOver sent (body :: took) pend d :=
    fun d hd hrefused hended => hkeep d hd hrefused fun he => .inl (by rw [LinkEnd.ended, hended he, Bool.true_or])
  unfold LinkEnd.handle at hhandle
  split at hhandle <;> cases hhandle
  · next resp _ =>
    unfold LinkEnd.attached
    split
    · next hrefuses => exact hquiet _ rfl (fun _ => hrefuses) (by simp [LinkEnd.ended])
    · split <;> exact hquiet _ rfl (fun hp => by cases hp) (by simp [LinkEnd.ended])
  · exact hquiet _ rfl (fun hp => by cases hp) (by simp [LinkEnd.ended])
  · -- the frame after a refusal is a detach
    next hp =>
    obtain ⟨fr, hfr, hrefuses⟩ := h.refused hp
    exact hkeep _ rfl (fun hp => by cases hp) (fun _ => .inr ((h.after hordered hrx hfr).2 hrefuses))
  · exact hkeep _ rfl (fun hp => by cases hp) (fun _ => .inr rfl)
  · next hp _ =>
    have hp : e.phase = .running := hp
    split
    · exact hquiet _ rfl (fun hp => by cases hp) (by simp [LinkEnd.ended])
    · exact hsame (by simp [hp])
  · next hp =>
    have hp : e.phase = .detaching := hp
    exact hkeep _ rfl (fun hrefused => by simp [hp] at hrefused) (fun _ => .inr rfl)
  · next hp _ =>
    have hp : e.phase = .detaching := hp
    exact hsame (by simp [hp])
  · next hp =>
    have hp : e.phase = .awaitingDetach := hp
    split
    · exact hkeep _ rfl (fun hp => by cases hp) (fun _ => .inr rfl)
    · exact hsame (by simp [hp])
  · next hp _ =>
    have hp : e.phase = .awaitingDetach := hp
    exact hsame (by simp [hp])

/-- The steps of a link that take nothing from its channel. -/
theorem EndInv.onCtxDone (h : EndInv isOver sent took pend e) (he : e.onCtxDone = some e') :
    EndInv isOver sent took pend e' := by
  unfold LinkEnd.onCtxDone at he
  split at he
  · next hdone =>
    split at he <;> cases he
    all_goals
      refine h.move rfl (fun hp => by cases hp) (fun hended => .inr ?_)
      simp_all [LinkEnd.ended]
  · cases he

theorem EndInv.onSessionDone (h : EndInv true sent took pend e) (he : e.onSessionDone = some e') :
    EndInv true sent took pend e' := by
  unfold LinkEnd.onSessionDone at he
  split at he <;> cases he
  all_goals exact h.move rfl (fun hp => by cases hp) (fun _ => .inl rfl)

theorem EndInv.detachSent (h : EndInv isOver sent took pend e) : EndInv isOver sent took pend e.detachSent := by
  refine h.move rfl (fun hp => ?_) (fun hended => .inr ?_)
  · unfold LinkEnd.detachSent at hp
    dsimp only at hp
    split at hp <;> cases hp
  · cases hreceived : e.detachReceived <;> simp_all [LinkEnd.ended, LinkEnd.detachSent]

/-! ## The session and all its links -/

/-- Each link has taken the frames for it in their order; the rest is pending or in its channel. -/
structure Inv (trace : Trace) (s : LinkedSession) : Prop where
  ordered : ∀ l, (forwarded l trace).Pairwise After
  ends : ∀ l, EndInv s.session.phase.over (forwarded l trace) (taken l trace)
    (framesTo l s.pending).reverse (s.ends l)
  routed : ∀ h l, s.session.links h = some l → (s.session.link l).remoteHandle = h ∧
    l < s.session.linkCount ∧ forwarded l trace ≠ [] ∧ ∀ fr ∈ forwarded l trace, fr.isDetach = false
  keyed : ∀ k l, s.session.linksByKey k = some l → l < s.session.linkCount
  fresh : ∀ l, s.session.linkCount ≤ l → forwarded l trace = []
  idle : s.session.phase.over = true → s.pending = []

variable {trace trace' : Trace} {s s' : LinkedSession} {l : LinkID}

theorem Inv.start (incomingWindow outgoingWindow handleMax : UInt32) (remoteBegin : PerformBegin) :
    Inv [] (.start incomingWindow outgoingWindow handleMax remoteBegin) := by
  refine ⟨fun l => .nil, fun l => .none, fun h l hl => ?_, fun k l hl => ?_, fun l _ => rfl, fun hover => ?_⟩
  · cases hl
  · cases hl
  · cases hover

/-- What the steps of links do to the session. -/
structure LeavesRoutes (s s' : Session) : Prop where
  links : s'.links = s.links
  remoteHandle : ∀ l, (s'.link l).remoteHandle = (s.link l).remoteHandle
  linkCount : s'.linkCount = s.linkCount
  linksByKey : ∀ k l, s'.linksByKey k = some l → s.linksByKey k = some l
  phase : s'.phase = s.phase

theorem LeavesRoutes.refl (s : Session) : LeavesRoutes s s := ⟨rfl, fun _ => rfl, rfl, fun _ _ h => h, rfl⟩

theorem leavesRoutes_deallocateHandle (s : Session) (l : LinkID) : LeavesRoutes s (s.deallocateHandle l) :=
  ⟨rfl, fun _ => rfl, rfl, fun _ _ h => (Session.update_none_eq_some h).2, rfl⟩

theorem leavesRoutes_setMode (s : Session) (l : LinkID) (mode : Option ReceiverSettleMode) :
    LeavesRoutes s (setMode s l mode) := by
  refine ⟨rfl, fun k => ?_, rfl, fun _ _ h => h, rfl⟩
  by_cases hk : k = l
  · simp only [setMode, hk, update_self]
  · simp only [setMode, update_of_ne hk]

/-- A step in which the session passes nothing on. -/
theorem Inv.frame (h : Inv trace s) (hsent : ∀ l, forwarded l trace' = forwarded l trace)
    (hsession : LeavesRoutes s.session s'.session) (hpending : s.pending = [] → s'.pending = [])
    (hends : ∀ l, EndInv s.session.phase.over (forwarded l trace) (taken l trace')
      (framesTo l s'.pending).reverse (s'.ends l)) : Inv trace' s' := by
  refine ⟨fun l => ?_, fun l => ?_, fun hd l hl => ?_, fun k l hl => ?_, fun l hl => ?_, fun hover => ?_⟩
  · rw [hsent]
    exact h.ordered l
  · rw [hsent, hsession.phase]
    exact hends l
  · rw [hsession.links] at hl
    rw [hsession.remoteHandle, hsession.linkCount, hsent]
    exact h.routed hd l hl
  · rw [hsession.linkCount]
    exact h.keyed k l (hsession.linksByKey k l hl)
  · rw [hsession.linkCount] at hl
    rw [hsent]
    exact h.fresh l hl
  · rw [hsession.phase] at hover
    exact hpending (h.idle hover)

/-- A step of one link that takes nothing from its channel. -/
theorem Inv.setEnd (h : Inv trace s) {session : Session} {e : LinkEnd} (hsession : LeavesRoutes s.session session)
    (he : EndInv s.session.phase.over (forwarded l trace) (taken l trace) (framesTo l s.pending).reverse e) :
    Inv trace { s.setEnd l e with session := session } := by
  refine h.frame (fun _ => rfl) hsession id fun k => ?_
  by_cases hk : k = l
  · subst hk
    show EndInv _ _ _ _ (update s.ends k e k)
    rw [update_self]
    exact he
  · show EndInv _ _ _ _ (update s.ends l e k)
    rw [update_of_ne hk]
    exact h.ends k

/-- A step without events adds nothing to the history. -/
theorem Inv.quiet (h : Inv trace s) (i : LinkedInput) : Inv ((i, []) :: trace) s :=
  ⟨h.ordered, h.ends, h.routed, h.keyed, h.fresh, h.idle⟩

/-! ## Steps of the mux -/

theorem framesTo_cons (k l : LinkID) (body : FrameBody) (frames : List (LinkID × FrameBody)) :
    framesTo k ((l, body) :: frames) = if l = k then body :: framesTo k frames else framesTo k frames := by
  by_cases hk : l = k <;> simp [framesTo, hk]

theorem framesTo_singleton (k l : LinkID) (body : FrameBody) :
    framesTo k [(l, body)] = if l = k then [body] else [] :=
  framesTo_cons k l body []

theorem ordered_cons (h : sent.Pairwise After) (hopen : ∀ fr ∈ sent, fr.isDetach = false)
    (hrefused : ∀ fr, sent.head? = some fr → refuses fr = true → body.isDetach = true) :
    (body :: sent).Pairwise After := by
  refine pairwise_cons.mpr ⟨fun fr hfr => ⟨hopen fr hfr, fun hrefuses => ?_⟩, h⟩
  cases sent with
  | nil => cases hfr
  | cons latest rest =>
    rcases mem_cons.mp hfr with rfl | hold
    · exact hrefused fr rfl hrefuses
    · -- a refusal that is not the latest frame is followed by a detach
      have hdetach := ((pairwise_cons.mp h).1 fr hold).2 hrefuses
      rw [hopen latest (mem_cons_self ..)] at hdetach
      cases hdetach

theorem step_over {s s' : Session} {i : MuxInput} {events : List MuxEvent} (hi : i.ofMux = true)
    (h : s.step i = some (s', events)) (hover : s.phase.over = true) : s'.phase.over = true := by
  cases Session.step_cases h with
  | connDone => rfl
  | newLink key mode => cases hi
  | setReceiverSettleMode l mode => cases hi
  | deallocateHandle l hlive => cases hi
  | close hp => rw [hp] at hover; cases hover
  | rx body hp => rw [hp] at hover; cases hover
  | rxClosing body hp => rw [hp] at hover; cases hover
  | round body deliveryID hp => rw [hp] at hover; cases hover
  | txTransfer l fr hp hen => rw [hp] at hover; cases hover
  | tx body hp => rw [hp] at hover; cases hover

/-- A frame is under way to the link. -/
theorem EndInv.send (h : EndInv isOver sent took [] e) : EndInv isOver (body :: sent) took [body] e :=
  ⟨h.inOrder.cons_cons body, h.refused, h.ended⟩

theorem EndInv.mono {isOver' : Bool} (h : EndInv isOver sent took pend e) (hover : isOver = true → isOver' = true) :
    EndInv isOver' sent took pend e :=
  ⟨h.inOrder, h.refused, fun he => (h.ended he).imp_left hover⟩

section Mux

variable {i : MuxInput} {j : LinkedInput} {session' : Session} {events : List MuxEvent}

/-- The link a frame is for is there, and has not been detached. -/
theorem Inv.target_open (h : Inv trace s) {r' : Session.Routes}
    (hmoves : Session.Moves s.session.routes (some (l, body)) r') (hproper : Proper trace s l body) :
    l < s.session.linkCount ∧ ∀ fr ∈ forwarded l trace, fr.isDetach = false := by
  cases hmoves with
  | attach _ attach hp hl => exact ⟨h.keyed _ l hl, hproper.undetached attach rfl⟩
  | detach _ detach hp hl => exact ⟨(h.routed _ l hl).2.1, (h.routed _ l hl).2.2.2⟩
  | passes hd _ _ phase hl => exact ⟨(h.routed hd l hl).2.1, (h.routed hd l hl).2.2.2⟩

/-- The table after a step, in terms of what has been passed on then. -/
theorem Inv.routed_moves (h : Inv trace s) {r' : Session.Routes}
    (hmoves : Session.Moves s.session.routes (some (l, body)) r') (hproper : Proper trace s l body)
    {hd : UInt32} {k : LinkID} (hk : r'.links hd = some k) :
    (r'.link k).remoteHandle = hd ∧ k < r'.linkCount ∧
      (k = l → body.isDetach = false) ∧ (k ≠ l → ∃ hd', s.session.links hd' = some k) := by
  cases hmoves with
  | attach _ attach hp hl =>
    have hk' : update s.session.links attach.handle (some l) hd = some k := hk
    by_cases hhandle : hd = attach.handle
    · rw [hhandle, update_self] at hk'
      obtain rfl : l = k := Option.some.inj hk'
      refine ⟨?_, h.keyed _ l hl, fun _ => rfl, fun hne => absurd rfl hne⟩
      show (update s.session.link l _ l).remoteHandle = hd
      rw [update_self, hhandle]
    · rw [update_of_ne hhandle] at hk'
      obtain ⟨hremote, hlt, hsome, -⟩ := h.routed hd k hk'
      -- another handle of the same link is ruled out
      have hne : k ≠ l := by
        rintro rfl
        exact hhandle (hremote.symm.trans (hproper.sameHandle attach rfl hsome).symm)
      refine ⟨?_, hlt, fun heq => absurd heq hne, fun _ => ⟨hd, hk'⟩⟩
      show (update s.session.link l _ k).remoteHandle = hd
      rw [update_of_ne hne, hremote]
  | detach _ detach hp hl =>
    obtain ⟨hne, hk'⟩ := Session.update_none_eq_some hk
    obtain ⟨hremote, hlt, -, -⟩ := h.routed hd k hk'
    refine ⟨hremote, hlt, fun heq => ?_, fun _ => ⟨hd, hk'⟩⟩
    rw [heq] at hremote
    exact absurd hremote.symm hne
  | passes _ _ _ phase hl hattach hdetach hphase =>
    obtain ⟨hremote, hlt, -, -⟩ := h.routed hd k hk
    exact ⟨hremote, hlt, fun _ => hdetach, fun _ => ⟨hd, hk⟩⟩

/-- **A step of the mux** keeps the invariant if what it passes on is proper. -/
theorem Inv.mux (h : Inv trace s) (hidle : s.pending = []) (hi : i.ofMux = true)
    (hstep : s.session.step i = some (session', events))
    (hproper : ∀ l body, s.session.target i = some (l, body) → Proper trace s l body) :
    Inv ((j, events.map .mux) :: trace) { s with session := session', pending := toLinks events } := by
  obtain ⟨hsent, hmoves⟩ := Session.step_forwards hi hstep
  have hover := step_over hi hstep
  have hends : ∀ k, EndInv session'.phase.over (forwarded k trace) (taken k trace) [] (s.ends k) := by
    intro k
    have hend := (h.ends k).mono hover
    rwa [hidle] at hend
  have hkeys := hmoves.linksByKey
  have hcount : session'.linkCount = s.session.linkCount := hmoves.linkCount
  have hkeyed : ∀ key k, session'.linksByKey key = some k → k < session'.linkCount := by
    intro key k hk
    rw [hcount]
    exact h.keyed key k ((congrFun hkeys key).symm.trans hk)
  cases htarget : s.session.target i with
  | none =>
    rw [htarget] at hsent hmoves
    have hfwd : ∀ k, forwarded k ((j, events.map .mux) :: trace) = forwarded k trace := by
      intro k
      rw [forwarded_mux, hsent]
      rfl
    obtain ⟨hlinks, hlink⟩ := hmoves.of_none
    refine ⟨fun k => ?_, fun k => ?_, fun hd k hk => ?_, hkeyed, fun k hk => ?_, fun _ => hsent⟩
    · rw [hfwd]
      exact h.ordered k
    · rw [hfwd, taken_mux, hsent]
      exact hends k
    · rw [hfwd]
      have hk' : s.session.links hd = some k := (congrFun hlinks hd).symm.trans hk
      obtain ⟨hremote, hlt, hfr⟩ := h.routed hd k hk'
      exact ⟨(congrArg Link.remoteHandle (congrFun hlink k)).trans hremote, hcount ▸ hlt, hfr⟩
    · rw [hfwd]
      exact h.fresh k (hcount ▸ hk)
  | some x =>
    obtain ⟨l, body⟩ := x
    rw [htarget] at hsent hmoves
    have hp := hproper l body htarget
    obtain ⟨hlt, hopen⟩ := h.target_open hmoves hp
    have hfwd : ∀ k, forwarded k ((j, events.map .mux) :: trace) =
        (if l = k then [body] else []) ++ forwarded k trace := by
      intro k
      rw [forwarded_mux, hsent, toList_some, framesTo_singleton]
      split <;> rfl
    have hself : forwarded l ((j, events.map .mux) :: trace) = body :: forwarded l trace := by
      rw [hfwd, if_pos rfl]
      rfl
    have hother : ∀ k, k ≠ l → forwarded k ((j, events.map .mux) :: trace) = forwarded k trace := by
      intro k hk
      rw [hfwd, if_neg (Ne.symm hk)]
      rfl
    refine ⟨fun k => ?_, fun k => ?_, fun hd k hk => ?_, hkeyed, fun k hk => ?_, fun hdone => ?_⟩
    · by_cases hk : k = l
      · rw [hk, hself]
        exact ordered_cons (h.ordered l) hopen hp.refused
      · rw [hother k hk]
        exact h.ordered k
    · rw [taken_mux, hsent, toList_some, framesTo_singleton]
      by_cases hk : k = l
      · rw [if_pos hk.symm, hk, hself]
        exact (hends l).send
      · rw [if_neg (Ne.symm hk), hother k hk]
        exact hends k
    · obtain ⟨hremote, hlt', hdetach, hold⟩ := h.routed_moves hmoves hp hk
      refine ⟨hremote, hlt', ?_⟩
      by_cases hkl : k = l
      · rw [hkl, hself]
        refine ⟨cons_ne_nil _ _, fun fr hfr => ?_⟩
        rcases mem_cons.mp hfr with rfl | hfr
        · exact hdetach hkl
        · exact hopen fr hfr
      · rw [hother k hkl]
        obtain ⟨hd', hk'⟩ := hold hkl
        exact (h.routed hd' k hk').2.2
    · have hk' : s.session.linkCount ≤ k := hcount ▸ hk
      rw [hother k (by rintro rfl; exact absurd hlt (Nat.not_lt.mpr hk'))]
      exact h.fresh k hk'
    · have hnot : session'.phase.over = false := hmoves.of_some
      rw [hnot] at hdone
      cases hdone

end Mux

/-! ## Steps of links -/

theorem mem_framesTo {l : LinkID} {frames : List (LinkID × FrameBody)} (h : (l, body) ∈ frames)
    : body ∈ framesTo l frames :=
  mem_filterMap.mpr ⟨(l, body), h, if_pos rfl⟩

/-- **No frame is under way to a closed channel.** The detach that a closed channel stands for would have been
    sent before the frame. -/
theorem Inv.pending_open (h : Inv trace s) {l : LinkID} (hpend : (l, body) ∈ s.pending) :
    (s.ends l).rxClosed = false := by
  rw [← Bool.not_eq_true]
  intro hclosed
  have hended : (s.ends l).ended = true := by
    rw [LinkEnd.ended, hclosed, Bool.or_true, Bool.true_or]
  rcases (h.ends l).ended hended with hover | ⟨fr, hfr, hdetach⟩
  · rw [h.idle hover] at hpend
    cases hpend
  · have hpair := (h.ordered l).sublist (h.ends l).inOrder
    have hafter := (pairwise_append.mp hpair).2.2 body
      (mem_reverse.mpr (mem_framesTo hpend)) fr (mem_append_right _ hfr)
    rw [hafter.1] at hdetach
    cases hdetach

variable {events : List LinkedEvent} {i : LinkedInput}

theorem Inv.handOver (h : Inv trace s) (hstep : s.handOver = some (s', events)) : Inv ((i, events) :: trace) s' := by
  unfold LinkedSession.handOver at hstep
  split at hstep
  · cases hstep
  · next l body pending hpending =>
    have hopen := h.pending_open (hpending ▸ mem_cons_self ..)
    rw [hopen] at hstep
    simp only [Bool.false_eq_true, if_false, ite_none_right_eq_some] at hstep
    obtain ⟨-, rfl, rfl⟩ := hstep
    refine h.frame (fun _ => rfl) (.refl _) (fun hnil => ?_) fun k => ?_
    · rw [hnil] at hpending
      cases hpending
    have hend := h.ends k
    rw [hpending, framesTo_cons] at hend
    by_cases hk : k = l
    · subst hk
      rw [if_pos rfl] at hend
      show EndInv _ _ _ _ (update s.ends k _ k)
      rw [update_self]
      refine ⟨?_, hend.refused, hend.ended⟩
      -- the frame moves from what is under way to the end of the channel
      have horder := hend.inOrder
      simp only [reverse_cons, append_assoc] at horder
      simpa only [reverse_append, reverse_cons, reverse_nil, nil_append, append_assoc, taken_nil] using horder
    · rw [if_neg (Ne.symm hk)] at hend
      show EndInv _ _ _ _ (update s.ends l _ k)
      rw [update_of_ne hk]
      exact hend

theorem Inv.skip (h : Inv trace s) (hstep : s.skip = some (s', events)) : Inv ((i, events) :: trace) s' := by
  unfold LinkedSession.skip at hstep
  split at hstep
  · cases hstep
  · next l body pending hpending =>
    simp only [ite_none_right_eq_some] at hstep
    obtain ⟨-, hstep⟩ := hstep
    cases hstep
    refine h.frame (fun _ => rfl) (.refl _) (fun hnil => ?_) fun k => ?_
    · rw [hnil] at hpending
      cases hpending
    have hend := h.ends k
    rw [hpending, framesTo_cons] at hend
    split at hend
    · refine ⟨(Sublist.append_right ?_ _).trans hend.inOrder, hend.refused, hend.ended⟩
      exact reverse_sublist.mpr (sublist_cons_self ..)
    · exact hend

theorem Inv.read (h : Inv trace s) {fails : Bool} (hstep : s.read l fails = some (s', events))
    : Inv ((i, events) :: trace) s' := by
  unfold LinkedSession.read at hstep
  split at hstep
  · cases hstep
  · next body rx hrx =>
    obtain ⟨e, he, heq⟩ := map_eq_some_iff.mp hstep
    cases heq
    refine h.frame (fun _ => rfl) (leavesRoutes_setMode ..) id fun k => ?_
    have hend := h.ends k
    rw [taken_taken]
    by_cases hk : k = l
    · subst hk
      rw [if_pos rfl]
      show EndInv _ _ _ _ (update s.ends k e k)
      rw [update_self]
      exact hend.handle (h.ordered k) hrx he
    · rw [if_neg (Ne.symm hk)]
      show EndInv _ _ _ _ (update s.ends l e k)
      rw [update_of_ne hk]
      exact hend

theorem Inv.deallocate (h : Inv trace s) (hstep : s.deallocate l = some (s', events))
    : Inv ((i, events) :: trace) s' := by
  have hend := h.ends l
  unfold LinkedSession.deallocate at hstep
  split at hstep
  · next fr hp =>
    cases hstep
    apply Inv.quiet
    refine h.setEnd (leavesRoutes_deallocateHandle ..) (hend.move rfl (fun hp => by cases hp) fun _ => .inr ?_)
    simp [LinkEnd.ended, hp]
  · next hp =>
    split at hstep <;> cases hstep
    · apply Inv.quiet
      refine h.setEnd (.refl _) (hend.move rfl (fun hp => by cases hp) fun hended => .inr ?_)
      simp_all [LinkEnd.ended]
    · next hctx =>
      apply Inv.quiet
      refine h.setEnd (leavesRoutes_deallocateHandle ..) (hend.move rfl (fun hp => by cases hp) fun _ => .inr ?_)
      simp [LinkEnd.ended, hp, hctx]
  · cases hstep

theorem Inv.moveEnd (h : Inv trace s) {e : Option LinkEnd}
    (he : ∀ d, e = some d → EndInv s.session.phase.over (forwarded l trace) (taken l trace) (framesTo l s.pending).reverse d)
    (hstep : s.moveEnd l e = some (s', events)) : Inv ((i, events) :: trace) s' := by
  obtain ⟨d, hd, heq⟩ := map_eq_some_iff.mp hstep
  cases heq
  exact (h.setEnd (.refl _) (he d hd)).quiet i

theorem Inv.newLink (h : Inv trace s) (i : LinkedInput) (key : LinkKey) (settings : LinkSettings)
    (maxCredit : UInt32) : Inv ((i, []) :: trace) (s.newLink key settings maxCredit) := by
  have hcount := Session.newLink_linkCount s.session key settings.receiverSettleMode
  obtain ⟨hlinks, hphase, hkeys⟩ : (s.newLink key settings maxCredit).session.links = s.session.links ∧
      (s.newLink key settings maxCredit).session.phase = s.session.phase ∧
      ∀ k l, (s.newLink key settings maxCredit).session.linksByKey k = some l →
        l = s.session.linkCount ∨ s.session.linksByKey k = some l := by
    rcases Session.newLink_cases s.session key settings.receiverSettleMode with heq | ⟨next, handles, -, -, heq⟩
    · simp only [LinkedSession.newLink, heq]
      exact ⟨rfl, rfl, fun k l hl => .inr hl⟩
    · simp only [LinkedSession.newLink, heq]
      refine ⟨rfl, rfl, fun k l hl => ?_⟩
      by_cases hk : k = key
      · rw [hk, update_self] at hl
        exact .inl (Option.some.inj hl).symm
      · rw [update_of_ne hk] at hl
        exact .inr hl
  refine ⟨h.ordered, fun l => ?_, fun hd l hl => ?_, fun k l hl => ?_, fun l hl => ?_, fun hover => ?_⟩
  · have hend := h.ends l
    rw [hphase]
    have hsame : (s.newLink key settings maxCredit).ends l = s.ends l ∨
        l = s.session.linkCount ∧
          (s.newLink key settings maxCredit).ends l = .new key.role settings maxCredit := by
      by_cases hl : l = s.session.linkCount <;> simp only [LinkedSession.newLink] <;> split
      · exact .inr ⟨hl, by rw [hl, update_self]⟩
      · exact .inl rfl
      · exact .inl (update_of_ne hl ..)
      · exact .inl rfl
    rcases hsame with hsame | ⟨hl, hsame⟩
    · rw [hsame]
      exact hend
    · -- nothing has been sent to the new link, so nothing is under way and nothing was taken
      have hsent := h.fresh l (Nat.le_of_eq hl.symm)
      have hnil := hend.inOrder
      rw [hsent, sublist_nil, append_eq_nil_iff, append_eq_nil_iff] at hnil
      obtain ⟨hpend, -, htook⟩ := hnil
      rw [hsame]
      show EndInv _ _ (taken l trace) (framesTo l s.pending).reverse _
      rw [hpend, htook]
      exact .new key.role settings maxCredit
  · rw [hlinks] at hl
    obtain ⟨hremote, hlt, hfr⟩ := h.routed hd l hl
    refine ⟨?_, ?_, hfr⟩
    · rw [← hremote]
      exact congrArg Link.remoteHandle (Session.newLink_link (Nat.ne_of_lt hlt))
    · exact Nat.lt_of_lt_of_eq (Nat.lt_succ_of_lt hlt) hcount.symm
  · rcases hkeys k l hl with rfl | hl
    · exact Nat.lt_of_lt_of_eq (Nat.lt_succ_self _) hcount.symm
    · exact Nat.lt_of_lt_of_eq (Nat.lt_succ_of_lt (h.keyed k l hl)) hcount.symm
  · exact h.fresh l (Nat.le_of_succ_le (Nat.le_trans (Nat.le_of_eq hcount.symm) hl))
  · rw [hphase] at hover
    exact h.idle hover

/-- **A step of the session or of a link** keeps the invariant. -/
theorem Inv.step (h : Inv trace s) (hstep : s.step i = some (s', events))
    (hguard : Orderly trace s (i, events)) : Inv ((i, events) :: trace) s' := by
  have hmux : ∀ j, i = .mux j → s.pending.isEmpty = true → j.ofMux = true → s.mux j = some (s', events) →
      Inv ((i, events) :: trace) s' := by
    intro j hj hempty hi hmux
    obtain ⟨⟨session', muxEvents⟩, hs, heq⟩ := map_eq_some_iff.mp hmux
    cases heq
    exact h.mux (isEmpty_iff.mp hempty) hi hs fun l body htarget => hguard j l body hj htarget
  cases i with
  | connDone =>
    cases hstep
    exact h.frame (fun _ => rfl) (.refl _) id h.ends
  | mux j =>
    cases j
    case connDone =>
      simp only [LinkedSession.step, ite_none_right_eq_some, Bool.and_eq_true] at hstep
      exact hmux _ rfl hstep.1.1 rfl hstep.2
    all_goals
      simp only [LinkedSession.step, ite_none_right_eq_some, Bool.and_eq_true] at hstep
      exact hmux _ rfl hstep.1.1 hstep.1.2 hstep.2
  | handOver => exact h.handOver hstep
  | skip => exact h.skip hstep
  | newLink key settings maxCredit =>
    cases hstep
    exact h.newLink _ key settings maxCredit
  | read l fails => exact h.read hstep
  | expire l =>
    refine h.moveEnd (l := l) (fun d hd => ?_) hstep
    simp only [ite_none_right_eq_some, Option.some.injEq] at hd
    obtain ⟨-, rfl⟩ := hd
    refine (h.ends l).move rfl id fun hended => .inr ?_
    cases hp : (s.ends l).phase <;> simp_all [LinkEnd.ended]
  | ctxDone l => exact h.moveEnd (fun d hd => (h.ends l).onCtxDone hd) hstep
  | sessionDone l =>
    simp only [LinkedSession.step, ite_none_right_eq_some] at hstep
    obtain ⟨hover, hstep⟩ := hstep
    refine h.moveEnd (l := l) (fun d hd => ?_) hstep
    have hend := h.ends l
    rw [hover] at hend ⊢
    exact hend.onSessionDone hd
  | stop l =>
    simp only [LinkedSession.step] at hstep
    split at hstep <;> cases hstep
    apply Inv.quiet
    refine h.setEnd (.refl _) ((h.ends l).move rfl (fun hp => by cases hp) fun hended => .inr ?_)
    simp_all [LinkEnd.ended]
  | sendDetach l error =>
    simp only [LinkedSession.step, LinkedSession.sendDetach, ite_none_right_eq_some] at hstep
    obtain ⟨hempty, hstep⟩ := hstep
    split at hstep
    · obtain ⟨⟨session', muxEvents⟩, hs, heq⟩ := map_eq_some_iff.mp hstep
      cases heq
      have hsent : Inv trace (s.setEnd l (s.ends l).detachSent) := h.setEnd (.refl _) (h.ends l).detachSent
      exact hsent.mux (isEmpty_iff.mp hempty) rfl hs fun k body htarget => by cases htarget
    · cases hstep
  | deallocate l => exact h.deallocate hstep
  | closeDetached l =>
    simp only [LinkedSession.step] at hstep
    split at hstep <;> cases hstep
    apply Inv.quiet
    refine h.setEnd (.refl _) ((h.ends l).move rfl (fun hp => by cases hp) fun hended => .inr ?_)
    simp_all [LinkEnd.ended]

end LinkedSession

/-- **With a peer that keeps to the protocol the session sends on no closed channel.** In every run in which
    the peer attaches no link again that it has detached, gives a link it attaches again the same handle, and
    sends a detach after an attach without source and target, no frame is ever under way to a link that has
    closed its channel. -/
theorem pending_channels_open {incomingWindow outgoingWindow handleMax : UInt32} {remoteBegin : PerformBegin}
    {trace : LinkedSession.Trace} {s : LinkedSession}
    (hrun : RunIf (Fires LinkedSession.step) LinkedSession.Orderly
      (.start incomingWindow outgoingWindow handleMax remoteBegin) trace s) :
    ∀ x ∈ s.pending, (s.ends x.1).rxClosed = false := by
  have hinv : LinkedSession.Inv trace s := hrun.invariant (.start ..) fun _ _ _ _ h hstep hguard => h.step hstep hguard
  intro x hx
  exact hinv.pending_open hx

namespace LinkedSession

/-- A test that admits only frames that are proper. -/
def proper (trace : Trace) (s : LinkedSession) : LinkedInput → Bool
  | .mux i =>
    match s.session.target i with
    | some (l, .attach _) => (forwarded l trace).isEmpty
    | some (l, body) => body.isDetach || !((forwarded l trace).head?.any refuses)
    | none => true
  | _ => true

theorem orderly_of_proper (trace : Trace) (s : LinkedSession) (i : LinkedInput) (events : List LinkedEvent)
    (h : proper trace s i = true) : Orderly trace s (i, events) := by
  rintro i l body rfl htarget
  simp only [proper, htarget] at h
  have hrefused : ∀ fr, (forwarded l trace).head? = some fr → refuses fr = true →
      (forwarded l trace).head?.any refuses = true := by
    intro fr hhead hrefuses
    rw [hhead]
    exact hrefuses
  split at h
  · next k attach heq =>
    cases heq
    have hnil : forwarded l trace = [] := isEmpty_iff.mp h
    refine ⟨fun _ _ fr hfr => ?_, fun _ _ hne => absurd hnil hne, fun fr hhead _ => ?_⟩
    · rw [hnil] at hfr
      cases hfr
    · rw [hnil] at hhead
      cases hhead
  · next k body hattach heq =>
    cases heq
    refine ⟨fun attach heq => absurd heq (hattach attach), fun attach heq => absurd heq (hattach attach),
      fun fr hhead hrefuses => ?_⟩
    rw [hrefused fr hhead hrefuses, Bool.not_true, Bool.or_false] at h
    exact h
  · next heq => cases heq

/-- The attach of a receiving peer, with a target. -/
def accepted (name : String) (handle : UInt32) : FrameBody :=
  .attach { PerformAttach.zero with
    name := ascii name, role := Role.receiver, handle := handle, target := some .zero }

/-- The attach of a receiving peer, without source and target. -/
def refusal (name : String) (handle : UInt32) : FrameBody :=
  .attach { PerformAttach.zero with name := ascii name, role := Role.receiver, handle := handle }

def closingDetach (handle : UInt32) : FrameBody := .detach { handle := handle, closed := true, error := none }

/-- A flow for the link that the peer knows under this handle. -/
def linkFlow (handle : UInt32) : FrameBody :=
  .flow { PerformFlow.zero with nextIncomingID := some 0, handle := some handle }

def newSender (name : String) : LinkedInput := .newLink ⟨ascii name, Role.sender⟩ ⟨0, none, none⟩ 1

/-- The session passes a frame of the peer on to the link, which takes it. -/
def delivered (l : LinkID) (body : FrameBody) : List LinkedInput := [.mux (.rx body), .handOver, .read l false]

def firstStart : LinkedSession :=
  .start 100 100 10 { PerformBegin.zero with incomingWindow := 5, outgoingWindow := 5 }

end LinkedSession

open LinkedSession

/-- The first of two links is detached and has closed its channel, the second gets its attach. -/
theorem pending_channels_open_two : ∃ trace s,
    RunIf (Fires LinkedSession.step) Orderly firstStart trace s ∧ s.pending.map Prod.fst = [1] ∧
      (s.ends 0).rxClosed = true ∧ ∀ x ∈ s.pending, (s.ends x.1).rxClosed = false := by
  have hexec : (execIf LinkedSession.step proper [] firstStart
      ([newSender "a", newSender "b"] ++ delivered 0 (accepted "a" 0) ++ delivered 0 (closingDetach 0) ++
        [.sendDetach 0 none, .deallocate 0, .mux (.rx (accepted "b" 0))])).map
      (fun r => (r.2.pending.map Prod.fst, (r.2.ends 0).rxClosed)) = some ([1], true) := by
    decide +kernel
  obtain ⟨⟨trace, s⟩, hexec, heq⟩ := map_eq_some_iff.mp hexec
  obtain ⟨hpending, hclosed⟩ := Prod.mk.inj heq
  have hrun := RunIf.of_execIf (G := Orderly) orderly_of_proper _ .start hexec
  exact ⟨trace, s, hrun, hpending, hclosed, pending_channels_open hrun⟩

namespace LinkedSession

/-- The peer attaches a link under two handles and detaches it under the second. -/
def attachedTwice : List LinkedInput :=
  [newSender "a"] ++ delivered 0 (accepted "a" 0) ++ delivered 0 (accepted "a" 1) ++
    delivered 0 (closingDetach 1) ++ [.sendDetach 0 none, .deallocate 0, .mux (.rx (linkFlow 0))]

/-- The peer sends a flow after an attach without source and target. -/
def flowAfterRefusal : List LinkedInput :=
  [newSender "a"] ++ delivered 0 (refusal "a" 0) ++ delivered 0 (linkFlow 0) ++
    [.deallocate 0, .mux (.rx (linkFlow 0))]

/-- The inputs lead to a state in which a frame is sent on a closed channel. -/
def SendsOnClosed (inputs : List LinkedInput) : Prop :=
  ∃ trace s, exec LinkedSession.step [] firstStart inputs = some (trace, s) ∧
    Run (Fires LinkedSession.step) firstStart trace s ∧ ∃ x ∈ s.pending, (s.ends x.1).rxClosed = true

theorem sendsOnClosed {inputs : List LinkedInput} (h : (exec LinkedSession.step [] firstStart inputs).map
    (fun r => r.2.pending.any fun x => (r.2.ends x.1).rxClosed) = some true) : SendsOnClosed inputs := by
  obtain ⟨⟨trace, s⟩, hexec, hclosed⟩ := map_eq_some_iff.mp h
  exact ⟨trace, s, hexec, .of_exec inputs .start hexec, any_eq_true.mp hclosed⟩

end LinkedSession

/-- Two peers that do not keep to the protocol. Both times the link closes its channel while the session still has
    it in its table, and the next flow is sent on the closed channel. -/
theorem pending_channel_closed : SendsOnClosed attachedTwice ∧ SendsOnClosed flowAfterRefusal :=
  ⟨sendsOnClosed (by decide +kernel), sendsOnClosed (by decide +kernel)⟩

end GoAmqp
