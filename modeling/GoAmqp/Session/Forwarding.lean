import GoAmqp.Session.DispositionRanges

set_option autoImplicit false

/-! # How often a disposition is passed on

A disposition may be for deliveries of several links, and the loop of the session's mux passes it on from
the round of each delivery that it finds: a link gets the frame once for each of its deliveries in the
range, not once. The mux of a sender knows nothing of the frames before. It answers each copy of an
unsettled disposition with a disposition that settles the whole range. -/

namespace GoAmqp

open Lib List

variable {s : Session} {body : PerformDisposition}

namespace Session

/-! ## The link of a delivery -/

/-- The attached link that the handle of a delivery leads to. -/
def linkOf (s : Session) (role : Role) (d : UInt32) : Option LinkID := (s.handlesFor role d).bind s.links

theorem linkOf_eq (s : Session) (role : Role) (d : UInt32) :
    s.linkOf role d = ((s.entry d).handle role).bind s.links := by
  rw [linkOf, handlesFor_eq]

theorem linkOf_congr {s' : Session} (hentry : s'.entry = s.entry) (hlinks : s'.links = s.links) :
    s'.linkOf = s.linkOf := by
  funext role d
  rw [linkOf_eq, linkOf_eq, hentry, hlinks]

theorem links_dispositionBody (s : Session) (body : PerformDisposition) (i : UInt32) :
    (s.dispositionBody body i).1.links = s.links :=
  congrArg Routes.links (routes_dispositionBody s body i)

/-- A round takes its delivery from the link. -/
theorem linkOf_dispositionBody (s : Session) (body : PerformDisposition) (i : UInt32) (role : Role)
    (d : UInt32) : (s.dispositionBody body i).1.linkOf role d =
      if role = body.role ∧ d = i then none else s.linkOf role d := by
  rw [linkOf_eq, linkOf_eq, entry_dispositionBody, links_dispositionBody, Function.update_apply]
  by_cases hd : d = i
  · subst hd
    by_cases hrole : role = body.role
    · rw [if_pos rfl, if_pos ⟨hrole, rfl⟩, hrole, dispose_handle]
      rfl
    · rw [if_pos rfl, if_neg fun h => hrole h.1, dispose_others body _ hrole]
  · rw [if_neg hd, if_neg fun h => hd h.2]

/-! ## What a link is handed -/

/-- The disposition that an event hands to the link. -/
def dispositionTo (l : LinkID) : MuxEvent → Option PerformDisposition
  | .toLink k (.disposition body) => if k = l then some body else none
  | _ => none

/-- The dispositions that the steps of a run hand to the link. -/
def received (l : LinkID) (trace : Trace MuxInput MuxEvent) : List PerformDisposition :=
  trace.reverse.flatMap fun step => step.2.filterMap (dispositionTo l)

theorem dispositionTo_forward (s : Session) (handle : UInt32) (body : PerformDisposition) (l : LinkID) :
    (s.forward handle (.disposition body)).filterMap (dispositionTo l) =
      if s.links handle = some l then [body] else [] := by
  unfold forward
  cases s.links handle with
  | none => rfl
  | some k => by_cases hk : k = l <;> simp [dispositionTo, hk]

theorem dispositionTo_confirm (s : Session) (body : PerformDisposition) (i : UInt32) (l : LinkID) :
    (s.confirm body i).2.filterMap (dispositionTo l) = [] := by
  unfold confirm
  split
  · split <;> rfl
  · rfl

/-- One round. -/
theorem dispositionTo_dispositionBody (s : Session) (body : PerformDisposition) (i : UInt32) (l : LinkID) :
    (s.dispositionBody body i).2.filterMap (dispositionTo l) =
      if s.linkOf body.role i = some l then [body] else [] := by
  unfold dispositionBody linkOf
  cases s.handlesFor body.role i with
  | none => rfl
  | some handle =>
    dsimp only [Option.bind_some]
    rw [filterMap_append, dispositionTo_confirm, dispositionTo_forward, nil_append]

theorem ne_round_of_own {l : MuxInput × List MuxEvent} (h : dispositionLoop.own l = false) : l.1 ≠ .round := by
  intro hi
  rw [show dispositionLoop.own l = true from isRound_iff.mpr hi] at h
  cases h

theorem dispositionLoop_sweeps_linkOf : dispositionLoop.Sweeps (fun s d role => s.linkOf role d)
    (fun body links => Function.update links body.role none) where
  other {s s' l x} h hstep hown := by
    obtain ⟨-, hentry, hlinks, -⟩ := step_between (dispositionAt_eq_some.mp h) hstep (ne_round_of_own hown)
    funext d role
    rw [linkOf_congr hentry hlinks]
  round {s s' l body i} h hstep hown hle := by
    have hle : i ≤ body.end_ := hle
    funext d role
    rw [(round_eq h hstep hown).1, dispositionRound, if_pos hle]
    refine (linkOf_dispositionBody s body i role d).trans ?_
    by_cases hd : d = i
    · subst hd
      by_cases hrole : role = body.role <;> simp [hrole]
    · simp [hd]
  leave {s s' l body i} h hstep hown hgt := by
    have hgt : ¬ i ≤ body.end_ := hgt
    rw [(round_eq h hstep hown).1, dispositionRound, if_neg hgt]
    rfl

theorem dispositionLoop_putsOut (l : LinkID) :
    dispositionLoop.PutsOut (fun s d role => s.linkOf role d)
      (fun step : MuxInput × List MuxEvent => step.2.filterMap (dispositionTo l))
      (fun body links => if links body.role = some l then [body] else []) where
  other h hstep hown := by
    rw [(step_between (dispositionAt_eq_some.mp h) hstep (ne_round_of_own hown)).2.2.2]
    rfl
  round {s s' step body i} h hstep hown hle := by
    have hle : i ≤ body.end_ := hle
    rw [(round_eq h hstep hown).2, dispositionRound, if_pos hle]
    exact dispositionTo_dispositionBody s body i l
  leave {s s' step body i} h hstep hown hgt := by
    have hgt : ¬ i ≤ body.end_ := hgt
    obtain ⟨hs', hevents⟩ := round_eq h hstep hown
    rw [hs', hevents, dispositionRound, if_neg hgt]
    exact ⟨rfl, rfl⟩

/-- The deliveries of the link that get a round. -/
def roundsFor (s : Session) (body : PerformDisposition) (l : LinkID) : List UInt32 :=
  (CountedLoop.visited body.first body.end_).filter fun d => s.linkOf body.role d = some l

theorem mem_roundsFor {l : LinkID} {d : UInt32} :
    d ∈ s.roundsFor body l ↔
      body.first ≤ body.end_ ∧ Within body.first body.end_ d ∧ s.linkOf body.role d = some l := by
  rw [roundsFor, mem_filter, CountedLoop.mem_visited, decide_eq_true_iff, and_assoc]

/-- **What the loop hands to a link**: the frame for each of its deliveries that gets a round. -/
theorem received_through {s' : Session} {trace : Trace MuxInput MuxEvent}
    (hs : s.phase = .disposition body body.first) (hlast : body.end_ ≠ maxSerial)
    (h : dispositionLoop.Through s trace s') (l : LinkID) :
    received l trace = (s.roundsFor body l).map fun _ => body := by
  have hputs := dispositionLoop_sweeps_linkOf.through (dispositionLoop_putsOut l) (dispositionLoop_position hs)
    hlast h
  refine hputs.trans ?_
  show ((CountedLoop.visited body.first body.end_).flatMap fun d =>
    if s.linkOf body.role d = some l then [body] else []) = _
  unfold roundsFor
  induction CountedLoop.visited body.first body.end_ with
  | nil => rfl
  | cons d ds ih =>
    rw [flatMap_cons, ih, filter_cons]
    by_cases hd : s.linkOf body.role d = some l <;> simp [hd]

/-! ## When a link is handed the frame once -/

/-- A delivery of the range is the link's. -/
def Concerns (s : Session) (body : PerformDisposition) (l : LinkID) : Prop :=
  ∃ d, Within body.first body.end_ d ∧ s.linkOf body.role d = some l

/-- The loop comes to its end, and then the frame has been handed once to each link that it concerns, and to
    no other. -/
structure ForwardsOnce (s : Session) (body : PerformDisposition) : Prop where
  ends : dispositionLoop.EndsWithin s ((body.end_ - body.first).toNat + 1)
  concerned : ∀ trace s', dispositionLoop.Through s trace s' → ∀ l, s.Concerns body l → received l trace = [body]
  others : ∀ trace s', dispositionLoop.Through s trace s' → ∀ l, ¬ s.Concerns body l → received l trace = []

theorem eq_singleton_of_nodup {α : Type} {xs : List α} {x : α} (hnodup : xs.Nodup) (hx : x ∈ xs)
    (honly : ∀ y ∈ xs, y = x) : xs = [x] := by
  obtain ⟨n, rfl⟩ : ∃ n, xs = replicate n x := ⟨_, eq_replicate_of_mem honly⟩
  have hle := nodup_replicate.mp hnodup
  have hpos := length_pos_of_mem hx
  rw [length_replicate] at hpos
  rw [show n = 1 by omega]
  rfl

theorem forwardsOnce_iff (hs : s.phase = .disposition body body.first) :
    s.ForwardsOnce body ↔ body.end_ ≠ maxSerial ∧ (∀ l, s.Concerns body l → body.first ≤ body.end_) ∧
      ∀ d d' l, Within body.first body.end_ d → Within body.first body.end_ d' →
        s.linkOf body.role d = some l → s.linkOf body.role d' = some l → d = d' := by
  have h₀ := dispositionLoop_position hs
  have hends : dispositionLoop.EndsWithin s ((body.end_ - body.first).toNat + 1) ↔ body.end_ ≠ maxSerial :=
    CountedLoop.endsWithin_iff h₀
  constructor
  · intro h
    have hlast := hends.mp h.ends
    obtain ⟨trace, s', hthrough⟩ := (dispositionLoop_putsOut 0).exists_through h₀ hlast
    -- the one delivery of the link for which the frame was handed on
    have hone : ∀ l, s.Concerns body l → ∃ e, s.roundsFor body l = [e] := by
      intro l hl
      have hreceived := h.concerned trace s' hthrough l hl
      rw [received_through hs hlast hthrough l] at hreceived
      rw [← length_eq_one_iff, ← length_map (fun _ => body), hreceived]
      rfl
    have hreach : ∀ l, s.Concerns body l → body.first ≤ body.end_ := by
      intro l hl
      obtain ⟨e, he⟩ := hone l hl
      exact (mem_roundsFor.mp (he ▸ mem_singleton_self e)).1
    refine ⟨hlast, hreach, fun d d' l hd hd' hl hl' => ?_⟩
    obtain ⟨e, he⟩ := hone l ⟨d, hd, hl⟩
    have hle := hreach l ⟨d, hd, hl⟩
    have hmem := mem_roundsFor.mpr ⟨hle, hd, hl⟩
    have hmem' := mem_roundsFor.mpr ⟨hle, hd', hl'⟩
    rw [he, mem_singleton] at hmem hmem'
    rw [hmem, hmem']
  · rintro ⟨hlast, hreach, hunique⟩
    refine ⟨hends.mpr hlast, fun trace s' hthrough l hl => ?_, fun trace s' hthrough l hl => ?_⟩
    · obtain ⟨d, hd, hown⟩ := hl
      have hmem := mem_roundsFor.mpr ⟨hreach l ⟨d, hd, hown⟩, hd, hown⟩
      have honly : ∀ e ∈ s.roundsFor body l, e = d := fun e he =>
        hunique e d l (mem_roundsFor.mp he).2.1 hd (mem_roundsFor.mp he).2.2 hown
      have hnodup : (s.roundsFor body l).Nodup := (CountedLoop.nodup_visited _ _).filter _
      rw [received_through hs hlast hthrough l, eq_singleton_of_nodup hnodup hmem honly]
      rfl
    · have hnone : s.roundsFor body l = [] := eq_nil_iff_forall_not_mem.mpr fun d hd =>
        hl ⟨d, (mem_roundsFor.mp hd).2⟩
      rw [received_through hs hlast hthrough l, hnone]
      rfl

/-- With handles that agree, the link of a delivery that has been sent is the link that sent it. -/
theorem RouteInv.linkOf_receiver {trace : Trace MuxInput MuxEvent} (h : RouteInv trace s)
    {role : Role} (hrole : role = Role.receiver) (d : UInt32) (l : LinkID) :
    s.linkOf role d = some l ↔
      s.handlesByDeliveryID d ≠ none ∧ sentBy d trace = some l ∧ ∃ handle, s.links handle = some l := by
  have hlink : s.linkOf role d = (s.handlesByDeliveryID d).bind s.links := by
    rw [hrole]
    rfl
  rw [hlink, Option.bind_eq_some_iff]
  constructor
  · rintro ⟨handle, htracked, hattached⟩
    obtain ⟨k, hsent, -, honly⟩ := h.tracked d handle htracked
    rw [honly l hattached]
    exact ⟨by simp [htracked], hsent, handle, honly l hattached ▸ hattached⟩
  · rintro ⟨htracked, hsent, handle, hattached⟩
    obtain ⟨handle', htracked'⟩ := Option.ne_none_iff_exists'.mp htracked
    obtain ⟨k, hk, hhandle, -⟩ := h.tracked d handle' htracked'
    obtain rfl : k = l := Option.some.inj (hk.symm.trans hsent)
    obtain rfl : handle' = handle := hhandle.symm.trans (h.own handle k hattached).1
    exact ⟨handle', htracked', hattached⟩

end Session

/-! ## What the sender answers -/

namespace SenderMux

/-- The disposition that a step of the mux is about. -/
def dispositionOf : SenderInput → Option PerformDisposition
  | .rx (.disposition fr) => some fr
  | _ => none

/-- The disposition that an event sends. -/
def answerOf : SenderEvent → Option PerformDisposition
  | .txFrame (.disposition fr) => some fr
  | _ => none

/-- The dispositions a run has handled. -/
def handed (trace : Trace SenderInput SenderEvent) : List PerformDisposition :=
  trace.reverse.flatMap fun step => (dispositionOf step.1).toList

/-- The dispositions a run has sent. -/
def answered (trace : Trace SenderInput SenderEvent) : List PerformDisposition :=
  trace.reverse.flatMap fun step => step.2.filterMap answerOf

variable {m m' m₀ : SenderMux} {i : SenderInput} {events : List SenderEvent}
  {trace : Trace SenderInput SenderEvent}

theorem answerDisposition_answers (fr : PerformDisposition) :
    ((answerDisposition fr).filterMap answerOf).length = if fr.settled then 0 else 1 := by
  unfold answerDisposition
  split <;> rfl

/-- One frame. -/
theorem muxHandleFrame_answers (m : SenderMux) (body : FrameBody) :
    ((m.muxHandleFrame body).2.filterMap answerOf).length ≤ (dispositionOf (.rx body)).toList.length ∧
    ((m.muxHandleFrame body).1.Running → (∀ fr, body = .disposition fr → fr.settled = false) →
      ((m.muxHandleFrame body).2.filterMap answerOf).length = (dispositionOf (.rx body)).toList.length) := by
  cases body with
  | disposition fr =>
    have hanswers := answerDisposition_answers fr
    have hkept : ((answerDisposition fr).filterMap answerOf).length ≤ 1 ∧
        (m.Running → (∀ fr', FrameBody.disposition fr = .disposition fr' → fr'.settled = false) →
          ((answerDisposition fr).filterMap answerOf).length = 1) := by
      refine ⟨by rw [hanswers]; split <;> omega, fun _ hsettled => ?_⟩
      rw [hanswers, hsettled fr rfl]
      rfl
    simp only [muxHandleFrame, handleDisposition]
    split
    · split
      · exact ⟨Nat.zero_le _, fun hrun => absurd hrun (not_running_returned m _)⟩
      · exact hkept
    · exact hkept
  | flow fr =>
    simp only [muxHandleFrame, handleFlow]
    split
    · exact ⟨Nat.le_refl _, fun _ _ => rfl⟩
    · dsimp only
      split <;> exact ⟨Nat.le_refl _, fun _ _ => rfl⟩
  | _ => exact ⟨Nat.le_refl _, fun _ _ => rfl⟩

/-- One step. -/
theorem step_answers (h : m.step i = some (m', events)) :
    m.Running ∧ (events.filterMap answerOf).length ≤ (dispositionOf i).toList.length ∧
    (m'.Running → (∀ fr ∈ (dispositionOf i).toList, fr.settled = false) →
      (events.filterMap answerOf).length = (dispositionOf i).toList.length) := by
  cases i with
  | rx body =>
    obtain ⟨hrun, hstep⟩ := step_rx h
    have hanswers := muxHandleFrame_answers m body
    rw [hstep] at hanswers
    refine ⟨hrun, hanswers.1, fun hrun' hsettled => hanswers.2 hrun' ?_⟩
    rintro fr rfl
    exact hsettled fr (mem_singleton_self fr)
  | transfer tr =>
    obtain ⟨hp, -, -, rfl⟩ := step_transfer h
    exact ⟨.inl hp, Nat.le_refl _, fun _ _ => rfl⟩
  | handOver =>
    obtain ⟨tr, hp, -, rfl⟩ := step_handOver h
    exact ⟨.inr ⟨tr, hp⟩, Nat.le_refl _, fun _ _ => rfl⟩
  | close | sessionDone =>
    unfold step at h
    cases hp : m.phase with
    | waiting =>
      rw [hp] at h
      cases h
      exact ⟨.inl hp, Nat.le_refl _, fun _ _ => rfl⟩
    | holding tr =>
      rw [hp] at h
      cases h
      exact ⟨.inr ⟨tr, hp⟩, Nat.le_refl _, fun _ _ => rfl⟩
    | returned err => rw [hp] at h; cases h
    | panicked => rw [hp] at h; cases h

/-- **A sender answers each copy of an unsettled disposition**, unless it makes the link end. -/
theorem answers_of_run (h : Run (Fires step) m₀ trace m) :
    (answered trace).length ≤ (handed trace).length ∧
    (m.Running → (∀ fr ∈ handed trace, fr.settled = false) → (answered trace).length = (handed trace).length) := by
  induction h with
  | start => exact ⟨Nat.le_refl _, fun _ _ => rfl⟩
  | @step trace m m' l _ hstep ih =>
    obtain ⟨hrun, hle, heq⟩ := step_answers hstep
    simp only [answered, handed, reverse_cons, flatMap_append, flatMap_singleton, length_append, mem_append] at ih ⊢
    refine ⟨Nat.add_le_add ih.1 hle, fun hrun' hsettled => ?_⟩
    rw [ih.2 hrun fun fr hfr => hsettled fr (.inl hfr), heq hrun' fun fr hfr => hsettled fr (.inr hfr)]

end SenderMux

open Session

/-- **When a disposition is passed on once.** At every state of a session with a disposition to handle: each
    attached link with a delivery in the range is handed the frame once, and no other link is, if and only
    if the range does not end with the largest delivery-id, does not pass it if there is such a link, and
    has no two deliveries of one link. If so, a sender answers the frame at most once. Otherwise it answers
    as often as it is handed the frame, unless its link ends. The links are those that have sent the
    deliveries, in runs in which the handles of both sides agree. -/
theorem disposition_forwarded_once_iff (s : Session) (body : PerformDisposition)
    (hs : s.phase = .disposition body body.first) :
    (s.ForwardsOnce body ↔ body.end_ ≠ maxSerial ∧ (∀ l, s.Concerns body l → body.first ≤ body.end_) ∧
      ∀ d d' l, Within body.first body.end_ d → Within body.first body.end_ d' →
        s.linkOf body.role d = some l → s.linkOf body.role d' = some l → d = d') ∧
    (∀ trace s' l m₀ answers m, dispositionLoop.Through s trace s' → Run (Fires SenderMux.step) m₀ answers m →
      SenderMux.handed answers = received l trace →
      (s.ForwardsOnce body → (SenderMux.answered answers).length ≤ 1) ∧
      (body.end_ ≠ maxSerial → body.settled = false → m.Running →
        (SenderMux.answered answers).length = (s.roundsFor body l).length)) ∧
    (∀ incomingWindow outgoingWindow handleMax remoteBegin trace, RunIf (Fires Session.step)
        (fun trace s l => FromSender trace s l.1 ∧ HandlesAgree trace s l.1)
        (.start incomingWindow outgoingWindow handleMax remoteBegin) trace s →
      body.role = Role.receiver → ∀ d l, s.linkOf body.role d = some l ↔
        s.handlesByDeliveryID d ≠ none ∧ sentBy d trace = some l ∧ ∃ handle, s.links handle = some l) := by
  refine ⟨forwardsOnce_iff hs, ?_, ?_⟩
  · intro trace s' l m₀ answers m hthrough hanswers hhanded
    obtain ⟨hle, heq⟩ := SenderMux.answers_of_run hanswers
    rw [hhanded] at hle heq
    refine ⟨fun honce => Nat.le_trans hle ?_, fun hlast hunsettled hrun => ?_⟩
    · by_cases hl : s.Concerns body l
      · rw [honce.concerned trace s' hthrough l hl]
        exact Nat.le_refl 1
      · rw [honce.others trace s' hthrough l hl]
        exact Nat.zero_le 1
    · rw [received_through hs hlast hthrough l] at heq
      rw [heq hrun fun fr hfr => ?_, length_map]
      obtain ⟨-, -, rfl⟩ := mem_map.mp hfr
      exact hunsettled
  · intro incomingWindow outgoingWindow handleMax remoteBegin trace hrun hrole
    have hinv : RouteInv trace s := hrun.invariant (.start incomingWindow outgoingWindow handleMax remoteBegin)
      fun _ _ _ _ h hstep hguard => h.step hstep hguard.1 hguard.2
    exact hinv.linkOf_receiver hrole

/-- A disposition for the deliveries 0 and 1, unsettled. -/
def unsettledPair : PerformDisposition := { unsettledFrame 0 with last := some 1 }

/-- Two links have sent one delivery each, and the disposition is for both. -/
theorem disposition_forwarded_once_two : ∃ trace s, Run (Fires Session.step) firstSession trace s ∧
    s.Concerns unsettledPair 0 ∧ s.Concerns unsettledPair 1 ∧ s.ForwardsOnce unsettledPair := by
  obtain ⟨trace, s, hrun, hphase, hzero, hone⟩ : ∃ trace s, Run (Fires Session.step) firstSession trace s ∧
      s.phase = .disposition unsettledPair 0 ∧
      s.linkOf Role.receiver 0 = some 0 ∧ s.linkOf Role.receiver 1 = some 1 :=
    ⟨_, _, .of_exec [.newLink ⟨ascii "a", Role.sender⟩ none, .rx (.attach (attachFrame "a" 0)),
      .newLink ⟨ascii "b", Role.sender⟩ none, .rx (.attach (attachFrame "b" 1)), .txTransfer 0 (firstTransfer 0 0),
      .txTransfer 1 (firstTransfer 1 1), .rx (.disposition unsettledPair)] .start rfl, rfl, rfl, rfl⟩
  have hpair : ∀ d, Within 0 1 d → d = 0 ∨ d = 1 := fun d hd => by
    rwa [show (1 : UInt32) = 0 + 1 from rfl, within_succ (by decide), within_singleton] at hd
  refine ⟨trace, s, hrun, ⟨0, by decide, hzero⟩, ⟨1, by decide, hone⟩,
    (disposition_forwarded_once_iff s unsettledPair hphase).1.mpr
      ⟨by decide, fun _ _ => by decide, fun d d' l hd hd' hl hl' => ?_⟩⟩
  -- the two deliveries belong to different links
  rcases hpair d hd with rfl | rfl <;> rcases hpair d' hd' with rfl | rfl
  · rfl
  · cases (hzero.symm.trans hl).trans (hl'.symm.trans hone)
  · cases (hzero.symm.trans hl').trans (hl.symm.trans hone)
  · rfl

/-- One sender has sent two deliveries. A disposition for both is handed to it twice, and answered twice. -/
theorem disposition_forwarded_twice : ∃ trace s rounds s' answers m,
    Run (Fires Session.step) firstSession trace s ∧ s.phase = .disposition unsettledPair 0 ∧
    dispositionLoop.Through s rounds s' ∧ received 0 rounds = [unsettledPair, unsettledPair] ∧
    Run (Fires SenderMux.step) (.start 0 none true) answers m ∧
    SenderMux.handed answers = received 0 rounds ∧ (SenderMux.answered answers).length = 2 := by
  have hguard : ∀ (trace : Trace MuxInput MuxEvent) (s : Session) (i : MuxInput) (events : List MuxEvent),
      s.dispositionAt.isSome = true → dispositionLoop.position s ≠ none :=
    fun _ _ _ _ h => Option.isSome_iff_ne_none.mp h
  exact ⟨_, _, _, _, _, _, .of_exec [.newLink ⟨ascii "a", Role.sender⟩ none, .rx (.attach (attachFrame "a" 0)),
    .txTransfer 0 (firstTransfer 0 0), .txTransfer 0 (firstTransfer 0 1), .rx (.disposition unsettledPair)]
    .start rfl, rfl, ⟨.of_execIf hguard [.round, .round, .round] .start rfl, rfl⟩, rfl,
    .of_exec [.rx (.disposition unsettledPair), .rx (.disposition unsettledPair)] .start rfl, rfl, rfl⟩

end GoAmqp
