import GoAmqp.Session.Links

set_option autoImplicit false

/-! # Where the session sends frames

Every step of the mux puts at most one frame on the channel of a link. `target` names the frame and the
link from the state before the step, and `Moves` says what happens to the tables that lead to links:
an attach enters the link under the peer's handle, a detach takes it out, and nothing else in the mux
touches them. -/

namespace GoAmqp

open Lib Function

def FrameBody.isDetach : FrameBody → Bool
  | .detach _ => true
  | _ => false

/-- The link and the frame, if the event sends one to a link. -/
def MuxEvent.toLink? : MuxEvent → Option (LinkID × FrameBody)
  | .toLink l body => some (l, body)
  | _ => none

/-- The frames for links among the events of a step. -/
def toLinks (events : List MuxEvent) : List (LinkID × FrameBody) := events.filterMap MuxEvent.toLink?

/-- The steps that `mux` takes itself; the others are accesses of links to the shared tables. -/
def MuxInput.ofMux : MuxInput → Bool
  | .newLink .. | .setReceiverSettleMode .. | .deallocateHandle .. => false
  | _ => true

/-- `s.done` is closed. -/
def MuxPhase.over : MuxPhase → Bool
  | .returned _ => true
  | _ => false

namespace Session

/-! ## The addressee of a frame -/

/-- The link a frame of the peer is passed on to; a disposition is passed on in rounds. -/
def addressee (s : Session) : FrameBody → Option LinkID
  | .attach body => s.linksByKey ⟨body.name, !body.role⟩
  | .flow body => if body.nextIncomingID.isSome then body.handle.bind s.links else none
  | .transfer body => s.links body.handle
  | .detach body => s.links body.handle
  | _ => none

/-- The frame that a step puts on the channel of a link. -/
def target (s : Session) : MuxInput → Option (LinkID × FrameBody)
  | .rx body =>
    match s.phase with
    | .select => (s.addressee body).map (·, body)
    | _ => none
  | .round =>
    match s.phase with
    | .disposition body deliveryID =>
      if deliveryID ≤ body.end_ then
        ((s.handlesFor body.role deliveryID).bind s.links).map (·, .disposition body)
      else none
    | _ => none
  | _ => none

/-! ## The tables -/

/-- The links, the tables that lead to them, and where the mux stands. -/
structure Routes where
  links : UInt32 → Option LinkID
  link : LinkID → Link
  linksByKey : LinkKey → Option LinkID
  linkCount : Nat
  phase : MuxPhase

/-- What the routing of frames depends on. -/
def routes (s : Session) : Routes := ⟨s.links, s.link, s.linksByKey, s.linkCount, s.phase⟩

section Frame

variable (s : Session)

theorem routes_dispositionBody (body : PerformDisposition) (deliveryID : UInt32) :
    (s.dispositionBody body deliveryID).1.routes = s.routes := by
  rw [dispositionBody_eq]
  rfl

theorem routes_rxTransfer (body : PerformTransfer) : (s.rxTransfer body).1.routes = s.routes := by
  rw [rxTransfer_eq]
  rfl

theorem routes_txTransfer (fr : PerformTransfer) : (s.txTransfer fr).1.routes = s.routes := by
  rw [txTransfer_eq]
  rfl

end Frame

/-- What a step of the mux does to the tables, by the frame it passes on. -/
inductive Moves (r : Routes) : Option (LinkID × FrameBody) → Routes → Prop
  | quiet (phase : MuxPhase) : Moves r none { r with phase := phase }
  | attach (l : LinkID) (body : PerformAttach) : r.phase = .select →
      r.linksByKey ⟨body.name, !body.role⟩ = some l →
      Moves r (some (l, .attach body)) { r with
        link := update r.link l { r.link l with remoteHandle := body.handle }
        links := update r.links body.handle (some l) }
  | detach (l : LinkID) (body : PerformDetach) : r.phase = .select → r.links body.handle = some l →
      Moves r (some (l, .detach body)) { r with
        links := update r.links (r.link l).remoteHandle none }
  | passes (h : UInt32) (l : LinkID) (body : FrameBody) (phase : MuxPhase) : r.links h = some l →
      attach? body = none → body.isDetach = false → phase.over = false →
      Moves r (some (l, body)) { r with phase := phase }

section Moves

variable {r r' : Routes}

theorem Moves.linksByKey {x : Option (LinkID × FrameBody)} (h : Moves r x r') : r'.linksByKey = r.linksByKey := by
  cases h <;> rfl

theorem Moves.linkCount {x : Option (LinkID × FrameBody)} (h : Moves r x r') : r'.linkCount = r.linkCount := by
  cases h <;> rfl

theorem Moves.of_none (h : Moves r none r') : r'.links = r.links ∧ r'.link = r.link := by
  cases h
  exact ⟨rfl, rfl⟩

theorem Moves.of_some {x : LinkID × FrameBody} (h : Moves r (some x) r') : r'.phase.over = false := by
  cases h with
  | attach l body hp hl => exact congrArg MuxPhase.over hp
  | detach l body hp hl => exact congrArg MuxPhase.over hp
  | passes hd l body phase hl hattach hdetach hphase => exact hphase

end Moves

/-- What a step passes on is its target, and the tables move with it. -/
structure Forwards (s : Session) (i : MuxInput) (events : List MuxEvent) (s' : Session) : Prop where
  sent : toLinks events = (s.target i).toList
  moves : Moves s.routes (s.target i) s'.routes

variable {s s' : Session}

variable {i : MuxInput} {events : List MuxEvent}

theorem Forwards.quiet (phase : MuxPhase) (htarget : s.target i = none) (hsent : toLinks events = [])
    (hroutes : s'.routes = { s.routes with phase := phase }) : Forwards s i events s' := by
  refine ⟨by rw [htarget, hsent]; rfl, ?_⟩
  rw [htarget, hroutes]
  exact .quiet phase

theorem toLinks_forward (h : UInt32) (body : FrameBody) :
    toLinks (s.forward h body) = ((s.links h).map (·, body)).toList := by
  unfold forward
  split
  · next l hl => rw [hl]; rfl
  · next hl => rw [hl]; rfl

theorem toLinks_confirm (body : PerformDisposition) (deliveryID : UInt32) :
    toLinks (s.confirm body deliveryID).2 = [] := by
  unfold confirm
  split
  · split <;> rfl
  · rfl

/-- A frame for the link under a handle, and a step that leaves the tables alone. -/
theorem Forwards.passes (h : Option UInt32) (body : FrameBody) (phase : MuxPhase)
    (htarget : s.target i = (h.bind s.links).map (·, body))
    (hsent : toLinks events = ((h.bind s.links).map (·, body)).toList)
    (hroutes : s'.routes = { s.routes with phase := phase }) (hattach : attach? body = none)
    (hdetach : body.isDetach = false) (hphase : phase.over = false) : Forwards s i events s' := by
  refine ⟨by rw [htarget, hsent], ?_⟩
  rw [htarget, hroutes]
  cases hl : h.bind s.links with
  | none => exact .quiet phase
  | some l =>
    obtain ⟨handle, -, hl⟩ := Option.bind_eq_some_iff.mp hl
    exact .passes handle l body phase hl hattach hdetach hphase

theorem forwards_rxFlow (hp : s.phase = .select) (body : PerformFlow) :
    Forwards s (.rx (.flow body)) (s.rxFlow body).2 (s.rxFlow body).1 := by
  unfold rxFlow
  cases hid : body.nextIncomingID with
  | none => exact .quiet _ (by simp [target, hp, addressee, hid]) rfl rfl
  | some nextIncomingID =>
    cases hh : body.handle with
    | none =>
      refine .quiet s.phase (by simp [target, hp, addressee, hh]) ?_ rfl
      dsimp only
      split <;> rfl
    | some handle =>
      refine .passes (some handle) (.flow body) s.phase ?_ ?_ rfl rfl rfl (by rw [hp]; rfl)
      · simp [target, hp, addressee, hid, hh]
      · rw [toLinks_forward]; rfl

theorem forwards_rxAttach (hp : s.phase = .select) (body : PerformAttach) :
    Forwards s (.rx (.attach body)) (s.rxAttach body).2 (s.rxAttach body).1 := by
  unfold rxAttach
  split
  · next hnone => exact .quiet _ (by simp [target, hp, addressee, hnone]) rfl rfl
  · next l hl =>
    have htarget : s.target (.rx (.attach body)) = some (l, .attach body) := by
      simp [target, hp, addressee, hl]
    refine ⟨by rw [htarget]; rfl, ?_⟩
    rw [htarget]
    exact .attach (r := s.routes) l body hp hl

theorem forwards_rxTransfer (hp : s.phase = .select) (body : PerformTransfer) :
    Forwards s (.rx (.transfer body)) (s.rxTransfer body).2 (s.rxTransfer body).1 := by
  have htarget : s.target (.rx (.transfer body)) = (s.links body.handle).map (·, .transfer body) := by
    simp only [target, hp, addressee]
  have hwindow : ∀ t : Session, toLinks t.updateWindow.2 = [] := by
    intro t
    unfold updateWindow
    split <;> rfl
  refine .passes (some body.handle) (.transfer body) s.phase htarget ?_ (routes_rxTransfer s body) rfl rfl
    (by rw [hp]; rfl)
  unfold rxTransfer
  rw [Option.bind_some]
  split
  · next hnone => rw [hnone]; rfl
  · next l hl =>
    rw [hl]
    exact congrArg ((l, FrameBody.transfer body) :: ·) (hwindow _)

theorem forwards_rxDetach (hp : s.phase = .select) (body : PerformDetach) :
    Forwards s (.rx (.detach body)) (s.rxDetach body).2 (s.rxDetach body).1 := by
  unfold rxDetach
  split
  · next hnone => exact .quiet s.phase (by simp [target, hp, addressee, hnone]) rfl rfl
  · next l hl =>
    have htarget : s.target (.rx (.detach body)) = some (l, .detach body) := by
      simp [target, hp, addressee, hl]
    refine ⟨by rw [htarget]; rfl, ?_⟩
    rw [htarget]
    exact .detach (r := s.routes) l body hp hl

theorem forwards_rx (hp : s.phase = .select) (body : FrameBody) :
    Forwards s (.rx body) (s.rx body).2 (s.rx body).1 := by
  cases body with
  | flow body => exact forwards_rxFlow hp body
  | attach body => exact forwards_rxAttach hp body
  | transfer body => exact forwards_rxTransfer hp body
  | detach body => exact forwards_rxDetach hp body
  | disposition body => exact .quiet _ (by simp [target, hp, addressee]) rfl rfl
  | end_ body => exact .quiet _ (by simp [target, hp, addressee]) rfl rfl
  | _ => exact .quiet s.phase (by simp [target, hp, addressee]) rfl rfl

theorem forwards_dispositionRound {body : PerformDisposition} {deliveryID : UInt32}
    (hp : s.phase = .disposition body deliveryID) :
    Forwards s .round (s.dispositionRound body deliveryID).2 (s.dispositionRound body deliveryID).1 := by
  unfold dispositionRound
  split
  · next hle =>
    refine .passes (s.handlesFor body.role deliveryID) (.disposition body)
      (.disposition body (deliveryID + 1)) ?_ ?_ ?_ rfl rfl rfl
    · simp [target, hp, hle]
    · unfold dispositionBody
      cases hh : s.handlesFor body.role deliveryID with
      | none => rfl
      | some handle =>
        rw [Option.bind_some, ← toLinks_forward]
        exact (List.filterMap_append ..).trans (by rw [← toLinks, toLinks_confirm]; rfl)
    · have hroutes := routes_dispositionBody s body deliveryID
      exact congrArg (fun r : Routes => { r with phase := .disposition body (deliveryID + 1) }) hroutes
  · next hgt => exact .quiet .select (by simp [target, hp, hgt]) rfl rfl

/-- **A step of the mux** passes its target on, and moves the tables accordingly. -/
theorem step_forwards (hi : i.ofMux = true) (h : s.step i = some (s', events)) : Forwards s i events s' := by
  cases step_cases h with
  | connDone => exact .quiet _ rfl rfl rfl
  | close hp => exact .quiet _ rfl rfl rfl
  | rx body hp => exact forwards_rx hp body
  | rxClosing body hp =>
    have htarget : s.target (.rx body) = none := by simp only [target, hp]
    unfold rxClosing
    split
    · exact .quiet _ htarget rfl rfl
    · exact .quiet s.phase htarget rfl rfl
  | round body deliveryID hp => exact forwards_dispositionRound hp
  | txTransfer l fr hp hen => exact .quiet s.phase rfl rfl (routes_txTransfer s fr)
  | tx body hp =>
    unfold tx
    split
    · exact .quiet s.phase rfl rfl rfl
    · exact .quiet _ rfl rfl rfl
    · exact .quiet s.phase rfl rfl rfl
  | newLink key mode => cases hi
  | setReceiverSettleMode l mode => cases hi
  | deallocateHandle l hlive => cases hi

/-! ## The end of the mux -/

theorem newLink_phase (s : Session) (key : LinkKey) (mode : Option ReceiverSettleMode) :
    (s.newLink key mode).phase = s.phase := by
  rw [newLink_eq]

/-- The frame is no protocol error: a flow says what the peer expects next, and an attach is for a link of the
    session. -/
def tolerates (s : Session) : FrameBody → Bool
  | .flow body => body.nextIncomingID.isSome
  | .attach body => (s.linksByKey ⟨body.name, !body.role⟩).isSome
  | _ => true

/-- `Session.mux` ends the session only for an end of the peer, and for a protocol error. -/
theorem rx_over {body : FrameBody} (hp : s.phase = .select) (hbody : s.tolerates body = true)
    (hend : ∀ e, body ≠ .end_ e) : (s.rx body).1.phase.over = false := by
  have hsame : ∀ t : Session, t.routes = s.routes → t.phase.over = false := by
    intro t ht
    have hphase : t.phase = s.phase := congrArg Routes.phase ht
    rw [hphase, hp]
    rfl
  cases body with
  | flow body =>
    obtain ⟨nextIncomingID, hid⟩ := Option.isSome_iff_exists.mp hbody
    simp only [rx, rxFlow, hid]
    split <;> exact hsame _ rfl
  | attach body =>
    obtain ⟨l, hl⟩ := Option.isSome_iff_exists.mp hbody
    simp only [rx, rxAttach, hl, hp]
    rfl
  | transfer body => exact hsame _ (routes_rxTransfer s body)
  | detach body =>
    simp only [rx, rxDetach]
    split <;> simp only [hp] <;> rfl
  | end_ body => exact absurd rfl (hend body)
  | disposition body => rfl
  | _ => exact hsame _ rfl

/-- No other case of the `select` does, apart from the end of the connection. -/
theorem step_open (h : s.step i = some (s', events)) (hrx : ∀ body, i ≠ .rx body) (hdone : i ≠ .connDone)
    (hopen : s.phase.over = false) : s'.phase.over = false := by
  cases step_cases h with
  | connDone => exact absurd rfl hdone
  | close => rfl
  | rx body => exact absurd rfl (hrx body)
  | rxClosing body => exact absurd rfl (hrx body)
  | round body deliveryID =>
    unfold dispositionRound
    split <;> rfl
  | txTransfer l fr =>
    have hphase : (s.txTransfer fr).1.phase = s.phase := congrArg Routes.phase (routes_txTransfer s fr)
    rw [hphase]
    exact hopen
  | tx body =>
    unfold tx
    split
    · exact hopen
    · rfl
    · exact hopen
  | newLink key mode =>
    rw [newLink_phase]
    exact hopen
  | setReceiverSettleMode l mode => exact hopen
  | deallocateHandle l hlive => exact hopen

end Session

end GoAmqp
