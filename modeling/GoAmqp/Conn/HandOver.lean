import GoAmqp.Conn.Sessions
import GoAmqp.Lib.Transition

set_option autoImplicit false

/-! # Frames for sessions that are gone

`connReader` waits until a session takes its frame, and nobody takes it if all goroutines of the session
have returned. A session leaves the table of `connReader` only with an end of the peer, but its goroutines
can return without one: the mux after a protocol error of the peer, and the clean-up of `begin` with the
frame that it takes for the answer to its end, which is the begin of the peer. -/

namespace GoAmqp

open Lib Function

/-! ## Sessions that serve their channel -/

namespace SessionPhase

/-- `begin` has not had its answer. -/
def awaits : SessionPhase → Bool
  | .beginning | .waiting => true
  | _ => false

/-- `begin` is waiting for its answer, or the mux is running. -/
def serves : SessionPhase → Bool
  | .ending | .cleaning => false
  | phase => phase.receives

theorem receives_of_serves {phase : SessionPhase} (h : phase.serves = true) : phase.receives = true := by
  cases phase with
  | ending => cases h
  | cleaning => cases h
  | _ => exact h

end SessionPhase

variable {r : SessionPhase × List FrameBody} {body : FrameBody}

namespace ConnSession

/-- As long as the connection lives, a session stops serving its channel only when the context of `begin`
    expires, or with a frame. -/
theorem step_serves {cs : ConnSession} {i : SessionInput} (h : cs.step false i = some r) (hexpire : i ≠ .expire)
    (hserves : cs.phase.serves = true) : r.1.serves = true ∧ (r.1.awaits = true → cs.phase.awaits = true) := by
  have hstep := step_cases h
  generalize r.1 = phase at hstep
  cases hstep with
  | sendBegin hp => exact ⟨rfl, fun _ => by rw [hp]; rfl⟩
  | expire hp => exact absurd rfl hexpire
  | sendEnd hp => rw [hp] at hserves; cases hserves
  | timeout hp => rw [hp] at hserves; cases hserves
  | connDone _ hdone => cases hdone
  | startMux body hp =>
    rw [hp] at hserves
    cases body with
    | begin_ remoteBegin => exact ⟨rfl, fun h => by cases h⟩
    | _ => cases hserves
  | mux m m' i events hp hrx hdone hstep =>
    rw [hp] at hserves
    have hopen : m.phase.over = false := by simpa [SessionPhase.serves, SessionPhase.receives] using hserves
    refine ⟨?_, fun h => by cases h⟩
    simp only [SessionPhase.serves, SessionPhase.receives, Session.step_open hstep hrx hdone hopen, Bool.not_false]

/-- A frame that is no protocol error leaves the mux running, if it is not an end. -/
theorem receive_serves {cs : ConnSession} (h : cs.receive body = some r) (hserves : cs.phase.serves = true)
    (hbegin : cs.phase.awaits = true → ∃ b, body = .begin_ b) (hend : ∀ e, body ≠ .end_ e)
    (htolerated : ∀ m, cs.phase = .running m → m.phase = .select → m.tolerates body = true) :
    r.1.serves = true ∧ r.1.awaits = false := by
  have hreceived := receive_cases h
  generalize r.1 = phase at hreceived
  cases hreceived with
  | answered hp =>
    obtain ⟨b, rfl⟩ := hbegin (by rw [hp]; rfl)
    exact ⟨rfl, rfl⟩
  | cleaned hp => rw [hp] at hserves; cases hserves
  | mux m m' events hp hstep =>
    refine ⟨?_, rfl⟩
    have hopen : m'.phase.over = false := by
      cases Session.step_cases hstep with
      | rx _ hselect => exact Session.rx_over hselect (htolerated m hp hselect) hend
      | rxClosing _ hclosing =>
        unfold Session.rxClosing
        split
        · next e => exact absurd rfl (hend e)
        · rw [hclosing]; rfl
    simp only [SessionPhase.serves, SessionPhase.receives, hopen, Bool.not_false]

end ConnSession

namespace Connection

/-! ## The invariant -/

/-- What the peer and the callers keep to. A begin of the peer is for a session whose call of `begin` still
    waits for it, the context of that call does not expire while `connReader` holds the begin, and no frame is
    a protocol error. -/
structure Timely (c : Connection) (i : ConnInput) : Prop where
  begins : ∀ channel body remoteChannel s, i = .read channel (.begin_ body) →
    body.remoteChannel = some remoteChannel → c.sessionsByChannel remoteChannel = some s →
    (c.session s).phase.awaits = true
  expires : ∀ s body, i = .session s .expire → c.reader ≠ .handing s body
  tolerated : ∀ s body m, i = .handOver → c.reader = .handing s body → (c.session s).phase = .running m →
    m.phase = .select → m.tolerates body = true

/-- The sessions in the table of `connReader`, and the one it holds a frame for, serve their channels. -/
structure Served (c : Connection) : Prop where
  registered : ∀ channel s, c.sessionsByChannel channel = some s → s < c.sessionCount
  routed : ∀ channel s, c.sessionsByRemoteChannel channel = some s → s < c.sessionCount ∧
    (c.session s).phase.serves = true ∧
    ((c.session s).phase.awaits = true → ∃ body, c.reader = .handing s body)
  unique : ∀ channel channel' s, c.sessionsByRemoteChannel channel = some s →
    c.sessionsByRemoteChannel channel' = some s → channel = channel'
  held : ∀ s body, c.reader = .handing s body → s < c.sessionCount ∧ (c.session s).phase.serves = true ∧
    ((c.session s).phase.awaits = true → ∃ b, body = .begin_ b) ∧
    (∀ e, body = .end_ e → ∀ channel, c.sessionsByRemoteChannel channel ≠ some s)

/-- `connReader` has returned, or all is well. -/
def Inv (c : Connection) : Prop := (∃ err, c.reader = .exited err) ∨ (c.done = false ∧ Served c)

variable {c : Connection} {s : SessionID}

theorem Served.start (channelMax : UInt16) : Served (.start channelMax) := by
  refine ⟨fun _ _ h => ?_, fun _ _ h => ?_, fun _ _ _ h => ?_, fun _ _ h => ?_⟩ <;> cases h

theorem setPhase_self (phase : SessionPhase) : ((c.setPhase s phase).session s).phase = phase := by
  simp only [setPhase, update_self]

theorem setPhase_of_ne {k : SessionID} (phase : SessionPhase) (hk : k ≠ s) :
    (c.setPhase s phase).session k = c.session k := by
  simp only [setPhase, update_of_ne hk]

/-- A session moves on. -/
theorem Served.setPhase (h : Served c) {phase : SessionPhase}
    (hphase : (∃ channel, c.sessionsByRemoteChannel channel = some s) ∨ (∃ body, c.reader = .handing s body) →
      phase.serves = true ∧ (phase.awaits = true → (c.session s).phase.awaits = true)) :
    Served (c.setPhase s phase) := by
  refine ⟨h.registered, fun channel k hk => ?_, h.unique, fun k body hk => ?_⟩
  · obtain ⟨hlt, hserves, hawaits⟩ := h.routed channel k hk
    by_cases heq : k = s
    · subst heq
      obtain ⟨hs, ha⟩ := hphase (.inl ⟨channel, hk⟩)
      rw [setPhase_self]
      exact ⟨hlt, hs, fun haw => hawaits (ha haw)⟩
    · rw [setPhase_of_ne phase heq]
      exact ⟨hlt, hserves, hawaits⟩
  · obtain ⟨hlt, hserves, hbegin, hend⟩ := h.held k body hk
    by_cases heq : k = s
    · subst heq
      obtain ⟨hs, ha⟩ := hphase (.inr ⟨body, hk⟩)
      rw [setPhase_self]
      exact ⟨hlt, hs, fun haw => hbegin (ha haw), hend⟩
    · rw [setPhase_of_ne phase heq]
      exact ⟨hlt, hserves, hbegin, hend⟩

theorem addSession_session {k : SessionID} (hk : k < c.sessionCount) (channel : UInt32) (channels : Bitmap)
    (opts : Option SessionOptions) : (c.addSession channel channels opts).session k = c.session k :=
  update_of_ne (Nat.ne_of_lt hk) ..

theorem Served.addSession (h : Served c) (channel : UInt32) (channels : Bitmap) (opts : Option SessionOptions) :
    Served (c.addSession channel channels opts) := by
  refine ⟨fun ch k hk => ?_, fun ch k hk => ?_, h.unique, fun k body hk => ?_⟩
  · simp only [Connection.addSession, update_apply] at hk
    split at hk
    · cases hk
      exact Nat.lt_succ_self _
    · exact Nat.lt_succ_of_lt (h.registered ch k hk)
  · obtain ⟨hlt, hrest⟩ := h.routed ch k hk
    rw [addSession_session hlt]
    exact ⟨Nat.lt_succ_of_lt hlt, hrest⟩
  · obtain ⟨hlt, hrest⟩ := h.held k body hk
    rw [addSession_session hlt]
    exact ⟨Nat.lt_succ_of_lt hlt, hrest⟩

theorem Served.deleteSession (h : Served c) (hdeletes : deletes (c.session s).phase = true) :
    Served (c.deleteSession s) := by
  -- nobody has a frame for a session that is about to be deleted
  have hnot : (c.session s).phase.serves = false := by
    cases hp : (c.session s).phase with
    | running m =>
      rw [hp] at hdeletes
      have hover : m.phase.over = true := hdeletes
      simp [SessionPhase.serves, SessionPhase.receives, hover]
    | deleting => rfl
    | _ => rw [hp] at hdeletes; cases hdeletes
  have hmoved : Served (c.setPhase s .deleted) := by
    refine h.setPhase fun hfound => ?_
    rcases hfound with ⟨channel, hs⟩ | ⟨body, hs⟩
    · rw [(h.routed channel s hs).2.1] at hnot
      cases hnot
    · rw [(h.held s body hs).2.1] at hnot
      cases hnot
  exact ⟨fun ch k hk => hmoved.registered ch k (Session.update_none_eq_some hk).2, hmoved.routed, hmoved.unique,
    hmoved.held⟩

section Read

variable {channel : UInt16}

/-- While `connReader` reads, no session in its table waits for its begin. -/
theorem Served.answered (h : Served c) (hreader : c.reader = .reading)
    (hs : c.sessionsByRemoteChannel channel = some s) : (c.session s).phase.awaits = false := by
  rw [← Bool.not_eq_true]
  intro hawaits
  obtain ⟨body, hheld⟩ := (h.routed channel s hs).2.2 hawaits
  rw [hreader] at hheld
  cases hheld

theorem Served.began (h : Served c) (hreader : c.reader = .reading) {remoteChannel : UInt16} {body : PerformBegin}
    (hs : c.sessionsByChannel remoteChannel = some s) (hawaits : (c.session s).phase.awaits = true) : Served { c with
      reader := .handing s (.begin_ body)
      sessionsByRemoteChannel := update c.sessionsByRemoteChannel channel (some s) } := by
  have hserves : (c.session s).phase.serves = true := by
    cases hp : (c.session s).phase with
    | beginning => rfl
    | waiting => rfl
    | _ => rw [hp] at hawaits; cases hawaits
  have hlt := h.registered remoteChannel s hs
  -- the session has no other entry, as it waits for its begin
  have hnew : ∀ ch k, update c.sessionsByRemoteChannel channel (some s) ch = some k →
      (ch = channel ∧ k = s) ∨ (k ≠ s ∧ c.sessionsByRemoteChannel ch = some k) := by
    intro ch k hk
    by_cases hch : ch = channel
    · rw [hch, update_self] at hk
      exact .inl ⟨hch, (Option.some.inj hk).symm⟩
    · rw [update_of_ne hch] at hk
      refine .inr ⟨fun heq => ?_, hk⟩
      rw [heq] at hk
      rw [h.answered hreader hk] at hawaits
      cases hawaits
  refine ⟨h.registered, fun ch k hk => ?_, fun ch ch' k hk hk' => ?_, fun k fr hk => ?_⟩
  · rcases hnew ch k hk with ⟨-, rfl⟩ | ⟨-, hold⟩
    · exact ⟨hlt, hserves, fun _ => ⟨_, rfl⟩⟩
    · obtain ⟨hlt', hserves', -⟩ := h.routed ch k hold
      refine ⟨hlt', hserves', fun haw => ?_⟩
      have hno := h.answered hreader hold
      exact absurd haw (by rw [hno]; decide)
  · rcases hnew ch k hk with ⟨rfl, rfl⟩ | ⟨hne, hold⟩ <;> rcases hnew ch' k hk' with ⟨rfl, heq⟩ | ⟨hne', hold'⟩
    · rfl
    · exact absurd rfl hne'
    · exact absurd heq hne
    · exact h.unique ch ch' k hold hold'
  · cases hk
    exact ⟨hlt, hserves, fun _ => ⟨body, rfl⟩, fun e he => by cases he⟩

theorem Served.ended (h : Served c) (hreader : c.reader = .reading) {body : PerformEnd}
    (hs : c.sessionsByRemoteChannel channel = some s) : Served { c with
      reader := .handing s (.end_ body)
      sessionsByRemoteChannel := update c.sessionsByRemoteChannel channel none } := by
  have hold : ∀ {ch k}, update c.sessionsByRemoteChannel channel none ch = some k →
      ch ≠ channel ∧ c.sessionsByRemoteChannel ch = some k := Session.update_none_eq_some
  refine ⟨h.registered, fun ch k hk => ?_, fun ch ch' k hk hk' => ?_, fun k fr hk => ?_⟩
  · obtain ⟨hlt, hserves, -⟩ := h.routed ch k (hold hk).2
    refine ⟨hlt, hserves, fun haw => ?_⟩
    exact absurd haw (by rw [h.answered hreader (hold hk).2]; decide)
  · exact h.unique ch ch' k (hold hk).2 (hold hk').2
  · cases hk
    obtain ⟨hlt, hserves, -⟩ := h.routed channel s hs
    refine ⟨hlt, hserves, fun haw => ?_, fun e _ ch hch => ?_⟩
    · exact absurd haw (by rw [h.answered hreader hs]; decide)
    · exact (hold hch).1 (h.unique ch channel s (hold hch).2 hs)

theorem Served.passed (h : Served c) (hreader : c.reader = .reading) (hend : ∀ e, body ≠ .end_ e)
    (hs : c.sessionsByRemoteChannel channel = some s) : Served { c with reader := .handing s body } := by
  refine ⟨h.registered, fun ch k hk => ?_, h.unique, fun k fr hk => ?_⟩
  · obtain ⟨hlt, hserves, -⟩ := h.routed ch k hk
    refine ⟨hlt, hserves, fun haw => ?_⟩
    exact absurd haw (by rw [h.answered hreader hk]; decide)
  · cases hk
    obtain ⟨hlt, hserves, -⟩ := h.routed channel s hs
    refine ⟨hlt, hserves, fun haw => ?_, fun e he => absurd he (hend e)⟩
    exact absurd haw (by rw [h.answered hreader hs]; decide)

end Read

/-- The session takes the frame, and `connReader` goes on. -/
theorem Served.handOver (h : Served c) (hreader : c.reader = .handing s body)
    (hreceive : (c.session s).receive body = some r)
    (htolerated : ∀ m, (c.session s).phase = .running m → m.phase = .select → m.tolerates body = true) :
    Served ({ c with reader := .reading }.setPhase s r.1) := by
  obtain ⟨hlt, hserves, hbegin, hend⟩ := h.held s body hreader
  refine ⟨h.registered, fun ch k hk => ?_, h.unique, fun k fr hk => by cases hk⟩
  have hk' : c.sessionsByRemoteChannel ch = some k := hk
  by_cases heq : k = s
  · subst heq
    have hnot : ∀ e, body ≠ .end_ e := fun e he => hend e he ch hk'
    obtain ⟨hr, ha⟩ := ConnSession.receive_serves hreceive hserves hbegin hnot htolerated
    rw [setPhase_self]
    exact ⟨hlt, hr, fun haw => absurd haw (by rw [ha]; decide)⟩
  · obtain ⟨hlt', hserves', haw⟩ := h.routed ch k hk'
    rw [setPhase_of_ne r.1 heq]
    refine ⟨hlt', hserves', fun hawaits => ?_⟩
    obtain ⟨fr, hheld⟩ := haw hawaits
    rw [hreader] at hheld
    cases hheld
    exact absurd rfl heq

/-- **One step** keeps the invariant. -/
theorem Inv.step {c' : Connection} {i : ConnInput} {events : List ConnEvent} (h : Inv c)
    (hstep : c.step i = some (c', events)) (hguard : Timely c i) : Inv c' := by
  have hcases := step_cases hstep
  rcases h with ⟨err, hexited⟩ | ⟨hdone, h⟩
  · -- `connReader` does not come back
    left
    cases hcases with
    | began _ _ _ _ hreader => rw [hexited] at hreader; cases hreader
    | ended _ _ _ hreader => rw [hexited] at hreader; cases hreader
    | passed _ _ _ hreader => rw [hexited] at hreader; cases hreader
    | handOver _ _ _ hreader => rw [hexited] at hreader; cases hreader
    | exited _ err => exact ⟨err, rfl⟩
    | _ => exact ⟨err, hexited⟩
  · cases hcases with
    | refused opts text => exact .inr ⟨hdone, h⟩
    | opened opts channel channels hnext => exact .inr ⟨hdone, h.addSession channel channels opts⟩
    | session s i r hr =>
      refine .inr ⟨hdone, h.setPhase fun hfound => ?_⟩
      rw [hdone] at hr
      have hserves : (c.session s).phase.serves = true := by
        rcases hfound with ⟨channel, hs⟩ | ⟨body, hs⟩
        · exact (h.routed channel s hs).2.1
        · exact (h.held s body hs).2.1
      refine ConnSession.step_serves hr ?_ hserves
      -- the context of `begin` does not expire while its answer is there
      rintro rfl
      rcases hfound with ⟨channel, hs⟩ | ⟨body, hs⟩
      · have hawaits : (c.session s).phase.awaits = true := by
          have hexpire := ConnSession.step_cases hr
          generalize r.1 = phase at hexpire
          cases hexpire with
          | expire hp => rw [hp]; rfl
        obtain ⟨body, hheld⟩ := (h.routed channel s hs).2.2 hawaits
        exact hguard.expires s body rfl hheld
      · exact hguard.expires s body rfl hs
    | deleted s hdeletes => exact .inr ⟨hdone, h.deleteSession hdeletes⟩
    | began channel remoteChannel body s hreader hremote hs =>
      exact .inr ⟨hdone, h.began hreader hs (hguard.begins channel body remoteChannel s rfl hremote hs)⟩
    | ended channel body s hreader hs => exact .inr ⟨hdone, h.ended hreader hs⟩
    | passed channel body s hreader hend hs => exact .inr ⟨hdone, h.passed hreader hend hs⟩
    | exited _ err => exact .inl ⟨err, rfl⟩
    | handOver s body r hreader hr =>
      exact .inr ⟨hdone, h.handOver hreader hr fun m hm hp => hguard.tolerated s body m rfl hreader hm hp⟩
    | close => exact .inr ⟨hdone, h.registered, h.routed, h.unique, h.held⟩
    | done err hreader => exact .inl ⟨err, hreader⟩

end Connection

/-- **`connReader` is not stuck on a dead session** if the peer answers each begin at most once and while the call
    is still waiting, and makes no protocol error: in every such run, whenever `connReader` is about to hand a
    frame to a session, a goroutine of the session is still going to receive it. -/
theorem handing_receives {channelMax : UInt16} {trace : Trace ConnInput ConnEvent} {c : Connection}
    (hrun : RunIf (Fires Connection.step) (fun _ c x => Connection.Timely c x.1) (.start channelMax) trace c)
    {s : SessionID} {body : FrameBody} (hreader : c.reader = .handing s body) :
    (c.session s).phase.receives = true := by
  have hinv : Connection.Inv c := by
    refine hrun.invariant (P := fun _ c => Connection.Inv c) (.inr ⟨rfl, .start channelMax⟩) ?_
    rintro _ c ⟨i, events⟩ c' h hstep hguard
    exact h.step hstep hguard
  rcases hinv with ⟨err, hexited⟩ | ⟨-, hserved⟩
  · rw [hreader] at hexited
    cases hexited
  · exact SessionPhase.receives_of_serves (hserved.held s body hreader).2.1

namespace Connection

/-- A test that admits only timely steps. -/
def timely (c : Connection) : ConnInput → Bool
  | .read _ (.begin_ body) =>
    (body.remoteChannel.bind c.sessionsByChannel).all fun s => (c.session s).phase.awaits
  | .session _ .expire => false
  | .handOver =>
    match c.reader with
    | .handing s body =>
      match (c.session s).phase with
      | .running m => m.tolerates body
      | _ => true
    | _ => true
  | _ => true

theorem timely_of_test (_ : Trace ConnInput ConnEvent) (c : Connection) (i : ConnInput)
    (events : List ConnEvent) (h : timely c i = true) : Timely c (i, events).1 := by
  refine ⟨?_, ?_, ?_⟩
  · rintro channel body remoteChannel s rfl hremote hs
    simpa [timely, hremote, hs] using h
  · rintro s body rfl
    cases h
  · rintro s body m rfl hreader hm -
    simpa [timely, hreader, hm] using h

/-- The session that `connReader` holds a frame for. -/
def heldFor (c : Connection) : Option SessionID :=
  match c.reader with
  | .handing s _ => some s
  | _ => none

theorem heldFor_eq_some {c : Connection} {s : SessionID} (h : c.heldFor = some s) : ∃ body, c.reader = .handing s body := by
  unfold heldFor at h
  split at h
  · next body hreader =>
    cases h
    exact ⟨body, hreader⟩
  · cases h

/-- The begin of the peer on its channel 0, for the channel 0. -/
def beginZero : ConnInput := .read 0 (.begin_ { PerformBegin.zero with remoteChannel := some 0 })

/-- A session on the channel 0 whose begin is answered. -/
def established : List ConnInput :=
  [.newSession none, .session 0 .sendBegin, beginZero, .handOver, .session 0 .startMux]

/-- The peer sends a flow without next-incoming-id, and answers the end that the mux sends for it. -/
def flowWithoutID : List ConnInput := established ++ [.read 0 (.flow .zero), .handOver, .read 0 (.end_ ⟨none⟩)]

/-- The context of `begin` expires before the begin of the peer comes, which is followed by the answer to the end
    of the clean-up. -/
def beginTooLate : List ConnInput :=
  [.newSession none, .session 0 .sendBegin, .session 0 .expire, .session 0 .sendEnd, beginZero, .handOver,
    .deleteSession 0, .read 0 (.end_ ⟨none⟩)]

/-- The inputs lead to a state in which `connReader` has a frame for a session that nobody receives for. -/
def Stuck (inputs : List ConnInput) : Prop :=
  ∃ trace c, exec Connection.step [] (.start 10) inputs = some (trace, c) ∧
    Run (Fires Connection.step) (.start 10) trace c ∧
    ∃ s body, c.reader = .handing s body ∧ (c.session s).phase.receives = false

theorem stuck_of_exec {inputs : List ConnInput} (h : (exec Connection.step [] (.start 10) inputs).map
    (fun r => (r.2.heldFor, (r.2.session 0).phase.receives)) = some (some 0, false)) : Stuck inputs := by
  obtain ⟨⟨trace, c⟩, hexec, heq⟩ := Option.map_eq_some_iff.mp h
  obtain ⟨hheld, hreceives⟩ := Prod.mk.inj heq
  obtain ⟨body, hreader⟩ := heldFor_eq_some hheld
  exact ⟨trace, c, hexec, .of_exec inputs .start hexec, 0, body, hreader, hreceives⟩

end Connection

open Connection

theorem handing_receives_flow : ∃ trace c,
    RunIf (Fires Connection.step) (fun _ c x => Timely c x.1) (.start 10) trace c ∧
    ∃ s body, c.reader = .handing s body ∧ (c.session s).phase.receives = true := by
  have hexec : (execIf Connection.step (fun _ => timely) [] (.start 10)
      (established ++ [.read 0 (.flow { PerformFlow.zero with nextIncomingID := some 0 })])).map
      (fun r => r.2.heldFor) = some (some 0) := by
    decide +kernel
  obtain ⟨⟨trace, c⟩, hexec, hheld⟩ := Option.map_eq_some_iff.mp hexec
  obtain ⟨body, hreader⟩ := heldFor_eq_some hheld
  have hrun := RunIf.of_execIf (G := fun _ c x => Timely c x.1) timely_of_test _ .start hexec
  exact ⟨trace, c, hrun, 0, body, hreader, handing_receives hrun hreader⟩

/-- After a protocol error, and after a begin that comes too late, `connReader` has an end for a session whose
    goroutines have all returned. -/
theorem handing_stuck : Stuck flowWithoutID ∧ Stuck beginTooLate :=
  ⟨stuck_of_exec (by decide +kernel), stuck_of_exec (by decide +kernel)⟩

end GoAmqp
