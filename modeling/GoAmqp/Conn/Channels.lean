import GoAmqp.Conn.HandOver

set_option autoImplicit false

/-! # When a channel is used again

A channel number is free again when its session is deleted. The mux deletes its session after the peer has
ended it, and the clean-up of `begin` does so too if it is given an end; but what reaches the clean-up is the
begin of the peer, and after a protocol error the mux does not wait for an end at all. -/

namespace GoAmqp

open Lib Function

namespace Connection

/-! ## Open sessions of the peer -/

/-- The begin of a session goes out in this step. -/
def sendsBegin (s : SessionID) : ConnInput × List ConnEvent → Bool
  | (.session k .sendBegin, .tx _ _ :: _) => k == s
  | _ => false

/-- The end of a session comes in with this step. -/
def receivesEnd (s : SessionID) : ConnInput × List ConnEvent → Bool
  | (_, [.rx k (.end_ _)]) => k == s
  | _ => false

/-- We have sent a begin for the session and not received the peer's end since. -/
def outstanding (s : SessionID) : Trace ConnInput ConnEvent → Bool
  | [] => false
  | x :: trace => !receivesEnd s x && (sendsBegin s x || outstanding s trace)

variable {trace trace' : Trace ConnInput ConnEvent} {x : ConnInput × List ConnEvent} {s : SessionID}

theorem outstanding_cons (hx : sendsBegin s x = false) (h : outstanding s trace = false) :
    outstanding s (x :: trace) = false := by
  rw [outstanding, hx, h, Bool.or_false, Bool.and_false]

theorem outstanding_end (hx : receivesEnd s x = true) : outstanding s (x :: trace) = false := by
  rw [outstanding, hx]
  rfl

variable {events : List ConnEvent} {phase : SessionPhase}

/-- Only the session whose begin it is can become outstanding. -/
theorem sendsBegin_session {k : SessionID} {i : SessionInput} (h : sendsBegin k (.session s i, events) = true)
    : k = s ∧ i = .sendBegin := by
  unfold sendsBegin at h
  split at h
  · next heq =>
    cases heq
    exact ⟨(beq_iff_eq.mp h).symm, rfl⟩
  · cases h

/-! ## The invariant -/

/-- What the peer keeps to: its begin does not reach the clean-up of `begin`, and no frame is a protocol
    error. -/
structure Heard (c : Connection) (i : ConnInput) : Prop where
  cleaned : ∀ s body, i = .handOver → c.reader = .handing s body → (c.session s).phase ≠ .cleaning
  tolerated : ∀ s body m, i = .handOver → c.reader = .handing s body → (c.session s).phase = .running m →
    m.phase = .select → m.tolerates body = true

/-- Sessions hold their channels until the peer has ended them. -/
structure Kept (trace : Trace ConnInput ConnEvent) (c : Connection) : Prop where
  max : c.channels.max = c.channelMax.toUInt32
  unmade : ∀ s, c.sessionCount ≤ s → (c.session s).phase = .deleted
  registered : ∀ channel s, c.sessionsByChannel channel = some s → s < c.sessionCount
  routed : ∀ channel s, c.sessionsByRemoteChannel channel = some s → s < c.sessionCount
  taken : ∀ s, (c.session s).phase ≠ .deleted → c.channels.has (c.session s).channel.toUInt32 = true
  distinct : ∀ s s', (c.session s).phase ≠ .deleted → (c.session s').phase ≠ .deleted →
    (c.session s).channel = (c.session s').channel → s = s'
  deleted : ∀ s, (c.session s).phase = .deleted → outstanding s trace = false
  returned : ∀ s m, (c.session s).phase = .running m → m.phase.over = true → outstanding s trace = false
  undisturbed : ∀ s, (c.session s).phase ≠ .deleting
  answered : ∀ s body, (c.session s).phase = .answered body → ∃ b, body = .begin_ b
  first : ∀ s body, c.reader = .handing s body → s < c.sessionCount ∧
    ((c.session s).phase.awaits = true → ∃ b, body = .begin_ b)
  waiting : ∀ channel s, c.sessionsByRemoteChannel channel = some s → (c.session s).phase.awaits = true →
    (∃ body, c.reader = .handing s body) ∨ ∃ err, c.reader = .exited err
  ends : ∀ s e, c.reader = .handing s (.end_ e) → outstanding s trace = false

theorem Kept.start (channelMax : UInt16) : Kept [] (.start channelMax) where
  max := rfl
  unmade := fun _ _ => rfl
  registered := fun _ _ h => by cases h
  routed := fun _ _ h => by cases h
  taken := fun _ h => absurd rfl h
  distinct := fun _ _ h => absurd rfl h
  deleted := fun _ _ => rfl
  returned := fun _ _ h => by cases h
  undisturbed := fun _ h => by cases h
  answered := fun _ _ h => by cases h
  first := fun _ _ h => by cases h
  waiting := fun _ _ h => by cases h
  ends := fun _ _ h => by cases h

variable {c : Connection}

/-- Nothing becomes outstanding. -/
theorem Kept.mono (h : Kept trace c) (hout : ∀ k, outstanding k trace = false → outstanding k trace' = false) :
    Kept trace' c :=
  { h with
    deleted := fun k hk => hout k (h.deleted k hk)
    returned := fun k m hm ho => hout k (h.returned k m hm ho)
    ends := fun k e hk => hout k (h.ends k e hk) }

theorem setPhase_channel (phase : SessionPhase) (k : SessionID) :
    ((c.setPhase s phase).session k).channel = (c.session k).channel := by
  by_cases hk : k = s
  · subst hk
    simp only [setPhase, update_self]
  · rw [setPhase_of_ne phase hk]

/-- A property of all phases after one has changed. -/
theorem forall_setPhase {P : SessionID → SessionPhase → Prop} (hs : P s phase)
    (hother : ∀ k, k ≠ s → P k (c.session k).phase) (k : SessionID) : P k ((c.setPhase s phase).session k).phase := by
  by_cases hk : k = s
  · subst hk
    rw [setPhase_self]
    exact hs
  · rw [setPhase_of_ne phase hk]
    exact hother k hk

theorem alive_of_setPhase (halive : (c.session s).phase ≠ .deleted) (k : SessionID)
    (hk : ((c.setPhase s phase).session k).phase ≠ .deleted) : (c.session k).phase ≠ .deleted :=
  forall_setPhase (P := fun k p => p ≠ .deleted → (c.session k).phase ≠ .deleted) (fun _ => halive)
    (fun _ _ => id) k hk

/-- The phases a session can get to while it holds its channel. -/
structure Holds (trace : Trace ConnInput ConnEvent) (s : SessionID) (phase : SessionPhase) : Prop where
  alive : phase ≠ .deleted
  undisturbed : phase ≠ .deleting
  returned : ∀ m, phase = .running m → m.phase.over = true → outstanding s trace = false
  answered : ∀ body, phase = .answered body → ∃ b, body = .begin_ b

/-- A session moves on, without a frame. -/
theorem Kept.setPhase (h : Kept trace c) (halive : (c.session s).phase ≠ .deleted)
    (hout : ∀ k, k ≠ s → outstanding k trace = false → outstanding k trace' = false)
    (hphase : Holds trace' s phase) (hawaits : phase.awaits = true → (c.session s).phase.awaits = true)
    (hends : ∀ e, c.reader = .handing s (.end_ e) → outstanding s trace' = false) :
    Kept trace' (c.setPhase s phase) where
  max := h.max
  unmade := fun k hk => by
    have hold := h.unmade k hk
    have hne : k ≠ s := by
      rintro rfl
      exact halive hold
    rw [setPhase_of_ne phase hne]
    exact hold
  registered := h.registered
  routed := h.routed
  taken := fun k hk => by
    rw [setPhase_channel]
    exact h.taken k (alive_of_setPhase halive k hk)
  distinct := fun k k' hk hk' hch => by
    rw [setPhase_channel, setPhase_channel] at hch
    exact h.distinct k k' (alive_of_setPhase halive k hk) (alive_of_setPhase halive k' hk') hch
  deleted := forall_setPhase (P := fun k p => p = .deleted → outstanding k trace' = false)
    (fun hp => absurd hp hphase.alive) fun k hk hp => hout k hk (h.deleted k hp)
  returned := forall_setPhase (P := fun k p => ∀ m, p = .running m → m.phase.over = true → outstanding k trace' = false)
    hphase.returned fun k hk m hm ho => hout k hk (h.returned k m hm ho)
  undisturbed := forall_setPhase (P := fun _ p => p ≠ .deleting) hphase.undisturbed fun k _ => h.undisturbed k
  answered := forall_setPhase (P := fun _ p => ∀ body, p = .answered body → ∃ b, body = .begin_ b)
    hphase.answered fun k _ => h.answered k
  first := forall_setPhase (P := fun k p => ∀ body, c.reader = .handing k body → k < c.sessionCount ∧
      (p.awaits = true → ∃ b, body = .begin_ b))
    (fun body hb => ⟨(h.first s body hb).1, fun ha => (h.first s body hb).2 (hawaits ha)⟩) fun k _ => h.first k
  waiting := fun channel => forall_setPhase (P := fun k p => c.sessionsByRemoteChannel channel = some k →
      p.awaits = true → (∃ body, c.reader = .handing k body) ∨ ∃ err, c.reader = .exited err)
    (fun hs ha => h.waiting channel s hs (hawaits ha)) fun k _ => h.waiting channel k
  ends := fun k e hk => by
    by_cases heq : k = s
    · subst heq
      exact hends e hk
    · exact hout k heq (h.ends k e hk)

/-- A step of a session that needs no frame. -/
theorem Kept.session (h : Kept trace c) {i : SessionInput} {r : SessionPhase × List FrameBody}
    (hr : (c.session s).step false i = some r) : Kept ((.session s i, events) :: trace) (c.setPhase s r.1) := by
  have hother : ∀ k, k ≠ s → outstanding k trace = false →
      outstanding k ((.session s i, events) :: trace) = false := by
    intro k hk
    refine outstanding_cons ?_
    rw [← Bool.not_eq_true]
    exact fun hsends => hk (sendsBegin_session hsends).1
  have hself : i ≠ .sendBegin → outstanding s trace = false →
      outstanding s ((.session s i, events) :: trace) = false := by
    intro hi
    refine outstanding_cons ?_
    rw [← Bool.not_eq_true]
    exact fun hsends => hi (sendsBegin_session hsends).2
  -- a session without a mux is not over, and has not been answered
  have hquiet : ∀ phase : SessionPhase, phase ≠ .deleted → phase ≠ .deleting → (∀ m, phase ≠ .running m) →
      (∀ body, phase ≠ .answered body) → Holds ((.session s i, events) :: trace) s phase :=
    fun phase h₁ h₂ h₃ h₄ => ⟨h₁, h₂, fun m hm => absurd hm (h₃ m), fun body hb => absurd hb (h₄ body)⟩
  have hends : i ≠ .sendBegin → ∀ e, c.reader = .handing s (.end_ e) →
      outstanding s ((.session s i, events) :: trace) = false :=
    fun hi e he => hself hi (h.ends s e he)
  have hstep := ConnSession.step_cases hr
  generalize r.1 = phase at hstep
  cases hstep with
  | sendBegin hp =>
    refine h.setPhase (by simp [hp]) hother (hquiet _ ?_ ?_ ?_ ?_) (fun _ => by rw [hp]; rfl) fun e he => ?_
    · simp
    · simp
    · simp
    · simp
    · -- the first frame for the session is a begin
      obtain ⟨b, hb⟩ := (h.first s _ he).2 (by rw [hp]; rfl)
      cases hb
  | expire hp =>
    exact h.setPhase (by simp [hp]) hother (hquiet _ (by simp) (by simp) (by simp) (by simp))
      (fun ha => by cases ha) (hends (by simp))
  | sendEnd hp =>
    exact h.setPhase (by simp [hp]) hother (hquiet _ (by simp) (by simp) (by simp) (by simp))
      (fun ha => by cases ha) (hends (by simp))
  | timeout hp =>
    exact h.setPhase (by simp [hp]) hother (hquiet _ (by simp) (by simp) (by simp) (by simp))
      (fun ha => by cases ha) (hends (by simp))
  | connDone phase hdone => cases hdone
  | startMux body hp =>
    obtain ⟨b, rfl⟩ := h.answered s body hp
    refine h.setPhase (by simp [hp]) hother ⟨?_, ?_, ?_, ?_⟩ (fun ha => by cases ha) (hends (by simp))
    · simp [ConnSession.startMux]
    · simp [ConnSession.startMux]
    · intro m hm hover
      cases hm
      cases hover
    · simp [ConnSession.startMux]
  | mux m m' i events hp hrx hdone hstep =>
    refine h.setPhase (by simp [hp]) hother ⟨?_, ?_, ?_, ?_⟩ (fun ha => by cases ha) (hends (by simp))
    · simp
    · simp
    · intro k hk hover
      cases hk
      refine hself (by simp) (h.returned s m hp ?_)
      rw [← Bool.not_eq_false]
      intro hopen
      rw [Session.step_open hstep hrx hdone hopen] at hover
      cases hover
    · simp

/-- The session is deleted by its mux, after the peer has ended it. -/
theorem Kept.deleteSession (h : Kept trace c) (hdeletes : deletes (c.session s).phase = true) :
    Kept trace (c.deleteSession s) := by
  obtain ⟨m, hm, hover⟩ : ∃ m, (c.session s).phase = .running m ∧ m.phase.over = true := by
    cases hp : (c.session s).phase with
    | running m => exact ⟨m, rfl, by rw [hp] at hdeletes; exact hdeletes⟩
    | deleting => exact absurd hp (h.undisturbed s)
    | _ => rw [hp] at hdeletes; cases hdeletes
  have halive : (c.session s).phase ≠ .deleted := by simp [hm]
  -- the sessions that are left
  have hleft : ∀ k, ((c.setPhase s .deleted).session k).phase ≠ .deleted → k ≠ s ∧ (c.session k).phase ≠ .deleted :=
    forall_setPhase (P := fun k p => p ≠ .deleted → k ≠ s ∧ (c.session k).phase ≠ .deleted)
      (fun hne => absurd rfl hne) fun k hk hp => ⟨hk, hp⟩
  constructor
  · exact h.max
  · exact forall_setPhase (P := fun k p => c.sessionCount ≤ k → p = .deleted) (fun _ => rfl) fun k _ => h.unmade k
  · exact fun channel k hk => h.registered channel k (Session.update_none_eq_some hk).2
  · exact h.routed
  · intro k hk
    obtain ⟨hne, hlive⟩ := hleft k hk
    show (c.channels.remove _).has ((c.setPhase s .deleted).session k).channel.toUInt32 = true
    rw [setPhase_channel, Bitmap.has_remove, h.taken k hlive, Bool.true_and, decide_eq_true_eq]
    exact fun heq => hne (h.distinct k s hlive halive (UInt16.toUInt32_inj.mp heq))
  · intro k k' hk hk' hch
    have hch' : ((c.setPhase s .deleted).session k).channel = ((c.setPhase s .deleted).session k').channel := hch
    rw [setPhase_channel, setPhase_channel] at hch'
    exact h.distinct k k' (hleft k hk).2 (hleft k' hk').2 hch'
  · exact forall_setPhase (P := fun k p => p = .deleted → outstanding k trace = false)
      (fun _ => h.returned s m hm hover) fun k _ => h.deleted k
  · exact forall_setPhase
      (P := fun k p => ∀ m, p = .running m → m.phase.over = true → outstanding k trace = false)
      (fun _ hm => by cases hm) fun k _ => h.returned k
  · exact forall_setPhase (P := fun _ p => p ≠ .deleting) (by simp) fun k _ => h.undisturbed k
  · exact forall_setPhase (P := fun _ p => ∀ body, p = .answered body → ∃ b, body = .begin_ b)
      (fun _ hb => by cases hb) fun k _ => h.answered k
  · exact forall_setPhase (P := fun k p => ∀ body, c.reader = .handing k body → k < c.sessionCount ∧
      (p.awaits = true → ∃ b, body = .begin_ b))
      (fun body hb => ⟨(h.first s body hb).1, fun ha => by cases ha⟩) fun k _ => h.first k
  · exact fun channel => forall_setPhase (P := fun k p => c.sessionsByRemoteChannel channel = some k →
      p.awaits = true → (∃ body, c.reader = .handing k body) ∨ ∃ err, c.reader = .exited err)
      (fun _ ha => by cases ha) fun k _ => h.waiting channel k
  · exact h.ends

/-- The channel of a new session, as the bitmap has it. -/
theorem Kept.channel_eq (h : Kept trace c) {channel : UInt32} {channels : Bitmap}
    (hnext : c.channels.next = (channel, true, channels)) : channel.toUInt16.toUInt32 = channel := by
  have hle := (Bitmap.next_le hnext).1
  rw [h.max, UInt32.le_iff_toNat_le, UInt16.toNat_toUInt32] at hle
  have hlt : channel.toNat < 2 ^ 16 := Nat.lt_of_le_of_lt hle c.channelMax.toNat_lt
  rw [← UInt32.toNat_inj, UInt16.toNat_toUInt32, UInt32.toNat_toUInt16, Nat.mod_eq_of_lt hlt]

theorem Kept.addSession (h : Kept trace c) {channel : UInt32} {channels : Bitmap}
    (hnext : c.channels.next = (channel, true, channels)) (opts : Option SessionOptions) :
    Kept trace (c.addSession channel channels opts) := by
  obtain ⟨hfree, hhas⟩ := Bitmap.next_spec hnext
  have hchannel := h.channel_eq hnext
  have hself : (c.addSession channel channels opts).session c.sessionCount = .new channel.toUInt16 opts :=
    update_self ..
  have hother : ∀ k, k ≠ c.sessionCount → (c.addSession channel channels opts).session k = c.session k :=
    fun k hk => update_of_ne hk ..
  -- a property of the new session and of all others
  have hall : ∀ P : SessionID → ConnSession → Prop, P c.sessionCount (.new channel.toUInt16 opts) →
      (∀ k, k ≠ c.sessionCount → P k (c.session k)) →
      ∀ k, P k ((c.addSession channel channels opts).session k) := by
    intro P hnew hold k
    by_cases hk : k = c.sessionCount
    · rw [hk, hself]
      exact hnew
    · rw [hother k hk]
      exact hold k hk
  -- nobody else has the channel
  have hapart : ∀ k, (c.session k).phase ≠ .deleted → (c.session k).channel ≠ channel.toUInt16 := by
    intro k hk heq
    have hset := h.taken k hk
    rw [heq, hchannel, hfree] at hset
    cases hset
  constructor
  · exact (Bitmap.next_le hnext).2.trans h.max
  · exact hall (fun k cs => c.sessionCount + 1 ≤ k → cs.phase = .deleted)
      (fun hle => absurd hle (Nat.not_succ_le_self _)) fun k _ hle => h.unmade k (Nat.le_of_succ_le hle)
  · intro ch k hk
    simp only [Connection.addSession, update_apply] at hk
    split at hk
    · cases hk
      exact Nat.lt_succ_self _
    · exact Nat.lt_succ_of_lt (h.registered ch k hk)
  · exact fun ch k hk => Nat.lt_succ_of_lt (h.routed ch k hk)
  · refine hall (fun k cs => cs.phase ≠ .deleted → channels.has cs.channel.toUInt32 = true) (fun _ => ?_)
      fun k _ hk => ?_
    · show channels.has channel.toUInt16.toUInt32 = true
      rw [hchannel, hhas, decide_eq_true rfl, Bool.or_true]
    · rw [hhas, h.taken k hk, Bool.true_or]
  · intro k k' hk hk' hch
    by_cases heq : k = c.sessionCount <;> by_cases heq' : k' = c.sessionCount
    · rw [heq, heq']
    · rw [hother k' heq'] at hk' hch
      rw [heq, hself] at hch
      exact absurd hch.symm (hapart k' hk')
    · rw [hother k heq] at hk hch
      rw [heq', hself] at hch
      exact absurd hch (hapart k hk)
    · rw [hother k heq] at hk hch
      rw [hother k' heq'] at hk' hch
      exact h.distinct k k' hk hk' hch
  · exact hall (fun k cs => cs.phase = .deleted → outstanding k trace = false) (fun hp => by cases hp)
      fun k _ => h.deleted k
  · exact hall (fun k cs => ∀ m, cs.phase = .running m → m.phase.over = true → outstanding k trace = false)
      (fun m hm => by cases hm) fun k _ => h.returned k
  · exact hall (fun _ cs => cs.phase ≠ .deleting) (fun hp => by cases hp) fun k _ => h.undisturbed k
  · exact hall (fun _ cs => ∀ body, cs.phase = .answered body → ∃ b, body = .begin_ b) (fun _ hb => by cases hb)
      fun k _ => h.answered k
  · intro k body hk
    have hold := h.first k body hk
    rw [hother k (Nat.ne_of_lt hold.1)]
    exact ⟨Nat.lt_succ_of_lt hold.1, hold.2⟩
  · intro ch k hk ha
    rw [hother k (Nat.ne_of_lt (h.routed ch k hk))] at ha
    exact h.waiting ch k hk ha
  · exact h.ends

/-- What `connReader` does leaves the sessions alone. -/
theorem Kept.read (h : Kept trace c) (hreader : c.reader = .reading)
    (hout : ∀ k, outstanding k trace = false → outstanding k trace' = false)
    {table : UInt16 → Option SessionID} {body : FrameBody} (hlt : s < c.sessionCount)
    (htable : ∀ channel k, table channel = some k → k = s ∨ c.sessionsByRemoteChannel channel = some k)
    (hfirst : (c.session s).phase.awaits = true → ∃ b, body = .begin_ b)
    (hends : ∀ e, body = .end_ e → outstanding s trace' = false) :
    Kept trace' { c with reader := .handing s body, sessionsByRemoteChannel := table } := by
  have hkept := h.mono hout
  refine { hkept with routed := ?_, first := ?_, waiting := ?_, ends := ?_ }
  · intro channel k hk
    rcases htable channel k hk with rfl | hold
    · exact hlt
    · exact h.routed channel k hold
  · intro k fr hk
    cases hk
    exact ⟨hlt, hfirst⟩
  · intro channel k hk ha
    rcases htable channel k hk with rfl | hold
    · exact .inl ⟨body, rfl⟩
    · rcases h.waiting channel k hold ha with ⟨fr, hheld⟩ | ⟨err, hexited⟩
      · rw [hreader] at hheld
        cases hheld
      · rw [hreader] at hexited
        cases hexited
  · intro k e hk
    cases hk
    exact hends e rfl

/-- While `connReader` reads, no session in its table waits for its begin. -/
theorem Kept.not_awaits (h : Kept trace c) (hreader : c.reader = .reading) {channel : UInt16}
    (hs : c.sessionsByRemoteChannel channel = some s) : (c.session s).phase.awaits = false := by
  rw [← Bool.not_eq_true]
  intro hawaits
  rcases h.waiting channel s hs hawaits with ⟨body, hheld⟩ | ⟨err, hexited⟩
  · rw [hreader] at hheld
    cases hheld
  · rw [hreader] at hexited
    cases hexited

/-- The session takes the frame. -/
theorem Kept.handOver (h : Kept trace c) {body : FrameBody} {r : SessionPhase × List FrameBody}
    (hreader : c.reader = .handing s body) (hr : (c.session s).receive body = some r)
    (hcleaned : (c.session s).phase ≠ .cleaning)
    (htolerated : ∀ m, (c.session s).phase = .running m → m.phase = .select → m.tolerates body = true) :
    Kept trace ({ c with reader := .reading }.setPhase s r.1) := by
  obtain ⟨hlt, hfirst⟩ := h.first s body hreader
  -- the session does not wait any more
  obtain ⟨halive, hphase, hawaits⟩ : (c.session s).phase ≠ .deleted ∧ Holds trace s r.1 ∧ r.1.awaits = false := by
    have hreceived := ConnSession.receive_cases hr
    generalize r.1 = phase at hreceived
    cases hreceived with
    | answered hp =>
      obtain ⟨b, rfl⟩ := hfirst (by rw [hp]; rfl)
      exact ⟨by simp [hp], ⟨by simp, by simp, by simp, fun body hb => ⟨b, by cases hb; rfl⟩⟩, rfl⟩
    | cleaned hp => exact absurd hp hcleaned
    | mux m m' events hp hstep =>
      refine ⟨by simp [hp], ⟨by simp, by simp, fun k hk hover => ?_, by simp⟩, rfl⟩
      cases hk
      -- only an end makes the mux return
      by_cases hend : ∃ e, body = .end_ e
      · obtain ⟨e, rfl⟩ := hend
        exact h.ends s e hreader
      · have hnot : ∀ e, body ≠ .end_ e := fun e he => hend ⟨e, he⟩
        cases Session.step_cases hstep with
        | rx _ hselect =>
          rw [Session.rx_over hselect (htolerated m hp hselect) hnot] at hover
          cases hover
        | rxClosing _ hclosing =>
          unfold Session.rxClosing at hover
          split at hover
          · next e => exact absurd rfl (hnot e)
          · rw [hclosing] at hover
            cases hover
  have hmoved : Kept trace (c.setPhase s r.1) :=
    h.setPhase halive (fun _ _ => id) hphase (fun ha => absurd ha (by rw [hawaits]; decide)) (h.ends s)
  refine { hmoved with first := ?_, waiting := ?_, ends := ?_ }
  · intro k fr hk
    cases hk
  · -- the only session that waited was the one that `connReader` had a frame for
    intro channel k hk ha
    rcases hmoved.waiting channel k hk ha with ⟨fr, hheld⟩ | ⟨err, hexited⟩
    · have hheld' : c.reader = .handing k fr := hheld
      rw [hreader] at hheld'
      cases hheld'
      have ha' : ((c.setPhase s r.1).session s).phase.awaits = true := ha
      rw [setPhase_self, hawaits] at ha'
      cases ha'
    · have hexited' : c.reader = .exited err := hexited
      rw [hreader] at hexited'
      cases hexited'
  · intro k e hk
    cases hk

theorem step_done {c' : Connection} {i : ConnInput} (hstep : c.step i = some (c', events))
    (hdone : c.done = true) : c'.done = true := by
  cases step_cases hstep with
  | done err hreader => rfl
  | _ => exact hdone

/-- **One step** keeps the invariant, up to the end of the connection. -/
theorem Kept.step {c' : Connection} {i : ConnInput} (h : Kept trace c) (hdone : c.done = false)
    (hstep : c.step i = some (c', events)) (hguard : Heard c i) :
    c'.done = true ∨ c'.done = false ∧ Kept ((i, events) :: trace) c' := by
  have hquiet : ∀ j evs, (∀ k, sendsBegin k (j, evs) = false) →
      ∀ k, outstanding k trace = false → outstanding k ((j, evs) :: trace) = false :=
    fun j evs hno k hk => outstanding_cons (hno k) hk
  cases step_cases hstep with
  | refused opts text => exact .inr ⟨hdone, h.mono (hquiet _ _ fun _ => rfl)⟩
  | opened opts channel channels hnext =>
    exact .inr ⟨hdone, (h.addSession hnext opts).mono (hquiet _ _ fun _ => rfl)⟩
  | session s i r hr =>
    rw [hdone] at hr
    exact .inr ⟨hdone, h.session hr⟩
  | deleted s hdeletes => exact .inr ⟨hdone, (h.deleteSession hdeletes).mono (hquiet _ _ fun _ => rfl)⟩
  | began channel remoteChannel body s hreader hremote hs =>
    refine .inr ⟨hdone, h.read hreader (hquiet _ _ fun _ => rfl) (h.registered _ s hs) (fun ch k hk => ?_)
      (fun _ => ⟨body, rfl⟩) (fun e he => by cases he)⟩
    rw [update_apply] at hk
    split at hk
    · exact .inl (Option.some.inj hk).symm
    · exact .inr hk
  | ended channel body s hreader hs =>
    refine .inr ⟨hdone, h.read hreader (hquiet _ _ fun _ => rfl) (h.routed _ s hs)
      (fun ch k hk => .inr (Session.update_none_eq_some hk).2) (fun ha => ?_) (fun e he => ?_)⟩
    · rw [h.not_awaits hreader hs] at ha
      cases ha
    · exact outstanding_end (beq_self_eq_true s)
  | passed channel body s hreader hend hs =>
    refine .inr ⟨hdone, h.read hreader (hquiet _ _ fun _ => rfl) (h.routed _ s hs) (fun ch k hk => .inr hk)
      (fun ha => ?_) (fun e he => absurd he (hend e))⟩
    rw [h.not_awaits hreader hs] at ha
    cases ha
  | exited i err =>
    have hno : ∀ k, sendsBegin k (i, []) = false := by
      intro k
      unfold sendsBegin
      split
      · next heq => cases heq
      · rfl
    refine .inr ⟨hdone, { h.mono (hquiet _ _ hno) with first := ?_, waiting := ?_, ends := ?_ }⟩
    · intro k fr hk
      cases hk
    · exact fun channel k hk ha => .inr ⟨err, rfl⟩
    · intro k e hk
      cases hk
  | handOver s body r hreader hr =>
    refine .inr ⟨hdone, ?_⟩
    exact (h.handOver hreader hr (hguard.cleaned s body rfl hreader)
      fun m hm hp => hguard.tolerated s body m rfl hreader hm hp).mono (hquiet _ _ fun _ => rfl)
  | close => exact .inr ⟨hdone, { h.mono (hquiet _ _ fun _ => rfl) with }⟩
  | done err hreader => exact .inl rfl

end Connection

/-- **A channel number is used again only after the peer's end**, if the begin of the peer does not reach the
    clean-up of `begin` and the peer makes no protocol error: when `newSession` gives a channel to a new session
    of a connection that is not done, each earlier session on that channel whose begin was sent has been ended by
    the peer since. -/
theorem channel_used_after_end {channelMax : UInt16} {trace : Trace ConnInput ConnEvent}
    {c c' : Connection} {opts : Option SessionOptions}
    (hrun : RunIf (Fires Connection.step) (fun _ c x => Connection.Heard c x.1) (.start channelMax) trace c)
    (hdone : c.done = false) (hnew : c.step (.newSession opts) = some (c', [.opened c.sessionCount]))
    {s : SessionID} (hchannel : (c.session s).channel = (c'.session c.sessionCount).channel) :
    Connection.outstanding s trace = false := by
  have hinv : c.done = true ∨ c.done = false ∧ Connection.Kept trace c := by
    refine hrun.invariant (P := fun trace c => c.done = true ∨ c.done = false ∧ Connection.Kept trace c)
      (.inr ⟨rfl, .start channelMax⟩) ?_
    rintro trace c ⟨i, events⟩ c' (hdone | ⟨hdone, hkept⟩) hstep hguard
    · exact .inl (Connection.step_done hstep hdone)
    · exact hkept.step hdone hstep hguard
  rcases hinv with htrue | ⟨-, hkept⟩
  · rw [hdone] at htrue
    cases htrue
  cases Connection.step_cases hnew with
  | opened _ channel channels hnext =>
    rw [show (c.addSession channel channels opts).session c.sessionCount = .new channel.toUInt16 opts from
      update_self ..] at hchannel
    -- a session that still has the channel would be in the way
    by_cases hdeleted : (c.session s).phase = .deleted
    · exact hkept.deleted s hdeleted
    · have htaken := hkept.taken s hdeleted
      rw [hchannel] at htaken
      have hfree := (Bitmap.next_spec hnext).1
      rw [← hkept.channel_eq hnext] at hfree
      exact absurd (hfree.symm.trans htaken) (by decide)

namespace Connection

/-- A test that admits only steps in which the peer is heard. -/
def heard (c : Connection) : ConnInput → Bool
  | .handOver =>
    match c.reader with
    | .handing s body =>
      match (c.session s).phase with
      | .running m => m.tolerates body
      | .cleaning => false
      | _ => true
    | _ => true
  | _ => true

theorem heard_of_test (_ : Trace ConnInput ConnEvent) (c : Connection) (i : ConnInput)
    (events : List ConnEvent) (h : heard c i = true) : Heard c (i, events).1 := by
  refine ⟨?_, ?_⟩
  · rintro s body rfl hreader hp
    simp [heard, hreader, hp] at h
  · rintro s body m rfl hreader hm -
    simpa [heard, hreader, hm] using h

/-- The first session has the number of the channel that a new session would get. -/
def reuses (c : Connection) : Bool := c.channels.next.2.1 && (c.session 0).channel == c.channels.next.1.toUInt16

theorem newSession_reuses {c : Connection} (h : c.reuses = true) : ∃ c',
    c.step (.newSession none) = some (c', [.opened c.sessionCount]) ∧
      (c.session 0).channel = (c'.session c.sessionCount).channel := by
  obtain ⟨hok, hchannel⟩ := Bool.and_eq_true_iff.mp h
  refine ⟨c.addSession c.channels.next.1 c.channels.next.2.2 none, ?_, ?_⟩
  · simp only [step, newSession]
    split
    · next heq => rw [heq] at hok; cases hok
    · next heq => rw [heq]
  · rw [show (c.addSession c.channels.next.1 c.channels.next.2.2 none).session c.sessionCount =
      .new c.channels.next.1.toUInt16 none from update_self ..]
    exact beq_iff_eq.mp hchannel

/-- The inputs lead to a state in which the channel of the first session is given to a new one, although the peer
    has not ended the first. -/
def ReusedEarly (inputs : List ConnInput) : Prop :=
  ∃ trace c c', exec Connection.step [] (.start 10) inputs = some (trace, c) ∧
    Run (Fires Connection.step) (.start 10) trace c ∧ c.done = false ∧
    c.step (.newSession none) = some (c', [.opened c.sessionCount]) ∧
    (c.session 0).channel = (c'.session c.sessionCount).channel ∧ outstanding 0 trace = true

theorem reusedEarly_of_exec {inputs : List ConnInput} (h : (exec Connection.step [] (.start 10) inputs).map
    (fun r => (r.2.reuses, r.2.done, outstanding 0 r.1)) = some (true, false, true)) : ReusedEarly inputs := by
  obtain ⟨⟨trace, c⟩, hexec, heq⟩ := Option.map_eq_some_iff.mp h
  simp only [Prod.mk.injEq] at heq
  obtain ⟨hreuses, hdone, hout⟩ := heq
  obtain ⟨c', hnew, hchannel⟩ := newSession_reuses hreuses
  exact ⟨trace, c, c', hexec, .of_exec inputs .start hexec, hdone, hnew, hchannel, hout⟩

end Connection

open Connection

/-- A session that is closed, and ended by the peer. -/
theorem channel_used_after_end_closed : ∃ trace c c',
    RunIf (Fires Connection.step) (fun _ c x => Heard c x.1) (.start 10) trace c ∧
      c.step (.newSession none) = some (c', [.opened c.sessionCount]) ∧
      (c.session 0).channel = (c'.session c.sessionCount).channel ∧ outstanding 0 trace = false := by
  have hexec : (execIf Connection.step (fun _ => heard) [] (.start 10)
      (established ++ [.session 0 (.mux .close), .read 0 (.end_ ⟨none⟩), .handOver, .deleteSession 0])).map
      (fun r => (r.2.reuses, r.2.done)) = some (true, false) := by
    decide +kernel
  obtain ⟨⟨trace, c⟩, hexec, heq⟩ := Option.map_eq_some_iff.mp hexec
  obtain ⟨hreuses, hdone⟩ := Prod.mk.inj heq
  obtain ⟨c', hnew, hchannel⟩ := newSession_reuses hreuses
  have hrun := RunIf.of_execIf (G := fun _ c x => Heard c x.1) heard_of_test _ .start hexec
  exact ⟨trace, c, c', hrun, hnew, hchannel, channel_used_after_end hrun hdone hnew hchannel⟩

/-- The clean-up of `begin` takes the begin of the peer for its end, and the mux does not wait for an end after a
    protocol error. -/
theorem channel_used_before_end :
    ReusedEarly [.newSession none, .session 0 .sendBegin, .session 0 .expire, .session 0 .sendEnd, beginZero,
      .handOver, .deleteSession 0] ∧
    ReusedEarly (established ++ [.read 0 (.flow .zero), .handOver, .deleteSession 0]) :=
  ⟨reusedEarly_of_exec (by decide +kernel), reusedEarly_of_exec (by decide +kernel)⟩

end GoAmqp
