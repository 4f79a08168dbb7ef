import GoAmqp.Conn.Channels
import GoAmqp.Conn.Options
import GoAmqp.Session.LinkTable

set_option autoImplicit false

/-! # How many sessions and links there are

Channels and handles are numbered from zero, so that a maximal number admits one holder more than it says.
`newSession` of `session.go` takes this into account, `newConn` does not: `MaxSessions` is the maximal
channel. The limits of the peer are its maximal channel, which `openAMQP` obeys, and its maximal handle,
which nothing looks at.

`Occupied` follows the sessions of a connection through a run as `Tables` does the links of a session; both
rest on `Bitmap.Pool`, which also counts the holders. That a limit is exceeded is shown by a run that takes
numbers until there is none left. -/

namespace GoAmqp

open Lib Function ConnSession UInt32

/-! ## Sessions that exist -/

theorem ConnSession.step_alive {done : Bool} {cs : ConnSession} {i : SessionInput} {r : SessionPhase × List FrameBody}
    (h : cs.step done i = some r) : cs.phase ≠ .deleted ∧ r.1 ≠ .deleted := by
  cases i with
  | connDone =>
    simp only [step, Option.ite_none_right_eq_some] at h
    obtain ⟨-, h⟩ := h
    split at h
    · next hp =>
      cases h
      simp [hp]
    · next hp =>
      cases h
      simp [hp]
    · next m hp =>
      obtain ⟨_, -, rfl⟩ := Option.map_eq_some_iff.mp h
      simp [hp]
    · cases h
  | startMux =>
    simp only [step] at h
    split at h <;> cases h
    next body hp =>
    refine ⟨by simp [hp], ?_⟩
    cases body <;> simp [ConnSession.startMux]
  | mux i =>
    simp only [step] at h
    split at h
    · cases h
    · cases h
    · next hp _ _ =>
      obtain ⟨_, -, rfl⟩ := Option.map_eq_some_iff.mp h
      simp [hp]
    · cases h
  | _ =>
    simp only [step] at h
    split at h <;> cases h
    next hp => simp [hp]

theorem ConnSession.receive_alive {cs : ConnSession} {body : FrameBody} {r : SessionPhase × List FrameBody}
    (h : cs.receive body = some r) : cs.phase ≠ .deleted ∧ r.1 ≠ .deleted := by
  have hreceived := receive_cases h
  generalize r.1 = phase at hreceived
  cases hreceived with
  | answered hp => simp [hp]
  | cleaned hp => simp [hp]
  | mux m m' events hp hstep => simp [hp]

namespace Connection

/-- The sessions that have been made and not deleted are those of `existing`. -/
structure Occupied (channelMax : UInt16) (existing : List SessionID) (c : Connection) : Prop where
  pool : c.channels.Pool existing fun s => (c.session s).channel.toUInt32
  mem_iff : ∀ s, s ∈ existing ↔ (c.session s).phase ≠ .deleted
  made : ∀ s ∈ existing, s < c.sessionCount
  max : c.channels.max = channelMax.toUInt32

namespace Occupied

variable {channelMax : UInt16} {existing : List SessionID} {c : Connection} {s : SessionID}

theorem start (channelMax : UInt16) : Occupied channelMax [] (.start channelMax) where
  pool := .new _ _
  mem_iff := by simp [Connection.start]
  made := by simp
  max := rfl

/-- A session moves on. -/
theorem setPhase (h : Occupied channelMax existing c) {phase : SessionPhase}
    (halive : (c.session s).phase ≠ .deleted) (hphase : phase ≠ .deleted) :
    Occupied channelMax existing (c.setPhase s phase) where
  pool := h.pool.congr fun k _ => by rw [setPhase_channel]
  mem_iff := forall_setPhase (P := fun k p => k ∈ existing ↔ p ≠ .deleted)
    (iff_of_true ((h.mem_iff s).mpr halive) hphase) fun k _ => h.mem_iff k
  made := h.made
  max := h.max

theorem addSession (h : Occupied channelMax existing c) {channel : UInt32} {channels : Bitmap}
    (hnext : c.channels.next = (channel, true, channels)) (opts : Option SessionOptions) :
    Occupied channelMax (c.sessionCount :: existing) (c.addSession channel channels opts) := by
  obtain ⟨hle, hmax⟩ := Bitmap.next_le hnext
  have hnew : c.sessionCount ∉ existing := fun hmem => Nat.lt_irrefl _ (h.made _ hmem)
  have hself : (c.addSession channel channels opts).session c.sessionCount = .new channel.toUInt16 opts :=
    update_self ..
  have hother : ∀ k, k ≠ c.sessionCount → (c.addSession channel channels opts).session k = c.session k :=
    fun k hk => update_of_ne hk ..
  -- the number fits into a channel
  have hchannel : channel.toUInt16.toUInt32 = channel := by
    rw [h.max, le_iff_toNat_le, UInt16.toNat_toUInt32] at hle
    have hlt : channel.toNat < 2 ^ 16 := Nat.lt_of_le_of_lt hle channelMax.toNat_lt
    rw [← UInt32.toNat_inj, UInt16.toNat_toUInt32, UInt32.toNat_toUInt16, Nat.mod_eq_of_lt hlt]
  refine ⟨h.pool.add hnext hnew ?_ fun k hk => ?_, fun k => ?_, ?_, hmax.trans h.max⟩
  · rw [hself]
    exact hchannel
  · rw [hother k fun heq => hnew (heq ▸ hk)]
  · rw [List.mem_cons]
    by_cases hk : k = c.sessionCount
    · simp [hk, hself, new]
    · rw [hother k hk, h.mem_iff]
      simp [hk]
  · exact List.forall_mem_cons.mpr ⟨Nat.lt_succ_self _, fun k hk => Nat.lt_succ_of_lt (h.made k hk)⟩

theorem deleteSession (h : Occupied channelMax existing c) (halive : (c.session s).phase ≠ .deleted) :
    Occupied channelMax (existing.erase s) (c.deleteSession s) where
  pool := (h.pool.remove ((h.mem_iff s).mpr halive)).congr fun k _ =>
    congrArg UInt16.toUInt32 (setPhase_channel .deleted k)
  mem_iff := forall_setPhase (P := fun k p => k ∈ existing.erase s ↔ p ≠ .deleted)
    (by simp [h.pool.nodup.mem_erase_iff]) fun k hk => by simp [h.pool.nodup.mem_erase_iff, hk, h.mem_iff]
  made k hk := h.made k (List.mem_of_mem_erase hk)
  max := h.max

/-- **One step** of the connection. -/
theorem step {c' : Connection} {i : ConnInput} {events : List ConnEvent} (h : Occupied channelMax existing c)
    (hstep : c.step i = some (c', events)) : ∃ existing', Occupied channelMax existing' c' := by
  cases step_cases hstep with
  | refused opts text => exact ⟨existing, h⟩
  | opened opts channel channels hnext => exact ⟨_, h.addSession hnext opts⟩
  | session s i r hr =>
    obtain ⟨halive, hphase⟩ := step_alive hr
    exact ⟨existing, h.setPhase halive hphase⟩
  | deleted s hdeletes =>
    refine ⟨_, h.deleteSession (s := s) fun hp => ?_⟩
    rw [hp] at hdeletes
    cases hdeletes
  | handOver s body r hreader hr =>
    obtain ⟨halive, hphase⟩ := receive_alive hr
    have hread : Occupied channelMax existing { c with reader := .reading } := { h with }
    exact ⟨existing, hread.setPhase halive hphase⟩
  | _ => exact ⟨existing, { h with }⟩

end Occupied

theorem occupied_of_run {channelMax : UInt16} {trace : Trace ConnInput ConnEvent} {c : Connection}
    (h : Run (Fires Connection.step) (.start channelMax) trace c) : ∃ existing, Occupied channelMax existing c := by
  refine h.invariant (P := fun _ c => ∃ existing, Occupied channelMax existing c) ⟨[], .start channelMax⟩ ?_
  rintro trace c ⟨i, events⟩ c' ⟨existing, hocc⟩ hstep
  exact hocc.step hstep

/-- Sessions can be made as long as there are channels. -/
theorem exists_run_sessions (channelMax : UInt16) {k : Nat} (hk : k ≤ channelMax.toNat + 1) :
    ∃ trace c existing, Run (Fires Connection.step) (.start channelMax) trace c ∧
      Occupied channelMax existing c ∧ existing.length = k := by
  induction k with
  | zero => exact ⟨[], _, [], .start, .start channelMax, rfl⟩
  | succ k ih =>
    obtain ⟨trace, c, existing, hrun, hocc, hlen⟩ := ih (by omega)
    obtain ⟨channel, channels, hnext⟩ := hocc.pool.next_of_length (by
      rw [hocc.max, UInt16.toNat_toUInt32]
      omega)
    have hfires : Fires Connection.step c (.newSession none, [.opened c.sessionCount])
        (c.addSession channel channels none) := by
      simp [Fires, Connection.step, newSession, hnext]
    exact ⟨_, _, _, hrun.step hfires, hocc.addSession hnext none, by rw [List.length_cons, hlen]⟩

end Connection

/-! ## Links -/

namespace Session

/-- A link whose key is free gets a handle as long as there is one. -/
theorem allocateHandle_of_free {s : Session} {l : LinkID} {next : UInt32} {handles : Bitmap}
    (hkey : s.linksByKey (s.link l).key = none) (hnext : s.handles.next = (next, true, handles)) :
    ∃ s', s.allocateHandle l = .ok s' ∧ ∀ k, (s'.link k).key = (s.link k).key := by
  refine ⟨_, by simp only [allocateHandle, hkey, hnext]; rfl, fun k => ?_⟩
  dsimp only
  by_cases hk : k = l
  · rw [hk, update_self]
  · rw [update_of_ne hk]

/-- Links can be made as long as there are handles. -/
theorem exists_run_links (incomingWindow outgoingWindow handleMax : UInt32) (remoteBegin : PerformBegin) {k : Nat}
    (hk : k ≤ handleMax.toNat + 1) :
    ∃ live s, TableRun (.start incomingWindow outgoingWindow handleMax remoteBegin) live s ∧ live.length = k ∧
      ∀ l ∈ live, (s.link l).key.name.length < k := by
  induction k with
  | zero => exact ⟨[], _, .start, rfl, by simp⟩
  | succ k ih =>
    obtain ⟨live, s, hrun, hlen, hnames⟩ := ih (by omega)
    -- a name longer than all of the others
    let key : LinkKey := ⟨List.replicate k 0, Role.sender⟩
    have hmade := hrun.made key none
    have hlink : (s.makeLink key none).link s.linkCount = ⟨key, 0, 0, none⟩ := update_self ..
    have hold : ∀ l ∈ live, (s.makeLink key none).link l = s.link l := fun l hl =>
      makeLink_link key none (hrun.tables.made l hl)
    have hfree : (s.makeLink key none).linksByKey ((s.makeLink key none).link s.linkCount).key = none := by
      rw [hlink, hmade.tables.key_free_iff]
      intro l hl heq
      have hlt := hnames l hl
      rw [hold l hl] at heq
      rw [heq] at hlt
      simp [key] at hlt
    obtain ⟨next, handles, hnext⟩ := hmade.tables.pool.next_of_length (by
      rw [hmade.tables.max]
      omega)
    obtain ⟨s', hok, hkeys⟩ := allocateHandle_of_free hfree hnext
    have hnew : s.linkCount ∉ live := fun hmem => Nat.lt_irrefl _ (hrun.tables.made _ hmem)
    refine ⟨_, s', .allocated s.linkCount hmade (Nat.lt_succ_self _) hnew hok, by rw [List.length_cons, hlen], ?_⟩
    rw [List.forall_mem_cons]
    refine ⟨?_, fun l hl => ?_⟩
    · rw [hkeys, hlink]
      simp [key]
    · rw [hkeys, hold l hl]
      exact Nat.lt_succ_of_lt (hnames l hl)

end Session

/-! ## The four limits -/

/-- The maximal channel of an established connection is the smaller of `MaxSessions` and the peer's. -/
theorem toNat_channelMax {randString : Bytes} {opts : ConnOptions} {s : Negotiation}
    (h : newConn randString (some opts) = .ok s) (hpos : 0 < opts.maxSessions) (o : PerformOpen) :
    (s.update o).channelMax.toNat = min opts.maxSessions.toNat o.channelMax.toNat := by
  obtain ⟨maxFrameSize, saslHandlers, containerID, -, -, rfl⟩ := newConn_ok h
  simp only [Negotiation.update, Negotiation.start, ConnOptions.channelMaxOr, gt_iff_lt, hpos, if_true]
  split
  · next hlt =>
    rw [UInt16.lt_iff_toNat_lt] at hlt
    omega
  · next hge =>
    rw [UInt16.lt_iff_toNat_lt] at hge
    omega

/-- The maximal handle of a session is one less than `MaxLinks`. -/
theorem toNat_handleMax (channel : UInt16) {opts : SessionOptions} (hpos : 0 < opts.maxLinks) :
    (new channel (some opts)).handleMax.toNat + 1 = opts.maxLinks.toNat := by
  have hne : opts.maxLinks ≠ 0 := by
    rintro heq
    rw [heq] at hpos
    exact absurd hpos (by decide)
  have hle : 1 ≤ opts.maxLinks := by
    rw [le_iff_toNat_le]
    rw [lt_iff_toNat_lt] at hpos
    exact hpos
  have hsub := UInt32.toNat_sub_of_le opts.maxLinks 1 hle
  rw [le_iff_toNat_le] at hle
  simp only [new, option, ne_eq, hne, not_false_eq_true, if_true, hsub]
  change 1 ≤ opts.maxLinks.toNat at hle
  change opts.maxLinks.toNat - 1 + 1 = opts.maxLinks.toNat
  omega

/-- **Which limits hold over whole runs.** Channels are at most the peer's maximal channel, and a session has
    at most `MaxLinks` links. There are at most `MaxSessions` sessions in every run exactly if the maximal
    channel of the peer is smaller than that, and handles are at most the peer's maximal handle in every run
    exactly if `MaxLinks` is so small that no greater handle exists. -/
theorem limits_hold_iff {randString : Bytes} {opts : ConnOptions} {conn : Negotiation}
    (hconn : newConn randString (some opts) = .ok conn) (hsessions : 0 < opts.maxSessions) (o : PerformOpen)
    (channel : UInt16) (sessionOpts : SessionOptions) (hlinks : 0 < sessionOpts.maxLinks)
    (incomingWindow outgoingWindow : UInt32) (remoteBegin : PerformBegin) :
    ((∀ trace c, Run (Fires Connection.step) (.start (conn.update o).channelMax) trace c →
        ∀ existing : List SessionID, existing.Nodup → (∀ s ∈ existing, (c.session s).phase ≠ .deleted) →
          existing.length ≤ opts.maxSessions.toNat) ↔
      o.channelMax < opts.maxSessions) ∧
    (∀ trace c, Run (Fires Connection.step) (.start (conn.update o).channelMax) trace c →
      ∀ s, (c.session s).phase ≠ .deleted → (c.session s).channel ≤ o.channelMax) ∧
    (∀ live s, Session.TableRun (.start incomingWindow outgoingWindow
        (new channel (some sessionOpts)).handleMax remoteBegin) live s →
      live.length ≤ sessionOpts.maxLinks.toNat) ∧
    ((∀ live s, Session.TableRun (.start incomingWindow outgoingWindow
        (new channel (some sessionOpts)).handleMax remoteBegin) live s →
        ∀ l ∈ live, (s.link l).handle ≤ remoteBegin.handleMax) ↔
      sessionOpts.maxLinks.toNat ≤ remoteBegin.handleMax.toNat + 1) := by
  have hmax := toNat_channelMax hconn hsessions o
  have hhandle := toNat_handleMax channel hlinks
  refine ⟨⟨fun hall => ?_, fun hlt trace c hrun existing hnodup hexist => ?_⟩, fun trace c hrun s hs => ?_,
    fun live s hrun => ?_, fun hall => ?_, fun hle live s hrun l hl => ?_⟩
  · obtain ⟨trace, c, existing, hrun, hocc, hlen⟩ := Connection.exists_run_sessions (conn.update o).channelMax
      (Nat.le_refl _)
    have hle := hall trace c hrun existing hocc.pool.nodup fun s hs => (hocc.mem_iff s).mp hs
    rw [UInt16.lt_iff_toNat_lt]
    omega
  · obtain ⟨holders, hocc⟩ := Connection.occupied_of_run hrun
    have hsub := (hnodup.subperm fun s hs => (hocc.mem_iff s).mpr (hexist s hs)).length_le
    have hle := hocc.pool.length_le hocc.pool.bounded
    rw [hocc.max, UInt16.toNat_toUInt32] at hle
    rw [UInt16.lt_iff_toNat_lt] at hlt
    omega
  · obtain ⟨holders, hocc⟩ := Connection.occupied_of_run hrun
    have hle := hocc.pool.bounded s ((hocc.mem_iff s).mpr hs)
    rw [hocc.max, le_iff_toNat_le, UInt16.toNat_toUInt32, UInt16.toNat_toUInt32] at hle
    rw [UInt16.le_iff_toNat_le]
    omega
  · have hle := hrun.tables.pool.length_le hrun.tables.pool.bounded
    rw [hrun.tables.max] at hle
    omega
  · -- with all handles taken, the greatest of them is beyond every smaller limit
    obtain ⟨live, s, hrun, hlen, -⟩ := Session.exists_run_links incomingWindow outgoingWindow
      (new channel (some sessionOpts)).handleMax remoteBegin (Nat.le_refl _)
    have hle := hrun.tables.pool.length_le (hall live s hrun)
    omega
  · have hbound := hrun.tables.pool.bounded l hl
    rw [hrun.tables.max, le_iff_toNat_le] at hbound
    rw [le_iff_toNat_le]
    omega

/-- Ten sessions, of which the peer admits six, with three links each. -/
theorem limits_hold_iff_small :
    ∃ conn, newConn [] (some { ConnOptions.zero with maxSessions := 10 }) = .ok conn ∧
      (∀ trace c, Run (Fires Connection.step)
          (.start (conn.update { PerformOpen.zero with channelMax := 5 }).channelMax) trace c →
        ∀ existing : List SessionID, existing.Nodup → (∀ s ∈ existing, (c.session s).phase ≠ .deleted) →
          existing.length ≤ 10) ∧
      (∀ live s, Session.TableRun (.start 1 1 (new 0 (some ⟨1, 1, 3⟩)).handleMax
          { PerformBegin.zero with handleMax := 7 }) live s → ∀ l ∈ live, (s.link l).handle ≤ 7) := by
  have hconn : newConn [] (some { ConnOptions.zero with maxSessions := 10 }) = .ok _ := rfl
  obtain ⟨hsessions, -, -, hhandles⟩ := limits_hold_iff hconn (by decide)
    { PerformOpen.zero with channelMax := 5 } 0 ⟨1, 1, 3⟩ (by decide) 1 1 { PerformBegin.zero with handleMax := 7 }
  exact ⟨_, hconn, hsessions.mpr (by decide), hhandles.mpr (by decide)⟩

/-- With `MaxSessions` 1 there are two sessions, and with `MaxLinks` 2 a handle that the peer does not admit. -/
theorem limits_exceeded :
    (∃ conn trace c, newConn [] (some { ConnOptions.zero with maxSessions := 1 }) = .ok conn ∧
      Run (Fires Connection.step)
        (.start (conn.update { PerformOpen.zero with channelMax := 65535 }).channelMax) trace c ∧
      (c.session 0).phase ≠ .deleted ∧ (c.session 1).phase ≠ .deleted) ∧
    ∃ s, Session.TableRun (.start 1 1 (new 0 (some ⟨1, 1, 2⟩)).handleMax
        { PerformBegin.zero with handleMax := 0 }) [1, 0] s ∧ (s.link 1).handle = 1 := by
  refine ⟨⟨_, _, _, rfl, .of_exec [.newSession none, .newSession none] .start rfl, ?_, ?_⟩, _,
    .allocated 1 (.allocated 0 (.made ⟨[2], Role.sender⟩ none (.made ⟨[1], Role.sender⟩ none .start))
      (by decide) (by decide) rfl) (by decide) (by decide) rfl, rfl⟩
  · exact fun h => by cases h
  · exact fun h => by cases h

end GoAmqp
