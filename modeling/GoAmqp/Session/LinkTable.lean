import GoAmqp.Lib.Transition
import GoAmqp.Session.Links

set_option autoImplicit false

/-! # The link table over whole runs

`linksByKey` and the bitmap of handles are two pictures of one set, the links that hold a handle. A run is
given here with that set (`TableRun`): a link joins it when `allocateHandle` succeeds and leaves it with
`deallocateHandle`, and every other step of the session leaves it alone. `Tables` says that both pictures
show it, and is kept by each kind of step. `linkTable_consistent` draws the conclusions, together with what
the next `allocateHandle` does.

That the handle is the least free one comes from the bitmap (`Bitmap.next_least`, `Bitmap.next_full`). -/

namespace GoAmqp

open Lib Function

namespace Session

/-- The runs of a session, with the links that hold a handle. Links get and return their handles in any
    order, and a link may ask as long as it has none. -/
inductive TableRun (s₀ : Session) : List LinkID → Session → Prop
  | start : TableRun s₀ [] s₀
  | made {live : List LinkID} {s : Session} (key : LinkKey) (mode : Option ReceiverSettleMode) :
      TableRun s₀ live s → TableRun s₀ live (s.makeLink key mode)
  | allocated {live : List LinkID} {s s' : Session} (l : LinkID) : TableRun s₀ live s →
      l < s.linkCount → l ∉ live → s.allocateHandle l = .ok s' → TableRun s₀ (l :: live) s'
  | deallocated {live : List LinkID} {s : Session} (l : LinkID) : TableRun s₀ live s → l ∈ live →
      TableRun s₀ (live.erase l) (s.deallocateHandle l)
  | other {live : List LinkID} {s s' : Session} {i : MuxInput} {events : List MuxEvent} :
      TableRun s₀ live s → s.step i = some (s', events) → touchesTable i = false → TableRun s₀ live s'

/-! ## The invariant -/

/-- Both tables show the links of `live`. -/
structure Tables (handleMax : UInt32) (live : List LinkID) (s : Session) : Prop where
  pool : s.handles.Pool live fun l => (s.link l).handle
  keyed : ∀ k l, s.linksByKey k = some l ↔ l ∈ live ∧ (s.link l).key = k
  made : ∀ l ∈ live, l < s.linkCount
  max : s.handles.max = handleMax

variable {l : LinkID} {handleMax : UInt32} {live : List LinkID} {s : Session}

namespace Tables

variable {handleMax : UInt32} {live : List LinkID} {s s' : Session}

theorem start (incomingWindow outgoingWindow handleMax : UInt32) (remoteBegin : PerformBegin) :
    Tables handleMax [] (.start incomingWindow outgoingWindow handleMax remoteBegin) where
  pool := .new handleMax _
  keyed := by simp [Session.start]
  made := by simp
  max := rfl

variable (h : Tables handleMax live s)

include h

/-- The links that hold a handle are the registered ones. -/
theorem mem_iff (l : LinkID) : l ∈ live ↔ s.live l := by
  rw [Session.live, h.keyed]
  simp

theorem key_free_iff (k : LinkKey) : s.linksByKey k = none ↔ ∀ l ∈ live, (s.link l).key ≠ k := by
  rw [Option.eq_none_iff_forall_ne_some]
  refine forall_congr' fun l => ?_
  rw [ne_eq, h.keyed, not_and]

/-- The tables show the same links when nothing has changed for them. -/
theorem of_eq (hhandles : s'.handles = s.handles) (hlinks : s'.linksByKey = s.linksByKey)
    (hcount : s.linkCount ≤ s'.linkCount)
    (hlink : ∀ l ∈ live, (s'.link l).key = (s.link l).key ∧ (s'.link l).handle = (s.link l).handle) :
    Tables handleMax live s' where
  pool := hhandles ▸ h.pool.congr fun l hl => (hlink l hl).2
  keyed k l := by
    rw [hlinks, h.keyed]
    exact and_congr_right fun hl => by rw [(hlink l hl).1]
  made l hl := Nat.lt_of_lt_of_le (h.made l hl) hcount
  max := hhandles ▸ h.max

theorem same (hs : SameTable s s') : Tables handleMax live s' :=
  h.of_eq hs.handles hs.linksByKey (Nat.le_of_eq hs.linkCount.symm) fun l _ => ⟨hs.key l, hs.handle l⟩

theorem makeLink (key : LinkKey) (mode : Option ReceiverSettleMode) :
    Tables handleMax live (s.makeLink key mode) := by
  refine h.of_eq rfl rfl (Nat.le_succ _) fun l hl => ?_
  rw [makeLink_link key mode (h.made l hl)]
  exact ⟨rfl, rfl⟩

theorem allocateHandle (hlt : l < s.linkCount) (hl : l ∉ live) (hok : s.allocateHandle l = .ok s')
    : Tables handleMax (l :: live) s' := by
  obtain ⟨next, handles, hnext, hnone, rfl⟩ := allocateHandle_ok hok
  have hother : ∀ k ∈ live, k ≠ l := fun k hk heq => hl (heq ▸ hk)
  refine ⟨?_, fun key k => ?_, ?_, (Bitmap.next_le hnext).2.trans h.max⟩
  · refine h.pool.add hnext hl ?_ fun k hk => ?_ <;> dsimp only
    · rw [update_self]
    · rw [update_of_ne (hother k hk)]
  · dsimp only
    rw [List.mem_cons]
    by_cases hk : k = l
    · -- the new entry is the only one of `l`
      subst hk
      rw [update_self, update_apply]
      split
      · next heq => simp [heq]
      · next hne => simp [h.keyed, hl, Ne.symm hne]
    · rw [update_of_ne hk, update_apply]
      split
      · next heq =>
        -- the key was free, so that no other link has it
        have hfree := (h.key_free_iff _).mp hnone k
        simp only [Option.some.injEq, hk, false_or, heq]
        exact ⟨fun hlk => absurd hlk.symm hk, fun hmem => absurd hmem.2 (hfree hmem.1)⟩
      · simp [h.keyed, hk]
  · exact List.forall_mem_cons.mpr ⟨hlt, h.made⟩

theorem deallocateHandle (hl : l ∈ live) : Tables handleMax (live.erase l) (s.deallocateHandle l) := by
  refine ⟨h.pool.remove hl, fun key k => ?_, fun k hk => h.made k (List.mem_of_mem_erase hk), h.max⟩
  show update s.linksByKey (s.link l).key none key = some k ↔ k ∈ live.erase l ∧ (s.link k).key = key
  rw [h.pool.nodup.mem_erase_iff, update_apply]
  split
  · next heq =>
    -- the entry under the key of `l` was that of `l`
    refine ⟨fun hnone => (by cases hnone), ?_⟩
    rintro ⟨⟨hne, hk⟩, rfl⟩
    have hentry := (h.keyed _ k).mpr ⟨hk, rfl⟩
    rw [heq, (h.keyed _ l).mpr ⟨hl, rfl⟩] at hentry
    exact absurd (Option.some.inj hentry).symm hne
  · next hne =>
    rw [h.keyed]
    refine ⟨?_, fun hk => ⟨hk.1.2, hk.2⟩⟩
    rintro ⟨hk, rfl⟩
    exact ⟨⟨fun heq => hne (by rw [heq]), hk⟩, rfl⟩

end Tables

/-- **Both tables show the links that hold a handle**, after every run. -/
theorem TableRun.tables {incomingWindow outgoingWindow : UInt32} {remoteBegin : PerformBegin}
    (h : TableRun (.start incomingWindow outgoingWindow handleMax remoteBegin) live s) : Tables handleMax live s := by
  induction h with
  | start => exact .start ..
  | made key mode _ ih => exact ih.makeLink key mode
  | allocated l _ hlt hl hok ih => exact ih.allocateHandle hlt hl hok
  | deallocated l _ hl ih => exact ih.deallocateHandle hl
  | other _ hstep hi ih => exact ih.same (sameTable_step hstep hi)

/-- Every run of the mux and its links is one. -/
theorem TableRun.of_run {incomingWindow outgoingWindow : UInt32} {remoteBegin : PerformBegin}
    {trace : Trace MuxInput MuxEvent}
    (h : Run (Fires Session.step) (.start incomingWindow outgoingWindow handleMax remoteBegin) trace s) :
    ∃ live, TableRun (.start incomingWindow outgoingWindow handleMax remoteBegin) live s := by
  induction h with
  | start => exact ⟨[], .start⟩
  | @step trace s s' l hrun hstep ih =>
    obtain ⟨live, ih⟩ := ih
    cases hi : touchesTable l.1 with
    | false => exact ⟨live, .other ih hstep hi⟩
    | true =>
      obtain ⟨i, events⟩ := l
      cases step_cases hstep with
      | newLink key mode =>
        have hnew : s.linkCount ∉ live := fun hmem => Nat.lt_irrefl _ (ih.tables.made _ hmem)
        unfold Session.newLink
        split
        · next s' hok =>
          exact ⟨_, .allocated s.linkCount (.made key mode ih) (Nat.lt_succ_self _) hnew hok⟩
        · exact ⟨live, .made key mode ih⟩
      | deallocateHandle l hl => exact ⟨_, .deallocated l ih ((ih.tables.mem_iff l).mpr hl)⟩
      | _ => cases hi

/-! ## What the tables show -/

/-- The links of `live` have keys and handles of their own, and these are what the tables hold. -/
structure Consistent (handleMax : UInt32) (live : List LinkID) (s : Session) : Prop where
  keys : ∀ l ∈ live, ∀ l' ∈ live, (s.link l).key = (s.link l').key → l = l'
  handles : ∀ l ∈ live, ∀ l' ∈ live, (s.link l).handle = (s.link l').handle → l = l'
  bounded : ∀ l ∈ live, (s.link l).handle ≤ handleMax
  linksByKey : ∀ k l, s.linksByKey k = some l ↔ l ∈ live ∧ (s.link l).key = k
  bits : ∀ n, s.handles.has n = true ↔ ∃ l ∈ live, (s.link l).handle = n

/-- What `allocateHandle` does for the link `l`. -/
structure Allocates (handleMax : UInt32) (live : List LinkID) (s : Session) (l : LinkID) : Prop where
  fails_iff : (∃ err, s.allocateHandle l = .error err) ↔
    (∃ k ∈ live, (s.link k).key = (s.link l).key) ∨ ∀ n ≤ handleMax, ∃ k ∈ live, (s.link k).handle = n
  free : ∀ s', s.allocateHandle l = .ok s' → ∀ k ∈ live, (s.link k).handle ≠ (s'.link l).handle
  least : ∀ s', s.allocateHandle l = .ok s' → ∀ n < (s'.link l).handle, ∃ k ∈ live, (s.link k).handle = n
  /-- a failing call comes to the bitmap only if the key is free, and then leaves it as it is -/
  unchanged : ∀ err, s.allocateHandle l = .error err → s.linksByKey (s.link l).key = none →
    ∃ n, s.handles.next = (n, false, s.handles)

theorem Tables.consistent (h : Tables handleMax live s) : Consistent handleMax live s where
  keys l hl l' hl' heq := by
    have hentry := (h.keyed _ l').mpr ⟨hl', rfl⟩
    rw [← heq, (h.keyed _ l).mpr ⟨hl, rfl⟩] at hentry
    exact Option.some.inj hentry
  handles := h.pool.distinct
  bounded := h.max ▸ h.pool.bounded
  linksByKey := h.keyed
  bits := h.pool.has_iff

/-- When `allocateHandle` fails. -/
theorem allocateHandle_error {err : Bytes} (h : s.allocateHandle l = .error err) :
    (∃ k, s.linksByKey (s.link l).key = some k) ∨ ∃ n, s.handles.next = (n, false, s.handles) := by
  unfold allocateHandle at h
  split at h
  · next k hk => exact .inl ⟨k, hk⟩
  · split at h
    · next n handles hnext =>
      obtain ⟨rfl, -⟩ := Bitmap.next_full hnext
      exact .inr ⟨n, hnext⟩
    · cases h

/-- The handle the link gets comes from the bitmap. -/
theorem allocateHandle_handle {s' : Session} (hok : s.allocateHandle l = .ok s') :
    ∃ handles, s.handles.next = ((s'.link l).handle, true, handles) := by
  obtain ⟨next, handles, hnext, -, rfl⟩ := allocateHandle_ok hok
  refine ⟨handles, ?_⟩
  dsimp only
  rw [update_self]
  exact hnext

theorem Tables.allocates (h : Tables handleMax live s) (l : LinkID) : Allocates handleMax live s l := by
  have hfull := h.max ▸ h.pool.next_fails_iff
  refine ⟨⟨?_, fun htaken => ?_⟩, fun s' hok k hk => ?_, fun s' hok n hn => ?_, fun err herr hnone => ?_⟩
  · rintro ⟨err, herr⟩
    rcases allocateHandle_error herr with ⟨k, hk⟩ | ⟨n, hnext⟩
    · exact .inl ⟨k, (h.keyed _ k).mp hk⟩
    · exact .inr (hfull.mp (by rw [hnext]))
  · cases hrun : s.allocateHandle l with
    | error err => exact ⟨err, rfl⟩
    | ok s' =>
      obtain ⟨next, handles, hnext, hnone, -⟩ := allocateHandle_ok hrun
      rcases htaken with ⟨k, hk, hkey⟩ | hall
      · exact absurd hkey ((h.key_free_iff _).mp hnone k hk)
      · have hfails := hfull.mpr hall
        rw [hnext] at hfails
        cases hfails
  · obtain ⟨handles, hnext⟩ := allocateHandle_handle hok
    exact h.pool.next_ne hnext hk
  · obtain ⟨handles, hnext⟩ := allocateHandle_handle hok
    exact (h.pool.has_iff n).mp (Bitmap.next_least hnext hn)
  · rcases allocateHandle_error herr with ⟨k, hk⟩ | hnext
    · rw [hnone] at hk
      cases hk
    · exact hnext

/-- **The link table is consistent.** After every sequence of allocations and releases, interleaved with
    any steps of the mux, the links that hold a handle have distinct keys and distinct handles up to the
    maximum, and `linksByKey` and the bitmap show exactly them. The next `allocateHandle` fails exactly if
    the key is taken or every handle is in use, assigns the least free handle otherwise, and changes nothing
    if it fails. -/
theorem linkTable_consistent (incomingWindow outgoingWindow handleMax : UInt32) (remoteBegin : PerformBegin)
    {live : List LinkID} {s : Session}
    (h : TableRun (.start incomingWindow outgoingWindow handleMax remoteBegin) live s) :
    Consistent handleMax live s ∧
    ∀ l, l < s.linkCount → l ∉ live → Allocates handleMax live s l :=
  ⟨h.tables.consistent, fun l _ _ => h.tables.allocates l⟩

/-- Of two links that fill the table the first leaves: the third gets its handle. -/
theorem linkTable_consistent_reuse :
    ∃ s, TableRun (.start 1 1 1 .zero) [1] s ∧ Consistent 1 [1] s ∧ Allocates 1 [1] s 2 := by
  have hrun : TableRun (.start 1 1 1 .zero) ([1, 0].erase 0) _ := .deallocated 0
    (.allocated 1 (.allocated 0 (.made ⟨[3], Role.sender⟩ none (.made ⟨[2], Role.sender⟩ none
      (.made ⟨[1], Role.sender⟩ none .start))) (by decide) (by decide) rfl) (by decide) (by decide) rfl)
    (by decide)
  obtain ⟨hconsistent, hallocates⟩ := linkTable_consistent 1 1 1 .zero hrun
  exact ⟨_, hrun, hconsistent, hallocates 2 (by decide) (by decide)⟩

end Session

end GoAmqp
