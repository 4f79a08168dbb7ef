import GoAmqp.Session.Mux

set_option autoImplicit false

/-! # The links of a session

The registered links have handles of their own (`TableInv`), because `allocateHandle` takes one that is
free and `deallocateHandle` gives back only the link's own. Apart from these two, steps of the session
leave the table alone; most of them can also only remove entries from the maps that route dispositions
(`Keeps`). -/

namespace GoAmqp

open Lib Function

variable {s s' : Session} {l : LinkID}

namespace Session

/-- The tables of links are the same, up to remote handles and settle modes. -/
structure SameTable (s s' : Session) : Prop where
  linksByKey : s'.linksByKey = s.linksByKey
  handles : s'.handles = s.handles
  linkCount : s'.linkCount = s.linkCount
  key : ∀ l, (s'.link l).key = (s.link l).key
  handle : ∀ l, (s'.link l).handle = (s.link l).handle

theorem SameTable.refl (s : Session) : SameTable s s := ⟨rfl, rfl, rfl, fun _ => rfl, fun _ => rfl⟩

theorem SameTable.trans {t u : Session} (h : SameTable s t) (h' : SameTable t u) : SameTable s u :=
  ⟨h'.linksByKey.trans h.linksByKey, h'.handles.trans h.handles, h'.linkCount.trans h.linkCount,
    fun l => (h'.key l).trans (h.key l), fun l => (h'.handle l).trans (h.handle l)⟩

theorem SameTable.live_iff (h : SameTable s s') (l : LinkID) : s'.live l ↔ s.live l := by
  rw [live, live, h.linksByKey, h.key]

/-! ## Distinct handles -/

/-- The tables of the session agree: keys, handles and links name each other. -/
structure TableInv (s : Session) : Prop where
  keyed : ∀ k l, s.linksByKey k = some l → (s.link l).key = k ∧ l < s.linkCount
  reserved : ∀ l, s.live l → s.handles.has (s.link l).handle = true
  distinct : ∀ l l', s.live l → s.live l' → (s.link l).handle = (s.link l').handle → l = l'

theorem TableInv.live_lt (h : TableInv s) (hl : s.live l) : l < s.linkCount := (h.keyed _ l hl).2

theorem TableInv.start (incomingWindow outgoingWindow handleMax : UInt32) (remoteBegin : PerformBegin) :
    TableInv (.start incomingWindow outgoingWindow handleMax remoteBegin) :=
  ⟨fun _ _ h => (by cases h), fun _ h => (by cases h), fun _ _ h => (by cases h)⟩

theorem TableInv.same (h : TableInv s) (hs : SameTable s s') : TableInv s' := by
  refine ⟨fun k l hl => ?_, fun l hl => ?_, fun l l' hl hl' heq => ?_⟩
  · rw [hs.linksByKey] at hl
    rw [hs.key, hs.linkCount]
    exact h.keyed k l hl
  · rw [hs.handles, hs.handle]
    exact h.reserved l ((hs.live_iff l).1 hl)
  · rw [hs.handle, hs.handle] at heq
    exact h.distinct l l' ((hs.live_iff l).1 hl) ((hs.live_iff l').1 hl') heq

/-- The links that stay are those registered before, up to `l`. -/
theorem deallocateHandle_live (hl : s.live l) (k : LinkID) : (s.deallocateHandle l).live k ↔ s.live k ∧ k ≠ l := by
  show update s.linksByKey (s.link l).key none (s.link k).key = some k ↔ _
  by_cases hkey : (s.link k).key = (s.link l).key
  · -- the entry under the key is that of `l`
    rw [hkey, update_self, live, hkey, hl]
    simp [eq_comm]
  · rw [update_of_ne hkey]
    exact ⟨fun hk => ⟨hk, fun heq => hkey (by rw [heq])⟩, fun hk => hk.1⟩

theorem TableInv.deallocateHandle (h : TableInv s) (hl : s.live l) : TableInv (s.deallocateHandle l) := by
  have hlive := deallocateHandle_live hl
  refine ⟨fun k m hm => ?_, fun k hk => ?_, fun k k' hk hk' heq => ?_⟩
  · have hm' : update s.linksByKey (s.link l).key none k = some m := hm
    by_cases hkey : k = (s.link l).key
    · rw [hkey, update_self] at hm'
      cases hm'
    · rw [update_of_ne hkey] at hm'
      exact h.keyed k m hm'
  · obtain ⟨hk, hne⟩ := (hlive k).mp hk
    have hhandle : (s.link k).handle ≠ (s.link l).handle := fun heq => hne (h.distinct k l hk hl heq)
    show (s.handles.remove (s.link l).handle).has (s.link k).handle = true
    rw [Bitmap.has_remove, h.reserved k hk]
    simp [hhandle]
  · exact h.distinct k k' ((hlive k).mp hk).1 ((hlive k').mp hk').1 heq

/-- What `allocateHandle` does when it succeeds. -/
theorem allocateHandle_ok (h : s.allocateHandle l = .ok s') :
    ∃ next handles, s.handles.next = (next, true, handles) ∧ s.linksByKey (s.link l).key = none ∧
      s' = { s with
        handles := handles
        link := update s.link l { s.link l with handle := next }
        linksByKey := update s.linksByKey (s.link l).key (some l) } := by
  unfold allocateHandle at h
  split at h
  · cases h
  · next hnone =>
    split at h
    · cases h
    · next next handles hnext =>
      cases h
      exact ⟨next, handles, hnext, hnone, rfl⟩

/-- What `newLink` does: the object gets the next number, and is registered if it gets a handle. -/
theorem newLink_cases (s : Session) (key : LinkKey) (mode : Option ReceiverSettleMode) :
    s.newLink key mode = s.makeLink key mode ∨
    ∃ next handles, s.handles.next = (next, true, handles) ∧ s.linksByKey key = none ∧
      s.newLink key mode = { s.makeLink key mode with
        handles := handles
        link := update (s.makeLink key mode).link s.linkCount ⟨key, next, 0, mode⟩
        linksByKey := update s.linksByKey key (some s.linkCount) } := by
  have hlink : (s.makeLink key mode).link s.linkCount = ⟨key, 0, 0, mode⟩ := update_self ..
  unfold newLink
  split
  · next s' hok =>
    obtain ⟨next, handles, hnext, hnone, heq⟩ := allocateHandle_ok hok
    rw [hlink] at hnone heq
    exact .inr ⟨next, handles, hnext, hnone, heq⟩
  · left; rfl

/-- The other links are not touched. -/
theorem newLink_link {key : LinkKey} {mode : Option ReceiverSettleMode} (hl : l ≠ s.linkCount) :
    (s.newLink key mode).link l = s.link l := by
  have hmade : (s.makeLink key mode).link l = s.link l := update_of_ne hl ..
  rcases newLink_cases s key mode with heq | ⟨next, handles, -, -, heq⟩
  · rw [heq, hmade]
  · rw [heq]
    exact (update_of_ne hl ..).trans hmade

theorem newLink_linkCount (s : Session) (key : LinkKey) (mode : Option ReceiverSettleMode) :
    (s.newLink key mode).linkCount = s.linkCount + 1 := by
  rcases newLink_cases s key mode with heq | ⟨next, handles, -, -, heq⟩ <;> rw [heq] <;> rfl

/-- A link registered after `newLink` is the new one or was registered before. -/
theorem newLink_live {key : LinkKey} {mode : Option ReceiverSettleMode} (hl : (s.newLink key mode).live l) :
    l = s.linkCount ∨ (l ≠ s.linkCount ∧ s.live l) := by
  by_cases hne : l = s.linkCount
  · exact .inl hne
  · refine .inr ⟨hne, ?_⟩
    rw [live, newLink_link hne] at hl
    rcases newLink_cases s key mode with heq | ⟨next, handles, -, -, heq⟩
    · rw [heq] at hl
      exact hl
    · rw [heq] at hl
      have hl' : update s.linksByKey key (some s.linkCount) (s.link l).key = some l := hl
      by_cases hkey : (s.link l).key = key
      · rw [hkey, update_self] at hl'
        exact absurd (Option.some.inj hl').symm hne
      · rw [update_of_ne hkey] at hl'
        exact hl'

theorem makeLink_link (key : LinkKey) (mode : Option ReceiverSettleMode) (hl : l < s.linkCount) :
    (s.makeLink key mode).link l = s.link l :=
  update_of_ne (Nat.ne_of_lt hl) ..

/-- A link object is not registered when it is made. -/
theorem TableInv.makeLink_live (h : TableInv s) (key : LinkKey) (mode : Option ReceiverSettleMode)
    (l : LinkID) : (s.makeLink key mode).live l ↔ s.live l := by
  refine ⟨fun hl => ?_, fun hl => ?_⟩
  · have hlt := (h.keyed _ l hl).2
    rwa [live, makeLink_link key mode hlt] at hl
  · rwa [live, makeLink_link key mode (h.live_lt hl)]

theorem TableInv.makeLink (h : TableInv s) (key : LinkKey) (mode : Option ReceiverSettleMode) :
    TableInv (s.makeLink key mode) := by
  refine ⟨fun k l hl => ?_, fun l hl => ?_, fun l l' hl hl' heq => ?_⟩
  · obtain ⟨hkey, hlt⟩ := h.keyed k l hl
    rw [makeLink_link key mode hlt]
    exact ⟨hkey, Nat.lt_succ_of_lt hlt⟩
  · rw [h.makeLink_live] at hl
    rw [makeLink_link key mode (h.live_lt hl)]
    exact h.reserved l hl
  · rw [h.makeLink_live] at hl hl'
    rw [makeLink_link key mode (h.live_lt hl), makeLink_link key mode (h.live_lt hl')] at heq
    exact h.distinct l l' hl hl' heq

/-- The links registered after `allocateHandle` are the one that got the handle and those before. -/
theorem allocateHandle_live (hok : s.allocateHandle l = .ok s') (k : LinkID) :
    s'.live k ↔ k = l ∨ (k ≠ l ∧ s.live k) := by
  obtain ⟨next, handles, -, hnone, rfl⟩ := allocateHandle_ok hok
  by_cases hk : k = l
  · subst hk
    simp [live]
  · simp only [live, update_of_ne hk, hk, false_or, ne_eq, not_false_eq_true, true_and]
    by_cases hkey : (s.link k).key = (s.link l).key
    · -- the key was free, so that `k` is registered neither before nor after
      rw [hkey, update_self, hnone]
      simp [Ne.symm hk]
    · rw [update_of_ne hkey]

theorem TableInv.allocateHandle (h : TableInv s) (hlt : l < s.linkCount) (hok : s.allocateHandle l = .ok s') :
    TableInv s' := by
  have hlive := allocateHandle_live hok
  obtain ⟨next, handles, hnext, hnone, rfl⟩ := allocateHandle_ok hok
  obtain ⟨hfree, hhas⟩ := Bitmap.next_spec hnext
  have hother : ∀ k, s.live k → (s.link k).handle ≠ next := by
    intro k hk hcontra
    have hset := h.reserved k hk
    rw [hcontra, hfree] at hset
    cases hset
  refine ⟨fun k m hm => ?_, fun k hk => ?_, fun k k' hk hk' heq => ?_⟩
  · dsimp only at hm ⊢
    by_cases hkey : k = (s.link l).key
    · rw [hkey, update_self] at hm
      obtain rfl : l = m := Option.some.inj hm
      rw [update_self]
      exact ⟨hkey.symm, hlt⟩
    · rw [update_of_ne hkey] at hm
      obtain ⟨hk, hm⟩ := h.keyed k m hm
      have hne : m ≠ l := fun heq => hkey (by rw [← hk, heq])
      rw [update_of_ne hne]
      exact ⟨hk, hm⟩
  · dsimp only
    rw [hhas]
    rcases (hlive k).mp hk with rfl | ⟨hne, hk⟩
    · simp
    · rw [update_of_ne hne, h.reserved k hk, Bool.true_or]
  · dsimp only at heq
    rcases (hlive k).mp hk with rfl | ⟨hne, hold⟩ <;> rcases (hlive k').mp hk' with rfl | ⟨hne', hold'⟩
    · rfl
    · rw [update_self, update_of_ne hne'] at heq
      exact absurd heq.symm (hother k' hold')
    · rw [update_self, update_of_ne hne] at heq
      exact absurd heq (hother k hold)
    · rw [update_of_ne hne, update_of_ne hne'] at heq
      exact h.distinct k k' hold hold' heq

theorem TableInv.newLink (h : TableInv s) (key : LinkKey) (mode : Option ReceiverSettleMode) :
    TableInv (s.newLink key mode) := by
  unfold Session.newLink
  split
  · next s' hok => exact (h.makeLink key mode).allocateHandle (Nat.lt_succ_self _) hok
  · exact h.makeLink key mode

/-! ## Steps that leave the links alone -/

/-- The table is the same, and entries of the maps that route dispositions can only go. -/
structure Keeps (s s' : Session) : Prop where
  table : SameTable s s'
  links : ∀ h l, s'.links h = some l → s.links h = some l
  tracked : ∀ d h, s'.handlesByDeliveryID d = some h → s.handlesByDeliveryID d = some h

theorem Keeps.refl (s : Session) : Keeps s s := ⟨.refl s, fun _ _ h => h, fun _ _ h => h⟩

theorem Keeps.trans {t u : Session} (h : Keeps s t) (h' : Keeps t u) : Keeps s u :=
  ⟨h.table.trans h'.table, fun k l hl => h.links k l (h'.links k l hl),
    fun d k hd => h.tracked d k (h'.tracked d k hd)⟩

theorem keeps_phase (s : Session) (phase : MuxPhase) : Keeps s { s with phase := phase } :=
  ⟨⟨rfl, rfl, rfl, fun _ => rfl, fun _ => rfl⟩, fun _ _ h => h, fun _ _ h => h⟩

theorem update_none_eq_some {α β : Type} [DecidableEq α] {f : α → Option β} {a k : α} {b : β}
    (h : update f a none k = some b) : k ≠ a ∧ f k = some b := by
  by_cases hk : k = a
  · rw [hk, update_self] at h
    cases h
  · rw [update_of_ne hk] at h
    exact ⟨hk, h⟩

theorem keeps_deleteHandle (s : Session) (role : Role) (deliveryID : UInt32) :
    Keeps s (s.deleteHandle role deliveryID) := by
  unfold deleteHandle
  split
  · exact ⟨⟨rfl, rfl, rfl, fun _ => rfl, fun _ => rfl⟩, fun _ _ h => h, fun _ _ h => h⟩
  · exact ⟨⟨rfl, rfl, rfl, fun _ => rfl, fun _ => rfl⟩, fun _ _ h => h,
      fun _ _ h => (update_none_eq_some h).2⟩

theorem keeps_dispositionBody (s : Session) (body : PerformDisposition) (deliveryID : UInt32) :
    Keeps s (s.dispositionBody body deliveryID).1 := by
  unfold dispositionBody
  split
  · exact .refl s
  · dsimp only
    rw [confirm_eq]
    exact (keeps_deleteHandle s body.role deliveryID).trans
      ⟨⟨rfl, rfl, rfl, fun _ => rfl, fun _ => rfl⟩, fun _ _ h => h, fun _ _ h => h⟩

theorem keeps_dispositionRound (s : Session) (body : PerformDisposition) (deliveryID : UInt32) :
    Keeps s (s.dispositionRound body deliveryID).1 := by
  unfold dispositionRound
  split
  · exact (keeps_dispositionBody s body deliveryID).trans (keeps_phase _ _)
  · exact keeps_phase s _

theorem keeps_rxFlow (s : Session) (body : PerformFlow) : Keeps s (s.rxFlow body).1 := by
  rw [rxFlow_eq]
  exact ⟨⟨rfl, rfl, rfl, fun _ => rfl, fun _ => rfl⟩, fun _ _ h => h, fun _ _ h => h⟩

theorem keeps_rxTransfer (s : Session) (body : PerformTransfer) : Keeps s (s.rxTransfer body).1 := by
  rw [rxTransfer_eq]
  exact ⟨⟨rfl, rfl, rfl, fun _ => rfl, fun _ => rfl⟩, fun _ _ h => h, fun _ _ h => h⟩

theorem keeps_rxDetach (s : Session) (body : PerformDetach) : Keeps s (s.rxDetach body).1 := by
  unfold rxDetach
  split
  · exact .refl s
  · exact ⟨⟨rfl, rfl, rfl, fun _ => rfl, fun _ => rfl⟩, fun _ _ h => (update_none_eq_some h).2,
      fun _ _ h => h⟩

/-- The attach frame a body is. -/
def attach? : FrameBody → Option PerformAttach
  | .attach body => some body
  | _ => none

theorem keeps_rx (s : Session) {body : FrameBody} (hbody : attach? body = none) : Keeps s (s.rx body).1 := by
  cases body with
  | attach body => cases hbody
  | disposition body => exact keeps_phase s _
  | flow body => exact keeps_rxFlow s body
  | transfer body => exact keeps_rxTransfer s body
  | detach body => exact keeps_rxDetach s body
  | end_ body => exact keeps_phase s _
  | _ => exact .refl s

theorem keeps_rxClosing (s : Session) (body : FrameBody) : Keeps s (s.rxClosing body).1 := by
  rw [rxClosing_eq]
  exact keeps_phase s _

theorem keeps_tx (s : Session) (body : FrameBody) : Keeps s (s.tx body).1 := by
  rw [tx_eq]
  exact keeps_phase s _

theorem sameTable_setReceiverSettleMode (s : Session) (l : LinkID) (mode : ReceiverSettleMode) :
    SameTable s { s with
      link := update s.link l { s.link l with receiverSettleMode := some mode } } := by
  refine ⟨rfl, rfl, rfl, fun k => ?_, fun k => ?_⟩ <;>
    by_cases hk : k = l <;> simp only [hk, update_self, update_of_ne, ne_eq, not_false_eq_true]

theorem sameTable_rxAttach (s : Session) (body : PerformAttach) : SameTable s (s.rxAttach body).1 := by
  unfold rxAttach
  split
  · exact (keeps_phase s _).table
  · next l _ =>
    refine ⟨rfl, rfl, rfl, fun k => ?_, fun k => ?_⟩ <;>
      by_cases hk : k = l <;> simp only [hk, update_self, update_of_ne, ne_eq, not_false_eq_true]

theorem sameTable_txTransfer (s : Session) (fr : PerformTransfer) : SameTable s (s.txTransfer fr).1 := by
  rw [txTransfer_eq]
  exact ⟨rfl, rfl, rfl, fun _ => rfl, fun _ => rfl⟩

/-- The steps that give out handles or take them back. -/
def touchesTable : MuxInput → Bool
  | .newLink .. | .deallocateHandle _ => true
  | _ => false

theorem sameTable_step {i : MuxInput} {events : List MuxEvent} (hstep : s.step i = some (s', events))
    (hi : touchesTable i = false) : SameTable s s' := by
  cases step_cases hstep with
  | connDone => exact (keeps_phase s _).table
  | close => exact (keeps_phase s _).table
  | rx body =>
    cases hb : attach? body with
    | none => exact (keeps_rx s hb).table
    | some attach =>
      cases body with
      | attach body => exact sameTable_rxAttach s body
      | _ => cases hb
  | rxClosing body => exact (keeps_rxClosing s body).table
  | round body deliveryID => exact (keeps_dispositionRound s body deliveryID).table
  | txTransfer l fr => exact sameTable_txTransfer s fr
  | tx body => exact (keeps_tx s body).table
  | newLink key mode => cases hi
  | setReceiverSettleMode l mode => exact sameTable_setReceiverSettleMode s l mode
  | deallocateHandle l hl => cases hi

end Session

end GoAmqp
