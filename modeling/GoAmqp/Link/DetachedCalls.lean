import GoAmqp.Link.Release

set_option autoImplicit false

/-! # Settlement calls when the link detaches

When the mux ends it sends to all channels of `inFlight`, and then closes `detached`. A settlement call registers
its channel, looks at `detached`, sends or queues its disposition and waits. A call that registers after the
channels were cleared and looks before `detached` is closed waits for a value that nobody sends; with batching it
need not even look, as it can queue its disposition on a link that is detached.

The proof follows the calls that have registered and have no value: their channel is in the map, and once the
channels are cleared the map holds channels of late calls only. -/

namespace GoAmqp

open Lib Function Option

namespace ReceiverMux

/-- `inFlight.clear` has been called. -/
def cleared : ReceiverPhase → Bool
  | .closing _ | .exited _ => true
  | _ => false

theorem cleared_resume (flow : Option PerformFlow) : cleared (resume flow) = false := by
  cases flow <;> rfl

theorem muxHandleFrame_cleared (m : ReceiverMux) (flow : Option PerformFlow) (body : FrameBody) :
    cleared (m.muxHandleFrame flow body).1.phase = false := by
  cases body with
  | transfer fr =>
    simp only [muxHandleFrame, handleTransfer]
    split
    · rfl
    · exact cleared_resume flow
  | flow fr =>
    simp only [muxHandleFrame, handleFlow]
    split
    · exact cleared_resume flow
    · split
      · rfl
      · exact cleared_resume flow
  | disposition fr => rfl
  | detach fr =>
    simp only [muxHandleFrame, handleDetach]
    split <;> rfl
  | _ => exact cleared_resume flow

theorem rxDetaching_cleared {m : ReceiverMux} {err : ReceiverError} {unsent : Option PerformDetach}
    (hp : m.phase = .detaching err unsent) (body : FrameBody) :
    cleared (m.rxDetaching err unsent body).phase = false := by
  have hsame : cleared m.phase = false := by rw [hp]; rfl
  cases body with
  | detach fr =>
    simp only [rxDetaching]
    split
    · split
      · rfl
      · exact hsame
    · exact hsame
  | _ => exact hsame

/-- Only `clear` gets the mux there. -/
theorem step_cleared {m m' : ReceiverMux} {i : ReceiverInput} {events : List ReceiverEvent}
    (h : m.step i = some (m', events)) (hcleared : cleared m'.phase = true) :
    cleared m.phase = true ∨ i = .clear := by
  cases step_cases h with
  | clear => exact .inr rfl
  | rx body flow =>
    rw [muxHandleFrame_cleared] at hcleared
    cases hcleared
  | rxDetaching body err unsent hphase =>
    rw [rxDetaching_cleared hphase] at hcleared
    cases hcleared
  | check =>
    unfold check at hcleared
    split at hcleared <;> cases hcleared
  | issue =>
    unfold issue at hcleared
    split at hcleared <;> cases hcleared
  | flowBits =>
    unfold flowBits at hcleared
    dsimp only at hcleared
    split at hcleared <;> cases hcleared
  | handOverDetach =>
    unfold detachSent at hcleared
    dsimp only at hcleared
    split at hcleared <;> cases hcleared
  | removeRound j last err flow =>
    unfold removeRound at hcleared
    split at hcleared
    · cases hcleared
    · rw [cleared_resume] at hcleared
      cases hcleared
  | endDrain | removeNil =>
    rw [cleared_resume] at hcleared
    cases hcleared
  | muxFlow | handOver | ready | close | sessionDone | sessionDoneDetaching => cases hcleared
  | closeDetached err hphase => exact .inl (by simp [hphase, cleared])
  | receive | signal | deleteUnsettled | closeLink | issueRefused | issueCredit | drainRefused => exact .inl hcleared
  | issueCheck =>
    unfold issueCheck at hcleared
    split at hcleared <;> exact .inl hcleared
  | drainCredit =>
    unfold drainCredit at hcleared
    split at hcleared <;> exact .inl hcleared

end ReceiverMux

namespace ReceiverLink

/-! ## Late calls -/

/-- `inFlight.clear` has been called. -/
def Cleared (trace : Trace SettleInput ReceiverEvent) : Prop := ∃ l ∈ trace, l.1 = .mux .clear

/-- The call has registered after that. -/
def Late (n : Nat) : Trace SettleInput ReceiverEvent → Prop
  | [] => False
  | l :: trace => Late n trace ∨ l.1 = .register n ∧ Cleared trace

/-- A call registers a message for which no other call is under way, and a late call finds `detached` closed. -/
def Prompt (trace : Trace SettleInput ReceiverEvent) (s : ReceiverLink) : SettleInput → Prop
  | .register n => ∀ c n', s.calls n = some c → s.inFlight c.message.deliveryID = some n' →
      ∃ c' err, s.calls n' = some c' ∧ c'.phase = .returned err
  | .send n _ => ¬Late n trace ∨ ∃ err, s.mux.phase = .exited err
  | .queue n => ¬Late n trace
  | _ => True

/-- The call has registered and has no value yet. -/
structure Pending (c : SettleCall) : Prop where
  phase : c.phase = .sending ∨ c.phase = .waiting
  wait : c.wait = none

/-- The channels of such calls are in the map. -/
def InMap (s : ReceiverLink) : Prop :=
  ∀ n c, s.calls n = some c → Pending c → s.inFlight c.message.deliveryID = some n

variable {s s' : ReceiverLink} {n : Nat} {c : SettleCall}

/-- A call goes on, or ends. -/
theorem InMap.call (h : InMap s) {c' : SettleCall} (hflight : s'.inFlight = s.inFlight)
    (hcalls : s'.calls = update s.calls n (some c'))
    (hc' : Pending c' → s.inFlight c'.message.deliveryID = some n) : InMap s' := by
  intro n' d hd hpending
  rw [hcalls, update_apply] at hd
  rw [hflight]
  split at hd
  · next heq =>
    cases hd
    rw [heq]
    exact hc' hpending
  · exact h n' d hd hpending

/-- A round of `inFlight.remove`: the call whose channel leaves the map gets a value. -/
theorem InMap.removeID (h : InMap s) (id : UInt32) (err : Option SettleError) : InMap (s.removeID id err) := by
  unfold ReceiverLink.removeID
  split
  · next m hm =>
    intro n d hd hpending
    dsimp only at hd ⊢
    rw [update_apply] at hd
    split at hd
    · obtain ⟨c, -, rfl⟩ := map_eq_some_iff.mp hd
      cases hpending.wait
    · next hne =>
      have hin := h n d hd hpending
      rw [update_apply]
      split
      · next heq =>
        rw [heq, hm] at hin
        exact absurd (Option.some.inj hin).symm hne
      · exact hin
  · exact h

theorem InMap.clear (h : InMap s) (err : Option SettleError) : InMap (s.clear err) := by
  intro n d hd hpending
  obtain ⟨c, hc, heq⟩ := map_eq_some_iff.mp hd
  split at heq
  · subst heq
    cases hpending.wait
  · next hout =>
    subst heq
    exact absurd (h n c hc hpending) hout

theorem InMap.register (h : InMap s)
    (hfree : ∀ n', s.inFlight c.message.deliveryID = some n' →
      ∃ c' err, s.calls n' = some c' ∧ c'.phase = .returned err) : InMap (s.register n c) := by
  intro n' d hd hpending
  have hd' : update s.calls n (some { c with phase := .sending }) n' = some d := hd
  show update s.inFlight c.message.deliveryID (some n) d.message.deliveryID = some n'
  rw [update_apply] at hd' ⊢
  split at hd'
  · next heq =>
    cases hd'
    rw [if_pos rfl, heq]
  · have hin := h n' d hd' hpending
    split
    · next heq =>
      -- the channel that is replaced is that of a call that has returned
      rw [heq] at hin
      obtain ⟨c', err, hc', hreturned⟩ := hfree n' hin
      rw [hd'] at hc'
      cases hc'
      rcases hpending.phase with hp | hp <;> rw [hp] at hreturned <;> cases hreturned
    · exact hin

/-! ## What a step does to the calls -/

theorem sameCalls_handle (s : ReceiverLink) (e : ReceiverEvent) : SameCalls s (s.handle e) := by
  cases e with
  | remove id err => exact sameCalls_removeID s id _
  | clear err => exact sameCalls_clear s _
  | _ => exact .of_eq rfl

theorem SameCalls.trans {s'' : ReceiverLink} (h : SameCalls s s') (h' : SameCalls s' s'') : SameCalls s s'' := by
  intro n c'' hc''
  obtain ⟨c', hc', hmsg', hmessage', hphase'⟩ := h' n c'' hc''
  obtain ⟨c, hc, hmsg, hmessage, hphase⟩ := h n c' hc'
  exact ⟨c, hc, hmsg'.trans hmsg, hmessage'.trans hmessage, hphase'.trans hphase⟩

theorem sameCalls_foldl (events : List ReceiverEvent) (s : ReceiverLink) : SameCalls s (events.foldl handle s) := by
  induction events generalizing s with
  | nil => exact .of_eq rfl
  | cons e events ih => exact (sameCalls_handle s e).trans (ih (s.handle e))

/-- How a call comes to wait. -/
inductive Waits (s : ReceiverLink) (n : Nat) : SettleInput → Prop
  | before (i : SettleInput) (c : SettleCall) : s.calls n = some c → c.phase = .waiting → Waits s n i
  | queued : Waits s n (.queue n)
  | sent (connected : Bool) : s.sendError connected = none → Waits s n (.send n connected)

theorem SameCalls.waits {i : SettleInput} (h : SameCalls s s') (hc : s'.calls n = some c)
    (hwaiting : c.phase = .waiting) : Waits s n i := by
  obtain ⟨d, hd, -, -, hphase⟩ := h n c hc
  exact .before i d hd (hphase.symm.trans hwaiting)

/-- One call changes and does not wait. -/
theorem Waits.of_update {i : SettleInput} {m : Nat} {c' : SettleCall} (hc : update s.calls m (some c') n = some c)
    (hwaiting : c.phase = .waiting) (hc' : c'.phase ≠ .waiting) : Waits s n i := by
  rw [update_apply] at hc
  split at hc
  · cases hc
    exact absurd hwaiting hc'
  · exact .before i c hc hwaiting

theorem step_waits {i : SettleInput} {events : List ReceiverEvent} (h : s.step i = some (s', events))
    (hc : s'.calls n = some c) (hwaiting : c.phase = .waiting) : Waits s n i := by
  cases i with
  | mux j =>
    simp only [step, muxStep] at h
    split at h
    · split at h
      · next m events' hstep =>
        split at h
        · cases h
        · cases h
          have hsame : SameCalls s (events.foldl handle { s with mux := m }) :=
            sameCalls_foldl events { s with mux := m }
          exact hsame.waits hc hwaiting
      · cases h
    · cases h
  | settle m k state =>
    simp only [step] at h
    split at h
    · cases h
      refine .of_update hc hwaiting ?_
      dsimp only
      split
      · simp
      · split <;> simp
    · cases h
  | register m =>
    obtain ⟨d, hd, h⟩ := bind_eq_some_iff.mp h
    split at h
    · split at h <;> cases h
      exact .of_update hc hwaiting (by simp)
    · cases h
  | queue m =>
    obtain ⟨d, hd, h⟩ := bind_eq_some_iff.mp h
    unfold queue at h
    split at h
    · split at h <;> cases h
      by_cases heq : n = m
      · subst heq
        exact .queued
      · exact .before _ c (by simpa [setCall, update_of_ne heq] using hc) hwaiting
    · cases h
  | queueDetached m =>
    obtain ⟨d, hd, h⟩ := bind_eq_some_iff.mp h
    unfold queueDetached at h
    split at h
    · split at h <;> cases h
      exact .of_update hc hwaiting (by simp)
    · cases h
  | send m connected =>
    obtain ⟨d, hd, h⟩ := bind_eq_some_iff.mp h
    unfold send at h
    split at h
    · split at h
      · cases h
      · split at h <;> cases h
        · exact .of_update hc hwaiting (by simp)
        · next herror =>
          by_cases heq : n = m
          · subst heq
            exact .sent connected herror
          · exact .before _ c (by simpa [setCall, update_of_ne heq] using hc) hwaiting
    · cases h
  | complete m =>
    obtain ⟨d, hd, h⟩ := bind_eq_some_iff.mp h
    unfold complete at h
    split at h <;> cases h
    exact .of_update hc hwaiting (by simp)
  | cancel m =>
    obtain ⟨d, hd, h⟩ := bind_eq_some_iff.mp h
    unfold cancel at h
    split at h <;> cases h
    exact .of_update hc hwaiting (by simp)
  | batch | batchExit =>
    simp only [step] at h
    split at h <;> cases h
    exact .before _ c hc hwaiting
  | fire =>
    simp only [step] at h
    split at h <;> cases h
    exact .before _ c hc hwaiting
  | expire =>
    simp only [step] at h
    split at h
    · split at h <;> cases h
      exact .before _ c hc hwaiting
    · cases h
  | batchSend connected =>
    simp only [step, batchSend] at h
    split at h
    · split at h
      · cases h
        exact .before _ c hc hwaiting
      · split at h <;> cases h
        exact .before _ c hc hwaiting
    · cases h
  | batchRound =>
    simp only [step, batchRound] at h
    split at h
    · next id last e todo hp =>
      split at h <;> cases h
      · exact (sameCalls_removeID s id (some e)).waits hc hwaiting
      · exact .before _ c hc hwaiting
    · cases h

/-! ## The invariant -/

/-- A call that waits is in the map until its channel has a value, and none has registered after the map was
    cleared. -/
structure Inv (trace : Trace SettleInput ReceiverEvent) (s : ReceiverLink) : Prop where
  attached : s.mux.receiver.detached = none
  second : s.second = true
  inMap : InMap s
  cleared : ReceiverMux.cleared s.mux.phase = true → Cleared trace
  /-- the map was emptied, and what is in it has come since -/
  late : ReceiverMux.cleared s.mux.phase = true → ∀ id n, s.inFlight id = some n → Late n trace
  prompt : ∀ n c, s.calls n = some c → c.phase = .waiting → ¬Late n trace

variable {trace : Trace SettleInput ReceiverEvent} {i : SettleInput} {events : List ReceiverEvent}

theorem Inv.start (maxMessageSize : UInt64) (initialDeliveryCount handle : UInt32) (autoSendFlow : Bool)
    (maxCredit : UInt32) (batching : Bool) :
    Inv [] (.start maxMessageSize (some .second) initialDeliveryCount handle autoSendFlow maxCredit batching) where
  attached := rfl
  second := rfl
  inMap := fun _ _ hc => by cases hc
  cleared := fun h => by cases h
  late := fun h => by cases h
  prompt := fun _ _ hc => by cases hc

theorem step_second (hattached : s.mux.receiver.detached = none) (h : s.step i = some (s', events)) :
    s'.second = s.second := by
  unfold second
  rcases step_mux h with hmux | ⟨j, events', hstep, -⟩
  · rw [hmux]
  · rw [(ReceiverMux.step_config hattached hstep).receiverSettleMode]

theorem InMap.handle (h : InMap s) (e : ReceiverEvent) : InMap (s.handle e) := by
  cases e with
  | remove id err => exact h.removeID id _
  | clear err => exact h.clear _
  | _ => exact h

theorem InMap.foldl (h : InMap s) (events : List ReceiverEvent) : InMap (events.foldl ReceiverLink.handle s) := by
  induction events generalizing s with
  | nil => exact h
  | cons e events ih => exact ih (h.handle e)

theorem InMap.step (h : InMap s) (hsecond : s.second = true) (hstep : s.step i = some (s', events))
    (hprompt : Prompt trace s i) : InMap s' := by
  cases step_effect hstep with
  | mux j _ m _ _ _ =>
    have hm : InMap { s with mux := m } := h
    exact hm.foldl events
  | entered n k m state hn hk =>
    refine h.call rfl rfl ?_
    rintro ⟨hphase, -⟩
    dsimp only at hphase
    -- in mode second a call begins before its registration
    rw [hsecond] at hphase
    split at hphase <;> simp at hphase
  | registered n c hc hphase _ _ => exact h.register fun n' hn' => hprompt c n' hc hn'
  | moved _ _ n c phase dispositions hc hmoves =>
    refine h.call rfl rfl ?_
    rintro ⟨-, hwait⟩
    exact h n c hc ⟨hmoves.before, hwait⟩
  | completed n c err hc _ _ =>
    refine h.call rfl rfl ?_
    rintro ⟨hphase | hphase, -⟩ <;> cases hphase
  | removed id last e todo =>
    have hr := h.removeID id (some e)
    exact hr
  | batched | fired | batcherMoved | failed => exact h

theorem handle_inFlight {e : ReceiverEvent} {id : UInt32} (h : (s.handle e).inFlight id = some n) :
    s.inFlight id = some n := by
  cases e with
  | remove id' err => exact removeID_inFlight h
  | clear err => cases h
  | _ => exact h

theorem foldl_inFlight {id : UInt32} (h : (events.foldl handle s).inFlight id = some n) : s.inFlight id = some n := by
  induction events generalizing s with
  | nil => exact h
  | cons e events ih => exact handle_inFlight (ih h)

/-- `inFlight.clear` empties the map. -/
theorem clear_inFlight (h : s.step (.mux .clear) = some (s', events)) (id : UInt32) : s'.inFlight id = none := by
  simp only [step, muxStep, ReceiverMux.step] at h
  split at h
  · split at h
    · next hstep =>
      split at hstep <;> cases hstep
      split at h <;> cases h <;> rfl
    · cases h
  · cases h

/-- A channel gets into the map when its call registers. -/
theorem step_inFlight (h : s.step i = some (s', events)) {id : UInt32} (hin : s'.inFlight id = some n) :
    s.inFlight id = some n ∨ i = .register n := by
  cases step_effect h with
  | mux j _ m _ _ _ => exact .inl (foldl_inFlight (s := { s with mux := m }) hin)
  | registered m c hc _ _ _ =>
    have hin' : update s.inFlight c.message.deliveryID (some m) id = some n := hin
    rw [update_apply] at hin'
    split at hin'
    · cases hin'
      exact .inr rfl
    · exact .inl hin'
  | removed id' last e todo => exact .inl (removeID_inFlight hin)
  | entered | moved | completed | batched | fired | batcherMoved | failed => exact .inl hin

theorem Inv.step (h : Inv trace s) (hstep : s.step i = some (s', events)) (hprompt : Prompt trace s i) :
    Inv ((i, events) :: trace) s' := by
  have hcleared : ReceiverMux.cleared s'.mux.phase = true →
      ReceiverMux.cleared s.mux.phase = true ∨ i = .mux .clear := by
    intro hc
    rcases step_mux hstep with hmux | ⟨j, events', hj, hclear⟩
    · exact .inl (hmux ▸ hc)
    · exact (ReceiverMux.step_cleared hj hc).imp_right hclear
  refine ⟨step_attached h.attached hstep, (step_second h.attached hstep).trans h.second,
    h.inMap.step h.second hstep hprompt, ?_, ?_, ?_⟩
  · intro hc
    rcases hcleared hc with hc | rfl
    · obtain ⟨l, hl, heq⟩ := h.cleared hc
      exact ⟨l, List.mem_cons_of_mem _ hl, heq⟩
    · exact ⟨_, List.mem_cons_self .., rfl⟩
  · intro hc id n hin
    rcases hcleared hc with hc | rfl
    · rcases step_inFlight hstep hin with hin | hregister
      · exact .inl (h.late hc id n hin)
      · exact .inr ⟨hregister, h.cleared hc⟩
    · rw [clear_inFlight hstep] at hin
      cases hin
  · rintro n c hc hwaiting (hlate | ⟨rfl, -⟩)
    · cases step_waits hstep hc hwaiting with
      | before _ d hd hphase => exact h.prompt n d hd hphase hlate
      | queued => exact hprompt hlate
      | sent connected herror =>
        rcases hprompt with hnot | ⟨err, hexited⟩
        · exact hnot hlate
        · rw [sendError, hexited] at herror
          cases herror
    · -- the call that registers does not wait yet
      cases step_waits hstep hc hwaiting with
      | before _ d hd hphase =>
        obtain ⟨d', hd', hr⟩ := bind_eq_some_iff.mp hstep
        rw [hd] at hd'
        cases hd'
        rw [hphase] at hr
        cases hr

def isClear : SettleInput → Bool
  | .mux .clear => true
  | _ => false

/-- A test that implies `Prompt`: no two calls for one delivery-id, and no disposition after the clean-up. -/
def inOrder (trace : Trace SettleInput ReceiverEvent) (s : ReceiverLink) : SettleInput → Bool
  | .register n => (s.calls n).all fun c => (s.inFlight c.message.deliveryID).isNone
  | .send _ _ | .queue _ => !trace.any fun l => isClear l.1
  | _ => true

theorem Late.cleared {n : Nat} (h : Late n trace) : Cleared trace := by
  induction trace with
  | nil => cases h
  | cons l trace ih =>
    obtain ⟨l', hl', heq⟩ : Cleared trace := by
      rcases h with hlate | ⟨-, hcleared⟩
      · exact ih hlate
      · exact hcleared
    exact ⟨l', List.mem_cons_of_mem _ hl', heq⟩

theorem prompt_of_inOrder (trace : Trace SettleInput ReceiverEvent) (s : ReceiverLink) (i : SettleInput)
    (_ : List ReceiverEvent) (h : inOrder trace s i = true) : Prompt trace s i := by
  have hnever : (!trace.any fun l => isClear l.1) = true → ∀ n, ¬Late n trace := by
    intro hnone n hlate
    obtain ⟨l, hl, heq⟩ := hlate.cleared
    simp only [Bool.not_eq_true', List.any_eq_false] at hnone
    exact hnone l hl (by rw [heq]; rfl)
  cases i with
  | register n =>
    intro c n' hc hn'
    simp [inOrder, hc, hn'] at h
  | send n connected => exact .inl (hnever h n)
  | queue n => exact hnever h n
  | _ => trivial

end ReceiverLink

open ReceiverLink

/-- **No call is left waiting.** Once `detached` is closed, a call that waits has a value in its channel. -/
theorem waiting_call_has_value {maxMessageSize : UInt64} {initialDeliveryCount handle : UInt32} {autoSendFlow : Bool}
    {maxCredit : UInt32} {batching : Bool} {trace : Trace SettleInput ReceiverEvent} {s : ReceiverLink}
    (hrun : RunIf (Fires ReceiverLink.step) (fun trace s l => Prompt trace s l.1)
      (.start maxMessageSize (some .second) initialDeliveryCount handle autoSendFlow maxCredit batching) trace s)
    {err : ReceiverError} (hexited : s.mux.phase = .exited err) {n : Nat} {c : SettleCall} (hc : s.calls n = some c)
    (hwaiting : c.phase = .waiting) : c.wait ≠ none := by
  have hinv : Inv trace s := by
    refine hrun.invariant (P := Inv) (.start ..) ?_
    rintro trace s ⟨i, events⟩ s' h hstep hprompt
    exact h.step hstep hprompt
  intro hnone
  have hin := hinv.inMap n c hc ⟨.inr hwaiting, hnone⟩
  have hlate := hinv.late (by rw [hexited]; rfl) _ n hin
  exact hinv.prompt n c hc hwaiting hlate

namespace ReceiverLink

/-- The link is closed, up to the clean-up. -/
def closeLink : List SettleInput := [.mux .closeLink, .mux .close, .mux .sessionDone]

/-- The call with number 0 waits on a link that is detached, and whether its channel has a value. -/
def waitsDetached (s : ReceiverLink) : Option Bool :=
  match s.mux.phase, s.calls 0 with
  | .exited _, some ⟨_, _, _, .waiting, wait⟩ => some wait.isSome
  | _, _ => none

theorem waitsDetached_spec {s : ReceiverLink} {b : Bool} (h : s.waitsDetached = some b) :
    ∃ err c, s.mux.phase = .exited err ∧ s.calls 0 = some c ∧ c.phase = .waiting ∧ c.wait.isSome = b := by
  unfold waitsDetached at h
  split at h
  · next err msg message state wait hphase hcall =>
    exact ⟨err, _, hphase, hcall, rfl, Option.some.inj h⟩
  · cases h

/-- The inputs lead to a state in which `detached` is closed and a call waits on an empty channel. -/
def Stranded (batching : Bool) (inputs : List SettleInput) : Prop :=
  ∃ trace s err c, exec ReceiverLink.step [] (.start 0 (some .second) 0 0 true 2 batching) inputs = some (trace, s) ∧
    Run (Fires ReceiverLink.step) (.start 0 (some .second) 0 0 true 2 batching) trace s ∧
    s.mux.phase = .exited err ∧ s.calls 0 = some c ∧ c.phase = .waiting ∧ c.wait = none

theorem stranded_of_exec {batching : Bool} {inputs : List SettleInput}
    (h : (exec ReceiverLink.step [] (.start 0 (some .second) 0 0 true 2 batching) inputs).bind
      (fun r => r.2.waitsDetached) = some false) : Stranded batching inputs := by
  obtain ⟨⟨trace, s⟩, hexec, hwaits⟩ := bind_eq_some_iff.mp h
  obtain ⟨err, c, hphase, hcall, hwaiting, hwait⟩ := waitsDetached_spec hwaits
  exact ⟨trace, s, err, c, hexec, .of_exec inputs .start hexec, hphase, hcall, hwaiting, by simpa using hwait⟩

/-- One message is received by the application. -/
def receiveFirst : List SettleInput :=
  [.mux .check, .mux .issue, .mux .flowBits, .mux .muxFlow, .mux .handOver,
    .mux (.rx (.transfer (Receiver.firstOf 1 false Receiver.dataSection))), .mux .receive, .mux .check, .mux .flowBits]

end ReceiverLink

/-- A call waits when the link is closed, and gets the error of the link. -/
theorem waiting_call_has_value_closed : ∃ trace s err c,
    RunIf (Fires ReceiverLink.step) (fun trace s l => Prompt trace s l.1) (.start 0 (some .second) 0 0 true 2 false)
      trace s ∧ s.mux.phase = .exited err ∧ s.calls 0 = some c ∧ c.phase = .waiting ∧ c.wait ≠ none := by
  have hexec : (execIf ReceiverLink.step inOrder [] (.start 0 (some .second) 0 0 true 2 false)
      (acceptFirst ++ closeLink ++ [.mux .clear, .mux .closeDetached])).bind (fun r => r.2.waitsDetached) =
        some true := by
    decide +kernel
  obtain ⟨⟨trace, s⟩, hexec, hwaits⟩ := bind_eq_some_iff.mp hexec
  obtain ⟨err, c, hphase, hcall, hwaiting, -⟩ := waitsDetached_spec hwaits
  have hrun := RunIf.of_execIf (G := fun trace s l => Prompt trace s l.1) prompt_of_inOrder _ .start hexec
  exact ⟨trace, s, err, c, hrun, hphase, hcall, hwaiting, waiting_call_has_value hrun hphase hcall hwaiting⟩

/-- A call registers after the channels were cleared. Without batching it looks at `detached` before that is closed;
    with batching it queues its disposition afterwards. -/
theorem waiting_call_stranded :
    Stranded false (receiveFirst ++ closeLink ++
      [.mux .clear, acceptMessage 0 0, .register 0, .send 0 true, .mux .closeDetached]) ∧
    Stranded true (receiveFirst ++ closeLink ++
      [.mux .clear, .mux .closeDetached, acceptMessage 0 0, .register 0, .queue 0]) :=
  ⟨stranded_of_exec (by decide +kernel), stranded_of_exec (by decide +kernel)⟩

end GoAmqp
