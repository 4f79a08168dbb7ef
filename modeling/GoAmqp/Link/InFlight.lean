import GoAmqp.Link.DetachedCalls
import GoAmqp.Lib.CountedLoop

set_option autoImplicit false

/-! # `inFlight.remove` (`receiver.go`)

The loop of `inFlight.remove` is run by the mux, for a disposition of the peer, and by the batcher, for a
batch that it could not send. Whoever runs it holds the lock of `inFlight`, so that other steps of the link
may come between its rounds and leave the map alone. -/

namespace GoAmqp

open Lib Function Option

namespace ReceiverMux

/-- In the loop of `inFlight.remove` the mux makes rounds, and the application may come between. -/
theorem step_removing {m m' : ReceiverMux} {i last : UInt32} {err : Option (AmqpError Value)}
    {flow : Option PerformFlow} {j : ReceiverInput} {events : List ReceiverEvent}
    (hp : m.phase = .removing i last err flow) (h : m.step j = some (m', events)) :
    j = .removeRound ∨ j = .removeNil ∨ m'.phase = m.phase := by
  cases step_cases h with
  | removeRound => exact .inl rfl
  | removeNil => exact .inr (.inl rfl)
  | check hq | issue _ hq | flowBits hq | muxFlow _ _ hq | handOver _ hq | handOverDetach _ _ hq | endDrain _ hq
  | ready hq | sessionDoneDetaching _ _ hq | clear _ hq | closeDetached _ hq | rxDetaching _ _ _ hq | rx _ _ hq
  | close _ hq | sessionDone _ hq =>
    rw [hp] at hq
    cases hq
  | receive | signal | deleteUnsettled | closeLink | issueRefused | issueCredit | drainRefused =>
    exact .inr (.inr rfl)
  | issueCheck =>
    refine .inr (.inr ?_)
    unfold issueCheck
    split <;> rfl
  | drainCredit =>
    refine .inr (.inr ?_)
    unfold drainCredit
    split <;> rfl

end ReceiverMux

namespace ReceiverLink

section

variable {s s' : ReceiverLink} {i : SettleInput} {events : List ReceiverEvent} {n : Nat}
  {err : Option SettleError}

/-! ## What the other steps leave alone -/

/-- The call has a value in its channel, or has returned. -/
def Answered (c : SettleCall) (err : Option SettleError) : Prop := c.wait = some err ∨ ∃ e, c.phase = .returned e

/-- A call goes on by itself: nothing is put in its channel, and a value is taken out when it returns. -/
structure GoesOn (c c' : SettleCall) : Prop where
  wait : ∀ x, c'.wait = some x → c.wait = some x
  answered : ∀ err, Answered c err → Answered c' err

theorem GoesOn.refl (c : SettleCall) : GoesOn c c := ⟨fun _ h => h, fun _ h => h⟩

/-- A step that is none of `inFlight`. -/
structure Beside (s s' : ReceiverLink) : Prop where
  inFlight : s'.inFlight = s.inFlight
  goesOn : ∀ n c, s.calls n = some c → ∃ c', s'.calls n = some c' ∧ GoesOn c c'
  fresh : ∀ n c', s.calls n = none → s'.calls n = some c' → c'.wait = none

theorem Beside.of_eq (hflight : s'.inFlight = s.inFlight) (hcalls : s'.calls = s.calls) : Beside s s' := by
  refine ⟨hflight, fun n c hc => ⟨c, by rw [hcalls]; exact hc, .refl c⟩, fun n c' hnone hc' => ?_⟩
  rw [hcalls, hnone] at hc'
  cases hc'

/-- One call changes. -/
theorem Beside.of_update {m : Nat} {c' : SettleCall} (hflight : s'.inFlight = s.inFlight)
    (hcalls : s'.calls = update s.calls m (some c'))
    (hold : ∀ c, s.calls m = some c → GoesOn c c') (hnew : s.calls m = none → c'.wait = none) : Beside s s' := by
  refine ⟨hflight, fun n c hc => ?_, fun n d hnone hd => ?_⟩
  · by_cases heq : n = m
    · subst heq
      exact ⟨c', by rw [hcalls, update_self], hold c hc⟩
    · exact ⟨c, by rw [hcalls, update_of_ne heq]; exact hc, .refl c⟩
  · rw [hcalls] at hd
    by_cases heq : n = m
    · subst heq
      rw [update_self] at hd
      cases hd
      exact hnew hnone
    · rw [update_of_ne heq, hnone] at hd
      cases hd

/-- While the lock is held, the steps other than the rounds of the loop are none of `inFlight`. -/
theorem step_beside (h : s.step i = some (s', events))
    (hlocked : muxLocks s.mux.phase = true ∨ batcherLocks s.batcherPhase = true)
    (hmux : i ≠ .mux .removeRound) (hbatch : i ≠ .batchRound) : Beside s s' := by
  cases step_effect h with
  | mux j _ m hadmits hstep _ =>
    have hsignals := step_signals hstep
    cases hsignals with
    | began | took => exact .of_eq rfl rfl
    | round => exact absurd rfl hmux
    | cleared err =>
      cases ReceiverMux.step_cases hstep with
      | clear _ hphase =>
        rw [hphase] at hlocked
        simp only [admits, Bool.not_eq_true'] at hadmits
        simp [muxLocks, hadmits] at hlocked
    | quiet _ _ _ hquiet =>
      rw [foldl_handle hquiet]
      exact .of_eq rfl rfl
  | entered n k m state hnone _ =>
    refine .of_update rfl rfl (fun c hc => ?_) fun _ => rfl
    rw [hnone] at hc
    cases hc
  | registered _ _ _ _ hfree hfree' => simp [hfree, hfree'] at hlocked
  | moved _ _ m c phase _ hc hmoves =>
    refine .of_update rfl rfl (fun d hd => ?_) fun hnone => ?_
    · rw [hc] at hd
      cases hd
      refine ⟨fun _ h => h, fun err hanswered => .inl (hanswered.resolve_right ?_)⟩
      -- a call that goes on has not returned
      rintro ⟨e, he⟩
      rcases hmoves.before with h | h <;> rw [he] at h <;> cases h
    · rw [hc] at hnone
      cases hnone
  | completed m c err hc _ hwait =>
    refine .of_update rfl rfl (fun d _ => ⟨fun x h => ?_, fun _ _ => .inr ⟨_, rfl⟩⟩) fun _ => rfl
    cases h
  | removed => exact absurd rfl hbatch
  | batched | fired | batcherMoved | failed => exact .of_eq rfl rfl

/-! ## A round of the loop -/

theorem removeID_inFlight_eq (s : ReceiverLink) (id : UInt32) (err : Option SettleError) :
    (s.removeID id err).inFlight = update s.inFlight id none := by
  unfold removeID
  split
  · rfl
  · next hnone => rw [← hnone, update_eq_self]

/-- The call whose channel stands for the id gets the value, and no other. -/
theorem removeID_calls (s : ReceiverLink) (id : UInt32) (err : Option SettleError) (n : Nat) :
    (s.removeID id err).calls n =
      if s.inFlight id = some n then (s.calls n).map fun c => { c with wait := some err } else s.calls n := by
  unfold removeID
  split
  · next m hm =>
    rw [hm]
    by_cases heq : n = m
    · subst heq
      simp
    · simp [heq, Ne.symm heq]
  · next hnone => simp [hnone]

/-! ## The loop -/

/-- `inFlight.remove` has sent `err` to the channels in the range, and to no other, and has taken them
    out of the map. -/
structure Resolved (s s' : ReceiverLink) (first last : UInt32) (err : Option SettleError) : Prop where
  inFlight : ∀ d, s'.inFlight d = if Within first last d then none else s.inFlight d
  answered : ∀ d n, Within first last d → s.inFlight d = some n → ∃ c, s'.calls n = some c ∧ Answered c err
  others : ∀ n c' x, s'.calls n = some c' → c'.wait = some x →
    (∃ d, Within first last d ∧ s.inFlight d = some n) ∨ ∃ c, s.calls n = some c ∧ c.wait = some x

/-- A loop that is one of `inFlight.remove`, with the error it sends. -/
structure Removes {P : Type} (c : CountedLoop ReceiverLink (SettleInput × List ReceiverEvent) P)
    (err : P → Option SettleError) : Prop where
  other {s s' : ReceiverLink} {l : SettleInput × List ReceiverEvent} {x : P × UInt32} :
    c.position s = some x → c.step s l s' → c.own l = false → Beside s s'
  round {s s' : ReceiverLink} {l : SettleInput × List ReceiverEvent} {p : P} {i : UInt32} :
    c.position s = some (p, i) → c.step s l s' → c.own l = true → i ≤ c.bound p →
      s'.inFlight = (s.removeID i (err p)).inFlight ∧ s'.calls = (s.removeID i (err p)).calls
  leave {s s' : ReceiverLink} {l : SettleInput × List ReceiverEvent} {p : P} {i : UInt32} :
    c.position s = some (p, i) → c.step s l s' → c.own l = true → ¬ i ≤ c.bound p →
      s'.inFlight = s.inFlight ∧ s'.calls = s.calls

section

variable {P : Type} {c : CountedLoop ReceiverLink (SettleInput × List ReceiverEvent) P}
  {e : P → Option SettleError} {s₀ : ReceiverLink} {p : P} {first : UInt32} {k : Nat}

theorem Removes.sweeps (h : Removes c e) : c.Sweeps inFlight fun _ _ => none where
  other hpos hstep hown := (h.other hpos hstep hown).inFlight
  round hpos hstep hown hle := (h.round hpos hstep hown hle).1.trans (removeID_inFlight_eq _ _ _)
  leave hpos hstep hown hgt := (h.leave hpos hstep hown hgt).1

/-- What the calls have got after `k` rounds. -/
structure Progress (s₀ s : ReceiverLink) (first : UInt32) (k : Nat) (err : Option SettleError) : Prop where
  kept : ∀ n d, s₀.calls n = some d → ∃ d', s.calls n = some d'
  answered : ∀ d n, (d - first).toNat < k → s₀.inFlight d = some n → s₀.calls n ≠ none →
    ∃ c, s.calls n = some c ∧ Answered c err
  others : ∀ n c' x, s.calls n = some c' → c'.wait = some x →
    (∃ d, (d - first).toNat < k ∧ s₀.inFlight d = some n) ∨ ∃ c, s₀.calls n = some c ∧ c.wait = some x

theorem Progress.start (s₀ : ReceiverLink) (first : UInt32) (err : Option SettleError) : Progress s₀ s₀ first 0 err :=
  ⟨fun _ d hd => ⟨d, hd⟩, fun _ _ hlt => absurd hlt (Nat.not_lt_zero _), fun _ c _ hc hwait => .inr ⟨c, hc, hwait⟩⟩

theorem Progress.beside (h : Progress s₀ s first k err) (hb : Beside s s') : Progress s₀ s' first k err := by
  refine ⟨fun n d hd => ?_, fun d n hlt hin hcall => ?_, fun n c' x hc' hwait => ?_⟩
  · obtain ⟨d', hd'⟩ := h.kept n d hd
    obtain ⟨d'', hd'', -⟩ := hb.goesOn n d' hd'
    exact ⟨d'', hd''⟩
  · obtain ⟨c, hc, hanswered⟩ := h.answered d n hlt hin hcall
    obtain ⟨c', hc', hgoes⟩ := hb.goesOn n c hc
    exact ⟨c', hc', hgoes.answered _ hanswered⟩
  · cases hc : s.calls n with
    | none =>
      rw [hb.fresh n c' hc hc'] at hwait
      cases hwait
    | some c =>
      obtain ⟨c'', hc'', hgoes⟩ := hb.goesOn n c hc
      rw [hc'] at hc''
      cases hc''
      exact h.others n c x hc (hgoes.wait x hwait)

/-- The round for the next number, whose entry is as it was when the loop was entered. -/
theorem Progress.round (h : Progress s₀ s first k err) {i : UInt32} (hi : (i - first).toNat = k)
    (huniq : ∀ d : UInt32, (d - first).toNat = k → d = i) (hentry : s.inFlight i = s₀.inFlight i)
    (hcalls : s'.calls = (s.removeID i err).calls) : Progress s₀ s' first (k + 1) err := by
  have hstep : ∀ n, s'.calls n =
      if s₀.inFlight i = some n then (s.calls n).map fun c => { c with wait := some err } else s.calls n := by
    intro n
    rw [hcalls, removeID_calls, hentry]
  refine ⟨fun n d hd => ?_, fun d n hlt hin hcall => ?_, fun n c' x hc' hwait => ?_⟩
  · obtain ⟨d', hd'⟩ := h.kept n d hd
    rw [hstep, hd']
    split
    · exact ⟨_, rfl⟩
    · exact ⟨d', rfl⟩
  · obtain ⟨d₀, hd₀⟩ := ne_none_iff_exists'.mp hcall
    obtain ⟨d', hd'⟩ := h.kept n d₀ hd₀
    rw [hstep]
    split
    · exact ⟨{ d' with wait := some err }, by rw [hd']; rfl, .inl rfl⟩
    · next hne =>
      refine h.answered d n ?_ hin hcall
      have hd : d ≠ i := by
        rintro rfl
        exact hne hin
      have := mt (huniq d) hd
      omega
  · rw [hstep] at hc'
    split at hc'
    · next hin => exact .inl ⟨i, by omega, hin⟩
    · rcases h.others n c' x hc' hwait with ⟨d, hlt, hin⟩ | hold
      · exact .inl ⟨d, Nat.lt_succ_of_lt hlt, hin⟩
      · exact .inr hold

theorem Removes.progress (hr : Removes c e) (h : c.Inside s₀ k s) (h₀ : c.position s₀ = some (p, first))
    (hlast : c.bound p ≠ maxSerial) : Progress s₀ s first k (e p) := by
  induction h with
  | start => exact .start s₀ first (e p)
  | other hinside hstep hown ih => exact ih.beside (hr.other (hinside.position h₀) hstep hown)
  | @round k s s' l p' i hinside hpos hle hstep hown ih =>
    have hk := (hinside.round hpos hle hstep hown).le_rounds h₀ hlast
    have hbound : k < 2 ^ 32 := by
      have := (c.bound p).toNat_lt
      unfold CountedLoop.rounds at hk
      omega
    have hround := hr.round hpos hstep hown hle
    rw [hinside.position h₀] at hpos
    obtain ⟨rfl, rfl⟩ : p = p' ∧ first + UInt32.ofNat k = i := by simpa using hpos
    have hi : (first + UInt32.ofNat k - first).toNat = k := (CountedLoop.eq_counter_iff hbound).mp rfl
    refine ih.round hi (fun d hd => (CountedLoop.eq_counter_iff hbound).mpr hd) ?_ hround.2
    rw [hr.sweeps.inside hinside h₀ hlast, if_neg (by omega)]

/-- A range that holds a channel and that the loop reaches is resolved. -/
theorem Removes.resolved (hr : Removes c e) (h : c.Leaves s₀ k s') (h₀ : c.position s₀ = some (p, first))
    (hlast : c.bound p ≠ maxSerial)
    (hreach : ∀ d n, Within first (c.bound p) d → s₀.inFlight d = some n → first ≤ c.bound p)
    (hcalls : ∀ d n, s₀.inFlight d = some n → s₀.calls n ≠ none) : Resolved s₀ s' first (c.bound p) (e p) := by
  have hrange : ∀ d, (d - first).toNat < k ↔ first ≤ c.bound p ∧ Within first (c.bound p) d := by
    intro d
    rw [h.eq_rounds h₀ hlast, CountedLoop.lt_rounds_iff]
  have hinFlight := hr.sweeps.leaves h h₀ hlast
  obtain ⟨s, l, p', i, hinside, hpos, hgt, hstep, hown⟩ := h
  have hprogress := hr.progress hinside h₀ hlast
  have hsame := (hr.leave hpos hstep hown hgt).2
  refine ⟨fun d => ?_, fun d n hd hin => ?_, fun n c' x hc' hwait => ?_⟩
  · rw [hinFlight]
    by_cases hd : Within first (c.bound p) d
    · cases hin : s₀.inFlight d with
      | none => simp
      | some n => simp [hd, hreach d n hd hin]
    · simp [hd]
  · rw [hsame]
    exact hprogress.answered d n ((hrange d).mpr ⟨hreach d n hd hin, hd⟩) hin (hcalls d n hin)
  · rw [hsame] at hc'
    rcases hprogress.others n c' x hc' hwait with ⟨d, hd, hin⟩ | hold
    · exact .inl ⟨d, ((hrange d).mp hd).2, hin⟩
    · exact .inr hold

/-- The loop ends, and has then resolved its range. -/
def Resolves (c : CountedLoop ReceiverLink (SettleInput × List ReceiverEvent) P) (s₀ : ReceiverLink)
    (first last : UInt32) (err : Option SettleError) : Prop :=
  c.EndsWithin s₀ ((last - first).toNat + 1) ∧ ∀ k s', c.Leaves s₀ k s' → Resolved s₀ s' first last err

/-- **When `inFlight.remove` does its work.** -/
theorem Removes.resolves_iff (hr : Removes c e) (h₀ : c.position s₀ = some (p, first))
    (hcalls : ∀ d n, s₀.inFlight d = some n → s₀.calls n ≠ none) :
    Resolves c s₀ first (c.bound p) (e p) ↔ c.bound p ≠ maxSerial ∧
      ∀ d n, Within first (c.bound p) d → s₀.inFlight d = some n → first ≤ c.bound p := by
  rw [Resolves, CountedLoop.endsWithin_iff h₀]
  constructor
  · rintro ⟨hlast, hresolved⟩
    refine ⟨hlast, fun d n hd hin => ?_⟩
    obtain ⟨s', hleaves⟩ := CountedLoop.exists_leaves h₀ hlast
    have hnone := (hresolved _ s' hleaves).inFlight d
    rw [hr.sweeps.leaves hleaves h₀ hlast, if_pos hd, hin] at hnone
    by_contra hgt
    simp [hgt] at hnone
  · rintro ⟨hlast, hreach⟩
    exact ⟨hlast, fun k s' hleaves => hr.resolved hleaves h₀ hlast hreach hcalls⟩

end

end

/-! ## The loop run by the mux -/

/-- What the mux has called `inFlight.remove` with, and the frame it will go on with. -/
structure MuxRemoval where
  last : UInt32
  err : Option (AmqpError Value)
  flow : Option PerformFlow

/-- The mux is in the loop, with the lock. -/
def muxRemoval (s : ReceiverLink) : Option (MuxRemoval × UInt32) :=
  match s.mux.phase with
  | .removing i last err flow =>
    if s.made = true ∧ batcherLocks s.batcherPhase = false then some (⟨last, err, flow⟩, i) else none
  | _ => none

theorem muxRemoval_eq_some {s : ReceiverLink} {p : MuxRemoval} {i : UInt32} :
    s.muxRemoval = some (p, i) ↔ s.mux.phase = .removing i p.last p.err p.flow ∧ s.made = true ∧
      batcherLocks s.batcherPhase = false := by
  unfold muxRemoval
  cases hp : s.mux.phase <;> simp
  constructor
  · rintro ⟨⟨hmade, hfree⟩, rfl, rfl⟩
    exact ⟨⟨rfl, rfl, rfl, rfl⟩, hmade, hfree⟩
  · rintro ⟨⟨rfl, rfl, rfl, rfl⟩, hmade, hfree⟩
    exact ⟨⟨hmade, hfree⟩, rfl, rfl⟩

/-- The link with its mux in another place. -/
def muxAt (s : ReceiverLink) (phase : ReceiverPhase) : ReceiverLink := { s with mux := { s.mux with phase := phase } }

theorem removeID_muxAt (s : ReceiverLink) (phase : ReceiverPhase) (id : UInt32) (err : Option SettleError) :
    (s.muxAt phase).removeID id err = (s.removeID id err).muxAt phase := by
  have hsame : (s.muxAt phase).inFlight = s.inFlight := rfl
  unfold removeID
  rw [hsame]
  cases s.inFlight id <;> rfl

/-- The step of the loop itself. -/
theorem step_muxRound {s : ReceiverLink} {p : MuxRemoval} {i : UInt32} (h : s.muxRemoval = some (p, i)) :
    s.step (.mux .removeRound) = some (
      if i ≤ p.last then
        ((s.removeID i (p.err.map .rejected)).muxAt (.removing (i + 1) p.last p.err p.flow), [.remove i p.err])
      else (s.muxAt (ReceiverMux.resume p.flow), [])) := by
  obtain ⟨hphase, hmade, hfree⟩ := muxRemoval_eq_some.mp h
  have hadmits : s.admits .removeRound = true := hmade
  have hround : s.mux.step .removeRound = some (s.mux.removeRound i p.last p.err p.flow) := by
    simp only [ReceiverMux.step, hphase]
  simp only [step, muxStep, hadmits, if_true, hround, ReceiverMux.removeRound]
  by_cases hle : i ≤ p.last
  · simp only [hle, if_true, hfree, Bool.and_false, Bool.false_eq_true, if_false, ← removeID_muxAt]
    rfl
  · simp only [hle, if_false, hfree, Bool.and_false, Bool.false_eq_true]
    rfl

section

variable {s s' : ReceiverLink} {i : SettleInput} {events : List ReceiverEvent}

theorem removeID_locks (s : ReceiverLink) (id : UInt32) (err : Option SettleError) :
    (s.removeID id err).made = s.made ∧ (s.removeID id err).batcherPhase = s.batcherPhase := by
  unfold removeID
  split <;> exact ⟨rfl, rfl⟩

/-- Events of the mux change neither the batcher nor whether the map is made. -/
theorem foldl_handle_frame (events : List ReceiverEvent) (s : ReceiverLink) :
    (events.foldl handle s).made = s.made ∧ (events.foldl handle s).batcherPhase = s.batcherPhase := by
  induction events generalizing s with
  | nil => exact ⟨rfl, rfl⟩
  | cons e events ih =>
    have hhandle : (s.handle e).made = s.made ∧ (s.handle e).batcherPhase = s.batcherPhase := by
      cases e with
      | remove id err => exact removeID_locks s id _
      | _ => exact ⟨rfl, rfl⟩
    obtain ⟨hmade, hphase⟩ := ih (s.handle e)
    exact ⟨hmade.trans hhandle.1, hphase.trans hhandle.2⟩

theorem muxRemoval_other {p : MuxRemoval} {k : UInt32} (h : s.muxRemoval = some (p, k))
    (hstep : s.step i = some (s', events)) (hi : i ≠ .mux .removeRound) : s'.muxRemoval = some (p, k) := by
  obtain ⟨hphase, hmade, hfree⟩ := muxRemoval_eq_some.mp h
  rw [muxRemoval_eq_some]
  cases step_effect hstep with
  | mux j _ m hadmits hmux _ =>
    obtain ⟨hmade', hbatcher'⟩ := foldl_handle_frame events { s with mux := m }
    rw [foldl_handle_mux, hmade', hbatcher']
    refine ⟨?_, hmade, hfree⟩
    rcases ReceiverMux.step_removing hphase hmux with rfl | rfl | hsame
    · exact absurd rfl hi
    · simp [admits, hmade] at hadmits
    · exact hsame.trans hphase
  | registered => exact ⟨hphase, rfl, hfree⟩
  | batched _ _ _ _ frames => exact ⟨hphase, hmade, batcherLocks_after frames⟩
  | batcherMoved _ _ _ hlocks => exact ⟨hphase, hmade, hlocks⟩
  | failed _ _ _ _ _ _ hlocks =>
    rw [hphase] at hlocks
    cases hlocks
  | removed _ _ _ _ hbatcher =>
    rw [hbatcher] at hfree
    cases hfree
  | entered | moved | completed | fired => exact ⟨hphase, hmade, hfree⟩

/-- The batcher makes no round without the lock. -/
theorem not_batchRound (hfree : batcherLocks s.batcherPhase = false) (hstep : s.step i = some (s', events)) :
    i ≠ .batchRound := by
  rintro rfl
  simp only [step, batchRound] at hstep
  split at hstep
  · next hremoving =>
    rw [hremoving] at hfree
    cases hfree
  · cases hstep

/-- The mux makes no round without the lock. -/
theorem not_muxRound (hfree : muxLocks s.mux.phase = false) (hstep : s.step i = some (s', events)) :
    i ≠ .mux .removeRound := by
  rintro rfl
  have hnone : s.mux.step .removeRound = none := by
    cases hp : s.mux.phase <;> simp [ReceiverMux.step, hp]
    rw [hp] at hfree
    cases hfree
  simp [step, muxStep, hnone] at hstep

/-- Whether a step is one of the loop run by the mux. -/
def isMuxRound : SettleInput → Bool
  | .mux .removeRound => true
  | _ => false

theorem isMuxRound_iff : isMuxRound i = true ↔ i = .mux .removeRound := by
  unfold isMuxRound
  split <;> simp_all

theorem muxRound_eq {p : MuxRemoval} {k : UInt32} (h : s.muxRemoval = some (p, k))
    (hstep : s.step i = some (s', events)) (hi : isMuxRound i = true) :
    s' = if k ≤ p.last then
        (s.removeID k (p.err.map .rejected)).muxAt (.removing (k + 1) p.last p.err p.flow)
      else s.muxAt (ReceiverMux.resume p.flow) := by
  rw [isMuxRound_iff.mp hi, step_muxRound h] at hstep
  split at hstep <;> cases hstep
  · next hle => rw [if_pos hle]
  · next hgt => rw [if_neg hgt]

/-- The loop of `inFlight.remove` when the mux runs it. -/
def muxRemoveLoop : CountedLoop ReceiverLink (SettleInput × List ReceiverEvent) MuxRemoval where
  step := Fires step
  position := muxRemoval
  bound p := p.last
  own l := isMuxRound l.1
  stays h hstep hown := by
    refine muxRemoval_other h hstep fun hi => ?_
    rw [isMuxRound_iff.mpr hi] at hown
    cases hown
  round h hstep hown hle := by
    obtain ⟨-, hmade, hfree⟩ := muxRemoval_eq_some.mp h
    rw [muxRound_eq h hstep hown, if_pos hle, muxRemoval_eq_some]
    exact ⟨rfl, (removeID_locks _ _ _).1.trans hmade, by rw [muxAt, (removeID_locks _ _ _).2]; exact hfree⟩
  ready h := ⟨(.mux .removeRound, _), _, step_muxRound h, rfl⟩

theorem muxRemoveLoop_removes : Removes muxRemoveLoop fun p => p.err.map .rejected where
  other h hstep hown := by
    obtain ⟨hphase, -, hfree⟩ := muxRemoval_eq_some.mp h
    refine step_beside hstep (.inl (by rw [hphase]; rfl)) (fun hi => ?_) fun hi => ?_
    · rw [show muxRemoveLoop.own _ = true from isMuxRound_iff.mpr hi] at hown
      cases hown
    · exact not_batchRound hfree hstep hi
  round {s s' l p k} h hstep hown hle := by
    have hle : k ≤ p.last := hle
    rw [muxRound_eq h hstep hown, if_pos hle]
    exact ⟨rfl, rfl⟩
  leave {s s' l p k} h hstep hown hgt := by
    have hgt : ¬ k ≤ p.last := hgt
    rw [muxRound_eq h hstep hown, if_neg hgt]
    exact ⟨rfl, rfl⟩

/-! ## The loop run by the batcher -/

end

/-- What the batcher has called `inFlight.remove` with, and the calls of `sendDisposition` it still has
    to make. -/
structure BatchRemoval where
  last : UInt32
  err : SettleError
  todo : List SendDisposition

/-- The batcher is in the loop, with the lock. -/
def batchRemoval (s : ReceiverLink) : Option (BatchRemoval × UInt32) :=
  match s.batcherPhase with
  | .removing i last err todo =>
    if s.made = true ∧ muxLocks s.mux.phase = false then some (⟨last, err, todo⟩, i) else none
  | _ => none

theorem batchRemoval_eq_some {s : ReceiverLink} {p : BatchRemoval} {i : UInt32} :
    s.batchRemoval = some (p, i) ↔ s.batcherPhase = .removing i p.last p.err p.todo ∧ s.made = true ∧
      muxLocks s.mux.phase = false := by
  unfold batchRemoval
  cases hp : s.batcherPhase <;> simp
  constructor
  · rintro ⟨⟨hmade, hfree⟩, rfl, rfl⟩
    exact ⟨⟨rfl, rfl, rfl, rfl⟩, hmade, hfree⟩
  · rintro ⟨⟨rfl, rfl, rfl, rfl⟩, hmade, hfree⟩
    exact ⟨⟨hmade, hfree⟩, rfl, rfl⟩

/-- The step of the loop itself. -/
theorem step_batchRound {s : ReceiverLink} {p : BatchRemoval} {i : UInt32} (h : s.batchRemoval = some (p, i)) :
    s.step .batchRound = some (
      if i ≤ p.last then
        ({ s.removeID i (some p.err) with batcherPhase := .removing (i + 1) p.last p.err p.todo }, [])
      else ({ s with batcherPhase := .after p.todo }, [])) := by
  obtain ⟨hphase, hmade, -⟩ := batchRemoval_eq_some.mp h
  simp only [step, batchRound, hphase, hmade, true_and]
  split <;> rfl

section

variable {s s' : ReceiverLink} {i : SettleInput} {events : List ReceiverEvent}

/-- In the loop, the batcher takes no other step. -/
theorem step_batcherPhase {k last : UInt32} {err : SettleError} {todo : List SendDisposition}
    (hp : s.batcherPhase = .removing k last err todo) (hstep : s.step i = some (s', events))
    (hi : i ≠ .batchRound) : s'.batcherPhase = s.batcherPhase := by
  cases i with
  | batch | expire | batchExit => simp [step, hp] at hstep
  | batchSend connected => simp [step, batchSend, hp] at hstep
  | batchRound => exact absurd rfl hi
  | mux j =>
    simp only [step, muxStep] at hstep
    split at hstep
    · split at hstep
      · split at hstep <;> cases hstep
        exact (foldl_handle_frame _ _).2
      · cases hstep
    · cases hstep
  | settle n k state =>
    simp only [step] at hstep
    split at hstep <;> cases hstep
    rfl
  | fire =>
    simp only [step] at hstep
    split at hstep <;> cases hstep
    rfl
  | register n =>
    obtain ⟨c, -, hcall⟩ := bind_eq_some_iff.mp hstep
    split at hcall
    · split at hcall <;> cases hcall
      rfl
    · cases hcall
  | queue n =>
    obtain ⟨c, -, hcall⟩ := bind_eq_some_iff.mp hstep
    unfold queue at hcall
    split at hcall
    · split at hcall <;> cases hcall
      rfl
    · cases hcall
  | queueDetached n =>
    obtain ⟨c, -, hcall⟩ := bind_eq_some_iff.mp hstep
    unfold queueDetached at hcall
    split at hcall
    · split at hcall <;> cases hcall
      rfl
    · cases hcall
  | send n connected =>
    obtain ⟨c, -, hcall⟩ := bind_eq_some_iff.mp hstep
    unfold send at hcall
    split at hcall
    · split at hcall
      · cases hcall
      · split at hcall <;> cases hcall <;> rfl
    · cases hcall
  | complete n =>
    obtain ⟨c, -, hcall⟩ := bind_eq_some_iff.mp hstep
    unfold complete at hcall
    split at hcall <;> cases hcall
    rfl
  | cancel n =>
    obtain ⟨c, -, hcall⟩ := bind_eq_some_iff.mp hstep
    unfold cancel at hcall
    split at hcall <;> cases hcall
    rfl

theorem batchRemoval_other {p : BatchRemoval} {k : UInt32} (h : s.batchRemoval = some (p, k))
    (hstep : s.step i = some (s', events)) (hi : i ≠ .batchRound) : s'.batchRemoval = some (p, k) := by
  obtain ⟨hphase, hmade, hfree⟩ := batchRemoval_eq_some.mp h
  have hphase' := (step_batcherPhase hphase hstep hi).trans hphase
  rw [batchRemoval_eq_some]
  refine ⟨hphase', ?_⟩
  cases step_effect hstep with
  | mux j _ m hadmits hmux hlocks =>
    rw [foldl_handle_mux, (foldl_handle_frame _ _).1]
    refine ⟨hmade, ?_⟩
    rw [hphase] at hlocks
    simpa [batcherLocks] using hlocks
  | registered => exact ⟨rfl, hfree⟩
  | removed => exact absurd rfl hi
  | entered | moved | completed | fired | batched | batcherMoved | failed => exact ⟨hmade, hfree⟩

/-- Whether a step is one of the loop run by the batcher. -/
def isBatchRound : SettleInput → Bool
  | .batchRound => true
  | _ => false

theorem isBatchRound_iff : isBatchRound i = true ↔ i = .batchRound := by
  unfold isBatchRound
  split <;> simp_all

theorem batchRound_eq {p : BatchRemoval} {k : UInt32} (h : s.batchRemoval = some (p, k))
    (hstep : s.step i = some (s', events)) (hi : isBatchRound i = true) :
    s' = if k ≤ p.last then
        { s.removeID k (some p.err) with batcherPhase := .removing (k + 1) p.last p.err p.todo }
      else { s with batcherPhase := .after p.todo } := by
  rw [isBatchRound_iff.mp hi, step_batchRound h] at hstep
  split at hstep <;> cases hstep
  · next hle => rw [if_pos hle]
  · next hgt => rw [if_neg hgt]

/-- The loop of `inFlight.remove` when the batcher runs it. -/
def batchRemoveLoop : CountedLoop ReceiverLink (SettleInput × List ReceiverEvent) BatchRemoval where
  step := Fires step
  position := batchRemoval
  bound p := p.last
  own l := isBatchRound l.1
  stays h hstep hown := by
    refine batchRemoval_other h hstep fun hi => ?_
    rw [isBatchRound_iff.mpr hi] at hown
    cases hown
  round h hstep hown hle := by
    obtain ⟨-, hmade, hfree⟩ := batchRemoval_eq_some.mp h
    rw [batchRound_eq h hstep hown, if_pos hle, batchRemoval_eq_some]
    exact ⟨rfl, (removeID_locks _ _ _).1.trans hmade, by rw [(removeID_frame _ _ _).2.1]; exact hfree⟩
  ready h := ⟨(.batchRound, _), _, step_batchRound h, rfl⟩

theorem batchRemoveLoop_removes : Removes batchRemoveLoop fun p => some p.err where
  other h hstep hown := by
    obtain ⟨hphase, -, hfree⟩ := batchRemoval_eq_some.mp h
    refine step_beside hstep (.inr (by rw [hphase]; rfl)) (fun hi => ?_) fun hi => ?_
    · exact not_muxRound hfree hstep hi
    · rw [show batchRemoveLoop.own _ = true from isBatchRound_iff.mpr hi] at hown
      cases hown
  round {s s' l p k} h hstep hown hle := by
    have hle : k ≤ p.last := hle
    rw [batchRound_eq h hstep hown, if_pos hle]
    exact ⟨rfl, rfl⟩
  leave {s s' l p k} h hstep hown hgt := by
    have hgt : ¬ k ≤ p.last := hgt
    rw [batchRound_eq h hstep hown, if_neg hgt]
    exact ⟨rfl, rfl⟩

/-! ## Reachable states -/

/-- What holds of `inFlight` in every run. -/
structure FlightInv (s : ReceiverLink) : Prop where
  unmade : s.made = false → ∀ d, s.inFlight d = none
  calls : ∀ d n, s.inFlight d = some n → s.calls n ≠ none
  exclusive : muxLocks s.mux.phase = true → batcherLocks s.batcherPhase = false

theorem removeID_calls_ne_none {n : Nat} (h : s.calls n ≠ none) (id : UInt32) (err : Option SettleError) :
    (s.removeID id err).calls n ≠ none := by
  rw [removeID_calls]
  split
  · simpa using h
  · exact h

theorem foldl_handle_calls {n : Nat} (h : s.calls n ≠ none) : (events.foldl handle s).calls n ≠ none := by
  induction events generalizing s with
  | nil => exact h
  | cons e events ih =>
    refine ih ?_
    cases e with
    | remove id err => exact removeID_calls_ne_none h id _
    | clear err => simpa [handle, clear] using h
    | _ => exact h

/-- No call is lost. -/
theorem step_calls (hstep : s.step i = some (s', events)) {n : Nat} (h : s.calls n ≠ none) : s'.calls n ≠ none := by
  have hupdate : ∀ (m : Nat) (c : SettleCall), update s.calls m (some c) n ≠ none := by
    intro m c
    by_cases heq : n = m
    · simp [heq]
    · rwa [update_of_ne heq]
  cases step_effect hstep with
  | mux => exact foldl_handle_calls h
  | removed k last e todo => exact removeID_calls_ne_none h k _
  | entered | registered | moved | completed => exact hupdate _ _
  | batched | fired | batcherMoved | failed => exact h

theorem FlightInv.start (maxMessageSize : UInt64) (mode : Option ReceiverSettleMode)
    (initialDeliveryCount handle : UInt32) (autoSendFlow : Bool) (maxCredit : UInt32) (batching : Bool) :
    FlightInv (.start maxMessageSize mode initialDeliveryCount handle autoSendFlow maxCredit batching) := by
  refine ⟨fun _ _ => rfl, fun _ _ h => ?_, fun _ => rfl⟩
  cases h

theorem FlightInv.step (h : FlightInv s) (hstep : s.step i = some (s', events)) : FlightInv s' := by
  refine ⟨fun hmade d => ?_, fun d n hin => ?_, ?_⟩
  · cases hin : s'.inFlight d with
    | none => rfl
    | some n =>
      -- a channel in the map was there, and then the map was made
      exfalso
      have hold : s.made = false → s.inFlight d ≠ some n := fun hunmade => by simp [h.unmade hunmade d]
      cases step_effect hstep with
      | mux j _ m =>
        rw [(foldl_handle_frame _ _).1] at hmade
        exact hold hmade (foldl_inFlight (s := { s with mux := m }) hin)
      | registered => cases hmade
      | removed k last e todo =>
        exact hold ((removeID_locks _ _ _).1.symm.trans hmade) (removeID_inFlight hin)
      | entered | moved | completed | batched | fired | batcherMoved | failed => exact hold hmade hin
  · refine step_calls hstep ?_
    rcases step_inFlight hstep hin with hold | rfl
    · exact h.calls d n hold
    · obtain ⟨c, hc, -⟩ := bind_eq_some_iff.mp hstep
      rw [hc]
      exact some_ne_none c
  · cases step_effect hstep with
    | mux j _ m _ _ hlocks =>
      rw [foldl_handle_mux, (foldl_handle_frame _ _).2]
      exact hlocks
    | batched _ _ _ _ frames => exact fun _ => batcherLocks_after frames
    | batcherMoved _ _ _ hlocks => exact fun _ => hlocks
    | failed _ _ _ _ _ _ hfree =>
      intro hmux
      rw [show muxLocks _ = false from hfree] at hmux
      cases hmux
    | removed k last e todo hphase =>
      intro hmux
      rw [(removeID_frame _ _ _).2.1] at hmux
      have hfree := h.exclusive hmux
      rw [hphase] at hfree
      cases hfree
    | entered | registered | moved | completed | fired => exact h.exclusive

/-- **The invariant of every run.** -/
theorem flightInv_of_run {maxMessageSize : UInt64} {mode : Option ReceiverSettleMode}
    {initialDeliveryCount handle : UInt32} {autoSendFlow : Bool} {maxCredit : UInt32} {batching : Bool}
    {trace : Trace SettleInput ReceiverEvent}
    (hrun : Run (Fires ReceiverLink.step)
      (.start maxMessageSize mode initialDeliveryCount handle autoSendFlow maxCredit batching) trace s) :
    FlightInv s :=
  hrun.invariant (P := fun _ s => FlightInv s) (.start _ _ _ _ _ _ _) fun _ _ _ _ h hstep => h.step hstep

end

end ReceiverLink

end GoAmqp
