set_option autoImplicit false

/-! # Labelled transition systems

A system is a relation `R s l s'`: from the state `s` it can take the step `l` to the state `s'`.
The label holds what an observer sees of a step. `Run R s₀ trace s` says that the steps of `trace`
lead from `s₀` to `s`; the latest step stands first, so that a function of the past of a run is a
recursion over the trace. -/

namespace GoAmqp.Lib

variable {S L : Type}

/-- The runs from `s₀`, with their steps, latest first. -/
inductive Run (R : S → L → S → Prop) (s₀ : S) : List L → S → Prop
  | start : Run R s₀ [] s₀
  | step {trace : List L} {s s' : S} {l : L} :
      Run R s₀ trace s → R s l s' → Run R s₀ (l :: trace) s'

/-- The steps of `R` that meet a condition on the state before the step and on the step itself. -/
def Guarded (R : S → L → S → Prop) (G : S → L → Prop) (s : S) (l : L) (s' : S) : Prop := R s l s' ∧ G s l

namespace Run

variable {R : S → L → S → Prop} {s₀ : S}

/-- **The invariant rule.** What holds at the start and is kept by every step of a run holds after
    every run. -/
theorem invariant {P : List L → S → Prop} (start : P [] s₀)
    (step : ∀ trace s l s', P trace s → R s l s' → P (l :: trace) s')
    {trace : List L} {s : S} (h : Run R s₀ trace s) : P trace s := by
  induction h with
  | start => exact start
  | step _ hstep ih => exact step _ _ _ _ ih hstep

/-- **Forward simulation.** When every step of one system can be taken by another one, with the same label
    and from related states to related states, so can every run. -/
theorem simulates {T : Type} {Q : T → L → T → Prop} {P : S → T → Prop} {t₀ : T} (start : P s₀ t₀)
    (step : ∀ s t l s', P s t → R s l s' → ∃ t', Q t l t' ∧ P s' t') {trace : List L} {s : S}
    (h : Run R s₀ trace s) : ∃ t, Run Q t₀ trace t ∧ P s t := by
  induction h with
  | start => exact ⟨t₀, .start, start⟩
  | step _ hstep ih =>
    obtain ⟨t, hrun, hrel⟩ := ih
    obtain ⟨t', hstep', hrel'⟩ := step _ t _ _ hrel hstep
    exact ⟨t', .step hrun hstep', hrel'⟩

/-- The first step of a run, and the run after it. -/
theorem uncons {trace : List L} {l : L} {s : S} (h : Run R s₀ (trace ++ [l]) s) :
    ∃ s₁, R s₀ l s₁ ∧ Run R s₁ trace s := by
  induction trace generalizing s with
  | nil =>
    cases h with
    | step hrun hstep =>
      cases hrun
      exact ⟨s, hstep, .start⟩
  | cons k trace ih =>
    cases h with
    | step hrun hstep =>
      obtain ⟨s₁, hfirst, hrest⟩ := ih hrun
      exact ⟨s₁, hfirst, .step hrest hstep⟩

end Run

/-- The runs whose steps all meet a condition on what came before, on the state before the step and on
    the step itself. -/
inductive RunIf (R : S → L → S → Prop) (G : List L → S → L → Prop) (s₀ : S) : List L → S → Prop
  | start : RunIf R G s₀ [] s₀
  | step {trace : List L} {s s' : S} {l : L} :
      RunIf R G s₀ trace s → R s l s' → G trace s l → RunIf R G s₀ (l :: trace) s'

namespace RunIf

variable {R : S → L → S → Prop} {G : List L → S → L → Prop} {s₀ : S}

theorem invariant {P : List L → S → Prop} (start : P [] s₀)
    (step : ∀ trace s l s', P trace s → R s l s' → G trace s l → P (l :: trace) s')
    {trace : List L} {s : S} (h : RunIf R G s₀ trace s) : P trace s := by
  induction h with
  | start => exact start
  | step _ hstep hguard ih => exact step _ _ _ _ ih hstep hguard

/-- A weaker condition has more runs. -/
theorem mono {G' : List L → S → L → Prop} {trace : List L} {s : S} (h : RunIf R G s₀ trace s)
    (himp : ∀ trace s l, G trace s l → G' trace s l) : RunIf R G' s₀ trace s := by
  induction h with
  | start => exact .start
  | step _ hstep hguard ih => exact .step ih hstep (himp _ _ _ hguard)

end RunIf

/-! ## Systems given by a step function

The label of a step is the input it takes and the events it causes. -/

variable {I E : Type}

/-- The transitions of a step function; an input it gives no result for is not enabled. -/
def Fires (step : S → I → Option (S × List E)) (s : S) (l : I × List E) (s' : S) : Prop := step s l.1 = some (s', l.2)

/-- The steps of a run, latest first. -/
abbrev Trace (I E : Type) := List (I × List E)

/-- Take the steps for a list of inputs, after the steps of `trace`. -/
def exec (step : S → I → Option (S × List E)) :
    Trace I E → S → List I → Option (Trace I E × S)
  | trace, s, [] => some (trace, s)
  | trace, s, i :: inputs =>
    match step s i with
    | some (s', events) => exec step ((i, events) :: trace) s' inputs
    | none => none

variable {step : S → I → Option (S × List E)}

theorem exec_cons {s s' : S} {i : I} {events : List E} (h : step s i = some (s', events)) (trace : Trace I E)
    (inputs : List I) : exec step trace s (i :: inputs) = exec step ((i, events) :: trace) s' inputs := by
  rw [exec, h]

/-- A step function that always has a result takes every list of inputs. -/
theorem exec_isSome (h : ∀ s i, (step s i).isSome = true) (trace : Trace I E) (s : S)
    (inputs : List I) : ∃ r, exec step trace s inputs = some r := by
  induction inputs generalizing trace s with
  | nil => exact ⟨_, rfl⟩
  | cons i inputs ih =>
    obtain ⟨⟨s', events⟩, hstep⟩ := Option.isSome_iff_exists.mp (h s i)
    rw [exec_cons hstep]
    exact ih _ s'

theorem Run.of_exec {s₀ : S} {trace trace' : Trace I E} {s s' : S} (inputs : List I) (h : Run (Fires step) s₀ trace s)
    (hexec : exec step trace s inputs = some (trace', s')) : Run (Fires step) s₀ trace' s' := by
  induction inputs generalizing trace s with
  | nil =>
    simp only [exec, Option.some.injEq, Prod.mk.injEq] at hexec
    obtain ⟨rfl, rfl⟩ := hexec
    exact h
  | cons i inputs ih =>
    unfold exec at hexec
    split at hexec
    · next s₁ events hstep =>
      have hfires : Fires step s (i, events) s₁ := hstep
      exact ih (.step h hfires) hexec
    · cases hexec

/-- Take the steps for a list of inputs, as long as each input is admitted where it comes. -/
def execIf (step : S → I → Option (S × List E)) (ok : Trace I E → S → I → Bool) :
    Trace I E → S → List I → Option (Trace I E × S)
  | trace, s, [] => some (trace, s)
  | trace, s, i :: inputs =>
    if ok trace s i then
      match step s i with
      | some (s', events) => execIf step ok ((i, events) :: trace) s' inputs
      | none => none
    else none

theorem RunIf.of_execIf {ok : Trace I E → S → I → Bool} {G : Trace I E → S → I × List E → Prop} {s₀ : S}
    {trace trace' : Trace I E} {s s' : S} (hok : ∀ trace s i events, ok trace s i = true → G trace s (i, events))
    (inputs : List I) (h : RunIf (Fires step) G s₀ trace s)
    (hexec : execIf step ok trace s inputs = some (trace', s')) : RunIf (Fires step) G s₀ trace' s' := by
  induction inputs generalizing trace s with
  | nil =>
    simp only [execIf, Option.some.injEq, Prod.mk.injEq] at hexec
    obtain ⟨rfl, rfl⟩ := hexec
    exact h
  | cons i inputs ih =>
    unfold execIf at hexec
    split at hexec
    · next hadmitted =>
      split at hexec
      · next s₁ events hstep =>
        have hfires : Fires step s (i, events) s₁ := hstep
        exact ih (.step h hfires (hok trace s i events hadmitted)) hexec
      · cases hexec
    · cases hexec

/-- One more step of a guarded run. -/
theorem Run.fire {G : S → I × List E → Prop} {s₀ s s' : S} {trace : Trace I E} {events : List E}
    (i : I) (h : Run (Guarded (Fires step) G) s₀ trace s) (hstep : step s i = some (s', events))
    (hguard : G s (i, events)) : Run (Guarded (Fires step) G) s₀ ((i, events) :: trace) s' :=
  .step h ⟨hstep, hguard⟩

theorem RunIf.fire {G : Trace I E → S → I × List E → Prop} {s₀ s s' : S} {trace : Trace I E}
    {events : List E} (i : I) (h : RunIf (Fires step) G s₀ trace s) (hstep : step s i = some (s', events))
    (hguard : G trace s (i, events)) : RunIf (Fires step) G s₀ ((i, events) :: trace) s' :=
  .step h hstep hguard

end GoAmqp.Lib
