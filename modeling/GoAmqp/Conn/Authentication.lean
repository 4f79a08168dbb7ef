import Mathlib.Algebra.Order.Monoid.Prod
import GoAmqp.Conn.Negotiate

set_option autoImplicit false

/-! # No open without authentication

A connection that is configured with a SASL mechanism does not say anything about AMQP before the server has
accepted its credentials. What has been written and read up to a state of `start` is a list of events, the
latest first; `Stage` says for each phase what is in it. -/

namespace GoAmqp

open Lib

namespace NegotiationEvent

/-- An AMQP protocol header or an open is written. -/
def opens : NegotiationEvent → Bool
  | .wroteHeader .amqp => true
  | .wroteFrame (.open_ _) => true
  | _ => false

@[simp]
def isInit : NegotiationEvent → Bool
  | .wroteFrame (.saslInit _) => true
  | _ => false

@[simp]
def isResponse : NegotiationEvent → Bool
  | .wroteFrame (.saslResponse _) => true
  | _ => false

@[simp]
def isFrame : NegotiationEvent → Bool
  | .readFrame _ => true
  | _ => false

/-- What an event adds to the numbers of sasl-inits, of sasl-responses and of frames read. -/
@[simp]
def counts (e : NegotiationEvent) : Nat × Nat × Nat :=
  (if e.isInit then 1 else 0, if e.isResponse then 1 else 0, if e.isFrame then 1 else 0)

end NegotiationEvent

namespace Negotiation

/-! ## Histories -/

/-- The events of a run, the latest first. -/
def history (trace : Trace NegotiationInput NegotiationEvent) : List NegotiationEvent :=
  trace.flatMap fun x => x.2.reverse

/-- The server has listed the mechanism. -/
def Listed (mech : Bytes) (events : List NegotiationEvent) : Prop :=
  ∃ sm, .readFrame (.saslMechanisms sm) ∈ events ∧ mech ∈ sm.mechanisms

/-- A sasl-init has been sent, for a mechanism that is configured and that the server had listed. -/
def Initiated (handlers : List SASLHandler) (events : List NegotiationEvent) : Prop :=
  ∃ newer older init, events = newer ++ .wroteFrame (.saslInit init) :: older ∧
    (∃ h ∈ handlers, h.mechanism = init.mechanism) ∧ Listed init.mechanism older

/-- After that an outcome has been read, with the code OK. -/
def Authenticated (handlers : List SASLHandler) (events : List NegotiationEvent) : Prop :=
  ∃ newer older so, events = newer ++ .readFrame (.saslOutcome so) :: older ∧ so.code = codeSASLOK ∧
    Initiated handlers older

/-- After that the server's AMQP protocol header has been read. -/
def Greeted (handlers : List SASLHandler) (events : List NegotiationEvent) : Prop :=
  ∃ newer older, events = newer ++ .readHeader .amqp :: older ∧ Authenticated handlers older

/-- After that the server's open has been read. -/
def Opened (handlers : List SASLHandler) (events : List NegotiationEvent) : Prop :=
  ∃ newer older o, events = newer ++ .readFrame (.open_ o) :: older ∧ Greeted handlers older

variable {handlers : List SASLHandler} {events : List NegotiationEvent} {e : NegotiationEvent}

theorem Initiated.cons (h : Initiated handlers events) (e : NegotiationEvent) : Initiated handlers (e :: events) := by
  obtain ⟨newer, older, init, rfl, hrest⟩ := h
  exact ⟨e :: newer, older, init, rfl, hrest⟩

theorem Authenticated.cons (h : Authenticated handlers events) (e : NegotiationEvent) :
    Authenticated handlers (e :: events) := by
  obtain ⟨newer, older, so, rfl, hrest⟩ := h
  exact ⟨e :: newer, older, so, rfl, hrest⟩

theorem Greeted.cons (h : Greeted handlers events) (e : NegotiationEvent) : Greeted handlers (e :: events) := by
  obtain ⟨newer, older, rfl, hrest⟩ := h
  exact ⟨e :: newer, older, rfl, hrest⟩

theorem Greeted.authenticated (h : Greeted handlers events) : Authenticated handlers events := by
  obtain ⟨newer, older, rfl, hauth⟩ := h
  induction newer with
  | nil => exact hauth.cons _
  | cons e newer ih => exact ih.cons e

/-- Everything said about AMQP was said after the authentication. -/
def Secured (handlers : List SASLHandler) : List NegotiationEvent → Prop
  | [] => True
  | e :: older => (e.opens = true → Authenticated handlers older) ∧ Secured handlers older

theorem Secured.split {newer older : List NegotiationEvent} (h : Secured handlers (newer ++ e :: older))
    (he : e.opens = true) : Authenticated handlers older := by
  induction newer with
  | nil => exact h.1 he
  | cons first newer ih => exact ih h.2

/-- The bounds for the numbers of sasl-inits, of sasl-responses and of frames read. -/
def Within (bounds : Nat × Nat × Nat) (events : List NegotiationEvent) : Prop :=
  (events.countP NegotiationEvent.isInit, events.countP NegotiationEvent.isResponse,
    events.countP NegotiationEvent.isFrame) ≤ bounds

theorem Within.mono {bounds bounds' : Nat × Nat × Nat} (h : Within bounds events) (hle : bounds ≤ bounds') :
    Within bounds' events :=
  le_trans h hle

theorem Within.cons {bounds bounds' : Nat × Nat × Nat} (h : Within bounds events)
    (hle : bounds + e.counts ≤ bounds') : Within bounds' (e :: events) := by
  refine le_trans ?_ hle
  simp only [List.countP_cons, NegotiationEvent.counts]
  exact ⟨Nat.add_le_add_right h.1 _, Nat.add_le_add_right h.2.1 _, Nat.add_le_add_right h.2.2 _⟩

/-! ## The invariant -/

/-- What has been said by the time a phase is reached. -/
def Stage (handlers : List SASLHandler) (saslComplete : Bool) (events : List NegotiationEvent) :
    NegotiationPhase → Prop
  | .negotiateProto | .header .tls | .headerLoop .tls | .startTLS =>
    saslComplete = true → Authenticated handlers events
  | .header .sasl | .headerLoop .sasl | .negotiateSASL => True
  | .handler h => h ∈ handlers ∧ Listed h.mechanism events
  | .saslOutcome | .xoauth2Step _ | .xoauth2Respond _ => Initiated handlers events
  | .header .amqp | .headerLoop .amqp => Authenticated handlers events
  | .openAMQP | .opening => Greeted handlers events
  | .returned none => Opened handlers events
  | .returned (some _) => True

/-- How much may have been said. -/
@[simp]
def budget (saslComplete : Bool) : NegotiationPhase → Nat × Nat × Nat
  | .negotiateProto | .header .tls | .headerLoop .tls | .startTLS => if saslComplete then (1, 1, 3) else (0, 0, 0)
  | .header .sasl | .headerLoop .sasl | .negotiateSASL => (0, 0, 0)
  | .handler _ => (0, 0, 1)
  | .saslOutcome | .xoauth2Step none => (1, 0, 1)
  | .xoauth2Respond _ => (1, 0, 2)
  | .xoauth2Step (some _) => (1, 1, 2)
  | .header .amqp | .headerLoop .amqp | .openAMQP | .opening => (1, 1, 3)
  | .returned _ => (1, 1, 4)

theorem budget_le (saslComplete : Bool) (phase : NegotiationPhase) :
    budget saslComplete phase ≤ (1, 1, 3) ∨ ∃ err, phase = .returned err := by
  cases phase with
  | returned err => exact .inr ⟨err, rfl⟩
  | header pID => exact .inl (by cases pID <;> cases saslComplete <;> decide)
  | headerLoop pID => exact .inl (by cases pID <;> cases saslComplete <;> decide)
  | xoauth2Step errorResponse => exact .inl (by cases errorResponse <;> simp)
  | _ => exact .inl (by cases saslComplete <;> simp)

theorem budget_returned_le (saslComplete : Bool) (phase : NegotiationPhase) :
    budget saslComplete phase ≤ (1, 1, 4) := by
  rcases budget_le saslComplete phase with hle | ⟨err, rfl⟩
  · exact le_trans hle (by decide)
  · exact le_rfl

variable {s : Negotiation} {new : List NegotiationEvent} {saslComplete : Bool} {phase : NegotiationPhase}

theorem nextWrite_budget (h : s.nextWrite = some (e, phase)) :
    budget s.saslComplete s.phase + e.counts ≤ budget s.saslComplete phase := by
  unfold nextWrite at h
  split at h <;> cases h
  · next hp =>
    rw [hp]
    cases hs : s.saslComplete <;> cases hn : s.nextProto <;> first | decide | skip
    -- the SASL header is not sent a second time
    simp [nextProto, hs] at hn
    split at hn <;> cases hn
  · next x hp => cases x <;> simp [hp, afterInit]
  · next hp => simp [hp]
  · next hp => simp [hp, openFrame]

/-- A step keeps to the bounds. -/
theorem Turn.within (h : Turn s new saslComplete phase) (hw : Within (budget s.saslComplete s.phase) events) :
    Within (budget saslComplete phase) (new.reverse ++ events) := by
  cases h with
  | failed err => exact hw.mono (budget_returned_le _ _)
  | wrote e phase hnext => exact hw.cons (nextWrite_budget hnext)
  | writeFailed e phase err hnext =>
    exact hw.cons (le_trans (nextWrite_budget hnext) (budget_returned_le _ _))
  | waits => exact hw
  | headerLoop pID hp =>
    rw [hp] at hw
    exact hw.mono (by cases pID <;> cases s.saslComplete <;> decide)
  | gotHeader pID hp =>
    refine hw.cons ?_
    rcases hp with hp | hp <;> rw [hp] <;> cases pID <;> cases s.saslComplete <;> decide
  | secured hp =>
    rw [hp] at hw
    exact hw
  | listed sm x hp hmem hmech =>
    rw [hp] at hw
    exact hw.cons (by simp)
  | outcome so hp hcode =>
    refine hw.cons ?_
    obtain hp | ⟨errorResponse, hp⟩ := hp
    · simp [hp]
    · cases errorResponse <;> simp [hp]
  | challenged sc hp =>
    rw [hp] at hw
    exact hw.cons (by simp)
  | opened o hp =>
    rw [hp] at hw
    exact hw.cons (by simp)
  | refused body err hreads =>
    rcases budget_le s.saslComplete s.phase with hle | ⟨err, hp⟩
    · exact (hw.mono hle).cons (by simp)
    · rw [hp] at hreads
      cases hreads

/-- With a mechanism configured the AMQP header is not sent before the authentication is complete. -/
theorem nextProto_amqp (h : s.nextProto = .amqp) (hhandlers : s.saslHandlers ≠ []) : s.saslComplete = true := by
  unfold nextProto at h
  split at h
  · cases h
  · split at h
    · cases h
    · next hneg => simpa [hhandlers] using hneg

theorem nextWrite_stage (h : s.nextWrite = some (e, phase)) (hhandlers : s.saslHandlers ≠ [])
    (hst : Stage s.saslHandlers s.saslComplete events s.phase) :
    Stage s.saslHandlers s.saslComplete (e :: events) phase ∧
      (e.opens = true → Authenticated s.saslHandlers events) := by
  unfold nextWrite at h
  split at h <;> cases h
  · next hp =>
    rw [hp] at hst
    cases hn : s.nextProto with
    | amqp =>
      have hauth := hst (nextProto_amqp hn hhandlers)
      exact ⟨hauth.cons _, fun _ => hauth⟩
    | tls => exact ⟨fun hs => (hst hs).cons _, fun h => (by cases h)⟩
    | sasl => exact ⟨trivial, fun h => (by cases h)⟩
  · next x hp =>
    rw [hp] at hst
    obtain ⟨hmem, hlisted⟩ := hst
    have hinit : Initiated s.saslHandlers (.wroteFrame (.saslInit x.init) :: events) := by
      have hmech : x.init.mechanism = x.mechanism := by cases x <;> rfl
      exact ⟨[], events, x.init, rfl, ⟨x, hmem, hmech.symm⟩, hmech ▸ hlisted⟩
    cases x <;> exact ⟨hinit, fun h => (by cases h)⟩
  · next hp =>
    rw [hp] at hst
    exact ⟨hst.cons _, fun h => (by cases h)⟩
  · next hp =>
    rw [hp] at hst
    exact ⟨hst.cons _, fun _ => hst.authenticated⟩

/-- A step keeps what the phases say. -/
theorem Turn.stage (h : Turn s new saslComplete phase) (hhandlers : s.saslHandlers ≠ [])
    (hst : Stage s.saslHandlers s.saslComplete events s.phase) (hsec : Secured s.saslHandlers events) :
    Stage s.saslHandlers saslComplete (new.reverse ++ events) phase ∧
      Secured s.saslHandlers (new.reverse ++ events) := by
  cases h with
  | failed err => exact ⟨trivial, hsec⟩
  | wrote e phase hnext =>
    obtain ⟨hst', hopens⟩ := nextWrite_stage hnext hhandlers hst
    exact ⟨hst', hopens, hsec⟩
  | writeFailed e phase err hnext => exact ⟨trivial, (nextWrite_stage hnext hhandlers hst).2, hsec⟩
  | waits => exact ⟨hst, hsec⟩
  | headerLoop pID hp =>
    rw [hp] at hst
    cases pID <;> exact ⟨hst, hsec⟩
  | gotHeader pID hp =>
    refine ⟨?_, fun h => (by cases h), hsec⟩
    have hst : Stage s.saslHandlers s.saslComplete events (.header pID) := by
      rcases hp with hp | hp <;> rw [hp] at hst
      · exact hst
      · cases pID <;> exact hst
    cases pID with
    | amqp => exact ⟨[], events, rfl, hst⟩
    | tls => exact fun hs => (hst hs).cons _
    | sasl => trivial
  | secured hp =>
    rw [hp] at hst
    exact ⟨hst, hsec⟩
  | listed sm x hp hmem hmech =>
    exact ⟨⟨hmem, sm, List.mem_cons_self .., hmech⟩, fun h => (by cases h), hsec⟩
  | outcome so hp hcode =>
    have hinit : Initiated s.saslHandlers events := by
      obtain hp | ⟨errorResponse, hp⟩ := hp <;> rw [hp] at hst <;> exact hst
    exact ⟨fun _ => ⟨[], events, so, rfl, hcode, hinit⟩, fun h => (by cases h), hsec⟩
  | challenged sc hp =>
    rw [hp] at hst
    exact ⟨hst.cons _, fun h => (by cases h), hsec⟩
  | opened o hp =>
    rw [hp] at hst
    exact ⟨⟨[], events, o, rfl, hst⟩, fun h => (by cases h), hsec⟩
  | refused body err hreads =>
    exact ⟨trivial, fun h => (by cases h), hsec⟩

/-- The invariant of `start`, for the handlers it was configured with. -/
structure Inv (handlers : List SASLHandler) (trace : Trace NegotiationInput NegotiationEvent)
    (s : Negotiation) : Prop where
  handlers_eq : s.saslHandlers = handlers
  stage : Stage handlers s.saslComplete (history trace) s.phase
  secured : Secured handlers (history trace)
  within : Within (budget s.saslComplete s.phase) (history trace)

theorem Inv.step {trace : Trace NegotiationInput NegotiationEvent} {s' : Negotiation}
    {i : NegotiationInput} (h : Inv handlers trace s) (hhandlers : handlers ≠ [])
    (hstep : s.step i = some (s', new)) : Inv handlers ((i, new) :: trace) s' := by
  obtain ⟨hturn, hsame⟩ := step_cases hstep
  have heq := h.handlers_eq
  subst heq
  obtain ⟨hstage, hsecured⟩ := hturn.stage hhandlers h.stage h.secured
  exact ⟨hsame, hstage, hsecured, hturn.within h.within⟩

end Negotiation

open Negotiation

/-- Nothing is said about AMQP before the credentials are accepted, `start` succeeds only after the headers and
    the open of the server, and it comes to an end with the fourth frame at the latest. -/
theorem start_authenticates {tlsNegotiation : Bool} {handlers : List SASLHandler} {containerID hostname : Bytes}
    {maxFrameSize : UInt32} {channelMax : UInt16} {idleTimeout : Duration} {properties : SymbolMap}
    {trace : Trace NegotiationInput NegotiationEvent} {s : Negotiation} (hhandlers : handlers ≠ [])
    (hrun : Run (Fires Negotiation.step) (.start tlsNegotiation handlers containerID hostname maxFrameSize channelMax
      idleTimeout properties) trace s) :
    (∀ newer e older, history trace = newer ++ e :: older → e.opens = true → Authenticated handlers older) ∧
      (s.phase = .returned none → Opened handlers (history trace)) ∧
      (history trace).countP NegotiationEvent.isInit ≤ 1 ∧ (history trace).countP NegotiationEvent.isResponse ≤ 1 ∧
      (history trace).countP NegotiationEvent.isFrame ≤ 4 ∧
      ((history trace).countP NegotiationEvent.isFrame = 4 → ∃ err, s.phase = .returned err) := by
  have hinv : Inv handlers trace s := by
    refine hrun.invariant (P := Inv handlers) ⟨rfl, ?_, trivial, le_rfl⟩ ?_
    · intro hcomplete
      cases hcomplete
    · rintro trace s ⟨i, events⟩ s' h hstep
      exact h.step hhandlers hstep
  have hle := le_trans hinv.within (budget_returned_le _ _)
  refine ⟨?_, ?_, hle.1, hle.2.1, hle.2.2, ?_⟩
  · intro newer e older heq he
    exact (heq ▸ hinv.secured).split he
  · intro hp
    have hstage := hinv.stage
    rwa [hp] at hstage
  · intro hfour
    rcases budget_le s.saslComplete s.phase with hthree | hret
    · have hle : (history trace).countP NegotiationEvent.isFrame ≤ 3 := (le_trans hinv.within hthree).2.2
      omega
    · exact hret

namespace Negotiation

/-- A server that lists PLAIN and accepts it. -/
def plainExchange : List NegotiationInput :=
  [.go, .go, .headerRead (ascii "AMQP" ++ [0x03, 0x01, 0x00, 0x00]),
    .frame .call, .frame (.read ([0x00, 0x00, 0x00, 0x15, 0x02, 0x01, 0x00, 0x00, 0x00, 0x53, 0x40, 0xc0, 0x08, 0x01,
      0xa3, 0x05] ++ ascii "PLAIN")), .go,
    .frame .call, .frame (.read [0x00, 0x00, 0x00, 0x10, 0x02, 0x01, 0x00, 0x00, 0x00, 0x53, 0x44, 0xc0, 0x03, 0x01,
      0x50, 0x00]),
    .go, .go, .headerRead (ascii "AMQP" ++ [0x00, 0x01, 0x00, 0x00]), .go,
    .frame .call, .frame (.read ([0x00, 0x00, 0x00, 0x11, 0x02, 0x00, 0x00, 0x00, 0x00, 0x53, 0x10, 0xc0, 0x04, 0x01,
      0xa1, 0x01] ++ ascii "s"))]

/-- `start` has returned without an error. -/
def succeeded (s : Negotiation) : Bool :=
  match s.phase with
  | .returned none => true
  | _ => false

end Negotiation

/-- The configuration has PLAIN, and the server accepts it. -/
theorem start_authenticates_plain : ∃ trace s,
    Run (Fires Negotiation.step) (.start false [.plain (ascii "user") (ascii "secret")] (ascii "c") (ascii "h") 65536
      10 0 []) trace s ∧
      s.phase = .returned none ∧ Opened [.plain (ascii "user") (ascii "secret")] (history trace) := by
  have hexec : (exec Negotiation.step [] (.start false [.plain (ascii "user") (ascii "secret")] (ascii "c") (ascii "h")
      65536 10 0 []) plainExchange).map (fun r => r.2.succeeded) = some true := by
    decide +kernel
  obtain ⟨⟨trace, s⟩, hexec, hsucceeded⟩ := Option.map_eq_some_iff.mp hexec
  have hp : s.phase = .returned none := by
    unfold succeeded at hsucceeded
    split at hsucceeded
    · assumption
    · cases hsucceeded
  have hrun := Run.of_exec plainExchange .start hexec
  exact ⟨trace, s, hrun, hp, (start_authenticates (List.cons_ne_nil _ _) hrun).2.1 hp⟩

end GoAmqp
