import GoAmqp.Encoding.DecodeLayout.Values
import GoAmqp.Encoding.LayoutBounds
import GoAmqp.Frames.Types

set_option autoImplicit false

/-! # The layout of frame bodies

Which fields each performative has, how they are laid out and which of them are mandatory. Then, as
for single values: `ParseBody` follows this layout, and its scanner does not reach a bound. -/

namespace GoAmqp

open Lib Buffer TypeCode

namespace Layout

/-- The scalars that fields have. -/
def text : Scanner Bytes := scalar textCodes
def binary : Scanner Bytes := scalar binaryCodes
def bool : Scanner Bytes := scalar boolCodes
def ubyte : Scanner Bytes := scalar [TypeCode.ubyte]
def ushort : Scanner Bytes := scalar [TypeCode.ushort]
def uint : Scanner Bytes := scalar uintCodes
def milliseconds : Scanner Bytes := scalar unsignedCodes
def properties : Scanner Unit := stringMap any

/-- One of the four policies. -/
def expiryPolicy : Scanner Unit := do
  let s ← text
  if ExpiryPolicy.valid s then pure () else malformed

/-- A map with string or symbol keys whose values may be null. -/
def nullableMap (sc : Scanner Unit) : Scanner Unit := map do
  let _ ← text
  if ← null then pure () else sc

def unsettled : Scanner Unit := nullableMap (deliveryState any)

def filter : Scanner Unit := nullableMap (do let _ ← described any)

/-! ## The performatives -/

def source : Scanner Unit := record TypeCode.source [
  optional text, optional uint, optional expiryPolicy, optional uint, optional bool,
  optional properties, optional text, optional filter, optional any, optional multiSymbol,
  optional multiSymbol]

def target : Scanner Unit := record TypeCode.target [
  optional text, optional uint, optional expiryPolicy, optional uint, optional bool,
  optional properties, optional multiSymbol]

def performOpen : Scanner Unit := record TypeCode.open_ [
  mandatory text, optional text, optional uint, optional ushort, optional milliseconds,
  optional multiSymbol, optional multiSymbol, optional multiSymbol, optional multiSymbol,
  optional properties]

def performBegin : Scanner Unit := record TypeCode.begin_ [
  optional ushort, mandatory uint, mandatory uint, mandatory uint, optional uint,
  optional multiSymbol, optional multiSymbol, optional properties]

def performAttach : Scanner Unit := record TypeCode.attach [
  mandatory text, mandatory uint, mandatory bool, optional ubyte, optional ubyte, optional source,
  optional target, optional unsettled, optional bool, optional uint, optional (scalar ulongCodes),
  optional multiSymbol, optional multiSymbol, optional properties]

def performFlow : Scanner Unit := record TypeCode.flow [
  optional uint, mandatory uint, mandatory uint, mandatory uint, optional uint, optional uint,
  optional uint, optional uint, optional bool, optional bool, optional properties]

/-- A transfer; its payload is what follows. -/
def performTransfer : Scanner Unit := record TypeCode.transfer [
  mandatory uint, optional uint, optional binary, optional uint, optional bool, optional bool,
  optional ubyte, optional (deliveryState any), optional bool, optional bool, optional bool]

def performDisposition : Scanner Unit := record TypeCode.disposition [
  mandatory bool, mandatory uint, optional uint, optional bool, optional (deliveryState any),
  optional bool]

def performDetach : Scanner Unit := record TypeCode.detach [
  mandatory uint, optional bool, optional (error any)]

/-- The end of a session or a connection. -/
def ending (code : UInt8) : Scanner Unit := record code [optional (error any)]

def saslMechanisms : Scanner Unit := record saslMechanism [mandatory multiSymbol]

def saslChallenge : Scanner Unit := record TypeCode.saslChallenge [mandatory binary]

def saslOutcome : Scanner Unit := record TypeCode.saslOutcome [mandatory ubyte, optional binary]

/-- The performative or SASL frame of the type `t`. -/
def bodyOf (t : UInt8) : Scanner Unit :=
  if t = TypeCode.open_ then performOpen
  else if t = TypeCode.begin_ then performBegin
  else if t = TypeCode.attach then performAttach
  else if t = TypeCode.flow then performFlow
  else if t = TypeCode.transfer then performTransfer
  else if t = TypeCode.disposition then performDisposition
  else if t = TypeCode.detach then performDetach
  else if t = TypeCode.end_ then ending TypeCode.end_
  else if t = TypeCode.close then ending TypeCode.close
  else if t = saslMechanism then saslMechanisms
  else if t = TypeCode.saslChallenge then saslChallenge
  else if t = TypeCode.saslOutcome then saslOutcome
  else malformed

/-- The descriptor of a frame body has its one-byte encoding. -/
def frameBody : Scanner Unit := do
  match ← get with
  | b :: c :: t :: _ => if b ≠ 0 ∨ c ≠ smallUlong then malformed else bodyOf t
  | _ => malformed

end Layout

open Layout

/-! ## The readers of fields -/

section Fields

variable {σ α β : Type}

variable {read : BufM α} {sc : Scanner β}

instance [h : Laid read sc] : LaidInto (store read) sc where
  follows := by
    rw [← bind_pure sc]
    refine .bind (follows_onBuffer h.follows) ?_
    intro a _ _ s bs hs
    exact ⟨hs, trivial⟩

theorem follows_storeAlways {zero : α} (h : Follows Any read sc) : FollowsInto Any (storeAlways read zero) sc := by
  intro s bs hs
  have hpacked := (h s.2 bs hs).repack (P := fun s bs => At s.2 bs) (V := Any)
    (f := fun _ _ => ()) (g := fun a r => (a, r)) (k := fun r => (zero, r))
    fun _ _ _ _ hs _ => ⟨hs, trivial⟩
  show Agree _ _ _ (storeAlways read zero s) _
  rw [storeAlways]
  cases hrun : read.run s.2 <;> rw [hrun] at hpacked <;> exact hpacked

instance [h : Laid read sc] (zero : α) : LaidInto (storeAlways read zero) sc := ⟨follows_storeAlways h.follows⟩

instance : Laid unmarshalMilliseconds milliseconds := ⟨follows_readUintValue.map_left fun _ _ _ => trivial⟩

/-- The policy that is checked is the one that was read. -/
theorem follows_unmarshalExpiryPolicy : FollowsInto Any unmarshalExpiryPolicy expiryPolicy := by
  rw [unmarshalExpiryPolicy, store, bind_assoc]
  refine .bind (follows_onBuffer follows_readString) ?_
  rintro p _ rfl s bs hs
  show InStepAt _ _ _ (if ExpiryPolicy.valid p then pure ()
    else fail ("unknown expiry-policy " ++ quote p)) (p, s.2) _ _
  have hcheck : FollowsInto Any (if ExpiryPolicy.valid p then pure ()
      else fail ("unknown expiry-policy " ++ quote p) : IntoM ExpiryPolicy Unit)
      (if ExpiryPolicy.valid p then pure () else malformed) :=
    .ite Iff.rfl (fun _ => .pure trivial) fun _ => .throw rfl
  exact hcheck (p, s.2) bs hs

theorem follows_unmarshalUnsettled : Follows Any unmarshalUnsettled unsettled := by
  refine follows_unmarshalMap fun m => ?_
  refine .bind follows_readString fun key _ _ => ?_
  refine .bind_eq follows_tryReadNull fun b => ?_
  refine .ite Iff.rfl (fun _ => .pure trivial) fun _ => ?_
  exact Follows.then_pure (follows_unmarshalDeliveryState follows_readAny) _

theorem follows_unmarshalFilter : Follows Any unmarshalFilter filter := by
  refine follows_unmarshalMap fun m => ?_
  refine .bind follows_readString fun key _ _ => ?_
  refine .bind_eq follows_tryReadNull fun b => ?_
  refine .ite Iff.rfl (fun _ => .pure trivial) fun _ => ?_
  exact .bind (follows_unmarshalDescribed follows_readAny) fun _ _ _ => .pure trivial

instance {part : σ → ExpiryPolicy} {put : ExpiryPolicy → σ → σ} :
    LaidBody (orNull (zoom part put unmarshalExpiryPolicy)) expiryPolicy :=
  ⟨BodyFollows.orNull fun _ bs hs _ => followsAt_zoom (follows_unmarshalExpiryPolicy _ bs hs)⟩

instance : LaidInto (unmarshalError readAny) (error any) := ⟨follows_unmarshalError follows_readAny⟩

instance {part : σ → Option (AmqpError Value)} {put : Option (AmqpError Value) → σ → σ} :
    FieldFollows (errorField part put) (optional (error any)) :=
  .optional LaidBody.follows

instance : Laid readString text := follows_readString.laid

instance : Laid readBinary binary := follows_readBinary.laid

instance : Laid readBool bool := follows_readBool.laid

instance : Laid readUbyte ubyte := ⟨follows_readUbyte⟩

instance : Laid readUshort ushort := ⟨follows_readUshort⟩

instance : Laid readUint32Value uint := ⟨follows_readUint32Value⟩

instance : Laid unmarshalMultiSymbol multiSymbol := ⟨follows_unmarshalMultiSymbol⟩

instance : Laid (unmarshalMapStringAny readAny) properties := ⟨follows_stringMap follows_readAny⟩

instance : Laid unmarshalUnsettled unsettled := ⟨follows_unmarshalUnsettled⟩

instance : Laid unmarshalFilter filter := ⟨follows_unmarshalFilter⟩

instance : Laid (unmarshalDeliveryState readAny) (deliveryState any) :=
  ⟨follows_unmarshalDeliveryState follows_readAny⟩

instance : Laid readAny any := follows_readAny.laid

instance {put : Value → σ → σ} : LaidBody (assignAnyField put) any := ⟨body_assign follows_readAny⟩

end Fields

/-! ## The readers of performatives -/

instance : LaidInto Source.unmarshal source := laid_unmarshalComposite _

instance : LaidInto Target.unmarshal target := laid_unmarshalComposite _

instance : LaidInto PerformOpen.unmarshal performOpen := laid_unmarshalComposite _

instance : LaidInto PerformBegin.unmarshal performBegin := laid_unmarshalComposite _

instance : LaidInto PerformAttach.unmarshal performAttach := laid_unmarshalComposite _

instance : LaidInto PerformFlow.unmarshal performFlow := laid_unmarshalComposite _

instance : LaidInto PerformTransfer.unmarshal performTransfer where
  follows := by
    have hcomposite : LaidInto PerformTransfer.unmarshalComposite performTransfer := laid_unmarshalComposite _
    rw [← bind_pure performTransfer]
    refine .bind hcomposite.follows ?_
    -- the payload is looked at, not consumed
    intro _ _ _ s bs hs
    have hbytes := followsAt_onBuffer (σ := PerformTransfer) (s := s) (follows_bytes s.2 bs hs)
    exact hbytes.bind fun _ _ _ _ _ _ => ⟨by assumption, trivial⟩

instance : LaidInto PerformDisposition.unmarshal performDisposition := laid_unmarshalComposite _

instance : LaidInto PerformDetach.unmarshal performDetach := laid_unmarshalComposite _

instance : LaidInto PerformEnd.unmarshal (ending TypeCode.end_) := laid_unmarshalComposite _

instance : LaidInto PerformClose.unmarshal (ending TypeCode.close) := laid_unmarshalComposite _

instance : LaidInto SASLMechanisms.unmarshal saslMechanisms := laid_unmarshalComposite _

instance : LaidInto SASLChallenge.unmarshal saslChallenge := laid_unmarshalComposite _

instance : LaidInto SASLOutcome.unmarshal saslOutcome := laid_unmarshalComposite _

/-- **Frame bodies.** Each performative is read as it is laid out. -/
theorem follows_bodyReader (t : UInt8) : Follows Any (bodyReader t) (bodyOf t) := by
  unfold bodyReader bodyOf
  exact Laid.follows

theorem follows_parseBody : Follows Any parseBody frameBody := by
  intro r bs h
  refine .bind_left (h.run_peek reads_bytes) ?_
  refine .bind_left (h.run_peek reads_len) ?_
  refine .bind_right (b := bs) (u := bs) rfl ?_
  match bs, h with
  | [], _ => rfl
  | [_], _ => rfl
  | [_, _], _ => rfl
  | b :: c :: t :: rest, h =>
    have hlen : ¬ (b :: c :: t :: rest).length < 3 := by simp
    have h0 : (index (b :: c :: t :: rest) 0 : BufM UInt8) = pure b := rfl
    have h1 : (index (b :: c :: t :: rest) 1 : BufM UInt8) = pure c := rfl
    have h2 : (index (b :: c :: t :: rest) 2 : BufM UInt8) = pure t := rfl
    rw [if_neg hlen, h0, pure_bind, h1, pure_bind, h2, pure_bind]
    have hbody : Follows Any (if b ≠ 0 ∨ c ≠ smallUlong then fail "invalid frame body header"
        else bodyReader t) (if b ≠ 0 ∨ c ≠ smallUlong then malformed else bodyOf t) :=
      .ite Iff.rfl (fun _ => follows_fail) fun _ => follows_bodyReader t
    exact hbody r _ h

/-! ## Bounds -/

namespace Layout

variable {k : Nat}

theorem forward_expiryPolicy : Forward k expiryPolicy :=
  (forward_scalar _).bind fun _ => .ite (.pure _) forward_malformed

theorem forward_nullableMap {sc : Scanner Unit} (h : Forward k sc) : Forward k (nullableMap sc) :=
  (advances_map (advances_keyed (forward_null.bind fun _ => .ite (.pure _) h))).shorter

theorem forward_unsettled : Forward k unsettled :=
  forward_nullableMap (advances_deliveryState (advances_any k)).shorter

theorem forward_filter : Forward k filter :=
  forward_nullableMap ((advances_described (advances_any k)).shorter.bind fun _ => .pure _)

theorem forward_properties : Forward k properties := (advances_stringMap (advances_any k)).shorter

theorem forward_source : Forward k source := by
  refine (advances_record ?_ _).shorter
  simp [text, uint, bool, forward_scalar, forward_expiryPolicy, forward_properties, forward_filter,
    (advances_any k).forward, forward_multiSymbol]

theorem forward_target : Forward k target := by
  refine (advances_record ?_ _).shorter
  simp [text, uint, bool, forward_scalar, forward_expiryPolicy, forward_properties, forward_multiSymbol]

theorem forward_bodyOf (t : UInt8) : Forward k (bodyOf t) := by
  have herror : Forward k (error any) := (advances_error (advances_any k)).shorter
  have hstate : Forward k (deliveryState any) := (advances_deliveryState (advances_any k)).shorter
  have hrecord (code : UInt8) {fs : List Field} (h : ∀ f ∈ fs, Forward k f.scan) :
      Forward k (record code fs) := (advances_record h code).shorter
  refine .ite (hrecord _ ?_) (.ite (hrecord _ ?_) (.ite (hrecord _ ?_) (.ite (hrecord _ ?_)
    (.ite (hrecord _ ?_) (.ite (hrecord _ ?_) (.ite (hrecord _ ?_) (.ite (hrecord _ ?_)
    (.ite (hrecord _ ?_) (.ite (hrecord _ ?_) (.ite (hrecord _ ?_) (.ite (hrecord _ ?_)
    forward_malformed)))))))))))
  all_goals simp [text, uint, bool, ubyte, ushort, binary, milliseconds, forward_scalar,
    forward_properties, forward_multiSymbol, forward_source, forward_target, forward_unsettled,
    herror, hstate]

theorem forward_frameBody : Forward k frameBody := by
  intro bs hbs
  refine Outcome.bind_iff.mpr (Outcome.get_iff.mpr ?_)
  split
  · next b c t _ =>
    have hbody : Forward k (if b ≠ 0 ∨ c ≠ smallUlong then malformed else bodyOf t) :=
      .ite forward_malformed (forward_bodyOf t)
    exact hbody _ hbs
  · exact forward_malformed _ hbs

end Layout

end GoAmqp
