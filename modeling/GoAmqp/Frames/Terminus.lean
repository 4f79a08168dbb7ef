import GoAmqp.Frames.Grammar
import GoAmqp.Frames.RoundTrip

set_option autoImplicit false

/-! # Source and target read back

A terminus that is written reads back as its normal form. Whether it is written depends on how its fields
are handed to `Marshal`: the default outcome of a source is passed as a pointer to an interface, which no
case of the type switch matches, so that it is written only if it is nil. -/

namespace GoAmqp

open Lib Buffer TypeCode

/-- Written into an empty buffer and read into `zero`, the record is `a`. -/
def RoundTrips {σ : Type} (write : BufM Unit) (m : IntoM σ Unit) (zero a : σ) : Prop :=
  ∃ (bs : Bytes) (r : Buffer), write.run (.new []) = .ok () (.new bs) ∧ m.run (zero, .new bs) = .ok () (a, r)

theorem Transmits.roundTrips {σ : Type} {write : BufM Unit} {m : IntoM σ Unit} {zero a : σ} {bs : Bytes}
    (h : Transmits write m zero bs a) (hlt : bs.length < 2 ^ 32) : RoundTrips write m zero a := by
  obtain ⟨put, rfl, hfills⟩ := h.fills
  have hrun := hfills hlt [] zero (.new bs) (Nat.zero_le _) (List.append_nil bs).symm
  exact ⟨bs, _, (h.writes hlt) (.new []) (Nat.le_refl 0), hrun⟩

theorem Refuses.not_roundTrips {σ : Type} {write : BufM Unit} (h : Refuses write) {m : IntoM σ Unit}
    {zero a : σ} : ¬ RoundTrips write m zero a := by
  rintro ⟨bs, r, hwrite, -⟩
  obtain ⟨e, w, herr⟩ := h (.new []) (Nat.le_refl 0)
  rw [hwrite] at herr
  cases herr

theorem refuses_writeString {s : Bytes} (h : validUtf8 s = false) : Refuses (writeString s) := by
  unfold writeString
  rw [if_pos (by simp [h])]
  exact refuses_fail _

/-- An address that is not valid UTF-8 is not empty, so that it is not left out. -/
theorem isEmpty_of_not_validUtf8 {s : Bytes} (h : validUtf8 s = false) : s.isEmpty = false := by
  cases s with
  | nil => cases h
  | cons _ _ => rfl

/-- A source whose expiry policy is empty or valid, whose properties and filters have distinct keys and hold
    codable values only, without an empty symbol in its outcomes and capabilities, and short enough for its
    size to be written. Address and default outcome are left open. -/
structure Source.Carriable (s : Source) : Prop where
  expiryPolicy : codableExpiryPolicy s.expiryPolicy = true
  dynamicNodeProperties : codableSymbolMap s.dynamicNodeProperties = true
  filter : codableFilter s.filter = true
  outcomes : codableSymbols s.outcomes = true
  capabilities : codableSymbols s.capabilities = true
  fits : s.encode.length < 2 ^ 32

/-- The same for a target. -/
structure Target.Carriable (t : Target) : Prop where
  expiryPolicy : codableExpiryPolicy t.expiryPolicy = true
  dynamicNodeProperties : codableSymbolMap t.dynamicNodeProperties = true
  capabilities : codableSymbols t.capabilities = true
  fits : t.encode.length < 2 ^ 32

theorem Source.Carriable.codable {s : Source} (h : s.Carriable) (hnil : s.defaultOutcome.isNil = true)
    (haddress : validUtf8 s.address = true) : s.codable = true := by
  simp [Source.codable, haddress, hnil, h.expiryPolicy, h.dynamicNodeProperties, h.filter, h.outcomes, h.capabilities]

theorem Target.Carriable.codable {t : Target} (h : t.Carriable) (haddress : validUtf8 t.address = true) :
    t.codable = true := by
  simp [Target.codable, haddress, h.expiryPolicy, h.dynamicNodeProperties, h.capabilities]

theorem refuses_source_defaultOutcome {s : Source} (h : s.defaultOutcome.isNil = false) : Refuses s.marshal :=
  refuses_marshalComposite_of_field (by simp)
    (f := ⟨fail "marshal not implemented for *interface \x7b\x7d", s.defaultOutcome.isNil⟩) (by simp) h
    (refuses_fail _)

theorem refuses_source_address {s : Source} (h : validUtf8 s.address = false) : Refuses s.marshal :=
  refuses_marshalComposite_of_field (by simp) (f := ⟨writeString s.address, s.address.isEmpty⟩) (by simp)
    (isEmpty_of_not_validUtf8 h) (refuses_writeString h)

theorem refuses_target_address {t : Target} (h : validUtf8 t.address = false) : Refuses t.marshal :=
  refuses_marshalComposite_of_field (by simp) (f := ⟨writeString t.address, t.address.isEmpty⟩) (by simp)
    (isEmpty_of_not_validUtf8 h) (refuses_writeString h)

/-- **Termini read back exactly without a default outcome.** A source reads back, up to its normal form, if
    and only if its default outcome is nil and its address is valid UTF-8; a target if and only if its
    address is valid UTF-8. -/
theorem termini_roundTrip_iff (s : Source) (t : Target) (hs : s.Carriable) (ht : t.Carriable) :
    (RoundTrips s.marshal Source.unmarshal .zero s.norm ↔
      s.defaultOutcome.isNil = true ∧ validUtf8 s.address = true) ∧
    (RoundTrips t.marshal Target.unmarshal .zero t.norm ↔ validUtf8 t.address = true) := by
  refine ⟨⟨fun h => ⟨?_, ?_⟩, ?_⟩, ⟨fun h => ?_, ?_⟩⟩
  · by_contra hnil
    exact (refuses_source_defaultOutcome (by simpa using hnil)).not_roundTrips h
  · by_contra haddress
    exact (refuses_source_address (by simpa using haddress)).not_roundTrips h
  · rintro ⟨hnil, haddress⟩
    exact (transmits_source (hs.codable hnil haddress)).roundTrips hs.fits
  · by_contra haddress
    exact (refuses_target_address (by simpa using haddress)).not_roundTrips h
  · intro haddress
    exact (transmits_target (ht.codable haddress)).roundTrips ht.fits

/-- A source of the node `q` with properties of the node, a filter, outcomes and capabilities. -/
def queueSource : Source := { Source.zero with
  address := ascii "q", timeout := 30
  dynamicNodeProperties := [(ascii "lifetime-policy", .lifetimePolicy deleteOnClose)]
  filter := [(ascii "selector", some (.uint64 0x46, .string (ascii "n = 1")))]
  outcomes := [ascii "accepted", ascii "rejected"], capabilities := [ascii "queue"] }

/-- A target at the same node. -/
def queueTarget : Target := { Target.zero with
  address := ascii "q", expiryPolicy := .never
  dynamicNodeProperties := queueSource.dynamicNodeProperties, capabilities := [ascii "queue"] }

theorem termini_roundTrip_iff_queue :
    RoundTrips queueSource.marshal Source.unmarshal .zero queueSource.norm ∧
    RoundTrips queueTarget.marshal Target.unmarshal .zero queueTarget.norm := by
  obtain ⟨hsource, htarget⟩ := termini_roundTrip_iff queueSource queueTarget
    ⟨by decide, by decide, by decide, by decide, by decide, by decide⟩ ⟨by decide, by decide, by decide, by decide⟩
  exact ⟨hsource.mpr ⟨rfl, by decide⟩, htarget.mpr (by decide)⟩

/-- A source that says what becomes of unsettled deliveries is not written at all. -/
theorem source_defaultOutcome_refused :
    Source.Carriable { Source.zero with defaultOutcome := .state .released } ∧
    ∃ r, (Source.marshal { Source.zero with defaultOutcome := .state .released }).run (.new []) =
      .error (.err "marshal not implemented for *interface \x7b\x7d") r :=
  ⟨⟨rfl, rfl, rfl, rfl, rfl, by decide⟩, _, rfl⟩

end GoAmqp
