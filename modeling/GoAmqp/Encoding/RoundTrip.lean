import GoAmqp.Encoding.EncodeSpec
import GoAmqp.Encoding.DecodeSpec.Values

set_option autoImplicit false

/-! # Round trip of the value codec

The encoder writes the wire format (`writes_marshal`) and the decoder reads it back
(`reads_readAny`); here the two are put together on whole buffers. -/

namespace GoAmqp

open Lib Buffer

/-- A writer on the empty buffer leaves exactly what it writes. -/
theorem Writes.run_new {m : BufM Unit} {bs : Bytes} (h : Writes m bs) :
    m.run (.new []) = .ok () (.new bs) := h (.new []) (Nat.le_refl 0)

/-- A reader on a new buffer over its input and a suffix. -/
theorem reads_run_new {α : Type} {m : BufM α} {bs rest : Bytes} {a : α} (h : Reads m bs rest a) :
    m.run (.new (bs ++ rest)) = .ok a ⟨bs ++ rest, bs.length⟩ := by
  rw [h (.new (bs ++ rest)) (Nat.zero_le _) rfl]
  simp [Cursor.advance, advance, Buffer.new]

/-- **Codec round trip.** `Marshal` succeeds on a codable value with an encoding shorter than 2^32
    bytes, and `ReadAny` on what it wrote, followed by any bytes, returns the normal form of the
    value and leaves exactly those bytes unread. -/
theorem readAny_marshal (v : Value) (hv : v.codable = true) (hlen : (encode v).length < 2 ^ 32) :
    (marshal v).run (.new []) = .ok () (.new (encode v)) ∧
      ∀ rest : Bytes, ∃ r : Buffer,
        readAny.run (.new (encode v ++ rest)) = .ok v.norm r ∧ r.unread = rest := by
  refine ⟨(writes_marshal v hv hlen).run_new, fun rest => ?_⟩
  refine ⟨_, reads_run_new (reads_readAny v hv hlen rest), ?_⟩
  exact List.drop_left

/-- A described list with a map inside, as an instance. -/
theorem readAny_marshal_nested :
    (marshal (.described (.symbol [0x78]) (.list [.nil, .mapSymbol [([0x6b], .uint32 300)],
        .time ⟨-1000000⟩]))).run (.new [])
      = .ok () (.new (encode (.described (.symbol [0x78]) (.list [.nil,
          .mapSymbol [([0x6b], .uint32 300)], .time ⟨-1000000⟩])))) ∧
      ∀ rest : Bytes, ∃ r : Buffer,
        readAny.run (.new (encode (.described (.symbol [0x78]) (.list [.nil,
          .mapSymbol [([0x6b], .uint32 300)], .time ⟨-1000000⟩])) ++ rest))
          = .ok (.described (.string [0x78]) (.list [.nil, .mapString [([0x6b], .uint32 300)],
              .time ⟨-1000000⟩])) r ∧ r.unread = rest :=
  readAny_marshal _ (by decide) (by decide)

end GoAmqp
