import GoAmqp.Frames.RoundTrip
import GoAmqp.Link.Delivery

set_option autoImplicit false

/-! # `Conn.writeFrame` (`conn.go`) and the size of transfers

`writeFrame` refuses frames that are larger than the peer's max-frame-size, and the connection ends
when it does. `Sender.send` allows 66 bytes for everything in a transfer frame but the payload. The
widths of the fields of a first transfer say when that is enough. -/

namespace GoAmqp

open Lib Buffer Sender List EStateM

variable {fr : Frame} {t : PerformTransfer} {channel : Nat} {ts : List PerformTransfer} {s : Sender}
  {msg : Message} {enc : Bytes}

/-- `Conn.writeFrame` up to the call of `net.Write`: the bytes that are written to the network. The
    buffer is `txBuf`. -/
def writeFrame (peerMaxFrameSize : UInt32) (fr : Frame) : BufM Bytes := do
  modify reset
  fr.write
  let requiredFrameSize ← len
  if requiredFrameSize > peerMaxFrameSize.toNat then
    fail (s!"frames.Frame frame size {requiredFrameSize} larger than peer's max frame size {peerMaxFrameSize.toNat}")
  else bytes

/-- The frame in which the session sends a transfer. -/
def transferFrame (channel : UInt16) (tr : PerformTransfer) : Frame := ⟨0x0, channel, .transfer tr⟩

/-- The frame as it stands in `txBuf`. -/
def Frame.encode (fr : Frame) : Bytes := fr.encodeHeader ++ fr.body.encode

theorem Frame.length_encode (fr : Frame) : fr.encode.length = fr.body.encode.length + 8 := by
  rw [Frame.encode, length_append, fr.length_encodeHeader, Nat.add_comm]

theorem run_writeFrame_refused {peerMaxFrameSize : UInt32} {tx r : Buffer} {e : Fault}
    (hwrite : fr.write.run (.new []) = .error e r) : (writeFrame peerMaxFrameSize fr).run tx = .error e r := by
  show (fr.write >>= fun _ => _ : BufM Bytes).run (.new []) = _
  rw [run_bind, hwrite]

theorem run_writeFrame_written {peerMaxFrameSize : UInt32} {tx : Buffer}
    (hwrite : fr.write.run (.new []) = .ok () (.new fr.encode)) :
    (writeFrame peerMaxFrameSize fr).run tx =
      if fr.encode.length > peerMaxFrameSize.toNat then
        .error (.err s!"frames.Frame frame size {fr.encode.length} larger than peer's max frame size {peerMaxFrameSize.toNat}")
          (.new fr.encode)
      else .ok fr.encode (.new fr.encode) := by
  have hlen : len.run (.new fr.encode) = .ok fr.encode.length (.new fr.encode) := run_len_of_wf _
  have hbytes : Reads bytes [] fr.encode fr.encode := reads_bytes
  show (fr.write >>= fun _ => _ : BufM Bytes).run (.new []) = _
  rw [run_bind, hwrite]
  dsimp only
  rw [run_bind, hlen]
  dsimp only
  split
  · rfl
  · exact reads_run_new hbytes

/-- `writeFrame` accepts the frames that fit. A frame whose size is not a `uint32` is refused before
    the check, by `frames.Write`. -/
theorem writeFrame_ok_iff (hwrites : Writes fr.body.marshal fr.body.encode) (peerMaxFrameSize : UInt32) (tx : Buffer) :
    (∃ bs r, (writeFrame peerMaxFrameSize fr).run tx = .ok bs r ∧ bs.length ≤ peerMaxFrameSize.toNat) ↔
      fr.body.encode.length + 8 ≤ peerMaxFrameSize.toNat := by
  have hmax := peerMaxFrameSize.toNat_lt
  have hwrite := run_write hwrites
  by_cases hlarge : fr.body.encode.length + 8 > 4294967295
  · rw [if_pos hlarge] at hwrite
    simp only [run_writeFrame_refused hwrite, reduceCtorEq, false_and, exists_false, false_iff]
    omega
  · rw [if_neg hlarge] at hwrite
    rw [run_writeFrame_written hwrite, fr.length_encode]
    split
    · simp only [reduceCtorEq, false_and, exists_false, false_iff]
      omega
    · constructor
      · intro _
        omega
      · intro hle
        exact ⟨_, _, rfl, by rwa [fr.length_encode]⟩

/-! ## The width of a transfer -/

/-- The number of bytes a `uint` takes. -/
def uintWidth (n : UInt32) : Nat := if n = 0 then 1 else if n < 256 then 2 else 5

theorem length_encodeUint32 (n : UInt32) : (encodeUint32 n).length = uintWidth n := by
  unfold encodeUint32 uintWidth
  split
  · rfl
  · split
    · rfl
    · rfl

theorem uintWidth_le (n : UInt32) : uintWidth n ≤ 5 := by
  unfold uintWidth
  split
  · omega
  · split
    · omega
    · omega

/-- The optional fields that `Sender.send` never sets. -/
structure PerformTransfer.Plain (t : PerformTransfer) : Prop where
  receiverSettleMode : t.receiverSettleMode = none
  state : t.state = none
  resume : t.resume = false
  aborted : t.aborted = false
  batchable : t.batchable = false

/-- A transfer after the first one of a delivery, as `Sender.send` makes them. -/
structure PerformTransfer.Later (t : PerformTransfer) : Prop extends t.Plain where
  deliveryID : t.deliveryID = none
  deliveryTag : t.deliveryTag = none
  messageFormat : t.messageFormat = none

/-- `more` and `settled` are the last fields; one that is unset takes a byte if a later one is set. -/
def flagsWidth (settled more : Bool) : Nat := if more then 2 else if settled then 1 else 0

theorem length_encodeBinary {tag : Bytes} (h : tag.length < 256) : (encodeBinary tag).length = tag.length + 2 := by
  unfold encodeBinary encodeVariable
  rw [if_pos h]
  rfl

theorem PerformTransfer.length_encode_first (hplain : t.Plain) {id format : UInt32} {tag : Bytes}
    (hid : t.deliveryID = some id) (htag : t.deliveryTag = some tag)
    (hformat : t.messageFormat = some format) (hne : tag ≠ []) (hlt : tag.length < 256) :
    t.encode.length = 14 + uintWidth t.handle + uintWidth id + tag.length + uintWidth format
      + flagsWidth t.settled t.more + t.payload.length := by
  obtain ⟨hrsm, hstate, hresume, haborted, hbatchable⟩ := hplain
  have hempty : tag.isEmpty = false := by simpa using hne
  rw [PerformTransfer.encode, length_append, PerformTransfer.encodeComposite]
  simp only [hid, htag, hformat, hrsm, hstate, hresume, haborted, hbatchable, Option.map_some,
    Option.map_none, Option.getD_some, fieldUnless, hempty]
  cases t.more <;> cases t.settled <;>
    simp [GoAmqp.encodeComposite, trimFields, encodeList, encodeCompound, encodeField, flagsWidth,
      length_encodeUint32, length_encodeBinary hlt, encodeBool] <;> omega

theorem PerformTransfer.Later.length_encode_le (h : t.Later) : t.encode.length ≤ 22 + t.payload.length := by
  obtain ⟨⟨hrsm, hstate, hresume, haborted, hbatchable⟩, hid, htag, hformat⟩ := h
  have hwidth := uintWidth_le t.handle
  rw [PerformTransfer.encode, length_append, PerformTransfer.encodeComposite]
  simp only [hid, htag, hformat, hrsm, hstate, hresume, haborted, hbatchable,
    Option.map_none, Option.getD_none, fieldUnless]
  cases t.more <;> cases t.settled <;>
    simp [GoAmqp.encodeComposite, trimFields, encodeList, encodeCompound, encodeField,
      length_encodeUint32, encodeBool] <;> omega

theorem Cut.ne_nil {settled : Bool} {fr : PerformTransfer} {bs : Bytes} (h : Cut settled channel fr bs ts) :
    bs ≠ [] := by
  cases h with
  | last hne => exact hne
  | more hne _ => simp [hne]

theorem Cut.later {settled : Bool} {fr : PerformTransfer} {bs : Bytes} (h : Cut settled channel fr bs ts)
    (hfr : fr.Later) : ∀ t ∈ ts, t.Later := by
  induction h with
  | last =>
    intro t ht
    rw [mem_singleton.mp ht]
    exact { hfr with }
  | more _ _ ih =>
    intro t ht
    rcases mem_cons.mp ht with rfl | ht
    · exact { hfr with }
    · exact ih { hfr with deliveryID := rfl, deliveryTag := rfl, messageFormat := rfl } t ht

/-! ## The transfers of a message -/

/-- The transfers that `send` puts on the channel, whether it succeeds or not. -/
def Sender.produced (s : Sender) (msg : Message) (buf : Buffer) : List PerformTransfer :=
  match (send msg).run ({ s with transfers := [] }, buf) with
  | .ok _ st => st.1.transfers
  | .error _ st => st.1.transfers

/-- The width of the handle, the delivery-id, the delivery tag and the message format in the first
    transfer of a message. -/
def Sender.headerWidth (s : Sender) (msg : Message) : Nat :=
  uintWidth s.handle + uintWidth (s.nextDeliveryID + 1) + (msg.tagAt s.nextDeliveryTag).length
    + uintWidth msg.format

/-- The first transfer of a message encoded in `n` bytes fits into a frame. If the message is split the
    payload takes all but 66 bytes, of which 24 are for the frame header, the list header, the type
    and length of the tag, and the flags. If it is not split there are up to two flags less, and
    the payload may be shorter. -/
def Sender.Fits (s : Sender) (msg : Message) (n : Nat) : Prop :=
  if s.peerMaxFrameSize.toNat - 66 < n then s.headerWidth msg ≤ 42
  else s.headerWidth msg + (s.senderSettled msg).toNat + n + 22 ≤ s.peerMaxFrameSize.toNat

/-- `send` accepts an encoded message. -/
def Sender.Accepts (s : Sender) (enc : Bytes) : Prop :=
  enc ≠ [] ∧ (s.maxMessageSize = 0 ∨ enc.length ≤ s.maxMessageSize.toNat)

/-- A message that cannot be encoded is refused before anything is sent. -/
theorem run_send_unencodable (buf : Buffer) (htag : (msg.deliveryTag.getD []).length ≤ 32)
    (henc : msg.encoding = none) : ∃ e w, (send msg).run (s, buf) = .error e (s, w) := by
  unfold Message.encoding at henc
  cases hrun : msg.marshal.run (.new []) with
  | ok u w => simp [hrun] at henc
  | error e w =>
    have hmarshal : (onBuffer msg.marshal : IntoM Sender Unit).run (s, .new []) = .error e (s, w) :=
      run_onBuffer_error hrun
    refine ⟨e, w, ?_⟩
    unfold send
    rw [if_neg (by simpa [maxDeliveryTagLength] using htag), run_bind]
    show run (onBuffer msg.marshal >>= fun _ => _) (s, .new []) = _
    rw [run_bind, hmarshal]

theorem run_checkSize_tooLarge (hne : s.maxMessageSize ≠ 0) (hgt : enc.length > s.maxMessageSize.toNat) :
    ∃ e, checkSize.run (s, .new enc) = .error e (s, .new enc) := by
  refine ⟨.err s!"encoded message size exceeds max of {s.maxMessageSize.toNat}", ?_⟩
  show run (if s.maxMessageSize ≠ 0 ∧ enc.length > s.maxMessageSize.toNat then _ else _) _ = _
  rw [if_pos ⟨hne, hgt⟩]
  rfl

/-- The loop is not entered for a message without sections. -/
theorem run_sendEncoded_nil (msg : Message) (s : Sender) :
    (sendEncoded msg).run (s, .new []) = .ok none
      ({ s with
        nextDeliveryID := s.nextDeliveryID + 1
        nextDeliveryTag := msg.nextTag s.nextDeliveryTag }, .new []) := by
  rw [sendEncoded, run_bind, run_get]
  dsimp only
  rw [run_bind]
  show run (takeDeliveryTag msg >>= _)
    ({ s with nextDeliveryID := s.nextDeliveryID + 1 }, .new []) = _
  rw [run_bind, run_takeDeliveryTag]
  rfl

/-- A message that cannot be encoded, is empty or too large has no transfers. -/
theorem Sender.produced_eq_nil (buf : Buffer) (htag : (msg.deliveryTag.getD []).length ≤ 32)
    (h : ∀ enc, msg.encoding = some enc → ¬ s.Accepts enc) : s.produced msg buf = [] := by
  unfold produced
  cases henc : msg.encoding with
  | none =>
    obtain ⟨e, w, hsend⟩ := run_send_unencodable (s := { s with transfers := [] }) buf htag henc
    rw [hsend]
  | some enc =>
    rw [run_send_encoded buf htag henc, run_bind]
    by_cases hmax : s.maxMessageSize = 0 ∨ enc.length ≤ s.maxMessageSize.toNat
    · have hnil : enc = [] := by
        by_contra hne
        exact h enc henc ⟨hne, hmax⟩
      subst hnil
      rw [run_checkSize (s := { s with transfers := [] }) hmax]
      dsimp only
      rw [run_sendEncoded_nil]
    · simp only [not_or, Nat.not_le] at hmax
      obtain ⟨e, hcheck⟩ := run_checkSize_tooLarge (s := { s with transfers := [] }) hmax.1 hmax.2
      rw [hcheck]

theorem Sender.produced_eq_cut (buf : Buffer) (hframe : 66 < s.peerMaxFrameSize.toNat)
    (htag : (msg.deliveryTag.getD []).length ≤ 32) (henc : msg.encoding = some enc) (haccepts : s.Accepts enc) :
    Cut (s.senderSettled msg) s.channels (s.firstTransfer msg) enc (s.produced msg buf) ∧
      Chunked (s.peerMaxFrameSize.toNat - 66) (s.produced msg buf) := by
  obtain ⟨ts, r', hcut, hchunked, hrun⟩ := run_send (s := { s with transfers := [] }) buf hframe htag henc
    haccepts.1 haccepts.2
  have hproduced : s.produced msg buf = ts := by
    unfold produced
    rw [hrun]
    rfl
  rw [hproduced]
  exact ⟨hcut, hchunked⟩

theorem Message.tagAt_ne_nil (msg : Message) (counter : UInt64) : msg.tagAt counter ≠ [] := by
  unfold Message.tagAt Message.untagged
  split
  · intro h
    have := congrArg List.length h
    rw [length_be64] at this
    cases this
  · next h => simpa using h

theorem Message.length_tagAt_le (htag : (msg.deliveryTag.getD []).length ≤ 32) (counter : UInt64) :
    (msg.tagAt counter).length ≤ 32 := by
  unfold Message.tagAt
  split
  · rw [length_be64]
    omega
  · exact htag

/-- The conn writes a transfer on every channel. -/
def Sender.Writable (s : Sender) (t : PerformTransfer) : Prop :=
  ∀ (channel : UInt16) (tx : Buffer), ∃ bs r,
    (writeFrame s.peerMaxFrameSize (transferFrame channel t)).run tx = .ok bs r ∧ bs.length ≤ s.peerMaxFrameSize.toNat

theorem Sender.writable_iff (hplain : t.Plain) (hlt : t.encodeComposite.length < 2 ^ 32) :
    s.Writable t ↔ t.encode.length + 8 ≤ s.peerMaxFrameSize.toNat := by
  have hcodable : (FrameBody.transfer t).codable = true := by
    show t.state.all codableState = true
    rw [hplain.state]
    rfl
  have hok (channel : UInt16) (tx : Buffer) :
      (∃ bs r, (writeFrame s.peerMaxFrameSize (transferFrame channel t)).run tx = .ok bs r ∧
        bs.length ≤ s.peerMaxFrameSize.toNat) ↔ t.encode.length + 8 ≤ s.peerMaxFrameSize.toNat := by
    have hwrites : Writes (transferFrame channel t).body.marshal (transferFrame channel t).body.encode :=
      writes_body hcodable hlt
    exact writeFrame_ok_iff hwrites s.peerMaxFrameSize tx
  constructor
  · intro h
    exact (hok 0 (.new [])).mp (h 0 (.new []))
  · intro h channel tx
    exact (hok channel tx).mpr h

theorem Sender.writable_later (ht : t.Later) (hpayload : t.payload.length + 30 ≤ s.peerMaxFrameSize.toNat) :
    s.Writable t := by
  have hle := ht.length_encode_le
  have hlen : t.encode.length = t.encodeComposite.length + t.payload.length := length_append
  rw [writable_iff ht.toPlain (by omega)]
  omega

theorem flagsWidth_le (settled more : Bool) : flagsWidth settled more ≤ 2 := by
  cases more <;> cases settled <;> simp [flagsWidth]

/-- What the first transfer takes. -/
theorem Sender.writable_first_iff (htag : (msg.deliveryTag.getD []).length ≤ 32) (payload : Bytes)
    (settled more : Bool) (done : Option Nat) :
    s.Writable { s.firstTransfer msg with payload := payload, more := more, settled := settled, done := done } ↔
      s.headerWidth msg + flagsWidth settled more + payload.length + 22 ≤ s.peerMaxFrameSize.toNat := by
  have hle := msg.length_tagAt_le htag s.nextDeliveryTag
  generalize ht : ({ s.firstTransfer msg with
    payload := payload, more := more, settled := settled, done := done } : PerformTransfer) = t
  have hplain : t.Plain := by
    subst ht
    exact ⟨rfl, rfl, rfl, rfl, rfl⟩
  have hencode : t.encode.length
      = 14 + s.headerWidth msg + flagsWidth settled more + payload.length := by
    subst ht
    rw [PerformTransfer.length_encode_first hplain rfl rfl rfl (msg.tagAt_ne_nil _) (by omega)]
    simp only [headerWidth, firstTransfer]
    omega
  have hlen : t.encode.length = t.encodeComposite.length + payload.length := by
    subst ht
    exact length_append
  have hflags := flagsWidth_le settled more
  have hwidth : s.headerWidth msg ≤ 47 := by
    have := uintWidth_le s.handle
    have := uintWidth_le (s.nextDeliveryID + 1)
    have := uintWidth_le msg.format
    unfold headerWidth
    omega
  rw [writable_iff hplain (by omega), hencode]
  omega

/-- A cut of a message is written if its first transfer fits: the later ones are shorter. -/
theorem Sender.cut_writable_iff (hframe : 66 < s.peerMaxFrameSize.toNat)
    (htag : (msg.deliveryTag.getD []).length ≤ 32)
    (hcut : Cut (s.senderSettled msg) channel (s.firstTransfer msg) enc ts)
    (hchunked : Chunked (s.peerMaxFrameSize.toNat - 66) ts) : (∀ t ∈ ts, s.Writable t) ↔ s.Fits msg enc.length := by
  cases hcut with
  | last =>
    have hle := (hchunked _ (mem_singleton_self _)).1
    rw [forall_mem_singleton, writable_first_iff htag, Sender.Fits, if_neg (Nat.not_lt.mpr hle)]
    simp only [flagsWidth, Bool.false_eq_true, if_false]
    cases s.senderSettled msg <;> exact Iff.rfl
  | more _ hrest =>
    have hk := (hchunked _ (mem_cons_self ..)).2 rfl
    have hlater := hrest.later ⟨⟨rfl, rfl, rfl, rfl, rfl⟩, rfl, rfl, rfl⟩
    have hpos := length_pos_iff.mpr hrest.ne_nil
    dsimp only at hk
    rw [forall_mem_cons, writable_first_iff htag, Sender.Fits, length_append, if_pos (by omega)]
    simp only [flagsWidth, if_true]
    constructor
    · rintro ⟨hfirst, -⟩
      omega
    · intro hfits
      refine ⟨by omega, fun t ht => writable_later (hlater t ht) ?_⟩
      have hpayload := (hchunked t (mem_cons_of_mem _ ht)).1
      omega

/-- **Transfers fit into frames.** The transfers of a message can all be written if and only if the
    first one fits: the widths of its handle, id, tag and format add up to at most 42 bytes if the
    message is split, and to what the payload leaves if it is not. -/
theorem produced_writable_iff (s : Sender) (msg : Message) (buf : Buffer)
    (hframe : 66 < s.peerMaxFrameSize.toNat) (htag : (msg.deliveryTag.getD []).length ≤ 32) :
    (∀ t ∈ s.produced msg buf, s.Writable t) ↔
      ∀ enc, msg.encoding = some enc → s.Accepts enc → s.Fits msg enc.length := by
  by_cases h : ∃ enc, msg.encoding = some enc ∧ s.Accepts enc
  · obtain ⟨enc, henc, haccepts⟩ := h
    obtain ⟨hcut, hchunked⟩ := s.produced_eq_cut buf hframe htag henc haccepts
    rw [cut_writable_iff hframe htag hcut hchunked]
    constructor
    · intro hfits enc' henc' _
      cases henc.symm.trans henc'
      exact hfits
    · intro hall
      exact hall enc henc haccepts
  · have hnone : ∀ enc, msg.encoding = some enc → ¬ s.Accepts enc := by
      intro enc henc haccepts
      exact h ⟨enc, henc, haccepts⟩
    rw [produced_eq_nil buf htag hnone]
    constructor
    · intro _ enc henc haccepts
      exact absurd haccepts (hnone enc henc)
    · simp

/-- A sender whose handle and next delivery-id need five bytes each. -/
def wideSender : Sender where
  handle := 256
  maxMessageSize := 0
  senderSettleMode := none
  peerMaxFrameSize := 512
  nextDeliveryTag := 0
  nextDeliveryID := 255
  channels := 0
  transfers := []

/-- A message of 508 bytes with the longest delivery tag. -/
def taggedMessage : Message :=
  { Message.zero with deliveryTag := some (replicate 32 0x61), data := [replicate 500 0x78] }

/-- With a handle and a delivery-id of two bytes the message is split and its transfers are written. -/
theorem produced_writable_split :
    (produced { wideSender with handle := 255, nextDeliveryID := 254 } taggedMessage (.new [])).length = 2 ∧
    ∀ t ∈ produced { wideSender with handle := 255, nextDeliveryID := 254 } taggedMessage (.new []),
      Writable { wideSender with handle := 255, nextDeliveryID := 254 } t := by
  refine ⟨by decide +kernel, (produced_writable_iff _ _ _ (by decide) (by decide)).mpr ?_⟩
  intro enc henc _
  have hlen : taggedMessage.encoding.map List.length = some 508 := by decide +kernel
  rw [henc] at hlen
  rw [Option.some.inj hlen, Sender.Fits, if_pos (by decide)]
  decide

/-- The error `writeFrame` returns for a frame. -/
def writeFrameError (peerMaxFrameSize : UInt32) (fr : Frame) : Option String :=
  match (writeFrame peerMaxFrameSize fr).run (.new []) with
  | .error (.err msg) _ => some msg
  | _ => none

/-- With a handle and a delivery-id of five bytes the first transfer is a byte too long. -/
theorem transfer_not_writable :
    ∃ t ∈ wideSender.produced taggedMessage (.new []),
      writeFrameError wideSender.peerMaxFrameSize (transferFrame 0 t)
        = some "frames.Frame frame size 513 larger than peer's max frame size 512" := by
  decide +kernel

end GoAmqp
