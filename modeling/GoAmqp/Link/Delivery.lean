import GoAmqp.Link.Send
import GoAmqp.Link.Receive
import GoAmqp.Encoding.EncodeCursor
import GoAmqp.Message.Grammar

set_option autoImplicit false

/-! # Messages survive fragmentation

What `Sender.send` puts on the wire and what `Receiver.muxReceive` makes of it. The two loops meet at
`Cut`, the description of a message cut into transfers: the sender only produces cuts, and the
receiver puts every cut together again. -/

namespace GoAmqp

open Lib Buffer Sender List EStateM

variable {m msg : Message} {acc bs enc : Bytes} {sections : Sections} {channel k : Nat}
  {ts : List PerformTransfer} {more settled : Bool} {fr : PerformTransfer} {s : Sender} {r : Receiver}
  {id : UInt32} {tss : List (List PerformTransfer)} {tag : UInt64}

/-! ## Encoding a message -/

/-- The encoding of a message, if `Marshal` accepts it. -/
def Message.encoding (msg : Message) : Option Bytes :=
  match msg.marshal.run (.new []) with
  | .ok _ w => some w.unread
  | .error _ _ => none

/-- What `Unmarshal` makes of a byte string, if it accepts it. -/
def decodeSections (bs : Bytes) : Option Sections :=
  match Sections.unmarshal.run (.zero, .new bs) with
  | .ok _ s => some s.1
  | .error _ _ => none

theorem run_marshal_of_encoding (h : msg.encoding = some enc) : msg.marshal.run (.new []) = .ok () (.new enc) := by
  have hkeeps := (emits_message msg.toSections False.elim).keepsCursor (.new []) (Nat.le_refl 0)
  unfold Message.encoding at h
  cases hrun : msg.marshal.run (.new []) with
  | error e w => rw [hrun] at h; exact absurd h (by simp)
  | ok u w =>
    obtain ⟨hi, -⟩ := hkeeps.ok hrun
    rw [hrun] at h
    have hw : w = .new w.b := by
      cases w
      exact congrArg _ hi
    have hunread : w.unread = w.b := by
      rw [hw]
      rfl
    rw [hw, ← Option.some.inj h, hunread]

theorem run_unmarshal_of_decode (h : decodeSections bs = some sections) :
    ∃ r, Sections.unmarshal.run (.zero, .new bs) = .ok () (sections, r) := by
  unfold decodeSections at h
  cases hrun : Sections.unmarshal.run (.zero, .new bs) with
  | error e s => rw [hrun] at h; exact absurd h (by simp)
  | ok u s =>
    rw [hrun] at h
    exact ⟨s.2, by rw [← Option.some.inj h]⟩

/-! ## The sender produces cuts -/

/-- A later transfer of the message that `fr` belongs to. -/
def PerformTransfer.continuation (fr : PerformTransfer) : PerformTransfer :=
  { fr with deliveryID := none, deliveryTag := none, messageFormat := none }

/-- `Cut settled channel fr bs ts`: the transfers `ts` carry `bs` in payloads that are not empty. The
    first is `fr` with its payload, the others are its continuations, and the last one alone has
    `more` unset, the settled flag and the `Done` channel. -/
inductive Cut (settled : Bool) (channel : Nat) :
    PerformTransfer → Bytes → List PerformTransfer → Prop where
  | last {fr : PerformTransfer} {bs : Bytes} : bs ≠ [] →
      Cut settled channel fr bs
        [{ fr with payload := bs, more := false, settled := settled, done := some channel }]
  | more {fr : PerformTransfer} {p bs : Bytes} {ts : List PerformTransfer} : p ≠ [] →
      Cut settled channel ({ fr with payload := p, more := true } : PerformTransfer).continuation bs
        ts →
      Cut settled channel fr (p ++ bs) ({ fr with payload := p, more := true } :: ts)

/-- Payloads of `k` bytes, but for the last one, which may be shorter. -/
def Chunked (k : Nat) (ts : List PerformTransfer) : Prop :=
  ∀ t ∈ ts, t.payload.length ≤ k ∧ (t.more = true → t.payload.length = k)

theorem Chunked.cons {t : PerformTransfer} (ht : t.payload.length = k) (hts : Chunked k ts) : Chunked k (t :: ts) :=
  forall_mem_cons.mpr ⟨⟨Nat.le_of_eq ht, fun _ => ht⟩, hts⟩

theorem Chunked.single {t : PerformTransfer} (hmore : t.more = false) (ht : t.payload.length ≤ k) :
    Chunked k [t] := by
  intro t' ht'
  rw [mem_singleton.mp ht']
  exact ⟨ht, fun h => absurd h (by simp [hmore])⟩

/-- `Next` returns what is there, up to `n` bytes. -/
theorem run_nextSigned {r : Buffer} (hw : r.WF) (n : Nat) :
    (nextSigned n).run r
      = .ok (r.unread.take n) (r.advance (min n r.unread.length)) := by
  have hi : r.i ≤ r.b.length := hw
  have hlen := r.length_unread
  show (Prod.fst <$> next n : BufM Bytes).run r = _
  rw [map_eq_pure_bind, Buffer.next]
  by_cases hshort : r.readCheck n = true
  · have hlt : r.i + n > r.b.length := by simpa [readCheck] using hshort
    have hmin : min n r.unread.length = r.b.length - r.i := by omega
    have hslice : (slice r.b r.i r.b.length : BufM Bytes) = pure r.unread := by
      rw [slice_of_le hi (Nat.le_refl _), take_length]
      rfl
    simp only [run_bind, run_get, hshort, if_true, hslice, run_pure, run_set]
    rw [hmin, take_of_length_le (by omega)]
    simp only [advance]
    rw [show r.i + (r.b.length - r.i) = r.b.length by omega]
  · have hle : r.i + n ≤ r.b.length := by simpa [readCheck] using hshort
    have hslice : (slice r.b r.i (r.i + n) : BufM Bytes) = pure (r.unread.take n) := by
      rw [slice_of_le (Nat.le_add_right _ _) hle, drop_take, Nat.add_sub_cancel_left]
      rfl
    simp only [run_bind, run_get, hshort, if_false, hslice, run_pure, run_set, Bool.false_eq_true]
    rw [Nat.min_eq_left (by omega)]
    rfl

theorem run_len_of_wf (r : Buffer) : len.run r = .ok r.unread.length r := by
  rw [run_len, length_unread]

/-- One round of the loop: it takes up to `k` bytes out of the buffer and sends them. -/
theorem run_sendLoop_succ {bound : Nat} (hmore : fr.more = true) {r : Buffer} (hw : r.WF) :
    (sendLoop k settled (bound + 1) fr).run (s, r) =
      if k < r.unread.length then
        (sendLoop k settled bound
          ({ fr with payload := r.unread.take k, more := true } : PerformTransfer).continuation).run
          ({ s with transfers := s.transfers ++ [{ fr with payload := r.unread.take k, more := true }] }, r.advance k)
      else
        (sendLoop k settled bound ({ fr with
          payload := r.unread, more := false, settled := settled,
          done := some s.channels } : PerformTransfer).continuation).run
          ({ s with
            channels := s.channels + 1
            transfers := s.transfers ++ [{ fr with
              payload := r.unread, more := false, settled := settled, done := some s.channels }] },
            r.advance r.unread.length) := by
  have hleft : (r.advance (min k r.unread.length)).unread.length = r.unread.length - k := by
    rw [unread_advance, length_drop]
    omega
  have hnext : (onBuffer (nextSigned k) : IntoM Sender Bytes).run (s, r) = _ := run_onBuffer (run_nextSigned hw k)
  have hlen : ∀ s : Sender, (onBuffer len : IntoM Sender Nat).run
      (s, r.advance (min k r.unread.length)) = _ := fun s => run_onBuffer (run_len_of_wf _)
  rw [sendLoop, if_pos hmore, run_bind, hnext]
  dsimp only
  rw [run_bind, hlen, hleft]
  by_cases hlong : k < r.unread.length
  · rw [if_pos hlong, Nat.min_eq_left (Nat.le_of_lt hlong)]
    have hdec : decide (r.unread.length - k > 0) = true := by
      simp only [decide_eq_true_eq]
      omega
    dsimp only
    rw [hdec]
    rfl
  · have hdec : decide (r.unread.length - k > 0) = false := by
      simp only [decide_eq_false_iff_not]
      omega
    rw [if_neg hlong, Nat.min_eq_right (by omega), take_of_length_le (by omega)]
    dsimp only
    rw [hdec]
    rfl

/-- **The loop of `send`.** With payloads of at least one byte it ends, having sent a cut of the
    encoded message into chunks. -/
theorem run_sendLoop (hk : 0 < k) (settled : Bool) (bound : Nat) (fr : PerformTransfer) (hmore : fr.more = true)
    (s : Sender) (r : Buffer) (hw : r.WF) (hne : r.unread ≠ []) (hbound : r.unread.length + 1 ≤ bound) :
    ∃ ts r', Cut settled s.channels fr r.unread ts ∧ Chunked k ts ∧
      (sendLoop k settled bound fr).run (s, r) = .ok (some s.channels)
        ({ s with channels := s.channels + 1, transfers := s.transfers ++ ts }, r') := by
  induction bound generalizing fr s r with
  | zero => omega
  | succ bound ih =>
    have hpos := length_pos_iff.mpr hne
    rw [run_sendLoop_succ hmore hw]
    split
    · next hlong =>
      have htake : r.unread.take k ≠ [] := by
        intro h
        have := congrArg List.length h
        rw [length_take, length_nil] at this
        omega
      have hrest : (r.advance k).unread = r.unread.drop k := unread_advance r k
      have hrestne : (r.advance k).unread ≠ [] := by
        intro h
        have := congrArg List.length h
        rw [hrest, length_drop, length_nil] at this
        omega
      obtain ⟨ts, r', hcut, hchunked, hrun⟩ := ih
        ({ fr with payload := r.unread.take k, more := true } : PerformTransfer).continuation rfl
        { s with transfers := s.transfers ++ [{ fr with payload := r.unread.take k, more := true }] }
        (r.advance k) (hw.advance (Nat.le_of_lt hlong)) hrestne (by
          rw [hrest, length_drop]
          omega)
      refine ⟨{ fr with payload := r.unread.take k, more := true } :: ts, r', ?_,
        hchunked.cons (length_take_of_le (Nat.le_of_lt hlong)), ?_⟩
      · have hcut' := Cut.more htake hcut
        rwa [hrest, take_append_drop] at hcut'
      · rw [hrun]
        simp only [append_assoc, singleton_append]
    · next hshort =>
      -- the loop condition fails in the round after the last transfer
      obtain ⟨bound, rfl⟩ := Nat.exists_eq_succ_of_ne_zero (show bound ≠ 0 by omega)
      exact ⟨_, _, .last hne, .single rfl (Nat.le_of_not_lt hshort), rfl⟩

/-- Whether the message leaves the choice of its delivery tag to the sender. -/
def Message.untagged (msg : Message) : Bool := (msg.deliveryTag.getD []).isEmpty

/-- The delivery tag a message is sent with, when the tag counter is at `counter`. -/
def Message.tagAt (msg : Message) (counter : UInt64) : Bytes :=
  if msg.untagged then be64 counter else msg.deliveryTag.getD []

/-- The tag counter after the message. -/
def Message.nextTag (msg : Message) (counter : UInt64) : UInt64 :=
  if msg.untagged then counter + 1 else counter

/-- The first transfer of a message, without its payload. -/
def Sender.firstTransfer (s : Sender) (msg : Message) : PerformTransfer := { PerformTransfer.zero with
  handle := s.handle
  deliveryID := some (s.nextDeliveryID + 1)
  deliveryTag := some (msg.tagAt s.nextDeliveryTag)
  messageFormat := some msg.format
  more := true }

/-- The sender after the transfers `ts` of a message. -/
def Sender.sent (s : Sender) (msg : Message) (ts : List PerformTransfer) : Sender := { s with
  nextDeliveryID := s.nextDeliveryID + 1
  nextDeliveryTag := msg.nextTag s.nextDeliveryTag
  channels := s.channels + 1
  transfers := s.transfers ++ ts }

theorem run_takeDeliveryTag (msg : Message) (s : Sender) (r : Buffer) :
    (takeDeliveryTag msg).run (s, r)
      = .ok (msg.tagAt s.nextDeliveryTag)
          ({ s with nextDeliveryTag := msg.nextTag s.nextDeliveryTag }, r) := by
  unfold takeDeliveryTag Message.tagAt Message.nextTag Message.untagged
  split
  · rfl
  · rfl

theorem run_checkSize (hmax : s.maxMessageSize = 0 ∨ enc.length ≤ s.maxMessageSize.toNat) :
    checkSize.run (s, .new enc) = .ok () (s, .new enc) := by
  have hfits : ¬ (s.maxMessageSize ≠ 0 ∧ enc.length > s.maxMessageSize.toNat) := by
    rintro ⟨hne, hgt⟩
    rcases hmax with h | h
    · exact hne h
    · omega
  show run (if s.maxMessageSize ≠ 0 ∧ enc.length > s.maxMessageSize.toNat then _ else _) _ = _
  rw [if_neg hfits]
  rfl

/-- The transfer loop as `send` enters it, with the encoded message in the buffer. -/
theorem run_sendEncoded (msg : Message) (s : Sender) (hne : enc ≠ []) :
    (sendEncoded msg).run (s, .new enc) =
      (sendLoop s.maxPayloadSize (s.senderSettled msg) (enc.length + 2)
        (s.firstTransfer msg)).run
        ({ s with
          nextDeliveryID := s.nextDeliveryID + 1
          nextDeliveryTag := msg.nextTag s.nextDeliveryTag }, .new enc) := by
  have hlen : decide (enc.length > 0) = true := decide_eq_true (length_pos_iff.mpr hne)
  rw [sendEncoded, run_bind, run_get]
  dsimp only
  rw [run_bind]
  show run (takeDeliveryTag msg >>= _)
    ({ s with nextDeliveryID := s.nextDeliveryID + 1 }, .new enc) = _
  rw [run_bind, run_takeDeliveryTag]
  dsimp only
  rw [run_bind, run_onBuffer (run_len_of_wf _)]
  show run (sendLoop s.maxPayloadSize (s.senderSettled msg) (enc.length + 2)
    { PerformTransfer.zero with
      handle := s.handle
      deliveryID := some (s.nextDeliveryID + 1)
      deliveryTag := some (msg.tagAt s.nextDeliveryTag)
      messageFormat := some msg.format
      more := decide (enc.length > 0) }) _ = _
  rw [hlen]
  rfl

/-- `send` up to the size check. -/
theorem run_send_encoded (buf : Buffer) (htag : (msg.deliveryTag.getD []).length ≤ 32)
    (henc : msg.encoding = some enc) :
    (send msg).run (s, buf)
      = (checkSize >>= fun _ => sendEncoded msg).run (s, .new enc) := by
  have hmarshal : (onBuffer msg.marshal : IntoM Sender Unit).run (s, .new []) = _ :=
    run_onBuffer (run_marshal_of_encoding henc)
  unfold send
  rw [if_neg (by simpa [maxDeliveryTagLength] using htag), run_bind]
  show run (onBuffer msg.marshal >>= fun _ => checkSize >>= fun _ => sendEncoded msg) (s, .new []) = _
  rw [run_bind, hmarshal]

/-- **The sender.** A message with an acceptable tag and encoding is sent as a cut of its encoding. -/
theorem run_send (buf : Buffer) (hframe : 66 < s.peerMaxFrameSize.toNat)
    (htag : (msg.deliveryTag.getD []).length ≤ 32) (henc : msg.encoding = some enc) (hne : enc ≠ [])
    (hmax : s.maxMessageSize = 0 ∨ enc.length ≤ s.maxMessageSize.toNat) :
    ∃ ts r', Cut (s.senderSettled msg) s.channels (s.firstTransfer msg) enc ts ∧
      Chunked (s.peerMaxFrameSize.toNat - 66) ts ∧
      (send msg).run (s, buf) = .ok (some s.channels) (s.sent msg ts, r') := by
  have hpayload : s.maxPayloadSize = ((s.peerMaxFrameSize.toNat - 66 : Nat) : Int) := by
    unfold maxPayloadSize maxTransferFrameHeader
    omega
  obtain ⟨ts, r', hcut, hchunked, hrun⟩ := run_sendLoop (k := s.peerMaxFrameSize.toNat - 66) (by omega)
    (s.senderSettled msg) (enc.length + 2) (s.firstTransfer msg) rfl
    { s with
      nextDeliveryID := s.nextDeliveryID + 1
      nextDeliveryTag := msg.nextTag s.nextDeliveryTag }
    (.new enc) (Nat.zero_le _) hne (Nat.le_succ _)
  refine ⟨ts, r', hcut, hchunked, ?_⟩
  rw [run_send_encoded buf htag henc, run_bind, run_checkSize hmax]
  dsimp only
  rw [run_sendEncoded msg s hne, hpayload, hrun]
  rfl

/-! ## The receiver puts cuts together -/

namespace Receiver

/-- Nothing of a message has been received yet. -/
structure Clean (r : Receiver) : Prop where
  more : r.more = false
  msgBuf : r.msgBuf = .new []
  msg : r.msg = .zero

/-- The receiver with the fields of a message recorded and the part `acc` of it buffered. -/
def assembling (r : Receiver) (more : Bool) (m : Message) (acc : Bytes) : Receiver :=
  { r with more := more, msg := m, msgBuf := .new acc }

theorem run_unmarshal (hm : m.toSections = .zero) (h : decodeSections bs = some sections) :
    ∃ buf, Message.unmarshal.run (m, .new bs) = .ok () ({ m with toSections := sections }, buf) := by
  obtain ⟨buf, hrun⟩ := run_unmarshal_of_decode h
  refine ⟨buf, ?_⟩
  simp only [Message.unmarshal, zoom, run, hm] at hrun ⊢
  rw [hrun]

theorem tooLarge_assembling {n : Nat} (hmax : r.maxMessageSize = 0 ∨ acc.length + n ≤ r.maxMessageSize.toNat) :
    (r.assembling more m acc).tooLarge n = false := by
  refine decide_eq_false ?_
  rintro ⟨hne, hgt⟩
  rcases hmax with h | h
  · exact hne h
  · exact absurd hgt (Nat.not_lt.mpr h)

/-- A transfer in the middle of a message is buffered. -/
theorem acceptTransfer_more (hmore : fr.more = true) (hsettled : fr.settled = false) (haborted : fr.aborted = false)
    (hmax : r.maxMessageSize = 0 ∨ acc.length + fr.payload.length ≤ r.maxMessageSize.toNat) :
    (r.assembling more m acc).acceptTransfer fr = (r.assembling true m (acc ++ fr.payload), none) := by
  rw [acceptTransfer, haborted, tooLarge_assembling hmax, hmore]
  simp only [takePayload, assembling, hmore, hsettled, Bool.or_false, if_true, if_false, Bool.false_eq_true]
  rfl

/-- The last transfer completes the message. -/
theorem acceptTransfer_last (hdetached : r.detached = none) (hmore : fr.more = false)
    (haborted : fr.aborted = false) (hm : m.toSections = .zero) (hmsettled : m.settled = false)
    (hmax : r.maxMessageSize = 0 ∨ acc.length + fr.payload.length ≤ r.maxMessageSize.toNat)
    (hdecode : decodeSections (acc ++ fr.payload) = some sections) :
    (r.assembling more m acc).acceptTransfer fr
      = (r.received { m with toSections := sections, settled := fr.settled }, none) := by
  have hbuffered : (r.assembling more m acc).takePayload fr = { r with
      more := false, msg := { m with settled := fr.settled }, msgBuf := .new (acc ++ fr.payload) } := by
    simp only [takePayload, assembling, hmore, hmsettled, Bool.false_or]
    rfl
  obtain ⟨buf, hrun⟩ := run_unmarshal (m := { m with settled := fr.settled }) hm hdecode
  rw [acceptTransfer, haborted, tooLarge_assembling hmax, hmore, hbuffered]
  simp only [decodeMessage, hrun, if_false, Bool.false_eq_true]
  rw [deliver_of_attached (by exact hdetached) rfl]
  rfl

/-- A continuation that repeats nothing of the first transfer passes the checks. -/
theorem muxReceive_continuation (hid : fr.deliveryID = none) (hformat : fr.messageFormat = none)
    (htag : fr.deliveryTag = none) :
    (r.assembling true m acc).muxReceive fr = (r.assembling true m acc).acceptTransfer fr := by
  have hcheck : (r.assembling true m acc).checkContinuation fr = (r.assembling true m acc, none) := by
    simp [checkContinuation, inconsistent, hid, hformat, htag]
  have hmore : (r.assembling true m acc).more = true := rfl
  rw [muxReceive, if_pos hmore, hcheck]

/-- The fields of a message that its first transfer gives. -/
def firstFields (id format : UInt32) (tag : Bytes) : Message :=
  { Message.zero with deliveryID := id, format := format, deliveryTag := some tag }

theorem muxReceive_first (hr : r.Clean) {format : UInt32} {tag : Bytes} (hid : fr.deliveryID = some id)
    (hformat : fr.messageFormat = some format) (htag : fr.deliveryTag = some tag) :
    r.muxReceive fr = (r.assembling false (firstFields id format tag) []).acceptTransfer fr := by
  have hcheck : r.checkFirst fr = (r.assembling false (firstFields id format tag) [], none) := by
    simp only [checkFirst, assembling, firstFields, hid, hformat, htag, hr.msg, hr.msgBuf.symm, hr.more.symm]
    rfl
  rw [muxReceive, hr.more, if_neg (by simp), hcheck]

/-- The rest of a cut, in the middle of a message. -/
theorem receiveAll_rest (hcut : Cut settled channel fr bs ts) (hfr : fr.continuation = fr)
    (hsettled : fr.settled = false) (haborted : fr.aborted = false) (hdetached : r.detached = none)
    (hm : m.toSections = .zero) (hmsettled : m.settled = false) (acc : Bytes)
    (hmax : r.maxMessageSize = 0 ∨ (acc ++ bs).length ≤ r.maxMessageSize.toNat)
    (hdecode : decodeSections (acc ++ bs) = some sections) :
    (r.assembling true m acc).receiveAll ts
      = (r.received { m with toSections := sections, settled := settled }, none) := by
  induction hcut generalizing acc with
  | @last fr bs hne =>
    rw [length_append] at hmax
    have hid : fr.deliveryID = none := by rw [← hfr]; rfl
    have hformat : fr.messageFormat = none := by rw [← hfr]; rfl
    have htag : fr.deliveryTag = none := by rw [← hfr]; rfl
    have hstep : (r.assembling true m acc).muxReceive { fr with
        payload := bs, more := false, settled := settled, done := some channel }
        = (r.received { m with toSections := sections, settled := settled }, none) := by
      refine (muxReceive_continuation ?_ ?_ ?_).trans
        (acceptTransfer_last hdetached ?_ ?_ hm hmsettled ?_ ?_)
      exacts [hid, hformat, htag, rfl, haborted, hmax, hdecode]
    rw [receiveAll, hstep]
    rfl
  | @more fr p bs ts hne _ ih =>
    have hid : fr.deliveryID = none := by rw [← hfr]; rfl
    have hformat : fr.messageFormat = none := by rw [← hfr]; rfl
    have htag : fr.deliveryTag = none := by rw [← hfr]; rfl
    have hpart : r.maxMessageSize = 0 ∨ acc.length + p.length ≤ r.maxMessageSize.toNat :=
      hmax.imp_right fun h => by
        simp only [length_append] at h
        omega
    have hstep : (r.assembling true m acc).muxReceive { fr with payload := p, more := true }
        = (r.assembling true m (acc ++ p), none) := by
      refine (muxReceive_continuation ?_ ?_ ?_).trans (acceptTransfer_more ?_ ?_ ?_ ?_)
      exacts [hid, hformat, htag, rfl, hsettled, haborted, hpart]
    rw [receiveAll, hstep]
    rw [← append_assoc] at hmax hdecode
    exact ih rfl hsettled haborted (acc ++ p) hmax hdecode

/-- **The receiver.** A clean receiver makes one message out of a cut, with the fields of the first
    transfer and the settled flag of the last, and is clean again. -/
theorem receiveAll_cut (hr : r.Clean) (hdetached : r.detached = none) {format : UInt32} {tag : Bytes}
    (hcut : Cut settled channel fr bs ts) (hid : fr.deliveryID = some id) (hformat : fr.messageFormat = some format)
    (htag : fr.deliveryTag = some tag) (hsettled : fr.settled = false) (haborted : fr.aborted = false)
    (hmax : r.maxMessageSize = 0 ∨ bs.length ≤ r.maxMessageSize.toNat) (hdecode : decodeSections bs = some sections) :
    r.receiveAll ts = (r.received { firstFields id format tag with
      toSections := sections, settled := settled }, none) := by
  rcases hcut with @⟨_, _, hne⟩ | @⟨_, p, bs, ts, hne, hrest⟩
  · have hstep : r.muxReceive { fr with
        payload := bs, more := false, settled := settled, done := some channel }
        = (r.received { firstFields id format tag with
            toSections := sections, settled := settled }, none) := by
      rw [← nil_append bs, length_append] at hmax
      refine (muxReceive_first hr ?_ ?_ ?_).trans (acceptTransfer_last hdetached ?_ ?_ rfl rfl ?_ ?_)
      exacts [hid, hformat, htag, rfl, haborted, hmax, hdecode]
    rw [receiveAll, hstep]
    rfl
  · have hpart : r.maxMessageSize = 0 ∨ ([] : Bytes).length + p.length ≤ r.maxMessageSize.toNat :=
      hmax.imp_right fun h => by
        rw [length_append] at h
        rw [length_nil]
        omega
    have hstep : r.muxReceive { fr with payload := p, more := true }
        = (r.assembling true (firstFields id format tag) p, none) := by
      refine (muxReceive_first hr ?_ ?_ ?_).trans (acceptTransfer_more ?_ ?_ ?_ ?_)
      exacts [hid, hformat, htag, rfl, hsettled, haborted, hpart]
    rw [receiveAll, hstep]
    exact receiveAll_rest hrest rfl hsettled haborted hdetached rfl rfl p hmax hdecode

end Receiver

/-! ## Sequences of messages -/

/-- A message to be sent, with its encoding and what the encoding decodes to. `counter` is the value
    of the session's delivery-id counter when its turn comes. -/
structure Parcel (sendLimit receiveLimit : UInt64) where
  counter : UInt32
  msg : Message
  encoding : Bytes
  sections : Sections
  tag_le : (msg.deliveryTag.getD []).length ≤ 32
  encodes : msg.encoding = some encoding
  nonempty : encoding ≠ []
  decodes : decodeSections encoding = some sections
  fits_sender : sendLimit = 0 ∨ encoding.length ≤ sendLimit.toNat
  fits_receiver : receiveLimit = 0 ∨ encoding.length ≤ receiveLimit.toNat

section Sequences

variable {sendLimit receiveLimit : UInt64}

/-- The message that arrives for a parcel sent when the tag counter is at `tag`. -/
def Sender.arrival (s : Sender) (tag : UInt64) (p : Parcel sendLimit receiveLimit) : Message :=
  { Receiver.firstFields (p.counter + 1) p.msg.format (p.msg.tagAt tag) with
    toSections := p.sections
    settled := s.senderSettled p.msg }

/-- The messages that arrive, in order. -/
def Sender.arrivals (s : Sender) : UInt64 → List (Parcel sendLimit receiveLimit) → List Message
  | _, [] => []
  | tag, p :: ps => s.arrival tag p :: s.arrivals (p.msg.nextTag tag) ps

/-- Every parcel has been sent as a cut of its encoding. -/
inductive Sent (s : Sender) :
    UInt64 → List (Parcel sendLimit receiveLimit) → List (List PerformTransfer) → Prop where
  | nil {tag : UInt64} : Sent s tag [] []
  | cons {tag : UInt64} {p : Parcel sendLimit receiveLimit} {ps : List (Parcel sendLimit receiveLimit)}
      {channel : Nat} {ts : List PerformTransfer} {tss : List (List PerformTransfer)} :
      Cut (s.senderSettled p.msg) channel
        ({ s with nextDeliveryID := p.counter, nextDeliveryTag := tag }.firstTransfer p.msg)
        p.encoding ts →
      Sent s (p.msg.nextTag tag) ps tss → Sent s tag (p :: ps) (ts :: tss)

theorem sendAll_cons {msgs : List (UInt32 × Message)}
    {s' : Sender} {buf buf' : Buffer} {done : Option Nat}
    {st : Sender × Buffer}
    (hsend : (send msg).run ({ s with nextDeliveryID := id, transfers := [] }, buf)
      = .ok done (s', buf'))
    (hrest : (sendAll msgs).run (s', buf') = .ok tss st) :
    (sendAll ((id, msg) :: msgs)).run (s, buf) = .ok (s'.transfers :: tss) st := by
  rw [sendAll, run_bind]
  show run (send msg >>= fun _ => get >>= fun s' => sendAll msgs >>= fun rest =>
    pure (s'.1.transfers :: rest)) ({ s with nextDeliveryID := id, transfers := [] }, buf) = _
  rw [run_bind, hsend]
  show run (sendAll msgs >>= fun rest => pure (s'.transfers :: rest)) (s', buf') = _
  rw [run_bind, hrest]
  rfl

variable {ps : List (Parcel sendLimit receiveLimit)}

theorem Sent.of_config {s' : Sender} (s : Sender) (h : Sent s' tag ps tss) (hhandle : s'.handle = s.handle)
    (hmode : s'.senderSettleMode = s.senderSettleMode) : Sent s tag ps tss := by
  induction h with
  | nil => exact .nil
  | @cons _ p _ channel _ _ hcut _ ih =>
    have hsettled : s'.senderSettled p.msg = s.senderSettled p.msg := by
      rw [senderSettled, hmode, senderSettled]
    simp only [hsettled, firstTransfer, hhandle] at hcut
    exact .cons hcut ih

/-- Every `send` of the sequence succeeds and pushes a cut of its message. -/
theorem run_sendAll (hframe : 66 < s.peerMaxFrameSize.toNat) (hlimit : s.maxMessageSize = sendLimit)
    (ps : List (Parcel sendLimit receiveLimit)) (buf : Buffer) :
    ∃ tss st, Sent s s.nextDeliveryTag ps tss ∧
      (sendAll (ps.map fun p => (p.counter, p.msg))).run (s, buf) = .ok tss st := by
  induction ps generalizing s buf with
  | nil => exact ⟨[], _, .nil, rfl⟩
  | cons p ps ih =>
    obtain ⟨ts, buf', hcut, -, hsend⟩ :=
      run_send (s := { s with nextDeliveryID := p.counter, transfers := [] }) buf
        hframe p.tag_le p.encodes p.nonempty (hlimit ▸ p.fits_sender)
    obtain ⟨tss, st, hsent, hrun⟩ :=
      ih (s := sent { s with nextDeliveryID := p.counter, transfers := [] } p.msg ts)
        hframe hlimit buf'
    have hsent' : Sent s (p.msg.nextTag s.nextDeliveryTag) ps tss := hsent.of_config s rfl rfl
    exact ⟨ts :: tss, st, .cons hcut hsent', sendAll_cons hsend hrun⟩

theorem Receiver.receiveAll_append {r' : Receiver} {xs ys : List PerformTransfer}
    (h : r.receiveAll xs = (r', none)) : r.receiveAll (xs ++ ys) = r'.receiveAll ys := by
  induction xs generalizing r with
  | nil => cases h; rfl
  | cons fr xs ih =>
    rw [receiveAll] at h
    rw [cons_append, receiveAll]
    split at h
    · cases h
    · exact ih h

/-- The receiver gets the messages of a prefix of the parcels, and is clean after each of them. -/
theorem Sent.receiveAll_take (h : Sent s tag ps tss) (hr : r.Clean) (hdetached : r.detached = none)
    (hlimit : r.maxMessageSize = receiveLimit) (k : Nat) :
    ∃ r', r.receiveAll (tss.take k).flatten = (r', none) ∧ r'.Clean ∧
      r'.messages = r.messages ++ (s.arrivals tag ps).take k := by
  induction h generalizing r k with
  | nil => exact ⟨r, by rw [take_nil]; rfl, hr, by simp [arrivals]⟩
  | @cons tag p ps channel ts tss hcut _ ih =>
    cases k with
    | zero => exact ⟨r, rfl, hr, by simp⟩
    | succ k =>
      have hfirst : r.receiveAll ts = (r.received (s.arrival tag p), none) :=
        Receiver.receiveAll_cut hr hdetached hcut rfl rfl rfl rfl rfl
          (hlimit ▸ p.fits_receiver) p.decodes
      obtain ⟨r', hrun, hclean, hmessages⟩ :=
        ih (r := r.received (s.arrival tag p)) ⟨rfl, rfl, rfl⟩ hdetached hlimit k
      refine ⟨r', ?_, hclean, ?_⟩
      · rw [take_succ_cons, flatten_cons, Receiver.receiveAll_append hfirst, hrun]
      · rw [hmessages, arrivals, take_succ_cons, Receiver.received, append_assoc]
        rfl

/-! ## The transfers of one message -/

/-- What the transfers of one message look like on the link: the first one alone has the id, the tag
    and the format; the last one alone ends the message, has the `Done` channel and the settled
    flag. -/
structure Fragments (first : PerformTransfer) (settled : Bool) (encoding : Bytes)
    (ts : List PerformTransfer) : Prop where
  payloads : ts.flatMap (·.payload) = encoding
  head : ∃ t rest, ts = t :: rest ∧ t.deliveryID = first.deliveryID ∧
    t.deliveryTag = first.deliveryTag ∧ t.messageFormat = first.messageFormat ∧
    ∀ u ∈ rest, u.deliveryID = none ∧ u.deliveryTag = none ∧ u.messageFormat = none
  last : ∃ init t, ts = init ++ [t] ∧ t.more = false ∧ t.done.isSome ∧ t.settled = settled ∧
    ∀ u ∈ init, u.more = true ∧ u.done = none ∧ u.settled = false

theorem Cut.fragments (h : Cut settled channel fr bs ts) (hdone : fr.done = none)
    (hsettled : fr.settled = false) : Fragments fr settled bs ts := by
  induction h with
  | @last fr bs _ =>
    exact {
      payloads := by simp
      head := ⟨_, [], rfl, rfl, rfl, rfl, by simp⟩
      last := ⟨[], _, rfl, rfl, rfl, rfl, by simp⟩ }
  | @more fr p bs ts _ _ ih =>
    have hrest := ih hdone hsettled
    obtain ⟨t, rest, rfl, hid, htag, hformat, htail⟩ := hrest.head
    obtain ⟨init, u, hinit, hmore, hdone', hset, hall⟩ := hrest.last
    refine {
      payloads := by rw [flatMap_cons, hrest.payloads]
      head := ⟨_, _, rfl, rfl, rfl, rfl, ?_⟩
      last := ⟨_ :: init, u, by rw [hinit]; rfl, hmore, hdone', hset, ?_⟩ }
    · intro v hv
      rcases mem_cons.mp hv with rfl | hv
      · exact ⟨hid, htag, hformat⟩
      · exact htail v hv
    · intro v hv
      rcases mem_cons.mp hv with rfl | hv
      · exact ⟨rfl, hdone, hsettled⟩
      · exact hall v hv

theorem Sent.fragments (h : Sent s tag ps tss) :
    Forall₂ (fun p ts => ∃ first : PerformTransfer,
      first.deliveryID = some (p.counter + 1) ∧ first.deliveryTag.isSome ∧
      first.messageFormat = some p.msg.format ∧
      Fragments first (s.senderSettled p.msg) p.encoding ts) ps tss := by
  induction h with
  | nil => exact .nil
  | cons hcut _ ih => exact .cons ⟨_, rfl, rfl, rfl, hcut.fragments rfl rfl⟩ ih

end Sequences

/-! ## End to end -/

/-- **Messages go through.** Whatever the frame size leaves to a transfer, every message of a sequence
    is sent as fragments of its encoding, and a receiver that is fed the transfers of the first `k`
    messages has put exactly these on `messages`, in order, each with its id, tag, format and settled
    flag, and is as clean as before. -/
theorem receiveAll_sendAll {s : Sender} {r : Receiver} (hframe : 66 < s.peerMaxFrameSize.toNat)
    (hclean : r.Clean) (hdetached : r.detached = none)
    (ps : List (Parcel s.maxMessageSize r.maxMessageSize)) (buf : Buffer) :
    ∃ tss st, (sendAll (ps.map fun p => (p.counter, p.msg))).run (s, buf) = .ok tss st ∧
      (∀ k, ∃ r', r.receiveAll (tss.take k).flatten = (r', none) ∧ r'.Clean ∧
        r'.messages = r.messages ++ (s.arrivals s.nextDeliveryTag ps).take k) ∧
      Forall₂ (fun p ts => ∃ first : PerformTransfer,
        first.deliveryID = some (p.counter + 1) ∧ first.deliveryTag.isSome ∧
        first.messageFormat = some p.msg.format ∧
        Fragments first (s.senderSettled p.msg) p.encoding ts) ps tss := by
  obtain ⟨tss, st, hsent, hrun⟩ := run_sendAll hframe rfl ps buf
  exact ⟨tss, st, hrun, fun k => hsent.receiveAll_take hclean hdetached rfl k, hsent.fragments⟩

/-- One byte in every transfer, and two messages of which the sender settles the second. -/
theorem receiveAll_sendAll_two :
    let s : Sender := ⟨3, 0, some .mixed, 67, 0, 0, 0, []⟩
    let r : Receiver := ⟨9, none, 0, 10, none, none, [], [], .new [], false, .zero⟩
    let message (data : Bytes) (settled : Bool) : Message :=
      { Message.zero with data := [data], sendSettled := settled }
    ∃ tss st, (sendAll [(0, message [1, 2] false), (5, message [] true)]).run (s, .new [])
        = .ok tss st ∧
      (r.receiveAll tss.flatten).1.messages.map
          (fun m => (m.data, m.deliveryID, m.deliveryTag, m.settled))
        = [([[1, 2]], 1, some [0, 0, 0, 0, 0, 0, 0, 0], false),
           ([[]], 6, some [0, 0, 0, 0, 0, 0, 0, 1], true)] := by
  intro s r message
  obtain ⟨tss, st, hrun, hreceive, hfragments⟩ := receiveAll_sendAll (s := s) (r := r) (by decide)
    ⟨rfl, rfl, rfl⟩ rfl
    [{  counter := 0
        msg := message [1, 2] false
        encoding := [0x00, 0x53, 0x75, 0xa0, 0x02, 1, 2]
        sections := { Sections.zero with data := [[1, 2]] }
        tag_le := by decide
        encodes := rfl
        nonempty := by decide
        decodes := rfl
        fits_sender := by decide
        fits_receiver := by decide },
      { counter := 5
        msg := message [] true
        encoding := [0x00, 0x53, 0x75, 0xa0, 0x00]
        sections := { Sections.zero with data := [[]] }
        tag_le := by decide
        encodes := rfl
        nonempty := by decide
        decodes := rfl
        fits_sender := by decide
        fits_receiver := by decide }] (.new [])
  refine ⟨tss, st, hrun, ?_⟩
  have hlength : tss.length = 2 := hfragments.length_eq.symm
  obtain ⟨r', hr', -, hmessages⟩ := hreceive 2
  rw [take_of_length_le (Nat.le_of_eq hlength)] at hr'
  rw [hr', hmessages]
  simp only [s, r, message]
  decide

end GoAmqp
