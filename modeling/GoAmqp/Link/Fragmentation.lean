import GoAmqp.Link.Delivery

set_option autoImplicit false

/-! # When `Sender.send` ends

The payload of a transfer is what the peer's frame size leaves after a header of 66 bytes, and the
loop of `send` is entered if there is anything to send. The loop takes a payload out of the buffer in
every round, so it ends when payloads have at least one byte. With a frame size of 66 it sends empty
transfers for ever: however many rounds it is given, it uses them up. With a smaller one it slices
backwards. A message without sections never enters the loop and leaves the `Done` channel nil. -/

namespace GoAmqp

open Lib Buffer EStateM

theorem Cut.ends {settled : Bool} {channel : Nat} {fr : PerformTransfer} {bs : Bytes}
    {ts : List PerformTransfer} (h : Cut settled channel fr bs ts) :
    ∃ init t, ts = init ++ [t] ∧ (∀ u ∈ init, u.more = true) ∧ t.more = false ∧
      t.done = some channel := by
  induction h with
  | last _ => exact ⟨[], _, rfl, by simp, rfl, rfl⟩
  | @more fr p bs ts _ _ ih =>
    obtain ⟨init, t, rfl, hinit, hmore, hdone⟩ := ih
    exact ⟨{ fr with payload := p, more := true } :: init, t, rfl,
      List.forall_mem_cons.mpr ⟨rfl, hinit⟩, hmore, hdone⟩

/-- The encoding of a message is empty if and only if the message has no section. -/
theorem encoding_eq_nil_iff {msg : Message} {enc : Bytes} (henc : msg.encoding = some enc) :
    enc = [] ↔ msg.toSections = .zero := by
  constructor
  · rintro rfl
    have hwf : (Buffer.new []).WF := Nat.le_refl 0
    obtain ⟨bs, happ, hparts⟩ := (emits_message msg.toSections False.elim).of_run trivial hwf
      (run_marshal_of_encoding henc)
    obtain rfl : [] = bs := congrArg Buffer.b happ
    exact (hparts (Nat.two_pow_pos 32)).1 rfl
  · intro hzero
    rw [Message.encoding, Message.marshal, hzero] at henc
    exact (Option.some.inj henc).symm

namespace Sender

/-- A call of `send` hands over transfers of which the last alone has `more` unset, and returns the
    `Done` channel of that one. -/
def HandsOver (s : Sender) (buf : Buffer) (msg : Message) : Prop :=
  ∃ done s' r' ts t, (send msg).run (s, buf) = .ok (some done) (s', r') ∧
    s'.transfers = s.transfers ++ (ts ++ [t]) ∧ (∀ u ∈ ts, u.more = true) ∧ t.more = false ∧
    t.done = some done

/-- The sender when the loop is entered. -/
def started (s : Sender) (msg : Message) : Sender := { s with
  nextDeliveryID := s.nextDeliveryID + 1
  nextDeliveryTag := msg.nextTag s.nextDeliveryTag }

/-! ## The loop -/

/-- Empty payloads leave the buffer as it is, so the loop uses up any number of rounds. -/
theorem run_sendLoop_empty (settled : Bool) (bound : Nat) (fr : PerformTransfer)
    (hmore : fr.more = true) (s : Sender) {r : Buffer} (hw : r.WF) (hne : r.unread ≠ []) :
    ∃ ts : List PerformTransfer, ts.length = bound ∧ (∀ t ∈ ts, t.payload = [] ∧ t.more = true) ∧
      (sendLoop 0 settled bound fr).run (s, r)
        = .error .depth ({ s with transfers := s.transfers ++ ts }, r) := by
  induction bound generalizing fr s with
  | zero => exact ⟨[], rfl, by simp, by simp [sendLoop]; rfl⟩
  | succ bound ih =>
    have hround : (sendLoop (0 : Nat) settled (bound + 1) fr).run (s, r) = _ := run_sendLoop_succ hmore hw
    rw [if_pos (List.length_pos_iff.mpr hne)] at hround
    obtain ⟨ts, hlen, hall, hrun⟩ := ih
      ({ fr with payload := [], more := true } : PerformTransfer).continuation rfl
      { s with transfers := s.transfers ++ [{ fr with payload := [], more := true }] }
    refine ⟨{ fr with payload := [], more := true } :: ts, by simp [hlen],
      List.forall_mem_cons.mpr ⟨⟨rfl, rfl⟩, hall⟩, ?_⟩
    rw [List.append_cons, ← hrun]
    exact hround

/-- With a negative payload size the first round panics. -/
theorem run_sendLoop_negative {maxPayloadSize : Int} (hneg : maxPayloadSize < 0) (settled : Bool)
    (bound : Nat) {fr : PerformTransfer} (hmore : fr.more = true) (s : Sender) (r : Buffer) :
    (sendLoop maxPayloadSize settled (bound + 1) fr).run (s, r) = .error .outOfRange (s, r) := by
  obtain ⟨n, rfl⟩ := Int.eq_negSucc_of_lt_zero hneg
  rw [sendLoop, if_pos hmore]
  rfl

/-! ## The call -/

/-- The loop as `send` enters it, for a message within the limits. -/
theorem run_send_loop {s : Sender} {msg : Message} {enc : Bytes} (buf : Buffer)
    (htag : (msg.deliveryTag.getD []).length ≤ 32) (henc : msg.encoding = some enc) (hne : enc ≠ [])
    (hmax : s.maxMessageSize = 0 ∨ enc.length ≤ s.maxMessageSize.toNat) :
    (send msg).run (s, buf) =
      (sendLoop s.maxPayloadSize (s.senderSettled msg) (enc.length + 2) (s.firstTransfer msg)).run
        (s.started msg, .new enc) := by
  rw [run_send_encoded buf htag henc, run_bind, run_checkSize hmax]
  exact run_sendEncoded msg s hne

/-- A message without sections: nothing is handed over, and the channel is nil. -/
theorem run_send_nothing {s : Sender} {msg : Message} (buf : Buffer) (htag : (msg.deliveryTag.getD []).length ≤ 32)
    (henc : msg.encoding = some []) : (send msg).run (s, buf) = .ok none (s.started msg, .new []) := by
  rw [run_send_encoded buf htag henc, run_bind, run_checkSize (.inr (Nat.zero_le _))]
  dsimp only
  rw [sendEncoded, run_bind, run_get]
  dsimp only
  rw [run_bind]
  show run (takeDeliveryTag msg >>= _)
    ({ s with nextDeliveryID := s.nextDeliveryID + 1 }, .new []) = _
  rw [run_bind, run_takeDeliveryTag]
  rfl

/-- **When a message goes out.** For every message that `Marshal` accepts, with a delivery tag and a
    size within the limits, and every frame size of the peer: `send` hands over transfers, the last of
    which ends the message and has the `Done` channel that is returned, if and only if the frame size
    is above 66 and the message has a section. -/
theorem send_handsOver_iff {s : Sender} {msg : Message} {enc : Bytes} (buf : Buffer)
    (htag : (msg.deliveryTag.getD []).length ≤ 32) (henc : msg.encoding = some enc)
    (hmax : s.maxMessageSize = 0 ∨ enc.length ≤ s.maxMessageSize.toNat) :
    s.HandsOver buf msg ↔ 66 < s.peerMaxFrameSize.toNat ∧ msg.toSections ≠ .zero := by
  rw [ne_eq, ← encoding_eq_nil_iff henc]
  constructor
  · rintro ⟨done, s', r', ts, t, hrun, -⟩
    have hne : enc ≠ [] := by
      rintro rfl
      rw [run_send_nothing buf htag henc] at hrun
      cases hrun
    refine ⟨?_, hne⟩
    rw [run_send_loop buf htag henc hne hmax] at hrun
    by_contra hsmall
    rcases Nat.lt_or_eq_of_le (Nat.le_of_not_lt hsmall) with hlt | heq
    · have hneg : s.maxPayloadSize < 0 := by
        unfold maxPayloadSize maxTransferFrameHeader
        omega
      rw [run_sendLoop_negative hneg _ _ rfl] at hrun
      cases hrun
    · have hzero : s.maxPayloadSize = 0 := by
        unfold maxPayloadSize maxTransferFrameHeader
        omega
      obtain ⟨ts', -, -, hdepth⟩ := run_sendLoop_empty (s.senderSettled msg) (enc.length + 2)
        (s.firstTransfer msg) rfl (s.started msg) (r := .new enc) (Nat.zero_le _) hne
      rw [hzero, hdepth] at hrun
      cases hrun
  · rintro ⟨hframe, hne⟩
    obtain ⟨ts, r', hcut, -, hrun⟩ := run_send buf hframe htag henc hne hmax
    obtain ⟨init, t, rfl, hinit, hmore, hdone⟩ := hcut.ends
    exact ⟨s.channels, _, r', init, t, hrun, rfl, hinit, hmore, hdone⟩

/-- A sender whose peer takes frames of the given size, and a message with one byte of data. -/
def onFrames (peerMaxFrameSize : UInt32) : Sender := ⟨3, 0, none, peerMaxFrameSize, 0, 0, 0, []⟩

def oneByte : Message := { Message.zero with data := [[7]] }

theorem send_handsOver_smallest : (onFrames 67).HandsOver (.new []) oneByte :=
  (send_handsOver_iff _ (by decide)
    (show oneByte.encoding = some [0x00, 0x53, 0x75, 0xa0, 0x01, 7] from rfl) (.inl rfl)).mpr
    ⟨by decide, nofun⟩

/-- The three ways to fail: frames of 65 bytes; frames of 66 bytes, for any number of rounds; and a
    message without sections. -/
theorem send_fails :
    (∃ st, (send oneByte).run (onFrames 65, .new []) = .error .outOfRange st) ∧
    (∀ bound, ∃ ts : List PerformTransfer, ts.length = bound ∧ (∀ t ∈ ts, t.payload = [] ∧ t.more = true) ∧
      ∃ s' r', (sendLoop (onFrames 66).maxPayloadSize ((onFrames 66).senderSettled oneByte) bound
          ((onFrames 66).firstTransfer oneByte)).run
          ((onFrames 66).started oneByte, .new [0x00, 0x53, 0x75, 0xa0, 0x01, 7])
        = .error .depth (s', r') ∧ s'.transfers = ts) ∧
    (∃ s' r', (send Message.zero).run (onFrames 512, .new []) = .ok none (s', r') ∧
      s'.transfers = []) := by
  refine ⟨⟨_, rfl⟩, fun bound => ?_, ⟨_, _, rfl, rfl⟩⟩
  obtain ⟨ts, hlen, hall, hrun⟩ := run_sendLoop_empty ((onFrames 66).senderSettled oneByte) bound
    ((onFrames 66).firstTransfer oneByte) rfl ((onFrames 66).started oneByte)
    (r := .new [0x00, 0x53, 0x75, 0xa0, 0x01, 7]) (Nat.zero_le _) (by decide)
  exact ⟨ts, hlen, hall, _, _, hrun, rfl⟩

end Sender

end GoAmqp
