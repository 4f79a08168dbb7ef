import GoAmqp.Conn.Options
import GoAmqp.Conn.Segmentation
import GoAmqp.Encoding.Allocation

set_option autoImplicit false

/-! # What `readFrame` makes of a frame header

A header declares the size of the frame and where its body starts. `readFrame` takes everything after the
eight bytes of the header for the body, wherever the data offset points; and the only size it rejects is one
that does not fit into 31 bits, whatever the limit that the open of this side has announced. -/

namespace GoAmqp

open Lib Buffer List

variable {h : Header} {b : Bool} {r : Buffer} {i : ReadInput} {results : List (Except Fault Frame)}
  {limit maxFrameSize : UInt32} {dataOffset : UInt8}

/-- A frame on the wire, with any size in its header. -/
def onWire (size : UInt32) (dataOffset frameType : UInt8) (channel : UInt16) (payload : Bytes) : Bytes :=
  be32 size ++ (dataOffset :: frameType :: be16 channel) ++ payload

/-- The body of an end, and more bytes after it, which are not looked at. -/
theorem parseBody_end (rest : Bytes) :
    ∃ r, parseBody.run (.new ((PerformEnd.encode ⟨none⟩) ++ rest)) = .ok (.end_ ⟨none⟩) r := by
  have htransmits := transmits_end (e := ⟨none⟩) rfl
  have hreads : Reads parseBody (PerformEnd.encode ⟨none⟩) rest (.end_ ⟨none⟩) :=
    reads_parseBody (.map FrameBody.end_ (htransmits.reads (by decide)))
  exact ⟨_, hreads (.new _) (Nat.zero_le _) rfl⟩

variable {s s' : FrameReader}

namespace FrameReader

/-! ## Rounds -/

/-- The header of a frame in progress is the one that `readBody` was given. -/
theorem readBody_continue {h' : Header} {r' : Buffer} (hrun : (readBody h).run r = .ok (.continue_ h' b) r') :
    h' = h ∧ h.size ≤ maxInt32 := by
  by_cases hsize : h.size > maxInt32
  · rw [run_readBody_tooLarge hsize] at hrun
    cases hrun
  · refine ⟨?_, UInt32.not_lt.mp hsize⟩
    rw [readBody, if_neg hsize, run_len] at hrun
    split_ifs at hrun
    · cases hrun
      rfl
    · cases hrun
      rfl
    · -- the body is taken from the buffer, and then the call returns
      obtain ⟨⟨buf, ok⟩, r₁, -, hrest⟩ := Consumes.bind_ok hrun
      dsimp only at hrest
      split_ifs at hrest
      · obtain ⟨n, r₂, -, hfail⟩ := Consumes.bind_ok hrest
        cases hfail
      · unfold parsePayload at hrest
        split at hrest <;> cases hrest

/-- What a round does, by what it finds. -/
inductive RoundOf (h : Header) (r : Buffer) : Bool → EStateM.Result Fault Buffer Round → Prop
  | short (b : Bool) : r.unread.length < 8 → RoundOf h r b (.ok (.continue_ h b) r)
  | within : RoundOf h r true ((readBody h).run r)
  | between (h' : Header) (r' : Buffer) : parseHeader.run r = .ok h' r' →
      RoundOf h r false ((readBody h').run r')
  | malformed (err : Fault) (r' : Buffer) : parseHeader.run r = .error err r' → RoundOf h r false (.error err r')

theorem round_cases (h : Header) (b : Bool) (r : Buffer) : RoundOf h r b ((round h b).run r) := by
  by_cases hlen : r.unread.length < 8
  · rw [run_round_short hlen]
    exact .short b hlen
  · cases b with
    | true =>
      rw [run_round_within (by omega)]
      exact .within
    | false =>
      rw [run_round_between (by omega), EStateM.run_bind]
      cases hparse : parseHeader.run r with
      | ok h' r' => exact .between h' r' hparse
      | error err r' => exact .malformed err r' hparse

/-! ## The declared size -/

/-- The header a round works with: that of the frame in progress, or the one in the buffer. -/
def headerIn (currentHeader : Header) (frameInProgress : Bool) (r : Buffer) : Option Header :=
  if frameInProgress then some currentHeader
  else
    match parseHeader.run r with
    | .ok h _ => some h
    | .error _ _ => none

/-- The header of the frame that a step works on. -/
def declared (s : FrameReader) (i : ReadInput) : Option Header :=
  match s.phase, i with
  | .loop h frameInProgress, .round => headerIn h frameInProgress s.rxBuf
  | .loop h frameInProgress, .read chunk => headerIn h frameInProgress (s.rxBuf.append chunk)
  | _, _ => none

/-- A frame in progress has a size of at most 31 bits. -/
def InRange (s : FrameReader) : Prop := ∀ h, s.phase = .loop h true → h.size ≤ maxInt32

theorem InRange.finish (hrange : b = true → h.size ≤ maxInt32) : InRange (s.finish ((round h b).run r)).1 := by
  have hbody : ∀ h r, InRange (s.finish ((readBody h).run r)).1 := by
    intro h r
    cases hrun : (readBody h).run r with
    | error err r' => exact fun h' hp => by cases hp
    | ok a r' =>
      cases a with
      | return_ fr => exact fun h' hp => by cases hp
      | continue_ h' b' =>
        obtain ⟨rfl, hsize⟩ := readBody_continue hrun
        intro k hp
        cases hp
        exact hsize
  have hcases := round_cases h b r
  generalize (round h b).run r = res at hcases ⊢
  cases hcases with
  | short b hlen =>
    intro k hp
    cases hp
    exact hrange rfl
  | within => exact hbody h r
  | between h' r' hparse => exact hbody h' r'
  | malformed err r' hparse => exact fun h' hp => by cases hp

theorem InRange.step (h : InRange s) (hstep : s.step i = some (s', results)) : InRange s' := by
  have hcases := step_cases hstep
  rw [show s' = (s', results).1 from rfl]
  generalize (s', results) = res at hcases ⊢
  cases hcases with
  | call hp => exact fun k hk => by cases hk
  | round k b hp hasks => exact .finish fun hb => h k (hb ▸ hp)
  | read chunk k b hp hasks => exact .finish fun hb => h k (hb ▸ hp)
  | readErr err hasks => exact fun k hk => by cases hk

theorem inRange_of_run {trace : Trace ReadInput (Except Fault Frame)}
    (hrun : Run (Fires FrameReader.step) (.start maxFrameSize) trace s) : InRange s := by
  refine hrun.invariant (P := fun _ s => InRange s) (fun h hp => by cases hp) ?_
  rintro trace s ⟨i, results⟩ s' hs hstep
  exact hs.step hstep

/-- A header that is too large ends the call in the round that parses it. -/
theorem finish_tooLarge {k : Header} (hrange : b = true → h.size ≤ maxInt32) (hheader : headerIn h b r = some k)
    (hsize : maxInt32 < k.size) : ∃ err, (s.finish ((round h b).run r)).2 = [.error err] := by
  cases b with
  | true =>
    cases hheader
    exact absurd (UInt32.lt_of_lt_of_le hsize (hrange rfl)) (UInt32.lt_irrefl _)
  | false =>
    simp only [headerIn, Bool.false_eq_true, if_false] at hheader
    have hcases := round_cases h false r
    generalize (round h false).run r = res at hcases ⊢
    cases hcases with
    | short b hlen =>
      -- without eight bytes there is no header
      split at hheader
      · next k' r' hparse =>
        obtain ⟨⟨buf, ok⟩, r₁, hnext, hrest⟩ := Consumes.bind_ok hparse
        cases ok with
        | false => cases hrest
        | true =>
          have hle := (next_ok hnext).1
          rw [length_unread] at hlen
          exact absurd hle (by unfold left; omega)
      · cases hheader
    | between h' r' hparse =>
      rw [hparse] at hheader
      cases hheader
      rw [run_readBody_tooLarge hsize]
      exact ⟨_, rfl⟩
    | malformed err r' hparse => exact ⟨err, rfl⟩

theorem step_tooLarge {k : Header} (h : InRange s) (hstep : s.step i = some (s', results))
    (hheader : s.declared i = some k) (hsize : maxInt32 < k.size) : ∃ err, results = [.error err] := by
  have hcases := step_cases hstep
  rw [show results = (s', results).2 from rfl]
  generalize (s', results) = res at hcases ⊢
  cases hcases with
  | call hp => simp [declared, hp] at hheader
  | round hd b hp hasks =>
    simp only [declared, hp] at hheader
    exact finish_tooLarge (fun hb => h hd (hb ▸ hp)) hheader hsize
  | read chunk hd b hp hasks =>
    simp only [declared, hp] at hheader
    exact finish_tooLarge (fun hb => h hd (hb ▸ hp)) hheader hsize
  | readErr err hasks => exact ⟨_, rfl⟩

/-! ## A frame of a given size -/

theorem length_padded {n : Nat} (hle : 12 ≤ n) :
    (PerformEnd.encode ⟨none⟩ ++ replicate (n - 12) 0).length + 8 = n := by
  have hlen : (PerformEnd.encode ⟨none⟩).length = 4 := rfl
  rw [length_append, hlen, length_replicate]
  omega

theorem padded_ne_nil (zeros : Bytes) : PerformEnd.encode ⟨none⟩ ++ zeros ≠ [] := by
  simp [PerformEnd.encode, encodeComposite]

theorem two_not_lt : ¬ (2 : UInt8) < 2 := UInt8.lt_irrefl 2

/-- An end, filled up with zeros to `n` bytes. -/
def paddedEnd (n : Nat) (hle : 12 ≤ n) (hmax : n ≤ maxInt32.toNat) : WireFrame where
  dataOffset := 2
  frameType := 0
  channel := 0
  payload := PerformEnd.encode ⟨none⟩ ++ replicate (n - 12) 0
  body := some (.end_ ⟨none⟩)
  offset_ok := two_not_lt
  size_ok := Nat.le_trans (Nat.le_of_eq (length_padded hle)) hmax
  parses := ⟨padded_ne_nil _, parseBody_end _⟩

theorem toNat_size_paddedEnd {n : Nat} (hle : 12 ≤ n) (hmax : n ≤ maxInt32.toNat) :
    (paddedEnd n hle hmax).header.size.toNat = n := by
  rw [WireFrame.toNat_size]
  exact length_padded hle

/-- A frame that one read brings is returned. -/
theorem run_returns {f : WireFrame} {body : FrameBody} (hbody : f.body = some body) (maxFrameSize : UInt32) :
    ∃ trace s s', Run (Fires FrameReader.step) (.start maxFrameSize) trace s ∧
      s.step (.read f.encode) = some (s', [.ok ⟨0, f.channel, body⟩]) ∧
      s.declared (.read f.encode) = some f.header := by
  have hcall : Fires FrameReader.step (.start maxFrameSize) (.call, [])
      ⟨maxFrameSize, .new [], .loop ⟨0, 0, 0, 0⟩ false⟩ := rfl
  have hunread : (Buffer.new f.encode).unread = f.encode ++ [] := (List.append_nil _).symm
  have hround : (round ⟨0, 0, 0, 0⟩ false).run (.new f.encode) =
      .ok (.return_ ⟨0, f.channel, body⟩) (((Buffer.new f.encode).advance 8).advance f.payload.length) := by
    rw [run_round_between (by rw [hunread]; simp), run_frame (Nat.zero_le _) hunread, hbody]
  have hstep : step ⟨maxFrameSize, .new [], .loop ⟨0, 0, 0, 0⟩ false⟩ (.read f.encode) =
      some (finish ⟨maxFrameSize, .new [], .loop ⟨0, 0, 0, 0⟩ false⟩
        ((round ⟨0, 0, 0, 0⟩ false).run (.new f.encode))) := rfl
  rw [hround] at hstep
  refine ⟨_, _, _, .step .start hcall, hstep, ?_⟩
  · have hparse := f.reads_header f.payload (.new f.encode) (Nat.zero_le _) rfl
    simp only [declared, headerIn, Bool.false_eq_true, if_false]
    rw [show (Buffer.new []).append f.encode = .new f.encode from rfl, hparse]

/-! ## The data offset -/

/-- What a call returns when a read brings `bs` into the empty buffer; nothing if it has to go on. -/
def outcome (bs : Bytes) : List (Except Fault Frame) :=
  ((start 0).finish ((round ⟨0, 0, 0, 0⟩ false).run (.new bs))).2

/-- `outcome` is what the call and the read amount to. -/
theorem step_read_outcome (maxFrameSize : UInt32) (bs : Bytes) :
    ∃ s s', (start maxFrameSize).step .call = some (s, []) ∧ s.step (.read bs) = some (s', outcome bs) := by
  have hresults : ∀ (s t : FrameReader) (res : EStateM.Result Fault Buffer Round),
      (s.finish res).2 = (t.finish res).2 := by
    intro s t res
    rcases res with ⟨⟨h, b⟩ | fr, r⟩ | ⟨err, r⟩ <;> rfl
  rw [outcome, hresults (start 0) ⟨maxFrameSize, .new [], .loop ⟨0, 0, 0, 0⟩ false⟩]
  exact ⟨_, _, rfl, rfl⟩

/-- With this data offset, the extended header makes no difference to what is returned. -/
def Honours (dataOffset : UInt8) : Prop :=
  ∀ (frameType : UInt8) (channel : UInt16) (ext body : Bytes), ext.length + 8 = 4 * dataOffset.toNat →
    ext.length + body.length + 8 < 2 ^ 32 →
    outcome (onWire (UInt32.ofNat (ext.length + body.length + 8)) dataOffset frameType channel (ext ++ body)) =
      outcome (onWire (UInt32.ofNat (body.length + 8)) 2 frameType channel body)

/-- With this data offset, a frame that is too small for it is an error. -/
def Rejects (dataOffset : UInt8) : Prop :=
  ∀ (size : UInt32) (frameType : UInt8) (channel : UInt16) (payload : Bytes),
    size.toNat < 4 * dataOffset.toNat → ∃ err, outcome (onWire size dataOffset frameType channel payload) = [.error err]

/-- What a call makes of the header. -/
theorem outcome_eq (size : UInt32) (dataOffset frameType : UInt8) (channel : UInt16) (payload : Bytes) :
    outcome (onWire size dataOffset frameType channel payload) =
      ((start 0).finish ((parseHeader >>= readBody).run
        (.new (onWire size dataOffset frameType channel payload)))).2 := by
  have hlen : 8 ≤ (Buffer.new (onWire size dataOffset frameType channel payload)).unread.length := by
    show 8 ≤ (onWire size dataOffset frameType channel payload).length
    simp only [onWire, length_append, length_cons, length_be32, length_be16]
    omega
  rw [outcome, run_round_between hlen]

/-- A complete frame with a header of its own is what `readBody` makes of its payload. -/
theorem outcome_onWire {size : UInt32} (hsize : ¬ size < headerSize) (hoffset : ¬ dataOffset < 2)
    (frameType : UInt8) (channel : UInt16) (payload : Bytes) :
    outcome (onWire size dataOffset frameType channel payload) =
      ((start 0).finish ((readBody ⟨size, dataOffset, frameType, channel⟩).run
        ((Buffer.new (onWire size dataOffset frameType channel payload)).advance 8))).2 := by
  rw [outcome_eq, EStateM.run_bind, run_parseHeader (Nat.zero_le _) rfl, if_neg hsize, if_neg hoffset]

/-- A header that `parseHeader` refuses. -/
theorem outcome_malformed {size : UInt32} (h : size < headerSize ∨ dataOffset < 2) (frameType : UInt8)
    (channel : UInt16) (payload : Bytes) :
    ∃ err, outcome (onWire size dataOffset frameType channel payload) = [.error err] := by
  rw [outcome_eq, EStateM.run_bind, run_parseHeader (Nat.zero_le _) rfl]
  rcases h with hsize | hoffset
  · rw [if_pos hsize]
    exact ⟨_, rfl⟩
  · rw [if_pos hoffset]
    split_ifs <;> exact ⟨_, rfl⟩

/-- Two zeros are no descriptor. -/
theorem parseBody_zeros (rest : Bytes) : ∃ err r, parseBody.run (.new (0 :: 0 :: rest)) = .error err r := by
  refine ⟨.err "invalid frame body header", .new (0 :: 0 :: rest), ?_⟩
  have hbytes : Reads bytes [] (0 :: 0 :: rest) (0 :: 0 :: rest) := reads_bytes
  rw [parseBody, EStateM.run_bind, hbytes (.new (0 :: 0 :: rest)) (Nat.zero_le _) rfl]
  show (len >>= _).run (.new (0 :: 0 :: rest)) = _
  rw [run_len]
  split <;> rfl

/-- **The data offset is not looked at.** A complete frame is its whole payload, parsed. -/
theorem outcome_payload (hoffset : ¬ dataOffset < 2) (frameType : UInt8) (channel : UInt16)
    {payload : Bytes} (hne : payload ≠ []) (hmax : payload.length + 8 ≤ maxInt32.toNat) :
    outcome (onWire (UInt32.ofNat (payload.length + 8)) dataOffset frameType channel payload) =
      match parseBody.run (.new payload) with
      | .ok body _ => [.ok ⟨0, channel, body⟩]
      | .error err _ => [.error err] := by
  have hmax' : maxInt32.toNat = 2147483647 := rfl
  have hsize : (UInt32.ofNat (payload.length + 8)).toNat = payload.length + 8 := toNat_ofNat32 (by omega)
  have hle : headerSize ≤ UInt32.ofNat (payload.length + 8) := by
    rw [UInt32.le_iff_toNat_le, hsize]
    exact Nat.le_add_left 8 payload.length
  have hbody : (UInt32.ofNat (payload.length + 8) - headerSize).toNat = payload.length := by
    rw [UInt32.toNat_sub_of_le _ _ hle, hsize]
    exact Nat.add_sub_cancel ..
  have hlarge : ¬ UInt32.ofNat (payload.length + 8) > maxInt32 := by
    rw [gt_iff_lt, UInt32.lt_iff_toNat_lt, hsize]
    omega
  let r := (Buffer.new (onWire (UInt32.ofNat (payload.length + 8)) dataOffset frameType channel payload)).advance 8
  have hwf : r.WF := WF.advance (Nat.zero_le _) (by
    show 8 ≤ (onWire _ dataOffset frameType channel payload).length
    simp only [onWire, length_append, length_cons, length_be32, length_be16]
    omega)
  have hunread : r.unread = payload := rfl
  rw [outcome_onWire (UInt32.not_lt.mpr hle) hoffset, run_readBody hwf hlarge, hbody, hunread, take_length,
    if_neg (Nat.lt_irrefl _), if_neg (by simpa using hne)]
  cases parseBody.run (.new payload) <;> rfl

theorem honours_iff (hle : 2 ≤ dataOffset) : Honours dataOffset ↔ dataOffset = 2 := by
  have hoffset : ¬ dataOffset < 2 := UInt8.not_lt.mpr hle
  rw [UInt8.le_iff_toNat_le] at hle
  change 2 ≤ dataOffset.toNat at hle
  refine ⟨fun h => ?_, ?_⟩
  · by_contra hne
    have hgt : dataOffset.toNat ≠ 2 := fun heq => hne (UInt8.toNat_inj.mp heq)
    have hlt : dataOffset.toNat < 2 ^ 8 := dataOffset.toNat_lt
    have hmax : maxInt32.toNat = 2147483647 := rfl
    -- an extended header of zeros, before an end
    obtain ⟨k, hk⟩ : ∃ k, 4 * dataOffset.toNat - 8 = k + 2 := ⟨4 * dataOffset.toNat - 10, by omega⟩
    have hlen : (PerformEnd.encode ⟨none⟩).length = 4 := rfl
    have hsame := h 0 0 (replicate (k + 2) 0) (PerformEnd.encode ⟨none⟩)
      (by rw [length_replicate]; omega) (by rw [length_replicate, hlen]; omega)
    rw [← length_append, outcome_payload hoffset 0 0 (by simp) (by simp [hlen]; omega),
      outcome_payload (by decide) 0 0 (by simp [PerformEnd.encode, encodeComposite]) (by simp [hlen]; omega)] at hsame
    obtain ⟨r, hend⟩ := parseBody_end []
    obtain ⟨err, r', hzeros⟩ := parseBody_zeros (replicate k 0 ++ PerformEnd.encode ⟨none⟩)
    rw [List.append_nil] at hend
    rw [hend, replicate_succ, replicate_succ, cons_append, cons_append, hzeros] at hsame
    cases hsame
  · rintro rfl frameType channel ext body hext -
    have hnil : ext = [] := length_eq_zero_iff.mp (by
      rw [show (2 : UInt8).toNat = 2 from rfl] at hext
      omega)
    simp [hnil]

theorem rejects_iff (dataOffset : UInt8) : Rejects dataOffset ↔ dataOffset ≤ 2 := by
  rw [UInt8.le_iff_toNat_le]
  change _ ↔ dataOffset.toNat ≤ 2
  refine ⟨fun h => ?_, fun hle size frameType channel payload hlt => ?_⟩
  · by_contra hgt
    -- a header alone counts as a keep-alive
    obtain ⟨err, hreject⟩ := h 8 0 0 [] (by rw [show (8 : UInt32).toNat = 8 from rfl]; omega)
    have hoffset : ¬ dataOffset < 2 := by
      rw [UInt8.lt_iff_toNat_lt]
      change ¬ dataOffset.toNat < 2
      omega
    have hkeepAlive : outcome (onWire 8 dataOffset 0 0 []) = [] := by
      have hrun := run_frame (f := ⟨dataOffset, 0, 0, [], none, hoffset, by decide, rfl⟩)
        (r := .new (onWire 8 dataOffset 0 0 [])) (Nat.zero_le _) (List.append_nil _).symm
      rw [outcome_eq, hrun]
      rfl
    rw [hkeepAlive] at hreject
    cases hreject
  · refine outcome_malformed (.inl ?_) frameType channel payload
    rw [UInt32.lt_iff_toNat_lt]
    change size.toNat < 8
    omega

end FrameReader

open FrameReader

/-- **Extended headers are honoured only if there are none.** For every data offset that is allowed: the frame
    returned is always that of the body alone exactly if the data offset is 2, which leaves no room for an
    extended header; and a frame too small for its data offset is always rejected exactly if the data offset
    is 2. -/
theorem extendedHeader_honoured_iff (dataOffset : UInt8) (hle : 2 ≤ dataOffset) :
    (Honours dataOffset ↔ dataOffset = 2) ∧ (Rejects dataOffset ↔ dataOffset = 2) := by
  refine ⟨honours_iff hle, (rejects_iff dataOffset).trans ⟨fun hge => ?_, ?_⟩⟩
  · exact UInt8.le_antisymm hge hle
  · rintro rfl
    exact UInt8.le_refl 2

theorem extendedHeader_honoured_iff_two : Honours 2 ∧ Rejects 2 := by
  obtain ⟨hhonours, hrejects⟩ := extendedHeader_honoured_iff 2 (by decide)
  exact ⟨hhonours.mpr rfl, hrejects.mpr rfl⟩

/-- An end with an extended header of four bytes is an error, and a header that points past the end of its
    frame is a keep-alive. -/
theorem extendedHeader_misread :
    outcome (onWire 16 3 0 0 ([0, 0, 0, 0] ++ PerformEnd.encode ⟨none⟩)) =
      [.error (.err "invalid frame body header")] ∧
    outcome (onWire 12 2 0 0 (PerformEnd.encode ⟨none⟩)) = [.ok ⟨0, 0, .end_ ⟨none⟩⟩] ∧
    outcome (onWire 8 3 0 0 []) = [] := by
  refine ⟨rfl, ?_, rfl⟩
  obtain ⟨r, hend⟩ := parseBody_end []
  rw [List.append_nil] at hend
  have hpayload := outcome_payload (by decide : ¬ (2 : UInt8) < 2) 0 0
    (by simp [PerformEnd.encode, encodeComposite] : PerformEnd.encode ⟨none⟩ ≠ []) (by decide)
  rwa [hend] at hpayload

/-! ## The limit that is announced -/

theorem FrameReader.step_maxFrameSize (hstep : s.step i = some (s', results)) : s'.maxFrameSize = s.maxFrameSize := by
  have hfinish : ∀ res, (s.finish res).1.maxFrameSize = s.maxFrameSize := by
    intro res
    rcases res with ⟨⟨h, b⟩ | fr, r⟩ | ⟨err, r⟩ <;> rfl
  have hcases := step_cases hstep
  rw [show s' = (s', results).1 from rfl]
  generalize (s', results) = res at hcases ⊢
  cases hcases with
  | round h b hp hasks => exact hfinish _
  | read chunk h b hp hasks => exact hfinish _
  | _ => rfl

namespace Negotiation

variable {s s' : Negotiation} {events : List NegotiationEvent}

theorem takeHeader_maxFrameSize (pID : Proto) (rxBuf : Buffer) :
    (s.takeHeader pID rxBuf).1.reader.maxFrameSize = s.reader.maxFrameSize := by
  unfold takeHeader
  split
  · dsimp only
    split
    · rfl
    · split
      · unfold onHeader
        split <;> rfl
      · rfl
  · rfl

theorem write_maxFrameSize (limit : UInt32) (fr : Frame) (phase : NegotiationPhase) :
    (s.write limit fr phase).1.reader.maxFrameSize = s.reader.maxFrameSize := by
  unfold write
  split <;> rfl

theorem step_maxFrameSize {i : NegotiationInput} (h : s.step i = some (s', events)) :
    s'.reader.maxFrameSize = s.reader.maxFrameSize := by
  have hsize : ∀ {r : Negotiation × List NegotiationEvent}, some r = some (s', events) →
      s'.reader.maxFrameSize = r.1.reader.maxFrameSize := by
    rintro r heq
    cases heq
    rfl
  cases i with
  | go =>
    simp only [step] at h
    split at h
    · cases h
      rfl
    · split at h
      · cases h
        rfl
      · exact (hsize h).trans (takeHeader_maxFrameSize ..)
    · exact (hsize h).trans (write_maxFrameSize ..)
    · exact (hsize h).trans (write_maxFrameSize ..)
    · exact (hsize h).trans (write_maxFrameSize ..)
    · cases h
  | headerRead chunk =>
    simp only [step] at h
    split at h
    · split at h
      · exact (hsize h).trans (takeHeader_maxFrameSize ..)
      · cases h
        rfl
    · cases h
  | frame i =>
    simp only [step, frameStep, Option.ite_none_right_eq_some] at h
    obtain ⟨-, h⟩ := h
    obtain ⟨⟨reader, results⟩, hreader, heq⟩ := Option.map_eq_some_iff.mp h
    have hlimit := FrameReader.step_maxFrameSize hreader
    dsimp only at heq
    split at heq <;> cases heq <;> exact hlimit
  | _ =>
    simp only [step] at h
    split at h <;> cases h <;> rfl

/-- The open that a step writes announces the limit of the reader. -/
theorem open_maxFrameSize {i : NegotiationInput} (h : s.step i = some (s', events)) {o : PerformOpen}
    (hopen : .wroteFrame (.open_ o) ∈ events) : o.maxFrameSize = s.reader.maxFrameSize := by
  have hwrite : ∀ e phase, s.nextWrite = some (e, phase) → e = .wroteFrame (.open_ o) →
      o.maxFrameSize = s.reader.maxFrameSize := by
    rintro e phase hnext rfl
    unfold nextWrite at hnext
    split at hnext <;> cases hnext
    rfl
  have hturn := (step_cases h).turn
  generalize s'.saslComplete = complete at hturn
  generalize s'.phase = phase at hturn
  cases hturn with
  | wrote e phase hnext => exact hwrite e phase hnext (mem_singleton.mp hopen).symm
  | writeFailed e phase err hnext => exact hwrite e phase hnext (mem_singleton.mp hopen).symm
  | _ => simp at hopen

end Negotiation

/-- The limit stays what it was, so that every open of a run announces it. -/
theorem Negotiation.open_of_run {s₀ s : Negotiation} {trace : Trace NegotiationInput NegotiationEvent}
    (h : Run (Fires Negotiation.step) s₀ trace s) :
    s.reader.maxFrameSize = s₀.reader.maxFrameSize ∧
    ∀ x ∈ trace, ∀ o, .wroteFrame (.open_ o) ∈ x.2 → o.maxFrameSize = s₀.reader.maxFrameSize := by
  induction h with
  | start => exact ⟨rfl, fun x hx => by cases hx⟩
  | @step trace s s' l hrun hstep ih =>
    refine ⟨(step_maxFrameSize hstep).trans ih.1, forall_mem_cons.mpr ⟨fun o ho => ?_, ih.2⟩⟩
    exact (open_maxFrameSize hstep ho).trans ih.1

/-! ## Both limits -/

namespace FrameReader

/-- Every frame returned has a declared size of at most `limit`. -/
def Bounds (s₀ : FrameReader) (limit : UInt32) : Prop :=
  ∀ trace s, Run (Fires FrameReader.step) s₀ trace s → ∀ i s' fr, s.step i = some (s', [.ok fr]) →
    ∀ h, s.declared i = some h → h.size ≤ limit

/-- A greater declared size is an error as soon as the header is there. -/
def RejectsAbove (s₀ : FrameReader) (limit : UInt32) : Prop :=
  ∀ trace s, Run (Fires FrameReader.step) s₀ trace s → ∀ i s' results, s.step i = some (s', results) →
    ∀ h, s.declared i = some h → limit < h.size → ∃ err, results = [.error err]

theorem RejectsAbove.bounds {s₀ : FrameReader} (h : RejectsAbove s₀ limit) : Bounds s₀ limit := by
  intro trace s hrun i s' fr hstep k hk
  by_contra hgt
  obtain ⟨err, herr⟩ := h trace s hrun i s' _ hstep k hk (UInt32.not_le.mp hgt)
  cases herr

theorem rejectsAbove_of_le (hle : maxInt32 ≤ limit) : RejectsAbove (.start maxFrameSize) limit := by
  intro trace s hrun i s' results hstep h hh hgt
  exact step_tooLarge (inRange_of_run hrun) hstep hh (UInt32.lt_of_le_of_lt hle hgt)

/-- Up to 31 bits a frame is returned, whatever the limit is. -/
theorem le_of_bounds (hlimit : 12 ≤ limit.toNat) (h : Bounds (.start maxFrameSize) limit) : maxInt32 ≤ limit := by
  by_contra hgt
  rw [UInt32.not_le, UInt32.lt_iff_toNat_lt] at hgt
  -- a frame that is one byte too large
  have hsize := toNat_size_paddedEnd (n := limit.toNat + 1) (by omega) hgt
  obtain ⟨trace, s, s', hrun, hstep, hdeclared⟩ :=
    run_returns (f := paddedEnd (limit.toNat + 1) (by omega) hgt) rfl maxFrameSize
  have hle := h trace s hrun _ s' _ hstep _ hdeclared
  rw [UInt32.le_iff_toNat_le, hsize] at hle
  omega

end FrameReader

/-- **The limit is announced unless it is the least one, and not enforced.** For every limit that `newConn`
    takes: an open announces it exactly if it is not 512; frames returned keep to it, and greater ones are
    rejected with their header, in every run exactly if it is at least 2^31 - 1. -/
theorem maxFrameSize_enforced_iff {randString : Bytes} {opts : ConnOptions} {conn : Negotiation}
    (hconn : newConn randString (some opts) = .ok conn) (hmin : 512 ≤ opts.maxFrameSize) :
    (∀ trace s, Run (Fires Negotiation.step) conn trace s → ∀ x ∈ trace, ∀ o,
      .wroteFrame (.open_ o) ∈ x.2 → (o.maxFrameSize = opts.maxFrameSize ↔ opts.maxFrameSize ≠ 512)) ∧
    (Bounds conn.reader opts.maxFrameSize ↔ maxInt32 ≤ opts.maxFrameSize) ∧
    (RejectsAbove conn.reader opts.maxFrameSize ↔ maxInt32 ≤ opts.maxFrameSize) := by
  obtain ⟨maxFrameSize, saslHandlers, containerID, hsize, -, rfl⟩ := newConn_ok hconn
  have hmax := ConnOptions.maxFrameSizeOr_ok hsize hmin
  have hlow : 12 ≤ opts.maxFrameSize.toNat := by
    rw [UInt32.le_iff_toNat_le] at hmin
    exact Nat.le_trans (by decide) hmin
  refine ⟨fun trace s hrun x hx o ho => ?_, ⟨le_of_bounds hlow, fun hle => ?_⟩, ⟨fun h => ?_, rejectsAbove_of_le⟩⟩
  · have hannounced : o.maxFrameSize = maxFrameSize := (Negotiation.open_of_run hrun).2 x hx o ho
    rw [hannounced, hmax]
    by_cases heq : opts.maxFrameSize = 512
    · simp [heq, defaultMaxFrameSize]
    · simp [heq]
  · exact (rejectsAbove_of_le hle).bounds
  · exact le_of_bounds hlow h.bounds

theorem maxFrameSize_enforced_iff_greatest :
    ∃ conn, newConn [] (some { ConnOptions.zero with maxFrameSize := 4294967295 }) = .ok conn ∧
      Bounds conn.reader 4294967295 ∧ RejectsAbove conn.reader 4294967295 := by
  have hconn : newConn [] (some { ConnOptions.zero with maxFrameSize := 4294967295 }) = .ok _ := rfl
  obtain ⟨-, hbounds, hrejects⟩ := maxFrameSize_enforced_iff hconn (by decide)
  exact ⟨_, hconn, hbounds.mpr (by decide), hrejects.mpr (by decide)⟩

/-- The limits that the opens of a run have announced. -/
def announced (trace : Trace NegotiationInput NegotiationEvent) : List UInt32 :=
  (trace.flatMap Prod.snd).filterMap fun
    | .wroteFrame (.open_ o) => some o.maxFrameSize
    | _ => none

/-- With the least limit 65536 is announced, and with the limit 513 a frame of 514 bytes is returned. -/
theorem maxFrameSize_exceeded :
    ((newConn [] (some { ConnOptions.zero with maxFrameSize := 512 })).toOption.bind fun conn =>
      (exec Negotiation.step [] conn [.go, .go, .headerRead [0x41, 0x4d, 0x51, 0x50, 0, 1, 0, 0], .go]).map
        fun r => announced r.1) = some [65536] ∧
    ∃ conn trace s s' i fr h, newConn [] (some { ConnOptions.zero with maxFrameSize := 513 }) = .ok conn ∧
      Run (Fires FrameReader.step) conn.reader trace s ∧ s.step i = some (s', [.ok fr]) ∧
      s.declared i = some h ∧ h.size.toNat = 514 := by
  refine ⟨by decide +kernel, ?_⟩
  obtain ⟨trace, s, s', hrun, hstep, hdeclared⟩ := run_returns (f := paddedEnd 514 (by decide) (by decide)) rfl 513
  exact ⟨_, trace, s, s', _, _, _, rfl, hrun, hstep, hdeclared, toNat_size_paddedEnd (by decide) (by decide)⟩

end GoAmqp
