import GoAmqp.Conn.FrameStream
import GoAmqp.Conn.WriteFrame

set_option autoImplicit false

/-! # Frames do not depend on how the stream is cut

The peer sends a stream of frames; the network cuts it into reads of any size. `ReadInv` follows the
reader through the stream: what it has returned are the frames up to some point, and it has its place in the
rest of the stream from there. -/

namespace GoAmqp

open Lib Buffer List

/-- A frame on the wire: its header, a payload, and the body that is parsed from the payload, none for a
    keep-alive. -/
structure WireFrame where
  dataOffset : UInt8
  frameType : UInt8
  channel : UInt16
  payload : Bytes
  body : Option FrameBody
  offset_ok : ¬ dataOffset < 2
  size_ok : payload.length + 8 ≤ FrameReader.maxInt32.toNat
  parses : match body with
    | none => payload = []
    | some body => payload ≠ [] ∧ ∃ r, parseBody.run (.new payload) = .ok body r

variable {rest : List WireFrame} {f : WireFrame} {r : Buffer} {future : Bytes} {i : ReadInput}

namespace WireFrame

def header (f : WireFrame) : Header := ⟨UInt32.ofNat (f.payload.length + 8), f.dataOffset, f.frameType, f.channel⟩

def encodeHeader (f : WireFrame) : Bytes := be32 f.header.size ++ (f.dataOffset :: f.frameType :: be16 f.channel)

def encode (f : WireFrame) : Bytes := f.encodeHeader ++ f.payload

/-- What `readFrame` returns for the frame: nothing for a keep-alive. -/
def results (f : WireFrame) : List (Except Fault Frame) :=
  match f.body with
  | none => []
  | some body => [.ok ⟨0, f.channel, body⟩]

@[simp] theorem length_encodeHeader (f : WireFrame) : f.encodeHeader.length = 8 := rfl

@[simp] theorem length_encode (f : WireFrame) : f.encode.length = f.payload.length + 8 := by
  simp [encode, Nat.add_comm]

theorem toNat_size (f : WireFrame) : f.header.size.toNat = f.payload.length + 8 := by
  have hsize := f.size_ok
  have hmax : FrameReader.maxInt32.toNat = 2147483647 := rfl
  exact toNat_ofNat32 (by omega)

theorem size_le (f : WireFrame) : ¬ f.header.size > FrameReader.maxInt32 := by
  have hsize := f.size_ok
  rw [gt_iff_lt, UInt32.lt_iff_toNat_lt, toNat_size]
  omega

theorem bodySize (f : WireFrame) : (f.header.size - headerSize).toNat = f.payload.length := by
  have hle : headerSize ≤ f.header.size := by
    rw [UInt32.le_iff_toNat_le, toNat_size]
    show 8 ≤ f.payload.length + 8
    omega
  rw [UInt32.toNat_sub_of_le _ _ hle, toNat_size]
  exact Nat.add_sub_cancel ..

/-- The header is parsed. -/
theorem reads_header (f : WireFrame) (rest : Bytes) : Reads parseHeader f.encodeHeader rest f.header := by
  refine reads_parseHeader ?_ f.offset_ok
  rw [UInt32.lt_iff_toNat_lt, toNat_size]
  show ¬ f.payload.length + 8 < 8
  omega

end WireFrame

/-- The bytes of frames sent one after the other. -/
def streamOf (frames : List WireFrame) : Bytes := frames.flatMap WireFrame.encode

/-- What `readFrame` returns for the frames that are complete within the first `n` bytes of the
    stream. -/
def complete : List WireFrame → Nat → List (Except Fault Frame)
  | [], _ => []
  | f :: frames, n =>
    if f.encode.length ≤ n then f.results ++ complete frames (n - f.encode.length) else []

theorem complete_append (done rest : List WireFrame) (n : Nat) :
    complete (done ++ rest) ((streamOf done).length + n) = done.flatMap WireFrame.results ++ complete rest n := by
  induction done with
  | nil => simp [streamOf]
  | cons f done ih =>
    have hlen : (streamOf (f :: done)).length = f.encode.length + (streamOf done).length := by
      simp [streamOf]
    have hle : f.encode.length ≤ (streamOf (f :: done)).length + n := by omega
    have hsub : (streamOf (f :: done)).length + n - f.encode.length = (streamOf done).length + n := by omega
    rw [cons_append, complete, if_pos hle, hsub, ih]
    simp

theorem complete_eq_nil {n : Nat} (h : ∀ f rest', rest = f :: rest' → n < f.encode.length) :
    complete rest n = [] := by
  cases rest with
  | nil => rfl
  | cons f rest' =>
    have hlt := h f rest' rfl
    rw [complete, if_neg (by omega)]

/-- Everything has arrived. -/
theorem complete_streamOf (frames : List WireFrame) :
    complete frames (streamOf frames).length = frames.flatMap WireFrame.results := by
  have h := complete_append frames [] 0
  simpa [complete] using h

namespace FrameReader

/-! ## The frames of the stream -/

/-- `readFrame` with a whole frame in the buffer. -/
theorem run_frame {tail : Bytes} (hwf : r.WF) (hunread : r.unread = f.encode ++ tail) :
    (parseHeader >>= readBody).run r = match f.body with
      | none => .ok (.continue_ f.header false) (r.advance 8)
      | some body => .ok (.return_ ⟨0, f.channel, body⟩) ((r.advance 8).advance f.payload.length) := by
  rw [WireFrame.encode, append_assoc] at hunread
  have hle : 8 ≤ r.unread.length := by simp [hunread]
  have hpayload : (r.advance 8).unread = f.payload ++ tail := by
    rw [unread_advance, hunread]
    rfl
  rw [EStateM.run_bind, f.reads_header _ r hwf hunread]
  show (readBody f.header).run (r.advance 8) = _
  rw [run_readBody (hwf.advance hle) f.size_le, f.bodySize, hpayload, if_neg (by simp), take_left]
  have hparses := f.parses
  cases hbody : f.body with
  | none =>
    rw [hbody] at hparses
    rw [if_pos (by simpa using hparses)]
  | some body =>
    simp only [hbody] at hparses
    obtain ⟨hne, r', hrun⟩ := hparses
    rw [if_neg (by simpa using hne), hrun]
    rfl

theorem frameOf_encode (f : WireFrame) (tail : Bytes) :
    frameOf (f.encode ++ tail) = some (f.results.head?, tail) := by
  have hlen : ¬ (f.encode ++ tail).length < 8 := by
    rw [length_append, f.length_encode]
    omega
  have hdrop : ((Buffer.new (f.encode ++ tail)).advance 8).unread = f.payload ++ tail := rfl
  have hparses := f.parses
  rw [frameOf, if_neg hlen, run_frame (Nat.zero_le _) rfl, WireFrame.results]
  cases hbody : f.body with
  | none =>
    rw [hbody] at hparses
    simp only [hdrop, hparses]
    rfl
  | some body =>
    simp only [unread_advance (Buffer.advance _ 8), hdrop, drop_left]
    rfl

/-- The next frame of a stream of frames. -/
theorem frameOf_streamOf {x : Option (Except Fault Frame)} {bs : Bytes} (h : frameOf (streamOf rest) = some (x, bs)) :
    ∃ f rest', rest = f :: rest' ∧ x.toList = f.results ∧ bs = streamOf rest' := by
  cases rest with
  | nil => cases h
  | cons f rest' =>
    rw [streamOf, flatMap_cons, frameOf_encode] at h
    cases h
    refine ⟨f, rest', rfl, ?_, rfl⟩
    unfold WireFrame.results
    cases f.body <;> rfl

/-! ## The history of a run -/

/-- The bytes that the reads have brought. -/
def received : Trace ReadInput (Except Fault Frame) → Bytes
  | [] => []
  | (.read chunk, _) :: trace => received trace ++ chunk
  | _ :: trace => received trace

/-- What the calls have returned. -/
def returned : Trace ReadInput (Except Fault Frame) → List (Except Fault Frame)
  | [] => []
  | (_, results) :: trace => returned trace ++ results

theorem received_cons (results : List (Except Fault Frame)) (trace : Trace ReadInput (Except Fault Frame)) :
    received ((i, results) :: trace) = received trace ++ chunk i := by
  cases i <;> simp [received, chunk]

/-- The reader has gone through some of the frames, and has returned them. -/
def ReadInv (frames : List WireFrame) (trace : Trace ReadInput (Except Fault Frame))
    (s : FrameReader) : Prop :=
  ∀ future, received trace ++ future = streamOf frames →
    ∃ done rest, frames = done ++ rest ∧ returned trace = done.flatMap WireFrame.results ∧
      Place True (streamOf rest) future s.rxBuf s.phase

variable {frames : List WireFrame} {trace : Trace ReadInput (Except Fault Frame)}
  {s : FrameReader}

theorem readInv_start (maxFrameSize : UInt32) : ReadInv frames [] (start maxFrameSize) := by
  intro future hstream
  exact ⟨[], frames, rfl, rfl, .idle (Nat.le_refl 0) hstream⟩

theorem readInv_step {s' : FrameReader} {l : ReadInput × List (Except Fault Frame)} (h : ReadInv frames trace s)
    (hstep : Fires step s l s') (hguard : Completes s l.1) : ReadInv frames (l :: trace) s' := by
  obtain ⟨i, results⟩ := l
  intro future hstream
  rw [received_cons, append_assoc] at hstream
  obtain ⟨done, rest, hframes, hreturned, hplace⟩ := h _ hstream
  have hprogress := progress_step hplace hstep (fun err hi => by rw [hi] at hguard; exact hguard) fun _ => hguard
  cases hprogress with
  | waits _ hplace' => exact ⟨done, rest, hframes, by rw [returned, hreturned, List.append_nil], hplace'⟩
  | took _ x bs' hof _ hplace' =>
    obtain ⟨f, rest', rfl, hresults, rfl⟩ := frameOf_streamOf hof
    refine ⟨done ++ [f], rest', by simp [hframes], ?_, hplace' fun err herr => ?_⟩
    · show returned trace ++ x.toList = _
      rw [hreturned, hresults]
      simp
    · -- a frame of the stream is not an error
      rw [herr, WireFrame.results] at hresults
      split at hresults <;> simp at hresults

/-! ## Reads are needed, and the reader gets to them -/

/-- **A reader that asks has returned every complete frame.** -/
theorem returned_of_asks (h : ReadInv frames trace s) (hasks : s.asks = true)
    (hstream : received trace ++ future = streamOf frames) :
    returned trace = complete frames (received trace).length := by
  obtain ⟨done, rest, rfl, hreturned, hplace⟩ := h future hstream
  -- what has been received is what has been passed, and then less than a frame
  obtain ⟨tail, htail, hlacks⟩ := lacks_of_asks hplace hasks
  have hreceived : received trace = streamOf done ++ tail := by
    rw [streamOf, flatMap_append, ← streamOf, ← streamOf, ← htail, ← append_assoc] at hstream
    exact append_cancel_right hstream
  have hshort : ∀ f rest', rest = f :: rest' → tail.length < f.encode.length := by
    rintro f rest' rfl
    by_contra hle
    obtain ⟨more, hmore⟩ : f.encode <+: tail := prefix_of_prefix_length_le ⟨_, rfl⟩ ⟨future, htail⟩ (by omega)
    rw [← hmore, frameOf_encode] at hlacks
    cases hlacks
  rw [hreceived, length_append, complete_append, complete_eq_nil hshort, List.append_nil, hreturned]

/-- The reader's own steps. -/
def Own (i : ReadInput) : Prop := i = .call ∨ i = .round

theorem completes_own (h : Own i) : Completes s i := by
  rcases h with rfl | rfl <;> trivial

theorem received_own (trace : Trace ReadInput (Except Fault Frame)) (results : List (Except Fault Frame))
    (h : Own i) : received ((i, results) :: trace) = received trace := by
  rcases h with rfl | rfl <;> rfl

/-- How much the reader can still do by itself. -/
def work (s : FrameReader) : Nat := 2 * s.rxBuf.unread.length + match s.phase with | .idle => 1 | .loop _ _ => 0

theorem work_le (s : FrameReader) : s.work ≤ 2 * s.rxBuf.unread.length + 1 := by
  unfold work
  split <;> omega

/-- A reader that does not ask makes a step of its own, and has less to do then. -/
theorem own_step (h : ReadInv frames trace s) (hasks : s.asks = false)
    (hstream : received trace ++ future = streamOf frames) :
    ∃ i s' results, Own i ∧ s.step i = some (s', results) ∧ s'.work < s.work := by
  obtain ⟨done, rest, -, -, hplace⟩ := h future hstream
  have hwf := hplace.wf
  cases hphase : s.phase with
  | idle =>
    refine ⟨.call, _, [], .inl rfl, by simp only [step, hphase]; rfl, ?_⟩
    simp [work, hphase, (unread_reuse hwf).2]
  | loop hd b =>
    have hasks' := hasks
    simp only [asks, hphase, Bool.or_eq_false_iff, decide_eq_false_iff_not] at hasks'
    obtain ⟨rfl, hlen⟩ := hasks'
    rw [← length_unread] at hlen
    have hlen' : 8 ≤ s.rxBuf.unread.length := by simpa [headerSize] using hlen
    have hle := length_finish_le (s := s) (h := hd) hwf hlen'
    have hwork := work_le (s.finish ((round hd false).run s.rxBuf)).1
    refine ⟨.round, _, _, .inr rfl, by simp only [step, hphase, hasks]; rfl, ?_⟩
    calc (s.finish ((round hd false).run s.rxBuf)).1.work
        ≤ 2 * (s.rxBuf.unread.length - 8) + 1 := by omega
      _ < 2 * s.rxBuf.unread.length := by omega
      _ = s.work := by simp [work, hphase]

/-- **The reader comes to ask.** By its own steps it goes on until it needs more bytes. -/
theorem reaches_asks {maxFrameSize : UInt32}
    (hrun : RunIf (Fires step) (fun _ s l => Completes s l.1) (start maxFrameSize) trace s)
    (hstream : received trace ++ future = streamOf frames) :
    ∃ inputs trace' s', (∀ i ∈ inputs, Own i) ∧ exec step trace s inputs = some (trace', s') ∧
      RunIf (Fires step) (fun _ s l => Completes s l.1) (start maxFrameSize) trace' s' ∧
      received trace' = received trace ∧ s'.asks = true := by
  induction hwork : s.work using Nat.strongRecOn generalizing trace s with
  | _ n ih =>
    cases hasks : s.asks with
    | true => exact ⟨[], trace, s, by simp, rfl, hrun, rfl, hasks⟩
    | false =>
      have hinv := hrun.invariant (P := ReadInv frames) (readInv_start maxFrameSize)
        (fun _ _ _ _ h hs hg => readInv_step h hs hg)
      obtain ⟨i, s', results, hown, hstep, hlt⟩ := own_step hinv hasks hstream
      have hreceived := received_own trace results hown
      obtain ⟨inputs, trace', s₂, hinputs, hexec, hrun', hrec, hasks'⟩ :=
        ih s'.work (hwork ▸ hlt) (hrun.fire i hstep (completes_own hown)) (by rw [hreceived, hstream]) rfl
      refine ⟨i :: inputs, trace', s₂, ?_, ?_, hrun', hrec.trans hreceived, hasks'⟩
      · intro j hj
        rcases mem_cons.1 hj with rfl | hj
        · exact hown
        · exact hinputs j hj
      · simp only [exec, hstep]
        exact hexec

end FrameReader

open FrameReader

/-- **Frames do not depend on how the stream is cut.** For every stream of frames and every way of
    cutting it into reads, such that a read that completes the body of a frame in progress leaves eight
    bytes in the buffer: the reader asks for more bytes only when it has returned every frame that is
    complete in what it has received, keep-alives apart; by its own steps it gets there; and so, once
    the whole stream has been received, it has returned exactly the frames of the stream. -/
theorem readFrame_returns_stream {maxFrameSize : UInt32} {frames : List WireFrame}
    {trace : Trace ReadInput (Except Fault Frame)} {s : FrameReader} {future : Bytes}
    (hrun : RunIf (Fires FrameReader.step) (fun _ s l => Completes s l.1)
      (.start maxFrameSize) trace s)
    (hstream : received trace ++ future = streamOf frames) :
    (s.asks = true → returned trace = complete frames (received trace).length) ∧
    ∃ inputs trace' s', (∀ i ∈ inputs, i = .call ∨ i = .round) ∧
      exec FrameReader.step trace s inputs = some (trace', s') ∧ s'.asks = true ∧
      returned trace' = complete frames (received trace).length ∧
      (future = [] → returned trace' = frames.flatMap WireFrame.results) := by
  have hinv : ∀ {trace' s'}, RunIf (Fires FrameReader.step) (fun _ s l => Completes s l.1)
      (.start maxFrameSize) trace' s' → ReadInv frames trace' s' := by
    intro trace' s' hrun'
    exact hrun'.invariant (readInv_start maxFrameSize)
      (fun _ _ _ _ h hs hg => readInv_step h hs hg)
  constructor
  · intro hasks
    exact returned_of_asks (hinv hrun) hasks hstream
  · obtain ⟨inputs, trace', s', hown, hexec, hrun', hreceived, hasks⟩ := reaches_asks hrun hstream
    have hreturned := returned_of_asks (hinv hrun') hasks (by rw [hreceived, hstream])
    rw [hreceived] at hreturned
    refine ⟨inputs, trace', s', hown, hexec, hasks, hreturned, ?_⟩
    intro hend
    rw [hend, List.append_nil] at hstream
    rw [hreturned, hstream, complete_streamOf]

namespace WireFrame

/-- An end without an error: its body has four bytes. -/
def endFrame : WireFrame where
  dataOffset := 2
  frameType := 0
  channel := 0
  payload := [0x00, 0x53, 0x17, 0x45]
  body := some (.end_ ⟨none⟩)
  offset_ok := by decide
  size_ok := by decide
  parses := ⟨by decide, _, rfl⟩

end WireFrame

namespace FrameReader

/-- Every read leaves eight bytes in the buffer. -/
def fills (s : FrameReader) : ReadInput → Bool
  | .readErr _ => false
  | .read chunk => headerSize.toNat ≤ (s.rxBuf.unread ++ chunk).length
  | _ => true

theorem completes_of_fills {s : FrameReader} (h : s.fills i = true) : Completes s i := by
  cases i with
  | read chunk => exact fun _ _ _ => of_decide_eq_true h
  | readErr err => cases h
  | call | round => trivial

/-- Three end frames, cut within the first two: a header, then the body and the next header, then that
    header's body and the last frame. -/
theorem run_cutFrames : ∃ trace s, RunIf (Fires step) (fun _ s l => Completes s l.1) (start 512) trace s ∧
    received trace = streamOf [.endFrame, .endFrame, .endFrame] :=
  ⟨_, _, .of_execIf (fun _ s i _ (h : s.fills i = true) => completes_of_fills h)
    [.call, .read WireFrame.endFrame.encodeHeader,
      .read (WireFrame.endFrame.payload ++ WireFrame.endFrame.encodeHeader), .call, .round,
      .read (WireFrame.endFrame.payload ++ WireFrame.endFrame.encode)] .start rfl, rfl⟩

end FrameReader

theorem readFrame_returns_stream_end : ∃ trace s inputs trace' s',
    RunIf (Fires FrameReader.step) (fun _ s l => Completes s l.1) (.start 512) trace s ∧
    received trace = streamOf [.endFrame, .endFrame, .endFrame] ∧
    exec FrameReader.step trace s inputs = some (trace', s') ∧
    returned trace' = replicate 3 (.ok ⟨0, 0, .end_ ⟨none⟩⟩) := by
  obtain ⟨trace, s, hrun, hreceived⟩ := run_cutFrames
  obtain ⟨-, inputs, trace', s', -, hexec, -, -, hreturned⟩ :=
    readFrame_returns_stream hrun ((List.append_nil _).trans hreceived)
  exact ⟨trace, s, inputs, trace', s', hrun, hreceived, hexec, hreturned rfl⟩

/-- The header of the end frame arrives first, and then its body: the frame is complete, and the reader
    asks for more bytes. -/
theorem readFrame_asks_too_much : ∃ trace s, RunIf (Fires FrameReader.step) (fun _ _ _ => True) (.start 512) trace s ∧
    received trace = streamOf [.endFrame] ∧ s.asks = true ∧
    returned trace = [] := by
  have hcall := (RunIf.start (R := Fires FrameReader.step)
    (G := fun _ _ _ => True)).fire .call (rfl : (start 512).step _ = _) trivial
  have hheader := hcall.fire (.read WireFrame.endFrame.encodeHeader) rfl trivial
  have hbody := hheader.fire (.read WireFrame.endFrame.payload) rfl trivial
  exact ⟨_, _, hbody, rfl, rfl, rfl⟩

/-! ## Writer and reader -/

namespace FrameReader

/-- A frame stands in the stream with its body in normal form. -/
theorem exists_wireFrame {fr : Frame} (hbody : fr.body.codable = true) (hlen : fr.encode.length ≤ maxInt32.toNat) :
    ∃ f : WireFrame, f.encode = fr.encode ∧ f.results = [.ok ⟨0, fr.channel, fr.body.norm⟩] := by
  have hmax : maxInt32.toNat = 2147483647 := rfl
  have hsplit := fr.body.length_split_le
  rw [fr.length_encode] at hlen
  have hparse := reads_body hbody (by omega) (.new fr.body.encode) (Nat.zero_le _) fr.body.split_append.symm
  refine ⟨⟨2, fr.type_, fr.channel, fr.body.encode, some fr.body.norm, by decide, hlen, ?_, _, hparse⟩, rfl, rfl⟩
  -- an empty payload is not parsed
  intro hnil
  rw [hnil] at hparse
  cases hparse

theorem exists_wireFrames {frs : List Frame}
    (h : ∀ fr ∈ frs, fr.body.codable = true ∧ fr.encode.length ≤ maxInt32.toNat) :
    ∃ fs, streamOf fs = frs.flatMap Frame.encode ∧
      fs.flatMap WireFrame.results = frs.map fun fr => .ok ⟨0, fr.channel, fr.body.norm⟩ := by
  induction frs with
  | nil => exact ⟨[], rfl, rfl⟩
  | cons fr frs ih =>
    obtain ⟨⟨hbody, hlen⟩, hrest⟩ := forall_mem_cons.mp h
    obtain ⟨f, hencode, hresults⟩ := exists_wireFrame hbody hlen
    obtain ⟨fs, hstream, hall⟩ := ih hrest
    refine ⟨f :: fs, ?_, by simp [hresults, hall]⟩
    rw [flatMap_cons, ← hstream, ← hencode]
    rfl

/-- **Frames cross the network.** Frames are written if they fit; however the network cuts their bytes, as long
    as a read that completes a body leaves eight bytes in the buffer, a reader that asks for more has returned
    exactly these frames, in their order, each with its channel and its body in normal form. -/
theorem frames_cross_network (frs : List Frame)
    (h : ∀ fr ∈ frs, fr.body.codable = true ∧ fr.encode.length ≤ maxInt32.toNat) {maxFrameSize : UInt32}
    {trace : Trace ReadInput (Except Fault Frame)} {s : FrameReader}
    (hrun : RunIf (Fires step) (fun _ s l => Completes s l.1) (start maxFrameSize) trace s)
    (hreceived : received trace = frs.flatMap Frame.encode) (hasks : s.asks = true) :
    (∀ fr ∈ frs, ∀ (max : UInt32) tx, fr.encode.length ≤ max.toNat →
      ∃ tx', (writeFrame max fr).run tx = .ok fr.encode tx') ∧
    returned trace = frs.map fun fr => .ok ⟨0, fr.channel, fr.body.norm⟩ := by
  constructor
  · intro fr hfr max tx hle
    have hsplit := fr.body.length_split_le
    have hlength := fr.length_encode
    have hlt := max.toNat_lt
    have hwrite := run_write (writes_body (h fr hfr).1 (by omega))
    rw [if_neg (by omega)] at hwrite
    exact ⟨_, (run_writeFrame_written hwrite).trans (if_neg (by omega))⟩
  · obtain ⟨fs, hstream, hall⟩ := exists_wireFrames h
    have hinv := hrun.invariant (P := ReadInv fs) (readInv_start maxFrameSize)
      fun _ _ _ _ h hs hg => readInv_step h hs hg
    rw [← hstream] at hreceived
    -- nothing of the stream is still to come
    rw [returned_of_asks hinv hasks (by rw [List.append_nil, hreceived]), hreceived, complete_streamOf, hall]

/-- Three ends, cut within the first two. -/
theorem frames_cross_network_end : ∃ trace s,
    RunIf (Fires step) (fun _ s l => Completes s l.1) (start 512) trace s ∧
      received trace = streamOf [.endFrame, .endFrame, .endFrame] ∧
      returned trace = replicate 3 (.ok ⟨0, 0, .end_ ⟨none⟩⟩) := by
  obtain ⟨_, _, hcut, hstream⟩ := run_cutFrames
  obtain ⟨_, trace, s, -, -, hrun, hreceived, hasks⟩ := reaches_asks hcut ((List.append_nil _).trans hstream)
  rw [hstream] at hreceived
  exact ⟨trace, s, hrun, hreceived, (frames_cross_network (replicate 3 ⟨0, 0, .end_ ⟨none⟩⟩) (by decide) hrun
    hreceived hasks).2⟩

end FrameReader

end GoAmqp
