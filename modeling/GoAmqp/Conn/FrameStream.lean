import GoAmqp.Conn.ReadFrame

set_option autoImplicit false

/-! # The next frame of a stream

The peer sends a stream of bytes; the network cuts it into reads of any size. `frameOf` is `readFrame` with
the rest of the stream at hand. `Place` ties the buffer of a reader, and the bytes that are still to come, to
the rest of the stream, without the header if the reader is in the middle of a frame. A step of the reader
keeps to it: `progress_step`.

A reader in the middle of a frame asks for more bytes as long as fewer than eight are buffered, even if
the frame is complete by then. `Completes` says that this does not happen. -/

namespace GoAmqp

open Lib Buffer EStateM
open List hiding append_nil

variable {future bs : Bytes} {r : Buffer} {c : Prop} {h : Header} {b : Bool}

theorem Buffer.run_next {n : Nat} (hwf : r.WF) (hn : n ≤ r.unread.length) :
    (next n).run r = .ok (r.unread.take n, true) (r.advance n) := by
  have hrun := reads_next (r.unread.take n) r hwf (take_append_drop ..).symm
  rwa [length_take_of_le hn] at hrun

namespace FrameReader

/-! ## Rounds -/

theorem run_len {α : Type} (f : Nat → BufM α) (r : Buffer) : (len >>= f).run r = (f r.unread.length).run r := by
  rw [length_unread]
  rfl

/-- A round with fewer than eight bytes does nothing. -/
theorem run_round_short (hlen : r.unread.length < 8) : (round h b).run r = .ok (.continue_ h b) r := by
  rw [round, run_len, if_pos (by simpa [headerSize] using hlen)]
  rfl

/-- A round inside a frame. -/
theorem run_round_within (hlen : 8 ≤ r.unread.length) : (round h true).run r = (readBody h).run r := by
  have hlen' : ¬ r.unread.length < headerSize.toNat := by simpa [headerSize] using hlen
  rw [round, run_len, if_neg hlen']
  rfl

/-- A round between two frames starts with the header. -/
theorem run_round_between (hlen : 8 ≤ r.unread.length) :
    (round h false).run r = (parseHeader >>= readBody).run r := by
  have hlen' : ¬ r.unread.length < headerSize.toNat := by simpa [headerSize] using hlen
  rw [round, run_len, if_neg hlen']
  rfl

theorem run_readBody_tooLarge (hsize : h.size > maxInt32) (r : Buffer) :
    (readBody h).run r = .error (.err "payload too large") r := by
  rw [readBody, if_pos hsize]
  rfl

theorem run_readBody (hwf : r.WF) (hsize : ¬ h.size > maxInt32) :
    (readBody h).run r =
      if r.unread.length < (h.size - headerSize).toNat then .ok (.continue_ h true) r
      else if (h.size - headerSize).toNat = 0 then .ok (.continue_ h false) r
      else match parseBody.run (.new (r.unread.take (h.size - headerSize).toNat)) with
        | .ok body _ => .ok (.return_ ⟨0, h.channel, body⟩) (r.advance (h.size - headerSize).toNat)
        | .error err _ => .error err (r.advance (h.size - headerSize).toNat) := by
  rw [readBody, if_neg hsize, run_len]
  split_ifs with hshort hzero
  · rfl
  · rfl
  · rw [run_bind, run_next hwf (Nat.not_lt.mp hshort)]
    simp only [Bool.not_true, Bool.false_eq_true, if_false, parsePayload]
    cases parseBody.run (.new (r.unread.take (h.size - headerSize).toNat)) <;> rfl

/-- `parseHeader` looks at eight bytes. -/
theorem parseHeader_cases (hlen : 8 ≤ r.unread.length) :
    (∃ h, ∀ t : Buffer, t.WF → t.unread.take 8 = r.unread.take 8 → parseHeader.run t = .ok h (t.advance 8)) ∨
    ∃ err, ∀ t : Buffer, t.WF → t.unread.take 8 = r.unread.take 8 → parseHeader.run t = .error err (t.advance 8) := by
  have hlength : (r.unread.take 8).length = 8 := length_take_of_le hlen
  generalize r.unread.take 8 = buf at hlength ⊢
  obtain ⟨fh, hof⟩ : ∃ fh, Header.ofBytes buf = pure fh := by
    match buf, hlength with
    | [_, _, _, _, _, _, _, _], _ => exact ⟨_, rfl⟩
  have hrun : ∀ t : Buffer, t.WF → t.unread.take 8 = buf → parseHeader.run t =
      run (if fh.size < headerSize then fail (s!"received frame header with invalid size {fh.size.toNat}")
        else if fh.dataOffset < 2 then
          fail (s!"received frame header with invalid data offset {fh.dataOffset.toNat}")
        else pure fh : BufM Header) (t.advance 8) := by
    intro t hwf htake
    have hle : 8 ≤ t.unread.length := by
      rw [← htake, length_take] at hlength
      omega
    rw [parseHeader, run_bind, run_next hwf hle, htake]
    show (Header.ofBytes buf >>= _).run (t.advance 8) = _
    rw [hof]
    rfl
  by_cases hsize : fh.size < headerSize
  · exact .inr ⟨_, fun t hwf htake => by rw [hrun t hwf htake, if_pos hsize]; rfl⟩
  by_cases hoffset : fh.dataOffset < 2
  · exact .inr ⟨_, fun t hwf htake => by rw [hrun t hwf htake, if_neg hsize, if_pos hoffset]; rfl⟩
  · exact .inl ⟨fh, fun t hwf htake => by rw [hrun t hwf htake, if_neg hsize, if_neg hoffset]; rfl⟩

/-! ## The reader's place in the stream -/

/-- `readFrame` with the rest of the stream at hand: what it makes of the next frame, nothing for a keep-alive,
    and what follows the frame. Without a complete frame there is no result. -/
def frameOf (bs : Bytes) : Option (Option (Except Fault Frame) × Bytes) :=
  if bs.length < 8 then none
  else
    match (parseHeader >>= readBody).run (.new bs) with
    | .ok (.continue_ _ true) _ => none
    | .ok (.continue_ _ false) t => some (none, t.unread)
    | .ok (.return_ fr) t => some (some (.ok fr), t.unread)
    | .error err t => some (some (.error err), t.unread)

/-- Where the reader stands in the rest `bs` of the stream. In the middle of a frame the header has been taken
    from it. If `c` holds, the reader asks only for what the frame lacks. -/
inductive Place (c : Prop) (bs future : Bytes) (r : Buffer) : ReadPhase → Prop
  | idle : r.WF → r.unread ++ future = bs → Place c bs future r .idle
  | between (h : Header) : r.WF → r.unread ++ future = bs → Place c bs future r (.loop h false)
  | within (h : Header) : 8 ≤ bs.length → parseHeader.run (.new bs) = .ok h ((Buffer.new bs).advance 8) →
      r.WF → r.unread ++ future = bs.drop 8 → ¬ h.size > maxInt32 →
      (c → r.unread.length < (h.size - headerSize).toNat) → Place c bs future r (.loop h true)

/-- The reader still waits, or has come to the end of the next frame. After an error it does not go on. -/
inductive Progress (c : Prop) (bs future : Bytes) : FrameReader × List (Except Fault Frame) → Prop
  | waits (s : FrameReader) : Place c bs future s.rxBuf s.phase → Progress c bs future (s, [])
  | took (s : FrameReader) (x : Option (Except Fault Frame)) (bs' : Bytes) : frameOf bs = some (x, bs') →
      (x ≠ none → s.phase = .idle) → ((∀ err, x ≠ some (.error err)) → Place c bs' future s.rxBuf s.phase) →
      Progress c bs future (s, x.toList)

variable {s : FrameReader}

/-- A round that has the header. -/
theorem progress_readBody (hlen : 8 ≤ bs.length)
    (hheader : parseHeader.run (.new bs) = .ok h ((Buffer.new bs).advance 8)) (hwf : r.WF)
    (hbs : r.unread ++ future = bs.drop 8) : Progress c bs future (s.finish ((readBody h).run r)) := by
  have hof : frameOf bs = _ := if_neg (Nat.not_lt.mpr hlen)
  have hunread : ((Buffer.new bs).advance 8).unread = r.unread ++ future := hbs.symm
  rw [run_bind, hheader] at hof
  dsimp only at hof
  by_cases hsize : h.size > maxInt32
  · rw [run_readBody_tooLarge hsize] at hof ⊢
    exact .took _ _ _ hof (fun _ => rfl) fun hno => absurd rfl (hno _)
  rw [run_readBody (WF.advance (Nat.zero_le _) hlen) hsize, hunread] at hof
  rw [run_readBody hwf hsize]
  by_cases hshort : r.unread.length < (h.size - headerSize).toNat
  · rw [if_pos hshort]
    exact .waits _ (.within h hlen hheader hwf hbs hsize fun _ => hshort)
  have hle := Nat.not_lt.mp hshort
  rw [if_neg (by rw [length_append]; omega), take_append_of_le_length hle] at hof
  rw [if_neg hshort]
  split_ifs at hof ⊢ with hzero
  · dsimp only at hof
    rw [hunread] at hof
    exact .took _ none _ hof (fun hne => absurd rfl hne) fun _ => .between h hwf rfl
  · have hdrop : (((Buffer.new bs).advance 8).advance (h.size - headerSize).toNat).unread =
        (r.advance (h.size - headerSize).toNat).unread ++ future := by
      rw [unread_advance, hunread, drop_append_of_le_length hle, unread_advance]
    cases hparse : parseBody.run (.new (r.unread.take (h.size - headerSize).toNat)) with
    | ok body _ =>
      simp only [hparse, hdrop] at hof ⊢
      exact .took _ (some (.ok _)) _ hof (fun _ => rfl) fun _ => .idle (hwf.advance hle) rfl
    | error err _ =>
      simp only [hparse] at hof ⊢
      exact .took _ (some (.error err)) _ hof (fun _ => rfl) fun hno => absurd rfl (hno err)

/-- **Step lemma for a round**, with the buffer as it is after the read at its head. -/
theorem progress_round (hplace : Place False bs future r (.loop h b))
    (hc : c → b = true → (h.size - headerSize).toNat ≤ r.unread.length → 8 ≤ r.unread.length) :
    Progress c bs future (s.finish ((round h b).run r)) := by
  by_cases hshort : r.unread.length < 8
  · rw [run_round_short hshort]
    cases hplace with
    | between _ hwf hbs => exact .waits _ (.between h hwf hbs)
    | within _ hlen hheader hwf hbs hsize _ =>
      refine .waits _ (.within h hlen hheader hwf hbs hsize fun hcond => ?_)
      have hlong := hc hcond rfl
      show r.unread.length < _
      omega
  · have hlong := Nat.not_lt.mp hshort
    cases hplace with
    | within _ hlen hheader hwf hbs _ _ =>
      rw [run_round_within hlong]
      exact progress_readBody hlen hheader hwf hbs
    | between _ hwf hbs =>
      have hlen : 8 ≤ bs.length := by
        rw [← hbs, length_append]
        omega
      have htake : (Buffer.new bs).unread.take 8 = r.unread.take 8 := by
        show bs.take 8 = _
        rw [← hbs, take_append_of_le_length hlong]
      rw [run_round_between hlong, run_bind]
      rcases parseHeader_cases hlong with ⟨k, hk⟩ | ⟨err, herr⟩
      · rw [hk r hwf rfl]
        refine progress_readBody hlen (hk _ (Nat.zero_le _) htake) (hwf.advance hlong) ?_
        rw [unread_advance, ← hbs, drop_append_of_le_length hlong]
      · have hof : frameOf bs = _ := if_neg (Nat.not_lt.mpr hlen)
        rw [run_bind, herr _ (Nat.zero_le _) htake] at hof
        rw [herr r hwf rfl]
        exact .took _ (some (.error err)) _ hof (fun _ => rfl) fun hno => absurd rfl (hno err)

/-- A round between two frames takes at least the header. -/
theorem length_finish_le (hwf : r.WF) (hlen : 8 ≤ r.unread.length) :
    (s.finish ((round h false).run r)).1.rxBuf.unread.length ≤ r.unread.length - 8 := by
  have hadvance : (r.advance 8).unread.length = r.unread.length - 8 := by rw [unread_advance, length_drop]
  rw [run_round_between hlen, run_bind]
  rcases parseHeader_cases hlen with ⟨k, hk⟩ | ⟨err, herr⟩
  · rw [hk r hwf rfl, ← hadvance]
    dsimp only
    by_cases hsize : k.size > maxInt32
    · rw [run_readBody_tooLarge hsize]
      exact Nat.le_refl _
    · rw [run_readBody (hwf.advance hlen) hsize]
      split_ifs
      · exact Nat.le_refl _
      · exact Nat.le_refl _
      · split <;> simp only [finish, unread_advance (Buffer.advance r 8), length_drop] <;> omega
  · rw [herr r hwf rfl, ← hadvance]
    exact Nat.le_refl _

/-! ## Steps -/

/-- A read does not fail; and if it completes the body of a frame in progress, then at least eight bytes
    are buffered after it. -/
def Completes (s : FrameReader) : ReadInput → Prop
  | .readErr _ => False
  | .read chunk => ∀ h, s.phase = .loop h true →
      (h.size - headerSize).toNat ≤ (s.rxBuf.unread ++ chunk).length →
      headerSize.toNat ≤ (s.rxBuf.unread ++ chunk).length
  | _ => True

/-- The bytes that a step brings. -/
def chunk : ReadInput → Bytes
  | .read chunk => chunk
  | _ => []

/-- Reusing free space keeps the unread bytes. -/
theorem unread_reuse (h : s.rxBuf.WF) : s.reuse.WF ∧ s.reuse.unread = s.rxBuf.unread := by
  unfold reuse
  split
  · next hempty =>
    rw [← length_unread] at hempty
    constructor
    · exact Nat.le_refl 0
    · rw [length_eq_zero_iff.1 hempty]
      rfl
  · split
    · exact ⟨Nat.zero_le _, rfl⟩
    · exact ⟨h, rfl⟩

theorem Place.wf {phase : ReadPhase} (hplace : Place c bs future r phase) : r.WF := by
  cases hplace with
  | idle hwf _ => exact hwf
  | between _ hwf _ => exact hwf
  | within _ _ _ hwf _ _ _ => exact hwf

theorem Place.of_idle (hplace : Place c bs future r .idle) : r.WF ∧ r.unread ++ future = bs := by
  cases hplace with
  | idle hwf hbs => exact ⟨hwf, hbs⟩

/-- What a read brings was still to come. -/
theorem Place.append {bytes : Bytes} (hplace : Place c bs (bytes ++ future) r (.loop h b)) :
    Place False bs future (r.append bytes) (.loop h b) := by
  have hunread := unread_append hplace.wf bytes
  cases hplace with
  | between _ hwf hbs => exact .between h (hwf.append bytes) (by rw [hunread, append_assoc, hbs])
  | within _ hlen hheader hwf hbs hsize _ =>
    exact .within h hlen hheader (hwf.append bytes) (by rw [hunread, append_assoc, hbs]) hsize nofun

/-- **What a step of the reader does**, when no read fails. -/
theorem progress_step {i : ReadInput} {res : FrameReader × List (Except Fault Frame)}
    (hplace : Place c bs (chunk i ++ future) s.rxBuf s.phase) (hstep : s.step i = some res)
    (hi : ∀ err, i ≠ .readErr err) (hc : c → s.Completes i) : Progress c bs future res := by
  cases step_cases hstep with
  | call hphase =>
    rw [hphase] at hplace
    obtain ⟨hwf, hbs⟩ := hplace.of_idle
    obtain ⟨hwf', hunread⟩ := unread_reuse hwf
    exact .waits _ (.between _ hwf' (by rw [← hbs]; exact congrArg (· ++ _) hunread))
  | round h b hphase hasks =>
    rw [hphase] at hplace
    have hplace' : Place False bs future (s.rxBuf.append []) _ := hplace.append
    rw [append_nil] at hplace'
    refine progress_round hplace' fun _ hb => ?_
    rw [asks, hphase, hb] at hasks
    cases hasks
  | read bytes h b hphase _ =>
    have hunread := unread_append hplace.wf bytes
    rw [hphase] at hplace
    refine progress_round hplace.append fun hcond hb => ?_
    rw [hunread]
    exact hc hcond h (by rw [hphase, hb])
  | readErr err => exact absurd rfl (hi err)

/-- A reader that asks lacks a part of the next frame. -/
theorem lacks_of_asks (hplace : Place True bs future s.rxBuf s.phase) (hasks : s.asks = true) :
    ∃ received, received ++ future = bs ∧ frameOf received = none := by
  unfold asks at hasks
  cases hphase : s.phase with
  | idle => simp [hphase] at hasks
  | loop h b =>
    rw [hphase] at hplace hasks
    cases hplace with
    | between _ hwf hbs =>
      simp only [Bool.false_or, decide_eq_true_eq, ← length_unread] at hasks
      exact ⟨_, hbs, if_pos hasks⟩
    | within _ hlen hheader hwf hbs hsize hlack =>
      obtain ⟨received, hreceived⟩ : ∃ received, received = bs.take 8 ++ s.rxBuf.unread := ⟨_, rfl⟩
      have hlength : received.length = 8 + s.rxBuf.unread.length := by
        rw [hreceived, length_append, length_take_of_le hlen]
      have htake : received.take 8 = bs.take 8 := by
        rw [hreceived, take_left' (length_take_of_le hlen)]
      have hdrop : ((Buffer.new received).advance 8).unread = s.rxBuf.unread := by
        rw [unread_advance, hreceived]
        exact drop_left' (length_take_of_le hlen)
      -- the header is in the first eight bytes
      have hheader' : parseHeader.run (.new received) = .ok h ((Buffer.new received).advance 8) := by
        rcases parseHeader_cases (r := .new bs) hlen with ⟨k, hk⟩ | ⟨err, herr⟩
        · cases hheader.symm.trans (hk _ (Nat.zero_le _) rfl)
          exact hk _ (Nat.zero_le _) htake
        · cases hheader.symm.trans (herr _ (Nat.zero_le _) rfl)
      refine ⟨received, by rw [hreceived, append_assoc, hbs, take_append_drop], ?_⟩
      rw [frameOf, if_neg (by omega), run_bind, hheader']
      dsimp only
      rw [run_readBody (WF.advance (Nat.zero_le _) (by show 8 ≤ received.length; omega)) hsize, hdrop,
        if_pos (hlack trivial)]

end FrameReader

end GoAmqp
