import GoAmqp.Frames.RoundTrip
import GoAmqp.Lib.Transition

set_option autoImplicit false

/-! # Reading frames (`Conn.readFrame`)

`connReader` calls `readFrame` again and again. A call loops until the buffer holds a complete frame;
at the head of the loop it may ask the network for more bytes, once a round. The loop is a state machine
here: `round` is the rest of a round, after the read at its head, and a step of `FrameReader` is the
start of a call, a round without a read, or a round with a read and what the read brought. How many
bytes a read brings is left open, so the capacity of the buffer does not matter. -/

namespace GoAmqp

open Lib Buffer

/-- Where `connReader` stands: between two calls of `readFrame`, or at the head of its loop. -/
inductive ReadPhase where
  | idle
  | loop (currentHeader : Header) (frameInProgress : Bool)

/-- What `readFrame` works on: the buffer, and where its reader stands. -/
structure FrameReader where
  maxFrameSize : UInt32
  rxBuf : Buffer
  phase : ReadPhase

/-- How a round ends: `continue`, or a frame. -/
inductive Round where
  | continue_ (currentHeader : Header) (frameInProgress : Bool)
  | return_ (fr : Frame)

namespace FrameReader

/-- `math.MaxInt32`. -/
def maxInt32 : UInt32 := 2147483647

/-- `frames.ParseBody(buffer.New(b))`. -/
def parsePayload (currentHeader : Header) (b : Bytes) : BufM Round :=
  match parseBody.run (.new b) with
  | .ok parsedBody _ => pure (.return_ ⟨0, currentHeader.channel, parsedBody⟩)
  | .error err _ => throw err

/-- A round, once the header is known. -/
def readBody (currentHeader : Header) : BufM Round := do
  if currentHeader.size > maxInt32 then fail "payload too large"
  else
    let bodySize := (currentHeader.size - headerSize).toNat
    let n ← len
    -- the full frame has not been received
    if n < bodySize then pure (.continue_ currentHeader true)
    -- keep-alive
    else if bodySize = 0 then pure (.continue_ currentHeader false)
    else
      let (b, ok) ← next bodySize
      if !ok then
        let n ← len
        fail (s!"buffer EOF; requested bytes: {bodySize}, actual size: {n}")
      else parsePayload currentHeader b

/-- A round, after the read at its head. -/
def round (currentHeader : Header) (frameInProgress : Bool) : BufM Round := do
  let n ← len
  if n < headerSize.toNat then pure (.continue_ currentHeader frameInProgress)
  else if frameInProgress then readBody currentHeader
  else
    let currentHeader ← parseHeader
    readBody currentHeader

/-- The buffer at the start of a call: free space is reused. -/
def reuse (s : FrameReader) : Buffer :=
  if s.rxBuf.b.length - s.rxBuf.i = 0 then s.rxBuf.reset
  else if s.rxBuf.i > s.maxFrameSize.toNat then s.rxBuf.reclaim
  else s.rxBuf

/-- `if frameInProgress || c.rxBuf.Len() < frames.HeaderSize`: the next round starts with a read. -/
def asks (s : FrameReader) : Bool :=
  match s.phase with
  | .idle => false
  | .loop _ frameInProgress => frameInProgress || s.rxBuf.b.length - s.rxBuf.i < headerSize.toNat

def start (maxFrameSize : UInt32) : FrameReader := ⟨maxFrameSize, .new [], .idle⟩

/-- The state after a round, and what the call has returned if it has. -/
def finish (s : FrameReader) : EStateM.Result Fault Buffer Round → FrameReader × List (Except Fault Frame)
  | .ok (.continue_ currentHeader frameInProgress) rxBuf =>
    ({ s with rxBuf := rxBuf, phase := .loop currentHeader frameInProgress }, [])
  | .ok (.return_ fr) rxBuf => ({ s with rxBuf := rxBuf, phase := .idle }, [.ok fr])
  | .error err rxBuf => ({ s with rxBuf := rxBuf, phase := .idle }, [.error err])

end FrameReader

/-- `readFrame` is called, a round goes without a read, a read brings some bytes, or a read fails. -/
inductive ReadInput where
  | call
  | round
  | read (chunk : Bytes)
  | readErr (err : String)

namespace FrameReader

/-- One step; the events are the results of calls. -/
def step (s : FrameReader) : ReadInput → Option (FrameReader × List (Except Fault Frame))
  | .call =>
    match s.phase with
    | .idle => some ({ s with rxBuf := s.reuse, phase := .loop ⟨0, 0, 0, 0⟩ false }, [])
    | .loop _ _ => none
  | .round =>
    match s.phase with
    | .idle => none
    | .loop currentHeader frameInProgress =>
      if s.asks then none else some (s.finish ((round currentHeader frameInProgress).run s.rxBuf))
  | .read chunk =>
    match s.phase with
    | .idle => none
    | .loop currentHeader frameInProgress =>
      if s.asks then
        some (s.finish ((round currentHeader frameInProgress).run (s.rxBuf.append chunk)))
      else none
  | .readErr err => if s.asks then some ({ s with phase := .idle }, [.error (.err err)]) else none

/-- What a step is, by its input. -/
inductive StepOf (s : FrameReader) : ReadInput → FrameReader × List (Except Fault Frame) → Prop
  | call : s.phase = .idle →
      StepOf s .call ({ s with rxBuf := s.reuse, phase := .loop ⟨0, 0, 0, 0⟩ false }, [])
  | round (h : Header) (frameInProgress : Bool) : s.phase = .loop h frameInProgress → s.asks = false →
      StepOf s .round (s.finish ((FrameReader.round h frameInProgress).run s.rxBuf))
  | read (chunk : Bytes) (h : Header) (frameInProgress : Bool) : s.phase = .loop h frameInProgress →
      s.asks = true →
      StepOf s (.read chunk)
        (s.finish ((FrameReader.round h frameInProgress).run (s.rxBuf.append chunk)))
  | readErr (err : String) : s.asks = true →
      StepOf s (.readErr err) ({ s with phase := .idle }, [.error (.err err)])

theorem step_cases {s : FrameReader} {i : ReadInput} {res : FrameReader × List (Except Fault Frame)}
    (h : s.step i = some res) : StepOf s i res := by
  cases i with
  | call =>
    cases hp : s.phase <;> simp only [step, hp, Option.some.injEq, reduceCtorEq] at h
    subst h
    exact .call hp
  | round =>
    cases hp : s.phase <;> simp only [step, hp, reduceCtorEq] at h
    split at h
    · cases h
    · next hasks =>
      cases h
      exact .round _ _ hp (by simpa using hasks)
  | read chunk =>
    cases hp : s.phase <;> simp only [step, hp, reduceCtorEq] at h
    split at h
    · next hasks =>
      cases h
      exact .read chunk _ _ hp hasks
    · cases h
  | readErr err =>
    simp only [step] at h
    split at h
    · next hasks =>
      cases h
      exact .readErr err hasks
    · cases h

end FrameReader

end GoAmqp
