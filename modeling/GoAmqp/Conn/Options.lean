import GoAmqp.Conn.Negotiate

set_option autoImplicit false

/-! # The options of a connection (`newConn`)

`newConn` applies the options to the defaults, one after the other; a limit that is out of range and
credentials that cannot be sent are refused. The dialer, the timeout of the dial and the TLS configuration
are not used by `start` as it is modelled. -/

namespace GoAmqp

open Lib

/-- The functions that make a `SASLType`. -/
inductive SASLType where
  | plain (username password : Bytes)
  | anonymous
  | external (resp : Bytes)
  | xoauth2 (username bearer : Bytes) (saslMaxFrameSizeOverride : UInt32)

/-- The handler that the function adds to the connection. -/
def SASLType.handler : SASLType → Except String SASLHandler
  | .plain username password => .ok (.plain username password)
  | .anonymous => .ok .anonymous
  | .external resp => .ok (.external resp)
  | .xoauth2 username bearer saslMaxFrameSizeOverride =>
    saslTypeXOAUTH2 username bearer saslMaxFrameSizeOverride

/-- The fields of `ConnOptions` that `newConn` reads. -/
structure ConnOptions where
  containerID : Bytes
  hostName : Bytes
  idleTimeout : Duration
  maxFrameSize : UInt32
  maxSessions : UInt16
  /-- nil and the empty map have the same effect -/
  properties : SymbolMap
  saslType : Option SASLType

def ConnOptions.zero : ConnOptions := ⟨[], [], 0, 0, 0, [], none⟩

/-- One minute. -/
def defaultIdleTimeout : Duration := 60000000000

def defaultMaxSessions : Nat := 65536

namespace ConnOptions

/-- A negative timeout turns it off. -/
def idleTimeoutOr (opts : ConnOptions) (default : Duration) : Duration :=
  if opts.idleTimeout > 0 then opts.idleTimeout
  else if opts.idleTimeout < 0 then 0
  else default

/-- The test for the default is `> 512`, so that the least limit is not taken over. -/
def maxFrameSizeOr (opts : ConnOptions) (default : UInt32) : Except String UInt32 :=
  if opts.maxFrameSize > 0 ∧ opts.maxFrameSize < 512 then
    .error (s!"invalid MaxFrameSize value {opts.maxFrameSize.toNat}")
  else if opts.maxFrameSize > 512 then .ok opts.maxFrameSize
  else .ok default

/-- Zero leaves the default. -/
def channelMaxOr (opts : ConnOptions) (default : UInt16) : UInt16 :=
  if opts.maxSessions > 0 then opts.maxSessions else default

/-- The handler of the SASL mechanism that is set, if its credentials pass. -/
def saslHandlers (opts : ConnOptions) : Except String (List SASLHandler) :=
  match opts.saslType with
  | some saslType => saslType.handler.map fun h => [h]
  | none => .ok []

end ConnOptions

/-- `newConn`; `randString` is the container-id that has been generated. -/
def newConn (randString : Bytes) (opts : Option ConnOptions) : Except String Negotiation := do
  let opts := opts.getD .zero
  let maxFrameSize ← opts.maxFrameSizeOr defaultMaxFrameSize
  let saslHandlers ← opts.saslHandlers
  pure (.start false saslHandlers (if opts.containerID.isEmpty then randString else opts.containerID)
    opts.hostName maxFrameSize (opts.channelMaxOr (UInt16.ofNat (defaultMaxSessions - 1)))
    (opts.idleTimeoutOr defaultIdleTimeout) opts.properties)

/-- What a connection looks like that `newConn` returns. -/
theorem newConn_ok {randString : Bytes} {opts : ConnOptions} {s : Negotiation}
    (h : newConn randString (some opts) = .ok s) :
    ∃ maxFrameSize saslHandlers containerID, opts.maxFrameSizeOr defaultMaxFrameSize = .ok maxFrameSize ∧
      opts.saslHandlers = .ok saslHandlers ∧
      s = .start false saslHandlers containerID opts.hostName maxFrameSize
        (opts.channelMaxOr (UInt16.ofNat (defaultMaxSessions - 1))) (opts.idleTimeoutOr defaultIdleTimeout)
        opts.properties := by
  simp only [newConn, Option.getD_some] at h
  cases hsize : opts.maxFrameSizeOr defaultMaxFrameSize with
  | error err =>
    rw [hsize] at h
    cases h
  | ok maxFrameSize =>
    rw [hsize] at h
    cases hhandlers : opts.saslHandlers with
    | error err =>
      rw [hhandlers] at h
      cases h
    | ok saslHandlers =>
      rw [hhandlers] at h
      cases h
      exact ⟨maxFrameSize, saslHandlers, _, rfl, rfl, rfl⟩

/-- The limit on frames, for options within its range. -/
theorem ConnOptions.maxFrameSizeOr_ok {opts : ConnOptions} {maxFrameSize : UInt32}
    (h : opts.maxFrameSizeOr defaultMaxFrameSize = .ok maxFrameSize) (hle : 512 ≤ opts.maxFrameSize) :
    maxFrameSize = if opts.maxFrameSize = 512 then defaultMaxFrameSize else opts.maxFrameSize := by
  have hlow : ¬ opts.maxFrameSize < 512 := UInt32.not_lt.mpr hle
  simp only [maxFrameSizeOr, hlow, and_false, if_false] at h
  by_cases heq : opts.maxFrameSize = 512
  · rw [heq] at h ⊢
    cases h
    rfl
  · have hgt : opts.maxFrameSize > 512 := UInt32.lt_of_le_of_ne hle (Ne.symm heq)
    rw [if_pos hgt] at h
    cases h
    rw [if_neg heq]

end GoAmqp
