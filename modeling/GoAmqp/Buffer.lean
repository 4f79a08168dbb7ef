import GoAmqp.Lib.Cursor
import GoAmqp.Lib.BigEndian
import GoAmqp.Lib.Go

set_option autoImplicit false

/-! # The byte buffer (`internal/buffer`)

`Buffer` is the byte slice `b` with the read index `i`. Every method of the source is a computation
over it: reads check bounds with `readCheck` and then slice, so a slice expression that would be out
of range shows up as `Fault.outOfRange`; appends grow `b` at the end. The capacity of the slice is
not kept: no method but `ReadFromOnce` depends on it.

`Reads` (from the cursor library) and `Writes` are the two ways the codec proofs talk about a
buffer: what is consumed from the unread bytes, and what is appended. -/

namespace GoAmqp

open Lib List

/-- A byte slice, or a string; nil and empty are one. -/
abbrev Bytes := List UInt8

/-- `Buffer`: the bytes and the read index. Capacity is left out. -/
structure Buffer where
  b : Bytes
  i : Nat
deriving DecidableEq, Repr

/-- Computations on a buffer. -/
abbrev BufM := EStateM Fault Buffer

namespace Buffer

def new (b : Bytes) : Buffer := ⟨b, 0⟩

/-- The read index is inside the slice. -/
def WF (r : Buffer) : Prop := r.i ≤ r.b.length

/-- What `Bytes` returns while the read index is inside the slice. -/
def unread (r : Buffer) : Bytes := r.b.drop r.i

/-- The read index moves on. -/
def advance (r : Buffer) (n : Nat) : Buffer := { r with i := r.i + n }

/-- The buffer with `bs` appended. -/
def append (r : Buffer) (bs : Bytes) : Buffer := { r with b := r.b ++ bs }

theorem unread_advance (r : Buffer) (n : Nat) : (r.advance n).unread = r.unread.drop n := by
  simp [unread, advance, drop_drop]

theorem length_unread (r : Buffer) : r.unread.length = r.b.length - r.i := by
  simp [unread]

theorem WF.advance {r : Buffer} (h : r.WF) {n : Nat} (hn : n ≤ r.unread.length) : (r.advance n).WF := by
  simp only [WF, Buffer.advance, length_unread] at *
  omega

theorem WF.append {r : Buffer} (h : r.WF) (bs : Bytes) : (r.append bs).WF := by
  simp only [WF, Buffer.append, length_append] at *
  omega

@[simp] theorem append_append (r : Buffer) (bs cs : Bytes) : (r.append bs).append cs = r.append (bs ++ cs) := by
  simp [append, append_assoc]

@[simp] theorem append_nil (r : Buffer) : r.append [] = r := by simp [append]

theorem unread_append {r : Buffer} (h : r.WF) (bs : Bytes) : (r.append bs).unread = r.unread ++ bs := by
  simp only [unread, append, WF] at *
  rw [drop_append_of_le_length h]

instance : Cursor Buffer UInt8 where
  unread := unread
  advance := advance
  Valid := WF
  unread_advance := unread_advance
  advance_zero := fun _ => rfl
  advance_add := fun r m n => by simp [advance, Nat.add_assoc]
  valid_advance := fun _ _ h hn => h.advance hn

/-! ## Reading -/

/-- `readCheck`: fewer than `n` bytes are left. -/
def readCheck (r : Buffer) (n : Nat) : Bool := r.i + n > r.b.length

/-- Number of unread bytes. -/
def len : BufM Nat := do
  let r ← get
  pure (r.b.length - r.i)

/-- The unread bytes, `b.b[b.i:]`. -/
def bytes : BufM Bytes := do
  let r ← get
  slice r.b r.i r.b.length

/-- The next `n` bytes; all that is left, and `false`, when there are fewer. -/
def next (n : Nat) : BufM (Bytes × Bool) := do
  let r ← get
  if r.readCheck n then
    let buf ← slice r.b r.i r.b.length
    set { r with i := r.b.length }
    pure (buf, false)
  else
    let buf ← slice r.b r.i (r.i + n)
    set { r with i := r.i + n }
    pure (buf, true)

/-- `Skip`, without a check. -/
def skip (n : Nat) : BufM Unit := modify fun r => { r with i := r.i + n }

def readByte : BufM UInt8 := do
  let r ← get
  if r.readCheck 1 then fail "EOF"
  else
    let x ← index r.b r.i
    set { r with i := r.i + 1 }
    pure x

def peekByte : BufM UInt8 := do
  let r ← get
  if r.readCheck 1 then fail "EOF" else index r.b r.i

/-- `binary.BigEndian.UintN` on the first `k` bytes of `buf`. -/
def bigEndian (k : Nat) (buf : Bytes) : BufM Nat := do
  let bs ← slice buf 0 k
  pure (beNat bs)

/-- The shared body of `ReadUint16`, `ReadUint32` and `ReadUint64`. -/
def readUint (k : Nat) : BufM Nat := do
  let r ← get
  if r.readCheck k then fail "EOF"
  else
    let buf ← slice r.b r.i r.b.length
    let n ← bigEndian k buf
    set { r with i := r.i + k }
    pure n

def readUint16 : BufM UInt16 := UInt16.ofNat <$> readUint 2

def readUint32 : BufM UInt32 := UInt32.ofNat <$> readUint 4

def readUint64 : BufM UInt64 := UInt64.ofNat <$> readUint 8

/-! ## Writing -/

/-- `Append` and `AppendString`. -/
def appendBytes (p : Bytes) : BufM Unit := modify fun r => r.append p

def appendByte (x : UInt8) : BufM Unit := appendBytes [x]

def appendUint16 (n : UInt16) : BufM Unit := appendBytes (be16 n)

def appendUint32 (n : UInt32) : BufM Unit := appendBytes (be32 n)

def appendUint64 (n : UInt64) : BufM Unit := appendBytes (be64 n)

/-- `binary.BigEndian.PutUint32(b.Bytes()[idx:], n)`: overwrite four bytes, `idx` bytes after the
    read index. -/
def putUint32 (idx : Nat) (n : UInt32) : BufM Unit := do
  let r ← get
  let at_ := r.i + idx
  if at_ + 4 ≤ r.b.length then
    set { r with b := r.b.take at_ ++ be32 n ++ r.b.drop (at_ + 4) }
  else throw .outOfRange

/-- Drop everything, keeping the storage. -/
def reset (_ : Buffer) : Buffer := ⟨[], 0⟩

/-- Shift the unread bytes to the beginning. -/
def reclaim (r : Buffer) : Buffer := ⟨r.b.drop r.i, 0⟩

/-! ## What the reads do -/

section Reads

variable {rest : Bytes}

theorem reads_len : Reads len [] rest rest.length := by
  intro r _ hu
  have h := congrArg List.length hu
  simp only [Cursor.unread, length_unread, nil_append] at h
  simp [len, h, Cursor.advance, advance]

theorem reads_bytes : Reads bytes [] rest rest := by
  intro r hw hu
  have hw' : r.i ≤ r.b.length := hw
  have hu' : r.b.drop r.i = rest := by simpa [Cursor.unread, unread] using hu
  simp [bytes, slice, hw', hu', Cursor.advance, advance]

theorem reads_next (bs : Bytes) : Reads (next bs.length) bs rest (bs, true) := by
  intro r hw hu
  have hw' : r.i ≤ r.b.length := hw
  have hu' : r.b.drop r.i = bs ++ rest := hu
  have hlen : r.b.length - r.i = bs.length + rest.length := by
    rw [← length_drop, hu', length_append]
  have hle : r.i + bs.length ≤ r.b.length := by omega
  have htake : (r.b.take (r.i + bs.length)).drop r.i = bs := by
    rw [drop_take, hu', Nat.add_sub_cancel_left, take_left]
  have hchk : r.readCheck bs.length = false := by simp [readCheck]; omega
  simp [next, hchk, slice, hle, htake, Cursor.advance, advance]

theorem reads_readByte (x : UInt8) : Reads readByte [x] rest x := by
  intro r hw hu
  have hu' : r.b.drop r.i = x :: rest := hu
  have hlt : r.i < r.b.length := by
    by_contra h
    rw [drop_eq_nil_of_le (by omega)] at hu'
    exact absurd hu' (by simp)
  have hget : r.b[r.i]? = some x := by
    rw [← head?_drop, hu']
    rfl
  have hchk : r.readCheck 1 = false := by simp [readCheck]; omega
  simp [readByte, hchk, index_of_lt hget, Cursor.advance, advance]

theorem reads_peekByte (x : UInt8) : Reads peekByte [] (x :: rest) x := by
  intro r hw hu
  have hu' : r.b.drop r.i = x :: rest := hu
  have hlt : r.i < r.b.length := by
    by_contra h
    rw [drop_eq_nil_of_le (by omega)] at hu'
    exact absurd hu' (by simp)
  have hget : r.b[r.i]? = some x := by
    rw [← head?_drop, hu']
    rfl
  have hchk : r.readCheck 1 = false := by simp [readCheck]; omega
  simp [peekByte, hchk, index_of_lt hget, Cursor.advance, advance]

theorem bigEndian_append {k : Nat} {bs tail : Bytes} (h : bs.length = k) :
    bigEndian k (bs ++ tail) = pure (beNat bs) := by
  subst h
  simp [bigEndian, slice]

theorem reads_readUint (bs : Bytes) : Reads (readUint bs.length) bs rest (beNat bs) := by
  intro r hw hu
  have hw' : r.i ≤ r.b.length := hw
  have hu' : r.b.drop r.i = bs ++ rest := hu
  have hlen : r.b.length - r.i = bs.length + rest.length := by
    rw [← length_drop, hu', length_append]
  have hchk : r.readCheck bs.length = false := by simp [readCheck]; omega
  simp [readUint, hchk, slice_of_le hw' (Nat.le_refl _), hu',
    bigEndian_append (rfl : bs.length = bs.length), Cursor.advance, advance]

theorem reads_readUint16 (n : UInt16) : Reads readUint16 (be16 n) rest n := by
  refine (Reads.map _ (reads_readUint (be16 n))).congr rfl ?_
  rw [beNat_be16, UInt16.ofNat_toNat]

theorem reads_readUint32 (n : UInt32) : Reads readUint32 (be32 n) rest n := by
  refine (Reads.map _ (reads_readUint (be32 n))).congr rfl ?_
  rw [beNat_be32, UInt32.ofNat_toNat]

theorem reads_readUint64 (n : UInt64) : Reads readUint64 (be64 n) rest n := by
  refine (Reads.map _ (reads_readUint (be64 n))).congr rfl ?_
  rw [beNat_be64, UInt64.ofNat_toNat]

end Reads

end Buffer

/-! ## What the writes do -/

/-- `m` appends exactly `bs` to whatever the buffer holds. -/
def Writes (m : BufM Unit) (bs : Bytes) : Prop := ∀ w : Buffer, w.WF → m.run w = .ok () (w.append bs)

namespace Writes

theorem pure : Writes (Pure.pure ()) [] := by
  intro w _
  simp

theorem bind {m : BufM Unit} {f : Unit → BufM Unit} {bs cs : Bytes} (hm : Writes m bs)
    (hf : Writes (f ()) cs) : Writes (m >>= f) (bs ++ cs) := by
  intro w hw
  rw [EStateM.run_bind, hm w hw]
  show (f ()).run _ = _
  rw [hf _ (hw.append bs), Buffer.append_append]

theorem appendBytes (bs : Bytes) : Writes (Buffer.appendBytes bs) bs := by
  intro w _
  rfl

theorem congr {m : BufM Unit} {bs cs : Bytes} (hm : Writes m bs) (h : bs = cs) : Writes m cs := h ▸ hm

end Writes

end GoAmqp
