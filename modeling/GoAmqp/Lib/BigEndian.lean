import Mathlib.Algebra.Group.Int.Defs
import Mathlib.Algebra.GroupWithZero.Nat
import Mathlib.Tactic.Common

set_option autoImplicit false

/-! # Big-endian integers

Unsigned integers as their octets, most significant first, and back. The writers take the octets by
shifting; the reader is Horner's rule on the octets as naturals. -/

namespace GoAmqp.Lib

def be16 (n : UInt16) : List UInt8 := [(n >>> 8).toUInt8, n.toUInt8]

def be32 (n : UInt32) : List UInt8 := [(n >>> 24).toUInt8, (n >>> 16).toUInt8, (n >>> 8).toUInt8, n.toUInt8]

def be64 (n : UInt64) : List UInt8 :=
  [(n >>> 56).toUInt8, (n >>> 48).toUInt8, (n >>> 40).toUInt8, (n >>> 32).toUInt8,
    (n >>> 24).toUInt8, (n >>> 16).toUInt8, (n >>> 8).toUInt8, n.toUInt8]

/-- The number whose octets are `bs`, most significant first. -/
def beNat (bs : List UInt8) : Nat := bs.foldl (fun acc b => acc * 256 + b.toNat) 0

@[simp] theorem length_be16 (n : UInt16) : (be16 n).length = 2 := rfl
@[simp] theorem length_be32 (n : UInt32) : (be32 n).length = 4 := rfl
@[simp] theorem length_be64 (n : UInt64) : (be64 n).length = 8 := rfl

/-- One round of Horner's rule: the octets down to bit `k + 8`, then the next one. -/
theorem horner_octet (n k : Nat) : n / 2 ^ (k + 8) * 256 + n / 2 ^ k % 2 ^ 8 = n / 2 ^ k := by
  rw [Nat.pow_add, ← Nat.div_div_eq_div_mul]
  exact Nat.div_add_mod' (n / 2 ^ k) 256

/-- The last round. -/
theorem horner_last (n : Nat) : n / 2 ^ 8 * 256 + n % 2 ^ 8 = n := Nat.div_add_mod' n 256

/-- The first octet is all that is left at its place. -/
theorem horner_first {n k : Nat} (h : n < 2 ^ k * 2 ^ 8) : 0 * 256 + n / 2 ^ k % 2 ^ 8 = n / 2 ^ k := by
  rw [Nat.zero_mul, Nat.zero_add, Nat.mod_eq_of_lt (Nat.div_lt_of_lt_mul h)]

theorem beNat_be16 (n : UInt16) : beNat (be16 n) = n.toNat := by
  simp only [beNat, be16, List.foldl_cons, List.foldl_nil, UInt16.toNat_toUInt8,
    UInt16.toNat_shiftRight, UInt16.reduceToNat, Nat.reduceMod, Nat.shiftRight_eq_div_pow]
  rw [horner_first n.toNat_lt, horner_last]

theorem beNat_be32 (n : UInt32) : beNat (be32 n) = n.toNat := by
  simp only [beNat, be32, List.foldl_cons, List.foldl_nil, UInt32.toNat_toUInt8,
    UInt32.toNat_shiftRight, UInt32.reduceToNat, Nat.reduceMod, Nat.shiftRight_eq_div_pow]
  rw [horner_first n.toNat_lt, horner_octet _ 16, horner_octet _ 8, horner_last]

theorem toNat_octet64 (n k : UInt64) {j : Nat} (hk : k.toNat % 64 = j) :
    (n >>> k).toUInt8.toNat = n.toNat / 2 ^ j % 2 ^ 8 := by
  rw [UInt64.toNat_toUInt8, UInt64.toNat_shiftRight, Nat.shiftRight_eq_div_pow, hk]

-- the shifts are evaluated one at a time: together they are slow to check
theorem beNat_be64 (n : UInt64) : beNat (be64 n) = n.toNat := by
  simp only [beNat, be64, List.foldl_cons, List.foldl_nil]
  rw [toNat_octet64 n 56 (j := 56) rfl, horner_first n.toNat_lt, toNat_octet64 n 48 (j := 48) rfl, horner_octet,
    toNat_octet64 n 40 (j := 40) rfl, horner_octet,
    toNat_octet64 n 32 (j := 32) rfl, horner_octet,
    toNat_octet64 n 24 (j := 24) rfl, horner_octet,
    toNat_octet64 n 16 (j := 16) rfl, horner_octet,
    toNat_octet64 n 8 (j := 8) rfl, horner_octet,
    UInt64.toNat_toUInt8, horner_last]

end GoAmqp.Lib
