import Mathlib.Algebra.GroupWithZero.Nat
import Mathlib.Tactic.Common

set_option autoImplicit false

/-! # Machine integers

Narrowing a value that fits and widening it again gives the value back; a natural that fits is
unchanged by the conversion to a machine integer. -/

namespace GoAmqp.Lib

theorem toNat_ofNat32 {n : Nat} (h : n < 2 ^ 32) : (UInt32.ofNat n).toNat = n := by
  rw [UInt32.toNat_ofNat']
  exact Nat.mod_eq_of_lt h

theorem toNat_ofNat8 {n : Nat} (h : n < 2 ^ 8) : (UInt8.ofNat n).toNat = n := by
  rw [UInt8.toNat_ofNat']
  exact Nat.mod_eq_of_lt h

theorem toUInt8_toUInt32 {n : UInt32} (h : n < 256) : n.toUInt8.toUInt32 = n := by
  apply UInt32.toNat_inj.mp
  rw [UInt8.toNat_toUInt32, UInt32.toNat_toUInt8]
  exact Nat.mod_eq_of_lt (UInt32.lt_iff_toNat_lt.mp h)

theorem toUInt8_toUInt64 {n : UInt64} (h : n < 256) : n.toUInt8.toUInt64 = n := by
  apply UInt64.toNat_inj.mp
  rw [UInt8.toNat_toUInt64, UInt64.toNat_toUInt8]
  exact Nat.mod_eq_of_lt (UInt64.lt_iff_toNat_lt.mp h)

/-- The low byte of a 32-bit integer, read as a signed byte, is the truncated integer. -/
theorem Int32.toInt8_lowByte (n : Int32) : n.toUInt32.toUInt8.toInt8 = n.toInt8 := by
  apply Int8.toBitVec_inj.mp
  simp [BitVec.signExtend_eq_setWidth_of_le]

theorem Int64.toInt8_lowByte (n : Int64) : n.toUInt64.toUInt8.toInt8 = n.toInt8 := by
  apply Int8.toBitVec_inj.mp
  simp [BitVec.signExtend_eq_setWidth_of_le]

theorem Int32.lowByte_widen {n : Int32} (h : n < 128 ∧ n ≥ -128) : n.toUInt32.toUInt8.toInt8.toInt32 = n := by
  have hhi := Int32.lt_iff_toInt_lt.mp h.1
  have hlo := Int32.le_iff_toInt_le.mp h.2
  simp only [Int32.reduceToInt] at hhi hlo
  rw [Int32.toInt8_lowByte]
  apply Int32.toInt_inj.mp
  rw [Int8.toInt_toInt32, Int32.toInt_toInt8, Int.bmod_def]
  omega

theorem Int64.lowByte_widen {n : Int64} (h : n < 128 ∧ n ≥ -128) : n.toUInt64.toUInt8.toInt8.toInt64 = n := by
  have hhi := Int64.lt_iff_toInt_lt.mp h.1
  have hlo := Int64.le_iff_toInt_le.mp h.2
  simp only [Int64.reduceToInt] at hhi hlo
  rw [Int64.toInt8_lowByte]
  apply Int64.toInt_inj.mp
  rw [Int8.toInt_toInt64, Int64.toInt_toInt8, Int.bmod_def]
  omega

end GoAmqp.Lib
