import MetaVm.Riscv.Trace.Witness
import MetaVm.Riscv.Constraints.Alu

namespace MetaVm.Riscv.Constraints

open Rv64

/-! What the witnesses of a computed result satisfy over the integers. -/

/-- A cell that is zero or one. -/
theorem binaryCheck_eq_zero {value : ℕ} (bit : value ≤ 1) :
    binaryCheck (value : ℤ) = 0 := by
  have : value = 0 ∨ value = 1 := by omega
  rcases this with rfl | rfl
  · rfl
  · rfl

theorem msb_le_one {width : ℕ} (x : BitVec width) : x.msb.toNat ≤ 1 :=
  Bool.toNat_le x.msb

theorem signBit_le_one (a : Word) : (signBit a).toNat ≤ 1 := by
  rw [toNat_signBit]
  exact msb_le_one a

theorem signBit32_le_one (x : BitVec 32) : (signBit32 x).toNat ≤ 1 := by
  rw [toNat_signBit32]
  exact msb_le_one x

theorem borrow_le_one {width : ℕ} (x y : BitVec width) :
    (borrow x y).toNat ≤ 1 := by
  rw [toNat_borrow]
  split <;> omega

section Words

variable (a b : Word)

theorem carry_le_one : (carry a b).toNat ≤ 1 := by
  have aLt := a.isLt
  have bLt := b.isLt
  rw [toNat_carry]
  omega

theorem add_split : a.toNat + b.toNat =
    (carry a b).toNat * 2 ^ 64 + (a + b).toNat := by
  rw [toNat_carry, BitVec.toNat_add, Nat.div_add_mod']

theorem sub_split : (a - b).toNat + b.toNat =
    a.toNat + (borrow a b).toNat * 2 ^ 64 := by
  have aLt := a.isLt
  have bLt := b.isLt
  rw [toNat_borrow, BitVec.toNat_sub]
  split <;> omega

theorem or_split : (a ||| b).toNat + (a &&& b).toNat = a.toNat + b.toNat := by
  rw [BitVec.toNat_or, BitVec.toNat_and, Words.or_add_and]

theorem xor_split : (a ^^^ b).toNat + (a &&& b).toNat * 2 = a.toNat + b.toNat := by
  rw [BitVec.toNat_xor, BitVec.toNat_and, Words.xor_add_and_mul_two]

theorem mul_split : a.toNat * b.toNat =
    (productHigh a b).toNat * 2 ^ 64 + (a * b).toNat := by
  rw [toNat_productHigh, BitVec.toNat_mul, Nat.div_add_mod']

theorem mulhu_split : a.toNat * b.toNat =
    (mulhu a b).toNat * 2 ^ 64 + (productLow a b).toNat := by
  rw [toNat_mulhu, toNat_productLow, Nat.div_add_mod']

/-- The comparison bit of unsigned words. -/
theorem sltu_eq : ((sltu a b).toNat : ℤ) = signedLt ((borrow a b).toNat : ℤ) 0 0 := by
  have same : sltu a b = borrow a b := rfl
  rw [same, signedLt]
  ring

/-- The comparison bit of signed words, whose signs decide unless they agree. -/
theorem slt_eq : ((slt a b).toNat : ℤ) =
    signedLt ((borrow a b).toNat : ℤ) (signBit a).toNat (signBit b).toNat := by
  have bit : (slt a b).toNat = (a.slt b).toNat := by
    rw [slt]
    cases a.slt b <;> rfl
  have borrowed : (borrow a b).toNat = (decide (a.toNat < b.toNat)).toNat := by
    rw [toNat_borrow]
    by_cases less : a.toNat < b.toNat <;> simp [less]
  rw [bit, borrowed, toNat_signBit, toNat_signBit, Words.slt_eq_signs, signedLt]

variable {amount : ℕ} (short : amount < 64)

include short

theorem sll_split : a.toNat * ((1 : Word) <<< amount).toNat =
    (productHigh a ((1 : Word) <<< amount)).toNat * 2 ^ 64 + (a <<< amount).toNat := by
  rw [toNat_productHigh, toNat_power short, BitVec.toNat_shiftLeft,
    Nat.shiftLeft_eq, Nat.div_add_mod']

theorem shiftedOut_eq :
    (if amount = 0 then (0 : Word) else a % (1 : Word) <<< amount).toNat =
      a.toNat % 2 ^ amount := by
  split
  · rename_i zero
    rw [zero, pow_zero, Nat.mod_one]
    rfl
  · rw [BitVec.toNat_umod, toNat_power short]

theorem srl_split : (a >>> amount).toNat * ((1 : Word) <<< amount).toNat +
    a.toNat % 2 ^ amount = a.toNat := by
  rw [toNat_power short, BitVec.toNat_ushiftRight, Nat.shiftRight_eq_div_pow,
    Nat.div_add_mod']

theorem sraCorrection_eq :
    ((signBit a * ((1 : Word) <<< amount - 1)).toNat : ℤ) =
      a.msb.toNat * (2 ^ amount - 1) := by
  have bound : 2 ^ amount < 2 ^ 64 := Nat.pow_lt_pow_right (by omega) short
  have positive : 1 ≤ 2 ^ amount := Nat.one_le_two_pow
  have less : ((1 : Word) <<< amount - 1).toNat = 2 ^ amount - 1 := by
    rw [BitVec.toNat_sub_of_le, toNat_power short]
    · rfl
    · rw [BitVec.le_def, toNat_power short]
      exact positive
  rw [BitVec.toNat_mul, toNat_signBit, less]
  cases a.msb with
  | false => simp
  | true =>
      rw [Bool.toNat_true, one_mul, Nat.mod_eq_of_lt (by omega)]
      push_cast [positive]
      ring

theorem sra_split : ((a.sshiftRight amount).toNat : ℤ) *
    ((1 : Word) <<< amount).toNat + (a.toNat % 2 ^ amount : ℕ) =
      a.toNat + (signBit a * ((1 : Word) <<< amount - 1)).toNat * 2 ^ 64 := by
  rw [sraCorrection_eq a short, toNat_power short]
  push_cast
  exact_mod_cast Words.toNat_sshiftRight_mul a (le_of_lt short)

end Words

end MetaVm.Riscv.Constraints
