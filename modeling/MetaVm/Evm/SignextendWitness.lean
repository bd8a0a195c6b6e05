import MetaVm.Evm.AluWitness
import MetaVm.Evm.Trace

namespace MetaVm.Evm

open Limbs

/-! The limbs of a sign-extended word. -/

section Digits

variable (x : U256) (ll bb : ℕ)

/-- The sign bit of the lowest `8 * bb` bits of limb `ll`. -/
def signBitOf (x : U256) (ll bb : ℕ) : ℕ := x.limb ll / 2 ^ (8 * bb - 1) % 2

/-- The limbs below `ll` stay, limb `ll` keeps `bb` bytes, and the sign fills the
rest. -/
def extendedDigit (x : U256) (ll bb l : ℕ) : ℕ :=
  if l < ll then x.limb l
  else if l = ll then x.limb ll % 2 ^ (8 * bb) + signBitOf x ll bb * (2 ^ 64 - 2 ^ (8 * bb))
  else signBitOf x ll bb * (2 ^ 64 - 1)

variable {x ll bb}

theorem signBitOf_le_one : signBitOf x ll bb ≤ 1 := by
  rw [signBitOf]
  omega

theorem extendedDigit_lt (small : bb ≤ 8) (l : ℕ) : extendedDigit x ll bb l < 2 ^ 64 := by
  have low := x.limb_lt l
  have kept : x.limb ll % 2 ^ (8 * bb) < 2 ^ (8 * bb) := Nat.mod_lt _ (Nat.two_pow_pos _)
  have power : 2 ^ (8 * bb) ≤ 2 ^ 64 := Nat.pow_le_pow_right (by decide) (by omega)
  have fill := Nat.mul_le_mul_right (2 ^ 64 - 2 ^ (8 * bb)) (@signBitOf_le_one x ll bb)
  have fillAll := Nat.mul_le_mul_right (2 ^ 64 - 1) (@signBitOf_le_one x ll bb)
  rw [Nat.one_mul] at fill fillAll
  rw [extendedDigit]
  by_cases below : l < ll
  · rw [if_pos below]
    exact low
  · rw [if_neg below]
    by_cases here : l = ll
    · rw [if_pos here]
      omega
    · rw [if_neg here]
      omega

/-- Above limb `ll` the sign is all that counts. -/
theorem value_extendedDigit {count : ℕ} (above : ll + 1 ≤ count) :
    Digits.value (2 ^ 64) count (extendedDigit x ll bb) +
        signBitOf x ll bb * (2 ^ 64) ^ (ll + 1) =
      Digits.value (2 ^ 64) ll x.limb +
        (x.limb ll % 2 ^ (8 * bb) + signBitOf x ll bb * (2 ^ 64 - 2 ^ (8 * bb))) *
          (2 ^ 64) ^ ll +
        signBitOf x ll bb * (2 ^ 64) ^ count := by
  induction count, above using Nat.le_induction with
  | base =>
      have lower : Digits.value (2 ^ 64) ll (extendedDigit x ll bb) =
          Digits.value (2 ^ 64) ll x.limb :=
        Digits.value_congr fun l below => if_pos below
      have here : extendedDigit x ll bb ll =
          x.limb ll % 2 ^ (8 * bb) + signBitOf x ll bb * (2 ^ 64 - 2 ^ (8 * bb)) := by
        rw [extendedDigit, if_neg (Nat.lt_irrefl ll), if_pos rfl]
      rw [Digits.value_succ, lower, here]
  | succ count above hypothesis =>
      have here : extendedDigit x ll bb count = signBitOf x ll bb * (2 ^ 64 - 1) := by
        rw [extendedDigit, if_neg (by omega), if_neg (by omega)]
      have power : (2 ^ 64 - 1) * (2 ^ 64) ^ count + (2 ^ 64) ^ count = (2 ^ 64) ^ (count + 1) :=
        (Nat.succ_mul (2 ^ 64 - 1) _).symm.trans (pow_succ' (2 ^ 64) count).symm
      rw [Digits.value_succ, here]
      linear_combination hypothesis + signBitOf x ll bb * power

/-- The low bits of a word, cut inside limb `ll`. -/
theorem value_mod_bits (inside : ll < 4) (small : bb ≤ 8) :
    x.value % 2 ^ (64 * ll + 8 * bb) =
      Digits.value (2 ^ 64) ll x.limb + x.limb ll % 2 ^ (8 * bb) * (2 ^ 64) ^ ll := by
  have lower : x.value % (2 ^ 64) ^ ll = Digits.value (2 ^ 64) ll x.limb :=
    Digits.value_mod_pow (Nat.le_of_lt inside) fun k _ => x.limb_lt k
  have divides : 2 ^ (8 * bb) ∣ 2 ^ 64 := Nat.pow_dvd_pow 2 (by omega)
  have upper : x.value / (2 ^ 64) ^ ll % 2 ^ (8 * bb) = x.limb ll % 2 ^ (8 * bb) := by
    rw [limb_eq_value x inside, Nat.mod_mod_of_dvd _ divides]
  rw [pow_add, pow_mul, Nat.mod_mul, lower, upper, Nat.mul_comm (x.limb ll % _)]

theorem testBit_limb (inside : ll < 4) {j : ℕ} (low : j < 64) :
    x.value.testBit (64 * ll + j) = (x.limb ll).testBit j := by
  rw [limb_eq_value x inside, Nat.testBit_mod_two_pow, ← pow_mul, Nat.testBit_div_two_pow,
    Nat.add_comm j, decide_eq_true low, Bool.true_and]

/-- A sign-extended word consists of these limbs. -/
theorem signExtend_eq (inside : ll < 4) (positive : 0 < bb) (small : bb ≤ 8) :
    ofWord (((toWord x).setWidth (64 * ll + 8 * bb)).signExtend 256) =
      ofDigits (extendedDigit x ll bb) := by
  apply ext_value
  have power : 2 ^ (64 * ll + 8 * bb) ≤ 2 ^ 256 := Nat.pow_le_pow_right (by decide) (by omega)
  have low : ((toWord x).setWidth (64 * ll + 8 * bb)).toNat =
      x.value % 2 ^ (64 * ll + 8 * bb) := by
    rw [BitVec.toNat_setWidth, toNat_toWord]
  have sign : ((toWord x).setWidth (64 * ll + 8 * bb)).msb = decide (signBitOf x ll bb = 1) := by
    rw [BitVec.msb_eq_getLsbD_last, BitVec.getLsbD_setWidth, BitVec.getLsbD, toNat_toWord,
      show 64 * ll + 8 * bb - 1 = 64 * ll + (8 * bb - 1) by omega, testBit_limb inside (by omega),
      decide_eq_true (by omega), Bool.true_and, Nat.testBit_eq_decide_div_mod_eq, signBitOf]
  have wide : x.value % 2 ^ (64 * ll + 8 * bb) < 2 ^ 256 :=
    lt_of_lt_of_le (Nat.mod_lt _ (Nat.two_pow_pos _)) power
  have filled : (2 ^ 64 - 2 ^ (8 * bb)) * (2 ^ 64) ^ ll + 2 ^ (64 * ll + 8 * bb) =
      (2 ^ 64) ^ (ll + 1) := by
    have kept : 2 ^ (8 * bb) ≤ 2 ^ 64 := Nat.pow_le_pow_right (by decide) (by omega)
    have whole : 2 ^ (64 * ll + 8 * bb) = 2 ^ (8 * bb) * (2 ^ 64) ^ ll := by
      rw [pow_add, pow_mul, Nat.mul_comm]
    rw [whole, ← Nat.add_mul, Nat.sub_add_cancel kept]
    exact (pow_succ' (2 ^ 64) ll).symm
  have total := @value_extendedDigit x ll bb 4 inside
  have digits : (ofDigits (extendedDigit x ll bb) : U256).value =
      Digits.value (2 ^ 64) 4 (extendedDigit x ll bb) :=
    value_ofDigits fun l _ => extendedDigit_lt small l
  rw [value_ofWord, digits, BitVec.toNat_signExtend,
    sign, BitVec.toNat_setWidth, low, Nat.mod_eq_of_lt wide, value_mod_bits inside small]
  rcases Nat.le_one_iff_eq_zero_or_eq_one.1 (@signBitOf_le_one x ll bb) with zero | one
  · rw [zero, Nat.zero_mul, Nat.zero_mul, Nat.zero_mul, Nat.add_zero, Nat.add_zero] at total
    rw [zero, total]
    rfl
  · have size : (2 ^ 64) ^ 4 = 2 ^ 256 := by norm_num
    rw [one, Nat.one_mul, Nat.one_mul, Nat.one_mul, Nat.add_mul, size] at total
    rw [one, if_pos (decide_eq_true rfl)]
    omega

end Digits

/-! The witness columns of a SIGNEXTEND row. -/

section Row

variable {row : EvmTraceRow}

theorem pow_256 (i : ℕ) : 256 ^ i = 2 ^ (8 * i) := (pow_mul 2 8 i).symm

theorem caseIdx_eq : row.caseIdx = min row.input0.value 31 := by
  have value := value_four row.input0
  have limb0 : row.input0.limb 0 = (row.input0 0).toNat := limb_fin row.input0 0
  have zero : ∀ k, row.input0 k ≠ 0 ↔ (row.input0 k).toNat ≠ 0 := fun k =>
    not_congr ⟨fun isZero => by rw [isZero]; rfl, fun isZero => BitVec.eq_of_toNat_eq isZero⟩
  rw [EvmTraceRow.caseIdx, limb0]
  simp only [zero]
  split
  · omega
  · omega

/-- The limbs of the result. -/
theorem limb_signextend (short : row.caseIdx < 31) {l : ℕ} (inside : l < 4)
    (output : row.output0 =
      ofWord (Semantics.signextend (toWord row.input0) (toWord row.input1))) :
    row.output0.limb l =
      extendedDigit row.input1 (row.caseIdx / 8) (row.caseIdx % 8 + 1) l := by
  have index := @caseIdx_eq row
  have isValue : row.input0.value = row.caseIdx := by omega
  have width : 8 * (row.caseIdx + 1) = 64 * (row.caseIdx / 8) + 8 * (row.caseIdx % 8 + 1) := by
    omega
  rw [Semantics.signextend, toNat_toWord, isValue, if_neg (by omega), width,
    signExtend_eq (by omega) (by omega) (by omega)] at output
  rw [output, limb_ofDigits inside (extendedDigit_lt (by omega) l)]

variable (isSignextend : row.isSignextend) (short : row.caseIdx < 31)
include isSignextend short

theorem seByte_toNat (i : ℕ) :
    (row.seByte i).toNat = row.input1.limb (row.caseIdx / 8) / 256 ^ i % 256 := by
  have low := row.input1.limb_lt (row.caseIdx / 8)
  have mask : (0xFF : U64).toNat = 2 ^ 8 - 1 := rfl
  rw [EvmTraceRow.seByte, if_pos ⟨isSignextend, short⟩, BitVec.toNat_and, mask,
    Nat.and_two_pow_sub_one_eq_mod, BitVec.toNat_ushiftRight, BitVec.toNat_ofNat,
    Nat.mod_eq_of_lt low, Nat.shiftRight_eq_div_pow, pow_256]

/-- The lowest bytes make up the bits of the limb that they cover. -/
theorem sum_seByte (count : ℕ) :
    Digits.value 256 count (fun i => (row.seByte i).toNat) =
      row.input1.limb (row.caseIdx / 8) % 2 ^ (8 * count) := by
  have bytes : ∀ i < count, (row.seByte i).toNat =
      row.input1.limb (row.caseIdx / 8) / 256 ^ i % 256 :=
    fun i _ => seByte_toNat isSignextend short i
  rw [Digits.value_congr bytes, Digits.value_digits, pow_256]

theorem signByte_split :
    (row.seByte (row.caseIdx % 8)).toNat = row.seSignBit.toNat * 128 + row.seLow7.toNat ∧
      row.seSignBit.toNat =
        signBitOf row.input1 (row.caseIdx / 8) (row.caseIdx % 8 + 1) := by
  have byte := seByte_toNat isSignextend short (row.caseIdx % 8)
  have bit : row.seSignBit.toNat = (row.seByte (row.caseIdx % 8)).toNat / 128 % 2 := by
    have mask : (1 : U64).toNat = 2 ^ 1 - 1 := rfl
    rw [EvmTraceRow.seSignBit, EvmTraceRow.signByte, BitVec.toNat_and, mask,
      Nat.and_two_pow_sub_one_eq_mod, BitVec.toNat_ushiftRight, Nat.shiftRight_eq_div_pow]
  have low : row.seLow7.toNat = (row.seByte (row.caseIdx % 8)).toNat % 128 := by
    have mask : (0x7F : U64).toNat = 2 ^ 7 - 1 := rfl
    rw [EvmTraceRow.seLow7, EvmTraceRow.signByte, BitVec.toNat_and, mask,
      Nat.and_two_pow_sub_one_eq_mod]
  constructor
  · rw [bit, low]
    omega
  · have shifted : 256 ^ (row.caseIdx % 8) * 128 = 2 ^ (8 * (row.caseIdx % 8 + 1) - 1) := by
      rw [show 8 * (row.caseIdx % 8 + 1) - 1 = 8 * (row.caseIdx % 8) + 7 by omega, pow_add,
        pow_256]
      norm_num
    rw [bit, byte, signBitOf, ← shifted, ← Nat.div_div_eq_div_mul]
    omega

end Row

end MetaVm.Evm
