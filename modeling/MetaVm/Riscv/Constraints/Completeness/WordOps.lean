import MetaVm.Riscv.Constraints.Completeness.ControlFlow

namespace MetaVm.Riscv

open Constraints Rv64 Zkp

/-! Rows of loads, stores and word operations. A word result is computed from
the low halves of the operands; the bodies read the full registers. -/

def memoryWordSelectors : List Column :=
  [colSelLoad, colSelStore, colSelWAluAdd, colSelWAluSub, colSelWAluAddi,
    colSelWSll, colSelWSrl, colSelWSra]

/-- A register holds a sign-extended word. -/
def IsWord (a : Word) : Prop := a = sext32 (low a)

def ShiftLeftFits (a : Word) (amount : ℕ) : Prop :=
  if amount = 0 then IsWord a
  else a.toNat < 2 ^ 32 ∧ (low a <<< amount).msb = false

def ShiftRightFits (a : Word) (amount : ℕ) : Prop :=
  if amount = 0 then IsWord a else a.toNat < 2 ^ 32

def ShiftRightArithFits (a : Word) (amount : ℕ) : Prop :=
  a.toNat < 2 ^ 31 ∨ amount = 0 ∧ IsWord a

def RegWOp.Fits (op : RegWOp) (a b : Word) : Prop :=
  match op with
  | addw => a.toNat + b.toNat < 2 ^ 64
  | subw => b.toNat ≤ a.toNat
  | sllw => ShiftLeftFits a (shamtW b)
  | srlw => ShiftRightFits a (shamtW b)
  | sraw => ShiftRightArithFits a (shamtW b)

def ImmWOp.Fits (op : ImmWOp) (a imm : Word) : Prop :=
  match op with
  | addiw => a.toNat + imm.toNat < 2 ^ 64
  | slliw => ShiftLeftFits a (shamtW imm)
  | srliw => ShiftRightFits a (shamtW imm)
  | sraiw => ShiftRightArithFits a (shamtW imm)

/-- When the row of a memory or word instruction satisfies its body. -/
def MemoryWordFits (cpu : CpuState) : Instruction → Prop
  | .load _ _ rs1 imm => (cpu.readReg rs1).toNat + imm.word.toNat < 2 ^ 64
  | .store _ rs1 _ imm => (cpu.readReg rs1).toNat + imm.word.toNat < 2 ^ 64
  | .opW op _ rs1 rs2 => op.Fits (cpu.readReg rs1) (cpu.readReg rs2)
  | .opImmW op _ rs1 imm => op.Fits (cpu.readReg rs1) imm.word
  | _ => True

/-- The upper half of a register. -/
def upper (a : Word) : ℕ := a.toNat / 2 ^ 32

section Halves

variable (a : Word)

theorem toNat_low : (low a).toNat = a.toNat % 2 ^ 32 := BitVec.toNat_setWidth 32 a

theorem toNat_sext32 (x : BitVec 32) :
    ((sext32 x).toNat : ℤ) = x.toNat + x.msb.toNat * (2 ^ 64 - 2 ^ 32) := by
  rw [sext32, Words.toNat_signExtend x (by decide)]
  push_cast
  ring

theorem isWord_iff : IsWord a ↔
    (a.toNat : ℤ) = (low a).toNat + (low a).msb.toNat * (2 ^ 64 - 2 ^ 32) := by
  rw [IsWord, ← BitVec.toNat_inj, ← toNat_sext32, Nat.cast_inj]

/-- The body of a truncated result compares the sum with the full register. -/
theorem wordTruncation_eq (value : ℤ) (full : Word) :
    wordTruncation value ((full >>> 32).toNat : ℤ) (sext32 (low full)).toNat
      (signBit32 (low full)).toNat = value - full.toNat := by
  have halves : full.toNat = full.toNat / 2 ^ 32 * 2 ^ 32 + full.toNat % 2 ^ 32 :=
    (Nat.div_add_mod' _ _).symm
  rw [wordTruncation, binaryCheck_eq_zero (signBit32_le_one _), toNat_signBit32,
    toNat_sext32, toNat_low, BitVec.toNat_ushiftRight, Nat.shiftRight_eq_div_pow,
    signExtOffset, twoPow64, twoPow32]
  push_cast
  have cast : (full.toNat : ℤ) =
      (full.toNat / 2 ^ 32 : ℕ) * 2 ^ 32 + (full.toNat % 2 ^ 32 : ℕ) := by
    exact_mod_cast halves
  push_cast at cast
  linear_combination cast

/-- The upper half that a sign-extended word needs. -/
theorem isWord_iff_upper : IsWord a ↔
    (upper a : ℤ) = (low a).msb.toNat * (2 ^ 32 - 1) := by
  rw [isWord_iff, toNat_low, upper]
  omega

theorem upper_eq_zero_iff : upper a = 0 ↔ a.toNat < 2 ^ 32 := by
  rw [upper]
  omega

theorem halves : (a.toNat : ℤ) = upper a * 2 ^ 32 + (low a).toNat := by
  rw [upper, toNat_low]
  omega

end Halves

section Shifts

variable (a : Word) {amount : ℕ} (short : amount < 32)

include short

theorem toNat_powerW : (((1 : BitVec 32) <<< amount).setWidth 64).toNat = 2 ^ amount := by
  rw [BitVec.toNat_setWidth_of_le (by decide), toNat_power short]

/-- What the body of a left shift leaves. -/
theorem sllw_value :
    (a.toNat * (((1 : BitVec 32) <<< amount).setWidth 64).toNat : ℤ) -
        ((((low a).setWidth 64 * ((1 : BitVec 32) <<< amount).setWidth 64) >>> 32
          : Word).toNat * 2 ^ 32 + (sext32 (low a <<< amount)).toNat) =
      2 ^ 32 * (upper a * 2 ^ amount -
        (low a <<< amount).msb.toNat * (2 ^ 32 - 1)) := by
  have lowLt := (low a).isLt
  have power : 2 ^ amount < 2 ^ 32 := Nat.pow_lt_pow_right (by omega) short
  have product : (low a).toNat * 2 ^ amount < 2 ^ 64 :=
    calc (low a).toNat * 2 ^ amount < 2 ^ 32 * 2 ^ 32 :=
          Nat.mul_lt_mul'' lowLt power
      _ = 2 ^ 64 := by norm_num
  have overflow : (((low a).setWidth 64 *
      ((1 : BitVec 32) <<< amount).setWidth 64) >>> 32 : Word).toNat =
        (low a).toNat * 2 ^ amount / 2 ^ 32 := by
    rw [BitVec.toNat_ushiftRight, BitVec.toNat_mul, toNat_powerW short,
      BitVec.toNat_setWidth_of_le (by decide), Nat.mod_eq_of_lt product,
      Nat.shiftRight_eq_div_pow]
  have shifted : (low a <<< amount).toNat = (low a).toNat * 2 ^ amount % 2 ^ 32 := by
    rw [BitVec.toNat_shiftLeft, Nat.shiftLeft_eq]
  have split := Nat.div_add_mod' ((low a).toNat * 2 ^ amount) (2 ^ 32)
  rw [toNat_powerW short, overflow, toNat_sext32, shifted, halves a]
  generalize (low a).toNat * 2 ^ amount / 2 ^ 32 = quotient,
    (low a).toNat * 2 ^ amount % 2 ^ 32 = remainder at split
  zify at split
  push_cast
  linear_combination -split

theorem remainderW_eq :
    (if amount = 0 then (0 : Word)
      else (low a % (1 : BitVec 32) <<< amount).setWidth 64).toNat =
      (low a).toNat % 2 ^ amount := by
  split
  · rename_i zero
    rw [zero, pow_zero, Nat.mod_one]
    rfl
  · rw [BitVec.toNat_setWidth_of_le (by decide), BitVec.toNat_umod,
      toNat_power short]

/-- What the body of a logical right shift leaves. -/
theorem srlw_value :
    ((sext32 (low a >>> amount)).toNat : ℤ) *
        (((1 : BitVec 32) <<< amount).setWidth 64).toNat +
        ((low a).toNat % 2 ^ amount : ℕ) - a.toNat =
      2 ^ 32 * ((low a >>> amount).msb.toNat * (2 ^ 32 - 1) * 2 ^ amount -
        upper a) := by
  have split := Nat.div_add_mod' (low a).toNat (2 ^ amount)
  rw [toNat_powerW short, toNat_sext32, BitVec.toNat_ushiftRight,
    Nat.shiftRight_eq_div_pow, halves a]
  zify at split
  push_cast
  linear_combination split

theorem srawCorrection_eq :
    ((signBit32 (low a) * ((1 : BitVec 32) <<< amount - 1).setWidth 64).toNat : ℤ) =
      (low a).msb.toNat * (2 ^ amount - 1) := by
  have bound : 2 ^ amount < 2 ^ 32 := Nat.pow_lt_pow_right (by omega) short
  have positive : 1 ≤ 2 ^ amount := Nat.one_le_two_pow
  have less : (((1 : BitVec 32) <<< amount - 1).setWidth 64).toNat =
      2 ^ amount - 1 := by
    rw [BitVec.toNat_setWidth_of_le (by decide), BitVec.toNat_sub_of_le,
      toNat_power short]
    · rfl
    · rw [BitVec.le_def, toNat_power short]
      exact positive
  rw [BitVec.toNat_mul, toNat_signBit32, less]
  cases (low a).msb with
  | false => simp
  | true =>
      rw [Bool.toNat_true, one_mul, Nat.mod_eq_of_lt (by omega)]
      push_cast [positive]
      ring

/-- What the body of an arithmetic right shift leaves. -/
theorem sraw_value :
    ((sext32 ((low a).sshiftRight amount)).toNat : ℤ) *
        (((1 : BitVec 32) <<< amount).setWidth 64).toNat +
        ((low a).toNat % 2 ^ amount : ℕ) -
        (a.toNat + (low a).msb.toNat * (2 ^ amount - 1) * 2 ^ 32) =
      2 ^ 32 * ((low a).msb.toNat * (2 ^ 32 - 1) * 2 ^ amount -
        upper a) := by
  have split := Words.toNat_sshiftRight_mul (low a) (le_of_lt short)
  rw [toNat_powerW short, toNat_sext32, BitVec.msb_sshiftRight, halves a]
  push_cast at split ⊢
  linear_combination split

/-- An odd number is a multiple of a power of two only when the power is one. -/
theorem odd_eq_mul_power_iff {upper : ℕ} :
    ((upper : ℤ) * 2 ^ amount = 2 ^ 32 - 1) ↔ amount = 0 ∧ upper = 2 ^ 32 - 1 := by
  cases amount with
  | zero =>
      rw [pow_zero, mul_one]
      omega
  | succ rest =>
      rw [pow_succ, ← mul_assoc]
      omega

theorem sllw_fits_iff :
    (upper a * 2 ^ amount -
        (low a <<< amount).msb.toNat * (2 ^ 32 - 1) : ℤ) = 0 ↔
      ShiftLeftFits a amount := by
  rw [ShiftLeftFits, sub_eq_zero]
  by_cases zero : amount = 0
  · rw [if_pos zero, zero, isWord_iff_upper, pow_zero, mul_one,
      BitVec.shiftLeft_zero]
  · rw [if_neg zero, ← upper_eq_zero_iff]
    cases (low a <<< amount).msb with
    | false => simp
    | true =>
        rw [Bool.toNat_true, Nat.cast_one, one_mul, odd_eq_mul_power_iff short]
        simp [zero]

omit short in
theorem srlw_fits_iff :
    ((low a >>> amount).msb.toNat * (2 ^ 32 - 1) * 2 ^ amount -
        upper a : ℤ) = 0 ↔ ShiftRightFits a amount := by
  rw [ShiftRightFits, sub_eq_zero]
  by_cases zero : amount = 0
  · rw [if_pos zero, zero, isWord_iff_upper, pow_zero, mul_one,
      BitVec.ushiftRight_zero, eq_comm]
  · have cleared : (low a >>> amount).msb = false := by
      rw [BitVec.msb_ushiftRight]
      simp [zero]
    rw [if_neg zero, ← upper_eq_zero_iff, cleared, Bool.toNat_false,
      Nat.cast_zero, zero_mul, zero_mul]
    omega

theorem sraw_fits_iff :
    ((low a).msb.toNat * (2 ^ 32 - 1) * 2 ^ amount -
        upper a : ℤ) = 0 ↔ ShiftRightArithFits a amount := by
  have small : a.toNat < 2 ^ 31 ↔ upper a = 0 ∧ (low a).msb = false := by
    rw [BitVec.msb_eq_false_iff_two_mul_lt, toNat_low, upper]
    omega
  have upperLt : upper a < 2 ^ 32 := by
    have aLt := a.isLt
    rw [upper]
    omega
  rw [ShiftRightArithFits, sub_eq_zero, isWord_iff_upper, small]
  cases (low a).msb with
  | false =>
      simp only [Bool.toNat_false, Nat.cast_zero, zero_mul, and_true]
      omega
  | true =>
      cases amount with
      | zero => simp [eq_comm]
      | succ rest =>
          have large : (2 : ℤ) ^ 1 ≤ 2 ^ (rest + 1) :=
            pow_le_pow_right₀ (by norm_num) (by omega)
          simp only [Bool.toNat_true, Nat.cast_one, one_mul, reduceCtorEq,
            and_false, Nat.succ_ne_zero, false_and, or_self, iff_false]
          omega

/-- The size of what a shift body leaves. -/
theorem shifted_bound (sign : Bool) :
    |((upper a : ℤ) * 2 ^ amount - sign.toNat * (2 ^ 32 - 1))| < 2 ^ 200 ∧
      |((sign.toNat : ℤ) * (2 ^ 32 - 1) * 2 ^ amount - upper a)| < 2 ^ 200 := by
  have upperLt : (upper a : ℤ) < 2 ^ 32 := by
    have aLt := a.isLt
    rw [upper]
    omega
  have power : (2 : ℤ) ^ amount < 2 ^ 32 := pow_lt_pow_right₀ (by norm_num) short
  have positive : (0 : ℤ) < 2 ^ amount := by positivity
  have product : (upper a : ℤ) * 2 ^ amount < 2 ^ 32 * 2 ^ 32 :=
    mul_lt_mul'' upperLt power (by omega) (by omega)
  have nonneg : 0 ≤ (upper a : ℤ) * 2 ^ amount := by positivity
  cases sign with
  | false =>
      simp only [Bool.toNat_false, abs_lt]
      omega
  | true =>
      simp only [Bool.toNat_true, abs_lt]
      omega

end Shifts

theorem intCast_mul_twoPow32_iff {value : ℤ} (small : |value| < 2 ^ 200) :
    (((2 ^ 32 * value : ℤ)) : Fr) = 0 ↔ value = 0 := by
  have bound : |2 ^ 32 * value| < 2 ^ 254 := by
    rw [abs_lt] at small ⊢
    omega
  rw [intCast_eq_zero_iff_of_small bound]
  omega

/-! The bodies of the word operations. -/

def RegWOp.body : RegWOp → Row ℤ → ℤ
  | .addw => evaluateAluWAddwRaw
  | .subw => evaluateAluWSubwRaw
  | .sllw => evaluateWSllRaw
  | .srlw => evaluateWSrlRaw
  | .sraw => evaluateWSraRaw

def ImmWOp.body : ImmWOp → Row ℤ → ℤ
  | .addiw => evaluateAluWAddiwRaw
  | .slliw => evaluateWSllRaw
  | .srliw => evaluateWSrlRaw
  | .sraiw => evaluateWSraRaw

section Bodies

variable {row : TraceRow} {a b : Word}

theorem sllw_iff (computes : Computes row a (sllw a b) (sllwAux a (shamtW b))) :
    ((evaluateWSllRaw row.integers : ℤ) : Fr) = 0 ↔
      ShiftLeftFits a (shamtW b) := by
  have short := shamtW_lt b
  have cells : Computes row a (sllw a b)
    (((1 : BitVec 32) <<< shamtW b).setWidth 64,
      ((low a).setWidth 64 * ((1 : BitVec 32) <<< shamtW b).setWidth 64) >>> 32,
      0) := computes
  rw [evaluateWSllRaw, shiftLeftBody, cells.rs1Cell, cells.aux0Cell,
    cells.aux1Cell, cells.rdCell, sllw, twoPow32, sllw_value a short,
    intCast_mul_twoPow32_iff (shifted_bound a short _).1, sllw_fits_iff a short]

theorem srlw_iff (computes : Computes row a (srlw a b) (srlwAux a (shamtW b))) :
    ((evaluateWSrlRaw row.integers : ℤ) : Fr) = 0 ↔
      ShiftRightFits a (shamtW b) := by
  have short := shamtW_lt b
  have cells : Computes row a (srlw a b)
    (((1 : BitVec 32) <<< shamtW b).setWidth 64,
      if shamtW b = 0 then 0
      else (low a % (1 : BitVec 32) <<< shamtW b).setWidth 64, 0) := computes
  rw [evaluateWSrlRaw, shiftRightBody, cells.rs1Cell, cells.aux0Cell,
    cells.aux1Cell, cells.rdCell, srlw, remainderW_eq a short,
    srlw_value a short, intCast_mul_twoPow32_iff (shifted_bound a short _).2,
    srlw_fits_iff a]

theorem sraw_iff (computes : Computes row a (sraw a b) (srawAux a (shamtW b))) :
    ((evaluateWSraRaw row.integers : ℤ) : Fr) = 0 ↔
      ShiftRightArithFits a (shamtW b) := by
  have short := shamtW_lt b
  have cells : Computes row a (sraw a b)
    (((1 : BitVec 32) <<< shamtW b).setWidth 64,
      if shamtW b = 0 then 0
      else (low a % (1 : BitVec 32) <<< shamtW b).setWidth 64,
      signBit32 (low a) * ((1 : BitVec 32) <<< shamtW b - 1).setWidth 64) :=
    computes
  rw [evaluateWSraRaw, shiftRightArithBody, cells.rs1Cell, cells.aux0Cell,
    cells.aux1Cell, cells.aux2Cell, cells.rdCell, sraw, remainderW_eq a short,
    srawCorrection_eq a short, twoPow32, sraw_value a short,
    intCast_mul_twoPow32_iff (shifted_bound a short _).2, sraw_fits_iff a short]

/-- A truncated sum wraps as a full word first. -/
theorem addw_iff (sum : ℤ) (full : Word)
    (wraps : sum = full.toNat ∨ |sum - full.toNat| = 2 ^ 64) :
    ((wordTruncation sum ((full >>> 32).toNat : ℤ) (sext32 (low full)).toNat
      (signBit32 (low full)).toNat : ℤ) : Fr) = 0 ↔ sum = full.toNat := by
  rw [wordTruncation_eq, intCast_eq_zero_iff_of_small, sub_eq_zero]
  rcases wraps with same | wrapped
  · rw [same, sub_self]
    norm_num
  · rw [wrapped]
    norm_num

theorem RegWOp.body_iff (op : RegWOp) (operand : row.rs2Val = b)
    (computes : Computes row a (op.result a b) (op.aux a b)) :
    ((op.body row.integers : ℤ) : Fr) = 0 ↔ op.Fits a b := by
  have aLt := a.isLt
  have bLt := b.isLt
  cases op with
  | addw =>
      have truncated : Rv64.addw a b = sext32 (low (a + b)) := by
        rw [Rv64.addw, low, low, low, BitVec.setWidth_add _ _ (by decide)]
      have cells : Computes row a (sext32 (low (a + b)))
        ((a + b) >>> 32, signBit32 (low (a + b)), 0) := truncated ▸ computes
      rw [RegWOp.body, evaluateAluWAddwRaw, cells.rs1Cell, rs2Cell, operand,
        cells.aux0Cell, cells.aux1Cell, cells.rdCell, addw_iff]
      · rw [RegWOp.Fits, BitVec.toNat_add]
        omega
      · rw [BitVec.toNat_add, abs_eq (by norm_num)]
        omega
  | subw =>
      have truncated : Rv64.subw a b = sext32 (low (a - b)) := by
        have lows : low (a - b) = low a - low b := by
          apply BitVec.eq_of_toNat_eq
          simp only [BitVec.toNat_setWidth, BitVec.toNat_sub]
          omega
        rw [Rv64.subw, lows]
      have cells : Computes row a (sext32 (low (a - b)))
        ((a - b) >>> 32, signBit32 (low (a - b)), 0) := truncated ▸ computes
      rw [RegWOp.body, evaluateAluWSubwRaw, cells.rs1Cell, rs2Cell, operand,
        cells.aux0Cell, cells.aux1Cell, cells.rdCell, addw_iff]
      · rw [RegWOp.Fits, BitVec.toNat_sub]
        omega
      · rw [BitVec.toNat_sub, abs_eq (by norm_num)]
        omega
  | sllw => exact sllw_iff computes
  | srlw => exact srlw_iff computes
  | sraw => exact sraw_iff computes

theorem ImmWOp.body_iff (op : ImmWOp)
    (operand : extractImmediate row.instruction = b)
    (computes : Computes row a (op.result a b) (op.aux a b)) :
    ((op.body row.integers : ℤ) : Fr) = 0 ↔ op.Fits a b := by
  have aLt := a.isLt
  have bLt := b.isLt
  cases op with
  | addiw =>
      have truncated : Rv64.addw a b = sext32 (low (a + b)) := by
        rw [Rv64.addw, low, low, low, BitVec.setWidth_add _ _ (by decide)]
      have cells : Computes row a (sext32 (low (a + b)))
        ((a + b) >>> 32, signBit32 (low (a + b)), 0) := truncated ▸ computes
      rw [ImmWOp.body, evaluateAluWAddiwRaw, cells.rs1Cell, immediateCell, operand,
        cells.aux0Cell, cells.aux1Cell, cells.rdCell, addw_iff]
      · rw [ImmWOp.Fits, BitVec.toNat_add]
        omega
      · rw [BitVec.toNat_add, abs_eq (by norm_num)]
        omega
  | slliw => exact sllw_iff computes
  | srliw => exact srlw_iff computes
  | sraiw => exact sraw_iff computes

end Bodies

/-! Recorded steps. -/

def Instruction.isMemory : Instruction → Bool
  | .load _ _ _ _ => true
  | .store _ _ _ _ => true
  | _ => false

def Instruction.isWordOp : Instruction → Bool
  | .opW _ _ _ _ => true
  | .opImmW _ _ _ _ => true
  | _ => false

section Recorded

variable {vm after : Vm} {len : Byte}

/-- The address column is filled before the step and compared with the sum of
the register and the offset. -/
theorem memoryOps_iff {row : TraceRow} {imm : Word}
    (immediate : extractImmediate row.instruction = imm)
    (address : row.memAddr = row.rs1Val + imm) :
    ((evaluateMemoryOpsRaw row.integers : ℤ) : Fr) = 0 ↔
      row.rs1Val.toNat + imm.toNat < 2 ^ 64 := by
  have rs1Lt := row.rs1Val.isLt
  have immLt := imm.isLt
  have value : evaluateMemoryOpsRaw row.integers =
      (row.memAddr.toNat : ℤ) - (row.rs1Val.toNat + imm.toNat) := by
    rw [evaluateMemoryOpsRaw, rs1ValCell, immediateCell, immediate]
    rfl
  rw [address, BitVec.toNat_add] at value
  have small : |evaluateMemoryOpsRaw row.integers| < 2 ^ 254 := by
    rw [value, abs_lt]
    omega
  rw [intCast_eq_zero_iff_of_small small, value]
  omega

theorem recordedRow_memory {insn : Instruction} (memory : insn.isMemory) (step : ℕ) :
    (TraceRow.record step vm after ⟨insn, len⟩).Satisfies
      (within memoryWordSelectors) ↔ MemoryWordFits vm.cpu insn := by
  cases insn with
  | load op rd rs1 imm =>
      have listed : keptBodies (within memoryWordSelectors)
          (.load op rd rs1 imm) = [evaluateMemoryOpsRaw] := by
        cases op <;> rfl
      rw [TraceRow.satisfies_record_iff listed]
      exact memoryOps_iff rfl rfl
  | store op rs1 rs2 imm =>
      have listed : keptBodies (within memoryWordSelectors)
          (.store op rs1 rs2 imm) = [evaluateMemoryOpsRaw] := by
        cases op <;> rfl
      rw [TraceRow.satisfies_record_iff listed]
      exact memoryOps_iff rfl rfl
  | _ => exact absurd memory Bool.false_ne_true

variable {ready : Vm} {rd : Reg} (nonzero : rd ≠ 0)

include nonzero

theorem recordedRow_opW (op : RegWOp) (rs1 rs2 : Reg) (step : ℕ)
    (executes : vm.Executes ready ⟨.opW op rd rs1 rs2, len⟩) :
    (recordedRow step vm (ready.execute (.opW op rd rs1 rs2)).1
      (.opW op rd rs1 rs2) len).Satisfies (within memoryWordSelectors) ↔
        MemoryWordFits vm.cpu (.opW op rd rs1 rs2) := by
  have listed : keptBodies (within memoryWordSelectors) (.opW op rd rs1 rs2) =
      [op.body] := by
    rw [keptBodies, selectorOf_opW]
    cases op <;> rfl
  rw [TraceRow.satisfies_record_iff listed]
  refine op.body_iff rfl ⟨rfl, ?_, rfl⟩
  rw [recordedRow_rdValAfter]
  refine (readReg_written ready nonzero _ _).trans ?_
  rw [executes.readReg, executes.readReg]

theorem recordedRow_opImmW (op : ImmWOp) (rs1 : Reg) (imm : Imm) (step : ℕ)
    (executes : vm.Executes ready ⟨.opImmW op rd rs1 imm, len⟩) :
    (recordedRow step vm (ready.execute (.opImmW op rd rs1 imm)).1
      (.opImmW op rd rs1 imm) len).Satisfies (within memoryWordSelectors) ↔
        MemoryWordFits vm.cpu (.opImmW op rd rs1 imm) := by
  have listed : keptBodies (within memoryWordSelectors) (.opImmW op rd rs1 imm) =
      [op.body] := by
    rw [keptBodies, selectorOf_opImmW]
    cases op <;> rfl
  rw [TraceRow.satisfies_record_iff listed]
  refine op.body_iff rfl ⟨rfl, ?_, rfl⟩
  rw [recordedRow_rdValAfter]
  refine (readReg_written ready nonzero _ _).trans ?_
  rw [executes.readReg]

end Recorded

/-- The row of a load or store, and of an executed word operation, satisfies
the memory and word bodies exactly when its operands fit. -/
theorem memoryWord_complete_iff {tracer : TracingVm} {insn : Instruction}
    {len : Byte} {after : Vm} {row : TraceRow}
    (stands : fetchDecode tracer.vm.memory tracer.vm.cpu.pc = .ok ⟨insn, len⟩)
    (stepped : tracer.step = some (⟨after, tracer.trace ++ [row]⟩, .ok ()))
    (family : insn.isMemory ∨ insn.isWordOp ∧ insn.rd ≠ some 0 ∧
      ∃ ready, tracer.vm.Executes ready ⟨insn, len⟩) :
    row.Satisfies (within memoryWordSelectors) ↔
      MemoryWordFits tracer.vm.cpu insn := by
  have recorded := TracingVm.row_eq stands stepped
  rcases family with memory | ⟨word, dest, ready, executes⟩
  · rw [recorded]
    exact recordedRow_memory memory _
  · have ran : ready.execute insn = ((ready.execute insn).1, .ok ()) := by
      cases insn with
      | opW => rfl
      | opImmW => rfl
      | _ => exact absurd word Bool.false_ne_true
    have again := TracingVm.step_eq stands executes ran
    rw [stepped, Option.some_inj, Prod.mk.injEq, TracingVm.mk.injEq] at again
    obtain ⟨⟨rfl, rows⟩, _⟩ := again
    rw [(List.cons.inj (List.append_cancel_left rows)).1]
    cases insn with
    | opW op rd rs1 rs2 =>
        exact recordedRow_opW (fun zero => dest (by rw [zero]; rfl)) op rs1 rs2 _
          executes
    | opImmW op rd rs1 imm =>
        exact recordedRow_opImmW (fun zero => dest (by rw [zero]; rfl)) op rs1 imm _
          executes
    | _ => exact absurd word Bool.false_ne_true

/-- `addw x3, x1, x2` with a sum that carries out of the low half. -/
def carryingVm : Vm := ((loadedVm 0 0x002081BB).writeReg 1 0xFFFFFFFF).writeReg 2 1

theorem memoryWord_complete_addw :
    ∃ after row,
      TracingVm.step (.new carryingVm) = some (⟨after, [] ++ [row]⟩, .ok ()) ∧
      row.Satisfies (within memoryWordSelectors) := by
  have stands : fetchDecode carryingVm.memory carryingVm.cpu.pc =
      .ok ⟨.opW .addw 3 1 2, 4⟩ := by decide
  obtain ⟨ready, executes⟩ := Vm.executes_of_unprivileged rfl rfl stands
  have stepped := @TracingVm.step_eq (.new carryingVm) _ _ _ stands executes rfl
  refine ⟨_, _, stepped, ?_⟩
  have dest : (Instruction.opW .addw 3 1 2).rd ≠ some 0 := by decide
  have fits : (0xFFFFFFFF : Word).toNat + (1 : Word).toNat < 2 ^ 64 := by decide
  exact (@memoryWord_complete_iff (.new carryingVm) (.opW .addw 3 1 2) 4 _ _ stands stepped
    (.inr ⟨rfl, dest, ready, executes⟩)).2 fits

/-- `lw x1, -4(x2)` with eight in `x2`: the offset column holds the negative
offset as an unsigned word. -/
theorem load_row_rejected :
    ∃ after row,
      TracingVm.step (.new ((loadedVm 0 0xFFC12083).writeReg 2 8)) =
        some (⟨after, [] ++ [row]⟩, .ok ()) ∧
      ¬ row.Satisfies (within memoryWordSelectors) := by
  have stands : fetchDecode ((loadedVm 0 0xFFC12083).writeReg 2 8).memory 0 =
      .ok ⟨.load .lw 1 2 (-4), 4⟩ := by decide
  obtain ⟨ready, executes⟩ := Vm.executes_of_unprivileged rfl rfl stands
  have stepped := @TracingVm.step_eq
    (.new ((loadedVm 0 0xFFC12083).writeReg 2 8)) _ _ _ stands executes rfl
  refine ⟨_, _, stepped, fun satisfied => ?_⟩
  have fits := (recordedRow_memory rfl _).1 satisfied
  have wraps : ¬ MemoryWordFits ((loadedVm 0 0xFFC12083).writeReg 2 8).cpu
      (.load .lw 1 2 (-4)) := by
    show ¬ (8 : Word).toNat + (Imm.word (-4)).toNat < 2 ^ 64
    decide
  exact wraps fits

end MetaVm.Riscv
