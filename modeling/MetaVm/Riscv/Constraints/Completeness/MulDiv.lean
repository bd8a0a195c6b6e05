import MetaVm.Riscv.Constraints.Completeness.WordOps

namespace MetaVm.Riscv

open Constraints Rv64 Zkp

/-! Rows of multiplications and divisions. Signed results are stored as unsigned
words, and the bodies are identities between unsigned numbers. -/

def mulDivSelectors : List Column :=
  [colSelMulh, colSelMulhsu, colSelMulw, colSelDiv, colSelRem, colSelDivw,
    colSelRemw]

/-- The signed operands divide like unsigned ones. -/
def DivisionFits (a b : Word) : Prop :=
  0 ≤ a.toInt ∧ 0 < b.toInt ∨ a.toInt.natAbs < b.toInt.natAbs ∨ b = 1 ∨ a = b

/-- What is left of a division of words, computed from the full registers, fits
into the correction column. -/
def CorrectionFits (quotient remainder a b : Word) : Prop :=
  let excess : ℤ := quotient.toNat * b.toNat + remainder.toNat - a.toNat
  0 ≤ excess ∧ excess < 2 ^ 63 ∨ 2 ^ 96 - 2 ^ 63 ≤ excess ∧ excess < 2 ^ 96

/-- The quotient and remainder that a signed division of the low halves
leaves, as sign-extended words. -/
def WordDivisionFits (a b : Word) : Prop :=
  if low b = 0 then CorrectionFits (-1) (sext32 (low a)) a b
  else CorrectionFits (sext32 ((low a).sdiv (low b)))
    (sext32 ((low a).srem (low b))) a b

def MulDivOp.Fits (op : MulDivOp) (a b : Word) : Prop :=
  match op with
  | mul => True
  | mulhu => True
  | mulh => 0 ≤ a.toInt * b.toInt
  | mulhsu => 0 ≤ a.toInt ∨ b = 0
  | mulw => a.toNat < 2 ^ 32 ∧ b.toNat < 2 ^ 32 ∨ a = 0 ∨ b = 0
  | div => if b = 0 then a = 0 else DivisionFits a b
  | rem => b = 0 ∨ DivisionFits a b
  | divu => b ≠ 0 ∨ a = 0
  | remu => True
  | divw => WordDivisionFits a b
  | remw => if low b = 0 then IsWord a else WordDivisionFits a b
  | divuw =>
      if low b = 0 then CorrectionFits (-1) ((low a).setWidth 64) a b
      else CorrectionFits (sext32 (low a / low b))
        ((low a % low b).setWidth 64) a b
  | remuw =>
      if low b = 0 then IsWord a
      else CorrectionFits ((low a / low b).setWidth 64)
        (sext32 (low a % low b)) a b

/-- An integer as an unsigned word. -/
def wrap (x : ℤ) : ℤ := x + if x < 0 then 2 ^ 64 else 0

theorem wrap_of_neg {x : ℤ} (negative : x < 0) : wrap x = x + 2 ^ 64 := by
  rw [wrap, if_pos negative]

theorem wrap_of_nonneg {x : ℤ} (nonneg : 0 ≤ x) : wrap x = x := by
  rw [wrap, if_neg (not_lt.2 nonneg), add_zero]

section Division

variable {a b : ℤ} (nonzero : b ≠ 0)

include nonzero

theorem wrap_division_negative_negative (aNeg : a < 0) (bNeg : b < 0) :
    wrap (a.tdiv b) * wrap b + wrap (a.tmod b) - wrap a = 0 ↔
      a.natAbs < b.natAbs ∨ a = b := by
  have split : b * a.tdiv b + a.tmod b = a := Int.mul_tdiv_add_tmod a b
  have small := tdiv_eq_zero_iff (a := a) nonzero
  have nonneg : 0 ≤ a.tdiv b :=
    Int.tdiv_nonneg_of_nonpos_of_nonpos (le_of_lt aNeg) (le_of_lt bNeg)
  have same : a = b → a.tmod b = 0 ∧ a.tdiv b = 1 := by
    rintro rfl
    exact ⟨Int.tmod_self, Int.tdiv_self nonzero⟩
  have remainder : a.tmod b ≤ 0 := by
    have flipped := Int.tmod_nonneg b (Int.neg_nonneg_of_nonpos (le_of_lt aNeg))
    rw [Int.neg_tmod] at flipped
    omega
  rw [wrap_of_nonneg nonneg, wrap_of_neg bNeg, wrap_of_neg aNeg]
  rcases lt_or_eq_of_le remainder with negative | zero
  · have value : a.tdiv b * (b + 2 ^ 64) + wrap (a.tmod b) - (a + 2 ^ 64) =
        2 ^ 64 * a.tdiv b := by
      rw [wrap_of_neg negative]
      linear_combination split
    rw [value]
    omega
  · have value : a.tdiv b * (b + 2 ^ 64) + wrap (a.tmod b) - (a + 2 ^ 64) =
        2 ^ 64 * (a.tdiv b - 1) := by
      rw [wrap_of_nonneg (le_of_eq zero.symm)]
      linear_combination split
    rw [value]
    constructor
    · intro one
      have quotient : a.tdiv b = 1 := by omega
      rw [quotient, zero] at split
      exact .inr (by omega)
    · rintro (less | equal)
      · rw [small.2 less, zero] at split
        omega
      · rw [(same equal).2]
        norm_num

theorem wrap_division_negative_positive (aNeg : a < 0) (bPos : 0 < b) :
    wrap (a.tdiv b) * wrap b + wrap (a.tmod b) - wrap a = 0 ↔
      a.natAbs < b.natAbs ∨ b = 1 := by
  have split : b * a.tdiv b + a.tmod b = a := Int.mul_tdiv_add_tmod a b
  have small := tdiv_eq_zero_iff (a := a) nonzero
  have quotient : a.tdiv b ≤ 0 := by
    have flipped := Int.tdiv_nonneg (Int.neg_nonneg_of_nonpos (le_of_lt aNeg))
      (le_of_lt bPos)
    rw [Int.neg_tdiv] at flipped
    omega
  have remainder : a.tmod b ≤ 0 := by
    have flipped := Int.tmod_nonneg b (Int.neg_nonneg_of_nonpos (le_of_lt aNeg))
    rw [Int.neg_tmod] at flipped
    omega
  have byOne : b = 1 → a.tmod b = 0 := by
    rintro rfl
    exact Int.tmod_one a
  rw [wrap_of_nonneg (le_of_lt bPos), wrap_of_neg aNeg]
  rcases lt_or_eq_of_le quotient with negative | zero
  · have value : wrap (a.tdiv b) * b + wrap (a.tmod b) - (a + 2 ^ 64) =
        2 ^ 64 * (b - 1) + (wrap (a.tmod b) - a.tmod b) := by
      rw [wrap_of_neg negative]
      linear_combination split
    have large : ¬ a.natAbs < b.natAbs := fun less => by
      have := small.2 less
      omega
    rw [value, wrap]
    split <;> omega
  · have whole : a.tmod b = a := by
      rw [zero] at split
      omega
    have less := small.1 zero
    rw [zero, whole, wrap_of_nonneg le_rfl, wrap_of_neg aNeg]
    simp [less]

theorem wrap_division_positive_negative (aHigh : a < 2 ^ 63) (bLow : -2 ^ 63 ≤ b)
    (aPos : 0 ≤ a) (bNeg : b < 0) :
    wrap (a.tdiv b) * wrap b + wrap (a.tmod b) - wrap a = 0 ↔
      a.natAbs < b.natAbs := by
  have split : b * a.tdiv b + a.tmod b = a := Int.mul_tdiv_add_tmod a b
  have small := tdiv_eq_zero_iff (a := a) nonzero
  have quotient := Int.tdiv_nonpos_of_nonneg_of_nonpos aPos (le_of_lt bNeg)
  have remainder := Int.tmod_nonneg b aPos
  have bounded : (a.tdiv b).natAbs ≤ a.natAbs := by
    rw [Int.natAbs_tdiv]
    exact Nat.div_le_self _ _
  rw [wrap_of_nonneg aPos, wrap_of_nonneg remainder, wrap_of_neg bNeg]
  rcases lt_or_eq_of_le quotient with negative | zero
  · have value : wrap (a.tdiv b) * (b + 2 ^ 64) + a.tmod b - a =
        2 ^ 64 * (a.tdiv b + b + 2 ^ 64) := by
      rw [wrap_of_neg negative]
      linear_combination split
    rw [value]
    omega
  · have whole : a.tmod b = a := by
      rw [zero] at split
      omega
    rw [zero, whole, wrap_of_nonneg le_rfl]
    simp [small.1 zero]

/-- Quotient and remainder of signed words, stored unsigned, multiply back to
the dividend only in these cases. -/
theorem wrap_division_iff (aHigh : a < 2 ^ 63) (bLow : -2 ^ 63 ≤ b) :
    wrap (a.tdiv b) * wrap b + wrap (a.tmod b) - wrap a = 0 ↔
      0 ≤ a ∧ 0 < b ∨ a.natAbs < b.natAbs ∨ b = 1 ∨ a = b := by
  rcases lt_or_ge a 0 with aNeg | aPos
  · rcases lt_or_gt_of_ne nonzero with bNeg | bPos
    · rw [wrap_division_negative_negative nonzero aNeg bNeg]
      omega
    · rw [wrap_division_negative_positive nonzero aNeg bPos]
      omega
  · rcases lt_or_gt_of_ne nonzero with bNeg | bPos
    · rw [wrap_division_positive_negative nonzero aHigh bLow aPos bNeg]
      omega
    · have split : b * a.tdiv b + a.tmod b = a := Int.mul_tdiv_add_tmod a b
      rw [wrap_of_nonneg (Int.tdiv_nonneg aPos (le_of_lt bPos)),
        wrap_of_nonneg (le_of_lt bPos), wrap_of_nonneg (Int.tmod_nonneg b aPos),
        wrap_of_nonneg aPos]
      have value : a.tdiv b * b + a.tmod b - a = 0 := by linear_combination split
      simp [value, aPos, bPos]

end Division

section Signed

variable (a b : Word)

/-- A word is its signed value, up to the modulus when that is negative. -/
theorem toNat_eq_wrap : (a.toNat : ℤ) = wrap a.toInt := by
  have aLt := a.isLt
  rw [wrap, BitVec.toInt_eq_toNat_cond]
  split <;> split <;> omega

theorem toInt_bounds : -2 ^ 63 ≤ a.toInt ∧ a.toInt < 2 ^ 63 :=
  ⟨BitVec.le_toInt a, BitVec.toInt_lt⟩

theorem toNat_emod {width : ℕ} (x : BitVec width) {modulus : ℤ}
    (divides : modulus ∣ 2 ^ width) : (x.toNat : ℤ) % modulus = x.toInt % modulus := by
  rw [Words.toInt_eq_sub_msb]
  obtain ⟨factor, equal⟩ := divides
  rw [equal, ← mul_assoc, mul_comm _ factor, ← mul_assoc,
    Int.sub_mul_emod_self_right]

/-- The high word of a product of signed readings. -/
theorem toNat_highWord {x y : BitVec 128} {product : ℤ}
    (value : x.toInt * y.toInt = product) (small : |product| < 2 ^ 127) :
    ((((x * y).sshiftRight 64).setWidth 64 : Word).toNat : ℤ) =
      product / 2 ^ 64 % 2 ^ 64 := by
  have full : (x * y).toInt = product := by
    rw [abs_lt] at small
    rw [BitVec.toInt_mul, value, Int.bmod_eq_of_le] <;> omega
  rw [BitVec.toNat_setWidth]
  push_cast
  rw [toNat_emod _ (by norm_num), BitVec.toInt_sshiftRight, full,
    Int.shiftRight_eq_div_pow]
  norm_num

theorem signBit_eq : ((signBit a).toNat : ℤ) = if a.toInt < 0 then 1 else 0 := by
  have aLt := a.isLt
  have sign := BitVec.msb_eq_toInt (x := a)
  rw [toNat_signBit, sign]
  by_cases negative : a.toInt < 0 <;> simp [negative]

/-- The low word of a product does not depend on how it is read. -/
theorem toNat_productLow_eq {x y : ℤ} (left : (a.toNat : ℤ) % 2 ^ 64 = x % 2 ^ 64)
    (right : (b.toNat : ℤ) % 2 ^ 64 = y % 2 ^ 64) :
    ((productLow a b).toNat : ℤ) = x * y % 2 ^ 64 := by
  rw [toNat_productLow]
  simp only [Int.natCast_mod, Nat.cast_mul, Nat.cast_pow, Nat.cast_ofNat]
  rw [Int.mul_emod, left, right, ← Int.mul_emod]

/-- A product that is stored as two unsigned words is itself when it is not
negative. -/
theorem signedProduct_iff {product : ℤ} (small : |product| < 2 ^ 127) :
    (((product - (product / 2 ^ 64 % 2 ^ 64) * 2 ^ 64 - product % 2 ^ 64 : ℤ)) : Fr) =
      0 ↔ 0 ≤ product := by
  have split := Int.emod_add_mul_ediv product (2 ^ 64)
  rw [abs_lt] at small
  rw [intCast_eq_zero_iff_of_small]
  · omega
  · rw [abs_lt]
    omega

theorem toInt_mul_bound : |a.toInt * b.toInt| < 2 ^ 127 := by
  obtain ⟨aLow, aHigh⟩ := toInt_bounds a
  obtain ⟨bLow, bHigh⟩ := toInt_bounds b
  have aAbs : |a.toInt| ≤ 2 ^ 63 := abs_le.2 ⟨aLow, by omega⟩
  have bAbs : |b.toInt| ≤ 2 ^ 63 := abs_le.2 ⟨bLow, by omega⟩
  calc |a.toInt * b.toInt| = |a.toInt| * |b.toInt| := abs_mul _ _
    _ ≤ 2 ^ 63 * 2 ^ 63 := mul_le_mul aAbs bAbs (abs_nonneg _) (by norm_num)
    _ < 2 ^ 127 := by norm_num

theorem toInt_mul_toNat_bound : |a.toInt * b.toNat| < 2 ^ 127 := by
  obtain ⟨aLow, aHigh⟩ := toInt_bounds a
  have bLt := b.isLt
  have aAbs : |a.toInt| ≤ 2 ^ 63 := abs_le.2 ⟨aLow, by omega⟩
  have bAbs : |(b.toNat : ℤ)| ≤ 2 ^ 64 - 1 := abs_le.2 ⟨by omega, by omega⟩
  calc |a.toInt * b.toNat| = |a.toInt| * |(b.toNat : ℤ)| := abs_mul _ _
    _ ≤ 2 ^ 63 * (2 ^ 64 - 1) := mul_le_mul aAbs bAbs (abs_nonneg _) (by norm_num)
    _ < 2 ^ 127 := by norm_num

end Signed

section LowProduct

variable (a b : Word)

theorem low_sub : low (a - b) = low a - low b := by
  have aLt := a.isLt
  have bLt := b.isLt
  apply BitVec.eq_of_toNat_eq
  simp only [BitVec.toNat_setWidth, BitVec.toNat_sub]
  omega

theorem low_le : (low a).toNat ≤ a.toNat := by
  rw [toNat_low]
  exact Nat.mod_le _ _

theorem toNat_lowProduct : ((low a).setWidth 64 * (low b).setWidth 64 : Word).toNat =
    (low a).toNat * (low b).toNat := by
  have bound : (low a).toNat * (low b).toNat < 2 ^ 64 :=
    calc (low a).toNat * (low b).toNat < 2 ^ 32 * 2 ^ 32 :=
          Nat.mul_lt_mul'' (low a).isLt (low b).isLt
      _ = 2 ^ 64 := by norm_num
  have wide : ∀ x : BitVec 32, (x.setWidth 64).toNat = x.toNat := fun x =>
    BitVec.toNat_setWidth_of_le (by decide)
  rw [BitVec.toNat_mul, wide, wide, Nat.mod_eq_of_lt bound]

/-- The sign bit of the low half, read from the full register. -/
theorem signBit32_low : (a >>> 31) &&& 1 = signBit32 (low a) := by
  apply BitVec.eq_of_toNat_eq
  rw [toNat_signBit32, BitVec.msb_eq_decide, toNat_low, BitVec.toNat_and,
    BitVec.toNat_ushiftRight, Nat.shiftRight_eq_div_pow,
    show (1 : Word).toNat = 1 from rfl, Nat.and_one_is_mod]
  by_cases negative : 2 ^ (32 - 1) ≤ a.toNat % 2 ^ 32
  · rw [decide_eq_true negative, Bool.toNat_true]
    omega
  · rw [decide_eq_false negative, Bool.toNat_false]
    omega

theorem mulw_small :
    |(a.toNat * b.toNat - ((low a).toNat * (low b).toNat : ℕ) : ℤ)| < 2 ^ 254 := by
  have full := word_mul_lt a.isLt b.isLt
  have part := Nat.mul_le_mul (low_le a) (low_le b)
  rw [← Nat.cast_mul, abs_lt]
  omega

/-- A product keeps its value when its factors lose their upper halves only
when they are empty or the product is zero. -/
theorem mulw_fits_iff :
    (a.toNat * b.toNat - ((low a).toNat * (low b).toNat : ℕ) : ℤ) = 0 ↔
      a.toNat < 2 ^ 32 ∧ b.toNat < 2 ^ 32 ∨ a = 0 ∨ b = 0 := by
  have zero : ∀ x : Word, x = 0 ↔ x.toNat = 0 := fun x => by
    rw [← BitVec.toNat_inj]
    rfl
  have same : ∀ x : Word, x.toNat < 2 ^ 32 ↔ (low x).toNat = x.toNat := fun x => by
    rw [toNat_low]
    omega
  rw [zero a, zero b, same a, same b, sub_eq_zero, ← Nat.cast_mul, Nat.cast_inj]
  constructor
  · intro equal
    by_contra outside
    push Not at outside
    obtain ⟨halves, aNonzero, bNonzero⟩ := outside
    have less : (low a).toNat * (low b).toNat < a.toNat * b.toNat := by
      rcases Nat.lt_or_eq_of_le (low_le a) with aLess | aSame
      · exact Nat.mul_lt_mul_of_lt_of_le aLess (low_le b) (Nat.pos_of_ne_zero bNonzero)
      · have bLess := Nat.lt_of_le_of_ne (low_le b) (halves aSame)
        exact Nat.mul_lt_mul_of_le_of_lt (low_le a) bLess
          (Nat.pos_of_ne_zero aNonzero)
    omega
  · rintro (⟨aSame, bSame⟩ | aZero | bZero)
    · rw [aSame, bSame]
    · have := low_le a
      have lowZero : (low a).toNat = 0 := by omega
      rw [aZero, lowZero, zero_mul, zero_mul]
    · have := low_le b
      have lowZero : (low b).toNat = 0 := by omega
      rw [bZero, lowZero, mul_zero, mul_zero]

end LowProduct

section Multiply

variable {row : TraceRow} {a b : Word}

theorem mulh_iff (operand : row.rs2Val = b)
    (computes : Computes row a (mulh a b) (productLow a b, signBit a, signBit b)) :
    ((evaluateMulhRaw row.integers : ℤ) : Fr) = 0 ↔ 0 ≤ a.toInt * b.toInt := by
  have high : ((mulh a b).toNat : ℤ) = a.toInt * b.toInt / 2 ^ 64 % 2 ^ 64 := by
    refine toNat_highWord ?_ (toInt_mul_bound a b)
    rw [BitVec.toInt_signExtend_of_le (by decide),
      BitVec.toInt_signExtend_of_le (by decide)]
  have lowWord := toNat_productLow_eq a b (toNat_emod a (by norm_num))
    (toNat_emod b (by norm_num))
  have value : evaluateMulhRaw row.integers = a.toInt * b.toInt -
      a.toInt * b.toInt / 2 ^ 64 % 2 ^ 64 * 2 ^ 64 - a.toInt * b.toInt % 2 ^ 64 := by
    rw [evaluateMulhRaw, computes.rs1Cell, rs2Cell, operand, computes.aux0Cell,
      computes.aux1Cell, computes.aux2Cell, computes.rdCell,
      binaryCheck_eq_zero (signBit_le_one a), binaryCheck_eq_zero (signBit_le_one b),
      signBit_eq, signBit_eq, high, lowWord, toNat_eq_wrap a, toNat_eq_wrap b,
      twoPow64, wrap, wrap]
    split <;> split <;> ring
  rw [value, signedProduct_iff (toInt_mul_bound a b)]

theorem mulhsu_iff (operand : row.rs2Val = b)
    (computes : Computes row a (mulhsu a b) (productLow a b, signBit a, 0)) :
    ((evaluateMulhsuRaw row.integers : ℤ) : Fr) = 0 ↔ 0 ≤ a.toInt ∨ b = 0 := by
  have bLt := b.isLt
  have high : ((mulhsu a b).toNat : ℤ) = a.toInt * b.toNat / 2 ^ 64 % 2 ^ 64 := by
    refine toNat_highWord ?_ (toInt_mul_toNat_bound a b)
    have wide : (b.setWidth 128).toNat = b.toNat :=
      BitVec.toNat_setWidth_of_le (by decide)
    rw [BitVec.toInt_signExtend_of_le (by decide),
      @BitVec.toInt_eq_toNat_of_lt 128 (b.setWidth 128) (by omega), wide]
  have lowWord := toNat_productLow_eq a b (toNat_emod a (by norm_num)) rfl
  have value : evaluateMulhsuRaw row.integers = a.toInt * b.toNat -
      a.toInt * b.toNat / 2 ^ 64 % 2 ^ 64 * 2 ^ 64 - a.toInt * b.toNat % 2 ^ 64 := by
    rw [evaluateMulhsuRaw, computes.rs1Cell, rs2Cell, operand, computes.aux0Cell,
      computes.aux1Cell, computes.rdCell, binaryCheck_eq_zero (signBit_le_one a),
      signBit_eq, high, lowWord, toNat_eq_wrap a, twoPow64, wrap]
    split <;> ring
  have zero : b = 0 ↔ (b.toNat : ℤ) = 0 := by
    rw [← BitVec.toNat_inj, Nat.cast_eq_zero]
    rfl
  rw [value, signedProduct_iff (toInt_mul_toNat_bound a b), zero]
  constructor
  · intro nonneg
    by_contra neither
    push Not at neither
    have positive : 0 < (b.toNat : ℤ) := by omega
    have negative := mul_neg_of_neg_of_pos neither.1 positive
    omega
  · rintro (nonneg | none)
    · positivity
    · rw [none, mul_zero]

theorem mulw_iff (operand : row.rs2Val = b)
    (computes : Computes row a (mulw a b) (MulDivOp.aux .mulw a b (mulw a b))) :
    ((evaluateMulwRaw row.integers : ℤ) : Fr) = 0 ↔
      a.toNat < 2 ^ 32 ∧ b.toNat < 2 ^ 32 ∨ a = 0 ∨ b = 0 := by
  let product : Word := (low a).setWidth 64 * (low b).setWidth 64
  have value : product.toNat = (low a).toNat * (low b).toNat :=
    toNat_lowProduct a b
  have lowProduct : low product = low a * low b := by
    apply BitVec.eq_of_toNat_eq
    rw [toNat_low, value, BitVec.toNat_mul]
  have cells : Computes row a (sext32 (low product))
      (product >>> 32, signBit32 (low product), 0) := by
    rw [← signBit32_low, lowProduct]
    exact computes
  rw [evaluateMulwRaw, cells.rs1Cell, rs2Cell, operand, cells.aux0Cell,
    cells.aux1Cell, cells.rdCell, wordTruncation_eq, value,
    intCast_eq_zero_iff_of_small (mulw_small a b)]
  exact mulw_fits_iff a b

end Multiply

section Divide

variable {a b : Word}

theorem toInt_ne_zero (nonzero : b ≠ 0) : b.toInt ≠ 0 := by
  simpa [← BitVec.toInt_inj] using nonzero

/-- The quotient of the machine, the overflowing one included. -/
theorem toNat_div (nonzero : b ≠ 0) :
    ((Rv64.div a b).toNat : ℤ) = wrap (a.toInt.tdiv b.toInt) := by
  rw [Rv64.div, if_neg nonzero]
  split
  · rename_i overflow
    obtain ⟨rfl, rfl⟩ := overflow
    decide
  · rename_i regular
    rw [toNat_eq_wrap, BitVec.toInt_sdiv_of_ne_or_ne a b (by
      rw [← not_and_or]
      exact regular)]

theorem sdiv_eq_div (nonzero : b ≠ 0) : a.sdiv b = Rv64.div a b := by
  rw [Rv64.div, if_neg nonzero]
  split
  · rename_i overflow
    obtain ⟨rfl, rfl⟩ := overflow
    decide
  · rfl

theorem toNat_srem : ((a.srem b).toNat : ℤ) = wrap (a.toInt.tmod b.toInt) := by
  rw [toNat_eq_wrap, BitVec.toInt_srem]

theorem srem_eq_rem (nonzero : b ≠ 0) : a.srem b = Rv64.rem a b := by
  rw [Rv64.rem, if_neg nonzero]
  split
  · rename_i overflow
    obtain ⟨rfl, rfl⟩ := overflow
    decide
  · rfl

/-- A quotient, a remainder and the operands, all of them words. -/
theorem division_small (q r a b : Word) :
    |(q.toNat * b.toNat + r.toNat - a.toNat : ℤ)| < 2 ^ 129 := by
  have product := word_mul_lt q.isLt b.isLt
  have rLt := r.isLt
  have aLt := a.isLt
  rw [← Nat.cast_mul, abs_lt]
  omega

theorem division_zero_iff (q r a b : Word) :
    (((q.toNat * b.toNat + r.toNat - a.toNat : ℤ)) : Fr) = 0 ↔
      (q.toNat * b.toNat + r.toNat - a.toNat : ℤ) = 0 :=
  intCast_eq_zero_iff_of_small
    (lt_trans (division_small q r a b) (by norm_num))

theorem division_fits_iff (nonzero : b ≠ 0) :
    ((Rv64.div a b).toNat * b.toNat + (a.srem b).toNat - a.toNat : ℤ) = 0 ↔
      DivisionFits a b := by
  have one : b = 1 ↔ b.toInt = 1 := by
    rw [← BitVec.toInt_inj]
    rfl
  rw [toNat_div nonzero, toNat_srem, toNat_eq_wrap b, toNat_eq_wrap a,
    wrap_division_iff (toInt_ne_zero nonzero) (toInt_bounds a).2 (toInt_bounds b).1,
    DivisionFits, one, ← BitVec.toInt_inj (x := a) (y := b)]

variable {row : TraceRow}

theorem div_iff (operand : row.rs2Val = b)
    (computes : Computes row a (Rv64.div a b)
      (if b = 0 then (0, 0, 0) else (a.srem b, 0, 0))) :
    ((evaluateDivRaw row.integers : ℤ) : Fr) = 0 ↔
      if b = 0 then a = 0 else DivisionFits a b := by
  by_cases zero : b = 0
  · rw [if_pos zero] at computes ⊢
    have value : evaluateDivRaw row.integers = -a.toNat := by
      rw [evaluateDivRaw, computes.rs1Cell, rs2Cell, operand, computes.aux0Cell,
        zero]
      simp
    have aLt := a.isLt
    rw [value, intCast_eq_zero_iff_of_small (by rw [abs_lt]; omega), neg_eq_zero,
      Nat.cast_eq_zero, ← BitVec.toNat_inj]
    rfl
  · rw [if_neg zero] at computes ⊢
    rw [evaluateDivRaw, computes.rs1Cell, rs2Cell, operand, computes.aux0Cell,
      computes.rdCell, division_zero_iff,
      division_fits_iff zero]

theorem rem_iff (operand : row.rs2Val = b)
    (computes : Computes row a (Rv64.rem a b)
      (if b = 0 then (0, 0, 0) else (a.sdiv b, 0, 0))) :
    ((evaluateRemRaw row.integers : ℤ) : Fr) = 0 ↔ b = 0 ∨ DivisionFits a b := by
  by_cases zero : b = 0
  · rw [if_pos zero] at computes
    have same : Rv64.rem a b = a := by rw [Rv64.rem, if_pos zero]
    have value : evaluateRemRaw row.integers = 0 := by
      rw [evaluateRemRaw, computes.rs1Cell, rs2Cell, operand, computes.aux0Cell,
        computes.rdCell, same, zero]
      simp
    simp [value, zero]
  · rw [if_neg zero] at computes
    rw [evaluateRemRaw, computes.rs1Cell, rs2Cell, operand, computes.aux0Cell,
      computes.rdCell, sdiv_eq_div zero, ← srem_eq_rem zero,
      division_zero_iff,
      division_fits_iff zero]
    exact (or_iff_right zero).symm

theorem divu_iff (operand : row.rs2Val = b)
    (computes : Computes row a (Rv64.divu a b)
      (if b = 0 then (0, 0, 0) else (a % b, 0, 0))) :
    ((evaluateDivRaw row.integers : ℤ) : Fr) = 0 ↔ b ≠ 0 ∨ a = 0 := by
  by_cases zero : b = 0
  · rw [if_pos zero] at computes
    have value : evaluateDivRaw row.integers = -a.toNat := by
      rw [evaluateDivRaw, computes.rs1Cell, rs2Cell, operand, computes.aux0Cell,
        zero]
      simp
    have aLt := a.isLt
    rw [value, intCast_eq_zero_iff_of_small (by rw [abs_lt]; omega), neg_eq_zero,
      Nat.cast_eq_zero, ← BitVec.toNat_inj (x := a)]
    exact (or_iff_right (not_not.2 zero)).symm
  · rw [if_neg zero] at computes
    have split := Nat.div_add_mod' a.toNat b.toNat
    have value : evaluateDivRaw row.integers = 0 := by
      rw [evaluateDivRaw, computes.rs1Cell, rs2Cell, operand, computes.aux0Cell,
        computes.rdCell, toNat_divu zero, BitVec.toNat_umod]
      exact sub_eq_zero.2 (by exact_mod_cast split)
    rw [value, Int.cast_zero]
    exact iff_of_true rfl (.inl zero)

theorem remu_zero (operand : row.rs2Val = b)
    (computes : Computes row a (Rv64.remu a b)
      (if b = 0 then (0, 0, 0) else (a / b, 0, 0))) :
    evaluateRemRaw row.integers = 0 := by
  by_cases zero : b = 0
  · rw [if_pos zero] at computes
    have same : Rv64.remu a b = a := by rw [Rv64.remu, if_pos zero]
    rw [evaluateRemRaw, computes.rs1Cell, rs2Cell, operand, computes.aux0Cell,
      computes.rdCell, same, zero]
    simp
  · rw [if_neg zero] at computes
    have split := Nat.div_add_mod' a.toNat b.toNat
    rw [evaluateRemRaw, computes.rs1Cell, rs2Cell, operand, computes.aux0Cell,
      computes.rdCell, toNat_remu, BitVec.toNat_udiv]
    exact sub_eq_zero.2 (by exact_mod_cast split)

end Divide

section DivideWords

variable {q r a b : Word}

/-- The correction column takes an excess that is a multiple of the word
modulus and small, or that wraps to a small negative number. -/
theorem correctionColumn_iff {excess : ℤ} {e : Word}
    (residue : (e.toNat : ℤ) = excess % 2 ^ 64) (multiple : low e = 0)
    (small : |excess| < 2 ^ 200) :
    (((excess - (correction e).toNat * 2 ^ 32 : ℤ)) : Fr) = 0 ↔
      0 ≤ excess ∧ excess < 2 ^ 63 ∨
        2 ^ 96 - 2 ^ 63 ≤ excess ∧ excess < 2 ^ 96 := by
  have eLt := e.isLt
  have shifted := Words.toNat_sshiftRight_mul e (show 32 ≤ 64 by decide)
  have lowZero : e.toNat % 2 ^ 32 = 0 := by
    rw [← toNat_low, multiple]
    rfl
  have sign := BitVec.msb_eq_decide e
  rw [lowZero] at shifted
  rw [correction]
  rw [abs_lt] at small
  by_cases negative : 2 ^ (64 - 1) ≤ e.toNat
  · rw [sign, decide_eq_true negative, Bool.toNat_true] at shifted
    rw [intCast_eq_zero_iff_of_small (by rw [abs_lt]; omega)]
    omega
  · rw [sign, decide_eq_false negative, Bool.toNat_false] at shifted
    rw [intCast_eq_zero_iff_of_small (by rw [abs_lt]; omega)]
    omega

theorem correction_iff (multiple : low (q * b + r - a) = 0) :
    (((q.toNat * b.toNat + r.toNat - a.toNat -
      (correction (q * b + r - a)).toNat * 2 ^ 32 : ℤ)) : Fr) = 0 ↔
        CorrectionFits q r a b := by
  refine correctionColumn_iff ?_ multiple
    (lt_trans (division_small q r a b) (by norm_num))
  have aLt := a.isLt
  rw [BitVec.toNat_sub, BitVec.toNat_add, BitVec.toNat_mul, ← Nat.cast_mul]
  generalize q.toNat * b.toNat = product
  omega

theorem low_sext32 (x : BitVec 32) : low (sext32 x) = x := by
  have xLt := x.isLt
  have extended := toNat_sext32 x
  apply BitVec.eq_of_toNat_eq
  rw [toNat_low]
  cases sign : x.msb <;> simp only [sign, Bool.toNat_true, Bool.toNat_false] at extended <;>
    omega

theorem low_zext32 (x : BitVec 32) : low (x.setWidth 64) = x := by
  rw [low, BitVec.setWidth_setWidth_of_le _ (by decide), BitVec.setWidth_eq]

theorem low_excess : low (q * b + r - a) = low q * low b + low r - low a := by
  rw [low_sub, low, low, BitVec.setWidth_add _ _ (by decide),
    BitVec.setWidth_mul _ _ (by decide)]

theorem sdiv_mul_add_srem (x y : BitVec 32) : x.sdiv y * y + x.srem y = x := by
  have quotient : x.sdiv y = BitVec.ofInt 32 (x.toInt.tdiv y.toInt) := by
    rw [← BitVec.toInt_inj, BitVec.toInt_sdiv, BitVec.toInt_ofInt]
  have remainder : x.srem y = BitVec.ofInt 32 (x.toInt.tmod y.toInt) := by
    rw [← BitVec.toInt_srem, BitVec.ofInt_toInt]
  have split : x.toInt.tdiv y.toInt * y.toInt + x.toInt.tmod y.toInt = x.toInt :=
    Int.tdiv_mul_add_tmod _ _
  calc x.sdiv y * y + x.srem y
      = BitVec.ofInt 32 (x.toInt.tdiv y.toInt) * BitVec.ofInt 32 y.toInt +
          BitVec.ofInt 32 (x.toInt.tmod y.toInt) := by
        rw [quotient, remainder, BitVec.ofInt_toInt]
    _ = BitVec.ofInt 32 x.toInt := by
        rw [← BitVec.ofInt_mul, ← BitVec.ofInt_add, split]
    _ = x := BitVec.ofInt_toInt

theorem udiv_mul_add_umod (x y : BitVec 32) : x / y * y + x % y = x := by
  have xLt := x.isLt
  have split := Nat.div_add_mod' x.toNat y.toNat
  have product : x.toNat / y.toNat * y.toNat ≤ x.toNat := Nat.div_mul_le_self _ _
  apply BitVec.eq_of_toNat_eq
  rw [BitVec.toNat_add, BitVec.toNat_mul, BitVec.toNat_udiv, BitVec.toNat_umod,
    Nat.mod_eq_of_lt (lt_of_le_of_lt product xLt), split, Nat.mod_eq_of_lt xLt]

/-- The quotient of words, the overflowing one included. -/
theorem divw_eq (nonzero : low b ≠ 0) :
    Rv64.divw a b = sext32 ((low a).sdiv (low b)) := by
  rw [Rv64.divw, if_neg nonzero]
  split
  · rename_i overflow
    rw [overflow.1, overflow.2]
    decide
  · rfl

theorem remw_eq (nonzero : low b ≠ 0) :
    Rv64.remw a b = sext32 ((low a).srem (low b)) := by
  rw [Rv64.remw, if_neg nonzero]
  split
  · rename_i overflow
    rw [overflow.1, overflow.2]
    decide
  · rfl

variable {row : TraceRow}

theorem divw_body_iff (operand : row.rs2Val = b)
    (computes : Computes row a q (r, correction (q * b + r - a), 0))
    (multiple : low q * low b + low r - low a = 0) :
    ((evaluateDivwRaw row.integers : ℤ) : Fr) = 0 ↔ CorrectionFits q r a b := by
  rw [evaluateDivwRaw, computes.rs1Cell, rs2Cell, operand, computes.aux0Cell,
    computes.aux1Cell, computes.rdCell, twoPow32]
  exact correction_iff (low_excess.trans multiple)

theorem remw_body_iff (operand : row.rs2Val = b)
    (computes : Computes row a r (q, correction (q * b + r - a), 0))
    (multiple : low q * low b + low r - low a = 0) :
    ((evaluateRemwRaw row.integers : ℤ) : Fr) = 0 ↔ CorrectionFits q r a b := by
  rw [evaluateRemwRaw, computes.rs1Cell, rs2Cell, operand, computes.aux0Cell,
    computes.aux1Cell, computes.rdCell, twoPow32]
  exact correction_iff (low_excess.trans multiple)

/-- Division by zero stores the dividend as the remainder. -/
theorem zero_multiple (zero : low b = 0) {r : Word} (kept : low r = low a) :
    low (-1) * low b + low r - low a = 0 := by
  rw [zero, kept, mul_zero, zero_add, sub_self]

/-- The remainder of a division by zero is a sign-extended word. -/
theorem remw_zero_iff (operand : row.rs2Val = b)
    (computes : Computes row a (sext32 (low a)) (0, 0, 0)) :
    ((evaluateRemwRaw row.integers : ℤ) : Fr) = 0 ↔ IsWord a := by
  have aLt := a.isLt
  have sLt := (sext32 (low a)).isLt
  have value : evaluateRemwRaw row.integers = (sext32 (low a)).toNat - a.toNat := by
    rw [evaluateRemwRaw, computes.rs1Cell, rs2Cell, operand, computes.aux0Cell,
      computes.aux1Cell, computes.rdCell]
    simp
  rw [value, intCast_eq_zero_iff_of_small (by rw [abs_lt]; omega), IsWord,
    ← BitVec.toNat_inj]
  omega

theorem divw_iff (operand : row.rs2Val = b)
    (computes : Computes row a (Rv64.divw a b)
      (MulDivOp.aux .divw a b (Rv64.divw a b))) :
    ((evaluateDivwRaw row.integers : ℤ) : Fr) = 0 ↔ WordDivisionFits a b := by
  rw [WordDivisionFits]
  by_cases zero : low b = 0
  · have ones : Rv64.divw a b = -1 := by
      rw [Rv64.divw, if_pos zero]
      rfl
    simp only [MulDivOp.aux, ones, if_pos zero] at computes
    rw [if_pos zero]
    exact divw_body_iff operand computes (zero_multiple zero (low_sext32 _))
  · simp only [MulDivOp.aux, divw_eq zero, if_neg zero] at computes
    rw [if_neg zero]
    refine divw_body_iff operand computes ?_
    rw [low_sext32, low_sext32, sdiv_mul_add_srem, sub_self]

theorem remw_iff (operand : row.rs2Val = b)
    (computes : Computes row a (Rv64.remw a b)
      (MulDivOp.aux .remw a b (Rv64.remw a b))) :
    ((evaluateRemwRaw row.integers : ℤ) : Fr) = 0 ↔
      if low b = 0 then IsWord a else WordDivisionFits a b := by
  by_cases zero : low b = 0
  · have kept : Rv64.remw a b = sext32 (low a) := by rw [Rv64.remw, if_pos zero]
    simp only [MulDivOp.aux, kept, if_pos zero] at computes
    rw [if_pos zero]
    exact remw_zero_iff operand computes
  · simp only [MulDivOp.aux, remw_eq zero, if_neg zero] at computes
    rw [if_neg zero, WordDivisionFits, if_neg zero]
    refine remw_body_iff operand computes ?_
    rw [low_sext32, low_sext32, sdiv_mul_add_srem, sub_self]

theorem divuw_iff (operand : row.rs2Val = b)
    (computes : Computes row a (Rv64.divuw a b)
      (MulDivOp.aux .divuw a b (Rv64.divuw a b))) :
    ((evaluateDivwRaw row.integers : ℤ) : Fr) = 0 ↔ MulDivOp.Fits .divuw a b := by
  rw [MulDivOp.Fits]
  by_cases zero : low b = 0
  · have ones : Rv64.divuw a b = -1 := by
      rw [Rv64.divuw, if_pos zero]
      rfl
    simp only [MulDivOp.aux, ones, if_pos zero] at computes
    rw [if_pos zero]
    exact divw_body_iff operand computes (zero_multiple zero (low_zext32 _))
  · have quotient : Rv64.divuw a b = sext32 (low a / low b) := by
      rw [Rv64.divuw, if_neg zero]
    simp only [MulDivOp.aux, quotient, if_neg zero] at computes
    rw [if_neg zero]
    refine divw_body_iff operand computes ?_
    rw [low_sext32, low_zext32, udiv_mul_add_umod, sub_self]

theorem remuw_iff (operand : row.rs2Val = b)
    (computes : Computes row a (Rv64.remuw a b)
      (MulDivOp.aux .remuw a b (Rv64.remuw a b))) :
    ((evaluateRemwRaw row.integers : ℤ) : Fr) = 0 ↔ MulDivOp.Fits .remuw a b := by
  rw [MulDivOp.Fits]
  by_cases zero : low b = 0
  · have kept : Rv64.remuw a b = sext32 (low a) := by rw [Rv64.remuw, if_pos zero]
    simp only [MulDivOp.aux, kept, if_pos zero] at computes
    rw [if_pos zero]
    exact remw_zero_iff operand computes
  · have remainder : Rv64.remuw a b = sext32 (low a % low b) := by
      rw [Rv64.remuw, if_neg zero]
    simp only [MulDivOp.aux, remainder, if_neg zero] at computes
    rw [if_neg zero]
    refine remw_body_iff operand computes ?_
    rw [low_sext32, low_zext32, udiv_mul_add_umod, sub_self]

end DivideWords

/-! Whole rows. -/

/-- The body of an operation next to the sequential one. -/
def MulDivOp.body : MulDivOp → Row ℤ → ℤ
  | .mul => evaluateMulRaw
  | .mulh => evaluateMulhRaw
  | .mulhsu => evaluateMulhsuRaw
  | .mulhu => evaluateMulhuRaw
  | .div => evaluateDivRaw
  | .divu => evaluateDivRaw
  | .rem => evaluateRemRaw
  | .remu => evaluateRemRaw
  | .mulw => evaluateMulwRaw
  | .divw => evaluateDivwRaw
  | .divuw => evaluateDivwRaw
  | .remw => evaluateRemwRaw
  | .remuw => evaluateRemwRaw

/-- Multiplications and divisions that are signed, or divide, or work on
words. -/
def MulDivOp.isChecked : MulDivOp → Bool
  | .mul => false
  | .mulhu => false
  | _ => true

theorem MulDivOp.body_iff (op : MulDivOp) (checked : op.isChecked) {row : TraceRow}
    {a b : Word} (operand : row.rs2Val = b)
    (computes : Computes row a (op.result a b) (op.aux a b (op.result a b))) :
    ((op.body row.integers : ℤ) : Fr) = 0 ↔ op.Fits a b := by
  cases op with
  | mul => exact absurd checked Bool.false_ne_true
  | mulhu => exact absurd checked Bool.false_ne_true
  | mulh => exact mulh_iff operand computes
  | mulhsu => exact mulhsu_iff operand computes
  | div => exact div_iff operand computes
  | divu => exact divu_iff operand computes
  | rem => exact rem_iff operand computes
  | remu =>
      rw [MulDivOp.body, remu_zero operand computes, Int.cast_zero]
      exact iff_of_true rfl trivial
  | mulw => exact mulw_iff operand computes
  | divw => exact divw_iff operand computes
  | divuw => exact divuw_iff operand computes
  | remw => exact remw_iff operand computes
  | remuw => exact remuw_iff operand computes

/-- The row of an executed multiplication or division satisfies its own body
exactly when the operands fit. -/
theorem mulDiv_complete_iff (vm : Vm) {op : MulDivOp} {rd : Reg} (rs1 rs2 : Reg)
    (checked : op.isChecked) (nonzero : rd ≠ 0) :
    (vm.executedRow (.mulDiv op rd rs1 rs2)).Satisfies (within mulDivSelectors) ↔
      op.Fits (vm.cpu.readReg rs1) (vm.cpu.readReg rs2) := by
  have listed : keptBodies (within mulDivSelectors) (.mulDiv op rd rs1 rs2) =
      [op.body] := by
    rw [keptBodies, selectorOf_mulDiv]
    cases op with
    | mul => exact absurd checked Bool.false_ne_true
    | mulhu => exact absurd checked Bool.false_ne_true
    | _ => rfl
  have written : (vm.executedRow (.mulDiv op rd rs1 rs2)).rdValAfter =
      op.result (vm.cpu.readReg rs1) (vm.cpu.readReg rs2) :=
    readReg_written vm nonzero _ _
  rw [TraceRow.satisfies_iff_integers _ _ listed, List.forall_mem_singleton]
  refine op.body_iff checked rfl ⟨rfl, written, ?_⟩
  rw [← written]
  rfl

/-- A machine with two operands in `x1` and `x2`. -/
def operandVm (a b : Word) : Vm := ((startVm 0).writeReg 1 a).writeReg 2 b

theorem mulDiv_complete_div :
    ((operandVm 7 2).executedRow (.mulDiv .div 3 1 2)).Satisfies
      (within mulDivSelectors) := by
  have fits : (if (2 : Word) = 0 then (7 : Word) = 0 else DivisionFits 7 2) := by
    rw [if_neg (by decide)]
    exact .inl (by decide)
  exact (@mulDiv_complete_iff (operandVm 7 2) .div 3 1 2 rfl (by decide)).2 fits

/-- `mulh` of one and minus one. -/
theorem mulh_row_rejected :
    ¬ ((operandVm 1 (-1)).executedRow (.mulDiv .mulh 3 1 2)).Satisfies
      (within mulDivSelectors) := by
  have listed : keptBodies (within mulDivSelectors) (.mulDiv .mulh 3 1 2) =
      [evaluateMulhRaw] := rfl
  rw [TraceRow.satisfies_iff_integers _ _ listed, List.forall_mem_singleton,
    @mulh_iff _ 1 (-1) rfl ⟨rfl, rfl, rfl⟩]
  decide

end MetaVm.Riscv
