import MetaVm.Riscv.Constraints.Completeness.MulDiv

namespace MetaVm.Riscv

open Constraints Rv64 Zkp

/-! Rows of atomic instructions. The word forms update the low halves; what the
upper halves leave over goes into a correction column, or nowhere. -/

def atomicSelectors : List Column :=
  [colSelLr, colSelSc, colSelAmoSwap, colSelAmoAdd, colSelAmoBitwise, colSelAmoOr,
    colSelAmoXor, colSelAmoCompare, colSelAmoMaxu, colSelAmoMins, colSelAmoMaxs]

/-- The upper halves of the operands fall short of the sign extension of the
result, by less than the correction column can hold. -/
def BitwiseFits (result : BitVec 32) (old b : Word) : Prop :=
  let rest : ℤ := result.msb.toNat * (2 ^ 32 - 1) - upper old - upper b
  0 ≤ rest ∧ rest < 2 ^ 31

/-- The same of the operand that a comparison keeps. -/
def ExtensionFits (a : Word) : Prop :=
  let rest : ℤ := (low a).msb.toNat * (2 ^ 32 - 1) - upper a
  0 ≤ rest ∧ rest < 2 ^ 31

def AmoOp.Fits (op : AmoOp) (width : AmoWidth) (old b : Word) : Prop :=
  match op, width with
  | _, .d => True
  | swap, .w => True
  | add, .w => old.toNat + b.toNat < 2 ^ 64 ∧ (low old + low b).msb = false
  | and, .w => BitwiseFits (low old &&& low b) old b
  | or, .w => BitwiseFits (low old ||| low b) old b
  | xor, .w => BitwiseFits (low old ^^^ low b) old b
  | minu, .w => ExtensionFits (if low old < low b then old else b)
  | maxu, .w => ExtensionFits (if low old < low b then b else old)
  | min, .w => IsWord (if (low old).slt (low b) then old else b)
  | max, .w => IsWord (if (low old).slt (low b) then b else old)

section Select

/-! The machine asks whether the operand is less than the old value, the
witnesses whether the old value is less than the operand. -/

theorem select_swap {α : Type} {p q : Prop} [Decidable p] [Decidable q]
    {first second : α} (exclusive : p → ¬ q)
    (equal : ¬ p → ¬ q → first = second) :
    (if q then second else first) = if p then first else second := by
  by_cases less : p
  · rw [if_pos less, if_neg (exclusive less)]
  · by_cases greater : q
    · rw [if_neg less, if_pos greater]
    · rw [if_neg less, if_neg greater, equal less greater]

variable {width : ℕ} (x y : BitVec width)

theorem ult_exclusive (less : x < y) : ¬ y < x := by
  rw [BitVec.lt_def] at less ⊢
  omega

theorem eq_of_not_ult (first : ¬ x < y) (second : ¬ y < x) : x = y := by
  rw [BitVec.lt_def] at first second
  exact BitVec.eq_of_toNat_eq (by omega)

theorem slt_exclusive (less : x.slt y) : ¬ y.slt x := by
  rw [BitVec.slt_iff_toInt_lt] at less ⊢
  omega

theorem eq_of_not_slt (first : ¬ x.slt y) (second : ¬ y.slt x) : x = y := by
  rw [BitVec.slt_iff_toInt_lt] at first second
  exact BitVec.eq_of_toInt_eq (by omega)

theorem minu_eq : (if y < x then y else x) = if x < y then x else y :=
  select_swap (ult_exclusive x y) (eq_of_not_ult x y)

theorem maxu_eq : (if y < x then x else y) = if x < y then y else x :=
  select_swap (ult_exclusive x y) fun first second =>
    (eq_of_not_ult x y first second).symm

theorem min_eq : (if y.slt x then y else x) = if x.slt y then x else y :=
  select_swap (slt_exclusive x y) (eq_of_not_slt x y)

theorem max_eq : (if y.slt x then x else y) = if x.slt y then y else x :=
  select_swap (slt_exclusive x y) fun first second =>
    (eq_of_not_slt x y first second).symm

/-- The signed comparison of the witness columns, at either width. -/
theorem signedLt_eq {borrowed : ℕ} (same : borrowed = (borrow x y).toNat) :
    signedLt (borrowed : ℤ) x.msb.toNat y.msb.toNat = if x.slt y then 1 else 0 := by
  have bit : (borrow x y).toNat = (decide (x.toNat < y.toNat)).toNat := by
    rw [toNat_borrow]
    by_cases less : x.toNat < y.toNat <;> simp [less]
  have signs := Words.slt_eq_signs x y
  rw [same, bit, signedLt, ← signs]
  cases x.slt y <;> rfl

theorem borrow_eq : ((borrow x y).toNat : ℤ) = if x < y then 1 else 0 := by
  rw [borrow]
  split <;> rfl

end Select

section Corrections

variable {old b : Word}

/-- An excess that a word and a half can hold leaves only the first range of
the correction column. -/
theorem smallCorrection_iff {excess rest : ℤ} {e : Word}
    (residue : (e.toNat : ℤ) = excess % 2 ^ 64) (value : excess = 2 ^ 32 * rest)
    (small : |rest| < 2 ^ 34) :
    (((excess - (correction e).toNat * 2 ^ 32 : ℤ)) : Fr) = 0 ↔
      0 ≤ rest ∧ rest < 2 ^ 31 := by
  have multiple : low e = 0 := by
    apply BitVec.eq_of_toNat_eq
    rw [toNat_low, show (0 : BitVec 32).toNat = 0 from rfl]
    omega
  rw [abs_lt] at small
  rw [correctionColumn_iff residue multiple (by rw [abs_lt]; omega)]
  omega

theorem upper_lt (a : Word) : upper a < 2 ^ 32 := by
  have aLt := a.isLt
  rw [upper]
  omega

/-- What a bitwise update leaves over, for `other` the bits that the result
is missing. -/
theorem bitwise_iff {result : BitVec 32} {other : ℕ}
    (split : result.toNat + other = (low old).toNat + (low b).toNat) {e : Word}
    (residue : (e.toNat : ℤ) =
      ((sext32 result).toNat + other - old.toNat - b.toNat : ℤ) % 2 ^ 64) :
    ((((sext32 result).toNat + other - old.toNat - b.toNat -
      (correction e).toNat * 2 ^ 32 : ℤ)) : Fr) = 0 ↔ BitwiseFits result old b := by
  have oldUpper := upper_lt old
  have bUpper := upper_lt b
  have sign := msb_le_one result
  have value : ((sext32 result).toNat + other - old.toNat - b.toNat : ℤ) =
      2 ^ 32 * (result.msb.toNat * (2 ^ 32 - 1) - upper old - upper b) := by
    zify at split
    rw [toNat_sext32, halves old, halves b]
    linear_combination split
  refine smallCorrection_iff residue value ?_
  rw [abs_lt]
  omega

/-- What keeping an operand leaves over. -/
theorem extension_iff {a : Word} {e : Word}
    (residue : (e.toNat : ℤ) = ((sext32 (low a)).toNat - a.toNat : ℤ) % 2 ^ 64) :
    ((((sext32 (low a)).toNat - a.toNat - (correction e).toNat * 2 ^ 32 : ℤ)) : Fr) =
      0 ↔ ExtensionFits a := by
  have aUpper := upper_lt a
  have sign := msb_le_one (low a)
  have value : ((sext32 (low a)).toNat - a.toNat : ℤ) =
      2 ^ 32 * ((low a).msb.toNat * (2 ^ 32 - 1) - upper a) := by
    rw [toNat_sext32, halves a]
    ring
  refine smallCorrection_iff residue value ?_
  rw [abs_lt]
  omega

end Corrections

/-! The bodies, on the cells of a row that has updated `old` by `b`. -/

def AmoOp.body : AmoOp → Row ℤ → ℤ
  | .swap => evaluateAmoSwapRaw
  | .add => evaluateAmoAddRaw
  | .and => evaluateAmoAndRaw
  | .or => evaluateAmoOrRaw
  | .xor => evaluateAmoXorRaw
  | .minu => evaluateAmoMinuRaw
  | .maxu => evaluateAmoMaxuRaw
  | .min => evaluateAmoMinsRaw
  | .max => evaluateAmoMaxsRaw

/-- A row fills the cells of an atomic update. -/
structure Updates (row : TraceRow) (old b stored : Word) (aux : Aux) : Prop where
  cells : Computes row row.rs1Val old aux
  rs2Val : row.rs2Val = b
  memVal : row.memVal = stored

namespace Updates

variable {row : TraceRow} {old b stored : Word} {aux : Aux}

theorem rs2Cell (updates : Updates row old b stored aux) :
    row.integers colRs2Val = b.toNat := by
  rw [← updates.rs2Val]
  rfl

theorem memCell (updates : Updates row old b stored aux) :
    row.integers colMemVal = stored.toNat := by
  rw [← updates.memVal]
  rfl

end Updates

section Bodies

variable {row : TraceRow} {old b : Word}

theorem amoSwap_zero (width : AmoWidth)
    (updates : Updates row old b (AmoOp.memVal .swap width old b)
      (AmoOp.aux .swap width old b)) :
    evaluateAmoSwapRaw row.integers = 0 := by
  cases width with
  | w =>
      have cells : Computes row row.rs1Val old
          (b >>> 32, signBit32 (low b), 0) := by
        rw [← signBit32_low]
        exact updates.cells
      have stored : row.integers colMemVal = (sext32 (low b)).toNat := updates.memCell
      rw [evaluateAmoSwapRaw, updates.rs2Cell, cells.aux0Cell, cells.aux1Cell, stored,
        wordTruncation_eq, sub_self]
  | d =>
      have cells : Computes row row.rs1Val old (0, 0, 0) := updates.cells
      have stored : row.integers colMemVal = b.toNat := updates.memCell
      rw [evaluateAmoSwapRaw, updates.rs2Cell, cells.aux0Cell, cells.aux1Cell, stored]
      simp [wordTruncation, binaryCheck]

theorem amoAdd_double
    (updates : Updates row old b (old + b) (AmoOp.aux .add .d old b)) :
    evaluateAmoAddRaw row.integers = 0 := by
  have cells : Computes row row.rs1Val old
      (if 2 ^ 64 ≤ old.toNat + b.toNat then 1 else 0, 0, 0) := updates.cells
  have oldLt := old.isLt
  have bLt := b.isLt
  have sum := BitVec.toNat_add old b
  rw [evaluateAmoAddRaw, updates.rs2Cell, cells.rdCell, cells.aux0Cell,
    cells.aux1Cell, cells.aux2Cell, updates.memCell]
  split
  · have wrapped : ((old + b).toNat : ℤ) = old.toNat + b.toNat - 2 ^ 64 := by omega
    rw [wrapped]
    simp [binaryCheck, twoPow64]
  · have whole : ((old + b).toNat : ℤ) = old.toNat + b.toNat := by omega
    rw [whole]
    simp [binaryCheck]

theorem amoAdd_word_iff
    (updates : Updates row old b (sext32 (low old + low b)) (AmoOp.aux .add .w old b)) :
    ((evaluateAmoAddRaw row.integers : ℤ) : Fr) = 0 ↔
      old.toNat + b.toNat < 2 ^ 64 ∧ (low old + low b).msb = false := by
  have cells : Computes row row.rs1Val old
      ((old + b - sext32 (low old + low b)) >>> 32,
        signBit32 (low old + low b), 1) := updates.cells
  have oldLt := old.isLt
  have bLt := b.isLt
  have extended := toNat_sext32 (low old + low b)
  have sum : (low old + low b).toNat = (old.toNat + b.toNat) % 2 ^ 32 := by
    rw [BitVec.toNat_add, toNat_low, toNat_low, ← Nat.add_mod]
  have shifted : ((old + b - sext32 (low old + low b)) >>> 32).toNat =
      (2 ^ 64 - (sext32 (low old + low b)).toNat + (old.toNat + b.toNat)) %
        2 ^ 64 / 2 ^ 32 := by
    rw [BitVec.toNat_ushiftRight, Nat.shiftRight_eq_div_pow, BitVec.toNat_sub,
      BitVec.toNat_add]
    omega
  have value : evaluateAmoAddRaw row.integers = old.toNat + b.toNat -
      (sext32 (low old + low b)).toNat -
      ((old + b - sext32 (low old + low b)) >>> 32).toNat * 2 ^ 32 +
      (low old + low b).msb.toNat * (2 ^ 64 - 2 ^ 32) := by
    rw [evaluateAmoAddRaw, updates.rs2Cell, cells.rdCell, cells.aux0Cell,
      cells.aux1Cell, cells.aux2Cell, updates.memCell,
      binaryCheck_eq_zero (signBit32_le_one _), toNat_signBit32,
      show (1 : Word).toNat = 1 from rfl, signExtOffset, twoPow64, twoPow32,
      binaryCheck_eq_zero le_rfl]
    push_cast
    ring
  have sLt := (sext32 (low old + low b)).isLt
  have small : |evaluateAmoAddRaw row.integers| < 2 ^ 254 := by
    have sign := msb_le_one (low old + low b)
    rw [value, abs_lt]
    omega
  rw [intCast_eq_zero_iff_of_small small, value, shifted]
  cases negative : (low old + low b).msb
  · rw [negative, Bool.toNat_false] at extended
    simp only [Bool.toNat_false, and_true]
    omega
  · rw [negative, Bool.toNat_true] at extended
    simp only [Bool.toNat_true, Bool.true_eq_false, and_false, iff_false]
    omega

theorem zeroCell : ((0 : Word).toNat : ℤ) = 0 := rfl

/-- The residue of a wrapped difference. -/
theorem toNat_sub_emod (x y : Word) : ((x - y).toNat : ℤ) =
    (x.toNat - y.toNat : ℤ) % 2 ^ 64 := by
  have yLt := y.isLt
  rw [BitVec.toNat_sub]
  omega

theorem toNat_wide (x : BitVec 32) : (x.setWidth 64).toNat = x.toNat :=
  BitVec.toNat_setWidth_of_le (by decide)

theorem amoAnd_iff (width : AmoWidth)
    (updates : Updates row old b (AmoOp.memVal .and width old b)
      (AmoOp.aux .and width old b)) :
    ((evaluateAmoAndRaw row.integers : ℤ) : Fr) = 0 ↔ AmoOp.Fits .and width old b := by
  cases width with
  | w =>
      have cells : Computes row row.rs1Val old
          ((low old ||| low b).setWidth 64, correction (sext32 (low old &&& low b) +
            (low old ||| low b).setWidth 64 - old - b), 0) := updates.cells
      have stored : row.integers colMemVal =
        (sext32 (low old &&& low b)).toNat := updates.memCell
      have split := Words.or_add_and (low old).toNat (low b).toNat
      rw [evaluateAmoAndRaw, updates.rs2Cell, cells.rdCell, cells.aux0Cell,
        cells.aux1Cell, stored, twoPow32, toNat_wide]
      refine bitwise_iff ?_ ?_
      · rw [BitVec.toNat_and, BitVec.toNat_or, add_comm, split]
      · have oldLt := old.isLt
        have bLt := b.isLt
        rw [toNat_sub_emod, toNat_sub_emod, BitVec.toNat_add, toNat_wide]
        omega
  | d =>
      have cells : Computes row row.rs1Val old (old ||| b, 0, 0) := updates.cells
      have stored : row.integers colMemVal = (old &&& b).toNat := updates.memCell
      have split := or_split old b
      have value : evaluateAmoAndRaw row.integers = 0 := by
        rw [evaluateAmoAndRaw, updates.rs2Cell, cells.rdCell, cells.aux0Cell,
          cells.aux1Cell, stored, zeroCell]
        zify at split
        linear_combination split
      rw [value, Int.cast_zero]
      exact iff_of_true rfl trivial

theorem amoOr_iff (width : AmoWidth)
    (updates : Updates row old b (AmoOp.memVal .or width old b)
      (AmoOp.aux .or width old b)) :
    ((evaluateAmoOrRaw row.integers : ℤ) : Fr) = 0 ↔ AmoOp.Fits .or width old b := by
  cases width with
  | w =>
      have cells : Computes row row.rs1Val old
          ((low old &&& low b).setWidth 64, correction (sext32 (low old ||| low b) +
            (low old &&& low b).setWidth 64 - old - b), 0) := updates.cells
      have stored : row.integers colMemVal =
        (sext32 (low old ||| low b)).toNat := updates.memCell
      have split := Words.or_add_and (low old).toNat (low b).toNat
      rw [evaluateAmoOrRaw, updates.rs2Cell, cells.rdCell, cells.aux0Cell,
        cells.aux1Cell, stored, twoPow32, toNat_wide]
      refine bitwise_iff ?_ ?_
      · rw [BitVec.toNat_and, BitVec.toNat_or, split]
      · have oldLt := old.isLt
        have bLt := b.isLt
        rw [toNat_sub_emod, toNat_sub_emod, BitVec.toNat_add, toNat_wide]
        omega
  | d =>
      have cells : Computes row row.rs1Val old (old &&& b, 0, 0) := updates.cells
      have stored : row.integers colMemVal = (old ||| b).toNat := updates.memCell
      have split := or_split old b
      have value : evaluateAmoOrRaw row.integers = 0 := by
        rw [evaluateAmoOrRaw, updates.rs2Cell, cells.rdCell, cells.aux0Cell,
          cells.aux1Cell, stored, zeroCell]
        zify at split
        linear_combination split
      rw [value, Int.cast_zero]
      exact iff_of_true rfl trivial

theorem amoXor_iff (width : AmoWidth)
    (updates : Updates row old b (AmoOp.memVal .xor width old b)
      (AmoOp.aux .xor width old b)) :
    ((evaluateAmoXorRaw row.integers : ℤ) : Fr) = 0 ↔ AmoOp.Fits .xor width old b := by
  cases width with
  | w =>
      have cells : Computes row row.rs1Val old
          ((low old &&& low b).setWidth 64, correction (sext32 (low old ^^^ low b) +
            (low old &&& low b).setWidth 64 * 2 - old - b), 0) := updates.cells
      have stored : row.integers colMemVal =
        (sext32 (low old ^^^ low b)).toNat := updates.memCell
      have split := Words.xor_add_and_mul_two (low old).toNat (low b).toNat
      have twice : (2 * (low old &&& low b).toNat : ℤ) =
          ((low old &&& low b).toNat * 2 : ℕ) := by
        push_cast
        ring
      rw [evaluateAmoXorRaw, updates.rs2Cell, cells.rdCell, cells.aux0Cell,
        cells.aux1Cell, stored, twoPow32, toNat_wide, twice]
      refine bitwise_iff ?_ ?_
      · rw [BitVec.toNat_and, BitVec.toNat_xor, split]
      · have oldLt := old.isLt
        have bLt := b.isLt
        rw [toNat_sub_emod, toNat_sub_emod, BitVec.toNat_add, BitVec.toNat_mul,
          toNat_wide, show (2 : Word).toNat = 2 from rfl]
        omega
  | d =>
      have cells : Computes row row.rs1Val old (old &&& b, 0, 0) := updates.cells
      have stored : row.integers colMemVal = (old ^^^ b).toNat := updates.memCell
      have split := xor_split old b
      have value : evaluateAmoXorRaw row.integers = 0 := by
        rw [evaluateAmoXorRaw, updates.rs2Cell, cells.rdCell, cells.aux0Cell,
          cells.aux1Cell, stored, zeroCell]
        zify at split
        linear_combination split
      rw [value, Int.cast_zero]
      exact iff_of_true rfl trivial

theorem amoMinu_iff (width : AmoWidth)
    (updates : Updates row old b (AmoOp.memVal .minu width old b)
      (AmoOp.aux .minu width old b)) :
    ((evaluateAmoMinuRaw row.integers : ℤ) : Fr) = 0 ↔
      AmoOp.Fits .minu width old b := by
  cases width with
  | w =>
      let result : BitVec 32 :=
        if borrow (low old) (low b) = 1 then low old else low b
      have cells : Computes row row.rs1Val old (borrow (low old) (low b),
        correction (sext32 result - b - borrow (low old) (low b) * (old - b)), 0) :=
          updates.cells
      have stored : row.integers colMemVal = (sext32
          (if low old < low b then low old else low b)).toNat := by
        rw [← minu_eq]
        exact updates.memCell
      rw [evaluateAmoMinuRaw, updates.rs2Cell, cells.rdCell, cells.aux0Cell,
        cells.aux1Cell, stored, twoPow32, binaryCheck_eq_zero (borrow_le_one _ _),
        borrow_eq, add_zero, AmoOp.Fits]
      by_cases less : low old < low b
      · have one : borrow (low old) (low b) = 1 := by rw [borrow, if_pos less]
        have kept : result = low old := if_pos one
        rw [if_pos less, if_pos less, if_pos less, one, kept,
          show ((sext32 (low old)).toNat - b.toNat - 1 * (old.toNat - b.toNat) : ℤ) =
            (sext32 (low old)).toNat - old.toNat by ring]
        refine extension_iff ?_
        rw [one_mul, toNat_sub_emod, toNat_sub_emod, toNat_sub_emod]
        omega
      · have zero : borrow (low old) (low b) = 0 := by rw [borrow, if_neg less]
        have kept : result = low b := if_neg (by rw [zero]; decide)
        rw [if_neg less, if_neg less, if_neg less, zero, kept, zero_mul, sub_zero]
        refine extension_iff ?_
        rw [zero_mul, sub_zero, toNat_sub_emod]
  | d =>
      have cells : Computes row row.rs1Val old (borrow old b, 0, 0) := updates.cells
      have stored : row.integers colMemVal = (if old < b then old else b).toNat := by
        rw [← minu_eq]
        exact updates.memCell
      have value : evaluateAmoMinuRaw row.integers = 0 := by
        rw [evaluateAmoMinuRaw, updates.rs2Cell, cells.rdCell, cells.aux0Cell,
          cells.aux1Cell, stored, binaryCheck_eq_zero (borrow_le_one _ _), borrow_eq,
          zeroCell]
        split <;> ring
      rw [value, Int.cast_zero]
      exact iff_of_true rfl trivial

theorem amoMaxu_iff (width : AmoWidth)
    (updates : Updates row old b (AmoOp.memVal .maxu width old b)
      (AmoOp.aux .maxu width old b)) :
    ((evaluateAmoMaxuRaw row.integers : ℤ) : Fr) = 0 ↔
      AmoOp.Fits .maxu width old b := by
  cases width with
  | w =>
      let result : BitVec 32 :=
        if borrow (low old) (low b) = 1 then low b else low old
      have cells : Computes row row.rs1Val old (borrow (low old) (low b),
        correction (sext32 result - old + borrow (low old) (low b) * (old - b)), 0) :=
          updates.cells
      have stored : row.integers colMemVal = (sext32
          (if low old < low b then low b else low old)).toNat := by
        rw [← maxu_eq]
        exact updates.memCell
      rw [evaluateAmoMaxuRaw, updates.rs2Cell, cells.rdCell, cells.aux0Cell,
        cells.aux1Cell, stored, twoPow32, binaryCheck_eq_zero (borrow_le_one _ _),
        borrow_eq, add_zero, AmoOp.Fits]
      by_cases less : low old < low b
      · have one : borrow (low old) (low b) = 1 := by rw [borrow, if_pos less]
        have kept : result = low b := if_pos one
        rw [if_pos less, if_pos less, if_pos less, one, kept,
          show ((sext32 (low b)).toNat - old.toNat + 1 * (old.toNat - b.toNat) : ℤ) =
            (sext32 (low b)).toNat - b.toNat by ring]
        refine extension_iff ?_
        rw [one_mul, BitVec.toNat_add, Int.natCast_mod, Nat.cast_add, toNat_sub_emod,
          toNat_sub_emod]
        omega
      · have zero : borrow (low old) (low b) = 0 := by rw [borrow, if_neg less]
        have kept : result = low old := if_neg (by rw [zero]; decide)
        rw [if_neg less, if_neg less, if_neg less, zero, kept, zero_mul, add_zero]
        refine extension_iff ?_
        rw [zero_mul, add_zero, toNat_sub_emod]
  | d =>
      have cells : Computes row row.rs1Val old (borrow old b, 0, 0) := updates.cells
      have stored : row.integers colMemVal = (if old < b then b else old).toNat := by
        rw [← maxu_eq]
        exact updates.memCell
      have value : evaluateAmoMaxuRaw row.integers = 0 := by
        rw [evaluateAmoMaxuRaw, updates.rs2Cell, cells.rdCell, cells.aux0Cell,
          cells.aux1Cell, stored, binaryCheck_eq_zero (borrow_le_one _ _), borrow_eq,
          zeroCell]
        split <;> ring
      rw [value, Int.cast_zero]
      exact iff_of_true rfl trivial

/-- A kept operand is compared with its sign-extended low half. -/
theorem extended_iff (a : Word) :
    ((((sext32 (low a)).toNat - a.toNat : ℤ)) : Fr) = 0 ↔ IsWord a := by
  have aLt := a.isLt
  have sLt := (sext32 (low a)).isLt
  rw [intCast_eq_zero_iff_of_small (by rw [abs_lt]; omega), IsWord,
    ← BitVec.toNat_inj]
  omega

theorem amoMin_iff (width : AmoWidth)
    (updates : Updates row old b (AmoOp.memVal .min width old b)
      (AmoOp.aux .min width old b)) :
    ((evaluateAmoMinsRaw row.integers : ℤ) : Fr) = 0 ↔
      AmoOp.Fits .min width old b := by
  cases width with
  | w =>
      have cells : Computes row row.rs1Val old (borrow (low old) (low b),
        signBit32 (low old), signBit32 (low b)) := updates.cells
      have stored : row.integers colMemVal = (sext32
          (if (low old).slt (low b) then low old else low b)).toNat := by
        rw [← min_eq]
        exact updates.memCell
      rw [evaluateAmoMinsRaw, updates.rs2Cell, cells.rdCell, cells.aux0Cell,
        cells.aux1Cell, cells.aux2Cell, stored,
        binaryCheck_eq_zero (borrow_le_one _ _),
        binaryCheck_eq_zero (signBit32_le_one _),
        binaryCheck_eq_zero (signBit32_le_one _), toNat_signBit32, toNat_signBit32,
        signedLt_eq _ _ rfl, add_zero, add_zero, add_zero, AmoOp.Fits]
      by_cases less : (low old).slt (low b)
      · rw [if_pos less, if_pos less, if_pos less, ← extended_iff]
        ring_nf
      · rw [if_neg less, if_neg less, if_neg less, ← extended_iff]
        ring_nf
  | d =>
      have cells : Computes row row.rs1Val old
        (borrow old b, signBit old, signBit b) := updates.cells
      have stored : row.integers colMemVal =
          (if old.slt b then old else b).toNat := by
        rw [← min_eq]
        exact updates.memCell
      have value : evaluateAmoMinsRaw row.integers = 0 := by
        rw [evaluateAmoMinsRaw, updates.rs2Cell, cells.rdCell, cells.aux0Cell,
          cells.aux1Cell, cells.aux2Cell, stored,
          binaryCheck_eq_zero (borrow_le_one _ _),
          binaryCheck_eq_zero (signBit_le_one _),
          binaryCheck_eq_zero (signBit_le_one _), toNat_signBit, toNat_signBit,
          signedLt_eq _ _ rfl]
        split <;> ring
      rw [value, Int.cast_zero]
      exact iff_of_true rfl trivial

theorem amoMax_iff (width : AmoWidth)
    (updates : Updates row old b (AmoOp.memVal .max width old b)
      (AmoOp.aux .max width old b)) :
    ((evaluateAmoMaxsRaw row.integers : ℤ) : Fr) = 0 ↔
      AmoOp.Fits .max width old b := by
  cases width with
  | w =>
      have cells : Computes row row.rs1Val old (borrow (low old) (low b),
        signBit32 (low old), signBit32 (low b)) := updates.cells
      have stored : row.integers colMemVal = (sext32
          (if (low old).slt (low b) then low b else low old)).toNat := by
        rw [← max_eq]
        exact updates.memCell
      rw [evaluateAmoMaxsRaw, updates.rs2Cell, cells.rdCell, cells.aux0Cell,
        cells.aux1Cell, cells.aux2Cell, stored,
        binaryCheck_eq_zero (borrow_le_one _ _),
        binaryCheck_eq_zero (signBit32_le_one _),
        binaryCheck_eq_zero (signBit32_le_one _), toNat_signBit32, toNat_signBit32,
        signedLt_eq _ _ rfl, add_zero, add_zero, add_zero, AmoOp.Fits]
      by_cases less : (low old).slt (low b)
      · rw [if_pos less, if_pos less, if_pos less, ← extended_iff]
        ring_nf
      · rw [if_neg less, if_neg less, if_neg less, ← extended_iff]
        ring_nf
  | d =>
      have cells : Computes row row.rs1Val old
        (borrow old b, signBit old, signBit b) := updates.cells
      have stored : row.integers colMemVal =
          (if old.slt b then b else old).toNat := by
        rw [← max_eq]
        exact updates.memCell
      have value : evaluateAmoMaxsRaw row.integers = 0 := by
        rw [evaluateAmoMaxsRaw, updates.rs2Cell, cells.rdCell, cells.aux0Cell,
          cells.aux1Cell, cells.aux2Cell, stored,
          binaryCheck_eq_zero (borrow_le_one _ _),
          binaryCheck_eq_zero (signBit_le_one _),
          binaryCheck_eq_zero (signBit_le_one _), toNat_signBit, toNat_signBit,
          signedLt_eq _ _ rfl]
        split <;> ring
      rw [value, Int.cast_zero]
      exact iff_of_true rfl trivial

theorem AmoOp.body_iff (op : AmoOp) (width : AmoWidth)
    (updates : Updates row old b (op.memVal width old b) (op.aux width old b)) :
    ((op.body row.integers : ℤ) : Fr) = 0 ↔ op.Fits width old b := by
  cases op with
  | swap =>
      rw [AmoOp.body, amoSwap_zero width updates, Int.cast_zero]
      cases width <;> exact iff_of_true rfl trivial
  | add =>
      cases width with
      | w => exact amoAdd_word_iff updates
      | d =>
          rw [AmoOp.body, amoAdd_double updates, Int.cast_zero]
          exact iff_of_true rfl trivial
  | and => exact amoAnd_iff width updates
  | or => exact amoOr_iff width updates
  | xor => exact amoXor_iff width updates
  | minu => exact amoMinu_iff width updates
  | maxu => exact amoMaxu_iff width updates
  | min => exact amoMin_iff width updates
  | max => exact amoMax_iff width updates

end Bodies

/-! Recorded steps. -/

/-- The value an atomic update reads at a physical address. -/
def Vm.amoLoad (vm : Vm) (width : AmoWidth) (pa : Word) : Word :=
  match width with
  | .w => sext32 (vm.mmioLoadWord pa).1
  | .d => (vm.mmioLoadDouble pa).1

/-- The value an atomic update leaves in its destination: the one it reads, or
the one that was there when its address does not translate. -/
def Vm.amoOld (vm : Vm) (width : AmoWidth) (rd : Reg) (vaddr : Word) : Word :=
  match vm.translateStore vaddr with
  | (translated, some pa) => translated.amoLoad width pa
  | (_, none) => vm.cpu.readReg rd

def Instruction.isAtomic : Instruction → Bool
  | .lr _ _ _ _ _ => true
  | .sc _ _ _ _ _ _ => true
  | .amo _ _ _ _ _ _ _ => true
  | _ => false

/-- When the row of an atomic instruction satisfies its body. -/
def AtomicFits (vm : Vm) : Instruction → Prop
  | .amo op width rd rs1 rs2 _ _ =>
      op.Fits width (vm.amoOld width rd (vm.cpu.readReg rs1)) (vm.cpu.readReg rs2)
  | _ => True

section Recorded

variable {vm ready : Vm} {len : Byte} (step : ℕ)

theorem recordedRow_lr (after : Vm) (width : AmoWidth) (rd rs1 : Reg) (aq rl : Bool) :
    (recordedRow step vm after (.lr width rd rs1 aq rl) len).Satisfies
      (within atomicSelectors) := by
  have listed : keptBodies (within atomicSelectors) (.lr width rd rs1 aq rl) =
      [evaluateLrRaw] := by
    cases width <;> rfl
  rw [TraceRow.satisfies_record_iff listed]
  have value : evaluateLrRaw
      (recordedRow step vm after (.lr width rd rs1 aq rl) len).integers = 0 :=
    sub_self _
  rw [value, Int.cast_zero]

/-- The success bit is set exactly when the destination is zero. -/
theorem recordedRow_sc (after : Vm) (width : AmoWidth) (rd rs1 rs2 : Reg)
    (aq rl : Bool) :
    (recordedRow step vm after (.sc width rd rs1 rs2 aq rl) len).Satisfies
      (within atomicSelectors) := by
  have listed : keptBodies (within atomicSelectors) (.sc width rd rs1 rs2 aq rl) =
      [evaluateScRaw] := by
    cases width <;> rfl
  rw [TraceRow.satisfies_record_iff listed]
  let row := recordedRow step vm after (.sc width rd rs1 rs2 aq rl) len
  have cells : Computes row row.rs1Val row.rdValAfter
      (if row.rdValAfter = 0 then 1 else 0, 0, 0) := ⟨rfl, rfl, rfl⟩
  have value : evaluateScRaw row.integers = 0 := by
    rw [evaluateScRaw, cells.rdCell, cells.aux0Cell]
    split
    · rename_i zero
      rw [zero]
      rfl
    · rw [zeroCell]
      simp [binaryCheck]
  rw [value, Int.cast_zero]

variable {rd : Reg} (nonzero : rd ≠ 0)

include nonzero

theorem readReg_amo (op : AmoOp) (width : AmoWidth) (rs1 rs2 : Reg) (aq rl : Bool) :
    (ready.execute (.amo op width rd rs1 rs2 aq rl)).1.cpu.readReg rd =
      ready.amoOld width rd (ready.cpu.readReg rs1) := by
  simp only [Vm.execute, Vm.amoOld]
  rcases found : ready.translateStore (ready.cpu.readReg rs1) with
    ⟨translated, _ | pa⟩
  · exact Vm.readReg_of_x (Vm.translateFor_x_of_fault found) _
  · simp only [Vm.onAddress]
    refine (readReg_written _ nonzero _ _).trans ?_
    cases width <;> rfl

theorem recordedRow_amo (op : AmoOp) (width : AmoWidth) (rs1 rs2 : Reg)
    (aq rl : Bool)
    (executes : vm.Executes ready ⟨.amo op width rd rs1 rs2 aq rl, len⟩) :
    (recordedRow step vm (ready.execute (.amo op width rd rs1 rs2 aq rl)).1
      (.amo op width rd rs1 rs2 aq rl) len).Satisfies (within atomicSelectors) ↔
        AtomicFits ready (.amo op width rd rs1 rs2 aq rl) := by
  have listed : keptBodies (within atomicSelectors)
      (.amo op width rd rs1 rs2 aq rl) = [op.body] := by
    rw [keptBodies, selectorOf_amo]
    cases op <;> rfl
  have left : (recordedRow step vm (ready.execute (.amo op width rd rs1 rs2 aq rl)).1
      (.amo op width rd rs1 rs2 aq rl) len).rdValAfter =
        ready.amoOld width rd (ready.cpu.readReg rs1) :=
    (recordedRow_rdValAfter step).trans (readReg_amo nonzero op width rs1 rs2 aq rl)
  have operand := executes.readReg rs2
  rw [TraceRow.satisfies_record_iff listed]
  refine op.body_iff width ⟨⟨rfl, left, ?_⟩, operand.symm, ?_⟩
  · rw [← left, operand]
    rfl
  · rw [← left, operand]
    rfl

end Recorded

/-- A traced step of an atomic instruction appends a row, and its body vanishes
exactly when the upper halves of an updated word fit. -/
theorem atomic_complete_iff (tracer : TracingVm) {insn : Instruction} {len : Byte}
    {ready : Vm} (atomic : insn.isAtomic) (nonzero : insn.rd ≠ some 0)
    (stands : fetchDecode tracer.vm.memory tracer.vm.cpu.pc = .ok ⟨insn, len⟩)
    (executes : tracer.vm.Executes ready ⟨insn, len⟩) :
    ∃ after row, tracer.step = some (⟨after, tracer.trace ++ [row]⟩, .ok ()) ∧
      (row.Satisfies (within atomicSelectors) ↔ AtomicFits ready insn) := by
  have ran : ready.execute insn = ((ready.execute insn).1, .ok ()) := by
    cases insn with
    | lr => rfl
    | sc => rfl
    | amo => rfl
    | _ => exact absurd atomic Bool.false_ne_true
  refine ⟨_, _, TracingVm.step_eq stands executes ran, ?_⟩
  cases insn with
  | lr width rd rs1 aq rl =>
      exact iff_of_true (recordedRow_lr _ _ width rd rs1 aq rl) trivial
  | sc width rd rs1 rs2 aq rl =>
      exact iff_of_true (recordedRow_sc _ _ width rd rs1 rs2 aq rl) trivial
  | amo op width rd rs1 rs2 aq rl =>
      exact recordedRow_amo _ (fun zero => nonzero (by rw [zero]; rfl)) op width rs1
        rs2 aq rl executes
  | _ => exact absurd atomic Bool.false_ne_true

/-- `amoadd.w x1, x3, (x2)` with clear registers, on its own word. -/
theorem atomic_complete_amoadd :
    ∃ after row,
      TracingVm.step (.new (loadedVm 0 0x003120AF)) =
        some (⟨after, [] ++ [row]⟩, .ok ()) ∧
      row.Satisfies (within atomicSelectors) := by
  have stands : fetchDecode (loadedVm 0 0x003120AF).memory 0 =
      .ok ⟨.amo .add .w 1 2 3 false false, 4⟩ := by decide
  have executes := Vm.executes_noteFetched rfl rfl stands
  obtain ⟨after, row, stepped, complete⟩ := atomic_complete_iff
    (.new (loadedVm 0 0x003120AF)) rfl (by decide) stands executes
  refine ⟨after, row, stepped, complete.2 ?_⟩
  have fits : (sext32 0x003120AF).toNat + (0 : Word).toNat < 2 ^ 64 ∧
      (low (sext32 0x003120AF) + low 0).msb = false := by decide
  exact fits

/-- The same update by `0x7FFFFFFF`: the sum is negative, and its sign is
counted both in the carry column and in the sign column. -/
theorem amoadd_row_rejected :
    ∃ after row,
      TracingVm.step (.new ((loadedVm 0 0x003120AF).writeReg 3 0x7FFFFFFF)) =
        some (⟨after, [] ++ [row]⟩, .ok ()) ∧
      ¬ row.Satisfies (within atomicSelectors) := by
  have stands : fetchDecode ((loadedVm 0 0x003120AF).writeReg 3 0x7FFFFFFF).memory 0 =
      .ok ⟨.amo .add .w 1 2 3 false false, 4⟩ := by decide
  have executes := Vm.executes_noteFetched rfl rfl stands
  have stepped := @TracingVm.step_eq
    (.new ((loadedVm 0 0x003120AF).writeReg 3 0x7FFFFFFF)) _ _ _ stands executes rfl
  refine ⟨_, _, stepped, fun satisfied => ?_⟩
  have fits := (recordedRow_amo _ (by decide) .add .w 2 3 false false executes).1
    satisfied
  have sum : (low (sext32 0x003120AF) + low 0x7FFFFFFF).msb = false := fits.2
  exact absurd sum (by decide)

end MetaVm.Riscv
