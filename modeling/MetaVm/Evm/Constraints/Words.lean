import MetaVm.Evm.AluWitness
import MetaVm.Evm.Constraints.Rows

namespace MetaVm.Evm.Constraints

open Zkp Limbs LimbChain

/-! The words of a row. -/

section Cells

variable {order count : ℕ}

/-- The cells that hold a word. -/
def cells (x : Limbs count) : Fin count → ZMod order := fun k => Scalar.fromU64 (x k)

theorem cells_eq (x : Limbs count) (k : Fin count) :
    (cells x k : ZMod order) = (x.limb k : ZMod order) := by
  rw [cells, Scalar.fromU64, limb_fin]

theorem cells_none (x : Limbs 0) : (cells x : Fin 0 → ZMod order) = ![] :=
  Subsingleton.elim _ _

variable (trace : EvmTraceRow)

set_option maxRecDepth 8000

theorem traceRow_input0 :
    (traceRow trace : Row (ZMod order)) ∘ input0 = cells trace.input0 := by
  funext k
  fin_cases k <;> rfl

theorem traceRow_input1 :
    (traceRow trace : Row (ZMod order)) ∘ input1 = cells trace.input1 := by
  funext k
  fin_cases k <;> rfl

theorem traceRow_output0 :
    (traceRow trace : Row (ZMod order)) ∘ output0 = cells trace.output0 := by
  funext k
  fin_cases k <;> rfl

theorem traceRow_immediate :
    (traceRow trace : Row (ZMod order)) ∘ immediate = cells trace.immediate := by
  funext k
  fin_cases k <;> rfl

theorem traceRow_aux0 : (traceRow trace : Row (ZMod order)) ∘ aux0 = cells trace.aux0 := by
  funext k
  fin_cases k <;> rfl

theorem traceRow_aux1 : (traceRow trace : Row (ZMod order)) ∘ aux1 = cells trace.aux1 := by
  funext k
  fin_cases k <;> rfl

end Cells

/-! Sums of limbs. -/

section Sums

variable {order : ℕ} (x : U256)

def limbTotal (x : U256) : ℕ := x.limb 0 + x.limb 1 + x.limb 2 + x.limb 3

theorem limbTotal_lt : limbTotal x < 2 ^ 66 := by
  have low0 := x.limb_lt 0
  have low1 := x.limb_lt 1
  have low2 := x.limb_lt 2
  have low3 := x.limb_lt 3
  rw [limbTotal]
  omega

theorem limbTotal_eq_zero_iff : limbTotal x = 0 ↔ x = 0 := by
  constructor
  · intro zero
    rw [limbTotal] at zero
    apply ext_limb
    intro k inside
    rw [limb_zero]
    interval_cases k <;> omega
  · rintro rfl
    simp [limbTotal]

theorem limbSum_cells : limbSum (cells x) = (limbTotal x : ZMod order) := by
  rw [limbSum, cells_eq, cells_eq, cells_eq, cells_eq, limbTotal]
  push_cast
  rfl

/-- A small number is zero in the field only if it is zero. -/
theorem natCast_eq_zero_iff [large : Fact (2 ^ 254 < order)] {number : ℕ}
    (small : number < 2 ^ 254) : (number : ZMod order) = 0 ↔ number = 0 := by
  rw [ZMod.natCast_eq_zero_iff]
  constructor
  · exact fun divides => Nat.eq_zero_of_dvd_of_lt divides (lt_trans small large.out)
  · rintro rfl
    exact dvd_zero order

end Sums

/-! The limb chains on words. -/

section Chains

variable {order count : ℕ}


theorem addLimb_cells (x : Limbs count) (k : ℕ) (s : ZMod order) :
    addLimb (cells x) k s = s + (x.limb k : ZMod order) := by
  rw [addLimb]
  split
  · rename_i inside
    rw [cells_eq]
  · rename_i outside
    rw [limb_of_le x (Nat.not_lt.1 outside), Nat.cast_zero, add_zero]

theorem addCarryIn_cells (carry : Limbs count) (k : ℕ) (s : ZMod order) :
    addCarryIn (cells carry) k s = s + (carryIn carry k : ZMod order) := by
  cases k with
  | zero => rw [addCarryIn, carryIn, Nat.cast_zero, add_zero]
  | succ k => exact addLimb_cells carry k s

theorem subBorrowIn_cells (borrow : Limbs count) (k : ℕ) (s : ZMod order) :
    subBorrowIn (cells borrow) k s = s - (carryIn borrow k : ZMod order) := by
  cases k with
  | zero => rw [subBorrowIn, carryIn, Nat.cast_zero, sub_zero]
  | succ k =>
      rw [subBorrowIn, subLimb, carryIn]
      split
      · rw [cells_eq]
      · rename_i outside
        rw [limb_of_le borrow (Nat.not_lt.1 outside), Nat.cast_zero, sub_zero]

theorem binaryCheck_cells {x : Limbs count} {k : Fin count} (bit : x.limb k ≤ 1) :
    binaryCheck (cells x k : ZMod order) = 0 := by
  rw [binaryCheck, cells_eq]
  rcases Nat.le_one_iff_eq_zero_or_eq_one.1 bit with zero | one
  · rw [zero, Nat.cast_zero, zero_mul]
  · rw [one, Nat.cast_one, sub_self, mul_zero]

/-- A limb of a sum and the carry out of it. -/
theorem addLimb_eq_zero {x y carry out : U256} {k : Fin 4}
    (balance : x.limb k + y.limb k + carryIn carry k = carry.limb k * 2 ^ 64 + out.limb k) :
    addCarryIn (cells carry) k (cells x k + cells y k) - cells carry k * twoPow64 - cells out k =
      (0 : ZMod order) := by
  have numbers := congrArg (Nat.cast : ℕ → ZMod order) balance
  push_cast at numbers
  rw [addCarryIn_cells, cells_eq, cells_eq, cells_eq, cells_eq, twoPow64]
  linear_combination numbers

/-- A limb of a difference and the borrow out of it. -/
theorem borrowLimb_eq_zero {x y borrow diff : U256} {k : Fin 4}
    (balance : x.limb k + borrow.limb k * 2 ^ 64 =
      diff.limb k + y.limb k + carryIn borrow k) :
    borrowLimb (cells x) (cells y) (cells borrow) (cells diff) k = (0 : ZMod order) := by
  have numbers := congrArg (Nat.cast : ℕ → ZMod order) balance
  push_cast at numbers
  rw [borrowLimb, subBorrowIn_cells, cells_eq, cells_eq, cells_eq, cells_eq, twoPow64]
  linear_combination numbers

theorem sum_limbPairs (x y : U256) (k : Fin 8) :
    ((limbPairs k).map fun pair => x.limb pair.1 * y.limb pair.2).sum =
      convolution x.limb y.limb k := by
  have xEnds : ∀ j, 4 ≤ j → x.limb j = 0 := fun _ => limb_of_le x
  have yEnds : ∀ j, 4 ≤ j → y.limb j = 0 := fun _ => limb_of_le y
  fin_cases k <;>
    simp [limbPairs, List.finRange_succ, convolution, Finset.sum_range_succ, xEnds, yEnds,
      Nat.add_assoc]

theorem addProducts_cells (x y : U256) (pairs : List (Fin 4 × Fin 4)) (s : ZMod order) :
    addProducts (cells x) (cells y) pairs s =
      s + ((pairs.map fun pair => x.limb pair.1 * y.limb pair.2).sum : ℕ) := by
  induction pairs generalizing s with
  | nil => simp [addProducts, addAll]
  | cons pair rest hypothesis =>
      have next : addProducts (cells x) (cells y) (pair :: rest) s =
          addProducts (cells x) (cells y) rest (s + cells x pair.1 * cells y pair.2) := rfl
      rw [next, hypothesis, List.map_cons, List.sum_cons, cells_eq, cells_eq]
      push_cast
      ring

theorem limbPairs_head (k : Fin 4) : limbPairs k = (0, k) :: (limbPairs k).tail := by
  fin_cases k <;> rfl

theorem wordProductLimb_cells (x y carry out : U256) (r : Limbs count) (k : Fin 4) :
    wordProductLimb (cells x) (cells y) (cells r) (cells carry) (cells out) k =
      ((convolution x.limb y.limb k + r.limb k + carryIn carry k : ℕ) : ZMod order) -
        ((carry.limb k * 2 ^ 64 + out.limb k : ℕ) : ZMod order) := by
  have products : addProducts (cells x) (cells y) (limbPairs k).tail (cells x 0 * cells y k) =
      ((convolution x.limb y.limb k : ℕ) : ZMod order) := by
    have whole := addProducts_cells x y (limbPairs k) (0 : ZMod order)
    have sum := sum_limbPairs x y (k.castLE (by decide))
    rw [Fin.val_castLE] at sum
    rw [sum, zero_add, limbPairs_head] at whole
    rw [← whole]
    simp [addProducts, addAll]
  rw [wordProductLimb, products, addLimb_cells, addCarryIn_cells, cells_eq, cells_eq,
    twoPow64]
  push_cast
  ring

/-- Columns that add up to their digit and the carry satisfy the product check. -/
theorem wordProduct_eq_zero {x y carry out : U256} {r : Limbs count}
    (each : ∀ k < 4, convolution x.limb y.limb k + r.limb k + carryIn carry k =
      carry.limb k * 2 ^ 64 + out.limb k) :
    wordProduct (cells x) (cells y) (cells r) (cells carry) (cells out) =
      (0 : ZMod order) := by
  have limb : ∀ k : Fin 4,
      wordProductLimb (cells x) (cells y) (cells r) (cells carry) (cells out) k =
        (0 : ZMod order) := by
    intro k
    rw [wordProductLimb_cells, each k k.isLt, sub_self]
  rw [wordProduct, limbSum, limb, limb, limb, limb]
  simp

/-- The columns leave the limbs of the word that they add up to. -/
theorem digitAt_eq_limb {column : ℕ → ℕ} {out : U256}
    (isTotal : total (2 ^ 64) 4 column ≡ out.value [MOD 2 ^ 256]) {k : ℕ} (inside : k < 4) :
    digitAt (2 ^ 64) column k = out.limb k := by
  have small : ∀ j < 4, digitAt (2 ^ 64) column j < 2 ^ 64 :=
    fun j _ => Nat.mod_lt _ (Nat.two_pow_pos 64)
  have outLt : out.value < 2 ^ 256 := out.value_lt
  have value : Digits.value (2 ^ 64) 4 (digitAt (2 ^ 64) column) = out.value := by
    rw [value_digitAt column (Nat.two_pow_pos 64), ← pow_mul]
    exact Eq.trans isTotal (Nat.mod_eq_of_lt outLt)
  rw [limb_eq_value out inside, ← value, Digits.digit_value small inside]

/-- A product that the instruction carries out satisfies the check, unless its
columns overflow. -/
theorem carryChain_closes {x y out : U256} {r : ℕ → List ℕ} {rest : Limbs count}
    (terms : ∀ k < 4, (r k).sum = rest.limb k)
    (isTotal : x.value * y.value + Digits.value (2 ^ 64) 4 rest.limb ≡ out.value [MOD 2 ^ 256])
    (fit : ColumnsFit (chainColumn x y r) 4) :
    wordProduct (cells x) (cells y) (cells rest) (cells (carryChain x y r).value) (cells out) =
      (0 : ZMod order) := by
  have columns : ∀ k < 4, chainColumn x y r k = convolution x.limb y.limb k + rest.limb k :=
    fun k inside => by rw [chainColumn, terms k inside]
  have product := @total_convolution_modEq x.limb y.limb (2 ^ 64) 4 fun k _ => y.limb_lt k
  rw [← pow_mul] at product
  have digits := (product.add_right _).trans isTotal
  rw [← total_chainColumn terms le_rfl] at digits
  apply wordProduct_eq_zero
  intro k inside
  have entering : carryIn (carryChain x y r).value k =
      carryInto (2 ^ 64) (chainColumn x y r) k := by
    cases k with
    | zero => rfl
    | succ k => exact limb_carryChain fit (Nat.lt_of_succ_lt inside)
  rw [entering, ← columns k inside, column_balance, digitAt_eq_limb digits inside,
    limb_carryChain fit inside, Nat.add_comm]

theorem product_complete_iff {x y out : U256} {r : ℕ → List ℕ} {rest : Limbs count}
    (terms : ∀ k < 4, (r k).sum = rest.limb k)
    (isTotal : x.value * y.value + Digits.value (2 ^ 64) 4 rest.limb ≡ out.value [MOD 2 ^ 256]) :
    (wordProduct (cells x) (cells y) (cells rest) (cells (carryChain x y r).value) (cells out) =
        (0 : ZMod order) ∧ (carryChain x y r).overflowed = false) ↔
      ∀ k < 4, total (2 ^ 64) (k + 1) (convolution x.limb y.limb) +
        Digits.value (2 ^ 64) (k + 1) rest.limb < (2 ^ 64) ^ (k + 2) := by
  rw [← chainColumns_fit_iff terms, overflowed_carryChain]
  exact ⟨fun complete => complete.2, fun fit => ⟨carryChain_closes terms isTotal fit, fit⟩⟩

end Chains

end MetaVm.Evm.Constraints
