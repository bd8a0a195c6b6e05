import MetaVm.Lib.Digits

namespace MetaVm.LimbChain

/-! Numbers computed limb by limb, with a carry from each limb to the next. -/

variable {base count : ℕ}

/-- Carries that balance every column of a sum balance the sum. -/
theorem value_balance {x y sum carry : ℕ → ℕ}
    (each : ∀ k < count, x k + y k + carry k = sum k + carry (k + 1) * base) :
    Digits.value base count x + Digits.value base count y + carry 0 =
      Digits.value base count sum + carry count * base ^ count := by
  induction count with
  | zero => simp [Digits.value]
  | succ count hypothesis =>
      have earlier := hypothesis fun k inside => each k (Nat.lt_succ_of_lt inside)
      have last := each count (Nat.lt_succ_self count)
      rw [Digits.value_succ, Digits.value_succ, Digits.value_succ, pow_succ]
      linear_combination earlier + base ^ count * last

/-- One partial product `x * y j`, added to limb `i + j` of a number. -/
theorem product_round {x total i j carry product : ℕ} {limb y : ℕ → ℕ}
    (inside : i + j < count) (isSum : product = x * y j + limb (i + j) + carry)
    (balance : Digits.value base count limb + carry * base ^ (i + j) =
      total + x * Digits.value base j y * base ^ i) :
    Digits.value base count (Function.update limb (i + j) (product % base)) +
        product / base * base ^ (i + j + 1) =
      total + x * Digits.value base (j + 1) y * base ^ i := by
  have split := Nat.mod_add_div product base
  have written : Digits.value base count (Function.update limb (i + j) (product % base)) +
      limb (i + j) * base ^ (i + j) =
        Digits.value base count limb + product % base * base ^ (i + j) :=
    Digits.value_update inside _
  rw [pow_add] at balance written
  rw [Digits.value_succ, pow_succ, pow_add]
  linear_combination written + balance + base ^ i * base ^ j * (split + isSum)

/-! Columns of natural numbers, reduced to digits. -/

section Columns

variable (column : ℕ → ℕ)

/-- The carry into a column. -/
def carryInto (base : ℕ) (column : ℕ → ℕ) : ℕ → ℕ
  | 0 => 0
  | k + 1 => (column k + carryInto base column k) / base

/-- What a column leaves in its place. -/
def digitAt (base : ℕ) (column : ℕ → ℕ) (k : ℕ) : ℕ :=
  (column k + carryInto base column k) % base

/-- The number that the columns stand for. -/
abbrev total (base count : ℕ) (column : ℕ → ℕ) : ℕ := Digits.value base count column

theorem column_balance (base k : ℕ) :
    column k + carryInto base column k =
      digitAt base column k + carryInto base column (k + 1) * base := by
  rw [digitAt, carryInto, Nat.mul_comm, Nat.mod_add_div]

theorem total_balance (base count : ℕ) :
    total base count column =
      Digits.value base count (digitAt base column) +
        carryInto base column count * base ^ count := by
  have each : ∀ k < count, column k + 0 + carryInto base column k =
      digitAt base column k + carryInto base column (k + 1) * base :=
    fun k _ => column_balance column base k
  have balance := value_balance each
  have zero : Digits.value base count (fun _ => 0) = 0 := by simp [Digits.value]
  rwa [zero, Nat.add_zero, carryInto, Nat.add_zero] at balance

variable (positive : 0 < base)
include positive

theorem carryInto_eq_div (count : ℕ) :
    carryInto base column count = total base count column / base ^ count := by
  have small : Digits.value base count (digitAt base column) < base ^ count :=
    Digits.value_lt fun k _ => Nat.mod_lt _ positive
  have nonzero : 0 < base ^ count := Nat.pow_pos positive
  rw [total_balance, Nat.add_mul_div_right _ _ nonzero, Nat.div_eq_of_lt small,
    Nat.zero_add]

/-- The carry out of a column is below a bound as long as the columns up to it
are. -/
theorem carryInto_lt_iff (bound count : ℕ) :
    carryInto base column count < bound ↔
      total base count column < bound * base ^ count := by
  rw [carryInto_eq_div column positive, Nat.div_lt_iff_lt_mul (Nat.pow_pos positive)]

theorem value_digitAt (count : ℕ) :
    Digits.value base count (digitAt base column) = total base count column % base ^ count := by
  have small : Digits.value base count (digitAt base column) < base ^ count :=
    Digits.value_lt fun k _ => Nat.mod_lt _ positive
  rw [total_balance, Nat.add_mul_mod_self_right, Nat.mod_eq_of_lt small]

end Columns

/-! The columns of a product. -/

section Products

variable (x y : ℕ → ℕ)

/-- `x₀ * yₖ + x₁ * yₖ₋₁ + … + xₖ * y₀`. -/
def convolution (x y : ℕ → ℕ) (k : ℕ) : ℕ := ∑ i ∈ Finset.range (k + 1), x i * y (k - i)

/-- The first columns hold each digit of `x` times the digits of `y` that it
reaches. -/
theorem total_convolution (base count : ℕ) :
    total base count (convolution x y) =
      ∑ i ∈ Finset.range count, x i * base ^ i * Digits.value base (count - i) y := by
  have terms : ∀ k ∈ Finset.range count, convolution x y k * base ^ k =
      ∑ i ∈ Finset.range (k + 1), x i * base ^ i * (y (k - i) * base ^ (k - i)) := by
    intro k _
    rw [convolution, Finset.sum_mul]
    refine Finset.sum_congr rfl fun i member => ?_
    have power : base ^ k = base ^ i * base ^ (k - i) := by
      rw [← pow_add, Nat.add_sub_cancel' (Nat.lt_succ_iff.1 (Finset.mem_range.1 member))]
    rw [power]
    ring
  rw [total, Digits.value, Finset.sum_congr rfl terms]
  rw [Finset.sum_range_diag_flip count fun i j => x i * base ^ i * (y j * base ^ j)]
  refine Finset.sum_congr rfl fun i _ => ?_
  rw [Digits.value, Finset.mul_sum]

variable {x y}

/-- They hold the product up to the digits beyond them. -/
theorem total_convolution_modEq {base count : ℕ} (small : ∀ k < count, y k < base) :
    total base count (convolution x y) ≡
      Digits.value base count x * Digits.value base count y [MOD base ^ count] := by
  rw [total_convolution, Digits.value, Finset.sum_mul]
  refine Nat.ModEq.sum fun i member => ?_
  have inside := Finset.mem_range.1 member
  have reached := Digits.value_mod_pow (Nat.sub_le count i) fun k below =>
    small k (lt_of_lt_of_le below (Nat.sub_le count i))
  have shifted := (Nat.mod_modEq (Digits.value base count y) (base ^ (count - i))).mul_left'
    (base ^ i)
  rw [reached, ← pow_add, Nat.add_sub_cancel' (Nat.le_of_lt inside)] at shifted
  rw [Nat.mul_assoc, Nat.mul_assoc]
  exact shifted.mul_left (x i)

end Products

end MetaVm.LimbChain
