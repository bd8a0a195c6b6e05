import MetaVm.Evm.Word

namespace MetaVm.Evm

open Limbs LimbChain

/-! Comparison and subtraction of words. -/

/-- The first `k` limbs of `a` and `b`, compared from the highest one down. -/
def ltLimbs {count : ℕ} (a b : Limbs count) : ℕ → Bool
  | 0 => false
  | k + 1 =>
      if a.limb k < b.limb k then true
      else if b.limb k < a.limb k then false
      else ltLimbs a b k

def ltU256 (a b : U256) : Bool := ltLimbs a b 4

def subU256 (a b : U256) : U256 := ofDigits (loopLimb (subRounds a b) 0)

theorem ltLimbs_iff {count : ℕ} (a b : Limbs count) (k : ℕ) :
    ltLimbs a b k = true ↔ Digits.value (2 ^ 64) k a.limb < Digits.value (2 ^ 64) k b.limb := by
  induction k with
  | zero => simp [ltLimbs, Digits.value]
  | succ k hypothesis =>
      have aLow : Digits.value (2 ^ 64) k a.limb < (2 ^ 64) ^ k :=
        Digits.value_lt fun i _ => a.limb_lt i
      have bLow : Digits.value (2 ^ 64) k b.limb < (2 ^ 64) ^ k :=
        Digits.value_lt fun i _ => b.limb_lt i
      rw [ltLimbs, Digits.value_succ, Digits.value_succ]
      by_cases less : a.limb k < b.limb k
      · have gap := Nat.mul_le_mul_right ((2 ^ 64) ^ k) less
        rw [Nat.succ_mul] at gap
        simp only [if_pos less, true_iff]
        omega
      by_cases greater : b.limb k < a.limb k
      · have gap := Nat.mul_le_mul_right ((2 ^ 64) ^ k) greater
        rw [Nat.succ_mul] at gap
        simp only [if_neg less, if_pos greater, Bool.false_eq_true, false_iff]
        omega
      · have same : a.limb k = b.limb k := by omega
        rw [if_neg less, if_neg greater, hypothesis, same]
        omega

theorem ltU256_iff (a b : U256) : ltU256 a b = true ↔ a.value < b.value := ltLimbs_iff a b 4

theorem value_subU256 (a b : U256) :
    (subU256 a b).value + b.value =
      a.value + loopCarry (subRounds a b) 0 4 * (2 ^ 64) ^ 4 := by
  have total := subLoop_value a b (Nat.zero_le 1)
  rw [subU256, value_ofDigits fun k _ => subLoop_lt a b (Nat.zero_le 1) k]
  rwa [Nat.add_zero] at total

/-- A subtraction borrows from outside exactly when it goes below zero. -/
theorem subBorrow_eq {count : ℕ} (a b : Limbs count) :
    loopCarry (subRounds a b) 0 count = if a.value < b.value then 1 else 0 := by
  have total := subLoop_value a b (Nat.zero_le 1)
  have small : Digits.value (2 ^ 64) count (loopLimb (subRounds a b) 0) < (2 ^ 64) ^ count :=
    Digits.value_lt fun k _ => subLoop_lt a b (Nat.zero_le 1) k
  have bit := subBorrow_le_one a b (Nat.zero_le 1) count
  have aLt := a.value_lt
  have bLt := b.value_lt
  rcases Nat.le_one_iff_eq_zero_or_eq_one.1 bit with zero | one
  · rw [zero] at total ⊢
    rw [if_neg (by omega)]
  · rw [one] at total ⊢
    rw [if_pos (by omega)]

theorem value_subU256_of_le {a b : U256} (le : b.value ≤ a.value) :
    (subU256 a b).value = a.value - b.value := by
  have total := value_subU256 a b
  rw [subBorrow_eq, if_neg (Nat.not_lt.2 le)] at total
  omega

theorem value_subU256_mod (a b : U256) :
    (subU256 a b).value = (a.value + 2 ^ 256 - b.value) % 2 ^ 256 := by
  have total := value_subU256 a b
  have small := (subU256 a b).value_lt
  have aLt := a.value_lt
  have bLt := b.value_lt
  rw [subBorrow_eq] at total
  by_cases less : a.value < b.value
  · rw [if_pos less] at total
    omega
  · rw [if_neg less] at total
    omega

/-! Multiplication, in rows of partial products. -/

section Product

variable (a b : U256)

/-- Row `i` of the product, as far as it reaches the result. -/
def mulRowLow (i : ℕ) (result : ℕ → ℕ) : Checked ((ℕ → ℕ) × ℕ) :=
  (List.range (4 - i)).foldlM (fun (state : (ℕ → ℕ) × ℕ) j => do
    let prod ← Checked.sum (2 ^ 128) (a.limb i * b.limb j) [state.1 (i + j), state.2]
    return (Function.update state.1 (i + j) (prod % 2 ^ 64), prod / 2 ^ 64)) (result, 0)

def mulRowsLow : Checked (ℕ → ℕ) :=
  (List.range 4).foldlM (fun result i => do
    let state ← mulRowLow a b i result
    return state.1) fun _ => 0

/-- The low 256 bits of `a * b`. -/
def mulU256Low : Checked U256 := do
  let result ← mulRowsLow a b
  return ofDigits result

/-- A partial product with the two limbs added to it fits into `u128`. -/
theorem limb_product_fits (i j : ℕ) {x y : ℕ} (xLt : x < 2 ^ 64) (yLt : y < 2 ^ 64) :
    a.limb i * b.limb j + x + y < 2 ^ 128 := by
  have product := Nat.mul_le_mul (Nat.le_pred_of_lt (a.limb_lt i))
    (Nat.le_pred_of_lt (b.limb_lt j))
  norm_num at product
  omega

theorem mulRowLow_fits {i : ℕ} (inside : i < 4) {result : ℕ → ℕ}
    (small : ∀ k, result k < 2 ^ 64) :
    (mulRowLow a b i result).Fits fun state =>
      Digits.value (2 ^ 64) 4 state.1 + state.2 * (2 ^ 64) ^ 4 =
          Digits.value (2 ^ 64) 4 result +
            a.limb i * Digits.value (2 ^ 64) (4 - i) b.limb * (2 ^ 64) ^ i ∧
        ∀ k, state.1 k < 2 ^ 64 := by
  let invariant : ℕ → (ℕ → ℕ) × ℕ → Prop := fun j state =>
    Digits.value (2 ^ 64) 4 state.1 + state.2 * (2 ^ 64) ^ (i + j) =
        Digits.value (2 ^ 64) 4 result +
          a.limb i * Digits.value (2 ^ 64) j b.limb * (2 ^ 64) ^ i ∧
      state.2 < 2 ^ 64 ∧ ∀ k, state.1 k < 2 ^ 64
  have start : invariant 0 (result, 0) :=
    ⟨by simp [Digits.value], Nat.two_pow_pos 64, small⟩
  refine (Checked.Fits.foldlM (fun j less state holds => ?_) start).imp
    fun state holds => ?_
  · obtain ⟨total, carryLt, limbsLt⟩ := holds
    have fits := limb_product_fits a b i j (limbsLt (i + j)) carryLt
    refine (Checked.sum_fits (by simpa [← Nat.add_assoc] using fits)).bind
      fun prod isSum => .pure ?_
    simp only [List.sum_cons, List.sum_nil, Nat.add_zero] at isSum
    rw [← Nat.add_assoc] at isSum
    refine ⟨product_round (by omega) isSum total, by dsimp only; omega, fun k => ?_⟩
    · dsimp only
      by_cases here : k = i + j
      · rw [here, Function.update_self]
        exact Nat.mod_lt _ (by decide)
      · rw [Function.update_of_ne here]
        exact limbsLt k
  · obtain ⟨total, -, limbsLt⟩ := holds
    rw [Nat.add_sub_cancel' (Nat.le_of_lt inside)] at total
    exact ⟨total, limbsLt⟩

theorem mulRowsLow_fits : (mulRowsLow a b).Fits fun result =>
    Digits.value (2 ^ 64) 4 result ≡ a.value * b.value [MOD (2 ^ 64) ^ 4] ∧
      ∀ k, result k < 2 ^ 64 := by
  let invariant : ℕ → (ℕ → ℕ) → Prop := fun i result =>
    Digits.value (2 ^ 64) 4 result ≡
        Digits.value (2 ^ 64) i a.limb * b.value [MOD (2 ^ 64) ^ 4] ∧
      ∀ k, result k < 2 ^ 64
  have start : invariant 0 fun _ => 0 := by
    refine ⟨?_, fun _ => Nat.two_pow_pos 64⟩
    simp [Digits.value, Nat.ModEq]
  refine Checked.Fits.foldlM (fun i inside result holds => ?_) start
  obtain ⟨total, small⟩ := holds
  refine (mulRowLow_fits a b inside small).bind fun state row => .pure ⟨?_, row.2⟩
  -- The limbs of `b` that the row leaves out count for multiples of the modulus.
  have reached := Digits.value_mod_pow (Nat.sub_le 4 i) fun k _ => b.limb_lt k
  have shifted : Digits.value (2 ^ 64) (4 - i) b.limb * (2 ^ 64) ^ i ≡
      b.value * (2 ^ 64) ^ i [MOD (2 ^ 64) ^ 4] := by
    have same := (Nat.mod_modEq b.value ((2 ^ 64) ^ (4 - i))).mul_right' ((2 ^ 64) ^ i)
    rwa [Limbs.value, reached, ← pow_add, Nat.sub_add_cancel (Nat.le_of_lt inside)] at same
  calc Digits.value (2 ^ 64) 4 state.1
      ≡ Digits.value (2 ^ 64) 4 state.1 + state.2 * (2 ^ 64) ^ 4 [MOD (2 ^ 64) ^ 4] :=
        (Nat.add_mul_mod_self_right _ _ _).symm
    _ = Digits.value (2 ^ 64) 4 result +
          a.limb i * (Digits.value (2 ^ 64) (4 - i) b.limb * (2 ^ 64) ^ i) := by
        rw [row.1, Nat.mul_assoc]
    _ ≡ Digits.value (2 ^ 64) i a.limb * b.value +
          a.limb i * (b.value * (2 ^ 64) ^ i) [MOD (2 ^ 64) ^ 4] :=
        total.add (shifted.mul_left _)
    _ = Digits.value (2 ^ 64) (i + 1) a.limb * b.value := by
        rw [Digits.value_succ, Nat.add_mul, Nat.mul_assoc, Nat.mul_comm b.value]

theorem mulU256Low_fits :
    (mulU256Low a b).Fits fun product => product.value = a.value * b.value % 2 ^ 256 := by
  refine (mulRowsLow_fits a b).bind fun result holds => .pure ?_
  obtain ⟨total, small⟩ := holds
  have below : Digits.value (2 ^ 64) 4 result < (2 ^ 64) ^ 4 :=
    Digits.value_lt fun k _ => small k
  have modulus : (2 ^ 64) ^ 4 = 2 ^ 256 := by norm_num
  rw [value_ofDigits fun k _ => small k, ← Nat.mod_eq_of_lt below, ← modulus]
  exact total

end Product

end MetaVm.Evm
