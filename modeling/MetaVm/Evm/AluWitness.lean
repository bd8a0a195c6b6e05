import MetaVm.Evm.MulDivWitness

namespace MetaVm.Evm

open Limbs LimbChain

/-! The witnesses of sums, comparisons, bitwise operations and shifts. -/

/-- The carry into limb `k`. -/
def carryIn {count : ℕ} (carry : Limbs count) : ℕ → ℕ
  | 0 => 0
  | k + 1 => carry.limb k

theorem limb_ofWord (w : Word) {k : ℕ} (inside : k < 4) :
    (ofWord w).limb k = w.toNat / (2 ^ 64) ^ k % 2 ^ 64 := limb_ofNat _ inside

section Sums

variable {x y : U256} {k : ℕ}

theorem limb_carryAux (inside : k < 4) :
    (carryAux x y).limb k = loopCarry (addRounds x y) 0 (k + 1) := by
  have bit := addCarry_le_one x y (Nat.zero_le 1) (k + 1)
  exact limb_ofDigits inside (lt_of_le_of_lt bit (by decide))

/-- The carries balance the limbs of a sum. -/
theorem carryAux_balance {out : U256} (sum : toWord x + toWord y = toWord out)
    (inside : k < 4) :
    x.limb k + y.limb k + carryIn (carryAux x y) k =
      (carryAux x y).limb k * 2 ^ 64 + out.limb k := by
  have small : ∀ j < 4, loopLimb (addRounds x y) 0 j < 2 ^ 64 :=
    fun j _ => addLoop_lt x y (Nat.zero_le 1) j
  have total := addLoop_value x y (Nat.zero_le 1)
  have numbers := congrArg BitVec.toNat sum
  rw [BitVec.toNat_add, toNat_toWord, toNat_toWord, toNat_toWord] at numbers
  have below := Digits.value_lt small
  have digits : ofDigits (loopLimb (addRounds x y) 0) = out := by
    apply ext_value
    rw [value_ofDigits small]
    omega
  have limb : loopLimb (addRounds x y) 0 k = out.limb k := by
    rw [← digits, limb_ofDigits inside (small k inside)]
  have entering : carryIn (carryAux x y) k = loopCarry (addRounds x y) 0 k := by
    cases k with
    | zero => rfl
    | succ k => exact limb_carryAux (Nat.lt_of_succ_lt inside)
  rw [entering, limb_carryAux inside, ← limb, addLoop_balance x y (Nat.zero_le 1), Nat.add_comm]

theorem carryAux_le_one (inside : k < 4) : (carryAux x y).limb k ≤ 1 := by
  rw [limb_carryAux inside]
  exact addCarry_le_one x y (Nat.zero_le 1) (k + 1)

theorem limb_borrow (inside : k < 4) :
    (lessAux x y).1.limb k = loopCarry (subRounds x y) 0 (k + 1) := by
  have bit := subBorrow_le_one x y (Nat.zero_le 1) (k + 1)
  exact limb_ofDigits inside (lt_of_le_of_lt bit (by decide))

theorem borrow_le_one (inside : k < 4) : (lessAux x y).1.limb k ≤ 1 := by
  rw [limb_borrow inside]
  exact subBorrow_le_one x y (Nat.zero_le 1) (k + 1)

/-- The borrows balance the limbs of a difference. -/
theorem lessAux_balance (inside : k < 4) :
    x.limb k + (lessAux x y).1.limb k * 2 ^ 64 =
      (lessAux x y).2.limb k + y.limb k + carryIn (lessAux x y).1 k := by
  have entering : carryIn (lessAux x y).1 k = loopCarry (subRounds x y) 0 k := by
    cases k with
    | zero => rfl
    | succ k => exact limb_borrow (Nat.lt_of_succ_lt inside)
  have diff : (lessAux x y).2.limb k = loopLimb (subRounds x y) 0 k :=
    limb_ofDigits inside (subLoop_lt x y (Nat.zero_le 1) k)
  rw [entering, diff, limb_borrow inside, subLoop_balance x y (Nat.zero_le 1)]

/-- The last borrow is the comparison. -/
theorem lastBorrow : (lessAux x y).1.limb 3 = if x.value < y.value then 1 else 0 := by
  rw [limb_borrow (by decide), subBorrow_eq]

end Sums

/-- The limbs of a truth value. -/
theorem limb_bit (condition : Bool) {k : ℕ} (inside : k < 4) :
    (ofWord (Semantics.bit condition)).limb k = if k = 0 then condition.toNat else 0 := by
  rw [limb_ofWord _ inside]
  cases condition with
  | false =>
      show 0 / (2 ^ 64) ^ k % 2 ^ 64 = _
      rw [Nat.zero_div, Nat.zero_mod]
      simp
  | true =>
      show 1 / (2 ^ 64) ^ k % 2 ^ 64 = _
      cases k with
      | zero => rfl
      | succ k =>
          have large : 1 < (2 ^ 64) ^ (k + 1) := Nat.one_lt_pow (Nat.succ_ne_zero k) (by decide)
          rw [Nat.div_eq_of_lt large, Nat.zero_mod, if_neg (Nat.succ_ne_zero k)]

/-! Bitwise operations act on the limbs. -/

section Bitwise

variable {a b : U256} {k : ℕ} (inside : k < 4)
include inside

theorem limb_and : (ofWord (toWord a &&& toWord b)).limb k = a.limb k &&& b.limb k := by
  rw [limb_ofWord _ inside, BitVec.toNat_and, toNat_toWord, toNat_toWord,
    limb_eq_value a inside, limb_eq_value b inside, ← pow_mul, Nat.and_div_two_pow,
    Nat.and_mod_two_pow]

theorem limb_or : (ofWord (toWord a ||| toWord b)).limb k = a.limb k ||| b.limb k := by
  rw [limb_ofWord _ inside, BitVec.toNat_or, toNat_toWord, toNat_toWord,
    limb_eq_value a inside, limb_eq_value b inside, ← pow_mul, Nat.or_div_two_pow,
    Nat.or_mod_two_pow]

theorem limb_xor : (ofWord (toWord a ^^^ toWord b)).limb k = a.limb k ^^^ b.limb k := by
  rw [limb_ofWord _ inside, BitVec.toNat_xor, toNat_toWord, toNat_toWord,
    limb_eq_value a inside, limb_eq_value b inside, ← pow_mul, Nat.xor_div_two_pow,
    Nat.xor_mod_two_pow]

theorem limb_not : (ofWord (~~~ toWord a)).limb k + a.limb k = 2 ^ 64 - 1 := by
  have small : ∀ j < 4, 2 ^ 64 - 1 - a.limb j < 2 ^ 64 := fun j _ => by omega
  have total : Digits.value (2 ^ 64) 4 (fun j => 2 ^ 64 - 1 - a.limb j) + a.value = 2 ^ 256 - 1 := by
    have low := fun j => a.limb_lt j
    have low0 := low 0
    have low1 := low 1
    have low2 := low 2
    have low3 := low 3
    simp only [Limbs.value, Digits.value, Finset.sum_range_succ, Finset.sum_range_zero]
    omega
  have digits : ofDigits (fun j => 2 ^ 64 - 1 - a.limb j) = ofWord (~~~ toWord a) := by
    apply ext_value
    rw [value_ofDigits small, value_ofWord, BitVec.toNat_not, toNat_toWord]
    omega
  have low := a.limb_lt k
  rw [← digits, limb_ofDigits inside (small k inside)]
  omega

end Bitwise

/-! Shifts multiply by a power of two. -/

section Shifts

theorem limb_powerOfTwo {shift k : ℕ} (inside : k < 4) :
    (powerOfTwoLimbs shift).limb k =
      if shift < 256 ∧ k = shift / 64 then 2 ^ (shift % 64) else 0 := by
  have limb := limb_fin (powerOfTwoLimbs shift) ⟨k, inside⟩
  rw [limb, powerOfTwoLimbs]
  by_cases small : shift < 256
  · rw [if_neg (Nat.not_le.2 small)]
    by_cases here : k = shift / 64
    · have power : 2 ^ (shift % 64) < 2 ^ 64 :=
        Nat.pow_lt_pow_right (by decide) (Nat.mod_lt _ (by decide))
      rw [if_pos here, if_pos ⟨small, here⟩, BitVec.toNat_shiftLeft, Nat.shiftLeft_eq]
      exact (congrArg (· % 2 ^ 64) (Nat.one_mul _)).trans (Nat.mod_eq_of_lt power)
    · rw [if_neg here, if_neg fun both => here both.2]
      rfl
  · rw [if_pos (Nat.not_lt.1 small), if_neg fun both => small both.1]
    rfl

theorem value_powerOfTwo (shift : ℕ) :
    (powerOfTwoLimbs shift).value = if shift < 256 then 2 ^ shift else 0 := by
  have digits : (powerOfTwoLimbs shift).value = Digits.value (2 ^ 64) 4 fun k =>
      if shift < 256 ∧ k = shift / 64 then 2 ^ (shift % 64) else 0 :=
    Digits.value_congr fun k inside => limb_powerOfTwo inside
  rw [digits, Digits.value]
  by_cases small : shift < 256
  · have place : shift / 64 ∈ Finset.range 4 := Finset.mem_range.2 (by omega)
    rw [Finset.sum_eq_single_of_mem _ place fun k _ other => by
      rw [if_neg fun both => other both.2, Nat.zero_mul]]
    rw [if_pos ⟨small, rfl⟩, if_pos small, ← pow_mul, ← pow_add, Nat.mod_add_div]
  · rw [if_neg small]
    refine Finset.sum_eq_zero fun k _ => ?_
    rw [if_neg fun both => small both.1, Nat.zero_mul]

theorem shiftAmountU256_eq (s : U256) : shiftAmountU256 s = min s.value 256 := by
  have value := value_four s
  have limb0 : s.limb 0 = (s 0).toNat := limb_fin s 0
  rw [shiftAmountU256, limb0]
  have zero : ∀ k, s k ≠ 0 ↔ (s k).toNat ≠ 0 := fun k =>
    not_congr ⟨fun isZero => by rw [isZero]; rfl, fun isZero => BitVec.eq_of_toNat_eq isZero⟩
  simp only [zero]
  split
  · omega
  · omega

/-- Each column of a product with a power of two holds one product. -/
theorem convolution_powerOfTwo_le (v : U256) (shift k : ℕ) (inside : k < 4) :
    convolution v.limb (powerOfTwoLimbs shift).limb k ≤ (2 ^ 64 - 1) * 2 ^ 63 := by
  have terms : ∀ i ∈ Finset.range (k + 1),
      v.limb i * (powerOfTwoLimbs shift).limb (k - i) ≤
        (2 ^ 64 - 1) * if i = k - shift / 64 then 2 ^ 63 else 0 := by
    intro i member
    have below := Nat.lt_succ_iff.1 (Finset.mem_range.1 member)
    have limb := @limb_powerOfTwo shift (k - i) (by omega)
    have low := v.limb_lt i
    refine Nat.mul_le_mul (by omega) ?_
    rw [limb]
    split
    · rename_i both
      have power : 2 ^ (shift % 64) ≤ 2 ^ 63 :=
        Nat.pow_le_pow_right (by decide) (by omega)
      rw [if_pos (by omega)]
      exact power
    · exact Nat.zero_le _
  rw [convolution]
  refine (Finset.sum_le_sum terms).trans ?_
  rw [← Finset.mul_sum]
  refine Nat.mul_le_mul_left _ ?_
  rw [Finset.sum_ite_eq']
  split
  · exact le_rfl
  · exact Nat.zero_le _

theorem shiftColumns_fit (v s : U256) {r : ℕ → List ℕ} (small : ∀ k < 4, (r k).sum < 2 ^ 64) :
    ColumnsFit (chainColumn v (shiftPowerOfTwo s) r) 4 := by
  refine columnsFit_of_room fun k inside => ?_
  have product := convolution_powerOfTwo_le v (shiftAmountU256 s) k inside
  have rest := small k inside
  rw [chainColumn, shiftPowerOfTwo]
  omega

/-- SHL multiplies by the power of two. -/
theorem shl_eq_mul (s v : U256) :
    Semantics.shl (toWord s) (toWord v) = toWord v * toWord (shiftPowerOfTwo s) := by
  apply BitVec.eq_of_toNat_eq
  rw [BitVec.toNat_mul, toNat_toWord, toNat_toWord, shiftPowerOfTwo, value_powerOfTwo,
    shiftAmountU256_eq, Semantics.shl, toNat_toWord]
  by_cases small : s.value < 256
  · rw [if_neg (Nat.not_le.2 small), if_pos (by omega), Nat.min_eq_left (by omega),
      BitVec.toNat_shiftLeft, toNat_toWord, Nat.shiftLeft_eq]
  · rw [if_pos (Nat.not_lt.1 small), if_neg (by omega), Nat.mul_zero, Nat.zero_mod]
    decide

theorem shrAux_eq (input0 input1 output : U256) :
    shrAux input0 input1 output = divAux input1 (shiftPowerOfTwo input0) output := by
  simp only [shrAux, divAux, computeRemainder, bind_assoc, pure_bind]

end Shifts

end MetaVm.Evm
