import MetaVm.Lib.Outcome
import MetaVm.Lib.LimbChain

namespace MetaVm.Evm

open LimbChain

/-! Numbers as 64-bit limbs, the lowest one first. -/

abbrev U64 : Type := BitVec 64

abbrev Limbs (count : ℕ) : Type := Fin count → U64

/-- A 256-bit value as four limbs. -/
abbrev U256 : Type := Limbs 4

namespace Limbs

variable {count : ℕ}

/-- The limb at a position, zero beyond the last one. -/
def limb (x : Limbs count) (k : ℕ) : ℕ :=
  if inside : k < count then (x ⟨k, inside⟩).toNat else 0

def value (x : Limbs count) : ℕ := Digits.value (2 ^ 64) count x.limb

def ofDigits (digit : ℕ → ℕ) : Limbs count := fun k => BitVec.ofNat 64 (digit k)

/-- The limbs of a number, which is cut off at the last one. -/
def ofNat (number : ℕ) : Limbs count := ofDigits fun k => number / (2 ^ 64) ^ k % 2 ^ 64

variable (x y : Limbs count)

theorem limb_lt (k : ℕ) : x.limb k < 2 ^ 64 := by
  rw [limb]
  split
  · exact (x _).isLt
  · decide

theorem limb_fin (k : Fin count) : x.limb k = (x k).toNat := dif_pos k.isLt

theorem limb_of_le {k : ℕ} (outside : count ≤ k) : x.limb k = 0 :=
  dif_neg (Nat.not_lt.2 outside)

theorem value_lt : x.value < (2 ^ 64) ^ count := Digits.value_lt fun k _ => x.limb_lt k

theorem limb_eq_value {k : ℕ} (inside : k < count) :
    x.limb k = x.value / (2 ^ 64) ^ k % 2 ^ 64 :=
  (Digits.digit_value (fun k _ => x.limb_lt k) inside).symm

theorem limb_ofDigits {digit : ℕ → ℕ} {k : ℕ} (inside : k < count)
    (small : digit k < 2 ^ 64) : (ofDigits digit : Limbs count).limb k = digit k := by
  rw [limb, dif_pos inside, ofDigits, BitVec.toNat_ofNat, Nat.mod_eq_of_lt small]

theorem value_ofDigits {digit : ℕ → ℕ} (small : ∀ k < count, digit k < 2 ^ 64) :
    (ofDigits digit : Limbs count).value = Digits.value (2 ^ 64) count digit :=
  Digits.value_congr fun k inside => limb_ofDigits inside (small k inside)

theorem limb_ofNat (number : ℕ) {k : ℕ} (inside : k < count) :
    (ofNat number : Limbs count).limb k = number / (2 ^ 64) ^ k % 2 ^ 64 :=
  limb_ofDigits inside (Nat.mod_lt _ (by decide))

theorem value_ofNat (number : ℕ) :
    (ofNat number : Limbs count).value = number % (2 ^ 64) ^ count := by
  rw [ofNat, value_ofDigits fun k _ => Nat.mod_lt _ (by decide), Digits.value_digits]

@[simp]
theorem limb_zero (k : ℕ) : (0 : Limbs count).limb k = 0 := by
  rw [limb]
  split
  · rfl
  · rfl

variable {x y}

theorem ext_limb (same : ∀ k < count, x.limb k = y.limb k) : x = y := by
  ext1 k
  apply BitVec.eq_of_toNat_eq
  rw [← limb_fin, ← limb_fin]
  exact same k k.isLt

theorem ext_value (same : x.value = y.value) : x = y := by
  apply ext_limb
  intro k inside
  rw [limb_eq_value x inside, limb_eq_value y inside, same]

theorem value_eq_zero_iff : x.value = 0 ↔ x = 0 := by
  have zero : (0 : Limbs count).value = 0 := by simp [value, Digits.value]
  constructor
  · exact fun isZero => ext_value (isZero.trans zero.symm)
  · rintro rfl
    exact zero

end Limbs

open Limbs

/-! Loops over the limbs, with the carry from one round to the next. -/

/-- The carry that enters round `k` of a loop. -/
def loopCarry (round : ℕ → ℕ → ℕ × ℕ) (first : ℕ) : ℕ → ℕ
  | 0 => first
  | k + 1 => (round k (loopCarry round first k)).2

def loopLimb (round : ℕ → ℕ → ℕ × ℕ) (first k : ℕ) : ℕ :=
  (round k (loopCarry round first k)).1

theorem loopCarry_succ (round : ℕ → ℕ → ℕ × ℕ) (first k : ℕ) :
    loopCarry round first (k + 1) = (round k (loopCarry round first k)).2 := rfl

def overflowingAdd (x y : ℕ) : ℕ × ℕ :=
  ((x + y) % 2 ^ 64, (x + y) / 2 ^ 64)

def overflowingSub (x y : ℕ) : ℕ × ℕ :=
  ((x + 2 ^ 64 - y) % 2 ^ 64, if x < y then 1 else 0)

/-- One round of an addition. -/
def addRound (x y carry : ℕ) : ℕ × ℕ :=
  let s1 := overflowingAdd x y
  let s2 := overflowingAdd s1.1 carry
  (s2.1, s1.2 + s2.2)

/-- One round of a subtraction. -/
def subRound (x y borrow : ℕ) : ℕ × ℕ :=
  let d1 := overflowingSub x y
  let d2 := overflowingSub d1.1 borrow
  (d2.1, d1.2 + d2.2)

theorem addRound_balance {x y carry : ℕ} (xLt : x < 2 ^ 64) (yLt : y < 2 ^ 64)
    (bit : carry ≤ 1) :
    x + y + carry = (addRound x y carry).1 + (addRound x y carry).2 * 2 ^ 64 ∧
      (addRound x y carry).1 < 2 ^ 64 ∧ (addRound x y carry).2 ≤ 1 := by
  simp only [addRound, overflowingAdd]
  omega

theorem overflowingSub_balance {x y : ℕ} (xLt : x < 2 ^ 64) (yLt : y < 2 ^ 64) :
    x + (overflowingSub x y).2 * 2 ^ 64 = (overflowingSub x y).1 + y ∧
      (overflowingSub x y).1 < 2 ^ 64 := by
  rw [overflowingSub]
  by_cases less : x < y
  · simp only [if_pos less]
    omega
  · simp only [if_neg less]
    omega

theorem subRound_balance {x y borrow : ℕ} (xLt : x < 2 ^ 64) (yLt : y < 2 ^ 64)
    (bit : borrow ≤ 1) :
    x + (subRound x y borrow).2 * 2 ^ 64 = (subRound x y borrow).1 + y + borrow ∧
      (subRound x y borrow).1 < 2 ^ 64 ∧ (subRound x y borrow).2 ≤ 1 := by
  obtain ⟨outer, outerLt⟩ := overflowingSub_balance xLt yLt
  obtain ⟨inner, innerLt⟩ := overflowingSub_balance outerLt (by omega : borrow < 2 ^ 64)
  simp only [subRound]
  omega

section Loops

variable {count : ℕ} (x y : Limbs count) {first : ℕ} (bit : first ≤ 1)

/-- The rounds of `x + y`. -/
def addRounds (k carry : ℕ) : ℕ × ℕ := addRound (x.limb k) (y.limb k) carry

/-- The rounds of `x - y`. -/
def subRounds (k borrow : ℕ) : ℕ × ℕ := subRound (x.limb k) (y.limb k) borrow

include bit

theorem addCarry_le_one (k : ℕ) : loopCarry (addRounds x y) first k ≤ 1 := by
  induction k with
  | zero => exact bit
  | succ k hypothesis =>
      rw [loopCarry_succ, addRounds]
      exact (addRound_balance (x.limb_lt k) (y.limb_lt k) hypothesis).2.2

theorem subBorrow_le_one (k : ℕ) : loopCarry (subRounds x y) first k ≤ 1 := by
  induction k with
  | zero => exact bit
  | succ k hypothesis =>
      rw [loopCarry_succ, subRounds]
      exact (subRound_balance (x.limb_lt k) (y.limb_lt k) hypothesis).2.2

theorem addLoop_balance (k : ℕ) :
    x.limb k + y.limb k + loopCarry (addRounds x y) first k =
      loopLimb (addRounds x y) first k + loopCarry (addRounds x y) first (k + 1) * 2 ^ 64 := by
  rw [loopCarry_succ, loopLimb, addRounds]
  exact (addRound_balance (x.limb_lt k) (y.limb_lt k) (addCarry_le_one x y bit k)).1

theorem subLoop_balance (k : ℕ) :
    x.limb k + loopCarry (subRounds x y) first (k + 1) * 2 ^ 64 =
      loopLimb (subRounds x y) first k + y.limb k + loopCarry (subRounds x y) first k := by
  rw [loopCarry_succ, loopLimb, subRounds]
  exact (subRound_balance (x.limb_lt k) (y.limb_lt k) (subBorrow_le_one x y bit k)).1

theorem addLoop_lt (k : ℕ) : loopLimb (addRounds x y) first k < 2 ^ 64 := by
  rw [loopLimb, addRounds]
  exact (addRound_balance (x.limb_lt k) (y.limb_lt k) (addCarry_le_one x y bit k)).2.1

theorem subLoop_lt (k : ℕ) : loopLimb (subRounds x y) first k < 2 ^ 64 := by
  rw [loopLimb, subRounds]
  exact (subRound_balance (x.limb_lt k) (y.limb_lt k) (subBorrow_le_one x y bit k)).2.1

theorem addLoop_value :
    x.value + y.value + first =
      Digits.value (2 ^ 64) count (loopLimb (addRounds x y) first) +
        loopCarry (addRounds x y) first count * (2 ^ 64) ^ count :=
  value_balance fun k _ => addLoop_balance x y bit k

theorem subLoop_value :
    Digits.value (2 ^ 64) count (loopLimb (subRounds x y) first) + y.value + first =
      x.value + loopCarry (subRounds x y) first count * (2 ^ 64) ^ count :=
  value_balance fun k _ => (subLoop_balance x y bit k).symm

end Loops

end MetaVm.Evm
