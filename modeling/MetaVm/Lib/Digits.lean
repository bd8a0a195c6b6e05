import MetaVm.Lib.Numerals

namespace MetaVm.Digits

/-! Sums of digits. -/

/-- The number that the first digits stand for. -/
def value (base count : ℕ) (digit : ℕ → ℕ) : ℕ :=
  ∑ k ∈ Finset.range count, digit k * base ^ k

variable {base count : ℕ} {digit other : ℕ → ℕ}

theorem value_succ (base count : ℕ) (digit : ℕ → ℕ) :
    value base (count + 1) digit = value base count digit + digit count * base ^ count :=
  Finset.sum_range_succ _ _

theorem value_congr (same : ∀ k < count, digit k = other k) :
    value base count digit = value base count other :=
  Finset.sum_congr rfl fun k member => by rw [same k (Finset.mem_range.1 member)]

theorem value_lt (small : ∀ k < count, digit k < base) :
    value base count digit < base ^ count := by
  induction count with
  | zero => simp [value]
  | succ count hypothesis =>
      have below := hypothesis fun k less => small k (Nat.lt_succ_of_lt less)
      have top := small count (Nat.lt_succ_self count)
      rw [value_succ, pow_succ]
      calc value base count digit + digit count * base ^ count
          < base ^ count + digit count * base ^ count := Nat.add_lt_add_right below _
        _ = (digit count + 1) * base ^ count := by ring
        _ ≤ base * base ^ count := Nat.mul_le_mul_right _ top
        _ = base ^ count * base := Nat.mul_comm _ _

/-- The digits of a number stand for its remainder. -/
theorem value_digits (base count number : ℕ) :
    value base count (fun k => number / base ^ k % base) = number % base ^ count := by
  induction count with
  | zero => simp [value, Nat.mod_one]
  | succ count hypothesis =>
      rw [value_succ, hypothesis, Nat.mod_pow_succ, Nat.mul_comm (base ^ count)]

theorem value_digits_of_lt {number : ℕ} (small : number < base ^ count) :
    value base count (fun k => number / base ^ k % base) = number := by
  rw [value_digits, Nat.mod_eq_of_lt small]

theorem value_update {position : ℕ} (inside : position < count) (new : ℕ) :
    value base count (Function.update digit position new) + digit position * base ^ position =
      value base count digit + new * base ^ position := by
  induction count with
  | zero => exact absurd inside (Nat.not_lt_zero _)
  | succ count hypothesis =>
      rw [value_succ, value_succ]
      rcases Nat.lt_succ_iff_lt_or_eq.1 inside with below | rfl
      · rw [Function.update_of_ne (Nat.ne_of_gt below)]
        linear_combination hypothesis below
      · have same : value base position (Function.update digit position new) =
            value base position digit :=
          value_congr fun k less => Function.update_of_ne (Nat.ne_of_lt less) _ _
        rw [same, Function.update_self]
        ring

theorem value_of_zeros (zeros : ∀ k, count ≤ k → digit k = 0) (more : ℕ) :
    value base (count + more) digit = value base count digit := by
  induction more with
  | zero => rfl
  | succ more hypothesis =>
      rw [← Nat.add_assoc, value_succ, hypothesis, zeros _ (Nat.le_add_right _ _),
        Nat.zero_mul, Nat.add_zero]

/-- Zeros below the digits multiply the number. -/
theorem value_shift (base shift count : ℕ) (digit : ℕ → ℕ) :
    value base (shift + count) (fun k => if k < shift then 0 else digit (k - shift)) =
      value base count digit * base ^ shift := by
  induction count with
  | zero =>
      rw [Nat.add_zero, value, value, Finset.sum_range_zero, Nat.zero_mul]
      refine Finset.sum_eq_zero fun k member => ?_
      rw [if_pos (Finset.mem_range.1 member), Nat.zero_mul]
  | succ count hypothesis =>
      rw [← Nat.add_assoc, value_succ, value_succ, hypothesis, if_neg (by omega),
        Nat.add_sub_cancel_left, pow_add]
      ring

/-- The first digits of a number stand for its remainder. -/
theorem value_mod_pow {first : ℕ} (few : first ≤ count)
    (small : ∀ k < first, digit k < base) :
    value base count digit % base ^ first = value base first digit := by
  induction count, few using Nat.le_induction with
  | base => exact Nat.mod_eq_of_lt (value_lt small)
  | succ count few hypothesis =>
      obtain ⟨gap, rfl⟩ := Nat.exists_eq_add_of_le few
      rw [value_succ, pow_add, ← Nat.mul_assoc, Nat.mul_right_comm,
        Nat.add_mul_mod_self_right, hypothesis]

/-- Digits can be read back. -/
theorem digit_value (small : ∀ k < count, digit k < base) {position : ℕ}
    (inside : position < count) :
    value base count digit / base ^ position % base = digit position := by
  induction count with
  | zero => exact absurd inside (Nat.not_lt_zero _)
  | succ count hypothesis =>
      have positive : 0 < base ^ position :=
        Nat.pow_pos (Nat.zero_lt_of_lt (small position inside))
      rw [value_succ]
      rcases Nat.lt_succ_iff_lt_or_eq.1 inside with below | rfl
      · obtain ⟨gap, rfl⟩ := Nat.exists_eq_add_of_lt below
        have shifted : digit (position + gap + 1) * base ^ (position + gap + 1) =
            base ^ position * (digit (position + gap + 1) * base ^ gap * base) := by
          ring
        rw [shifted, Nat.add_mul_div_left _ _ positive, Nat.add_mul_mod_self_right]
        exact hypothesis (fun k less => small k (Nat.lt_succ_of_lt less)) below
      · have below := value_lt fun k less => small k (Nat.lt_succ_of_lt less)
        rw [Nat.add_mul_div_right _ _ positive, Nat.div_eq_of_lt below, Nat.zero_add,
          Nat.mod_eq_of_lt (small position inside)]

/-- Conjunction works digit by digit. -/
theorem value_and (width count first second : ℕ) :
    value (2 ^ width) count (fun k =>
      (first / (2 ^ width) ^ k % 2 ^ width) &&& (second / (2 ^ width) ^ k % 2 ^ width)) =
        (first &&& second) % (2 ^ width) ^ count := by
  rw [← value_digits]
  apply value_congr
  intro k _
  rw [← pow_mul, ← Nat.and_mod_two_pow, ← Nat.and_div_two_pow]

/-- Conjunctions of digits are the digits of the conjunction. -/
theorem value_and_value {width : ℕ} (small : ∀ k < count, digit k < 2 ^ width)
    (otherSmall : ∀ k < count, other k < 2 ^ width) :
    value (2 ^ width) count (fun k => digit k &&& other k) =
      value (2 ^ width) count digit &&& value (2 ^ width) count other := by
  have reduced := value_and width count (value (2 ^ width) count digit)
    (value (2 ^ width) count other)
  have bounded : value (2 ^ width) count digit &&& value (2 ^ width) count other <
      (2 ^ width) ^ count := lt_of_le_of_lt Nat.and_le_left (value_lt small)
  rw [Nat.mod_eq_of_lt bounded] at reduced
  rw [← reduced]
  apply value_congr
  intro k inside
  rw [digit_value small inside, digit_value otherSmall inside]

end MetaVm.Digits
