import MetaVm.Lib.Numerals

namespace MetaVm.SmallInt

/-! Integers smaller than a modulus are determined by their residue. -/

theorem intCast_eq_zero_iff {modulus : ℕ} {value : ℤ} (small : |value| < modulus) :
    ((value : ℤ) : ZMod modulus) = 0 ↔ value = 0 := by
  rw [ZMod.intCast_zmod_eq_zero_iff_dvd]
  constructor
  · intro divides
    exact Int.eq_zero_of_abs_lt_dvd divides small
  · rintro rfl
    exact dvd_zero _

/-! Sizes of sums and products, in bits. -/

def Within (bits : ℕ) (value : ℤ) : Prop := |value| < 2 ^ bits

namespace Within

variable {m n : ℕ} {x y : ℤ}

theorem ofNat {value bits : ℕ} (small : value < 2 ^ bits) : Within bits value := by
  rw [Within, Nat.abs_cast]
  exact_mod_cast small

theorem mono (small : Within m x) (wide : m ≤ n) : Within n x :=
  lt_of_lt_of_le small (pow_le_pow_right₀ one_le_two wide)

theorem add (left : Within m x) (right : Within n y) : Within (max m n + 1) (x + y) := by
  have first := left.mono (le_max_left m n)
  have second := right.mono (le_max_right m n)
  rw [Within, pow_succ, mul_two]
  exact lt_of_le_of_lt (abs_add_le x y) (add_lt_add first second)

theorem neg (small : Within m x) : Within m (-x) := by
  rwa [Within, abs_neg]

theorem sub (left : Within m x) (right : Within n y) : Within (max m n + 1) (x - y) := by
  rw [sub_eq_add_neg]
  exact left.add right.neg

theorem mul (left : Within m x) (right : Within n y) : Within (m + n) (x * y) := by
  rw [Within, abs_mul, pow_add]
  exact mul_lt_mul'' left right (abs_nonneg x) (abs_nonneg y)

/-- An integer below the modulus is zero exactly when its residue is. -/
theorem cast_eq_zero_iff {modulus : ℕ} (small : Within m x) (large : 2 ^ m ≤ modulus) :
    ((x : ℤ) : ZMod modulus) = 0 ↔ x = 0 := by
  refine intCast_eq_zero_iff (lt_of_lt_of_le small ?_)
  exact_mod_cast large

end Within

end MetaVm.SmallInt

namespace MetaVm.Words

/-! Identities between the values of machine words. -/

theorem or_add_and (a b : ℕ) : (a ||| b) + (a &&& b) = a + b := by
  induction a using Nat.strong_induction_on generalizing b with
  | _ a hypothesis =>
      by_cases zero : a = 0
      · subst zero
        simp
      · have halves := hypothesis (a / 2) (by omega) (b / 2)
        have orDiv : (a ||| b) / 2 = a / 2 ||| b / 2 := Nat.or_div_two
        have andDiv : (a &&& b) / 2 = a / 2 &&& b / 2 := Nat.and_div_two
        have orMod := @Nat.or_mod_two_eq_one a b
        have andMod := @Nat.and_mod_two_eq_one a b
        omega

theorem xor_add_and_mul_two (a b : ℕ) : (a ^^^ b) + (a &&& b) * 2 = a + b := by
  induction a using Nat.strong_induction_on generalizing b with
  | _ a hypothesis =>
      by_cases zero : a = 0
      · subst zero
        simp
      · have halves := hypothesis (a / 2) (by omega) (b / 2)
        have xorDiv : (a ^^^ b) / 2 = a / 2 ^^^ b / 2 := Nat.xor_div_two
        have andDiv : (a &&& b) / 2 = a / 2 &&& b / 2 := Nat.and_div_two
        have xorMod := @Nat.xor_mod_two_eq_one a b
        have andMod := @Nat.and_mod_two_eq_one a b
        omega

variable {width : ℕ}

/-- A mask splits a word into two parts. -/
theorem and_not_add_and (x mask : BitVec width) :
    (x &&& ~~~mask).toNat + (x &&& mask).toNat = x.toNat := by
  have disjoint : (x &&& ~~~mask) &&& (x &&& mask) = (0 : BitVec width) := by
    ext index
    cases xBit : x[index] <;> cases maskBit : mask[index] <;> simp [xBit, maskBit]
  have joined : (x &&& ~~~mask) ||| (x &&& mask) = x := by
    ext index
    cases xBit : x[index] <;> cases maskBit : mask[index] <;> simp [xBit, maskBit]
  have split := or_add_and (x &&& ~~~mask).toNat (x &&& mask).toNat
  rw [← BitVec.toNat_or, ← BitVec.toNat_and, disjoint, joined] at split
  simpa using split.symm

/-- The signed value of a word subtracts its modulus when the sign is set. -/
theorem toInt_eq_sub_msb (x : BitVec width) :
    x.toInt = x.toNat - x.msb.toNat * 2 ^ width := by
  rw [BitVec.toInt_eq_msb_cond]
  cases x.msb <;> simp

/-- An arithmetic shift to the right loses the low bits and fills in signs. -/
theorem toNat_sshiftRight_mul (x : BitVec width) {amount : ℕ}
    (short : amount ≤ width) :
    ((x.sshiftRight amount).toNat : ℤ) * 2 ^ amount + (x.toNat % 2 ^ amount : ℕ) =
      x.toNat + x.msb.toNat * (2 ^ amount - 1) * 2 ^ width := by
  have shifted := BitVec.toInt_sshiftRight (x := x) (n := amount)
  rw [toInt_eq_sub_msb, toInt_eq_sub_msb, BitVec.msb_sshiftRight,
    Int.shiftRight_eq_div_pow] at shifted
  have modulus : (2 : ℤ) ^ width = 2 ^ (width - amount) * 2 ^ amount := by
    rw [← pow_add, Nat.sub_add_cancel short]
  have remainder : ((x.toNat : ℤ) - x.msb.toNat * 2 ^ width) % 2 ^ amount =
      (x.toNat % 2 ^ amount : ℕ) := by
    rw [modulus, ← mul_assoc, Int.sub_mul_emod_self_right]
    push_cast
    rfl
  have split := Int.emod_add_ediv_mul ((x.toNat : ℤ) - x.msb.toNat * 2 ^ width)
    (2 ^ amount)
  rw [remainder] at split
  push_cast at shifted
  rw [← shifted] at split
  linear_combination split

theorem toNat_signExtend {wide : ℕ} (x : BitVec width) (longer : width ≤ wide) :
    (x.signExtend wide).toNat = x.toNat + x.msb.toNat * (2 ^ wide - 2 ^ width) := by
  have small : 2 ^ width ≤ 2 ^ wide := Nat.pow_le_pow_right (by omega) longer
  rw [BitVec.toNat_signExtend, BitVec.toNat_setWidth,
    Nat.mod_eq_of_lt (lt_of_lt_of_le x.isLt small)]
  cases x.msb <;> simp

/-- A signed comparison is decided by the signs unless they agree. -/
theorem slt_eq_signs (x y : BitVec width) :
    (x.slt y).toNat = x.msb.toNat * (1 - y.msb.toNat) +
      (1 - x.msb.toNat - y.msb.toNat + 2 * (x.msb.toNat * y.msb.toNat)) *
        ((decide (x.toNat < y.toNat)).toNat : ℤ) := by
  have xLt := x.isLt
  have yLt := y.isLt
  have xSigned := toInt_eq_sub_msb x
  have ySigned := toInt_eq_sub_msb y
  have modulus : ((2 ^ width : ℕ) : ℤ) = 2 ^ width := Nat.cast_pow 2 width
  rw [BitVec.slt_eq_decide]
  cases xSign : x.msb <;> cases ySign : y.msb <;>
    simp only [xSign, ySign, Bool.toNat_true, Bool.toNat_false] at xSigned ySigned ⊢
  · have same : x.toInt < y.toInt ↔ x.toNat < y.toNat := by omega
    simp [same]
  · rw [BitVec.msb_eq_false_iff_two_mul_lt] at xSign
    have less : ¬ x.toInt < y.toInt := by omega
    simp [less]
  · rw [BitVec.msb_eq_false_iff_two_mul_lt] at ySign
    have less : x.toInt < y.toInt := by omega
    simp [less]
  · have same : x.toInt < y.toInt ↔ x.toNat < y.toNat := by omega
    simp [same]

/-! Decompositions of a dividend into multiples of the divisor and a rest. -/

section Quotients

variable {a b quotient remainder value : BitVec width}

theorem quotient_eq_zero (less : a < b)
    (split : quotient.toNat * b.toNat + remainder.toNat = a.toNat) :
    quotient = 0 := by
  have lessNat : a.toNat < b.toNat := less
  by_contra nonzero
  have positive : 0 < quotient.toNat :=
    Nat.pos_of_ne_zero fun zero => nonzero (BitVec.eq_of_toNat_eq (by simpa using zero))
  have large : b.toNat ≤ quotient.toNat * b.toNat :=
    Nat.le_mul_of_pos_left _ positive
  omega

theorem remainder_eq (determined : b = 0 ∨ a < b)
    (split : quotient.toNat * b.toNat + remainder.toNat = a.toNat) :
    remainder = a := by
  apply BitVec.eq_of_toNat_eq
  rcases determined with rfl | less
  · simpa using split
  · rw [quotient_eq_zero less split] at split
    simpa using split

/-! The two decompositions of a dividend that is at least the divisor. -/

theorem split_zero : (0 : BitVec width).toNat * b.toNat + a.toNat = a.toNat := by simp

theorem split_one (positive : 0 < width) (atLeast : b ≤ a) :
    (1 : BitVec width).toNat * b.toNat + (a - b).toNat = a.toNat := by
  have atLeastNat : b.toNat ≤ a.toNat := atLeast
  have one : (1 : BitVec width).toNat = 1 := by simp [positive]
  rw [BitVec.toNat_sub_of_le atLeast, one]
  omega

theorem quotient_unique_iff (positive : 0 < width) :
    (∀ quotient remainder : BitVec width,
      quotient.toNat * b.toNat + remainder.toNat = a.toNat → quotient = value) ↔
      a < b ∧ value = 0 := by
  constructor
  · intro unique
    have zero : 0 = value := unique 0 a split_zero
    refine ⟨?_, zero.symm⟩
    by_contra atLeast
    have one : 1 = value :=
      unique 1 (a - b) (split_one positive (BitVec.not_lt.1 atLeast))
    have equal := congrArg BitVec.toNat (zero.trans one.symm)
    simp [positive] at equal
  · rintro ⟨less, rfl⟩ quotient remainder split
    exact quotient_eq_zero less split

theorem remainder_unique_iff (positive : 0 < width) :
    (∀ quotient remainder : BitVec width,
      quotient.toNat * b.toNat + remainder.toNat = a.toNat → remainder = value) ↔
      (b = 0 ∨ a < b) ∧ value = a := by
  constructor
  · intro unique
    have whole : a = value := unique 0 a split_zero
    refine ⟨?_, whole.symm⟩
    by_contra open'
    obtain ⟨nonzero, atLeast⟩ := not_or.1 open'
    have less : a - b = value :=
      unique 1 (a - b) (split_one positive (BitVec.not_lt.1 atLeast))
    exact nonzero (sub_eq_self.1 (less.trans whole.symm))
  · rintro ⟨determined, rfl⟩ quotient remainder split
    exact remainder_eq determined split

theorem ne_zero_of_lt (less : a < b) : b ≠ 0 := by
  rintro rfl
  exact absurd less BitVec.not_lt_zero

end Quotients

end MetaVm.Words
