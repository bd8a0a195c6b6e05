import MetaVm.Lib.Words
import MetaVm.Zkp.Field

namespace MetaVm.Zkp

/-! Solutions of the equations of conditional jumps, away from any given value.
`notTaken` and `taken` are the two targets as the field adds them. -/

section Solutions

variable (notTaken taken goal : Fr)

/-- An unsigned or signed comparison bit is free, and with it one of two
neighbours. -/
theorem exists_free_bit : ∃ next bit : Fr, next ≠ goal ∧
    ((next = notTaken ∧ bit = 0) ∨ (next = notTaken - 1 ∧ bit = 1)) := by
  by_cases same : notTaken = goal
  · refine ⟨notTaken - 1, 1, ?_, .inr ⟨rfl, rfl⟩⟩
    rw [same]
    exact fun equal => one_ne_zero (sub_eq_self.1 equal)
  · exact ⟨notTaken, 0, same, .inl ⟨rfl, rfl⟩⟩

/-- A square root of minus one. -/
def imaginary : Fr := Nat.cast
  3465144826073652318776269530687742778270252468765361963008

theorem imaginary_mul : imaginary * imaginary = -1 := by decide

theorem imaginary_ne_zero : imaginary ≠ 0 := by decide

theorem two_ne_zero_Fr : (2 : Fr) ≠ 0 := by decide

/-- The equality check: with `aux1 = 1` two values pass, and when they coincide
a value between the two settings of `aux1` does. -/
theorem exists_equality_solution (difference : Fr) : ∃ next aux1 : Fr,
    next ≠ goal ∧
      (next - taken) * (next - notTaken) + (next - notTaken) * aux1 +
        (next - taken) * (1 - aux1) + (1 - aux1) * difference +
        aux1 * (aux1 - 1) = 0 := by
  by_cases first : notTaken = goal
  · by_cases second : taken - 1 = goal
    · have coincide : taken = notTaken + 1 := by
        rw [first, ← second]
        ring
      by_cases two : difference = 1 + 1
      · refine ⟨notTaken + imaginary, 0, ?_, ?_⟩
        · rw [first]
          exact fun equal => imaginary_ne_zero (add_eq_left.1 equal)
        · rw [coincide, two]
          linear_combination imaginary_mul
      · have half := two_ne_zero_Fr
        refine ⟨notTaken + (2 - difference) / 2, 1 - (2 - difference) / 2, ?_, ?_⟩
        · rw [first]
          intro equal
          have zero := add_eq_left.1 equal
          rw [div_eq_zero_iff, or_iff_left half, sub_eq_zero] at zero
          exact two (by rw [← zero]; norm_num)
        · rw [coincide]
          field_simp
          ring
    · refine ⟨taken - 1, 1, second, ?_⟩
      ring
  · refine ⟨notTaken, 1, first, ?_⟩
    ring

/-- Where only the targets are checked the other target passes, and half a unit
beyond the two when they coincide. -/
theorem exists_target_solution : ∃ next aux1 : Fr,
    next ≠ goal ∧
      (next - taken) * (next - notTaken) + aux1 * (aux1 - 1) = 0 := by
  by_cases first : notTaken = goal
  · by_cases second : taken = goal
    · have half := two_ne_zero_Fr
      refine ⟨goal + 1 / 2, 1 / 2, ?_, ?_⟩
      · intro equal
        have zero := add_eq_left.1 equal
        rw [div_eq_zero_iff, or_iff_left half] at zero
        exact one_ne_zero zero
      · rw [first, second]
        field_simp
        ring
    · refine ⟨taken, 0, second, ?_⟩
      ring
  · refine ⟨notTaken, 0, first, ?_⟩
    ring

end Solutions

end MetaVm.Zkp

namespace MetaVm.Zkp

open SmallInt

/-! Machine words as elements of a field that is larger than every product of
three words. -/

section Words

variable {order : ℕ} [large : Fact (2 ^ 254 < order)]

/-- An integer below every product of three words is zero when its residue
is. -/
theorem eq_zero_of_cast_eq_zero {value : ℤ} (small : |value| < 2 ^ 254)
    (zero : ((value : ℤ) : ZMod order) = 0) : value = 0 := by
  have bound : (2 : ℤ) ^ 254 < order := by exact_mod_cast large.out
  exact (intCast_eq_zero_iff (lt_trans small bound)).1 zero

theorem word_mul_lt {a b : ℕ} (aLt : a < 2 ^ 64) (bLt : b < 2 ^ 64) :
    a * b < 2 ^ 128 :=
  calc a * b < 2 ^ 64 * 2 ^ 64 := Nat.mul_lt_mul'' aLt bLt
    _ = 2 ^ 128 := by norm_num

theorem val_fromU64 (word : BitVec 64) :
    (Scalar.fromU64 word : ZMod order).val = word.toNat := by
  have bound : word.toNat < order := lt_trans word.isLt
    (lt_trans (by norm_num) large.out)
  rw [Scalar.fromU64, ZMod.val_natCast_of_lt bound]

theorem val_fromU64_lt (word : BitVec 64) :
    (Scalar.fromU64 word : ZMod order).val < 2 ^ 64 := by
  rw [val_fromU64]
  exact word.isLt

theorem fromU64_injective {a b : BitVec 64}
    (same : (Scalar.fromU64 a : ZMod order) = Scalar.fromU64 b) : a = b := by
  apply BitVec.eq_of_toNat_eq
  rw [← @val_fromU64 order _ a, same, val_fromU64]

theorem toU64_fromU64 (word : BitVec 64) :
    Scalar.toU64 (Scalar.fromU64 word : ZMod order) = word := by
  rw [Scalar.toU64, val_fromU64, BitVec.ofNat_toNat, BitVec.setWidth_eq]

theorem fromU64_toU64 {value : ZMod order} (small : value.val < 2 ^ 64) :
    Scalar.fromU64 (Scalar.toU64 value) = value := by
  have : NeZero order := ⟨by have := large.out; omega⟩
  rw [Scalar.fromU64, Scalar.toU64, BitVec.toNat_ofNat, Nat.mod_eq_of_lt small,
    ZMod.natCast_zmod_val]

end Words

/-! Equations between words in the field, each of which leaves one value for a
word. -/

section Equations

variable {order : ℕ} [Fact order.Prime] [large : Fact (2 ^ 254 < order)]

omit large in
theorem val_binary {value : ZMod order} (binary : value * (value - 1) = 0) :
    value.val = 0 ∨ value.val = 1 := by
  rcases mul_eq_zero.1 binary with zero | one
  · exact .inl (by simp [zero])
  · refine .inr ?_
    rw [sub_eq_zero.1 one]
    exact ZMod.val_one order

/-- A quotient and a remainder in range divide over the integers. -/
theorem division_words {quotient remainder : ZMod order} {a b : BitVec 64}
    (quotientLt : quotient.val < 2 ^ 64) (remainderLt : remainder.val < 2 ^ 64)
    (zero : quotient * Scalar.fromU64 b + remainder - Scalar.fromU64 a = 0) :
    (Scalar.toU64 quotient).toNat * b.toNat + (Scalar.toU64 remainder).toNat =
      a.toNat := by
  have product := word_mul_lt quotientLt b.isLt
  have aLt := a.isLt
  have cast : ((((quotient.val * b.toNat : ℕ) : ℤ) + remainder.val - a.toNat : ℤ) :
      ZMod order) = 0 := by
    push_cast
    simpa only [ZMod.natCast_zmod_val, Scalar.fromU64] using zero
  have exactly := eq_zero_of_cast_eq_zero (by rw [abs_lt]; omega) cast
  simp only [Scalar.toU64, BitVec.toNat_ofNat, Nat.mod_eq_of_lt quotientLt,
    Nat.mod_eq_of_lt remainderLt]
  omega

variable {a b c d : ZMod order} (aLt : a.val < 2 ^ 64) (bLt : b.val < 2 ^ 64)
  (dLt : d.val < 2 ^ 64)
include aLt bLt dLt

theorem add_unique (binary : c * (c - 1) = 0) (zero : a + b - (c * 2 ^ 64 + d) = 0) :
    d.val = (Scalar.toU64 a + Scalar.toU64 b).toNat := by
  have cast : (((a.val : ℤ) + b.val - (c.val * 2 ^ 64 + d.val) : ℤ) :
      ZMod order) = 0 := by
    push_cast [ZMod.natCast_zmod_val]
    linear_combination zero
  have carry := val_binary binary
  have exactly := eq_zero_of_cast_eq_zero (by rw [abs_lt]; omega) cast
  simp only [Scalar.toU64, BitVec.toNat_add, BitVec.toNat_ofNat]
  omega

theorem sub_unique (binary : c * (c - 1) = 0) (zero : d + b - (a + c * 2 ^ 64) = 0) :
    d.val = (Scalar.toU64 a - Scalar.toU64 b).toNat := by
  have cast : (((d.val : ℤ) + b.val - (a.val + c.val * 2 ^ 64) : ℤ) :
      ZMod order) = 0 := by
    push_cast [ZMod.natCast_zmod_val]
    linear_combination zero
  have carry := val_binary binary
  have exactly := eq_zero_of_cast_eq_zero (by rw [abs_lt]; omega) cast
  simp only [Scalar.toU64, BitVec.toNat_sub, BitVec.toNat_ofNat]
  omega

theorem product_split (cLt : c.val < 2 ^ 64) (zero : a * b - (c * 2 ^ 64 + d) = 0) :
    a.val * b.val = c.val * 2 ^ 64 + d.val := by
  have product := word_mul_lt aLt bLt
  have cast : ((((a.val * b.val : ℕ) : ℤ) - (c.val * 2 ^ 64 + d.val) : ℤ) :
      ZMod order) = 0 := by
    push_cast [ZMod.natCast_zmod_val]
    linear_combination zero
  have exactly := eq_zero_of_cast_eq_zero (by rw [abs_lt]; omega) cast
  omega

theorem low_unique (cLt : c.val < 2 ^ 64) (zero : a * b - (c * 2 ^ 64 + d) = 0) :
    d.val = (Scalar.toU64 a * Scalar.toU64 b).toNat := by
  have split := product_split aLt bLt dLt cLt zero
  rw [Scalar.toU64, Scalar.toU64, BitVec.toNat_mul, BitVec.toNat_ofNat,
    BitVec.toNat_ofNat, Nat.mod_eq_of_lt aLt, Nat.mod_eq_of_lt bLt, split]
  omega

end Equations

end MetaVm.Zkp
