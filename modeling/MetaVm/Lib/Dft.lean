import MetaVm.Lib.Numerals

namespace MetaVm.Dft

open Polynomial Finset

/-! Bit reversal of fixed-width indices, lowest bit first. -/

def bitReverse : ℕ → ℕ → ℕ
  | 0, _ => 0
  | width + 1, index =>
      (index % 2) * 2 ^ width + bitReverse width (index / 2)

@[simp] theorem bitReverse_width_zero (index : ℕ) : bitReverse 0 index = 0 :=
  rfl

@[simp] theorem bitReverse_zero (width : ℕ) : bitReverse width 0 = 0 := by
  induction width with
  | zero => rfl
  | succ width ih => simp [bitReverse, ih]

theorem bitReverse_double (width index : ℕ) :
    bitReverse (width + 1) (2 * index) = bitReverse width index := by
  have low : 2 * index % 2 = 0 := by omega
  have high : 2 * index / 2 = index := by omega
  simp [bitReverse, low, high]

theorem bitReverse_double_succ (width index : ℕ) :
    bitReverse (width + 1) (2 * index + 1) =
      2 ^ width + bitReverse width index := by
  have low : (2 * index + 1) % 2 = 1 := by omega
  have high : (2 * index + 1) / 2 = index := by omega
  simp [bitReverse, low, high]

theorem bitReverse_lt (width index : ℕ) :
    bitReverse width index < 2 ^ width := by
  induction width generalizing index with
  | zero => simp
  | succ width ih =>
      have tail := ih (index / 2)
      have bit : (index % 2) * 2 ^ width ≤ 2 ^ width :=
        (Nat.mul_le_mul_right _ (by omega)).trans_eq (Nat.one_mul _)
      rw [bitReverse, pow_succ]
      omega

/-- The bit below the kept ones becomes the top bit of the reversal. -/
theorem bitReverse_split (width index top : ℕ) (small : index < 2 ^ width) :
    bitReverse (width + 1) (top * 2 ^ width + index) =
      2 * bitReverse width index + top % 2 := by
  induction width generalizing index with
  | zero =>
      have zero : index = 0 := by simpa using small
      simp [bitReverse, zero]
  | succ width ih =>
      have halved : (top * 2 ^ (width + 1) + index) / 2 =
          top * 2 ^ width + index / 2 := by
        rw [pow_succ, ← mul_assoc]
        omega
      have low : (top * 2 ^ (width + 1) + index) % 2 = index % 2 := by
        rw [pow_succ, ← mul_assoc]
        omega
      rw [bitReverse, low, halved, ih (index / 2) (by rw [pow_succ] at small; omega)]
      rw [bitReverse, pow_succ]
      ring

theorem bitReverse_bitReverse (width index : ℕ) (small : index < 2 ^ width) :
    bitReverse width (bitReverse width index) = index := by
  induction width generalizing index with
  | zero =>
      have zero : index = 0 := by simpa using small
      simp [zero]
  | succ width ih =>
      have halved : index / 2 < 2 ^ width := by
        rw [pow_succ] at small
        omega
      have step := bitReverse_split width (bitReverse width (index / 2))
        (index % 2) (bitReverse_lt _ _)
      rw [ih _ halved] at step
      rw [show bitReverse (width + 1) index =
        (index % 2) * 2 ^ width + bitReverse width (index / 2) from rfl, step]
      omega

theorem xor_two_pow {low width : ℕ} (small : low < 2 ^ width) :
    low ^^^ 2 ^ width = 2 ^ width + low := by
  refine Nat.eq_of_testBit_eq fun index => ?_
  rw [Nat.testBit_xor]
  rcases lt_trichotomy index width with below | equal | above
  · rw [Nat.testBit_two_pow_add_gt below]
    simp [Nat.testBit_two_pow_of_ne (Nat.ne_of_gt below)]
  · subst equal
    rw [Nat.testBit_two_pow_add_eq]
    simp
  · have wide : 2 ^ (width + 1) ≤ 2 ^ index := Nat.pow_le_pow_right (by omega) above
    rw [pow_succ] at wide
    rw [Nat.testBit_lt_two_pow (x := low) (by omega),
      Nat.testBit_lt_two_pow (x := 2 ^ width + low) (by omega),
      Nat.testBit_two_pow_of_ne (Nat.ne_of_lt above)]
    rfl

/-! The transform of a sequence against the powers of one element, and the
decimation of its sum into even and odd positions. -/

section Transform

variable {F : Type*} [CommRing F]

def dft (root : F) (size : ℕ) (values : ℕ → F) (index : ℕ) : F :=
  ∑ position ∈ range size, values position * root ^ (index * position)

theorem dft_congr {root : F} {size index : ℕ} {values values' : ℕ → F}
    (agree : ∀ position < size, values position = values' position) :
    dft root size values index = dft root size values' index := by
  refine sum_congr rfl fun position member => ?_
  rw [agree position (mem_range.1 member)]

theorem sum_range_double (size : ℕ) (term : ℕ → F) :
    ∑ position ∈ range (2 * size), term position =
      ∑ position ∈ range size, term (2 * position) +
        ∑ position ∈ range size, term (2 * position + 1) := by
  induction size with
  | zero => simp
  | succ size ih =>
      rw [show 2 * (size + 1) = 2 * size + 1 + 1 by ring, sum_range_succ,
        sum_range_succ, ih, sum_range_succ, sum_range_succ]
      ring

theorem dft_double (root : F) (size : ℕ) (values : ℕ → F) (index : ℕ) :
    dft root (2 * size) values index =
      dft (root ^ 2) size (fun position => values (2 * position)) index +
        root ^ index *
          dft (root ^ 2) size (fun position => values (2 * position + 1))
            index := by
  rw [dft, sum_range_double, dft, dft, mul_sum]
  congr 1
  · refine sum_congr rfl fun position _ => ?_
    rw [← pow_mul]
    ring_nf
  · refine sum_congr rfl fun position _ => ?_
    rw [← pow_mul]
    ring_nf

/-- Past the half the twiddle factor changes sign. -/
theorem dft_double_half {root : F} {size : ℕ} (values : ℕ → F) (index : ℕ)
    (half : root ^ size = -1) :
    dft root (2 * size) values (index + size) =
      dft (root ^ 2) size (fun position => values (2 * position)) index -
        root ^ index *
          dft (root ^ 2) size (fun position => values (2 * position + 1))
            index := by
  have period : ∀ exponent, (root ^ 2) ^ ((index + size) * exponent) =
      (root ^ 2) ^ (index * exponent) := by
    intro exponent
    have wrap : (root ^ 2) ^ (size * exponent) = 1 := by
      rw [← pow_mul, show 2 * (size * exponent) = size * (2 * exponent) by ring,
        pow_mul, half, pow_mul, neg_one_sq, one_pow]
    rw [add_mul, pow_add, wrap, mul_one]
  rw [dft_double, pow_add, half]
  simp only [dft, period]
  ring

end Transform

/-! Inversion: the transform against the inverse root recovers the
coefficients of a polynomial from its values. -/

section Inversion

variable {F : Type*} [Field F]

theorem sum_pow_mul_inv_pow {root : F} {size : ℕ}
    (primitive : IsPrimitiveRoot root size) {position index : ℕ}
    (positionLt : position < size) (indexLt : index < size) :
    ∑ step ∈ range size, root ^ (step * position) * root⁻¹ ^ (index * step) =
      if position = index then (size : F) else 0 := by
  have rootNe : root ≠ 0 := by
    intro zero
    have one := primitive.pow_eq_one
    rw [zero, zero_pow (by omega)] at one
    exact zero_ne_one one
  have termwise : ∀ step, root ^ (step * position) * root⁻¹ ^ (index * step) =
      (root ^ position * root⁻¹ ^ index) ^ step := by
    intro step
    rw [mul_pow, ← pow_mul, ← pow_mul, mul_comm step position]
  simp only [termwise]
  split
  · next equal =>
      subst equal
      rw [← mul_pow, mul_inv_cancel₀ rootNe, one_pow]
      simp
  · next distinct =>
      have ratioNe : root ^ position * root⁻¹ ^ index ≠ 1 := by
        intro equal
        rw [inv_pow, mul_inv_eq_one₀ (pow_ne_zero _ rootNe)] at equal
        exact distinct (primitive.pow_inj positionLt indexLt equal)
      have ratioPow : (root ^ position * root⁻¹ ^ index) ^ size = 1 := by
        rw [mul_pow, ← pow_mul, ← pow_mul, mul_comm position, mul_comm index,
          pow_mul, pow_mul, inv_pow, primitive.pow_eq_one]
        simp
      rw [geom_sum_eq ratioNe, ratioPow]
      simp

theorem eval_pow_eq_dft {root : F} {size : ℕ} {p : F[X]}
    (bound : p.degree < size) (index : ℕ) :
    dft root size (fun position => p.coeff position) index =
      p.eval (root ^ index) := by
  rcases eq_or_ne p 0 with rfl | nonzero
  · simp [dft]
  · rw [eval_eq_sum_range' ((natDegree_lt_iff_degree_lt nonzero).2 bound)]
    simp only [dft, ← pow_mul]

/-- The transform against the inverse root undoes the transform, up to the size. -/
theorem dft_inv_dft {root : F} {size : ℕ} (primitive : IsPrimitiveRoot root size)
    (values : ℕ → F) {index : ℕ} (indexLt : index < size) :
    dft root⁻¹ size (dft root size values) index = values index * (size : F) := by
  have expand : dft root⁻¹ size (dft root size values) index =
      ∑ position ∈ range size, values position *
        ∑ step ∈ range size,
          root ^ (step * position) * root⁻¹ ^ (index * step) := by
    simp only [dft, sum_mul, mul_sum]
    rw [sum_comm]
    refine sum_congr rfl fun position _ => sum_congr rfl fun step _ => ?_
    ring
  have collapse : ∀ position ∈ range size,
      values position * ∑ step ∈ range size,
        root ^ (step * position) * root⁻¹ ^ (index * step) =
      if position = index then values index * (size : F) else 0 := by
    intro position member
    rw [sum_pow_mul_inv_pow primitive (mem_range.1 member) indexLt]
    split
    · next equal => rw [equal]
    · exact mul_zero _
  rw [expand, sum_congr rfl collapse, sum_ite_eq', if_pos (mem_range.2 indexLt)]

theorem dft_mul_right (root : F) (size : ℕ) (values : ℕ → F) (scale : F) (index : ℕ) :
    dft root size (fun position => values position * scale) index =
      dft root size values index * scale := by
  rw [dft, dft, sum_mul]
  refine sum_congr rfl fun position _ => ?_
  ring

theorem dft_inv_eval {root : F} {size : ℕ} {p : F[X]}
    (primitive : IsPrimitiveRoot root size) (sizeNe : (size : F) ≠ 0)
    (bound : p.degree < size) {index : ℕ} (indexLt : index < size) :
    dft root⁻¹ size (fun step => p.eval (root ^ step)) index *
      (size : F)⁻¹ = p.coeff index := by
  have values : (fun step => p.eval (root ^ step)) =
      dft root size fun position => p.coeff position := by
    funext step
    exact (eval_pow_eq_dft bound step).symm
  rw [values, dft_inv_dft primitive _ indexLt, mul_assoc, mul_inv_cancel₀ sizeNe, mul_one]

end Inversion

end MetaVm.Dft
