import MetaVm.Zkp.NonnativeArithmetic

namespace MetaVm.Zkp.Nonnative

open Polynomial

/-! The quadratic extension computes in the ring of polynomials in `u` modulo `u ^ 2 + 1`. -/

/-- `u ^ 2 + 1`. -/
noncomputable def quadratic : (ZMod modulus)[X] := X ^ 2 + 1

abbrev Extension : Type := AdjoinRoot quadratic

theorem degree_quadratic : quadratic.degree = 2 := by
  rw [quadratic]
  exact degree_X_pow_add_C (by decide) 1

theorem root_sq : AdjoinRoot.root quadratic ^ 2 + 1 = 0 := by
  have root := AdjoinRoot.eval₂_root quadratic
  rw [quadratic, eval₂_add, eval₂_X_pow, eval₂_one] at root
  exact root

/-- The modulus leaves 3 modulo 4, so that -1 has no square root. -/
theorem sum_of_squares {a b : ZMod modulus} (sum : a ^ 2 + b ^ 2 = 0) : a = 0 ∧ b = 0 := by
  have odd : modulus % 4 = 3 := by decide
  have noRoot : ¬ IsSquare (-1 : ZMod modulus) :=
    fun square => ZMod.exists_sq_eq_neg_one_iff.1 square odd
  have zero : b = 0 := by
    by_contra nonzero
    apply noRoot
    refine ⟨a / b, ?_⟩
    field_simp
    linear_combination -sum
  rw [zero] at sum
  refine ⟨?_, zero⟩
  simpa using sum

namespace Fp2

def Reduced (x : Fp2) : Prop := x.c0.Reduced ∧ x.c1.Reduced

instance (x : Fp2) : Decidable x.Reduced := inferInstanceAs (Decidable (_ ∧ _))

noncomputable def residue (x : Fp2) : Extension :=
  AdjoinRoot.of quadratic x.c0.residue +
    AdjoinRoot.of quadratic x.c1.residue * AdjoinRoot.root quadratic

/-- Reduced elements differ when their residues do. -/
theorem ext_residue {x y : Fp2} (xReduced : x.Reduced) (yReduced : y.Reduced)
    (same : x.residue = y.residue) : x = y := by
  have small : (C (x.c0.residue - y.c0.residue) +
      C (x.c1.residue - y.c1.residue) * X).degree < quadratic.degree := by
    rw [degree_quadratic, add_comm]
    exact lt_of_le_of_lt degree_linear_le (by decide)
  have zero : AdjoinRoot.mk quadratic (C (x.c0.residue - y.c0.residue) +
      C (x.c1.residue - y.c1.residue) * X) = 0 := by
    rw [map_add, map_mul, AdjoinRoot.mk_C, AdjoinRoot.mk_C, AdjoinRoot.mk_X, map_sub, map_sub]
    rw [residue, residue] at same
    linear_combination same
  have polynomial := eq_zero_of_dvd_of_degree_lt (AdjoinRoot.mk_eq_zero.1 zero) small
  have low : x.c0.residue - y.c0.residue = 0 := by
    simpa using congrArg (fun p => p.coeff 0) polynomial
  have high : x.c1.residue - y.c1.residue = 0 := by
    simpa using congrArg (fun p => p.coeff 1) polynomial
  have sameLow := Fp.ext_residue xReduced.1 yReduced.1 (sub_eq_zero.1 low)
  have sameHigh := Fp.ext_residue xReduced.2 yReduced.2 (sub_eq_zero.1 high)
  cases x
  cases y
  exact congr (congrArg Fp2.mk sameLow) sameHigh

section Operations

variable {x y : Fp2} (xReduced : x.Reduced) (yReduced : y.Reduced)

theorem reduced_one : one.Reduced := ⟨Fp.reduced_one, Fp.reduced_zero⟩

theorem residue_one : one.residue = 1 := by
  rw [residue, one, Fp.residue_one, Fp.residue_zero, map_one, map_zero, zero_mul, add_zero]

theorem isZero_iff_eq : x.isZero = true ↔ x = zero := by
  rw [isZero, Bool.and_eq_true, Fp.isZero_iff_eq, Fp.isZero_iff_eq]
  cases x
  rw [zero, Fp2.mk.injEq]

include xReduced

theorem neg_spec : x.neg.Reduced ∧ x.neg.residue = -x.residue := by
  refine ⟨⟨Fp.reduced_neg xReduced.1, Fp.reduced_neg xReduced.2⟩, ?_⟩
  rw [residue, neg, Fp.residue_neg xReduced.1, Fp.residue_neg xReduced.2, map_neg, map_neg,
    residue]
  ring

theorem mulByNonresidue_spec : x.mulByNonresidue.Reduced ∧
    x.mulByNonresidue.residue = x.residue * AdjoinRoot.root quadratic := by
  refine ⟨⟨Fp.reduced_neg xReduced.2, xReduced.1⟩, ?_⟩
  rw [residue, mulByNonresidue, Fp.residue_neg xReduced.2, map_neg, residue]
  linear_combination (-AdjoinRoot.of quadratic x.c1.residue) * root_sq

theorem square_spec : x.square.Reduced ∧ x.square.residue = x.residue ^ 2 := by
  obtain ⟨c0, c1⟩ := xReduced
  have a := Fp.reduced_add c0 c1
  have b := Fp.reduced_sub c0 c1
  have product := Fp.reduced_mul c0 c1
  refine ⟨⟨Fp.reduced_mul a b, Fp.reduced_add product product⟩, ?_⟩
  simp only [residue, square, Fp.residue_mul a b, Fp.residue_add product product,
    Fp.residue_add c0 c1, Fp.residue_sub c0 c1, Fp.residue_mul c0 c1, map_mul, map_add, map_sub]
  linear_combination (-AdjoinRoot.of quadratic x.c1.residue ^ 2) * root_sq

/-- The inverse is the conjugate over the norm. -/
theorem invert_spec (nonzero : x ≠ zero) :
    ∃ inverse, x.invert = some inverse ∧ inverse.Reduced ∧ inverse.residue * x.residue = 1 := by
  obtain ⟨c0, c1⟩ := xReduced
  have s0 := Fp.reduced_mul c0 c0
  have s1 := Fp.reduced_mul c1 c1
  have normReduced : (x.c0.square.add x.c1.square).Reduced := Fp.reduced_add s0 s1
  have normResidue : (x.c0.square.add x.c1.square).residue =
      x.c0.residue ^ 2 + x.c1.residue ^ 2 := by
    rw [Fp.square, Fp.square, Fp.residue_add s0 s1, Fp.residue_mul c0 c0, Fp.residue_mul c1 c1]
    ring
  have notZero : ¬ x.isZero = true := mt isZero_iff_eq.1 nonzero
  have normNonzero : x.c0.square.add x.c1.square ≠ Fp.zero := by
    intro vanishes
    rw [vanishes, Fp.residue_zero] at normResidue
    obtain ⟨zero0, zero1⟩ := sum_of_squares normResidue.symm
    apply notZero
    rw [isZero, Bool.and_eq_true]
    exact ⟨(Fp.residue_eq_zero_iff c0).1 zero0, (Fp.residue_eq_zero_iff c1).1 zero1⟩
  obtain ⟨normInv, inverted, invReduced, product⟩ := Fp.invert_spec normReduced normNonzero
  have n1 := Fp.reduced_neg c1
  refine ⟨⟨x.c0.mul normInv, x.c1.neg.mul normInv⟩, ?_,
    ⟨Fp.reduced_mul c0 invReduced, Fp.reduced_mul n1 invReduced⟩, ?_⟩
  · rw [invert, if_neg notZero, inverted]
    rfl
  · rw [normResidue] at product
    have one := congrArg (AdjoinRoot.of quadratic) product
    simp only [map_mul, map_add, map_pow, map_one] at one
    simp only [residue, Fp.residue_mul c0 invReduced, Fp.residue_mul n1 invReduced,
      Fp.residue_neg c1, map_mul, map_neg]
    linear_combination one - AdjoinRoot.of quadratic normInv.residue *
      AdjoinRoot.of quadratic x.c1.residue ^ 2 * root_sq

include yReduced

theorem add_spec : (x.add y).Reduced ∧ (x.add y).residue = x.residue + y.residue := by
  refine ⟨⟨Fp.reduced_add xReduced.1 yReduced.1, Fp.reduced_add xReduced.2 yReduced.2⟩, ?_⟩
  rw [residue, add, Fp.residue_add xReduced.1 yReduced.1, Fp.residue_add xReduced.2 yReduced.2,
    map_add, map_add, residue, residue]
  ring

theorem sub_spec : (x.sub y).Reduced ∧ (x.sub y).residue = x.residue - y.residue := by
  refine ⟨⟨Fp.reduced_sub xReduced.1 yReduced.1, Fp.reduced_sub xReduced.2 yReduced.2⟩, ?_⟩
  rw [residue, sub, Fp.residue_sub xReduced.1 yReduced.1, Fp.residue_sub xReduced.2 yReduced.2,
    map_sub, map_sub, residue, residue]
  ring

theorem mul_spec : (x.mul y).Reduced ∧ (x.mul y).residue = x.residue * y.residue := by
  obtain ⟨x0, x1⟩ := xReduced
  obtain ⟨y0, y1⟩ := yReduced
  have t0 := Fp.reduced_mul x0 y0
  have t1 := Fp.reduced_mul x1 y1
  have sumA := Fp.reduced_add x0 x1
  have sumB := Fp.reduced_add y0 y1
  have tCross := Fp.reduced_mul sumA sumB
  have rest := Fp.reduced_sub tCross t0
  refine ⟨⟨Fp.reduced_sub t0 t1, Fp.reduced_sub rest t1⟩, ?_⟩
  simp only [residue, mul, Fp.residue_sub t0 t1, Fp.residue_sub rest t1,
    Fp.residue_sub tCross t0, Fp.residue_mul sumA sumB, Fp.residue_add x0 x1,
    Fp.residue_add y0 y1, Fp.residue_mul x0 y0, Fp.residue_mul x1 y1, map_mul, map_add, map_sub]
  linear_combination (-(AdjoinRoot.of quadratic x.c1.residue *
    AdjoinRoot.of quadratic y.c1.residue)) * root_sq

end Operations

end Fp2

/-! The operations on reduced operands. -/

/-- The reduced limbs of a residue. -/
def Fp.Represents (x : Fp) (value : ZMod modulus) : Prop := x.Reduced ∧ x.residue = value

def Fp2.Represents (x : Fp2) (value : Extension) : Prop := x.Reduced ∧ x.residue = value

structure FieldArithmetic (a b : Fp) (exp : BeLimbs 6) : Prop where
  add : (a.add b).Represents (a.residue + b.residue)
  sub : (a.sub b).Represents (a.residue - b.residue)
  neg : a.neg.Represents (-a.residue)
  mul : (a.mul b).Represents (a.residue * b.residue)
  square : a.square.Represents (a.residue ^ 2)
  pow : (a.pow exp).Represents (a.residue ^ number exp)
  division : number a.limbs * number b.limbs =
    number (a.mulWitness b).q * modulus + number (a.mulWitness b).r
  remainder : number (a.mulWitness b).r < modulus
  inverse : a ≠ Fp.zero → ∃ inverse, a.invert = some inverse ∧ inverse.Reduced ∧
    inverse.mul a = Fp.one

structure ExtensionArithmetic (x y : Fp2) : Prop where
  add : (x.add y).Represents (x.residue + y.residue)
  sub : (x.sub y).Represents (x.residue - y.residue)
  neg : x.neg.Represents (-x.residue)
  mul : (x.mul y).Represents (x.residue * y.residue)
  square : x.square.Represents (x.residue ^ 2)
  nonresidue : x.mulByNonresidue.Represents (x.residue * AdjoinRoot.root quadratic)
  inverse : x ≠ Fp2.zero → ∃ inverse, x.invert = some inverse ∧ inverse.Reduced ∧
    inverse.residue * x.residue = 1 ∧ inverse.mul x = Fp2.one

theorem Fp.arithmetic {a b : Fp} (aReduced : a.Reduced) (bReduced : b.Reduced)
    (exp : BeLimbs 6) : FieldArithmetic a b exp := by
  obtain ⟨quotient, remainder⟩ := Fp.mulWitness_eq aReduced bReduced
  refine ⟨⟨reduced_add aReduced bReduced, residue_add aReduced bReduced⟩,
    ⟨reduced_sub aReduced bReduced, residue_sub aReduced bReduced⟩,
    ⟨reduced_neg aReduced, residue_neg aReduced⟩,
    ⟨reduced_mul aReduced bReduced, residue_mul aReduced bReduced⟩,
    ⟨reduced_mul aReduced aReduced, ?_⟩, pow_spec aReduced exp, ?_, ?_, fun nonzero => ?_⟩
  · rw [square, residue_mul aReduced aReduced, pow_two]
  · rw [quotient, remainder, Nat.div_add_mod']
  · rw [remainder]
    exact Nat.mod_lt _ modulus_pos
  · obtain ⟨inverse, inverted, reduced, product⟩ := invert_spec aReduced nonzero
    refine ⟨inverse, inverted, reduced, ?_⟩
    apply ext_residue (reduced_mul reduced aReduced) reduced_one
    rw [residue_mul reduced aReduced, product, residue_one]

theorem Fp2.arithmetic {x y : Fp2} (xReduced : x.Reduced) (yReduced : y.Reduced) :
    ExtensionArithmetic x y := by
  refine ⟨add_spec xReduced yReduced, sub_spec xReduced yReduced, neg_spec xReduced,
    mul_spec xReduced yReduced, square_spec xReduced, mulByNonresidue_spec xReduced,
    fun nonzero => ?_⟩
  obtain ⟨inverse, inverted, reduced, product⟩ := invert_spec xReduced nonzero
  obtain ⟨mulReduced, mulResidue⟩ := mul_spec reduced xReduced
  refine ⟨inverse, inverted, reduced, product, ?_⟩
  apply ext_residue mulReduced reduced_one
  rw [mulResidue, product, residue_one]

/-- The arithmetic in limbs is that of the field and of its quadratic extension. -/
theorem nonnative_arithmetic {a b : Fp} (aReduced : a.Reduced) (bReduced : b.Reduced)
    (exp : BeLimbs 6) {x y : Fp2} (xReduced : x.Reduced) (yReduced : y.Reduced) :
    FieldArithmetic a b exp ∧ ExtensionArithmetic x y :=
  ⟨Fp.arithmetic aReduced bReduced exp, Fp2.arithmetic xReduced yReduced⟩

/-- The largest element and one below the top limb. -/
theorem nonnative_arithmetic_largest :
    FieldArithmetic ⟨(sub6 pLimbs #v[0, 0, 0, 0, 0, 1]).1⟩ ⟨#v[0, 0, 1, 0, 0, 0]⟩
        #v[0, 0, 0, 0, 1, 0] ∧
      ExtensionArithmetic ⟨⟨(sub6 pLimbs #v[0, 0, 0, 0, 0, 1]).1⟩, Fp.one⟩ Fp2.one :=
  nonnative_arithmetic (by decide +kernel) (by decide +kernel) _
    (by decide +kernel) (by decide +kernel)

end MetaVm.Zkp.Nonnative
