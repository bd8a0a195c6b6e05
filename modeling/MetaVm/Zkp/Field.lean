import MetaVm.Lib.Numerals

namespace MetaVm.Zkp

/-! The scalar fields of the two commitment curves. -/

/-- The order of the BLS12-381 scalar field. -/
def bls12381Order : ℕ :=
  52435875175126190479447740508185965837690552500527637822603658699938581184513

theorem bls12381Order_factors :
    bls12381Order - 1 =
      2 ^ 32 * (3 * (11 * (19 * (10177 * (125527 * (859267 * (906349 ^ 2 *
        (2508409 * (2529403 * (52437899 * 254760293 ^ 2)))))))))) := by
  norm_num [bls12381Order]

theorem eq_of_prime_dvd_bls12381Order {q : ℕ} (prime : q.Prime)
    (divides : q ∣ bls12381Order - 1) :
    q = 2 ∨ q = 3 ∨ q = 11 ∨ q = 19 ∨ q = 10177 ∨ q = 125527 ∨ q = 859267 ∨
      q = 906349 ∨ q = 2508409 ∨ q = 2529403 ∨ q = 52437899 ∨
      q = 254760293 := by
  have eqOf : ∀ {factor : ℕ}, factor.Prime → q ∣ factor → q = factor :=
    fun factorPrime => (Nat.prime_dvd_prime_iff_eq prime factorPrime).1
  have eqOfPow : ∀ {factor power : ℕ}, factor.Prime →
      q ∣ factor ^ power → q = factor :=
    fun factorPrime divides => eqOf factorPrime (prime.dvd_of_dvd_pow divides)
  rw [bls12381Order_factors] at divides
  simp only [prime.dvd_mul] at divides
  rcases divides with h | h | h | h | h | h | h | h | h | h | h | h
  · exact .inl (eqOfPow (by norm_num) h)
  · exact .inr (.inl (eqOf (by norm_num) h))
  · exact .inr (.inr (.inl (eqOf (by norm_num) h)))
  · exact .inr (.inr (.inr (.inl (eqOf (by norm_num) h))))
  · exact .inr (.inr (.inr (.inr (.inl (eqOf (by norm_num) h)))))
  · exact .inr (.inr (.inr (.inr (.inr (.inl (eqOf (by norm_num) h))))))
  · have := eqOf (by norm_num) h
    omega
  · have := eqOfPow (by norm_num) h
    omega
  · have := eqOf (by norm_num) h
    omega
  · have := eqOf (by norm_num) h
    omega
  · have := eqOf (by norm_num) h
    omega
  · have := eqOfPow (by norm_num) h
    omega

/-- Seven generates the multiplicative group. -/
theorem bls12381Order_prime : bls12381Order.Prime := by
  have onlyFactors := @eq_of_prime_dvd_bls12381Order
  unfold bls12381Order at onlyFactors ⊢
  refine lucas_primality _ 7 ?_ ?_
  · norm_num1
    reduce_mod_char
  · intro q prime divides
    rcases onlyFactors prime divides with
      rfl | rfl | rfl | rfl | rfl | rfl | rfl | rfl | rfl | rfl | rfl | rfl <;>
    · norm_num1
      reduce_mod_char
      decide

instance : Fact bls12381Order.Prime := ⟨bls12381Order_prime⟩

instance : Fact (2 ^ 254 < bls12381Order) := ⟨by norm_num [bls12381Order]⟩

/-- The field a `blst_fr` ranges over. -/
abbrev Fr : Type := ZMod bls12381Order

/-- The commitment curves. The scalar order of BLS48-581 is a constant of the
curve library and enters as a parameter. -/
inductive CurveType
  | bls48581 (curveOrder : ℕ)
  | bls12381
deriving DecidableEq, Repr

namespace CurveType

def order : CurveType → ℕ
  | bls48581 curveOrder => curveOrder
  | bls12381 => bls12381Order

end CurveType

instance : Fact CurveType.bls12381.order.Prime := ⟨bls12381Order_prime⟩

abbrev Scalar (curve : CurveType) : Type := ZMod curve.order

namespace Scalar

variable {order : ℕ}

def fromU64 (value : BitVec 64) : ZMod order := (value.toNat : ZMod order)

/-- The low eight bytes of the canonical representative. -/
def toU64 (scalar : ZMod order) : BitVec 64 := BitVec.ofNat 64 scalar.val

@[simp]
theorem fromU64_two : (fromU64 2 : ZMod order) = 2 := by
  simp [fromU64]

theorem toU64_natCast {value : ℕ} (bound : value < order) :
    toU64 (value : ZMod order) = BitVec.ofNat 64 value := by
  rw [toU64, ZMod.val_natCast_of_lt bound]

end Scalar

end MetaVm.Zkp
