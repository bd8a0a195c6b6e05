import MetaVm.Lib.Primality
import MetaVm.Zkp.NonnativeFp

namespace MetaVm.Zkp.Nonnative

open Primality

/-! The modulus of the base field is prime: a large prime factor of its predecessor is known,
and so on down to small primes. -/

def modulus : ℕ :=
  0x1a0111ea397fe69a4b1ba7b6434bacd764774b84f38512bf6730d2a0f6b0f6241eabfffeb153ffffb9feffffffffaaab

theorem number_pLimbs : number pLimbs = modulus := by with_unfolding_all decide

theorem prime_34_bits : Nat.Prime 13090036741 := by
  have test : OrderTest 13090036741 421987 2 34 := by decide
  exact (test.dividesPredecessors (by norm_num)).prime (by norm_num) (by norm_num)

set_option maxRecDepth 4000 in
theorem prime_72_bits : Nat.Prime 3819663927398918131021 := by
  have first : OrderTest 3819663927398918131021 13090036741 2 72 := by decide
  have second : OrderTest 3819663927398918131021 755057 2 72 := by decide
  have both := (first.dividesPredecessors prime_34_bits).mul
    (second.dividesPredecessors (by norm_num)) (by norm_num)
  exact both.prime (by norm_num) (by norm_num)

set_option maxRecDepth 4000 in
theorem prime_120_bits : Nat.Prime 1125266252156850182658904441386709967 := by
  have test : OrderTest 1125266252156850182658904441386709967 3819663927398918131021 2 120 := by
    decide
  exact (test.dividesPredecessors prime_72_bits).prime (by norm_num) (by norm_num)

set_option maxRecDepth 4000 in
theorem prime_234_bits :
    Nat.Prime 15778400344354997994418419698270088123916926905054652752758194827714659 := by
  have test : OrderTest 15778400344354997994418419698270088123916926905054652752758194827714659
      1125266252156850182658904441386709967 2 234 := by
    decide
  exact (test.dividesPredecessors prime_120_bits).prime (by norm_num) (by norm_num)

theorem modulus_prime : modulus.Prime := by
  have test : OrderTest modulus
      15778400344354997994418419698270088123916926905054652752758194827714659 2 381 := by
    decide +kernel
  exact (test.dividesPredecessors prime_234_bits).prime (by norm_num [modulus])
    (by norm_num [modulus])

instance : Fact modulus.Prime := ⟨modulus_prime⟩

end MetaVm.Zkp.Nonnative

namespace MetaVm.Zkp.Nonnative

open Evm Evm.Limbs LimbChain

/-! The field operations compute residues modulo the prime. -/

theorem modulus_room : 2 * modulus < (2 ^ 64) ^ 6 := by decide

theorem modulus_pos : 0 < modulus := modulus_prime.pos

namespace Fp

def Reduced (x : Fp) : Prop := number x.limbs < modulus

/-- The residue class that the limbs stand for. -/
def residue (x : Fp) : ZMod modulus := number x.limbs

theorem reduced_iff (x : Fp) : x.Reduced ↔ number x.limbs < modulus := Iff.rfl

theorem residue_def (x : Fp) : x.residue = number x.limbs := rfl

instance (x : Fp) : Decidable x.Reduced := inferInstanceAs (Decidable (_ < _))

theorem ext_residue {x y : Fp} (xReduced : x.Reduced) (yReduced : y.Reduced)
    (same : x.residue = y.residue) : x = y := by
  have congruent := (ZMod.natCast_eq_natCast_iff' _ _ _).1 same
  rw [Nat.mod_eq_of_lt xReduced, Nat.mod_eq_of_lt yReduced] at congruent
  have limbs := number_injective _ congruent
  cases x
  cases y
  rw [Fp.mk.injEq]
  exact limbs

section Operations

variable {a b : Fp} (aReduced : a.Reduced) (bReduced : b.Reduced)

include aReduced bReduced

theorem number_add :
    number (a.add b).limbs = (number a.limbs + number b.limbs) % modulus := by
  have room := modulus_room
  have sum := number_addChain a.limbs b.limbs
  have difference := number_subChain (addChain a.limbs b.limbs).1 pLimbs
  have borrow := subChain_borrow (addChain a.limbs b.limbs).1 pLimbs
  rw [number_pLimbs] at difference borrow
  rw [reduced_iff] at aReduced bReduced
  have noCarry : (addChain a.limbs b.limbs).2 = 0 := by
    rcases Nat.le_one_iff_eq_zero_or_eq_one.1 (addChain_carry_le_one a.limbs b.limbs) with
      zero | one
    · exact zero
    · rw [one] at sum
      omega
  rw [noCarry, Nat.zero_mul, Nat.add_zero] at sum
  rw [add, addWitness]
  simp only [noCarry, borrow]
  by_cases less : number (addChain a.limbs b.limbs).1 < modulus
  · have notTaken : ¬ ((0 : ℕ) = 1 ∨ (1 : ℕ) = 0) := by decide
    have kept : ¬ ((0 : U64) = 1) := by decide
    rw [if_pos less, if_neg notTaken, if_neg kept, sum]
    rw [sum] at less
    exact (Nat.mod_eq_of_lt less).symm
  · have taken : (0 : ℕ) = 1 ∨ (0 : ℕ) = 0 := Or.inr rfl
    rw [if_neg less, if_pos taken, if_pos rfl]
    rw [if_neg less, sum, Nat.zero_mul, Nat.add_zero] at difference
    rw [sum] at less
    rw [Nat.mod_eq_sub_mod (Nat.le_of_not_lt less), Nat.mod_eq_of_lt (by omega)]
    omega

theorem number_sub :
    number (a.sub b).limbs = (number a.limbs + modulus - number b.limbs) % modulus := by
  have room := modulus_room
  have difference := number_subChain a.limbs b.limbs
  have sum := number_addChain (subChain a.limbs b.limbs).1 pLimbs
  have carry := addChain_carry_le_one (subChain a.limbs b.limbs).1 pLimbs
  have borrow := subChain_borrow a.limbs b.limbs
  rw [number_pLimbs] at sum
  rw [reduced_iff] at aReduced bReduced
  rw [sub, subWitness]
  simp only [borrow]
  by_cases less : number a.limbs < number b.limbs
  · have taken : BitVec.ofNat 64 1 = (1 : U64) := rfl
    rw [if_pos less, if_pos taken]
    rw [if_pos less] at difference
    have once : (addChain (subChain a.limbs b.limbs).1 pLimbs).2 = 1 := by
      rcases Nat.le_one_iff_eq_zero_or_eq_one.1 carry with zero | one
      · have below := number_lt (addChain (subChain a.limbs b.limbs).1 pLimbs).1
        rw [zero] at sum
        omega
      · exact one
    rw [once] at sum
    rw [Nat.mod_eq_of_lt (by omega)]
    omega
  · have kept : ¬ (BitVec.ofNat 64 0 = (1 : U64)) := by decide
    rw [if_neg less, if_neg kept]
    rw [if_neg less] at difference
    rw [Nat.mod_eq_sub_mod (by omega), Nat.mod_eq_of_lt (by omega)]
    omega

theorem mulWitness_eq :
    number (a.mulWitness b).q = number a.limbs * number b.limbs / modulus ∧
      number (a.mulWitness b).r = number a.limbs * number b.limbs % modulus := by
  have product := number_mul6By6Be a.limbs b.limbs
  have room : number (mul6By6Be a.limbs b.limbs) < 2 ^ 384 * number pLimbs := by
    rw [product, number_pLimbs]
    have wide : modulus ≤ 2 ^ 384 := by decide +kernel
    calc number a.limbs * number b.limbs
        < modulus * modulus := Nat.mul_lt_mul'' aReduced bReduced
      _ ≤ 2 ^ 384 * modulus := Nat.mul_le_mul_right modulus wide
  have division := divmod12By6_eq room
  rw [product, number_pLimbs] at division
  simp only [mulWitness]
  exact division

theorem number_mul :
    number (a.mul b).limbs = number a.limbs * number b.limbs % modulus :=
  (mulWitness_eq aReduced bReduced).2

theorem reduced_add : (a.add b).Reduced := by
  rw [reduced_iff, number_add aReduced bReduced]
  exact Nat.mod_lt _ modulus_pos

theorem reduced_sub : (a.sub b).Reduced := by
  rw [reduced_iff, number_sub aReduced bReduced]
  exact Nat.mod_lt _ modulus_pos

theorem reduced_mul : (a.mul b).Reduced := by
  rw [reduced_iff, number_mul aReduced bReduced]
  exact Nat.mod_lt _ modulus_pos

theorem residue_add : (a.add b).residue = a.residue + b.residue := by
  rw [residue_def, number_add aReduced bReduced, ZMod.natCast_mod, Nat.cast_add, residue_def, residue_def]

theorem residue_sub : (a.sub b).residue = a.residue - b.residue := by
  have le : number b.limbs ≤ number a.limbs + modulus :=
    (Nat.le_of_lt bReduced).trans (Nat.le_add_left _ _)
  rw [residue_def, number_sub aReduced bReduced, ZMod.natCast_mod, Nat.cast_sub le, Nat.cast_add,
    ZMod.natCast_self, add_zero, residue_def, residue_def]

theorem residue_mul : (a.mul b).residue = a.residue * b.residue := by
  rw [residue_def, number_mul aReduced bReduced, ZMod.natCast_mod, Nat.cast_mul, residue_def, residue_def]

end Operations

section Single

theorem number_zero : number zero.limbs = 0 := by with_unfolding_all decide

theorem number_one : number one.limbs = 1 := by with_unfolding_all decide

theorem reduced_zero : zero.Reduced := by with_unfolding_all decide

theorem reduced_one : one.Reduced := by with_unfolding_all decide

theorem residue_zero : zero.residue = 0 := by
  rw [residue_def, number_zero, Nat.cast_zero]

theorem residue_one : one.residue = 1 := by
  rw [residue_def, number_one, Nat.cast_one]

variable {a : Fp} (aReduced : a.Reduced)

theorem isZero_iff_eq : a.isZero = true ↔ a = zero := by
  rw [isZero, beq_iff_eq]
  constructor
  · intro limbs
    cases a
    exact congrArg Fp.mk limbs
  · exact congrArg Fp.limbs

theorem isZero_iff : a.isZero = true ↔ number a.limbs = 0 := by
  rw [isZero, beq_iff_eq, ← number_zero]
  constructor
  · exact congrArg number
  · exact number_injective _

include aReduced

theorem residue_eq_zero_iff : a.residue = 0 ↔ a.isZero = true := by
  rw [isZero_iff, residue_def, ZMod.natCast_eq_zero_iff]
  constructor
  · exact fun divides => Nat.eq_zero_of_dvd_of_lt divides aReduced
  · intro zero
    rw [zero]
    exact dvd_zero modulus

theorem number_neg : number a.neg.limbs = (modulus - number a.limbs) % modulus := by
  rw [neg]
  split
  · rename_i zero
    rw [number_zero, isZero_iff.1 zero, Nat.sub_zero, Nat.mod_self]
  · rename_i nonzero
    have positive : number a.limbs ≠ 0 := mt isZero_iff.2 nonzero
    have le : number a.limbs ≤ number pLimbs := by
      rw [number_pLimbs]
      exact Nat.le_of_lt aReduced
    rw [sub6, number_subChain_of_le le, number_pLimbs,
      Nat.mod_eq_of_lt (Nat.sub_lt modulus_pos (Nat.pos_of_ne_zero positive))]

theorem reduced_neg : a.neg.Reduced := by
  rw [reduced_iff, number_neg aReduced]
  exact Nat.mod_lt _ modulus_pos

theorem residue_neg : a.neg.residue = -a.residue := by
  rw [residue_def, number_neg aReduced, ZMod.natCast_mod, Nat.cast_sub (Nat.le_of_lt aReduced),
    ZMod.natCast_self, zero_sub, residue_def]

end Single

/-! Powers. -/

/-- The state of the loop stands for a power, which has no set bit before it starts. -/
structure PowerOf (a : Fp) (exponent : ℕ) (state : Fp × Bool) : Prop where
  started : state.2 = true → state.1.Reduced ∧ state.1.residue = a.residue ^ exponent
  idle : state.2 = false → exponent = 0

section Power

variable {a : Fp} (aReduced : a.Reduced) (exp : BeLimbs 6)

include aReduced

theorem PowerOf.powStep {exponent : ℕ} {state : Fp × Bool} (holds : PowerOf a exponent state)
    (limb : U64) (bit : ℕ) :
    PowerOf a (2 * exponent + if limb >>> bit &&& 1 = 1 then 1 else 0)
      (a.powStep limb state bit) := by
  obtain ⟨value, flag⟩ := state
  rw [Fp.powStep]
  cases flag with
  | true =>
      obtain ⟨reduced, residue⟩ := holds.started rfl
      dsimp only at reduced residue
      have squared : value.square.residue = a.residue ^ (2 * exponent) := by
        rw [square, residue_mul reduced reduced, residue, two_mul, pow_add]
      have squareReduced : value.square.Reduced := reduced_mul reduced reduced
      by_cases isOne : limb >>> bit &&& 1 = 1
      · simp only [if_pos isOne, Bool.not_true, Bool.false_eq_true, if_false, if_true]
        refine ⟨fun _ => ⟨reduced_mul squareReduced aReduced, ?_⟩, fun idle => Bool.noConfusion idle⟩
        rw [residue_mul squareReduced aReduced, squared, pow_succ]
      · simp only [if_neg isOne, if_true, Nat.add_zero]
        exact ⟨fun _ => ⟨squareReduced, squared⟩, fun idle => Bool.noConfusion idle⟩
  | false =>
      have zero := holds.idle rfl
      by_cases isOne : limb >>> bit &&& 1 = 1
      · simp only [if_pos isOne, Bool.not_false, if_true, zero]
        refine ⟨fun _ => ⟨aReduced, ?_⟩, fun idle => Bool.noConfusion idle⟩
        exact (pow_one _).symm
      · simp only [if_neg isOne, Bool.false_eq_true, if_false, zero]
        exact ⟨fun started => Bool.noConfusion started, fun _ => rfl⟩

omit aReduced in
/-- The loop reads the bits of the exponent from the highest one down. -/
theorem powStep_exponent {i k : ℕ} (iInside : i < 6) (kInside : k < 64) :
    number exp / 2 ^ (384 - (64 * i + (k + 1))) =
      2 * (number exp / 2 ^ (384 - (64 * i + k))) +
        if entry exp i >>> (63 - k) &&& 1 = 1 then 1 else 0 := by
  obtain ⟨t, position⟩ : ∃ t, t = 383 - 64 * i - k := ⟨_, rfl⟩
  have above : 384 - (64 * i + k) = t + 1 := by omega
  have here : 384 - (64 * i + (k + 1)) = t := by omega
  have limbIndex : 6 - 1 - t / 64 = i := by omega
  have bitIndex : t % 64 = 63 - k := by omega
  have bit := bitAt_eq (lowFirst exp) (by omega : t < 64 * 6)
  rw [bitAt, limb_entry exp (by omega), limbIndex, bitIndex] at bit
  have isBit : (entry exp i >>> (63 - k) &&& 1).toNat = number exp / 2 ^ t % 2 := by
    rw [BitVec.toNat_and, BitVec.toNat_ushiftRight]
    exact bit
  have halved : number exp / 2 ^ t / 2 = number exp / 2 ^ (t + 1) := by
    rw [Nat.div_div_eq_div_mul, pow_succ]
  rw [above, here, ← halved]
  split
  · rename_i isOne
    have one : (1 : U64).toNat = 1 := rfl
    rw [isOne, one] at isBit
    omega
  · rename_i notOne
    have apart : (entry exp i >>> (63 - k) &&& 1).toNat ≠ 1 :=
      fun same => notOne (BitVec.eq_of_toNat_eq same)
    omega

theorem powerOf_bits {i : ℕ} (inside : i < 6) {state : Fp × Bool}
    (holds : PowerOf a (number exp / 2 ^ (384 - 64 * i)) state) :
    PowerOf a (number exp / 2 ^ (384 - 64 * (i + 1)))
      ((List.range 64).foldl (fun state k => a.powStep (entry exp i) state (63 - k)) state) := by
  let invariant : ℕ → Fp × Bool → Prop := fun k state =>
    PowerOf a (number exp / 2 ^ (384 - (64 * i + k))) state
  have start : invariant 0 state := holds
  refine foldl_range_invariant start ?_
  intro k kInside state holds
  have next := holds.powStep aReduced (entry exp i) (63 - k)
  rwa [← powStep_exponent exp inside kInside] at next

theorem powerOf_limbs : PowerOf a (number exp)
    ((List.range 6).foldl (fun state i =>
      (List.range 64).foldl (fun state k => a.powStep (entry exp i) state (63 - k)) state)
        (one, false)) := by
  let invariant : ℕ → Fp × Bool → Prop := fun i state =>
    PowerOf a (number exp / 2 ^ (384 - 64 * i)) state
  have start : invariant 0 (one, false) := by
    refine ⟨fun started => Bool.noConfusion started, fun _ => ?_⟩
    exact Nat.div_eq_of_lt ((number_lt exp).trans_eq (pow_mul 2 64 6).symm)
  have whole : invariant 6 _ :=
    foldl_range_invariant start fun i inside state holds => powerOf_bits aReduced exp inside holds
  have last : number exp / 2 ^ (384 - 64 * 6) = number exp := Nat.div_one _
  rw [← last]
  exact whole

theorem pow_spec : (a.pow exp).Reduced ∧ (a.pow exp).residue = a.residue ^ number exp := by
  have whole := powerOf_limbs aReduced exp
  rw [pow]
  split
  · rename_i idle
    have zero := whole.idle (by simpa using idle)
    rw [zero, pow_zero]
    exact ⟨reduced_one, residue_one⟩
  · rename_i started
    exact whole.started (by simpa using started)

theorem invert_spec (nonzero : a ≠ zero) :
    ∃ inverse, a.invert = some inverse ∧ inverse.Reduced ∧ inverse.residue * a.residue = 1 := by
  have notZero : ¬ a.isZero = true := mt isZero_iff_eq.1 nonzero
  have two : number (#v[0, 0, 0, 0, 0, 2] : BeLimbs 6) = 2 := by with_unfolding_all decide
  have least := modulus_prime.two_le
  have exponent : number (sub6 pLimbs #v[0, 0, 0, 0, 0, 2]).1 = modulus - 2 := by
    rw [sub6, number_subChain_of_le (by rw [two, number_pLimbs]; exact least), two, number_pLimbs]
  obtain ⟨reduced, residue⟩ := pow_spec aReduced (sub6 pLimbs #v[0, 0, 0, 0, 0, 2]).1
  refine ⟨_, ?_, reduced, ?_⟩
  · rw [invert, if_neg notZero]
  · have one := ZMod.pow_card_sub_one_eq_one (mt (residue_eq_zero_iff aReduced).1 notZero)
    have successor : modulus - 2 + 1 = modulus - 1 := by omega
    rw [residue, exponent, ← pow_succ, successor, one]

end Power

end Fp

end MetaVm.Zkp.Nonnative
