import MetaVm.Lib.Numerals

namespace MetaVm.Primality

/-! A number is prime when the prime factors of its predecessor that are known are large. -/

/-- `base ^ exponent` modulo `modulus`, for an exponent of that many bits. -/
def powMod (modulus base : ℕ) : ℕ → ℕ → ℕ
  | 0, _ => 1 % modulus
  | bits + 1, exponent =>
      let half := powMod modulus base bits (exponent / 2)
      half * half * base ^ (exponent % 2) % modulus

theorem powMod_eq (modulus base : ℕ) {bits exponent : ℕ} (small : exponent < 2 ^ bits) :
    powMod modulus base bits exponent = base ^ exponent % modulus := by
  induction bits generalizing exponent with
  | zero =>
      obtain rfl : exponent = 0 := by omega
      rfl
  | succ bits hypothesis =>
      have halved : exponent / 2 < 2 ^ bits := by omega
      have split : base ^ exponent =
          base ^ (exponent / 2) * base ^ (exponent / 2) * base ^ (exponent % 2) := by
        rw [← pow_add, ← pow_add]
        congr 1
        omega
      rw [powMod, hypothesis halved, split]
      exact (((Nat.mod_modEq _ _).mul (Nat.mod_modEq _ _)).mul_right _)

/-- `base` has an order that `factor` divides, modulo every prime factor of `number`. -/
structure OrderTest (number factor base bits : ℕ) : Prop where
  divides : factor ∣ number - 1
  small : number - 1 < 2 ^ bits
  one : powMod number base bits (number - 1) = 1
  unit : Nat.Coprime (powMod number base bits ((number - 1) / factor) - 1) number

instance (number factor base bits : ℕ) : Decidable (OrderTest number factor base bits) :=
  decidable_of_iff
    (factor ∣ number - 1 ∧ number - 1 < 2 ^ bits ∧ powMod number base bits (number - 1) = 1 ∧
      Nat.Coprime (powMod number base bits ((number - 1) / factor) - 1) number)
    ⟨fun ⟨divides, small, one, unit⟩ => ⟨divides, small, one, unit⟩,
      fun test => ⟨test.divides, test.small, test.one, test.unit⟩⟩

/-- What divides every prime factor of a number, less one. -/
def DividesPredecessors (number factor : ℕ) : Prop :=
  ∀ p : ℕ, p.Prime → p ∣ number → factor ∣ p - 1

variable {number factor other base bits : ℕ}

theorem OrderTest.dividesPredecessors (test : OrderTest number factor base bits)
    (prime : factor.Prime) : DividesPredecessors number factor := by
  intro p pPrime pDivides
  have : Fact p.Prime := ⟨pPrime⟩
  have : Fact factor.Prime := ⟨prime⟩
  obtain ⟨cofactor, split⟩ := test.divides
  have cofactorEq : (number - 1) / factor = cofactor := by
    rw [split, Nat.mul_div_cancel_left _ prime.pos]
  have cofactorSmall : cofactor < 2 ^ bits :=
    lt_of_le_of_lt (by rw [split]; exact Nat.le_mul_of_pos_left _ prime.pos) test.small
  -- The residues of powers modulo `number` are those modulo `p`.
  have residue : ∀ exponent < 2 ^ bits,
      (powMod number base bits exponent : ZMod p) = (base : ZMod p) ^ exponent := by
    intro exponent bounded
    rw [powMod_eq number base bounded, ← Nat.cast_pow, ZMod.natCast_eq_natCast_iff]
    exact (Nat.mod_modEq _ _).of_dvd pDivides
  have power : ((base : ZMod p) ^ cofactor) ^ factor = 1 := by
    rw [← pow_mul, Nat.mul_comm, ← split, ← residue _ test.small, test.one, Nat.cast_one]
  have apart : (base : ZMod p) ^ cofactor ≠ 1 := by
    intro same
    have unit := test.unit
    rw [cofactorEq] at unit
    have congruent : 1 ≡ powMod number base bits cofactor [MOD p] := by
      rw [← ZMod.natCast_eq_natCast_iff, residue _ cofactorSmall, same, Nat.cast_one]
    have common : p ∣ powMod number base bits cofactor - 1 := by
      by_cases zero : powMod number base bits cofactor = 0
      · rw [zero]
        exact dvd_zero p
      · exact (Nat.modEq_iff_dvd' (Nat.one_le_iff_ne_zero.2 zero)).1 congruent
    exact pPrime.one_lt.ne' (Nat.eq_one_of_dvd_coprimes unit common pDivides)
  have order : orderOf ((base : ZMod p) ^ cofactor) = factor := orderOf_eq_prime power apart
  have nonzero : (base : ZMod p) ^ cofactor ≠ 0 := by
    intro zero
    rw [zero, zero_pow prime.ne_zero] at power
    exact zero_ne_one power
  rw [← order]
  exact ZMod.orderOf_dvd_card_sub_one nonzero

theorem DividesPredecessors.mul (first : DividesPredecessors number factor)
    (second : DividesPredecessors number other) (coprime : Nat.Coprime factor other) :
    DividesPredecessors number (factor * other) :=
  fun p prime divides =>
    coprime.mul_dvd_of_dvd_of_dvd (first p prime divides) (second p prime divides)

/-- A number is prime when its prime factors exceed its square root. -/
theorem DividesPredecessors.prime (each : DividesPredecessors number factor)
    (large : number < (factor + 1) * (factor + 1)) (proper : 1 < number) : number.Prime := by
  by_contra composite
  have least := Nat.minFac_prime proper.ne'
  have divides := each _ least (Nat.minFac_dvd number)
  have more := least.one_lt
  have below := Nat.le_of_dvd (by omega) divides
  have square := Nat.minFac_sq_le_self (by omega) composite
  have above : factor + 1 ≤ number.minFac := by omega
  have product := Nat.mul_le_mul above above
  rw [pow_two] at square
  omega

end MetaVm.Primality
