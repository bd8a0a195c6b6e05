import MetaVm.Evm.ColumnCarries
import MetaVm.Evm.Semantics

namespace MetaVm.Evm

open Limbs

section Lossy

variable {dividend divisor bit bits : ℕ} {state : ℕ × ℕ}

/-! The narrow division on a wide dividend. Where a bit of the remainder is lost,
the quotient and remainder no longer make up the dividend. -/

/-- The number that a state accounts for, with so many bits to come. -/
def accounted (divisor bits : ℕ) (state : ℕ × ℕ) : ℕ :=
  state.1 * divisor + state.2 * 2 ^ bits

theorem accounted_zero : accounted divisor 0 state = state.1 * divisor + state.2 := by
  rw [accounted, pow_zero, Nat.mul_one]

/-- A round accounts for the next bit too, as far as the remainder keeps it. -/
theorem accounted_narrowBit (inside : bit < 256) :
    accounted divisor bit (narrowBit dividend divisor bit state) =
      state.1 * divisor + (2 * state.2 + dividend / 2 ^ bit % 2) % 2 ^ 256 * 2 ^ bit := by
  rw [narrowBit]
  generalize (2 * state.2 + dividend / 2 ^ bit % 2) % 2 ^ 256 = rem
  split_ifs with less
  · rfl
  · obtain ⟨rest, rfl⟩ := Nat.exists_eq_add_of_le (Nat.not_lt.1 less)
    rw [accounted, Nat.add_sub_cancel_left]
    ring

theorem accounted_shift :
    state.1 * divisor + (2 * state.2 + dividend / 2 ^ bit % 2) * 2 ^ bit +
        dividend % 2 ^ bit =
      accounted divisor (bit + 1) state + dividend % 2 ^ (bit + 1) := by
  have low : dividend % 2 ^ (bit + 1) =
      dividend % 2 ^ bit + 2 ^ bit * (dividend / 2 ^ bit % 2) := by
    rw [pow_succ, Nat.mod_mul]
  rw [accounted, low, pow_succ]
  ring

/-- The division never accounts for more than the dividend. -/
theorem accounted_narrowDivide_le (inside : bits ≤ 256) :
    accounted divisor 0 (narrowDivide dividend divisor bits state) ≤
      accounted divisor bits state + dividend % 2 ^ bits := by
  induction bits generalizing state with
  | zero => exact Nat.le_add_right _ _
  | succ bit hypothesis =>
      rw [narrowDivide, ← accounted_shift]
      refine (hypothesis (Nat.le_of_succ_le inside)).trans ?_
      rw [accounted_narrowBit inside]
      exact Nat.add_le_add_right
        (Nat.add_le_add_left (Nat.mul_le_mul_right _ (Nat.mod_le _ _)) _) _

/-- After a lost bit it accounts for less. -/
theorem accounted_narrowDivide_lt (inside : bit < 256)
    (lost : 2 ^ 256 ≤ 2 * state.2 + dividend / 2 ^ bit % 2) :
    accounted divisor 0 (narrowDivide dividend divisor (bit + 1) state) <
      accounted divisor (bit + 1) state + dividend % 2 ^ (bit + 1) := by
  have below : (2 * state.2 + dividend / 2 ^ bit % 2) % 2 ^ 256 <
      2 * state.2 + dividend / 2 ^ bit % 2 :=
    (Nat.mod_lt _ (Nat.two_pow_pos 256)).trans_le lost
  rw [narrowDivide, ← accounted_shift]
  refine (accounted_narrowDivide_le inside.le).trans_lt ?_
  rw [accounted_narrowBit inside]
  exact Nat.add_lt_add_right
    (Nat.add_lt_add_left (Nat.mul_lt_mul_of_pos_right below (Nat.two_pow_pos bit)) _) _

/-- Where no quotient bit is out of reach, the exact state accounts for all bits
that were used. -/
theorem accounted_dividedBits (short : dividend / divisor < 2 ^ 256) :
    accounted divisor bits (dividedBits dividend divisor bits) + dividend % 2 ^ bits =
      dividend := by
  have kept : dividend / 2 ^ bits / divisor * 2 ^ bits < 2 ^ 256 := by
    refine lt_of_le_of_lt ?_ short
    rw [Nat.div_div_eq_div_mul, Nat.mul_comm (2 ^ bits), ← Nat.div_div_eq_div_mul]
    exact Nat.div_mul_le_self _ _
  have upper := Nat.div_add_mod (dividend / 2 ^ bits) divisor
  have whole := Nat.div_add_mod dividend (2 ^ bits)
  rw [accounted, dividedBits, Nat.mod_eq_of_lt kept]
  calc dividend / 2 ^ bits / divisor * 2 ^ bits * divisor +
        dividend / 2 ^ bits % divisor * 2 ^ bits + dividend % 2 ^ bits
      = 2 ^ bits * (divisor * (dividend / 2 ^ bits / divisor) +
          dividend / 2 ^ bits % divisor) + dividend % 2 ^ bits := by ring
    _ = dividend := by rw [upper, whole]

/-- From its exact state the division comes to the exact result only through
rounds that lose nothing. -/
theorem fits_of_narrowDivide_exact (positive : 0 < divisor) (inside : bits ≤ 256)
    (short : dividend / divisor < 2 ^ 256)
    (exact : narrowDivide dividend divisor bits (dividedBits dividend divisor bits) =
      (dividend / divisor, dividend % divisor)) :
    ∀ bit < bits,
      2 * (dividend / 2 ^ (bit + 1) % divisor) + dividend / 2 ^ bit % 2 < 2 ^ 256 := by
  induction bits with
  | zero => exact fun bit below => absurd below (Nat.not_lt_zero bit)
  | succ last hypothesis =>
      have lastFits :
          2 * (dividend / 2 ^ (last + 1) % divisor) + dividend / 2 ^ last % 2 < 2 ^ 256 := by
        by_contra lost
        have less : accounted divisor 0 (narrowDivide dividend divisor (last + 1)
              (dividedBits dividend divisor (last + 1))) <
            accounted divisor (last + 1) (dividedBits dividend divisor (last + 1)) +
              dividend % 2 ^ (last + 1) :=
          accounted_narrowDivide_lt inside (Nat.not_lt.1 lost)
        rw [exact, accounted_dividedBits short, accounted_zero, Nat.div_add_mod'] at less
        exact Nat.lt_irrefl _ less
      rw [narrowDivide, narrowBit_exact positive lastFits] at exact
      intro bit below
      rcases Nat.lt_succ_iff_lt_or_eq.1 below with earlier | rfl
      · exact hypothesis (Nat.le_of_succ_le inside) exact bit earlier
      · exact lastFits

/-- The upper half of a dividend that is less than the shifted divisor loses
nothing. -/
theorem fits_upper (bounded : dividend < divisor * 2 ^ 256) (small : divisor < 2 ^ 256)
    (upper : 256 ≤ bit) :
    2 * (dividend / 2 ^ (bit + 1) % divisor) + dividend / 2 ^ bit % 2 < 2 ^ 256 := by
  have next : 2 * (dividend / 2 ^ (bit + 1)) + dividend / 2 ^ bit % 2 = dividend / 2 ^ bit := by
    rw [pow_succ, ← Nat.div_div_eq_div_mul, Nat.div_add_mod]
  have prefixSmall : dividend / 2 ^ bit < divisor := by
    rw [Nat.div_lt_iff_lt_mul (Nat.two_pow_pos bit)]
    exact bounded.trans_le
      (Nat.mul_le_mul_left divisor (Nat.pow_le_pow_right Nat.two_pos upper))
  have reduced : dividend / 2 ^ (bit + 1) % divisor ≤ dividend / 2 ^ (bit + 1) :=
    Nat.mod_le _ _
  omega

/-- On such a dividend, the rounds of the upper half lead to the exact state. -/
theorem narrowDivide_upper (bounded : dividend < divisor * 2 ^ 256)
    (small : divisor < 2 ^ 256) (count : ℕ) :
    narrowDivide dividend divisor (256 + count)
        (dividedBits dividend divisor (256 + count)) =
      narrowDivide dividend divisor 256 (dividedBits dividend divisor 256) := by
  have positive : 0 < divisor := by
    by_contra zero
    rw [Nat.eq_zero_of_not_pos zero, Nat.zero_mul] at bounded
    exact Nat.not_lt_zero _ bounded
  induction count with
  | zero => rfl
  | succ count hypothesis =>
      rw [← Nat.add_assoc, narrowDivide,
        narrowBit_exact positive (fits_upper bounded small (Nat.le_add_right 256 count)),
        hypothesis]

/-- The narrow division of a wide dividend is exact if and only if no round loses
a bit. -/
theorem narrowDivide_exact_iff (bounded : dividend < divisor * 2 ^ 256)
    (small : divisor < 2 ^ 256) :
    narrowDivide dividend divisor (256 + 256) (0, 0) = (dividend / divisor, dividend % divisor) ↔
      RemainderFits dividend divisor := by
  have positive : 0 < divisor := by
    by_contra zero
    rw [Nat.eq_zero_of_not_pos zero, Nat.zero_mul] at bounded
    exact Nat.not_lt_zero _ bounded
  have short : dividend / divisor < 2 ^ 256 :=
    Nat.div_lt_of_lt_mul bounded
  have wide : dividend < 2 ^ (256 + 256) := by
    rw [pow_add]
    exact bounded.trans (Nat.mul_lt_mul_of_pos_right small (Nat.two_pow_pos 256))
  have start : dividedBits dividend divisor (256 + 256) = (0, 0) := by
    rw [dividedBits, Nat.div_eq_of_lt wide, Nat.zero_div, Nat.zero_mul, Nat.zero_mod,
      Nat.zero_mod]
  constructor
  · intro exact bit
    rw [← start, narrowDivide_upper bounded small 256] at exact
    rcases Nat.lt_or_ge bit 256 with lower | upper
    · exact fits_of_narrowDivide_exact positive le_rfl short exact bit lower
    · exact fits_upper bounded small upper
  · intro fits
    rw [← start, narrowDivide_exact positive fits, Nat.mod_eq_of_lt short]

end Lossy

section Divmod

variable {dividend : Limbs 8} {divisor : U256}

theorem value_u512DivmodU256 (nonzero : divisor ≠ 0) :
    ((u512DivmodU256 dividend divisor).1.value, (u512DivmodU256 dividend divisor).2.value) =
      narrowDivide dividend.value divisor.value 512 (0, 0) := by
  have loop : Represents 0 (divideBits dividend divisor 512 (0, 0))
      (narrowDivide dividend.value divisor.value 512 (0, 0)) :=
    (represents_zero 512).divideBits (Nat.le_refl 512)
  rw [u512DivmodU256, if_neg nonzero]
  exact Prod.ext loop.quotient loop.remainder

theorem u512DivmodU256_exact_iff_narrow (bounded : dividend.value < divisor.value * 2 ^ 256) :
    ((u512DivmodU256 dividend divisor).1.value = dividend.value / divisor.value ∧
        (u512DivmodU256 dividend divisor).2.value = dividend.value % divisor.value) ↔
      narrowDivide dividend.value divisor.value 512 (0, 0) =
        (dividend.value / divisor.value, dividend.value % divisor.value) := by
  have nonzero : divisor ≠ 0 := by
    intro zero
    rw [value_eq_zero_iff.2 zero, Nat.zero_mul] at bounded
    exact Nat.not_lt_zero _ bounded
  rw [← value_u512DivmodU256 nonzero, Prod.mk.injEq]

/-- The division of eight limbs by four gives the quotient and the remainder if
and only if twice the remainder of every prefix of the dividend, with the next
bit, fits into 256 bits. -/
theorem u512DivmodU256_exact_iff (dividend : Limbs 8) (divisor : U256)
    (bounded : dividend.value < divisor.value * 2 ^ 256) :
    ((u512DivmodU256 dividend divisor).1.value = dividend.value / divisor.value ∧
        (u512DivmodU256 dividend divisor).2.value = dividend.value % divisor.value) ↔
      RemainderFits dividend.value divisor.value := by
  rw [u512DivmodU256_exact_iff_narrow bounded]
  exact narrowDivide_exact_iff bounded divisor.value_lt

theorem u512DivmodU256_exact_product :
    ((u512DivmodU256 ![0, 5, 0, 0, 0, 0, 0, 0] ![0, 3, 0, 0]).1.value =
          Limbs.value ![0, 5, 0, 0, 0, 0, 0, 0] / Limbs.value ![0, 3, 0, 0] ∧
        (u512DivmodU256 ![0, 5, 0, 0, 0, 0, 0, 0] ![0, 3, 0, 0]).2.value =
          Limbs.value ![0, 5, 0, 0, 0, 0, 0, 0] % Limbs.value ![0, 3, 0, 0]) ↔
      RemainderFits (Limbs.value ![0, 5, 0, 0, 0, 0, 0, 0]) (Limbs.value ![0, 3, 0, 0]) :=
  u512DivmodU256_exact_iff _ _ (by decide)

/-- `2 ^ 256` divided by `2 ^ 256 - 1`: the only bit of the dividend that is set gets
shifted out of the remainder. -/
theorem u512DivmodU256_losesBit :
    Limbs.value ![0, 0, 0, 0, 1, 0, 0, 0] <
        Limbs.value (fun _ : Fin 4 => 0xFFFFFFFFFFFFFFFF) * 2 ^ 256 ∧
      ¬((u512DivmodU256 ![0, 0, 0, 0, 1, 0, 0, 0] fun _ => 0xFFFFFFFFFFFFFFFF).1.value =
          Limbs.value ![0, 0, 0, 0, 1, 0, 0, 0] /
            Limbs.value (fun _ : Fin 4 => 0xFFFFFFFFFFFFFFFF) ∧
        (u512DivmodU256 ![0, 0, 0, 0, 1, 0, 0, 0] fun _ => 0xFFFFFFFFFFFFFFFF).2.value =
          Limbs.value ![0, 0, 0, 0, 1, 0, 0, 0] %
            Limbs.value (fun _ : Fin 4 => 0xFFFFFFFFFFFFFFFF)) := by
  have dividendValue : Limbs.value ![0, 0, 0, 0, 1, 0, 0, 0] = 2 ^ 256 := by decide
  have divisorValue : Limbs.value (fun _ : Fin 4 => 0xFFFFFFFFFFFFFFFF) = 2 ^ 256 - 1 := by
    decide
  have bounded : Limbs.value ![0, 0, 0, 0, 1, 0, 0, 0] <
      Limbs.value (fun _ : Fin 4 => 0xFFFFFFFFFFFFFFFF) * 2 ^ 256 := by
    rw [dividendValue, divisorValue]
    decide
  refine ⟨bounded, fun exact => ?_⟩
  have fits := (narrowDivide_exact_iff bounded (value_lt _)).1
    ((u512DivmodU256_exact_iff_narrow bounded).1 exact) 0
  rw [dividendValue, divisorValue] at fits
  revert fits
  decide

end Divmod

section Helpers

variable (a b : U256)

/-! The helpers on words of four limbs. -/

/-- The signed quotient is rounded towards zero. The smallest number divided by minus
one is itself again. -/
theorem toInt_sdivU256 : (toWord (sdivU256 a b)).toInt =
    if toWord a = BitVec.intMin 256 ∧ toWord b = -1 then (BitVec.intMin 256).toInt
    else (toWord a).toInt.tdiv (toWord b).toInt := by
  rw [toWord_sdivU256, Semantics.sdiv]
  by_cases zero : toWord b = 0
  · have notMinusOne : ¬(toWord a = BitVec.intMin 256 ∧ toWord b = -1) := by
      rintro ⟨-, minusOne⟩
      rw [zero] at minusOne
      exact absurd minusOne (by decide)
    rw [if_pos zero, if_neg notMinusOne, zero]
    exact (Int.tdiv_zero _).symm
  · rw [if_neg zero]
    by_cases overflow : toWord a = BitVec.intMin 256 ∧ toWord b = -1
    · rw [if_pos overflow, overflow.1, overflow.2]
      exact congrArg BitVec.toInt BitVec.intMin_sdiv_neg_one
    · rw [if_neg overflow]
      exact BitVec.toInt_sdiv_of_ne_or_ne _ _ (not_and_or.1 overflow)

/-- What the quotient leaves of the dividend is the remainder. -/
theorem quotientRemainder_fits : (computeRemainder a b (divU256 a b)).Fits fun remainder =>
    remainder.value = a.value % b.value := by
  refine (mulU256Low_fits (divU256 a b) b).bind fun product isProduct => .pure ?_
  have used : a.value / b.value * b.value ≤ a.value := Nat.div_mul_le_self _ _
  have fits : a.value / b.value * b.value < 2 ^ 256 := used.trans_lt a.value_lt
  rw [value_divU256, Nat.mod_eq_of_lt fits] at isProduct
  have whole := Nat.div_add_mod' a.value b.value
  rw [value_subU256_of_le (by omega)]
  omega

/-- Quotient, signed quotient, low product and remainder, on all pairs of words. -/
theorem wordHelpers_exact (a b : U256) :
    (divU256 a b).value = (if b.value = 0 then 0 else a.value / b.value) ∧
      (toWord (sdivU256 a b)).toInt =
        (if toWord a = BitVec.intMin 256 ∧ toWord b = -1 then (BitVec.intMin 256).toInt
          else if toWord b = 0 then 0
          else (toWord a).toInt.tdiv (toWord b).toInt) ∧
      ((mulU256Low a b).Fits fun product => product.value = a.value * b.value % 2 ^ 256) ∧
      ((computeRemainder a b (divU256 a b)).Fits fun remainder =>
        remainder.value = a.value % b.value) := by
  refine ⟨?_, ?_, mulU256Low_fits a b, quotientRemainder_fits a b⟩
  · rw [value_divU256]
    split_ifs with zero
    · rw [zero, Nat.div_zero]
    · rfl
  · rw [toInt_sdivU256]
    refine ite_congr rfl (fun _ => rfl) fun _ => ?_
    split_ifs with zero
    · rw [zero]
      exact Int.tdiv_zero _
    · rfl

end Helpers

end MetaVm.Evm
