import MetaVm.Evm.WordArith

namespace MetaVm.Evm

open Limbs LimbChain

/-! Long division, bit by bit, with the remainder in one word. -/

/-- `w` shifted to the left by one, with `bit` moved in at the bottom. -/
def shiftLeftOne (w : U256) (bit : U64) : U256 :=
  ![w 0 <<< 1 ||| bit, w 1 <<< 1 ||| w 0 >>> 63, w 2 <<< 1 ||| w 1 >>> 63,
    w 3 <<< 1 ||| w 2 >>> 63]

def bitAt {count : ℕ} (dividend : Limbs count) (bit : ℕ) : ℕ :=
  (dividend.limb (bit / 64) >>> (bit % 64)) &&& 1

/-- `q[bit / 64] |= 1 << (bit % 64)`. -/
def setBit (q : U256) (bit : ℕ) : U256 := fun k =>
  if k.val = bit / 64 then q k ||| (1 : U64) <<< (bit % 64) else q k

/-- One bit of the quotient and the remainder. Bits from 256 on find no place in
the quotient. -/
def divideBit {count : ℕ} (dividend : Limbs count) (divisor : U256) (bit : ℕ)
    (state : U256 × U256) : U256 × U256 :=
  let rem := shiftLeftOne state.2 (BitVec.ofNat 64 (bitAt dividend bit))
  if ltU256 rem divisor then (state.1, rem)
  else (if bit < 256 then setBit state.1 bit else state.1, subU256 rem divisor)

/-- The bits of the dividend from the highest one down. -/
def divideBits {count : ℕ} (dividend : Limbs count) (divisor : U256) :
    ℕ → U256 × U256 → U256 × U256
  | 0, state => state
  | bit + 1, state => divideBits dividend divisor bit (divideBit dividend divisor bit state)

def divU256 (a b : U256) : U256 :=
  if b = 0 then 0 else (divideBits a b 256 (0, 0)).1

def u512DivmodU256 (dividend : Limbs 8) (divisor : U256) : U256 × U256 :=
  if divisor = 0 then (0, 0) else divideBits dividend divisor 512 (0, 0)

/-! The same division on numbers. -/

/-- Long division that keeps 256 bits of the remainder. -/
def narrowBit (dividend divisor bit : ℕ) (state : ℕ × ℕ) : ℕ × ℕ :=
  let rem := (2 * state.2 + dividend / 2 ^ bit % 2) % 2 ^ 256
  if rem < divisor then (state.1, rem)
  else (if bit < 256 then state.1 + 2 ^ bit else state.1, rem - divisor)

def narrowDivide (dividend divisor : ℕ) : ℕ → ℕ × ℕ → ℕ × ℕ
  | 0, state => state
  | bit + 1, state => narrowDivide dividend divisor bit (narrowBit dividend divisor bit state)

section Bits

theorem value_four (w : U256) :
    w.value = (w 0).toNat + (w 1).toNat * 2 ^ 64 + (w 2).toNat * 2 ^ 128 +
      (w 3).toNat * 2 ^ 192 := by
  have each := w.limb_fin
  have l0 := each 0
  have l1 := each 1
  have l2 := each 2
  have l3 := each 3
  simp only [Fin.val_zero, Fin.val_one, Fin.val_two] at l0 l1 l2
  rw [show ((3 : Fin 4) : ℕ) = 3 from rfl] at l3
  simp only [Limbs.value, Digits.value_succ, l0, l1, l2, l3]
  simp only [Digits.value, Finset.range_zero, Finset.sum_empty, ← pow_mul]
  ring

theorem toNat_shiftLeft_or (x y : U64) :
    (x <<< 1 ||| y >>> 63).toNat = 2 * x.toNat % 2 ^ 64 + y.toNat / 2 ^ 63 := by
  have yLt := y.isLt
  have top : y.toNat / 2 ^ 63 < 2 ^ 1 := by omega
  have even : 2 * x.toNat % 2 ^ 64 = 2 ^ 1 * (x.toNat % 2 ^ 63) := by omega
  rw [BitVec.toNat_or, BitVec.toNat_shiftLeft, BitVec.toNat_ushiftRight,
    Nat.shiftLeft_eq, Nat.shiftRight_eq_div_pow, Nat.mul_comm, pow_one, even,
    Nat.two_pow_add_eq_or_of_lt top]

theorem toNat_shiftLeft_or_bit (x : U64) {bit : ℕ} (binary : bit < 2) :
    (x <<< 1 ||| BitVec.ofNat 64 bit).toNat = 2 * x.toNat % 2 ^ 64 + bit := by
  have even : 2 * x.toNat % 2 ^ 64 = 2 ^ 1 * (x.toNat % 2 ^ 63) := by omega
  rw [BitVec.toNat_or, BitVec.toNat_shiftLeft, BitVec.toNat_ofNat, Nat.shiftLeft_eq,
    Nat.mul_comm, pow_one, even, Nat.mod_eq_of_lt (by omega : bit < 2 ^ 64),
    Nat.two_pow_add_eq_or_of_lt (by omega : bit < 2 ^ 1)]

theorem value_shiftLeftOne (w : U256) {bit : ℕ} (binary : bit < 2) :
    (shiftLeftOne w (BitVec.ofNat 64 bit)).value = (2 * w.value + bit) % 2 ^ 256 := by
  have w0 := (w 0).isLt
  have w1 := (w 1).isLt
  have w2 := (w 2).isLt
  have w3 := (w 3).isLt
  rw [value_four, value_four]
  have l0 : (shiftLeftOne w (BitVec.ofNat 64 bit) 0).toNat =
      2 * (w 0).toNat % 2 ^ 64 + bit := toNat_shiftLeft_or_bit _ binary
  have l1 : (shiftLeftOne w (BitVec.ofNat 64 bit) 1).toNat =
      2 * (w 1).toNat % 2 ^ 64 + (w 0).toNat / 2 ^ 63 := toNat_shiftLeft_or _ _
  have l2 : (shiftLeftOne w (BitVec.ofNat 64 bit) 2).toNat =
      2 * (w 2).toNat % 2 ^ 64 + (w 1).toNat / 2 ^ 63 := toNat_shiftLeft_or _ _
  have l3 : (shiftLeftOne w (BitVec.ofNat 64 bit) 3).toNat =
      2 * (w 3).toNat % 2 ^ 64 + (w 2).toNat / 2 ^ 63 := toNat_shiftLeft_or _ _
  rw [l0, l1, l2, l3]
  omega

theorem bitAt_eq {count : ℕ} (dividend : Limbs count) {bit : ℕ} (inside : bit < 64 * count) :
    bitAt dividend bit = dividend.value / 2 ^ bit % 2 := by
  have position : 64 * (bit / 64) + bit % 64 = bit := Nat.div_add_mod bit 64
  have limbInside : bit / 64 < count := by omega
  have width : 2 ^ 64 = 2 ^ (bit % 64) * (2 * 2 ^ (63 - bit % 64)) := by
    rw [← pow_succ', ← pow_add]
    congr 1
    omega
  have place : (2 ^ 64) ^ (bit / 64) * 2 ^ (bit % 64) = 2 ^ bit := by
    rw [← pow_mul, ← pow_add, position]
  have low : ∀ x : ℕ, x % 2 ^ 64 / 2 ^ (bit % 64) % 2 = x / 2 ^ (bit % 64) % 2 := by
    intro x
    rw [width, Nat.mod_mul_right_div_self, Nat.mod_mul_right_mod]
  rw [bitAt, limb_eq_value _ limbInside, Nat.and_one_is_mod, Nat.shiftRight_eq_div_pow, low,
    Nat.div_div_eq_div_mul, place]

theorem bitAt_lt_two {count : ℕ} (dividend : Limbs count) (bit : ℕ) :
    bitAt dividend bit < 2 := by
  rw [bitAt, Nat.and_one_is_mod]
  exact Nat.mod_lt _ (by decide)

/-- Setting a bit below all that are set adds it. -/
theorem toNat_or_one_shiftLeft {x : U64} {bit : ℕ} (inside : bit < 64)
    (clear : x.toNat % 2 ^ (bit + 1) = 0) :
    (x ||| (1 : U64) <<< bit).toNat = x.toNat + 2 ^ bit := by
  have power : 2 ^ bit < 2 ^ 64 := Nat.pow_lt_pow_right (by decide) inside
  have split : x.toNat = 2 ^ (bit + 1) * (x.toNat / 2 ^ (bit + 1)) := by
    have := Nat.div_add_mod x.toNat (2 ^ (bit + 1))
    omega
  have below : 2 ^ bit < 2 ^ (bit + 1) := Nat.pow_lt_pow_right (by decide) (Nat.lt_succ_self _)
  have one : (1 : U64).toNat = 1 := rfl
  rw [BitVec.toNat_or, BitVec.toNat_shiftLeft, one, Nat.shiftLeft_eq, Nat.one_mul,
    Nat.mod_eq_of_lt power, split, Nat.two_pow_add_eq_or_of_lt below]

/-- The limb of a bit ends in zeros up to the bit when the number does. -/
theorem limb_clear {count : ℕ} {q : Limbs count} {bit : ℕ} (inside : bit < 64 * count)
    (clear : q.value % 2 ^ (bit + 1) = 0) : q.limb (bit / 64) % 2 ^ (bit % 64 + 1) = 0 := by
  have position : 64 * (bit / 64) + bit % 64 = bit := Nat.div_add_mod bit 64
  have limbInside : bit / 64 < count := by omega
  have divides : 2 ^ (bit + 1) ∣ q.value := Nat.dvd_of_mod_eq_zero clear
  obtain ⟨factor, isProduct⟩ := divides
  have power : 2 ^ (bit + 1) = (2 ^ 64) ^ (bit / 64) * 2 ^ (bit % 64 + 1) := by
    rw [← pow_mul, ← pow_add]
    congr 1
    omega
  have width : 2 ^ 64 = 2 ^ (bit % 64 + 1) * 2 ^ (63 - bit % 64) := by
    rw [← pow_add]
    congr 1
    omega
  rw [limb_eq_value q limbInside, isProduct, power, Nat.mul_assoc,
    Nat.mul_div_cancel_left _ (by positivity), width, Nat.mod_mul_right_mod,
    Nat.mul_mod_right]

/-- A bit added to its limb is added to the number. -/
theorem value_add_bit {count : ℕ} {q written : Limbs count} {bit : ℕ}
    (inside : bit < 64 * count)
    (limbs : written.limb =
      Function.update q.limb (bit / 64) (q.limb (bit / 64) + 2 ^ (bit % 64))) :
    written.value = q.value + 2 ^ bit := by
  have limbInside : bit / 64 < count := by omega
  have place : (2 ^ 64) ^ (bit / 64) * 2 ^ (bit % 64) = 2 ^ bit := by
    rw [← pow_mul, ← pow_add, Nat.div_add_mod]
  have updated : written.value + q.limb (bit / 64) * (2 ^ 64) ^ (bit / 64) =
      q.value + (q.limb (bit / 64) + 2 ^ (bit % 64)) * (2 ^ 64) ^ (bit / 64) := by
    rw [Limbs.value, limbs]
    exact Digits.value_update limbInside _
  rw [Nat.add_mul, Nat.mul_comm (2 ^ (bit % 64)), place] at updated
  omega

theorem value_setBit {q : U256} {bit : ℕ} (inside : bit < 256)
    (clear : q.value % 2 ^ (bit + 1) = 0) :
    (setBit q bit).value = q.value + 2 ^ bit := by
  have limbInside : bit / 64 < 4 := by omega
  have limbClear := limb_clear inside clear
  apply value_add_bit inside
  funext k
  by_cases here : k = bit / 64
  · subst here
    rw [Function.update_self, limb, limb, dif_pos limbInside, dif_pos limbInside, setBit,
      if_pos rfl]
    rw [limb, dif_pos limbInside] at limbClear
    exact toNat_or_one_shiftLeft (Nat.mod_lt _ (by decide)) limbClear
  · rw [Function.update_of_ne here, limb, limb]
    split
    · rw [setBit, if_neg here]
    · rfl

end Bits

section Loop

variable {count : ℕ} {dividend : Limbs count} {divisor : U256}

/-- The values of a state, whose quotient has no bit below `bits`. -/
structure Represents (bits : ℕ) (state : U256 × U256) (values : ℕ × ℕ) : Prop where
  quotient : state.1.value = values.1
  remainder : state.2.value = values.2
  clear : values.1 % 2 ^ bits = 0

theorem Represents.divideBit {bit : ℕ} {state : U256 × U256} {values : ℕ × ℕ}
    (inside : bit < 64 * count) (same : Represents (bit + 1) state values) :
    Represents bit (divideBit dividend divisor bit state)
      (narrowBit dividend.value divisor.value bit values) := by
  obtain ⟨quotient, remainder, clear⟩ := same
  have lower : values.1 % 2 ^ bit = 0 := by
    have divides : 2 ^ bit ∣ 2 ^ (bit + 1) := Nat.pow_dvd_pow 2 (Nat.le_succ bit)
    exact Nat.mod_eq_zero_of_dvd (divides.trans (Nat.dvd_of_mod_eq_zero clear))
  have shifted := value_shiftLeftOne state.2 (bitAt_lt_two dividend bit)
  rw [bitAt_eq dividend inside, remainder] at shifted
  have compare := ltU256_iff
    (shiftLeftOne state.2 (BitVec.ofNat 64 (dividend.value / 2 ^ bit % 2))) divisor
  rw [Evm.divideBit, narrowBit, bitAt_eq dividend inside]
  rw [shifted] at compare
  by_cases less : (2 * values.2 + dividend.value / 2 ^ bit % 2) % 2 ^ 256 < divisor.value
  · rw [if_pos (compare.2 less), if_pos less]
    exact ⟨quotient, shifted, lower⟩
  · have notLess : ¬ ltU256 (shiftLeftOne state.2
        (BitVec.ofNat 64 (dividend.value / 2 ^ bit % 2))) divisor = true :=
      fun isLess => less (compare.1 isLess)
    rw [if_neg notLess, if_neg less]
    have notLarger : divisor.value ≤
        (shiftLeftOne state.2 (BitVec.ofNat 64 (dividend.value / 2 ^ bit % 2))).value := by
      rw [shifted]
      exact Nat.not_lt.1 less
    have difference := value_subU256_of_le notLarger
    rw [shifted] at difference
    by_cases fits : bit < 256
    · rw [if_pos fits, if_pos fits]
      refine ⟨?_, difference, ?_⟩
      · rw [← quotient] at clear
        show (setBit state.1 bit).value = values.1 + 2 ^ bit
        rw [value_setBit fits clear, quotient]
      · show (values.1 + 2 ^ bit) % 2 ^ bit = 0
        rw [Nat.add_mod_right, lower]
    · rw [if_neg fits, if_neg fits]
      exact ⟨quotient, difference, lower⟩

theorem Represents.divideBits {bits : ℕ} {state : U256 × U256} {values : ℕ × ℕ}
    (inside : bits ≤ 64 * count) (same : Represents bits state values) :
    Represents 0 (divideBits dividend divisor bits state)
      (narrowDivide dividend.value divisor.value bits values) := by
  induction bits generalizing state values with
  | zero => exact same
  | succ bit hypothesis =>
      rw [Evm.divideBits, narrowDivide]
      exact hypothesis (Nat.le_of_succ_le inside) (same.divideBit inside)

theorem represents_zero (bits : ℕ) : Represents bits (0, 0) (0, 0) where
  quotient := value_eq_zero_iff.2 rfl
  remainder := value_eq_zero_iff.2 rfl
  clear := Nat.zero_mod _

end Loop

/-! Without a bit lost, the narrow division is division. -/

/-- The remainder never outgrows its 256 bits. -/
def RemainderFits (dividend divisor : ℕ) : Prop :=
  ∀ bit, 2 * (dividend / 2 ^ (bit + 1) % divisor) + dividend / 2 ^ bit % 2 < 2 ^ 256

section Exact

variable {dividend divisor : ℕ}

/-- The quotient and remainder of the bits of the dividend from `bits` on. -/
def dividedBits (dividend divisor bits : ℕ) : ℕ × ℕ :=
  (dividend / 2 ^ bits / divisor * 2 ^ bits % 2 ^ 256, dividend / 2 ^ bits % divisor)

/-- The next bit of a quotient goes below those that are there. -/
theorem quotient_add_bit (q bit : ℕ) :
    (if bit < 256 then q * 2 ^ (bit + 1) % 2 ^ 256 + 2 ^ bit
      else q * 2 ^ (bit + 1) % 2 ^ 256) = (2 * q + 1) * 2 ^ bit % 2 ^ 256 := by
  have shifted : (2 * q + 1) * 2 ^ bit = q * 2 ^ (bit + 1) + 2 ^ bit := by
    rw [pow_succ]
    ring
  rw [shifted]
  split
  · rename_i inside
    have modulus : 2 ^ 256 = 2 ^ (bit + 1) * 2 ^ (255 - bit) := by
      rw [← pow_add]
      congr 1
      omega
    have low : q * 2 ^ (bit + 1) % 2 ^ 256 =
        2 ^ (bit + 1) * (q % 2 ^ (255 - bit)) := by
      rw [modulus, Nat.mul_comm q, Nat.mul_mod_mul_left]
    have below : 2 ^ (bit + 1) * (q % 2 ^ (255 - bit)) + 2 ^ bit < 2 ^ 256 := by
      have last : q % 2 ^ (255 - bit) + 1 ≤ 2 ^ (255 - bit) :=
        Nat.mod_lt _ (Nat.two_pow_pos _)
      have bound := Nat.mul_le_mul_left (2 ^ (bit + 1)) last
      have half : 2 ^ bit < 2 ^ (bit + 1) :=
        Nat.pow_lt_pow_right (by decide) (Nat.lt_succ_self _)
      rw [modulus]
      rw [Nat.mul_add, Nat.mul_one] at bound
      omega
    rw [← Nat.mod_add_mod, low, Nat.mod_eq_of_lt below]
  · rename_i outside
    have divides : 2 ^ 256 ∣ 2 ^ bit := Nat.pow_dvd_pow 2 (Nat.not_lt.1 outside)
    obtain ⟨factor, isProduct⟩ := divides
    rw [isProduct, Nat.add_mul_mod_self_left]

theorem narrowBit_exact (positive : 0 < divisor) {bit : ℕ}
    (small : 2 * (dividend / 2 ^ (bit + 1) % divisor) + dividend / 2 ^ bit % 2 < 2 ^ 256) :
    narrowBit dividend divisor bit (dividedBits dividend divisor (bit + 1)) =
      dividedBits dividend divisor bit := by
  have next : dividend / 2 ^ bit = 2 * (dividend / 2 ^ (bit + 1)) + dividend / 2 ^ bit % 2 := by
    rw [pow_succ, ← Nat.div_div_eq_div_mul, Nat.div_add_mod]
  have split := Nat.div_add_mod (dividend / 2 ^ (bit + 1)) divisor
  have below := Nat.mod_lt (dividend / 2 ^ (bit + 1)) positive
  have binary := Nat.mod_lt (dividend / 2 ^ bit) Nat.two_pos
  rw [narrowBit, dividedBits, dividedBits]
  rw [Nat.mod_eq_of_lt small]
  generalize dividend / 2 ^ (bit + 1) / divisor = q at *
  generalize dividend / 2 ^ (bit + 1) % divisor = r at *
  generalize dividend / 2 ^ (bit + 1) = upper at *
  generalize dividend / 2 ^ bit % 2 = last at *
  subst split
  have value : dividend / 2 ^ bit = 2 * r + last + divisor * (2 * q) := by
    rw [next]
    ring
  by_cases less : 2 * r + last < divisor
  · rw [if_pos less, value, Nat.add_mul_div_left _ _ positive, Nat.add_mul_mod_self_left,
      Nat.div_eq_of_lt less, Nat.mod_eq_of_lt less, pow_succ]
    ring_nf
  · have wrapped : 2 * r + last - divisor < divisor := by omega
    have value' : dividend / 2 ^ bit =
        (2 * r + last - divisor) + divisor * (2 * q + 1) := by
      have whole : 2 * r + last - divisor + divisor = 2 * r + last :=
        Nat.sub_add_cancel (Nat.not_lt.1 less)
      rw [value]
      linear_combination -whole
    rw [if_neg less, value', Nat.add_mul_div_left _ _ positive, Nat.add_mul_mod_self_left,
      Nat.div_eq_of_lt wrapped, Nat.mod_eq_of_lt wrapped, Nat.zero_add, quotient_add_bit]

theorem narrowDivide_exact (positive : 0 < divisor) (fits : RemainderFits dividend divisor)
    (bits : ℕ) :
    narrowDivide dividend divisor bits (dividedBits dividend divisor bits) =
      (dividend / divisor % 2 ^ 256, dividend % divisor) := by
  induction bits with
  | zero => simp [narrowDivide, dividedBits]
  | succ bit hypothesis =>
      rw [narrowDivide, narrowBit_exact positive (fits bit), hypothesis]

end Exact

section Quotients

variable (a b : U256)

theorem value_divU256 : (divU256 a b).value = a.value / b.value := by
  rw [divU256]
  split
  · rename_i zero
    have bZero := value_eq_zero_iff.2 zero
    rw [bZero, Nat.div_zero]
    exact value_eq_zero_iff.2 rfl
  · rename_i nonzero
    have positive : 0 < b.value :=
      Nat.pos_of_ne_zero fun zero => nonzero (value_eq_zero_iff.1 zero)
    have aLt : a.value < 2 ^ 256 := a.value_lt
    have fits : RemainderFits a.value b.value := by
      intro bit
      have upper : a.value / 2 ^ (bit + 1) < 2 ^ 255 := by
        have power : 2 ^ 256 ≤ 2 ^ 255 * 2 ^ (bit + 1) := by
          rw [← pow_add]
          exact Nat.pow_le_pow_right (by decide) (by omega)
        rw [Nat.div_lt_iff_lt_mul (Nat.two_pow_pos _)]
        exact lt_of_lt_of_le aLt power
      have := Nat.mod_le (a.value / 2 ^ (bit + 1)) b.value
      omega
    have start : dividedBits a.value b.value 256 = (0, 0) := by
      rw [dividedBits, Nat.div_eq_of_lt aLt]
      simp
    have exactly := narrowDivide_exact positive fits 256
    have loop : Represents 0 (divideBits a b 256 (0, 0))
        (narrowDivide a.value b.value 256 (0, 0)) :=
      (represents_zero 256).divideBits (by omega)
    rw [start] at exactly
    rw [exactly] at loop
    rw [loop.quotient]
    exact Nat.mod_eq_of_lt (lt_of_le_of_lt (Nat.div_le_self _ _) aLt)

/-- The rounds of `!val + carry`. -/
def negateRounds (val : U256) (k carry : ℕ) : ℕ × ℕ :=
  overflowingAdd (2 ^ 64 - 1 - val.limb k) carry

def negateU256 (val : U256) : U256 := ofDigits (loopLimb (negateRounds val) 1)

/-- The quotient of the magnitudes, with the sign of the signed quotient. -/
def sdivU256 (a b : U256) : U256 :=
  if b = 0 then 0
  else
    let aNeg := (a 3).msb
    let bNeg := (b 3).msb
    let absA := if aNeg then negateU256 a else a
    let absB := if bNeg then negateU256 b else b
    let q := divU256 absA absB
    if aNeg != bNeg then negateU256 q else q

theorem negateRound_balance (k : ℕ) :
    (2 ^ 64 - 1 - a.limb k) + 0 + loopCarry (negateRounds a) 1 k =
        loopLimb (negateRounds a) 1 k + loopCarry (negateRounds a) 1 (k + 1) * 2 ^ 64 ∧
      loopLimb (negateRounds a) 1 k < 2 ^ 64 := by
  rw [loopCarry_succ, loopLimb, negateRounds, overflowingAdd]
  omega

theorem value_negateU256 :
    (negateU256 a).value = (2 ^ 256 - a.value) % 2 ^ 256 := by
  have small : ∀ k < 4, loopLimb (negateRounds a) 1 k < 2 ^ 64 :=
    fun k _ => (negateRound_balance a k).2
  let complement := fun k => 2 ^ 64 - 1 - a.limb k
  have total : Digits.value (2 ^ 64) 4 complement + Digits.value (2 ^ 64) 4 (fun _ => 0) + 1 =
      Digits.value (2 ^ 64) 4 (loopLimb (negateRounds a) 1) +
        loopCarry (negateRounds a) 1 4 * (2 ^ 64) ^ 4 :=
    value_balance fun k _ => (negateRound_balance a k).1
  have whole : a.value + Digits.value (2 ^ 64) 4 complement + 0 =
      Digits.value (2 ^ 64) 4 (fun _ => 2 ^ 64 - 1) + 0 * (2 ^ 64) ^ 4 := by
    refine @value_balance _ _ _ _ _ (fun _ => 0) fun k _ => ?_
    have := a.limb_lt k
    simp only [complement]
    omega
  have zero : Digits.value (2 ^ 64) 4 (fun _ => 0) = 0 := by simp [Digits.value]
  have ones : Digits.value (2 ^ 64) 4 (fun _ => 2 ^ 64 - 1) = 2 ^ 256 - 1 := by
    norm_num [Digits.value, Finset.sum_range_succ]
  have below : (negateU256 a).value < (2 ^ 64) ^ 4 := value_lt _
  have aLt : a.value < (2 ^ 64) ^ 4 := value_lt _
  rw [negateU256, value_ofDigits small] at below ⊢
  rw [zero] at total
  rw [ones] at whole
  omega

end Quotients

end MetaVm.Evm
