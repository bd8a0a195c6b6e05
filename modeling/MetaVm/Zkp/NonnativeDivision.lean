import MetaVm.Zkp.NonnativeLimbs

namespace MetaVm.Zkp.Nonnative

open Evm Evm.Limbs LimbChain

variable {count : ℕ}

/-! Long division. -/

/-- The limbs of `src` at the end of a wider array. -/
def widened (src : BeLimbs 6) : BeLimbs 12 :=
  Vector.ofFn fun i => if 6 ≤ i.val then entry src (i - 6) else 0

def shiftedByLimbs (x : BeLimbs count) (limbShift : ℕ) : BeLimbs count :=
  Vector.ofFn fun i => entry x (i + limbShift)

def shiftedByBits (x : BeLimbs count) (bitShift : ℕ) : BeLimbs count :=
  Vector.ofFn fun i => entry x i <<< bitShift ||| entry x (i + 1) >>> (64 - bitShift)

/-- `src` shifted to the left by `s` bits: by whole limbs, then within the limbs. -/
def shiftLeft6Into12 (src : BeLimbs 6) (s : ℕ) : BeLimbs 12 :=
  let limbShift := s / 64
  let bitShift := s % 64
  let out := if 0 < limbShift then shiftedByLimbs (widened src) limbShift else widened src
  if 0 < bitShift then shiftedByBits out bitShift else out

/-- One bit of the quotient. Bit `s` stands at position `383 - s` of the array. -/
def divideBit (modulus : BeLimbs 6) (s : ℕ) (state : BeLimbs 12 × Vector (BitVec 8) 384) :
    BeLimbs 12 × Vector (BitVec 8) 384 :=
  let shifted := shiftLeft6Into12 modulus s
  if cmpBeSlice state.1 shifted ≠ .lt then
    ((subChain state.1 shifted).1, state.2.setIfInBounds (383 - s) 1)
  else state

/-- The bits of the quotient from the highest one down. -/
def divideBits (modulus : BeLimbs 6) :
    ℕ → BeLimbs 12 × Vector (BitVec 8) 384 → BeLimbs 12 × Vector (BitVec 8) 384
  | 0, state => state
  | s + 1, state => divideBits modulus s (divideBit modulus s state)

/-- Bits packed into limbs, the highest one first. -/
def packBits (quotBits : Vector (BitVec 8) 384) : BeLimbs 6 :=
  (List.range 384).foldl (fun (q : BeLimbs 6) i =>
    if entry quotBits i = 1 then
      q.setIfInBounds (i / 64) (entry q (i / 64) ||| 1 <<< (63 - i % 64))
    else q) (Vector.replicate 6 0)

def divmod12By6 (numerator : BeLimbs 12) (modulus : BeLimbs 6) : BeLimbs 6 × BeLimbs 6 :=
  let state := divideBits modulus 384 (numerator, Vector.replicate 384 0)
  (packBits state.2, Vector.ofFn fun i => entry state.1 (i + 6))

/-! Shifting. -/

theorem toNat_shiftLeft_or_shiftRight (x y : U64) {bits : ℕ} (inside : bits < 64) :
    (x <<< bits ||| y >>> (64 - bits)).toNat =
      x.toNat * 2 ^ bits % 2 ^ 64 + y.toNat / 2 ^ (64 - bits) := by
  have width : 2 ^ 64 = 2 ^ bits * 2 ^ (64 - bits) := by
    rw [← pow_add, Nat.add_sub_cancel' (Nat.le_of_lt inside)]
  have low : y.toNat / 2 ^ (64 - bits) < 2 ^ bits := by
    rw [Nat.div_lt_iff_lt_mul (Nat.two_pow_pos _), ← width]
    exact y.isLt
  have high : x.toNat * 2 ^ bits % 2 ^ 64 = 2 ^ bits * (x.toNat % 2 ^ (64 - bits)) := by
    rw [Nat.mul_comm, width, Nat.mul_mod_mul_left]
  rw [BitVec.toNat_or, BitVec.toNat_shiftLeft, BitVec.toNat_ushiftRight, Nat.shiftLeft_eq,
    Nat.shiftRight_eq_div_pow, high, Nat.two_pow_add_eq_or_of_lt low]

section Shift

variable (src : BeLimbs 6) {s : ℕ}

theorem digits_widened {k : ℕ} (inside : k < 12) :
    digits (widened src).reverse k = digits src.reverse k := by
  rw [digits_reverse _ inside, widened,
    digits_ofFn (fun i => if 6 ≤ i then entry src (i - 6) else 0) (by omega)]
  by_cases within : k < 6
  · rw [if_pos (by omega), digits_reverse _ within]
    exact congrArg (digits src) (by omega)
  · rw [if_neg (by omega), digits_of_le _ (by omega)]
    rfl

theorem digits_shiftedByLimbs (limbShift : ℕ) {k : ℕ} (inside : k < 12) :
    digits (shiftedByLimbs (widened src) limbShift).reverse k =
      if k < limbShift then 0 else digits src.reverse (k - limbShift) := by
  rw [digits_reverse _ inside, shiftedByLimbs,
    digits_ofFn (fun i => entry (widened src) (i + limbShift)) (by omega)]
  change digits (widened src) _ = _
  split
  · exact digits_of_le _ (by omega)
  · rw [← digits_widened src (by omega), digits_reverse _ (by omega)]
    exact congrArg (digits (widened src)) (by omega)

theorem number_shiftedByLimbs {limbShift : ℕ} (bounded : limbShift ≤ 6) :
    number (shiftedByLimbs (widened src) limbShift) = number src * (2 ^ 64) ^ limbShift := by
  have room : 12 = limbShift + (6 + (6 - limbShift)) := by omega
  rw [number_eq, number_eq,
    Digits.value_congr fun k inside => digits_shiftedByLimbs src limbShift inside]
  rw [room, Digits.value_shift, Digits.value_of_zeros]
  intro k above
  exact digits_of_le _ above

/-- What a limb takes over from the one below it. -/
def shiftCarry (x : BeLimbs count) (bits : ℕ) : ℕ → ℕ
  | 0 => 0
  | k + 1 => digits x.reverse k / 2 ^ (64 - bits)

theorem digits_shiftedByBits (x : BeLimbs count) {bits k : ℕ} (inside : bits < 64)
    (bound : k < count) :
    digits (shiftedByBits x bits).reverse k =
      digits x.reverse k * 2 ^ bits % 2 ^ 64 + shiftCarry x bits k := by
  rw [digits_reverse _ bound, shiftedByBits,
    digits_ofFn (fun i => entry x i <<< bits ||| entry x (i + 1) >>> (64 - bits)) (by omega),
    toNat_shiftLeft_or_shiftRight _ _ inside, digits_reverse _ bound]
  congr 1
  cases k with
  | zero =>
      have beyond : digits x (count - 1 - 0 + 1) = 0 := digits_of_le _ (by omega)
      change digits x _ / _ = 0
      rw [beyond, Nat.zero_div]
  | succ k =>
      rw [shiftCarry, digits_reverse _ (by omega)]
      exact congrArg (fun index => digits x index / 2 ^ (64 - bits)) (by omega)

theorem number_shiftedByBits (x : BeLimbs count) {bits : ℕ} (inside : bits < 64)
    (fits : number x * 2 ^ bits < (2 ^ 64) ^ count) :
    number (shiftedByBits x bits) = number x * 2 ^ bits := by
  have width : 2 ^ 64 = 2 ^ bits * 2 ^ (64 - bits) := by
    rw [← pow_add, Nat.add_sub_cancel' (Nat.le_of_lt inside)]
  have each : ∀ k < count, digits x.reverse k * 2 ^ bits + 0 + shiftCarry x bits k =
      digits (shiftedByBits x bits).reverse k + shiftCarry x bits (k + 1) * 2 ^ 64 := by
    intro k bound
    have top : digits x.reverse k / 2 ^ (64 - bits) =
        digits x.reverse k * 2 ^ bits / 2 ^ 64 := by
      rw [width, Nat.mul_comm (digits x.reverse k), Nat.mul_div_mul_left _ _ (Nat.two_pow_pos _)]
    have split := Nat.mod_add_div (digits x.reverse k * 2 ^ bits) (2 ^ 64)
    rw [digits_shiftedByBits x inside bound, shiftCarry, top]
    omega
  have balance := value_balance each
  have scaled : Digits.value (2 ^ 64) count (fun k => digits x.reverse k * 2 ^ bits) =
      number x * 2 ^ bits := by
    rw [number_eq, Digits.value, Digits.value, Finset.sum_mul]
    exact Finset.sum_congr rfl fun k _ => Nat.mul_right_comm _ _ _
  have zero : Digits.value (2 ^ 64) count (fun _ => 0) = 0 :=
    Finset.sum_eq_zero fun k _ => Nat.zero_mul _
  rw [scaled, zero, shiftCarry, Nat.add_zero, ← number_eq] at balance
  have noCarry : shiftCarry x bits count = 0 := by
    by_contra carry
    have large := Nat.mul_le_mul_right ((2 ^ 64) ^ count) (Nat.one_le_iff_ne_zero.2 carry)
    rw [Nat.one_mul] at large
    omega
  rw [noCarry, Nat.zero_mul, Nat.add_zero] at balance
  exact balance.symm

theorem shiftedByLimbs_zero (x : BeLimbs count) : shiftedByLimbs x 0 = x := by
  apply Vector.ext
  intro i inside
  rw [shiftedByLimbs, Vector.getElem_ofFn, Nat.add_zero, entry, dif_pos inside]

theorem number_shiftLeft6Into12 (bounded : s < 384) :
    number (shiftLeft6Into12 src s) = number src * 2 ^ s := by
  have place : (2 ^ 64) ^ (s / 64) * 2 ^ (s % 64) = 2 ^ s := by
    rw [← pow_mul, ← pow_add, Nat.div_add_mod]
  have byLimbs := number_shiftedByLimbs src (by omega : s / 64 ≤ 6)
  have shifted : (if 0 < s / 64 then shiftedByLimbs (widened src) (s / 64) else widened src) =
      shiftedByLimbs (widened src) (s / 64) := by
    split
    · rfl
    · rename_i none
      rw [Nat.eq_zero_of_not_pos none, shiftedByLimbs_zero]
  rw [shiftLeft6Into12, shifted]
  split
  · have fits : number (shiftedByLimbs (widened src) (s / 64)) * 2 ^ (s % 64) < (2 ^ 64) ^ 12 := by
      rw [byLimbs, Nat.mul_assoc, place]
      have power : 2 ^ s ≤ (2 ^ 64) ^ 6 :=
        (Nat.pow_le_pow_right (by decide) (by omega : s ≤ 64 * 6)).trans_eq (pow_mul 2 64 6)
      calc number src * 2 ^ s < (2 ^ 64) ^ 6 * 2 ^ s :=
            Nat.mul_lt_mul_of_pos_right (number_lt src) (Nat.two_pow_pos s)
        _ ≤ (2 ^ 64) ^ 6 * (2 ^ 64) ^ 6 := Nat.mul_le_mul_left _ power
        _ = (2 ^ 64) ^ 12 := (pow_add (2 ^ 64) 6 6).symm
    rw [number_shiftedByBits _ (Nat.mod_lt s (by decide)) fits, byLimbs, Nat.mul_assoc, place]
  · rename_i whole
    rw [byLimbs, ← place, show s % 64 = 0 by omega, pow_zero, Nat.mul_one]

end Shift

/-! The division loop. -/

section Division

variable {modulus : BeLimbs 6} {numerator : BeLimbs 12}

/-- The bit of the quotient with weight `2 ^ s`. -/
def quotBit (quotBits : Vector (BitVec 8) 384) (s : ℕ) : ℕ := (entry quotBits (383 - s)).toNat

/-- What the loop keeps when the bits below `s` are left to find. -/
structure Divides (modulus : BeLimbs 6) (numerator : BeLimbs 12) (s : ℕ)
    (state : BeLimbs 12 × Vector (BitVec 8) 384) : Prop where
  balance : Digits.value 2 384 (quotBit state.2) * number modulus + number state.1 =
    number numerator
  small : number state.1 < 2 ^ s * number modulus
  clear : ∀ t < s, quotBit state.2 t = 0
  binary : ∀ t < 384, quotBit state.2 t ≤ 1

theorem quotBit_set {quotBits : Vector (BitVec 8) 384} {s : ℕ} (inside : s < 384) {t : ℕ}
    (within : t < 384) :
    quotBit (quotBits.setIfInBounds (383 - s) 1) t =
      Function.update (quotBit quotBits) s 1 t := by
  rw [quotBit, entry_set _ (by omega)]
  by_cases here : t = s
  · rw [here, if_pos rfl, Function.update_self]
    rfl
  · rw [if_neg (by omega), Function.update_of_ne here, quotBit]

theorem Divides.divideBit {s : ℕ} (inside : s < 384)
    {state : BeLimbs 12 × Vector (BitVec 8) 384}
    (holds : Divides modulus numerator (s + 1) state) :
    Divides modulus numerator s (divideBit modulus s state) := by
  have shifted := number_shiftLeft6Into12 modulus inside
  have bound := holds.small
  rw [pow_succ] at bound
  rw [Nonnative.divideBit]
  split
  · rename_i reached
    rw [cmpBeSlice_eq, shifted, ne_eq, Nat.compare_eq_lt, Nat.not_lt] at reached
    have difference := number_subChain_of_le
      (a := state.1) (b := shiftLeft6Into12 modulus s) (by rw [shifted]; exact reached)
    rw [shifted] at difference
    have written : Digits.value 2 384 (quotBit (state.2.setIfInBounds (383 - s) 1)) =
        Digits.value 2 384 (quotBit state.2) + 2 ^ s := by
      have updated := @Digits.value_update 2 384 (quotBit state.2) s inside 1
      rw [holds.clear s (Nat.lt_succ_self s), Nat.zero_mul, Nat.add_zero, Nat.one_mul] at updated
      rw [← updated]
      exact Digits.value_congr fun t within => quotBit_set inside within
    refine ⟨?_, ?_, fun t below => ?_, fun t within => ?_⟩
    · have balance := holds.balance
      dsimp only
      rw [difference, written, Nat.add_mul, Nat.mul_comm (2 ^ s)]
      omega
    · dsimp only
      rw [difference, Nat.mul_comm (2 ^ s)]
      rw [Nat.mul_right_comm, Nat.mul_comm (2 ^ s)] at bound
      omega
    · dsimp only
      rw [quotBit_set inside (by omega), Function.update_of_ne (by omega)]
      exact holds.clear t (by omega)
    · dsimp only
      rw [quotBit_set inside within]
      by_cases here : t = s
      · rw [here, Function.update_self]
      · rw [Function.update_of_ne here]
        exact holds.binary t within
  · rename_i less
    rw [cmpBeSlice_eq, shifted, ne_eq, not_not, Nat.compare_eq_lt, Nat.mul_comm] at less
    exact ⟨holds.balance, less, fun t below => holds.clear t (by omega), holds.binary⟩

theorem Divides.divideBits {s : ℕ} (inside : s ≤ 384)
    {state : BeLimbs 12 × Vector (BitVec 8) 384}
    (holds : Divides modulus numerator s state) :
    Divides modulus numerator 0 (divideBits modulus s state) := by
  induction s generalizing state with
  | zero => exact holds
  | succ s hypothesis => exact hypothesis (by omega) (holds.divideBit (by omega))

/-- The bits above a position have been packed. -/
def Packed (quotBits : Vector (BitVec 8) 384) (i : ℕ) (q : BeLimbs 6) : Prop :=
  number q + Digits.value 2 (384 - i) (quotBit quotBits) =
      Digits.value 2 384 (quotBit quotBits) ∧
    number q % 2 ^ (384 - i) = 0

/-- Setting a bit of a limb below all that are set adds it. -/
theorem number_setBit {q : BeLimbs 6} {t : ℕ} (inside : t < 384)
    (clear : number q % 2 ^ (t + 1) = 0) :
    number (q.setIfInBounds (6 - 1 - t / 64)
        (entry q (6 - 1 - t / 64) ||| 1 <<< (t % 64))) = number q + 2 ^ t := by
  have limbInside : t / 64 < 6 := by omega
  have limbIs := limb_entry q limbInside
  have limbClear := limb_clear (q := lowFirst q) (by omega) clear
  apply value_add_bit (by omega : t < 64 * 6)
  funext k
  rw [limb_lowFirst, digits_reverse_set q limbInside]
  by_cases here : k = t / 64
  · rw [here, Function.update_self, Function.update_self, limbIs]
    rw [limbIs] at limbClear
    exact toNat_or_one_shiftLeft (Nat.mod_lt _ (by decide)) limbClear
  · rw [Function.update_of_ne here, Function.update_of_ne here, limb_lowFirst]

theorem number_packBits {quotBits : Vector (BitVec 8) 384}
    (binary : ∀ t < 384, quotBit quotBits t ≤ 1) :
    number (packBits quotBits) = Digits.value 2 384 (quotBit quotBits) := by
  have start : Packed quotBits 0 (Vector.replicate 6 0) := by
    have zero : number (Vector.replicate 6 0 : BeLimbs 6) = 0 := by with_unfolding_all decide
    rw [Packed, zero, Nat.zero_add]
    exact ⟨rfl, Nat.zero_mod _⟩
  have whole : Packed quotBits 384 (packBits quotBits) := by
    refine foldl_range_invariant start ?_
    rintro i inside q ⟨total, clear⟩
    -- The bit at position `i` of the array has the weight `2 ^ t`.
    obtain ⟨t, position⟩ : ∃ t, t = 383 - i := ⟨_, rfl⟩
    have index : i = 383 - t := by omega
    have remaining : 384 - i = t + 1 := by omega
    have next : 384 - (i + 1) = t := by omega
    rw [remaining, Digits.value_succ] at total
    rw [remaining] at clear
    have isBit : (entry quotBits i).toNat = quotBit quotBits t := by rw [index, quotBit]
    rw [Packed, next]
    by_cases isOne : entry quotBits i = 1
    · have bit : quotBit quotBits t = 1 := by
        rw [← isBit, isOne]
        rfl
      have set := number_setBit (by omega : t < 384) clear
      have limbIndex : 6 - 1 - t / 64 = i / 64 := by omega
      have bitIndex : t % 64 = 63 - i % 64 := by omega
      rw [limbIndex, bitIndex] at set
      rw [if_pos isOne, set]
      rw [bit] at total
      refine ⟨by omega, ?_⟩
      rw [Nat.add_mod_right]
      exact Nat.mod_eq_zero_of_dvd
        ((pow_dvd_pow 2 (Nat.le_succ t)).trans (Nat.dvd_of_mod_eq_zero clear))
    · have bit : quotBit quotBits t = 0 := by
        have atMost := binary t (by omega)
        have notOne : quotBit quotBits t ≠ 1 :=
          fun one => isOne (BitVec.eq_of_toNat_eq (isBit.trans one))
        omega
      rw [if_neg isOne]
      rw [bit] at total
      refine ⟨by omega, ?_⟩
      exact Nat.mod_eq_zero_of_dvd
        ((pow_dvd_pow 2 (Nat.le_succ t)).trans (Nat.dvd_of_mod_eq_zero clear))
  have total := whole.1
  rwa [Nat.sub_self, Digits.value, Finset.sum_range_zero, Nat.add_zero] at total

/-- The last six limbs hold a remainder that is small enough. -/
theorem number_lowHalf {rem : BeLimbs 12} (small : number rem < (2 ^ 64) ^ 6) :
    number (Vector.ofFn fun i : Fin 6 => entry rem (i + 6) : BeLimbs 6) = number rem := by
  have same : ∀ k < 6, digits (Vector.ofFn fun i : Fin 6 => entry rem (i + 6)).reverse k =
      digits rem.reverse k := by
    intro k inside
    rw [digits_reverse _ inside, digits_ofFn (fun i => entry rem (i + 6)) (by omega),
      digits_reverse _ (by omega)]
    exact congrArg (digits rem) (by omega)
  have low := Digits.value_mod_pow (by decide : 6 ≤ 12) fun k _ => digits_lt rem.reverse k
  rw [number_eq, Digits.value_congr same, ← low, ← number_eq, Nat.mod_eq_of_lt small]

/-- Long division, when the quotient has room. -/
theorem divmod12By6_eq (room : number numerator < 2 ^ 384 * number modulus) :
    number (divmod12By6 numerator modulus).1 = number numerator / number modulus ∧
      number (divmod12By6 numerator modulus).2 = number numerator % number modulus := by
  have noBits : ∀ t, quotBit (Vector.replicate 384 0) t = 0 := by
    intro t
    rw [quotBit, entry, dif_pos (by omega), Vector.getElem_replicate]
    rfl
  have start : Divides modulus numerator 384 (numerator, Vector.replicate 384 0) := by
    refine ⟨?_, room, fun t _ => noBits t, fun t _ => ?_⟩
    · rw [Digits.value_congr fun t _ => noBits t]
      have zero : Digits.value 2 384 (fun _ => 0) = 0 :=
        Finset.sum_eq_zero fun k _ => Nat.zero_mul _
      rw [zero, Nat.zero_mul, Nat.zero_add]
    · rw [noBits t]
      exact Nat.zero_le 1
  obtain ⟨balance, small, -, binary⟩ := start.divideBits le_rfl
  rw [pow_zero, Nat.one_mul] at small
  have narrow : number (divideBits modulus 384 (numerator, Vector.replicate 384 0)).1 <
      (2 ^ 64) ^ 6 := small.trans (number_lt modulus)
  rw [divmod12By6]
  dsimp only
  rw [number_packBits binary, number_lowHalf narrow]
  rw [Nat.mul_comm, Nat.add_comm] at balance
  obtain ⟨quotient, remainder⟩ :=
    (Nat.div_mod_unique (Nat.zero_lt_of_lt small)).2 ⟨balance, small⟩
  exact ⟨quotient.symm, remainder.symm⟩

end Division

end MetaVm.Zkp.Nonnative
