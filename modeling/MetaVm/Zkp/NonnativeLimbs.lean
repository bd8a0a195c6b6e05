import MetaVm.Evm.WordDivision

namespace MetaVm.Zkp.Nonnative

open Evm Evm.Limbs LimbChain

/-! Numbers as arrays of 64-bit limbs, the highest one first. -/

abbrev BeLimbs (count : ℕ) : Type := Vector U64 count

variable {count : ℕ}

/-- What an array holds at an index, zero beyond its end. -/
def entry {α : Type} [Zero α] (x : Vector α count) (k : ℕ) : α :=
  if inside : k < count then x[k] else 0

def digits (x : Vector U64 count) (k : ℕ) : ℕ := (entry x k).toNat

/-- The limbs from the lowest one up. -/
def lowFirst (x : BeLimbs count) : Limbs count := x.reverse.get

/-- The array whose limbs, from the lowest one up, are the digits. -/
def ofLow (digit : ℕ → ℕ) : BeLimbs count :=
  (Vector.ofFn fun k : Fin count => BitVec.ofNat 64 (digit k)).reverse

def number (x : BeLimbs count) : ℕ := (lowFirst x).value

/-! Carry chains, from the last limb of the arrays to the first. -/

/-- What an addition or a subtraction leaves, and the carry out of it. -/
def chain (rounds : ℕ → ℕ → ℕ × ℕ) : BeLimbs count × ℕ :=
  (ofLow (loopLimb rounds 0), loopCarry rounds 0 count)

/-- The carries out of each limb, from the lowest one up, and the last one again. -/
def carries (rounds : ℕ → ℕ → ℕ × ℕ) : Vector U64 7 :=
  Vector.ofFn fun k => BitVec.ofNat 64 (loopCarry rounds 0 (min (k + 1) 6))

/-- `a + b` and the carry out of it. -/
def addChain (a b : BeLimbs count) : BeLimbs count × ℕ :=
  chain (addRounds (lowFirst a) (lowFirst b))

/-- `a - b` and the borrow out of it. -/
def subChain (a b : BeLimbs count) : BeLimbs count × ℕ :=
  chain (subRounds (lowFirst a) (lowFirst b))

def sub6 (a b : BeLimbs 6) : BeLimbs 6 × ℕ := subChain a b

/-- The last limbs of two arrays, compared from the first of them on. -/
def cmpLimbs (a b : Limbs count) : ℕ → Ordering
  | 0 => .eq
  | k + 1 => (compare (a.limb k) (b.limb k)).then (cmpLimbs a b k)

def cmpBeSlice (a b : BeLimbs count) : Ordering := cmpLimbs (lowFirst a) (lowFirst b) count

/-! Products. -/

/-- `a * b + c + carry`, as its low and its high half. -/
def mulAddU64 (a b c carry : U64) : U64 × U64 :=
  let wide : BitVec 128 :=
    a.setWidth 128 * b.setWidth 128 + c.setWidth 128 + carry.setWidth 128
  (wide.setWidth 64, (wide >>> 64).setWidth 64)

/-- A limb of one factor times the other factor, added to the product at position `i`. -/
def mulRow (x : U64) (bLe : Vector U64 6) (i : ℕ) (prodLe : Vector U64 12) :
    Vector U64 12 × U64 :=
  (List.range 6).foldl (fun (state : Vector U64 12 × U64) j =>
    let sum := mulAddU64 x (entry bLe j) (entry state.1 (i + j)) state.2
    (state.1.setIfInBounds (i + j) sum.1, sum.2)) (prodLe, 0)

/-- The product of two arrays with the lowest limb first. -/
def mulLe (aLe bLe : Vector U64 6) : Vector U64 12 :=
  (List.range 6).foldl (fun prodLe i =>
    let row := mulRow (entry aLe i) bLe i prodLe
    row.1.setIfInBounds (i + 6) row.2) (Vector.replicate 12 0)

def mul6By6Be (a b : BeLimbs 6) : BeLimbs 12 := (mulLe a.reverse b.reverse).reverse

/-! Arrays as numbers. -/

section Digits

variable (x : Vector U64 count) {digit : ℕ → ℕ} {k : ℕ}

theorem digits_lt (k : ℕ) : digits x k < 2 ^ 64 := (entry x k).isLt

theorem digits_of_lt (inside : k < count) : digits x k = (x[k]).toNat := by
  rw [digits, entry, dif_pos inside]

theorem digits_of_le (outside : count ≤ k) : digits x k = 0 := by
  rw [digits, entry, dif_neg (Nat.not_lt.2 outside)]
  rfl

theorem digits_reverse (inside : k < count) : digits x.reverse k = digits x (count - 1 - k) := by
  rw [digits_of_lt _ inside, digits_of_lt _ (by omega), Vector.getElem_reverse]

theorem digits_ofFn (f : ℕ → U64) (inside : k < count) :
    digits (Vector.ofFn fun i : Fin count => f i) k = (f k).toNat := by
  rw [digits_of_lt _ inside, Vector.getElem_ofFn]

theorem entry_set {α : Type} [Zero α] (x : Vector α count) {i : ℕ} (inside : i < count)
    (val : α) (k : ℕ) :
    entry (x.setIfInBounds i val) k = if k = i then val else entry x k := by
  rw [entry]
  split
  · rename_i within
    rw [Vector.getElem_setIfInBounds, entry, dif_pos within]
    by_cases here : i = k
    · rw [if_pos here, if_pos here.symm]
    · rw [if_neg here, if_neg (Ne.symm here)]
  · rename_i beyond
    rw [if_neg (by omega), entry, dif_neg beyond]

theorem digits_set {i : ℕ} (inside : i < count) (val : U64) :
    digits (x.setIfInBounds i val) = Function.update (digits x) i val.toNat := by
  funext k
  rw [digits, entry_set x inside]
  by_cases here : k = i
  · rw [if_pos here, here, Function.update_self]
  · rw [if_neg here, Function.update_of_ne here, digits]

theorem digits_reverse_set {position : ℕ} (inside : position < count) (val : U64) :
    digits (x.setIfInBounds (count - 1 - position) val).reverse =
      Function.update (digits x.reverse) position val.toNat := by
  funext k
  by_cases within : k < count
  · rw [digits_reverse _ within, digits_set x (by omega)]
    by_cases here : k = position
    · rw [here, Function.update_self, Function.update_self]
    · rw [Function.update_of_ne (by omega), Function.update_of_ne here, digits_reverse _ within]
  · rw [digits_of_le _ (Nat.le_of_not_lt within), Function.update_of_ne (by omega),
      digits_of_le _ (Nat.le_of_not_lt within)]

theorem limb_lowFirst (k : ℕ) : (lowFirst x).limb k = digits x.reverse k := by
  rw [limb]
  split
  · rename_i inside
    rw [digits_of_lt _ inside]
    rfl
  · rename_i outside
    rw [digits_of_le _ (Nat.le_of_not_lt outside)]

theorem limb_entry {position : ℕ} (inside : position < count) :
    (lowFirst x).limb position = (entry x (count - 1 - position)).toNat := by
  rw [limb_lowFirst, digits_reverse _ inside, digits]

theorem number_eq : number x = Digits.value (2 ^ 64) count (digits x.reverse) :=
  Digits.value_congr fun k _ => limb_lowFirst x k

theorem number_lt : number x < (2 ^ 64) ^ count := (lowFirst x).value_lt

theorem number_ofLow (small : ∀ k < count, digit k < 2 ^ 64) :
    number (ofLow digit : BeLimbs count) = Digits.value (2 ^ 64) count digit := by
  rw [number_eq]
  refine Digits.value_congr fun k inside => ?_
  rw [ofLow, Vector.reverse_reverse, digits_ofFn (fun k => BitVec.ofNat 64 (digit k)) inside,
    BitVec.toNat_ofNat, Nat.mod_eq_of_lt (small k inside)]

theorem number_injective {y : BeLimbs count} (same : number x = number y) : x = y := by
  have lows : lowFirst x = lowFirst y := ext_value same
  have reversed : x.reverse = y.reverse := by
    apply Vector.ext
    intro k inside
    exact congrFun lows ⟨k, inside⟩
  have twice := congrArg Vector.reverse reversed
  rwa [Vector.reverse_reverse, Vector.reverse_reverse] at twice

end Digits

section Chains

/-- The digits that a chain leaves, when they are digits. -/
theorem number_chain {rounds : ℕ → ℕ → ℕ × ℕ}
    (small : ∀ k < count, loopLimb rounds 0 k < 2 ^ 64) :
    number (chain rounds : BeLimbs count × ℕ).1 =
      Digits.value (2 ^ 64) count (loopLimb rounds 0) := by
  rw [chain, number_ofLow small]

theorem chain_carry (rounds : ℕ → ℕ → ℕ × ℕ) :
    (chain rounds : BeLimbs count × ℕ).2 = loopCarry rounds 0 count := by
  rw [chain]

variable (a b : BeLimbs count)

theorem number_addChain :
    number (addChain a b).1 + (addChain a b).2 * (2 ^ 64) ^ count = number a + number b := by
  have total := addLoop_value (lowFirst a) (lowFirst b) (Nat.zero_le 1)
  rw [Nat.add_zero] at total
  rw [addChain, number_chain fun k _ => addLoop_lt _ _ (Nat.zero_le 1) k, chain_carry, number,
    number, total]

theorem addChain_carry_le_one : (addChain a b).2 ≤ 1 := by
  rw [addChain, chain_carry]
  exact addCarry_le_one _ _ (Nat.zero_le 1) count

theorem subChain_borrow : (subChain a b).2 = if number a < number b then 1 else 0 := by
  rw [subChain, chain_carry, subBorrow_eq, number, number]

theorem number_subChain :
    number (subChain a b).1 + number b =
      number a + (if number a < number b then 1 else 0) * (2 ^ 64) ^ count := by
  have total := subLoop_value (lowFirst a) (lowFirst b) (Nat.zero_le 1)
  rw [Nat.add_zero] at total
  rw [← subChain_borrow, subChain, number_chain fun k _ => subLoop_lt _ _ (Nat.zero_le 1) k,
    chain_carry, number, number, total]

variable {a b}

theorem number_subChain_of_le (le : number b ≤ number a) :
    number (subChain a b).1 = number a - number b := by
  have total := number_subChain a b
  rw [if_neg (Nat.not_lt.2 le)] at total
  omega

theorem compare_digits {base x y d e : ℕ} (xLt : x < base) (yLt : y < base) :
    compare (x + d * base) (y + e * base) = (compare d e).then (compare x y) := by
  rcases Nat.lt_trichotomy d e with less | rfl | greater
  · have gap := Nat.mul_le_mul_right base less
    rw [Nat.succ_mul] at gap
    rw [Nat.compare_eq_lt.2 less, Nat.compare_eq_lt.2 (by omega)]
    rfl
  · rw [Nat.compare_eq_eq.2 rfl, Ordering.eq_then, Nat.compare_eq_ite_lt, Nat.compare_eq_ite_lt]
    simp only [Nat.add_lt_add_iff_right]
  · have gap := Nat.mul_le_mul_right base greater
    rw [Nat.succ_mul] at gap
    rw [Nat.compare_eq_gt.2 greater, Nat.compare_eq_gt.2 (by omega)]
    rfl

theorem cmpBeSlice_eq : cmpBeSlice a b = compare (number a) (number b) := by
  have each : ∀ k, cmpLimbs (lowFirst a) (lowFirst b) k =
      compare (Digits.value (2 ^ 64) k (lowFirst a).limb)
        (Digits.value (2 ^ 64) k (lowFirst b).limb) := by
    intro k
    induction k with
    | zero => rfl
    | succ k hypothesis =>
        rw [cmpLimbs, hypothesis, Digits.value_succ, Digits.value_succ, compare_digits]
        · exact Digits.value_lt fun i _ => (lowFirst a).limb_lt i
        · exact Digits.value_lt fun i _ => (lowFirst b).limb_lt i
  exact each count

end Chains

/-! The product, row by row. -/

theorem foldl_range_invariant {S : Type} {step : S → ℕ → S} {invariant : ℕ → S → Prop}
    {length : ℕ} {start : S} (base : invariant 0 start)
    (keeps : ∀ i < length, ∀ state, invariant i state → invariant (i + 1) (step state i)) :
    invariant length ((List.range length).foldl step start) := by
  induction length with
  | zero => exact base
  | succ length hypothesis =>
      rw [List.range_succ, List.foldl_append]
      exact keeps length (Nat.lt_succ_self length) _
        (hypothesis fun i less => keeps i (Nat.lt_succ_of_lt less))

theorem mulAddU64_balance (a b c carry : U64) :
    (mulAddU64 a b c carry).1.toNat =
        (a.toNat * b.toNat + c.toNat + carry.toNat) % 2 ^ 64 ∧
      (mulAddU64 a b c carry).2.toNat =
        (a.toNat * b.toNat + c.toNat + carry.toNat) / 2 ^ 64 := by
  have aLt := a.isLt
  have bLt := b.isLt
  have cLt := c.isLt
  have carryLt := carry.isLt
  have product : a.toNat * b.toNat ≤ (2 ^ 64 - 1) * (2 ^ 64 - 1) :=
    Nat.mul_le_mul (by omega) (by omega)
  have wide : (a.setWidth 128 * b.setWidth 128 + c.setWidth 128 + carry.setWidth 128).toNat =
      a.toNat * b.toNat + c.toNat + carry.toNat := by
    have small : ∀ {x : ℕ}, x < 2 ^ 64 → x % 2 ^ 128 = x := fun less =>
      Nat.mod_eq_of_lt (less.trans (by decide))
    rw [BitVec.toNat_add, BitVec.toNat_add, BitVec.toNat_mul, BitVec.toNat_setWidth,
      BitVec.toNat_setWidth, BitVec.toNat_setWidth, BitVec.toNat_setWidth, small aLt, small bLt,
      small cLt, small carryLt]
    omega
  have high : (a.toNat * b.toNat + c.toNat + carry.toNat) / 2 ^ 64 < 2 ^ 64 := by omega
  rw [mulAddU64]
  constructor
  · rw [BitVec.toNat_setWidth, wide]
  · rw [BitVec.toNat_setWidth, BitVec.toNat_ushiftRight, wide, Nat.shiftRight_eq_div_pow,
      Nat.mod_eq_of_lt high]

theorem value_mulRow (x : U64) (bLe : Vector U64 6) {i : ℕ} (inside : i < 6)
    (prodLe : Vector U64 12) :
    Digits.value (2 ^ 64) 12 (digits (mulRow x bLe i prodLe).1) +
        (mulRow x bLe i prodLe).2.toNat * (2 ^ 64) ^ (i + 6) =
      Digits.value (2 ^ 64) 12 (digits prodLe) +
        x.toNat * Digits.value (2 ^ 64) 6 (digits bLe) * (2 ^ 64) ^ i ∧
      ∀ k, i + 6 ≤ k → digits (mulRow x bLe i prodLe).1 k = digits prodLe k := by
  let invariant : ℕ → Vector U64 12 × U64 → Prop := fun j state =>
    Digits.value (2 ^ 64) 12 (digits state.1) + state.2.toNat * (2 ^ 64) ^ (i + j) =
      Digits.value (2 ^ 64) 12 (digits prodLe) +
        x.toNat * Digits.value (2 ^ 64) j (digits bLe) * (2 ^ 64) ^ i ∧
      ∀ k, i + j ≤ k → digits state.1 k = digits prodLe k
  have start : invariant 0 (prodLe, 0) := by
    refine ⟨?_, fun k _ => rfl⟩
    have none : Digits.value (2 ^ 64) 0 (digits bLe) = 0 := Finset.sum_range_zero _
    have noCarry : (0 : U64).toNat = 0 := rfl
    rw [none, noCarry]
    ring
  refine foldl_range_invariant start ?_
  rintro j jInside ⟨limbs, carry⟩ ⟨total, rest⟩
  obtain ⟨low, high⟩ := mulAddU64_balance x (entry bLe j) (entry limbs (i + j)) carry
  have here : i + j < 12 := by omega
  refine ⟨?_, fun k above => ?_⟩
  · dsimp only
    rw [digits_set limbs here, low, high]
    exact product_round here rfl total
  · dsimp only at rest ⊢
    rw [digits_set limbs here, Function.update_of_ne (by omega)]
    exact rest k (by omega)

theorem value_mulLe (aLe bLe : Vector U64 6) :
    Digits.value (2 ^ 64) 12 (digits (mulLe aLe bLe)) =
      Digits.value (2 ^ 64) 6 (digits aLe) * Digits.value (2 ^ 64) 6 (digits bLe) := by
  let invariant : ℕ → Vector U64 12 → Prop := fun i prodLe =>
    Digits.value (2 ^ 64) 12 (digits prodLe) =
        Digits.value (2 ^ 64) i (digits aLe) * Digits.value (2 ^ 64) 6 (digits bLe) ∧
      ∀ k, i + 6 ≤ k → digits prodLe k = 0
  have zero : ∀ k, digits (Vector.replicate 12 0) k = 0 := by
    intro k
    rw [digits, entry]
    split
    · rw [Vector.getElem_replicate]
      rfl
    · rfl
  have start : invariant 0 (Vector.replicate 12 0) := by
    refine ⟨?_, fun k _ => zero k⟩
    rw [Digits.value_congr fun k _ => zero k, Digits.value, Digits.value, Finset.range_zero,
      Finset.sum_empty, Nat.zero_mul]
    exact Finset.sum_eq_zero fun k _ => Nat.zero_mul _
  have whole : invariant 6 (mulLe aLe bLe) := by
    refine foldl_range_invariant start ?_
    rintro i inside prodLe ⟨total, rest⟩
    obtain ⟨row, kept⟩ := value_mulRow (entry aLe i) bLe inside prodLe
    have top : i + 6 < 12 := by omega
    refine ⟨?_, fun k above => ?_⟩
    · have written := @Digits.value_update (2 ^ 64) 12
        (digits (mulRow (entry aLe i) bLe i prodLe).1) (i + 6) top
        (mulRow (entry aLe i) bLe i prodLe).2.toNat
      rw [kept _ le_rfl, rest _ le_rfl, Nat.zero_mul, Nat.add_zero] at written
      rw [digits_set _ top, written, row, total, Digits.value_succ _ i, Nat.add_mul]
      change _ + digits aLe i * _ * _ = _
      rw [Nat.mul_right_comm]
    · rw [digits_set _ top, Function.update_of_ne (by omega), kept k (by omega)]
      exact rest k (by omega)
  exact whole.1

theorem number_mul6By6Be (a b : BeLimbs 6) :
    number (mul6By6Be a b) = number a * number b := by
  rw [number_eq, number_eq, number_eq, mul6By6Be, Vector.reverse_reverse, value_mulLe]

end MetaVm.Zkp.Nonnative
