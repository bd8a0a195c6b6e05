import MetaVm.Evm.Semantics
import MetaVm.Evm.WordDivision

namespace MetaVm.Evm

open Limbs LimbChain

/-! The auxiliary columns of an instruction. -/

/-- The shift amount, cut off at 256. -/
def shiftAmountU256 (input : U256) : ℕ :=
  if input 1 ≠ 0 ∨ input 2 ≠ 0 ∨ input 3 ≠ 0 ∨ 256 ≤ input.limb 0 then 256
  else input.limb 0

def powerOfTwoLimbs (k : ℕ) : U256 := fun limb =>
  if 256 ≤ k then 0 else if limb.val = k / 64 then (1 : U64) <<< (k % 64) else 0

def shiftPowerOfTwo (shiftAmount : U256) : U256 :=
  powerOfTwoLimbs (shiftAmountU256 shiftAmount)

/-- The terms `x₁ * y₍ₖ₋₁₎ + x₂ * y₍ₖ₋₂₎ + …` of a column, after the first one. -/
def crossTerms (x y : U256) (k : ℕ) : List ℕ :=
  (List.range k).map fun i => x.limb (i + 1) * y.limb (k - (i + 1))

/-- Column `k` of `x * y + r` is summed in `u128`, and its upper half is the
carry into the next one. -/
def carryRound (x y : U256) (r : ℕ → List ℕ) (carry : ℕ → ℕ) (k : ℕ) :
    Checked (ℕ → ℕ) := do
  let carryIn := if k = 0 then [] else [carry (k - 1)]
  let acc ← Checked.sum (2 ^ 128) (x.limb 0 * y.limb k) (crossTerms x y k ++ r k ++ carryIn)
  return Function.update carry k (acc / 2 ^ 64)

def carryRounds (x y : U256) (r : ℕ → List ℕ) (count : ℕ) : Checked (ℕ → ℕ) :=
  (List.range count).foldlM (carryRound x y r) fun _ => 0

/-- The carries of `x * y + r`. -/
def carryChain (x y : U256) (r : ℕ → List ℕ) : Checked U256 := do
  let carry ← carryRounds x y r 4
  return ofDigits carry

/-- Row `i` of the full product. -/
def mulRowFull (a b : U256) (i : ℕ) (full : ℕ → ℕ) : Checked (ℕ → ℕ) := do
  let state ← (List.range 4).foldlM (fun (state : (ℕ → ℕ) × ℕ) j => do
    let added ← Checked.add (2 ^ 128) (a.limb i * b.limb j) state.2
    let sum ← Checked.add (2 ^ 128) (state.1 (i + j)) added
    return (Function.update state.1 (i + j) (sum % 2 ^ 64), sum / 2 ^ 64)) (full, 0)
  let top ← Checked.add (2 ^ 128) (state.1 (i + 4)) state.2
  return Function.update state.1 (i + 4) top

/-- The high half of the product in `aux0`, the carries of the low half in
`aux1`. -/
def mulAux (input0 input1 : U256) : Checked (U256 × U256) := do
  let full ← (List.range 4).foldlM (fun full i => mulRowFull input0 input1 i full) fun _ => 0
  let aux1 ← carryChain input0 input1 fun _ => []
  return (ofDigits fun k => full (k + 4), aux1)

def computeRemainder (dividend divisor quotient : U256) : Checked U256 := do
  let product ← mulU256Low quotient divisor
  return subU256 dividend product

/-- The remainder in `aux0`, the carries of `quotient * divisor + remainder` in
`aux1`. -/
def divAux (input0 input1 output : U256) : Checked (U256 × U256) := do
  let remainder ← computeRemainder input0 input1 output
  let aux1 ← carryChain output input1 fun k => [remainder.limb k]
  return (remainder, aux1)

/-- The quotient in `aux0`. -/
def modAux (quotient input1 output : U256) : Checked (U256 × U256) := do
  let aux1 ← carryChain quotient input1 fun k => [output.limb k]
  return (quotient, aux1)

/-- The borrows of `x - y` in `aux0`, the limbs of the difference in `aux1`. -/
def lessAux (x y : U256) : U256 × U256 :=
  (ofDigits fun k => loopCarry (subRounds x y) 0 (k + 1),
    ofDigits (loopLimb (subRounds x y) 0))

def carryAux (x y : U256) : U256 := ofDigits fun k => loopCarry (addRounds x y) 0 (k + 1)

def shlAux (input0 input1 : U256) : Checked (U256 × U256) := do
  let aux0 ← carryChain input1 (shiftPowerOfTwo input0) fun _ => []
  return (aux0, 0)

/-- The bits shifted out in `aux0`, the carries in `aux1`. -/
def shrAux (input0 input1 output : U256) : Checked (U256 × U256) := do
  let pow2 := shiftPowerOfTwo input0
  let product ← mulU256Low output pow2
  let remainder := subU256 input1 product
  let aux1 ← carryChain output pow2 fun k => [remainder.limb k]
  return (remainder, aux1)

def computeEvmAux (opcode : Opcode) (input0 input1 output : U256) :
    Checked (U256 × U256) :=
  match opcode.toNat with
  | 0x01 => pure (carryAux input0 input1, 0)
  | 0x03 => pure (carryAux output input1, 0)
  | 0x02 => mulAux input0 input1
  | 0x04 | 0x05 => divAux input0 input1 output
  | 0x06 => if input1 = 0 then pure (0, 0) else modAux (divU256 input0 input1) input1 output
  | 0x07 => if input1 = 0 then pure (0, 0) else modAux (sdivU256 input0 input1) input1 output
  | 0x10 => pure (lessAux input0 input1)
  | 0x11 => pure (lessAux input1 input0)
  | 0x14 => pure (0, fun k => input0 k - input1 k)
  | 0x15 => pure (0, 0)
  | 0x16 | 0x17 | 0x18 => pure (fun k => input0 k &&& input1 k, 0)
  | 0x1B => shlAux input0 input1
  | 0x1C | 0x1D => shrAux input0 input1 output
  | 0x53 => pure (![input1 0 / 256, 0, 0, 0], 0)
  | _ => pure (0, 0)

end MetaVm.Evm

namespace MetaVm.Evm

open Limbs LimbChain

/-! The carries of `x * y + r`, when its columns fit into `u128`. -/

/-- No column overflows with the carry that enters it. -/
def ColumnsFit (column : ℕ → ℕ) (count : ℕ) : Prop :=
  ∀ k < count, column k + carryInto (2 ^ 64) column k < 2 ^ 128

/-- It is the leading columns together that must not be too large. -/
theorem columnsFit_iff (column : ℕ → ℕ) (count : ℕ) :
    ColumnsFit column count ↔ ∀ k < count, total (2 ^ 64) (k + 1) column < (2 ^ 64) ^ (k + 2) := by
  refine forall₂_congr fun k _ => ?_
  have next : column k + carryInto (2 ^ 64) column k < 2 ^ 128 ↔
      carryInto (2 ^ 64) column (k + 1) < 2 ^ 64 := by
    rw [carryInto, Nat.div_lt_iff_lt_mul (Nat.two_pow_pos 64), ← pow_add]
  rw [next, carryInto_lt_iff column (Nat.two_pow_pos 64), pow_succ' _ (k + 1)]

theorem ColumnsFit.carry_lt {column : ℕ → ℕ} {count k : ℕ} (fit : ColumnsFit column count)
    (inside : k < count) : carryInto (2 ^ 64) column (k + 1) < 2 ^ 64 := by
  rw [carryInto, Nat.div_lt_iff_lt_mul (Nat.two_pow_pos 64), ← pow_add]
  exact fit k inside

/-- Columns that leave room for a carry. -/
theorem columnsFit_of_room {column : ℕ → ℕ} {count : ℕ}
    (room : ∀ k < count, column k + 2 ^ 64 ≤ 2 ^ 128) : ColumnsFit column count := by
  have carry : ∀ k ≤ count, carryInto (2 ^ 64) column k < 2 ^ 64 := by
    intro k inside
    induction k with
    | zero => exact Nat.two_pow_pos 64
    | succ k hypothesis =>
        have earlier := hypothesis (Nat.le_of_succ_le inside)
        have bound := room k inside
        rw [carryInto, Nat.div_lt_iff_lt_mul (Nat.two_pow_pos 64)]
        omega
  intro k inside
  have entering := carry k (Nat.le_of_lt inside)
  have bound := room k inside
  omega

section Chain

variable (x y : U256) (r : ℕ → List ℕ)

/-- What is summed in column `k`, without the carry. -/
def chainColumn (k : ℕ) : ℕ := convolution x.limb y.limb k + (r k).sum

theorem sum_range_eq (term : ℕ → ℕ) (count : ℕ) :
    ((List.range count).map term).sum = ∑ i ∈ Finset.range count, term i :=
  (Multiset.sum_coe _).symm

theorem sum_crossTerms (k : ℕ) :
    x.limb 0 * y.limb k + (crossTerms x y k).sum = convolution x.limb y.limb k := by
  rw [convolution, Finset.sum_range_succ', Nat.sub_zero, Nat.add_comm, crossTerms,
    sum_range_eq]

/-- The terms of column `k` with the carry that enters it. -/
theorem sum_columnTerms (k carry : ℕ) (first : k = 0 → carry = 0) :
    x.limb 0 * y.limb k +
        (crossTerms x y k ++ r k ++ if k = 0 then [] else [carry]).sum =
      chainColumn x y r k + carry := by
  have entering : (if k = 0 then [] else [carry]).sum = carry := by
    split
    · rw [first ‹_›, List.sum_nil]
    · rw [List.sum_singleton]
  rw [List.sum_append, List.sum_append, entering, chainColumn, ← sum_crossTerms]
  omega

variable {x y r}

/-- A round overflows exactly when its column does, and leaves the carry of the
column otherwise. -/
theorem carryRound_spec {carry : ℕ → ℕ} {k : ℕ}
    (entering : ∀ j, k = j + 1 → carry j = carryInto (2 ^ 64) (chainColumn x y r) k) :
    ((carryRound x y r carry k).overflowed = false ↔
        chainColumn x y r k + carryInto (2 ^ 64) (chainColumn x y r) k < 2 ^ 128) ∧
      (chainColumn x y r k + carryInto (2 ^ 64) (chainColumn x y r) k < 2 ^ 128 →
        (carryRound x y r carry k).value =
          Function.update carry k (carryInto (2 ^ 64) (chainColumn x y r) (k + 1))) := by
  have terms : x.limb 0 * y.limb k + (crossTerms x y k ++ r k ++
        if k = 0 then [] else [carry (k - 1)]).sum =
      chainColumn x y r k + carryInto (2 ^ 64) (chainColumn x y r) k := by
    cases k with
    | zero => exact sum_columnTerms x y r 0 0 fun _ => rfl
    | succ j =>
        rw [← entering j rfl]
        exact sum_columnTerms x y r (j + 1) (carry j) fun zero => absurd zero (by omega)
  have firstSmall : x.limb 0 * y.limb k < 2 ^ 128 := by
    have product := limb_product_fits x y 0 k (Nat.two_pow_pos 64) (Nat.two_pow_pos 64)
    omega
  constructor
  · rw [carryRound, Checked.overflowed_bind, Checked.overflowed_pure, Bool.or_false,
      Checked.overflowed_sum firstSmall, terms]
  · intro fits
    have sum := Checked.sum_fits (lt_of_eq_of_lt terms fits)
    rw [carryRound, Checked.value_bind, Checked.value_pure, sum.holds, terms]
    rfl

/-- The rounds overflow exactly when a column does, and otherwise leave the
carries of the columns. -/
theorem carryRounds_spec (count : ℕ) :
    ((carryRounds x y r count).overflowed = false ↔ ColumnsFit (chainColumn x y r) count) ∧
      (ColumnsFit (chainColumn x y r) count → ∀ k < count,
        (carryRounds x y r count).value k =
          carryInto (2 ^ 64) (chainColumn x y r) (k + 1)) := by
  induction count with
  | zero => exact ⟨⟨fun _ k inside => absurd inside (Nat.not_lt_zero k), fun _ => rfl⟩,
      fun _ k inside => absurd inside (Nat.not_lt_zero k)⟩
  | succ count hypothesis =>
      obtain ⟨exact, carries⟩ := hypothesis
      have unfolded : carryRounds x y r (count + 1) =
          carryRounds x y r count >>= fun carry => carryRound x y r carry count := by
        rw [carryRounds, carryRounds, List.range_succ, List.foldlM_append]
        simp only [List.foldlM_cons, List.foldlM_nil, bind_pure]
      have extend : ColumnsFit (chainColumn x y r) (count + 1) ↔
          ColumnsFit (chainColumn x y r) count ∧
            chainColumn x y r count + carryInto (2 ^ 64) (chainColumn x y r) count < 2 ^ 128 :=
        Nat.forall_lt_succ_right
      rw [unfolded, extend]
      have round : ColumnsFit (chainColumn x y r) count → _ := fun fit =>
        @carryRound_spec x y r (carryRounds x y r count).value count fun j isNext => by
          rw [carries fit j (by omega), isNext]
      constructor
      · rw [Checked.overflowed_bind, Bool.or_eq_false_iff, exact]
        exact and_congr_right fun fit => (round fit).1
      · rintro ⟨fit, last⟩ k inside
        rw [Checked.value_bind, (round fit).2 last]
        by_cases here : k = count
        · rw [here, Function.update_self]
        · rw [Function.update_of_ne here]
          exact carries fit k (by omega)

theorem overflowed_carryChain :
    (carryChain x y r).overflowed = false ↔ ColumnsFit (chainColumn x y r) 4 := by
  rw [carryChain, Checked.overflowed_bind, Checked.overflowed_pure, Bool.or_false,
    (carryRounds_spec 4).1]

theorem limb_carryChain (fit : ColumnsFit (chainColumn x y r) 4) {k : ℕ} (inside : k < 4) :
    (carryChain x y r).value.limb k = carryInto (2 ^ 64) (chainColumn x y r) (k + 1) := by
  have carry := (carryRounds_spec 4).2 fit k inside
  rw [carryChain, Checked.value_bind, Checked.value_pure, limb_ofDigits inside, carry]
  rw [carry]
  exact fit.carry_lt inside

variable {count : ℕ} {rest : Limbs count} (terms : ∀ k < 4, (r k).sum = rest.limb k)
include terms

theorem total_chainColumn {k : ℕ} (inside : k ≤ 4) :
    total (2 ^ 64) k (chainColumn x y r) =
      total (2 ^ 64) k (convolution x.limb y.limb) + Digits.value (2 ^ 64) k rest.limb := by
  have columns : ∀ i < k, chainColumn x y r i = convolution x.limb y.limb i + rest.limb i :=
    fun i below => by rw [chainColumn, terms i (lt_of_lt_of_le below inside)]
  rw [total, Digits.value_congr columns]
  simp only [total, Digits.value, add_mul, Finset.sum_add_distrib]

theorem chainColumns_fit_iff :
    ColumnsFit (chainColumn x y r) 4 ↔ ∀ k < 4,
      total (2 ^ 64) (k + 1) (convolution x.limb y.limb) +
        Digits.value (2 ^ 64) (k + 1) rest.limb < (2 ^ 64) ^ (k + 2) := by
  rw [columnsFit_iff]
  refine forall₂_congr fun k inside => ?_
  rw [total_chainColumn terms inside]

end Chain

end MetaVm.Evm
