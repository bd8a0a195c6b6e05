import MetaVm.Evm.ColumnCarries
import MetaVm.Evm.Semantics
import MetaVm.Evm.WordDivision

namespace MetaVm.Evm

open Limbs

/-! Column sums in two `u128`, the lower one first. -/

def wideAdd (acc : ℕ × ℕ) (prod : ℕ) : ℕ × ℕ :=
  let lo := (acc.1 + prod) % 2 ^ 128
  (lo, if lo < acc.1 then (acc.2 + 1) % 2 ^ 128 else acc.2)

/-- The carry that a column hands on. -/
def wideShift (acc : ℕ × ℕ) : ℕ × ℕ :=
  ((acc.1 >>> 64) ||| (acc.2 <<< 64 % 2 ^ 128), acc.2 >>> 64)

/-- The carry into column `k`. -/
def wideCarry (terms : ℕ → List ℕ) : ℕ → ℕ × ℕ
  | 0 => (0, 0)
  | k + 1 => wideShift ((terms k).foldl wideAdd (wideCarry terms k))

def wideColumn (terms : ℕ → List ℕ) (k : ℕ) : ℕ × ℕ :=
  (terms k).foldl wideAdd (wideCarry terms k)

/-- The products `x[i] * y[k - i]`. -/
def columnProducts (x y : U256) (k : ℕ) : List ℕ :=
  ((List.range 4).filter fun i => i ≤ k ∧ k - i < 4).map fun i => x.limb i * y.limb (k - i)

/-- The limbs the columns leave. -/
def columnLimbs {count : ℕ} (terms : ℕ → List ℕ) : Limbs count :=
  ofDigits fun k => (wideColumn terms k).1 % 2 ^ 64

/-- The carries out of the columns, cut off at 64 bits. -/
def columnCarries {count : ℕ} (terms : ℕ → List ℕ) : Limbs count :=
  ofDigits fun k => (wideCarry terms (k + 1)).1 % 2 ^ 64

structure MulmodWitness where
  q : U256 := 0
  p : Limbs 8 := 0
  pc : Limbs 7 := 0
  sc : Limbs 7 := 0
  slack : U256 := 0
  slackBorrow : U256 := 0
  nIsZero : U64 := 0

structure AddmodWitness where
  q : U256 := 0
  sLow : U256 := 0
  sHigh : U64 := 0
  abCarry : U256 := 0
  qnP : Limbs 8 := 0
  qnCarry : Limbs 7 := 0
  sumCarry : Limbs 9 := 0
  slack : U256 := 0
  slackBorrow : U256 := 0
  nIsZero : U64 := 0

/-- The limbs of `n - r - 1`, and the borrows. -/
def slackChainWitness (n r : U256) : U256 × U256 :=
  if n = 0 then (0, 0)
  else (ofDigits (loopLimb (subRounds n r) 1),
    ofDigits fun k => loopCarry (subRounds n r) 1 (k + 1))

/-- The terms of `q * n + r`. -/
def remainderTerms (q n r : U256) (k : ℕ) : List ℕ :=
  columnProducts q n k ++ if k < 4 then [r.limb k] else []

def computeMulmodWitness (a b n r : U256) : MulmodWitness :=
  let p : Limbs 8 := columnLimbs (columnProducts a b)
  let q := if n = 0 then 0 else (u512DivmodU256 p n).1
  { q := q
    p := p
    pc := columnCarries (columnProducts a b)
    sc := columnCarries (remainderTerms q n r)
    slack := (slackChainWitness n r).1
    slackBorrow := (slackChainWitness n r).2
    nIsZero := if n = 0 then 1 else 0 }

/-- The carries of `qn_p + r = s`, which an inconsistent row makes negative. -/
def sumCarryInto (qnP : Limbs 8) (r sLow : U256) (sHigh : ℕ) : ℕ → ℤ
  | 0 => 0
  | k + 1 =>
      let rhs : ℤ := if k < 4 then sLow.limb k else if k = 4 then sHigh else 0
      (qnP.limb k + r.limb k + sumCarryInto qnP r sLow sHigh k - rhs) / 2 ^ 64

def computeAddmodWitness (a b n r : U256) : AddmodWitness :=
  let sLow : U256 := ofDigits (loopLimb (addRounds a b) 0)
  let sHigh := loopCarry (addRounds a b) 0 4
  let s : Limbs 8 :=
    ofDigits fun k => if k < 4 then sLow.limb k else if k = 4 then sHigh else 0
  let q := if n = 0 then 0 else (u512DivmodU256 s n).1
  let qnP : Limbs 8 := columnLimbs (columnProducts q n)
  { q := q
    sLow := sLow
    sHigh := BitVec.ofNat 64 sHigh
    abCarry := ofDigits fun k => loopCarry (addRounds a b) 0 (k + 1)
    qnP := qnP
    qnCarry := columnCarries (columnProducts q n)
    sumCarry := if n = 0 then 0
      else fun k => BitVec.ofInt 64 (sumCarryInto qnP r sLow sHigh (k + 1))
    slack := (slackChainWitness n r).1
    slackBorrow := (slackChainWitness n r).2
    nIsZero := if n = 0 then 1 else 0 }

end MetaVm.Evm

namespace MetaVm.Evm

open Limbs LimbChain

/-! The witnesses of products and quotients, apart from the carries of their
columns. -/

section FullProduct

variable (a b : U256)

/-- A row of the full product fits, if the limbs it reaches first are empty. -/
theorem mulRowFull_fits {i : ℕ} {full : ℕ → ℕ} (small : ∀ k, full k < 2 ^ 64)
    (empty : ∀ k, i + 4 ≤ k → full k = 0) :
    (mulRowFull a b i full).Fits fun full =>
      (∀ k, full k < 2 ^ 64) ∧ ∀ k, i + 5 ≤ k → full k = 0 := by
  let invariant : ℕ → (ℕ → ℕ) × ℕ → Prop := fun _ state =>
    (∀ k, state.1 k < 2 ^ 64) ∧ state.2 < 2 ^ 64 ∧ ∀ k, i + 4 ≤ k → state.1 k = 0
  have start : invariant 0 (full, 0) := ⟨small, Nat.two_pow_pos 64, empty⟩
  refine (Checked.Fits.foldlM (fun j inside state holds => ?_) start).bind
    fun state holds => ?_
  · obtain ⟨limbsLt, carryLt, beyond⟩ := holds
    have fits := limb_product_fits a b i j carryLt (limbsLt (i + j))
    refine (Checked.add_fits (by omega)).bind fun added isAdded => ?_
    subst isAdded
    refine (Checked.add_fits (by omega)).bind fun sum isSum => .pure ?_
    subst isSum
    refine ⟨fun k => ?_, by dsimp only; omega, fun k above => ?_⟩
    · dsimp only
      by_cases here : k = i + j
      · rw [here, Function.update_self]
        exact Nat.mod_lt _ (by decide)
      · rw [Function.update_of_ne here]
        exact limbsLt k
    · dsimp only
      rw [Function.update_of_ne (by omega)]
      exact beyond k above
  · obtain ⟨limbsLt, carryLt, beyond⟩ := holds
    have isEmpty := beyond (i + 4) le_rfl
    refine (Checked.add_fits (by omega)).bind fun top isTop => .pure ⟨fun k => ?_, fun k above => ?_⟩
    · by_cases here : k = i + 4
      · rw [here, Function.update_self]
        omega
      · rw [Function.update_of_ne here]
        exact limbsLt k
    · rw [Function.update_of_ne (by omega)]
      exact beyond k (by omega)

/-- Only the carries of the low half can overflow. -/
theorem mulAux_spec :
    (mulAux a b).overflowed = (carryChain a b fun _ => []).overflowed ∧
      (mulAux a b).value.2 = (carryChain a b fun _ => []).value := by
  have rows : ((List.range 4).foldlM (fun full i => mulRowFull a b i full) fun _ => 0).Fits
      fun full => (∀ k, full k < 2 ^ 64) ∧ ∀ k, 4 + 4 ≤ k → full k = 0 := by
    refine @Checked.Fits.foldlM _ _ (fun i (full : ℕ → ℕ) =>
      (∀ k, full k < 2 ^ 64) ∧ ∀ k, i + 4 ≤ k → full k = 0) _ (fun i _ full holds => ?_) _
        ⟨fun _ => Nat.two_pow_pos 64, fun _ _ => rfl⟩
    refine (mulRowFull_fits a b holds.1 holds.2).imp fun next found => ⟨found.1, fun k above => ?_⟩
    exact found.2 k (by omega)
  constructor
  · rw [mulAux, Checked.overflowed_bind, rows.exact, Bool.false_or, Checked.overflowed_bind,
      Checked.overflowed_pure, Bool.or_false]
  · rfl

end FullProduct

section Remainder

variable (a b q : U256)

theorem toWord_subU256 : toWord (subU256 a b) = toWord a - toWord b := by
  apply BitVec.eq_of_toNat_eq
  have bLt : b.value < 2 ^ 256 := b.value_lt
  rw [toNat_toWord, value_subU256_mod, BitVec.toNat_sub, toNat_toWord, toNat_toWord]
  congr 1
  omega

/-- What the quotient leaves of the dividend, modulo the size of a word. -/
theorem computeRemainder_fits :
    (computeRemainder a b q).Fits (· = ofWord (toWord a - toWord q * toWord b)) := by
  refine (mulU256Low_fits q b).bind fun product isProduct => .pure ?_
  have word : toWord product = toWord q * toWord b := by
    apply BitVec.eq_of_toNat_eq
    rw [toNat_toWord, isProduct, BitVec.toNat_mul, toNat_toWord, toNat_toWord]
  rw [← toWord_inj, toWord_subU256, word, toWord_ofWord]

/-- The carries of `q * b + r = a`, with the remainder that belongs to `q`. -/
def quotientAux (a b q : U256) : Checked U256 :=
  carryChain q b fun k => [(ofWord (toWord a - toWord q * toWord b)).limb k]

theorem divAux_spec :
    (divAux a b q).overflowed = (quotientAux a b q).overflowed ∧
      (divAux a b q).value =
        (ofWord (toWord a - toWord q * toWord b), (quotientAux a b q).value) := by
  have remainder := computeRemainder_fits a b q
  rw [quotientAux, divAux, Checked.overflowed_bind, remainder.exact, Bool.false_or, Checked.overflowed_bind,
    Checked.overflowed_pure, Bool.or_false, Checked.value_bind, remainder.holds]
  exact ⟨rfl, rfl⟩

/-- The result of MOD is what its quotient leaves. -/
theorem modAux_spec {out : U256} (isRest : out = ofWord (toWord a - toWord q * toWord b)) :
    (modAux q b out).overflowed = (quotientAux a b q).overflowed ∧
      (modAux q b out).value = (q, (quotientAux a b q).value) := by
  rw [modAux, quotientAux, ← isRest, Checked.overflowed_bind, Checked.overflowed_pure,
    Bool.or_false]
  exact ⟨rfl, rfl⟩

end Remainder

end MetaVm.Evm
