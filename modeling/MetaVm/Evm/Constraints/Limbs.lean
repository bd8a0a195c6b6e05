import Mathlib
import MetaVm.Zkp.ConstraintPoly

namespace MetaVm.Evm.Constraints

open Zkp

/-! Chains over the limbs of 256-bit words, on values. -/

section Values

variable {F : Type} [CommRing F] {m n : ℕ}

def twoPow64 : F := 2 ^ 64

def twoPow128 : F := twoPow64 * twoPow64

def binaryCheck (value : F) : F := value * (value - 1)

/-- `s + limbs[k]`, while there is such a limb. -/
def addLimb (limbs : Fin m → F) (k : ℕ) (s : F) : F :=
  if inside : k < m then s + limbs ⟨k, inside⟩ else s

def subLimb (limbs : Fin m → F) (k : ℕ) (s : F) : F :=
  if inside : k < m then s - limbs ⟨k, inside⟩ else s

/-- The carry out of limb `k - 1` enters limb `k`. -/
def addCarryIn (carry : Fin m → F) : ℕ → F → F
  | 0, s => s
  | k + 1, s => addLimb carry k s

def subBorrowIn (borrow : Fin m → F) : ℕ → F → F
  | 0, s => s
  | k + 1, s => subLimb borrow k s

def subCarryOut (carry : Fin m → F) (k : ℕ) (s : F) : F :=
  subLimb (fun limb => carry limb * twoPow64) k s

/-- The loop `s += term(k)`. -/
def addAll {ι : Type} (ks : List ι) (term : ι → F) (s : F) : F :=
  ks.foldl (fun s k => s + term k) s

def chainSum (limb : Fin n → F) : F := addAll (List.finRange n) limb 0

/-- The index pairs `i + j = k` of two words, lowest `i` first. -/
def limbPairs (k : ℕ) : List (Fin 4 × Fin 4) :=
  (List.finRange 4).filterMap fun (i : Fin 4) =>
    if inside : i.val ≤ k ∧ k - i < 4 then some (i, ⟨k - i, inside.2⟩) else none

def addProducts (x y : Fin 4 → F) (pairs : List (Fin 4 × Fin 4)) (s : F) : F :=
  addAll pairs (fun pair => x pair.1 * y pair.2) s

/-- One limb of `x * y + r = out`, the carries kept below `2^256`. -/
def wordProductLimb (x y : Fin 4 → F) (r : Fin m → F) (carry out : Fin 4 → F)
    (k : Fin 4) : F :=
  let l := addProducts x y (limbPairs k).tail (x 0 * y k)
  let l := addCarryIn carry k (addLimb r k l)
  l - carry k * twoPow64 - out k

def limbSum (limbs : Fin 4 → F) : F :=
  limbs 0 + limbs 1 + limbs 2 + limbs 3

def wordProduct (x y : Fin 4 → F) (r : Fin m → F) (carry out : Fin 4 → F) : F :=
  limbSum (wordProductLimb x y r carry out)

/-- One limb of `x * y + r = p` over eight limbs. -/
def productLimb (x y : Fin 4 → F) (r : Fin m → F) (carry : Fin 7 → F)
    (p : Fin 8 → F) (k : Fin 8) : F :=
  let s := addProducts x y (limbPairs k) 0
  let s := subCarryOut carry k (addCarryIn carry k (addLimb r k s))
  s - p k

def productChain (x y : Fin 4 → F) (r : Fin m → F) (carry : Fin 7 → F)
    (p : Fin 8 → F) : F :=
  chainSum (productLimb x y r carry p)

/-- One limb of `x - y = diff`. -/
def borrowLimb (x y borrow diff : Fin 4 → F) (k : Fin 4) : F :=
  subBorrowIn borrow k (x k - y k) + borrow k * twoPow64 - diff k

/-- One limb of `n - r - 1 = slack`. -/
def slackLimb (n r borrow slack : Fin 4 → F) (k : Fin 4) : F :=
  let s := if k = 0 then n k - r k - 1 else subBorrowIn borrow k (n k - r k)
  s + borrow k * twoPow64 - slack k

/-- The last borrow is folded in, for it to be zero as well. -/
def slackChain (n r borrow slack : Fin 4 → F) : F :=
  chainSum (slackLimb n r borrow slack) + borrow 3 * twoPow128

end Values

/-! The same chains on coefficient vectors. -/

section Polynomials

variable {curve : CurveType} {m n : ℕ}

def polyAddLimb (limbs : Fin m → Poly curve) (k : ℕ) (s : Poly curve) :
    Poly curve :=
  if inside : k < m then polyAdd s (limbs ⟨k, inside⟩) else s

def polySubLimb (limbs : Fin m → Poly curve) (k : ℕ) (s : Poly curve) :
    Poly curve :=
  if inside : k < m then polySub s (limbs ⟨k, inside⟩) else s

def polyAddCarryIn (carry : Fin m → Poly curve) : ℕ → Poly curve → Poly curve
  | 0, s => s
  | k + 1, s => polyAddLimb carry k s

def polySubBorrowIn (borrow : Fin m → Poly curve) : ℕ → Poly curve → Poly curve
  | 0, s => s
  | k + 1, s => polySubLimb borrow k s

def polySubCarryOut (carry : Fin m → Poly curve) (k : ℕ) (s : Poly curve) :
    Poly curve :=
  polySubLimb (fun limb => polyScalarMul (carry limb) twoPow64) k s

def polyAddAll {ι : Type} (ks : List ι) (term : ι → Poly curve)
    (s : Poly curve) : Poly curve :=
  ks.foldl (fun s k => polyAdd s (term k)) s

def polyAddAllM {ι : Type} (ks : List ι) (term : ι → Option (Poly curve))
    (s : Poly curve) : Option (Poly curve) :=
  ks.foldlM (fun s k => do
    let value ← term k
    return polyAdd s value) s

def polyChainSum (limb : Fin n → Poly curve) : Poly curve :=
  polyAddAll (List.finRange n) limb [0]

def polyAddProducts (x y : Fin 4 → Poly curve) (pairs : List (Fin 4 × Fin 4))
    (s : Poly curve) : Option (Poly curve) :=
  polyAddAllM pairs (fun pair => polyMul curve (x pair.1) (y pair.2)) s

def polyWordProductLimb (x y : Fin 4 → Poly curve) (r : Fin m → Poly curve)
    (carry out : Fin 4 → Poly curve) (k : Fin 4) : Option (Poly curve) := do
  let l ← polyMul curve (x 0) (y k)
  let l ← polyAddProducts x y (limbPairs k).tail l
  let l := polyAddCarryIn carry k (polyAddLimb r k l)
  return polySub (polySub l (polyScalarMul (carry k) twoPow64)) (out k)

def polyLimbSum (limbs : Fin 4 → Poly curve) : Poly curve :=
  polyAdd (polyAdd (polyAdd (limbs 0) (limbs 1)) (limbs 2)) (limbs 3)

def polyWordProduct (x y : Fin 4 → Poly curve) (r : Fin m → Poly curve)
    (carry out : Fin 4 → Poly curve) : Option (Poly curve) := do
  let l0 ← polyWordProductLimb x y r carry out 0
  let l1 ← polyWordProductLimb x y r carry out 1
  let l2 ← polyWordProductLimb x y r carry out 2
  let l3 ← polyWordProductLimb x y r carry out 3
  return polyLimbSum ![l0, l1, l2, l3]

def polyProductLimb (x y : Fin 4 → Poly curve) (r : Fin m → Poly curve)
    (carry : Fin 7 → Poly curve) (p : Fin 8 → Poly curve) (k : Fin 8) :
    Option (Poly curve) := do
  let s ← polyAddProducts x y (limbPairs k) [0]
  let s := polySubCarryOut carry k (polyAddCarryIn carry k (polyAddLimb r k s))
  return polySub s (p k)

def polyProductChain (x y : Fin 4 → Poly curve) (r : Fin m → Poly curve)
    (carry : Fin 7 → Poly curve) (p : Fin 8 → Poly curve) :
    Option (Poly curve) :=
  polyAddAllM (List.finRange 8) (polyProductLimb x y r carry p) [0]

def polyBorrowLimb (x y borrow diff : Fin 4 → Poly curve) (k : Fin 4) :
    Poly curve :=
  let c := polySubBorrowIn borrow k (polySub (x k) (y k))
  polySub (polyAdd c (polyScalarMul (borrow k) twoPow64)) (diff k)

def polySlackLimb (n r borrow slack : Fin 4 → Poly curve) (k : Fin 4) :
    Poly curve :=
  let s := polySub (n k) (r k)
  let s := if k = 0 then polySub s (onePoly curve)
    else polySubBorrowIn borrow k s
  polySub (polyAdd s (polyScalarMul (borrow k) twoPow64)) (slack k)

def polySlackChain (n r borrow slack : Fin 4 → Poly curve) : Poly curve :=
  polyAdd (polyChainSum (polySlackLimb n r borrow slack))
    (polyScalarMul (borrow 3) twoPow128)

end Polynomials

/-! Each chain on vectors denotes the chain on values. -/

section Agreement

variable {curve : CurveType} {z : Scalar curve} {size m n units : ℕ}
variable {s : Poly curve} {value : Scalar curve}

theorem zero_denotes (positive : 0 < units) :
    Denotes z size units [(0 : Scalar curve)] 0 where
  eval := by simp [evalPolyAt]
  length := Nat.mul_pos positive (Nat.succ_pos size)
  positive := positive

theorem addLimb_denotes {limbs : Fin m → Poly curve} {values : Fin m → Scalar curve}
    (each : ∀ limb, Denotes z size 1 (limbs limb) (values limb)) (k : ℕ)
    (spec : Denotes z size units s value) :
    Denotes z size units (polyAddLimb limbs k s) (addLimb values k value) := by
  unfold polyAddLimb addLimb
  split
  · next inside =>
      exact (spec.add (each ⟨k, inside⟩)).cast (max_le le_rfl spec.positive) rfl
  · exact spec

theorem subLimb_denotes {limbs : Fin m → Poly curve} {values : Fin m → Scalar curve}
    (each : ∀ limb, Denotes z size 1 (limbs limb) (values limb)) (k : ℕ)
    (spec : Denotes z size units s value) :
    Denotes z size units (polySubLimb limbs k s) (subLimb values k value) := by
  unfold polySubLimb subLimb
  split
  · next inside =>
      exact (spec.sub (each ⟨k, inside⟩)).cast (max_le le_rfl spec.positive) rfl
  · exact spec

section Carries

variable {carry : Fin m → Poly curve} {values : Fin m → Scalar curve}
variable (each : ∀ limb, Denotes z size 1 (carry limb) (values limb)) (k : ℕ)
variable (spec : Denotes z size units s value)
include each spec

theorem addCarryIn_denotes :
    Denotes z size units (polyAddCarryIn carry k s) (addCarryIn values k value) := by
  cases k with
  | zero => exact spec
  | succ k => exact addLimb_denotes each k spec

theorem subBorrowIn_denotes :
    Denotes z size units (polySubBorrowIn carry k s)
      (subBorrowIn values k value) := by
  cases k with
  | zero => exact spec
  | succ k => exact subLimb_denotes each k spec

theorem subCarryOut_denotes :
    Denotes z size units (polySubCarryOut carry k s)
      (subCarryOut values k value) :=
  subLimb_denotes (fun limb => (each limb).smul twoPow64) k spec

end Carries

theorem addAll_denotes {ι : Type} {term : ι → Poly curve} {values : ι → Scalar curve}
    (ks : List ι) (each : ∀ k, Denotes z size units (term k) (values k))
    (spec : Denotes z size units s value) :
    Denotes z size units (polyAddAll ks term s) (addAll ks values value) := by
  induction ks generalizing s value with
  | nil => exact spec
  | cons k rest ih =>
      exact ih ((spec.add (each k)).cast (max_le le_rfl le_rfl) rfl)

theorem addAllM_denotes {ι : Type} {term : ι → Option (Poly curve)}
    {values : ι → Scalar curve} (ks : List ι)
    (each : ∀ k, Returns (FitsDomain size) (term k)
      fun added => Denotes z size units added (values k))
    (spec : Denotes z size units s value) :
    Returns (FitsDomain size) (polyAddAllM ks term s)
      fun sum => Denotes z size units sum (addAll ks values value) := by
  induction ks generalizing s value with
  | nil => exact .pure spec
  | cons k rest ih =>
      unfold polyAddAllM
      rw [List.foldlM_cons]
      refine Returns.bind ((each k).bind fun added addedSpec => ?_)
        fun next nextSpec => ih nextSpec
      exact .pure ((spec.add addedSpec).cast (max_le le_rfl le_rfl) rfl)

theorem limbSum_denotes {limbs : Fin 4 → Poly curve}
    {values : Fin 4 → Scalar curve}
    (each : ∀ limb, Denotes z size units (limbs limb) (values limb)) :
    Denotes z size units (polyLimbSum limbs) (limbSum values) :=
  ((((each 0).add (each 1)).add (each 2)).add (each 3)).cast
    (max_le (max_le (max_le le_rfl le_rfl) le_rfl) le_rfl) rfl

section Words

variable {x y : Fin 4 → Poly curve} {vx vy : Fin 4 → Scalar curve}
variable (xSpec : ∀ limb, Denotes z size 1 (x limb) (vx limb))
variable (ySpec : ∀ limb, Denotes z size 1 (y limb) (vy limb))
include xSpec ySpec

theorem addProducts_denotes (pairs : List (Fin 4 × Fin 4))
    (spec : Denotes z size 2 s value) :
    Returns (FitsDomain size) (polyAddProducts x y pairs s)
      fun sum => Denotes z size 2 sum (addProducts vx vy pairs value) :=
  addAllM_denotes pairs
    (fun pair => (xSpec pair.1).mul (ySpec pair.2) (by decide)) spec

section Products

variable {r : Fin m → Poly curve} {vr : Fin m → Scalar curve}
variable (rSpec : ∀ limb, Denotes z size 1 (r limb) (vr limb))
include rSpec

section FourLimbs

variable {carry out : Fin 4 → Poly curve} {vcarry vout : Fin 4 → Scalar curve}
variable (carrySpec : ∀ limb, Denotes z size 1 (carry limb) (vcarry limb))
variable (outSpec : ∀ limb, Denotes z size 1 (out limb) (vout limb))
include carrySpec outSpec

theorem wordProductLimb_denotes (k : Fin 4) :
    Returns (FitsDomain size) (polyWordProductLimb x y r carry out k)
      fun l => Denotes z size 2 l (wordProductLimb vx vy vr vcarry vout k) := by
  refine ((xSpec 0).mul (ySpec k) (by decide)).bind fun first firstSpec => ?_
  refine (addProducts_denotes xSpec ySpec (limbPairs k).tail firstSpec).bind
    fun l lSpec => ?_
  have carried := addCarryIn_denotes carrySpec k (addLimb_denotes rSpec k lSpec)
  exact .pure ((carried.sub ((carrySpec k).smul twoPow64)).sub (outSpec k))

theorem wordProduct_denotes :
    Returns (FitsDomain size) (polyWordProduct x y r carry out)
      fun body => Denotes z size 2 body (wordProduct vx vy vr vcarry vout) := by
  have limb := wordProductLimb_denotes xSpec ySpec rSpec carrySpec outSpec
  refine (limb 0).bind fun l0 l0Spec => (limb 1).bind fun l1 l1Spec => ?_
  refine (limb 2).bind fun l2 l2Spec => (limb 3).bind fun l3 l3Spec => ?_
  refine .pure (limbSum_denotes fun k => ?_)
  fin_cases k
  · exact l0Spec
  · exact l1Spec
  · exact l2Spec
  · exact l3Spec

end FourLimbs

section EightLimbs

variable {carry : Fin 7 → Poly curve} {vcarry : Fin 7 → Scalar curve}
variable {p : Fin 8 → Poly curve} {vp : Fin 8 → Scalar curve}
variable (carrySpec : ∀ limb, Denotes z size 1 (carry limb) (vcarry limb))
variable (pSpec : ∀ limb, Denotes z size 1 (p limb) (vp limb))
include carrySpec pSpec

theorem productLimb_denotes (k : Fin 8) :
    Returns (FitsDomain size) (polyProductLimb x y r carry p k)
      fun s => Denotes z size 2 s (productLimb vx vy vr vcarry vp k) := by
  refine (addProducts_denotes xSpec ySpec (limbPairs k)
    (zero_denotes (by decide))).bind fun s sSpec => ?_
  have carried := addCarryIn_denotes carrySpec k (addLimb_denotes rSpec k sSpec)
  exact .pure ((subCarryOut_denotes carrySpec k carried).sub (pSpec k))

theorem productChain_denotes :
    Returns (FitsDomain size) (polyProductChain x y r carry p)
      fun body => Denotes z size 2 body (productChain vx vy vr vcarry vp) :=
  addAllM_denotes _ (productLimb_denotes xSpec ySpec rSpec carrySpec pSpec)
    (zero_denotes (by decide))

end EightLimbs

end Products

section Borrows

variable {borrow diff : Fin 4 → Poly curve} {vborrow vdiff : Fin 4 → Scalar curve}
variable (borrowSpec : ∀ limb, Denotes z size 1 (borrow limb) (vborrow limb))
variable (diffSpec : ∀ limb, Denotes z size 1 (diff limb) (vdiff limb))
include borrowSpec diffSpec

theorem borrowLimb_denotes (k : Fin 4) :
    Denotes z size 1 (polyBorrowLimb x y borrow diff k)
      (borrowLimb vx vy vborrow vdiff k) :=
  ((subBorrowIn_denotes borrowSpec k ((xSpec k).sub (ySpec k))).add
    ((borrowSpec k).smul twoPow64)).sub (diffSpec k)

theorem slackLimb_denotes (k : Fin 4) :
    Denotes z size 1 (polySlackLimb x y borrow diff k)
      (slackLimb vx vy vborrow vdiff k) := by
  have difference := (xSpec k).sub (ySpec k)
  have borrowed := subBorrowIn_denotes borrowSpec k difference
  have out := (borrowSpec k).smul twoPow64
  unfold polySlackLimb slackLimb
  dsimp only
  split
  · exact ((difference.sub .one).add out).sub (diffSpec k)
  · exact (borrowed.add out).sub (diffSpec k)

theorem slackChain_denotes :
    Denotes z size 1 (polySlackChain x y borrow diff)
      (slackChain vx vy vborrow vdiff) :=
  (addAll_denotes _ (slackLimb_denotes xSpec ySpec borrowSpec diffSpec)
    (zero_denotes Nat.one_pos)).add ((borrowSpec 3).smul twoPow128)

end Borrows

end Words

end Agreement

end MetaVm.Evm.Constraints
