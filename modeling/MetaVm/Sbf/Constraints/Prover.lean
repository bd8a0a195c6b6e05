import MetaVm.Sbf.Constraints.System

namespace MetaVm.Sbf.Constraints

open Zkp

/-! The prover's side: the same system over coefficient vectors. Every product
may fail with `polyMul`, so the blocks are computations in `Option`. -/

section Prover

variable {curve : CurveType} (col : Column → Poly curve)

def addPair : Pair curve :=
  let sum := polyAdd (col colDstValBefore) (col colSrcVal)
  let carryTerm := polyScalarMul (col colAux0) twoPow64
  (col colSelAluAdd, polySub sum (polyAdd carryTerm (col colDstValAfter)))

def subPair : Pair curve :=
  let lhs := polyAdd (col colDstValAfter) (col colSrcVal)
  let borrowTerm := polyScalarMul (col colAux0) twoPow64
  (col colSelAluSub, polySub lhs (polyAdd (col colDstValBefore) borrowTerm))

def movPair : Pair curve :=
  (col colSelAluMov, polySub (col colDstValAfter) (col colSrcVal))

def mulPair : Option (Pair curve) := do
  let product ← polyMul curve (col colDstValBefore) (col colSrcVal)
  let hiTerm := polyScalarMul (col colAux0) twoPow64
  return (col colSelAluMul, polySub product (polyAdd hiTerm (col colDstValAfter)))

/-- `quotient * src_val + remainder - dst_before`. -/
def divisionPair (selector quotient remainder : Column) : Option (Pair curve) := do
  let prod ← polyMul curve (col quotient) (col colSrcVal)
  let lhs := polyAdd prod (col remainder)
  return (col selector, polySub lhs (col colDstValBefore))

def andPair : Pair curve :=
  (col colSelAluAnd, polySub (col colDstValAfter) (col colAux0))

def orPair : Pair curve :=
  let body := polySub (col colDstValAfter) (col colDstValBefore)
  let body := polySub body (col colSrcVal)
  (col colSelAluOr, polyAdd body (col colAux0))

def xorPair : Pair curve :=
  let body := polySub (col colDstValAfter) (col colDstValBefore)
  let body := polySub body (col colSrcVal)
  let twoAux0 := polyScalarMul (col colAux0) (Scalar.fromU64 2)
  (col colSelAluXor, polyAdd body twoAux0)

def lshPair : Option (Pair curve) := do
  let product ← polyMul curve (col colDstValBefore) (col colAux0)
  let overflowTerm := polyScalarMul (col colAux1) twoPow64
  return (col colSelAluLsh,
    polySub product (polyAdd overflowTerm (col colDstValAfter)))

def rshPair : Option (Pair curve) := do
  let product ← polyMul curve (col colDstValAfter) (col colAux0)
  let lhs := polyAdd product (col colAux1)
  return (col colSelAluRsh, polySub lhs (col colDstValBefore))

def arshPair : Option (Pair curve) := do
  let product ← polyMul curve (col colDstValAfter) (col colAux0)
  let lhs := polyAdd product (col colAux1)
  let correctionTerm := polyScalarMul (col colAux2) twoPow64
  return (col colSelAluArsh,
    polySub (polySub lhs (col colDstValBefore)) correctionTerm)

/-- The branch sub-expressions computed once. -/
structure BranchTerms (curve : CurveType) where
  diffTaken : Poly curve
  diffNotTaken : Poly curve
  targetCheck : Poly curve
  aux1Binary : Poly curve
  oneMAux1 : Poly curve
  dstSrcDiff : Poly curve

def branchTerms : Option (BranchTerms curve) := do
  let insnSize := [Scalar.fromU64 8]
  let taken := polyAdd (col colPc) (col colImmediate)
  let notTaken := polyAdd (col colPc) insnSize
  let diffTaken := polySub (col colNextPc) taken
  let diffNotTaken := polySub (col colNextPc) notTaken
  let targetCheck ← polyMul curve diffTaken diffNotTaken
  let aux1Binary ← polyBinary curve (col colAux1)
  let oneMAux1 := polySub (onePoly curve) (col colAux1)
  let dstSrcDiff := polySub (col colDstValBefore) (col colSrcVal)
  return ⟨diffTaken, diffNotTaken, targetCheck, aux1Binary, oneMAux1, dstSrcDiff⟩

variable (terms : BranchTerms curve)

def branchEqPair : Option (Pair curve) := do
  let c1 ← polyMul curve terms.diffNotTaken (col colAux1)
  let c2 ← polyMul curve terms.diffTaken terms.oneMAux1
  let c3 ← polyMul curve terms.oneMAux1 terms.dstSrcDiff
  let body := polyAdd terms.targetCheck c1
  let body := polyAdd (polyAdd body c2) c3
  return (col colSelBranchEq, polyAdd body terms.aux1Binary)

def branchNeqPair : Option (Pair curve) := do
  let c1 ← polyMul curve terms.diffNotTaken terms.oneMAux1
  let c2 ← polyMul curve terms.diffTaken (col colAux1)
  let c3 ← polyMul curve terms.oneMAux1 terms.dstSrcDiff
  let body := polyAdd terms.targetCheck c1
  let body := polyAdd (polyAdd body c2) c3
  return (col colSelBranchNeq, polyAdd body terms.aux1Binary)

def branchLtPair : Option (Pair curve) := do
  let c1 ← polyMul curve terms.diffNotTaken terms.oneMAux1
  let c2 ← polyMul curve terms.diffTaken (col colAux1)
  let body := polyAdd (polyAdd terms.targetCheck c1) c2
  return (col colSelBranchLt, polyAdd body terms.aux1Binary)

def branchGePair : Option (Pair curve) := do
  let c1 ← polyMul curve terms.diffNotTaken (col colAux1)
  let c2 ← polyMul curve terms.diffTaken terms.oneMAux1
  let body := polyAdd (polyAdd terms.targetCheck c1) c2
  return (col colSelBranchGe, polyAdd body terms.aux1Binary)

def branchOtherPair : Pair curve :=
  (col colSelBranchOther, polyAdd terms.targetCheck terms.aux1Binary)

/-- `mem_addr - (base + immediate) + (written - read)`. -/
def accessPair (selector base written read : Column) : Pair curve :=
  let expectedAddr := polyAdd (col base) (col colImmediate)
  let addrCheck := polySub (col colMemAddr) expectedAddr
  let valCheck := polySub (col written) (col read)
  (col selector, polyAdd addrCheck valCheck)

def aux0BinaryPair (selector : Column) : Option (Pair curve) := do
  let binary ← polyBinary curve (col colAux0)
  return (col selector, binary)

def negPair : Option (Pair curve) := do
  let sum := polyAdd (col colDstValAfter) (col colDstValBefore)
  let carryTerm := polyScalarMul (col colAux0) twoPow64
  let main := polySub sum carryTerm
  let binary ← polyBinary curve (col colAux0)
  return (col colSelAluOther, polyAdd main binary)

/-- The 22 gated blocks; there is none for the calls and exits between the last
two. -/
def pairBlocks : List (Option (Pair curve)) :=
  [some (addPair col), some (subPair col), some (movPair col), mulPair col,
    divisionPair col colSelAluDiv colDstValAfter colAux0,
    divisionPair col colSelAluMod colAux0 colDstValAfter,
    some (andPair col), some (orPair col), some (xorPair col), lshPair col,
    rshPair col, arshPair col, branchEqPair col terms, branchNeqPair col terms,
    branchLtPair col terms, branchGePair col terms,
    some (branchOtherPair col terms),
    some (accessPair col colSelLoad colSrcVal colDstValAfter colMemVal),
    some (accessPair col colSelStore colDstValBefore colMemVal colSrcVal),
    aux0BinaryPair col colSelAluAdd, aux0BinaryPair col colSelAluSub,
    negPair col]

/-- The first 21 products, two powers without a product, and the last product. -/
def accumulateGated (gatedResults : List (Poly curve)) (alpha : Scalar curve) :
    Poly curve × Scalar curve :=
  let state := (gatedResults.take 21).foldl (accumulatePoly curve alpha) ([0], 1)
  let state := (state.1, state.2 * alpha * alpha)
  (gatedResults[21]?).toList.foldl (accumulatePoly curve alpha) state

def buildConstraintPolynomial (alpha : Scalar curve) : Option (Poly curve) := do
  let terms ← branchTerms col
  let pairs ← (pairBlocks col terms).mapM id
  let gatedResults ← pairs.mapM fun (sel, body) => polyMul curve sel body
  let state := accumulateGated gatedResults alpha
  let binaryResults ← selectorColumnIndices.mapM fun si =>
    polyBinary curve (col si)
  let state := binaryResults.foldl (accumulatePoly curve alpha) state
  let sum := selectorColumnIndices.foldl (fun sum si => polyAdd sum (col si)) [0]
  return polyAdd state.1 (polyScalarMul (subOneFromConstant curve sum) state.2)

/-- A domain of no rows has no last power. -/
def buildShiftedConstraintPolynomial (alpha : Scalar curve) (domainSize : ℕ+)
    (omega : Scalar curve) (alphaOffset : ℕ) : Poly curve :=
  let ap := (fun ap => ap * alpha)^[alphaOffset] 1
  let pcShifted := polyShift (col colPc) omega
  let body := polySub pcShifted (col colNextPc)
  let omegaNMinus1 := powerLoop 1 omega (domainSize - 1)
  polyScalarMul (polyMulLinear body omegaNMinus1) ap

end Prover

end MetaVm.Sbf.Constraints
