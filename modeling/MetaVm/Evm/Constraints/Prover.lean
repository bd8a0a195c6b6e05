import MetaVm.Evm.Constraints.System

namespace MetaVm.Evm.Constraints

open Zkp

/-! The prover's side: the same constraints over the coefficient vectors of the
columns. -/

section Prover

variable {curve : CurveType} (col : Column → Poly curve)

def addLimbPoly (k : Fin 4) : Poly curve :=
  let sum := polyAdd (col (input0 k)) (col (input1 k))
  let sum := polyAddCarryIn (col ∘ aux0) k sum
  let carryTerm := polyScalarMul (col (aux0 k)) twoPow64
  polySub sum (polyAdd carryTerm (col (output0 k)))

def subLimbPoly (k : Fin 4) : Poly curve :=
  let sum := polyAdd (col (output0 k)) (col (input1 k))
  let sum := polyAddCarryIn (col ∘ aux0) k sum
  let borrowTerm := polyScalarMul (col (aux0 k)) twoPow64
  polySub sum (polyAdd (col (input0 k)) borrowTerm)

def buildMulFullConstraintPoly : Option (Poly curve) :=
  polyWordProduct (col ∘ input0) (col ∘ input1) ![] (col ∘ aux1) (col ∘ output0)

def buildDivFullConstraintPoly : Option (Poly curve) :=
  polyWordProduct (col ∘ output0) (col ∘ input1) (col ∘ aux0) (col ∘ aux1)
    (col ∘ input0)

def buildModFullConstraintPoly : Option (Poly curve) :=
  polyWordProduct (col ∘ aux0) (col ∘ input1) (col ∘ output0) (col ∘ aux1)
    (col ∘ input0)

/-! ADDMOD and MULMOD. -/

def addmodAbLimbPoly (k : Fin 4) : Poly curve :=
  let s := polyAdd (col (input0 k)) (col (input1 k))
  let s := polyAddCarryIn (col ∘ addmodAbCarry) k s
  let s := polySub s (col (addmodSLow k))
  polySub s (polyScalarMul (col (addmodAbCarry k)) twoPow64)

def polySubRhs (sLow : Fin 4 → Poly curve) (sHigh : Poly curve) (k : ℕ)
    (s : Poly curve) : Poly curve :=
  if k < 4 then polySubLimb sLow k s else if k = 4 then polySub s sHigh else s

def addmodSumLimbPoly (k : Fin 9) : Poly curve :=
  let s := polyAddLimb (col ∘ output0) k (polyAddLimb (col ∘ addmodQnP) k [0])
  let s := polyAddCarryIn (col ∘ addmodSumCarry) k s
  let s := polySubRhs (col ∘ addmodSLow) (col colAddmodSHigh) k s
  polySub s (polyScalarMul (col (addmodSumCarry k)) twoPow64)

def buildAddmodConstraintPolys : Option (List (Poly curve)) := do
  let nIsZero := col colAddmodNIsZero
  let oneMinusNiz := polySub (onePoly curve) nIsZero
  let highDiff := polySub (col colAddmodAbCarry3) (col colAddmodSHigh)
  let ab := polyAdd (polyChainSum (addmodAbLimbPoly col))
    (polyScalarMul highDiff twoPow128)
  let abBin0 ← polyBinary curve (col colAddmodAbCarry0)
  let abBin1 ← polyBinary curve (col colAddmodAbCarry1)
  let abBin2 ← polyBinary curve (col colAddmodAbCarry2)
  let abBin3 ← polyBinary curve (col colAddmodAbCarry3)
  let sHighBin ← polyBinary curve (col colAddmodSHigh)
  let qn ← polyProductChain (col ∘ addmodQ) (col ∘ immediate) ![]
    (col ∘ addmodQnCarry) (col ∘ addmodQnP)
  let sumBody := polyAdd (polyChainSum (addmodSumLimbPoly col))
    (polyScalarMul (col colAddmodSumCarry8) twoPow128)
  let sumGated ← polyMul curve oneMinusNiz sumBody
  let slackBody := polySlackChain (col ∘ immediate) (col ∘ output0)
    (col ∘ addmodSlackB) (col ∘ addmodSlack)
  let slackGated ← polyMul curve oneMinusNiz slackBody
  let sbBin0 ← polyBinary curve (col colAddmodSlackB0)
  let sbBin1 ← polyBinary curve (col colAddmodSlackB1)
  let sbBin2 ← polyBinary curve (col colAddmodSlackB2)
  let sbBin3 ← polyBinary curve (col colAddmodSlackB3)
  let nizBin ← polyBinary curve nIsZero
  let nZeroGate ← polyMul curve nIsZero (polyLimbSum (col ∘ immediate))
  let rZeroGate ← polyMul curve nIsZero (polyLimbSum (col ∘ output0))
  return [ab, abBin0, abBin1, abBin2, abBin3, sHighBin, qn, sumGated, slackGated,
    sbBin0, sbBin1, sbBin2, sbBin3, nizBin, nZeroGate, rZeroGate]

def buildMulmodConstraintPolys : Option (List (Poly curve)) := do
  let nIsZero := col colMulmodNIsZero
  let oneMinusNiz := polySub (onePoly curve) nIsZero
  let ab ← polyProductChain (col ∘ input0) (col ∘ input1) ![] (col ∘ mulmodPc)
    (col ∘ mulmodP)
  let sumBody ← polyProductChain (col ∘ mulmodQ) (col ∘ immediate)
    (col ∘ output0) (col ∘ mulmodSc) (col ∘ mulmodP)
  let sumGated ← polyMul curve oneMinusNiz sumBody
  let slackBody := polySlackChain (col ∘ immediate) (col ∘ output0)
    (col ∘ mulmodSlackB) (col ∘ mulmodSlack)
  let slackGated ← polyMul curve oneMinusNiz slackBody
  let sbBin0 ← polyBinary curve (col colMulmodSlackB0)
  let sbBin1 ← polyBinary curve (col colMulmodSlackB1)
  let sbBin2 ← polyBinary curve (col colMulmodSlackB2)
  let sbBin3 ← polyBinary curve (col colMulmodSlackB3)
  let nizBin ← polyBinary curve nIsZero
  let nZeroGate ← polyMul curve nIsZero (polyLimbSum (col ∘ immediate))
  let rZeroGate ← polyMul curve nIsZero (polyLimbSum (col ∘ output0))
  return [ab, sumGated, slackGated, sbBin0, sbBin1, sbBin2, sbBin3, nizBin,
    nZeroGate, rZeroGate]

/-! SIGNEXTEND. -/

def byteSumPoly (count : ℕ) : Poly curve :=
  polyAddAll (List.range count)
    (fun i => polyScalarMul (col (columnAt colSeByte0 i))
      (byteWeight i : Scalar curve)) [0]

def signextendCasePoly (k : ℕ) : Poly curve :=
  let ll := k / 8
  let bb := k % 8 + 1
  let out := fun l => col (columnAt colOutput0L0 l)
  let in1 := fun l => col (columnAt colInput1L0 l)
  let signBit := col colSeSignBit
  let caseBody := polyAdd [0] (polySub (in1 ll) (byteSumPoly col 8))
  let splitBody := polySub (col (columnAt colSeByte0 (bb - 1)))
    (polyScalarMul signBit 128)
  let caseBody := polyAdd caseBody (polySub splitBody (col colSeLow7))
  let caseBody := polyAddAll (List.range ll)
    (fun l => polySub (out l) (in1 l)) caseBody
  let fillTerm := polyScalarMul signBit (fillMask bb : Scalar curve)
  let mixedBody := polySub (polySub (out ll) (byteSumPoly col bb)) fillTerm
  let caseBody := polyAdd caseBody mixedBody
  let fillHigh := polyScalarMul signBit (maxU64 : Scalar curve)
  polyAddAll (List.range' (ll + 1) (4 - (ll + 1)))
    (fun l => polySub (out l) fillHigh) caseBody

def buildSignextendConstraintPoly : Option (Poly curve) := do
  let body ← polyAddAllM (List.range 31)
    (fun k => polyMul curve (col (columnAt colSelSe0 k))
      (signextendCasePoly col k)) [0]
  let ptBody := polyAddAll (List.range 4)
    (fun l => polySub (col (columnAt colOutput0L0 l))
      (col (columnAt colInput1L0 l))) [0]
  let passed ← polyMul curve (col colSelSeGe31) ptBody
  return polyAdd body passed

/-! Comparisons. -/

def upperOutputPoly : Poly curve :=
  polyAdd (polyAdd (col colOutput0L1) (col colOutput0L2)) (col colOutput0L3)

def buildLessConstraintPoly (x y : Fin 4 → Column) : Option (Poly curve) := do
  let c := polyBorrowLimb (col ∘ x) (col ∘ y) (col ∘ aux0) (col ∘ aux1)
  let bb0 ← polyBinary curve (col colAux0L0)
  let bb1 ← polyBinary curve (col colAux0L1)
  let bb2 ← polyBinary curve (col colAux0L2)
  let bb3 ← polyBinary curve (col colAux0L3)
  let outputCheck := polySub (col colOutput0L0) (col colAux0L3)
  let body := polyAdd (polyAdd (polyAdd (c 0) (c 1)) (c 2)) (c 3)
  let body := polyAdd (polyAdd (polyAdd (polyAdd body bb0) bb1) bb2) bb3
  return polyAdd (polyAdd body outputCheck) (upperOutputPoly col)

def buildLtConstraintPoly : Option (Poly curve) :=
  buildLessConstraintPoly col input0 input1

def buildGtConstraintPoly : Option (Poly curve) :=
  buildLessConstraintPoly col input1 input0

def buildEqConstraintPoly : Option (Poly curve) := do
  let out := col colOutput0L0
  let diff := fun k => polySub (col (input0 k)) (col (input1 k))
  let binary ← polyBinary curve out
  let eq0 ← polyMul curve out (diff 0)
  let eq1 ← polyMul curve out (diff 1)
  let eq2 ← polyMul curve out (diff 2)
  let eq3 ← polyMul curve out (diff 3)
  let body := polyAdd (polyAdd (polyAdd (polyAdd binary eq0) eq1) eq2) eq3
  return polyAdd body (upperOutputPoly col)

def buildIszeroConstraintPoly : Option (Poly curve) := do
  let out := col colOutput0L0
  let binary ← polyBinary curve out
  let iz0 ← polyMul curve out (col colInput0L0)
  let iz1 ← polyMul curve out (col colInput0L1)
  let iz2 ← polyMul curve out (col colInput0L2)
  let iz3 ← polyMul curve out (col colInput0L3)
  let body := polyAdd (polyAdd (polyAdd (polyAdd binary iz0) iz1) iz2) iz3
  return polyAdd body (upperOutputPoly col)

def compareOtherPoly : Option (Poly curve) := do
  let binaryCheck ← polyBinary curve (col colOutput0L0)
  return polyAdd binaryCheck (upperOutputPoly col)

/-! Bitwise operations, shifts and word equalities. -/

def andLimbPoly (limb : Fin 4) : Poly curve :=
  polySub (col (output0 limb)) (col (aux0 limb))

def orLimbPoly (limb : Fin 4) : Poly curve :=
  let body := polySub (col (output0 limb)) (col (input0 limb))
  polyAdd (polySub body (col (input1 limb))) (col (aux0 limb))

def xorLimbPoly (limb : Fin 4) : Poly curve :=
  let body := polySub (col (output0 limb)) (col (input0 limb))
  let twoAux := polyScalarMul (col (aux0 limb)) 2
  polyAdd (polySub body (col (input1 limb))) twoAux

def notPoly : Poly curve :=
  polyAddAll (List.range 4) (fun k =>
    polySub (polyAdd (col (columnAt colOutput0L0 k))
      (col (columnAt colInput0L0 k))) [(maxU64 : Scalar curve)]) [0]

def buildShlConstraintPoly : Option (Poly curve) :=
  polyWordProduct (col ∘ input1) (col ∘ immediate) ![] (col ∘ aux0)
    (col ∘ output0)

def buildShiftDivConstraintPoly : Option (Poly curve) :=
  polyWordProduct (col ∘ output0) (col ∘ immediate) (col ∘ aux0) (col ∘ aux1)
    (col ∘ input1)

def wordDifferencePoly (left right : Fin 4 → Column) : Poly curve :=
  polyLimbSum fun k => polySub (col (left k)) (col (right k))

def mstore8Poly : Poly curve :=
  let auxScaled := polyScalarMul (col colAux0L0) 256
  let c0 := polySub (polyAdd auxScaled (col colMemValueL0)) (col colInput1L0)
  polyAdd (polyAdd (polyAdd c0 (col colMemValueL1)) (col colMemValueL2))
    (col colMemValueL3)

def controlPoly : Poly curve :=
  let c0 := polySub (col colOutput0L0) (col colPc)
  polyAdd (polyAdd (polyAdd c0 (col colOutput0L1)) (col colOutput0L2))
    (col colOutput0L3)

/-! The 77 gated bodies in the order of the constraints. -/

def pairs (selector : Column) (bodies : List (Poly curve)) : List (Pair curve) :=
  bodies.map fun body => (col selector, body)


def arithPairs : Option (List (Pair curve)) := do
  let binaries ← (List.finRange 4).mapM fun k => polyBinary curve (col (aux0 k))
  let mulFull ← buildMulFullConstraintPoly col
  let divFull ← buildDivFullConstraintPoly col
  let modFull ← buildModFullConstraintPoly col
  return pairs col colSelArithAdd
      ((List.finRange 4).map (addLimbPoly col) ++ binaries) ++
    pairs col colSelArithSub
      ((List.finRange 4).map (subLimbPoly col) ++ binaries) ++
    pairs col colSelArithMul [mulFull] ++ pairs col colSelArithDiv [divFull] ++
    pairs col colSelMod [modFull] ++ pairs col colSelSdiv [divFull] ++
    pairs col colSelSmod [modFull]

def comparePairs : Option (List (Pair curve)) := do
  let lt ← buildLtConstraintPoly col
  let gt ← buildGtConstraintPoly col
  let eq ← buildEqConstraintPoly col
  let iszero ← buildIszeroConstraintPoly col
  let compareOther ← compareOtherPoly col
  return pairs col colSelLt [lt] ++ pairs col colSelGt [gt] ++
    pairs col colSelEq [eq] ++ pairs col colSelIszero [iszero] ++
    pairs col colSelCompareOther [compareOther]

def bitwisePairs : List (Pair curve) :=
  pairs col colSelAnd ((List.finRange 4).map (andLimbPoly col)) ++
    pairs col colSelOr ((List.finRange 4).map (orLimbPoly col)) ++
    pairs col colSelXor ((List.finRange 4).map (xorLimbPoly col))

def shiftPairs : Option (List (Pair curve)) := do
  let shl ← buildShlConstraintPoly col
  let shr ← buildShiftDivConstraintPoly col
  let sar ← buildShiftDivConstraintPoly col
  return pairs col colSelShl [shl] ++ pairs col colSelShr [shr] ++
    pairs col colSelSar [sar]

def stackPairs : List (Pair curve) :=
  pairs col colSelPush [wordDifferencePoly col output0 immediate] ++
    pairs col colSelDup [wordDifferencePoly col output0 input0] ++
    pairs col colSelPop [polyLimbSum (col ∘ output0)] ++
    pairs col colSelSwap [wordDifferencePoly col output0 input1]

def memoryPairs : List (Pair curve) :=
  pairs col colSelMload [wordDifferencePoly col output0 memValue] ++
    pairs col colSelMstore [wordDifferencePoly col memValue input1] ++
    pairs col colSelMstore8 [mstore8Poly col]

def allPairs : Option (List (Pair curve)) := do
  let arith ← arithPairs col
  let addmod ← buildAddmodConstraintPolys col
  let mulmod ← buildMulmodConstraintPolys col
  let signextend ← buildSignextendConstraintPoly col
  let compare ← comparePairs col
  let shift ← shiftPairs col
  let word := compare ++ bitwisePairs col ++ shift ++ stackPairs col ++
    memoryPairs col
  return arith ++ pairs col colSelAddmod addmod ++
    pairs col colSelMulmod mulmod ++ [(onePoly curve, signextend)] ++ word ++
    pairs col colSelJump [controlPoly col] ++
    pairs col colSelBitwiseOther [notPoly col]

/-- `list[from..to]`. -/
def slice {α : Type} (list : List α) (first last : ℕ) : List α :=
  (list.drop first).take (last - first)

/-- The gated products are in one list without the skipped constraints, so the
runs are named by their bounds. -/
def accumulateRuns (gatedResults : List (Poly curve)) (alpha : Scalar curve) :
    Poly curve × Scalar curve :=
  let run := fun first last state =>
    (slice gatedResults first last).foldl (accumulatePoly curve alpha) state
  let state := run 0 21 ([0], 1)
  let state := run 21 37 state
  let state := run 37 47 state
  let state := skip alpha 1 state
  let state := run 47 48 state
  let state := run 48 75 state
  let state := skip alpha 1 state
  let state := run 75 76 state
  let state := skip alpha 1 state
  let state := run 76 77 state
  skip alpha 6 (skip alpha 2 (skip alpha 8 state))

def binaryPolys (selectors : List Column) : Option (List (Poly curve)) :=
  selectors.mapM fun si => polyBinary curve (col si)

def buildConstraintPolynomial (alpha : Scalar curve) : Option (Poly curve) := do
  let pairs ← allPairs col
  let gatedResults ← pairs.mapM fun (sel, body) => polyMul curve sel body
  let state := accumulateRuns gatedResults alpha
  let binaryResults ← binaryPolys col selectorColumnIndices
  let state := binaryResults.foldl (accumulatePoly curve alpha) state
  let selSum := polyAddAll selectorColumnIndices col [0]
  let state := accumulatePoly curve alpha state (subOneFromConstant curve selSum)
  let seBinaryResults ← binaryPolys col caseSelectorIndices
  let state := seBinaryResults.foldl (accumulatePoly curve alpha) state
  let caseSum := polyAddAll caseSelectorIndices col [0]
  let sumBinding := polySub (col colSelSignextend) caseSum
  return polyAdd state.1 (polyScalarMul sumBinding state.2)

end Prover

end MetaVm.Evm.Constraints
