import MetaVm.Evm.Constraints.Bodies
import MetaVm.Evm.Semantics

namespace MetaVm.Evm.Constraints

open Zkp

def selectorColumnIndices : List Column :=
  [colSelStop, colSelArithAdd, colSelArithSub, colSelArithMul, colSelArithDiv,
    colSelMod, colSelSdiv, colSelSmod, colSelAddmod, colSelMulmod, colSelExp,
    colSelSignextend, colSelLt, colSelGt, colSelEq, colSelIszero,
    colSelCompareOther, colSelAnd, colSelOr, colSelXor, colSelBitwiseOther,
    colSelShl, colSelShr, colSelSar, colSelKeccak, colSelEnv, colSelBlock,
    colSelPush, colSelDup, colSelPop, colSelSwap, colSelStackOther, colSelMload,
    colSelMstore, colSelMstore8, colSelMsize, colSelMemoryOther, colSelStorage,
    colSelJump, colSelLog, colSelCall, colSelCallPushFrame, colSelCallReturn,
    colSelCreate, colSelCallcode, colSelDelegatecall, colSelCreate2,
    colSelStaticcall, colSelRevert, colSelByteOp]

/-- The 32 case selectors of SIGNEXTEND. -/
def caseSelectorIndices : List Column := (List.range 32).map (columnAt colSelSe0)

/-- A constraint without a body only advances the power of `alpha`. -/
def skip {F S : Type} [CommRing F] (alpha : F) (count : ℕ) (state : S × F) : S × F :=
  (state.1, (fun ap => ap * alpha)^[count] state.2)

section Point

variable {F : Type} [CommRing F] (row : Row F)

def gated (selector : Column) (bodies : List F) : List F :=
  bodies.map fun body => row selector * body

/-! The constraints with a body, in runs between the skipped ones. -/

/-- Constraints 0 to 20. -/
def arithValues : List F :=
  gated row colSelArithAdd
      ((List.finRange 4).map (evaluateArithAddLimbRaw row) ++
        (List.finRange 4).map (evaluateCarryBinaryRaw row)) ++
    gated row colSelArithSub
      ((List.finRange 4).map (evaluateArithSubLimbRaw row) ++
        (List.finRange 4).map (evaluateCarryBinaryRaw row)) ++
    gated row colSelArithMul [evaluateArithMulFullRaw row] ++
    gated row colSelArithDiv [evaluateArithDivFullRaw row] ++
    gated row colSelMod [evaluateArithModFullRaw row] ++
    gated row colSelSdiv [evaluateArithDivFullRaw row] ++
    gated row colSelSmod [evaluateArithModFullRaw row]

def compareValues : List F :=
  gated row colSelLt [evaluateLtRaw row] ++
    gated row colSelGt [evaluateGtRaw row] ++
    gated row colSelEq [evaluateEqRaw row] ++
    gated row colSelIszero [evaluateIszeroRaw row] ++
    gated row colSelCompareOther [evaluateCompareOtherRaw row]

def bitwiseValues : List F :=
  gated row colSelAnd ((List.range 4).map (evaluateAndLimbRaw row)) ++
    gated row colSelOr ((List.range 4).map (evaluateOrLimbRaw row)) ++
    gated row colSelXor ((List.range 4).map (evaluateXorLimbRaw row))

def shiftValues : List F :=
  gated row colSelShl [evaluateShlRaw row] ++
    gated row colSelShr [evaluateShrRaw row] ++
    gated row colSelSar [evaluateSarRaw row]

def stackValues : List F :=
  gated row colSelPush [evaluatePushRaw row] ++
    gated row colSelDup [evaluateDupRaw row] ++
    gated row colSelPop [evaluatePopRaw row] ++
    gated row colSelSwap [evaluateSwapRaw row]

def memoryValues : List F :=
  gated row colSelMload [evaluateMloadRaw row] ++
    gated row colSelMstore [evaluateMstoreRaw row] ++
    gated row colSelMstore8 [evaluateMstore8Raw row]

/-- Constraints 49 to 75. -/
def wordValues : List F :=
  compareValues row ++ bitwiseValues row ++ shiftValues row ++ stackValues row ++
    memoryValues row

def jumpValues : List F := gated row colSelJump [evaluateControlRaw row]

def notValues : List F :=
  gated row colSelBitwiseOther [addAll (List.range 4) (evaluateNotLimbRaw row) 0]

def binaryValues (selectors : List Column) : List F :=
  selectors.map fun si => row si * (row si - 1)

/-- The constraints gated by an instruction. The bodies skipped are those of EXP,
of MSIZE, of STOP, of the eight families without constraints, and of the eight
frame transitions. -/
def evaluateRuns (alpha : F) : F × F :=
  let state := (arithValues row).foldl (accumulate alpha) (0, 1)
  let state := (gated row colSelAddmod (evaluateAddmodRaw row)).foldl
    (accumulate alpha) state
  let state := (gated row colSelMulmod (evaluateMulmodRaw row)).foldl
    (accumulate alpha) state
  let state := skip alpha 1 state
  let state := accumulate alpha state (evaluateSignextendRaw row)
  let state := (wordValues row).foldl (accumulate alpha) state
  let state := skip alpha 1 state
  let state := (jumpValues row).foldl (accumulate alpha) state
  let state := skip alpha 1 state
  let state := (notValues row).foldl (accumulate alpha) state
  skip alpha 6 (skip alpha 2 (skip alpha 8 state))

/-- The combination the verifier computes from the evaluations of all columns. -/
def evaluateAtPoint (alpha : F) : F :=
  let state := evaluateRuns row alpha
  let state := (binaryValues row selectorColumnIndices).foldl
    (accumulate alpha) state
  let selSum := addAll selectorColumnIndices row 0
  let state := accumulate alpha state (selSum - 1)
  let state := (binaryValues row caseSelectorIndices).foldl
    (accumulate alpha) state
  let caseSum := addAll caseSelectorIndices row 0
  state.1 + (row colSelSignextend - caseSum) * state.2

end Point

end MetaVm.Evm.Constraints

namespace MetaVm.Evm.Constraints

open Zkp

/-! Evaluation on the domain: a vector for each constraint, row by row. -/

section Vectors

variable {order : ℕ}

/-- A vector of the domain evaluation, as its entry for a row. -/
abbrev Vector (order : ℕ) : Type := Row (ZMod order) → ZMod order

def oracleZero : Vector order := fun _ => 0

/-- A body that only rows with a nonzero selector evaluate. -/
def whenSet (selector : Column) (body : Vector order) : Vector order :=
  fun row => if row selector = 0 then 0 else body row

/-- The bodies of one selector. -/
structure Family (order : ℕ) where
  selector : Column
  bodies : List (Vector order)

def Family.vectors (family : Family order) : List (Vector order) :=
  family.bodies.map (whenSet family.selector)

def arithFamilies : List (Family order) :=
  [⟨colSelArithAdd,
      (List.finRange 4).map (fun k row => evaluateArithAddLimbRaw row k) ++
        (List.finRange 4).map (fun k row => evaluateCarryBinaryRaw row k)⟩,
    ⟨colSelArithSub,
      (List.finRange 4).map (fun k row => evaluateArithSubLimbRaw row k) ++
        (List.finRange 4).map (fun k row => evaluateCarryBinaryRaw row k)⟩,
    ⟨colSelArithMul, [evaluateArithMulFullRaw]⟩,
    ⟨colSelArithDiv, [evaluateArithDivFullRaw]⟩,
    ⟨colSelMod, [evaluateArithModFullRaw]⟩,
    ⟨colSelSdiv, [evaluateArithDivFullRaw]⟩,
    ⟨colSelSmod, [evaluateArithModFullRaw]⟩]

def addmodBodies : Family order :=
  ⟨colSelAddmod, (List.range 16).map fun k row => (evaluateAddmodRaw row).getD k 0⟩

def mulmodBodies : Family order :=
  ⟨colSelMulmod, (List.range 10).map fun k row => (evaluateMulmodRaw row).getD k 0⟩

def compareFamilies : List (Family order) :=
  [⟨colSelLt, [evaluateLtRaw]⟩, ⟨colSelGt, [evaluateGtRaw]⟩, ⟨colSelEq, [evaluateEqRaw]⟩,
    ⟨colSelIszero, [evaluateIszeroRaw]⟩, ⟨colSelCompareOther, [evaluateCompareOtherRaw]⟩]

def bitwiseFamilies : List (Family order) :=
  [⟨colSelAnd, (List.range 4).map fun limb row => evaluateAndLimbRaw row limb⟩,
    ⟨colSelOr, (List.range 4).map fun limb row => evaluateOrLimbRaw row limb⟩,
    ⟨colSelXor, (List.range 4).map fun limb row => evaluateXorLimbRaw row limb⟩]

def shiftFamilies : List (Family order) :=
  [⟨colSelShl, [evaluateShlRaw]⟩, ⟨colSelShr, [evaluateShrRaw]⟩,
    ⟨colSelSar, [evaluateSarRaw]⟩]

def stackFamilies : List (Family order) :=
  [⟨colSelPush, [evaluatePushRaw]⟩, ⟨colSelDup, [evaluateDupRaw]⟩,
    ⟨colSelPop, [evaluatePopRaw]⟩, ⟨colSelSwap, [evaluateSwapRaw]⟩]

def memoryFamilies : List (Family order) :=
  [⟨colSelMload, [evaluateMloadRaw]⟩, ⟨colSelMstore, [evaluateMstoreRaw]⟩,
    ⟨colSelMstore8, [evaluateMstore8Raw]⟩]

/-- `to_u64() as u8`. -/
def codeAt (row : Row (ZMod order)) (column : Column) : Code :=
  (Scalar.toU64 (row column)).setWidth 8

/-- PC is told from the jumps by its codes. -/
def evaluateControl : Vector order := fun row =>
  if codeAt row colInsnType = insnJump ∧ codeAt row colFunct = functPc then
    evaluateControlRaw row
  else 0

def evaluateNotLimb (limb : ℕ) : Vector order :=
  whenSet colSelBitwiseOther fun row => evaluateNotLimbRaw row limb

def notVector : Vector order := fun row =>
  addAll (List.range 4) (fun limb => evaluateNotLimb limb row) 0

def binaryVector (selector : Column) : Vector order :=
  fun row => row selector * (row selector - 1)

def domainVectors : List (Vector order) :=
  arithFamilies.flatMap Family.vectors ++ addmodBodies.vectors ++ mulmodBodies.vectors ++
    [oracleZero] ++ [whenSet colSelSignextend evaluateSignextendRaw] ++
    compareFamilies.flatMap Family.vectors ++ bitwiseFamilies.flatMap Family.vectors ++
    shiftFamilies.flatMap Family.vectors ++ stackFamilies.flatMap Family.vectors ++
    memoryFamilies.flatMap Family.vectors ++ [oracleZero] ++ [evaluateControl] ++
    [oracleZero] ++ [notVector] ++ List.replicate 16 oracleZero ++
    selectorColumnIndices.map binaryVector ++
    [fun row => addAll selectorColumnIndices row 0 - 1] ++
    caseSelectorIndices.map binaryVector ++
    [fun row => row colSelSignextend - addAll caseSelectorIndices row 0]

/-- The vectors over all rows of a table. -/
def evaluateOnDomain (table : List (Row (ZMod order))) : List (List (ZMod order)) :=
  domainVectors.map fun vector => table.map vector

end Vectors

end MetaVm.Evm.Constraints
