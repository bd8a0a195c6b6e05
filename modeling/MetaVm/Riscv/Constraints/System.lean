import MetaVm.Riscv.Constraints.Alu
import MetaVm.Zkp.ConstraintPoly

namespace MetaVm.Riscv.Constraints

section Raw

variable {F : Type} [CommRing F]

def evaluateSequentialPcRaw (row : Row F) : F :=
  row colNextPc - (row colPc + row colInsnLen)

def diffTaken (row : Row F) : F :=
  row colNextPc - (row colPc + row colImmediate)

def diffNotTaken (row : Row F) : F :=
  row colNextPc - (row colPc + row colInsnLen)

/-- Zero when the next program counter is one of the two branch targets. -/
def targetCheck (row : Row F) : F := diffTaken row * diffNotTaken row

def evaluateBeqConditionRaw (row : Row F) : F :=
  let oneMAux1 := 1 - row colAux1
  targetCheck row + diffNotTaken row * row colAux1 +
    diffTaken row * oneMAux1 + oneMAux1 * (row colRs1Val - row colRs2Val) +
    binaryCheck (row colAux1)

def evaluateBneConditionRaw (row : Row F) : F :=
  let oneMAux1 := 1 - row colAux1
  targetCheck row + diffNotTaken row * oneMAux1 +
    diffTaken row * row colAux1 + oneMAux1 * (row colRs1Val - row colRs2Val) +
    binaryCheck (row colAux1)

def evaluateBltuConditionRaw (row : Row F) : F :=
  targetCheck row + diffNotTaken row * (1 - row colAux1) +
    diffTaken row * row colAux1 + binaryCheck (row colAux1)

def evaluateBgeuConditionRaw (row : Row F) : F :=
  targetCheck row + diffNotTaken row * row colAux1 +
    diffTaken row * (1 - row colAux1) + binaryCheck (row colAux1)

def evaluateSignedBranchCondition (row : Row F) (isLt : Bool) : F :=
  let signBinaries := fun direction : F =>
    direction + binaryCheck (row colAux1) + binaryCheck (row colAux2) +
      binaryCheck (row colAux0)
  let lt := signedLt (row colAux0) (row colAux1) (row colAux2)
  if isLt then
    signBinaries (targetCheck row + diffNotTaken row * (1 - lt) +
      diffTaken row * lt)
  else
    signBinaries (targetCheck row + diffNotTaken row * lt +
      diffTaken row * (1 - lt))

def evaluateBltConditionRaw (row : Row F) : F :=
  evaluateSignedBranchCondition row true

def evaluateBgeConditionRaw (row : Row F) : F :=
  evaluateSignedBranchCondition row false

def evaluateJalRaw (row : Row F) : F :=
  row colRdValAfter - (row colPc + row colInsnLen) +
    (row colNextPc - (row colPc + row colImmediate))

def evaluateJalrRaw (row : Row F) : F :=
  row colRdValAfter - (row colPc + row colInsnLen) +
    (row colNextPc - (row colRs1Val + row colImmediate - row colAux1)) +
    binaryCheck (row colAux1)

def evaluateLuiRaw (row : Row F) : F := row colRdValAfter - row colImmediate

def evaluateAuipcRaw (row : Row F) : F :=
  row colRdValAfter - (row colPc + row colImmediate)

/-- The address computation of a load or store. -/
def evaluateMemoryOpsRaw (row : Row F) : F :=
  row colMemAddr - (row colRs1Val + row colImmediate)

end Raw

end MetaVm.Riscv.Constraints

namespace MetaVm.Riscv.Constraints

open Zkp

section Point

variable {F : Type} [CommRing F]

/-! The extended system: 63 bodies gated by selectors, a binary constraint for
each of the 64 selectors, and one that makes them sum to one. -/

/-- The selectors of the instructions that fall through, all but branches,
jumps and system instructions. -/
def sequentialSelectors : List Column :=
  [colSelRAluAdd, colSelRAluSub, colSelRAnd, colSelROr, colSelRXor, colSelRSll,
    colSelRSrl, colSelRSra, colSelRCompare, colSelIAluAdd, colSelIAnd,
    colSelIOr, colSelIXor, colSelISll, colSelISrl, colSelISra, colSelICompare,
    colSelWAluAdd, colSelWAluSub, colSelWAluAddi, colSelWSll, colSelWSrl,
    colSelWSra, colSelWAluOther, colSelMul, colSelDiv, colSelRem,
    colSelMuldivOther, colSelLoad, colSelStore, colSelLui, colSelAuipc,
    colSelCsrrw, colSelCsrrs, colSelCsrrc, colSelLr, colSelSc, colSelAmoSwap,
    colSelAmoAdd, colSelAmoBitwise, colSelAmoCompare, colSelAtomicOther,
    colSelMulhu, colSelCsrrwI, colSelCsrrsI, colSelMulh, colSelMulhsu,
    colSelMulw, colSelDivw, colSelRemw, colSelAmoOr, colSelAmoXor,
    colSelAmoMaxu, colSelAmoMins, colSelAmoMaxs]

structure GatedConstraint (F : Type) where
  selectors : List Column
  body : Row F → F

namespace GatedConstraint

def gate (constraint : GatedConstraint F) (row : Row F) : F :=
  (constraint.selectors.map row).sum

def eval (constraint : GatedConstraint F) (row : Row F) : F :=
  constraint.gate row * constraint.body row

end GatedConstraint

def gatedConstraints : List (GatedConstraint F) :=
  [⟨sequentialSelectors, evaluateSequentialPcRaw⟩,
    ⟨[colSelRAluAdd], evaluateAluRAddMainRaw⟩,
    ⟨[colSelRAluSub], evaluateAluRSubMainRaw⟩,
    ⟨[colSelIAluAdd], evaluateAluIAddMainRaw⟩,
    ⟨[colSelBeq], evaluateBeqConditionRaw⟩,
    ⟨[colSelBne], evaluateBneConditionRaw⟩,
    ⟨[colSelBltu], evaluateBltuConditionRaw⟩,
    ⟨[colSelBgeu], evaluateBgeuConditionRaw⟩,
    ⟨[colSelBlt], evaluateBltConditionRaw⟩,
    ⟨[colSelBge], evaluateBgeConditionRaw⟩,
    ⟨[colSelJal], evaluateJalRaw⟩,
    ⟨[colSelJalr], evaluateJalrRaw⟩,
    ⟨[colSelLui], evaluateLuiRaw⟩,
    ⟨[colSelAuipc], evaluateAuipcRaw⟩,
    ⟨[colSelLoad, colSelStore], evaluateMemoryOpsRaw⟩,
    ⟨[colSelRAluAdd], evaluateAux0BinaryRaw⟩,
    ⟨[colSelRAluSub], evaluateAux0BinaryRaw⟩,
    ⟨[colSelIAluAdd], evaluateAux0BinaryRaw⟩,
    ⟨[colSelWAluAdd], evaluateAluWAddwRaw⟩,
    ⟨[colSelWAluSub], evaluateAluWSubwRaw⟩,
    ⟨[colSelWAluAddi], evaluateAluWAddiwRaw⟩,
    ⟨[colSelMul], evaluateMulRaw⟩,
    ⟨[colSelDiv], evaluateDivRaw⟩,
    ⟨[colSelRem], evaluateRemRaw⟩,
    ⟨[colSelRAnd], evaluateRAndRaw⟩,
    ⟨[colSelROr], evaluateROrRaw⟩,
    ⟨[colSelRXor], evaluateRXorRaw⟩,
    ⟨[colSelIAnd], evaluateIAndRaw⟩,
    ⟨[colSelIOr], evaluateIOrRaw⟩,
    ⟨[colSelIXor], evaluateIXorRaw⟩,
    ⟨[colSelRSll], evaluateSllRaw⟩,
    ⟨[colSelRSrl], evaluateSrlRaw⟩,
    ⟨[colSelRSra], evaluateSraRaw⟩,
    ⟨[colSelISll], evaluateSllRaw⟩,
    ⟨[colSelISrl], evaluateSrlRaw⟩,
    ⟨[colSelISra], evaluateSraRaw⟩,
    ⟨[colSelWSll], evaluateWSllRaw⟩,
    ⟨[colSelWSrl], evaluateWSrlRaw⟩,
    ⟨[colSelWSra], evaluateWSraRaw⟩,
    ⟨[colSelRCompare], evaluateCompareRaw⟩,
    ⟨[colSelICompare], evaluateCompareRaw⟩,
    ⟨[colSelCsrrc], evaluateCsrrcRaw⟩,
    ⟨[colSelLr], evaluateLrRaw⟩,
    ⟨[colSelSc], evaluateScRaw⟩,
    ⟨[colSelMulhu], evaluateMulhuRaw⟩,
    ⟨[colSelCsrrw], evaluateCsrrwRaw⟩,
    ⟨[colSelCsrrwI], evaluateCsrrwIRaw⟩,
    ⟨[colSelCsrrs], evaluateCsrrsRaw⟩,
    ⟨[colSelCsrrsI], evaluateCsrrsIRaw⟩,
    ⟨[colSelMulh], evaluateMulhRaw⟩,
    ⟨[colSelMulhsu], evaluateMulhsuRaw⟩,
    ⟨[colSelMulw], evaluateMulwRaw⟩,
    ⟨[colSelDivw], evaluateDivwRaw⟩,
    ⟨[colSelRemw], evaluateRemwRaw⟩,
    ⟨[colSelAmoSwap], evaluateAmoSwapRaw⟩,
    ⟨[colSelAmoAdd], evaluateAmoAddRaw⟩,
    ⟨[colSelAmoBitwise], evaluateAmoAndRaw⟩,
    ⟨[colSelAmoOr], evaluateAmoOrRaw⟩,
    ⟨[colSelAmoXor], evaluateAmoXorRaw⟩,
    ⟨[colSelAmoCompare], evaluateAmoMinuRaw⟩,
    ⟨[colSelAmoMaxu], evaluateAmoMaxuRaw⟩,
    ⟨[colSelAmoMins], evaluateAmoMinsRaw⟩,
    ⟨[colSelAmoMaxs], evaluateAmoMaxsRaw⟩]

def selectorBinary (row : Row F) (selector : Column) : F :=
  row selector * (row selector - 1)

def selectorSum (row : Row F) : F :=
  selectorColumnIndices.foldl (fun sum selector => sum + row selector) 0

def evaluateAtPointExtended (row : Row F) (alpha : F) : F :=
  let state := gatedConstraints.foldl (fun state constraint =>
    accumulate alpha state (constraint.eval row)) (0, 1)
  let state := selectorColumnIndices.foldl (fun state selector =>
    accumulate alpha state (selectorBinary row selector)) state
  state.1 + (selectorSum row - 1) * state.2

/-- All 128 constraint values of a row, in the order of their powers. -/
def constraintValues (row : Row F) : List F :=
  gatedConstraints.map (fun constraint => constraint.eval row) ++
    selectorColumnIndices.map (selectorBinary row) ++ [selectorSum row - 1]

end Point

/-! Range lookups. A declaration with a selector constrains the rows where the
selector is one, a declaration without one constrains every row. -/

structure LookupDeclaration where
  label : String
  columnIndex : Column
  maxBits : ℕ
  selectorColumn : Option Column
deriving DecidableEq, Repr

def lookupDeclarations : List LookupDeclaration :=
  [⟨"mul_aux0_64bit", colAux0, 64, some colSelMul⟩,
    ⟨"mulhu_aux0_64bit", colAux0, 64, some colSelMulhu⟩,
    ⟨"div_aux0_64bit", colAux0, 64, some colSelDiv⟩,
    ⟨"rem_aux0_64bit", colAux0, 64, some colSelRem⟩,
    ⟨"addw_aux0_32bit", colAux0, 32, some colSelWAluAdd⟩,
    ⟨"subw_aux0_32bit", colAux0, 32, some colSelWAluSub⟩,
    ⟨"addiw_aux0_32bit", colAux0, 32, some colSelWAluAddi⟩,
    ⟨"rd_val_after_64bit", colRdValAfter, 64, none⟩,
    ⟨"rs1_val_64bit", colRs1Val, 64, none⟩,
    ⟨"rs2_val_64bit", colRs2Val, 64, none⟩]

def LookupDeclaration.Holds {order : ℕ} (declaration : LookupDeclaration)
    (row : Row (ZMod order)) : Prop :=
  (∀ selector ∈ declaration.selectorColumn, row selector = 1) →
    (row declaration.columnIndex).val < 2 ^ declaration.maxBits

end MetaVm.Riscv.Constraints
