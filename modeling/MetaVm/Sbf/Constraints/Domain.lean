import MetaVm.Sbf.Constraints.System
import MetaVm.Sbf.Trace

namespace MetaVm.Sbf.Constraints

open Zkp

/-! The evaluation on the rows of a trace. It branches on the instruction codes
of a row where the evaluation at a point multiplies by selectors. A function over
the columns is given by what it pushes for one row. -/

section Domain

variable {order : ℕ}

/-- A cell read back as a code, `to_u64() as u8`. -/
def codeAt (row : Row (ZMod order)) (column : Column) : Code :=
  (Scalar.toU64 (row column)).setWidth 8

def isAlu (insnTypeVal : Code) : Bool :=
  insnTypeVal = insnAlu64 || insnTypeVal = insnAlu32

/-- Bitwise operations and shifts are left to the vectors of their own. -/
def aluConstraint (functVal : Code) (row : Row (ZMod order)) : ZMod order :=
  if functVal = functAdd then
    row colDstValBefore + row colSrcVal -
      (row colAux0 * twoPow64 + row colDstValAfter)
  else if functVal = functSub then
    row colDstValAfter + row colSrcVal -
      (row colDstValBefore + row colAux0 * twoPow64)
  else if functVal = functMul then
    row colDstValBefore * row colSrcVal -
      (row colAux0 * twoPow64 + row colDstValAfter)
  else if functVal = functDiv then
    row colDstValAfter * row colSrcVal + row colAux0 - row colDstValBefore
  else if functVal = functMod then
    row colAux0 * row colSrcVal + row colDstValAfter - row colDstValBefore
  else if functVal = functMov then row colDstValAfter - row colSrcVal
  else 0

/-- An immediate source is compared with the immediate. -/
def evaluateAlu (row : Row (ZMod order)) : ZMod order :=
  if isAlu (codeAt row colInsnType) then
    let constraint := aluConstraint (codeAt row colFunct) row
    let isImmSource := Scalar.toU64 (row colOpcode) &&& 0x08 = 0
    if isImmSource then constraint + (row colSrcVal - row colImmediate)
    else constraint
  else 0

def branchConstraint (functVal : Code) (row : Row (ZMod order)) : ZMod order :=
  let taken := row colPc + row colImmediate
  if functVal = functJa then row colNextPc - taken
  else
    let notTaken := row colPc + bpfInsnSize
    let diffTaken := row colNextPc - taken
    let diffNotTaken := row colNextPc - notTaken
    let oneMinusAux1 := 1 - row colAux1
    let aux1Binary := row colAux1 * (row colAux1 - 1)
    let diff := row colDstValBefore - row colSrcVal
    let conditionCheck :=
      if functVal = functJeq then
        diffNotTaken * row colAux1 + diffTaken * oneMinusAux1 +
          oneMinusAux1 * diff + aux1Binary
      else if functVal = functJne then
        diffNotTaken * oneMinusAux1 + diffTaken * row colAux1 +
          oneMinusAux1 * diff + aux1Binary
      else if functVal = functJlt then
        diffNotTaken * oneMinusAux1 + diffTaken * row colAux1 + aux1Binary
      else if functVal = functJge then
        diffNotTaken * row colAux1 + diffTaken * oneMinusAux1 + aux1Binary
      else if functVal = functJgt then diffNotTaken * row colAux1 + aux1Binary
      else if functVal = functJle then aux1Binary
      else if functVal = functJslt then
        diffNotTaken * oneMinusAux1 + diffTaken * row colAux1 + aux1Binary
      else if functVal = functJsge then
        diffNotTaken * row colAux1 + diffTaken * oneMinusAux1 + aux1Binary
      else if functVal = functJsgt then diffNotTaken * row colAux1 + aux1Binary
      else aux1Binary
    diffTaken * diffNotTaken + conditionCheck

def evaluateBranches (row : Row (ZMod order)) : ZMod order :=
  if codeAt row colInsnType = insnBranch then
    branchConstraint (codeAt row colFunct) row
  else 0

/-- ST stores the immediate, STX the source. -/
def evaluateMemory (row : Row (ZMod order)) : ZMod order :=
  let insnType := codeAt row colInsnType
  if insnType = insnLoad then
    row colMemAddr - (row colSrcVal + row colImmediate) +
      (row colDstValAfter - row colMemVal)
  else if insnType = insnStore then
    let addrCheck := row colMemAddr - (row colDstValBefore + row colImmediate)
    if functStxb ≤ codeAt row colFunct then
      addrCheck + (row colMemVal - row colSrcVal)
    else addrCheck + (row colMemVal - row colImmediate)
  else 0

/-- What a vector holds on the rows whose codes pass the guard. It holds zero on
the others. -/
structure DomainVector (order : ℕ) where
  guard : Code → Code → Bool
  pushed : Row (ZMod order) → ZMod order

def DomainVector.value (vector : DomainVector order) (row : Row (ZMod order)) :
    ZMod order :=
  if vector.guard (codeAt row colInsnType) (codeAt row colFunct) then
    vector.pushed row
  else 0

def onAlu (funct : Code) (pushed : Row (ZMod order) → ZMod order) :
    DomainVector order where
  guard := fun insnType code => isAlu insnType && code = funct
  pushed := pushed

def onAluOther (pushed : Row (ZMod order) → ZMod order) : DomainVector order where
  guard := fun insnType code => isAlu insnType &&
    code ∉ [functAdd, functSub, functMov, functMul, functDiv, functMod, functAnd,
      functOr, functXor, functLsh, functRsh, functArsh]
  pushed := pushed

def onType (target : Code) (pushed : Row (ZMod order) → ZMod order) :
    DomainVector order where
  guard := fun insnType _ => insnType = target
  pushed := pushed

def onBranch (functs : List Code) : DomainVector order where
  guard := fun insnType code => insnType = insnBranch && code ∈ functs
  pushed := evaluateBranches

def onBranchOther : DomainVector order where
  guard := fun insnType code => insnType = insnBranch &&
    code ∉ [functJeq, functJne, functJlt, functJslt, functJge, functJsge]
  pushed := evaluateBranches

/-- Calls and exits are left to the oracle. -/
def zeros : DomainVector order where
  guard := fun _ _ => true
  pushed := fun _ => 0

def aux0Binary (row : Row (ZMod order)) : ZMod order :=
  row colAux0 * (row colAux0 - 1)

def domainVectors : List (DomainVector order) :=
  [onAlu functAdd evaluateAlu, onAlu functSub evaluateAlu,
    onAlu functMov evaluateAlu, onAlu functMul evaluateAlu,
    onAlu functDiv evaluateAlu, onAlu functMod evaluateAlu,
    onAlu functAnd fun row => row colDstValAfter - row colAux0,
    onAlu functOr fun row =>
      row colDstValAfter - row colDstValBefore - row colSrcVal + row colAux0,
    onAlu functXor fun row =>
      row colDstValAfter - row colDstValBefore - row colSrcVal +
        Scalar.fromU64 2 * row colAux0,
    onAlu functLsh fun row =>
      row colDstValBefore * row colAux0 - row colAux1 * twoPow64 -
        row colDstValAfter,
    onAlu functRsh fun row =>
      row colDstValAfter * row colAux0 + row colAux1 - row colDstValBefore,
    onAlu functArsh fun row =>
      row colDstValAfter * row colAux0 + row colAux1 - row colDstValBefore -
        row colAux2 * twoPow64,
    onBranch [functJeq], onBranch [functJne], onBranch [functJlt, functJslt],
    onBranch [functJge, functJsge], onBranchOther,
    onType insnLoad evaluateMemory, onType insnStore evaluateMemory,
    onAlu functAdd aux0Binary, onAlu functSub aux0Binary, zeros, zeros,
    onAluOther fun row =>
      row colDstValAfter + row colDstValBefore - row colAux0 * twoPow64 +
        row colAux0 * (row colAux0 - 1)]

def evaluateOnDomain (table : List (Row (ZMod order))) : List (List (ZMod order)) :=
  domainVectors.map fun vector => table.map vector.value

end Domain

end MetaVm.Sbf.Constraints
