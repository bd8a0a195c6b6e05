import MetaVm.Riscv.Constraints.OneHot
import MetaVm.Riscv.Trace.Encoding

namespace MetaVm.Riscv.Constraints

open Zkp

/-! The evaluation of the extended system on the rows of a trace. It branches
on the instruction codes of a row where the evaluation at a point multiplies
by selectors. A function over the columns is given by what it pushes for one
row. -/

section Domain

variable {order : ℕ}

/-- A cell read back as a code, `to_u64() as u8`. -/
def codeAt (row : Row (ZMod order)) (column : Column) : Code :=
  (Scalar.toU64 (row column)).setWidth 8

def aluConstraint (insnTypeVal functVal : Code) (row : Row (ZMod order)) :
    ZMod order :=
  let rdBinary := row colRdValAfter * (row colRdValAfter - 1)
  let productLow := row colRs1Val * row colRs2Val -
    (row colAux0 * twoPow64 + row colRdValAfter)
  let productHigh := row colRs1Val * row colRs2Val -
    (row colRdValAfter * twoPow64 + row colAux0)
  let quotient :=
    row colRdValAfter * row colRs2Val + row colAux0 - row colRs1Val
  let remainder :=
    row colAux0 * row colRs2Val + row colRdValAfter - row colRs1Val
  let word := fun value : ZMod order =>
    value - row colAux0 * twoPow32 - row colRdValAfter +
      row colAux1 * signExtOffset + row colAux1 * (row colAux1 - 1)
  if insnTypeVal = insnRAlu then
    if functVal = functAdd then
      row colRs1Val + row colRs2Val -
        (row colAux0 * twoPow64 + row colRdValAfter)
    else if functVal = functSub then
      row colRdValAfter + row colRs2Val -
        (row colRs1Val + row colAux0 * twoPow64)
    else if functVal = functSlt ∨ functVal = functSltu then rdBinary
    else 0
  else if insnTypeVal = insnIAlu then
    if functVal = functAddi then
      row colRs1Val + row colImmediate -
        (row colAux0 * twoPow64 + row colRdValAfter)
    else if functVal = functSlti ∨ functVal = functSltiu then rdBinary
    else 0
  else if insnTypeVal = insnMuldiv then
    if functVal = 0 then productLow
    else if functVal = 1 ∨ functVal = 2 ∨ functVal = 3 then productHigh
    else if functVal = 4 ∨ functVal = 5 then quotient
    else if functVal = 6 ∨ functVal = 7 then remainder
    else if functVal = 8 then productLow
    else if functVal = 9 ∨ functVal = 10 then quotient
    else if functVal = 11 ∨ functVal = 12 then remainder
    else 0
  else if insnTypeVal = insnWAlu then
    if functVal = functAddw then word (row colRs1Val + row colRs2Val)
    else if functVal = functSubw then word (row colRs1Val - row colRs2Val)
    else if functVal = functAddiw then word (row colRs1Val + row colImmediate)
    else 0
  else 0

def evaluateAlu (row : Row (ZMod order)) : ZMod order :=
  aluConstraint (codeAt row colInsnType) (codeAt row colFunct) row

/-- What `pushed` is on rows with the given codes, and zero on the others. -/
def onCodes (insnType : Code) (functs : List Code)
    (pushed : Row (ZMod order) → ZMod order) (row : Row (ZMod order)) :
    ZMod order :=
  if codeAt row colInsnType = insnType ∧ codeAt row colFunct ∈ functs then
    pushed row
  else 0

/-- `onCodes` for a type whose function code is not looked at. -/
def onType (insnType : Code) (pushed : Row (ZMod order) → ZMod order)
    (row : Row (ZMod order)) : ZMod order :=
  if codeAt row colInsnType = insnType then pushed row else 0

def evaluateAux0BinaryChecks (insnType funct : Code) (row : Row (ZMod order)) :
    ZMod order :=
  if codeAt row colInsnType = insnType ∧ codeAt row colFunct = funct then
    row colAux0 * (row colAux0 - 1)
  else 0

/-- The function codes of a shift vector; a word shift shares its vector with
the immediate form. -/
def shiftMatches (targetInsnType targetFunct functVal : Code) : Bool :=
  if targetInsnType = insnWAlu then
    if targetFunct = functSllw then functVal = functSllw || functVal = functSlliw
    else if targetFunct = functSrlw then
      functVal = functSrlw || functVal = functSrliw
    else if targetFunct = functSraw then
      functVal = functSraw || functVal = functSraiw
    else false
  else functVal = targetFunct

/-- The equation of a shift vector. It depends on the target function code
alone, whatever the target type. -/
def shiftConstraint (targetInsnType targetFunct : Code)
    (row : Row (ZMod order)) : ZMod order :=
  let isSll := targetFunct = functSll ∨ targetFunct = functSlli ∨
    targetFunct = functSllw ∨ targetFunct = functSlliw
  let isSra := targetFunct = functSra ∨ targetFunct = functSrai ∨
    targetFunct = functSraw ∨ targetFunct = functSraiw
  let modulus : ZMod order :=
    if targetInsnType = insnWAlu then twoPow32 else twoPow64
  if isSll then
    row colRs1Val * row colAux0 - (row colAux1 * modulus + row colRdValAfter)
  else if isSra then
    row colRdValAfter * row colAux0 + row colAux1 -
      (row colRs1Val + row colAux2 * modulus)
  else row colRdValAfter * row colAux0 + row colAux1 - row colRs1Val

def evaluateShiftOnDomain (targetInsnType targetFunct : Code)
    (row : Row (ZMod order)) : ZMod order :=
  if codeAt row colInsnType ≠ targetInsnType then 0
  else if shiftMatches targetInsnType targetFunct (codeAt row colFunct) then
    shiftConstraint targetInsnType targetFunct row
  else 0

def controlFlowConstraint (insnTypeVal functVal : Code)
    (row : Row (ZMod order)) : ZMod order :=
  if insnTypeVal = insnJal then
    row colRdValAfter - (row colPc + row colInsnLen) +
      (row colNextPc - (row colPc + row colImmediate))
  else if insnTypeVal = insnJalr then
    row colRdValAfter - (row colPc + row colInsnLen) +
      (row colNextPc - (row colRs1Val + row colImmediate - row colAux1)) +
      row colAux1 * (row colAux1 - 1)
  else if insnTypeVal = insnLui then row colRdValAfter - row colImmediate
  else if insnTypeVal = insnAuipc then
    row colRdValAfter - (row colPc + row colImmediate)
  else if insnTypeVal = insnBranch then
    let diffTaken := row colNextPc - (row colPc + row colImmediate)
    let diffNotTaken := row colNextPc - (row colPc + row colInsnLen)
    let diff := row colRs1Val - row colRs2Val
    let oneMinusAux1 := 1 - row colAux1
    let aux1Binary := row colAux1 * (row colAux1 - 1)
    let conditionCheck :=
      if functVal = functBeq then
        diffNotTaken * row colAux1 + diffTaken * oneMinusAux1 +
          oneMinusAux1 * diff + aux1Binary
      else if functVal = functBne then
        diffNotTaken * oneMinusAux1 + diffTaken * row colAux1 +
          oneMinusAux1 * diff + aux1Binary
      else if functVal = functBltu then
        diffNotTaken * oneMinusAux1 + diffTaken * row colAux1 + aux1Binary
      else if functVal = functBgeu then
        diffNotTaken * row colAux1 + diffTaken * oneMinusAux1 + aux1Binary
      else if functVal = functBlt then evaluateSignedBranchCondition row true
      else if functVal = functBge then evaluateSignedBranchCondition row false
      else 0
    diffTaken * diffNotTaken + conditionCheck
  else 0

def evaluateControlFlow (row : Row (ZMod order)) : ZMod order :=
  controlFlowConstraint (codeAt row colInsnType) (codeAt row colFunct) row

def evaluateSequentialPc (row : Row (ZMod order)) : ZMod order :=
  if codeAt row colInsnType ∈ [insnBranch, insnJal, insnJalr, insnSystem] then 0
  else row colNextPc - (row colPc + row colInsnLen)

def memoryConstraint (insnTypeVal functVal : Code) (row : Row (ZMod order)) :
    ZMod order :=
  let addrCheck := row colMemAddr - (row colRs1Val + row colImmediate)
  let partialCheck := fun mask : Word =>
    row colRs2Val - (row colAux0 * Scalar.fromU64 mask + row colMemVal)
  if insnTypeVal = insnLoad then addrCheck
  else if insnTypeVal = insnStore then
    if functVal = functSd then
      addrCheck + (row colMemVal - row colRs2Val)
    else if functVal = functSb then addrCheck + partialCheck 256
    else if functVal = functSh then addrCheck + partialCheck 65536
    else if functVal = functSw then addrCheck + partialCheck 0x100000000
    else addrCheck
  else 0

def evaluateMemoryOps (row : Row (ZMod order)) : ZMod order :=
  memoryConstraint (codeAt row colInsnType) (codeAt row colFunct) row

/-- A body evaluated where its selector cell is not zero. -/
def onSelector (selector : Column) (body : Row (ZMod order) → ZMod order)
    (row : Row (ZMod order)) : ZMod order :=
  if row selector = 0 then 0 else body row

/-- The evaluation vectors, each by its value on one row. -/
def domainVectors : List (Row (ZMod order) → ZMod order) :=
  [evaluateSequentialPc,
    onCodes insnRAlu [functAdd] evaluateAlu,
    onCodes insnRAlu [functSub] evaluateAlu,
    onCodes insnIAlu [functAddi] evaluateAlu,
    onCodes insnBranch [functBeq] evaluateControlFlow,
    onCodes insnBranch [functBne] evaluateControlFlow,
    onCodes insnBranch [functBltu] evaluateControlFlow,
    onCodes insnBranch [functBgeu] evaluateControlFlow,
    onCodes insnBranch [functBlt] evaluateControlFlow,
    onCodes insnBranch [functBge] evaluateControlFlow,
    onType insnJal evaluateControlFlow,
    onType insnJalr evaluateControlFlow,
    onType insnLui evaluateControlFlow,
    onType insnAuipc evaluateControlFlow,
    evaluateMemoryOps,
    evaluateAux0BinaryChecks insnRAlu functAdd,
    evaluateAux0BinaryChecks insnRAlu functSub,
    evaluateAux0BinaryChecks insnIAlu functAddi,
    onCodes insnWAlu [functAddw] evaluateAlu,
    onCodes insnWAlu [functSubw] evaluateAlu,
    onCodes insnWAlu [functAddiw] evaluateAlu,
    onCodes insnMuldiv [0] evaluateAlu,
    onCodes insnMuldiv [4, 5] evaluateAlu,
    onCodes insnMuldiv [6, 7] evaluateAlu,
    onCodes insnRAlu [functAnd] fun row => row colRdValAfter - row colAux0,
    onCodes insnRAlu [functOr] fun row =>
      row colRdValAfter - (row colRs1Val + row colRs2Val - row colAux0),
    onCodes insnRAlu [functXor] fun row =>
      row colRdValAfter -
        (row colRs1Val + row colRs2Val - Scalar.fromU64 2 * row colAux0),
    onCodes insnIAlu [functAndi] fun row => row colRdValAfter - row colAux0,
    onCodes insnIAlu [functOri] fun row =>
      row colRdValAfter - (row colRs1Val + row colImmediate - row colAux0),
    onCodes insnIAlu [functXori] fun row =>
      row colRdValAfter -
        (row colRs1Val + row colImmediate - Scalar.fromU64 2 * row colAux0),
    evaluateShiftOnDomain insnRAlu functSll,
    evaluateShiftOnDomain insnRAlu functSrl,
    evaluateShiftOnDomain insnRAlu functSra,
    evaluateShiftOnDomain insnIAlu functSlli,
    evaluateShiftOnDomain insnIAlu functSrli,
    evaluateShiftOnDomain insnIAlu functSrai,
    evaluateShiftOnDomain insnWAlu functSllw,
    evaluateShiftOnDomain insnWAlu functSrlw,
    evaluateShiftOnDomain insnWAlu functSraw,
    onSelector colSelCsrrw evaluateCsrrwRaw,
    onSelector colSelCsrrwI evaluateCsrrwIRaw,
    onSelector colSelCsrrs evaluateCsrrsRaw,
    onSelector colSelCsrrsI evaluateCsrrsIRaw,
    onSelector colSelMulh evaluateMulhRaw,
    onSelector colSelMulhsu evaluateMulhsuRaw,
    onSelector colSelMulw evaluateMulwRaw,
    onSelector colSelDivw evaluateDivwRaw,
    onSelector colSelRemw evaluateRemwRaw,
    onSelector colSelAmoSwap evaluateAmoSwapRaw,
    onSelector colSelAmoAdd evaluateAmoAddRaw,
    onSelector colSelAmoBitwise evaluateAmoAndRaw,
    onSelector colSelAmoOr evaluateAmoOrRaw,
    onSelector colSelAmoXor evaluateAmoXorRaw,
    onSelector colSelAmoCompare evaluateAmoMinuRaw,
    onSelector colSelAmoMaxu evaluateAmoMaxuRaw,
    onSelector colSelAmoMins evaluateAmoMinsRaw,
    onSelector colSelAmoMaxs evaluateAmoMaxsRaw]

def evaluateExtendedOnDomain (table : List (Row (ZMod order))) :
    List (List (ZMod order)) :=
  domainVectors.map fun vector => table.map vector

end Domain

end MetaVm.Riscv.Constraints
