import MetaVm.Riscv.Constraints.System

namespace MetaVm.Riscv.Constraints

open Zkp

/-! The prover's side: the same system over coefficient vectors. Every product
may fail with `polyMul`, so the blocks are computations in `Option`. -/

section Prover

variable (curve : CurveType) (col : Column → List (Scalar curve))

def polySignedLt (aux0 aux1 aux2 : Poly curve) : Option (Poly curve) := do
  let oneMAux2 := polySub (onePoly curve) aux2
  let term1 ← polyMul curve aux1 oneMAux2
  let aux1Aux2 ← polyMul curve aux1 aux2
  let sameSign := polyAdd (polySub (polySub (onePoly curve) aux1) aux2)
    (polyScalarMul aux1Aux2 (Scalar.fromU64 2))
  let term2 ← polyMul curve sameSign aux0
  return polyAdd term1 term2

def polyWordTruncation (value upper result sign : Poly curve) :
    Option (Poly curve) := do
  let c1 := polyAdd
    (polySub (polySub value (polyScalarMul upper twoPow32)) result)
    (polyScalarMul sign signExtOffset)
  let signBinary ← polyBinary curve sign
  return polyAdd c1 signBinary

def sequentialPcPair : Pair curve :=
  (sequentialSelectors.tail.foldl (fun seq si => polyAdd seq (col si))
      (col colSelRAluAdd),
    polySub (col colNextPc) (polyAdd (col colPc) (col colInsnLen)))

def addMainPair (selector operand : Column) : Pair curve :=
  let sum := polyAdd (col colRs1Val) (col operand)
  let carryTerm := polyScalarMul (col colAux0) twoPow64
  (col selector, polySub sum (polyAdd carryTerm (col colRdValAfter)))

def subMainPair : Pair curve :=
  let lhs := polyAdd (col colRdValAfter) (col colRs2Val)
  let borrowTerm := polyScalarMul (col colAux0) twoPow64
  (col colSelRAluSub, polySub lhs (polyAdd (col colRs1Val) borrowTerm))

/-- The branch sub-expressions computed once. -/
structure BranchTerms where
  taken : Poly curve
  notTaken : Poly curve
  diffTaken : Poly curve
  diffNotTaken : Poly curve
  targetCheck : Poly curve
  oneMAux1 : Poly curve
  rsDiff : Poly curve
  aux1Binary : Poly curve

def branchTerms : Option (BranchTerms curve) := do
  let taken := polyAdd (col colPc) (col colImmediate)
  let notTaken := polyAdd (col colPc) (col colInsnLen)
  let diffTaken := polySub (col colNextPc) taken
  let diffNotTaken := polySub (col colNextPc) notTaken
  let targetCheck ← polyMul curve diffTaken diffNotTaken
  let oneMAux1 := polySub (onePoly curve) (col colAux1)
  let rsDiff := polySub (col colRs1Val) (col colRs2Val)
  let aux1Binary ← polyBinary curve (col colAux1)
  return ⟨taken, notTaken, diffTaken, diffNotTaken, targetCheck, oneMAux1,
    rsDiff, aux1Binary⟩

variable (terms : BranchTerms curve)

def beqPair : Option (Pair curve) := do
  let c1 ← polyMul curve terms.diffNotTaken (col colAux1)
  let c2 ← polyMul curve terms.diffTaken terms.oneMAux1
  let c3 ← polyMul curve terms.oneMAux1 terms.rsDiff
  return (col colSelBeq, polyAdd terms.targetCheck
    (polyAdd c1 (polyAdd c2 (polyAdd c3 terms.aux1Binary))))

def bnePair : Option (Pair curve) := do
  let c1 ← polyMul curve terms.diffNotTaken terms.oneMAux1
  let c2 ← polyMul curve terms.diffTaken (col colAux1)
  let c3 ← polyMul curve terms.oneMAux1 terms.rsDiff
  return (col colSelBne, polyAdd terms.targetCheck
    (polyAdd c1 (polyAdd c2 (polyAdd c3 terms.aux1Binary))))

def bltuPair : Option (Pair curve) := do
  let c1 ← polyMul curve terms.diffNotTaken terms.oneMAux1
  let c2 ← polyMul curve terms.diffTaken (col colAux1)
  return (col colSelBltu, polyAdd terms.targetCheck
    (polyAdd c1 (polyAdd c2 terms.aux1Binary)))

def bgeuPair : Option (Pair curve) := do
  let c1 ← polyMul curve terms.diffNotTaken (col colAux1)
  let c2 ← polyMul curve terms.diffTaken terms.oneMAux1
  return (col colSelBgeu, polyAdd terms.targetCheck
    (polyAdd c1 (polyAdd c2 terms.aux1Binary)))

/-- The signed-branch sub-expressions computed once. -/
structure SignedTerms where
  aux0Binary : Poly curve
  aux1Binary : Poly curve
  aux2Binary : Poly curve
  signedLt : Poly curve
  oneMSignedLt : Poly curve

def signedTerms : Option (SignedTerms curve) := do
  let aux0Binary ← polyBinary curve (col colAux0)
  let aux1Binary ← polyBinary curve (col colAux1)
  let aux2Binary ← polyBinary curve (col colAux2)
  let signedLt ← polySignedLt curve (col colAux0) (col colAux1) (col colAux2)
  return ⟨aux0Binary, aux1Binary, aux2Binary, signedLt,
    polySub (onePoly curve) signedLt⟩

def signedBranchPair (signed : SignedTerms curve) (selector : Column)
    (whenTaken whenNotTaken : Poly curve) : Option (Pair curve) := do
  let c1 ← polyMul curve terms.diffNotTaken whenTaken
  let c2 ← polyMul curve terms.diffTaken whenNotTaken
  return (col selector, polyAdd terms.targetCheck
    (polyAdd c1 (polyAdd c2 (polyAdd signed.aux0Binary
      (polyAdd signed.aux1Binary signed.aux2Binary)))))

def bltPair (signed : SignedTerms curve) : Option (Pair curve) :=
  signedBranchPair curve col terms signed colSelBlt signed.oneMSignedLt
    signed.signedLt

def bgePair (signed : SignedTerms curve) : Option (Pair curve) :=
  signedBranchPair curve col terms signed colSelBge signed.signedLt
    signed.oneMSignedLt

def jalPair : Pair curve :=
  let rdCheck := polySub (col colRdValAfter) terms.notTaken
  let pcCheck := polySub (col colNextPc) terms.taken
  (col colSelJal, polyAdd rdCheck pcCheck)

def jalrPair : Pair curve :=
  let rdCheck := polySub (col colRdValAfter) terms.notTaken
  let rawTarget := polyAdd (col colRs1Val) (col colImmediate)
  let pcCheck := polySub (col colNextPc) (polySub rawTarget (col colAux1))
  (col colSelJalr, polyAdd rdCheck (polyAdd pcCheck terms.aux1Binary))

/-- `selector * (left - right)`. -/
def differencePair (selector left right : Column) : Pair curve :=
  (col selector, polySub (col left) (col right))

def auipcPair : Pair curve :=
  (col colSelAuipc,
    polySub (col colRdValAfter) (polyAdd (col colPc) (col colImmediate)))

def memoryPair : Pair curve :=
  let sel := polyAdd (col colSelLoad) (col colSelStore)
  let expectedAddr := polyAdd (col colRs1Val) (col colImmediate)
  (sel, polySub (col colMemAddr) expectedAddr)

def aux0BinaryPair (selector : Column) : Option (Pair curve) := do
  let binary ← polyBinary curve (col colAux0)
  return (col selector, binary)

def wordPair (selector : Column) (value : Poly curve) : Option (Pair curve) := do
  let body ← polyWordTruncation curve value (col colAux0) (col colRdValAfter)
    (col colAux1)
  return (col selector, body)

/-- `left * right - (high * 2^64 + low)`. -/
def productPair (selector left right high low : Column) :
    Option (Pair curve) := do
  let product ← polyMul curve (col left) (col right)
  let hiTerm := polyScalarMul (col high) twoPow64
  return (col selector, polySub product (polyAdd hiTerm (col low)))

/-- `quotient * rs2 + remainder - rs1`. -/
def divisionPair (selector quotient remainder : Column) :
    Option (Pair curve) := do
  let prod ← polyMul curve (col quotient) (col colRs2Val)
  let lhs := polyAdd prod (col remainder)
  return (col selector, polySub lhs (col colRs1Val))

def orPair (selector operand : Column) : Pair curve :=
  let expected := polySub (polyAdd (col colRs1Val) (col operand)) (col colAux0)
  (col selector, polySub (col colRdValAfter) expected)

def xorPair (selector operand : Column) : Pair curve :=
  let twoAux0 := polyScalarMul (col colAux0) (Scalar.fromU64 2)
  let expected := polySub (polyAdd (col colRs1Val) (col operand)) twoAux0
  (col selector, polySub (col colRdValAfter) expected)

def shiftLeftPair (selector : Column) (modulus : Scalar curve) :
    Option (Pair curve) := do
  let product ← polyMul curve (col colRs1Val) (col colAux0)
  let hiTerm := polyScalarMul (col colAux1) modulus
  return (col selector, polySub product (polyAdd hiTerm (col colRdValAfter)))

def shiftRightPair (selector : Column) : Option (Pair curve) := do
  let prod ← polyMul curve (col colRdValAfter) (col colAux0)
  let lhs := polyAdd prod (col colAux1)
  return (col selector, polySub lhs (col colRs1Val))

def shiftRightArithPair (selector : Column) (modulus : Scalar curve) :
    Option (Pair curve) := do
  let prod ← polyMul curve (col colRdValAfter) (col colAux0)
  let lhs := polyAdd prod (col colAux1)
  let overflowTerm := polyScalarMul (col colAux2) modulus
  return (col selector, polySub lhs (polyAdd (col colRs1Val) overflowTerm))

def comparePair (selector : Column) : Option (Pair curve) := do
  let signedLt ← polySignedLt curve (col colAux0) (col colAux1) (col colAux2)
  let rdCheck := polySub (col colRdValAfter) signedLt
  let a0Bin ← polyBinary curve (col colAux0)
  let a1Bin ← polyBinary curve (col colAux1)
  let a2Bin ← polyBinary curve (col colAux2)
  return (col selector, polyAdd rdCheck (polyAdd a0Bin (polyAdd a1Bin a2Bin)))

def csrrcPair : Pair curve :=
  (col colSelCsrrc,
    polyAdd (polySub (col colAux0) (col colRdValAfter)) (col colAux1))

def scPair : Option (Pair curve) := do
  let binary ← polyBinary curve (col colAux0)
  let validCheck ← polyMul curve (col colAux0) (col colRdValAfter)
  return (col colSelSc, polyAdd binary validCheck)

def csrrsPair (selector source : Column) : Pair curve :=
  (col selector, polyAdd
    (polySub (polySub (col colAux0) (col colRdValAfter)) (col source))
    (col colAux1))

def mulhPair : Option (Pair curve) := do
  let two128 := polyScalarMul (onePoly curve) (twoPow64 * twoPow64)
  let product ← polyMul curve (col colRs1Val) (col colRs2Val)
  let saRs2 ← polyMul curve (col colAux1) (polyScalarMul (col colRs2Val) twoPow64)
  let sbRs1 ← polyMul curve (col colAux2) (polyScalarMul (col colRs1Val) twoPow64)
  let saSb ← polyMul curve (col colAux1) (col colAux2)
  let saSb2128 ← polyMul curve saSb two128
  let hiTerm := polyScalarMul (col colRdValAfter) twoPow64
  let main := polySub (polySub (polyAdd (polySub product saRs2) saSb2128) sbRs1)
    (polyAdd hiTerm (col colAux0))
  let a1Bin ← polyBinary curve (col colAux1)
  let a2Bin ← polyBinary curve (col colAux2)
  return (col colSelMulh, polyAdd main (polyAdd a1Bin a2Bin))

def mulhsuPair : Option (Pair curve) := do
  let product ← polyMul curve (col colRs1Val) (col colRs2Val)
  let saRs2 ← polyMul curve (col colAux1) (polyScalarMul (col colRs2Val) twoPow64)
  let hiTerm := polyScalarMul (col colRdValAfter) twoPow64
  let main := polySub (polySub product saRs2) (polyAdd hiTerm (col colAux0))
  let a1Bin ← polyBinary curve (col colAux1)
  return (col colSelMulhsu, polyAdd main a1Bin)

def mulwPair : Option (Pair curve) := do
  let product ← polyMul curve (col colRs1Val) (col colRs2Val)
  wordPair curve col colSelMulw product

/-- `quotient * rs2 + remainder - rs1 - aux1 * 2^32`. -/
def divisionWordPair (selector quotient remainder : Column) :
    Option (Pair curve) := do
  let prod ← polyMul curve (col quotient) (col colRs2Val)
  let correction := polyScalarMul (col colAux1) twoPow32
  return (col selector, polySub
    (polySub (polyAdd prod (col remainder)) (col colRs1Val)) correction)

def amoSwapPair : Option (Pair curve) := do
  let body ← polyWordTruncation curve (col colRs2Val) (col colAux0)
    (col colMemVal) (col colAux1)
  return (col colSelAmoSwap, body)

def amoAddPair : Option (Pair curve) := do
  let oneMAux2 := polySub (onePoly curve) (col colAux2)
  let modulus := polyAdd (polyScalarMul (col colAux2) twoPow32)
    (polyScalarMul oneMAux2 twoPow64)
  let correctionTerm ← polyMul curve (col colAux0) modulus
  let sum := polyAdd (col colRdValAfter) (col colRs2Val)
  let aux1Aux2 ← polyMul curve (col colAux1) (col colAux2)
  let signCorr ← polyMul curve aux1Aux2
    (polyScalarMul (onePoly curve) signExtOffset)
  let c1 := polyAdd (polySub (polySub sum (col colMemVal)) correctionTerm) signCorr
  let a1Bin ← polyBinary curve (col colAux1)
  let a2Bin ← polyBinary curve (col colAux2)
  let a0Bin ← polyBinary curve (col colAux0)
  let a0DBin ← polyMul curve oneMAux2 a0Bin
  return (col colSelAmoAdd, polyAdd c1 (polyAdd a1Bin (polyAdd a2Bin a0DBin)))

/-- `mem_val + witness - rd - (rs2 + aux1 * 2^32)`. -/
def amoBitwisePair (selector : Column) (witness : Poly curve) : Pair curve :=
  (col selector, polySub
    (polySub (polyAdd (col colMemVal) witness) (col colRdValAfter))
    (polyAdd (col colRs2Val) (polyScalarMul (col colAux1) twoPow32)))

def amoMinuPair : Option (Pair curve) := do
  let rdMRs2 := polySub (col colRdValAfter) (col colRs2Val)
  let selection ← polyMul curve (col colAux0) rdMRs2
  let correction := polyScalarMul (col colAux1) twoPow32
  let c1 := polySub (polySub (polySub (col colMemVal) (col colRs2Val)) selection)
    correction
  let a0Bin ← polyBinary curve (col colAux0)
  return (col colSelAmoCompare, polyAdd c1 a0Bin)

def amoMaxuPair : Option (Pair curve) := do
  let rdMRs2 := polySub (col colRdValAfter) (col colRs2Val)
  let selection ← polyMul curve (col colAux0) rdMRs2
  let correction := polyScalarMul (col colAux1) twoPow32
  let c1 := polySub
    (polyAdd (polySub (col colMemVal) (col colRdValAfter)) selection) correction
  let a0Bin ← polyBinary curve (col colAux0)
  return (col colSelAmoMaxu, polyAdd c1 a0Bin)

def amoMinsPair : Option (Pair curve) := do
  let slt ← polySignedLt curve (col colAux0) (col colAux1) (col colAux2)
  let rdMRs2 := polySub (col colRdValAfter) (col colRs2Val)
  let selTerm ← polyMul curve slt rdMRs2
  let c1 := polySub (polySub (col colMemVal) (col colRs2Val)) selTerm
  let a0b ← polyBinary curve (col colAux0)
  let a1b ← polyBinary curve (col colAux1)
  let a2b ← polyBinary curve (col colAux2)
  return (col colSelAmoMins, polyAdd c1 (polyAdd a0b (polyAdd a1b a2b)))

def amoMaxsPair : Option (Pair curve) := do
  let slt ← polySignedLt curve (col colAux0) (col colAux1) (col colAux2)
  let rdMRs2 := polySub (col colRdValAfter) (col colRs2Val)
  let selTerm ← polyMul curve slt rdMRs2
  let c1 := polyAdd (polySub (col colMemVal) (col colRdValAfter)) selTerm
  let a0b ← polyBinary curve (col colAux0)
  let a1b ← polyBinary curve (col colAux1)
  let a2b ← polyBinary curve (col colAux2)
  return (col colSelAmoMaxs, polyAdd c1 (polyAdd a0b (polyAdd a1b a2b)))

/-- The 63 gated blocks in the order of their powers of `alpha`. -/
def pairBlocks (signed : SignedTerms curve) : List (Option (Pair curve)) :=
  [some (sequentialPcPair curve col),
    some (addMainPair curve col colSelRAluAdd colRs2Val),
    some (subMainPair curve col),
    some (addMainPair curve col colSelIAluAdd colImmediate),
    beqPair curve col terms,
    bnePair curve col terms,
    bltuPair curve col terms,
    bgeuPair curve col terms,
    bltPair curve col terms signed,
    bgePair curve col terms signed,
    some (jalPair curve col terms),
    some (jalrPair curve col terms),
    some (differencePair curve col colSelLui colRdValAfter colImmediate),
    some (auipcPair curve col),
    some (memoryPair curve col),
    aux0BinaryPair curve col colSelRAluAdd,
    aux0BinaryPair curve col colSelRAluSub,
    aux0BinaryPair curve col colSelIAluAdd,
    wordPair curve col colSelWAluAdd (polyAdd (col colRs1Val) (col colRs2Val)),
    wordPair curve col colSelWAluSub (polySub (col colRs1Val) (col colRs2Val)),
    wordPair curve col colSelWAluAddi
      (polyAdd (col colRs1Val) (col colImmediate)),
    productPair curve col colSelMul colRs1Val colRs2Val colAux0 colRdValAfter,
    divisionPair curve col colSelDiv colRdValAfter colAux0,
    divisionPair curve col colSelRem colAux0 colRdValAfter,
    some (differencePair curve col colSelRAnd colRdValAfter colAux0),
    some (orPair curve col colSelROr colRs2Val),
    some (xorPair curve col colSelRXor colRs2Val),
    some (differencePair curve col colSelIAnd colRdValAfter colAux0),
    some (orPair curve col colSelIOr colImmediate),
    some (xorPair curve col colSelIXor colImmediate),
    shiftLeftPair curve col colSelRSll twoPow64,
    shiftRightPair curve col colSelRSrl,
    shiftRightArithPair curve col colSelRSra twoPow64,
    shiftLeftPair curve col colSelISll twoPow64,
    shiftRightPair curve col colSelISrl,
    shiftRightArithPair curve col colSelISra twoPow64,
    shiftLeftPair curve col colSelWSll twoPow32,
    shiftRightPair curve col colSelWSrl,
    shiftRightArithPair curve col colSelWSra twoPow32,
    comparePair curve col colSelRCompare,
    comparePair curve col colSelICompare,
    some (csrrcPair curve col),
    some (differencePair curve col colSelLr colRdValAfter colMemVal),
    scPair curve col,
    productPair curve col colSelMulhu colRs1Val colRs2Val colRdValAfter colAux0,
    some (differencePair curve col colSelCsrrw colAux0 colRs1Val),
    some (differencePair curve col colSelCsrrwI colAux0 colImmediate),
    some (csrrsPair curve col colSelCsrrs colRs1Val),
    some (csrrsPair curve col colSelCsrrsI colImmediate),
    mulhPair curve col,
    mulhsuPair curve col,
    mulwPair curve col,
    divisionWordPair curve col colSelDivw colRdValAfter colAux0,
    divisionWordPair curve col colSelRemw colAux0 colRdValAfter,
    amoSwapPair curve col,
    amoAddPair curve col,
    some (amoBitwisePair curve col colSelAmoBitwise (col colAux0)),
    some (amoBitwisePair curve col colSelAmoOr (col colAux0)),
    some (amoBitwisePair curve col colSelAmoXor
      (polyScalarMul (col colAux0) (Scalar.fromU64 2))),
    amoMinuPair curve col,
    amoMaxuPair curve col,
    amoMinsPair curve col,
    amoMaxsPair curve col]

def buildConstraintPolynomial (alpha : Scalar curve) :
    Option (Poly curve) := do
  let terms ← branchTerms curve col
  let signed ← signedTerms curve col
  let pairs ← (pairBlocks curve col terms signed).mapM id
  let gatedResults ← pairs.mapM fun (sel, body) => polyMul curve sel body
  let state := gatedResults.foldl (accumulatePoly curve alpha) ([0], 1)
  let binaryResults ← selectorColumnIndices.mapM fun si =>
    polyBinary curve (col si)
  let state := binaryResults.foldl (accumulatePoly curve alpha) state
  let selSum := selectorColumnIndices.foldl
    (fun selSum si => polyAdd selSum (col si)) [0]
  return polyAdd state.1
    (polyScalarMul (subOneFromConstant curve selSum) state.2)

end Prover

end MetaVm.Riscv.Constraints
