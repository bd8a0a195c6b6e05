import MetaVm.Evm.Columns
import MetaVm.Evm.Constraints.Limbs

namespace MetaVm.Evm

/-- The column `offset` places after `base`. -/
def columnAt (base : Column) (offset : ℕ) : Column :=
  Fin.ofNat 275 (base.val + offset)

namespace Constraints

/-! The words that the bodies read, one column to a limb. -/

def input0 : Fin 4 → Column :=
  ![colInput0L0, colInput0L1, colInput0L2, colInput0L3]

def input1 : Fin 4 → Column :=
  ![colInput1L0, colInput1L1, colInput1L2, colInput1L3]

def output0 : Fin 4 → Column :=
  ![colOutput0L0, colOutput0L1, colOutput0L2, colOutput0L3]

def memValue : Fin 4 → Column :=
  ![colMemValueL0, colMemValueL1, colMemValueL2, colMemValueL3]

def immediate : Fin 4 → Column :=
  ![colImmediateL0, colImmediateL1, colImmediateL2, colImmediateL3]

def aux0 : Fin 4 → Column := ![colAux0L0, colAux0L1, colAux0L2, colAux0L3]

def aux1 : Fin 4 → Column := ![colAux1L0, colAux1L1, colAux1L2, colAux1L3]

def addmodQ : Fin 4 → Column :=
  ![colAddmodQL0, colAddmodQL1, colAddmodQL2, colAddmodQL3]

def addmodSLow : Fin 4 → Column :=
  ![colAddmodSLowL0, colAddmodSLowL1, colAddmodSLowL2, colAddmodSLowL3]

def addmodAbCarry : Fin 4 → Column :=
  ![colAddmodAbCarry0, colAddmodAbCarry1, colAddmodAbCarry2, colAddmodAbCarry3]

def addmodQnP : Fin 8 → Column :=
  ![colAddmodQnPL0, colAddmodQnPL1, colAddmodQnPL2, colAddmodQnPL3,
    colAddmodQnPL4, colAddmodQnPL5, colAddmodQnPL6, colAddmodQnPL7]

def addmodQnCarry : Fin 7 → Column :=
  ![colAddmodQnCarry0, colAddmodQnCarry1, colAddmodQnCarry2, colAddmodQnCarry3,
    colAddmodQnCarry4, colAddmodQnCarry5, colAddmodQnCarry6]

def addmodSumCarry : Fin 9 → Column :=
  ![colAddmodSumCarry0, colAddmodSumCarry1, colAddmodSumCarry2,
    colAddmodSumCarry3, colAddmodSumCarry4, colAddmodSumCarry5,
    colAddmodSumCarry6, colAddmodSumCarry7, colAddmodSumCarry8]

def addmodSlack : Fin 4 → Column :=
  ![colAddmodSlackL0, colAddmodSlackL1, colAddmodSlackL2, colAddmodSlackL3]

def addmodSlackB : Fin 4 → Column :=
  ![colAddmodSlackB0, colAddmodSlackB1, colAddmodSlackB2, colAddmodSlackB3]

def mulmodQ : Fin 4 → Column :=
  ![colMulmodQL0, colMulmodQL1, colMulmodQL2, colMulmodQL3]

def mulmodP : Fin 8 → Column :=
  ![colMulmodPL0, colMulmodPL1, colMulmodPL2, colMulmodPL3, colMulmodPL4,
    colMulmodPL5, colMulmodPL6, colMulmodPL7]

def mulmodPc : Fin 7 → Column :=
  ![colMulmodPc0, colMulmodPc1, colMulmodPc2, colMulmodPc3, colMulmodPc4,
    colMulmodPc5, colMulmodPc6]

def mulmodSc : Fin 7 → Column :=
  ![colMulmodSc0, colMulmodSc1, colMulmodSc2, colMulmodSc3, colMulmodSc4,
    colMulmodSc5, colMulmodSc6]

def mulmodSlack : Fin 4 → Column :=
  ![colMulmodSlackL0, colMulmodSlackL1, colMulmodSlackL2, colMulmodSlackL3]

def mulmodSlackB : Fin 4 → Column :=
  ![colMulmodSlackB0, colMulmodSlackB1, colMulmodSlackB2, colMulmodSlackB3]

section Bodies

variable {F : Type} [CommRing F] (row : Row F)

/-! The bodies of the verifier, on the evaluations of all columns. -/

def evaluateArithAddLimbRaw (k : Fin 4) : F :=
  let sum := addCarryIn (row ∘ aux0) k (row (input0 k) + row (input1 k))
  sum - row (aux0 k) * twoPow64 - row (output0 k)

def evaluateArithSubLimbRaw (k : Fin 4) : F :=
  let sum := addCarryIn (row ∘ aux0) k (row (output0 k) + row (input1 k))
  sum - row (input0 k) - row (aux0 k) * twoPow64

def evaluateCarryBinaryRaw (k : Fin 4) : F := binaryCheck (row (aux0 k))

def evaluateArithMulFullRaw : F :=
  wordProduct (row ∘ input0) (row ∘ input1) ![] (row ∘ aux1) (row ∘ output0)

def evaluateArithDivFullRaw : F :=
  wordProduct (row ∘ output0) (row ∘ input1) (row ∘ aux0) (row ∘ aux1)
    (row ∘ input0)

def evaluateArithModFullRaw : F :=
  wordProduct (row ∘ aux0) (row ∘ input1) (row ∘ output0) (row ∘ aux1)
    (row ∘ input0)

/-! The sixteen bodies of ADDMOD: `a + b = s` and `q * n + r = s`, with the
slack `n - r - 1` for `r < n`. -/

def addmodAbLimb (k : Fin 4) : F :=
  let s := addCarryIn (row ∘ addmodAbCarry) k (row (input0 k) + row (input1 k))
  s - row (addmodSLow k) - row (addmodAbCarry k) * twoPow64

def subRhs (sLow : Fin 4 → F) (sHigh : F) (k : ℕ) (s : F) : F :=
  if k < 4 then subLimb sLow k s else if k = 4 then s - sHigh else s

def addmodSumLimb (k : Fin 9) : F :=
  let s := addLimb (row ∘ output0) k (addLimb (row ∘ addmodQnP) k 0)
  let s := addCarryIn (row ∘ addmodSumCarry) k s
  let s := subRhs (row ∘ addmodSLow) (row colAddmodSHigh) k s
  s - row (addmodSumCarry k) * twoPow64

def evaluateAddmodRaw : List F :=
  let nIsZero := row colAddmodNIsZero
  let abBody := chainSum (addmodAbLimb row) +
    (row colAddmodAbCarry3 - row colAddmodSHigh) * twoPow128
  let qnBody := productChain (row ∘ addmodQ) (row ∘ immediate) ![]
    (row ∘ addmodQnCarry) (row ∘ addmodQnP)
  let sumBody := chainSum (addmodSumLimb row) +
    row colAddmodSumCarry8 * twoPow128
  let slackBody := slackChain (row ∘ immediate) (row ∘ output0)
    (row ∘ addmodSlackB) (row ∘ addmodSlack)
  [abBody,
    binaryCheck (row colAddmodAbCarry0), binaryCheck (row colAddmodAbCarry1),
    binaryCheck (row colAddmodAbCarry2), binaryCheck (row colAddmodAbCarry3),
    binaryCheck (row colAddmodSHigh),
    qnBody,
    (1 - nIsZero) * sumBody,
    (1 - nIsZero) * slackBody,
    binaryCheck (row colAddmodSlackB0), binaryCheck (row colAddmodSlackB1),
    binaryCheck (row colAddmodSlackB2), binaryCheck (row colAddmodSlackB3),
    binaryCheck nIsZero,
    nIsZero * limbSum (row ∘ immediate),
    nIsZero * limbSum (row ∘ output0)]

/-! The ten bodies of MULMOD: `a * b = p` and `q * n + r = p`. -/

def evaluateMulmodRaw : List F :=
  let nIsZero := row colMulmodNIsZero
  let abBody := productChain (row ∘ input0) (row ∘ input1) ![] (row ∘ mulmodPc)
    (row ∘ mulmodP)
  let sumBody := productChain (row ∘ mulmodQ) (row ∘ immediate) (row ∘ output0)
    (row ∘ mulmodSc) (row ∘ mulmodP)
  let slackBody := slackChain (row ∘ immediate) (row ∘ output0)
    (row ∘ mulmodSlackB) (row ∘ mulmodSlack)
  [abBody,
    (1 - nIsZero) * sumBody,
    (1 - nIsZero) * slackBody,
    binaryCheck (row colMulmodSlackB0), binaryCheck (row colMulmodSlackB1),
    binaryCheck (row colMulmodSlackB2), binaryCheck (row colMulmodSlackB3),
    binaryCheck nIsZero,
    nIsZero * limbSum (row ∘ immediate),
    nIsZero * limbSum (row ∘ output0)]

/-! SIGNEXTEND, one case for each byte position. In case `k` the sign byte lies
in limb `k / 8`, of which `k % 8 + 1` bytes are kept. -/

/-- `1 << (8 * i)`. -/
def byteWeight (i : ℕ) : ℕ := 2 ^ (8 * i)

/-- `2^64 - 256^kept`, the bits that the sign fills. -/
def fillMask (kept : ℕ) : ℕ := if kept < 8 then 2 ^ 64 - 2 ^ (8 * kept) else 0

def maxU64 : ℕ := 2 ^ 64 - 1

def byteSum (count : ℕ) : F :=
  addAll (List.range count)
    (fun i => row (columnAt colSeByte0 i) * (byteWeight i : F)) 0

def signextendCase (k : ℕ) : F :=
  let ll := k / 8
  let bb := k % 8 + 1
  let out := fun l => row (columnAt colOutput0L0 l)
  let in1 := fun l => row (columnAt colInput1L0 l)
  let signBit := row colSeSignBit
  let caseBody := 0 + (in1 ll - byteSum row 8)
  let caseBody := caseBody +
    (row (columnAt colSeByte0 (bb - 1)) - signBit * 128 - row colSeLow7)
  let caseBody := addAll (List.range ll) (fun l => out l - in1 l) caseBody
  let caseBody := caseBody +
    (out ll - byteSum row bb - signBit * (fillMask bb : F))
  addAll (List.range' (ll + 1) (4 - (ll + 1)))
    (fun l => out l - signBit * (maxU64 : F)) caseBody

def evaluateSignextendRaw : F :=
  let body := addAll (List.range 31)
    (fun k => row (columnAt colSelSe0 k) * signextendCase row k) 0
  body + row colSelSeGe31 * addAll (List.range 4)
    (fun l => row (columnAt colOutput0L0 l) - row (columnAt colInput1L0 l)) 0

/-! Comparisons. -/

def upperOutput : F :=
  row colOutput0L1 + row colOutput0L2 + row colOutput0L3

/-- The borrow chain of `x - y`, whose last borrow is the result. -/
def evaluateLessRaw (x y : Fin 4 → Column) : F :=
  let c := borrowLimb (row ∘ x) (row ∘ y) (row ∘ aux0) (row ∘ aux1)
  let bb := fun k => binaryCheck (row (aux0 k))
  c 0 + c 1 + c 2 + c 3 + bb 0 + bb 1 + bb 2 + bb 3 +
    (row colOutput0L0 - row colAux0L3) + upperOutput row

def evaluateLtRaw : F := evaluateLessRaw row input0 input1

def evaluateGtRaw : F := evaluateLessRaw row input1 input0

def evaluateEqRaw : F :=
  let out := row colOutput0L0
  let eq := fun k => out * (row (input0 k) - row (input1 k))
  binaryCheck out + eq 0 + eq 1 + eq 2 + eq 3 + upperOutput row

def evaluateIszeroRaw : F :=
  let out := row colOutput0L0
  let iz := fun k => out * row (input0 k)
  binaryCheck out + iz 0 + iz 1 + iz 2 + iz 3 + upperOutput row

def evaluateCompareOtherRaw : F :=
  binaryCheck (row colOutput0L0) + row colOutput0L1 + row colOutput0L2 +
    row colOutput0L3

/-! Bitwise operations, a limb at a time. -/

def evaluateAndLimbRaw (limb : ℕ) : F :=
  row (columnAt colOutput0L0 limb) - row (columnAt colAux0L0 limb)

def evaluateOrLimbRaw (limb : ℕ) : F :=
  row (columnAt colOutput0L0 limb) - row (columnAt colInput0L0 limb) -
    row (columnAt colInput1L0 limb) + row (columnAt colAux0L0 limb)

def evaluateXorLimbRaw (limb : ℕ) : F :=
  row (columnAt colOutput0L0 limb) - row (columnAt colInput0L0 limb) -
    row (columnAt colInput1L0 limb) + 2 * row (columnAt colAux0L0 limb)

def evaluateNotLimbRaw (limb : ℕ) : F :=
  row (columnAt colOutput0L0 limb) + row (columnAt colInput0L0 limb) -
    (maxU64 : F)

/-! Shifts, with the power of two in the immediate. -/

def evaluateShlRaw : F :=
  wordProduct (row ∘ input1) (row ∘ immediate) ![] (row ∘ aux0) (row ∘ output0)

def evaluateShiftDivRaw : F :=
  wordProduct (row ∘ output0) (row ∘ immediate) (row ∘ aux0) (row ∘ aux1)
    (row ∘ input1)

def evaluateShrRaw : F := evaluateShiftDivRaw row

def evaluateSarRaw : F := evaluateShiftDivRaw row

/-! Stack, memory and control. -/

/-- The limbs of two words agree in sum. -/
def wordDifference (left right : Fin 4 → Column) : F :=
  limbSum fun k => row (left k) - row (right k)

def evaluatePushRaw : F := wordDifference row output0 immediate

def evaluateDupRaw : F := wordDifference row output0 input0

def evaluatePopRaw : F := limbSum (row ∘ output0)

def evaluateSwapRaw : F := wordDifference row output0 input1

def evaluateMloadRaw : F := wordDifference row output0 memValue

def evaluateMstoreRaw : F := wordDifference row memValue input1

def evaluateMstore8Raw : F :=
  (row colAux0L0 * 256 + row colMemValueL0 - row colInput1L0) +
    row colMemValueL1 + row colMemValueL2 + row colMemValueL3

def evaluateControlRaw : F :=
  (row colOutput0L0 - row colPc) + row colOutput0L1 + row colOutput0L2 +
    row colOutput0L3

end Bodies

end Constraints

end MetaVm.Evm
