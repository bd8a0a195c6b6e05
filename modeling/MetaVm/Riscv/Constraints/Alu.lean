import MetaVm.Riscv.Constraints.Columns
import MetaVm.Zkp.Field

namespace MetaVm.Riscv.Constraints

open Zkp

section Raw

variable {F : Type} [CommRing F]

def twoPow64 : F := 2 ^ 64

def twoPow32 : F := 2 ^ 32

theorem twoPow64_eq : (twoPow64 : F) = 18446744073709551616 := by
  norm_num [twoPow64]

/-- `2^64 - 2^32`, what sign extension of a negative word adds. -/
def signExtOffset : F := twoPow64 - twoPow32

def binaryCheck (value : F) : F := value * (value - 1)

/-- The comparison bit from an unsigned borrow and two sign bits. -/
def signedLt (borrow signA signB : F) : F :=
  signA * (1 - signB) + (1 - signA - signB + 2 * (signA * signB)) * borrow

/-- A value cut to its low word and sign extended into `result`. -/
def wordTruncation (value upper result sign : F) : F :=
  value - upper * twoPow32 - result + sign * signExtOffset + binaryCheck sign

def evaluateAluWAddwRaw (row : Row F) : F :=
  wordTruncation (row colRs1Val + row colRs2Val) (row colAux0)
    (row colRdValAfter) (row colAux1)

def evaluateAluWSubwRaw (row : Row F) : F :=
  wordTruncation (row colRs1Val - row colRs2Val) (row colAux0)
    (row colRdValAfter) (row colAux1)

def evaluateAluWAddiwRaw (row : Row F) : F :=
  wordTruncation (row colRs1Val + row colImmediate) (row colAux0)
    (row colRdValAfter) (row colAux1)

def evaluateMulRaw (row : Row F) : F :=
  row colRs1Val * row colRs2Val -
    (row colAux0 * twoPow64 + row colRdValAfter)

def evaluateDivRaw (row : Row F) : F :=
  row colRdValAfter * row colRs2Val + row colAux0 - row colRs1Val

def evaluateRemRaw (row : Row F) : F :=
  row colAux0 * row colRs2Val + row colRdValAfter - row colRs1Val

def evaluateAluRAddMainRaw (row : Row F) : F :=
  row colRs1Val + row colRs2Val -
    (row colAux0 * twoPow64 + row colRdValAfter)

def evaluateAluRSubMainRaw (row : Row F) : F :=
  row colRdValAfter + row colRs2Val -
    (row colRs1Val + row colAux0 * twoPow64)

def evaluateAluIAddMainRaw (row : Row F) : F :=
  row colRs1Val + row colImmediate -
    (row colAux0 * twoPow64 + row colRdValAfter)

def evaluateAux0BinaryRaw (row : Row F) : F := binaryCheck (row colAux0)

def evaluateRAndRaw (row : Row F) : F := row colRdValAfter - row colAux0

def evaluateROrRaw (row : Row F) : F :=
  row colRdValAfter - (row colRs1Val + row colRs2Val - row colAux0)

def evaluateRXorRaw (row : Row F) : F :=
  row colRdValAfter - (row colRs1Val + row colRs2Val - 2 * row colAux0)

def evaluateIAndRaw (row : Row F) : F := row colRdValAfter - row colAux0

def evaluateIOrRaw (row : Row F) : F :=
  row colRdValAfter - (row colRs1Val + row colImmediate - row colAux0)

def evaluateIXorRaw (row : Row F) : F :=
  row colRdValAfter - (row colRs1Val + row colImmediate - 2 * row colAux0)

/-! Shifts multiply or divide by the power of two in `aux0`; the word forms
use the same equations with the word's modulus. -/

def shiftLeftBody (modulus : F) (row : Row F) : F :=
  row colRs1Val * row colAux0 - (row colAux1 * modulus + row colRdValAfter)

def shiftRightBody (row : Row F) : F :=
  row colRdValAfter * row colAux0 + row colAux1 - row colRs1Val

def shiftRightArithBody (modulus : F) (row : Row F) : F :=
  row colRdValAfter * row colAux0 + row colAux1 -
    (row colRs1Val + row colAux2 * modulus)

def evaluateSllRaw (row : Row F) : F := shiftLeftBody twoPow64 row

def evaluateSrlRaw (row : Row F) : F := shiftRightBody row

def evaluateSraRaw (row : Row F) : F := shiftRightArithBody twoPow64 row

def evaluateWSllRaw (row : Row F) : F := shiftLeftBody twoPow32 row

def evaluateWSrlRaw (row : Row F) : F := shiftRightBody row

def evaluateWSraRaw (row : Row F) : F := shiftRightArithBody twoPow32 row

def evaluateCompareRaw (row : Row F) : F :=
  row colRdValAfter - signedLt (row colAux0) (row colAux1) (row colAux2) +
    binaryCheck (row colAux0) + binaryCheck (row colAux1) +
    binaryCheck (row colAux2)

def evaluateCsrrsRaw (row : Row F) : F :=
  row colAux0 - row colRdValAfter - row colRs1Val + row colAux1

def evaluateCsrrcRaw (row : Row F) : F :=
  row colAux0 - row colRdValAfter + row colAux1

def evaluateCsrrwRaw (row : Row F) : F := row colAux0 - row colRs1Val

def evaluateLrRaw (row : Row F) : F := row colRdValAfter - row colMemVal

def evaluateScRaw (row : Row F) : F :=
  binaryCheck (row colAux0) + row colAux0 * row colRdValAfter

def evaluateMulhuRaw (row : Row F) : F :=
  row colRs1Val * row colRs2Val -
    (row colRdValAfter * twoPow64 + row colAux0)

def evaluateCsrrwIRaw (row : Row F) : F := row colAux0 - row colImmediate

def evaluateCsrrsIRaw (row : Row F) : F :=
  row colAux0 - row colRdValAfter - row colImmediate + row colAux1

def evaluateMulhRaw (row : Row F) : F :=
  row colRs1Val * row colRs2Val - row colAux1 * twoPow64 * row colRs2Val -
    row colAux2 * twoPow64 * row colRs1Val +
    row colAux1 * row colAux2 * (twoPow64 * twoPow64) -
    row colRdValAfter * twoPow64 - row colAux0 +
    binaryCheck (row colAux1) + binaryCheck (row colAux2)

def evaluateMulhsuRaw (row : Row F) : F :=
  row colRs1Val * row colRs2Val - row colAux1 * twoPow64 * row colRs2Val -
    row colRdValAfter * twoPow64 - row colAux0 + binaryCheck (row colAux1)

def evaluateMulwRaw (row : Row F) : F :=
  wordTruncation (row colRs1Val * row colRs2Val) (row colAux0)
    (row colRdValAfter) (row colAux1)

def evaluateDivwRaw (row : Row F) : F :=
  row colRdValAfter * row colRs2Val + row colAux0 - row colRs1Val -
    row colAux1 * twoPow32

def evaluateRemwRaw (row : Row F) : F :=
  row colAux0 * row colRs2Val + row colRdValAfter - row colRs1Val -
    row colAux1 * twoPow32

def evaluateAmoSwapRaw (row : Row F) : F :=
  wordTruncation (row colRs2Val) (row colAux0) (row colMemVal) (row colAux1)

/-- `aux2` chooses between the word and the double-word modulus. -/
def evaluateAmoAddRaw (row : Row F) : F :=
  let oneMAux2 := 1 - row colAux2
  let modulus := row colAux2 * twoPow32 + oneMAux2 * twoPow64
  row colRdValAfter + row colRs2Val - row colMemVal - row colAux0 * modulus +
    row colAux1 * row colAux2 * signExtOffset +
    binaryCheck (row colAux1) + binaryCheck (row colAux2) +
    oneMAux2 * binaryCheck (row colAux0)

def evaluateAmoAndRaw (row : Row F) : F :=
  row colMemVal + row colAux0 - row colRdValAfter - row colRs2Val -
    row colAux1 * twoPow32

def evaluateAmoOrRaw (row : Row F) : F :=
  row colMemVal + row colAux0 - row colRdValAfter - row colRs2Val -
    row colAux1 * twoPow32

def evaluateAmoXorRaw (row : Row F) : F :=
  row colMemVal + 2 * row colAux0 - row colRdValAfter - row colRs2Val -
    row colAux1 * twoPow32

def evaluateAmoMinuRaw (row : Row F) : F :=
  row colMemVal - row colRs2Val -
    row colAux0 * (row colRdValAfter - row colRs2Val) -
    row colAux1 * twoPow32 + binaryCheck (row colAux0)

def evaluateAmoMaxuRaw (row : Row F) : F :=
  row colMemVal - row colRdValAfter +
    row colAux0 * (row colRdValAfter - row colRs2Val) -
    row colAux1 * twoPow32 + binaryCheck (row colAux0)

def evaluateAmoMinsRaw (row : Row F) : F :=
  row colMemVal - row colRs2Val -
    signedLt (row colAux0) (row colAux1) (row colAux2) *
      (row colRdValAfter - row colRs2Val) +
    binaryCheck (row colAux0) + binaryCheck (row colAux1) +
    binaryCheck (row colAux2)

def evaluateAmoMaxsRaw (row : Row F) : F :=
  row colMemVal - row colRdValAfter +
    signedLt (row colAux0) (row colAux1) (row colAux2) *
      (row colRdValAfter - row colRs2Val) +
    binaryCheck (row colAux0) + binaryCheck (row colAux1) +
    binaryCheck (row colAux2)

end Raw

end MetaVm.Riscv.Constraints
