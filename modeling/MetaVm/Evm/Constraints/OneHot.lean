import MetaVm.Evm.Constraints.DomainAgreement
import MetaVm.Evm.Constraints.Words

namespace MetaVm.Evm.Constraints

open Zkp

/-! Rows with one selector set. -/

section Bodies

variable {F : Type} [CommRing F] (row : Row F)

/-- The gated bodies with the slots of their selectors. -/
def gatedBodies : List (ℕ × Column × List F) :=
  [(1, colSelArithAdd, (List.finRange 4).map (evaluateArithAddLimbRaw row) ++
      (List.finRange 4).map (evaluateCarryBinaryRaw row)),
    (2, colSelArithSub, (List.finRange 4).map (evaluateArithSubLimbRaw row) ++
      (List.finRange 4).map (evaluateCarryBinaryRaw row)),
    (3, colSelArithMul, [evaluateArithMulFullRaw row]),
    (4, colSelArithDiv, [evaluateArithDivFullRaw row]),
    (5, colSelMod, [evaluateArithModFullRaw row]),
    (6, colSelSdiv, [evaluateArithDivFullRaw row]),
    (7, colSelSmod, [evaluateArithModFullRaw row]),
    (8, colSelAddmod, evaluateAddmodRaw row), (9, colSelMulmod, evaluateMulmodRaw row),
    (12, colSelLt, [evaluateLtRaw row]), (13, colSelGt, [evaluateGtRaw row]),
    (14, colSelEq, [evaluateEqRaw row]), (15, colSelIszero, [evaluateIszeroRaw row]),
    (16, colSelCompareOther, [evaluateCompareOtherRaw row]),
    (17, colSelAnd, (List.range 4).map (evaluateAndLimbRaw row)),
    (18, colSelOr, (List.range 4).map (evaluateOrLimbRaw row)),
    (19, colSelXor, (List.range 4).map (evaluateXorLimbRaw row)),
    (21, colSelShl, [evaluateShlRaw row]), (22, colSelShr, [evaluateShrRaw row]),
    (23, colSelSar, [evaluateSarRaw row]), (27, colSelPush, [evaluatePushRaw row]),
    (28, colSelDup, [evaluateDupRaw row]), (29, colSelPop, [evaluatePopRaw row]),
    (30, colSelSwap, [evaluateSwapRaw row]), (32, colSelMload, [evaluateMloadRaw row]),
    (33, colSelMstore, [evaluateMstoreRaw row]), (34, colSelMstore8, [evaluateMstore8Raw row]),
    (38, colSelJump, [evaluateControlRaw row]),
    (20, colSelBitwiseOther, [addAll (List.range 4) (evaluateNotLimbRaw row) 0])]

/-- The bodies that belong to a slot. -/
def slotBodies (slot : ℕ) : List F :=
  ((gatedBodies row).filter fun entry => entry.1 = slot).flatMap fun entry => entry.2.2

end Bodies

end MetaVm.Evm.Constraints
