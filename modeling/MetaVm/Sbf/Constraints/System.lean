import MetaVm.Lib.SelectorSystem
import MetaVm.Sbf.Columns
import MetaVm.Zkp.ConstraintPoly
import MetaVm.Zkp.Field

namespace MetaVm.Sbf.Constraints

open Zkp SelectorSystem CoeffList

section Raw

variable {F : Type} [CommRing F]

def twoPow64 : F := 2 ^ 64

def binaryCheck (value : F) : F := value * (value - 1)

/-! Bodies of the arithmetic instructions, without their selectors. -/

def evaluateAluAddMainRaw (row : Row F) : F :=
  row colDstValBefore + row colSrcVal -
    (row colAux0 * twoPow64 + row colDstValAfter)

def evaluateAluSubMainRaw (row : Row F) : F :=
  row colDstValAfter + row colSrcVal -
    (row colDstValBefore + row colAux0 * twoPow64)

def evaluateAluMovRaw (row : Row F) : F := row colDstValAfter - row colSrcVal

def evaluateAluMulRaw (row : Row F) : F :=
  row colDstValBefore * row colSrcVal -
    (row colAux0 * twoPow64 + row colDstValAfter)

def evaluateAluDivRaw (row : Row F) : F :=
  row colDstValAfter * row colSrcVal + row colAux0 - row colDstValBefore

def evaluateAluModRaw (row : Row F) : F :=
  row colAux0 * row colSrcVal + row colDstValAfter - row colDstValBefore

def evaluateAluAndRaw (row : Row F) : F := row colDstValAfter - row colAux0

def evaluateAluOrRaw (row : Row F) : F :=
  row colDstValAfter - row colDstValBefore - row colSrcVal + row colAux0

def evaluateAluXorRaw (row : Row F) : F :=
  row colDstValAfter - row colDstValBefore - row colSrcVal + 2 * row colAux0

def evaluateAluLshRaw (row : Row F) : F :=
  row colDstValBefore * row colAux0 - row colAux1 * twoPow64 - row colDstValAfter

def evaluateAluRshRaw (row : Row F) : F :=
  row colDstValAfter * row colAux0 + row colAux1 - row colDstValBefore

def evaluateAluArshRaw (row : Row F) : F :=
  row colDstValAfter * row colAux0 + row colAux1 - row colDstValBefore -
    row colAux2 * twoPow64

def evaluateAluNegRaw (row : Row F) : F :=
  row colDstValAfter + row colDstValBefore - row colAux0 * twoPow64 +
    binaryCheck (row colAux0)

def evaluateAux0BinaryRaw (row : Row F) : F := binaryCheck (row colAux0)

/-- Calls are left to the oracle. -/
def evaluateCallRaw (_ : Row F) : F := 0

def evaluateExitRaw (_ : Row F) : F := 0

/-! Branches, to the immediate or to the next instruction. -/

def bpfInsnSize : F := 8

def diffTaken (row : Row F) : F :=
  row colNextPc - (row colPc + row colImmediate)

def diffNotTaken (row : Row F) : F :=
  row colNextPc - (row colPc + bpfInsnSize)

/-- Zero when the next program counter is one of the two branch targets. -/
def targetCheck (row : Row F) : F := diffTaken row * diffNotTaken row

def evaluateBranchesRaw (row : Row F) : F :=
  targetCheck row + binaryCheck (row colAux1)

def evaluateBranchEqRaw (row : Row F) : F :=
  let oneMAux1 := 1 - row colAux1
  targetCheck row + diffNotTaken row * row colAux1 + diffTaken row * oneMAux1 +
    oneMAux1 * (row colDstValBefore - row colSrcVal) + binaryCheck (row colAux1)

def evaluateBranchNeqRaw (row : Row F) : F :=
  let oneMAux1 := 1 - row colAux1
  targetCheck row + diffNotTaken row * oneMAux1 + diffTaken row * row colAux1 +
    oneMAux1 * (row colDstValBefore - row colSrcVal) + binaryCheck (row colAux1)

def evaluateBranchLtRaw (row : Row F) : F :=
  targetCheck row + diffNotTaken row * (1 - row colAux1) +
    diffTaken row * row colAux1 + binaryCheck (row colAux1)

def evaluateBranchGeRaw (row : Row F) : F :=
  targetCheck row + diffNotTaken row * row colAux1 +
    diffTaken row * (1 - row colAux1) + binaryCheck (row colAux1)

/-! The address and the value of an access are checked in one sum. -/

def evaluateMemoryLoadRaw (row : Row F) : F :=
  row colMemAddr - (row colSrcVal + row colImmediate) +
    (row colDstValAfter - row colMemVal)

def evaluateMemoryStoreRaw (row : Row F) : F :=
  row colMemAddr - (row colDstValBefore + row colImmediate) +
    (row colMemVal - row colSrcVal)

end Raw

section Point

variable {F : Type} [CommRing F]

def gatedConstraints : List (Gated Column F) :=
  [⟨colSelAluAdd, evaluateAluAddMainRaw⟩,
    ⟨colSelAluSub, evaluateAluSubMainRaw⟩,
    ⟨colSelAluMov, evaluateAluMovRaw⟩,
    ⟨colSelAluMul, evaluateAluMulRaw⟩,
    ⟨colSelAluDiv, evaluateAluDivRaw⟩,
    ⟨colSelAluMod, evaluateAluModRaw⟩,
    ⟨colSelAluAnd, evaluateAluAndRaw⟩,
    ⟨colSelAluOr, evaluateAluOrRaw⟩,
    ⟨colSelAluXor, evaluateAluXorRaw⟩,
    ⟨colSelAluLsh, evaluateAluLshRaw⟩,
    ⟨colSelAluRsh, evaluateAluRshRaw⟩,
    ⟨colSelAluArsh, evaluateAluArshRaw⟩,
    ⟨colSelBranchEq, evaluateBranchEqRaw⟩,
    ⟨colSelBranchNeq, evaluateBranchNeqRaw⟩,
    ⟨colSelBranchLt, evaluateBranchLtRaw⟩,
    ⟨colSelBranchGe, evaluateBranchGeRaw⟩,
    ⟨colSelBranchOther, evaluateBranchesRaw⟩,
    ⟨colSelLoad, evaluateMemoryLoadRaw⟩,
    ⟨colSelStore, evaluateMemoryStoreRaw⟩,
    ⟨colSelAluAdd, evaluateAux0BinaryRaw⟩,
    ⟨colSelAluSub, evaluateAux0BinaryRaw⟩,
    ⟨colSelCall, evaluateCallRaw⟩,
    ⟨colSelExit, evaluateExitRaw⟩,
    ⟨colSelAluOther, evaluateAluNegRaw⟩]

def selectorSum (row : Row F) : F :=
  selectorColumnIndices.foldl (fun sum si => sum + row si) 0

/-- The combination of the 47 constraints of a row. -/
def combineConstraints (row : Row F) (alpha : F) : F :=
  let state := gatedConstraints.foldl (fun state constraint =>
    accumulate alpha state (constraint.eval row)) (0, 1)
  let state := selectorColumnIndices.foldl (fun state si =>
    accumulate alpha state (row si * (row si - 1))) state
  state.1 + (selectorSum row - 1) * state.2

/-- Too few evaluations pass unchecked. -/
def evaluateAtPoint (colEvalsAtZ : List F) (alpha : F) : F :=
  if colEvalsAtZ.length < 39 then 0
  else combineConstraints (fun column => colEvalsAtZ.getD column 0) alpha

/-- The program counter goes on with the next row, but for the last. -/
def evaluateShiftedAtPoint (row : Row F) (shiftedEvals : List F)
    (z omegaNMinus1 alpha : F) (alphaOffset : ℕ) : F :=
  match shiftedEvals with
  | [] => 0
  | pcNext :: _ =>
      let ap := (fun ap => ap * alpha)^[alphaOffset] 1
      let body := pcNext - row colNextPc
      ap * body * (z - omegaNMinus1)

/-- All 47 constraint values of a row, in the order of their powers. -/
def constraintValues (row : Row F) : List F :=
  values gatedConstraints selectorColumnIndices row

theorem evaluateAtPoint_ofFn (row : Row F) (alpha : F) :
    evaluateAtPoint (List.ofFn row) alpha = combineConstraints row alpha := by
  have cells : (fun column : Column => (List.ofFn row).getD column 0) = row := by
    funext column
    rw [List.getD_eq_getElem _ _ (by simp), List.getElem_ofFn]
  rw [evaluateAtPoint, cells, if_neg (by rw [List.length_ofFn]; decide)]

theorem selectorSum_eq (row : Row F) :
    selectorSum row = (selectorColumnIndices.map row).sum := by
  rw [selectorSum, List.sum_eq_foldl, List.foldl_map]

theorem combineConstraints_eq (row : Row F) (alpha : F) :
    combineConstraints row alpha =
      evalPolyAt (constraintValues row) alpha := by
  have folded : ∀ (values : List F) (last : F),
      evalPolyAt (values ++ [last]) alpha =
        (values.foldl (accumulate alpha) (0, 1)).1 +
          last * (values.foldl (accumulate alpha) (0, 1)).2 := by
    intro values last
    rw [foldl_accumulate, evalPolyAt_eq, toPoly_append,
      toPoly_singleton, evalPolyAt_eq]
    simp
  rw [constraintValues, values, folded, List.foldl_append, List.foldl_map,
    List.foldl_map, ← selectorSum_eq]
  rfl

/-- The first body of a selector. ADD and SUB also have a binary check. -/
def selectorBody (active : Column) : Row F → F :=
  (activeBodies gatedConstraints active).headD fun _ => 0

theorem gatedConstraints_listed :
    ∀ constraint ∈ (gatedConstraints : List (Gated Column F)),
      constraint.selector ∈ selectorColumnIndices := by
  simp only [gatedConstraints, List.forall_mem_cons, List.not_mem_nil,
    false_implies, implies_true, and_true]
  and_intros <;> decide

/-- All 47 constraints hold. -/
def Satisfied (row : Row F) : Prop := ∀ value ∈ constraintValues row, value = 0

theorem activeBodies_eq {active : Column} (listed : active ∈ selectorColumnIndices) :
    (activeBodies gatedConstraints active : List (Row F → F)) =
      selectorBody active ::
        if active ∈ [colSelAluAdd, colSelAluSub] then [evaluateAux0BinaryRaw] else [] := by
  simp only [selectorColumnIndices, List.mem_cons, List.not_mem_nil, or_false] at listed
  rcases listed with rfl | rfl | rfl | rfl | rfl | rfl | rfl | rfl | rfl | rfl | rfl |
    rfl | rfl | rfl | rfl | rfl | rfl | rfl | rfl | rfl | rfl | rfl
  all_goals rfl

/-- On a row with one selector set the constraints are those of the selector. -/
theorem satisfied_iff {row : Row F} {active : Column}
    (sole : Sole selectorColumnIndices row active) :
    Satisfied row ↔ selectorBody active row = 0 ∧
      (active ∈ [colSelAluAdd, colSelAluSub] → binaryCheck (row colAux0) = 0) := by
  have bodies := sole.values_zero_iff selectorColumnIndices_nodup
    (@gatedConstraints_listed F _)
  rw [Satisfied, constraintValues, bodies, activeBodies_eq sole.listed,
    List.forall_mem_cons]
  split
  · rename_i carries
    rw [List.forall_mem_singleton]
    exact and_congr_right fun _ => ⟨fun zero _ => zero, fun zero => zero carries⟩
  · rename_i free
    simp [free]

end Point

end MetaVm.Sbf.Constraints
