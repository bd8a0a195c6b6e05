import MetaVm.Lib.Words
import MetaVm.Sbf.Constraints.System
import MetaVm.Sbf.Trace

namespace MetaVm.Sbf

open Zkp SelectorSystem SmallInt CoeffList

/-! Rows of words, over the integers and over the field. -/

namespace SbfTraceRow

def integers (row : SbfTraceRow) : Row ℤ := fun column => (row.pushRow column).toNat

def field {order : ℕ} (row : SbfTraceRow) : Row (ZMod order) :=
  fun column => Scalar.fromU64 (row.pushRow column)

theorem field_eq {order : ℕ} (row : SbfTraceRow) :
    (row.field : Row (ZMod order)) = Int.castRingHom (ZMod order) ∘ row.integers := by
  funext column
  simp [field, integers, Scalar.fromU64]

section Cells

variable (row : SbfTraceRow)

@[simp]
theorem integers_pc : row.integers colPc = row.pc.toNat := rfl

@[simp]
theorem integers_dstValBefore : row.integers colDstValBefore = row.dstValBefore.toNat := rfl

@[simp]
theorem integers_dstValAfter : row.integers colDstValAfter = row.dstValAfter.toNat := rfl

@[simp]
theorem integers_srcVal : row.integers colSrcVal = row.srcVal.toNat := rfl

@[simp]
theorem integers_memAddr : row.integers colMemAddr = row.memAddr.toNat := rfl

@[simp]
theorem integers_memVal : row.integers colMemVal = row.memVal.toNat := rfl

@[simp]
theorem integers_nextPc : row.integers colNextPc = row.nextPc.toNat := rfl

@[simp]
theorem integers_immediate : row.integers colImmediate = row.immediate.toNat := rfl

@[simp]
theorem integers_aux0 : row.integers colAux0 = row.aux0.toNat := rfl

@[simp]
theorem integers_aux1 : row.integers colAux1 = row.aux1.toNat := rfl

@[simp]
theorem integers_aux2 : row.integers colAux2 = row.aux2.toNat := rfl

end Cells

theorem integers_within (row : SbfTraceRow) (column : Column) :
    Within 64 (row.integers column) :=
  .ofNat (row.pushRow column).isLt

theorem field_sole {order : ℕ} (row : SbfTraceRow) :
    Sole selectorColumnIndices (row.field : Row (ZMod order)) row.selector where
  listed := selectorColumn_listed row.insnType row.funct
  cell := by
    intro other listed
    rw [field, row.pushRow_selector listed]
    split <;> simp [Scalar.fromU64]

end SbfTraceRow

namespace Constraints

section Map

variable {F G : Type} [CommRing F] [CommRing G] (f : F →+* G)

theorem map_binaryCheck (value : F) : f (binaryCheck value) = binaryCheck (f value) := by
  simp [binaryCheck]

/-- The bodies are polynomials with integer coefficients. -/
theorem selectorBody_map {active : Column} (listed : active ∈ selectorColumnIndices)
    (row : Row F) : selectorBody active (f ∘ row) = f (selectorBody active row) := by
  have two : f 2 = 2 := map_ofNat f 2
  have eight : f 8 = 8 := map_ofNat f 8
  simp only [selectorColumnIndices, List.mem_cons, List.not_mem_nil, or_false] at listed
  rcases listed with rfl | rfl | rfl | rfl | rfl | rfl | rfl | rfl | rfl | rfl | rfl |
    rfl | rfl | rfl | rfl | rfl | rfl | rfl | rfl | rfl | rfl | rfl
  · show evaluateAluAddMainRaw _ = f (evaluateAluAddMainRaw _)
    simp [evaluateAluAddMainRaw, twoPow64, two]
  · show evaluateAluSubMainRaw _ = f (evaluateAluSubMainRaw _)
    simp [evaluateAluSubMainRaw, twoPow64, two]
  · show evaluateAluMovRaw _ = f (evaluateAluMovRaw _)
    simp [evaluateAluMovRaw]
  · show evaluateAluMulRaw _ = f (evaluateAluMulRaw _)
    simp [evaluateAluMulRaw, twoPow64, two]
  · show evaluateAluDivRaw _ = f (evaluateAluDivRaw _)
    simp [evaluateAluDivRaw]
  · show evaluateAluModRaw _ = f (evaluateAluModRaw _)
    simp [evaluateAluModRaw]
  · show evaluateAluAndRaw _ = f (evaluateAluAndRaw _)
    simp [evaluateAluAndRaw]
  · show evaluateAluOrRaw _ = f (evaluateAluOrRaw _)
    simp [evaluateAluOrRaw]
  · show evaluateAluXorRaw _ = f (evaluateAluXorRaw _)
    simp [evaluateAluXorRaw, two]
  · show evaluateAluLshRaw _ = f (evaluateAluLshRaw _)
    simp [evaluateAluLshRaw, twoPow64, two]
  · show evaluateAluRshRaw _ = f (evaluateAluRshRaw _)
    simp [evaluateAluRshRaw]
  · show evaluateAluArshRaw _ = f (evaluateAluArshRaw _)
    simp [evaluateAluArshRaw, twoPow64, two]
  · show evaluateAluNegRaw _ = f (evaluateAluNegRaw _)
    simp [evaluateAluNegRaw, twoPow64, two, binaryCheck]
  · show evaluateMemoryLoadRaw _ = f (evaluateMemoryLoadRaw _)
    simp [evaluateMemoryLoadRaw]
  · show evaluateMemoryStoreRaw _ = f (evaluateMemoryStoreRaw _)
    simp [evaluateMemoryStoreRaw]
  · show evaluateBranchEqRaw _ = f (evaluateBranchEqRaw _)
    simp [evaluateBranchEqRaw, targetCheck, diffTaken, diffNotTaken, bpfInsnSize, eight,
      binaryCheck]
  · show evaluateBranchNeqRaw _ = f (evaluateBranchNeqRaw _)
    simp [evaluateBranchNeqRaw, targetCheck, diffTaken, diffNotTaken, bpfInsnSize, eight,
      binaryCheck]
  · show evaluateBranchLtRaw _ = f (evaluateBranchLtRaw _)
    simp [evaluateBranchLtRaw, targetCheck, diffTaken, diffNotTaken, bpfInsnSize, eight,
      binaryCheck]
  · show evaluateBranchGeRaw _ = f (evaluateBranchGeRaw _)
    simp [evaluateBranchGeRaw, targetCheck, diffTaken, diffNotTaken, bpfInsnSize, eight,
      binaryCheck]
  · show evaluateBranchesRaw _ = f (evaluateBranchesRaw _)
    simp [evaluateBranchesRaw, targetCheck, diffTaken, diffNotTaken, bpfInsnSize, eight,
      binaryCheck]
  · exact (map_zero f).symm
  · exact (map_zero f).symm

end Map

/-! On words every body is far below the modulus. -/

section Sizes

theorem within_one : Within 1 1 := by norm_num [Within]

theorem within_two : Within 2 2 := by norm_num [Within]

theorem within_twoPow64 : Within 65 (twoPow64 : ℤ) := by norm_num [Within, twoPow64]

theorem within_bpfInsnSize : Within 4 (bpfInsnSize : ℤ) := by
  norm_num [Within, bpfInsnSize]

variable {row : Row ℤ} (cell : ∀ column, Within 64 (row column))
include cell

theorem within_binaryCheck (column : Column) : Within 200 (binaryCheck (row column)) :=
  ((cell column).mul ((cell column).sub within_one)).mono (by decide)

theorem within_diffTaken : Within 66 (diffTaken row) :=
  ((cell colNextPc).sub ((cell colPc).add (cell colImmediate))).mono (by decide)

theorem within_diffNotTaken : Within 66 (diffNotTaken row) :=
  ((cell colNextPc).sub ((cell colPc).add within_bpfInsnSize)).mono (by decide)

theorem within_targetCheck : Within 132 (targetCheck row) :=
  (within_diffTaken cell).mul (within_diffNotTaken cell)

theorem within_branchesRaw : Within 201 (evaluateBranchesRaw row) :=
  ((within_targetCheck cell).add (within_binaryCheck cell colAux1)).mono (by decide)

/-- The bodies of the branches with a condition share their products. -/
theorem within_conditional {taken notTaken equal : ℤ} (takenSmall : Within 66 taken)
    (notTakenSmall : Within 66 notTaken) (equalSmall : Within 132 equal) :
    Within 204 (targetCheck row + diffNotTaken row * taken + diffTaken row * notTaken +
      equal + binaryCheck (row colAux1)) :=
  (((((within_targetCheck cell).add ((within_diffNotTaken cell).mul takenSmall)).add
    ((within_diffTaken cell).mul notTakenSmall)).add equalSmall).add
      (within_binaryCheck cell colAux1)).mono (by decide)

theorem within_selectorBody {active : Column} (listed : active ∈ selectorColumnIndices) :
    Within 204 (selectorBody active row) := by
  have pow := within_twoPow64
  have aux1 := (cell colAux1).mono (by decide : 64 ≤ 66)
  have oneMAux1 := (within_one.sub (cell colAux1)).mono (by decide : 65 ≤ 66)
  have equal := (within_one.sub (cell colAux1)).mul
    ((cell colDstValBefore).sub (cell colSrcVal))
  have zero : Within 132 0 := by norm_num [Within]
  simp only [selectorColumnIndices, List.mem_cons, List.not_mem_nil, or_false] at listed
  rcases listed with rfl | rfl | rfl | rfl | rfl | rfl | rfl | rfl | rfl | rfl | rfl |
    rfl | rfl | rfl | rfl | rfl | rfl | rfl | rfl | rfl | rfl | rfl
  · exact (((cell colDstValBefore).add (cell colSrcVal)).sub
      (((cell colAux0).mul pow).add (cell colDstValAfter))).mono (by decide)
  · exact (((cell colDstValAfter).add (cell colSrcVal)).sub
      ((cell colDstValBefore).add ((cell colAux0).mul pow))).mono (by decide)
  · exact ((cell colDstValAfter).sub (cell colSrcVal)).mono (by decide)
  · exact (((cell colDstValBefore).mul (cell colSrcVal)).sub
      (((cell colAux0).mul pow).add (cell colDstValAfter))).mono (by decide)
  · exact ((((cell colDstValAfter).mul (cell colSrcVal)).add (cell colAux0)).sub
      (cell colDstValBefore)).mono (by decide)
  · exact ((((cell colAux0).mul (cell colSrcVal)).add (cell colDstValAfter)).sub
      (cell colDstValBefore)).mono (by decide)
  · exact ((cell colDstValAfter).sub (cell colAux0)).mono (by decide)
  · exact ((((cell colDstValAfter).sub (cell colDstValBefore)).sub
      (cell colSrcVal)).add (cell colAux0)).mono (by decide)
  · exact ((((cell colDstValAfter).sub (cell colDstValBefore)).sub
      (cell colSrcVal)).add (within_two.mul (cell colAux0))).mono (by decide)
  · exact ((((cell colDstValBefore).mul (cell colAux0)).sub
      ((cell colAux1).mul pow)).sub (cell colDstValAfter)).mono (by decide)
  · exact ((((cell colDstValAfter).mul (cell colAux0)).add (cell colAux1)).sub
      (cell colDstValBefore)).mono (by decide)
  · exact (((((cell colDstValAfter).mul (cell colAux0)).add (cell colAux1)).sub
      (cell colDstValBefore)).sub ((cell colAux2).mul pow)).mono (by decide)
  · exact ((((cell colDstValAfter).add (cell colDstValBefore)).sub
      ((cell colAux0).mul pow)).add (within_binaryCheck cell colAux0)).mono (by decide)
  · exact (((cell colMemAddr).sub ((cell colSrcVal).add (cell colImmediate))).add
      ((cell colDstValAfter).sub (cell colMemVal))).mono (by decide)
  · exact (((cell colMemAddr).sub ((cell colDstValBefore).add
      (cell colImmediate))).add ((cell colMemVal).sub (cell colSrcVal))).mono (by decide)
  · exact within_conditional cell aux1 oneMAux1 (equal.mono (by decide))
  · exact within_conditional cell oneMAux1 aux1 (equal.mono (by decide))
  · have body := within_conditional cell oneMAux1 aux1 zero
    rwa [add_zero] at body
  · have body := within_conditional cell aux1 oneMAux1 zero
    rwa [add_zero] at body
  · exact (within_branchesRaw cell).mono (by decide)
  · exact zero.mono (by decide)
  · exact zero.mono (by decide)

end Sizes

section Field

variable {order : ℕ} [large : Fact (2 ^ 254 < order)] (row : SbfTraceRow)

theorem cast_eq_zero_iff {bits : ℕ} {value : ℤ} (small : Within bits value)
    (few : bits ≤ 254) : ((value : ℤ) : ZMod order) = 0 ↔ value = 0 :=
  small.cast_eq_zero_iff ((Nat.pow_le_pow_right (by decide) few).trans large.out.le)

/-- In the field a body vanishes on a row of words only where it does over the
integers. -/
theorem selectorBody_field_iff {active : Column}
    (listed : active ∈ selectorColumnIndices) :
    selectorBody active (row.field : Row (ZMod order)) = 0 ↔
      selectorBody active row.integers = 0 := by
  rw [row.field_eq, selectorBody_map _ listed]
  exact cast_eq_zero_iff (within_selectorBody row.integers_within listed) (by decide)

theorem binaryCheck_field_iff (column : Column) :
    binaryCheck ((row.field : Row (ZMod order)) column) = 0 ↔
      (row.pushRow column).toNat ≤ 1 := by
  have cells : (row.field : Row (ZMod order)) column =
      Int.castRingHom (ZMod order) (row.integers column) := congrFun row.field_eq column
  rw [cells, ← map_binaryCheck]
  refine (cast_eq_zero_iff (within_binaryCheck row.integers_within column)
    (by decide)).trans ?_
  rw [binaryCheck, mul_eq_zero, sub_eq_zero, SbfTraceRow.integers]
  omega

/-- The constraints hold on the row in the field exactly when its words satisfy
the body of its selector. -/
theorem satisfied_field_iff :
    Satisfied (row.field : Row (ZMod order)) ↔
      selectorBody row.selector row.integers = 0 ∧
        (row.selector ∈ [colSelAluAdd, colSelAluSub] → row.aux0.toNat ≤ 1) := by
  have listed : row.selector ∈ selectorColumnIndices :=
    selectorColumn_listed row.insnType row.funct
  rw [satisfied_iff row.field_sole, selectorBody_field_iff row listed,
    binaryCheck_field_iff]
  rfl

variable [Fact order.Prime]

/-- A combination of the constraints is zero for every `alpha` only if all of
them are. -/
theorem vanishes_iff_satisfied (row : Row (ZMod order)) :
    (∀ alpha, combineConstraints row alpha = 0) ↔ Satisfied row := by
  have bound : 2 ^ 254 < order := Fact.out
  have : NeZero order := ⟨by omega⟩
  have short : (constraintValues row).length ≤ Fintype.card (ZMod order) := by
    rw [ZMod.card]
    have length : (constraintValues row).length = 47 := rfl
    omega
  simp only [combineConstraints_eq, evalPolyAt_eq]
  exact eval_toPoly_eq_zero_iff short

end Field

end Constraints

end MetaVm.Sbf
