import MetaVm.Riscv.Trace.TracingVm
import MetaVm.Riscv.Trace.Encoding
import MetaVm.Riscv.Constraints.OneHot
import MetaVm.Riscv.Constraints.Soundness.Accepted

namespace MetaVm.Riscv

open Zkp Constraints

theorem selectorOf_known (insn : Instruction) :
    selectorOf insn ∈ selectorColumnIndices := by
  have known : ∀ column : Column, 19 ≤ column.val →
      column ∈ selectorColumnIndices := by
    intro column above
    rw [selectorColumnIndices_eq]
    refine List.mem_ofFn.2 ⟨⟨column.val - 19, by omega⟩, ?_⟩
    ext
    show 19 + (column.val - 19) = column.val
    omega
  apply known
  cases insn with
  | branch op => cases op <;> exact Nat.le_of_ble_eq_true rfl
  | load op => cases op <;> exact Nat.le_of_ble_eq_true rfl
  | store op => cases op <;> exact Nat.le_of_ble_eq_true rfl
  | opImm op => cases op <;> exact Nat.le_of_ble_eq_true rfl
  | op op => cases op <;> exact Nat.le_of_ble_eq_true rfl
  | opImmW op => cases op <;> exact Nat.le_of_ble_eq_true rfl
  | opW op => cases op <;> exact Nat.le_of_ble_eq_true rfl
  | mulDiv op => cases op <;> exact Nat.le_of_ble_eq_true rfl
  | csr op => cases op <;> exact Nat.le_of_ble_eq_true rfl
  | csrImm op => cases op <;> exact Nat.le_of_ble_eq_true rfl
  | lr width => cases width <;> exact Nat.le_of_ble_eq_true rfl
  | sc width => cases width <;> exact Nat.le_of_ble_eq_true rfl
  | amo op width => cases op <;> cases width <;> exact Nat.le_of_ble_eq_true rfl
  | _ => exact Nat.le_of_ble_eq_true rfl

/-- The kept bodies that the selector of an instruction switches on. -/
def keptBodies (keep : List Column → Bool) (insn : Instruction) :
    List (Row ℤ → ℤ) :=
  gatedBodies fun selectors =>
    keep selectors && selectors.contains (selectorOf insn)

namespace TraceRow

/-! The columns of one recorded row, embedded into a field. -/

variable {order : ℕ}

def cells (row : TraceRow) : Cells (ZMod order) where
  pc := Scalar.fromU64 row.pc
  rd := Scalar.fromU64 (row.rd.setWidth 64)
  rdValBefore := Scalar.fromU64 row.rdValBefore
  rdValAfter := Scalar.fromU64 row.rdValAfter
  rs1 := Scalar.fromU64 (row.rs1.setWidth 64)
  rs1Val := Scalar.fromU64 row.rs1Val
  rs2 := Scalar.fromU64 (row.rs2.setWidth 64)
  rs2Val := Scalar.fromU64 row.rs2Val
  memAddr := Scalar.fromU64 row.memAddr
  memVal := Scalar.fromU64 row.memVal
  nextPc := Scalar.fromU64 row.nextPc
  privilegeMode := Scalar.fromU64 (row.privilegeMode.setWidth 64)
  insnType :=
    Scalar.fromU64 ((classifyInstruction row.instruction).1.setWidth 64)
  funct := Scalar.fromU64 ((classifyInstruction row.instruction).2.setWidth 64)
  immediate := Scalar.fromU64 (extractImmediate row.instruction)
  insnLen := Scalar.fromU64 (row.insnLen.setWidth 64)
  aux0 := Scalar.fromU64 row.aux0
  aux1 := Scalar.fromU64 row.aux1
  aux2 := Scalar.fromU64 row.aux2

/-- The row of the exported columns. -/
def columns (row : TraceRow) : Row (ZMod order) :=
  row.cells.row (selectorOf row.instruction)

theorem columns_oneHot (row : TraceRow) :
    OneHot (row.columns : Row (ZMod order)) (selectorOf row.instruction) :=
  row.cells.row_oneHot (selectorOf_known _)

/-- The gated constraints that a test of their selectors keeps hold on a row. -/
def Satisfies (row : TraceRow) (keep : List Column → Bool) : Prop :=
  ∀ constraint ∈ (gatedConstraints : List (GatedConstraint Fr)),
    keep constraint.selectors → constraint.eval row.columns = 0

/-- Of the kept constraints only those of the row's own selector count. -/
theorem satisfies_iff (row : TraceRow) (keep : List Column → Bool) :
    row.Satisfies keep ↔
      ∀ body ∈ gatedBodies fun selectors =>
          keep selectors && selectors.contains (selectorOf row.instruction),
        body (row.columns : Row Fr) = 0 := by
  simp only [Satisfies, gatedBodies, List.forall_mem_map, List.mem_filter,
    Bool.and_eq_true, List.contains_iff_mem, and_imp]
  refine forall₂_congr fun constraint member => forall_congr' fun _ => ?_
  rw [row.columns_oneHot.eval_eq member]
  split <;> simp_all

/-- The row of the exported columns before it is embedded. -/
def integers (row : TraceRow) : Row ℤ :=
  selectRow ![row.pc.toNat, row.rd.toNat, row.rdValBefore.toNat,
    row.rdValAfter.toNat, row.rs1.toNat, row.rs1Val.toNat, row.rs2.toNat,
    row.rs2Val.toNat, row.memAddr.toNat, row.memVal.toNat, row.nextPc.toNat,
    row.privilegeMode.toNat, (classifyInstruction row.instruction).1.toNat,
    (classifyInstruction row.instruction).2.toNat,
    (extractImmediate row.instruction).toNat, row.insnLen.toNat,
    row.aux0.toNat, row.aux1.toNat, row.aux2.toNat] (selectorOf row.instruction)

theorem fromU64_setWidth {width : ℕ} (short : width ≤ 64) (x : BitVec width) :
    (Scalar.fromU64 (x.setWidth 64) : ZMod order) = ((x.toNat : ℤ) : ZMod order) := by
  rw [Scalar.fromU64, BitVec.toNat_setWidth_of_le short, Int.cast_natCast]

theorem columns_eq (row : TraceRow) :
    (row.columns : Row (ZMod order)) = Int.castRingHom _ ∘ row.integers := by
  have word : ∀ x : Word, (Scalar.fromU64 x : ZMod order) =
      ((x.toNat : ℤ) : ZMod order) := fun x => (Int.cast_natCast _).symm
  rw [integers, ← selectRow_map]
  refine congrArg (selectRow · (selectorOf row.instruction)) (funext fun column => ?_)
  fin_cases column
  · exact word _
  · exact fromU64_setWidth (by decide) _
  · exact word _
  · exact word _
  · exact fromU64_setWidth (by decide) _
  · exact word _
  · exact fromU64_setWidth (by decide) _
  · exact word _
  · exact word _
  · exact word _
  · exact word _
  · exact fromU64_setWidth (by decide) _
  · exact fromU64_setWidth (by decide) _
  · exact fromU64_setWidth (by decide) _
  · exact word _
  · exact fromU64_setWidth (by decide) _
  · exact word _
  · exact word _
  · exact word _

/-- The constraints that count, evaluated over the integers. -/
theorem satisfies_iff_integers (row : TraceRow) (keep : List Column → Bool)
    {bodies : List (Row ℤ → ℤ)}
    (listed : keptBodies keep row.instruction = bodies) :
    row.Satisfies keep ↔ ∀ body ∈ bodies, ((body row.integers : ℤ) : Fr) = 0 := by
  rw [keptBodies] at listed
  rw [row.satisfies_iff keep, columns_eq, forall_gatedBodies_map, listed]
  rfl

/-- The row of an instruction with a single constraint that counts. -/
theorem satisfies_record_iff {insn : Instruction} {keep : List Column → Bool}
    {body : Row ℤ → ℤ} (listed : keptBodies keep insn = [body]) (step : ℕ) (before after : Vm)
    (len : Byte) :
    (TraceRow.record step before after ⟨insn, len⟩).Satisfies keep ↔
      ((body (TraceRow.record step before after ⟨insn, len⟩).integers : ℤ) : Fr) = 0 :=
  (satisfies_iff_integers (TraceRow.record step before after ⟨insn, len⟩) keep listed).trans
    List.forall_mem_singleton

end TraceRow

end MetaVm.Riscv
