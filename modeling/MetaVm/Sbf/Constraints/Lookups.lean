import MetaVm.Sbf.Constraints.System
import MetaVm.Zkp.BitwiseSoundness
import MetaVm.Zkp.RangeChecks

namespace MetaVm.Sbf.Constraints

open Zkp SelectorSystem

/-! The lookups that the trace declares. -/

def lookupDeclarations : List LookupDeclaration :=
  [⟨colAux0.val, 64, some colSelAluMul.val⟩,
    ⟨colAux0.val, 64, some colSelAluDiv.val⟩,
    ⟨colAux0.val, 64, some colSelAluMod.val⟩,
    ⟨colDstValAfter.val, 64, none⟩,
    ⟨colSrcVal.val, 64, none⟩]

def bitwiseLookupDeclarations : List BitwiseLookupDeclaration :=
  [⟨colDstValBefore.val, colSrcVal.val, colDstValAfter.val, 64, .and,
      [colSelAluAnd.val]⟩,
    ⟨colDstValBefore.val, colSrcVal.val, colDstValAfter.val, 64, .or,
      [colSelAluOr.val]⟩,
    ⟨colDstValBefore.val, colSrcVal.val, colDstValAfter.val, 64, .xor,
      [colSelAluXor.val]⟩]

section Rows

variable {order : ℕ}

/-- A single row as a trace. -/
def rowTrace (row : Row (ZMod order)) : ℕ → ℕ → ZMod order :=
  fun _ column => row (Fin.ofNat 39 column)

/-- All range checks hold on a row. -/
def RangesHold (row : Row (ZMod order)) : Prop :=
  ∀ decl ∈ lookupDeclarations, decl.Holds 1 (rowTrace row)

/-- All bitwise lookups hold on a row. -/
def BitwiseHolds (row : Row (ZMod order)) : Prop :=
  BitwiseCorrect (groupBitwiseDeclarations bitwiseLookupDeclarations) 1 (rowTrace row)

theorem holds_iff (decl : LookupDeclaration) (row : Row (ZMod order)) :
    decl.Holds 1 (rowTrace row) ↔
      ((∀ sel, decl.selectorColumn = some sel → row (Fin.ofNat 39 sel) = 1) →
        (row (Fin.ofNat 39 decl.columnIndex)).val < 2 ^ decl.maxBits.toNat) := by
  constructor
  · exact fun holds => holds 0 Nat.zero_lt_one
  · exact fun holds _ _ => holds

def bitwiseSelector : BitwiseOp → Column
  | .and => colSelAluAnd
  | .or => colSelAluOr
  | .xor => colSelAluXor

/-- The words of a row are in the relation of a bitwise operation. -/
def BitwiseResult (op : BitwiseOp) (row : Row (ZMod order)) : Prop :=
  (row colDstValBefore).val < 2 ^ 64 ∧ (row colSrcVal).val < 2 ^ 64 ∧
    (row colDstValAfter).val = op.apply (row colDstValBefore).val (row colSrcVal).val

theorem bitwiseHolds_iff {row : Row (ZMod order)} :
    BitwiseHolds row ↔
      ∀ op, row (bitwiseSelector op) ≠ 0 → BitwiseResult op row := by
  have gated : ∀ {column : Column} {goal : Prop},
      (groupActive [column.val] (rowTrace row 0) = true → goal) ↔
        (row column ≠ 0 → goal) := by
    intro column goal
    simp [groupActive, rowTrace]
  have all : (∀ op, row (bitwiseSelector op) ≠ 0 → BitwiseResult op row) ↔
      (row colSelAluAnd ≠ 0 → BitwiseResult .and row) ∧
      (row colSelAluOr ≠ 0 → BitwiseResult .or row) ∧
      (row colSelAluXor ≠ 0 → BitwiseResult .xor row) := by
    constructor
    · exact fun results => ⟨results .and, results .or, results .xor⟩
    · rintro ⟨conjunction, disjunction, exclusive⟩ op
      cases op with
      | and => exact conjunction
      | or => exact disjunction
      | xor => exact exclusive
  rw [all, BitwiseHolds, BitwiseCorrect]
  simp only [Nat.lt_one_iff, forall_eq, groupBitwiseDeclarations, bitwiseLookupDeclarations,
    List.map_cons, List.map_nil, List.forall_mem_cons, List.not_mem_nil, false_implies,
    implies_true, and_true]
  exact and_congr gated (and_congr gated gated)

variable [NeZero (1 : ZMod order)] {row : Row (ZMod order)} {active : Column}
  (sole : Sole selectorColumnIndices row active)
include sole

theorem rangesHold_iff :
    RangesHold row ↔
      (active ∈ [colSelAluMul, colSelAluDiv, colSelAluMod] →
        (row colAux0).val < 2 ^ 64) ∧
      (row colDstValAfter).val < 2 ^ 64 ∧ (row colSrcVal).val < 2 ^ 64 := by
  have set : ∀ {cell : Column}, cell ∈ selectorColumnIndices →
      (row cell = 1 ↔ cell = active) := by
    intro cell listed
    rw [sole.cell cell listed]
    split
    · simp [*]
    · simp [*]
  have gated : ∀ {cell : Column}, cell ∈ selectorColumnIndices →
      (LookupDeclaration.Holds ⟨colAux0.val, 64, some cell.val⟩ 1 (rowTrace row) ↔
        (cell = active → (row colAux0).val < 2 ^ 64)) := by
    intro cell listed
    rw [holds_iff, ← set listed]
    simp only [Option.some_inj, forall_eq']
    rw [show Fin.ofNat 39 cell.val = cell from Fin.ofNat_val_eq_self cell]
    rfl
  have always : ∀ column : Column,
      LookupDeclaration.Holds ⟨column.val, 64, none⟩ 1 (rowTrace row) ↔
        (row column).val < 2 ^ 64 := by
    intro column
    rw [holds_iff]
    simp only [reduceCtorEq, false_implies, implies_true, true_implies]
    rw [show Fin.ofNat 39 column.val = column from Fin.ofNat_val_eq_self column]
    rfl
  simp only [RangesHold, lookupDeclarations, List.forall_mem_cons, List.not_mem_nil,
    false_implies, implies_true, and_true, always]
  rw [gated (by decide), gated (by decide), gated (by decide)]
  simp only [List.mem_cons, List.not_mem_nil, or_false, or_imp, and_assoc,
    @eq_comm _ _ active]

theorem bitwiseHolds_sole_iff :
    BitwiseHolds row ↔ ∀ op, active = bitwiseSelector op → BitwiseResult op row := by
  rw [bitwiseHolds_iff]
  have listed : ∀ op, bitwiseSelector op ∈ selectorColumnIndices := by
    intro op
    cases op <;> decide
  have set : ∀ op, row (bitwiseSelector op) ≠ 0 ↔ active = bitwiseSelector op := by
    intro op
    rw [sole.cell _ (listed op)]
    split
    · rename_i same
      simp [same]
    · rename_i different
      simp [Ne.symm different]
  simp only [set]

end Rows

end MetaVm.Sbf.Constraints
