import MetaVm.Sbf.Constraints.Soundness.Alu
import MetaVm.Zkp.WordScalars

namespace MetaVm.Sbf.Constraints

open Zkp SelectorSystem

/-! Branch rows. A body adds the check of the target, the comparison and the
binary check of its bit into one equation, which has solutions away from the
target. -/

/-- The row is one of `op` on these inputs, under the selector of `code`. -/
structure BranchRow (code : Code) (op : BranchOp) (pc imm : Fr) (a b : Word)
    (row : Row Fr) : Prop where
  selected : row (branchSelector code) = 1
  funct : row colFunct = Scalar.fromU64 (op.funct.setWidth 64)
  pc : row colPc = pc
  immediate : row colImmediate = imm
  dst : row colDstValBefore = Scalar.fromU64 a
  src : row colSrcVal = Scalar.fromU64 b

def branchTarget (op : BranchOp) (pc imm : Fr) (a b : Word) : Fr :=
  if op.taken a b then pc + imm else pc + 8

/-- Every accepted row of `op` on these inputs goes where it should. -/
def BranchSound (code : Code) (op : BranchOp) (pc imm : Fr) (a b : Word) : Prop :=
  ∀ row, Accepted row → BranchRow code op pc imm a b row →
    row colNextPc = branchTarget op pc imm a b

/-- The body of a branch in the two targets, the difference of the operands, the
next program counter and the witness. -/
def branchEquation {F : Type} [CommRing F] (selector : Column)
    (taken notTaken difference next aux1 : F) : F :=
  if selector = colSelBranchEq then
    (next - taken) * (next - notTaken) + (next - notTaken) * aux1 +
      (next - taken) * (1 - aux1) + (1 - aux1) * difference + aux1 * (aux1 - 1)
  else if selector = colSelBranchNeq then
    (next - taken) * (next - notTaken) + (next - notTaken) * (1 - aux1) +
      (next - taken) * aux1 + (1 - aux1) * difference + aux1 * (aux1 - 1)
  else if selector = colSelBranchLt then
    (next - taken) * (next - notTaken) + (next - notTaken) * (1 - aux1) +
      (next - taken) * aux1 + aux1 * (aux1 - 1)
  else if selector = colSelBranchGe then
    (next - taken) * (next - notTaken) + (next - notTaken) * aux1 +
      (next - taken) * (1 - aux1) + aux1 * (aux1 - 1)
  else (next - taken) * (next - notTaken) + aux1 * (aux1 - 1)

/-- The selectors of branches. -/
theorem branchSelector_cases (code : Code) :
    branchSelector code = colSelBranchEq ∨ branchSelector code = colSelBranchNeq ∨
      branchSelector code = colSelBranchLt ∨ branchSelector code = colSelBranchGe ∨
      branchSelector code = colSelBranchOther := by
  unfold branchSelector
  split
  · exact .inl rfl
  split
  · exact .inr (.inl rfl)
  split
  · exact .inr (.inr (.inl rfl))
  split
  · exact .inr (.inr (.inr (.inl rfl)))
  · exact .inr (.inr (.inr (.inr rfl)))

theorem branchSelector_known (code : Code) :
    branchSelector code ∈ selectorColumnIndices := by
  rcases branchSelector_cases code with same | same | same | same | same
  all_goals
    rw [same]
    decide

theorem selectorBody_branch {F : Type} [CommRing F] (code : Code) (row : Row F) :
    selectorBody (branchSelector code) row =
      branchEquation (branchSelector code) (row colPc + row colImmediate)
        (row colPc + 8) (row colDstValBefore - row colSrcVal) (row colNextPc)
        (row colAux1) := by
  rcases branchSelector_cases code with same | same | same | same | same
  all_goals
    rw [same]
    rfl

/-- The cells a dishonest prover chooses. -/
structure BranchForgery where
  nextPc : Fr
  aux1 : Fr

namespace BranchForgery

variable (forgery : BranchForgery) (code : Code) (op : BranchOp) (pc imm : Fr)
  (a b : Word)

def cells : Cells Fr where
  pc := pc
  dstValBefore := Scalar.fromU64 a
  srcVal := Scalar.fromU64 b
  nextPc := forgery.nextPc
  insnType := Scalar.fromU64 (insnBranch.setWidth 64)
  funct := Scalar.fromU64 (op.funct.setWidth 64)
  immediate := imm
  aux1 := forgery.aux1

def row : Row Fr := (forgery.cells op pc imm a b).row (branchSelector code)

theorem row_branchRow :
    BranchRow code op pc imm a b (forgery.row code op pc imm a b) where
  selected := ((forgery.cells op pc imm a b).row_sole (branchSelector_known code)).set
  funct := rfl
  pc := rfl
  immediate := rfl
  dst := rfl
  src := rfl

theorem row_accepted
    (zero : branchEquation (branchSelector code) (pc + imm) (pc + 8)
      (Scalar.fromU64 a - Scalar.fromU64 b) forgery.nextPc forgery.aux1 = 0) :
    Accepted (forgery.row code op pc imm a b) := by
  have sole := (forgery.cells op pc imm a b).row_sole (branchSelector_known code)
  have outside : ∀ {columns : List Column},
      (∀ column ∈ columns, column < colSelBranchEq) →
      branchSelector code ∉ columns := by
    intro columns below member
    have less := below _ member
    rcases branchSelector_cases code with same | same | same | same | same
    all_goals
      rw [same] at less
      exact absurd less (by decide)
  refine (Accepted.of_sole_iff sole).2 ⟨⟨?_, ?_⟩, ⟨?_, ?_, ?_⟩, ?_, ?_⟩
  · rw [selectorBody_branch]
    exact zero
  · exact fun checked => absurd checked (outside (by decide))
  · exact fun ranged => absurd ranged (outside (by decide))
  · show (0 : Fr).val < 2 ^ 64
    rw [ZMod.val_zero]
    exact Nat.two_pow_pos 64
  · exact val_fromU64_lt b
  · intro bitwise same
    refine absurd (List.mem_singleton.2 same) (outside ?_)
    cases bitwise <;> decide
  · exact val_fromU64_lt a

end BranchForgery

/-- Every branch body has a solution away from a given program counter. -/
theorem exists_branch_solution (code : Code) (taken notTaken difference goal : Fr) :
    ∃ next aux1 : Fr, next ≠ goal ∧
      branchEquation (branchSelector code) taken notTaken difference next aux1 = 0 := by
  rcases branchSelector_cases code with same | same | same | same | same
  · rw [same]
    exact exists_equality_solution notTaken taken goal difference
  · -- The same equation with the two targets exchanged.
    obtain ⟨next, aux1, away, zero⟩ :=
      exists_equality_solution taken notTaken goal difference
    refine ⟨next, aux1, away, ?_⟩
    rw [same]
    show (next - taken) * (next - notTaken) + (next - notTaken) * (1 - aux1) +
      (next - taken) * aux1 + (1 - aux1) * difference + aux1 * (aux1 - 1) = 0
    linear_combination zero
  · obtain ⟨next, bit, away, solution⟩ := exists_free_bit notTaken goal
    refine ⟨next, bit, away, ?_⟩
    rw [same]
    show (next - taken) * (next - notTaken) + (next - notTaken) * (1 - bit) +
      (next - taken) * bit + bit * (bit - 1) = 0
    rcases solution with ⟨rfl, rfl⟩ | ⟨rfl, rfl⟩
    · ring
    · ring
  · obtain ⟨next, bit, away, solution⟩ := exists_free_bit notTaken goal
    refine ⟨next, 1 - bit, away, ?_⟩
    rw [same]
    show (next - taken) * (next - notTaken) + (next - notTaken) * (1 - bit) +
      (next - taken) * (1 - (1 - bit)) + (1 - bit) * (1 - bit - 1) = 0
    rcases solution with ⟨rfl, rfl⟩ | ⟨rfl, rfl⟩
    · ring
    · ring
  · obtain ⟨next, aux1, away, zero⟩ := exists_target_solution notTaken taken goal
    refine ⟨next, aux1, away, ?_⟩
    rw [same]
    exact zero

theorem branch_unsound (code : Code) (op : BranchOp) (pc imm : Fr) (a b : Word) :
    ¬ BranchSound code op pc imm a b := by
  intro sound
  obtain ⟨next, aux1, away, zero⟩ := exists_branch_solution code (pc + imm) (pc + 8)
    (Scalar.fromU64 a - Scalar.fromU64 b) (branchTarget op pc imm a b)
  let forgery : BranchForgery := ⟨next, aux1⟩
  exact away (sound _ (forgery.row_accepted code op pc imm a b zero)
    (forgery.row_branchRow code op pc imm a b))

/-- Which operations and operands the constraints and lookups pin down. -/
theorem rowSound_iff (op : AluOp) (code : Code) (branch : BranchOp) (pc imm : Fr)
    (a b : Word) :
    (AluSound op a b ↔ AluDetermined op a b) ∧ ¬ BranchSound code branch pc imm a b :=
  ⟨aluSound_iff op a b, branch_unsound code branch pc imm a b⟩

/-! A shift of one by one that leaves zero, and a jump from 0 to 16 that goes on
with the next instruction. -/

def shiftForgery : AluForgery := ⟨0, 0, 0⟩

def jumpForgery : BranchForgery := ⟨8, 0⟩

theorem rows_forged :
    (Accepted (shiftForgery.row .lsh 1 1) ∧
      AluRow .lsh 1 1 (shiftForgery.row .lsh 1 1) ∧
      AluOp.lsh.eval (1 : Word) 1 = some 2 ∧
      shiftForgery.row .lsh 1 1 colDstValAfter ≠ Scalar.fromU64 2) ∧
    Accepted (jumpForgery.row functJa .ja 0 16 0 0) ∧
      BranchRow functJa .ja 0 16 0 0 (jumpForgery.row functJa .ja 0 16 0 0) ∧
      jumpForgery.row functJa .ja 0 16 0 0 colNextPc ≠
        branchTarget .ja 0 16 0 0 := by
  refine ⟨⟨?_, shiftForgery.row_aluRow .lsh 1 1, by decide, ?_⟩, ?_,
    jumpForgery.row_branchRow functJa .ja 0 16 0 0, ?_⟩
  · refine shiftForgery.row_accepted .lsh 1 1 (by decide)
      (fun ranged => absurd ranged (by decide)) ?_
    decide
  · exact fun same => absurd (fromU64_injective same) (by decide)
  · refine jumpForgery.row_accepted functJa .ja 0 16 0 0 ?_
    decide
  · show (8 : Fr) ≠ branchTarget .ja 0 16 0 0
    decide

end MetaVm.Sbf.Constraints
