import MetaVm.Lib.Words
import MetaVm.Riscv.Constraints.OneHot
import MetaVm.Riscv.Rv64
import MetaVm.Zkp.WordScalars

namespace MetaVm.Riscv.Constraints

open Zkp

/-! What a verifier accepts of a row: the 128 constraints and the range
lookups. -/

structure Accepted (row : Row Fr) : Prop where
  constraints : Satisfied row
  lookups : ∀ declaration ∈ lookupDeclarations, declaration.Holds row

namespace Accepted

variable {row : Row Fr}

theorem rdRange (accepted : Accepted row) : (row colRdValAfter).val < 2 ^ 64 :=
  accepted.lookups ⟨"rd_val_after_64bit", colRdValAfter, 64, none⟩
    (by simp [lookupDeclarations]) (by simp)

theorem bodies (accepted : Accepted row) {selector : Column}
    (selected : row selector = 1) :
    ∀ body ∈ gatedBodies (· = [selector]), body row = 0 :=
  ownBodies_zero selected fun constraint member _ =>
    accepted.constraints.eval_zero constraint member

end Accepted

/-- A row with one selector is in range when its words are, and `aux0` where a
lookup of that selector asks for it. -/
theorem Cells.lookups_hold (cells : Cells Fr) {active : Column}
    (known : active ∈ selectorColumnIndices)
    (rd : cells.rdValAfter.val < 2 ^ 64) (rs1 : cells.rs1Val.val < 2 ^ 64)
    (rs2 : cells.rs2Val.val < 2 ^ 64)
    (aux0 : ∀ declaration ∈ lookupDeclarations,
      declaration.selectorColumn = some active →
        cells.aux0.val < 2 ^ declaration.maxBits) :
    ∀ declaration ∈ lookupDeclarations, declaration.Holds (cells.row active) := by
  have hot := cells.row_oneHot known
  have gated : ∀ {label : String} {bits : ℕ} {selector : Column},
      ⟨label, colAux0, bits, some selector⟩ ∈ lookupDeclarations →
      selector ∈ selectorColumnIndices →
      LookupDeclaration.Holds ⟨label, colAux0, bits, some selector⟩
        (cells.row active) := by
    intro label bits selector member selectorKnown selected
    have set : cells.row active selector = 1 := selected selector rfl
    by_cases same : selector = active
    · exact aux0 _ member (by rw [same])
    · rw [hot.clear selector selectorKnown same] at set
      exact absurd set zero_ne_one
  intro declaration member
  have listed := member
  simp only [lookupDeclarations, List.mem_cons, List.not_mem_nil, or_false] at listed
  rcases listed with rfl | rfl | rfl | rfl | rfl | rfl | rfl | rfl | rfl | rfl
  · exact gated member (by decide)
  · exact gated member (by decide)
  · exact gated member (by decide)
  · exact gated member (by decide)
  · exact gated member (by decide)
  · exact gated member (by decide)
  · exact gated member (by decide)
  · exact fun _ => rd
  · exact fun _ => rs1
  · exact fun _ => rs2

end MetaVm.Riscv.Constraints

namespace MetaVm.Riscv.Constraints

open Zkp

/-! Additions, subtractions and unsigned products: with the ranges the lookups
enforce, the equations leave one value for the result. -/

section LargeField

variable {order : ℕ} [Fact order.Prime] [large : Fact (2 ^ 254 < order)]

variable {a b c d : ZMod order} (aLt : a.val < 2 ^ 64) (bLt : b.val < 2 ^ 64)
  (dLt : d.val < 2 ^ 64)

include aLt bLt dLt

theorem high_unique (cLt : c.val < 2 ^ 64) (zero : a * b - (c * twoPow64 + d) = 0) :
    c.val = (Rv64.mulhu (Scalar.toU64 a) (Scalar.toU64 b)).toNat := by
  have split := product_split aLt bLt dLt cLt zero
  rw [Rv64.toNat_mulhu, Scalar.toU64, Scalar.toU64, BitVec.toNat_ofNat,
    BitVec.toNat_ofNat, Nat.mod_eq_of_lt aLt, Nat.mod_eq_of_lt bLt, split]
  omega

end LargeField

inductive CarryOp
  | add
  | sub
  | addi
  | mul
  | mulhu
deriving DecidableEq, Repr

namespace CarryOp

def selector : CarryOp → Column
  | add => colSelRAluAdd
  | sub => colSelRAluSub
  | addi => colSelIAluAdd
  | mul => colSelMul
  | mulhu => colSelMulhu

def operand : CarryOp → Column
  | addi => colImmediate
  | _ => colRs2Val

def result : CarryOp → Word → Word → Word
  | add, a, b => a + b
  | sub, a, b => a - b
  | addi, a, b => a + b
  | mul, a, b => a * b
  | mulhu, a, b => Rv64.mulhu a b

/-- The products, whose `aux0` is the other half of the double word. -/
def Wide : CarryOp → Prop
  | mul => True
  | mulhu => True
  | _ => False

end CarryOp

theorem carryChain_sound (op : CarryOp) (row : Row Fr)
    (rs1Range : (row colRs1Val).val < 2 ^ 64)
    (operandRange : (row op.operand).val < 2 ^ 64)
    (rdRange : (row colRdValAfter).val < 2 ^ 64)
    (aux0Range : op.Wide → (row colAux0).val < 2 ^ 64)
    (selected : row op.selector = 1)
    (zero : ∀ constraint ∈ gatedConstraints,
      constraint.selectors = [op.selector] → constraint.eval row = 0) :
    row colRdValAfter = Scalar.fromU64
      (op.result (Scalar.toU64 (row colRs1Val))
        (Scalar.toU64 (row op.operand))) := by
  have bodies := ownBodies_zero selected zero
  suffices same : (row colRdValAfter).val =
      (op.result (Scalar.toU64 (row colRs1Val))
        (Scalar.toU64 (row op.operand))).toNat by
    rw [Scalar.fromU64, ← same, ZMod.natCast_zmod_val]
  cases op with
  | add =>
      exact add_unique rs1Range operandRange rdRange
        (bodies evaluateAux0BinaryRaw (.tail _ (.head _)))
        (bodies evaluateAluRAddMainRaw (.head _))
  | sub =>
      exact sub_unique rs1Range operandRange rdRange
        (bodies evaluateAux0BinaryRaw (.tail _ (.head _)))
        (bodies evaluateAluRSubMainRaw (.head _))
  | addi =>
      exact add_unique rs1Range operandRange rdRange
        (bodies evaluateAux0BinaryRaw (.tail _ (.head _)))
        (bodies evaluateAluIAddMainRaw (.head _))
  | mul =>
      exact low_unique rs1Range operandRange rdRange (aux0Range trivial)
        (bodies evaluateMulRaw (.head _))
  | mulhu =>
      exact high_unique rs1Range operandRange (aux0Range trivial) rdRange
        (bodies evaluateMulhuRaw (.head _))

/-- The addition that carries out of the word. -/
def carryCells : Cells Fr where
  rs1Val := Scalar.fromU64 (BitVec.allOnes 64)
  rs2Val := 1
  rdValAfter := 0
  aux0 := 1

theorem carryCells_satisfied : Satisfied (carryCells.row colSelRAluAdd) := by
  have listed : (activeBodies colSelRAluAdd : List (Row Fr → Fr)) =
    [evaluateSequentialPcRaw, evaluateAluRAddMainRaw, evaluateAux0BinaryRaw] := rfl
  refine (carryCells.satisfied_iff (by decide) listed).2 ?_
  intro body member
  simp only [List.mem_cons, List.not_mem_nil, or_false] at member
  rcases member with rfl | rfl | rfl
  · show (0 : Fr) - (0 + 0) = 0
    ring
  · show Scalar.fromU64 (BitVec.allOnes 64) + 1 - (1 * twoPow64 + 0) = (0 : Fr)
    norm_num [Scalar.fromU64, twoPow64]
  · show (1 : Fr) * (1 - 1) = 0
    ring

theorem carryChain_sound_carry :
    Satisfied (carryCells.row colSelRAluAdd) ∧
      carryCells.row colSelRAluAdd colRdValAfter = Scalar.fromU64
        (Scalar.toU64 (carryCells.row colSelRAluAdd colRs1Val) +
          Scalar.toU64 (carryCells.row colSelRAluAdd colRs2Val)) := by
  have ranges : (carryCells.row colSelRAluAdd colRs1Val).val < 2 ^ 64 := by
    show (Scalar.fromU64 (BitVec.allOnes 64) : Fr).val < 2 ^ 64
    decide
  exact ⟨carryCells_satisfied, carryChain_sound .add (carryCells.row colSelRAluAdd) ranges
    (by decide) (by decide) False.elim rfl
    fun constraint member _ => carryCells_satisfied.eval_zero constraint member⟩

end MetaVm.Riscv.Constraints
