import MetaVm.Riscv.Constraints.Soundness.Accepted
import MetaVm.Zkp.WordScalars

namespace MetaVm.Riscv.Constraints

open Zkp

/-! Branch and jump rows. A body adds several checks into one equation, and a
comparison bit is not tied to the registers, so each body has solutions away
from the target. -/

inductive JumpOp
  | beq
  | bne
  | bltu
  | bgeu
  | blt
  | bge
  | jal
  | jalr
deriving DecidableEq, Repr

namespace JumpOp

def selector : JumpOp → Column
  | beq => colSelBeq
  | bne => colSelBne
  | bltu => colSelBltu
  | bgeu => colSelBgeu
  | blt => colSelBlt
  | bge => colSelBge
  | jal => colSelJal
  | jalr => colSelJalr

def insnType : JumpOp → Code
  | jal => insnJal
  | jalr => insnJalr
  | _ => insnBranch

def funct : JumpOp → Code
  | beq => functBeq
  | bne => functBne
  | bltu => functBltu
  | bgeu => functBgeu
  | blt => functBlt
  | bge => functBge
  | jal => 0
  | jalr => 0

/-- The next program counter of the instruction set. -/
def target (op : JumpOp) (pc rs1 rs2 imm len : Word) : Word :=
  match op with
  | beq => if rs1 = rs2 then pc + imm else pc + len
  | bne => if rs1 ≠ rs2 then pc + imm else pc + len
  | bltu => if rs1 < rs2 then pc + imm else pc + len
  | bgeu => if rs2 ≤ rs1 then pc + imm else pc + len
  | blt => if rs1.slt rs2 then pc + imm else pc + len
  | bge => if rs2.sle rs1 then pc + imm else pc + len
  | jal => pc + imm
  | jalr => (rs1 + imm) &&& ~~~1

/-- Whether the instruction writes a return address. -/
def Links (op : JumpOp) : Prop := op = jal ∨ op = jalr

def body {F : Type} [CommRing F] : JumpOp → Row F → F
  | beq => evaluateBeqConditionRaw
  | bne => evaluateBneConditionRaw
  | bltu => evaluateBltuConditionRaw
  | bgeu => evaluateBgeuConditionRaw
  | blt => evaluateBltConditionRaw
  | bge => evaluateBgeConditionRaw
  | jal => evaluateJalRaw
  | jalr => evaluateJalrRaw

theorem activeBodies_jump (op : JumpOp) :
    (activeBodies op.selector : List (Row Fr → Fr)) = [op.body] := by
  cases op <;> rfl

theorem selector_known (op : JumpOp) : op.selector ∈ selectorColumnIndices := by
  cases op <;> decide

theorem selector_unranged (op : JumpOp) : ∀ declaration ∈ lookupDeclarations,
    declaration.selectorColumn ≠ some op.selector := by
  cases op <;> decide

end JumpOp

/-- The row is one of `op` on these inputs. -/
structure JumpsOn (op : JumpOp) (pc rs1 rs2 imm len : Word) (row : Row Fr) :
    Prop where
  selected : row op.selector = 1
  insnType : row colInsnType = Scalar.fromU64 (op.insnType.setWidth 64)
  funct : row colFunct = Scalar.fromU64 (op.funct.setWidth 64)
  pc : row colPc = Scalar.fromU64 pc
  rs1 : row colRs1Val = Scalar.fromU64 rs1
  rs2 : row colRs2Val = Scalar.fromU64 rs2
  immediate : row colImmediate = Scalar.fromU64 imm
  insnLen : row colInsnLen = Scalar.fromU64 len

/-- Every accepted row of `op` on these inputs goes where it should, and links
where it should. -/
def JumpSound (op : JumpOp) (pc rs1 rs2 imm len : Word) : Prop :=
  ∀ row, Accepted row → JumpsOn op pc rs1 rs2 imm len row →
    row colNextPc = Scalar.fromU64 (op.target pc rs1 rs2 imm len) ∧
      (op.Links → row colRdValAfter = Scalar.fromU64 (pc + len))

/-- The cells a dishonest prover chooses. -/
structure Forgery where
  nextPc : Fr
  rd : Word
  aux0 : Fr
  aux1 : Fr

namespace Forgery

variable (forgery : Forgery) (op : JumpOp) (pc rs1 rs2 imm len : Word)

def cells : Cells Fr where
  pc := Scalar.fromU64 pc
  rdValAfter := Scalar.fromU64 forgery.rd
  rs1Val := Scalar.fromU64 rs1
  rs2Val := Scalar.fromU64 rs2
  nextPc := forgery.nextPc
  insnType := Scalar.fromU64 (op.insnType.setWidth 64)
  funct := Scalar.fromU64 (op.funct.setWidth 64)
  immediate := Scalar.fromU64 imm
  insnLen := Scalar.fromU64 len
  aux0 := forgery.aux0
  aux1 := forgery.aux1

def row : Row Fr := (forgery.cells op pc rs1 rs2 imm len).row op.selector

theorem row_accepted (zero : op.body (forgery.row op pc rs1 rs2 imm len) = 0) :
    Accepted (forgery.row op pc rs1 rs2 imm len) where
  constraints := by
    refine ((forgery.cells op pc rs1 rs2 imm len).satisfied_iff op.selector_known
      op.activeBodies_jump).2 ?_
    exact List.forall_mem_singleton.2 zero
  lookups := (forgery.cells op pc rs1 rs2 imm len).lookups_hold op.selector_known
    (val_fromU64_lt _) (val_fromU64_lt rs1) (val_fromU64_lt rs2)
    fun declaration member same =>
      absurd same (op.selector_unranged declaration member)

theorem row_jumpsOn :
    JumpsOn op pc rs1 rs2 imm len (forgery.row op pc rs1 rs2 imm len) where
  selected := ((forgery.cells op pc rs1 rs2 imm len).row_oneHot op.selector_known).set
  insnType := rfl
  funct := rfl
  pc := rfl
  rs1 := rfl
  rs2 := rfl
  immediate := rfl
  insnLen := rfl

end Forgery

theorem exists_word_ne (word : Word) : ∃ other : Word, other ≠ word := by
  refine ⟨word + 1, fun same => ?_⟩
  simp at same

theorem exists_forgery (op : JumpOp) (pc rs1 rs2 imm len : Word) :
    ∃ forgery : Forgery, op.body (forgery.row op pc rs1 rs2 imm len) = 0 ∧
      (forgery.nextPc ≠ Scalar.fromU64 (op.target pc rs1 rs2 imm len) ∨
        (op.Links ∧ forgery.rd ≠ pc + len)) := by
  let notTaken : Fr := Scalar.fromU64 pc + Scalar.fromU64 len
  let taken : Fr := Scalar.fromU64 pc + Scalar.fromU64 imm
  let goal : Fr := Scalar.fromU64 (op.target pc rs1 rs2 imm len)
  cases op with
  | beq =>
      obtain ⟨next, aux1, wrong, zero⟩ := exists_equality_solution notTaken taken
        goal (Scalar.fromU64 rs1 - Scalar.fromU64 rs2)
      exact ⟨⟨next, 0, 0, aux1⟩, zero, .inl wrong⟩
  | bne =>
      -- The same equation with the two targets exchanged.
      obtain ⟨next, aux1, wrong, zero⟩ := exists_equality_solution taken notTaken
        goal (Scalar.fromU64 rs1 - Scalar.fromU64 rs2)
      refine ⟨⟨next, 0, 0, aux1⟩, ?_, .inl wrong⟩
      show (next - taken) * (next - notTaken) + (next - notTaken) * (1 - aux1) +
        (next - taken) * aux1 +
        (1 - aux1) * (Scalar.fromU64 rs1 - Scalar.fromU64 rs2) +
        aux1 * (aux1 - 1) = 0
      linear_combination zero
  | bltu =>
      obtain ⟨next, bit, wrong, solution⟩ := exists_free_bit notTaken goal
      refine ⟨⟨next, 0, 0, bit⟩, ?_, .inl wrong⟩
      show (next - taken) * (next - notTaken) + (next - notTaken) * (1 - bit) +
        (next - taken) * bit + bit * (bit - 1) = 0
      rcases solution with ⟨rfl, rfl⟩ | ⟨rfl, rfl⟩ <;> ring
  | bgeu =>
      obtain ⟨next, bit, wrong, solution⟩ := exists_free_bit notTaken goal
      refine ⟨⟨next, 0, 0, 1 - bit⟩, ?_, .inl wrong⟩
      show (next - taken) * (next - notTaken) + (next - notTaken) * (1 - bit) +
        (next - taken) * (1 - (1 - bit)) + (1 - bit) * (1 - bit - 1) = 0
      rcases solution with ⟨rfl, rfl⟩ | ⟨rfl, rfl⟩ <;> ring
  | blt =>
      obtain ⟨next, bit, wrong, solution⟩ := exists_free_bit notTaken goal
      refine ⟨⟨next, 0, bit, 0⟩, ?_, .inl wrong⟩
      show (next - taken) * (next - notTaken) +
        (next - notTaken) * (1 - signedLt bit 0 0) +
        (next - taken) * signedLt bit 0 0 + binaryCheck 0 + binaryCheck 0 +
        binaryCheck bit = 0
      rcases solution with ⟨rfl, rfl⟩ | ⟨rfl, rfl⟩ <;>
      · simp only [signedLt, binaryCheck]
        ring
  | bge =>
      obtain ⟨next, bit, wrong, solution⟩ := exists_free_bit notTaken goal
      refine ⟨⟨next, 0, 1 - bit, 0⟩, ?_, .inl wrong⟩
      show (next - taken) * (next - notTaken) +
        (next - notTaken) * signedLt (1 - bit) 0 0 +
        (next - taken) * (1 - signedLt (1 - bit) 0 0) + binaryCheck 0 +
        binaryCheck 0 + binaryCheck (1 - bit) = 0
      rcases solution with ⟨rfl, rfl⟩ | ⟨rfl, rfl⟩ <;>
      · simp only [signedLt, binaryCheck]
        ring
  | jal =>
      -- An error in the return address is made up for in the target.
      obtain ⟨rd, wrong⟩ := exists_word_ne (pc + len)
      refine ⟨⟨taken + notTaken - Scalar.fromU64 rd, rd, 0, 0⟩, ?_,
        .inr ⟨.inl rfl, wrong⟩⟩
      show Scalar.fromU64 rd - notTaken +
        (taken + notTaken - Scalar.fromU64 rd - taken) = 0
      ring
  | jalr =>
      obtain ⟨rd, wrong⟩ := exists_word_ne (pc + len)
      let base : Fr := Scalar.fromU64 rs1 + Scalar.fromU64 imm
      refine ⟨⟨base + notTaken - Scalar.fromU64 rd, rd, 0, 0⟩, ?_,
        .inr ⟨.inr rfl, wrong⟩⟩
      show Scalar.fromU64 rd - notTaken +
        (base + notTaken - Scalar.fromU64 rd - (base - 0)) + binaryCheck 0 = 0
      simp only [binaryCheck]
      ring

theorem jump_unsound (op : JumpOp) (pc rs1 rs2 imm len : Word) :
    ¬JumpSound op pc rs1 rs2 imm len := by
  intro sound
  obtain ⟨forgery, zero, wrong⟩ := exists_forgery op pc rs1 rs2 imm len
  obtain ⟨next, link⟩ := sound _ (forgery.row_accepted op pc rs1 rs2 imm len zero)
    (forgery.row_jumpsOn op pc rs1 rs2 imm len)
  rcases wrong with wrongNext | ⟨links, wrongLink⟩
  · exact wrongNext next
  · exact wrongLink (fromU64_injective (link links))

/-- A taken jump from 0 to 8 whose row goes to 11 and links to 1. -/
def jalForgery : Forgery := ⟨Scalar.fromU64 11, 1, 0, 0⟩

theorem jal_row_forged :
    Accepted (jalForgery.row .jal 0 0 0 8 4) ∧
      JumpsOn .jal 0 0 0 8 4 (jalForgery.row .jal 0 0 0 8 4) ∧
      jalForgery.row .jal 0 0 0 8 4 colNextPc ≠
        Scalar.fromU64 (JumpOp.jal.target 0 0 0 8 4) ∧
      jalForgery.row .jal 0 0 0 8 4 colRdValAfter ≠ Scalar.fromU64 (0 + 4) := by
  refine ⟨jalForgery.row_accepted .jal 0 0 0 8 4 ?_,
    jalForgery.row_jumpsOn .jal 0 0 0 8 4, ?_, ?_⟩
  · show (Scalar.fromU64 1 : Fr) - (Scalar.fromU64 0 + Scalar.fromU64 4) +
      (Scalar.fromU64 11 - (Scalar.fromU64 0 + Scalar.fromU64 8)) = 0
    decide
  · exact fun same => absurd (fromU64_injective same) (by decide)
  · exact fun same => absurd (fromU64_injective same) (by decide)

end MetaVm.Riscv.Constraints
