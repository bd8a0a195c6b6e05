import MetaVm.Riscv.Isa
import MetaVm.Riscv.Constraints.Columns

namespace MetaVm.Riscv

open Constraints

/-! How a trace names an instruction: a type and a function code, an immediate,
and the selector column that the pair of codes sets. -/

namespace BranchOp

def functCode : BranchOp → Code
  | beq => functBeq
  | bne => functBne
  | blt => functBlt
  | bge => functBge
  | bltu => functBltu
  | bgeu => functBgeu

end BranchOp

namespace LoadOp

def functCode : LoadOp → Code
  | lb => functLb
  | lh => functLh
  | lw => functLw
  | ld => functLd
  | lbu => functLbu
  | lhu => functLhu
  | lwu => functLwu

end LoadOp

namespace StoreOp

def functCode : StoreOp → Code
  | sb => functSb
  | sh => functSh
  | sw => functSw
  | sd => functSd

end StoreOp

namespace ImmOp

def functCode : ImmOp → Code
  | addi => functAddi
  | slti => functSlti
  | sltiu => functSltiu
  | xori => functXori
  | ori => functOri
  | andi => functAndi
  | slli => functSlli
  | srli => functSrli
  | srai => functSrai

end ImmOp

namespace RegOp

def functCode : RegOp → Code
  | add => functAdd
  | sub => functSub
  | sll => functSll
  | slt => functSlt
  | sltu => functSltu
  | xor => functXor
  | srl => functSrl
  | sra => functSra
  | or => functOr
  | and => functAnd

end RegOp

namespace ImmWOp

def functCode : ImmWOp → Code
  | addiw => functAddiw
  | slliw => functSlliw
  | srliw => functSrliw
  | sraiw => functSraiw

end ImmWOp

namespace RegWOp

def functCode : RegWOp → Code
  | addw => functAddw
  | subw => functSubw
  | sllw => functSllw
  | srlw => functSrlw
  | sraw => functSraw

end RegWOp

namespace MulDivOp

def functCode : MulDivOp → Code
  | mul => 0
  | mulh => 1
  | mulhsu => 2
  | mulhu => 3
  | div => 4
  | divu => 5
  | rem => 6
  | remu => 7
  | mulw => 8
  | divw => 9
  | divuw => 10
  | remw => 11
  | remuw => 12

end MulDivOp

namespace CsrOp

def functCode : CsrOp → Code
  | rw => functCsrrw
  | rs => functCsrrs
  | rc => functCsrrc

def immFunctCode : CsrOp → Code
  | rw => functCsrrwi
  | rs => functCsrrsi
  | rc => functCsrrci

end CsrOp

namespace AmoOp

def functCode : AmoOp → AmoWidth → Code
  | swap, .w => functAmoswapW
  | swap, .d => functAmoswapD
  | add, .w => functAmoaddW
  | add, .d => functAmoaddD
  | and, .w => functAmoandW
  | and, .d => functAmoandD
  | or, .w => functAmoorW
  | or, .d => functAmoorD
  | xor, .w => functAmoxorW
  | xor, .d => functAmoxorD
  | max, .w => functAmomaxW
  | max, .d => functAmomaxD
  | min, .w => functAmominW
  | min, .d => functAmominD
  | maxu, .w => functAmomaxuW
  | maxu, .d => functAmomaxuD
  | minu, .w => functAmominuW
  | minu, .d => functAmominuD

end AmoOp

def classifyInstruction : Instruction → Code × Code
  | .op op _ _ _ => (insnRAlu, op.functCode)
  | .opImm op _ _ _ => (insnIAlu, op.functCode)
  | .opW op _ _ _ => (insnWAlu, op.functCode)
  | .opImmW op _ _ _ => (insnWAlu, op.functCode)
  | .mulDiv op _ _ _ => (insnMuldiv, op.functCode)
  | .load op _ _ _ => (insnLoad, op.functCode)
  | .store op _ _ _ => (insnStore, op.functCode)
  | .branch op _ _ _ => (insnBranch, op.functCode)
  | .jal _ _ => (insnJal, 0)
  | .jalr _ _ _ => (insnJalr, 0)
  | .lui _ _ => (insnLui, 0)
  | .auipc _ _ => (insnAuipc, 0)
  | .csr op _ _ _ => (insnCsr, op.functCode)
  | .csrImm op _ _ _ => (insnCsr, op.immFunctCode)
  | .ecall => (insnSystem, 0)
  | .ebreak => (insnSystem, 1)
  | .mret => (insnSystem, 2)
  | .sret => (insnSystem, 3)
  | .wfi => (insnSystem, 4)
  | .fence _ _ => (insnSystem, 5)
  | .sfenceVma _ _ => (insnSystem, 6)
  | .fenceI => (insnSystem, 7)
  | .lr .w _ _ _ _ => (insnAtomic, functLrW)
  | .lr .d _ _ _ _ => (insnAtomic, functLrD)
  | .sc .w _ _ _ _ _ => (insnAtomic, functScW)
  | .sc .d _ _ _ _ _ => (insnAtomic, functScD)
  | .amo op width _ _ _ _ _ => (insnAtomic, op.functCode width)

/-- The immediate column; an unsigned immediate is zero extended. -/
def extractImmediate : Instruction → Word
  | .lui _ imm => imm.word
  | .auipc _ imm => imm.word
  | .jal _ imm => imm.word
  | .jalr _ _ imm => imm.word
  | .load _ _ _ imm => imm.word
  | .opImm _ _ _ imm => imm.word
  | .opImmW _ _ _ imm => imm.word
  | .store _ _ _ imm => imm.word
  | .branch _ _ _ imm => imm.word
  | .csrImm _ _ uimm _ => uimm.setWidth 64
  | _ => 0

/-- The selector that the export sets for a pair of codes. Codes outside the
known ones fall to a default of their type. -/
def selectorColumn (insnType funct : Code) : Column :=
  if insnType = insnRAlu then
    if funct = functAdd then colSelRAluAdd
    else if funct = functSub then colSelRAluSub
    else if funct = functAnd then colSelRAnd
    else if funct = functOr then colSelROr
    else if funct = functXor then colSelRXor
    else if funct = functSll then colSelRSll
    else if funct = functSrl then colSelRSrl
    else if funct = functSra then colSelRSra
    else colSelRCompare
  else if insnType = insnIAlu then
    if funct = functAddi then colSelIAluAdd
    else if funct = functAndi then colSelIAnd
    else if funct = functOri then colSelIOr
    else if funct = functXori then colSelIXor
    else if funct = functSlli then colSelISll
    else if funct = functSrli then colSelISrl
    else if funct = functSrai then colSelISra
    else colSelICompare
  else if insnType = insnWAlu then
    if funct = functAddw then colSelWAluAdd
    else if funct = functSubw then colSelWAluSub
    else if funct = functAddiw then colSelWAluAddi
    else if funct = functSllw ∨ funct = functSlliw then colSelWSll
    else if funct = functSrlw ∨ funct = functSrliw then colSelWSrl
    else if funct = functSraw ∨ funct = functSraiw then colSelWSra
    else colSelWAluOther
  else if insnType = insnMuldiv then
    if funct = 0 then colSelMul
    else if funct = 1 then colSelMulh
    else if funct = 2 then colSelMulhsu
    else if funct = 3 then colSelMulhu
    else if funct = 4 ∨ funct = 5 then colSelDiv
    else if funct = 6 ∨ funct = 7 then colSelRem
    else if funct = 8 then colSelMulw
    else if funct = 9 ∨ funct = 10 then colSelDivw
    else if funct = 11 ∨ funct = 12 then colSelRemw
    else colSelMuldivOther
  else if insnType = insnLoad then colSelLoad
  else if insnType = insnStore then colSelStore
  else if insnType = insnBranch then
    if funct = functBeq then colSelBeq
    else if funct = functBne then colSelBne
    else if funct = functBltu then colSelBltu
    else if funct = functBgeu then colSelBgeu
    else if funct = functBlt then colSelBlt
    else if funct = functBge then colSelBge
    else colSelBlt
  else if insnType = insnJal then colSelJal
  else if insnType = insnJalr then colSelJalr
  else if insnType = insnLui then colSelLui
  else if insnType = insnAuipc then colSelAuipc
  else if insnType = insnCsr then
    if funct = functCsrrw then colSelCsrrw
    else if funct = functCsrrwi then colSelCsrrwI
    else if funct = functCsrrs then colSelCsrrs
    else if funct = functCsrrsi then colSelCsrrsI
    else if funct = functCsrrc ∨ funct = functCsrrci then colSelCsrrc
    else colSelCsrrw
  else if insnType = insnSystem then colSelSystem
  else if insnType = insnAtomic then
    if funct = functLrW ∨ funct = functLrD then colSelLr
    else if funct = functScW ∨ funct = functScD then colSelSc
    else if funct = functAmoswapW ∨ funct = functAmoswapD then colSelAmoSwap
    else if funct = functAmoaddW ∨ funct = functAmoaddD then colSelAmoAdd
    else if funct = functAmoandW ∨ funct = functAmoandD then colSelAmoBitwise
    else if funct = functAmoorW ∨ funct = functAmoorD then colSelAmoOr
    else if funct = functAmoxorW ∨ funct = functAmoxorD then colSelAmoXor
    else if funct = functAmomaxW ∨ funct = functAmomaxD then colSelAmoMaxs
    else if funct = functAmominW ∨ funct = functAmominD then colSelAmoMins
    else if funct = functAmomaxuW ∨ funct = functAmomaxuD then colSelAmoMaxu
    else if funct = functAmominuW ∨ funct = functAmominuD then colSelAmoCompare
    else colSelAtomicOther
  else colSelSystem

/-- The selector column of an instruction. -/
def selectorOf (insn : Instruction) : Column :=
  selectorColumn (classifyInstruction insn).1 (classifyInstruction insn).2

/-! The selector of each operation, which the chain of comparisons in
`selectorColumn` arrives at. -/

def BranchOp.selector : BranchOp → Column
  | .beq => colSelBeq
  | .bne => colSelBne
  | .blt => colSelBlt
  | .bge => colSelBge
  | .bltu => colSelBltu
  | .bgeu => colSelBgeu

def ImmOp.selector : ImmOp → Column
  | .addi => colSelIAluAdd
  | .slti => colSelICompare
  | .sltiu => colSelICompare
  | .xori => colSelIXor
  | .ori => colSelIOr
  | .andi => colSelIAnd
  | .slli => colSelISll
  | .srli => colSelISrl
  | .srai => colSelISra

def RegOp.selector : RegOp → Column
  | .add => colSelRAluAdd
  | .sub => colSelRAluSub
  | .sll => colSelRSll
  | .slt => colSelRCompare
  | .sltu => colSelRCompare
  | .xor => colSelRXor
  | .srl => colSelRSrl
  | .sra => colSelRSra
  | .or => colSelROr
  | .and => colSelRAnd

def ImmWOp.selector : ImmWOp → Column
  | .addiw => colSelWAluAddi
  | .slliw => colSelWSll
  | .srliw => colSelWSrl
  | .sraiw => colSelWSra

def RegWOp.selector : RegWOp → Column
  | .addw => colSelWAluAdd
  | .subw => colSelWAluSub
  | .sllw => colSelWSll
  | .srlw => colSelWSrl
  | .sraw => colSelWSra

def MulDivOp.selector : MulDivOp → Column
  | .mul => colSelMul
  | .mulh => colSelMulh
  | .mulhsu => colSelMulhsu
  | .mulhu => colSelMulhu
  | .div => colSelDiv
  | .divu => colSelDiv
  | .rem => colSelRem
  | .remu => colSelRem
  | .mulw => colSelMulw
  | .divw => colSelDivw
  | .divuw => colSelDivw
  | .remw => colSelRemw
  | .remuw => colSelRemw

def AmoOp.selector : AmoOp → Column
  | .swap => colSelAmoSwap
  | .add => colSelAmoAdd
  | .and => colSelAmoBitwise
  | .or => colSelAmoOr
  | .xor => colSelAmoXor
  | .max => colSelAmoMaxs
  | .min => colSelAmoMins
  | .maxu => colSelAmoMaxu
  | .minu => colSelAmoCompare

section Selector

variable {rd rs1 rs2 : Reg} {imm : Imm}

@[simp]
theorem selectorOf_branch (op : BranchOp) :
    selectorOf (.branch op rs1 rs2 imm) = op.selector := by
  cases op <;> rfl

@[simp]
theorem selectorOf_opImm (op : ImmOp) :
    selectorOf (.opImm op rd rs1 imm) = op.selector := by
  cases op <;> rfl

@[simp]
theorem selectorOf_op (op : RegOp) :
    selectorOf (.op op rd rs1 rs2) = op.selector := by
  cases op <;> rfl

@[simp]
theorem selectorOf_opImmW (op : ImmWOp) :
    selectorOf (.opImmW op rd rs1 imm) = op.selector := by
  cases op <;> rfl

@[simp]
theorem selectorOf_opW (op : RegWOp) :
    selectorOf (.opW op rd rs1 rs2) = op.selector := by
  cases op <;> rfl

@[simp]
theorem selectorOf_mulDiv (op : MulDivOp) :
    selectorOf (.mulDiv op rd rs1 rs2) = op.selector := by
  cases op <;> rfl

@[simp]
theorem selectorOf_amo (op : AmoOp) (width : AmoWidth) (aq rl : Bool) :
    selectorOf (.amo op width rd rs1 rs2 aq rl) = op.selector := by
  cases op <;> cases width <;> rfl

end Selector

end MetaVm.Riscv
