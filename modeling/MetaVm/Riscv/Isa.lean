import MetaVm.Riscv.Rv64

namespace MetaVm.Riscv

/-! Decoded instructions. Instructions of one format that differ only in their
operation share a constructor. -/

abbrev Reg : Type := BitVec 5

/-- The immediate of a decoded instruction, an `i32`. -/
abbrev Imm : Type := BitVec 32

abbrev CsrAddr : Type := BitVec 12

/-- An immediate sign extended to a word, `imm as i64 as u64`. -/
def Imm.word (imm : Imm) : Word := imm.signExtend 64

inductive BranchOp
  | beq
  | bne
  | blt
  | bge
  | bltu
  | bgeu
deriving DecidableEq, Repr

inductive LoadOp
  | lb
  | lh
  | lw
  | ld
  | lbu
  | lhu
  | lwu
deriving DecidableEq, Repr

inductive StoreOp
  | sb
  | sh
  | sw
  | sd
deriving DecidableEq, Repr

inductive ImmOp
  | addi
  | slti
  | sltiu
  | xori
  | ori
  | andi
  | slli
  | srli
  | srai
deriving DecidableEq, Repr

inductive RegOp
  | add
  | sub
  | sll
  | slt
  | sltu
  | xor
  | srl
  | sra
  | or
  | and
deriving DecidableEq, Repr

inductive ImmWOp
  | addiw
  | slliw
  | srliw
  | sraiw
deriving DecidableEq, Repr

inductive RegWOp
  | addw
  | subw
  | sllw
  | srlw
  | sraw
deriving DecidableEq, Repr

inductive MulDivOp
  | mul
  | mulh
  | mulhsu
  | mulhu
  | div
  | divu
  | rem
  | remu
  | mulw
  | divw
  | divuw
  | remw
  | remuw
deriving DecidableEq, Repr

inductive CsrOp
  | rw
  | rs
  | rc
deriving DecidableEq, Repr

inductive AmoOp
  | swap
  | add
  | and
  | or
  | xor
  | max
  | min
  | maxu
  | minu
deriving DecidableEq, Repr

/-- The suffix of an atomic instruction. -/
inductive AmoWidth
  | w
  | d
deriving DecidableEq, Repr

inductive Instruction
  | lui (rd : Reg) (imm : Imm)
  | auipc (rd : Reg) (imm : Imm)
  | jal (rd : Reg) (imm : Imm)
  | jalr (rd rs1 : Reg) (imm : Imm)
  | branch (op : BranchOp) (rs1 rs2 : Reg) (imm : Imm)
  | load (op : LoadOp) (rd rs1 : Reg) (imm : Imm)
  | store (op : StoreOp) (rs1 rs2 : Reg) (imm : Imm)
  | opImm (op : ImmOp) (rd rs1 : Reg) (imm : Imm)
  | op (op : RegOp) (rd rs1 rs2 : Reg)
  | opImmW (op : ImmWOp) (rd rs1 : Reg) (imm : Imm)
  | opW (op : RegWOp) (rd rs1 rs2 : Reg)
  | mulDiv (op : MulDivOp) (rd rs1 rs2 : Reg)
  | fence (pred succ : BitVec 4)
  | fenceI
  | ecall
  | ebreak
  | csr (op : CsrOp) (rd rs1 : Reg) (csr : CsrAddr)
  | csrImm (op : CsrOp) (rd : Reg) (uimm : BitVec 5) (csr : CsrAddr)
  | mret
  | sret
  | wfi
  | sfenceVma (rs1 rs2 : Reg)
  | lr (width : AmoWidth) (rd rs1 : Reg) (aq rl : Bool)
  | sc (width : AmoWidth) (rd rs1 rs2 : Reg) (aq rl : Bool)
  | amo (op : AmoOp) (width : AmoWidth) (rd rs1 rs2 : Reg) (aq rl : Bool)
deriving DecidableEq, Repr

namespace Instruction

def rd : Instruction → Option Reg
  | lui rd _ => some rd
  | auipc rd _ => some rd
  | jal rd _ => some rd
  | jalr rd _ _ => some rd
  | branch _ _ _ _ => none
  | load _ rd _ _ => some rd
  | store _ _ _ _ => none
  | opImm _ rd _ _ => some rd
  | op _ rd _ _ => some rd
  | opImmW _ rd _ _ => some rd
  | opW _ rd _ _ => some rd
  | mulDiv _ rd _ _ => some rd
  | fence _ _ => none
  | fenceI => none
  | ecall => none
  | ebreak => none
  | csr _ rd _ _ => some rd
  | csrImm _ rd _ _ => some rd
  | mret => none
  | sret => none
  | wfi => none
  | sfenceVma _ _ => none
  | lr _ rd _ _ _ => some rd
  | sc _ rd _ _ _ _ => some rd
  | amo _ _ rd _ _ _ _ => some rd

def rs1 : Instruction → Option Reg
  | lui _ _ => none
  | auipc _ _ => none
  | jal _ _ => none
  | jalr _ rs1 _ => some rs1
  | branch _ rs1 _ _ => some rs1
  | load _ _ rs1 _ => some rs1
  | store _ rs1 _ _ => some rs1
  | opImm _ _ rs1 _ => some rs1
  | op _ _ rs1 _ => some rs1
  | opImmW _ _ rs1 _ => some rs1
  | opW _ _ rs1 _ => some rs1
  | mulDiv _ _ rs1 _ => some rs1
  | fence _ _ => none
  | fenceI => none
  | ecall => none
  | ebreak => none
  | csr _ _ rs1 _ => some rs1
  | csrImm _ _ _ _ => none
  | mret => none
  | sret => none
  | wfi => none
  | sfenceVma rs1 _ => some rs1
  | lr _ _ rs1 _ _ => some rs1
  | sc _ _ rs1 _ _ _ => some rs1
  | amo _ _ _ rs1 _ _ _ => some rs1

def rs2 : Instruction → Option Reg
  | branch _ _ rs2 _ => some rs2
  | store _ _ rs2 _ => some rs2
  | op _ _ _ rs2 => some rs2
  | opW _ _ _ rs2 => some rs2
  | mulDiv _ _ _ rs2 => some rs2
  | sfenceVma _ rs2 => some rs2
  | sc _ _ _ rs2 _ _ => some rs2
  | amo _ _ _ _ rs2 _ _ => some rs2
  | _ => none

end Instruction

end MetaVm.Riscv
