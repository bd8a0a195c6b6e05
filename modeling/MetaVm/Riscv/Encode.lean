import MetaVm.Lib.BitFields
import MetaVm.Riscv.Decode

namespace MetaVm.Riscv

open BitFields

/-! The standard encoding, as the decoder's tests build it. -/

namespace Encode

def encodeR (opcode : BitVec 7) (rd : Reg) (funct3 : BitVec 3) (rs1 rs2 : Reg)
    (funct7 : BitVec 7) : BitVec 32 :=
  place 25 funct7 ||| place 20 rs2 ||| place 15 rs1 ||| place 12 funct3 ||| place 7 rd |||
    place 0 opcode

/-- The upper twelve bits hold a field of their own. -/
def encodeUpper (opcode : BitVec 7) (rd : Reg) (funct3 : BitVec 3) (rs1 : Reg)
    (field : BitVec 12) : BitVec 32 :=
  place 20 field ||| place 15 rs1 ||| place 12 funct3 ||| place 7 rd ||| place 0 opcode

def encodeI (opcode : BitVec 7) (rd : Reg) (funct3 : BitVec 3) (rs1 : Reg) (imm : Imm) :
    BitVec 32 :=
  encodeUpper opcode rd funct3 rs1 (slice 0 12 imm)

def encodeCsr (rd : Reg) (funct3 : BitVec 3) (rs1 : Reg) (csr : CsrAddr) : BitVec 32 :=
  encodeUpper 0x73 rd funct3 rs1 csr

def encodeS (opcode : BitVec 7) (funct3 : BitVec 3) (rs1 rs2 : Reg) (imm : Imm) : BitVec 32 :=
  place 25 (slice 5 7 imm) ||| place 20 rs2 ||| place 15 rs1 ||| place 12 funct3 |||
    place 7 (slice 0 5 imm) ||| place 0 opcode

def encodeB (opcode : BitVec 7) (funct3 : BitVec 3) (rs1 rs2 : Reg) (imm : Imm) : BitVec 32 :=
  place 31 (slice 12 1 imm) ||| place 25 (slice 5 6 imm) ||| place 20 rs2 ||| place 15 rs1 |||
    place 12 funct3 ||| place 8 (slice 1 4 imm) ||| place 7 (slice 11 1 imm) ||| place 0 opcode

def encodeU (opcode : BitVec 7) (rd : Reg) (imm : Imm) : BitVec 32 :=
  place 12 (slice 12 20 imm) ||| place 7 rd ||| place 0 opcode

def encodeJ (opcode : BitVec 7) (rd : Reg) (imm : Imm) : BitVec 32 :=
  place 31 (slice 20 1 imm) ||| place 21 (slice 1 10 imm) ||| place 20 (slice 11 1 imm) |||
    place 12 (slice 12 8 imm) ||| place 7 rd ||| place 0 opcode

def encodeAmo (funct5 : BitVec 5) (aq rl : Bool) (rs2 rs1 : Reg) (funct3 : BitVec 3)
    (rd : Reg) : BitVec 32 :=
  place 27 funct5 ||| place 26 (BitVec.ofBool aq) ||| place 25 (BitVec.ofBool rl) |||
    place 20 rs2 ||| place 15 rs1 ||| place 12 funct3 ||| place 7 rd ||| place 0 0x2F#7

def encodeFence (pred succ : BitVec 4) : BitVec 32 :=
  place 24 pred ||| place 20 succ ||| place 0 0x0F#7

end Encode

/-! The function codes of the operations. -/

def BranchOp.funct3 : BranchOp → BitVec 3
  | beq => 0
  | bne => 1
  | blt => 4
  | bge => 5
  | bltu => 6
  | bgeu => 7

def LoadOp.funct3 : LoadOp → BitVec 3
  | lb => 0
  | lh => 1
  | lw => 2
  | ld => 3
  | lbu => 4
  | lhu => 5
  | lwu => 6

def StoreOp.funct3 : StoreOp → BitVec 3
  | sb => 0
  | sh => 1
  | sw => 2
  | sd => 3

def ImmOp.funct3 : ImmOp → BitVec 3
  | addi => 0
  | slti => 2
  | sltiu => 3
  | xori => 4
  | ori => 6
  | andi => 7
  | slli => 1
  | srli | srai => 5

def ImmWOp.funct3 : ImmWOp → BitVec 3
  | addiw => 0
  | slliw => 1
  | srliw | sraiw => 5

/-- The function codes of an operation on two registers. -/
def RegOp.functs : RegOp → BitVec 3 × BitVec 7
  | add => (0, 0x00)
  | sub => (0, 0x20)
  | sll => (1, 0x00)
  | slt => (2, 0x00)
  | sltu => (3, 0x00)
  | xor => (4, 0x00)
  | srl => (5, 0x00)
  | sra => (5, 0x20)
  | or => (6, 0x00)
  | and => (7, 0x00)

def RegWOp.functs : RegWOp → BitVec 3 × BitVec 7
  | addw => (0, 0x00)
  | subw => (0, 0x20)
  | sllw => (1, 0x00)
  | srlw => (5, 0x00)
  | sraw => (5, 0x20)

/-- The opcode of a multiplication or division, and its function code. -/
def MulDivOp.codes : MulDivOp → BitVec 7 × BitVec 3
  | mul => (0x33, 0)
  | mulh => (0x33, 1)
  | mulhsu => (0x33, 2)
  | mulhu => (0x33, 3)
  | div => (0x33, 4)
  | divu => (0x33, 5)
  | rem => (0x33, 6)
  | remu => (0x33, 7)
  | mulw => (0x3B, 0)
  | divw => (0x3B, 4)
  | divuw => (0x3B, 5)
  | remw => (0x3B, 6)
  | remuw => (0x3B, 7)

def CsrOp.funct3 : CsrOp → BitVec 3
  | rw => 1
  | rs => 2
  | rc => 3

def CsrOp.funct3Imm : CsrOp → BitVec 3
  | rw => 5
  | rs => 6
  | rc => 7

def AmoOp.funct5 : AmoOp → BitVec 5
  | swap => 0x01
  | add => 0x00
  | and => 0x0C
  | or => 0x08
  | xor => 0x04
  | max => 0x14
  | min => 0x10
  | maxu => 0x1C
  | minu => 0x18

def AmoWidth.funct3 : AmoWidth → BitVec 3
  | w => 2
  | d => 3

/-- The bit above a shift amount that tells an arithmetic shift from a logical one. -/
abbrev arithmeticShift : Imm := 1 <<< 10

open Encode in
def Instruction.encode : Instruction → BitVec 32
  | lui rd imm => encodeU 0x37 rd imm
  | auipc rd imm => encodeU 0x17 rd imm
  | jal rd imm => encodeJ 0x6F rd imm
  | jalr rd rs1 imm => encodeI 0x67 rd 0 rs1 imm
  | branch kind rs1 rs2 imm => encodeB 0x63 kind.funct3 rs1 rs2 imm
  | load kind rd rs1 imm => encodeI 0x03 rd kind.funct3 rs1 imm
  | store kind rs1 rs2 imm => encodeS 0x23 kind.funct3 rs1 rs2 imm
  | opImm .srai rd rs1 imm =>
      encodeI 0x13 rd ImmOp.srai.funct3 rs1 (arithmeticShift ||| imm)
  | opImm kind rd rs1 imm => encodeI 0x13 rd kind.funct3 rs1 imm
  | op kind rd rs1 rs2 => encodeR 0x33 rd kind.functs.1 rs1 rs2 kind.functs.2
  | opImmW .sraiw rd rs1 imm =>
      encodeI 0x1B rd ImmWOp.sraiw.funct3 rs1 (arithmeticShift ||| imm)
  | opImmW kind rd rs1 imm => encodeI 0x1B rd kind.funct3 rs1 imm
  | opW kind rd rs1 rs2 => encodeR 0x3B rd kind.functs.1 rs1 rs2 kind.functs.2
  | mulDiv kind rd rs1 rs2 => encodeR kind.codes.1 rd kind.codes.2 rs1 rs2 0x01
  | fence pred succ => encodeFence pred succ
  | fenceI => place 12 1#3 ||| place 0 0x0F#7
  | ecall => encodeI 0x73 0 0 0 0
  | ebreak => encodeI 0x73 0 0 0 1
  | csr kind rd rs1 csrAddr => encodeCsr rd kind.funct3 rs1 csrAddr
  | csrImm kind rd uimm csrAddr => encodeCsr rd kind.funct3Imm uimm csrAddr
  | mret => encodeR 0x73 0 0 0 2 0x18
  | sret => encodeR 0x73 0 0 0 2 0x08
  | wfi => encodeR 0x73 0 0 0 5 0x08
  | sfenceVma rs1 rs2 => encodeR 0x73 0 0 rs1 rs2 0x09
  | lr width rd rs1 aq rl => encodeAmo 0x02 aq rl 0 rs1 width.funct3 rd
  | sc width rd rs1 rs2 aq rl => encodeAmo 0x03 aq rl rs2 rs1 width.funct3 rd
  | amo kind width rd rs1 rs2 aq rl => encodeAmo kind.funct5 aq rl rs2 rs1 width.funct3 rd

/-- A signed immediate of so many bits. -/
def Imm.Fits (imm : Imm) (bits : ℕ) : Prop :=
  -2 ^ (bits - 1) ≤ imm.toInt ∧ imm.toInt < 2 ^ (bits - 1)

/-- The immediates that the fields of an instruction can hold. -/
def Instruction.InRange : Instruction → Prop
  | lui _ imm | auipc _ imm => 2 ^ 12 ∣ imm.toInt
  | jal _ imm => imm.Fits 21 ∧ 2 ∣ imm.toInt
  | jalr _ _ imm => imm.Fits 12
  | branch _ _ _ imm => imm.Fits 13 ∧ 2 ∣ imm.toInt
  | load _ _ _ imm | store _ _ _ imm => imm.Fits 12
  | opImm .slli _ _ imm | opImm .srli _ _ imm | opImm .srai _ _ imm =>
      0 ≤ imm.toInt ∧ imm.toInt < 64
  | opImm _ _ _ imm => imm.Fits 12
  | opImmW .addiw _ _ imm => imm.Fits 12
  | opImmW _ _ _ imm => 0 ≤ imm.toInt ∧ imm.toInt < 32
  | _ => True

end MetaVm.Riscv
