import MetaVm.Riscv.Isa
import MetaVm.Riscv.Machine.Memory

namespace MetaVm.Riscv

inductive DecodeError
  | unknownOpcode (opcode : BitVec 8)
  | unknownFunct3 (opcode funct3 : BitVec 8)
  | unknownFunct7 (opcode funct3 funct7 : BitVec 8)
  | illegalCompressed (half : BitVec 16)
deriving DecidableEq, Repr

namespace Decode

/-! Fields of a 32-bit word. -/

def opcode (w : BitVec 32) : BitVec 7 := w.setWidth 7

def rd (w : BitVec 32) : Reg := (w >>> 7).setWidth 5

def funct3 (w : BitVec 32) : BitVec 3 := (w >>> 12).setWidth 3

def rs1 (w : BitVec 32) : Reg := (w >>> 15).setWidth 5

def rs2 (w : BitVec 32) : Reg := (w >>> 20).setWidth 5

def funct7 (w : BitVec 32) : BitVec 7 := (w >>> 25).setWidth 7

/-- Sign extension from the low `bits` bits. -/
def signExtend (val : BitVec 32) (bits : ℕ) : Imm :=
  (val <<< (32 - bits)).sshiftRight (32 - bits)

def immI (w : BitVec 32) : Imm := w.sshiftRight 20

def immS (w : BitVec 32) : Imm :=
  (w &&& 0xFE000000).sshiftRight 20 ||| ((w >>> 7) &&& 0x1F)

def immB (w : BitVec 32) : Imm :=
  let bit12 := (w >>> 31) &&& 1
  let bit11 := (w >>> 7) &&& 1
  let bits10To5 := (w >>> 25) &&& 0x3F
  let bits4To1 := (w >>> 8) &&& 0xF
  signExtend ((bits4To1 <<< 1) ||| (bits10To5 <<< 5) ||| (bit11 <<< 11) |||
    (bit12 <<< 12)) 13

def immU (w : BitVec 32) : Imm := w &&& 0xFFFFF000

def immJ (w : BitVec 32) : Imm :=
  let bit20 := (w >>> 31) &&& 1
  let bits19To12 := (w >>> 12) &&& 0xFF
  let bit11 := (w >>> 20) &&& 1
  let bits10To1 := (w >>> 21) &&& 0x3FF
  signExtend ((bits10To1 <<< 1) ||| (bit11 <<< 11) ||| (bits19To12 <<< 12) |||
    (bit20 <<< 20)) 21

def badFunct3 (w : BitVec 32) : Except DecodeError Instruction :=
  .error (.unknownFunct3 ((opcode w).setWidth 8) ((funct3 w).setWidth 8))

def badFunct7 (w : BitVec 32) (funct7 : BitVec 8) : Except DecodeError Instruction :=
  .error (.unknownFunct7 ((opcode w).setWidth 8) ((funct3 w).setWidth 8) funct7)

/-! One decoder for each opcode. -/

def branch (w : BitVec 32) : Except DecodeError Instruction :=
  let insn := fun op => .ok (.branch op (rs1 w) (rs2 w) (immB w))
  match funct3 w with
  | 0 => insn .beq
  | 1 => insn .bne
  | 4 => insn .blt
  | 5 => insn .bge
  | 6 => insn .bltu
  | 7 => insn .bgeu
  | _ => badFunct3 w

def load (w : BitVec 32) : Except DecodeError Instruction :=
  let insn := fun op => .ok (.load op (rd w) (rs1 w) (immI w))
  match funct3 w with
  | 0 => insn .lb
  | 1 => insn .lh
  | 2 => insn .lw
  | 3 => insn .ld
  | 4 => insn .lbu
  | 5 => insn .lhu
  | 6 => insn .lwu
  | _ => badFunct3 w

def store (w : BitVec 32) : Except DecodeError Instruction :=
  let insn := fun op => .ok (.store op (rs1 w) (rs2 w) (immS w))
  match funct3 w with
  | 0 => insn .sb
  | 1 => insn .sh
  | 2 => insn .sw
  | 3 => insn .sd
  | _ => badFunct3 w

/-- The upper bits of a shift are only looked at for bit 30. -/
def opImm (w : BitVec 32) : Except DecodeError Instruction :=
  let insn := fun op imm => .ok (.opImm op (rd w) (rs1 w) imm)
  let shamt := immI w &&& 0x3F
  match funct3 w with
  | 0 => insn .addi (immI w)
  | 2 => insn .slti (immI w)
  | 3 => insn .sltiu (immI w)
  | 4 => insn .xori (immI w)
  | 6 => insn .ori (immI w)
  | 7 => insn .andi (immI w)
  | 1 => insn .slli shamt
  | _ => if w &&& (1 <<< 30) ≠ 0 then insn .srai shamt else insn .srli shamt

def opImmW (w : BitVec 32) : Except DecodeError Instruction :=
  let insn := fun op imm => .ok (.opImmW op (rd w) (rs1 w) imm)
  let shamt := immI w &&& 0x1F
  match funct3 w with
  | 0 => insn .addiw (immI w)
  | 1 => insn .slliw shamt
  | 5 => if w &&& (1 <<< 30) ≠ 0 then insn .sraiw shamt else insn .srliw shamt
  | _ => badFunct3 w

def rType (w : BitVec 32) : Except DecodeError Instruction :=
  let insn := fun op => .ok (.op op (rd w) (rs1 w) (rs2 w))
  let insnM := fun op => .ok (.mulDiv op (rd w) (rs1 w) (rs2 w))
  match funct7 w with
  | 0x00 =>
      match funct3 w with
      | 0 => insn .add
      | 1 => insn .sll
      | 2 => insn .slt
      | 3 => insn .sltu
      | 4 => insn .xor
      | 5 => insn .srl
      | 6 => insn .or
      | _ => insn .and
  | 0x20 =>
      match funct3 w with
      | 0 => insn .sub
      | 5 => insn .sra
      | _ => badFunct7 w 0x20
  | 0x01 =>
      match funct3 w with
      | 0 => insnM .mul
      | 1 => insnM .mulh
      | 2 => insnM .mulhsu
      | 3 => insnM .mulhu
      | 4 => insnM .div
      | 5 => insnM .divu
      | 6 => insnM .rem
      | _ => insnM .remu
  | f7 => badFunct7 w (f7.setWidth 8)

def r32Type (w : BitVec 32) : Except DecodeError Instruction :=
  let insn := fun op => .ok (.opW op (rd w) (rs1 w) (rs2 w))
  let insnM := fun op => .ok (.mulDiv op (rd w) (rs1 w) (rs2 w))
  match funct7 w with
  | 0x00 =>
      match funct3 w with
      | 0 => insn .addw
      | 1 => insn .sllw
      | 5 => insn .srlw
      | _ => badFunct3 w
  | 0x20 =>
      match funct3 w with
      | 0 => insn .subw
      | 5 => insn .sraw
      | _ => badFunct7 w 0x20
  | 0x01 =>
      match funct3 w with
      | 0 => insnM .mulw
      | 4 => insnM .divw
      | 5 => insnM .divuw
      | 6 => insnM .remw
      | 7 => insnM .remuw
      | _ => badFunct3 w
  | f7 => badFunct7 w (f7.setWidth 8)

def fence (w : BitVec 32) : Except DecodeError Instruction :=
  match funct3 w with
  | 0 => .ok (.fence ((w >>> 24).setWidth 4) ((w >>> 20).setWidth 4))
  | 1 => .ok .fenceI
  | _ => badFunct3 w

def system (w : BitVec 32) : Except DecodeError Instruction :=
  let csrAddr : CsrAddr := (w >>> 20).setWidth 12
  match funct3 w with
  | 0 =>
      match funct7 w, rs2 w with
      | 0x00, 0 => .ok .ecall
      | 0x00, 1 => .ok .ebreak
      | 0x18, 2 => .ok .mret
      | 0x08, 2 => .ok .sret
      | 0x08, 5 => .ok .wfi
      | 0x09, r2 => .ok (.sfenceVma (rs1 w) r2)
      | f7, _ => badFunct7 w (f7.setWidth 8)
  | 1 => .ok (.csr .rw (rd w) (rs1 w) csrAddr)
  | 2 => .ok (.csr .rs (rd w) (rs1 w) csrAddr)
  | 3 => .ok (.csr .rc (rd w) (rs1 w) csrAddr)
  | 5 => .ok (.csrImm .rw (rd w) (rs1 w) csrAddr)
  | 6 => .ok (.csrImm .rs (rd w) (rs1 w) csrAddr)
  | 7 => .ok (.csrImm .rc (rd w) (rs1 w) csrAddr)
  | _ => badFunct3 w

def amoOf (w : BitVec 32) (width : AmoWidth) : Except DecodeError Instruction :=
  let funct5 : BitVec 5 := (w >>> 27).setWidth 5
  let aq : Bool := (w >>> 26) &&& 1 ≠ 0
  let rl : Bool := (w >>> 25) &&& 1 ≠ 0
  let insn := fun op => .ok (.amo op width (rd w) (rs1 w) (rs2 w) aq rl)
  match funct5 with
  | 0x02 => .ok (.lr width (rd w) (rs1 w) aq rl)
  | 0x03 => .ok (.sc width (rd w) (rs1 w) (rs2 w) aq rl)
  | 0x01 => insn .swap
  | 0x00 => insn .add
  | 0x0C => insn .and
  | 0x08 => insn .or
  | 0x04 => insn .xor
  | 0x14 => insn .max
  | 0x10 => insn .min
  | 0x1C => insn .maxu
  | 0x18 => insn .minu
  | _ => badFunct7 w (funct5.setWidth 8 <<< 2)

def amo (w : BitVec 32) : Except DecodeError Instruction :=
  match funct3 w with
  | 2 => amoOf w .w
  | 3 => amoOf w .d
  | _ => badFunct3 w

end Decode

open Decode in
/-- The instruction of a 32-bit word. -/
def decode (w : BitVec 32) : Except DecodeError Instruction :=
  match opcode w with
  | 0x37 => .ok (.lui (rd w) (immU w))
  | 0x17 => .ok (.auipc (rd w) (immU w))
  | 0x6F => .ok (.jal (rd w) (immJ w))
  | 0x67 => if funct3 w ≠ 0 then badFunct3 w else .ok (.jalr (rd w) (rs1 w) (immI w))
  | 0x63 => branch w
  | 0x03 => load w
  | 0x23 => store w
  | 0x13 => opImm w
  | 0x33 => rType w
  | 0x1B => opImmW w
  | 0x3B => r32Type w
  | 0x0F => fence w
  | 0x73 => system w
  | 0x2F => amo w
  | op => .error (.unknownOpcode (op.setWidth 8))

namespace Decode

/-! Compressed instructions. -/

/-- The field of `width` bits of `half` from bit `start`, moved to `target`. -/
def cbits (half : BitVec 16) (start width target : ℕ) : BitVec 16 :=
  ((half >>> start).setWidth width).setWidth 16 <<< target

/-- A three-bit register field, one of `x8` to `x15`. -/
def creg (half : BitVec 16) (start : ℕ) : Reg :=
  ((half >>> start).setWidth 3).setWidth 5 + 8

/-- A full register field. -/
def cfull (half : BitVec 16) (start : ℕ) : Reg := (half >>> start).setWidth 5

def cSignExtend (val : BitVec 16) (bits : ℕ) : Imm :=
  signExtend (val.setWidth 32) bits

/-- A six-bit immediate or shift amount. -/
def cimm (half : BitVec 16) : BitVec 16 := cbits half 2 5 0 ||| cbits half 12 1 5

def cwordOff (half : BitVec 16) : BitVec 16 :=
  cbits half 6 1 2 ||| cbits half 10 3 3 ||| cbits half 5 1 6

def cdoubleOff (half : BitVec 16) : BitVec 16 :=
  cbits half 10 3 3 ||| cbits half 5 2 6

def illegal (half : BitVec 16) : Except DecodeError Instruction :=
  .error (.illegalCompressed half)

def cQ0 (half : BitVec 16) (funct3 : BitVec 3) : Except DecodeError Instruction :=
  match funct3 with
  | 0b000 =>
      let nzuimm := cbits half 6 1 2 ||| cbits half 5 1 3 ||| cbits half 11 2 4 |||
        cbits half 7 4 6
      if nzuimm = 0 then illegal half
      else .ok (.opImm .addi (creg half 2) 2 (nzuimm.setWidth 32))
  | 0b010 =>
      .ok (.load .lw (creg half 2) (creg half 7) ((cwordOff half).setWidth 32))
  | 0b011 =>
      .ok (.load .ld (creg half 2) (creg half 7) ((cdoubleOff half).setWidth 32))
  | 0b110 =>
      .ok (.store .sw (creg half 7) (creg half 2) ((cwordOff half).setWidth 32))
  | 0b111 =>
      .ok (.store .sd (creg half 7) (creg half 2) ((cdoubleOff half).setWidth 32))
  | _ => illegal half

def cArith (half : BitVec 16) : Except DecodeError Instruction :=
  let rd := creg half 7
  let rs2 := creg half 2
  let funct2 : BitVec 2 := (half >>> 10).setWidth 2
  let funct1 : BitVec 1 := (half >>> 12).setWidth 1
  let funct2b : BitVec 2 := (half >>> 5).setWidth 2
  match funct2 with
  | 0b00 => .ok (.opImm .srli rd rd ((cimm half).setWidth 32))
  | 0b01 => .ok (.opImm .srai rd rd ((cimm half).setWidth 32))
  | 0b10 => .ok (.opImm .andi rd rd (cSignExtend (cimm half) 6))
  | _ =>
      match funct1, funct2b with
      | 0, 0b00 => .ok (.op .sub rd rd rs2)
      | 0, 0b01 => .ok (.op .xor rd rd rs2)
      | 0, 0b10 => .ok (.op .or rd rd rs2)
      | 0, 0b11 => .ok (.op .and rd rd rs2)
      | 1, 0b00 => .ok (.opW .subw rd rd rs2)
      | 1, 0b01 => .ok (.opW .addw rd rd rs2)
      | _, _ => illegal half

def cjumpOff (half : BitVec 16) : BitVec 16 :=
  cbits half 3 3 1 ||| cbits half 11 1 4 ||| cbits half 2 1 5 ||| cbits half 7 1 6 |||
    cbits half 6 1 7 ||| cbits half 9 2 8 ||| cbits half 8 1 10 ||| cbits half 12 1 11

def cbranchOff (half : BitVec 16) : BitVec 16 :=
  cbits half 3 2 1 ||| cbits half 10 2 3 ||| cbits half 2 1 5 ||| cbits half 5 2 6 |||
    cbits half 12 1 8

def cQ1 (half : BitVec 16) (funct3 : BitVec 3) : Except DecodeError Instruction :=
  let rd := cfull half 7
  let imm := cSignExtend (cimm half) 6
  match funct3 with
  | 0b000 => .ok (.opImm .addi rd rd imm)
  | 0b001 => .ok (.opImmW .addiw rd rd imm)
  | 0b010 => .ok (.opImm .addi rd 0 imm)
  | 0b011 =>
      if rd = 2 then
        let nzimm := cSignExtend (cbits half 6 1 4 ||| cbits half 2 1 5 |||
          cbits half 5 1 6 ||| cbits half 3 2 7 ||| cbits half 12 1 9) 10
        if nzimm = 0 then illegal half else .ok (.opImm .addi 2 2 nzimm)
      else if imm = 0 then illegal half
      else .ok (.lui rd (imm <<< 12))
  | 0b100 => cArith half
  | 0b101 => .ok (.jal 0 (cSignExtend (cjumpOff half) 12))
  | 0b110 => .ok (.branch .beq (creg half 7) 0 (cSignExtend (cbranchOff half) 9))
  | _ => .ok (.branch .bne (creg half 7) 0 (cSignExtend (cbranchOff half) 9))

def cJumpMove (half : BitVec 16) : Except DecodeError Instruction :=
  let bit12 : BitVec 1 := (half >>> 12).setWidth 1
  let rd := cfull half 7
  let rs2 := cfull half 2
  if bit12 = 0 ∧ rs2 = 0 ∧ rd ≠ 0 then .ok (.jalr 0 rd 0)
  else if bit12 = 0 ∧ rs2 ≠ 0 then .ok (.op .add rd 0 rs2)
  else if bit12 = 1 ∧ rd = 0 ∧ rs2 = 0 then .ok .ebreak
  else if bit12 = 1 ∧ rs2 = 0 ∧ rd ≠ 0 then .ok (.jalr 1 rd 0)
  else if bit12 = 1 ∧ rs2 ≠ 0 then .ok (.op .add rd rd rs2)
  else illegal half

def cQ2 (half : BitVec 16) (funct3 : BitVec 3) : Except DecodeError Instruction :=
  let rd := cfull half 7
  let rs2 := cfull half 2
  match funct3 with
  | 0b000 => .ok (.opImm .slli rd rd ((cimm half).setWidth 32))
  | 0b010 =>
      let off := cbits half 4 3 2 ||| cbits half 12 1 5 ||| cbits half 2 2 6
      .ok (.load .lw rd 2 (off.setWidth 32))
  | 0b011 =>
      let off := cbits half 5 2 3 ||| cbits half 12 1 5 ||| cbits half 2 3 6
      .ok (.load .ld rd 2 (off.setWidth 32))
  | 0b100 => cJumpMove half
  | 0b110 =>
      let off := cbits half 9 4 2 ||| cbits half 7 2 6
      .ok (.store .sw 2 rs2 (off.setWidth 32))
  | 0b111 =>
      let off := cbits half 10 3 3 ||| cbits half 7 3 6
      .ok (.store .sd 2 rs2 (off.setWidth 32))
  | _ => illegal half

end Decode

open Decode in
/-- The instruction of a 16-bit half. -/
def decodeCompressed (half : BitVec 16) : Except DecodeError Instruction :=
  let quadrant : BitVec 2 := half.setWidth 2
  let funct3 : BitVec 3 := (half >>> 13).setWidth 3
  match quadrant with
  | 0b00 => cQ0 half funct3
  | 0b01 => cQ1 half funct3
  | 0b10 => cQ2 half funct3
  | _ => illegal half

structure FetchedInstruction where
  instruction : Instruction
  len : Byte
deriving DecidableEq, Repr

def fetchDecode (memory : Memory) (pc : Word) :
    Except DecodeError FetchedInstruction :=
  let lo := memory.loadHalf pc
  if lo &&& 0x3 ≠ 0x3 then
    (decodeCompressed lo).map fun insn => ⟨insn, 2⟩
  else (decode (memory.loadWord pc)).map fun insn => ⟨insn, 4⟩

theorem fetchDecode_len {memory : Memory} {pc : Word}
    {fetched : FetchedInstruction} (ok : fetchDecode memory pc = .ok fetched) :
    fetched.len = 2 ∨ fetched.len = 4 := by
  simp only [fetchDecode] at ok
  split at ok
  · cases decoded : decodeCompressed (memory.loadHalf pc) with
    | error e =>
        rw [decoded] at ok
        cases ok
    | ok insn =>
        rw [decoded] at ok
        cases ok
        exact .inl rfl
  · cases decoded : decode (memory.loadWord pc) with
    | error e =>
        rw [decoded] at ok
        cases ok
    | ok insn =>
        rw [decoded] at ok
        cases ok
        exact .inr rfl

end MetaVm.Riscv
