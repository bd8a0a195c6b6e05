import Mathlib
import MetaVm.Evm.WordDivision

namespace MetaVm.Evm

/-! Instruction types and function codes. The function codes of different types
overlap. -/

abbrev Opcode : Type := BitVec 8

abbrev Code : Type := BitVec 8

abbrev insnStop : Code := 0
abbrev insnArith : Code := 1
abbrev insnCompare : Code := 2
abbrev insnBitwise : Code := 3
abbrev insnKeccak : Code := 4
abbrev insnEnv : Code := 5
abbrev insnBlock : Code := 6
abbrev insnStack : Code := 7
abbrev insnMemory : Code := 8
abbrev insnStorage : Code := 9
abbrev insnJump : Code := 10
abbrev insnLog : Code := 11
abbrev insnCall : Code := 12

abbrev functAdd : Code := 0
abbrev functMul : Code := 1
abbrev functSub : Code := 2
abbrev functDiv : Code := 3
abbrev functSdiv : Code := 4
abbrev functMod : Code := 5
abbrev functSmod : Code := 6
abbrev functAddmod : Code := 7
abbrev functMulmod : Code := 8
abbrev functExp : Code := 9
abbrev functSignextend : Code := 10

abbrev functLt : Code := 0
abbrev functGt : Code := 1
abbrev functSlt : Code := 2
abbrev functSgt : Code := 3
abbrev functEq : Code := 4
abbrev functIszero : Code := 5

abbrev functAnd : Code := 0
abbrev functOr : Code := 1
abbrev functXor : Code := 2
abbrev functNot : Code := 3
abbrev functByte : Code := 4
abbrev functShl : Code := 5
abbrev functShr : Code := 6
abbrev functSar : Code := 7

abbrev functPop : Code := 0
abbrev functPush : Code := 1
abbrev functDup : Code := 2
abbrev functSwap : Code := 3

abbrev functMload : Code := 0
abbrev functMstore : Code := 1
abbrev functMstore8 : Code := 2
abbrev functMsize : Code := 3

abbrev functJump : Code := 0
abbrev functJumpi : Code := 1
abbrev functJumpdest : Code := 2
abbrev functPc : Code := 3
abbrev functGas : Code := 4

/-- The type and function code of an opcode. Unknown opcodes count as stops. -/
def classifyOpcode (opcode : Opcode) : Code × Code :=
  let op := opcode.toNat
  if op = 0x00 then (insnStop, 0)
  else if op = 0xFE then (insnStop, 1)
  else if op = 0xFD then (insnStop, 2)
  else if op = 0xFF then (insnStop, 3)
  else if op = 0x01 then (insnArith, functAdd)
  else if op = 0x02 then (insnArith, functMul)
  else if op = 0x03 then (insnArith, functSub)
  else if op = 0x04 then (insnArith, functDiv)
  else if op = 0x05 then (insnArith, functSdiv)
  else if op = 0x06 then (insnArith, functMod)
  else if op = 0x07 then (insnArith, functSmod)
  else if op = 0x08 then (insnArith, functAddmod)
  else if op = 0x09 then (insnArith, functMulmod)
  else if op = 0x0A then (insnArith, functExp)
  else if op = 0x0B then (insnArith, functSignextend)
  else if op = 0x10 then (insnCompare, functLt)
  else if op = 0x11 then (insnCompare, functGt)
  else if op = 0x12 then (insnCompare, functSlt)
  else if op = 0x13 then (insnCompare, functSgt)
  else if op = 0x14 then (insnCompare, functEq)
  else if op = 0x15 then (insnCompare, functIszero)
  else if op = 0x16 then (insnBitwise, functAnd)
  else if op = 0x17 then (insnBitwise, functOr)
  else if op = 0x18 then (insnBitwise, functXor)
  else if op = 0x19 then (insnBitwise, functNot)
  else if op = 0x1A then (insnBitwise, functByte)
  else if op = 0x1B then (insnBitwise, functShl)
  else if op = 0x1C then (insnBitwise, functShr)
  else if op = 0x1D then (insnBitwise, functSar)
  else if op = 0x20 then (insnKeccak, 0)
  else if 0x30 ≤ op ∧ op ≤ 0x3F then (insnEnv, opcode - 0x30)
  else if 0x40 ≤ op ∧ op ≤ 0x48 then (insnBlock, opcode - 0x40)
  else if op = 0x50 then (insnStack, functPop)
  else if 0x60 ≤ op ∧ op ≤ 0x7F then (insnStack, functPush)
  else if 0x80 ≤ op ∧ op ≤ 0x8F then (insnStack, functDup)
  else if 0x90 ≤ op ∧ op ≤ 0x9F then (insnStack, functSwap)
  else if op = 0x51 then (insnMemory, functMload)
  else if op = 0x52 then (insnMemory, functMstore)
  else if op = 0x53 then (insnMemory, functMstore8)
  else if op = 0x59 then (insnMemory, functMsize)
  else if op = 0x54 then (insnStorage, 0)
  else if op = 0x55 then (insnStorage, 1)
  else if op = 0x5C then (insnStorage, 2)
  else if op = 0x5D then (insnStorage, 3)
  else if op = 0x56 then (insnJump, functJump)
  else if op = 0x57 then (insnJump, functJumpi)
  else if op = 0x5B then (insnJump, functJumpdest)
  else if op = 0x58 then (insnJump, functPc)
  else if op = 0x5A then (insnJump, functGas)
  else if 0xA0 ≤ op ∧ op ≤ 0xA4 then (insnLog, opcode - 0xA0)
  else if [0xF0, 0xF1, 0xF2, 0xF4, 0xF5, 0xF3, 0xFA].contains op then
    (insnCall, opcode - 0xF0)
  else (insnStop, 0xFF)

end MetaVm.Evm

namespace MetaVm.Evm

open Limbs

/-! The instructions on words of 256 bits. -/

abbrev Word : Type := BitVec 256

namespace Semantics

def bit (condition : Bool) : Word := if condition then 1 else 0

def add (a b : Word) : Word := a + b

def sub (a b : Word) : Word := a - b

def mul (a b : Word) : Word := a * b

/-- Division by zero gives zero. -/
def div (a b : Word) : Word := if b = 0 then 0 else a / b

def mod (a b : Word) : Word := if b = 0 then 0 else a % b

/-- Rounded towards zero. -/
def sdiv (a b : Word) : Word := if b = 0 then 0 else a.sdiv b

/-- The remainder has the sign of the dividend. -/
def smod (a b : Word) : Word := if b = 0 then 0 else a.srem b

/-- The lowest `b + 1` bytes with their sign. -/
def signextend (b x : Word) : Word :=
  if 31 ≤ b.toNat then x else (x.setWidth (8 * (b.toNat + 1))).signExtend 256

def lt (a b : Word) : Word := bit (a.ult b)

def gt (a b : Word) : Word := bit (b.ult a)

def slt (a b : Word) : Word := bit (a.slt b)

def sgt (a b : Word) : Word := bit (b.slt a)

def eq (a b : Word) : Word := bit (a == b)

def iszero (a : Word) : Word := bit (a == 0)

def and (a b : Word) : Word := a &&& b

def or (a b : Word) : Word := a ||| b

def xor (a b : Word) : Word := a ^^^ b

def not (a : Word) : Word := ~~~ a

def shl (shift value : Word) : Word :=
  if 256 ≤ shift.toNat then 0 else value <<< shift.toNat

def shr (shift value : Word) : Word :=
  if 256 ≤ shift.toNat then 0 else value >>> shift.toNat

/-- The sign fills the upper bits. -/
def sar (shift value : Word) : Word := value.sshiftRight (min shift.toNat 255)

/-- The instructions on the two topmost words of the stack. -/
def alu (opcode : Opcode) (a b : Word) : Word :=
  match opcode.toNat with
  | 0x01 => add a b
  | 0x02 => mul a b
  | 0x03 => sub a b
  | 0x04 => div a b
  | 0x05 => sdiv a b
  | 0x06 => mod a b
  | 0x07 => smod a b
  | 0x0B => signextend a b
  | 0x10 => lt a b
  | 0x11 => gt a b
  | 0x12 => slt a b
  | 0x13 => sgt a b
  | 0x14 => eq a b
  | 0x15 => iszero a
  | 0x16 => and a b
  | 0x17 => or a b
  | 0x18 => xor a b
  | 0x19 => not a
  | 0x1B => shl a b
  | 0x1C => shr a b
  | 0x1D => sar a b
  | _ => 0

section Alu

variable (a b : Word)

@[simp] theorem alu_add : alu 0x01 a b = add a b := rfl
@[simp] theorem alu_mul : alu 0x02 a b = mul a b := rfl
@[simp] theorem alu_sub : alu 0x03 a b = sub a b := rfl
@[simp] theorem alu_div : alu 0x04 a b = div a b := rfl
@[simp] theorem alu_sdiv : alu 0x05 a b = sdiv a b := rfl
@[simp] theorem alu_mod : alu 0x06 a b = mod a b := rfl
@[simp] theorem alu_smod : alu 0x07 a b = smod a b := rfl
@[simp] theorem alu_signextend : alu 0x0B a b = signextend a b := rfl
@[simp] theorem alu_lt : alu 0x10 a b = lt a b := rfl
@[simp] theorem alu_gt : alu 0x11 a b = gt a b := rfl
@[simp] theorem alu_slt : alu 0x12 a b = slt a b := rfl
@[simp] theorem alu_sgt : alu 0x13 a b = sgt a b := rfl
@[simp] theorem alu_eq : alu 0x14 a b = eq a b := rfl
@[simp] theorem alu_iszero : alu 0x15 a b = iszero a := rfl
@[simp] theorem alu_and : alu 0x16 a b = and a b := rfl
@[simp] theorem alu_or : alu 0x17 a b = or a b := rfl
@[simp] theorem alu_xor : alu 0x18 a b = xor a b := rfl
@[simp] theorem alu_not : alu 0x19 a b = not a := rfl
@[simp] theorem alu_shl : alu 0x1B a b = shl a b := rfl
@[simp] theorem alu_shr : alu 0x1C a b = shr a b := rfl
@[simp] theorem alu_sar : alu 0x1D a b = sar a b := rfl

end Alu

end Semantics

/-! Words and their limbs. -/

def toWord (x : U256) : Word := BitVec.ofNat 256 x.value

def ofWord (w : Word) : U256 := ofNat w.toNat

section Limbs

variable (a b : U256)

theorem toNat_toWord : (toWord a).toNat = a.value := by
  have small : a.value < 2 ^ 256 := a.value_lt
  rw [toWord, BitVec.toNat_ofNat, Nat.mod_eq_of_lt small]

theorem value_ofWord (w : Word) : (ofWord w).value = w.toNat := by
  have small : w.toNat < (2 ^ 64) ^ 4 := w.isLt
  rw [ofWord, value_ofNat, Nat.mod_eq_of_lt small]

theorem toWord_ofWord (w : Word) : toWord (ofWord w) = w := by
  apply BitVec.eq_of_toNat_eq
  rw [toNat_toWord, value_ofWord]

theorem ofWord_toWord : ofWord (toWord a) = a := by
  apply ext_value
  rw [value_ofWord, toNat_toWord]

variable {a b}

theorem toWord_inj : toWord a = toWord b ↔ a = b := by
  constructor
  · intro same
    rw [← ofWord_toWord a, same, ofWord_toWord]
  · exact congrArg toWord

theorem toWord_eq_zero_iff : toWord a = 0 ↔ a = 0 := by
  have zero : toWord (0 : U256) = 0 := by
    rw [toWord, value_eq_zero_iff.2 rfl]
    rfl
  rw [← zero, toWord_inj]

variable (a b)

/-- The sign of a word is that of its highest limb. -/
theorem msb_toWord : (toWord a).msb = (a 3).msb := by
  have value := value_four a
  have limb3 : a.limb 3 = (a 3).toNat := limb_fin a 3
  have low0 := a.limb_lt 0
  have low1 := a.limb_lt 1
  have low2 := a.limb_lt 2
  rw [BitVec.msb_eq_decide, BitVec.msb_eq_decide, toNat_toWord, ← limb3, value]
  apply decide_eq_decide.2
  omega

theorem toWord_negateU256 : toWord (negateU256 a) = - toWord a := by
  apply BitVec.eq_of_toNat_eq
  rw [toNat_toWord, value_negateU256, BitVec.toNat_neg, toNat_toWord]

theorem toWord_divU256 : toWord (divU256 a b) = toWord a / toWord b := by
  apply BitVec.eq_of_toNat_eq
  rw [toNat_toWord, value_divU256, BitVec.toNat_udiv, toNat_toWord, toNat_toWord]

theorem toWord_sdivU256 : toWord (sdivU256 a b) = Semantics.sdiv (toWord a) (toWord b) := by
  rw [sdivU256, Semantics.sdiv]
  by_cases zero : b = 0
  · rw [if_pos zero, if_pos (toWord_eq_zero_iff.2 zero)]
    exact toWord_eq_zero_iff.2 rfl
  · rw [if_neg zero, if_neg (zero ∘ toWord_eq_zero_iff.1), BitVec.sdiv_eq, msb_toWord,
      msb_toWord]
    cases (a 3).msb <;> cases (b 3).msb <;>
      simp [toWord_negateU256, toWord_divU256]

end Limbs

/-! Quotients and remainders. -/

theorem udiv_mul_add_umod {width : ℕ} (a b : BitVec width) : a / b * b + a % b = a := by
  apply BitVec.eq_of_toNat_eq
  rw [BitVec.toNat_add, BitVec.toNat_mul, BitVec.toNat_udiv, BitVec.toNat_umod,
    Nat.mod_add_mod, Nat.div_add_mod', Nat.mod_eq_of_lt a.isLt]

theorem sdiv_mul_add_srem {width : ℕ} (a b : BitVec width) :
    a.sdiv b * b + a.srem b = a := by
  rw [BitVec.sdiv_eq, BitVec.srem_eq]
  cases a.msb <;> cases b.msb
  · exact udiv_mul_add_umod a b
  · have balance := udiv_mul_add_umod a (-b)
    show -(a / -b) * b + a % -b = a
    linear_combination balance
  · have balance := udiv_mul_add_umod (-a) b
    show -(-a / b) * b + -(-a % b) = a
    linear_combination -balance
  · have balance := udiv_mul_add_umod (-a) (-b)
    show -a / -b * b + -(-a % -b) = a
    linear_combination -balance

end MetaVm.Evm
