import MetaVm.Lib.Words
import MetaVm.Riscv.Isa

namespace MetaVm.Riscv

open Rv64

/-! The witness columns of a trace row, and what it records of memory. -/

/-- The columns `aux0`, `aux1` and `aux2`. -/
abbrev Aux : Type := Word × Word × Word

def carry (a b : Word) : Word :=
  ((a.setWidth 128 + b.setWidth 128) >>> 64).setWidth 64

def borrow {width : ℕ} (a b : BitVec width) : Word := if a < b then 1 else 0

def signBit (a : Word) : Word := (a >>> 63) &&& 1

def signBit32 (a : BitVec 32) : Word := ((a >>> 31) &&& 1).setWidth 64

/-- The high word of the unsigned product. -/
def productHigh (a b : Word) : Word :=
  ((a.setWidth 128 * b.setWidth 128) >>> 64).setWidth 64

/-- The low word of the unsigned product. -/
def productLow (a b : Word) : Word :=
  (a.setWidth 128 * b.setWidth 128).setWidth 64

/-! Shifts by `amount`, the masked shift amount. -/

def sllAux (a : Word) (amount : ℕ) : Aux :=
  let power : Word := 1 <<< amount
  (power, productHigh a power, 0)

def srlAux (a : Word) (amount : ℕ) : Aux :=
  let power : Word := 1 <<< amount
  (power, if amount = 0 then 0 else a % power, 0)

def sraAux (a : Word) (amount : ℕ) : Aux :=
  let power : Word := 1 <<< amount
  (power, if amount = 0 then 0 else a % power, signBit a * (power - 1))

def sllwAux (a : Word) (amount : ℕ) : Aux :=
  let power : BitVec 32 := 1 <<< amount
  (power.setWidth 64, ((low a).setWidth 64 * power.setWidth 64) >>> 32, 0)

def srlwAux (a : Word) (amount : ℕ) : Aux :=
  let power : BitVec 32 := 1 <<< amount
  (power.setWidth 64,
    if amount = 0 then 0 else (low a % power).setWidth 64, 0)

def srawAux (a : Word) (amount : ℕ) : Aux :=
  let power : BitVec 32 := 1 <<< amount
  (power.setWidth 64,
    if amount = 0 then 0 else (low a % power).setWidth 64,
    signBit32 (low a) * (power - 1).setWidth 64)

/-- A full result cut to a word: its upper half and the sign of the lower. -/
def wordAux (full : Word) : Aux := (full >>> 32, signBit32 (low full), 0)

def RegOp.aux (op : RegOp) (a b : Word) : Aux :=
  match op with
  | add => (carry a b, 0, 0)
  | sub => (borrow a b, 0, 0)
  | sltu => (borrow a b, 0, 0)
  | slt => (borrow a b, signBit a, signBit b)
  | sll => sllAux a (shamt b)
  | srl => srlAux a (shamt b)
  | sra => sraAux a (shamt b)
  | and => (a &&& b, 0, 0)
  | or => (a &&& b, 0, 0)
  | xor => (a &&& b, 0, 0)

def ImmOp.aux (op : ImmOp) (a imm : Word) : Aux :=
  match op with
  | addi => (carry a imm, 0, 0)
  | sltiu => (borrow a imm, 0, 0)
  | slti => (borrow a imm, signBit a, signBit imm)
  | slli => sllAux a (shamt imm)
  | srli => srlAux a (shamt imm)
  | srai => sraAux a (shamt imm)
  | andi => (a &&& imm, 0, 0)
  | ori => (a &&& imm, 0, 0)
  | xori => (a &&& imm, 0, 0)

def RegWOp.aux (op : RegWOp) (a b : Word) : Aux :=
  match op with
  | addw => wordAux (a + b)
  | subw => wordAux (a - b)
  | sllw => sllwAux a (shamtW b)
  | srlw => srlwAux a (shamtW b)
  | sraw => srawAux a (shamtW b)

def ImmWOp.aux (op : ImmWOp) (a imm : Word) : Aux :=
  match op with
  | addiw => wordAux (a + imm)
  | slliw => sllwAux a (shamtW imm)
  | srliw => srlwAux a (shamtW imm)
  | sraiw => srawAux a (shamtW imm)

/-- What is left of a wrapped sum of word products above the low word. -/
def correction (expr : Word) : Word := expr.sshiftRight 32

def MulDivOp.aux (op : MulDivOp) (a b rd : Word) : Aux :=
  let divwAux : Word → Aux := fun rem => (rem, correction (rd * b + rem - a), 0)
  let remwAux : Word → Aux := fun quot =>
    (quot, correction (quot * b + rd - a), 0)
  match op with
  | mul => (productHigh a b, 0, 0)
  | mulh => (productLow a b, signBit a, signBit b)
  | mulhu => (productLow a b, 0, 0)
  | mulhsu => (productLow a b, signBit a, 0)
  | div => if b = 0 then (0, 0, 0) else (a.srem b, 0, 0)
  | divu => if b = 0 then (0, 0, 0) else (a % b, 0, 0)
  | rem => if b = 0 then (0, 0, 0) else (a.sdiv b, 0, 0)
  | remu => if b = 0 then (0, 0, 0) else (a / b, 0, 0)
  | mulw =>
      let product := (low a).setWidth 64 * (low b).setWidth 64
      (product >>> 32, (product >>> 31) &&& 1, 0)
  | divw =>
      if low b = 0 then divwAux (sext32 (low a))
      else divwAux (sext32 ((low a).srem (low b)))
  | divuw =>
      if low b = 0 then divwAux ((low a).setWidth 64)
      else divwAux ((low a % low b).setWidth 64)
  | remw =>
      if low b = 0 then (0, 0, 0)
      else remwAux (sext32 ((low a).sdiv (low b)))
  | remuw =>
      if low b = 0 then (0, 0, 0)
      else remwAux ((low a / low b).setWidth 64)

def StoreOp.aux (op : StoreOp) (b : Word) : Aux :=
  match op with
  | sb => (b >>> 8, 0, 0)
  | sh => (b >>> 16, 0, 0)
  | sw => (b >>> 32, 0, 0)
  | sd => (0, 0, 0)

def BranchOp.aux (op : BranchOp) (a b : Word) : Aux :=
  match op with
  | beq => if a ≠ b then (0, 1, 0) else (0, 0, 0)
  | bne => if a ≠ b then (0, 1, 0) else (0, 0, 0)
  | bltu => (0, borrow a b, 0)
  | bgeu => (0, borrow a b, 0)
  | blt => (borrow a b, signBit a, signBit b)
  | bge => (borrow a b, signBit a, signBit b)

/-- The witnesses of an access to a control register with value `old`. -/
def CsrOp.aux (op : CsrOp) (old source : Word) : Aux :=
  match op with
  | rw => (source, 0, 0)
  | rs => (old ||| source, old &&& source, 0)
  | rc => (old &&& ~~~source, old &&& source, 0)

/-- The witnesses of an atomic update of the value `old` by `b`. -/
def AmoOp.aux (op : AmoOp) (width : AmoWidth) (old b : Word) : Aux :=
  match op, width with
  | swap, .d => (0, 0, 0)
  | swap, .w => (b >>> 32, (b >>> 31) &&& 1, 0)
  | add, .d => (if 2 ^ 64 ≤ old.toNat + b.toNat then 1 else 0, 0, 0)
  | add, .w =>
      let sum32 := low old + low b
      ((old + b - sext32 sum32) >>> 32, signBit32 sum32, 1)
  | and, .d => (old ||| b, 0, 0)
  | and, .w =>
      let orVal := (low old ||| low b).setWidth 64
      (orVal, correction (sext32 (low old &&& low b) + orVal - old - b), 0)
  | or, .d => (old &&& b, 0, 0)
  | or, .w =>
      let andVal := (low old &&& low b).setWidth 64
      (andVal, correction (sext32 (low old ||| low b) + andVal - old - b), 0)
  | xor, .d => (old &&& b, 0, 0)
  | xor, .w =>
      let andVal := (low old &&& low b).setWidth 64
      (andVal, correction (sext32 (low old ^^^ low b) + andVal * 2 - old - b), 0)
  | minu, .d => (borrow old b, 0, 0)
  | minu, .w =>
      let lt := borrow (low old) (low b)
      let result := if lt = 1 then low old else low b
      (lt, correction (sext32 result - b - lt * (old - b)), 0)
  | maxu, .d => (borrow old b, 0, 0)
  | maxu, .w =>
      let lt := borrow (low old) (low b)
      let result := if lt = 1 then low b else low old
      (lt, correction (sext32 result - old + lt * (old - b)), 0)
  | min, .d => (borrow old b, signBit old, signBit b)
  | min, .w => (borrow (low old) (low b), signBit32 (low old), signBit32 (low b))
  | max, .d => (borrow old b, signBit old, signBit b)
  | max, .w => (borrow (low old) (low b), signBit32 (low old), signBit32 (low b))

def computeAuxValues (insn : Instruction) (rs1Val rs2Val rdValAfter : Word) :
    Aux :=
  match insn with
  | .op op _ _ _ => op.aux rs1Val rs2Val
  | .opImm op _ _ imm => op.aux rs1Val imm.word
  | .opW op _ _ _ => op.aux rs1Val rs2Val
  | .opImmW op _ _ imm => op.aux rs1Val imm.word
  | .mulDiv op _ _ _ => op.aux rs1Val rs2Val rdValAfter
  | .store op _ _ _ => op.aux rs2Val
  | .branch op _ _ _ => op.aux rs1Val rs2Val
  | .jalr _ _ imm => (0, (rs1Val + imm.word) &&& 1, 0)
  | .csr op _ _ _ => op.aux rdValAfter rs1Val
  | .csrImm op _ uimm _ => op.aux rdValAfter (uimm.setWidth 64)
  | .sc _ _ _ _ _ _ => (if rdValAfter = 0 then 1 else 0, 0, 0)
  | .amo op width _ _ _ _ _ => op.aux width rdValAfter rs2Val
  | _ => (0, 0, 0)

/-! Memory columns. -/

inductive MemOp
  | none
  | read
  | write
deriving DecidableEq, Repr

/-- The new memory value of an atomic update of `old` by `b`. -/
def AmoOp.memVal (op : AmoOp) (width : AmoWidth) (old b : Word) : Word :=
  match op, width with
  | swap, .d => b
  | swap, .w => sext32 (low b)
  | add, .d => old + b
  | add, .w => sext32 (low old + low b)
  | and, .d => old &&& b
  | and, .w => sext32 (low old &&& low b)
  | or, .d => old ||| b
  | or, .w => sext32 (low old ||| low b)
  | xor, .d => old ^^^ b
  | xor, .w => sext32 (low old ^^^ low b)
  | minu, .d => if b < old then b else old
  | minu, .w => sext32 (if low b < low old then low b else low old)
  | maxu, .d => if b < old then old else b
  | maxu, .w => sext32 (if low b < low old then low old else low b)
  | min, .d => if b.slt old then b else old
  | min, .w => sext32 (if (low b).slt (low old) then low b else low old)
  | max, .d => if b.slt old then old else b
  | max, .w => sext32 (if (low b).slt (low old) then low old else low b)

def computeMemVal (insn : Instruction) (rdValAfter rs2Val : Word) : Word :=
  match insn with
  | .amo op width _ _ _ _ _ => op.memVal width rdValAfter rs2Val
  | _ => rs2Val

def computeMemInfoWith (insn : Instruction) (readReg : Reg → Word) :
    Word × MemOp :=
  match insn with
  | .load _ _ rs1 imm => (readReg rs1 + imm.word, .read)
  | .store _ rs1 _ imm => (readReg rs1 + imm.word, .write)
  | .lr _ _ rs1 _ _ => (readReg rs1, .read)
  | .sc _ _ rs1 _ _ _ => (readReg rs1, .write)
  | .amo _ _ _ rs1 _ _ _ => (readReg rs1, .write)
  | _ => (0, .none)

/-! How the witnesses read as numbers. -/

section Values

variable (a b : Word)

theorem toNat_carry : (carry a b).toNat = (a.toNat + b.toNat) / 2 ^ 64 := by
  have aLt := a.isLt
  have bLt := b.isLt
  simp only [carry, BitVec.toNat_setWidth, BitVec.toNat_ushiftRight,
    BitVec.toNat_add, Nat.shiftRight_eq_div_pow]
  omega

theorem toNat_borrow {width : ℕ} (x y : BitVec width) :
    (borrow x y).toNat = if x.toNat < y.toNat then 1 else 0 := by
  by_cases less : x < y
  · rw [borrow, if_pos less, if_pos (BitVec.lt_def.1 less)]
    rfl
  · rw [borrow, if_neg less, if_neg (less ∘ BitVec.lt_def.2)]
    rfl

theorem toNat_signBit : (signBit a).toNat = a.msb.toNat := by
  have aLt := a.isLt
  rw [BitVec.msb_eq_decide, signBit, BitVec.toNat_and, BitVec.toNat_ushiftRight,
    Nat.shiftRight_eq_div_pow]
  rw [show (1 : Word).toNat = 1 from rfl, Nat.and_one_is_mod]
  by_cases negative : 2 ^ (64 - 1) ≤ a.toNat
  · rw [decide_eq_true negative, Bool.toNat_true]
    omega
  · rw [decide_eq_false negative, Bool.toNat_false]
    omega

theorem toNat_signBit32 (x : BitVec 32) : (signBit32 x).toNat = x.msb.toNat := by
  have xLt := x.isLt
  rw [BitVec.msb_eq_decide, signBit32, BitVec.toNat_setWidth, BitVec.toNat_and,
    BitVec.toNat_ushiftRight, Nat.shiftRight_eq_div_pow]
  rw [show (1 : BitVec 32).toNat = 1 from rfl, Nat.and_one_is_mod]
  by_cases negative : 2 ^ (32 - 1) ≤ x.toNat
  · rw [decide_eq_true negative, Bool.toNat_true]
    omega
  · rw [decide_eq_false negative, Bool.toNat_false]
    omega

theorem toNat_wideProduct :
    (a.setWidth 128 * b.setWidth 128).toNat = a.toNat * b.toNat := by
  have product : a.toNat * b.toNat < 2 ^ 128 :=
    calc a.toNat * b.toNat < 2 ^ 64 * 2 ^ 64 :=
          Nat.mul_lt_mul'' a.isLt b.isLt
      _ = 2 ^ 128 := by norm_num
  have a' : a.toNat < 2 ^ 128 := by omega
  have b' : b.toNat < 2 ^ 128 := by omega
  rw [BitVec.toNat_mul, BitVec.toNat_setWidth, BitVec.toNat_setWidth,
    Nat.mod_eq_of_lt a', Nat.mod_eq_of_lt b', Nat.mod_eq_of_lt product]

theorem toNat_productLow :
    (productLow a b).toNat = a.toNat * b.toNat % 2 ^ 64 := by
  rw [productLow, BitVec.toNat_setWidth, toNat_wideProduct]

theorem toNat_productHigh :
    (productHigh a b).toNat = a.toNat * b.toNat / 2 ^ 64 := toNat_mulhu a b

theorem shamt_lt : shamt b < 64 := by
  have masked : (b &&& 0x3F).toNat ≤ 63 := Nat.and_le_right
  exact Nat.lt_succ_of_le masked

theorem shamtW_lt : shamtW b < 32 := by
  have masked : (b &&& 0x1F).toNat ≤ 31 := Nat.and_le_right
  exact Nat.lt_succ_of_le masked

theorem toNat_power {width amount : ℕ} (short : amount < width) :
    ((1 : BitVec width) <<< amount).toNat = 2 ^ amount := by
  have one : (1 : BitVec width).toNat = 1 := by
    have positive : 1 < 2 ^ width := Nat.one_lt_two_pow (by omega)
    simp [Nat.mod_eq_of_lt positive]
  have bound : 2 ^ amount < 2 ^ width := Nat.pow_lt_pow_right (by omega) short
  rw [BitVec.toNat_shiftLeft, one, Nat.shiftLeft_eq, one_mul,
    Nat.mod_eq_of_lt bound]

end Values

end MetaVm.Riscv
