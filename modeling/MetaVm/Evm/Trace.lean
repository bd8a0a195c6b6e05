import MetaVm.Evm.Columns
import MetaVm.Evm.ColumnCarries
import MetaVm.Evm.MulDivWitness

namespace MetaVm.Evm

open Limbs

/-! Rows of the execution trace. -/

/-- The frame that an instruction runs in. -/
structure FrameState where
  depth : U64 := 0
  caller : U256 := 0
  callee : U256 := 0
  value : U256 := 0
  gas : U64 := 0
  returnPc : U64 := 0
  returnOffset : U64 := 0
  returnSize : U64 := 0
  isStatic : U64 := 0

structure EvmTraceRow where
  step : U64 := 0
  pc : U64 := 0
  opcode : Opcode := 0
  gasRemaining : U64 := 0
  stackDepth : U64 := 0
  input0 : U256 := 0
  input1 : U256 := 0
  output0 : U256 := 0
  memOffset : U64 := 0
  memValue : U256 := 0
  insnType : Code := 0
  funct : Code := 0
  immediate : U256 := 0
  aux0 : U256 := 0
  aux1 : U256 := 0
  nextPc : U64 := 0
  frame : FrameState := {}
  createAddressHint : U256 := 0
  createNonceHint : U64 := 0
  create2SaltHint : U256 := 0
  create2InitcodeHashHint : U256 := 0
  txOrigin : U256 := 0
  txGasPrice : U64 := 0
  txCalldataSize : U64 := 0
  txCodeSize : U64 := 0
  returndataSize : U64 := 0

/-! The selector slots that a function code sets. Slots from 50 on stand beside
the one-hot selectors. -/

def arithSlots : List (Code × ℕ) :=
  [(functAdd, 1), (functSub, 2), (functMul, 3), (functDiv, 4), (functMod, 5),
    (functSdiv, 6), (functSmod, 7), (functAddmod, 8), (functMulmod, 9), (functExp, 10),
    (functSignextend, 11)]

def compareSlots : List (Code × ℕ) :=
  [(functLt, 12), (functGt, 13), (functEq, 14), (functIszero, 15)]

def bitwiseSlots : List (Code × ℕ) :=
  [(functAnd, 17), (functOr, 18), (functXor, 19), (functNot, 20), (functByte, 49),
    (functShl, 21), (functShr, 22), (functSar, 23)]

def envSlots : List (Code × ℕ) :=
  [(0, 66), (2, 69), (3, 67), (4, 68), (6, 70), (8, 71), (10, 72)]

def blockSlots : List (Code × ℕ) :=
  [(2, 52), (3, 53), (5, 54), (8, 55), (1, 56), (4, 57), (6, 58), (0, 59), (7, 60)]

def stackSlots : List (Code × ℕ) :=
  [(functPush, 27), (functDup, 28), (functPop, 29), (functSwap, 30)]

def memorySlots : List (Code × ℕ) :=
  [(functMload, 32), (functMstore, 33), (functMstore8, 34), (functMsize, 35)]

def storageSlots : List (Code × ℕ) := [(0, 50), (1, 51)]

def jumpSlots : List (Code × ℕ) := [(functPc, 73), (functGas, 74)]

def logSlots : List (Code × ℕ) := [(0, 61), (1, 62), (2, 63), (3, 64), (4, 65)]

def callSlots : List (Opcode × ℕ) :=
  [(0xF0, 43), (0xF1, 41), (0xF2, 44), (0xF4, 45), (0xF5, 46), (0xFA, 47)]

namespace EvmTraceRow

/-- The slot of the one-hot selector. -/
def selectorSlot (row : EvmTraceRow) : ℕ :=
  if row.insnType = insnStop then
    if row.opcode = 0xFD ∧ 1 ≤ row.frame.depth.toNat then 48 else 0
  else if row.insnType = insnArith then (arithSlots.lookup row.funct).getD 0
  else if row.insnType = insnCompare then (compareSlots.lookup row.funct).getD 16
  else if row.insnType = insnBitwise then (bitwiseSlots.lookup row.funct).getD 20
  else if row.insnType = insnKeccak then 24
  else if row.insnType = insnEnv then 25
  else if row.insnType = insnBlock then 26
  else if row.insnType = insnStack then (stackSlots.lookup row.funct).getD 31
  else if row.insnType = insnMemory then (memorySlots.lookup row.funct).getD 36
  else if row.insnType = insnStorage then 37
  else if row.insnType = insnJump then 38
  else if row.insnType = insnLog then 39
  else if row.insnType = insnCall then
    if row.opcode = 0xF3 ∧ 1 ≤ row.frame.depth.toNat then 42
    else (callSlots.lookup row.opcode).getD 40
  else 0

/-- The slots beside it. -/
def detailSlots (row : EvmTraceRow) : List ℕ :=
  if row.insnType = insnEnv then (envSlots.lookup row.funct).toList
  else if row.insnType = insnBlock then (blockSlots.lookup row.funct).toList
  else if row.insnType = insnMemory then
    if row.funct = functMsize then [75] else []
  else if row.insnType = insnStorage then (storageSlots.lookup row.funct).toList
  else if row.insnType = insnJump then (jumpSlots.lookup row.funct).toList
  else if row.insnType = insnLog then (logSlots.lookup row.funct).toList
  else []

def sel (row : EvmTraceRow) (slot : ℕ) : U64 :=
  if slot = row.selectorSlot ∨ slot ∈ row.detailSlots then 1 else 0

def selStopPop (row : EvmTraceRow) : U64 :=
  if row.opcode = 0x00 ∧ 1 ≤ row.frame.depth.toNat then 1 else 0

/-! SIGNEXTEND: the case, and the bytes of the limb that holds the sign. -/

def isSignextend (row : EvmTraceRow) : Bool := row.selectorSlot = 11

def caseIdx (row : EvmTraceRow) : ℕ :=
  if row.input0 1 ≠ 0 ∨ row.input0 2 ≠ 0 ∨ row.input0 3 ≠ 0 ∨ 31 ≤ row.input0.limb 0 then 31
  else row.input0.limb 0

def caseSel (row : EvmTraceRow) (k : ℕ) : U64 :=
  if row.isSignextend ∧ k = row.caseIdx then 1 else 0

def seByte (row : EvmTraceRow) (i : ℕ) : U64 :=
  if row.isSignextend ∧ row.caseIdx < 31 then
    BitVec.ofNat 64 (row.input1.limb (row.caseIdx / 8)) >>> (8 * i) &&& 0xFF
  else 0

def signByte (row : EvmTraceRow) : U64 := row.seByte (row.caseIdx % 8)

def seSignBit (row : EvmTraceRow) : U64 := (row.signByte >>> 7) &&& 1

def seLow7 (row : EvmTraceRow) : U64 := row.signByte &&& 0x7F

/-! The witnesses of the modular instructions, zero on other rows. -/

def mulmodWitness (row : EvmTraceRow) : MulmodWitness :=
  if row.selectorSlot = 9 then
    computeMulmodWitness row.input0 row.input1 row.immediate row.output0
  else {}

def addmodWitness (row : EvmTraceRow) : AddmodWitness :=
  if row.selectorSlot = 8 then
    computeAddmodWitness row.input0 row.input1 row.immediate row.output0
  else {}

end EvmTraceRow

/-! The columns of a row, as runs of cells in order. -/

structure Cells where
  width : ℕ
  cell : ℕ → U64

namespace Cells

def one (value : U64) : Cells := ⟨1, fun _ => value⟩

def limbs {count : ℕ} (x : Limbs count) : Cells :=
  ⟨count, fun k => if inside : k < count then x ⟨k, inside⟩ else 0⟩

/-- The cell at a position of several runs. -/
def read : List Cells → ℕ → U64
  | [], _ => 0
  | run :: runs, position =>
      if position < run.width then run.cell position
      else read runs (position - run.width)

end Cells

section Columns

open Cells

variable (row : EvmTraceRow)

/-- Columns 0 to 118. -/
def instructionColumns : List Cells :=
  [one row.pc, one (row.opcode.setWidth 64), one row.gasRemaining, one row.stackDepth,
    limbs row.input0, limbs row.input1, limbs row.output0, one row.memOffset,
    limbs row.memValue, one (row.insnType.setWidth 64), one (row.funct.setWidth 64),
    limbs row.immediate, limbs row.aux0, limbs row.aux1, ⟨41, row.sel⟩, one row.nextPc,
    ⟨32, row.caseSel⟩, ⟨8, row.seByte⟩, one row.seLow7, one row.seSignBit]

/-- Columns 119 to 153. -/
def mulmodColumns (w : MulmodWitness) : List Cells :=
  [limbs w.q, limbs w.p, limbs w.pc, limbs w.sc, limbs w.slack, limbs w.slackBorrow,
    one w.nIsZero]

/-- Columns 154 to 199. -/
def addmodColumns (w : AddmodWitness) : List Cells :=
  [limbs w.q, limbs w.sLow, one w.sHigh, limbs w.abCarry, limbs w.qnP, limbs w.qnCarry,
    limbs w.sumCarry, limbs w.slack, limbs w.slackBorrow, one w.nIsZero]

/-- Columns 200 to 216. -/
def frameColumns (frame : FrameState) : List Cells :=
  [one frame.depth, limbs frame.caller, limbs frame.callee, limbs frame.value,
    one frame.gas, one frame.returnPc, one frame.returnOffset, one frame.returnSize]

/-- Columns 217 to 274. -/
def contextColumns : List Cells :=
  [⟨8, fun k => row.sel (41 + k)⟩, one row.frame.isStatic, limbs row.createAddressHint,
    one row.createNonceHint, one row.selStopPop, limbs row.create2SaltHint,
    limbs row.create2InitcodeHashHint, ⟨24, fun k => row.sel (49 + k)⟩,
    limbs row.txOrigin, one row.txGasPrice, one row.txCalldataSize, one row.txCodeSize,
    one row.returndataSize, ⟨3, fun k => row.sel (73 + k)⟩]

def pushRow (column : Column) : U64 :=
  if column.val < 119 then read (instructionColumns row) column.val
  else if column.val < 154 then read (mulmodColumns row.mulmodWitness) (column.val - 119)
  else if column.val < 200 then read (addmodColumns row.addmodWitness) (column.val - 154)
  else if column.val < 217 then read (frameColumns row.frame) (column.val - 200)
  else read (contextColumns row) (column.val - 217)

end Columns

end MetaVm.Evm
