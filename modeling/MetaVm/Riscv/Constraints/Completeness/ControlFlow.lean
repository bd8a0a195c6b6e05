import MetaVm.Riscv.Constraints.Completeness.Alu

namespace MetaVm.Riscv

open Constraints Rv64 Zkp

/-! Rows of jumps and branches. The machine computes targets and return
addresses modulo the address space and drops writes to the zero register; the
bodies do neither. -/

/-- All selectors of a constraint belong to a family. -/
def within (family selectors : List Column) : Bool :=
  selectors.all family.contains

def controlFlowSelectors : List Column :=
  [colSelJal, colSelJalr, colSelAuipc, colSelBeq, colSelBne, colSelBltu,
    colSelBgeu, colSelBlt, colSelBge]

def Instruction.isControlFlow : Instruction → Bool
  | .jal _ _ => true
  | .jalr _ _ _ => true
  | .auipc _ _ => true
  | .branch _ _ _ _ => true
  | _ => false

/-- No address that the instruction computes wraps, and where it links or adds
it has a register to write. -/
def FlowFits (cpu : CpuState) (len : Byte) : Instruction → Prop
  | .auipc rd imm =>
      cpu.pc.toNat + imm.word.toNat < 2 ^ 64 ∧
        (rd ≠ 0 ∨ cpu.pc.toNat + imm.word.toNat = 0)
  | .jal rd imm =>
      rd ≠ 0 ∧ cpu.pc.toNat + len.toNat < 2 ^ 64 ∧
        cpu.pc.toNat + imm.word.toNat < 2 ^ 64
  | .jalr rd rs1 imm =>
      rd ≠ 0 ∧ cpu.pc.toNat + len.toNat < 2 ^ 64 ∧
        (cpu.readReg rs1).toNat + imm.word.toNat < 2 ^ 64
  | .branch op rs1 rs2 imm =>
      if op.taken (cpu.readReg rs1) (cpu.readReg rs2) then
        cpu.pc.toNat + imm.word.toNat < 2 ^ 64
      else cpu.pc.toNat + len.toNat < 2 ^ 64
  | _ => True

section Cells

variable (row : TraceRow)

theorem pcCell : row.integers colPc = row.pc.toNat := rfl

theorem nextPcCell : row.integers colNextPc = row.nextPc.toNat := rfl

theorem insnLenCell : row.integers colInsnLen = row.insnLen.toNat := rfl

theorem rdValAfterCell : row.integers colRdValAfter = row.rdValAfter.toNat := rfl

theorem rs1ValCell : row.integers colRs1Val = row.rs1Val.toNat := rfl

theorem aux1Cell : row.integers colAux1 = row.aux1.toNat := rfl

end Cells

section Jumps

variable {row : TraceRow} {imm : Word}
  (immediate : extractImmediate row.instruction = imm)

include immediate

theorem auipc_iff
    (written : row.rdValAfter = if row.rd = 0 then 0 else row.pc + imm) :
    ((evaluateAuipcRaw row.integers : ℤ) : Fr) = 0 ↔
      row.pc.toNat + imm.toNat < 2 ^ 64 ∧
        (row.rd ≠ 0 ∨ row.pc.toNat + imm.toNat = 0) := by
  have pcLt := row.pc.isLt
  have immLt := imm.isLt
  have value : evaluateAuipcRaw row.integers =
      (row.rdValAfter.toNat : ℤ) - (row.pc.toNat + imm.toNat) := by
    rw [evaluateAuipcRaw, rdValAfterCell, pcCell, immediateCell, immediate]
  have small : |evaluateAuipcRaw row.integers| < 2 ^ 254 := by
    have rdLt := row.rdValAfter.isLt
    rw [value, abs_lt]
    omega
  rw [intCast_eq_zero_iff_of_small small, value, written]
  by_cases zero : row.rd = 0
  · have dropped : ((0 : Word).toNat : ℤ) = 0 := rfl
    rw [if_pos zero, dropped]
    simp only [zero, ne_eq, not_true_eq_false, false_or]
    omega
  · rw [if_neg zero, BitVec.toNat_add]
    simp only [zero, ne_eq, not_false_eq_true, true_or, and_true]
    omega

/-- What a jump writes to its register, next to the address it goes to. -/
theorem jal_iff (long : 0 < row.insnLen.toNat)
    (written : row.rdValAfter =
      if row.rd = 0 then 0 else row.pc + row.insnLen.setWidth 64)
    (next : row.nextPc = row.pc + imm) :
    ((evaluateJalRaw row.integers : ℤ) : Fr) = 0 ↔
      row.rd ≠ 0 ∧ row.pc.toNat + row.insnLen.toNat < 2 ^ 64 ∧
        row.pc.toNat + imm.toNat < 2 ^ 64 := by
  have pcLt := row.pc.isLt
  have immLt := imm.isLt
  have lenLt := row.insnLen.isLt
  have value : evaluateJalRaw row.integers =
      (row.rdValAfter.toNat : ℤ) - (row.pc.toNat + row.insnLen.toNat) +
        ((row.nextPc.toNat : ℤ) - (row.pc.toNat + imm.toNat)) := by
    rw [evaluateJalRaw, rdValAfterCell, pcCell, insnLenCell, nextPcCell,
      immediateCell, immediate]
  have small : |evaluateJalRaw row.integers| < 2 ^ 254 := by
    have rdLt := row.rdValAfter.isLt
    have nextLt := row.nextPc.isLt
    rw [value, abs_lt]
    omega
  rw [intCast_eq_zero_iff_of_small small, value, written, next]
  by_cases zero : row.rd = 0
  · have dropped : ((0 : Word).toNat : ℤ) = 0 := rfl
    rw [if_pos zero, dropped, BitVec.toNat_add]
    simp only [zero, ne_eq, not_true_eq_false, false_and, iff_false]
    omega
  · rw [if_neg zero, BitVec.toNat_add, BitVec.toNat_add,
      BitVec.toNat_setWidth_of_le (by decide)]
    simp only [zero, ne_eq, not_false_eq_true, true_and]
    omega

/-- The target of an indirect jump loses its lowest bit, which `aux1` holds. -/
theorem jalr_iff (long : 0 < row.insnLen.toNat)
    (written : row.rdValAfter =
      if row.rd = 0 then 0 else row.pc + row.insnLen.setWidth 64)
    (next : row.nextPc = (row.rs1Val + imm) &&& ~~~1)
    (bit : row.aux1 = (row.rs1Val + imm) &&& 1) :
    ((evaluateJalrRaw row.integers : ℤ) : Fr) = 0 ↔
      row.rd ≠ 0 ∧ row.pc.toNat + row.insnLen.toNat < 2 ^ 64 ∧
        row.rs1Val.toNat + imm.toNat < 2 ^ 64 := by
  have pcLt := row.pc.isLt
  have rs1Lt := row.rs1Val.isLt
  have immLt := imm.isLt
  have lenLt := row.insnLen.isLt
  have bitLe : row.aux1.toNat ≤ 1 := by
    rw [bit]
    exact Nat.and_le_right
  have target : row.nextPc.toNat + row.aux1.toNat =
      (row.rs1Val.toNat + imm.toNat) % 2 ^ 64 := by
    rw [next, bit, ← BitVec.toNat_add]
    exact Words.and_not_add_and _ _
  have value : evaluateJalrRaw row.integers =
      (row.rdValAfter.toNat : ℤ) - (row.pc.toNat + row.insnLen.toNat) +
        ((row.nextPc.toNat : ℤ) -
          (row.rs1Val.toNat + imm.toNat - row.aux1.toNat)) := by
    rw [evaluateJalrRaw, rdValAfterCell, pcCell, insnLenCell, nextPcCell,
      immediateCell, immediate, rs1ValCell, aux1Cell,
      binaryCheck_eq_zero bitLe, add_zero]
  have small : |evaluateJalrRaw row.integers| < 2 ^ 254 := by
    have rdLt := row.rdValAfter.isLt
    have nextLt := row.nextPc.isLt
    rw [value, abs_lt]
    omega
  rw [intCast_eq_zero_iff_of_small small, value, written]
  by_cases zero : row.rd = 0
  · have dropped : ((0 : Word).toNat : ℤ) = 0 := rfl
    rw [if_pos zero, dropped]
    simp only [zero, ne_eq, not_true_eq_false, false_and, iff_false]
    omega
  · rw [if_neg zero, BitVec.toNat_add, BitVec.toNat_setWidth_of_le (by decide)]
    simp only [zero, ne_eq, not_false_eq_true, true_and]
    omega

end Jumps

section Branches

def BranchOp.body : BranchOp → Row ℤ → ℤ
  | .beq => evaluateBeqConditionRaw
  | .bne => evaluateBneConditionRaw
  | .blt => evaluateBltConditionRaw
  | .bge => evaluateBgeConditionRaw
  | .bltu => evaluateBltuConditionRaw
  | .bgeu => evaluateBgeuConditionRaw

variable {row : TraceRow} {a b : Word}

/-- With the witnesses of a comparison a branch body is left with the target
check and the difference from the address it should go to. -/
theorem BranchOp.body_eq (op : BranchOp) (rs1Val : row.rs1Val = a)
    (rs2Val : row.rs2Val = b) (aux : (row.aux0, row.aux1, row.aux2) = op.aux a b) :
    op.body row.integers = targetCheck row.integers +
      if op.taken a b then diffTaken row.integers
      else diffNotTaken row.integers := by
  have cells : Computes row a row.rdValAfter (op.aux a b) := ⟨rs1Val, rfl, aux⟩
  cases op with
  | beq =>
      by_cases same : a = b
      · have bits : Computes row a row.rdValAfter (0, 0, 0) := by
          simpa [BranchOp.aux, same] using cells
        rw [BranchOp.body, evaluateBeqConditionRaw, bits.aux1Cell, bits.rs1Cell,
          rs2Cell, rs2Val, same, if_pos (by simp [BranchOp.taken])]
        simp [binaryCheck]
      · have bits : Computes row a row.rdValAfter (0, 1, 0) := by
          simpa [BranchOp.aux, same] using cells
        rw [BranchOp.body, evaluateBeqConditionRaw, bits.aux1Cell,
          if_neg (by simp [BranchOp.taken, same])]
        simp [binaryCheck]
  | bne =>
      by_cases same : a = b
      · have bits : Computes row a row.rdValAfter (0, 0, 0) := by
          simpa [BranchOp.aux, same] using cells
        rw [BranchOp.body, evaluateBneConditionRaw, bits.aux1Cell, bits.rs1Cell,
          rs2Cell, rs2Val, same, if_neg (by simp [BranchOp.taken])]
        simp [binaryCheck]
      · have bits : Computes row a row.rdValAfter (0, 1, 0) := by
          simpa [BranchOp.aux, same] using cells
        rw [BranchOp.body, evaluateBneConditionRaw, bits.aux1Cell,
          if_pos (by simp [BranchOp.taken, same])]
        simp [binaryCheck]
  | bltu =>
      have bits : Computes row a row.rdValAfter (0, borrow a b, 0) := cells
      rw [BranchOp.body, evaluateBltuConditionRaw, bits.aux1Cell,
        binaryCheck_eq_zero (borrow_le_one a b)]
      by_cases less : a < b
      · rw [borrow, if_pos less, if_pos (by simp [BranchOp.taken, less])]
        simp
      · rw [borrow, if_neg less, if_neg (by simpa [BranchOp.taken] using less)]
        simp
  | bgeu =>
      have bits : Computes row a row.rdValAfter (0, borrow a b, 0) := cells
      rw [BranchOp.body, evaluateBgeuConditionRaw, bits.aux1Cell,
        binaryCheck_eq_zero (borrow_le_one a b)]
      by_cases less : a < b
      · rw [borrow, if_pos less, if_neg (by simpa [BranchOp.taken] using less)]
        simp
      · rw [borrow, if_neg less, if_pos (by simpa [BranchOp.taken] using less)]
        simp
  | blt =>
      have bits : Computes row a row.rdValAfter
        (borrow a b, signBit a, signBit b) := cells
      rw [BranchOp.body, evaluateBltConditionRaw, evaluateSignedBranchCondition,
        if_pos rfl, bits.aux0Cell, bits.aux1Cell, bits.aux2Cell, ← slt_eq,
        binaryCheck_eq_zero (borrow_le_one a b),
        binaryCheck_eq_zero (signBit_le_one a),
        binaryCheck_eq_zero (signBit_le_one b), slt, BranchOp.taken]
      cases a.slt b <;> simp
  | bge =>
      have bits : Computes row a row.rdValAfter
        (borrow a b, signBit a, signBit b) := cells
      rw [BranchOp.body, evaluateBgeConditionRaw, evaluateSignedBranchCondition,
        if_neg Bool.false_ne_true, bits.aux0Cell, bits.aux1Cell, bits.aux2Cell,
        ← slt_eq, binaryCheck_eq_zero (borrow_le_one a b),
        binaryCheck_eq_zero (signBit_le_one a),
        binaryCheck_eq_zero (signBit_le_one b), slt, BranchOp.taken]
      cases a.slt b <;> simp

/-- The address a branch goes to satisfies its body when it does not wrap. The
other factor of the target check never makes up for a wrap. -/
theorem BranchOp.body_iff (op : BranchOp) {imm : Word}
    (immediate : extractImmediate row.instruction = imm)
    (long : 0 < row.insnLen.toNat) (rs1Val : row.rs1Val = a)
    (rs2Val : row.rs2Val = b) (aux : (row.aux0, row.aux1, row.aux2) = op.aux a b)
    (next : row.nextPc = if op.taken a b then row.pc + imm
      else row.pc + row.insnLen.setWidth 64) :
    ((op.body row.integers : ℤ) : Fr) = 0 ↔
      if op.taken a b then row.pc.toNat + imm.toNat < 2 ^ 64
      else row.pc.toNat + row.insnLen.toNat < 2 ^ 64 := by
  have pcLt := row.pc.isLt
  have immLt := imm.isLt
  have lenLt := row.insnLen.isLt
  have nextLt := row.nextPc.isLt
  have taken : diffTaken row.integers =
      (row.nextPc.toNat : ℤ) - (row.pc.toNat + imm.toNat) := by
    rw [diffTaken, nextPcCell, pcCell, immediateCell, immediate]
  have notTaken : diffNotTaken row.integers =
      (row.nextPc.toNat : ℤ) - (row.pc.toNat + row.insnLen.toNat) := by
    rw [diffNotTaken, nextPcCell, pcCell, insnLenCell]
  have value := op.body_eq rs1Val rs2Val aux
  rw [targetCheck, taken, notTaken] at value
  have small : |op.body row.integers| < 2 ^ 254 := by
    rw [value, abs_lt]
    split <;> constructor <;> nlinarith
  rw [intCast_eq_zero_iff_of_small small, value]
  split at next
  · rename_i isTaken
    have sum : row.nextPc.toNat = (row.pc.toNat + imm.toNat) % 2 ^ 64 := by
      rw [next, BitVec.toNat_add]
    rw [if_pos isTaken, if_pos isTaken, ← mul_add_one, mul_eq_zero]
    omega
  · rename_i isNotTaken
    have sum : row.nextPc.toNat = (row.pc.toNat + row.insnLen.toNat) % 2 ^ 64 := by
      rw [next, BitVec.toNat_add, BitVec.toNat_setWidth_of_le (by decide)]
    rw [if_neg isNotTaken, if_neg isNotTaken, ← add_one_mul, mul_eq_zero]
    omega

end Branches

/-! Recorded steps. -/

section Recorded

variable {vm ready after : Vm} {insn : Instruction} {len : Byte}

/-- The row of an instruction that the machine executed. -/
abbrev recordedRow (step : ℕ) (vm after : Vm) (insn : Instruction) (len : Byte) :
    TraceRow :=
  .record step vm after.retire ⟨insn, len⟩

theorem recordedRow_nextPc (step : ℕ) :
    (recordedRow step vm after insn len).nextPc = after.cpu.pc := after.retire_pc

theorem recordedRow_rdValAfter (step : ℕ) :
    (recordedRow step vm after insn len).rdValAfter =
      after.cpu.readReg (insn.rd.getD 0) :=
  Vm.readReg_of_x after.retire_x _

/-- A written register, or zero for the zero register. -/
theorem readReg_writeReg_eq (vm : Vm) (rd : Reg) (val next : Word) :
    ((vm.writeReg rd val).setPc next).cpu.readReg rd =
      if rd = 0 then 0 else val := by
  split
  · rename_i zero
    rw [zero]
    exact vm.cpu.readReg_zero
  · rename_i nonzero
    exact readReg_written vm nonzero val next

variable (executes : vm.Executes ready ⟨insn, len⟩) (step : ℕ)

include executes

theorem recordedRow_auipc {rd : Reg} {imm : Imm} (named : insn = .auipc rd imm) :
    (recordedRow step vm (ready.execute insn).1 insn len).Satisfies
      (within controlFlowSelectors) ↔ FlowFits vm.cpu len insn := by
  subst named
  have listed : keptBodies (within controlFlowSelectors) (.auipc rd imm) =
      [evaluateAuipcRaw] := rfl
  rw [TraceRow.satisfies_record_iff listed]
  refine auipc_iff rfl ?_
  rw [recordedRow_rdValAfter]
  refine (readReg_writeReg_eq ready rd _ _).trans ?_
  rw [executes.pc]
  rfl

theorem recordedRow_jal {rd : Reg} {imm : Imm} (named : insn = .jal rd imm)
    (long : 0 < len.toNat) :
    (recordedRow step vm (ready.execute insn).1 insn len).Satisfies
      (within controlFlowSelectors) ↔ FlowFits vm.cpu len insn := by
  subst named
  have listed : keptBodies (within controlFlowSelectors) (.jal rd imm) =
      [evaluateJalRaw] := rfl
  rw [TraceRow.satisfies_record_iff listed]
  refine jal_iff rfl long ?_ ?_
  · rw [recordedRow_rdValAfter]
    refine (readReg_writeReg_eq ready rd _ _).trans ?_
    rw [executes.sequentialPc]
    rfl
  · rw [recordedRow_nextPc]
    show ready.cpu.pc + imm.word = _
    rw [executes.pc]
    rfl

theorem recordedRow_jalr {rd rs1 : Reg} {imm : Imm}
    (named : insn = .jalr rd rs1 imm) (long : 0 < len.toNat) :
    (recordedRow step vm (ready.execute insn).1 insn len).Satisfies
      (within controlFlowSelectors) ↔ FlowFits vm.cpu len insn := by
  subst named
  have listed : keptBodies (within controlFlowSelectors) (.jalr rd rs1 imm) =
      [evaluateJalrRaw] := rfl
  rw [TraceRow.satisfies_record_iff listed]
  refine jalr_iff rfl long ?_ ?_ rfl
  · rw [recordedRow_rdValAfter]
    refine (readReg_writeReg_eq ready rd _ _).trans ?_
    rw [executes.sequentialPc]
    rfl
  · rw [recordedRow_nextPc]
    show (ready.cpu.readReg rs1 + imm.word) &&& ~~~1 = _
    rw [executes.readReg]
    rfl

theorem recordedRow_branch {op : BranchOp} {rs1 rs2 : Reg} {imm : Imm}
    (named : insn = .branch op rs1 rs2 imm) (long : 0 < len.toNat) :
    (recordedRow step vm (ready.execute insn).1 insn len).Satisfies
      (within controlFlowSelectors) ↔ FlowFits vm.cpu len insn := by
  subst named
  have listed : keptBodies (within controlFlowSelectors)
      (.branch op rs1 rs2 imm) = [op.body] := by
    rw [keptBodies, selectorOf_branch]
    cases op <;> rfl
  rw [TraceRow.satisfies_record_iff listed]
  refine op.body_iff rfl long rfl rfl rfl ?_
  rw [recordedRow_nextPc]
  show (if op.taken (ready.cpu.readReg rs1) (ready.cpu.readReg rs2) then
    ready.cpu.pc + imm.word else ready.sequentialPc) = _
  rw [executes.readReg, executes.readReg, executes.pc, executes.sequentialPc]
  rfl

end Recorded

/-- A traced step of a jump, an `auipc` or a branch appends a row, and its
control-flow bodies vanish exactly when the instruction fits. -/
theorem controlFlow_complete_iff (tracer : TracingVm) {insn : Instruction}
    {len : Byte} {ready : Vm} (flow : insn.isControlFlow)
    (stands : fetchDecode tracer.vm.memory tracer.vm.cpu.pc = .ok ⟨insn, len⟩)
    (executes : tracer.vm.Executes ready ⟨insn, len⟩) :
    ∃ after row, tracer.step = some (⟨after, tracer.trace ++ [row]⟩, .ok ()) ∧
      (row.Satisfies (within controlFlowSelectors) ↔
        FlowFits tracer.vm.cpu len insn) := by
  have long : 0 < len.toNat := by
    rcases fetchDecode_len stands with short | full
    · rw [show len = 2 from short]
      decide
    · rw [show len = 4 from full]
      decide
  have ran : ready.execute insn = ((ready.execute insn).1, .ok ()) := by
    cases insn with
    | jal => rfl
    | jalr => rfl
    | auipc => rfl
    | branch => rfl
    | _ => exact absurd flow Bool.false_ne_true
  refine ⟨_, _, TracingVm.step_eq stands executes ran, ?_⟩
  cases insn with
  | jal rd imm => exact recordedRow_jal executes _ rfl long
  | jalr rd rs1 imm => exact recordedRow_jalr executes _ rfl long
  | auipc rd imm => exact recordedRow_auipc executes _ rfl
  | branch op rs1 rs2 imm => exact recordedRow_branch executes _ rfl long
  | _ => exact absurd flow Bool.false_ne_true

/-- A machine with clear registers and one instruction in memory. -/
def loadedVm (pc : Word) (word : BitVec 32) : Vm :=
  .new (.withPc pc) (Memory.new.storeWord pc word)

/-- `jal x1, 8` -/
theorem controlFlow_complete_jal :
    ∃ after row,
      TracingVm.step (.new (loadedVm 0 0x008000EF)) =
        some (⟨after, [] ++ [row]⟩, .ok ()) ∧
      row.Satisfies (within controlFlowSelectors) := by
  have stands : fetchDecode (loadedVm 0 0x008000EF).memory 0 =
      .ok ⟨.jal 1 8, 4⟩ := by decide
  obtain ⟨ready, executes⟩ := Vm.executes_of_unprivileged rfl rfl stands
  obtain ⟨after, row, stepped, complete⟩ := controlFlow_complete_iff
    (.new (loadedVm 0 0x008000EF)) rfl stands executes
  exact ⟨after, row, stepped, complete.2 ⟨by decide, by decide, by decide⟩⟩

/-- `jal x0, 8`: the machine drops the link, the body asks for it. -/
theorem jal_zero_row_rejected :
    ∃ after row,
      TracingVm.step (.new (loadedVm 0 0x0080006F)) =
        some (⟨after, [] ++ [row]⟩, .ok ()) ∧
      ¬ row.Satisfies (within controlFlowSelectors) := by
  have stands : fetchDecode (loadedVm 0 0x0080006F).memory 0 =
      .ok ⟨.jal 0 8, 4⟩ := by decide
  obtain ⟨ready, executes⟩ := Vm.executes_of_unprivileged rfl rfl stands
  refine ⟨_, _, TracingVm.step_eq stands executes rfl, fun satisfied => ?_⟩
  exact ((recordedRow_jal executes 0 rfl (by decide)).1 satisfied).1 rfl

end MetaVm.Riscv
