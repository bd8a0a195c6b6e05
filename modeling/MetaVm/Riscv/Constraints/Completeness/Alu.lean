import MetaVm.Riscv.Trace.Export
import MetaVm.Riscv.Constraints.Completeness.Equations

namespace MetaVm.Riscv

open Constraints Rv64 Zkp

/-! Rows of arithmetic instructions. Their own bodies always vanish; the next
program counter is compared without its wrap. -/

/-- A row fills the cells of a computation with two operands. -/
structure Computes (row : TraceRow) (a rd : Word) (aux : Aux) : Prop where
  rs1Val : row.rs1Val = a
  rdValAfter : row.rdValAfter = rd
  aux : (row.aux0, row.aux1, row.aux2) = aux

namespace Computes

variable {row : TraceRow} {a rd aux0 aux1 aux2 : Word}

theorem rs1Cell (computes : Computes row a rd (aux0, aux1, aux2)) :
    row.integers colRs1Val = a.toNat := by
  rw [← computes.rs1Val]
  rfl

theorem rdCell (computes : Computes row a rd (aux0, aux1, aux2)) :
    row.integers colRdValAfter = rd.toNat := by
  rw [← computes.rdValAfter]
  rfl

theorem aux0Cell (computes : Computes row a rd (aux0, aux1, aux2)) :
    row.integers colAux0 = aux0.toNat := by
  have same : row.aux0 = aux0 := congrArg Prod.fst computes.aux
  rw [← same]
  rfl

theorem aux1Cell (computes : Computes row a rd (aux0, aux1, aux2)) :
    row.integers colAux1 = aux1.toNat := by
  have same : row.aux1 = aux1 := congrArg (fun aux => aux.2.1) computes.aux
  rw [← same]
  rfl

theorem aux2Cell (computes : Computes row a rd (aux0, aux1, aux2)) :
    row.integers colAux2 = aux2.toNat := by
  have same : row.aux2 = aux2 := congrArg (fun aux => aux.2.2) computes.aux
  rw [← same]
  rfl

end Computes

/-- An integer of the size of a body is zero when its residue is. -/
theorem intCast_eq_zero_iff_of_small {value : ℤ} (small : |value| < 2 ^ 254) :
    ((value : ℤ) : Fr) = 0 ↔ value = 0 := by
  constructor
  · exact eq_zero_of_cast_eq_zero small
  · rintro rfl
    exact Int.cast_zero

theorem rs2Cell (row : TraceRow) : row.integers colRs2Val = row.rs2Val.toNat := rfl

theorem immediateCell (row : TraceRow) :
    row.integers colImmediate = (extractImmediate row.instruction).toNat := rfl

/-- The sequential body asks for a next program counter that does not wrap. -/
theorem sequentialPc_iff {row : TraceRow}
    (next : row.nextPc = row.pc + row.insnLen.setWidth 64) :
    ((evaluateSequentialPcRaw row.integers : ℤ) : Fr) = 0 ↔
      row.pc.toNat + row.insnLen.toNat < 2 ^ 64 := by
  have pcLt := row.pc.isLt
  have lenLt := row.insnLen.isLt
  have value : evaluateSequentialPcRaw row.integers =
      ((row.pc.toNat + row.insnLen.toNat) % 2 ^ 64 : ℕ) -
        (row.pc.toNat + row.insnLen.toNat : ℤ) := by
    have cell : (row.nextPc.toNat : ℤ) =
        ((row.pc.toNat + row.insnLen.toNat) % 2 ^ 64 : ℕ) := by
      rw [next, BitVec.toNat_add, BitVec.toNat_setWidth_of_le (by decide)]
    rw [← cell]
    rfl
  have small : |evaluateSequentialPcRaw row.integers| < 2 ^ 254 := by
    rw [value, abs_lt]
    omega
  rw [intCast_eq_zero_iff_of_small small, value]
  omega

/-! The bodies of an operation next to the sequential one, all of them zero on
the cells of its own result. -/

def RegOp.ownBodies : RegOp → List (Row ℤ → ℤ)
  | .add => [evaluateAluRAddMainRaw, evaluateAux0BinaryRaw]
  | .sub => [evaluateAluRSubMainRaw, evaluateAux0BinaryRaw]
  | .sll => [evaluateSllRaw]
  | .slt => [evaluateCompareRaw]
  | .sltu => [evaluateCompareRaw]
  | .xor => [evaluateRXorRaw]
  | .srl => [evaluateSrlRaw]
  | .sra => [evaluateSraRaw]
  | .or => [evaluateROrRaw]
  | .and => [evaluateRAndRaw]

def ImmOp.ownBodies : ImmOp → List (Row ℤ → ℤ)
  | .addi => [evaluateAluIAddMainRaw, evaluateAux0BinaryRaw]
  | .slti => [evaluateCompareRaw]
  | .sltiu => [evaluateCompareRaw]
  | .xori => [evaluateIXorRaw]
  | .ori => [evaluateIOrRaw]
  | .andi => [evaluateIAndRaw]
  | .slli => [evaluateSllRaw]
  | .srli => [evaluateSrlRaw]
  | .srai => [evaluateSraRaw]

section Families

variable {row : TraceRow} {a b : Word}

/-! Operations that R-type and I-type instructions share. -/

theorem sll_zero (computes : Computes row a (sll a b) (sllAux a (shamt b))) :
    evaluateSllRaw row.integers = 0 := by
  have split := sll_split a (shamt_lt b)
  have cells : Computes row a (sll a b)
    ((1 : Word) <<< shamt b, productHigh a ((1 : Word) <<< shamt b), 0) := computes
  rw [evaluateSllRaw, shiftLeftBody, cells.rs1Cell, cells.aux0Cell,
    cells.aux1Cell, cells.rdCell, sll, twoPow64]
  exact sub_eq_zero.2 (by exact_mod_cast split)

theorem srl_zero (computes : Computes row a (srl a b) (srlAux a (shamt b))) :
    evaluateSrlRaw row.integers = 0 := by
  have split := srl_split a (shamt_lt b)
  have cells : Computes row a (srl a b) ((1 : Word) <<< shamt b,
    if shamt b = 0 then 0 else a % (1 : Word) <<< shamt b, 0) := computes
  rw [evaluateSrlRaw, shiftRightBody, cells.rs1Cell, cells.aux0Cell,
    cells.aux1Cell, cells.rdCell, srl, shiftedOut_eq a (shamt_lt b)]
  exact sub_eq_zero.2 (by exact_mod_cast split)

theorem sra_zero (computes : Computes row a (sra a b) (sraAux a (shamt b))) :
    evaluateSraRaw row.integers = 0 := by
  have cells : Computes row a (sra a b) ((1 : Word) <<< shamt b,
    if shamt b = 0 then 0 else a % (1 : Word) <<< shamt b,
    signBit a * ((1 : Word) <<< shamt b - 1)) := computes
  rw [evaluateSraRaw, shiftRightArithBody, cells.rs1Cell, cells.aux0Cell,
    cells.aux1Cell, cells.aux2Cell, cells.rdCell, sra,
    shiftedOut_eq a (shamt_lt b), twoPow64]
  exact sub_eq_zero.2 (sra_split a (shamt_lt b))

theorem slt_zero
    (computes : Computes row a (slt a b) (borrow a b, signBit a, signBit b)) :
    evaluateCompareRaw row.integers = 0 := by
  rw [evaluateCompareRaw, computes.rdCell, computes.aux0Cell, computes.aux1Cell,
    computes.aux2Cell, slt_eq, binaryCheck_eq_zero (borrow_le_one a b),
    binaryCheck_eq_zero (signBit_le_one a), binaryCheck_eq_zero (signBit_le_one b)]
  ring

theorem sltu_zero (computes : Computes row a (sltu a b) (borrow a b, 0, 0)) :
    evaluateCompareRaw row.integers = 0 := by
  have zero : ((0 : Word).toNat : ℤ) = 0 := rfl
  rw [evaluateCompareRaw, computes.rdCell, computes.aux0Cell, computes.aux1Cell,
    computes.aux2Cell, sltu_eq, binaryCheck_eq_zero (borrow_le_one a b), zero,
    binaryCheck]
  ring

theorem carry_zero {rd : Word} (computes : Computes row a rd (carry a b, 0, 0)) :
    evaluateAux0BinaryRaw row.integers = 0 := by
  rw [evaluateAux0BinaryRaw, computes.aux0Cell,
    binaryCheck_eq_zero (carry_le_one a b)]

end Families

section Own

variable {row : TraceRow} {a b : Word}

theorem RegOp.ownBodies_zero (op : RegOp) (operand : row.rs2Val = b)
    (computes : Computes row a (op.result a b) (op.aux a b)) :
    ∀ body ∈ op.ownBodies, body row.integers = 0 := by
  cases op with
  | add =>
      have cells : Computes row a (a + b) (carry a b, 0, 0) := computes
      have split := add_split a b
      refine List.forall_mem_cons.2 ⟨?_, List.forall_mem_singleton.2 (carry_zero cells)⟩
      rw [evaluateAluRAddMainRaw, cells.rs1Cell, rs2Cell, operand, cells.aux0Cell,
        cells.rdCell, twoPow64]
      exact sub_eq_zero.2 (by exact_mod_cast split)
  | sub =>
      have cells : Computes row a (a - b) (borrow a b, 0, 0) := computes
      have split := sub_split a b
      refine List.forall_mem_cons.2 ⟨?_, List.forall_mem_singleton.2 ?_⟩
      · rw [evaluateAluRSubMainRaw, cells.rs1Cell, rs2Cell, operand,
          cells.aux0Cell, cells.rdCell, twoPow64]
        exact sub_eq_zero.2 (by exact_mod_cast split)
      · rw [evaluateAux0BinaryRaw, cells.aux0Cell,
          binaryCheck_eq_zero (borrow_le_one a b)]
  | sll => exact List.forall_mem_singleton.2 (sll_zero computes)
  | slt => exact List.forall_mem_singleton.2 (slt_zero computes)
  | sltu => exact List.forall_mem_singleton.2 (sltu_zero computes)
  | srl => exact List.forall_mem_singleton.2 (srl_zero computes)
  | sra => exact List.forall_mem_singleton.2 (sra_zero computes)
  | xor =>
      have cells : Computes row a (a ^^^ b) (a &&& b, 0, 0) := computes
      have split := xor_split a b
      refine List.forall_mem_singleton.2 ?_
      rw [evaluateRXorRaw, cells.rs1Cell, rs2Cell, operand, cells.aux0Cell,
        cells.rdCell]
      omega
  | or =>
      have cells : Computes row a (a ||| b) (a &&& b, 0, 0) := computes
      have split := or_split a b
      refine List.forall_mem_singleton.2 ?_
      rw [evaluateROrRaw, cells.rs1Cell, rs2Cell, operand, cells.aux0Cell,
        cells.rdCell]
      omega
  | and =>
      have cells : Computes row a (a &&& b) (a &&& b, 0, 0) := computes
      refine List.forall_mem_singleton.2 ?_
      rw [evaluateRAndRaw, cells.aux0Cell, cells.rdCell, sub_self]

theorem ImmOp.ownBodies_zero (op : ImmOp)
    (operand : extractImmediate row.instruction = b)
    (computes : Computes row a (op.result a b) (op.aux a b)) :
    ∀ body ∈ op.ownBodies, body row.integers = 0 := by
  cases op with
  | addi =>
      have cells : Computes row a (a + b) (carry a b, 0, 0) := computes
      have split := add_split a b
      refine List.forall_mem_cons.2 ⟨?_, List.forall_mem_singleton.2 (carry_zero cells)⟩
      rw [evaluateAluIAddMainRaw, cells.rs1Cell, immediateCell, operand,
        cells.aux0Cell, cells.rdCell, twoPow64]
      exact sub_eq_zero.2 (by exact_mod_cast split)
  | slti => exact List.forall_mem_singleton.2 (slt_zero computes)
  | sltiu => exact List.forall_mem_singleton.2 (sltu_zero computes)
  | slli => exact List.forall_mem_singleton.2 (sll_zero computes)
  | srli => exact List.forall_mem_singleton.2 (srl_zero computes)
  | srai => exact List.forall_mem_singleton.2 (sra_zero computes)
  | xori =>
      have cells : Computes row a (a ^^^ b) (a &&& b, 0, 0) := computes
      have split := xor_split a b
      refine List.forall_mem_singleton.2 ?_
      rw [evaluateIXorRaw, cells.rs1Cell, immediateCell, operand, cells.aux0Cell,
        cells.rdCell]
      omega
  | ori =>
      have cells : Computes row a (a ||| b) (a &&& b, 0, 0) := computes
      have split := or_split a b
      refine List.forall_mem_singleton.2 ?_
      rw [evaluateIOrRaw, cells.rs1Cell, immediateCell, operand, cells.aux0Cell,
        cells.rdCell]
      omega
  | andi =>
      have cells : Computes row a (a &&& b) (a &&& b, 0, 0) := computes
      refine List.forall_mem_singleton.2 ?_
      rw [evaluateIAndRaw, cells.aux0Cell, cells.rdCell, sub_self]

end Own

/-! Whole rows. -/

/-- The instructions whose rows only depend on their operands. -/
def Instruction.isAlu : Instruction → Bool
  | .op _ _ _ _ => true
  | .opImm _ _ _ _ => true
  | .lui _ _ => true
  | .mulDiv .mul _ _ _ => true
  | .mulDiv .mulhu _ _ _ => true
  | _ => false

theorem satisfies_all_iff {row : TraceRow} {bodies : List (Row ℤ → ℤ)}
    (listed : keptBodies (fun _ => true) row.instruction =
      evaluateSequentialPcRaw :: bodies)
    (own : ∀ body ∈ bodies, body row.integers = 0)
    (next : row.nextPc = row.pc + row.insnLen.setWidth 64) :
    row.Satisfies (fun _ => true) ↔ row.pc.toNat + row.insnLen.toNat < 2 ^ 64 := by
  rw [row.satisfies_iff_integers _ listed, List.forall_mem_cons,
    sequentialPc_iff next]
  refine and_iff_left fun body member => ?_
  rw [own body member, Int.cast_zero]

section Rows

variable (vm : Vm) {rd : Reg}

theorem readReg_written (nonzero : rd ≠ 0) (val next : Word) :
    ((vm.writeReg rd val).setPc next).cpu.readReg rd = val :=
  vm.cpu.readReg_writeReg nonzero val

theorem executedRow_op (op : RegOp) (rs1 rs2 : Reg) (nonzero : rd ≠ 0) :
    (vm.executedRow (.op op rd rs1 rs2)).Satisfies (fun _ => true) ↔
      vm.cpu.pc.toNat + vm.insnLen.toNat < 2 ^ 64 := by
  have listed : keptBodies (fun _ => true) (.op op rd rs1 rs2) =
      evaluateSequentialPcRaw :: op.ownBodies := by
    rw [keptBodies, selectorOf_op]
    cases op <;> rfl
  have computes : Computes (vm.executedRow (.op op rd rs1 rs2))
      (vm.cpu.readReg rs1)
      (op.result (vm.cpu.readReg rs1) (vm.cpu.readReg rs2))
      (op.aux (vm.cpu.readReg rs1) (vm.cpu.readReg rs2)) :=
    ⟨rfl, readReg_written vm nonzero _ _, rfl⟩
  exact satisfies_all_iff listed (op.ownBodies_zero rfl computes) rfl

theorem executedRow_opImm (op : ImmOp) (rs1 : Reg) (imm : Imm) (nonzero : rd ≠ 0) :
    (vm.executedRow (.opImm op rd rs1 imm)).Satisfies (fun _ => true) ↔
      vm.cpu.pc.toNat + vm.insnLen.toNat < 2 ^ 64 := by
  have listed : keptBodies (fun _ => true) (.opImm op rd rs1 imm) =
      evaluateSequentialPcRaw :: op.ownBodies := by
    rw [keptBodies, selectorOf_opImm]
    cases op <;> rfl
  have computes : Computes (vm.executedRow (.opImm op rd rs1 imm))
      (vm.cpu.readReg rs1) (op.result (vm.cpu.readReg rs1) imm.word)
      (op.aux (vm.cpu.readReg rs1) imm.word) :=
    ⟨rfl, readReg_written vm nonzero _ _, rfl⟩
  exact satisfies_all_iff listed (op.ownBodies_zero rfl computes) rfl

theorem executedRow_lui (imm : Imm) (nonzero : rd ≠ 0) :
    (vm.executedRow (.lui rd imm)).Satisfies (fun _ => true) ↔
      vm.cpu.pc.toNat + vm.insnLen.toNat < 2 ^ 64 := by
  have listed : keptBodies (fun _ => true) (.lui rd imm) =
      [evaluateSequentialPcRaw, evaluateLuiRaw] := rfl
  have computes : Computes (vm.executedRow (.lui rd imm)) 0 imm.word (0, 0, 0) :=
    ⟨vm.cpu.readReg_zero, readReg_written vm nonzero _ _, rfl⟩
  refine satisfies_all_iff listed (List.forall_mem_singleton.2 ?_) rfl
  rw [evaluateLuiRaw, computes.rdCell, immediateCell]
  exact sub_self _

theorem executedRow_mul (rs1 rs2 : Reg) (nonzero : rd ≠ 0) :
    (vm.executedRow (.mulDiv .mul rd rs1 rs2)).Satisfies (fun _ => true) ↔
      vm.cpu.pc.toNat + vm.insnLen.toNat < 2 ^ 64 := by
  let a := vm.cpu.readReg rs1
  let b := vm.cpu.readReg rs2
  have listed : keptBodies (fun _ => true) (.mulDiv .mul rd rs1 rs2) =
      [evaluateSequentialPcRaw, evaluateMulRaw] := rfl
  have computes : Computes (vm.executedRow (.mulDiv .mul rd rs1 rs2)) a (a * b)
      (productHigh a b, 0, 0) := ⟨rfl, readReg_written vm nonzero _ _, rfl⟩
  refine satisfies_all_iff listed (List.forall_mem_singleton.2 ?_) rfl
  have split := mul_split a b
  rw [evaluateMulRaw, computes.rs1Cell, rs2Cell, computes.aux0Cell,
    computes.rdCell, twoPow64]
  exact sub_eq_zero.2 (by exact_mod_cast split)

theorem executedRow_mulhu (rs1 rs2 : Reg) (nonzero : rd ≠ 0) :
    (vm.executedRow (.mulDiv .mulhu rd rs1 rs2)).Satisfies (fun _ => true) ↔
      vm.cpu.pc.toNat + vm.insnLen.toNat < 2 ^ 64 := by
  let a := vm.cpu.readReg rs1
  let b := vm.cpu.readReg rs2
  have listed : keptBodies (fun _ => true) (.mulDiv .mulhu rd rs1 rs2) =
      [evaluateSequentialPcRaw, evaluateMulhuRaw] := rfl
  have computes : Computes (vm.executedRow (.mulDiv .mulhu rd rs1 rs2)) a
      (mulhu a b) (productLow a b, 0, 0) :=
    ⟨rfl, readReg_written vm nonzero _ _, rfl⟩
  refine satisfies_all_iff listed (List.forall_mem_singleton.2 ?_) rfl
  have split := mulhu_split a b
  rw [evaluateMulhuRaw, computes.rs1Cell, rs2Cell, computes.aux0Cell,
    computes.rdCell, twoPow64]
  exact sub_eq_zero.2 (by exact_mod_cast split)

end Rows

/-- The row of an executed arithmetic instruction satisfies all gated bodies
exactly when the next instruction does not lie past the end of the address
space. -/
theorem alu_complete_iff (vm : Vm) {insn : Instruction} {rd : Reg}
    (alu : insn.isAlu) (dest : insn.rd = some rd) (nonzero : rd ≠ 0) :
    (vm.executedRow insn).Satisfies (fun _ => true) ↔
      vm.cpu.pc.toNat + vm.insnLen.toNat < 2 ^ 64 := by
  cases insn with
  | op op _ rs1 rs2 =>
      cases dest
      exact executedRow_op vm op rs1 rs2 nonzero
  | opImm op _ rs1 imm =>
      cases dest
      exact executedRow_opImm vm op rs1 imm nonzero
  | lui _ imm =>
      cases dest
      exact executedRow_lui vm imm nonzero
  | mulDiv op _ rs1 rs2 =>
      cases dest
      cases op with
      | mul => exact executedRow_mul vm rs1 rs2 nonzero
      | mulhu => exact executedRow_mulhu vm rs1 rs2 nonzero
      | _ => exact absurd alu Bool.false_ne_true
  | _ => exact absurd alu Bool.false_ne_true

/-- A machine whose registers are clear, about to run the instruction at `pc`. -/
def startVm (pc : Word) : Vm := .new (.withPc pc) .new

/-- A sum that carries out of the word. -/
theorem alu_complete_add :
    ((((startVm 0).writeReg 1 (-1)).writeReg 2 2).executedRow
      (.op .add 3 1 2)).Satisfies fun _ => true :=
  (@alu_complete_iff (((startVm 0).writeReg 1 (-1)).writeReg 2 2) (.op .add 3 1 2) 3 rfl rfl
    (by decide)).2 (by decide)

/-- The last instruction of the address space. -/
theorem alu_row_rejected :
    ¬ ((startVm (-4)).executedRow (.op .add 1 0 0)).Satisfies fun _ => true := by
  rw [executedRow_op (startVm (-4)) .add 0 0 (by decide)]
  decide

end MetaVm.Riscv
