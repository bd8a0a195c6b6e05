import MetaVm.Lib.OfflineMemory
import MetaVm.Riscv.Constraints.Columns
import MetaVm.Riscv.Machine.Registers
import MetaVm.Riscv.Trace.Export

namespace MetaVm.Riscv

open Zkp Constraints AccessLog

/-! Registers over a step. -/

namespace Vm

theorem fetch_trapped_readReg {vm trapped : Vm} (fault : vm.fetch = .trapped trapped)
    (reg : Reg) : trapped.cpu.readReg reg = vm.cpu.readReg reg := by
  simp only [fetch] at fault
  split at fault
  · rename_i faulted translates
    cases fault
    exact readReg_of_x (translateFor_x_of_fault translates) reg
  · rename_i translated fetchPc translates
    split at fault
    · cases fault
    · split at fault
      · cases fault
        have same := @translateFor_cpu { vm with lastFetched := none } _ _ _ _ translates
        rw [trap_readReg, same]
      · cases fault

/-- A step writes no register but the one its instruction writes. -/
theorem step_readReg {vm after : Vm} {result : Except VmError Unit}
    (stepped : vm.step = some (after, result)) {reg : Reg}
    (other : ∀ prepared ready executed, vm.prepare = some prepared →
      prepared.fetch = .fetched ready executed → result = .ok () →
        ready.destination executed.instruction ≠ some reg) :
    after.cpu.readReg reg = vm.cpu.readReg reg := by
  rw [step] at stepped
  split at stepped
  · cases stepped
    rfl
  obtain ⟨prepared, prepares, inner⟩ := Option.map_eq_some_iff.1 stepped
  rw [← readReg_of_x (prepare_x prepares) reg]
  rw [stepInner] at inner
  split at inner
  · rename_i ready executed fetches
    rw [← (fetch_frame fetches).1]
    have ran := @execute_readReg ready reg executed.instruction
    split at inner
    · rename_i done executes
      obtain ⟨rfl, rfl⟩ := Prod.mk.inj inner
      rw [executes] at ran
      rw [← ran (other prepared ready executed prepares fetches rfl)]
      exact readReg_of_x (retire_x done) reg
    · rename_i done e executes
      obtain ⟨rfl, rfl⟩ := Prod.mk.inj inner
      have isBreak : executed.instruction = .ebreak := execute_error (congrArg Prod.snd executes)
      rw [executes] at ran
      exact ran (by
        rw [isBreak]
        exact Option.some_ne_none reg ∘ Eq.symm)
  · rename_i trapped fault
    obtain ⟨rfl, -⟩ := Prod.mk.inj inner
    exact fetch_trapped_readReg fault reg
  · rename_i failed e fault
    obtain ⟨rfl, -⟩ := Prod.mk.inj inner
    rw [fetch_failed_cpu fault]

/-- What executes in a step writes no register but the one of the instruction that
stands at the program counter. -/
def StepRecorded (vm : Vm) : Prop :=
  ∀ fetched prepared ready executed, fetchDecode vm.memory vm.cpu.pc = .ok fetched →
    vm.prepare = some prepared → prepared.fetch = .fetched ready executed →
      ∀ reg, ready.destination executed.instruction = some reg →
        reg = 0 ∨ reg = fetched.instruction.rd.getD 0

/-- An unprivileged machine executes what stands at its program counter, and only a
system call may write a register besides. -/
theorem stepRecorded_of_unprivileged {vm : Vm} (unprivileged : vm.privileged = false)
    (silent : ∀ fetched, fetchDecode vm.memory vm.cpu.pc = .ok fetched →
      fetched.instruction = .ecall → vm.syscallResult.all (· = vm.cpu.readReg 10)) :
    vm.StepRecorded := by
  intro fetched prepared ready executed stands prepares fetches reg writes
  rw [prepare, unprivileged, if_neg Bool.false_ne_true, Option.some_inj] at prepares
  subst prepares
  have direct : translateFor { vm with lastFetched := none } vm.cpu.pc .execute =
      ({ vm with lastFetched := none }, some vm.cpu.pc) := by
    simp [translateFor, translationActive, unprivileged]
  simp only [fetch, direct, stands, FetchOutcome.fetched.injEq] at fetches
  obtain ⟨rfl, rfl⟩ := fetches
  change (vm.noteFetched fetched).destination fetched.instruction = some reg at writes
  by_cases isCall : fetched.instruction = .ecall
  · have kept : (vm.noteFetched fetched).destination .ecall = none :=
      if_pos (Or.inr (silent fetched stands isCall))
    rw [isCall, kept] at writes
    cases writes
  · have decoded : fetched.instruction.rd = some reg := by
      rw [← writes]
      generalize fetched.instruction = insn at isCall
      cases insn with
      | ecall => exact absurd rfl isCall
      | _ => rfl
    rw [decoded]
    exact Or.inr rfl

end Vm

/-! The accesses of the register ports. -/

/-- The accesses that the ports read off an exported row. -/
def portEntries (row : TraceRow) : List (Entry Fr Fr) :=
  registerPorts.list.map fun port =>
    ⟨row.columns (Fin.ofNat 83 port.regCol), row.columns (Fin.ofNat 83 port.valCol),
      port.isWrite⟩

def portLog (rows : List TraceRow) : List (Entry Fr Fr) := rows.flatMap portEntries

/-- The value of a register, embedded into the field. -/
def registerCell (cpu : CpuState) (reg : Fr) : Fr :=
  Scalar.fromU64 (cpu.readReg (BitVec.ofNat 5 reg.val))

/-- The cell with the number of a register. -/
def regCell (reg : Reg) : Fr := Scalar.fromU64 (reg.setWidth 64)

theorem portEntries_eq (row : TraceRow) :
    portEntries row = [⟨regCell row.rs1, Scalar.fromU64 row.rs1Val, false⟩,
      ⟨regCell row.rs2, Scalar.fromU64 row.rs2Val, false⟩,
      ⟨regCell row.rd, Scalar.fromU64 row.rdValAfter, true⟩] := rfl

theorem regCell_injective {first second : Reg} (same : regCell first = regCell second) :
    first = second := by
  have words := fromU64_injective same
  apply BitVec.eq_of_toNat_eq
  rw [← BitVec.toNat_setWidth_of_le (by decide : 5 ≤ 64), words,
    BitVec.toNat_setWidth_of_le (by decide)]

theorem registerCell_regCell (cpu : CpuState) (reg : Reg) :
    registerCell cpu (regCell reg) = Scalar.fromU64 (cpu.readReg reg) := by
  rw [registerCell, regCell, val_fromU64, BitVec.toNat_setWidth_of_le (by decide),
    BitVec.ofNat_toNat, BitVec.setWidth_eq]

/-- The log stands for the registers of a machine. -/
structure Tracks (start : CpuState) (log : List (Entry Fr Fr)) (cpu : CpuState) : Prop where
  honest : Honest (registerCell start) log
  registers : ∀ reg, contents (registerCell start) log (regCell reg) =
    Scalar.fromU64 (cpu.readReg reg)

section Log

variable {start : CpuState} {log : List (Entry Fr Fr)} {cpu after : CpuState}

theorem tracks_start : Tracks start [] start where
  honest := honest_nil
  registers := registerCell_regCell start

theorem Tracks.read (tracks : Tracks start log cpu) (reg : Reg) :
    Tracks start (log ++ [⟨regCell reg, Scalar.fromU64 (cpu.readReg reg), false⟩]) cpu where
  honest := tracks.honest.concat fun _ => (tracks.registers reg).symm
  registers := by
    rw [contents_concat_read rfl]
    exact tracks.registers

theorem Tracks.write (tracks : Tracks start log cpu) {rd : Reg}
    (others : ∀ reg, reg ≠ rd → after.readReg reg = cpu.readReg reg) :
    Tracks start (log ++ [⟨regCell rd, Scalar.fromU64 (after.readReg rd), true⟩]) after where
  honest := tracks.honest.concat fun reads => absurd reads Bool.true_eq_false.mp
  registers := by
    intro reg
    rw [contents_concat]
    by_cases here : reg = rd
    · subst here
      rw [if_pos ⟨rfl, rfl⟩]
    · rw [if_neg fun writes => here (regCell_injective writes.2).symm, tracks.registers,
        others reg here]

/-- Machines with the same registers are tracked by the same log. -/
theorem Tracks.same (tracks : Tracks start log cpu)
    (same : ∀ reg, after.readReg reg = cpu.readReg reg) : Tracks start log after where
  honest := tracks.honest
  registers := fun reg => by rw [same, tracks.registers]

end Log

/-! Runs of the tracing machine. -/

/-- What the machine reaches by steps that start from states of a kind. -/
inductive TracingVm.Run (kind : Vm → Prop) (start : Vm) : TracingVm → Prop
  | start : Run kind start (.new start)
  | step {tracer next : TracingVm} {result : Except VmError Unit} (before : Run kind start tracer)
      (isKind : kind tracer.vm) (stepped : tracer.step = some (next, result)) :
      Run kind start next

section Runs

variable {start : Vm}

theorem Tracks.step {tracer next : TracingVm} {result : Except VmError Unit}
    (recorded : tracer.vm.StepRecorded) (stepped : tracer.step = some (next, result))
    (tracks : Tracks start.cpu (portLog tracer.trace) tracer.vm.cpu) :
    Tracks start.cpu (portLog next.trace) next.vm.cpu := by
  rw [TracingVm.step] at stepped
  split at stepped
  · cases stepped
    exact tracks
  split at stepped
  · cases stepped
    exact tracks
  rename_i fetched stands
  obtain ⟨⟨after, outcome⟩, machine, recordedRow⟩ := Option.map_eq_some_iff.1 stepped
  cases outcome with
  | error e =>
      cases recordedRow
      refine tracks.same fun reg => Vm.step_readReg machine ?_
      intro _ _ _ _ _ returned
      cases returned
  | ok done =>
      cases recordedRow
      have others : ∀ reg, reg ≠ fetched.instruction.rd.getD 0 →
          after.cpu.readReg reg = tracer.vm.cpu.readReg reg := by
        intro reg differ
        by_cases zero : reg = 0
        · subst zero
          rfl
        refine Vm.step_readReg machine ?_
        intro prepared ready executed prepares fetches _ writes
        rcases recorded fetched prepared ready executed stands prepares fetches reg writes with
          isZero | isDestination
        · exact zero isZero
        · exact differ isDestination
      have ports := ((tracks.read (fetched.instruction.rs1.getD 0)).read
        (fetched.instruction.rs2.getD 0)).write others
      rw [List.append_assoc, List.append_assoc] at ports
      show Tracks start.cpu (portLog (tracer.trace ++ [_])) after.cpu
      rw [portLog, List.flatMap_append, List.flatMap_singleton, portEntries_eq]
      exact ports

/-- The ports of a run are honest, where every step writes only the register that its
row records. -/
theorem ports_honest {tracer : TracingVm} (run : tracer.Run Vm.StepRecorded start) :
    Honest (registerCell start.cpu) (portLog tracer.trace) := by
  have tracks : Tracks start.cpu (portLog tracer.trace) tracer.vm.cpu := by
    induction run with
    | start => exact tracks_start
    | step before recorded stepped hypothesis => exact hypothesis.step recorded stepped
  exact tracks.honest

end Runs

/-- A machine with the system call of a number in memory, and a copy of register 10
after it. -/
def callVm (syscall : Word) : Vm :=
  (Vm.new .new ((Memory.new.storeWord 0 0x00000073).storeWord 4 0x00050093)).writeReg 17 syscall

theorem callVm_stands (syscall : Word) :
    fetchDecode (callVm syscall).memory 0 = .ok ⟨.ecall, 4⟩ := by
  have stands : fetchDecode (callVm 0).memory 0 = .ok ⟨.ecall, 4⟩ := by decide
  exact stands

/-- A machine that loads five into register 1 and adds the register to itself. -/
def doublingVm : Vm :=
  .new .new ((Memory.new.storeWord 0 0x00500093).storeWord 4 0x00108133)

/-- The second row reads the register that the first one writes. -/
theorem doubling_ports_honest :
    ∃ tracer : TracingVm, tracer.Run Vm.StepRecorded doublingVm ∧ tracer.trace.length = 2 ∧
      tracer.vm.cpu.readReg 2 = 10 ∧
      Honest (registerCell doublingVm.cpu) (portLog tracer.trace) := by
  have recorded : ∀ {vm : Vm} {insn : Instruction}, vm.privileged = false →
      fetchDecode vm.memory vm.cpu.pc = .ok ⟨insn, 4⟩ → insn ≠ .ecall → vm.StepRecorded := by
    intro vm insn unprivileged stands other
    refine Vm.stepRecorded_of_unprivileged unprivileged fun fetched found isCall => ?_
    rw [stands, Except.ok.injEq] at found
    rw [← found] at isCall
    exact absurd isCall other
  have loads : fetchDecode doublingVm.memory doublingVm.cpu.pc =
      .ok ⟨.opImm .addi 1 0 5, 4⟩ := by decide
  have executes := @Vm.executes_noteFetched doublingVm _ rfl rfl loads
  obtain ⟨loaded, isLoaded⟩ : ∃ loaded, loaded =
    ((doublingVm.noteFetched ⟨.opImm .addi 1 0 5, 4⟩).execute (.opImm .addi 1 0 5)).1.retire :=
      ⟨_, rfl⟩
  obtain ⟨row, isRow⟩ : ∃ row, row =
    TraceRow.record 0 doublingVm loaded ⟨.opImm .addi 1 0 5, 4⟩ := ⟨_, rfl⟩
  have first : TracingVm.step (.new doublingVm) = some (⟨loaded, [row]⟩, .ok ()) := by
    rw [isRow, isLoaded]
    exact TracingVm.step_eq loads executes rfl
  have adds : fetchDecode loaded.memory loaded.cpu.pc = .ok ⟨.op .add 2 1 1, 4⟩ := by
    rw [isLoaded]
    decide
  have running : loaded.halted = false := by
    rw [isLoaded]
    rfl
  have unprivileged : loaded.privileged = false := by
    rw [isLoaded]
    rfl
  have next := Vm.executes_noteFetched running unprivileged adds
  have second := @TracingVm.step_eq ⟨loaded, [row]⟩ _ _ _ adds next rfl
  have run := TracingVm.Run.step (TracingVm.Run.step .start
    (recorded rfl loads (by decide)) first) (recorded unprivileged adds (by decide)) second
  have doubled : ((loaded.noteFetched ⟨.op .add 2 1 1, 4⟩).execute
      (.op .add 2 1 1)).1.retire.cpu.readReg 2 = 10 := by
    rw [isLoaded]
    decide
  exact ⟨_, run, rfl, doubled, ports_honest run⟩

/-- An unknown call writes register 10, and no port records it. -/
theorem ports_not_honest :
    ¬ ∀ (start : Vm) (tracer : TracingVm), tracer.Run (fun _ => True) start →
      Honest (registerCell start.cpu) (portLog tracer.trace) := by
  intro honest
  have executes := @Vm.executes_noteFetched (callVm 999) _ rfl rfl (callVm_stands 999)
  obtain ⟨called, isCalled⟩ :
    ∃ called, called = ((callVm 999).noteFetched ⟨.ecall, 4⟩).executeEcall.retire := ⟨_, rfl⟩
  obtain ⟨row, isRow⟩ : ∃ row, row = TraceRow.record 0 (callVm 999) called ⟨.ecall, 4⟩ :=
    ⟨_, rfl⟩
  have first : TracingVm.step (.new (callVm 999)) = some (⟨called, [row]⟩, .ok ()) := by
    rw [isRow, isCalled]
    exact TracingVm.step_eq (callVm_stands 999) executes rfl
  have stands : fetchDecode called.memory called.cpu.pc = .ok ⟨.opImm .addi 1 10 0, 4⟩ := by
    rw [isCalled]
    decide
  have running : called.halted = false := by
    rw [isCalled]
    rfl
  have unprivileged : called.privileged = false := by
    rw [isCalled]
    rfl
  have next := Vm.executes_noteFetched running unprivileged stands
  have second := @TracingVm.step_eq ⟨called, [row]⟩ _ _ _ stands next rfl
  have accesses := honest _ _ (.step (.step .start trivial first) trivial second)
  have read := accesses (portEntries row)
    ⟨regCell 10, Scalar.fromU64 (called.cpu.readReg 10), false⟩ _ rfl rfl
  have result : called.cpu.readReg 10 = -38 := by
    rw [isCalled]
    decide
  have unwritten : contents (registerCell (callVm 999).cpu) (portEntries row) (regCell 10) =
      Scalar.fromU64 0 := by
    have other : regCell 0 ≠ regCell 10 := fun same =>
      absurd (regCell_injective same) (by decide)
    have entries : portEntries row = [⟨regCell 0, Scalar.fromU64 0, false⟩] ++
        [⟨regCell 0, Scalar.fromU64 0, false⟩] ++ [⟨regCell 0, Scalar.fromU64 0, true⟩] := by
      rw [isRow]
      rfl
    rw [entries, contents_concat, if_neg fun writes => other writes.2,
      contents_concat_read rfl, ← List.nil_append [_], contents_concat_read rfl, contents_nil,
      registerCell_regCell]
    rfl
  rw [result] at read
  exact absurd (fromU64_injective (read.trans unwritten)) (by decide)

end MetaVm.Riscv
