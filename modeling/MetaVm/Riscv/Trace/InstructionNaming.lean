import MetaVm.Riscv.Trace.TracerAgreement

namespace MetaVm.Riscv

/-! Whether a row names the instruction that ran. Its program counter is the one before
the devices tick and an interrupt is taken, its instruction is fetched after that. -/

/-- The row's instruction stood, before the step, at the translation of the row's program
counter, and running it there gives the row's register and next program counter. -/
def TraceRow.NamesInstruction (row : TraceRow) (vm : Vm) : Prop :=
  ∃ ticked translated pa, vm.tick = some ticked ∧
    ticked.translateFor row.pc .execute = (translated, some pa) ∧
    fetchDecode vm.memory pa = .ok ⟨row.instruction, row.insnLen⟩ ∧
    let ran := ((translated.noteFetched ⟨row.instruction, row.insnLen⟩).execute
      row.instruction).1
    ran.cpu.readReg row.rd = row.rdValAfter ∧ ran.cpu.pc = row.nextPc

namespace Vm

/-- Ticking and translating leave the instruction that is fetched as it was. -/
def KeepsCode (vm ticked : Vm) : Prop :=
  ∀ translated pa, ticked.translateFor ticked.cpu.pc .execute = (translated, some pa) →
    fetchDecode vm.memory pa = fetchDecode translated.memory pa

/-- An instruction gives both machines one register and one program counter. -/
def SameRun (interrupted handler : Vm) (insn : Instruction) : Prop :=
  let one := (interrupted.execute insn).1.cpu
  let other := (handler.execute insn).1.cpu
  one.readReg (insn.rd.getD 0) = other.readReg (insn.rd.getD 0) ∧ one.pc = other.pc

/-- What only computes on registers has one effect on both machines where both stand at one place,
a jump that links nowhere also elsewhere. What accesses memory or the control registers is run. -/
def SameEffect (interrupted handler : Vm) (insn : Instruction) : Prop :=
  match insn with
  | .lui _ _ | .auipc _ _ | .jal _ _ | .branch _ _ _ _ | .opImm _ _ _ _ | .op _ _ _ _
  | .opImmW _ _ _ _ | .opW _ _ _ _ | .mulDiv _ _ _ _ | .fence _ _ | .fenceI =>
      interrupted.cpu.pc = handler.cpu.pc
  | .jalr rd _ _ => rd = 0 ∨ interrupted.cpu.pc = handler.cpu.pc
  | insn => interrupted.SameRun handler insn

/-- An interrupt handler begins with a copy of the interrupted instruction, which has the same
effect at the trap vector as at the interrupted place. -/
def HandlerCopies (vm ticked : Vm) : Prop :=
  ∀ ready fetched, ticked.takeInterrupt.fetch = .fetched ready fetched →
    ∃ translated pa, ticked.translateFor ticked.cpu.pc .execute = (translated, some pa) ∧
      fetchDecode vm.memory pa = .ok fetched ∧
      (translated.noteFetched fetched).SameEffect ready fetched.instruction

/-- No interrupt comes before the fetch and the code is kept, or the handler copies the
code. -/
def Undisturbed (vm : Vm) : Prop :=
  ∀ ticked, vm.tick = some ticked →
    match ticked.pendingInterrupt with
    | none => vm.KeepsCode ticked
    | some _ => vm.HandlerCopies ticked

section Effect

variable {interrupted handler : Vm} {rd : Reg} {val otherVal pc otherPc : Word}

/-- A register that is written reads alike where the values are alike. -/
theorem readReg_written (nonzero : rd ≠ 0) :
    ((interrupted.writeReg rd val).setPc pc).cpu.readReg rd =
      ((handler.writeReg rd otherVal).setPc otherPc).cpu.readReg rd ↔ val = otherVal := by
  have one : ((interrupted.writeReg rd val).setPc pc).cpu.readReg rd = val :=
    CpuState.readReg_writeReg _ nonzero _
  have other : ((handler.writeReg rd otherVal).setPc otherPc).cpu.readReg rd = otherVal :=
    CpuState.readReg_writeReg _ nonzero _
  rw [one, other]

theorem written_iff (same : pc = otherPc → val = otherVal) :
    ((interrupted.writeReg rd val).setPc pc).cpu.readReg rd =
        ((handler.writeReg rd otherVal).setPc otherPc).cpu.readReg rd ∧ pc = otherPc ↔
      pc = otherPc := by
  refine and_iff_right_of_imp fun equal => ?_
  by_cases zero : rd = 0
  · rw [zero]
    rfl
  · exact (readReg_written zero).2 (same equal)

variable (x : interrupted.cpu.x = handler.cpu.x) (len : interrupted.insnLen = handler.insnLen)
include len

theorem sequentialPc_eq_iff : interrupted.sequentialPc = handler.sequentialPc ↔
    interrupted.cpu.pc = handler.cpu.pc := by
  rw [sequentialPc, sequentialPc, len]
  exact add_left_inj _

include x

/-- With the same registers an instruction that only computes has the same effect at the same
place only. -/
theorem sameEffect_iff (insn : Instruction) :
    interrupted.SameEffect handler insn ↔ interrupted.SameRun handler insn := by
  have reads := readReg_of_x x
  have next := sequentialPc_eq_iff len
  cases insn with
  | lui rd imm => exact ((written_iff fun _ => rfl).trans next).symm
  | auipc rd imm =>
      refine ((written_iff fun same => ?_).trans next).symm
      rw [next.1 same]
  | jal rd imm =>
      refine ((written_iff fun same => ?_).trans (add_left_inj imm.word)).symm
      exact next.2 ((add_left_inj imm.word).1 same)
  | opImm op rd rs1 imm | opImmW op rd rs1 imm =>
      refine ((written_iff fun _ => ?_).trans next).symm
      rw [reads]
  | op op rd rs1 rs2 | opW op rd rs1 rs2 | mulDiv op rd rs1 rs2 =>
      refine ((written_iff fun _ => ?_).trans next).symm
      rw [reads, reads]
  | fence _ _ | fenceI => exact next.symm.trans (and_iff_right rfl).symm
  | branch op rs1 rs2 imm =>
      refine Iff.trans ?_ (and_iff_right rfl).symm
      show _ ↔ (if op.taken (interrupted.cpu.readReg rs1) (interrupted.cpu.readReg rs2)
          then interrupted.cpu.pc + imm.word else interrupted.sequentialPc) =
        if op.taken (handler.cpu.readReg rs1) (handler.cpu.readReg rs2)
          then handler.cpu.pc + imm.word else handler.sequentialPc
      rw [reads, reads]
      split
      · exact (add_left_inj imm.word).symm
      · exact next.symm
  | jalr rd rs1 imm =>
      have target : (interrupted.cpu.readReg rs1 + imm.word) &&& ~~~1 =
          (handler.cpu.readReg rs1 + imm.word) &&& ~~~1 := by rw [reads]
      refine Iff.trans ?_ (and_iff_left target).symm
      by_cases zero : rd = 0
      · rw [zero]
        exact iff_of_true (.inl rfl) rfl
      · exact (or_iff_right zero).trans (next.symm.trans (readReg_written zero).symm)
  | _ => exact Iff.rfl

end Effect

variable {vm ticked : Vm}

/-- The machine after the tick is determined. -/
theorem undisturbed_iff (ticks : vm.tick = some ticked) :
    vm.Undisturbed ↔
      match ticked.pendingInterrupt with
      | none => vm.KeepsCode ticked
      | some _ => vm.HandlerCopies ticked := by
  constructor
  · intro undisturbed
    exact undisturbed ticked ticks
  · intro holds other otherTicks
    cases ticks.symm.trans otherTicks
    exact holds

/-- A recorded row names the instruction that ran exactly where the step is
undisturbed. -/
theorem namesInstruction_iff {prepared ready after : Vm} {fetched : FetchedInstruction}
    (prepares : vm.prepare = some prepared) (fetches : prepared.fetch = .fetched ready fetched)
    (ran : ready.execute fetched.instruction = (after, .ok ())) (step : ℕ) :
    (TraceRow.recordBorrowed step vm after.retire fetched).NamesInstruction vm ↔
      vm.Undisturbed := by
  rw [prepare_eq] at prepares
  obtain ⟨ticked, ticks, rfl⟩ := Option.map_eq_some_iff.1 prepares
  have samePc : vm.cpu.pc = ticked.cpu.pc := (tick_pc ticks).symm
  have ended : (ready.execute fetched.instruction).1 = after := by rw [ran]
  have names : (TraceRow.recordBorrowed step vm after.retire fetched).NamesInstruction vm ↔
      ∃ translated pa, ticked.translateFor ticked.cpu.pc .execute = (translated, some pa) ∧
        fetchDecode vm.memory pa = .ok fetched ∧
        let interrupted := ((translated.noteFetched fetched).execute fetched.instruction).1.cpu
        interrupted.readReg (fetched.instruction.rd.getD 0) =
            after.cpu.readReg (fetched.instruction.rd.getD 0) ∧
          interrupted.pc = after.cpu.pc := by
    have recorded : after.retire.cpu.readReg (fetched.instruction.rd.getD 0) =
        after.cpu.readReg (fetched.instruction.rd.getD 0) := readReg_of_x (retire_x after) _
    have next : after.retire.cpu.pc = after.cpu.pc := retire_pc after
    rw [← samePc, ← recorded, ← next]
    constructor
    · rintro ⟨other, translated, pa, otherTicks, rest⟩
      cases ticks.symm.trans otherTicks
      exact ⟨translated, pa, rest⟩
    · rintro ⟨translated, pa, rest⟩
      exact ⟨ticked, translated, pa, ticks, rest⟩
  rw [names]
  rw [undisturbed_iff ticks]
  cases interrupt : ticked.pendingInterrupt with
  | none =>
      have calm : ticked.takeInterrupt = ticked := by rw [takeInterrupt, interrupt]
      rw [calm] at fetches
      obtain ⟨translated, pa, translates, decodes, rfl⟩ := fetch_translated fetches
      constructor
      · rintro ⟨other, otherPa, otherTranslates, stood, -⟩ again againPa againTranslates
        cases translates.symm.trans otherTranslates
        cases translates.symm.trans againTranslates
        rw [stood, decodes]
      · intro keeps
        refine ⟨translated, pa, translates, ?_, ?_⟩
        · rw [keeps translated pa translates, decodes]
        · rw [ended]
          exact ⟨rfl, rfl⟩
  | some cause =>
      have effect {translated : Vm} {pa : Word}
          (translates : ticked.translateFor ticked.cpu.pc .execute = (translated, some pa)) :
          (translated.noteFetched fetched).SameEffect ready fetched.instruction ↔
            (translated.noteFetched fetched).SameRun ready fetched.instruction := by
        have registers : (translated.noteFetched fetched).cpu.x = ready.cpu.x := by
          rw [noteFetched, translateFor_cpu translates, (fetch_frame fetches).1, takeInterrupt, interrupt]
          exact (deliverTrap_x _ _ _ _).symm
        exact sameEffect_iff registers (fetch_frame fetches).2.symm fetched.instruction
      rw [← ended]
      constructor
      · rintro ⟨translated, pa, translates, stood, ran⟩ other otherFetched otherFetches
        cases fetches.symm.trans otherFetches
        exact ⟨translated, pa, translates, stood, (effect translates).2 ran⟩
      · intro copies
        obtain ⟨translated, pa, translates, stood, same⟩ := copies ready fetched fetches
        exact ⟨translated, pa, translates, stood, (effect translates).1 same⟩

end Vm

/-- A step that records a row names the instruction that ran exactly where it is
undisturbed. -/
theorem row_namesInstruction_iff {tracer : TracingVmBorrowed} {after : Vm} {row : TraceRow}
    {result : Except VmError Unit}
    (stepped : tracer.step = some (⟨after, tracer.trace ++ [row]⟩, result)) :
    row.NamesInstruction tracer.vm ↔ tracer.vm.Undisturbed := by
  obtain ⟨prepared, ready, ran, fetched, prepares, fetches, executes, -, rfl⟩ :=
    TracingVmBorrowed.row_executed stepped
  exact Vm.namesInstruction_iff prepares fetches executes tracer.trace.length

/-- A machine with a timer interrupt pending: `addi x1, x0, 1` stands at its program
counter and `addi x2, x0, 2` at its trap vector. -/
def timerVm : Vm :=
  let csrs := ((CsrFile.new.writeUnchecked Addr.mtvec 0x100).writeUnchecked Addr.mie
    Interrupt.mtip).writeUnchecked Addr.mstatus Mstatus.mie
  .newPrivileged { CpuState.new with csrs := csrs }
    ((Memory.new.storeWord 0 0x00100093).storeWord 0x100 0x00200113)

/-- The row of an interrupted step has the instruction of the handler next to the
program counter of the interrupted one. -/
theorem interrupted_row_misnames :
    ¬ ∀ (tracer : TracingVmBorrowed) (after : Vm) (row : TraceRow)
      (result : Except VmError Unit),
      tracer.step = some (⟨after, tracer.trace ++ [row]⟩, result) →
        row.NamesInstruction tracer.vm := by
  intro names
  have prepares : (timerVm.prepare.map fun vm =>
      (fetchDecode vm.memory vm.cpu.pc, vm.translationActive)) =
        some (.ok ⟨.opImm .addi 2 0 2, 4⟩, false) := by decide
  obtain ⟨prepared, isPrepared, facts⟩ := Option.map_eq_some_iff.1 prepares
  obtain ⟨stands, inactive⟩ := Prod.mk.inj facts
  have fetches := Vm.fetch_of_inactive inactive stands
  have stepped := @TracingVmBorrowed.step_executed ⟨timerVm, []⟩ _ _ _ _ rfl isPrepared fetches
    rfl
  obtain ⟨ticked, translated, pa, ticks, translates, stood, -⟩ := names _ _ _ _ stepped
  have physical : (timerVm.tick.map Vm.translationActive) = some false := by decide
  rw [show timerVm.tick = some ticked from ticks, Option.map_some, Option.some_inj] at physical
  have direct : ticked.translateFor 0 .execute = (ticked, some 0) :=
    if_neg (ne_true_of_eq_false physical)
  cases direct.symm.trans translates
  have interrupted : fetchDecode timerVm.memory 0 = .ok ⟨.opImm .addi 1 0 1, 4⟩ := by
    decide
  cases interrupted.symm.trans stood

/-- An unprivileged addition is named by its row. -/
theorem addition_row_names :
    let vm := Vm.new .new (Memory.new.storeWord 0 0x00100093)
    ∃ after row result, TracingVmBorrowed.step ⟨vm, []⟩ = some (⟨after, [row]⟩, result) ∧
      row.NamesInstruction vm := by
  intro vm
  have stands : fetchDecode vm.memory vm.cpu.pc = .ok ⟨.opImm .addi 1 0 1, 4⟩ := by
    decide
  have fetches := @Vm.fetch_of_inactive vm rfl _ stands
  have stepped := @TracingVmBorrowed.step_executed ⟨vm, []⟩ _ _ _ _ rfl rfl fetches rfl
  refine ⟨_, _, _, stepped, (row_namesInstruction_iff stepped).2 ?_⟩
  intro ticked ticks
  cases ticks
  have keeps : vm.KeepsCode vm := by
    intro translated pa translates
    cases translates
    rfl
  exact keeps

end MetaVm.Riscv
