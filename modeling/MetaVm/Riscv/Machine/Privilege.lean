import MetaVm.Riscv.Machine.Stepping

namespace MetaVm.Riscv

/-! When a step raises the privilege level. -/

namespace CpuState

/-- A trap was entered from `before`: the program counter is where the vector of the new
level sends a cause, and the level's registers record the cause and where it arose. -/
def TrapEntered (before after : CpuState) : Prop :=
  ∃ cause : TrapCause,
    match after.privMode with
    | .machine =>
        after.pc = trapTarget (after.csrs.readUnchecked Addr.mtvec) cause ∧
          after.csrs.readUnchecked Addr.mepc = before.pc ∧
          after.csrs.readUnchecked Addr.mcause = cause.toCauseValue
    | .supervisor =>
        after.pc = trapTarget (after.csrs.readUnchecked Addr.stvec) cause ∧
          after.csrs.readUnchecked Addr.sepc = before.pc ∧
          after.csrs.readUnchecked Addr.scause = cause.toCauseValue
    | .user => False

/-- The level does not rise, or a trap was entered. -/
def RaisedOnlyByTrap (before after : CpuState) : Prop :=
  after.privMode.bits ≤ before.privMode.bits ∨ before.TrapEntered after

theorem raisedOnlyByTrap_of_same {before after : CpuState}
    (same : after.privMode = before.privMode) : before.RaisedOnlyByTrap after := by
  left
  rw [same]
  exact BitVec.le_refl _

theorem trapEntered_deliverTrap (cpu : CpuState) (cause : TrapCause) (tval : Word) :
    cpu.TrapEntered (deliverTrap cpu cause tval cpu.pc) := by
  rw [deliverTrap]
  by_cases delegates : delegated cpu cause = true
  · rw [if_pos delegates]
    exact ⟨cause, rfl, rfl, rfl⟩
  · rw [if_neg delegates]
    exact ⟨cause, rfl, rfl, rfl⟩

end CpuState

namespace Vm

/-- The level named by the field of `mstatus` that `mret` returns to. -/
def mretLevel (vm : Vm) : PrivilegeMode :=
  .fromBits ((vm.cpu.csrs.readUnchecked Addr.mstatus &&& Mstatus.mppMask) >>>
    Mstatus.mppShift)

/-- The level named by the bit of `mstatus` that `sret` returns to. -/
def sretLevel (vm : Vm) : PrivilegeMode :=
  .fromBits (if vm.cpu.csrs.readUnchecked Addr.mstatus &&& Mstatus.spp ≠ 0 then 1 else 0)

/-- A return to a level from a return address raises no level, or the address is where
the level's trap vector sends the cause that its registers already record at this very
instruction. -/
def ReturnAllowed (vm : Vm) (level : PrivilegeMode) (target : Word) : Prop :=
  level.bits ≤ vm.cpu.privMode.bits ∨
    vm.cpu.TrapEntered { vm.cpu with privMode := level, pc := target }

/-- A return from a trap that the machine is about to execute is allowed. -/
def ReturnsAllowed (vm : Vm) : Prop :=
  ∀ ready fetched, vm.fetch = .fetched ready fetched →
    (fetched.instruction = .mret →
      vm.ReturnAllowed vm.mretLevel (vm.cpu.csrs.readUnchecked Addr.mepc)) ∧
    (fetched.instruction = .sret → vm.supervisorBars Mstatus.tsr = false →
      vm.ReturnAllowed vm.sretLevel (vm.cpu.csrs.readUnchecked Addr.sepc))

variable {vm after : Vm}

/-- A page fault enters a trap. -/
theorem translateFor_fault {vaddr : Word} {accessType : AccessType}
    (fault : vm.translateFor vaddr accessType = (after, none)) :
    vm.cpu.TrapEntered after.cpu := by
  unfold translateFor at fault
  split at fault
  · simp only [translateAddr] at fault
    split at fault
    · cases fault
    · split at fault
      · cases fault
      · cases fault
        exact CpuState.trapEntered_deliverTrap _ _ _
  · cases fault

theorem fetch_trapped_entered {trapped : Vm} (fault : vm.fetch = .trapped trapped) :
    vm.cpu.TrapEntered trapped.cpu := by
  simp only [fetch] at fault
  split at fault
  · rename_i faulted translates
    cases fault
    exact @translateFor_fault { vm with lastFetched := none } _ _ _ translates
  · rename_i translated fetchPc translates
    have same : translated.cpu = vm.cpu :=
      @translateFor_cpu { vm with lastFetched := none } _ _ _ _ translates
    split at fault
    · cases fault
    · split at fault
      · cases fault
        rw [trap, same]
        exact CpuState.trapEntered_deliverTrap _ _ _
      · cases fault

theorem raisedOnlyByTrap_retire {before : CpuState} :
    before.RaisedOnlyByTrap after.retire.cpu ↔ before.RaisedOnlyByTrap after.cpu := by
  unfold retire
  split
  · exact Iff.rfl
  · exact Iff.rfl

/-- Instructions other than returns raise the level only by a trap. -/
theorem Effect.raisedOnlyByTrap {insn : Instruction} (effect : vm.Effect insn after)
    (noMret : insn ≠ .mret) (noSret : insn ≠ .sret) : vm.cpu.RaisedOnlyByTrap after.cpu := by
  cases effect with
  | runs keeps => exact CpuState.raisedOnlyByTrap_of_same keeps.privMode
  | accesses _ translates keeps =>
      apply CpuState.raisedOnlyByTrap_of_same
      rw [keeps.privMode, translateFor_cpu translates]
  | faults fault => exact .inr (translateFor_fault fault)
  | traps cause => exact .inr (CpuState.trapEntered_deliverTrap _ _ _)
  | writesCsr _ keeps => exact CpuState.raisedOnlyByTrap_of_same keeps.privMode
  | returnsMachine => exact absurd rfl noMret
  | returnsSupervisor => exact absurd rfl noSret
  | flushes pc => exact CpuState.raisedOnlyByTrap_of_same rfl

/-! The two returns. -/

theorem executeMret_raised_iff (vm : Vm) :
    vm.cpu.RaisedOnlyByTrap vm.executeMret.cpu ↔
      vm.ReturnAllowed vm.mretLevel (vm.cpu.csrs.readUnchecked Addr.mepc) := by
  have entered : vm.cpu.TrapEntered vm.executeMret.cpu ↔
      vm.cpu.TrapEntered { vm.cpu with
        privMode := vm.mretLevel
        pc := vm.cpu.csrs.readUnchecked Addr.mepc } := by
    have level : vm.executeMret.cpu.privMode = vm.mretLevel := rfl
    unfold CpuState.TrapEntered
    rw [level]
    cases vm.mretLevel <;> exact Iff.rfl
  exact or_congr Iff.rfl entered

theorem executeSret_raised_iff (allowed : vm.supervisorBars Mstatus.tsr = false) :
    vm.cpu.RaisedOnlyByTrap vm.executeSret.cpu ↔
      vm.ReturnAllowed vm.sretLevel (vm.cpu.csrs.readUnchecked Addr.sepc) := by
  have returned : vm.executeSret.cpu.privMode = vm.sretLevel ∧
      vm.executeSret.cpu.pc = vm.cpu.csrs.readUnchecked Addr.sepc ∧
      ∀ csr ∈ [Addr.mtvec, Addr.mepc, Addr.mcause, Addr.stvec, Addr.sepc, Addr.scause],
        vm.executeSret.cpu.csrs.readUnchecked csr = vm.cpu.csrs.readUnchecked csr := by
    rw [executeSret, if_neg (ne_true_of_eq_false allowed)]
    refine ⟨rfl, rfl, ?_⟩
    intro csr listed
    fin_cases listed <;> rfl
  obtain ⟨level, target, kept⟩ := returned
  have entered : vm.cpu.TrapEntered vm.executeSret.cpu ↔
      vm.cpu.TrapEntered { vm.cpu with
        privMode := vm.sretLevel
        pc := vm.cpu.csrs.readUnchecked Addr.sepc } := by
    unfold CpuState.TrapEntered
    rw [level, target]
    cases vm.sretLevel with
    | machine =>
        rw [kept Addr.mtvec (by decide), kept Addr.mepc (by decide), kept Addr.mcause (by decide)]
    | supervisor =>
        rw [kept Addr.stvec (by decide), kept Addr.sepc (by decide), kept Addr.scause (by decide)]
    | user => exact Iff.rfl
  have lower : vm.executeSret.cpu.privMode.bits ≤ vm.cpu.privMode.bits ↔
      vm.sretLevel.bits ≤ vm.cpu.privMode.bits := by rw [level]
  exact or_congr lower entered

/-- What a step does after its interrupt check raises the level only by a trap exactly
where the return it executes, if any, is allowed. -/
theorem stepInner_raised_iff (vm : Vm) :
    vm.cpu.RaisedOnlyByTrap vm.stepInner.1.cpu ↔ vm.ReturnsAllowed := by
  cases fetches : vm.fetch with
  | trapped trapped =>
      refine iff_of_true ?_ ?_
      · rw [stepInner, fetches]
        exact .inr (fetch_trapped_entered fetches)
      · intro ready fetched found
        cases fetches.symm.trans found
  | failed failed e =>
      refine iff_of_true ?_ ?_
      · rw [stepInner, fetches]
        apply CpuState.raisedOnlyByTrap_of_same
        exact congrArg CpuState.privMode (fetch_failed_cpu fetches)
      · intro ready fetched found
        cases fetches.symm.trans found
  | fetched ready fetched =>
      obtain ⟨translated, pa, translates, -, isReady⟩ := fetch_translated fetches
      have sameCpu : ready.cpu = vm.cpu := (fetch_frame fetches).1
      have samePrivileged : ready.privileged = vm.privileged := by
        have kept := vm.translateFor_privileged vm.cpu.pc .execute
        rw [translates] at kept
        rw [isReady]
        exact kept
      have sameBars : ready.supervisorBars Mstatus.tsr = vm.supervisorBars Mstatus.tsr := by
        rw [supervisorBars, supervisorBars, sameCpu, samePrivileged]
      have sameLevels : ready.mretLevel = vm.mretLevel ∧ ready.sretLevel = vm.sretLevel := by
        rw [mretLevel, sretLevel, mretLevel, sretLevel, sameCpu]
        exact ⟨rfl, rfl⟩
      have allowed : vm.ReturnsAllowed ↔
          (fetched.instruction = .mret → ready.ReturnAllowed ready.mretLevel
            (ready.cpu.csrs.readUnchecked Addr.mepc)) ∧
          (fetched.instruction = .sret → ready.supervisorBars Mstatus.tsr = false →
            ready.ReturnAllowed ready.sretLevel
              (ready.cpu.csrs.readUnchecked Addr.sepc)) := by
        rw [sameBars, sameLevels.1, sameLevels.2, ReturnAllowed, ReturnAllowed, sameCpu]
        constructor
        · intro returns
          exact returns ready fetched fetches
        · intro returns other otherFetched found
          cases fetches.symm.trans found
          exact returns
      have inner : vm.cpu.RaisedOnlyByTrap vm.stepInner.1.cpu ↔
          ready.cpu.RaisedOnlyByTrap (ready.execute fetched.instruction).1.cpu := by
        rw [stepInner, fetches, sameCpu]
        cases ran : ready.execute fetched.instruction with
        | mk ended result =>
            cases result with
            | ok done =>
                simp only [ran]
                exact raisedOnlyByTrap_retire
            | error e => simp only [ran]
      rw [allowed, inner]
      by_cases isMret : fetched.instruction = .mret
      · rw [isMret, and_iff_left (fun isSret => by cases isSret), imp_iff_right rfl]
        exact executeMret_raised_iff ready
      rw [and_iff_right (fun is => absurd is isMret)]
      by_cases isSret : fetched.instruction = .sret
      · rw [isSret, imp_iff_right rfl]
        by_cases barred : ready.supervisorBars Mstatus.tsr = true
        · refine iff_of_true ?_ fun allowed => absurd barred (ne_true_of_eq_false allowed)
          simp only [execute, executeSret, if_pos barred]
          exact .inr (CpuState.trapEntered_deliverTrap _ _ _)
        · have free := Bool.eq_false_of_not_eq_true barred
          rw [imp_iff_right free]
          exact executeSret_raised_iff free
      · refine iff_of_true ?_ fun is => absurd is isSret
        exact (ready.execute_effect fetched.instruction).raisedOnlyByTrap isMret isSret

/-! A whole step: the interrupt check, then the instruction. -/

theorem tick_privMode {ticked : Vm} (ticks : vm.tick = some ticked) :
    ticked.cpu.privMode = vm.cpu.privMode := by
  rw [tick] at ticks
  split at ticks
  · simp only [tickDevices] at ticks
    obtain ⟨processed, _, rfl⟩ := Option.map_eq_some_iff.1 ticks
    rfl
  · cases ticks
    rfl

/-- An interrupt enters a trap. -/
theorem prepare_raised {prepared : Vm} (prepares : vm.prepare = some prepared) :
    vm.cpu.RaisedOnlyByTrap prepared.cpu := by
  rw [prepare_eq] at prepares
  obtain ⟨ticked, ticks, rfl⟩ := Option.map_eq_some_iff.1 prepares
  rw [takeInterrupt]
  split
  · right
    rw [CpuState.TrapEntered, ← tick_pc ticks]
    exact CpuState.trapEntered_deliverTrap ticked.cpu _ _
  · exact CpuState.raisedOnlyByTrap_of_same (tick_privMode ticks)

/-- One call of `step` raises the privilege level only by entering traps, at the interrupt
check and at the instruction after it. -/
def StepMonotone (vm : Vm) : Prop :=
  ∀ after result, vm.step = some (after, result) →
    vm.halted = true ∧ after = vm ∨
      ∃ prepared, vm.prepare = some prepared ∧ vm.cpu.RaisedOnlyByTrap prepared.cpu ∧
        prepared.cpu.RaisedOnlyByTrap after.cpu

/-- A step raises the level only by traps exactly where the return that it executes, if
any, is allowed. -/
theorem stepMonotone_iff (vm : Vm) :
    vm.StepMonotone ↔
      vm.halted = true ∨ ∀ prepared, vm.prepare = some prepared → prepared.ReturnsAllowed := by
  by_cases halted : vm.halted = true
  · refine iff_of_true ?_ (.inl halted)
    intro after result stepped
    rw [step, if_pos halted] at stepped
    cases stepped
    exact .inl ⟨halted, rfl⟩
  rw [or_iff_right halted]
  constructor
  · intro monotone prepared prepares
    have stepped := step_of_prepare (Bool.eq_false_of_not_eq_true halted) prepares
    rcases monotone _ _ stepped with ⟨isHalted, -⟩ | ⟨other, otherPrepares, -, raised⟩
    · exact absurd isHalted halted
    · cases prepares.symm.trans otherPrepares
      exact prepared.stepInner_raised_iff.1 raised
  · intro allowed after result stepped
    rw [step, if_neg halted] at stepped
    obtain ⟨prepared, prepares, inner⟩ := Option.map_eq_some_iff.1 stepped
    have raised := prepared.stepInner_raised_iff.2 (allowed prepared prepares)
    rw [inner] at raised
    exact .inr ⟨prepared, prepares, prepare_raised prepares, raised⟩

/-- A user program at `mret`, where the machine would return to itself at `0x200`. -/
def userMretVm : Vm :=
  let csrs := (CsrFile.new.writeUnchecked Addr.mstatus Mstatus.mppMask).writeUnchecked
    Addr.mepc 0x200
  .newPrivileged { CpuState.new with privMode := .user, csrs := csrs }
    (Memory.new.storeWord 0 0x30200073)

/-- In user mode `mret` raises the level to machine mode at an address of no trap. -/
theorem mret_raises :
    ¬ ∀ vm : Vm, vm.privileged = true → vm.cpu.privMode ≠ .machine → vm.StepMonotone := by
  intro monotone
  have ran : (userMretVm.prepare.map fun vm =>
      (vm.cpu.privMode, vm.stepInner.1.cpu.privMode, vm.stepInner.1.cpu.pc,
        vm.stepInner.1.cpu.csrs.readUnchecked Addr.mepc, vm.cpu.pc)) =
          some (.user, .machine, 0x200, 0x200, 0) := by decide
  obtain ⟨prepared, prepares, facts⟩ := Option.map_eq_some_iff.1 ran
  simp only [Prod.mk.injEq] at facts
  obtain ⟨before, level, -, epc, origin⟩ := facts
  have stepped : userMretVm.step = some prepared.stepInner := step_of_prepare rfl prepares
  rcases monotone userMretVm rfl (by decide) prepared.stepInner.1 prepared.stepInner.2 stepped
    with ⟨isHalted, -⟩ | ⟨other, otherPrepares, -, raised⟩
  · exact absurd isHalted (by decide)
  obtain rfl : prepared = other := Option.some.inj (prepares.symm.trans otherPrepares)
  rcases raised with lower | ⟨cause, entered⟩
  · rw [level, before] at lower
    exact absurd lower (by decide)
  · rw [level] at entered
    obtain ⟨-, recorded, -⟩ := entered
    rw [epc, origin] at recorded
    exact absurd recorded (by decide)

end Vm

end MetaVm.Riscv
