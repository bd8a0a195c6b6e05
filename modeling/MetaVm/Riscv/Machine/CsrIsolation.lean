import MetaVm.Riscv.Machine.Cpu
import MetaVm.Riscv.Machine.Vm

namespace MetaVm.Riscv

/-! Control registers of the machine level, under the instructions of the levels below it. -/

/-- The machine's registers, and the parts of shared registers that only it may write. -/
structure Isolated (before after : CsrFile) : Prop where
  mstatus : after.regs Addr.mstatus &&& ~~~Mstatus.sstatusMask =
    before.regs Addr.mstatus &&& ~~~Mstatus.sstatusMask
  mie : after.regs Addr.mie &&& ~~~Interrupt.sMask =
    before.regs Addr.mie &&& ~~~Interrupt.sMask
  mip : after.regs Addr.mip &&& ~~~Interrupt.ssip = before.regs Addr.mip &&& ~~~Interrupt.ssip
  others : ∀ csr, requiredPrivilege csr = .machine → csr ≠ Addr.mstatus → csr ≠ Addr.mie →
    csr ≠ Addr.mip → after.regs csr = before.regs csr

section Writes

variable {csrs after : CsrFile} {csr : CsrAddr} {val old mask : Word} {mode : PrivilegeMode}

theorem Isolated.refl (csrs : CsrFile) : Isolated csrs csrs := ⟨rfl, rfl, rfl, fun _ _ _ _ _ => rfl⟩

theorem maskedWrite_outside : maskedWrite old val mask &&& ~~~mask = old &&& ~~~mask := by
  apply BitVec.eq_of_getLsbD_eq
  intro index bounded
  simp only [maskedWrite, BitVec.getLsbD_and, BitVec.getLsbD_or, BitVec.getLsbD_not,
    decide_eq_true bounded, Bool.true_and]
  cases mask.getLsbD index <;> simp

theorem isolated_setReg (low : requiredPrivilege csr ≠ .machine) (csrs : CsrFile) (val : Word) :
    Isolated csrs (csrs.setReg csr val) := by
  have kept (other : CsrAddr) (high : requiredPrivilege other = .machine) :
      (csrs.setReg csr val).regs other = csrs.regs other := by
    apply Function.update_of_ne
    rintro rfl
    exact low high
  refine ⟨?_, ?_, ?_, fun other high _ _ _ => kept other high⟩
  · rw [kept Addr.mstatus (by decide)]
  · rw [kept Addr.mie (by decide)]
  · rw [kept Addr.mip (by decide)]

/-- A masked write to one of the shared registers, seen from another register. -/
theorem setReg_regs_of_ne {other : CsrAddr} (differs : other ≠ csr) :
    (csrs.setReg csr val).regs other = csrs.regs other :=
  Function.update_of_ne differs _ _

theorem setReg_regs_self : (csrs.setReg csr val).regs csr = val := Function.update_self _ _ _

theorem isolated_writeUnchecked (low : requiredPrivilege csr ≠ .machine) (csrs : CsrFile)
    (val : Word) : Isolated csrs (csrs.writeUnchecked csr val) := by
  unfold CsrFile.writeUnchecked
  split
  · exact .refl csrs
  split
  · rename_i isMstatus
    exact absurd (by rw [isMstatus]; decide) low
  split
  · refine ⟨?_, ?_, ?_, fun other _ differs _ _ => setReg_regs_of_ne differs⟩
    · rw [setReg_regs_self, maskedWrite_outside]
    · rw [setReg_regs_of_ne (by decide)]
    · rw [setReg_regs_of_ne (by decide)]
  split
  · refine ⟨?_, ?_, ?_, fun other _ _ differs _ => setReg_regs_of_ne differs⟩
    · rw [setReg_regs_of_ne (by decide)]
    · rw [setReg_regs_self, maskedWrite_outside]
    · rw [setReg_regs_of_ne (by decide)]
  split
  · refine ⟨?_, ?_, ?_, fun other _ _ _ differs => setReg_regs_of_ne differs⟩
    · rw [setReg_regs_of_ne (by decide)]
    · rw [setReg_regs_of_ne (by decide)]
    · rw [setReg_regs_self, maskedWrite_outside]
  split
  · dsimp only
    split
    · exact isolated_setReg (by decide) csrs val
    · exact isolated_setReg (by decide) csrs 0
  · exact isolated_setReg low csrs val

theorem requiredPrivilege_of_le (lower : mode ≠ .machine)
    (reaches : ¬ mode.bits < (requiredPrivilege csr).bits) : requiredPrivilege csr ≠ .machine := by
  intro high
  rw [high] at reaches
  cases mode with
  | user => exact reaches (by decide)
  | supervisor => exact reaches (by decide)
  | machine => exact lower rfl

/-- A write that is let through at a lower level. -/
theorem isolated_write (lower : mode ≠ .machine) (written : csrs.write csr val mode = .ok after) :
    Isolated csrs after := by
  unfold CsrFile.write at written
  dsimp only at written
  split at written
  · cases written
  rename_i reaches
  split at written
  · cases written
  split at written
  · cases written
  cases written
  exact isolated_writeUnchecked (requiredPrivilege_of_le lower reaches) csrs val

end Writes

/-! What the delivery of a trap records. -/

section Traps

variable {cpu : CpuState} {cause : TrapCause} {tval epc : Word}

/-- The registers that a trap records in, and the view of `mstatus` among them. -/
def recorded (cpu : CpuState) (cause : TrapCause) : List CsrAddr :=
  if delegated cpu cause then [Addr.sepc, Addr.scause, Addr.stval, Addr.mstatus, Addr.sstatus]
  else [Addr.mepc, Addr.mcause, Addr.mtval, Addr.mstatus, Addr.sstatus]

/-- A plain register, written without its reads going elsewhere. -/
theorem readUnchecked_setReg {csrs : CsrFile} {csr other : CsrAddr} (val : Word)
    (differs : other ≠ csr) (noStatus : csr = Addr.mstatus → other ≠ Addr.sstatus)
    (noMie : csr ≠ Addr.mie) (noMip : csr ≠ Addr.mip) :
    (csrs.setReg csr val).readUnchecked other = csrs.readUnchecked other := by
  unfold CsrFile.readUnchecked
  by_cases view : other = Addr.sstatus
  · have plain : Addr.mstatus ≠ csr := fun same => noStatus same.symm view
    rw [if_pos view, if_pos view, setReg_regs_of_ne plain]
  · rw [if_neg view, if_neg view, setReg_regs_of_ne noMie.symm, setReg_regs_of_ne noMip.symm,
      setReg_regs_of_ne differs]
    rfl

theorem deliverTrap_readUnchecked {other : CsrAddr} (apart : other ∉ recorded cpu cause) :
    (deliverTrap cpu cause tval epc).csrs.readUnchecked other =
      cpu.csrs.readUnchecked other := by
  unfold recorded at apart
  unfold deliverTrap
  split at apart
  · rename_i delegates
    simp only [List.mem_cons, List.not_mem_nil, or_false, not_or] at apart
    obtain ⟨noSepc, noScause, noStval, noMstatus, noSstatus⟩ := apart
    rw [if_pos delegates]
    refine (readUnchecked_setReg _ noMstatus (fun _ => noSstatus) (by decide) (by decide)).trans ?_
    refine (readUnchecked_setReg _ noStval nofun (by decide) (by decide)).trans ?_
    refine (readUnchecked_setReg _ noScause nofun (by decide) (by decide)).trans ?_
    exact readUnchecked_setReg _ noSepc nofun (by decide) (by decide)
  · rename_i delegates
    simp only [List.mem_cons, List.not_mem_nil, or_false, not_or] at apart
    obtain ⟨noMepc, noMcause, noMtval, noMstatus, noSstatus⟩ := apart
    rw [if_neg delegates]
    refine (readUnchecked_setReg _ noMstatus (fun _ => noSstatus) (by decide) (by decide)).trans ?_
    refine (readUnchecked_setReg _ noMtval nofun (by decide) (by decide)).trans ?_
    refine (readUnchecked_setReg _ noMcause nofun (by decide) (by decide)).trans ?_
    exact readUnchecked_setReg _ noMepc nofun (by decide) (by decide)

end Traps

/-! The instructions. -/

/-- The register that a control register instruction names, and whether it writes there. -/
def Instruction.csrAccess : Instruction → Option (CsrAddr × Bool)
  | .csr .rw _ _ address => some (address, true)
  | .csr _ _ rs1 address => some (address, rs1 ≠ 0)
  | .csrImm .rw _ _ address => some (address, true)
  | .csrImm _ _ uimm address => some (address, uimm ≠ 0)
  | _ => none

/-- The access is illegal: the level is too low, the register is not there, or a read-only
register is written. -/
def CsrDenied (mode : PrivilegeMode) (csr : CsrAddr) (writes : Bool) : Prop :=
  mode.bits < (requiredPrivilege csr).bits ∨ isUnimplementedCsr csr = true ∨
    writes = true ∧ (csr >>> 10) &&& 0x3 = 0x3

namespace Vm

variable {vm : Vm} {insn : Instruction} {csr : CsrAddr} {writes : Bool}

theorem executeCsr_denied (privileged : vm.privileged = true) (op : CsrOp) (rd : Reg)
    (source : Word) (denied : CsrDenied vm.cpu.privMode csr writes) :
    vm.executeCsr op rd csr source writes = vm.illegal := by
  unfold executeCsr CsrFile.read
  dsimp only
  by_cases low : vm.cpu.privMode.bits < (requiredPrivilege csr).bits
  · rw [if_pos low]
    exact if_pos privileged
  by_cases missing : isUnimplementedCsr csr = true
  · rw [if_neg low, if_pos missing]
    exact if_pos privileged
  obtain ⟨writing, readOnly⟩ := (denied.resolve_left low).resolve_left missing
  have refused : ∀ val, vm.cpu.csrs.write csr val vm.cpu.privMode = .error (.readOnly csr) := by
    intro val
    rw [CsrFile.write, if_neg low, if_pos readOnly]
  rw [if_neg low, if_neg missing]
  dsimp only
  rw [if_pos writing, refused]
  exact if_pos privileged

/-- Where the access is let through, the registers are what the write left. -/
theorem executeCsr_csrs {old : Word} {csrs : CsrFile} (op : CsrOp) (rd : Reg) (source : Word)
    (reads : vm.cpu.csrs.read csr vm.cpu.privMode = .ok old)
    (written : (if writes then vm.cpu.csrs.write csr (op.update old source) vm.cpu.privMode
      else .ok vm.cpu.csrs) = .ok csrs) :
    (vm.executeCsr op rd csr source writes).cpu.csrs = csrs := by
  unfold executeCsr
  rw [reads]
  dsimp only
  rw [written]
  exact CpuState.writeReg_csrs _ rd old

theorem executeCsr_isolated (lower : vm.cpu.privMode ≠ .machine) (op : CsrOp) (rd : Reg)
    (source : Word) (allowed : ¬ CsrDenied vm.cpu.privMode csr writes) :
    Isolated vm.cpu.csrs (vm.executeCsr op rd csr source writes).cpu.csrs := by
  obtain ⟨reaches, present, writable⟩ : ¬ vm.cpu.privMode.bits < (requiredPrivilege csr).bits ∧
      ¬ isUnimplementedCsr csr = true ∧ ¬ (writes = true ∧ (csr >>> 10) &&& 0x3 = 0x3) := by
    rwa [CsrDenied, not_or, not_or] at allowed
  have reads : vm.cpu.csrs.read csr vm.cpu.privMode = .ok (vm.cpu.csrs.readUnchecked csr) := by
    rw [CsrFile.read, if_neg reaches, if_neg present]
  cases writes with
  | false =>
      rw [executeCsr_csrs op rd source reads (if_neg Bool.false_ne_true)]
      exact .refl _
  | true =>
      cases written : vm.cpu.csrs.write csr (op.update (vm.cpu.csrs.readUnchecked csr) source)
          vm.cpu.privMode with
      | error e =>
          rw [CsrFile.write, if_neg reaches, if_neg fun readOnly => writable ⟨rfl, readOnly⟩,
            if_neg present] at written
          cases written
      | ok csrs =>
          rw [executeCsr_csrs op rd source reads ((if_pos rfl).trans written)]
          exact isolated_write lower written

/-- Each control register instruction is one run of `executeCsr`. -/
theorem execute_csrAccess (access : insn.csrAccess = some (csr, writes)) :
    ∃ op rd source, (vm.execute insn).1 = vm.executeCsr op rd csr source writes := by
  cases insn with
  | csr op rd rs1 =>
      cases op <;> cases access <;> exact ⟨_, _, _, rfl⟩
  | csrImm op rd uimm =>
      cases op <;> cases access <;> exact ⟨_, _, _, rfl⟩
  | _ => cases access

/-- A control register instruction of a lower level leaves the machine level's state alone; one
that is denied changes nothing but what the trap records. -/
theorem execute_csr_isolated (privileged : vm.privileged = true)
    (lower : vm.cpu.privMode ≠ .machine) (access : insn.csrAccess = some (csr, writes)) :
    (¬ CsrDenied vm.cpu.privMode csr writes →
      Isolated vm.cpu.csrs (vm.execute insn).1.cpu.csrs) ∧
    (CsrDenied vm.cpu.privMode csr writes →
      (vm.execute insn).1 = vm.illegal ∧ (vm.execute insn).1.cpu.x = vm.cpu.x ∧
        ∀ other ∉ recorded vm.cpu (.exception .illegalInstruction),
          (vm.execute insn).1.cpu.csrs.readUnchecked other =
            vm.cpu.csrs.readUnchecked other) := by
  obtain ⟨op, rd, source, ran⟩ := @execute_csrAccess vm insn csr writes access
  rw [ran]
  constructor
  · exact executeCsr_isolated lower op rd source
  · intro denied
    rw [executeCsr_denied privileged op rd source denied]
    refine ⟨rfl, deliverTrap_x _ _ _ _, ?_⟩
    intro other apart
    exact deliverTrap_readUnchecked apart

/-- A user program at the address `0x1000`. -/
def userVm : Vm := newPrivileged { CpuState.withPc 0x1000 with privMode := .user } .new

theorem execute_csr_isolated_user :
    (userVm.execute (.csr .rs 1 0 Addr.satp)).1.cpu.x = userVm.cpu.x :=
  ((execute_csr_isolated rfl (by decide) rfl).2 (.inl (by decide))).2.1

/-- The addressed register changes when it is where the trap records the program counter. -/
theorem denied_csr_records_mepc :
    CsrDenied userVm.cpu.privMode Addr.mepc false ∧
      (userVm.execute (.csr .rs 1 0 Addr.mepc)).1.cpu.csrs.readUnchecked Addr.mepc ≠
        userVm.cpu.csrs.readUnchecked Addr.mepc :=
  ⟨.inl (by decide), by decide⟩

end Vm

end MetaVm.Riscv
