import MetaVm.Riscv.Machine.Interrupts

namespace MetaVm.Riscv

/-! A return from a trap undoes its delivery. -/

section Bits

variable {y field view : Word}

/-- Two words with the same bits under a mask. -/
theorem and_eq_and_of_bits {x : Word}
    (same : ∀ index, view.getLsbD index = true → x.getLsbD index = y.getLsbD index) :
    x &&& view = y &&& view := by
  apply BitVec.eq_of_getLsbD_eq
  intro index _
  rw [BitVec.getLsbD_and, BitVec.getLsbD_and]
  cases inside : view.getLsbD index with
  | true => rw [same index inside]
  | false => rw [Bool.and_false, Bool.and_false]

theorem getLsbD_of_disjoint (disjoint : field &&& view = 0) {index : ℕ}
    (inside : view.getLsbD index = true) : field.getLsbD index = false := by
  have bit := congrArg (fun word => BitVec.getLsbD word index) disjoint
  rw [BitVec.getLsbD_and, inside, Bool.and_true] at bit
  exact bit.trans (by simp)

/-- A field that was cleared and filled reads what it was filled with. -/
theorem fill_and_field (x : Word) (inside : y &&& field = y) :
    ((x &&& ~~~field) ||| y) &&& field = y := by
  apply BitVec.eq_of_getLsbD_eq
  intro index bounded
  have bit := congrArg (fun word => BitVec.getLsbD word index) inside
  rw [BitVec.getLsbD_and] at bit
  rw [BitVec.getLsbD_and, BitVec.getLsbD_or, BitVec.getLsbD_and, BitVec.getLsbD_not,
    decide_eq_true bounded]
  revert bit
  cases x.getLsbD index <;> cases y.getLsbD index <;> cases field.getLsbD index <;> decide

end Bits

namespace CsrFile

variable (csrs : CsrFile) (val : Word) {csr csrAddr : CsrAddr}

/-- A register that no view reads is written without a trace elsewhere. -/
theorem readUnchecked_setReg_of_ne (differs : csr ≠ csrAddr) (notStatus : csrAddr ≠ Addr.mstatus)
    (notMie : csrAddr ≠ Addr.mie) (notMip : csrAddr ≠ Addr.mip) :
    (csrs.setReg csrAddr val).readUnchecked csr = csrs.readUnchecked csr := by
  simp only [readUnchecked, setReg, Function.update_of_ne differs,
    Function.update_of_ne notStatus.symm, Function.update_of_ne notMie.symm,
    Function.update_of_ne notMip.symm]

/-- The status register shows only in itself and in the supervisor's view of it. -/
theorem readUnchecked_write_mstatus_of_ne (notStatus : csr ≠ Addr.mstatus)
    (notView : csr ≠ Addr.sstatus) :
    (csrs.writeUnchecked Addr.mstatus val).readUnchecked csr = csrs.readUnchecked csr := by
  have written : csrs.writeUnchecked Addr.mstatus val =
      csrs.setReg Addr.mstatus (maskedWrite (csrs.regs Addr.mstatus) val Mstatus.writeMask) := rfl
  have notMie : Addr.mie ≠ Addr.mstatus := by decide
  have notMip : Addr.mip ≠ Addr.mstatus := by decide
  simp only [written, readUnchecked, setReg, if_neg notView, Function.update_of_ne notStatus,
    Function.update_of_ne notMie, Function.update_of_ne notMip]

end CsrFile

/-! The state after the return. -/

/-- The registers that a trap to a level and the return from it write. -/
def trapRegisters : PrivilegeMode → List CsrAddr
  | .machine => [Addr.mstatus, Addr.mepc, Addr.mcause, Addr.mtval]
  | .supervisor => [Addr.mstatus, Addr.sstatus, Addr.sepc, Addr.scause, Addr.stval]
  | .user => []

/-- What was interrupted by a trap to a level goes on where it was. -/
structure Resumed (level : PrivilegeMode) (before after : CpuState) : Prop where
  pc : after.pc = before.pc
  privMode : after.privMode = before.privMode
  enabled : after.InterruptsEnabled level ↔ before.InterruptsEnabled level
  x : after.x = before.x
  csrs : ∀ csr, csr ∉ trapRegisters level →
    after.csrs.readUnchecked csr = before.csrs.readUnchecked csr

namespace CpuState

variable (cpu : CpuState) (cause : TrapCause) (tval epc : Word)

/-- The status register of a machine trap. -/
theorem deliverToMachine_mstatus :
    (deliverToMachine cpu cause tval epc).csrs.readUnchecked Addr.mstatus =
      maskedWrite (cpu.csrs.readUnchecked Addr.mstatus)
        (((setFlag (cpu.csrs.readUnchecked Addr.mstatus) Mstatus.mpie
            (cpu.csrs.readUnchecked Addr.mstatus &&& Mstatus.mie ≠ 0) &&& ~~~Mstatus.mppMask) |||
          cpu.privMode.bits <<< Mstatus.mppShift) &&& ~~~Mstatus.mie) Mstatus.writeMask := rfl

theorem deliverToSupervisor_mstatus :
    (deliverToSupervisor cpu cause tval epc).csrs.readUnchecked Addr.mstatus =
      maskedWrite (cpu.csrs.readUnchecked Addr.mstatus)
        (setFlag (setFlag (cpu.csrs.readUnchecked Addr.mstatus) Mstatus.spie
            (cpu.csrs.readUnchecked Addr.mstatus &&& Mstatus.sie ≠ 0)) Mstatus.spp
          (cpu.privMode = .supervisor) &&& ~~~Mstatus.sie) Mstatus.writeMask := rfl

theorem deliverToMachine_mpie :
    ((deliverToMachine cpu cause tval epc).csrs.readUnchecked Addr.mstatus).getLsbD 7 =
      decide (cpu.csrs.readUnchecked Addr.mstatus &&& Mstatus.mie ≠ 0) := by
  have noLevelBit : (cpu.privMode.bits <<< Mstatus.mppShift).getLsbD 7 = false := by
    cases cpu.privMode <;> decide
  rw [deliverToMachine_mstatus, getLsbD_maskedWrite_of_mem (by decide),
    getLsbD_clear_of_not (by decide), getLsbD_raise_of_not noLevelBit,
    getLsbD_clear_of_not (by decide), Mstatus.isBit_mpie.getLsbD_setFlag]

/-- The level that was left stands in the status register. -/
theorem deliverToMachine_mpp :
    ((deliverToMachine cpu cause tval epc).csrs.readUnchecked Addr.mstatus &&&
      Mstatus.mppMask) >>> Mstatus.mppShift = cpu.privMode.bits := by
  have inside : (cpu.privMode.bits <<< Mstatus.mppShift) &&& Mstatus.mppMask =
      cpu.privMode.bits <<< Mstatus.mppShift := by cases cpu.privMode <;> decide
  have field : (deliverToMachine cpu cause tval epc).csrs.readUnchecked Addr.mstatus &&&
      Mstatus.mppMask = cpu.privMode.bits <<< Mstatus.mppShift := by
    rw [deliverToMachine_mstatus]
    refine Eq.trans (and_eq_and_of_bits fun index member => ?_) (fill_and_field
      (setFlag (cpu.csrs.readUnchecked Addr.mstatus) Mstatus.mpie
        (cpu.csrs.readUnchecked Addr.mstatus &&& Mstatus.mie ≠ 0)) inside)
    have writable : Mstatus.writeMask.getLsbD index = true := by
      have both := congrArg (fun word => BitVec.getLsbD word index)
        (show Mstatus.mppMask &&& Mstatus.writeMask = Mstatus.mppMask by decide)
      rw [BitVec.getLsbD_and, member, Bool.true_and] at both
      exact both
    rw [getLsbD_maskedWrite_of_mem writable,
      getLsbD_clear_of_not (getLsbD_of_disjoint (by decide) member)]
  rw [field]
  cases cpu.privMode <;> decide

theorem deliverToSupervisor_spie :
    ((deliverToSupervisor cpu cause tval epc).csrs.readUnchecked Addr.mstatus).getLsbD 5 =
      decide (cpu.csrs.readUnchecked Addr.mstatus &&& Mstatus.sie ≠ 0) := by
  rw [deliverToSupervisor_mstatus, getLsbD_maskedWrite_of_mem (by decide),
    getLsbD_clear_of_not (by decide), getLsbD_setFlag_of_not (by decide),
    Mstatus.isBit_spie.getLsbD_setFlag]

theorem deliverToSupervisor_spp :
    ((deliverToSupervisor cpu cause tval epc).csrs.readUnchecked Addr.mstatus).getLsbD 8 =
      decide (cpu.privMode = .supervisor) := by
  rw [deliverToSupervisor_mstatus, getLsbD_maskedWrite_of_mem (by decide),
    getLsbD_clear_of_not (by decide), Mstatus.isBit_spp.getLsbD_setFlag]

/-- A machine trap leaves the supervisor's view of the status register as it is. -/
theorem deliverToMachine_sstatus :
    (deliverToMachine cpu cause tval epc).csrs.readUnchecked Addr.sstatus =
      cpu.csrs.readUnchecked Addr.sstatus := by
  change (deliverToMachine cpu cause tval epc).csrs.readUnchecked Addr.mstatus &&&
      Mstatus.sstatusMask = cpu.csrs.readUnchecked Addr.mstatus &&& Mstatus.sstatusMask
  rw [deliverToMachine_mstatus]
  refine and_eq_and_of_bits fun index member => getLsbD_maskedWrite_of_same ?_
  have noLevelBit : (cpu.privMode.bits <<< Mstatus.mppShift).getLsbD index = false :=
    getLsbD_of_disjoint (by cases cpu.privMode <;> decide) member
  rw [getLsbD_clear_of_not (getLsbD_of_disjoint (by decide) member),
    getLsbD_raise_of_not noLevelBit,
    getLsbD_clear_of_not (getLsbD_of_disjoint (by decide) member),
    getLsbD_setFlag_of_not (getLsbD_of_disjoint (by decide) member)]

theorem deliverToMachine_csrs {csr : CsrAddr} (kept : csr ∉ trapRegisters .machine) :
    (deliverToMachine cpu cause tval epc).csrs.readUnchecked csr =
      cpu.csrs.readUnchecked csr := by
  by_cases view : csr = Addr.sstatus
  · rw [view]
    exact cpu.deliverToMachine_sstatus cause tval epc
  · simp only [trapRegisters, List.mem_cons, List.not_mem_nil, or_false, not_or] at kept
    obtain ⟨notStatus, notEpc, notCause, notTval⟩ := kept
    refine (CsrFile.readUnchecked_write_mstatus_of_ne _ _ notStatus view).trans ?_
    refine (CsrFile.readUnchecked_setReg_of_ne _ _ notTval (by decide) (by decide)
      (by decide)).trans ?_
    refine (CsrFile.readUnchecked_setReg_of_ne _ _ notCause (by decide) (by decide)
      (by decide)).trans ?_
    exact CsrFile.readUnchecked_setReg_of_ne _ _ notEpc (by decide) (by decide) (by decide)

theorem deliverToSupervisor_csrs {csr : CsrAddr} (kept : csr ∉ trapRegisters .supervisor) :
    (deliverToSupervisor cpu cause tval epc).csrs.readUnchecked csr =
      cpu.csrs.readUnchecked csr := by
  simp only [trapRegisters, List.mem_cons, List.not_mem_nil, or_false, not_or] at kept
  obtain ⟨notStatus, notView, notEpc, notCause, notTval⟩ := kept
  refine (CsrFile.readUnchecked_write_mstatus_of_ne _ _ notStatus notView).trans ?_
  refine (CsrFile.readUnchecked_setReg_of_ne _ _ notTval (by decide) (by decide)
    (by decide)).trans ?_
  refine (CsrFile.readUnchecked_setReg_of_ne _ _ notCause (by decide) (by decide)
    (by decide)).trans ?_
  exact CsrFile.readUnchecked_setReg_of_ne _ _ notEpc (by decide) (by decide) (by decide)

end CpuState

namespace Vm

variable (vm : Vm)

/-! The returns. -/

theorem executeMret_enabled :
    vm.executeMret.cpu.InterruptsEnabled .machine ↔
      (vm.cpu.csrs.readUnchecked Addr.mstatus).getLsbD 7 = true := by
  rw [CpuState.InterruptsEnabled, Mstatus.isBit_mie.and_ne_zero,
    ← Mstatus.isBit_mpie.and_ne_zero]
  refine Eq.congr_left ((getLsbD_maskedWrite_of_mem (by decide)).trans ?_) |>.trans
    decide_eq_true_iff
  split
  · rw [getLsbD_clear_of_not (by decide), getLsbD_clear_of_not (by decide),
      getLsbD_raise_of_not (by decide), Mstatus.isBit_mie.getLsbD_setFlag]
  · rw [getLsbD_clear_of_not (by decide), getLsbD_raise_of_not (by decide),
      Mstatus.isBit_mie.getLsbD_setFlag]

/-- The return leaves the supervisor's view of the status register as it is. -/
theorem executeMret_sstatus :
    vm.executeMret.cpu.csrs.readUnchecked Addr.sstatus =
      vm.cpu.csrs.readUnchecked Addr.sstatus := by
  refine and_eq_and_of_bits fun index member => getLsbD_maskedWrite_of_same ?_
  split
  · rw [getLsbD_clear_of_not (getLsbD_of_disjoint (by decide) member),
      getLsbD_clear_of_not (getLsbD_of_disjoint (by decide) member),
      getLsbD_raise_of_not (getLsbD_of_disjoint (by decide) member),
      getLsbD_setFlag_of_not (getLsbD_of_disjoint (by decide) member)]
    rfl
  · rw [getLsbD_clear_of_not (getLsbD_of_disjoint (by decide) member),
      getLsbD_raise_of_not (getLsbD_of_disjoint (by decide) member),
      getLsbD_setFlag_of_not (getLsbD_of_disjoint (by decide) member)]
    rfl

theorem executeMret_csrs {csr : CsrAddr} (notStatus : csr ≠ Addr.mstatus) :
    vm.executeMret.cpu.csrs.readUnchecked csr = vm.cpu.csrs.readUnchecked csr := by
  by_cases view : csr = Addr.sstatus
  · rw [view]
    exact vm.executeMret_sstatus
  · exact CsrFile.readUnchecked_write_mstatus_of_ne _ _ notStatus view

theorem executeMret_pc :
    vm.executeMret.cpu.pc = vm.cpu.csrs.readUnchecked Addr.mepc :=
  vm.executeMret_csrs (show Addr.mepc ≠ Addr.mstatus by decide)

theorem supervisorBars_of_clear {flag : Word}
    (clear : vm.cpu.csrs.readUnchecked Addr.mstatus &&& flag = 0) :
    vm.supervisorBars flag = false := by
  apply decide_eq_false
  rintro ⟨-, set, -⟩
  exact set clear

section Sret

variable {vm} (free : vm.supervisorBars Mstatus.tsr = false)

include free

theorem executeSret_enabled :
    vm.executeSret.cpu.InterruptsEnabled .supervisor ↔
      (vm.cpu.csrs.readUnchecked Addr.mstatus).getLsbD 5 = true := by
  rw [CpuState.InterruptsEnabled, Mstatus.isBit_sie.and_ne_zero,
    ← Mstatus.isBit_spie.and_ne_zero, executeSret, if_neg (ne_true_of_eq_false free)]
  refine Eq.congr_left ((getLsbD_maskedWrite_of_mem (by decide)).trans ?_) |>.trans
    decide_eq_true_iff
  rw [getLsbD_clear_of_not (by decide), getLsbD_clear_of_not (by decide),
    getLsbD_raise_of_not (by decide), Mstatus.isBit_sie.getLsbD_setFlag]

theorem executeSret_csrs {csr : CsrAddr} (notStatus : csr ≠ Addr.mstatus)
    (notView : csr ≠ Addr.sstatus) :
    vm.executeSret.cpu.csrs.readUnchecked csr = vm.cpu.csrs.readUnchecked csr := by
  rw [executeSret, if_neg (ne_true_of_eq_false free)]
  exact CsrFile.readUnchecked_write_mstatus_of_ne _ _ notStatus notView

theorem executeSret_pc :
    vm.executeSret.cpu.pc = vm.cpu.csrs.readUnchecked Addr.sepc := by
  have kept := executeSret_csrs free (show Addr.sepc ≠ Addr.mstatus by decide) (by decide)
  rw [← kept, executeSret, if_neg (ne_true_of_eq_false free)]

theorem executeSret_privMode :
    vm.executeSret.cpu.privMode =
      .fromBits (if (vm.cpu.csrs.readUnchecked Addr.mstatus).getLsbD 8 then 1 else 0) := by
  rw [executeSret, if_neg (ne_true_of_eq_false free)]
  exact congrArg PrivilegeMode.fromBits (if_congr (Mstatus.isBit_spp.and_ne_zero _) rfl rfl)

theorem executeSret_x : vm.executeSret.cpu.x = vm.cpu.x := by
  rw [executeSret, if_neg (ne_true_of_eq_false free)]

end Sret

/-! There and back. -/

variable (cause : TrapCause) (tval : Word)

theorem resumed_machine (direct : delegated vm.cpu cause = false) :
    Resumed .machine vm.cpu (vm.trap cause tval vm.cpu.pc).executeMret.cpu := by
  have trapped : (vm.trap cause tval vm.cpu.pc).cpu =
      deliverToMachine vm.cpu cause tval vm.cpu.pc :=
    if_neg (ne_true_of_eq_false direct)
  refine ⟨?_, ?_, ?_, ?_, ?_⟩
  · rw [executeMret_pc, trapped]
    rfl
  · change PrivilegeMode.fromBits _ = _
    rw [trapped, CpuState.deliverToMachine_mpp]
    cases vm.cpu.privMode <;> rfl
  · rw [executeMret_enabled, trapped, CpuState.deliverToMachine_mpie, decide_eq_true_iff]
    rfl
  · exact deliverTrap_x vm.cpu cause tval vm.cpu.pc
  · intro csr kept
    have notStatus : csr ≠ Addr.mstatus := fun is => kept (is ▸ List.mem_cons_self)
    rw [executeMret_csrs _ notStatus, trapped,
      CpuState.deliverToMachine_csrs vm.cpu cause tval vm.cpu.pc kept]

theorem resumed_supervisor (delegates : delegated vm.cpu cause = true)
    (free : (vm.trap cause tval vm.cpu.pc).supervisorBars Mstatus.tsr = false) :
    Resumed .supervisor vm.cpu (vm.trap cause tval vm.cpu.pc).executeSret.cpu := by
  have trapped : (vm.trap cause tval vm.cpu.pc).cpu =
      deliverToSupervisor vm.cpu cause tval vm.cpu.pc := if_pos delegates
  have notMachine : vm.cpu.privMode ≠ .machine := (of_decide_eq_true delegates).1
  refine ⟨?_, ?_, ?_, ?_, ?_⟩
  · rw [executeSret_pc free, trapped]
    rfl
  · rw [executeSret_privMode free, trapped, CpuState.deliverToSupervisor_spp]
    cases level : vm.cpu.privMode with
    | user => rfl
    | supervisor => rfl
    | machine => exact absurd level notMachine
  · rw [executeSret_enabled free, trapped, CpuState.deliverToSupervisor_spie,
      decide_eq_true_iff]
    rfl
  · rw [executeSret_x free]
    exact deliverTrap_x vm.cpu cause tval vm.cpu.pc
  · intro csr kept
    have notStatus : csr ≠ Addr.mstatus := fun is => kept (is ▸ List.mem_cons_self)
    have notView : csr ≠ Addr.sstatus :=
      fun is => kept (is ▸ List.mem_cons_of_mem _ List.mem_cons_self)
    rw [executeSret_csrs free notStatus notView, trapped,
      CpuState.deliverToSupervisor_csrs vm.cpu cause tval vm.cpu.pc kept]

theorem trap_privMode :
    (vm.trap cause tval vm.cpu.pc).cpu.privMode =
      if delegated vm.cpu cause then .supervisor else .machine := by
  rw [trap, deliverTrap]
  split <;> rfl

/-- A trap taken at the program counter goes to the machine or to the supervisor, and the
return of that level, where the supervisor may return, resumes what it interrupted. -/
theorem trap_return :
    ((vm.trap cause tval vm.cpu.pc).cpu.privMode = .machine ∧
        Resumed .machine vm.cpu ((vm.trap cause tval vm.cpu.pc).execute .mret).1.cpu) ∨
      ((vm.trap cause tval vm.cpu.pc).cpu.privMode = .supervisor ∧
        ((vm.trap cause tval vm.cpu.pc).cpu.csrs.readUnchecked Addr.mstatus &&&
            Mstatus.tsr = 0 →
          Resumed .supervisor vm.cpu
            ((vm.trap cause tval vm.cpu.pc).execute .sret).1.cpu)) := by
  rw [trap_privMode]
  cases delegates : delegated vm.cpu cause with
  | false => exact .inl ⟨rfl, vm.resumed_machine cause tval delegates⟩
  | true =>
      refine .inr ⟨rfl, fun clear => ?_⟩
      exact vm.resumed_supervisor cause tval delegates (supervisorBars_of_clear _ clear)

end Vm

end MetaVm.Riscv
