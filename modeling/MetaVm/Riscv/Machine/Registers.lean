import MetaVm.Riscv.Machine.Frame

namespace MetaVm.Riscv

/-! Which register an instruction writes. -/

theorem CpuState.readReg_writeReg_of_ne (cpu : CpuState) {reg other : Reg} (differ : other ≠ reg)
    (val : Word) : (cpu.writeReg reg val).readReg other = cpu.readReg other := by
  rw [writeReg]
  split
  · have kept : Function.update cpu.x reg val other = cpu.x other :=
      Function.update_of_ne differ val cpu.x
    exact congrArg (fun val : Word => if other = 0 then 0 else val) kept
  · rfl

namespace Vm

/-! Memory accesses leave the processor alone. -/

section Memory

variable (vm : Vm) (addr : Word)

theorem mmioLoadByte_cpu : (vm.mmioLoadByte addr).2.cpu = vm.cpu := by
  rw [mmioLoadByte]
  split <;> rfl

theorem mmioStoreByte_cpu (val : Byte) : (vm.mmioStoreByte addr val).cpu = vm.cpu := by
  simp only [mmioStoreByte]
  split
  · rfl
  · split <;> rfl

theorem mmioLoadHalf_cpu : (vm.mmioLoadHalf addr).2.cpu = vm.cpu := by
  rw [mmioLoadHalf]
  split
  · rfl
  · have first := mmioLoadByte_cpu vm addr
    generalize vm.mmioLoadByte addr = loaded at first ⊢
    have second := mmioLoadByte_cpu loaded.2 (addr + 1)
    dsimp only
    generalize loaded.2.mmioLoadByte (addr + 1) = rest at second ⊢
    exact second.trans first

theorem mmioStoreHalf_cpu (val : BitVec 16) : (vm.mmioStoreHalf addr val).cpu = vm.cpu := by
  rw [mmioStoreHalf]
  split
  · rfl
  · rw [mmioStoreByte_cpu, mmioStoreByte_cpu]

theorem mmioLoadWord_cpu : (vm.mmioLoadWord addr).2.cpu = vm.cpu := by
  rw [mmioLoadWord]
  split
  · rfl
  · have first := mmioLoadHalf_cpu vm addr
    generalize vm.mmioLoadHalf addr = loaded at first ⊢
    have second := mmioLoadHalf_cpu loaded.2 (addr + 2)
    dsimp only
    generalize loaded.2.mmioLoadHalf (addr + 2) = rest at second ⊢
    exact second.trans first

theorem mmioStoreWord_cpu (val : BitVec 32) : (vm.mmioStoreWord addr val).cpu = vm.cpu := by
  rw [mmioStoreWord]
  split
  · rfl
  · rw [mmioStoreHalf_cpu, mmioStoreHalf_cpu]

theorem mmioLoadDouble_cpu : (vm.mmioLoadDouble addr).2.cpu = vm.cpu := by
  rw [mmioLoadDouble]
  split
  · rfl
  · have first := mmioLoadWord_cpu vm addr
    generalize vm.mmioLoadWord addr = loaded at first ⊢
    have second := mmioLoadWord_cpu loaded.2 (addr + 4)
    dsimp only
    generalize loaded.2.mmioLoadWord (addr + 4) = rest at second ⊢
    exact second.trans first

theorem mmioStoreDouble_cpu (val : BitVec 64) : (vm.mmioStoreDouble addr val).cpu = vm.cpu := by
  rw [mmioStoreDouble]
  split
  · rfl
  · rw [mmioStoreWord_cpu, mmioStoreWord_cpu]

theorem checkReservationOnStore_cpu (size : Byte) :
    (vm.checkReservationOnStore addr size).cpu = vm.cpu := by
  rw [checkReservationOnStore]
  split
  · split <;> rfl
  · rfl

theorem loadOp_cpu (op : LoadOp) : (vm.loadOp op addr).2.cpu = vm.cpu := by
  cases op with
  | lb | lbu => exact mmioLoadByte_cpu vm addr
  | lh | lhu => exact mmioLoadHalf_cpu vm addr
  | lw | lwu => exact mmioLoadWord_cpu vm addr
  | ld => exact mmioLoadDouble_cpu vm addr

theorem storeOp_cpu (op : StoreOp) (val : Word) : (vm.storeOp op addr val).cpu = vm.cpu := by
  cases op with
  | sb => exact (checkReservationOnStore_cpu _ _ _).trans (mmioStoreByte_cpu vm addr _)
  | sh => exact (checkReservationOnStore_cpu _ _ _).trans (mmioStoreHalf_cpu vm addr _)
  | sw => exact (checkReservationOnStore_cpu _ _ _).trans (mmioStoreWord_cpu vm addr _)
  | sd => exact (checkReservationOnStore_cpu _ _ _).trans (mmioStoreDouble_cpu vm addr _)

theorem amoOp_cpu (op : AmoOp) (width : AmoWidth) (src : Word) :
    (vm.amoOp op width addr src).2.cpu = vm.cpu := by
  cases width with
  | w => exact (mmioStoreWord_cpu _ _ _).trans (mmioLoadWord_cpu vm addr)
  | d => exact (mmioStoreDouble_cpu _ _ _).trans (mmioLoadDouble_cpu vm addr)

end Memory

/-- The value that a system call of an unprivileged machine puts into register 10. -/
def syscallResult (vm : Vm) : Option Word :=
  let syscall := vm.cpu.readReg 17
  if syscall = 0 ∨ syscall = 93 then none
  else if syscall = 64 then some (vm.cpu.readReg 12)
  else some (-38)

/-- The register that an instruction writes, without being decoded from it for a
system call. -/
def destination (vm : Vm) : Instruction → Option Reg
  | .ecall =>
      if vm.privileged ∨ vm.syscallResult.all (· = vm.cpu.readReg 10) then none else some 10
  | insn => insn.rd

/-! The other registers keep their values. -/

section Execute

variable {vm : Vm} {reg : Reg}

theorem trap_readReg (cause : TrapCause) (tval epc : Word) :
    (vm.trap cause tval epc).cpu.readReg reg = vm.cpu.readReg reg :=
  readReg_of_x (deliverTrap_x _ _ _ _) reg

theorem onAddress_readReg {vaddr : Word} {accessType : AccessType} {next : Vm → Word → Vm}
    (each : ∀ translated pa, translated.cpu = vm.cpu →
      (next translated pa).cpu.readReg reg = vm.cpu.readReg reg) :
    (onAddress (vm.translateFor vaddr accessType) next).cpu.readReg reg =
      vm.cpu.readReg reg := by
  unfold onAddress
  split
  · rename_i translated pa found
    exact each translated pa (translateFor_cpu found)
  · rename_i faulted fault
    exact readReg_of_x (translateFor_x_of_fault fault) reg

theorem executeEcall_readReg (other : vm.destination .ecall ≠ some reg) :
    vm.executeEcall.cpu.readReg reg = vm.cpu.readReg reg := by
  rw [executeEcall]
  split
  · exact trap_readReg _ _ _
  rename_i unprivileged
  dsimp only
  split
  · rfl
  split
  · rfl
  rename_i notHalt notExit
  have result : vm.syscallResult = if vm.cpu.readReg 17 = 64 then some (vm.cpu.readReg 12)
      else some (-38) := by
    rw [syscallResult, if_neg (not_or.2 ⟨notHalt, notExit⟩)]
  have kept : ∀ {val : Word} {before : Vm}, vm.syscallResult = some val →
      before.cpu = vm.cpu → (before.writeReg 10 val).cpu.readReg reg = vm.cpu.readReg reg := by
    intro val before returned same
    by_cases here : reg = 10
    · subst here
      by_cases equal : val = vm.cpu.readReg 10
      · rw [writeReg, same, equal, CpuState.readReg_writeReg _ (by decide)]
      · refine absurd ?_ other
        rw [destination, returned, Option.all_some, if_neg]
        rintro (privileged | same)
        · exact unprivileged privileged
        · exact equal (of_decide_eq_true same)
    · rw [writeReg, same, CpuState.readReg_writeReg_of_ne _ here]
  split
  · rename_i write
    rw [if_pos write] at result
    exact kept result rfl
  · rename_i unknown
    rw [if_neg unknown] at result
    exact kept result rfl

theorem executeCsr_readReg (op : CsrOp) {rd : Reg} (other : reg ≠ rd) (csr : CsrAddr)
    (source : Word) (writes : Bool) :
    (vm.executeCsr op rd csr source writes).cpu.readReg reg = vm.cpu.readReg reg := by
  rw [executeCsr]
  split
  · split
    · exact trap_readReg _ _ _
    · rfl
  · dsimp only
    split
    · split
      · exact trap_readReg _ _ _
      · exact CpuState.readReg_writeReg_of_ne _ other _
    · exact CpuState.readReg_writeReg_of_ne _ other _

theorem execute_readReg {insn : Instruction} (other : vm.destination insn ≠ some reg) :
    (vm.execute insn).1.cpu.readReg reg = vm.cpu.readReg reg := by
  have apart : ∀ {rd : Reg}, some rd ≠ some reg → reg ≠ rd := fun differ same =>
    differ (congrArg some same.symm)
  have written : ∀ {rd : Reg} {val : Word} {before : Vm}, some rd ≠ some reg →
      before.cpu = vm.cpu →
        (before.writeReg rd val).cpu.readReg reg = vm.cpu.readReg reg := by
    intro rd val before differ same
    rw [writeReg, same, CpuState.readReg_writeReg_of_ne _ (apart differ)]
  cases insn with
  | lui | auipc | jal | jalr | opImm | op | opImmW | opW | mulDiv => exact written other rfl
  | branch | fence | fenceI => rfl
  | load op =>
      exact onAddress_readReg fun translated pa same =>
        written other ((loadOp_cpu translated pa op).trans same)
  | store op rs1 rs2 =>
      refine onAddress_readReg fun translated pa same => ?_
      have kept := (storeOp_cpu translated pa op (vm.cpu.readReg rs2)).trans same
      show (translated.storeOp op pa (vm.cpu.readReg rs2)).cpu.readReg reg = _
      rw [kept]
  | ecall => exact executeEcall_readReg other
  | ebreak =>
      simp only [execute]
      split
      · exact trap_readReg _ _ _
      · rfl
  | csr op => cases op <;> exact executeCsr_readReg _ (apart other) _ _ _
  | csrImm op => cases op <;> exact executeCsr_readReg _ (apart other) _ _ _
  | mret => rfl
  | sret =>
      simp only [execute, executeSret]
      split
      · exact trap_readReg _ _ _
      · rfl
  | wfi =>
      simp only [execute]
      split
      · exact trap_readReg _ _ _
      · rfl
  | sfenceVma =>
      simp only [execute]
      split
      · exact trap_readReg _ _ _
      · rfl
  | lr width =>
      refine onAddress_readReg fun translated pa same => ?_
      cases width with
      | w => exact written other ((mmioLoadWord_cpu translated pa).trans same)
      | d => exact written other ((mmioLoadDouble_cpu translated pa).trans same)
  | sc width =>
      refine onAddress_readReg fun translated pa same => ?_
      have choice : ∀ {held : Prop} [Decidable held] {stored : Vm}, stored.cpu = vm.cpu →
          ∀ rd : Reg, some rd ≠ some reg →
            (if held then stored.writeReg rd 0 else translated.writeReg rd 1).cpu.readReg reg =
              vm.cpu.readReg reg := by
        intro held _ stored kept rd differ
        split
        · exact written differ kept
        · exact written differ same
      cases width with
      | w => exact choice ((mmioStoreWord_cpu translated pa _).trans same) _ other
      | d => exact choice ((mmioStoreDouble_cpu translated pa _).trans same) _ other
  | amo op width =>
      exact onAddress_readReg fun translated pa same =>
        written other ((amoOp_cpu translated pa op width _).trans same)

theorem fetch_failed_cpu {vm failed : Vm} {e : DecodeError}
    (fault : vm.fetch = .failed failed e) : failed.cpu = vm.cpu := by
  simp only [fetch] at fault
  split at fault
  · cases fault
  · rename_i translated fetchPc translates
    split at fault
    · cases fault
    · split at fault
      · cases fault
      · cases fault
        have same := @translateFor_cpu { vm with lastFetched := none } _ _ _ _ translates
        exact same

/-- Only an unprivileged breakpoint ends in an error. -/
theorem execute_error {vm : Vm} {insn : Instruction} {e : VmError}
    (failed : (vm.execute insn).2 = .error e) : insn = .ebreak := by
  cases insn with
  | ebreak => rfl
  | csr op => cases op <;> cases failed
  | csrImm op => cases op <;> cases failed
  | _ => cases failed

end Execute

end Vm

end MetaVm.Riscv
