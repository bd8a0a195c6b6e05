import MetaVm.Riscv.Machine.Registers

namespace MetaVm.Riscv

/-! What executing an instruction can do to a machine. -/

/-- The number of bytes that a store writes. -/
def StoreOp.bytes : StoreOp → Byte
  | sb => 1
  | sh => 2
  | sw => 4
  | sd => 8

namespace Vm

/-- Apart from its registers, program counter, memory, devices and reservation,
and from having halted, a machine stays as it was. -/
structure KeepsControl (vm after : Vm) : Prop where
  csrs : after.cpu.csrs = vm.cpu.csrs
  privMode : after.cpu.privMode = vm.cpu.privMode
  privileged : after.privileged = vm.privileged
  insnLen : after.insnLen = vm.insnLen
  lastFetched : after.lastFetched = vm.lastFetched
  tlb : after.tlb = vm.tlb

namespace KeepsControl

variable {vm next after : Vm}

theorem refl (vm : Vm) : vm.KeepsControl vm := ⟨rfl, rfl, rfl, rfl, rfl, rfl⟩

theorem trans (first : vm.KeepsControl next) (second : next.KeepsControl after) :
    vm.KeepsControl after where
  csrs := second.csrs.trans first.csrs
  privMode := second.privMode.trans first.privMode
  privileged := second.privileged.trans first.privileged
  insnLen := second.insnLen.trans first.insnLen
  lastFetched := second.lastFetched.trans first.lastFetched
  tlb := second.tlb.trans first.tlb

end KeepsControl

@[simp]
theorem writeReg_privMode (cpu : CpuState) (reg : Reg) (val : Word) :
    (cpu.writeReg reg val).privMode = cpu.privMode := by
  unfold CpuState.writeReg
  split <;> rfl

/-- Nothing changes but the memory and the devices. -/
def Touches (vm after : Vm) : Prop :=
  ∃ memory mmio, after = { vm with memory := memory, mmio := mmio }

namespace Touches

variable {vm next after : Vm}

theorem refl (vm : Vm) : vm.Touches vm := ⟨vm.memory, vm.mmio, rfl⟩

theorem trans (first : vm.Touches next) (second : next.Touches after) : vm.Touches after := by
  obtain ⟨_, _, rfl⟩ := first
  obtain ⟨memory, mmio, rfl⟩ := second
  exact ⟨memory, mmio, rfl⟩

theorem keepsControl (touches : vm.Touches after) : vm.KeepsControl after := by
  obtain ⟨_, _, rfl⟩ := touches
  exact ⟨rfl, rfl, rfl, rfl, rfl, rfl⟩

theorem reservation (touches : vm.Touches after) : after.reservation = vm.reservation := by
  obtain ⟨_, _, rfl⟩ := touches
  rfl

end Touches

section Accesses

variable (vm : Vm) (addr : Word)

theorem keeps_writeReg (reg : Reg) (val : Word) : vm.KeepsControl (vm.writeReg reg val) :=
  ⟨vm.cpu.writeReg_csrs reg val, writeReg_privMode vm.cpu reg val, rfl, rfl, rfl, rfl⟩

theorem keeps_setPc (pc : Word) : vm.KeepsControl (vm.setPc pc) :=
  ⟨rfl, rfl, rfl, rfl, rfl, rfl⟩

theorem touches_mmioLoadByte : vm.Touches (vm.mmioLoadByte addr).2 := by
  rw [mmioLoadByte]
  split
  · exact .refl vm
  · exact ⟨_, _, rfl⟩

theorem touches_mmioStoreByte (val : Byte) : vm.Touches (vm.mmioStoreByte addr val) := by
  simp only [mmioStoreByte]
  split
  · exact ⟨_, _, rfl⟩
  · split
    · exact ⟨_, _, rfl⟩
    · exact ⟨_, _, rfl⟩

theorem touches_mmioLoadHalf : vm.Touches (vm.mmioLoadHalf addr).2 := by
  rw [mmioLoadHalf]
  split
  · exact .refl vm
  · exact (touches_mmioLoadByte vm addr).trans (touches_mmioLoadByte _ (addr + 1))

theorem touches_mmioStoreHalf (val : BitVec 16) : vm.Touches (vm.mmioStoreHalf addr val) := by
  rw [mmioStoreHalf]
  split
  · exact ⟨_, _, rfl⟩
  · exact (touches_mmioStoreByte vm addr _).trans (touches_mmioStoreByte _ (addr + 1) _)

theorem touches_mmioLoadWord : vm.Touches (vm.mmioLoadWord addr).2 := by
  rw [mmioLoadWord]
  split
  · exact .refl vm
  · exact (touches_mmioLoadHalf vm addr).trans (touches_mmioLoadHalf _ (addr + 2))

theorem touches_mmioStoreWord (val : BitVec 32) : vm.Touches (vm.mmioStoreWord addr val) := by
  rw [mmioStoreWord]
  split
  · exact ⟨_, _, rfl⟩
  · exact (touches_mmioStoreHalf vm addr _).trans (touches_mmioStoreHalf _ (addr + 2) _)

theorem touches_mmioLoadDouble : vm.Touches (vm.mmioLoadDouble addr).2 := by
  rw [mmioLoadDouble]
  split
  · exact .refl vm
  · exact (touches_mmioLoadWord vm addr).trans (touches_mmioLoadWord _ (addr + 4))

theorem touches_mmioStoreDouble (val : Word) : vm.Touches (vm.mmioStoreDouble addr val) := by
  rw [mmioStoreDouble]
  split
  · exact ⟨_, _, rfl⟩
  · exact (touches_mmioStoreWord vm addr _).trans (touches_mmioStoreWord _ (addr + 4) _)

theorem touches_loadOp (op : LoadOp) : vm.Touches (vm.loadOp op addr).2 := by
  cases op with
  | lb | lbu => exact touches_mmioLoadByte vm addr
  | lh | lhu => exact touches_mmioLoadHalf vm addr
  | lw | lwu => exact touches_mmioLoadWord vm addr
  | ld => exact touches_mmioLoadDouble vm addr

theorem touches_amoOp (op : AmoOp) (width : AmoWidth) (src : Word) :
    vm.Touches (vm.amoOp op width addr src).2 := by
  cases width with
  | w => exact (touches_mmioLoadWord vm addr).trans (touches_mmioStoreWord _ addr _)
  | d => exact (touches_mmioLoadDouble vm addr).trans (touches_mmioStoreDouble _ addr _)

theorem keeps_checkReservationOnStore (size : Byte) :
    vm.KeepsControl (vm.checkReservationOnStore addr size) := by
  rw [checkReservationOnStore]
  split
  · split
    · exact ⟨rfl, rfl, rfl, rfl, rfl, rfl⟩
    · exact .refl vm
  · exact .refl vm

/-- A store touches memory and devices and then drops a reservation that it hits. -/
theorem storeOp_eq (op : StoreOp) (val : Word) :
    ∃ stored, vm.Touches stored ∧
      vm.storeOp op addr val = stored.checkReservationOnStore addr op.bytes := by
  cases op with
  | sb => exact ⟨_, touches_mmioStoreByte vm addr _, rfl⟩
  | sh => exact ⟨_, touches_mmioStoreHalf vm addr _, rfl⟩
  | sw => exact ⟨_, touches_mmioStoreWord vm addr _, rfl⟩
  | sd => exact ⟨_, touches_mmioStoreDouble vm addr _, rfl⟩

theorem keeps_storeOp (op : StoreOp) (val : Word) :
    vm.KeepsControl (vm.storeOp op addr val) := by
  obtain ⟨stored, touches, same⟩ := vm.storeOp_eq addr op val
  rw [same]
  exact touches.keepsControl.trans (keeps_checkReservationOnStore stored addr op.bytes)

end Accesses

/-- The address that an instruction translates, and what for. -/
def dataAccess (vm : Vm) : Instruction → Option (Word × AccessType)
  | .load _ _ rs1 imm => some (vm.cpu.readReg rs1 + imm.word, .read)
  | .store _ rs1 _ imm => some (vm.cpu.readReg rs1 + imm.word, .write)
  | .lr _ _ rs1 _ _ => some (vm.cpu.readReg rs1, .read)
  | .sc _ _ rs1 _ _ _ => some (vm.cpu.readReg rs1, .write)
  | .amo _ _ _ rs1 _ _ _ => some (vm.cpu.readReg rs1, .write)
  | _ => none

/-- The ways in which an instruction ends: it runs, with or without a translated
address, or faults on one, or traps, or writes a control register, or returns from a
trap, or flushes the address translation cache. -/
inductive Effect (vm : Vm) : Instruction → Vm → Prop
  | runs {insn : Instruction} {after : Vm} (keeps : vm.KeepsControl after) :
      Effect vm insn after
  | accesses {insn : Instruction} {vaddr pa : Word} {accessType : AccessType}
      {translated after : Vm} (target : vm.dataAccess insn = some (vaddr, accessType))
      (translates : vm.translateFor vaddr accessType = (translated, some pa))
      (keeps : translated.KeepsControl after) : Effect vm insn after
  | faults {insn : Instruction} {vaddr : Word} {accessType : AccessType} {after : Vm}
      (fault : vm.translateFor vaddr accessType = (after, none)) : Effect vm insn after
  | traps {insn : Instruction} (cause : ExceptionCause) :
      Effect vm insn (vm.trap (.exception cause) 0 vm.cpu.pc)
  | writesCsr {insn : Instruction} {csr : CsrAddr} {val : Word} {csrs : CsrFile} {after : Vm}
      (written : vm.cpu.csrs.write csr val vm.cpu.privMode = .ok csrs)
      (keeps : KeepsControl { vm with cpu := { vm.cpu with csrs := csrs } } after) :
      Effect vm insn after
  | returnsMachine : Effect vm .mret vm.executeMret
  | returnsSupervisor (allowed : vm.supervisorBars Mstatus.tsr = false) :
      Effect vm .sret vm.executeSret
  | flushes {insn : Instruction} (pc : Word) : Effect vm insn (vm.tlbFlush.setPc pc)

section Execute

variable {vm : Vm} {insn : Instruction}

theorem Effect.onAddress {vaddr : Word} {accessType : AccessType} {next : Vm → Word → Vm}
    (target : vm.dataAccess insn = some (vaddr, accessType))
    (each : ∀ (translated : Vm) (pa : Word), translated.KeepsControl (next translated pa)) :
    vm.Effect insn (onAddress (vm.translateFor vaddr accessType) next) := by
  cases translates : vm.translateFor vaddr accessType with
  | mk translated found =>
      cases found with
      | some pa => exact .accesses target translates (each translated pa)
      | none => exact .faults translates

theorem effect_executeEcall : vm.Effect insn vm.executeEcall := by
  rw [executeEcall]
  split
  · exact .traps _
  · dsimp only
    split
    · exact .runs ⟨rfl, rfl, rfl, rfl, rfl, rfl⟩
    split
    · exact .runs ⟨rfl, rfl, rfl, rfl, rfl, rfl⟩
    split
    · refine .runs (KeepsControl.trans ?_ ((keeps_writeReg _ 10 _).trans (keeps_setPc _ _)))
      exact ⟨rfl, rfl, rfl, rfl, rfl, rfl⟩
    · exact .runs ((keeps_writeReg vm 10 _).trans (keeps_setPc _ _))

theorem effect_executeCsr (op : CsrOp) (rd : Reg) (csr : CsrAddr) (source : Word)
    (writes : Bool) : vm.Effect insn (vm.executeCsr op rd csr source writes) := by
  rw [executeCsr]
  split
  · split
    · exact .traps _
    · exact .runs (.refl vm)
  · rename_i old _
    have moved : ∀ csrs, KeepsControl { vm with cpu := { vm.cpu with csrs := csrs } }
        (({ vm with cpu := { vm.cpu with csrs := csrs } }.writeReg rd old).setPc
          vm.sequentialPc) := fun csrs =>
      (keeps_writeReg _ rd old).trans (keeps_setPc _ _)
    cases writes with
    | false => exact .runs (moved vm.cpu.csrs)
    | true =>
        simp only [if_true]
        split
        · split
          · exact .traps _
          · exact .runs ((keeps_writeReg vm rd old).trans (keeps_setPc _ _))
        · rename_i csrs written
          exact .writesCsr written (moved csrs)

theorem execute_effect (vm : Vm) (insn : Instruction) :
    vm.Effect insn (vm.execute insn).1 := by
  have written : ∀ (before : Vm) (rd : Reg) (val pc : Word),
      before.KeepsControl ((before.writeReg rd val).setPc pc) := fun before rd val pc =>
    (keeps_writeReg before rd val).trans (keeps_setPc _ pc)
  cases insn with
  | lui | auipc | jal | jalr | opImm | op | opImmW | opW | mulDiv =>
      exact .runs (written vm _ _ _)
  | branch | fence | fenceI => exact .runs (keeps_setPc vm _)
  | load op =>
      exact .onAddress rfl fun translated pa =>
        (touches_loadOp translated pa op).keepsControl.trans (written _ _ _ _)
  | store op =>
      exact .onAddress rfl fun translated pa =>
        (keeps_storeOp translated pa op _).trans (keeps_setPc _ _)
  | ecall => exact effect_executeEcall
  | ebreak =>
      simp only [execute]
      split
      · exact .traps _
      · exact .runs ⟨rfl, rfl, rfl, rfl, rfl, rfl⟩
  | csr op => cases op <;> exact effect_executeCsr _ _ _ _ _
  | csrImm op => cases op <;> exact effect_executeCsr _ _ _ _ _
  | mret => exact .returnsMachine
  | sret =>
      by_cases barred : vm.supervisorBars Mstatus.tsr = true
      · simp only [execute, executeSret, if_pos barred]
        exact .traps _
      · exact .returnsSupervisor (Bool.eq_false_of_not_eq_true barred)
  | wfi =>
      simp only [execute]
      split
      · exact .traps _
      · exact .runs (keeps_setPc vm _)
  | sfenceVma =>
      simp only [execute]
      split
      · exact .traps _
      · exact .flushes _
  | lr width =>
      refine .onAddress rfl fun translated pa => ?_
      have reserved : ∀ (before : Vm) (rd : Reg) (val pc : Word) (size : Byte),
          before.KeepsControl { (before.writeReg rd val).setPc pc with
            reservation := some (pa, size) } := fun before rd val pc size =>
        (written before rd val pc).trans ⟨rfl, rfl, rfl, rfl, rfl, rfl⟩
      cases width with
      | w => exact (touches_mmioLoadWord translated pa).keepsControl.trans (reserved _ _ _ _ _)
      | d => exact (touches_mmioLoadDouble translated pa).keepsControl.trans (reserved _ _ _ _ _)
  | sc width =>
      refine .onAddress rfl fun translated pa => ?_
      have choice : ∀ {held : Prop} [Decidable held] {stored : Vm},
          translated.KeepsControl stored → ∀ (rd : Reg) (pc : Word),
            translated.KeepsControl { (if held then stored.writeReg rd 0
              else translated.writeReg rd 1).setPc pc with reservation := none } := by
        intro held _ stored keeps rd pc
        refine KeepsControl.trans ?_
          ((keeps_setPc (if held then stored.writeReg rd 0 else translated.writeReg rd 1) pc).trans
            ⟨rfl, rfl, rfl, rfl, rfl, rfl⟩)
        split
        · exact keeps.trans (keeps_writeReg stored rd 0)
        · exact keeps_writeReg translated rd 1
      cases width with
      | w => exact choice (touches_mmioStoreWord translated pa _).keepsControl _ _
      | d => exact choice (touches_mmioStoreDouble translated pa _).keepsControl _ _
  | amo op width =>
      refine .onAddress rfl fun translated pa => ?_
      have released : ∀ (before : Vm) (rd : Reg) (val pc : Word),
          before.KeepsControl { (before.writeReg rd val).setPc pc with
            reservation := none } := fun before rd val pc =>
        (written before rd val pc).trans ⟨rfl, rfl, rfl, rfl, rfl, rfl⟩
      exact (touches_amoOp translated pa op width _).keepsControl.trans (released _ _ _ _)

end Execute

end Vm

end MetaVm.Riscv
