import MetaVm.Riscv.Machine.Reservations
import MetaVm.Riscv.Trace.MemoryHash

namespace MetaVm.Riscv

/-! What no step takes back: output that was written, pages that were marked dirty
and the pending bits of the interrupt controller. -/

namespace VirtioBlockDevice

variable {dev next : VirtioBlockDevice} {memory written : Memory}

theorem writes_diskToMemory {disk : List Byte} {diskOffset dataAddr : Word} {count : ℕ}
    (copied : diskToMemory disk memory diskOffset dataAddr count = some written) :
    memory.Writes written := by
  rw [diskToMemory] at copied
  induction count generalizing written with
  | zero =>
      cases copied
      exact DirtyCache.Writes.refl _ _
  | succ count hypothesis =>
      rw [List.range_succ, List.foldlM_append] at copied
      obtain ⟨shorter, before, last⟩ := Option.bind_eq_some_iff.1 copied
      rw [List.foldlM_cons] at last
      obtain ⟨stored, one, done⟩ := Option.bind_eq_some_iff.1 last
      obtain ⟨byte, -, same⟩ := Option.map_eq_some_iff.1 one
      cases done
      rw [← same]
      exact (hypothesis before).trans (shorter.writes_storeByte _ _)

theorem writes_performIo {reqType totalWritten : BitVec 32} {sector dataAddr dataLen : Word}
    {disk : List Byte} {statusByte : Byte}
    (done : dev.performIo memory reqType sector dataAddr dataLen =
      some (disk, written, statusByte, totalWritten)) : memory.Writes written := by
  have same : ∀ {other : Memory}, memory = other → memory.Writes other := by
    rintro _ rfl
    exact DirtyCache.Writes.refl _ _
  simp only [performIo] at done
  split at done
  · split at done
    · cases done
      exact same rfl
    · obtain ⟨copied, copies, result⟩ := Option.map_eq_some_iff.1 done
      cases result
      exact writes_diskToMemory copies
  · split at done
    · split at done
      · cases done
        exact same rfl
      · obtain ⟨_, -, result⟩ := Option.map_eq_some_iff.1 done
        cases result
        exact same rfl
    · cases done
      exact same rfl

theorem writes_postUsed (dev : VirtioBlockDevice) (memory : Memory)
    (headIdx totalWritten : BitVec 32) :
    memory.Writes (dev.postUsed memory headIdx totalWritten) :=
  ((memory.writes_storeWord _ _).trans (Memory.writes_storeWord _ _ _)).trans
    (Memory.writes_storeHalf _ _ _)

theorem writes_processEntry (done : dev.processEntry memory = some (next, written)) :
    memory.Writes written := by
  simp only [processEntry] at done
  obtain ⟨⟨disk, stored, statusByte, totalWritten⟩, performs, result⟩ :=
    Option.map_eq_some_iff.1 done
  cases result
  exact ((writes_performIo performs).trans (stored.writes_storeByte _ _)).trans
    (writes_postUsed _ _ _ _)

theorem writes_processEntries {count : ℕ}
    (done : dev.processEntries memory count = some (next, written)) :
    memory.Writes written := by
  induction count generalizing dev memory with
  | zero =>
      cases done
      exact DirtyCache.Writes.refl _ _
  | succ count hypothesis =>
      rw [processEntries] at done
      obtain ⟨⟨after, between⟩, first, rest⟩ := Option.bind_eq_some_iff.1 done
      exact (writes_processEntry first).trans (hypothesis rest)

theorem writes_processQueue (done : dev.processQueue memory = some (next, written)) :
    memory.Writes written := by
  simp only [processQueue] at done
  split at done
  · cases done
    exact DirtyCache.Writes.refl _ _
  · obtain ⟨⟨after, between⟩, entries, result⟩ := Option.map_eq_some_iff.1 done
    have all := writes_processEntries entries
    dsimp only at result
    split at result
    · cases result
      exact all
    · cases result
      exact all

end VirtioBlockDevice

/-! The devices. -/

theorem UartDevice.output_readMut (uart : UartDevice) (offset : Word) :
    (uart.readMut offset).2.output = uart.output := by
  unfold readMut
  split
  · split <;> rfl
  · rfl

theorem UartDevice.output_write (uart : UartDevice) (offset : Word) (val : Byte) :
    uart.output <+: (uart.write offset val).output := by
  unfold write
  split
  · split
    · exact List.prefix_rfl
    · exact List.prefix_append _ _
  · repeat' split
    all_goals exact List.prefix_rfl

theorem PlicDevice.pending_writeU8 (plic : PlicDevice) (offset : Word) (val : Byte) :
    (plic.writeU8 offset val).pending = plic.pending := by
  simp only [writeU8, writeU32]
  repeat' split
  all_goals rfl

namespace Vm

/-- Nothing is taken back on the way from one machine to another. -/
structure Evolves (vm after : Vm) : Prop where
  memory : vm.memory.Writes after.memory
  output : vm.mmio.uart.output <+: after.mmio.uart.output
  pending : after.mmio.plic.pending = vm.mmio.plic.pending

namespace Evolves

variable {vm next after : Vm}

theorem trans (first : vm.Evolves next) (second : next.Evolves after) : vm.Evolves after where
  memory := first.memory.trans second.memory
  output := first.output.trans second.output
  pending := second.pending.trans first.pending

theorem of_same (memory : after.memory = vm.memory) (mmio : after.mmio = vm.mmio) :
    vm.Evolves after := by
  refine ⟨?_, ?_, ?_⟩
  · rw [memory]
    exact DirtyCache.Writes.refl _ _
  · rw [mmio]
  · rw [mmio]

theorem refl (vm : Vm) : vm.Evolves vm := of_same rfl rfl

theorem of_writes {memory : Memory} (writes : vm.memory.Writes memory) :
    vm.Evolves { vm with memory := memory } :=
  ⟨writes, List.prefix_rfl, rfl⟩

end Evolves

section Accesses

variable (vm : Vm) (addr : Word)

theorem evolves_mmioLoadByte : vm.Evolves (vm.mmioLoadByte addr).2 := by
  rw [mmioLoadByte]
  split
  · exact .refl vm
  · simp only [MmioController.readByte]
    split
    · refine ⟨DirtyCache.Writes.refl _ _, ?_, rfl⟩
      dsimp only
      rw [UartDevice.output_readMut]
    · split
      · exact .refl vm
      · split
        · exact .refl vm
        · exact .refl vm

theorem evolves_mmioStoreByte (val : Byte) : vm.Evolves (vm.mmioStoreByte addr val) := by
  simp only [mmioStoreByte, MmioController.writeByte]
  split
  · exact .of_writes (vm.memory.writes_storeByte _ _)
  · split
    · exact ⟨DirtyCache.Writes.refl _ _, vm.mmio.uart.output_write _ _, rfl⟩
    · split
      · exact ⟨DirtyCache.Writes.refl _ _, List.prefix_rfl, rfl⟩
      · split
        · exact ⟨DirtyCache.Writes.refl _ _, List.prefix_rfl, vm.mmio.plic.pending_writeU8 _ _⟩
        · cases vm.mmio.virtioIndex addr with
          | some index => exact ⟨DirtyCache.Writes.refl _ _, List.prefix_rfl, rfl⟩
          | none => exact .of_writes (vm.memory.writes_storeByte _ _)

theorem evolves_mmioLoadHalf : vm.Evolves (vm.mmioLoadHalf addr).2 := by
  rw [mmioLoadHalf]
  split
  · exact .refl vm
  · exact (evolves_mmioLoadByte vm addr).trans (evolves_mmioLoadByte _ (addr + 1))

theorem evolves_mmioStoreHalf (val : BitVec 16) : vm.Evolves (vm.mmioStoreHalf addr val) := by
  rw [mmioStoreHalf]
  split
  · exact .of_writes (vm.memory.writes_storeHalf _ _)
  · exact (evolves_mmioStoreByte vm addr _).trans (evolves_mmioStoreByte _ (addr + 1) _)

theorem evolves_mmioLoadWord : vm.Evolves (vm.mmioLoadWord addr).2 := by
  rw [mmioLoadWord]
  split
  · exact .refl vm
  · exact (evolves_mmioLoadHalf vm addr).trans (evolves_mmioLoadHalf _ (addr + 2))

theorem evolves_mmioStoreWord (val : BitVec 32) : vm.Evolves (vm.mmioStoreWord addr val) := by
  rw [mmioStoreWord]
  split
  · exact .of_writes (vm.memory.writes_storeWord _ _)
  · exact (evolves_mmioStoreHalf vm addr _).trans (evolves_mmioStoreHalf _ (addr + 2) _)

theorem evolves_mmioLoadDouble : vm.Evolves (vm.mmioLoadDouble addr).2 := by
  rw [mmioLoadDouble]
  split
  · exact .refl vm
  · exact (evolves_mmioLoadWord vm addr).trans (evolves_mmioLoadWord _ (addr + 4))

theorem evolves_mmioStoreDouble (val : Word) : vm.Evolves (vm.mmioStoreDouble addr val) := by
  rw [mmioStoreDouble]
  split
  · exact .of_writes (vm.memory.writes_storeDouble _ _)
  · exact (evolves_mmioStoreWord vm addr _).trans (evolves_mmioStoreWord _ (addr + 4) _)

theorem evolves_loadOp (op : LoadOp) : vm.Evolves (vm.loadOp op addr).2 := by
  cases op with
  | lb | lbu => exact evolves_mmioLoadByte vm addr
  | lh | lhu => exact evolves_mmioLoadHalf vm addr
  | lw | lwu => exact evolves_mmioLoadWord vm addr
  | ld => exact evolves_mmioLoadDouble vm addr

theorem evolves_amoOp (op : AmoOp) (width : AmoWidth) (src : Word) :
    vm.Evolves (vm.amoOp op width addr src).2 := by
  cases width with
  | w => exact (evolves_mmioLoadWord vm addr).trans (evolves_mmioStoreWord _ addr _)
  | d => exact (evolves_mmioLoadDouble vm addr).trans (evolves_mmioStoreDouble _ addr _)

theorem evolves_checkReservationOnStore (size : Byte) :
    vm.Evolves (vm.checkReservationOnStore addr size) := by
  rw [checkReservationOnStore]
  split
  · split
    · exact .of_same rfl rfl
    · exact .refl vm
  · exact .refl vm

theorem evolves_storeOp (op : StoreOp) (val : Word) : vm.Evolves (vm.storeOp op addr val) := by
  cases op with
  | sb => exact (evolves_mmioStoreByte vm addr _).trans (evolves_checkReservationOnStore _ _ _)
  | sh => exact (evolves_mmioStoreHalf vm addr _).trans (evolves_checkReservationOnStore _ _ _)
  | sw => exact (evolves_mmioStoreWord vm addr _).trans (evolves_checkReservationOnStore _ _ _)
  | sd => exact (evolves_mmioStoreDouble vm addr _).trans (evolves_checkReservationOnStore _ _ _)

theorem evolves_translateFor (accessType : AccessType) :
    vm.Evolves (vm.translateFor addr accessType).1 := by
  unfold translateFor
  split
  · simp only [translateAddr]
    split
    · exact .refl vm
    · split
      · refine ⟨?_, List.prefix_rfl, rfl⟩
        dsimp only [tlbInsert]
        split
        · exact vm.memory.writes_storeDouble _ _
        · exact DirtyCache.Writes.refl _ _
      · exact .of_same rfl rfl
  · exact .refl vm

end Accesses

section Execute

variable {vm : Vm}

theorem Evolves.onAddress {vaddr : Word} {accessType : AccessType} {next : Vm → Word → Vm}
    (each : ∀ (translated : Vm) (pa : Word), translated.Evolves (next translated pa)) :
    vm.Evolves (onAddress (vm.translateFor vaddr accessType) next) := by
  have kept := vm.evolves_translateFor vaddr accessType
  cases translates : vm.translateFor vaddr accessType with
  | mk translated found =>
      rw [translates] at kept
      cases found with
      | some pa => exact kept.trans (each translated pa)
      | none => exact kept

theorem evolves_executeEcall : vm.Evolves vm.executeEcall := by
  rw [executeEcall]
  split
  · exact .of_same rfl rfl
  · dsimp only
    split
    · exact .of_same rfl rfl
    split
    · exact .of_same rfl rfl
    split
    · exact ⟨DirtyCache.Writes.refl _ _, List.prefix_append _ _, rfl⟩
    · exact .of_same rfl rfl

theorem evolves_executeCsr (op : CsrOp) (rd : Reg) (csr : CsrAddr) (source : Word)
    (writes : Bool) : vm.Evolves (vm.executeCsr op rd csr source writes) := by
  simp only [executeCsr]
  split
  · split
    · exact .of_same rfl rfl
    · exact .refl vm
  · split
    · split
      · exact .of_same rfl rfl
      · exact .of_same rfl rfl
    · exact .of_same rfl rfl

theorem evolves_execute (vm : Vm) (insn : Instruction) : vm.Evolves (vm.execute insn).1 := by
  cases insn with
  | lui | auipc | jal | jalr | branch | opImm | op | opImmW | opW | mulDiv | fence | fenceI
  | mret => exact .of_same rfl rfl
  | load op =>
      exact .onAddress fun translated pa =>
        (evolves_loadOp translated pa op).trans (.of_same rfl rfl)
  | store op =>
      exact .onAddress fun translated pa =>
        (evolves_storeOp translated pa op _).trans (.of_same rfl rfl)
  | ecall => exact evolves_executeEcall
  | ebreak =>
      simp only [execute]
      split
      · exact .of_same rfl rfl
      · exact .of_same rfl rfl
  | csr op => cases op <;> exact evolves_executeCsr _ _ _ _ _
  | csrImm op => cases op <;> exact evolves_executeCsr _ _ _ _ _
  | sret =>
      simp only [execute, executeSret]
      split
      · exact .of_same rfl rfl
      · exact .of_same rfl rfl
  | wfi =>
      simp only [execute]
      split
      · exact .of_same rfl rfl
      · exact .of_same rfl rfl
  | sfenceVma =>
      simp only [execute]
      split
      · exact .of_same rfl rfl
      · exact .of_same rfl rfl
  | lr width =>
      refine .onAddress fun translated pa => ?_
      cases width with
      | w => exact (evolves_mmioLoadWord translated pa).trans (.of_same rfl rfl)
      | d => exact (evolves_mmioLoadDouble translated pa).trans (.of_same rfl rfl)
  | sc width =>
      refine .onAddress fun translated pa => ?_
      have choice : ∀ {held : Prop} [Decidable held] {stored : Vm},
          translated.Evolves stored → ∀ (rd : Reg) (pc : Word),
            translated.Evolves { (if held then stored.writeReg rd 0
              else translated.writeReg rd 1).setPc pc with reservation := none } := by
        intro held _ stored evolves rd pc
        split
        · exact evolves.trans (.of_same rfl rfl)
        · exact .of_same rfl rfl
      cases width with
      | w => exact choice (evolves_mmioStoreWord translated pa _) _ _
      | d => exact choice (evolves_mmioStoreDouble translated pa _) _ _
  | amo op width =>
      exact .onAddress fun translated pa =>
        (evolves_amoOp translated pa op width _).trans (.of_same rfl rfl)

/-! A whole step and whole runs. -/

theorem writes_processVirtio {memory written : Memory} {devices next : List VirtioBlockDevice}
    (done : processVirtio memory devices = some (next, written)) : memory.Writes written := by
  induction devices generalizing memory next with
  | nil =>
      cases done
      exact DirtyCache.Writes.refl _ _
  | cons dev rest hypothesis =>
      have onward : ∀ {served : VirtioBlockDevice} {between : Memory},
          ((processVirtio between rest).bind fun others =>
            some (served :: others.1, others.2)) = some (next, written) →
              between.Writes written := by
        intro served between others
        obtain ⟨⟨left, last⟩, after, result⟩ := Option.bind_eq_some_iff.1 others
        cases result
        exact hypothesis after
      rw [processVirtio] at done
      split at done
      · obtain ⟨⟨served, between⟩, first, others⟩ := Option.bind_eq_some_iff.1 done
        exact (VirtioBlockDevice.writes_processQueue first).trans (onward others)
      · exact onward done

theorem evolves_tickDevices {ticked : Vm} (ticks : vm.tickDevices = some ticked) :
    vm.Evolves ticked := by
  simp only [tickDevices] at ticks
  obtain ⟨⟨devices, memory⟩, processed, rfl⟩ := Option.map_eq_some_iff.1 ticks
  exact ⟨writes_processVirtio processed, List.prefix_rfl, rfl⟩

theorem evolves_takeInterrupt (vm : Vm) : vm.Evolves vm.takeInterrupt := by
  unfold takeInterrupt
  split
  · exact .of_same rfl rfl
  · exact .refl vm

theorem evolves_prepare {prepared : Vm} (prepares : vm.prepare = some prepared) :
    vm.Evolves prepared := by
  rw [prepare_eq, tick] at prepares
  obtain ⟨ticked, ticks, rfl⟩ := Option.map_eq_some_iff.1 prepares
  have taken := ticked.evolves_takeInterrupt
  split at ticks
  · exact (evolves_tickDevices ticks).trans taken
  · cases ticks
    exact taken

theorem evolves_retire (vm : Vm) : vm.Evolves vm.retire := by
  unfold retire
  split
  · exact .of_same rfl rfl
  · exact .refl vm

theorem evolves_fetch (vm : Vm) : vm.Evolves vm.fetch.machine := by
  have forgets : vm.Evolves { vm with lastFetched := none } := .of_same rfl rfl
  have translates := forgets.trans (evolves_translateFor _ vm.cpu.pc .execute)
  simp only [fetch]
  split
  · rename_i translated found
    rw [found] at translates
    exact translates
  · rename_i translated fetchPc found
    rw [found] at translates
    split
    · exact translates.trans (.of_same rfl rfl)
    · split
      · exact translates.trans (.of_same rfl rfl)
      · exact translates

theorem evolves_stepInner (vm : Vm) : vm.Evolves vm.stepInner.1 := by
  have fetches := vm.evolves_fetch
  rw [stepInner]
  cases outcome : vm.fetch with
  | fetched ready fetched =>
      rw [outcome] at fetches
      have executes := ready.evolves_execute fetched.instruction
      dsimp only
      split
      · rename_i after ran
        rw [ran] at executes
        exact (Evolves.trans fetches executes).trans after.evolves_retire
      · rename_i after e ran
        rw [ran] at executes
        exact Evolves.trans fetches executes
  | trapped trapped =>
      rw [outcome] at fetches
      exact fetches
  | failed failed e =>
      rw [outcome] at fetches
      exact fetches

theorem evolves_step {after : Vm} {result : Except VmError Unit}
    (stepped : vm.step = some (after, result)) : vm.Evolves after := by
  rw [step] at stepped
  split at stepped
  · cases stepped
    exact .refl vm
  · obtain ⟨prepared, prepares, inner⟩ := Option.map_eq_some_iff.1 stepped
    have last := prepared.evolves_stepInner
    rw [inner] at last
    exact (evolves_prepare prepares).trans last

/-- No run takes anything back. -/
theorem Run.evolves {start : Vm} {steps : List Vm} (run : Run start steps vm) :
    start.Evolves vm := by
  induction run with
  | refl => exact .refl start
  | step run stepped hypothesis => exact hypothesis.trans (evolves_step stepped)

end Execute

end Vm

end MetaVm.Riscv
