import MetaVm.Riscv.Machine.Vm

namespace MetaVm.Riscv.Vm

/-! What stepping leaves alone: the registers change only when an instruction
executes, the program counter also when a trap is taken. -/

theorem tlbInsert_cpu (vm : Vm) (vaddr paddr satp : Word) (r w x : Bool) :
    (vm.tlbInsert vaddr paddr satp r w x).cpu = vm.cpu := rfl

theorem translateAddr_cpu {vm translated : Vm} {vaddr pa : Word}
    {accessType : AccessType}
    (found : vm.translateAddr vaddr accessType = (translated, some pa)) :
    translated.cpu = vm.cpu := by
  simp only [translateAddr] at found
  split at found
  · cases found
    rfl
  · split at found
    · cases found
      exact tlbInsert_cpu _ _ _ _ _ _ _
    · cases found

theorem translateFor_cpu {vm translated : Vm} {vaddr pa : Word}
    {accessType : AccessType}
    (found : vm.translateFor vaddr accessType = (translated, some pa)) :
    translated.cpu = vm.cpu := by
  unfold translateFor at found
  split at found
  · exact translateAddr_cpu found
  · cases found
    rfl

/-- A page fault keeps the registers. -/
theorem translateFor_x_of_fault {vm faulted : Vm} {vaddr : Word}
    {accessType : AccessType}
    (fault : vm.translateFor vaddr accessType = (faulted, none)) :
    faulted.cpu.x = vm.cpu.x := by
  unfold translateFor at fault
  split at fault
  · simp only [translateAddr] at fault
    split at fault
    · cases fault
    · split at fault
      · cases fault
      · cases fault
        exact deliverTrap_x _ _ _ _
  · cases fault

/-- A fetch that finds an instruction only notes its length. -/
theorem fetch_frame {vm ready : Vm} {fetched : FetchedInstruction}
    (found : vm.fetch = .fetched ready fetched) :
    ready.cpu = vm.cpu ∧ ready.insnLen = fetched.len := by
  simp only [fetch] at found
  split at found
  · cases found
  · rename_i translated fetchPc translates
    split at found
    · cases found
      have same := translateFor_cpu translates
      exact ⟨same, rfl⟩
    · split at found <;> cases found

theorem tickDevices_frame {vm ticked : Vm} (ticks : vm.tickDevices = some ticked) :
    ticked.cpu.x = vm.cpu.x := by
  simp only [tickDevices] at ticks
  obtain ⟨processed, _, rfl⟩ := Option.map_eq_some_iff.1 ticks
  rfl

theorem checkPendingInterrupts_x (vm : Vm) :
    vm.checkPendingInterrupts.cpu.x = vm.cpu.x := by
  simp only [checkPendingInterrupts]
  split
  · exact deliverTrap_x _ _ _ _
  · rfl

theorem prepare_x {vm prepared : Vm} (prepares : vm.prepare = some prepared) :
    prepared.cpu.x = vm.cpu.x := by
  unfold prepare at prepares
  split at prepares
  · obtain ⟨ticked, ticks, rfl⟩ := Option.map_eq_some_iff.1 prepares
    rw [checkPendingInterrupts_x, tickDevices_frame ticks]
  · cases prepares
    rfl

@[simp]
theorem retire_x (vm : Vm) : vm.retire.cpu.x = vm.cpu.x := by
  unfold retire
  split <;> rfl

@[simp]
theorem retire_pc (vm : Vm) : vm.retire.cpu.pc = vm.cpu.pc := by
  unfold retire
  split <;> rfl

theorem readReg_of_x {first second : CpuState} (same : first.x = second.x)
    (reg : Reg) : first.readReg reg = second.readReg reg := by
  rw [CpuState.readReg, CpuState.readReg, same]

/-- A step executes `fetched` at the program counter it starts from, on the
machine `ready`: neither an interrupt nor a page fault comes before it, and it
is the instruction that the machine fetches. -/
structure Executes (vm ready : Vm) (fetched : FetchedInstruction) : Prop where
  running : vm.halted = false
  fetches : ∃ prepared, vm.prepare = some prepared ∧
    prepared.cpu.pc = vm.cpu.pc ∧ prepared.fetch = .fetched ready fetched

namespace Executes

variable {vm ready : Vm} {fetched : FetchedInstruction}

theorem pc (executes : vm.Executes ready fetched) : ready.cpu.pc = vm.cpu.pc := by
  obtain ⟨prepared, _, samePc, fetches⟩ := executes.fetches
  rw [(fetch_frame fetches).1, samePc]

theorem readReg (executes : vm.Executes ready fetched) (reg : Reg) :
    ready.cpu.readReg reg = vm.cpu.readReg reg := by
  obtain ⟨prepared, prepares, _, fetches⟩ := executes.fetches
  rw [(fetch_frame fetches).1, readReg_of_x (prepare_x prepares)]

theorem insnLen (executes : vm.Executes ready fetched) :
    ready.insnLen = fetched.len := by
  obtain ⟨_, _, _, fetches⟩ := executes.fetches
  exact (fetch_frame fetches).2

theorem sequentialPc (executes : vm.Executes ready fetched) :
    ready.sequentialPc = vm.cpu.pc + fetched.len.setWidth 64 := by
  rw [Vm.sequentialPc, executes.pc, executes.insnLen]

theorem step_eq (executes : vm.Executes ready fetched) {after : Vm}
    (ran : ready.execute fetched.instruction = (after, .ok ())) :
    vm.step = some (after.retire, .ok ()) := by
  obtain ⟨prepared, prepares, _, fetches⟩ := executes.fetches
  rw [Vm.step, executes.running, if_neg Bool.false_ne_true, prepares,
    Option.map_some, stepInner, fetches]
  simp only [ran]

end Executes

/-- The machine that has fetched an instruction. -/
def noteFetched (vm : Vm) (fetched : FetchedInstruction) : Vm :=
  { vm with
    insnLen := fetched.len
    lastFetched := some (fetched.instruction, fetched.len) }

section Unprivileged

variable {vm : Vm} {fetched : FetchedInstruction} (running : vm.halted = false)
  (unprivileged : vm.privileged = false)
  (stands : fetchDecode vm.memory vm.cpu.pc = .ok fetched)

include running unprivileged stands

/-- An unprivileged machine executes what stands at its program counter. -/
theorem executes_noteFetched : vm.Executes (vm.noteFetched fetched) fetched := by
  refine ⟨running, vm, ?_, rfl, ?_⟩
  · rw [prepare, unprivileged, if_neg Bool.false_ne_true]
  · have direct : translateFor { vm with lastFetched := none } vm.cpu.pc .execute =
        ({ vm with lastFetched := none }, some vm.cpu.pc) := by
      simp [translateFor, translationActive, unprivileged]
    simp only [fetch, direct, stands]
    rfl

theorem executes_of_unprivileged : ∃ ready, vm.Executes ready fetched :=
  ⟨_, executes_noteFetched running unprivileged stands⟩

end Unprivileged

end MetaVm.Riscv.Vm
