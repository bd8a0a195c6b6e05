import MetaVm.Riscv.Machine.Effects

namespace MetaVm.Riscv.Vm

/-! What a step does before and around its instruction. -/

variable {vm after : Vm}

theorem translateFor_lastFetched (vm : Vm) (vaddr : Word) (accessType : AccessType) :
    (vm.translateFor vaddr accessType).1.lastFetched = vm.lastFetched := by
  unfold translateFor
  split
  · simp only [translateAddr]
    split
    · rfl
    · split <;> rfl
  · rfl

theorem translateFor_privileged (vm : Vm) (vaddr : Word) (accessType : AccessType) :
    (vm.translateFor vaddr accessType).1.privileged = vm.privileged := by
  unfold translateFor
  split
  · simp only [translateAddr]
    split
    · rfl
    · split <;> rfl
  · rfl

theorem Effect.lastFetched {insn : Instruction} (effect : vm.Effect insn after) :
    after.lastFetched = vm.lastFetched := by
  cases effect with
  | runs keeps => exact keeps.lastFetched
  | @accesses _ vaddr _ accessType _ _ _ translates keeps =>
      have kept := vm.translateFor_lastFetched vaddr accessType
      rw [translates] at kept
      exact keeps.lastFetched.trans kept
  | @faults _ vaddr accessType _ fault =>
      have kept := vm.translateFor_lastFetched vaddr accessType
      rw [fault] at kept
      exact kept
  | traps | returnsMachine | flushes => rfl
  | writesCsr _ keeps => exact keeps.lastFetched
  | returnsSupervisor allowed =>
      rw [executeSret, if_neg (by rw [allowed]; exact Bool.false_ne_true)]

@[simp]
theorem retire_lastFetched (vm : Vm) : vm.retire.lastFetched = vm.lastFetched := by
  unfold retire
  split <;> rfl

theorem fetch_lastFetched {ready : Vm} {fetched : FetchedInstruction}
    (found : vm.fetch = .fetched ready fetched) :
    ready.lastFetched = some (fetched.instruction, fetched.len) := by
  simp only [fetch] at found
  split at found
  · cases found
  · split at found
    · cases found
      rfl
    · split at found <;> cases found

theorem fetch_trapped_lastFetched {trapped : Vm} (fault : vm.fetch = .trapped trapped) :
    trapped.lastFetched = none := by
  simp only [fetch] at fault
  have kept := translateFor_lastFetched { vm with lastFetched := none } vm.cpu.pc .execute
  split at fault
  · rename_i faulted translates
    cases fault
    rw [translates] at kept
    exact kept
  · rename_i translated fetchPc translates
    rw [translates] at kept
    split at fault
    · cases fault
    · split at fault
      · cases fault
        exact kept
      · cases fault

theorem Effect.privileged {insn : Instruction} {after : Vm} (effect : vm.Effect insn after) :
    after.privileged = vm.privileged := by
  cases effect with
  | runs keeps => exact keeps.privileged
  | @accesses _ vaddr _ accessType _ _ _ translates keeps =>
      have kept := vm.translateFor_privileged vaddr accessType
      rw [translates] at kept
      exact keeps.privileged.trans kept
  | @faults _ vaddr accessType _ fault =>
      have kept := vm.translateFor_privileged vaddr accessType
      rw [fault] at kept
      exact kept
  | traps | returnsMachine | flushes => rfl
  | writesCsr _ keeps => exact keeps.privileged
  | returnsSupervisor allowed =>
      rw [executeSret, if_neg (ne_true_of_eq_false allowed)]

/-! Fetching. -/

/-- Translation does not look at the note of the last fetch. -/
theorem translateFor_forget (vm : Vm) (vaddr : Word) (accessType : AccessType) :
    translateFor { vm with lastFetched := none } vaddr accessType =
      ({ (vm.translateFor vaddr accessType).1 with lastFetched := none },
        (vm.translateFor vaddr accessType).2) := by
  have active : translationActive { vm with lastFetched := none } = vm.translationActive := rfl
  rw [translateFor, translateFor, active]
  split
  · have lookup : ∀ satp, tlbLookup { vm with lastFetched := none } vaddr accessType satp =
        vm.tlbLookup vaddr accessType satp := fun _ => rfl
    simp only [translateAddr, lookup]
    cases vm.tlbLookup vaddr accessType (vm.cpu.csrs.readUnchecked Addr.satp) with
    | some pa => rfl
    | none =>
        dsimp only
        generalize translate vm.memory _ _ = walked
        cases walked <;> rfl
  · rfl

/-- A fetch decodes at the translation of the program counter. -/
theorem fetch_translated {ready : Vm} {fetched : FetchedInstruction}
    (found : vm.fetch = .fetched ready fetched) :
    ∃ translated pa, vm.translateFor vm.cpu.pc .execute = (translated, some pa) ∧
      fetchDecode translated.memory pa = .ok fetched ∧
      ready = translated.noteFetched fetched := by
  simp only [fetch, translateFor_forget] at found
  cases translates : vm.translateFor vm.cpu.pc .execute with
  | mk translated target =>
      rw [translates] at found
      cases target with
      | none => cases found
      | some pa =>
          dsimp only at found
          split at found
          · rename_i insn decodes
            cases found
            exact ⟨translated, pa, rfl, decodes, rfl⟩
          · split at found <;> cases found

/-- A fetch where addresses are physical. -/
theorem fetch_of_inactive (inactive : vm.translationActive = false)
    {fetched : FetchedInstruction} (stands : fetchDecode vm.memory vm.cpu.pc = .ok fetched) :
    vm.fetch = .fetched (vm.noteFetched fetched) fetched := by
  have direct : translateFor { vm with lastFetched := none } vm.cpu.pc .execute =
      ({ vm with lastFetched := none }, some vm.cpu.pc) :=
    if_neg (ne_true_of_eq_false inactive)
  simp only [fetch, direct, stands]
  rfl

/-! The devices and interrupts before the fetch. -/

/-- The machine after its devices have ticked, before it takes an interrupt. -/
def tick (vm : Vm) : Option Vm := if vm.privileged then vm.tickDevices else some vm

/-- The interrupt that a machine takes before its next fetch. -/
def pendingInterrupt (vm : Vm) : Option InterruptCause :=
  if vm.privileged then
    let pending := vm.cpu.csrs.readUnchecked Addr.mip &&&
      vm.cpu.csrs.readUnchecked Addr.mie
    (interruptPriorities.find? fun (bit, cause) =>
      pending &&& bit ≠ 0 ∧ shouldTake vm.cpu cause).map Prod.snd
  else none

/-- The machine after it has taken a pending interrupt. -/
def takeInterrupt (vm : Vm) : Vm :=
  match vm.pendingInterrupt with
  | some cause => vm.trap (.interrupt cause) 0 vm.cpu.pc
  | none => vm

theorem tickDevices_privileged {vm ticked : Vm} (ticks : vm.tickDevices = some ticked) :
    ticked.privileged = vm.privileged := by
  simp only [tickDevices] at ticks
  obtain ⟨processed, _, rfl⟩ := Option.map_eq_some_iff.1 ticks
  rfl

theorem checkPendingInterrupts_eq {vm : Vm} (privileged : vm.privileged = true) :
    vm.checkPendingInterrupts = vm.takeInterrupt := by
  rw [checkPendingInterrupts, takeInterrupt, pendingInterrupt, if_pos privileged]
  dsimp only
  split
  · rename_i bit cause found
    rw [found]
    rfl
  · rename_i found
    rw [found]
    rfl

theorem prepare_eq (vm : Vm) : vm.prepare = vm.tick.map takeInterrupt := by
  rw [prepare, tick]
  by_cases privileged : vm.privileged = true
  · rw [if_pos privileged, if_pos privileged]
    apply Option.map_congr
    intro ticked ticks
    exact checkPendingInterrupts_eq ((tickDevices_privileged ticks).trans privileged)
  · rw [if_neg privileged, if_neg privileged, Option.map_some, takeInterrupt, pendingInterrupt,
      if_neg privileged]

theorem tick_pc {ticked : Vm} (ticks : vm.tick = some ticked) : ticked.cpu.pc = vm.cpu.pc := by
  rw [tick] at ticks
  split at ticks
  · simp only [tickDevices] at ticks
    obtain ⟨processed, _, rfl⟩ := Option.map_eq_some_iff.1 ticks
    rfl
  · cases ticks
    rfl

theorem takeInterrupt_privileged (vm : Vm) : vm.takeInterrupt.privileged = vm.privileged := by
  rw [takeInterrupt]
  split <;> rfl

theorem prepare_privileged {prepared : Vm} (prepares : vm.prepare = some prepared) :
    prepared.privileged = vm.privileged := by
  rw [prepare_eq] at prepares
  obtain ⟨ticked, ticks, rfl⟩ := Option.map_eq_some_iff.1 prepares
  rw [takeInterrupt_privileged]
  rw [tick] at ticks
  split at ticks
  · exact tickDevices_privileged ticks
  · cases ticks
    rfl

/-! A whole step. -/

/-- The ways in which a step of a running machine ends. -/
inductive StepOutcome (vm : Vm) : StepResult → Prop
  | executed {prepared ready after : Vm} {fetched : FetchedInstruction}
      (prepares : vm.prepare = some prepared)
      (fetches : prepared.fetch = .fetched ready fetched)
      (ran : ready.execute fetched.instruction = (after, .ok ())) :
      StepOutcome vm (after.retire, .ok ())
  | broke {prepared ready after : Vm} {fetched : FetchedInstruction} {e : VmError}
      (prepares : vm.prepare = some prepared)
      (fetches : prepared.fetch = .fetched ready fetched)
      (ran : ready.execute fetched.instruction = (after, .error e)) :
      StepOutcome vm (after, .error e)
  | trapped {prepared trapped : Vm} (prepares : vm.prepare = some prepared)
      (fault : prepared.fetch = .trapped trapped) : StepOutcome vm (trapped, .ok ())
  | failed {prepared failed : Vm} {e : DecodeError} (prepares : vm.prepare = some prepared)
      (fault : prepared.fetch = .failed failed e) : StepOutcome vm (failed, .error (.decode e))

theorem step_of_prepare {prepared : Vm} (running : vm.halted = false)
    (prepares : vm.prepare = some prepared) : vm.step = some prepared.stepInner := by
  rw [step, if_neg (ne_true_of_eq_false running), prepares, Option.map_some]

theorem step_outcome (running : vm.halted = false) {result : StepResult}
    (stepped : vm.step = some result) : vm.StepOutcome result := by
  rw [step, running, if_neg Bool.false_ne_true] at stepped
  obtain ⟨prepared, prepares, inner⟩ := Option.map_eq_some_iff.1 stepped
  rw [stepInner] at inner
  split at inner
  · rename_i ready fetched fetches
    split at inner
    · rename_i after ran
      cases inner
      exact .executed prepares fetches ran
    · rename_i after e ran
      cases inner
      exact .broke prepares fetches ran
  · rename_i trapped fault
    cases inner
    exact .trapped prepares fault
  · rename_i failed e fault
    cases inner
    exact .failed prepares fault

/-- The states of a run before its last one, and the last one. -/
inductive Run (start : Vm) : List Vm → Vm → Prop
  | refl : Run start [] start
  | step {steps : List Vm} {vm after : Vm} {result : Except VmError Unit}
      (run : Run start steps vm) (stepped : vm.step = some (after, result)) :
      Run start (steps ++ [vm]) after

section Unprivileged

variable {vm : Vm} (unprivileged : vm.privileged = false)

include unprivileged

theorem translateFor_of_unprivileged (vaddr : Word) (accessType : AccessType) :
    vm.translateFor vaddr accessType = (vm, some vaddr) := by
  simp [translateFor, translationActive, unprivileged]

theorem fetch_of_unprivileged :
    vm.fetch = match fetchDecode vm.memory vm.cpu.pc with
      | .ok fetched => .fetched (vm.noteFetched fetched) fetched
      | .error e => .failed { vm with lastFetched := none } e := by
  have direct := @translateFor_of_unprivileged { vm with lastFetched := none } unprivileged
    vm.cpu.pc .execute
  simp only [fetch, direct]
  cases fetchDecode vm.memory vm.cpu.pc with
  | ok fetched => rfl
  | error e => simp only [unprivileged, Bool.false_eq_true, if_false]

theorem step_of_unprivileged (running : vm.halted = false) :
    vm.step = some (match fetchDecode vm.memory vm.cpu.pc with
      | .ok fetched =>
          match (vm.noteFetched fetched).execute fetched.instruction with
          | (after, .ok ()) => (after.retire, .ok ())
          | (after, .error e) => (after, .error e)
      | .error e => ({ vm with lastFetched := none }, .error (.decode e))) := by
  have prepares : vm.prepare = some vm := by
    rw [prepare, if_neg (ne_true_of_eq_false unprivileged)]
  rw [step_of_prepare running prepares, stepInner, fetch_of_unprivileged unprivileged]
  cases fetchDecode vm.memory vm.cpu.pc <;> rfl

end Unprivileged

end MetaVm.Riscv.Vm
