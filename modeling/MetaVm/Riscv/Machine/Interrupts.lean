import MetaVm.Riscv.Machine.Cpu
import MetaVm.Riscv.Machine.Stepping

namespace MetaVm.Riscv

/-! Which interrupt a machine takes. -/

/-- The bit of an interrupt in `mip` and `mie`. -/
def InterruptCause.flag (cause : InterruptCause) : Word := 1 <<< cause.code.toNat

/-- The causes, in the order in which they are looked for. -/
def interruptOrder : List InterruptCause := Vm.interruptPriorities.map Prod.snd

namespace CpuState

variable (cpu : CpuState) (cause : InterruptCause)

/-- The level that `mideleg` destines an interrupt for. -/
def destination : PrivilegeMode :=
  if (cpu.csrs.readUnchecked Addr.mideleg >>> cause.code) &&& 1 ≠ 0 then .supervisor
  else .machine

/-- Whether a level lets itself be interrupted. -/
def InterruptsEnabled : PrivilegeMode → Prop
  | .machine => cpu.csrs.readUnchecked Addr.mstatus &&& Mstatus.mie ≠ 0
  | .supervisor => cpu.csrs.readUnchecked Addr.mstatus &&& Mstatus.sie ≠ 0
  | .user => False

/-- An interrupt is set in both registers, and its destination is a higher level or this one
with its interrupts enabled. -/
def Takeable : Prop :=
  cpu.csrs.readUnchecked Addr.mip &&& cause.flag ≠ 0 ∧
    cpu.csrs.readUnchecked Addr.mie &&& cause.flag ≠ 0 ∧
    (cpu.privMode.bits < (cpu.destination cause).bits ∨
      cpu.privMode = cpu.destination cause ∧ cpu.InterruptsEnabled (cpu.destination cause))

/-- A level is free for an interrupt where `shouldTake` says so. -/
theorem shouldTake_iff :
    Vm.shouldTake cpu cause = true ↔
      cpu.privMode.bits < (cpu.destination cause).bits ∨
        cpu.privMode = cpu.destination cause ∧
          cpu.InterruptsEnabled (cpu.destination cause) := by
  unfold Vm.shouldTake destination
  split
  · cases cpu.privMode <;> simp [InterruptsEnabled, PrivilegeMode.bits]
  · cases cpu.privMode <;> simp [InterruptsEnabled, PrivilegeMode.bits]

theorem pending_iff :
    cpu.csrs.readUnchecked Addr.mip &&& cpu.csrs.readUnchecked Addr.mie &&& cause.flag ≠ 0 ↔
      cpu.csrs.readUnchecked Addr.mip &&& cause.flag ≠ 0 ∧
        cpu.csrs.readUnchecked Addr.mie &&& cause.flag ≠ 0 := by
  have single : IsBit cause.flag cause.code.toNat := ⟨by cases cause <;> decide, rfl⟩
  rw [single.and_ne_zero, single.and_ne_zero, single.and_ne_zero, BitVec.getLsbD_and,
    Bool.and_eq_true]

/-- A takeable interrupt goes to the level that it is destined for. -/
theorem deliverTrap_destination {cpu : CpuState} {cause : InterruptCause}
    (takeable : cpu.Takeable cause) (tval epc : Word) :
    (deliverTrap cpu (.interrupt cause) tval epc).privMode = cpu.destination cause := by
  obtain ⟨-, -, free⟩ := takeable
  unfold destination at free ⊢
  unfold deliverTrap delegated
  by_cases delegates : (cpu.csrs.readUnchecked Addr.mideleg >>> cause.code) &&& 1 ≠ 0
  · rw [if_pos delegates] at free ⊢
    have notMachine : cpu.privMode ≠ .machine := by
      intro machine
      rw [machine] at free
      rcases free with lower | ⟨same, -⟩
      · exact absurd lower (by decide)
      · cases same
    rw [if_pos]
    · rfl
    · exact decide_eq_true ⟨notMachine, delegates⟩
  · rw [if_neg delegates, if_neg]
    · rfl
    · intro isDelegated
      exact delegates (of_decide_eq_true isDelegated).2

/-- A takeable interrupt that no takeable one stands before in the order. -/
structure FirstTakeable (cpu : CpuState) (cause : InterruptCause) : Prop where
  takeable : cpu.Takeable cause
  first : ∀ other, cpu.Takeable other →
    interruptOrder.idxOf cause ≤ interruptOrder.idxOf other

theorem firstTakeable_of_append {cpu : CpuState} {cause : InterruptCause}
    {earlier later : List InterruptCause} (takeable : cpu.Takeable cause)
    (order : interruptOrder = earlier ++ cause :: later)
    (passed : ∀ other ∈ earlier, ¬ cpu.Takeable other) : cpu.FirstTakeable cause := by
  refine ⟨takeable, fun other otherTakeable => ?_⟩
  have causeNew : cause ∉ earlier := fun early => passed cause early takeable
  have otherNew : other ∉ earlier := fun early => passed other early otherTakeable
  rw [order, List.idxOf_append_of_notMem causeNew, List.idxOf_append_of_notMem otherNew,
    List.idxOf_cons_self]
  exact Nat.le_add_right _ _

/-! A delivered interrupt shows in the state. -/

theorem deliverToMachine_disabled (cpu : CpuState) (cause : TrapCause) (tval epc : Word) :
    ¬ (deliverToMachine cpu cause tval epc).InterruptsEnabled .machine := by
  rw [InterruptsEnabled, Mstatus.isBit_mie.and_ne_zero, Bool.not_eq_true]
  refine (getLsbD_maskedWrite_of_mem (by decide)).trans ?_
  exact Mstatus.isBit_mie.getLsbD_clear _

theorem deliverToSupervisor_disabled (cpu : CpuState) (cause : TrapCause) (tval epc : Word) :
    ¬ (deliverToSupervisor cpu cause tval epc).InterruptsEnabled .supervisor := by
  rw [InterruptsEnabled, Mstatus.isBit_sie.and_ne_zero, Bool.not_eq_true]
  refine (getLsbD_maskedWrite_of_mem (by decide)).trans ?_
  exact Mstatus.isBit_sie.getLsbD_clear _

/-- The level that a trap enters has its interrupts off. -/
theorem deliverTrap_disabled (cpu : CpuState) (cause : TrapCause) (tval epc : Word) :
    ¬ (deliverTrap cpu cause tval epc).InterruptsEnabled
      (deliverTrap cpu cause tval epc).privMode := by
  unfold deliverTrap
  split
  · exact cpu.deliverToSupervisor_disabled cause tval epc
  · exact cpu.deliverToMachine_disabled cause tval epc

theorem deliverTrap_ne {cpu : CpuState} {cause : InterruptCause}
    (takeable : cpu.Takeable cause) (tval epc : Word) :
    deliverTrap cpu (.interrupt cause) tval epc ≠ cpu := by
  intro same
  have disabled := cpu.deliverTrap_disabled (.interrupt cause) tval epc
  have level := deliverTrap_destination takeable tval epc
  rw [same] at disabled level
  obtain ⟨-, -, lower | ⟨-, enabled⟩⟩ := takeable
  · rw [level] at lower
    exact absurd lower (BitVec.lt_irrefl _)
  · rw [← level] at enabled
    exact disabled enabled

theorem toCauseValue_interrupt_injective {cause other : InterruptCause}
    (same : (TrapCause.interrupt cause).toCauseValue = (TrapCause.interrupt other).toCauseValue) :
    cause = other := by
  revert same
  cases cause <;> cases other <;> decide

/-- The state tells which interrupt was delivered. -/
theorem deliverTrap_interrupt_injective {cpu : CpuState} {cause other : InterruptCause}
    {tval epc : Word}
    (same : deliverTrap cpu (.interrupt cause) tval epc =
      deliverTrap cpu (.interrupt other) tval epc) : cause = other := by
  have levels := congrArg privMode same
  have machineCauses := congrArg (fun cpu => cpu.csrs.readUnchecked Addr.mcause) same
  have supervisorCauses := congrArg (fun cpu => cpu.csrs.readUnchecked Addr.scause) same
  unfold deliverTrap at levels machineCauses supervisorCauses
  by_cases first : delegated cpu (.interrupt cause) = true <;>
    by_cases second : delegated cpu (.interrupt other) = true
  · rw [if_pos first, if_pos second] at supervisorCauses
    exact toCauseValue_interrupt_injective supervisorCauses
  · rw [if_pos first, if_neg second] at levels
    cases levels
  · rw [if_neg first, if_pos second] at levels
    cases levels
  · rw [if_neg first, if_neg second] at machineCauses
    exact toCauseValue_interrupt_injective machineCauses

end CpuState

namespace Vm

variable (vm : Vm)

theorem interruptPriorities_eq :
    interruptPriorities = interruptOrder.map fun cause => (cause.flag, cause) := by decide

theorem mem_interruptOrder (cause : InterruptCause) : cause ∈ interruptOrder := by
  cases cause <;> decide

theorem selects_iff (cause : InterruptCause) :
    (vm.cpu.csrs.readUnchecked Addr.mip &&& vm.cpu.csrs.readUnchecked Addr.mie &&&
        cause.flag ≠ 0 ∧ shouldTake vm.cpu cause) ↔ vm.cpu.Takeable cause := by
  rw [CpuState.pending_iff, CpuState.shouldTake_iff, and_assoc]
  rfl

/-- Nothing is takeable and nothing happens, or the first takeable interrupt is delivered. -/
theorem checkPendingInterrupts_cases :
    ((∀ cause, ¬ vm.cpu.Takeable cause) ∧ vm.checkPendingInterrupts = vm) ∨
      ∃ cause, vm.cpu.FirstTakeable cause ∧
        vm.checkPendingInterrupts = vm.trap (.interrupt cause) 0 vm.cpu.pc := by
  rw [checkPendingInterrupts, interruptPriorities_eq, List.find?_map]
  dsimp only
  generalize search : interruptOrder.find? _ = found
  cases found with
  | none =>
      left
      refine ⟨fun cause takeable => ?_, rfl⟩
      have passed := List.find?_eq_none.1 search cause (mem_interruptOrder cause)
      exact passed (decide_eq_true ((vm.selects_iff cause).2 takeable))
  | some cause =>
      right
      obtain ⟨chosen, earlier, later, order, passed⟩ :=
        List.find?_eq_some_iff_append.1 search
      have takeable := (vm.selects_iff cause).1 (of_decide_eq_true chosen)
      refine ⟨cause, CpuState.firstTakeable_of_append takeable order ?_, rfl⟩
      intro other early otherTakeable
      have rejected := passed other early
      rw [Bool.not_eq_true'] at rejected
      exact of_decide_eq_false rejected ((vm.selects_iff other).2 otherTakeable)

/-- The interrupt check changes the state exactly where an interrupt is takeable. It then
delivers one interrupt, the first takeable one, to the level it is destined for. -/
theorem checkPendingInterrupts_spec :
    (vm.checkPendingInterrupts = vm ↔ ∀ cause, ¬ vm.cpu.Takeable cause) ∧
      ((∃ cause, vm.cpu.Takeable cause) →
        ∃ cause, vm.checkPendingInterrupts = vm.trap (.interrupt cause) 0 vm.cpu.pc ∧
          (∀ other, vm.checkPendingInterrupts = vm.trap (.interrupt other) 0 vm.cpu.pc →
            other = cause) ∧
          vm.cpu.FirstTakeable cause ∧
          vm.checkPendingInterrupts.cpu.privMode = vm.cpu.destination cause) := by
  rcases vm.checkPendingInterrupts_cases with ⟨none, same⟩ | ⟨cause, first, delivers⟩
  · refine ⟨iff_of_true same none, ?_⟩
    rintro ⟨cause, takeable⟩
    exact absurd takeable (none cause)
  · constructor
    · refine iff_of_false ?_ fun none => none cause first.takeable
      intro same
      rw [delivers] at same
      exact CpuState.deliverTrap_ne first.takeable 0 vm.cpu.pc (congrArg cpu same)
    · intro _
      refine ⟨cause, delivers, ?_, first, ?_⟩
      · intro other delivered
        have same := congrArg cpu (delivered.symm.trans delivers)
        exact CpuState.deliverTrap_interrupt_injective same
      · rw [delivers]
        exact CpuState.deliverTrap_destination first.takeable 0 vm.cpu.pc

/-- A user program with two supervisor interrupts pending, of which only the external one is
delegated. -/
def mixedDelegationVm : Vm :=
  let csrs := ((CsrFile.new.writeUnchecked Addr.mideleg Interrupt.seip).writeUnchecked
    Addr.mip (Interrupt.seip ||| Interrupt.stip)).writeUnchecked
      Addr.mie (Interrupt.seip ||| Interrupt.stip)
  .newPrivileged { CpuState.new with privMode := .user, csrs := csrs } Memory.new

/-- The external interrupt goes to the supervisor while the timer interrupt is takeable for
the machine. -/
theorem machineInterrupt_passedOver :
    ¬ ∀ (vm : Vm) (cause other : InterruptCause),
      vm.checkPendingInterrupts = vm.trap (.interrupt cause) 0 vm.cpu.pc →
        vm.cpu.Takeable cause → vm.cpu.Takeable other →
          vm.cpu.destination other = .machine → vm.cpu.destination cause = .machine := by
  intro prefers
  have takes : mixedDelegationVm.pendingInterrupt = some .supervisorExternal := by
    decide
  have delivers : mixedDelegationVm.checkPendingInterrupts =
      mixedDelegationVm.trap (.interrupt .supervisorExternal) 0 mixedDelegationVm.cpu.pc := by
    rw [checkPendingInterrupts_eq rfl, takeInterrupt, takes]
  have machine := prefers mixedDelegationVm .supervisorExternal .supervisorTimer delivers
    ⟨by decide, by decide, .inl (by decide)⟩
    ⟨by decide, by decide, .inl (by decide)⟩ (by decide)
  exact absurd machine (by decide)

end Vm

end MetaVm.Riscv
