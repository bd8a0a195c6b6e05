import MetaVm.Riscv.Machine.Csr

namespace MetaVm.Riscv

structure CpuState where
  pc : Word
  x : Reg → Word
  privMode : PrivilegeMode
  csrs : CsrFile

namespace CpuState

def withPc (pc : Word) : CpuState := ⟨pc, fun _ => 0, .machine, .new⟩

def new : CpuState := withPc 0

def readReg (cpu : CpuState) (reg : Reg) : Word :=
  if reg = 0 then 0 else cpu.x reg

def writeReg (cpu : CpuState) (reg : Reg) (val : Word) : CpuState :=
  if reg ≠ 0 then { cpu with x := Function.update cpu.x reg val } else cpu

theorem readReg_zero (cpu : CpuState) : cpu.readReg 0 = 0 := rfl

theorem readReg_writeReg (cpu : CpuState) {reg : Reg} (nonzero : reg ≠ 0)
    (val : Word) : (cpu.writeReg reg val).readReg reg = val := by
  rw [readReg, if_neg nonzero, writeReg, if_pos nonzero]
  exact Function.update_self reg val cpu.x

@[simp]
theorem writeReg_csrs (cpu : CpuState) (reg : Reg) (val : Word) :
    (cpu.writeReg reg val).csrs = cpu.csrs := by
  unfold writeReg
  split <;> rfl

@[simp]
theorem readReg_withPc (cpu : CpuState) (pc : Word) (reg : Reg) :
    CpuState.readReg { cpu with pc := pc } reg = cpu.readReg reg := rfl

end CpuState

/-! Traps. -/

inductive ExceptionCause
  | instructionAddressMisaligned
  | instructionAccessFault
  | illegalInstruction
  | breakpoint
  | loadAddressMisaligned
  | loadAccessFault
  | storeAddressMisaligned
  | storeAccessFault
  | environmentCallFromU
  | environmentCallFromS
  | environmentCallFromM
  | instructionPageFault
  | loadPageFault
  | storePageFault
deriving DecidableEq, Repr

def ExceptionCause.code : ExceptionCause → Word
  | instructionAddressMisaligned => 0
  | instructionAccessFault => 1
  | illegalInstruction => 2
  | breakpoint => 3
  | loadAddressMisaligned => 4
  | loadAccessFault => 5
  | storeAddressMisaligned => 6
  | storeAccessFault => 7
  | environmentCallFromU => 8
  | environmentCallFromS => 9
  | environmentCallFromM => 11
  | instructionPageFault => 12
  | loadPageFault => 13
  | storePageFault => 15

inductive InterruptCause
  | supervisorSoftware
  | machineSoftware
  | supervisorTimer
  | machineTimer
  | supervisorExternal
  | machineExternal
deriving DecidableEq, Repr

def InterruptCause.code : InterruptCause → Word
  | supervisorSoftware => 1
  | machineSoftware => 3
  | supervisorTimer => 5
  | machineTimer => 7
  | supervisorExternal => 9
  | machineExternal => 11

inductive TrapCause
  | exception (cause : ExceptionCause)
  | interrupt (cause : InterruptCause)
deriving DecidableEq, Repr

namespace TrapCause

def code : TrapCause → Word
  | exception cause => cause.code
  | interrupt cause => cause.code

def isInterrupt : TrapCause → Bool
  | exception _ => false
  | interrupt _ => true

def toCauseValue : TrapCause → Word
  | exception cause => cause.code
  | interrupt cause => (1 <<< 63) ||| cause.code

end TrapCause

/-- A flag set or cleared in a status register. -/
def setFlag (status flag : Word) (value : Bool) : Word :=
  if value then status ||| flag else status &&& ~~~flag

/-- Where a trap vector sends a cause. -/
def trapTarget (vector : Word) (cause : TrapCause) : Word :=
  let base := vector &&& ~~~0x3
  if vector &&& 0x3 = 1 ∧ cause.isInterrupt then base + cause.code * 4 else base

/-- Whether a trap goes to the supervisor. -/
def delegated (cpu : CpuState) (cause : TrapCause) : Bool :=
  let delegReg := if cause.isInterrupt then Addr.mideleg else Addr.medeleg
  cpu.privMode ≠ .machine ∧
    (cpu.csrs.readUnchecked delegReg >>> cause.code) &&& 1 ≠ 0

def deliverToSupervisor (cpu : CpuState) (cause : TrapCause) (tval epc : Word) :
    CpuState :=
  let csrs := ((cpu.csrs.writeUnchecked Addr.sepc epc).writeUnchecked
    Addr.scause cause.toCauseValue).writeUnchecked Addr.stval tval
  let oldMstatus := csrs.readUnchecked Addr.mstatus
  let newMstatus := setFlag oldMstatus Mstatus.spie
    (oldMstatus &&& Mstatus.sie ≠ 0)
  let newMstatus := setFlag newMstatus Mstatus.spp (cpu.privMode = .supervisor)
  let csrs := csrs.writeUnchecked Addr.mstatus (newMstatus &&& ~~~Mstatus.sie)
  { cpu with
    csrs := csrs
    pc := trapTarget (csrs.readUnchecked Addr.stvec) cause
    privMode := .supervisor }

def deliverToMachine (cpu : CpuState) (cause : TrapCause) (tval epc : Word) :
    CpuState :=
  let csrs := ((cpu.csrs.writeUnchecked Addr.mepc epc).writeUnchecked
    Addr.mcause cause.toCauseValue).writeUnchecked Addr.mtval tval
  let oldMstatus := csrs.readUnchecked Addr.mstatus
  let newMstatus := setFlag oldMstatus Mstatus.mpie
    (oldMstatus &&& Mstatus.mie ≠ 0)
  let newMstatus := (newMstatus &&& ~~~Mstatus.mppMask) |||
    cpu.privMode.bits <<< Mstatus.mppShift
  let csrs := csrs.writeUnchecked Addr.mstatus (newMstatus &&& ~~~Mstatus.mie)
  { cpu with
    csrs := csrs
    pc := trapTarget (csrs.readUnchecked Addr.mtvec) cause
    privMode := .machine }

def deliverTrap (cpu : CpuState) (cause : TrapCause) (tval epc : Word) : CpuState :=
  if delegated cpu cause then deliverToSupervisor cpu cause tval epc
  else deliverToMachine cpu cause tval epc

/-- A trap leaves the general registers alone. -/
@[simp]
theorem deliverTrap_x (cpu : CpuState) (cause : TrapCause) (tval epc : Word) :
    (deliverTrap cpu cause tval epc).x = cpu.x := by
  unfold deliverTrap
  split <;> rfl

end MetaVm.Riscv

namespace MetaVm.Riscv

/-! The bits of the status registers, under the operations that set and clear them. -/

variable {flag x old val mask : Word} {index : ℕ}

/-- The word that has one bit set. -/
structure IsBit (flag : Word) (index : ℕ) : Prop where
  bounded : index < 64
  eq : flag = 1 <<< index

namespace IsBit

theorem eq_twoPow (single : IsBit flag index) : flag = BitVec.twoPow 64 index :=
  single.eq.trans (BitVec.twoPow_eq 64 index).symm

theorem getLsbD (single : IsBit flag index) (other : ℕ) :
    flag.getLsbD other = decide (index = other) := by
  rw [single.eq_twoPow, BitVec.getLsbD_twoPow, decide_eq_true single.bounded, Bool.true_and]

/-- Testing a flag reads its bit. -/
theorem and_ne_zero (single : IsBit flag index) (x : Word) :
    x &&& flag ≠ 0 ↔ x.getLsbD index = true := by
  have nonzero : flag ≠ 0 := by
    intro zero
    have bit := single.getLsbD index
    rw [zero, decide_eq_true rfl] at bit
    simp at bit
  rw [single.eq_twoPow, BitVec.and_twoPow, ← single.eq_twoPow]
  cases x.getLsbD index with
  | true => exact iff_of_true nonzero rfl
  | false => exact iff_of_false (fun differs => differs rfl) Bool.false_ne_true

theorem getLsbD_setFlag (single : IsBit flag index) (status : Word) (value : Bool) :
    (setFlag status flag value).getLsbD index = value := by
  have bit : flag.getLsbD index = true := by rw [single.getLsbD, decide_eq_true rfl]
  cases value with
  | true => simp [setFlag, bit]
  | false => simp [setFlag, bit]

theorem getLsbD_clear (single : IsBit flag index) (status : Word) :
    (status &&& ~~~flag).getLsbD index = false :=
  single.getLsbD_setFlag status false

end IsBit

/-- A flag leaves the other bits alone. -/
theorem getLsbD_setFlag_of_not (outside : flag.getLsbD index = false) (status : Word)
    (value : Bool) : (setFlag status flag value).getLsbD index = status.getLsbD index := by
  by_cases bounded : index < 64
  · cases value with
    | true => simp [setFlag, outside]
    | false =>
        rw [setFlag, if_neg Bool.false_ne_true, BitVec.getLsbD_and, BitVec.getLsbD_not, outside,
          decide_eq_true bounded, Bool.not_false, Bool.true_and, Bool.and_true]
  · rw [BitVec.getLsbD_of_ge _ _ (not_lt.1 bounded), BitVec.getLsbD_of_ge _ _ (not_lt.1 bounded)]

theorem getLsbD_clear_of_not (outside : flag.getLsbD index = false) (status : Word) :
    (status &&& ~~~flag).getLsbD index = status.getLsbD index :=
  getLsbD_setFlag_of_not outside status false

theorem getLsbD_raise_of_not (outside : flag.getLsbD index = false) (status : Word) :
    (status ||| flag).getLsbD index = status.getLsbD index :=
  getLsbD_setFlag_of_not outside status true

theorem getLsbD_maskedWrite_of_mem (inside : mask.getLsbD index = true) :
    (maskedWrite old val mask).getLsbD index = val.getLsbD index := by
  simp [maskedWrite, inside]

/-- A masked write of a bit that is already there changes nothing. -/
theorem getLsbD_maskedWrite_of_same (same : val.getLsbD index = old.getLsbD index) :
    (maskedWrite old val mask).getLsbD index = old.getLsbD index := by
  by_cases bounded : index < 64
  · rw [maskedWrite, BitVec.getLsbD_or, BitVec.getLsbD_and, BitVec.getLsbD_and,
      BitVec.getLsbD_not, same, decide_eq_true bounded]
    cases mask.getLsbD index <;> simp
  · rw [BitVec.getLsbD_of_ge _ _ (not_lt.1 bounded), BitVec.getLsbD_of_ge _ _ (not_lt.1 bounded)]

/-! The flags of `mstatus` that traps and returns move. -/

namespace Mstatus

theorem isBit_sie : IsBit sie 1 := ⟨by decide, rfl⟩

theorem isBit_mie : IsBit mie 3 := ⟨by decide, rfl⟩

theorem isBit_spie : IsBit spie 5 := ⟨by decide, rfl⟩

theorem isBit_mpie : IsBit mpie 7 := ⟨by decide, rfl⟩

theorem isBit_spp : IsBit spp 8 := ⟨by decide, rfl⟩

end Mstatus

end MetaVm.Riscv
