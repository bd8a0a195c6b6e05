import MetaVm.Riscv.Isa

namespace MetaVm.Riscv

inductive PrivilegeMode
  | user
  | supervisor
  | machine
deriving DecidableEq, Repr

namespace PrivilegeMode

/-- The number of a level, `priv_mode as u64`. -/
def bits : PrivilegeMode → Word
  | user => 0
  | supervisor => 1
  | machine => 3

def fromBits (value : Word) : PrivilegeMode :=
  if value &&& 0x3 = 0 then user
  else if value &&& 0x3 = 1 then supervisor
  else machine

end PrivilegeMode

namespace Addr

abbrev mstatus : CsrAddr := 0x300
abbrev misa : CsrAddr := 0x301
abbrev medeleg : CsrAddr := 0x302
abbrev mideleg : CsrAddr := 0x303
abbrev mie : CsrAddr := 0x304
abbrev mtvec : CsrAddr := 0x305
abbrev mepc : CsrAddr := 0x341
abbrev mcause : CsrAddr := 0x342
abbrev mtval : CsrAddr := 0x343
abbrev mip : CsrAddr := 0x344
abbrev sstatus : CsrAddr := 0x100
abbrev sie : CsrAddr := 0x104
abbrev stvec : CsrAddr := 0x105
abbrev sepc : CsrAddr := 0x141
abbrev scause : CsrAddr := 0x142
abbrev stval : CsrAddr := 0x143
abbrev sip : CsrAddr := 0x144
abbrev satp : CsrAddr := 0x180
abbrev stimecmp : CsrAddr := 0x14D
abbrev cycle : CsrAddr := 0xC00
abbrev time : CsrAddr := 0xC01
abbrev instret : CsrAddr := 0xC02
abbrev mhartid : CsrAddr := 0xF14

end Addr

namespace Mstatus

abbrev sie : Word := 1 <<< 1
abbrev mie : Word := 1 <<< 3
abbrev spie : Word := 1 <<< 5
abbrev mpie : Word := 1 <<< 7
abbrev spp : Word := 1 <<< 8
abbrev mppMask : Word := 0x3 <<< 11
abbrev mppShift : ℕ := 11
abbrev mprv : Word := 1 <<< 17
abbrev sum : Word := 1 <<< 18
abbrev mxr : Word := 1 <<< 19
abbrev tvm : Word := 1 <<< 20
abbrev tw : Word := 1 <<< 21
abbrev tsr : Word := 1 <<< 22
abbrev uxlMask : Word := 0x3 <<< 32
abbrev sxlMask : Word := 0x3 <<< 34
abbrev sd : Word := 1 <<< 63

def writeMask : Word :=
  sie ||| mie ||| spie ||| mpie ||| spp ||| mppMask ||| mprv ||| sum ||| mxr |||
    tvm ||| tw ||| tsr ||| uxlMask ||| sxlMask

def sstatusMask : Word := sie ||| spie ||| spp ||| sum ||| mxr ||| uxlMask ||| sd

end Mstatus

namespace Interrupt

abbrev ssip : Word := 1 <<< 1
abbrev msip : Word := 1 <<< 3
abbrev stip : Word := 1 <<< 5
abbrev mtip : Word := 1 <<< 7
abbrev seip : Word := 1 <<< 9
abbrev meip : Word := 1 <<< 11

def sMask : Word := ssip ||| stip ||| seip

end Interrupt

inductive CsrError
  | insufficientPrivilege (addr : CsrAddr) (required current : PrivilegeMode)
  | readOnly (addr : CsrAddr)
  | unimplemented (addr : CsrAddr)
deriving DecidableEq, Repr

/-- The probe registers of extensions that are not there. -/
def isUnimplementedCsr (csrAddr : CsrAddr) : Bool :=
  (0x150 ≤ csrAddr && csrAddr ≤ 0x157) || (0x350 ≤ csrAddr && csrAddr ≤ 0x357) ||
    csrAddr = 0xDB0 || csrAddr = 0xFB0 || csrAddr = 0xDA0 ||
    (0x10C ≤ csrAddr && csrAddr ≤ 0x10F) || (0x30C ≤ csrAddr && csrAddr ≤ 0x30F) ||
    (0x31C ≤ csrAddr && csrAddr ≤ 0x31F)

def requiredPrivilege (csrAddr : CsrAddr) : PrivilegeMode :=
  if (csrAddr >>> 8) &&& 0x3 = 0 then .user
  else if (csrAddr >>> 8) &&& 0x3 = 1 then .supervisor
  else .machine

structure CsrFile where
  regs : CsrAddr → Word
  instret : Word
  mtime : Word

/-- The bit of an extension letter in `misa`. -/
def misaBit (ch : Char) : Word := 1 <<< (ch.toNat - 'A'.toNat)

/-- The bits of `val` under a mask, the bits of `old` elsewhere. -/
def maskedWrite (old val mask : Word) : Word := (old &&& ~~~mask) ||| (val &&& mask)

namespace CsrFile

def new : CsrFile where
  regs := fun csrAddr =>
    if csrAddr = Addr.misa then
      (2 <<< 62) ||| misaBit 'I' ||| misaBit 'M' ||| misaBit 'A' ||| misaBit 'C' |||
        misaBit 'S' ||| misaBit 'U'
    else if csrAddr = Addr.stimecmp then BitVec.allOnes 64
    else if csrAddr = Addr.mstatus then (2 <<< 32) ||| (2 <<< 34)
    else 0
  instret := 0
  mtime := 0

/-- The supervisor's views read through to the machine's registers. -/
def readUnchecked (csrs : CsrFile) (csrAddr : CsrAddr) : Word :=
  if csrAddr = Addr.sstatus then csrs.regs Addr.mstatus &&& Mstatus.sstatusMask
  else if csrAddr = Addr.sie then csrs.regs Addr.mie &&& Interrupt.sMask
  else if csrAddr = Addr.sip then csrs.regs Addr.mip &&& Interrupt.sMask
  else if csrAddr = Addr.cycle ∨ csrAddr = Addr.instret then csrs.instret
  else if csrAddr = Addr.time then csrs.mtime
  else csrs.regs csrAddr

def setReg (csrs : CsrFile) (csrAddr : CsrAddr) (val : Word) : CsrFile :=
  { csrs with regs := Function.update csrs.regs csrAddr val }

def writeUnchecked (csrs : CsrFile) (csrAddr : CsrAddr) (val : Word) : CsrFile :=
  if csrAddr = Addr.misa then csrs
  else if csrAddr = Addr.mstatus then
    csrs.setReg Addr.mstatus
      (maskedWrite (csrs.regs Addr.mstatus) val Mstatus.writeMask)
  else if csrAddr = Addr.sstatus then
    csrs.setReg Addr.mstatus
      (maskedWrite (csrs.regs Addr.mstatus) val Mstatus.sstatusMask)
  else if csrAddr = Addr.sie then
    csrs.setReg Addr.mie (maskedWrite (csrs.regs Addr.mie) val Interrupt.sMask)
  else if csrAddr = Addr.sip then
    csrs.setReg Addr.mip (maskedWrite (csrs.regs Addr.mip) val Interrupt.ssip)
  else if csrAddr = Addr.satp then
    let mode := (val >>> 60) &&& 0xF
    if mode = 0 ∨ mode = 8 then csrs.setReg Addr.satp val
    else csrs.setReg Addr.satp 0
  else csrs.setReg csrAddr val

def read (csrs : CsrFile) (csrAddr : CsrAddr) (privMode : PrivilegeMode) :
    Except CsrError Word :=
  let required := requiredPrivilege csrAddr
  if privMode.bits < required.bits then
    .error (.insufficientPrivilege csrAddr required privMode)
  else if isUnimplementedCsr csrAddr then .error (.unimplemented csrAddr)
  else .ok (csrs.readUnchecked csrAddr)

def write (csrs : CsrFile) (csrAddr : CsrAddr) (val : Word)
    (privMode : PrivilegeMode) : Except CsrError CsrFile :=
  let required := requiredPrivilege csrAddr
  if privMode.bits < required.bits then
    .error (.insufficientPrivilege csrAddr required privMode)
  else if (csrAddr >>> 10) &&& 0x3 = 0x3 then .error (.readOnly csrAddr)
  else if isUnimplementedCsr csrAddr then .error (.unimplemented csrAddr)
  else .ok (csrs.writeUnchecked csrAddr val)

end CsrFile

end MetaVm.Riscv
