import MetaVm.Riscv.Decode
import MetaVm.Riscv.Machine.Cpu
import MetaVm.Riscv.Machine.Mmu
import MetaVm.Riscv.Machine.Mmio

namespace MetaVm.Riscv

open Rv64

inductive VmError
  | decode (error : DecodeError)
  | halted
  | ebreak (pc : Word)
deriving DecidableEq, Repr

structure TlbEntry where
  vpn : Word
  ppn : Word
  satp : Word
  readable : Bool
  writable : Bool
  executable : Bool

structure Vm where
  cpu : CpuState
  memory : Memory
  halted : Bool
  exitCode : Option Word
  mmio : MmioController
  privileged : Bool
  reservation : Option (Word × Byte)
  insnLen : Byte
  lastFetched : Option (Instruction × Byte)
  tlb : BitVec 8 → Option TlbEntry

/-- What a step leaves: the machine, also after an error, and its result. -/
abbrev StepResult : Type := Vm × Except VmError Unit

namespace Vm

def new (cpu : CpuState) (memory : Memory) : Vm where
  cpu := cpu
  memory := memory
  halted := false
  exitCode := none
  mmio := .new
  privileged := false
  reservation := none
  insnLen := 4
  lastFetched := none
  tlb := fun _ => none

def newPrivileged (cpu : CpuState) (memory : Memory) : Vm :=
  { new cpu memory with privileged := true }

def setPc (vm : Vm) (pc : Word) : Vm := { vm with cpu := { vm.cpu with pc := pc } }

def writeReg (vm : Vm) (reg : Reg) (val : Word) : Vm :=
  { vm with cpu := vm.cpu.writeReg reg val }

def trap (vm : Vm) (cause : TrapCause) (tval epc : Word) : Vm :=
  { vm with cpu := deliverTrap vm.cpu cause tval epc }

/-! Address translation. -/

def translationActive (vm : Vm) : Bool :=
  vm.privileged ∧ (vm.cpu.csrs.readUnchecked Addr.satp >>> 60) &&& 0xF ≠ 0 ∧
    vm.cpu.privMode ≠ .machine

def tlbLookup (vm : Vm) (vaddr : Word) (accessType : AccessType) (satp : Word) :
    Option Word :=
  let vpn := vaddr >>> 12
  match vm.tlb (vpn.setWidth 8) with
  | some entry =>
      let allowed : Bool :=
        match accessType with
        | .execute => entry.executable
        | .read => entry.readable
        | .write => entry.writable
      if entry.vpn = vpn ∧ entry.satp = satp ∧ allowed then
        some ((entry.ppn <<< 12) ||| (vaddr &&& 0xFFF))
      else none
  | none => none

def tlbInsert (vm : Vm) (vaddr paddr satp : Word) (r w x : Bool) : Vm :=
  let vpn := vaddr >>> 12
  { vm with
    tlb := Function.update vm.tlb (vpn.setWidth 8)
      (some ⟨vpn, paddr >>> 12, satp, r, w, x⟩) }

def tlbFlush (vm : Vm) : Vm := { vm with tlb := fun _ => none }

def pageFaultCause : AccessType → ExceptionCause
  | .execute => .instructionPageFault
  | .read => .loadPageFault
  | .write => .storePageFault

/-- The physical address, or `none` when a page fault was delivered. -/
def translateAddr (vm : Vm) (vaddr : Word) (accessType : AccessType) :
    Vm × Option Word :=
  let satp := vm.cpu.csrs.readUnchecked Addr.satp
  match vm.tlbLookup vaddr accessType satp with
  | some pa => (vm, some pa)
  | none =>
      let ms := vm.cpu.csrs.readUnchecked Addr.mstatus
      let mxr : Bool := ms &&& Mstatus.mxr ≠ 0
      let access : Access :=
        { vaddr := vaddr
          accessType := accessType
          privilege := vm.cpu.privMode.bits
          sum := ms &&& Mstatus.sum ≠ 0
          mxr := mxr }
      match translate vm.memory satp access with
      | .ok found =>
          let memory :=
            match found.pteUpdate with
            | some (pteAddr, newPte) => vm.memory.storeDouble pteAddr newPte
            | none => vm.memory
          let r := found.pteFlags &&& 0x2 ≠ 0 ∨ mxr ∧ found.pteFlags &&& 0x8 ≠ 0
          let w := found.pteFlags &&& 0x4 ≠ 0
          let x := found.pteFlags &&& 0x8 ≠ 0
          (tlbInsert { vm with memory := memory } (vaddr &&& ~~~0xFFF)
            (found.pa &&& ~~~0xFFF) satp r w x, some found.pa)
      | .error pf =>
          (vm.trap (.exception (pageFaultCause pf.accessType)) vaddr vm.cpu.pc, none)

def translateFor (vm : Vm) (vaddr : Word) (accessType : AccessType) :
    Vm × Option Word :=
  if vm.translationActive then vm.translateAddr vaddr accessType
  else (vm, some vaddr)

def translateLoad (vm : Vm) (vaddr : Word) : Vm × Option Word :=
  vm.translateFor vaddr .read

def translateStore (vm : Vm) (vaddr : Word) : Vm × Option Word :=
  vm.translateFor vaddr .write

/-! Physical accesses. Below the RAM base a device may answer. -/

abbrev ramBase : Word := 0x80000000

def mmioLoadByte (vm : Vm) (addr : Word) : Byte × Vm :=
  if ramBase ≤ addr then (vm.memory.loadByte addr, vm)
  else
    let (b, mmio) := vm.mmio.readByte addr
    (b.getD (vm.memory.loadByte addr), { vm with mmio := mmio })

def mmioStoreByte (vm : Vm) (addr : Word) (val : Byte) : Vm :=
  if ramBase ≤ addr then { vm with memory := vm.memory.storeByte addr val }
  else
    let (handled, mmio) := vm.mmio.writeByte addr val
    if handled then { vm with mmio := mmio }
    else { vm with memory := vm.memory.storeByte addr val }

def mmioLoadHalf (vm : Vm) (addr : Word) : BitVec 16 × Vm :=
  if ramBase ≤ addr then (vm.memory.loadHalf addr, vm)
  else
    let (lo, vm) := vm.mmioLoadByte addr
    let (hi, vm) := vm.mmioLoadByte (addr + 1)
    (lo.setWidth 16 ||| hi.setWidth 16 <<< 8, vm)

def mmioStoreHalf (vm : Vm) (addr : Word) (val : BitVec 16) : Vm :=
  if ramBase ≤ addr then { vm with memory := vm.memory.storeHalf addr val }
  else
    (vm.mmioStoreByte addr (val.setWidth 8)).mmioStoreByte (addr + 1)
      ((val >>> 8).setWidth 8)

def mmioLoadWord (vm : Vm) (addr : Word) : BitVec 32 × Vm :=
  if ramBase ≤ addr then (vm.memory.loadWord addr, vm)
  else
    let (lo, vm) := vm.mmioLoadHalf addr
    let (hi, vm) := vm.mmioLoadHalf (addr + 2)
    (lo.setWidth 32 ||| hi.setWidth 32 <<< 16, vm)

def mmioStoreWord (vm : Vm) (addr : Word) (val : BitVec 32) : Vm :=
  if ramBase ≤ addr then { vm with memory := vm.memory.storeWord addr val }
  else
    (vm.mmioStoreHalf addr (val.setWidth 16)).mmioStoreHalf (addr + 2)
      ((val >>> 16).setWidth 16)

def mmioLoadDouble (vm : Vm) (addr : Word) : BitVec 64 × Vm :=
  if ramBase ≤ addr then (vm.memory.loadDouble addr, vm)
  else
    let (lo, vm) := vm.mmioLoadWord addr
    let (hi, vm) := vm.mmioLoadWord (addr + 4)
    (lo.setWidth 64 ||| hi.setWidth 64 <<< 32, vm)

def mmioStoreDouble (vm : Vm) (addr : Word) (val : BitVec 64) : Vm :=
  if ramBase ≤ addr then { vm with memory := vm.memory.storeDouble addr val }
  else
    (vm.mmioStoreWord addr (val.setWidth 32)).mmioStoreWord (addr + 4)
      ((val >>> 32).setWidth 32)

/-- A store that overlaps the reserved bytes drops the reservation. -/
def checkReservationOnStore (vm : Vm) (storeAddr : Word) (storeSize : Byte) : Vm :=
  match vm.reservation with
  | some (resAddr, resSize) =>
      if storeAddr < resAddr + resSize.setWidth 64 ∧
          resAddr < storeAddr + storeSize.setWidth 64 then
        { vm with reservation := none }
      else vm
  | none => vm

end Vm

/-! What the instructions compute. -/

def BranchOp.taken (op : BranchOp) (a b : Word) : Bool :=
  match op with
  | beq => a = b
  | bne => a ≠ b
  | blt => a.slt b
  | bge => !a.slt b
  | bltu => a < b
  | bgeu => b ≤ a

def ImmOp.result (op : ImmOp) (a imm : Word) : Word :=
  match op with
  | addi => a + imm
  | slti => slt a imm
  | sltiu => sltu a imm
  | xori => a ^^^ imm
  | ori => a ||| imm
  | andi => a &&& imm
  | slli => sll a imm
  | srli => srl a imm
  | srai => sra a imm

def RegOp.result (op : RegOp) (a b : Word) : Word :=
  match op with
  | add => a + b
  | sub => a - b
  | sll => Rv64.sll a b
  | slt => Rv64.slt a b
  | sltu => Rv64.sltu a b
  | xor => a ^^^ b
  | srl => Rv64.srl a b
  | sra => Rv64.sra a b
  | or => a ||| b
  | and => a &&& b

def ImmWOp.result (op : ImmWOp) (a imm : Word) : Word :=
  match op with
  | addiw => addw a imm
  | slliw => sllw a imm
  | srliw => srlw a imm
  | sraiw => sraw a imm

def RegWOp.result (op : RegWOp) (a b : Word) : Word :=
  match op with
  | addw => Rv64.addw a b
  | subw => Rv64.subw a b
  | sllw => Rv64.sllw a b
  | srlw => Rv64.srlw a b
  | sraw => Rv64.sraw a b

def MulDivOp.result (op : MulDivOp) (a b : Word) : Word :=
  match op with
  | mul => a * b
  | mulh => Rv64.mulh a b
  | mulhsu => Rv64.mulhsu a b
  | mulhu => Rv64.mulhu a b
  | div => Rv64.div a b
  | divu => Rv64.divu a b
  | rem => Rv64.rem a b
  | remu => Rv64.remu a b
  | mulw => Rv64.mulw a b
  | divw => Rv64.divw a b
  | divuw => Rv64.divuw a b
  | remw => Rv64.remw a b
  | remuw => Rv64.remuw a b

def CsrOp.update (op : CsrOp) (old source : Word) : Word :=
  match op with
  | rw => source
  | rs => old ||| source
  | rc => old &&& ~~~source

/-- The value an atomic update stores; the word and the double-word forms
compute it at their own width. -/
def AmoOp.update {width : ℕ} (op : AmoOp) (old src : BitVec width) : BitVec width :=
  match op with
  | swap => src
  | add => old + src
  | and => old &&& src
  | or => old ||| src
  | xor => old ^^^ src
  | max => if src.slt old then old else src
  | min => if src.slt old then src else old
  | maxu => if src < old then old else src
  | minu => if src < old then src else old

namespace Vm

def loadOp (vm : Vm) (op : LoadOp) (pa : Word) : Word × Vm :=
  match op with
  | .lb => (vm.mmioLoadByte pa).map (·.signExtend 64) id
  | .lh => (vm.mmioLoadHalf pa).map (·.signExtend 64) id
  | .lw => (vm.mmioLoadWord pa).map (·.signExtend 64) id
  | .ld => vm.mmioLoadDouble pa
  | .lbu => (vm.mmioLoadByte pa).map (·.setWidth 64) id
  | .lhu => (vm.mmioLoadHalf pa).map (·.setWidth 64) id
  | .lwu => (vm.mmioLoadWord pa).map (·.setWidth 64) id

def storeOp (vm : Vm) (op : StoreOp) (pa val : Word) : Vm :=
  match op with
  | .sb => (vm.mmioStoreByte pa (val.setWidth 8)).checkReservationOnStore pa 1
  | .sh => (vm.mmioStoreHalf pa (val.setWidth 16)).checkReservationOnStore pa 2
  | .sw => (vm.mmioStoreWord pa (val.setWidth 32)).checkReservationOnStore pa 4
  | .sd => (vm.mmioStoreDouble pa val).checkReservationOnStore pa 8

/-- Read the old value, store its update and return the old value. -/
def amoOp (vm : Vm) (op : AmoOp) (width : AmoWidth) (pa src : Word) : Word × Vm :=
  match width with
  | .w =>
      let (old, vm) := vm.mmioLoadWord pa
      (sext32 old, vm.mmioStoreWord pa (op.update old (low src)))
  | .d =>
      let (old, vm) := vm.mmioLoadDouble pa
      (old, vm.mmioStoreDouble pa (op.update old src))

def illegal (vm : Vm) : Vm :=
  vm.trap (.exception .illegalInstruction) 0 vm.cpu.pc

/-- The address of the next instruction in sequence. -/
def sequentialPc (vm : Vm) : Word := vm.cpu.pc + vm.insnLen.setWidth 64

def executeEcall (vm : Vm) : Vm :=
  if vm.privileged then
    let cause : ExceptionCause :=
      match vm.cpu.privMode with
      | .user => .environmentCallFromU
      | .supervisor => .environmentCallFromS
      | .machine => .environmentCallFromM
    vm.trap (.exception cause) 0 vm.cpu.pc
  else
    let syscall := vm.cpu.readReg 17
    if syscall = 0 then { vm.setPc vm.sequentialPc with halted := true }
    else if syscall = 93 then
      { vm.setPc vm.sequentialPc with
        exitCode := some (vm.cpu.readReg 10)
        halted := true }
    else if syscall = 64 then
      let buf := vm.cpu.readReg 11
      let count := vm.cpu.readReg 12
      let written := (List.range count.toNat).map fun i =>
        vm.memory.loadByte (buf + BitVec.ofNat 64 i)
      let uart := { vm.mmio.uart with output := vm.mmio.uart.output ++ written }
      ({ vm with mmio := { vm.mmio with uart := uart } }.writeReg 10 count).setPc
        vm.sequentialPc
    else (vm.writeReg 10 (-38)).setPc vm.sequentialPc

/-- A control register instruction. One that cannot read leaves an unprivileged
machine where it is. -/
def executeCsr (vm : Vm) (op : CsrOp) (rd : Reg) (csr : CsrAddr) (source : Word)
    (writes : Bool) : Vm :=
  match vm.cpu.csrs.read csr vm.cpu.privMode with
  | .error _ => if vm.privileged then vm.illegal else vm
  | .ok old =>
      let written :=
        if writes then vm.cpu.csrs.write csr (op.update old source) vm.cpu.privMode
        else .ok vm.cpu.csrs
      match written with
      | .error _ =>
          if vm.privileged then vm.illegal
          else (vm.writeReg rd old).setPc vm.sequentialPc
      | .ok csrs =>
          ({ vm with cpu := { vm.cpu with csrs := csrs } }.writeReg rd old).setPc
            vm.sequentialPc

def executeMret (vm : Vm) : Vm :=
  let ms := vm.cpu.csrs.readUnchecked Addr.mstatus
  let mpp := (ms &&& Mstatus.mppMask) >>> Mstatus.mppShift
  let newMs := setFlag ms Mstatus.mie (ms &&& Mstatus.mpie ≠ 0)
  let newMs := (newMs ||| Mstatus.mpie) &&& ~~~Mstatus.mppMask
  let newMs := if mpp ≠ PrivilegeMode.machine.bits then newMs &&& ~~~Mstatus.mprv
    else newMs
  let csrs := vm.cpu.csrs.writeUnchecked Addr.mstatus newMs
  { vm with
    cpu := { vm.cpu with
      csrs := csrs
      privMode := .fromBits mpp
      pc := csrs.readUnchecked Addr.mepc } }.tlbFlush

/-- The status bit `flag` makes an instruction illegal for the supervisor. -/
def supervisorBars (vm : Vm) (flag : Word) : Bool :=
  vm.cpu.privMode = .supervisor ∧
    vm.cpu.csrs.readUnchecked Addr.mstatus &&& flag ≠ 0 ∧ vm.privileged

def executeSret (vm : Vm) : Vm :=
  if vm.supervisorBars Mstatus.tsr then vm.illegal
  else
    let ms := vm.cpu.csrs.readUnchecked Addr.mstatus
    let spp : Word := if ms &&& Mstatus.spp ≠ 0 then 1 else 0
    let newMs := setFlag ms Mstatus.sie (ms &&& Mstatus.spie ≠ 0)
    let newMs := (newMs ||| Mstatus.spie) &&& ~~~Mstatus.spp &&& ~~~Mstatus.mprv
    let csrs := vm.cpu.csrs.writeUnchecked Addr.mstatus newMs
    { vm with
      cpu := { vm.cpu with
        csrs := csrs
        privMode := .fromBits spp
        pc := csrs.readUnchecked Addr.sepc } }

/-- Continue with a translated address, or stop at the page fault. -/
def onAddress (translated : Vm × Option Word) (next : Vm → Word → Vm) : Vm :=
  match translated with
  | (vm, some pa) => next vm pa
  | (vm, none) => vm

def execute (vm : Vm) (insn : Instruction) : StepResult :=
  let pc := vm.cpu.pc
  let next := vm.sequentialPc
  let read := vm.cpu.readReg
  match insn with
  | .lui rd imm => ((vm.writeReg rd imm.word).setPc next, .ok ())
  | .auipc rd imm => ((vm.writeReg rd (pc + imm.word)).setPc next, .ok ())
  | .jal rd imm => ((vm.writeReg rd next).setPc (pc + imm.word), .ok ())
  | .jalr rd rs1 imm =>
      ((vm.writeReg rd next).setPc ((read rs1 + imm.word) &&& ~~~1), .ok ())
  | .branch op rs1 rs2 imm =>
      (vm.setPc (if op.taken (read rs1) (read rs2) then pc + imm.word else next),
        .ok ())
  | .load op rd rs1 imm =>
      (onAddress (vm.translateLoad (read rs1 + imm.word)) fun vm pa =>
        let (val, vm) := vm.loadOp op pa
        (vm.writeReg rd val).setPc next, .ok ())
  | .store op rs1 rs2 imm =>
      (onAddress (vm.translateStore (read rs1 + imm.word)) fun vm pa =>
        (vm.storeOp op pa (read rs2)).setPc next, .ok ())
  | .opImm op rd rs1 imm =>
      ((vm.writeReg rd (op.result (read rs1) imm.word)).setPc next, .ok ())
  | .op op rd rs1 rs2 =>
      ((vm.writeReg rd (op.result (read rs1) (read rs2))).setPc next, .ok ())
  | .opImmW op rd rs1 imm =>
      ((vm.writeReg rd (op.result (read rs1) imm.word)).setPc next, .ok ())
  | .opW op rd rs1 rs2 =>
      ((vm.writeReg rd (op.result (read rs1) (read rs2))).setPc next, .ok ())
  | .mulDiv op rd rs1 rs2 =>
      ((vm.writeReg rd (op.result (read rs1) (read rs2))).setPc next, .ok ())
  | .fence _ _ => (vm.setPc next, .ok ())
  | .fenceI => (vm.setPc next, .ok ())
  | .ecall => (vm.executeEcall, .ok ())
  | .ebreak =>
      if vm.privileged then (vm.trap (.exception .breakpoint) 0 pc, .ok ())
      else ({ vm.setPc next with halted := true }, .error (.ebreak pc))
  | .csr .rw rd rs1 csr => (vm.executeCsr .rw rd csr (read rs1) true, .ok ())
  | .csr op rd rs1 csr => (vm.executeCsr op rd csr (read rs1) (rs1 ≠ 0), .ok ())
  | .csrImm .rw rd uimm csr =>
      (vm.executeCsr .rw rd csr (uimm.setWidth 64) true, .ok ())
  | .csrImm op rd uimm csr =>
      (vm.executeCsr op rd csr (uimm.setWidth 64) (uimm ≠ 0), .ok ())
  | .mret => (vm.executeMret, .ok ())
  | .sret => (vm.executeSret, .ok ())
  | .wfi =>
      (if vm.supervisorBars Mstatus.tw then vm.illegal else vm.setPc next, .ok ())
  | .sfenceVma _ _ =>
      (if vm.supervisorBars Mstatus.tvm then vm.illegal
        else vm.tlbFlush.setPc next, .ok ())
  | .lr width rd rs1 _ _ =>
      (onAddress (vm.translateLoad (read rs1)) fun vm pa =>
        let (val, vm, size) : Word × Vm × Byte :=
          match width with
          | .w => let (val, vm) := vm.mmioLoadWord pa; (sext32 val, vm, 4)
          | .d => let (val, vm) := vm.mmioLoadDouble pa; (val, vm, 8)
        { (vm.writeReg rd val).setPc next with reservation := some (pa, size) },
        .ok ())
  | .sc width rd rs1 rs2 _ _ =>
      (onAddress (vm.translateStore (read rs1)) fun vm pa =>
        let size : Byte := match width with | .w => 4 | .d => 8
        let vm :=
          if vm.reservation = some (pa, size) then
            (match width with
              | .w => vm.mmioStoreWord pa (low (read rs2))
              | .d => vm.mmioStoreDouble pa (read rs2)).writeReg rd 0
          else vm.writeReg rd 1
        { vm.setPc next with reservation := none }, .ok ())
  | .amo op width rd rs1 rs2 _ _ =>
      (onAddress (vm.translateStore (read rs1)) fun vm pa =>
        let (old, vm) := vm.amoOp op width pa (read rs2)
        { (vm.writeReg rd old).setPc next with reservation := none }, .ok ())

/-! Devices and interrupts. -/

abbrev tickInterval : Word := 64

abbrev mtimeIncrementPerInsn : Word := 4

/-- Let every notified block device work through its queue. -/
def processVirtio (memory : Memory) :
    List VirtioBlockDevice → Option (List VirtioBlockDevice × Memory)
  | [] => some ([], memory)
  | dev :: rest => do
      let (dev, memory) ←
        if dev.notifyPending then dev.processQueue memory else some (dev, memory)
      let (rest, memory) ← processVirtio memory rest
      return (dev :: rest, memory)

/-- The interrupt bits that the devices raise or clear. -/
def devicePending (vm : Vm) (mtime mip : Word) : Word :=
  let plic := vm.mmio.plic
  let first : Fin 2 := ⟨0, Nat.zero_lt_two⟩
  let second : Fin 2 := ⟨1, Nat.one_lt_two⟩
  let anyPending : Bool := plic.pending first ≠ 0 ∨ plic.pending second ≠ 0
  let mip := setFlag mip Interrupt.mtip (vm.mmio.clint.mtimecmp ≤ mtime)
  let mip := setFlag mip Interrupt.msip vm.mmio.clint.msipPending
  let mip := setFlag mip Interrupt.meip (anyPending && plic.hasPending first)
  let mip := setFlag mip Interrupt.seip (anyPending && plic.hasPending second)
  setFlag mip Interrupt.stip (vm.cpu.csrs.readUnchecked Addr.stimecmp ≤ mtime)

/-- `none` when a block device panics. -/
def tickDevices (vm : Vm) : Option Vm :=
  let mtime := vm.mmio.clint.mtime + mtimeIncrementPerInsn * tickInterval
  let mip := vm.devicePending mtime (vm.cpu.csrs.readUnchecked Addr.mip)
  let csrs := { vm.cpu.csrs with mtime := mtime }.writeUnchecked Addr.mip mip
  (processVirtio vm.memory vm.mmio.virtioDevices).map fun (devices, memory) =>
    { vm with
      cpu := { vm.cpu with csrs := csrs }
      memory := memory
      mmio := { vm.mmio with
        clint := { vm.mmio.clint with mtime := mtime }
        virtioDevices := devices } }

/-- Interrupts from the highest priority down. -/
def interruptPriorities : List (Word × InterruptCause) :=
  [(Interrupt.meip, .machineExternal), (Interrupt.msip, .machineSoftware),
    (Interrupt.mtip, .machineTimer), (Interrupt.seip, .supervisorExternal),
    (Interrupt.ssip, .supervisorSoftware), (Interrupt.stip, .supervisorTimer)]

def shouldTake (cpu : CpuState) (cause : InterruptCause) : Bool :=
  let ms := cpu.csrs.readUnchecked Addr.mstatus
  if (cpu.csrs.readUnchecked Addr.mideleg >>> cause.code) &&& 1 ≠ 0 then
    match cpu.privMode with
    | .user => true
    | .supervisor => ms &&& Mstatus.sie ≠ 0
    | .machine => false
  else
    match cpu.privMode with
    | .user => true
    | .supervisor => true
    | .machine => ms &&& Mstatus.mie ≠ 0

def checkPendingInterrupts (vm : Vm) : Vm :=
  let pending := vm.cpu.csrs.readUnchecked Addr.mip &&&
    vm.cpu.csrs.readUnchecked Addr.mie
  match interruptPriorities.find? fun (bit, cause) =>
    pending &&& bit ≠ 0 ∧ shouldTake vm.cpu cause with
  | some (_, cause) => vm.trap (.interrupt cause) 0 vm.cpu.pc
  | none => vm

/-! Stepping. -/

inductive FetchOutcome
  | fetched (vm : Vm) (insn : FetchedInstruction)
  | trapped (vm : Vm)
  | failed (vm : Vm) (error : DecodeError)

def fetch (vm : Vm) : FetchOutcome :=
  let vm := { vm with lastFetched := none }
  match vm.translateFor vm.cpu.pc .execute with
  | (vm, none) => .trapped vm
  | (vm, some fetchPc) =>
      match fetchDecode vm.memory fetchPc with
      | .ok insn =>
          .fetched { vm with
            insnLen := insn.len
            lastFetched := some (insn.instruction, insn.len) } insn
      | .error e =>
          if vm.privileged then
            let word := vm.memory.loadWord fetchPc
            .trapped (vm.trap (.exception .illegalInstruction) (word.setWidth 64)
              vm.cpu.pc)
          else .failed vm e

/-- The retired instruction count goes up on a privileged machine. -/
def retire (vm : Vm) : Vm :=
  if vm.privileged then
    let csrs := { vm.cpu.csrs with instret := vm.cpu.csrs.instret + 1 }
    { vm with cpu := { vm.cpu with csrs := csrs } }
  else vm

def stepInner (vm : Vm) : StepResult :=
  match vm.fetch with
  | .fetched vm insn =>
      match vm.execute insn.instruction with
      | (vm, .ok ()) => (vm.retire, .ok ())
      | (vm, .error e) => (vm, .error e)
  | .trapped vm => (vm, .ok ())
  | .failed vm e => (vm, .error (.decode e))

/-- The machine as it fetches: a privileged one lets its devices tick and takes
a pending interrupt first. -/
def prepare (vm : Vm) : Option Vm :=
  if vm.privileged then vm.tickDevices.map checkPendingInterrupts else some vm

def step (vm : Vm) : Option StepResult :=
  if vm.halted then some (vm, .error .halted)
  else vm.prepare.map stepInner

end Vm

end MetaVm.Riscv
