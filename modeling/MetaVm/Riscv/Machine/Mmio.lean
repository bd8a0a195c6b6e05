import MetaVm.Riscv.Machine.Virtio

namespace MetaVm.Riscv

/-! Memory-mapped devices. Their registers are reached byte by byte. -/

structure UartDevice where
  output : List Byte
  input : List Byte
  inputCursor : ℕ
  ier : Byte
  lcr : Byte
  mcr : Byte
  fcr : Byte
  dll : Byte
  dlm : Byte
  scratch : Byte

namespace UartDevice

def withInput (input : List Byte) : UartDevice :=
  ⟨[], input, 0, 0, 0x03, 0, 0, 0x01, 0, 0⟩

def new : UartDevice := withInput []

def dlab (uart : UartDevice) : Bool := uart.lcr &&& 0x80 ≠ 0

def dataReady (uart : UartDevice) : Bool := uart.inputCursor < uart.input.length

def read (uart : UartDevice) (offset : Word) : Byte :=
  if offset = 0 then
    if uart.dlab then uart.dll else uart.input.getD uart.inputCursor 0
  else if offset = 1 then if uart.dlab then uart.dlm else uart.ier
  else if offset = 2 then
    let fifoBits : Byte := if uart.fcr &&& 1 ≠ 0 then 0xC0 else 0
    if uart.ier &&& 0x01 ≠ 0 ∧ uart.dataReady then fifoBits ||| 0x04
    else if uart.ier &&& 0x02 ≠ 0 then fifoBits ||| 0x02
    else fifoBits ||| 0x01
  else if offset = 3 then uart.lcr
  else if offset = 4 then uart.mcr
  else if offset = 5 then (if uart.dataReady then 1 else 0) ||| 1 <<< 5 ||| 1 <<< 6
  else if offset = 6 then 0x30
  else if offset = 7 then uart.scratch
  else 0

/-- Reading the receive buffer consumes a byte of input. -/
def readMut (uart : UartDevice) (offset : Word) : Byte × UartDevice :=
  if offset = 0 ∧ ¬ uart.dlab then
    match uart.input[uart.inputCursor]? with
    | some b => (b, { uart with inputCursor := uart.inputCursor + 1 })
    | none => (0, uart)
  else (uart.read offset, uart)

def write (uart : UartDevice) (offset : Word) (val : Byte) : UartDevice :=
  if offset = 0 then
    if uart.dlab then { uart with dll := val }
    else { uart with output := uart.output ++ [val] }
  else if offset = 1 then
    if uart.dlab then { uart with dlm := val }
    else { uart with ier := val &&& 0x0F }
  else if offset = 2 then { uart with fcr := val }
  else if offset = 3 then { uart with lcr := val }
  else if offset = 4 then { uart with mcr := val &&& 0x1F }
  else if offset = 7 then { uart with scratch := val }
  else uart

end UartDevice

/-- A byte of a register, and the register with a byte replaced. -/
def byteOf {width : ℕ} (register : BitVec width) (index : Word) : Byte :=
  (register >>> (index * 8)).setWidth 8

def setByte {width : ℕ} (register : BitVec width) (index : Word) (val : Byte) :
    BitVec width :=
  (register &&& ~~~((0xFF : BitVec width) <<< (index * 8))) |||
    val.setWidth width <<< (index * 8)

/-- The addresses from `base` up to `size` bytes on. -/
def InRange (addr base size : Word) : Prop := base ≤ addr ∧ addr < base + size

instance (addr base size : Word) : Decidable (InRange addr base size) :=
  inferInstanceAs (Decidable (_ ∧ _))

namespace Clint

abbrev base : Word := 0x02000000
abbrev size : Word := 0x10000
abbrev msip : Word := 0x0000
abbrev mtimecmp : Word := 0x4000
abbrev mtime : Word := 0xBFF8

end Clint

structure ClintDevice where
  msip : BitVec 32
  mtimecmp : Word
  mtime : Word

namespace ClintDevice

def new : ClintDevice := ⟨0, 0, 0⟩

def msipPending (clint : ClintDevice) : Bool := clint.msip &&& 1 ≠ 0

def readU8 (clint : ClintDevice) (offset : Word) : Byte :=
  if InRange offset Clint.msip 4 then byteOf clint.msip (offset - Clint.msip)
  else if InRange offset Clint.mtimecmp 8 then
    byteOf clint.mtimecmp (offset - Clint.mtimecmp)
  else if InRange offset Clint.mtime 8 then
    byteOf clint.mtime (offset - Clint.mtime)
  else 0

def writeU8 (clint : ClintDevice) (offset : Word) (val : Byte) : ClintDevice :=
  if InRange offset Clint.msip 4 then
    { clint with msip := setByte clint.msip (offset - Clint.msip) val &&& 1 }
  else if InRange offset Clint.mtimecmp 8 then
    { clint with
      mtimecmp := setByte clint.mtimecmp (offset - Clint.mtimecmp) val }
  else if InRange offset Clint.mtime 8 then
    { clint with mtime := setByte clint.mtime (offset - Clint.mtime) val }
  else clint

end ClintDevice

namespace Plic

abbrev base : Word := 0x0C000000
abbrev size : Word := 0x04000000
abbrev priorityBase : Word := 0x0000
abbrev pendingBase : Word := 0x1000
abbrev enableBase : Word := 0x2000
abbrev enableStride : Word := 0x80
abbrev contextBase : Word := 0x200000
abbrev contextStride : Word := 0x1000

end Plic

/-- The interrupt controller: 63 sources and two contexts. -/
structure PlicDevice where
  priority : Fin 64 → BitVec 32
  pending : Fin 2 → BitVec 32
  enable : Fin 2 → Fin 2 → BitVec 32
  threshold : Fin 2 → BitVec 32
  claimed : Fin 2 → BitVec 32

namespace PlicDevice

def new : PlicDevice :=
  ⟨fun _ => 0, fun _ => 0, fun _ _ => 0, fun _ => 0, fun _ => 0⟩

/-- The word of a bitmap that holds a source. -/
def wordOf (source : Fin 64) : Fin 2 := Fin.ofNat 2 (source.val / 32)

def hasPending (plic : PlicDevice) (context : Fin 2) : Bool :=
  (List.finRange 64).any fun source =>
    source ≠ 0 ∧ (plic.pending (wordOf source) >>> (source.val % 32)) &&& 1 ≠ 0 ∧
      (plic.enable context (wordOf source) >>> (source.val % 32)) &&& 1 ≠ 0 ∧
      plic.threshold context < plic.priority source

def enableBaseOf (context : Fin 2) : Word :=
  Plic.enableBase + Plic.enableStride * BitVec.ofNat 64 context.val

def contextBaseOf (context : Fin 2) : Word :=
  Plic.contextBase + Plic.contextStride * BitVec.ofNat 64 context.val

/-- The index of the word register at `offset` above `base`. -/
def wordIndex (size : ℕ) [NeZero size] (offset base : Word) : Fin size :=
  Fin.ofNat size ((offset - base) / 4).toNat

def readU32NoSideEffect (plic : PlicDevice) (offset : Word) : BitVec 32 :=
  if offset < Plic.priorityBase + 64 * 4 then
    plic.priority (wordIndex 64 offset Plic.priorityBase)
  else if InRange offset Plic.pendingBase 8 then
    plic.pending (wordIndex 2 offset Plic.pendingBase)
  else if InRange offset (enableBaseOf 0) 8 then
    plic.enable 0 (wordIndex 2 offset (enableBaseOf 0))
  else if InRange offset (enableBaseOf 1) 8 then
    plic.enable 1 (wordIndex 2 offset (enableBaseOf 1))
  else if offset = contextBaseOf 0 then plic.threshold 0
  else if offset = contextBaseOf 0 + 4 then plic.claimed 0
  else if offset = contextBaseOf 1 then plic.threshold 1
  else if offset = contextBaseOf 1 + 4 then plic.claimed 1
  else 0

/-- Writing the completion register does nothing. -/
def writeU32 (plic : PlicDevice) (offset : Word) (val : BitVec 32) : PlicDevice :=
  let setEnable := fun context : Fin 2 =>
    Function.update plic.enable context (Function.update (plic.enable context)
      (wordIndex 2 offset (enableBaseOf context)) val)
  if offset < Plic.priorityBase + 64 * 4 then
    { plic with
      priority := Function.update plic.priority
        (wordIndex 64 offset Plic.priorityBase) val }
  else if InRange offset Plic.pendingBase 8 then plic
  else if InRange offset (enableBaseOf 0) 8 then
    { plic with enable := setEnable 0 }
  else if InRange offset (enableBaseOf 1) 8 then
    { plic with enable := setEnable 1 }
  else if offset = contextBaseOf 0 then
    { plic with threshold := Function.update plic.threshold 0 val }
  else if offset = contextBaseOf 0 + 4 then plic
  else if offset = contextBaseOf 1 then
    { plic with threshold := Function.update plic.threshold 1 val }
  else plic

def readU8 (plic : PlicDevice) (offset : Word) : Byte :=
  byteOf (plic.readU32NoSideEffect (offset &&& ~~~0x3)) (offset &&& 0x3)

def writeU8 (plic : PlicDevice) (offset : Word) (val : Byte) : PlicDevice :=
  let aligned := offset &&& ~~~0x3
  plic.writeU32 aligned
    (setByte (plic.readU32NoSideEffect aligned) (offset &&& 0x3) val)

end PlicDevice

namespace Uart

abbrev base : Word := 0x10000000
abbrev size : Word := 8

end Uart

structure MmioController where
  uart : UartDevice
  clint : ClintDevice
  plic : PlicDevice
  virtioDevices : List VirtioBlockDevice

namespace MmioController

def new : MmioController := ⟨.new, .new, .new, []⟩

def virtioBase (index : ℕ) : Word := Virtio.base + BitVec.ofNat 64 index * Virtio.size

/-- The first block device that maps `addr`. -/
def virtioIndex (mmio : MmioController) (addr : Word) : Option ℕ :=
  (List.range mmio.virtioDevices.length).find? fun index =>
    InRange addr (virtioBase index) Virtio.size

/-- `none` for an address that no device maps. -/
def readByte (mmio : MmioController) (addr : Word) :
    Option Byte × MmioController :=
  if InRange addr Uart.base Uart.size then
    let (b, uart) := mmio.uart.readMut (addr - Uart.base)
    (some b, { mmio with uart := uart })
  else if InRange addr Clint.base Clint.size then
    (some (mmio.clint.readU8 (addr - Clint.base)), mmio)
  else if InRange addr Plic.base Plic.size then
    (some (mmio.plic.readU8 (addr - Plic.base)), mmio)
  else
    (do
      let index ← mmio.virtioIndex addr
      let dev ← mmio.virtioDevices[index]?
      return dev.readU8 (addr - virtioBase index), mmio)

/-- Whether a device took the write, and the devices after it. -/
def writeByte (mmio : MmioController) (addr : Word) (val : Byte) :
    Bool × MmioController :=
  if InRange addr Uart.base Uart.size then
    (true, { mmio with uart := mmio.uart.write (addr - Uart.base) val })
  else if InRange addr Clint.base Clint.size then
    (true, { mmio with clint := mmio.clint.writeU8 (addr - Clint.base) val })
  else if InRange addr Plic.base Plic.size then
    (true, { mmio with plic := mmio.plic.writeU8 (addr - Plic.base) val })
  else
    match mmio.virtioIndex addr with
    | some index =>
        let devices := mmio.virtioDevices.modify index fun dev =>
          dev.writeU8 (addr - virtioBase index) val
        (true, { mmio with virtioDevices := devices })
    | none => (false, mmio)

end MmioController

end MetaVm.Riscv
