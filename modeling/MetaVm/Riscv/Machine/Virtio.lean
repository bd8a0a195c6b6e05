import MetaVm.Riscv.Machine.Memory

namespace MetaVm.Riscv

/-! The VirtIO block device. Address arithmetic wraps; an index past the end of
the disk panics, which is `none`. -/

namespace Virtio

abbrev base : Word := 0x10001000
abbrev size : Word := 0x200
abbrev magic : BitVec 32 := 0x74726976
abbrev version : BitVec 32 := 2
abbrev deviceIdBlock : BitVec 32 := 2
abbrev vendorId : BitVec 32 := 0x554D4551
abbrev queueNumMax : BitVec 32 := 256
abbrev blkTIn : BitVec 32 := 0
abbrev blkTOut : BitVec 32 := 1
abbrev descFNext : BitVec 16 := 1
abbrev blkSOk : Byte := 0
abbrev blkSIoerr : Byte := 1
abbrev sectorSize : Word := 512

end Virtio

open Virtio

structure VirtioBlockDevice where
  disk : List Byte
  status : BitVec 32
  deviceFeaturesSel : BitVec 32
  driverFeatures : Fin 2 → BitVec 32
  driverFeaturesSel : BitVec 32
  queueSel : BitVec 32
  queueNum : BitVec 32
  queueReady : BitVec 32
  queueDesc : Word
  queueDriver : Word
  queueDevice : Word
  interruptStatus : BitVec 32
  lastAvailIdx : BitVec 16
  notifyPending : Bool

/-- The low or the high half of a word register replaced. -/
def setLow (word : Word) (val : BitVec 32) : Word :=
  (word &&& 0xFFFFFFFF00000000) ||| val.setWidth 64

def setHigh (word : Word) (val : BitVec 32) : Word :=
  (word &&& 0x00000000FFFFFFFF) ||| val.setWidth 64 <<< 32

namespace VirtioBlockDevice

def capacity (dev : VirtioBlockDevice) : Word :=
  BitVec.ofNat 64 dev.disk.length / sectorSize

def readU32 (dev : VirtioBlockDevice) (offset : Word) : BitVec 32 :=
  if offset = 0x000 then magic
  else if offset = 0x004 then version
  else if offset = 0x008 then deviceIdBlock
  else if offset = 0x00C then vendorId
  else if offset = 0x010 then 0
  else if offset = 0x034 then queueNumMax
  else if offset = 0x044 then dev.queueReady
  else if offset = 0x060 then dev.interruptStatus
  else if offset = 0x070 then dev.status
  else if offset = 0x0FC then 0
  else if offset = 0x100 then dev.capacity.setWidth 32
  else if offset = 0x104 then (dev.capacity >>> 32).setWidth 32
  else 0

def writeU32 (dev : VirtioBlockDevice) (offset : Word) (val : BitVec 32) :
    VirtioBlockDevice :=
  if offset = 0x014 then { dev with deviceFeaturesSel := val }
  else if offset = 0x020 then
    if inside : dev.driverFeaturesSel.toNat < 2 then
      let sel : Fin 2 := ⟨dev.driverFeaturesSel.toNat, inside⟩
      { dev with driverFeatures := Function.update dev.driverFeatures sel val }
    else dev
  else if offset = 0x024 then { dev with driverFeaturesSel := val }
  else if offset = 0x030 then { dev with queueSel := val }
  else if offset = 0x038 then { dev with queueNum := val }
  else if offset = 0x044 then { dev with queueReady := val }
  else if offset = 0x050 then { dev with notifyPending := true }
  else if offset = 0x064 then
    { dev with interruptStatus := dev.interruptStatus &&& ~~~val }
  else if offset = 0x070 then { dev with status := val }
  else if offset = 0x080 then { dev with queueDesc := setLow dev.queueDesc val }
  else if offset = 0x084 then { dev with queueDesc := setHigh dev.queueDesc val }
  else if offset = 0x090 then
    { dev with queueDriver := setLow dev.queueDriver val }
  else if offset = 0x094 then
    { dev with queueDriver := setHigh dev.queueDriver val }
  else if offset = 0x0A0 then
    { dev with queueDevice := setLow dev.queueDevice val }
  else if offset = 0x0A4 then
    { dev with queueDevice := setHigh dev.queueDevice val }
  else dev

def readU8 (dev : VirtioBlockDevice) (offset : Word) : Byte :=
  (dev.readU32 (offset &&& ~~~0x3) >>> ((offset &&& 0x3) * 8)).setWidth 8

def writeU8 (dev : VirtioBlockDevice) (offset : Word) (val : Byte) :
    VirtioBlockDevice :=
  let aligned := offset &&& ~~~0x3
  let shift := (offset &&& 0x3) * 8
  let mask : BitVec 32 := ~~~((0xFF : BitVec 32) <<< shift)
  dev.writeU32 aligned
    ((dev.readU32 aligned &&& mask) ||| (val.setWidth 32 <<< shift))

/-- The index of the descriptor that follows the one at `descAddr`. -/
def nextDesc (memory : Memory) (descAddr : Word) (idx : BitVec 32) : BitVec 32 :=
  if memory.loadHalf (descAddr + 12) &&& descFNext ≠ 0 then
    (memory.loadHalf (descAddr + 14)).setWidth 32
  else idx + 1

/-- Copy `count` bytes of the disk into memory. -/
def diskToMemory (disk : List Byte) (memory : Memory) (diskOffset dataAddr : Word)
    (count : ℕ) : Option Memory :=
  (List.range count).foldlM (fun memory i =>
    (disk[(diskOffset + BitVec.ofNat 64 i).toNat]?).map fun b =>
      memory.storeByte (dataAddr + BitVec.ofNat 64 i) b) memory

/-- Copy `count` bytes of memory to the disk. -/
def memoryToDisk (disk : List Byte) (memory : Memory) (diskOffset dataAddr : Word)
    (count : ℕ) : Option (List Byte) :=
  (List.range count).foldlM (fun disk i =>
    let position := (diskOffset + BitVec.ofNat 64 i).toNat
    if position < disk.length then
      some (disk.set position (memory.loadByte (dataAddr + BitVec.ofNat 64 i)))
    else none) disk

/-- The effect of a request: the disk, memory, status byte and byte count. -/
def performIo (dev : VirtioBlockDevice) (memory : Memory) (reqType : BitVec 32)
    (sector dataAddr dataLen : Word) :
    Option (List Byte × Memory × Byte × BitVec 32) :=
  let diskOffset := sector * sectorSize
  let outside := BitVec.ofNat 64 dev.disk.length < diskOffset + dataLen
  if reqType = blkTIn then
    if outside then some (dev.disk, memory, blkSIoerr, 0)
    else
      (diskToMemory dev.disk memory diskOffset dataAddr dataLen.toNat).map
        fun memory => (dev.disk, memory, blkSOk, dataLen.setWidth 32)
  else if reqType = blkTOut then
    if outside then some (dev.disk, memory, blkSIoerr, 0)
    else
      (memoryToDisk dev.disk memory diskOffset dataAddr dataLen.toNat).map
        fun disk => (disk, memory, blkSOk, 0)
  else some (dev.disk, memory, blkSIoerr, 0)

/-- Post an element to the used ring. -/
def postUsed (dev : VirtioBlockDevice) (memory : Memory)
    (headIdx totalWritten : BitVec 32) : Memory :=
  let usedIdx := memory.loadHalf (dev.queueDevice + 2)
  let usedSlot := (usedIdx.setWidth 32 % dev.queueNum).setWidth 64
  let usedElemAddr := dev.queueDevice + 4 + 8 * usedSlot
  ((memory.storeWord usedElemAddr headIdx).storeWord (usedElemAddr + 4)
    totalWritten).storeHalf (dev.queueDevice + 2) (usedIdx + 1)

/-- One entry of the available ring: its descriptor chain is a header, a data
buffer and a status byte. -/
def processEntry (dev : VirtioBlockDevice) (memory : Memory) :
    Option (VirtioBlockDevice × Memory) :=
  let ringSlot := (dev.lastAvailIdx.setWidth 32 % dev.queueNum).setWidth 64
  let headIdx :=
    (memory.loadHalf (dev.queueDriver + 4 + 2 * ringSlot)).setWidth 32
  let desc0Addr := dev.queueDesc + headIdx.setWidth 64 * 16
  let headerAddr := memory.loadDouble desc0Addr
  let reqType := memory.loadWord headerAddr
  let sector := memory.loadDouble (headerAddr + 8)
  let desc1Idx := nextDesc memory desc0Addr headIdx
  let desc1Addr := dev.queueDesc + desc1Idx.setWidth 64 * 16
  let dataAddr := memory.loadDouble desc1Addr
  let dataLen := (memory.loadWord (desc1Addr + 8)).setWidth 64
  let desc2Idx := nextDesc memory desc1Addr desc1Idx
  let desc2Addr := dev.queueDesc + desc2Idx.setWidth 64 * 16
  let statusAddr := memory.loadDouble desc2Addr
  (dev.performIo memory reqType sector dataAddr dataLen).map
    fun (disk, memory, statusByte, totalWritten) =>
      ({ dev with disk := disk, lastAvailIdx := dev.lastAvailIdx + 1 },
        dev.postUsed (memory.storeByte statusAddr statusByte) headIdx totalWritten)

def processEntries (dev : VirtioBlockDevice) (memory : Memory) :
    ℕ → Option (VirtioBlockDevice × Memory)
  | 0 => some (dev, memory)
  | count + 1 =>
      (dev.processEntry memory).bind fun (dev, memory) =>
        processEntries dev memory count

/-- The loop runs until the last index it handled meets the available index it
read first, one entry at a time and modulo `2^16`. -/
def processQueue (dev : VirtioBlockDevice) (memory : Memory) :
    Option (VirtioBlockDevice × Memory) :=
  let dev := { dev with notifyPending := false }
  if dev.queueReady = 0 ∨ dev.queueNum = 0 then some (dev, memory)
  else
    let availIdx := memory.loadHalf (dev.queueDriver + 2)
    (dev.processEntries memory (availIdx - dev.lastAvailIdx).toNat).map
      fun (dev, memory) =>
        if dev.lastAvailIdx ≠ 0 ∨ availIdx ≠ 0 then
          ({ dev with interruptStatus := dev.interruptStatus ||| 1 }, memory)
        else (dev, memory)

end VirtioBlockDevice

end MetaVm.Riscv
