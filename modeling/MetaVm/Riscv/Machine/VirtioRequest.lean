import MetaVm.Riscv.Machine.Bytes
import MetaVm.Riscv.Machine.Virtio

namespace MetaVm.Riscv

open Virtio

/-! A request of a block queue, and what serving it means. -/

/-- What the three descriptors of a chain tell. -/
structure BlockRequest where
  headIdx : BitVec 32
  headerAddr : Word
  reqType : BitVec 32
  sector : Word
  dataIdx : BitVec 32
  dataAddr : Word
  dataLen : Word
  statusIdx : BitVec 32
  statusAddr : Word

namespace VirtioBlockDevice

def availIdx (dev : VirtioBlockDevice) (memory : Memory) : BitVec 16 :=
  memory.loadHalf (dev.queueDriver + 2)

def usedIdx (dev : VirtioBlockDevice) (memory : Memory) : BitVec 16 :=
  memory.loadHalf (dev.queueDevice + 2)

/-- A place in the rings, which wrap. -/
def ringSlot (dev : VirtioBlockDevice) (idx : BitVec 16) : Word :=
  (idx.setWidth 32 % dev.queueNum).setWidth 64

def descAddr (dev : VirtioBlockDevice) (idx : BitVec 32) : Word :=
  dev.queueDesc + idx.setWidth 64 * 16

/-- The next request in the order of the available ring. -/
def nextRequest (dev : VirtioBlockDevice) (memory : Memory) : BlockRequest :=
  let headIdx :=
    (memory.loadHalf (dev.queueDriver + 4 + 2 * dev.ringSlot dev.lastAvailIdx)).setWidth 32
  let headerAddr := memory.loadDouble (dev.descAddr headIdx)
  let dataIdx := nextDesc memory (dev.descAddr headIdx) headIdx
  let statusIdx := nextDesc memory (dev.descAddr dataIdx) dataIdx
  { headIdx := headIdx
    headerAddr := headerAddr
    reqType := memory.loadWord headerAddr
    sector := memory.loadDouble (headerAddr + 8)
    dataIdx := dataIdx
    dataAddr := memory.loadDouble (dev.descAddr dataIdx)
    dataLen := (memory.loadWord (dev.descAddr dataIdx + 8)).setWidth 64
    statusIdx := statusIdx
    statusAddr := memory.loadDouble (dev.descAddr statusIdx) }

theorem processEntry_eq (dev : VirtioBlockDevice) (memory : Memory) :
    dev.processEntry memory =
      (dev.performIo memory (dev.nextRequest memory).reqType (dev.nextRequest memory).sector
        (dev.nextRequest memory).dataAddr (dev.nextRequest memory).dataLen).map
        fun (disk, after, statusByte, totalWritten) =>
          ({ dev with disk := disk, lastAvailIdx := dev.lastAvailIdx + 1 },
            dev.postUsed (after.storeByte (dev.nextRequest memory).statusAddr statusByte)
              (dev.nextRequest memory).headIdx totalWritten) := rfl

end VirtioBlockDevice

namespace BlockRequest

variable (request : BlockRequest) (disk : List Byte) (memory : Memory)

def offset : ℕ := request.sector.toNat * 512

/-- The request is for bytes of the disk. -/
def InRange : Prop := request.offset + request.dataLen.toNat ≤ disk.length

instance : Decidable (request.InRange disk) := inferInstanceAs (Decidable (_ ≤ _))

/-- A read or a write, as opposed to what the device does not know. -/
def IsIo : Prop := request.reqType = blkTIn ∨ request.reqType = blkTOut

instance : Decidable request.IsIo := inferInstanceAs (Decidable (_ ∨ _))

/-- Only a write in range changes the disk, in the requested bytes. -/
def diskAfter : List Byte :=
  if request.reqType = blkTOut ∧ request.InRange disk then
    disk.mapIdx fun i byte =>
      if request.offset ≤ i ∧ i < request.offset + request.dataLen.toNat then
        memory.loadByte (request.dataAddr + BitVec.ofNat 64 (i - request.offset))
      else byte
  else disk

/-- Only a read in range changes the buffer, to the requested bytes. -/
def bufferAfter : Memory :=
  if request.reqType = blkTIn ∧ request.InRange disk then
    (List.range request.dataLen.toNat).foldl (fun memory i =>
      memory.storeByte (request.dataAddr + BitVec.ofNat 64 i)
        (disk.getD (request.offset + i) 0)) memory
  else memory

def status : Byte := if request.IsIo ∧ request.InRange disk then blkSOk else blkSIoerr

def written : BitVec 32 :=
  if request.reqType = blkTIn ∧ request.InRange disk then request.dataLen.setWidth 32 else 0

/-- The memory with the answer in it, before the request is posted as used. -/
def answered : Memory :=
  (request.bufferAfter disk memory).storeByte request.statusAddr (request.status disk)

end BlockRequest

namespace VirtioBlockDevice

/-- The element is posted at a used index, which goes on by one. -/
def postAt (dev : VirtioBlockDevice) (memory : Memory) (usedIdx : BitVec 16)
    (headIdx totalWritten : BitVec 32) : Memory :=
  let usedElemAddr := dev.queueDevice + 4 + 8 * dev.ringSlot usedIdx
  ((memory.storeWord usedElemAddr headIdx).storeWord (usedElemAddr + 4)
    totalWritten).storeHalf (dev.queueDevice + 2) (usedIdx + 1)

/-- The next request is served: the disk, the buffer and the status say so, and one element is
posted at the used index that the memory held before. -/
def serve (dev : VirtioBlockDevice) (memory : Memory) : VirtioBlockDevice × Memory :=
  let request := dev.nextRequest memory
  ({ dev with
      disk := request.diskAfter dev.disk memory, lastAvailIdx := dev.lastAvailIdx + 1 },
    dev.postAt (request.answered dev.disk memory) (dev.usedIdx memory) request.headIdx
      (request.written dev.disk))

/-- No sum or product on the way through a request leaves 64 bits. -/
structure NoOverflow (dev : VirtioBlockDevice) (memory : Memory) (request : BlockRequest) :
    Prop where
  avail : dev.queueDriver.toNat + 4 + 2 * (dev.ringSlot dev.lastAvailIdx).toNat < 2 ^ 64
  headerDesc : dev.queueDesc.toNat + request.headIdx.toNat * 16 + 14 < 2 ^ 64
  header : request.headerAddr.toNat + 8 < 2 ^ 64
  dataDesc : dev.queueDesc.toNat + request.dataIdx.toNat * 16 + 14 < 2 ^ 64
  statusDesc : dev.queueDesc.toNat + request.statusIdx.toNat * 16 < 2 ^ 64
  sector : request.offset < 2 ^ 64
  extent : request.IsIo → request.offset + request.dataLen.toNat < 2 ^ 64
  buffer : request.IsIo → request.InRange dev.disk →
    ∀ i < request.dataLen.toNat, request.dataAddr.toNat + i < 2 ^ 64
  used : dev.queueDevice.toNat + 4 + 8 * (dev.ringSlot (dev.usedIdx memory)).toNat + 4 < 2 ^ 64

/-- The answer does not change the used index. -/
def KeepsUsedIdx (dev : VirtioBlockDevice) (memory : Memory) : Prop :=
  dev.usedIdx ((dev.nextRequest memory).answered dev.disk memory) = dev.usedIdx memory

instance (dev : VirtioBlockDevice) (memory : Memory) : Decidable (dev.KeepsUsedIdx memory) :=
  inferInstanceAs (Decidable (_ = _))

section Copies

variable {disk : List Byte} {memory : Memory} {diskOffset dataAddr : Word} {count : ℕ}

/-- The position of a byte of a transfer. -/
theorem position_eq {i : ℕ} (fits : diskOffset.toNat + i < 2 ^ 64) :
    (diskOffset + BitVec.ofNat 64 i).toNat = diskOffset.toNat + i := by
  rw [BitVec.toNat_add, BitVec.toNat_ofNat]
  omega

theorem diskToMemory_eq (small : disk.length < 2 ^ 64)
    (inRange : diskOffset.toNat + count ≤ disk.length) :
    diskToMemory disk memory diskOffset dataAddr count =
      some ((List.range count).foldl (fun memory i =>
        memory.storeByte (dataAddr + BitVec.ofNat 64 i)
          (disk.getD (diskOffset.toNat + i) 0)) memory) := by
  induction count with
  | zero => rfl
  | succ count hypothesis =>
      have here : diskOffset.toNat + count < disk.length := by omega
      have place := @position_eq diskOffset count (by omega)
      have shorter := hypothesis (by omega)
      rw [diskToMemory] at shorter ⊢
      rw [List.range_succ, List.foldlM_append, List.foldl_append, shorter]
      simp only [Option.bind_eq_bind, Option.bind_some, List.foldlM_cons, List.foldlM_nil, place,
        List.getElem?_eq_getElem here, Option.map_some, Option.pure_def, List.foldl_cons,
        List.foldl_nil, List.getD_eq_getElem _ _ here]

theorem memoryToDisk_eq (small : disk.length < 2 ^ 64)
    (inRange : diskOffset.toNat + count ≤ disk.length) :
    memoryToDisk disk memory diskOffset dataAddr count =
      some (disk.mapIdx fun i byte =>
        if diskOffset.toNat ≤ i ∧ i < diskOffset.toNat + count then
          memory.loadByte (dataAddr + BitVec.ofNat 64 (i - diskOffset.toNat))
        else byte) := by
  induction count with
  | zero =>
      have same : (disk.mapIdx fun i byte =>
          if diskOffset.toNat ≤ i ∧ i < diskOffset.toNat + 0 then
            memory.loadByte (dataAddr + BitVec.ofNat 64 (i - diskOffset.toNat))
          else byte) = disk := by
        apply List.ext_getElem
        · exact List.length_mapIdx
        · intro i low high
          rw [List.getElem_mapIdx, if_neg (by omega)]
      rw [same]
      rfl
  | succ count hypothesis =>
      have place := @position_eq diskOffset count (by omega)
      have shorter := hypothesis (by omega)
      rw [memoryToDisk] at shorter ⊢
      rw [List.range_succ, List.foldlM_append, shorter]
      simp only [Option.bind_eq_bind, Option.bind_some, List.foldlM_cons, List.foldlM_nil, place,
        List.length_mapIdx]
      rw [if_pos (by omega)]
      simp only [Option.bind_some, Option.pure_def, Option.some.injEq]
      apply List.ext_getElem
      · rw [List.length_set, List.length_mapIdx, List.length_mapIdx]
      · intro i low high
        rw [List.getElem_set, List.getElem_mapIdx, List.getElem_mapIdx]
        split
        · rename_i same
          rw [if_pos (by omega), ← same, Nat.add_sub_cancel_left]
        · rename_i differs
          split
          · rw [if_pos (by omega)]
          · rw [if_neg (by omega)]

end Copies

/-! One request. -/

section Step

variable {dev : VirtioBlockDevice} {memory : Memory} {request : BlockRequest}

/-- The bound check, when the sector and the extent do not leave 64 bits. -/
theorem outside_iff (small : dev.disk.length < 2 ^ 64)
    (fits : dev.NoOverflow memory request) (io : request.IsIo) :
    BitVec.ofNat 64 dev.disk.length < request.sector * sectorSize + request.dataLen ↔
      ¬ request.InRange dev.disk := by
  have start : (request.sector * sectorSize).toNat = request.offset := by
    rw [BitVec.toNat_mul]
    exact Nat.mod_eq_of_lt fits.sector
  have extent : (request.sector * sectorSize + request.dataLen).toNat =
      request.offset + request.dataLen.toNat := by
    rw [BitVec.toNat_add, start]
    exact Nat.mod_eq_of_lt (fits.extent io)
  rw [BitVec.lt_def, extent, BitVec.toNat_ofNat, Nat.mod_eq_of_lt small,
    BlockRequest.InRange, Nat.not_le]

/-- What is done with the disk and the buffer is what the request asks for. -/
theorem performIo_eq (small : dev.disk.length < 2 ^ 64)
    (fits : dev.NoOverflow memory request) :
    dev.performIo memory request.reqType request.sector request.dataAddr request.dataLen =
      some (request.diskAfter dev.disk memory, request.bufferAfter dev.disk memory,
        request.status dev.disk, request.written dev.disk) := by
  have start : (request.sector * sectorSize).toNat = request.offset := by
    rw [BitVec.toNat_mul]
    exact Nat.mod_eq_of_lt fits.sector
  unfold performIo BlockRequest.diskAfter BlockRequest.bufferAfter BlockRequest.status
    BlockRequest.written
  have apart : blkTIn ≠ blkTOut := by decide
  by_cases reads : request.reqType = blkTIn
  · have io : request.IsIo := Or.inl reads
    by_cases inRange : request.InRange dev.disk
    · have inside := mt (outside_iff small fits io).1 (not_not.2 inRange)
      have copied := @diskToMemory_eq dev.disk memory (request.sector * sectorSize)
        request.dataAddr request.dataLen.toNat small (by rw [start]; exact inRange)
      simp only [if_neg inside, copied, Option.map_some, start, apart, reads, io,
        inRange, and_self, false_and, if_true, if_false]
    · have outside := (outside_iff small fits io).2 inRange
      simp only [if_pos reads, if_pos outside, inRange, and_false, if_false]
  · by_cases writes : request.reqType = blkTOut
    · have io : request.IsIo := Or.inr writes
      by_cases inRange : request.InRange dev.disk
      · have inside := mt (outside_iff small fits io).1 (not_not.2 inRange)
        have copied := @memoryToDisk_eq dev.disk memory (request.sector * sectorSize)
          request.dataAddr request.dataLen.toNat small (by rw [start]; exact inRange)
        simp only [if_neg inside, copied, Option.map_some, start, writes,
          apart.symm, io, inRange, and_self, false_and, if_true, if_false]
      · have outside := (outside_iff small fits io).2 inRange
        simp only [if_neg reads, if_pos writes, if_pos outside, inRange, and_false, if_false]
    · have unknown : ¬ request.IsIo := fun io => io.elim reads writes
      simp only [reads, writes, unknown, false_and, if_false]

/-- The next request is done as it asks, and posted where the used index then is. -/
theorem processEntry_of_fits (small : dev.disk.length < 2 ^ 64)
    (fits : dev.NoOverflow memory (dev.nextRequest memory)) :
    dev.processEntry memory =
      some ({ dev with
          disk := (dev.nextRequest memory).diskAfter dev.disk memory
          lastAvailIdx := dev.lastAvailIdx + 1 },
        dev.postAt ((dev.nextRequest memory).answered dev.disk memory)
          (dev.usedIdx ((dev.nextRequest memory).answered dev.disk memory))
          (dev.nextRequest memory).headIdx ((dev.nextRequest memory).written dev.disk)) := by
  rw [processEntry_eq, performIo_eq small fits]
  rfl

theorem usedIdx_postAt (dev : VirtioBlockDevice) (memory : Memory) (usedIdx : BitVec 16)
    (headIdx totalWritten : BitVec 32) :
    dev.usedIdx (dev.postAt memory usedIdx headIdx totalWritten) = usedIdx + 1 := by
  simp only [VirtioBlockDevice.usedIdx, postAt, Memory.loadHalf_storeHalf]

/-- The used index goes on by one with each request. -/
theorem usedIdx_serve (dev : VirtioBlockDevice) (memory : Memory) :
    (dev.serve memory).1.usedIdx (dev.serve memory).2 = dev.usedIdx memory + 1 := by
  have sameQueue : (dev.serve memory).1.usedIdx = dev.usedIdx := rfl
  rw [sameQueue, serve]
  exact usedIdx_postAt dev ((dev.nextRequest memory).answered dev.disk memory) _ _ _

/-- A request is served exactly when its answer keeps the used index. -/
theorem processEntry_iff_serve (small : dev.disk.length < 2 ^ 64)
    (fits : dev.NoOverflow memory (dev.nextRequest memory)) :
    dev.processEntry memory = some (dev.serve memory) ↔ dev.KeepsUsedIdx memory := by
  rw [processEntry_of_fits small fits, Option.some.injEq]
  constructor
  · intro served
    have sameMemory := congrArg (fun state => dev.usedIdx state.2) served
    have next := usedIdx_serve dev memory
    simp only [usedIdx_postAt] at sameMemory
    exact (BitVec.add_left_inj 1).1 (sameMemory.trans next)
  · intro keeps
    rw [KeepsUsedIdx] at keeps
    rw [keeps, serve]

theorem length_diskAfter (request : BlockRequest) (disk : List Byte) (memory : Memory) :
    (request.diskAfter disk memory).length = disk.length := by
  rw [BlockRequest.diskAfter]
  split
  · exact List.length_mapIdx
  · rfl

end Step

end VirtioBlockDevice

end MetaVm.Riscv
