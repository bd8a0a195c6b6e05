import MetaVm.Riscv.Machine.VirtioRequest

namespace MetaVm.Riscv

open Virtio

namespace VirtioBlockDevice

/-! A run over the pending requests. -/

/-- The device once the notification is taken. -/
def acknowledged (dev : VirtioBlockDevice) : VirtioBlockDevice :=
  { dev with notifyPending := false }

def Active (dev : VirtioBlockDevice) : Prop := dev.queueReady ≠ 0 ∧ dev.queueNum ≠ 0

instance (dev : VirtioBlockDevice) : Decidable dev.Active :=
  inferInstanceAs (Decidable (_ ∧ _))

/-- How many requests wait in the available ring, whose indices wrap. -/
def pending (dev : VirtioBlockDevice) (memory : Memory) : ℕ :=
  if dev.Active then (dev.availIdx memory - dev.lastAvailIdx).toNat else 0

/-- The device and the memory when the first requests have been served. -/
def served (dev : VirtioBlockDevice) (memory : Memory) : ℕ → VirtioBlockDevice × Memory
  | 0 => (dev.acknowledged, memory)
  | count + 1 => (served dev memory count).1.serve (served dev memory count).2

/-- The interrupt that a run over the queue ends with. -/
def signalUsed (dev : VirtioBlockDevice) (availIdx : BitVec 16) : VirtioBlockDevice :=
  if dev.lastAvailIdx ≠ 0 ∨ availIdx ≠ 0 then
    { dev with interruptStatus := dev.interruptStatus ||| 1 }
  else dev

/-- A run over the queue takes each pending request in ring order and serves it, without
leaving 64 bits or the disk, and stops at the available index. -/
structure Exact (dev : VirtioBlockDevice) (memory : Memory) : Prop where
  avail : dev.Active → dev.queueDriver.toNat + 2 < 2 ^ 64
  fits : ∀ k < dev.pending memory, (dev.served memory k).1.NoOverflow (dev.served memory k).2
    ((dev.served memory k).1.nextRequest (dev.served memory k).2)
  waits : ∀ k < dev.pending memory,
    (dev.served memory k).1.lastAvailIdx = dev.lastAvailIdx + BitVec.ofNat 16 k ∧
      (dev.served memory k).1.lastAvailIdx ≠ dev.availIdx memory
  step : ∀ k < dev.pending memory, (dev.served memory k).1.processEntry (dev.served memory k).2 =
    some (dev.served memory (k + 1))
  posts : ∀ k ≤ dev.pending memory, (dev.served memory k).1.usedIdx (dev.served memory k).2 =
    dev.usedIdx memory + BitVec.ofNat 16 k
  stops : dev.Active →
    (dev.served memory (dev.pending memory)).1.lastAvailIdx = dev.availIdx memory
  result : dev.processQueue memory =
    some (if dev.Active then
        ((dev.served memory (dev.pending memory)).1.signalUsed (dev.availIdx memory),
          (dev.served memory (dev.pending memory)).2)
      else (dev.acknowledged, memory))

section Run

variable (dev : VirtioBlockDevice) (memory : Memory)

theorem lastAvailIdx_served (k : ℕ) :
    (dev.served memory k).1.lastAvailIdx = dev.lastAvailIdx + BitVec.ofNat 16 k := by
  induction k with
  | zero => exact (BitVec.add_zero _).symm
  | succ k hypothesis =>
      change (dev.served memory k).1.lastAvailIdx + 1 = _
      rw [hypothesis, BitVec.add_assoc, BitVec.ofNat_add]
      rfl

theorem usedIdx_served (k : ℕ) : (dev.served memory k).1.usedIdx (dev.served memory k).2 =
    dev.usedIdx memory + BitVec.ofNat 16 k := by
  induction k with
  | zero => exact (BitVec.add_zero _).symm
  | succ k hypothesis =>
      rw [served, usedIdx_serve, hypothesis, BitVec.add_assoc, BitVec.ofNat_add]
      rfl

theorem length_served (k : ℕ) : (dev.served memory k).1.disk.length = dev.disk.length := by
  induction k with
  | zero => rfl
  | succ k hypothesis =>
      exact (length_diskAfter _ _ _).trans hypothesis

/-- The steps of a run, one after the other. -/
theorem processEntries_add {start : VirtioBlockDevice × Memory} (count : ℕ)
    {states : ℕ → VirtioBlockDevice × Memory} (first : states 0 = start)
    (steps : ∀ k < count, (states k).1.processEntry (states k).2 = some (states (k + 1))) :
    start.1.processEntries start.2 count = some (states count) := by
  induction count generalizing start states with
  | zero => rw [first]; rfl
  | succ count hypothesis =>
      have step := steps 0 (by omega)
      rw [first] at step
      rw [processEntries, step, Option.bind_some]
      exact @hypothesis _ (fun k => states (k + 1)) rfl
        fun k bounded => steps (k + 1) (by omega)

theorem pending_le : dev.pending memory ≤ (dev.availIdx memory - dev.lastAvailIdx).toNat := by
  rw [pending]
  split
  · exact le_rfl
  · exact Nat.zero_le _

/-- A run over the queue, in the terms above. -/
theorem processQueue_eq : dev.processQueue memory =
    if dev.Active then
      (dev.acknowledged.processEntries memory
        (dev.availIdx memory - dev.lastAvailIdx).toNat).map fun (dev', memory') =>
          (dev'.signalUsed (dev.availIdx memory), memory')
    else some (dev.acknowledged, memory) := by
  by_cases active : dev.Active
  · have running : ¬ (dev.queueReady = 0 ∨ dev.queueNum = 0) := not_or.2 active
    rw [if_pos active]
    simp only [processQueue, running, if_false, acknowledged, availIdx]
    congr 1
    funext state
    rw [signalUsed]
    split
    · rfl
    · rfl
  · have stopped : dev.queueReady = 0 ∨ dev.queueNum = 0 := by
      rw [Active, not_and_or, not_ne_iff, not_ne_iff] at active
      exact active
    rw [if_neg active]
    simp only [processQueue, stopped, if_true, acknowledged]

variable {dev memory}

/-- The requests of a run are served exactly when each stays in 64 bits and keeps the used
index. -/
theorem processQueue_exact_iff (small : dev.disk.length < 2 ^ 64) :
    dev.Exact memory ↔ (dev.Active → dev.queueDriver.toNat + 2 < 2 ^ 64) ∧
      ∀ k < dev.pending memory,
        (dev.served memory k).1.NoOverflow (dev.served memory k).2
            ((dev.served memory k).1.nextRequest (dev.served memory k).2) ∧
          (dev.served memory k).1.KeepsUsedIdx (dev.served memory k).2 := by
  have smallAt : ∀ k, (dev.served memory k).1.disk.length < 2 ^ 64 := by
    intro k
    rw [length_served]
    exact small
  constructor
  · intro exact
    refine ⟨exact.avail, fun k bounded => ⟨exact.fits k bounded, ?_⟩⟩
    exact (processEntry_iff_serve (smallAt k) (exact.fits k bounded)).1 (exact.step k bounded)
  · rintro ⟨avail, requests⟩
    have steps : ∀ k < dev.pending memory,
        (dev.served memory k).1.processEntry (dev.served memory k).2 =
          some (dev.served memory (k + 1)) := by
      intro k bounded
      obtain ⟨fits, keeps⟩ := requests k bounded
      exact (processEntry_iff_serve (smallAt k) fits).2 keeps
    have whole : dev.acknowledged.processEntries memory (dev.pending memory) =
        some (dev.served memory (dev.pending memory)) :=
      @processEntries_add (dev.acknowledged, memory) _ (dev.served memory) rfl steps
    refine ⟨avail, fun k bounded => (requests k bounded).1, ?_, steps,
      fun k _ => usedIdx_served dev memory k, ?_, ?_⟩
    · intro k bounded
      have taken := lastAvailIdx_served dev memory k
      refine ⟨taken, fun met => ?_⟩
      rw [taken] at met
      have whole : dev.availIdx memory - dev.lastAvailIdx = BitVec.ofNat 16 k := by
        rw [← met, BitVec.add_comm, BitVec.add_sub_cancel]
      have count := pending_le dev memory
      rw [whole, BitVec.toNat_ofNat] at count
      have small := Nat.mod_le k (2 ^ 16)
      omega
    · intro active
      rw [lastAvailIdx_served, pending, if_pos active, BitVec.ofNat_toNat, BitVec.setWidth_eq,
        BitVec.add_comm, BitVec.sub_add_cancel]
    · rw [processQueue_eq]
      split
      · rename_i active
        have count : (dev.availIdx memory - dev.lastAvailIdx).toNat = dev.pending memory := by
          rw [pending, if_pos active]
        rw [count, whole, Option.map_some]
      · rfl

end Run

end VirtioBlockDevice

/-! Requests on a disk of one byte. -/

def oneByteDisk (lastAvailIdx : BitVec 16) : VirtioBlockDevice where
  disk := [0]
  status := 0
  deviceFeaturesSel := 0
  driverFeatures := fun _ => 0
  driverFeaturesSel := 0
  queueSel := 0
  queueNum := 1
  queueReady := 1
  queueDesc := 0x1000
  queueDriver := 0x2000
  queueDevice := 0x3000
  interruptStatus := 0
  lastAvailIdx := lastAvailIdx
  notifyPending := true

/-- A write of one byte to a sector, as the next request. -/
def writeRequest (availIdx : BitVec 16) (sector : Word) : Memory :=
  (((((((Memory.new.storeHalf 0x2002 availIdx).storeDouble 0x1000 0x4000).storeWord
    0x4000 blkTOut).storeDouble 0x4008 sector).storeDouble 0x1010 0x5000).storeWord
      0x1018 1).storeDouble 0x1020 0x6000).storeByte 0x5000 7

theorem processQueue_exact_wrappedIndex : (oneByteDisk 65535).Exact (writeRequest 0 0) := by
  refine (VirtioBlockDevice.processQueue_exact_iff (by decide)).2 ⟨fun _ => by decide, ?_⟩
  have one : (oneByteDisk 65535).pending (writeRequest 0 0) = 1 := by decide
  intro k bounded
  obtain rfl : k = 0 := by omega
  refine ⟨⟨?_, ?_, ?_, ?_, ?_, ?_, fun _ => ?_, fun _ _ => ?_, ?_⟩, ?_⟩
  all_goals decide

/-- Sector `2^55` starts past the end of every disk, and its write is done to the first byte. -/
theorem processQueue_sectorWraps :
    ((oneByteDisk 0).processQueue (writeRequest 1 (2 ^ 55))).map
        (fun state => (state.1.disk, state.2.loadByte 0x6000)) = some ([7], blkSOk) ∧
      ¬ (oneByteDisk 0).Exact (writeRequest 1 (2 ^ 55)) := by
  refine ⟨by decide +kernel, fun exact => ?_⟩
  have waits : 0 < (oneByteDisk 0).pending (writeRequest 1 (2 ^ 55)) := by decide
  have sector : ((oneByteDisk 0).acknowledged.nextRequest (writeRequest 1 (2 ^ 55))).sector =
      2 ^ 55 := by decide +kernel
  have fits : ((oneByteDisk 0).acknowledged.nextRequest (writeRequest 1 (2 ^ 55))).offset <
    2 ^ 64 := (exact.fits 0 waits).sector
  rw [BlockRequest.offset, sector] at fits
  exact absurd fits (by decide)

end MetaVm.Riscv
