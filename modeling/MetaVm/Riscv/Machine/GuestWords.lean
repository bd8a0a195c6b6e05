import MetaVm.Riscv.Machine.RegisterBytes

namespace MetaVm.Riscv

open ByteOrder (ofBytes eq_ofBytes)

/-! The registers of the three devices. The timers are two words each. -/

namespace ClintDevice

/-- What the word registers hold. -/
def register (clint : ClintDevice) (offset : Word) : BitVec 32 :=
  if offset = Clint.msip then clint.msip
  else if offset = Clint.mtimecmp then clint.mtimecmp.setWidth 32
  else if offset = Clint.mtimecmp + 4 then (clint.mtimecmp >>> 32).setWidth 32
  else if offset = Clint.mtime then clint.mtime.setWidth 32
  else if offset = Clint.mtime + 4 then (clint.mtime >>> 32).setWidth 32
  else 0

def setRegister (clint : ClintDevice) (offset : Word) (val : BitVec 32) : ClintDevice :=
  if offset = Clint.msip then { clint with msip := val }
  else if offset = Clint.mtimecmp then { clint with mtimecmp := setLow clint.mtimecmp val }
  else if offset = Clint.mtimecmp + 4 then { clint with mtimecmp := setHigh clint.mtimecmp val }
  else if offset = Clint.mtime then { clint with mtime := setLow clint.mtime val }
  else if offset = Clint.mtime + 4 then { clint with mtime := setHigh clint.mtime val }
  else clint

variable {offset : Word}

/-- Only the lowest bit of the software interrupt is kept. -/
theorem setByte_and_one (register : BitVec 32) {index : ℕ} (small : index < 4) (val : Byte) :
    setByte register (BitVec.ofNat 64 index) val &&& 1 =
      if index = 0 then val.setWidth 32 &&& 1 else register &&& 1 := by
  have one : ∀ bit < 32, BitVec.getLsbD (1 : BitVec 32) bit = decide (bit = 0) := by decide
  apply BitVec.eq_of_getLsbD_eq
  intro bit bounded
  rw [BitVec.getLsbD_and, one bit bounded, getLsbD_setByte _ (by omega) (by omega)]
  by_cases lowest : index = 0
  · rw [if_pos lowest, BitVec.getLsbD_and, one bit bounded]
    by_cases first : bit = 0
    · rw [if_pos (by omega), first, lowest]
      simp
    · rw [decide_eq_false first, Bool.and_false, Bool.and_false]
  · rw [if_neg lowest, BitVec.getLsbD_and, one bit bounded]
    by_cases first : bit = 0
    · rw [if_neg (by omega)]
    · rw [decide_eq_false first, Bool.and_false, Bool.and_false]

theorem store_msip (clint : ClintDevice) (val : BitVec 32) :
    storeBytes writeU8 clint (bytesFrom Clint.msip 4) val = { clint with msip := val &&& 1 } := by
  have lowest : (ByteOrder.byteOf val 0).setWidth 32 &&& 1 = val &&& 1 := by
    have one : ∀ bit < 32, BitVec.getLsbD (1 : BitVec 32) bit = decide (bit = 0) := by decide
    apply BitVec.eq_of_getLsbD_eq
    intro bit bounded
    rw [BitVec.getLsbD_and, BitVec.getLsbD_and, one bit bounded]
    by_cases first : bit = 0
    · rw [first]
      simp [ByteOrder.byteOf]
    · rw [decide_eq_false first, Bool.and_false, Bool.and_false]
  have chain : storeBytes writeU8 clint (bytesFrom Clint.msip 4) val =
      { clint with
        msip := setByte (setByte (setByte (setByte clint.msip (BitVec.ofNat 64 0)
          (ByteOrder.byteOf val 0) &&& 1) (BitVec.ofNat 64 1) (ByteOrder.byteOf val 1) &&& 1)
          (BitVec.ofNat 64 2) (ByteOrder.byteOf val 2) &&& 1)
          (BitVec.ofNat 64 3) (ByteOrder.byteOf val 3) &&& 1 } := rfl
  have again : ∀ word : BitVec 32, word &&& 1 &&& 1 = word &&& 1 := by
    intro word
    rw [BitVec.and_assoc, BitVec.and_self]
  rw [chain, setByte_and_one _ (by decide), if_neg (by decide), again,
    setByte_and_one _ (by decide), if_neg (by decide), again, setByte_and_one _ (by decide),
    if_neg (by decide), again, setByte_and_one _ (by decide), if_pos rfl, lowest]

theorem store_mtimecmp (clint : ClintDevice) (val : BitVec 32) :
    storeBytes writeU8 clint (bytesFrom Clint.mtimecmp 4) val =
        { clint with mtimecmp := setLow clint.mtimecmp val } ∧
      storeBytes writeU8 clint (bytesFrom (Clint.mtimecmp + 4) 4) val =
        { clint with mtimecmp := setHigh clint.mtimecmp val } := by
  rw [← setBytes_low, ← setBytes_high]
  exact ⟨rfl, rfl⟩

theorem store_mtime (clint : ClintDevice) (val : BitVec 32) :
    storeBytes writeU8 clint (bytesFrom Clint.mtime 4) val =
        { clint with mtime := setLow clint.mtime val } ∧
      storeBytes writeU8 clint (bytesFrom (Clint.mtime + 4) 4) val =
        { clint with mtime := setHigh clint.mtime val } := by
  rw [← setBytes_low, ← setBytes_high]
  exact ⟨rfl, rfl⟩

/-- The offsets of the word registers. -/
def IsRegister (offset : Word) : Prop :=
  offset = Clint.msip ∨ offset = Clint.mtimecmp ∨ offset = Clint.mtimecmp + 4 ∨
    offset = Clint.mtime ∨ offset = Clint.mtime + 4

/-- A byte of an aligned word outside the registers is in none of them. -/
theorem outside_registers (aligned : offset &&& 0x3 = 0) (inside : offset < Clint.size)
    (other : ¬ IsRegister offset) {index : ℕ} (few : index < 4) :
    ¬ InRange (offset + BitVec.ofNat 64 index) Clint.msip 4 ∧
      ¬ InRange (offset + BitVec.ofNat 64 index) Clint.mtimecmp 8 ∧
      ¬ InRange (offset + BitVec.ofNat 64 index) Clint.mtime 8 := by
  have whole : offset.toNat % 4 = 0 := by
    rw [← toNat_and_three, aligned]
    rfl
  have bounded : offset.toNat < 0x10000 := inside
  have sum : (offset + BitVec.ofNat 64 index).toNat = offset.toNat + index := by
    rw [BitVec.toNat_add, BitVec.toNat_ofNat]
    omega
  have apart : ∀ register : ℕ, IsRegister (BitVec.ofNat 64 register) → register < 0x10000 →
      offset.toNat ≠ register := by
    rintro register is small rfl
    rw [BitVec.ofNat_toNat, BitVec.setWidth_eq] at is
    exact other is
  have first := apart 0 (.inl rfl) (by decide)
  have second := apart 0x4000 (.inr (.inl rfl)) (by decide)
  have third := apart 0x4004 (.inr (.inr (.inl rfl))) (by decide)
  have fourth := apart 0xBFF8 (.inr (.inr (.inr (.inl rfl)))) (by decide)
  have fifth := apart 0xBFFC (.inr (.inr (.inr (.inr rfl)))) (by decide)
  rw [inRange_iff (by decide), inRange_iff (by decide), inRange_iff (by decide), sum]
  have msip : Clint.msip.toNat = 0 := rfl
  have mtimecmp : Clint.mtimecmp.toNat = 0x4000 := rfl
  have mtime : Clint.mtime.toNat = 0xBFF8 := rfl
  have four : (4 : Word).toNat = 4 := rfl
  have eight : (8 : Word).toNat = 8 := rfl
  omega

theorem storeBytes_clint (clint : ClintDevice) (aligned : offset &&& 0x3 = 0)
    (inside : offset < Clint.size) (val : BitVec 32) :
    storeBytes writeU8 clint (bytesFrom offset 4) val =
      clint.setRegister offset (if offset = Clint.msip then val &&& 1 else val) := by
  by_cases is : IsRegister offset
  · rcases is with rfl | rfl | rfl | rfl | rfl
    · exact store_msip clint val
    · exact (store_mtimecmp clint val).1
    · exact (store_mtimecmp clint val).2
    · exact (store_mtime clint val).1
    · exact (store_mtime clint val).2
  · have ignored : ∀ index < 4, ∀ byte,
        clint.writeU8 (offset + BitVec.ofNat 64 index) byte = clint := by
      intro index few byte
      obtain ⟨msip, mtimecmp, mtime⟩ := outside_registers aligned inside is few
      rw [writeU8, if_neg msip, if_neg mtimecmp, if_neg mtime]
    change storeBytes writeU8 clint [offset + BitVec.ofNat 64 0, offset + BitVec.ofNat 64 1,
      offset + BitVec.ofNat 64 2, offset + BitVec.ofNat 64 3] val = _
    rw [storeBytes, storeBytes, storeBytes, storeBytes, storeBytes, ignored 0 (by decide),
      ignored 1 (by decide), ignored 2 (by decide), ignored 3 (by decide)]
    simp only [IsRegister, not_or] at is
    rw [setRegister, if_neg is.1, if_neg is.2.1, if_neg is.2.2.1, if_neg is.2.2.2.1,
      if_neg is.2.2.2.2]

theorem loadBytes_clint (clint : ClintDevice) (aligned : offset &&& 0x3 = 0)
    (inside : offset < Clint.size) :
    ofBytes 32 ((bytesFrom offset 4).map clint.readU8) = clint.register offset := by
  symm
  apply eq_ofBytes (show 32 = 8 * 4 from rfl)
  intro index few
  rw [Vm.map_bytesFrom_getD _ _ few]
  by_cases is : IsRegister offset
  · have some : index = 0 ∨ index = 1 ∨ index = 2 ∨ index = 3 := by omega
    rcases is with rfl | rfl | rfl | rfl | rfl
    · rcases some with rfl | rfl | rfl | rfl <;> rfl
    · rw [show clint.register Clint.mtimecmp = clint.mtimecmp.setWidth 32 from rfl,
        ByteOrder.byteOf_setWidth _ (by omega)]
      rcases some with rfl | rfl | rfl | rfl <;> rfl
    · rw [show clint.register (Clint.mtimecmp + 4) = (clint.mtimecmp >>> 32).setWidth 32 from rfl,
        ByteOrder.byteOf_setWidth _ (by omega), ByteOrder.byteOf_shift clint.mtimecmp 4]
      rcases some with rfl | rfl | rfl | rfl <;> rfl
    · rw [show clint.register Clint.mtime = clint.mtime.setWidth 32 from rfl,
        ByteOrder.byteOf_setWidth _ (by omega)]
      rcases some with rfl | rfl | rfl | rfl <;> rfl
    · rw [show clint.register (Clint.mtime + 4) = (clint.mtime >>> 32).setWidth 32 from rfl,
        ByteOrder.byteOf_setWidth _ (by omega), ByteOrder.byteOf_shift clint.mtime 4]
      rcases some with rfl | rfl | rfl | rfl <;> rfl
  · obtain ⟨msip, mtimecmp, mtime⟩ := outside_registers aligned inside is few
    simp only [IsRegister, not_or] at is
    rw [readU8, if_neg msip, if_neg mtimecmp, if_neg mtime, register, if_neg is.1, if_neg is.2.1,
      if_neg is.2.2.1, if_neg is.2.2.2.1, if_neg is.2.2.2.2]
    simp [ByteOrder.byteOf]

end ClintDevice

namespace PlicDevice

/-- Whether a source is pending, enabled, above the threshold and better than the best so far. -/
def betterSource (plic : PlicDevice) (context : Fin 2) (best : Fin 64 × BitVec 32)
    (source : Fin 64) : Fin 64 × BitVec 32 :=
  if (plic.pending (wordOf source) >>> (source.val % 32)) &&& 1 ≠ 0 ∧
      (plic.enable context (wordOf source) >>> (source.val % 32)) &&& 1 ≠ 0 ∧
      plic.threshold context < plic.priority source ∧ best.2 < plic.priority source then
    (source, plic.priority source)
  else best

/-- The source with the highest priority, zero when there is none to claim. -/
def bestSource (plic : PlicDevice) (context : Fin 2) : Fin 64 :=
  (((List.finRange 64).tail).foldl (plic.betterSource context) (0, 0)).1

/-- Claiming a source takes it out of the pending ones. -/
def claim (plic : PlicDevice) (context : Fin 2) : BitVec 32 × PlicDevice :=
  let source := plic.bestSource context
  if source ≠ 0 then
    (BitVec.ofNat 32 source.val,
      { plic with
        pending := Function.update plic.pending (wordOf source)
          (plic.pending (wordOf source) &&& ~~~((1 : BitVec 32) <<< (source.val % 32)))
        claimed := Function.update plic.claimed context (BitVec.ofNat 32 source.val) })
  else (0, plic)

/-- A read of a word that claims where the claim register is read. -/
def readU32 (plic : PlicDevice) (offset : Word) : BitVec 32 × PlicDevice :=
  if offset < Plic.priorityBase + 64 * 4 then
    (plic.priority (wordIndex 64 offset Plic.priorityBase), plic)
  else if InRange offset Plic.pendingBase 8 then
    (plic.pending (wordIndex 2 offset Plic.pendingBase), plic)
  else if InRange offset (enableBaseOf 0) 8 then
    (plic.enable 0 (wordIndex 2 offset (enableBaseOf 0)), plic)
  else if InRange offset (enableBaseOf 1) 8 then
    (plic.enable 1 (wordIndex 2 offset (enableBaseOf 1)), plic)
  else if offset = contextBaseOf 0 then (plic.threshold 0, plic)
  else if offset = contextBaseOf 0 + 4 then plic.claim 0
  else if offset = contextBaseOf 1 then (plic.threshold 1, plic)
  else if offset = contextBaseOf 1 + 4 then plic.claim 1
  else (0, plic)

/-- The registers that are claimed from. -/
def IsClaim (offset : Word) : Prop := ∃ context, offset = contextBaseOf context + 4

variable {offset : Word}

theorem readU32_eq (plic : PlicDevice) (other : ¬ IsClaim offset) :
    plic.readU32 offset = (plic.readU32NoSideEffect offset, plic) := by
  have first : offset ≠ contextBaseOf 0 + 4 := fun same => other ⟨0, same⟩
  have second : offset ≠ contextBaseOf 1 + 4 := fun same => other ⟨1, same⟩
  unfold readU32 readU32NoSideEffect
  rw [if_neg first, if_neg first, if_neg second, if_neg second]
  split
  · rfl
  split
  · rfl
  split
  · rfl
  split
  · rfl
  split
  · rfl
  split <;> rfl

/-- A register keeps what is written, or nothing of it. -/
theorem storeBytes_plic (plic : PlicDevice) (aligned : offset &&& 0x3 = 0) (val : BitVec 32) :
    storeBytes writeU8 plic (bytesFrom offset 4) val = plic.writeU32 offset val := by
  rw [@storeBytes_aligned _ readU32NoSideEffect writeU32 writeU8 (fun _ _ _ => rfl) _ aligned]
  by_cases priority : offset < Plic.priorityBase + 64 * 4
  · refine rewriteBytes_of_stored ?_ ?_ plic val
    · intro plic val
      rw [readU32NoSideEffect, if_pos priority, writeU32, if_pos priority]
      exact Function.update_self _ _ _
    · intro plic first second
      rw [writeU32, writeU32, writeU32, if_pos priority, if_pos priority, if_pos priority]
      simp only [Function.update_idem]
  by_cases pending : InRange offset Plic.pendingBase 8
  · have ignored : ∀ plic val, writeU32 plic offset val = plic := by
      intro plic val
      rw [writeU32, if_neg priority, if_pos pending]
    rw [rewriteBytes_of_ignored ignored, ignored]
  by_cases enable : InRange offset (enableBaseOf 0) 8
  · refine rewriteBytes_of_stored ?_ ?_ plic val
    · intro plic val
      rw [readU32NoSideEffect, if_neg priority, if_neg pending, if_pos enable, writeU32,
        if_neg priority, if_neg pending, if_pos enable]
      simp only [Function.update_self]
    · intro plic first second
      simp only [writeU32, if_neg priority, if_neg pending, if_pos enable, Function.update_idem,
        Function.update_self]
  by_cases enableNext : InRange offset (enableBaseOf 1) 8
  · refine rewriteBytes_of_stored ?_ ?_ plic val
    · intro plic val
      rw [readU32NoSideEffect, if_neg priority, if_neg pending, if_neg enable, if_pos enableNext,
        writeU32, if_neg priority, if_neg pending, if_neg enable, if_pos enableNext]
      simp only [Function.update_self]
    · intro plic first second
      simp only [writeU32, if_neg priority, if_neg pending, if_neg enable, if_pos enableNext,
        Function.update_idem, Function.update_self]
  by_cases threshold : offset = contextBaseOf 0
  · refine rewriteBytes_of_stored ?_ ?_ plic val
    · intro plic val
      rw [readU32NoSideEffect, if_neg priority, if_neg pending, if_neg enable, if_neg enableNext,
        if_pos threshold, writeU32, if_neg priority, if_neg pending, if_neg enable,
        if_neg enableNext, if_pos threshold]
      simp only [Function.update_self]
    · intro plic first second
      simp only [writeU32, if_neg priority, if_neg pending, if_neg enable, if_neg enableNext,
        if_pos threshold, Function.update_idem]
  by_cases claim : offset = contextBaseOf 0 + 4
  · have ignored : ∀ plic val, writeU32 plic offset val = plic := by
      intro plic val
      rw [writeU32, if_neg priority, if_neg pending, if_neg enable, if_neg enableNext,
        if_neg threshold, if_pos claim]
    rw [rewriteBytes_of_ignored ignored, ignored]
  by_cases thresholdNext : offset = contextBaseOf 1
  · refine rewriteBytes_of_stored ?_ ?_ plic val
    · intro plic val
      rw [readU32NoSideEffect, if_neg priority, if_neg pending, if_neg enable, if_neg enableNext,
        if_neg threshold, if_neg claim, if_pos thresholdNext, writeU32, if_neg priority,
        if_neg pending, if_neg enable, if_neg enableNext, if_neg threshold, if_neg claim,
        if_pos thresholdNext]
      simp only [Function.update_self]
    · intro plic first second
      simp only [writeU32, if_neg priority, if_neg pending, if_neg enable, if_neg enableNext,
        if_neg threshold, if_neg claim, if_pos thresholdNext, Function.update_idem]
  · have ignored : ∀ plic val, writeU32 plic offset val = plic := by
      intro plic val
      rw [writeU32, if_neg priority, if_neg pending, if_neg enable, if_neg enableNext,
        if_neg threshold, if_neg claim, if_neg thresholdNext]
    rw [rewriteBytes_of_ignored ignored, ignored]

theorem loadBytes_plic (plic : PlicDevice) (aligned : offset &&& 0x3 = 0) :
    ofBytes 32 ((bytesFrom offset 4).map plic.readU8) = plic.readU32NoSideEffect offset :=
  loadBytes_aligned (fun _ => rfl) aligned

end PlicDevice

namespace VirtioBlockDevice

def new (disk : List Byte) : VirtioBlockDevice where
  disk := disk
  status := 0
  deviceFeaturesSel := 0
  driverFeatures := fun _ => 0
  driverFeaturesSel := 0
  queueSel := 0
  queueNum := 0
  queueReady := 0
  queueDesc := 0
  queueDriver := 0
  queueDevice := 0
  interruptStatus := 0
  lastAvailIdx := 0
  notifyPending := false

variable {offset : Word}

/-- Registers that are written and read as zero, the notification and the acknowledgement apart. -/
def IsWriteOnly (offset : Word) : Prop :=
  offset ∈ ([0x014, 0x020, 0x024, 0x030, 0x038, 0x080, 0x084, 0x090, 0x094, 0x0A0, 0x0A4] :
    List Word)

theorem setLow_setLow (word : Word) (first second : BitVec 32) :
    setLow (setLow word first) second = setLow word second := by
  have high : ((setLow word first) >>> 32).setWidth 32 = (word >>> 32).setWidth 32 := by
    apply BitVec.eq_of_getLsbD_eq
    intro bit bounded
    rw [setLow_eq, BitVec.getLsbD_setWidth, BitVec.getLsbD_ushiftRight, BitVec.getLsbD_append,
      if_neg (by omega), decide_eq_true bounded, Bool.true_and, Nat.add_sub_cancel_left]
  rw [setLow_eq, high, setLow_eq]

theorem setHigh_setHigh (word : Word) (first second : BitVec 32) :
    setHigh (setHigh word first) second = setHigh word second := by
  have low : (setHigh word first).setWidth 32 = word.setWidth 32 := by
    apply BitVec.eq_of_getLsbD_eq
    intro bit bounded
    rw [setHigh_eq, BitVec.getLsbD_setWidth, BitVec.getLsbD_append, if_pos bounded,
      decide_eq_true bounded, Bool.true_and]
  rw [setHigh_eq, low, setHigh_eq]

theorem driverFeatures_last (dev : VirtioBlockDevice) (first second : BitVec 32) :
    (dev.writeU32 0x020 first).writeU32 0x020 second = dev.writeU32 0x020 second := by
  have written : ∀ (dev : VirtioBlockDevice) (val : BitVec 32), dev.writeU32 0x020 val =
      if inside : dev.driverFeaturesSel.toNat < 2 then
        { dev with
          driverFeatures := Function.update dev.driverFeatures
            ⟨dev.driverFeaturesSel.toNat, inside⟩ val }
      else dev := fun _ _ => rfl
  by_cases inside : dev.driverFeaturesSel.toNat < 2
  · rw [written dev first, dif_pos inside, written dev second, dif_pos inside, written,
      dif_pos inside]
    simp only [Function.update_idem]
  · rw [written dev first, dif_neg inside]

/-- Of a register that is only written the guest sets the highest byte and clears the others. -/
theorem storeBytes_writeOnly (dev : VirtioBlockDevice) (only : IsWriteOnly offset)
    (val : BitVec 32) :
    storeBytes writeU8 dev (bytesFrom offset 4) val = dev.writeU32 offset (val &&& 0xFF000000) := by
  simp only [IsWriteOnly, List.mem_cons, List.not_mem_nil, or_false] at only
  have aligned : offset &&& 0x3 = 0 := by
    rcases only with rfl | rfl | rfl | rfl | rfl | rfl | rfl | rfl | rfl | rfl | rfl <;> rfl
  rw [@storeBytes_aligned _ readU32 writeU32 writeU8 (fun _ _ _ => rfl) _ aligned]
  refine rewriteBytes_of_unread ?_ ?_ dev val
  · intro dev val
    rcases only with rfl | rfl | rfl | rfl | rfl | rfl | rfl | rfl | rfl | rfl | rfl <;> rfl
  · intro dev first second
    rcases only with rfl | rfl | rfl | rfl | rfl | rfl | rfl | rfl | rfl | rfl | rfl
    · rfl
    · exact driverFeatures_last dev first second
    · rfl
    · rfl
    · rfl
    · exact congrArg (fun word => { dev with queueDesc := word }) (setLow_setLow _ first second)
    · exact congrArg (fun word => { dev with queueDesc := word }) (setHigh_setHigh _ first second)
    · exact congrArg (fun word => { dev with queueDriver := word }) (setLow_setLow _ first second)
    · exact congrArg (fun word => { dev with queueDriver := word })
        (setHigh_setHigh _ first second)
    · exact congrArg (fun word => { dev with queueDevice := word }) (setLow_setLow _ first second)
    · exact congrArg (fun word => { dev with queueDevice := word })
        (setHigh_setHigh _ first second)

/-- Acknowledging byte by byte acknowledges the word. -/
theorem acknowledge_bytes (status val : BitVec 32) :
    status &&& ~~~setByte 0 (BitVec.ofNat 64 0) (ByteOrder.byteOf val 0) &&&
        ~~~setByte 0 (BitVec.ofNat 64 1) (ByteOrder.byteOf val 1) &&&
        ~~~setByte 0 (BitVec.ofNat 64 2) (ByteOrder.byteOf val 2) &&&
        ~~~setByte 0 (BitVec.ofNat 64 3) (ByteOrder.byteOf val 3) = status &&& ~~~val := by
  have byte : ∀ index < 4, ∀ bit < 32,
      (setByte (0 : BitVec 32) (BitVec.ofNat 64 index) (ByteOrder.byteOf val index)).getLsbD bit =
        (decide (bit / 8 = index) && val.getLsbD bit) := by
    intro index few bit bounded
    rw [getLsbD_setByte _ (by omega) (by omega)]
    by_cases here : bit / 8 = index
    · rw [if_pos (by omega), decide_eq_true here, Bool.true_and, ByteOrder.byteOf,
        BitVec.getLsbD_setWidth, BitVec.getLsbD_ushiftRight, decide_eq_true (by omega),
        Bool.true_and]
      congr 1
      omega
    · rw [if_neg (by omega), decide_eq_false here, Bool.false_and]
      exact BitVec.getLsbD_zero
  apply BitVec.eq_of_getLsbD_eq
  intro bit bounded
  simp only [BitVec.getLsbD_and, BitVec.getLsbD_not, byte 0 (by decide) bit bounded,
    byte 1 (by decide) bit bounded, byte 2 (by decide) bit bounded, byte 3 (by decide) bit bounded,
    decide_eq_true bounded, Bool.true_and]
  have few : bit / 8 = 0 ∨ bit / 8 = 1 ∨ bit / 8 = 2 ∨ bit / 8 = 3 := by omega
  rcases few with here | here | here | here
  · simp [here]
  · simp [here]
  · simp [here]
  · simp [here]

theorem storeBytes_virtio (dev : VirtioBlockDevice) (aligned : offset &&& 0x3 = 0)
    (other : ¬ IsWriteOnly offset) (val : BitVec 32) :
    storeBytes writeU8 dev (bytesFrom offset 4) val = dev.writeU32 offset val := by
  rw [@storeBytes_aligned _ readU32 writeU32 writeU8 (fun _ _ _ => rfl) _ aligned]
  by_cases ready : offset = 0x044
  · subst ready
    refine rewriteBytes_of_stored ?_ ?_ dev val
    · intro dev val
      rfl
    · intro dev first second
      rfl
  by_cases status : offset = 0x070
  · subst status
    refine rewriteBytes_of_stored ?_ ?_ dev val
    · intro dev val
      rfl
    · intro dev first second
      rfl
  by_cases notify : offset = 0x050
  · subst notify
    have written : ∀ (dev : VirtioBlockDevice) (val : BitVec 32), dev.writeU32 0x050 val =
        { dev with notifyPending := true } := fun _ _ => rfl
    simp only [rewriteBytes, written]
  by_cases acknowledge : offset = 0x064
  · subst acknowledge
    have written : ∀ (dev : VirtioBlockDevice) (val : BitVec 32), dev.writeU32 0x064 val =
        { dev with interruptStatus := dev.interruptStatus &&& ~~~val } := fun _ _ => rfl
    have unread : ∀ dev : VirtioBlockDevice, dev.readU32 0x064 = 0 := fun _ => rfl
    simp only [rewriteBytes, written, unread, acknowledge_bytes]
  · have ignored : ∀ dev val, writeU32 dev offset val = dev := by
      intro dev val
      simp only [IsWriteOnly, List.mem_cons, List.not_mem_nil, or_false, not_or] at other
      obtain ⟨h14, h20, h24, h30, h38, h80, h84, h90, h94, hA0, hA4⟩ := other
      rw [writeU32, if_neg h14, if_neg h20, if_neg h24, if_neg h30, if_neg h38, if_neg ready,
        if_neg notify, if_neg acknowledge, if_neg status, if_neg h80, if_neg h84, if_neg h90,
        if_neg h94, if_neg hA0, if_neg hA4]
    rw [rewriteBytes_of_ignored ignored, ignored]

theorem loadBytes_virtio (dev : VirtioBlockDevice) (aligned : offset &&& 0x3 = 0) :
    ofBytes 32 ((bytesFrom offset 4).map dev.readU8) = dev.readU32 offset :=
  loadBytes_aligned (fun _ => rfl) aligned

end VirtioBlockDevice

/-! A guest's words. -/

section Guest

open MmioController

/-- A store sets the register, and a load gets it. -/
def ClintAgrees (vm : Vm) (offset : Word) (val : BitVec 32) : Prop :=
  vm.mmioStoreWord (Clint.base + offset) val = vm.putClint (vm.mmio.clint.setRegister offset val) ∧
    vm.mmioLoadWord (Clint.base + offset) = (vm.mmio.clint.register offset, vm)

def PlicAgrees (vm : Vm) (offset : Word) (val : BitVec 32) : Prop :=
  vm.mmioStoreWord (Plic.base + offset) val = vm.putPlic (vm.mmio.plic.writeU32 offset val) ∧
    vm.mmioLoadWord (Plic.base + offset) =
      ((vm.mmio.plic.readU32 offset).1, vm.putPlic (vm.mmio.plic.readU32 offset).2)

def VirtioAgrees (vm : Vm) (index : ℕ) (dev : VirtioBlockDevice) (offset : Word)
    (val : BitVec 32) : Prop :=
  vm.mmioStoreWord (virtioBase index + offset) val =
      vm.putVirtio index (dev.writeU32 offset val) ∧
    vm.mmioLoadWord (virtioBase index + offset) = (dev.readU32 offset, vm)

/-- An aligned word that begins in a window ends in it. -/
theorem fits_of_aligned {offset size : Word} (aligned : offset &&& 0x3 = 0)
    (whole : size.toNat % 4 = 0) (inside : offset < size) : offset.toNat + 4 ≤ size.toNat := by
  have multiple : offset.toNat % 4 = 0 := by
    rw [← toNat_and_three, aligned]
    rfl
  rw [BitVec.lt_def] at inside
  omega

/-- A store of a word writes the register and a load reads it: of the software interrupt's
register the lowest bit; claims, and block registers that are only written, are left out. -/
theorem guestWords_are_registers (vm : Vm) (offset : Word) (aligned : offset &&& 0x3 = 0)
    (val : BitVec 32) :
    (offset < Clint.size →
      vm.mmioStoreWord (Clint.base + offset) val =
        vm.putClint (vm.mmio.clint.setRegister offset
          (if offset = Clint.msip then val &&& 1 else val)) ∧
      vm.mmioLoadWord (Clint.base + offset) = (vm.mmio.clint.register offset, vm)) ∧
    (offset < Plic.size →
      vm.mmioStoreWord (Plic.base + offset) val = vm.putPlic (vm.mmio.plic.writeU32 offset val) ∧
      (¬ PlicDevice.IsClaim offset → vm.mmioLoadWord (Plic.base + offset) =
        ((vm.mmio.plic.readU32 offset).1, vm.putPlic (vm.mmio.plic.readU32 offset).2))) ∧
    ∀ index dev, offset < Virtio.size → BelowRam index →
      vm.mmio.virtioDevices[index]? = some dev →
        (¬ VirtioBlockDevice.IsWriteOnly offset →
          vm.mmioStoreWord (virtioBase index + offset) val =
            vm.putVirtio index (dev.writeU32 offset val)) ∧
        vm.mmioLoadWord (virtioBase index + offset) = (dev.readU32 offset, vm) := by
  refine ⟨?_, ?_, ?_⟩
  · intro inside
    have fits := fits_of_aligned aligned (show Clint.size.toNat % 4 = 0 from rfl) inside
    have stored := @Port.mmioStoreWord _ clintPort vm vm.mmio.clint offset rfl fits val
    have loaded := @Port.mmioLoadWord _ clintPort vm vm.mmio.clint offset rfl fits
    rw [show clintPort.writeU8 = ClintDevice.writeU8 from rfl,
      ClintDevice.storeBytes_clint _ aligned inside] at stored
    rw [show clintPort.readU8 = ClintDevice.readU8 from rfl,
      ClintDevice.loadBytes_clint _ aligned inside] at loaded
    exact ⟨stored, loaded⟩
  · intro inside
    have fits := fits_of_aligned aligned (show Plic.size.toNat % 4 = 0 from rfl) inside
    have stored := @Port.mmioStoreWord _ plicPort vm vm.mmio.plic offset rfl fits val
    have loaded := @Port.mmioLoadWord _ plicPort vm vm.mmio.plic offset rfl fits
    rw [show plicPort.writeU8 = PlicDevice.writeU8 from rfl,
      PlicDevice.storeBytes_plic _ aligned] at stored
    rw [show plicPort.readU8 = PlicDevice.readU8 from rfl,
      PlicDevice.loadBytes_plic _ aligned] at loaded
    refine ⟨stored, fun other => ?_⟩
    rw [PlicDevice.readU32_eq _ other]
    exact loaded
  · intro index dev inside below found
    have fits := fits_of_aligned aligned (show Virtio.size.toNat % 4 = 0 from rfl) inside
    have stored := (virtioPort index below).mmioStoreWord found fits val
    have loaded := (virtioPort index below).mmioLoadWord found fits
    rw [show (virtioPort index below).writeU8 = VirtioBlockDevice.writeU8 from rfl] at stored
    rw [show (virtioPort index below).readU8 = VirtioBlockDevice.readU8 from rfl,
      VirtioBlockDevice.loadBytes_virtio _ aligned] at loaded
    refine ⟨fun other => ?_, loaded⟩
    rw [VirtioBlockDevice.storeBytes_virtio _ aligned other] at stored
    exact stored

/-- Of a block register that is only written the guest reaches the highest byte. -/
theorem guest_stores_highest_byte {vm : Vm} {index : ℕ} {dev : VirtioBlockDevice} {offset : Word}
    (below : BelowRam index) (found : vm.mmio.virtioDevices[index]? = some dev)
    (fits : offset.toNat + 4 ≤ Virtio.size.toNat) (only : VirtioBlockDevice.IsWriteOnly offset)
    (val : BitVec 32) : vm.mmioStoreWord (virtioBase index + offset) val =
      vm.putVirtio index (dev.writeU32 offset (val &&& 0xFF000000)) := by
  rw [← VirtioBlockDevice.storeBytes_writeOnly dev only]
  exact (virtioPort index below).mmioStoreWord found fits val

/-- A guest reads what was claimed before, and claims nothing. -/
theorem guest_claims_nothing (vm : Vm) (context : Fin 2) :
    vm.mmioLoadWord (Plic.base + (PlicDevice.contextBaseOf context + 4)) =
      (vm.mmio.plic.readU32NoSideEffect (PlicDevice.contextBaseOf context + 4), vm) := by
  have both : ∀ context : Fin 2, (PlicDevice.contextBaseOf context + 4) &&& 0x3 = 0 ∧
      (PlicDevice.contextBaseOf context + 4).toNat + 4 ≤ Plic.size.toNat := by decide
  rw [← PlicDevice.loadBytes_plic _ (both context).1]
  exact @Port.mmioLoadWord _ plicPort vm vm.mmio.plic _ rfl (both context).2

/-- Source 1 is pending and enabled. -/
def pendingPlic : PlicDevice :=
  { PlicDevice.new with
    priority := fun _ => 1
    pending := fun _ => 2
    enable := fun _ _ => 2 }

/-- A machine with a block device and an interrupt to claim. -/
def deviceVm : Vm :=
  { Vm.newPrivileged .new .new with
    mmio := { MmioController.new with
      plic := pendingPlic, virtioDevices := [VirtioBlockDevice.new []] } }

theorem guestWords_are_registers_deviceVm :
    deviceVm.mmioStoreWord (Clint.base + 0) 3 = deviceVm.putClint ⟨1, 0, 0⟩ ∧
    deviceVm.mmioLoadWord (Plic.base + 4) = (1, deviceVm) ∧
    deviceVm.mmioLoadWord (virtioBase 0 + 0) = (Virtio.magic, deviceVm) :=
  ⟨((guestWords_are_registers deviceVm 0 rfl 3).1 (by decide)).1,
    ((guestWords_are_registers deviceVm 4 rfl 0).2.1 (by decide)).2
      (by unfold PlicDevice.IsClaim; decide),
    ((guestWords_are_registers deviceVm 0 rfl 0).2.2 0 (VirtioBlockDevice.new []) (by decide)
      (by unfold BelowRam; decide) rfl).2⟩

/-- The software interrupt set to 2, a source claimed, and a queue of 8 entries. -/
theorem guestWords_disagree :
    (¬ ∀ vm offset val, offset &&& 0x3 = 0 → offset < Clint.size → ClintAgrees vm offset val) ∧
    (¬ ∀ vm offset val, offset &&& 0x3 = 0 → offset < Plic.size → PlicAgrees vm offset val) ∧
    ¬ ∀ vm index dev offset val, offset &&& 0x3 = 0 → offset < Virtio.size → BelowRam index →
      vm.mmio.virtioDevices[index]? = some dev → VirtioAgrees vm index dev offset val := by
  refine ⟨?_, ?_, ?_⟩
  · intro agree
    have stored := (agree deviceVm 0 2 rfl (by decide)).1
    have put := @Port.mmioStoreWord _ clintPort deviceVm .new 0 rfl (by decide) 2
    have msip := congrArg (fun vm : Vm => vm.mmio.clint.msip) (put.symm.trans stored)
    revert msip
    decide
  · intro agree
    have loaded := (agree deviceVm (PlicDevice.contextBaseOf 0 + 4) 0 (by decide) (by decide)).2
    rw [guest_claims_nothing] at loaded
    exact absurd (congrArg Prod.fst loaded) (by decide)
  · intro agree
    have stored := (agree deviceVm 0 (VirtioBlockDevice.new []) 0x038 8 rfl (by decide)
      (by unfold BelowRam; decide) rfl).1
    rw [@guest_stores_highest_byte deviceVm 0 (.new []) _ (by unfold BelowRam; decide) rfl
      (by decide) (by unfold VirtioBlockDevice.IsWriteOnly; decide)] at stored
    have queueNum := congrArg (fun vm : Vm =>
      vm.mmio.virtioDevices[0]?.map VirtioBlockDevice.queueNum) stored
    revert queueNum
    decide

end Guest

end MetaVm.Riscv
