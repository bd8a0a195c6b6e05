import Mathlib
import MetaVm.Riscv.Machine.GuestPorts

namespace MetaVm.Riscv

/-! A register that is written a byte at a time. -/

section Bytes

variable {width : ℕ}

theorem toNat_shift {index : ℕ} (small : index < 8) :
    ((BitVec.ofNat 64 index : Word) * 8).toNat = 8 * index := by
  have eight : (8 : Word).toNat = 8 := rfl
  rw [BitVec.toNat_mul, BitVec.toNat_ofNat, eight]
  omega

theorem byteOf_eq (register : BitVec width) {index : ℕ} (small : index < 8) :
    byteOf register (BitVec.ofNat 64 index) = ByteOrder.byteOf register index := by
  rw [byteOf, ByteOrder.byteOf, BitVec.ushiftRight_eq', toNat_shift small]

theorem getLsbD_setByte (register : BitVec width) {index : ℕ} (small : index < 8)
    (inside : 8 * index + 8 ≤ width) (val : Byte) (bit : ℕ) :
    (setByte register (BitVec.ofNat 64 index) val).getLsbD bit =
      if 8 * index ≤ bit ∧ bit < 8 * index + 8 then val.getLsbD (bit - 8 * index)
      else register.getLsbD bit := by
  have ones : ∀ position, position < width → (0xFF : BitVec width).getLsbD position =
      decide (position < 8) := by
    intro position bounded
    change (BitVec.ofNat width 0xFF).getLsbD position = _
    rw [BitVec.getLsbD_ofNat, decide_eq_true bounded, Bool.true_and]
    exact Nat.testBit_two_pow_sub_one 8 position
  rw [setByte, BitVec.shiftLeft_eq', BitVec.shiftLeft_eq', toNat_shift small]
  by_cases bounded : bit < width
  · simp only [BitVec.getLsbD_or, BitVec.getLsbD_and, BitVec.getLsbD_not, BitVec.getLsbD_shiftLeft,
      BitVec.getLsbD_setWidth, decide_eq_true bounded, Bool.true_and]
    by_cases above : bit < 8 * index
    · simp [above, Nat.not_le.2 above]
    · have within : bit - 8 * index < width := by omega
      rw [ones _ within]
      by_cases below : bit < 8 * index + 8
      · have few : bit - 8 * index < 8 := by omega
        simp [above, below, few, within, Nat.not_lt.1 above]
      · have many : ¬ bit - 8 * index < 8 := by omega
        simp [above, below, many, BitVec.getLsbD_of_ge val _ (Nat.not_lt.1 many)]
  · rw [if_neg (by omega), BitVec.getLsbD_of_ge _ _ (Nat.not_lt.1 bounded),
      BitVec.getLsbD_of_ge _ _ (Nat.not_lt.1 bounded)]

theorem byteOf_setByte (register : BitVec width) {index : ℕ} (small : index < 8)
    (inside : 8 * index + 8 ≤ width) (val : Byte) (other : ℕ) :
    ByteOrder.byteOf (setByte register (BitVec.ofNat 64 index) val) other =
      if other = index then val else ByteOrder.byteOf register other := by
  apply BitVec.eq_of_getLsbD_eq
  intro bit bounded
  rw [ByteOrder.byteOf, BitVec.getLsbD_setWidth, BitVec.getLsbD_ushiftRight,
    getLsbD_setByte register small inside, decide_eq_true bounded, Bool.true_and]
  by_cases same : other = index
  · rw [if_pos same, if_pos (by omega)]
    congr 1
    omega
  · rw [if_neg same, if_neg (by omega), ByteOrder.byteOf, BitVec.getLsbD_setWidth,
      BitVec.getLsbD_ushiftRight, decide_eq_true bounded, Bool.true_and]

end Bytes

/-! A word register, read, changed in a byte and written back four times. -/

section Words

variable {Device : Type}

/-- The bytes of a word put into a register one after another, from the byte `first` on. -/
def setBytes {width : ℕ} (register : BitVec width) (first : ℕ) (val : BitVec 32) : BitVec width :=
  let register := setByte register (BitVec.ofNat 64 first) (ByteOrder.byteOf val 0)
  let register := setByte register (BitVec.ofNat 64 (first + 1)) (ByteOrder.byteOf val 1)
  let register := setByte register (BitVec.ofNat 64 (first + 2)) (ByteOrder.byteOf val 2)
  setByte register (BitVec.ofNat 64 (first + 3)) (ByteOrder.byteOf val 3)

theorem byteOf_setBytes {width : ℕ} (register : BitVec width) {first : ℕ} (small : first < 5)
    (inside : 8 * (first + 4) ≤ width) (val : BitVec 32) (index : ℕ) :
    ByteOrder.byteOf (setBytes register first val) index =
      if first ≤ index ∧ index < first + 4 then ByteOrder.byteOf val (index - first)
      else ByteOrder.byteOf register index := by
  rw [setBytes, byteOf_setByte _ (by omega) (by omega), byteOf_setByte _ (by omega) (by omega),
    byteOf_setByte _ (by omega) (by omega), byteOf_setByte _ (by omega) (by omega)]
  by_cases within : first ≤ index ∧ index < first + 4
  · rw [if_pos within]
    obtain ⟨offset, rfl⟩ := Nat.exists_eq_add_of_le within.1
    have few : offset = 0 ∨ offset = 1 ∨ offset = 2 ∨ offset = 3 := by omega
    rw [Nat.add_sub_cancel_left]
    rcases few with rfl | rfl | rfl | rfl
    · simp
    · simp
    · simp
    · simp
  · rw [if_neg within, if_neg (by omega), if_neg (by omega), if_neg (by omega), if_neg (by omega)]

theorem setBytes_word (register val : BitVec 32) : setBytes register 0 val = val := by
  apply ByteOrder.eq_of_byteOf (show 32 = 8 * 4 from rfl)
  intro index few
  rw [byteOf_setBytes register (by decide) (by decide), if_pos (by omega), Nat.sub_zero]

/-- A word as two halves, the low one replaced. -/
theorem setLow_eq (word : Word) (val : BitVec 32) :
    setLow word val = (word >>> 32).setWidth 32 ++ val := by
  have mask : ∀ bit < 64, BitVec.getLsbD (0xFFFFFFFF00000000 : Word) bit = decide (32 ≤ bit) := by
    decide
  apply BitVec.eq_of_getLsbD_eq
  intro bit bounded
  rw [setLow, BitVec.getLsbD_or, BitVec.getLsbD_and, mask bit bounded, BitVec.getLsbD_setWidth,
    BitVec.getLsbD_append, BitVec.getLsbD_setWidth, BitVec.getLsbD_ushiftRight,
    decide_eq_true bounded]
  by_cases low : bit < 32
  · simp [low, Nat.not_le.2 low]
  · have high : bit - 32 < 32 := by omega
    have position : 32 + (bit - 32) = bit := by omega
    simp [low, high, position, Nat.not_lt.1 low]

theorem setHigh_eq (word : Word) (val : BitVec 32) :
    setHigh word val = val ++ word.setWidth 32 := by
  have mask : ∀ bit < 64, BitVec.getLsbD (0x00000000FFFFFFFF : Word) bit = decide (bit < 32) := by
    decide
  apply BitVec.eq_of_getLsbD_eq
  intro bit bounded
  change ((word &&& (0x00000000FFFFFFFF : Word)) ||| val.setWidth 64 <<< 32).getLsbD bit = _
  rw [BitVec.getLsbD_or, BitVec.getLsbD_and, mask bit bounded, BitVec.getLsbD_shiftLeft,
    BitVec.getLsbD_setWidth, BitVec.getLsbD_append, BitVec.getLsbD_setWidth,
    decide_eq_true bounded]
  by_cases low : bit < 32
  · simp [low]
  · have high : bit - 32 < 64 := by omega
    simp [low, high]

theorem setBytes_low (register : Word) (val : BitVec 32) :
    setBytes register 0 val = setLow register val := by
  apply ByteOrder.eq_of_byteOf (show 64 = 8 * 8 from rfl)
  intro index few
  rw [byteOf_setBytes register (by decide) (by decide), setLow_eq,
    ByteOrder.byteOf_append _ _ (show 32 = 8 * 4 from rfl)]
  by_cases low : index < 4
  · rw [if_pos (by omega), if_pos low, Nat.sub_zero]
  · rw [if_neg (by omega), if_neg low, ByteOrder.byteOf_setWidth _ (by omega)]
    exact (ByteOrder.byteOf_shift register 4 (index - 4)).symm ▸
      congrArg _ (Nat.add_sub_cancel' (Nat.not_lt.1 low)).symm

theorem setBytes_high (register : Word) (val : BitVec 32) :
    setBytes register 4 val = setHigh register val := by
  apply ByteOrder.eq_of_byteOf (show 64 = 8 * 8 from rfl)
  intro index few
  rw [byteOf_setBytes register (by decide) (by decide), setHigh_eq,
    ByteOrder.byteOf_append _ _ (show 32 = 8 * 4 from rfl)]
  by_cases low : index < 4
  · rw [if_neg (by omega), if_pos low, ByteOrder.byteOf_setWidth _ (by omega)]
  · rw [if_pos (by omega), if_neg low]

/-- The four accesses that a store makes of a register. -/
def rewriteBytes (read : Device → BitVec 32) (write : Device → BitVec 32 → Device) (dev : Device)
    (val : BitVec 32) : Device :=
  let rewrite := fun dev index =>
    write dev (setByte (read dev) (BitVec.ofNat 64 index) (ByteOrder.byteOf val index))
  rewrite (rewrite (rewrite (rewrite dev 0) 1) 2) 3

variable {read : Device → BitVec 32} {write : Device → BitVec 32 → Device}

/-- What is written is read back, and the last write stays. -/
theorem rewriteBytes_of_stored (reads : ∀ dev val, read (write dev val) = val)
    (last : ∀ dev first second, write (write dev first) second = write dev second) (dev : Device)
    (val : BitVec 32) : rewriteBytes read write dev val = write dev val := by
  rw [rewriteBytes]
  dsimp only
  rw [reads, reads, reads, last, last, last]
  exact congrArg (write dev) (setBytes_word (read dev) val)

theorem rewriteBytes_of_ignored (ignored : ∀ dev val, write dev val = dev) (dev : Device)
    (val : BitVec 32) : rewriteBytes read write dev val = dev := by
  rw [rewriteBytes]
  dsimp only
  rw [ignored, ignored, ignored, ignored]

theorem setByte_zero_three (val : BitVec 32) :
    setByte (0 : BitVec 32) (BitVec.ofNat 64 3) (ByteOrder.byteOf val 3) = val &&& 0xFF000000 := by
  have mask : ∀ bit < 32, BitVec.getLsbD (0xFF000000 : BitVec 32) bit = decide (24 ≤ bit) := by
    decide
  apply BitVec.eq_of_getLsbD_eq
  intro bit bounded
  rw [getLsbD_setByte _ (by decide) (by decide), BitVec.getLsbD_and, mask bit bounded]
  by_cases high : 24 ≤ bit
  · rw [if_pos (by omega), ByteOrder.byteOf, BitVec.getLsbD_setWidth, BitVec.getLsbD_ushiftRight,
      decide_eq_true high, Bool.and_true, decide_eq_true (by omega), Bool.true_and]
    congr 1
    omega
  · rw [if_neg (by omega), decide_eq_false high, Bool.and_false]
    exact BitVec.getLsbD_zero

/-- Of a register that reads as zero only the highest byte is kept. -/
theorem rewriteBytes_of_unread (reads : ∀ dev val, read (write dev val) = 0)
    (last : ∀ dev first second, write (write dev first) second = write dev second) (dev : Device)
    (val : BitVec 32) : rewriteBytes read write dev val = write dev (val &&& 0xFF000000) := by
  rw [rewriteBytes]
  dsimp only
  rw [reads, reads, reads, last, last, last, setByte_zero_three]

theorem andNot_add_and {width : ℕ} (val mask : BitVec width) :
    (val &&& ~~~mask) + (val &&& mask) = val := by
  have apart : (val &&& ~~~mask) &&& (val &&& mask) = 0 := by
    apply BitVec.eq_of_getLsbD_eq
    intro bit bounded
    simp only [BitVec.getLsbD_and, BitVec.getLsbD_not]
    cases mask.getLsbD bit <;> simp
  rw [BitVec.add_eq_or_of_and_eq_zero _ _ apart]
  apply BitVec.eq_of_getLsbD_eq
  intro bit bounded
  simp only [BitVec.getLsbD_or, BitVec.getLsbD_and, BitVec.getLsbD_not, decide_eq_true bounded]
  cases mask.getLsbD bit <;> simp

theorem toNat_and_three (offset : Word) : (offset &&& 0x3).toNat = offset.toNat % 4 := by
  rw [BitVec.toNat_and]
  exact Nat.and_two_pow_sub_one_eq_mod offset.toNat 2

/-- A byte of an aligned word: the word and the place in it. -/
theorem split_aligned {offset : Word} (aligned : offset &&& 0x3 = 0) {index : ℕ}
    (few : index < 4) : (offset + BitVec.ofNat 64 index) &&& 0x3 = BitVec.ofNat 64 index ∧
      (offset + BitVec.ofNat 64 index) &&& ~~~0x3 = offset := by
  have whole : offset.toNat % 4 = 0 := by
    rw [← toNat_and_three, aligned]
    rfl
  have place : (offset + BitVec.ofNat 64 index) &&& 0x3 = BitVec.ofNat 64 index := by
    apply BitVec.eq_of_toNat_eq
    rw [toNat_and_three, BitVec.toNat_add, BitVec.toNat_ofNat]
    omega
  refine ⟨place, ?_⟩
  have parts := andNot_add_and (offset + BitVec.ofNat 64 index) 0x3
  rw [place] at parts
  exact add_right_cancel parts

theorem storeBytes_aligned {readU32 : Device → Word → BitVec 32}
    {writeU32 : Device → Word → BitVec 32 → Device} {writeU8 : Device → Word → Byte → Device}
    (bytewise : ∀ dev offset val, writeU8 dev offset val = writeU32 dev (offset &&& ~~~0x3)
      (setByte (readU32 dev (offset &&& ~~~0x3)) (offset &&& 0x3) val))
    {offset : Word} (aligned : offset &&& 0x3 = 0) (dev : Device) (val : BitVec 32) :
    storeBytes writeU8 dev (bytesFrom offset 4) val =
      rewriteBytes (fun dev => readU32 dev offset) (fun dev => writeU32 dev offset) dev val := by
  have bytes : ∀ dev index byte, index < 4 → writeU8 dev (offset + BitVec.ofNat 64 index) byte =
      writeU32 dev offset (setByte (readU32 dev offset) (BitVec.ofNat 64 index) byte) := by
    intro dev index byte few
    obtain ⟨place, word⟩ := split_aligned aligned few
    rw [bytewise, place, word]
  change storeBytes writeU8 dev [offset + BitVec.ofNat 64 0, offset + BitVec.ofNat 64 1,
    offset + BitVec.ofNat 64 2, offset + BitVec.ofNat 64 3] val = _
  rw [storeBytes, storeBytes, storeBytes, storeBytes, storeBytes, bytes _ 0 _ (by decide),
    bytes _ 1 _ (by decide), bytes _ 2 _ (by decide), bytes _ 3 _ (by decide)]
  rfl

theorem loadBytes_aligned {readU32 : Word → BitVec 32} {readU8 : Word → Byte}
    (bytewise : ∀ offset, readU8 offset = byteOf (readU32 (offset &&& ~~~0x3)) (offset &&& 0x3))
    {offset : Word} (aligned : offset &&& 0x3 = 0) :
    ByteOrder.ofBytes 32 ((bytesFrom offset 4).map readU8) = readU32 offset := by
  symm
  apply ByteOrder.eq_ofBytes (show 32 = 8 * 4 from rfl)
  intro index few
  obtain ⟨place, word⟩ := split_aligned aligned few
  rw [Vm.map_bytesFrom_getD _ _ few, bytewise, place, word, byteOf_eq _ (by omega)]

end Words

end MetaVm.Riscv
