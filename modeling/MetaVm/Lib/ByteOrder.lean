import MetaVm.Lib.Numerals

namespace MetaVm.ByteOrder

/-! Little-endian values in a store of bytes with wrapping addresses. -/

variable {n : ℕ}

/-- The byte of a value at an index. -/
def byteOf {width : ℕ} (val : BitVec width) (index : ℕ) : BitVec 8 :=
  (val >>> (8 * index)).setWidth 8

section Values

variable {width other half count index : ℕ}

/-- Two halves joined by shifting the upper one. -/
theorem or_shift_eq_append (low high : BitVec width) :
    low.setWidth (width + width) ||| high.setWidth (width + width) <<< width = high ++ low := by
  apply BitVec.eq_of_getLsbD_eq
  intro bit bounded
  rw [BitVec.getLsbD_or, BitVec.getLsbD_setWidth, BitVec.getLsbD_shiftLeft,
    BitVec.getLsbD_setWidth, BitVec.getLsbD_append, decide_eq_true bounded]
  by_cases below : bit < width
  · simp [below]
  · have inHigh : bit - width < width + width := by omega
    simp [below, inHigh, BitVec.getLsbD_of_ge low bit (by omega)]

theorem byteOf_setWidth (val : BitVec width) (inside : 8 * index + 8 ≤ other) :
    byteOf (val.setWidth other) index = byteOf val index := by
  apply BitVec.eq_of_getLsbD_eq
  intro bit bounded
  have kept : 8 * index + bit < other := by omega
  simp only [byteOf, BitVec.getLsbD_setWidth, BitVec.getLsbD_ushiftRight, decide_eq_true kept,
    Bool.true_and]

theorem byteOf_shift (val : BitVec width) (count index : ℕ) :
    byteOf (val >>> (8 * count)) index = byteOf val (count + index) := by
  rw [byteOf, byteOf, Nat.mul_add, BitVec.shiftRight_add]

theorem byteOf_append (high low : BitVec width) (whole : width = 8 * count) (index : ℕ) :
    byteOf (high ++ low) index =
      if index < count then byteOf low index else byteOf high (index - count) := by
  apply BitVec.eq_of_getLsbD_eq
  intro bit bounded
  by_cases below : index < count
  · have inLow : 8 * index + bit < width := by omega
    rw [if_pos below]
    simp [byteOf, BitVec.getLsbD_append, inLow]
  · have inHigh : ¬ 8 * index + bit < width := by omega
    have shifted : 8 * index + bit - width = 8 * (index - count) + bit := by omega
    rw [if_neg below]
    simp [byteOf, BitVec.getLsbD_append, inHigh, shifted]

/-- A value is its bytes. -/
theorem eq_of_byteOf {first second : BitVec width} (whole : width = 8 * count)
    (same : ∀ index < count, byteOf first index = byteOf second index) : first = second := by
  apply BitVec.eq_of_getLsbD_eq
  intro bit bounded
  have read := congrArg (fun byte => BitVec.getLsbD byte (bit % 8)) (same (bit / 8) (by omega))
  have inByte : bit % 8 < 8 := Nat.mod_lt bit (by decide)
  have position : 8 * (bit / 8) + bit % 8 = bit := Nat.div_add_mod bit 8
  simpa [byteOf, inByte, position] using read

end Values

/-! Reading. -/

def getHalf (bytes : BitVec n → BitVec 8) (addr : BitVec n) : BitVec 16 :=
  bytes (addr + 1) ++ bytes addr

def getWord (bytes : BitVec n → BitVec 8) (addr : BitVec n) : BitVec 32 :=
  getHalf bytes (addr + 2) ++ getHalf bytes addr

def getDouble (bytes : BitVec n → BitVec 8) (addr : BitVec n) : BitVec 64 :=
  getWord bytes (addr + 4) ++ getWord bytes addr

section Get

variable (bytes : BitVec n → BitVec 8) (addr : BitVec n)

theorem byteOf_getHalf {index : ℕ} (bounded : index < 2) :
    byteOf (getHalf bytes addr) index = bytes (addr + BitVec.ofNat n index) := by
  have whole : ∀ byte : BitVec 8, byteOf byte 0 = byte := by
    intro byte
    simp [byteOf]
  rw [getHalf, byteOf_append _ _ (show 8 = 8 * 1 from rfl)]
  match index with
  | 0 => simp [whole]
  | 1 => simpa using whole _

theorem byteOf_getWord {index : ℕ} (bounded : index < 4) :
    byteOf (getWord bytes addr) index = bytes (addr + BitVec.ofNat n index) := by
  rw [getWord, byteOf_append _ _ (show 16 = 8 * 2 from rfl)]
  split
  · rename_i low
    exact byteOf_getHalf bytes addr low
  · rename_i high
    have sum : (2 : BitVec n) + BitVec.ofNat n (index - 2) = BitVec.ofNat n index := by
      rw [show index = 2 + (index - 2) by omega, BitVec.ofNat_add]
      simp
    rw [byteOf_getHalf bytes (addr + 2) (by omega), BitVec.add_assoc, sum]

theorem byteOf_getDouble {index : ℕ} (bounded : index < 8) :
    byteOf (getDouble bytes addr) index = bytes (addr + BitVec.ofNat n index) := by
  rw [getDouble, byteOf_append _ _ (show 32 = 8 * 4 from rfl)]
  split
  · rename_i low
    exact byteOf_getWord bytes addr low
  · rename_i high
    have sum : (4 : BitVec n) + BitVec.ofNat n (index - 4) = BitVec.ofNat n index := by
      rw [show index = 4 + (index - 4) by omega, BitVec.ofNat_add]
      simp
    rw [byteOf_getWord bytes (addr + 4) (by omega), BitVec.add_assoc, sum]

end Get

/-! Writing. -/

def putHalf (bytes : BitVec n → BitVec 8) (addr : BitVec n) (val : BitVec 16) :
    BitVec n → BitVec 8 :=
  Function.update (Function.update bytes addr (val.setWidth 8)) (addr + 1)
    ((val >>> 8).setWidth 8)

def putWord (bytes : BitVec n → BitVec 8) (addr : BitVec n) (val : BitVec 32) :
    BitVec n → BitVec 8 :=
  putHalf (putHalf bytes addr (val.setWidth 16)) (addr + 2) ((val >>> 16).setWidth 16)

def putDouble (bytes : BitVec n → BitVec 8) (addr : BitVec n) (val : BitVec 64) :
    BitVec n → BitVec 8 :=
  putWord (putWord bytes addr (val.setWidth 32)) (addr + 4) ((val >>> 32).setWidth 32)

/-- A store comes from another by writing the bytes that follow an address. -/
def Puts (before after : BitVec n → BitVec 8) (addr : BitVec n) (size : ℕ)
    (byte : ℕ → BitVec 8) : Prop :=
  ∀ target, after target =
    if (target - addr).toNat < size then byte (target - addr).toNat else before target

namespace Puts

variable {before middle after : BitVec n → BitVec 8} {addr : BitVec n} {byte : ℕ → BitVec 8}
  {size half : ℕ}

theorem update (bytes : BitVec n → BitVec 8) (addr : BitVec n) (val : BitVec 8) :
    Puts bytes (Function.update bytes addr val) addr 1 fun _ => val := by
  intro target
  by_cases here : target = addr
  · subst here
    simp
  · have apart : ¬ (target - addr).toNat < 1 := by
      intro small
      have zero : (target - addr).toNat = 0 := by omega
      have none : target - addr = 0 := BitVec.eq_of_toNat_eq (by simpa using zero)
      exact here (by rw [← BitVec.sub_add_cancel target addr, none]; simp)
    rw [if_neg apart, Function.update_of_ne here]

theorem congr {other : ℕ → BitVec 8} (puts : Puts before after addr size byte)
    (same : ∀ index < size, byte index = other index) : Puts before after addr size other := by
  intro target
  rw [puts target]
  split
  · rename_i inside
    exact same _ inside
  · rfl

/-- A distance is shorter from a later address, or wraps. -/
theorem toNat_sub_step (distance : BitVec n) (bounded : half < 2 ^ n) :
    (distance - BitVec.ofNat n half).toNat =
      if half ≤ distance.toNat then distance.toNat - half
      else 2 ^ n + distance.toNat - half := by
  have within := distance.isLt
  rw [BitVec.toNat_sub, BitVec.toNat_ofNat, Nat.mod_eq_of_lt bounded]
  split
  · rename_i passed
    rw [show 2 ^ n - half + distance.toNat = distance.toNat - half + 2 ^ n by omega,
      Nat.add_mod_right]
    exact Nat.mod_eq_of_lt (by omega)
  · rename_i short
    rw [Nat.mod_eq_of_lt (by omega)]
    omega

/-- Writing the two halves writes the whole. -/
theorem join (fits : 2 * half ≤ 2 ^ n) (low : Puts before middle addr half byte)
    (high : Puts middle after (addr + BitVec.ofNat n half) half fun index =>
      byte (half + index)) : Puts before after addr (2 * half) byte := by
  intro target
  by_cases empty : half = 0
  · subst empty
    simpa [low target] using high target
  have distance : target - (addr + BitVec.ofNat n half) =
      target - addr - BitVec.ofNat n half := (BitVec.sub_sub target addr _).symm
  rw [high target, low target, distance, toNat_sub_step _ (by omega)]
  by_cases passed : half ≤ (target - addr).toNat
  · have notLow : ¬ (target - addr).toNat < half := by omega
    have sum : half + ((target - addr).toNat - half) = (target - addr).toNat := by omega
    rw [if_pos passed, if_neg notLow]
    dsimp only
    rw [sum]
    by_cases inside : (target - addr).toNat < 2 * half
    · rw [if_pos inside, if_pos (by omega)]
    · rw [if_neg inside, if_neg (by omega)]
  · have within := (target - addr).isLt
    rw [if_neg passed, if_neg (by omega), if_pos (by omega), if_pos (by omega)]

end Puts

section Put

variable (bytes : BitVec n → BitVec 8) (addr : BitVec n) (long : 3 ≤ n)

include long

theorem eight_le_pow : 8 ≤ 2 ^ n :=
  Nat.pow_le_pow_right (show 0 < 2 by decide) long

theorem puts_putHalf (val : BitVec 16) :
    Puts bytes (putHalf bytes addr val) addr 2 (byteOf val) := by
  have room := eight_le_pow long
  refine @Puts.join n bytes _ _ addr (byteOf val) 1 (by omega)
    ((Puts.update bytes addr _).congr ?_) ((Puts.update _ (addr + 1) _).congr ?_)
  · intro index bounded
    obtain rfl : index = 0 := by omega
    simp [byteOf]
  · intro index bounded
    obtain rfl : index = 0 := by omega
    rfl

theorem puts_putWord (val : BitVec 32) :
    Puts bytes (putWord bytes addr val) addr 4 (byteOf val) := by
  have room := eight_le_pow long
  refine @Puts.join n bytes _ _ addr (byteOf val) 2 (by omega)
    ((puts_putHalf bytes addr long _).congr ?_) ((puts_putHalf _ (addr + 2) long _).congr ?_)
  · intro index bounded
    exact byteOf_setWidth val (by omega)
  · intro index bounded
    rw [byteOf_setWidth _ (by omega)]
    exact byteOf_shift val 2 index

theorem puts_putDouble (val : BitVec 64) :
    Puts bytes (putDouble bytes addr val) addr 8 (byteOf val) := by
  have room := eight_le_pow long
  refine @Puts.join n bytes _ _ addr (byteOf val) 4 (by omega)
    ((puts_putWord bytes addr long _).congr ?_) ((puts_putWord _ (addr + 4) long _).congr ?_)
  · intro index bounded
    exact byteOf_setWidth val (by omega)
  · intro index bounded
    rw [byteOf_setWidth _ (by omega)]
    exact byteOf_shift val 4 index

end Put

/-! Reading what was written. -/

section GetPut

variable {before after : BitVec n → BitVec 8} {addr other : BitVec n} {val : BitVec 64}

theorem getDouble_congr {first second : BitVec n → BitVec 8}
    (same : ∀ index < 8, first (addr + BitVec.ofNat n index) =
      second (addr + BitVec.ofNat n index)) : getDouble first addr = getDouble second addr := by
  apply eq_of_byteOf (show 64 = 8 * 8 from rfl)
  intro index bounded
  rw [byteOf_getDouble _ _ bounded, byteOf_getDouble _ _ bounded, same index bounded]

theorem Puts.getHalf_self {half : BitVec 16} (long : 1 ≤ n)
    (puts : Puts before after addr 2 (byteOf half)) : getHalf after addr = half := by
  have room : 2 ^ 1 ≤ 2 ^ n := Nat.pow_le_pow_right (by decide) long
  apply eq_of_byteOf (show 16 = 8 * 2 from rfl)
  intro index bounded
  have distance : (addr + BitVec.ofNat n index - addr).toNat = index := by
    rw [BitVec.add_comm, BitVec.add_sub_cancel, BitVec.toNat_ofNat]
    exact Nat.mod_eq_of_lt (by omega)
  rw [byteOf_getHalf _ _ bounded, puts, distance, if_pos bounded]

theorem Puts.getDouble_self (long : 3 ≤ n) (puts : Puts before after addr 8 (byteOf val)) :
    getDouble after addr = val := by
  have room := eight_le_pow long
  apply eq_of_byteOf (show 64 = 8 * 8 from rfl)
  intro index bounded
  have distance : (addr + BitVec.ofNat n index - addr).toNat = index := by
    rw [BitVec.add_comm, BitVec.add_sub_cancel, BitVec.toNat_ofNat]
    exact Nat.mod_eq_of_lt (by omega)
  rw [byteOf_getDouble _ _ bounded, puts, distance, if_pos bounded]

theorem Puts.getDouble_of_apart {byte : ℕ → BitVec 8} (puts : Puts before after addr 8 byte)
    (apart : ∀ index < 8, 8 ≤ (other + BitVec.ofNat n index - addr).toNat) :
    getDouble after other = getDouble before other := by
  apply getDouble_congr
  intro index bounded
  rw [puts, if_neg (Nat.not_lt.2 (apart index bounded))]

end GetPut

end MetaVm.ByteOrder
