import MetaVm.Lib.ByteOrder
import MetaVm.Lib.Digits
import MetaVm.Riscv.Machine.Memory

namespace MetaVm.Riscv.Memory

open ByteOrder

/-! The memory as a store of bytes, whatever pages an access covers. -/

variable (memory : Memory) {addr other : Word} {size index : ℕ}

/-- The page of a number, zero when it is not allocated. -/
def pageAt (num : Word) : Page := (memory.pages.lookup num).getD newPage

theorem toNat_pageNum (addr : Word) : (pageNum addr).toNat = addr.toNat / 4096 := by
  rw [pageNum, BitVec.toNat_ushiftRight, Nat.shiftRight_eq_div_pow]

theorem toNat_pageOffset (addr : Word) : (pageOffset addr).toNat = addr.toNat % 4096 := by
  rw [pageOffset, BitVec.toNat_setWidth]

theorem loadByte_eq (addr : Word) :
    memory.loadByte addr = memory.pageAt (pageNum addr) (pageOffset addr) := by
  rw [loadByte, onPage, pageAt]
  cases memory.pages.lookup (pageNum addr) with
  | some page => rfl
  | none => rfl

/-- The bytes that follow an address within its page. -/
theorem loadByte_add (inPage : InPage addr size) (inside : index < size) :
    memory.loadByte (addr + BitVec.ofNat 64 index) =
      memory.pageAt (pageNum addr) (pageOffset addr + BitVec.ofNat 12 index) := by
  have bounded := addr.isLt
  rw [InPage, toNat_pageOffset] at inPage
  have sameNum : pageNum (addr + BitVec.ofNat 64 index) = pageNum addr := by
    apply BitVec.eq_of_toNat_eq
    rw [toNat_pageNum, toNat_pageNum, BitVec.toNat_add, BitVec.toNat_ofNat]
    omega
  have sameOffset : pageOffset (addr + BitVec.ofNat 64 index) =
      pageOffset addr + BitVec.ofNat 12 index := by
    apply BitVec.eq_of_toNat_eq
    rw [toNat_pageOffset, BitVec.toNat_add, BitVec.toNat_add, toNat_pageOffset,
      BitVec.toNat_ofNat, BitVec.toNat_ofNat]
    omega
  rw [loadByte_eq, sameNum, sameOffset]

theorem loadByte_updatePage (addr other : Word) (write : Page → BitVec 12 → Page) :
    (memory.updatePage addr write).loadByte other =
      if pageNum other = pageNum addr then
        write (memory.pageAt (pageNum addr)) (pageOffset addr) (pageOffset other)
      else memory.loadByte other := by
  rw [loadByte_eq, loadByte_eq, pageAt, updatePage]
  split
  · rename_i same
    rw [same, Finmap.lookup_insert]
    rfl
  · rename_i differs
    rw [Finmap.lookup_insert_of_ne _ differs]
    rfl

/-- Within a page addresses are as far apart as their offsets. -/
theorem near_iff (inPage : InPage addr size) :
    (other - addr).toNat < size ↔
      pageNum other = pageNum addr ∧ (pageOffset other - pageOffset addr).toNat < size := by
  have addrBounded := addr.isLt
  have otherBounded := other.isLt
  rw [InPage, toNat_pageOffset] at inPage
  rw [← BitVec.toNat_inj, toNat_pageNum, toNat_pageNum, BitVec.toNat_sub, BitVec.toNat_sub,
    toNat_pageOffset, toNat_pageOffset]
  omega

theorem distance_eq (inPage : InPage addr size) (near : (other - addr).toNat < size) :
    (pageOffset other - pageOffset addr).toNat = (other - addr).toNat := by
  have addrBounded := addr.isLt
  have otherBounded := other.isLt
  rw [InPage, toNat_pageOffset] at inPage
  rw [BitVec.toNat_sub] at near
  rw [BitVec.toNat_sub, BitVec.toNat_sub, toNat_pageOffset, toNat_pageOffset]
  omega

/-- A write within a page, seen in the memory. -/
theorem puts_updatePage {write : Page → BitVec 12 → Page} {byte : ℕ → Byte}
    (inPage : InPage addr size)
    (writes : Puts (memory.pageAt (pageNum addr))
      (write (memory.pageAt (pageNum addr)) (pageOffset addr)) (pageOffset addr) size byte) :
    Puts memory.loadByte (memory.updatePage addr write).loadByte addr size byte := by
  intro target
  rw [loadByte_updatePage]
  by_cases near : (target - addr).toNat < size
  · obtain ⟨samePage, nearOffset⟩ := (near_iff inPage).1 near
    rw [if_pos samePage, if_pos near, writes, if_pos nearOffset, distance_eq inPage near]
  · rw [if_neg near]
    split
    · rename_i samePage
      have farOffset : ¬ (pageOffset target - pageOffset addr).toNat < size :=
        fun nearOffset => near ((near_iff inPage).2 ⟨samePage, nearOffset⟩)
      rw [writes, if_neg farOffset, loadByte_eq, samePage]
    · rfl

/-! Stores. -/

theorem puts_storeByte (addr : Word) (val : Byte) :
    Puts memory.loadByte (memory.storeByte addr val).loadByte addr 1 fun _ => val := by
  refine memory.puts_updatePage ?_ (Puts.update _ _ val)
  rw [InPage]
  exact (pageOffset addr).isLt

theorem puts_storeHalf (addr : Word) (val : BitVec 16) :
    Puts memory.loadByte (memory.storeHalf addr val).loadByte addr 2 (byteOf val) := by
  unfold storeHalf
  split
  · rename_i inPage
    exact memory.puts_updatePage inPage (puts_putHalf _ _ (by decide) val)
  · refine @Puts.join 64 _ _ _ addr (byteOf val) 1 (by decide)
      ((memory.puts_storeByte addr _).congr ?_) ((puts_storeByte _ (addr + 1) _).congr ?_)
    · intro index bounded
      obtain rfl : index = 0 := by omega
      simp [byteOf]
    · intro index bounded
      obtain rfl : index = 0 := by omega
      rfl

theorem puts_storeWord (addr : Word) (val : BitVec 32) :
    Puts memory.loadByte (memory.storeWord addr val).loadByte addr 4 (byteOf val) := by
  unfold storeWord
  split
  · rename_i inPage
    exact memory.puts_updatePage inPage (puts_putWord _ _ (by decide) val)
  · refine @Puts.join 64 _ _ _ addr (byteOf val) 2 (by decide)
      ((memory.puts_storeHalf addr _).congr ?_) ((puts_storeHalf _ (addr + 2) _).congr ?_)
    · intro index bounded
      exact byteOf_setWidth val (by omega)
    · intro index bounded
      rw [byteOf_setWidth _ (by omega)]
      exact byteOf_shift val 2 index

theorem puts_storeDouble (addr : Word) (val : BitVec 64) :
    Puts memory.loadByte (memory.storeDouble addr val).loadByte addr 8 (byteOf val) := by
  unfold storeDouble
  split
  · rename_i inPage
    exact memory.puts_updatePage inPage (puts_putDouble _ _ (by decide) val)
  · refine @Puts.join 64 _ _ _ addr (byteOf val) 4 (by decide)
      ((memory.puts_storeWord addr _).congr ?_) ((puts_storeWord _ (addr + 4) _).congr ?_)
    · intro index bounded
      exact byteOf_setWidth val (by omega)
    · intro index bounded
      rw [byteOf_setWidth _ (by omega)]
      exact byteOf_shift val 4 index

/-! Loads. -/

theorem onPage_eq {width : ℕ} (addr : Word) {read : Page → BitVec 12 → BitVec width}
    (zero : ∀ offset, read newPage offset = 0) :
    memory.onPage addr read = read (memory.pageAt (pageNum addr)) (pageOffset addr) := by
  rw [onPage, pageAt]
  cases memory.pages.lookup (pageNum addr) with
  | some page => rfl
  | none => exact (zero _).symm

theorem readHalf_newPage (offset : BitVec 12) : newPage.readHalf offset = 0 := by
  change (0#8 ++ 0#8 : BitVec 16) = 0
  decide

theorem readWord_newPage (offset : BitVec 12) : newPage.readWord offset = 0 := by
  rw [Page.readWord, readHalf_newPage, readHalf_newPage]
  decide

theorem readDouble_newPage (offset : BitVec 12) : newPage.readDouble offset = 0 := by
  rw [Page.readDouble, readWord_newPage, readWord_newPage]
  decide

theorem loadHalf_eq (addr : Word) : memory.loadHalf addr = getHalf memory.loadByte addr := by
  unfold loadHalf
  split
  · rename_i inPage
    rw [onPage_eq _ _ readHalf_newPage]
    apply eq_of_byteOf (show 16 = 8 * 2 from rfl)
    intro index bounded
    rw [byteOf_getHalf _ _ bounded, memory.loadByte_add inPage bounded]
    exact byteOf_getHalf _ _ bounded
  · exact or_shift_eq_append _ _

theorem loadWord_eq (addr : Word) : memory.loadWord addr = getWord memory.loadByte addr := by
  unfold loadWord
  split
  · rename_i inPage
    rw [onPage_eq _ _ readWord_newPage]
    apply eq_of_byteOf (show 32 = 8 * 4 from rfl)
    intro index bounded
    rw [byteOf_getWord _ _ bounded, memory.loadByte_add inPage bounded]
    exact byteOf_getWord _ _ bounded
  · rw [loadHalf_eq, loadHalf_eq]
    exact or_shift_eq_append _ _

theorem loadDouble_eq (addr : Word) :
    memory.loadDouble addr = getDouble memory.loadByte addr := by
  unfold loadDouble
  split
  · rename_i inPage
    rw [onPage_eq _ _ readDouble_newPage]
    apply eq_of_byteOf (show 64 = 8 * 8 from rfl)
    intro index bounded
    rw [byteOf_getDouble _ _ bounded, memory.loadByte_add inPage bounded]
    exact byteOf_getDouble _ _ bounded
  · rw [loadWord_eq, loadWord_eq]
    exact or_shift_eq_append _ _

/-! A value after a store of one. -/

theorem loadHalf_storeHalf (addr : Word) (val : BitVec 16) :
    (memory.storeHalf addr val).loadHalf addr = val := by
  rw [loadHalf_eq]
  exact (memory.puts_storeHalf addr val).getHalf_self (by decide)

theorem loadDouble_storeDouble (addr : Word) (val : BitVec 64) :
    (memory.storeDouble addr val).loadDouble addr = val := by
  rw [loadDouble_eq]
  exact (memory.puts_storeDouble addr val).getDouble_self (by decide)

theorem loadDouble_storeDouble_of_aligned (val : BitVec 64) (addrAligned : 8 ∣ addr.toNat)
    (otherAligned : 8 ∣ other.toNat) (differs : other ≠ addr) :
    (memory.storeDouble addr val).loadDouble other = memory.loadDouble other := by
  have differ : other.toNat ≠ addr.toNat := fun same => differs (BitVec.eq_of_toNat_eq same)
  have addrBounded := addr.isLt
  have otherBounded := other.isLt
  rw [loadDouble_eq, loadDouble_eq]
  apply (memory.puts_storeDouble addr val).getDouble_of_apart
  intro index bounded
  rw [BitVec.toNat_sub, BitVec.toNat_add, BitVec.toNat_ofNat]
  omega

end MetaVm.Riscv.Memory

namespace MetaVm.Riscv

open ByteOrder

/-! Memory without pages: a byte at every address. -/

abbrev FlatMemory : Type := Word → Byte

namespace FlatMemory

/-- The number in the bytes from an address on, the lowest byte first. Addresses wrap
around. -/
def load (flat : FlatMemory) (count : ℕ) (addr : Word) : ℕ :=
  Digits.value 256 count fun k => (flat (addr + BitVec.ofNat 64 k)).toNat

/-- The bytes from an address on become those of a value. -/
def store {width : ℕ} (flat : FlatMemory) (count : ℕ) (addr : Word) (val : BitVec width) :
    FlatMemory := fun target =>
  if (target - addr).toNat < count then byteOf val (target - addr).toNat else flat target

end FlatMemory

namespace Memory

variable (memory : Memory) (addr : Word)

/-- The memory that the pages stand for. -/
def flat : FlatMemory := memory.loadByte

theorem toNat_byteOf {width : ℕ} (val : BitVec width) (index : ℕ) :
    (byteOf val index).toNat = val.toNat / 256 ^ index % 256 := by
  have place : 2 ^ (8 * index) = 256 ^ index := by
    rw [pow_mul]
    norm_num
  rw [byteOf, BitVec.toNat_setWidth, BitVec.toNat_ushiftRight, Nat.shiftRight_eq_div_pow, place]

/-- A value whose bytes are those from an address on is the number there. -/
theorem toNat_eq_load {width count : ℕ} {val : BitVec width} (whole : width = 8 * count)
    (bytes : ∀ k < count, byteOf val k = memory.loadByte (addr + BitVec.ofNat 64 k)) :
    val.toNat = memory.flat.load count addr := by
  have small : val.toNat < 256 ^ count := by
    subst whole
    have bound := val.isLt
    rwa [pow_mul] at bound
  rw [FlatMemory.load, ← Digits.value_digits_of_lt small]
  apply Digits.value_congr
  intro k inside
  rw [flat, ← bytes k inside, toNat_byteOf]

theorem toNat_loadHalf : (memory.loadHalf addr).toNat = memory.flat.load 2 addr := by
  refine toNat_eq_load memory addr (show 16 = 8 * 2 from rfl) fun k inside => ?_
  rw [loadHalf_eq]
  exact byteOf_getHalf _ _ inside

theorem toNat_loadWord : (memory.loadWord addr).toNat = memory.flat.load 4 addr := by
  refine toNat_eq_load memory addr (show 32 = 8 * 4 from rfl) fun k inside => ?_
  rw [loadWord_eq]
  exact byteOf_getWord _ _ inside

theorem toNat_loadDouble : (memory.loadDouble addr).toNat = memory.flat.load 8 addr := by
  refine toNat_eq_load memory addr (show 64 = 8 * 8 from rfl) fun k inside => ?_
  rw [loadDouble_eq]
  exact byteOf_getDouble _ _ inside

/-- Loads of every width read the flat memory, and stores of every width change it as
they should and nowhere else, whatever pages there are and whether or not the access
crosses from one to the next or wraps around. -/
theorem refines_flatMemory (memory : Memory) (addr : Word) :
    ((memory.loadHalf addr).toNat = memory.flat.load 2 addr ∧
        (memory.loadWord addr).toNat = memory.flat.load 4 addr ∧
        (memory.loadDouble addr).toNat = memory.flat.load 8 addr) ∧
      (∀ val : BitVec 16, (memory.storeHalf addr val).flat = memory.flat.store 2 addr val) ∧
      (∀ val : BitVec 32, (memory.storeWord addr val).flat = memory.flat.store 4 addr val) ∧
      ∀ val : BitVec 64, (memory.storeDouble addr val).flat = memory.flat.store 8 addr val := by
  refine ⟨⟨memory.toNat_loadHalf addr, memory.toNat_loadWord addr,
    memory.toNat_loadDouble addr⟩, ?_, ?_, ?_⟩
  · intro val
    funext target
    exact memory.puts_storeHalf addr val target
  · intro val
    funext target
    exact memory.puts_storeWord addr val target
  · intro val
    funext target
    exact memory.puts_storeDouble addr val target

end Memory

end MetaVm.Riscv
