import MetaVm.Riscv.Rv64

namespace MetaVm.Riscv

/-! Byte-addressed memory in pages of 4096 bytes, little endian. A page that
was never written reads as zero. -/

abbrev Byte : Type := BitVec 8

abbrev Page : Type := BitVec 12 → Byte

def newPage : Page := fun _ => 0

namespace Page

def readHalf (page : Page) (offset : BitVec 12) : BitVec 16 :=
  page (offset + 1) ++ page offset

def readWord (page : Page) (offset : BitVec 12) : BitVec 32 :=
  page.readHalf (offset + 2) ++ page.readHalf offset

def readDouble (page : Page) (offset : BitVec 12) : BitVec 64 :=
  page.readWord (offset + 4) ++ page.readWord offset

def writeByte (page : Page) (offset : BitVec 12) (val : Byte) : Page :=
  Function.update page offset val

def writeHalf (page : Page) (offset : BitVec 12) (val : BitVec 16) : Page :=
  (page.writeByte offset (val.setWidth 8)).writeByte (offset + 1)
    ((val >>> 8).setWidth 8)

def writeWord (page : Page) (offset : BitVec 12) (val : BitVec 32) : Page :=
  (page.writeHalf offset (val.setWidth 16)).writeHalf (offset + 2)
    ((val >>> 16).setWidth 16)

def writeDouble (page : Page) (offset : BitVec 12) (val : BitVec 64) : Page :=
  (page.writeWord offset (val.setWidth 32)).writeWord (offset + 4)
    ((val >>> 32).setWidth 32)

end Page

structure Memory where
  pages : Finmap fun _ : Word => Page
  dirty : Finset Word

namespace Memory

def new : Memory := ⟨∅, ∅⟩

def pageNum (addr : Word) : Word := addr >>> 12

def pageOffset (addr : Word) : BitVec 12 := addr.setWidth 12

/-- An access of `size` bytes at `addr` that stays within one page. -/
def InPage (addr : Word) (size : ℕ) : Prop := (pageOffset addr).toNat + size ≤ 4096

instance (addr : Word) (size : ℕ) : Decidable (InPage addr size) :=
  inferInstanceAs (Decidable (_ ≤ _))

/-- Read from the page of `addr`, zero when it is not allocated. -/
def onPage {width : ℕ} (memory : Memory) (addr : Word)
    (read : Page → BitVec 12 → BitVec width) : BitVec width :=
  match memory.pages.lookup (pageNum addr) with
  | some page => read page (pageOffset addr)
  | none => 0

/-- Change the page of `addr`, allocating it first, and mark it dirty. -/
def updatePage (memory : Memory) (addr : Word)
    (write : Page → BitVec 12 → Page) : Memory where
  pages := memory.pages.insert (pageNum addr)
    (write ((memory.pages.lookup (pageNum addr)).getD newPage) (pageOffset addr))
  dirty := insert (pageNum addr) memory.dirty

def loadByte (memory : Memory) (addr : Word) : Byte :=
  memory.onPage addr fun page offset => page offset

def storeByte (memory : Memory) (addr : Word) (val : Byte) : Memory :=
  memory.updatePage addr fun page offset => page.writeByte offset val

def loadHalf (memory : Memory) (addr : Word) : BitVec 16 :=
  if InPage addr 2 then memory.onPage addr Page.readHalf
  else
    (memory.loadByte addr).setWidth 16 |||
      (memory.loadByte (addr + 1)).setWidth 16 <<< 8

def storeHalf (memory : Memory) (addr : Word) (val : BitVec 16) : Memory :=
  if InPage addr 2 then
    memory.updatePage addr fun page offset => page.writeHalf offset val
  else
    (memory.storeByte addr (val.setWidth 8)).storeByte (addr + 1)
      ((val >>> 8).setWidth 8)

def loadWord (memory : Memory) (addr : Word) : BitVec 32 :=
  if InPage addr 4 then memory.onPage addr Page.readWord
  else
    (memory.loadHalf addr).setWidth 32 |||
      (memory.loadHalf (addr + 2)).setWidth 32 <<< 16

def storeWord (memory : Memory) (addr : Word) (val : BitVec 32) : Memory :=
  if InPage addr 4 then
    memory.updatePage addr fun page offset => page.writeWord offset val
  else
    (memory.storeHalf addr (val.setWidth 16)).storeHalf (addr + 2)
      ((val >>> 16).setWidth 16)

def loadDouble (memory : Memory) (addr : Word) : BitVec 64 :=
  if InPage addr 8 then memory.onPage addr Page.readDouble
  else
    (memory.loadWord addr).setWidth 64 |||
      (memory.loadWord (addr + 4)).setWidth 64 <<< 32

def storeDouble (memory : Memory) (addr : Word) (val : BitVec 64) : Memory :=
  if InPage addr 8 then
    memory.updatePage addr fun page offset => page.writeDouble offset val
  else
    (memory.storeWord addr (val.setWidth 32)).storeWord (addr + 4)
      ((val >>> 32).setWidth 32)

end Memory

end MetaVm.Riscv
