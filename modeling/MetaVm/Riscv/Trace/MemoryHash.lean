import Mathlib
import MetaVm.Lib.DirtyCache
import MetaVm.Lib.Framing
import MetaVm.Riscv.Machine.Memory

namespace MetaVm.Riscv

open DirtyCache Framing

/-- Overwrite a page from `offset` on, as far as it reaches. -/
def Page.writeBytes (page : Page) (offset : BitVec 12) (bytes : List Byte) : Page :=
  fun index =>
    if offset ≤ index then (bytes[(index - offset).toNat]?).getD (page index)
    else page index

namespace Memory

/-- Copy raw bytes into memory, page by page. -/
def loadProgram (memory : Memory) (addr : Word) : List Byte → Memory
  | [] => memory
  | byte :: bytes =>
      let n := min (bytes.length + 1) (4096 - (pageOffset addr).toNat)
      (memory.updatePage addr fun page offset =>
        page.writeBytes offset ((byte :: bytes).take n)).loadProgram
        (addr + BitVec.ofNat 64 n) ((byte :: bytes).drop n)
termination_by bytes => bytes.length
decreasing_by
  have inside : (pageOffset addr).toNat < 4096 := (pageOffset addr).isLt
  simp only [List.length_drop, List.length_cons]
  omega

def pageNumbers (memory : Memory) : List Word := memory.pages.keys.sort

def clearDirty (memory : Memory) : Memory := { memory with dirty := ∅ }

/-- One memory comes from another by writes that mark what they touch. -/
def Writes (memory next : Memory) : Prop :=
  DirtyCache.Writes memory.pages next.pages memory.dirty next.dirty

theorem Writes.trans {memory next last : Memory} (first : memory.Writes next)
    (second : next.Writes last) : memory.Writes last :=
  DirtyCache.Writes.trans first second

theorem writes_updatePage (memory : Memory) (addr : Word)
    (write : Page → BitVec 12 → Page) : memory.Writes (memory.updatePage addr write) :=
  writes_insert memory.pages memory.dirty _ _

theorem writes_storeByte (memory : Memory) (addr : Word) (val : Byte) :
    memory.Writes (memory.storeByte addr val) :=
  memory.writes_updatePage addr _

theorem writes_storeHalf (memory : Memory) (addr : Word) (val : BitVec 16) :
    memory.Writes (memory.storeHalf addr val) := by
  unfold storeHalf
  split
  · exact memory.writes_updatePage addr _
  · exact (memory.writes_storeByte _ _).trans (writes_storeByte _ _ _)

theorem writes_storeWord (memory : Memory) (addr : Word) (val : BitVec 32) :
    memory.Writes (memory.storeWord addr val) := by
  unfold storeWord
  split
  · exact memory.writes_updatePage addr _
  · exact (memory.writes_storeHalf _ _).trans (writes_storeHalf _ _ _)

theorem writes_storeDouble (memory : Memory) (addr : Word) (val : BitVec 64) :
    memory.Writes (memory.storeDouble addr val) := by
  unfold storeDouble
  split
  · exact memory.writes_updatePage addr _
  · exact (memory.writes_storeWord _ _).trans (writes_storeWord _ _ _)

theorem writes_loadProgram (memory : Memory) (addr : Word) (bytes : List Byte) :
    memory.Writes (memory.loadProgram addr bytes) := by
  induction memory, addr, bytes using loadProgram.induct with
  | case1 memory addr =>
      rw [loadProgram]
      exact DirtyCache.Writes.refl memory.pages memory.dirty
  | case2 memory addr byte bytes n ih =>
      rw [loadProgram]
      exact (memory.writes_updatePage addr _).trans ih

end Memory

/-! The incremental hash of a memory. The hash function is a parameter: nothing
depends on which one it is. -/

abbrev Digest : Type := List Byte

/-- An order in which a hash set is iterated. -/
structure SetOrder where
  toList : Finset Word → List Word
  mem_toList : ∀ pages page, page ∈ toList pages ↔ page ∈ pages

def SetOrder.sorted : SetOrder where
  toList pages := pages.sort
  mem_toList _ _ := Finset.mem_sort _

/-- The bytes of a page from its first to its last. -/
def pageBytes (page : Page) : List Byte :=
  (List.range 4096).map fun index => page (BitVec.ofNat 12 index)

def pageHash (sha3 : List Byte → Digest) (pageNum : Word) (page : Page) : Digest :=
  sha3 (littleEndian 8 pageNum.toNat ++ pageBytes page)

structure IncrementalMemoryHash where
  pageHashes : Finmap fun _ : Word => Digest

namespace IncrementalMemoryHash

variable (sha3 : List Byte → Digest) (order : SetOrder)

def new : IncrementalMemoryHash := ⟨∅⟩

/-- The page hashes together, in the order of the page numbers. -/
def combine (hasher : IncrementalMemoryHash) : Digest :=
  let sortedPages := hasher.pageHashes.keys.sort
  sha3 (littleEndian 8 sortedPages.length ++
    sortedPages.flatMap fun pageNum => (hasher.pageHashes.lookup pageNum).getD [])

/-- Hash some pages of a memory again. -/
def rehash (hasher : IncrementalMemoryHash) (memory : Memory) (pages : List Word) :
    IncrementalMemoryHash :=
  ⟨refresh (pageHash sha3) memory.pages hasher.pageHashes pages⟩

def update (hasher : IncrementalMemoryHash) (memory : Memory) :
    Digest × IncrementalMemoryHash × Memory :=
  let hasher := hasher.rehash sha3 memory (order.toList memory.dirty)
  (hasher.combine sha3, hasher, memory.clearDirty)

def initializeFrom (_ : IncrementalMemoryHash) (memory : Memory) :
    Digest × IncrementalMemoryHash :=
  let hasher := new.rehash sha3 memory memory.pageNumbers
  (hasher.combine sha3, hasher)

end IncrementalMemoryHash

/-! Writes to the memory between updates of its hash. -/

inductive MemoryWrite
  | byte (addr : Word) (val : Byte)
  | half (addr : Word) (val : BitVec 16)
  | word (addr : Word) (val : BitVec 32)
  | double (addr : Word) (val : BitVec 64)
  | program (baseAddr : Word) (bytes : List Byte)

def MemoryWrite.apply (memory : Memory) : MemoryWrite → Memory
  | byte addr val => memory.storeByte addr val
  | half addr val => memory.storeHalf addr val
  | word addr val => memory.storeWord addr val
  | double addr val => memory.storeDouble addr val
  | program baseAddr bytes => memory.loadProgram baseAddr bytes

theorem MemoryWrite.writes (memory : Memory) (write : MemoryWrite) :
    memory.Writes (write.apply memory) := by
  cases write with
  | byte addr val => exact memory.writes_storeByte addr val
  | half addr val => exact memory.writes_storeHalf addr val
  | word addr val => exact memory.writes_storeWord addr val
  | double addr val => exact memory.writes_storeDouble addr val
  | program baseAddr bytes => exact memory.writes_loadProgram baseAddr bytes

inductive HashOp
  | write (write : MemoryWrite)
  | update

/-- A memory with the hash that follows it. -/
structure HashedMemory where
  memory : Memory
  hasher : IncrementalMemoryHash

namespace HashedMemory

variable (sha3 : List Byte → Digest) (order : SetOrder)

/-- The state after hashing the whole memory and `clear_dirty`. -/
def start (hasher : IncrementalMemoryHash) (memory : Memory) : HashedMemory :=
  ⟨memory.clearDirty, (hasher.initializeFrom sha3 memory).2⟩

def step (state : HashedMemory) : HashOp → HashedMemory
  | .write write => { state with memory := write.apply state.memory }
  | .update =>
      let (_, hasher, memory) := state.hasher.update sha3 order state.memory
      ⟨memory, hasher⟩

def run (state : HashedMemory) (ops : List HashOp) : HashedMemory :=
  ops.foldl (step sha3 order) state

/-- Every page that is not dirty has its hash cached. -/
def Tracked (state : HashedMemory) : Prop :=
  Fresh (pageHash sha3) state.memory.pages state.hasher.pageHashes state.memory.dirty

variable {sha3 order} {state : HashedMemory}

theorem initializeFrom_fresh (hasher : IncrementalMemoryHash) (memory : Memory) :
    Fresh (pageHash sha3) memory.pages (hasher.initializeFrom sha3 memory).2.pageHashes ∅ := by
  apply (fresh_empty (pageHash sha3) memory.pages).refresh
  intro page allocated
  exact (Finset.mem_sort (· ≤ ·)).2 allocated

theorem start_tracked (hasher : IncrementalMemoryHash) (memory : Memory) :
    (start sha3 hasher memory).Tracked sha3 :=
  initializeFrom_fresh hasher memory

theorem Tracked.rehash (tracked : state.Tracked sha3) :
    Fresh (pageHash sha3) state.memory.pages
      (state.hasher.rehash sha3 state.memory
        (order.toList state.memory.dirty)).pageHashes ∅ :=
  Fresh.refresh tracked fun page => (order.mem_toList _ page).2

theorem Tracked.step (tracked : state.Tracked sha3) (op : HashOp) :
    (state.step sha3 order op).Tracked sha3 := by
  cases op with
  | write write => exact Fresh.writes tracked (write.writes state.memory)
  | update => exact tracked.rehash

theorem Tracked.run (tracked : state.Tracked sha3) (ops : List HashOp) :
    (state.run sha3 order ops).Tracked sha3 := by
  induction ops generalizing state with
  | nil => exact tracked
  | cons op ops ih => exact ih (tracked.step op)

/-- After any writes and updates the next update returns what hashing the whole
memory afresh returns. -/
theorem update_eq_initializeFrom (sha3 : List Byte → Digest) (order : SetOrder)
    (hasher fresh : IncrementalMemoryHash) (memory : Memory) (ops : List HashOp) :
    let state := (start sha3 hasher memory).run sha3 order ops
    (state.hasher.update sha3 order state.memory).1 =
      (fresh.initializeFrom sha3 state.memory).1 := by
  intro state
  have tracked : state.Tracked sha3 := (start_tracked hasher memory).run ops
  have same := (@Tracked.rehash _ order _ tracked).unique
    (initializeFrom_fresh fresh state.memory)
  exact congrArg (fun hashes => IncrementalMemoryHash.combine sha3 ⟨hashes⟩) same

end HashedMemory

end MetaVm.Riscv
