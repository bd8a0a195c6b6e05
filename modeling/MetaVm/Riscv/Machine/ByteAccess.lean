import MetaVm.Riscv.Machine.Bytes
import MetaVm.Riscv.Machine.Effects

namespace MetaVm

namespace ByteOrder

/-- The value of some bytes, the lowest first. -/
def ofBytes (width : ℕ) : List (BitVec 8) → BitVec width
  | [] => 0
  | byte :: rest => byte.setWidth width ||| ofBytes width rest <<< 8

theorem byteOf_ofBytes {width : ℕ} (bytes : List (BitVec 8)) {index : ℕ}
    (inside : 8 * index + 8 ≤ width) :
    byteOf (ofBytes width bytes) index = bytes.getD index 0 := by
  induction bytes generalizing index with
  | nil => simp [ofBytes, byteOf]
  | cons byte rest hypothesis =>
      cases index with
      | zero =>
          apply BitVec.eq_of_getLsbD_eq
          intro bit bounded
          have inWord : bit < width := by omega
          simp [ofBytes, byteOf, bounded, inWord]
      | succ index =>
          rw [List.getD_cons_succ, ← hypothesis (by omega)]
          apply BitVec.eq_of_getLsbD_eq
          intro bit bounded
          have inWord : 8 * (index + 1) + bit < width := by omega
          have above : ¬ 8 * (index + 1) + bit < 8 := by omega
          have position : 8 * (index + 1) + bit - 8 = 8 * index + bit := by omega
          simp only [ofBytes, byteOf, BitVec.getLsbD_setWidth, BitVec.getLsbD_ushiftRight,
            BitVec.getLsbD_or, BitVec.getLsbD_shiftLeft, decide_eq_true inWord,
            decide_eq_true bounded, decide_eq_false above, position,
            BitVec.getLsbD_of_ge byte _ (Nat.not_lt.1 above)]
          simp

/-- A value is the value of its bytes. -/
theorem eq_ofBytes {width count : ℕ} (whole : width = 8 * count) {val : BitVec width}
    {bytes : List (BitVec 8)} (same : ∀ index < count, byteOf val index = bytes.getD index 0) :
    val = ofBytes width bytes := by
  apply eq_of_byteOf whole
  intro index bounded
  rw [same index bounded, byteOf_ofBytes bytes (by omega)]

theorem ofBytes_append {half count : ℕ} (whole : half = 8 * count) {low high : List (BitVec 8)}
    (long : low.length = count) :
    ofBytes half high ++ ofBytes half low = ofBytes (half + half) (low ++ high) := by
  apply @eq_ofBytes _ (count + count) (by omega)
  intro index bounded
  rw [byteOf_append _ _ whole]
  split
  · rename_i below
    rw [byteOf_ofBytes low (by omega), List.getD_append _ _ _ _ (by omega)]
  · rename_i above
    rw [byteOf_ofBytes high (by omega), List.getD_append_right _ _ _ _ (by omega), long]

end ByteOrder

namespace Riscv

open ByteOrder

/-- The addresses of consecutive bytes. -/
def bytesFrom (addr : Word) (count : ℕ) : List Word :=
  (List.range count).map fun index => addr + BitVec.ofNat 64 index

theorem bytesFrom_add (addr : Word) (first second : ℕ) :
    bytesFrom addr (first + second) =
      bytesFrom addr first ++ bytesFrom (addr + BitVec.ofNat 64 first) second := by
  rw [bytesFrom, List.range_add, List.map_append, List.map_map]
  congr 1
  apply List.map_congr_left
  intro index _
  rw [Function.comp_apply, BitVec.ofNat_add, BitVec.add_assoc]

theorem bytesFrom_single (addr : Word) : bytesFrom addr 1 = [addr] := by simp [bytesFrom]

theorem bytesFrom_length (addr : Word) (count : ℕ) : (bytesFrom addr count).length = count := by
  rw [bytesFrom, List.length_map, List.length_range]

namespace Memory

/-! A store as stores of its bytes. -/

theorem updatePage_updatePage (memory : Memory) {addr other : Word}
    (samePage : pageNum other = pageNum addr) (first second : Page → BitVec 12 → Page) :
    (memory.updatePage addr first).updatePage other second =
      memory.updatePage addr fun page offset => second (first page offset) (pageOffset other) := by
  unfold updatePage
  generalize pageNum other = num at samePage ⊢
  subst samePage
  simp only [Finmap.lookup_insert, Option.getD_some, Finmap.insert_insert, Finset.insert_idem]

/-- The address of a later byte of an access that stays in its page. -/
theorem next_of_inPage {addr : Word} {size index : ℕ} (inPage : InPage addr size)
    (inside : index < size) :
    pageNum (addr + BitVec.ofNat 64 index) = pageNum addr ∧
      pageOffset (addr + BitVec.ofNat 64 index) = pageOffset addr + BitVec.ofNat 12 index := by
  have bounded := addr.isLt
  rw [InPage, toNat_pageOffset] at inPage
  constructor
  · apply BitVec.eq_of_toNat_eq
    rw [toNat_pageNum, toNat_pageNum, BitVec.toNat_add, BitVec.toNat_ofNat]
    omega
  · apply BitVec.eq_of_toNat_eq
    rw [toNat_pageOffset, BitVec.toNat_add, BitVec.toNat_add, toNat_pageOffset,
      BitVec.toNat_ofNat, BitVec.toNat_ofNat]
    omega

theorem storeHalf_eq (memory : Memory) (addr : Word) (val : BitVec 16) :
    memory.storeHalf addr val =
      (memory.storeByte addr (val.setWidth 8)).storeByte (addr + 1) ((val >>> 8).setWidth 8) := by
  unfold storeHalf
  split
  · rename_i inPage
    obtain ⟨samePage, offset⟩ := next_of_inPage inPage Nat.one_lt_two
    refine Eq.trans ?_ (updatePage_updatePage memory samePage _ _).symm
    rw [offset]
    rfl
  · rfl

/-- The halves of an access that stays in its page. -/
theorem halves_of_inPage {addr : Word} {half : ℕ} (some : 0 < half)
    (inPage : InPage addr (half + half)) :
    InPage addr half ∧ InPage (addr + BitVec.ofNat 64 half) half := by
  have bounded := addr.isLt
  rw [InPage, toNat_pageOffset] at inPage
  rw [InPage, InPage, toNat_pageOffset, toNat_pageOffset, BitVec.toNat_add, BitVec.toNat_ofNat]
  omega

theorem storeWord_eq (memory : Memory) (addr : Word) (val : BitVec 32) :
    memory.storeWord addr val =
      (memory.storeHalf addr (val.setWidth 16)).storeHalf (addr + 2)
        ((val >>> 16).setWidth 16) := by
  unfold storeWord
  split
  · rename_i inPage
    obtain ⟨samePage, offset⟩ := @next_of_inPage addr 4 2 inPage (by decide)
    obtain ⟨low, high⟩ := @halves_of_inPage addr 2 (by decide) inPage
    have later : ∀ (memory : Memory) (upper : BitVec 16), memory.storeHalf (addr + 2) upper =
        memory.updatePage (addr + 2) fun page offset => page.writeHalf offset upper :=
      fun _ _ => if_pos high
    rw [later, storeHalf, if_pos low]
    refine Eq.trans ?_ (updatePage_updatePage memory samePage _ _).symm
    rw [offset]
    rfl
  · rfl

theorem storeDouble_eq (memory : Memory) (addr : Word) (val : BitVec 64) :
    memory.storeDouble addr val =
      (memory.storeWord addr (val.setWidth 32)).storeWord (addr + 4)
        ((val >>> 32).setWidth 32) := by
  unfold storeDouble
  split
  · rename_i inPage
    obtain ⟨samePage, offset⟩ := @next_of_inPage addr 8 4 inPage (by decide)
    obtain ⟨low, high⟩ := @halves_of_inPage addr 4 (by decide) inPage
    have later : ∀ (memory : Memory) (upper : BitVec 32), memory.storeWord (addr + 4) upper =
        memory.updatePage (addr + 4) fun page offset => page.writeWord offset upper :=
      fun _ _ => if_pos high
    rw [later, storeWord, if_pos low]
    refine Eq.trans ?_ (updatePage_updatePage memory samePage _ _).symm
    rw [offset]
    rfl
  · rfl

end Memory

namespace Vm

/-! Accesses as accesses of their bytes, one after another. One that starts in RAM passes the
devices by. -/

def readByteAt (ram : Bool) (vm : Vm) (addr : Word) : Byte × Vm :=
  if ram then (vm.memory.loadByte addr, vm) else vm.mmioLoadByte addr

def readBytes (ram : Bool) : Vm → List Word → List Byte × Vm
  | vm, [] => ([], vm)
  | vm, addr :: rest =>
      let (byte, vm) := readByteAt ram vm addr
      let (bytes, vm) := readBytes ram vm rest
      (byte :: bytes, vm)

def writeByteAt (ram : Bool) (vm : Vm) (addr : Word) (val : Byte) : Vm :=
  if ram then { vm with memory := vm.memory.storeByte addr val } else vm.mmioStoreByte addr val

/-- Write the bytes of a value, the lowest first. -/
def writeBytes {width : ℕ} (ram : Bool) : Vm → List Word → BitVec width → Vm
  | vm, [], _ => vm
  | vm, addr :: rest, val =>
      writeBytes ram (writeByteAt ram vm addr (val.setWidth 8)) rest (val >>> 8)

section Reads

variable {ram : Bool} {vm : Vm} {addr : Word}

theorem readBytes_length (vm : Vm) (addresses : List Word) :
    (readBytes ram vm addresses).1.length = addresses.length := by
  induction addresses generalizing vm with
  | nil => rfl
  | cons addr rest hypothesis => exact congrArg (· + 1) (hypothesis _)

theorem readBytes_append (vm : Vm) (first second : List Word) :
    readBytes ram vm (first ++ second) =
      ((readBytes ram vm first).1 ++ (readBytes ram (readBytes ram vm first).2 second).1,
        (readBytes ram (readBytes ram vm first).2 second).2) := by
  induction first generalizing vm with
  | nil => rfl
  | cons addr rest hypothesis =>
      simp only [List.cons_append, readBytes, hypothesis]

/-- In RAM the bytes are those of the memory. -/
theorem readBytes_ram (vm : Vm) (addresses : List Word) :
    readBytes true vm addresses = (addresses.map vm.memory.loadByte, vm) := by
  induction addresses with
  | nil => rfl
  | cons addr rest hypothesis =>
      simp only [readBytes, readByteAt, if_true, hypothesis, List.map_cons]

theorem map_bytesFrom_getD (read : Word → Byte) (addr : Word) {count index : ℕ}
    (inside : index < count) :
    ((bytesFrom addr count).map read).getD index 0 = read (addr + BitVec.ofNat 64 index) := by
  simp [bytesFrom, List.getD_eq_getElem?_getD, inside]

theorem loadHalf_bytes (memory : Memory) (addr : Word) :
    memory.loadHalf addr = ofBytes 16 ((bytesFrom addr 2).map memory.loadByte) := by
  apply eq_ofBytes (show 16 = 8 * 2 from rfl)
  intro index bounded
  rw [memory.loadHalf_eq, byteOf_getHalf _ _ bounded, map_bytesFrom_getD _ _ bounded]

theorem loadWord_bytes (memory : Memory) (addr : Word) :
    memory.loadWord addr = ofBytes 32 ((bytesFrom addr 4).map memory.loadByte) := by
  apply eq_ofBytes (show 32 = 8 * 4 from rfl)
  intro index bounded
  rw [memory.loadWord_eq, byteOf_getWord _ _ bounded, map_bytesFrom_getD _ _ bounded]

theorem loadDouble_bytes (memory : Memory) (addr : Word) :
    memory.loadDouble addr = ofBytes 64 ((bytesFrom addr 8).map memory.loadByte) := by
  apply eq_ofBytes (show 64 = 8 * 8 from rfl)
  intro index bounded
  rw [memory.loadDouble_eq, byteOf_getDouble _ _ bounded, map_bytesFrom_getD _ _ bounded]

/-- Above the RAM base no device answers. -/
theorem readBytes_high (vm : Vm) {addresses : List Word}
    (high : ∀ addr ∈ addresses, ramBase ≤ addr) :
    readBytes false vm addresses = readBytes true vm addresses := by
  induction addresses with
  | nil => rfl
  | cons addr rest hypothesis =>
      have here : readByteAt false vm addr = readByteAt true vm addr := by
        rw [readByteAt, if_neg Bool.false_ne_true, mmioLoadByte, if_pos (high addr (by simp))]
        rfl
      have later := hypothesis fun other inside => high other (List.mem_cons_of_mem addr inside)
      rw [readBytes_ram] at later
      rw [readBytes_ram, readBytes, here, readByteAt, if_pos rfl]
      dsimp only
      rw [later]
      rfl

theorem bytesFrom_high {count : ℕ} (high : ramBase ≤ addr) (fits : addr.toNat + count ≤ 2 ^ 64) :
    ∀ other ∈ bytesFrom addr count, ramBase ≤ other := by
  intro other inside
  obtain ⟨index, bounded, rfl⟩ := List.mem_map.1 inside
  have below := List.mem_range.1 bounded
  rw [BitVec.le_def] at high ⊢
  rw [BitVec.toNat_add, BitVec.toNat_ofNat]
  omega

/-- What an access reads and the machine it leaves, from the bytes. -/
def readValue (width : ℕ) (ram : Bool) (vm : Vm) (addresses : List Word) : BitVec width × Vm :=
  let (bytes, vm) := readBytes ram vm addresses
  (ofBytes width bytes, vm)

theorem readValue_ram (width : ℕ) (vm : Vm) (addresses : List Word) :
    readValue width true vm addresses = (ofBytes width (addresses.map vm.memory.loadByte), vm) := by
  rw [readValue, readBytes_ram]

theorem readValue_append {half count : ℕ} (whole : half = 8 * count) (vm : Vm)
    {first : List Word} (second : List Word) (long : first.length = count) :
    readValue (half + half) ram vm (first ++ second) =
      let (low, vm) := readValue half ram vm first
      let (high, vm) := readValue half ram vm second
      (low.setWidth (half + half) ||| high.setWidth (half + half) <<< half, vm) := by
  have same := (@readBytes_length ram vm first).trans long
  simp only [readValue, readBytes_append]
  rw [or_shift_eq_append, ofBytes_append whole same]

theorem readValue_byte (ram : Bool) (vm : Vm) (addr : Word) :
    readValue 8 ram vm [addr] = readByteAt ram vm addr := by
  have whole : ∀ byte : Byte, ofBytes 8 [byte] = byte := by
    intro byte
    simp [ofBytes]
  rw [readValue, readBytes]
  exact Prod.ext (whole _) rfl

/-- Above the RAM base a value comes from the memory. -/
theorem readValue_high (width : ℕ) {count : ℕ} (vm : Vm) (high : ramBase ≤ addr)
    (fits : addr.toNat + count ≤ 2 ^ 64) :
    readValue width false vm (bytesFrom addr count) =
      (ofBytes width ((bytesFrom addr count).map vm.memory.loadByte), vm) := by
  rw [← readValue_ram, readValue, readBytes_high vm (bytesFrom_high high fits)]
  rfl

theorem mmioLoadHalf_slow (vm : Vm) (fits : addr.toNat + 2 ≤ 2 ^ 64) :
    vm.mmioLoadHalf addr = readValue 16 false vm (bytesFrom addr 2) := by
  unfold mmioLoadHalf
  split
  · rename_i high
    rw [readValue_high 16 vm high fits, loadHalf_bytes]
  · rw [bytesFrom_add addr 1 1]
    refine Eq.trans ?_ (@readValue_append false 8 1 rfl vm _ _ (bytesFrom_length addr 1)).symm
    simp only [bytesFrom_single, readValue_byte]
    rfl

theorem mmioLoadWord_slow (vm : Vm) (fits : addr.toNat + 4 ≤ 2 ^ 64) :
    vm.mmioLoadWord addr = readValue 32 false vm (bytesFrom addr 4) := by
  unfold mmioLoadWord
  split
  · rename_i high
    rw [readValue_high 32 vm high fits, loadWord_bytes]
  · have later : (addr + 2).toNat + 2 ≤ 2 ^ 64 := by
      rw [BitVec.toNat_add]
      exact Nat.le_of_lt_succ (by simp; omega)
    rw [bytesFrom_add addr 2 2]
    refine Eq.trans ?_ (@readValue_append false 16 2 rfl vm _ _ (bytesFrom_length addr 2)).symm
    rw [mmioLoadHalf_slow vm (by omega)]
    dsimp only
    rw [mmioLoadHalf_slow _ later]
    rfl

theorem mmioLoadDouble_slow (vm : Vm) (fits : addr.toNat + 8 ≤ 2 ^ 64) :
    vm.mmioLoadDouble addr = readValue 64 false vm (bytesFrom addr 8) := by
  unfold mmioLoadDouble
  split
  · rename_i high
    rw [readValue_high 64 vm high fits, loadDouble_bytes]
  · have later : (addr + 4).toNat + 4 ≤ 2 ^ 64 := by
      rw [BitVec.toNat_add]
      exact Nat.le_of_lt_succ (by simp; omega)
    rw [bytesFrom_add addr 4 4]
    refine Eq.trans ?_ (@readValue_append false 32 4 rfl vm _ _ (bytesFrom_length addr 4)).symm
    rw [mmioLoadWord_slow vm (by omega)]
    dsimp only
    rw [mmioLoadWord_slow _ later]
    rfl

/-- An access that starts at this address passes the devices by. -/
def startsInRam (addr : Word) : Bool := ramBase ≤ addr

theorem below_ramBase (low : ¬ ramBase ≤ addr) {count : ℕ} (short : count ≤ 8) :
    addr.toNat + count ≤ 2 ^ 64 := by
  have bounded : addr.toNat < 0x80000000 := Nat.lt_of_not_le low
  omega

theorem mmioLoadByte_eq (vm : Vm) (addr : Word) :
    vm.mmioLoadByte addr = readValue 8 (startsInRam addr) vm (bytesFrom addr 1) := by
  rw [bytesFrom_single, readValue_byte, readByteAt, startsInRam]
  by_cases high : ramBase ≤ addr
  · rw [decide_eq_true high, if_pos rfl, mmioLoadByte, if_pos high]
  · rw [decide_eq_false high, if_neg Bool.false_ne_true]

theorem mmioLoadHalf_eq (vm : Vm) (addr : Word) :
    vm.mmioLoadHalf addr = readValue 16 (startsInRam addr) vm (bytesFrom addr 2) := by
  by_cases high : ramBase ≤ addr
  · rw [startsInRam, decide_eq_true high, readValue_ram, mmioLoadHalf, if_pos high, loadHalf_bytes]
  · rw [startsInRam, decide_eq_false high]
    exact mmioLoadHalf_slow vm (below_ramBase high (by decide))

theorem mmioLoadWord_eq (vm : Vm) (addr : Word) :
    vm.mmioLoadWord addr = readValue 32 (startsInRam addr) vm (bytesFrom addr 4) := by
  by_cases high : ramBase ≤ addr
  · rw [startsInRam, decide_eq_true high, readValue_ram, mmioLoadWord, if_pos high, loadWord_bytes]
  · rw [startsInRam, decide_eq_false high]
    exact mmioLoadWord_slow vm (below_ramBase high (by decide))

theorem mmioLoadDouble_eq (vm : Vm) (addr : Word) :
    vm.mmioLoadDouble addr = readValue 64 (startsInRam addr) vm (bytesFrom addr 8) := by
  by_cases high : ramBase ≤ addr
  · rw [startsInRam, decide_eq_true high, readValue_ram, mmioLoadDouble, if_pos high,
      loadDouble_bytes]
  · rw [startsInRam, decide_eq_false high]
    exact mmioLoadDouble_slow vm (below_ramBase high (by decide))

end Reads

section Writes

variable {ram : Bool} {vm : Vm} {addr : Word} {width other : ℕ}

/-- Only the bytes that there are addresses for matter. -/
theorem writeBytes_congr (vm : Vm) {addresses : List Word} {val : BitVec width}
    {same : BitVec other} (agree : ∀ index < addresses.length,
      ByteOrder.byteOf val index = ByteOrder.byteOf same index) :
    writeBytes ram vm addresses val = writeBytes ram vm addresses same := by
  induction addresses generalizing vm val same with
  | nil => rfl
  | cons addr rest hypothesis =>
      have first : val.setWidth 8 = same.setWidth 8 := by
        have lowest := agree 0 (Nat.zero_lt_succ _)
        simpa [ByteOrder.byteOf] using lowest
      rw [writeBytes, writeBytes, first]
      apply hypothesis
      intro index bounded
      have shifted := agree (1 + index) (by rw [List.length_cons]; omega)
      rwa [← byteOf_shift, ← byteOf_shift] at shifted

theorem writeBytes_append (vm : Vm) (first second : List Word) (val : BitVec width) :
    writeBytes ram vm (first ++ second) val =
      writeBytes ram (writeBytes ram vm first val) second (val >>> (8 * first.length)) := by
  induction first generalizing vm val with
  | nil => simp [writeBytes]
  | cons addr rest hypothesis =>
      rw [List.cons_append, writeBytes, writeBytes, hypothesis, ← BitVec.shiftRight_add,
        List.length_cons]
      congr 2
      omega

theorem writeBytes_high (vm : Vm) {addresses : List Word} (val : BitVec width)
    (high : ∀ addr ∈ addresses, ramBase ≤ addr) :
    writeBytes false vm addresses val = writeBytes true vm addresses val := by
  induction addresses generalizing vm val with
  | nil => rfl
  | cons addr rest hypothesis =>
      have here : ∀ byte, writeByteAt false vm addr byte = writeByteAt true vm addr byte := by
        intro byte
        rw [writeByteAt, if_neg Bool.false_ne_true, mmioStoreByte, if_pos (high addr (by simp))]
        rfl
      rw [writeBytes, writeBytes, here]
      exact hypothesis _ _ fun other inside => high other (List.mem_cons_of_mem addr inside)

/-- A value written half by half. -/
theorem writeBytes_halves {half count : ℕ} (whole : half = 8 * count) (vm : Vm)
    {first second : List Word} (long : first.length = count) (short : second.length = count)
    (val : BitVec (half + half)) :
    writeBytes ram vm (first ++ second) val =
      writeBytes ram (writeBytes ram vm first (val.setWidth half)) second
        ((val >>> half).setWidth half) := by
  have low : writeBytes ram vm first val = writeBytes ram vm first (val.setWidth half) := by
    apply writeBytes_congr
    intro index bounded
    exact (byteOf_setWidth val (by omega)).symm
  rw [writeBytes_append, low, long, ← whole]
  apply writeBytes_congr
  intro index bounded
  exact (byteOf_setWidth _ (by omega)).symm

theorem storeHalf_bytes (vm : Vm) (addr : Word) (val : BitVec 16) :
    { vm with memory := vm.memory.storeHalf addr val } =
      writeBytes true vm (bytesFrom addr 2) val := by
  rw [bytesFrom_add addr 1 1, @writeBytes_halves true 8 1 rfl vm _ _ (bytesFrom_length _ 1)
    (bytesFrom_length _ 1), bytesFrom_single, bytesFrom_single, Memory.storeHalf_eq]
  simp [writeBytes, writeByteAt]

theorem storeWord_bytes (vm : Vm) (addr : Word) (val : BitVec 32) :
    { vm with memory := vm.memory.storeWord addr val } =
      writeBytes true vm (bytesFrom addr 4) val := by
  rw [bytesFrom_add addr 2 2, @writeBytes_halves true 16 2 rfl vm _ _ (bytesFrom_length _ 2)
    (bytesFrom_length _ 2), ← storeHalf_bytes, ← storeHalf_bytes, Memory.storeWord_eq]
  rfl

theorem storeDouble_bytes (vm : Vm) (addr : Word) (val : BitVec 64) :
    { vm with memory := vm.memory.storeDouble addr val } =
      writeBytes true vm (bytesFrom addr 8) val := by
  rw [bytesFrom_add addr 4 4, @writeBytes_halves true 32 4 rfl vm _ _ (bytesFrom_length _ 4)
    (bytesFrom_length _ 4), ← storeWord_bytes, ← storeWord_bytes, Memory.storeDouble_eq]
  rfl

theorem mmioStoreHalf_slow (vm : Vm) (val : BitVec 16) (fits : addr.toNat + 2 ≤ 2 ^ 64) :
    vm.mmioStoreHalf addr val = writeBytes false vm (bytesFrom addr 2) val := by
  unfold mmioStoreHalf
  split
  · rename_i high
    rw [writeBytes_high vm val (bytesFrom_high high fits), storeHalf_bytes]
  · rw [bytesFrom_add addr 1 1, @writeBytes_halves false 8 1 rfl vm _ _ (bytesFrom_length _ 1)
      (bytesFrom_length _ 1), bytesFrom_single, bytesFrom_single]
    simp [writeBytes, writeByteAt]

theorem mmioStoreWord_slow (vm : Vm) (val : BitVec 32) (fits : addr.toNat + 4 ≤ 2 ^ 64) :
    vm.mmioStoreWord addr val = writeBytes false vm (bytesFrom addr 4) val := by
  unfold mmioStoreWord
  split
  · rename_i high
    rw [writeBytes_high vm val (bytesFrom_high high fits), storeWord_bytes]
  · have later : (addr + 2).toNat + 2 ≤ 2 ^ 64 := by
      rw [BitVec.toNat_add]
      exact Nat.le_of_lt_succ (by simp; omega)
    rw [bytesFrom_add addr 2 2, @writeBytes_halves false 16 2 rfl vm _ _ (bytesFrom_length _ 2)
      (bytesFrom_length _ 2), mmioStoreHalf_slow vm _ (by omega), mmioStoreHalf_slow _ _ later]
    rfl

theorem mmioStoreDouble_slow (vm : Vm) (val : BitVec 64) (fits : addr.toNat + 8 ≤ 2 ^ 64) :
    vm.mmioStoreDouble addr val = writeBytes false vm (bytesFrom addr 8) val := by
  unfold mmioStoreDouble
  split
  · rename_i high
    rw [writeBytes_high vm val (bytesFrom_high high fits), storeDouble_bytes]
  · have later : (addr + 4).toNat + 4 ≤ 2 ^ 64 := by
      rw [BitVec.toNat_add]
      exact Nat.le_of_lt_succ (by simp; omega)
    rw [bytesFrom_add addr 4 4, @writeBytes_halves false 32 4 rfl vm _ _ (bytesFrom_length _ 4)
      (bytesFrom_length _ 4), mmioStoreWord_slow vm _ (by omega), mmioStoreWord_slow _ _ later]
    rfl

theorem mmioStoreByte_eq (vm : Vm) (addr : Word) (val : Byte) :
    vm.mmioStoreByte addr val = writeBytes (startsInRam addr) vm (bytesFrom addr 1) val := by
  rw [bytesFrom_single, startsInRam]
  by_cases high : ramBase ≤ addr
  · rw [decide_eq_true high, mmioStoreByte, if_pos high]
    simp [writeBytes, writeByteAt]
  · rw [decide_eq_false high]
    simp [writeBytes, writeByteAt]

theorem mmioStoreHalf_eq (vm : Vm) (addr : Word) (val : BitVec 16) :
    vm.mmioStoreHalf addr val = writeBytes (startsInRam addr) vm (bytesFrom addr 2) val := by
  by_cases high : ramBase ≤ addr
  · rw [startsInRam, decide_eq_true high, mmioStoreHalf, if_pos high, storeHalf_bytes]
  · rw [startsInRam, decide_eq_false high]
    exact mmioStoreHalf_slow vm val (below_ramBase high (by decide))

theorem mmioStoreWord_eq (vm : Vm) (addr : Word) (val : BitVec 32) :
    vm.mmioStoreWord addr val = writeBytes (startsInRam addr) vm (bytesFrom addr 4) val := by
  by_cases high : ramBase ≤ addr
  · rw [startsInRam, decide_eq_true high, mmioStoreWord, if_pos high, storeWord_bytes]
  · rw [startsInRam, decide_eq_false high]
    exact mmioStoreWord_slow vm val (below_ramBase high (by decide))

theorem mmioStoreDouble_eq (vm : Vm) (addr : Word) (val : BitVec 64) :
    vm.mmioStoreDouble addr val = writeBytes (startsInRam addr) vm (bytesFrom addr 8) val := by
  by_cases high : ramBase ≤ addr
  · rw [startsInRam, decide_eq_true high, mmioStoreDouble, if_pos high, storeDouble_bytes]
  · rw [startsInRam, decide_eq_false high]
    exact mmioStoreDouble_slow vm val (below_ramBase high (by decide))

end Writes

end Vm

end Riscv

end MetaVm
