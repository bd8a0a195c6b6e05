import MetaVm.Riscv.Machine.AccessedDirty
import MetaVm.Riscv.Machine.ByteAccess
import MetaVm.Riscv.Machine.Reservations

namespace MetaVm.Riscv

open Rv64

/-! Accesses that run into the next virtual page. -/

/-- The first address of a page. -/
def pageBase (vaddr : Word) : Word := vaddr &&& ~~~0xFFF

/-- A page and an offset in it. -/
theorem or_offset (page vaddr : Word) (aligned : page &&& 0xFFF = 0) :
    page ||| (vaddr &&& 0xFFF) = page + (vaddr &&& 0xFFF) := by
  refine (BitVec.add_eq_or_of_and_eq_zero page (vaddr &&& 0xFFF) ?_).symm
  rw [BitVec.and_comm vaddr, ← BitVec.and_assoc, aligned]
  exact BitVec.zero_and

theorem pageBase_aligned (vaddr : Word) : pageBase vaddr &&& 0xFFF = 0 := by
  rw [pageBase, BitVec.and_assoc, BitVec.and_comm (~~~0xFFF), BitVec.and_not_self]
  exact BitVec.and_zero

theorem pageBase_add (vaddr : Word) : pageBase vaddr + (vaddr &&& 0xFFF) = vaddr := by
  rw [← or_offset _ _ (pageBase_aligned vaddr), pageBase]
  apply BitVec.eq_of_getLsbD_eq
  intro bit bounded
  simp only [BitVec.getLsbD_or, BitVec.getLsbD_and, BitVec.getLsbD_not, decide_eq_true bounded,
    Bool.true_and]
  cases BitVec.getLsbD 0xFFF bit <;> simp

theorem toNat_offset (vaddr : Word) : (vaddr &&& 0xFFF).toNat = vaddr.toNat % 4096 := by
  rw [BitVec.toNat_and]
  exact Nat.and_two_pow_sub_one_eq_mod vaddr.toNat 12

theorem toNat_pageBase (vaddr : Word) : (pageBase vaddr).toNat = 4096 * (vaddr.toNat / 4096) := by
  have split := toNat_offset vaddr
  have base : pageBase vaddr = vaddr - (vaddr &&& 0xFFF) := by
    rw [BitVec.eq_sub_iff_add_eq, pageBase_add]
  rw [base, BitVec.toNat_sub_of_le, split]
  · omega
  · rw [BitVec.le_def, split]
    omega

/-- A later byte of the same page. -/
theorem pageBase_of_inPage {vaddr : Word} {index : ℕ}
    (inside : vaddr.toNat % 4096 + index < 4096) :
    pageBase (vaddr + BitVec.ofNat 64 index) = pageBase vaddr ∧
      (vaddr + BitVec.ofNat 64 index) &&& 0xFFF = (vaddr &&& 0xFFF) + BitVec.ofNat 64 index := by
  have bounded := vaddr.isLt
  constructor
  · apply BitVec.eq_of_toNat_eq
    rw [toNat_pageBase, toNat_pageBase, BitVec.toNat_add, BitVec.toNat_ofNat]
    omega
  · apply BitVec.eq_of_toNat_eq
    rw [toNat_offset, BitVec.toNat_add, BitVec.toNat_add, toNat_offset, BitVec.toNat_ofNat]
    omega

/-- A byte of the page after it. -/
theorem pageBase_of_crossing {vaddr : Word} {index : ℕ}
    (beyond : 4096 ≤ vaddr.toNat % 4096 + index) (near : index ≤ 4096) :
    pageBase (vaddr + BitVec.ofNat 64 index) = pageBase vaddr + 4096 ∧
      ((vaddr + BitVec.ofNat 64 index) &&& 0xFFF) + 4096 =
        (vaddr &&& 0xFFF) + BitVec.ofNat 64 index := by
  have bounded := vaddr.isLt
  have page : (4096 : Word).toNat = 4096 := rfl
  constructor
  · apply BitVec.eq_of_toNat_eq
    rw [toNat_pageBase, BitVec.toNat_add, BitVec.toNat_add, toNat_pageBase, BitVec.toNat_ofNat,
      page]
    omega
  · apply BitVec.eq_of_toNat_eq
    rw [BitVec.toNat_add, toNat_offset, BitVec.toNat_add, BitVec.toNat_add, toNat_offset,
      BitVec.toNat_ofNat, page]
    omega

/-! Within a page the translation of an address is that of the page. -/

section Translate

variable (memory : Memory) (satp vaddr : Word) (level : ℕ) (a : Word)

/-- Above the page offset an address and its page are the same. -/
theorem pageBase_shift (amount : ℕ) :
    pageBase vaddr >>> (12 + amount) = vaddr >>> (12 + amount) := by
  apply BitVec.eq_of_toNat_eq
  rw [BitVec.toNat_ushiftRight, BitVec.toNat_ushiftRight, toNat_pageBase,
    Nat.shiftRight_eq_div_pow, Nat.shiftRight_eq_div_pow, Nat.pow_add, ← Nat.div_div_eq_div_mul,
    ← Nat.div_div_eq_div_mul, Nat.mul_div_cancel_left _ (by decide)]

theorem pageBase_offset : pageBase vaddr &&& 0xFFF = 0 := pageBase_aligned vaddr

theorem tableSlot_pageBase : tableSlot (pageBase vaddr) level a = tableSlot vaddr level a := by
  rw [tableSlot, tableSlot, pageBase_shift]

theorem leafEntry_pageBase :
    leafEntry memory (pageBase vaddr) level a = leafEntry memory vaddr level a := by
  induction level generalizing a with
  | zero => rw [leafEntry, leafEntry, tableSlot_pageBase]
  | succ level hypothesis =>
      rw [leafEntry, leafEntry, tableSlot_pageBase]
      simp only [hypothesis]

/-- The same access at the start of its page. -/
def Access.atPage (access : Access) : Access := { access with vaddr := pageBase access.vaddr }

theorem shift_aligned (x : Word) {amount : ℕ} (low : 12 ≤ amount) :
    x <<< amount &&& 0xFFF = 0 := by
  apply BitVec.eq_of_toNat_eq
  rw [toNat_offset, BitVec.toNat_shiftLeft, Nat.shiftLeft_eq, Nat.mod_mod_of_dvd _ (by decide)]
  exact Nat.mod_eq_zero_of_dvd (Dvd.dvd.mul_left (Nat.pow_dvd_pow 2 low) _)

theorem or_aligned {first second : Word} (left : first &&& 0xFFF = 0)
    (right : second &&& 0xFFF = 0) : (first ||| second) &&& 0xFFF = 0 := by
  rw [BitVec.and_comm, BitVec.and_or_distrib_left, BitVec.and_comm, left, BitVec.and_comm, right]
  rfl

/-- A translation ends in an offset of the page that it leads to. -/
theorem physical_atPage (access : Access) (pte : PageTableEntry) :
    access.physical level pte = access.atPage.physical level pte + (access.vaddr &&& 0xFFF) := by
  have index : ∀ part, access.atPage.vpn part = access.vpn part := fun part =>
    congrArg (· &&& 0x1FF) (pageBase_shift access.vaddr (9 * part))
  have start : access.atPage.vaddr &&& 0xFFF = 0 := pageBase_offset access.vaddr
  have plain : ∀ page : Word, page &&& 0xFFF = 0 →
      page ||| (access.vaddr &&& 0xFFF) =
        (page ||| (access.atPage.vaddr &&& 0xFFF)) + (access.vaddr &&& 0xFFF) := by
    intro page aligned
    have whole : page ||| (0 : Word) = page := BitVec.or_zero
    rw [start, whole, or_offset page access.vaddr aligned]
  have low : ∀ x : Word, x <<< 12 &&& 0xFFF = 0 := fun x => shift_aligned x (by decide)
  unfold Access.physical
  simp only [index]
  split
  · exact plain _ (low _)
  · exact plain _ (or_aligned (low _) (low _))
  · exact plain _ (or_aligned (or_aligned (low _) (shift_aligned _ (by decide))) (low _))

theorem leaf_atPage (access : Access) (pteAddr : Word) (pte : PageTableEntry) :
    ((access.leaf level pteAddr pte).toOption.map Translation.pa) =
      (access.atPage.leaf level pteAddr pte).toOption.map fun found =>
        found.pa + (access.vaddr &&& 0xFFF) := by
  have permitted : access.atPage.permitted pte = access.permitted pte := rfl
  unfold Access.leaf
  split
  · rfl
  split
  · rfl
  rw [permitted]
  split
  · exact congrArg some (physical_atPage level access pte)
  · rfl

theorem translate_atPage (access : Access) :
    ((translate memory satp access).toOption.map Translation.pa) =
      (translate memory satp access.atPage).toOption.map fun found =>
        found.pa + (access.vaddr &&& 0xFFF) := by
  have upper : access.atPage.vaddr >>> 39 = access.vaddr >>> 39 := pageBase_shift access.vaddr 27
  have bit38 : access.atPage.vaddr >>> 38 = access.vaddr >>> 38 := pageBase_shift access.vaddr 26
  have finds : ∀ a, leafEntry memory access.atPage.vaddr 2 a = leafEntry memory access.vaddr 2 a :=
    leafEntry_pageBase memory access.vaddr 2
  unfold translate
  simp only [upper, bit38]
  split
  · exact congrArg some (pageBase_add access.vaddr).symm
  split
  · rfl
  split
  · rfl
  split
  · rfl
  rw [walk_eq, walk_eq, finds]
  split
  · exact leaf_atPage _ access _ _
  · rfl

end Translate

namespace Vm

variable {vm : Vm} {vaddr pa : Word} {accessType : AccessType} {count : ℕ}

/-- Where the machine takes an address, or `none` for a page fault. -/
def physicalAt (vm : Vm) (accessType : AccessType) (vaddr : Word) : Option Word :=
  (vm.translateFor vaddr accessType).2

theorem tlbLookup_page (vm : Vm) (vaddr : Word) (accessType : AccessType) (satp : Word) :
    vm.tlbLookup vaddr accessType satp =
      (vm.tlbLookup (pageBase vaddr) accessType satp).map (· + (vaddr &&& 0xFFF)) := by
  have page : pageBase vaddr >>> 12 = vaddr >>> 12 := pageBase_shift vaddr 0
  have start := pageBase_offset vaddr
  unfold tlbLookup
  simp only [page]
  split
  · rename_i entry _
    have aligned : entry.ppn <<< 12 &&& 0xFFF = 0 := shift_aligned entry.ppn (by decide)
    have whole : entry.ppn <<< 12 ||| (0 : Word) = entry.ppn <<< 12 := BitVec.or_zero
    rw [start, whole, or_offset _ vaddr aligned, apply_ite (Option.map _)]
    rfl
  · rfl

/-- The walk that a translation makes on a miss. -/
def walkAccess (vm : Vm) (vaddr : Word) (accessType : AccessType) : Access where
  vaddr := vaddr
  accessType := accessType
  privilege := vm.cpu.privMode.bits
  sum := vm.cpu.csrs.readUnchecked Addr.mstatus &&& Mstatus.sum ≠ 0
  mxr := vm.cpu.csrs.readUnchecked Addr.mstatus &&& Mstatus.mxr ≠ 0

theorem translateAddr_snd (vm : Vm) (vaddr : Word) (accessType : AccessType) :
    (vm.translateAddr vaddr accessType).2 =
      (vm.tlbLookup vaddr accessType vm.satp).or
        ((translate vm.memory vm.satp (vm.walkAccess vaddr accessType)).toOption.map
          Translation.pa) := by
  unfold translateAddr satp walkAccess
  dsimp only
  split
  · rename_i hit
    rw [hit]
    rfl
  · rename_i miss
    rw [miss]
    split
    · rename_i found walked
      rw [walked]
      rfl
    · rename_i fault walked
      rw [walked]
      rfl

theorem physicalAt_page (vm : Vm) (accessType : AccessType) (vaddr : Word) :
    vm.physicalAt accessType vaddr =
      (vm.physicalAt accessType (pageBase vaddr)).map (· + (vaddr &&& 0xFFF)) := by
  unfold physicalAt translateFor
  split
  · rw [translateAddr_snd, translateAddr_snd, tlbLookup_page, translate_atPage]
    have page : (vm.walkAccess vaddr accessType).atPage =
        vm.walkAccess (pageBase vaddr) accessType := rfl
    rw [page]
    cases vm.tlbLookup (pageBase vaddr) accessType vm.satp with
    | some pa => rfl
    | none => 
        rw [Option.map_none, Option.none_or, Option.none_or, Option.map_map]
        rfl
  · exact congrArg some (pageBase_add vaddr).symm

/-! The bytes of an access. -/

/-- The addresses that the machine accesses: they follow where it takes the first byte. -/
def accessedBytes (vm : Vm) (accessType : AccessType) (vaddr : Word) (count : ℕ) :
    Option (List Word) :=
  (vm.physicalAt accessType vaddr).map fun pa => bytesFrom pa count

/-- The addresses that the bytes translate to one by one. -/
def separateBytes (vm : Vm) (accessType : AccessType) (vaddr : Word) (count : ℕ) :
    Option (List Word) :=
  (bytesFrom vaddr count).mapM (vm.physicalAt accessType)

/-- The access stays in its virtual page, or the next page lies behind it in physical memory
too. -/
def NextPageFollows (vm : Vm) (accessType : AccessType) (vaddr : Word) (count : ℕ) : Prop :=
  Memory.InPage vaddr count ∨ ∀ frame, vm.physicalAt accessType (pageBase vaddr) = some frame →
    vm.physicalAt accessType (pageBase vaddr + 4096) = some (frame + 4096)

theorem mapM_eq_some_iff {α β : Type} {f : α → Option β} {items : List α} {results : List β} :
    items.mapM f = some results ↔ items.map f = results.map some := by
  induction items generalizing results with
  | nil =>
      rw [List.mapM_nil, List.map_nil]
      cases results <;> simp
  | cons item rest hypothesis =>
      rw [List.mapM_cons, List.map_cons]
      cases results with
      | nil => 
          cases f item with
          | none => simp
          | some first => cases rest.mapM f <;> simp
      | cons first others =>
          rw [List.map_cons, List.cons.injEq, ← hypothesis]
          cases f item with
          | none => simp
          | some found => cases rest.mapM f <;> simp

theorem bytesFrom_map_eq {f : Word → Option Word} :
    (bytesFrom vaddr count).mapM f = some (bytesFrom pa count) ↔
      ∀ index < count, f (vaddr + BitVec.ofNat 64 index) = some (pa + BitVec.ofNat 64 index) := by
  rw [mapM_eq_some_iff, bytesFrom, bytesFrom, List.map_map, List.map_map, List.map_inj_left]
  constructor
  · intro same index bounded
    exact same index (List.mem_range.2 bounded)
  · intro same index inside
    exact same index (List.mem_range.1 inside)

/-- One translation serves all the bytes exactly when the next page follows. -/
theorem accessedBytes_eq_iff (vm : Vm) (accessType : AccessType) (vaddr : Word)
    (positive : 0 < count) (short : count ≤ 4096) :
    vm.accessedBytes accessType vaddr count = vm.separateBytes accessType vaddr count ↔
      vm.NextPageFollows accessType vaddr count := by
  have inPage : Memory.InPage vaddr count ↔ vaddr.toNat % 4096 + count ≤ 4096 := by
    rw [Memory.InPage, Memory.toNat_pageOffset]
  have first := vm.physicalAt_page accessType vaddr
  unfold accessedBytes separateBytes NextPageFollows
  rw [inPage]
  cases base : vm.physicalAt accessType (pageBase vaddr) with
  | none =>
      -- the first byte faults, in either way
      rw [base, Option.map_none] at first
      refine iff_of_true ?_ (.inr (by rintro _ ⟨⟩))
      obtain ⟨more, rfl⟩ := Nat.exists_eq_add_of_lt positive
      rw [first, Option.map_none, Nat.zero_add, Nat.add_comm more 1, bytesFrom_add,
        bytesFrom_single, List.singleton_append, List.mapM_cons, first]
      rfl
  | some frame =>
      rw [base, Option.map_some] at first
      rw [first, Option.map_some, eq_comm, bytesFrom_map_eq]
      constructor
      · intro same
        rw [or_iff_not_imp_left]
        rintro crosses _ ⟨⟩
        -- the first byte of the next page
        have index : 4096 - vaddr.toNat % 4096 < count := by omega
        have byte := same _ index
        have rest : (vaddr &&& 0xFFF) + BitVec.ofNat 64 (4096 - vaddr.toNat % 4096) = 4096 := by
          apply BitVec.eq_of_toNat_eq
          rw [BitVec.toNat_add, toNat_offset, BitVec.toNat_ofNat]
          have page : (4096 : Word).toNat = 4096 := rfl
          omega
        have next : vaddr + BitVec.ofNat 64 (4096 - vaddr.toNat % 4096) =
            pageBase vaddr + 4096 := by
          rw [← rest, ← BitVec.add_assoc, pageBase_add]
        rw [next, BitVec.add_assoc, rest] at byte
        exact byte
      · intro follows index bounded
        rw [physicalAt_page]
        by_cases inside : vaddr.toNat % 4096 + index < 4096
        · obtain ⟨page, offset⟩ := pageBase_of_inPage inside
          rw [page, offset, base, Option.map_some, BitVec.add_assoc]
        · obtain ⟨page, offset⟩ := @pageBase_of_crossing vaddr index (by omega) (by omega)
          have next := (follows.resolve_left (by omega)) frame rfl
          rw [page, next, Option.map_some]
          refine congrArg some ?_
          rw [BitVec.add_assoc frame, BitVec.add_comm (4096 : Word), offset, BitVec.add_assoc]

end Vm

/-! What an access does once its first byte is translated, told by the addresses of its bytes. -/

/-- The number of bytes that a load reads. -/
def LoadOp.bytes : LoadOp → Byte
  | lb | lbu => 1
  | lh | lhu => 2
  | lw | lwu => 4
  | ld => 8

/-- The number of bytes that an instruction accesses. -/
def Instruction.accessSize : Instruction → ℕ
  | .load kind _ _ _ => kind.bytes.toNat
  | .store kind _ _ _ => kind.bytes.toNat
  | .lr width _ _ _ _ => width.bytes.toNat
  | .sc width _ _ _ _ _ => width.bytes.toNat
  | .amo _ width _ _ _ _ _ => width.bytes.toNat
  | _ => 0

namespace Vm

def loadOver (vm : Vm) (op : LoadOp) (ram : Bool) (addresses : List Word) : Word × Vm :=
  match op with
  | .lb => (readValue 8 ram vm addresses).map (·.signExtend 64) id
  | .lh => (readValue 16 ram vm addresses).map (·.signExtend 64) id
  | .lw => (readValue 32 ram vm addresses).map (·.signExtend 64) id
  | .ld => readValue 64 ram vm addresses
  | .lbu => (readValue 8 ram vm addresses).map (·.setWidth 64) id
  | .lhu => (readValue 16 ram vm addresses).map (·.setWidth 64) id
  | .lwu => (readValue 32 ram vm addresses).map (·.setWidth 64) id

/-- Whether the devices are passed by, and what is reserved, goes by the first address. -/
def accessOver (vm ready : Vm) (pa : Word) (addresses : List Word) : Instruction → Vm
  | .load op rd _ _ =>
      let (val, after) := ready.loadOver op (startsInRam pa) addresses
      (after.writeReg rd val).setPc vm.sequentialPc
  | .store op _ rs2 _ =>
      let after := writeBytes (startsInRam pa) ready addresses (vm.cpu.readReg rs2)
      (after.checkReservationOnStore pa op.bytes).setPc vm.sequentialPc
  | .lr width rd _ _ _ =>
      let op := match width with | .w => LoadOp.lw | .d => LoadOp.ld
      let (val, after) := ready.loadOver op (startsInRam pa) addresses
      { (after.writeReg rd val).setPc vm.sequentialPc with reservation := some (pa, width.bytes) }
  | .sc width rd _ rs2 _ _ =>
      let after :=
        if ready.reservation = some (pa, width.bytes) then
          (writeBytes (startsInRam pa) ready addresses (vm.cpu.readReg rs2)).writeReg rd 0
        else ready.writeReg rd 1
      { after.setPc vm.sequentialPc with reservation := none }
  | .amo op width rd _ rs2 _ _ =>
      let src := vm.cpu.readReg rs2
      let (old, after) : Word × Vm :=
        match width with
        | .w =>
            let (old, after) := readValue 32 (startsInRam pa) ready addresses
            (sext32 old, writeBytes (startsInRam pa) after addresses (op.update old (low src)))
        | .d =>
            let (old, after) := readValue 64 (startsInRam pa) ready addresses
            (old, writeBytes (startsInRam pa) after addresses (op.update old src))
      { (after.writeReg rd old).setPc vm.sequentialPc with reservation := none }
  | _ => ready

theorem loadOp_eq (vm : Vm) (op : LoadOp) (pa : Word) :
    vm.loadOp op pa = vm.loadOver op (startsInRam pa) (bytesFrom pa op.bytes.toNat) := by
  cases op with
  | lb | lbu =>
      simp only [loadOp, loadOver, mmioLoadByte_eq]
      rfl
  | lh | lhu =>
      simp only [loadOp, loadOver, mmioLoadHalf_eq]
      rfl
  | lw | lwu =>
      simp only [loadOp, loadOver, mmioLoadWord_eq]
      rfl
  | ld => exact mmioLoadDouble_eq vm pa

/-- The low bytes of a register are what is stored. -/
theorem writeBytes_low {ram : Bool} (vm : Vm) (addr : Word) {width : ℕ} (val : Word)
    (fits : 8 * count ≤ width) :
    writeBytes ram vm (bytesFrom addr count) (val.setWidth width) =
      writeBytes ram vm (bytesFrom addr count) val := by
  apply writeBytes_congr
  intro index bounded
  rw [bytesFrom_length] at bounded
  exact ByteOrder.byteOf_setWidth val (by omega)

theorem storeOp_over (vm : Vm) (op : StoreOp) (pa val : Word) :
    vm.storeOp op pa val =
      (writeBytes (startsInRam pa) vm (bytesFrom pa op.bytes.toNat) val).checkReservationOnStore pa
        op.bytes := by
  cases op with
  | sb =>
      rw [storeOp, mmioStoreByte_eq, writeBytes_low vm pa val (by decide)]
      rfl
  | sh =>
      rw [storeOp, mmioStoreHalf_eq, writeBytes_low vm pa val (by decide)]
      rfl
  | sw =>
      rw [storeOp, mmioStoreWord_eq, writeBytes_low vm pa val (by decide)]
      rfl
  | sd =>
      rw [storeOp, mmioStoreDouble_eq]
      rfl

theorem execute_over {vm ready : Vm} {insn : Instruction}
    (accesses : vm.dataAccess insn = some (vaddr, accessType))
    (translates : vm.translateFor vaddr accessType = (ready, some pa)) :
    (vm.execute insn).1 = vm.accessOver ready pa (bytesFrom pa insn.accessSize) insn := by
  cases insn with
  | load op =>
      cases accesses
      simp only [execute, translateLoad, translates, onAddress, loadOp_eq]
      rfl
  | store op =>
      cases accesses
      simp only [execute, translateStore, translates, onAddress, storeOp_over]
      rfl
  | lr width =>
      cases accesses
      cases width with
      | w =>
          simp only [execute, translateLoad, translates, onAddress, mmioLoadWord_eq]
          rfl
      | d =>
          simp only [execute, translateLoad, translates, onAddress, mmioLoadDouble_eq]
          rfl
  | sc width rd rs1 rs2 =>
      cases accesses
      cases width with
      | w =>
          simp only [execute, translateStore, translates, onAddress, mmioStoreWord_eq]
          rw [low, writeBytes_low ready pa _ (by decide)]
          rfl
      | d =>
          simp only [execute, translateStore, translates, onAddress, mmioStoreDouble_eq]
          rfl
  | amo op width =>
      cases accesses
      cases width with
      | w =>
          simp only [execute, translateStore, translates, onAddress, amoOp, mmioLoadWord_eq,
            mmioStoreWord_eq]
          rfl
      | d =>
          simp only [execute, translateStore, translates, onAddress, amoOp, mmioLoadDouble_eq,
            mmioStoreDouble_eq]
          rfl
  | _ => cases accesses

/-- What a fetch of four bytes finds. -/
def fetchOver (ready : Vm) (addresses : List Word) : FetchOutcome :=
  let word := ByteOrder.ofBytes 32 (addresses.map ready.memory.loadByte)
  match decode word with
  | .ok insn => .fetched { ready with insnLen := 4, lastFetched := some (insn, 4) } ⟨insn, 4⟩
  | .error e =>
      if ready.privileged then
        .trapped (ready.trap (.exception .illegalInstruction) (word.setWidth 64) ready.cpu.pc)
      else .failed ready e

/-- What stands at the program counter is a 32-bit instruction. -/
def FetchesWide (vm : Vm) : Prop :=
  ∀ ready pa, vm.translateFor vm.cpu.pc .execute = (ready, some pa) →
    ready.memory.loadHalf pa &&& 0x3 = 0x3

theorem fetchDecode_wide {memory : Memory} (wide : memory.loadHalf pa &&& 0x3 = 0x3) :
    fetchDecode memory pa =
      (decode (ByteOrder.ofBytes 32 ((bytesFrom pa 4).map memory.loadByte))).map fun insn =>
        ⟨insn, 4⟩ := by
  rw [fetchDecode, wide, ← loadWord_bytes]
  rfl

theorem fetch_over {vm ready : Vm} (wide : vm.FetchesWide)
    (translates : vm.translateFor vm.cpu.pc .execute = (ready, some pa)) :
    vm.fetch = fetchOver { ready with lastFetched := none } (bytesFrom pa 4) := by
  have decodes := fetchDecode_wide (wide ready pa translates)
  simp only [fetch, translateFor_forget, translates, fetchOver, decodes, ← loadWord_bytes]
  cases decode (ready.memory.loadWord pa) with
  | ok insn => rfl
  | error e =>
      have kept : ready.cpu = vm.cpu := translateFor_cpu translates
      simp only [Except.map, kept]

/-- An access to memory: of an instruction, or the fetch of a 32-bit instruction. -/
inductive MemoryAccess
  | data (insn : Instruction)
  | fetch

def MemoryAccess.size : MemoryAccess → ℕ
  | data insn => insn.accessSize
  | fetch => 4

/-- The address that an access starts at. -/
inductive Makes (vm : Vm) : MemoryAccess → Word → AccessType → Prop
  | data {insn : Instruction} {vaddr : Word} {accessType : AccessType}
      (accesses : vm.dataAccess insn = some (vaddr, accessType)) :
      Makes vm (.data insn) vaddr accessType
  | fetch (wide : vm.FetchesWide) : Makes vm .fetch vm.cpu.pc .execute

/-- The machine reads or writes the bytes at these addresses and no others. Where there are
none it faults, and its registers and memory stay. -/
def Performs (vm : Vm) (vaddr : Word) (accessType : AccessType) :
    MemoryAccess → Option (List Word) → Prop
  | .data insn, some addresses => ∃ ready pa,
      vm.translateFor vaddr accessType = (ready, some pa) ∧
        (vm.execute insn).1 = vm.accessOver ready pa addresses insn
  | .data insn, none =>
      (vm.execute insn).1.cpu.x = vm.cpu.x ∧ (vm.execute insn).1.memory = vm.memory
  | .fetch, some addresses => ∃ ready pa,
      vm.translateFor vaddr accessType = (ready, some pa) ∧
        vm.fetch = fetchOver { ready with lastFetched := none } addresses
  | .fetch, none => ∃ trapped, vm.fetch = .trapped trapped ∧ trapped.cpu.x = vm.cpu.x ∧
      trapped.memory = vm.memory

/-- A page fault keeps the memory. -/
theorem translateFor_memory_of_fault {vm faulted : Vm}
    (fault : vm.translateFor vaddr accessType = (faulted, none)) : faulted.memory = vm.memory := by
  unfold translateFor at fault
  split at fault
  · simp only [translateAddr] at fault
    split at fault
    · cases fault
    · split at fault
      · cases fault
      · cases fault
        rfl
  · cases fault

theorem execute_of_fault {vm faulted : Vm} {insn : Instruction}
    (accesses : vm.dataAccess insn = some (vaddr, accessType))
    (fault : vm.translateFor vaddr accessType = (faulted, none)) :
    (vm.execute insn).1 = faulted := by
  cases insn with
  | load | lr =>
      cases accesses
      simp only [execute, translateLoad, fault, onAddress]
  | store | sc | amo =>
      cases accesses
      simp only [execute, translateStore, fault, onAddress]
  | _ => cases accesses

theorem fetch_of_fault {vm faulted : Vm}
    (fault : vm.translateFor vm.cpu.pc .execute = (faulted, none)) :
    vm.fetch = .trapped { faulted with lastFetched := none } := by
  simp only [fetch, translateFor_forget, fault]

theorem Makes.size_pos {vm : Vm} {access : MemoryAccess} (makes : vm.Makes access vaddr accessType) :
    0 < access.size ∧ access.size ≤ 8 := by
  have loads : ∀ kind : LoadOp, 0 < kind.bytes.toNat ∧ kind.bytes.toNat ≤ 8 := by
    intro kind
    cases kind <;> decide
  have stores : ∀ kind : StoreOp, 0 < kind.bytes.toNat ∧ kind.bytes.toNat ≤ 8 := by
    intro kind
    cases kind <;> decide
  have atomics : ∀ width : AmoWidth, 0 < width.bytes.toNat ∧ width.bytes.toNat ≤ 8 := by
    intro width
    cases width <;> decide
  cases makes with
  | @data insn _ _ accesses =>
      cases insn with
      | load kind => exact loads kind
      | store kind => exact stores kind
      | lr width => exact atomics width
      | sc width => exact atomics width
      | amo op width => exact atomics width
      | _ => cases accesses
  | fetch => decide

/-- An access goes by the translation of its first byte. -/
theorem Makes.performs {vm : Vm} {access : MemoryAccess}
    (makes : vm.Makes access vaddr accessType) :
    vm.Performs vaddr accessType access (vm.accessedBytes accessType vaddr access.size) := by
  unfold accessedBytes physicalAt
  cases translates : vm.translateFor vaddr accessType with
  | mk ready target =>
      cases makes with
      | data accesses =>
          cases target with
          | some pa => exact ⟨ready, pa, translates, execute_over accesses translates⟩
          | none =>
              refine ⟨?_, ?_⟩
              · rw [execute_of_fault accesses translates, translateFor_x_of_fault translates]
              · rw [execute_of_fault accesses translates, translateFor_memory_of_fault translates]
      | fetch wide =>
          cases target with
          | some pa => exact ⟨ready, pa, translates, fetch_over wide translates⟩
          | none =>
              have registers : ready.cpu.x = vm.cpu.x := translateFor_x_of_fault translates
              have memory : ready.memory = vm.memory := translateFor_memory_of_fault translates
              exact ⟨_, fetch_of_fault translates, registers, memory⟩

/-- An access reaches the bytes that its addresses translate to one by one exactly when it stays
in its page or the next page follows in physical memory. -/
theorem access_bytes_iff {vm : Vm} {access : MemoryAccess}
    (makes : vm.Makes access vaddr accessType) :
    vm.Performs vaddr accessType access (vm.accessedBytes accessType vaddr access.size) ∧
      (vm.accessedBytes accessType vaddr access.size =
          vm.separateBytes accessType vaddr access.size ↔
        vm.NextPageFollows accessType vaddr access.size) := by
  obtain ⟨positive, short⟩ := makes.size_pos
  exact ⟨makes.performs,
    accessedBytes_eq_iff vm accessType vaddr positive (Nat.le_trans short (by decide))⟩

/-- Two virtual pages in frames that lie apart: the page at 0 in the frame at `0x4000`, the page
at `0x1000` in the frame at `0x8000`, which starts with a one. -/
def apartPages : Memory :=
  ((((Memory.new.storeDouble 0x1000 0x801).storeDouble 0x2000 0xC01).storeDouble 0x3000
    0x10CF).storeDouble 0x3008 0x20CF).storeByte 0x8000 1

/-- A supervisor that works four bytes before the end of the first page. -/
def apartVm : Vm :=
  newPrivileged
    { CpuState.new with
      x := fun _ => 0xFFC
      privMode := .supervisor
      csrs := CsrFile.new.writeUnchecked Addr.satp (8 <<< 60 ||| 1) } apartPages

def crossingLoad : Instruction := .load .ld 2 1 0

theorem access_bytes_iff_crossingLoad :
    apartVm.Performs 0xFFC .read (.data crossingLoad) (apartVm.accessedBytes .read 0xFFC 8) ∧
      (apartVm.accessedBytes .read 0xFFC 8 = apartVm.separateBytes .read 0xFFC 8 ↔
        apartVm.NextPageFollows .read 0xFFC 8) :=
  access_bytes_iff (.data rfl)

/-- The load finds zero behind the first frame, where the byte of the second page is one. -/
theorem crossingLoad_misses_page :
    ¬ ∀ (vm : Vm) (access : MemoryAccess) (vaddr : Word) (accessType : AccessType),
      vm.privileged = true → vm.translationActive = true → vm.Makes access vaddr accessType →
        vm.Performs vaddr accessType access
          (vm.separateBytes accessType vaddr access.size) := by
  intro separate
  have separated : apartVm.separateBytes .read 0xFFC 8 =
      some [0x4FFC, 0x4FFD, 0x4FFE, 0x4FFF, 0x8000, 0x8001, 0x8002, 0x8003] := by decide
  have performs := separate apartVm (.data crossingLoad) 0xFFC .read rfl (by decide) (.data rfl)
  have size : (MemoryAccess.data crossingLoad).size = 8 := rfl
  rw [size, separated] at performs
  obtain ⟨ready, pa, translates, same⟩ := performs
  obtain rfl : (apartVm.translateFor 0xFFC .read).1 = ready := by rw [translates]
  obtain rfl : 0x4FFC = pa := by
    have found : (apartVm.translateFor 0xFFC .read).2 = some 0x4FFC := by decide
    exact Option.some.inj (found.symm.trans (by rw [translates]))
  have loaded := congrArg (fun vm => vm.cpu.x 2) same
  revert loaded
  decide

end Vm

end MetaVm.Riscv
