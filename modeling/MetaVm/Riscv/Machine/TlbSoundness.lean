import MetaVm.Riscv.Machine.AccessedDirty
import MetaVm.Riscv.Machine.PageCrossing
import MetaVm.Riscv.Machine.Reservations
import MetaVm.Riscv.Machine.Sv39

namespace MetaVm.Riscv

/-! What the translation cache holds against what the walk finds. -/

/-! Page tables that differ in accessed and dirty bits only. -/

/-- The entry leads on to another table. -/
def PageTableEntry.pointsOn (pte : PageTableEntry) : Bool :=
  pte.valid && !(pte.write && !pte.read) && !pte.isLeaf

/-- The entries that the walk of an address reads. -/
def tableSlots (memory : Memory) (vaddr : Word) (level : ℕ) (a : Word) : List Word :=
  let pte : PageTableEntry := ⟨memory.loadDouble (tableSlot vaddr level a)⟩
  tableSlot vaddr level a ::
    match level with
    | 0 => []
    | next + 1 => if pte.pointsOn then tableSlots memory vaddr next (pte.ppn <<< 12) else []

/-- The word at a slot maps the same in both memories. -/
def SameSlot (before after : Memory) (slot : Word) : Prop :=
  PageTableEntry.SameMapping ⟨before.loadDouble slot⟩ ⟨after.loadDouble slot⟩

/-- The page tables of an address space map the same in both memories. -/
def SameTables (before after : Memory) (satp : Word) : Prop :=
  ∀ vaddr, ∀ slot ∈ tableSlots before vaddr 2 (Sv39.rootTable satp), SameSlot before after slot

namespace PageTableEntry.SameMapping

variable {pte other third : PageTableEntry}

theorem rfl' (pte : PageTableEntry) : pte.SameMapping pte := fun _ _ _ => rfl

theorem symm (same : pte.SameMapping other) : other.SameMapping pte :=
  fun index notAccessed notDirty => (same index notAccessed notDirty).symm

theorem trans (first : pte.SameMapping other) (second : other.SameMapping third) :
    pte.SameMapping third :=
  fun index notAccessed notDirty =>
    (second index notAccessed notDirty).trans (first index notAccessed notDirty)

theorem ppn (same : pte.SameMapping other) : other.ppn = pte.ppn :=
  congrArg (· &&& 0xFFFFFFFFFFF) (same.shift (by decide))

theorem pointsOn (same : pte.SameMapping other) : other.pointsOn = pte.pointsOn := by
  rw [PageTableEntry.pointsOn, PageTableEntry.pointsOn, same.valid, same.write, same.read,
    same.isLeaf]

end PageTableEntry.SameMapping

section Tables

variable {before middle after : Memory} {vaddr satp : Word} {level : ℕ} {a : Word}

/-- Tables that map the same are read at the same places. -/
theorem tableSlots_of_same
    (same : ∀ slot ∈ tableSlots before vaddr level a, SameSlot before after slot) :
    tableSlots after vaddr level a = tableSlots before vaddr level a := by
  induction level generalizing a with
  | zero => rfl
  | succ level hypothesis =>
      rw [tableSlots] at same ⊢
      have here := same _ List.mem_cons_self
      rw [tableSlots, here.pointsOn, here.ppn]
      split
      · rename_i pointsOn
        rw [if_pos pointsOn] at same
        rw [hypothesis fun slot member => same slot (List.mem_cons_of_mem _ member)]
      · rfl

theorem SameTables.refl (memory : Memory) (satp : Word) : SameTables memory memory satp :=
  fun _ _ _ => .rfl' _

theorem SameTables.symm (same : SameTables before after satp) : SameTables after before satp := by
  intro vaddr slot member
  rw [tableSlots_of_same (same vaddr)] at member
  exact (same vaddr slot member).symm

theorem SameTables.trans (first : SameTables before middle satp)
    (second : SameTables middle after satp) : SameTables before after satp := by
  intro vaddr slot member
  refine (first vaddr slot member).trans (second vaddr slot ?_)
  rw [tableSlots_of_same (first vaddr)]
  exact member

theorem leafEntry_here (here : SameSlot before after (tableSlot vaddr level a))
    (valid : PageTableEntry.valid ⟨before.loadDouble (tableSlot vaddr level a)⟩ = true)
    (notReserved : (PageTableEntry.write ⟨before.loadDouble (tableSlot vaddr level a)⟩ &&
      !PageTableEntry.read ⟨before.loadDouble (tableSlot vaddr level a)⟩) = false)
    (isLeaf : PageTableEntry.isLeaf ⟨before.loadDouble (tableSlot vaddr level a)⟩ = true) :
    leafEntry after vaddr level a = some (level, tableSlot vaddr level a,
      ⟨after.loadDouble (tableSlot vaddr level a)⟩) := by
  refine leafEntry_of_leaf rfl ?_ ?_ ?_
  · rw [here.valid, valid]
  · rw [here.write, here.read, notReserved]
  · rw [here.isLeaf, isLeaf]

/-- The walk finds the same leaf in tables that map the same. -/
theorem leafEntry_of_same {found : ℕ} {pteAddr : Word} {pte : PageTableEntry}
    (same : ∀ slot ∈ tableSlots before vaddr level a, SameSlot before after slot)
    (finds : leafEntry before vaddr level a = some (found, pteAddr, pte)) :
    ∃ other, leafEntry after vaddr level a = some (found, pteAddr, other) ∧
      pte.SameMapping other := by
  induction level generalizing a with
  | zero =>
      obtain ⟨valid, notReserved, ⟨isLeaf, isHere⟩ | ⟨-, next, impossible, -⟩⟩ :=
        leafEntry_cases finds
      · cases isHere
        have here := same _ List.mem_cons_self
        exact ⟨_, leafEntry_here here valid notReserved isLeaf, here⟩
      · cases impossible
  | succ level hypothesis =>
      have here : SameSlot before after (tableSlot vaddr (level + 1) a) := by
        apply same
        rw [tableSlots]
        exact List.mem_cons_self
      obtain ⟨valid, notReserved, ⟨isLeaf, isHere⟩ | ⟨notLeaf, next, succ, rest⟩⟩ :=
        leafEntry_cases finds
      · cases isHere
        exact ⟨_, leafEntry_here here valid notReserved isLeaf, here⟩
      · cases succ
        have below : ∀ slot ∈ tableSlots before vaddr level
            (PageTableEntry.ppn ⟨before.loadDouble (tableSlot vaddr (level + 1) a)⟩ <<< 12),
            SameSlot before after slot := by
          intro slot member
          apply same
          rw [tableSlots, if_pos (by rw [PageTableEntry.pointsOn, valid, notReserved, notLeaf]; rfl)]
          exact List.mem_cons_of_mem _ member
        obtain ⟨other, finds, maps⟩ := hypothesis below rest
        refine ⟨other, ?_, maps⟩
        have table := @leafEntry_of_table after vaddr a
          ⟨after.loadDouble (tableSlot vaddr (level + 1) a)⟩ level rfl
          (by rw [here.valid, valid]) (by rw [here.write, here.read, notReserved])
          (by rw [here.isLeaf, notLeaf])
        rw [table, here.ppn]
        exact finds

theorem tableSlots_aligned (aligned : 8 ∣ a.toNat) :
    ∀ slot ∈ tableSlots before vaddr level a, 8 ∣ slot.toNat := by
  induction level generalizing a with
  | zero =>
      intro slot member
      rw [List.mem_singleton.1 member]
      exact tableSlot_aligned aligned
  | succ level hypothesis =>
      intro slot member
      rw [tableSlots] at member
      rcases List.mem_cons.1 member with rfl | later
      · exact tableSlot_aligned aligned
      · split at later
        · exact hypothesis (table_aligned _) slot later
        · cases later

end Tables

/-- The leaf that an access that succeeds goes through. -/
structure GoesThrough (memory : Memory) (satp : Word) (access : Access) (level : ℕ)
    (pteAddr : Word) (pte : PageTableEntry) : Prop where
  mode : (satp >>> 60) &&& 0xF = 8
  canonical : Sv39.CanonicalAddress access.vaddr
  finds : leafEntry memory access.vaddr 2 (Sv39.rootTable satp) = some (level, pteAddr, pte)
  aligned : pte.misaligned level = false
  permitted : access.permitted pte = true

section Walks

variable {memory after : Memory} {satp : Word} {access : Access} {found : Translation}

theorem goesThrough_of_translate (active : (satp >>> 60) &&& 0xF ≠ 0)
    (ok : translate memory satp access = .ok found) :
    ∃ level pteAddr pte, GoesThrough memory satp access level pteAddr pte ∧
      found = ⟨access.physical level pte, access.pteUpdate pteAddr pte,
        (pte.val &&& 0xE).setWidth 8⟩ := by
  have mode : (satp >>> 60) &&& 0xF = 8 := by
    by_contra other
    rw [translate] at ok
    dsimp only at ok
    rw [if_neg active, if_pos other] at ok
    cases ok
  have canonical : Sv39.CanonicalAddress access.vaddr := by
    by_contra bent
    rw [translate_of_not_canonical mode bent] at ok
    cases ok
  rw [translate_of_canonical mode canonical, walk_eq] at ok
  split at ok
  · rename_i level pteAddr pte finds
    obtain ⟨aligned, permitted, same⟩ := leaf_ok ok
    exact ⟨level, pteAddr, pte, ⟨mode, canonical, finds, aligned, permitted⟩, same⟩
  · cases ok

theorem GoesThrough.translate {level : ℕ} {pteAddr : Word} {pte : PageTableEntry}
    (goes : GoesThrough memory satp access level pteAddr pte) :
    translate memory satp access = .ok ⟨access.physical level pte,
      access.pteUpdate pteAddr pte, (pte.val &&& 0xE).setWidth 8⟩ := by
  rw [translate_of_canonical goes.mode goes.canonical, walk_eq, goes.finds]
  exact leaf_ok_iff.2 ⟨goes.aligned, goes.permitted, rfl⟩

/-- An access that succeeds does so with the same address in tables that map the same. -/
theorem translate_of_sameTables (active : (satp >>> 60) &&& 0xF ≠ 0)
    (same : SameTables memory after satp) (ok : translate memory satp access = .ok found) :
    ∃ again, translate after satp access = .ok again ∧ again.pa = found.pa := by
  obtain ⟨level, pteAddr, pte, goes, rfl⟩ := goesThrough_of_translate active ok
  obtain ⟨other, finds, maps⟩ := leafEntry_of_same (same access.vaddr) goes.finds
  have also : GoesThrough after satp access level pteAddr other :=
    ⟨goes.mode, goes.canonical, finds, (maps.misaligned level).trans goes.aligned,
      (maps.permitted access).trans goes.permitted⟩
  exact ⟨_, also.translate, maps.physical access level⟩

/-- The update of a translation changes no page table. -/
theorem sameTables_update (ok : translate memory satp access = .ok found)
    (active : (satp >>> 60) &&& 0xF ≠ 0) (space : Word) :
    SameTables memory (found.memory memory) space := by
  obtain ⟨level, pteAddr, pte, goes, rfl⟩ := goesThrough_of_translate active ok
  rw [Translation.memory]
  dsimp only
  cases update : access.pteUpdate pteAddr pte with
  | none => exact .refl memory space
  | some updated =>
      obtain ⟨slot, newVal⟩ := updated
      obtain ⟨rfl, maps, -, -⟩ := pteUpdate_some update
      obtain ⟨stands, -, slotAligned⟩ := leafEntry_stands goes.finds (table_aligned _)
      intro vaddr read member
      have readAligned := tableSlots_aligned (table_aligned _) read member
      rw [SameSlot]
      dsimp only
      by_cases here : read = slot
      · rw [here, memory.loadDouble_storeDouble, ← stands]
        exact maps
      · rw [memory.loadDouble_storeDouble_of_aligned newVal slotAligned readAligned here]
        exact .rfl' _

end Walks

/-! Entries of the cache. -/

/-- What the walk goes by besides the page tables. -/
structure Rights where
  privilege : Word
  sum : Bool
  mxr : Bool
deriving DecidableEq

def Rights.access (rights : Rights) (vaddr : Word) (accessType : AccessType) : Access where
  vaddr := vaddr
  accessType := accessType
  privilege := rights.privilege
  sum := rights.sum
  mxr := rights.mxr

def TlbEntry.allows (entry : TlbEntry) : AccessType → Bool
  | .execute => entry.executable
  | .read => entry.readable
  | .write => entry.writable

/-- What an entry grants the walk grants too, with the same address. -/
structure TlbEntry.Backed (entry : TlbEntry) (memory : Memory) (rights : Rights) : Prop where
  active : (entry.satp >>> 60) &&& 0xF ≠ 0
  walks : ∀ (vaddr : Word) accessType, vaddr >>> 12 = entry.vpn → entry.allows accessType = true →
    ∃ found, translate memory entry.satp (rights.access vaddr accessType) = .ok found ∧
      found.pa = (entry.ppn <<< 12) ||| (vaddr &&& 0xFFF)

/-- The entry that a translation puts into the cache. -/
def Translation.entry (found : Translation) (satp : Word) (access : Access) : TlbEntry where
  vpn := (access.vaddr &&& ~~~0xFFF) >>> 12
  ppn := (found.pa &&& ~~~0xFFF) >>> 12
  satp := satp
  readable := found.pteFlags &&& 0x2 ≠ 0 ∨ access.mxr ∧ found.pteFlags &&& 0x8 ≠ 0
  writable := found.pteFlags &&& 0x4 ≠ 0
  executable := found.pteFlags &&& 0x8 ≠ 0

section Entries

variable {memory after : Memory} {rights : Rights} {entry : TlbEntry}

theorem TlbEntry.Backed.of_sameTables (backed : entry.Backed memory rights)
    (same : SameTables memory after entry.satp) : entry.Backed after rights := by
  refine ⟨backed.active, fun vaddr accessType page allowed => ?_⟩
  obtain ⟨found, ok, address⟩ := backed.walks vaddr accessType page allowed
  obtain ⟨again, alsoOk, sameAddress⟩ := translate_of_sameTables backed.active same ok
  exact ⟨again, alsoOk, sameAddress.trans address⟩

theorem physical_aligned (level : ℕ) (pte : PageTableEntry) (access : Access)
    (start : access.vaddr &&& 0xFFF = 0) : access.physical level pte &&& 0xFFF = 0 := by
  have low : ∀ x : Word, x <<< 12 &&& 0xFFF = 0 := fun x => shift_aligned x (by decide)
  have offset : access.vaddr &&& 0xFFF &&& 0xFFF = 0 := by rw [start]; rfl
  unfold Access.physical
  dsimp only
  split
  · exact or_aligned (low _) offset
  · exact or_aligned (or_aligned (low _) (low _)) offset
  · exact or_aligned (or_aligned (or_aligned (low _) (shift_aligned _ (by decide))) (low _)) offset

/-- An offset does not reach into the number of its page. -/
theorem pageNumber_shift {page : Word} (aligned : page &&& 0xFFF = 0) (vaddr : Word) :
    ((page + (vaddr &&& 0xFFF)) &&& ~~~0xFFF) >>> 12 <<< 12 = page := by
  have whole : page.toNat % 4096 = 0 := by
    rw [← toNat_offset, aligned]
    rfl
  have offset : (vaddr &&& 0xFFF).toNat < 4096 := by
    rw [toNat_offset]
    exact Nat.mod_lt _ (by decide)
  have bound := page.isLt
  have sum : (page + (vaddr &&& 0xFFF)).toNat = page.toNat + (vaddr &&& 0xFFF).toNat :=
    BitVec.toNat_add_of_lt (by omega)
  have base := toNat_pageBase (page + (vaddr &&& 0xFFF))
  apply BitVec.eq_of_toNat_eq
  rw [BitVec.toNat_shiftLeft, BitVec.toNat_ushiftRight, Nat.shiftLeft_eq, Nat.shiftRight_eq_div_pow]
  rw [pageBase] at base
  rw [base, sum]
  omega

theorem leafFlag_eq (pte : PageTableEntry) {flag : Byte} {index : ℕ}
    (listed : (flag, index) ∈ [((2 : Byte), 1), (4, 2), (8, 3)]) :
    decide ((pte.val &&& 0xE).setWidth 8 &&& flag ≠ 0) = pte.val.getLsbD index := by
  have bits : ∀ pair ∈ [((2 : Byte), 1), (4, 2), (8, 3)], ∀ x : Byte,
      decide (x &&& pair.1 ≠ 0) = x.getLsbD pair.2 := by decide
  have small : ∀ pair ∈ [((2 : Byte), 1), (4, 2), (8, 3)],
      pair.2 < 8 ∧ (0xE : Word).getLsbD pair.2 = true := by decide
  obtain ⟨inByte, kept⟩ := small _ listed
  rw [bits _ listed, BitVec.getLsbD_setWidth, BitVec.getLsbD_and, kept, decide_eq_true inByte,
    Bool.and_true, Bool.true_and]

/-- A cached right is a right of the leaf. -/
theorem permitted_of_allows {vaddr : Word} {requested accessType : AccessType}
    {level : ℕ} {pteAddr : Word} {pte : PageTableEntry} {satp : Word}
    (permitted : (rights.access vaddr requested).permitted pte = true)
    (allowed : (Translation.entry ⟨(rights.access vaddr requested).physical level pte,
      (rights.access vaddr requested).pteUpdate pteAddr pte, (pte.val &&& 0xE).setWidth 8⟩ satp
        (rights.access vaddr requested)).allows accessType = true) (other : Word) :
    (rights.access other accessType).permitted pte = true := by
  have read := leafFlag_eq pte (show ((2 : Byte), 1) ∈ _ by decide)
  have write := leafFlag_eq pte (show ((4 : Byte), 2) ∈ _ by decide)
  have execute := leafFlag_eq pte (show ((8 : Byte), 3) ∈ _ by decide)
  rw [Access.permitted, Bool.and_eq_true] at permitted ⊢
  refine ⟨?_, permitted.2⟩
  cases accessType with
  | execute =>
      rw [Rights.access, pte.execute_eq, ← execute]
      exact allowed
  | write =>
      rw [Rights.access, pte.write_eq, ← write]
      exact allowed
  | read =>
      show (pte.read || (rights.mxr && pte.execute)) = true
      rw [pte.read_eq, pte.execute_eq, ← read, ← execute]
      simpa [TlbEntry.allows, Translation.entry, Rights.access] using allowed

/-- Addresses with one page number lie in one page. -/
theorem pageBase_of_number {vaddr other : Word} (page : other >>> 12 = pageBase vaddr >>> 12) :
    pageBase other = pageBase vaddr := by
  rw [pageBase_shift vaddr 0] at page
  have numbers := congrArg BitVec.toNat page
  rw [BitVec.toNat_ushiftRight, BitVec.toNat_ushiftRight, Nat.shiftRight_eq_div_pow,
    Nat.shiftRight_eq_div_pow] at numbers
  apply BitVec.eq_of_toNat_eq
  rw [toNat_pageBase, toNat_pageBase]
  exact congrArg (4096 * ·) numbers

theorem canonical_pageBase (vaddr : Word) :
    Sv39.CanonicalAddress (pageBase vaddr) ↔ Sv39.CanonicalAddress vaddr := by
  rw [canonical_iff, canonical_iff, pageBase_shift vaddr 26, pageBase_shift vaddr 27]

/-- What a translation caches is backed. -/
theorem Translation.entry_backed {satp vaddr : Word} {requested : AccessType}
    {found : Translation} (active : (satp >>> 60) &&& 0xF ≠ 0)
    (ok : translate memory satp (rights.access vaddr requested) = .ok found) :
    (found.entry satp (rights.access vaddr requested)).Backed (found.memory memory) rights := by
  apply TlbEntry.Backed.of_sameTables _ (sameTables_update ok active _)
  refine ⟨active, fun other accessType page allowed => ?_⟩
  obtain ⟨level, pteAddr, pte, goes, rfl⟩ := goesThrough_of_translate active ok
  have same : pageBase other = pageBase vaddr := pageBase_of_number page
  have also : GoesThrough memory satp (rights.access other accessType) level pteAddr pte := by
    refine ⟨goes.mode, ?_, ?_, goes.aligned, permitted_of_allows goes.permitted allowed other⟩
    · exact (canonical_pageBase other).1 (same ▸ (canonical_pageBase vaddr).2 goes.canonical)
    · show leafEntry memory other 2 _ = _
      rw [← leafEntry_pageBase, same, leafEntry_pageBase]
      exact goes.finds
  refine ⟨_, also.translate, ?_⟩
  let frame : Word := (rights.access (pageBase vaddr) requested).physical level pte
  have aligned : frame &&& 0xFFF = 0 := physical_aligned level pte _ (pageBase_offset vaddr)
  have cached : (rights.access vaddr requested).physical level pte =
      frame + (vaddr &&& 0xFFF) := physical_atPage level (rights.access vaddr requested) pte
  have walked : (rights.access other accessType).physical level pte =
      frame + (other &&& 0xFFF) := by
    rw [physical_atPage]
    show (rights.access (pageBase other) accessType).physical level pte + _ = _
    rw [same]
    rfl
  show (rights.access other accessType).physical level pte =
    (((rights.access vaddr requested).physical level pte &&& ~~~0xFFF) >>> 12 <<< 12) |||
      (other &&& 0xFFF)
  rw [cached, pageNumber_shift aligned, walked, or_offset frame other aligned]

end Entries

namespace Vm

def rights (vm : Vm) : Rights where
  privilege := vm.cpu.privMode.bits
  sum := vm.cpu.csrs.readUnchecked Addr.mstatus &&& Mstatus.sum ≠ 0
  mxr := vm.cpu.csrs.readUnchecked Addr.mstatus &&& Mstatus.mxr ≠ 0

/-- What the cache grants the walk grants too. -/
def TlbSound (vm : Vm) : Prop :=
  ∀ index entry, vm.tlb index = some entry → entry.Backed vm.memory vm.rights

/-- From one machine to another, rights and cached page tables change only where
no entry is left behind. -/
def Quiet (before after : Vm) : Prop :=
  (∀ index, after.tlb index = none) ∨
    after.rights = before.rights ∧ ∀ index entry, after.tlb index = some entry →
      SameTables before.memory after.memory entry.satp

/-- Both parts of a step are quiet: up to a pending interrupt, and from the fetch
on. -/
structure QuietStep (vm : Vm) : Prop where
  prepares : ∀ prepared, vm.prepare = some prepared → vm.Quiet prepared
  executes : ∀ prepared, vm.prepare = some prepared → prepared.Quiet prepared.stepInner.1

/-- Whatever a step of a machine takes from the cache the walk would find too. -/
def HitsMatchWalk (vm : Vm) : Prop :=
  ∀ before vaddr accessType pa, vm.Translates before vaddr accessType →
    before.translationActive = true → before.tlbLookup vaddr accessType before.satp = some pa →
      ∃ found, translate before.memory before.satp (before.walkAccess vaddr accessType) =
        .ok found ∧ found.pa = pa

variable {before vm translated ready after : Vm} {vaddr pa : Word} {accessType : AccessType}

theorem tlbSound_of_empty (empty : ∀ index, vm.tlb index = none) : vm.TlbSound := by
  intro index entry cached
  rw [empty index] at cached
  cases cached

theorem tlbLookup_hit {satp : Word} (hit : vm.tlbLookup vaddr accessType satp = some pa) :
    ∃ index entry, vm.tlb index = some entry ∧ vaddr >>> 12 = entry.vpn ∧ entry.satp = satp ∧
      entry.allows accessType = true ∧ (entry.ppn <<< 12) ||| (vaddr &&& 0xFFF) = pa := by
  cases accessType <;>
  · simp only [tlbLookup] at hit
    split at hit
    · rename_i entry cached
      split at hit
      · rename_i matching
        exact ⟨_, entry, cached, matching.1.symm, matching.2.1, matching.2.2, Option.some.inj hit⟩
      · cases hit
    · cases hit

/-- A sound cache answers as the walk does. -/
theorem TlbSound.hit (sound : vm.TlbSound)
    (hit : vm.tlbLookup vaddr accessType vm.satp = some pa) :
    ∃ found, translate vm.memory vm.satp (vm.walkAccess vaddr accessType) = .ok found ∧
      found.pa = pa := by
  obtain ⟨index, entry, cached, page, space, allowed, address⟩ := tlbLookup_hit hit
  obtain ⟨found, ok, same⟩ := (sound index entry cached).walks vaddr accessType page allowed
  rw [space] at ok
  exact ⟨found, ok, same.trans address⟩

/-- A translation that misses the cache walks, and caches what it finds. -/
theorem translateAddr_cases (ok : vm.translateAddr vaddr accessType = (translated, some pa)) :
    translated = vm ∨ ∃ found,
      translate vm.memory vm.satp (vm.rights.access vaddr accessType) = .ok found ∧
        translated.memory = found.memory vm.memory ∧ translated.rights = vm.rights ∧
        translated.tlb = Function.update vm.tlb ((pageBase vaddr >>> 12).setWidth 8)
          (some (found.entry vm.satp (vm.rights.access vaddr accessType))) := by
  simp only [translateAddr] at ok
  split at ok
  · cases ok
    exact .inl rfl
  · split at ok
    · rename_i found walked
      obtain ⟨rfl, -⟩ := Prod.mk.inj ok
      exact .inr ⟨found, walked, rfl, rfl, rfl⟩
    · cases ok

/-- A machine that is on its way through a step: its cache is sound, and neither
rights nor page tables have changed. -/
structure Tracks (before vm : Vm) : Prop where
  sound : vm.TlbSound
  rights : vm.rights = before.rights
  tables : ∀ satp, SameTables before.memory vm.memory satp

theorem TlbSound.tracks (sound : vm.TlbSound) : vm.Tracks vm :=
  ⟨sound, rfl, SameTables.refl vm.memory⟩

/-- At the end of a quiet stretch the cache is sound. -/
theorem Tracks.finish (tracks : before.Tracks vm) (tlb : after.tlb = vm.tlb)
    (quiet : before.Quiet after) : after.TlbSound := by
  rcases quiet with empty | ⟨sameRights, sameTables⟩
  · exact tlbSound_of_empty empty
  · intro index entry cached
    have tables := (tracks.tables entry.satp).symm.trans (sameTables index entry cached)
    rw [tlb] at cached
    have backed := (tracks.sound index entry cached).of_sameTables tables
    rw [tracks.rights, ← sameRights] at backed
    exact backed

/-- A translation puts backed entries into the cache. -/
theorem Tracks.translateAddr (tracks : before.Tracks vm) (active : vm.translationActive = true)
    (ok : vm.translateAddr vaddr accessType = (translated, some pa)) :
    before.Tracks translated := by
  have mode : (vm.satp >>> 60) &&& 0xF ≠ 0 := (of_decide_eq_true active).2.1
  rcases translateAddr_cases ok with rfl | ⟨found, walked, memory, rights, tlb⟩
  · exact tracks
  have kept := sameTables_update walked mode
  rw [← memory] at kept
  refine ⟨?_, rights.trans tracks.rights, fun satp => (tracks.tables satp).trans (kept satp)⟩
  intro index entry cached
  rw [rights]
  rw [tlb] at cached
  rcases eq_or_ne index ((pageBase vaddr >>> 12).setWidth 8) with rfl | elsewhere
  · rw [Function.update_self] at cached
    rw [← Option.some.inj cached, memory]
    exact Translation.entry_backed mode walked
  · rw [Function.update_of_ne elsewhere] at cached
    exact (tracks.sound index entry cached).of_sameTables (kept entry.satp)

theorem Tracks.translateFor (tracks : before.Tracks vm)
    (ok : vm.translateFor vaddr accessType = (translated, some pa)) :
    before.Tracks translated := by
  rw [Vm.translateFor] at ok
  split at ok
  · rename_i active
    exact tracks.translateAddr active ok
  · cases ok
    exact tracks

/-- A page fault leaves the cache alone. -/
theorem translateFor_fault_tlb (fault : vm.translateFor vaddr accessType = (after, none)) :
    after.tlb = vm.tlb := by
  unfold Vm.translateFor at fault
  split at fault
  · simp only [Vm.translateAddr] at fault
    split at fault
    · cases fault
    · split at fault
      · cases fault
      · cases fault
        rfl
  · cases fault

/-- An instruction leaves the cache of a machine on the way, or an empty one. -/
theorem Effect.tracks {insn : Instruction} (effect : ready.Effect insn after)
    (tracks : before.Tracks ready) :
    (∃ machine, before.Tracks machine ∧ after.tlb = machine.tlb) ∨
      ∀ index, after.tlb index = none := by
  cases effect with
  | runs keeps => exact .inl ⟨ready, tracks, keeps.tlb⟩
  | accesses _ translates keeps => exact .inl ⟨_, tracks.translateFor translates, keeps.tlb⟩
  | faults fault => exact .inl ⟨ready, tracks, translateFor_fault_tlb fault⟩
  | traps cause => exact .inl ⟨ready, tracks, rfl⟩
  | writesCsr written keeps => exact .inl ⟨ready, tracks, keeps.tlb⟩
  | returnsMachine => exact .inr fun _ => rfl
  | returnsSupervisor allowed =>
      rw [executeSret, if_neg (ne_true_of_eq_false allowed)]
      exact .inl ⟨ready, tracks, rfl⟩
  | flushes pc => exact .inr fun _ => rfl

theorem Tracks.forget (tracks : before.Tracks vm) :
    before.Tracks { vm with lastFetched := none } :=
  ⟨tracks.sound, tracks.rights, tracks.tables⟩

/-- A fetch ends with the cache of a machine on the way. -/
theorem Tracks.fetch (tracks : before.Tracks vm) :
    ∃ machine, before.Tracks machine ∧ vm.fetch.machine.tlb = machine.tlb ∧
      ∀ ready fetched, vm.fetch = .fetched ready fetched → before.Tracks ready := by
  simp only [Vm.fetch]
  cases translates : Vm.translateFor { vm with lastFetched := none } vm.cpu.pc .execute with
  | mk translated found =>
      cases found with
      | none =>
          refine ⟨_, tracks.forget, translateFor_fault_tlb translates, fun ready fetched => ?_⟩
          rintro ⟨⟩
      | some pa =>
          have onWay := tracks.forget.translateFor translates
          refine ⟨translated, onWay, ?_⟩
          dsimp only
          cases fetchDecode translated.memory pa with
          | ok insn =>
              refine ⟨rfl, fun ready fetched same => ?_⟩
              cases same
              exact ⟨onWay.sound, onWay.rights, onWay.tables⟩
          | error e =>
              dsimp only
              split
              · refine ⟨rfl, fun ready fetched => ?_⟩
                rintro ⟨⟩
              · refine ⟨rfl, fun ready fetched => ?_⟩
                rintro ⟨⟩

@[simp]
theorem retire_tlb (vm : Vm) : vm.retire.tlb = vm.tlb := by
  unfold retire
  split <;> rfl

theorem prepare_tlb {prepared : Vm} (prepares : vm.prepare = some prepared) :
    prepared.tlb = vm.tlb := by
  rw [prepare_eq] at prepares
  obtain ⟨ticked, ticks, rfl⟩ := Option.map_eq_some_iff.1 prepares
  have kept : ticked.tlb = vm.tlb := by
    rw [tick] at ticks
    split at ticks
    · simp only [tickDevices] at ticks
      obtain ⟨processed, _, rfl⟩ := Option.map_eq_some_iff.1 ticks
      rfl
    · cases ticks
      rfl
  rw [← kept, takeInterrupt]
  split <;> rfl

/-- The part of a step behind the interrupts keeps a sound cache, if it is quiet. -/
theorem TlbSound.stepInner (sound : vm.TlbSound) (quiet : vm.Quiet vm.stepInner.1) :
    vm.stepInner.1.TlbSound := by
  obtain ⟨machine, onWay, same, ready⟩ := sound.tracks.fetch
  rw [Vm.stepInner] at quiet ⊢
  cases fetches : vm.fetch with
  | fetched fetchedVm fetched =>
      rw [fetches] at quiet
      have effect := execute_effect fetchedVm fetched.instruction
      have ended : ∀ last : Vm, last.tlb = (fetchedVm.execute fetched.instruction).1.tlb →
          vm.Quiet last → last.TlbSound := by
        intro last kept quiet
        rcases effect.tracks (ready _ _ fetches) with ⟨before, tracks, tlb⟩ | empty
        · exact tracks.finish (kept.trans tlb) quiet
        · exact tlbSound_of_empty fun index => (congrFun kept index).trans (empty index)
      dsimp only at quiet ⊢
      cases ran : fetchedVm.execute fetched.instruction with
      | mk after result =>
          rw [ran] at quiet ended
          cases result with
          | ok _ => exact ended _ (retire_tlb after) quiet
          | error e => exact ended _ rfl quiet
  | trapped trapped =>
      rw [fetches] at quiet same
      exact onWay.finish same quiet
  | failed failed e =>
      rw [fetches] at quiet same
      exact onWay.finish same quiet

theorem TlbSound.prepare {prepared : Vm} (sound : vm.TlbSound)
    (prepares : vm.prepare = some prepared) (quiet : vm.Quiet prepared) : prepared.TlbSound :=
  sound.tracks.finish (prepare_tlb prepares) quiet

/-- A quiet step keeps a sound cache. -/
theorem TlbSound.step {result : Except VmError Unit} (sound : vm.TlbSound)
    (quiet : vm.QuietStep) (stepped : vm.step = some (after, result)) : after.TlbSound := by
  rw [Vm.step] at stepped
  split at stepped
  · cases stepped
    exact sound
  · obtain ⟨prepared, prepares, inner⟩ := Option.map_eq_some_iff.1 stepped
    have ready := sound.prepare prepares (quiet.prepares prepared prepares)
    have ended := ready.stepInner (quiet.executes prepared prepares)
    rw [inner] at ended
    exact ended

/-- Quiet steps keep the cache sound, however many. -/
theorem Run.tlbSound {start : Vm} {steps : List Vm} (fresh : ∀ index, start.tlb index = none)
    (run : Run start steps vm) (quiet : ∀ machine ∈ steps, machine.QuietStep) :
    vm.TlbSound := by
  induction run with
  | refl => exact tlbSound_of_empty fresh
  | step run stepped hypothesis =>
      have sound := hypothesis fun machine member => quiet machine (List.mem_append_left _ member)
      exact sound.step (quiet _ (List.mem_append_right _ List.mem_cons_self)) stepped

/-- In every run from an empty cache whose steps are quiet, the translations that
are answered from the cache are those of the walk. -/
theorem tlb_matches_walk {start : Vm} {steps : List Vm}
    (fresh : ∀ index, start.tlb index = none) (run : Run start steps vm)
    (quiet : ∀ machine ∈ steps, machine.QuietStep)
    (calm : ∀ prepared, vm.prepare = some prepared → vm.Quiet prepared) :
    vm.HitsMatchWalk := by
  intro before vaddr accessType pa translates active hit
  have sound := run.tlbSound fresh quiet
  cases translates with
  | fetch running prepares =>
      have ready := (sound.prepare prepares (calm _ prepares)).tracks.forget
      exact ready.sound.hit hit
  | data running prepares fetches accesses =>
      obtain ⟨-, -, -, ready⟩ := (sound.prepare prepares (calm _ prepares)).tracks.fetch
      exact (ready _ _ fetches).sound.hit hit

/-- A supervisor that runs one instruction on a gigapage of its own. -/
def supervisorVm (insn : Instruction) : Vm :=
  let csrs := CsrFile.new.writeUnchecked Addr.satp ((8 <<< 60) ||| 1)
  .newPrivileged { CpuState.new with privMode := .supervisor, csrs := csrs }
    ((Memory.new.storeDouble 0x1000 0xCF).storeWord 0 insn.encode)

theorem prepare_memory {prepared : Vm} (bare : vm.mmio.virtioDevices = [])
    (prepares : vm.prepare = some prepared) : prepared.memory = vm.memory := by
  rw [prepare_eq] at prepares
  obtain ⟨ticked, ticks, rfl⟩ := Option.map_eq_some_iff.1 prepares
  have kept : ticked.memory = vm.memory := by
    rw [tick] at ticks
    split at ticks
    · rw [tickDevices, bare] at ticks
      cases ticks
      rfl
    · cases ticks
      rfl
  rw [← kept, takeInterrupt]
  split <;> rfl

/-- A machine without disks that takes no interrupt starts its step quietly. -/
theorem quiet_prepare {prepared : Vm} (bare : vm.mmio.virtioDevices = [])
    (prepares : vm.prepare = some prepared) (same : prepared.rights = vm.rights) :
    vm.Quiet prepared := by
  refine .inr ⟨same, fun _ entry _ => ?_⟩
  rw [prepare_memory bare prepares]
  exact .refl _ _

theorem KeepsControl.rights (keeps : vm.KeepsControl after) : after.rights = vm.rights := by
  rw [Vm.rights, Vm.rights, keeps.csrs, keeps.privMode]

theorem retire_rights (vm : Vm) : vm.retire.rights = vm.rights := by
  unfold retire
  split <;> rfl

theorem retire_memory (vm : Vm) : vm.retire.memory = vm.memory := by
  unfold retire
  split <;> rfl

theorem stepInner_jump {fetched : FetchedInstruction} {rd : Reg} {imm : Imm}
    (fetches : vm.fetch = .fetched ready fetched) (jumps : fetched.instruction = .jal rd imm) :
    vm.stepInner.1 =
      ((ready.writeReg rd ready.sequentialPc).setPc (ready.cpu.pc + imm.word)).retire := by
  rw [stepInner, fetches]
  dsimp only
  rw [jumps]
  rfl

/-- A jump is quiet. -/
theorem quiet_jump {fetched : FetchedInstruction} {rd : Reg} {imm : Imm} (sound : vm.TlbSound)
    (fetches : vm.fetch = .fetched ready fetched) (jumps : fetched.instruction = .jal rd imm) :
    vm.Quiet vm.stepInner.1 := by
  obtain ⟨-, -, -, onWay⟩ := sound.tracks.fetch
  have tracks := onWay _ _ fetches
  have ended := stepInner_jump fetches jumps
  have written := keeps_writeReg ready rd ready.sequentialPc
  refine .inr ⟨?_, fun _ entry _ => ?_⟩
  · rw [ended, retire_rights, ← tracks.rights]
    exact written.rights
  · rw [ended, retire_memory]
    exact tracks.tables entry.satp

/-- What a fetch that did not trap read and decoded. -/
def FetchOutcome.decoded : FetchOutcome → Option FetchedInstruction
  | .fetched _ insn => some insn
  | _ => none

theorem FetchOutcome.decoded_eq_some {outcome : FetchOutcome} {insn : FetchedInstruction}
    (reads : outcome.decoded = some insn) : ∃ ready, outcome = .fetched ready insn := by
  cases outcome with
  | fetched ready read =>
      cases reads
      exact ⟨ready, rfl⟩
  | trapped ready => cases reads
  | failed ready error => cases reads

def jumpsInPlace : Vm := supervisorVm (.jal 0 0)

/-- A supervisor that jumps in place. -/
theorem tlb_matches_walk_jump : ∃ after result, jumpsInPlace.step = some (after, result) ∧
    after.HitsMatchWalk := by
  have ran : (jumpsInPlace.prepare.bind fun prepared =>
      prepared.fetch.decoded.bind fun fetched =>
        prepared.stepInner.1.prepare.map fun again =>
          (fetched.instruction, decide (prepared.rights = jumpsInPlace.rights),
            decide (again.rights = prepared.stepInner.1.rights),
            prepared.stepInner.1.mmio.virtioDevices.isEmpty)) =
      some (.jal 0 0, true, true, true) := by
    decide
  obtain ⟨prepared, prepares, rest⟩ := Option.bind_eq_some_iff.1 ran
  have fresh : ∀ index, jumpsInPlace.tlb index = none := fun _ => rfl
  have stepped : jumpsInPlace.step = some prepared.stepInner := step_of_prepare rfl prepares
  obtain ⟨fetched, reads, facts⟩ := Option.bind_eq_some_iff.1 rest
  obtain ⟨ready, fetches⟩ := FetchOutcome.decoded_eq_some reads
  obtain ⟨again, preparesAgain, facts⟩ := Option.map_eq_some_iff.1 facts
  simp only [Prod.mk.injEq, decide_eq_true_eq] at facts
  obtain ⟨jumps, rights, rightsAgain, bare⟩ := facts
  have first := @quiet_prepare jumpsInPlace prepared rfl prepares rights
  have sound := (tlbSound_of_empty fresh).prepare prepares first
  refine ⟨_, _, stepped, tlb_matches_walk fresh (.step .refl stepped) ?_ ?_⟩
  · intro machine member
    rw [List.nil_append, List.mem_singleton] at member
    subst member
    refine ⟨fun other also => ?_, fun other also => ?_⟩
    · rw [← Option.some.inj (prepares.symm.trans also)]
      exact first
    · rw [← Option.some.inj (prepares.symm.trans also)]
      exact quiet_jump sound fetches jumps
  · intro other also
    rw [← Option.some.inj (preparesAgain.symm.trans also)]
    exact quiet_prepare (List.isEmpty_iff.1 bare) preparesAgain rightsAgain

/-- The instruction may store to memory. -/
def stores : Instruction → Bool
  | .store _ _ _ _ => true
  | .sc _ _ _ _ _ _ => true
  | .amo _ _ _ _ _ _ _ => true
  | _ => false

/-- A step does not execute a store. -/
def StoresNothing (vm : Vm) : Prop :=
  ∀ prepared ready fetched, vm.prepare = some prepared →
    prepared.fetch = .fetched ready fetched → stores fetched.instruction = false

def returnsToUser : Vm := supervisorVm .sret

/-- A supervisor that returns to user mode: the user fetches its page from the
cache, although the walk would fault. -/
theorem sret_leaves_supervisor_page :
    ¬ ∀ (start : Vm) (steps : List Vm) (vm : Vm), start.privileged = true →
      (∀ index, start.tlb index = none) → Run start steps vm →
        (∀ machine ∈ steps, machine.StoresNothing) → vm.HitsMatchWalk := by
  intro claimed
  have ran : (returnsToUser.prepare.bind fun prepared =>
      prepared.fetch.decoded.bind fun fetched =>
        prepared.stepInner.1.prepare.map fun again =>
          (stores fetched.instruction, prepared.stepInner.1.halted, again.translationActive,
            again.tlbLookup again.cpu.pc .execute again.satp,
            (translate again.memory again.satp
              (again.walkAccess again.cpu.pc .execute)).toOption.isSome)) =
      some (false, false, true, some 0, false) := by
    decide
  obtain ⟨prepared, prepares, rest⟩ := Option.bind_eq_some_iff.1 ran
  have stepped : returnsToUser.step = some prepared.stepInner := step_of_prepare rfl prepares
  obtain ⟨fetched, reads, facts⟩ := Option.bind_eq_some_iff.1 rest
  obtain ⟨ready, fetches⟩ := FetchOutcome.decoded_eq_some reads
  obtain ⟨again, preparesAgain, facts⟩ := Option.map_eq_some_iff.1 facts
  simp only [Prod.mk.injEq] at facts
  obtain ⟨storesNot, running, active, hit, faults⟩ := facts
  obtain ⟨found, ok, -⟩ := claimed returnsToUser _ _ rfl (fun _ => rfl) (.step .refl stepped)
    (fun machine member => by
      rw [List.nil_append, List.mem_singleton] at member
      subst member
      intro other readyOther fetchedOther also fetchesOther
      rw [← Option.some.inj (prepares.symm.trans also), fetches] at fetchesOther
      cases fetchesOther
      exact storesNot)
    _ _ _ _ (.fetch running preparesAgain) active hit
  have walk : translate again.memory again.satp (again.walkAccess again.cpu.pc .execute) =
      .ok found := ok
  rw [walk] at faults
  cases faults

end Vm

end MetaVm.Riscv
