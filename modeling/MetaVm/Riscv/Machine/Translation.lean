import MetaVm.Riscv.Machine.Bytes
import MetaVm.Riscv.Machine.Mmu
import MetaVm.Riscv.Machine.Cpu

namespace MetaVm.Riscv

/-! The entry that maps a page, and what translation does to it. -/

namespace PageTableEntry

/-- The leaf is too large for where it points. -/
def misaligned (pte : PageTableEntry) (level : ℕ) : Bool :=
  (1 ≤ level ∧ pte.ppnI 0 ≠ 0) ∨ (level = 2 ∧ pte.ppnI 1 ≠ 0)

theorem flag_eq {flag : Word} {index : ℕ} (single : IsBit flag index) (val : Word) :
    decide (val &&& flag ≠ 0) = val.getLsbD index := by
  rw [← Bool.coe_iff_coe, decide_eq_true_iff]
  exact single.and_ne_zero val

theorem valid_eq (pte : PageTableEntry) : pte.valid = pte.val.getLsbD 0 :=
  flag_eq (show IsBit 1 0 from ⟨by decide, rfl⟩) pte.val

theorem read_eq (pte : PageTableEntry) : pte.read = pte.val.getLsbD 1 :=
  flag_eq (show IsBit (1 <<< 1) 1 from ⟨by decide, rfl⟩) pte.val

theorem write_eq (pte : PageTableEntry) : pte.write = pte.val.getLsbD 2 :=
  flag_eq (show IsBit (1 <<< 2) 2 from ⟨by decide, rfl⟩) pte.val

theorem execute_eq (pte : PageTableEntry) : pte.execute = pte.val.getLsbD 3 :=
  flag_eq (show IsBit (1 <<< 3) 3 from ⟨by decide, rfl⟩) pte.val

theorem accessed_eq (pte : PageTableEntry) : pte.accessed = pte.val.getLsbD 6 :=
  flag_eq (show IsBit (1 <<< 6) 6 from ⟨by decide, rfl⟩) pte.val

theorem dirty_eq (pte : PageTableEntry) : pte.dirty = pte.val.getLsbD 7 :=
  flag_eq (show IsBit (1 <<< 7) 7 from ⟨by decide, rfl⟩) pte.val

/-- Two entries differ at most in their accessed and dirty bits. -/
def SameMapping (pte other : PageTableEntry) : Prop :=
  ∀ index, index ≠ 6 → index ≠ 7 → other.val.getLsbD index = pte.val.getLsbD index

namespace SameMapping

variable {pte other : PageTableEntry} (same : pte.SameMapping other)

include same

theorem valid : other.valid = pte.valid := by
  rw [valid_eq, valid_eq, same 0 (by decide) (by decide)]

theorem read : other.read = pte.read := by
  rw [read_eq, read_eq, same 1 (by decide) (by decide)]

theorem write : other.write = pte.write := by
  rw [write_eq, write_eq, same 2 (by decide) (by decide)]

theorem isLeaf : other.isLeaf = pte.isLeaf := by
  rw [PageTableEntry.isLeaf, PageTableEntry.isLeaf, same.read, execute_eq, execute_eq,
    same 3 (by decide) (by decide)]

theorem shift {amount : ℕ} (high : 8 ≤ amount) : other.val >>> amount = pte.val >>> amount := by
  apply BitVec.eq_of_getLsbD_eq
  intro index _
  rw [BitVec.getLsbD_ushiftRight, BitVec.getLsbD_ushiftRight]
  exact same _ (by omega) (by omega)

theorem misaligned (level : ℕ) : other.misaligned level = pte.misaligned level := by
  have low : other.ppnI 0 = pte.ppnI 0 := congrArg (· &&& 0x1FF) (same.shift (by decide))
  have high : other.ppnI 1 = pte.ppnI 1 := congrArg (· &&& 0x1FF) (same.shift (by decide))
  rw [PageTableEntry.misaligned, PageTableEntry.misaligned, low, high]

end SameMapping

end PageTableEntry

/-- Where the entry of a page stands in the table at `a`. -/
def tableSlot (vaddr : Word) (level : ℕ) (a : Word) : Word :=
  a + ((vaddr >>> (12 + 9 * level)) &&& 0x1FF) * 8

/-- The leaf that the walk finds, with its level and address, whatever it permits. -/
def leafEntry (memory : Memory) (vaddr : Word) (level : ℕ) (a : Word) :
    Option (ℕ × Word × PageTableEntry) :=
  let pte : PageTableEntry := ⟨memory.loadDouble (tableSlot vaddr level a)⟩
  if !pte.valid then none
  else if pte.write && !pte.read then none
  else if pte.isLeaf then some (level, tableSlot vaddr level a, pte)
  else
    match level with
    | 0 => none
    | next + 1 => leafEntry memory vaddr next (pte.ppn <<< 12)

theorem walk_eq (access : Access) (memory : Memory) (level : ℕ) (a : Word) :
    access.walk memory level a =
      match leafEntry memory access.vaddr level a with
      | some (found, pteAddr, pte) => access.leaf found pteAddr pte
      | none => .error access.fault := by
  have slot : ∀ level (a : Word), a + access.vpn level * 8 = tableSlot access.vaddr level a :=
    fun _ _ => rfl
  induction level generalizing a with
  | zero =>
      rw [Access.walk, leafEntry, slot]
      split
      · rfl
      split
      · rfl
      split <;> rfl
  | succ next hypothesis =>
      rw [Access.walk, leafEntry, slot]
      split
      · rfl
      split
      · rfl
      split
      · rfl
      · exact hypothesis _

section Leaf

variable {memory : Memory} {vaddr : Word} {level found : ℕ} {a pteAddr : Word}
  {pte other : PageTableEntry}

/-- How the walk reaches a leaf: at its own table or through an entry of it. -/
theorem leafEntry_cases (finds : leafEntry memory vaddr level a = some (found, pteAddr, pte)) :
    let here : PageTableEntry := ⟨memory.loadDouble (tableSlot vaddr level a)⟩
    here.valid = true ∧ (here.write && !here.read) = false ∧
      (here.isLeaf = true ∧ (found, pteAddr, pte) = (level, tableSlot vaddr level a, here) ∨
        here.isLeaf = false ∧ ∃ next, level = next + 1 ∧
          leafEntry memory vaddr next (here.ppn <<< 12) = some (found, pteAddr, pte)) := by
  dsimp only
  rw [leafEntry.eq_def] at finds
  dsimp only at finds
  split at finds
  · cases finds
  rename_i valid
  split at finds
  · cases finds
  rename_i reserved
  refine ⟨by simpa using valid, Bool.eq_false_of_not_eq_true reserved, ?_⟩
  split at finds
  · rename_i isLeaf
    exact .inl ⟨isLeaf, (Option.some.inj finds).symm⟩
  · rename_i notLeaf
    refine .inr ⟨Bool.eq_false_of_not_eq_true notLeaf, ?_⟩
    cases level with
    | zero => cases finds
    | succ next => exact ⟨next, rfl, finds⟩

theorem leafEntry_of_leaf
    (stands : memory.loadDouble (tableSlot vaddr level a) = pte.val) (valid : pte.valid = true)
    (notReserved : (pte.write && !pte.read) = false) (isLeaf : pte.isLeaf = true) :
    leafEntry memory vaddr level a = some (level, tableSlot vaddr level a, pte) := by
  rw [leafEntry.eq_def]
  simp [stands, valid, notReserved, isLeaf]

theorem leafEntry_of_table {next : ℕ}
    (stands : memory.loadDouble (tableSlot vaddr (next + 1) a) = pte.val)
    (valid : pte.valid = true) (notReserved : (pte.write && !pte.read) = false)
    (notLeaf : pte.isLeaf = false) :
    leafEntry memory vaddr (next + 1) a = leafEntry memory vaddr next (pte.ppn <<< 12) := by
  rw [leafEntry]
  simp [stands, valid, notReserved, notLeaf]

theorem tableSlot_aligned (aligned : 8 ∣ a.toNat) : 8 ∣ (tableSlot vaddr level a).toNat := by
  have eight : BitVec.toNat (8 : Word) = 8 := rfl
  rw [tableSlot, BitVec.toNat_add, BitVec.toNat_mul, eight]
  omega

theorem table_aligned (ppn : Word) : 8 ∣ (ppn <<< 12).toNat := by
  rw [BitVec.toNat_shiftLeft, Nat.shiftLeft_eq]
  omega

/-- A leaf stands in memory where the walk found it. -/
theorem leafEntry_stands (finds : leafEntry memory vaddr level a = some (found, pteAddr, pte))
    (aligned : 8 ∣ a.toNat) :
    pte = ⟨memory.loadDouble pteAddr⟩ ∧ pte.isLeaf = true ∧ 8 ∣ pteAddr.toNat := by
  induction level generalizing a with
  | zero =>
      obtain ⟨-, -, ⟨isLeaf, same⟩ | ⟨-, next, impossible, -⟩⟩ := leafEntry_cases finds
      · cases same
        exact ⟨rfl, isLeaf, tableSlot_aligned aligned⟩
      · cases impossible
  | succ level hypothesis =>
      obtain ⟨-, -, ⟨isLeaf, same⟩ | ⟨-, next, succ, rest⟩⟩ := leafEntry_cases finds
      · cases same
        exact ⟨rfl, isLeaf, tableSlot_aligned aligned⟩
      · cases succ
        exact hypothesis rest (table_aligned _)

/-- Setting the accessed and dirty bits of the leaf keeps the walk to it. -/
theorem leafEntry_storeDouble
    (finds : leafEntry memory vaddr level a = some (found, pteAddr, pte))
    (aligned : 8 ∣ a.toNat) (same : pte.SameMapping other) :
    leafEntry (memory.storeDouble pteAddr other.val) vaddr level a =
      some (found, pteAddr, other) := by
  have atLeaf : ∀ {level : ℕ} {a : Word}, pte.valid = true → (pte.write && !pte.read) = false →
      pte.isLeaf = true → found = level → pteAddr = tableSlot vaddr level a →
        leafEntry (memory.storeDouble pteAddr other.val) vaddr level a =
          some (found, pteAddr, other) := by
    rintro level a valid notReserved isLeaf rfl rfl
    refine leafEntry_of_leaf (memory.loadDouble_storeDouble _ _) ?_ ?_ ?_
    · rw [same.valid, valid]
    · rw [same.write, same.read, notReserved]
    · rw [same.isLeaf, isLeaf]
  obtain ⟨isPte, pteLeaf, pteAligned⟩ := leafEntry_stands finds aligned
  induction level generalizing a with
  | zero =>
      obtain ⟨valid, notReserved, ⟨isLeaf, isHere⟩ | ⟨-, next, impossible, -⟩⟩ :=
        leafEntry_cases finds
      · cases isHere
        exact atLeaf valid notReserved isLeaf rfl rfl
      · cases impossible
  | succ level hypothesis =>
      obtain ⟨valid, notReserved, ⟨isLeaf, isHere⟩ | ⟨notLeaf, next, succ, rest⟩⟩ :=
        leafEntry_cases finds
      · cases isHere
        exact atLeaf valid notReserved isLeaf rfl rfl
      · cases succ
        -- A table entry on the way is no leaf, so the leaf stands elsewhere.
        have apart : tableSlot vaddr (level + 1) a ≠ pteAddr := by
          intro here
          rw [here, ← isPte, pteLeaf] at notLeaf
          cases notLeaf
        have kept := memory.loadDouble_storeDouble_of_aligned other.val pteAligned
          (tableSlot_aligned aligned) apart
        rw [leafEntry_of_table kept valid notReserved notLeaf]
        exact hypothesis rest (table_aligned _)

end Leaf

/-- The leaf entry that maps a page, with its address. -/
def mappingEntry (memory : Memory) (satp vaddr : Word) : Option (Word × PageTableEntry) :=
  let bit38 := (vaddr >>> 38) &&& 1
  let upper := vaddr >>> 39
  if (satp >>> 60) &&& 0xF ≠ 8 then none
  else if bit38 = 0 ∧ upper ≠ 0 then none
  else if bit38 = 1 ∧ upper ≠ 0x1FFFFFF then none
  else
    match leafEntry memory vaddr 2 ((satp &&& 0xFFFFFFFFFFF) <<< 12) with
    | some (level, pteAddr, pte) => if pte.misaligned level then none else some (pteAddr, pte)
    | none => none

/-- The entry that maps a page shows that it was accessed, and for a write that it is dirty. -/
def Marked (memory : Memory) (satp vaddr : Word) (accessType : AccessType) : Prop :=
  ∃ pteAddr pte, mappingEntry memory satp vaddr = some (pteAddr, pte) ∧ pte.accessed = true ∧
    (accessType = .write → pte.dirty = true)

/-- The memory after the entry update of a translation. -/
def Translation.memory (found : Translation) (memory : Memory) : Memory :=
  match found.pteUpdate with
  | some (pteAddr, newPte) => memory.storeDouble pteAddr newPte
  | none => memory

variable {memory : Memory} {satp : Word} {access : Access} {found : Translation}

theorem leaf_ok {level : ℕ} {pteAddr : Word} {pte : PageTableEntry}
    (ok : access.leaf level pteAddr pte = .ok found) :
    pte.misaligned level = false ∧ access.permitted pte = true ∧
      found = ⟨access.physical level pte, access.pteUpdate pteAddr pte,
        (pte.val &&& 0xE).setWidth 8⟩ := by
  rw [Access.leaf] at ok
  split at ok
  · cases ok
  rename_i notMega
  split at ok
  · cases ok
  rename_i notGiga
  split at ok
  · rename_i permitted
    exact ⟨decide_eq_false (not_or.2 ⟨notMega, notGiga⟩), permitted, (Except.ok.inj ok).symm⟩
  · cases ok

/-- A translation that succeeds found a leaf that maps the page. -/
theorem translate_ok (ok : translate memory satp access = .ok found)
    (mode : (satp >>> 60) &&& 0xF ≠ 0) :
    ∃ level pteAddr pte,
      leafEntry memory access.vaddr 2 ((satp &&& 0xFFFFFFFFFFF) <<< 12) =
        some (level, pteAddr, pte) ∧
      (∀ other : Memory, ∀ newPte,
        leafEntry other access.vaddr 2 ((satp &&& 0xFFFFFFFFFFF) <<< 12) =
          some (level, pteAddr, newPte) → newPte.misaligned level = false →
            mappingEntry other satp access.vaddr = some (pteAddr, newPte)) ∧
      access.leaf level pteAddr pte = .ok found := by
  rw [translate] at ok
  dsimp only at ok
  rw [if_neg mode] at ok
  split at ok
  · cases ok
  rename_i isSv39
  split at ok
  · cases ok
  rename_i notLow
  split at ok
  · cases ok
  rename_i notHigh
  rw [walk_eq] at ok
  split at ok
  · rename_i level pteAddr pte finds
    refine ⟨level, pteAddr, pte, finds, ?_, ok⟩
    intro other newPte otherFinds aligned
    rw [mappingEntry]
    rw [if_neg isSv39, if_neg notLow, if_neg notHigh, otherFinds]
    dsimp only
    rw [aligned]
    rfl
  · cases ok

theorem pteUpdate_none {pteAddr : Word} {pte : PageTableEntry}
    (none : access.pteUpdate pteAddr pte = none) :
    pte.accessed = true ∧ (access.accessType = .write → pte.dirty = true) := by
  simp only [Access.pteUpdate] at none
  split at none
  · cases none
  · rename_i marked
    simpa using marked

theorem pteUpdate_some {pteAddr slot newVal : Word} {pte : PageTableEntry}
    (update : access.pteUpdate pteAddr pte = some (slot, newVal)) :
    slot = pteAddr ∧ pte.SameMapping ⟨newVal⟩ ∧
      PageTableEntry.accessed ⟨newVal⟩ = true ∧
        (access.accessType = .write → PageTableEntry.dirty ⟨newVal⟩ = true) := by
  have accessedBit : IsBit (1 <<< 6) 6 := ⟨by decide, rfl⟩
  have dirtyBit : IsBit (1 <<< 7) 7 := ⟨by decide, rfl⟩
  have raised : ∀ {flag index}, IsBit flag index → ∀ status : Word,
      (status ||| flag).getLsbD index = true := fun single status =>
    single.getLsbD_setFlag status true
  have kept : ∀ {flag index}, IsBit flag index → ∀ (status : Word) (other : ℕ), other ≠ index →
      (status ||| flag).getLsbD other = status.getLsbD other := by
    intro flag index single status other differs
    apply getLsbD_raise_of_not
    rw [single.getLsbD, decide_eq_false differs.symm]
  simp only [Access.pteUpdate] at update
  split at update
  · simp only [Option.some.injEq, Prod.mk.injEq] at update
    obtain ⟨rfl, isNew⟩ := update
    rw [PageTableEntry.accessed_eq, PageTableEntry.dirty_eq]
    split at isNew
    · subst isNew
      refine ⟨rfl, ?_, ?_, fun _ => raised dirtyBit _⟩
      · intro index notAccessed notDirty
        exact (kept dirtyBit _ index notDirty).trans (kept accessedBit _ index notAccessed)
      · exact (kept dirtyBit _ 6 (by decide)).trans (raised accessedBit _)
    · rename_i notNeeded
      subst isNew
      refine ⟨rfl, ?_, raised accessedBit _, ?_⟩
      · intro index notAccessed _
        exact kept accessedBit _ index notAccessed
      · intro isWrite
        rw [isWrite] at notNeeded
        have dirty : pte.dirty = true := by simpa using notNeeded
        rw [PageTableEntry.dirty_eq] at dirty
        exact (kept accessedBit _ 7 (by decide)).trans dirty
  · cases update

/-- After a translation the entry that maps the page is marked. -/
theorem translate_marks (ok : translate memory satp access = .ok found)
    (mode : (satp >>> 60) &&& 0xF ≠ 0) :
    Marked (found.memory memory) satp access.vaddr access.accessType := by
  obtain ⟨level, pteAddr, pte, finds, maps, isLeaf⟩ := translate_ok ok mode
  obtain ⟨aligned, -, rfl⟩ := leaf_ok isLeaf
  rw [Translation.memory]
  cases update : access.pteUpdate pteAddr pte with
  | none =>
      obtain ⟨accessed, dirty⟩ := pteUpdate_none update
      exact ⟨pteAddr, pte, maps memory pte finds aligned, accessed, dirty⟩
  | some updated =>
      obtain ⟨slot, newVal⟩ := updated
      obtain ⟨rfl, same, accessed, dirty⟩ := pteUpdate_some update
      refine ⟨slot, ⟨newVal⟩, maps _ _ ?_ ?_, accessed, dirty⟩
      · exact leafEntry_storeDouble finds (table_aligned _) same
      · rw [same.misaligned, aligned]

end MetaVm.Riscv
