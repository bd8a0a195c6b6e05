import MetaVm.Riscv.Machine.Translation

namespace MetaVm.Riscv

/-! The three-level walk as the privileged architecture describes it, on the bits of the
entries. -/

namespace Sv39

/-- The entry is valid, and not writable without being readable. -/
def Valid (entry : Word) : Prop :=
  entry.getLsbD 0 = true ∧ (entry.getLsbD 2 = true → entry.getLsbD 1 = true)

def Leaf (entry : Word) : Prop := entry.getLsbD 1 = true ∨ entry.getLsbD 3 = true

def ppn (entry : Word) : BitVec 44 := (entry >>> 10).setWidth 44

/-- The bits above the page number are reserved. -/
def Reserved (entry : Word) : Prop := entry >>> 54 ≠ 0

/-- In an entry that points to a table, so are the user, accessed and dirty bits. -/
def ReservedTable (entry : Word) : Prop :=
  Reserved entry ∨ entry.getLsbD 4 = true ∨ entry.getLsbD 6 = true ∨ entry.getLsbD 7 = true

/-- The address of a page of physical memory. -/
def pageAddress (number : BitVec 44) : Word := number.setWidth 64 <<< 12

/-- The upper bits repeat the bit 38. -/
def CanonicalAddress (vaddr : Word) : Prop := (vaddr.setWidth 39).signExtend 64 = vaddr

/-- From the table at an address through the entries `tables` to a leaf and its level. -/
inductive Walk (memory : Memory) (vaddr : Word) : ℕ → Word → List Word → ℕ → Word → Prop
  | leaf {level : ℕ} {a entry : Word} (stands : memory.loadDouble (tableSlot vaddr level a) = entry)
      (valid : Valid entry) (isLeaf : Leaf entry) : Walk memory vaddr level a [] level entry
  | table {level found : ℕ} {a entry last : Word} {tables : List Word}
      (stands : memory.loadDouble (tableSlot vaddr (level + 1) a) = entry) (valid : Valid entry)
      (notLeaf : ¬ Leaf entry)
      (rest : Walk memory vaddr level (pageAddress (ppn entry)) tables found last) :
      Walk memory vaddr (level + 1) a (entry :: tables) found last

/-- The page of a leaf starts at a multiple of its size. -/
def Aligned (level : ℕ) (entry : Word) : Prop := (ppn entry).setWidth (9 * level) = 0

/-- The bits of a leaf that an access asks for, and the rule on user pages. -/
structure Allows (access : Access) (entry : Word) : Prop where
  read : access.accessType = .read →
    entry.getLsbD 1 = true ∨ access.mxr = true ∧ entry.getLsbD 3 = true
  write : access.accessType = .write → entry.getLsbD 2 = true
  execute : access.accessType = .execute → entry.getLsbD 3 = true
  user : access.privilege = 0 → entry.getLsbD 4 = true
  supervisor : access.privilege = 1 → entry.getLsbD 4 = true → access.sum = true

/-- A supervisor is about to execute a user page. -/
def RunsUserPage (access : Access) (entry : Word) : Prop :=
  access.privilege = 1 ∧ access.accessType = .execute ∧ entry.getLsbD 4 = true

/-- The low bits of the virtual address behind the upper bits of the page number. -/
def Splices (level : ℕ) (vaddr entry pa : Word) : Prop :=
  ∀ bit < 64, pa.getLsbD bit =
    if bit < 12 + 9 * level then vaddr.getLsbD bit else (ppn entry).getLsbD (bit - 12)

def rootTable (satp : Word) : Word := pageAddress (satp.setWidth 44)

/-- The entries have no reserved bit set. -/
def Unreserved (tables : List Word) (entry : Word) : Prop :=
  (∀ table ∈ tables, ¬ ReservedTable table) ∧ ¬ Reserved entry

/-- The algorithm succeeds with a physical address. -/
def Maps (memory : Memory) (satp : Word) (access : Access) (pa : Word) : Prop :=
  CanonicalAddress access.vaddr ∧ ∃ tables level entry,
    Walk memory access.vaddr 2 (rootTable satp) tables level entry ∧ Unreserved tables entry ∧
      Aligned level entry ∧ Allows access entry ∧ ¬ RunsUserPage access entry ∧
        Splices level access.vaddr entry pa

section Walks

variable {memory : Memory} {vaddr : Word} {level found : ℕ} {a last : Word} {tables : List Word}

theorem Walk.level_le (walk : Walk memory vaddr level a tables found last) : found ≤ level := by
  induction walk with
  | leaf => exact le_rfl
  | table _ _ _ _ hypothesis => exact hypothesis.trans (Nat.le_succ _)

/-- A walk has one outcome. -/
theorem Walk.unique {others : List Word} {otherFound : ℕ} {otherLast : Word}
    (walk : Walk memory vaddr level a tables found last)
    (other : Walk memory vaddr level a others otherFound otherLast) :
    tables = others ∧ found = otherFound ∧ last = otherLast := by
  induction walk generalizing others with
  | leaf stands _ isLeaf =>
      subst stands
      cases other with
      | leaf stands => exact ⟨rfl, rfl, stands⟩
      | table stands _ notLeaf => exact absurd (stands ▸ isLeaf) notLeaf
  | table stands _ notLeaf _ hypothesis =>
      subst stands
      cases other with
      | leaf stands _ isLeaf => exact absurd (stands ▸ isLeaf) notLeaf
      | table stands _ _ rest =>
          subst stands
          obtain ⟨rfl, same⟩ := hypothesis rest
          exact ⟨rfl, same⟩

end Walks

end Sv39

/-! The code's tests on an entry are tests of its bits. -/

namespace PageTableEntry

open Sv39

variable (pte : PageTableEntry)

theorem user_eq : pte.user = pte.val.getLsbD 4 :=
  flag_eq (show IsBit (1 <<< 4) 4 from ⟨by decide, rfl⟩) pte.val

theorem valid_iff : (pte.valid = true ∧ (pte.write && !pte.read) = false) ↔ Valid pte.val := by
  rw [valid_eq, write_eq, read_eq, Valid]
  cases pte.val.getLsbD 2 <;> simp

theorem isLeaf_iff : pte.isLeaf = true ↔ Leaf pte.val := by
  rw [PageTableEntry.isLeaf, read_eq, execute_eq, Leaf, Bool.or_eq_true]

/-- The low bits of a word. -/
theorem and_mask (x : Word) (count : ℕ) :
    x &&& BitVec.ofNat 64 (2 ^ count - 1) = (x.setWidth count).setWidth 64 := by
  apply BitVec.eq_of_getLsbD_eq
  intro index inWord
  rw [BitVec.getLsbD_and, BitVec.getLsbD_ofNat, Nat.testBit_two_pow_sub_one,
    BitVec.getLsbD_setWidth, BitVec.getLsbD_setWidth, decide_eq_true inWord, Bool.true_and,
    Bool.true_and, Bool.and_comm]

theorem ppn_eq : pte.ppn = (Sv39.ppn pte.val).setWidth 64 :=
  and_mask (pte.val >>> 10) 44

theorem setWidth_eq_zero_iff {width : ℕ} (x : BitVec width) (count : ℕ) :
    x.setWidth count = 0 ↔ ∀ index < count, x.getLsbD index = false := by
  constructor
  · intro zero index inside
    have bit := congrArg (BitVec.getLsbD · index) zero
    rw [BitVec.getLsbD_setWidth, decide_eq_true inside, Bool.true_and] at bit
    exact bit.trans BitVec.getLsbD_zero
  · intro zeros
    apply BitVec.eq_of_getLsbD_eq
    intro index inside
    rw [BitVec.getLsbD_setWidth, zeros index inside, Bool.and_false]
    exact BitVec.getLsbD_zero.symm

theorem aligned_iff_bits (entry : Word) {level : ℕ} (small : level ≤ 2) :
    Aligned level entry ↔ ∀ index < 9 * level, entry.getLsbD (10 + index) = false := by
  rw [Aligned, setWidth_eq_zero_iff]
  refine forall₂_congr fun index inside => ?_
  have inNumber : index < 44 := by omega
  rw [Sv39.ppn, BitVec.getLsbD_setWidth, BitVec.getLsbD_ushiftRight, decide_eq_true inNumber,
    Bool.true_and]

theorem ppnI_eq_zero_iff (start : ℕ) :
    (pte.val >>> start) &&& 0x1FF = 0 ↔ ∀ index < 9, pte.val.getLsbD (start + index) = false := by
  have mask : (pte.val >>> start) &&& 0x1FF = ((pte.val >>> start).setWidth 9).setWidth 64 :=
    and_mask _ 9
  have narrow : ((pte.val >>> start).setWidth 9).setWidth 64 = 0 ↔
      (pte.val >>> start).setWidth 9 = 0 := by
    constructor
    · intro zero
      have back := congrArg (BitVec.setWidth 9) zero
      rwa [BitVec.setWidth_setWidth_of_le _ (by decide), BitVec.setWidth_eq] at back
    · intro zero
      rw [zero]
      rfl
  rw [mask, narrow, setWidth_eq_zero_iff]
  refine forall₂_congr fun index _ => ?_
  rw [BitVec.getLsbD_ushiftRight]

theorem misaligned_iff {level : ℕ} (small : level ≤ 2) :
    pte.misaligned level = false ↔ Aligned level pte.val := by
  rw [aligned_iff_bits pte.val small, PageTableEntry.misaligned, decide_eq_false_iff_not, not_or,
    not_and, not_and, not_ne_iff, not_ne_iff]
  have low : pte.ppnI 0 = 0 ↔ ∀ index < 9, pte.val.getLsbD (10 + index) = false :=
    pte.ppnI_eq_zero_iff 10
  have high : pte.ppnI 1 = 0 ↔ ∀ index < 9, pte.val.getLsbD (19 + index) = false :=
    pte.ppnI_eq_zero_iff 19
  rw [low, high]
  constructor
  · rintro ⟨lower, upper⟩ index inside
    by_cases below : index < 9
    · exact lower (by omega) index below
    · obtain ⟨offset, rfl⟩ := Nat.exists_eq_add_of_le (Nat.not_lt.1 below)
      have place : 10 + (9 + offset) = 19 + offset := by omega
      rw [place]
      exact upper (by omega) offset (by omega)
  · intro zeros
    refine ⟨fun _ index inside => zeros index (by omega), fun _ index inside => ?_⟩
    have place : 19 + index = 10 + (9 + index) := by omega
    rw [place]
    exact zeros _ (by omega)

theorem permitted_iff (access : Access) : access.permitted pte = true ↔ Allows access pte.val := by
  have levels : (if pte.user then !(access.privilege = 1 && !access.sum)
      else !(access.privilege = 0 : Bool)) = true ↔
      (access.privilege = 0 → pte.val.getLsbD 4 = true) ∧
        (access.privilege = 1 → pte.val.getLsbD 4 = true → access.sum = true) := by
    rw [user_eq]
    cases pte.val.getLsbD 4 with
    | true => cases access.sum <;> simp
    | false => simp
  rw [Access.permitted, Bool.and_eq_true, read_eq, write_eq, execute_eq]
  refine (and_congr (c := (access.accessType = .read →
      pte.val.getLsbD 1 = true ∨ access.mxr = true ∧ pte.val.getLsbD 3 = true) ∧
    (access.accessType = .write → pte.val.getLsbD 2 = true) ∧
      (access.accessType = .execute → pte.val.getLsbD 3 = true)) ?_ levels).trans ?_
  · cases access.accessType <;> simp
  constructor
  · rintro ⟨⟨read, write, execute⟩, user, supervisor⟩
    exact ⟨read, write, execute, user, supervisor⟩
  · rintro ⟨read, write, execute, user, supervisor⟩
    exact ⟨⟨read, write, execute⟩, user, supervisor⟩

end PageTableEntry

/-! The address, bit by bit. -/

section Addresses

open Sv39 PageTableEntry

variable {access : Access} {pte : PageTableEntry} {bit : ℕ}

theorem getLsbD_low (x : Word) (count bit : ℕ) :
    (x &&& BitVec.ofNat 64 (2 ^ count - 1)).getLsbD bit =
      (decide (bit < count) && x.getLsbD bit) := by
  rw [and_mask, BitVec.getLsbD_setWidth, BitVec.getLsbD_setWidth]
  by_cases inWord : bit < 64
  · rw [decide_eq_true inWord, Bool.true_and]
  · rw [BitVec.getLsbD_of_ge x bit (Nat.not_lt.1 inWord), Bool.and_false, Bool.and_false]

theorem getLsbD_high (x : Word) (count bit : ℕ) :
    (x &&& ~~~BitVec.ofNat 64 (2 ^ count - 1)).getLsbD bit =
      (!decide (bit < count) && x.getLsbD bit) := by
  rw [BitVec.getLsbD_and, BitVec.getLsbD_not, BitVec.getLsbD_ofNat, Nat.testBit_two_pow_sub_one]
  by_cases inWord : bit < 64
  · rw [decide_eq_true inWord, Bool.true_and, Bool.true_and, Bool.and_comm]
  · rw [BitVec.getLsbD_of_ge x bit (Nat.not_lt.1 inWord), Bool.and_false, Bool.false_and]

theorem physical_splices {level : ℕ} (small : level ≤ 2) :
    Splices level access.vaddr pte.val (access.physical level pte) := by
  intro bit inWord
  have offset : access.vaddr &&& 0xFFF = access.vaddr &&& BitVec.ofNat 64 (2 ^ 12 - 1) := rfl
  have field (index : ℕ) : access.vpn index =
      (access.vaddr >>> (12 + 9 * index)) &&& BitVec.ofNat 64 (2 ^ 9 - 1) := rfl
  have number (index : ℕ) (inNumber : index < 64) :
      pte.ppn.getLsbD index = (Sv39.ppn pte.val).getLsbD index := by
    rw [ppn_eq, BitVec.getLsbD_setWidth, decide_eq_true inNumber, Bool.true_and]
  interval_cases level
  · have shape : access.physical 0 pte = (pte.ppn <<< 12) ||| (access.vaddr &&& 0xFFF) := rfl
    rw [shape, offset, BitVec.getLsbD_or, BitVec.getLsbD_shiftLeft, getLsbD_low,
      number _ (by omega)]
    by_cases low : bit < 12
    · simp [low, inWord]
    · simp [low, inWord]
  · have shape : access.physical 1 pte =
        ((pte.ppn &&& ~~~BitVec.ofNat 64 (2 ^ 9 - 1)) <<< 12) ||| (access.vpn 0 <<< 12) |||
          (access.vaddr &&& 0xFFF) := rfl
    rw [shape, offset, field]
    simp only [BitVec.getLsbD_or, BitVec.getLsbD_shiftLeft, getLsbD_low, getLsbD_high,
      BitVec.getLsbD_ushiftRight, number _ (show bit - 12 < 64 by omega)]
    by_cases low : bit < 12
    · have inside : bit < 21 := by omega
      simp [low, inside, inWord]
    · by_cases inside : bit < 21
      · have inField : bit - 12 < 9 := by omega
        have place : 12 + (bit - 12) = bit := by omega
        simp [low, inside, inField, place, inWord]
      · have outside : ¬ bit - 12 < 9 := by omega
        simp [low, inside, outside, inWord]
  · have shape : access.physical 2 pte =
        ((pte.ppn &&& ~~~BitVec.ofNat 64 (2 ^ 18 - 1)) <<< 12) ||| (access.vpn 1 <<< 21) |||
          (access.vpn 0 <<< 12) ||| (access.vaddr &&& 0xFFF) := rfl
    rw [shape, offset, field, field]
    simp only [BitVec.getLsbD_or, BitVec.getLsbD_shiftLeft, getLsbD_low, getLsbD_high,
      BitVec.getLsbD_ushiftRight, number _ (show bit - 12 < 64 by omega)]
    by_cases inside : bit < 30
    · have inNumber : bit - 12 < 18 := by omega
      by_cases low : bit < 12
      · have below : bit < 21 := by omega
        simp [low, below, inside, inWord]
      · by_cases below : bit < 21
        · have inField : bit - 12 < 9 := by omega
          have place : 12 + (bit - 12) = bit := by omega
          simp [low, below, inside, inField, inNumber, place, inWord]
        · have outField : ¬ bit - 12 < 9 := by omega
          have inUpper : bit - 21 < 9 := by omega
          have place : 21 + (bit - 21) = bit := by omega
          simp [low, below, inside, outField, inUpper, inNumber, place, inWord]
    · have low : ¬ bit < 12 := by omega
      have below : ¬ bit < 21 := by omega
      have outNumber : ¬ bit - 12 < 18 := by omega
      have outLower : ¬ bit - 12 < 9 := by omega
      have outUpper : ¬ bit - 21 < 9 := by omega
      simp [low, below, inside, outNumber, outLower, outUpper, inWord]

end Addresses

/-! The code's walk is the walk of the architecture, without the tests on reserved bits. -/

section Refinement

open Sv39 PageTableEntry

variable {memory : Memory} {vaddr satp : Word} {access : Access} {level found : ℕ}
  {a last pteAddr : Word} {tables : List Word} {pte : PageTableEntry}

theorem leafEntry_of_walk (walk : Walk memory vaddr level a tables found last) :
    ∃ pteAddr, leafEntry memory vaddr level a = some (found, pteAddr, ⟨last⟩) := by
  induction walk with
  | leaf stands valid isLeaf =>
      obtain ⟨isValid, plain⟩ := (valid_iff ⟨_⟩).2 valid
      exact ⟨_, leafEntry_of_leaf stands isValid plain ((isLeaf_iff ⟨_⟩).2 isLeaf)⟩
  | table stands valid notLeaf _ hypothesis =>
      obtain ⟨isValid, plain⟩ := (valid_iff ⟨_⟩).2 valid
      obtain ⟨pteAddr, rest⟩ := hypothesis
      have pointer := Bool.eq_false_of_not_eq_true (mt (isLeaf_iff ⟨_⟩).1 notLeaf)
      refine ⟨pteAddr, ?_⟩
      rw [leafEntry_of_table stands isValid plain pointer, ppn_eq]
      exact rest

theorem walk_of_leafEntry (finds : leafEntry memory vaddr level a = some (found, pteAddr, pte)) :
    ∃ tables, Walk memory vaddr level a tables found pte.val := by
  have atLeaf {level : ℕ} {a : Word}
      (finds : leafEntry memory vaddr level a = some (found, pteAddr, pte))
      (isLeaf : PageTableEntry.isLeaf ⟨memory.loadDouble (tableSlot vaddr level a)⟩ = true)
      (same : (found, pteAddr, pte) = (level, tableSlot vaddr level a,
        ⟨memory.loadDouble (tableSlot vaddr level a)⟩)) :
      Walk memory vaddr level a [] found pte.val := by
    obtain ⟨valid, plain, -⟩ := leafEntry_cases finds
    cases same
    exact .leaf rfl ((valid_iff _).1 ⟨valid, plain⟩) ((isLeaf_iff _).1 isLeaf)
  induction level generalizing a with
  | zero =>
      obtain ⟨-, -, ⟨isLeaf, same⟩ | ⟨-, next, impossible, -⟩⟩ := leafEntry_cases finds
      · exact ⟨[], atLeaf finds isLeaf same⟩
      · cases impossible
  | succ level hypothesis =>
      obtain ⟨valid, plain, ⟨isLeaf, same⟩ | ⟨notLeaf, next, succ, rest⟩⟩ :=
        leafEntry_cases finds
      · exact ⟨[], atLeaf finds isLeaf same⟩
      · cases succ
        rw [ppn_eq] at rest
        obtain ⟨tables, walk⟩ := hypothesis rest
        refine ⟨_, .table rfl ((valid_iff _).1 ⟨valid, plain⟩) ?_ walk⟩
        exact mt (isLeaf_iff ⟨memory.loadDouble (tableSlot vaddr (level + 1) a)⟩).2
          (ne_true_of_eq_false notLeaf)

/-- The code's test that the upper bits repeat the bit 38. -/
theorem canonical_iff (vaddr : Word) :
    CanonicalAddress vaddr ↔ ¬ ((vaddr >>> 38) &&& 1 = 0 ∧ vaddr >>> 39 ≠ 0) ∧
      ¬ ((vaddr >>> 38) &&& 1 = 1 ∧ vaddr >>> 39 ≠ 0x1FFFFFF) := by
  have sign : (vaddr >>> 38) &&& 1 = if vaddr.getLsbD 38 then 1 else 0 := by
    have bit := BitVec.getLsbD_ushiftRight vaddr 38 0
    rw [Nat.add_zero] at bit
    have masked : (vaddr >>> 38) &&& (1 : Word) =
        (BitVec.ofBool ((vaddr >>> 38).getLsbD 0)).setWidth 64 :=
      BitVec.and_one_eq_setWidth_ofBool_getLsbD
    rw [masked, bit]
    cases vaddr.getLsbD 38 <;> rfl
  have extended : (vaddr.setWidth 39).signExtend 64 = vaddr ↔
      vaddr >>> 39 = if vaddr.getLsbD 38 then 0x1FFFFFF else 0 := by
    have bits (index : ℕ) (inWord : index < 64) :
        ((vaddr.setWidth 39).signExtend 64).getLsbD index =
          if index < 39 then vaddr.getLsbD index else vaddr.getLsbD 38 := by
      rw [BitVec.getLsbD_signExtend, decide_eq_true inWord, Bool.true_and,
        BitVec.msb_eq_getLsbD_last, BitVec.getLsbD_setWidth, BitVec.getLsbD_setWidth]
      split
      · rename_i low
        rw [decide_eq_true low, Bool.true_and]
      · rfl
    have ones (index : ℕ) : ((if vaddr.getLsbD 38 then 0x1FFFFFF else 0 : Word)).getLsbD index =
        (vaddr.getLsbD 38 && decide (index < 25)) := by
      have mask : (0x1FFFFFF : Word) = BitVec.ofNat 64 (2 ^ 25 - 1) := rfl
      cases vaddr.getLsbD 38 with
      | false => exact BitVec.getLsbD_zero
      | true =>
          rw [if_pos rfl, mask, BitVec.getLsbD_ofNat, Nat.testBit_two_pow_sub_one, Bool.true_and]
          by_cases low : index < 25
          · simp [low, show index < 64 by omega]
          · simp [low]
    constructor
    · intro same
      apply BitVec.eq_of_getLsbD_eq
      intro index _
      rw [BitVec.getLsbD_ushiftRight, ones]
      by_cases low : index < 25
      · have bit := bits (39 + index) (by omega)
        rw [same, if_neg (by omega)] at bit
        rw [bit, decide_eq_true low, Bool.and_true]
      · rw [BitVec.getLsbD_of_ge _ _ (by omega), decide_eq_false low, Bool.and_false]
    · intro same
      apply BitVec.eq_of_getLsbD_eq
      intro index inWord
      rw [bits index inWord]
      split
      · rfl
      · have bit := congrArg (BitVec.getLsbD · (index - 39)) same
        have place : 39 + (index - 39) = index := by omega
        have inside : index - 39 < 25 := by omega
        rw [BitVec.getLsbD_ushiftRight, place, ones, decide_eq_true inside, Bool.and_true] at bit
        exact bit.symm
  rw [CanonicalAddress, extended, sign]
  cases vaddr.getLsbD 38 <;> simp

theorem rootTable_eq (satp : Word) : (satp &&& 0xFFFFFFFFFFF) <<< 12 = rootTable satp := by
  rw [rootTable, pageAddress, ← and_mask]
  rfl

theorem translate_of_canonical (mode : (satp >>> 60) &&& 0xF = 8)
    (canonical : CanonicalAddress access.vaddr) :
    translate memory satp access = access.walk memory 2 (rootTable satp) := by
  obtain ⟨low, high⟩ := (canonical_iff access.vaddr).1 canonical
  rw [translate]
  dsimp only
  rw [mode, if_neg (by decide), if_neg (by decide), if_neg low, if_neg high, rootTable_eq]

theorem translate_of_not_canonical (mode : (satp >>> 60) &&& 0xF = 8)
    (bent : ¬ CanonicalAddress access.vaddr) : translate memory satp access = .error access.fault := by
  rw [canonical_iff, not_and_or, not_not, not_not] at bent
  rw [translate]
  dsimp only
  rw [mode, if_neg (by decide), if_neg (by decide)]
  by_cases low : (access.vaddr >>> 38) &&& 1 = 0 ∧ access.vaddr >>> 39 ≠ 0
  · rw [if_pos low]
  · rw [if_neg low, if_pos (bent.resolve_left low)]

theorem leaf_ok_iff {result : Translation} :
    access.leaf level pteAddr pte = .ok result ↔
      pte.misaligned level = false ∧ access.permitted pte = true ∧
        result = ⟨access.physical level pte, access.pteUpdate pteAddr pte,
          (pte.val &&& 0xE).setWidth 8⟩ := by
  refine ⟨leaf_ok, ?_⟩
  rintro ⟨aligned, permitted, rfl⟩
  rw [PageTableEntry.misaligned, decide_eq_false_iff_not, not_or] at aligned
  rw [Access.leaf, if_neg aligned.1, if_neg aligned.2, if_pos permitted]

/-- The code translates what a walk maps, reserved bits and executed user pages aside. -/
theorem translate_ok_iff (mode : (satp >>> 60) &&& 0xF = 8) (pa : Word) :
    (∃ result, translate memory satp access = .ok result ∧ result.pa = pa) ↔
      CanonicalAddress access.vaddr ∧ ∃ tables level entry,
        Walk memory access.vaddr 2 (rootTable satp) tables level entry ∧ Aligned level entry ∧
          Allows access entry ∧ Splices level access.vaddr entry pa := by
  constructor
  · rintro ⟨result, ok, rfl⟩
    by_cases canonical : CanonicalAddress access.vaddr
    · refine ⟨canonical, ?_⟩
      rw [translate_of_canonical mode canonical, walk_eq] at ok
      split at ok
      · rename_i level pteAddr pte finds
        obtain ⟨tables, walk⟩ := walk_of_leafEntry finds
        obtain ⟨aligned, permitted, rfl⟩ := leaf_ok_iff.1 ok
        exact ⟨tables, level, pte.val, walk, (pte.misaligned_iff walk.level_le).1 aligned,
          (pte.permitted_iff access).1 permitted, physical_splices walk.level_le⟩
      · cases ok
    · rw [translate_of_not_canonical mode canonical] at ok
      cases ok
  · rintro ⟨canonical, tables, level, entry, walk, aligned, allows, splices⟩
    obtain ⟨pteAddr, finds⟩ := leafEntry_of_walk walk
    have same : access.physical level ⟨entry⟩ = pa := by
      apply BitVec.eq_of_getLsbD_eq
      intro bit inWord
      rw [splices bit inWord]
      exact physical_splices walk.level_le bit inWord
    refine ⟨⟨_, access.pteUpdate pteAddr ⟨entry⟩, (entry &&& 0xE).setWidth 8⟩, ?_, same⟩
    rw [translate_of_canonical mode canonical, walk_eq, finds]
    exact leaf_ok_iff.2 ⟨(misaligned_iff ⟨entry⟩ walk.level_le).2 aligned,
      (permitted_iff ⟨entry⟩ access).2 allows, rfl⟩

end Refinement

/-! A second translation finds the entry as the first one left it. -/

namespace PageTableEntry.SameMapping

variable {pte other : PageTableEntry} (same : pte.SameMapping other)

include same

theorem permitted (access : Access) : access.permitted other = access.permitted pte := by
  have user : other.user = pte.user := by
    rw [user_eq, user_eq, same 4 (by decide) (by decide)]
  have execute : other.execute = pte.execute := by
    rw [execute_eq, execute_eq, same 3 (by decide) (by decide)]
  rw [Access.permitted, Access.permitted, same.read, same.write, execute, user]

theorem physical (access : Access) (level : ℕ) :
    access.physical level other = access.physical level pte := by
  have number : other.ppn = pte.ppn := congrArg (· &&& 0xFFFFFFFFFFF) (same.shift (by decide))
  simp only [Access.physical, number]

theorem flags : (other.val &&& 0xE).setWidth 8 = (pte.val &&& 0xE).setWidth 8 := by
  have mask (index : ℕ) (marked : index = 6 ∨ index = 7) : (0xE : Word).getLsbD index = false := by
    rcases marked with rfl | rfl <;> decide
  apply BitVec.eq_of_getLsbD_eq
  intro index bounded
  rw [BitVec.getLsbD_setWidth, BitVec.getLsbD_setWidth, BitVec.getLsbD_and, BitVec.getLsbD_and]
  by_cases marked : index = 6 ∨ index = 7
  · simp only [mask index marked, Bool.and_false]
  · rw [not_or] at marked
    rw [same index marked.1 marked.2]

end PageTableEntry.SameMapping

section Correctness

open Sv39 PageTableEntry

variable {memory : Memory} {satp : Word} {access : Access} {result : Translation}

theorem pteUpdate_of_marked {pteAddr : Word} {pte : PageTableEntry} (accessed : pte.accessed = true)
    (dirty : access.accessType = .write → pte.dirty = true) :
    access.pteUpdate pteAddr pte = none := by
  rw [Access.pteUpdate]
  apply if_neg
  rw [accessed]
  cases type : access.accessType with
  | write => simp [dirty type]
  | read => simp
  | execute => simp

/-- Translating again after the update gives the same address and asks for no update. -/
theorem translate_again (mode : (satp >>> 60) &&& 0xF = 8)
    (ok : translate memory satp access = .ok result) :
    translate (result.memory memory) satp access = .ok { result with pteUpdate := none } := by
  have canonical : CanonicalAddress access.vaddr := by
    by_contra bent
    rw [translate_of_not_canonical mode bent] at ok
    cases ok
  rw [translate_of_canonical mode canonical, walk_eq] at ok
  split at ok
  case h_2 => cases ok
  rename_i level pteAddr pte finds
  obtain ⟨aligned, permitted, rfl⟩ := leaf_ok_iff.1 ok
  rw [Translation.memory]
  dsimp only
  cases update : access.pteUpdate pteAddr pte with
  | none =>
      rw [translate_of_canonical mode canonical, walk_eq, finds]
      exact leaf_ok_iff.2 ⟨aligned, permitted, by rw [update]⟩
  | some updated =>
      obtain ⟨slot, newVal⟩ := updated
      obtain ⟨rfl, same, accessed, dirty⟩ := pteUpdate_some update
      dsimp only
      rw [translate_of_canonical mode canonical, walk_eq,
        leafEntry_storeDouble finds (table_aligned _) same]
      refine leaf_ok_iff.2 ⟨(same.misaligned level).trans aligned,
        (same.permitted access).trans permitted, ?_⟩
      rw [same.physical, same.flags, pteUpdate_of_marked accessed dirty]

/-- Translation succeeds where the architecture's walk does and with its address, and once the
update is applied the same translation gives the same address without an update. -/
structure WalksCorrectly (memory : Memory) (satp : Word) (access : Access) : Prop where
  maps : ∀ pa, (∃ result, translate memory satp access = .ok result ∧ result.pa = pa) ↔
    Maps memory satp access pa
  again : ∀ result, translate memory satp access = .ok result →
    ∃ later, translate (result.memory memory) satp access = .ok later ∧
      later.pa = result.pa ∧ later.pteUpdate = none

/-- The code walks correctly exactly where no accepted walk meets a reserved bit or lets the
supervisor execute a user page. -/
theorem walksCorrectly_iff (mode : (satp >>> 60) &&& 0xF = 8) :
    WalksCorrectly memory satp access ↔
      ∀ tables level entry, CanonicalAddress access.vaddr →
        Walk memory access.vaddr 2 (rootTable satp) tables level entry → Aligned level entry →
          Allows access entry → Unreserved tables entry ∧ ¬ RunsUserPage access entry := by
  constructor
  · intro correct tables level entry canonical walk aligned allows
    have translated := (@translate_ok_iff memory satp access mode
      (access.physical level ⟨entry⟩)).2
        ⟨canonical, tables, level, entry, walk, aligned, allows, physical_splices walk.level_le⟩
    obtain ⟨-, others, otherLevel, otherEntry, otherWalk, unreserved, -, -, notUser, -⟩ :=
      (correct.maps _).1 translated
    obtain ⟨rfl, rfl, rfl⟩ := walk.unique otherWalk
    exact ⟨unreserved, notUser⟩
  · intro clean
    refine ⟨fun pa => ?_, fun result ok => ⟨_, translate_again mode ok, rfl, rfl⟩⟩
    rw [translate_ok_iff mode]
    refine and_congr_right fun canonical => ?_
    refine exists₃_congr fun tables level entry => ?_
    constructor
    · rintro ⟨walk, aligned, allows, splices⟩
      obtain ⟨unreserved, notUser⟩ := clean tables level entry canonical walk aligned allows
      exact ⟨walk, unreserved, aligned, allows, notUser, splices⟩
    · rintro ⟨walk, -, aligned, allows, -, splices⟩
      exact ⟨walk, aligned, allows, splices⟩

/-- A gigapage at the bottom of memory, with the flags of its entry. -/
def gigapage (flags : Word) : Memory := Memory.new.storeDouble 0x1000 flags

/-- A supervisor that may access user data fetches an instruction. -/
def fetchAt (vaddr : Word) : Access := ⟨vaddr, .execute, 1, true, false⟩

/-- The walk ends at the gigapage. -/
theorem walk_gigapage {flags entry : Word} {tables : List Word} {level : ℕ}
    (stands : (gigapage flags).loadDouble (tableSlot 0x1234 2 (rootTable 1)) = flags)
    (isLeaf : Leaf flags)
    (walk : Walk (gigapage flags) 0x1234 2 (rootTable 1) tables level entry) :
    tables = [] ∧ entry = flags := by
  cases walk with
  | leaf found => exact ⟨rfl, found.symm.trans stands⟩
  | table found _ notLeaf =>
      rw [stands] at found
      exact absurd (found ▸ isLeaf) notLeaf

/-- A supervisor executes its own gigapage. -/
theorem walksCorrectly_gigapage :
    WalksCorrectly (gigapage 0xCF) ((8 <<< 60) ||| 1) (fetchAt 0x1234) := by
  refine (walksCorrectly_iff (by decide)).2 ?_
  intro tables level entry _ walk _ _
  obtain ⟨rfl, rfl⟩ := walk_gigapage (by decide) (.inl rfl) walk
  refine ⟨⟨nofun, fun reserved => reserved (by decide)⟩, ?_⟩
  rintro ⟨-, -, user⟩
  revert user
  decide

/-- A supervisor may execute a user page when it may access user data. -/
theorem supervisor_executes_user_page :
    ¬ WalksCorrectly (gigapage 0xDF) ((8 <<< 60) ||| 1) (fetchAt 0x1234) := by
  intro correct
  have translated : translate (gigapage 0xDF) ((8 <<< 60) ||| 1) (fetchAt 0x1234) =
      .ok ⟨0x1234, none, 0xE⟩ := by
    decide
  obtain ⟨-, tables, level, entry, walk, -, -, -, notUser, -⟩ :=
    (correct.maps 0x1234).1 ⟨_, translated, rfl⟩
  obtain ⟨rfl, rfl⟩ := walk_gigapage (by decide) (.inl rfl) walk
  exact notUser ⟨rfl, rfl, by decide⟩

end Correctness

end MetaVm.Riscv
