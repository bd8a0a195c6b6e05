import MetaVm.Lib.Walk
import MetaVm.Zkp.Proof

namespace MetaVm.Zkp

open Relation

/-! The fork choice: from the root down, always to the heaviest child. -/

namespace ForkChoice

/-- A candidate block, with the votes for it and its descendants. -/
@[ext]
structure Block where
  blockIndex : BitVec 64
  parentIndex : BitVec 64
  blockHash : Hash32
  parentHash : Hash32
  attestationWeight : BitVec 64
deriving DecidableEq

structure LmdGhostRow extends Block where
  isHead : Bool
  isMaxChild : Bool
  isRoot : Bool

structure LmdGhostForkChoiceWitness where
  rows : List LmdGhostRow
  headBlockHash : Hash32

def zeroHash : Hash32 := ⟨List.replicate 32 0, rfl⟩

instance : Inhabited Block := ⟨⟨0, 0, zeroHash, zeroHash, 0⟩⟩

/-- What the root has for a parent. -/
def sentinel : BitVec 64 := 0xFFFFFFFFFFFFFFFF

def fromRows (rows : List LmdGhostRow) : LmdGhostForkChoiceWitness where
  rows := rows
  headBlockHash :=
    (((rows.filter fun r => r.isHead).getLast?).map fun r => r.blockHash).getD zeroHash

section Builder

/-- By parent, then the heavier first, then by index. -/
def before (a b : Block) : Bool :=
  a.parentIndex < b.parentIndex ∨ (a.parentIndex = b.parentIndex ∧
    (b.attestationWeight < a.attestationWeight ∨
      (b.attestationWeight = a.attestationWeight ∧ a.blockIndex ≤ b.blockIndex)))

variable (blocks : List Block)

def blockAt (i : ℕ) : Block := blocks.getD i default

/-- The first row of its parent's group. The root's group has none. -/
def isMaxChild (i : ℕ) : Bool :=
  (blockAt blocks i).parentIndex ≠ sentinel ∧
    (i = 0 ∨ (blockAt blocks i).parentIndex ≠ (blockAt blocks (i - 1)).parentIndex)

def findRoot : Option ℕ :=
  (List.range blocks.length).find? fun i => (blockAt blocks i).parentIndex = sentinel

def findChild (currentHeadBlockIndex : BitVec 64) : Option ℕ :=
  (List.range blocks.length).find? fun i =>
    (blockAt blocks i).parentIndex = currentHeadBlockIndex ∧ isMaxChild blocks i

/-- The loop along the head path, as far as so many iterations take it. -/
def walkHead : ℕ → BitVec 64 → List Bool → Option (List Bool)
  | 0, _, _ => none
  | iterations + 1, currentHeadBlockIndex, isHead =>
      match findChild blocks currentHeadBlockIndex with
      | some i => walkHead iterations (blockAt blocks i).blockIndex (isHead.set i true)
      | none => some isHead

def rowsOf (isHead : List Bool) : List LmdGhostRow :=
  (List.range blocks.length).map fun i =>
    { blockAt blocks i with
      isHead := isHead.getD i false
      isMaxChild := isMaxChild blocks i
      isRoot := (blockAt blocks i).parentIndex = sentinel }

/-- The witness, if there is a root. Nothing at all comes out of a loop that is still going on. -/
def fromBlocks (iterations : ℕ) : Option (Option LmdGhostForkChoiceWitness) :=
  if blocks.isEmpty then some none
  else
    let sorted := blocks.mergeSort before
    match findRoot sorted with
    | none => some none
    | some rootPos =>
        let isHead := (List.replicate sorted.length false).set rootPos true
        (walkHead sorted iterations (blockAt sorted rootPos).blockIndex isHead).map fun isHead =>
          some (fromRows (rowsOf sorted isHead))

end Builder

/-! What the head path is. -/

section Path

variable (blocks : List Block)

/-- Of the blocks with this parent, one of the heaviest with the least index. -/
structure IsHeaviest (parent : BitVec 64) (block : Block) : Prop where
  mem : block ∈ blocks
  parent_eq : block.parentIndex = parent
  heaviest : ∀ other ∈ blocks, other.parentIndex = parent →
    other.attestationWeight < block.attestationWeight ∨
      (other.attestationWeight = block.attestationWeight ∧ block.blockIndex ≤ other.blockIndex)

/-- From the index of a block to that of its heaviest child. -/
def Follows (parent child : BitVec 64) : Prop :=
  parent ≠ sentinel ∧ ∃ block, IsHeaviest blocks parent block ∧ block.blockIndex = child

/-- From the root, heaviest children lead to a block and from there back to it. -/
def Circular : Prop :=
  ∃ root, IsHeaviest blocks sentinel root ∧ ∃ index,
    ReflTransGen (Follows blocks) root.blockIndex index ∧ TransGen (Follows blocks) index index

end Path

section Sorted

variable {blocks : List Block} {i : ℕ} {index : BitVec 64}

theorem before_iff {a b : Block} : before a b = true ↔
    a.parentIndex < b.parentIndex ∨ (a.parentIndex = b.parentIndex ∧
      (b.attestationWeight < a.attestationWeight ∨
        (b.attestationWeight = a.attestationWeight ∧ a.blockIndex ≤ b.blockIndex))) := by
  rw [before, decide_eq_true_eq]

theorem before_trans (a b c : Block) (first : before a b = true) (second : before b c = true) :
    before a c = true := by
  rw [before_iff] at *
  simp only [BitVec.lt_def, BitVec.le_def, ← BitVec.toNat_inj] at *
  omega

theorem before_total (a b : Block) : (before a b || before b a) = true := by
  rw [Bool.or_eq_true, before_iff, before_iff]
  simp only [BitVec.lt_def, BitVec.le_def, ← BitVec.toNat_inj]
  omega

theorem pairwise_sorted (blocks : List Block) :
    (blocks.mergeSort before).Pairwise fun a b => before a b = true :=
  List.pairwise_mergeSort before_trans before_total blocks

theorem blockAt_mem (inside : i < blocks.length) : blockAt blocks i ∈ blocks := by
  rw [blockAt, List.getD_eq_getElem _ _ inside]
  exact List.getElem_mem inside

theorem exists_blockAt {block : Block} (mem : block ∈ blocks) :
    ∃ i < blocks.length, blockAt blocks i = block := by
  obtain ⟨i, inside, rfl⟩ := List.mem_iff_getElem.1 mem
  exact ⟨i, inside, List.getD_eq_getElem _ _ inside⟩

theorem before_blockAt (sorted : blocks.Pairwise fun a b => before a b = true) {j : ℕ}
    (inside : j < blocks.length) (less : i < j) :
    before (blockAt blocks i) (blockAt blocks j) = true := by
  rw [blockAt, blockAt, List.getD_eq_getElem _ _ inside,
    List.getD_eq_getElem _ _ (less.trans inside)]
  exact List.pairwise_iff_getElem.1 sorted i j _ _ less

/-- The first of a group is its heaviest. -/
theorem isHeaviest_first (sorted : blocks.Pairwise fun a b => before a b = true)
    (inside : i < blocks.length) (parent : (blockAt blocks i).parentIndex = index)
    (first : ∀ j < i, (blockAt blocks j).parentIndex ≠ index) :
    IsHeaviest blocks index (blockAt blocks i) := by
  refine ⟨blockAt_mem inside, parent, ?_⟩
  intro other mem sibling
  obtain ⟨j, within, rfl⟩ := exists_blockAt mem
  rcases Nat.lt_trichotomy i j with behind | rfl | ahead
  · rcases before_iff.1 (before_blockAt sorted within behind) with less | ⟨-, order⟩
    · rw [parent, sibling] at less
      exact absurd less (BitVec.lt_irrefl _)
    · exact order
  · exact .inr ⟨rfl, BitVec.le_refl _⟩
  · exact absurd sibling (first j ahead)

theorem findRoot_isHeaviest (sorted : blocks.Pairwise fun a b => before a b = true)
    (found : findRoot blocks = some i) :
    i < blocks.length ∧ IsHeaviest blocks sentinel (blockAt blocks i) := by
  obtain ⟨root, inside, first⟩ := List.find?_range_eq_some.1 found
  have within := List.mem_range.1 inside
  refine ⟨within, isHeaviest_first sorted within (of_decide_eq_true root) ?_⟩
  intro j ahead
  simpa using first j ahead

theorem findRoot_eq_none (none : findRoot blocks = none) :
    ∀ block ∈ blocks, block.parentIndex ≠ sentinel := by
  intro block mem
  obtain ⟨i, inside, rfl⟩ := exists_blockAt mem
  simpa using List.find?_range_eq_none.1 none i inside

theorem isMaxChild_iff : isMaxChild blocks i = true ↔
    (blockAt blocks i).parentIndex ≠ sentinel ∧
      (i = 0 ∨ (blockAt blocks i).parentIndex ≠ (blockAt blocks (i - 1)).parentIndex) := by
  rw [isMaxChild, decide_eq_true_eq]

/-- Where the first child of a block stands. -/
theorem findChild_eq_some (sorted : blocks.Pairwise fun a b => before a b = true)
    (found : findChild blocks index = some i) :
    i < blocks.length ∧ index ≠ sentinel ∧ IsHeaviest blocks index (blockAt blocks i) := by
  obtain ⟨child, inside, first⟩ := List.find?_range_eq_some.1 found
  have within := List.mem_range.1 inside
  obtain ⟨parent, group⟩ := of_decide_eq_true child
  obtain ⟨real, start⟩ := isMaxChild_iff.1 group
  refine ⟨within, parent ▸ real, isHeaviest_first sorted within parent ?_⟩
  intro j ahead sibling
  -- Everything between two siblings is a sibling, so the one in front of `i` is.
  have positive : i ≠ 0 := Nat.ne_of_gt (Nat.zero_lt_of_lt ahead)
  have apart := start.resolve_left positive
  apply apart
  rw [parent]
  rcases Nat.lt_or_eq_of_le (Nat.le_sub_one_of_lt ahead) with between | rfl
  · have lower := before_iff.1 (before_blockAt sorted (by omega) between)
    have upper := before_iff.1 (before_blockAt sorted within (Nat.sub_one_lt positive))
    rw [sibling] at lower
    rw [parent] at upper
    simp only [BitVec.lt_def, BitVec.le_def, ← BitVec.toNat_inj] at lower upper ⊢
    omega
  · exact sibling.symm

theorem findChild_eq_none (none : findChild blocks index = none) (real : index ≠ sentinel) :
    ∀ block ∈ blocks, block.parentIndex ≠ index := by
  have each := List.find?_range_eq_none.1 none
  have all : ∀ i < blocks.length, (blockAt blocks i).parentIndex ≠ index := by
    intro i
    induction i with
    | zero =>
        intro inside parent
        have group : isMaxChild blocks 0 = true := isMaxChild_iff.2 ⟨parent ▸ real, .inl rfl⟩
        exact absurd (each 0 inside) (by simp [parent, group])
    | succ i hypothesis =>
        intro inside parent
        have apart := hypothesis (Nat.lt_of_succ_lt inside)
        have group : isMaxChild blocks (i + 1) = true :=
          isMaxChild_iff.2 ⟨parent ▸ real, .inr (by rw [parent]; exact apart.symm)⟩
        exact absurd (each (i + 1) inside) (by simp [parent, group])
  intro block mem
  obtain ⟨i, inside, rfl⟩ := exists_blockAt mem
  exact all i inside

/-- The index that the walk goes on to. -/
def childIndex (blocks : List Block) (index : BitVec 64) : Option (BitVec 64) :=
  (findChild blocks index).map fun i => (blockAt blocks i).blockIndex

theorem IsHeaviest.index_unique {parent : BitVec 64} {first second : Block}
    (heaviest : IsHeaviest blocks parent first) (other : IsHeaviest blocks parent second) :
    first.blockIndex = second.blockIndex := by
  have forth := heaviest.heaviest second other.mem other.parent_eq
  have back := other.heaviest first heaviest.mem heaviest.parent_eq
  simp only [BitVec.lt_def, BitVec.le_def, ← BitVec.toNat_inj] at *
  omega

theorem childIndex_iff (sorted : blocks.Pairwise fun a b => before a b = true)
    {parent child : BitVec 64} : childIndex blocks parent = some child ↔
      Follows blocks parent child := by
  constructor
  · intro step
    obtain ⟨i, found, rfl⟩ := Option.map_eq_some_iff.1 step
    obtain ⟨-, real, heaviest⟩ := findChild_eq_some sorted found
    exact ⟨real, _, heaviest, rfl⟩
  · rintro ⟨real, block, heaviest, rfl⟩
    rw [childIndex]
    cases found : findChild blocks parent with
    | none => exact absurd heaviest.parent_eq (findChild_eq_none found real _ heaviest.mem)
    | some i =>
        have first := (findChild_eq_some sorted found).2.2
        exact congrArg some (first.index_unique heaviest)

end Sorted

/-! The loop ends where the walk along heaviest children ends. -/

section Walk

variable {blocks : List Block} {index : BitVec 64}

theorem isHeaviest_mergeSort {parent : BitVec 64} {block : Block} :
    IsHeaviest (blocks.mergeSort before) parent block ↔ IsHeaviest blocks parent block := by
  constructor
  · rintro ⟨mem, parent, heaviest⟩
    exact ⟨List.mem_mergeSort.1 mem, parent, fun other inside =>
      heaviest other (List.mem_mergeSort.2 inside)⟩
  · rintro ⟨mem, parent, heaviest⟩
    exact ⟨List.mem_mergeSort.2 mem, parent, fun other inside =>
      heaviest other (List.mem_mergeSort.1 inside)⟩

theorem step_childIndex (blocks : List Block) :
    Walk.Step (childIndex (blocks.mergeSort before)) = Follows blocks := by
  funext parent child
  apply propext
  rw [Walk.Step, childIndex_iff (pairwise_sorted blocks)]
  simp only [Follows, isHeaviest_mergeSort]

theorem walkHead_isSome {iterations : ℕ} {isHead : List Bool} :
    (walkHead blocks iterations index isHead).isSome ↔
      Walk.after (childIndex blocks) iterations index = none := by
  induction iterations generalizing index isHead with
  | zero => exact ⟨nofun, nofun⟩
  | succ iterations hypothesis =>
      rw [walkHead, Walk.after, childIndex]
      cases findChild blocks index with
      | none => exact ⟨fun _ => rfl, fun _ => rfl⟩
      | some i => exact hypothesis

theorem circular_iff {rootPos : ℕ} (found : findRoot (blocks.mergeSort before) = some rootPos) :
    Circular blocks ↔ Walk.Circular (childIndex (blocks.mergeSort before))
      (blockAt (blocks.mergeSort before) rootPos).blockIndex := by
  have root := isHeaviest_mergeSort.1 (findRoot_isHeaviest (pairwise_sorted blocks) found).2
  rw [Walk.Circular, step_childIndex]
  constructor
  · rintro ⟨other, heaviest, circular⟩
    rwa [heaviest.index_unique root] at circular
  · intro circular
    exact ⟨_, root, circular⟩

/-- The root stands at no place that the walk goes on to. -/
theorem after_length_eq_none {rootPos : ℕ} (sorted : blocks.Pairwise fun a b => before a b = true)
    (found : findRoot blocks = some rootPos)
    (straight : ¬ Walk.Circular (childIndex blocks) index) :
    Walk.after (childIndex blocks) blocks.length index = none := by
  let places := ((Finset.range blocks.length).erase rootPos).image fun i =>
    (blockAt blocks i).blockIndex
  obtain ⟨inside, root⟩ := findRoot_isHeaviest sorted found
  have stays : ∀ a b, childIndex blocks a = some b → b ∈ places := by
    intro a b step
    obtain ⟨i, child, rfl⟩ := Option.map_eq_some_iff.1 step
    obtain ⟨within, real, heaviest⟩ := findChild_eq_some sorted child
    apply Finset.mem_image_of_mem
    rw [Finset.mem_erase, Finset.mem_range]
    refine ⟨?_, within⟩
    rintro rfl
    exact real (heaviest.parent_eq.symm.trans root.parent_eq)
  have few : places.card + 1 ≤ blocks.length := by
    have fewer := Finset.card_erase_lt_of_mem (Finset.mem_range.2 inside)
    rw [Finset.card_range] at fewer
    exact Nat.succ_le_of_lt (Finset.card_image_le.trans_lt fewer)
  exact Walk.after_eq_none_of_le (Walk.after_eq_none stays straight) few

theorem fromBlocks_isSome {iterations rootPos : ℕ}
    (found : findRoot (blocks.mergeSort before) = some rootPos) :
    (fromBlocks blocks iterations).isSome ↔
      Walk.after (childIndex (blocks.mergeSort before)) iterations
        (blockAt (blocks.mergeSort before) rootPos).blockIndex = none := by
  have some : ¬ blocks.isEmpty := by
    intro empty
    rw [List.isEmpty_iff.1 empty, List.mergeSort_nil] at found
    cases found
  rw [fromBlocks, if_neg some]
  dsimp only
  rw [found]
  dsimp only
  rw [Option.isSome_map, walkHead_isSome]

theorem fromBlocks_of_no_root {iterations : ℕ}
    (none : findRoot (blocks.mergeSort before) = none) :
    fromBlocks blocks iterations = some Option.none := by
  rw [fromBlocks]
  split
  · rfl
  · dsimp only
    rw [none]

theorem not_isSome_of_circular (circular : Circular blocks) (iterations : ℕ) :
    ¬ (fromBlocks blocks iterations).isSome := by
  cases found : findRoot (blocks.mergeSort before) with
  | none =>
      obtain ⟨root, heaviest, -⟩ := circular
      exact absurd heaviest.parent_eq
        (findRoot_eq_none found root (List.mem_mergeSort.2 heaviest.mem))
  | some rootPos =>
      rw [fromBlocks_isSome found]
      exact ((circular_iff found).1 circular).after_ne_none iterations

theorem isSome_of_straight (straight : ¬ Circular blocks) :
    (fromBlocks blocks blocks.length).isSome := by
  cases found : findRoot (blocks.mergeSort before) with
  | none =>
      rw [fromBlocks_of_no_root found]
      rfl
  | some rootPos =>
      have sameLength := @List.length_mergeSort _ before blocks
      rw [fromBlocks_isSome found, ← sameLength]
      exact after_length_eq_none (pairwise_sorted blocks) found (mt (circular_iff found).2 straight)

/-- The loop ends within as many iterations as there are blocks, exactly where no cycle of
heaviest children can be reached from the root. -/
theorem fromBlocks_ends_iff (blocks : List Block) :
    (fromBlocks blocks blocks.length).isSome ↔ ¬ Circular blocks :=
  ⟨fun ended circular => not_isSome_of_circular circular _ ended, isSome_of_straight⟩

/-- A root, and a block that has the root's index and is its own parent. -/
def selfParent : List Block :=
  [⟨0, sentinel, zeroHash, zeroHash, 0⟩, ⟨0, 0, zeroHash, zeroHash, 0⟩]

theorem circular_selfParent : Circular selfParent := by
  have root : IsHeaviest selfParent sentinel ⟨0, sentinel, zeroHash, zeroHash, 0⟩ := by
    refine ⟨List.mem_cons_self, rfl, ?_⟩
    intro other mem root
    simp only [selfParent, List.mem_cons, List.not_mem_nil, or_false] at mem
    obtain rfl | rfl := mem
    · exact .inr ⟨rfl, BitVec.le_refl _⟩
    · cases root
  have child : IsHeaviest selfParent 0 ⟨0, 0, zeroHash, zeroHash, 0⟩ := by
    refine ⟨List.mem_cons_of_mem _ List.mem_cons_self, rfl, ?_⟩
    intro other mem parent
    simp only [selfParent, List.mem_cons, List.not_mem_nil, or_false] at mem
    obtain rfl | rfl := mem
    · cases parent
    · exact .inr ⟨rfl, BitVec.le_refl _⟩
  exact ⟨_, root, 0, .refl, .single ⟨by decide, _, child, rfl⟩⟩

theorem fromBlocks_never_ends : ¬ ∀ blocks, ∃ iterations ≤ blocks.length,
    (fromBlocks blocks iterations).isSome := by
  intro ends
  obtain ⟨iterations, -, ended⟩ := ends selfParent
  exact not_isSome_of_circular circular_selfParent iterations ended

end Walk

end ForkChoice

end MetaVm.Zkp
