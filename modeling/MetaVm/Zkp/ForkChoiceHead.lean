import MetaVm.Zkp.ForkChoice

namespace MetaVm.Zkp.ForkChoice

open Relation

/-! Block trees. The rows that are marked are those of the path, and the root's is the last. -/

/-- One root, and every other block below a block of the tree. -/
structure IsTree (blocks : List Block) : Prop where
  distinct : (blocks.map Block.blockIndex).Nodup
  small : ∀ block ∈ blocks, block.blockIndex < sentinel
  root : ∃! root, root ∈ blocks ∧ root.parentIndex = sentinel
  parent : ∀ block ∈ blocks, block.parentIndex ≠ sentinel →
    ∃ parent ∈ blocks, parent.blockIndex = block.parentIndex

/-- The path from the root along heaviest children. -/
inductive OnPath (blocks : List Block) : Block → Prop
  | root {block : Block} (mem : block ∈ blocks) (isRoot : block.parentIndex = sentinel) :
      OnPath blocks block
  | child {parent block : Block} (path : OnPath blocks parent)
      (heaviest : IsHeaviest blocks parent.blockIndex block) : OnPath blocks block

/-- The block of the path that has no children. -/
structure IsPathEnd (blocks : List Block) (block : Block) : Prop where
  path : OnPath blocks block
  childless : ∀ child ∈ blocks, child.parentIndex ≠ block.blockIndex

/-- A row for each block, marked on the path only. -/
structure MarksPath (blocks : List Block) (rows : List LmdGhostRow) : Prop where
  perm : (rows.map LmdGhostRow.toBlock).Perm blocks
  isHead_iff : ∀ row ∈ rows, row.isHead = true ↔ OnPath blocks row.toBlock

section Tree

variable {blocks : List Block} {root : Block} {index : BitVec 64}

theorem IsTree.eq_of_index (tree : IsTree blocks) {first second : Block} (mem : first ∈ blocks)
    (other : second ∈ blocks) (same : first.blockIndex = second.blockIndex) : first = second :=
  List.inj_on_of_nodup_map tree.distinct mem other same

theorem IsTree.real (tree : IsTree blocks) {block : Block} (mem : block ∈ blocks) :
    block.blockIndex ≠ sentinel :=
  BitVec.ne_of_lt (tree.small block mem)

theorem IsTree.heaviest_unique (tree : IsTree blocks) {first second : Block}
    (heaviest : IsHeaviest blocks index first) (other : IsHeaviest blocks index second) :
    first = second :=
  tree.eq_of_index heaviest.mem other.mem (heaviest.index_unique other)

/-- Heaviest children of a tree never lead back. -/
theorem IsTree.not_circular (tree : IsTree blocks) : ¬ Circular blocks := by
  rintro ⟨root, heaviest, index, reach, loop⟩
  induction reach with
  | refl =>
      obtain ⟨last, -, real, block, child, same⟩ := TransGen.tail'_iff.1 loop
      obtain rfl := tree.eq_of_index child.mem heaviest.mem same
      exact real (child.parent_eq.symm.trans heaviest.parent_eq)
  | tail _ step hypothesis =>
      obtain ⟨last, reach, -, block, child, same⟩ := TransGen.tail'_iff.1 loop
      obtain ⟨-, other, heaviest, same'⟩ := id step
      obtain rfl := tree.eq_of_index child.mem heaviest.mem (same.trans same'.symm)
      obtain rfl := child.parent_eq.symm.trans heaviest.parent_eq
      exact hypothesis (TransGen.head' step reach)

theorem OnPath.mem {block : Block} (path : OnPath blocks block) : block ∈ blocks := by
  cases path with
  | root mem => exact mem
  | child path heaviest => exact heaviest.mem

theorem exists_onPath (mem : root ∈ blocks) (isRoot : root.parentIndex = sentinel)
    (reach : ReflTransGen (Follows blocks) root.blockIndex index) :
    ∃ block, OnPath blocks block ∧ block.blockIndex = index := by
  induction reach with
  | refl => exact ⟨root, .root mem isRoot, rfl⟩
  | tail _ step hypothesis =>
      obtain ⟨parent, path, rfl⟩ := hypothesis
      obtain ⟨-, child, heaviest, rfl⟩ := step
      exact ⟨child, .child path heaviest, rfl⟩

theorem OnPath.reach (tree : IsTree blocks) (mem : root ∈ blocks)
    (isRoot : root.parentIndex = sentinel) {block : Block} (path : OnPath blocks block) :
    ReflTransGen (Follows blocks) root.blockIndex block.blockIndex := by
  induction path with
  | root other isOther =>
      obtain rfl := tree.root.unique ⟨mem, isRoot⟩ ⟨other, isOther⟩
      exact .refl
  | child path heaviest hypothesis =>
      exact hypothesis.tail ⟨tree.real path.mem, _, heaviest, rfl⟩

theorem onPath_iff (tree : IsTree blocks) (mem : root ∈ blocks)
    (isRoot : root.parentIndex = sentinel) {block : Block} :
    OnPath blocks block ↔ block = root ∨ ∃ parent, parent ≠ sentinel ∧
      ReflTransGen (Follows blocks) root.blockIndex parent ∧ IsHeaviest blocks parent block := by
  constructor
  · intro path
    cases path with
    | root other isOther => exact .inl (tree.root.unique ⟨other, isOther⟩ ⟨mem, isRoot⟩)
    | child path heaviest =>
        exact .inr ⟨_, tree.real path.mem, path.reach tree mem isRoot, heaviest⟩
  · rintro (rfl | ⟨parent, -, reach, heaviest⟩)
    · exact .root mem isRoot
    · obtain ⟨above, path, rfl⟩ := exists_onPath mem isRoot reach
      exact .child path heaviest

theorem IsTree.exists_rootPos (tree : IsTree blocks) (mem : root ∈ blocks)
    (isRoot : root.parentIndex = sentinel) :
    ∃ rootPos, findRoot (blocks.mergeSort before) = some rootPos ∧
      blockAt (blocks.mergeSort before) rootPos = root := by
  cases found : findRoot (blocks.mergeSort before) with
  | none => exact absurd isRoot (findRoot_eq_none found root (List.mem_mergeSort.2 mem))
  | some rootPos =>
      have heaviest := isHeaviest_mergeSort.1 (findRoot_isHeaviest (pairwise_sorted blocks) found).2
      exact ⟨rootPos, rfl,
        tree.root.unique ⟨heaviest.mem, heaviest.parent_eq⟩ ⟨mem, isRoot⟩⟩

theorem childIndex_eq_none_iff (real : index ≠ sentinel) :
    childIndex (blocks.mergeSort before) index = none ↔
      ∀ child ∈ blocks, child.parentIndex ≠ index := by
  rw [childIndex, Option.map_eq_none_iff]
  constructor
  · intro none child mem
    exact findChild_eq_none none real child (List.mem_mergeSort.2 mem)
  · intro childless
    cases found : findChild (blocks.mergeSort before) index with
    | none => rfl
    | some i =>
        have heaviest := (findChild_eq_some (pairwise_sorted blocks) found).2.2
        exact absurd heaviest.parent_eq (childless _ (isHeaviest_mergeSort.1 heaviest).mem)

/-- The end of the path, where the walk ends. -/
theorem IsTree.existsUnique_end (tree : IsTree blocks) : ∃! block, IsPathEnd blocks block := by
  obtain ⟨root, ⟨mem, isRoot⟩, -⟩ := tree.root
  obtain ⟨rootPos, found, rfl⟩ := tree.exists_rootPos mem isRoot
  have ended := after_length_eq_none (pairwise_sorted blocks) found
    (mt (circular_iff found).2 tree.not_circular)
  obtain ⟨index, reach, last⟩ := Walk.exists_end ended
  rw [step_childIndex] at reach
  obtain ⟨block, path, rfl⟩ := exists_onPath mem isRoot reach
  refine ⟨block, ⟨path, (childIndex_eq_none_iff (tree.real path.mem)).1 last⟩, ?_⟩
  intro other isEnd
  have otherReach := isEnd.path.reach tree mem isRoot
  have otherLast := (childIndex_eq_none_iff (tree.real isEnd.path.mem)).2 isEnd.childless
  rw [← step_childIndex] at reach otherReach
  exact tree.eq_of_index isEnd.path.mem path.mem (Walk.end_unique otherReach otherLast reach last)

theorem IsTree.blockAt_injective (tree : IsTree blocks) {i j : ℕ}
    (inside : i < (blocks.mergeSort before).length) (within : j < (blocks.mergeSort before).length)
    (same : blockAt (blocks.mergeSort before) i = blockAt (blocks.mergeSort before) j) : i = j := by
  have distinct : (blocks.mergeSort before).Nodup :=
    (List.mergeSort_perm blocks before).nodup_iff.2 (List.Nodup.of_map _ tree.distinct)
  rw [blockAt, blockAt, List.getD_eq_getElem _ _ inside, List.getD_eq_getElem _ _ within] at same
  exact (List.Nodup.getElem_inj_iff distinct).1 same

/-- No block comes behind the root's. -/
theorem IsTree.rootPos_eq (tree : IsTree blocks) {rootPos : ℕ}
    (found : findRoot (blocks.mergeSort before) = some rootPos) :
    rootPos + 1 = (blocks.mergeSort before).length := by
  obtain ⟨inside, heaviest⟩ := findRoot_isHeaviest (pairwise_sorted blocks) found
  have root := isHeaviest_mergeSort.1 heaviest
  by_contra early
  have within : rootPos + 1 < (blocks.mergeSort before).length := by omega
  have order := before_blockAt (pairwise_sorted blocks) within (Nat.lt_succ_self rootPos)
  have parent : (blockAt (blocks.mergeSort before) (rootPos + 1)).parentIndex = sentinel := by
    have top := (blockAt (blocks.mergeSort before) (rootPos + 1)).parentIndex.isLt
    have least := before_iff.1 order
    rw [root.parent_eq] at least
    simp only [sentinel, BitVec.lt_def, ← BitVec.toNat_inj] at least ⊢
    change _ = 2 ^ 64 - 1
    change 2 ^ 64 - 1 < _ ∨ (2 ^ 64 - 1 = _ ∧ _) at least
    omega
  have same := tree.root.unique ⟨List.mem_mergeSort.1 (blockAt_mem within), parent⟩
    ⟨root.mem, root.parent_eq⟩
  exact Nat.succ_ne_self rootPos (tree.blockAt_injective within inside same)

end Tree

section Marks

variable {blocks : List Block} {index : BitVec 64} {i : ℕ}

/-- The loop marks what it finds, and nothing else. -/
theorem walkHead_marks {iterations : ℕ} {isHead marked : List Bool}
    (walked : walkHead blocks iterations index isHead = some marked)
    (length : isHead.length = blocks.length) :
    marked.getD i false = true ↔ isHead.getD i false = true ∨
      ∃ parent, ReflTransGen (Walk.Step (childIndex blocks)) index parent ∧
        findChild blocks parent = some i := by
  induction iterations generalizing index isHead with
  | zero => cases walked
  | succ iterations hypothesis =>
      rw [walkHead] at walked
      cases found : findChild blocks index with
      | none =>
          rw [found] at walked
          obtain rfl := Option.some.inj walked
          refine ⟨.inl, ?_⟩
          rintro (marked | ⟨parent, reach, child⟩)
          · exact marked
          · rcases ReflTransGen.cases_head reach with rfl | ⟨next, step, -⟩
            · cases found.symm.trans child
            · rw [Walk.Step, childIndex, found] at step
              cases step
      | some j =>
          rw [found] at walked
          have inside : j < isHead.length :=
            length ▸ List.mem_range.1 (List.find?_range_eq_some.1 found).2.1
          have step : Walk.Step (childIndex blocks) index (blockAt blocks j).blockIndex := by
            rw [Walk.Step, childIndex, found]
            rfl
          rw [hypothesis walked ((List.length_set).trans length)]
          constructor
          · rintro (marked | ⟨parent, reach, child⟩)
            · by_cases same : j = i
              · subst same
                exact .inr ⟨index, .refl, found⟩
              · rw [List.getD_eq_getElem?_getD, List.getElem?_set_ne same,
                  ← List.getD_eq_getElem?_getD] at marked
                exact .inl marked
            · exact .inr ⟨parent, .head step reach, child⟩
          · rintro (marked | ⟨parent, reach, child⟩)
            · left
              by_cases same : j = i
              · subst same
                rw [List.getD_eq_getElem?_getD, List.getElem?_set_self inside]
                rfl
              · rw [List.getD_eq_getElem?_getD, List.getElem?_set_ne same,
                  ← List.getD_eq_getElem?_getD]
                exact marked
            · rcases ReflTransGen.cases_head reach with rfl | ⟨next, first, rest⟩
              · left
                obtain rfl := Option.some.inj (found.symm.trans child)
                rw [List.getD_eq_getElem?_getD, List.getElem?_set_self inside]
                rfl
              · obtain rfl := Option.some.inj (step.symm.trans first)
                exact .inr ⟨parent, rest, child⟩

theorem IsTree.findChild_iff (tree : IsTree blocks)
    (inside : i < (blocks.mergeSort before).length) :
    findChild (blocks.mergeSort before) index = some i ↔
      index ≠ sentinel ∧ IsHeaviest blocks index (blockAt (blocks.mergeSort before) i) := by
  constructor
  · intro found
    obtain ⟨-, real, heaviest⟩ := findChild_eq_some (pairwise_sorted blocks) found
    exact ⟨real, isHeaviest_mergeSort.1 heaviest⟩
  · rintro ⟨real, heaviest⟩
    cases found : findChild (blocks.mergeSort before) index with
    | none =>
        exact absurd heaviest.parent_eq
          (findChild_eq_none found real _ (List.mem_mergeSort.2 heaviest.mem))
    | some j =>
        obtain ⟨within, -, other⟩ := findChild_eq_some (pairwise_sorted blocks) found
        have same := tree.heaviest_unique (isHeaviest_mergeSort.1 other) heaviest
        rw [tree.blockAt_injective within inside same]

theorem toBlock_rowsOf (isHead : List Bool) :
    (rowsOf blocks isHead).map LmdGhostRow.toBlock = blocks := by
  rw [rowsOf, List.map_map]
  apply List.ext_getElem
  · rw [List.length_map, List.length_range]
  · intro i _ inside
    rw [List.getElem_map, List.getElem_range]
    exact List.getD_eq_getElem _ _ inside

/-- What comes out for a tree: the path's rows are marked, and the hash is the root's. -/
theorem IsTree.fromBlocks_eq (tree : IsTree blocks) {root : Block} (mem : root ∈ blocks)
    (isRoot : root.parentIndex = sentinel) :
    ∃ w, fromBlocks blocks blocks.length = some (some w) ∧ MarksPath blocks w.rows ∧
      w.headBlockHash = root.blockHash := by
  obtain ⟨rootPos, found, rfl⟩ := tree.exists_rootPos mem isRoot
  have last := tree.rootPos_eq found
  have some : ¬ blocks.isEmpty := by
    intro empty
    rw [List.isEmpty_iff.1 empty] at mem
    exact List.not_mem_nil mem
  have length : ((List.replicate (blocks.mergeSort before).length false).set rootPos true).length =
      (blocks.mergeSort before).length := by
    rw [List.length_set, List.length_replicate]
  have ended := isSome_of_straight tree.not_circular
  rw [fromBlocks_isSome found, ← walkHead_isSome, Option.isSome_iff_exists] at ended
  obtain ⟨marked, walked⟩ := ended
  have marks : ∀ i < (blocks.mergeSort before).length, marked.getD i false = true ↔
      OnPath blocks (blockAt (blocks.mergeSort before) i) := by
    intro i inside
    rw [walkHead_marks walked length, onPath_iff tree mem isRoot, step_childIndex]
    apply or_congr
    · rw [List.getD_eq_getElem?_getD]
      constructor
      · intro start
        by_contra apart
        rw [List.getElem?_set_ne (by rintro rfl; exact apart rfl), List.getElem?_replicate,
          if_pos inside] at start
        cases start
      · intro same
        obtain rfl := tree.blockAt_injective inside (by omega) same
        rw [List.getElem?_set_self (by rw [List.length_replicate]; exact inside)]
        rfl
    · refine exists_congr fun parent => ?_
      rw [tree.findChild_iff inside]
      exact ⟨fun ⟨reach, real, heaviest⟩ => ⟨real, reach, heaviest⟩,
        fun ⟨real, reach, heaviest⟩ => ⟨reach, real, heaviest⟩⟩
  refine ⟨fromRows (rowsOf (blocks.mergeSort before) marked), ?_, ⟨?_, ?_⟩, ?_⟩
  · rw [fromBlocks, if_neg some]
    dsimp only
    rw [found]
    dsimp only
    rw [walked]
    rfl
  · rw [fromRows, toBlock_rowsOf]
    exact List.mergeSort_perm blocks before
  · intro row inside
    obtain ⟨i, within, rfl⟩ := List.mem_map.1 inside
    exact marks i (List.mem_range.1 within)
  · -- The root's row is marked, and it is the last.
    have rootMarked : marked.getD rootPos false = true :=
      (marks rootPos (by omega)).2 (.root mem isRoot)
    rw [fromRows, rowsOf, ← last, List.range_succ, List.map_append, List.map_singleton,
      List.filter_append, List.filter_singleton, rootMarked, cond_true, List.getLast?_concat]
    rfl

/-- The witness marks the path, and its hash is that of the path's end. -/
def GhostHead (blocks : List Block) : Prop :=
  ∃ w, fromBlocks blocks blocks.length = some (some w) ∧ MarksPath blocks w.rows ∧
    ∃! head, IsPathEnd blocks head ∧ w.headBlockHash = head.blockHash

/-- For a tree the path is always marked, but the hash is that of the path's end exactly where
the end carries the hash of the root. -/
theorem ghostHead_iff (tree : IsTree blocks) :
    (∃ w, fromBlocks blocks blocks.length = some (some w) ∧ MarksPath blocks w.rows) ∧
      (GhostHead blocks ↔ ∀ root ∈ blocks, root.parentIndex = sentinel →
        ∀ head, IsPathEnd blocks head → head.blockHash = root.blockHash) := by
  obtain ⟨root, ⟨mem, isRoot⟩, -⟩ := tree.root
  obtain ⟨w, built, marks, hash⟩ := tree.fromBlocks_eq mem isRoot
  obtain ⟨head, isEnd, unique⟩ := tree.existsUnique_end
  refine ⟨⟨w, built, marks⟩, ?_, ?_⟩
  · rintro ⟨other, same, -, found, ⟨isFound, right⟩, -⟩ top topMem isTop last isLast
    obtain rfl := Option.some.inj (Option.some.inj (built.symm.trans same))
    obtain rfl := tree.root.unique ⟨mem, isRoot⟩ ⟨topMem, isTop⟩
    rw [unique last isLast, ← unique found isFound, ← right, hash]
  · intro agree
    refine ⟨w, built, marks, head, ⟨isEnd, hash.trans (agree root mem isRoot head isEnd).symm⟩, ?_⟩
    exact fun other ⟨isOther, _⟩ => unique other isOther

def oneHash : Hash32 := ⟨List.replicate 32 1, rfl⟩

/-- A root with one child. -/
def twoBlocks : List Block :=
  [⟨0, sentinel, zeroHash, zeroHash, 100⟩, ⟨1, 0, oneHash, zeroHash, 80⟩]

theorem isTree_twoBlocks : IsTree twoBlocks := by
  refine ⟨by decide, by decide, ⟨⟨0, sentinel, zeroHash, zeroHash, 100⟩, ?_, ?_⟩, by decide⟩
  · exact ⟨List.mem_cons_self, rfl⟩
  · rintro block ⟨mem, isRoot⟩
    simp only [twoBlocks, List.mem_cons, List.not_mem_nil, or_false] at mem
    obtain rfl | rfl := mem
    · rfl
    · cases isRoot

theorem ghostHead_iff_twoBlocks :
    (∃ w, fromBlocks twoBlocks twoBlocks.length = some (some w) ∧ MarksPath twoBlocks w.rows) ∧
      (GhostHead twoBlocks ↔ ∀ root ∈ twoBlocks, root.parentIndex = sentinel →
        ∀ head, IsPathEnd twoBlocks head → head.blockHash = root.blockHash) :=
  ghostHead_iff isTree_twoBlocks

theorem isPathEnd_child : IsPathEnd twoBlocks ⟨1, 0, oneHash, zeroHash, 80⟩ := by
  have rootMem : (⟨0, sentinel, zeroHash, zeroHash, 100⟩ : Block) ∈ twoBlocks :=
    List.mem_cons_self
  refine ⟨.child (.root rootMem rfl) ⟨List.mem_cons_of_mem _ List.mem_cons_self, rfl, ?_⟩, ?_⟩
  · intro other mem parent
    simp only [twoBlocks, List.mem_cons, List.not_mem_nil, or_false] at mem
    obtain rfl | rfl := mem
    · cases parent
    · exact .inr ⟨rfl, BitVec.le_refl _⟩
  · decide

theorem head_is_not_root : ¬ ∀ blocks, IsTree blocks → GhostHead blocks := by
  intro always
  obtain ⟨w, built, -, head, ⟨isEnd, right⟩, -⟩ := always twoBlocks isTree_twoBlocks
  obtain ⟨other, same, -, hash⟩ := isTree_twoBlocks.fromBlocks_eq
    (List.mem_cons_self : (⟨0, sentinel, zeroHash, zeroHash, 100⟩ : Block) ∈ twoBlocks) rfl
  obtain rfl := Option.some.inj (Option.some.inj (built.symm.trans same))
  obtain rfl := isTree_twoBlocks.existsUnique_end.unique isEnd isPathEnd_child
  rw [hash] at right
  revert right
  decide

end Marks

end MetaVm.Zkp.ForkChoice
