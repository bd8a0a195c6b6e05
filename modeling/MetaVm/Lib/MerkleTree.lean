import MetaVm.Lib.Numerals

namespace MetaVm.MerkleTree

/-! Complete binary trees of hashes over a sequence of leaves. -/

variable {α : Type*} (hash : α → α → α)

/-- The root over `2 ^ depth` leaves. -/
def root : (depth : ℕ) → (ℕ → α) → α
  | 0, leaves => leaves 0
  | depth + 1, leaves => hash (root depth leaves) (root depth fun i => leaves (2 ^ depth + i))

/-- The root over leaves that are all `zero`. -/
def zeroRoot (zero : α) : ℕ → α
  | 0 => zero
  | depth + 1 => hash (zeroRoot zero depth) (zeroRoot zero depth)

/-- One layer up, with `pad` for a missing right sibling. -/
def pairUp (pad : α) : List α → List α
  | [] => []
  | [left] => [hash left pad]
  | left :: right :: rest => hash left right :: pairUp pad rest

section Roots

variable {hash} {zero : α} {depth : ℕ} {leaves other : ℕ → α}

theorem root_succ (depth : ℕ) (leaves : ℕ → α) : root hash (depth + 1) leaves =
    hash (root hash depth leaves) (root hash depth fun i => leaves (2 ^ depth + i)) :=
  rfl

theorem root_congr (same : ∀ i < 2 ^ depth, leaves i = other i) :
    root hash depth leaves = root hash depth other := by
  induction depth generalizing leaves other with
  | zero => exact same 0 Nat.one_pos
  | succ depth hypothesis =>
      rw [root_succ, root_succ]
      congr 1
      · apply hypothesis
        intro i inside
        exact same i (by rw [pow_succ]; omega)
      · apply hypothesis
        intro i inside
        exact same (2 ^ depth + i) (by rw [pow_succ]; omega)

theorem root_zero (zeros : ∀ i < 2 ^ depth, leaves i = zero) :
    root hash depth leaves = zeroRoot hash zero depth := by
  induction depth generalizing leaves with
  | zero => exact zeros 0 Nat.one_pos
  | succ depth hypothesis =>
      rw [root_succ, zeroRoot]
      congr 1
      · apply hypothesis
        intro i inside
        exact zeros i (by rw [pow_succ]; omega)
      · apply hypothesis
        intro i inside
        exact zeros (2 ^ depth + i) (by rw [pow_succ]; omega)

/-- A tree seen from its leaves: the pairs of leaves are the leaves of a tree with one layer
less. -/
theorem root_pairs (depth : ℕ) (leaves : ℕ → α) :
    root hash (depth + 1) leaves =
      root hash depth fun i => hash (leaves (2 * i)) (leaves (2 * i + 1)) := by
  induction depth generalizing leaves with
  | zero => rfl
  | succ depth hypothesis =>
      rw [root_succ, hypothesis, hypothesis, root_succ]
      congr 1
      apply root_congr
      intro i _
      rw [pow_succ]
      congr 2
      · omega
      · omega

end Roots

section Layers

variable {hash} {zero : α}

theorem length_pairUp (pad : α) : ∀ layer : List α,
    (pairUp hash pad layer).length = (layer.length + 1) / 2
  | [] => by simp [pairUp]
  | [_] => by simp [pairUp]
  | left :: right :: rest => by
      rw [pairUp, List.length_cons, length_pairUp pad rest, List.length_cons, List.length_cons]
      omega

/-- A layer with a pad behind it, one layer up. -/
theorem getD_pairUp (pad : α) : ∀ (layer : List α) (i : ℕ),
    (pairUp hash pad layer).getD i (hash pad pad) =
      hash (layer.getD (2 * i) pad) (layer.getD (2 * i + 1) pad)
  | [], i => by simp [pairUp]
  | [left], 0 => by simp [pairUp]
  | [left], i + 1 => by simp [pairUp, Nat.mul_add]
  | left :: right :: rest, 0 => by simp [pairUp]
  | left :: right :: rest, i + 1 => by
      have even : 2 * (i + 1) = 2 * i + 1 + 1 := by omega
      rw [pairUp, List.getD_cons_succ, getD_pairUp pad rest i, even, List.getD_cons_succ,
        List.getD_cons_succ, List.getD_cons_succ, List.getD_cons_succ]

/-- The layers from the leaves up, the zero roots standing in for what is missing. -/
def layerAt (hash : α → α → α) (zero : α) (chunks : List α) : ℕ → List α
  | 0 => chunks
  | depth + 1 => pairUp hash (zeroRoot hash zero depth) (layerAt hash zero chunks depth)

theorem root_layerAt (chunks : List α) (depth above : ℕ) :
    root hash (above + depth) (fun i => chunks.getD i zero) =
      root hash above fun i =>
        (layerAt hash zero chunks depth).getD i (zeroRoot hash zero depth) := by
  induction depth generalizing above with
  | zero => rfl
  | succ depth hypothesis =>
      have reassociated : above + (depth + 1) = above + 1 + depth := by omega
      rw [reassociated, hypothesis (above + 1), root_pairs]
      apply root_congr
      intro i _
      exact (getD_pairUp _ _ i).symm

theorem length_layerAt_pos {chunks : List α} (nonempty : chunks ≠ []) (depth : ℕ) :
    0 < (layerAt hash zero chunks depth).length := by
  induction depth with
  | zero => exact List.length_pos_iff.2 nonempty
  | succ depth hypothesis =>
      rw [layerAt, length_pairUp]
      omega

/-- The first node of a layer is the root over the leaves below it. -/
theorem head_layerAt {chunks : List α} (nonempty : chunks ≠ []) (depth : ℕ) :
    (layerAt hash zero chunks depth).head? =
      some (root hash depth fun i => chunks.getD i zero) := by
  have below := @root_layerAt α hash zero chunks depth 0
  rw [Nat.zero_add] at below
  have positive := @length_layerAt_pos α hash zero chunks nonempty depth
  rw [below, root, List.head?_eq_getElem?, List.getD_eq_getElem _ _ positive]
  exact List.getElem?_eq_getElem positive

/-- A tree with leaves in its left half only. -/
theorem root_extend {chunks : List α} {depth : ℕ} (fits : chunks.length ≤ 2 ^ depth) :
    root hash (depth + 1) (fun i => chunks.getD i zero) =
      hash (root hash depth fun i => chunks.getD i zero) (zeroRoot hash zero depth) := by
  rw [root]
  congr 1
  apply root_zero
  intro i _
  exact List.getD_eq_default _ _ (by omega)

end Layers

/-! The leaves of a tree from its root, where the hash tells apart the pairs of the tree. -/

section Binding

/-- The pairs that are hashed in a tree. -/
def pairs : ℕ → (ℕ → α) → Set (α × α)
  | 0, _ => ∅
  | depth + 1, leaves =>
      {(root hash depth leaves, root hash depth fun i => leaves (2 ^ depth + i))} ∪
        (pairs depth leaves ∪ pairs depth fun i => leaves (2 ^ depth + i))

/-- The hash tells the pairs of a set apart. -/
def Separates (hashed : Set (α × α)) : Prop := hashed.InjOn fun pair => hash pair.1 pair.2

variable {hash}

theorem Separates.mono {larger smaller : Set (α × α)} (separates : Separates hash larger)
    (inside : smaller ⊆ larger) : Separates hash smaller :=
  Set.InjOn.mono inside separates

theorem leaves_eq_of_root_eq {depth : ℕ} {leaves other : ℕ → α}
    (separates : Separates hash (pairs hash depth leaves ∪ pairs hash depth other))
    (same : root hash depth leaves = root hash depth other) :
    ∀ i < 2 ^ depth, leaves i = other i := by
  induction depth generalizing leaves other with
  | zero =>
      intro i inside
      obtain rfl : i = 0 := by omega
      exact same
  | succ depth hypothesis =>
      have tops := separates (.inl (.inl rfl)) (.inr (.inl rfl)) same
      obtain ⟨left, right⟩ := Prod.mk.inj tops
      intro i inside
      by_cases low : i < 2 ^ depth
      · refine hypothesis (separates.mono ?_) left i low
        exact Set.union_subset_union (fun _ member => .inr (.inl member))
          fun _ member => .inr (.inl member)
      · obtain ⟨offset, rfl⟩ := Nat.exists_eq_add_of_le (Nat.not_lt.1 low)
        refine hypothesis (separates.mono ?_) right offset (by rw [pow_succ] at inside; omega)
        exact Set.union_subset_union (fun _ member => .inr (.inr member))
          fun _ member => .inr (.inr member)

end Binding

/-! Paths from a leaf up. At a level, the digit of the leaf's index says on which side the
sibling stands. -/

section Paths

variable (index : ℕ) (siblings : ℕ → α) (leaf : α)

/-- The two sides at a level, by the digit of the index. -/
def sides (level : ℕ) (current sibling : α) : α × α :=
  if index / 2 ^ level % 2 = 0 then (current, sibling) else (sibling, current)

/-- The hash of the path below a level. -/
def walk : ℕ → α
  | 0 => leaf
  | level + 1 =>
      let inputs := sides index level (walk level) (siblings level)
      hash inputs.1 inputs.2

/-- The pairs that are hashed along a path. -/
def walkPairs (depth : ℕ) : Set (α × α) :=
  {pair | ∃ level < depth,
    pair = sides index level (walk hash index siblings leaf level) (siblings level)}

variable {hash index siblings leaf}

/-- A path that ends in the root of a tree starts at the leaf of its index. -/
theorem leaf_eq_of_walk_eq {depth : ℕ} {leaves : ℕ → α}
    (separates : Separates hash
      (walkPairs hash index siblings leaf depth ∪ pairs hash depth leaves))
    (same : walk hash index siblings leaf depth = root hash depth leaves) :
    leaf = leaves (index % 2 ^ depth) := by
  induction depth generalizing leaves with
  | zero =>
      rw [pow_zero, Nat.mod_one]
      exact same
  | succ depth hypothesis =>
      have tops := separates (.inl ⟨depth, Nat.lt_succ_self depth, rfl⟩) (.inr (.inl rfl)) same
      have below : walkPairs hash index siblings leaf depth ⊆
          walkPairs hash index siblings leaf (depth + 1) :=
        fun _ ⟨level, less, found⟩ => ⟨level, less.trans (Nat.lt_succ_self depth), found⟩
      rw [Nat.mod_pow_succ]
      rw [sides] at tops
      split at tops
      next left =>
        rw [left, Nat.mul_zero, Nat.add_zero]
        refine hypothesis (separates.mono ?_) (Prod.mk.inj tops).1
        exact Set.union_subset_union below fun _ member => .inr (.inl member)
      next right =>
        rw [Nat.mod_two_ne_zero.1 right, Nat.mul_one, Nat.add_comm]
        refine hypothesis (separates.mono ?_) (Prod.mk.inj tops).2
        exact Set.union_subset_union below fun _ member => .inr (.inr member)

end Paths

end MetaVm.MerkleTree
