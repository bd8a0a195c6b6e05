import MetaVm.Lib.MerkleTree
import MetaVm.Zkp.DepositTreeWitness

namespace MetaVm.Zkp

open MerkleTree

/-! What 32 rows prove about a leaf. No equation ties the bit that a row orders its inputs by to
the index bits, so that a row may take another side than the index says. -/

namespace DepositTree

section Paths

variable {hash : Chunk → Chunk → Chunk} {index : BitVec 64} {siblings : ℕ → Chunk} {leaf : Chunk}
  {level : ℕ}

theorem orient_eq_sides (current sibling : Chunk) :
    orient index level current sibling = sides index.toNat level current sibling := by
  have digit := indexBitAt_toNat index level
  rcases orient_cases index level current sibling with ⟨bit, inputs⟩ | ⟨bit, inputs⟩
  · have even : index.toNat / 2 ^ level % 2 = 0 := digit.symm.trans (congrArg BitVec.toNat bit)
    rw [inputs, sides, if_pos even]
  · have odd : index.toNat / 2 ^ level % 2 = 1 := digit.symm.trans (congrArg BitVec.toNat bit)
    rw [inputs, sides, if_neg (odd.trans_ne one_ne_zero)]

/-- The root along a proof is the end of its path. -/
theorem climb_eq_walk :
    climb hash index siblings leaf level = walk hash index.toNat siblings leaf level := by
  induction level with
  | zero => rfl
  | succ level hypothesis => rw [climb, walk, hypothesis, orient_eq_sides]

end Paths

section Rows

variable {curve : CurveType}

/-- The cells from an offset on are the bytes of a chunk. -/
def ChunkAt (row : List (Scalar curve)) (offset : ℕ) (chunk : Chunk) : Prop :=
  ∀ i < chunkBytes, cell row (offset + i) = byteCell chunk i

variable (hash : Chunk → Chunk → Chunk) (rows : ℕ → List (Scalar curve))

/-- The real rows of one inclusion, each with its hash checked elsewhere. -/
structure InclusionTrace : Prop where
  real : ∀ r < depth, cell (rows r) Col.isReal = 1
  equations : ∀ r < depth, RowEquations (rows r)
  shifted : ∀ r, r + 1 < depth → ShiftedEquations (rows r) (shiftedOf (rows (r + 1)))
  hashed : ∀ r < depth, ∃ inputs : Chunk × Chunk, ChunkAt (rows r) Col.leftOffset inputs.1 ∧
    ChunkAt (rows r) Col.rightOffset inputs.2 ∧
      ChunkAt (rows r) Col.nextHashOffset (hash inputs.1 inputs.2)
  top : ∀ r < depth, cell (rows r) Col.isTop = if r = depth - 1 then 1 else 0

/-- The path that stands in the rows. -/
structure Reads (index : BitVec 64) (leaf : Chunk) (siblings : ℕ → Chunk) : Prop where
  small : index.toNat < 2 ^ depth
  index : ∀ r < depth, cell (rows r) Col.depositIndex = (index.toNat : Scalar curve)
  leaf : ChunkAt (rows 0) Col.currentHashOffset leaf
  siblings : ∀ r < depth, ChunkAt (rows r) Col.siblingOffset (siblings r)

/-- The path of the index ends in the last hash, and a tree with that root has the leaf at the
index. -/
structure ProvesLeaf (index : BitVec 64) (leaf : Chunk) (siblings : ℕ → Chunk) : Prop where
  reads : Reads rows index leaf siblings
  walked : ChunkAt (rows (depth - 1)) Col.nextHashOffset (climb hash index siblings leaf depth)
  sits : ∀ leaves, Separates hash
      (walkPairs hash index.toNat siblings leaf depth ∪ pairs hash depth leaves) →
    ChunkAt (rows (depth - 1)) Col.nextHashOffset (root hash depth leaves) →
      leaf = leaves index.toNat

def Proves : Prop := ∃ index leaf siblings, ProvesLeaf hash rows index leaf siblings

/-- Every row takes the side that the digit of the index says, unless both sides are the
same. -/
def DigitsFollow : Prop :=
  ∃ index : BitVec 64, index.toNat < 2 ^ depth ∧
    cell (rows 0) Col.depositIndex = (index.toNat : Scalar curve) ∧
      ∀ r < depth, cell (rows r) Col.indexBit = ((indexBitAt index r).toNat : Scalar curve) ∨
        ∀ i < chunkBytes,
          cell (rows r) (Col.currentHashOffset + i) = cell (rows r) (Col.siblingOffset + i)

/-- The pairs that the rows hash. -/
def hashedPairs : Set (Chunk × Chunk) :=
  {pair | ∃ r < depth, ChunkAt (rows r) Col.leftOffset pair.1 ∧
    ChunkAt (rows r) Col.rightOffset pair.2}

/-- The hash tells apart the pairs of the rows and of their path. -/
def NoCollisions : Prop :=
  ∀ index leaf siblings, Reads rows index leaf siblings →
    Separates hash (hashedPairs rows ∪ walkPairs hash index.toNat siblings leaf depth)

/-- A row as one level of a path. -/
structure Level (row : List (Scalar curve)) (current sibling : Chunk) (inputs : Chunk × Chunk) :
    Prop where
  currentAt : ChunkAt row Col.currentHashOffset current
  siblingAt : ChunkAt row Col.siblingOffset sibling
  leftAt : ChunkAt row Col.leftOffset inputs.1
  rightAt : ChunkAt row Col.rightOffset inputs.2
  nextAt : ChunkAt row Col.nextHashOffset (hash inputs.1 inputs.2)
  order : cell row Col.indexBit = 0 ∧ inputs = (current, sibling) ∨
    cell row Col.indexBit = 1 ∧ inputs = (sibling, current)

variable {hash rows} {row : List (Scalar curve)} {r : ℕ} {index : BitVec 64}
  {current sibling : Chunk} {inputs : Chunk × Chunk}

/-- The selections of a row, read backwards. -/
theorem exists_level (equations : RowEquations row)
    (left : ChunkAt row Col.leftOffset inputs.1) (right : ChunkAt row Col.rightOffset inputs.2)
    (next : ChunkAt row Col.nextHashOffset (hash inputs.1 inputs.2)) :
    ∃ current sibling, Level hash row current sibling inputs := by
  have leftCell : ∀ i < chunkBytes, byteCell inputs.1 i = _ := fun i inside =>
    (left i inside).symm.trans (sub_eq_zero.1 (equations.left i inside))
  have rightCell : ∀ i < chunkBytes, byteCell inputs.2 i = _ := fun i inside =>
    (right i inside).symm.trans (sub_eq_zero.1 (equations.right i inside))
  rcases equations.indexBit with zero | one
  · refine ⟨inputs.1, inputs.2, ⟨fun i inside => ?_, fun i inside => ?_, left, right, next,
      .inl ⟨zero, rfl⟩⟩⟩
    · rw [leftCell i inside, zero]
      ring
    · rw [rightCell i inside, zero]
      ring
  · refine ⟨inputs.2, inputs.1, ⟨fun i inside => ?_, fun i inside => ?_, left, right, next,
      .inr ⟨one, rfl⟩⟩⟩
    · rw [rightCell i inside, one]
      ring
    · rw [leftCell i inside, one]
      ring

theorem InclusionTrace.levels (trace : InclusionTrace hash rows) :
    ∃ (current sibling : ℕ → Chunk) (inputs : ℕ → Chunk × Chunk), ∀ r < depth,
      Level hash (rows r) (current r) (sibling r) (inputs r) := by
  have level : ∀ r, ∃ current sibling inputs,
      r < depth → Level hash (rows r) current sibling inputs := by
    intro r
    by_cases inside : r < depth
    · obtain ⟨inputs, left, right, next⟩ := trace.hashed r inside
      obtain ⟨current, sibling, level⟩ := exists_level (trace.equations r inside) left right next
      exact ⟨current, sibling, inputs, fun _ => level⟩
    · exact ⟨zeroChunk, zeroChunk, (zeroChunk, zeroChunk), fun less => absurd less inside⟩
  choose current sibling inputs level using level
  exact ⟨current, sibling, inputs, level⟩

/-- The index is one and the same in all rows. -/
theorem InclusionTrace.index_eq (trace : InclusionTrace hash rows) (inside : r < depth) :
    cell (rows r) Col.depositIndex = cell (rows 0) Col.depositIndex := by
  induction r with
  | zero => rfl
  | succ r hypothesis =>
      have earlier : r < depth := Nat.lt_of_succ_lt inside
      rw [← hypothesis earlier, sub_eq_zero.1 (trace.equations _ inside).index,
        sub_eq_zero.1 (trace.equations _ earlier).index]
      refine List.foldl_ext _ _ 0 fun sum k digit => ?_
      have bounded : k < depth := List.mem_range.1 digit
      have same := sub_eq_zero.1 ((trace.shifted r inside).bits k bounded)
      rw [cell_shifted_bits bounded] at same
      rw [same]

/-- A row that takes the index's side, or has the same chunk on both, hashes what the path
does. -/
theorem Level.inputs_eq (level : Level hash row current sibling inputs)
    (follows : cell row Col.indexBit = ((indexBitAt index r).toNat : Scalar curve) ∨
      current = sibling) (several : (1 : Scalar curve) ≠ 0) :
    inputs = orient index r current sibling := by
  rcases orient_cases index r current sibling with ⟨bit, oriented⟩ | ⟨bit, oriented⟩
  · rw [oriented]
    rcases level.order with ⟨_, same⟩ | ⟨one, same⟩
    · exact same
    · rcases follows with digit | rfl
      · rw [one, bit] at digit
        exact absurd (digit.trans Nat.cast_zero) several
      · exact same
  · rw [oriented]
    rcases level.order with ⟨zero, same⟩ | ⟨_, same⟩
    · rcases follows with digit | rfl
      · rw [zero, bit] at digit
        exact absurd (digit.trans Nat.cast_one).symm several
      · exact same
    · exact same

/-- A row that hashes what the path does takes the index's side, or has the same chunk on
both. -/
theorem Level.follows (level : Level hash row current sibling inputs) {climbed : Chunk}
    (same : inputs = orient index r climbed sibling) :
    current = climbed ∧ (cell row Col.indexBit = ((indexBitAt index r).toNat : Scalar curve) ∨
      current = sibling) := by
  rcases orient_cases index r climbed sibling with ⟨bit, oriented⟩ | ⟨bit, oriented⟩
  · rw [oriented] at same
    rcases level.order with ⟨zero, taken⟩ | ⟨one, taken⟩
    · refine ⟨(Prod.mk.inj (taken.symm.trans same)).1, .inl ?_⟩
      rw [zero, bit]
      exact Nat.cast_zero.symm
    · obtain ⟨first, second⟩ := Prod.mk.inj (taken.symm.trans same)
      exact ⟨second.trans first, .inr second⟩
  · rw [oriented] at same
    rcases level.order with ⟨zero, taken⟩ | ⟨one, taken⟩
    · obtain ⟨first, second⟩ := Prod.mk.inj (taken.symm.trans same)
      exact ⟨first.trans second, .inr first⟩
    · refine ⟨(Prod.mk.inj (taken.symm.trans same)).2, .inl ?_⟩
      rw [one, bit]
      exact Nat.cast_one.symm

end Rows

section Trace

variable {curve : CurveType} {hash : Chunk → Chunk → Chunk} {rows : ℕ → List (Scalar curve)}
  {r : ℕ} {index : BitVec 64} {leaf : Chunk} {current sibling siblings : ℕ → Chunk}
  {inputs : ℕ → Chunk × Chunk} (large : 256 ≤ curve.order)

include large

theorem ChunkAt.unique {row : List (Scalar curve)} {offset : ℕ} {one other : Chunk}
    (first : ChunkAt row offset one) (second : ChunkAt row offset other) : one = other :=
  byteCell_injective large fun i inside => (first i inside).symm.trans (second i inside)

variable (trace : InclusionTrace hash rows)
  (levels : ∀ r < depth, Level hash (rows r) (current r) (sibling r) (inputs r))

include trace levels

/-- A row starts from the hash of the row before it. -/
theorem current_succ (inside : r + 1 < depth) :
    current (r + 1) = hash (inputs r).1 (inputs r).2 := by
  apply byteCell_injective large
  intro i bounded
  have chain := sub_eq_zero.1 ((trace.shifted r inside).chain i bounded)
  rw [cell_shifted_current bounded] at chain
  exact ((levels _ inside).currentAt i bounded).symm.trans
    (chain.trans ((levels r (Nat.lt_of_succ_lt inside)).nextAt i bounded))

/-- Rows that take the index's sides go along its path. -/
theorem inputs_eq_of_follows (follows : ∀ r < depth,
      cell (rows r) Col.indexBit = ((indexBitAt index r).toNat : Scalar curve) ∨
        current r = sibling r) (inside : r < depth) :
    inputs r = orient index r (climb hash index sibling (current 0) r) (sibling r) := by
  have : Fact (1 < curve.order) := ⟨(by decide : 1 < 256).trans_le large⟩
  have taken : ∀ r < depth, inputs r = orient index r (current r) (sibling r) := fun r inside =>
    (levels r inside).inputs_eq (follows r inside) one_ne_zero
  have along : current r = climb hash index sibling (current 0) r := by
    induction r with
    | zero => rfl
    | succ r hypothesis =>
        have earlier : r < depth := Nat.lt_of_succ_lt inside
        rw [current_succ large trace levels inside, taken r earlier, hypothesis earlier, climb]
  rw [taken r inside, along]

/-- Rows that end where the index's path ends take its sides, where nothing collides. -/
theorem follows_of_walked
    (separates :
      Separates hash (hashedPairs rows ∪ walkPairs hash index.toNat siblings leaf depth))
    (same : ∀ r < depth, sibling r = siblings r)
    (walked : hash (inputs (depth - 1)).1 (inputs (depth - 1)).2 =
      climb hash index siblings leaf depth) (inside : r < depth) :
    cell (rows r) Col.indexBit = ((indexBitAt index r).toNat : Scalar curve) ∨
      current r = sibling r := by
  have step : ∀ r < depth,
      hash (inputs r).1 (inputs r).2 = climb hash index siblings leaf (r + 1) →
        current r = climb hash index siblings leaf r ∧
          (cell (rows r) Col.indexBit = ((indexBitAt index r).toNat : Scalar curve) ∨
            current r = sibling r) := by
    intro r inside ends
    have level := levels r inside
    refine level.follows (separates (.inl ⟨r, inside, level.leftAt, level.rightAt⟩)
      (.inr ⟨r, inside, ?_⟩) ?_)
    · rw [orient_eq_sides, climb_eq_walk, same r inside]
    · rw [same r inside]
      exact ends
  -- From the last row down.
  have ends : hash (inputs r).1 (inputs r).2 = climb hash index siblings leaf (r + 1) := by
    refine Nat.decreasingInduction' (fun r less _ ends => ?_) (Nat.le_sub_one_of_lt inside) walked
    have next : r + 1 < depth := Nat.add_lt_of_lt_sub less
    rw [← current_succ large trace levels next]
    exact (step _ next ends).1
  exact (step r inside ends).2

omit levels

theorem proves_of_digitsFollow (digits : DigitsFollow rows) : Proves hash rows := by
  obtain ⟨index, small, start, follows⟩ := digits
  obtain ⟨current, sibling, inputs, levels⟩ := trace.levels
  have taken : ∀ r < depth,
      cell (rows r) Col.indexBit = ((indexBitAt index r).toNat : Scalar curve) ∨
        current r = sibling r := by
    intro r inside
    refine (follows r inside).imp id fun cells => byteCell_injective large fun i bounded => ?_
    rw [← (levels r inside).currentAt i bounded, ← (levels r inside).siblingAt i bounded]
    exact cells i bounded
  have walked : ChunkAt (rows (depth - 1)) Col.nextHashOffset
      (climb hash index sibling (current 0) depth) := by
    have ends := (levels (depth - 1) (by decide)).nextAt
    rw [inputs_eq_of_follows large trace levels taken (by decide)] at ends
    exact ends
  refine ⟨index, current 0, sibling, ⟨small, ?_, ?_, ?_⟩, walked, ?_⟩
  · exact fun r inside => (trace.index_eq inside).trans start
  · exact (levels 0 (by decide)).currentAt
  · exact fun r inside => (levels r inside).siblingAt
  · intro leaves separates top
    have same := walked.unique large top
    rw [climb_eq_walk] at same
    rw [leaf_eq_of_walk_eq separates same, Nat.mod_eq_of_lt small]

theorem digitsFollow_of_proves (separates : NoCollisions hash rows) (proves : Proves hash rows) :
    DigitsFollow rows := by
  obtain ⟨index, leaf, siblings, reads, walked, -⟩ := proves
  obtain ⟨current, sibling, inputs, levels⟩ := trace.levels
  have same : ∀ r < depth, sibling r = siblings r := fun r inside =>
    (levels r inside).siblingAt.unique large (reads.siblings r inside)
  have ends := (levels (depth - 1) (by decide)).nextAt.unique large walked
  refine ⟨index, reads.small, reads.index 0 (by decide), fun r inside => ?_⟩
  refine (follows_of_walked large trace levels (separates index leaf siblings reads) same ends
    inside).imp id fun equal i bounded => ?_
  rw [(levels r inside).currentAt i bounded, (levels r inside).siblingAt i bounded, equal]

/-- The rows prove the leaf if all of them take the sides that the index says; where nothing
collides, only then. -/
theorem proves_iff_digitsFollow :
    (DigitsFollow rows → Proves hash rows) ∧
      (NoCollisions hash rows → (Proves hash rows ↔ DigitsFollow rows)) :=
  ⟨proves_of_digitsFollow large trace, fun separates =>
    ⟨digitsFollow_of_proves large trace separates, proves_of_digitsFollow large trace⟩⟩

end Trace

section Forged

variable {curve : CurveType} {hash : Chunk → Chunk → Chunk}

/-- Values that go on from row to row make a trace. -/
theorem inclusionTrace_values {values : ℕ → RowValues (Scalar curve)}
    (real : ∀ r, (values r).isReal = 1) (equations : ∀ r, RowEquations (values r).row)
    (continues : ∀ r, ContinuesTo (values r) (values (r + 1)))
    (hashed : ∀ r, (values r).next = hash (values r).left (values r).right)
    (top : ∀ r, (values r).isTop = if r = depth - 1 then 1 else 0) :
    InclusionTrace hash fun r => (values r).row where
  real r _ := (values r).holds.isReal.trans (real r)
  equations r _ := equations r
  shifted r _ := shiftedEquations_iff.2 (continues r)
  hashed r _ := by
    refine ⟨((values r).left, (values r).right), (values r).holds.left, (values r).holds.right, ?_⟩
    rw [← hashed r]
    exact (values r).holds.next
  top r _ := (values r).holds.isTop.trans (top r)

/-- The rows of an inclusion are a trace. -/
theorem inclusionTrace_inclusion {inclusion : DepositInclusionWitness}
    (small : inclusion.depositIndex.toNat < 2 ^ depth) :
    InclusionTrace hash fun r => (@inclusionValues (Scalar curve) _ hash inclusion r).row :=
  inclusionTrace_values (fun _ => rfl) (fun _ => rowEquations_inclusion small)
    (fun _ => continuesTo_next) (fun _ => rfl) fun _ => rfl

theorem digitsFollow_inclusion {inclusion : DepositInclusionWitness}
    (small : inclusion.depositIndex.toNat < 2 ^ depth) :
    DigitsFollow fun r => (@inclusionValues (Scalar curve) _ hash inclusion r).row :=
  ⟨inclusion.depositIndex, small, (RowValues.holds _).index, fun _ _ =>
    .inl (RowValues.holds _).bit⟩

/-- The zero chunk with a count in its first byte. -/
def countChunk (count : ℕ) : Chunk := fun i => if i.val = 0 then BitVec.ofNat 8 count else 0

/-- A hash that counts its levels, where one side is the zero chunk. -/
def counting (left right : Chunk) : Chunk := fun i =>
  if i.val = 0 then left i + right i + 1 else 0

theorem countChunk_zero : countChunk 0 = zeroChunk := by
  funext i
  exact ite_self 0

theorem counting_left (count : ℕ) :
    counting (countChunk count) zeroChunk = countChunk (count + 1) := by
  funext i
  rw [counting, countChunk, countChunk, BitVec.ofNat_add]
  split
  · exact congrArg (· + 1) (add_zero _)
  · rfl

theorem counting_right (count : ℕ) :
    counting zeroChunk (countChunk count) = countChunk (count + 1) := by
  funext i
  rw [counting, countChunk, countChunk, BitVec.ofNat_add]
  split
  · exact congrArg (· + 1) (zero_add _)
  · rfl

theorem counting_orient (index : BitVec 64) (level : ℕ) :
    counting (orient index level (countChunk level) zeroChunk).1
      (orient index level (countChunk level) zeroChunk).2 = countChunk (level + 1) := by
  rcases orient_cases index level (countChunk level) zeroChunk with ⟨-, inputs⟩ | ⟨-, inputs⟩
  · rw [inputs, counting_left]
  · rw [inputs, counting_right]

theorem climb_counting {index : BitVec 64} {siblings : ℕ → Chunk} {level : ℕ}
    (zeros : ∀ r < level, siblings r = zeroChunk) :
    climb counting index siblings zeroChunk level = countChunk level := by
  induction level with
  | zero => exact countChunk_zero.symm
  | succ level hypothesis =>
      rw [climb, hypothesis fun r inside => zeros r (Nat.lt_succ_of_lt inside),
        zeros level (Nat.lt_succ_self level)]
      exact counting_orient index level

/-- The pairs of one path, whose siblings are zeros, have as many hashes. -/
theorem separates_counting (index : BitVec 64) : Separates counting
    {pair | ∃ level < depth, pair = orient index level (countChunk level) zeroChunk} := by
  rintro pair ⟨level, inside, rfl⟩ other ⟨otherLevel, otherInside, rfl⟩ same
  have counts : countChunk (level + 1) = countChunk (otherLevel + 1) :=
    (counting_orient index level).symm.trans (same.trans (counting_orient index otherLevel))
  have bytes := congrArg BitVec.toNat (congrFun counts 0)
  have first : ∀ count, countChunk count 0 = BitVec.ofNat 8 count := fun _ => rfl
  rw [first, first, BitVec.toNat_ofNat, BitVec.toNat_ofNat] at bytes
  have bounds : depth = 32 := rfl
  have levels : level = otherLevel := by omega
  rw [levels]

/-- The rows of a deposit of zeros. -/
def countedRows (index : BitVec 64) (r : ℕ) : List (Scalar .bls12381) :=
  (inclusionValues counting (fromDepositProof counting (depositAt index)) r).row

theorem index_countedRows {index other : BitVec 64} {leaf : Chunk} {siblings : ℕ → Chunk}
    (small : index.toNat < 2 ^ depth) (reads : Reads (countedRows index) other leaf siblings) :
    other = index := by
  have cells : (index.toNat : Scalar .bls12381) = (other.toNat : Scalar .bls12381) :=
    (RowValues.holds _).index.symm.trans (reads.index 0 (by decide))
  have bound : 2 ^ depth < CurveType.bls12381.order := by decide
  have values := congrArg ZMod.val cells
  rw [ZMod.val_natCast_of_lt (small.trans bound),
    ZMod.val_natCast_of_lt (reads.small.trans bound)] at values
  exact BitVec.eq_of_toNat_eq values.symm

theorem noCollisions_countedRows {index : BitVec 64} (small : index.toNat < 2 ^ depth) :
    NoCollisions counting (countedRows index) := by
  intro other leaf siblings reads
  have large : 256 ≤ CurveType.bls12381.order := by decide
  obtain rfl := index_countedRows small reads
  have start : ChunkAt (countedRows other 0) Col.currentHashOffset zeroChunk :=
    (RowValues.holds _).current
  obtain rfl := start.unique large reads.leaf
  have zeros : ∀ r < depth, siblings r = zeroChunk := fun r inside =>
    (reads.siblings r inside).unique large (RowValues.holds _).sibling
  refine (separates_counting other).mono (Set.union_subset ?_ ?_)
  · rintro ⟨left, right⟩ ⟨r, inside, leftAt, rightAt⟩
    have along : climb counting other (fun _ => zeroChunk) zeroChunk r = countChunk r :=
      climb_counting fun _ _ => rfl
    refine ⟨r, inside, ?_⟩
    rw [← along]
    exact Prod.ext (leftAt.unique large (RowValues.holds _).left)
      (rightAt.unique large (RowValues.holds _).right)
  · rintro pair ⟨level, inside, rfl⟩
    refine ⟨level, inside, ?_⟩
    rw [← orient_eq_sides, ← climb_eq_walk, zeros level inside,
      climb_counting fun r earlier => zeros r (earlier.trans inside)]

/-- The rows of the deposit at place 7, whose pairs do not collide, prove its leaf. -/
theorem proves_iff_digitsFollow_counting :
    NoCollisions counting (countedRows 7) ∧ Proves counting (countedRows 7) := by
  have separates := @noCollisions_countedRows 7 (by decide)
  have trace : InclusionTrace counting (countedRows 7) := inclusionTrace_inclusion (by decide)
  have follows : DigitsFollow (countedRows 7) := digitsFollow_inclusion (by decide)
  exact ⟨separates, ((proves_iff_digitsFollow (by decide) trace).2 separates).2 follows⟩

/-- The rows of the deposit at place 0, with `2 ^ 32` in place of the first index bit and of the
index. -/
def forgedValues (hash : Chunk → Chunk → Chunk) (r : ℕ) : RowValues (Scalar .bls12381) :=
  { inclusionValues hash (fromDepositProof hash (depositAt 0)) r with
    index := 2 ^ 32
    bits := fun k => if k = 0 then 2 ^ 32 else 0 }

theorem forgedValues_bits (r k : ℕ) :
    (forgedValues hash r).bits k = if k = 0 then 2 ^ 32 else 0 := rfl

theorem forgedValues_index (r : ℕ) : (forgedValues hash r).index =
    (List.range depth).foldl
      (fun sum k => sum + (forgedValues hash r).bits k * powerLoop 1 2 k) 0 := by
  have digits : List.range depth = 0 :: (List.range 31).map Nat.succ := List.range_succ_eq_map
  have others : ∀ k ∈ (List.range 31).map Nat.succ,
      (forgedValues hash r).bits k * powerLoop 1 2 k = 0 := by
    rw [List.forall_mem_map]
    intro k _
    rw [forgedValues_bits, if_neg (Nat.succ_ne_zero k), zero_mul]
  have first : (forgedValues hash r).bits 0 * powerLoop 1 2 0 = 2 ^ 32 := by
    rw [forgedValues_bits, if_pos rfl, powerLoop_eq, pow_zero, one_mul, mul_one]
  rw [digits, List.foldl_cons, foldl_add_zero _ others, first, zero_add]
  rfl

theorem inclusionTrace_forged : InclusionTrace hash fun r => (forgedValues hash r).row := by
  refine inclusionTrace_values (fun _ => rfl) (fun r => ?_) (fun _ => ?_) (fun _ => rfl)
    fun _ => rfl
  · exact rowEquations_row
      (@isTop_inclusion _ _ hash (fromDepositProof hash (depositAt 0)) r)
      (@order_inclusion _ _ hash (fromDepositProof hash (depositAt 0)) r) (forgedValues_index r)
  · exact ⟨fun _ _ => rfl, fun _ _ => rfl, fun _ _ => rfl⟩

/-- Under no hash does this trace prove its leaf. -/
theorem index_out_of_range : ¬ ∃ hash : Chunk → Chunk → Chunk,
    (InclusionTrace hash fun r => (forgedValues hash r).row) →
      Proves hash fun r => (forgedValues hash r).row := by
  rintro ⟨hash, sound⟩
  obtain ⟨index, leaf, siblings, reads, -⟩ := sound inclusionTrace_forged
  have read := (RowValues.holds _).index.symm.trans (reads.index 0 (by decide))
  have forged : ((2 ^ 32 : ℕ) : Scalar .bls12381) = (index.toNat : Scalar .bls12381) := by
    rw [Nat.cast_pow]
    exact read
  have values := congrArg ZMod.val forged
  have bound : 2 ^ 32 < CurveType.bls12381.order := by decide
  rw [ZMod.val_natCast_of_lt bound, ZMod.val_natCast_of_lt (reads.small.trans bound)] at values
  exact reads.small.ne values.symm

end Forged

end DepositTree

end MetaVm.Zkp
