import MetaVm.Lib.Digits
import MetaVm.Zkp.DepositTree
import MetaVm.Zkp.LinkageCompleteness
import MetaVm.Zkp.Ssz

namespace MetaVm.Zkp

open CoeffList

/-! The trace that is made of inclusions in the deposit tree. Between the last row of an
inclusion and the first row of the next, the shifted bodies ask for one inclusion to go on. -/

/-- A deposit's leaf and first signature byte, with its place in the tree. -/
structure DepositProof where
  leaf : Chunk
  sigByte0 : Byte
  index : BitVec 64
  proof : ℕ → Chunk

structure DepositInclusionWitness where
  leaf : Chunk
  depositIndex : BitVec 64
  siblingHashes : ℕ → Chunk
  depositRoot : Chunk
  sigByte0 : Byte

namespace DepositTree

section Walk

variable (hash : Chunk → Chunk → Chunk) (index : BitVec 64) (proof : ℕ → Chunk) (leaf : Chunk)

/-- The two inputs at a level, by the bit of the index. -/
def orient (index : BitVec 64) (level : ℕ) (current sibling : Chunk) : Chunk × Chunk :=
  if (index >>> level) &&& 1 = 0 then (current, sibling) else (sibling, current)

/-- The running hash below a level. -/
def climb : ℕ → Chunk
  | 0 => leaf
  | level + 1 =>
      let inputs := orient index level (climb level) (proof level)
      hash inputs.1 inputs.2

end Walk

/-- The root is computed along the path. -/
def fromDepositProof (hash : Chunk → Chunk → Chunk) (deposit : DepositProof) :
    DepositInclusionWitness where
  leaf := deposit.leaf
  depositIndex := deposit.index
  siblingHashes := deposit.proof
  depositRoot := climb hash deposit.index deposit.proof deposit.leaf depth
  sigByte0 := deposit.sigByte0

section Rows

variable {F : Type} [CommRing F]

/-- A byte of a chunk as a field element. -/
def byteCell (chunk : Chunk) (i : ℕ) : F :=
  if inside : i < 32 then ((chunk ⟨i, inside⟩).toNat : F) else 0

/-- What the builder writes in a row. -/
structure RowValues (F : Type) where
  current : Chunk
  sibling : Chunk
  left : Chunk
  right : Chunk
  next : Chunk
  root : Chunk
  bit : F
  index : F
  bits : ℕ → F
  level : F
  isReal : F
  isTop : F
  sigByte0 : F

namespace RowValues

def column (values : RowValues F) (col : ℕ) : F :=
  if col < Col.siblingOffset then byteCell values.current (col - Col.currentHashOffset)
  else if col < Col.leftOffset then byteCell values.sibling (col - Col.siblingOffset)
  else if col < Col.rightOffset then byteCell values.left (col - Col.leftOffset)
  else if col < Col.nextHashOffset then byteCell values.right (col - Col.rightOffset)
  else if col < Col.depositRootOffset then byteCell values.next (col - Col.nextHashOffset)
  else if col < Col.indexBit then byteCell values.root (col - Col.depositRootOffset)
  else if col = Col.indexBit then values.bit
  else if col = Col.depositIndex then values.index
  else if col < Col.level then values.bits (col - Col.indexBitReplOffset)
  else if col = Col.level then values.level
  else if col = Col.isReal then values.isReal
  else if col = Col.isTop then values.isTop
  else values.sigByte0

def row (values : RowValues F) : List F := (List.range numColumns).map values.column

end RowValues

/-- Where the values of a row stand. -/
structure Holds (row : List F) (values : RowValues F) : Prop where
  current : ∀ i < chunkBytes, cell row (Col.currentHashOffset + i) = byteCell values.current i
  sibling : ∀ i < chunkBytes, cell row (Col.siblingOffset + i) = byteCell values.sibling i
  left : ∀ i < chunkBytes, cell row (Col.leftOffset + i) = byteCell values.left i
  right : ∀ i < chunkBytes, cell row (Col.rightOffset + i) = byteCell values.right i
  next : ∀ i < chunkBytes, cell row (Col.nextHashOffset + i) = byteCell values.next i
  root : ∀ i < chunkBytes, cell row (Col.depositRootOffset + i) = byteCell values.root i
  bit : cell row Col.indexBit = values.bit
  index : cell row Col.depositIndex = values.index
  bits : ∀ k < depth, cell row (Col.indexBitReplOffset + k) = values.bits k
  isReal : cell row Col.isReal = values.isReal
  isTop : cell row Col.isTop = values.isTop

theorem RowValues.holds (values : RowValues F) : Holds values.row values := by
  have read : ∀ col < numColumns, cell values.row col = values.column col := by
    intro col inside
    rw [cell, row, getD_map_range]
    exact if_pos inside
  have offsets : Col.currentHashOffset = 0 ∧ Col.siblingOffset = 32 ∧ Col.leftOffset = 64 ∧
      Col.rightOffset = 96 ∧ Col.nextHashOffset = 128 ∧ Col.depositRootOffset = 160 ∧
      Col.indexBit = 192 ∧ Col.depositIndex = 193 ∧ Col.indexBitReplOffset = 194 ∧
      Col.level = 226 ∧ numColumns = 230 ∧ chunkBytes = 32 ∧ depth = 32 := by decide
  obtain ⟨current, sibling, left, right, next, root, bit, index, bits, level, all, chunk, deep⟩ :=
    offsets
  constructor
  case bit => exact read Col.indexBit (by decide)
  case index => exact read Col.depositIndex (by decide)
  case isReal => exact read Col.isReal (by decide)
  case isTop => exact read Col.isTop (by decide)
  all_goals
    intro i inside
    rw [read _ (by omega), column]
  case current => rw [if_pos (by omega), current, Nat.zero_add, Nat.sub_zero]
  case sibling => rw [if_neg (by omega), if_pos (by omega), Nat.add_sub_cancel_left]
  case left =>
    rw [if_neg (by omega), if_neg (by omega), if_pos (by omega), Nat.add_sub_cancel_left]
  case right =>
    rw [if_neg (by omega), if_neg (by omega), if_neg (by omega), if_pos (by omega),
      Nat.add_sub_cancel_left]
  case next =>
    rw [if_neg (by omega), if_neg (by omega), if_neg (by omega), if_neg (by omega),
      if_pos (by omega), Nat.add_sub_cancel_left]
  case root =>
    rw [if_neg (by omega), if_neg (by omega), if_neg (by omega), if_neg (by omega),
      if_neg (by omega), if_pos (by omega), Nat.add_sub_cancel_left]
  case bits =>
    rw [if_neg (by omega), if_neg (by omega), if_neg (by omega), if_neg (by omega),
      if_neg (by omega), if_neg (by omega), if_neg (by omega), if_neg (by omega),
      if_pos (by omega), Nat.add_sub_cancel_left]

/-- A bit of an index. -/
def indexBitAt (index : BitVec 64) (k : ℕ) : BitVec 64 := (index >>> k) &&& 1

/-- The row of an inclusion at a level. -/
def inclusionValues (hash : Chunk → Chunk → Chunk) (inclusion : DepositInclusionWitness)
    (level : ℕ) : RowValues F :=
  let current :=
    climb hash inclusion.depositIndex inclusion.siblingHashes inclusion.leaf level
  let sibling := inclusion.siblingHashes level
  let inputs := orient inclusion.depositIndex level current sibling
  { current := current
    sibling := sibling
    left := inputs.1
    right := inputs.2
    next := hash inputs.1 inputs.2
    root := inclusion.depositRoot
    bit := ((indexBitAt inclusion.depositIndex level).toNat : F)
    index := (inclusion.depositIndex.toNat : F)
    bits := fun k => ((indexBitAt inclusion.depositIndex k).toNat : F)
    level := (level : F)
    isReal := 1
    isTop := if level = depth - 1 then 1 else 0
    sigByte0 := (inclusion.sigByte0.toNat : F) }

def zeroRow : List F := List.replicate numColumns 0

/-- The inclusions stand one behind the other, and rows of zeros behind them. -/
def traceRow (hash : Chunk → Chunk → Chunk) (inclusions : List DepositInclusionWitness)
    (r : ℕ) : List F :=
  match inclusions[r / depth]? with
  | some inclusion => (inclusionValues hash inclusion (r % depth)).row
  | none => zeroRow

def paddedSize (inclusions : List DepositInclusionWitness) : ℕ :=
  nearestPowerOfTwo (max (inclusions.length * depth) 1)

/-- Rows behind the last one are zeroed. -/
def fixTracePadding (rows : ℕ → List F) (numRows padded : ℕ) : ℕ → List F :=
  if numRows = 0 ∨ padded ≤ numRows then rows
  else fun r => if numRows ≤ r ∧ r < padded then zeroRow else rows r

/-- The columns that the shifted bodies read on the next row. -/
def shiftedColumnIndices : List ℕ :=
  (List.range chunkBytes).map (Col.currentHashOffset + ·) ++ ([Col.isReal] ++
    ((List.range depth).map (Col.indexBitReplOffset + ·) ++
      (List.range chunkBytes).map (Col.depositRootOffset + ·)))

def shiftedOf (next : List F) : List F := shiftedColumnIndices.map (cell next)

section Shifted

variable {next : List F} {i : ℕ}

theorem cell_shifted (next : List F) (col : ℕ) (inside : col < shiftedLength) :
    cell (shiftedOf next) col = cell next (shiftedColumnIndices.getD col 0) := by
  have long : shiftedColumnIndices.length = shiftedLength := by decide
  rw [cell, shiftedOf, List.getD_eq_getElem?_getD, List.getElem?_map, List.getD_eq_getElem?_getD,
    List.getElem?_eq_getElem (long ▸ inside)]
  rfl

theorem shiftedColumnIndices_getD : ∀ i < 32,
    shiftedColumnIndices.getD i 0 = Col.currentHashOffset + i ∧
      shiftedColumnIndices.getD (chunkBytes + 1 + i) 0 = Col.indexBitReplOffset + i ∧
        shiftedColumnIndices.getD (chunkBytes + 1 + depth + i) 0 =
          Col.depositRootOffset + i := by
  decide

theorem isRealNext_shifted (next : List F) :
    isRealNext (shiftedOf next) = cell next Col.isReal := rfl

theorem cell_shifted_current (inside : i < chunkBytes) :
    cell (shiftedOf next) i = cell next (Col.currentHashOffset + i) := by
  have bounded : i < 32 := inside
  rw [cell_shifted next _ (by rw [shiftedLength, chunkBytes, depth]; omega),
    (shiftedColumnIndices_getD i bounded).1]

theorem cell_shifted_bits (inside : i < depth) :
    cell (shiftedOf next) (chunkBytes + 1 + i) = cell next (Col.indexBitReplOffset + i) := by
  have bounded : i < 32 := inside
  rw [cell_shifted next _ (by rw [shiftedLength, chunkBytes, depth]; omega),
    (shiftedColumnIndices_getD i bounded).2.1]

theorem cell_shifted_root (inside : i < chunkBytes) :
    cell (shiftedOf next) (chunkBytes + 1 + depth + i) = cell next (Col.depositRootOffset + i) := by
  have bounded : i < 32 := inside
  rw [cell_shifted next _ (by rw [shiftedLength, chunkBytes, depth]; omega),
    (shiftedColumnIndices_getD i bounded).2.2]

end Shifted

end Rows

section Built

variable {F : Type} [CommRing F] {hash : Chunk → Chunk → Chunk}
  {inclusion : DepositInclusionWitness} {level : ℕ}

theorem indexBitAt_toNat (index : BitVec 64) (k : ℕ) :
    (indexBitAt index k).toNat = index.toNat / 2 ^ k % 2 := by
  rw [indexBitAt, BitVec.toNat_and, BitVec.toNat_ushiftRight, Nat.shiftRight_eq_div_pow]
  exact Nat.and_one_is_mod _

theorem indexBitAt_cases (index : BitVec 64) (k : ℕ) :
    indexBitAt index k = 0 ∨ indexBitAt index k = 1 := by
  have value := indexBitAt_toNat index k
  rcases Nat.mod_two_eq_zero_or_one (index.toNat / 2 ^ k) with even | odd
  · exact .inl (BitVec.eq_of_toNat_eq (value.trans even))
  · exact .inr (BitVec.eq_of_toNat_eq (value.trans odd))

/-- The aggregator sums up the index. -/
theorem aggregated_index (small : inclusion.depositIndex.toNat < 2 ^ depth) :
    (List.range depth).foldl (fun sum k =>
      sum + ((indexBitAt inclusion.depositIndex k).toNat : F) * powerLoop 1 2 k) 0 =
        (inclusion.depositIndex.toNat : F) := by
  have sums : ∀ count, (List.range count).foldl (fun sum k =>
      sum + ((indexBitAt inclusion.depositIndex k).toNat : F) * powerLoop 1 2 k) 0 =
        ((Digits.value 2 count fun k => inclusion.depositIndex.toNat / 2 ^ k % 2 : ℕ) : F) := by
    intro count
    induction count with
    | zero => simp [Digits.value]
    | succ count hypothesis =>
        rw [List.range_succ, List.foldl_append, hypothesis, Digits.value_succ, List.foldl_cons,
          List.foldl_nil, indexBitAt_toNat, powerLoop_eq, one_mul]
        push_cast
        rfl
  rw [sums, Digits.value_digits_of_lt small]

/-- What goes into the hash at a level, with the bit that says so. -/
theorem orient_cases (index : BitVec 64) (level : ℕ) (current sibling : Chunk) :
    indexBitAt index level = 0 ∧ orient index level current sibling = (current, sibling) ∨
      indexBitAt index level = 1 ∧ orient index level current sibling = (sibling, current) := by
  rcases indexBitAt_cases index level with zero | one
  · exact .inl ⟨zero, if_pos zero⟩
  · refine .inr ⟨one, if_neg ?_⟩
    rw [indexBitAt] at one
    rw [one]
    decide

/-- The values that a row meets the equations with. -/
theorem rowEquations_row {values : RowValues F} (top : values.isTop = 0 ∨ values.isTop = 1)
    (order : values.bit = 0 ∧ (values.left, values.right) = (values.current, values.sibling) ∨
      values.bit = 1 ∧ (values.left, values.right) = (values.sibling, values.current))
    (index : values.index =
      (List.range depth).foldl (fun sum k => sum + values.bits k * powerLoop 1 2 k) 0) :
    RowEquations values.row := by
  have holds := values.holds
  constructor
  · rw [holds.isTop]
    exact top
  · rw [holds.bit]
    exact order.imp And.left And.left
  · intro i inside
    rw [leftResidual, holds.left i inside, holds.bit, holds.current i inside,
      holds.sibling i inside]
    rcases order with ⟨bit, inputs⟩ | ⟨bit, inputs⟩
    · rw [bit, (Prod.mk.inj inputs).1]
      ring
    · rw [bit, (Prod.mk.inj inputs).1]
      ring
  · intro i inside
    rw [rightResidual, holds.right i inside, holds.bit, holds.current i inside,
      holds.sibling i inside]
    rcases order with ⟨bit, inputs⟩ | ⟨bit, inputs⟩
    · rw [bit, (Prod.mk.inj inputs).2]
      ring
    · rw [bit, (Prod.mk.inj inputs).2]
      ring
  · rw [indexResidual, holds.index, List.foldl_ext _ _ 0 fun sum k inside => by
      rw [holds.bits k (List.mem_range.1 inside)]]
    exact sub_eq_zero.2 index

theorem isTop_inclusion : (@inclusionValues F _ hash inclusion level).isTop = 0 ∨
    (@inclusionValues F _ hash inclusion level).isTop = 1 := by
  rw [inclusionValues]
  dsimp only
  split
  · exact .inr rfl
  · exact .inl rfl

theorem order_inclusion :
    let values := @inclusionValues F _ hash inclusion level
    values.bit = 0 ∧ (values.left, values.right) = (values.current, values.sibling) ∨
      values.bit = 1 ∧ (values.left, values.right) = (values.sibling, values.current) := by
  rw [inclusionValues]
  dsimp only
  rcases orient_cases inclusion.depositIndex level
    (climb hash inclusion.depositIndex inclusion.siblingHashes inclusion.leaf level)
    (inclusion.siblingHashes level) with ⟨bit, inputs⟩ | ⟨bit, inputs⟩
  · refine .inl ⟨?_, inputs⟩
    rw [bit]
    exact Nat.cast_zero
  · refine .inr ⟨?_, inputs⟩
    rw [bit]
    exact Nat.cast_one

/-- A row of an inclusion meets the equations. -/
theorem rowEquations_inclusion (small : inclusion.depositIndex.toNat < 2 ^ depth) :
    RowEquations (@inclusionValues F _ hash inclusion level).row :=
  rowEquations_row isTop_inclusion order_inclusion (aggregated_index small).symm

theorem cell_zeroRow (col : ℕ) : cell (@zeroRow F _) col = 0 := by
  rw [cell, zeroRow, List.getD_eq_getElem?_getD, List.getElem?_replicate]
  split <;> rfl

theorem combine_eq_zero {values : List F} (zero : ∀ value ∈ values, value = 0) (alpha : F) :
    combine alpha values = 0 := by
  rw [combine_eq]
  induction values with
  | nil => exact Polynomial.eval_zero
  | cons value rest hypothesis =>
      rw [toPoly_cons, zero value List.mem_cons_self, Polynomial.eval_add, Polynomial.eval_mul,
        hypothesis fun other inside => zero other (List.mem_cons_of_mem value inside),
        Polynomial.eval_C, mul_zero, add_zero]

theorem combine_range_eq_zero {count : ℕ} {value : ℕ → F} (zero : ∀ i < count, value i = 0)
    (alpha : F) : combine alpha ((List.range count).map value) = 0 := by
  apply combine_eq_zero
  rw [List.forall_mem_map]
  exact fun i inside => zero i (List.mem_range.1 inside)

/-- The bodies of a real row that meets the equations. -/
theorem rowBodies_of_equations {row : List F} (real : cell row Col.isReal = 1)
    (equations : RowEquations row) (alpha : F) : ∀ body ∈ rowBodies row alpha, body = 0 := by
  have flag : ∀ value : F, value = 0 ∨ value = 1 → value * (value - 1) = 0 := by
    rintro value (rfl | rfl)
    · exact zero_mul _
    · rw [sub_self, mul_zero]
  intro body inside
  simp only [rowBodies, evalLeftSelection, evalRightSelection, evalIndexAggregator, List.mem_cons,
    List.not_mem_nil, or_false] at inside
  rcases inside with rfl | rfl | rfl | rfl | rfl | rfl
  · rw [real, sub_self, mul_zero]
  · exact flag _ equations.isTop
  · rw [flag _ equations.indexBit, mul_zero]
  · rw [combine_range_eq_zero equations.left, mul_zero]
  · rw [combine_range_eq_zero equations.right, mul_zero]
  · rw [equations.index, mul_zero]

theorem rowBodies_zeroRow (alpha : F) : ∀ body ∈ rowBodies zeroRow alpha, body = 0 := by
  intro body inside
  simp only [rowBodies, evalLeftSelection, evalRightSelection, evalIndexAggregator, cell_zeroRow,
    zero_mul, List.mem_cons, List.not_mem_nil, or_false, or_self] at inside
  exact inside

/-- The values that the next row goes on from. -/
structure ContinuesTo (values next : RowValues F) : Prop where
  chain : ∀ i < chunkBytes, (byteCell next.current i : F) = byteCell values.next i
  bits : ∀ k < depth, next.bits k = values.bits k
  root : ∀ i < chunkBytes, (byteCell next.root i : F) = byteCell values.root i

theorem shiftedEquations_iff {values next : RowValues F} :
    ShiftedEquations values.row (shiftedOf next.row) ↔ ContinuesTo values next := by
  have holds := values.holds
  have later := next.holds
  have chain : ∀ i < chunkBytes, chainResidual values.row (shiftedOf next.row) i =
      byteCell next.current i - byteCell values.next i := by
    intro i inside
    rw [chainResidual, cell_shifted_current inside, later.current i inside, holds.next i inside]
  have bits : ∀ k < depth, bitsResidual values.row (shiftedOf next.row) k =
      next.bits k - values.bits k := by
    intro k inside
    rw [bitsResidual, cell_shifted_bits inside, later.bits k inside, holds.bits k inside]
  have root : ∀ i < chunkBytes, rootResidual values.row (shiftedOf next.row) i =
      byteCell next.root i - byteCell values.root i := by
    intro i inside
    rw [rootResidual, cell_shifted_root inside, later.root i inside, holds.root i inside]
  constructor
  · intro equations
    refine ⟨?_, ?_, ?_⟩
    · exact fun i inside => sub_eq_zero.1 (chain i inside ▸ equations.chain i inside)
    · exact fun k inside => sub_eq_zero.1 (bits k inside ▸ equations.bits k inside)
    · exact fun i inside => sub_eq_zero.1 (root i inside ▸ equations.root i inside)
  · intro continues
    refine ⟨?_, ?_, ?_⟩
    · exact fun i inside => (chain i inside).trans (sub_eq_zero.2 (continues.chain i inside))
    · exact fun k inside => (bits k inside).trans (sub_eq_zero.2 (continues.bits k inside))
    · exact fun i inside => (root i inside).trans (sub_eq_zero.2 (continues.root i inside))

theorem shiftedBodies_of_unreal {row shifted : List F} (unreal : isRealNext shifted = 0)
    (alpha : F) : ∀ body ∈ shiftedBodies row shifted alpha, body = 0 := by
  intro body inside
  simp only [shiftedBodies, unreal, zero_mul, List.mem_cons, List.not_mem_nil, or_false,
    or_self] at inside
  exact inside

/-- Within an inclusion a row goes on to the next. -/
theorem continuesTo_next :
    ContinuesTo (@inclusionValues F _ hash inclusion level)
      (inclusionValues hash inclusion (level + 1)) :=
  ⟨fun _ _ => rfl, fun _ _ => rfl, fun _ _ => rfl⟩

end Built

section Bodies

variable {F : Type} [Field F] [Fintype F]

/-- The bodies between two rows, the second real, vanish for every challenge with their
equations. -/
theorem shiftedBodies_iff (large : 32 ≤ Fintype.card F) {row shifted : List F}
    (realNext : isRealNext shifted = 1) :
    (∀ alpha, ∀ body ∈ shiftedBodies row shifted alpha, body = 0) ↔
      ShiftedEquations row shifted := by
  have entries : ∀ value : ℕ → F,
      (∀ alpha, combine alpha ((List.range 32).map value) = 0) ↔ ∀ i < 32, value i = 0 := by
    intro value
    have long : ((List.range 32).map value).length ≤ Fintype.card F := by
      rw [List.length_map, List.length_range]
      exact large
    simp only [combine_eq]
    rw [eval_toPoly_eq_zero_iff long, List.forall_mem_map]
    exact forall_congr' fun i => by rw [List.mem_range]
  have bodies : ∀ alpha, (∀ body ∈ shiftedBodies row shifted alpha, body = 0) ↔
      combine alpha ((List.range 32).map (chainResidual row shifted)) = 0 ∧
        combine alpha ((List.range 32).map (bitsResidual row shifted)) = 0 ∧
          combine alpha ((List.range 32).map (rootResidual row shifted)) = 0 := by
    intro alpha
    simp only [shiftedBodies, realNext, one_mul, List.forall_mem_cons, List.not_mem_nil,
      false_imp_iff, implies_true, and_true, chunkBytes, depth]
  simp only [bodies, forall_and, entries]
  constructor
  · rintro ⟨chain, bits, root⟩
    exact ⟨chain, bits, root⟩
  · rintro ⟨chain, bits, root⟩
    exact ⟨chain, bits, root⟩

end Bodies

section Packed

variable {curve : CurveType} {hash : Chunk → Chunk → Chunk} {r : ℕ}
  {inclusions : List DepositInclusionWitness} {inclusion first second : DepositInclusionWitness}

/-- Every body vanishes on every row, the shifted ones on all rows but the last. -/
def Satisfies (rows : ℕ → List (Scalar curve)) (padded : ℕ) : Prop :=
  ∀ r < padded, (∀ alpha, ∀ body ∈ rowBodies (rows r) alpha, body = 0) ∧
    (r + 1 < padded → ∀ alpha,
      ∀ body ∈ shiftedBodies (rows r) (shiftedOf (rows (r + 1))) alpha, body = 0)

/-- The columns of the inclusions, padded. -/
def paddedRows (hash : Chunk → Chunk → Chunk) (inclusions : List DepositInclusionWitness) :
    ℕ → List (Scalar curve) :=
  fixTracePadding (traceRow hash inclusions) (inclusions.length * depth) (paddedSize inclusions)

/-- An inclusion goes on where another one ended, under its index and root. -/
def Continues (first second : DepositInclusionWitness) : Prop :=
  second.leaf = first.depositRoot ∧ second.depositIndex = first.depositIndex ∧
    second.depositRoot = first.depositRoot

theorem traceRow_of_some (found : inclusions[r / depth]? = some inclusion) :
    traceRow hash inclusions r =
      (@inclusionValues (Scalar curve) _ hash inclusion (r % depth)).row := by
  rw [traceRow, found]

theorem traceRow_of_none (missing : inclusions[r / depth]? = none) :
    traceRow hash inclusions r = (zeroRow : List (Scalar curve)) := by
  rw [traceRow, missing]

theorem paddedRows_eq : @paddedRows curve hash inclusions = traceRow hash inclusions := by
  rw [paddedRows, fixTracePadding]
  split
  · rfl
  · funext r
    split_ifs with behind
    · have outside : inclusions.length ≤ r / depth :=
        (Nat.le_div_iff_mul_le (by decide)).2 behind.1
      exact (traceRow_of_none (List.getElem?_eq_none outside)).symm
    · rfl

theorem le_paddedSize : inclusions.length * depth ≤ paddedSize inclusions :=
  (Nat.le_max_left _ _).trans (le_nearestPowerOfTwo _)

/-- Every row meets its own bodies. -/
theorem rowBodies_traceRow
    (small : ∀ inclusion ∈ inclusions, inclusion.depositIndex.toNat < 2 ^ depth)
    (alpha : Scalar curve) : ∀ body ∈ rowBodies (traceRow hash inclusions r) alpha, body = 0 := by
  cases found : inclusions[r / depth]? with
  | none =>
      rw [traceRow_of_none found]
      exact rowBodies_zeroRow alpha
  | some inclusion =>
      rw [traceRow_of_some found]
      exact rowBodies_of_equations (RowValues.holds _).isReal
        (rowEquations_inclusion (small inclusion (List.mem_of_getElem? found))) alpha

variable (large : 256 ≤ curve.order)

include large

/-- The cells of a chunk tell the chunk. -/
theorem byteCell_injective {one other : Chunk}
    (same : ∀ i < chunkBytes, (byteCell one i : Scalar curve) = byteCell other i) :
    one = other := by
  funext i
  have cells := same i i.isLt
  rw [byteCell, byteCell, dif_pos i.isLt, dif_pos i.isLt] at cells
  have bound : ∀ chunk : Chunk, (chunk i).toNat < curve.order := fun chunk =>
    (chunk i).isLt.trans_le large
  have values := congrArg ZMod.val cells
  rw [ZMod.val_natCast_of_lt (bound one), ZMod.val_natCast_of_lt (bound other)] at values
  exact BitVec.eq_of_toNat_eq values

/-- The digits of an index tell the index. -/
theorem index_eq_of_bits {one other : BitVec 64} (smallOne : one.toNat < 2 ^ depth)
    (smallOther : other.toNat < 2 ^ depth)
    (same : ∀ k < depth,
      ((indexBitAt one k).toNat : Scalar curve) = ((indexBitAt other k).toNat : Scalar curve)) :
    one = other := by
  have digits : ∀ k < depth, one.toNat / 2 ^ k % 2 = other.toNat / 2 ^ k % 2 := by
    intro k inside
    have bound : ∀ index : BitVec 64, (indexBitAt index k).toNat < curve.order := by
      intro index
      rw [indexBitAt_toNat]
      exact (Nat.mod_lt _ Nat.two_pos).trans_le ((by decide : 2 ≤ 256).trans large)
    have values := congrArg ZMod.val (same k inside)
    rw [ZMod.val_natCast_of_lt (bound one), ZMod.val_natCast_of_lt (bound other),
      indexBitAt_toNat, indexBitAt_toNat] at values
    exact values
  apply BitVec.eq_of_toNat_eq
  rw [← Digits.value_digits_of_lt smallOne, ← Digits.value_digits_of_lt smallOther]
  exact Digits.value_congr digits

/-- Where one inclusion ends and the next begins. -/
theorem continuesTo_boundary (walked : first.depositRoot =
      climb hash first.depositIndex first.siblingHashes first.leaf depth)
    (smallFirst : first.depositIndex.toNat < 2 ^ depth)
    (smallSecond : second.depositIndex.toNat < 2 ^ depth) :
    ContinuesTo (@inclusionValues (Scalar curve) _ hash first (depth - 1))
      (inclusionValues hash second 0) ↔ Continues first second := by
  constructor
  · intro continues
    refine ⟨?_, ?_, ?_⟩
    · exact (byteCell_injective large continues.chain).trans walked.symm
    · exact index_eq_of_bits large smallSecond smallFirst continues.bits
    · exact byteCell_injective large continues.root
  · rintro ⟨leaf, index, root⟩
    refine ⟨fun i _ => ?_, fun k _ => ?_, fun i _ => ?_⟩
    · exact congrArg (byteCell · i) (leaf.trans walked)
    · exact congrArg (fun index => ((indexBitAt index k).toNat : Scalar curve)) index
    · exact congrArg (byteCell · i) root

variable [Fact curve.order.Prime]

/-- The shifted bodies between two rows of inclusions. -/
theorem shiftedBodies_traceRow_iff (here : inclusions[r / depth]? = some first)
    (next : inclusions[(r + 1) / depth]? = some second) :
    (∀ alpha : Scalar curve, ∀ body ∈ shiftedBodies (traceRow hash inclusions r)
        (shiftedOf (traceRow hash inclusions (r + 1))) alpha, body = 0) ↔
      ContinuesTo (@inclusionValues (Scalar curve) _ hash first (r % depth))
        (inclusionValues hash second ((r + 1) % depth)) := by
  have several : 32 ≤ Fintype.card (Scalar curve) := by
    rw [ZMod.card]
    exact (by decide : 32 ≤ 256).trans large
  rw [traceRow_of_some here, traceRow_of_some next, ← shiftedEquations_iff]
  exact shiftedBodies_iff several
    ((isRealNext_shifted _).trans (RowValues.holds _).isReal)

section Neighbours

variable (walked : ∀ inclusion ∈ inclusions, inclusion.depositRoot =
    climb hash inclusion.depositIndex inclusion.siblingHashes inclusion.leaf depth)
  (small : ∀ inclusion ∈ inclusions, inclusion.depositIndex.toNat < 2 ^ depth)

include walked small

theorem isChain_of_satisfies
    (satisfies : Satisfies (@paddedRows curve hash inclusions) (paddedSize inclusions)) :
    inclusions.IsChain Continues := by
  rw [List.isChain_iff_getElem]
  intro i inside
  -- The last row of inclusion `i`.
  have row : depth * i + (depth - 1) + 1 = depth * (i + 1) := by
    simp only [depth]
    omega
  have below : depth * i + (depth - 1) + 1 < paddedSize inclusions := by
    refine lt_of_lt_of_le ?_ le_paddedSize
    simp only [depth]
    omega
  have quotient : (depth * i + (depth - 1)) / depth = i :=
    Nat.mul_add_div (by decide) i _
  have remainder : (depth * i + (depth - 1)) % depth = depth - 1 :=
    (Nat.mul_add_mod depth i (depth - 1)).trans (Nat.mod_eq_of_lt (by decide))
  have here : inclusions[(depth * i + (depth - 1)) / depth]? = some inclusions[i] := by
    rw [quotient]
    exact List.getElem?_eq_getElem _
  have next : inclusions[(depth * i + (depth - 1) + 1) / depth]? = some inclusions[i + 1] := by
    rw [row, Nat.mul_div_cancel_left _ (by decide)]
    exact List.getElem?_eq_getElem _
  have bodies := (satisfies _ (Nat.lt_of_succ_lt below)).2 below
  rw [paddedRows_eq, shiftedBodies_traceRow_iff large here next, remainder, row,
    Nat.mul_mod_right] at bodies
  exact (continuesTo_boundary large (walked _ (List.getElem_mem _)) (small _ (List.getElem_mem _))
    (small _ (List.getElem_mem _))).1 bodies

theorem satisfies_of_isChain (chain : inclusions.IsChain Continues) :
    Satisfies (@paddedRows curve hash inclusions) (paddedSize inclusions) := by
  intro r _
  rw [paddedRows_eq]
  refine ⟨rowBodies_traceRow small, fun _ => ?_⟩
  cases next : inclusions[(r + 1) / depth]? with
  | none =>
      rw [traceRow_of_none next]
      exact shiftedBodies_of_unreal ((isRealNext_shifted _).trans (cell_zeroRow _))
  | some second =>
      have inside : (r + 1) / depth < inclusions.length := (List.getElem?_eq_some_iff.1 next).1
      have earlier : r / depth < inclusions.length :=
        (Nat.div_le_div_right (Nat.le_succ r)).trans_lt inside
      have here : inclusions[r / depth]? = some inclusions[r / depth] :=
        List.getElem?_eq_getElem earlier
      rw [shiftedBodies_traceRow_iff large here next]
      by_cases within : (r + 1) % depth = 0
      · have quotient : (r + 1) / depth = r / depth + 1 := by
          simp only [depth] at within ⊢
          omega
        have remainder : r % depth = depth - 1 := by
          simp only [depth] at within ⊢
          omega
        have following : r / depth + 1 < inclusions.length := quotient ▸ inside
        have last : second = inclusions[r / depth + 1] := by
          rw [quotient, List.getElem?_eq_getElem following] at next
          exact (Option.some.inj next).symm
        rw [within, remainder, continuesTo_boundary large (walked _ (List.getElem_mem _))
          (small _ (List.getElem_mem _)) (small _ (List.mem_of_getElem? next)), last]
        exact chain.getElem _ following
      · have quotient : (r + 1) / depth = r / depth := by
          simp only [depth] at within ⊢
          omega
        have remainder : (r + 1) % depth = r % depth + 1 := by
          simp only [depth] at within ⊢
          omega
        obtain rfl : inclusions[r / depth] = second := by
          rw [quotient, here] at next
          exact Option.some.inj next
        rw [remainder]
        exact continuesTo_next

end Neighbours

/-- The trace of deposits with their proofs satisfies every body exactly where each inclusion
goes on from the one before it. -/
theorem satisfies_iff_continues {proofs : List DepositProof}
    (small : ∀ deposit ∈ proofs, deposit.index.toNat < 2 ^ depth) :
    Satisfies (@paddedRows curve hash (proofs.map (fromDepositProof hash)))
        (paddedSize (proofs.map (fromDepositProof hash))) ↔
      (proofs.map (fromDepositProof hash)).IsChain Continues := by
  have walked : ∀ inclusion ∈ proofs.map (fromDepositProof hash), inclusion.depositRoot =
      climb hash inclusion.depositIndex inclusion.siblingHashes inclusion.leaf depth :=
    List.forall_mem_map.2 fun _ _ => rfl
  exact ⟨isChain_of_satisfies large walked (List.forall_mem_map.2 small),
    satisfies_of_isChain large walked (List.forall_mem_map.2 small)⟩

end Packed

/-- A deposit of zeros at a place of a tree whose siblings are zeros. -/
def depositAt (index : BitVec 64) : DepositProof where
  leaf := zeroChunk
  sigByte0 := 0
  index := index
  proof := fun _ => zeroChunk

theorem satisfies_iff_continues_again :
    Satisfies (@paddedRows .bls12381 (fun _ _ => zeroChunk)
        ([depositAt 7, depositAt 7].map (fromDepositProof fun _ _ => zeroChunk)))
        (paddedSize ([depositAt 7, depositAt 7].map (fromDepositProof fun _ _ => zeroChunk))) ↔
      ([depositAt 7, depositAt 7].map (fromDepositProof fun _ _ => zeroChunk)).IsChain
        Continues :=
  satisfies_iff_continues (by decide) (by decide)

/-- Under no hash do the deposits at places 0 and 1 go together. -/
theorem neighbours_break : ¬ ∃ hash : Chunk → Chunk → Chunk,
    Satisfies (@paddedRows .bls12381 hash
        ([depositAt 0, depositAt 1].map (fromDepositProof hash)))
      (paddedSize ([depositAt 0, depositAt 1].map (fromDepositProof hash))) := by
  rintro ⟨hash, satisfies⟩
  have small : ∀ deposit ∈ [depositAt 0, depositAt 1], deposit.index.toNat < 2 ^ depth := by
    decide
  have chain := isChain_of_satisfies (by decide) (List.forall_mem_map.2 fun _ _ => rfl)
    (List.forall_mem_map.2 small) satisfies
  have continues : Continues (fromDepositProof hash (depositAt 0))
      (fromDepositProof hash (depositAt 1)) := (List.isChain_cons_cons.1 chain).1
  have apart : (depositAt 1).index ≠ (depositAt 0).index := by decide
  exact apart continues.2.1

end DepositTree

end MetaVm.Zkp
