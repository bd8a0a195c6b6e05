import MetaVm.Lib.CoeffList
import MetaVm.Zkp.ConstraintPoly

namespace MetaVm.Zkp

open CoeffList Overlay Polynomial

/-! The deposit tree's constraints: 32 rows an inclusion, one a level. -/

namespace DepositTree

def depth : ℕ := 32
def chunkBytes : ℕ := 32

namespace Col

def currentHashOffset : ℕ := 0
def siblingOffset : ℕ := currentHashOffset + chunkBytes
def leftOffset : ℕ := siblingOffset + chunkBytes
def rightOffset : ℕ := leftOffset + chunkBytes
def nextHashOffset : ℕ := rightOffset + chunkBytes
def depositRootOffset : ℕ := nextHashOffset + chunkBytes
def indexBit : ℕ := depositRootOffset + chunkBytes
def depositIndex : ℕ := indexBit + 1
def indexBitReplOffset : ℕ := depositIndex + 1
def level : ℕ := indexBitReplOffset + depth
def isReal : ℕ := level + 1
def isTop : ℕ := isReal + 1
def sigByte0Mirror : ℕ := isTop + 1

end Col

def numColumns : ℕ := Col.sigByte0Mirror + 1

section Bodies

variable {F : Type} [CommRing F]

def cell (row : List F) (col : ℕ) : F := row.getD col 0

/-- Values combined with the powers of `alpha`. -/
def combine (alpha : F) (values : List F) : F := (values.foldl (accumulate alpha) (0, 1)).1

/-- What the left input misses of the chunk that the index bit selects. -/
def leftResidual (row : List F) (i : ℕ) : F :=
  let bit := cell row Col.indexBit
  cell row (Col.leftOffset + i) -
    ((1 - bit) * cell row (Col.currentHashOffset + i) + bit * cell row (Col.siblingOffset + i))

def rightResidual (row : List F) (i : ℕ) : F :=
  let bit := cell row Col.indexBit
  cell row (Col.rightOffset + i) -
    (bit * cell row (Col.currentHashOffset + i) + (1 - bit) * cell row (Col.siblingOffset + i))

def indexResidual (row : List F) : F :=
  cell row Col.depositIndex - (List.range depth).foldl
    (fun sum k => sum + cell row (Col.indexBitReplOffset + k) * powerLoop 1 2 k) 0

def evalLeftSelection (row : List F) (alpha : F) : F :=
  cell row Col.isReal * combine alpha ((List.range chunkBytes).map (leftResidual row))

def evalRightSelection (row : List F) (alpha : F) : F :=
  cell row Col.isReal * combine alpha ((List.range chunkBytes).map (rightResidual row))

def evalIndexAggregator (row : List F) : F := cell row Col.isReal * indexResidual row

def rowBodies (row : List F) (alpha : F) : List F :=
  let isReal := cell row Col.isReal
  let isTop := cell row Col.isTop
  let bit := cell row Col.indexBit
  [isReal * (isReal - 1), isTop * (isTop - 1), isReal * (bit * (bit - 1)),
    evalLeftSelection row alpha, evalRightSelection row alpha, evalIndexAggregator row]

def evaluateAtPoint (row : List F) (alpha : F) : F :=
  if row.length < numColumns then 0 else combine alpha (rowBodies row alpha)

/-! Between rows. The shifted values are the next row's current hash, its selector, its index
bits and its root. -/

def isRealNext (shifted : List F) : F := cell shifted chunkBytes

def chainResidual (row shifted : List F) (b : ℕ) : F :=
  cell shifted b - cell row (Col.nextHashOffset + b)

def bitsResidual (row shifted : List F) (k : ℕ) : F :=
  cell shifted (chunkBytes + 1 + k) - cell row (Col.indexBitReplOffset + k)

def rootResidual (row shifted : List F) (b : ℕ) : F :=
  cell shifted (chunkBytes + 1 + depth + b) - cell row (Col.depositRootOffset + b)

def shiftedBodies (row shifted : List F) (alpha : F) : List F :=
  let isRealNext := isRealNext shifted
  [isRealNext * combine alpha ((List.range chunkBytes).map (chainResidual row shifted)),
    isRealNext * combine alpha ((List.range depth).map (bitsResidual row shifted)),
    isRealNext * combine alpha ((List.range chunkBytes).map (rootResidual row shifted))]

def shiftedLength : ℕ := chunkBytes + 1 + depth + chunkBytes

def evaluateShiftedAtPoint (row shifted : List F) (z omegaNMinus1 alpha : F)
    (alphaOffset : ℕ) : F :=
  if shifted.length < shiftedLength ∨ row.length < numColumns then 0
  else
    let exclusion := z - omegaNMinus1
    let start := (List.range alphaOffset).foldl (fun power _ => power * alpha) 1
    ((shiftedBodies row shifted alpha).foldl
      (fun state body => (state.1 + state.2 * body * exclusion, state.2 * alpha)) (0, start)).1

/-! What the bodies say. -/

/-- The equations of a row. -/
structure RowEquations (row : List F) : Prop where
  isTop : cell row Col.isTop = 0 ∨ cell row Col.isTop = 1
  indexBit : cell row Col.indexBit = 0 ∨ cell row Col.indexBit = 1
  left : ∀ i < chunkBytes, leftResidual row i = 0
  right : ∀ i < chunkBytes, rightResidual row i = 0
  index : indexResidual row = 0

/-- The equations between a row and the next. -/
structure ShiftedEquations (row shifted : List F) : Prop where
  chain : ∀ b < chunkBytes, chainResidual row shifted b = 0
  bits : ∀ k < depth, bitsResidual row shifted k = 0
  root : ∀ b < chunkBytes, rootResidual row shifted b = 0

/-- Wrong values that the bodies hide from one another: a byte of the left input is off by what
the byte before it of the right input is off, and the index by the rest. -/
structure RowCancels (row : List F) : Prop where
  isTop : cell row Col.isTop = 0 ∨ cell row Col.isTop = 1
  indexBit : cell row Col.indexBit = 0 ∨ cell row Col.indexBit = 1
  first : leftResidual row 0 = 0
  between : ∀ i < 31, leftResidual row (i + 1) =
    -(rightResidual row i + if i = 1 then indexResidual row else 0)
  last : rightResidual row 31 = 0
  wrong : indexResidual row ≠ 0 ∨ ∃ i < 31, rightResidual row i ≠ 0

/-- Wrong values between two rows that hide one another. -/
structure ShiftedCancels (row shifted : List F) : Prop where
  first : chainResidual row shifted 0 = 0
  second : chainResidual row shifted 1 = -bitsResidual row shifted 0
  between : ∀ i < 30, chainResidual row shifted (i + 2) =
    -(bitsResidual row shifted (i + 1) + rootResidual row shifted i)
  next : bitsResidual row shifted 31 = -rootResidual row shifted 30
  last : rootResidual row shifted 31 = 0
  wrong : ∃ i < 31, bitsResidual row shifted i ≠ 0 ∨ rootResidual row shifted i ≠ 0

def rowBlocks (row : List F) : List (ℕ × List F) :=
  let isTop := cell row Col.isTop
  let bit := cell row Col.indexBit
  [(1, [isTop * (isTop - 1)]), (2, [bit * (bit - 1)]),
    (3, (List.range chunkBytes).map (leftResidual row)),
    (4, (List.range chunkBytes).map (rightResidual row)), (5, [indexResidual row])]

def shiftedBlocks (row shifted : List F) : List (ℕ × List F) :=
  [(0, (List.range chunkBytes).map (chainResidual row shifted)),
    (1, (List.range depth).map (bitsResidual row shifted)),
    (2, (List.range chunkBytes).map (rootResidual row shifted))]

theorem combine_eq (alpha : F) (values : List F) :
    combine alpha values = (toPoly values).eval alpha := by
  rw [combine, foldl_accumulate, evalPolyAt_eq, zero_add, one_mul]

variable {row shifted : List F}

theorem evaluateAtPoint_eq (wide : numColumns ≤ row.length) (real : cell row Col.isReal = 1)
    (alpha : F) : evaluateAtPoint row alpha = combination (rowBlocks row) alpha := by
  rw [evaluateAtPoint, if_neg (not_lt.2 wide)]
  simp only [rowBodies, evalLeftSelection, evalRightSelection, evalIndexAggregator, combine_eq, real,
    combination, rowBlocks, toPoly_cons, toPoly_nil, List.map_cons, List.map_nil, List.sum_cons,
    List.sum_nil, eval_add, eval_mul, eval_C, eval_X, eval_zero]
  ring

theorem startPower (alpha : F) (count : ℕ) :
    (List.range count).foldl (fun power _ => power * alpha) 1 = alpha ^ count := by
  induction count with
  | zero => simp
  | succ count hypothesis =>
      rw [List.range_succ, List.foldl_append, hypothesis, pow_succ]
      rfl

theorem evaluateShiftedAtPoint_eq (wide : numColumns ≤ row.length)
    (long : shiftedLength ≤ shifted.length) (z omegaNMinus1 alpha : F) (alphaOffset : ℕ) :
    evaluateShiftedAtPoint row shifted z omegaNMinus1 alpha alphaOffset =
      isRealNext shifted * (z - omegaNMinus1) *
        (alpha ^ alphaOffset * combination (shiftedBlocks row shifted) alpha) := by
  rw [evaluateShiftedAtPoint, if_neg (not_or.2 ⟨not_lt.2 long, not_lt.2 wide⟩)]
  simp only [startPower, shiftedBodies, combine_eq, combination, shiftedBlocks, List.map_cons,
    List.map_nil, List.sum_cons, List.sum_nil, List.foldl_cons, List.foldl_nil]
  ring

/-! The powers that the values stand at. -/

theorem rowBlocks_fit : Fits (rowBlocks row) 36 := by
  intro block inside
  simp only [rowBlocks, List.mem_cons, List.not_mem_nil, or_false] at inside
  rcases inside with rfl | rfl | rfl | rfl | rfl
  all_goals simp [chunkBytes]

theorem shiftedBlocks_fit : Fits (shiftedBlocks row shifted) 34 := by
  intro block inside
  simp only [shiftedBlocks, List.mem_cons, List.not_mem_nil, or_false] at inside
  rcases inside with rfl | rfl | rfl
  all_goals simp [chunkBytes, depth]

theorem overlay_row_flags :
    overlay (rowBlocks row) 0 = 0 ∧
      overlay (rowBlocks row) 1 = cell row Col.isTop * (cell row Col.isTop - 1) ∧
      overlay (rowBlocks row) 2 = cell row Col.indexBit * (cell row Col.indexBit - 1) ∧
      overlay (rowBlocks row) 3 = leftResidual row 0 := by
  simp [overlay, rowBlocks, chunkBytes]

theorem overlay_row_between {i : ℕ} (inside : i < 31) :
    overlay (rowBlocks row) (i + 4) =
      leftResidual row (i + 1) + (rightResidual row i + if i = 1 then indexResidual row else 0) := by
  have index : (if 5 ≤ i + 4 then [indexResidual row].getD (i + 4 - 5) 0 else 0) =
      if i = 1 then indexResidual row else 0 := by
    rcases i with _ | _ | i
    · simp
    · simp
    · simp
  simp only [overlay, rowBlocks, List.map_cons, List.map_nil, List.sum_cons, List.sum_nil, index,
    getD_map_range]
  have left : i + 4 - 3 = i + 1 := by omega
  have right : i + 4 - 4 = i := by omega
  have fits : i + 1 < chunkBytes := Nat.succ_lt_succ inside
  rw [left, right, if_pos (by omega), if_pos (by omega), if_pos (by omega), if_pos fits,
    if_pos (by omega), if_pos (by omega)]
  simp

theorem overlay_row_last : overlay (rowBlocks row) 35 = rightResidual row 31 := by
  simp [overlay, rowBlocks, chunkBytes]

theorem overlay_shifted_ends :
    overlay (shiftedBlocks row shifted) 0 = chainResidual row shifted 0 ∧
      overlay (shiftedBlocks row shifted) 1 =
        chainResidual row shifted 1 + bitsResidual row shifted 0 ∧
      overlay (shiftedBlocks row shifted) 32 =
        bitsResidual row shifted 31 + rootResidual row shifted 30 ∧
      overlay (shiftedBlocks row shifted) 33 = rootResidual row shifted 31 := by
  simp [overlay, shiftedBlocks, chunkBytes, depth]

theorem overlay_shifted_between {i : ℕ} (inside : i < 30) :
    overlay (shiftedBlocks row shifted) (i + 2) =
      chainResidual row shifted (i + 2) +
        (bitsResidual row shifted (i + 1) + rootResidual row shifted i) := by
  have first : i + 2 < 32 := by omega
  have second : i + 1 < 32 := by omega
  have third : i < 32 := by omega
  simp [overlay, shiftedBlocks, chunkBytes, depth, first, second, third]

end Bodies

section Separation

variable {F : Type} [Field F] {row shifted : List F}

theorem mul_sub_one_eq_zero {value : F} : value * (value - 1) = 0 ↔ value = 0 ∨ value = 1 := by
  rw [mul_eq_zero, sub_eq_zero]

/-- The overlaid values of a row vanish where its equations hold or its errors hide one another. -/
theorem overlay_row_iff :
    (∀ power < 36, overlay (rowBlocks row) power = 0) ↔ RowEquations row ∨ RowCancels row := by
  obtain ⟨none, top, bit, first⟩ := @overlay_row_flags F _ row
  constructor
  · intro zeros
    have isTop := mul_sub_one_eq_zero.1 (top ▸ zeros 1 (by decide))
    have indexBit := mul_sub_one_eq_zero.1 (bit ▸ zeros 2 (by decide))
    have start : leftResidual row 0 = 0 := first ▸ zeros 3 (by decide)
    have finish : rightResidual row 31 = 0 := by
      rw [← overlay_row_last]
      exact zeros 35 (by decide)
    have between : ∀ i < 31, leftResidual row (i + 1) =
        -(rightResidual row i + if i = 1 then indexResidual row else 0) := by
      intro i inside
      rw [← add_eq_zero_iff_eq_neg, ← overlay_row_between inside]
      exact zeros (i + 4) (by omega)
    by_cases wrong : indexResidual row ≠ 0 ∨ ∃ i < 31, rightResidual row i ≠ 0
    · exact .inr ⟨isTop, indexBit, start, between, finish, wrong⟩
    · push Not at wrong
      obtain ⟨index, right⟩ := wrong
      refine .inl ⟨isTop, indexBit, ?_, ?_, index⟩
      · intro i inside
        cases i with
        | zero => exact start
        | succ i =>
            have before : i < 31 := Nat.lt_of_succ_lt_succ inside
            rw [between i before, right i before, index, ite_self, add_zero, neg_zero]
      · intro i inside
        rcases Nat.lt_or_eq_of_le (Nat.le_of_lt_succ inside) with before | rfl
        · exact right i before
        · exact finish
  · intro states
    have flags : (cell row Col.isTop = 0 ∨ cell row Col.isTop = 1) ∧
        (cell row Col.indexBit = 0 ∨ cell row Col.indexBit = 1) :=
      states.elim (fun equations => ⟨equations.isTop, equations.indexBit⟩)
        fun cancels => ⟨cancels.isTop, cancels.indexBit⟩
    have start : leftResidual row 0 = 0 :=
      states.elim (fun equations => equations.left 0 (by decide)) RowCancels.first
    have finish : rightResidual row 31 = 0 :=
      states.elim (fun equations => equations.right 31 (by decide)) RowCancels.last
    have between : ∀ i < 31, leftResidual row (i + 1) =
        -(rightResidual row i + if i = 1 then indexResidual row else 0) := by
      rcases states with equations | cancels
      · intro i inside
        rw [equations.left (i + 1) (Nat.succ_lt_succ inside), equations.right i (by
          rw [chunkBytes]; omega), equations.index, ite_self, add_zero, neg_zero]
      · exact cancels.between
    intro power bounded
    rcases Nat.lt_or_ge power 4 with low | high
    · interval_cases power
      · exact none
      · rw [top, mul_sub_one_eq_zero]
        exact flags.1
      · rw [bit, mul_sub_one_eq_zero]
        exact flags.2
      · rw [first, start]
    · obtain ⟨i, rfl⟩ := Nat.exists_eq_add_of_le' high
      rcases Nat.lt_or_ge i 31 with inside | outside
      · rw [overlay_row_between inside, between i inside, neg_add_cancel]
      · obtain rfl : i = 31 := by omega
        rw [overlay_row_last, finish]

theorem RowEquations.not_cancels (equations : RowEquations row) : ¬ RowCancels row := by
  intro cancels
  rcases cancels.wrong with index | ⟨i, inside, right⟩
  · exact index equations.index
  · exact right (equations.right i (by rw [chunkBytes]; omega))

theorem overlay_shifted_iff :
    (∀ power < 34, overlay (shiftedBlocks row shifted) power = 0) ↔
      ShiftedEquations row shifted ∨ ShiftedCancels row shifted := by
  obtain ⟨first, second, next, last⟩ := @overlay_shifted_ends F _ row shifted
  constructor
  · intro zeros
    have start : chainResidual row shifted 0 = 0 := first ▸ zeros 0 (by decide)
    have finish : rootResidual row shifted 31 = 0 := last ▸ zeros 33 (by decide)
    have low : chainResidual row shifted 1 = -bitsResidual row shifted 0 := by
      rw [← add_eq_zero_iff_eq_neg, ← second]
      exact zeros 1 (by decide)
    have high : bitsResidual row shifted 31 = -rootResidual row shifted 30 := by
      rw [← add_eq_zero_iff_eq_neg, ← next]
      exact zeros 32 (by decide)
    have between : ∀ i < 30, chainResidual row shifted (i + 2) =
        -(bitsResidual row shifted (i + 1) + rootResidual row shifted i) := by
      intro i inside
      rw [← add_eq_zero_iff_eq_neg, ← overlay_shifted_between inside]
      exact zeros (i + 2) (by omega)
    by_cases wrong : ∃ i < 31, bitsResidual row shifted i ≠ 0 ∨ rootResidual row shifted i ≠ 0
    · exact .inr ⟨start, low, between, high, finish, wrong⟩
    · push Not at wrong
      have root : ∀ b < 32, rootResidual row shifted b = 0 := by
        intro b inside
        rcases Nat.lt_or_eq_of_le (Nat.le_of_lt_succ inside) with before | rfl
        · exact (wrong b before).2
        · exact finish
      have bits : ∀ k < 32, bitsResidual row shifted k = 0 := by
        intro k inside
        rcases Nat.lt_or_eq_of_le (Nat.le_of_lt_succ inside) with before | rfl
        · exact (wrong k before).1
        · rw [high, root 30 (by decide), neg_zero]
      refine .inl ⟨?_, bits, root⟩
      intro b inside
      rcases b with _ | _ | b
      · exact start
      · rw [low, bits 0 (by decide), neg_zero]
      · have before : b < 30 := by
          rw [chunkBytes] at inside
          omega
        rw [between b before, bits (b + 1) (by omega), root b (by omega), add_zero, neg_zero]
  · intro states
    have within : ∀ {b : ℕ}, b < 32 → b < chunkBytes := fun inside => inside
    have start : chainResidual row shifted 0 = 0 :=
      states.elim (fun equations => equations.chain 0 (by decide)) ShiftedCancels.first
    have finish : rootResidual row shifted 31 = 0 :=
      states.elim (fun equations => equations.root 31 (by decide)) ShiftedCancels.last
    have low : chainResidual row shifted 1 = -bitsResidual row shifted 0 := by
      rcases states with equations | cancels
      · rw [equations.chain 1 (by decide), equations.bits 0 (by decide), neg_zero]
      · exact cancels.second
    have high : bitsResidual row shifted 31 = -rootResidual row shifted 30 := by
      rcases states with equations | cancels
      · rw [equations.bits 31 (by decide), equations.root 30 (by decide), neg_zero]
      · exact cancels.next
    have between : ∀ i < 30, chainResidual row shifted (i + 2) =
        -(bitsResidual row shifted (i + 1) + rootResidual row shifted i) := by
      rcases states with equations | cancels
      · intro i inside
        rw [equations.chain (i + 2) (within (by omega)),
          equations.bits (i + 1) (by rw [depth]; omega), equations.root i (within (by omega)),
          add_zero, neg_zero]
      · exact cancels.between
    intro power bounded
    rcases power with _ | _ | i
    · rw [first, start]
    · rw [second, low, neg_add_cancel]
    · rcases Nat.lt_or_ge i 30 with inside | outside
      · rw [overlay_shifted_between inside, between i inside, neg_add_cancel]
      · have upper : i < 32 := by omega
        interval_cases i
        · rw [next, high, neg_add_cancel]
        · rw [last, finish]

theorem ShiftedEquations.not_cancels (equations : ShiftedEquations row shifted) :
    ¬ ShiftedCancels row shifted := by
  intro cancels
  obtain ⟨i, inside, bits | root⟩ := cancels.wrong
  · exact bits (equations.bits i (by rw [depth]; omega))
  · exact root (equations.root i (by rw [chunkBytes]; omega))

variable [Fintype F] (large : 36 < Fintype.card F) (wide : numColumns ≤ row.length)

include large wide

theorem row_vanishes_iff (real : cell row Col.isReal = 1) :
    (∀ alpha, evaluateAtPoint row alpha = 0) ↔ RowEquations row ∨ RowCancels row := by
  rw [← overlay_row_iff, ← combination_eq_zero_iff rowBlocks_fit large 0]
  simp only [evaluateAtPoint_eq wide real, pow_zero, one_mul]

theorem shifted_vanishes_iff (long : shiftedLength ≤ shifted.length)
    (realNext : isRealNext shifted = 1) {z omegaNMinus1 : F} (off : z ≠ omegaNMinus1)
    (alphaOffset : ℕ) :
    (∀ alpha, evaluateShiftedAtPoint row shifted z omegaNMinus1 alpha alphaOffset = 0) ↔
      ShiftedEquations row shifted ∨ ShiftedCancels row shifted := by
  have factor : isRealNext shifted * (z - omegaNMinus1) ≠ 0 := by
    rw [realNext, one_mul]
    exact sub_ne_zero.2 off
  rw [← overlay_shifted_iff,
    ← combination_eq_zero_iff shiftedBlocks_fit (by omega) alphaOffset]
  simp only [evaluateShiftedAtPoint_eq wide long, mul_eq_zero, factor, false_or]

/-- The bodies of a row, and those between rows, vanish for every challenge exactly with their
equations unless wrong values hide one another. -/
theorem bodies_separate_iff (real : cell row Col.isReal = 1)
    (long : shiftedLength ≤ shifted.length) (realNext : isRealNext shifted = 1)
    {z omegaNMinus1 : F} (off : z ≠ omegaNMinus1) (alphaOffset : ℕ) :
    (((∀ alpha, evaluateAtPoint row alpha = 0) ↔ RowEquations row) ↔ ¬ RowCancels row) ∧
      (((∀ alpha, evaluateShiftedAtPoint row shifted z omegaNMinus1 alpha alphaOffset = 0) ↔
        ShiftedEquations row shifted) ↔ ¬ ShiftedCancels row shifted) := by
  rw [row_vanishes_iff large wide real, shifted_vanishes_iff large wide long realNext off,
    or_iff_left_iff_imp, or_iff_left_iff_imp]
  constructor
  · constructor
    · intro separates cancels
      exact (separates cancels).not_cancels cancels
    · intro none cancels
      exact absurd cancels none
  · constructor
    · intro separates cancels
      exact (separates cancels).not_cancels cancels
    · intro none cancels
      exact absurd cancels none

end Separation

/-- A real row whose second left byte is one too large and whose first right byte is one too
small. -/
def cancellingRow : List Fr := (List.range numColumns).map fun col =>
  if col = Col.leftOffset + 1 then 1 else if col = Col.rightOffset then -1
  else if col = Col.isReal then 1 else 0

/-- The next row of a trace of zeros, marked as real. -/
def zeroShifted : List Fr := (List.range shiftedLength).map fun col =>
  if col = chunkBytes then 1 else 0

theorem card_Fr : 36 < Fintype.card Fr := by
  rw [ZMod.card]
  decide

theorem cell_cancellingRow {col : ℕ} (inside : col < 230) :
    cell cancellingRow col =
      if col = 65 then 1 else if col = 96 then -1 else if col = 227 then 1 else 0 := by
  rw [cell, cancellingRow, getD_map_range]
  exact if_pos inside

theorem bodies_separate_iff_cancellingRow :
    (((∀ alpha, evaluateAtPoint cancellingRow alpha = 0) ↔ RowEquations cancellingRow) ↔
        ¬ RowCancels cancellingRow) ∧
      (((∀ alpha, evaluateShiftedAtPoint cancellingRow zeroShifted 1 0 alpha 0 = 0) ↔
        ShiftedEquations cancellingRow zeroShifted) ↔
          ¬ ShiftedCancels cancellingRow zeroShifted) :=
  bodies_separate_iff card_Fr (by rw [cancellingRow, List.length_map, List.length_range])
    (cell_cancellingRow (by decide)) (by rw [zeroShifted, List.length_map, List.length_range])
    (by rw [isRealNext, cell, zeroShifted, getD_map_range]; rfl) one_ne_zero 0

theorem leftResidual_cancellingRow {i : ℕ} (inside : i < 32) :
    leftResidual cancellingRow i = if i = 1 then 1 else 0 := by
  have left : 64 + i ≠ 96 ∧ 64 + i ≠ 227 := by omega
  have second : 64 + i = 65 ↔ i = 1 := by omega
  have current : i ≠ 65 ∧ i ≠ 96 ∧ i ≠ 227 := by omega
  simp only [leftResidual, Col.leftOffset, Col.siblingOffset, Col.currentHashOffset, chunkBytes,
    Col.indexBit, Col.depositRootOffset, Col.nextHashOffset, Col.rightOffset]
  rw [cell_cancellingRow (by omega), cell_cancellingRow (by omega), cell_cancellingRow (by omega),
    cell_cancellingRow (by omega)]
  simp [left, second, current]

theorem rightResidual_cancellingRow {i : ℕ} (inside : i < 32) :
    rightResidual cancellingRow i = if i = 0 then -1 else 0 := by
  have right : 96 + i ≠ 65 ∧ 96 + i ≠ 227 := by omega
  have current : i ≠ 65 ∧ i ≠ 96 ∧ i ≠ 227 := by omega
  have sibling : 32 + i ≠ 65 ∧ 32 + i ≠ 96 ∧ 32 + i ≠ 227 := by omega
  simp only [rightResidual, Col.leftOffset, Col.siblingOffset, Col.currentHashOffset, chunkBytes,
    Col.indexBit, Col.depositRootOffset, Col.nextHashOffset, Col.rightOffset]
  rw [cell_cancellingRow (by omega), cell_cancellingRow (by omega), cell_cancellingRow (by omega),
    cell_cancellingRow (by omega)]
  simp [right, current, sibling]

theorem foldl_add_zero {F : Type} [AddMonoid F] {items : List ℕ} {term : ℕ → F} (start : F)
    (zero : ∀ k ∈ items, term k = 0) :
    items.foldl (fun sum k => sum + term k) start = start := by
  induction items generalizing start with
  | nil => rfl
  | cons item rest hypothesis =>
      rw [List.foldl_cons, zero item List.mem_cons_self, add_zero]
      exact hypothesis start fun k inside => zero k (List.mem_cons_of_mem item inside)

theorem indexResidual_cancellingRow : indexResidual cancellingRow = 0 := by
  have index : cell cancellingRow Col.depositIndex = 0 := cell_cancellingRow (by decide)
  rw [indexResidual, index, foldl_add_zero, sub_zero]
  intro k inside
  have bounded : k < 32 := List.mem_range.1 inside
  have digit : cell cancellingRow (Col.indexBitReplOffset + k) = 0 := by
    have apart : 194 + k ≠ 65 ∧ 194 + k ≠ 96 ∧ 194 + k ≠ 227 := by omega
    have column : Col.indexBitReplOffset + k = 194 + k := rfl
    rw [column, cell_cancellingRow (by omega)]
    simp [apart]
  rw [digit, zero_mul]

theorem rowCancels_cancellingRow : RowCancels cancellingRow where
  isTop := .inl (cell_cancellingRow (by decide))
  indexBit := .inl (cell_cancellingRow (by decide))
  first := leftResidual_cancellingRow (by decide)
  between i inside := by
    rw [leftResidual_cancellingRow (by omega), rightResidual_cancellingRow (by omega),
      indexResidual_cancellingRow, ite_self, add_zero]
    by_cases first : i = 0
    · simp [first]
    · simp [first]
  last := rightResidual_cancellingRow (by decide)
  wrong := .inr ⟨0, by decide, by
    rw [rightResidual_cancellingRow (by decide)]
    exact neg_ne_zero.2 one_ne_zero⟩

theorem row_bodies_cancel :
    ¬ ∀ row : List Fr, row.length = numColumns → cell row Col.isReal = 1 →
      ((∀ alpha, evaluateAtPoint row alpha = 0) ↔ RowEquations row) := by
  intro separates
  have wide : cancellingRow.length = numColumns := by
    rw [cancellingRow, List.length_map, List.length_range]
  have real : cell cancellingRow Col.isReal = 1 := cell_cancellingRow (by decide)
  have vanishes := (row_vanishes_iff card_Fr wide.ge real).2 (.inr rowCancels_cancellingRow)
  exact ((separates cancellingRow wide real).1 vanishes).not_cancels rowCancels_cancellingRow

end DepositTree

end MetaVm.Zkp
