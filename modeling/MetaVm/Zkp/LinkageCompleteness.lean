import MetaVm.Zkp.LinkageWitness

namespace MetaVm.Zkp

/-! The trace that is made of the witness. -/

section Trace

variable {curve : CurveType}

theorem le_nearestPowerOfTwo_go {n power : ℕ} (positive : 0 < power)
    (isPower : ∃ k, power = 2 ^ k) :
    n ≤ nearestPowerOfTwo.go n power ∧ ∃ k, nearestPowerOfTwo.go n power = 2 ^ k := by
  fun_induction nearestPowerOfTwo.go n power with
  | case1 power more hypothesis =>
      obtain ⟨k, rfl⟩ := isPower
      exact hypothesis (Nat.mul_pos Nat.two_pos positive) ⟨k + 1, (pow_succ' 2 k).symm⟩
  | case2 power enough =>
      exact ⟨Nat.not_lt.1 fun more => enough ⟨positive, more⟩, isPower⟩

theorem le_nearestPowerOfTwo (n : ℕ) : n ≤ nearestPowerOfTwo n :=
  (le_nearestPowerOfTwo_go (by decide) ⟨4, rfl⟩).1

theorem exists_nearestPowerOfTwo (n : ℕ) : ∃ k, nearestPowerOfTwo n = 2 ^ k :=
  (le_nearestPowerOfTwo_go (by decide) ⟨4, rfl⟩).2

theorem nearestPowerOfTwo_le {n k : ℕ} (enough : n ≤ 2 ^ k) (sixteen : 4 ≤ k) :
    nearestPowerOfTwo n ≤ 2 ^ k := by
  have general : ∀ power, (∃ j, power = 2 ^ j) → power ≤ 2 ^ k →
      nearestPowerOfTwo.go n power ≤ 2 ^ k := by
    intro power isPower below
    fun_induction nearestPowerOfTwo.go n power with
    | case1 power more hypothesis =>
        obtain ⟨j, rfl⟩ := isPower
        have under := (Nat.pow_lt_pow_iff_right Nat.one_lt_two).1 (more.2.trans_le enough)
        have doubled : 2 * 2 ^ j = 2 ^ (j + 1) := (pow_succ' 2 j).symm
        exact hypothesis ⟨j + 1, doubled⟩ (doubled ▸ Nat.pow_le_pow_right Nat.two_pos under)
    | case2 power _ => exact below
  exact general 16 ⟨4, rfl⟩ (Nat.pow_le_pow_right Nat.two_pos sixteen)

theorem getD_padColumn (column : List (Scalar curve)) (n : ℕ) {padded row : ℕ}
    (rest : Scalar curve) (inside : row < padded) :
    (padColumn column n padded rest).getD row 0 = if row < n then column.getD row 0 else rest := by
  rw [padColumn, List.getD_eq_getElem?_getD, List.getElem?_map,
    List.getElem?_range inside]
  rfl

/-- A column that ends in zeros anyway. -/
theorem getD_padColumn_zero {column : List (Scalar curve)} {n padded row : ℕ}
    (length : column.length = n) (inside : row < padded) :
    (padColumn column n padded 0).getD row 0 = column.getD row 0 := by
  rw [getD_padColumn column n 0 inside]
  split
  · rfl
  · rename_i past
    rw [List.getD_eq_default]
    omega

/-- The sums of a side go on with the sum of all its rows. -/
theorem getD_padColumn_sums {air : CrossAirLogUpAirWitness curve} {n padded row : ℕ}
    (sums : air.hColumn = sumsBefore 0 air.fColumn) (length : air.fColumn.length = n)
    (inside : row < padded) :
    (padColumn air.hColumn n padded (sumPastEnd air n)).getD row 0 =
      (air.fColumn.take row).sum := by
  rw [getD_padColumn air.hColumn n _ inside]
  split
  · rename_i before
    rw [sums, getD_sumsBefore 0 (length.symm ▸ before), zero_add]
  · rename_i past
    have total := closureOf_sumsBefore air.fColumn
    rw [closureOf, length, ← sums] at total
    rw [sumPastEnd, total, List.take_of_length_le (by omega)]

end Trace

/-! The constraints hold on the trace. -/

section Constraints

variable {curve : CurveType}

def TracePolynomials.row (trace : TracePolynomials curve) (i : ℕ) : List (Scalar curve) :=
  trace.columns.map fun column => column.getD i 0

/-- The next cells of the columns that shifted constraints read. -/
def TracePolynomials.shiftedRow (trace : TracePolynomials curve) (i : ℕ) :
    List (Scalar curve) :=
  LinkageConstraintSystem.shiftedColumnIndices.map fun index =>
    (trace.row ((i + 1) % trace.paddedSize.toNat)).getD index 0

namespace LinkageConstraintSystem

theorem weigh_eq_zero {bodies : List (Scalar curve)} (vanish : ∀ body ∈ bodies, body = 0)
    (alpha power : Scalar curve) : weigh alpha power bodies = 0 := by
  induction bodies generalizing power with
  | nil => rfl
  | cons body bodies hypothesis =>
      obtain ⟨here, others⟩ := List.forall_mem_cons.1 vanish
      rw [weigh, here, zero_mul, zero_add, hypothesis others]

/-- The constraints on single rows hold on every row of the domain. -/
def RowsHold (system : LinkageConstraintSystem curve) (trace : TracePolynomials curve) : Prop :=
  ∀ i < trace.paddedSize.toNat, ∀ body ∈ system.rowBodies (trace.row i), body = 0

/-- The constraints on a row and the next one hold on every row of the domain. -/
def ShiftedHold (system : LinkageConstraintSystem curve) (trace : TracePolynomials curve)
    (omega : Scalar curve) : Prop :=
  ∀ i < trace.paddedSize.toNat, ∀ body ∈ system.shiftedBodies (trace.row i)
    (trace.shiftedRow i) (omega ^ i) (omega ^ (trace.paddedSize.toNat - 1)), body = 0

theorem RowsHold.evaluateAtPoint {system : LinkageConstraintSystem curve}
    {trace : TracePolynomials curve} (holds : system.RowsHold trace) {i : ℕ}
    (inside : i < trace.paddedSize.toNat) (alpha : Scalar curve) :
    system.evaluateAtPoint (trace.row i) alpha = 0 := by
  rw [LinkageConstraintSystem.evaluateAtPoint]
  split
  · rfl
  · exact weigh_eq_zero (holds i inside) alpha 1

theorem ShiftedHold.evaluateShiftedAtPoint {system : LinkageConstraintSystem curve}
    {trace : TracePolynomials curve} {omega : Scalar curve}
    (holds : system.ShiftedHold trace omega) {i : ℕ} (inside : i < trace.paddedSize.toNat)
    (alpha : Scalar curve) (alphaOffset : ℕ) :
    system.evaluateShiftedAtPoint (trace.row i) (trace.shiftedRow i) (omega ^ i)
      (omega ^ (trace.paddedSize.toNat - 1)) alpha alphaOffset = 0 := by
  rw [LinkageConstraintSystem.evaluateShiftedAtPoint]
  split
  · rfl
  · exact weigh_eq_zero (holds i inside) alpha _

variable [Fact curve.order.Prime] {omega : Scalar curve}

/-- Squaring finds the size of a domain that is not too large. -/
theorem recoverDomainSize_eq {k : ℕ} (root : IsPrimitiveRoot omega (2 ^ k)) (small : k ≤ 31) :
    recoverDomainSize 32 omega 1 = 2 ^ k := by
  have general : ∀ fuel j, j ≤ k → k < fuel + j →
      recoverDomainSize fuel (omega ^ 2 ^ j) (2 ^ j) = 2 ^ k := by
    intro fuel
    induction fuel with
    | zero => intro j _ _; omega
    | succ fuel hypothesis =>
        intro j below enough
        rw [recoverDomainSize]
        by_cases reached : j = k
        · rw [reached, if_pos (sub_eq_zero.2 root.pow_eq_one), ite_self]
        · have before : j < k := Nat.lt_of_le_of_ne below reached
          have more : omega ^ 2 ^ j ≠ 1 := by
            intro one
            have divides := Nat.le_of_dvd (Nat.two_pow_pos j) (root.dvd_of_pow_eq_one _ one)
            exact absurd ((Nat.pow_lt_pow_iff_right Nat.one_lt_two).2 before) (Nat.not_lt.2 divides)
          rw [if_pos (Nat.pow_le_pow_right Nat.two_pos (by omega)), if_neg (sub_ne_zero.2 more),
            ← pow_add, ← Nat.two_mul, ← pow_succ', ← pow_succ]
          exact hypothesis (j + 1) before (by omega)
  have start := general 32 0 (Nat.zero_le k) (by omega)
  rwa [pow_zero, pow_one] at start

theorem inv_pow_sub_one {size : ℕ} (positive : 0 < size) (root : omega ^ size = 1) :
    (omega ^ (size - 1))⁻¹ = omega := by
  have product : omega ^ (size - 1) * omega = 1 := by
    rw [← pow_succ, Nat.sub_add_cancel positive, root]
  exact inv_eq_of_mul_eq_one_right product

/-- From the last row with data on, the step is not asked for. -/
theorem exclusion_eq_zero {system : LinkageConstraintSystem curve} {size i : ℕ}
    (some : 0 < system.numRows) (late : system.numRows - 1 ≤ i) (inside : i < size) :
    system.exclusion omega (omega ^ i) size = 0 := by
  rw [exclusion, if_pos some]
  apply List.prod_eq_zero
  refine List.mem_map.2 ⟨i, ?_, sub_self _⟩
  rw [List.mem_range'_1]
  omega

end LinkageConstraintSystem

/-- A side of the witness that fits the rows of its trace. -/
structure CrossAirLogUpAirWitness.Fits (air : CrossAirLogUpAirWitness curve)
    (rows : List (Bool × Scalar curve)) : Prop where
  tuple : air.tupleColumn = rows.map Prod.snd
  length : air.fColumn.length = rows.length
  sums : air.hColumn = sumsBefore 0 air.fColumn

theorem CrossAirLogUpAirWitness.Fits.covers {air : CrossAirLogUpAirWitness curve}
    {rows : List (Bool × Scalar curve)} (fits : air.Fits rows) {n : ℕ} (length : rows.length = n) :
    air.Covers n := by
  refine ⟨?_, ?_, ?_⟩
  · rw [fits.tuple, List.length_map, length]
  · rw [fits.length, length]
  · rw [fits.sums, length_sumsBefore, fits.length, length]

def flag (active : Bool) : Scalar curve := if active then 1 else 0

/-- The linkage trace of two sides. -/
def linkageTrace (rowsA rowsB : List (Bool × Scalar curve))
    (witness : CrossAirLogUpWitness curve) : TracePolynomials curve :=
  let n := max rowsA.length rowsB.length
  let padded := nearestPowerOfTwo (max n 1)
  { columns :=
      [padColumn witness.airA.tupleColumn rowsA.length padded 0,
        padColumn ((rowsA.map Prod.fst).map flag) rowsA.length padded 0,
        padColumn witness.airA.fColumn rowsA.length padded 0,
        padColumn witness.airA.hColumn rowsA.length padded (sumPastEnd witness.airA rowsA.length),
        padColumn witness.airB.tupleColumn rowsB.length padded 0,
        padColumn ((rowsB.map Prod.fst).map flag) rowsB.length padded 0,
        padColumn witness.airB.mColumn rowsB.length padded 0,
        padColumn witness.airB.fColumn rowsB.length padded 0,
        padColumn witness.airB.hColumn rowsB.length padded (sumPastEnd witness.airB rowsB.length)]
    numRows := n
    paddedSize := BitVec.ofNat 64 padded }

@[simp]
theorem length_sideRows (trace : TracePolynomials curve) (beta : Scalar curve)
    (columns : List (BitVec 64)) (selector : Option (BitVec 64)) :
    (sideRows trace beta columns selector).length = trace.paddedSize.toNat := by
  rw [sideRows, List.length_map, List.length_range]

theorem buildLinkageTrace_eq {traceA traceB : TracePolynomials curve}
    {desc : CrossAirLogUpDescriptor} {beta : Scalar curve} {witness : CrossAirLogUpWitness curve}
    (shaped : desc.Shaped traceA traceB)
    (fitsA : witness.airA.Fits (sideRows traceA beta desc.aColumns desc.aSelectorColumn))
    (fitsB : witness.airB.Fits (sideRows traceB beta desc.bColumns desc.bSelectorColumn))
    (multiplicities : traceB.paddedSize.toNat ≤ witness.airB.mColumn.length) :
    buildLinkageTrace traceA traceB desc witness =
      .ok (linkageTrace (sideRows traceA beta desc.aColumns desc.aSelectorColumn)
        (sideRows traceB beta desc.bColumns desc.bSelectorColumn) witness) := by
  have covered : witness.airA.Covers traceA.paddedSize.toNat ∧
      witness.airB.Covers traceB.paddedSize.toNat ∧
      traceB.paddedSize.toNat ≤ witness.airB.mColumn.length :=
    ⟨fitsA.covers (length_sideRows ..), fitsB.covers (length_sideRows ..), multiplicities⟩
  have actives : ∀ (trace : TracePolynomials curve) columns selector,
      (∀ index ∈ selector, index.toNat < trace.columns.length) →
      buildActiveColumn trace selector trace.paddedSize.toNat =
        some ((sideRows trace beta columns selector).map Prod.fst) := by
    intro trace columns selector inside
    rw [buildActiveColumn_eq inside, sideRows, List.map_map]
    refine congrArg some (List.map_congr_left fun row _ => ?_)
    rw [Function.comp_apply]
  unfold buildLinkageTrace linkageTrace
  rw [if_neg shaped.noneEmpty, length_sideRows, length_sideRows]
  simp only [actives traceA desc.aColumns _ shaped.sideA.2,
    actives traceB desc.bColumns _ shaped.sideB.2]
  exact if_pos covered

end Constraints

/-! The linkage trace of a witness satisfies its constraints. -/

section Satisfied

variable {curve : CurveType} {rowsA rowsB : List (Bool × Scalar curve)}
variable {witness : CrossAirLogUpWitness curve}

def linkageSize (rowsA rowsB : List (Bool × Scalar curve)) : ℕ :=
  nearestPowerOfTwo (max (max rowsA.length rowsB.length) 1)

theorem length_le_linkageSize (rowsA rowsB : List (Bool × Scalar curve)) :
    max rowsA.length rowsB.length ≤ linkageSize rowsA rowsB :=
  (Nat.le_max_left _ 1).trans (le_nearestPowerOfTwo _)

theorem linkageSize_pos (rowsA rowsB : List (Bool × Scalar curve)) : 0 < linkageSize rowsA rowsB :=
  Nat.one_pos.trans_le ((Nat.le_max_right _ 1).trans (le_nearestPowerOfTwo _))

theorem linkageSize_le {k : ℕ} (sixteen : 4 ≤ k) (a : rowsA.length ≤ 2 ^ k)
    (b : rowsB.length ≤ 2 ^ k) : linkageSize rowsA rowsB ≤ 2 ^ k :=
  nearestPowerOfTwo_le (Nat.max_le.2 ⟨Nat.max_le.2 ⟨a, b⟩, Nat.one_le_two_pow⟩) sixteen

theorem paddedSize_linkageTrace (small : linkageSize rowsA rowsB < 2 ^ 64) :
    (linkageTrace rowsA rowsB witness).paddedSize.toNat = linkageSize rowsA rowsB :=
  (BitVec.toNat_ofNat _ _).trans (Nat.mod_eq_of_lt small)

theorem row_linkageTrace (fitsA : witness.airA.Fits rowsA) (fitsB : witness.airB.Fits rowsB)
    (multiplicities : witness.airB.mColumn.length = rowsB.length) {i : ℕ}
    (inside : i < linkageSize rowsA rowsB) :
    (linkageTrace rowsA rowsB witness).row i =
      [(rowsA.getD i (false, 0)).2, flag (rowsA.getD i (false, 0)).1,
        witness.airA.fColumn.getD i 0, (witness.airA.fColumn.take i).sum,
        (rowsB.getD i (false, 0)).2, flag (rowsB.getD i (false, 0)).1,
        witness.airB.mColumn.getD i 0, witness.airB.fColumn.getD i 0,
        (witness.airB.fColumn.take i).sum] := by
  have tuples : ∀ {air : CrossAirLogUpAirWitness curve} {rows}, air.Fits rows →
      (padColumn air.tupleColumn rows.length (linkageSize rowsA rowsB) 0).getD i 0 =
        (rows.getD i (false, 0)).2 := by
    intro air rows fits
    have length : air.tupleColumn.length = rows.length := by rw [fits.tuple, List.length_map]
    rw [getD_padColumn_zero length inside, fits.tuple]
    exact List.getD_map rows (false, 0) Prod.snd
  have flags : ∀ rows : List (Bool × Scalar curve),
      (padColumn ((rows.map Prod.fst).map flag) rows.length (linkageSize rowsA rowsB)
        (0 : Scalar curve)).getD i 0 = flag (rows.getD i (false, 0)).1 := by
    intro rows
    rw [getD_padColumn_zero (by rw [List.length_map, List.length_map]) inside, List.map_map]
    exact List.getD_map rows (false, 0) (flag ∘ Prod.fst)
  have sums : ∀ {air : CrossAirLogUpAirWitness curve} {rows}, air.Fits rows →
      (padColumn air.hColumn rows.length (linkageSize rowsA rowsB)
        (sumPastEnd air rows.length)).getD i 0 = (air.fColumn.take i).sum :=
    fun fits => getD_padColumn_sums fits.sums fits.length inside
  rw [← tuples fitsA, ← tuples fitsB, ← flags rowsA, ← flags rowsB, ← sums fitsA, ← sums fitsB,
    ← getD_padColumn_zero fitsA.length inside, ← getD_padColumn_zero fitsB.length inside,
    ← getD_padColumn_zero multiplicities inside]
  rfl

/-- Values that are related at every index, past the end too. -/
theorem forall₂_getD {α β : Type} {related : α → β → Prop} {as : List α} {bs : List β}
    (each : List.Forall₂ related as bs) {a : α} {b : β} (past : related a b) (i : ℕ) :
    related (as.getD i a) (bs.getD i b) := by
  induction each generalizing i with
  | nil => exact past
  | cons here _ hypothesis =>
      cases i with
      | zero => exact here
      | succ i => exact hypothesis i

/-- The inverses and the multiplicities of both sides are right. -/
structure Weighed (gamma : Scalar curve) (rowsA rowsB : List (Bool × Scalar curve))
    (witness : CrossAirLogUpWitness curve) : Prop where
  fitsA : witness.airA.Fits rowsA
  fitsB : witness.airB.Fits rowsB
  multiplicities : witness.airB.mColumn.length = rowsB.length
  inverseA : ∀ i, witness.airA.fColumn.getD i 0 * (gamma - (rowsA.getD i (false, 0)).2) =
    flag (rowsA.getD i (false, 0)).1
  inverseB : ∀ i, witness.airB.fColumn.getD i 0 * (gamma - (rowsB.getD i (false, 0)).2) =
    witness.airB.mColumn.getD i 0

/-- On the last row both sums reach the closures. -/
def CrossAirLogUpWitness.ClosedBy (witness : CrossAirLogUpWitness curve)
    (last : List (Scalar curve)) : Prop :=
  last.getD LinkageCol.hA 0 + last.getD LinkageCol.fA 0 = witness.closureA ∧
    last.getD LinkageCol.hB 0 + last.getD LinkageCol.fB 0 = witness.closureB

theorem flag_mul_sub_one (active : Bool) : (flag active : Scalar curve) * (flag active - 1) = 0 := by
  cases active with
  | false => exact zero_mul _
  | true => exact mul_eq_zero_of_right _ (sub_self _)

namespace Weighed

variable {gamma beta : Scalar curve}

theorem rowsHold (weighed : Weighed gamma rowsA rowsB witness) (numRows : ℕ) :
    LinkageConstraintSystem.RowsHold ⟨numRows, gamma, beta⟩
      (linkageTrace rowsA rowsB witness) := by
  intro i inside body member
  have inside' : i < linkageSize rowsA rowsB := by
    refine inside.trans_le ?_
    exact (BitVec.toNat_ofNat _ _).trans_le (Nat.mod_le _ _)
  rw [row_linkageTrace weighed.fitsA weighed.fitsB weighed.multiplicities inside'] at member
  simp only [LinkageConstraintSystem.rowBodies, List.mem_cons, List.not_mem_nil, or_false] at member
  rcases member with rfl | rfl | rfl | rfl
  · exact flag_mul_sub_one _
  · exact flag_mul_sub_one _
  · exact sub_eq_zero.2 (weighed.inverseA i)
  · exact sub_eq_zero.2 (weighed.inverseB i)

/-- At the last row the sums are complete. -/
theorem sum_last {f : List (Scalar curve)} {size : ℕ} (positive : 0 < size)
    (inside : f.length ≤ size) : (f.take (size - 1)).sum + f.getD (size - 1) 0 = f.sum := by
  rw [← sum_take_succ, Nat.sub_add_cancel positive, List.take_of_length_le inside]

/-- The rows that the sums do not step from are the ones that are excluded. -/
theorem shiftedHold [Fact curve.order.Prime] (weighed : Weighed gamma rowsA rowsB witness)
    (small : linkageSize rowsA rowsB ≤ 2 ^ 31) {omega : Scalar curve}
    (root : IsPrimitiveRoot omega (linkageSize rowsA rowsB)) :
    LinkageConstraintSystem.ShiftedHold ⟨max rowsA.length rowsB.length, gamma, beta⟩
      (linkageTrace rowsA rowsB witness) omega := by
  obtain ⟨k, isPower⟩ := exists_nearestPowerOfTwo (max (max rowsA.length rowsB.length) 1)
  have sizeEq : linkageSize rowsA rowsB = 2 ^ k := isPower
  have positive := linkageSize_pos rowsA rowsB
  have padded : (linkageTrace rowsA rowsB witness).paddedSize.toNat = linkageSize rowsA rowsB :=
    paddedSize_linkageTrace (small.trans_lt (by decide))
  have rows := fun {i} => @row_linkageTrace _ _ _ witness weighed.fitsA weighed.fitsB
    weighed.multiplicities i
  intro i inside body member
  rw [padded] at inside member
  rw [LinkageConstraintSystem.shiftedBodies,
    LinkageConstraintSystem.inv_pow_sub_one positive root.pow_eq_one] at member
  have found : LinkageConstraintSystem.recoverDomainSize 32 omega 1 = linkageSize rowsA rowsB := by
    rw [sizeEq] at root small ⊢
    exact LinkageConstraintSystem.recoverDomainSize_eq root
      ((Nat.pow_le_pow_iff_right Nat.one_lt_two).1 small)
  rw [found, TracePolynomials.shiftedRow, padded, rows inside,
    rows (Nat.mod_lt (i + 1) positive)] at member
  simp only [LinkageConstraintSystem.shiftedColumnIndices, List.map_cons, List.map_nil,
    List.mem_cons, List.not_mem_nil, or_false] at member
  -- either the row has a next one to step to, or there is no row to step from
  have steps : (max rowsA.length rowsB.length ≠ 0 ∧ max rowsA.length rowsB.length - 1 ≤ i) ∨
      ∀ f : List (Scalar curve), f.length ≤ max rowsA.length rowsB.length →
        (f.take ((i + 1) % linkageSize rowsA rowsB)).sum - (f.take i).sum - f.getD i 0 = 0 := by
    by_cases none : max rowsA.length rowsB.length = 0
    · right
      intro f short
      rw [none] at short
      obtain rfl := List.eq_nil_of_length_eq_zero (Nat.le_zero.1 short)
      simp only [List.take_nil, List.sum_nil, List.getD_nil, sub_zero]
    · by_cases late : max rowsA.length rowsB.length - 1 ≤ i
      · exact .inl ⟨none, late⟩
      · right
        intro f _
        have next : (i + 1) % linkageSize rowsA rowsB = i + 1 := by
          apply Nat.mod_eq_of_lt
          have := length_le_linkageSize rowsA rowsB
          omega
        rw [next, sum_take_succ]
        ring
  rcases steps with ⟨some, late⟩ | steps
  · have excluded : LinkageConstraintSystem.exclusion ⟨max rowsA.length rowsB.length, gamma, beta⟩
        omega (omega ^ i) (linkageSize rowsA rowsB) = 0 :=
      LinkageConstraintSystem.exclusion_eq_zero (Nat.pos_of_ne_zero some) late inside
    rcases member with rfl | rfl <;> rw [excluded, mul_zero]
  · rcases member with rfl | rfl
    · exact mul_eq_zero_of_left
        (steps _ (weighed.fitsA.length.trans_le (Nat.le_max_left _ _))) _
    · exact mul_eq_zero_of_left
        (steps _ (weighed.fitsB.length.trans_le (Nat.le_max_right _ _))) _

/-- The last row has the whole sum of each side. -/
theorem closedBy_lastRow (weighed : Weighed gamma rowsA rowsB witness)
    (small : linkageSize rowsA rowsB < 2 ^ 64)
    (closureA : witness.closureA = witness.airA.fColumn.sum)
    (closureB : witness.closureB = witness.airB.fColumn.sum) :
    witness.ClosedBy ((linkageTrace rowsA rowsB witness).row
      ((linkageTrace rowsA rowsB witness).paddedSize.toNat - 1)) := by
  have positive := linkageSize_pos rowsA rowsB
  have enough := length_le_linkageSize rowsA rowsB
  rw [paddedSize_linkageTrace small, row_linkageTrace weighed.fitsA weighed.fitsB
    weighed.multiplicities (Nat.sub_lt positive Nat.one_pos), CrossAirLogUpWitness.ClosedBy,
    closureA, closureB]
  constructor
  · exact sum_last positive (weighed.fitsA.length.trans_le ((Nat.le_max_left _ _).trans enough))
  · exact sum_last positive (weighed.fitsB.length.trans_le ((Nat.le_max_right _ _).trans enough))

end Weighed

theorem forall₂_inverses [Fact curve.order.Prime] {gamma : Scalar curve}
    {rows : List (Bool × Scalar curve)} (apart : ∀ row ∈ rows, gamma - row.2 ≠ 0) :
    List.Forall₂ (fun row f => f * (gamma - row.2) = flag row.1) rows (inverses gamma rows) := by
  induction rows with
  | nil => exact .nil
  | cons row rows hypothesis =>
      obtain ⟨here, others⟩ := List.forall_mem_cons.1 apart
      refine .cons ?_ (hypothesis others)
      rw [flag, ite_mul, inv_mul_cancel₀ here, zero_mul]

theorem weighed_witnessOf [Fact curve.order.Prime] {gamma : Scalar curve}
    {counts after : TupleCounts curve} {charged : List (Scalar curve × Scalar curve)}
    (apart : ∀ row ∈ rowsA, gamma - row.2 ≠ 0)
    (spec : Charged gamma rowsB counts charged after) :
    Weighed gamma rowsA rowsB (witnessOf gamma rowsA rowsB charged) where
  fitsA := ⟨rfl, List.length_map _, rfl⟩
  fitsB := ⟨rfl, (List.length_map _).trans spec.row.length_eq.symm, rfl⟩
  multiplicities := (List.length_map _).trans spec.row.length_eq.symm
  inverseA := by
    intro i
    exact forall₂_getD (forall₂_inverses apart) (zero_mul _) i
  inverseB := by
    intro i
    have related := @forall₂_getD _ _ _ _ _ spec.row (false, 0) (0, 0) (zero_mul _) i
    have second : (charged.map Prod.snd).getD i 0 = (charged.getD i (0, 0)).2 :=
      List.getD_map charged (0, 0) Prod.snd
    have first : (charged.map Prod.fst).getD i 0 = (charged.getD i (0, 0)).1 :=
      List.getD_map charged (0, 0) Prod.fst
    rw [witnessOf, second, first]
    exact related

end Satisfied

/-- A witness is found exactly when every tuple that is looked up is in the table,
whatever the sizes of the two traces are. Its sums are the same on both sides, and
the trace that is made of it satisfies the constraints on every row, so that all their
combinations vanish there. -/
theorem cross_air_logup_complete {curve : CurveType} [Fact curve.order.Prime]
    {traceA traceB : TracePolynomials curve} {desc : CrossAirLogUpDescriptor}
    {beta gamma : Scalar curve} (shaped : desc.Shaped traceA traceB)
    (apartA : Apart gamma traceA beta desc.aColumns)
    (apartB : Apart gamma traceB beta desc.bColumns) :
    ((∃ witness, computeCrossAirLogupWitness traceA traceB desc beta gamma = .ok witness) ↔
      ∀ row < traceA.paddedSize.toNat, traceA.Selected desc.aSelectorColumn row →
        ∃ other < traceB.paddedSize.toNat, traceB.Selected desc.bSelectorColumn other ∧
          traceB.encode beta desc.bColumns other = traceA.encode beta desc.aColumns row) ∧
    ∀ witness, computeCrossAirLogupWitness traceA traceB desc beta gamma = .ok witness →
      witness.closureA = witness.closureB ∧
      (traceA.paddedSize.toNat ≤ 2 ^ 63 → traceB.paddedSize.toNat ≤ 2 ^ 63 →
        ∃ trace, buildLinkageTrace traceA traceB desc witness = .ok trace ∧
          LinkageConstraintSystem.RowsHold ⟨trace.numRows, gamma, beta⟩ trace ∧
          (∀ i < trace.paddedSize.toNat, ∀ alpha, LinkageConstraintSystem.evaluateAtPoint
            ⟨trace.numRows, gamma, beta⟩ (trace.row i) alpha = 0) ∧
          witness.ClosedBy (trace.row (trace.paddedSize.toNat - 1)) ∧
          (traceA.paddedSize.toNat ≤ 2 ^ 31 → traceB.paddedSize.toNat ≤ 2 ^ 31 →
            ∀ omega, IsPrimitiveRoot omega trace.paddedSize.toNat →
              LinkageConstraintSystem.ShiftedHold ⟨trace.numRows, gamma, beta⟩ trace omega ∧
              ∀ i < trace.paddedSize.toNat, ∀ alpha alphaOffset,
                LinkageConstraintSystem.evaluateShiftedAtPoint ⟨trace.numRows, gamma, beta⟩
                  (trace.row i) (trace.shiftedRow i) (omega ^ i)
                  (omega ^ (trace.paddedSize.toNat - 1)) alpha alphaOffset = 0)) := by
  obtain ⟨charged, after, spec, found⟩ := computeCrossAirLogupWitness_spec shaped apartA apartB
  have known := spec.none_left_iff
  constructor
  · have exists_iff : (∃ witness, computeCrossAirLogupWitness traceA traceB desc beta gamma =
        .ok witness) ↔ ∀ tuple, TupleCounts.left after tuple = 0 := by
      simp only [found, exists_and_left, exists_eq, and_true]
    rw [exists_iff, known]
    simp only [mem_activeTuples_sideRows]
    constructor
    · intro table row inside selected
      exact table _ ⟨row, inside, selected, rfl⟩
    · rintro table _ ⟨row, inside, selected, rfl⟩
      exact table row inside selected
  · rintro witness ok
    obtain ⟨none, rfl⟩ := (found witness).1 ok
    have weighed := weighed_witnessOf (apartA.sideRows desc.aSelectorColumn) spec
    refine ⟨spec.closure_eq none, fun a b => ?_⟩
    have sizes : ∀ {k : ℕ}, 4 ≤ k → traceA.paddedSize.toNat ≤ 2 ^ k →
        traceB.paddedSize.toNat ≤ 2 ^ k →
        linkageSize (sideRows traceA beta desc.aColumns desc.aSelectorColumn)
          (sideRows traceB beta desc.bColumns desc.bSelectorColumn) ≤ 2 ^ k := by
      intro k sixteen a b
      exact linkageSize_le sixteen ((length_sideRows ..).trans_le a) ((length_sideRows ..).trans_le b)
    have fits : linkageSize (sideRows traceA beta desc.aColumns desc.aSelectorColumn)
        (sideRows traceB beta desc.bColumns desc.bSelectorColumn) < 2 ^ 64 :=
      (sizes (by decide) a b).trans_lt (by decide)
    refine ⟨_, buildLinkageTrace_eq shaped weighed.fitsA weighed.fitsB ?_, weighed.rowsHold _,
      fun i inside => (weighed.rowsHold _).evaluateAtPoint inside,
      weighed.closedBy_lastRow fits rfl rfl, fun a b omega root => ?_⟩
    · exact (weighed.multiplicities.trans (length_sideRows ..)).ge
    · rw [paddedSize_linkageTrace fits] at root
      have shifted : LinkageConstraintSystem.ShiftedHold ⟨_, gamma, beta⟩ _ omega :=
        weighed.shiftedHold (sizes (by decide) a b) root
      exact ⟨shifted, fun i inside => shifted.evaluateShiftedAtPoint inside⟩

/-- A trace of one column without padding. -/
def columnTrace (cells : List (Scalar .bls12381)) : TracePolynomials .bls12381 where
  columns := [cells]
  numRows := cells.length
  paddedSize := BitVec.ofNat 64 cells.length

def unlabelled (aColumns bColumns : List (BitVec 64)) : CrossAirLogUpDescriptor where
  label := []
  aLayerIndex := 0
  aColumns := aColumns
  aSelectorColumn := none
  bLayerIndex := 1
  bColumns := bColumns
  bSelectorColumn := none

theorem seven_ne_zero : (7 : Scalar .bls12381) ≠ 0 := by decide

section Columns

variable {cells : List (Scalar .bls12381)}

theorem encode_columnTrace (cells : List (Scalar .bls12381)) (row : ℕ) :
    (columnTrace cells).encode 1 [0] row = cells.getD row 0 := by
  rw [TracePolynomials.encode, List.foldr_cons, List.foldr_nil, mul_zero, add_zero]
  rfl

theorem shaped_columnTrace (others : List (Scalar .bls12381)) :
    (unlabelled [0] [0]).Shaped (columnTrace cells) (columnTrace others) := by
  have inside : ∀ (column : List (Scalar .bls12381)), ∀ index ∈ [(0 : BitVec 64)],
      index.toNat < (columnTrace column).columns.length := by
    intro column index member
    rw [List.mem_singleton.1 member]
    exact Nat.one_pos
  exact ⟨List.cons_ne_nil _ _, rfl, ⟨inside cells, fun _ member => by cases member⟩,
    ⟨inside others, fun _ member => by cases member⟩⟩

theorem apart_columnTrace (short : cells.length < 2 ^ 64)
    (apart : ∀ row < cells.length, 7 ≠ cells.getD row 0) : Apart 7 (columnTrace cells) 1 [0] := by
  intro row below
  rw [encode_columnTrace]
  refine apart row (below.trans_eq ?_)
  exact (BitVec.toNat_ofNat _ _).trans (Nat.mod_eq_of_lt short)

end Columns

/-- Four rows that look three of them up twice over in a table of two. -/
theorem cross_air_logup_complete_repeated :
    ∃ witness trace,
      computeCrossAirLogupWitness (columnTrace [5, 6, 5, 5]) (columnTrace [6, 5])
        (unlabelled [0] [0]) 1 7 = .ok witness ∧
      witness.closureA = witness.closureB ∧
      buildLinkageTrace (columnTrace [5, 6, 5, 5]) (columnTrace [6, 5]) (unlabelled [0] [0])
        witness = .ok trace ∧
      LinkageConstraintSystem.RowsHold ⟨trace.numRows, 7, 1⟩ trace ∧
      witness.ClosedBy (trace.row (trace.paddedSize.toNat - 1)) := by
  have complete := cross_air_logup_complete
    (@shaped_columnTrace [5, 6, 5, 5] [6, 5])
    (apart_columnTrace (by decide) (by decide)) (apart_columnTrace (by decide) (by decide))
  have rows : ∀ row < 4, ∃ other < 2, ([6, 5] : List (Scalar .bls12381)).getD other 0 =
      ([5, 6, 5, 5] : List (Scalar .bls12381)).getD row 0 := by
    decide
  obtain ⟨witness, ok⟩ := complete.1.2 fun row below _ => by
    obtain ⟨other, inside, same⟩ := rows row below
    refine ⟨other, inside, fun _ member => (by cases member), ?_⟩
    exact (encode_columnTrace _ other).trans (same.trans (encode_columnTrace _ row).symm)
  obtain ⟨closures, builds⟩ := complete.2 witness ok
  obtain ⟨trace, built, rows, -, closed, -⟩ := builds (by decide) (by decide)
  exact ⟨witness, trace, ok, closures, built, rows, closed⟩

/-- A descriptor without columns is refused, whether tuples occur or not. -/
theorem computeCrossAirLogupWitness_noColumns :
    ¬ ∀ (traceA traceB : TracePolynomials .bls12381) (desc : CrossAirLogUpDescriptor)
        (beta gamma : Scalar .bls12381),
      Apart gamma traceA beta desc.aColumns → Apart gamma traceB beta desc.bColumns →
      ((∃ witness, computeCrossAirLogupWitness traceA traceB desc beta gamma = .ok witness) ↔
        ∀ row < traceA.paddedSize.toNat, traceA.Selected desc.aSelectorColumn row →
          ∃ other < traceB.paddedSize.toNat, traceB.Selected desc.bSelectorColumn other ∧
            traceB.encode beta desc.bColumns other = traceA.encode beta desc.aColumns row) := by
  intro complete
  have apart : Apart 7 (columnTrace [5]) 1 [] := by
    intro row below
    exact seven_ne_zero
  obtain ⟨witness, ok⟩ := (complete (columnTrace [5]) (columnTrace [5]) (unlabelled [] []) 1 7
    apart apart).2 fun row below selected => ⟨row, below, selected, rfl⟩
  rw [computeCrossAirLogupWitness, if_pos (.inl rfl)] at ok
  cases ok

end MetaVm.Zkp
