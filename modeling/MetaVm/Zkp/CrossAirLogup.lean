import MetaVm.Lib.Outcome
import MetaVm.Zkp.Lookup

namespace MetaVm.Zkp

/-! A lookup from the rows of one trace into the rows of another: the columns
that witness it, the trace that is made of them, and the constraints on it. -/

/-- Two sides of a lookup between proofs: the cells of `aColumns` on a selected
row have to occur as the cells of `bColumns` on a selected row. -/
structure CrossAirLogUpDescriptor where
  label : List Byte
  aLayerIndex : BitVec 64
  aColumns : List (BitVec 64)
  aSelectorColumn : Option (BitVec 64)
  bLayerIndex : BitVec 64
  bColumns : List (BitVec 64)
  bSelectorColumn : Option (BitVec 64)
deriving DecidableEq, Repr

/-- Columns of cells. The padded size is the number of rows that count. -/
structure TracePolynomials (curve : CurveType) where
  columns : List (List (Scalar curve))
  numRows : ℕ
  paddedSize : BitVec 64

structure CrossAirLogUpAirWitness (curve : CurveType) where
  tupleColumn : List (Scalar curve)
  fColumn : List (Scalar curve)
  mColumn : List (Scalar curve)
  hColumn : List (Scalar curve)

structure CrossAirLogUpWitness (curve : CurveType) where
  airA : CrossAirLogUpAirWitness curve
  airB : CrossAirLogUpAirWitness curve
  closureA : Scalar curve
  closureB : Scalar curve

section Columns

variable {curve : CurveType}

/-- The cells of a row as one scalar. Cells past the end of a column are zero. -/
def tupleAt (trace : TracePolynomials curve) (beta : Scalar curve) (row : ℕ) :
    Scalar curve → Scalar curve → List (BitVec 64) → Option (Scalar curve)
  | acc, _, [] => some acc
  | acc, betaPow, index :: columns => do
      let column ← trace.columns[index.toNat]?
      tupleAt trace beta row (acc + column.getD row 0 * betaPow) (betaPow * beta) columns

def buildTupleColumn (trace : TracePolynomials curve) (columns : List (BitVec 64))
    (beta : Scalar curve) (n : ℕ) : Option (List (Scalar curve)) :=
  (List.range n).mapM fun row => tupleAt trace beta row 0 1 columns

/-- A row counts when its selector is not zero, or when there is no selector. -/
def buildActiveColumn (trace : TracePolynomials curve) (selector : Option (BitVec 64)) (n : ℕ) :
    Option (List Bool) :=
  match selector with
  | some index => do
      let column ← trace.columns[index.toNat]?
      pure ((List.range n).map fun row => decide (column.getD row 0 ≠ 0))
  | none => some (List.replicate n true)

end Columns

/-! The witness. -/

section Witness

variable {curve : CurveType}

/-- The inverse that a row of the looking side contributes. -/
def inverseOf (gamma : Scalar curve) (row : Bool × Scalar curve) : Except Fault (Scalar curve) :=
  if row.1 then
    if gamma - row.2 = 0 then
      .error (.failed "cross-air logup: γ − tuple_A(row) hit zero (rare; resample challenges)")
    else .ok (gamma - row.2)⁻¹
  else .ok 0

/-- How often each tuple is looked up, under the tuple that its bytes denote. -/
abbrev TupleCounts (curve : CurveType) : Type := AList fun _ : Scalar curve => ℕ

def countTuples (rows : List (Bool × Scalar curve)) : TupleCounts curve :=
  rows.foldl (fun counts row =>
    if row.1 then counts.insert row.2 ((counts.lookup row.2).getD 0 + 1) else counts) ∅

/-- All occurrences of a tuple are charged to the first row that has it. -/
def chargeRows (gamma : Scalar curve) : List (Bool × Scalar curve) → TupleCounts curve →
    Except Fault (List (Scalar curve × Scalar curve) × TupleCounts curve)
  | [], counts => .ok ([], counts)
  | (active, tuple) :: rows, counts =>
      if active = false then do
        let (rest, counts) ← chargeRows gamma rows counts
        .ok ((0, 0) :: rest, counts)
      else
        let count := (counts.lookup tuple).getD 0
        if count = 0 then do
          let (rest, counts) ← chargeRows gamma rows counts
          .ok ((0, 0) :: rest, counts)
        else if gamma - tuple = 0 then
          .error (.failed "cross-air logup: γ − tuple_B(row) hit zero (rare; resample challenges)")
        else do
          let m := Scalar.fromU64 (BitVec.ofNat 64 count)
          let (rest, counts) ← chargeRows gamma rows (counts.insert tuple 0)
          .ok ((m, m * (gamma - tuple)⁻¹) :: rest, counts)

/-- The sums before each row. -/
def sumsBefore : Scalar curve → List (Scalar curve) → List (Scalar curve)
  | _, [] => []
  | sum, f :: rest => sum :: sumsBefore (sum + f) rest

/-- The sum over all rows, the last one included. -/
def closureOf (h f : List (Scalar curve)) : Scalar curve :=
  if f.length > 0 then h.getD (f.length - 1) 0 + f.getD (f.length - 1) 0 else 0

def computeCrossAirLogupWitness (traceA traceB : TracePolynomials curve)
    (desc : CrossAirLogUpDescriptor) (beta gamma : Scalar curve) :
    Except Fault (CrossAirLogUpWitness curve) :=
  if desc.aColumns.isEmpty ∨ desc.bColumns.isEmpty then
    .error (.failed "cross-air logup: descriptor must list ≥1 column on each side")
  else if desc.aColumns.length ≠ desc.bColumns.length then
    .error (.failed
      "cross-air logup: a_columns.len() must equal b_columns.len() (same tuple shape)")
  else do
    let nA := traceA.paddedSize.toNat
    let nB := traceB.paddedSize.toNat
    let tupleA ← orPanic (buildTupleColumn traceA desc.aColumns beta nA)
    let tupleB ← orPanic (buildTupleColumn traceB desc.bColumns beta nB)
    let activeA ← orPanic (buildActiveColumn traceA desc.aSelectorColumn nA)
    let activeB ← orPanic (buildActiveColumn traceB desc.bSelectorColumn nB)
    let fA ← (activeA.zip tupleA).mapM (inverseOf gamma)
    let (charged, counts) ← chargeRows gamma (activeB.zip tupleB) (countTuples (activeA.zip tupleA))
    if 0 < (counts.entries.map Sigma.snd).sum then
      .error (.failed ("cross-air logup: AIR A contains tuples not present in AIR B's table — " ++
        "multiset equality cannot hold and witness building aborts"))
    else
      let mB := charged.map Prod.fst
      let fB := charged.map Prod.snd
      let hA := sumsBefore 0 fA
      let hB := sumsBefore 0 fB
      .ok
        { airA :=
            { tupleColumn := tupleA, fColumn := fA, mColumn := List.replicate nA 0, hColumn := hA }
          airB := { tupleColumn := tupleB, fColumn := fB, mColumn := mB, hColumn := hB }
          closureA := closureOf hA fA
          closureB := closureOf hB fB }

end Witness

/-! The linkage trace. -/

/-- Sixteen, doubled until it is enough. -/
def nearestPowerOfTwo (n : ℕ) : ℕ := go 16
where
  go (power : ℕ) : ℕ := if 0 < power ∧ power < n then go (2 * power) else power
  termination_by n - power

namespace LinkageCol

def tupleA : ℕ := 0
def activeA : ℕ := 1
def fA : ℕ := 2
def hA : ℕ := 3
def tupleB : ℕ := 4
def activeB : ℕ := 5
def mB : ℕ := 6
def fB : ℕ := 7
def hB : ℕ := 8
def numColumns : ℕ := 9

end LinkageCol

section LinkageTrace

variable {curve : CurveType}

/-- The first cells of a column, and then one value. -/
def padColumn (column : List (Scalar curve)) (n padded : ℕ) (rest : Scalar curve) :
    List (Scalar curve) :=
  (List.range padded).map fun row => if row < n then column.getD row 0 else rest

/-- What the running sum of a side has past the size of the side. -/
def sumPastEnd (air : CrossAirLogUpAirWitness curve) (n : ℕ) : Scalar curve :=
  if 0 < n then air.hColumn.getD (n - 1) 0 + air.fColumn.getD (n - 1) 0 else 0

/-- Columns that are shorter than their side stop the program. -/
def CrossAirLogUpAirWitness.Covers (air : CrossAirLogUpAirWitness curve) (n : ℕ) : Prop :=
  n ≤ air.tupleColumn.length ∧ n ≤ air.fColumn.length ∧ n ≤ air.hColumn.length

instance (air : CrossAirLogUpAirWitness curve) (n : ℕ) : Decidable (air.Covers n) :=
  inferInstanceAs (Decidable (_ ∧ _))

def buildLinkageTrace (traceA traceB : TracePolynomials curve) (desc : CrossAirLogUpDescriptor)
    (witness : CrossAirLogUpWitness curve) : Except Fault (TracePolynomials curve) :=
  if desc.aColumns.isEmpty ∨ desc.bColumns.isEmpty then
    .error (.failed "build_linkage_trace: descriptor must list ≥1 column on each side")
  else do
    let nA := traceA.paddedSize.toNat
    let nB := traceB.paddedSize.toNat
    let n := max nA nB
    let padded := nearestPowerOfTwo (max n 1)
    let activeA ← orPanic (buildActiveColumn traceA desc.aSelectorColumn nA)
    let activeB ← orPanic (buildActiveColumn traceB desc.bSelectorColumn nB)
    if witness.airA.Covers nA ∧ witness.airB.Covers nB ∧ nB ≤ witness.airB.mColumn.length then
      let flag := fun active : Bool => if active then (1 : Scalar curve) else 0
      .ok
        { columns :=
            [padColumn witness.airA.tupleColumn nA padded 0,
              padColumn (activeA.map flag) nA padded 0,
              padColumn witness.airA.fColumn nA padded 0,
              padColumn witness.airA.hColumn nA padded (sumPastEnd witness.airA nA),
              padColumn witness.airB.tupleColumn nB padded 0,
              padColumn (activeB.map flag) nB padded 0,
              padColumn witness.airB.mColumn nB padded 0,
              padColumn witness.airB.fColumn nB padded 0,
              padColumn witness.airB.hColumn nB padded (sumPastEnd witness.airB nB)]
          numRows := n
          paddedSize := BitVec.ofNat 64 padded }
    else .error .panic

end LinkageTrace

/-! The constraints on a linkage trace. -/

structure LinkageConstraintSystem (curve : CurveType) where
  numRows : ℕ
  gamma : Scalar curve
  beta : Scalar curve

namespace LinkageConstraintSystem

variable {curve : CurveType}

/-- Both selectors are bits, and both inverses are what they claim to be. -/
def rowBodies (system : LinkageConstraintSystem curve) (cols : List (Scalar curve)) :
    List (Scalar curve) :=
  let col := fun index => cols.getD index 0
  [col LinkageCol.activeA * (col LinkageCol.activeA - 1),
    col LinkageCol.activeB * (col LinkageCol.activeB - 1),
    col LinkageCol.fA * (system.gamma - col LinkageCol.tupleA) - col LinkageCol.activeA,
    col LinkageCol.fB * (system.gamma - col LinkageCol.tupleB) - col LinkageCol.mB]

/-- Bodies weighted by the powers of a challenge. -/
def weigh (alpha : Scalar curve) : Scalar curve → List (Scalar curve) → Scalar curve
  | _, [] => 0
  | power, body :: rest => body * power + weigh alpha (power * alpha) rest

def evaluateAtPoint (system : LinkageConstraintSystem curve) (cols : List (Scalar curve))
    (alpha : Scalar curve) : Scalar curve :=
  if cols.length < LinkageCol.numColumns then 0 else weigh alpha 1 (system.rowBodies cols)

def shiftedColumnIndices : List ℕ := [LinkageCol.hA, LinkageCol.hB]

/-- The size of the domain that a generator belongs to, found by squaring. The
search gives up at two to the power of 31. -/
def recoverDomainSize : ℕ → Scalar curve → ℕ → ℕ
  | 0, _, size => size
  | fuel + 1, p, size =>
      if size ≤ 2 ^ 30 then
        if p - 1 = 0 then size else recoverDomainSize fuel (p * p) (size * 2)
      else size

/-- A product that vanishes on the rows from the last one with data on. -/
def exclusion (system : LinkageConstraintSystem curve) (omega z : Scalar curve)
    (domainSize : ℕ) : Scalar curve :=
  if 0 < system.numRows then
    ((List.range' (system.numRows - 1) (domainSize - (system.numRows - 1))).map
      fun r => z - omega ^ r).prod
  else 1

/-- Both sums take their steps, where rows are not excluded. -/
def shiftedBodies (system : LinkageConstraintSystem curve) (colEvals shiftedEvals :
    List (Scalar curve)) (z omegaNMinus1 : Scalar curve) : List (Scalar curve) :=
  let omega := omegaNMinus1⁻¹
  let excluded := system.exclusion omega z (recoverDomainSize 32 omega 1)
  let col := fun index => colEvals.getD index 0
  [(shiftedEvals.getD 0 0 - col LinkageCol.hA - col LinkageCol.fA) * excluded,
    (shiftedEvals.getD 1 0 - col LinkageCol.hB - col LinkageCol.fB) * excluded]

def evaluateShiftedAtPoint (system : LinkageConstraintSystem curve) (colEvals shiftedEvals :
    List (Scalar curve)) (z omegaNMinus1 alpha : Scalar curve) (alphaOffset : ℕ) :
    Scalar curve :=
  if shiftedEvals.length < 2 ∨ colEvals.length < LinkageCol.numColumns then 0
  else weigh alpha (alpha ^ alphaOffset)
    (system.shiftedBodies colEvals shiftedEvals z omegaNMinus1)

end LinkageConstraintSystem

end MetaVm.Zkp
