import MetaVm.Lib.Digits
import MetaVm.Zkp.Lookup

namespace MetaVm.Zkp

/-! Bitwise operations. Both operands are cut into nibbles, and a running sum
of fractions compares the nibbles and their conjunctions with a table of all
pairs. -/

inductive BitwiseOp
  | and
  | or
  | xor
deriving DecidableEq, Repr

structure BitwiseLookupDeclaration where
  operandAColumn : ℕ
  operandBColumn : ℕ
  resultColumn : ℕ
  widthBits : BitVec 32
  op : BitwiseOp
  selectors : List ℕ
deriving DecidableEq, Repr

structure BitwiseLookupGroup where
  operandAColumn : ℕ
  operandBColumn : ℕ
  resultColumn : ℕ
  widthBits : BitVec 32
  numNibbles : ℕ
  op : BitwiseOp
  selectors : List ℕ
deriving DecidableEq, Repr

/-- Every declaration is a group of its own. -/
def groupBitwiseDeclarations (decls : List BitwiseLookupDeclaration) :
    List BitwiseLookupGroup :=
  decls.map fun decl =>
    { operandAColumn := decl.operandAColumn
      operandBColumn := decl.operandBColumn
      resultColumn := decl.resultColumn
      widthBits := decl.widthBits
      numNibbles := decl.widthBits.toNat / 4
      op := decl.op
      selectors := decl.selectors }

/-! The table of nibble conjunctions. -/

abbrev nibbleAndTableSize : ℕ := 256

inductive NibbleAndTableComponent
  | a
  | b
  | c
deriving DecidableEq, Repr

def NibbleAndTableComponent.valueAt (component : NibbleAndTableComponent) (row : ℕ) : ℕ :=
  if nibbleAndTableSize ≤ row then 0
  else
    match component with
    | .a => row / 16
    | .b => row % 16
    | .c => row / 16 &&& row % 16

/-- The nibbles of a machine word, the lowest first. -/
def decomposeToNibbles (value : BitVec 64) (k : ℕ) : BitVec 4 :=
  if k < 16 then (value >>> (4 * k)).setWidth 4 else 0

/-- The cells of one row: nibbles by group and position, the inverses of their
queries, the table with its inverse, the running sum and the multiplicity. -/
structure BitwiseRow (K : Type) where
  aNibble : ℕ → ℕ → K
  bNibble : ℕ → ℕ → K
  andNibble : ℕ → ℕ → K
  inverse : ℕ → ℕ → K
  tableA : K
  tableB : K
  tableC : K
  tableInverse : K
  sum : K
  multiplicity : K

section Bodies

variable {K : Type} [Field K] (gamma delta : K)

/-- A triple as one value. -/
def query (a b c : K) : K := a + delta * b + delta * delta * c

def BitwiseOp.expected (op : BitwiseOp) (a b conjunction : K) : K :=
  match op with
  | .and => conjunction
  | .or => a + b - conjunction
  | .xor => a + b - (2 : ℕ) * conjunction

/-- The operands and the result of a group, gated by its selectors. -/
def nibbleBodies (group : BitwiseLookupGroup) (row : ℕ → K) (a b c : ℕ → K) : List K :=
  let active := activeAt group.selectors row
  [active * (row group.operandAColumn - recompose 16 group.numNibbles a),
    active * (row group.operandBColumn - recompose 16 group.numNibbles b),
    active * (row group.resultColumn -
      group.op.expected (row group.operandAColumn) (row group.operandBColumn)
        (recompose 16 group.numNibbles c))]

/-- The bodies of the bitwise lookups, in the order of their powers. -/
def bitwiseBodies (groups : List BitwiseLookupGroup) (lagrange : K) (row : ℕ → K)
    (cells : BitwiseRow K) (nextSum : K) : List K :=
  (groups.zipIdx.flatMap fun (group, g) =>
    nibbleBodies group row (cells.aNibble g) (cells.bNibble g) (cells.andNibble g)) ++
  (groups.zipIdx.flatMap fun (group, g) =>
    (List.range group.numNibbles).map fun k =>
      evaluateInverse (cells.inverse g k)
        (query delta (cells.aNibble g k) (cells.bNibble g k) (cells.andNibble g k))
        gamma) ++
  [evaluateInverse cells.tableInverse
      (query delta cells.tableA cells.tableB cells.tableC) gamma,
    evaluateTransition cells.sum nextSum
      (groups.zipIdx.map fun (group, g) =>
        (activeAt group.selectors row,
          ∑ k ∈ Finset.range group.numNibbles, cells.inverse g k))
      cells.multiplicity cells.tableInverse,
    lagrange * cells.sum]

end Bodies

/-! The columns that the prover computes. -/

section Witness

variable {order : ℕ} (trace : ℕ → ℕ → ZMod order) (groups : List BitwiseLookupGroup)
  (domainSize : ℕ)

def aNibbleAt (group : BitwiseLookupGroup) (row k : ℕ) : BitVec 4 :=
  decomposeToNibbles (Scalar.toU64 (trace row group.operandAColumn)) k

def bNibbleAt (group : BitwiseLookupGroup) (row k : ℕ) : BitVec 4 :=
  decomposeToNibbles (Scalar.toU64 (trace row group.operandBColumn)) k

/-- The table row of a pair of nibbles. -/
def tableIndex (group : BitwiseLookupGroup) (row k : ℕ) : ℕ :=
  (aNibbleAt trace group row k).toNat * 16 + (bNibbleAt trace group row k).toNat

/-- The table rows that are looked up, over the whole domain. -/
def activeIndices : List ℕ :=
  groups.flatMap fun group =>
    (List.range domainSize).flatMap fun row =>
      if groupActive group.selectors (trace row) then
        (List.range group.numNibbles).map (tableIndex trace group row)
      else []

variable {K : Type} [Field K] (gamma delta : K)

def bitwiseMultiplicityAt (row : ℕ) : K :=
  if row < nibbleAndTableSize then ((activeIndices trace groups domainSize).count row : K)
  else 0

/-- The inverse of a query by nibble position. -/
def nibbleInverse (group : BitwiseLookupGroup) (row k : ℕ) : K :=
  (gamma - query delta ((aNibbleAt trace group row k).toNat : K)
    ((bNibbleAt trace group row k).toNat : K)
    ((aNibbleAt trace group row k &&& bNibbleAt trace group row k).toNat : K))⁻¹

/-- The table query of a row. -/
def tableQuery (row : ℕ) : K :=
  query delta ((NibbleAndTableComponent.a.valueAt row : ℕ) : K)
    ((NibbleAndTableComponent.b.valueAt row : ℕ) : K)
    ((NibbleAndTableComponent.c.valueAt row : ℕ) : K)

/-- What one row adds to the running sum. -/
def bitwiseSumStep (row : ℕ) : K :=
  (groups.map fun group =>
    if groupActive group.selectors (trace row) then
      ∑ k ∈ Finset.range group.numNibbles, nibbleInverse trace gamma delta group row k
    else 0).sum -
  bitwiseMultiplicityAt trace groups domainSize row * (gamma - tableQuery delta row)⁻¹

def bitwiseRunningSum : ℕ → K
  | 0 => 0
  | row + 1 =>
      bitwiseRunningSum row + bitwiseSumStep trace groups domainSize gamma delta row

/-- The columns that the prover commits to, at a row. -/
def computeExtendedBitwiseWitness (row : ℕ) : BitwiseRow K where
  aNibble g k := ((groups[g]?.elim 0 fun group => aNibbleAt trace group row k).toNat : K)
  bNibble g k := ((groups[g]?.elim 0 fun group => bNibbleAt trace group row k).toNat : K)
  andNibble g k := ((groups[g]?.elim 0 fun group =>
    aNibbleAt trace group row k &&& bNibbleAt trace group row k).toNat : K)
  inverse g k := groups[g]?.elim 0 fun group =>
    nibbleInverse trace gamma delta group row k
  tableA := (NibbleAndTableComponent.a.valueAt row : ℕ)
  tableB := (NibbleAndTableComponent.b.valueAt row : ℕ)
  tableC := (NibbleAndTableComponent.c.valueAt row : ℕ)
  tableInverse := (gamma - tableQuery delta row)⁻¹
  sum := bitwiseRunningSum trace groups domainSize gamma delta row
  multiplicity := bitwiseMultiplicityAt trace groups domainSize row

end Witness

end MetaVm.Zkp

namespace MetaVm.Zkp

open RunningSum

/-! What vanishing bodies of the bitwise lookups say about a row, and how
triples of small values are told apart. -/

section Weights

variable {F : Type} [Field F] {active : Option ℕ} {selectors : List ℕ} {row : ℕ → F}

/-- How often the active selector gates a group. -/
def selectorWeight (selectors : List ℕ) (active : Option ℕ) : ℕ :=
  if selectors.isEmpty then 1 else selectors.countP fun sel => active == some sel

theorem HotRow.activeAt_eq_selectorWeight (hot : HotRow active selectors row) :
    activeAt selectors row = selectorWeight selectors active := by
  have counted : ∀ rest : List ℕ, HotRow active rest row →
      (rest.map row).sum = (rest.countP fun sel => active == some sel : ℕ) := by
    intro rest
    induction rest with
    | nil => simp
    | cons sel rest hypothesis =>
        intro hot
        have below := hypothesis (hot.mono (List.subset_cons_self _ _))
        rw [List.map_cons, List.sum_cons, below, hot sel List.mem_cons_self,
          List.countP_cons]
        by_cases same : active = some sel <;> simp [same, add_comm]
  cases selectors with
  | nil => exact Nat.cast_one.symm
  | cons sel rest => exact counted _ hot

theorem selectorWeight_ne_zero_iff :
    selectorWeight selectors active ≠ 0 ↔ marked selectors active := by
  cases selectors with
  | nil => exact iff_of_true one_ne_zero rfl
  | cons sel rest =>
      have weight : selectorWeight (sel :: rest) active =
        (sel :: rest).countP fun sel => active == some sel := rfl
      have mark : marked (sel :: rest) active =
        (sel :: rest).any fun sel => active == some sel := rfl
      rw [weight, mark, ← Nat.pos_iff_ne_zero, List.countP_pos_iff, List.any_eq_true]

theorem selectorWeight_le (selectors : List ℕ) (active : Option ℕ) :
    selectorWeight selectors active ≤ selectors.length + 1 := by
  rw [selectorWeight]
  split
  · exact Nat.le_add_left _ _
  · exact List.countP_le_length.trans (Nat.le_succ _)

end Weights

section Queries

variable {F E : Type} [Field F] [Field E] [Algebra F E]

theorem map_query (delta a b c : F) :
    algebraMap F E (query delta a b c) = query (algebraMap F E delta)
      (algebraMap F E a) (algebraMap F E b) (algebraMap F E c) := by
  simp only [query, map_add, map_mul]

/-- An indeterminate weight tells triples apart. -/
theorem query_injective {delta : E} (free : Transcendental F delta) {a b c a' b' c' : F}
    (equal : query delta (algebraMap F E a) (algebraMap F E b) (algebraMap F E c) =
      query delta (algebraMap F E a') (algebraMap F E b') (algebraMap F E c')) :
    a = a' ∧ b = b' ∧ c = c' := by
  let triple (a b c : F) : Polynomial F :=
    .C a + .X * .C b + .X * .X * .C c
  have value : ∀ a b c, Polynomial.aeval delta (triple a b c) =
      query delta (algebraMap F E a) (algebraMap F E b) (algebraMap F E c) := by
    intro a b c
    simp only [triple, query, map_add, map_mul, Polynomial.aeval_C, Polynomial.aeval_X]
  have same : triple a b c = triple a' b' c' := by
    refine (transcendental_iff_injective.1 free) ?_
    rw [value, value, equal]
  have coefficient := fun k => congrArg (fun poly : Polynomial F => poly.coeff k) same
  refine ⟨?_, ?_, ?_⟩
  · have zeroth := coefficient 0
    simpa [triple, mul_assoc] using zeroth
  · have first := coefficient 1
    simpa [triple, mul_assoc, Polynomial.coeff_C] using first
  · have second := coefficient 2
    simpa [triple, mul_assoc, Polynomial.coeff_C, Polynomial.coeff_X] using second

end Queries

section Rows

variable {K : Type} [Field K] {groups : List BitwiseLookupGroup}
  {gamma delta lagrange : K} {row : ℕ → K} {cells : BitwiseRow K} {nextSum : K}

/-- The gated operands and result of one group. -/
structure NibblesHold (group : BitwiseLookupGroup) (row a b c : ℕ → K) : Prop where
  operandA : activeAt group.selectors row *
    (row group.operandAColumn - recompose 16 group.numNibbles a) = 0
  operandB : activeAt group.selectors row *
    (row group.operandBColumn - recompose 16 group.numNibbles b) = 0
  result : activeAt group.selectors row *
    (row group.resultColumn - group.op.expected (row group.operandAColumn)
      (row group.operandBColumn) (recompose 16 group.numNibbles c)) = 0

/-- The bodies of the bitwise lookups vanish on a row. -/
structure BitwiseRowHolds (groups : List BitwiseLookupGroup) (gamma delta lagrange : K)
    (row : ℕ → K) (cells : BitwiseRow K) (nextSum : K) : Prop where
  nibbles : ∀ entry ∈ groups.zipIdx, NibblesHold entry.1 row (cells.aNibble entry.2)
    (cells.bNibble entry.2) (cells.andNibble entry.2)
  inverse : ∀ entry ∈ groups.zipIdx, ∀ k < entry.1.numNibbles,
    cells.inverse entry.2 k * (gamma - query delta (cells.aNibble entry.2 k)
      (cells.bNibble entry.2 k) (cells.andNibble entry.2 k)) = 1
  tableInverse : cells.tableInverse *
    (gamma - query delta cells.tableA cells.tableB cells.tableC) = 1
  transition : nextSum - cells.sum =
    (groups.zipIdx.map fun entry => activeAt entry.1.selectors row *
      ∑ k ∈ Finset.range entry.1.numNibbles, cells.inverse entry.2 k).sum -
      cells.multiplicity * cells.tableInverse
  boundary : lagrange * cells.sum = 0

theorem nibbleBodies_vanish_iff {group : BitwiseLookupGroup} {a b c : ℕ → K} :
    (∀ body ∈ nibbleBodies group row a b c, body = 0) ↔ NibblesHold group row a b c := by
  rw [nibbleBodies, List.forall_mem_cons, List.forall_mem_cons,
    List.forall_mem_singleton]
  exact ⟨fun ⟨first, second, third⟩ => ⟨first, second, third⟩,
    fun holds => ⟨holds.operandA, holds.operandB, holds.result⟩⟩

theorem bitwiseBodies_vanish_iff :
    (∀ body ∈ bitwiseBodies gamma delta groups lagrange row cells nextSum, body = 0) ↔
      BitwiseRowHolds groups gamma delta lagrange row cells nextSum := by
  simp only [bitwiseBodies, List.forall_mem_append, List.forall_mem_map,
    List.forall_mem_singleton, List.forall_mem_cons, List.forall_mem_flatMap,
    List.mem_range, nibbleBodies_vanish_iff, evaluateInverse_eq_zero_iff]
  constructor
  · rintro ⟨⟨nibbles, inverse⟩, tableInverse, transition, boundary⟩
    refine ⟨nibbles, inverse, tableInverse, ?_, boundary⟩
    rw [evaluateTransition, List.map_map] at transition
    rw [← sub_eq_zero, ← transition]
    simp only [Function.comp_def]
    ring
  · intro holds
    refine ⟨⟨holds.nibbles, holds.inverse⟩, holds.tableInverse, ?_, holds.boundary⟩
    have transition := holds.transition
    rw [evaluateTransition, List.map_map, transition]
    simp only [Function.comp_def]
    ring

end Rows

section Table

theorem tableA_lt (row : ℕ) : NibbleAndTableComponent.a.valueAt row < 16 := by
  rw [NibbleAndTableComponent.valueAt]
  split
  · exact Nat.zero_lt_succ _
  · rename_i inside
    exact Nat.div_lt_of_lt_mul (Nat.lt_of_not_le inside)

theorem tableB_lt (row : ℕ) : NibbleAndTableComponent.b.valueAt row < 16 := by
  rw [NibbleAndTableComponent.valueAt]
  split
  · decide
  · exact Nat.mod_lt _ (by decide)

theorem tableC_eq (row : ℕ) : NibbleAndTableComponent.c.valueAt row =
    NibbleAndTableComponent.a.valueAt row &&& NibbleAndTableComponent.b.valueAt row := by
  simp only [NibbleAndTableComponent.valueAt]
  split <;> rfl

/-- The row of a pair of nibbles comes no later than any row that holds it. -/
theorem tableIndex_le (row : ℕ) : NibbleAndTableComponent.a.valueAt row * 16 +
    NibbleAndTableComponent.b.valueAt row ≤ row := by
  simp only [NibbleAndTableComponent.valueAt]
  split <;> omega

theorem tableA_pair {a b : ℕ} (aLt : a < 16) (bLt : b < 16) :
    NibbleAndTableComponent.a.valueAt (a * 16 + b) = a := by
  rw [NibbleAndTableComponent.valueAt, if_neg (by show ¬ 256 ≤ _; omega)]
  show (a * 16 + b) / 16 = a
  omega

theorem tableB_pair {a b : ℕ} (aLt : a < 16) (bLt : b < 16) :
    NibbleAndTableComponent.b.valueAt (a * 16 + b) = b := by
  rw [NibbleAndTableComponent.valueAt, if_neg (by show ¬ 256 ≤ _; omega)]
  show (a * 16 + b) % 16 = b
  omega

end Table

end MetaVm.Zkp
