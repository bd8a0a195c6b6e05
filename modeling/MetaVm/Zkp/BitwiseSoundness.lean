import MetaVm.Lib.Words
import MetaVm.Zkp.Bitwise
import MetaVm.Zkp.LookupSoundness

namespace MetaVm.Zkp

open RunningSum

/-! What the bitwise lookups enforce, when both challenges are indeterminates:
first the weight of a triple, then the argument of the fractions. -/

def BitwiseOp.apply (op : BitwiseOp) (a b : ℕ) : ℕ :=
  match op with
  | .and => a &&& b
  | .or => a ||| b
  | .xor => a ^^^ b

/-- The expected results are those of the operation. -/
theorem BitwiseOp.expected_eq {K : Type} [Field K] (op : BitwiseOp) (a b : ℕ) :
    op.expected (a : K) b ((a &&& b : ℕ) : K) = (op.apply a b : ℕ) := by
  cases op with
  | and => rfl
  | or =>
      show (a : K) + b - (a &&& b : ℕ) = (a ||| b : ℕ)
      rw [sub_eq_iff_eq_add, ← Nat.cast_add, ← Nat.cast_add, Words.or_add_and]
  | xor =>
      show (a : K) + b - (2 : ℕ) * (a &&& b : ℕ) = (a ^^^ b : ℕ)
      rw [sub_eq_iff_eq_add, ← Nat.cast_mul, ← Nat.cast_add, ← Nat.cast_add, mul_comm,
        Words.xor_add_and_mul_two]

section Groups

/-- Groups whose nibbles cover their width, as many as a machine can list. -/
structure NibbleGroups (groups : List BitwiseLookupGroup) : Prop where
  width : ∀ group ∈ groups, group.widthBits.toNat = 4 * group.numNibbles
  narrow : ∀ group ∈ groups, group.numNibbles ≤ 16
  few : groups.length < 2 ^ 64
  selectors : ∀ group ∈ groups, group.selectors.length < 2 ^ 64

variable {p : ℕ} (groups : List BitwiseLookupGroup) (domainSize : ℕ)
  (trace : ℕ → ℕ → ZMod p)

/-- Active rows hold operands that fit the width and the result of the
operation. -/
def BitwiseCorrect : Prop :=
  ∀ row < domainSize, ∀ group ∈ groups, groupActive group.selectors (trace row) →
    (trace row group.operandAColumn).val < 2 ^ group.widthBits.toNat ∧
    (trace row group.operandBColumn).val < 2 ^ group.widthBits.toNat ∧
    (trace row group.resultColumn).val = group.op.apply
      (trace row group.operandAColumn).val (trace row group.operandBColumn).val

/-- The table rows that are looked up are rows of the domain. -/
def TableFits : Prop :=
  ∀ row < domainSize, ∀ group ∈ groups, groupActive group.selectors (trace row) →
    ∀ k < group.numNibbles, tableIndex trace group row k < domainSize

variable {K : Type} [Field K] [DecidableEq K] [Algebra (ZMod p) K] [Fact p.Prime]

/-- The bodies vanish on the domain, against the table of conjunctions. Nibbles
and multiplicities do not depend on the challenges. -/
structure BitwiseSatisfied (gamma delta : K) (omega : ZMod p)
    (cells : ℕ → BitwiseRow K) : Prop where
  vanishes : ∀ row < domainSize, ∀ body ∈ bitwiseBodies gamma delta groups
    (lagrangeFirst domainSize (algebraMap (ZMod p) K (omega ^ row)))
    (fun column => algebraMap (ZMod p) K (trace row column)) (cells row)
    (cells ((row + 1) % domainSize)).sum, body = 0
  tableA : ∀ row < domainSize,
    (cells row).tableA = (NibbleAndTableComponent.a.valueAt row : ℕ)
  tableB : ∀ row < domainSize,
    (cells row).tableB = (NibbleAndTableComponent.b.valueAt row : ℕ)
  tableC : ∀ row < domainSize,
    (cells row).tableC = (NibbleAndTableComponent.c.valueAt row : ℕ)
  nibbles : ∀ row < domainSize, ∀ g k, ∃ a b c : ZMod p,
    algebraMap (ZMod p) K a = (cells row).aNibble g k ∧
    algebraMap (ZMod p) K b = (cells row).bNibble g k ∧
    algebraMap (ZMod p) K c = (cells row).andNibble g k
  multiplicity : ∀ row < domainSize, ∃ value : ZMod p,
    algebraMap (ZMod p) K value = (cells row).multiplicity

end Groups

section Queries

variable {p : ℕ} [Fact p.Prime] {L : Type} [Field L] [Algebra (ZMod p) L]

/-- The triples that the groups look up on a row. -/
def rowTriples (groups : List BitwiseLookupGroup) (active : Option ℕ) (delta : L)
    (a b c : ℕ → ℕ → ZMod p) : List (ℕ × List L) :=
  groups.zipIdx.map fun entry =>
    (selectorWeight entry.1.selectors active,
      (List.range entry.1.numNibbles).map fun k =>
        query delta (algebraMap (ZMod p) L (a entry.2 k))
          (algebraMap (ZMod p) L (b entry.2 k)) (algebraMap (ZMod p) L (c entry.2 k)))

theorem lookups_rowTriples_le {groups : List BitwiseLookupGroup}
    (shaped : NibbleGroups groups) (active : Option ℕ) (delta : L)
    (a b c : ℕ → ℕ → ZMod p) :
    lookups (rowTriples groups active delta a b c) ≤ 2 ^ 64 * (2 ^ 64 * 16) := by
  have entries : (rowTriples groups active delta a b c).length = groups.length := by
    rw [rowTriples, List.length_map, List.length_zipIdx]
  have bounded : ∀ total ∈ (rowTriples groups active delta a b c).map
      (fun (weight, values) => weight * values.length), total ≤ 2 ^ 64 * 16 := by
    intro total member
    obtain ⟨_, triples, rfl⟩ := List.mem_map.1 member
    obtain ⟨entry, listed, rfl⟩ := List.mem_map.1 triples
    have inside : entry.1 ∈ groups := List.fst_mem_of_mem_zipIdx listed
    have light := (selectorWeight_le entry.1.selectors active).trans
      (Nat.succ_le_of_lt (shaped.selectors _ inside))
    simp only [List.length_map, List.length_range]
    exact Nat.mul_le_mul light (shaped.narrow _ inside)
  have total := List.sum_le_card_nsmul _ _ bounded
  rw [List.length_map, entries, smul_eq_mul] at total
  exact total.trans (Nat.mul_le_mul_right _ shaped.few.le)

end Queries

section Soundness

variable {p : ℕ} [Fact p.Prime] {L K : Type} [Field L] [Field K] [DecidableEq K]
  [Algebra (ZMod p) L] [Algebra (ZMod p) K] [Algebra L K] [IsScalarTower (ZMod p) L K]
  {groups : List BitwiseLookupGroup} {gamma : K} {delta : L} {omega : ZMod p}
  {domainSize : ℕ} {trace : ℕ → ℕ → ZMod p} {cells : ℕ → BitwiseRow K}

theorem BitwiseSatisfied.rowHolds {delta : K}
    (satisfied : BitwiseSatisfied groups domainSize trace gamma delta omega cells)
    {row : ℕ} (inside : row < domainSize) :
    BitwiseRowHolds groups gamma delta
      (lagrangeFirst domainSize (algebraMap (ZMod p) K (omega ^ row)))
      (fun column => algebraMap (ZMod p) K (trace row column)) (cells row)
      (cells ((row + 1) % domainSize)).sum :=
  bitwiseBodies_vanish_iff.1 (satisfied.vanishes row inside)

omit [DecidableEq K] in
theorem activeAt_eq_selectorWeight {selectors : List ℕ} {active : Option ℕ}
    {row : ℕ → ZMod p} (hot : HotRow active selectors row) :
    activeAt selectors (fun column => algebraMap (ZMod p) K (row column)) =
      selectorWeight selectors active := by
  rw [activeAt_map (algebraMap (ZMod p) K), hot.activeAt_eq_selectorWeight, map_natCast]

omit [DecidableEq K] in
theorem algebraMap_query (a b c : ZMod p) :
    algebraMap L K (query delta (algebraMap (ZMod p) L a) (algebraMap (ZMod p) L b)
      (algebraMap (ZMod p) L c)) =
      query (algebraMap L K delta) (algebraMap (ZMod p) K a) (algebraMap (ZMod p) K b)
        (algebraMap (ZMod p) K c) := by
  rw [map_query, ← IsScalarTower.algebraMap_apply, ← IsScalarTower.algebraMap_apply,
    ← IsScalarTower.algebraMap_apply]

omit [DecidableEq K] in
theorem fractions_rowTriples {row : ℕ} {active : Option ℕ} {a b c : ℕ → ℕ → ZMod p}
    {lagrange nextSum : K}
    (holds : BitwiseRowHolds groups gamma (algebraMap L K delta) lagrange
      (fun column => algebraMap (ZMod p) K (trace row column)) (cells row) nextSum)
    (hot : ∀ group ∈ groups, HotRow active group.selectors (trace row))
    (nibbles : ∀ g k, algebraMap (ZMod p) K (a g k) = (cells row).aNibble g k ∧
      algebraMap (ZMod p) K (b g k) = (cells row).bNibble g k ∧
      algebraMap (ZMod p) K (c g k) = (cells row).andNibble g k) :
    fractions gamma (rowTriples groups active delta a b c) =
      (groups.zipIdx.map fun entry =>
        activeAt entry.1.selectors
          (fun column => algebraMap (ZMod p) K (trace row column)) *
        ∑ k ∈ Finset.range entry.1.numNibbles, (cells row).inverse entry.2 k).sum := by
  rw [fractions, rowTriples, List.map_map]
  congr 1
  apply List.map_congr_left
  intro entry member
  have listed : entry.1 ∈ groups := List.fst_mem_of_mem_zipIdx member
  rw [activeAt_eq_selectorWeight (hot entry.1 listed)]
  simp only [Function.comp_apply, List.map_map, sum_map_range]
  congr 1
  apply Finset.sum_congr rfl
  intro k inside
  have inverse := holds.inverse entry member k (Finset.mem_range.1 inside)
  obtain ⟨aNibble, bNibble, andNibble⟩ := nibbles entry.2 k
  rw [algebraMap_query, aNibble, bNibble, andNibble]
  exact (eq_inv_of_mul_eq_one_left inverse).symm

/-- The nibbles of a group on a row that its selectors mark are a row of the
table. -/
theorem BitwiseSatisfied.nibbles_in_table
    (satisfied : BitwiseSatisfied groups domainSize trace gamma (algebraMap L K delta)
      omega cells)
    (freeDelta : Transcendental (ZMod p) delta) (freeGamma : Transcendental L gamma)
    (large : 2 ^ 254 < p) (addressable : domainSize < 2 ^ 64)
    (shaped : NibbleGroups groups) {active : ℕ → Option ℕ}
    (hot : ∀ row < domainSize, ∀ group ∈ groups,
      HotRow (active row) group.selectors (trace row)) {row : ℕ}
    (inside : row < domainSize) {entry : BitwiseLookupGroup × ℕ}
    (listed : entry ∈ groups.zipIdx) (gated : marked entry.1.selectors (active row))
    {k : ℕ} (position : k < entry.1.numNibbles) :
    ∃ index < domainSize,
      (cells row).aNibble entry.2 k = (NibbleAndTableComponent.a.valueAt index : ℕ) ∧
      (cells row).bNibble entry.2 k = (NibbleAndTableComponent.b.valueAt index : ℕ) ∧
      (cells row).andNibble entry.2 k = (NibbleAndTableComponent.c.valueAt index : ℕ) := by
  classical
  choose! a b c nibbles using satisfied.nibbles
  choose! multiplicity multiplicities using satisfied.multiplicity
  let value (component : NibbleAndTableComponent) (row : ℕ) : ZMod p :=
    (component.valueAt row : ℕ)
  let table (row : ℕ) : L := query delta (algebraMap (ZMod p) L (value .a row))
    (algebraMap (ZMod p) L (value .b row)) (algebraMap (ZMod p) L (value .c row))
  have tables : ∀ row < domainSize, algebraMap L K (table row) =
      query (algebraMap L K delta) (cells row).tableA (cells row).tableB
        (cells row).tableC := by
    intro row inside
    rw [algebraMap_query, satisfied.tableA row inside, satisfied.tableB row inside,
      satisfied.tableC row inside]
    simp only [value, map_natCast]
  have steps : ∀ row < domainSize,
      (cells ((row + 1) % domainSize)).sum - (cells row).sum =
        fractions gamma (rowTriples groups (active row) delta (a row) (b row) (c row)) -
          algebraMap L K (algebraMap (ZMod p) L (multiplicity row)) *
            (gamma - algebraMap L K (table row))⁻¹ := by
    intro row inside
    have holds := satisfied.rowHolds inside
    have tableInverse := eq_inv_of_mul_eq_one_left holds.tableInverse
    rw [fractions_rowTriples holds (hot row inside) (nibbles row inside), tables row inside,
      ← tableInverse, ← IsScalarTower.algebraMap_apply, multiplicities row inside]
    exact holds.transition
  have closed := @sum_steps_eq_zero K _ domainSize (fun row => (cells row).sum) _
    (Nat.zero_lt_of_lt inside) steps
  have bounded : ∑ row ∈ Finset.range domainSize,
      lookups (rowTriples groups (active row) delta (a row) (b row) (c row)) < p := by
    refine lt_of_le_of_lt ?_ large
    calc ∑ row ∈ Finset.range domainSize,
        lookups (rowTriples groups (active row) delta (a row) (b row) (c row))
        ≤ ∑ _row ∈ Finset.range domainSize, 2 ^ 64 * (2 ^ 64 * 16) :=
          Finset.sum_le_sum fun row _ => lookups_rowTriples_le shaped _ _ _ _ _
      _ = domainSize * (2 ^ 64 * (2 ^ 64 * 16)) := by
          rw [Finset.sum_const, Finset.card_range, smul_eq_mul]
      _ ≤ 2 ^ 64 * (2 ^ 64 * (2 ^ 64 * 16)) := Nat.mul_le_mul_right _ addressable.le
      _ ≤ 2 ^ 254 := by norm_num
  have : CharP L p := charP_of_injective_algebraMap (algebraMap (ZMod p) L).injective p
  obtain ⟨index, small, found⟩ := mem_table_of_closed freeGamma closed bounded inside
    (List.mem_map_of_mem listed) (selectorWeight_ne_zero_iff.2 gated)
    (List.mem_map_of_mem (List.mem_range.2 position))
  obtain ⟨sameA, sameB, sameC⟩ := query_injective freeDelta found
  obtain ⟨aNibble, bNibble, andNibble⟩ := nibbles row inside entry.2 k
  refine ⟨index, small, ?_, ?_, ?_⟩
  · rw [← aNibble, ← sameA, map_natCast]
  · rw [← bNibble, ← sameB, map_natCast]
  · rw [← andNibble, ← sameC, map_natCast]

end Soundness

end MetaVm.Zkp
