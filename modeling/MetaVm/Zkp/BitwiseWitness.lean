import MetaVm.Zkp.BitwiseSoundness
import MetaVm.Zkp.LookupWitness

namespace MetaVm.Zkp

open RunningSum

/-! The columns that the prover computes: their running sum closes when the
looked-up rows are inside the domain. -/

section Nibbles

theorem decomposeToNibbles_toNat (value : BitVec 64) (k : ℕ) :
    (decomposeToNibbles value k).toNat = value.toNat / 16 ^ k % 16 := by
  rw [decomposeToNibbles]
  split
  · rw [BitVec.toNat_setWidth, BitVec.toNat_ushiftRight, Nat.shiftRight_eq_div_pow,
      pow_mul]
    rfl
  · rename_i outside
    have above : value.toNat < 16 ^ k := by
      refine lt_of_lt_of_le value.isLt ?_
      calc 2 ^ 64 = 16 ^ 16 := by norm_num
        _ ≤ 16 ^ k := Nat.pow_le_pow_right (Nat.succ_pos _) (Nat.le_of_not_lt outside)
    rw [Nat.div_eq_of_lt above]
    rfl

variable {p : ℕ} {trace : ℕ → ℕ → ZMod p} {group : BitwiseLookupGroup} {row k : ℕ}

theorem tableIndex_lt : tableIndex trace group row k < nibbleAndTableSize := by
  have high := (aNibbleAt trace group row k).isLt
  have low := (bNibbleAt trace group row k).isLt
  show (aNibbleAt trace group row k).toNat * 16 + (bNibbleAt trace group row k).toNat < 256
  omega

variable {K : Type} [Field K] (gamma delta : K)

/-- The query of a pair of nibbles is that of its table row. -/
theorem nibbleInverse_eq : nibbleInverse trace gamma delta group row k =
    (gamma - tableQuery delta (tableIndex trace group row k))⁻¹ := by
  have high := (aNibbleAt trace group row k).isLt
  have low := (bNibbleAt trace group row k).isLt
  rw [nibbleInverse, tableQuery, tableC_eq, tableIndex, tableA_pair high low,
    tableB_pair high low, BitVec.toNat_and]

end Nibbles

section Closing

variable {p : ℕ} (trace : ℕ → ℕ → ZMod p) (groups : List BitwiseLookupGroup)
  (domainSize : ℕ)

theorem mem_activeIndices {index : ℕ} : index ∈ activeIndices trace groups domainSize ↔
    ∃ group ∈ groups, ∃ row < domainSize, groupActive group.selectors (trace row) ∧
      ∃ k < group.numNibbles, tableIndex trace group row k = index := by
  simp only [activeIndices, List.mem_flatMap, List.mem_range, List.mem_ite_nil_right,
    List.mem_map]

variable {K : Type} [Field K] (gamma delta : K)

theorem bitwiseRunningSum_eq (row : ℕ) :
    bitwiseRunningSum trace groups domainSize gamma delta row =
      ∑ earlier ∈ Finset.range row,
        bitwiseSumStep trace groups domainSize gamma delta earlier := by
  induction row with
  | zero => rfl
  | succ row hypothesis =>
      rw [bitwiseRunningSum, hypothesis, Finset.sum_range_succ]

/-- The fractions of all looked-up pairs, row by row. -/
theorem sum_activeIndices (f : ℕ → K) :
    ((activeIndices trace groups domainSize).map f).sum =
      ∑ row ∈ Finset.range domainSize, (groups.map fun group =>
        if groupActive group.selectors (trace row) then
          ∑ k ∈ Finset.range group.numNibbles, f (tableIndex trace group row k)
        else 0).sum := by
  rw [activeIndices, sum_map_flatMap, sum_map_sum]
  congr 1
  apply List.map_congr_left
  intro group _
  rw [sum_map_flatMap, sum_map_range]
  apply Finset.sum_congr rfl
  intro row _
  split
  · rw [List.map_map, sum_map_range]
    rfl
  · rfl

variable {trace groups domainSize}

theorem TableFits.index_lt (fits : TableFits groups domainSize trace) {index : ℕ}
    (member : index ∈ activeIndices trace groups domainSize) : index < domainSize := by
  obtain ⟨group, listed, row, inside, active, k, position, rfl⟩ :=
    (mem_activeIndices trace groups domainSize).1 member
  exact fits row inside group listed active k position

theorem bitwiseMultiplicityAt_eq (row : ℕ) :
    (bitwiseMultiplicityAt trace groups domainSize row : K) =
      ((activeIndices trace groups domainSize).count row : ℕ) := by
  rw [bitwiseMultiplicityAt]
  split
  · rfl
  · rename_i outside
    have absent : row ∉ activeIndices trace groups domainSize := by
      intro member
      obtain ⟨_, _, _, _, _, _, _, rfl⟩ :=
        (mem_activeIndices trace groups domainSize).1 member
      exact outside tableIndex_lt
    rw [List.count_eq_zero_of_not_mem absent, Nat.cast_zero]

/-- The multiplicities count what the groups look up. -/
theorem TableFits.steps_closed (fits : TableFits groups domainSize trace) :
    ∑ row ∈ Finset.range domainSize,
      bitwiseSumStep trace groups domainSize gamma delta row = 0 := by
  let fraction : ℕ → K := fun index => (gamma - tableQuery delta index)⁻¹
  have looked := sum_activeIndices trace groups domainSize fraction
  have steps : ∀ row, bitwiseSumStep trace groups domainSize gamma delta row =
      (groups.map fun group =>
        if groupActive group.selectors (trace row) then
          ∑ k ∈ Finset.range group.numNibbles, fraction (tableIndex trace group row k)
        else 0).sum -
      (activeIndices trace groups domainSize).count row • fraction row := by
    intro row
    simp only [bitwiseSumStep, nibbleInverse_eq, bitwiseMultiplicityAt_eq, nsmul_eq_mul]
    rfl
  rw [Finset.sum_congr rfl fun row _ => steps row, Finset.sum_sub_distrib, ← looked,
    sum_map_eq_sum_count _ (fun _ member => fits.index_lt member) fraction, sub_self]

theorem TableFits.running_step (fits : TableFits groups domainSize trace) {row : ℕ}
    (inside : row < domainSize) :
    bitwiseRunningSum trace groups domainSize gamma delta ((row + 1) % domainSize) -
      bitwiseRunningSum trace groups domainSize gamma delta row =
        bitwiseSumStep trace groups domainSize gamma delta row := by
  rw [bitwiseRunningSum_eq, bitwiseRunningSum_eq]
  exact partialSum_step (fits.steps_closed gamma delta) inside

end Closing

section Weights

variable {p : ℕ} [Fact p.Prime] {groups : List BitwiseLookupGroup} {domainSize : ℕ}
  {trace : ℕ → ℕ → ZMod p}

/-- No group that has nibbles lists the selector of a row twice. -/
def Unrepeated (groups : List BitwiseLookupGroup) (domainSize : ℕ)
    (trace : ℕ → ℕ → ZMod p) : Prop :=
  ∀ row < domainSize, ∀ group ∈ groups, 0 < group.numNibbles →
    group.selectors.countP (fun sel => trace row sel ≠ 0) ≤ 1

/-- How much more a group weighs in the bodies than in the running sum of the
prover. -/
def excess (selectors : List ℕ) (active : Option ℕ) : ℕ :=
  selectorWeight selectors active - (marked selectors active).toNat

theorem selectorWeight_eq_excess (selectors : List ℕ) (active : Option ℕ) :
    selectorWeight selectors active =
      excess selectors active + (marked selectors active).toNat := by
  refine (Nat.sub_add_cancel ?_).symm
  cases mark : marked selectors active with
  | false => exact Nat.zero_le _
  | true => exact Nat.pos_of_ne_zero (selectorWeight_ne_zero_iff.2 mark)

theorem HotRow.excess_eq_zero_iff {active : Option ℕ} {selectors : List ℕ}
    {row : ℕ → ZMod p} (hot : HotRow active selectors row) :
    excess selectors active = 0 ↔
      selectors.countP (fun sel => row sel ≠ 0) ≤ 1 := by
  have counted : selectors.countP (fun sel => decide (row sel ≠ 0)) =
      selectors.countP fun sel => active == some sel := by
    refine List.countP_congr fun sel member => ?_
    rw [hot sel member]
    by_cases same : active = some sel <;> simp [same]
  rw [counted]
  cases selectors with
  | nil => exact iff_of_true rfl (Nat.zero_le _)
  | cons sel rest =>
      have weight : selectorWeight (sel :: rest) active =
        (sel :: rest).countP fun sel => active == some sel := rfl
      rw [← weight]
      have apart := selectorWeight_eq_excess (sel :: rest) active
      cases mark : marked (sel :: rest) active with
      | false =>
          have zero := not_imp_comm.1 selectorWeight_ne_zero_iff.1 (by rw [mark]; nofun)
          rw [excess, zero]
          exact iff_of_true (Nat.zero_sub _) (Nat.zero_le _)
      | true =>
          rw [mark, Bool.toNat_true] at apart
          omega

end Weights

section Rows

variable {p : ℕ} {K : Type} [Field K] {groups : List BitwiseLookupGroup}
  {gamma delta : K} {domainSize : ℕ} {trace : ℕ → ℕ → ZMod p}

section Listed

variable {entry : BitwiseLookupGroup × ℕ} (listed : entry ∈ groups.zipIdx) (row k : ℕ)

include listed

theorem witness_aNibble :
    (computeExtendedBitwiseWitness trace groups domainSize gamma delta row).aNibble
      entry.2 k = ((aNibbleAt trace entry.1 row k).toNat : K) := by
  have position := List.mk_mem_zipIdx_iff_getElem?.1 listed
  simp only [computeExtendedBitwiseWitness, position]
  rfl

theorem witness_bNibble :
    (computeExtendedBitwiseWitness trace groups domainSize gamma delta row).bNibble
      entry.2 k = ((bNibbleAt trace entry.1 row k).toNat : K) := by
  have position := List.mk_mem_zipIdx_iff_getElem?.1 listed
  simp only [computeExtendedBitwiseWitness, position]
  rfl

theorem witness_andNibble :
    (computeExtendedBitwiseWitness trace groups domainSize gamma delta row).andNibble
      entry.2 k = ((aNibbleAt trace entry.1 row k &&&
        bNibbleAt trace entry.1 row k).toNat : K) := by
  have position := List.mk_mem_zipIdx_iff_getElem?.1 listed
  simp only [computeExtendedBitwiseWitness, position]
  rfl

theorem witness_nibbleInverse :
    (computeExtendedBitwiseWitness trace groups domainSize gamma delta row).inverse
      entry.2 k = nibbleInverse trace gamma delta entry.1 row k := by
  have position := List.mk_mem_zipIdx_iff_getElem?.1 listed
  simp only [computeExtendedBitwiseWitness, position]
  rfl

end Listed

/-- No row of the table is the first challenge. -/
def ApartFromTable (gamma delta : K) : Prop :=
  ∀ row < nibbleAndTableSize, gamma ≠ tableQuery delta row

theorem ApartFromTable.denominator_ne_zero (apart : ApartFromTable gamma delta)
    (row : ℕ) : gamma - tableQuery delta row ≠ 0 := by
  rcases Nat.lt_or_ge row nibbleAndTableSize with inside | outside
  · exact sub_ne_zero.2 (apart row inside)
  · have padded : (tableQuery delta row : K) = tableQuery delta 0 := by
      simp only [tableQuery, NibbleAndTableComponent.valueAt, if_pos outside]
      rfl
    rw [padded]
    exact sub_ne_zero.2 (apart 0 (Nat.succ_pos _))

/-- The fractions that the bodies count and the prover does not add. -/
def excessSum (groups : List BitwiseLookupGroup) (trace : ℕ → ℕ → ZMod p)
    (gamma delta : K) (active : Option ℕ) (row : ℕ) : K :=
  (groups.map fun group => (excess group.selectors active : K) *
    ∑ k ∈ Finset.range group.numNibbles, nibbleInverse trace gamma delta group row k).sum

theorem excessSum_eq_zero {active : Option ℕ} {row : ℕ}
    (none : ∀ group ∈ groups, 0 < group.numNibbles → excess group.selectors active = 0) :
    excessSum groups trace gamma delta active row = 0 := by
  apply List.sum_eq_zero
  intro term member
  obtain ⟨group, listed, rfl⟩ := List.mem_map.1 member
  rcases Nat.eq_zero_or_pos group.numNibbles with empty | positive
  · rw [empty, Finset.sum_range_zero, mul_zero]
  · rw [none group listed positive, Nat.cast_zero, zero_mul]

variable [Fact p.Prime] [Algebra (ZMod p) K]

theorem weighted_inverses {active : Option ℕ} {row : ℕ}
    (hot : ∀ group ∈ groups, HotRow active group.selectors (trace row)) :
    (groups.zipIdx.map fun entry =>
      activeAt entry.1.selectors
          (fun column => algebraMap (ZMod p) K (trace row column)) *
        ∑ k ∈ Finset.range entry.1.numNibbles,
          (computeExtendedBitwiseWitness trace groups domainSize gamma delta row).inverse
            entry.2 k).sum =
      (groups.map fun group =>
        if groupActive group.selectors (trace row) then
          ∑ k ∈ Finset.range group.numNibbles, nibbleInverse trace gamma delta group row k
        else 0).sum + excessSum groups trace gamma delta active row := by
  rw [excessSum, ← List.sum_map_add]
  conv_rhs => rw [← List.zipIdx_map_fst 0 groups, List.map_map]
  congr 1
  apply List.map_congr_left
  intro entry listed
  have spots := hot entry.1 (List.fst_mem_of_mem_zipIdx listed)
  have inverses : ∑ k ∈ Finset.range entry.1.numNibbles,
      (computeExtendedBitwiseWitness trace groups domainSize gamma delta row).inverse
        entry.2 k =
      ∑ k ∈ Finset.range entry.1.numNibbles,
        nibbleInverse trace gamma delta entry.1 row k :=
    Finset.sum_congr rfl fun k _ => witness_nibbleInverse listed row k
  rw [inverses, activeAt_eq_selectorWeight spots, selectorWeight_eq_excess,
    Function.comp_apply, spots.groupActive_eq]
  cases marked entry.1.selectors active with
  | false => simp
  | true =>
      rw [Bool.toNat_true, if_pos rfl, Nat.cast_add, Nat.cast_one]
      ring

/-- The running sum of the prover takes the steps of the bodies when nothing is
left over. -/
theorem witness_transition_iff (fits : TableFits groups domainSize trace)
    {active : Option ℕ} {row : ℕ} (inside : row < domainSize)
    (hot : ∀ group ∈ groups, HotRow active group.selectors (trace row)) :
    bitwiseRunningSum trace groups domainSize gamma delta ((row + 1) % domainSize) -
        bitwiseRunningSum trace groups domainSize gamma delta row =
      (groups.zipIdx.map fun entry =>
        activeAt entry.1.selectors
            (fun column => algebraMap (ZMod p) K (trace row column)) *
          ∑ k ∈ Finset.range entry.1.numNibbles,
            (computeExtendedBitwiseWitness trace groups domainSize gamma delta
              row).inverse entry.2 k).sum -
        bitwiseMultiplicityAt trace groups domainSize row *
          (gamma - tableQuery delta row)⁻¹ ↔
      excessSum groups trace gamma delta active row = 0 := by
  rw [fits.running_step gamma delta inside, weighted_inverses hot, bitwiseSumStep,
    sub_left_inj, left_eq_add]

end Rows

section Generic

variable {p : ℕ} [Fact p.Prime] {L K : Type} [Field L] [Field K] [Algebra (ZMod p) L]
  [Algebra L K] {groups : List BitwiseLookupGroup} {gamma : K} {delta : L}
  {trace : ℕ → ℕ → ZMod p}

theorem map_tableQuery (row : ℕ) :
    algebraMap L K (tableQuery delta row) = tableQuery (algebraMap L K delta) row := by
  rw [tableQuery, map_query, map_natCast, map_natCast, map_natCast]
  rfl

/-- An indeterminate challenge leaves nothing to cancel the excess. -/
theorem excess_eq_zero_of_excessSum (free : Transcendental L gamma) (large : 2 ^ 254 < p)
    (shaped : NibbleGroups groups) {active : Option ℕ} {row : ℕ}
    (zero : excessSum groups trace gamma (algebraMap L K delta) active row = 0)
    {group : BitwiseLookupGroup} (member : group ∈ groups)
    (positive : 0 < group.numNibbles) : excess group.selectors active = 0 := by
  classical
  have : CharP L p := charP_of_injective_algebraMap (algebraMap (ZMod p) L).injective p
  by_contra heavy
  let triples (group : BitwiseLookupGroup) : List L :=
    (List.range group.numNibbles).map fun k => tableQuery delta (tableIndex trace group row k)
  let queries : List (ℕ × List L) :=
    groups.map fun group => (excess group.selectors active, triples group)
  have total : fractions gamma queries = 0 := by
    rw [← zero, fractions, excessSum, List.map_map]
    congr 1
    apply List.map_congr_left
    intro group _
    simp only [Function.comp_apply, triples, List.map_map, sum_map_range, map_tableQuery,
      nibbleInverse_eq]
  have few : lookups queries < p := by
    have bounded : ∀ term ∈ queries.map (fun query => query.1 * query.2.length),
        term ≤ 2 ^ 64 * 16 := by
      intro term listed
      obtain ⟨query, weighted, rfl⟩ := List.mem_map.1 listed
      obtain ⟨group, inside, rfl⟩ := List.mem_map.1 weighted
      have light : excess group.selectors active ≤ 2 ^ 64 :=
        (Nat.sub_le _ _).trans ((selectorWeight_le _ _).trans
          (Nat.succ_le_of_lt (shaped.selectors group inside)))
      simp only [triples, List.length_map, List.length_range]
      exact Nat.mul_le_mul light (shaped.narrow group inside)
    have sum := List.sum_le_card_nsmul _ _ bounded
    rw [List.length_map, List.length_map, smul_eq_mul] at sum
    refine lt_of_le_of_lt (sum.trans (Nat.mul_le_mul_right _ shaped.few.le)) ?_
    exact lt_trans (by norm_num) large
  -- a table that misses the query
  let missing : L := tableQuery delta (tableIndex trace group row 0) + 1
  obtain ⟨_, _, found⟩ := @mem_table_of_closed L K _ _ _ gamma _ 1 (fun _ => queries) 0
    (fun _ => missing) p _ free (by simp [total]) (by simpa using few) 0 Nat.one_pos _ _
    (List.mem_map_of_mem member) heavy _
    (List.mem_map_of_mem (List.mem_range.2 positive))
  exact one_ne_zero (left_eq_add.1 found.symm)

end Generic

end MetaVm.Zkp
