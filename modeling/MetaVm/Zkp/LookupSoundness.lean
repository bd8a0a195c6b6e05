import MetaVm.Lib.Digits
import MetaVm.Zkp.Lookup

namespace MetaVm.Zkp

open RunningSum

/-! What the range checks enforce, when the challenge is an indeterminate. -/

section Satisfied

variable {p : ℕ} [Fact p.Prime] {K : Type} [Field K] [DecidableEq K]
  [Algebra (ZMod p) K]

/-- The bodies vanish on the domain, against the table of bytes. Limbs and
multiplicities do not depend on the challenge. -/
structure LogUpSatisfied (groups : List LogUpGroup) (gamma : K) (omega : ZMod p)
    (domainSize : ℕ) (trace : ℕ → ℕ → ZMod p) (cells : ℕ → LogUpRow K) : Prop where
  vanishes : ∀ row < domainSize, ∀ body ∈ logupBodies groups gamma
    (lagrangeFirst domainSize (algebraMap (ZMod p) K (omega ^ row)))
    (fun column => algebraMap (ZMod p) K (trace row column)) (cells row)
    (cells ((row + 1) % domainSize)).sum, body = 0
  table : ∀ row < domainSize, (cells row).table = rangeTable row
  limb : ∀ row < domainSize, ∀ g k, ∃ value : ZMod p,
    algebraMap (ZMod p) K value = (cells row).limb g k
  multiplicity : ∀ row < domainSize, ∃ value : ZMod p,
    algebraMap (ZMod p) K value = (cells row).multiplicity

/-- The selectors of the groups are one-hot on every row. -/
def HotTrace (columns : List ℕ) (domainSize : ℕ) (trace : ℕ → ℕ → ZMod p) : Prop :=
  ∀ row < domainSize, ∃ active, HotRow active columns (trace row)

omit [DecidableEq K] in
theorem algebraMap_rangeTable (row : ℕ) :
    algebraMap (ZMod p) K (rangeTable row) = rangeTable row := by
  rw [rangeTable, rangeTable]
  split <;> simp

variable {groups : List LogUpGroup} {gamma : K} {omega : ZMod p} {domainSize : ℕ}
  {trace : ℕ → ℕ → ZMod p} {cells : ℕ → LogUpRow K}

theorem LogUpSatisfied.rowHolds
    (satisfied : LogUpSatisfied groups gamma omega domainSize trace cells) {row : ℕ}
    (inside : row < domainSize) :
    LogUpRowHolds groups gamma
      (lagrangeFirst domainSize (algebraMap (ZMod p) K (omega ^ row)))
      (fun column => algebraMap (ZMod p) K (trace row column)) (cells row)
      (cells ((row + 1) % domainSize)).sum :=
  logupBodies_vanish_iff.1 (satisfied.vanishes row inside)

/-- The weight that a group has on a row. -/
def weight (group : LogUpGroup) (active : Option ℕ) : ℕ :=
  (marked group.selectors active).toNat

omit [DecidableEq K] in
theorem activeAt_eq_weight {group : LogUpGroup} {active : Option ℕ} {row : ℕ → ZMod p}
    (hot : HotRow active group.selectors row) :
    activeAt group.selectors (fun column => algebraMap (ZMod p) K (row column)) =
      weight group active := by
  rw [activeAt_map (algebraMap (ZMod p) K), hot.activeAt_eq group.distinct, weight]
  cases marked group.selectors active <;> simp

/-- What the groups look up on a row. -/
def rowQueries (groups : List LogUpGroup) (active : Option ℕ) (limb : ℕ → ℕ → ZMod p) :
    List (ℕ × List (ZMod p)) :=
  groups.zipIdx.map fun entry =>
    (weight entry.1 active, (List.range entry.1.numLimbs).map (limb entry.2))

omit [Fact p.Prime] in
theorem lookups_rowQueries_le (groups : List LogUpGroup) (active : Option ℕ)
    (limb : ℕ → ℕ → ZMod p) :
    lookups (rowQueries groups active limb) ≤ totalNumLimbs groups := by
  have indices : groups.map (·.numLimbs) =
      groups.zipIdx.map fun entry => entry.1.numLimbs := by
    conv_lhs => rw [← List.zipIdx_map_fst 0 groups, List.map_map]
    rfl
  rw [lookups, rowQueries, List.map_map, totalNumLimbs, indices]
  apply List.sum_le_sum
  intro entry _
  have bit : weight entry.1 active ≤ 1 := Bool.toNat_le _
  calc weight entry.1 active * ((List.range entry.1.numLimbs).map (limb entry.2)).length
      ≤ 1 * entry.1.numLimbs := by
        rw [List.length_map, List.length_range]
        exact Nat.mul_le_mul_right _ bit
    _ = entry.1.numLimbs := Nat.one_mul _

omit [DecidableEq K] in
theorem fractions_rowQueries {row : ℕ} {active : Option ℕ} {limb : ℕ → ℕ → ZMod p}
    {lagrange nextSum : K}
    (holds : LogUpRowHolds groups gamma lagrange
      (fun column => algebraMap (ZMod p) K (trace row column)) (cells row) nextSum)
    (hot : ∀ group ∈ groups, HotRow active group.selectors (trace row))
    (limbs : ∀ g k, algebraMap (ZMod p) K (limb g k) = (cells row).limb g k) :
    fractions gamma (rowQueries groups active limb) =
      (groups.zipIdx.map fun entry =>
        activeAt entry.1.selectors
          (fun column => algebraMap (ZMod p) K (trace row column)) *
        ∑ k ∈ Finset.range entry.1.numLimbs, (cells row).inverse entry.2 k).sum := by
  rw [fractions, rowQueries, List.map_map]
  congr 1
  apply List.map_congr_left
  intro entry member
  have listed : entry.1 ∈ groups := List.fst_mem_of_mem_zipIdx member
  rw [activeAt_eq_weight (hot entry.1 listed)]
  simp only [Function.comp_apply, List.map_map, sum_map_range]
  congr 1
  apply Finset.sum_congr rfl
  intro k inside
  have inverse := holds.inverse entry member k (Finset.mem_range.1 inside)
  rw [limbs]
  exact (eq_inv_of_mul_eq_one_left inverse).symm

/-- The limbs of a group on a row that its selectors mark are bytes. -/
theorem LogUpSatisfied.limb_is_byte
    (satisfied : LogUpSatisfied groups gamma omega domainSize trace cells)
    (free : Transcendental (ZMod p) gamma) {active : ℕ → Option ℕ}
    (hot : ∀ row < domainSize, ∀ group ∈ groups,
      HotRow (active row) group.selectors (trace row))
    (few : domainSize * totalNumLimbs groups < p) {row : ℕ}
    (inside : row < domainSize) {entry : LogUpGroup × ℕ}
    (listed : entry ∈ groups.zipIdx) (gated : marked entry.1.selectors (active row))
    {k : ℕ} (position : k < entry.1.numLimbs) :
    ∃ byte < rangeTableSize, ((byte : ℕ) : K) = (cells row).limb entry.2 k := by
  choose! limb limbs using satisfied.limb
  choose! multiplicity multiplicities using satisfied.multiplicity
  have steps : ∀ row < domainSize,
      (cells ((row + 1) % domainSize)).sum - (cells row).sum =
        fractions gamma (rowQueries groups (active row) (limb row)) -
          algebraMap (ZMod p) K (multiplicity row) *
            (gamma - algebraMap (ZMod p) K (rangeTable row))⁻¹ := by
    intro row inside
    have holds := satisfied.rowHolds inside
    have tableInverse := eq_inv_of_mul_eq_one_left holds.tableInverse
    rw [fractions_rowQueries holds (hot row inside) (limbs row inside),
      multiplicities row inside, algebraMap_rangeTable, ← satisfied.table row inside,
      ← tableInverse]
    exact holds.transition
  have closed := @sum_steps_eq_zero K _ domainSize (fun row => (cells row).sum) _
    (Nat.zero_lt_of_lt inside) steps
  have bounded : ∑ row ∈ Finset.range domainSize,
      lookups (rowQueries groups (active row) (limb row)) < p := by
    refine lt_of_le_of_lt ?_ few
    calc ∑ row ∈ Finset.range domainSize,
        lookups (rowQueries groups (active row) (limb row))
        ≤ ∑ _row ∈ Finset.range domainSize, totalNumLimbs groups :=
          Finset.sum_le_sum fun row _ => lookups_rowQueries_le _ _ _
      _ = domainSize * totalNumLimbs groups := by
          rw [Finset.sum_const, Finset.card_range, smul_eq_mul]
  have query : (weight entry.1 (active row),
      (List.range entry.1.numLimbs).map (limb row entry.2)) ∈
        rowQueries groups (active row) (limb row) := List.mem_map_of_mem listed
  have heavy : weight entry.1 (active row) ≠ 0 := by
    rw [weight, gated]
    decide
  obtain ⟨index, _, found⟩ := mem_table_of_closed free closed bounded inside query heavy
    (List.mem_map_of_mem (List.mem_range.2 position))
  rw [← limbs row inside, ← found, algebraMap_rangeTable, rangeTable]
  split
  · rename_i small
    exact ⟨index, small, rfl⟩
  · exact ⟨0, by decide, rfl⟩

/-- A cell that a group checks on a row is below what its limbs can hold. -/
theorem LogUpSatisfied.value_lt
    (satisfied : LogUpSatisfied groups gamma omega domainSize trace cells)
    (free : Transcendental (ZMod p) gamma) {active : ℕ → Option ℕ}
    (hot : ∀ row < domainSize, ∀ group ∈ groups,
      HotRow (active row) group.selectors (trace row))
    (few : domainSize * totalNumLimbs groups < p) {row : ℕ}
    (inside : row < domainSize) {group : LogUpGroup} (member : group ∈ groups)
    (gated : marked group.selectors (active row)) :
    (trace row group.columnIndex).val < rangeTableSize ^ group.numLimbs := by
  obtain ⟨g, position⟩ := List.mem_iff_getElem?.1 member
  have listed : (group, g) ∈ groups.zipIdx := List.mk_mem_zipIdx_iff_getElem?.2 position
  have bytes := fun k (below : k < group.numLimbs) =>
    satisfied.limb_is_byte free hot few inside listed gated below
  choose! byte small equal using bytes
  have decomposition := (satisfied.rowHolds inside).decomposition _ listed
  have marks : activeAt group.selectors
      (fun column => algebraMap (ZMod p) K (trace row column)) = 1 := by
    rw [activeAt_eq_weight (hot row inside group member), weight, gated]
    exact Nat.cast_one
  rw [marks, one_mul, sub_eq_zero] at decomposition
  have value : trace row group.columnIndex =
      ((∑ k ∈ Finset.range group.numLimbs, byte k * rangeTableSize ^ k : ℕ) : ZMod p) := by
    apply (algebraMap (ZMod p) K).injective
    rw [decomposition, recompose, map_natCast, Nat.cast_sum]
    apply Finset.sum_congr rfl
    intro k below
    rw [← equal k (Finset.mem_range.1 below), Nat.cast_mul, Nat.cast_pow]
  rw [value, ZMod.val_natCast]
  exact lt_of_le_of_lt (Nat.mod_le _ _) (Digits.value_lt small)

end Satisfied

end MetaVm.Zkp
