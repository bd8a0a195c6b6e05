import MetaVm.Zkp.Lookup

namespace MetaVm.Zkp

open RunningSum

/-! The columns that the prover computes close the running sum; what is left of
the bodies is the decomposition of the cells. -/

theorem guardedInverse_eq {K : Type} [Field K] [DecidableEq K] (gamma value : K) :
    guardedInverse gamma value = (gamma - value)⁻¹ := by
  rw [guardedInverse]
  split
  · rename_i zero
    rw [zero, inv_zero]
  · rfl

section Closing

variable {F : Type} [Zero F] [DecidableEq F] (bytes : LogUpGroup → F → ℕ → Byte)
  (trace : ℕ → ℕ → F) (groups : List LogUpGroup) (domainSize : ℕ) {K : Type} [Field K]
  [DecidableEq K] (gamma : K)

theorem runningSum_eq (row : ℕ) :
    runningSum bytes trace groups domainSize gamma row =
      ∑ earlier ∈ Finset.range row,
        sumStep bytes trace groups domainSize gamma earlier := by
  induction row with
  | zero => rfl
  | succ row hypothesis => rw [runningSum, hypothesis, Finset.sum_range_succ]

omit [DecidableEq K] in
/-- The fractions of all looked-up bytes, row by row. -/
theorem sum_activeBytes (f : ℕ → K) :
    ((activeBytes bytes trace groups domainSize).map fun byte => f byte.toNat).sum =
      ∑ row ∈ Finset.range domainSize, (groups.map fun group =>
        if groupActive group.selectors (trace row) then
          ∑ k ∈ Finset.range group.numLimbs,
            f (bytes group (trace row group.columnIndex) k).toNat
        else 0).sum := by
  rw [activeBytes, sum_map_flatMap, sum_map_sum]
  congr 1
  apply List.map_congr_left
  intro group _
  rw [sum_map_flatMap, sum_map_range]
  apply Finset.sum_congr rfl
  intro row _
  split
  · rw [List.map_map, sum_map_range]
    rfl
  · rfl

theorem count_activeBytes {row : ℕ} (small : row < rangeTableSize) :
    (activeBytes bytes trace groups domainSize).count (BitVec.ofNat 8 row) =
      ((activeBytes bytes trace groups domainSize).map BitVec.toNat).count row := by
  have value : (BitVec.ofNat 8 row).toNat = row := by
    rw [BitVec.toNat_ofNat]
    exact Nat.mod_eq_of_lt small
  conv_rhs => rw [← value]
  exact (List.count_map_of_injective _ _ (fun _ _ => BitVec.eq_of_toNat_eq) _).symm

/-- The multiplicities count what the groups look up. -/
theorem sum_steps_closed (large : rangeTableSize ≤ domainSize) :
    ∑ row ∈ Finset.range domainSize,
      sumStep bytes trace groups domainSize gamma row = 0 := by
  let positions := (activeBytes bytes trace groups domainSize).map BitVec.toNat
  let fraction : ℕ → K := fun value => (gamma - (value : K))⁻¹
  have bounded : ∀ position ∈ positions, position < rangeTableSize := by
    intro position member
    obtain ⟨byte, _, rfl⟩ := List.mem_map.1 member
    exact byte.isLt
  have table : ∑ row ∈ Finset.range domainSize,
      multiplicityAt bytes trace groups domainSize row * fraction row =
        ∑ row ∈ Finset.range rangeTableSize, positions.count row • fraction row := by
    symm
    refine Finset.sum_subset_zero_on_sdiff (Finset.range_mono large) ?_ ?_
    · intro row outside
      have above := (Finset.mem_sdiff.1 outside).2
      rw [multiplicityAt, if_neg (above ∘ Finset.mem_range.2), zero_mul]
    · intro row inside
      have small := Finset.mem_range.1 inside
      rw [multiplicityAt, if_pos small, count_activeBytes _ _ _ _ small, nsmul_eq_mul]
  have looked : ∑ row ∈ Finset.range domainSize, (groups.map fun group =>
      if groupActive group.selectors (trace row) then
        ∑ k ∈ Finset.range group.numLimbs, fraction
          (bytes group (trace row group.columnIndex) k).toNat
      else 0).sum = (positions.map fraction).sum := by
    rw [← sum_activeBytes, List.map_map]
    rfl
  have steps : ∀ row, sumStep bytes trace groups domainSize gamma row =
      (groups.map fun group =>
        if groupActive group.selectors (trace row) then
          ∑ k ∈ Finset.range group.numLimbs, fraction
            (bytes group (trace row group.columnIndex) k).toNat
        else 0).sum -
      multiplicityAt bytes trace groups domainSize row * fraction row := by
    intro row
    simp only [sumStep, guardedInverse_eq]
    rfl
  rw [Finset.sum_congr rfl fun row _ => steps row, Finset.sum_sub_distrib, looked,
    table, sum_map_eq_sum_count positions bounded fraction, sub_self]

end Closing

section Witness

variable {p : ℕ} [Fact p.Prime] {K : Type} [Field K] [DecidableEq K]
  [Algebra (ZMod p) K] {gamma : K} {omega : ZMod p} {domainSize : ℕ}
  {bytes : LogUpGroup → ZMod p → ℕ → Byte} {trace : ℕ → ℕ → ZMod p}
  {groups : List LogUpGroup} {active : ℕ → Option ℕ}

omit [DecidableEq K] in
theorem natCast_domainSize_ne_zero (root : IsPrimitiveRoot omega domainSize)
    (positive : 0 < domainSize) : (domainSize : K) ≠ 0 := by
  have : NeZero domainSize := ⟨Nat.pos_iff_ne_zero.1 positive⟩
  have nonzero := root.neZero'.ne
  rw [← map_natCast (algebraMap (ZMod p) K)]
  exact (map_ne_zero _).2 nonzero

/-- Away from the first row its Lagrange polynomial is zero. -/
theorem lagrangeFirst_later (root : IsPrimitiveRoot omega domainSize) {row : ℕ}
    (inside : row < domainSize) (later : row ≠ 0) :
    lagrangeFirst domainSize (algebraMap (ZMod p) K (omega ^ row)) = 0 := by
  apply lagrangeFirst_of_root
  · exact natCast_domainSize_ne_zero root (Nat.zero_lt_of_lt inside)
  · rw [← map_pow, ← pow_mul, mul_comm, pow_mul, root.pow_eq_one, one_pow, map_one]
  · intro one
    have trivial := (algebraMap (ZMod p) K).injective (one.trans (map_one _).symm)
    exact later (root.pow_inj inside (Nat.zero_lt_of_lt inside)
      (trivial.trans (pow_zero omega).symm))

section Listed

variable {entry : LogUpGroup × ℕ} (listed : entry ∈ groups.zipIdx) (row : ℕ)

include listed

omit [Algebra (ZMod p) K] in
theorem witness_limb (k : ℕ) :
    (extendedLogupWitness bytes trace groups domainSize gamma row).limb entry.2 k =
      ((bytes entry.1 (trace row entry.1.columnIndex) k).toNat : K) := by
  have position := List.mk_mem_zipIdx_iff_getElem?.1 listed
  simp only [extendedLogupWitness, position]
  rfl

omit [Algebra (ZMod p) K] in
theorem witness_inverse (k : ℕ) :
    (extendedLogupWitness bytes trace groups domainSize gamma row).inverse entry.2 k =
      (gamma - ((bytes entry.1 (trace row entry.1.columnIndex) k).toNat : K))⁻¹ := by
  have position := List.mk_mem_zipIdx_iff_getElem?.1 listed
  simp only [extendedLogupWitness, position]
  rfl

end Listed

/-- A decomposition that is not gated off compares the cell with its limbs. -/
theorem witness_decomposition_iff {row : ℕ}
    (hot : ∀ group ∈ groups, HotRow (active row) group.selectors (trace row))
    {entry : LogUpGroup × ℕ} (listed : entry ∈ groups.zipIdx) :
    activeAt entry.1.selectors
        (fun column => algebraMap (ZMod p) K (trace row column)) *
      (algebraMap (ZMod p) K (trace row entry.1.columnIndex) -
        recompose 256 entry.1.numLimbs
          ((extendedLogupWitness bytes trace groups domainSize gamma row).limb
            entry.2)) = 0 ↔
    (marked entry.1.selectors (active row) →
      trace row entry.1.columnIndex = recompose 256 entry.1.numLimbs fun k =>
        ((bytes entry.1 (trace row entry.1.columnIndex) k).toNat : ZMod p)) := by
  have member : entry.1 ∈ groups := List.fst_mem_of_mem_zipIdx listed
  have limbs : recompose 256 entry.1.numLimbs
      ((extendedLogupWitness bytes trace groups domainSize gamma row).limb entry.2) =
        algebraMap (ZMod p) K (recompose 256 entry.1.numLimbs fun k =>
          ((bytes entry.1 (trace row entry.1.columnIndex) k).toNat : ZMod p)) := by
    rw [map_recompose]
    congr 1
    funext k
    rw [witness_limb listed, map_natCast]
  rw [activeAt_map (algebraMap (ZMod p) K), (hot _ member).activeAt_eq entry.1.distinct,
    limbs, ← map_sub, ← map_mul, map_eq_zero_iff _ (algebraMap (ZMod p) K).injective]
  split
  · rename_i gated
    rw [one_mul, sub_eq_zero]
    exact ⟨fun equal _ => equal, fun decomposed => decomposed gated⟩
  · rename_i ungated
    exact iff_of_true (zero_mul _) fun gated => absurd gated ungated

variable (root : IsPrimitiveRoot omega domainSize)
  (large : rangeTableSize ≤ domainSize)
  (hot : ∀ row < domainSize, ∀ group ∈ groups,
    HotRow (active row) group.selectors (trace row))
  (apart : ∀ byte < rangeTableSize, gamma ≠ ((byte : ℕ) : K))

include root large hot apart

/-- The columns of the prover satisfy everything but the decompositions. -/
theorem extendedLogupWitness_holds {row : ℕ} (inside : row < domainSize)
    (decomposed : ∀ entry ∈ groups.zipIdx,
      activeAt entry.1.selectors
          (fun column => algebraMap (ZMod p) K (trace row column)) *
        (algebraMap (ZMod p) K (trace row entry.1.columnIndex) -
          recompose 256 entry.1.numLimbs
            ((extendedLogupWitness bytes trace groups domainSize gamma row).limb
              entry.2)) = 0) :
    LogUpRowHolds groups gamma
      (lagrangeFirst domainSize (algebraMap (ZMod p) K (omega ^ row)))
      (fun column => algebraMap (ZMod p) K (trace row column))
      (extendedLogupWitness bytes trace groups domainSize gamma row)
      (extendedLogupWitness bytes trace groups domainSize gamma
        ((row + 1) % domainSize)).sum := by
  refine ⟨decomposed, ?_, ?_, ?_, ?_⟩
  · rcases Nat.eq_zero_or_pos row with rfl | later
    · exact mul_zero _
    · rw [lagrangeFirst_later root inside (Nat.pos_iff_ne_zero.1 later), zero_mul]
  · intro entry listed k _
    rw [witness_inverse listed, witness_limb listed]
    exact inv_mul_cancel₀ (sub_ne_zero.2 (apart _ (BitVec.isLt _)))
  · refine inv_mul_cancel₀ (sub_ne_zero.2 ?_)
    show gamma ≠ rangeTable row
    rw [rangeTable]
    split
    · rename_i small
      exact apart row small
    · exact apart 0 (by decide)
  · have step := partialSum_step
      (sum_steps_closed bytes trace groups domainSize gamma large) inside
    rw [← runningSum_eq, ← runningSum_eq] at step
    refine Eq.trans step ?_
    rw [sumStep]
    congr 1
    · conv_lhs => rw [← List.zipIdx_map_fst 0 groups, List.map_map]
      congr 1
      apply List.map_congr_left
      intro entry listed
      have member : entry.1 ∈ groups := List.fst_mem_of_mem_zipIdx listed
      have spots := hot row inside _ member
      rw [activeAt_map (algebraMap (ZMod p) K), spots.activeAt_eq entry.1.distinct,
        Function.comp_apply, spots.groupActive_eq]
      split
      · rw [map_one, one_mul]
        apply Finset.sum_congr rfl
        intro k _
        rw [guardedInverse_eq, witness_inverse listed]
      · rw [map_zero, zero_mul]
    · rw [guardedInverse_eq]
      show multiplicityAt bytes trace groups domainSize row * (gamma - (row : K))⁻¹ =
        multiplicityAt bytes trace groups domainSize row * (gamma - rangeTable row)⁻¹
      rw [multiplicityAt, rangeTable]
      split
      · rfl
      · rw [zero_mul, zero_mul]

/-- Whether the columns of the prover satisfy the bodies is decided by the
decompositions alone. -/
theorem extendedLogupWitness_vanishes_iff :
    (∀ row < domainSize, ∀ body ∈ logupBodies groups gamma
      (lagrangeFirst domainSize (algebraMap (ZMod p) K (omega ^ row)))
      (fun column => algebraMap (ZMod p) K (trace row column))
      (extendedLogupWitness bytes trace groups domainSize gamma row)
      (extendedLogupWitness bytes trace groups domainSize gamma
        ((row + 1) % domainSize)).sum, body = 0) ↔
    ∀ row < domainSize, ∀ group ∈ groups, marked group.selectors (active row) →
      trace row group.columnIndex =
        recompose 256 group.numLimbs fun k =>
          ((bytes group (trace row group.columnIndex) k).toNat : ZMod p) := by
  refine forall_congr' fun row => forall_congr' fun inside => ?_
  rw [logupBodies_vanish_iff]
  constructor
  · intro holds group member
    obtain ⟨g, position⟩ := List.mem_iff_getElem?.1 member
    have listed : (group, g) ∈ groups.zipIdx := List.mk_mem_zipIdx_iff_getElem?.2 position
    exact (witness_decomposition_iff (hot row inside) listed).1
      (holds.decomposition _ listed)
  · intro decomposed
    apply extendedLogupWitness_holds root large hot apart inside
    intro entry listed
    exact (witness_decomposition_iff (hot row inside) listed).2
      (decomposed _ (List.fst_mem_of_mem_zipIdx listed))

end Witness

end MetaVm.Zkp
