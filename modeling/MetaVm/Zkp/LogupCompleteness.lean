import MetaVm.Zkp.RangeChecks

namespace MetaVm.Zkp

/-! The columns of the prover for the two curves. Wide cells go through the
serialised scalar, read as if its last byte were the lowest. -/

section Limbs

theorem byteAt_eq_zero {value position : ℕ} (small : value < 256 ^ position) :
    byteAt value position = 0 := by
  rw [byteAt, Nat.div_eq_of_lt small]
  rfl

/-- A narrow cell fits into a machine word. -/
theorem decomposeToBytes_toU64 {order value limb : ℕ} (small : value < 2 ^ 64)
    (bound : value < order) (position : limb < 8) :
    decomposeToBytes (Scalar.toU64 (value : ZMod order)) limb = byteAt value limb := by
  rw [decomposeToBytes, if_pos position, Scalar.toU64_natCast bound, BitVec.toNat_ofNat,
    Nat.mod_eq_of_lt small]

theorem decomposeScalarToBytes_bls48581 {curveOrder : ℕ}
    (value : Scalar (.bls48581 curveOrder)) (small : value.val < 256 ^ 73) (limb : ℕ) :
    decomposeScalarToBytes value limb = byteAt value.val limb := by
  have length : value.toBytes.length = 73 := by
    rw [Scalar.toBytes, List.length_reverse, List.length_map, List.length_range]
  simp only [decomposeScalarToBytes, length]
  split
  · rename_i inside
    have here : 73 - 1 - limb < value.toBytes.length := by omega
    rw [List.getD_eq_getElem _ _ here]
    simp only [Scalar.toBytes, List.getElem_reverse, List.getElem_map,
      List.getElem_range, List.length_map, List.length_range]
    congr 1
    omega
  · rename_i outside
    refine (byteAt_eq_zero (lt_of_lt_of_le small ?_)).symm
    exact Nat.pow_le_pow_right (by decide) (by omega)

theorem decomposeScalarToBytes_bls12381 (value : Scalar .bls12381) (limb : ℕ) :
    decomposeScalarToBytes value limb =
      if limb < 32 then byteAt value.val (31 - limb) else 0 := by
  have length : value.toBytes.length = 32 := by
    rw [Scalar.toBytes, List.length_map, List.length_range]
  simp only [decomposeScalarToBytes, length]
  split
  · rename_i inside
    have here : 32 - 1 - limb < value.toBytes.length := by omega
    rw [List.getD_eq_getElem _ _ here]
    simp only [Scalar.toBytes, List.getElem_map, List.getElem_range]
  · rfl

end Limbs

/-- The number whose bytes are the last serialised bytes of a scalar, from the
end. -/
def reversedLow (numLimbs value : ℕ) : ℕ :=
  ∑ k ∈ Finset.range numLimbs,
    (if k < 32 then byteAt value (31 - k) else 0).toNat * 256 ^ k

/-- Of at most sixteen limbs the last bytes are all zero. -/
theorem reversedLow_eq_zero {numLimbs value : ℕ} (few : numLimbs ≤ 16)
    (small : value < 256 ^ numLimbs) : reversedLow numLimbs value = 0 := by
  apply Finset.sum_eq_zero
  intro k member
  have inside := Finset.mem_range.1 member
  have high : byteAt value (31 - k) = 0 :=
    byteAt_eq_zero (lt_of_lt_of_le small (Nat.pow_le_pow_right (by decide) (by omega)))
  rw [high, ite_self]
  exact Nat.zero_mul _

section Complete

theorem inRange_limbs {group : LogUpGroup} {value : ℕ}
    (inRange : value < 2 ^ group.maxBits.toNat) : value < 256 ^ group.numLimbs := by
  refine lt_of_lt_of_le inRange ?_
  rw [show 256 = 2 ^ 8 from rfl, ← pow_mul]
  refine Nat.pow_le_pow_right (by decide) ?_
  rw [LogUpGroup.numLimbs]
  omega

/-- Cells that take the machine-word path, or are serialised with the highest
byte first, are cut into their own bytes. -/
theorem recompose_limbBytes {curve : CurveType} [Fact curve.order.Prime]
    {group : LogUpGroup} {value : Scalar curve}
    (inRange : value.val < 2 ^ group.maxBits.toNat)
    (plain : group.maxBits ≤ 64 ∨
      ∀ limb, decomposeScalarToBytes value limb = byteAt value.val limb) :
    recompose 256 group.numLimbs
      (fun k => ((limbBytes group value k).toNat : Scalar curve)) = value := by
  have digits : ∀ k ∈ Finset.range group.numLimbs,
      limbBytes group value k = byteAt value.val k := by
    intro k member
    rw [limbBytes]
    split
    · rename_i narrow
      have bits : group.maxBits.toNat ≤ 64 := narrow
      have position := Finset.mem_range.1 member
      rw [LogUpGroup.numLimbs] at position
      have small : value.val < 2 ^ 64 :=
        lt_of_lt_of_le inRange (Nat.pow_le_pow_right (by decide) bits)
      have word := decomposeToBytes_toU64 small (ZMod.val_lt value)
        (show k < 8 by omega)
      rwa [ZMod.natCast_zmod_val] at word
    · rename_i wide
      exact plain.resolve_left wide k
  calc recompose 256 group.numLimbs
        (fun k => ((limbBytes group value k).toNat : Scalar curve))
      = recompose 256 group.numLimbs
          (fun k => ((byteAt value.val k).toNat : Scalar curve)) := by
        refine Finset.sum_congr rfl fun k member => ?_
        simp only [digits k member]
    _ = value := recompose_byteAt (inRange_limbs inRange)

theorem recompose_limbBytes_wide {group : LogUpGroup} (value : Scalar .bls12381)
    (wide : ¬ group.maxBits ≤ 64) :
    recompose 256 group.numLimbs
      (fun k => ((limbBytes group value k).toNat : Scalar .bls12381)) =
        (reversedLow group.numLimbs value.val : Scalar .bls12381) := by
  rw [reversedLow, recompose, Nat.cast_sum]
  refine Finset.sum_congr rfl fun k _ => ?_
  rw [limbBytes, if_neg wide, decomposeScalarToBytes_bls12381, Nat.cast_mul, Nat.cast_pow]

section Rows

variable {curve : CurveType} [Fact curve.order.Prime] {groups : List LogUpGroup}
  {trace : ℕ → ℕ → Scalar curve} {domainSize : ℕ} {omega : Scalar curve}

/-- The bodies of the range checks vanish on the columns of the prover. -/
def WitnessVanishes (groups : List LogUpGroup) (trace : ℕ → ℕ → Scalar curve)
    (domainSize : ℕ) (omega gamma : Scalar curve) : Prop :=
  ∀ row < domainSize, ∀ body ∈ logupBodies groups gamma
    (lagrangeFirst domainSize (omega ^ row)) (trace row)
    (computeExtendedLogupWitness trace groups gamma domainSize row)
    (computeExtendedLogupWitness trace groups gamma domainSize
      ((row + 1) % domainSize)).sum, body = 0

/-- They vanish for every challenge that is not a byte. -/
def WitnessComplete (groups : List LogUpGroup) (trace : ℕ → ℕ → Scalar curve)
    (domainSize : ℕ) (omega : Scalar curve) : Prop :=
  ∀ gamma : Scalar curve, (∀ byte < rangeTableSize, gamma ≠ ((byte : ℕ) : Scalar curve)) →
    WitnessVanishes groups trace domainSize omega gamma

variable (root : IsPrimitiveRoot omega domainSize) (large : rangeTableSize ≤ domainSize)
  (hot : HotTrace (groups.flatMap (·.selectors)) domainSize trace)

include root large hot

theorem witnessVanishes_iff {gamma : Scalar curve}
    (apart : ∀ byte < rangeTableSize, gamma ≠ ((byte : ℕ) : Scalar curve)) :
    WitnessVanishes groups trace domainSize omega gamma ↔
      ∀ row < domainSize, ∀ group ∈ groups, groupActive group.selectors (trace row) →
        recompose 256 group.numLimbs (fun k =>
          ((limbBytes group (trace row group.columnIndex) k).toNat : Scalar curve)) =
            trace row group.columnIndex := by
  obtain ⟨active, spots⟩ := hot.exists_active
  have groupsHot : ∀ row < domainSize, ∀ group ∈ groups,
      HotRow (active row) group.selectors (trace row) := fun row inside group member =>
    (spots row inside).2.mono fun sel listed => List.mem_flatMap.2 ⟨group, member, listed⟩
  refine (extendedLogupWitness_vanishes_iff root large groupsHot apart).trans ?_
  refine forall_congr' fun row => forall_congr' fun inside => forall_congr' fun group =>
    forall_congr' fun member => ?_
  rw [(groupsHot row inside group member).groupActive_eq,
    @eq_comm _ (trace row group.columnIndex)]

end Rows

theorem natCast_rangeTableSize_ne {byte : ℕ} (small : byte < rangeTableSize) :
    ((rangeTableSize : ℕ) : Scalar .bls12381) ≠ ((byte : ℕ) : Scalar .bls12381) := by
  intro equal
  have order : rangeTableSize < CurveType.bls12381.order := by
    show 256 < bls12381Order
    decide
  have values := congrArg ZMod.val equal
  rw [ZMod.val_natCast_of_lt order, ZMod.val_natCast_of_lt (small.trans order)] at values
  exact absurd values (Nat.ne_of_gt small)

/-- The columns of the prover satisfy the range checks, unless the curve
serialises the lowest byte first and a wide cell is not its own reversal. -/
theorem logupWitness_complete_iff {curve : CurveType} [Fact curve.order.Prime]
    (fits : curve.order ≤ 256 ^ 73) {groups : List LogUpGroup}
    {trace : ℕ → ℕ → Scalar curve} {domainSize : ℕ} {omega : Scalar curve}
    (root : IsPrimitiveRoot omega domainSize) (large : rangeTableSize ≤ domainSize)
    (hot : HotTrace (groups.flatMap (·.selectors)) domainSize trace)
    (inRange : ∀ row < domainSize, ∀ group ∈ groups,
      groupActive group.selectors (trace row) →
        (trace row group.columnIndex).val < 2 ^ group.maxBits.toNat) :
    WitnessComplete groups trace domainSize omega ↔
    (curve = .bls12381 → ∀ row < domainSize, ∀ group ∈ groups,
      64 < group.maxBits → groupActive group.selectors (trace row) →
        (reversedLow group.numLimbs (trace row group.columnIndex).val : Scalar curve) =
          trace row group.columnIndex) := by
  cases curve with
  | bls48581 curveOrder =>
      refine iff_of_true (fun gamma apart => ?_) nofun
      refine (witnessVanishes_iff root large hot apart).2 fun row inside group member gated => ?_
      exact recompose_limbBytes (inRange row inside group member gated)
        (.inr (decomposeScalarToBytes_bls48581 _ (lt_of_lt_of_le (ZMod.val_lt _) fits)))
  | bls12381 =>
      constructor
      · intro vanishes _ row inside group member wide gated
        have apart := @natCast_rangeTableSize_ne
        have equal := (witnessVanishes_iff root large hot fun _ => apart).1
          (vanishes _ fun _ => apart) row inside group member gated
        rwa [recompose_limbBytes_wide _ (BitVec.not_le.2 wide)] at equal
      · intro reversed gamma apart
        refine (witnessVanishes_iff root large hot apart).2
          fun row inside group member gated => ?_
        by_cases narrow : group.maxBits ≤ 64
        · exact recompose_limbBytes (inRange row inside group member gated) (.inl narrow)
        · rw [recompose_limbBytes_wide _ narrow]
          exact reversed rfl row inside group member (BitVec.not_le.1 narrow) gated

/-- One in the first cell, zero elsewhere. -/
def unitTrace (row column : ℕ) : Scalar .bls12381 :=
  if row = 0 ∧ column = 0 then 1 else 0

theorem unitTrace_lt (row column : ℕ) {maxBits : ℕ} (positive : 0 < maxBits) :
    (unitTrace row column).val < 2 ^ maxBits := by
  have large : 1 < 2 ^ maxBits := Nat.one_lt_two_pow (Nat.pos_iff_ne_zero.1 positive)
  rw [unitTrace]
  split
  · exact lt_of_le_of_lt (le_of_eq (ZMod.val_one _)) large
  · exact lt_trans (lt_of_le_of_lt (le_of_eq ZMod.val_zero) Nat.zero_lt_one) large

theorem hotTrace_nil (domainSize : ℕ) : HotTrace [] domainSize unitTrace :=
  fun _ _ => ⟨none, fun _ member => absurd member List.not_mem_nil⟩

/-- A byte column of the second curve. -/
theorem byteWitness_complete : @WitnessComplete .bls12381 _
    [⟨0, 8, [], List.nodup_nil⟩] unitTrace 256 (rootTwoPow32 ^ 2 ^ 24) := by
  refine (@logupWitness_complete_iff .bls12381 _ (by decide)
    [⟨0, 8, [], List.nodup_nil⟩] unitTrace 256 _ domainRoot_primitive le_rfl
    (hotTrace_nil 256) ?_).2 ?_
  · intro row _ group member _
    rw [List.mem_singleton.1 member]
    exact unitTrace_lt _ _ (by decide)
  · intro _ row _ group member wide
    rw [List.mem_singleton.1 member] at wide
    exact absurd wide (by decide)

/-- A column of nine bytes that holds a one: its limbs are the last bytes of
the serialised scalar, which are all zero. -/
theorem wideWitness_rejected : ¬ @WitnessComplete .bls12381 _
    [⟨0, 72, [], List.nodup_nil⟩] unitTrace 256 (rootTwoPow32 ^ 2 ^ 24) := by
  intro vanishes
  have apart := @natCast_rangeTableSize_ne
  have equal := (@witnessVanishes_iff .bls12381 _ [⟨0, 72, [], List.nodup_nil⟩] unitTrace
    256 _ domainRoot_primitive le_rfl (hotTrace_nil 256) _ fun _ => apart).1
    (vanishes _ fun _ => apart) 0 (by decide) _ (List.mem_singleton_self _) rfl
  have small : (unitTrace 0 0).val < 256 ^ 9 :=
    lt_of_lt_of_eq (unitTrace_lt 0 0 (show 0 < 72 by decide)) (by norm_num)
  have reversed : reversedLow 9 (unitTrace 0 0).val = 0 :=
    reversedLow_eq_zero (by decide) small
  rw [recompose_limbBytes_wide _ (by decide)] at equal
  have zero : (0 : Scalar .bls12381) = 1 := by
    rw [← Nat.cast_zero, ← reversed]
    exact equal
  exact zero_ne_one zero

end Complete

end MetaVm.Zkp
