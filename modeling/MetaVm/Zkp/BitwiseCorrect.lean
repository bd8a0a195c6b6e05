import MetaVm.Zkp.BitwiseWitness
import MetaVm.Zkp.RangeChecks

namespace MetaVm.Zkp

open RunningSum

/-! Bitwise lookups accept exactly the correct rows when every looked-up row of
the table is inside the domain. -/

section Values

variable {K : Type} [Field K]

theorem recompose_natCast (base count : ℕ) (digit : ℕ → ℕ) :
    recompose base count (fun k => (digit k : K)) =
      (Digits.value base count digit : ℕ) := by
  rw [recompose, Digits.value, Nat.cast_sum]
  apply Finset.sum_congr rfl
  intro k _
  rw [Nat.cast_mul, Nat.cast_pow]

theorem BitwiseOp.apply_lt (op : BitwiseOp) {a b bits : ℕ} (aLt : a < 2 ^ bits)
    (bLt : b < 2 ^ bits) : op.apply a b < 2 ^ bits := by
  cases op with
  | and => exact Nat.and_lt_two_pow _ bLt
  | or => exact Nat.or_lt_two_pow aLt bLt
  | xor => exact Nat.xor_lt_two_pow aLt bLt

theorem NibbleGroups.two_pow_width {groups : List BitwiseLookupGroup}
    (shaped : NibbleGroups groups) {group : BitwiseLookupGroup} (member : group ∈ groups) :
    2 ^ group.widthBits.toNat = 16 ^ group.numNibbles := by
  rw [shaped.width group member, pow_mul]
  rfl

theorem NibbleGroups.two_pow_width_le {groups : List BitwiseLookupGroup}
    (shaped : NibbleGroups groups) {group : BitwiseLookupGroup} (member : group ∈ groups) :
    2 ^ group.widthBits.toNat ≤ 2 ^ 64 := by
  apply Nat.pow_le_pow_right (Nat.succ_pos _)
  rw [shaped.width group member]
  exact Nat.mul_le_mul_left 4 (shaped.narrow group member)

end Values

section Sound

variable {p : ℕ} [Fact p.Prime] {L K : Type} [Field L] [Field K] [DecidableEq K]
  [Algebra (ZMod p) L] [Algebra (ZMod p) K] [Algebra L K] [IsScalarTower (ZMod p) L K]
  {groups : List BitwiseLookupGroup} {gamma : K} {delta : L} {omega : ZMod p}
  {domainSize : ℕ} {trace : ℕ → ℕ → ZMod p} {cells : ℕ → BitwiseRow K}

omit [DecidableEq K] in
theorem eq_natCast_of_map {x : ZMod p} {n : ℕ} (equal : algebraMap (ZMod p) K x = n) :
    x = n := by
  apply (algebraMap (ZMod p) K).injective
  rw [equal, map_natCast]

omit [DecidableEq K] in
theorem selectorWeight_cast_ne_zero (large : 2 ^ 254 < p) {selectors : List ℕ}
    {active : Option ℕ} (short : selectors.length < 2 ^ 64)
    (gated : marked selectors active) : (selectorWeight selectors active : K) ≠ 0 := by
  have : CharP K p := charP_of_injective_algebraMap (algebraMap (ZMod p) K).injective p
  intro zero
  have light := (selectorWeight_le selectors active).trans (Nat.succ_le_of_lt short)
  have below : selectorWeight selectors active < p :=
    light.trans_lt (lt_trans (by norm_num) large)
  exact selectorWeight_ne_zero_iff.2 gated
    (Nat.eq_zero_of_dvd_of_lt ((CharP.cast_eq_zero_iff K p _).1 zero) below)

/-- On an active row the nibbles of a group are table rows of the domain, and
the operands and the result are what they stand for. -/
theorem BitwiseSatisfied.exists_index
    (satisfied : BitwiseSatisfied groups domainSize trace gamma (algebraMap L K delta)
      omega cells)
    (freeDelta : Transcendental (ZMod p) delta) (freeGamma : Transcendental L gamma)
    (large : 2 ^ 254 < p) (addressable : domainSize < 2 ^ 64)
    (shaped : NibbleGroups groups) {active : ℕ → Option ℕ}
    (hot : ∀ row < domainSize, ∀ group ∈ groups,
      HotRow (active row) group.selectors (trace row)) {row : ℕ}
    (inside : row < domainSize) {group : BitwiseLookupGroup} (member : group ∈ groups)
    (gated : marked group.selectors (active row)) :
    ∃ index : ℕ → ℕ, (∀ k < group.numNibbles, index k < domainSize) ∧
      (trace row group.operandAColumn).val = Digits.value 16 group.numNibbles
        (fun k => NibbleAndTableComponent.a.valueAt (index k)) ∧
      (trace row group.operandBColumn).val = Digits.value 16 group.numNibbles
        (fun k => NibbleAndTableComponent.b.valueAt (index k)) ∧
      (trace row group.resultColumn).val = group.op.apply
        (trace row group.operandAColumn).val (trace row group.operandBColumn).val := by
  obtain ⟨g, position⟩ := List.mem_iff_getElem?.1 member
  have listed : (group, g) ∈ groups.zipIdx := List.mk_mem_zipIdx_iff_getElem?.2 position
  have rows := fun k (below : k < group.numNibbles) =>
    satisfied.nibbles_in_table freeDelta freeGamma large addressable shaped hot inside
      listed gated below
  choose! index small tableA tableB tableC using rows
  let a := Digits.value 16 group.numNibbles fun k =>
    NibbleAndTableComponent.a.valueAt (index k)
  let b := Digits.value 16 group.numNibbles fun k =>
    NibbleAndTableComponent.b.valueAt (index k)
  have aLt : a < 2 ^ group.widthBits.toNat := by
    rw [shaped.two_pow_width member]
    exact Digits.value_lt fun k _ => tableA_lt _
  have bLt : b < 2 ^ group.widthBits.toNat := by
    rw [shaped.two_pow_width member]
    exact Digits.value_lt fun k _ => tableB_lt _
  have field : 2 ^ group.widthBits.toNat < p :=
    (shaped.two_pow_width_le member).trans_lt (lt_trans (by norm_num) large)
  have holds := (satisfied.rowHolds inside).nibbles _ listed
  have heavy := @selectorWeight_cast_ne_zero p _ K _ _ large group.selectors _
    (shaped.selectors group member) gated
  have open_gate : ∀ {value : K}, activeAt group.selectors
      (fun column => algebraMap (ZMod p) K (trace row column)) * value = 0 → value = 0 := by
    intro value product
    rw [activeAt_eq_selectorWeight (hot row inside group member)] at product
    exact (mul_eq_zero.1 product).resolve_left heavy
  have recomposed : ∀ {component : NibbleAndTableComponent} {nibble : ℕ → K},
      (∀ k < group.numNibbles, nibble k = (component.valueAt (index k) : ℕ)) →
      recompose 16 group.numNibbles nibble = (Digits.value 16 group.numNibbles
        fun k => component.valueAt (index k) : ℕ) := by
    intro component nibble equal
    rw [← recompose_natCast]
    refine Finset.sum_congr rfl fun k below => ?_
    rw [equal k (Finset.mem_range.1 below)]
  have operandA := sub_eq_zero.1 (open_gate holds.operandA)
  have operandB := sub_eq_zero.1 (open_gate holds.operandB)
  have result := sub_eq_zero.1 (open_gate holds.result)
  rw [recomposed tableA] at operandA
  rw [recomposed tableB] at operandB
  have conjunction : (Digits.value 16 group.numNibbles fun k =>
      NibbleAndTableComponent.c.valueAt (index k)) = a &&& b := by
    simp only [tableC_eq]
    exact @Digits.value_and_value _ _ _ 4 (fun k _ => tableA_lt _) fun k _ => tableB_lt _
  rw [recomposed tableC, conjunction, operandA, operandB, group.op.expected_eq] at result
  have valueA : (trace row group.operandAColumn).val = a := by
    rw [eq_natCast_of_map operandA, ZMod.val_natCast_of_lt (aLt.trans field)]
  have valueB : (trace row group.operandBColumn).val = b := by
    rw [eq_natCast_of_map operandB, ZMod.val_natCast_of_lt (bLt.trans field)]
  refine ⟨index, small, valueA, valueB, ?_⟩
  rw [valueA, valueB, eq_natCast_of_map result,
    ZMod.val_natCast_of_lt ((group.op.apply_lt aLt bLt).trans field)]

/-- The bodies enforce correct rows. -/
theorem BitwiseSatisfied.correct
    (satisfied : BitwiseSatisfied groups domainSize trace gamma (algebraMap L K delta)
      omega cells)
    (freeDelta : Transcendental (ZMod p) delta) (freeGamma : Transcendental L gamma)
    (large : 2 ^ 254 < p) (addressable : domainSize < 2 ^ 64)
    (shaped : NibbleGroups groups) {active : ℕ → Option ℕ}
    (hot : ∀ row < domainSize, ∀ group ∈ groups,
      HotRow (active row) group.selectors (trace row)) :
    BitwiseCorrect groups domainSize trace := by
  intro row inside group member gated
  rw [(hot row inside group member).groupActive_eq] at gated
  obtain ⟨index, _, valueA, valueB, result⟩ := satisfied.exists_index freeDelta freeGamma
    large addressable shaped hot inside member gated
  refine ⟨?_, ?_, result⟩
  · rw [valueA, shaped.two_pow_width member]
    exact Digits.value_lt fun k _ => tableA_lt _
  · rw [valueB, shaped.two_pow_width member]
    exact Digits.value_lt fun k _ => tableB_lt _

/-- The bits of a narrow operand reach the machine word. -/
theorem toU64_toNat {value : ZMod p} (narrow : value.val < 2 ^ 64) :
    (Scalar.toU64 value).toNat = value.val := by
  have word := Scalar.toU64_natCast (ZMod.val_lt value)
  rw [ZMod.natCast_zmod_val] at word
  rw [word, BitVec.toNat_ofNat, Nat.mod_eq_of_lt narrow]

/-- The bodies keep the looked-up rows inside the domain. -/
theorem BitwiseSatisfied.tableFits
    (satisfied : BitwiseSatisfied groups domainSize trace gamma (algebraMap L K delta)
      omega cells)
    (freeDelta : Transcendental (ZMod p) delta) (freeGamma : Transcendental L gamma)
    (large : 2 ^ 254 < p) (addressable : domainSize < 2 ^ 64)
    (shaped : NibbleGroups groups) {active : ℕ → Option ℕ}
    (hot : ∀ row < domainSize, ∀ group ∈ groups,
      HotRow (active row) group.selectors (trace row)) :
    TableFits groups domainSize trace := by
  have correct := satisfied.correct freeDelta freeGamma large addressable shaped hot
  intro row inside group member gated k position
  obtain ⟨narrowA, narrowB, _⟩ := correct row inside group member gated
  have wordA := toU64_toNat (narrowA.trans_le (shaped.two_pow_width_le member))
  have wordB := toU64_toNat (narrowB.trans_le (shaped.two_pow_width_le member))
  rw [(hot row inside group member).groupActive_eq] at gated
  obtain ⟨index, small, valueA, valueB, _⟩ := satisfied.exists_index freeDelta freeGamma
    large addressable shaped hot inside member gated
  have high : (aNibbleAt trace group row k).toNat =
      NibbleAndTableComponent.a.valueAt (index k) := by
    rw [aNibbleAt, decomposeToNibbles_toNat, wordA, valueA,
      Digits.digit_value (fun _ _ => tableA_lt _) position]
  have low : (bNibbleAt trace group row k).toNat =
      NibbleAndTableComponent.b.valueAt (index k) := by
    rw [bNibbleAt, decomposeToNibbles_toNat, wordB, valueB,
      Digits.digit_value (fun _ _ => tableB_lt _) position]
  rw [tableIndex, high, low]
  exact lt_of_le_of_lt (tableIndex_le _) (small k position)

end Sound

section Complete

variable {p : ℕ} [Fact p.Prime] {K : Type} [Field K] [DecidableEq K]
  [Algebra (ZMod p) K] {groups : List BitwiseLookupGroup} {gamma delta : K}
  {omega : ZMod p} {domainSize : ℕ} {trace : ℕ → ℕ → ZMod p}

omit [DecidableEq K] in
/-- The nibbles of a narrow operand stand for it. -/
theorem recompose_decomposeToNibbles {value : ZMod p} {count : ℕ}
    (small : value.val < 16 ^ count) (narrow : 16 ^ count ≤ 2 ^ 64) :
    recompose 16 count
      (fun k => ((decomposeToNibbles (Scalar.toU64 value) k).toNat : K)) =
        algebraMap (ZMod p) K value := by
  simp only [decomposeToNibbles_toNat, toU64_toNat (small.trans_le narrow)]
  rw [recompose_natCast, Digits.value_digits_of_lt small,
    ← map_natCast (algebraMap (ZMod p) K), ZMod.natCast_zmod_val]

omit [DecidableEq K] in
/-- On a correct row the nibbles of the prover hold. -/
theorem witness_nibblesHold (shaped : NibbleGroups groups)
    (correct : BitwiseCorrect groups domainSize trace) {row : ℕ} (inside : row < domainSize)
    {active : Option ℕ}
    (hot : ∀ group ∈ groups, HotRow active group.selectors (trace row))
    {entry : BitwiseLookupGroup × ℕ} (listed : entry ∈ groups.zipIdx) :
    NibblesHold entry.1 (fun column => algebraMap (ZMod p) K (trace row column))
      ((computeExtendedBitwiseWitness trace groups domainSize gamma delta row).aNibble
        entry.2)
      ((computeExtendedBitwiseWitness trace groups domainSize gamma delta row).bNibble
        entry.2)
      ((computeExtendedBitwiseWitness trace groups domainSize gamma delta row).andNibble
        entry.2) := by
  have member : entry.1 ∈ groups := List.fst_mem_of_mem_zipIdx listed
  have spots := hot entry.1 member
  cases gated : marked entry.1.selectors active with
  | false =>
      have weight := not_imp_comm.1 selectorWeight_ne_zero_iff.1 (by rw [gated]; nofun)
      have closed := @activeAt_eq_selectorWeight p _ K _ _ _ _ _ spots
      rw [weight, Nat.cast_zero] at closed
      constructor <;> rw [closed, zero_mul]
  | true =>
      obtain ⟨smallA, smallB, result⟩ := correct row inside entry.1 member
        (spots.groupActive_eq.trans gated)
      have narrow := shaped.two_pow_width_le member
      rw [shaped.two_pow_width member] at smallA smallB narrow
      have operandA : recompose 16 entry.1.numNibbles
          ((computeExtendedBitwiseWitness trace groups domainSize gamma delta
            row).aNibble entry.2) =
          algebraMap (ZMod p) K (trace row entry.1.operandAColumn) := by
        rw [← recompose_decomposeToNibbles smallA narrow]
        exact Finset.sum_congr rfl fun k _ => by rw [witness_aNibble listed]; rfl
      have operandB : recompose 16 entry.1.numNibbles
          ((computeExtendedBitwiseWitness trace groups domainSize gamma delta
            row).bNibble entry.2) =
          algebraMap (ZMod p) K (trace row entry.1.operandBColumn) := by
        rw [← recompose_decomposeToNibbles smallB narrow]
        exact Finset.sum_congr rfl fun k _ => by rw [witness_bNibble listed]; rfl
      have conjunction : recompose 16 entry.1.numNibbles
          ((computeExtendedBitwiseWitness trace groups domainSize gamma delta
            row).andNibble entry.2) =
          ((trace row entry.1.operandAColumn).val &&&
            (trace row entry.1.operandBColumn).val : ℕ) := by
        have bounded := lt_of_le_of_lt (@Nat.and_le_left
          (trace row entry.1.operandAColumn).val
          (trace row entry.1.operandBColumn).val) smallA
        have digits := (Digits.value_and 4 entry.1.numNibbles
          (trace row entry.1.operandAColumn).val
          (trace row entry.1.operandBColumn).val).trans (Nat.mod_eq_of_lt bounded)
        rw [← digits, ← recompose_natCast]
        refine Finset.sum_congr rfl fun k _ => ?_
        rw [witness_andNibble listed, BitVec.toNat_and, aNibbleAt, bNibbleAt,
          decomposeToNibbles_toNat, decomposeToNibbles_toNat,
          toU64_toNat (smallA.trans_le narrow), toU64_toNat (smallB.trans_le narrow)]
        rfl
      have word : ∀ value : ZMod p, algebraMap (ZMod p) K value = (value.val : K) := by
        intro value
        rw [← map_natCast (algebraMap (ZMod p) K), ZMod.natCast_zmod_val]
      refine ⟨?_, ?_, ?_⟩
      · rw [operandA, sub_self, mul_zero]
      · rw [operandB, sub_self, mul_zero]
      · simp only [word]
        rw [conjunction, entry.1.op.expected_eq, ← result, sub_self, mul_zero]

/-- The columns of the prover satisfy the bodies of correct rows. -/
theorem bitwiseWitness_satisfied (root : IsPrimitiveRoot omega domainSize)
    (shaped : NibbleGroups groups) {active : ℕ → Option ℕ}
    (hot : ∀ row < domainSize, ∀ group ∈ groups,
      HotRow (active row) group.selectors (trace row))
    (correct : BitwiseCorrect groups domainSize trace)
    (fits : TableFits groups domainSize trace)
    (unrepeated : Unrepeated groups domainSize trace)
    (apart : ApartFromTable gamma delta) :
    BitwiseSatisfied groups domainSize trace gamma delta omega
      (computeExtendedBitwiseWitness trace groups domainSize gamma delta) where
  vanishes row inside := by
    apply bitwiseBodies_vanish_iff.2
    refine ⟨fun entry listed => witness_nibblesHold shaped correct inside (hot row inside)
      listed, ?_, ?_, ?_, ?_⟩
    · intro entry listed k _
      have nonzero := apart.denominator_ne_zero (tableIndex trace entry.1 row k)
      have inverse := inv_mul_cancel₀ nonzero
      rw [← nibbleInverse_eq] at inverse
      rw [← inverse, witness_aNibble listed, witness_bNibble listed,
        witness_andNibble listed, witness_nibbleInverse listed]
      congr 1
      rw [← inv_inj, ← nibbleInverse_eq]
      rfl
    · exact inv_mul_cancel₀ (apart.denominator_ne_zero row)
    · refine (witness_transition_iff fits inside (hot row inside)).2
        (excessSum_eq_zero fun group member positive => ?_)
      exact (hot row inside group member).excess_eq_zero_iff.2
        (unrepeated row inside group member positive)
    · rcases Nat.eq_zero_or_pos row with rfl | later
      · exact mul_zero _
      · rw [lagrangeFirst_later root inside (Nat.pos_iff_ne_zero.1 later), zero_mul]
  tableA _ _ := rfl
  tableB _ _ := rfl
  tableC _ _ := rfl
  nibbles _ _ _ _ := ⟨_, _, _, map_natCast _ _, map_natCast _ _, map_natCast _ _⟩
  multiplicity row _ := by
    refine ⟨((activeIndices trace groups domainSize).count row : ℕ), ?_⟩
    rw [map_natCast]
    exact (bitwiseMultiplicityAt_eq row).symm

end Complete

/-- Columns that satisfy the bodies exist exactly for correct rows, and then
the prover finds them, also for challenges out of the field. -/
structure BitwiseExact {p : ℕ} [Fact p.Prime] {K : Type} [Field K] [DecidableEq K]
    [Algebra (ZMod p) K] (groups : List BitwiseLookupGroup) (domainSize : ℕ)
    (trace : ℕ → ℕ → ZMod p) (gamma delta : K) (omega : ZMod p) : Prop where
  accepts : (∃ cells, BitwiseSatisfied groups domainSize trace gamma delta omega cells) ↔
    BitwiseCorrect groups domainSize trace
  finds : (∃ cells, BitwiseSatisfied groups domainSize trace gamma delta omega cells) →
    BitwiseSatisfied groups domainSize trace gamma delta omega
      (computeExtendedBitwiseWitness trace groups domainSize gamma delta)
  challenges : (∃ cells, BitwiseSatisfied groups domainSize trace gamma delta omega cells) →
    ∀ gamma delta : ZMod p, ApartFromTable gamma delta →
      BitwiseSatisfied groups domainSize trace gamma delta omega
        (computeExtendedBitwiseWitness trace groups domainSize gamma delta)

section Correct

variable {p : ℕ} [Fact p.Prime] {L K : Type} [Field L] [Field K] [DecidableEq K]
  [Algebra (ZMod p) L] [Algebra (ZMod p) K] [Algebra L K] [IsScalarTower (ZMod p) L K]

omit [Algebra (ZMod p) K] [IsScalarTower (ZMod p) L K] [DecidableEq K] [Fact p.Prime]
  [Algebra (ZMod p) L] in
theorem apartFromTable_of_transcendental {delta : L} {gamma : K}
    (free : Transcendental L gamma) : ApartFromTable gamma (algebraMap L K delta) := by
  intro row _ equal
  apply sub_ne_zero_of_transcendental free (tableQuery delta row)
  rw [map_tableQuery, equal, sub_self]

theorem groupBitwiseDeclarations_shaped {decls : List BitwiseLookupDeclaration}
    (aligned : ∀ decl ∈ decls, 4 ∣ decl.widthBits.toNat ∧ decl.widthBits.toNat ≤ 64)
    (few : decls.length < 2 ^ 64)
    (selectors : ∀ decl ∈ decls, decl.selectors.length < 2 ^ 64) :
    NibbleGroups (groupBitwiseDeclarations decls) where
  width group member := by
    obtain ⟨decl, listed, rfl⟩ := List.mem_map.1 member
    exact (Nat.mul_div_cancel' (aligned decl listed).1).symm
  narrow group member := by
    obtain ⟨decl, listed, rfl⟩ := List.mem_map.1 member
    exact Nat.div_le_of_le_mul (aligned decl listed).2
  few := by rwa [groupBitwiseDeclarations, List.length_map]
  selectors group member := by
    obtain ⟨decl, listed, rfl⟩ := List.mem_map.1 member
    exact selectors decl listed

/-- Bitwise lookups are exact when, and only when, the looked-up rows of the
table are rows of the domain and no group lists the selector of a row twice. -/
theorem bitwiseLookup_correct_iff (large : 2 ^ 254 < p) {delta : L} {gamma : K}
    (freeDelta : Transcendental (ZMod p) delta) (freeGamma : Transcendental L gamma)
    {decls : List BitwiseLookupDeclaration}
    (aligned : ∀ decl ∈ decls, 4 ∣ decl.widthBits.toNat ∧ decl.widthBits.toNat ≤ 64)
    (few : decls.length < 2 ^ 64)
    (selectors : ∀ decl ∈ decls, decl.selectors.length < 2 ^ 64) {domainSize : ℕ}
    (addressable : domainSize < 2 ^ 64) {omega : ZMod p}
    (root : IsPrimitiveRoot omega domainSize) {trace : ℕ → ℕ → ZMod p}
    (hot : HotTrace ((groupBitwiseDeclarations decls).flatMap (·.selectors)) domainSize
      trace) :
    BitwiseExact (groupBitwiseDeclarations decls) domainSize trace gamma
      (algebraMap L K delta) omega ↔
    (BitwiseCorrect (groupBitwiseDeclarations decls) domainSize trace →
      TableFits (groupBitwiseDeclarations decls) domainSize trace ∧
      Unrepeated (groupBitwiseDeclarations decls) domainSize trace) := by
  have shaped := groupBitwiseDeclarations_shaped aligned few selectors
  generalize groupBitwiseDeclarations decls = groups at hot shaped ⊢
  obtain ⟨active, spots⟩ := hot.exists_active
  have groupsHot : ∀ row < domainSize, ∀ group ∈ groups,
      HotRow (active row) group.selectors (trace row) := fun row inside group member =>
    (spots row inside).2.mono fun sel listed => List.mem_flatMap.2 ⟨group, member, listed⟩
  constructor
  · intro exactness correct
    obtain ⟨cells, satisfied⟩ := exactness.accepts.2 correct
    have fits := satisfied.tableFits freeDelta freeGamma large addressable shaped groupsHot
    refine ⟨fits, fun row inside group member positive => ?_⟩
    have holds := (exactness.finds ⟨cells, satisfied⟩).rowHolds inside
    have zero := (witness_transition_iff fits inside (groupsHot row inside)).1
      holds.transition
    exact (groupsHot row inside group member).excess_eq_zero_iff.1
      (excess_eq_zero_of_excessSum freeGamma large shaped zero member positive)
  · intro regular
    have apart : ApartFromTable gamma (algebraMap L K delta) :=
      apartFromTable_of_transcendental freeGamma
    have sound : (∃ cells, BitwiseSatisfied groups domainSize trace gamma
        (algebraMap L K delta) omega cells) → BitwiseCorrect groups domainSize trace := by
      rintro ⟨cells, satisfied⟩
      exact satisfied.correct freeDelta freeGamma large addressable shaped groupsHot
    refine ⟨⟨sound, fun correct => ?_⟩, fun found => ?_, fun found gamma delta clear => ?_⟩
    · obtain ⟨fits, unrepeated⟩ := regular correct
      exact ⟨_, bitwiseWitness_satisfied root shaped groupsHot correct fits unrepeated
        apart⟩
    · obtain ⟨fits, unrepeated⟩ := regular (sound found)
      exact bitwiseWitness_satisfied root shaped groupsHot (sound found) fits unrepeated
        apart
    · obtain ⟨fits, unrepeated⟩ := regular (sound found)
      exact bitwiseWitness_satisfied root shaped groupsHot (sound found) fits unrepeated
        clear

end Correct

section Examples

/-- A conjunction of single nibbles on all rows. -/
def nibbleAnd : List BitwiseLookupDeclaration := [⟨0, 1, 2, 4, .and, []⟩]

/-- Every row holds the conjunction of one and zero. -/
def oneAndZero (_row column : ℕ) : Fr := if column = 0 then 1 else 0

theorem oneAndZero_correct (domainSize : ℕ) :
    BitwiseCorrect (groupBitwiseDeclarations nibbleAnd) domainSize oneAndZero := by
  intro row _ group member _
  obtain ⟨decl, listed, rfl⟩ := List.mem_map.1 member
  rw [List.mem_singleton.1 listed]
  refine ⟨?_, ?_, ?_⟩
  · exact lt_of_eq_of_lt (ZMod.val_one _) (by decide)
  · exact lt_of_eq_of_lt ZMod.val_zero (by decide)
  · exact ZMod.val_zero.trans (Nat.and_zero _).symm

/-- The pair of one and zero is the sixteenth row of the table. -/
theorem oneAndZero_tableIndex (row : ℕ) {group : BitwiseLookupGroup}
    (member : group ∈ groupBitwiseDeclarations nibbleAnd) :
    tableIndex oneAndZero group row 0 = 16 := by
  obtain ⟨decl, listed, rfl⟩ := List.mem_map.1 member
  rw [List.mem_singleton.1 listed]
  have one : (Scalar.toU64 (1 : Fr)).toNat = 1 :=
    (toU64_toNat (lt_of_eq_of_lt (ZMod.val_one _) (by decide))).trans (ZMod.val_one _)
  have zero : (Scalar.toU64 (0 : Fr)).toNat = 0 :=
    (toU64_toNat (lt_of_eq_of_lt ZMod.val_zero (by decide))).trans ZMod.val_zero
  show (decomposeToNibbles (Scalar.toU64 (1 : Fr)) 0).toNat * 16 +
    (decomposeToNibbles (Scalar.toU64 (0 : Fr)) 0).toNat = 16
  rw [decomposeToNibbles_toNat, decomposeToNibbles_toNat, one, zero]
  rfl

theorem nibbleAnd_hot (domainSize : ℕ) :
    HotTrace ((groupBitwiseDeclarations nibbleAnd).flatMap (·.selectors)) domainSize
      oneAndZero :=
  fun _ _ => ⟨none, fun _ member => absurd member List.not_mem_nil⟩

theorem nibbleAnd_narrow : ∀ decl ∈ nibbleAnd,
    4 ∣ decl.widthBits.toNat ∧ decl.widthBits.toNat ≤ 64 := by
  intro decl listed
  rw [List.mem_singleton.1 listed]
  decide

theorem nibbleAnd_selectors : ∀ decl ∈ nibbleAnd, decl.selectors.length < 2 ^ 64 := by
  intro decl listed
  rw [List.mem_singleton.1 listed]
  exact Nat.two_pow_pos 64

open Classical in
/-- A domain as long as the table. -/
theorem nibbleAnd_exact : BitwiseExact (groupBitwiseDeclarations nibbleAnd) 256 oneAndZero
    (RatFunc.X : RatFunc (RatFunc Fr)) (algebraMap (RatFunc Fr) _ RatFunc.X)
    (rootTwoPow32 ^ 2 ^ 24) := by
  refine (bitwiseLookup_correct_iff (by decide) RatFunc.transcendental_X
    RatFunc.transcendental_X nibbleAnd_narrow (by decide) nibbleAnd_selectors (by norm_num)
    domainRoot_primitive (nibbleAnd_hot 256)).2 fun _ => ⟨?_, ?_⟩
  · intro row _ group _ _ k _
    exact tableIndex_lt
  · intro row _ group member _
    obtain ⟨decl, listed, rfl⟩ := List.mem_map.1 member
    rw [List.mem_singleton.1 listed]
    exact Nat.zero_le _

open Classical in
/-- A domain of sixteen rows ends before the row that the lookup needs. -/
theorem nibbleAnd_inexact : ¬ BitwiseExact (groupBitwiseDeclarations nibbleAnd) 16
    oneAndZero (RatFunc.X : RatFunc (RatFunc Fr)) (algebraMap (RatFunc Fr) _ RatFunc.X)
    (rootTwoPow32 ^ 2 ^ 28) := by
  intro exactness
  obtain ⟨cells, satisfied⟩ := exactness.accepts.2 (oneAndZero_correct 16)
  have shaped := groupBitwiseDeclarations_shaped nibbleAnd_narrow (by decide)
    nibbleAnd_selectors
  obtain ⟨active, spots⟩ := (nibbleAnd_hot 16).exists_active
  have groupsHot : ∀ row < 16, ∀ group ∈ groupBitwiseDeclarations nibbleAnd,
      HotRow (active row) group.selectors (oneAndZero row) := fun row inside group member =>
    (spots row inside).2.mono fun sel listed => List.mem_flatMap.2 ⟨group, member, listed⟩
  have fits := satisfied.tableFits RatFunc.transcendental_X RatFunc.transcendental_X
    (by decide) (by norm_num) shaped groupsHot
  have inside := fits 0 (by decide) _ (List.mem_singleton_self _) rfl 0 (by decide)
  rw [oneAndZero_tableIndex 0 (List.mem_singleton_self _)] at inside
  exact lt_irrefl _ inside

end Examples

end MetaVm.Zkp
