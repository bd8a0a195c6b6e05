import MetaVm.Evm.Constraints.Prover

namespace MetaVm.Evm.Constraints

open Zkp

/-! Body by body, the prover's polynomial denotes the verifier's value. -/

section Agreement

variable {curve : CurveType} {z : Scalar curve} {size : ℕ}

/-- A polynomial that denotes a body, within four units. -/
abbrev BodyDenotes (z : Scalar curve) (size : ℕ) (body : Poly curve)
    (value : Scalar curve) : Prop :=
  Denotes z size 4 body value

abbrev BodyReturns (z : Scalar curve) (size : ℕ) (body : Option (Poly curve))
    (value : Scalar curve) : Prop :=
  Returns (FitsDomain size) body fun poly => BodyDenotes z size poly value

abbrev BodiesReturn (z : Scalar curve) (size : ℕ)
    (bodies : Option (List (Poly curve))) (values : List (Scalar curve)) : Prop :=
  Returns (FitsDomain size) bodies fun polys =>
    List.Forall₂ (BodyDenotes z size) polys values

theorem noWord_denotes (limb : Fin 0) :
    Denotes z size 1 ((![] : Fin 0 → Poly curve) limb)
      ((![] : Fin 0 → Scalar curve) limb) :=
  limb.elim0

theorem constant_denotes (value : Scalar curve) : Denotes z size 1 [value] value where
  eval := by simp [evalPolyAt]
  length := by simp
  positive := Nat.one_pos

/-! The prover names the four limbs, the verifier counts from the lowest one. -/

theorem columnAt_limb (limb : Fin 4) :
    columnAt colOutput0L0 limb = output0 limb ∧
      columnAt colInput0L0 limb = input0 limb ∧
      columnAt colInput1L0 limb = input1 limb ∧
      columnAt colAux0L0 limb = aux0 limb := by
  fin_cases limb <;> exact ⟨rfl, rfl, rfl, rfl⟩

theorem limbs_denote {poly : Fin 4 → Poly curve} {value : Fin 4 → Scalar curve}
    (each : ∀ limb, BodyDenotes z size (poly limb) (value limb)) :
    List.Forall₂ (BodyDenotes z size) ((List.finRange 4).map poly)
      ((List.finRange 4).map value) := by
  rw [List.forall₂_map_left_iff, List.forall₂_map_right_iff]
  exact List.forall₂_same.2 fun limb _ => each limb

theorem countedLimbs_denote {poly : Fin 4 → Poly curve} {value : ℕ → Scalar curve}
    (each : ∀ limb : Fin 4, BodyDenotes z size (poly limb) (value limb)) :
    List.Forall₂ (BodyDenotes z size) ((List.finRange 4).map poly)
      ((List.range 4).map value) := by
  have counted := limbs_denote each
  rwa [← List.map_coe_finRange_eq_range, List.map_map]

/-- A pair whose product takes the given value. -/
def PairValue (z : Scalar curve) (size : ℕ) (pair : Pair curve)
    (value : Scalar curve) : Prop :=
  ∃ gate body, PairDenotes z size gate body pair ∧ gate * body = value

theorem pairValue_of_denotes {gate body : Poly curve} {x y : Scalar curve}
    (gateSpec : Denotes z size 1 gate x) (bodySpec : BodyDenotes z size body y) :
    PairValue z size (gate, body) (x * y) :=
  ⟨x, y, ⟨gateSpec, bodySpec⟩, rfl⟩

section Bodies

variable {col : Column → Poly curve} {row : Row (Scalar curve)}
variable (column : ∀ c, Denotes z size 1 (col c) (row c))
include column

theorem word_denotes {n : ℕ} (word : Fin n → Column) (limb : Fin n) :
    Denotes z size 1 ((col ∘ word) limb) ((row ∘ word) limb) :=
  column (word limb)

theorem column_binary (c : Column) :
    BodyReturns z size (polyBinary curve (col c)) (binaryCheck (row c)) :=
  ((column c).binary (by decide)).imp fun _ product => product.cast (by decide) rfl

theorem addLimbPoly_denotes (k : Fin 4) :
    BodyDenotes z size (addLimbPoly col k) (evaluateArithAddLimbRaw row k) := by
  have sum := addCarryIn_denotes (word_denotes column aux0) k
    ((column (input0 k)).add (column (input1 k)))
  have out := ((column (aux0 k)).smul twoPow64).add (column (output0 k))
  refine (sum.sub out).cast (by decide) ?_
  exact (sub_sub _ _ _).symm

theorem subLimbPoly_denotes (k : Fin 4) :
    BodyDenotes z size (subLimbPoly col k) (evaluateArithSubLimbRaw row k) := by
  have sum := addCarryIn_denotes (word_denotes column aux0) k
    ((column (output0 k)).add (column (input1 k)))
  have out := (column (input0 k)).add ((column (aux0 k)).smul twoPow64)
  refine (sum.sub out).cast (by decide) ?_
  exact (sub_sub _ _ _).symm

theorem wordProduct_returns {m : ℕ} (x y : Fin 4 → Column)
    {r : Fin m → Poly curve} {vr : Fin m → Scalar curve}
    (rSpec : ∀ limb, Denotes z size 1 (r limb) (vr limb))
    (carry out : Fin 4 → Column) :
    BodyReturns z size
      (polyWordProduct (col ∘ x) (col ∘ y) r (col ∘ carry) (col ∘ out))
      (wordProduct (row ∘ x) (row ∘ y) vr (row ∘ carry) (row ∘ out)) :=
  (wordProduct_denotes (word_denotes column x) (word_denotes column y) rSpec
    (word_denotes column carry) (word_denotes column out)).imp
    fun _ body => body.cast (by decide) rfl

theorem productChain_returns {m : ℕ} (x y : Fin 4 → Column)
    {r : Fin m → Poly curve} {vr : Fin m → Scalar curve}
    (rSpec : ∀ limb, Denotes z size 1 (r limb) (vr limb))
    (carry : Fin 7 → Column) (p : Fin 8 → Column) :
    Returns (FitsDomain size)
      (polyProductChain (col ∘ x) (col ∘ y) r (col ∘ carry) (col ∘ p))
      fun body => Denotes z size 2 body
        (productChain (row ∘ x) (row ∘ y) vr (row ∘ carry) (row ∘ p)) :=
  productChain_denotes (word_denotes column x) (word_denotes column y) rSpec
    (word_denotes column carry) (word_denotes column p)

theorem slackChain_body (borrow slack : Fin 4 → Column) :
    Denotes z size 1
      (polySlackChain (col ∘ immediate) (col ∘ output0) (col ∘ borrow)
        (col ∘ slack))
      (slackChain (row ∘ immediate) (row ∘ output0) (row ∘ borrow)
        (row ∘ slack)) :=
  slackChain_denotes (word_denotes column immediate) (word_denotes column output0)
    (word_denotes column borrow) (word_denotes column slack)

/-- `n_is_zero` times the sum of the limbs of a word. -/
theorem zeroGate_returns (nIsZero : Column) (word : Fin 4 → Column) :
    BodyReturns z size (polyMul curve (col nIsZero) (polyLimbSum (col ∘ word)))
      (row nIsZero * limbSum (row ∘ word)) :=
  ((column nIsZero).mul (limbSum_denotes (word_denotes column word))
    (by decide)).imp fun _ product => product.cast (by decide) rfl

/-- A chain that is off where the modulus is zero. -/
theorem nonzeroGate_returns {units : ℕ} (nIsZero : Column) {body : Poly curve}
    {value : Scalar curve} (bodySpec : Denotes z size units body value)
    (bound : units ≤ 2) :
    BodyReturns z size
      (polyMul curve (polySub (onePoly curve) (col nIsZero)) body)
      ((1 - row nIsZero) * value) := by
  have gate := Denotes.one.sub (column nIsZero)
  refine (gate.mul bodySpec ?_).imp fun _ product => product.cast ?_ rfl
  · rw [max_self]
    omega
  · rw [max_self]
    omega

theorem addmodAb_denotes :
    BodyDenotes z size
      (polyAdd (polyChainSum (addmodAbLimbPoly col))
        (polyScalarMul (polySub (col colAddmodAbCarry3) (col colAddmodSHigh))
          twoPow128))
      (chainSum (addmodAbLimb row) +
        (row colAddmodAbCarry3 - row colAddmodSHigh) * twoPow128) := by
  have limb : ∀ k, Denotes z size 1 (addmodAbLimbPoly col k) (addmodAbLimb row k) := by
    intro k
    have sum := addCarryIn_denotes (word_denotes column addmodAbCarry) k
      ((column (input0 k)).add (column (input1 k)))
    exact (sum.sub (column (addmodSLow k))).sub
      ((column (addmodAbCarry k)).smul twoPow64)
  have chain := addAll_denotes (List.finRange 4) limb (zero_denotes Nat.one_pos)
  have high := ((column colAddmodAbCarry3).sub (column colAddmodSHigh)).smul
    twoPow128
  exact (chain.add high).cast (by decide) rfl

theorem subRhs_denotes {s : Poly curve} {value : Scalar curve} (k : ℕ)
    (spec : Denotes z size 1 s value) :
    Denotes z size 1 (polySubRhs (col ∘ addmodSLow) (col colAddmodSHigh) k s)
      (subRhs (row ∘ addmodSLow) (row colAddmodSHigh) k value) := by
  unfold polySubRhs subRhs
  split
  · exact subLimb_denotes (word_denotes column addmodSLow) k spec
  · split
    · exact spec.sub (column colAddmodSHigh)
    · exact spec

theorem addmodSum_denotes :
    Denotes z size 1
      (polyAdd (polyChainSum (addmodSumLimbPoly col))
        (polyScalarMul (col colAddmodSumCarry8) twoPow128))
      (chainSum (addmodSumLimb row) + row colAddmodSumCarry8 * twoPow128) := by
  have limb : ∀ k, Denotes z size 1 (addmodSumLimbPoly col k)
      (addmodSumLimb row k) := by
    intro k
    have sum := addLimb_denotes (word_denotes column output0) k
      (addLimb_denotes (word_denotes column addmodQnP) k
        (zero_denotes Nat.one_pos))
    have carried := addCarryIn_denotes (word_denotes column addmodSumCarry) k sum
    exact (subRhs_denotes column k carried).sub
      ((column (addmodSumCarry k)).smul twoPow64)
  have chain := addAll_denotes (List.finRange 9) limb (zero_denotes Nat.one_pos)
  exact chain.add ((column colAddmodSumCarry8).smul twoPow128)

theorem buildAddmodConstraintPolys_returns :
    BodiesReturn z size (buildAddmodConstraintPolys col)
      (evaluateAddmodRaw row) := by
  have binary := column_binary column
  refine (binary colAddmodAbCarry0).bind fun _ ab0 => ?_
  refine (binary colAddmodAbCarry1).bind fun _ ab1 => ?_
  refine (binary colAddmodAbCarry2).bind fun _ ab2 => ?_
  refine (binary colAddmodAbCarry3).bind fun _ ab3 => ?_
  refine (binary colAddmodSHigh).bind fun _ sHigh => ?_
  refine (productChain_returns column addmodQ immediate noWord_denotes
    addmodQnCarry addmodQnP).bind fun _ qn => ?_
  refine (nonzeroGate_returns column colAddmodNIsZero (addmodSum_denotes column)
    (by decide)).bind fun _ sum => ?_
  refine (nonzeroGate_returns column colAddmodNIsZero
    (slackChain_body column addmodSlackB addmodSlack)
    (by decide)).bind fun _ slack => ?_
  refine (binary colAddmodSlackB0).bind fun _ sb0 => ?_
  refine (binary colAddmodSlackB1).bind fun _ sb1 => ?_
  refine (binary colAddmodSlackB2).bind fun _ sb2 => ?_
  refine (binary colAddmodSlackB3).bind fun _ sb3 => ?_
  refine (binary colAddmodNIsZero).bind fun _ niz => ?_
  refine (zeroGate_returns column colAddmodNIsZero immediate).bind
    fun _ nZero => ?_
  refine (zeroGate_returns column colAddmodNIsZero output0).bind
    fun _ rZero => ?_
  exact .pure <|
    .cons (addmodAb_denotes column) <| .cons ab0 <| .cons ab1 <| .cons ab2 <|
    .cons ab3 <| .cons sHigh <| .cons (qn.cast (by decide) rfl) <| .cons sum <|
    .cons slack <| .cons sb0 <| .cons sb1 <| .cons sb2 <| .cons sb3 <|
    .cons niz <| .cons nZero <| .cons rZero .nil

theorem buildMulmodConstraintPolys_returns :
    BodiesReturn z size (buildMulmodConstraintPolys col)
      (evaluateMulmodRaw row) := by
  have binary := column_binary column
  refine (productChain_returns column input0 input1 noWord_denotes mulmodPc
    mulmodP).bind fun _ ab => ?_
  refine (productChain_returns column mulmodQ immediate
    (word_denotes column output0) mulmodSc mulmodP).bind fun _ sumBody => ?_
  refine (nonzeroGate_returns column colMulmodNIsZero sumBody (by decide)).bind
    fun _ sum => ?_
  refine (nonzeroGate_returns column colMulmodNIsZero
    (slackChain_body column mulmodSlackB mulmodSlack)
    (by decide)).bind fun _ slack => ?_
  refine (binary colMulmodSlackB0).bind fun _ sb0 => ?_
  refine (binary colMulmodSlackB1).bind fun _ sb1 => ?_
  refine (binary colMulmodSlackB2).bind fun _ sb2 => ?_
  refine (binary colMulmodSlackB3).bind fun _ sb3 => ?_
  refine (binary colMulmodNIsZero).bind fun _ niz => ?_
  refine (zeroGate_returns column colMulmodNIsZero immediate).bind
    fun _ nZero => ?_
  refine (zeroGate_returns column colMulmodNIsZero output0).bind
    fun _ rZero => ?_
  exact .pure <|
    .cons (ab.cast (by decide) rfl) <| .cons sum <| .cons slack <| .cons sb0 <|
    .cons sb1 <| .cons sb2 <| .cons sb3 <| .cons niz <| .cons nZero <|
    .cons rZero .nil

/-! SIGNEXTEND. -/

theorem byteSumPoly_denotes (count : ℕ) :
    Denotes z size 1 (byteSumPoly col count) (byteSum row count) :=
  addAll_denotes _ (fun i => (column (columnAt colSeByte0 i)).smul _)
    (zero_denotes Nat.one_pos)

theorem signextendCasePoly_denotes (k : ℕ) :
    Denotes z size 1 (signextendCasePoly col k) (signextendCase row k) := by
  have recomp := (@zero_denotes curve z size 1 Nat.one_pos).add
    ((column (columnAt colInput1L0 (k / 8))).sub (byteSumPoly_denotes column 8))
  have split := ((column (columnAt colSeByte0 (k % 8 + 1 - 1))).sub
    ((column colSeSignBit).smul 128)).sub (column colSeLow7)
  have low := addAll_denotes (List.range (k / 8))
    (fun l => (column (columnAt colOutput0L0 l)).sub (column (columnAt colInput1L0 l)))
    (recomp.add split)
  have mixed := ((column (columnAt colOutput0L0 (k / 8))).sub
    (byteSumPoly_denotes column (k % 8 + 1))).sub
    ((column colSeSignBit).smul (fillMask (k % 8 + 1) : Scalar curve))
  exact addAll_denotes (List.range' (k / 8 + 1) (4 - (k / 8 + 1)))
    (fun l => (column (columnAt colOutput0L0 l)).sub
      ((column colSeSignBit).smul (maxU64 : Scalar curve)))
    (low.add mixed)

theorem buildSignextendConstraintPoly_returns :
    BodyReturns z size (buildSignextendConstraintPoly col)
      (evaluateSignextendRaw row) := by
  refine (addAllM_denotes (List.range 31)
    (fun k => (column (columnAt colSelSe0 k)).mul
      (signextendCasePoly_denotes column k) (by decide))
    (zero_denotes (by decide))).bind fun body bodySpec => ?_
  have passed := addAll_denotes (List.range 4)
    (fun l => (column (columnAt colOutput0L0 l)).sub
      (column (columnAt colInput1L0 l))) (zero_denotes Nat.one_pos)
  refine ((column colSelSeGe31).mul passed (by decide)).bind
    fun gated gatedSpec => ?_
  exact .pure ((bodySpec.add gatedSpec).cast (by decide) rfl)

/-! Comparisons. -/

theorem upperOutputPoly_denotes :
    Denotes z size 1 (upperOutputPoly col) (upperOutput row) :=
  ((column colOutput0L1).add (column colOutput0L2)).add (column colOutput0L3)

theorem buildLessConstraintPoly_returns (x y : Fin 4 → Column) :
    BodyReturns z size (buildLessConstraintPoly col x y)
      (evaluateLessRaw row x y) := by
  have c := borrowLimb_denotes (word_denotes column x) (word_denotes column y)
    (word_denotes column aux0) (word_denotes column aux1)
  refine (column_binary column colAux0L0).bind fun _ bb0 => ?_
  refine (column_binary column colAux0L1).bind fun _ bb1 => ?_
  refine (column_binary column colAux0L2).bind fun _ bb2 => ?_
  refine (column_binary column colAux0L3).bind fun _ bb3 => ?_
  have limbs := (((c 0).add (c 1)).add (c 2)).add (c 3)
  have borrows := (((limbs.add bb0).add bb1).add bb2).add bb3
  have output := (column colOutput0L0).sub (column colAux0L3)
  exact .pure (((borrows.add output).add (upperOutputPoly_denotes column)).cast
    (by decide) rfl)

theorem buildEqConstraintPoly_returns :
    BodyReturns z size (buildEqConstraintPoly col) (evaluateEqRaw row) := by
  have eq := fun k => (column colOutput0L0).mul
    ((column (input0 k)).sub (column (input1 k))) (by decide)
  refine (column_binary column colOutput0L0).bind fun _ binary => ?_
  refine (eq 0).bind fun _ eq0 => (eq 1).bind fun _ eq1 => ?_
  refine (eq 2).bind fun _ eq2 => (eq 3).bind fun _ eq3 => ?_
  exact .pure ((((((binary.add eq0).add eq1).add eq2).add eq3).add
    (upperOutputPoly_denotes column)).cast (by decide) rfl)

theorem buildIszeroConstraintPoly_returns :
    BodyReturns z size (buildIszeroConstraintPoly col)
      (evaluateIszeroRaw row) := by
  have iz := fun k => (column colOutput0L0).mul (column (input0 k)) (by decide)
  refine (column_binary column colOutput0L0).bind fun _ binary => ?_
  refine (iz 0).bind fun _ iz0 => (iz 1).bind fun _ iz1 => ?_
  refine (iz 2).bind fun _ iz2 => (iz 3).bind fun _ iz3 => ?_
  exact .pure ((((((binary.add iz0).add iz1).add iz2).add iz3).add
    (upperOutputPoly_denotes column)).cast (by decide) rfl)

theorem compareOtherPoly_returns :
    BodyReturns z size (compareOtherPoly col) (evaluateCompareOtherRaw row) := by
  refine (column_binary column colOutput0L0).bind fun _ binary => .pure ?_
  refine (binary.add (upperOutputPoly_denotes column)).cast (by decide) ?_
  simp only [upperOutput, evaluateCompareOtherRaw]
  ring

/-! Bitwise operations and word equalities. -/

theorem andLimbPoly_denotes (limb : Fin 4) :
    BodyDenotes z size (andLimbPoly col limb) (evaluateAndLimbRaw row limb) := by
  obtain ⟨out, in0, in1, aux⟩ := columnAt_limb limb
  rw [evaluateAndLimbRaw, out, aux]
  exact ((column (output0 limb)).sub (column (aux0 limb))).cast (by decide) rfl

theorem orLimbPoly_denotes (limb : Fin 4) :
    BodyDenotes z size (orLimbPoly col limb) (evaluateOrLimbRaw row limb) := by
  obtain ⟨out, in0, in1, aux⟩ := columnAt_limb limb
  rw [evaluateOrLimbRaw, out, in0, in1, aux]
  exact ((((column (output0 limb)).sub (column (input0 limb))).sub
    (column (input1 limb))).add (column (aux0 limb))).cast (by decide) rfl

theorem xorLimbPoly_denotes (limb : Fin 4) :
    BodyDenotes z size (xorLimbPoly col limb) (evaluateXorLimbRaw row limb) := by
  obtain ⟨out, in0, in1, aux⟩ := columnAt_limb limb
  rw [evaluateXorLimbRaw, out, in0, in1, aux, mul_comm 2]
  exact ((((column (output0 limb)).sub (column (input0 limb))).sub
    (column (input1 limb))).add ((column (aux0 limb)).smul 2)).cast
      (by decide) rfl

theorem notPoly_denotes :
    BodyDenotes z size (notPoly col)
      (addAll (List.range 4) (evaluateNotLimbRaw row) 0) := by
  have limbs := addAll_denotes (List.range 4) (fun k =>
    ((column (columnAt colOutput0L0 k)).add (column (columnAt colInput0L0 k))).sub
      (constant_denotes (maxU64 : Scalar curve))) (zero_denotes Nat.one_pos)
  exact limbs.cast (by decide) rfl

theorem wordDifferencePoly_denotes (left right : Fin 4 → Column) :
    BodyDenotes z size (wordDifferencePoly col left right)
      (wordDifference row left right) :=
  (limbSum_denotes fun k => (column (left k)).sub (column (right k))).cast
    (by decide) rfl

theorem mstore8Poly_denotes :
    BodyDenotes z size (mstore8Poly col) (evaluateMstore8Raw row) := by
  have c0 := (((column colAux0L0).smul 256).add (column colMemValueL0)).sub
    (column colInput1L0)
  exact (((c0.add (column colMemValueL1)).add (column colMemValueL2)).add
    (column colMemValueL3)).cast (by decide) rfl

theorem controlPoly_denotes :
    BodyDenotes z size (controlPoly col) (evaluateControlRaw row) := by
  have c0 := (column colOutput0L0).sub (column colPc)
  exact (((c0.add (column colOutput0L1)).add (column colOutput0L2)).add
    (column colOutput0L3)).cast (by decide) rfl

/-! The gated bodies. -/

theorem pairs_value (selector : Column) {bodies : List (Poly curve)}
    {values : List (Scalar curve)}
    (spec : List.Forall₂ (BodyDenotes z size) bodies values) :
    List.Forall₂ (PairValue z size) (pairs col selector bodies)
      (gated row selector values) := by
  unfold pairs gated
  rw [List.forall₂_map_left_iff, List.forall₂_map_right_iff]
  exact spec.imp fun body value bodySpec =>
    pairValue_of_denotes (column selector) bodySpec

theorem pair_value (selector : Column) {body : Poly curve} {value : Scalar curve}
    (spec : BodyDenotes z size body value) :
    List.Forall₂ (PairValue z size) (pairs col selector [body])
      (gated row selector [value]) :=
  pairs_value column selector (.cons spec .nil)

theorem arithPairs_returns :
    Returns (FitsDomain size) (arithPairs col) fun pairs =>
      List.Forall₂ (PairValue z size) pairs (arithValues row) := by
  have binaries : List.Forall₂ (fun k k' => BodyReturns z size
      (polyBinary curve (col (aux0 k))) (evaluateCarryBinaryRaw row k'))
      (List.finRange 4) (List.finRange 4) :=
    List.forall₂_same.2 fun k _ => column_binary column (aux0 k)
  refine (Returns.mapM binaries).bind fun binaries binariesSpec => ?_
  rw [← List.forall₂_map_right_iff] at binariesSpec
  refine (wordProduct_returns column input0 input1 noWord_denotes aux1
    output0).bind fun _ mul => ?_
  refine (wordProduct_returns column output0 input1 (word_denotes column aux0)
    aux1 input0).bind fun _ div => ?_
  refine (wordProduct_returns column aux0 input1 (word_denotes column output0)
    aux1 input0).bind fun _ mod => ?_
  have add := pairs_value column colSelArithAdd (List.rel_append
    (limbs_denote (addLimbPoly_denotes column)) binariesSpec)
  have sub := pairs_value column colSelArithSub (List.rel_append
    (limbs_denote (subLimbPoly_denotes column)) binariesSpec)
  exact .pure <| List.rel_append (List.rel_append (List.rel_append (List.rel_append
    (List.rel_append (List.rel_append add sub) (pair_value column _ mul))
    (pair_value column _ div)) (pair_value column _ mod))
    (pair_value column _ div)) (pair_value column _ mod)

theorem comparePairs_returns :
    Returns (FitsDomain size) (comparePairs col) fun pairs =>
      List.Forall₂ (PairValue z size) pairs (compareValues row) := by
  refine (buildLessConstraintPoly_returns column input0 input1).bind
    fun _ lt => ?_
  refine (buildLessConstraintPoly_returns column input1 input0).bind
    fun _ gt => ?_
  refine (buildEqConstraintPoly_returns column).bind fun _ eq => ?_
  refine (buildIszeroConstraintPoly_returns column).bind fun _ iszero => ?_
  refine (compareOtherPoly_returns column).bind fun _ other => ?_
  exact .pure <| List.rel_append (List.rel_append (List.rel_append (List.rel_append
    (pair_value column _ lt) (pair_value column _ gt)) (pair_value column _ eq))
    (pair_value column _ iszero)) (pair_value column _ other)

theorem bitwisePairs_value :
    List.Forall₂ (PairValue z size) (bitwisePairs col) (bitwiseValues row) :=
  List.rel_append (List.rel_append
    (pairs_value column _ (countedLimbs_denote (andLimbPoly_denotes column)))
    (pairs_value column _ (countedLimbs_denote (orLimbPoly_denotes column))))
    (pairs_value column _ (countedLimbs_denote (xorLimbPoly_denotes column)))

theorem shiftPairs_returns :
    Returns (FitsDomain size) (shiftPairs col) fun pairs =>
      List.Forall₂ (PairValue z size) pairs (shiftValues row) := by
  have shiftDiv := wordProduct_returns column output0 immediate
    (word_denotes column aux0) aux1 input1
  refine (wordProduct_returns column input1 immediate noWord_denotes aux0
    output0).bind fun _ shl => ?_
  refine shiftDiv.bind fun _ shr => shiftDiv.bind fun _ sar => ?_
  exact .pure <| List.rel_append (List.rel_append (pair_value column _ shl)
    (pair_value column _ shr)) (pair_value column _ sar)

theorem stackPairs_value :
    List.Forall₂ (PairValue z size) (stackPairs col) (stackValues row) := by
  have difference := wordDifferencePoly_denotes column
  have pop : BodyDenotes z size (polyLimbSum (col ∘ output0)) (evaluatePopRaw row) :=
    (limbSum_denotes (word_denotes column output0)).cast (by decide) rfl
  exact List.rel_append (List.rel_append (List.rel_append
    (pair_value column _ (difference output0 immediate))
    (pair_value column _ (difference output0 input0))) (pair_value column _ pop))
    (pair_value column _ (difference output0 input1))

theorem memoryPairs_value :
    List.Forall₂ (PairValue z size) (memoryPairs col) (memoryValues row) := by
  have difference := wordDifferencePoly_denotes column
  exact List.rel_append (List.rel_append
    (pair_value column _ (difference output0 memValue))
    (pair_value column _ (difference memValue input1)))
    (pair_value column _ (mstore8Poly_denotes column))

/-- The values of all constraints with a body, in the order of the pairs. -/
def gatedValues {F : Type} [CommRing F] (row : Row F) : List F :=
  arithValues row ++ gated row colSelAddmod (evaluateAddmodRaw row) ++
    gated row colSelMulmod (evaluateMulmodRaw row) ++
    [evaluateSignextendRaw row] ++ wordValues row ++ jumpValues row ++
    notValues row

theorem allPairs_returns :
    Returns (FitsDomain size) (allPairs col) fun pairs =>
      List.Forall₂ (PairValue z size) pairs (gatedValues row) := by
  refine (arithPairs_returns column).bind fun _ arith => ?_
  refine (buildAddmodConstraintPolys_returns column).bind fun _ addmod => ?_
  refine (buildMulmodConstraintPolys_returns column).bind fun _ mulmod => ?_
  refine (buildSignextendConstraintPoly_returns column).bind fun _ sext => ?_
  refine (comparePairs_returns column).bind fun _ compare => ?_
  refine (shiftPairs_returns column).bind fun _ shift => ?_
  have word := List.rel_append (List.rel_append (List.rel_append (List.rel_append
    compare (bitwisePairs_value column)) shift) (stackPairs_value column))
    (memoryPairs_value column)
  -- the selectors of SIGNEXTEND stand inside its body
  have ungated : PairValue z size (onePoly curve, _) (evaluateSignextendRaw row) :=
    ⟨1, _, ⟨.one, sext⟩, one_mul _⟩
  exact .pure <| List.rel_append (List.rel_append (List.rel_append (List.rel_append
    (List.rel_append (List.rel_append arith (pairs_value column _ addmod))
    (pairs_value column _ mulmod)) (.cons ungated .nil)) word)
    (pair_value column _ (controlPoly_denotes column)))
    (pair_value column _ (notPoly_denotes column))

end Bodies

/-! The accumulation. The prover keeps the bodies in one list and names the runs
by their bounds; these are the verifier's runs. -/

theorem slice_front {α : Type} {front list : List α} {size first last : ℕ}
    (sizeEq : front.length = size) (inside : size ≤ first) :
    slice (front ++ list) first last = slice list (first - size) (last - size) := by
  subst sizeEq
  rw [slice, slice, List.drop_append, List.drop_eq_nil_of_le inside,
    List.nil_append, Nat.sub_sub_sub_cancel_right inside]

theorem slice_whole {α : Type} {middle back : List α} {size : ℕ}
    (sizeEq : middle.length = size) : slice (middle ++ back) 0 size = middle := by
  rw [slice, List.drop_zero, Nat.sub_zero, List.take_left' sizeEq]

section Runs

variable {F : Type} [CommRing F] (row : Row F)

theorem length_arithValues : (arithValues row).length = 21 := rfl

theorem length_addmodRun :
    (gated row colSelAddmod (evaluateAddmodRaw row)).length = 16 := rfl

theorem length_mulmodRun :
    (gated row colSelMulmod (evaluateMulmodRaw row)).length = 10 := rfl

theorem length_wordValues : (wordValues row).length = 27 := rfl

theorem length_jumpValues : (jumpValues row).length = 1 := rfl

theorem length_notValues : (notValues row).length = 1 := rfl

theorem skip_eq {S : Type} (alpha : F) (count : ℕ) (state : S × F) :
    skip alpha count state = (state.1, state.2 * alpha ^ count) := by
  have powers : ∀ (count : ℕ) (ap : F),
      (fun ap => ap * alpha)^[count] ap = ap * alpha ^ count := by
    intro count
    induction count with
    | zero =>
        intro ap
        rw [pow_zero, mul_one]
        rfl
    | succ count ih =>
        intro ap
        rw [Function.iterate_succ_apply, ih, pow_succ']
        exact mul_assoc ap alpha (alpha ^ count)
  rw [skip, powers]

theorem slice_gatedValues :
    slice (gatedValues row) 0 21 = arithValues row ∧
      slice (gatedValues row) 21 37 =
        gated row colSelAddmod (evaluateAddmodRaw row) ∧
      slice (gatedValues row) 37 47 =
        gated row colSelMulmod (evaluateMulmodRaw row) ∧
      slice (gatedValues row) 47 48 = [evaluateSignextendRaw row] ∧
      slice (gatedValues row) 48 75 = wordValues row ∧
      slice (gatedValues row) 75 76 = jumpValues row ∧
      slice (gatedValues row) 76 77 = notValues row := by
  have arith := length_arithValues row
  have addmod := length_addmodRun row
  have mulmod := length_mulmodRun row
  have word := length_wordValues row
  have jump := length_jumpValues row
  have notBody := length_notValues row
  unfold gatedValues
  generalize gated row colSelAddmod (evaluateAddmodRaw row) = addmodRun at *
  generalize gated row colSelMulmod (evaluateMulmodRaw row) = mulmodRun at *
  generalize arithValues row = arithRun at *
  generalize wordValues row = wordRun at *
  generalize jumpValues row = jumpRun at *
  generalize notValues row = notRun at *
  simp only [List.append_assoc]
  have sext : [evaluateSignextendRaw row].length = 1 := rfl
  refine ⟨?_, ?_, ?_, ?_, ?_, ?_, ?_⟩
  · exact slice_whole arith
  · rw [slice_front arith (by decide)]
    exact slice_whole addmod
  · rw [slice_front arith (by decide), slice_front addmod (by decide)]
    exact slice_whole mulmod
  · rw [slice_front arith (by decide), slice_front addmod (by decide),
      slice_front mulmod (by decide)]
    exact slice_whole sext
  · rw [slice_front arith (by decide), slice_front addmod (by decide),
      slice_front mulmod (by decide), slice_front sext (by decide)]
    exact slice_whole word
  · rw [slice_front arith (by decide), slice_front addmod (by decide),
      slice_front mulmod (by decide), slice_front sext (by decide),
      slice_front word (by decide)]
    exact slice_whole jump
  · rw [slice_front arith (by decide), slice_front addmod (by decide),
      slice_front mulmod (by decide), slice_front sext (by decide),
      slice_front word (by decide), slice_front jump (by decide), slice,
      List.drop_zero]
    exact List.take_of_length_le notBody.le

end Runs

abbrev ValueOf (z : Scalar curve) (poly : Poly curve) (value : Scalar curve) :
    Prop :=
  evalPolyAt poly z = value

/-- The prover's state, seen at `z`, is the verifier's. -/
def Tracks (z : Scalar curve) (state : Poly curve × Scalar curve)
    (value : Scalar curve × Scalar curve) : Prop :=
  (evalPolyAt state.1 z, state.2) = value

namespace Tracks

variable {state : Poly curve × Scalar curve} {value : Scalar curve × Scalar curve}

theorem initial : Tracks z (([0] : Poly curve), 1) (0, 1) := by
  simp [Tracks, evalPolyAt]

theorem skip (tracks : Tracks z state value) (alpha : Scalar curve) (count : ℕ) :
    Tracks z (skip alpha count state) (Constraints.skip alpha count value) := by
  subst tracks
  rfl

theorem run (tracks : Tracks z state value) (alpha : Scalar curve)
    {results : List (Poly curve)} {values : List (Scalar curve)}
    (spec : List.Forall₂ (ValueOf z) results values) :
    Tracks z (results.foldl (accumulatePoly curve alpha) state)
      (values.foldl (accumulate alpha) value) := by
  subst tracks
  exact foldl_accumulatePoly alpha spec state

theorem step (tracks : Tracks z state value) (alpha : Scalar curve)
    {poly : Poly curve} {added : Scalar curve} (spec : ValueOf z poly added) :
    Tracks z (accumulatePoly curve alpha state poly)
      (accumulate alpha value added) :=
  tracks.run alpha (.cons spec .nil)

end Tracks

theorem slice_values {results : List (Poly curve)}
    {values run : List (Scalar curve)} {first last : ℕ}
    (spec : List.Forall₂ (ValueOf z) results values)
    (bounds : slice values first last = run) :
    List.Forall₂ (ValueOf z) (slice results first last) run := by
  rw [← bounds]
  exact List.forall₂_take _ (List.forall₂_drop _ spec)

theorem accumulateRuns_tracks {row : Row (Scalar curve)}
    {results : List (Poly curve)}
    (spec : List.Forall₂ (ValueOf z) results (gatedValues row))
    (alpha : Scalar curve) :
    Tracks z (accumulateRuns results alpha) (evaluateRuns row alpha) := by
  obtain ⟨arith, addmod, mulmod, sext, word, jump, notBody⟩ := slice_gatedValues row
  have arithSpec := slice_values spec arith
  have addmodSpec := slice_values spec addmod
  have mulmodSpec := slice_values spec mulmod
  have sextSpec := slice_values spec sext
  have wordSpec := slice_values spec word
  have jumpSpec := slice_values spec jump
  have notSpec := slice_values spec notBody
  have first := ((Tracks.initial.run alpha arithSpec).run alpha addmodSpec).run
    alpha mulmodSpec
  have second := ((first.skip alpha 1).run alpha sextSpec).run alpha wordSpec
  have third := (second.skip alpha 1).run alpha jumpSpec
  have last := (third.skip alpha 1).run alpha notSpec
  exact ((last.skip alpha 8).skip alpha 2).skip alpha 6

theorem binaryPolys_returns {col : Column → Poly curve} {row : Row (Scalar curve)}
    (column : ∀ c, Denotes z size 1 (col c) (row c)) (selectors : List Column) :
    Returns (FitsDomain size) (binaryPolys col selectors) fun binaries =>
      List.Forall₂ (ValueOf z) binaries (binaryValues row selectors) := by
  have each : List.Forall₂ (fun si si' => Returns (FitsDomain size)
      (polyBinary curve (col si)) fun c => ValueOf z c (row si' * (row si' - 1)))
      selectors selectors :=
    List.forall₂_same.2 fun si _ =>
      (column_binary column si).imp fun _ binary => binary.eval
  refine (Returns.mapM each).imp fun binaries spec => ?_
  rwa [binaryValues, List.forall₂_map_right_iff]

theorem polyAddAll_nonempty {ι : Type} (ks : List ι) (term : ι → Poly curve)
    (s : Poly curve) (nonempty : 0 < s.length) :
    0 < (polyAddAll ks term s).length := by
  induction ks generalizing s with
  | nil => exact nonempty
  | cons k rest ih =>
      refine ih _ ?_
      rw [length_polyAdd]
      omega

theorem buildConstraintPolynomial_returns {col : Column → Poly curve}
    {row : Row (Scalar curve)} (column : ∀ c, Denotes z size 1 (col c) (row c))
    (alpha : Scalar curve) :
    Returns (FitsDomain size) (buildConstraintPolynomial col alpha)
      fun c => evalPolyAt c z = evaluateAtPoint row alpha := by
  refine (allPairs_returns column).bind fun pairs pairsSpec => ?_
  have products : List.Forall₂ (fun (pair : Pair curve) value =>
      Returns (FitsDomain size) (polyMul curve pair.1 pair.2) fun c =>
        ValueOf z c value) pairs (gatedValues row) := by
    refine pairsSpec.imp fun pair value spec => ?_
    obtain ⟨gate, body, denotes, productEq⟩ := spec
    exact (denotes.gate.mul denotes.body (by decide)).imp fun c product =>
      product.eval.trans productEq
  refine (Returns.mapM products).bind fun gatedResults gatedSpec => ?_
  refine (binaryPolys_returns column selectorColumnIndices).bind
    fun binaries binariesSpec => ?_
  refine (binaryPolys_returns column caseSelectorIndices).bind
    fun cases casesSpec => .pure ?_
  have tracks := accumulateRuns_tracks gatedSpec alpha
  have selSum := addAll_denotes selectorColumnIndices column
    (zero_denotes Nat.one_pos)
  have nonempty := polyAddAll_nonempty selectorColumnIndices col [0]
    (Nat.succ_pos _)
  have sumMinusOne := evalPolyAt_subOneFromConstant
    (polyAddAll selectorColumnIndices col [0]) nonempty z
  rw [selSum.eval] at sumMinusOne
  have caseSum := addAll_denotes caseSelectorIndices column
    (zero_denotes Nat.one_pos)
  have binding := ((column colSelSignextend).sub caseSum).eval
  have tracks := ((tracks.run alpha binariesSpec).step alpha sumMinusOne).run
    alpha casesSpec
  exact congrArg Prod.fst (tracks.step alpha binding)

end Agreement

end MetaVm.Evm.Constraints
