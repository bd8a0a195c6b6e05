import MetaVm.Sbf.Constraints.Prover

namespace MetaVm.Sbf.Constraints

open Zkp CoeffList SelectorSystem

/-! Prover and verifier agree: the polynomials the prover builds evaluate at every
point to what the verifier computes from the column evaluations. -/

section Agreement

variable {curve : CurveType} {z : Scalar curve} {size : ℕ}

/-- A constraint without the two bodies that are left to the oracle. -/
def bodiedConstraints : List (Gated Column (Scalar curve)) :=
  gatedConstraints.take 21 ++ gatedConstraints.drop 23

section Blocks

variable {col : Column → Poly curve} {row : Row (Scalar curve)}
variable (column : ∀ c, Denotes z size 1 (col c) (row c))
include column

theorem addPair_spec :
    BlockDenotes z size (row colSelAluAdd) (evaluateAluAddMainRaw row)
      (some (addPair col)) :=
  .pure ⟨column colSelAluAdd, (((column colDstValBefore).add (column colSrcVal)).sub
    (((column colAux0).smul _).add (column colDstValAfter))).cast (by decide) rfl⟩

theorem subPair_spec :
    BlockDenotes z size (row colSelAluSub) (evaluateAluSubMainRaw row)
      (some (subPair col)) :=
  .pure ⟨column colSelAluSub, (((column colDstValAfter).add (column colSrcVal)).sub
    ((column colDstValBefore).add ((column colAux0).smul _))).cast (by decide) rfl⟩

theorem movPair_spec :
    BlockDenotes z size (row colSelAluMov) (evaluateAluMovRaw row)
      (some (movPair col)) :=
  .pure ⟨column colSelAluMov,
    ((column colDstValAfter).sub (column colSrcVal)).cast (by decide) rfl⟩

theorem mulPair_spec :
    BlockDenotes z size (row colSelAluMul) (evaluateAluMulRaw row) (mulPair col) := by
  refine ((column colDstValBefore).mul (column colSrcVal) (by decide)).bind
    fun product productSpec => ?_
  exact .pure ⟨column colSelAluMul, (productSpec.sub
    (((column colAux0).smul _).add (column colDstValAfter))).cast (by decide) rfl⟩

theorem divisionPair_spec (selector quotient remainder : Column) :
    BlockDenotes z size (row selector)
      (row quotient * row colSrcVal + row remainder - row colDstValBefore)
      (divisionPair col selector quotient remainder) := by
  refine ((column quotient).mul (column colSrcVal) (by decide)).bind
    fun prod prodSpec => ?_
  exact .pure ⟨column selector, ((prodSpec.add (column remainder)).sub
    (column colDstValBefore)).cast (by decide) rfl⟩

theorem andPair_spec :
    BlockDenotes z size (row colSelAluAnd) (evaluateAluAndRaw row)
      (some (andPair col)) :=
  .pure ⟨column colSelAluAnd,
    ((column colDstValAfter).sub (column colAux0)).cast (by decide) rfl⟩

theorem orPair_spec :
    BlockDenotes z size (row colSelAluOr) (evaluateAluOrRaw row)
      (some (orPair col)) :=
  .pure ⟨column colSelAluOr, ((((column colDstValAfter).sub
    (column colDstValBefore)).sub (column colSrcVal)).add
      (column colAux0)).cast (by decide) rfl⟩

theorem xorPair_spec :
    BlockDenotes z size (row colSelAluXor) (evaluateAluXorRaw row)
      (some (xorPair col)) := by
  refine .pure ⟨column colSelAluXor, ((((column colDstValAfter).sub
    (column colDstValBefore)).sub (column colSrcVal)).add
      ((column colAux0).smul _)).cast (by decide) ?_⟩
  rw [Scalar.fromU64_two, mul_comm (row colAux0) 2]
  rfl

theorem lshPair_spec :
    BlockDenotes z size (row colSelAluLsh) (evaluateAluLshRaw row) (lshPair col) := by
  refine ((column colDstValBefore).mul (column colAux0) (by decide)).bind
    fun product productSpec => ?_
  refine .pure ⟨column colSelAluLsh, (productSpec.sub
    (((column colAux1).smul _).add (column colDstValAfter))).cast (by decide) ?_⟩
  exact (sub_sub _ _ _).symm

theorem rshPair_spec :
    BlockDenotes z size (row colSelAluRsh) (evaluateAluRshRaw row) (rshPair col) := by
  refine ((column colDstValAfter).mul (column colAux0) (by decide)).bind
    fun product productSpec => ?_
  exact .pure ⟨column colSelAluRsh, ((productSpec.add (column colAux1)).sub
    (column colDstValBefore)).cast (by decide) rfl⟩

theorem arshPair_spec :
    BlockDenotes z size (row colSelAluArsh) (evaluateAluArshRaw row)
      (arshPair col) := by
  refine ((column colDstValAfter).mul (column colAux0) (by decide)).bind
    fun product productSpec => ?_
  exact .pure ⟨column colSelAluArsh, (((productSpec.add (column colAux1)).sub
    (column colDstValBefore)).sub ((column colAux2).smul _)).cast (by decide) rfl⟩

/-- The shared branch terms, with what they evaluate to. -/
structure BranchTermsDenote (z : Scalar curve) (size : ℕ)
    (row : Row (Scalar curve)) (terms : BranchTerms curve) : Prop where
  diffTaken : Denotes z size 1 terms.diffTaken (diffTaken row)
  diffNotTaken : Denotes z size 1 terms.diffNotTaken (diffNotTaken row)
  targetCheck : Denotes z size 2 terms.targetCheck (targetCheck row)
  aux1Binary : Denotes z size 2 terms.aux1Binary (binaryCheck (row colAux1))
  oneMAux1 : Denotes z size 1 terms.oneMAux1 (1 - row colAux1)
  dstSrcDiff : Denotes z size 1 terms.dstSrcDiff (row colDstValBefore - row colSrcVal)

omit column in
theorem insnSize_denotes :
    Denotes z size 1 [(Scalar.fromU64 8 : Scalar curve)] bpfInsnSize where
  eval := by simp [evalPolyAt, Scalar.fromU64, bpfInsnSize]
  length := by simp
  positive := Nat.one_pos

theorem branchTerms_spec :
    Returns (FitsDomain size) (branchTerms col) (BranchTermsDenote z size row) := by
  have taken := (column colNextPc).sub ((column colPc).add (column colImmediate))
  have notTaken := (column colNextPc).sub ((column colPc).add insnSize_denotes)
  refine (taken.mul notTaken (by decide)).bind fun target targetSpec => ?_
  refine ((column colAux1).binary (by decide)).bind fun binary binarySpec => ?_
  exact .pure ⟨taken, notTaken, targetSpec, binarySpec,
    Denotes.one.sub (column colAux1), (column colDstValBefore).sub (column colSrcVal)⟩

section Branches

variable {terms : BranchTerms curve} (branch : BranchTermsDenote z size row terms)
include branch

theorem branchEqPair_spec :
    BlockDenotes z size (row colSelBranchEq) (evaluateBranchEqRaw row)
      (branchEqPair col terms) := by
  refine (branch.diffNotTaken.mul (column colAux1) (by decide)).bind
    fun c1 c1Spec => ?_
  refine (branch.diffTaken.mul branch.oneMAux1 (by decide)).bind
    fun c2 c2Spec => ?_
  refine (branch.oneMAux1.mul branch.dstSrcDiff (by decide)).bind
    fun c3 c3Spec => ?_
  have body := (((branch.targetCheck.add c1Spec).add c2Spec).add c3Spec).add
    branch.aux1Binary
  refine .pure ⟨column colSelBranchEq, ?_⟩
  dsimp only
  exact body.cast (by decide) rfl

theorem branchNeqPair_spec :
    BlockDenotes z size (row colSelBranchNeq) (evaluateBranchNeqRaw row)
      (branchNeqPair col terms) := by
  refine (branch.diffNotTaken.mul branch.oneMAux1 (by decide)).bind
    fun c1 c1Spec => ?_
  refine (branch.diffTaken.mul (column colAux1) (by decide)).bind
    fun c2 c2Spec => ?_
  refine (branch.oneMAux1.mul branch.dstSrcDiff (by decide)).bind
    fun c3 c3Spec => ?_
  have body := (((branch.targetCheck.add c1Spec).add c2Spec).add c3Spec).add
    branch.aux1Binary
  refine .pure ⟨column colSelBranchNeq, ?_⟩
  dsimp only
  exact body.cast (by decide) rfl

theorem branchLtPair_spec :
    BlockDenotes z size (row colSelBranchLt) (evaluateBranchLtRaw row)
      (branchLtPair col terms) := by
  refine (branch.diffNotTaken.mul branch.oneMAux1 (by decide)).bind
    fun c1 c1Spec => ?_
  refine (branch.diffTaken.mul (column colAux1) (by decide)).bind
    fun c2 c2Spec => ?_
  exact .pure ⟨column colSelBranchLt, (((branch.targetCheck.add c1Spec).add
    c2Spec).add branch.aux1Binary).cast (by decide) rfl⟩

theorem branchGePair_spec :
    BlockDenotes z size (row colSelBranchGe) (evaluateBranchGeRaw row)
      (branchGePair col terms) := by
  refine (branch.diffNotTaken.mul (column colAux1) (by decide)).bind
    fun c1 c1Spec => ?_
  refine (branch.diffTaken.mul branch.oneMAux1 (by decide)).bind
    fun c2 c2Spec => ?_
  exact .pure ⟨column colSelBranchGe, (((branch.targetCheck.add c1Spec).add
    c2Spec).add branch.aux1Binary).cast (by decide) rfl⟩

theorem branchOtherPair_spec :
    BlockDenotes z size (row colSelBranchOther) (evaluateBranchesRaw row)
      (some (branchOtherPair col terms)) :=
  .pure ⟨column colSelBranchOther,
    (branch.targetCheck.add branch.aux1Binary).cast (by decide) rfl⟩

end Branches

theorem accessPair_spec (selector base written read : Column) :
    BlockDenotes z size (row selector)
      (row colMemAddr - (row base + row colImmediate) + (row written - row read))
      (some (accessPair col selector base written read)) :=
  .pure ⟨column selector, (((column colMemAddr).sub ((column base).add
    (column colImmediate))).add ((column written).sub (column read))).cast
      (by decide) rfl⟩

theorem aux0BinaryPair_spec (selector : Column) :
    BlockDenotes z size (row selector) (evaluateAux0BinaryRaw row)
      (aux0BinaryPair col selector) := by
  refine ((column colAux0).binary (by decide)).bind fun binary binarySpec => ?_
  exact .pure ⟨column selector, binarySpec.cast (by decide) rfl⟩

theorem negPair_spec :
    BlockDenotes z size (row colSelAluOther) (evaluateAluNegRaw row)
      (negPair col) := by
  refine ((column colAux0).binary (by decide)).bind fun binary binarySpec => ?_
  exact .pure ⟨column colSelAluOther, ((((column colDstValAfter).add
    (column colDstValBefore)).sub ((column colAux0).smul _)).add
      binarySpec).cast (by decide) rfl⟩

/-- Block by block, the prover's list is the verifier's list. -/
theorem pairBlocks_spec {terms : BranchTerms curve}
    (branch : BranchTermsDenote z size row terms) :
    List.Forall₂ (fun block (constraint : Gated Column (Scalar curve)) =>
        BlockDenotes z size (row constraint.selector) (constraint.body row) block)
      (pairBlocks col terms) bodiedConstraints :=
  .cons (addPair_spec column) <|
  .cons (subPair_spec column) <|
  .cons (movPair_spec column) <|
  .cons (mulPair_spec column) <|
  .cons (divisionPair_spec column colSelAluDiv colDstValAfter colAux0) <|
  .cons (divisionPair_spec column colSelAluMod colAux0 colDstValAfter) <|
  .cons (andPair_spec column) <|
  .cons (orPair_spec column) <|
  .cons (xorPair_spec column) <|
  .cons (lshPair_spec column) <|
  .cons (rshPair_spec column) <|
  .cons (arshPair_spec column) <|
  .cons (branchEqPair_spec column branch) <|
  .cons (branchNeqPair_spec column branch) <|
  .cons (branchLtPair_spec column branch) <|
  .cons (branchGePair_spec column branch) <|
  .cons (branchOtherPair_spec column branch) <|
  .cons (accessPair_spec column colSelLoad colSrcVal colDstValAfter colMemVal) <|
  .cons (accessPair_spec column colSelStore colDstValBefore colMemVal colSrcVal) <|
  .cons (aux0BinaryPair_spec column colSelAluAdd) <|
  .cons (aux0BinaryPair_spec column colSelAluSub) <|
  .cons (negPair_spec column) .nil

end Blocks

/-! The accumulation loops, followed value by value. -/

theorem length_frontConstraints :
    ((gatedConstraints : List (Gated Column (Scalar curve))).take 21).length = 21 :=
  rfl

/-- On the verifier's side the two powers of the oracle go to zero bodies. -/
theorem gatedConstraints_values (row : Row (Scalar curve)) :
    gatedConstraints.map (fun constraint => constraint.eval row) =
      (bodiedConstraints.take 21).map (fun constraint => constraint.eval row) ++
        ([0, 0] ++
          (bodiedConstraints.drop 21).map fun constraint => constraint.eval row) := by
  have front : (bodiedConstraints : List (Gated Column (Scalar curve))).take 21 =
      gatedConstraints.take 21 := List.take_left' length_frontConstraints
  have back : (bodiedConstraints : List (Gated Column (Scalar curve))).drop 21 =
      gatedConstraints.drop 23 := List.drop_left' length_frontConstraints
  have oracle : ((gatedConstraints : List (Gated Column (Scalar curve))).drop 21) =
      [⟨colSelCall, evaluateCallRaw⟩, ⟨colSelExit, evaluateExitRaw⟩] ++
        gatedConstraints.drop 23 := rfl
  have call : Gated.eval ⟨colSelCall, evaluateCallRaw⟩ row = 0 := mul_zero _
  have exit : Gated.eval ⟨colSelExit, evaluateExitRaw⟩ row = 0 := mul_zero _
  have rest : (gatedConstraints.drop 21).map (fun constraint => constraint.eval row) =
      [0, 0] ++ (gatedConstraints.drop 23).map fun constraint => constraint.eval row := by
    rw [oracle, List.map_append, List.map_cons, List.map_cons, List.map_nil, call, exit]
  rw [front, back, ← rest, ← List.map_append, List.take_append_drop]

theorem foldl_gatedConstraints (row : Row (Scalar curve)) (alpha : Scalar curve) :
    gatedConstraints.foldl (fun state constraint =>
        accumulate alpha state (constraint.eval row)) (0, 1) =
      ((bodiedConstraints.drop 21).map fun constraint => constraint.eval row).foldl
        (accumulate alpha)
        (((bodiedConstraints.take 21).map fun constraint => constraint.eval row).foldl
            (accumulate alpha) (0, 1) |> fun state =>
          (state.1, state.2 * alpha * alpha)) := by
  have skip : ∀ state : Scalar curve × Scalar curve,
      accumulate alpha state 0 = (state.1, state.2 * alpha) := by
    intro state
    rw [accumulate, zero_mul, add_zero]
  have folded : (gatedConstraints.map fun constraint => constraint.eval row).foldl
      (accumulate alpha) (0, 1) =
        gatedConstraints.foldl (fun state constraint =>
          accumulate alpha state (constraint.eval row)) (0, 1) :=
    List.foldl_map
  rw [← folded, gatedConstraints_values, List.foldl_append, List.foldl_append,
    List.foldl_cons, List.foldl_cons, List.foldl_nil, skip, skip]

theorem accumulateGated_tracks {row : Row (Scalar curve)}
    {gatedResults : List (Poly curve)}
    (spec : List.Forall₂ (fun poly constraint =>
      evalPolyAt poly z = constraint.eval row) gatedResults bodiedConstraints)
    (alpha : Scalar curve) :
    (evalPolyAt (accumulateGated gatedResults alpha).1 z,
        (accumulateGated gatedResults alpha).2) =
      gatedConstraints.foldl (fun state constraint =>
        accumulate alpha state (constraint.eval row)) (0, 1) := by
  have length : gatedResults.length = 22 := spec.length_eq
  have single : (gatedResults[21]?).toList = gatedResults.drop 21 := by
    rw [← List.head?_drop, ← List.take_one]
    exact List.take_of_length_le (by rw [List.length_drop, length])
  have front := foldl_accumulatePoly alpha
    (List.forall₂_map_right_iff.2 (List.forall₂_take 21 spec)) ([0], 1)
  have zero : evalPolyAt [(0 : Scalar curve)] z = 0 := by simp [evalPolyAt]
  rw [zero] at front
  rw [accumulateGated, single, foldl_accumulatePoly alpha
    (List.forall₂_map_right_iff.2 (List.forall₂_drop 21 spec)),
    foldl_gatedConstraints, ← front]

theorem selectorSum_spec (col : Column → Poly curve) (z : Scalar curve)
    (selectors : List Column) (sum : Poly curve) (nonempty : 0 < sum.length) :
    0 < (selectors.foldl (fun sum si => polyAdd sum (col si)) sum).length ∧
      evalPolyAt (selectors.foldl (fun sum si => polyAdd sum (col si)) sum) z =
        selectors.foldl (fun sum si => sum + evalPolyAt (col si) z)
          (evalPolyAt sum z) := by
  induction selectors generalizing sum with
  | nil => exact ⟨nonempty, rfl⟩
  | cons head rest ih =>
      obtain ⟨lengthPos, evalEq⟩ := ih (polyAdd sum (col head))
        (by rw [length_polyAdd]; omega)
      refine ⟨lengthPos, ?_⟩
      rw [List.foldl_cons, evalEq, List.foldl_cons]
      simp [evalPolyAt_eq]

theorem buildConstraintPolynomial_returns {col : Column → Poly curve}
    (column : ∀ c, Denotes z size 1 (col c) (evalPolyAt (col c) z))
    (alpha : Scalar curve) :
    Returns (FitsDomain size) (buildConstraintPolynomial col alpha) fun c =>
      evalPolyAt c z =
        combineConstraints (fun column => evalPolyAt (col column) z) alpha := by
  refine (branchTerms_spec column).bind fun terms branch => ?_
  refine (Returns.mapM (pairBlocks_spec column branch)).bind fun pairs pairsSpec => ?_
  have products : List.Forall₂ (fun (pair : Pair curve) constraint =>
      Returns (FitsDomain size) (polyMul curve pair.1 pair.2) fun c =>
        evalPolyAt c z = constraint.eval fun column => evalPolyAt (col column) z)
      pairs bodiedConstraints :=
    pairsSpec.imp fun pair constraint spec =>
      (spec.gate.mul spec.body (by decide)).imp fun c product => product.eval
  refine (Returns.mapM products).bind fun gatedResults gatedSpec => ?_
  have binaries : List.Forall₂
      (fun si si' => Returns (FitsDomain size) (polyBinary curve (col si)) fun c =>
        evalPolyAt c z = evalPolyAt (col si') z * (evalPolyAt (col si') z - 1))
      selectorColumnIndices selectorColumnIndices :=
    List.forall₂_same.2 fun si _ =>
      ((column si).binary (by decide)).imp fun c product => product.eval
  refine (Returns.mapM binaries).bind fun binaryResults binariesSpec => .pure ?_
  have gated := accumulateGated_tracks gatedSpec alpha
  have binary := foldl_accumulatePoly alpha
    (List.forall₂_map_right_iff.2 binariesSpec) (accumulateGated gatedResults alpha)
  rw [gated, List.foldl_map] at binary
  obtain ⟨sumPos, sumEq⟩ := selectorSum_spec col z selectorColumnIndices [0] (by simp)
  have zero : evalPolyAt [(0 : Scalar curve)] z = 0 := by simp [evalPolyAt]
  have last := evalPolyAt_subOneFromConstant _ sumPos z
  rw [sumEq, zero] at last
  have resultEq := congrArg Prod.fst binary
  have powerEq := congrArg Prod.snd binary
  dsimp only at resultEq powerEq
  rw [evalPolyAt_eq, toPoly_polyAdd, toPoly_polyScalarMul, Polynomial.eval_add,
    Polynomial.eval_mul, Polynomial.eval_C, ← evalPolyAt_eq, ← evalPolyAt_eq, last,
    resultEq, powerEq]
  rfl

theorem buildShiftedConstraintPolynomial_eval (col : Column → Poly curve)
    (alpha z omega : Scalar curve) (domainSize : ℕ+) (alphaOffset : ℕ) :
    evalPolyAt (buildShiftedConstraintPolynomial col alpha domainSize omega alphaOffset)
        z =
      evaluateShiftedAtPoint (fun column => evalPolyAt (col column) z)
        [evalPolyAt (col colPc) (omega * z)] z (omega ^ (domainSize - 1 : ℕ)) alpha
        alphaOffset := by
  have last : powerLoop 1 omega (domainSize - 1 : ℕ) = omega ^ (domainSize - 1 : ℕ) := by
    rw [powerLoop_eq, one_mul]
  rw [buildShiftedConstraintPolynomial, last, evaluateShiftedAtPoint, evalPolyAt_eq,
    toPoly_polyScalarMul, (polyMulLinear_spec _ _).2, toPoly_polySub,
    ← evalPolyAt_polyShift]
  simp only [evalPolyAt_eq, Polynomial.eval_mul, Polynomial.eval_sub, Polynomial.eval_C,
    Polynomial.eval_X]
  ring

/-- Prover and verifier use the same constraints: whatever polynomials are built
from the columns evaluate at `z` to the verifier's combinations of the columns at
`z` and of the program counter at `omega * z`, and they are built unless a column is
longer than the largest transform domain can multiply. -/
theorem sbfConstraintPolynomials_agree (col : Column → Poly curve)
    (alpha z omega : Scalar curve) (domainSize : ℕ+) (alphaOffset : ℕ) :
    (∀ c, buildConstraintPolynomial col alpha = some c →
      evalPolyAt c z =
        evaluateAtPoint (List.ofFn fun column => evalPolyAt (col column) z) alpha) ∧
      evalPolyAt
          (buildShiftedConstraintPolynomial col alpha domainSize omega alphaOffset) z =
        evaluateShiftedAtPoint (fun column => evalPolyAt (col column) z)
          [evalPolyAt (col colPc) (omega * z)] z (omega ^ (domainSize - 1 : ℕ)) alpha
          alphaOffset ∧
      ((∀ column, (col column).length < 2 ^ 29) →
        (buildConstraintPolynomial col alpha).isSome) := by
  have column : ∀ size, (∀ c, (col c).length ≤ size) → ∀ c,
      Denotes z size 1 (col c) (evalPolyAt (col c) z) := by
    intro size bounded c
    have := bounded c
    exact ⟨rfl, by omega, Nat.one_pos⟩
  refine ⟨?_, buildShiftedConstraintPolynomial_eval col alpha z omega domainSize
    alphaOffset, fun short => ?_⟩
  · obtain ⟨size, bounded⟩ : ∃ size, ∀ c, (col c).length ≤ size :=
      ⟨Finset.univ.sup fun c => (col c).length, fun c =>
        @Finset.le_sup _ _ _ _ _ (fun c => (col c).length) c (Finset.mem_univ c)⟩
    rw [evaluateAtPoint_ofFn]
    exact (buildConstraintPolynomial_returns (column size bounded) alpha).sound
  · have bounded : ∀ c, (col c).length ≤ 2 ^ 29 - 1 := fun c =>
      Nat.le_sub_one_of_lt (short c)
    refine (buildConstraintPolynomial_returns (column _ bounded) alpha).total ?_
    norm_num [FitsDomain, maxLogDomain]

end Agreement

end MetaVm.Sbf.Constraints
