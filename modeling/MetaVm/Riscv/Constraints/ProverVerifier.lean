import MetaVm.Riscv.Constraints.Prover

namespace MetaVm.Zkp.Denotes

open Riscv.Constraints

/-! Prover and verifier agree: the polynomial the prover builds evaluates at
every point to what the verifier computes from the column evaluations. -/

variable {curve : CurveType} {z : Scalar curve} {size n : ℕ}
variable {a b : Poly curve} {x y : Scalar curve}

theorem binaryCheck (spec : Denotes z size n a x) (bound : n + max n 1 ≤ 8) :
    Returns (FitsDomain size) (polyBinary curve a)
      fun c => Denotes z size (n + max n 1) c (Riscv.Constraints.binaryCheck x) :=
  spec.binary bound

theorem signedLt {c : Poly curve} {w : Scalar curve}
    (borrow : Denotes z size 1 a x) (signA : Denotes z size 1 b y)
    (signB : Denotes z size 1 c w) :
    Returns (FitsDomain size) (polySignedLt curve a b c)
      fun d => Denotes z size 3 d (Riscv.Constraints.signedLt x y w) := by
  refine (signA.mul (one.sub signB) (by decide)).bind fun term1 term1Spec => ?_
  refine (signA.mul signB (by decide)).bind fun both bothSpec => ?_
  refine ((((one.sub signA).sub signB).add (bothSpec.smul _)).mul borrow
    (by decide)).bind fun term2 term2Spec => ?_
  refine .pure ((term1Spec.add term2Spec).cast (by decide) ?_)
  simp only [Riscv.Constraints.signedLt, Scalar.fromU64_two]
  ring

theorem wordTruncation {c d : Poly curve} {v w : Scalar curve}
    (value : Denotes z size n a x) (upper : Denotes z size 1 b y)
    (result : Denotes z size 1 c v) (sign : Denotes z size 1 d w)
    (bound : n ≤ 2) :
    Returns (FitsDomain size) (polyWordTruncation curve a b c d)
      fun e => Denotes z size 2 e (Riscv.Constraints.wordTruncation x y v w) := by
  refine (sign.binaryCheck (by decide)).bind fun signBinary signSpec => ?_
  refine .pure (((((value.sub (upper.smul _)).sub result).add
    (sign.smul _)).add signSpec).cast ?_ rfl)
  have := value.positive
  omega

end MetaVm.Zkp.Denotes

namespace MetaVm.Riscv.Constraints

open Zkp CoeffList Polynomial

section Accumulation

variable {F : Type} [CommRing F]

theorem evaluateAtPointExtended_eq (row : Row F) (alpha : F) :
    evaluateAtPointExtended row alpha =
      evalPolyAt (constraintValues row) alpha := by
  have folded : ∀ (values : List F) (last : F),
      evalPolyAt (values ++ [last]) alpha =
        (values.foldl (accumulate alpha) (0, 1)).1 +
          last * (values.foldl (accumulate alpha) (0, 1)).2 := by
    intro values last
    rw [foldl_accumulate, evalPolyAt_eq, toPoly_append, toPoly_singleton,
      evalPolyAt_eq]
    simp
  rw [constraintValues, folded, List.foldl_append, List.foldl_map,
    List.foldl_map]
  rfl

end Accumulation

section Agreement

variable {curve : CurveType} {z : Scalar curve} {size : ℕ}

/-- The column evaluations the verifier is given. -/
def rowAt (col : Column → Poly curve) (z : Scalar curve) : Row (Scalar curve) :=
  fun column => evalPolyAt (col column) z

section Blocks

variable {col : Column → Poly curve} {row : Row (Scalar curve)}
variable (column : ∀ c, Denotes z size 1 (col c) (row c))
include column

theorem sequentialPcPair_spec :
    BlockDenotes z size (sequentialSelectors.map row).sum
      (evaluateSequentialPcRaw row) (some (sequentialPcPair curve col)) := by
  have sums : ∀ (rest : List Column) (seq : Poly curve) (value : Scalar curve),
      Denotes z size 1 seq value →
      Denotes z size 1 (rest.foldl (fun seq si => polyAdd seq (col si)) seq)
        (value + (rest.map row).sum) := by
    intro rest
    induction rest with
    | nil => exact fun seq value spec => spec.cast le_rfl (by simp)
    | cons head rest ih =>
        intro seq value spec
        exact (ih _ _ (spec.add (column head))).cast le_rfl (by simp; ring)
  have gate : row colSelRAluAdd + (sequentialSelectors.tail.map row).sum =
      (sequentialSelectors.map row).sum := by
    rw [← List.sum_cons, ← List.map_cons]
    rfl
  unfold sequentialPcPair
  generalize sequentialSelectors.tail = rest at gate ⊢
  exact .pure ⟨(sums rest _ _ (column colSelRAluAdd)).cast le_rfl gate,
    ((column colNextPc).sub ((column colPc).add (column colInsnLen))).cast
      (by decide) rfl⟩

theorem addMainPair_spec (selector operand : Column) :
    BlockDenotes z size (row selector)
      (row colRs1Val + row operand -
        (row colAux0 * twoPow64 + row colRdValAfter))
      (some (addMainPair curve col selector operand)) :=
  .pure ⟨column selector, (((column colRs1Val).add (column operand)).sub
    (((column colAux0).smul _).add (column colRdValAfter))).cast
      (by decide) rfl⟩

theorem subMainPair_spec :
    BlockDenotes z size (row colSelRAluSub) (evaluateAluRSubMainRaw row)
      (some (subMainPair curve col)) :=
  .pure ⟨column colSelRAluSub,
    (((column colRdValAfter).add (column colRs2Val)).sub
      ((column colRs1Val).add ((column colAux0).smul _))).cast (by decide) rfl⟩

/-- The shared branch terms, with what they evaluate to. -/
structure BranchTermsDenote (z : Scalar curve) (size : ℕ)
    (row : Row (Scalar curve)) (terms : BranchTerms curve) : Prop where
  taken : Denotes z size 1 terms.taken (row colPc + row colImmediate)
  notTaken : Denotes z size 1 terms.notTaken (row colPc + row colInsnLen)
  diffTaken : Denotes z size 1 terms.diffTaken (diffTaken row)
  diffNotTaken : Denotes z size 1 terms.diffNotTaken (diffNotTaken row)
  targetCheck : Denotes z size 2 terms.targetCheck (targetCheck row)
  oneMAux1 : Denotes z size 1 terms.oneMAux1 (1 - row colAux1)
  rsDiff : Denotes z size 1 terms.rsDiff (row colRs1Val - row colRs2Val)
  aux1Binary : Denotes z size 2 terms.aux1Binary (binaryCheck (row colAux1))

theorem branchTerms_spec :
    Returns (FitsDomain size) (branchTerms curve col)
      (BranchTermsDenote z size row) := by
  have taken := (column colPc).add (column colImmediate)
  have notTaken := (column colPc).add (column colInsnLen)
  have taken' := (column colNextPc).sub taken
  have notTaken' := (column colNextPc).sub notTaken
  refine (taken'.mul notTaken' (by decide)).bind fun target targetSpec => ?_
  refine ((column colAux1).binaryCheck (by decide)).bind fun binary binarySpec => ?_
  exact .pure ⟨taken, notTaken, taken', notTaken', targetSpec,
    Denotes.one.sub (column colAux1), (column colRs1Val).sub (column colRs2Val),
    binarySpec⟩

section Branches

variable {terms : BranchTerms curve} (branch : BranchTermsDenote z size row terms)
include branch

theorem beqPair_spec :
    BlockDenotes z size (row colSelBeq) (evaluateBeqConditionRaw row)
      (beqPair curve col terms) := by
  refine (branch.diffNotTaken.mul (column colAux1) (by decide)).bind
    fun c1 c1Spec => ?_
  refine (branch.diffTaken.mul branch.oneMAux1 (by decide)).bind
    fun c2 c2Spec => ?_
  refine (branch.oneMAux1.mul branch.rsDiff (by decide)).bind
    fun c3 c3Spec => ?_
  refine .pure ⟨column colSelBeq, (branch.targetCheck.add (c1Spec.add
    (c2Spec.add (c3Spec.add branch.aux1Binary)))).cast (by decide) ?_⟩
  simp only [evaluateBeqConditionRaw]
  ring

theorem bnePair_spec :
    BlockDenotes z size (row colSelBne) (evaluateBneConditionRaw row)
      (bnePair curve col terms) := by
  refine (branch.diffNotTaken.mul branch.oneMAux1 (by decide)).bind
    fun c1 c1Spec => ?_
  refine (branch.diffTaken.mul (column colAux1) (by decide)).bind
    fun c2 c2Spec => ?_
  refine (branch.oneMAux1.mul branch.rsDiff (by decide)).bind
    fun c3 c3Spec => ?_
  refine .pure ⟨column colSelBne, (branch.targetCheck.add (c1Spec.add
    (c2Spec.add (c3Spec.add branch.aux1Binary)))).cast (by decide) ?_⟩
  simp only [evaluateBneConditionRaw]
  ring

theorem bltuPair_spec :
    BlockDenotes z size (row colSelBltu) (evaluateBltuConditionRaw row)
      (bltuPair curve col terms) := by
  refine (branch.diffNotTaken.mul branch.oneMAux1 (by decide)).bind
    fun c1 c1Spec => ?_
  refine (branch.diffTaken.mul (column colAux1) (by decide)).bind
    fun c2 c2Spec => ?_
  refine .pure ⟨column colSelBltu, (branch.targetCheck.add (c1Spec.add
    (c2Spec.add branch.aux1Binary))).cast (by decide) ?_⟩
  simp only [evaluateBltuConditionRaw]
  ring

theorem bgeuPair_spec :
    BlockDenotes z size (row colSelBgeu) (evaluateBgeuConditionRaw row)
      (bgeuPair curve col terms) := by
  refine (branch.diffNotTaken.mul (column colAux1) (by decide)).bind
    fun c1 c1Spec => ?_
  refine (branch.diffTaken.mul branch.oneMAux1 (by decide)).bind
    fun c2 c2Spec => ?_
  refine .pure ⟨column colSelBgeu, (branch.targetCheck.add (c1Spec.add
    (c2Spec.add branch.aux1Binary))).cast (by decide) ?_⟩
  simp only [evaluateBgeuConditionRaw]
  ring

theorem jalPair_spec :
    BlockDenotes z size (row colSelJal) (evaluateJalRaw row)
      (some (jalPair curve col terms)) :=
  .pure ⟨column colSelJal, (((column colRdValAfter).sub branch.notTaken).add
    ((column colNextPc).sub branch.taken)).cast (by decide) rfl⟩

theorem jalrPair_spec :
    BlockDenotes z size (row colSelJalr) (evaluateJalrRaw row)
      (some (jalrPair curve col terms)) := by
  refine .pure ⟨column colSelJalr,
    (((column colRdValAfter).sub branch.notTaken).add
      (((column colNextPc).sub (((column colRs1Val).add
        (column colImmediate)).sub (column colAux1))).add
        branch.aux1Binary)).cast (by decide) ?_⟩
  simp only [evaluateJalrRaw]
  ring

end Branches

/-- The shared signed-branch terms, with what they evaluate to. -/
structure SignedTermsDenote (z : Scalar curve) (size : ℕ)
    (row : Row (Scalar curve)) (signed : SignedTerms curve) : Prop where
  aux0Binary : Denotes z size 2 signed.aux0Binary (binaryCheck (row colAux0))
  aux1Binary : Denotes z size 2 signed.aux1Binary (binaryCheck (row colAux1))
  aux2Binary : Denotes z size 2 signed.aux2Binary (binaryCheck (row colAux2))
  signedLt : Denotes z size 3 signed.signedLt
    (signedLt (row colAux0) (row colAux1) (row colAux2))
  oneMSignedLt : Denotes z size 3 signed.oneMSignedLt
    (1 - Constraints.signedLt (row colAux0) (row colAux1) (row colAux2))

theorem signedTerms_spec :
    Returns (FitsDomain size) (signedTerms curve col)
      (SignedTermsDenote z size row) := by
  refine ((column colAux0).binaryCheck (by decide)).bind fun a0 a0Spec => ?_
  refine ((column colAux1).binaryCheck (by decide)).bind fun a1 a1Spec => ?_
  refine ((column colAux2).binaryCheck (by decide)).bind fun a2 a2Spec => ?_
  refine ((column colAux0).signedLt (column colAux1) (column colAux2)).bind
    fun lt ltSpec => ?_
  exact .pure ⟨a0Spec, a1Spec, a2Spec, ltSpec, Denotes.one.sub ltSpec⟩

theorem signedBranchPair_spec {terms : BranchTerms curve}
    {signed : SignedTerms curve} (branch : BranchTermsDenote z size row terms)
    (signedSpec : SignedTermsDenote z size row signed) (selector : Column)
    {whenTaken whenNotTaken : Poly curve} {x y : Scalar curve}
    (takenSpec : Denotes z size 3 whenTaken x)
    (notTakenSpec : Denotes z size 3 whenNotTaken y) :
    BlockDenotes z size (row selector)
      (targetCheck row + diffNotTaken row * x + diffTaken row * y +
        binaryCheck (row colAux1) + binaryCheck (row colAux2) +
        binaryCheck (row colAux0))
      (signedBranchPair curve col terms signed selector whenTaken
        whenNotTaken) := by
  refine (branch.diffNotTaken.mul takenSpec (by decide)).bind fun c1 c1Spec => ?_
  refine (branch.diffTaken.mul notTakenSpec (by decide)).bind fun c2 c2Spec => ?_
  refine .pure ⟨column selector, (branch.targetCheck.add (c1Spec.add
    (c2Spec.add (signedSpec.aux0Binary.add (signedSpec.aux1Binary.add
      signedSpec.aux2Binary))))).cast (by decide) ?_⟩
  ring

theorem differencePair_spec (selector left right : Column) :
    BlockDenotes z size (row selector) (row left - row right)
      (some (differencePair curve col selector left right)) :=
  .pure ⟨column selector, ((column left).sub (column right)).cast
    (by decide) rfl⟩

theorem auipcPair_spec :
    BlockDenotes z size (row colSelAuipc) (evaluateAuipcRaw row)
      (some (auipcPair curve col)) :=
  .pure ⟨column colSelAuipc, ((column colRdValAfter).sub
    ((column colPc).add (column colImmediate))).cast (by decide) rfl⟩

theorem memoryPair_spec :
    BlockDenotes z size (row colSelLoad + row colSelStore)
      (evaluateMemoryOpsRaw row) (some (memoryPair curve col)) :=
  .pure ⟨((column colSelLoad).add (column colSelStore)).cast (by decide) rfl,
    ((column colMemAddr).sub ((column colRs1Val).add
      (column colImmediate))).cast (by decide) rfl⟩

theorem aux0BinaryPair_spec (selector : Column) :
    BlockDenotes z size (row selector) (evaluateAux0BinaryRaw row)
      (aux0BinaryPair curve col selector) := by
  refine ((column colAux0).binaryCheck (by decide)).bind fun binary binarySpec => ?_
  exact .pure ⟨column selector, binarySpec.cast (by decide) rfl⟩

theorem wordPair_spec (selector : Column) {value : Poly curve}
    {x : Scalar curve} {n : ℕ} (valueSpec : Denotes z size n value x)
    (bound : n ≤ 2) :
    BlockDenotes z size (row selector)
      (wordTruncation x (row colAux0) (row colRdValAfter) (row colAux1))
      (wordPair curve col selector value) := by
  refine (valueSpec.wordTruncation (column colAux0) (column colRdValAfter)
    (column colAux1) bound).bind fun body bodySpec => ?_
  exact .pure ⟨column selector, bodySpec.cast (by decide) rfl⟩

theorem productPair_spec (selector left right high low : Column) :
    BlockDenotes z size (row selector)
      (row left * row right - (row high * twoPow64 + row low))
      (productPair curve col selector left right high low) := by
  refine ((column left).mul (column right) (by decide)).bind
    fun product productSpec => ?_
  exact .pure ⟨column selector, (productSpec.sub
    (((column high).smul _).add (column low))).cast (by decide) rfl⟩

theorem divisionPair_spec (selector quotient remainder : Column) :
    BlockDenotes z size (row selector)
      (row quotient * row colRs2Val + row remainder - row colRs1Val)
      (divisionPair curve col selector quotient remainder) := by
  refine ((column quotient).mul (column colRs2Val) (by decide)).bind
    fun prod prodSpec => ?_
  exact .pure ⟨column selector, ((prodSpec.add (column remainder)).sub
    (column colRs1Val)).cast (by decide) rfl⟩

theorem orPair_spec (selector operand : Column) :
    BlockDenotes z size (row selector)
      (row colRdValAfter - (row colRs1Val + row operand - row colAux0))
      (some (orPair curve col selector operand)) :=
  .pure ⟨column selector, ((column colRdValAfter).sub
    (((column colRs1Val).add (column operand)).sub (column colAux0))).cast
      (by decide) rfl⟩

theorem xorPair_spec (selector operand : Column) :
    BlockDenotes z size (row selector)
      (row colRdValAfter - (row colRs1Val + row operand - 2 * row colAux0))
      (some (xorPair curve col selector operand)) :=
  .pure ⟨column selector, ((column colRdValAfter).sub
    (((column colRs1Val).add (column operand)).sub
      ((column colAux0).smul _))).cast (by decide)
        (by rw [Scalar.fromU64_two]; ring)⟩

theorem shiftLeftPair_spec (selector : Column) (modulus : Scalar curve) :
    BlockDenotes z size (row selector) (shiftLeftBody modulus row)
      (shiftLeftPair curve col selector modulus) := by
  refine ((column colRs1Val).mul (column colAux0) (by decide)).bind
    fun product productSpec => ?_
  exact .pure ⟨column selector, (productSpec.sub
    (((column colAux1).smul _).add (column colRdValAfter))).cast
      (by decide) rfl⟩

theorem shiftRightPair_spec (selector : Column) :
    BlockDenotes z size (row selector) (shiftRightBody row)
      (shiftRightPair curve col selector) := by
  refine ((column colRdValAfter).mul (column colAux0) (by decide)).bind
    fun prod prodSpec => ?_
  exact .pure ⟨column selector, ((prodSpec.add (column colAux1)).sub
    (column colRs1Val)).cast (by decide) rfl⟩

theorem shiftRightArithPair_spec (selector : Column) (modulus : Scalar curve) :
    BlockDenotes z size (row selector) (shiftRightArithBody modulus row)
      (shiftRightArithPair curve col selector modulus) := by
  refine ((column colRdValAfter).mul (column colAux0) (by decide)).bind
    fun prod prodSpec => ?_
  exact .pure ⟨column selector, ((prodSpec.add (column colAux1)).sub
    ((column colRs1Val).add ((column colAux2).smul _))).cast (by decide) rfl⟩

theorem comparePair_spec (selector : Column) :
    BlockDenotes z size (row selector) (evaluateCompareRaw row)
      (comparePair curve col selector) := by
  refine ((column colAux0).signedLt (column colAux1) (column colAux2)).bind
    fun lt ltSpec => ?_
  refine ((column colAux0).binaryCheck (by decide)).bind fun a0 a0Spec => ?_
  refine ((column colAux1).binaryCheck (by decide)).bind fun a1 a1Spec => ?_
  refine ((column colAux2).binaryCheck (by decide)).bind fun a2 a2Spec => ?_
  refine .pure ⟨column selector, (((column colRdValAfter).sub ltSpec).add
    (a0Spec.add (a1Spec.add a2Spec))).cast (by decide) ?_⟩
  simp only [evaluateCompareRaw]
  ring

theorem csrrcPair_spec :
    BlockDenotes z size (row colSelCsrrc) (evaluateCsrrcRaw row)
      (some (csrrcPair curve col)) :=
  .pure ⟨column colSelCsrrc, (((column colAux0).sub (column colRdValAfter)).add
    (column colAux1)).cast (by decide) rfl⟩

theorem scPair_spec :
    BlockDenotes z size (row colSelSc) (evaluateScRaw row)
      (scPair curve col) := by
  refine ((column colAux0).binaryCheck (by decide)).bind fun binary binarySpec => ?_
  refine ((column colAux0).mul (column colRdValAfter) (by decide)).bind
    fun valid validSpec => ?_
  exact .pure ⟨column colSelSc, (binarySpec.add validSpec).cast (by decide) rfl⟩

theorem csrrsPair_spec (selector source : Column) :
    BlockDenotes z size (row selector)
      (row colAux0 - row colRdValAfter - row source + row colAux1)
      (some (csrrsPair curve col selector source)) :=
  .pure ⟨column selector, ((((column colAux0).sub (column colRdValAfter)).sub
    (column source)).add (column colAux1)).cast (by decide) rfl⟩

theorem mulhPair_spec :
    BlockDenotes z size (row colSelMulh) (evaluateMulhRaw row)
      (mulhPair curve col) := by
  refine ((column colRs1Val).mul (column colRs2Val) (by decide)).bind
    fun product productSpec => ?_
  refine ((column colAux1).mul ((column colRs2Val).smul twoPow64)
    (by decide)).bind fun saRs2 saRs2Spec => ?_
  refine ((column colAux2).mul ((column colRs1Val).smul twoPow64)
    (by decide)).bind fun sbRs1 sbRs1Spec => ?_
  refine ((column colAux1).mul (column colAux2) (by decide)).bind
    fun saSb saSbSpec => ?_
  refine (saSbSpec.mul (Denotes.one.smul (twoPow64 * twoPow64))
    (by decide)).bind fun saSb2128 saSb2128Spec => ?_
  refine ((column colAux1).binaryCheck (by decide)).bind fun a1 a1Spec => ?_
  refine ((column colAux2).binaryCheck (by decide)).bind fun a2 a2Spec => ?_
  have body := ((((productSpec.sub saRs2Spec).add saSb2128Spec).sub
    sbRs1Spec).sub (((column colRdValAfter).smul twoPow64).add
      (column colAux0))).add (a1Spec.add a2Spec)
  refine .pure ⟨column colSelMulh, ?_⟩
  dsimp only
  refine body.cast (by decide) ?_
  simp only [evaluateMulhRaw]
  ring

theorem mulhsuPair_spec :
    BlockDenotes z size (row colSelMulhsu) (evaluateMulhsuRaw row)
      (mulhsuPair curve col) := by
  refine ((column colRs1Val).mul (column colRs2Val) (by decide)).bind
    fun product productSpec => ?_
  refine ((column colAux1).mul ((column colRs2Val).smul _) (by decide)).bind
    fun saRs2 saRs2Spec => ?_
  refine ((column colAux1).binaryCheck (by decide)).bind fun a1 a1Spec => ?_
  refine .pure ⟨column colSelMulhsu, (((productSpec.sub saRs2Spec).sub
    (((column colRdValAfter).smul _).add (column colAux0))).add a1Spec).cast
      (by decide) ?_⟩
  simp only [evaluateMulhsuRaw]
  ring

theorem mulwPair_spec :
    BlockDenotes z size (row colSelMulw) (evaluateMulwRaw row)
      (mulwPair curve col) := by
  refine ((column colRs1Val).mul (column colRs2Val) (by decide)).bind
    fun product productSpec => ?_
  exact wordPair_spec column colSelMulw productSpec le_rfl

theorem divisionWordPair_spec (selector quotient remainder : Column) :
    BlockDenotes z size (row selector)
      (row quotient * row colRs2Val + row remainder - row colRs1Val -
        row colAux1 * twoPow32)
      (divisionWordPair curve col selector quotient remainder) := by
  refine ((column quotient).mul (column colRs2Val) (by decide)).bind
    fun prod prodSpec => ?_
  exact .pure ⟨column selector, (((prodSpec.add (column remainder)).sub
    (column colRs1Val)).sub ((column colAux1).smul _)).cast (by decide) rfl⟩

theorem amoSwapPair_spec :
    BlockDenotes z size (row colSelAmoSwap) (evaluateAmoSwapRaw row)
      (amoSwapPair curve col) := by
  refine ((column colRs2Val).wordTruncation (column colAux0) (column colMemVal)
    (column colAux1) (by decide)).bind fun body bodySpec => ?_
  exact .pure ⟨column colSelAmoSwap, bodySpec.cast (by decide) rfl⟩

theorem amoAddPair_spec :
    BlockDenotes z size (row colSelAmoAdd) (evaluateAmoAddRaw row)
      (amoAddPair curve col) := by
  have oneM := Denotes.one.sub (column colAux2)
  refine ((column colAux0).mul (((column colAux2).smul twoPow32).add
    (oneM.smul twoPow64)) (by decide)).bind fun correction correctionSpec => ?_
  refine ((column colAux1).mul (column colAux2) (by decide)).bind
    fun both bothSpec => ?_
  refine (bothSpec.mul (Denotes.one.smul signExtOffset) (by decide)).bind
    fun sign signSpec => ?_
  refine ((column colAux1).binaryCheck (by decide)).bind fun a1 a1Spec => ?_
  refine ((column colAux2).binaryCheck (by decide)).bind fun a2 a2Spec => ?_
  refine ((column colAux0).binaryCheck (by decide)).bind fun a0 a0Spec => ?_
  refine (oneM.mul a0Spec (by decide)).bind fun a0D a0DSpec => ?_
  have body := (((((column colRdValAfter).add (column colRs2Val)).sub
    (column colMemVal)).sub correctionSpec).add signSpec).add
      (a1Spec.add (a2Spec.add a0DSpec))
  refine .pure ⟨column colSelAmoAdd, ?_⟩
  dsimp only
  refine body.cast (by decide) ?_
  simp only [evaluateAmoAddRaw]
  ring

theorem amoBitwisePair_spec (selector : Column) {witness : Poly curve}
    {x : Scalar curve} (witnessSpec : Denotes z size 1 witness x) :
    BlockDenotes z size (row selector)
      (row colMemVal + x - row colRdValAfter - row colRs2Val -
        row colAux1 * twoPow32)
      (some (amoBitwisePair curve col selector witness)) := by
  refine .pure ⟨column selector, ((((column colMemVal).add witnessSpec).sub
    (column colRdValAfter)).sub ((column colRs2Val).add
      ((column colAux1).smul _))).cast (by decide) ?_⟩
  ring

theorem amoXorPair_spec :
    BlockDenotes z size (row colSelAmoXor) (evaluateAmoXorRaw row)
      (some (amoBitwisePair curve col colSelAmoXor
        (polyScalarMul (col colAux0) (Scalar.fromU64 2)))) := by
  have spec := amoBitwisePair_spec column colSelAmoXor
    ((column colAux0).smul (Scalar.fromU64 2))
  rwa [Scalar.fromU64_two, mul_comm (row colAux0) 2] at spec

theorem amoMinuPair_spec :
    BlockDenotes z size (row colSelAmoCompare) (evaluateAmoMinuRaw row)
      (amoMinuPair curve col) := by
  refine ((column colAux0).mul ((column colRdValAfter).sub (column colRs2Val))
    (by decide)).bind fun selection selectionSpec => ?_
  refine ((column colAux0).binaryCheck (by decide)).bind fun a0 a0Spec => ?_
  have body := ((((column colMemVal).sub (column colRs2Val)).sub
    selectionSpec).sub ((column colAux1).smul twoPow32)).add a0Spec
  refine .pure ⟨column colSelAmoCompare, ?_⟩
  dsimp only
  exact body.cast (by decide) rfl

theorem amoMaxuPair_spec :
    BlockDenotes z size (row colSelAmoMaxu) (evaluateAmoMaxuRaw row)
      (amoMaxuPair curve col) := by
  refine ((column colAux0).mul ((column colRdValAfter).sub (column colRs2Val))
    (by decide)).bind fun selection selectionSpec => ?_
  refine ((column colAux0).binaryCheck (by decide)).bind fun a0 a0Spec => ?_
  have body := ((((column colMemVal).sub (column colRdValAfter)).add
    selectionSpec).sub ((column colAux1).smul twoPow32)).add a0Spec
  refine .pure ⟨column colSelAmoMaxu, ?_⟩
  dsimp only
  exact body.cast (by decide) rfl

theorem amoMinsPair_spec :
    BlockDenotes z size (row colSelAmoMins) (evaluateAmoMinsRaw row)
      (amoMinsPair curve col) := by
  refine ((column colAux0).signedLt (column colAux1) (column colAux2)).bind
    fun slt sltSpec => ?_
  refine (sltSpec.mul ((column colRdValAfter).sub (column colRs2Val))
    (by decide)).bind fun sel selSpec => ?_
  refine ((column colAux0).binaryCheck (by decide)).bind fun a0 a0Spec => ?_
  refine ((column colAux1).binaryCheck (by decide)).bind fun a1 a1Spec => ?_
  refine ((column colAux2).binaryCheck (by decide)).bind fun a2 a2Spec => ?_
  refine .pure ⟨column colSelAmoMins, ((((column colMemVal).sub
    (column colRs2Val)).sub selSpec).add (a0Spec.add (a1Spec.add a2Spec))).cast
      (by decide) ?_⟩
  simp only [evaluateAmoMinsRaw]
  ring

theorem amoMaxsPair_spec :
    BlockDenotes z size (row colSelAmoMaxs) (evaluateAmoMaxsRaw row)
      (amoMaxsPair curve col) := by
  refine ((column colAux0).signedLt (column colAux1) (column colAux2)).bind
    fun slt sltSpec => ?_
  refine (sltSpec.mul ((column colRdValAfter).sub (column colRs2Val))
    (by decide)).bind fun sel selSpec => ?_
  refine ((column colAux0).binaryCheck (by decide)).bind fun a0 a0Spec => ?_
  refine ((column colAux1).binaryCheck (by decide)).bind fun a1 a1Spec => ?_
  refine ((column colAux2).binaryCheck (by decide)).bind fun a2 a2Spec => ?_
  refine .pure ⟨column colSelAmoMaxs, ((((column colMemVal).sub
    (column colRdValAfter)).add selSpec).add
      (a0Spec.add (a1Spec.add a2Spec))).cast (by decide) ?_⟩
  simp only [evaluateAmoMaxsRaw]
  ring

/-- Block by block, the prover's list is the verifier's list. -/
theorem pairBlocks_spec {terms : BranchTerms curve}
    {signed : SignedTerms curve} (branch : BranchTermsDenote z size row terms)
    (signedSpec : SignedTermsDenote z size row signed) :
    List.Forall₂ (fun block (constraint : GatedConstraint (Scalar curve)) =>
        BlockDenotes z size (constraint.gate row) (constraint.body row) block)
      (pairBlocks curve col terms signed) gatedConstraints := by
  have single : ∀ {selector : Column} {body : Row (Scalar curve) → Scalar curve}
      {block : Option (Pair curve)},
      BlockDenotes z size (row selector) (body row) block →
      BlockDenotes z size (GatedConstraint.gate ⟨[selector], body⟩ row)
        (GatedConstraint.body ⟨[selector], body⟩ row) block := by
    intro selector body block spec
    simpa [GatedConstraint.gate] using spec
  have memory : BlockDenotes z size
      (GatedConstraint.gate ⟨[colSelLoad, colSelStore], evaluateMemoryOpsRaw⟩ row)
      (evaluateMemoryOpsRaw row) (some (memoryPair curve col)) := by
    simpa [GatedConstraint.gate] using memoryPair_spec column
  exact
    .cons (sequentialPcPair_spec column) <|
    .cons (single (addMainPair_spec column colSelRAluAdd colRs2Val)) <|
    .cons (single (subMainPair_spec column)) <|
    .cons (single (addMainPair_spec column colSelIAluAdd colImmediate)) <|
    .cons (single (beqPair_spec column branch)) <|
    .cons (single (bnePair_spec column branch)) <|
    .cons (single (bltuPair_spec column branch)) <|
    .cons (single (bgeuPair_spec column branch)) <|
    .cons (single (signedBranchPair_spec column branch signedSpec colSelBlt
      signedSpec.oneMSignedLt signedSpec.signedLt)) <|
    .cons (single (signedBranchPair_spec column branch signedSpec colSelBge
      signedSpec.signedLt signedSpec.oneMSignedLt)) <|
    .cons (single (jalPair_spec column branch)) <|
    .cons (single (jalrPair_spec column branch)) <|
    .cons (single (differencePair_spec column colSelLui colRdValAfter
      colImmediate)) <|
    .cons (single (auipcPair_spec column)) <|
    .cons memory <|
    .cons (single (aux0BinaryPair_spec column colSelRAluAdd)) <|
    .cons (single (aux0BinaryPair_spec column colSelRAluSub)) <|
    .cons (single (aux0BinaryPair_spec column colSelIAluAdd)) <|
    .cons (single (wordPair_spec column colSelWAluAdd
      ((column colRs1Val).add (column colRs2Val)) (by decide))) <|
    .cons (single (wordPair_spec column colSelWAluSub
      ((column colRs1Val).sub (column colRs2Val)) (by decide))) <|
    .cons (single (wordPair_spec column colSelWAluAddi
      ((column colRs1Val).add (column colImmediate)) (by decide))) <|
    .cons (single (productPair_spec column colSelMul colRs1Val colRs2Val
      colAux0 colRdValAfter)) <|
    .cons (single (divisionPair_spec column colSelDiv colRdValAfter colAux0)) <|
    .cons (single (divisionPair_spec column colSelRem colAux0 colRdValAfter)) <|
    .cons (single (differencePair_spec column colSelRAnd colRdValAfter
      colAux0)) <|
    .cons (single (orPair_spec column colSelROr colRs2Val)) <|
    .cons (single (xorPair_spec column colSelRXor colRs2Val)) <|
    .cons (single (differencePair_spec column colSelIAnd colRdValAfter
      colAux0)) <|
    .cons (single (orPair_spec column colSelIOr colImmediate)) <|
    .cons (single (xorPair_spec column colSelIXor colImmediate)) <|
    .cons (single (shiftLeftPair_spec column colSelRSll twoPow64)) <|
    .cons (single (shiftRightPair_spec column colSelRSrl)) <|
    .cons (single (shiftRightArithPair_spec column colSelRSra twoPow64)) <|
    .cons (single (shiftLeftPair_spec column colSelISll twoPow64)) <|
    .cons (single (shiftRightPair_spec column colSelISrl)) <|
    .cons (single (shiftRightArithPair_spec column colSelISra twoPow64)) <|
    .cons (single (shiftLeftPair_spec column colSelWSll twoPow32)) <|
    .cons (single (shiftRightPair_spec column colSelWSrl)) <|
    .cons (single (shiftRightArithPair_spec column colSelWSra twoPow32)) <|
    .cons (single (comparePair_spec column colSelRCompare)) <|
    .cons (single (comparePair_spec column colSelICompare)) <|
    .cons (single (csrrcPair_spec column)) <|
    .cons (single (differencePair_spec column colSelLr colRdValAfter
      colMemVal)) <|
    .cons (single (scPair_spec column)) <|
    .cons (single (productPair_spec column colSelMulhu colRs1Val colRs2Val
      colRdValAfter colAux0)) <|
    .cons (single (differencePair_spec column colSelCsrrw colAux0 colRs1Val)) <|
    .cons (single (differencePair_spec column colSelCsrrwI colAux0
      colImmediate)) <|
    .cons (single (csrrsPair_spec column colSelCsrrs colRs1Val)) <|
    .cons (single (csrrsPair_spec column colSelCsrrsI colImmediate)) <|
    .cons (single (mulhPair_spec column)) <|
    .cons (single (mulhsuPair_spec column)) <|
    .cons (single (mulwPair_spec column)) <|
    .cons (single (divisionWordPair_spec column colSelDivw colRdValAfter
      colAux0)) <|
    .cons (single (divisionWordPair_spec column colSelRemw colAux0
      colRdValAfter)) <|
    .cons (single (amoSwapPair_spec column)) <|
    .cons (single (amoAddPair_spec column)) <|
    .cons (single (amoBitwisePair_spec column colSelAmoBitwise
      (column colAux0))) <|
    .cons (single (amoBitwisePair_spec column colSelAmoOr (column colAux0))) <|
    .cons (single (amoXorPair_spec column)) <|
    .cons (single (amoMinuPair_spec column)) <|
    .cons (single (amoMaxuPair_spec column)) <|
    .cons (single (amoMinsPair_spec column)) <|
    .cons (single (amoMaxsPair_spec column)) .nil

end Blocks

/-! The accumulation loops, followed value by value. -/

theorem selectorSum_spec (col : Column → Poly curve) (z : Scalar curve)
    (selectors : List Column) (selSum : Poly curve) (nonempty : 0 < selSum.length) :
    0 < (selectors.foldl (fun selSum si => polyAdd selSum (col si))
        selSum).length ∧
      evalPolyAt (selectors.foldl (fun selSum si => polyAdd selSum (col si))
        selSum) z =
        selectors.foldl (fun sum si => sum + rowAt col z si)
          (evalPolyAt selSum z) := by
  induction selectors generalizing selSum with
  | nil => exact ⟨nonempty, rfl⟩
  | cons head rest ih =>
      obtain ⟨lengthPos, evalEq⟩ := ih (polyAdd selSum (col head))
        (by rw [length_polyAdd]; omega)
      refine ⟨lengthPos, ?_⟩
      rw [List.foldl_cons, evalEq, List.foldl_cons]
      simp [rowAt, evalPolyAt_eq]

theorem buildConstraintPolynomial_returns (col : Column → Poly curve)
    (size : ℕ) (bounded : ∀ c, (col c).length ≤ size) (alpha z : Scalar curve) :
    Returns (FitsDomain size) (buildConstraintPolynomial curve col alpha)
      fun c => evalPolyAt c z = evaluateAtPointExtended (rowAt col z) alpha := by
  have column : ∀ c, Denotes z size 1 (col c) (rowAt col z c) := fun c =>
    ⟨rfl, by have := bounded c; omega, Nat.one_pos⟩
  refine (branchTerms_spec column).bind fun terms branch => ?_
  refine (signedTerms_spec column).bind fun signed signedSpec => ?_
  refine (Returns.mapM (pairBlocks_spec column branch signedSpec)).bind
    fun pairs pairsSpec => ?_
  have gatedBlocks : List.Forall₂
      (fun (pair : Pair curve) (constraint : GatedConstraint (Scalar curve)) =>
        Returns (FitsDomain size) (polyMul curve pair.1 pair.2) fun c =>
          evalPolyAt c z = constraint.eval (rowAt col z))
      pairs gatedConstraints :=
    pairsSpec.imp fun pair constraint spec =>
      (spec.gate.mul spec.body (by decide)).imp fun c product => product.eval
  refine (Returns.mapM gatedBlocks).bind fun gated gatedSpec => ?_
  have binaryBlocks : List.Forall₂
      (fun si selector => Returns (FitsDomain size) (polyBinary curve (col si))
        fun c => evalPolyAt c z = selectorBinary (rowAt col z) selector)
      selectorColumnIndices selectorColumnIndices :=
    List.forall₂_same.2 fun selector _ =>
      ((column selector).binaryCheck (by decide)).imp fun c product => product.eval
  refine (Returns.mapM binaryBlocks).bind fun binaries binariesSpec => ?_
  refine .pure ?_
  have gatedFold := foldl_accumulatePoly alpha
    (List.forall₂_map_right_iff.2 gatedSpec) ([0], 1)
  have binaryFold := foldl_accumulatePoly alpha
    (List.forall₂_map_right_iff.2 binariesSpec)
    (gated.foldl (accumulatePoly curve alpha) ([0], 1))
  rw [gatedFold, List.foldl_map, List.foldl_map] at binaryFold
  obtain ⟨sumPos, sumEq⟩ := selectorSum_spec col z selectorColumnIndices [0]
    (by simp)
  have zeroEval : evalPolyAt [(0 : Scalar curve)] z = 0 := by
    simp [evalPolyAt]
  rw [zeroEval] at sumEq binaryFold
  have resultEq := congrArg Prod.fst binaryFold
  have powerEq := congrArg Prod.snd binaryFold
  dsimp only at resultEq powerEq
  have finalEq := evalPolyAt_subOneFromConstant _ sumPos z
  rw [sumEq] at finalEq
  rw [evalPolyAt_eq, toPoly_polyAdd, toPoly_polyScalarMul, eval_add, eval_mul,
    eval_C, ← evalPolyAt_eq, ← evalPolyAt_eq, finalEq, resultEq, powerEq]
  rfl

/-- Prover and verifier use the same constraint: whatever polynomial is built
from the columns evaluates everywhere to the verifier's combination of the
column evaluations, and one is built unless a column is longer than the largest
transform domain can multiply. -/
theorem buildConstraintPolynomial_agrees (col : Column → Poly curve)
    (alpha z : Scalar curve) :
    (∀ c, buildConstraintPolynomial curve col alpha = some c →
      evalPolyAt c z =
        evaluateAtPointExtended (fun column => evalPolyAt (col column) z)
          alpha) ∧
      ((∀ column, (col column).length < 2 ^ 29) →
        (buildConstraintPolynomial curve col alpha).isSome) := by
  constructor
  · obtain ⟨size, bounded⟩ : ∃ size, ∀ column, (col column).length ≤ size :=
      ⟨Finset.univ.sup fun column => (col column).length, fun column =>
        Finset.le_sup (f := fun column => (col column).length)
          (Finset.mem_univ column)⟩
    exact (buildConstraintPolynomial_returns col size bounded alpha z).sound
  · intro short
    refine (buildConstraintPolynomial_returns col (2 ^ 29 - 1)
      (fun column => Nat.le_sub_one_of_lt (short column)) alpha z).total ?_
    norm_num [FitsDomain, maxLogDomain]

end Agreement

end MetaVm.Riscv.Constraints
