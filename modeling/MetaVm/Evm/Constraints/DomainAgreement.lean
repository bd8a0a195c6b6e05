import MetaVm.Evm.Constraints.Rows
import MetaVm.Evm.Constraints.ProverVerifier

namespace MetaVm.Evm.Constraints

open Zkp CoeffList Polynomial

/-! The constraints in the order of their powers of `alpha`. -/

section Values

variable {F : Type} [CommRing F] (row : Row F)

/-- All constraints of a row, with a zero for each one that has no body. -/
def constraintValues : List F :=
  arithValues row ++ gated row colSelAddmod (evaluateAddmodRaw row) ++
    gated row colSelMulmod (evaluateMulmodRaw row) ++ List.replicate 1 0 ++
    [evaluateSignextendRaw row] ++ wordValues row ++ List.replicate 1 0 ++ jumpValues row ++
    List.replicate 1 0 ++ notValues row ++ List.replicate 8 0 ++ List.replicate 2 0 ++ List.replicate 6 0 ++
    binaryValues row selectorColumnIndices ++ [addAll selectorColumnIndices row 0 - 1] ++
    binaryValues row caseSelectorIndices ++
    [row colSelSignextend - addAll caseSelectorIndices row 0]

/-- All constraints of a row hold. -/
def Satisfied : Prop := ∀ value ∈ constraintValues row, value = 0

theorem skip_eq_foldl (alpha : F) (count : ℕ) (state : F × F) :
    skip alpha count state = (List.replicate count 0).foldl (accumulate alpha) state := by
  rw [skip_eq, foldl_accumulate, List.length_replicate]
  have zero : evalPolyAt (List.replicate count (0 : F)) alpha = 0 := by
    induction count with
    | zero => rfl
    | succ count hypothesis =>
        rw [evalPolyAt_eq] at hypothesis ⊢
        rw [List.replicate_succ, toPoly_cons]
        simp [hypothesis]
  rw [zero, mul_zero, add_zero]

theorem evaluateAtPoint_eq (alpha : F) :
    evaluateAtPoint row alpha = evalPolyAt (constraintValues row) alpha := by
  have folded : ∀ (values : List F) (last : F),
      evalPolyAt (values ++ [last]) alpha =
        (values.foldl (accumulate alpha) (0, 1)).1 +
          last * (values.foldl (accumulate alpha) (0, 1)).2 := by
    intro values last
    rw [foldl_accumulate, evalPolyAt_eq, toPoly_append, toPoly_singleton, evalPolyAt_eq]
    simp
  rw [constraintValues, folded]
  simp only [List.foldl_append, ← skip_eq_foldl, List.foldl_cons, List.foldl_nil,
    evaluateAtPoint, evaluateRuns]

theorem length_constraintValues : (constraintValues row).length = 180 := by
  simp [constraintValues, arithValues, wordValues, compareValues, bitwiseValues, shiftValues,
    stackValues, memoryValues, jumpValues, notValues, binaryValues, gated, evaluateAddmodRaw,
    evaluateMulmodRaw, selectorColumnIndices, caseSelectorIndices]

variable {row}

theorem gated_clear {column : Column} (clear : row column = 0) (bodies : List F) :
    ∀ value ∈ gated row column bodies, value = 0 := by
  simp [gated, clear]

end Values

/-! The vectors and the constraints, family by family. -/

section Families

variable {order : ℕ} [Fact order.Prime] (row : Row (ZMod order))

theorem whenSet_eq_zero_iff (selector : Column) (body : Vector order) :
    whenSet selector body row = 0 ↔ row selector * body row = 0 := by
  rw [whenSet, mul_eq_zero]
  split
  · rename_i clear
    simp [clear]
  · rename_i set
    simp [set]

theorem vectors_zero_iff (family : Family order) :
    (∀ vector ∈ family.vectors, vector row = 0) ↔
      ∀ value ∈ gated row family.selector (family.bodies.map fun body => body row),
        value = 0 := by
  simp only [Family.vectors, gated, List.map_map, List.forall_mem_map, Function.comp,
    whenSet_eq_zero_iff]

/-- Families whose bodies evaluate to a list of values. -/
theorem families_zero_iff (families : List (Family order)) :
    (∀ vector ∈ families.flatMap Family.vectors, vector row = 0) ↔
      ∀ value ∈ families.flatMap fun family =>
        gated row family.selector (family.bodies.map fun body => body row), value = 0 := by
  simp only [List.forall_mem_flatMap, vectors_zero_iff]

theorem arith_zero_iff :
    (∀ vector ∈ arithFamilies.flatMap Family.vectors, vector row = 0) ↔
      ∀ value ∈ arithValues row, value = 0 := by
  rw [families_zero_iff]
  rfl

theorem word_zero_iff :
    (∀ vector ∈ compareFamilies.flatMap Family.vectors ++
        bitwiseFamilies.flatMap Family.vectors ++ shiftFamilies.flatMap Family.vectors ++
        stackFamilies.flatMap Family.vectors ++ memoryFamilies.flatMap Family.vectors,
      vector row = 0) ↔ ∀ value ∈ wordValues row, value = 0 := by
  simp only [List.forall_mem_append, families_zero_iff, wordValues]
  rfl

theorem addmod_zero_iff :
    (∀ vector ∈ addmodBodies.vectors, vector row = 0) ↔
      ∀ value ∈ gated row colSelAddmod (evaluateAddmodRaw row), value = 0 := by
  rw [vectors_zero_iff]
  rfl

theorem mulmod_zero_iff :
    (∀ vector ∈ mulmodBodies.vectors, vector row = 0) ↔
      ∀ value ∈ gated row colSelMulmod (evaluateMulmodRaw row), value = 0 := by
  rw [vectors_zero_iff]
  rfl

theorem not_zero_iff :
    notVector row = 0 ↔ ∀ value ∈ notValues row, value = 0 := by
  have sum : notVector row =
      whenSet colSelBitwiseOther (fun row => addAll (List.range 4) (evaluateNotLimbRaw row) 0)
        row := by
    simp only [notVector, evaluateNotLimb, whenSet]
    split
    · simp [addAll, List.range_succ]
    · rfl
  rw [sum, whenSet_eq_zero_iff, notValues, gated, List.map_singleton,
    List.forall_mem_singleton]

end Families

/-! The case selectors of SIGNEXTEND. -/

section Cases

variable {order : ℕ} [prime : Fact order.Prime] {row : Row (ZMod order)}

/-- Binary cells sum up to the number of those that are set. -/
theorem addAll_binary (selectors : List Column) (start : ZMod order)
    (binary : ∀ selector ∈ selectors, row selector * (row selector - 1) = 0) :
    ∃ count ≤ selectors.length, addAll selectors row start = start + (count : ZMod order) ∧
      (count = 0 → ∀ selector ∈ selectors, row selector = 0) := by
  induction selectors generalizing start with
  | nil => exact ⟨0, le_rfl, by simp [addAll], fun _ => by simp⟩
  | cons selector rest hypothesis =>
      obtain ⟨count, small, total, clear⟩ := hypothesis (start + row selector)
        fun other member => binary other (List.mem_cons_of_mem _ member)
      rcases mul_eq_zero.1 (binary selector List.mem_cons_self) with zero | one
      · refine ⟨count, Nat.le_succ_of_le small, ?_, fun none => ?_⟩
        · rw [zero, add_zero] at total
          simpa [addAll, zero] using total
        · rw [List.forall_mem_cons]
          exact ⟨zero, clear none⟩
      · refine ⟨count + 1, Nat.succ_le_succ small, ?_, fun none => by omega⟩
        have isOne := sub_eq_zero.1 one
        rw [isOne] at total
        simp only [addAll, List.foldl_cons, isOne] at total ⊢
        rw [total]
        push_cast
        ring

/-- Without the selector of SIGNEXTEND no case is set. -/
theorem cases_clear [large : Fact (2 ^ 254 < order)]
    (binary : ∀ selector ∈ caseSelectorIndices, row selector * (row selector - 1) = 0)
    (clear : row colSelSignextend = 0)
    (bound : row colSelSignextend - addAll caseSelectorIndices row 0 = 0) :
    ∀ selector ∈ caseSelectorIndices, row selector = 0 := by
  obtain ⟨count, small, total, none⟩ := addAll_binary caseSelectorIndices 0 binary
  have length : caseSelectorIndices.length = 32 := rfl
  have order_large := large.out
  rw [clear, total, zero_add, zero_sub, neg_eq_zero] at bound
  have divides := (ZMod.natCast_eq_zero_iff count order).1 bound
  apply none
  by_contra nonzero
  have := Nat.le_of_dvd (Nat.pos_of_ne_zero nonzero) divides
  omega

end Cases

/-! The two evaluations differ in the jumps alone. -/

section Rows

variable {order : ℕ} [Fact order.Prime] {row : Row (ZMod order)}

/-- All constraints but the one of the jumps hold. -/
structure Shared (row : Row (ZMod order)) : Prop where
  arith : ∀ value ∈ arithValues row, value = 0
  addmod : ∀ value ∈ gated row colSelAddmod (evaluateAddmodRaw row), value = 0
  mulmod : ∀ value ∈ gated row colSelMulmod (evaluateMulmodRaw row), value = 0
  signextend : evaluateSignextendRaw row = 0
  word : ∀ value ∈ wordValues row, value = 0
  not : ∀ value ∈ notValues row, value = 0
  selectors : ∀ value ∈ binaryValues row selectorColumnIndices, value = 0
  sum : addAll selectorColumnIndices row 0 - 1 = 0
  caseSelectors : ∀ value ∈ binaryValues row caseSelectorIndices, value = 0
  caseSum : row colSelSignextend - addAll caseSelectorIndices row 0 = 0

theorem satisfied_iff :
    Satisfied row ↔ Shared row ∧ row colSelJump * evaluateControlRaw row = 0 := by
  have zeros : ∀ count, ∀ value ∈ List.replicate count (0 : ZMod order), value = 0 :=
    fun count value member => List.eq_of_mem_replicate member
  have jump : (∀ value ∈ jumpValues row, value = 0) ↔
      row colSelJump * evaluateControlRaw row = 0 := by
    rw [jumpValues, gated, List.map_singleton, List.forall_mem_singleton]
  rw [Satisfied, constraintValues]
  simp only [List.forall_mem_append, List.forall_mem_singleton, jump]
  constructor
  · rintro ⟨⟨⟨⟨⟨⟨⟨⟨⟨⟨⟨⟨⟨⟨⟨⟨arith, addmod⟩, mulmod⟩, -⟩, signextend⟩, word⟩, -⟩, control⟩, -⟩,
      not⟩, -⟩, -⟩, -⟩, selectors⟩, sum⟩, caseSelectors⟩, caseSum⟩
    exact ⟨⟨arith, addmod, mulmod, signextend, word, not, selectors, sum, caseSelectors,
      caseSum⟩, control⟩
  · rintro ⟨shared, control⟩
    exact ⟨⟨⟨⟨⟨⟨⟨⟨⟨⟨⟨⟨⟨⟨⟨⟨shared.arith, shared.addmod⟩, shared.mulmod⟩, zeros 1⟩,
      shared.signextend⟩, shared.word⟩, zeros 1⟩, control⟩, zeros 1⟩, shared.not⟩, zeros 8⟩,
      zeros 2⟩, zeros 6⟩, shared.selectors⟩, shared.sum⟩, shared.caseSelectors⟩,
      shared.caseSum⟩

theorem domainZero_iff [Fact (2 ^ 254 < order)] :
    (∀ vector ∈ domainVectors, vector row = 0) ↔
      Shared row ∧ evaluateControl row = 0 := by
  have zeros : ∀ count, ∀ vector ∈ List.replicate count oracleZero, vector row = 0 := by
    intro count vector member
    rw [List.eq_of_mem_replicate member]
    rfl
  have binary : ∀ selectors : List Column,
      (∀ vector ∈ selectors.map binaryVector, vector row = 0) ↔
        ∀ value ∈ binaryValues row selectors, value = 0 := by
    intro selectors
    simp only [binaryValues, List.forall_mem_map, binaryVector]
  have word := word_zero_iff row
  simp only [List.forall_mem_append] at word
  delta domainVectors
  simp only [List.forall_mem_append, List.forall_mem_singleton, binary, arith_zero_iff,
    addmod_zero_iff, mulmod_zero_iff, not_zero_iff]
  constructor
  · rintro ⟨⟨⟨⟨⟨⟨⟨⟨⟨⟨⟨⟨⟨⟨⟨⟨⟨⟨arith, addmod⟩, mulmod⟩, -⟩, signextend⟩, compare⟩, bitwise⟩,
      shift⟩, stack⟩, memory⟩, -⟩, control⟩, -⟩, not⟩, -⟩, selectors⟩, sum⟩, caseSelectors⟩,
      caseSum⟩
    refine ⟨⟨arith, addmod, mulmod, ?_, ?_, not, selectors, sum, caseSelectors, caseSum⟩,
      control⟩
    · rcases mul_eq_zero.1 ((whenSet_eq_zero_iff row _ _).1 signextend) with clear | zero
      · have settled := caseSelectors
        rw [binaryValues, List.forall_mem_map] at settled
        exact signextend_of_clear (cases_clear settled clear caseSum)
      · exact zero
    · exact word.1 ⟨⟨⟨⟨compare, bitwise⟩, shift⟩, stack⟩, memory⟩
  · rintro ⟨shared, control⟩
    obtain ⟨⟨⟨⟨compare, bitwise⟩, shift⟩, stack⟩, memory⟩ := word.2 shared.word
    have signextend : whenSet colSelSignextend evaluateSignextendRaw row = 0 := by
      refine (whenSet_eq_zero_iff row _ _).2 ?_
      rw [shared.signextend, mul_zero]
    exact ⟨⟨⟨⟨⟨⟨⟨⟨⟨⟨⟨⟨⟨⟨⟨⟨⟨⟨shared.arith, shared.addmod⟩, shared.mulmod⟩, rfl⟩, signextend⟩,
      compare⟩, bitwise⟩, shift⟩, stack⟩, memory⟩, rfl⟩, control⟩, rfl⟩, shared.not⟩, zeros 16⟩,
      shared.selectors⟩, shared.sum⟩, shared.caseSelectors⟩, shared.caseSum⟩

/-- A combination of the constraints is zero for every `alpha` only if all of
them are. -/
theorem vanishes_iff_satisfied [Fact (2 ^ 254 < order)] :
    (∀ alpha, evaluateAtPoint row alpha = 0) ↔ Satisfied row := by
  have large : 2 ^ 254 < order := Fact.out
  have : NeZero order := ⟨by omega⟩
  have short : (constraintValues row).length ≤ Fintype.card (ZMod order) := by
    rw [ZMod.card]
    rw [length_constraintValues]
    omega
  simp only [evaluateAtPoint_eq, evalPolyAt_eq]
  exact eval_toPoly_eq_zero_iff short

end Rows

/-! Rows of a trace. -/

section Traces

variable {order : ℕ} [Fact order.Prime] {trace : EvmTraceRow} {row : Row (ZMod order)}

omit [Fact order.Prime] in
theorem codeAt_of_eq [Fact (2 ^ 254 < order)] {column : Column} {code : Code}
    (cell : row column = Scalar.fromU64 (code.setWidth 64)) : codeAt row column = code := by
  have large : 2 ^ 254 < order := Fact.out
  have bound := (code.setWidth 64).isLt
  rw [codeAt, cell, Scalar.fromU64, Scalar.toU64_natCast (by omega),
    BitVec.ofNat_toNat, BitVec.setWidth_eq]
  exact BitVec.setWidth_setWidth_of_le code (by decide)

/-- A jump satisfies everything but its own constraint. -/
theorem Written.shared_of_jump (written : Written trace row)
    (jump : trace.insnType = insnJump) : Shared row := by
  have slot : trace.selectorSlot = 38 := trace.selectorSlot_eq_jump.2 jump
  have clear : ∀ (other : ℕ) {column : Column}, other < 50 ∧ other ≠ 38 ∧
      selectorColumnIndices[other]? = some column → row column = 0 := by
    rintro other column ⟨base, different, place⟩
    rw [written.selector base place, slot, if_neg different]
  have gate : ∀ (other : ℕ) {column : Column} {bodies : List (ZMod order)}, other < 50 ∧
      other ≠ 38 ∧ selectorColumnIndices[other]? = some column →
        ∀ value ∈ gated row column bodies, value = 0 :=
    fun other column bodies place => gated_clear (clear other place) bodies
  have cases := written.cases_clear (by rw [slot]; decide : trace.selectorSlot ≠ 11)
  have noCases : addAll caseSelectorIndices row 0 = 0 := by
    rw [addAll_eq_sum]
    refine List.sum_eq_zero fun value member => ?_
    obtain ⟨selector, inside, rfl⟩ := List.mem_map.1 member
    exact cases selector inside
  constructor
  case arith =>
    rw [arithValues]
    simp only [List.forall_mem_append]
    exact ⟨⟨⟨⟨⟨⟨gate 1 (by decide), gate 2 (by decide)⟩, gate 3 (by decide)⟩,
      gate 4 (by decide)⟩, gate 5 (by decide)⟩, gate 6 (by decide)⟩, gate 7 (by decide)⟩
  case addmod => exact gate 8 (by decide)
  case mulmod => exact gate 9 (by decide)
  case signextend => exact signextend_of_clear cases
  case word =>
    rw [wordValues, compareValues, bitwiseValues, shiftValues, stackValues, memoryValues]
    simp only [List.forall_mem_append]
    exact ⟨⟨⟨⟨⟨⟨⟨⟨gate 12 (by decide), gate 13 (by decide)⟩, gate 14 (by decide)⟩,
      gate 15 (by decide)⟩, gate 16 (by decide)⟩,
      ⟨⟨gate 17 (by decide), gate 18 (by decide)⟩, gate 19 (by decide)⟩⟩,
      ⟨⟨gate 21 (by decide), gate 22 (by decide)⟩, gate 23 (by decide)⟩⟩,
      ⟨⟨⟨gate 27 (by decide), gate 28 (by decide)⟩, gate 29 (by decide)⟩,
        gate 30 (by decide)⟩⟩,
      ⟨⟨gate 32 (by decide), gate 33 (by decide)⟩, gate 34 (by decide)⟩⟩
  case not => exact gate 20 (by decide)
  case selectors => exact written.selectors_bound.1
  case sum => exact written.selectors_bound.2
  case caseSelectors =>
    rw [binaryValues, List.forall_mem_map]
    intro selector member
    rw [cases selector member, zero_mul]
  case caseSum =>
    rw [noCases, sub_zero]
    exact clear 11 (by decide)

/-- The jumps that the domain evaluation leaves alone. -/
def UncheckedJump (trace : EvmTraceRow) : Prop :=
  trace.insnType = insnJump ∧ trace.funct ≠ functPc

instance : Decidable (UncheckedJump trace) := instDecidableAnd

theorem evaluateControlRaw_eq_zero_iff (row : Row (ZMod order)) :
    evaluateControlRaw row = 0 ↔
      row colOutput0L0 + row colOutput0L1 + row colOutput0L2 + row colOutput0L3 =
        row colPc := by
  have regrouped : evaluateControlRaw row =
      row colOutput0L0 + row colOutput0L1 + row colOutput0L2 + row colOutput0L3 -
        row colPc := by
    rw [evaluateControlRaw]
    ring
  rw [regrouped, sub_eq_zero]

section Reports

variable [Fact (2 ^ 254 < order)]

/-- What the domain evaluation reports of a row. -/
theorem domain_reports_iff {table : List (Row (ZMod order))} {index : ℕ}
    (inside : index < table.length) (written : Written trace table[index]) :
    (∀ vector ∈ evaluateOnDomain table, vector[index]? = some 0) ↔
      Shared table[index] ∧ (trace.insnType = insnJump ∧ trace.funct = functPc →
        evaluateControlRaw table[index] = 0) := by
  have entries : (∀ vector ∈ evaluateOnDomain table, vector[index]? = some 0) ↔
      ∀ vector ∈ domainVectors, vector table[index] = 0 := by
    simp only [evaluateOnDomain, List.forall_mem_map, List.getElem?_map,
      List.getElem?_eq_getElem inside, Option.map_some, Option.some_inj]
  rw [entries, domainZero_iff, evaluateControl, codeAt_of_eq written.insnType,
    codeAt_of_eq written.funct, ite_eq_right_iff]

/-- What the point evaluation reports of it. -/
theorem point_reports_iff (written : Written trace row) :
    (∀ alpha, evaluateAtPoint row alpha = 0) ↔
      Shared row ∧ (trace.insnType = insnJump → evaluateControlRaw row = 0) := by
  have cell := written.selector (by decide : 38 < 50) (rfl : _ = some colSelJump)
  rw [vanishes_iff_satisfied, satisfied_iff, cell]
  by_cases jump : trace.insnType = insnJump
  · rw [if_pos (trace.selectorSlot_eq_jump.2 jump).symm, one_mul]
    exact and_congr_right fun _ => ⟨fun zero _ => zero, fun zero => zero jump⟩
  · have other : ¬ 38 = trace.selectorSlot :=
      fun slot => jump (trace.selectorSlot_eq_jump.1 slot.symm)
    rw [if_neg other, zero_mul]
    exact and_congr_right fun _ => ⟨fun _ isJump => absurd isJump jump, fun _ => rfl⟩

/-- Domain and point evaluation report the same on a row, unless it is a jump
other than PC whose output is not `pc`. -/
theorem evaluations_agree_iff {table : List (Row (ZMod order))} {index : ℕ}
    (inside : index < table.length) (written : Written trace table[index]) :
    ((∀ vector ∈ evaluateOnDomain table, vector[index]? = some 0) ↔
      ∀ alpha, evaluateAtPoint table[index] alpha = 0) ↔
        (UncheckedJump trace →
          table[index] colOutput0L0 + table[index] colOutput0L1 + table[index] colOutput0L2 +
            table[index] colOutput0L3 = table[index] colPc) := by
  rw [domain_reports_iff inside written, point_reports_iff written,
    ← evaluateControlRaw_eq_zero_iff]
  constructor
  · rintro same ⟨jump, other⟩
    have shared := written.shared_of_jump jump
    exact (same.1 ⟨shared, fun isPc => absurd isPc.2 other⟩).2 jump
  · intro unchecked
    refine and_congr_right fun _ => ⟨fun checked jump => ?_, fun checked isPc => checked isPc.1⟩
    by_cases isPc : trace.funct = functPc
    · exact checked ⟨jump, isPc⟩
    · exact unchecked ⟨jump, isPc⟩

end Reports

end Traces

section Instances

/-- A JUMPDEST at address 7, with nothing in the output. -/
def jumpdest : EvmTraceRow where
  pc := 7
  opcode := 0x5B
  insnType := (classifyOpcode 0x5B).1
  funct := (classifyOpcode 0x5B).2

theorem jumpdest_unreported :
    (∀ vector ∈ evaluateOnDomain [(traceRow jumpdest : Row Fr)], vector[0]? = some 0) ∧
      ¬ ∀ alpha, evaluateAtPoint (traceRow jumpdest : Row Fr) alpha = 0 := by
  have written : Written jumpdest (traceRow jumpdest : Row Fr) := traceRow_written jumpdest
  have control : evaluateControlRaw (traceRow jumpdest : Row Fr) ≠ 0 := by
    show (Scalar.fromU64 0 : Fr) - Scalar.fromU64 7 + Scalar.fromU64 0 + Scalar.fromU64 0 +
      Scalar.fromU64 0 ≠ 0
    decide
  constructor
  · refine (domain_reports_iff Nat.zero_lt_one written).2
      ⟨written.shared_of_jump rfl, fun isPc => absurd isPc.2 (by decide)⟩
  · rw [point_reports_iff written]
    exact fun reported => control (reported.2 rfl)

/-- With an output whose limbs add up to its address it is reported alike. -/
theorem jumpdest_evaluations_agree :
    let row : Row Fr := traceRow { jumpdest with output0 := ![4, 0, 3, 0] }
    (∀ vector ∈ evaluateOnDomain [traceRow {}, row], vector[1]? = some 0) ↔
      ∀ alpha, evaluateAtPoint row alpha = 0 := by
  intro row
  have inside : 1 < [(traceRow {} : Row Fr), row].length := by decide
  refine (evaluations_agree_iff inside
    (traceRow_written { jumpdest with output0 := ![4, 0, 3, 0] })).2 fun _ => ?_
  show (Scalar.fromU64 4 : Fr) + Scalar.fromU64 0 + Scalar.fromU64 3 + Scalar.fromU64 0 =
    Scalar.fromU64 7
  decide

end Instances

end MetaVm.Evm.Constraints
