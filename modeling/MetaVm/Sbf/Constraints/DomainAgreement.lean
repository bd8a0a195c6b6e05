import MetaVm.Sbf.Constraints.DomainVectors

namespace MetaVm.Sbf.Constraints

open Zkp SelectorSystem SmallInt

/-! Evaluation on the domain against evaluation at a point, on the rows of a
trace. -/

/-! What the vectors compute on a row, next to the body of its selector. -/

def arithmeticFuncts : List Code :=
  [functAdd, functSub, functMul, functDiv, functMod, functMov]

/-- The rows whose vector also compares the source with the immediate: arithmetic
with an immediate source, and ST. -/
def ChecksSource (row : SbfTraceRow) : Prop :=
  isAlu row.insnType = true ∧ row.funct ∈ arithmeticFuncts ∧ row.opcode &&& 0x08 = 0 ∨
    row.insnType = insnStore ∧ row.funct < functStxb

instance (row : SbfTraceRow) : Decidable (ChecksSource row) :=
  inferInstanceAs (Decidable (_ ∨ _))

/-- What the vector of a row adds to the body of its selector. JGT and JSGT have
another term for a jump not taken. -/
def surplus (row : SbfTraceRow) : ℤ :=
  if ChecksSource row then row.srcVal.toNat - row.immediate.toNat
  else if row.insnType = insnBranch ∧ row.funct ∈ [functJgt, functJsgt] then
    (row.nextPc.toNat - (row.pc.toNat + 8)) * row.aux1.toNat
  else 0

def IsJa (row : SbfTraceRow) : Prop :=
  row.insnType = insnBranch ∧ row.funct = functJa

instance (row : SbfTraceRow) : Decidable (IsJa row) :=
  inferInstanceAs (Decidable (_ ∧ _))

/-- The vector of JA asks for the target alone. -/
def vectorBody (row : SbfTraceRow) : ℤ :=
  if IsJa row then row.nextPc.toNat - (row.pc.toNat + row.immediate.toNat)
  else selectorBody row.selector row.integers + surplus row

section Bodies

variable {order : ℕ} [large : Fact (2 ^ 254 < order)] {row : SbfTraceRow}

omit large in
theorem field_cell (column : Column) :
    (row.field : Row (ZMod order)) column = ((row.integers column : ℤ) : ZMod order) :=
  congrFun row.field_eq column

omit large in
theorem selectorBody_cast :
    selectorBody row.selector (row.field : Row (ZMod order)) =
      ((selectorBody row.selector row.integers : ℤ) : ZMod order) := by
  have listed : row.selector ∈ selectorColumnIndices :=
    selectorColumn_listed row.insnType row.funct
  rw [row.field_eq, selectorBody_map _ listed]
  rfl

theorem immSource_iff :
    Scalar.toU64 ((row.field : Row (ZMod order)) colOpcode) &&& 0x08 = 0 ↔
      row.opcode &&& 0x08 = 0 := by
  have bit : ∀ opcode : Code, opcode.setWidth 64 &&& (0x08 : BitVec 64) = 0 ↔
      opcode &&& 0x08 = 0 := by
    decide
  rw [toU64_field]
  exact bit row.opcode

theorem evaluateAlu_cast (alu : isAlu row.insnType = true)
    (arithmetic : row.funct ∈ arithmeticFuncts) :
    evaluateAlu (row.field : Row (ZMod order)) = ((vectorBody row : ℤ) : ZMod order) := by
  have named : row.selector = aluSelector row.funct := by
    rw [SbfTraceRow.selector, selectorColumn, if_pos (by simpa [isAlu] using alu)]
  have constraint : aluConstraint row.funct (row.field : Row (ZMod order)) =
      selectorBody row.selector row.field := by
    rw [named]
    generalize row.funct = funct at arithmetic
    simp only [arithmeticFuncts, List.mem_cons, List.not_mem_nil, or_false] at arithmetic
    rcases arithmetic with rfl | rfl | rfl | rfl | rfl | rfl <;> rfl
  have branch : row.insnType ≠ insnBranch := by
    intro same
    rw [same] at alu
    exact absurd alu (by decide)
  have store : row.insnType ≠ insnStore := by
    intro same
    rw [same] at alu
    exact absurd alu (by decide)
  have vector : vectorBody row = selectorBody row.selector row.integers + surplus row :=
    if_neg fun ja => branch ja.1
  rw [vector, evaluateAlu, codeAt_insnType, codeAt_funct, if_pos alu, constraint,
    selectorBody_cast]
  simp only [immSource_iff]
  split
  · rename_i immediate
    have checks : ChecksSource row := .inl ⟨alu, arithmetic, immediate⟩
    rw [surplus, if_pos checks, field_cell, field_cell, SbfTraceRow.integers_srcVal,
      SbfTraceRow.integers_immediate]
    push_cast
    ring
  · rename_i register
    have unchecked : ¬ ChecksSource row := by
      rintro (⟨-, -, immediate⟩ | ⟨same, -⟩)
      · exact register immediate
      · exact store same
    rw [surplus, if_neg unchecked, if_neg fun both => branch both.1, add_zero]

theorem evaluateMemory_load (load : row.insnType = insnLoad) :
    evaluateMemory (row.field : Row (ZMod order)) =
      ((vectorBody row : ℤ) : ZMod order) := by
  have named : row.selector = colSelLoad := by
    rw [SbfTraceRow.selector, load]
    rfl
  have unchecked : ¬ ChecksSource row := by
    rw [ChecksSource, load]
    rintro (⟨alu, -⟩ | ⟨same, -⟩)
    · exact absurd alu (by decide)
    · exact absurd same (by decide)
  have branch : row.insnType ≠ insnBranch := by
    rw [load]
    decide
  rw [vectorBody, if_neg fun ja => branch ja.1, surplus, if_neg unchecked,
    if_neg fun both => branch both.1, add_zero, ← selectorBody_cast, named,
    evaluateMemory, codeAt_insnType, if_pos load]
  rfl

theorem evaluateMemory_store (store : row.insnType = insnStore) :
    evaluateMemory (row.field : Row (ZMod order)) =
      ((vectorBody row : ℤ) : ZMod order) := by
  have named : row.selector = colSelStore := by
    rw [SbfTraceRow.selector, store]
    rfl
  have branch : row.insnType ≠ insnBranch := by
    rw [store]
    decide
  have body : selectorBody row.selector row.integers =
      row.memAddr.toNat - (row.dstValBefore.toNat + row.immediate.toNat) +
        (row.memVal.toNat - row.srcVal.toNat) := by
    rw [named]
    rfl
  have vector : vectorBody row = selectorBody row.selector row.integers + surplus row :=
    if_neg fun ja => branch ja.1
  have load : row.insnType ≠ insnLoad := by
    rw [store]
    decide
  rw [vector, body, evaluateMemory]
  simp only [codeAt_insnType, codeAt_funct, if_neg load, if_pos store, field_cell,
    SbfTraceRow.integers_memAddr, SbfTraceRow.integers_dstValBefore,
    SbfTraceRow.integers_immediate, SbfTraceRow.integers_memVal,
    SbfTraceRow.integers_srcVal]
  split
  · rename_i stx
    have unchecked : ¬ ChecksSource row := by
      rw [ChecksSource, store]
      rintro (⟨alu, -⟩ | ⟨-, st⟩)
      · exact absurd alu (by decide)
      · exact absurd stx (BitVec.not_le.2 st)
    rw [surplus, if_neg unchecked, if_neg fun both => branch both.1]
    push_cast
    ring
  · rename_i st
    have checks : ChecksSource row := .inr ⟨store, BitVec.not_le.1 st⟩
    rw [surplus, if_pos checks]
    push_cast
    ring

omit large in
/-- The vector of a branch is the body of its selector, but for JA and for another
term of JGT and JSGT. -/
theorem branchConstraint_eq (funct : Code) (cells : Row (ZMod order)) :
    branchConstraint funct cells =
      if funct = functJa then diffTaken cells
      else selectorBody (branchSelector funct) cells +
        if funct ∈ [functJgt, functJsgt] then diffNotTaken cells * cells colAux1
        else 0 := by
  have equal : ∀ cells : Row (ZMod order), targetCheck cells +
      (diffNotTaken cells * cells colAux1 + diffTaken cells * (1 - cells colAux1) +
        (1 - cells colAux1) * (cells colDstValBefore - cells colSrcVal) +
        binaryCheck (cells colAux1)) = evaluateBranchEqRaw cells + 0 := by
    intro cells
    rw [evaluateBranchEqRaw]
    ring
  have different : ∀ cells : Row (ZMod order), targetCheck cells +
      (diffNotTaken cells * (1 - cells colAux1) + diffTaken cells * cells colAux1 +
        (1 - cells colAux1) * (cells colDstValBefore - cells colSrcVal) +
        binaryCheck (cells colAux1)) = evaluateBranchNeqRaw cells + 0 := by
    intro cells
    rw [evaluateBranchNeqRaw]
    ring
  have less : ∀ cells : Row (ZMod order), targetCheck cells +
      (diffNotTaken cells * (1 - cells colAux1) + diffTaken cells * cells colAux1 +
        binaryCheck (cells colAux1)) = evaluateBranchLtRaw cells + 0 := by
    intro cells
    rw [evaluateBranchLtRaw]
    ring
  have atLeast : ∀ cells : Row (ZMod order), targetCheck cells +
      (diffNotTaken cells * cells colAux1 + diffTaken cells * (1 - cells colAux1) +
        binaryCheck (cells colAux1)) = evaluateBranchGeRaw cells + 0 := by
    intro cells
    rw [evaluateBranchGeRaw]
    ring
  have greater : ∀ cells : Row (ZMod order), targetCheck cells +
      (diffNotTaken cells * cells colAux1 + binaryCheck (cells colAux1)) =
        evaluateBranchesRaw cells + diffNotTaken cells * cells colAux1 := by
    intro cells
    rw [evaluateBranchesRaw]
    ring
  have unchecked : ∀ cells : Row (ZMod order),
      targetCheck cells + binaryCheck (cells colAux1) = evaluateBranchesRaw cells + 0 :=
    fun cells => (add_zero _).symm
  by_cases known : funct ∈ [functJa, functJeq, functJne, functJlt, functJge, functJgt,
      functJle, functJslt, functJsge, functJsgt]
  · simp only [List.mem_cons, List.not_mem_nil, or_false] at known
    rcases known with rfl | rfl | rfl | rfl | rfl | rfl | rfl | rfl | rfl | rfl
    · rfl
    · exact equal cells
    · exact different cells
    · exact less cells
    · exact atLeast cells
    · exact greater cells
    · exact unchecked cells
    · exact less cells
    · exact atLeast cells
    · exact greater cells
  · simp only [List.mem_cons, List.not_mem_nil, or_false, not_or] at known
    obtain ⟨ja, jeq, jne, jlt, jge, jgt, jle, jslt, jsge, jsgt⟩ := known
    have other : branchSelector funct = colSelBranchOther := by
      rw [branchSelector, if_neg jeq, if_neg jne, if_neg (not_or.2 ⟨jlt, jslt⟩),
        if_neg (not_or.2 ⟨jge, jsge⟩)]
    have strict : funct ∉ [functJgt, functJsgt] := by
      rw [List.mem_cons, List.mem_singleton]
      exact not_or.2 ⟨jgt, jsgt⟩
    rw [other, if_neg ja, if_neg strict, branchConstraint, if_neg ja]
    dsimp only
    rw [if_neg jeq, if_neg jne, if_neg jlt, if_neg jge, if_neg jgt, if_neg jle,
      if_neg jslt, if_neg jsge, if_neg jsgt]
    exact unchecked cells

theorem evaluateBranches_cast (branch : row.insnType = insnBranch) :
    evaluateBranches (row.field : Row (ZMod order)) =
      ((vectorBody row : ℤ) : ZMod order) := by
  have named : row.selector = branchSelector row.funct := by
    rw [SbfTraceRow.selector, branch]
    rfl
  have unchecked : ¬ ChecksSource row := by
    rw [ChecksSource, branch]
    rintro (⟨alu, -⟩ | ⟨same, -⟩)
    · exact absurd alu (by decide)
    · exact absurd same (by decide)
  rw [evaluateBranches, codeAt_insnType, codeAt_funct, if_pos branch,
    branchConstraint_eq]
  by_cases ja : row.funct = functJa
  · have vector : vectorBody row =
        row.nextPc.toNat - (row.pc.toNat + row.immediate.toNat) := if_pos ⟨branch, ja⟩
    rw [vector, if_pos ja]
    simp only [diffTaken, field_cell, SbfTraceRow.integers_nextPc,
      SbfTraceRow.integers_pc, SbfTraceRow.integers_immediate]
    push_cast
    ring
  · have vector : vectorBody row = selectorBody row.selector row.integers + surplus row :=
      if_neg fun here => ja here.2
    rw [vector, if_neg ja, ← named, selectorBody_cast, surplus, if_neg unchecked]
    by_cases strict : row.funct ∈ [functJgt, functJsgt]
    · rw [if_pos strict, if_pos ⟨branch, strict⟩]
      simp only [diffNotTaken, bpfInsnSize, field_cell, SbfTraceRow.integers_nextPc,
        SbfTraceRow.integers_pc, SbfTraceRow.integers_aux1]
      push_cast
      ring
    · rw [if_neg strict, if_neg fun both => strict both.2]
      push_cast
      ring

omit large in
/-- The other vectors hold the body of the selector. -/
theorem vectorBody_plain (unchecked : ¬ ChecksSource row)
    (straight : row.insnType ≠ insnBranch) :
    selectorBody row.selector (row.field : Row (ZMod order)) =
      ((vectorBody row : ℤ) : ZMod order) := by
  rw [selectorBody_cast, vectorBody, if_neg fun ja => straight ja.1, surplus,
    if_neg unchecked, if_neg fun both => straight both.1, add_zero]

/-- The first vector that can be other than zero on the rows of a selector. -/
def selectorVector (active : Column) : Row (ZMod order) → ZMod order :=
  (activeBodies domainConstraints active).headD fun _ => 0

omit large in
theorem activeVectors_eq {active : Column} (listed : active ∈ selectorColumnIndices) :
    (activeBodies domainConstraints active : List (Row (ZMod order) → ZMod order)) =
      selectorVector active ::
        if active ∈ [colSelAluAdd, colSelAluSub] then [evaluateAux0BinaryRaw] else [] := by
  simp only [selectorColumnIndices, List.mem_cons, List.not_mem_nil, or_false] at listed
  rcases listed with rfl | rfl | rfl | rfl | rfl | rfl | rfl | rfl | rfl | rfl | rfl |
    rfl | rfl | rfl | rfl | rfl | rfl | rfl | rfl | rfl | rfl | rfl
  all_goals rfl

theorem selectorVector_cast :
    selectorVector row.selector (row.field : Row (ZMod order)) =
      ((vectorBody row : ℤ) : ZMod order) := by
  have plain : ∀ selector ∈ [colSelAluAnd, colSelAluOr, colSelAluXor, colSelAluLsh,
      colSelAluRsh, colSelAluArsh, colSelAluOther, colSelCall, colSelExit],
      (selectorVector selector : Row (ZMod order) → ZMod order) =
        selectorBody selector := by
    simp only [List.forall_mem_cons, List.not_mem_nil, false_implies, implies_true,
      and_true]
    and_intros <;> rfl
  rcases selectorColumn_cases row.insnType row.funct with ⟨alu, named⟩ |
    ⟨load, named⟩ | ⟨store, named⟩ | ⟨branch, named⟩ | ⟨other, named⟩
  · change row.selector = _ at named
    by_cases arithmetic : row.funct ∈ arithmeticFuncts
    · have vectors : ∀ code ∈ arithmeticFuncts,
          (selectorVector (aluSelector code) : Row (ZMod order) → ZMod order) =
            evaluateAlu := by
        simp only [arithmeticFuncts, List.forall_mem_cons, List.not_mem_nil,
          false_implies, implies_true, and_true]
        and_intros <;> rfl
      rw [named, vectors row.funct arithmetic]
      exact evaluateAlu_cast alu arithmetic
    · have selectors : ∀ code, code ∉ arithmeticFuncts →
          aluSelector code ∈ [colSelAluAnd, colSelAluOr, colSelAluXor, colSelAluLsh,
            colSelAluRsh, colSelAluArsh, colSelAluOther, colSelCall, colSelExit] := by
        decide
      rw [plain row.selector (named ▸ selectors row.funct arithmetic)]
      refine vectorBody_plain ?_ ?_
      · rintro (⟨-, known, -⟩ | ⟨same, -⟩)
        · exact arithmetic known
        · rw [same] at alu
          exact absurd alu (by decide)
      · intro same
        rw [same] at alu
        exact absurd alu (by decide)
  · change row.selector = _ at named
    rw [named]
    exact evaluateMemory_load load
  · change row.selector = _ at named
    rw [named]
    exact evaluateMemory_store store
  · change row.selector = _ at named
    have vectors : ∀ selector ∈ branchColumns,
        (selectorVector selector : Row (ZMod order) → ZMod order) = evaluateBranches := by
      simp only [branchColumns, List.forall_mem_cons, List.not_mem_nil, false_implies,
        implies_true, and_true]
      and_intros <;> rfl
    rw [named, vectors _ (branchSelector_listed row.funct)]
    exact evaluateBranches_cast branch
  · change row.selector ∈ _ at named
    have listed : row.selector ∈ [colSelAluAnd, colSelAluOr, colSelAluXor, colSelAluLsh,
        colSelAluRsh, colSelAluArsh, colSelAluOther, colSelCall, colSelExit] :=
      List.mem_append_right [colSelAluAnd, colSelAluOr, colSelAluXor, colSelAluLsh,
        colSelAluRsh, colSelAluArsh, colSelAluOther] named
    rw [plain row.selector listed]
    refine vectorBody_plain ?_ fun same => other (by simp [same])
    rintro (⟨alu, -⟩ | ⟨same, -⟩)
    · rw [not_isAlu fun known => other (by simp_all)] at alu
      exact Bool.false_ne_true alu
    · exact other (by simp [same])

theorem within_vectorBody : Within 220 (vectorBody row) := by
  have word : ∀ value : Word, Within 64 value.toNat := fun value => .ofNat value.isLt
  have eight : Within 4 8 := by norm_num [Within]
  have zero : Within 130 0 := by norm_num [Within]
  have added : Within 130 (surplus row) := by
    unfold surplus
    split
    · exact ((word row.srcVal).sub (word row.immediate)).mono (by decide)
    split
    · exact (((word row.nextPc).sub ((word row.pc).add eight)).mul
        (word row.aux1)).mono (by decide)
    · exact zero
  unfold vectorBody
  split
  · exact ((word row.nextPc).sub ((word row.pc).add (word row.immediate))).mono
      (by decide)
  · exact ((within_selectorBody row.integers_within
      (selectorColumn_listed row.insnType row.funct)).add added).mono (by decide)

/-- The vectors vanish on the row in the field exactly when its words satisfy the
equation of its vector. -/
theorem vectors_field_iff :
    (∀ vector ∈ domainVectors, vector.value (row.field : Row (ZMod order)) = 0) ↔
      vectorBody row = 0 ∧
        (row.selector ∈ [colSelAluAdd, colSelAluSub] → row.aux0.toNat ≤ 1) := by
  have listed : row.selector ∈ selectorColumnIndices :=
    selectorColumn_listed row.insnType row.funct
  have binary : evaluateAux0BinaryRaw (row.field : Row (ZMod order)) = 0 ↔
      row.aux0.toNat ≤ 1 := binaryCheck_field_iff row colAux0
  rw [domainVectors_zero_iff, activeVectors_eq listed, List.forall_mem_cons,
    selectorVector_cast, cast_eq_zero_iff within_vectorBody (by decide)]
  split
  · rename_i carries
    rw [List.forall_mem_singleton, binary]
    exact and_congr_right fun _ => ⟨fun holds _ => holds, fun holds => holds carries⟩
  · rename_i free
    simp [free]

end Bodies

/-! The two evaluations agree on a row unless exactly one of two equations between
its words holds. -/

/-- For JA, the words jump to the immediate with `aux1` a bit, or satisfy neither
equation. For the other rows what the vector adds is zero, or the carry is no bit, or
the words satisfy neither equation. -/
def EvaluationsAgree (row : SbfTraceRow) : Prop :=
  if IsJa row then
    if row.nextPc.toNat = row.pc.toNat + row.immediate.toNat then row.aux1.toNat ≤ 1
    else evaluateBranchesRaw row.integers ≠ 0
  else surplus row = 0 ∨
    row.selector ∈ [colSelAluAdd, colSelAluSub] ∧ 1 < row.aux0.toNat ∨
    selectorBody row.selector row.integers ≠ 0 ∧
      selectorBody row.selector row.integers + surplus row ≠ 0

instance (row : SbfTraceRow) : Decidable (EvaluationsAgree row) := by
  delta EvaluationsAgree
  infer_instance

theorem evaluationsAgree_iff (row : SbfTraceRow) :
    (vectorBody row = 0 ∧
        (row.selector ∈ [colSelAluAdd, colSelAluSub] → row.aux0.toNat ≤ 1) ↔
      selectorBody row.selector row.integers = 0 ∧
        (row.selector ∈ [colSelAluAdd, colSelAluSub] → row.aux0.toNat ≤ 1)) ↔
      EvaluationsAgree row := by
  unfold vectorBody EvaluationsAgree
  split
  · rename_i ja
    have named : row.selector = colSelBranchOther := by
      rw [SbfTraceRow.selector, ja.1, ja.2]
      rfl
    have carries : row.selector ∉ [colSelAluAdd, colSelAluSub] := by
      rw [named]
      decide
    have body : selectorBody row.selector row.integers =
        evaluateBranchesRaw row.integers := by
      rw [named]
      rfl
    simp only [carries, false_implies, and_true, body]
    split
    · rename_i taken
      have zero : diffTaken row.integers = 0 := by
        rw [diffTaken, SbfTraceRow.integers_nextPc, SbfTraceRow.integers_pc,
          SbfTraceRow.integers_immediate, taken]
        push_cast
        ring
      have reduced : evaluateBranchesRaw row.integers = binaryCheck (row.aux1.toNat : ℤ) := by
        rw [evaluateBranchesRaw, targetCheck, zero, zero_mul, zero_add]
        rfl
      rw [reduced, taken, binaryCheck, mul_eq_zero, sub_eq_zero]
      omega
    · rename_i elsewhere
      have nonzero : ¬ (row.nextPc.toNat : ℤ) -
          (row.pc.toNat + row.immediate.toNat) = 0 := by omega
      tauto
  · by_cases equal : surplus row = 0
    · simp [equal]
    · by_cases carries : row.selector ∈ [colSelAluAdd, colSelAluSub]
      · by_cases bit : row.aux0.toNat ≤ 1
        · have : selectorBody row.selector row.integers = 0 →
              selectorBody row.selector row.integers + surplus row ≠ 0 := by
            intro zero
            rwa [zero, zero_add]
          have : ¬ 1 < row.aux0.toNat := by omega
          tauto
        · have : 1 < row.aux0.toNat := by omega
          tauto
      · have : selectorBody row.selector row.integers = 0 →
            selectorBody row.selector row.integers + surplus row ≠ 0 := by
          intro zero
          rwa [zero, zero_add]
        tauto

section Table

variable {order : ℕ} [Fact order.Prime] [Fact (2 ^ 254 < order)]

theorem evaluateOnDomain_zero_iff {rows : List SbfTraceRow} {index : ℕ}
    (inside : index < rows.length) :
    (∀ vector ∈ evaluateOnDomain
          (rows.map fun row => (row.field : Row (ZMod order))),
        vector[index]? = some 0) ↔
      vectorBody rows[index] = 0 ∧
        (rows[index].selector ∈ [colSelAluAdd, colSelAluSub] →
          rows[index].aux0.toNat ≤ 1) := by
  rw [← @vectors_field_iff order]
  simp only [evaluateOnDomain, List.forall_mem_map, List.getElem?_map,
    List.getElem?_eq_getElem inside, Option.map_some, Option.some_inj]

theorem evaluateAtPoint_zero_iff (row : SbfTraceRow) :
    (∀ alpha : ZMod order, evaluateAtPoint (List.ofFn row.field) alpha = 0) ↔
      selectorBody row.selector row.integers = 0 ∧
        (row.selector ∈ [colSelAluAdd, colSelAluSub] → row.aux0.toNat ≤ 1) := by
  rw [← @satisfied_field_iff order, ← vanishes_iff_satisfied]
  simp only [evaluateAtPoint_ofFn]

/-- Domain and point evaluation report the same on a row of a trace exactly when
`EvaluationsAgree` holds there. -/
theorem sbf_domain_agrees_iff {rows : List SbfTraceRow} {index : ℕ}
    (inside : index < rows.length) :
    ((∀ vector ∈ evaluateOnDomain
          (rows.map fun row => (row.field : Row (ZMod order))),
        vector[index]? = some 0) ↔
      ∀ alpha : ZMod order,
        evaluateAtPoint (List.ofFn rows[index].field) alpha = 0) ↔
      EvaluationsAgree rows[index] := by
  rw [evaluateOnDomain_zero_iff inside, evaluateAtPoint_zero_iff]
  exact evaluationsAgree_iff rows[index]

end Table

section Instances

/-- `mov64 r0, 1` with another source recorded. -/
def forgedMov : SbfTraceRow where
  opcode := 0xB7
  srcVal := 2
  dstValAfter := 2
  nextPc := 8
  insnType := insnAlu64
  funct := functMov
  immediate := 1

/-- The evaluation at a point does not report the forged source. -/
theorem forgedMov_disagrees :
    ¬ ((∀ vector ∈ evaluateOnDomain
          ([forgedMov].map fun row => (row.field : Row Fr)), vector[0]? = some 0) ↔
      ∀ alpha : Fr, evaluateAtPoint (List.ofFn forgedMov.field) alpha = 0) := by
  have inside : 0 < [forgedMov].length := by decide
  rw [evaluateOnDomain_zero_iff inside, evaluateAtPoint_zero_iff]
  show ¬ (vectorBody forgedMov = 0 ∧
      (forgedMov.selector ∈ [colSelAluAdd, colSelAluSub] → forgedMov.aux0.toNat ≤ 1) ↔ _)
  decide

/-- `mov64 r0, 1` as it is executed. -/
def honestMov : SbfTraceRow := { forgedMov with srcVal := 1, dstValAfter := 1 }

theorem honestMov_agrees :
    EvaluationsAgree honestMov ∧
      ((∀ vector ∈ evaluateOnDomain
            ([honestMov].map fun row => (row.field : Row Fr)), vector[0]? = some 0) ↔
        ∀ alpha : Fr, evaluateAtPoint (List.ofFn honestMov.field) alpha = 0) := by
  have inside : 0 < [honestMov].length := by decide
  have agrees : EvaluationsAgree honestMov := by decide
  exact ⟨agrees, (sbf_domain_agrees_iff inside).2 agrees⟩

end Instances

end MetaVm.Sbf.Constraints
