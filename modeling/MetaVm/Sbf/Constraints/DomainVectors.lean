import MetaVm.Sbf.Constraints.Domain
import MetaVm.Sbf.Constraints.Rows

namespace MetaVm.Sbf.Constraints

open Zkp SelectorSystem SmallInt

/-! Which vectors can be other than zero on a row of a trace. -/

section Guards

variable {selector : Column} {test : Code → Bool} {insnType funct : Code}

/-- The types of instructions with the selector each of them sets. -/
theorem selectorColumn_cases (insnType funct : Code) :
    isAlu insnType = true ∧ selectorColumn insnType funct = aluSelector funct ∨
      insnType = insnLoad ∧ selectorColumn insnType funct = colSelLoad ∨
      insnType = insnStore ∧ selectorColumn insnType funct = colSelStore ∨
      insnType = insnBranch ∧ selectorColumn insnType funct = branchSelector funct ∨
      insnType ∉ [insnAlu64, insnAlu32, insnLoad, insnStore, insnBranch] ∧
        selectorColumn insnType funct ∈ [colSelCall, colSelExit] := by
  unfold selectorColumn isAlu
  by_cases alu : insnType = insnAlu64 ∨ insnType = insnAlu32
  · exact .inl ⟨by simpa using alu, if_pos alu⟩
  by_cases load : insnType = insnLoad
  · exact .inr (.inl ⟨load, by rw [if_neg alu, if_pos load]⟩)
  by_cases store : insnType = insnStore
  · exact .inr (.inr (.inl ⟨store, by rw [if_neg alu, if_neg load, if_pos store]⟩))
  by_cases branch : insnType = insnBranch
  · refine .inr (.inr (.inr (.inl ⟨branch, ?_⟩)))
    rw [if_neg alu, if_neg load, if_neg store, if_pos branch]
  · refine .inr (.inr (.inr (.inr ⟨by simp_all, ?_⟩)))
    rw [if_neg alu, if_neg load, if_neg store, if_neg branch]
    split <;> decide

theorem not_isAlu {code : Code} (other : code ∉ [insnAlu64, insnAlu32]) :
    isAlu code = false := by
  simpa [isAlu] using other

def aluColumns : List Column :=
  [colSelAluAdd, colSelAluSub, colSelAluMov, colSelAluMul, colSelAluDiv, colSelAluMod,
    colSelAluAnd, colSelAluOr, colSelAluXor, colSelAluLsh, colSelAluRsh, colSelAluArsh,
    colSelAluOther]

def branchColumns : List Column :=
  [colSelBranchEq, colSelBranchNeq, colSelBranchLt, colSelBranchGe, colSelBranchOther]

theorem aluSelector_listed : ∀ code, aluSelector code ∈ aluColumns := by
  decide

theorem branchSelector_listed : ∀ code, branchSelector code ∈ branchColumns := by
  decide

theorem columns_disjoint :
    List.Pairwise (fun left right => ∀ column ∈ left, column ∉ right)
      [aluColumns, branchColumns, [colSelLoad], [colSelStore], [colSelCall, colSelExit]] := by
  decide

/-- The codes of an arithmetic vector are those that set its selector. -/
theorem alu_guard_iff (listed : selector ∈ aluColumns)
    (named : ∀ code, aluSelector code = selector ↔ test code = true) :
    (isAlu insnType && test funct) = true ↔ selectorColumn insnType funct = selector := by
  have apart : ∀ {columns : List Column} {column : Column},
      (∀ other ∈ aluColumns, other ∉ columns) → column ∈ columns → column ≠ selector :=
    fun disjoint member same => disjoint selector listed (same ▸ member)
  have disjoint := columns_disjoint
  simp only [List.pairwise_cons, List.forall_mem_cons] at disjoint
  obtain ⟨⟨branch, load, store, system, -⟩, -⟩ := disjoint
  rcases selectorColumn_cases insnType funct with ⟨alu, same⟩ | ⟨rfl, same⟩ |
    ⟨rfl, same⟩ | ⟨rfl, same⟩ | ⟨other, same⟩
  · rw [same, named, alu, Bool.true_and]
  · rw [same, not_isAlu (by decide)]
    exact iff_of_false Bool.false_ne_true (apart load (.head _))
  · rw [same, not_isAlu (by decide)]
    exact iff_of_false Bool.false_ne_true (apart store (.head _))
  · rw [same, not_isAlu (by decide)]
    exact iff_of_false Bool.false_ne_true (apart branch (branchSelector_listed funct))
  · rw [not_isAlu fun alu => other (by simp_all)]
    exact iff_of_false Bool.false_ne_true (apart system same)

theorem branch_guard_iff (listed : selector ∈ branchColumns)
    (named : ∀ code, branchSelector code = selector ↔ test code = true) :
    (decide (insnType = insnBranch) && test funct) = true ↔
      selectorColumn insnType funct = selector := by
  have apart : ∀ {columns : List Column} {column : Column},
      (∀ other ∈ branchColumns, other ∉ columns) → column ∈ columns → column ≠ selector :=
    fun disjoint member same => disjoint selector listed (same ▸ member)
  have disjoint := columns_disjoint
  simp only [List.pairwise_cons, List.forall_mem_cons] at disjoint
  obtain ⟨⟨alu, -⟩, ⟨load, store, system, -⟩, -⟩ := disjoint
  rw [Bool.and_eq_true, decide_eq_true_eq]
  rcases selectorColumn_cases insnType funct with ⟨isAlu, same⟩ | ⟨rfl, same⟩ |
    ⟨rfl, same⟩ | ⟨rfl, same⟩ | ⟨other, same⟩
  · rw [same]
    refine iff_of_false ?_ fun here => alu _ (aluSelector_listed funct) (here ▸ listed)
    rintro ⟨rfl, -⟩
    exact absurd isAlu (by decide)
  · rw [same]
    exact iff_of_false (fun both => absurd both.1 (by decide)) (apart load (.head _))
  · rw [same]
    exact iff_of_false (fun both => absurd both.1 (by decide)) (apart store (.head _))
  · rw [same, named]
    exact and_iff_right rfl
  · exact iff_of_false (fun both => other (by simp [both.1])) (apart system same)

theorem load_guard_iff :
    decide (insnType = insnLoad) = true ↔ selectorColumn insnType funct = colSelLoad := by
  rw [decide_eq_true_eq]
  rcases selectorColumn_cases insnType funct with ⟨isAlu, same⟩ | ⟨rfl, same⟩ |
    ⟨rfl, same⟩ | ⟨rfl, same⟩ | ⟨other, same⟩
  · rw [same]
    refine iff_of_false ?_ fun here => absurd (here ▸ aluSelector_listed funct) (by decide)
    rintro rfl
    exact absurd isAlu (by decide)
  · exact iff_of_true rfl same
  · exact iff_of_false (by decide) (same ▸ by decide)
  · rw [same]
    exact iff_of_false (by decide) fun here =>
      absurd (here ▸ branchSelector_listed funct) (by decide)
  · refine iff_of_false (fun here => other (by simp [here])) fun here => ?_
    rw [here] at same
    exact absurd same (by decide)

theorem store_guard_iff :
    decide (insnType = insnStore) = true ↔
      selectorColumn insnType funct = colSelStore := by
  rw [decide_eq_true_eq]
  rcases selectorColumn_cases insnType funct with ⟨isAlu, same⟩ | ⟨rfl, same⟩ |
    ⟨rfl, same⟩ | ⟨rfl, same⟩ | ⟨other, same⟩
  · rw [same]
    refine iff_of_false ?_ fun here => absurd (here ▸ aluSelector_listed funct) (by decide)
    rintro rfl
    exact absurd isAlu (by decide)
  · exact iff_of_false (by decide) (same ▸ by decide)
  · exact iff_of_true rfl same
  · rw [same]
    exact iff_of_false (by decide) fun here =>
      absurd (here ▸ branchSelector_listed funct) (by decide)
  · refine iff_of_false (fun here => other (by simp [here])) fun here => ?_
    rw [here] at same
    exact absurd same (by decide)

end Guards

section Vectors

variable {order : ℕ}

/-- The vectors under the selectors of the rows they check. -/
def domainConstraints : List (Gated Column (ZMod order)) :=
  [⟨colSelAluAdd, evaluateAlu⟩, ⟨colSelAluSub, evaluateAlu⟩,
    ⟨colSelAluMov, evaluateAlu⟩, ⟨colSelAluMul, evaluateAlu⟩,
    ⟨colSelAluDiv, evaluateAlu⟩, ⟨colSelAluMod, evaluateAlu⟩,
    ⟨colSelAluAnd, evaluateAluAndRaw⟩, ⟨colSelAluOr, evaluateAluOrRaw⟩,
    ⟨colSelAluXor, evaluateAluXorRaw⟩, ⟨colSelAluLsh, evaluateAluLshRaw⟩,
    ⟨colSelAluRsh, evaluateAluRshRaw⟩, ⟨colSelAluArsh, evaluateAluArshRaw⟩,
    ⟨colSelBranchEq, evaluateBranches⟩, ⟨colSelBranchNeq, evaluateBranches⟩,
    ⟨colSelBranchLt, evaluateBranches⟩, ⟨colSelBranchGe, evaluateBranches⟩,
    ⟨colSelBranchOther, evaluateBranches⟩, ⟨colSelLoad, evaluateMemory⟩,
    ⟨colSelStore, evaluateMemory⟩, ⟨colSelAluAdd, evaluateAux0BinaryRaw⟩,
    ⟨colSelAluSub, evaluateAux0BinaryRaw⟩, ⟨colSelCall, evaluateCallRaw⟩,
    ⟨colSelExit, evaluateExitRaw⟩, ⟨colSelAluOther, evaluateAluNegRaw⟩]

variable [large : Fact (2 ^ 254 < order)] (row : SbfTraceRow)

theorem toU64_field (column : Column) :
    Scalar.toU64 ((row.field : Row (ZMod order)) column) = row.pushRow column := by
  have bound := (row.pushRow column).isLt
  have := large.out
  rw [SbfTraceRow.field, Scalar.fromU64, Scalar.toU64_natCast (by omega),
    BitVec.ofNat_toNat, BitVec.setWidth_eq]

theorem codeAt_insnType : codeAt (row.field : Row (ZMod order)) colInsnType = row.insnType := by
  rw [codeAt, toU64_field]
  exact BitVec.setWidth_setWidth_of_le row.insnType (by decide)

theorem codeAt_funct : codeAt (row.field : Row (ZMod order)) colFunct = row.funct := by
  rw [codeAt, toU64_field]
  exact BitVec.setWidth_setWidth_of_le row.funct (by decide)

/-- A vector and a constraint check the same of the row. -/
def ChecksSame (vector : DomainVector order) (constraint : Gated Column (ZMod order)) :
    Prop :=
  vector.value row.field = 0 ↔
    (constraint.selector = row.selector → constraint.body row.field = 0)

variable {row}

theorem checksSame {vector : DomainVector order}
    {constraint : Gated Column (ZMod order)}
    (guard : vector.guard row.insnType row.funct = true ↔
      row.selector = constraint.selector)
    (same : ∀ cells, vector.pushed cells = constraint.body cells) :
    ChecksSame row vector constraint := by
  rw [ChecksSame, DomainVector.value, codeAt_insnType, codeAt_funct, ite_eq_right_iff,
    guard, same, eq_comm]

omit large in
theorem checksSame_zeros {selector : Column} {body : Row (ZMod order) → ZMod order}
    (zero : ∀ cells, body cells = 0) : ChecksSame row zeros ⟨selector, body⟩ :=
  iff_of_true rfl fun _ => zero _

theorem forall_iff_of_forall₂ {α β : Type} {p : α → Prop} {q : β → Prop} {xs : List α}
    {ys : List β} (same : List.Forall₂ (fun x y => p x ↔ q y) xs ys) :
    (∀ x ∈ xs, p x) ↔ ∀ y ∈ ys, q y := by
  induction same with
  | nil => simp
  | cons head _ ih => simp only [List.forall_mem_cons, head, ih]

theorem alu_checksSame {funct : Code} {selector : Column}
    (named : ∀ code, aluSelector code = selector ↔ decide (code = funct) = true)
    (listed : selector ∈ aluColumns) {pushed body : Row (ZMod order) → ZMod order}
    (same : ∀ cells, pushed cells = body cells) :
    ChecksSame row (onAlu funct pushed) ⟨selector, body⟩ :=
  checksSame (alu_guard_iff listed named) same

theorem branch_checksSame {functs : List Code} {selector : Column}
    (named : ∀ code, branchSelector code = selector ↔ decide (code ∈ functs) = true)
    (listed : selector ∈ branchColumns) :
    ChecksSame row (onBranch functs : DomainVector order)
      ⟨selector, evaluateBranches⟩ :=
  checksSame (branch_guard_iff listed named) fun _ => rfl

theorem aluOther_checksSame :
    ChecksSame row (onAluOther fun row => row colDstValAfter + row colDstValBefore -
        row colAux0 * twoPow64 + row colAux0 * (row colAux0 - 1) : DomainVector order)
      ⟨colSelAluOther, evaluateAluNegRaw⟩ :=
  checksSame (@alu_guard_iff colSelAluOther (fun code => decide (code ∉ [functAdd,
    functSub, functMov, functMul, functDiv, functMod, functAnd, functOr, functXor,
    functLsh, functRsh, functArsh])) _ _ (by decide) (by decide)) fun _ => rfl

theorem branchOther_checksSame :
    ChecksSame row (onBranchOther : DomainVector order)
      ⟨colSelBranchOther, evaluateBranches⟩ :=
  checksSame (@branch_guard_iff colSelBranchOther (fun code => decide (code ∉ [functJeq,
    functJne, functJlt, functJslt, functJge, functJsge])) _ _ (by decide)
      (by decide)) fun _ => rfl

theorem aluSelector_add (code : Code) :
    aluSelector code = colSelAluAdd ↔ decide (code = functAdd) = true := by
  revert code
  decide

theorem aluSelector_sub (code : Code) :
    aluSelector code = colSelAluSub ↔ decide (code = functSub) = true := by
  revert code
  decide

/-- The vectors that can be other than zero on a row are those of its selector. -/
theorem domainVectors_zero_iff :
    (∀ vector ∈ domainVectors, vector.value (row.field : Row (ZMod order)) = 0) ↔
      ∀ body ∈ activeBodies domainConstraints row.selector,
        body (row.field : Row (ZMod order)) = 0 := by
  have xor : ∀ cells : Row (ZMod order),
      cells colDstValAfter - cells colDstValBefore - cells colSrcVal +
        Scalar.fromU64 2 * cells colAux0 = evaluateAluXorRaw cells := by
    intro cells
    rw [Scalar.fromU64_two]
    rfl
  rw [activeBodies_zero_iff]
  refine forall_iff_of_forall₂ ?_
  refine
    .cons (alu_checksSame aluSelector_add (by decide) fun _ => rfl) <|
    .cons (alu_checksSame aluSelector_sub (by decide) fun _ => rfl) <|
    .cons (alu_checksSame (by decide) (by decide) fun _ => rfl) <|
    .cons (alu_checksSame (by decide) (by decide) fun _ => rfl) <|
    .cons (alu_checksSame (by decide) (by decide) fun _ => rfl) <|
    .cons (alu_checksSame (by decide) (by decide) fun _ => rfl) <|
    .cons (alu_checksSame (by decide) (by decide) fun _ => rfl) <|
    .cons (alu_checksSame (by decide) (by decide) fun _ => rfl) <|
    .cons (alu_checksSame (by decide) (by decide) xor) <|
    .cons (alu_checksSame (by decide) (by decide) fun _ => rfl) <|
    .cons (alu_checksSame (by decide) (by decide) fun _ => rfl) <|
    .cons (alu_checksSame (by decide) (by decide) fun _ => rfl) <|
    .cons (branch_checksSame (by decide) (by decide)) <|
    .cons (branch_checksSame (by decide) (by decide)) <|
    .cons (branch_checksSame (by decide) (by decide)) <|
    .cons (branch_checksSame (by decide) (by decide)) <|
    .cons branchOther_checksSame <|
    .cons (checksSame load_guard_iff fun _ => rfl) <|
    .cons (checksSame store_guard_iff fun _ => rfl) <|
    .cons (alu_checksSame aluSelector_add (by decide) fun _ => rfl) <|
    .cons (alu_checksSame aluSelector_sub (by decide) fun _ => rfl) <|
    .cons (checksSame_zeros fun _ => rfl) <|
    .cons (checksSame_zeros fun _ => rfl) <|
    .cons aluOther_checksSame .nil

end Vectors

end MetaVm.Sbf.Constraints
