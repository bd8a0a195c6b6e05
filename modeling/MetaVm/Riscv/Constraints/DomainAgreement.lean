import MetaVm.Riscv.Constraints.Domain
import MetaVm.Riscv.Constraints.ProverVerifier

namespace MetaVm.Riscv.Constraints

open Zkp CoeffList Polynomial

/-! Evaluation on the domain against evaluation at a point, on rows as the
trace export writes them. -/

section Checks

variable {order : ℕ} {active : Column}

/-- A row whose code cells and selectors name the instruction `insn`. -/
structure Exported (insn : Instruction) (row : Row (ZMod order)) : Prop where
  insnType : codeAt row colInsnType = (classifyInstruction insn).1
  funct : codeAt row colFunct = (classifyInstruction insn).2
  oneHot : OneHot row (selectorOf insn)

/-- A vector of the domain evaluation as a body that the codes of a row, or its
selector, switch on. -/
structure DomainCheck (order : ℕ) where
  guard : Code → Code → Column → Bool
  body : Row (ZMod order) → ZMod order

namespace DomainCheck

def value (check : DomainCheck order) (active : Column)
    (row : Row (ZMod order)) : ZMod order :=
  if check.guard (codeAt row colInsnType) (codeAt row colFunct) active then
    check.body row
  else 0

def ofCodes (insnType : Code) (functs : List Code)
    (body : Row (ZMod order) → ZMod order) : DomainCheck order where
  guard := fun code funct _ => code = insnType && functs.contains funct
  body := body

def ofType (insnType : Code) (body : Row (ZMod order) → ZMod order) :
    DomainCheck order where
  guard := fun code _ _ => code = insnType
  body := body

def ofSelector (selector : Column) (body : Row (ZMod order) → ZMod order) :
    DomainCheck order where
  guard := fun _ _ active => active = selector
  body := body

end DomainCheck

/-- What the vectors check. The logical right shifts run into the equations of
the left and the arithmetic shift, and the signed branches check their target
twice. -/
def domainChecks : List (DomainCheck order) :=
  [⟨fun code _ _ =>
        !List.contains [insnBranch, insnJal, insnJalr, insnSystem] code,
      evaluateSequentialPcRaw⟩,
    .ofCodes insnRAlu [functAdd] evaluateAluRAddMainRaw,
    .ofCodes insnRAlu [functSub] evaluateAluRSubMainRaw,
    .ofCodes insnIAlu [functAddi] evaluateAluIAddMainRaw,
    .ofCodes insnBranch [functBeq] evaluateBeqConditionRaw,
    .ofCodes insnBranch [functBne] evaluateBneConditionRaw,
    .ofCodes insnBranch [functBltu] evaluateBltuConditionRaw,
    .ofCodes insnBranch [functBgeu] evaluateBgeuConditionRaw,
    .ofCodes insnBranch [functBlt] fun row =>
      targetCheck row + evaluateBltConditionRaw row,
    .ofCodes insnBranch [functBge] fun row =>
      targetCheck row + evaluateBgeConditionRaw row,
    .ofType insnJal evaluateJalRaw,
    .ofType insnJalr evaluateJalrRaw,
    .ofType insnLui evaluateLuiRaw,
    .ofType insnAuipc evaluateAuipcRaw,
    ⟨fun code _ _ => [insnLoad, insnStore].contains code, evaluateMemoryOps⟩,
    .ofCodes insnRAlu [functAdd] evaluateAux0BinaryRaw,
    .ofCodes insnRAlu [functSub] evaluateAux0BinaryRaw,
    .ofCodes insnIAlu [functAddi] evaluateAux0BinaryRaw,
    .ofCodes insnWAlu [functAddw] evaluateAluWAddwRaw,
    .ofCodes insnWAlu [functSubw] evaluateAluWSubwRaw,
    .ofCodes insnWAlu [functAddiw] evaluateAluWAddiwRaw,
    .ofCodes insnMuldiv [0] evaluateMulRaw,
    .ofCodes insnMuldiv [4, 5] evaluateDivRaw,
    .ofCodes insnMuldiv [6, 7] evaluateRemRaw,
    .ofCodes insnRAlu [functAnd] evaluateRAndRaw,
    .ofCodes insnRAlu [functOr] evaluateROrRaw,
    .ofCodes insnRAlu [functXor] evaluateRXorRaw,
    .ofCodes insnIAlu [functAndi] evaluateIAndRaw,
    .ofCodes insnIAlu [functOri] evaluateIOrRaw,
    .ofCodes insnIAlu [functXori] evaluateIXorRaw,
    .ofCodes insnRAlu [functSll] evaluateSllRaw,
    .ofCodes insnRAlu [functSrl] evaluateSllRaw,
    .ofCodes insnRAlu [functSra] evaluateSraRaw,
    .ofCodes insnIAlu [functSlli] evaluateSllRaw,
    .ofCodes insnIAlu [functSrli] evaluateSraRaw,
    .ofCodes insnIAlu [functSrai] evaluateSraRaw,
    .ofCodes insnWAlu [functSllw, functSlliw] evaluateWSllRaw,
    .ofCodes insnWAlu [functSrlw, functSrliw] evaluateWSrlRaw,
    .ofCodes insnWAlu [functSraw, functSraiw] evaluateWSraRaw,
    .ofSelector colSelCsrrw evaluateCsrrwRaw,
    .ofSelector colSelCsrrwI evaluateCsrrwIRaw,
    .ofSelector colSelCsrrs evaluateCsrrsRaw,
    .ofSelector colSelCsrrsI evaluateCsrrsIRaw,
    .ofSelector colSelMulh evaluateMulhRaw,
    .ofSelector colSelMulhsu evaluateMulhsuRaw,
    .ofSelector colSelMulw evaluateMulwRaw,
    .ofSelector colSelDivw evaluateDivwRaw,
    .ofSelector colSelRemw evaluateRemwRaw,
    .ofSelector colSelAmoSwap evaluateAmoSwapRaw,
    .ofSelector colSelAmoAdd evaluateAmoAddRaw,
    .ofSelector colSelAmoBitwise evaluateAmoAndRaw,
    .ofSelector colSelAmoOr evaluateAmoOrRaw,
    .ofSelector colSelAmoXor evaluateAmoXorRaw,
    .ofSelector colSelAmoCompare evaluateAmoMinuRaw,
    .ofSelector colSelAmoMaxu evaluateAmoMaxuRaw,
    .ofSelector colSelAmoMins evaluateAmoMinsRaw,
    .ofSelector colSelAmoMaxs evaluateAmoMaxsRaw]

theorem onCodes_eq {insnType : Code} {functs : List Code}
    {pushed body : Row (ZMod order) → ZMod order} {row : Row (ZMod order)}
    (same : codeAt row colInsnType = insnType → codeAt row colFunct ∈ functs →
      pushed row = body row) :
    onCodes insnType functs pushed row =
      (DomainCheck.ofCodes insnType functs body).value active row := by
  simp only [onCodes, DomainCheck.value, DomainCheck.ofCodes, Bool.and_eq_true,
    decide_eq_true_eq, List.contains_iff_mem]
  split
  · rename_i codes
    exact same codes.1 codes.2
  · rfl

theorem onType_eq {insnType : Code}
    {pushed body : Row (ZMod order) → ZMod order} {row : Row (ZMod order)}
    (same : codeAt row colInsnType = insnType → pushed row = body row) :
    onType insnType pushed row =
      (DomainCheck.ofType insnType body).value active row := by
  simp only [onType, DomainCheck.value, DomainCheck.ofType, decide_eq_true_eq]
  split
  · rename_i code
    exact same code
  · rfl

theorem onSelector_eq [Nontrivial (ZMod order)] {row : Row (ZMod order)}
    (hot : OneHot row active) {selector : Column}
    (known : selector ∈ selectorColumnIndices)
    (body : Row (ZMod order) → ZMod order) :
    onSelector selector body row =
      (DomainCheck.ofSelector selector body).value active row := by
  simp only [onSelector, DomainCheck.value, DomainCheck.ofSelector,
    decide_eq_true_eq]
  by_cases same : active = selector
  · subst same
    rw [hot.set, if_neg one_ne_zero, if_pos rfl]
  · rw [hot.clear selector known (Ne.symm same), if_pos rfl, if_neg same]

theorem evaluateSequentialPc_eq (row : Row (ZMod order)) :
    evaluateSequentialPc row = DomainCheck.value
      ⟨fun code _ _ =>
        !List.contains [insnBranch, insnJal, insnJalr, insnSystem] code,
        evaluateSequentialPcRaw⟩ active row := by
  simp only [evaluateSequentialPc, DomainCheck.value]
  by_cases jumps :
      codeAt row colInsnType ∈ [insnBranch, insnJal, insnJalr, insnSystem]
  · rw [if_pos jumps, List.contains_iff_mem.2 jumps]
    rfl
  · rw [if_neg jumps, if_pos (by simpa using jumps)]
    rfl

theorem evaluateMemoryOps_eq (row : Row (ZMod order)) :
    evaluateMemoryOps row = DomainCheck.value
      ⟨fun code _ _ => [insnLoad, insnStore].contains code, evaluateMemoryOps⟩ active row := by
  simp only [DomainCheck.value, List.contains_iff_mem]
  split
  · rfl
  · rename_i other
    simp only [List.mem_cons, List.not_mem_nil, or_false, not_or] at other
    rw [evaluateMemoryOps, memoryConstraint, if_neg other.1, if_neg other.2]

theorem evaluateAux0BinaryChecks_eq (insnType funct : Code)
    (row : Row (ZMod order)) :
    evaluateAux0BinaryChecks insnType funct row =
      (DomainCheck.ofCodes insnType [funct] evaluateAux0BinaryRaw).value active row := by
  have same : onCodes insnType [funct] evaluateAux0BinaryRaw row =
      (DomainCheck.ofCodes insnType [funct] evaluateAux0BinaryRaw).value active row :=
    onCodes_eq fun _ _ => rfl
  rw [← same]
  simp only [evaluateAux0BinaryChecks, onCodes, List.mem_singleton]
  rfl

theorem evaluateShiftOnDomain_eq {insnType funct : Code} {functs : List Code}
    (row : Row (ZMod order))
    (codes : ∀ code, shiftMatches insnType funct code = functs.contains code) :
    evaluateShiftOnDomain insnType funct row =
      (DomainCheck.ofCodes insnType functs
        (shiftConstraint insnType funct)).value active row := by
  simp only [evaluateShiftOnDomain, DomainCheck.value, DomainCheck.ofCodes,
    codes, Bool.and_eq_true, decide_eq_true_eq]
  by_cases code : codeAt row colInsnType = insnType <;> simp [code]

section Dispatch

variable {row : Row (ZMod order)} {insnType funct : Code}

theorem evaluateAlu_eq (code : codeAt row colInsnType = insnType)
    (listed : codeAt row colFunct = funct) :
    evaluateAlu row = aluConstraint insnType funct row := by
  rw [evaluateAlu, code, listed]

theorem evaluateControlFlow_eq (code : codeAt row colInsnType = insnType)
    (listed : codeAt row colFunct = funct) :
    evaluateControlFlow row = controlFlowConstraint insnType funct row := by
  rw [evaluateControlFlow, code, listed]

theorem aluVector_eq (row : Row (ZMod order)) (insnType funct : Code) :
    onCodes insnType [funct] evaluateAlu row =
      (DomainCheck.ofCodes insnType [funct]
        (aluConstraint insnType funct)).value active row :=
  onCodes_eq fun code listed =>
    evaluateAlu_eq code (List.mem_singleton.1 listed)

theorem branchVector_eq {body : Row (ZMod order) → ZMod order}
    (same : controlFlowConstraint insnBranch funct row = body row) :
    onCodes insnBranch [funct] evaluateControlFlow row =
      (DomainCheck.ofCodes insnBranch [funct] body).value active row :=
  onCodes_eq fun code listed =>
    (evaluateControlFlow_eq code (List.mem_singleton.1 listed)).trans same

end Dispatch

theorem unsignedBranches_eq (row : Row (ZMod order)) :
    controlFlowConstraint insnBranch functBeq row = evaluateBeqConditionRaw row ∧
      controlFlowConstraint insnBranch functBne row =
        evaluateBneConditionRaw row ∧
      controlFlowConstraint insnBranch functBltu row =
        evaluateBltuConditionRaw row ∧
      controlFlowConstraint insnBranch functBgeu row =
        evaluateBgeuConditionRaw row := by
  have grouped : ∀ target a b c : ZMod order,
      target + (a + b + c) = target + a + b + c := by
    intros
    ring
  have grouped' : ∀ target a b c d : ZMod order,
      target + (a + b + c + d) = target + a + b + c + d := by
    intros
    ring
  exact ⟨grouped' _ _ _ _ _, grouped' _ _ _ _ _, grouped _ _ _ _,
    grouped _ _ _ _⟩

theorem divisionVectors_eq (active : Column) (row : Row (ZMod order)) :
    onCodes insnMuldiv [4, 5] evaluateAlu row =
        (DomainCheck.ofCodes insnMuldiv [4, 5] evaluateDivRaw).value active row ∧
      onCodes insnMuldiv [6, 7] evaluateAlu row =
        (DomainCheck.ofCodes insnMuldiv [6, 7] evaluateRemRaw).value active row := by
  constructor
  · refine onCodes_eq fun code listed => ?_
    rcases List.mem_pair.1 listed with div | divu
    · exact evaluateAlu_eq code div
    · exact evaluateAlu_eq code divu
  · refine onCodes_eq fun code listed => ?_
    rcases List.mem_pair.1 listed with rem | remu
    · exact evaluateAlu_eq code rem
    · exact evaluateAlu_eq code remu

/-- Every vector agrees with its check on the rows of a trace. -/
theorem domainVectors_eq [Nontrivial (ZMod order)] {row : Row (ZMod order)}
    (hot : OneHot row active) :
    List.Forall₂ (fun vector check => vector row = DomainCheck.value check active row)
      domainVectors domainChecks := by
  obtain ⟨beq, bne, bltu, bgeu⟩ := unsignedBranches_eq row
  obtain ⟨division, remainder⟩ := divisionVectors_eq active row
  have doubled : ∀ x y z : ZMod order,
      x - (y - Scalar.fromU64 2 * z) = x - (y - 2 * z) := by
    intros
    rw [Scalar.fromU64_two]
  refine .cons (evaluateSequentialPc_eq row) ?_
  iterate 3 refine .cons (aluVector_eq row _ _) ?_
  refine .cons (branchVector_eq beq) (.cons (branchVector_eq bne) ?_)
  refine .cons (branchVector_eq bltu) (.cons (branchVector_eq bgeu) ?_)
  refine .cons (branchVector_eq rfl) (.cons (branchVector_eq rfl) ?_)
  iterate 4
    refine .cons (onType_eq fun code => evaluateControlFlow_eq code rfl) ?_
  refine .cons (evaluateMemoryOps_eq row) ?_
  iterate 3 refine .cons (evaluateAux0BinaryChecks_eq _ _ row) ?_
  iterate 4 refine .cons (aluVector_eq row _ _) ?_
  refine .cons division (.cons remainder ?_)
  iterate 2
    refine .cons (onCodes_eq fun _ _ => rfl) ?_
    refine .cons (onCodes_eq fun _ _ => rfl) ?_
    refine .cons (onCodes_eq fun _ _ => doubled _ _ _) ?_
  iterate 9 refine .cons (evaluateShiftOnDomain_eq row (by decide)) ?_
  iterate 18 refine .cons (onSelector_eq hot (by decide) _) ?_
  exact .nil

end Checks

section Rows

variable {order : ℕ} {insn : Instruction} {row : Row (ZMod order)}

/-- The bodies that the domain evaluation checks on rows with the given codes
and selector. -/
def domainBodies (code funct : Code) (active : Column) :
    List (Row (ZMod order) → ZMod order) :=
  (domainChecks.filter fun check => check.guard code funct active).map
    DomainCheck.body

theorem forall_vector_iff {active : Column} {checks : List (DomainCheck order)}
    {vectors : List (Row (ZMod order) → ZMod order)}
    (same : List.Forall₂ (fun vector check =>
      vector row = DomainCheck.value check active row) vectors checks) :
    (∀ vector ∈ vectors, vector row = 0) ↔
      ∀ check ∈ checks, DomainCheck.value check active row = 0 := by
  induction same with
  | nil => simp
  | cons head _ ih =>
      rw [List.forall_mem_cons, List.forall_mem_cons, head, ih]

theorem domainZero_iff [Nontrivial (ZMod order)]
    (exported : Exported insn row) :
    (∀ vector ∈ domainVectors, vector row = 0) ↔
      ∀ body ∈ domainBodies (classifyInstruction insn).1
        (classifyInstruction insn).2 (selectorOf insn), body row = 0 := by
  rw [forall_vector_iff (domainVectors_eq exported.oneHot)]
  simp only [domainBodies, List.forall_mem_map, List.mem_filter, and_imp,
    DomainCheck.value, exported.insnType, exported.funct]
  refine forall₂_congr fun check _ => ?_
  split <;> simp_all

/-- The body of a store, next to its address, that only the domain evaluation
checks. -/
def storeValueCheck (op : StoreOp) (row : Row (ZMod order)) : ZMod order :=
  match op with
  | .sb => row colRs2Val - (row colAux0 * Scalar.fromU64 256 + row colMemVal)
  | .sh => row colRs2Val - (row colAux0 * Scalar.fromU64 65536 + row colMemVal)
  | .sw =>
      row colRs2Val - (row colAux0 * Scalar.fromU64 0x100000000 + row colMemVal)
  | .sd => row colMemVal - row colRs2Val

/-- When the two evaluations see the same on the rows of `insn` that reach its
next program counter: a body that the domain leaves out holds, one that it
adds holds or hides behind a failed check, one that it confuses with another
holds together with it. -/
def BodiesAgree (insn : Instruction) (row : Row (ZMod order)) : Prop :=
  match insn with
  | .op .slt _ _ _ => evaluateCompareRaw row = 0
  | .op .sltu _ _ _ => evaluateCompareRaw row = 0
  | .opImm .slti _ _ _ => evaluateCompareRaw row = 0
  | .opImm .sltiu _ _ _ => evaluateCompareRaw row = 0
  | .csr .rc _ _ _ => evaluateCsrrcRaw row = 0
  | .csrImm .rc _ _ _ => evaluateCsrrcRaw row = 0
  | .lr _ _ _ _ _ => evaluateLrRaw row = 0
  | .sc _ _ _ _ _ _ => evaluateScRaw row = 0
  | .mulDiv .mulhu _ _ _ => evaluateMulhuRaw row = 0
  | .store op _ _ _ =>
      storeValueCheck op row = 0 ∨ evaluateMemoryOpsRaw row ≠ 0 ∧
        evaluateMemoryOpsRaw row + storeValueCheck op row ≠ 0
  | .branch .blt _ _ _ =>
      targetCheck row = 0 ∨ evaluateBltConditionRaw row ≠ 0 ∧
        targetCheck row + evaluateBltConditionRaw row ≠ 0
  | .branch .bge _ _ _ =>
      targetCheck row = 0 ∨ evaluateBgeConditionRaw row ≠ 0 ∧
        targetCheck row + evaluateBgeConditionRaw row ≠ 0
  | .op .srl _ _ _ =>
      evaluateSrlRaw row = 0 ∧ evaluateSllRaw row = 0 ∨
        evaluateSrlRaw row ≠ 0 ∧ evaluateSllRaw row ≠ 0
  | .opImm .srli _ _ _ =>
      row colAux2 = 0 ∨ evaluateSrlRaw row ≠ 0 ∧ evaluateSraRaw row ≠ 0
  | _ => True

/-- The condition of `BodiesAgree`, or a program counter out of sequence, which
both evaluations report. -/
def AgreesOn (insn : Instruction) (row : Row (ZMod order)) : Prop :=
  selectorOf insn ∈ sequentialSelectors ∧ evaluateSequentialPcRaw row ≠ 0 ∨
    BodiesAgree insn row

/-- The domain evaluation and the evaluation at a point report the same. -/
def RowAgrees (insn : Instruction) (row : Row (ZMod order)) : Prop :=
  (∀ body ∈ domainBodies (classifyInstruction insn).1
      (classifyInstruction insn).2 (selectorOf insn), body row = 0) ↔
    ∀ body ∈ activeBodies (selectorOf insn), body row = 0

section Shapes

variable {code funct : Code} {selector : Column}
  {domainBody activeBody : Row (ZMod order) → ZMod order}

theorem rowAgrees_same (codes : classifyInstruction insn = (code, funct))
    (named : selectorOf insn = selector)
    (same : domainBodies code funct selector =
      (activeBodies selector : List (Row (ZMod order) → ZMod order)))
    (agree : BodiesAgree insn row) : RowAgrees insn row ↔ AgreesOn insn row := by
  refine iff_of_true ?_ (.inr agree)
  rw [RowAgrees, codes, named, same]

/-- Past the shared check of the program counter one body is left on each
side. -/
theorem rowAgrees_sequential (codes : classifyInstruction insn = (code, funct))
    (named : selectorOf insn = selector)
    (sequential : selector ∈ sequentialSelectors)
    (domain : domainBodies code funct selector =
      [evaluateSequentialPcRaw, domainBody])
    (active : activeBodies selector = [evaluateSequentialPcRaw, activeBody])
    (agree : BodiesAgree insn row ↔ (domainBody row = 0 ↔ activeBody row = 0)) :
    RowAgrees insn row ↔ AgreesOn insn row := by
  rw [RowAgrees, AgreesOn, codes, named, domain, active, agree]
  simp only [List.forall_mem_cons, List.not_mem_nil, false_implies,
    implies_true, and_true]
  tauto

theorem rowAgrees_missing (codes : classifyInstruction insn = (code, funct))
    (named : selectorOf insn = selector)
    (sequential : selector ∈ sequentialSelectors)
    (domain : domainBodies code funct selector =
      [(evaluateSequentialPcRaw : Row (ZMod order) → ZMod order)])
    (active : activeBodies selector = [evaluateSequentialPcRaw, activeBody])
    (agree : BodiesAgree insn row ↔ activeBody row = 0) :
    RowAgrees insn row ↔ AgreesOn insn row := by
  rw [RowAgrees, AgreesOn, codes, named, domain, active, agree]
  simp only [List.forall_mem_cons, List.not_mem_nil, false_implies,
    implies_true, and_true]
  tauto

theorem rowAgrees_branch (codes : classifyInstruction insn = (code, funct))
    (named : selectorOf insn = selector)
    (jumps : selector ∉ sequentialSelectors)
    (domain : domainBodies code funct selector = [domainBody])
    (active : activeBodies selector = [activeBody])
    (agree : BodiesAgree insn row ↔ (domainBody row = 0 ↔ activeBody row = 0)) :
    RowAgrees insn row ↔ AgreesOn insn row := by
  rw [RowAgrees, AgreesOn, codes, named, domain, active, agree]
  simp only [List.forall_mem_cons, List.not_mem_nil, false_implies,
    implies_true, and_true]
  tauto

end Shapes

/-- Adding a summand to a check changes whether it holds unless the summand is
zero or both fail. -/
theorem added_zero_iff {F : Type} [AddGroup F] (added check : F) :
    (added = 0 ∨ check ≠ 0 ∧ added + check ≠ 0) ↔
      (added + check = 0 ↔ check = 0) := by
  by_cases zero : added = 0
  · simp [zero]
  · by_cases holds : check = 0
    · simp [zero, holds]
    · simp [zero, holds]

theorem memoryOps_load (exported : Exported insn row)
    (load : (classifyInstruction insn).1 = insnLoad) :
    evaluateMemoryOps row = evaluateMemoryOpsRaw row := by
  rw [evaluateMemoryOps, exported.insnType, load]
  rfl

theorem memoryOps_store {op : StoreOp} {rs1 rs2 : Reg} {imm : Imm}
    (exported : Exported (.store op rs1 rs2 imm) row) :
    evaluateMemoryOps row =
      evaluateMemoryOpsRaw row + storeValueCheck op row := by
  rw [evaluateMemoryOps, exported.insnType, exported.funct]
  cases op with
  | sb => rfl
  | sh => rfl
  | sw => rfl
  | sd => rfl

theorem evaluateSraRaw_eq (row : Row (ZMod order)) :
    evaluateSraRaw row = -(row colAux2 * twoPow64) + evaluateSrlRaw row := by
  simp only [evaluateSraRaw, evaluateSrlRaw, shiftRightArithBody, shiftRightBody]
  ring

theorem twoPow64_ne_zero [Fact (2 ^ 254 < order)] :
    (twoPow64 : ZMod order) ≠ 0 := by
  have large : 2 ^ 254 < order := Fact.out
  intro zero
  have divides : order ∣ 2 ^ 64 := by
    rw [← ZMod.natCast_eq_zero_iff]
    simpa only [twoPow64, Nat.cast_pow, Nat.cast_ofNat] using zero
  have small := Nat.le_of_dvd (by norm_num) divides
  omega

section Families

variable {rd rs1 rs2 : Reg} {imm : Imm}

theorem rowAgrees_load {op : LoadOp} (exported : Exported (.load op rd rs1 imm) row) :
    RowAgrees (.load op rd rs1 imm) row ↔ AgreesOn (.load op rd rs1 imm) row := by
  have named : selectorOf (.load op rd rs1 imm) = colSelLoad := rfl
  refine rowAgrees_sequential rfl named (by decide) rfl rfl ?_
  show True ↔ (evaluateMemoryOps row = 0 ↔ evaluateMemoryOpsRaw row = 0)
  simp only [memoryOps_load exported rfl]

theorem rowAgrees_store {op : StoreOp}
    (exported : Exported (.store op rs1 rs2 imm) row) :
    RowAgrees (.store op rs1 rs2 imm) row ↔ AgreesOn (.store op rs1 rs2 imm) row := by
  have named : selectorOf (.store op rs1 rs2 imm) = colSelStore := rfl
  refine rowAgrees_sequential rfl named (by decide) rfl rfl ?_
  show _ ↔ (evaluateMemoryOps row = 0 ↔ evaluateMemoryOpsRaw row = 0)
  rw [memoryOps_store exported, add_comm, ← added_zero_iff, BodiesAgree,
    add_comm]

theorem rowAgrees_op (op : RegOp) :
    RowAgrees (.op op rd rs1 rs2) row ↔ AgreesOn (.op op rd rs1 rs2) row := by
  have named : selectorOf (.op op rd rs1 rs2) = op.selector := selectorOf_op op
  cases op with
  | slt => exact rowAgrees_missing rfl named (by decide) rfl rfl .rfl
  | sltu => exact rowAgrees_missing rfl named (by decide) rfl rfl .rfl
  | srl =>
      refine rowAgrees_sequential rfl named (by decide) rfl rfl ?_
      show _ ↔ (evaluateSllRaw row = 0 ↔ evaluateSrlRaw row = 0)
      simp only [BodiesAgree]
      tauto
  | _ => exact rowAgrees_same rfl named rfl trivial

theorem rowAgrees_opImm [Fact order.Prime] [Fact (2 ^ 254 < order)] (op : ImmOp) :
    RowAgrees (.opImm op rd rs1 imm) row ↔ AgreesOn (.opImm op rd rs1 imm) row := by
  have named : selectorOf (.opImm op rd rs1 imm) = op.selector := selectorOf_opImm op
  cases op with
  | slti => exact rowAgrees_missing rfl named (by decide) rfl rfl .rfl
  | sltiu => exact rowAgrees_missing rfl named (by decide) rfl rfl .rfl
  | srli =>
      refine rowAgrees_sequential rfl named (by decide) rfl rfl ?_
      show _ ↔ (evaluateSraRaw row = 0 ↔ evaluateSrlRaw row = 0)
      have zero : -(row colAux2 * twoPow64) = 0 ↔ row colAux2 = 0 := by
        simp [twoPow64_ne_zero]
      rw [evaluateSraRaw_eq, ← added_zero_iff, zero, ← evaluateSraRaw_eq]
      rfl
  | _ => exact rowAgrees_same rfl named rfl trivial

theorem rowAgrees_opW (op : RegWOp) :
    RowAgrees (.opW op rd rs1 rs2) row ↔ AgreesOn (.opW op rd rs1 rs2) row := by
  have named : selectorOf (.opW op rd rs1 rs2) = op.selector := selectorOf_opW op
  cases op <;> exact rowAgrees_same rfl named rfl trivial

theorem rowAgrees_opImmW (op : ImmWOp) :
    RowAgrees (.opImmW op rd rs1 imm) row ↔
      AgreesOn (.opImmW op rd rs1 imm) row := by
  have named : selectorOf (.opImmW op rd rs1 imm) = op.selector := selectorOf_opImmW op
  cases op <;> exact rowAgrees_same rfl named rfl trivial

theorem rowAgrees_mulDiv (op : MulDivOp) :
    RowAgrees (.mulDiv op rd rs1 rs2) row ↔ AgreesOn (.mulDiv op rd rs1 rs2) row := by
  have named : selectorOf (.mulDiv op rd rs1 rs2) = op.selector := selectorOf_mulDiv op
  cases op with
  | mulhu => exact rowAgrees_missing rfl named (by decide) rfl rfl .rfl
  | _ => exact rowAgrees_same rfl named rfl trivial

theorem rowAgrees_branches (op : BranchOp) :
    RowAgrees (.branch op rs1 rs2 imm) row ↔
      AgreesOn (.branch op rs1 rs2 imm) row := by
  have named : selectorOf (.branch op rs1 rs2 imm) = op.selector := selectorOf_branch op
  cases op with
  | blt => exact rowAgrees_branch rfl named (by decide) rfl rfl (added_zero_iff _ _)
  | bge => exact rowAgrees_branch rfl named (by decide) rfl rfl (added_zero_iff _ _)
  | _ => exact rowAgrees_same rfl named rfl trivial

theorem rowAgrees_csr (op : CsrOp) {csr : CsrAddr} :
    RowAgrees (.csr op rd rs1 csr) row ↔ AgreesOn (.csr op rd rs1 csr) row := by
  cases op with
  | rc =>
      have named : selectorOf (.csr .rc rd rs1 csr) = colSelCsrrc := rfl
      exact rowAgrees_missing rfl named (by decide) rfl rfl .rfl
  | _ => exact rowAgrees_same rfl rfl rfl trivial

theorem rowAgrees_csrImm (op : CsrOp) {uimm : BitVec 5} {csr : CsrAddr} :
    RowAgrees (.csrImm op rd uimm csr) row ↔
      AgreesOn (.csrImm op rd uimm csr) row := by
  cases op with
  | rc =>
      have named : selectorOf (.csrImm .rc rd uimm csr) = colSelCsrrc := rfl
      exact rowAgrees_missing rfl named (by decide) rfl rfl .rfl
  | _ => exact rowAgrees_same rfl rfl rfl trivial

theorem rowAgrees_amo (op : AmoOp) (width : AmoWidth) (aq rl : Bool) :
    RowAgrees (.amo op width rd rs1 rs2 aq rl) row ↔
      AgreesOn (.amo op width rd rs1 rs2 aq rl) row := by
  have named : selectorOf (.amo op width rd rs1 rs2 aq rl) = op.selector :=
    selectorOf_amo op width aq rl
  cases op <;> exact rowAgrees_same rfl named rfl trivial

theorem rowAgrees_lr (width : AmoWidth) (aq rl : Bool) :
    RowAgrees (.lr width rd rs1 aq rl) row ↔
      AgreesOn (.lr width rd rs1 aq rl) row := by
  have named : selectorOf (.lr width rd rs1 aq rl) = colSelLr := by
    cases width <;> rfl
  cases width <;> exact rowAgrees_missing rfl named (by decide) rfl rfl .rfl

theorem rowAgrees_sc (width : AmoWidth) (aq rl : Bool) :
    RowAgrees (.sc width rd rs1 rs2 aq rl) row ↔
      AgreesOn (.sc width rd rs1 rs2 aq rl) row := by
  have named : selectorOf (.sc width rd rs1 rs2 aq rl) = colSelSc := by
    cases width <;> rfl
  cases width <;> exact rowAgrees_missing rfl named (by decide) rfl rfl .rfl

end Families

variable [Fact order.Prime] [Fact (2 ^ 254 < order)]

theorem rowAgrees_iff (exported : Exported insn row) :
    RowAgrees insn row ↔ AgreesOn insn row := by
  cases insn with
  | load op rd rs1 imm => exact rowAgrees_load exported
  | store op rs1 rs2 imm => exact rowAgrees_store exported
  | op op rd rs1 rs2 => exact rowAgrees_op op
  | opImm op rd rs1 imm => exact rowAgrees_opImm op
  | opW op rd rs1 rs2 => exact rowAgrees_opW op
  | opImmW op rd rs1 imm => exact rowAgrees_opImmW op
  | branch op rs1 rs2 imm => exact rowAgrees_branches op
  | mulDiv op rd rs1 rs2 => exact rowAgrees_mulDiv op
  | csr op rd rs1 csr => exact rowAgrees_csr op
  | csrImm op rd uimm csr => exact rowAgrees_csrImm op
  | lr width rd rs1 aq rl => exact rowAgrees_lr width aq rl
  | sc width rd rs1 rs2 aq rl => exact rowAgrees_sc width aq rl
  | amo op width rd rs1 rs2 aq rl => exact rowAgrees_amo op width aq rl
  | _ => exact rowAgrees_same rfl rfl rfl trivial

/-- A combination of the constraints is zero for every `alpha` only if all of
them are. -/
theorem vanishes_iff_satisfied (row : Row (ZMod order)) :
    (∀ alpha, evaluateAtPointExtended row alpha = 0) ↔ Satisfied row := by
  have large : 2 ^ 254 < order := Fact.out
  have : NeZero order := ⟨by omega⟩
  have short : (constraintValues row).length ≤ Fintype.card (ZMod order) := by
    rw [ZMod.card]
    have length : (constraintValues row).length = 128 := rfl
    omega
  simp only [evaluateAtPointExtended_eq, evalPolyAt_eq]
  exact eval_toPoly_eq_zero_iff short

/-- Domain and point evaluation report the same on a row of a trace exactly
when `AgreesOn` holds there. -/
theorem domain_agrees_iff {table : List (Row (ZMod order))} {index : ℕ}
    (inside : index < table.length) (exported : Exported insn table[index]) :
    ((∀ vector ∈ evaluateExtendedOnDomain table, vector[index]? = some 0) ↔
      ∀ alpha, evaluateAtPointExtended table[index] alpha = 0) ↔
        AgreesOn insn table[index] := by
  have entries : (∀ vector ∈ evaluateExtendedOnDomain table,
      vector[index]? = some 0) ↔
        ∀ vector ∈ domainVectors, vector table[index] = 0 := by
    simp only [evaluateExtendedOnDomain, List.forall_mem_map, List.getElem?_map,
      List.getElem?_eq_getElem inside, Option.map_some, Option.some_inj]
  rw [entries, domainZero_iff exported, vanishes_iff_satisfied,
    exported.oneHot.satisfied_iff]
  exact rowAgrees_iff exported

end Rows

section Instances

theorem codeAt_of_eq {order : ℕ} [Fact (2 ^ 254 < order)]
    {row : Row (ZMod order)} {column : Column} {code : Code}
    (cell : row column = Scalar.fromU64 (code.setWidth 64)) :
    codeAt row column = code := by
  have large : 2 ^ 254 < order := Fact.out
  have bound := (code.setWidth 64).isLt
  rw [codeAt, cell, Scalar.fromU64, Scalar.toU64_natCast (by omega),
    BitVec.ofNat_toNat, BitVec.setWidth_eq]
  exact BitVec.setWidth_setWidth_of_le code (by decide)

/-- Data cells with the codes of `insn` under its selector. -/
theorem exported_of_cells {order : ℕ} [Fact (2 ^ 254 < order)]
    (insn : Instruction) (cells : Cells (ZMod order))
    (insnType : cells.insnType =
      Scalar.fromU64 ((classifyInstruction insn).1.setWidth 64))
    (funct : cells.funct =
      Scalar.fromU64 ((classifyInstruction insn).2.setWidth 64))
    (known : selectorOf insn ∈ selectorColumnIndices) :
    Exported insn (cells.row (selectorOf insn)) where
  insnType := codeAt_of_eq insnType
  funct := codeAt_of_eq funct
  oneHot := cells.row_oneHot known

/-- A comparison that puts zero below zero. -/
def forgedCompare : Cells Fr where
  nextPc := Scalar.fromU64 4
  insnLen := Scalar.fromU64 4
  rd := 1
  rdValAfter := 1
  insnType := Scalar.fromU64 0
  funct := Scalar.fromU64 3

theorem forgedCompare_exported :
    Exported (.op .slt 1 0 0) (forgedCompare.row colSelRCompare) :=
  exported_of_cells (.op .slt 1 0 0) forgedCompare rfl rfl (by decide)

/-- The domain evaluation does not report the forged comparison. -/
theorem compare_row_unreported :
    Exported (.op .slt 1 0 0) (forgedCompare.row colSelRCompare) ∧
      (∀ vector ∈ evaluateExtendedOnDomain [forgedCompare.row colSelRCompare],
        vector[0]? = some 0) ∧
      ¬ ∀ alpha,
        evaluateAtPointExtended (forgedCompare.row colSelRCompare) alpha = 0 := by
  have exported := forgedCompare_exported
  have sequential : evaluateSequentialPcRaw (forgedCompare.row colSelRCompare) = 0 := by
    show (Scalar.fromU64 4 : Fr) - (0 + Scalar.fromU64 4) = 0
    ring
  have compare : evaluateCompareRaw (forgedCompare.row colSelRCompare) ≠ 0 := by
    show (1 : Fr) - signedLt 0 0 0 + binaryCheck 0 + binaryCheck 0 +
      binaryCheck 0 ≠ 0
    simp [signedLt, binaryCheck]
  refine ⟨exported, ?_, ?_⟩
  · have bodies : domainBodies insnRAlu functSlt colSelRCompare =
        [(evaluateSequentialPcRaw : Row Fr → Fr)] := rfl
    have zero := (domainZero_iff exported).2 (by
      show ∀ body ∈ domainBodies insnRAlu functSlt colSelRCompare, _
      rw [bodies, List.forall_mem_singleton]
      exact sequential)
    simpa [evaluateExtendedOnDomain] using zero
  · rw [vanishes_iff_satisfied, exported.oneHot.satisfied_iff]
    intro zero
    exact compare (zero evaluateCompareRaw (.tail _ (.head _)))

/-- The sum of zero and zero. -/
def honestAdd : Cells Fr where
  nextPc := Scalar.fromU64 4
  insnLen := Scalar.fromU64 4
  rd := 1
  insnType := Scalar.fromU64 0
  funct := Scalar.fromU64 0

theorem domain_agrees_add :
    Exported (.op .add 1 0 0) (honestAdd.row colSelRAluAdd) ∧
      ((∀ vector ∈ evaluateExtendedOnDomain [honestAdd.row colSelRAluAdd],
        vector[0]? = some 0) ↔
        ∀ alpha,
          evaluateAtPointExtended (honestAdd.row colSelRAluAdd) alpha = 0) := by
  have exported : Exported (.op .add 1 0 0) (honestAdd.row colSelRAluAdd) :=
    exported_of_cells (.op .add 1 0 0) honestAdd rfl rfl (by decide)
  have inside : 0 < [honestAdd.row colSelRAluAdd].length := by decide
  exact ⟨exported, (domain_agrees_iff inside exported).2 (.inr trivial)⟩

end Instances

end MetaVm.Riscv.Constraints
