import MetaVm.Riscv.Constraints.System

namespace MetaVm.Riscv.Constraints

section Point

variable {F : Type} [CommRing F]

/-- All 128 row constraints hold. -/
def Satisfied (row : Row F) : Prop := ∀ value ∈ constraintValues row, value = 0

theorem Satisfied.eval_zero {row : Row F} (satisfied : Satisfied row) :
    ∀ constraint ∈ gatedConstraints, constraint.eval row = 0 := by
  intro constraint member
  refine satisfied _ ?_
  simp only [constraintValues, List.mem_append, List.mem_map]
  exact .inl (.inl ⟨constraint, member, rfl⟩)

/-- Exactly the selector `active` is set. -/
structure OneHot (row : Row F) (active : Column) : Prop where
  selector : active ∈ selectorColumnIndices
  set : row active = 1
  clear : ∀ other ∈ selectorColumnIndices, other ≠ active → row other = 0

/-- The bodies of the constraints whose selectors pass a test. -/
def gatedBodies (keep : List Column → Bool) : List (Row F → F) :=
  (gatedConstraints.filter fun constraint => keep constraint.selectors).map
    GatedConstraint.body

/-- The bodies that the selector `active` switches on. -/
def activeBodies (active : Column) : List (Row F → F) :=
  gatedBodies fun selectors => active ∈ selectors

theorem selectors_wellFormed :
    ∀ constraint ∈ (gatedConstraints : List (GatedConstraint F)),
      constraint.selectors.Nodup ∧
        ∀ selector ∈ constraint.selectors, selector ∈ selectorColumnIndices := by
  -- The selectors do not depend on the field, so they are checked over one.
  have checked : ∀ selectors ∈
      (gatedConstraints : List (GatedConstraint ℤ)).map GatedConstraint.selectors,
      selectors.Nodup ∧
        ∀ selector ∈ selectors, selector ∈ selectorColumnIndices := by
    decide +kernel
  have same : (gatedConstraints : List (GatedConstraint F)).map
      GatedConstraint.selectors =
        (gatedConstraints : List (GatedConstraint ℤ)).map
          GatedConstraint.selectors := rfl
  intro constraint member
  exact checked constraint.selectors (same ▸ List.mem_map_of_mem member)

namespace OneHot

variable {row : Row F} {active : Column}

theorem sum (hot : OneHot row active) :
    ∀ (selectors : List Column), selectors.Nodup →
      (∀ selector ∈ selectors, selector ∈ selectorColumnIndices) →
      (selectors.map row).sum = if active ∈ selectors then 1 else 0
  | [], _, _ => by simp
  | selector :: rest, nodup, known => by
      obtain ⟨fresh, restNodup⟩ := List.nodup_cons.1 nodup
      have restSum := hot.sum rest restNodup fun other member =>
        known other (List.mem_cons_of_mem _ member)
      rw [List.map_cons, List.sum_cons, restSum]
      by_cases same : selector = active
      · subst same
        simp [hot.set, fresh]
      · have cleared := hot.clear selector (known selector (by simp)) same
        simp [cleared, Ne.symm same]

theorem eval_eq (hot : OneHot row active) {constraint : GatedConstraint F}
    (member : constraint ∈ gatedConstraints) :
    constraint.eval row =
      if active ∈ constraint.selectors then constraint.body row else 0 := by
  obtain ⟨nodup, known⟩ := selectors_wellFormed constraint member
  rw [GatedConstraint.eval, GatedConstraint.gate, hot.sum _ nodup known]
  split <;> simp

theorem selectorBinary_eq (hot : OneHot row active) {selector : Column}
    (member : selector ∈ selectorColumnIndices) :
    selectorBinary row selector = 0 := by
  by_cases same : selector = active
  · subst same
    simp [selectorBinary, hot.set]
  · simp [selectorBinary, hot.clear selector member same]

theorem selectorSum_eq (hot : OneHot row active) : selectorSum row = 1 := by
  have total := hot.sum selectorColumnIndices (by decide) fun _ member => member
  rw [if_pos hot.selector, List.sum_eq_foldl, List.foldl_map] at total
  exact total

/-- On a one-hot row only the active bodies remain of the 128 constraints. -/
theorem satisfied_iff (hot : OneHot row active) :
    Satisfied row ↔ ∀ body ∈ activeBodies active, body row = 0 := by
  constructor
  · intro satisfied body member
    obtain ⟨constraint, kept, rfl⟩ := List.mem_map.1 member
    obtain ⟨known, gated⟩ := List.mem_filter.1 kept
    have value := satisfied.eval_zero constraint known
    rwa [hot.eval_eq known, if_pos (by simpa using gated)] at value
  · intro zero value member
    simp only [constraintValues, List.mem_append, List.mem_map,
      List.mem_singleton] at member
    rcases member with (⟨constraint, known, rfl⟩ | ⟨selector, known, rfl⟩) | rfl
    · rw [hot.eval_eq known]
      split
      · rename_i gated
        exact zero _ (List.mem_map_of_mem
          (List.mem_filter.2 ⟨known, by simpa using gated⟩))
      · rfl
    · exact hot.selectorBinary_eq known
    · rw [hot.selectorSum_eq, sub_self]

end OneHot

/-- The constraints gated by a set selector alone hold with their bodies. -/
theorem ownBodies_zero {row : Row F} {selector : Column}
    (selected : row selector = 1)
    (zero : ∀ constraint ∈ gatedConstraints, constraint.selectors = [selector] →
      constraint.eval row = 0) :
    ∀ body ∈ gatedBodies (· = [selector]), body row = 0 := by
  intro body member
  obtain ⟨constraint, kept, rfl⟩ := List.mem_map.1 member
  obtain ⟨known, own⟩ := List.mem_filter.1 kept
  have own' : constraint.selectors = [selector] := by simpa using own
  have value := zero constraint known own'
  simpa [GatedConstraint.eval, GatedConstraint.gate, own', selected] using value

/-- A row from its data columns and its active selector. -/
def selectRow (data : Fin 19 → F) (active : Column) : Row F :=
  Fin.append data fun index : Fin 64 =>
    if Fin.natAdd 19 index = active then 1 else 0

theorem selectRow_selector (data : Fin 19 → F) {active selector : Column}
    (known : selector ∈ selectorColumnIndices) :
    selectRow data active selector = if selector = active then 1 else 0 := by
  rw [selectorColumnIndices_eq] at known
  obtain ⟨index, rfl⟩ := List.mem_ofFn.1 known
  rw [selectRow, Fin.append_right]

theorem selectRow_oneHot (data : Fin 19 → F) {active : Column}
    (known : active ∈ selectorColumnIndices) :
    OneHot (selectRow data active) active where
  selector := known
  set := by rw [selectRow_selector data known, if_pos rfl]
  clear := by
    intro other otherKnown different
    rw [selectRow_selector data otherKnown, if_neg different]

/-- The data columns by name. -/
structure Cells (F : Type) [Zero F] where
  pc : F := 0
  rd : F := 0
  rdValBefore : F := 0
  rdValAfter : F := 0
  rs1 : F := 0
  rs1Val : F := 0
  rs2 : F := 0
  rs2Val : F := 0
  memAddr : F := 0
  memVal : F := 0
  nextPc : F := 0
  privilegeMode : F := 0
  insnType : F := 0
  funct : F := 0
  immediate : F := 0
  insnLen : F := 0
  aux0 : F := 0
  aux1 : F := 0
  aux2 : F := 0

def Cells.row (cells : Cells F) (active : Column) : Row F :=
  selectRow ![cells.pc, cells.rd, cells.rdValBefore, cells.rdValAfter,
    cells.rs1, cells.rs1Val, cells.rs2, cells.rs2Val, cells.memAddr,
    cells.memVal, cells.nextPc, cells.privilegeMode, cells.insnType,
    cells.funct, cells.immediate, cells.insnLen, cells.aux0, cells.aux1,
    cells.aux2] active

theorem Cells.row_oneHot (cells : Cells F) {active : Column}
    (known : active ∈ selectorColumnIndices) :
    OneHot (cells.row active) active :=
  selectRow_oneHot _ known

theorem Cells.satisfied_iff (cells : Cells F) {active : Column}
    {bodies : List (Row F → F)} (known : active ∈ selectorColumnIndices)
    (listed : activeBodies active = bodies) :
    Satisfied (cells.row active) ↔
      ∀ body ∈ bodies, body (cells.row active) = 0 := by
  rw [(cells.row_oneHot known).satisfied_iff, listed]

end Point

end MetaVm.Riscv.Constraints

namespace MetaVm.Riscv.Constraints

/-! The bodies are polynomials with integer coefficients: they commute with
every ring homomorphism, so a row of words can be evaluated over the
integers. -/

section Map

variable {F G : Type} [CommRing F] [CommRing G] (f : F →+* G)

@[simp]
theorem map_two : f 2 = 2 := map_ofNat f 2

@[simp]
theorem map_twoPow64 : f twoPow64 = twoPow64 := by simp [twoPow64]

@[simp]
theorem map_twoPow32 : f twoPow32 = twoPow32 := by simp [twoPow32]

@[simp]
theorem map_signExtOffset : f signExtOffset = signExtOffset := by
  simp [signExtOffset]

@[simp]
theorem map_binaryCheck (value : F) :
    f (binaryCheck value) = binaryCheck (f value) := by
  simp [binaryCheck]

@[simp]
theorem map_signedLt (borrow signA signB : F) :
    f (signedLt borrow signA signB) = signedLt (f borrow) (f signA) (f signB) := by
  simp [signedLt]

@[simp]
theorem map_wordTruncation (value upper result sign : F) :
    f (wordTruncation value upper result sign) =
      wordTruncation (f value) (f upper) (f result) (f sign) := by
  simp [wordTruncation]

/-- The same constraint over two rings. -/
structure GatedConstraint.Maps (source : GatedConstraint F)
    (image : GatedConstraint G) : Prop where
  selectors : source.selectors = image.selectors
  body : ∀ row, image.body (f ∘ row) = f (source.body row)

theorem gatedConstraints_maps :
    List.Forall₂ (GatedConstraint.Maps f) gatedConstraints gatedConstraints := by
  unfold gatedConstraints
  repeat' apply List.Forall₂.cons
  any_goals exact List.Forall₂.nil
  all_goals
    refine ⟨rfl, fun row => ?_⟩
    simp [evaluateSequentialPcRaw, diffTaken, diffNotTaken, targetCheck,
      evaluateBeqConditionRaw, evaluateBneConditionRaw, evaluateBltuConditionRaw,
      evaluateBgeuConditionRaw, evaluateSignedBranchCondition,
      evaluateBltConditionRaw, evaluateBgeConditionRaw, evaluateJalRaw,
      evaluateJalrRaw, evaluateLuiRaw, evaluateAuipcRaw, evaluateMemoryOpsRaw,
      evaluateAluWAddwRaw, evaluateAluWSubwRaw, evaluateAluWAddiwRaw,
      evaluateMulRaw, evaluateDivRaw, evaluateRemRaw, evaluateAluRAddMainRaw,
      evaluateAluRSubMainRaw, evaluateAluIAddMainRaw, evaluateAux0BinaryRaw,
      evaluateRAndRaw, evaluateROrRaw, evaluateRXorRaw, evaluateIAndRaw,
      evaluateIOrRaw, evaluateIXorRaw, shiftLeftBody, shiftRightBody,
      shiftRightArithBody, evaluateSllRaw, evaluateSrlRaw, evaluateSraRaw,
      evaluateWSllRaw, evaluateWSrlRaw, evaluateWSraRaw, evaluateCompareRaw,
      evaluateCsrrsRaw, evaluateCsrrcRaw, evaluateCsrrwRaw, evaluateLrRaw,
      evaluateScRaw, evaluateMulhuRaw, evaluateCsrrwIRaw, evaluateCsrrsIRaw,
      evaluateMulhRaw, evaluateMulhsuRaw, evaluateMulwRaw, evaluateDivwRaw,
      evaluateRemwRaw, evaluateAmoSwapRaw, evaluateAmoAddRaw, evaluateAmoAndRaw,
      evaluateAmoOrRaw, evaluateAmoXorRaw, evaluateAmoMinuRaw,
      evaluateAmoMaxuRaw, evaluateAmoMinsRaw, evaluateAmoMaxsRaw]

theorem forall_bodies_map {sources : List (GatedConstraint F)}
    {images : List (GatedConstraint G)}
    (maps : List.Forall₂ (GatedConstraint.Maps f) sources images)
    (keep : List Column → Bool) (row : Row F) :
    (∀ body ∈ (images.filter fun constraint => keep constraint.selectors).map
        GatedConstraint.body, body (f ∘ row) = 0) ↔
      ∀ body ∈ (sources.filter fun constraint => keep constraint.selectors).map
        GatedConstraint.body, f (body row) = 0 := by
  induction maps with
  | nil => simp
  | cons head _ hypothesis =>
      rw [List.filter_cons, List.filter_cons, head.selectors]
      split
      · simp only [List.map_cons, List.forall_mem_cons, hypothesis, head.body]
      · exact hypothesis

theorem forall_gatedBodies_map (keep : List Column → Bool) (row : Row F) :
    (∀ body ∈ (gatedBodies keep : List (Row G → G)), body (f ∘ row) = 0) ↔
      ∀ body ∈ (gatedBodies keep : List (Row F → F)), f (body row) = 0 :=
  forall_bodies_map f (gatedConstraints_maps f) keep row

theorem selectRow_map (data : Fin 19 → F) (active : Column) :
    selectRow (f ∘ data) active = f ∘ selectRow data active := by
  funext column
  refine Fin.addCases (m := 19) (n := 64) (fun index => ?_) (fun index => ?_)
    column
  · simp only [selectRow, Function.comp_apply, Fin.append_left]
  · simp only [selectRow, Function.comp_apply, Fin.append_right]
    split <;> simp

end Map

end MetaVm.Riscv.Constraints
