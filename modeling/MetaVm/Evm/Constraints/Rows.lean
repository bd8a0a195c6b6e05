import MetaVm.Evm.Trace
import MetaVm.Evm.Constraints.System

namespace MetaVm.Evm

open Zkp

/-! The selectors of a trace row: one of the first fifty, whatever its codes. -/

theorem lookup_getD (P : ℕ → Prop) {table : List (Code × ℕ)} {other : ℕ} (key : Code)
    (each : ∀ entry ∈ table, P entry.2) (outside : P other) :
    P ((table.lookup key).getD other) := by
  induction table with
  | nil => exact outside
  | cons entry rest hypothesis =>
      obtain ⟨code, slot⟩ := entry
      rw [List.lookup_cons]
      split
      · exact each _ List.mem_cons_self
      · exact hypothesis fun entry member => each entry (List.mem_cons_of_mem _ member)

theorem lookup_toList (P : ℕ → Prop) {table : List (Code × ℕ)} (key : Code)
    (each : ∀ entry ∈ table, P entry.2) :
    ∀ slot ∈ (table.lookup key).toList, P slot := by
  induction table with
  | nil => simp
  | cons entry rest hypothesis =>
      obtain ⟨code, slot⟩ := entry
      rw [List.lookup_cons]
      split
      · simpa using each _ List.mem_cons_self
      · exact hypothesis fun entry member => each entry (List.mem_cons_of_mem _ member)

theorem ite_intro {α : Type} (P : α → Prop) {c : Prop} [Decidable c] {yes no : α}
    (isYes : c → P yes) (isNo : ¬ c → P no) : P (if c then yes else no) := by
  split
  · exact isYes ‹_›
  · exact isNo ‹_›

namespace EvmTraceRow

variable (row : EvmTraceRow)

/-- Slot 38 belongs to the jumps. -/
theorem selectorSlot_cases {P : ℕ → Prop} (jump : row.insnType = insnJump → P 38)
    (other : ∀ slot, slot < 50 ∧ slot ≠ 38 → P slot) : P row.selectorSlot := by
  rw [selectorSlot]
  repeat' refine ite_intro P (fun _ => ?_) fun _ => ?_
  all_goals first
    | exact other _ (by decide)
    | exact other _ (lookup_getD (fun slot => slot < 50 ∧ slot ≠ 38) _ (by decide) (by decide))
    | exact jump ‹_›

theorem selectorSlot_lt : row.selectorSlot < 50 :=
  @selectorSlot_cases row (· < 50) (fun _ => by decide) fun _ inside => inside.1

theorem selectorSlot_eq_jump : row.selectorSlot = 38 ↔ row.insnType = insnJump := by
  constructor
  · exact @selectorSlot_cases row (fun slot => slot = 38 → row.insnType = insnJump)
      (fun isJump _ => isJump) fun _ other isSlot => absurd isSlot other.2
  · intro isJump
    rw [selectorSlot, isJump]
    rfl

/-- The slot of an instruction that computes on the stack alone. -/
def aluSlot (opcode : Opcode) : ℕ :=
  let codes := classifyOpcode opcode
  if codes.1 = insnArith then (arithSlots.lookup codes.2).getD 0
  else if codes.1 = insnCompare then (compareSlots.lookup codes.2).getD 16
  else (bitwiseSlots.lookup codes.2).getD 20

theorem selectorSlot_alu {opcode : Opcode} (insnType : row.insnType = (classifyOpcode opcode).1)
    (funct : row.funct = (classifyOpcode opcode).2)
    (isAlu : (classifyOpcode opcode).1 ∈ [insnArith, insnCompare, insnBitwise]) :
    row.selectorSlot = aluSlot opcode := by
  simp only [List.mem_cons, List.not_mem_nil, or_false] at isAlu
  rw [selectorSlot, aluSlot, insnType, funct]
  rcases isAlu with isArith | isCompare | isBitwise
  · rw [isArith]
    rfl
  · rw [isCompare]
    rfl
  · rw [isBitwise]
    rfl

theorem detailSlots_ge : ∀ slot ∈ row.detailSlots, 50 ≤ slot := by
  rw [detailSlots]
  repeat' refine ite_intro (fun slots => ∀ slot ∈ slots, 50 ≤ slot) (fun _ => ?_) fun _ => ?_
  all_goals first
    | exact lookup_toList (50 ≤ ·) _ (by decide)
    | decide

theorem sel_base {slot : ℕ} (base : slot < 50) :
    row.sel slot = if slot = row.selectorSlot then 1 else 0 := by
  have detail : slot ∉ row.detailSlots := fun member =>
    Nat.not_le.2 base (row.detailSlots_ge slot member)
  simp only [sel, detail, or_false]

end EvmTraceRow

namespace Constraints

/-! The selector columns of a row, and the cells that `push_row` writes. -/

theorem read_run (before : List Cells) {run : Cells} (after : List Cells) {k : ℕ}
    (inside : k < run.width) :
    Cells.read (before ++ run :: after) ((before.map Cells.width).sum + k) = run.cell k := by
  induction before with
  | nil => simp [Cells.read, inside]
  | cons first rest hypothesis =>
      have beyond : ¬ first.width + (rest.map Cells.width).sum + k < first.width := by omega
      rw [List.cons_append, Cells.read, List.map_cons, List.sum_cons, if_neg beyond,
        show first.width + (rest.map Cells.width).sum + k - first.width =
          (rest.map Cells.width).sum + k by omega]
      exact hypothesis

/-- A cell of a run, whose first cell lies at `start`. -/
theorem read_at {runs before after : List Cells} {run : Cells} {start k : ℕ}
    (split : runs = before ++ run :: after) (place : (before.map Cells.width).sum = start)
    (inside : k < run.width) : Cells.read runs (start + k) = run.cell k := by
  rw [split, ← place]
  exact read_run before after inside

theorem columnAt_val {base : Column} {offset : ℕ} (inside : base.val + offset < 275) :
    (columnAt base offset).val = base.val + offset := Nat.mod_eq_of_lt inside

section Cells

variable (trace : EvmTraceRow) {k : ℕ}

theorem pushRow_instruction {column : Column} (inside : column.val < 119) :
    pushRow trace column = Cells.read (instructionColumns trace) column.val := if_pos inside

theorem pushRow_context {column : Column} (inside : 217 ≤ column.val) :
    pushRow trace column = Cells.read (contextColumns trace) (column.val - 217) := by
  rw [pushRow, if_neg (by omega), if_neg (by omega), if_neg (by omega), if_neg (by omega)]

theorem pushRow_sel (inside : k < 41) : pushRow trace (columnAt colSelStop k) = trace.sel k := by
  have place : (columnAt colSelStop k).val = 35 + k := columnAt_val (by
    show 35 + k < 275
    omega)
  rw [pushRow_instruction trace (by omega), place]
  have split : instructionColumns trace = (instructionColumns trace).take 14 ++
      ⟨41, trace.sel⟩ :: (instructionColumns trace).drop 15 := rfl
  have before : (((instructionColumns trace).take 14).map Cells.width).sum = 35 := by
    simp [instructionColumns, Cells.one, Cells.limbs]
  exact read_at split before inside

theorem pushRow_caseSel (inside : k < 32) :
    pushRow trace (columnAt colSelSe0 k) = trace.caseSel k := by
  have place : (columnAt colSelSe0 k).val = 77 + k := columnAt_val (by
    show 77 + k < 275
    omega)
  rw [pushRow_instruction trace (by omega), place]
  have split : instructionColumns trace = (instructionColumns trace).take 16 ++
      ⟨32, trace.caseSel⟩ :: (instructionColumns trace).drop 17 := rfl
  have before : (((instructionColumns trace).take 16).map Cells.width).sum = 77 := by
    simp [instructionColumns, Cells.one, Cells.limbs]
  exact read_at split before inside

theorem pushRow_sel_frame (inside : k < 8) :
    pushRow trace (columnAt colSelCallPushFrame k) = trace.sel (41 + k) := by
  have place : (columnAt colSelCallPushFrame k).val = 217 + k := columnAt_val (by
    show 217 + k < 275
    omega)
  rw [pushRow_context trace (by omega), place, Nat.add_sub_cancel_left]
  have split : contextColumns trace = [] ++
      ⟨8, fun k => trace.sel (41 + k)⟩ :: (contextColumns trace).drop 1 := rfl
  have cell := read_at split rfl inside
  rwa [List.map_nil, List.sum_nil, Nat.zero_add] at cell

theorem pushRow_sel_byte : pushRow trace colSelByteOp = trace.sel 49 := by
  rw [pushRow_context trace (by decide)]
  have split : contextColumns trace = (contextColumns trace).take 7 ++
      ⟨24, fun k => trace.sel (49 + k)⟩ :: (contextColumns trace).drop 8 := rfl
  have before : (((contextColumns trace).take 7).map Cells.width).sum = 23 := by
    simp [contextColumns, Cells.one, Cells.limbs]
  have cell := read_at split before (by decide : 0 < 24)
  rwa [Nat.add_zero] at cell

theorem selectorColumnIndices_eq :
    selectorColumnIndices = (List.range 41).map (columnAt colSelStop) ++
      (List.range 8).map (columnAt colSelCallPushFrame) ++ [colSelByteOp] := rfl

theorem pushRow_selectors :
    selectorColumnIndices.map (pushRow trace) = (List.range 50).map trace.sel := by
  have slots : List.range 50 = List.range 41 ++ (List.range 8).map (41 + ·) ++ [49] := rfl
  have base : (List.range 41).map (pushRow trace ∘ columnAt colSelStop) =
      (List.range 41).map trace.sel :=
    List.map_congr_left fun k member => pushRow_sel trace (List.mem_range.1 member)
  have frame : (List.range 8).map (pushRow trace ∘ columnAt colSelCallPushFrame) =
      (List.range 8).map (trace.sel ∘ (41 + ·)) :=
    List.map_congr_left fun k member => pushRow_sel_frame trace (List.mem_range.1 member)
  rw [selectorColumnIndices_eq, slots, List.map_append, List.map_append, List.map_append,
    List.map_append, List.map_map, List.map_map, List.map_map, base, frame,
    List.map_singleton, List.map_singleton, pushRow_sel_byte]

theorem pushRow_caseSelectors :
    caseSelectorIndices.map (pushRow trace) = (List.range 32).map trace.caseSel := by
  rw [caseSelectorIndices, List.map_map]
  exact List.map_congr_left fun k member => pushRow_caseSel trace (List.mem_range.1 member)

end Cells

/-! Sums over selectors. -/

section Sums

variable {F : Type} [CommRing F]

theorem addAll_eq_sum (selectors : List Column) (row : Row F) :
    addAll selectors row 0 = (selectors.map row).sum := by
  rw [addAll, List.sum_eq_foldl, List.foldl_map]

theorem sum_indicator (slot count : ℕ) :
    ((List.range count).map fun k => if k = slot then (1 : F) else 0).sum =
      if slot < count then 1 else 0 := by
  induction count with
  | zero => simp
  | succ count hypothesis =>
      rw [List.range_succ, List.map_append, List.sum_append, hypothesis]
      rcases Nat.lt_trichotomy slot count with below | rfl | above
      · simp [below, Nat.lt_succ_of_lt below, below.ne']
      · simp
      · simp [above.ne, Nat.not_lt.2 above.le, Nat.not_lt.2 (Nat.succ_le_of_lt above)]

variable {row : Row F}

theorem signextend_of_clear
    (clear : ∀ selector ∈ caseSelectorIndices, row selector = 0) :
    evaluateSignextendRaw row = 0 := by
  have case : ∀ k < 32, row (columnAt colSelSe0 k) = 0 := fun k inside =>
    clear _ (List.mem_map_of_mem (List.mem_range.2 inside))
  have last : row colSelSeGe31 = 0 := case 31 (by decide)
  have sum : ∀ count ≤ 31, addAll (List.range count)
      (fun k => row (columnAt colSelSe0 k) * signextendCase row k) 0 = 0 := by
    intro count inside
    induction count with
    | zero => rfl
    | succ count hypothesis =>
        have earlier := hypothesis (Nat.le_of_succ_le inside)
        rw [addAll] at earlier ⊢
        rw [List.range_succ, List.foldl_append, earlier]
        simp [case count (by omega)]
  rw [evaluateSignextendRaw, sum 31 le_rfl, last]
  simp

end Sums

section Written

variable {order : ℕ}

/-- Codes and selectors are those of a trace row; the other cells may be any. -/
structure Written (trace : EvmTraceRow) (row : Row (ZMod order)) : Prop where
  insnType : row colInsnType = Scalar.fromU64 (trace.insnType.setWidth 64)
  funct : row colFunct = Scalar.fromU64 (trace.funct.setWidth 64)
  selectors : selectorColumnIndices.map row =
    (List.range 50).map fun slot => Scalar.fromU64 (trace.sel slot)
  caseSelectors : caseSelectorIndices.map row =
    (List.range 32).map fun k => Scalar.fromU64 (trace.caseSel k)

/-- The row that a trace row is written to. -/
def traceRow (trace : EvmTraceRow) : Row (ZMod order) :=
  fun column => Scalar.fromU64 (pushRow trace column)

theorem traceRow_written (trace : EvmTraceRow) : Written trace (traceRow trace : Row (ZMod order)) where
  insnType := rfl
  funct := rfl
  selectors := by
    have cells := congrArg (List.map (Scalar.fromU64 : U64 → ZMod order))
      (pushRow_selectors trace)
    rwa [List.map_map, List.map_map] at cells
  caseSelectors := by
    have cells := congrArg (List.map (Scalar.fromU64 : U64 → ZMod order))
      (pushRow_caseSelectors trace)
    rwa [List.map_map, List.map_map] at cells

theorem fromU64_bit (bit : Bool) :
    (Scalar.fromU64 (if bit then 1 else 0) : ZMod order) = if bit then 1 else 0 := by
  cases bit <;> simp [Scalar.fromU64]

variable {trace : EvmTraceRow} {row : Row (ZMod order)} (written : Written trace row)
include written

theorem Written.selector {slot : ℕ} (base : slot < 50) {column : Column}
    (place : selectorColumnIndices[slot]? = some column) :
    row column = if slot = trace.selectorSlot then 1 else 0 := by
  have cell : (selectorColumnIndices.map row)[slot]? = some (row column) := by
    rw [List.getElem?_map, place, Option.map_some]
  rw [written.selectors, List.getElem?_map, List.getElem?_range base, Option.map_some,
    Option.some_inj, trace.sel_base base] at cell
  rw [← cell]
  split
  · exact fromU64_bit true
  · exact fromU64_bit false

theorem Written.caseSelector {k : ℕ} (inside : k < 32) :
    row (columnAt colSelSe0 k) = if trace.isSignextend ∧ k = trace.caseIdx then 1 else 0 := by
  have cell : (caseSelectorIndices.map row)[k]? = some (row (columnAt colSelSe0 k)) := by
    rw [caseSelectorIndices, List.map_map, List.getElem?_map, List.getElem?_range inside]
    rfl
  rw [written.caseSelectors, List.getElem?_map, List.getElem?_range inside, Option.map_some,
    Option.some_inj, EvmTraceRow.caseSel] at cell
  rw [← cell]
  split
  · exact fromU64_bit true
  · exact fromU64_bit false

/-- Other instructions set no case of SIGNEXTEND. -/
theorem Written.cases_clear (other : trace.selectorSlot ≠ 11) :
    ∀ selector ∈ caseSelectorIndices, row selector = 0 := by
  intro selector member
  obtain ⟨k, inside, rfl⟩ := List.mem_map.1 member
  rw [written.caseSelector (List.mem_range.1 inside), if_neg]
  simp [EvmTraceRow.isSignextend, other]

/-- The one-hot selectors are binary and sum up to one. -/
theorem Written.selectors_bound :
    (∀ value ∈ binaryValues row selectorColumnIndices, value = 0) ∧
      addAll selectorColumnIndices row 0 - 1 = 0 := by
  have cells : selectorColumnIndices.map row =
      (List.range 50).map fun slot => if slot = trace.selectorSlot then 1 else 0 := by
    rw [written.selectors]
    refine List.map_congr_left fun slot member => ?_
    rw [trace.sel_base (List.mem_range.1 member)]
    split
    · exact fromU64_bit true
    · exact fromU64_bit false
  constructor
  · have values : binaryValues row selectorColumnIndices =
        (selectorColumnIndices.map row).map fun cell => cell * (cell - 1) := by
      rw [List.map_map]
      rfl
    rw [values, cells]
    simp only [List.forall_mem_map]
    intro slot _
    split <;> simp
  · rw [addAll_eq_sum, cells, sum_indicator, if_pos trace.selectorSlot_lt, sub_self]

/-- Of the gated bodies only those of the instruction must vanish. -/
theorem Written.gated_iff {slot : ℕ} (base : slot < 50) {column : Column}
    (place : selectorColumnIndices[slot]? = some column) (bodies : List (ZMod order)) :
    (∀ value ∈ gated row column bodies, value = 0) ↔
      (slot = trace.selectorSlot → ∀ body ∈ bodies, body = 0) := by
  rw [gated, written.selector base place, List.forall_mem_map]
  by_cases here : slot = trace.selectorSlot
  · simp [here]
  · simp [here]

end Written

end Constraints

end MetaVm.Evm
