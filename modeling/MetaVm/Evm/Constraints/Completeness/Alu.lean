import MetaVm.Evm.Constraints.Completeness.MulDiv
import MetaVm.Evm.Constraints.Words
import MetaVm.Evm.SignextendWitness
import MetaVm.Zkp.BitwiseSoundness
import MetaVm.Zkp.RangeChecks

namespace MetaVm.Evm.Constraints

open Zkp Limbs

/-! The lookups that the trace declares. -/

/-- Checks of columns that follow one another. -/
def rangeChecks (base : Column) (count : ℕ) (maxBits : BitVec 32) (selector : Option Column) :
    List LookupDeclaration :=
  (List.range count).map fun i =>
    ⟨base.val + i, maxBits, selector.map Fin.val⟩

def mulmodRangeChecks : List LookupDeclaration :=
  rangeChecks colMulmodQL0 4 64 colSelMulmod ++ rangeChecks colMulmodPL0 8 64 colSelMulmod ++
    rangeChecks colMulmodPc0 7 64 colSelMulmod ++ rangeChecks colMulmodSc0 7 64 colSelMulmod ++
    rangeChecks colMulmodSlackL0 4 64 colSelMulmod

def addmodRangeChecks : List LookupDeclaration :=
  rangeChecks colAddmodQL0 4 64 colSelAddmod ++ rangeChecks colAddmodSLowL0 4 64 colSelAddmod ++
    rangeChecks colAddmodQnPL0 8 64 colSelAddmod ++
    rangeChecks colAddmodQnCarry0 7 64 colSelAddmod ++
    rangeChecks colAddmodSumCarry0 9 64 colSelAddmod ++
    rangeChecks colAddmodSlackL0 4 64 colSelAddmod

def lookupDeclarations : List LookupDeclaration :=
  rangeChecks colAux0L0 4 64 colSelArithMul ++ rangeChecks colAux0L0 4 64 colSelArithDiv ++
    rangeChecks colAux1L0 4 64 colSelArithMul ++ rangeChecks colAux1L0 4 64 colSelLt ++
    rangeChecks colAux0L0 4 64 colSelShl ++ rangeChecks colAux0L0 4 64 colSelShr ++
    rangeChecks colAux1L0 4 64 colSelShr ++ rangeChecks colAux0L0 4 64 colSelSar ++
    rangeChecks colAux1L0 4 64 colSelSar ++ rangeChecks colInput0L0 4 64 none ++
    rangeChecks colInput1L0 4 64 none ++ rangeChecks colOutput0L0 4 64 none ++
    rangeChecks colSeByte0 8 8 colSelSignextend ++ rangeChecks colSeLow7 1 7 colSelSignextend ++
    mulmodRangeChecks ++ addmodRangeChecks

section Rows

variable {order : ℕ}

/-- A single row as a trace. -/
def rowTrace (row : Row (ZMod order)) : ℕ → ℕ → ZMod order :=
  fun _ column => row (Fin.ofNat 275 column)

/-- All range checks hold on a row. -/
def RangesHold (row : Row (ZMod order)) : Prop :=
  ∀ decl ∈ lookupDeclarations, decl.Holds 1 (rowTrace row)

theorem holds_iff (decl : LookupDeclaration) (row : Row (ZMod order)) :
    decl.Holds 1 (rowTrace row) ↔
      ((∀ sel, decl.selectorColumn = some sel → row (Fin.ofNat 275 sel) = 1) →
        (row (Fin.ofNat 275 decl.columnIndex)).val < 2 ^ decl.maxBits.toNat) := by
  constructor
  · exact fun holds => holds 0 Nat.zero_lt_one
  · exact fun holds _ _ => holds

end Rows

end MetaVm.Evm.Constraints

namespace MetaVm.Evm.Constraints

open Zkp Limbs LimbChain

/-! Rows of the other instructions on two words. -/

/-- The gated bodies of the other instructions. -/
def aluValues {F : Type} [CommRing F] (row : Row F) : List F :=
  gated row colSelArithAdd
      ((List.finRange 4).map (evaluateArithAddLimbRaw row) ++
        (List.finRange 4).map (evaluateCarryBinaryRaw row)) ++
    gated row colSelArithSub
      ((List.finRange 4).map (evaluateArithSubLimbRaw row) ++
        (List.finRange 4).map (evaluateCarryBinaryRaw row)) ++
    [evaluateSignextendRaw row] ++ compareValues row ++ bitwiseValues row ++
    shiftValues row ++ notValues row

/-- ADD, SUB, SIGNEXTEND, LT, GT, EQ, ISZERO, AND, OR, XOR, NOT, SHL, SHR, SAR. -/
def aluOpcodes : List Opcode :=
  [0x01, 0x03, 0x0B, 0x10, 0x11, 0x14, 0x15, 0x16, 0x17, 0x18, 0x19, 0x1B, 0x1C, 0x1D]

section Bodies

variable {order : ℕ} {trace : EvmTraceRow}

theorem row_input0 (k : Fin 4) :
    (traceRow trace : Row (ZMod order)) (input0 k) = (trace.input0.limb k : ZMod order) :=
  (congrFun (traceRow_input0 trace) k).trans (cells_eq _ k)

theorem row_input1 (k : Fin 4) :
    (traceRow trace : Row (ZMod order)) (input1 k) = (trace.input1.limb k : ZMod order) :=
  (congrFun (traceRow_input1 trace) k).trans (cells_eq _ k)

theorem row_output0 (k : Fin 4) :
    (traceRow trace : Row (ZMod order)) (output0 k) = (trace.output0.limb k : ZMod order) :=
  (congrFun (traceRow_output0 trace) k).trans (cells_eq _ k)

theorem row_aux0 (k : Fin 4) :
    (traceRow trace : Row (ZMod order)) (aux0 k) = (trace.aux0.limb k : ZMod order) :=
  (congrFun (traceRow_aux0 trace) k).trans (cells_eq _ k)

theorem row_inputAt0 {l : ℕ} (inside : l < 4) :
    (traceRow trace : Row (ZMod order)) (columnAt colInput0L0 l) =
      (trace.input0.limb l : ZMod order) := by
  have column : columnAt colInput0L0 l = input0 ⟨l, inside⟩ := by interval_cases l <;> rfl
  rw [column, row_input0]

theorem row_inputAt1 {l : ℕ} (inside : l < 4) :
    (traceRow trace : Row (ZMod order)) (columnAt colInput1L0 l) =
      (trace.input1.limb l : ZMod order) := by
  have column : columnAt colInput1L0 l = input1 ⟨l, inside⟩ := by interval_cases l <;> rfl
  rw [column, row_input1]

theorem row_outputAt {l : ℕ} (inside : l < 4) :
    (traceRow trace : Row (ZMod order)) (columnAt colOutput0L0 l) =
      (trace.output0.limb l : ZMod order) := by
  have column : columnAt colOutput0L0 l = output0 ⟨l, inside⟩ := by interval_cases l <;> rfl
  rw [column, row_output0]

theorem row_auxAt {l : ℕ} (inside : l < 4) :
    (traceRow trace : Row (ZMod order)) (columnAt colAux0L0 l) =
      (trace.aux0.limb l : ZMod order) := by
  have column : columnAt colAux0L0 l = aux0 ⟨l, inside⟩ := by interval_cases l <;> rfl
  rw [column, row_aux0]

theorem add_complete (isAdd : trace.opcode = 0x01) (honest : AluRow trace) :
    ∀ body ∈ (List.finRange 4).map (evaluateArithAddLimbRaw (traceRow trace : Row (ZMod order))) ++
      (List.finRange 4).map (evaluateCarryBinaryRaw (traceRow trace)), body = 0 := by
  have aux := honest.aux
  have output := honest.output
  rw [isAdd] at aux output
  have carries : trace.aux0 = carryAux trace.input0 trace.input1 := congrArg Prod.fst aux
  have sum : toWord trace.input0 + toWord trace.input1 = toWord trace.output0 := by
    rw [output, toWord_ofWord, Semantics.alu_add, Semantics.add]
  simp only [List.forall_mem_append, List.forall_mem_map]
  constructor
  · intro k _
    show addCarryIn (traceRow trace ∘ aux0) k
      ((traceRow trace ∘ input0) k + (traceRow trace ∘ input1) k) -
        (traceRow trace ∘ aux0) k * twoPow64 - (traceRow trace ∘ output0) k = 0
    rw [traceRow_aux0, traceRow_input0, traceRow_input1, traceRow_output0, carries]
    exact addLimb_eq_zero (carryAux_balance sum k.isLt)
  · intro k _
    show binaryCheck ((traceRow trace ∘ aux0) k) = 0
    rw [traceRow_aux0, carries]
    exact binaryCheck_cells (carryAux_le_one k.isLt)

/-- SUB adds the difference to the second operand. -/
theorem sub_complete (isSub : trace.opcode = 0x03) (honest : AluRow trace) :
    ∀ body ∈ (List.finRange 4).map (evaluateArithSubLimbRaw (traceRow trace : Row (ZMod order))) ++
      (List.finRange 4).map (evaluateCarryBinaryRaw (traceRow trace)), body = 0 := by
  have aux := honest.aux
  have output := honest.output
  rw [isSub] at aux output
  have carries : trace.aux0 = carryAux trace.output0 trace.input1 := congrArg Prod.fst aux
  have sum : toWord trace.output0 + toWord trace.input1 = toWord trace.input0 := by
    rw [output, toWord_ofWord, Semantics.alu_sub]
    exact sub_add_cancel _ _
  simp only [List.forall_mem_append, List.forall_mem_map]
  constructor
  · intro k _
    have limb := @addLimb_eq_zero order _ _ _ _ k (carryAux_balance sum k.isLt)
    show addCarryIn (traceRow trace ∘ aux0) k
      ((traceRow trace ∘ output0) k + (traceRow trace ∘ input1) k) -
        (traceRow trace ∘ input0) k - (traceRow trace ∘ aux0) k * twoPow64 = 0
    rw [traceRow_aux0, traceRow_input0, traceRow_input1, traceRow_output0, carries]
    linear_combination limb
  · intro k _
    show binaryCheck ((traceRow trace ∘ aux0) k) = 0
    rw [traceRow_aux0, carries]
    exact binaryCheck_cells (carryAux_le_one k.isLt)

/-- The upper limbs of a truth value are clear. -/
theorem upperOutput_bit {condition : Bool}
    (output : trace.output0 = ofWord (Semantics.bit condition)) :
    (traceRow trace : Row (ZMod order)) colOutput0L0 = (condition.toNat : ZMod order) ∧
      upperOutput (traceRow trace : Row (ZMod order)) = 0 := by
  have limb : ∀ k : Fin 4, (traceRow trace : Row (ZMod order)) (output0 k) =
      ((if (k : ℕ) = 0 then condition.toNat else 0 : ℕ) : ZMod order) := by
    intro k
    rw [row_output0, output, limb_bit condition k.isLt]
  constructor
  · exact limb 0
  · have limb1 := limb 1
    have limb2 := limb 2
    have limb3 := limb 3
    rw [if_neg (by decide), Nat.cast_zero] at limb1 limb2 limb3
    show traceRow trace (output0 1) + traceRow trace (output0 2) + traceRow trace (output0 3) = 0
    rw [limb1, limb2, limb3]
    simp

/-- LT and GT compare by the last borrow of a difference. -/
theorem less_complete {x y : Fin 4 → Column} {a b : U256}
    (xCells : (traceRow trace : Row (ZMod order)) ∘ x = cells a)
    (yCells : (traceRow trace : Row (ZMod order)) ∘ y = cells b)
    (aux : (trace.aux0, trace.aux1) = lessAux a b)
    (output : trace.output0 = ofWord (Semantics.bit ((toWord a).ult (toWord b)))) :
    evaluateLessRaw (traceRow trace : Row (ZMod order)) x y = 0 := by
  obtain ⟨result, upper⟩ : (traceRow trace : Row (ZMod order)) colOutput0L0 = _ ∧
      upperOutput (traceRow trace : Row (ZMod order)) = 0 := upperOutput_bit output
  have borrows : trace.aux0 = (lessAux a b).1 := congrArg Prod.fst aux
  have diffs : trace.aux1 = (lessAux a b).2 := congrArg Prod.snd aux
  have limb : ∀ k, borrowLimb (traceRow trace ∘ x) (traceRow trace ∘ y) (traceRow trace ∘ aux0)
      (traceRow trace ∘ aux1) k = (0 : ZMod order) := by
    intro k
    rw [xCells, yCells, traceRow_aux0, traceRow_aux1, borrows, diffs]
    exact borrowLimb_eq_zero (lessAux_balance k.isLt)
  have bit : ∀ k, binaryCheck ((traceRow trace : Row (ZMod order)) (aux0 k)) = 0 := by
    intro k
    show binaryCheck ((traceRow trace ∘ aux0) k) = 0
    rw [traceRow_aux0, borrows]
    exact binaryCheck_cells (borrow_le_one k.isLt)
  have last : (traceRow trace : Row (ZMod order)) colAux0L3 =
      (((toWord a).ult (toWord b)).toNat : ZMod order) := by
    have cell : (traceRow trace : Row (ZMod order)) (aux0 3) = (trace.aux0.limb 3 : ZMod order) :=
      row_aux0 3
    refine cell.trans ?_
    rw [borrows, lastBorrow, BitVec.ult, toNat_toWord, toNat_toWord]
    by_cases less : a.value < b.value
    · rw [if_pos less, decide_eq_true less]
      rfl
    · rw [if_neg less, decide_eq_false less]
      rfl
  rw [evaluateLessRaw, result, last, upper]
  simp only [limb, bit]
  ring

theorem lt_complete (isLt : trace.opcode = 0x10) (honest : AluRow trace) :
    evaluateLtRaw (traceRow trace : Row (ZMod order)) = 0 := by
  have aux := honest.aux
  have output := honest.output
  rw [isLt] at aux output
  rw [Semantics.alu_lt, Semantics.lt] at output
  have witness : computeEvmAux 0x10 trace.input0 trace.input1 trace.output0 =
      pure (lessAux trace.input0 trace.input1) := rfl
  rw [witness, Checked.value_pure] at aux
  exact less_complete (traceRow_input0 trace) (traceRow_input1 trace) aux output

theorem gt_complete (isGt : trace.opcode = 0x11) (honest : AluRow trace) :
    evaluateGtRaw (traceRow trace : Row (ZMod order)) = 0 := by
  have aux := honest.aux
  have output := honest.output
  rw [isGt] at aux output
  rw [Semantics.alu_gt, Semantics.gt] at output
  have witness : computeEvmAux 0x11 trace.input0 trace.input1 trace.output0 =
      pure (lessAux trace.input1 trace.input0) := rfl
  rw [witness, Checked.value_pure] at aux
  exact less_complete (traceRow_input1 trace) (traceRow_input0 trace) aux output

theorem eq_complete (isEq : trace.opcode = 0x14) (honest : AluRow trace) :
    evaluateEqRaw (traceRow trace : Row (ZMod order)) = 0 := by
  have output := honest.output
  rw [isEq, Semantics.alu_eq, Semantics.eq] at output
  obtain ⟨result, upper⟩ : (traceRow trace : Row (ZMod order)) colOutput0L0 = _ ∧
      upperOutput (traceRow trace : Row (ZMod order)) = 0 := upperOutput_bit output
  have limb : ∀ k, (traceRow trace : Row (ZMod order)) colOutput0L0 *
      (traceRow trace (input0 k) - traceRow trace (input1 k)) = 0 := by
    intro k
    rw [result, row_input0, row_input1]
    by_cases same : trace.input0 = trace.input1
    · rw [same, sub_self, mul_zero]
    · have different : (toWord trace.input0 == toWord trace.input1) = false :=
        beq_false_of_ne fun words => same (toWord_inj.1 words)
      rw [different, Bool.toNat_false, Nat.cast_zero, zero_mul]
  have bit : binaryCheck ((traceRow trace : Row (ZMod order)) colOutput0L0) = 0 := by
    rw [result, binaryCheck]
    cases toWord trace.input0 == toWord trace.input1 <;> simp
  rw [evaluateEqRaw, bit, upper]
  simp only [limb]
  ring

theorem iszero_complete (isIszero : trace.opcode = 0x15) (honest : AluRow trace) :
    evaluateIszeroRaw (traceRow trace : Row (ZMod order)) = 0 := by
  have output := honest.output
  rw [isIszero, Semantics.alu_iszero, Semantics.iszero] at output
  obtain ⟨result, upper⟩ : (traceRow trace : Row (ZMod order)) colOutput0L0 = _ ∧
      upperOutput (traceRow trace : Row (ZMod order)) = 0 := upperOutput_bit output
  have limb : ∀ k, (traceRow trace : Row (ZMod order)) colOutput0L0 *
      traceRow trace (input0 k) = 0 := by
    intro k
    rw [result, row_input0]
    by_cases zero : trace.input0 = 0
    · rw [zero, limb_zero, Nat.cast_zero, mul_zero]
    · have nonzero : (toWord trace.input0 == 0) = false :=
        beq_false_of_ne fun word => zero (toWord_eq_zero_iff.1 word)
      rw [nonzero, Bool.toNat_false, Nat.cast_zero, zero_mul]
  have bit : binaryCheck ((traceRow trace : Row (ZMod order)) colOutput0L0) = 0 := by
    rw [result, binaryCheck]
    cases toWord trace.input0 == 0 <;> simp
  rw [evaluateIszeroRaw, bit, upper]
  simp only [limb]
  ring

/-- The conjunctions of the limbs, which all bitwise operations use. -/
theorem limb_conjunction (isBitwise : trace.opcode = 0x16 ∨ trace.opcode = 0x17 ∨
    trace.opcode = 0x18) (honest : AluRow trace) {l : ℕ} (inside : l < 4) :
    trace.aux0.limb l = trace.input0.limb l &&& trace.input1.limb l := by
  have aux := honest.aux
  have carries : trace.aux0 = fun k => trace.input0 k &&& trace.input1 k := by
    rcases isBitwise with isAnd | isOr | isXor
    · rw [isAnd] at aux
      exact congrArg Prod.fst aux
    · rw [isOr] at aux
      exact congrArg Prod.fst aux
    · rw [isXor] at aux
      exact congrArg Prod.fst aux
  have limb : ∀ x : U256, x.limb l = (x ⟨l, inside⟩).toNat := fun x => limb_fin x ⟨l, inside⟩
  rw [limb, limb, limb, carries, BitVec.toNat_and]

theorem and_complete (isAnd : trace.opcode = 0x16) (honest : AluRow trace) {l : ℕ}
    (inside : l < 4) : evaluateAndLimbRaw (traceRow trace : Row (ZMod order)) l = 0 := by
  have output := honest.output
  rw [isAnd, Semantics.alu_and, Semantics.and] at output
  rw [evaluateAndLimbRaw, row_outputAt inside, row_auxAt inside,
    limb_conjunction (Or.inl isAnd) honest inside, output, limb_and inside, sub_self]

theorem or_complete (isOr : trace.opcode = 0x17) (honest : AluRow trace) {l : ℕ}
    (inside : l < 4) : evaluateOrLimbRaw (traceRow trace : Row (ZMod order)) l = 0 := by
  have output := honest.output
  rw [isOr, Semantics.alu_or, Semantics.or] at output
  have limb := congrArg (Nat.cast : ℕ → ZMod order)
    (Words.or_add_and (trace.input0.limb l) (trace.input1.limb l))
  push_cast at limb
  rw [evaluateOrLimbRaw, row_outputAt inside, row_inputAt0 inside, row_inputAt1 inside,
    row_auxAt inside, limb_conjunction (Or.inr (Or.inl isOr)) honest inside, output,
    limb_or inside]
  linear_combination limb

theorem xor_complete (isXor : trace.opcode = 0x18) (honest : AluRow trace) {l : ℕ}
    (inside : l < 4) : evaluateXorLimbRaw (traceRow trace : Row (ZMod order)) l = 0 := by
  have output := honest.output
  rw [isXor, Semantics.alu_xor, Semantics.xor] at output
  have limb := congrArg (Nat.cast : ℕ → ZMod order)
    (Words.xor_add_and_mul_two (trace.input0.limb l) (trace.input1.limb l))
  push_cast at limb
  rw [evaluateXorLimbRaw, row_outputAt inside, row_inputAt0 inside, row_inputAt1 inside,
    row_auxAt inside, limb_conjunction (Or.inr (Or.inr isXor)) honest inside, output,
    limb_xor inside]
  linear_combination limb

theorem not_complete (isNot : trace.opcode = 0x19) (honest : AluRow trace) {l : ℕ}
    (inside : l < 4) : evaluateNotLimbRaw (traceRow trace : Row (ZMod order)) l = 0 := by
  have output := honest.output
  rw [isNot, Semantics.alu_not, Semantics.not] at output
  have limb := congrArg (Nat.cast : ℕ → ZMod order) (@limb_not trace.input0 l inside)
  rw [Nat.cast_add, ← output] at limb
  rw [evaluateNotLimbRaw, row_outputAt inside, row_inputAt0 inside, limb, maxU64, sub_self]

theorem shl_complete (isShl : trace.opcode = 0x1B) (honest : AluRow trace)
    (power : trace.immediate = shiftPowerOfTwo trace.input0) :
    evaluateShlRaw (traceRow trace : Row (ZMod order)) = 0 ∧
      (computeEvmAux 0x1B trace.input0 trace.input1 trace.output0).overflowed = false := by
  have aux := honest.aux
  have output := honest.output
  rw [isShl] at aux output
  rw [Semantics.alu_shl, shl_eq_mul, ← power] at output
  have fit : ColumnsFit (chainColumn trace.input1 trace.immediate fun _ => []) 4 := by
    rw [power]
    exact shiftColumns_fit _ _ fun _ _ => Nat.two_pow_pos 64
  have witness : computeEvmAux 0x1B trace.input0 trace.input1 trace.output0 =
      carryChain trace.input1 trace.immediate (fun _ => []) >>= fun aux0 => pure (aux0, 0) := by
    rw [power]
    rfl
  have carries : trace.aux0 = (carryChain trace.input1 trace.immediate fun _ => []).value := by
    rw [witness, Checked.value_bind, Checked.value_pure] at aux
    exact congrArg Prod.fst aux
  have terms : ∀ k < 4, ([] : List ℕ).sum = (0 : Limbs 0).limb k := fun k _ => (limb_zero k).symm
  have isTotal := @value_modEq_of_mul trace.input1 trace.immediate trace.output0
    (by rw [output, toWord_ofWord])
  constructor
  · rw [evaluateShlRaw, traceRow_input1, traceRow_immediate, traceRow_aux0, traceRow_output0,
      carries, ← cells_none 0]
    exact carryChain_closes terms isTotal fit
  · rw [witness, Checked.overflowed_bind, Checked.overflowed_pure, Bool.or_false]
    exact overflowed_carryChain.2 fit

/-- SHR and SAR leave a remainder of the shifted word, whatever they put out. -/
theorem shiftDiv_complete (isShift : trace.opcode = 0x1C ∨ trace.opcode = 0x1D)
    (honest : AluRow trace) (power : trace.immediate = shiftPowerOfTwo trace.input0) :
    evaluateShiftDivRaw (traceRow trace : Row (ZMod order)) = 0 ∧
      (computeEvmAux trace.opcode trace.input0 trace.input1 trace.output0).overflowed = false := by
  have aux := honest.aux
  have witness : computeEvmAux trace.opcode trace.input0 trace.input1 trace.output0 =
      divAux trace.input1 trace.immediate trace.output0 := by
    rw [power, ← shrAux_eq]
    rcases isShift with isShr | isSar
    · rw [isShr]
      rfl
    · rw [isSar]
      rfl
  obtain ⟨exact, value⟩ := divAux_spec trace.input1 trace.immediate trace.output0
  rw [witness, value] at aux
  obtain ⟨aux0Cells, aux1Cells⟩ := Prod.mk.inj aux
  have fit : ColumnsFit (chainColumn trace.output0 trace.immediate fun k =>
      [(ofWord (toWord trace.input1 -
        toWord trace.output0 * toWord trace.immediate)).limb k]) 4 := by
    rw [power]
    refine shiftColumns_fit _ _ fun k _ => ?_
    rw [List.sum_singleton]
    exact limb_lt _ k
  rw [evaluateShiftDivRaw, traceRow_input1, traceRow_immediate, traceRow_aux0, traceRow_aux1,
    traceRow_output0, aux0Cells, aux1Cells, witness, exact]
  refine (quotient_complete_iff trace.input1 trace.immediate trace.output0).2 ?_
  exact (chainColumns_fit_iff fun k _ => List.sum_singleton).1 fit

end Bodies

end MetaVm.Evm.Constraints
