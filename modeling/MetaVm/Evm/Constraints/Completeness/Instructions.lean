import MetaVm.Evm.Constraints.Completeness.Alu
import MetaVm.Evm.Constraints.OneHot
import MetaVm.Evm.SignextendWitness

namespace MetaVm.Evm.Constraints

open Zkp Limbs

/-! Rows of SIGNEXTEND. -/

section Cases

variable {F : Type} [CommRing F] (row : Row F)

theorem addAll_clear {ι : Type} {ks : List ι} {term : ι → F} (clear : ∀ k ∈ ks, term k = 0)
    (s : F) : addAll ks term s = s := by
  induction ks generalizing s with
  | nil => rfl
  | cons k ks hypothesis =>
      have next : addAll (k :: ks) term s = addAll ks term (s + term k) := rfl
      rw [next, clear k List.mem_cons_self, add_zero]
      exact hypothesis (fun other member => clear other (List.mem_cons_of_mem _ member)) s

/-- The five parts of a case. -/
theorem signextendCase_eq_zero {k : ℕ}
    (bytes : row (columnAt colInput1L0 (k / 8)) = byteSum row 8)
    (sign : row (columnAt colSeByte0 (k % 8)) = row colSeSignBit * 128 + row colSeLow7)
    (lower : ∀ l < k / 8, row (columnAt colOutput0L0 l) = row (columnAt colInput1L0 l))
    (mixed : row (columnAt colOutput0L0 (k / 8)) =
      byteSum row (k % 8 + 1) + row colSeSignBit * (fillMask (k % 8 + 1) : F))
    (upper : ∀ l, k / 8 < l → l < 4 →
      row (columnAt colOutput0L0 l) = row colSeSignBit * (maxU64 : F)) :
    signextendCase row k = 0 := by
  have lowerClear : ∀ l ∈ List.range (k / 8),
      row (columnAt colOutput0L0 l) - row (columnAt colInput1L0 l) = 0 :=
    fun l member => sub_eq_zero.2 (lower l (List.mem_range.1 member))
  have upperClear : ∀ l ∈ List.range' (k / 8 + 1) (4 - (k / 8 + 1)),
      row (columnAt colOutput0L0 l) - row colSeSignBit * (maxU64 : F) = 0 := by
    intro l member
    have bounds := List.mem_range'_1.1 member
    exact sub_eq_zero.2 (upper l (by omega) (by omega))
  rw [signextendCase]
  simp only [Nat.add_sub_cancel]
  rw [addAll_clear lowerClear, addAll_clear upperClear, bytes, sign, mixed]
  ring

end Cases

section Row

variable {order : ℕ} {trace : EvmTraceRow}

set_option maxRecDepth 8000 in
theorem row_seByte {i : ℕ} (inside : i < 8) :
    (traceRow trace : Row (ZMod order)) (columnAt colSeByte0 i) =
      ((trace.seByte i).toNat : ZMod order) := by
  interval_cases i <;> rfl

set_option maxRecDepth 8000 in
theorem row_seSignBit : (traceRow trace : Row (ZMod order)) colSeSignBit =
    (trace.seSignBit.toNat : ZMod order) := rfl

set_option maxRecDepth 8000 in
theorem row_seLow7 : (traceRow trace : Row (ZMod order)) colSeLow7 =
    (trace.seLow7.toNat : ZMod order) := rfl

theorem byteSum_eq {count : ℕ} (few : count ≤ 8) :
    byteSum (traceRow trace : Row (ZMod order)) count =
      ((Digits.value 256 count fun i => (trace.seByte i).toNat : ℕ) : ZMod order) := by
  induction count with
  | zero => simp [byteSum, addAll, Digits.value]
  | succ count hypothesis =>
      have next : byteSum (traceRow trace : Row (ZMod order)) (count + 1) =
          byteSum (traceRow trace) count +
            traceRow trace (columnAt colSeByte0 count) * (byteWeight count : ZMod order) := by
        rw [byteSum, byteSum, addAll, addAll, List.range_succ, List.foldl_append]
        rfl
      rw [next, hypothesis (Nat.le_of_succ_le few), row_seByte few, Digits.value_succ, byteWeight,
        pow_256]
      push_cast
      rfl

variable (isSignextend : trace.isSignextend)
  (output : trace.output0 =
    ofWord (Semantics.signextend (toWord trace.input0) (toWord trace.input1)))
include isSignextend output

theorem signextendCase_complete (short : trace.caseIdx < 31) :
    signextendCase (traceRow trace : Row (ZMod order)) trace.caseIdx = 0 := by
  obtain ⟨byte, bit⟩ := signByte_split isSignextend short
  have limb : ∀ {l : ℕ}, l < 4 → (traceRow trace : Row (ZMod order)) (columnAt colOutput0L0 l) =
      (extendedDigit trace.input1 (trace.caseIdx / 8) (trace.caseIdx % 8 + 1) l : ZMod order) := by
    intro l inside
    rw [row_outputAt inside, limb_signextend short inside output]
  apply signextendCase_eq_zero
  case bytes =>
    have whole : trace.input1.limb (trace.caseIdx / 8) % 2 ^ (8 * 8) =
        trace.input1.limb (trace.caseIdx / 8) := Nat.mod_eq_of_lt (limb_lt _ _)
    rw [row_inputAt1 (by omega), byteSum_eq le_rfl, sum_seByte isSignextend short, whole]
  case sign =>
    rw [row_seByte (Nat.mod_lt _ (by decide)), row_seSignBit, row_seLow7, byte]
    push_cast
    rfl
  case lower =>
    intro l below
    rw [limb (by omega), row_inputAt1 (by omega), extendedDigit, if_pos below]
  case mixed =>
    have fill : fillMask (trace.caseIdx % 8 + 1) = 2 ^ 64 - 2 ^ (8 * (trace.caseIdx % 8 + 1)) := by
      rw [fillMask]
      split
      · rfl
      · rename_i all
        rw [show trace.caseIdx % 8 + 1 = 8 by omega]
        rfl
    rw [limb (by omega), byteSum_eq (by omega), sum_seByte isSignextend short, row_seSignBit, bit,
      fill, extendedDigit, if_neg (Nat.lt_irrefl _), if_pos rfl]
    push_cast
    rfl
  case upper =>
    intro l above inside
    rw [limb inside, row_seSignBit, bit, extendedDigit, if_neg (by omega), if_neg (by omega),
      maxU64]
    push_cast
    rfl

theorem signextend_complete :
    evaluateSignextendRaw (traceRow trace : Row (ZMod order)) = 0 := by
  have written : Written trace (traceRow trace : Row (ZMod order)) := traceRow_written trace
  have terms : ∀ k ∈ List.range 31, (traceRow trace : Row (ZMod order)) (columnAt colSelSe0 k) *
      signextendCase (traceRow trace) k = 0 := by
    intro k member
    have inside := List.mem_range.1 member
    rw [written.caseSelector (by omega)]
    by_cases here : k = trace.caseIdx
    · subst here
      rw [signextendCase_complete isSignextend output inside, mul_zero]
    · rw [if_neg fun both => here both.2, zero_mul]
  have last : (traceRow trace : Row (ZMod order)) colSelSeGe31 *
      addAll (List.range 4) (fun l => (traceRow trace : Row (ZMod order)) (columnAt colOutput0L0 l) -
        traceRow trace (columnAt colInput1L0 l)) 0 = 0 := by
    have selector : (traceRow trace : Row (ZMod order)) colSelSeGe31 = _ :=
      written.caseSelector (by decide : 31 < 32)
    rw [selector]
    by_cases here : 31 = trace.caseIdx
    · have index := @caseIdx_eq trace
      have same : trace.output0 = trace.input1 := by
        rw [output, Semantics.signextend, toNat_toWord, if_pos (by omega), ofWord_toWord]
      rw [addAll_clear, mul_zero]
      intro l member
      have inside := List.mem_range.1 member
      rw [row_outputAt inside, row_inputAt1 inside, same, sub_self]
    · rw [if_neg fun both => here both.2, zero_mul]
  rw [evaluateSignextendRaw, addAll_clear terms, last, add_zero]

end Row

end MetaVm.Evm.Constraints

namespace MetaVm.Evm.Constraints

open Zkp Limbs

/-! The range checks of traced rows. -/

section Ranges

variable {order : ℕ} [large : Fact (2 ^ 254 < order)] {trace : EvmTraceRow}

theorem val_natCast {number : ℕ} (small : number < 2 ^ 254) :
    (number : ZMod order).val = number :=
  ZMod.val_natCast_of_lt (lt_trans small large.out)

theorem val_fromU64_lt (value : U64) : (Scalar.fromU64 value : ZMod order).val < 2 ^ 64 := by
  have bound := value.isLt
  rw [Scalar.fromU64, val_natCast (lt_trans bound (by decide))]
  exact bound

theorem seByte_lt (row : EvmTraceRow) (i : ℕ) : (row.seByte i).toNat < 2 ^ 8 := by
  rw [EvmTraceRow.seByte]
  split
  · rw [BitVec.toNat_and]
    exact lt_of_le_of_lt Nat.and_le_right (by decide)
  · decide

theorem seLow7_lt (row : EvmTraceRow) : row.seLow7.toNat < 2 ^ 7 := by
  rw [EvmTraceRow.seLow7, BitVec.toNat_and]
  exact lt_of_le_of_lt Nat.and_le_right (by decide)

/-- The narrow checks are those of the bytes of SIGNEXTEND. -/
theorem narrow_checks : ∀ decl ∈ lookupDeclarations,
    decl.maxBits = 64 ∨
      (∃ i < 8, decl.columnIndex = (columnAt colSeByte0 i).val ∧ decl.maxBits = 8) ∨
      (decl.columnIndex = colSeLow7.val ∧ decl.maxBits = 7) := by
  decide

/-- Whatever a row holds, its cells are as narrow as they are declared. -/
theorem rangesHold_traceRow (trace : EvmTraceRow) :
    RangesHold (traceRow trace : Row (ZMod order)) := by
  intro decl member
  refine (holds_iff decl _).2 fun _ => ?_
  rcases narrow_checks decl member with wide | ⟨i, inside, column, narrow⟩ | ⟨column, narrow⟩
  · rw [wide]
    exact val_fromU64_lt _
  · have small := seByte_lt trace i
    rw [column, narrow, Fin.ofNat_val_eq_self, row_seByte inside,
      val_natCast (lt_trans small (by decide))]
    exact small
  · have small := seLow7_lt trace
    rw [column, narrow, Fin.ofNat_val_eq_self, row_seLow7,
      val_natCast (lt_trans small (by decide))]
    exact small

end Ranges

/-! The bodies of traced rows. -/

/-- A traced row, with the power of two that a shift puts into the immediate. -/
structure TracedAlu (trace : EvmTraceRow) : Prop extends AluRow trace where
  power : trace.opcode ∈ [0x1B, 0x1C, 0x1D] →
    trace.immediate = shiftPowerOfTwo trace.input0

section Rows

variable {order : ℕ} {trace : EvmTraceRow}

/-- Only the bodies of the instruction's own slot matter. -/
theorem aluValues_eq_zero {row : Row (ZMod order)} (written : Written trace row)
    (signextend : evaluateSignextendRaw row = 0)
    (own : ∀ body ∈ slotBodies row trace.selectorSlot, body = 0) :
    ∀ value ∈ aluValues row, value = 0 := by
  have gate : ∀ (slot : ℕ) {column : Column} {bodies : List (ZMod order)},
      slot < 50 ∧ selectorColumnIndices[slot]? = some column → slotBodies row slot = bodies →
        ∀ value ∈ gated row column bodies, value = 0 := by
    rintro slot column bodies ⟨base, place⟩ rfl
    refine (written.gated_iff base place _).2 fun here => ?_
    rw [here]
    exact own
  rw [aluValues, compareValues, bitwiseValues, shiftValues, notValues]
  simp only [List.forall_mem_append, List.forall_mem_singleton]
  exact ⟨⟨⟨⟨⟨⟨gate 1 (by decide) rfl, gate 2 (by decide) rfl⟩, signextend⟩,
    ⟨⟨⟨gate 12 (by decide) rfl, gate 13 (by decide) rfl⟩, gate 14 (by decide) rfl⟩,
      gate 15 (by decide) rfl⟩, gate 16 (by decide) rfl⟩,
    ⟨gate 17 (by decide) rfl, gate 18 (by decide) rfl⟩, gate 19 (by decide) rfl⟩,
    ⟨gate 21 (by decide) rfl, gate 22 (by decide) rfl⟩, gate 23 (by decide) rfl⟩,
    gate 20 (by decide) rfl⟩

theorem slotBodies_complete (traced : TracedAlu trace) (known : trace.opcode ∈ aluOpcodes) :
    ∀ body ∈ slotBodies (traceRow trace : Row (ZMod order)) trace.selectorSlot, body = 0 := by
  have honest := traced.toAluRow
  have single : ∀ {value : ZMod order}, value = 0 → ∀ body ∈ [value], body = 0 := by
    rintro value rfl
    simp
  have limbs : ∀ {limb : ℕ → ZMod order}, (∀ l < 4, limb l = 0) →
      ∀ body ∈ (List.range 4).map limb, body = 0 := by
    intro limb clear
    rw [List.forall_mem_map]
    exact fun l member => clear l (List.mem_range.1 member)
  simp only [aluOpcodes, List.mem_cons, List.not_mem_nil, or_false] at known
  rcases known with isAdd | isSub | isSignextend | isLt | isGt | isEq | isIszero | isAnd | isOr |
    isXor | isNot | isShl | isShr | isSar
  · rw [honest.slot isAdd (by decide : _ ∧ _ = 1)]
    exact add_complete isAdd honest
  · rw [honest.slot isSub (by decide : _ ∧ _ = 2)]
    exact sub_complete isSub honest
  · rw [honest.slot isSignextend (by decide : _ ∧ _ = 11)]
    exact fun _ member => absurd member List.not_mem_nil
  · rw [honest.slot isLt (by decide : _ ∧ _ = 12)]
    exact single (lt_complete isLt honest)
  · rw [honest.slot isGt (by decide : _ ∧ _ = 13)]
    exact single (gt_complete isGt honest)
  · rw [honest.slot isEq (by decide : _ ∧ _ = 14)]
    exact single (eq_complete isEq honest)
  · rw [honest.slot isIszero (by decide : _ ∧ _ = 15)]
    exact single (iszero_complete isIszero honest)
  · rw [honest.slot isAnd (by decide : _ ∧ _ = 17)]
    exact limbs fun l inside => and_complete isAnd honest inside
  · rw [honest.slot isOr (by decide : _ ∧ _ = 18)]
    exact limbs fun l inside => or_complete isOr honest inside
  · rw [honest.slot isXor (by decide : _ ∧ _ = 19)]
    exact limbs fun l inside => xor_complete isXor honest inside
  · rw [honest.slot isNot (by decide : _ ∧ _ = 20)]
    exact single (addAll_clear
      (fun l member => not_complete isNot honest (List.mem_range.1 member)) 0)
  · rw [honest.slot isShl (by decide : _ ∧ _ = 21)]
    exact single (shl_complete isShl honest (traced.power (by rw [isShl]; decide))).1
  · rw [honest.slot isShr (by decide : _ ∧ _ = 22)]
    exact single (shiftDiv_complete (Or.inl isShr) honest
      (traced.power (by rw [isShr]; decide))).1
  · rw [honest.slot isSar (by decide : _ ∧ _ = 23)]
    exact single (shiftDiv_complete (Or.inr isSar) honest
      (traced.power (by rw [isSar]; decide))).1

/-- Every traced row satisfies its bodies and the range checks. -/
theorem alu_complete [Fact (2 ^ 254 < order)] (traced : TracedAlu trace)
    (known : trace.opcode ∈ aluOpcodes) :
    (∀ value ∈ aluValues (traceRow trace : Row (ZMod order)), value = 0) ∧
      RangesHold (traceRow trace : Row (ZMod order)) := by
  have written : Written trace (traceRow trace : Row (ZMod order)) := traceRow_written trace
  have signextend : evaluateSignextendRaw (traceRow trace : Row (ZMod order)) = 0 := by
    by_cases isSignextend : trace.opcode = 0x0B
    · have output := traced.output
      rw [isSignextend, Semantics.alu_signextend] at output
      have place := traced.slot isSignextend (by decide : _ ∧ _ = 11)
      exact signextend_complete (decide_eq_true place) output
    · have slots : ∀ opcode ∈ aluOpcodes, opcode ≠ 0x0B →
          (classifyOpcode opcode).1 ∈ [insnArith, insnCompare, insnBitwise] ∧
            EvmTraceRow.aluSlot opcode ≠ 11 := by decide
      obtain ⟨isAlu, other⟩ := slots trace.opcode known isSignextend
      refine signextend_of_clear (written.cases_clear ?_)
      rwa [trace.selectorSlot_alu traced.insnType traced.funct isAlu]
  exact ⟨aluValues_eq_zero written signextend (slotBodies_complete traced known),
    rangesHold_traceRow trace⟩

end Rows

theorem add_one_two :
    (∀ value ∈ aluValues (traceRow (aluTrace 0x01 (ofNat 1) (ofNat 2)) : Row Fr), value = 0) ∧
      RangesHold (traceRow (aluTrace 0x01 (ofNat 1) (ofNat 2)) : Row Fr) :=
  alu_complete ⟨aluTrace_honest 0x01 (ofNat 1) (ofNat 2), fun isShift => absurd isShift (by decide)⟩
    (by decide)

end MetaVm.Evm.Constraints
