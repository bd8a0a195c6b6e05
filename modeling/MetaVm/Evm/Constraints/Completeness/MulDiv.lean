import MetaVm.Evm.Constraints.Words
import MetaVm.Evm.MulDivWitness

namespace MetaVm.Evm.Constraints

open Zkp Limbs

/-! Rows of the instructions that compute on the two topmost words. -/

/-- The result and the auxiliary columns of a traced row belong to its operands. -/
structure AluRow (trace : EvmTraceRow) : Prop where
  insnType : trace.insnType = (classifyOpcode trace.opcode).1
  funct : trace.funct = (classifyOpcode trace.opcode).2
  output : trace.output0 =
    ofWord (Semantics.alu trace.opcode (toWord trace.input0) (toWord trace.input1))
  aux : (trace.aux0, trace.aux1) =
    (computeEvmAux trace.opcode trace.input0 trace.input1 trace.output0).value

theorem AluRow.slot {trace : EvmTraceRow} (honest : AluRow trace) {opcode : Opcode} {place : ℕ}
    (isOpcode : trace.opcode = opcode)
    (known : (classifyOpcode opcode).1 ∈ [insnArith, insnCompare, insnBitwise] ∧
      EvmTraceRow.aluSlot opcode = place) : trace.selectorSlot = place := by
  obtain ⟨isAlu, rfl⟩ := known
  subst isOpcode
  exact trace.selectorSlot_alu honest.insnType honest.funct isAlu

/-- The row of an instruction on two words, everything else being zero. -/
def aluTrace (opcode : Opcode) (a b : U256) : EvmTraceRow :=
  let output := ofWord (Semantics.alu opcode (toWord a) (toWord b))
  let aux := (computeEvmAux opcode a b output).value
  { opcode := opcode
    insnType := (classifyOpcode opcode).1
    funct := (classifyOpcode opcode).2
    input0 := a
    input1 := b
    output0 := output
    aux0 := aux.1
    aux1 := aux.2 }

theorem aluTrace_honest (opcode : Opcode) (a b : U256) : AluRow (aluTrace opcode a b) :=
  ⟨rfl, rfl, rfl, rfl⟩

end MetaVm.Evm.Constraints

namespace MetaVm.Evm.Constraints

open Zkp Limbs LimbChain

/-! Rows of MUL, DIV, MOD, SDIV and SMOD. -/

/-- The gated bodies of the five instructions. -/
def mulDivValues {F : Type} [CommRing F] (row : Row F) : List F :=
  gated row colSelArithMul [evaluateArithMulFullRaw row] ++
    gated row colSelArithDiv [evaluateArithDivFullRaw row] ++
    gated row colSelMod [evaluateArithModFullRaw row] ++
    gated row colSelSdiv [evaluateArithDivFullRaw row] ++
    gated row colSelSmod [evaluateArithModFullRaw row]

/-- MUL, DIV, SDIV, MOD, SMOD. -/
def mulDivOpcodes : List Opcode := [0x02, 0x04, 0x05, 0x06, 0x07]

/-! The product `x * b + r` that the carries are computed for. -/

/-- The multiplicand of `b`: the first operand of MUL, else the quotient. -/
def multiplicand (opcode : Opcode) (a b : U256) : U256 :=
  if opcode = 0x02 then a
  else if opcode = 0x04 ∨ opcode = 0x06 then ofWord (Semantics.div (toWord a) (toWord b))
  else ofWord (Semantics.sdiv (toWord a) (toWord b))

/-- What is added to it: nothing, or what the quotient leaves of `a`. -/
def addend (opcode : Opcode) (a b : U256) : U256 :=
  if opcode = 0x02 then 0
  else ofWord (toWord a - toWord (multiplicand opcode a b) * toWord b)

/-- The leading columns of the product are not too large, and a remainder by zero
is taken of zero only. -/
structure MulDivFits (opcode : Opcode) (a b : U256) : Prop where
  columns : ∀ k < 4,
    total (2 ^ 64) (k + 1) (convolution (multiplicand opcode a b).limb b.limb) +
      Digits.value (2 ^ 64) (k + 1) (addend opcode a b).limb < (2 ^ 64) ^ (k + 2)
  divisor : opcode = 0x06 ∨ opcode = 0x07 → b = 0 → a = 0

section Rows

variable {order : ℕ} {trace : EvmTraceRow}

theorem mulDiv_zero_iff {row : Row (ZMod order)} (written : Written trace row) :
    (∀ value ∈ mulDivValues row, value = 0) ↔
      (3 = trace.selectorSlot → evaluateArithMulFullRaw row = 0) ∧
      (4 = trace.selectorSlot → evaluateArithDivFullRaw row = 0) ∧
      (5 = trace.selectorSlot → evaluateArithModFullRaw row = 0) ∧
      (6 = trace.selectorSlot → evaluateArithDivFullRaw row = 0) ∧
      (7 = trace.selectorSlot → evaluateArithModFullRaw row = 0) := by
  simp only [mulDivValues, List.forall_mem_append, and_assoc,
    written.gated_iff (by decide : 3 < 50) rfl, written.gated_iff (by decide : 4 < 50) rfl,
    written.gated_iff (by decide : 5 < 50) rfl, written.gated_iff (by decide : 6 < 50) rfl,
    written.gated_iff (by decide : 7 < 50) rfl, List.forall_mem_singleton]

/-- The words of a quotient, a divisor and a remainder stand for the dividend. -/
theorem value_modEq_of_word {x y r out : U256}
    (balance : toWord x * toWord y + toWord r = toWord out) :
    x.value * y.value + Digits.value (2 ^ 64) 4 r.limb ≡ out.value [MOD 2 ^ 256] := by
  have numbers := congrArg BitVec.toNat balance
  rw [BitVec.toNat_add, BitVec.toNat_mul, toNat_toWord, toNat_toWord, toNat_toWord,
    toNat_toWord, Nat.mod_add_mod] at numbers
  have outLt : out.value < 2 ^ 256 := out.value_lt
  exact numbers.trans (Nat.mod_eq_of_lt outLt).symm

theorem value_modEq_of_mul {x y out : U256} (product : toWord x * toWord y = toWord out) :
    x.value * y.value + Digits.value (2 ^ 64) 4 (0 : Limbs 0).limb ≡ out.value [MOD 2 ^ 256] := by
  have none : (0 : Limbs 0).limb = (0 : U256).limb := by
    funext k
    rw [limb_zero, limb_zero]
  have zero : toWord (0 : U256) = 0 := toWord_eq_zero_iff.2 rfl
  rw [none]
  refine value_modEq_of_word ?_
  rw [product, zero]
  exact BitVec.add_zero _

theorem mul_complete (isMul : trace.opcode = 0x02) (honest : AluRow trace) :
    (evaluateArithMulFullRaw (traceRow trace : Row (ZMod order)) = 0 ∧
      (computeEvmAux trace.opcode trace.input0 trace.input1 trace.output0).overflowed = false) ↔
        MulDivFits trace.opcode trace.input0 trace.input1 := by
  have aux := honest.aux
  have output := honest.output
  obtain ⟨exact, carries⟩ := mulAux_spec trace.input0 trace.input1
  rw [isMul] at aux output ⊢
  have witness : computeEvmAux 0x02 trace.input0 trace.input1 trace.output0 =
      mulAux trace.input0 trace.input1 := rfl
  have result : trace.output0 = ofWord (toWord trace.input0 * toWord trace.input1) := by
    rwa [Semantics.alu_mul] at output
  have isTotal := @value_modEq_of_mul trace.input0 trace.input1 trace.output0
    (by rw [result, toWord_ofWord])
  have terms : ∀ k < 4, ([] : List ℕ).sum = (0 : Limbs 0).limb k := fun k _ => (limb_zero k).symm
  rw [witness] at aux ⊢
  have auxCells : trace.aux1 = (carryChain trace.input0 trace.input1 fun _ => []).value :=
    (congrArg Prod.snd aux).trans carries
  rw [evaluateArithMulFullRaw, traceRow_input0, traceRow_input1, traceRow_output0,
    traceRow_aux1, auxCells, ← cells_none 0, exact,
    product_complete_iff terms isTotal]
  have columns : ∀ k, Digits.value (2 ^ 64) (k + 1)
      (addend 0x02 trace.input0 trace.input1).limb =
        Digits.value (2 ^ 64) (k + 1) (0 : Limbs 0).limb := by
    intro k
    refine Digits.value_congr fun i _ => ?_
    rw [addend, if_pos rfl, limb_zero, limb_zero]
  constructor
  · refine fun fit => ⟨fun k inside => ?_, fun rest => absurd rest (by decide)⟩
    rw [columns]
    exact fit k inside
  · intro fit k inside
    rw [← columns]
    exact fit.columns k inside

/-- The check of `q * b + r = a` for any `q` and the remainder that belongs to it. -/
theorem quotient_complete_iff (a b q : U256) :
    (wordProduct (cells q) (cells b) (cells (ofWord (toWord a - toWord q * toWord b)))
        (cells (quotientAux a b q).value) (cells a) = (0 : ZMod order) ∧
      (quotientAux a b q).overflowed = false) ↔
      ∀ k < 4, total (2 ^ 64) (k + 1) (convolution q.limb b.limb) +
        Digits.value (2 ^ 64) (k + 1) (ofWord (toWord a - toWord q * toWord b)).limb <
          (2 ^ 64) ^ (k + 2) := by
  rw [quotientAux]
  refine product_complete_iff (fun k _ => List.sum_singleton) (value_modEq_of_word ?_)
  rw [toWord_ofWord]
  exact add_sub_cancel _ _

/-- DIV and SDIV have the quotient as their result. -/
theorem div_complete (isDiv : trace.opcode = 0x04 ∨ trace.opcode = 0x05)
    (honest : AluRow trace) :
    (evaluateArithDivFullRaw (traceRow trace : Row (ZMod order)) = 0 ∧
      (computeEvmAux trace.opcode trace.input0 trace.input1 trace.output0).overflowed = false) ↔
        MulDivFits trace.opcode trace.input0 trace.input1 := by
  have witness : computeEvmAux trace.opcode trace.input0 trace.input1 trace.output0 =
      divAux trace.input0 trace.input1 trace.output0 := by
    rcases isDiv with isDiv | isSdiv
    · rw [isDiv]
      rfl
    · rw [isSdiv]
      rfl
  have result : trace.output0 = multiplicand trace.opcode trace.input0 trace.input1 := by
    rw [honest.output, multiplicand]
    rcases isDiv with isDiv | isSdiv
    · rw [isDiv, Semantics.alu_div, if_neg (by decide), if_pos (by decide)]
    · rw [isSdiv, Semantics.alu_sdiv, if_neg (by decide), if_neg (by decide)]
  have noMod : ¬ (trace.opcode = 0x06 ∨ trace.opcode = 0x07) := by
    rcases isDiv with isDiv | isSdiv
    · rw [isDiv]
      decide
    · rw [isSdiv]
      decide
  have notMul : trace.opcode ≠ 0x02 := by
    rcases isDiv with isDiv | isSdiv
    · rw [isDiv]
      decide
    · rw [isSdiv]
      decide
  obtain ⟨exact, value⟩ := divAux_spec trace.input0 trace.input1 trace.output0
  have aux := honest.aux
  rw [witness, value] at aux
  obtain ⟨aux0Cells, aux1Cells⟩ := Prod.mk.inj aux
  rw [evaluateArithDivFullRaw, traceRow_input0, traceRow_input1, traceRow_output0,
    traceRow_aux0, traceRow_aux1, aux0Cells, aux1Cells, witness, exact]
  refine (quotient_complete_iff trace.input0 trace.input1 trace.output0).trans ?_
  have rest : ofWord (toWord trace.input0 - toWord trace.output0 * toWord trace.input1) =
      addend trace.opcode trace.input0 trace.input1 := by
    rw [addend, if_neg notMul, ← result]
  rw [rest, result]
  exact ⟨fun fit => ⟨fit, fun isMod => absurd isMod noMod⟩, fun fit => fit.columns⟩

/-- Without a divisor the columns hold the dividend alone. -/
theorem columns_zero_divisor (opcode : Opcode) (a : U256) :
    ∀ k < 4, total (2 ^ 64) (k + 1) (convolution (multiplicand opcode a 0).limb (0 : U256).limb) +
      Digits.value (2 ^ 64) (k + 1) (addend opcode a 0).limb < (2 ^ 64) ^ (k + 2) := by
  intro k _
  have product : total (2 ^ 64) (k + 1)
      (convolution (multiplicand opcode a 0).limb (0 : U256).limb) = 0 := by
    simp [total, Digits.value, convolution]
  have small : Digits.value (2 ^ 64) (k + 1) (addend opcode a 0).limb < (2 ^ 64) ^ (k + 1) :=
    Digits.value_lt fun i _ => limb_lt _ i
  rw [product, Nat.zero_add]
  exact lt_of_lt_of_le small (Nat.pow_le_pow_right (Nat.two_pow_pos 64) (Nat.le_succ _))

/-- The row of a remainder by zero has no witness, and states that the dividend
is zero. -/
theorem wordProduct_zero_divisor [Fact (2 ^ 254 < order)] (a : U256) :
    wordProduct (cells (0 : U256)) (cells (0 : U256)) (cells (0 : U256)) (cells (0 : U256))
      (cells a) = (0 : ZMod order) ↔ a = 0 := by
  have limb : ∀ k : Fin 4, wordProductLimb (cells (0 : U256)) (cells (0 : U256))
      (cells (0 : U256)) (cells (0 : U256)) (cells a) k = - (a.limb k : ZMod order) := by
    intro k
    have entering : carryIn (0 : U256) k = 0 := by
      obtain ⟨k, inside⟩ := k
      cases k with
      | zero => rfl
      | succ k => exact limb_zero k
    rw [wordProductLimb_cells, entering]
    simp [convolution]
  have sum : wordProduct (cells (0 : U256)) (cells (0 : U256)) (cells (0 : U256))
      (cells (0 : U256)) (cells a) = - (limbTotal a : ZMod order) := by
    rw [← limbSum_cells, wordProduct, limbSum, limbSum, limb, limb, limb, limb]
    simp only [cells_eq]
    ring
  have small : limbTotal a < 2 ^ 254 := lt_trans (limbTotal_lt a) (by decide)
  rw [sum, neg_eq_zero, natCast_eq_zero_iff small, limbTotal_eq_zero_iff]

theorem mod_eq_rest {a b : Word} (nonzero : b ≠ 0) :
    Semantics.mod a b = a - Semantics.div a b * b := by
  rw [Semantics.mod, Semantics.div, if_neg nonzero, if_neg nonzero]
  exact (sub_eq_of_eq_add' (udiv_mul_add_umod a b).symm).symm

theorem smod_eq_rest {a b : Word} (nonzero : b ≠ 0) :
    Semantics.smod a b = a - Semantics.sdiv a b * b := by
  rw [Semantics.smod, Semantics.sdiv, if_neg nonzero, if_neg nonzero]
  exact (sub_eq_of_eq_add' (sdiv_mul_add_srem a b).symm).symm

theorem mod_complete [Fact (2 ^ 254 < order)]
    (isMod : trace.opcode = 0x06 ∨ trace.opcode = 0x07) (honest : AluRow trace) :
    (evaluateArithModFullRaw (traceRow trace : Row (ZMod order)) = 0 ∧
      (computeEvmAux trace.opcode trace.input0 trace.input1 trace.output0).overflowed = false) ↔
        MulDivFits trace.opcode trace.input0 trace.input1 := by
  have notMul : trace.opcode ≠ 0x02 := by
    rcases isMod with isMod | isSmod
    · rw [isMod]
      decide
    · rw [isSmod]
      decide
  have aux := honest.aux
  rw [evaluateArithModFullRaw, traceRow_input0, traceRow_input1, traceRow_output0,
    traceRow_aux0, traceRow_aux1]
  by_cases zero : trace.input1 = 0
  · have witness : computeEvmAux trace.opcode trace.input0 trace.input1 trace.output0 =
        pure (0, 0) := by
      rcases isMod with isMod | isSmod
      · rw [isMod, zero]
        rfl
      · rw [isSmod, zero]
        rfl
    have result : trace.output0 = 0 := by
      have isZero : toWord trace.input1 = 0 := toWord_eq_zero_iff.2 zero
      rw [honest.output, isZero, ← toWord_inj, toWord_ofWord, toWord_eq_zero_iff.2 rfl]
      rcases isMod with isMod | isSmod
      · rw [isMod, Semantics.alu_mod, Semantics.mod, if_pos rfl]
      · rw [isSmod, Semantics.alu_smod, Semantics.smod, if_pos rfl]
    rw [witness] at aux ⊢
    obtain ⟨aux0Cells, aux1Cells⟩ := Prod.mk.inj aux
    rw [aux0Cells, aux1Cells, result, zero, wordProduct_zero_divisor]
    constructor
    · rintro ⟨isZero, -⟩
      exact ⟨columns_zero_divisor trace.opcode trace.input0, fun _ _ => isZero⟩
    · exact fun fit => ⟨fit.divisor isMod rfl, rfl⟩
  · have nonzero : toWord trace.input1 ≠ 0 := zero ∘ toWord_eq_zero_iff.1
    have witness : computeEvmAux trace.opcode trace.input0 trace.input1 trace.output0 =
        modAux (multiplicand trace.opcode trace.input0 trace.input1) trace.input1
          trace.output0 := by
      rcases isMod with isMod | isSmod
      · have branch : computeEvmAux 0x06 trace.input0 trace.input1 trace.output0 =
            if trace.input1 = 0 then pure (0, 0)
            else modAux (divU256 trace.input0 trace.input1) trace.input1 trace.output0 := rfl
        rw [isMod, branch, if_neg zero, multiplicand, if_neg (by decide), if_pos (by decide),
          Semantics.div, if_neg nonzero, ← toWord_divU256, ofWord_toWord]
      · have branch : computeEvmAux 0x07 trace.input0 trace.input1 trace.output0 =
            if trace.input1 = 0 then pure (0, 0)
            else modAux (sdivU256 trace.input0 trace.input1) trace.input1 trace.output0 := rfl
        rw [isSmod, branch, if_neg zero, multiplicand, if_neg (by decide), if_neg (by decide),
          ← toWord_sdivU256, ofWord_toWord]
    have rest : trace.output0 = ofWord (toWord trace.input0 -
        toWord (multiplicand trace.opcode trace.input0 trace.input1) * toWord trace.input1) := by
      rw [honest.output, multiplicand]
      rcases isMod with isMod | isSmod
      · rw [isMod, Semantics.alu_mod, if_neg (by decide), if_pos (by decide), toWord_ofWord,
          mod_eq_rest nonzero]
      · rw [isSmod, Semantics.alu_smod, if_neg (by decide), if_neg (by decide), toWord_ofWord,
          smod_eq_rest nonzero]
    obtain ⟨exact, value⟩ := modAux_spec trace.input0 trace.input1 _ rest
    rw [witness, value] at aux
    obtain ⟨aux0Cells, aux1Cells⟩ := Prod.mk.inj aux
    rw [witness, exact, aux0Cells, aux1Cells, rest]
    refine (quotient_complete_iff trace.input0 trace.input1 _).trans ?_
    have isAddend : ofWord (toWord trace.input0 -
        toWord (multiplicand trace.opcode trace.input0 trace.input1) * toWord trace.input1) =
          addend trace.opcode trace.input0 trace.input1 := by
      rw [addend, if_neg notMul]
    rw [isAddend]
    exact ⟨fun fit => ⟨fit, fun _ isZero => absurd isZero zero⟩, fun fit => fit.columns⟩

/-- The bodies vanish and nothing overflows, unless the leading columns of the
product are too large, or a remainder by zero is taken. -/
theorem mulDivRow_complete_iff [Fact (2 ^ 254 < order)] (honest : AluRow trace)
    (known : trace.opcode ∈ mulDivOpcodes) :
    ((∀ value ∈ mulDivValues (traceRow trace : Row (ZMod order)), value = 0) ∧
      (computeEvmAux trace.opcode trace.input0 trace.input1 trace.output0).overflowed = false) ↔
        MulDivFits trace.opcode trace.input0 trace.input1 := by
  rw [mulDiv_zero_iff (traceRow_written trace)]
  simp only [mulDivOpcodes, List.mem_cons, List.not_mem_nil, or_false] at known
  rcases known with isMul | isDiv | isSdiv | isMod | isSmod
  · have place : trace.selectorSlot = 3 := honest.slot isMul (by decide)
    rw [← @mul_complete order trace isMul honest, place]
    simp
  · have place : trace.selectorSlot = 4 := honest.slot isDiv (by decide)
    rw [← @div_complete order trace (Or.inl isDiv) honest, place]
    simp
  · have place : trace.selectorSlot = 6 := honest.slot isSdiv (by decide)
    rw [← @div_complete order trace (Or.inr isSdiv) honest, place]
    simp
  · have place : trace.selectorSlot = 5 := honest.slot isMod (by decide)
    rw [← @mod_complete order trace _ (Or.inl isMod) honest, place]
    simp
  · have place : trace.selectorSlot = 7 := honest.slot isSmod (by decide)
    rw [← @mod_complete order trace _ (Or.inr isSmod) honest, place]
    simp

end Rows

theorem seven_div_two :
    (∀ value ∈ mulDivValues (traceRow (aluTrace 0x04 (ofNat 7) (ofNat 2)) : Row Fr), value = 0) ∧
      (computeEvmAux 0x04 (ofNat 7) (ofNat 2) (aluTrace 0x04 (ofNat 7) (ofNat 2)).output0).overflowed =
        false :=
  (mulDivRow_complete_iff (aluTrace_honest 0x04 (ofNat 7) (ofNat 2)) (by decide)).2
    ⟨by decide, fun isMod => absurd isMod (by decide)⟩

/-- The largest factors overflow, and 5 has no witness for its remainder by zero. -/
theorem mulDiv_incomplete :
    ¬ (∀ trace : EvmTraceRow, AluRow trace → trace.opcode ∈ mulDivOpcodes →
      (computeEvmAux trace.opcode trace.input0 trace.input1 trace.output0).overflowed = false) ∧
    ¬ (∀ trace : EvmTraceRow, AluRow trace → trace.opcode ∈ mulDivOpcodes →
      ∀ value ∈ mulDivValues (traceRow trace : Row Fr), value = 0) := by
  constructor
  · intro exact
    have fits := exact (aluTrace 0x02 (fun _ => 0xFFFFFFFFFFFFFFFF) (fun _ => 0xFFFFFFFFFFFFFFFF))
      (aluTrace_honest _ _ _) (by decide)
    revert fits
    decide
  · intro vanish
    have written : Written (aluTrace 0x06 (ofNat 5) 0)
        (traceRow (aluTrace 0x06 (ofNat 5) 0) : Row Fr) := traceRow_written _
    have zero := (mulDiv_zero_iff written).1
      (vanish _ (aluTrace_honest 0x06 (ofNat 5) 0) (by decide))
    have body : evaluateArithModFullRaw (traceRow (aluTrace 0x06 (ofNat 5) 0) : Row Fr) = 0 :=
      zero.2.2.1 (by decide)
    have fits := (mod_complete (Or.inl rfl) (aluTrace_honest 0x06 (ofNat 5) 0)).1
      ⟨body, by decide⟩
    exact absurd (fits.divisor (Or.inl rfl) rfl) (by decide)

end MetaVm.Evm.Constraints
