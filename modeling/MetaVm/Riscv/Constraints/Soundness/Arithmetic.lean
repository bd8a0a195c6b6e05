import MetaVm.Riscv.Constraints.Soundness.Accepted

namespace MetaVm.Riscv.Constraints

open Zkp Words

/-! Bitwise, shift, compare and divide rows. Their witnesses carry no range of
their own, so most rows leave the result open. -/

inductive AluOp
  | and
  | or
  | xor
  | sll
  | srl
  | sra
  | slt
  | sltu
deriving DecidableEq, Repr

namespace AluOp

def result : AluOp → Word → Word → Word
  | and, a, b => a &&& b
  | or, a, b => a ||| b
  | xor, a, b => a ^^^ b
  | sll, a, b => Rv64.sll a b
  | srl, a, b => Rv64.srl a b
  | sra, a, b => Rv64.sra a b
  | slt, a, b => Rv64.slt a b
  | sltu, a, b => Rv64.sltu a b

def regSelector : AluOp → Column
  | and => colSelRAnd
  | or => colSelROr
  | xor => colSelRXor
  | sll => colSelRSll
  | srl => colSelRSrl
  | sra => colSelRSra
  | slt => colSelRCompare
  | sltu => colSelRCompare

def immSelector : AluOp → Column
  | and => colSelIAnd
  | or => colSelIOr
  | xor => colSelIXor
  | sll => colSelISll
  | srl => colSelISrl
  | sra => colSelISra
  | slt => colSelICompare
  | sltu => colSelICompare

def regFunct : AluOp → Code
  | and => functAnd
  | or => functOr
  | xor => functXor
  | sll => functSll
  | srl => functSrl
  | sra => functSra
  | slt => functSlt
  | sltu => functSltu

def immFunct : AluOp → Code
  | and => functAndi
  | or => functOri
  | xor => functXori
  | sll => functSlli
  | srl => functSrli
  | sra => functSrai
  | slt => functSlti
  | sltu => functSltiu

end AluOp

inductive DivOp
  | div
  | divu
  | rem
  | remu
deriving DecidableEq, Repr

namespace DivOp

def result : DivOp → Word → Word → Word
  | div, a, b => Rv64.div a b
  | divu, a, b => Rv64.divu a b
  | rem, a, b => Rv64.rem a b
  | remu, a, b => Rv64.remu a b

def selector : DivOp → Column
  | div => colSelDiv
  | divu => colSelDiv
  | rem => colSelRem
  | remu => colSelRem

def funct : DivOp → Code
  | div => 4
  | divu => 5
  | rem => 6
  | remu => 7

end DivOp

inductive ResultOp
  | reg (op : AluOp)
  | imm (op : AluOp)
  | division (op : DivOp)
deriving DecidableEq, Repr

namespace ResultOp

def selector : ResultOp → Column
  | reg op => op.regSelector
  | imm op => op.immSelector
  | division op => op.selector

def operand : ResultOp → Column
  | imm _ => colImmediate
  | _ => colRs2Val

def insnType : ResultOp → Code
  | reg _ => insnRAlu
  | imm _ => insnIAlu
  | division _ => insnMuldiv

def funct : ResultOp → Code
  | reg op => op.regFunct
  | imm op => op.immFunct
  | division op => op.funct

def result : ResultOp → Word → Word → Word
  | reg op => op.result
  | imm op => op.result
  | division op => op.result

end ResultOp

def codeScalar (code : Code) : Fr := Scalar.fromU64 (code.setWidth 64)

/-- The row is one of `op` on the operands `a` and `b`. -/
structure ComputesOn (op : ResultOp) (a b : Word) (row : Row Fr) : Prop where
  selected : row op.selector = 1
  insnType : row colInsnType = codeScalar op.insnType
  funct : row colFunct = codeScalar op.funct
  rs1 : row colRs1Val = Scalar.fromU64 a
  operand : row op.operand = Scalar.fromU64 b

/-- Every accepted row of `op` on these operands holds the right result. -/
def ResultSound (op : ResultOp) (a b : Word) : Prop :=
  ∀ row, Accepted row → ComputesOn op a b row →
    row colRdValAfter = Scalar.fromU64 (op.result a b)

/-! ### Bitwise, shift and compare

One equation for each operation, read with the second register or with the
immediate. -/

namespace AluOp

section Equation

variable {F : Type} [CommRing F]

def regBody : AluOp → Row F → F
  | and => evaluateRAndRaw
  | or => evaluateROrRaw
  | xor => evaluateRXorRaw
  | sll => evaluateSllRaw
  | srl => evaluateSrlRaw
  | sra => evaluateSraRaw
  | slt => evaluateCompareRaw
  | sltu => evaluateCompareRaw

def immBody : AluOp → Row F → F
  | and => evaluateIAndRaw
  | or => evaluateIOrRaw
  | xor => evaluateIXorRaw
  | sll => evaluateSllRaw
  | srl => evaluateSrlRaw
  | sra => evaluateSraRaw
  | slt => evaluateCompareRaw
  | sltu => evaluateCompareRaw

/-- The common equation in the operands, the result and the witnesses. -/
def equation (op : AluOp) (a b rd aux0 aux1 aux2 : F) : F :=
  match op with
  | and => rd - aux0
  | or => rd - (a + b - aux0)
  | xor => rd - (a + b - (aux0 + aux0))
  | sll => a * aux0 - (aux1 * twoPow64 + rd)
  | srl => rd * aux0 + aux1 - a
  | sra => rd * aux0 + aux1 - (a + aux2 * twoPow64)
  | slt | sltu => rd - signedLt aux0 aux1 aux2 + binaryCheck aux0 +
      binaryCheck aux1 + binaryCheck aux2

theorem regBody_eq (op : AluOp) (row : Row F) :
    op.regBody row = op.equation (row colRs1Val) (row colRs2Val)
      (row colRdValAfter) (row colAux0) (row colAux1) (row colAux2) := by
  cases op with
  | xor => simp only [regBody, evaluateRXorRaw, equation, two_mul]
  | _ => rfl

theorem immBody_eq (op : AluOp) (row : Row F) :
    op.immBody row = op.equation (row colRs1Val) (row colImmediate)
      (row colRdValAfter) (row colAux0) (row colAux1) (row colAux2) := by
  cases op with
  | xor => simp only [immBody, evaluateIXorRaw, equation, two_mul]
  | _ => rfl

end Equation

theorem activeBodies_reg (op : AluOp) :
    (activeBodies op.regSelector : List (Row Fr → Fr)) =
      [evaluateSequentialPcRaw, op.regBody] := by
  cases op <;> rfl

theorem activeBodies_imm (op : AluOp) :
    (activeBodies op.immSelector : List (Row Fr → Fr)) =
      [evaluateSequentialPcRaw, op.immBody] := by
  cases op <;> rfl

theorem regSelector_known (op : AluOp) :
    op.regSelector ∈ selectorColumnIndices := by
  cases op <;> decide

theorem immSelector_known (op : AluOp) :
    op.immSelector ∈ selectorColumnIndices := by
  cases op <;> decide

/-- A bit that is not the result. -/
def wrong (op : AluOp) (a b : Word) : Word :=
  if op.result a b = 0 then 1 else 0

theorem wrong_ne (op : AluOp) (a b : Word) : op.wrong a b ≠ op.result a b := by
  unfold wrong
  split
  · rename_i zero
    rw [zero]
    decide
  · rename_i nonzero
    exact Ne.symm nonzero

/-- The witnesses `aux0` and `aux1` with which the equation holds for any bit
`rd`. -/
def forge (op : AluOp) (a b rd : Fr) : Fr × Fr :=
  match op with
  | and => (rd, 0)
  | or => (a + b - rd, 0)
  | xor => ((a + b - rd) / Scalar.fromU64 2, 0)
  | sll => (0, -rd / twoPow64)
  | srl | sra => (0, a)
  | slt | sltu => (rd, 0)

theorem equation_forge (op : AluOp) (a b : Fr) {rd : Fr} (bit : binaryCheck rd = 0) :
    op.equation a b rd (op.forge a b rd).1 (op.forge a b rd).2 0 = 0 := by
  have two : (2 : Fr) ≠ 0 := by decide
  have word : (twoPow64 : Fr) ≠ 0 := by
    rw [twoPow64_eq]
    decide
  cases op with
  | and => simp [equation, forge]
  | or =>
      simp only [equation, forge]
      ring
  | xor =>
      simp only [equation, forge, Scalar.fromU64_two]
      field_simp
      ring
  | sll =>
      simp only [equation, forge]
      field_simp
      ring
  | srl =>
      simp only [equation, forge]
      ring
  | sra =>
      simp only [equation, forge]
      ring
  | slt =>
      simp only [equation, forge, signedLt]
      simp only [binaryCheck] at bit ⊢
      linear_combination bit
  | sltu =>
      simp only [equation, forge, signedLt]
      simp only [binaryCheck] at bit ⊢
      linear_combination bit

/-- A row of `op` with the wrong bit as its result. -/
def forgedReg (op : AluOp) (a b : Word) : Cells Fr where
  rdValAfter := Scalar.fromU64 (op.wrong a b)
  rs1Val := Scalar.fromU64 a
  rs2Val := Scalar.fromU64 b
  insnType := codeScalar insnRAlu
  funct := codeScalar op.regFunct
  aux0 := (op.forge (Scalar.fromU64 a) (Scalar.fromU64 b)
    (Scalar.fromU64 (op.wrong a b))).1
  aux1 := (op.forge (Scalar.fromU64 a) (Scalar.fromU64 b)
    (Scalar.fromU64 (op.wrong a b))).2

def forgedImm (op : AluOp) (a b : Word) : Cells Fr where
  rdValAfter := Scalar.fromU64 (op.wrong a b)
  rs1Val := Scalar.fromU64 a
  immediate := Scalar.fromU64 b
  insnType := codeScalar insnIAlu
  funct := codeScalar op.immFunct
  aux0 := (op.forge (Scalar.fromU64 a) (Scalar.fromU64 b)
    (Scalar.fromU64 (op.wrong a b))).1
  aux1 := (op.forge (Scalar.fromU64 a) (Scalar.fromU64 b)
    (Scalar.fromU64 (op.wrong a b))).2

theorem wrong_binary (op : AluOp) (a b : Word) :
    binaryCheck (Scalar.fromU64 (op.wrong a b) : Fr) = 0 := by
  unfold wrong
  split
  · simp [binaryCheck, Scalar.fromU64]
  · simp [binaryCheck, Scalar.fromU64]

/-- No lookup of these selectors asks for a range of `aux0`. -/
theorem regSelector_unranged (op : AluOp) : ∀ declaration ∈ lookupDeclarations,
    declaration.selectorColumn ≠ some op.regSelector := by
  cases op <;> decide

theorem immSelector_unranged (op : AluOp) : ∀ declaration ∈ lookupDeclarations,
    declaration.selectorColumn ≠ some op.immSelector := by
  cases op <;> decide

theorem forgedReg_accepted (op : AluOp) (a b : Word) :
    Accepted ((op.forgedReg a b).row op.regSelector) where
  constraints := by
    refine ((op.forgedReg a b).satisfied_iff op.regSelector_known
      op.activeBodies_reg).2 ?_
    simp only [List.forall_mem_cons, List.not_mem_nil, IsEmpty.forall_iff,
      implies_true, and_true]
    refine ⟨?_, ?_⟩
    · exact sub_eq_zero.2 (zero_add 0).symm
    · rw [regBody_eq]
      exact op.equation_forge _ _ (op.wrong_binary a b)
  lookups := (op.forgedReg a b).lookups_hold op.regSelector_known
    (val_fromU64_lt _) (val_fromU64_lt a) (val_fromU64_lt b)
    fun declaration member same =>
      absurd same (op.regSelector_unranged declaration member)

theorem forgedImm_accepted (op : AluOp) (a b : Word) :
    Accepted ((op.forgedImm a b).row op.immSelector) where
  constraints := by
    refine ((op.forgedImm a b).satisfied_iff op.immSelector_known
      op.activeBodies_imm).2 ?_
    simp only [List.forall_mem_cons, List.not_mem_nil, IsEmpty.forall_iff,
      implies_true, and_true]
    refine ⟨?_, ?_⟩
    · exact sub_eq_zero.2 (zero_add 0).symm
    · rw [immBody_eq]
      exact op.equation_forge _ _ (op.wrong_binary a b)
  lookups := (op.forgedImm a b).lookups_hold op.immSelector_known
    (val_fromU64_lt _) (val_fromU64_lt a) (by rw [forgedImm, ZMod.val_zero]; norm_num)
    fun declaration member same =>
      absurd same (op.immSelector_unranged declaration member)

end AluOp

theorem AluOp.forgedReg_computesOn (op : AluOp) (a b : Word) :
    ComputesOn (.reg op) a b ((op.forgedReg a b).row op.regSelector) where
  selected := ((op.forgedReg a b).row_oneHot op.regSelector_known).set
  insnType := rfl
  funct := rfl
  rs1 := rfl
  operand := rfl

theorem AluOp.forgedImm_computesOn (op : AluOp) (a b : Word) :
    ComputesOn (.imm op) a b ((op.forgedImm a b).row op.immSelector) where
  selected := ((op.forgedImm a b).row_oneHot op.immSelector_known).set
  insnType := rfl
  funct := rfl
  rs1 := rfl
  operand := rfl

theorem not_resultSound_reg (op : AluOp) (a b : Word) :
    ¬ResultSound (.reg op) a b := by
  intro sound
  exact op.wrong_ne a b (fromU64_injective
    (sound _ (op.forgedReg_accepted a b) (op.forgedReg_computesOn a b)))

theorem not_resultSound_imm (op : AluOp) (a b : Word) :
    ¬ResultSound (.imm op) a b := by
  intro sound
  exact op.wrong_ne a b (fromU64_injective
    (sound _ (op.forgedImm_accepted a b) (op.forgedImm_computesOn a b)))

/-! ### Division

The equation says `quotient * divisor + remainder = dividend`; the order of
remainder and divisor is not part of it. -/

namespace DivOp

/-- Which of quotient and remainder goes to `rd`; the other is `aux0`. -/
def pick {α : Type} : DivOp → α → α → α
  | div, quotient, _ => quotient
  | divu, quotient, _ => quotient
  | rem, _, remainder => remainder
  | remu, _, remainder => remainder

def body {F : Type} [CommRing F] : DivOp → Row F → F
  | div => evaluateDivRaw
  | divu => evaluateDivRaw
  | rem => evaluateRemRaw
  | remu => evaluateRemRaw

theorem body_eq {F : Type} [CommRing F] (op : DivOp) (row : Row F) :
    op.body row = op.pick (row colRdValAfter) (row colAux0) * row colRs2Val +
      op.pick (row colAux0) (row colRdValAfter) - row colRs1Val := by
  cases op <;> rfl

theorem activeBodies_division (op : DivOp) :
    (activeBodies op.selector : List (Row Fr → Fr)) =
      [evaluateSequentialPcRaw, op.body] := by
  cases op <;> rfl

theorem ownBodies_division (op : DivOp) :
    (gatedBodies (· = [op.selector]) : List (Row Fr → Fr)) = [op.body] := by
  cases op <;> rfl

theorem selector_known (op : DivOp) : op.selector ∈ selectorColumnIndices := by
  cases op <;> decide

theorem selector_range (op : DivOp) : ∀ declaration ∈ lookupDeclarations,
    declaration.selectorColumn = some op.selector → declaration.maxBits = 64 := by
  cases op <;> decide

/-- A row of `op` that claims a given quotient and remainder. -/
def cells (op : DivOp) (a b quotient remainder : Word) : Cells Fr where
  rdValAfter := Scalar.fromU64 (op.pick quotient remainder)
  rs1Val := Scalar.fromU64 a
  rs2Val := Scalar.fromU64 b
  insnType := codeScalar insnMuldiv
  funct := codeScalar op.funct
  aux0 := Scalar.fromU64 (op.pick remainder quotient)

theorem cells_accepted (op : DivOp) {a b quotient remainder : Word}
    (split : quotient.toNat * b.toNat + remainder.toNat = a.toNat) :
    Accepted ((op.cells a b quotient remainder).row op.selector) where
  constraints := by
    have equal : (Scalar.fromU64 quotient : Fr) * Scalar.fromU64 b +
        Scalar.fromU64 remainder = Scalar.fromU64 a := by
      simp only [Scalar.fromU64, ← split]
      push_cast
      ring
    refine ((op.cells a b quotient remainder).satisfied_iff op.selector_known
      op.activeBodies_division).2 ?_
    simp only [List.forall_mem_cons, List.not_mem_nil, IsEmpty.forall_iff,
      implies_true, and_true]
    refine ⟨sub_eq_zero.2 (zero_add 0).symm, ?_⟩
    rw [body_eq]
    cases op <;> exact sub_eq_zero.2 equal
  lookups := (op.cells a b quotient remainder).lookups_hold op.selector_known
    (val_fromU64_lt _) (val_fromU64_lt a) (val_fromU64_lt b)
    fun declaration member same => by
      rw [op.selector_range declaration member same]
      exact val_fromU64_lt _

theorem cells_computesOn (op : DivOp) (a b quotient remainder : Word) :
    ComputesOn (.division op) a b
      ((op.cells a b quotient remainder).row op.selector) where
  selected := ((op.cells a b quotient remainder).row_oneHot op.selector_known).set
  insnType := rfl
  funct := rfl
  rs1 := rfl
  operand := rfl

end DivOp

theorem Accepted.aux0Range {row : Row Fr} (accepted : Accepted row) {op : DivOp}
    (selected : row op.selector = 1) : (row colAux0).val < 2 ^ 64 := by
  have held : ∀ {label : String} {selector : Column}, row selector = 1 →
      ⟨label, colAux0, 64, some selector⟩ ∈ lookupDeclarations →
      (row colAux0).val < 2 ^ 64 := fun set member =>
    accepted.lookups _ member fun _ same => by
      rwa [← Option.mem_some_iff.1 same]
  cases op with
  | div => exact @held "div_aux0_64bit" _ selected (by decide)
  | divu => exact @held "div_aux0_64bit" _ selected (by decide)
  | rem => exact @held "rem_aux0_64bit" _ selected (by decide)
  | remu => exact @held "rem_aux0_64bit" _ selected (by decide)

/-- An accepted division row names some quotient and remainder. -/
theorem division_split {op : DivOp} {a b : Word} {row : Row Fr}
    (accepted : Accepted row) (computes : ComputesOn (.division op) a b row) :
    ∃ quotient remainder : Word,
      quotient.toNat * b.toNat + remainder.toNat = a.toNat ∧
        row colRdValAfter = Scalar.fromU64 (op.pick quotient remainder) := by
  have selected : row op.selector = 1 := computes.selected
  have zero : op.body row = 0 := accepted.bodies selected op.body (by
    rw [op.ownBodies_division]
    exact List.mem_singleton_self _)
  have rd := accepted.rdRange
  have aux0 := accepted.aux0Range selected
  have ranges : (op.pick (row colRdValAfter) (row colAux0)).val < 2 ^ 64 ∧
      (op.pick (row colAux0) (row colRdValAfter)).val < 2 ^ 64 := by
    cases op
    · exact ⟨rd, aux0⟩
    · exact ⟨rd, aux0⟩
    · exact ⟨aux0, rd⟩
    · exact ⟨aux0, rd⟩
  refine ⟨Scalar.toU64 (op.pick (row colRdValAfter) (row colAux0)),
    Scalar.toU64 (op.pick (row colAux0) (row colRdValAfter)), ?_, ?_⟩
  · rw [op.body_eq, computes.rs1, show row colRs2Val = _ from computes.operand] at zero
    exact division_words ranges.1 ranges.2 zero
  · cases op
    · exact (fromU64_toU64 rd).symm
    · exact (fromU64_toU64 rd).symm
    · exact (fromU64_toU64 rd).symm
    · exact (fromU64_toU64 rd).symm

theorem resultSound_division_iff (op : DivOp) (a b : Word) :
    ResultSound (.division op) a b ↔ ∀ quotient remainder : Word,
      quotient.toNat * b.toNat + remainder.toNat = a.toNat →
        op.pick quotient remainder = op.result a b := by
  constructor
  · intro sound quotient remainder split
    exact fromU64_injective (sound _ (op.cells_accepted split)
      (op.cells_computesOn a b quotient remainder))
  · intro unique row accepted computes
    obtain ⟨quotient, remainder, split, rd⟩ := division_split accepted computes
    rw [rd, unique quotient remainder split]
    rfl

/-- When the operands leave one quotient and one remainder. -/
def DivOp.Determined (op : DivOp) (a b : Word) : Prop :=
  match op with
  | .divu => a < b
  | .div => a < b ∧ a.toInt.natAbs < b.toInt.natAbs
  | .remu => b = 0 ∨ a < b
  | .rem => b = 0 ∨ (a < b ∧ a.toInt.natAbs < b.toInt.natAbs)

theorem division_unique_iff (op : DivOp) (a b : Word) :
    (∀ quotient remainder : Word,
      quotient.toNat * b.toNat + remainder.toNat = a.toNat →
        op.pick quotient remainder = op.result a b) ↔ op.Determined a b := by
  cases op with
  | div =>
      refine (quotient_unique_iff (by decide)).trans (and_congr_right fun less => ?_)
      exact Rv64.div_eq_zero_iff (ne_zero_of_lt less)
  | divu =>
      refine (quotient_unique_iff (by decide)).trans (and_iff_left_of_imp fun less => ?_)
      apply BitVec.eq_of_toNat_eq
      rw [DivOp.result, Rv64.toNat_divu (ne_zero_of_lt less)]
      exact Nat.div_eq_of_lt less
  | rem =>
      refine (remainder_unique_iff (by decide)).trans ?_
      by_cases zero : b = 0
      · simp [DivOp.Determined, DivOp.result, Rv64.rem, zero]
      · simp only [DivOp.Determined, DivOp.result, zero, false_or]
        exact and_congr_right fun _ => Rv64.rem_eq_self_iff zero
  | remu =>
      refine (remainder_unique_iff (by decide)).trans (and_iff_left_of_imp fun determined => ?_)
      apply BitVec.eq_of_toNat_eq
      rw [DivOp.result, Rv64.toNat_remu]
      rcases determined with rfl | less
      · simp
      · exact Nat.mod_eq_of_lt less

/-- The operands on which the constraints and lookups pin the result. -/
def ResultOp.Determined (op : ResultOp) (a b : Word) : Prop :=
  match op with
  | .division op => op.Determined a b
  | _ => False

theorem resultSound_iff (op : ResultOp) (a b : Word) :
    ResultSound op a b ↔ op.Determined a b := by
  cases op with
  | reg op => exact iff_of_false (not_resultSound_reg op a b) not_false
  | imm op => exact iff_of_false (not_resultSound_imm op a b) not_false
  | division op =>
      exact (resultSound_division_iff op a b).trans (division_unique_iff op a b)

/-- An accepted row in which `6 & 3` is zero. -/
theorem and_row_forged :
    Accepted ((AluOp.and.forgedReg 6 3).row colSelRAnd) ∧
      ComputesOn (.reg .and) 6 3 ((AluOp.and.forgedReg 6 3).row colSelRAnd) ∧
      (AluOp.and.forgedReg 6 3).row colSelRAnd colRdValAfter = Scalar.fromU64 0 ∧
      (AluOp.and.forgedReg 6 3).row colSelRAnd colRdValAfter ≠
        Scalar.fromU64 ((6 : Word) &&& 3) := by
  refine ⟨AluOp.and.forgedReg_accepted 6 3, AluOp.and.forgedReg_computesOn 6 3,
    rfl, ?_⟩
  exact fun same => AluOp.and.wrong_ne 6 3 (fromU64_injective same)

end MetaVm.Riscv.Constraints
