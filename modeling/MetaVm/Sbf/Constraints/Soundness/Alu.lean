import MetaVm.Lib.Words
import MetaVm.Sbf.Constraints.Lookups
import MetaVm.Sbf.Semantics
import MetaVm.Zkp.WordScalars

namespace MetaVm.Sbf.Constraints

open Zkp SelectorSystem

/-! Rows over the field with one selector set, and what a verifier accepts. -/

/-- The cells of a row besides its selectors. -/
structure Cells (F : Type) [Zero F] where
  pc : F := 0
  opcode : F := 0
  dstReg : F := 0
  dstValBefore : F := 0
  dstValAfter : F := 0
  srcReg : F := 0
  srcVal : F := 0
  memAddr : F := 0
  memVal : F := 0
  memSize : F := 0
  nextPc : F := 0
  insnType : F := 0
  funct : F := 0
  immediate : F := 0
  aux0 : F := 0
  aux1 : F := 0
  aux2 : F := 0

def Cells.row {F : Type} [Zero F] [One F] (cells : Cells F) (active : Column) : Row F :=
  Fin.append ![cells.pc, cells.opcode, cells.dstReg, cells.dstValBefore,
    cells.dstValAfter, cells.srcReg, cells.srcVal, cells.memAddr, cells.memVal,
    cells.memSize, cells.nextPc, cells.insnType, cells.funct, cells.immediate,
    cells.aux0, cells.aux1, cells.aux2]
    fun index : Fin 22 => if Fin.natAdd 17 index = active then 1 else 0

theorem Cells.row_sole {F : Type} [Zero F] [One F] (cells : Cells F) {active : Column}
    (listed : active ∈ selectorColumnIndices) :
    Sole selectorColumnIndices (cells.row active) active where
  listed := listed
  cell := by
    intro other member
    rw [selectorColumnIndices_eq] at member
    obtain ⟨index, rfl⟩ := List.mem_ofFn.1 member
    rw [row, Fin.append_right]

section Field

variable {order : ℕ} [Fact order.Prime] [large : Fact (2 ^ 254 < order)]

/-- A set selector of a satisfied row is the only one. -/
theorem Satisfied.sole {row : Row (ZMod order)} (satisfied : Satisfied row)
    {active : Column} (listed : active ∈ selectorColumnIndices)
    (set : row active = 1) : Sole selectorColumnIndices row active := by
  obtain ⟨-, binaries, sum⟩ := (values_zero_iff gatedConstraints).1 satisfied
  refine sole_of_set ?_ binaries sum listed set
  intro count few zero
  have length : selectorColumnIndices.length = 22 := rfl
  have bound := large.out
  rw [ZMod.natCast_eq_zero_iff] at zero
  exact Nat.eq_zero_of_dvd_of_lt zero (by omega)

end Field

/-- The constraints and the lookups hold, and the register held a word. -/
structure Accepted (row : Row Fr) : Prop where
  constraints : Satisfied row
  ranges : RangesHold row
  bitwise : BitwiseHolds row
  dstValBefore : (row colDstValBefore).val < 2 ^ 64

namespace Accepted

variable {row : Row Fr} {active : Column}

/-- On a row with one selector set only what belongs to it is checked. -/
theorem of_sole_iff (sole : Sole selectorColumnIndices row active) :
    Accepted row ↔
      (selectorBody active row = 0 ∧
        (active ∈ [colSelAluAdd, colSelAluSub] → binaryCheck (row colAux0) = 0)) ∧
      ((active ∈ [colSelAluMul, colSelAluDiv, colSelAluMod] →
          (row colAux0).val < 2 ^ 64) ∧
        (row colDstValAfter).val < 2 ^ 64 ∧ (row colSrcVal).val < 2 ^ 64) ∧
      (∀ op, active = bitwiseSelector op → BitwiseResult op row) ∧
      (row colDstValBefore).val < 2 ^ 64 := by
  rw [← satisfied_iff sole, ← rangesHold_iff sole, ← bitwiseHolds_sole_iff sole]
  constructor
  · exact fun accepted => ⟨accepted.constraints, accepted.ranges, accepted.bitwise,
      accepted.dstValBefore⟩
  · exact fun ⟨constraints, ranges, bitwise, before⟩ =>
      ⟨constraints, ranges, bitwise, before⟩

end Accepted

end MetaVm.Sbf.Constraints

namespace MetaVm.Sbf.Constraints

open Zkp SelectorSystem Words

/-! Arithmetic rows. Sums, products, moves and bitwise operations have one
result; a quotient is not compared with its remainder, and nothing ties the
witnesses of a shift or a negation to the operands. -/

/-- The row is one of `op` on the operands `a` and `b`. -/
structure AluRow (op : AluOp) (a b : Word) (row : Row Fr) : Prop where
  selected : row op.selector = 1
  dst : row colDstValBefore = Scalar.fromU64 a
  src : row colSrcVal = Scalar.fromU64 b

/-- Every accepted row of `op` on these operands holds the result. -/
def AluSound (op : AluOp) (a b : Word) : Prop :=
  ∀ row, Accepted row → AluRow op a b row →
    ∃ result, op.eval a b = some result ∧ row colDstValAfter = Scalar.fromU64 result

/-- The operands on which the constraints and lookups pin the result. -/
def AluDetermined (op : AluOp) (a b : Word) : Prop :=
  match op with
  | .div | .mod => a < b
  | .lsh | .rsh | .arsh | .neg => False
  | _ => True

/-- The body of an operation in the operands, the result and the witnesses. -/
def aluEquation {F : Type} [CommRing F] (op : AluOp)
    (dst src after aux0 aux1 aux2 : F) : F :=
  match op with
  | .add => dst + src - (aux0 * 2 ^ 64 + after)
  | .sub => after + src - (dst + aux0 * 2 ^ 64)
  | .mul => dst * src - (aux0 * 2 ^ 64 + after)
  | .div => after * src + aux0 - dst
  | .or => after - dst - src + aux0
  | .and => after - aux0
  | .lsh => dst * aux0 - aux1 * 2 ^ 64 - after
  | .rsh => after * aux0 + aux1 - dst
  | .neg => after + dst - aux0 * 2 ^ 64 + aux0 * (aux0 - 1)
  | .mod => aux0 * src + after - dst
  | .xor => after - dst - src + 2 * aux0
  | .mov => after - src
  | .arsh => after * aux0 + aux1 - dst - aux2 * 2 ^ 64

theorem selectorBody_alu {F : Type} [CommRing F] (op : AluOp) (row : Row F) :
    selectorBody op.selector row =
      aluEquation op (row colDstValBefore) (row colSrcVal) (row colDstValAfter)
        (row colAux0) (row colAux1) (row colAux2) := by
  cases op <;> rfl

namespace Accepted

variable {row : Row Fr} {op : AluOp} {a b : Word}

/-- What acceptance says of a row of an operation. -/
theorem aluRow (accepted : Accepted row) (alu : AluRow op a b row) :
    aluEquation op (Scalar.fromU64 a) (Scalar.fromU64 b) (row colDstValAfter)
        (row colAux0) (row colAux1) (row colAux2) = 0 ∧
      (op.selector ∈ [colSelAluAdd, colSelAluSub] →
        row colAux0 * (row colAux0 - 1) = 0) ∧
      (op.selector ∈ [colSelAluMul, colSelAluDiv, colSelAluMod] →
        (row colAux0).val < 2 ^ 64) ∧
      (row colDstValAfter).val < 2 ^ 64 ∧
      ∀ bitwise, op.selector = bitwiseSelector bitwise →
        (row colDstValAfter).val = bitwise.apply a.toNat b.toNat := by
  have sole := accepted.constraints.sole op.selector_listed alu.selected
  obtain ⟨⟨body, binary⟩, ⟨aux0, after, -⟩, bitwise, -⟩ := (of_sole_iff sole).1 accepted
  rw [selectorBody_alu, alu.dst, alu.src] at body
  refine ⟨body, binary, aux0, after, fun operation same => ?_⟩
  obtain ⟨-, -, result⟩ := bitwise operation same
  rwa [alu.dst, alu.src, val_fromU64, val_fromU64] at result

end Accepted

theorem eq_fromU64_of_val {value : Fr} {word : Word} (same : value.val = word.toNat) :
    value = Scalar.fromU64 word := by
  rw [Scalar.fromU64, ← same, ZMod.natCast_zmod_val]

/-! ### Operations with one result -/

section Sound

variable (a b : Word)

theorem add_sound : AluSound .add a b := by
  intro row accepted alu
  obtain ⟨body, binary, -, after, -⟩ := accepted.aluRow alu
  have unique := add_unique (val_fromU64_lt a) (val_fromU64_lt b) after
    (binary (by decide)) body
  rw [toU64_fromU64, toU64_fromU64] at unique
  exact ⟨a + b, rfl, eq_fromU64_of_val unique⟩

theorem sub_sound : AluSound .sub a b := by
  intro row accepted alu
  obtain ⟨body, binary, -, after, -⟩ := accepted.aluRow alu
  have unique := sub_unique (val_fromU64_lt a) (val_fromU64_lt b) after
    (binary (by decide)) body
  rw [toU64_fromU64, toU64_fromU64] at unique
  exact ⟨a - b, rfl, eq_fromU64_of_val unique⟩

theorem mul_sound : AluSound .mul a b := by
  intro row accepted alu
  obtain ⟨body, -, range, after, -⟩ := accepted.aluRow alu
  have unique := low_unique (val_fromU64_lt a) (val_fromU64_lt b) after
    (range (by decide)) body
  rw [toU64_fromU64, toU64_fromU64] at unique
  exact ⟨a * b, rfl, eq_fromU64_of_val unique⟩

theorem mov_sound : AluSound .mov a b := by
  intro row accepted alu
  obtain ⟨body, -⟩ := accepted.aluRow alu
  exact ⟨b, rfl, sub_eq_zero.1 body⟩

theorem and_sound : AluSound .and a b := by
  intro row accepted alu
  obtain ⟨-, -, -, -, bitwise⟩ := accepted.aluRow alu
  refine ⟨a &&& b, rfl, eq_fromU64_of_val ?_⟩
  rw [bitwise .and rfl, BitVec.toNat_and, BitwiseOp.apply]

theorem or_sound : AluSound .or a b := by
  intro row accepted alu
  obtain ⟨-, -, -, -, bitwise⟩ := accepted.aluRow alu
  refine ⟨a ||| b, rfl, eq_fromU64_of_val ?_⟩
  rw [bitwise .or rfl, BitVec.toNat_or, BitwiseOp.apply]

theorem xor_sound : AluSound .xor a b := by
  intro row accepted alu
  obtain ⟨-, -, -, -, bitwise⟩ := accepted.aluRow alu
  refine ⟨a ^^^ b, rfl, eq_fromU64_of_val ?_⟩
  rw [bitwise .xor rfl, BitVec.toNat_xor, BitwiseOp.apply]

end Sound

/-! ### Rows that a dishonest prover fills -/

/-- The result and the witnesses a prover chooses. -/
structure AluForgery where
  after : Word
  aux0 : Fr := 0
  aux1 : Fr := 0

namespace AluForgery

variable (forgery : AluForgery) (op : AluOp) (a b : Word)

def cells : Cells Fr where
  dstValBefore := Scalar.fromU64 a
  dstValAfter := Scalar.fromU64 forgery.after
  srcVal := Scalar.fromU64 b
  insnType := Scalar.fromU64 (insnAlu64.setWidth 64)
  funct := Scalar.fromU64 (op.funct.setWidth 64)
  aux0 := forgery.aux0
  aux1 := forgery.aux1

def row : Row Fr := (forgery.cells op a b).row op.selector

theorem row_aluRow : AluRow op a b (forgery.row op a b) where
  selected := ((forgery.cells op a b).row_sole op.selector_listed).set
  dst := rfl
  src := rfl

/-- The selectors with a binary check or a bitwise lookup leave less room. -/
theorem row_accepted (plain : op.selector ∉
      [colSelAluAdd, colSelAluSub, colSelAluAnd, colSelAluOr, colSelAluXor])
    (range : op.selector ∈ [colSelAluMul, colSelAluDiv, colSelAluMod] →
      forgery.aux0.val < 2 ^ 64)
    (zero : aluEquation op (Scalar.fromU64 a) (Scalar.fromU64 b)
      (Scalar.fromU64 forgery.after) forgery.aux0 forgery.aux1 0 = 0) :
    Accepted (forgery.row op a b) := by
  have sole := (forgery.cells op a b).row_sole op.selector_listed
  have unchecked : op.selector ∉ [colSelAluAdd, colSelAluSub] := by
    intro checked
    exact plain (List.mem_append_left _ checked)
  have single : ∀ bitwise, op.selector ≠ bitwiseSelector bitwise := by
    intro bitwise same
    rw [same] at plain
    cases bitwise <;> exact plain (by decide)
  refine (Accepted.of_sole_iff sole).2 ⟨⟨?_, ?_⟩, ⟨range, ?_, ?_⟩, ?_, ?_⟩
  · rw [selectorBody_alu]
    exact zero
  · exact fun checked => absurd checked unchecked
  · exact val_fromU64_lt forgery.after
  · exact val_fromU64_lt b
  · exact fun bitwise same => absurd same (single bitwise)
  · exact val_fromU64_lt a

end AluForgery

/-- A forged row with another value than the result. -/
theorem not_aluSound {op : AluOp} {a b : Word} {forgery : AluForgery}
    (accepted : Accepted (forgery.row op a b))
    (wrong : op.eval a b ≠ some forgery.after) : ¬ AluSound op a b := by
  intro sound
  obtain ⟨result, computed, same⟩ := sound _ accepted (forgery.row_aluRow op a b)
  have equal : forgery.after = result := fromU64_injective same
  exact wrong (by rw [computed, equal])

/-- With witnesses that nothing ties to the operands any word passes. -/
theorem not_aluSound_of_free {op : AluOp} {a b : Word}
    (free : ∀ after, ∃ aux0 aux1,
      Accepted (AluForgery.row ⟨after, aux0, aux1⟩ op a b)) : ¬ AluSound op a b := by
  by_cases zero : op.eval a b = some 0
  · obtain ⟨aux0, aux1, accepted⟩ := free 1
    refine not_aluSound accepted ?_
    rw [zero]
    intro same
    have equal : (0 : Word) = 1 := Option.some_inj.1 same
    exact absurd equal (by decide)
  · obtain ⟨aux0, aux1, accepted⟩ := free 0
    exact not_aluSound accepted zero

section Shifts

variable (a b : Word)

theorem twoPow64_ne_zero : (2 : Fr) ^ 64 ≠ 0 := by decide

theorem lsh_unsound : ¬ AluSound .lsh a b := by
  refine not_aluSound_of_free fun after => ⟨0, -Scalar.fromU64 after / 2 ^ 64, ?_⟩
  refine AluForgery.row_accepted _ _ a b (by decide)
    (fun ranged => absurd ranged (by decide)) ?_
  simp only [aluEquation]
  have nonzero := twoPow64_ne_zero
  rw [div_mul_cancel₀ _ nonzero]
  ring

theorem rsh_unsound : ¬ AluSound .rsh a b := by
  refine not_aluSound_of_free fun after => ⟨0, Scalar.fromU64 a, ?_⟩
  refine AluForgery.row_accepted _ _ a b (by decide)
    (fun ranged => absurd ranged (by decide)) ?_
  simp only [aluEquation]
  ring

theorem arsh_unsound : ¬ AluSound .arsh a b := by
  refine not_aluSound_of_free fun after => ⟨0, Scalar.fromU64 a, ?_⟩
  refine AluForgery.row_accepted _ _ a b (by decide)
    (fun ranged => absurd ranged (by decide)) ?_
  simp only [aluEquation]
  ring

/-- The negation borrows from its own binary check. With this borrow the
complement passes. -/
def negBorrow : Fr := Nat.cast
  47750566888896865914359108729605799409999925614426829019549835676135224181455

theorem negBorrow_root :
    (2 ^ 64 - 1) - negBorrow * 2 ^ 64 + negBorrow * (negBorrow - 1) = 0 := by
  decide

theorem fromU64_not (word : Word) :
    (Scalar.fromU64 (~~~word) : Fr) + Scalar.fromU64 word = 2 ^ 64 - 1 := by
  have total : (~~~word).toNat + word.toNat = 2 ^ 64 - 1 := by
    rw [BitVec.toNat_not]
    omega
  rw [Scalar.fromU64, Scalar.fromU64, ← Nat.cast_add, total,
    Nat.cast_sub Nat.one_le_two_pow, Nat.cast_pow, Nat.cast_ofNat, Nat.cast_one]

def complementForgery : AluForgery := ⟨~~~a, negBorrow, 0⟩

theorem complementForgery_accepted :
    Accepted ((complementForgery a).row .neg a b) := by
  refine AluForgery.row_accepted _ _ a b (by decide)
    (fun ranged => absurd ranged (by decide)) ?_
  simp only [aluEquation, complementForgery]
  rw [fromU64_not, negBorrow_root]

theorem neg_unsound : ¬ AluSound .neg a b := by
  refine not_aluSound (complementForgery_accepted a b) fun same => ?_
  have equal : -a = ~~~a := Option.some_inj.1 same
  rw [BitVec.neg_eq_not_add] at equal
  exact absurd (add_eq_left.1 equal) (by decide)

end Shifts

/-! ### Division -/

/-- Which of quotient and remainder is the result; the other is `aux0`. -/
def pick {α : Type} (op : AluOp) (quotient remainder : α) : α :=
  if op = .div then quotient else remainder

section Division

variable {op : AluOp} (division : op = .div ∨ op = .mod) {a b : Word}
include division

theorem equation_division {F : Type} [CommRing F] (dst src after aux0 aux1 aux2 : F) :
    aluEquation op dst src after aux0 aux1 aux2 =
      pick op after aux0 * src + pick op aux0 after - dst := by
  rcases division with rfl | rfl <;> rfl

theorem aluSound_division_iff :
    AluSound op a b ↔ ∀ quotient remainder : Word,
      quotient.toNat * b.toNat + remainder.toNat = a.toNat →
        op.eval a b = some (pick op quotient remainder) := by
  have plain : op.selector ∉
      [colSelAluAdd, colSelAluSub, colSelAluAnd, colSelAluOr, colSelAluXor] := by
    rcases division with rfl | rfl <;> decide
  have ranged : op.selector ∈ [colSelAluMul, colSelAluDiv, colSelAluMod] := by
    rcases division with rfl | rfl <;> decide
  constructor
  · intro sound quotient remainder split
    by_contra wrong
    let forgery : AluForgery :=
      ⟨pick op quotient remainder, Scalar.fromU64 (pick op remainder quotient), 0⟩
    refine @not_aluSound op a b forgery ?_ wrong sound
    refine forgery.row_accepted op a b plain (fun _ => val_fromU64_lt _) ?_
    have equal : (Scalar.fromU64 quotient : Fr) * Scalar.fromU64 b +
        Scalar.fromU64 remainder = Scalar.fromU64 a := by
      simp only [Scalar.fromU64, ← split]
      push_cast
      ring
    rw [equation_division division]
    rcases division with rfl | rfl
    · exact sub_eq_zero.2 equal
    · exact sub_eq_zero.2 equal
  · intro unique row accepted alu
    obtain ⟨body, -, range, after, -⟩ := accepted.aluRow alu
    rw [equation_division division] at body
    have aux0 := range ranged
    have ranges : (pick op (row colDstValAfter) (row colAux0)).val < 2 ^ 64 ∧
        (pick op (row colAux0) (row colDstValAfter)).val < 2 ^ 64 := by
      rcases division with rfl | rfl
      · exact ⟨after, aux0⟩
      · exact ⟨aux0, after⟩
    have computed := unique _ _ (division_words ranges.1 ranges.2 body)
    refine ⟨_, computed, ?_⟩
    rcases division with rfl | rfl
    · exact (fromU64_toU64 after).symm
    · exact (fromU64_toU64 after).symm

end Division

theorem div_sound_iff (a b : Word) : AluSound .div a b ↔ a < b := by
  rw [aluSound_division_iff (.inl rfl)]
  constructor
  · intro unique
    have computed : AluOp.eval .div a b = some 0 := unique 0 a split_zero
    refine ((@quotient_unique_iff _ _ _ 0 (by decide)).1 ?_).1
    intro quotient remainder split
    exact Option.some_inj.1 ((unique quotient remainder split).symm.trans computed)
  · intro less quotient remainder split
    have zero : quotient = 0 := quotient_eq_zero less split
    have none : a / b = 0 := by
      apply BitVec.eq_of_toNat_eq
      rw [BitVec.toNat_udiv]
      exact Nat.div_eq_of_lt less
    rw [zero, AluOp.eval, if_neg (ne_zero_of_lt less), none]
    rfl

theorem mod_sound_iff (a b : Word) : AluSound .mod a b ↔ a < b := by
  rw [aluSound_division_iff (.inr rfl)]
  constructor
  · intro unique
    have computed : AluOp.eval .mod a b = some a := unique 0 a split_zero
    have nonzero : b ≠ 0 := by
      rintro rfl
      cases computed
    refine (((@remainder_unique_iff _ _ _ a (by decide)).1 ?_).1).resolve_left nonzero
    intro quotient remainder split
    exact Option.some_inj.1 ((unique quotient remainder split).symm.trans computed)
  · intro less quotient remainder split
    have whole : remainder = a := remainder_eq (.inr less) split
    have kept : a % b = a := by
      apply BitVec.eq_of_toNat_eq
      rw [BitVec.toNat_umod]
      exact Nat.mod_eq_of_lt less
    rw [whole, AluOp.eval, if_neg (ne_zero_of_lt less), kept]
    rfl

theorem aluSound_iff (op : AluOp) (a b : Word) :
    AluSound op a b ↔ AluDetermined op a b := by
  cases op with
  | add => exact iff_of_true (add_sound a b) trivial
  | sub => exact iff_of_true (sub_sound a b) trivial
  | mul => exact iff_of_true (mul_sound a b) trivial
  | div => exact div_sound_iff a b
  | or => exact iff_of_true (or_sound a b) trivial
  | and => exact iff_of_true (and_sound a b) trivial
  | lsh => exact iff_of_false (lsh_unsound a b) not_false
  | rsh => exact iff_of_false (rsh_unsound a b) not_false
  | neg => exact iff_of_false (neg_unsound a b) not_false
  | mod => exact mod_sound_iff a b
  | xor => exact iff_of_true (xor_sound a b) trivial
  | mov => exact iff_of_true (mov_sound a b) trivial
  | arsh => exact iff_of_false (arsh_unsound a b) not_false

end MetaVm.Sbf.Constraints
