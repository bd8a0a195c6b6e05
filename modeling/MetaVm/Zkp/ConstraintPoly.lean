import MetaVm.Lib.Outcome
import MetaVm.Zkp.PolyArith

namespace MetaVm.Zkp

open CoeffList Polynomial

/-! Constraints combined with the powers of `alpha`, over the evaluations at a
point and over coefficient vectors. -/

section Values

variable {F : Type} [CommRing F]

/-- The running sum and the running power of `alpha`. -/
def accumulate (alpha : F) (state : F × F) (value : F) : F × F :=
  (state.1 + value * state.2, state.2 * alpha)

theorem foldl_accumulate (alpha : F) (values : List F) (state : F × F) :
    values.foldl (accumulate alpha) state =
      (state.1 + state.2 * evalPolyAt values alpha,
        state.2 * alpha ^ values.length) := by
  induction values generalizing state with
  | nil => simp [evalPolyAt]
  | cons value rest ih =>
      rw [List.foldl_cons, ih]
      simp only [accumulate, evalPolyAt, List.foldr_cons, List.length_cons]
      ext <;> ring

/-- `omega^exponent` by repeated squaring. -/
def powerLoop (result base : F) (exponent : ℕ) : F :=
  if exponent = 0 then result
  else
    powerLoop (if exponent % 2 = 1 then result * base else result) (base * base)
      (exponent / 2)
termination_by exponent
decreasing_by omega

theorem powerLoop_eq (result base : F) (exponent : ℕ) :
    powerLoop result base exponent = result * base ^ exponent := by
  induction exponent using Nat.strong_induction_on generalizing result base with
  | _ exponent ih =>
      rw [powerLoop]
      split
      · next zero => rw [zero, pow_zero, mul_one]
      · next nonzero =>
          rw [ih (exponent / 2) (by omega), ← pow_two, ← pow_mul]
          split
          · next odd =>
              have parity : exponent = 2 * (exponent / 2) + 1 := by omega
              rw [mul_assoc, ← pow_succ', ← parity]
          · next even =>
              have parity : 2 * (exponent / 2) = exponent := by omega
              rw [parity]

/-! Polynomials moved along the domain: `p(omega * X)`, and the factor that
leaves out one row. -/

def polyShiftFrom (omegaPower omega : F) : List F → List F
  | [] => []
  | c :: rest => c * omegaPower :: polyShiftFrom (omegaPower * omega) omega rest

def polyShift (coeffs : List F) (omega : F) : List F := polyShiftFrom 1 omega coeffs

/-- Each coefficient contributes to its own place and the next. -/
def polyMulLinear (coeffs : List F) (c : F) : List F :=
  if coeffs.isEmpty then [0]
  else
    (List.range coeffs.length).foldl (fun result i =>
      (result.modify i fun entry => entry + coeffs.getD i 0 * (0 - c)).modify (i + 1)
        fun entry => entry + coeffs.getD i 0)
      (List.replicate (coeffs.length + 1) 0)

theorem length_polyShiftFrom (coeffs : List F) (omegaPower omega : F) :
    (polyShiftFrom omegaPower omega coeffs).length = coeffs.length := by
  induction coeffs generalizing omegaPower with
  | nil => rfl
  | cons c rest ih => rw [polyShiftFrom, List.length_cons, ih, List.length_cons]

theorem evalPolyAt_polyShiftFrom (coeffs : List F) (omegaPower omega z : F) :
    evalPolyAt (polyShiftFrom omegaPower omega coeffs) z =
      omegaPower * evalPolyAt coeffs (omega * z) := by
  induction coeffs generalizing omegaPower with
  | nil => exact (mul_zero _).symm
  | cons c rest ih =>
      rw [polyShiftFrom, evalPolyAt, List.foldr_cons, ← evalPolyAt, ih, evalPolyAt,
        evalPolyAt, List.foldr_cons]
      ring

theorem evalPolyAt_polyShift (coeffs : List F) (omega z : F) :
    evalPolyAt (polyShift coeffs omega) z = evalPolyAt coeffs (omega * z) := by
  rw [polyShift, evalPolyAt_polyShiftFrom, one_mul]

theorem polyMulLinear_spec (coeffs : List F) (c : F) :
    (polyMulLinear coeffs c).length = coeffs.length + 1 ∧
      toPoly (polyMulLinear coeffs c) = toPoly coeffs * (X - C c) := by
  have rows : ∀ count ≤ coeffs.length,
      ((List.range count).foldl (fun result i =>
        (result.modify i fun entry => entry + coeffs.getD i 0 * (0 - c)).modify
          (i + 1) fun entry => entry + coeffs.getD i 0)
        (List.replicate (coeffs.length + 1) (0 : F))).length = coeffs.length + 1 ∧
      toPoly ((List.range count).foldl (fun result i =>
        (result.modify i fun entry => entry + coeffs.getD i 0 * (0 - c)).modify
          (i + 1) fun entry => entry + coeffs.getD i 0)
        (List.replicate (coeffs.length + 1) (0 : F))) =
        (∑ i ∈ Finset.range count, C (coeffs.getD i 0) * X ^ i) * (X - C c) := by
    intro count
    induction count with
    | zero => simp [toPoly_replicate_zero]
    | succ count ih =>
        intro inside
        obtain ⟨lengthEq, polyEq⟩ := ih (by omega)
        rw [List.range_succ, List.foldl_append, List.foldl_cons, List.foldl_nil]
        refine ⟨by rw [List.length_modify, List.length_modify, lengthEq], ?_⟩
        rw [toPoly_modify_add (by rw [List.length_modify]; omega),
          toPoly_modify_add (by omega), polyEq, Finset.sum_range_succ, C_mul, C_sub,
          C_0]
        ring
  unfold polyMulLinear
  split
  · next empty =>
      rw [List.isEmpty_iff.1 empty]
      refine ⟨rfl, ?_⟩
      rw [toPoly_singleton, C_0]
      exact (zero_mul _).symm
  · obtain ⟨lengthEq, polyEq⟩ := rows coeffs.length le_rfl
    exact ⟨lengthEq, by rw [polyEq, ← toPoly_eq_sum]⟩

end Values

section Polynomials

variable (curve : CurveType)

abbrev Poly : Type := List (Scalar curve)

def onePoly : Poly curve := [1]

def polyBinary (value : Poly curve) : Option (Poly curve) :=
  polyMul curve value (polySub value (onePoly curve))

/-! Constraint blocks: the gating polynomial and the body. -/

abbrev Pair : Type := Poly curve × Poly curve

/-- The polynomial accumulated so far and the running power of `alpha`. -/
def accumulatePoly (alpha : Scalar curve) (state : Poly curve × Scalar curve)
    (value : Poly curve) : Poly curve × Scalar curve :=
  (polyAdd state.1 (polyScalarMul value state.2), state.2 * alpha)

/-- `selSum[0] -= 1`. -/
def subOneFromConstant (selSum : Poly curve) : Poly curve :=
  selSum.modify 0 fun constant => constant - 1

end Polynomials

section Denotation

variable {curve : CurveType} {z : Scalar curve} {size : ℕ}

/-- A polynomial with its value at `z`, and a bound on its length in units
longer than every column. -/
structure Denotes (z : Scalar curve) (size units : ℕ) (poly : Poly curve)
    (value : Scalar curve) : Prop where
  eval : evalPolyAt poly z = value
  length : poly.length ≤ units * (size + 1)
  positive : 0 < units

/-- Every product below stays within eight units, which a domain holds. -/
def FitsDomain (size : ℕ) : Prop := 8 * (size + 1) ≤ 2 ^ maxLogDomain

namespace Denotes

variable {m n : ℕ} {a b : Poly curve} {x y : Scalar curve}

theorem cast (spec : Denotes z size n a x) (wide : n ≤ m) (equal : x = y) :
    Denotes z size m a y where
  eval := spec.eval.trans equal
  length := spec.length.trans (Nat.mul_le_mul_right _ wide)
  positive := spec.positive.trans_le wide

theorem one : Denotes z size 1 (onePoly curve) 1 where
  eval := by simp [evalPolyAt, onePoly]
  length := by simp [onePoly]
  positive := Nat.one_pos

theorem add (left : Denotes z size m a x) (right : Denotes z size n b y) :
    Denotes z size (max m n) (polyAdd a b) (x + y) where
  eval := by
    simp [evalPolyAt_eq, ← left.eval, ← right.eval]
  length := by
    rw [length_polyAdd]
    exact max_le
      (left.length.trans (Nat.mul_le_mul_right _ (le_max_left m n)))
      (right.length.trans (Nat.mul_le_mul_right _ (le_max_right m n)))
  positive := left.positive.trans_le (le_max_left m n)

theorem sub (left : Denotes z size m a x) (right : Denotes z size n b y) :
    Denotes z size (max m n) (polySub a b) (x - y) where
  eval := by
    simp [evalPolyAt_eq, ← left.eval, ← right.eval]
  length := by
    rw [length_polySub]
    exact max_le
      (left.length.trans (Nat.mul_le_mul_right _ (le_max_left m n)))
      (right.length.trans (Nat.mul_le_mul_right _ (le_max_right m n)))
  positive := left.positive.trans_le (le_max_left m n)

theorem smul (spec : Denotes z size n a x) (scale : Scalar curve) :
    Denotes z size n (polyScalarMul a scale) (x * scale) where
  eval := by
    simp [evalPolyAt_eq, ← spec.eval]
  length := by
    rw [length_polyScalarMul]
    exact spec.length
  positive := spec.positive

theorem mul (left : Denotes z size m a x) (right : Denotes z size n b y)
    (bound : m + n ≤ 8) :
    Returns (FitsDomain size) (polyMul curve a b)
      fun c => Denotes z size (m + n) c (x * y) where
  sound := by
    intro c done
    obtain ⟨lengthLe, polyEq⟩ := polyMul_spec done
    have leftLe := left.length
    have rightLe := right.length
    have leftPos := left.positive
    refine ⟨?_, ?_, by omega⟩
    · rw [evalPolyAt_eq, polyEq, eval_mul, ← evalPolyAt_eq, ← evalPolyAt_eq,
        left.eval, right.eval]
    · have least : 1 ≤ m * (size + 1) := Nat.mul_pos leftPos (Nat.succ_pos _)
      rw [Nat.add_mul]
      omega
  total := by
    intro fits
    have leftLe := left.length
    have rightLe := right.length
    have total := Nat.mul_le_mul_right (size + 1) bound
    unfold FitsDomain at fits
    rw [Nat.add_mul] at total
    exact polyMul_isSome (by omega)

theorem binary (spec : Denotes z size n a x) (bound : n + max n 1 ≤ 8) :
    Returns (FitsDomain size) (polyBinary curve a)
      fun c => Denotes z size (n + max n 1) c (x * (x - 1)) :=
  spec.mul (spec.sub one) bound

/-- A column seen one row later. -/
theorem shift {omega : Scalar curve} (spec : Denotes (omega * z) size n a x) :
    Denotes z size n (polyShift a omega) x where
  eval := (evalPolyAt_polyShift a omega z).trans spec.eval
  length := (length_polyShiftFrom a 1 omega).trans_le spec.length
  positive := spec.positive

theorem mulLinear (spec : Denotes z size n a x) (c : Scalar curve) :
    Denotes z size (n + 1) (polyMulLinear a c) (x * (z - c)) where
  eval := by
    rw [evalPolyAt_eq, (polyMulLinear_spec a c).2, eval_mul, ← evalPolyAt_eq,
      spec.eval, eval_sub, eval_X, eval_C]
  length := by
    have lengthLe := spec.length
    rw [(polyMulLinear_spec a c).1, Nat.add_mul]
    omega
  positive := Nat.succ_pos n

end Denotes

/-- A block's gating polynomial and body, with what they evaluate to. -/
structure PairDenotes (z : Scalar curve) (size : ℕ) (gate body : Scalar curve)
    (pair : Pair curve) : Prop where
  gate : Denotes z size 1 pair.1 gate
  body : Denotes z size 4 pair.2 body

abbrev BlockDenotes (z : Scalar curve) (size : ℕ) (gate body : Scalar curve)
    (block : Option (Pair curve)) : Prop :=
  Returns (FitsDomain size) block (PairDenotes z size gate body)

/-! The accumulation loops, followed value by value. -/

theorem foldl_accumulatePoly (alpha : Scalar curve) {results : List (Poly curve)}
    {values : List (Scalar curve)}
    (agree : List.Forall₂ (fun poly value => evalPolyAt poly z = value)
      results values)
    (state : Poly curve × Scalar curve) :
    (evalPolyAt (results.foldl (accumulatePoly curve alpha) state).1 z,
        (results.foldl (accumulatePoly curve alpha) state).2) =
      values.foldl (accumulate alpha) (evalPolyAt state.1 z, state.2) := by
  induction agree generalizing state with
  | nil => rfl
  | cons head tail ih =>
      rw [List.foldl_cons, List.foldl_cons, ih]
      congr 1
      simp only [accumulatePoly, accumulate, evalPolyAt_eq, toPoly_polyAdd,
        toPoly_polyScalarMul, eval_add, eval_mul, eval_C, ← head]

theorem evalPolyAt_subOneFromConstant (selSum : Poly curve)
    (nonempty : 0 < selSum.length) (z : Scalar curve) :
    evalPolyAt (subOneFromConstant curve selSum) z = evalPolyAt selSum z - 1 := by
  simp only [subOneFromConstant, sub_eq_add_neg]
  rw [evalPolyAt_eq, toPoly_modify_add nonempty, evalPolyAt_eq]
  simp

end Denotation

end MetaVm.Zkp
