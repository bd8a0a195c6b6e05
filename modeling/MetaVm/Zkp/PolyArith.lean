import Mathlib
import MetaVm.Lib.CoeffList
import MetaVm.Zkp.Fft

namespace MetaVm.Zkp

open Polynomial CoeffList Dft

/-! Arithmetic on coefficient vectors, lowest coefficient first. -/

section Generic

variable {F : Type} [CommRing F]

def polyAdd (a b : List F) : List F :=
  (List.range (max a.length b.length)).map fun i => a.getD i 0 + b.getD i 0

def polySub (a b : List F) : List F :=
  (List.range (max a.length b.length)).map fun i => a.getD i 0 - b.getD i 0

def polyScalarMul (a : List F) (s : F) : List F := a.map fun c => c * s

/-- Horner evaluation from the top coefficient. -/
def evalPolyAt (coeffs : List F) (z : F) : F :=
  coeffs.foldr (fun c result => result * z + c) 0

/-- The length of the product of two empty lists underflows in the code; here it is zero. -/
def naiveMul (a b : List F) : List F :=
  (List.range a.length).foldl (fun result i =>
    (List.range b.length).foldl (fun result j =>
      result.modify (i + j) fun entry => entry + a.getD i 0 * b.getD j 0)
      result)
    (List.replicate (a.length + b.length - 1) 0)

def karatsubaCutoff : ℕ := 32

/-- The loop `z1 -= z` from entry `i` on, growing `z1` past its end. -/
def subAssignFrom (i : ℕ) (z1 : List F) : List F → List F
  | [] => z1
  | c :: rest =>
      subAssignFrom (i + 1)
        (if i < z1.length then z1.modify i fun entry => entry - c
          else z1 ++ [0 - c]) rest

def subAssign (z1 z : List F) : List F := subAssignFrom 0 z1 z

/-- The loop adding `z` from position `idx` on, up to the end of `result`. -/
def addShifted (result : List F) (idx : ℕ) : List F → List F
  | [] => result
  | c :: rest =>
      addShifted
        (if idx < result.length then result.modify idx fun entry => entry + c
          else result) (idx + 1) rest

/-- `lo + hi`, without padding when there is no high half. -/
def halfSum (lo hi : List F) : List F :=
  if hi.isEmpty then lo else polyAdd lo hi

theorem length_halfSum_le (a : List F) (k : ℕ) :
    (halfSum (a.take k) (a.drop k)).length ≤ max k (a.length - k) := by
  unfold halfSum
  split
  · simp
  · simp only [polyAdd, List.length_map, List.length_range, List.length_take,
      List.length_drop]
    omega

theorem half_lt_of_large {m n : ℕ}
    (large : ¬(max m n < karatsubaCutoff ∨ m = 1 ∨ n = 1)) :
    (max m n + 1) / 2 < max m n := by
  unfold karatsubaCutoff at large
  omega

def karatsubaMul (a b : List F) : List F :=
  if _large : max a.length b.length < karatsubaCutoff ∨
      a.length = 1 ∨ b.length = 1 then
    naiveMul a b
  else
    let k := (max a.length b.length + 1) / 2
    let aLo := a.take k
    let aHi := a.drop k
    let bLo := b.take k
    let bHi := b.drop k
    let z0 := karatsubaMul aLo bLo
    let z2 := if aHi.isEmpty ∨ bHi.isEmpty then [] else karatsubaMul aHi bHi
    let z1 := karatsubaMul (halfSum aLo aHi) (halfSum bLo bHi)
    let z1 := subAssign z1 z0
    let z1 := subAssign z1 z2
    let result := List.replicate (a.length + b.length - 1) 0
    let result := addShifted result 0 z0
    let result := addShifted result k z1
    addShifted result (2 * k) z2
termination_by max a.length b.length
decreasing_by
  · have smaller := half_lt_of_large _large
    simp only [List.length_take]
    omega
  · have smaller := half_lt_of_large _large
    simp only [List.length_drop]
    omega
  · have smaller := half_lt_of_large _large
    have aSumLe := length_halfSum_le a ((max a.length b.length + 1) / 2)
    have bSumLe := length_halfSum_le b ((max a.length b.length + 1) / 2)
    omega

end Generic

def nttThreshold : ℕ := 64

/-- The number of bits of the smallest power of two holding `len` entries. -/
def nextPowerOfTwoLog (len : ℕ) : ℕ := Nat.clog 2 len

def nttMulBls12381 (a b : List Fr) : Option (List Fr) := do
  let resultLen := a.length + b.length - 1
  let logN := nextPowerOfTwoLog resultLen
  let aFr ← fftInPlace logN (fun i => a.getD i 0) false
  let bFr ← fftInPlace logN (fun i => b.getD i 0) false
  let product ← fftInPlace logN (fun i => aFr i * bFr i) true
  return (List.range resultLen).map product

/-- Both curves below the transform threshold, and BLS48-581 above it. -/
def polyMulCoefficient {F : Type} [CommRing F] (a b : List F) : List F :=
  if a.isEmpty ∨ b.isEmpty then [0]
  else if karatsubaCutoff ≤ max a.length b.length then karatsubaMul a b
  else naiveMul a b

def polyMulBls12381 (a b : List Fr) : Option (List Fr) :=
  if a.isEmpty ∨ b.isEmpty then some [0]
  else if nttThreshold ≤ max a.length b.length then nttMulBls12381 a b
  else some (polyMulCoefficient a b)

/-- Fails where the transform of the BLS12-381 path asserts. -/
def polyMul : (curve : CurveType) → (a b : List (Scalar curve)) →
    Option (List (Scalar curve))
  | .bls12381, a, b => polyMulBls12381 a b
  | .bls48581 _, a, b => some (polyMulCoefficient a b)

section Denotation

variable {F : Type} [CommRing F]

theorem evalPolyAt_eq (coeffs : List F) (z : F) :
    evalPolyAt coeffs z = (toPoly coeffs).eval z := by
  induction coeffs with
  | nil => simp [evalPolyAt]
  | cons c rest ih =>
      rw [evalPolyAt, List.foldr_cons, ← evalPolyAt, ih, toPoly_cons]
      simp
      ring

@[simp] theorem toPoly_polyAdd (a b : List F) :
    toPoly (polyAdd a b) = toPoly a + toPoly b :=
  toPoly_zipPadded (fun left right => left + right) (add_zero 0) a b
    fun index => by rw [coeff_add, coeff_toPoly, coeff_toPoly]

@[simp] theorem toPoly_polySub (a b : List F) :
    toPoly (polySub a b) = toPoly a - toPoly b :=
  toPoly_zipPadded (fun left right => left - right) (sub_zero 0) a b
    fun index => by rw [coeff_sub, coeff_toPoly, coeff_toPoly]

@[simp] theorem toPoly_polyScalarMul (a : List F) (s : F) :
    toPoly (polyScalarMul a s) = toPoly a * C s :=
  toPoly_map_mul a s

@[simp] theorem length_polyAdd (a b : List F) :
    (polyAdd a b).length = max a.length b.length := by
  simp [polyAdd]

@[simp] theorem length_polySub (a b : List F) :
    (polySub a b).length = max a.length b.length := by
  simp [polySub]

@[simp] theorem length_polyScalarMul (a : List F) (s : F) :
    (polyScalarMul a s).length = a.length := by
  simp [polyScalarMul]

/-! The convolution loops. Each is followed through its fold with the length
of the buffer and the polynomial accumulated so far. -/

theorem naiveRow_spec (a b result : List F) (i : ℕ) (count : ℕ)
    (room : i + count ≤ result.length) :
    ((List.range count).foldl (fun result j => result.modify (i + j)
        fun entry => entry + a.getD i 0 * b.getD j 0) result).length =
        result.length ∧
      toPoly ((List.range count).foldl (fun result j => result.modify (i + j)
        fun entry => entry + a.getD i 0 * b.getD j 0) result) =
        toPoly result + C (a.getD i 0) * X ^ i *
          ∑ j ∈ Finset.range count, C (b.getD j 0) * X ^ j := by
  induction count with
  | zero => simp
  | succ count ih =>
      obtain ⟨lengthEq, polyEq⟩ := ih (by omega)
      rw [List.range_succ, List.foldl_append]
      simp only [List.foldl_cons, List.foldl_nil]
      refine ⟨by rw [List.length_modify, lengthEq], ?_⟩
      rw [toPoly_modify_add (by omega), polyEq, Finset.sum_range_succ, C_mul]
      ring

theorem toPoly_eq_sum (list : List F) :
    toPoly list =
      ∑ i ∈ Finset.range list.length, C (list.getD i 0) * X ^ i := by
  ext index
  rw [coeff_toPoly, finsetSum_coeff]
  simp only [coeff_C_mul, coeff_X_pow, mul_ite, mul_one, mul_zero]
  rw [Finset.sum_ite_eq]
  split
  · rfl
  · next outside =>
      exact getD_eq_zero_of_length_le (by simpa using outside)

theorem naiveMul_spec (a b : List F) :
    (naiveMul a b).length = a.length + b.length - 1 ∧
      toPoly (naiveMul a b) = toPoly a * toPoly b := by
  have rows : ∀ count ≤ a.length,
      ((List.range count).foldl (fun result i =>
        (List.range b.length).foldl (fun result j => result.modify (i + j)
          fun entry => entry + a.getD i 0 * b.getD j 0) result)
        (List.replicate (a.length + b.length - 1) (0 : F))).length =
          a.length + b.length - 1 ∧
      toPoly ((List.range count).foldl (fun result i =>
        (List.range b.length).foldl (fun result j => result.modify (i + j)
          fun entry => entry + a.getD i 0 * b.getD j 0) result)
        (List.replicate (a.length + b.length - 1) (0 : F))) =
        (∑ i ∈ Finset.range count, C (a.getD i 0) * X ^ i) * toPoly b := by
    intro count
    induction count with
    | zero => simp [toPoly_replicate_zero]
    | succ count ih =>
        intro inside
        obtain ⟨lengthEq, polyEq⟩ := ih (by omega)
        rw [List.range_succ, List.foldl_append]
        simp only [List.foldl_cons, List.foldl_nil]
        obtain ⟨rowLength, rowPoly⟩ :=
          naiveRow_spec a b _ count b.length (by rw [lengthEq]; omega)
        rw [← toPoly_eq_sum] at rowPoly
        refine ⟨rowLength.trans lengthEq, ?_⟩
        rw [rowPoly, polyEq, Finset.sum_range_succ]
        ring
  obtain ⟨lengthEq, polyEq⟩ := rows a.length le_rfl
  rw [← toPoly_eq_sum] at polyEq
  exact ⟨lengthEq, polyEq⟩

theorem toPoly_subAssignFrom (z z1 : List F) (i : ℕ)
    (reached : i ≤ z1.length) :
    toPoly (subAssignFrom i z1 z) = toPoly z1 - X ^ i * toPoly z := by
  induction z generalizing z1 i with
  | nil => simp [subAssignFrom]
  | cons c rest ih =>
      rw [subAssignFrom]
      split
      · next inside =>
          simp only [sub_eq_add_neg _ c]
          rw [ih _ _ (by rw [List.length_modify]; omega),
            toPoly_modify_add inside, toPoly_cons, C_neg]
          ring
      · next outside =>
          have atEnd : i = z1.length := by omega
          rw [ih _ _ (by simp [atEnd]), toPoly_append, toPoly_singleton,
            toPoly_cons, ← atEnd, C_sub, C_0]
          ring

theorem toPoly_subAssign (z1 z : List F) :
    toPoly (subAssign z1 z) = toPoly z1 - toPoly z := by
  rw [subAssign, toPoly_subAssignFrom z z1 0 (Nat.zero_le _), pow_zero, one_mul]

@[simp] theorem length_addShifted (z result : List F) (idx : ℕ) :
    (addShifted result idx z).length = result.length := by
  induction z generalizing result idx with
  | nil => rfl
  | cons c rest ih =>
      rw [addShifted, ih]
      split <;> simp

theorem getD_addShifted (z result : List F) (idx : ℕ) {index : ℕ}
    (inside : index < result.length) :
    (addShifted result idx z).getD index 0 =
      (toPoly result + X ^ idx * toPoly z).coeff index := by
  induction z generalizing result idx with
  | nil => simp [addShifted, coeff_toPoly]
  | cons c rest ih =>
      rw [addShifted, toPoly_cons, show X ^ idx * (C c + X * toPoly rest) =
        C c * X ^ idx + X ^ (idx + 1) * toPoly rest by ring]
      split
      · next room =>
          rw [ih _ _ (by simpa using inside), toPoly_modify_add room, add_assoc]
      · next full =>
          rw [ih _ _ inside, coeff_add, coeff_add, coeff_add, coeff_C_mul_X_pow,
            if_neg (by omega), zero_add]

theorem toPoly_halfSum (lo hi : List F) :
    toPoly (halfSum lo hi) = toPoly lo + toPoly hi := by
  unfold halfSum
  split
  · next empty => simp [List.isEmpty_iff.1 empty]
  · exact toPoly_polyAdd lo hi

theorem karatsubaMul_spec (a b : List F) :
    (karatsubaMul a b).length = a.length + b.length - 1 ∧
      toPoly (karatsubaMul a b) = toPoly a * toPoly b := by
  induction size : max a.length b.length using Nat.strong_induction_on
    generalizing a b with
  | _ size ih =>
      subst size
      rw [karatsubaMul]
      split
      · exact naiveMul_spec a b
      · next large =>
          have smaller := half_lt_of_large large
          have aSumLe := length_halfSum_le a ((max a.length b.length + 1) / 2)
          have bSumLe := length_halfSum_le b ((max a.length b.length + 1) / 2)
          generalize half : (max a.length b.length + 1) / 2 = k at *
          have z0 := (ih _ (by simp only [List.length_take]; omega)
            (a.take k) (b.take k) rfl).2
          have z1 := (ih _ (by omega) (halfSum (a.take k) (a.drop k))
            (halfSum (b.take k) (b.drop k)) rfl).2
          have z2 : toPoly (if (a.drop k).isEmpty ∨ (b.drop k).isEmpty then []
              else karatsubaMul (a.drop k) (b.drop k)) =
              toPoly (a.drop k) * toPoly (b.drop k) := by
            split
            · next empty =>
                rcases empty with empty | empty <;>
                  simp [List.isEmpty_iff.1 empty]
            · exact (ih _ (by simp only [List.length_drop]; omega)
                (a.drop k) (b.drop k) rfl).2
          refine ⟨by simp, toPoly_eq_of_coeff
            (by simpa using degree_mul_lt a b) fun index inside => ?_⟩
          simp only [length_addShifted, List.length_replicate] at inside
          rw [getD_addShifted _ _ _ (by simpa using inside), coeff_add,
            coeff_toPoly, getD_addShifted _ _ _ (by simpa using inside),
            coeff_add, coeff_toPoly, getD_addShifted _ _ _ (by simpa using inside),
            ← coeff_add, ← coeff_add, toPoly_replicate_zero, z2,
            toPoly_subAssign, toPoly_subAssign, z0, z1, z2, toPoly_halfSum,
            toPoly_halfSum, ← toPoly_take_drop a k, ← toPoly_take_drop b k]
          congr 1
          ring

end Denotation

/-! The transform path: evaluate at the roots of unity, multiply, and
interpolate a product whose degree the domain holds. -/

theorem degree_toPoly_lt_domain {a : List Fr} {len : ℕ} (fits : a.length ≤ len) :
    (toPoly a).degree < ((2 ^ nextPowerOfTwoLog len : ℕ) : WithBot ℕ) :=
  (degree_toPoly_lt a).trans_le
    (WithBot.coe_le_coe.2 (fits.trans (Nat.le_pow_clog (by omega) len)))

theorem nttMulBls12381_spec {a b c : List Fr}
    (large : 2 ≤ a.length + b.length - 1)
    (aNonempty : 0 < a.length) (bNonempty : 0 < b.length)
    (done : nttMulBls12381 a b = some c) :
    c.length = a.length + b.length - 1 ∧ toPoly c = toPoly a * toPoly b := by
  unfold nttMulBls12381 at done
  simp only [Option.bind_eq_bind, Option.bind_eq_some_iff, Option.pure_def,
    Option.some.injEq] at done
  obtain ⟨aFr, aDone, bFr, bDone, product, productDone, rfl⟩ := done
  have positive : 0 < nextPowerOfTwoLog (a.length + b.length - 1) :=
    Nat.clog_pos (by omega) large
  have productBound : (toPoly a * toPoly b).degree <
      ((2 ^ nextPowerOfTwoLog (a.length + b.length - 1) : ℕ) : WithBot ℕ) :=
    (degree_mul_lt a b).trans_le
      (WithBot.coe_le_coe.2 (Nat.le_pow_clog (by omega) _))
  have aFits : a.length ≤ a.length + b.length - 1 := by omega
  have bFits : b.length ≤ a.length + b.length - 1 := by omega
  have aBound := degree_toPoly_lt_domain aFits
  have bBound := degree_toPoly_lt_domain bFits
  have holds : a.length + b.length - 1 ≤
      2 ^ nextPowerOfTwoLog (a.length + b.length - 1) :=
    Nat.le_pow_clog (by omega) _
  obtain ⟨width, widthEq⟩ := Nat.exists_eq_succ_of_ne_zero positive.ne'
  rw [widthEq] at aDone bDone productDone productBound aBound bBound holds
  obtain ⟨omega, found⟩ : ∃ omega, rootOfUnity (width + 1) = some omega :=
    (fftInPlace_forward aDone (Nat.two_pow_pos (width + 1))).imp
      fun _ => And.left
  have primitive := rootOfUnity_primitive found
  have forward : ∀ {list : List Fr} {values : ℕ → Fr},
      (toPoly list).degree < ((2 ^ (width + 1) : ℕ) : WithBot ℕ) →
      fftInPlace (width + 1) (fun i => list.getD i 0) false = some values →
      ∀ index < 2 ^ (width + 1),
        values index = (toPoly list).eval (omega ^ index) := by
    intro list values bound done index indexLt
    obtain ⟨omega', found', valueEq⟩ := fftInPlace_forward done indexLt
    cases found.symm.trans found'
    rw [valueEq, ← eval_pow_eq_dft bound]
    exact dft_congr fun position _ => (coeff_toPoly list position).symm
  have aValues := forward aBound aDone
  have bValues := forward bBound bDone
  refine ⟨by simp, toPoly_eq_of_coeff (by simpa using degree_mul_lt a b)
    fun index inside => ?_⟩
  simp only [List.length_map, List.length_range] at inside
  rw [getD_map_range, if_pos inside]
  have indexLt : index < 2 ^ (width + 1) := by omega
  obtain ⟨omega', found', valueEq⟩ := fftInPlace_inverse productDone indexLt
  cases found.symm.trans found'
  have sizeNe := domainSize_ne_zero (width + 1)
  rw [valueEq, ← dft_inv_eval primitive sizeNe productBound indexLt]
  congr 1
  refine dft_congr fun position positionLt => ?_
  rw [aValues position positionLt, bValues position positionLt, eval_mul]

theorem nttMulBls12381_isSome {a b : List Fr}
    (fits : a.length + b.length - 1 ≤ 2 ^ maxLogDomain) :
    (nttMulBls12381 a b).isSome := by
  have small : nextPowerOfTwoLog (a.length + b.length - 1) ≤ maxLogDomain :=
    Nat.clog_le_of_le_pow fits
  have returns : ∀ (vals : ℕ → Fr) (inverse : Bool), ∃ result,
      fftInPlace (nextPowerOfTwoLog (a.length + b.length - 1)) vals inverse =
        some result := fun vals inverse =>
    Option.isSome_iff_exists.1 ((fftInPlace_isSome_iff vals inverse).2 small)
  obtain ⟨aFr, aDone⟩ := returns (fun i => a.getD i 0) false
  obtain ⟨bFr, bDone⟩ := returns (fun i => b.getD i 0) false
  obtain ⟨product, productDone⟩ := returns (fun i => aFr i * bFr i) true
  simp only [nttMulBls12381, aDone, bDone, productDone, Option.bind_eq_bind,
    Option.bind_some, Option.pure_def, Option.isSome_some]

theorem polyMulCoefficient_spec {F : Type} [CommRing F] (a b : List F) :
    (polyMulCoefficient a b).length ≤ max 1 (a.length + b.length - 1) ∧
      toPoly (polyMulCoefficient a b) = toPoly a * toPoly b := by
  unfold polyMulCoefficient
  split
  · next empty =>
      refine ⟨by simp, ?_⟩
      rcases empty with empty | empty <;>
        simp [List.isEmpty_iff.1 empty, toPoly_singleton]
  · split
    · exact (karatsubaMul_spec a b).imp_left fun lengthEq => by omega
    · exact (naiveMul_spec a b).imp_left fun lengthEq => by omega

theorem polyMulBls12381_spec {a b c : List Fr}
    (done : polyMulBls12381 a b = some c) :
    c.length ≤ max 1 (a.length + b.length - 1) ∧
      toPoly c = toPoly a * toPoly b := by
  unfold polyMulBls12381 at done
  split at done
  · next empty =>
      cases done
      have spec := polyMulCoefficient_spec a b
      rwa [polyMulCoefficient, if_pos empty] at spec
  · next nonempty =>
      simp only [List.isEmpty_iff, not_or, ← List.length_pos_iff] at nonempty
      split at done
      · next large =>
          unfold nttThreshold at large
          exact (nttMulBls12381_spec (by omega) nonempty.1 nonempty.2
            done).imp_left fun lengthEq => by omega
      · cases done
        exact polyMulCoefficient_spec a b

/-- Whatever path is taken, a returned product is the product. -/
theorem polyMul_spec {curve : CurveType} {a b c : List (Scalar curve)}
    (done : polyMul curve a b = some c) :
    c.length ≤ max 1 (a.length + b.length - 1) ∧
      toPoly c = toPoly a * toPoly b := by
  cases curve with
  | bls12381 => exact polyMulBls12381_spec done
  | bls48581 curveOrder =>
      cases done
      exact polyMulCoefficient_spec a b

theorem polyMul_isSome {curve : CurveType} {a b : List (Scalar curve)}
    (fits : a.length + b.length - 1 ≤ 2 ^ maxLogDomain) :
    (polyMul curve a b).isSome := by
  cases curve with
  | bls12381 =>
      change (polyMulBls12381 a b).isSome
      unfold polyMulBls12381
      split
      · rfl
      · split
        · exact nttMulBls12381_isSome fits
        · rfl
  | bls48581 curveOrder => rfl

end MetaVm.Zkp

namespace MetaVm.Zkp

open Polynomial CoeffList

/-! The fast multiplications return the vector of the plain one. -/

section Generic

variable {F : Type} [CommRing F]

/-- A list is its length and its polynomial. -/
theorem eq_of_toPoly {left right : List F} (sameLength : left.length = right.length)
    (same : toPoly left = toPoly right) : left = right := by
  apply List.ext_getElem sameLength
  intro index inLeft inRight
  have coefficient := congrArg (fun p => p.coeff index) same
  rw [coeff_toPoly, coeff_toPoly, List.getD_eq_getElem _ _ inLeft,
    List.getD_eq_getElem _ _ inRight] at coefficient
  exact coefficient

theorem karatsubaMul_eq_naiveMul (a b : List F) : karatsubaMul a b = naiveMul a b := by
  obtain ⟨fastLength, fast⟩ := karatsubaMul_spec a b
  obtain ⟨plainLength, plain⟩ := naiveMul_spec a b
  exact eq_of_toPoly (fastLength.trans plainLength.symm) (fast.trans plain.symm)

theorem polyMulCoefficient_eq_naiveMul {a b : List F} (aNonempty : a ≠ []) (bNonempty : b ≠ []) :
    polyMulCoefficient a b = naiveMul a b := by
  have nonempty : ¬ (a.isEmpty = true ∨ b.isEmpty = true) := by
    rw [List.isEmpty_iff, List.isEmpty_iff]
    exact not_or.2 ⟨aNonempty, bNonempty⟩
  rw [polyMulCoefficient, if_neg nonempty]
  split
  · exact karatsubaMul_eq_naiveMul a b
  · rfl

end Generic

theorem nttMulBls12381_eq_naiveMul {a b : List Fr} (aNonempty : a ≠ []) (bNonempty : b ≠ [])
    (fits : a.length + b.length - 1 ≤ 2 ^ maxLogDomain) :
    nttMulBls12381 a b = some (naiveMul a b) := by
  have aLength := List.length_pos_iff.2 aNonempty
  have bLength := List.length_pos_iff.2 bNonempty
  by_cases large : 2 ≤ a.length + b.length - 1
  · obtain ⟨c, done⟩ := Option.isSome_iff_exists.1 (nttMulBls12381_isSome fits)
    obtain ⟨fastLength, fast⟩ := nttMulBls12381_spec large aLength bLength done
    obtain ⟨plainLength, plain⟩ := naiveMul_spec a b
    rw [done, eq_of_toPoly (fastLength.trans plainLength.symm) (fast.trans plain.symm)]
  · -- A domain of one point: the transforms return at once.
    obtain ⟨left, rfl⟩ := List.length_eq_one_iff.1 (show a.length = 1 by omega)
    obtain ⟨right, rfl⟩ := List.length_eq_one_iff.1 (show b.length = 1 by omega)
    simp [nttMulBls12381, nextPowerOfTwoLog, fftInPlace, naiveMul]

theorem polyMulBls12381_eq_naiveMul {a b : List Fr} (aNonempty : a ≠ []) (bNonempty : b ≠ [])
    (fits : a.length + b.length - 1 ≤ 2 ^ maxLogDomain) :
    polyMulBls12381 a b = some (naiveMul a b) := by
  have nonempty : ¬ (a.isEmpty = true ∨ b.isEmpty = true) := by
    rw [List.isEmpty_iff, List.isEmpty_iff]
    exact not_or.2 ⟨aNonempty, bNonempty⟩
  unfold polyMulBls12381
  rw [if_neg nonempty]
  split
  · exact nttMulBls12381_eq_naiveMul aNonempty bNonempty fits
  · rw [polyMulCoefficient_eq_naiveMul aNonempty bNonempty]

theorem polyMul_of_empty (curve : CurveType) {a b : List (Scalar curve)} (empty : a = [] ∨ b = []) :
    polyMul curve a b = some [0] := by
  have isEmpty : a.isEmpty = true ∨ b.isEmpty = true := by
    rw [List.isEmpty_iff, List.isEmpty_iff]
    exact empty
  cases curve with
  | bls48581 curveOrder =>
      change some (polyMulCoefficient a b) = some [0]
      rw [polyMulCoefficient, if_pos isEmpty]
  | bls12381 => exact if_pos isEmpty

/-- On vectors that are not empty every multiplication returns the plain product, up to the
largest transform; a product with an empty vector is a single zero. -/
theorem polyMul_agrees (curve : CurveType) (a b : List (Scalar curve)) (c d : List Fr) :
    (a ≠ [] ∨ b ≠ [] → karatsubaMul a b = naiveMul a b) ∧
      (a ≠ [] → b ≠ [] →
        (curve = .bls12381 → a.length + b.length - 1 ≤ 2 ^ maxLogDomain) →
          polyMul curve a b = some (naiveMul a b)) ∧
      (a = [] ∨ b = [] → polyMul curve a b = some [0]) ∧
      (c ≠ [] → d ≠ [] → c.length + d.length - 1 ≤ 2 ^ maxLogDomain →
        nttMulBls12381 c d = some (naiveMul c d)) := by
  refine ⟨fun _ => karatsubaMul_eq_naiveMul a b, ?_, polyMul_of_empty curve,
    nttMulBls12381_eq_naiveMul⟩
  intro aNonempty bNonempty fits
  cases curve with
  | bls48581 curveOrder =>
      exact congrArg some (polyMulCoefficient_eq_naiveMul aNonempty bNonempty)
  | bls12381 => exact polyMulBls12381_eq_naiveMul aNonempty bNonempty (fits rfl)

/-- A product with an empty vector is shorter than the plain one. -/
theorem polyMul_empty_differs :
    ¬ ∀ (curve : CurveType) (a b : List (Scalar curve)),
      polyMul curve a b = some (naiveMul a b) := by
  intro agree
  have product : polyMul .bls12381 [] [1, 1, 1] = some [0] :=
    polyMul_of_empty .bls12381 (.inl rfl)
  have same := Option.some.inj (product.symm.trans (agree .bls12381 [] [1, 1, 1]))
  have plainLength := (naiveMul_spec [] [(1 : Scalar .bls12381), 1, 1]).1
  rw [← same] at plainLength
  exact absurd plainLength (by decide)

end MetaVm.Zkp
