import Mathlib
import MetaVm.Zkp.ConstraintPoly

namespace MetaVm.Zkp

open CoeffList Polynomial

/-! The quotient of a constraint polynomial by `X ^ n - 1`, cut into chunks that the verifier
puts together again. -/

section Division

variable {F : Type} [CommRing F]

/-- One step of the division from the top, on the dividend and the quotient. -/
def divideStep (n : ℕ) (state : List F × List F) (i : ℕ) : List F × List F :=
  let top := state.1.getD (n + i) 0
  (state.1.modify i fun entry => entry + top, state.2.set i top)

/-- The steps for the quotient coefficients below `count`, the highest first. -/
def divideLoop (n count : ℕ) (state : List F × List F) : List F × List F :=
  (List.range count).reverse.foldl (divideStep n) state

def quotientCoeffs (n : ℕ) (cCoeffs : List F) : List F :=
  let cDeg := cCoeffs.length - 1
  if n ≤ cDeg then
    let qDeg := cDeg - n
    (divideLoop n (qDeg + 1) (cCoeffs, List.replicate (qDeg + 1) 0)).2
  else
    let div := cCoeffs ++ List.replicate (2 * n - cCoeffs.length) 0
    (divideLoop n n (div, List.replicate n 0)).2

theorem toPoly_set {list : List F} {position : ℕ} (inside : position < list.length)
    (empty : list.getD position 0 = 0) (entry : F) :
    toPoly (list.set position entry) = toPoly list + C entry * X ^ position := by
  ext index
  rw [coeff_toPoly, coeff_add, coeff_C_mul, coeff_X_pow, coeff_toPoly, List.getD_eq_getElem?_getD,
    List.getElem?_set]
  by_cases same : position = index
  · subst same
    rw [if_pos rfl, if_pos inside, if_pos rfl, empty, Option.getD_some, zero_add, mul_one]
  · rw [if_neg same, if_neg (Ne.symm same), mul_zero, add_zero, List.getD_eq_getElem?_getD]

/-- What the steps that are left start from. -/
structure Dividing (n count : ℕ) (state : List F × List F) : Prop where
  long : count ≤ state.2.length
  covers : count ≤ state.1.length
  unset : ∀ j < count, state.2.getD j 0 = 0
  settled : ∀ j, count ≤ j → state.1.getD (n + j) 0 = state.2.getD j 0

variable {n count : ℕ} {state : List F × List F}

theorem Dividing.step (positive : 0 < n) (dividing : Dividing n (count + 1) state) :
    Dividing n count (divideStep n state count) ∧
      toPoly (divideStep n state count).1 - toPoly (divideStep n state count).2 =
        toPoly state.1 - toPoly state.2 := by
  have inside : count < state.2.length := dividing.long
  have inDiv : count < state.1.length := dividing.covers
  have moved (j : ℕ) (below : count ≤ j) :
      (divideStep n state count).1.getD (n + j) 0 = state.1.getD (n + j) 0 := by
    have untouched : (divideStep n state count).1[n + j]? = state.1[n + j]? :=
      List.getElem?_modify_ne _ _ (by omega)
    rw [List.getD_eq_getElem?_getD, untouched, ← List.getD_eq_getElem?_getD]
  refine ⟨⟨?_, ?_, ?_, ?_⟩, ?_⟩
  · rw [divideStep, List.length_set]
    exact inside.le
  · rw [divideStep, List.length_modify]
    exact inDiv.le
  · intro j below
    rw [divideStep, List.getD_eq_getElem?_getD, List.getElem?_set_ne (by omega),
      ← List.getD_eq_getElem?_getD]
    exact dividing.unset j (by omega)
  · intro j below
    rw [moved j below]
    rcases Nat.eq_or_lt_of_le below with rfl | above
    · have written : (divideStep n state count).2[count]? = some (state.1.getD (n + count) 0) :=
        List.getElem?_set_self inside
      rw [@List.getD_eq_getElem?_getD _ (divideStep n state count).2, written, Option.getD_some]
    · have kept : (divideStep n state count).2[j]? = state.2[j]? :=
        List.getElem?_set_ne (by omega)
      rw [@List.getD_eq_getElem?_getD _ (divideStep n state count).2, kept,
        ← List.getD_eq_getElem?_getD]
      exact dividing.settled j above
  · have empty := dividing.unset count count.lt_succ_self
    rw [divideStep, toPoly_modify_add inDiv, toPoly_set inside empty]
    ring

theorem divideLoop_succ (n count : ℕ) (state : List F × List F) :
    divideLoop n (count + 1) state = divideLoop n count (divideStep n state count) := by
  rw [divideLoop, List.range_succ, List.reverse_append]
  rfl

theorem Dividing.loop (positive : 0 < n) (dividing : Dividing n count state) :
    Dividing n 0 (divideLoop n count state) ∧
      toPoly (divideLoop n count state).1 - toPoly (divideLoop n count state).2 =
        toPoly state.1 - toPoly state.2 := by
  induction count generalizing state with
  | zero => exact ⟨dividing, rfl⟩
  | succ count hypothesis =>
      obtain ⟨next, kept⟩ := dividing.step positive
      obtain ⟨last, same⟩ := hypothesis next
      rw [divideLoop_succ]
      exact ⟨last, same.trans kept⟩

/-- A fresh quotient over a dividend of so many more coefficients. -/
theorem Dividing.start {div : List F} (fits : div.length ≤ n + count) (covers : count ≤ div.length) :
    Dividing n count (div, List.replicate count 0) where
  long := by rw [List.length_replicate]
  covers := covers
  unset j _ := by
    rw [List.getD_eq_getElem?_getD, List.getElem?_replicate]
    split <;> rfl
  settled j beyond := by
    have outside : div.length ≤ n + j := by omega
    rw [getD_eq_zero_of_length_le outside,
      getD_eq_zero_of_length_le (by rwa [List.length_replicate])]

/-- The dividend is the quotient times `X ^ n - 1` and a remainder of degree below `n`. -/
theorem quotientCoeffs_spec (positive : 0 < n) (cCoeffs : List F) :
    ∃ remainder : F[X], remainder.degree < n ∧
      toPoly cCoeffs = toPoly (quotientCoeffs n cCoeffs) * (X ^ n - 1) + remainder := by
  obtain ⟨div, count, fits, covers, padded, computed⟩ : ∃ (div : List F) (count : ℕ),
      div.length ≤ n + count ∧ count ≤ div.length ∧ toPoly div = toPoly cCoeffs ∧
        quotientCoeffs n cCoeffs = (divideLoop n count (div, List.replicate count 0)).2 := by
    by_cases proper : n ≤ cCoeffs.length - 1
    · refine ⟨cCoeffs, cCoeffs.length - 1 - n + 1, by omega, by omega, rfl, ?_⟩
      rw [quotientCoeffs, if_pos proper]
    · refine ⟨cCoeffs ++ List.replicate (2 * n - cCoeffs.length) 0, n, ?_, ?_, ?_, ?_⟩
      · rw [List.length_append, List.length_replicate]
        omega
      · rw [List.length_append, List.length_replicate]
        omega
      · rw [toPoly_append, toPoly_replicate_zero, mul_zero, add_zero]
      · rw [quotientCoeffs, if_neg proper]
  obtain ⟨settled, same⟩ := (Dividing.start fits covers).loop positive
  rw [computed]
  generalize divideLoop n count (div, List.replicate count 0) = state at settled same
  rw [toPoly_replicate_zero, sub_zero, padded] at same
  refine ⟨toPoly state.1 - X ^ n * toPoly state.2, ?_, ?_⟩
  · rw [degree_lt_iff_coeff_zero]
    intro index above
    obtain ⟨j, rfl⟩ := Nat.exists_eq_add_of_le above
    rw [coeff_sub, coeff_toPoly, add_comm n j, coeff_X_pow_mul, coeff_toPoly, add_comm j n,
      settled.settled j (Nat.zero_le j), sub_self]
  · rw [← same]
    ring

end Division

/-! Chunks of as many coefficients as the domain has points. -/

section Chunks

variable {F : Type} [CommRing F]

def rawNumQChunks (n quotientLen : ℕ) : ℕ :=
  if n < quotientLen then (quotientLen - 1) / n + 1 else 1

/-- A chunk, padded to the domain. -/
def quotientChunk (n : ℕ) (quotient : List F) (chunkIdx : ℕ) : List F :=
  let start := chunkIdx * n
  let stop := min (start + n) quotient.length
  let chunk := (quotient.drop start).take (stop - start)
  chunk ++ List.replicate (n - chunk.length) 0

def splitQuotient (n : ℕ) (quotient : List F) (numQChunks : ℕ) : List (List F) :=
  (List.range numQChunks).map (quotientChunk n quotient)

/-- The chunks of `prove_inner`, two at most. -/
def innerChunks (n : ℕ) (cCoeffs : List F) : List (List F) :=
  let quotient := quotientCoeffs n cCoeffs
  splitQuotient n quotient (min (rawNumQChunks n quotient.length) 2)

/-- The chunks of `prove_phase2_from_main_commit`, their number cut to a byte. -/
def phase2Chunks (n : ℕ) (cCoeffs : List F) : List (List F) :=
  let quotient := quotientCoeffs n cCoeffs
  splitQuotient n quotient (rawNumQChunks n quotient.length % 256)

/-- The verifier's value of the quotient from the values of the chunks. -/
def recomposeQuotient (zN : F) (chunkEvals : List F) : F :=
  (chunkEvals.foldl (fun (state : F × F) qI => (state.1 + state.2 * qI, state.2 * zN))
    (0, 1)).1

def quotientIdentity (n : ℕ) (z cAtZ : F) (chunkEvals : List F) : Prop :=
  let zN := powerLoop 1 z n
  recomposeQuotient zN chunkEvals * (zN - 1) - cAtZ = 0

/-- The verifier's identity holds at every point, and no coefficient of the quotient is left
out of the chunks. -/
structure SplitsLosslessly (n : ℕ) (cCoeffs : List F) (chunks : List (List F)) : Prop where
  recomposes : ∀ z, quotientIdentity n z (evalPolyAt cCoeffs z) (chunks.map (evalPolyAt · z))
  complete : ∀ i, chunks.length * n ≤ i → (quotientCoeffs n cCoeffs).getD i 0 = 0

theorem recomposeQuotient_eq (zN : F) (chunkEvals : List F) :
    recomposeQuotient zN chunkEvals = evalPolyAt chunkEvals zN := by
  have folded := foldl_accumulate zN chunkEvals (0, 1)
  unfold accumulate at folded
  simp only [mul_comm _ (Prod.snd _)] at folded
  rw [recomposeQuotient, folded, zero_add, one_mul]

theorem toPoly_quotientChunk (n : ℕ) (quotient : List F) (chunkIdx : ℕ) :
    toPoly (quotientChunk n quotient chunkIdx) =
      toPoly ((quotient.drop (chunkIdx * n)).take n) := by
  have stop : min (chunkIdx * n + n) quotient.length - chunkIdx * n =
      min n (quotient.drop (chunkIdx * n)).length := by
    rw [List.length_drop]
    omega
  rw [quotientChunk, toPoly_append, toPoly_replicate_zero, mul_zero, add_zero, stop,
    ← List.take_eq_take_min]

theorem toPoly_take_succ (n : ℕ) (quotient : List F) (kept : ℕ) :
    toPoly (quotient.take ((kept + 1) * n)) =
      toPoly (quotient.take (kept * n)) +
        X ^ (kept * n) * toPoly (quotientChunk n quotient kept) := by
  have split := toPoly_take_drop (quotient.take ((kept + 1) * n)) (kept * n)
  have shorter : min (kept * n) ((kept + 1) * n) = kept * n :=
    min_eq_left (Nat.mul_le_mul_right n kept.le_succ)
  have rest : (kept + 1) * n - kept * n = n := by
    rw [Nat.succ_mul, Nat.add_sub_cancel_left]
  rwa [List.take_take, shorter, List.drop_take, rest, ← toPoly_quotientChunk, eq_comm] at split

/-- The verifier puts the coefficients together that the chunks hold. -/
theorem recompose_split (n : ℕ) (quotient : List F) (kept : ℕ) (z : F) :
    evalPolyAt ((splitQuotient n quotient kept).map (evalPolyAt · z)) (z ^ n) =
      (toPoly (quotient.take (kept * n))).eval z := by
  induction kept with
  | zero => simp [splitQuotient, evalPolyAt]
  | succ kept hypothesis =>
      rw [toPoly_take_succ, eval_add, ← hypothesis, splitQuotient, List.range_succ,
        List.map_append, List.map_append, evalPolyAt_eq, toPoly_append, eval_add, ← evalPolyAt_eq,
        ← splitQuotient]
      simp only [splitQuotient, List.map_cons, List.map_nil, List.length_map, List.length_range,
        toPoly_singleton, eval_mul, eval_pow, eval_X, eval_C, evalPolyAt_eq]
      rw [← pow_mul, Nat.mul_comm]

end Chunks

section Lossless

variable {F : Type} [Field F] {n : ℕ} {omega : F} {cCoeffs : List F}

/-- A polynomial that vanishes on the domain is divided without a remainder. -/
theorem toPoly_eq_quotient_mul (primitive : IsPrimitiveRoot omega n) (positive : 0 < n)
    (vanishes : ∀ k, (toPoly cCoeffs).eval (omega ^ k) = 0) :
    toPoly cCoeffs = toPoly (quotientCoeffs n cCoeffs) * (X ^ n - 1) := by
  obtain ⟨remainder, small, divided⟩ := quotientCoeffs_spec positive cCoeffs
  have zero : remainder = 0 := by
    have distinct : Set.InjOn (fun k => omega ^ k) (Finset.range n : Set ℕ) := by
      intro i inside j inOther same
      exact primitive.pow_inj (Finset.mem_range.1 inside) (Finset.mem_range.1 inOther) same
    apply eq_zero_of_degree_lt_of_eval_index_eq_zero (Finset.range n) distinct
    · rwa [Finset.card_range]
    · intro k _
      have root : (omega ^ k) ^ n = 1 := by rw [pow_right_comm, primitive.pow_eq_one, one_pow]
      have value := vanishes k
      rwa [divided, eval_add, eval_mul, eval_sub, eval_pow, eval_X, eval_one, root, sub_self,
        mul_zero, zero_add] at value
  rwa [zero, add_zero] at divided

theorem coeff_of_quotient_mul {quotient : F[X]} (product : toPoly cCoeffs = quotient * (X ^ n - 1))
    (j : ℕ) : cCoeffs.getD (j + n) 0 = quotient.coeff j - quotient.coeff (j + n) := by
  rw [← coeff_toPoly, product, mul_sub, mul_one, coeff_sub, coeff_mul_X_pow]

/-- The quotient ends with the chunks when the dividend ends one chunk later. -/
theorem complete_iff (positive : 0 < n)
    (product : toPoly cCoeffs = toPoly (quotientCoeffs n cCoeffs) * (X ^ n - 1)) (kept : ℕ) :
    (∀ i, kept * n ≤ i → (quotientCoeffs n cCoeffs).getD i 0 = 0) ↔
      ∀ i, (kept + 1) * n ≤ i → cCoeffs.getD i 0 = 0 := by
  constructor
  · intro complete i above
    rw [Nat.succ_mul] at above
    obtain ⟨j, rfl⟩ := Nat.exists_eq_add_of_le' (le_of_add_le_right above)
    rw [coeff_of_quotient_mul product, coeff_toPoly, coeff_toPoly, complete j (by omega),
      complete (j + n) (by omega), sub_self]
  · intro bounded j above
    have moved (steps : ℕ) : (quotientCoeffs n cCoeffs).getD j 0 =
        (quotientCoeffs n cCoeffs).getD (j + steps * n) 0 := by
      induction steps with
      | zero => rw [Nat.zero_mul, Nat.add_zero]
      | succ steps hypothesis =>
          have entry := coeff_of_quotient_mul product (j + steps * n)
          rw [bounded _ (by rw [Nat.succ_mul]; omega), coeff_toPoly, coeff_toPoly] at entry
          rw [hypothesis, Nat.succ_mul, ← Nat.add_assoc]
          exact (sub_eq_zero.1 entry.symm)
    rw [moved (quotientCoeffs n cCoeffs).length]
    apply getD_eq_zero_of_length_le
    exact (Nat.le_mul_of_pos_right _ positive).trans (Nat.le_add_left _ _)

theorem splitQuotient_lossless_iff (primitive : IsPrimitiveRoot omega n) (positive : 0 < n)
    (vanishes : ∀ k, (toPoly cCoeffs).eval (omega ^ k) = 0) (kept : ℕ) :
    SplitsLosslessly n cCoeffs (splitQuotient n (quotientCoeffs n cCoeffs) kept) ↔
      ∀ i, (kept + 1) * n ≤ i → cCoeffs.getD i 0 = 0 := by
  have product := toPoly_eq_quotient_mul primitive positive vanishes
  have count : (splitQuotient n (quotientCoeffs n cCoeffs) kept).length = kept := by
    rw [splitQuotient, List.length_map, List.length_range]
  rw [← complete_iff positive product]
  constructor
  · intro lossless
    have complete := lossless.complete
    rwa [count] at complete
  · intro complete
    refine ⟨?_, by rwa [count]⟩
    have whole : toPoly ((quotientCoeffs n cCoeffs).take (kept * n)) =
        toPoly (quotientCoeffs n cCoeffs) := by
      ext i
      rw [coeff_toPoly, coeff_toPoly, List.getD_eq_getElem?_getD, List.getElem?_take]
      by_cases inside : i < kept * n
      · rw [if_pos inside, ← List.getD_eq_getElem?_getD]
      · rw [if_neg inside, complete i (not_lt.1 inside), Option.getD_none]
    intro z
    rw [quotientIdentity, powerLoop_eq, one_mul, recomposeQuotient_eq, recompose_split, whole,
      evalPolyAt_eq]
    rw [congrArg (eval z) product, eval_mul, eval_sub, eval_pow, eval_X, eval_one, sub_self]

theorem length_divideLoop (count : ℕ) (state : List F × List F) :
    (divideLoop n count state).2.length = state.2.length := by
  induction count generalizing state with
  | zero => rfl
  | succ count hypothesis => rw [divideLoop_succ, hypothesis, divideStep, List.length_set]

theorem rawNumQChunks_quotientCoeffs :
    rawNumQChunks n (quotientCoeffs n cCoeffs).length = rawNumQChunks n (cCoeffs.length - n) := by
  unfold quotientCoeffs
  dsimp only
  split
  · rw [length_divideLoop, List.length_replicate]
    unfold rawNumQChunks
    split <;> grind
  · rw [length_divideLoop, List.length_replicate, rawNumQChunks, rawNumQChunks, if_neg (by omega),
      if_neg (by omega)]

/-- `prove_inner` loses nothing as long as the constraint polynomial fits three domains, and
`prove_phase2_from_main_commit` as long as the chunks can be counted in a byte. -/
theorem quotientChunks_lossless_iff (primitive : IsPrimitiveRoot omega n) (positive : 0 < n)
    (vanishes : ∀ k, (toPoly cCoeffs).eval (omega ^ k) = 0) :
    (SplitsLosslessly n cCoeffs (innerChunks n cCoeffs) ↔
      ∀ i, 3 * n ≤ i → cCoeffs.getD i 0 = 0) ∧
    (SplitsLosslessly n cCoeffs (phase2Chunks n cCoeffs) ↔
      ∀ i, (rawNumQChunks n (cCoeffs.length - n) % 256 + 1) * n ≤ i →
        cCoeffs.getD i 0 = 0) := by
  constructor
  · rw [innerChunks, splitQuotient_lossless_iff primitive positive vanishes,
      rawNumQChunks_quotientCoeffs]
    by_cases several : n < cCoeffs.length - n
    · have chunks : 2 ≤ rawNumQChunks n (cCoeffs.length - n) := by
        rw [rawNumQChunks, if_pos several]
        have := Nat.div_pos (Nat.le_sub_one_of_lt several) positive
        omega
      rw [min_eq_right chunks]
    · -- a single chunk leaves nothing out in either reading
      have short : cCoeffs.length ≤ 2 * n := by omega
      rw [rawNumQChunks, if_neg several, min_eq_left one_le_two]
      constructor
      · intro _ i above
        exact getD_eq_zero_of_length_le (by omega)
      · intro _ i above
        exact getD_eq_zero_of_length_le (by omega)
  · rw [phase2Chunks, splitQuotient_lossless_iff primitive positive vanishes,
      rawNumQChunks_quotientCoeffs]

/-- The quotient `1 + 2 X + 3 X ^ 2 + 4 X ^ 3` has two chunks. -/
theorem quotientChunks_lossless_two :
    SplitsLosslessly 2 ([-1, -2, -2, -2, 3, 4] : List Fr)
        (innerChunks 2 [-1, -2, -2, -2, 3, 4]) ∧
      SplitsLosslessly 2 ([-1, -2, -2, -2, 3, 4] : List Fr)
        (phase2Chunks 2 [-1, -2, -2, -2, 3, 4]) := by
  have vanishes : ∀ k, (toPoly ([-1, -2, -2, -2, 3, 4] : List Fr)).eval ((-1) ^ k) = 0 := by
    intro k
    rw [← evalPolyAt_eq]
    rcases neg_one_pow_eq_or Fr k with even | odd
    · rw [even]
      decide
    · rw [odd]
      decide
  have lossless := quotientChunks_lossless_iff
    (IsPrimitiveRoot.neg_one bls12381Order (by decide)) Nat.two_pos vanishes
  refine ⟨lossless.1.2 ?_, lossless.2.2 ?_⟩
  · intro i above
    exact getD_eq_zero_of_length_le above
  · intro i above
    have chunks : (rawNumQChunks 2 4 % 256 + 1) * 2 = 6 := by decide
    exact getD_eq_zero_of_length_le (chunks.symm.trans_le above)

/-- The third chunk of the quotient of `X ^ 6 - 1` is dropped. -/
theorem innerChunks_drop_third :
    ¬ SplitsLosslessly 2 ([-1, 0, 0, 0, 0, 0, 1] : List Fr)
      (innerChunks 2 [-1, 0, 0, 0, 0, 0, 1]) ∧
    ¬ quotientIdentity 2 2 (evalPolyAt ([-1, 0, 0, 0, 0, 0, 1] : List Fr) 2)
      ((innerChunks 2 [-1, 0, 0, 0, 0, 0, 1]).map (evalPolyAt · 2)) := by
  have differs : ¬ quotientIdentity 2 2 (evalPolyAt ([-1, 0, 0, 0, 0, 0, 1] : List Fr) 2)
      ((innerChunks 2 [-1, 0, 0, 0, 0, 0, 1]).map (evalPolyAt · 2)) := by
    rw [quotientIdentity, powerLoop_eq, recomposeQuotient_eq]
    decide
  exact ⟨fun lossless => differs (lossless.recomposes 2), differs⟩

end Lossless

end MetaVm.Zkp
