import MetaVm.Lib.Numerals

namespace MetaVm.Interpolation

open Polynomial

/-! The value of a polynomial at zero, from its values at other points. -/

variable {F ι : Type*} [Field F] [Fintype ι] [DecidableEq ι] {point : ι → F}

/-- How much the value at a point counts for the value at zero. -/
def weight (point : ι → F) (j : ι) : F :=
  (∏ k, if j = k then 1 else point k) * (∏ k, if j = k then 1 else point k - point j)⁻¹

theorem prod_ite_eq_erase (j : ι) (value : ι → F) :
    (∏ k, if j = k then 1 else value k) = ∏ k ∈ Finset.univ.erase j, value k := by
  rw [← Finset.mul_prod_erase Finset.univ _ (Finset.mem_univ j), if_pos rfl, one_mul]
  apply Finset.prod_congr rfl
  intro k other
  exact if_neg (Finset.ne_of_mem_erase other).symm

theorem weight_eq_eval_basis (j : ι) :
    weight point j = (Lagrange.basis Finset.univ point j).eval 0 := by
  rw [weight, prod_ite_eq_erase, prod_ite_eq_erase, Lagrange.basis, eval_prod,
    ← Finset.prod_inv_distrib, ← Finset.prod_mul_distrib]
  apply Finset.prod_congr rfl
  intro k _
  rw [Lagrange.basisDivisor, eval_mul, eval_C, eval_sub, eval_X, eval_C, zero_sub, ← neg_sub,
    inv_neg, mul_neg, mul_neg, mul_comm]

/-- Fewer coefficients than points. -/
theorem sum_weight_mul_eval (distinct : Function.Injective point) {p : F[X]}
    (low : p.degree < Fintype.card ι) : ∑ j, weight point j * p.eval (point j) = p.eval 0 := by
  have interpolated := Lagrange.eq_interpolate (s := Finset.univ) distinct.injOn low
  rw [Lagrange.interpolate_apply] at interpolated
  have value := congrArg (eval 0) interpolated
  rw [value, eval_finsetSum]
  apply Finset.sum_congr rfl
  intro j _
  rw [eval_mul, eval_C, weight_eq_eval_basis, mul_comm]

theorem sum_weight (distinct : Function.Injective point) [Nonempty ι] :
    ∑ j, weight point j = 1 := by
  have constant := @sum_weight_mul_eval F ι _ _ _ point distinct 1 (by
    rw [degree_one]
    exact_mod_cast Fintype.card_pos)
  simpa only [eval_one, mul_one] using constant

end MetaVm.Interpolation

namespace MetaVm.CoeffList

open Polynomial

variable {F : Type*} [CommRing F]

/-! Coefficient lists, lowest coefficient first, read as polynomials. -/

noncomputable def toPoly : List F → F[X]
  | [] => 0
  | coefficient :: rest => C coefficient + X * toPoly rest

@[simp] theorem toPoly_nil : toPoly ([] : List F) = 0 := rfl

theorem toPoly_cons (coefficient : F) (rest : List F) :
    toPoly (coefficient :: rest) = C coefficient + X * toPoly rest := rfl

theorem coeff_toPoly (list : List F) (index : ℕ) :
    (toPoly list).coeff index = list.getD index 0 := by
  induction list generalizing index with
  | nil => simp
  | cons coefficient rest ih =>
      cases index with
      | zero => simp [toPoly_cons]
      | succ index => simp [toPoly_cons, ih]

theorem getD_eq_zero_of_length_le {list : List F} {index : ℕ}
    (outside : list.length ≤ index) : list.getD index 0 = 0 := by
  simp [List.getD_eq_getElem?_getD, List.getElem?_eq_none outside]

theorem degree_toPoly_lt (list : List F) :
    (toPoly list).degree < list.length := by
  rw [degree_lt_iff_coeff_zero]
  intro index outside
  rw [coeff_toPoly, getD_eq_zero_of_length_le outside]

/-- A list is determined as a polynomial by its entries, once the polynomial
it should denote has no coefficient past its end. -/
theorem toPoly_eq_of_coeff {list : List F} {p : F[X]}
    (bound : p.degree < list.length)
    (entries : ∀ index < list.length, list.getD index 0 = p.coeff index) :
    toPoly list = p := by
  ext index
  rw [coeff_toPoly]
  rcases lt_or_ge index list.length with inside | outside
  · exact entries index inside
  · rw [getD_eq_zero_of_length_le outside,
      (degree_lt_iff_coeff_zero p _).1 bound index outside]

/-- Over a large enough domain only the zero list vanishes everywhere. -/
theorem eval_toPoly_eq_zero_iff {D : Type*} [CommRing D] [IsDomain D] [Fintype D]
    {list : List D} (large : list.length ≤ Fintype.card D) :
    (∀ point, (toPoly list).eval point = 0) ↔ ∀ value ∈ list, value = 0 := by
  constructor
  · intro vanishes value member
    have zero : toPoly list = 0 := by
      apply eq_zero_of_degree_lt_of_eval_finset_eq_zero Finset.univ
      · rw [Finset.card_univ]
        exact (degree_toPoly_lt list).trans_le (by exact_mod_cast large)
      · intro point _
        exact vanishes point
    obtain ⟨index, inside, rfl⟩ := List.mem_iff_getElem.1 member
    have entry := coeff_toPoly list index
    rw [zero, coeff_zero, List.getD_eq_getElem _ _ inside] at entry
    exact entry.symm
  · intro zeros point
    have zero : toPoly list = 0 := by
      ext index
      rw [coeff_toPoly, coeff_zero]
      rcases lt_or_ge index list.length with inside | outside
      · rw [List.getD_eq_getElem _ _ inside]
        exact zeros _ (List.getElem_mem inside)
      · exact getD_eq_zero_of_length_le outside
    rw [zero, eval_zero]

theorem toPoly_singleton (value : F) : toPoly [value] = C value := by
  simp [toPoly_cons]

theorem toPoly_append (front back : List F) :
    toPoly (front ++ back) = toPoly front + X ^ front.length * toPoly back := by
  induction front with
  | nil => simp
  | cons coefficient rest ih =>
      simp only [List.cons_append, toPoly_cons, ih, List.length_cons]
      ring

theorem toPoly_map_mul (list : List F) (scale : F) :
    toPoly (list.map fun coefficient => coefficient * scale) =
      toPoly list * C scale := by
  induction list with
  | nil => simp
  | cons coefficient rest ih =>
      simp only [List.map_cons, toPoly_cons, ih, C_mul]
      ring

theorem getD_map_range (entry : ℕ → F) (size index : ℕ) :
    ((List.range size).map entry).getD index 0 =
      if index < size then entry index else 0 := by
  split
  · next inside => simp [List.getD_eq_getElem?_getD, inside]
  · next outside =>
      exact getD_eq_zero_of_length_le (by simpa using outside)

/-- A pointwise combination of two zero-padded lists. -/
theorem toPoly_zipPadded (combine : F → F → F) (zero : combine 0 0 = 0)
    (left right : List F) {p : F[X]}
    (entries : ∀ index, combine (left.getD index 0) (right.getD index 0) =
      p.coeff index) :
    toPoly ((List.range (max left.length right.length)).map fun index =>
      combine (left.getD index 0) (right.getD index 0)) = p := by
  ext index
  rw [coeff_toPoly, getD_map_range, ← entries index]
  split
  · rfl
  · next outside =>
      have outside' : max left.length right.length ≤ index := by omega
      rw [getD_eq_zero_of_length_le (le_of_max_le_left outside'),
        getD_eq_zero_of_length_le (le_of_max_le_right outside'), zero]

/-- The product of two lists' polynomials fits into the length a full
convolution writes. -/
theorem degree_mul_lt (left right : List F) :
    (toPoly left * toPoly right).degree <
      ((left.length + right.length - 1 : ℕ) : WithBot ℕ) := by
  rw [degree_lt_iff_coeff_zero]
  intro index outside
  rw [coeff_mul]
  refine Finset.sum_eq_zero fun pair member => ?_
  have total : pair.1 + pair.2 = index :=
    Finset.HasAntidiagonal.mem_antidiagonal.1 member
  rw [coeff_toPoly, coeff_toPoly]
  rcases le_or_gt left.length pair.1 with outLeft | inLeft
  · rw [getD_eq_zero_of_length_le outLeft, zero_mul]
  · have outRight : right.length ≤ pair.2 := by omega
    rw [getD_eq_zero_of_length_le outRight, mul_zero]

theorem toPoly_replicate_zero (size : ℕ) :
    toPoly (List.replicate size (0 : F)) = 0 := by
  ext index
  rw [coeff_toPoly, coeff_zero]
  rcases lt_or_ge index size with inside | outside
  · simp [List.getD_eq_getElem?_getD, inside]
  · exact getD_eq_zero_of_length_le (by simpa using outside)

theorem getD_modify (list : List F) (position : ℕ) (change : F → F)
    (index : ℕ) (inside : index < list.length) :
    (list.modify position change).getD index 0 =
      if position = index then change (list.getD index 0)
      else list.getD index 0 := by
  rw [List.getD_eq_getElem?_getD, List.getElem?_modify,
    List.getD_eq_getElem?_getD, List.getElem?_eq_getElem inside]
  split <;> simp

/-- Adding at one position adds the monomial, when the position exists. -/
theorem toPoly_modify_add {list : List F} {position : ℕ}
    (inside : position < list.length) (term : F) :
    toPoly (list.modify position fun entry => entry + term) =
      toPoly list + C term * X ^ position := by
  ext index
  rw [coeff_toPoly, coeff_add, coeff_C_mul, coeff_X_pow, coeff_toPoly]
  rcases lt_or_ge index list.length with indexLt | outside
  · rw [getD_modify _ _ _ _ indexLt]
    by_cases equal : position = index
    · simp [equal]
    · simp [equal, Ne.symm equal]
  · rw [getD_eq_zero_of_length_le (by simpa using outside),
      getD_eq_zero_of_length_le outside, if_neg (by omega)]
    simp

theorem toPoly_take_drop (list : List F) (position : ℕ) :
    toPoly (list.take position) + X ^ position * toPoly (list.drop position) =
      toPoly list := by
  rcases le_or_gt list.length position with short | long
  · simp [List.take_of_length_le short, List.drop_eq_nil_of_le short]
  · conv_rhs => rw [← List.take_append_drop position list, toPoly_append]
    rw [List.length_take, min_eq_left (by omega)]

end MetaVm.CoeffList

namespace MetaVm.Overlay

open CoeffList Polynomial

/-! Blocks of values combined with the powers of one challenge, each block from a power of its
own on. -/

section Combination

variable {F : Type*} [CommRing F]

/-- The sum of what the blocks hold at a power. -/
def overlay (blocks : List (ℕ × List F)) (power : ℕ) : F :=
  (blocks.map fun block => if block.1 ≤ power then block.2.getD (power - block.1) 0 else 0).sum

/-- The blocks combined at a challenge. -/
noncomputable def combination (blocks : List (ℕ × List F)) (challenge : F) : F :=
  (blocks.map fun block => challenge ^ block.1 * (toPoly block.2).eval challenge).sum

/-- Every block ends before a power. -/
def Fits (blocks : List (ℕ × List F)) (size : ℕ) : Prop :=
  ∀ block ∈ blocks, block.1 + block.2.length ≤ size

theorem toPoly_map_range (size : ℕ) (entry : ℕ → F) (index : ℕ) :
    (toPoly ((List.range size).map entry)).coeff index = if index < size then entry index else 0 := by
  rw [coeff_toPoly, getD_map_range]

/-- The overlaid values are the coefficients of the combination. -/
theorem eval_overlay {blocks : List (ℕ × List F)} {size : ℕ} (fits : Fits blocks size)
    (challenge : F) :
    (toPoly ((List.range size).map (overlay blocks))).eval challenge =
      combination blocks challenge := by
  induction blocks with
  | nil =>
      have zero : toPoly ((List.range size).map (overlay ([] : List (ℕ × List F)))) = 0 := by
        ext index
        rw [toPoly_map_range, coeff_zero]
        split <;> rfl
      rw [zero, eval_zero]
      rfl
  | cons block rest hypothesis =>
      have later : Fits rest size := fun other inside => fits other (List.mem_cons_of_mem block inside)
      have ends := fits block List.mem_cons_self
      have split : toPoly ((List.range size).map (overlay (block :: rest))) =
          X ^ block.1 * toPoly block.2 + toPoly ((List.range size).map (overlay rest)) := by
        ext index
        rw [coeff_add, toPoly_map_range, toPoly_map_range, coeff_X_pow_mul', coeff_toPoly]
        by_cases inside : index < size
        · rw [if_pos inside, if_pos inside]
          rfl
        · rw [if_neg inside, if_neg inside, getD_eq_zero_of_length_le (by omega)]
          simp
      rw [split, eval_add, eval_mul, eval_pow, eval_X, hypothesis later]
      rfl

end Combination

section Vanishing

variable {F : Type*} [Field F] [Fintype F] {blocks : List (ℕ × List F)} {size : ℕ}

/-- A combination vanishes for every challenge exactly when the overlaid values do, also behind a
power of the challenge. -/
theorem combination_eq_zero_iff (fits : Fits blocks size) (large : size < Fintype.card F)
    (power : ℕ) :
    (∀ challenge, challenge ^ power * combination blocks challenge = 0) ↔
      ∀ index < size, overlay blocks index = 0 := by
  have long : ((List.range size).map (overlay blocks)).length = size := by
    rw [List.length_map, List.length_range]
  constructor
  · intro vanishes index inside
    have zeros := (@eval_toPoly_eq_zero_iff F _ _ _ (0 :: (List.range size).map (overlay blocks))
      (by rw [List.length_cons, long]; exact large)).1 ?_
    · exact zeros _ (List.mem_cons_of_mem 0 (List.mem_map_of_mem (List.mem_range.2 inside)))
    · intro challenge
      rw [toPoly_cons, C_0, zero_add, eval_mul, eval_X, eval_overlay fits]
      by_cases zero : challenge = 0
      · rw [zero, zero_mul]
      · rw [(mul_eq_zero.1 (vanishes challenge)).resolve_left (pow_ne_zero power zero), mul_zero]
  · intro zeros challenge
    have none : ∀ value ∈ (List.range size).map (overlay blocks), value = 0 := by
      rw [List.forall_mem_map]
      exact fun index inside => zeros index (List.mem_range.1 inside)
    rw [← eval_overlay fits, (eval_toPoly_eq_zero_iff (by rw [long]; exact large.le)).2 none,
      mul_zero]

end Vanishing

end MetaVm.Overlay
