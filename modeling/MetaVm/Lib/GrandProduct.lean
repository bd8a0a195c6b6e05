import MetaVm.Lib.Numerals

namespace MetaVm.GrandProduct

/-! Running products around a cyclic domain, and products of linear factors
that agree only when their factors do. -/

section Cyclic

variable {K : Type*} [Field K] {size : ℕ} {accumulator numer denom : ℕ → K}

/-- A column of running products that comes back to one multiplies both sides
to the same value. -/
theorem prod_eq_of_steps (positive : 0 < size) (start : accumulator 0 = 1)
    (steps : ∀ i < size,
      accumulator ((i + 1) % size) * denom i = accumulator i * numer i) :
    ∏ i ∈ Finset.range size, numer i = ∏ i ∈ Finset.range size, denom i := by
  have partly : ∀ count < size, accumulator count * ∏ i ∈ Finset.range count, denom i =
      ∏ i ∈ Finset.range count, numer i := by
    intro count
    induction count with
    | zero => simp [start]
    | succ count hypothesis =>
        intro inside
        have step := steps count (Nat.lt_of_succ_lt inside)
        rw [Nat.mod_eq_of_lt inside] at step
        rw [Finset.prod_range_succ, Finset.prod_range_succ,
          ← hypothesis (Nat.lt_of_succ_lt inside), mul_comm (∏ i ∈ _, denom i), ← mul_assoc,
          step]
        ring
  obtain ⟨last, rfl⟩ := Nat.exists_eq_add_of_lt positive
  rw [Nat.zero_add] at *
  have before := partly last (Nat.lt_succ_self last)
  have step := steps last (Nat.lt_succ_self last)
  rw [Nat.mod_self, start, one_mul] at step
  rw [Finset.prod_range_succ, Finset.prod_range_succ, ← before, step]
  ring

/-- The quotients of the partial products step around the domain. -/
theorem partialProd_step (nonzero : ∀ i < size, denom i ≠ 0)
    (equal : ∏ i ∈ Finset.range size, numer i = ∏ i ∈ Finset.range size, denom i) {i : ℕ}
    (inside : i < size) :
    (∏ j ∈ Finset.range ((i + 1) % size), numer j / denom j) * denom i =
      (∏ j ∈ Finset.range i, numer j / denom j) * numer i := by
  have whole : ∏ j ∈ Finset.range size, numer j / denom j = 1 := by
    rw [Finset.prod_div_distrib, equal]
    exact div_self (Finset.prod_ne_zero_iff.2 fun j member => nonzero j (Finset.mem_range.1 member))
  have step : (∏ j ∈ Finset.range (i + 1), numer j / denom j) * denom i =
      (∏ j ∈ Finset.range i, numer j / denom j) * numer i := by
    rw [Finset.prod_range_succ, mul_assoc, div_mul_cancel₀ _ (nonzero i inside)]
  rcases Nat.lt_or_eq_of_le (Nat.succ_le_of_lt inside) with before | last
  · rw [Nat.mod_eq_of_lt before]
    exact step
  · rw [← Nat.succ_eq_add_one, last, whole] at step
    rw [← Nat.succ_eq_add_one, last, Nat.mod_self, Finset.prod_range_zero]
    exact step

end Cyclic

section Factors

variable {ι : Type*} [Fintype ι]

/-- Equal multisets of values are matched by a permutation. -/
theorem exists_matching_of_map_eq {A : Type*} {first second : ι → A}
    (equal : Finset.univ.val.map first = Finset.univ.val.map second) :
    ∃ matching : Equiv.Perm ι, ∀ i, second (matching i) = first i := by
  classical
  have fibers : ∀ value, Nonempty ({ i // first i = value } ≃ { i // second i = value }) := by
    intro value
    refine ⟨Fintype.equivOfCardEq ?_⟩
    have counts := congrArg (Multiset.count value) equal
    rw [Multiset.count_map, Multiset.count_map] at counts
    simp only [@eq_comm _ value] at counts
    rw [Fintype.card_subtype, Fintype.card_subtype]
    exact counts
  let fiber := fun value => Classical.choice (fibers value)
  exact ⟨Equiv.ofFiberEquiv fiber, fun i => Equiv.ofFiberEquiv_map fiber i⟩

/-- A code that tells the values apart tells the multisets of values apart. -/
theorem map_eq_map_iff_of_injOn {A B : Type*} [Nonempty A] {code : A → B} {values : Set A}
    (apart : values.InjOn code) {left right : Multiset A} (inLeft : ∀ value ∈ left, value ∈ values)
    (inRight : ∀ value ∈ right, value ∈ values) : left.map code = right.map code ↔ left = right := by
  have decoded : ∀ {multiset : Multiset A}, (∀ value ∈ multiset, value ∈ values) →
      (multiset.map code).map (Function.invFunOn code values) = multiset := by
    intro multiset inside
    rw [Multiset.map_map]
    calc multiset.map (Function.invFunOn code values ∘ code) = multiset.map id :=
          Multiset.map_congr rfl fun value member => apart.leftInvOn_invFunOn (inside value member)
      _ = multiset := Multiset.map_id multiset
  constructor
  · intro same
    rw [← decoded inLeft, same, decoded inRight]
  · intro same
    rw [same]

variable {L K : Type*} [Field L] [Field K] [Algebra L K] {x : K} {first second : ι → L}

theorem add_ne_zero_of_transcendental (free : Transcendental L x) (a : L) :
    x + algebraMap L K a ≠ 0 := by
  intro zero
  apply free
  rw [eq_neg_of_add_eq_zero_left zero, ← map_neg]
  exact isAlgebraic_algebraMap _

/-- Products of shifted indeterminates agree when the shifts do, and only then. -/
theorem prod_map_eq_iff (free : Transcendental L x) {first second : Multiset L} :
    (first.map fun a => x + algebraMap L K a).prod =
        (second.map fun a => x + algebraMap L K a).prod ↔ first = second := by
  constructor
  · intro equal
    let factors (shifts : Multiset L) : Polynomial L :=
      ((shifts.map Neg.neg).map fun a => .X - .C a).prod
    have value : ∀ shifts : Multiset L, Polynomial.aeval x (factors shifts) =
        (shifts.map fun a => x + algebraMap L K a).prod := by
      intro shifts
      rw [map_multiset_prod, Multiset.map_map, Multiset.map_map]
      apply congrArg Multiset.prod
      apply Multiset.map_congr rfl
      intro a _
      rw [Function.comp_apply, Function.comp_apply, map_sub, Polynomial.aeval_X,
        Polynomial.aeval_C, map_neg, sub_neg_eq_add]
    have same : factors first = factors second := by
      refine transcendental_iff_injective.1 free ?_
      rw [value, value, equal]
    have roots := congrArg Polynomial.roots same
    rw [Polynomial.roots_multiset_prod_X_sub_C, Polynomial.roots_multiset_prod_X_sub_C] at roots
    exact Multiset.map_injective neg_injective roots
  · intro same
    rw [same]

/-- Products of shifted indeterminates agree when a permutation matches the
shifts, and only then. -/
theorem prod_eq_iff_matching (free : Transcendental L x) :
    ∏ i, (x + algebraMap L K (first i)) = ∏ i, (x + algebraMap L K (second i)) ↔
      ∃ matching : Equiv.Perm ι, ∀ i, second (matching i) = first i := by
  have shifts : ∀ shift : ι → L, ∏ i, (x + algebraMap L K (shift i)) =
      ((Finset.univ.val.map shift).map fun a => x + algebraMap L K a).prod := by
    intro shift
    rw [Multiset.map_map]
    rfl
  constructor
  · intro equal
    rw [shifts, shifts, prod_map_eq_iff free] at equal
    exact exists_matching_of_map_eq equal
  · rintro ⟨matching, matched⟩
    rw [← Equiv.prod_comp matching fun i => x + algebraMap L K (second i)]
    exact Finset.prod_congr rfl fun i _ => by rw [matched]

end Factors

end MetaVm.GrandProduct
