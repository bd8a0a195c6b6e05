import MetaVm.Lib.Numerals

namespace MetaVm.RunningSum

/-! Sums that run around a cyclic domain, and sums of simple fractions whose
poles can be told apart. -/

section Cyclic

variable {A : Type*} [AddCommGroup A] {size : ℕ} {sum step : ℕ → A}

theorem sum_rotate (positive : 0 < size) (sum : ℕ → A) :
    ∑ i ∈ Finset.range size, sum ((i + 1) % size) =
      ∑ i ∈ Finset.range size, sum i := by
  obtain ⟨last, rfl⟩ := Nat.exists_eq_add_of_lt positive
  rw [Finset.sum_range_succ, Finset.sum_range_succ']
  congr 1
  · apply Finset.sum_congr rfl
    intro i member
    rw [Nat.mod_eq_of_lt (Nat.succ_lt_succ (Finset.mem_range.1 member))]
  · rw [Nat.mod_self]

/-- A column that takes the same steps around the domain closes the sum. -/
theorem sum_steps_eq_zero (positive : 0 < size)
    (steps : ∀ i < size, sum ((i + 1) % size) - sum i = step i) :
    ∑ i ∈ Finset.range size, step i = 0 := by
  calc ∑ i ∈ Finset.range size, step i
      = ∑ i ∈ Finset.range size, (sum ((i + 1) % size) - sum i) :=
        Finset.sum_congr rfl fun i member =>
          (steps i (Finset.mem_range.1 member)).symm
    _ = 0 := by rw [Finset.sum_sub_distrib, sum_rotate positive, sub_self]

/-- The partial sums of a closed sum step around the domain. -/
theorem partialSum_step (closed : ∑ i ∈ Finset.range size, step i = 0) {i : ℕ}
    (inside : i < size) :
    ∑ j ∈ Finset.range ((i + 1) % size), step j -
      ∑ j ∈ Finset.range i, step j = step i := by
  rcases Nat.lt_or_eq_of_le (Nat.succ_le_of_lt inside) with before | last
  · rw [Nat.mod_eq_of_lt before, Finset.sum_range_succ, add_sub_cancel_left]
  · have total := Finset.sum_range_succ step i
    rw [← Nat.succ_eq_add_one, last, closed] at total
    rw [← Nat.succ_eq_add_one, last, Nat.mod_self, Finset.sum_range_zero, zero_sub]
    exact neg_eq_of_add_eq_zero_right total.symm

end Cyclic

section Poles

variable {F E : Type*} [Field F] [Field E] [Algebra F E] {x : E}

theorem sub_ne_zero_of_transcendental (free : Transcendental F x) (a : F) :
    x - algebraMap F E a ≠ 0 := by
  intro zero
  apply free
  rw [sub_eq_zero.1 zero]
  exact isAlgebraic_algebraMap a

/-- A linear map that reads the coefficient of one simple fraction. -/
theorem exists_residue [DecidableEq F] (free : Transcendental F x) (pole : F) :
    ∃ residue : E →ₗ[F] F,
      ∀ a, residue (x - algebraMap F E a)⁻¹ = if a = pole then 1 else 0 := by
  have independent := free.linearIndependent_sub_inv
  obtain ⟨residue, extended⟩ := LinearMap.exists_extend
    (Finsupp.lapply pole ∘ₗ independent.repr)
  refine ⟨residue, fun a => ?_⟩
  have inside : (x - algebraMap F E a)⁻¹ ∈ Submodule.span F
      (Set.range fun a => (x - algebraMap F E a)⁻¹) :=
    Submodule.subset_span ⟨a, rfl⟩
  have value := LinearMap.congr_fun extended ⟨_, inside⟩
  rw [LinearMap.comp_apply, Submodule.subtype_apply, LinearMap.comp_apply,
    independent.repr_eq_single a _ rfl, Finsupp.lapply_apply,
    Finsupp.single_apply] at value
  exact value

end Poles

section Lookup

/-! Weighted values are looked up in a table: the fractions of all values add
up to fractions of the table entries. -/

variable {F E : Type*} [Field F] [Field E] [Algebra F E] {x : E}

/-- The weighted fractions of one row. -/
def fractions (x : E) (queries : List (ℕ × List F)) : E :=
  (queries.map fun (weight, values) =>
    (weight : E) * (values.map fun value => (x - algebraMap F E value)⁻¹).sum).sum

/-- How often a row looks up a value. -/
def occurrences [DecidableEq F] (value : F) (queries : List (ℕ × List F)) : ℕ :=
  (queries.map fun (weight, values) => weight * values.count value).sum

/-- How many values a row looks up. -/
def lookups (queries : List (ℕ × List F)) : ℕ :=
  (queries.map fun (weight, values) => weight * values.length).sum

theorem fractions_cons (x : E) (weight : ℕ) (values : List F)
    (rest : List (ℕ × List F)) :
    fractions x ((weight, values) :: rest) = (weight : E) *
      (values.map fun value => (x - algebraMap F E value)⁻¹).sum + fractions x rest :=
  List.sum_cons

variable [DecidableEq F]

omit [Field F] in
theorem occurrences_cons (value : F) (weight : ℕ) (values : List F)
    (rest : List (ℕ × List F)) :
    occurrences value ((weight, values) :: rest) =
      weight * values.count value + occurrences value rest :=
  List.sum_cons

omit [Field F] in
theorem occurrences_le (value : F) (queries : List (ℕ × List F)) :
    occurrences value queries ≤ lookups queries := by
  apply List.sum_le_sum
  rintro ⟨weight, values⟩ _
  exact Nat.mul_le_mul_left _ List.count_le_length

theorem residue_fractions {pole : F} {residue : E →ₗ[F] F}
    (reads : ∀ a, residue (x - algebraMap F E a)⁻¹ = if a = pole then 1 else 0)
    (queries : List (ℕ × List F)) :
    residue (fractions x queries) = occurrences pole queries := by
  induction queries with
  | nil => simp [fractions, occurrences]
  | cons query rest hypothesis =>
      obtain ⟨weight, values⟩ := query
      have counted : residue (values.map fun value =>
          (x - algebraMap F E value)⁻¹).sum = values.count pole := by
        clear hypothesis
        induction values with
        | nil => simp
        | cons value values hypothesis =>
            rw [List.map_cons, List.sum_cons, map_add, hypothesis, reads,
              List.count_cons]
            split
            · rename_i same
              simp [same, add_comm]
            · rename_i other
              simp [other]
      have first : residue ((weight : E) * (values.map fun value =>
          (x - algebraMap F E value)⁻¹).sum) = weight * values.count pole := by
        rw [← nsmul_eq_mul, map_nsmul, counted, nsmul_eq_mul]
      rw [fractions_cons, occurrences_cons, map_add, first, hypothesis]
      push_cast
      rfl

variable {size : ℕ} {queries : ℕ → List (ℕ × List F)} {multiplicity table : ℕ → F}

/-- Values that a closed sum looks up are entries of the table. -/
theorem mem_table_of_closed {p : ℕ} [CharP F p] (free : Transcendental F x)
    (closed : ∑ row ∈ Finset.range size, (fractions x (queries row) -
      algebraMap F E (multiplicity row) * (x - algebraMap F E (table row))⁻¹) = 0)
    (few : ∑ row ∈ Finset.range size, lookups (queries row) < p)
    {row : ℕ} (inside : row < size) {weight : ℕ} {values : List F}
    (query : (weight, values) ∈ queries row) (active : weight ≠ 0) {value : F}
    (looked : value ∈ values) : ∃ entry < size, table entry = value := by
  by_contra missing
  push Not at missing
  obtain ⟨residue, reads⟩ := exists_residue free value
  have count : ((∑ row ∈ Finset.range size, occurrences value (queries row) : ℕ) : F) =
      0 := by
    have applied := congrArg residue closed
    rw [map_sum, map_zero] at applied
    rw [← applied, Nat.cast_sum]
    apply Finset.sum_congr rfl
    intro row member
    rw [map_sub, residue_fractions reads, ← Algebra.smul_def, map_smul, reads,
      if_neg (missing row (Finset.mem_range.1 member)), smul_zero, sub_zero]
  have bounded : ∑ row ∈ Finset.range size, occurrences value (queries row) < p :=
    lt_of_le_of_lt (Finset.sum_le_sum fun row _ => occurrences_le value (queries row)) few
  have none := Nat.eq_zero_of_dvd_of_lt ((CharP.cast_eq_zero_iff F p _).1 count) bounded
  have here := Finset.sum_eq_zero_iff.1 none row (Finset.mem_range.2 inside)
  have term := List.sum_eq_zero_iff.1 here _ (List.mem_map_of_mem query)
  have appears := List.count_pos_iff.2 looked
  rcases Nat.mul_eq_zero.1 term with zero | zero
  · exact active zero
  · omega

omit [DecidableEq F]

end Lookup

section Counting

variable {A : Type*} [AddCommMonoid A]

/-- A sum over a list of positions, by position. -/
theorem sum_map_eq_sum_count {size : ℕ} (positions : List ℕ)
    (bounded : ∀ position ∈ positions, position < size) (f : ℕ → A) :
    (positions.map f).sum =
      ∑ position ∈ Finset.range size, positions.count position • f position := by
  rw [Finset.sum_list_map_count]
  apply Finset.sum_subset
  · intro position member
    exact Finset.mem_range.2 (bounded position (List.mem_toFinset.1 member))
  · intro position _ absent
    rw [List.count_eq_zero_of_not_mem (absent ∘ List.mem_toFinset.2), zero_smul]

theorem sum_map_range (size : ℕ) (f : ℕ → A) :
    ((List.range size).map f).sum = ∑ k ∈ Finset.range size, f k := rfl

theorem sum_map_flatMap {α β : Type*} (items : List α) (parts : α → List β) (f : β → A) :
    ((items.flatMap parts).map f).sum =
      (items.map fun item => ((parts item).map f).sum).sum := by
  induction items with
  | nil => rfl
  | cons item items hypothesis =>
      rw [List.flatMap_cons, List.map_append, List.sum_append, hypothesis,
        List.map_cons, List.sum_cons]

theorem sum_map_sum {α : Type*} (size : ℕ) (items : List α) (f : ℕ → α → A) :
    ∑ row ∈ Finset.range size, (items.map (f row)).sum =
      (items.map fun item => ∑ row ∈ Finset.range size, f row item).sum := by
  induction items with
  | nil => simp
  | cons item items hypothesis =>
      simp only [List.map_cons, List.sum_cons, Finset.sum_add_distrib, hypothesis]

end Counting

end MetaVm.RunningSum
