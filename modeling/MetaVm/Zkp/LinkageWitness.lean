import MetaVm.Zkp.CrossAirLogup

namespace MetaVm.Zkp

/-! What a row looks up, in the terms of its trace. -/

section Rows

variable {curve : CurveType}

def TracePolynomials.cell (trace : TracePolynomials curve) (index : BitVec 64) (row : ℕ) :
    Scalar curve :=
  (trace.columns.getD index.toNat []).getD row 0

/-- The cells of a row, weighted by the powers of the challenge. -/
def TracePolynomials.encode (trace : TracePolynomials curve) (beta : Scalar curve)
    (columns : List (BitVec 64)) (row : ℕ) : Scalar curve :=
  columns.foldr (fun index later => trace.cell index row + beta * later) 0

def TracePolynomials.Selected (trace : TracePolynomials curve) (selector : Option (BitVec 64))
    (row : ℕ) : Prop :=
  ∀ index ∈ selector, trace.cell index row ≠ 0

instance (trace : TracePolynomials curve) (selector : Option (BitVec 64)) (row : ℕ) :
    Decidable (trace.Selected selector row) :=
  inferInstanceAs (Decidable (∀ index ∈ selector, _))

/-- All columns that are named exist. -/
def TracePolynomials.Has (trace : TracePolynomials curve) (columns : List (BitVec 64))
    (selector : Option (BitVec 64)) : Prop :=
  (∀ index ∈ columns, index.toNat < trace.columns.length) ∧
    ∀ index ∈ selector, index.toNat < trace.columns.length

theorem TracePolynomials.getElem?_eq {trace : TracePolynomials curve} {index : BitVec 64}
    (inside : index.toNat < trace.columns.length) :
    trace.columns[index.toNat]? = some (trace.columns.getD index.toNat []) := by
  rw [List.getD_eq_getElem?_getD, List.getElem?_eq_getElem inside, Option.getD_some]

theorem tupleAt_eq {trace : TracePolynomials curve} {columns : List (BitVec 64)}
    (inside : ∀ index ∈ columns, index.toNat < trace.columns.length) (beta : Scalar curve)
    (row : ℕ) (acc power : Scalar curve) :
    tupleAt trace beta row acc power columns =
      some (acc + power * trace.encode beta columns row) := by
  induction columns generalizing acc power with
  | nil => rw [tupleAt, TracePolynomials.encode, List.foldr_nil, mul_zero, add_zero]
  | cons index columns hypothesis =>
      obtain ⟨here, others⟩ := List.forall_mem_cons.1 inside
      have first : trace.encode beta (index :: columns) row =
          trace.cell index row + beta * trace.encode beta columns row := rfl
      rw [tupleAt, TracePolynomials.getElem?_eq here]
      show tupleAt trace beta row _ _ columns = _
      rw [hypothesis others, first, TracePolynomials.cell]
      congr 1
      ring

/-- Steps that all succeed give the list of their results. -/
theorem mapM_eq_some {α β : Type} {step : α → Option β} {result : α → β} {values : List α}
    (each : ∀ value ∈ values, step value = some (result value)) :
    values.mapM step = some (values.map result) := by
  induction values with
  | nil => rfl
  | cons value values hypothesis =>
      obtain ⟨here, others⟩ := List.forall_mem_cons.1 each
      rw [List.mapM_cons, here, hypothesis others]
      rfl

theorem buildTupleColumn_eq {trace : TracePolynomials curve} {columns : List (BitVec 64)}
    (inside : ∀ index ∈ columns, index.toNat < trace.columns.length) (beta : Scalar curve)
    (n : ℕ) :
    buildTupleColumn trace columns beta n =
      some ((List.range n).map (trace.encode beta columns)) := by
  refine mapM_eq_some fun row _ => ?_
  rw [tupleAt_eq inside, zero_add, one_mul]

theorem buildActiveColumn_eq {trace : TracePolynomials curve} {selector : Option (BitVec 64)}
    (inside : ∀ index ∈ selector, index.toNat < trace.columns.length) (n : ℕ) :
    buildActiveColumn trace selector n =
      some ((List.range n).map fun row => decide (trace.Selected selector row)) := by
  cases selector with
  | none =>
      have all : ∀ row, trace.Selected none row := fun row index member => nomatch member
      simp only [buildActiveColumn, all, decide_true, List.map_const', List.length_range]
  | some index =>
      rw [buildActiveColumn, TracePolynomials.getElem?_eq (inside index rfl)]
      refine congrArg some (List.map_congr_left fun row _ => decide_eq_decide.2 ?_)
      constructor
      · rintro filled _ ⟨⟩
        exact filled
      · intro selected
        exact selected index rfl

end Rows

/-! Multiplicities. -/

section Charging

variable {curve : CurveType}

/-- How often a tuple is still to be charged. -/
def TupleCounts.left (counts : TupleCounts curve) (tuple : Scalar curve) : ℕ :=
  (counts.lookup tuple).getD 0

def activeTuples (rows : List (Bool × Scalar curve)) : List (Scalar curve) :=
  (rows.filter Prod.fst).map Prod.snd

theorem left_insert (counts : TupleCounts curve) (tuple : Scalar curve) (count : ℕ)
    (other : Scalar curve) :
    TupleCounts.left (counts.insert tuple count) other =
      if other = tuple then count else TupleCounts.left counts other := by
  rw [TupleCounts.left]
  split
  · rename_i same
    rw [same, AList.lookup_insert]
    rfl
  · rename_i distinct
    rw [AList.lookup_insert_ne distinct]
    rfl

theorem left_countTuples (rows : List (Bool × Scalar curve)) (tuple : Scalar curve) :
    TupleCounts.left (countTuples rows) tuple = (activeTuples rows).count tuple := by
  have general : ∀ counts : TupleCounts curve, TupleCounts.left (rows.foldl (fun counts row =>
      if row.1 then counts.insert row.2 ((counts.lookup row.2).getD 0 + 1) else counts) counts)
      tuple = TupleCounts.left counts tuple + (activeTuples rows).count tuple := by
    induction rows with
    | nil => intro counts; rfl
    | cons row rows hypothesis =>
        obtain ⟨active, other⟩ := row
        intro counts
        rw [List.foldl_cons, hypothesis]
        cases active with
        | false => rfl
        | true =>
            rw [if_pos rfl, left_insert]
            show _ = _ + List.count tuple (other :: activeTuples rows)
            rw [List.count_cons]
            by_cases same : tuple = other
            · rw [if_pos same, same, beq_self_eq_true, if_pos rfl]
              exact Nat.add_right_comm _ _ _
            · rw [if_neg same, if_neg (by simpa only [beq_iff_eq] using Ne.symm same)]
              rfl
  exact (general ∅).trans (Nat.zero_add _)

/-- No occurrence is left when nothing is left of any tuple. -/
theorem sum_entries_eq_zero (counts : TupleCounts curve) :
    (counts.entries.map Sigma.snd).sum = 0 ↔ ∀ tuple, TupleCounts.left counts tuple = 0 := by
  rw [List.sum_eq_zero_iff]
  constructor
  · intro none tuple
    rw [TupleCounts.left]
    cases found : counts.lookup tuple with
    | none => rfl
    | some count => exact none count (List.mem_map.2 ⟨_, AList.mem_lookup_iff.1 found, rfl⟩)
  · intro none count member
    obtain ⟨⟨tuple, count⟩, entry, rfl⟩ := List.mem_map.1 member
    have found := none tuple
    rw [TupleCounts.left, AList.mem_lookup_iff.2 entry] at found
    exact found

@[simp]
theorem activeTuples_cons (tuple : Scalar curve) (rows : List (Bool × Scalar curve)) :
    activeTuples ((true, tuple) :: rows) = tuple :: activeTuples rows := rfl

variable [Fact curve.order.Prime] {gamma : Scalar curve}

/-- The fractions of what is still to be charged. -/
def TupleCounts.fractions (counts : TupleCounts curve) (gamma : Scalar curve)
    (support : Finset (Scalar curve)) : Scalar curve :=
  ∑ tuple ∈ support, TupleCounts.left counts tuple • (gamma - tuple)⁻¹

/-- What the charged rows come to: every row has the inverse that its multiplicity
asks for, nothing is left of a tuple that some row has, and the fractions move
from the counts to the rows. -/
structure Charged (gamma : Scalar curve) (rows : List (Bool × Scalar curve))
    (counts : TupleCounts curve) (charged : List (Scalar curve × Scalar curve))
    (after : TupleCounts curve) : Prop where
  row : List.Forall₂ (fun row pair => pair.2 * (gamma - row.2) = pair.1) rows charged
  left : ∀ tuple, TupleCounts.left after tuple =
    if tuple ∈ activeTuples rows then 0 else TupleCounts.left counts tuple
  sum : ∀ support : Finset (Scalar curve),
    (∀ tuple, TupleCounts.left counts tuple ≠ 0 → tuple ∈ support) →
    (charged.map Prod.snd).sum + TupleCounts.fractions after gamma support =
      TupleCounts.fractions counts gamma support

/-- A row that is not charged leaves the counts as they are. -/
theorem Charged.idle {active : Bool} {tuple : Scalar curve} {rows : List (Bool × Scalar curve)}
    {counts after : TupleCounts curve} {charged : List (Scalar curve × Scalar curve)}
    (rest : Charged gamma rows counts charged after)
    (idle : active = false ∨ TupleCounts.left counts tuple = 0) :
    Charged gamma ((active, tuple) :: rows) counts ((0, 0) :: charged) after where
  row := .cons (zero_mul _) rest.row
  left := by
    intro other
    rw [rest.left]
    rcases idle with rfl | spent
    · rfl
    · cases active with
      | false => rfl
      | true =>
          simp only [activeTuples_cons, List.mem_cons]
          by_cases same : other = tuple
          · rw [same, spent, ite_self, ite_self]
          · simp only [same, false_or]
  sum := by
    intro support supported
    rw [List.map_cons, List.sum_cons, zero_add]
    exact rest.sum support supported

theorem fractions_insert (counts : TupleCounts curve) {tuple : Scalar curve}
    {support : Finset (Scalar curve)} (inside : tuple ∈ support) :
    TupleCounts.left counts tuple • (gamma - tuple)⁻¹ +
        TupleCounts.fractions (counts.insert tuple 0) gamma support =
      TupleCounts.fractions counts gamma support := by
  rw [TupleCounts.fractions, TupleCounts.fractions, ← Finset.add_sum_erase _ _ inside,
    ← Finset.add_sum_erase support _ inside, left_insert, if_pos rfl, zero_smul, zero_add]
  congr 1
  apply Finset.sum_congr rfl
  intro other member
  rw [left_insert, if_neg (Finset.ne_of_mem_erase member)]

theorem Charged.charge {tuple : Scalar curve} {rows : List (Bool × Scalar curve)}
    {counts after : TupleCounts curve} {charged : List (Scalar curve × Scalar curve)}
    (rest : Charged gamma rows (counts.insert tuple 0) charged after)
    (some : TupleCounts.left counts tuple ≠ 0) (apart : gamma - tuple ≠ 0) :
    Charged gamma ((true, tuple) :: rows) counts
      (((TupleCounts.left counts tuple : Scalar curve),
        (TupleCounts.left counts tuple : Scalar curve) * (gamma - tuple)⁻¹) :: charged) after where
  row := .cons (inv_mul_cancel_right₀ apart _) rest.row
  left := by
    intro other
    simp only [rest.left, left_insert, activeTuples_cons, List.mem_cons]
    by_cases same : other = tuple
    · simp only [same, if_true, ite_self, true_or]
    · simp only [same, if_false, false_or]
  sum := by
    intro support supported
    have later : ∀ other, TupleCounts.left (counts.insert tuple 0) other ≠ 0 → other ∈ support := by
      intro other left
      rw [left_insert] at left
      split at left
      · exact absurd rfl left
      · exact supported other left
    rw [List.map_cons, List.sum_cons, add_assoc, rest.sum support later, ← nsmul_eq_mul]
    exact fractions_insert counts (supported tuple some)

/-- Rows are charged when no tuple meets the challenge. -/
theorem chargeRows_charged {rows : List (Bool × Scalar curve)} {counts : TupleCounts curve}
    (apart : ∀ row ∈ rows, gamma - row.2 ≠ 0)
    (small : ∀ tuple, TupleCounts.left counts tuple < 2 ^ 64) :
    ∃ charged after, chargeRows gamma rows counts = .ok (charged, after) ∧
      Charged gamma rows counts charged after := by
  induction rows generalizing counts with
  | nil =>
      refine ⟨[], counts, rfl, .nil, fun _ => rfl, fun _ _ => ?_⟩
      rw [List.map_nil, List.sum_nil, zero_add]
  | cons row rows hypothesis =>
      obtain ⟨active, tuple⟩ := row
      obtain ⟨here, others⟩ := List.forall_mem_cons.1 apart
      by_cases idle : active = false ∨ TupleCounts.left counts tuple = 0
      · obtain ⟨charged, after, done, spec⟩ := hypothesis others small
        refine ⟨(0, 0) :: charged, after, ?_, spec.idle idle⟩
        rw [chargeRows, done]
        rcases idle with inactive | spent
        · rw [if_pos inactive]
          rfl
        · rw [TupleCounts.left] at spent
          simp only [spent, if_true]
          split <;> rfl
      · obtain ⟨isActive, some⟩ := not_or.1 idle
        obtain rfl := Bool.not_eq_false _ ▸ isActive
        have later : ∀ other, TupleCounts.left (counts.insert tuple 0) other < 2 ^ 64 := by
          intro other
          rw [left_insert]
          split
          · exact Nat.two_pow_pos 64
          · exact small other
        obtain ⟨charged, after, done, spec⟩ := hypothesis others later
        have multiplicity : Scalar.fromU64 (BitVec.ofNat 64 (TupleCounts.left counts tuple)) =
            (TupleCounts.left counts tuple : Scalar curve) := by
          rw [Scalar.fromU64, BitVec.toNat_ofNat, Nat.mod_eq_of_lt (small tuple)]
        refine ⟨_, after, ?_, spec.charge some here⟩
        have some' : (counts.lookup tuple).getD 0 ≠ 0 := some
        rw [← multiplicity, chargeRows]
        simp only [Bool.true_eq_false, if_false]
        rw [if_neg some', if_neg here, done]
        rfl

end Charging

/-! Running sums. -/

section Sums

variable {curve : CurveType}

@[simp]
theorem length_sumsBefore (start : Scalar curve) (f : List (Scalar curve)) :
    (sumsBefore start f).length = f.length := by
  induction f generalizing start with
  | nil => rfl
  | cons value f hypothesis => rw [sumsBefore, List.length_cons, List.length_cons, hypothesis]

theorem getD_sumsBefore (start : Scalar curve) {f : List (Scalar curve)} {i : ℕ}
    (inside : i < f.length) : (sumsBefore start f).getD i 0 = start + (f.take i).sum := by
  induction f generalizing start i with
  | nil => exact absurd inside (Nat.not_lt_zero i)
  | cons value f hypothesis =>
      cases i with
      | zero => rw [sumsBefore, List.getD_cons_zero, List.take_zero, List.sum_nil, add_zero]
      | succ i =>
          rw [sumsBefore, List.getD_cons_succ, hypothesis _ (Nat.lt_of_succ_lt_succ inside),
            List.take_succ_cons, List.sum_cons, add_assoc]

theorem sum_take_succ (f : List (Scalar curve)) (i : ℕ) :
    (f.take (i + 1)).sum = (f.take i).sum + f.getD i 0 := by
  rw [List.take_add_one, List.sum_append, List.getD_eq_getElem?_getD]
  cases f[i]? with
  | none => rfl
  | some value => exact congrArg _ (List.sum_singleton)

theorem closureOf_sumsBefore (f : List (Scalar curve)) : closureOf (sumsBefore 0 f) f = f.sum := by
  rw [closureOf]
  split
  · rename_i some
    rw [getD_sumsBefore 0 (Nat.sub_lt some Nat.one_pos), zero_add, ← sum_take_succ,
      Nat.sub_add_cancel some, List.take_length]
  · rename_i none
    rw [List.eq_nil_of_length_eq_zero (Nat.eq_zero_of_not_pos none), List.sum_nil]

end Sums

/-! The witness. -/

section Sides

variable {curve : CurveType}

/-- The rows of one side of a lookup. -/
def sideRows (trace : TracePolynomials curve) (beta : Scalar curve) (columns : List (BitVec 64))
    (selector : Option (BitVec 64)) : List (Bool × Scalar curve) :=
  (List.range trace.paddedSize.toNat).map fun row =>
    (decide (trace.Selected selector row), trace.encode beta columns row)

theorem mem_activeTuples_sideRows {trace : TracePolynomials curve} {beta : Scalar curve}
    {columns : List (BitVec 64)} {selector : Option (BitVec 64)} {tuple : Scalar curve} :
    tuple ∈ activeTuples (sideRows trace beta columns selector) ↔
      ∃ row < trace.paddedSize.toNat, trace.Selected selector row ∧
        trace.encode beta columns row = tuple := by
  simp only [activeTuples, sideRows, List.mem_map, List.mem_filter, List.mem_range]
  constructor
  · rintro ⟨_, ⟨⟨row, inside, rfl⟩, selected⟩, rfl⟩
    simp only [decide_eq_true_eq] at selected
    exact ⟨row, inside, selected, rfl⟩
  · rintro ⟨row, inside, selected, rfl⟩
    refine ⟨_, ⟨⟨row, inside, rfl⟩, ?_⟩, rfl⟩
    simp only [decide_eq_true_eq]
    exact selected

theorem zip_sideRows (trace : TracePolynomials curve) (beta : Scalar curve)
    (columns : List (BitVec 64)) (selector : Option (BitVec 64)) :
    ((List.range trace.paddedSize.toNat).map fun row =>
        decide (trace.Selected selector row)).zip
      ((List.range trace.paddedSize.toNat).map (trace.encode beta columns)) =
      sideRows trace beta columns selector :=
  List.zip_map'

/-- Counts of rows fit a machine word. -/
theorem left_countTuples_lt (trace : TracePolynomials curve) (beta : Scalar curve)
    (columns : List (BitVec 64)) (selector : Option (BitVec 64)) (tuple : Scalar curve) :
    TupleCounts.left (countTuples (sideRows trace beta columns selector)) tuple < 2 ^ 64 := by
  rw [left_countTuples]
  calc (activeTuples (sideRows trace beta columns selector)).count tuple
      ≤ (activeTuples (sideRows trace beta columns selector)).length := List.count_le_length
    _ ≤ (sideRows trace beta columns selector).length := by
        rw [activeTuples, List.length_map]
        exact List.length_filter_le _ _
    _ = trace.paddedSize.toNat := by rw [sideRows, List.length_map, List.length_range]
    _ < 2 ^ 64 := trace.paddedSize.isLt

/-- What a descriptor has to name: columns that exist, at least one on each side,
and as many on one side as on the other. -/
structure CrossAirLogUpDescriptor.Shaped (desc : CrossAirLogUpDescriptor)
    (traceA traceB : TracePolynomials curve) : Prop where
  some : desc.aColumns ≠ []
  length : desc.aColumns.length = desc.bColumns.length
  sideA : traceA.Has desc.aColumns desc.aSelectorColumn
  sideB : traceB.Has desc.bColumns desc.bSelectorColumn

theorem CrossAirLogUpDescriptor.Shaped.noneEmpty {desc : CrossAirLogUpDescriptor}
    {traceA traceB : TracePolynomials curve} (shaped : desc.Shaped traceA traceB) :
    ¬ (desc.aColumns.isEmpty ∨ desc.bColumns.isEmpty) := by
  rw [List.isEmpty_iff, List.isEmpty_iff, ← @List.length_eq_zero_iff _ desc.bColumns]
  rw [← shaped.length, List.length_eq_zero_iff, or_self]
  exact shaped.some

end Sides

section Witness

variable {curve : CurveType} [Fact curve.order.Prime] {gamma : Scalar curve}

def inverses (gamma : Scalar curve) (rows : List (Bool × Scalar curve)) : List (Scalar curve) :=
  rows.map fun row => if row.1 then (gamma - row.2)⁻¹ else 0

theorem mapM_inverseOf {rows : List (Bool × Scalar curve)}
    (apart : ∀ row ∈ rows, gamma - row.2 ≠ 0) :
    rows.mapM (inverseOf gamma) = .ok (inverses gamma rows) := by
  induction rows with
  | nil => rfl
  | cons row rows hypothesis =>
      obtain ⟨here, others⟩ := List.forall_mem_cons.1 apart
      have first : inverseOf gamma row = .ok (if row.1 then (gamma - row.2)⁻¹ else 0) := by
        rw [inverseOf, if_neg here]
        split <;> rfl
      rw [List.mapM_cons, first, hypothesis others]
      rfl

theorem sum_inverses (rows : List (Bool × Scalar curve)) :
    (inverses gamma rows).sum = TupleCounts.fractions (countTuples rows) gamma
      (activeTuples rows).toFinset := by
  have listed : (inverses gamma rows).sum =
      ((activeTuples rows).map fun tuple => (gamma - tuple)⁻¹).sum := by
    induction rows with
    | nil => rfl
    | cons row rows hypothesis =>
        simp only [inverses, activeTuples, List.map_cons, List.sum_cons,
          List.filter_cons] at hypothesis ⊢
        rw [hypothesis]
        split
        · rw [List.map_cons, List.map_cons, List.sum_cons]
        · exact zero_add _
  rw [listed, Finset.sum_list_map_count, TupleCounts.fractions]
  simp only [left_countTuples]

/-- The challenge is no tuple of a side. -/
def Apart (gamma : Scalar curve) (trace : TracePolynomials curve) (beta : Scalar curve)
    (columns : List (BitVec 64)) : Prop :=
  ∀ row < trace.paddedSize.toNat, gamma ≠ trace.encode beta columns row

theorem Apart.sideRows {trace : TracePolynomials curve} {beta : Scalar curve}
    {columns : List (BitVec 64)} (apart : Apart gamma trace beta columns)
    (selector : Option (BitVec 64)) :
    ∀ row ∈ sideRows trace beta columns selector, gamma - row.2 ≠ 0 := by
  intro row member
  obtain ⟨index, inside, rfl⟩ := List.mem_map.1 member
  exact sub_ne_zero.2 (apart index (List.mem_range.1 inside))

variable {traceA traceB : TracePolynomials curve} {desc : CrossAirLogUpDescriptor}
variable {beta : Scalar curve}

/-- The witness that is made from the charged rows. -/
def witnessOf (gamma : Scalar curve) (rowsA rowsB : List (Bool × Scalar curve))
    (charged : List (Scalar curve × Scalar curve)) : CrossAirLogUpWitness curve where
  airA :=
    { tupleColumn := rowsA.map Prod.snd
      fColumn := inverses gamma rowsA
      mColumn := List.replicate rowsA.length 0
      hColumn := sumsBefore 0 (inverses gamma rowsA) }
  airB :=
    { tupleColumn := rowsB.map Prod.snd
      fColumn := charged.map Prod.snd
      mColumn := charged.map Prod.fst
      hColumn := sumsBefore 0 (charged.map Prod.snd) }
  closureA := (inverses gamma rowsA).sum
  closureB := (charged.map Prod.snd).sum

/-- The function ends with the witness of the charged rows, or finds a tuple that
is not in the table. -/
theorem computeCrossAirLogupWitness_spec (shaped : desc.Shaped traceA traceB)
    (apartA : Apart gamma traceA beta desc.aColumns)
    (apartB : Apart gamma traceB beta desc.bColumns) :
    ∃ charged after,
      Charged gamma (sideRows traceB beta desc.bColumns desc.bSelectorColumn)
        (countTuples (sideRows traceA beta desc.aColumns desc.aSelectorColumn)) charged after ∧
      ∀ witness, computeCrossAirLogupWitness traceA traceB desc beta gamma = .ok witness ↔
        (∀ tuple, TupleCounts.left after tuple = 0) ∧
          witness = witnessOf gamma (sideRows traceA beta desc.aColumns desc.aSelectorColumn)
            (sideRows traceB beta desc.bColumns desc.bSelectorColumn) charged := by
  obtain ⟨charged, after, done, spec⟩ := chargeRows_charged
    (apartB.sideRows desc.bSelectorColumn)
    (left_countTuples_lt traceA beta desc.aColumns desc.aSelectorColumn)
  refine ⟨charged, after, spec, fun witness => ?_⟩
  have sameLength : ¬ desc.aColumns.length ≠ desc.bColumns.length := not_not.2 shaped.length
  rw [computeCrossAirLogupWitness, if_neg shaped.noneEmpty, if_neg sameLength]
  simp only [buildTupleColumn_eq shaped.sideA.1, buildTupleColumn_eq shaped.sideB.1,
    buildActiveColumn_eq shaped.sideA.2, buildActiveColumn_eq shaped.sideB.2, orPanic, bind,
    Except.bind, zip_sideRows, mapM_inverseOf (apartA.sideRows desc.aSelectorColumn), done]
  have tuples : ∀ (trace : TracePolynomials curve) columns selector,
      (List.range trace.paddedSize.toNat).map (trace.encode beta columns) =
        (sideRows trace beta columns selector).map Prod.snd := by
    intro trace columns selector
    rw [sideRows, List.map_map]
    rfl
  split
  · rename_i left
    constructor
    · rintro ⟨⟩
    · rintro ⟨none, _⟩
      exact absurd left (Nat.not_lt.2 ((sum_entries_eq_zero after).2 none).le)
  · rename_i left
    have none := (sum_entries_eq_zero after).1 (Nat.le_zero.1 (Nat.not_lt.1 left))
    rw [and_iff_right none, Except.ok.injEq, closureOf_sumsBefore, closureOf_sumsBefore,
      tuples traceA _ desc.aSelectorColumn, tuples traceB _ desc.bSelectorColumn, witnessOf,
      sideRows, sideRows, List.length_map, List.length_range, @eq_comm _ witness]

/-- Nothing is left exactly when every tuple that is looked up is in the table. -/
theorem Charged.none_left_iff {after : TupleCounts curve}
    {charged : List (Scalar curve × Scalar curve)} {rowsA rowsB : List (Bool × Scalar curve)}
    (spec : Charged gamma rowsB (countTuples rowsA) charged after) :
    (∀ tuple, TupleCounts.left after tuple = 0) ↔
      ∀ tuple ∈ activeTuples rowsA, tuple ∈ activeTuples rowsB := by
  constructor
  · intro none tuple looked
    by_contra missing
    have left := none tuple
    rw [spec.left, if_neg missing, left_countTuples] at left
    exact absurd looked (List.count_eq_zero.1 left)
  · intro known tuple
    rw [spec.left]
    split
    · rfl
    · rename_i missing
      rw [left_countTuples]
      exact List.count_eq_zero.2 fun looked => missing (known tuple looked)

/-- Both sums are the same when nothing is left. -/
theorem Charged.closure_eq {after : TupleCounts curve}
    {charged : List (Scalar curve × Scalar curve)} {rowsA rowsB : List (Bool × Scalar curve)}
    (spec : Charged gamma rowsB (countTuples rowsA) charged after)
    (none : ∀ tuple, TupleCounts.left after tuple = 0) :
    (inverses gamma rowsA).sum = (charged.map Prod.snd).sum := by
  have moved := spec.sum (activeTuples rowsA).toFinset (by
    intro tuple left
    rw [left_countTuples] at left
    exact List.mem_toFinset.2 (List.count_pos_iff.1 (Nat.pos_of_ne_zero left)))
  have spent : TupleCounts.fractions after gamma (activeTuples rowsA).toFinset = 0 := by
    apply Finset.sum_eq_zero
    intro tuple _
    rw [none, zero_smul]
  rw [sum_inverses, ← moved, spent, add_zero]

end Witness

end MetaVm.Zkp
