import MetaVm.Lib.GrandProduct
import MetaVm.Zkp.Lookup

namespace MetaVm.Zkp

/-! Permutation arguments. The accesses of a trace and a sorted table of them
are compared by running products of weighted tuples. -/

/-- One access: an address, its values, when it happened and whether it wrote. -/
structure Access (K : Type) where
  addr : K
  values : ℕ → K
  timestamp : K
  rw : K

def Access.map {F K : Type} (f : F → K) (access : Access F) : Access K where
  addr := f access.addr
  values v := f (access.values v)
  timestamp := f access.timestamp
  rw := f access.rw

section Tuples

variable {K : Type} [Field K] (gamma delta : K) (numValues : ℕ)

/-- Several values take every fourth power, to stay clear of the other
components. -/
def combineValues (values : ℕ → K) : K :=
  if numValues = 1 then values 0
  else
    ∑ v ∈ Finset.range numValues, (delta * delta * (delta * delta)) ^ v * values v

def computeTupleHash (access : Access K) : K :=
  gamma + access.addr + delta * combineValues delta numValues access.values +
    delta * delta * access.timestamp + delta * delta * delta * access.rw

end Tuples

/-! Memory. -/

/-- The columns of a trace that hold its memory accesses. -/
structure MemoryColumns where
  addrCol : ℕ
  valCols : List ℕ
  loadSels : List ℕ
  storeSels : List ℕ
  distinct : (loadSels ++ storeSels).Nodup
  apart : ∀ col ∈ valCols, col ≠ addrCol ∧ col ∉ loadSels ++ storeSels

/-- The committed columns of the memory permutation at a row, but for the
running product. -/
structure MemoryRow (K : Type) where
  sorted : Access K
  isSameAddr : K
  invAddrDiff : K
  originalTs : K

def MemoryRow.map {F K : Type} (f : F → K) (cells : MemoryRow F) : MemoryRow K where
  sorted := cells.sorted.map f
  isSameAddr := f cells.isSameAddr
  invAddrDiff := f cells.invAddrDiff
  originalTs := f cells.originalTs

section Bodies

variable {K : Type} [Field K]

/-- The bodies of the sorted table, in the order of their powers. -/
def permutationBodies (numValColumns : ℕ) (exclusion : K) (cells shifted : MemoryRow K) :
    List K :=
  let addrDiff := shifted.sorted.addr - cells.sorted.addr
  [cells.isSameAddr * (cells.isSameAddr - 1),
    shifted.isSameAddr * addrDiff * exclusion,
    (1 - shifted.isSameAddr) * (1 - addrDiff * shifted.invAddrDiff) * exclusion] ++
  (List.range numValColumns).map fun v =>
    shifted.isSameAddr * (1 - shifted.sorted.rw) *
      (shifted.sorted.values v - cells.sorted.values v) * exclusion

/-- The address of rows that do not access memory. -/
def sentinel : K := ((2 ^ 64 - 1 : ℕ) : K)

/-- The access that the columns of a trace hold on a row. -/
def MemoryColumns.accessAt (columns : MemoryColumns) (row : ℕ → K) (originalTs : K) :
    Access K :=
  let rw := (columns.storeSels.map row).sum
  let realMem := rw + (columns.loadSels.map row).sum
  { addr := realMem * row columns.addrCol + (1 - realMem) * sentinel
    values v := (columns.valCols[v]?.map row).getD 0
    timestamp := originalTs
    rw }

/-- The bodies of the running product, in the order of their powers. -/
def grandProductBodies (gamma delta : K) (columns : MemoryColumns) (lagrange : K)
    (row : ℕ → K) (cells : MemoryRow K) (z zShifted : K) : List K :=
  [zShifted * computeTupleHash gamma delta columns.valCols.length cells.sorted -
      z * computeTupleHash gamma delta columns.valCols.length
        (columns.accessAt row cells.originalTs),
    lagrange * (z - 1)]

end Bodies

/-! Registers. -/

/-- A port that reads or writes a register on every row. -/
structure RegisterPort where
  regCol : ℕ
  valCol : ℕ
  isWrite : Bool
deriving DecidableEq, Repr

/-- The ports of a system. Every port has a value column of its own. -/
structure RegisterPorts where
  list : List RegisterPort
  distinct : (list.map (·.valCol)).Nodup
  apart : ∀ port ∈ list, ∀ other ∈ list, port.valCol ≠ other.regCol

/-- The committed columns of the register permutation at a row, by lane where
there are several, but for the running product. -/
structure RegisterRow (K : Type) where
  sorted : ℕ → Access K
  isSameReg : ℕ → K
  invRegDiff : ℕ → K
  rowTs : K

def RegisterRow.map {F K : Type} (f : F → K) (cells : RegisterRow F) : RegisterRow K where
  sorted lane := (cells.sorted lane).map f
  isSameReg lane := f (cells.isSameReg lane)
  invRegDiff lane := f (cells.invRegDiff lane)
  rowTs := f cells.rowTs

section RegisterBodies

variable {K : Type} [Field K]

/-- The bodies of one lane of the sorted table. -/
def laneBodies (exclusion : K) (cells shifted : RegisterRow K) (lane : ℕ) : List K :=
  let regDiff := (shifted.sorted lane).addr - (cells.sorted lane).addr
  [cells.isSameReg lane * (cells.isSameReg lane - 1),
    shifted.isSameReg lane * regDiff * exclusion,
    (1 - shifted.isSameReg lane) * (1 - regDiff * cells.invRegDiff lane) * exclusion,
    shifted.isSameReg lane * (1 - (shifted.sorted lane).rw) *
      ((shifted.sorted lane).values 0 - (cells.sorted lane).values 0) * exclusion]

/-- The access of a port on a row. -/
def RegisterPort.accessAt (port : RegisterPort) (numPorts : ℕ) (row : ℕ → K) (rowTs : K)
    (portIdx : ℕ) : Access K where
  addr := row port.regCol
  values _ := row port.valCol
  timestamp := (numPorts : K) * rowTs + (portIdx : K)
  rw := if port.isWrite then 1 else 0

/-- The bodies of the register permutation, in the order of their powers. -/
def registerBodies (gamma delta : K) (ports : List RegisterPort) (exclusion lagrange : K)
    (row : ℕ → K) (cells shifted : RegisterRow K) (z zShifted : K) : List K :=
  ((List.range ports.length).flatMap (laneBodies exclusion cells shifted)) ++
  [zShifted * ((List.range ports.length).map fun lane =>
        computeTupleHash gamma delta 1 (cells.sorted lane)).prod -
      z * (ports.zipIdx.map fun (port, portIdx) => computeTupleHash gamma delta 1
        (port.accessAt ports.length row cells.rowTs portIdx)).prod,
    lagrange * (z - 1)]

end RegisterBodies

end MetaVm.Zkp

namespace MetaVm.Zkp

open GrandProduct

/-! Equal products of tuples match the accesses one by one, when both
challenges are indeterminates. -/

variable {F L K : Type} [Field F] [Field L] [Field K] [Algebra F L] [Algebra F K]
  [Algebra L K] [IsScalarTower F L K]

/-- Two accesses have the same components. -/
structure Access.Same (numValues : ℕ) (first second : Access F) : Prop where
  addr : first.addr = second.addr
  values : ∀ v < numValues, first.values v = second.values v
  timestamp : first.timestamp = second.timestamp
  rw : first.rw = second.rw

theorem combineValues_eq (delta : K) (numValues : ℕ) (values : ℕ → K) :
    combineValues delta numValues values =
      ∑ v ∈ Finset.range numValues, (delta * delta * (delta * delta)) ^ v * values v := by
  rw [combineValues]
  split
  · rename_i single
    rw [single, Finset.sum_range_one, pow_zero, one_mul]
  · rfl

/-- The part of a tuple that the first challenge is added to. -/
def tupleRest (delta : L) (numValues : ℕ) (access : Access F) : L :=
  computeTupleHash 0 delta numValues (access.map (algebraMap F L))

theorem computeTupleHash_eq (gamma : K) (delta : L) (numValues : ℕ) (access : Access F) :
    computeTupleHash gamma (algebraMap L K delta) numValues
        (access.map (algebraMap F K)) =
      gamma + algebraMap L K (tupleRest delta numValues access) := by
  simp only [tupleRest, computeTupleHash, combineValues_eq, Access.map, map_add, map_mul,
    map_sum, map_pow, map_zero, ← IsScalarTower.algebraMap_apply]
  ring

/-- The components of an access as coefficients. -/
noncomputable def tuplePolynomial (numValues : ℕ) (access : Access F) : Polynomial F :=
  .C access.addr +
    ∑ v ∈ Finset.range numValues, .C (access.values v) * .X ^ (4 * v + 1) +
    .C access.timestamp * .X ^ 2 + .C access.rw * .X ^ 3

theorem aeval_tuplePolynomial (delta : L) (numValues : ℕ) (access : Access F) :
    Polynomial.aeval delta (tuplePolynomial numValues access) =
      tupleRest delta numValues access := by
  have powers : ∀ v, algebraMap F L (access.values v) * delta ^ (4 * v + 1) =
      delta * ((delta * delta * (delta * delta)) ^ v * algebraMap F L (access.values v)) := by
    intro v
    ring
  simp only [tuplePolynomial, tupleRest, computeTupleHash, combineValues_eq, Access.map,
    map_add, map_mul, map_sum, map_pow, Polynomial.aeval_C, Polynomial.aeval_X, zero_add,
    Finset.mul_sum, powers]
  ring

theorem coeff_tuplePolynomial (numValues : ℕ) (access : Access F) (k : ℕ) :
    (tuplePolynomial numValues access).coeff k =
      (if k = 0 then access.addr else 0) +
        ∑ v ∈ Finset.range numValues, (if k = 4 * v + 1 then access.values v else 0) +
        (if k = 2 then access.timestamp else 0) + (if k = 3 then access.rw else 0) := by
  simp only [tuplePolynomial, Polynomial.coeff_add, Polynomial.coeff_C,
    Polynomial.finsetSum_coeff, Polynomial.coeff_C_mul_X_pow]

theorem values_eq_coeff {numValues v : ℕ} (access : Access F) (inside : v < numValues) :
    (tuplePolynomial numValues access).coeff (4 * v + 1) = access.values v := by
  have term : ∀ u, (if 4 * v + 1 = 4 * u + 1 then access.values u else 0) =
      if v = u then access.values u else 0 := by
    intro u
    congr 1
    rw [Nat.succ_inj, Nat.mul_right_inj (Nat.succ_ne_zero 3)]
  rw [coeff_tuplePolynomial, if_neg (Nat.succ_ne_zero _), if_neg (by omega),
    if_neg (by omega), Finset.sum_congr rfl fun u _ => term u, Finset.sum_ite_eq,
    if_pos (Finset.mem_range.2 inside), zero_add, add_zero, add_zero]

theorem no_value_coeff (numValues : ℕ) (access : Access F) {k : ℕ} (other : k % 4 ≠ 1) :
    ∑ v ∈ Finset.range numValues, (if k = 4 * v + 1 then access.values v else 0) = 0 := by
  apply Finset.sum_eq_zero
  intro v _
  exact if_neg (by omega)

theorem tuplePolynomial_eq_iff {numValues : ℕ} {first second : Access F} :
    tuplePolynomial numValues first = tuplePolynomial numValues second ↔
      first.Same numValues second := by
  constructor
  · intro equal
    have coefficient := fun k => congrArg (fun poly => Polynomial.coeff poly k) equal
    have component : ∀ {k : ℕ}, k % 4 ≠ 1 → _ := fun {k} other => by
      have here := coefficient k
      simp only [coeff_tuplePolynomial, no_value_coeff _ _ other, add_zero] at here
      exact here
    refine ⟨?_, fun v inside => ?_, ?_, ?_⟩
    · simpa using @component 0 (by decide)
    · have here := coefficient (4 * v + 1)
      simp only [values_eq_coeff _ inside] at here
      exact here
    · simpa using @component 2 (by decide)
    · simpa using @component 3 (by decide)
  · rintro ⟨addr, values, timestamp, rw'⟩
    rw [tuplePolynomial, tuplePolynomial, addr, timestamp, rw']
    congr 3
    apply Finset.sum_congr rfl
    intro v inside
    rw [values v (Finset.mem_range.1 inside)]

theorem tupleRest_eq_iff {delta : L} (free : Transcendental F delta) {numValues : ℕ}
    {first second : Access F} :
    tupleRest delta numValues first = tupleRest delta numValues second ↔
      first.Same numValues second := by
  rw [← aeval_tuplePolynomial, ← aeval_tuplePolynomial,
    (transcendental_iff_injective.1 free).eq_iff, tuplePolynomial_eq_iff]

theorem computeTupleHash_ne_zero {gamma : K} {delta : L} (free : Transcendental L gamma)
    (numValues : ℕ) (access : Access F) :
    computeTupleHash gamma (algebraMap L K delta) numValues
      (access.map (algebraMap F K)) ≠ 0 := by
  rw [computeTupleHash_eq]
  exact add_ne_zero_of_transcendental free _

/-- Products of tuples agree exactly when the accesses can be matched. -/
theorem prod_tuples_eq_iff {gamma : K} {delta : L} (freeDelta : Transcendental F delta)
    (freeGamma : Transcendental L gamma) (numValues : ℕ) {ι : Type*} [Fintype ι]
    {first second : ι → Access F} :
    (∏ i, computeTupleHash gamma (algebraMap L K delta) numValues
        ((first i).map (algebraMap F K)) =
      ∏ i, computeTupleHash gamma (algebraMap L K delta) numValues
        ((second i).map (algebraMap F K))) ↔
      ∃ matching : Equiv.Perm ι, ∀ i, (second (matching i)).Same numValues (first i) := by
  simp only [computeTupleHash_eq]
  rw [prod_eq_iff_matching freeGamma]
  simp only [tupleRest_eq_iff freeDelta]

end MetaVm.Zkp
