import MetaVm.Lib.RunningSum
import MetaVm.Zkp.Field

namespace MetaVm.Zkp

/-! Range checks. A column is cut into byte limbs, and a running sum of
fractions around the domain compares the limbs with the table of bytes. -/

abbrev Byte : Type := BitVec 8

/-- A column to check, on the rows where its selector is one. -/
structure LookupDeclaration where
  columnIndex : ℕ
  maxBits : BitVec 32
  selectorColumn : Option ℕ
deriving DecidableEq, Repr

/-- Declarations with the index of their table. -/
structure LookupRequirements where
  declarations : List (LookupDeclaration × ℕ)

/-- Declarations that share a column and a width. -/
structure LogUpGroup where
  columnIndex : ℕ
  maxBits : BitVec 32
  selectors : List ℕ
  distinct : selectors.Nodup

def LogUpGroup.numLimbs (group : LogUpGroup) : ℕ := (group.maxBits.toNat + 7) / 8

/-! Grouping goes through an ordered map from column and width to selectors. -/

abbrev GroupKey : Type := ℕ × BitVec 32

def GroupKey.less (first second : GroupKey) : Bool :=
  first.1 < second.1 || (first.1 == second.1 && first.2 < second.2)

abbrev SelectorSet : Type := { selectors : List ℕ // selectors.Nodup }

namespace SelectorSet

def empty : SelectorSet := ⟨[], List.nodup_nil⟩

/-- Push a selector that is not there yet. -/
def push (set : SelectorSet) (selector : ℕ) : SelectorSet :=
  if present : set.1.contains selector then set
  else ⟨set.1 ++ [selector], by
    rw [List.nodup_append]
    refine ⟨set.2, List.nodup_singleton _, fun a member b single equal => present ?_⟩
    rw [← List.mem_singleton.1 single, ← equal]
    exact List.contains_iff_mem.2 member⟩

theorem mem_push {set : SelectorSet} {selector other : ℕ}
    (member : other ∈ (set.push selector).1) : other ∈ set.1 ∨ other = selector := by
  unfold push at member
  split at member
  · exact .inl member
  · exact (List.mem_append.1 member).imp_right List.mem_singleton.1

end SelectorSet

/-- The entry of a key, made empty when it is missing, and then updated. -/
def updateEntry (key : GroupKey) (update : SelectorSet → SelectorSet) :
    List (GroupKey × SelectorSet) → List (GroupKey × SelectorSet)
  | [] => [(key, update .empty)]
  | (other, set) :: rest =>
      if key.less other then (key, update .empty) :: (other, set) :: rest
      else if key = other then (other, update set) :: rest
      else (other, set) :: updateEntry key update rest

def insertDeclaration (groups : List (GroupKey × SelectorSet))
    (decl : LookupDeclaration) : List (GroupKey × SelectorSet) :=
  updateEntry (decl.columnIndex, decl.maxBits)
    (fun set =>
      match decl.selectorColumn with
      | some selector => set.push selector
      | none => set) groups

def groupDeclarations (reqs : LookupRequirements) : List LogUpGroup :=
  let groups := reqs.declarations.foldl
    (fun groups entry => insertDeclaration groups entry.1) []
  groups.map fun (key, set) => ⟨key.1, key.2, set.1, set.2⟩

def totalNumLimbs (groups : List LogUpGroup) : ℕ := (groups.map (·.numLimbs)).sum

/-- The columns that select rows for some declaration. -/
def LookupRequirements.selectorColumns (reqs : LookupRequirements) : List ℕ :=
  reqs.declarations.filterMap (·.1.selectorColumn)

/-! The table of bytes. -/

abbrev rangeTableSize : ℕ := 256

/-- A row of the table column, zero below the table. -/
def rangeTable {K : Type} [NatCast K] (row : ℕ) : K :=
  if row < rangeTableSize then (row : K) else (0 : ℕ)

/-! Bytes of a cell. -/

/-- The byte of a number at a position, the lowest first. -/
def byteAt (value position : ℕ) : Byte := BitVec.ofNat 8 (value / 256 ^ position)

def decomposeToBytes (value : BitVec 64) (limb : ℕ) : Byte :=
  if limb < 8 then byteAt value.toNat limb else 0

/-- A serialised scalar: one curve library writes the highest byte first, the
other the lowest. -/
def Scalar.toBytes {curve : CurveType} (value : Scalar curve) : List Byte :=
  match curve with
  | .bls48581 _ => ((List.range 73).map (byteAt value.val)).reverse
  | .bls12381 => (List.range 32).map (byteAt value.val)

/-- The limb counted from the last serialised byte. -/
def decomposeScalarToBytes {curve : CurveType} (value : Scalar curve) (limb : ℕ) :
    Byte :=
  let bytes := value.toBytes
  if limb < bytes.length then bytes.getD (bytes.length - 1 - limb) 0 else 0

/-- The limbs of a cell, through a machine word when the group is narrow. -/
def limbBytes {curve : CurveType} (group : LogUpGroup) (value : Scalar curve) :
    ℕ → Byte :=
  if group.maxBits ≤ 64 then decomposeToBytes (Scalar.toU64 value)
  else decomposeScalarToBytes value

/-! The columns of the argument, one row at a time. -/

/-- The cells of one row: limbs and their inverses by group and position, the
table with its inverse, the running sum and the multiplicity. -/
structure LogUpRow (K : Type) where
  limb : ℕ → ℕ → K
  inverse : ℕ → ℕ → K
  table : K
  tableInverse : K
  sum : K
  multiplicity : K

section Bodies

variable {K : Type} [Field K]

/-- The numbers that base `base` digits stand for. -/
def recompose (base numLimbs : ℕ) (limb : ℕ → K) : K :=
  ∑ k ∈ Finset.range numLimbs, limb k * (base : K) ^ k

def evaluateDecomposition (value recomposed : K) (selector : Option K) : K :=
  let diff := value - recomposed
  match selector with
  | some sel => sel * diff
  | none => diff

def evaluateInverse (f value gamma : K) : K := f * (gamma - value) - 1

def evaluateTransition (h hNext : K) (activeAndFs : List (K × K)) (m tableInverse : K) :
    K :=
  hNext - h - (activeAndFs.map fun (active, fSum) => active * fSum).sum +
    m * tableInverse

/-- The sum of the selectors that gate a group, if there are any. -/
def selectorSum (selectors : List ℕ) (row : ℕ → K) : Option K :=
  if selectors.isEmpty then none else some (selectors.map row).sum

def activeAt (selectors : List ℕ) (row : ℕ → K) : K :=
  (selectorSum selectors row).getD 1

/-- The Lagrange polynomial of the first row, by its quotient form. -/
def lagrangeFirst [DecidableEq K] (domainSize : ℕ) (z : K) : K :=
  let denominator := (domainSize : K) * (z - 1)
  if denominator = 0 then 1 else (z ^ domainSize - 1) * denominator⁻¹

/-- The bodies of the range checks, in the order of their powers. -/
def logupBodies (groups : List LogUpGroup) (gamma lagrange : K) (row : ℕ → K)
    (cells : LogUpRow K) (nextSum : K) : List K :=
  (groups.zipIdx.map fun (group, g) =>
    evaluateDecomposition (row group.columnIndex)
      (recompose 256 group.numLimbs (cells.limb g))
      (selectorSum group.selectors row)) ++
  [lagrange * cells.sum] ++
  (groups.zipIdx.flatMap fun (group, g) =>
    (List.range group.numLimbs).map fun k =>
      evaluateInverse (cells.inverse g k) (cells.limb g k) gamma) ++
  [evaluateInverse cells.tableInverse cells.table gamma,
    evaluateTransition cells.sum nextSum
      (groups.zipIdx.map fun (group, g) =>
        (activeAt group.selectors row,
          ∑ k ∈ Finset.range group.numLimbs, cells.inverse g k))
      cells.multiplicity cells.tableInverse]

end Bodies

/-! The columns that the prover computes. -/

section Witness

variable {F : Type} [Zero F] [DecidableEq F]

/-- Whether a group looks up its limbs on a row. -/
def groupActive (selectors : List ℕ) (row : ℕ → F) : Bool :=
  selectors.isEmpty || selectors.any fun sel => row sel ≠ 0

variable (bytes : LogUpGroup → F → ℕ → Byte) (trace : ℕ → ℕ → F)
  (groups : List LogUpGroup) (domainSize : ℕ)

/-- Every byte that is looked up, over the whole domain. -/
def activeBytes : List Byte :=
  groups.flatMap fun group =>
    (List.range domainSize).flatMap fun row =>
      if groupActive group.selectors (trace row) then
        (List.range group.numLimbs).map
          (bytes group (trace row group.columnIndex))
      else []

variable {K : Type} [Field K] [DecidableEq K] (gamma : K)

def multiplicityAt (row : ℕ) : K :=
  if row < rangeTableSize then
    ((activeBytes bytes trace groups domainSize).count (BitVec.ofNat 8 row) : K)
  else 0

/-- The inverse that is added for a limb, or nothing when there is none. -/
def guardedInverse (value : K) : K :=
  if gamma - value = 0 then 0 else (gamma - value)⁻¹

/-- What one row adds to the running sum. -/
def sumStep (row : ℕ) : K :=
  (groups.map fun group =>
    if groupActive group.selectors (trace row) then
      ∑ k ∈ Finset.range group.numLimbs, guardedInverse gamma
        ((bytes group (trace row group.columnIndex) k).toNat : K)
    else 0).sum -
  multiplicityAt bytes trace groups domainSize row * guardedInverse gamma (row : K)

def runningSum : ℕ → K
  | 0 => 0
  | row + 1 =>
      runningSum row + sumStep bytes trace groups domainSize gamma row

/-- The columns of the range checks at a row, for limbs that `bytes` cuts off
the cells. -/
def extendedLogupWitness (row : ℕ) : LogUpRow K where
  limb g k := ((groups[g]?.elim 0 fun group =>
    bytes group (trace row group.columnIndex) k).toNat : K)
  inverse g k := (gamma - ((groups[g]?.elim 0 fun group =>
    bytes group (trace row group.columnIndex) k).toNat : K))⁻¹
  table := rangeTable row
  tableInverse := (gamma - rangeTable row)⁻¹
  sum := runningSum bytes trace groups domainSize gamma row
  multiplicity := multiplicityAt bytes trace groups domainSize row

end Witness

/-- The columns that the prover commits to. -/
def computeExtendedLogupWitness {curve : CurveType} (trace : ℕ → ℕ → Scalar curve)
    (groups : List LogUpGroup) {K : Type} [Field K] [DecidableEq K] (gamma : K)
    (domainSize row : ℕ) : LogUpRow K :=
  extendedLogupWitness limbBytes trace groups domainSize gamma row

end MetaVm.Zkp

namespace MetaVm.Zkp

open RunningSum

/-! What vanishing bodies say about the rows of a domain. -/

section Selectors

/-- At most one of the selector columns is one on a row; the others are zero. -/
def HotRow {F : Type} [Zero F] [One F] (active : Option ℕ) (columns : List ℕ)
    (row : ℕ → F) : Prop :=
  ∀ column ∈ columns, row column = if active = some column then 1 else 0

/-- Whether selectors mark a row whose active selector is known. -/
def marked (selectors : List ℕ) (active : Option ℕ) : Bool :=
  selectors.isEmpty || selectors.any fun sel => active == some sel

variable {F : Type} [Field F] {active : Option ℕ} {selectors : List ℕ} {row : ℕ → F}

theorem HotRow.mono {columns : List ℕ} (hot : HotRow active columns row)
    (inside : selectors ⊆ columns) : HotRow active selectors row :=
  fun column member => hot column (inside member)

theorem HotRow.sum_eq (hot : HotRow active selectors row) (distinct : selectors.Nodup) :
    (selectors.map row).sum =
      if selectors.any fun sel => active == some sel then 1 else 0 := by
  induction selectors with
  | nil => simp
  | cons sel rest hypothesis =>
      obtain ⟨fresh, distinct⟩ := List.nodup_cons.1 distinct
      have here := hot sel List.mem_cons_self
      have below := hypothesis (hot.mono (List.subset_cons_self _ _)) distinct
      rw [List.map_cons, List.sum_cons, below, here, List.any_cons]
      by_cases same : active = some sel
      · simp [same, fresh]
      · simp [same]

theorem HotRow.activeAt_eq (hot : HotRow active selectors row)
    (distinct : selectors.Nodup) :
    activeAt selectors row = if marked selectors active then 1 else 0 := by
  cases selectors with
  | nil => rfl
  | cons sel rest =>
      have gated : activeAt (sel :: rest) row = ((sel :: rest).map row).sum := rfl
      rw [gated, hot.sum_eq distinct]
      rfl

theorem HotRow.groupActive_eq [DecidableEq F] (hot : HotRow active selectors row) :
    groupActive selectors row = marked selectors active := by
  rw [groupActive, marked]
  congr 1
  rw [Bool.eq_iff_iff, List.any_eq_true, List.any_eq_true]
  refine exists_congr fun sel => and_congr_right fun member => ?_
  rw [hot sel member]
  by_cases same : active = some sel <;> simp [same]

theorem activeAt_map {K : Type} [Field K] (embed : F →+* K) (selectors : List ℕ)
    (row : ℕ → F) :
    activeAt selectors (fun column => embed (row column)) =
      embed (activeAt selectors row) := by
  cases selectors with
  | nil => exact (map_one embed).symm
  | cons sel rest =>
      have split : ((sel :: rest).map fun column => embed (row column)) =
          ((sel :: rest).map row).map embed := by
        rw [List.map_map]
        rfl
      show ((sel :: rest).map fun column => embed (row column)).sum =
        embed ((sel :: rest).map row).sum
      rw [split, ← map_list_sum]

end Selectors

section Lagrange

variable {K : Type} [Field K] [DecidableEq K]

@[simp]
theorem lagrangeFirst_one (domainSize : ℕ) : lagrangeFirst domainSize (1 : K) = 1 := by
  simp [lagrangeFirst]

theorem lagrangeFirst_of_root {domainSize : ℕ} {z : K} (nonzero : (domainSize : K) ≠ 0)
    (root : z ^ domainSize = 1) (other : z ≠ 1) : lagrangeFirst domainSize z = 0 := by
  have denominator : (domainSize : K) * (z - 1) ≠ 0 :=
    mul_ne_zero nonzero (sub_ne_zero.2 other)
  rw [lagrangeFirst, if_neg denominator, root, sub_self, zero_mul]

end Lagrange

section Rows

variable {K : Type} [Field K] {groups : List LogUpGroup} {gamma lagrange : K}
  {row : ℕ → K} {cells : LogUpRow K} {nextSum : K}

/-- The bodies of the range checks vanish on a row. -/
structure LogUpRowHolds (groups : List LogUpGroup) (gamma lagrange : K) (row : ℕ → K)
    (cells : LogUpRow K) (nextSum : K) : Prop where
  decomposition : ∀ entry ∈ groups.zipIdx,
    activeAt entry.1.selectors row * (row entry.1.columnIndex -
      recompose 256 entry.1.numLimbs (cells.limb entry.2)) = 0
  boundary : lagrange * cells.sum = 0
  inverse : ∀ entry ∈ groups.zipIdx, ∀ k < entry.1.numLimbs,
    cells.inverse entry.2 k * (gamma - cells.limb entry.2 k) = 1
  tableInverse : cells.tableInverse * (gamma - cells.table) = 1
  transition : nextSum - cells.sum =
    (groups.zipIdx.map fun entry => activeAt entry.1.selectors row *
      ∑ k ∈ Finset.range entry.1.numLimbs, cells.inverse entry.2 k).sum -
      cells.multiplicity * cells.tableInverse

theorem evaluateDecomposition_eq (value recomposed : K) (selectors : List ℕ) :
    evaluateDecomposition value recomposed (selectorSum selectors row) =
      activeAt selectors row * (value - recomposed) := by
  cases selectors with
  | nil => exact (one_mul _).symm
  | cons sel rest => rfl

theorem map_recompose {F : Type} [Field F] (embed : F →+* K) (base numLimbs : ℕ)
    (limb : ℕ → F) :
    embed (recompose base numLimbs limb) =
      recompose base numLimbs fun k => embed (limb k) := by
  rw [recompose, recompose, map_sum]
  apply Finset.sum_congr rfl
  intro k _
  rw [map_mul, map_pow, map_natCast]

theorem evaluateInverse_eq_zero_iff (f value : K) :
    evaluateInverse f value gamma = 0 ↔ f * (gamma - value) = 1 := sub_eq_zero

theorem logupBodies_vanish_iff :
    (∀ body ∈ logupBodies groups gamma lagrange row cells nextSum, body = 0) ↔
      LogUpRowHolds groups gamma lagrange row cells nextSum := by
  simp only [logupBodies, List.forall_mem_append, List.forall_mem_map,
    List.forall_mem_singleton, List.forall_mem_cons, List.forall_mem_flatMap,
    List.mem_range, evaluateDecomposition_eq, evaluateInverse_eq_zero_iff]
  constructor
  · rintro ⟨⟨⟨decomposition, boundary⟩, inverse⟩, tableInverse, transition⟩
    refine ⟨decomposition, boundary, inverse, tableInverse, ?_⟩
    rw [evaluateTransition, List.map_map] at transition
    rw [← sub_eq_zero, ← transition]
    simp only [Function.comp_def]
    ring
  · intro holds
    refine ⟨⟨⟨holds.decomposition, holds.boundary⟩, holds.inverse⟩,
      holds.tableInverse, ?_⟩
    have transition := holds.transition
    rw [evaluateTransition, List.map_map, transition]
    simp only [Function.comp_def]
    ring

end Rows

end MetaVm.Zkp
