import MetaVm.Lib.Chain
import MetaVm.Zkp.LookupSoundness
import MetaVm.Zkp.LookupWitness
import MetaVm.Zkp.Permutation

namespace MetaVm.Zkp

/-! The accesses of a trace and the order that a sorted table gives them. -/

section Selected

/-- Some selector of a list is on. -/
def selected {F : Type} [Zero F] [DecidableEq F] (sels : List ℕ) (row : ℕ → F) : Bool :=
  sels.any fun sel => row sel ≠ 0

variable {F : Type} [Field F] [DecidableEq F] {active : Option ℕ} {sels : List ℕ}
  {row : ℕ → F}

theorem HotRow.selected_eq (hot : HotRow active sels row) :
    selected sels row = sels.any fun sel => active == some sel := by
  rw [selected, Bool.eq_iff_iff, List.any_eq_true, List.any_eq_true]
  refine exists_congr fun sel => and_congr_right fun member => ?_
  rw [hot sel member]
  by_cases same : active = some sel <;> simp [same]

theorem HotRow.sum_selected (hot : HotRow active sels row) (distinct : sels.Nodup) :
    (sels.map row).sum = if selected sels row then 1 else 0 := by
  rw [hot.sum_eq distinct, hot.selected_eq]

/-- Selectors of disjoint lists are not on together. -/
theorem HotRow.not_selected_right {others : List ℕ}
    (hot : HotRow active (sels ++ others) row) (distinct : (sels ++ others).Nodup)
    (first : selected sels row) : selected others row = false := by
  rw [(hot.mono (List.subset_append_left _ _)).selected_eq, List.any_eq_true] at first
  obtain ⟨sel, member, here⟩ := first
  rw [(hot.mono (List.subset_append_right _ _)).selected_eq, List.any_eq_false]
  intro other listed same
  have equal : sel = other := by
    rw [beq_iff_eq] at here same
    exact Option.some_injective _ (here.symm.trans same)
  exact (List.nodup_append.1 distinct).2.2 sel member other listed equal

end Selected

section Chains

variable {F : Type} [Field F] [DecidableEq F]

/-- An entry of a sorted table that reads the address of the entry before. -/
def Follows (sorted : ℕ → Access F) (i : ℕ) : Prop :=
  0 < i ∧ (sorted i).addr = (sorted (i - 1)).addr ∧ (sorted i).rw = 0

instance (sorted : ℕ → Access F) : DecidablePred (Follows sorted) := fun i =>
  inferInstanceAs (Decidable (0 < i ∧ _ ∧ _))

/-- Whether an entry has the address of the entry before. -/
def sameAddrFlag (sorted : ℕ → Access F) (i : ℕ) : F :=
  if 0 < i ∧ (sorted i).addr = (sorted (i - 1)).addr then 1 else 0

theorem sameAddrFlag_binary (sorted : ℕ → Access F) (i : ℕ) :
    sameAddrFlag sorted i * (sameAddrFlag sorted i - 1) = 0 := by
  rw [sameAddrFlag]
  split <;> simp

/-- Values that are carried over satisfy the comparison with the entry before. -/
theorem comparison_holds {sorted : ℕ → Access F} {i : ℕ} {value : ℕ → F}
    (carried : Follows sorted (i + 1) → value (i + 1) = value i)
    (binary : (sorted (i + 1)).rw = 0 ∨ (sorted (i + 1)).rw = 1) :
    sameAddrFlag sorted (i + 1) * ((sorted (i + 1)).addr - (sorted i).addr) = 0 ∧
      (1 - sameAddrFlag sorted (i + 1)) * (1 - ((sorted (i + 1)).addr - (sorted i).addr) *
        ((sorted (i + 1)).addr - (sorted i).addr)⁻¹) = 0 ∧
      sameAddrFlag sorted (i + 1) * (1 - (sorted (i + 1)).rw) *
        (value (i + 1) - value i) = 0 := by
  rcases eq_or_ne (sorted (i + 1)).addr (sorted i).addr with same | other
  · have flag : sameAddrFlag sorted (i + 1) = 1 := if_pos ⟨Nat.succ_pos _, same⟩
    rw [flag, same, sub_self, sub_self]
    refine ⟨mul_zero _, zero_mul _, ?_⟩
    rcases binary with read | write
    · rw [carried ⟨Nat.succ_pos _, same, read⟩, sub_self, mul_zero]
    · rw [write, sub_self, mul_zero, zero_mul]
  · have flag : sameAddrFlag sorted (i + 1) = 0 := if_neg fun same => other same.2
    rw [flag, mul_inv_cancel₀ (sub_ne_zero.2 other), sub_self, mul_zero, zero_mul, zero_mul,
      zero_mul]
    exact ⟨rfl, rfl, rfl⟩

omit [DecidableEq F] in
/-- A read of the same address carries its value over. -/
theorem carried_of_bodies {isSame diff inv rw exclusion valDiff : F}
    (inside : exclusion ≠ 0)
    (difference : (1 - isSame) * (1 - diff * inv) * exclusion = 0)
    (consistency : isSame * (1 - rw) * valDiff * exclusion = 0) (same : diff = 0)
    (read : rw = 0) : valDiff = 0 := by
  rw [same, zero_mul, sub_zero, mul_one] at difference
  have flag := (mul_eq_zero.1 difference).resolve_right inside
  rw [← sub_eq_zero.1 flag, read, sub_zero, mul_one, one_mul] at consistency
  exact (mul_eq_zero.1 consistency).resolve_right inside

end Chains

section Exclusion

variable {p : ℕ} [Fact p.Prime] {omega : ZMod p} {domainSize : ℕ}

theorem exclusion_ne_zero (root : IsPrimitiveRoot omega domainSize) {row : ℕ}
    (inside : row + 1 < domainSize) : omega ^ row - omega ^ (domainSize - 1) ≠ 0 := by
  intro zero
  have equal := root.pow_inj (Nat.lt_of_succ_lt inside)
    (Nat.sub_lt (Nat.zero_lt_of_lt inside) Nat.one_pos) (sub_eq_zero.1 zero)
  omega

end Exclusion

section Fill

variable {F : Type}

/-- A trace with other values in some columns. -/
def overwrite (cols : List ℕ) (values trace : ℕ → ℕ → F) (row col : ℕ) : F :=
  if cols.contains col then values row col else trace row col

variable {columns : MemoryColumns} {trace values : ℕ → ℕ → F} {cols : List ℕ}

theorem overwrite_of_not_mem {row col : ℕ} (outside : col ∉ cols) :
    overwrite cols values trace row col = trace row col := by
  rw [overwrite, if_neg]
  rwa [List.contains_iff_mem]

theorem overwrite_of_mem {row col : ℕ} (inside : col ∈ cols) :
    overwrite cols values trace row col = values row col := by
  rw [overwrite, if_pos]
  rwa [List.contains_iff_mem]

/-- A trace with other values in its memory columns. -/
def MemoryColumns.fill (columns : MemoryColumns) (values trace : ℕ → ℕ → F) :
    ℕ → ℕ → F :=
  overwrite columns.valCols values trace

theorem fill_of_mem {row col : ℕ} (inside : col ∈ columns.valCols) :
    columns.fill values trace row col = values row col := overwrite_of_mem inside

theorem fill_addr (row : ℕ) : columns.fill values trace row columns.addrCol =
    trace row columns.addrCol :=
  overwrite_of_not_mem fun member => (columns.apart _ member).1 rfl

theorem fill_sel {row sel : ℕ} (member : sel ∈ columns.loadSels ++ columns.storeSels) :
    columns.fill values trace row sel = trace row sel :=
  overwrite_of_not_mem fun value => (columns.apart _ value).2 member

theorem map_fill_sels {sels : List ℕ} (inside : sels ⊆ columns.loadSels ++ columns.storeSels)
    (row : ℕ) : sels.map (columns.fill values trace row) = sels.map (trace row) :=
  List.map_congr_left fun _ member => fill_sel (inside member)

theorem hotRow_fill [Field F] {active : Option ℕ} {row : ℕ} :
    HotRow active (columns.loadSels ++ columns.storeSels) (columns.fill values trace row) ↔
      HotRow active (columns.loadSels ++ columns.storeSels) (trace row) := by
  refine forall_congr' fun sel => forall_congr' fun member => ?_
  rw [fill_sel member]

end Fill

section Columns

variable {F : Type} [Field F] [DecidableEq F] (columns : MemoryColumns) (domainSize : ℕ)

/-- The latest store before a row to its address. -/
structure LatestStore (trace : ℕ → ℕ → F) (load store : ℕ) : Prop where
  earlier : store < load
  stores : selected columns.storeSels (trace store)
  addr : trace store columns.addrCol = trace load columns.addrCol
  latest : ∀ row, store < row → row < load → selected columns.storeSels (trace row) →
    trace row columns.addrCol ≠ trace load columns.addrCol

/-- Every load carries the value of the latest store to its address. -/
def LoadsReturnLatest (trace : ℕ → ℕ → F) : Prop :=
  ∀ load < domainSize, selected columns.loadSels (trace load) →
    ∀ store, LatestStore columns trace load store →
      ∀ col ∈ columns.valCols, trace load col = trace store col

/-- The entries of a sorted table belong to the rows of a trace, whatever their
values are. -/
def Arranged (trace : ℕ → ℕ → F) (cells : ℕ → MemoryRow F)
    (matching : Equiv.Perm (Fin domainSize)) : Prop :=
  ∀ row, ((cells (matching row)).sorted).Same 0
    (columns.accessAt (trace row) (cells row).originalTs)

/-- However the entries are told apart, that of a load starts from that of the
latest store. -/
def LoadsFollowStores (trace : ℕ → ℕ → F) (cells : ℕ → MemoryRow F) : Prop :=
  ∀ matching, Arranged columns domainSize trace cells matching →
    ∀ load store : Fin domainSize, selected columns.loadSels (trace load) →
      LatestStore columns trace load store →
        Chain.source (Follows fun i => (cells i).sorted) (matching load) = matching store

/-- A table in the same order with other values and flags. -/
def refill (values : ℕ → ℕ → F) (isSame inv : ℕ → F) (cells : ℕ → MemoryRow F) (i : ℕ) :
    MemoryRow F where
  sorted := { (cells i).sorted with values := values i }
  isSameAddr := isSame i
  invAddrDiff := inv i
  originalTs := (cells i).originalTs

variable {columns domainSize} {trace : ℕ → ℕ → F} {values : ℕ → ℕ → F}

theorem selected_fill {sels : List ℕ} (inside : sels ⊆ columns.loadSels ++ columns.storeSels)
    (row : ℕ) : selected sels (columns.fill values trace row) = selected sels (trace row) := by
  have anyMap : ∀ cells : ℕ → F, selected sels cells =
      (sels.map cells).any fun cell => cell ≠ 0 := by
    intro cells
    rw [selected, List.any_map]
    rfl
  rw [anyMap, anyMap, map_fill_sels inside]

omit [DecidableEq F] in
/-- Values do not tell where an access goes. -/
theorem accessAt_fill (row : ℕ) (originalTs : F) :
    columns.accessAt (columns.fill values trace row) originalTs =
      { columns.accessAt (trace row) originalTs with
        values := fun v =>
          (columns.valCols[v]?.map (columns.fill values trace row)).getD 0 } := by
  simp only [MemoryColumns.accessAt, fill_addr,
    map_fill_sels (List.subset_append_left _ _), map_fill_sels (List.subset_append_right _ _)]

theorem latestStore_fill {load store : ℕ} :
    LatestStore columns (columns.fill values trace) load store ↔
      LatestStore columns trace load store := by
  have sels := fun row => @selected_fill _ _ _ columns trace values _
    (List.subset_append_right columns.loadSels columns.storeSels) row
  constructor
  · intro before
    exact ⟨before.earlier, by simpa only [sels] using before.stores,
      by simpa only [fill_addr] using before.addr,
      by simpa only [sels, fill_addr] using before.latest⟩
  · intro before
    exact ⟨before.earlier, by simpa only [sels] using before.stores,
      by simpa only [fill_addr] using before.addr,
      by simpa only [sels, fill_addr] using before.latest⟩

omit [DecidableEq F] in
theorem accessAt_values {col : ℕ} (member : col ∈ columns.valCols) :
    ∃ v < columns.valCols.length, ∀ (row : ℕ → F) (originalTs : F),
      (columns.accessAt row originalTs).values v = row col := by
  obtain ⟨v, inside, rfl⟩ := List.mem_iff_getElem.1 member
  refine ⟨v, inside, fun row originalTs => ?_⟩
  simp [MemoryColumns.accessAt, inside]

section Active

variable {row : ℕ → F} (hot : ∃ active, HotRow active (columns.loadSels ++ columns.storeSels) row)

include hot

theorem storeSum_eq : (columns.storeSels.map row).sum =
    if selected columns.storeSels row then 1 else 0 := by
  obtain ⟨active, hot⟩ := hot
  exact (hot.mono (List.subset_append_right _ _)).sum_selected
    (List.nodup_append.1 columns.distinct).2.1

theorem loadSum_eq : (columns.loadSels.map row).sum =
    if selected columns.loadSels row then 1 else 0 := by
  obtain ⟨active, hot⟩ := hot
  exact (hot.mono (List.subset_append_left _ _)).sum_selected
    (List.nodup_append.1 columns.distinct).1

theorem accessAt_rw (originalTs : F) : (columns.accessAt row originalTs).rw =
    if selected columns.storeSels row then 1 else 0 := storeSum_eq hot

theorem not_stores_of_loads (loads : selected columns.loadSels row) :
    selected columns.storeSels row = false := by
  obtain ⟨active, hot⟩ := hot
  exact hot.not_selected_right columns.distinct loads

/-- Loads and stores access their own address. -/
theorem accessAt_addr (originalTs : F)
    (memory : selected columns.loadSels row ∨ selected columns.storeSels row) :
    (columns.accessAt row originalTs).addr = row columns.addrCol := by
  have real : (columns.storeSels.map row).sum + (columns.loadSels.map row).sum = 1 := by
    rw [storeSum_eq hot, loadSum_eq hot]
    cases loads : selected columns.loadSels row with
    | true => simp [not_stores_of_loads hot loads]
    | false =>
        rw [loads] at memory
        simp [memory.resolve_left nofun]
  show ((columns.storeSels.map row).sum + (columns.loadSels.map row).sum) *
    row columns.addrCol + (1 - _) * sentinel = _
  rw [real, one_mul, sub_self, zero_mul, add_zero]

end Active

end Columns

end MetaVm.Zkp

namespace MetaVm.Zkp

open GrandProduct

/-! What the memory permutation enforces. The sorted table is some order of the
accesses of the trace; whether loads see the latest store depends on it. -/

section Bodies

variable {F K : Type} [Field F] [Field K]

theorem permutationBodies_vanish_iff {numValColumns : ℕ} {exclusion : F}
    {cells shifted : MemoryRow F} :
    (∀ body ∈ permutationBodies numValColumns exclusion cells shifted, body = 0) ↔
      cells.isSameAddr * (cells.isSameAddr - 1) = 0 ∧
      shifted.isSameAddr * (shifted.sorted.addr - cells.sorted.addr) * exclusion = 0 ∧
      (1 - shifted.isSameAddr) * (1 - (shifted.sorted.addr - cells.sorted.addr) *
        shifted.invAddrDiff) * exclusion = 0 ∧
      ∀ v < numValColumns, shifted.isSameAddr * (1 - shifted.sorted.rw) *
        (shifted.sorted.values v - cells.sorted.values v) * exclusion = 0 := by
  simp only [permutationBodies, List.forall_mem_append, List.forall_mem_cons,
    List.forall_mem_map, List.mem_range, and_assoc, List.not_mem_nil, false_implies,
    implies_true, true_and]

theorem accessAt_map (f : F →+* K) (columns : MemoryColumns) (row : ℕ → F) (originalTs : F) :
    columns.accessAt (fun column => f (row column)) (f originalTs) =
      (columns.accessAt row originalTs).map f := by
  have sums : ∀ sels : List ℕ, (sels.map fun column => f (row column)).sum =
      f (sels.map row).sum := by
    intro sels
    rw [map_list_sum, List.map_map]
    rfl
  simp only [MemoryColumns.accessAt, Access.map, sums, map_add, map_mul, map_sub, map_one,
    sentinel, map_natCast, Access.mk.injEq, true_and, and_true]
  funext v
  cases columns.valCols[v]? <;> simp

end Bodies

variable {p : ℕ} [Fact p.Prime] {L K : Type} [Field L] [Field K] [DecidableEq K]
  [Algebra (ZMod p) L] [Algebra (ZMod p) K] [Algebra L K] [IsScalarTower (ZMod p) L K]

/-- The bodies vanish on the domain. Only the running product depends on the
challenges. -/
structure MemorySatisfied (columns : MemoryColumns) (gamma delta : K) (omega : ZMod p)
    (domainSize : ℕ) (trace : ℕ → ℕ → ZMod p) (cells : ℕ → MemoryRow (ZMod p))
    (z : ℕ → K) : Prop where
  sorted : ∀ row < domainSize, ∀ body ∈ permutationBodies columns.valCols.length
    (omega ^ row - omega ^ (domainSize - 1)) (cells row) (cells ((row + 1) % domainSize)),
    body = 0
  product : ∀ row < domainSize, ∀ body ∈ grandProductBodies gamma delta columns
    (lagrangeFirst domainSize (algebraMap (ZMod p) K (omega ^ row)))
    (fun column => algebraMap (ZMod p) K (trace row column))
    ((cells row).map (algebraMap (ZMod p) K)) (z row) (z ((row + 1) % domainSize)),
    body = 0

section Rows

variable {columns : MemoryColumns} {omega : ZMod p} {domainSize : ℕ}
  {trace : ℕ → ℕ → ZMod p} {cells : ℕ → MemoryRow (ZMod p)} {z : ℕ → K}

omit [DecidableEq K] in
theorem grandProductBodies_vanish_iff {gamma delta lagrange zHere zShifted : K} {row : ℕ} :
    (∀ body ∈ grandProductBodies gamma delta columns lagrange
        (fun column => algebraMap (ZMod p) K (trace row column))
        ((cells row).map (algebraMap (ZMod p) K)) zHere zShifted, body = 0) ↔
      zShifted * computeTupleHash gamma delta columns.valCols.length
          ((cells row).sorted.map (algebraMap (ZMod p) K)) =
        zHere * computeTupleHash gamma delta columns.valCols.length
          ((columns.accessAt (trace row) (cells row).originalTs).map
            (algebraMap (ZMod p) K)) ∧
      lagrange * (zHere - 1) = 0 := by
  rw [grandProductBodies, List.forall_mem_cons, List.forall_mem_singleton, sub_eq_zero,
    ← accessAt_map]
  rfl

variable {gamma : K} {delta : L} (freeDelta : Transcendental (ZMod p) delta) (freeGamma : Transcendental L gamma)

include freeDelta freeGamma

/-- The running product makes the table an order of the accesses. -/
theorem MemorySatisfied.exists_matching
    (satisfied : MemorySatisfied columns gamma (algebraMap L K delta) omega domainSize trace
      cells z) :
    ∃ matching : Equiv.Perm (Fin domainSize), ∀ row,
      ((cells (matching row)).sorted).Same columns.valCols.length
        (columns.accessAt (trace row) (cells row).originalTs) := by
  rcases Nat.eq_zero_or_pos domainSize with rfl | positive
  · exact ⟨1, fun row => row.elim0⟩
  have rows := fun row inside => grandProductBodies_vanish_iff.1
    (satisfied.product row inside)
  have start : z 0 = 1 := by
    have boundary := (rows 0 positive).2
    rw [pow_zero, map_one, lagrangeFirst_one, one_mul] at boundary
    exact sub_eq_zero.1 boundary
  have equal := prod_eq_of_steps positive start fun row inside => (rows row inside).1
  rw [Finset.prod_range, Finset.prod_range] at equal
  exact (prod_tuples_eq_iff freeDelta freeGamma columns.valCols.length).1 equal

/-- A matched table has a running product. -/
theorem exists_running_product (root : IsPrimitiveRoot omega domainSize)
    {matching : Equiv.Perm (Fin domainSize)}
    (matched : ∀ row, ((cells (matching row)).sorted).Same columns.valCols.length
      (columns.accessAt (trace row) (cells row).originalTs)) :
    ∃ z : ℕ → K, ∀ row < domainSize, ∀ body ∈ grandProductBodies gamma
      (algebraMap L K delta) columns
      (lagrangeFirst domainSize (algebraMap (ZMod p) K (omega ^ row)))
      (fun column => algebraMap (ZMod p) K (trace row column))
      ((cells row).map (algebraMap (ZMod p) K)) (z row) (z ((row + 1) % domainSize)),
      body = 0 := by
  let numer (row : ℕ) : K := computeTupleHash gamma (algebraMap L K delta)
    columns.valCols.length
    ((columns.accessAt (trace row) (cells row).originalTs).map (algebraMap (ZMod p) K))
  let denom (row : ℕ) : K := computeTupleHash gamma (algebraMap L K delta)
    columns.valCols.length ((cells row).sorted.map (algebraMap (ZMod p) K))
  have nonzero : ∀ row, denom row ≠ 0 := fun row =>
    computeTupleHash_ne_zero freeGamma _ _
  have equal : ∏ row ∈ Finset.range domainSize, numer row =
      ∏ row ∈ Finset.range domainSize, denom row := by
    rw [Finset.prod_range, Finset.prod_range]
    exact (prod_tuples_eq_iff freeDelta freeGamma _).2 ⟨matching, matched⟩
  refine ⟨fun row => ∏ earlier ∈ Finset.range row, numer earlier / denom earlier, ?_⟩
  intro row inside
  refine grandProductBodies_vanish_iff.2 ⟨partialProd_step (fun i _ => nonzero i) equal inside, ?_⟩
  rcases Nat.eq_zero_or_pos row with rfl | later
  · simp
  · rw [lagrangeFirst_later root inside (Nat.pos_iff_ne_zero.1 later), zero_mul]

end Rows

section Chains

variable {columns : MemoryColumns} {gamma delta : K} {omega : ZMod p} {domainSize : ℕ}
  {trace : ℕ → ℕ → ZMod p} {cells : ℕ → MemoryRow (ZMod p)} {z : ℕ → K}

/-- Entries carry the values of the source of their chain. -/
theorem MemorySatisfied.values_source (root : IsPrimitiveRoot omega domainSize)
    (satisfied : MemorySatisfied columns gamma delta omega domainSize trace cells z)
    {i v : ℕ} (inside : i < domainSize) (value : v < columns.valCols.length) :
    (cells (Chain.source (Follows fun i => (cells i).sorted) i)).sorted.values v =
      (cells i).sorted.values v := by
  refine @Chain.value_source _ _ _ (fun i => (cells i).sorted.values v) _ ?_
  intro earlier before follows
  have next : earlier + 1 < domainSize := lt_of_le_of_lt (Nat.succ_le_of_lt before) inside
  have bodies := permutationBodies_vanish_iff.1
    (satisfied.sorted earlier (Nat.lt_of_succ_lt next))
  rw [Nat.mod_eq_of_lt next] at bodies
  obtain ⟨_, _, difference, consistency⟩ := bodies
  exact sub_eq_zero.1 (carried_of_bodies (exclusion_ne_zero root next) difference
    (consistency v value) (sub_eq_zero.2 follows.2.1) follows.2.2)

end Chains

end MetaVm.Zkp
