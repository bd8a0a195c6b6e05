import MetaVm.Riscv.Constraints.Columns
import MetaVm.Zkp.Fft
import MetaVm.Zkp.MemoryAccesses

namespace MetaVm.Zkp

/-! Loads see the latest store exactly in the orders of the table that chain
them to it. The bodies do not pin the order down. -/

variable {p : ℕ} [Fact p.Prime] {L K : Type} [Field L] [Field K] [DecidableEq K]
  [Algebra (ZMod p) L] [Algebra (ZMod p) K] [Algebra L K] [IsScalarTower (ZMod p) L K]

/-- In the order of a table, all values that satisfy the bodies have loads that
return the latest store. -/
def OrderSound (columns : MemoryColumns) (gamma delta : K) (omega : ZMod p)
    (domainSize : ℕ) (trace : ℕ → ℕ → ZMod p) (cells : ℕ → MemoryRow (ZMod p)) : Prop :=
  ∀ (values sortedValues : ℕ → ℕ → ZMod p) (isSame inv : ℕ → ZMod p) (z : ℕ → K),
    MemorySatisfied columns gamma delta omega domainSize (columns.fill values trace)
      (refill sortedValues isSame inv cells) z →
    LoadsReturnLatest columns domainSize (columns.fill values trace)

section Refill

variable {columns : MemoryColumns} {omega : ZMod p} {domainSize : ℕ}
  {trace : ℕ → ℕ → ZMod p} {cells : ℕ → MemoryRow (ZMod p)}

def addrDiffInverse (cells : ℕ → MemoryRow (ZMod p)) (i : ℕ) : ZMod p :=
  ((cells i).sorted.addr - (cells (i - 1)).sorted.addr)⁻¹

/-- Values that are the same along every chain satisfy the bodies of the table. -/
theorem refill_sorted {sortedValues : ℕ → ℕ → ZMod p} {numValColumns row : ℕ}
    (inside : row < domainSize)
    (carried : ∀ i v, Follows (fun i => (cells i).sorted) (i + 1) →
      sortedValues (i + 1) v = sortedValues i v)
    (writes : ∀ i < domainSize, (cells i).sorted.rw = 0 ∨ (cells i).sorted.rw = 1) :
    ∀ body ∈ permutationBodies numValColumns (omega ^ row - omega ^ (domainSize - 1))
      (refill sortedValues (sameAddrFlag fun i => (cells i).sorted) (addrDiffInverse cells)
        cells row)
      (refill sortedValues (sameAddrFlag fun i => (cells i).sorted) (addrDiffInverse cells)
        cells ((row + 1) % domainSize)), body = 0 := by
  apply permutationBodies_vanish_iff.2
  have binary := sameAddrFlag_binary (fun i => (cells i).sorted) row
  rcases Nat.lt_or_eq_of_le (Nat.succ_le_of_lt inside) with next | last
  · rw [Nat.mod_eq_of_lt next]
    have compared := fun v => @comparison_holds _ _ _ (fun i => (cells i).sorted) row
      (fun i => sortedValues i v) (carried row v) (writes (row + 1) next)
    exact ⟨binary, mul_eq_zero_of_left (compared 0).1 _,
      mul_eq_zero_of_left (compared 0).2.1 _,
      fun v _ => mul_eq_zero_of_left (compared v).2.2 _⟩
  · have wrap : omega ^ row - omega ^ (domainSize - 1) = 0 := by
      rw [← last, Nat.succ_sub_one, sub_self]
    exact ⟨binary, mul_eq_zero_of_right _ wrap, mul_eq_zero_of_right _ wrap,
      fun v _ => mul_eq_zero_of_right _ wrap⟩

end Refill

section Order

variable {columns : MemoryColumns} {omega : ZMod p} {domainSize : ℕ}
  {trace : ℕ → ℕ → ZMod p} {cells : ℕ → MemoryRow (ZMod p)} {gamma : K} {delta : L}

theorem arranged_rw (hot : HotTrace (columns.loadSels ++ columns.storeSels) domainSize trace)
    {matching : Equiv.Perm (Fin domainSize)}
    (arranged : Arranged columns domainSize trace cells matching) (row : Fin domainSize) :
    (cells (matching row)).sorted.rw =
      if selected columns.storeSels (trace row) then 1 else 0 := by
  rw [(arranged row).rw, accessAt_rw (hot row row.isLt)]

theorem sorted_rw_binary
    (hot : HotTrace (columns.loadSels ++ columns.storeSels) domainSize trace)
    {matching : Equiv.Perm (Fin domainSize)}
    (arranged : Arranged columns domainSize trace cells matching) :
    ∀ i < domainSize, (cells i).sorted.rw = 0 ∨ (cells i).sorted.rw = 1 := by
  intro i inside
  have entry := arranged_rw hot arranged (matching.symm ⟨i, inside⟩)
  rw [Equiv.apply_symm_apply] at entry
  rw [entry]
  split
  · exact .inr rfl
  · exact .inl rfl

section Directions

variable (freeDelta : Transcendental (ZMod p) delta) (freeGamma : Transcendental L gamma)
  (root : IsPrimitiveRoot omega domainSize)
  (hot : HotTrace (columns.loadSels ++ columns.storeSels) domainSize trace)

include freeDelta freeGamma root hot

/-- A load that is chained to something else can be given another value. -/
theorem loadsFollowStores_of_orderSound (valued : columns.valCols ≠ [])
    (sound : OrderSound columns gamma (algebraMap L K delta) omega domainSize trace cells) :
    LoadsFollowStores columns domainSize trace cells := by
  intro matching arranged load store loads before
  by_contra astray
  obtain ⟨col, member⟩ := List.exists_mem_of_ne_nil _ valued
  -- the chain of the load holds ones, everything else zeros
  let start : ℕ := Chain.source (Follows fun i => (cells i).sorted) (matching load)
  let mark (i : ℕ) : ZMod p :=
    if Chain.source (Follows fun i => (cells i).sorted) i = start then 1 else 0
  let values (row _col : ℕ) : ZMod p :=
    if inside : row < domainSize then mark (matching ⟨row, inside⟩) else 0
  have valueAt : ∀ (row : Fin domainSize) (col : ℕ), values row col = mark (matching row) :=
    fun row _ => dif_pos row.isLt
  have matched : ∀ row, ((refill (fun i _ => mark i) (sameAddrFlag fun i => (cells i).sorted)
      (addrDiffInverse cells) cells (matching row)).sorted).Same columns.valCols.length
      (columns.accessAt (columns.fill values trace row)
        (refill (fun i _ => mark i) (sameAddrFlag fun i => (cells i).sorted) (addrDiffInverse cells) cells
          row).originalTs) := by
    intro row
    rw [accessAt_fill]
    refine ⟨(arranged row).addr, fun v inside => ?_, (arranged row).timestamp,
      (arranged row).rw⟩
    have listed : columns.valCols[v] ∈ columns.valCols := List.getElem_mem inside
    show mark (matching row) =
      (columns.valCols[v]?.map (columns.fill values trace row)).getD 0
    rw [List.getElem?_eq_getElem inside, Option.map_some, Option.getD_some,
      fill_of_mem listed, valueAt row columns.valCols[v]]
  obtain ⟨z, product⟩ := @exists_running_product p _ L K _ _ _ _ _ _ _ columns omega
    domainSize _ _ gamma delta freeDelta freeGamma root matching matched
  have carried : ∀ i v : ℕ, Follows (fun i => (cells i).sorted) (i + 1) →
      (fun i (_ : ℕ) => mark i) (i + 1) v = (fun i _ => mark i) i v := by
    intro i _ follows
    show mark (i + 1) = mark i
    simp only [mark, Chain.source, if_pos follows]
  have returned := sound values (fun i _ => mark i) (sameAddrFlag fun i => (cells i).sorted)
    (addrDiffInverse cells) z
    ⟨fun row inside => refill_sorted inside carried (sorted_rw_binary hot arranged),
      product⟩
    load load.isLt
    ((selected_fill (List.subset_append_left _ _) _).trans loads) store
    (latestStore_fill.2 before) col member
  rw [fill_of_mem member, fill_of_mem member] at returned
  have alone : ¬ Follows (fun i => (cells i).sorted) (matching store) := by
    intro follows
    have entry := arranged_rw hot arranged store
    rw [if_pos before.stores, follows.2.2] at entry
    exact zero_ne_one entry
  have one : mark (matching load) = 1 := if_pos rfl
  have zero : mark (matching store) = 0 := by
    refine if_neg ?_
    rw [Chain.source_of_not_follows alone]
    exact fun equal => astray equal.symm
  rw [valueAt load col, valueAt store col, one, zero] at returned
  exact one_ne_zero returned

omit hot in
/-- A load that is chained to its latest store has no other value. -/
theorem orderSound_of_loadsFollowStores
    (chained : LoadsFollowStores columns domainSize trace cells) :
    OrderSound columns gamma (algebraMap L K delta) omega domainSize trace cells := by
  intro values sortedValues isSame inv z satisfied load inside loads store before
    col member
  obtain ⟨matching, matched⟩ := satisfied.exists_matching freeDelta freeGamma
  have arranged : Arranged columns domainSize trace cells matching := by
    intro row
    have same := matched row
    rw [accessAt_fill] at same
    exact ⟨same.addr, fun _ impossible => absurd impossible (Nat.not_lt_zero _),
      same.timestamp, same.rw⟩
  let loadRow : Fin domainSize := ⟨load, inside⟩
  let storeRow : Fin domainSize := ⟨store, before.earlier.trans inside⟩
  have start := chained matching arranged loadRow storeRow
    ((selected_fill (List.subset_append_left _ _) _).symm.trans loads)
    (latestStore_fill.1 before)
  have located : ∃ v < columns.valCols.length, ∀ (row : ℕ → ZMod p) (originalTs : ZMod p),
      (columns.accessAt row originalTs).values v = row col := accessAt_values member
  obtain ⟨v, position, value⟩ := located
  have carried := satisfied.values_source root (matching loadRow).isLt position
  have loaded := (matched loadRow).values v position
  have stored := (matched storeRow).values v position
  rw [value] at loaded stored
  calc columns.fill values trace load col
      = sortedValues (matching loadRow) v := loaded.symm
    _ = sortedValues (Chain.source (Follows fun i => (cells i).sorted)
          (matching loadRow)) v := carried.symm
    _ = sortedValues (matching storeRow) v := by rw [start]
    _ = columns.fill values trace store col := stored

end Directions

/-- The memory permutation makes loads return the latest store exactly in the
orders that chain the entry of a load to that of its latest store. -/
theorem memoryPermutation_sound_iff (freeDelta : Transcendental (ZMod p) delta)
    (freeGamma : Transcendental L gamma) (root : IsPrimitiveRoot omega domainSize)
    (valued : columns.valCols ≠ [])
    (hot : HotTrace (columns.loadSels ++ columns.storeSels) domainSize trace) :
    OrderSound columns gamma (algebraMap L K delta) omega domainSize trace cells ↔
      LoadsFollowStores columns domainSize trace cells :=
  ⟨loadsFollowStores_of_orderSound freeDelta freeGamma root hot valued,
    orderSound_of_loadsFollowStores freeDelta freeGamma root⟩

end Order

section SortedByTime

variable {columns : MemoryColumns} {domainSize : ℕ} {trace : ℕ → ℕ → ZMod p}
  {cells : ℕ → MemoryRow (ZMod p)}

/-- What a table is sorted by. -/
def sortKey (access : Access (ZMod p)) : ℕ ×ₗ ℕ := toLex (access.addr.val, access.timestamp.val)

/-- The order that the prover is meant to choose: rows are stamped with their
index, and the table is sorted by address and time. -/
structure SortedByTime (domainSize : ℕ) (cells : ℕ → MemoryRow (ZMod p)) : Prop where
  timestamps : ∀ row < domainSize, (cells row).originalTs = (row : ℕ)
  increasing : ∀ i, i + 1 < domainSize →
    sortKey (cells i).sorted < sortKey (cells (i + 1)).sorted

theorem SortedByTime.sortKey_lt (ordered : SortedByTime domainSize cells) {i j : ℕ}
    (before : i < j) (inside : j < domainSize) :
    sortKey (cells i).sorted < sortKey (cells j).sorted := by
  induction j with
  | zero => exact absurd before (Nat.not_lt_zero _)
  | succ j hypothesis =>
      have step := ordered.increasing j inside
      rcases Nat.lt_or_eq_of_le (Nat.le_of_lt_succ before) with earlier | rfl
      · exact (hypothesis earlier (Nat.lt_of_succ_lt inside)).trans step
      · exact step

/-- Entries between two of one address have that address, and a time between. -/
theorem SortedByTime.between (ordered : SortedByTime domainSize cells) {i b j : ℕ}
    (same : (cells i).sorted.addr = (cells j).sorted.addr) (after : i ≤ b) (before : b ≤ j)
    (inside : j < domainSize) :
    (cells b).sorted.addr = (cells j).sorted.addr := by
  rcases Nat.lt_or_eq_of_le after with later | rfl
  · rcases Nat.lt_or_eq_of_le before with earlier | rfl
    · have low := Prod.Lex.monotone_fst _ _
        (ordered.sortKey_lt later (earlier.trans inside)).le
      have high := Prod.Lex.monotone_fst _ _ (ordered.sortKey_lt earlier inside).le
      have value : ((cells b).sorted.addr).val = ((cells j).sorted.addr).val := by
        refine le_antisymm high ?_
        rw [← same]
        exact low
      exact ZMod.val_injective p value
    · rfl
  · exact same

theorem SortedByTime.timestamp_lt (ordered : SortedByTime domainSize cells) {i j : ℕ}
    (same : (cells i).sorted.addr = (cells j).sorted.addr) (before : i < j)
    (inside : j < domainSize) :
    (cells i).sorted.timestamp.val < (cells j).sorted.timestamp.val := by
  rcases Prod.Lex.lt_iff.1 (ordered.sortKey_lt before inside) with addr | ⟨_, time⟩
  · exact absurd (congrArg ZMod.val same) (Nat.ne_of_lt addr)
  · exact time

/-- In that order loads follow the latest store. -/
theorem SortedByTime.loadsFollowStores (ordered : SortedByTime domainSize cells)
    (small : domainSize ≤ p)
    (hot : HotTrace (columns.loadSels ++ columns.storeSels) domainSize trace) :
    LoadsFollowStores columns domainSize trace cells := by
  intro matching arranged load store loads before
  have time : ∀ row : Fin domainSize,
      (cells (matching row)).sorted.timestamp.val = (row : ℕ) := by
    intro row
    rw [(arranged row).timestamp]
    show ((cells row).originalTs).val = row
    rw [ordered.timestamps row row.isLt, ZMod.val_natCast_of_lt (row.isLt.trans_le small)]
  have address : ∀ row : Fin domainSize, selected columns.loadSels (trace row) ∨
      selected columns.storeSels (trace row) →
      (cells (matching row)).sorted.addr = trace row columns.addrCol := by
    intro row memory
    rw [(arranged row).addr, accessAt_addr (hot row row.isLt) _ memory]
  have same : (cells (matching store)).sorted.addr = (cells (matching load)).sorted.addr := by
    rw [address store (.inr before.stores), address load (.inl loads), before.addr]
  -- entries of one address are in the order of their rows
  have ordered_rows : ∀ first second : Fin domainSize,
      (cells (matching first)).sorted.addr = (cells (matching second)).sorted.addr →
      matching first < matching second → first < second := by
    intro first second same inside
    have times := ordered.timestamp_lt same inside (matching second).isLt
    rwa [time, time] at times
  have position : matching store < matching load := by
    rcases lt_trichotomy (matching store) (matching load) with earlier | equal | later
    · exact earlier
    · exact absurd (congrArg Fin.val (matching.injective equal)) (Nat.ne_of_lt before.earlier)
    · exact absurd (ordered_rows _ _ same.symm later) (lt_asymm before.earlier)
  refine Chain.source_eq ?_ (le_of_lt position) fun between after inside => ?_
  · intro follows
    have entry := arranged_rw hot arranged store
    rw [if_pos before.stores, follows.2.2] at entry
    exact zero_ne_one entry
  · have within : between < domainSize := lt_of_le_of_lt inside (matching load).isLt
    have here := ordered.between same after.le inside (matching load).isLt
    have previous := ordered.between same (Nat.le_sub_one_of_lt after)
      ((Nat.sub_le _ _).trans inside) (matching load).isLt
    refine ⟨Nat.zero_lt_of_lt after, here.trans previous.symm, ?_⟩
    -- a store in between would be later than the latest one
    let row : Fin domainSize := matching.symm ⟨between, within⟩
    have entry : matching row = ⟨between, within⟩ := Equiv.apply_symm_apply _ _
    have flag := arranged_rw hot arranged row
    rw [entry] at flag
    rw [flag, if_neg]
    intro stores
    have rowAddr := address row (.inr stores)
    rw [entry, here, address load (.inl loads)] at rowAddr
    have later : store < row := ordered_rows store row
      (by rw [entry, same, here]) (by rw [entry]; exact after)
    rcases Nat.lt_or_eq_of_le inside with earlier | equal
    · have rowBefore : row < load := ordered_rows row load
        (by rw [entry, here]) (by rw [entry]; exact earlier)
      exact before.latest row later rowBefore stores rowAddr.symm
    · have itself : row = load :=
        matching.injective (entry.trans (Fin.ext equal))
      rw [itself, not_stores_of_loads (hot load load.isLt) loads] at stores
      exact Bool.false_ne_true stores

end SortedByTime

section Examples

open Riscv.Constraints

/-- Stores, and then loads, all at address zero. -/
def accessTrace (stores row column : ℕ) : Fr :=
  if (if row < stores then colSelStore.val else colSelLoad.val) = column then 1 else 0

theorem accessTrace_hot (stores domainSize : ℕ) :
    HotTrace (memoryColumns.loadSels ++ memoryColumns.storeSels) domainSize
      (accessTrace stores) := by
  intro row _
  refine ⟨some (if row < stores then colSelStore.val else colSelLoad.val), fun column _ => ?_⟩
  simp only [Option.some_inj]
  rfl

theorem accessTrace_stores {stores row : ℕ} (early : row < stores) :
    selected memoryColumns.storeSels (accessTrace stores row) := by
  refine List.any_eq_true.2 ⟨colSelStore.val, by decide, decide_eq_true ?_⟩
  rw [accessTrace, if_pos early, if_pos rfl]
  exact one_ne_zero

theorem accessTrace_loads {stores row : ℕ} (late : stores ≤ row) :
    selected memoryColumns.loadSels (accessTrace stores row) := by
  refine List.any_eq_true.2 ⟨colSelLoad.val, by decide, decide_eq_true ?_⟩
  rw [accessTrace, if_neg (Nat.not_lt.2 late), if_pos rfl]
  exact one_ne_zero

theorem accessTrace_addr (stores row : ℕ) :
    accessTrace stores row memoryColumns.addrCol = 0 := by
  refine if_neg ?_
  split <;> decide

/-- A table that lists the rows of a trace in some order. -/
def tableInOrder (trace : ℕ → ℕ → Fr) (order : ℕ → ℕ) (i : ℕ) : MemoryRow Fr where
  sorted := memoryColumns.accessAt (trace (order i)) (order i : ℕ)
  isSameAddr := 0
  invAddrDiff := 0
  originalTs := (i : ℕ)

theorem accessAt_accessTrace (stores row : ℕ) (originalTs : Fr) :
    (memoryColumns.accessAt (accessTrace stores row) originalTs).addr = 0 := by
  rw [accessAt_addr (accessTrace_hot stores (row + 1) row (Nat.lt_succ_self row)),
    accessTrace_addr]
  rcases Nat.lt_or_ge row stores with early | late
  · exact .inr (accessTrace_stores early)
  · exact .inl (accessTrace_loads late)

theorem sixteenth_primitive : IsPrimitiveRoot (rootTwoPow32 ^ 2 ^ 28) 16 :=
  rootTwoPow32_primitive.pow (by positivity) (by norm_num)

open Classical in
/-- One store that all loads see, in the order of time. -/
theorem accessTrace_sound : OrderSound memoryColumns (RatFunc.X : RatFunc (RatFunc Fr))
    (algebraMap (RatFunc Fr) _ RatFunc.X) (rootTwoPow32 ^ 2 ^ 28) 16 (accessTrace 1)
    (tableInOrder (accessTrace 1) id) := by
  refine (memoryPermutation_sound_iff RatFunc.transcendental_X RatFunc.transcendental_X
    sixteenth_primitive (List.cons_ne_nil _ _) (accessTrace_hot 1 16)).2 ?_
  refine SortedByTime.loadsFollowStores ⟨fun _ _ => rfl, fun i inside => ?_⟩ (by decide)
    (accessTrace_hot 1 16)
  refine Prod.Lex.lt_iff.2 (.inr ⟨?_, ?_⟩)
  · exact congrArg ZMod.val ((accessAt_accessTrace 1 i (i : ℕ)).trans
      (accessAt_accessTrace 1 (i + 1) (i + 1 : ℕ)).symm)
  · show ((i : ℕ) : Fr).val < ((i + 1 : ℕ) : Fr).val
    have order : 16 < bls12381Order := by decide
    rw [ZMod.val_natCast_of_lt ((Nat.lt_of_succ_lt inside).trans order),
      ZMod.val_natCast_of_lt (inside.trans order)]
    exact Nat.lt_succ_self i

/-- Columns that satisfy the bodies have loads that return the latest store. -/
def MemorySound (columns : MemoryColumns) (gamma delta : K) (omega : ZMod p)
    (domainSize : ℕ) : Prop :=
  ∀ (trace : ℕ → ℕ → ZMod p) (cells : ℕ → MemoryRow (ZMod p)) (z : ℕ → K),
    HotTrace (columns.loadSels ++ columns.storeSels) domainSize trace →
    MemorySatisfied columns gamma delta omega domainSize trace cells z →
    LoadsReturnLatest columns domainSize trace

open Classical in
/-- Two stores: the table can list the second one after the load that should
see it. -/
theorem memoryPermutation_unsound : ¬ MemorySound memoryColumns
    (RatFunc.X : RatFunc (RatFunc Fr)) (algebraMap (RatFunc Fr) _ RatFunc.X)
    (rootTwoPow32 ^ 2 ^ 28) 16 := by
  intro sound
  let cells := tableInOrder (accessTrace 2) (Equiv.swap 1 2)
  have follows := @loadsFollowStores_of_orderSound _ _ _ _ _ _ _ _ _ _ _ memoryColumns _ 16
    (accessTrace 2) cells (RatFunc.X : RatFunc (RatFunc Fr)) (RatFunc.X : RatFunc Fr)
    RatFunc.transcendental_X RatFunc.transcendental_X sixteenth_primitive
    (accessTrace_hot 2 16) (List.cons_ne_nil _ _) fun values sortedValues isSame inv z satisfied =>
      sound _ _ z (fun row inside => (accessTrace_hot 2 16 row inside).imp
        fun _ => hotRow_fill.2) satisfied
  have arranged : Arranged memoryColumns 16 (accessTrace 2) cells (Equiv.swap 1 2) := by
    intro row
    have back : (Equiv.swap 1 2 : Equiv.Perm ℕ) (Equiv.swap (1 : Fin 16) 2 row) = row := by
      decide +revert
    show Access.Same 0 (memoryColumns.accessAt
      (accessTrace 2 ((Equiv.swap 1 2 : Equiv.Perm ℕ) (Equiv.swap (1 : Fin 16) 2 row)))
      (((Equiv.swap 1 2 : Equiv.Perm ℕ) (Equiv.swap (1 : Fin 16) 2 row) : ℕ) : Fr)) _
    rw [back]
    exact ⟨rfl, fun _ _ => rfl, rfl, rfl⟩
  have latest : LatestStore memoryColumns (accessTrace 2) 2 1 :=
    ⟨Nat.one_lt_two, accessTrace_stores Nat.one_lt_two,
      by rw [accessTrace_addr, accessTrace_addr],
      fun row after before => absurd before (Nat.not_lt.2 after)⟩
  have chained := follows _ arranged 2 1 (accessTrace_loads le_rfl) latest
  have bound : Chain.source (Follows fun i => (cells i).sorted) 1 ≤ 1 := Chain.source_le 1
  rw [show ((Equiv.swap (1 : Fin 16) 2 2 : Fin 16) : ℕ) = 1 from rfl] at chained
  rw [chained] at bound
  exact absurd bound (by decide)

end Examples

end MetaVm.Zkp
