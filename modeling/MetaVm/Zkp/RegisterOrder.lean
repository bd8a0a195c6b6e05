import MetaVm.Riscv.Constraints.Columns
import MetaVm.Zkp.Fft
import MetaVm.Zkp.RegisterSoundness

namespace MetaVm.Zkp

/-! Reads see the latest write exactly in the orders that chain them to it
inside one lane. Lanes are not compared with each other. -/

section Accesses

variable {F : Type} (ports : RegisterPorts) (domainSize : ℕ)

/-- The port of an access. -/
abbrev RegisterPorts.at (ports : RegisterPorts)
    (access : Fin domainSize × Fin ports.list.length) : RegisterPort :=
  ports.list[access.2]

/-- The latest write to the register of a read. Ports of a row are accessed one
after the other. -/
structure LatestWrite (trace : ℕ → ℕ → F)
    (read write : Fin domainSize × Fin ports.list.length) : Prop where
  earlier : toLex write < toLex read
  writes : (ports.at domainSize write).isWrite = true
  reg : trace write.1 (ports.at domainSize write).regCol =
    trace read.1 (ports.at domainSize read).regCol
  latest : ∀ access, toLex write < toLex access → toLex access < toLex read →
    (ports.at domainSize access).isWrite = true →
      trace access.1 (ports.at domainSize access).regCol ≠
        trace read.1 (ports.at domainSize read).regCol

/-- Every read port carries the value of the latest write to its register. -/
def ReadsReturnLatest (trace : ℕ → ℕ → F) : Prop :=
  ∀ read, (ports.at domainSize read).isWrite = false →
    ∀ write, LatestWrite ports domainSize trace read write →
      trace read.1 (ports.at domainSize read).valCol =
        trace write.1 (ports.at domainSize write).valCol

/-- A trace with other values in the columns of the ports. -/
def RegisterPorts.fill (values trace : ℕ → ℕ → F) : ℕ → ℕ → F :=
  overwrite (ports.list.map (·.valCol)) values trace

variable {ports domainSize} {trace values : ℕ → ℕ → F}

theorem fill_valCol (row : ℕ) (access : Fin domainSize × Fin ports.list.length) :
    ports.fill values trace row (ports.at domainSize access).valCol =
      values row (ports.at domainSize access).valCol :=
  overwrite_of_mem (List.mem_map_of_mem (List.getElem_mem access.2.isLt))

theorem fill_regCol (row : ℕ) (access : Fin domainSize × Fin ports.list.length) :
    ports.fill values trace row (ports.at domainSize access).regCol =
      trace row (ports.at domainSize access).regCol := by
  apply overwrite_of_not_mem
  intro member
  obtain ⟨other, listed, same⟩ := List.mem_map.1 member
  exact ports.apart other listed _ (List.getElem_mem access.2.isLt) same

theorem latestWrite_fill {read write : Fin domainSize × Fin ports.list.length} :
    LatestWrite ports domainSize (ports.fill values trace) read write ↔
      LatestWrite ports domainSize trace read write := by
  have columns : ∀ access : Fin domainSize × Fin ports.list.length,
      ports.fill values trace access.1 (ports.at domainSize access).regCol =
        trace access.1 (ports.at domainSize access).regCol := fun _ => fill_regCol _ _
  constructor
  · rintro ⟨earlier, writes, reg, latest⟩
    simp only [columns] at reg latest
    exact ⟨earlier, writes, reg, latest⟩
  · rintro ⟨earlier, writes, reg, latest⟩
    refine ⟨earlier, writes, ?_, ?_⟩
    · simpa only [columns] using reg
    · simpa only [columns] using latest

end Accesses

section Lanes

variable {F : Type} [Field F]

/-- Lanes in the same order with other values and flags. -/
def refillLanes (values isSame inv : ℕ → ℕ → F) (cells : ℕ → RegisterRow F) (i : ℕ) :
    RegisterRow F where
  sorted lane := { (cells i).sorted lane with values := fun _ => values i lane }
  isSameReg := isSame i
  invRegDiff := inv i
  rowTs := (cells i).rowTs

def laneFlag [DecidableEq F] (cells : ℕ → RegisterRow F) (i lane : ℕ) : F :=
  sameAddrFlag (fun i => (cells i).sorted lane) i

def regDiffInverse (cells : ℕ → RegisterRow F) (i lane : ℕ) : F :=
  (((cells (i + 1)).sorted lane).addr - ((cells i).sorted lane).addr)⁻¹

end Lanes

variable {p : ℕ} [Fact p.Prime] {L K : Type} [Field L] [Field K] [DecidableEq K]
  [Algebra (ZMod p) L] [Algebra (ZMod p) K] [Algebra L K] [IsScalarTower (ZMod p) L K]

section Statements

variable (ports : RegisterPorts) (domainSize : ℕ) (trace : ℕ → ℕ → ZMod p)
  (cells : ℕ → RegisterRow (ZMod p))

/-- The entries of the lanes belong to the accesses of a trace, whatever their
values are. -/
def RegisterArranged (matching : Equiv.Perm (Fin domainSize × Fin ports.list.length)) : Prop :=
  ∀ access, ((cells (matching access).1).sorted (matching access).2).Same 0
    (portAccess ports trace cells access.1 access.2)

/-- However the entries are told apart, that of a read stands in the lane of the
latest write and starts from it. -/
def ReadsFollowWrites : Prop :=
  ∀ matching, RegisterArranged ports domainSize trace cells matching →
    ∀ read write, (ports.at domainSize read).isWrite = false →
      LatestWrite ports domainSize trace read write →
        (matching read).2 = (matching write).2 ∧
          Chain.source (Follows fun i => (cells i).sorted (matching read).2)
            (matching read).1 = (matching write).1

/-- In the order of the lanes, all values that satisfy the bodies have reads that
return the latest write. -/
def RegisterOrderSound (gamma delta : K) (omega : ZMod p) : Prop :=
  ∀ (values sortedValues isSame inv : ℕ → ℕ → ZMod p) (z : ℕ → K),
    RegisterSatisfied ports gamma delta omega domainSize (ports.fill values trace)
      (refillLanes sortedValues isSame inv cells) z →
    ReadsReturnLatest ports domainSize (ports.fill values trace)

end Statements

section Order

variable {ports : RegisterPorts} {omega : ZMod p} {domainSize : ℕ}
  {trace : ℕ → ℕ → ZMod p} {cells : ℕ → RegisterRow (ZMod p)}

/-- Values that are the same along every chain of a lane satisfy its bodies. -/
theorem refill_lane {sortedValues : ℕ → ℕ → ZMod p} {row lane : ℕ}
    (inside : row < domainSize)
    (carried : ∀ i, Follows (fun i => (cells i).sorted lane) (i + 1) →
      sortedValues (i + 1) lane = sortedValues i lane)
    (writes : ∀ i < domainSize, ((cells i).sorted lane).rw = 0 ∨
      ((cells i).sorted lane).rw = 1) :
    LaneHolds (omega ^ row - omega ^ (domainSize - 1))
      (refillLanes sortedValues (laneFlag cells) (regDiffInverse cells) cells row)
      (refillLanes sortedValues (laneFlag cells) (regDiffInverse cells) cells
        ((row + 1) % domainSize)) lane := by
  have binary := sameAddrFlag_binary (fun i => (cells i).sorted lane) row
  rcases Nat.lt_or_eq_of_le (Nat.succ_le_of_lt inside) with next | last
  · rw [Nat.mod_eq_of_lt next]
    have compared := @comparison_holds _ _ _ (fun i => (cells i).sorted lane) row
      (fun i => sortedValues i lane) (carried row) (writes (row + 1) next)
    exact ⟨binary, mul_eq_zero_of_left compared.1 _, mul_eq_zero_of_left compared.2.1 _,
      mul_eq_zero_of_left compared.2.2 _⟩
  · have wrap : omega ^ row - omega ^ (domainSize - 1) = 0 := by
      rw [← last, Nat.succ_sub_one, sub_self]
    exact ⟨binary, mul_eq_zero_of_right _ wrap, mul_eq_zero_of_right _ wrap,
      mul_eq_zero_of_right _ wrap⟩

theorem registerArranged_rw {matching : Equiv.Perm (Fin domainSize × Fin ports.list.length)}
    (arranged : RegisterArranged ports domainSize trace cells matching)
    (access : Fin domainSize × Fin ports.list.length) :
    ((cells (matching access).1).sorted (matching access).2).rw =
      if (ports.at domainSize access).isWrite then 1 else 0 :=
  (arranged access).rw

theorem lane_rw_binary {matching : Equiv.Perm (Fin domainSize × Fin ports.list.length)}
    (arranged : RegisterArranged ports domainSize trace cells matching) :
    ∀ lane < ports.list.length, ∀ i < domainSize,
      ((cells i).sorted lane).rw = 0 ∨ ((cells i).sorted lane).rw = 1 := by
  intro lane listed i inside
  have entry := registerArranged_rw arranged (matching.symm (⟨i, inside⟩, ⟨lane, listed⟩))
  rw [Equiv.apply_symm_apply] at entry
  rw [entry]
  split
  · exact .inr rfl
  · exact .inl rfl

/-- The entry of a write starts a chain. -/
theorem write_not_follows {matching : Equiv.Perm (Fin domainSize × Fin ports.list.length)}
    (arranged : RegisterArranged ports domainSize trace cells matching)
    {write : Fin domainSize × Fin ports.list.length}
    (writes : (ports.at domainSize write).isWrite = true) :
    ¬ Follows (fun i => (cells i).sorted (matching write).2) (matching write).1 := by
  intro follows
  have entry := registerArranged_rw arranged write
  rw [if_pos writes, follows.2.2] at entry
  exact zero_ne_one entry

/-- Every port has a value column of its own. -/
theorem valCol_injective {first second : Fin domainSize × Fin ports.list.length}
    (same : (ports.at domainSize first).valCol = (ports.at domainSize second).valCol) :
    first.2 = second.2 := by
  have equal := List.inj_on_of_nodup_map ports.distinct (List.getElem_mem first.2.isLt)
    (List.getElem_mem second.2.isLt) same
  exact Fin.ext ((List.Nodup.getElem_inj_iff (ports.distinct.of_map _)).1 equal)

section Directions

variable {gamma : K} {delta : L} (freeDelta : Transcendental (ZMod p) delta)
  (freeGamma : Transcendental L gamma) (root : IsPrimitiveRoot omega domainSize)

include freeDelta freeGamma root

/-- A read that is chained to something else can be given another value. -/
theorem readsFollowWrites_of_orderSound
    (sound : RegisterOrderSound ports domainSize trace cells gamma (algebraMap L K delta)
      omega) :
    ReadsFollowWrites ports domainSize trace cells := by
  intro matching arranged read write reads latest
  by_contra astray
  -- the chain of the read holds ones, everything else zeros
  let readLane : ℕ := (matching read).2
  let start : ℕ := Chain.source (Follows fun i => (cells i).sorted readLane) (matching read).1
  let mark (i lane : ℕ) : ZMod p :=
    if lane = readLane ∧ Chain.source (Follows fun i => (cells i).sorted lane) i = start
      then 1 else 0
  let values (row col : ℕ) : ZMod p :=
    if inside : row < domainSize then
      ∑ port : Fin ports.list.length, if ports.list[port].valCol = col then
        mark (matching (⟨row, inside⟩, port)).1 (matching (⟨row, inside⟩, port)).2 else 0
    else 0
  have valueAt : ∀ access : Fin domainSize × Fin ports.list.length,
      ports.fill values trace access.1 (ports.at domainSize access).valCol =
        mark (matching access).1 (matching access).2 := by
    rintro ⟨row, port⟩
    rw [fill_valCol]
    show (if inside : (row : ℕ) < domainSize then _ else _) = _
    rw [dif_pos row.isLt, Finset.sum_eq_single port]
    · rw [if_pos rfl]
    · intro other _ differs
      have injective := @valCol_injective ports domainSize (row, other) (row, port)
      exact if_neg fun same => differs (injective same)
    · intro missing
      exact absurd (Finset.mem_univ port) missing
  have matched : ∀ access, ((refillLanes mark (laneFlag cells) (regDiffInverse cells) cells
      (matching access).1).sorted (matching access).2).Same 1
      (portAccess ports (ports.fill values trace)
        (refillLanes mark (laneFlag cells) (regDiffInverse cells) cells) access.1 access.2) := by
    intro access
    refine ⟨?_, fun v _ => (valueAt access).symm, (arranged access).timestamp,
      (arranged access).rw⟩
    have column := @fill_regCol (ZMod p) ports domainSize trace values access.1 access
    exact (arranged access).addr.trans column.symm
  have carried : ∀ lane i : ℕ, Follows (fun i => (cells i).sorted lane) (i + 1) →
      mark (i + 1) lane = mark i lane := by
    intro lane i follows
    simp only [mark, Chain.source, if_pos follows]
  obtain ⟨z, satisfied⟩ := exists_register_product freeDelta freeGamma root matched
    fun row inside lane listed => refill_lane inside (carried lane)
      (lane_rw_binary arranged lane listed)
  have returned := sound values mark (laneFlag cells) (regDiffInverse cells) z satisfied read
    reads write (latestWrite_fill.2 latest)
  have one : mark (matching read).1 (matching read).2 = 1 := if_pos ⟨rfl, rfl⟩
  have zero : mark (matching write).1 (matching write).2 = 0 := by
    apply if_neg
    rintro ⟨sameLane, sameStart⟩
    rw [Chain.source_of_not_follows (write_not_follows arranged latest.writes)] at sameStart
    exact astray ⟨(Fin.ext sameLane).symm, sameStart.symm⟩
  rw [valueAt read, valueAt write, one, zero] at returned
  exact one_ne_zero returned

/-- A read that is chained to its latest write has no other value. -/
theorem orderSound_of_readsFollowWrites
    (chained : ReadsFollowWrites ports domainSize trace cells) :
    RegisterOrderSound ports domainSize trace cells gamma (algebraMap L K delta) omega := by
  intro values sortedValues isSame inv z satisfied read reads write latest
  obtain ⟨matching, matched⟩ := satisfied.exists_matching freeDelta freeGamma
  have arranged : RegisterArranged ports domainSize trace cells matching := by
    intro access
    have same := matched access
    refine ⟨same.addr.trans (fill_regCol _ access), fun _ impossible =>
      absurd impossible (Nat.not_lt_zero _), same.timestamp, same.rw⟩
  obtain ⟨lane, start⟩ := chained matching arranged read write reads (latestWrite_fill.1 latest)
  have carried := satisfied.value_source root (matching read).1.isLt (matching read).2.isLt
  calc ports.fill values trace read.1 (ports.at domainSize read).valCol
      = sortedValues (matching read).1 (matching read).2 :=
        ((matched read).values 0 Nat.one_pos).symm
    _ = sortedValues (Chain.source (Follows fun i => (cells i).sorted (matching read).2)
          (matching read).1) (matching read).2 := carried.symm
    _ = sortedValues (matching write).1 (matching write).2 := by rw [start, lane]
    _ = ports.fill values trace write.1 (ports.at domainSize write).valCol :=
        (matched write).values 0 Nat.one_pos

end Directions

/-- The register permutation makes reads return the latest write exactly in the
orders that chain the entry of a read to that of its latest write in one lane. -/
theorem registerPermutation_sound_iff {gamma : K} {delta : L}
    (freeDelta : Transcendental (ZMod p) delta) (freeGamma : Transcendental L gamma)
    (root : IsPrimitiveRoot omega domainSize) :
    RegisterOrderSound ports domainSize trace cells gamma (algebraMap L K delta) omega ↔
      ReadsFollowWrites ports domainSize trace cells :=
  ⟨readsFollowWrites_of_orderSound freeDelta freeGamma root,
    orderSound_of_readsFollowWrites freeDelta freeGamma root⟩

end Order

section Lanes

variable {ports : RegisterPorts} {domainSize : ℕ} {trace : ℕ → ℕ → ZMod p}
  {place : Equiv.Perm (Fin domainSize × Fin ports.list.length)}

/-- Lanes that hold the accesses of a trace at chosen places, with the index of a
row as its timestamp. -/
def lanesInOrder (ports : RegisterPorts) (domainSize : ℕ) (trace : ℕ → ℕ → ZMod p)
    (place : Equiv.Perm (Fin domainSize × Fin ports.list.length)) (i : ℕ) :
    RegisterRow (ZMod p) where
  sorted lane :=
    if inside : i < domainSize ∧ lane < ports.list.length then
      let access := place.symm (⟨i, inside.1⟩, ⟨lane, inside.2⟩)
      (ports.at domainSize access).accessAt ports.list.length (trace access.1)
        ((access.1 : ℕ) : ZMod p) access.2
    else ⟨0, fun _ => 0, 0, 0⟩
  isSameReg _ := 0
  invRegDiff _ := 0
  rowTs := (i : ZMod p)

theorem lanesInOrder_sorted (access : Fin domainSize × Fin ports.list.length) :
    (lanesInOrder ports domainSize trace place (place access).1).sorted (place access).2 =
      portAccess ports trace (lanesInOrder ports domainSize trace place) access.1 access.2 := by
  simp only [lanesInOrder, Fin.isLt, and_self, dite_true, Fin.eta, Prod.mk.eta,
    Equiv.symm_apply_apply, portAccess]

theorem lanesInOrder_arranged : RegisterArranged ports domainSize trace
    (lanesInOrder ports domainSize trace place) place := by
  intro access
  rw [lanesInOrder_sorted]
  exact ⟨rfl, fun _ _ => rfl, rfl, rfl⟩

theorem portAccess_timestamp (access : Fin domainSize × Fin ports.list.length) :
    (portAccess ports trace (lanesInOrder ports domainSize trace place) access.1
      access.2).timestamp = ((ports.list.length * access.1 + access.2 : ℕ) : ZMod p) := by
  show (ports.list.length : ZMod p) * ((access.1 : ℕ) : ZMod p) + _ = _
  push_cast
  rfl

/-- Timestamps tell the accesses apart. -/
theorem place_eq_of_arranged (small : ports.list.length * domainSize ≤ p)
    {matching : Equiv.Perm (Fin domainSize × Fin ports.list.length)}
    (arranged : RegisterArranged ports domainSize trace
      (lanesInOrder ports domainSize trace place) matching) : matching = place := by
  apply Equiv.ext
  intro access
  obtain ⟨other, placed⟩ := place.surjective (matching access)
  have stamp := (arranged access).timestamp
  rw [← placed, lanesInOrder_sorted, portAccess_timestamp, portAccess_timestamp] at stamp
  have bound : ∀ access : Fin domainSize × Fin ports.list.length,
      ports.list.length * access.1 + access.2 < p := by
    intro access
    have step := Nat.mul_le_mul_left ports.list.length (Nat.succ_le_of_lt access.1.isLt)
    rw [Nat.mul_succ] at step
    exact (Nat.add_lt_add_left access.2.isLt _).trans_le (step.trans small)
  have values := congrArg ZMod.val stamp
  rw [ZMod.val_natCast_of_lt (bound other), ZMod.val_natCast_of_lt (bound access)] at values
  have positive : 0 < ports.list.length := Nat.zero_lt_of_lt access.2.isLt
  have rows := congrArg (· / ports.list.length) values
  have lanes := congrArg (· % ports.list.length) values
  simp only [Nat.mul_add_div positive, Nat.mul_add_mod, Nat.div_eq_of_lt (Fin.isLt _),
    Nat.mod_eq_of_lt (Fin.isLt _), Nat.add_zero] at rows lanes
  rw [← placed, Prod.ext (Fin.ext rows) (Fin.ext lanes)]

end Lanes

section Examples

open Riscv.Constraints

/-- Register 1 is written in the first row and read in all of them. -/
def writtenOnce (row column : ℕ) : Fr :=
  if column = colRs1.val ∨ column = colRd.val ∧ row = 0 then 1
  else if column = colRs2.val then 2 else 0

/-- The write and the reads of register 1 stand in the first lane. -/
def readsAfterWrite : Equiv.Perm (Fin 16 × Fin registerPorts.list.length) :=
  Equiv.prodShear (Equiv.refl _) fun row =>
    if row.val = 0 then finRotate _ else Fin.revPerm.trans (finRotate _)

def writtenOnceLanes : ℕ → RegisterRow Fr :=
  lanesInOrder registerPorts 16 writtenOnce readsAfterWrite

theorem readsAfterWrite_first : readsAfterWrite (0, (2 : Fin 3)) = (0, (0 : Fin 3)) := rfl

theorem readsAfterWrite_later {row : Fin 16} (later : 0 < row.val) :
    readsAfterWrite (row, (0 : Fin 3)) = (row, (0 : Fin 3)) := by
  show (row, (if row.val = 0 then finRotate _ else Fin.revPerm.trans (finRotate _)) _) = _
  rw [if_neg (Nat.pos_iff_ne_zero.1 later)]
  rfl

/-- The first lane is about register 1 alone, and is read from the second row on. -/
theorem writtenOnceLanes_first (row : Fin 16) : ((writtenOnceLanes row).sorted 0).addr = 1 ∧
    (0 < row.val → ((writtenOnceLanes row).sorted 0).rw = 0) := by
  rcases Nat.eq_zero_or_pos row.val with first | later
  · obtain rfl : row = 0 := Fin.ext first
    have entry := @lanesInOrder_sorted _ _ registerPorts 16 writtenOnce readsAfterWrite
      (0, (2 : Fin 3))
    rw [readsAfterWrite_first] at entry
    have written : writtenOnce 0 colRd.val = 1 := if_pos (.inr ⟨rfl, rfl⟩)
    exact ⟨(congrArg Access.addr entry).trans written, fun later => absurd later (by decide)⟩
  · have entry := @lanesInOrder_sorted _ _ registerPorts 16 writtenOnce readsAfterWrite
      (row, (0 : Fin 3))
    rw [readsAfterWrite_later later] at entry
    have read : writtenOnce row colRs1.val = 1 := if_pos (.inl rfl)
    exact ⟨(congrArg Access.addr entry).trans read, fun _ => congrArg Access.rw entry⟩

theorem port_cases (port : Fin registerPorts.list.length) :
    port = (0 : Fin 3) ∨ port = (1 : Fin 3) ∨ port = (2 : Fin 3) := by
  revert port
  show ∀ port : Fin 3, port = 0 ∨ port = 1 ∨ port = 2
  decide

/-- Only reads of the first port have a write to see, that of the first row. -/
theorem writtenOnce_latest {row origin : Fin 16} {read write : Fin registerPorts.list.length}
    (latest : LatestWrite registerPorts 16 writtenOnce (row, read) (origin, write))
    (reads : (registerPorts.at 16 (row, read)).isWrite = false) :
    write = (2 : Fin 3) ∧ read = (0 : Fin 3) ∧ origin.val = 0 := by
  have writes := latest.writes
  have reg := latest.reg
  have written : writtenOnce origin colRd.val = if origin.val = 0 then 1 else 0 := by
    simp [writtenOnce, colRd, colRs1, colRs2]
  rcases port_cases write with rfl | rfl | rfl
  · exact absurd writes Bool.false_ne_true
  · exact absurd writes Bool.false_ne_true
  rcases port_cases read with rfl | rfl | rfl
  · have readFirst : writtenOnce row colRs1.val = 1 := if_pos (.inl rfl)
    have same := (written.symm.trans reg).trans readFirst
    refine ⟨rfl, rfl, ?_⟩
    by_contra other
    rw [if_neg other] at same
    exact zero_ne_one same
  · have readSecond : writtenOnce row colRs2.val = 2 := rfl
    have same := (written.symm.trans reg).trans readSecond
    split at same <;> exact absurd same (by decide)
  · exact absurd reads.symm Bool.false_ne_true

open Classical in
/-- A write and the reads that see it, all in one lane. -/
theorem writtenOnce_sound : RegisterOrderSound registerPorts 16 writtenOnce writtenOnceLanes
    (RatFunc.X : RatFunc (RatFunc Fr)) (algebraMap (RatFunc Fr) _ RatFunc.X)
    (rootTwoPow32 ^ 2 ^ 28) := by
  have sixteenth : IsPrimitiveRoot (rootTwoPow32 ^ 2 ^ 28) 16 :=
    rootTwoPow32_primitive.pow (by positivity) (by norm_num)
  refine (registerPermutation_sound_iff RatFunc.transcendental_X RatFunc.transcendental_X
    sixteenth).2 ?_
  rintro matching arranged ⟨row, read⟩ ⟨origin, write⟩ reads latest
  rw [place_eq_of_arranged (by decide) arranged]
  obtain ⟨rfl, rfl, first⟩ := writtenOnce_latest latest reads
  have later : 0 < row.val := by
    rcases Prod.Lex.toLex_lt_toLex.1 latest.earlier with above | ⟨-, below⟩
    · exact Nat.zero_lt_of_lt above
    · exact absurd below (Nat.not_lt_zero 2)
  obtain rfl : origin = 0 := Fin.ext first
  rw [readsAfterWrite_first, readsAfterWrite_later later]
  refine ⟨rfl, Chain.source_eq (fun follows => Nat.lt_irrefl _ follows.1) (Nat.zero_le _) ?_⟩
  intro between after inside
  have within := inside.trans_lt row.isLt
  have here := writtenOnceLanes_first ⟨between, within⟩
  have previous := writtenOnceLanes_first ⟨between - 1, (Nat.sub_le _ _).trans_lt within⟩
  exact ⟨after, here.1.trans previous.1.symm, here.2 after⟩

/-- Columns that satisfy the bodies have reads that return the latest write. -/
def RegisterSound (ports : RegisterPorts) (gamma delta : K) (omega : ZMod p)
    (domainSize : ℕ) : Prop :=
  ∀ (trace : ℕ → ℕ → ZMod p) (cells : ℕ → RegisterRow (ZMod p)) (z : ℕ → K),
    RegisterSatisfied ports gamma delta omega domainSize trace cells z →
    ReadsReturnLatest ports domainSize trace

open Classical in
/-- Every port in a lane of its own: reads stand in another lane than all writes. -/
theorem registerPermutation_unsound : ¬ RegisterSound registerPorts
    (RatFunc.X : RatFunc (RatFunc Fr)) (algebraMap (RatFunc Fr) _ RatFunc.X)
    (rootTwoPow32 ^ 2 ^ 28) 16 := by
  intro sound
  have sixteenth : IsPrimitiveRoot (rootTwoPow32 ^ 2 ^ 28) 16 :=
    rootTwoPow32_primitive.pow (by positivity) (by norm_num)
  have follows := @readsFollowWrites_of_orderSound _ _ (RatFunc Fr) (RatFunc (RatFunc Fr)) _ _ _
    _ _ _ _ registerPorts _ 16 (fun _ _ => 0) (lanesInOrder registerPorts 16 (fun _ _ => 0) 1)
    _ _ RatFunc.transcendental_X RatFunc.transcendental_X sixteenth
    fun values sortedValues isSame inv z satisfied => sound _ _ z satisfied
  have latest : LatestWrite registerPorts 16 (fun _ _ => (0 : Fr)) (1, (0 : Fin 3))
      (0, (2 : Fin 3)) := by
    refine ⟨by decide, rfl, rfl, fun access after before => ?_⟩
    rw [Prod.Lex.toLex_lt_toLex] at after before
    obtain ⟨row, port⟩ := access
    rcases after with above | ⟨rfl, above⟩
    · rcases before with below | ⟨-, below⟩
      · exact absurd above (Nat.not_lt.2 (Nat.le_of_lt_succ below))
      · exact absurd below (Nat.not_lt_zero _)
    · exact absurd port.isLt (Nat.not_lt.2 above)
  have lanes := (follows 1 lanesInOrder_arranged _ _ rfl latest).1
  exact absurd lanes (by decide)

end Examples

end MetaVm.Zkp
