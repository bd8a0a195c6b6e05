import MetaVm.Zkp.ByteMemoryExact
import MetaVm.Zkp.GrandProductClosure
import MetaVm.Zkp.RegisterOrder

namespace MetaVm.Zkp

/-! The columns that the prover commits for the registers. The accesses of all
ports are sorted by register and time, and dealt out over the lanes in turn. -/

section Prover

variable {p numValues : ℕ}

/-- The word in a cell of the trace. Rows behind its end are zero. -/
def cellWord (trace : ℕ → ℕ → ZMod p) (numRows row col : ℕ) : BitVec 64 :=
  if row < numRows then Scalar.toU64 (trace row col) else 0

def RegisterPort.access (port : RegisterPort) (trace : ℕ → ℕ → ZMod p) (numRows numPorts row
    portIdx : ℕ) : MemoryAccess 1 where
  addr := cellWord trace numRows row port.regCol
  values _ := cellWord trace numRows row port.valCol
  timestamp := BitVec.ofNat 64 (row * numPorts + portIdx)
  rw := if port.isWrite then 1 else 0

def rowAccesses (ports : RegisterPorts) (trace : ℕ → ℕ → ZMod p) (numRows row : ℕ) :
    List (MemoryAccess 1) :=
  ports.list.zipIdx.map fun (port, portIdx) =>
    port.access trace numRows ports.list.length row portIdx

/-- The accesses of all ports, row by row. -/
def collectAccesses (ports : RegisterPorts) (trace : ℕ → ℕ → ZMod p)
    (numRows domainSize : ℕ) : List (MemoryAccess 1) :=
  (List.range domainSize).flatMap (rowAccesses ports trace numRows)

def accessKeyLe (first second : MemoryAccess numValues) : Bool :=
  first.addr < second.addr ∨
    first.addr = second.addr ∧ first.timestamp ≤ second.timestamp

def sortAccesses (accesses : List (MemoryAccess numValues)) : List (MemoryAccess numValues) :=
  accesses.mergeSort accessKeyLe

/-- The lanes of a row. A flag looks at the row before, an inverse at the row
behind. -/
def dealtRow (sorted : List (MemoryAccess 1)) (numPorts domainSize row : ℕ) :
    RegisterRow (ZMod p) where
  sorted lane := (sorted[row * numPorts + lane]?.map (·.toAccess (ZMod p))).getD
    ⟨0, fun _ => 0, 0, 0⟩
  isSameReg lane :=
    match sorted[row * numPorts + lane]?, sorted[(row - 1) * numPorts + lane]? with
    | some current, some previous =>
        if 0 < row ∧ current.addr = previous.addr then 1 else 0
    | _, _ => 0
  invRegDiff lane :=
    match sorted[(row + 1) * numPorts + lane]?, sorted[row * numPorts + lane]? with
    | some next, some current =>
        if row + 1 < domainSize ∧ next.addr ≠ current.addr then
          (Scalar.fromU64 (next.addr - current.addr))⁻¹
        else 0
    | _, _ => 0
  rowTs := Scalar.fromU64 (BitVec.ofNat 64 row)

/-- Every row takes the running product in front of its accesses. -/
def registerProduct {K : Type} [Field K] (gamma delta : K)
    (original sorted : List (MemoryAccess 1)) (numPorts row : ℕ) : K :=
  if row = 0 then 1
  else (computeGrandProduct gamma delta original sorted)[row * numPorts]?.getD 0

end Prover

section Accesses

variable {numValues : ℕ}

theorem accessKeyLe_trans (first second third : MemoryAccess numValues)
    (left : accessKeyLe first second) (right : accessKeyLe second third) :
    accessKeyLe first third := by
  simp only [accessKeyLe, decide_eq_true_eq, BitVec.lt_def, BitVec.le_def,
    ← BitVec.toNat_inj] at *
  omega

theorem accessKeyLe_total (first second : MemoryAccess numValues) :
    accessKeyLe first second || accessKeyLe second first := by
  simp only [accessKeyLe, Bool.or_eq_true, decide_eq_true_eq, BitVec.lt_def, BitVec.le_def,
    ← BitVec.toNat_inj]
  omega

theorem sortAccesses_perm (accesses : List (MemoryAccess numValues)) :
    (sortAccesses accesses).Perm accesses :=
  List.mergeSort_perm accesses _

/-- Registers do not go down in the sorted list. -/
theorem sortAccesses_addr_le {accesses : List (MemoryAccess numValues)} {i j : ℕ}
    {first second : MemoryAccess numValues} (before : i < j)
    (at_i : (sortAccesses accesses)[i]? = some first)
    (at_j : (sortAccesses accesses)[j]? = some second) : first.addr ≤ second.addr := by
  have ordered : (sortAccesses accesses).Pairwise fun left right => accessKeyLe left right :=
    List.pairwise_mergeSort accessKeyLe_trans accessKeyLe_total accesses
  obtain ⟨insideFirst, rfl⟩ := List.getElem?_eq_some_iff.1 at_i
  obtain ⟨insideSecond, rfl⟩ := List.getElem?_eq_some_iff.1 at_j
  have key := List.pairwise_iff_getElem.1 ordered i j insideFirst insideSecond before
  simp only [accessKeyLe, decide_eq_true_eq, BitVec.lt_def, ← BitVec.toNat_inj] at key
  rw [BitVec.le_def]
  omega

end Accesses

section Products

variable {numValues : ℕ} {K : Type} [Field K] (gamma delta : K)

/-- The tuple of the access at a position of a list. -/
def hashAt (accesses : List (MemoryAccess numValues)) (i : ℕ) : K :=
  (accesses[i]?.map (·.tupleHash gamma delta)).getD 1

theorem prod_hashAt (accesses : List (MemoryAccess numValues)) :
    ∏ i ∈ Finset.range accesses.length, hashAt gamma delta accesses i =
      (accesses.map (·.tupleHash gamma delta)).prod := by
  induction accesses with
  | nil => rfl
  | cons access accesses hypothesis =>
      rw [List.length_cons, Finset.prod_range_succ', List.map_cons, List.prod_cons, mul_comm]
      exact congrArg _ hypothesis

theorem grandProductFrom_getElem (z : K) {original sorted : List (MemoryAccess numValues)}
    (sameLength : original.length = sorted.length) {k : ℕ} (inside : k < original.length) :
    (grandProductFrom gamma delta z original sorted)[k]? = some (z *
      ∏ i ∈ Finset.range k, hashAt gamma delta original i / hashAt gamma delta sorted i) := by
  induction original generalizing z sorted k with
  | nil => exact absurd inside (Nat.not_lt_zero _)
  | cons first original hypothesis =>
      cases sorted with
      | nil => cases sameLength
      | cons second sorted =>
          rw [grandProductFrom]
          cases k with
          | zero => simp
          | succ k =>
              rw [List.getElem?_cons_succ, hypothesis _ (Nat.succ.inj sameLength)
                (Nat.lt_of_succ_lt_succ inside), Finset.prod_range_succ']
              simp only [hashAt, List.getElem?_cons_succ, List.getElem?_cons_zero,
                Option.map_some, Option.getD_some]
              congr 1
              ring

theorem prod_range_mul_add (f : ℕ → K) (size row : ℕ) :
    ∏ i ∈ Finset.range (row * size), f i =
      ∏ r ∈ Finset.range row, ∏ k ∈ Finset.range size, f (r * size + k) := by
  induction row with
  | zero => simp
  | succ row hypothesis =>
      rw [Finset.prod_range_succ, Nat.succ_mul, Finset.prod_range_add, hypothesis]

/-- The product column of the prover. -/
theorem registerProduct_eq {original sorted : List (MemoryAccess 1)}
    (sameLength : original.length = sorted.length) {numPorts row : ℕ}
    (inside : row * numPorts < original.length) :
    registerProduct gamma delta original sorted numPorts row =
      ∏ r ∈ Finset.range row,
        (∏ k ∈ Finset.range numPorts, hashAt gamma delta original (r * numPorts + k)) /
          ∏ k ∈ Finset.range numPorts, hashAt gamma delta sorted (r * numPorts + k) := by
  simp only [← Finset.prod_div_distrib]
  rw [← prod_range_mul_add (fun i => hashAt gamma delta original i / hashAt gamma delta sorted i),
    registerProduct]
  split
  · rename_i first
    rw [first, Nat.zero_mul, Finset.prod_range_zero]
  · rw [computeGrandProduct, grandProductFrom_getElem gamma delta 1 sameLength inside,
      Option.getD_some, one_mul]

end Products

section Collected

variable {p : ℕ} {ports : RegisterPorts} {trace : ℕ → ℕ → ZMod p} {numRows domainSize : ℕ}

theorem length_rowAccesses (row : ℕ) :
    (rowAccesses ports trace numRows row).length = ports.list.length := by
  simp [rowAccesses]

theorem length_collectAccesses :
    (collectAccesses ports trace numRows domainSize).length =
      domainSize * ports.list.length := by
  simp [collectAccesses, List.length_flatMap, length_rowAccesses]

theorem collectAccesses_succ :
    collectAccesses ports trace numRows (domainSize + 1) =
      collectAccesses ports trace numRows domainSize ++
        rowAccesses ports trace numRows domainSize := by
  rw [collectAccesses, List.range_succ, List.flatMap_append, List.flatMap_singleton]
  rfl

theorem collectAccesses_getElem {row : ℕ} (inside : row < domainSize)
    (port : Fin ports.list.length) :
    (collectAccesses ports trace numRows domainSize)[row * ports.list.length + port]? =
      some (ports.list[port].access trace numRows ports.list.length row port) := by
  induction domainSize with
  | zero => exact absurd inside (Nat.not_lt_zero _)
  | succ size hypothesis =>
      rw [collectAccesses_succ]
      rcases Nat.lt_or_eq_of_le (Nat.le_of_lt_succ inside) with before | rfl
      · rw [List.getElem?_append_left, hypothesis before]
        rw [length_collectAccesses]
        have step := Nat.mul_le_mul_right ports.list.length (Nat.succ_le_of_lt before)
        rw [Nat.succ_mul] at step
        exact (Nat.add_lt_add_left port.isLt _).trans_le step
      · rw [List.getElem?_append_right (by simp [length_collectAccesses]),
          length_collectAccesses, Nat.add_sub_cancel_left]
        simp [rowAccesses]

theorem collectAccesses_rw {access : MemoryAccess 1}
    (member : access ∈ collectAccesses ports trace numRows domainSize) :
    access.rw = 0 ∨ access.rw = 1 := by
  obtain ⟨row, -, inRow⟩ := List.mem_flatMap.1 member
  obtain ⟨⟨port, portIdx⟩, -, rfl⟩ := List.mem_map.1 inRow
  simp only [RegisterPort.access]
  cases port.isWrite
  · exact .inl rfl
  · exact .inr rfl

/-- The cells of the ports hold words, and are zero behind the trace. -/
structure PaddedWords (ports : RegisterPorts) (numRows : ℕ) (trace : ℕ → ℕ → ZMod p) :
    Prop where
  words : ∀ row, ∀ port ∈ ports.list,
    (trace row port.regCol).val < 2 ^ 64 ∧ (trace row port.valCol).val < 2 ^ 64
  padding : ∀ row, numRows ≤ row → ∀ port ∈ ports.list,
    trace row port.regCol = 0 ∧ trace row port.valCol = 0

theorem cellWord_cast [NeZero p] {row col : ℕ} (word : (trace row col).val < 2 ^ 64)
    (padding : numRows ≤ row → trace row col = 0) :
    ((cellWord trace numRows row col).toNat : ZMod p) = trace row col := by
  rw [cellWord]
  split
  · rw [Scalar.toU64, BitVec.toNat_ofNat, Nat.mod_eq_of_lt word, ZMod.natCast_zmod_val]
  · rename_i behind
    rw [padding (Nat.le_of_not_lt behind)]
    exact Nat.cast_zero

/-- The collected accesses are those that the bodies see. -/
theorem portAccess_same [Fact p.Prime] (padded : PaddedWords ports numRows trace)
    (addressable : domainSize * ports.list.length ≤ 2 ^ 64)
    {cells : ℕ → RegisterRow (ZMod p)}
    (stamped : ∀ row, (cells row).rowTs = Scalar.fromU64 (BitVec.ofNat 64 row)) {row : ℕ}
    (inside : row < domainSize) (port : Fin ports.list.length) :
    ((ports.list[port].access trace numRows ports.list.length row port).toAccess (ZMod p)).Same
      1 (portAccess ports trace cells row port) := by
  have listed : ports.list[port] ∈ ports.list := List.getElem_mem port.isLt
  have words := padded.words row _ listed
  have padding := fun behind => padded.padding row behind _ listed
  have positive : 0 < ports.list.length := Nat.zero_lt_of_lt port.isLt
  have last : row * ports.list.length + port < 2 ^ 64 := by
    have step := Nat.mul_le_mul_right ports.list.length (Nat.succ_le_of_lt inside)
    rw [Nat.succ_mul] at step
    exact (Nat.add_lt_add_left port.isLt _).trans_le (step.trans addressable)
  have rowBound : row < 2 ^ 64 :=
    ((Nat.le_mul_of_pos_right row positive).trans (Nat.le_add_right _ _)).trans_lt last
  refine ⟨cellWord_cast words.1 fun behind => (padding behind).1, fun v single => ?_, ?_, ?_⟩
  · show (if inside : v < 1 then ((cellWord trace numRows row _).toNat : ZMod p) else 0) = _
    rw [dif_pos single]
    exact cellWord_cast words.2 fun behind => (padding behind).2
  · show (((BitVec.ofNat 64 (row * ports.list.length + port)).toNat : ℕ) : ZMod p) =
      (ports.list.length : ZMod p) * (cells row).rowTs + ((port : ℕ) : ZMod p)
    rw [BitVec.toNat_ofNat, Nat.mod_eq_of_lt last, stamped, Scalar.fromU64,
      BitVec.toNat_ofNat, Nat.mod_eq_of_lt rowBound]
    push_cast
    ring
  · show (((if ports.list[port].isWrite then (1 : BitVec 64) else 0).toNat : ℕ) : ZMod p) =
      if ports.list[port].isWrite then 1 else 0
    split
    · exact Nat.cast_one
    · exact Nat.cast_zero

end Collected

section Lanes

variable {p : ℕ} [Fact p.Prime] {sorted : List (MemoryAccess 1)} {numPorts domainSize : ℕ}

/-- Reads agree with the entry that is dealt to the same lane before them. -/
def LanesAgree (numPorts : ℕ) (sorted : List (MemoryAccess 1)) : Prop :=
  ∀ i previous read, sorted[i]? = some previous → sorted[i + numPorts]? = some read →
    read.rw = 0 → read.addr = previous.addr → read.values = previous.values

theorem dealt_binary (row lane : ℕ) :
    (dealtRow sorted numPorts domainSize row : RegisterRow (ZMod p)).isSameReg lane *
      ((dealtRow sorted numPorts domainSize row : RegisterRow (ZMod p)).isSameReg lane - 1) =
        0 := by
  simp only [dealtRow]
  split
  · split <;> simp
  · simp

/-- What the bodies of a lane compare. -/
theorem dealt_laneHolds_iff (large : 2 ^ 64 ≤ p) {exclusion : ZMod p}
    (inner : exclusion ≠ 0) {row lane : ℕ} {current next : MemoryAccess 1}
    (at_row : sorted[row * numPorts + lane]? = some current)
    (at_next : sorted[(row + 1) * numPorts + lane]? = some next)
    (before : row + 1 < domainSize) (ordered : current.addr ≤ next.addr)
    (binary : next.rw = 0 ∨ next.rw = 1) :
    LaneHolds exclusion (dealtRow sorted numPorts domainSize row)
        (dealtRow sorted numPorts domainSize (row + 1)) lane ↔
      (next.rw = 0 → next.addr = current.addr → next.values = current.values) := by
  have value : ∀ access : MemoryAccess 1, (access.toAccess (ZMod p)).values 0 =
      Scalar.fromU64 (access.values 0) := by
    intro access
    simp [MemoryAccess.toAccess, Scalar.fromU64]
  have single : next.values = current.values ↔ next.values 0 = current.values 0 :=
    ⟨fun same => congrFun same 0, fun same => funext fun v => by rwa [Subsingleton.elim v 0]⟩
  have here : ((dealtRow sorted numPorts domainSize row).sorted lane : Access (ZMod p)) =
      current.toAccess _ := by simp [dealtRow, at_row]
  have behind : ((dealtRow sorted numPorts domainSize (row + 1)).sorted lane :
      Access (ZMod p)) = next.toAccess _ := by simp [dealtRow, at_next]
  have flag : (dealtRow sorted numPorts domainSize (row + 1) :
      RegisterRow (ZMod p)).isSameReg lane = if next.addr = current.addr then 1 else 0 := by
    simp [dealtRow, at_row, at_next]
  have inverse : (dealtRow sorted numPorts domainSize row :
      RegisterRow (ZMod p)).invRegDiff lane = if next.addr = current.addr then 0 else
        (Scalar.fromU64 (next.addr - current.addr))⁻¹ := by
    simp [dealtRow, at_row, at_next, before]
  have addr : ∀ access : MemoryAccess 1, (access.toAccess (ZMod p)).addr =
      Scalar.fromU64 access.addr := fun _ => rfl
  have difference : (Scalar.fromU64 (next.addr - current.addr) : ZMod p) =
      Scalar.fromU64 next.addr - Scalar.fromU64 current.addr := by
    rw [Scalar.fromU64, BitVec.toNat_sub_of_le ordered, Nat.cast_sub ordered]
    rfl
  constructor
  · intro holds read same
    have consistency := holds.consistency
    rw [flag, if_pos same, here, behind, value, value,
      show (next.toAccess (ZMod p)).rw = 0 from (congrArg (fun w : BitVec 64 =>
        (w.toNat : ZMod p)) read).trans Nat.cast_zero, sub_zero, one_mul, one_mul] at consistency
    rw [single, ← @ByteMemory.fromU64_inj p large]
    exact sub_eq_zero.1 ((mul_eq_zero.1 consistency).resolve_right inner)
  · intro agree
    by_cases same : next.addr = current.addr
    · refine ⟨dealt_binary row lane, ?_, ?_, ?_⟩
      · rw [here, behind, addr, addr, same, sub_self, mul_zero, zero_mul]
      · rw [flag, if_pos same, sub_self, zero_mul, zero_mul]
      · rcases binary with read | write
        · rw [here, behind, value, value, (single.1 (agree read same)), sub_self, mul_zero,
            zero_mul]
        · rw [behind, show (next.toAccess (ZMod p)).rw = 1 from (congrArg (fun w : BitVec 64 =>
            (w.toNat : ZMod p)) write).trans Nat.cast_one, sub_self, mul_zero, zero_mul, zero_mul]
    · have apart : (Scalar.fromU64 next.addr : ZMod p) - Scalar.fromU64 current.addr ≠ 0 := by
        rw [sub_ne_zero]
        exact fun equal => same ((ByteMemory.fromU64_inj large).1 equal)
      refine ⟨dealt_binary row lane, ?_, ?_, ?_⟩
      · rw [flag, if_neg same, zero_mul, zero_mul]
      · rw [inverse, if_neg same, here, behind, addr, addr, difference,
          mul_inv_cancel₀ apart, sub_self, mul_zero, zero_mul]
      · rw [flag, if_neg same, zero_mul, zero_mul, zero_mul]

end Lanes

section Completeness

variable {p : ℕ} [Fact p.Prime] {K : Type} [Field K] [Algebra (ZMod p) K]
  {ports : RegisterPorts} {trace : ℕ → ℕ → ZMod p} {numRows domainSize : ℕ} {omega : ZMod p}
  {gamma delta : K}

/-- Two accesses with the same components have the same tuple. -/
theorem Access.Same.computeTupleHash_eq {F : Type} {numValues : ℕ} {first second : Access F}
    (same : first.Same numValues second) (f : F → K) :
    computeTupleHash gamma delta numValues (first.map f) =
      computeTupleHash gamma delta numValues (second.map f) := by
  have values : combineValues delta numValues (first.map f).values =
      combineValues delta numValues (second.map f).values := by
    rw [combineValues_eq, combineValues_eq]
    apply Finset.sum_congr rfl
    intro v member
    simp only [Access.map, same.values v (Finset.mem_range.1 member)]
  rw [computeTupleHash, computeTupleHash, values]
  simp only [Access.map, same.addr, same.timestamp, same.rw]

theorem hashAt_eq {accesses : List (MemoryAccess 1)} {i : ℕ} {access : MemoryAccess 1}
    (at_i : accesses[i]? = some access) : hashAt gamma delta accesses i =
      computeTupleHash gamma delta 1
        ((access.toAccess (ZMod p)).map (algebraMap (ZMod p) K)) := by
  rw [hashAt, at_i, toAccess_map]
  rfl

section Sorted

variable {sorted : List (MemoryAccess 1)} {numPorts : ℕ}

omit [Fact p.Prime] [Algebra (ZMod p) K] in
theorem index_lt {row lane size : ℕ} (inside : row < size) (listed : lane < numPorts) :
    row * numPorts + lane < size * numPorts := by
  have step := Nat.mul_le_mul_right numPorts (Nat.succ_le_of_lt inside)
  rw [Nat.succ_mul] at step
  exact (Nat.add_lt_add_left listed _).trans_le step

/-- All lanes hold exactly where every entry agrees with the one a row before. -/
theorem dealt_lanes_iff (large : 2 ^ 64 ≤ p) (root : IsPrimitiveRoot omega domainSize)
    (positive : 0 < numPorts) (size : sorted.length = domainSize * numPorts)
    (ordered : ∀ (i j : ℕ) (first second : MemoryAccess 1), i < j → sorted[i]? = some first →
      sorted[j]? = some second → first.addr ≤ second.addr)
    (binary : ∀ access ∈ sorted, access.rw = 0 ∨ access.rw = 1) :
    (∀ row < domainSize, ∀ lane < numPorts,
      LaneHolds (omega ^ row - omega ^ (domainSize - 1)) (dealtRow sorted numPorts domainSize row)
        (dealtRow sorted numPorts domainSize ((row + 1) % domainSize)) lane) ↔
      LanesAgree numPorts sorted := by
  have entry : ∀ {row lane : ℕ}, row < domainSize → lane < numPorts →
      ∃ access, sorted[row * numPorts + lane]? = some access := by
    intro row lane inside listed
    have within : row * numPorts + lane < sorted.length := size ▸ index_lt inside listed
    exact ⟨_, List.getElem?_eq_getElem within⟩
  have next_index : ∀ row lane, (row + 1) * numPorts + lane =
      row * numPorts + lane + numPorts := by
    intro row lane
    ring
  constructor
  · intro holds i previous read at_i at_read
    have split : i / numPorts * numPorts + i % numPorts = i := Nat.div_add_mod' i numPorts
    have listed := Nat.mod_lt i positive
    have within := (List.getElem?_eq_some_iff.1 at_read).1
    have next : i / numPorts + 1 < domainSize := by
      rw [size, ← split, ← next_index] at within
      by_contra outside
      have step := Nat.mul_le_mul_right numPorts (Nat.le_of_not_lt outside)
      omega
    have held := holds (i / numPorts) (Nat.lt_of_succ_lt next) _ listed
    rw [Nat.mod_eq_of_lt next] at held
    refine (dealt_laneHolds_iff large (exclusion_ne_zero root next) (split.symm ▸ at_i)
      (by rw [next_index, split]; exact at_read) next ?_ ?_).1 held
    · exact ordered i _ _ _ (Nat.lt_add_of_pos_right positive) at_i at_read
    · exact binary read (List.mem_of_getElem? at_read)
  · intro agree row inside lane listed
    rcases Nat.lt_or_eq_of_le (Nat.succ_le_of_lt inside) with next | last
    · obtain ⟨current, at_row⟩ := entry inside listed
      obtain ⟨behind, at_next⟩ := entry next listed
      rw [Nat.mod_eq_of_lt next]
      refine (dealt_laneHolds_iff large (exclusion_ne_zero root next) at_row at_next next ?_
        ?_).2 ?_
      · refine ordered _ _ _ _ ?_ at_row at_next
        rw [next_index]
        exact Nat.lt_add_of_pos_right positive
      · exact binary behind (List.mem_of_getElem? at_next)
      · rw [next_index] at at_next
        exact agree _ _ _ at_row at_next
    · have wrap : omega ^ row - omega ^ (domainSize - 1) = 0 := by
        rw [← last, Nat.succ_sub_one, sub_self]
      rw [wrap]
      exact ⟨dealt_binary row lane, mul_zero _, mul_zero _, mul_zero _⟩

end Sorted

/-- The columns of the prover for the register permutation. -/
def ProvesRegisters [DecidableEq K] (ports : RegisterPorts) (gamma delta : K) (omega : ZMod p)
    (domainSize numRows : ℕ) (trace : ℕ → ℕ → ZMod p) : Prop :=
  let original := collectAccesses ports trace numRows domainSize
  RegisterSatisfied ports gamma delta omega domainSize trace
    (dealtRow (sortAccesses original) ports.list.length domainSize)
    (registerProduct gamma delta original (sortAccesses original) ports.list.length)

section Product

variable (listed : ports.list ≠ []) (addressable : domainSize * ports.list.length ≤ 2 ^ 64)
  (padded : PaddedWords ports numRows trace)
  (apart : ∀ access ∈ collectAccesses ports trace numRows domainSize,
    access.tupleHash gamma delta ≠ 0)

include listed addressable padded apart

/-- The product column steps over the accesses and the dealt entries of a row. -/
theorem registerProduct_step {row : ℕ} (inside : row < domainSize) :
    let original := collectAccesses ports trace numRows domainSize
    let cells := dealtRow (sortAccesses original) ports.list.length domainSize
    let z := registerProduct gamma delta original (sortAccesses original) ports.list.length
    z ((row + 1) % domainSize) * ∏ lane : Fin ports.list.length, computeTupleHash gamma delta 1
        (((cells row).sorted lane).map (algebraMap (ZMod p) K)) =
      z row * ∏ port : Fin ports.list.length, computeTupleHash gamma delta 1
        ((portAccess ports trace cells row port).map (algebraMap (ZMod p) K)) := by
  intro original cells z
  have same : original.length = (sortAccesses original).length :=
    (sortAccesses_perm original).length_eq.symm
  have size : original.length = domainSize * ports.list.length := length_collectAccesses
  have entries : ∏ lane : Fin ports.list.length, computeTupleHash gamma delta 1
      (((cells row).sorted lane).map (algebraMap (ZMod p) K)) =
      ∏ k ∈ Finset.range ports.list.length,
        hashAt gamma delta (sortAccesses original) (row * ports.list.length + k) := by
    rw [Finset.prod_range]
    apply Finset.prod_congr rfl
    intro lane _
    have within : row * ports.list.length + lane < (sortAccesses original).length :=
      (same.symm.trans size) ▸ index_lt inside lane.isLt
    have at_lane := List.getElem?_eq_getElem within
    rw [@hashAt_eq p _ K _ _ gamma delta _ _ _ at_lane]
    simp [cells, dealtRow, at_lane]
  have accesses : ∏ port : Fin ports.list.length, computeTupleHash gamma delta 1
      ((portAccess ports trace cells row port).map (algebraMap (ZMod p) K)) =
      ∏ k ∈ Finset.range ports.list.length,
        hashAt gamma delta original (row * ports.list.length + k) := by
    rw [Finset.prod_range]
    apply Finset.prod_congr rfl
    intro port _
    rw [@hashAt_eq p _ K _ _ gamma delta _ _ _ (collectAccesses_getElem inside port)]
    exact ((portAccess_same padded addressable (fun _ => rfl) inside port).computeTupleHash_eq
      (algebraMap (ZMod p) K)).symm
  have nonzero : ∀ r < domainSize, ∏ k ∈ Finset.range ports.list.length,
      hashAt gamma delta (sortAccesses original) (r * ports.list.length + k) ≠ 0 := by
    intro r within
    refine Finset.prod_ne_zero_iff.2 fun k member => ?_
    have position := index_lt within (Finset.mem_range.1 member)
    rw [← size, same] at position
    rw [hashAt, List.getElem?_eq_getElem position, Option.map_some, Option.getD_some]
    exact apart _ ((sortAccesses_perm original).mem_iff.1 (List.getElem_mem position))
  have whole : ∀ list : List (MemoryAccess 1), list.length = original.length →
      ∏ r ∈ Finset.range domainSize, ∏ k ∈ Finset.range ports.list.length,
        hashAt gamma delta list (r * ports.list.length + k) =
        (list.map (·.tupleHash gamma delta)).prod := by
    intro list sized
    rw [← prod_range_mul_add, ← size, ← sized, prod_hashAt]
  have equal := (whole original rfl).trans
    ((((sortAccesses_perm original).map _).prod_eq.symm).trans (whole _ same.symm).symm)
  have column : ∀ r < domainSize, z r = _ := fun r within =>
    registerProduct_eq gamma delta same (size ▸ Nat.mul_lt_mul_of_pos_right within
      (List.length_pos_iff.2 listed))
  rw [entries, accesses, column row inside,
    column _ (Nat.mod_lt _ (Nat.zero_lt_of_lt inside))]
  exact GrandProduct.partialProd_step nonzero equal inside

end Product

/-- The sorted accesses meet what the bodies of the lanes ask for. -/
theorem proves_lanes_iff (large : 2 ^ 64 ≤ p) (root : IsPrimitiveRoot omega domainSize)
    (listed : ports.list ≠ []) :
    let sorted := sortAccesses (collectAccesses ports trace numRows domainSize)
    (∀ row < domainSize, ∀ lane < ports.list.length,
      LaneHolds (omega ^ row - omega ^ (domainSize - 1))
        (dealtRow sorted ports.list.length domainSize row)
        (dealtRow sorted ports.list.length domainSize ((row + 1) % domainSize)) lane) ↔
      LanesAgree ports.list.length sorted := by
  intro sorted
  have perm := sortAccesses_perm (collectAccesses ports trace numRows domainSize)
  exact dealt_lanes_iff large root (List.length_pos_iff.2 listed)
    (perm.length_eq.trans length_collectAccesses)
    (fun _ _ _ _ before at_i at_j => sortAccesses_addr_le before at_i at_j)
    fun access member => collectAccesses_rw (perm.mem_iff.1 member)

theorem lanesAgree_of_proves [DecidableEq K] (large : 2 ^ 64 ≤ p)
    (root : IsPrimitiveRoot omega domainSize) (listed : ports.list ≠ [])
    (proves : ProvesRegisters ports gamma delta omega domainSize numRows trace) :
    LanesAgree ports.list.length
      (sortAccesses (collectAccesses ports trace numRows domainSize)) := by
  refine (proves_lanes_iff large root listed).1 fun row inside => ?_
  exact (registerBodies_vanish_iff.1 (proves row inside)).1

/-- The columns of the prover satisfy all bodies exactly where reads agree with
the entry dealt to the same lane before them. -/
theorem registerPermutation_complete_iff [DecidableEq K] (large : 2 ^ 64 ≤ p)
    (root : IsPrimitiveRoot omega domainSize) (listed : ports.list ≠ [])
    (addressable : domainSize * ports.list.length ≤ 2 ^ 64)
    (padded : PaddedWords ports numRows trace)
    (apart : ∀ access ∈ collectAccesses ports trace numRows domainSize,
      access.tupleHash gamma delta ≠ 0) :
    ProvesRegisters ports gamma delta omega domainSize numRows trace ↔
      LanesAgree ports.list.length
        (sortAccesses (collectAccesses ports trace numRows domainSize)) := by
  refine ⟨lanesAgree_of_proves large root listed, fun agree row inside => ?_⟩
  refine registerBodies_vanish_iff.2 ⟨(proves_lanes_iff large root listed).2 agree row inside,
    registerProduct_step listed addressable padded apart inside, ?_⟩
  rcases Nat.eq_zero_or_pos row with rfl | later
  · rw [registerProduct, if_pos rfl, sub_self, mul_zero]
  · rw [lagrangeFirst_later root inside (Nat.pos_iff_ne_zero.1 later), zero_mul]

end Completeness

section Examples

open AccessLog Riscv.Constraints

/-- An access as an entry of a log. -/
def MemoryAccess.entry (access : MemoryAccess 1) : Entry (BitVec 64) (BitVec 64) :=
  ⟨access.addr, access.values 0, access.rw == 1⟩

/-- All honest accesses have columns that satisfy the bodies. -/
def RegisterComplete {p : ℕ} [Fact p.Prime] {K : Type} [Field K] [DecidableEq K]
    [Algebra (ZMod p) K] (ports : RegisterPorts) (gamma delta : K) (omega : ZMod p)
    (domainSize : ℕ) : Prop :=
  ∀ (numRows : ℕ) (trace : ℕ → ℕ → ZMod p) (start : BitVec 64 → BitVec 64),
    PaddedWords ports numRows trace →
    Honest start ((collectAccesses ports trace numRows domainSize).map MemoryAccess.entry) →
    ProvesRegisters ports gamma delta omega domainSize numRows trace

/-- All rows write one to register 1 after reading it. Only the first row can
read something else. -/
def rewritten (first : Fr) (row col : ℕ) : Fr :=
  if row < 256 then
    if col ∈ [colRs1, colRs2, colRd, colRdValAfter].map Fin.val then 1
    else if col ∈ [colRs1Val, colRs2Val].map Fin.val then if row = 0 then first else 1
    else 0
  else 0

theorem toU64_one : Scalar.toU64 (1 : Fr) = 1 := by
  have large : 1 < bls12381Order := by norm_num [bls12381Order]
  exact (congrArg Scalar.toU64 Nat.cast_one.symm).trans (Scalar.toU64_natCast large)

theorem rewritten_one {first : Fr} {row col : ℕ} (inside : row < 256)
    (member : col ∈ [colRs1, colRs2, colRd, colRdValAfter].map Fin.val) :
    cellWord (rewritten first) 256 row col = 1 := by
  rw [cellWord, if_pos inside, rewritten, if_pos inside, if_pos member, toU64_one]

theorem rewritten_read {first : Fr} {row col : ℕ} (inside : row < 256)
    (member : col ∈ [colRs1Val, colRs2Val].map Fin.val) :
    cellWord (rewritten first) 256 row col = if row = 0 then Scalar.toU64 first else 1 := by
  have other : col ∉ [colRs1, colRs2, colRd, colRdValAfter].map Fin.val := by
    revert col
    decide
  rw [cellWord, if_pos inside, rewritten, if_pos inside, if_neg other, if_pos member]
  split
  · rfl
  · exact toU64_one

theorem rowAccesses_rewritten {first : Fr} {row : ℕ} (inside : row < 256) :
    (rowAccesses registerPorts (rewritten first) 256 row).map MemoryAccess.entry =
      [⟨1, if row = 0 then Scalar.toU64 first else 1, false⟩,
        ⟨1, if row = 0 then Scalar.toU64 first else 1, false⟩, ⟨1, 1, true⟩] := by
  have reg := fun col member => @rewritten_one first row col inside member
  have value := fun col member => @rewritten_read first row col inside member
  show [Entry.mk (cellWord (rewritten first) 256 row colRs1.val)
      (cellWord (rewritten first) 256 row colRs1Val.val) false,
    Entry.mk (cellWord (rewritten first) 256 row colRs2.val)
      (cellWord (rewritten first) 256 row colRs2Val.val) false,
    Entry.mk (cellWord (rewritten first) 256 row colRd.val)
      (cellWord (rewritten first) 256 row colRdValAfter.val) true] = _
  rw [reg colRs1.val (by decide), reg colRs2.val (by decide), reg colRd.val (by decide),
    reg colRdValAfter.val (by decide), value colRs1Val.val (by decide),
    value colRs2Val.val (by decide)]

/-- What the first row reads is there at the start; later rows read what is
written. -/
theorem rewritten_honest (first : Fr) {rows : ℕ} (inside : rows ≤ 256) :
    let log := (collectAccesses registerPorts (rewritten first) 256 rows).map MemoryAccess.entry
    Honest (fun _ => Scalar.toU64 first) log ∧
      contents (fun _ => Scalar.toU64 first) log 1 =
        if rows = 0 then Scalar.toU64 first else 1 := by
  induction rows with
  | zero => exact ⟨honest_nil, rfl⟩
  | succ rows hypothesis =>
      obtain ⟨honest, holds⟩ := hypothesis (Nat.le_of_succ_le inside)
      let read : Entry (BitVec 64) (BitVec 64) :=
        ⟨1, if rows = 0 then Scalar.toU64 first else 1, false⟩
      have row : (collectAccesses registerPorts (rewritten first) 256 (rows + 1)).map
          MemoryAccess.entry = (collectAccesses registerPorts (rewritten first) 256 rows).map
            MemoryAccess.entry ++ [read] ++ [read] ++ [⟨1, 1, true⟩] := by
        rw [collectAccesses_succ, List.map_append, rowAccesses_rewritten inside]
        simp [read]
      rw [row]
      have once : Honest _ (_ ++ [read]) := honest.concat fun _ => holds.symm
      have twice : Honest _ (_ ++ [read] ++ [read]) := once.concat fun _ => by
        rw [contents_concat_read rfl]
        exact holds.symm
      refine ⟨twice.concat fun writes => absurd writes (by decide), ?_⟩
      rw [contents_concat, if_pos ⟨rfl, rfl⟩, if_neg (Nat.succ_ne_zero rows)]

theorem rewritten_padded {first : Fr} (word : first.val < 2 ^ 64) :
    PaddedWords registerPorts 256 (rewritten first) := by
  have one : (1 : Fr).val < 2 ^ 64 := by decide
  have zero : (0 : Fr).val < 2 ^ 64 := by decide
  constructor
  · intro row port _
    constructor <;>
    · rw [rewritten]
      split_ifs <;> assumption
  · intro row behind port _
    exact ⟨if_neg (Nat.not_lt.2 behind), if_neg (Nat.not_lt.2 behind)⟩

theorem registerPorts_regCol : ∀ port ∈ registerPorts.list,
    port.regCol ∈ [colRs1, colRs2, colRd, colRdValAfter].map Fin.val := by
  decide

/-- Every access of the trace is to register 1, in its turn. -/
theorem rewritten_access {first : Fr} {i : ℕ} {access : MemoryAccess 1}
    (at_i : (collectAccesses registerPorts (rewritten first) 256 256)[i]? = some access) :
    access.addr = 1 ∧ access.timestamp = BitVec.ofNat 64 i := by
  have inside := (List.getElem?_eq_some_iff.1 at_i).1
  rw [length_collectAccesses] at inside
  have row : i / 3 < 256 := Nat.div_lt_of_lt_mul (by rwa [Nat.mul_comm] at inside)
  have entry := @collectAccesses_getElem _ registerPorts (rewritten first) 256 256 _ row
    ⟨i % 3, Nat.mod_lt _ (by decide)⟩
  have split : i / 3 * registerPorts.list.length + i % 3 = i := Nat.div_add_mod' i 3
  rw [split, at_i] at entry
  obtain rfl := Option.some_injective _ entry
  refine ⟨?_, congrArg (BitVec.ofNat 64) split⟩
  exact rewritten_one row (registerPorts_regCol _ (List.getElem_mem _))

/-- The accesses are in the order of register and time as they are. -/
theorem rewritten_sorted (first : Fr) :
    sortAccesses (collectAccesses registerPorts (rewritten first) 256 256) =
      collectAccesses registerPorts (rewritten first) 256 256 := by
  apply List.mergeSort_of_pairwise
  refine List.pairwise_iff_getElem.2 fun i j inside within before => ?_
  have here := rewritten_access (List.getElem?_eq_getElem inside)
  have there := rewritten_access (List.getElem?_eq_getElem within)
  have bound : j < 256 * 3 := lt_of_lt_of_eq within length_collectAccesses
  refine decide_eq_true (.inr ⟨here.1.trans there.1.symm, ?_⟩)
  rw [here.2, there.2, BitVec.le_def, BitVec.toNat_ofNat, BitVec.toNat_ofNat]
  omega

theorem rewritten_values {first : Fr} {row : ℕ} (inside : row < 256) :
    (collectAccesses registerPorts (rewritten first) 256 256)[row * 3]? =
      some ⟨1, fun _ => if row = 0 then Scalar.toU64 first else 1, BitVec.ofNat 64 (row * 3), 0⟩ := by
  have entry := @collectAccesses_getElem _ registerPorts (rewritten first) 256 256 _ inside
    (0 : Fin 3)
  refine entry.trans (congrArg some ?_)
  apply MemoryAccess.ext
  · exact rewritten_one inside (registerPorts_regCol _ (List.getElem_mem _))
  · funext _
    exact rewritten_read inside (show colRs1Val.val ∈ _ by decide)
  · rfl
  · rfl

theorem twoHundredFiftySixth_primitive : IsPrimitiveRoot (rootTwoPow32 ^ 2 ^ 24) 256 :=
  rootTwoPow32_primitive.pow (by positivity) (by norm_num)

open Classical in
/-- One value in register 1 at all times. -/
theorem rewritten_complete : ProvesRegisters registerPorts (gammaVariable bls12381Order)
    (algebraMap (RatFunc Fr) (RatFunc (RatFunc Fr)) (deltaVariable bls12381Order))
    (rootTwoPow32 ^ 2 ^ 24) 256 256 (rewritten 1) := by
  refine (@registerPermutation_complete_iff bls12381Order _ (RatFunc (RatFunc Fr)) _ _
    registerPorts (rewritten 1) 256 256 _ _ _ _ (by norm_num [bls12381Order])
    twoHundredFiftySixth_primitive (List.cons_ne_nil _ _) (by decide)
    (rewritten_padded (by decide)) fun access _ => tupleHash_ne_zero access).2 ?_
  have constant : ∀ access ∈ sortAccesses (collectAccesses registerPorts (rewritten 1) 256 256),
      access.values = fun _ => 1 := by
    intro access member
    obtain ⟨row, inside, inRow⟩ := List.mem_flatMap.1 ((sortAccesses_perm _).mem_iff.1 member)
    have entry := List.mem_map_of_mem (f := MemoryAccess.entry) inRow
    rw [rowAccesses_rewritten (List.mem_range.1 inside), toU64_one, ite_self] at entry
    have value : access.entry.value = 1 := by
      simp only [List.mem_cons, List.not_mem_nil, or_false] at entry
      rcases entry with same | same | same <;> rw [same]
    funext v
    rw [Subsingleton.elim v 0]
    exact value
  intro i previous read at_i at_read _ _
  rw [constant previous (List.mem_of_getElem? at_i), constant read (List.mem_of_getElem? at_read)]

open Classical in
/-- Register 1 is zero at first and one ever after: the second row reads one
behind the zero that the first row read. -/
theorem registerPermutation_incomplete : ¬ RegisterComplete registerPorts
    (gammaVariable bls12381Order)
    (algebraMap (RatFunc Fr) (RatFunc (RatFunc Fr)) (deltaVariable bls12381Order))
    (rootTwoPow32 ^ 2 ^ 24) 256 := by
  intro complete
  have proves := complete 256 (rewritten 0) _ (rewritten_padded (by decide))
    (rewritten_honest 0 le_rfl).1
  have agree := lanesAgree_of_proves (by norm_num [bls12381Order])
    twoHundredFiftySixth_primitive (List.cons_ne_nil _ _) proves
  rw [rewritten_sorted] at agree
  have same := agree 0 _ _ (rewritten_values (by decide : 0 < 256))
    (rewritten_values (by decide : 1 < 256)) rfl rfl
  exact absurd (congrFun same 0) (by decide)

end Examples

end MetaVm.Zkp
