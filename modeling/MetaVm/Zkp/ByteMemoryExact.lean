import MetaVm.Zkp.ByteMemory
import MetaVm.Zkp.MemoryOrder

namespace MetaVm.Zkp.ByteMemory

open CoeffList OfflineMemory

/-! The host's check is that of neighbours in the sorted view. -/

section Host

def toEvent (access : ByteMemoryAccess) : Event ℕ ℕ Byte where
  addr := access.addr.toNat
  time := access.ts.toNat
  value := access.val
  isWrite := access.rw ≠ 0

/-- A read has the value of the access in front of it at the same address. -/
def Follows (prev : Option ByteMemoryAccess) (cur : ByteMemoryAccess) : Prop :=
  cur.rw = 0 → cur.val = if prev.any (fun p => p.addr = cur.addr) then
    prev.elim 0 ByteMemoryAccess.val else 0

def EachFollows (view : List ByteMemoryAccess) : Prop :=
  ∀ i cur, view[i]? = some cur → Follows (prevAt view i) cur

variable {prev : Option ByteMemoryAccess} {view : List ByteMemoryAccess}

theorem checkReads_ok_iff : checkReads prev view = .ok () ↔
    ∀ i cur, view[i]? = some cur → Follows (if i = 0 then prev else view[i - 1]?) cur := by
  induction view generalizing prev with
  | nil => exact ⟨fun _ i cur found => absurd found (by simp), fun _ => rfl⟩
  | cons first rest hypothesis =>
      rw [checkReads]
      by_cases wrong : first.rw = 0 ∧ first.val ≠ if prev.any (fun p => p.addr = first.addr) then
          prev.elim 0 ByteMemoryAccess.val else 0
      · rw [if_pos wrong]
        refine ⟨nofun, fun each => ?_⟩
        exact absurd (each 0 first rfl wrong.1) wrong.2
      · rw [if_neg wrong, hypothesis]
        constructor
        · intro each i cur found
          cases i with
          | zero =>
              obtain rfl := Option.some.inj found
              intro reads
              exact not_not.1 fun differs => wrong ⟨reads, differs⟩
          | succ i =>
              rw [List.getElem?_cons_succ] at found
              have follows := each i cur found
              cases i with
              | zero => exact follows
              | succ i => exact follows
        · intro each i cur found
          have follows := each (i + 1) cur found
          cases i with
          | zero => exact follows
          | succ i => exact follows

theorem verify_ok_iff (accesses : List ByteMemoryAccess) :
    verifyReadConsistency accesses = .ok () ↔ EachFollows (sorted accesses) :=
  checkReads_ok_iff

theorem expected_toEvent (prev : Option ByteMemoryAccess) (cur : ByteMemoryAccess) :
    expected 0 (prev.map toEvent) cur.addr.toNat =
      if prev.any (fun p => p.addr = cur.addr) then prev.elim 0 ByteMemoryAccess.val else 0 := by
  cases prev with
  | none => rfl
  | some prev =>
      rw [Option.map_some, expected]
      by_cases same : prev.addr = cur.addr
      · rw [if_pos (show (toEvent prev).addr = cur.addr.toNat from congrArg BitVec.toNat same)]
        simp [same, toEvent]
      · have apart : (toEvent prev).addr ≠ cur.addr.toNat :=
          fun equal => same (BitVec.eq_of_toNat_eq equal)
        rw [if_neg apart]
        simp [same]

theorem prevAt_split (front behind : List ByteMemoryAccess) (cur : ByteMemoryAccess) :
    prevAt (front ++ cur :: behind) front.length = front.getLast? := by
  rw [prevAt, List.getLast?_eq_getElem?]
  split
  · rename_i empty
    rw [List.length_eq_zero_iff.1 empty]
    rfl
  · rename_i some
    exact List.getElem?_append_left (by omega)

theorem eachFollows_iff : EachFollows view ↔ Adjacent 0 (view.map toEvent) := by
  constructor
  · intro each before read after split reads
    obtain ⟨front, rest, rfl, rfl, restEq⟩ := List.map_eq_append_iff.1 split
    obtain ⟨cur, behind, rfl, rfl, rfl⟩ := List.map_eq_cons_iff.1 restEq
    have follows := each front.length cur (by simp)
    rw [prevAt_split] at follows
    rw [List.getLast?_map, show (toEvent cur).addr = cur.addr.toNat from rfl, expected_toEvent]
    exact follows (by simpa [toEvent] using reads)
  · intro adjacent i cur found reads
    obtain ⟨inside, rfl⟩ := List.getElem?_eq_some_iff.1 found
    have split : view = view.take i ++ view[i] :: view.drop (i + 1) := by
      rw [← List.drop_eq_getElem_cons, List.take_append_drop]
    have place := prevAt_split (view.take i) (view.drop (i + 1)) view[i]
    rw [← split, List.length_take, Nat.min_eq_left inside.le] at place
    rw [place, ← expected_toEvent, ← List.getLast?_map]
    refine adjacent _ (toEvent view[i]) ((view.drop (i + 1)).map toEvent) ?_ ?_
    · conv_lhs => rw [split]
      rw [List.map_append, List.map_cons]
    · simpa [toEvent] using reads

end Host

/-! The sorted view is in the order of the checker. -/

section Order

variable {accesses : List ByteMemoryAccess}

theorem sortKeyLe_iff {first second : ByteMemoryAccess} : sortKeyLe first second = true ↔
    first.addr.toNat < second.addr.toNat ∨
      first.addr.toNat = second.addr.toNat ∧ first.ts.toNat ≤ second.ts.toNat := by
  rw [sortKeyLe, decide_eq_true_eq, BitVec.lt_def, BitVec.le_def, BitVec.toNat_inj]

theorem sorted_perm (accesses : List ByteMemoryAccess) : (sorted accesses).Perm accesses :=
  List.mergeSort_perm accesses sortKeyLe

theorem sorted_pairwise (distinct : accesses.Pairwise fun a b => a.ts ≠ b.ts) :
    ((sorted accesses).map toEvent).Pairwise Before := by
  have ordered : (sorted accesses).Pairwise fun a b => sortKeyLe a b = true := by
    refine List.pairwise_mergeSort ?_ ?_ accesses
    · intro a b c
      rw [sortKeyLe_iff, sortKeyLe_iff, sortKeyLe_iff]
      omega
    · intro a b
      rw [Bool.or_eq_true, sortKeyLe_iff, sortKeyLe_iff]
      omega
  have apart : (sorted accesses).Pairwise fun a b => a.ts ≠ b.ts :=
    (sorted_perm accesses).symm.pairwise distinct fun differ => differ.symm
  rw [List.pairwise_map]
  refine (ordered.and apart).imp ?_
  rintro a b ⟨before, differ⟩
  have times : a.ts.toNat ≠ b.ts.toNat := fun same => differ (BitVec.eq_of_toNat_eq same)
  rcases sortKeyLe_iff.1 before with lower | ⟨same, earlier⟩
  · exact .inl lower
  · exact .inr ⟨same, lt_of_le_of_ne earlier times⟩

/-- The write that a read has to return: the one to its address with the greatest smaller
timestamp. -/
structure LatestWrite (accesses : List ByteMemoryAccess) (read write : ByteMemoryAccess) :
    Prop where
  member : write ∈ accesses
  writes : write.rw = 1
  sameAddr : write.addr = read.addr
  earlier : write.ts < read.ts
  greatest : ∀ other ∈ accesses, other.rw = 1 → other.addr = read.addr →
    other.ts < read.ts → other.ts ≤ write.ts

/-- Every read returns the latest write to its address, or zero where there is none. -/
def ReadsLatestWrites (accesses : List ByteMemoryAccess) : Prop :=
  ∀ read ∈ accesses, read.rw = 0 →
    (∀ write, LatestWrite accesses read write → read.val = write.val) ∧
      ((∀ write ∈ accesses, write.rw = 1 → write.addr = read.addr → ¬ write.ts < read.ts) →
        read.val = 0)

section Binary

variable (binary : ∀ access ∈ accesses, access.rw = 0 ∨ access.rw = 1)

include binary

theorem isWrite_iff {access : ByteMemoryAccess} (member : access ∈ accesses) :
    (toEvent access).isWrite = true ↔ access.rw = 1 := by
  have writes : (toEvent access).isWrite = true ↔ access.rw ≠ 0 := decide_eq_true_iff
  rw [writes]
  rcases binary access member with read | write
  · rw [read]
    decide
  · rw [write]
    decide

theorem latest_toEvent_iff {read write : ByteMemoryAccess} (member : write ∈ accesses) :
    Latest (accesses.map toEvent) (toEvent read) (toEvent write) ↔
      LatestWrite accesses read write := by
  constructor
  · intro latest
    refine ⟨member, (isWrite_iff binary member).1 latest.writes,
      BitVec.eq_of_toNat_eq latest.sameAddr, latest.earlier, ?_⟩
    intro other inside writes sameAddr earlier
    exact latest.greatest (toEvent other) (List.mem_map_of_mem inside)
      ((isWrite_iff binary inside).2 writes) (congrArg BitVec.toNat sameAddr) earlier
  · intro latest
    refine ⟨List.mem_map_of_mem member, (isWrite_iff binary member).2 latest.writes,
      congrArg BitVec.toNat latest.sameAddr, latest.earlier, ?_⟩
    intro event within writes sameAddr earlier
    obtain ⟨other, inside, rfl⟩ := List.mem_map.1 within
    exact latest.greatest other inside ((isWrite_iff binary inside).1 writes)
      (BitVec.eq_of_toNat_eq sameAddr) earlier

theorem answered_toEvent_iff (read : ByteMemoryAccess) :
    Answered 0 (accesses.map toEvent) (toEvent read) ↔
      (∀ write, LatestWrite accesses read write → read.val = write.val) ∧
        ((∀ write ∈ accesses, write.rw = 1 → write.addr = read.addr → ¬ write.ts < read.ts) →
          read.val = 0) := by
  constructor
  · intro answered
    refine ⟨fun write latest => answered.written (toEvent write)
      ((latest_toEvent_iff binary latest.member).2 latest), fun none => answered.unwritten ?_⟩
    intro event within writes sameAddr
    obtain ⟨write, inside, rfl⟩ := List.mem_map.1 within
    exact none write inside ((isWrite_iff binary inside).1 writes)
      (BitVec.eq_of_toNat_eq sameAddr)
  · rintro ⟨written, unwritten⟩
    refine ⟨?_, fun none => unwritten ?_⟩
    · intro event latest
      obtain ⟨write, inside, rfl⟩ := List.mem_map.1 latest.member
      exact written write ((latest_toEvent_iff binary inside).1 latest)
    · intro write inside writes sameAddr
      exact none (toEvent write) (List.mem_map_of_mem inside)
        ((isWrite_iff binary inside).2 writes) (congrArg BitVec.toNat sameAddr)

/-- The host's check is the meaning of a memory. -/
theorem verify_iff_readsLatestWrites (distinct : accesses.Pairwise fun a b => a.ts ≠ b.ts) :
    verifyReadConsistency accesses = .ok () ↔ ReadsLatestWrites accesses := by
  have same := (sorted_perm accesses).map toEvent
  rw [verify_ok_iff, eachFollows_iff, adjacent_iff_answered (sorted_pairwise distinct)]
  constructor
  · intro answered read member reads
    refine (answered_toEvent_iff binary read).1 (Answered.perm ?_ same)
    refine answered (toEvent read) (same.mem_iff.2 (List.mem_map_of_mem member)) ?_
    simpa [toEvent] using reads
  · intro latest event member reads
    obtain ⟨read, inside, rfl⟩ := List.mem_map.1 (same.mem_iff.1 member)
    refine Answered.perm ((answered_toEvent_iff binary read).2 ?_) same.symm
    exact latest read inside (by simpa [toEvent] using reads)

end Binary

end Order

/-! The cells of the trace. -/

section Cells

variable {p : ℕ} {accesses : List ByteMemoryAccess}

theorem fromU64_inj (large : 2 ^ 64 ≤ p) {first second : BitVec 64} :
    (Scalar.fromU64 first : ZMod p) = Scalar.fromU64 second ↔ first = second := by
  constructor
  · intro same
    have firstBound := first.isLt
    have secondBound := second.isLt
    have values := (ZMod.natCast_eq_natCast_iff' _ _ p).1 same
    rw [Nat.mod_eq_of_lt (by omega), Nat.mod_eq_of_lt (by omega)] at values
    exact BitVec.eq_of_toNat_eq values
  · intro same
    rw [same]

theorem byteScalar_inj (large : 2 ^ 64 ≤ p) {first second : Byte} :
    (byteScalar first : ZMod p) = byteScalar second ↔ first = second := by
  rw [byteScalar, byteScalar, fromU64_inj large]
  constructor
  · intro same
    have values := congrArg (BitVec.setWidth 8) same
    rwa [BitVec.setWidth_setWidth_of_le _ (by decide), BitVec.setWidth_setWidth_of_le _ (by decide),
      BitVec.setWidth_eq, BitVec.setWidth_eq] at values
  · intro same
    rw [same]

theorem diffScalar_eq (prevAddr addr : BitVec 64) :
    (diffScalar prevAddr addr : ZMod p) = Scalar.fromU64 addr - Scalar.fromU64 prevAddr := by
  have prevBound := prevAddr.isLt
  have addrBound := addr.isLt
  rw [diffScalar]
  split
  · rename_i above
    have least : prevAddr.toNat ≤ addr.toNat := above
    rw [Scalar.fromU64, BitVec.toNat_sub_of_le above, Nat.cast_sub least]
    rfl
  · rename_i below
    have less : addr ≤ prevAddr := BitVec.le_of_lt (BitVec.not_le.1 below)
    have least : addr.toNat ≤ prevAddr.toNat := less
    rw [Scalar.fromU64, BitVec.toNat_sub_of_le less, Nat.cast_sub least, zero_sub, neg_sub]
    rfl

/-- The builder inverts no zero. -/
theorem diffScalar_ne_zero (large : 2 ^ 64 ≤ p) {prevAddr addr : BitVec 64}
    (differ : addr ≠ prevAddr) : (diffScalar prevAddr addr : ZMod p) ≠ 0 := by
  rw [diffScalar_eq, sub_ne_zero]
  exact fun same => differ ((fromU64_inj large).1 same)

theorem length_sorted (accesses : List ByteMemoryAccess) :
    (sorted accesses).length = accesses.length :=
  (sorted_perm accesses).length_eq

theorem length_traceRow (accesses : List ByteMemoryAccess) (i : ℕ) :
    (traceRow accesses i : List (ZMod p)).length = numColumns := by
  rw [traceRow]
  split
  · rfl
  · exact List.length_replicate

/-- A row past the accesses. -/
theorem traceRow_past {i : ℕ} (past : accesses.length ≤ i) :
    (traceRow accesses i : List (ZMod p)) = List.replicate numColumns 0 := by
  rw [traceRow, List.getElem?_eq_none past]

theorem traceRow_of_getElem {i : ℕ} {u s : ByteMemoryAccess} (here : accesses[i]? = some u)
    (there : (sorted accesses)[i]? = some s) : (traceRow accesses i : List (ZMod p)) =
      [Scalar.fromU64 u.addr, byteScalar u.val, Scalar.fromU64 u.ts, Scalar.fromU64 u.rw,
        Scalar.fromU64 u.sourceRow, 1, Scalar.fromU64 s.addr, byteScalar s.val,
        Scalar.fromU64 s.ts, Scalar.fromU64 s.rw, Scalar.fromU64 s.sourceRow, 1,
        (neighbourCells (prevAt (sorted accesses) i) s).1,
        (neighbourCells (prevAt (sorted accesses) i) s).2, if i = 0 then 1 else 0] := by
  rw [traceRow, here, there]

variable (curve : CurveType)

theorem domainSize_build : domainSize (buildTracePolynomials curve accesses).columns =
    padded accesses := by
  rw [domainSize, buildTracePolynomials]
  exact (List.length_map _).trans List.length_range

theorem rowAt_build {r : ℕ} (inside : r < padded accesses) :
    rowAt (buildTracePolynomials curve accesses).columns r = traceRow accesses r := by
  rw [rowAt, buildTracePolynomials, List.map_map]
  apply List.ext_getElem
  · rw [List.length_map, List.length_range, length_traceRow]
  · intro col low high
    simp only [List.getElem_map, List.getElem_range, Function.comp_apply]
    rw [List.getD_eq_getElem _ _ (by simpa using inside), List.getElem_map, List.getElem_range,
      List.getD_eq_getElem _ _ high]

end Cells

/-! What the constraints say of a trace. -/

section Constraints

variable {p : ℕ} [Fact p.Prime] {accesses : List ByteMemoryAccess}

theorem fromU64_rw {access : ByteMemoryAccess} (binary : access.rw = 0 ∨ access.rw = 1) :
    (Scalar.fromU64 access.rw : ZMod p) = if access.rw = 0 then 0 else 1 := by
  rcases binary with read | write
  · rw [read, if_pos rfl, Scalar.fromU64]
    exact Nat.cast_zero
  · rw [write, if_neg (by decide), Scalar.fromU64]
    exact Nat.cast_one

/-- The values of a row with no access all vanish. -/
theorem rowBodies_zero : ∀ value ∈ rowBodies (List.replicate numColumns (0 : ZMod p)),
    value = 0 := by
  simp [rowBodies, bin, cell, numColumns, Col.isFirst, Col.isRealS, Col.isReal, Col.rw, Col.rwS,
    Col.isSameAddrS, Col.valS]

theorem byteScalar_eq_zero (large : 2 ^ 64 ≤ p) {val : Byte} :
    (byteScalar val : ZMod p) = 0 ↔ val = 0 := by
  have zero : (byteScalar 0 : ZMod p) = 0 := Nat.cast_zero
  rw [← zero, byteScalar_inj large]

theorem neighbourCells_binary (prev : Option ByteMemoryAccess) (s : ByteMemoryAccess) :
    (neighbourCells prev s : ZMod p × ZMod p).1 = 0 ∨
      (neighbourCells prev s : ZMod p × ZMod p).1 = 1 := by
  cases prev with
  | none => exact .inl rfl
  | some prev =>
      by_cases same : s.addr = prev.addr
      · exact .inr (congrArg Prod.fst (if_pos same))
      · exact .inl (congrArg Prod.fst (if_neg same))

theorem mul_pred_of_binary {value : ZMod p} (binary : value = 0 ∨ value = 1) :
    value * (value - 1) = 0 := by
  rcases binary with rfl | rfl
  · exact zero_mul _
  · rw [sub_self, mul_zero]

theorem binary_fromU64 {access : ByteMemoryAccess} (binary : access.rw = 0 ∨ access.rw = 1) :
    (Scalar.fromU64 access.rw : ZMod p) = 0 ∨ (Scalar.fromU64 access.rw : ZMod p) = 1 := by
  rw [fromU64_rw binary]
  exact ite_eq_or_eq _ _ _

/-- Of a row's values only that of the first row says anything. -/
theorem rowBodies_iff (large : 2 ^ 64 ≤ p) {i : ℕ} {u s : ByteMemoryAccess}
    (binary : u.rw = 0 ∨ u.rw = 1) (binaryS : s.rw = 0 ∨ s.rw = 1) (here : accesses[i]? = some u)
    (there : (sorted accesses)[i]? = some s) :
    (∀ value ∈ rowBodies (traceRow accesses i : List (ZMod p)), value = 0) ↔
      (i = 0 → Follows (prevAt (sorted accesses) i) s) := by
  have same := neighbourCells_binary (p := p) (prevAt (sorted accesses) i) s
  have values : rowBodies (traceRow accesses i : List (ZMod p)) =
      [1 * (1 - 1), 1 * (1 - 1), Scalar.fromU64 u.rw * (Scalar.fromU64 u.rw - 1),
        Scalar.fromU64 s.rw * (Scalar.fromU64 s.rw - 1),
        (neighbourCells (prevAt (sorted accesses) i) s).1 *
          ((neighbourCells (prevAt (sorted accesses) i) s).1 - 1),
        (if i = 0 then 1 else 0) * ((if i = 0 then 1 else 0) - 1),
        (if i = 0 then 1 else 0) * (1 - 1),
        (if i = 0 then 1 else 0) * (neighbourCells (prevAt (sorted accesses) i) s).1,
        (if i = 0 then 1 else 0) * 1 * (1 - Scalar.fromU64 s.rw) * byteScalar s.val] := by
    rw [traceRow_of_getElem here there]
    rfl
  have uBinary := mul_pred_of_binary (@binary_fromU64 p _ u binary)
  have sBinary := mul_pred_of_binary (@binary_fromU64 p _ s binaryS)
  have sameBinary := mul_pred_of_binary same
  rw [values]
  by_cases first : i = 0
  · subst first
    have none : (neighbourCells (prevAt (sorted accesses) 0) s : ZMod p × ZMod p).1 = 0 := rfl
    have last : (1 : ZMod p) * 1 * (1 - Scalar.fromU64 s.rw) * byteScalar s.val = 0 ↔
        Follows (prevAt (sorted accesses) 0) s := by
      rw [Follows, fromU64_rw binaryS, one_mul, one_mul]
      by_cases reads : s.rw = 0
      · rw [if_pos reads, sub_zero, one_mul, byteScalar_eq_zero large]
        exact ⟨fun zero _ => zero, fun follows => follows reads⟩
      · rw [if_neg reads, sub_self, zero_mul]
        exact ⟨fun _ zero => absurd zero reads, fun _ => rfl⟩
    simp only [List.forall_mem_cons, uBinary, sBinary, none, if_true, sub_self, mul_zero, zero_mul,
      last, true_and, forall_true_left, List.not_mem_nil, false_implies, implies_true, and_true]
  · simp only [List.forall_mem_cons, uBinary, sBinary, sameBinary, first, if_false, sub_self, mul_zero,
      zero_mul, List.not_mem_nil, false_implies, implies_true, and_true]

/-- The values between two accesses say that the second follows the first. -/
theorem shiftedBodies_iff (large : 2 ^ 64 ≤ p) {i : ℕ} {u u' prev s : ByteMemoryAccess}
    (binary : s.rw = 0 ∨ s.rw = 1) (here : accesses[i]? = some u)
    (next : accesses[i + 1]? = some u') (there : (sorted accesses)[i]? = some prev)
    (thereNext : (sorted accesses)[i + 1]? = some s) :
    (∀ value ∈ shiftedBodies (traceRow accesses i : List (ZMod p))
      (shiftedColumnIndices.map fun col => cell (traceRow accesses (i + 1)) col), value = 0) ↔
      Follows (some prev) s := by
  have before : prevAt (sorted accesses) (i + 1) = some prev := there
  have values : shiftedBodies (traceRow accesses i : List (ZMod p))
      (shiftedColumnIndices.map fun col => cell (traceRow accesses (i + 1)) col) =
      [1 * (neighbourCells (some prev) s).1 * (Scalar.fromU64 s.addr - Scalar.fromU64 prev.addr),
        1 * (1 - (neighbourCells (some prev) s).1) *
          (1 - (Scalar.fromU64 s.addr - Scalar.fromU64 prev.addr) *
            (neighbourCells (some prev) s).2),
        1 * (neighbourCells (some prev) s).1 * (1 - Scalar.fromU64 s.rw) *
          (byteScalar s.val - byteScalar prev.val),
        1 * (1 - (neighbourCells (some prev) s).1) * (1 - Scalar.fromU64 s.rw) *
          byteScalar s.val] := by
    rw [traceRow_of_getElem here there, traceRow_of_getElem next thereNext, before]
    rfl
  rw [values, fromU64_rw binary, Follows]
  by_cases same : s.addr = prev.addr
  · have cells : (neighbourCells (some prev) s : ZMod p × ZMod p) = (1, 0) := if_pos same
    have tells : (if (some prev).any (fun p => p.addr = s.addr) then
        (some prev).elim 0 ByteMemoryAccess.val else 0) = prev.val := by simp [same]
    rw [cells, tells, same]
    rcases binary with reads | writes
    · simp [reads, sub_eq_zero, byteScalar_inj large]
    · simp [writes]
  · have cells : (neighbourCells (some prev) s : ZMod p × ZMod p) =
        (0, (diffScalar prev.addr s.addr)⁻¹) := if_neg same
    have tells : (if (some prev).any (fun p => p.addr = s.addr) then
        (some prev).elim 0 ByteMemoryAccess.val else 0) = 0 := by simp [Ne.symm same]
    have inverse : (Scalar.fromU64 s.addr - Scalar.fromU64 prev.addr : ZMod p) *
        (diffScalar prev.addr s.addr)⁻¹ = 1 := by
      rw [← diffScalar_eq]
      exact mul_inv_cancel₀ (diffScalar_ne_zero large same)
    rw [cells, tells]
    dsimp only
    rw [inverse]
    rcases binary with reads | writes
    · simp [reads, byteScalar_eq_zero large]
    · simp [writes]

/-- The values between rows vanish in front of a row with no access. -/
theorem shiftedBodies_past (row : List (ZMod p)) {i : ℕ} (past : accesses.length ≤ i) :
    ∀ value ∈ shiftedBodies row
      (shiftedColumnIndices.map fun col => cell (traceRow accesses i) col), value = 0 := by
  rw [traceRow_past past]
  simp [shiftedBodies, shiftedColumnIndices, cell, numColumns, Col.isRealS, Col.isSameAddrS,
    Col.addrS, Col.valS, Col.rwS, Col.invDiffAddrS]

theorem startPower_eq (alpha : ZMod p) (count : ℕ) :
    (List.range count).foldl (fun power _ => power * alpha) 1 = alpha ^ count := by
  induction count with
  | zero => simp
  | succ count hypothesis =>
      rw [List.range_succ, List.foldl_append, hypothesis, pow_succ]
      rfl

theorem evaluateShiftedAtPoint_eq {row shifted : List (ZMod p)} (wide : row.length = numColumns)
    (long : shifted.length = 6) (z omegaNMinus1 alpha : ZMod p) (alphaOffset : ℕ) :
    evaluateShiftedAtPoint row shifted z omegaNMinus1 alpha alphaOffset =
      (z - omegaNMinus1) * (alpha ^ alphaOffset *
        (toPoly (shiftedBodies row shifted)).eval alpha) := by
  rw [evaluateShiftedAtPoint, wide, long, if_neg (by simp)]
  simp only [startPower_eq, shiftedBodies, toPoly_cons, toPoly_nil, List.foldl_cons,
    List.foldl_nil, Polynomial.eval_add, Polynomial.eval_mul, Polynomial.eval_C, Polynomial.eval_X,
    Polynomial.eval_zero]
  ring

/-- Away from the last row all challenges tell whether the four values vanish. -/
theorem shifted_vanish_iff (large : 2 ^ 64 ≤ p) {row shifted : List (ZMod p)}
    (wide : row.length = numColumns) (long : shifted.length = 6) {z omegaNMinus1 : ZMod p}
    (off : z - omegaNMinus1 ≠ 0) :
    (∀ alpha alphaOffset, evaluateShiftedAtPoint row shifted z omegaNMinus1 alpha alphaOffset = 0) ↔
      ∀ value ∈ shiftedBodies row shifted, value = 0 := by
  have few : (shiftedBodies row shifted).length ≤ Fintype.card (ZMod p) := by
    rw [ZMod.card]
    exact le_trans (by decide : 4 ≤ 2 ^ 64) large
  simp only [evaluateShiftedAtPoint_eq wide long, mul_eq_zero, off, false_or]
  rw [← eval_toPoly_eq_zero_iff few]
  constructor
  · intro vanish alpha
    exact (vanish alpha 0).resolve_left (by rw [pow_zero]; exact one_ne_zero)
  · intro vanish alpha alphaOffset
    exact .inr (vanish alpha)

theorem atPoint_vanish_iff (large : 2 ^ 64 ≤ p) {row : List (ZMod p)}
    (wide : row.length = numColumns) :
    (∀ alpha, evaluateAtPoint row alpha = 0) ↔ ∀ value ∈ rowBodies row, value = 0 := by
  have few : (rowBodies row).length ≤ Fintype.card (ZMod p) := by
    rw [ZMod.card]
    exact le_trans (by decide : 9 ≤ 2 ^ 64) large
  rw [← eval_toPoly_eq_zero_iff few]
  simp only [evaluateAtPoint, wide, lt_irrefl, if_false, foldl_accumulate, evalPolyAt_eq, zero_add,
    one_mul]

end Constraints

section Exact

variable {curve : CurveType} [Fact curve.order.Prime] {accesses : List ByteMemoryAccess}

theorem length_le_padded (accesses : List ByteMemoryAccess) : accesses.length ≤ padded accesses :=
  (Nat.le_max_left _ _).trans (le_nearestPowerOfTwo _)

omit [Fact curve.order.Prime] in
theorem length_shiftedAt (columns : List (List (Scalar curve))) (r : ℕ) :
    (shiftedAt columns r).length = 6 := List.length_map _

theorem rows_vanish_iff (columns : List (List (Scalar curve))) :
    (∀ values ∈ evaluateOnDomain columns, ∀ value ∈ values, value = 0) ↔
      ∀ r < domainSize columns, ∀ value ∈ rowBodies (rowAt columns r), value = 0 := by
  have nine : ∀ r, (rowBodies (rowAt columns r)).length = 9 := fun _ => rfl
  constructor
  · intro vanish r inside value member
    obtain ⟨k, small, rfl⟩ := List.mem_iff_getElem.1 member
    refine vanish _ (List.mem_map_of_mem (List.mem_range.2 (nine r ▸ small))) _
      (List.mem_map.2 ⟨r, List.mem_range.2 inside, List.getD_eq_getElem _ _ small⟩)
  · intro vanish values member value inside
    obtain ⟨k, small, rfl⟩ := List.mem_map.1 member
    obtain ⟨r, below, rfl⟩ := List.mem_map.1 inside
    have bound : k < (rowBodies (rowAt columns r)).length := nine r ▸ List.mem_range.1 small
    rw [List.getD_eq_getElem _ _ bound]
    exact vanish r (List.mem_range.1 below) _ (List.getElem_mem bound)

/-- The prover's nine columns and the verifier's combination vanish together. -/
theorem onDomain_iff_atPoint (large : 2 ^ 64 ≤ curve.order) {columns : List (List (Scalar curve))}
    (wide : columns.length = numColumns) :
    (∀ values ∈ evaluateOnDomain columns, ∀ value ∈ values, value = 0) ↔
      ∀ r < domainSize columns, ∀ alpha, evaluateAtPoint (rowAt columns r) alpha = 0 := by
  have rowWide : ∀ r, (rowAt columns r).length = numColumns :=
    fun _ => (List.length_map _).trans wide
  rw [rows_vanish_iff]
  exact forall₂_congr fun r _ => (atPoint_vanish_iff large (rowWide r)).symm

/-- The accesses of a row, in both views. -/
theorem exists_rows {i : ℕ} (inside : i < accesses.length) :
    ∃ u s, accesses[i]? = some u ∧ (sorted accesses)[i]? = some s ∧ u ∈ accesses ∧
      s ∈ accesses := by
  have insideS : i < (sorted accesses).length := length_sorted accesses ▸ inside
  exact ⟨accesses[i], (sorted accesses)[i], List.getElem?_eq_getElem inside,
    List.getElem?_eq_getElem insideS, List.getElem_mem inside,
    (sorted_perm accesses).mem_iff.1 (List.getElem_mem insideS)⟩

/-- The constraints of the trace say that every access of the sorted view follows the one in
front of it. -/
theorem satisfies_iff_eachFollows (large : 2 ^ 64 ≤ curve.order)
    (binary : ∀ access ∈ accesses, access.rw = 0 ∨ access.rw = 1) {omega : Scalar curve}
    (root : IsPrimitiveRoot omega (padded accesses)) :
    Satisfies (buildTracePolynomials curve accesses).columns omega ↔
      EachFollows (sorted accesses) := by
  have size := @domainSize_build accesses curve
  have fits := length_le_padded accesses
  constructor
  · rintro ⟨rows, shifted⟩ i s found
    rw [rows_vanish_iff, size] at rows
    rw [size] at shifted
    obtain ⟨inside, -⟩ := List.getElem?_eq_some_iff.1 found
    rw [length_sorted] at inside
    obtain ⟨u, s', here, there, uMember, sMember⟩ := exists_rows inside
    obtain rfl := Option.some.inj (found.symm.trans there)
    cases i with
    | zero =>
        have vanish := rows 0 (by omega)
        rw [rowAt_build curve (by omega)] at vanish
        exact (rowBodies_iff large (binary u uMember) (binary s sMember) here there).1 vanish rfl
    | succ i =>
        obtain ⟨u', prev, here', there', -, -⟩ := @exists_rows accesses i (by omega)
        have vanish := shifted i (by omega)
        rw [Nat.mod_eq_of_lt (by omega), shiftedAt, rowAt_build curve (by omega),
          rowAt_build curve (by omega)] at vanish
        rw [shifted_vanish_iff large (length_traceRow _ _) (by rfl)
          (exclusion_ne_zero root (by omega))] at vanish
        have follows := (shiftedBodies_iff large (binary s sMember) here' here there' there).1 vanish
        rw [show prevAt (sorted accesses) (i + 1) = some prev from there']
        exact follows
  · intro each
    refine ⟨?_, ?_⟩
    · rw [rows_vanish_iff, size]
      intro r below
      rw [rowAt_build curve below]
      rcases Nat.lt_or_ge r accesses.length with inside | past
      · obtain ⟨u, s, here, there, uMember, sMember⟩ := exists_rows inside
        exact (rowBodies_iff large (binary u uMember) (binary s sMember) here there).2
          fun _ => each r s there
      · rw [traceRow_past past]
        exact rowBodies_zero
    · rw [size]
      intro r below
      rcases Nat.lt_or_ge (r + 1) (padded accesses) with next | last
      · rw [Nat.mod_eq_of_lt next, shiftedAt, rowAt_build curve below, rowAt_build curve next]
        rw [shifted_vanish_iff large (length_traceRow _ _) (by rfl)
          (exclusion_ne_zero root next)]
        rcases Nat.lt_or_ge (r + 1) accesses.length with inside | past
        · obtain ⟨u', s, here', there', -, sMember⟩ := exists_rows inside
          obtain ⟨u, prev, here, there, -, -⟩ := @exists_rows accesses r (by omega)
          refine (shiftedBodies_iff large (binary s sMember) here here' there there').2 ?_
          have follows := each (r + 1) s there'
          rwa [show prevAt (sorted accesses) (r + 1) = some prev from there] at follows
        · exact shiftedBodies_past _ past
      · obtain rfl : r = padded accesses - 1 := by omega
        intro alpha alphaOffset
        rw [evaluateShiftedAtPoint_eq _ (length_shiftedAt _ _), sub_self, zero_mul]
        rw [rowAt_build curve below]
        exact length_traceRow _ _

/-- The columns meet all constraints, the host's check accepts, and every read returns the latest
write to its address: one of them exactly when the others. The prover's nine columns vanish
exactly when the verifier's combination does for every challenge. The builder inverts no
zero. -/
theorem byteMemory_exact (large : 2 ^ 64 ≤ curve.order)
    (binary : ∀ access ∈ accesses, access.rw = 0 ∨ access.rw = 1)
    (distinct : accesses.Pairwise fun a b => a.ts ≠ b.ts) {omega : Scalar curve}
    (root : IsPrimitiveRoot omega (padded accesses)) :
    (Satisfies (buildTracePolynomials curve accesses).columns omega ↔
      verifyReadConsistency accesses = .ok ()) ∧
    (verifyReadConsistency accesses = .ok () ↔ ReadsLatestWrites accesses) ∧
    ((∀ values ∈ evaluateOnDomain (buildTracePolynomials curve accesses).columns,
        ∀ value ∈ values, value = 0) ↔
      ∀ r < padded accesses, ∀ alpha,
        evaluateAtPoint (rowAt (buildTracePolynomials curve accesses).columns r) alpha = 0) ∧
    ∀ i prev s, (sorted accesses)[i]? = some prev → (sorted accesses)[i + 1]? = some s →
      s.addr ≠ prev.addr → (diffScalar prev.addr s.addr : Scalar curve) ≠ 0 := by
  refine ⟨?_, verify_iff_readsLatestWrites binary distinct, ?_,
    fun _ _ _ _ _ differ => diffScalar_ne_zero large differ⟩
  · rw [verify_ok_iff]
    exact satisfies_iff_eachFollows large binary root
  · have wide : (buildTracePolynomials curve accesses).columns.length = numColumns :=
      (List.length_map _).trans List.length_range
    rw [onDomain_iff_atPoint large wide, domainSize_build]

/-- A byte written and read back at one address, and nothing read at another. -/
def threeAccesses : List ByteMemoryAccess :=
  [⟨9, 0, 3, 0, 0⟩, ⟨4, 7, 2, 0, 1⟩, ⟨4, 7, 1, 1, 2⟩]

theorem padded_threeAccesses : padded threeAccesses = 16 := by
  rw [padded, nearestPowerOfTwo, nearestPowerOfTwo.go, if_neg (by decide)]

theorem byteMemory_exact_threeAccesses :
    (Satisfies (buildTracePolynomials .bls12381 threeAccesses).columns
      (rootTwoPow32 ^ 2 ^ 28 : Fr) ↔ verifyReadConsistency threeAccesses = .ok ()) ∧
    (verifyReadConsistency threeAccesses = .ok () ↔ ReadsLatestWrites threeAccesses) ∧
    ((∀ values ∈ evaluateOnDomain (buildTracePolynomials .bls12381 threeAccesses).columns,
        ∀ value ∈ values, value = 0) ↔
      ∀ r < padded threeAccesses, ∀ alpha,
        evaluateAtPoint (rowAt (buildTracePolynomials .bls12381 threeAccesses).columns r)
          alpha = 0) ∧
    ∀ i prev s, (sorted threeAccesses)[i]? = some prev →
      (sorted threeAccesses)[i + 1]? = some s → s.addr ≠ prev.addr →
        (diffScalar prev.addr s.addr : Fr) ≠ 0 :=
  @byteMemory_exact .bls12381 _ threeAccesses (by norm_num [CurveType.order, bls12381Order])
    (by decide) (by decide) (rootTwoPow32 ^ 2 ^ 28 : Fr)
    (padded_threeAccesses ▸ sixteenth_primitive)

end Exact

end MetaVm.Zkp.ByteMemory
