import MetaVm.Zkp.MemoryAccesses

namespace MetaVm.Zkp

open GrandProduct

/-! What the register permutation enforces. The entries of the sorted table are
dealt out to lanes, and only entries of one lane are compared. -/

section Bodies

variable {F K : Type} [Field F] [Field K]

/-- The comparisons of neighbouring entries of a lane. -/
structure LaneHolds (exclusion : F) (cells shifted : RegisterRow F) (lane : ℕ) : Prop where
  binary : cells.isSameReg lane * (cells.isSameReg lane - 1) = 0
  continuity : shifted.isSameReg lane *
    ((shifted.sorted lane).addr - (cells.sorted lane).addr) * exclusion = 0
  difference : (1 - shifted.isSameReg lane) * (1 -
    ((shifted.sorted lane).addr - (cells.sorted lane).addr) * cells.invRegDiff lane) *
      exclusion = 0
  consistency : shifted.isSameReg lane * (1 - (shifted.sorted lane).rw) *
    ((shifted.sorted lane).values 0 - (cells.sorted lane).values 0) * exclusion = 0

theorem laneBodies_map (f : F →+* K) (exclusion : F) (cells shifted : RegisterRow F)
    (lane : ℕ) : laneBodies (f exclusion) (cells.map f) (shifted.map f) lane =
      (laneBodies exclusion cells shifted lane).map f := by
  simp only [laneBodies, RegisterRow.map, Access.map, List.map_cons, List.map_nil, map_mul,
    map_sub, map_one]

theorem laneBodies_vanish_iff (f : F →+* K) {exclusion : F} {cells shifted : RegisterRow F}
    {lane : ℕ} :
    (∀ body ∈ laneBodies (f exclusion) (cells.map f) (shifted.map f) lane, body = 0) ↔
      LaneHolds exclusion cells shifted lane := by
  rw [laneBodies_map, List.forall_mem_map]
  simp only [map_eq_zero_iff f f.injective, laneBodies, List.forall_mem_cons,
    List.not_mem_nil, false_implies, implies_true, and_true]
  exact ⟨fun ⟨binary, continuity, difference, consistency⟩ =>
      ⟨binary, continuity, difference, consistency⟩,
    fun holds => ⟨holds.binary, holds.continuity, holds.difference, holds.consistency⟩⟩

theorem RegisterPort.accessAt_map (f : F →+* K) (port : RegisterPort) (numPorts : ℕ)
    (row : ℕ → F) (rowTs : F) (portIdx : ℕ) :
    port.accessAt numPorts (fun column => f (row column)) (f rowTs) portIdx =
      (port.accessAt numPorts row rowTs portIdx).map f := by
  simp only [RegisterPort.accessAt, Access.map, map_add, map_mul, map_natCast,
    Access.mk.injEq, true_and]
  split <;> simp

theorem prod_zipIdx {A : Type*} (items : List A) (f : A × ℕ → K) :
    (items.zipIdx.map f).prod = ∏ i : Fin items.length, f (items[i], i) := by
  rw [← List.prod_ofFn]
  apply congrArg List.prod
  apply List.ext_getElem
  · simp
  · intro i _ _
    simp

theorem prod_range_map (size : ℕ) (f : ℕ → K) :
    ((List.range size).map f).prod = ∏ i : Fin size, f i :=
  (Finset.prod_range f : ∏ i ∈ Finset.range size, f i = _)

end Bodies

variable {p : ℕ} [Fact p.Prime] {L K : Type} [Field L] [Field K] [DecidableEq K]
  [Algebra (ZMod p) L] [Algebra (ZMod p) K] [Algebra L K] [IsScalarTower (ZMod p) L K]

/-- The bodies vanish on the domain. Only the running product depends on the
challenges. -/
def RegisterSatisfied (ports : RegisterPorts) (gamma delta : K) (omega : ZMod p)
    (domainSize : ℕ) (trace : ℕ → ℕ → ZMod p) (cells : ℕ → RegisterRow (ZMod p))
    (z : ℕ → K) : Prop :=
  ∀ row < domainSize, ∀ body ∈ registerBodies gamma delta ports.list
    (algebraMap (ZMod p) K (omega ^ row - omega ^ (domainSize - 1)))
    (lagrangeFirst domainSize (algebraMap (ZMod p) K (omega ^ row)))
    (fun column => algebraMap (ZMod p) K (trace row column))
    ((cells row).map (algebraMap (ZMod p) K))
    ((cells ((row + 1) % domainSize)).map (algebraMap (ZMod p) K)) (z row)
    (z ((row + 1) % domainSize)), body = 0

section Rows

variable {ports : RegisterPorts} {omega : ZMod p} {domainSize : ℕ}
  {trace : ℕ → ℕ → ZMod p} {cells : ℕ → RegisterRow (ZMod p)} {z : ℕ → K}

/-- The access of a port on a row of a trace. -/
def portAccess (ports : RegisterPorts) (trace : ℕ → ℕ → ZMod p)
    (cells : ℕ → RegisterRow (ZMod p)) (row : ℕ) (port : Fin ports.list.length) :
    Access (ZMod p) :=
  ports.list[port].accessAt ports.list.length (trace row) (cells row).rowTs port

omit [DecidableEq K] in
theorem registerBodies_vanish_iff {gamma delta lagrange zHere zShifted : K}
    {exclusion : ZMod p} {row next : ℕ} :
    (∀ body ∈ registerBodies gamma delta ports.list (algebraMap (ZMod p) K exclusion) lagrange
        (fun column => algebraMap (ZMod p) K (trace row column))
        ((cells row).map (algebraMap (ZMod p) K))
        ((cells next).map (algebraMap (ZMod p) K)) zHere zShifted, body = 0) ↔
      (∀ lane < ports.list.length, LaneHolds exclusion (cells row) (cells next) lane) ∧
      zShifted * ∏ lane : Fin ports.list.length, computeTupleHash gamma delta 1
          (((cells row).sorted lane).map (algebraMap (ZMod p) K)) =
        zHere * ∏ port : Fin ports.list.length, computeTupleHash gamma delta 1
          ((portAccess ports trace cells row port).map (algebraMap (ZMod p) K)) ∧
      lagrange * (zHere - 1) = 0 := by
  simp only [registerBodies, List.forall_mem_append, List.forall_mem_flatMap, List.mem_range,
    laneBodies_vanish_iff, List.forall_mem_cons, List.not_mem_nil, false_implies,
    implies_true, and_true, sub_eq_zero, prod_zipIdx, prod_range_map, portAccess,
    ← RegisterPort.accessAt_map]
  rfl

section Matching

variable {gamma : K} {delta : L} (freeDelta : Transcendental (ZMod p) delta)
  (freeGamma : Transcendental L gamma)

include freeDelta freeGamma

/-- The running product makes the table an order of the accesses. -/
theorem RegisterSatisfied.exists_matching
    (satisfied : RegisterSatisfied ports gamma (algebraMap L K delta) omega domainSize trace
      cells z) :
    ∃ matching : Equiv.Perm (Fin domainSize × Fin ports.list.length), ∀ access,
      ((cells (matching access).1).sorted (matching access).2).Same 1
        (portAccess ports trace cells access.1 access.2) := by
  rcases Nat.eq_zero_or_pos domainSize with rfl | positive
  · exact ⟨1, fun access => access.1.elim0⟩
  have rows := fun row inside => registerBodies_vanish_iff.1 (satisfied row inside)
  have start : z 0 = 1 := by
    have boundary := (rows 0 positive).2.2
    rw [pow_zero, map_one, lagrangeFirst_one, one_mul] at boundary
    exact sub_eq_zero.1 boundary
  have equal := prod_eq_of_steps positive start fun row inside => (rows row inside).2.1
  rw [Finset.prod_range, Finset.prod_range, ← Fintype.prod_prod_type',
    ← Fintype.prod_prod_type'] at equal
  exact (prod_tuples_eq_iff freeDelta freeGamma 1).1 equal

/-- A matched table has a running product. -/
theorem exists_register_product (root : IsPrimitiveRoot omega domainSize)
    {matching : Equiv.Perm (Fin domainSize × Fin ports.list.length)}
    (matched : ∀ access, ((cells (matching access).1).sorted (matching access).2).Same 1
      (portAccess ports trace cells access.1 access.2))
    (lanes : ∀ row < domainSize, ∀ lane < ports.list.length,
      LaneHolds (omega ^ row - omega ^ (domainSize - 1)) (cells row)
        (cells ((row + 1) % domainSize)) lane) :
    ∃ z : ℕ → K, RegisterSatisfied ports gamma (algebraMap L K delta) omega domainSize trace
      cells z := by
  let numer (row : ℕ) : K := ∏ port : Fin ports.list.length,
    computeTupleHash gamma (algebraMap L K delta) 1
      ((portAccess ports trace cells row port).map (algebraMap (ZMod p) K))
  let denom (row : ℕ) : K := ∏ lane : Fin ports.list.length,
    computeTupleHash gamma (algebraMap L K delta) 1
      (((cells row).sorted lane).map (algebraMap (ZMod p) K))
  have nonzero : ∀ row, denom row ≠ 0 := fun row =>
    Finset.prod_ne_zero_iff.2 fun lane _ => computeTupleHash_ne_zero freeGamma _ _
  have equal : ∏ row ∈ Finset.range domainSize, numer row =
      ∏ row ∈ Finset.range domainSize, denom row := by
    rw [Finset.prod_range, Finset.prod_range, ← Fintype.prod_prod_type',
      ← Fintype.prod_prod_type']
    exact (prod_tuples_eq_iff freeDelta freeGamma _).2 ⟨matching, matched⟩
  refine ⟨fun row => ∏ earlier ∈ Finset.range row, numer earlier / denom earlier, ?_⟩
  intro row inside
  refine registerBodies_vanish_iff.2
    ⟨lanes row inside, partialProd_step (fun i _ => nonzero i) equal inside, ?_⟩
  rcases Nat.eq_zero_or_pos row with rfl | later
  · simp
  · rw [lagrangeFirst_later root inside (Nat.pos_iff_ne_zero.1 later), zero_mul]

end Matching

/-- Entries carry the value of the source of their chain, lane by lane. -/
theorem RegisterSatisfied.value_source {gamma delta : K}
    (root : IsPrimitiveRoot omega domainSize)
    (satisfied : RegisterSatisfied ports gamma delta omega domainSize trace cells z)
    {i lane : ℕ} (inside : i < domainSize) (listed : lane < ports.list.length) :
    ((cells (Chain.source (Follows fun i => (cells i).sorted lane) i)).sorted lane).values 0 =
      ((cells i).sorted lane).values 0 := by
  refine @Chain.value_source _ _ _ (fun i => ((cells i).sorted lane).values 0) _ ?_
  intro earlier before follows
  have next : earlier + 1 < domainSize := lt_of_le_of_lt (Nat.succ_le_of_lt before) inside
  have holds := (registerBodies_vanish_iff.1
    (satisfied earlier (Nat.lt_of_succ_lt next))).1 lane listed
  rw [Nat.mod_eq_of_lt next] at holds
  exact sub_eq_zero.1 (carried_of_bodies (exclusion_ne_zero root next) holds.difference
    holds.consistency (sub_eq_zero.2 follows.2.1) follows.2.2)

end Rows

end MetaVm.Zkp
