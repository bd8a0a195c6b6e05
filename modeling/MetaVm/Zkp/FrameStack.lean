import MetaVm.Lib.GrandProduct
import MetaVm.Lib.Nesting
import MetaVm.Zkp.LookupWitness

namespace MetaVm.Zkp

open GrandProduct

/-! The permutation of saved and restored frames. A row that pushes a frame
contributes the tuple on it, a row that pops a frame the tuple on the next row. -/

structure FrameStackPermLayout where
  zColumn : ℕ
  numColumns : ℕ
  tupleColumns : List ℕ
  pushSelectors : List ℕ
  popSelectors : List ℕ
deriving DecidableEq, Repr

section Bodies

variable {K : Type} [Field K]

/-- The columns weighted by the powers of a challenge, the first one with the
challenge itself, on top of another challenge. -/
def framePermTupleFactor (colEvals : List K) (gamma delta : K) : K :=
  (colEvals.foldl (fun state ev => (state.1 + state.2 * ev, state.2 * delta)) (gamma, delta)).1

/-- The tuple on rows with the flag, one on the other rows. -/
def framePermFactor (flag : K) (colEvals : List K) (gamma delta : K) : K :=
  flag * framePermTupleFactor colEvals gamma delta + (1 - flag)

/-- The running product before each row. -/
def computeFramePermZ (tuplePerRow tupleShiftedPerRow : ℕ → List K) (isPush isPop : ℕ → K)
    (gamma delta : K) : ℕ → K
  | 0 => 1
  | i + 1 =>
      computeFramePermZ tuplePerRow tupleShiftedPerRow isPush isPop gamma delta i *
        framePermFactor (isPush i) (tuplePerRow i) gamma delta *
        (framePermFactor (isPop i) (tupleShiftedPerRow i) gamma delta)⁻¹

/-- The step of the running product and its start, in the order of their powers. -/
def framePermBodies [DecidableEq K] (zAtZ zAtOmegaZ : K) (tupleAtZ tupleAtOmegaZ : List K)
    (isPushAtZ isPopAtZ gamma delta z : K) (domainSize : ℕ) : List K :=
  [zAtOmegaZ * framePermFactor isPopAtZ tupleAtOmegaZ gamma delta -
      zAtZ * framePermFactor isPushAtZ tupleAtZ gamma delta,
    lagrangeFirst domainSize z * (zAtZ - 1)]

end Bodies

/-! The cells that a layout reads. -/

namespace FrameStackPermLayout

variable {F : Type} [Field F] (layout : FrameStackPermLayout)

def tupleAt (row : ℕ → F) : List F := layout.tupleColumns.map row

def isPush (row : ℕ → F) : F := (layout.pushSelectors.map row).sum

def isPop (row : ℕ → F) : F := (layout.popSelectors.map row).sum

end FrameStackPermLayout

variable {p : ℕ} [Fact p.Prime] {L K : Type} [Field L] [Field K]
  [Algebra (ZMod p) L] [Algebra (ZMod p) K] [Algebra L K] [IsScalarTower (ZMod p) L K]

section Satisfied

variable [DecidableEq K] (layout : FrameStackPermLayout) (gamma delta : K) (size : ℕ)
  (trace : ℕ → ℕ → ZMod p)

/-- A column satisfies both constraints on every row of the domain. -/
def FramePermHolds (omega : ZMod p) (z : ℕ → K) : Prop :=
  ∀ i < size, ∀ body ∈ framePermBodies (z i) (z ((i + 1) % size))
    ((layout.tupleAt (trace i)).map (algebraMap (ZMod p) K))
    ((layout.tupleAt (trace ((i + 1) % size))).map (algebraMap (ZMod p) K))
    (algebraMap (ZMod p) K (layout.isPush (trace i)))
    (algebraMap (ZMod p) K (layout.isPop (trace i))) gamma delta
    (algebraMap (ZMod p) K (omega ^ i)) size, body = 0

/-- The column that the prover commits to. -/
def framePermZ : ℕ → K :=
  computeFramePermZ (fun i => (layout.tupleAt (trace i)).map (algebraMap (ZMod p) K))
    (fun i => (layout.tupleAt (trace ((i + 1) % size))).map (algebraMap (ZMod p) K))
    (fun i => algebraMap (ZMod p) K (layout.isPush (trace i)))
    (fun i => algebraMap (ZMod p) K (layout.isPop (trace i))) gamma delta

end Satisfied

/-! Tuples as polynomials in the challenge. -/

section Tuples

variable {F : Type} [Field F]

theorem framePermTupleFactor_eq (colEvals : List K) (gamma delta : K) :
    framePermTupleFactor colEvals gamma delta =
      gamma + delta * colEvals.foldr (fun ev rest => ev + delta * rest) 0 := by
  have general : ∀ acc power : K, (colEvals.foldl (fun state ev =>
      (state.1 + state.2 * ev, state.2 * delta)) (acc, power)).1 =
      acc + power * colEvals.foldr (fun ev rest => ev + delta * rest) 0 := by
    induction colEvals with
    | nil =>
        intro acc power
        rw [List.foldl_nil, List.foldr_nil, mul_zero, add_zero]
    | cons ev rest hypothesis =>
        intro acc power
        rw [List.foldl_cons, hypothesis, List.foldr_cons]
        ring
  exact general gamma delta

/-- The cells of a tuple as coefficients. -/
noncomputable def cellPolynomial (tuple : List F) : Polynomial F :=
  tuple.foldr (fun cell rest => .C cell + .X * rest) 0

theorem aeval_cellPolynomial [Algebra F L] (delta : L) (tuple : List F) :
    Polynomial.aeval delta (cellPolynomial tuple) =
      (tuple.map (algebraMap F L)).foldr (fun ev rest => ev + delta * rest) 0 := by
  induction tuple with
  | nil => exact map_zero _
  | cons cell rest hypothesis =>
      rw [cellPolynomial, List.foldr_cons, map_add, map_mul, Polynomial.aeval_C,
        Polynomial.aeval_X, ← cellPolynomial, hypothesis]
      rfl

theorem cellPolynomial_injective {first second : List F} (length : first.length = second.length)
    (same : cellPolynomial first = cellPolynomial second) : first = second := by
  induction first generalizing second with
  | nil => exact (List.eq_nil_of_length_eq_zero length.symm).symm
  | cons cell rest hypothesis =>
      obtain ⟨other, others, rfl⟩ := List.exists_cons_of_length_eq_add_one length.symm
      have split : ∀ (cell : F) (rest : List F), cellPolynomial (cell :: rest) =
          .C cell + .X * cellPolynomial rest := fun _ _ => rfl
      rw [split, split] at same
      have constant := congrArg (Polynomial.coeff · 0) same
      simp only [Polynomial.coeff_add, Polynomial.coeff_C_zero, Polynomial.mul_coeff_zero,
        Polynomial.coeff_X_zero, zero_mul, add_zero] at constant
      rw [constant, add_right_inj] at same
      have later := mul_left_cancel₀ Polynomial.X_ne_zero same
      rw [constant, hypothesis (Nat.succ_injective length) later]

end Tuples

/-! What the running product compares. -/

section Compared

open Nesting

variable (layout : FrameStackPermLayout) (events : ℕ → Event) (size : ℕ)
  (trace : ℕ → ℕ → ZMod p)

/-- The selectors of a trace say which rows push and which rows pop. -/
structure FollowsEvents : Prop where
  push : ∀ i < size, layout.isPush (trace i) = if events i = .opens then 1 else 0
  pop : ∀ i < size, layout.isPop (trace i) = if events i = .closes then 1 else 0

def savedFrames : Multiset (List (ZMod p)) :=
  ((Finset.range size).filter fun i => events i = .opens).val.map fun i =>
    layout.tupleAt (trace i)

def restoredFrames : Multiset (List (ZMod p)) :=
  ((Finset.range size).filter fun i => events i = .closes).val.map fun i =>
    layout.tupleAt (trace ((i + 1) % size))

variable {layout events size trace}

/-- The part of a tuple that the first challenge is added to. -/
noncomputable def frameCode (delta : L) (tuple : List (ZMod p)) : L :=
  delta * Polynomial.aeval delta (cellPolynomial tuple)

theorem framePermTupleFactor_map (gamma : K) (delta : L) (tuple : List (ZMod p)) :
    framePermTupleFactor (tuple.map (algebraMap (ZMod p) K)) gamma (algebraMap L K delta) =
      gamma + algebraMap L K (frameCode delta tuple) := by
  rw [framePermTupleFactor_eq, ← aeval_cellPolynomial, frameCode, map_mul,
    Polynomial.aeval_algebraMap_apply]

theorem framePermFactor_map (gamma : K) (delta : L) (tuple : List (ZMod p)) {chosen : Prop}
    [Decidable chosen] {flag : ZMod p} (isFlag : flag = if chosen then 1 else 0) :
    framePermFactor (algebraMap (ZMod p) K flag) (tuple.map (algebraMap (ZMod p) K)) gamma
        (algebraMap L K delta) =
      if chosen then gamma + algebraMap L K (frameCode delta tuple) else 1 := by
  rw [framePermFactor, framePermTupleFactor_map, isFlag]
  split
  · rw [map_one, one_mul, sub_self, add_zero]
  · rw [map_zero, zero_mul, sub_zero, zero_add]

theorem frameCode_injOn {delta : L} (free : Transcendental (ZMod p) delta) (length : ℕ) :
    Set.InjOn (frameCode delta) {tuple : List (ZMod p) | tuple.length = length} := by
  intro first ofFirst second ofSecond same
  have nonzero : delta ≠ 0 := fun zero => free (zero ▸ isAlgebraic_zero)
  have values := transcendental_iff_injective.1 free (mul_left_cancel₀ nonzero same)
  exact cellPolynomial_injective (ofFirst.trans ofSecond.symm) values

theorem saved_eq_restored_iff {delta : L} {gamma : K} (freeDelta : Transcendental (ZMod p) delta)
    (freeGamma : Transcendental L gamma) (follows : FollowsEvents layout events size trace) :
    ∏ i ∈ Finset.range size, framePermFactor (algebraMap (ZMod p) K (layout.isPush (trace i)))
        ((layout.tupleAt (trace i)).map (algebraMap (ZMod p) K)) gamma (algebraMap L K delta) =
      ∏ i ∈ Finset.range size, framePermFactor (algebraMap (ZMod p) K (layout.isPop (trace i)))
        ((layout.tupleAt (trace ((i + 1) % size))).map (algebraMap (ZMod p) K)) gamma
        (algebraMap L K delta) ↔
      savedFrames layout events size trace = restoredFrames layout events size trace := by
  have product : ∀ (flags : ℕ → ZMod p) (chosen : ℕ → Prop) [DecidablePred chosen]
      (tuples : ℕ → List (ZMod p)),
      (∀ i < size, flags i = if chosen i then 1 else 0) →
      ∏ i ∈ Finset.range size, framePermFactor (algebraMap (ZMod p) K (flags i))
        ((tuples i).map (algebraMap (ZMod p) K)) gamma (algebraMap L K delta) =
      (((((Finset.range size).filter chosen).val.map tuples).map (frameCode delta)).map
        fun code => gamma + algebraMap L K code).prod := by
    intro flags chosen _ tuples isFlag
    rw [Multiset.map_map, Multiset.map_map]
    show _ = ∏ i ∈ (Finset.range size).filter chosen, _
    rw [Finset.prod_filter]
    apply Finset.prod_congr rfl
    intro i member
    exact framePermFactor_map gamma delta _ (isFlag i (Finset.mem_range.1 member))
  have lengths : ∀ (rows : Finset ℕ) (next : ℕ → ℕ),
      ∀ tuple ∈ rows.val.map fun i => layout.tupleAt (trace (next i)),
        tuple ∈ {tuple : List (ZMod p) | tuple.length = layout.tupleColumns.length} := by
    intro rows next tuple member
    obtain ⟨i, _, rfl⟩ := Multiset.mem_map.1 member
    exact List.length_map _
  rw [product _ _ _ follows.push, product _ _ _ follows.pop, prod_map_eq_iff freeGamma]
  exact map_eq_map_iff_of_injOn (frameCode_injOn freeDelta _) (lengths _ id) (lengths _ _)

theorem framePermFactor_ne_zero {delta : L} {gamma : K} (freeGamma : Transcendental L gamma)
    (tuple : List (ZMod p)) {chosen : Prop} [Decidable chosen] {flag : ZMod p}
    (isFlag : flag = if chosen then 1 else 0) :
    framePermFactor (algebraMap (ZMod p) K flag) (tuple.map (algebraMap (ZMod p) K)) gamma
      (algebraMap L K delta) ≠ 0 := by
  rw [framePermFactor_map gamma delta tuple isFlag]
  split
  · exact add_ne_zero_of_transcendental freeGamma _
  · exact one_ne_zero

variable [DecidableEq K] {omega : ZMod p} {delta : L} {gamma : K}

theorem framePermBodies_vanish_iff {zAtZ zAtOmegaZ isPush isPop gamma delta z : K}
    {tupleAtZ tupleAtOmegaZ : List K} {domainSize : ℕ} :
    (∀ body ∈ framePermBodies zAtZ zAtOmegaZ tupleAtZ tupleAtOmegaZ isPush isPop gamma delta z
      domainSize, body = 0) ↔
      zAtOmegaZ * framePermFactor isPop tupleAtOmegaZ gamma delta =
        zAtZ * framePermFactor isPush tupleAtZ gamma delta ∧
      lagrangeFirst domainSize z * (zAtZ - 1) = 0 := by
  rw [framePermBodies, List.forall_mem_cons, List.forall_mem_singleton, sub_eq_zero]

/-- Whatever column satisfies the constraints, the frames that are restored are the
frames that were saved. -/
theorem FramePermHolds.saved_eq_restored (freeDelta : Transcendental (ZMod p) delta)
    (freeGamma : Transcendental L gamma) (follows : FollowsEvents layout events size trace)
    {z : ℕ → K} (holds : FramePermHolds layout gamma (algebraMap L K delta) size trace omega z) :
    savedFrames layout events size trace = restoredFrames layout events size trace := by
  rcases Nat.eq_zero_or_pos size with rfl | positive
  · rfl
  have rows := fun i inside => framePermBodies_vanish_iff.1 (holds i inside)
  have start : z 0 = 1 := by
    have boundary := (rows 0 positive).2
    rw [pow_zero, map_one, lagrangeFirst_one, one_mul] at boundary
    exact sub_eq_zero.1 boundary
  exact (saved_eq_restored_iff freeDelta freeGamma follows).1
    (prod_eq_of_steps positive start fun i inside => (rows i inside).1)

/-- The column that the prover computes satisfies the constraints exactly when the
frames that are restored are the frames that were saved. -/
theorem framePermZ_holds_iff (freeDelta : Transcendental (ZMod p) delta)
    (freeGamma : Transcendental L gamma) (root : IsPrimitiveRoot omega size)
    (follows : FollowsEvents layout events size trace) :
    FramePermHolds layout gamma (algebraMap L K delta) size trace omega
        (framePermZ layout gamma (algebraMap L K delta) size trace) ↔
      savedFrames layout events size trace = restoredFrames layout events size trace := by
  constructor
  · exact FramePermHolds.saved_eq_restored freeDelta freeGamma follows
  · intro same
    let numer := fun i => framePermFactor (algebraMap (ZMod p) K (layout.isPush (trace i)))
      ((layout.tupleAt (trace i)).map (algebraMap (ZMod p) K)) gamma (algebraMap L K delta)
    let denom := fun i => framePermFactor (algebraMap (ZMod p) K (layout.isPop (trace i)))
      ((layout.tupleAt (trace ((i + 1) % size))).map (algebraMap (ZMod p) K)) gamma
      (algebraMap L K delta)
    have closed : ∀ i, framePermZ layout gamma (algebraMap L K delta) size trace i =
        ∏ j ∈ Finset.range i, numer j / denom j := by
      intro i
      induction i with
      | zero => rfl
      | succ i hypothesis =>
          rw [Finset.prod_range_succ, ← hypothesis, div_eq_mul_inv, ← mul_assoc]
          rfl
    have product := (saved_eq_restored_iff freeDelta freeGamma follows).2 same
    intro i inside
    rw [framePermBodies_vanish_iff, closed, closed]
    constructor
    · refine partialProd_step (fun j below => ?_) product inside
      exact framePermFactor_ne_zero freeGamma _ (follows.pop j below)
    · rcases Nat.eq_zero_or_pos i with rfl | later
      · rw [Finset.prod_range_zero, sub_self, mul_zero]
      · rw [lagrangeFirst_later root inside (Nat.pos_iff_ne_zero.1 later), zero_mul]

end Compared

end MetaVm.Zkp
