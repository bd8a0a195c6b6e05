import Mathlib
import MetaVm.Evm.Constraints.ProverVerifier

namespace MetaVm.Evm.Constraints

open Zkp

/-! Constraints between a row and the next one. Every frame operation pushes or
pops a frame, every other row keeps the frame. -/

/-- The columns that the verifier is given on the next row, in the order of their
positions. -/
def shiftedColumnIndices : List Column :=
  [colPc, colFrameDepth, colFrameCallerL0, colFrameCallerL1, colFrameCallerL2,
    colFrameCallerL3, colFrameCalleeL0, colFrameCalleeL1, colFrameCalleeL2,
    colFrameCalleeL3, colFrameReturnPc, colFrameValueL0, colFrameValueL1,
    colFrameValueL2, colFrameValueL3, colFrameStatic, colFrameGas,
    colFrameReturnOffset, colFrameReturnSize]

/-- The selectors after which the program counter does not go on. -/
def pcJumpSelectors : List Column :=
  [colSelCallReturn, colSelCreate, colSelCallcode, colSelDelegatecall,
    colSelCreate2, colSelStaticcall, colSelRevert, colSelStopPop]

/-- The selectors that change the frame, after that of CALL. -/
def frameOpSelectors : List Column :=
  [colSelCallReturn, colSelCallcode, colSelDelegatecall, colSelCreate,
    colSelCreate2, colSelStaticcall, colSelRevert, colSelStopPop]

section Verifier

variable {F : Type} [CommRing F] (row : Row F) (next : ℕ → F)

def pcGate : F := 1 - addAll pcJumpSelectors row (row colSelCallPushFrame)

def preserveGate : F := 1 - addAll frameOpSelectors row (row colSelCallPushFrame)

def depthInc : F := next 1 - row colFrameDepth - 1

def depthDec : F := next 1 - row colFrameDepth + 1

def calleeBind (source : Column) : List F :=
  (List.range 4).map fun k => next (6 + k) - row (columnAt source k)

def callerBind (source : Column) : List F :=
  (List.range 4).map fun k => next (2 + k) - row (columnAt source k)

def valuePreserve : List F :=
  (List.range 4).map fun k => next (11 + k) - row (columnAt colFrameValueL0 k)

def returnPcSet : F := next 10 - row colPc - 1

def staticPropagate : F := next 15 - row colFrameStatic

/-- A frame pushed with the callee from `source`, the caller being the callee of
the frame below. -/
def pushFrame (selector source : Column) (static : F) : List F :=
  gated row selector
    ([depthInc row next] ++ calleeBind row next source ++
      callerBind row next colFrameCalleeL0 ++ [returnPcSet row next, static])

/-- DELEGATECALL keeps the caller and the value. -/
def delegatecallFrame : List F :=
  gated row colSelDelegatecall
    ([depthInc row next] ++ calleeBind row next colInput1L0 ++
      callerBind row next colFrameCallerL0 ++ valuePreserve row next ++
      [returnPcSet row next, staticPropagate row next])

/-- The columns preserved, with their positions in the next row. -/
def preservePairs : List (Column × ℕ) :=
  [(colFrameDepth, 1), (colFrameCallerL0, 2), (colFrameCallerL1, 3),
    (colFrameCallerL2, 4), (colFrameCallerL3, 5), (colFrameCalleeL0, 6),
    (colFrameCalleeL1, 7), (colFrameCalleeL2, 8), (colFrameCalleeL3, 9),
    (colFrameReturnPc, 10), (colFrameValueL0, 11), (colFrameValueL1, 12),
    (colFrameValueL2, 13), (colFrameValueL3, 14), (colFrameStatic, 15),
    (colFrameGas, 16), (colFrameReturnOffset, 17), (colFrameReturnSize, 18)]

/-- The 91 gated bodies, before the factor that leaves out the last row. -/
def shiftedValues : List F :=
  [pcGate row * (next 0 - row colNextPc)] ++
    pushFrame row next colSelCallPushFrame colInput1L0
      (staticPropagate row next) ++
    gated row colSelCallReturn [depthDec row next] ++
    pushFrame row next colSelCallcode colInput1L0 (staticPropagate row next) ++
    delegatecallFrame row next ++
    pushFrame row next colSelCreate colCreateAddressHintL0
      (staticPropagate row next) ++
    pushFrame row next colSelCreate2 colCreateAddressHintL0
      (staticPropagate row next) ++
    pushFrame row next colSelStaticcall colInput1L0 (next 15 - 1) ++
    gated row colSelRevert [depthDec row next] ++
    preservePairs.map fun pair =>
      preserveGate row * (next pair.2 - row pair.1)

/-- None where a position is read that is not there. -/
def evaluateShiftedAtPoint (shiftedEvals : List F) (z omegaNMinus1 alpha : F)
    (alphaOffset : ℕ) : Option F :=
  if shiftedEvals.isEmpty then some 0
  else if shiftedEvals.length < 19 then none
  else
    let next := fun position => shiftedEvals.getD position 0
    let exclusion := z - omegaNMinus1
    let state := ((shiftedValues row next).map fun value => value * exclusion).foldl
      (accumulate alpha) (skip alpha alphaOffset (0, 1))
    some state.1

end Verifier

section Prover

variable {curve : CurveType} (col : Column → Poly curve) (omega : Scalar curve)

def nextPoly (column : Column) : Poly curve := polyShift (col column) omega

def pcGatePoly : Poly curve :=
  polySub (onePoly curve)
    (polyAddAll pcJumpSelectors col (col colSelCallPushFrame))

def preserveGatePoly : Poly curve :=
  polySub (onePoly curve)
    (polyAddAll frameOpSelectors col (col colSelCallPushFrame))

def depthIncPoly : Poly curve :=
  polySub (polySub (nextPoly col omega colFrameDepth) (col colFrameDepth))
    (onePoly curve)

def depthDecPoly : Poly curve :=
  polyAdd (polySub (nextPoly col omega colFrameDepth) (col colFrameDepth))
    (onePoly curve)

/-- Four limbs of the next row against four limbs of this one. -/
def bindPolys (target source : Column) : List (Poly curve) :=
  (List.range 4).map fun k =>
    polySub (nextPoly col omega (columnAt target k)) (col (columnAt source k))

def returnPcSetPoly : Poly curve :=
  polySub (polySub (nextPoly col omega colFrameReturnPc) (col colPc))
    (onePoly curve)

def staticPropagatePoly : Poly curve :=
  polySub (nextPoly col omega colFrameStatic) (col colFrameStatic)

def pushFramePairs (selector source : Column) (static : Poly curve) :
    List (Pair curve) :=
  pairs col selector
    ([depthIncPoly col omega] ++ bindPolys col omega colFrameCalleeL0 source ++
      bindPolys col omega colFrameCallerL0 colFrameCalleeL0 ++
      [returnPcSetPoly col omega, static])

def delegatecallPairs : List (Pair curve) :=
  pairs col colSelDelegatecall
    ([depthIncPoly col omega] ++
      bindPolys col omega colFrameCalleeL0 colInput1L0 ++
      bindPolys col omega colFrameCallerL0 colFrameCallerL0 ++
      bindPolys col omega colFrameValueL0 colFrameValueL0 ++
      [returnPcSetPoly col omega, staticPropagatePoly col omega])

def preserveColumns : List Column :=
  [colFrameDepth, colFrameCallerL0, colFrameCallerL1, colFrameCallerL2,
    colFrameCallerL3, colFrameCalleeL0, colFrameCalleeL1, colFrameCalleeL2,
    colFrameCalleeL3, colFrameReturnPc, colFrameValueL0, colFrameValueL1,
    colFrameValueL2, colFrameValueL3, colFrameStatic, colFrameGas,
    colFrameReturnOffset, colFrameReturnSize]

def shiftedPairs : List (Pair curve) :=
  [(pcGatePoly col, polySub (nextPoly col omega colPc) (col colNextPc))] ++
    pushFramePairs col omega colSelCallPushFrame colInput1L0
      (staticPropagatePoly col omega) ++
    pairs col colSelCallReturn [depthDecPoly col omega] ++
    pushFramePairs col omega colSelCallcode colInput1L0
      (staticPropagatePoly col omega) ++
    delegatecallPairs col omega ++
    pushFramePairs col omega colSelCreate colCreateAddressHintL0
      (staticPropagatePoly col omega) ++
    pushFramePairs col omega colSelCreate2 colCreateAddressHintL0
      (staticPropagatePoly col omega) ++
    pushFramePairs col omega colSelStaticcall colInput1L0
      (polySub (nextPoly col omega colFrameStatic) (onePoly curve)) ++
    pairs col colSelRevert [depthDecPoly col omega] ++
    preserveColumns.map fun column =>
      (preserveGatePoly col,
        polySub (nextPoly col omega column) (col column))

/-- `emit_gated` up to the exclusion of the wrap-around row. -/
def emitGated (omegaNMinus1 : Scalar curve) (pair : Pair curve) :
    Option (Poly curve) := do
  let gated ← polyMul curve pair.1 pair.2
  return polyMulLinear gated omegaNMinus1

def buildShiftedConstraintPolynomial (alpha : Scalar curve) (domainSize : ℕ+)
    (alphaOffset : ℕ) : Option (Poly curve) := do
  let ap := (skip alpha alphaOffset ((), 1)).2
  let omegaNMinus1 := powerLoop 1 omega (domainSize - 1)
  let emitted ← (shiftedPairs col omega).mapM (emitGated omegaNMinus1)
  return (emitted.foldl (accumulatePoly curve alpha) ([0], ap)).1

end Prover

section Agreement

variable {curve : CurveType} {z omega : Scalar curve} {size : ℕ}
variable {col : Column → Poly curve} {row rowNext : Row (Scalar curve)}
variable (column : ∀ c, Denotes z size 1 (col c) (row c))
variable (columnNext : ∀ c, Denotes (omega * z) size 1 (col c) (rowNext c))

/-- The evaluations at the next point, by position. -/
def shiftedRow {F : Type} [CommRing F] (rowNext : Row F) (position : ℕ) : F :=
  (shiftedColumnIndices.map rowNext).getD position 0

theorem shiftedRow_of_position {F : Type} [CommRing F] {rowNext : Row F}
    {position : ℕ} {c : Column} (here : shiftedColumnIndices[position]? = some c) :
    shiftedRow rowNext position = rowNext c := by
  rw [shiftedRow, List.getD_eq_getElem?_getD, List.getElem?_map, here]
  rfl

theorem preservePairs_columns : preservePairs.map Prod.fst = preserveColumns := rfl

theorem preservePairs_position :
    ∀ pair ∈ preservePairs, shiftedColumnIndices[pair.2]? = some pair.1 := by
  decide

theorem pcGatePoly_denotes (column : ∀ c, Denotes z size 1 (col c) (row c)) :
    Denotes z size 1 (pcGatePoly col) (pcGate row) :=
  Denotes.one.sub
    (addAll_denotes pcJumpSelectors column (column colSelCallPushFrame))

theorem preserveGatePoly_denotes (column : ∀ c, Denotes z size 1 (col c) (row c)) :
    Denotes z size 1 (preserveGatePoly col) (preserveGate row) :=
  Denotes.one.sub
    (addAll_denotes frameOpSelectors column (column colSelCallPushFrame))

theorem emitGated_returns {omegaNMinus1 : Scalar curve} {pair : Pair curve}
    {value : Scalar curve} (spec : PairValue z size pair value) :
    Returns (FitsDomain size) (emitGated omegaNMinus1 pair)
      fun c => ValueOf z c (value * (z - omegaNMinus1)) := by
  obtain ⟨gate, body, denotes, productEq⟩ := spec
  refine (denotes.gate.mul denotes.body (by decide)).bind fun gated gatedSpec => ?_
  rw [← productEq]
  exact .pure (gatedSpec.mulLinear omegaNMinus1).eval

section Bodies

include columnNext

theorem nextPoly_denotes (c : Column) :
    Denotes z size 1 (nextPoly col omega c) (rowNext c) :=
  (columnNext c).shift

include column

theorem depthIncPoly_denotes :
    BodyDenotes z size (depthIncPoly col omega) (depthInc row (shiftedRow rowNext)) :=
  (((nextPoly_denotes columnNext colFrameDepth).sub (column colFrameDepth)).sub
    .one).cast (by decide) rfl

theorem depthDecPoly_denotes :
    BodyDenotes z size (depthDecPoly col omega) (depthDec row (shiftedRow rowNext)) :=
  (((nextPoly_denotes columnNext colFrameDepth).sub (column colFrameDepth)).add
    .one).cast (by decide) rfl

theorem returnPcSetPoly_denotes :
    BodyDenotes z size (returnPcSetPoly col omega)
      (returnPcSet row (shiftedRow rowNext)) :=
  (((nextPoly_denotes columnNext colFrameReturnPc).sub (column colPc)).sub
    .one).cast (by decide) rfl

theorem staticPropagatePoly_denotes :
    BodyDenotes z size (staticPropagatePoly col omega)
      (staticPropagate row (shiftedRow rowNext)) :=
  ((nextPoly_denotes columnNext colFrameStatic).sub (column colFrameStatic)).cast
    (by decide) rfl

/-- The positions from `first` on hold the limbs of the target. -/
theorem bindPolys_denote {target source : Column} {first : ℕ}
    (positions : ∀ k < 4, shiftedColumnIndices[first + k]? =
      some (columnAt target k)) :
    List.Forall₂ (BodyDenotes z size) (bindPolys col omega target source)
      ((List.range 4).map fun k =>
        shiftedRow rowNext (first + k) - row (columnAt source k)) := by
  unfold bindPolys
  rw [List.forall₂_map_left_iff, List.forall₂_map_right_iff, List.forall₂_same]
  intro k inside
  rw [shiftedRow_of_position (positions k (List.mem_range.1 inside))]
  exact ((nextPoly_denotes columnNext (columnAt target k)).sub
    (column (columnAt source k))).cast (by decide) rfl

theorem pushFramePairs_value (selector source : Column) {static : Poly curve}
    {value : Scalar curve} (staticSpec : BodyDenotes z size static value) :
    List.Forall₂ (PairValue z size) (pushFramePairs col omega selector source static)
      (pushFrame row (shiftedRow rowNext) selector source value) := by
  have depth := depthIncPoly_denotes column columnNext
  have callee : List.Forall₂ (BodyDenotes z size)
      (bindPolys col omega colFrameCalleeL0 source)
      (calleeBind row (shiftedRow rowNext) source) :=
    bindPolys_denote column columnNext (by decide)
  have caller : List.Forall₂ (BodyDenotes z size)
      (bindPolys col omega colFrameCallerL0 colFrameCalleeL0)
      (callerBind row (shiftedRow rowNext) colFrameCalleeL0) :=
    bindPolys_denote column columnNext (by decide)
  have returnPc := returnPcSetPoly_denotes column columnNext
  exact pairs_value column selector <| List.rel_append (List.rel_append
    (List.rel_append (.cons depth .nil) callee) caller)
    (.cons returnPc (.cons staticSpec .nil))

theorem delegatecallPairs_value :
    List.Forall₂ (PairValue z size) (delegatecallPairs col omega)
      (delegatecallFrame row (shiftedRow rowNext)) := by
  have depth := depthIncPoly_denotes column columnNext
  have callee : List.Forall₂ (BodyDenotes z size)
      (bindPolys col omega colFrameCalleeL0 colInput1L0)
      (calleeBind row (shiftedRow rowNext) colInput1L0) :=
    bindPolys_denote column columnNext (by decide)
  have caller : List.Forall₂ (BodyDenotes z size)
      (bindPolys col omega colFrameCallerL0 colFrameCallerL0)
      (callerBind row (shiftedRow rowNext) colFrameCallerL0) :=
    bindPolys_denote column columnNext (by decide)
  have preserved : List.Forall₂ (BodyDenotes z size)
      (bindPolys col omega colFrameValueL0 colFrameValueL0)
      (valuePreserve row (shiftedRow rowNext)) :=
    bindPolys_denote column columnNext (by decide)
  have returnPc := returnPcSetPoly_denotes column columnNext
  have static := staticPropagatePoly_denotes column columnNext
  exact pairs_value column colSelDelegatecall <| List.rel_append (List.rel_append
    (List.rel_append (List.rel_append (.cons depth .nil) callee) caller) preserved)
    (.cons returnPc (.cons static .nil))

theorem preserved_value {list : List (Column × ℕ)}
    (positions : ∀ pair ∈ list, shiftedColumnIndices[pair.2]? = some pair.1) :
    List.Forall₂ (PairValue z size)
      ((list.map Prod.fst).map fun column =>
        (preserveGatePoly col, polySub (nextPoly col omega column) (col column)))
      (list.map fun pair =>
        preserveGate row * (shiftedRow rowNext pair.2 - row pair.1)) := by
  induction list with
  | nil => exact .nil
  | cons pair rest ih =>
      refine .cons ?_ (ih fun other known => positions other (.tail pair known))
      have here : shiftedRow rowNext pair.2 = rowNext pair.1 :=
        shiftedRow_of_position (positions pair (.head rest))
      have body : BodyDenotes z size
          (polySub (nextPoly col omega pair.1) (col pair.1))
          (shiftedRow rowNext pair.2 - row pair.1) := by
        rw [here]
        exact ((nextPoly_denotes columnNext pair.1).sub (column pair.1)).cast
          (by decide) rfl
      exact pairValue_of_denotes (preserveGatePoly_denotes column) body

/-- Pair by pair, the prover's shifted bodies take the verifier's values. -/
theorem shiftedPairs_value :
    List.Forall₂ (PairValue z size) (shiftedPairs col omega)
      (shiftedValues row (shiftedRow rowNext)) := by
  have push := pushFramePairs_value column columnNext
  have propagate := staticPropagatePoly_denotes column columnNext
  have pop := depthDecPoly_denotes column columnNext
  have pc : PairValue z size
      (pcGatePoly col, polySub (nextPoly col omega colPc) (col colNextPc))
      (pcGate row * (shiftedRow rowNext 0 - row colNextPc)) :=
    pairValue_of_denotes (pcGatePoly_denotes column)
      (((nextPoly_denotes columnNext colPc).sub (column colNextPc)).cast
        (by decide) rfl)
  have static : BodyDenotes z size
      (polySub (nextPoly col omega colFrameStatic) (onePoly curve))
      (shiftedRow rowNext 15 - 1) :=
    ((nextPoly_denotes columnNext colFrameStatic).sub .one).cast (by decide) rfl
  have preserved := preserved_value column columnNext preservePairs_position
  rw [preservePairs_columns] at preserved
  have calls := List.rel_append (List.rel_append (List.rel_append (List.rel_append
    (.cons pc .nil) (push colSelCallPushFrame colInput1L0 propagate))
    (pair_value column colSelCallReturn pop))
    (push colSelCallcode colInput1L0 propagate))
    (delegatecallPairs_value column columnNext)
  exact List.rel_append (List.rel_append (List.rel_append (List.rel_append
    (List.rel_append calls (push colSelCreate colCreateAddressHintL0 propagate))
    (push colSelCreate2 colCreateAddressHintL0 propagate))
    (push colSelStaticcall colInput1L0 static))
    (pair_value column colSelRevert pop)) preserved

theorem buildShiftedConstraintPolynomial_returns (alpha : Scalar curve)
    (domainSize : ℕ+) (alphaOffset : ℕ) :
    Returns (FitsDomain size)
      (buildShiftedConstraintPolynomial col omega alpha domainSize alphaOffset)
      fun c => evaluateShiftedAtPoint row (shiftedColumnIndices.map rowNext) z
        (omega ^ (domainSize - 1 : ℕ)) alpha alphaOffset =
          some (evalPolyAt c z) := by
  have exclusion : powerLoop 1 omega (domainSize - 1 : ℕ) =
      omega ^ (domainSize - 1 : ℕ) := by
    rw [powerLoop_eq, one_mul]
  have each := (shiftedPairs_value column columnNext).imp fun pair value spec =>
    @emitGated_returns _ _ _ (powerLoop 1 omega (domainSize - 1)) _ _ spec
  refine (Returns.mapM each).bind fun emitted emittedSpec => .pure ?_
  rw [exclusion, ← List.forall₂_map_right_iff] at emittedSpec
  have start : Tracks z (([0] : Poly curve), (skip alpha alphaOffset ((), 1)).2)
      (skip alpha alphaOffset (0, 1)) :=
    Tracks.initial.skip alpha alphaOffset
  have tracks := congrArg Prod.fst (start.run alpha emittedSpec)
  have given : (shiftedColumnIndices.map rowNext).isEmpty = false := rfl
  have all : (shiftedColumnIndices.map rowNext).length = 19 := rfl
  rw [evaluateShiftedAtPoint, given, all, if_neg Bool.false_ne_true,
    if_neg (lt_irrefl 19)]
  exact congrArg some tracks.symm

end Bodies

/-- Prover and verifier use the same constraints: whatever polynomials are built
from the columns evaluate at `z` to the verifier's combinations of the columns at
`z` and at `omega * z`, and they are built unless a column is longer than the
largest transform domain can multiply. -/
theorem constraintPolynomials_agree (col : Column → Poly curve)
    (alpha z omega : Scalar curve) (domainSize : ℕ+) (alphaOffset : ℕ) :
    (∀ c, buildConstraintPolynomial col alpha = some c →
      evalPolyAt c z =
        evaluateAtPoint (fun column => evalPolyAt (col column) z) alpha) ∧
      (∀ c, buildShiftedConstraintPolynomial col omega alpha domainSize
          alphaOffset = some c →
        evaluateShiftedAtPoint (fun column => evalPolyAt (col column) z)
            (shiftedColumnIndices.map fun column =>
              evalPolyAt (col column) (omega * z))
            z (omega ^ (domainSize - 1 : ℕ)) alpha alphaOffset =
          some (evalPolyAt c z)) ∧
      ((∀ column, (col column).length < 2 ^ 29) →
        (buildConstraintPolynomial col alpha).isSome ∧
          (buildShiftedConstraintPolynomial col omega alpha domainSize
            alphaOffset).isSome) := by
  have column : ∀ (point : Scalar curve) (size : ℕ),
      (∀ c, (col c).length ≤ size) → ∀ c,
        Denotes point size 1 (col c) (evalPolyAt (col c) point) := by
    intro point size bounded c
    have := bounded c
    exact ⟨rfl, by omega, Nat.one_pos⟩
  obtain ⟨size, bounded⟩ : ∃ size, ∀ c, (col c).length ≤ size :=
    ⟨Finset.univ.sup fun c => (col c).length, fun c =>
      @Finset.le_sup _ _ _ _ _ (fun c => (col c).length) c (Finset.mem_univ c)⟩
  refine ⟨?_, ?_, fun short => ?_⟩
  · exact (buildConstraintPolynomial_returns (column z size bounded) alpha).sound
  · exact (buildShiftedConstraintPolynomial_returns (column z size bounded)
      (column (omega * z) size bounded) alpha domainSize alphaOffset).sound
  · have bounded : ∀ c, (col c).length ≤ 2 ^ 29 - 1 := fun c =>
      Nat.le_sub_one_of_lt (short c)
    have fits : FitsDomain (2 ^ 29 - 1) := by
      norm_num [FitsDomain, maxLogDomain]
    exact ⟨(buildConstraintPolynomial_returns (column z _ bounded) alpha).total fits,
      (buildShiftedConstraintPolynomial_returns (column z _ bounded)
        (column (omega * z) _ bounded) alpha domainSize alphaOffset).total fits⟩

end Agreement

end MetaVm.Evm.Constraints
