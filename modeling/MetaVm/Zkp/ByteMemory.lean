import MetaVm.Lib.OfflineMemory
import MetaVm.Zkp.ConstraintPoly
import MetaVm.Zkp.LinkageCompleteness

namespace MetaVm.Zkp

open CoeffList

/-! Memory accesses a byte at a time: the check of the host, the trace and its constraints. -/

structure ByteMemoryAccess where
  addr : BitVec 64
  val : Byte
  ts : BitVec 64
  rw : BitVec 64
  sourceRow : BitVec 64
deriving DecidableEq

namespace ByteMemory

section Host

def sortKeyLe (first second : ByteMemoryAccess) : Bool :=
  first.addr < second.addr ∨ first.addr = second.addr ∧ first.ts ≤ second.ts

/-- By address, and by time at one address. -/
def sorted (accesses : List ByteMemoryAccess) : List ByteMemoryAccess :=
  accesses.mergeSort sortKeyLe

/-- What the text of an error names. -/
structure ReadFailure where
  addr : BitVec 64
  ts : BitVec 64
  val : Byte
  expected : Byte
  sameAddr : Bool
  prevVal : Option Byte

def checkReads (prev : Option ByteMemoryAccess) :
    List ByteMemoryAccess → Except ReadFailure Unit
  | [] => .ok ()
  | cur :: rest =>
      let sameAddr : Bool := prev.any fun p => p.addr = cur.addr
      let expected : Byte := if sameAddr then prev.elim 0 ByteMemoryAccess.val else 0
      if cur.rw = 0 ∧ cur.val ≠ expected then
        .error ⟨cur.addr, cur.ts, cur.val, expected, sameAddr, prev.map ByteMemoryAccess.val⟩
      else checkReads (some cur) rest

def verifyReadConsistency (accesses : List ByteMemoryAccess) : Except ReadFailure Unit :=
  checkReads none (sorted accesses)

end Host

namespace Col

def addr : ℕ := 0
def val : ℕ := 1
def ts : ℕ := 2
def rw : ℕ := 3
def sourceRow : ℕ := 4
def isReal : ℕ := 5
def addrS : ℕ := 6
def valS : ℕ := 7
def tsS : ℕ := 8
def rwS : ℕ := 9
def sourceRowS : ℕ := 10
def isRealS : ℕ := 11
def isSameAddrS : ℕ := 12
def invDiffAddrS : ℕ := 13
def isFirst : ℕ := 14

end Col

def numColumns : ℕ := 15

section Trace

variable {p : ℕ}

/-- The difference of two addresses in the field, whichever is larger. -/
def diffScalar (prevAddr addr : BitVec 64) : ZMod p :=
  if prevAddr ≤ addr then Scalar.fromU64 (addr - prevAddr)
  else 0 - Scalar.fromU64 (prevAddr - addr)

/-- The flag and the inverse that compare an address with the one in front of it. -/
def neighbourCells (prev : Option ByteMemoryAccess) (s : ByteMemoryAccess) : ZMod p × ZMod p :=
  match prev with
  | none => (0, 0)
  | some prev =>
      if s.addr = prev.addr then (1, 0) else (0, (diffScalar prev.addr s.addr)⁻¹)

/-- The access in front of a row of the sorted view. -/
def prevAt (view : List ByteMemoryAccess) (i : ℕ) : Option ByteMemoryAccess :=
  if i = 0 then none else view[i - 1]?

def byteScalar (b : Byte) : ZMod p := Scalar.fromU64 (b.setWidth 64)

/-- A row of the trace; past the accesses it is zero. -/
def traceRow (accesses : List ByteMemoryAccess) (i : ℕ) : List (ZMod p) :=
  match accesses[i]?, (sorted accesses)[i]? with
  | some u, some s =>
      let (isSameAddr, invDiffAddr) := neighbourCells (prevAt (sorted accesses) i) s
      [Scalar.fromU64 u.addr, byteScalar u.val, Scalar.fromU64 u.ts, Scalar.fromU64 u.rw,
        Scalar.fromU64 u.sourceRow, 1, Scalar.fromU64 s.addr, byteScalar s.val,
        Scalar.fromU64 s.ts, Scalar.fromU64 s.rw, Scalar.fromU64 s.sourceRow, 1, isSameAddr,
        invDiffAddr, if i = 0 then 1 else 0]
  | _, _ => List.replicate numColumns 0

def padded (accesses : List ByteMemoryAccess) : ℕ :=
  nearestPowerOfTwo (max accesses.length 1)

def buildTracePolynomials (curve : CurveType) (accesses : List ByteMemoryAccess) :
    TracePolynomials curve where
  columns := (List.range numColumns).map fun col =>
    (List.range (padded accesses)).map fun i => (traceRow accesses i).getD col 0
  numRows := accesses.length
  paddedSize := BitVec.ofNat 64 (padded accesses)

end Trace

section Constraints

variable {F : Type} [CommRing F]

def cell (row : List F) (col : ℕ) : F := row.getD col 0

def bin (row : List F) (col : ℕ) : F := cell row col * (cell row col - 1)

/-- The nine values of a row. -/
def rowBodies (row : List F) : List F :=
  let f := cell row Col.isFirst
  let isRealS := cell row Col.isRealS
  [bin row Col.isReal, bin row Col.isRealS, bin row Col.rw, bin row Col.rwS,
    bin row Col.isSameAddrS, bin row Col.isFirst, f * (1 - isRealS), f * cell row Col.isSameAddrS,
    f * isRealS * (1 - cell row Col.rwS) * cell row Col.valS]

/-- A row of some columns. -/
def rowAt (columns : List (List F)) (r : ℕ) : List F := columns.map fun column => column.getD r 0

def domainSize (columns : List (List F)) : ℕ := (columns.headD []).length

def evaluateOnDomain (columns : List (List F)) : List (List F) :=
  (List.range 9).map fun k =>
    (List.range (domainSize columns)).map fun r => (rowBodies (rowAt columns r)).getD k 0

def evaluateAtPoint (row : List F) (alpha : F) : F :=
  if row.length < numColumns then 0
  else ((rowBodies row).foldl (accumulate alpha) (0, 1)).1

def shiftedColumnIndices : List ℕ :=
  [Col.addrS, Col.valS, Col.rwS, Col.isRealS, Col.isSameAddrS, Col.invDiffAddrS]

/-- The four values of a row and the next, which comes as its shifted columns. -/
def shiftedBodies (row shifted : List F) : List F :=
  let addrDiff := cell shifted 0 - cell row Col.addrS
  let valNext := cell shifted 1
  let read := 1 - cell shifted 2
  let isReal := cell shifted 3
  let isSame := cell shifted 4
  let invDiff := cell shifted 5
  [isReal * isSame * addrDiff, isReal * (1 - isSame) * (1 - addrDiff * invDiff),
    isReal * isSame * read * (valNext - cell row Col.valS), isReal * (1 - isSame) * read * valNext]

def evaluateShiftedAtPoint (row shifted : List F) (z omegaNMinus1 alpha : F) (alphaOffset : ℕ) :
    F :=
  if shifted.length < 6 ∨ row.length < numColumns then 0
  else
    let exclusion := z - omegaNMinus1
    let start := (List.range alphaOffset).foldl (fun power _ => power * alpha) 1
    ((shiftedBodies row shifted).foldl
      (fun state body => (state.1 + state.2 * body * exclusion, state.2 * alpha)) (0, start)).1

/-- The columns that are read on the next row. -/
def shiftedAt (columns : List (List F)) (r : ℕ) : List F :=
  shiftedColumnIndices.map fun col => cell (rowAt columns r) col

/-- All constraints hold on the domain of a generator. -/
structure Satisfies (columns : List (List F)) (omega : F) : Prop where
  rows : ∀ values ∈ evaluateOnDomain columns, ∀ value ∈ values, value = 0
  shifted : ∀ r < domainSize columns, ∀ (alpha : F) (alphaOffset : ℕ),
    evaluateShiftedAtPoint (rowAt columns r)
      (shiftedAt columns ((r + 1) % domainSize columns)) (omega ^ r)
      (omega ^ (domainSize columns - 1)) alpha alphaOffset = 0

end Constraints

end ByteMemory

end MetaVm.Zkp
