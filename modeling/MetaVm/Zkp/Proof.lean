import MetaVm.Zkp.Lookup
import MetaVm.Lib.Framing

namespace MetaVm.Zkp

/-! Proofs as they are sent: commitments, openings and evaluations are strings
of bytes that only the curve library interprets. -/

structure Commitment where
  bytes : List Byte
deriving DecidableEq, Repr

structure BatchProof where
  d : List Byte
  proof : List Byte
deriving DecidableEq, Repr

/-- A hash of a machine state. -/
abbrev Hash32 : Type := { bytes : List Byte // bytes.length = 32 }

/-- A proof of correct execution. A part that the system does not have is empty
or missing. -/
structure ExecutionProof where
  columnCommitments : List Commitment
  quotientCommitments : List Commitment
  /-- The columns at the challenge point, and then the quotient chunks. -/
  evaluations : List (List Byte)
  openingProof : BatchProof
  numSteps : BitVec 64
  domainSize : BitVec 64
  numQuotientChunks : BitVec 8
  shiftedEvaluations : List (List Byte)
  shiftedOpeningProof : Option BatchProof
  logupCommitments : List Commitment
  logupEvaluations : List (List Byte)
  logupShiftedEvaluations : List (List Byte)
  logupOpeningProof : Option BatchProof
  logupShiftedOpeningProof : Option BatchProof
  bitwiseCommitments : List Commitment
  bitwiseEvaluations : List (List Byte)
  bitwiseShiftedEvaluations : List (List Byte)
  bitwiseOpeningProof : Option BatchProof
  bitwiseShiftedOpeningProof : Option BatchProof
  permCommitments : List Commitment
  permEvaluations : List (List Byte)
  permShiftedEvaluations : List (List Byte)
  permOpeningProof : Option BatchProof
  permShiftedOpeningProof : Option BatchProof
  oracleData : List (List Byte)
  regPermCommitments : List Commitment
  regPermEvaluations : List (List Byte)
  regPermShiftedEvaluations : List (List Byte)
  regPermOpeningProof : Option BatchProof
  regPermShiftedOpeningProof : Option BatchProof
  framePermCommitment : Option Commitment
  framePermEvaluation : Option (List Byte)
  framePermShiftedEvaluation : Option (List Byte)
  framePermOpeningProof : Option BatchProof
  framePermShiftedOpeningProof : Option BatchProof
  framePermPopShiftedEvaluations : List (List Byte)
  framePermPopShiftedOpeningProof : Option BatchProof

/-- The proof of one chunk of a run, between two hashed states. -/
structure ChunkProof where
  executionProof : ExecutionProof
  initialStateHash : Hash32
  finalStateHash : Hash32
  chunkIndex : BitVec 64

/-- Two points that stand for all openings folded so far, and a scalar that
stands for all constraint checks, empty when none are folded. -/
structure AccumulatedClaim where
  lAcc : List Byte
  rAcc : List Byte
  numFolded : BitVec 64
  scalarAcc : List Byte
deriving DecidableEq, Repr

structure RecursiveProof where
  currentProof : ExecutionProof
  accumulator : AccumulatedClaim
  depth : BitVec 64
  initialStateHash : Option Hash32
  finalStateHash : Option Hash32

inductive ProofDecodeError
  | truncated (wanted available : ℕ)
  | lengthOverflow
  | trailingBytes (count : ℕ)
  | invalidQuotientChunks (count : BitVec 8)
  | invalidOptionTag (tag : Byte)
deriving DecidableEq, Repr

/-! Framing of strings, lists and options. -/

section Writers

open Framing

def writeU32 (count : ℕ) : List Byte := bigEndian 4 count

def writeU64 (value : BitVec 64) : List Byte := bigEndian 8 value.toNat

def writeBytes (bytes : List Byte) : List Byte := writeU32 bytes.length ++ bytes

def writeVecBytes (strings : List (List Byte)) : List Byte :=
  writeU32 strings.length ++ strings.flatMap writeBytes

def writeVecCommit (commitments : List Commitment) : List Byte :=
  writeU32 commitments.length ++ commitments.flatMap fun commitment => writeBytes commitment.bytes

def writeBatchProof (proof : BatchProof) : List Byte :=
  writeBytes proof.d ++ writeBytes proof.proof

def writeOption {α : Type} (write : α → List Byte) : Option α → List Byte
  | none => [0]
  | some value => 1 :: write value

def writeOptionBatchProof : Option BatchProof → List Byte := writeOption writeBatchProof

def writeOptionCommit : Option Commitment → List Byte :=
  writeOption fun commitment => writeBytes commitment.bytes

def writeOptionBytes : Option (List Byte) → List Byte := writeOption writeBytes

end Writers

section Readers

open Framing

abbrev ProofReader : Type → Type := Framing.Reader Byte ProofDecodeError

def readU8 : ProofReader Byte := readByte .truncated

def readU32 : ProofReader ℕ := readBigEndian .truncated 4

def readU64 : ProofReader (BitVec 64) := readWord .truncated 8

/-- A string of a given length, when there are that many bytes. -/
def readSlice (length : ℕ) : ProofReader (List Byte) := fun buffer =>
  if buffer.length < length then .error .lengthOverflow else take .truncated length buffer

def readBytes : ProofReader (List Byte) := do
  let length ← readU32
  readSlice length

def readVecBytes : ProofReader (List (List Byte)) := do
  let count ← readU32
  readMany readBytes count

def readCommitment : ProofReader Commitment := do
  let bytes ← readBytes
  pure ⟨bytes⟩

def readVecCommit : ProofReader (List Commitment) := do
  let count ← readU32
  readMany readCommitment count

def readBatchProof : ProofReader BatchProof := do
  let d ← readBytes
  let proof ← readBytes
  pure ⟨d, proof⟩

def readOption {α : Type} (read : ProofReader α) : ProofReader (Option α) := do
  let tag ← readU8
  if tag = 0 then pure none
  else if tag = 1 then do
    let value ← read
    pure (some value)
  else throw (.invalidOptionTag tag)

def readOptionBatchProof : ProofReader (Option BatchProof) := readOption readBatchProof

def readOptionCommit : ProofReader (Option Commitment) := readOption readCommitment

def readOptionBytes : ProofReader (Option (List Byte)) := readOption readBytes

/-- The number of quotient chunks, which is not zero. -/
def readQuotientChunks : ProofReader Byte := do
  let count ← readU8
  if count = 0 then throw (.invalidQuotientChunks 0) else pure count

end Readers

namespace ExecutionProof

def toBytes (proof : ExecutionProof) : List Byte := List.flatten
  [writeVecCommit proof.columnCommitments,
    writeVecCommit proof.quotientCommitments,
    writeVecBytes proof.evaluations,
    writeBatchProof proof.openingProof,
    writeU64 proof.numSteps,
    writeU64 proof.domainSize,
    [proof.numQuotientChunks],
    writeVecBytes proof.shiftedEvaluations,
    writeOptionBatchProof proof.shiftedOpeningProof,
    writeVecCommit proof.logupCommitments,
    writeVecBytes proof.logupEvaluations,
    writeVecBytes proof.logupShiftedEvaluations,
    writeOptionBatchProof proof.logupOpeningProof,
    writeOptionBatchProof proof.logupShiftedOpeningProof,
    writeVecCommit proof.bitwiseCommitments,
    writeVecBytes proof.bitwiseEvaluations,
    writeVecBytes proof.bitwiseShiftedEvaluations,
    writeOptionBatchProof proof.bitwiseOpeningProof,
    writeOptionBatchProof proof.bitwiseShiftedOpeningProof,
    writeVecCommit proof.permCommitments,
    writeVecBytes proof.permEvaluations,
    writeVecBytes proof.permShiftedEvaluations,
    writeOptionBatchProof proof.permOpeningProof,
    writeOptionBatchProof proof.permShiftedOpeningProof,
    writeVecBytes proof.oracleData,
    writeVecCommit proof.regPermCommitments,
    writeVecBytes proof.regPermEvaluations,
    writeVecBytes proof.regPermShiftedEvaluations,
    writeOptionBatchProof proof.regPermOpeningProof,
    writeOptionBatchProof proof.regPermShiftedOpeningProof,
    writeOptionCommit proof.framePermCommitment,
    writeOptionBytes proof.framePermEvaluation,
    writeOptionBytes proof.framePermShiftedEvaluation,
    writeOptionBatchProof proof.framePermOpeningProof,
    writeOptionBatchProof proof.framePermShiftedOpeningProof,
    writeVecBytes proof.framePermPopShiftedEvaluations,
    writeOptionBatchProof proof.framePermPopShiftedOpeningProof]

def read : ProofReader ExecutionProof := do
  let columnCommitments ← readVecCommit
  let quotientCommitments ← readVecCommit
  let evaluations ← readVecBytes
  let openingProof ← readBatchProof
  let numSteps ← readU64
  let domainSize ← readU64
  let numQuotientChunks ← readQuotientChunks
  let shiftedEvaluations ← readVecBytes
  let shiftedOpeningProof ← readOptionBatchProof
  let logupCommitments ← readVecCommit
  let logupEvaluations ← readVecBytes
  let logupShiftedEvaluations ← readVecBytes
  let logupOpeningProof ← readOptionBatchProof
  let logupShiftedOpeningProof ← readOptionBatchProof
  let bitwiseCommitments ← readVecCommit
  let bitwiseEvaluations ← readVecBytes
  let bitwiseShiftedEvaluations ← readVecBytes
  let bitwiseOpeningProof ← readOptionBatchProof
  let bitwiseShiftedOpeningProof ← readOptionBatchProof
  let permCommitments ← readVecCommit
  let permEvaluations ← readVecBytes
  let permShiftedEvaluations ← readVecBytes
  let permOpeningProof ← readOptionBatchProof
  let permShiftedOpeningProof ← readOptionBatchProof
  let oracleData ← readVecBytes
  let regPermCommitments ← readVecCommit
  let regPermEvaluations ← readVecBytes
  let regPermShiftedEvaluations ← readVecBytes
  let regPermOpeningProof ← readOptionBatchProof
  let regPermShiftedOpeningProof ← readOptionBatchProof
  let framePermCommitment ← readOptionCommit
  let framePermEvaluation ← readOptionBytes
  let framePermShiftedEvaluation ← readOptionBytes
  let framePermOpeningProof ← readOptionBatchProof
  let framePermShiftedOpeningProof ← readOptionBatchProof
  let framePermPopShiftedEvaluations ← readVecBytes
  let framePermPopShiftedOpeningProof ← readOptionBatchProof
  pure { columnCommitments, quotientCommitments, evaluations, openingProof, numSteps,
         domainSize, numQuotientChunks, shiftedEvaluations, shiftedOpeningProof,
         logupCommitments, logupEvaluations, logupShiftedEvaluations, logupOpeningProof,
         logupShiftedOpeningProof, bitwiseCommitments, bitwiseEvaluations,
         bitwiseShiftedEvaluations, bitwiseOpeningProof, bitwiseShiftedOpeningProof,
         permCommitments, permEvaluations, permShiftedEvaluations, permOpeningProof,
         permShiftedOpeningProof, oracleData, regPermCommitments, regPermEvaluations,
         regPermShiftedEvaluations, regPermOpeningProof, regPermShiftedOpeningProof,
         framePermCommitment, framePermEvaluation, framePermShiftedEvaluation,
         framePermOpeningProof, framePermShiftedOpeningProof,
         framePermPopShiftedEvaluations, framePermPopShiftedOpeningProof }

def fromBytes (bytes : List Byte) : Except ProofDecodeError ExecutionProof :=
  Framing.runAll .trailingBytes read bytes

end ExecutionProof

namespace ChunkProof

def toBytes (chunk : ChunkProof) : List Byte :=
  let inner := chunk.executionProof.toBytes
  writeU32 inner.length ++ inner ++ chunk.initialStateHash.1 ++ chunk.finalStateHash.1 ++
    writeU64 chunk.chunkIndex

/-- The part of a string between two positions. -/
def slice (bytes : List Byte) (start stop : ℕ) : List Byte := (bytes.take stop).drop start

def fromBytes (bytes : List Byte) : Except ProofDecodeError ChunkProof :=
  if bytes.length < 4 then .error (.truncated 4 bytes.length)
  else
    let innerEnd := 4 + Framing.fromBigEndian (bytes.take 4)
    if enough : bytes.length < innerEnd + 72 then
      .error (.truncated (innerEnd + 68) (bytes.length - 4))
    else
      match ExecutionProof.fromBytes (slice bytes 4 innerEnd) with
      | .error fault => .error fault
      | .ok executionProof =>
          if bytes.length ≠ innerEnd + 72 then
            .error (.trailingBytes (bytes.length - (innerEnd + 72)))
          else .ok
            { executionProof
              initialStateHash := ⟨slice bytes innerEnd (innerEnd + 32), by
                rw [slice, List.length_drop, List.length_take]; omega⟩
              finalStateHash := ⟨slice bytes (innerEnd + 32) (innerEnd + 64), by
                rw [slice, List.length_drop, List.length_take]; omega⟩
              chunkIndex := BitVec.ofNat 64
                (Framing.fromBigEndian (slice bytes (innerEnd + 64) (innerEnd + 72))) }

end ChunkProof

namespace RecursiveProof

def writeOptionalHash : Option Hash32 → List Byte := writeOption Subtype.val

def toBytes (proof : RecursiveProof) : List Byte :=
  List.flatten
    [writeBytes proof.currentProof.toBytes,
      writeBytes proof.accumulator.lAcc,
      writeBytes proof.accumulator.rAcc,
      writeBytes proof.accumulator.scalarAcc,
      writeU64 proof.accumulator.numFolded,
      writeU64 proof.depth,
      writeOptionalHash proof.initialStateHash,
      writeOptionalHash proof.finalStateHash]

/-- A string with its length. Other than `readBytes`, a string that is too short
is reported with its length. -/
def readLp : ProofReader (List Byte) := Framing.readPrefixed .truncated 4

def readHash : ProofReader Hash32 := Framing.readArray .truncated 32

/-- The inner proof has to use up its string. -/
def readInner : ProofReader ExecutionProof := do
  let inner ← readLp
  match ExecutionProof.fromBytes inner with
  | .error fault => throw fault
  | .ok proof => pure proof

def read : ProofReader RecursiveProof := do
  let currentProof ← readInner
  let lAcc ← readLp
  let rAcc ← readLp
  let scalarAcc ← readLp
  let numFolded ← readU64
  let depth ← readU64
  let initialStateHash ← readOption readHash
  let finalStateHash ← readOption readHash
  pure { currentProof, accumulator := { lAcc, rAcc, numFolded, scalarAcc }, depth,
         initialStateHash, finalStateHash }

def fromBytes (bytes : List Byte) : Except ProofDecodeError RecursiveProof :=
  Framing.runAll .trailingBytes read bytes

end RecursiveProof

end MetaVm.Zkp
