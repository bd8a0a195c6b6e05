import MetaVm.Lib.Outcome
import MetaVm.Zkp.Transcript

namespace MetaVm.Zkp

/-! Polynomial commitment schemes, as far as proofs are folded with them. What
the curve libraries refuse to read stops the program. -/

/-- Compressed points of a curve. A point that was written can be read. -/
structure PointCodec (G : Type) where
  compress : G → List Byte
  decompress : List Byte → Option G
  decompress_compress : ∀ point, decompress (compress point) = some point

structure CommitmentScheme (curve : CurveType) where
  computeLr (commitments : List (List Byte)) (evaluations : List (Scalar curve))
    (z beta : Scalar curve) (proof : List Byte) : Option (List Byte × List Byte)
  foldAccumulator (lLeft rLeft lRight rRight : List Byte) (challenge : Scalar curve) :
    Option (List Byte × List Byte)

/-! The scheme of both curves: openings as pairs of points in a group. -/

section Kzg

variable {curve : CurveType} {G : Type} [AddCommGroup G]

/-- Commitments weighted by the powers of a challenge. -/
def combineCommitments (codec : PointCodec G) (beta : Scalar curve) :
    Scalar curve → List (List Byte) → Option G
  | _, [] => some 0
  | betaPower, bytes :: rest => do
      let commitment ← codec.decompress bytes
      let others ← combineCommitments codec beta (betaPower * beta) rest
      pure (betaPower.val • commitment + others)

def combineEvaluations (beta : Scalar curve) : Scalar curve → List (Scalar curve) → Scalar curve
  | _, [] => 0
  | betaPower, y :: rest => betaPower * y + combineEvaluations beta (betaPower * beta) rest

namespace PointCodec

/-- The two sides of the pairing equation of an opening. -/
def computeLr (codec : PointCodec G) (generator : G) (commitments : List (List Byte))
    (evaluations : List (Scalar curve)) (z beta : Scalar curve) (proof : List Byte) :
    Option (List Byte × List Byte) := do
  let combined ← combineCommitments codec beta 1 commitments
  let pi ← codec.decompress proof
  let l := combined - (combineEvaluations beta 1 evaluations).val • generator + z.val • pi
  pure (codec.compress l, codec.compress pi)

def foldAccumulator (codec : PointCodec G) (lLeft rLeft lRight rRight : List Byte)
    (factor : ℕ) : Option (List Byte × List Byte) := do
  let lLeft ← codec.decompress lLeft
  let lRight ← codec.decompress lRight
  let rLeft ← codec.decompress rLeft
  let rRight ← codec.decompress rRight
  pure (codec.compress (lLeft + factor • lRight), codec.compress (rLeft + factor • rRight))

end PointCodec

/-- Scalars act on points by their canonical representatives. -/
def kzgScheme (curve : CurveType) (codec : PointCodec G) (generator : G) :
    CommitmentScheme curve where
  computeLr := codec.computeLr generator
  foldAccumulator lLeft rLeft lRight rRight challenge :=
    codec.foldAccumulator lLeft rLeft lRight rRight challenge.val

end Kzg

end MetaVm.Zkp

namespace MetaVm.Zkp

open Framing

/-! A chunk proof becomes a pair of points that stands for its openings. -/

/-- Integers of the BLS48-581 library. -/
structure BigLibrary where
  curveOrder : ℕ
  fromBytes : List Byte → Option ℕ

/-- The challenges that a proof draws before its openings are batched. -/
structure ChunkChallengeBytes where
  alpha : Hash32
  logupGamma : Option Hash32
  bitwiseGammaDelta : Option (Hash32 × Hash32)
  permGammaDelta : Option (Hash32 × Hash32)
  regPermGammaDelta : Option (Hash32 × Hash32)
  framePermGammaDelta : Option (Hash32 × Hash32)
  z : Hash32
  betaMain : Hash32

section Transcripts

open Absorbing

variable (sha3 : Sha3)

/-- Two challenges for a part of the proof, and then its commitments. -/
def absorbPart (name : String) (commitments : List Commitment) :
    Absorbing (Option (Hash32 × Hash32)) := do
  if commitments.isEmpty then pure none
  else
    let gamma ← squeeze sha3 (name ++ "_gamma")
    let delta ← squeeze sha3 (name ++ "_delta")
    messages (name ++ "_column_commitment") (commitments.map Commitment.bytes)
    pure (some (gamma, delta))

/-- The transcript of a chunk proof up to the challenge that batches the main
opening. -/
def absorbChunk (chunk : ChunkProof) : Absorbing ChunkChallengeBytes := do
  let proof := chunk.executionProof
  word "chunk_index" chunk.chunkIndex
  message "initial_state" chunk.initialStateHash.1
  message "final_state" chunk.finalStateHash.1
  word "num_steps" proof.numSteps
  word "domain_size" proof.domainSize
  messages "column_commitment" (proof.columnCommitments.map Commitment.bytes)
  let alpha ← squeeze sha3 "alpha"
  let logupGamma ← if proof.logupCommitments.isEmpty then pure none
    else do
      let gamma ← squeeze sha3 "logup_gamma"
      messages "logup_column_commitment" (proof.logupCommitments.map Commitment.bytes)
      pure (some gamma)
  let bitwiseGammaDelta ← absorbPart sha3 "bitwise" proof.bitwiseCommitments
  let permGammaDelta ← absorbPart sha3 "perm" proof.permCommitments
  if proof.oracleData.isEmpty then pure ()
  else
    word "num_oracle_entries" (BitVec.ofNat 64 proof.oracleData.length)
    messages "oracle_entry" proof.oracleData
  let regPermGammaDelta ← absorbPart sha3 "reg_perm" proof.regPermCommitments
  let framePermGammaDelta ← absorbPart sha3 "frame_perm" proof.framePermCommitment.toList
  messages "quotient_commitment" (proof.quotientCommitments.map Commitment.bytes)
  let z ← squeeze sha3 "z"
  messages "evaluation" proof.evaluations
  messages "shifted_evaluation" proof.shiftedEvaluations
  messages "logup_evaluation" proof.logupEvaluations
  messages "logup_shifted_evaluation" proof.logupShiftedEvaluations
  messages "bitwise_evaluation" proof.bitwiseEvaluations
  messages "bitwise_shifted_evaluation" proof.bitwiseShiftedEvaluations
  messages "perm_evaluation" proof.permEvaluations
  messages "perm_shifted_evaluation" proof.permShiftedEvaluations
  messages "reg_perm_evaluation" proof.regPermEvaluations
  messages "reg_perm_shifted_evaluation" proof.regPermShiftedEvaluations
  optional "frame_perm_evaluation" proof.framePermEvaluation
  optional "frame_perm_shifted_evaluation" proof.framePermShiftedEvaluation
  let betaMain ← squeeze sha3 "beta"
  pure { alpha, logupGamma, bitwiseGammaDelta, permGammaDelta, regPermGammaDelta,
         framePermGammaDelta, z, betaMain }

def chunkChallengeBytes (chunk : ChunkProof) : ChunkChallengeBytes :=
  ((absorbChunk sha3 chunk).run (Transcript.new (ascii "metavm-execution-proof"))).1

end Transcripts

/-- The commitments of the main opening: columns, and then quotient chunks. -/
def mainCommitments (proof : ExecutionProof) : List (List Byte) :=
  (proof.columnCommitments ++ proof.quotientCommitments).map Commitment.bytes

section Begin

variable (sha3 : Sha3) {curve : CurveType} (scheme : CommitmentScheme curve)

/-- The challenge point, the batching challenge and the claimed values. -/
def recoverChunkChallengesScheme (curve : CurveType) (chunk : ChunkProof) :
    Scalar curve × Scalar curve × List (Scalar curve) :=
  let bytes := chunkChallengeBytes sha3 chunk
  (Scalar.fromChallengeBytes curve bytes.z.1, Scalar.fromChallengeBytes curve bytes.betaMain.1,
    chunk.executionProof.evaluations.map (Scalar.fromBytes curve))

def computeLrScheme (chunk : ChunkProof) : Option (List Byte × List Byte) :=
  let (z, beta, evals) := recoverChunkChallengesScheme sha3 curve chunk
  scheme.computeLr (mainCommitments chunk.executionProof) evals z beta
    chunk.executionProof.openingProof.proof

/-- A proof of one chunk with its own pair of points. -/
def RecursiveProof.ofChunk (first : ChunkProof) (points : List Byte × List Byte) :
    RecursiveProof where
  currentProof := first.executionProof
  accumulator := { lAcc := points.1, rAcc := points.2, numFolded := 1, scalarAcc := [] }
  depth := 1
  initialStateHash := some first.initialStateHash
  finalStateHash := some first.finalStateHash

def beginChunkScheme (first : ChunkProof) : Except Fault RecursiveProof := do
  let points ← orPanic (computeLrScheme sha3 scheme first)
  pure (.ofChunk first points)

end Begin

/-! The older functions know only one curve, and read values without padding. -/

section Legacy

variable (sha3 : Sha3) (big : BigLibrary) {G : Type} [AddCommGroup G] (codec : PointCodec G)
variable (generator : G)

def computeLr (chunk : ChunkProof) : Option (List Byte × List Byte) := do
  let bytes := chunkChallengeBytes sha3 chunk
  let evals ← chunk.executionProof.evaluations.mapM big.fromBytes
  codec.computeLr generator (mainCommitments chunk.executionProof)
    (evals.map fun value => (value : Scalar (.bls48581 big.curveOrder)))
    (Scalar.fromChallengeBytes _ bytes.z.1) (Scalar.fromChallengeBytes _ bytes.betaMain.1)
    chunk.executionProof.openingProof.proof

def beginChunk (first : ChunkProof) : Except Fault RecursiveProof := do
  let points ← orPanic (computeLr sha3 big codec generator first)
  pure (.ofChunk first points)

end Legacy

end MetaVm.Zkp
