import MetaVm.Zkp.Proof

namespace MetaVm.Zkp

/-! Chains of layers, from the execution of a block to its finality. -/

inductive LayerClaim
  | execution (blockHash : Hash32)
  | blockBinding (blockHash beaconBlockRoot : Hash32)
  | attestation (beaconBlockRoot attestationDataRoot : Hash32) (numAttesters : BitVec 64)
  | finality (attestationDataRoot finalizedRoot : Hash32)
      (totalEffectiveBalanceGwei : BitVec 64)
deriving DecidableEq

inductive LayerProofKind
  | referenceOnly
  | nonnativeFp
  | keccak
  | sha256
  | ssz
  | mpt
  | evmExp
  | vmRiscv
  | vmEvm
  | vmSbf
  | blsSig
  | finality
deriving DecidableEq, Repr

/-- A claim with the bytes of the proof behind it. -/
structure LayerProof where
  claim : LayerClaim
  kind : LayerProofKind
  proofBytes : List Byte
deriving DecidableEq

structure LayerChainProof where
  layers : List LayerProof
deriving DecidableEq

inductive ChainDecodeError
  | truncated (wanted available : ℕ)
  | lengthOverflow
  | invalidClaimTag (tag : Byte)
  | invalidKind (tag : Byte)
  | trailingBytes (count : ℕ)
deriving DecidableEq, Repr

def encodeClaim : LayerClaim → List Byte
  | .execution blockHash => 0 :: blockHash.1
  | .blockBinding blockHash beaconBlockRoot => 1 :: (blockHash.1 ++ beaconBlockRoot.1)
  | .attestation beaconBlockRoot attestationDataRoot numAttesters =>
      2 :: (beaconBlockRoot.1 ++ (attestationDataRoot.1 ++ writeU64 numAttesters))
  | .finality attestationDataRoot finalizedRoot totalEffectiveBalanceGwei =>
      3 :: (attestationDataRoot.1 ++ (finalizedRoot.1 ++ writeU64 totalEffectiveBalanceGwei))

def encodeKind : LayerProofKind → Byte
  | .referenceOnly => 0
  | .nonnativeFp => 1
  | .keccak => 2
  | .sha256 => 3
  | .ssz => 4
  | .mpt => 5
  | .evmExp => 6
  | .vmRiscv => 7
  | .vmEvm => 8
  | .vmSbf => 9
  | .blsSig => 10
  | .finality => 11

def decodeKind (byte : Byte) : Option LayerProofKind :=
  if byte = 0 then some .referenceOnly
  else if byte = 1 then some .nonnativeFp
  else if byte = 2 then some .keccak
  else if byte = 3 then some .sha256
  else if byte = 4 then some .ssz
  else if byte = 5 then some .mpt
  else if byte = 6 then some .evmExp
  else if byte = 7 then some .vmRiscv
  else if byte = 8 then some .vmEvm
  else if byte = 9 then some .vmSbf
  else if byte = 10 then some .blsSig
  else if byte = 11 then some .finality
  else none

abbrev ChainReader : Type → Type := Framing.Reader Byte ChainDecodeError

namespace ChainReader

open Framing

def readU8 : ChainReader Byte := readByte .truncated

def readU32 : ChainReader ℕ := readBigEndian .truncated 4

def readU64 : ChainReader (BitVec 64) := readWord .truncated 8

def readHash : ChainReader Hash32 := readArray .truncated 32

def decodeClaim : ChainReader LayerClaim := do
  let tag ← readU8
  if tag = 0 then do
    let blockHash ← readHash
    pure (.execution blockHash)
  else if tag = 1 then do
    let blockHash ← readHash
    let beaconBlockRoot ← readHash
    pure (.blockBinding blockHash beaconBlockRoot)
  else if tag = 2 then do
    let beaconBlockRoot ← readHash
    let attestationDataRoot ← readHash
    let numAttesters ← readU64
    pure (.attestation beaconBlockRoot attestationDataRoot numAttesters)
  else if tag = 3 then do
    let attestationDataRoot ← readHash
    let finalizedRoot ← readHash
    let totalEffectiveBalanceGwei ← readU64
    pure (.finality attestationDataRoot finalizedRoot totalEffectiveBalanceGwei)
  else throw (.invalidClaimTag tag)

def readKind : ChainReader LayerProofKind := do
  let byte ← readU8
  match decodeKind byte with
  | some kind => pure kind
  | none => throw (.invalidKind byte)

def readProofBytes : ChainReader (List Byte) := readPrefixed .truncated 4

def readLayer : ChainReader LayerProof := do
  let claim ← decodeClaim
  let kind ← readKind
  let proofBytes ← readProofBytes
  pure { claim, kind, proofBytes }

end ChainReader

namespace LayerChainProof

def writeLayer (layer : LayerProof) : List Byte :=
  List.flatten [encodeClaim layer.claim, [encodeKind layer.kind], writeBytes layer.proofBytes]

def toBytes (chain : LayerChainProof) : List Byte :=
  writeU32 chain.layers.length ++ chain.layers.flatMap writeLayer

def read : ChainReader LayerChainProof := do
  let count ← ChainReader.readU32
  let layers ← Framing.readMany ChainReader.readLayer count
  pure { layers }

def fromBytes (bytes : List Byte) : Except ChainDecodeError LayerChainProof :=
  Framing.runAll .trailingBytes read bytes

end LayerChainProof

end MetaVm.Zkp
