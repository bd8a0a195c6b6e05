import MetaVm.Zkp.LayerChain

namespace MetaVm.Zkp

open Framing

/-! Consistency of a chain of claims, and the one hash that stands for it. -/

inductive ChainError
  | empty
  | firstNotExecution
  | lastNotFinality
  | invalidTransition (fromIndex : ℕ)
  | boundaryMismatch (atIndex : ℕ) (what : String)
deriving DecidableEq, Repr

structure LayerChain where
  claims : List LayerClaim
deriving DecidableEq

/-- The boundary values of the four layers. -/
@[ext]
structure ChainBoundaries where
  blockHash : Hash32
  beaconBlockRoot : Hash32
  attestationDataRoot : Hash32
  numAttesters : BitVec 64
  finalizedRoot : Hash32
  totalEffectiveBalanceGwei : BitVec 64
deriving DecidableEq

structure FinalOutput where
  blockHash : Hash32
  beaconBlockRoot : Hash32
  finalizedRoot : Hash32
  totalEffectiveBalanceGwei : BitVec 64
deriving DecidableEq

namespace LayerChain

def isExecution : LayerClaim → Bool
  | .execution _ => true
  | _ => false

def isFinality : LayerClaim → Bool
  | .finality .. => true
  | _ => false

def checkBoundary (index : ℕ) (what : String) (out inp : Hash32) : Except ChainError Unit :=
  if out ≠ inp then .error (.boundaryMismatch index what) else .ok ()

/-- The claim at `index` behind its predecessor. -/
def checkLink (index : ℕ) : LayerClaim → LayerClaim → Except ChainError Unit
  | .execution out, .blockBinding inp _ => checkBoundary index "block_hash" out inp
  | .blockBinding _ out, .attestation inp _ _ => checkBoundary index "beacon_block_root" out inp
  | .attestation _ out _, .finality inp _ _ => checkBoundary index "attestation_data_root" out inp
  | _, _ => .error (.invalidTransition (index - 1))

/-- Every claim from `index` on, with its predecessor. -/
def checkLinks : ℕ → List LayerClaim → Except ChainError Unit
  | index, previous :: claim :: rest => do
      checkLink index previous claim
      checkLinks (index + 1) (claim :: rest)
  | _, _ => .ok ()

def verifyConsistency (chain : LayerChain) : Except ChainError Unit :=
  match chain.claims with
  | [] => .error .empty
  | first :: rest =>
      if ¬ isExecution first then .error .firstNotExecution
      else if ¬ (first :: rest).getLast?.any isFinality then .error .lastNotFinality
      else checkLinks 1 (first :: rest)

/-- The values that the commitment is made of, as far as they were met. -/
structure Committed where
  blockHash : Option Hash32 := none
  beaconRoot : Option Hash32 := none
  attRoot : Option Hash32 := none
  numAtts : Option (BitVec 64) := none
  finalRoot : Option Hash32 := none
  weight : Option (BitVec 64) := none

def Committed.meet (met : Committed) : LayerClaim → Committed
  | .execution blockHash => { met with blockHash := some blockHash }
  | .blockBinding _ beaconRoot => { met with beaconRoot := some beaconRoot }
  | .attestation _ attRoot numAtts => { met with attRoot := some attRoot, numAtts := some numAtts }
  | .finality _ finalRoot weight => { met with finalRoot := some finalRoot, weight := some weight }

/-- The values of the final output, as far as they were met. -/
structure Output where
  blockHash : Option Hash32 := none
  beaconBlockRoot : Option Hash32 := none
  finalizedRoot : Option Hash32 := none
  weight : Option (BitVec 64) := none

def Output.meet (met : Output) : LayerClaim → Output
  | .execution blockHash => { met with blockHash := some blockHash }
  | .blockBinding _ beaconBlockRoot => { met with beaconBlockRoot := some beaconBlockRoot }
  | .finality _ finalizedRoot weight =>
      { met with finalizedRoot := some finalizedRoot, weight := some weight }
  | .attestation .. => met

/-- What is hashed: the boundary values one behind the other. -/
def preimage (blockHash beaconRoot attRoot : Hash32) (numAtts : BitVec 64) (finalRoot : Hash32)
    (weight : BitVec 64) : List Byte :=
  blockHash.1 ++ (beaconRoot.1 ++ (attRoot.1 ++ (writeU64 numAtts ++
    (finalRoot.1 ++ writeU64 weight))))

section Hash

variable (keccak256 : List Byte → Hash32)

def commitment (chain : LayerChain) : Option Hash32 := do
  (verifyConsistency chain).toOption
  let met := chain.claims.foldl Committed.meet {}
  let blockHash ← met.blockHash
  let beaconRoot ← met.beaconRoot
  let attRoot ← met.attRoot
  let numAtts ← met.numAtts
  let finalRoot ← met.finalRoot
  let weight ← met.weight
  pure (keccak256 (preimage blockHash beaconRoot attRoot numAtts finalRoot weight))

def finalOutput (chain : LayerChain) : Option FinalOutput := do
  (verifyConsistency chain).toOption
  let met := chain.claims.foldl Output.meet {}
  let blockHash ← met.blockHash
  let beaconBlockRoot ← met.beaconBlockRoot
  let finalizedRoot ← met.finalizedRoot
  let totalEffectiveBalanceGwei ← met.weight
  pure { blockHash, beaconBlockRoot, finalizedRoot, totalEffectiveBalanceGwei }

def fromBoundaries (b : ChainBoundaries) : LayerChain where
  claims :=
    [.execution b.blockHash, .blockBinding b.blockHash b.beaconBlockRoot,
      .attestation b.beaconBlockRoot b.attestationDataRoot b.numAttesters,
      .finality b.attestationDataRoot b.finalizedRoot b.totalEffectiveBalanceGwei]

/-- The same hash, from the final output and the two values it leaves out. -/
def commitmentWith (output : FinalOutput) (attestationDataRoot : Hash32)
    (numAttesters : BitVec 64) : Hash32 :=
  keccak256 (preimage output.blockHash output.beaconBlockRoot attestationDataRoot numAttesters
    output.finalizedRoot output.totalEffectiveBalanceGwei)

end Hash

/-! What is checked ties every claim to one list of boundary values. -/

theorem checkBoundary_eq_ok {index : ℕ} {what : String} {out inp : Hash32} :
    checkBoundary index what out inp = .ok () ↔ out = inp := by
  rw [checkBoundary]
  split
  · rename_i apart
    exact ⟨(nomatch ·), fun same => absurd same apart⟩
  · rename_i same
    exact ⟨fun _ => not_not.1 same, fun _ => rfl⟩

theorem checkLinks_cons_eq_ok {index : ℕ} {previous claim : LayerClaim} {rest : List LayerClaim} :
    checkLinks index (previous :: claim :: rest) = .ok () ↔
      checkLink index previous claim = .ok () ∧
        checkLinks (index + 1) (claim :: rest) = .ok () := by
  rw [checkLinks]
  cases link : checkLink index previous claim with
  | error fault => exact ⟨(nomatch ·), fun ⟨linked, _⟩ => nomatch linked⟩
  | ok => exact ⟨fun passed => ⟨rfl, passed⟩, fun passed => passed.2⟩

theorem checkLink_eq_ok {index : ℕ} {previous claim : LayerClaim} :
    checkLink index previous claim = .ok () ↔
      (∃ blockHash beaconBlockRoot, previous = .execution blockHash ∧
        claim = .blockBinding blockHash beaconBlockRoot) ∨
      (∃ blockHash beaconBlockRoot attestationDataRoot numAttesters,
        previous = .blockBinding blockHash beaconBlockRoot ∧
          claim = .attestation beaconBlockRoot attestationDataRoot numAttesters) ∨
      ∃ beaconBlockRoot attestationDataRoot numAttesters finalizedRoot balance,
        previous = .attestation beaconBlockRoot attestationDataRoot numAttesters ∧
          claim = .finality attestationDataRoot finalizedRoot balance := by
  constructor
  · intro passed
    cases previous with
    | execution out =>
        cases claim with
        | blockBinding inp root =>
            obtain rfl := checkBoundary_eq_ok.1 passed
            exact .inl ⟨out, root, rfl, rfl⟩
        | _ => cases passed
    | blockBinding hash out =>
        cases claim with
        | attestation inp root count =>
            obtain rfl := checkBoundary_eq_ok.1 passed
            exact .inr (.inl ⟨hash, out, root, count, rfl, rfl⟩)
        | _ => cases passed
    | attestation root out count =>
        cases claim with
        | finality inp finalized balance =>
            obtain rfl := checkBoundary_eq_ok.1 passed
            exact .inr (.inr ⟨root, out, count, finalized, balance, rfl, rfl⟩)
        | _ => cases passed
    | finality => cases passed
  · rintro (⟨_, _, rfl, rfl⟩ | ⟨_, _, _, _, rfl, rfl⟩ | ⟨_, _, _, _, _, rfl, rfl⟩)
    all_goals exact checkBoundary_eq_ok.2 rfl

/-- Behind a finality claim nothing passes. -/
theorem checkLinks_finality {index : ℕ} {root finalized : Hash32} {balance : BitVec 64}
    {rest : List LayerClaim}
    (passed : checkLinks index (.finality root finalized balance :: rest) = .ok ()) :
    rest = [] := by
  cases rest with
  | nil => rfl
  | cons claim rest => cases (checkLinks_cons_eq_ok.1 passed).1

theorem verifyConsistency_fromBoundaries (b : ChainBoundaries) :
    verifyConsistency (fromBoundaries b) = .ok () := by
  have link : checkLinks 1 (fromBoundaries b).claims = .ok () := by
    rw [fromBoundaries, checkLinks_cons_eq_ok, checkLinks_cons_eq_ok, checkLinks_cons_eq_ok]
    exact ⟨checkBoundary_eq_ok.2 rfl, checkBoundary_eq_ok.2 rfl, checkBoundary_eq_ok.2 rfl, rfl⟩
  exact link

/-- A claim that is not the last has a successor that follows from it. -/
theorem exists_next {index : ℕ} {claim : LayerClaim} {rest : List LayerClaim}
    (before : isFinality claim = false) (ends : (claim :: rest).getLast?.any isFinality = true)
    (passed : checkLinks index (claim :: rest) = .ok ()) :
    ∃ next later, rest = next :: later ∧ checkLink index claim next = .ok () ∧
      (next :: later).getLast?.any isFinality = true ∧
        checkLinks (index + 1) (next :: later) = .ok () := by
  cases rest with
  | nil => exact absurd (before.symm.trans ends) Bool.false_ne_true
  | cons next later =>
      obtain ⟨link, links⟩ := checkLinks_cons_eq_ok.1 passed
      rw [List.getLast?_cons_cons] at ends
      exact ⟨next, later, rfl, link, ends, links⟩

theorem exists_boundaries {chain : LayerChain} (passed : verifyConsistency chain = .ok ()) :
    ∃ b, chain = fromBoundaries b := by
  obtain ⟨claims⟩ := chain
  rw [verifyConsistency] at passed
  cases claims with
  | nil => cases passed
  | cons first rest =>
      dsimp only at passed
      split at passed
      · cases passed
      rename_i starts
      split at passed
      · cases passed
      rename_i ends
      rw [not_not] at ends
      cases first with
      | execution blockHash =>
          obtain ⟨second, rest, rfl, link, ends, passed⟩ := exists_next rfl ends passed
          obtain ⟨_, beaconBlockRoot, same, rfl⟩ | ⟨_, _, _, _, ⟨⟩, _⟩ | ⟨_, _, _, _, _, ⟨⟩, _⟩ :=
            checkLink_eq_ok.1 link
          obtain rfl := LayerClaim.execution.inj same
          obtain ⟨third, rest, rfl, link, ends, passed⟩ := exists_next rfl ends passed
          obtain ⟨_, _, ⟨⟩, _⟩ | ⟨_, _, attestationDataRoot, numAttesters, same, rfl⟩ |
            ⟨_, _, _, _, _, ⟨⟩, _⟩ := checkLink_eq_ok.1 link
          obtain ⟨rfl, rfl⟩ := LayerClaim.blockBinding.inj same
          obtain ⟨fourth, rest, rfl, link, ends, passed⟩ := exists_next rfl ends passed
          obtain ⟨_, _, ⟨⟩, _⟩ | ⟨_, _, _, _, ⟨⟩, _⟩ |
            ⟨_, _, _, finalizedRoot, totalEffectiveBalanceGwei, same, rfl⟩ :=
              checkLink_eq_ok.1 link
          obtain ⟨rfl, rfl, rfl⟩ := LayerClaim.attestation.inj same
          obtain rfl := checkLinks_finality passed
          exact ⟨⟨_, beaconBlockRoot, attestationDataRoot, numAttesters, finalizedRoot,
            totalEffectiveBalanceGwei⟩, rfl⟩
      | _ => exact absurd Bool.false_ne_true starts

theorem fromBoundaries_injective : Function.Injective fromBoundaries := by
  intro first second same
  have claims := congrArg LayerChain.claims same
  simp only [fromBoundaries, List.cons.injEq, LayerClaim.execution.injEq,
    LayerClaim.blockBinding.injEq, LayerClaim.attestation.injEq,
    LayerClaim.finality.injEq] at claims
  obtain ⟨blockHash, ⟨-, beaconRoot⟩, ⟨-, attRoot, numAtts⟩, ⟨-, finalRoot, weight⟩, -⟩ := claims
  exact ChainBoundaries.ext blockHash beaconRoot attRoot numAtts finalRoot weight

theorem verifyConsistency_iff {chain : LayerChain} :
    verifyConsistency chain = .ok () ↔ ∃! b, chain = fromBoundaries b := by
  constructor
  · intro passed
    obtain ⟨b, rfl⟩ := exists_boundaries passed
    exact ⟨b, rfl, fun other same => (fromBoundaries_injective same).symm⟩
  · rintro ⟨b, rfl, -⟩
    exact verifyConsistency_fromBoundaries b

/-! The hashed bytes give the boundary values back. -/

theorem length_writeU64 (value : BitVec 64) : (writeU64 value).length = 8 :=
  length_bigEndian 8 value.toNat

theorem writeU64_injective : Function.Injective writeU64 := by
  intro first second same
  have below : ∀ value : BitVec 64, value.toNat < 256 ^ 8 := fun value => value.isLt
  exact BitVec.eq_of_toNat_eq (bigEndian_injective (below first) (below second) same)

def boundaryBytes (b : ChainBoundaries) : List Byte :=
  preimage b.blockHash b.beaconBlockRoot b.attestationDataRoot b.numAttesters b.finalizedRoot
    b.totalEffectiveBalanceGwei

theorem boundaryBytes_injective : Function.Injective boundaryBytes := by
  intro first second same
  have hashes : ∀ hash other : Hash32, hash.1.length = other.1.length := fun hash other =>
    hash.2.trans other.2.symm
  have words : ∀ word other, (writeU64 word).length = (writeU64 other).length := fun word other =>
    (length_writeU64 word).trans (length_writeU64 other).symm
  obtain ⟨blockHash, same⟩ := List.append_inj same (hashes _ _)
  obtain ⟨beaconRoot, same⟩ := List.append_inj same (hashes _ _)
  obtain ⟨attRoot, same⟩ := List.append_inj same (hashes _ _)
  obtain ⟨numAtts, same⟩ := List.append_inj same (words _ _)
  obtain ⟨finalRoot, weight⟩ := List.append_inj same (hashes _ _)
  exact ChainBoundaries.ext (Subtype.ext blockHash) (Subtype.ext beaconRoot)
    (Subtype.ext attRoot) (writeU64_injective numAtts) (Subtype.ext finalRoot)
    (writeU64_injective weight)

variable (keccak256 : List Byte → Hash32)

theorem commitment_fromBoundaries (b : ChainBoundaries) :
    commitment keccak256 (fromBoundaries b) = some (keccak256 (boundaryBytes b)) := by
  rw [commitment, verifyConsistency_fromBoundaries]
  rfl

theorem finalOutput_fromBoundaries (b : ChainBoundaries) :
    finalOutput (fromBoundaries b) =
      some ⟨b.blockHash, b.beaconBlockRoot, b.finalizedRoot, b.totalEffectiveBalanceGwei⟩ := by
  rw [finalOutput, verifyConsistency_fromBoundaries]
  rfl

/-- A chain that passes is made of one list of boundary values; its output and its commitment
come from them, on either side, and without a collision the commitment gives them back. -/
theorem layerChain_integrity :
    (∀ chain, verifyConsistency chain = .ok () ↔ ∃! b, chain = fromBoundaries b) ∧
    (∀ b, finalOutput (fromBoundaries b) =
        some ⟨b.blockHash, b.beaconBlockRoot, b.finalizedRoot, b.totalEffectiveBalanceGwei⟩ ∧
      commitment keccak256 (fromBoundaries b) = some (keccak256 (boundaryBytes b)) ∧
      (finalOutput (fromBoundaries b)).map (fun output =>
        commitmentWith keccak256 output b.attestationDataRoot b.numAttesters) =
          commitment keccak256 (fromBoundaries b)) ∧
    ∀ first second, (keccak256 (boundaryBytes first) = keccak256 (boundaryBytes second) →
        boundaryBytes first = boundaryBytes second) →
      commitment keccak256 (fromBoundaries first) = commitment keccak256 (fromBoundaries second) →
        first = second := by
  refine ⟨fun chain => verifyConsistency_iff, ?_, ?_⟩
  · intro b
    rw [finalOutput_fromBoundaries, commitment_fromBoundaries]
    exact ⟨rfl, rfl, rfl⟩
  · intro first second noCollision same
    rw [commitment_fromBoundaries, commitment_fromBoundaries] at same
    exact boundaryBytes_injective (noCollision (Option.some.inj same))

end LayerChain

end MetaVm.Zkp
