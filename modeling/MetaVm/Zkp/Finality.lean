import Mathlib
import MetaVm.Lib.Outcome
import MetaVm.Lib.Tally

namespace MetaVm.Zkp

/-! Justification and finalization of checkpoints by the votes of validators. -/

abbrev Epoch : Type := BitVec 64

abbrev Slot : Type := BitVec 64

abbrev CommitteeIndex : Type := BitVec 64

abbrev ValidatorIndex : Type := BitVec 64

abbrev Gwei : Type := BitVec 64

/-- The root of a beacon block. -/
abbrev Root : Type := Vector (BitVec 8) 32

structure Checkpoint where
  epoch : Epoch
  root : Root
deriving DecidableEq

structure AttestationData where
  slot : Slot
  index : CommitteeIndex
  beaconBlockRoot : Root
  source : Checkpoint
  target : Checkpoint
deriving DecidableEq

structure IndexedAttestation where
  attestingIndices : List ValidatorIndex
  data : AttestationData
deriving DecidableEq

structure Validator where
  effectiveBalance : Gwei
  activationEpoch : Epoch
  exitEpoch : Epoch
deriving DecidableEq

/-- A validator set, which fits in memory. -/
structure ValidatorRegistry where
  validators : List Validator
  inMemory : validators.length < 2 ^ 63

inductive FinalityError where
  | noActiveValidators
  | validatorIndexOutOfRange (index : ValidatorIndex)
deriving DecidableEq

def maxGwei : ℕ := 2 ^ 64 - 1

def saturatingMul (x y : ℕ) : ℕ := min (x * y) maxGwei

def Validator.isActive (validator : Validator) (epoch : Epoch) : Prop :=
  validator.activationEpoch ≤ epoch ∧ epoch < validator.exitEpoch

instance (validator : Validator) (epoch : Epoch) : Decidable (validator.isActive epoch) :=
  inferInstanceAs (Decidable (_ ∧ _))

namespace ValidatorRegistry

variable (registry : ValidatorRegistry)

/-- The effective balances, by validator. -/
def balances : List ℕ := registry.validators.map fun v => v.effectiveBalance.toNat

def activeIndices (epoch : Epoch) : List ValidatorIndex :=
  registry.validators.zipIdx.filterMap fun entry =>
    if entry.1.isActive epoch then some (BitVec.ofNat 64 entry.2) else none

/-- The sum is not guarded against overflow. -/
def totalActiveBalance (epoch : Epoch) : Checked ℕ :=
  Checked.sum (2 ^ 64) 0
    ((registry.activeIndices epoch).map fun i => registry.balances.getD i.toNat 0)

/-- Count a validator once. -/
def countOnce (tally : Tally) (index : ValidatorIndex) : Tally :=
  tally.count registry.balances maxGwei index.toNat

def totalBalance (indices : List ValidatorIndex) : ℕ :=
  (indices.foldl registry.countOnce (.start registry.balances)).total

def get (index : ValidatorIndex) : Except FinalityError Validator :=
  match registry.validators[index.toNat]? with
  | some validator => .ok validator
  | none => .error (.validatorIndexOutOfRange index)

end ValidatorRegistry

/-- A double vote, or a vote that surrounds another one. -/
def isSlashableAttestationData (a1 a2 : AttestationData) : Bool :=
  if a1 = a2 then false
  else if a1.target.epoch = a2.target.epoch then true
  else if a1.source.epoch < a2.source.epoch ∧ a2.target.epoch < a1.target.epoch then true
  else if a2.source.epoch < a1.source.epoch ∧ a1.target.epoch < a2.target.epoch then true
  else false

/-- Bit 0 stands for the most recent epoch. -/
structure JustificationStore where
  previousJustified : Checkpoint
  currentJustified : Checkpoint
  finalized : Checkpoint
  justificationBits : Fin 4 → Bool
deriving DecidableEq

def Checkpoint.zero : Checkpoint := ⟨0, Vector.replicate 32 0⟩

def JustificationStore.genesis : JustificationStore :=
  ⟨.zero, .zero, .zero, fun _ => false⟩

def attestingBalanceForTarget (registry : ValidatorRegistry)
    (epochAttestations : List IndexedAttestation) (targetCheckpoint : Checkpoint) : ℕ :=
  let count := fun (tally : Tally) (att : IndexedAttestation) =>
    if att.data.target ≠ targetCheckpoint then tally
    else att.attestingIndices.foldl registry.countOnce tally
  (epochAttestations.foldl count (.start registry.balances)).total

/-- Two thirds of the total, both sides saturating. -/
def isSupermajority (balance totalActive : ℕ) : Bool :=
  saturatingMul totalActive 2 ≤ saturatingMul balance 3

/-- A finalization rule: with its bits set, a checkpoint of the right age becomes
the finalized one. The age is only computed where the bits are set. -/
def finalizeIf (bits : Bool) (justified : Checkpoint) (age : ℕ) (currentEpoch : Epoch)
    (finalized : Checkpoint) : Checked Checkpoint :=
  if bits then do
    let epoch ← Checked.add (2 ^ 64) justified.epoch.toNat age
    return if epoch = currentEpoch.toNat then justified else finalized
  else pure finalized

/-- What a call is given. -/
structure EpochVotes where
  currentEpochTarget : Checkpoint
  previousEpochTarget : Checkpoint
  previousEpochAttestations : List IndexedAttestation
  currentEpochAttestations : List IndexedAttestation
  registry : ValidatorRegistry

/-- The outcome of a call, and the store that it leaves. -/
def processJustificationAndFinalization (store : JustificationStore) (currentEpoch : Epoch)
    (votes : EpochVotes) : Checked (Except FinalityError Unit × JustificationStore) := do
  let totalActive ← votes.registry.totalActiveBalance currentEpoch
  if totalActive = 0 then return (.error .noActiveValidators, store)
  let prevBalance := attestingBalanceForTarget votes.registry votes.previousEpochAttestations
    votes.previousEpochTarget
  let currBalance := attestingBalanceForTarget votes.registry votes.currentEpochAttestations
    votes.currentEpochTarget
  let prevJustifies := isSupermajority prevBalance totalActive
  let currJustifies := isSupermajority currBalance totalActive
  let oldBits := store.justificationBits
  -- the shifted bits, with those of the two epochs set
  let bits : Fin 4 → Bool := ![currJustifies, oldBits 0 || prevJustifies, oldBits 1, oldBits 2]
  let currentJustified := if prevJustifies then votes.previousEpochTarget
    else store.currentJustified
  let currentJustified := if currJustifies then votes.currentEpochTarget else currentJustified
  let finalized ← finalizeIf (bits 1 && bits 2 && bits 3) store.previousJustified 3
    currentEpoch store.finalized
  let finalized ← finalizeIf (bits 1 && bits 2) store.previousJustified 2 currentEpoch finalized
  let finalized ← finalizeIf (bits 0 && bits 1 && bits 2) store.currentJustified 2
    currentEpoch finalized
  let finalized ← finalizeIf (bits 0 && bits 1) store.currentJustified 1 currentEpoch finalized
  return (.ok (), ⟨store.currentJustified, currentJustified, finalized, bits⟩)

end MetaVm.Zkp
