import MetaVm.Zkp.Finality

namespace MetaVm.Zkp

open Quorum

/-! The stake behind a vote. -/

namespace ValidatorRegistry

variable (registry : ValidatorRegistry)

def balanceOf (i : ℕ) : ℕ := registry.balances.getD i 0

/-- The validators that are active at an epoch. -/
def active (epoch : Epoch) : Finset ℕ :=
  (Finset.range registry.validators.length).filter fun i =>
    (registry.validators[i]?).any fun v => decide (v.isActive epoch)

/-- The validators that appear in attestations for a target. -/
def attesters (attestations : List IndexedAttestation) (target : Checkpoint) : Finset ℕ :=
  (Finset.range registry.validators.length).filter fun i =>
    ∃ att ∈ attestations, att.data.target = target ∧
      i ∈ att.attestingIndices.map BitVec.toNat

theorem activeIndices_eq (epoch : Epoch) :
    registry.activeIndices epoch =
      ((List.range registry.validators.length).filter fun i =>
        (registry.validators[i]?).any fun v => decide (v.isActive epoch)).map
          (BitVec.ofNat 64) := by
  rw [activeIndices]
  generalize registry.validators = validators
  induction validators using List.reverseRecOn with
  | nil => rfl
  | append_singleton front last hypothesis =>
      have before : (List.range front.length).filter (fun i =>
          ((front ++ [last])[i]?).any fun v => decide (v.isActive epoch)) =
          (List.range front.length).filter fun i =>
            (front[i]?).any fun v => decide (v.isActive epoch) := by
        refine List.filter_congr fun i member => ?_
        rw [List.getElem?_append_left (List.mem_range.1 member)]
      rw [List.zipIdx_append, List.filterMap_append, hypothesis, List.length_append,
        List.length_singleton, List.range_succ, List.filter_append, before, List.map_append]
      congr 1
      by_cases isActive : last.isActive epoch
      · simp [isActive]
      · simp [isActive]

/-- The exact total of the active balances. -/
theorem sum_activeBalances (epoch : Epoch) :
    ((registry.activeIndices epoch).map fun i => registry.balances.getD i.toNat 0).sum =
      stake registry.balanceOf (registry.active epoch) := by
  have indices : (registry.activeIndices epoch).map
      (fun i => registry.balances.getD i.toNat 0) =
        ((List.range registry.validators.length).filter fun i =>
          (registry.validators[i]?).any fun v => decide (v.isActive epoch)).map
            registry.balanceOf := by
    rw [activeIndices_eq, List.map_map]
    refine List.map_congr_left fun i member => ?_
    have inside : i < registry.validators.length :=
      List.mem_range.1 (List.mem_of_mem_filter member)
    have small : i < 2 ^ 64 := lt_trans inside (lt_trans registry.inMemory (by decide))
    rw [Function.comp_apply, BitVec.toNat_ofNat, Nat.mod_eq_of_lt small]
    rfl
  have isList : (registry.active epoch).val =
      ((List.range registry.validators.length).filter fun i =>
        (registry.validators[i]?).any fun v => decide (v.isActive epoch) : List ℕ) := by
    simp [active, Multiset.range]
  rw [indices, stake, Finset.sum, isList, Multiset.map_coe, Multiset.sum_coe]

theorem totalActiveBalance_value (epoch : Epoch) :
    (registry.totalActiveBalance epoch).value =
      stake registry.balanceOf (registry.active epoch) % 2 ^ 64 := by
  rw [totalActiveBalance, Checked.value_sum (Nat.two_pow_pos 64), sum_activeBalances,
    Nat.zero_add]

theorem totalActiveBalance_exact (epoch : Epoch) :
    (registry.totalActiveBalance epoch).overflowed = false ↔
      stake registry.balanceOf (registry.active epoch) < 2 ^ 64 := by
  rw [totalActiveBalance, Checked.overflowed_sum (Nat.two_pow_pos 64), sum_activeBalances,
    Nat.zero_add]

/-- The attestations are counted as one list of indices. -/
theorem attestingBalance_eq (attestations : List IndexedAttestation) (target : Checkpoint) :
    attestingBalanceForTarget registry attestations target =
      min (stake registry.balanceOf (registry.attesters attestations target)) maxGwei := by
  have loop : ∀ tally : Tally, attestations.foldl (fun (tally : Tally) att =>
      if att.data.target ≠ target then tally
      else att.attestingIndices.foldl registry.countOnce tally) tally =
        ((attestations.filter (·.data.target = target)).flatMap fun att =>
          att.attestingIndices.map BitVec.toNat).foldl
            (Tally.count registry.balances maxGwei) tally := by
    induction attestations with
    | nil => exact fun _ => rfl
    | cons att rest hypothesis =>
        intro tally
        rw [List.foldl_cons, hypothesis]
        by_cases counted : att.data.target = target
        · simp [counted, List.foldl_map]
          rfl
        · simp [counted]
  have voters : Tally.named registry.balances
      ((attestations.filter (·.data.target = target)).flatMap fun att =>
        att.attestingIndices.map BitVec.toNat) = registry.attesters attestations target := by
    ext i
    simp only [Tally.named, attesters, balances, Finset.mem_filter, List.length_map,
      List.mem_flatMap, List.mem_filter, decide_eq_true_eq, List.mem_map, and_assoc]
  rw [attestingBalanceForTarget, loop, Tally.total_foldl_count, voters]
  rfl

end ValidatorRegistry

/-! What a call does to the bits. -/

section Call

variable (store : JustificationStore) (currentEpoch : Epoch) (votes : EpochVotes)

/-- The votes for a target suffice to justify it. -/
def Justifies (currentEpoch : Epoch) (registry : ValidatorRegistry)
    (attestations : List IndexedAttestation) (target : Checkpoint) : Bool :=
  isSupermajority (attestingBalanceForTarget registry attestations target)
    (registry.totalActiveBalance currentEpoch).value

def EpochVotes.prevJustifies : Bool :=
  Justifies currentEpoch votes.registry votes.previousEpochAttestations votes.previousEpochTarget

def EpochVotes.currJustifies : Bool :=
  Justifies currentEpoch votes.registry votes.currentEpochAttestations votes.currentEpochTarget

/-- The bits after a call. -/
def bitsAfter : Fin 4 → Bool :=
  ![votes.currJustifies currentEpoch,
    store.justificationBits 0 || votes.prevJustifies currentEpoch,
    store.justificationBits 1, store.justificationBits 2]

variable {store currentEpoch votes}

theorem process_of_inactive
    (inactive : (votes.registry.totalActiveBalance currentEpoch).value = 0) :
    (processJustificationAndFinalization store currentEpoch votes).value =
      (.error .noActiveValidators, store) := by
  rw [processJustificationAndFinalization, Checked.value_bind, if_pos inactive]
  rfl

theorem process_of_active
    (isActive : (votes.registry.totalActiveBalance currentEpoch).value ≠ 0) :
    ∃ finalized, (processJustificationAndFinalization store currentEpoch votes).value =
      (.ok (), ⟨store.currentJustified,
        if votes.currJustifies currentEpoch then votes.currentEpochTarget
        else if votes.prevJustifies currentEpoch then votes.previousEpochTarget
        else store.currentJustified,
        finalized, bitsAfter store currentEpoch votes⟩) := by
  rw [processJustificationAndFinalization, Checked.value_bind, if_neg isActive]
  exact ⟨_, rfl⟩

variable (store currentEpoch votes)

/-- The call itself sets a bit, which is not there by the shift alone. -/
def SetsBit (bit : Fin 4) : Prop :=
  let clear := { store with justificationBits := fun _ => false }
  let outcome := (processJustificationAndFinalization clear currentEpoch votes).value
  outcome.1 = .ok () ∧ outcome.2.justificationBits bit = true

theorem setsBit_previous :
    SetsBit store currentEpoch votes 1 ↔
      (votes.registry.totalActiveBalance currentEpoch).value ≠ 0 ∧
        votes.prevJustifies currentEpoch = true := by
  rw [SetsBit]
  by_cases inactive : (votes.registry.totalActiveBalance currentEpoch).value = 0
  · rw [process_of_inactive inactive]
    simp [inactive]
  · obtain ⟨finalized, outcome⟩ := @process_of_active
      { store with justificationBits := fun _ => false } _ _ inactive
    rw [outcome]
    simp [inactive, bitsAfter]

theorem setsBit_current :
    SetsBit store currentEpoch votes 0 ↔
      (votes.registry.totalActiveBalance currentEpoch).value ≠ 0 ∧
        votes.currJustifies currentEpoch = true := by
  rw [SetsBit]
  by_cases inactive : (votes.registry.totalActiveBalance currentEpoch).value = 0
  · rw [process_of_inactive inactive]
    simp [inactive]
  · obtain ⟨finalized, outcome⟩ := @process_of_active
      { store with justificationBits := fun _ => false } _ _ inactive
    rw [outcome]
    simp [inactive, bitsAfter]

end Call

/-! The stake of a justified target. -/

section Stake

variable (store : JustificationStore) (currentEpoch : Epoch) (votes : EpochVotes)

/-- All active stake. -/
def EpochVotes.totalStake : ℕ :=
  stake votes.registry.balanceOf (votes.registry.active currentEpoch)

/-- The stake of all attesters for a target. -/
def ValidatorRegistry.attestedStake (registry : ValidatorRegistry)
    (attestations : List IndexedAttestation) (target : Checkpoint) : ℕ :=
  stake registry.balanceOf (registry.attesters attestations target)

/-- The stake of those who are active at the epoch of the target. -/
def ValidatorRegistry.activeStake (registry : ValidatorRegistry)
    (attestations : List IndexedAttestation) (target : Checkpoint) : ℕ :=
  stake registry.balanceOf (registry.attesters attestations target ∩ registry.active target.epoch)

/-- A justified target has two thirds of the active stake, and the sums are exact. -/
structure StakeBacked : Prop where
  previous : SetsBit store currentEpoch votes 1 → 2 * votes.totalStake currentEpoch ≤
    3 * votes.registry.activeStake votes.previousEpochAttestations votes.previousEpochTarget
  current : SetsBit store currentEpoch votes 0 → 2 * votes.totalStake currentEpoch ≤
    3 * votes.registry.activeStake votes.currentEpochAttestations votes.currentEpochTarget
  totalExact : votes.totalStake currentEpoch < 2 ^ 64
  previousExact : votes.registry.attestedStake votes.previousEpochAttestations
    votes.previousEpochTarget < 2 ^ 64
  currentExact : votes.registry.attestedStake votes.currentEpochAttestations
    votes.currentEpochTarget < 2 ^ 64

/-- The attesters who are not active do not decide the vote, and neither does the
end of the number range. -/
structure FairTally (attestations : List IndexedAttestation) (target : Checkpoint) : Prop where
  exact : votes.registry.attestedStake attestations target < 2 ^ 64
  fair : 3 * votes.registry.activeStake attestations target < 2 * votes.totalStake currentEpoch →
    3 * votes.registry.attestedStake attestations target < 2 * votes.totalStake currentEpoch ∧
      3 * votes.registry.attestedStake attestations target < maxGwei

theorem isSupermajority_iff (balance total : ℕ) :
    isSupermajority (min balance maxGwei) total = true ↔
      2 * total ≤ 3 * balance ∨ maxGwei ≤ 3 * balance := by
  rw [isSupermajority, decide_eq_true_eq, saturatingMul, saturatingMul]
  omega

variable {votes currentEpoch} in
/-- A justified target is backed by its active attesters exactly when the others
do not decide the vote. -/
theorem justifies_backed_iff {attestations : List IndexedAttestation} {target : Checkpoint}
    (totalExact : votes.totalStake currentEpoch < 2 ^ 64) :
    ((votes.registry.totalActiveBalance currentEpoch).value ≠ 0 ∧
        Justifies currentEpoch votes.registry attestations target = true →
      2 * votes.totalStake currentEpoch ≤ 3 * votes.registry.activeStake attestations target) ∧
        votes.registry.attestedStake attestations target < 2 ^ 64 ↔
      FairTally currentEpoch votes attestations target := by
  have total : (votes.registry.totalActiveBalance currentEpoch).value =
      votes.totalStake currentEpoch := by
    rw [ValidatorRegistry.totalActiveBalance_value]
    exact Nat.mod_eq_of_lt totalExact
  have tally : Justifies currentEpoch votes.registry attestations target = true ↔
      2 * votes.totalStake currentEpoch ≤ 3 * votes.registry.attestedStake attestations target ∨
        maxGwei ≤ 3 * votes.registry.attestedStake attestations target := by
    rw [Justifies, ValidatorRegistry.attestingBalance_eq, isSupermajority_iff, total]
    rfl
  rw [total, tally]
  constructor
  · rintro ⟨backed, exact⟩
    refine ⟨exact, fun short => ?_⟩
    by_contra decided
    have positive : votes.totalStake currentEpoch ≠ 0 := by omega
    have enough := backed ⟨positive, by omega⟩
    omega
  · rintro ⟨exact, fair⟩
    refine ⟨fun justified => ?_, exact⟩
    by_contra short
    have decided := fair (Nat.not_le.1 short)
    omega

/-- A call justifies targets with two thirds of the active stake only, if and only
if nobody else decides the vote. -/
theorem stakeBacked_iff :
    StakeBacked store currentEpoch votes ↔
      votes.totalStake currentEpoch < 2 ^ 64 ∧
        FairTally currentEpoch votes votes.previousEpochAttestations votes.previousEpochTarget ∧
        FairTally currentEpoch votes votes.currentEpochAttestations votes.currentEpochTarget := by
  constructor
  · rintro ⟨previous, current, totalExact, previousExact, currentExact⟩
    rw [setsBit_previous] at previous
    rw [setsBit_current] at current
    exact ⟨totalExact, (justifies_backed_iff totalExact).1 ⟨previous, previousExact⟩,
      (justifies_backed_iff totalExact).1 ⟨current, currentExact⟩⟩
  · rintro ⟨totalExact, previous, current⟩
    obtain ⟨previousBacked, previousExact⟩ := (justifies_backed_iff totalExact).2 previous
    obtain ⟨currentBacked, currentExact⟩ := (justifies_backed_iff totalExact).2 current
    refine ⟨?_, ?_, totalExact, previousExact, currentExact⟩
    · rw [setsBit_previous]
      exact previousBacked
    · rw [setsBit_current]
      exact currentBacked

/-- Validator 1 left before epoch 1, and justifies its target alone. -/
def exitedVotes : EpochVotes where
  currentEpochTarget := ⟨1, Vector.replicate 32 1⟩
  previousEpochTarget := .zero
  previousEpochAttestations := []
  currentEpochAttestations :=
    [⟨[1], ⟨32, 0, Vector.replicate 32 1, .zero, ⟨1, Vector.replicate 32 1⟩⟩⟩]
  registry := ⟨[⟨1, 0, 256⟩, ⟨5, 0, 1⟩], by decide⟩

theorem exitedVotes_not_backed : ¬ StakeBacked .genesis 1 exitedVotes := by
  intro backed
  have sets : SetsBit .genesis 1 exitedVotes 0 := by
    rw [SetsBit]
    decide
  have short : ¬ 2 * exitedVotes.totalStake 1 ≤ 3 * exitedVotes.registry.activeStake
      exitedVotes.currentEpochAttestations exitedVotes.currentEpochTarget := by
    decide
  exact short (backed.current sets)

end Stake

end MetaVm.Zkp
