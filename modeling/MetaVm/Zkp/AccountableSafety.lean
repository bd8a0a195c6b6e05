import Mathlib
import MetaVm.Lib.CasperFfg
import MetaVm.Zkp.FinalityRun

namespace MetaVm.Zkp

open Quorum

/-! Two runs over one validator set, all of whose members are active. -/

theorem isSlashable_iff (a1 a2 : AttestationData) :
    isSlashableAttestationData a1 a2 = true ↔
      a1 ≠ a2 ∧ (a1.target.epoch = a2.target.epoch ∨
        a1.source.epoch < a2.source.epoch ∧ a2.target.epoch < a1.target.epoch ∨
        a2.source.epoch < a1.source.epoch ∧ a1.target.epoch < a2.target.epoch) := by
  rw [isSlashableAttestationData]
  split
  · simp [*]
  split
  · simp [*]
  split
  · simp [*]
  split
  · simp [*]
  · simp [*]

def ValidatorRegistry.everyone (registry : ValidatorRegistry) : Finset ℕ :=
  Finset.range registry.validators.length

/-- The stake of all validators. -/
def ValidatorRegistry.wholeStake (registry : ValidatorRegistry) : ℕ :=
  stake registry.balanceOf registry.everyone

namespace FinalityRun

/-- The first calls of a run are made for one set of validators, all active, and for
one target to each epoch. -/
structure Uniform (run : FinalityRun) (registry : ValidatorRegistry) (last : ℕ) : Prop where
  registry_eq : ∀ epoch, (run.votes epoch).registry = registry
  active : ∀ epoch, 1 ≤ epoch → epoch ≤ last →
    ∀ validator ∈ registry.validators, validator.isActive (BitVec.ofNat 64 epoch)
  target : ∀ epoch, (run.votes (epoch + 1)).previousEpochTarget =
    (run.votes epoch).currentEpochTarget

/-- An attestation is passed to one of the first calls. -/
def Attested (run : FinalityRun) (last : ℕ) (att : IndexedAttestation) : Prop :=
  ∃ epoch, 1 ≤ epoch ∧ epoch ≤ last ∧
    (att ∈ (run.votes epoch).previousEpochAttestations ∨
      att ∈ (run.votes epoch).currentEpochAttestations)

/-- The attestations that count name the epoch that the store holds for justified. -/
structure SourcesMatch (run : FinalityRun) (last : ℕ) : Prop where
  current : ∀ epoch < last, ∀ att ∈ (run.votes (epoch + 1)).currentEpochAttestations,
    att.data.target = (run.votes (epoch + 1)).currentEpochTarget →
      att.data.source.epoch = (run.storeAfter epoch).currentJustified.epoch
  previous : ∀ epoch < last, ∀ att ∈ (run.votes (epoch + 1)).previousEpochAttestations,
    att.data.target = (run.votes (epoch + 1)).previousEpochTarget →
      att.data.source.epoch = (run.storeAfter epoch).previousJustified.epoch

/-- Someone who appears in two attestations that no one may sign both. -/
def Offends (first second : FinalityRun) (firstLast secondLast validator : ℕ) : Prop :=
  ∃ a1 a2, first.Attested firstLast a1 ∧ second.Attested secondLast a2 ∧
    validator ∈ a1.attestingIndices.map BitVec.toNat ∧
    validator ∈ a2.attestingIndices.map BitVec.toNat ∧
    isSlashableAttestationData a1.data a2.data = true

/-- Where the second run does not have the checkpoint that the first one finalized,
a third of the stake offends. -/
def Accountable (registry : ValidatorRegistry) (first second : FinalityRun)
    (firstLast secondLast : ℕ) : Prop :=
  let final := (first.storeAfter firstLast).finalized
  1 ≤ final.epoch.toNat →
    final.epoch.toNat ≤ (second.storeAfter secondLast).finalized.epoch.toNat →
    (second.votes final.epoch.toNat).currentEpochTarget.root ≠ final.root →
    ∃ offenders ⊆ registry.everyone,
      registry.wholeStake ≤ 3 * stake registry.balanceOf offenders ∧
        ∀ validator ∈ offenders, Offends first second firstLast secondLast validator

section Uniform

variable {run : FinalityRun} {registry : ValidatorRegistry} {last : ℕ}
variable (uniform : run.Uniform registry last)
include uniform

theorem Uniform.active_eq {epoch : ℕ} (first : 1 ≤ epoch) (inside : epoch ≤ last) :
    registry.active (BitVec.ofNat 64 epoch) = registry.everyone := by
  rw [ValidatorRegistry.active, ValidatorRegistry.everyone, Finset.filter_eq_self]
  intro i member
  have bound : i < registry.validators.length := Finset.mem_range.1 member
  have known : registry.validators[i]? = some registry.validators[i] :=
    List.getElem?_eq_getElem bound
  rw [known, Option.any_some, decide_eq_true_eq]
  exact uniform.active epoch first inside _ (List.getElem_mem _)

variable (bounded : 3 * registry.wholeStake < 2 ^ 64)
include bounded

theorem Uniform.total {epoch : ℕ} (first : 1 ≤ epoch) (inside : epoch ≤ last) :
    (registry.totalActiveBalance (BitVec.ofNat 64 epoch)).value = registry.wholeStake := by
  have small : registry.wholeStake < 2 ^ 64 := by omega
  rw [ValidatorRegistry.totalActiveBalance_value, uniform.active_eq first inside]
  exact Nat.mod_eq_of_lt small

/-- Validators without stake justify nothing. -/
theorem Uniform.idle (idle : registry.wholeStake = 0) {epoch : ℕ} (inside : epoch ≤ last) :
    run.storeAfter epoch = .genesis := by
  induction epoch with
  | zero => rfl
  | succ epoch hypothesis =>
      have inactive : ((run.votes (epoch + 1)).registry.totalActiveBalance
          (BitVec.ofNat 64 (epoch + 1))).value = 0 := by
        rw [uniform.registry_eq, uniform.total bounded (Nat.succ_pos epoch) inside, idle]
      rw [storeAfter, call, process_of_inactive inactive]
      exact hypothesis (Nat.le_of_succ_le inside)

/-- The attesters for a justified target have two thirds of the stake. -/
theorem Uniform.supermajority {epoch : ℕ} (first : 1 ≤ epoch) (inside : epoch ≤ last)
    {attestations : List IndexedAttestation} {target : Checkpoint}
    (justifies : Justifies (BitVec.ofNat 64 epoch) registry attestations target = true) :
    IsSupermajority registry.balanceOf registry.everyone
      (registry.attesters attestations target) := by
  have known : registry.attesters attestations target ⊆ registry.everyone :=
    Finset.filter_subset _ _
  have share : stake registry.balanceOf (registry.attesters attestations target) ≤
      registry.wholeStake := stake_mono known
  rw [Justifies, ValidatorRegistry.attestingBalance_eq, isSupermajority_iff,
    uniform.total bounded first inside, maxGwei] at justifies
  refine ⟨known, ?_⟩
  show 2 * registry.wholeStake ≤ _
  omega

variable (busy : registry.wholeStake ≠ 0)
include busy

theorem Uniform.updated {epoch : ℕ} (inside : epoch < last) :
    Updated (run.storeAfter epoch) (BitVec.ofNat 64 (epoch + 1)) (run.votes (epoch + 1))
      (run.storeAfter (epoch + 1)) := by
  have isActive : ((run.votes (epoch + 1)).registry.totalActiveBalance
      (BitVec.ofNat 64 (epoch + 1))).value ≠ 0 := by
    rw [uniform.registry_eq, uniform.total bounded (Nat.succ_pos epoch) inside]
    exact busy
  obtain ⟨after, returned, updated⟩ := @process_updated (run.storeAfter epoch) _ _ isActive
  rw [storeAfter, call, returned]
  exact updated

end Uniform

/-! The justified epochs of a run. -/

section History

variable (run : FinalityRun) (last : ℕ)

/-- The votes for an epoch sufficed, in its own call or in the next one. -/
def JustifiedAt (epoch : ℕ) : Prop :=
  (1 ≤ epoch ∧ epoch ≤ last ∧
      (run.votes epoch).currJustifies (BitVec.ofNat 64 epoch) = true) ∨
    (epoch < last ∧
      (run.votes (epoch + 1)).prevJustifies (BitVec.ofNat 64 (epoch + 1)) = true)

/-- What the attestations for an epoch should name as their source. -/
def sourceOf (epoch : ℕ) : ℕ := (run.storeAfter (epoch - 1)).currentJustified.epoch.toNat

/-- The checkpoint of an epoch that was justified, or a checkpoint of the start. -/
def Sourced (checkpoint : Checkpoint) : Prop :=
  checkpoint.epoch.toNat = 0 ∨ run.JustifiedAt last checkpoint.epoch.toNat ∧
    checkpoint = (run.votes checkpoint.epoch.toNat).currentEpochTarget

variable {run last} {registry : ValidatorRegistry} (uniform : run.Uniform registry last)
variable (inRange : last < 2 ^ 64)
include inRange

theorem currentTarget_sourced {epoch : ℕ} (inside : epoch ≤ last)
    (justified : run.JustifiedAt last epoch) :
    run.Sourced last (run.votes epoch).currentEpochTarget := by
  have number : (run.votes epoch).currentEpochTarget.epoch.toNat = epoch := by
    rw [run.current_epoch, BitVec.toNat_ofNat, Nat.mod_eq_of_lt (lt_of_le_of_lt inside inRange)]
  rw [Sourced, number]
  exact Or.inr ⟨justified, rfl⟩

include uniform

theorem currentJustified_sourced {epoch : ℕ} (inside : epoch ≤ last) :
    run.Sourced last (run.storeAfter epoch).currentJustified := by
  induction epoch with
  | zero => exact Or.inl rfl
  | succ epoch hypothesis =>
      have before := Nat.le_of_succ_le inside
      rcases run.call_cases epoch with ⟨-, same⟩ | ⟨-, updated⟩
      · rw [same]
        exact hypothesis before
      rw [updated.current]
      split
      · rename_i justifies
        exact currentTarget_sourced inRange inside
          (Or.inl ⟨Nat.succ_pos epoch, inside, justifies⟩)
      split
      · rename_i justifies
        rw [uniform.target]
        exact currentTarget_sourced inRange before (Or.inr ⟨inside, justifies⟩)
      · exact hypothesis before

/-- The votes of a run, as far as its first calls count them. -/
def history : CasperFfg.History Root where
  target epoch := (run.votes epoch).currentEpochTarget.root
  source := run.sourceOf
  justified := run.JustifiedAt last
  source_lt := by
    intro epoch justified positive
    have inside : epoch - 1 < 2 ^ 64 := by
      rcases justified with ⟨-, inside, -⟩ | ⟨inside, -⟩ <;> omega
    have ordered := (run.storeAfter_ordered inside).current
    rw [sourceOf]
    omega
  source_justified := by
    intro epoch justified
    have inside : epoch - 1 ≤ last := by
      rcases justified with ⟨-, inside, -⟩ | ⟨inside, -⟩ <;> omega
    exact (currentJustified_sourced uniform inRange inside).imp_right And.left

variable (bounded : 3 * registry.wholeStake < 2 ^ 64) (busy : registry.wholeStake ≠ 0)
include bounded busy

omit inRange in
/-- A set bit stands for a justified epoch. -/
theorem justifiedAt_of_bit {epoch : ℕ} (inside : epoch ≤ last) {bit : Fin 4}
    (set : (run.storeAfter epoch).justificationBits bit = true) :
    bit ≤ epoch ∧ run.JustifiedAt last (epoch - bit) := by
  induction epoch generalizing bit with
  | zero => exact absurd set Bool.false_ne_true
  | succ epoch hypothesis =>
      have before := Nat.le_of_succ_le inside
      rw [(uniform.updated bounded busy inside).bits] at set
      fin_cases bit
      · exact ⟨Nat.zero_le _, Or.inl ⟨Nat.succ_pos epoch, inside, set⟩⟩
      · rcases Bool.or_eq_true_iff.1 set with shifted | justifies
        · exact ⟨Nat.succ_pos epoch, (hypothesis before shifted).2⟩
        · exact ⟨Nat.succ_pos epoch, Or.inr ⟨inside, justifies⟩⟩
      · obtain ⟨old, justified⟩ := hypothesis before set
        exact ⟨Nat.succ_le_succ old, by rwa [← Nat.add_sub_add_right epoch 1 _] at justified⟩
      · obtain ⟨old, justified⟩ := hypothesis before set
        exact ⟨Nat.succ_le_succ old, by rwa [← Nat.add_sub_add_right epoch 1 _] at justified⟩

omit inRange in
theorem previousJustified_eq {epoch : ℕ} (inside : epoch ≤ last) :
    (run.storeAfter epoch).previousJustified =
      (run.storeAfter (epoch - 1)).currentJustified := by
  cases epoch with
  | zero => rfl
  | succ epoch => exact (uniform.updated bounded busy inside).previous

omit bounded busy in
/-- A checkpoint that is the source of a justified epoch is finalized. -/
theorem finalized_of_link {checkpoint : Checkpoint} {linked span : ℕ}
    (held : checkpoint = (run.storeAfter (linked - 1)).currentJustified)
    (age : checkpoint.epoch.toNat + span = linked)
    (spanCases : span = 1 ∨ span = 2 ∧ run.JustifiedAt last (linked - 1))
    (justified : run.JustifiedAt last linked) :
    checkpoint.epoch.toNat = 0 ∨
      (history uniform inRange).Finalized checkpoint.epoch.toNat ∧
        checkpoint = (run.votes checkpoint.epoch.toNat).currentEpochTarget := by
  have inside : linked - 1 ≤ last := by
    rcases justified with ⟨-, inside, -⟩ | ⟨inside, -⟩ <;> omega
  have sourced := currentJustified_sourced uniform inRange inside
  rw [← held] at sourced
  rcases sourced with start | ⟨own, isTarget⟩
  · exact Or.inl start
  refine Or.inr ⟨⟨own, span, ?_, ?_, ?_⟩, isTarget⟩
  · refine spanCases.imp_right fun ⟨two, middle⟩ => ⟨two, ?_⟩
    have place : checkpoint.epoch.toNat + 1 = linked - 1 := by omega
    rw [place]
    exact middle
  · rw [age]
    exact justified
  · rw [age]
    exact (congrArg (fun checkpoint : Checkpoint => checkpoint.epoch.toNat) held).symm

/-- What a run finalizes is finalized in its history. -/
theorem finalized_history {epoch : ℕ} (inside : epoch ≤ last) :
    (run.storeAfter epoch).finalized.epoch.toNat = 0 ∨
      (history uniform inRange).Finalized (run.storeAfter epoch).finalized.epoch.toNat ∧
        (run.storeAfter epoch).finalized =
          (run.votes (run.storeAfter epoch).finalized.epoch.toNat).currentEpochTarget := by
  induction epoch with
  | zero => exact Or.inl rfl
  | succ epoch hypothesis =>
      have before := Nat.le_of_succ_le inside
      have updated := uniform.updated bounded busy inside
      have ordered := run.storeAfter_ordered (lt_of_le_of_lt before inRange)
      have number : (BitVec.ofNat 64 (epoch + 1)).toNat = epoch + 1 := by
        rw [BitVec.toNat_ofNat, Nat.mod_eq_of_lt (lt_of_le_of_lt inside inRange)]
      have currentPast := ordered.current
      have previousPast := ordered.previous
      have previous := previousJustified_eq uniform bounded busy before
      have bit : ∀ {bit : Fin 4}, bitsAfter (run.storeAfter epoch) (BitVec.ofNat 64 (epoch + 1))
          (run.votes (epoch + 1)) bit = true → run.JustifiedAt last (epoch + 1 - bit) := by
        intro bit set
        rw [← updated.bits] at set
        exact (justifiedAt_of_bit uniform bounded busy inside set).2
      have finalizes := updated.finalized
      generalize (run.storeAfter (epoch + 1)).finalized = finalized at finalizes ⊢
      cases finalizes with
      | unchanged => exact hypothesis before
      | rule2a second third fourth aged =>
          have age := aged.exact (by decide) (by omega)
          exact finalized_of_link uniform inRange previous (by omega) (Or.inr ⟨rfl, bit third⟩)
            (bit second)
      | rule2b second third aged =>
          have age := aged.exact (by decide) (by omega)
          exact finalized_of_link uniform inRange previous (by omega) (Or.inl rfl) (bit second)
      | rule3a first second third aged =>
          have age := aged.exact (by decide) (by omega)
          exact finalized_of_link uniform inRange rfl (by omega) (Or.inr ⟨rfl, bit second⟩)
            (bit first)
      | rule3b first second aged =>
          have age := aged.exact (by decide) (by omega)
          exact finalized_of_link uniform inRange rfl (by omega) (Or.inl rfl) (bit first)

end History

/-! Those who vote for conflicting epochs. -/

section Votes

variable {run : FinalityRun} {registry : ValidatorRegistry} {last : ℕ}

/-- A validator votes for the target of an epoch, from the source that is expected. -/
def Votes (run : FinalityRun) (last epoch validator : ℕ) : Prop :=
  ∃ att, run.Attested last att ∧ validator ∈ att.attestingIndices.map BitVec.toNat ∧
    att.data.target = (run.votes epoch).currentEpochTarget ∧
    att.data.source.epoch.toNat = run.sourceOf epoch

variable (uniform : run.Uniform registry last) (sources : run.SourcesMatch last)
variable (bounded : 3 * registry.wholeStake < 2 ^ 64) (busy : registry.wholeStake ≠ 0)
include uniform sources bounded busy

/-- Two thirds of the stake vote for a justified epoch. -/
theorem JustifiedAt.votes {epoch : ℕ} (justified : run.JustifiedAt last epoch) :
    ∃ voters, IsSupermajority registry.balanceOf registry.everyone voters ∧
      ∀ validator ∈ voters, run.Votes last epoch validator := by
  rcases justified with ⟨first, inside, justifies⟩ | ⟨inside, justifies⟩
  · rw [EpochVotes.currJustifies, uniform.registry_eq] at justifies
    refine ⟨_, uniform.supermajority bounded first inside justifies, fun validator member => ?_⟩
    obtain ⟨-, att, passed, isTarget, votes⟩ := Finset.mem_filter.1 member
    obtain ⟨before, rfl⟩ := Nat.exists_eq_add_of_le' first
    exact ⟨att, ⟨before + 1, first, inside, Or.inr passed⟩, votes, isTarget,
      congrArg BitVec.toNat (sources.current before inside att passed isTarget)⟩
  · rw [EpochVotes.prevJustifies, uniform.registry_eq] at justifies
    refine ⟨_, uniform.supermajority bounded (Nat.succ_pos epoch) inside justifies,
      fun validator member => ?_⟩
    obtain ⟨-, att, passed, isTarget, votes⟩ := Finset.mem_filter.1 member
    have expected := sources.previous epoch inside att passed isTarget
    rw [previousJustified_eq uniform bounded busy inside.le] at expected
    exact ⟨att, ⟨epoch + 1, Nat.succ_pos epoch, inside, Or.inl passed⟩, votes,
      isTarget.trans (uniform.target epoch), congrArg BitVec.toNat expected⟩

end Votes

section Runs

variable {first second : FinalityRun} {registry : ValidatorRegistry} {firstLast secondLast : ℕ}
variable (firstRange : firstLast < 2 ^ 64) (secondRange : secondLast < 2 ^ 64)
variable (firstUniform : first.Uniform registry firstLast)
variable (secondUniform : second.Uniform registry secondLast)
include firstUniform secondUniform

/-- Votes for conflicting epochs are slashable. -/
theorem offends_of_conflict {i j validator : ℕ}
    (conflict : CasperFfg.Conflict (history firstUniform firstRange)
      (history secondUniform secondRange) i j)
    (iRange : i < 2 ^ 64) (jRange : j < 2 ^ 64)
    (firstVotes : first.Votes firstLast i validator)
    (secondVotes : second.Votes secondLast j validator) :
    Offends first second firstLast secondLast validator := by
  obtain ⟨a1, passed1, votes1, target1, source1⟩ := firstVotes
  obtain ⟨a2, passed2, votes2, target2, source2⟩ := secondVotes
  refine ⟨a1, a2, passed1, passed2, votes1, votes2, (isSlashable_iff _ _).2 ?_⟩
  have epoch1 : a1.data.target.epoch.toNat = i := by
    rw [target1, first.current_epoch, BitVec.toNat_ofNat, Nat.mod_eq_of_lt iRange]
  have epoch2 : a2.data.target.epoch.toNat = j := by
    rw [target2, second.current_epoch, BitVec.toNat_ofNat, Nat.mod_eq_of_lt jRange]
  rcases conflict with ⟨rfl, differ⟩ | ⟨older, before⟩
  · refine ⟨fun same => ?_, Or.inl (BitVec.eq_of_toNat_eq (epoch1.trans epoch2.symm))⟩
    rcases differ with roots | sources
    · apply roots
      have targets := congrArg (fun data : AttestationData => data.target.root) same
      simp only [target1, target2] at targets
      exact targets
    · apply sources
      have numbers := congrArg (fun data : AttestationData => data.source.epoch.toNat) same
      simp only [source1, source2] at numbers
      exact numbers
  · have surrounded : a2.data.source.epoch.toNat < a1.data.source.epoch.toNat := by
      rw [source1, source2]
      exact older
    have inside : a1.data.target.epoch.toNat < a2.data.target.epoch.toNat := by
      rw [epoch1, epoch2]
      exact before
    refine ⟨fun same => ?_, Or.inr (Or.inr ⟨surrounded, inside⟩)⟩
    rw [same] at inside
    exact lt_irrefl _ inside

include firstRange secondRange

/-- Accountable safety of two runs that count votes from the right sources only, with
targets that lie in one tree of blocks. -/
theorem accountable_safety (bounded : 3 * registry.wholeStake < 2 ^ 64)
    (firstSources : first.SourcesMatch firstLast) (secondSources : second.SourcesMatch secondLast)
    (tree : ∀ epoch, (first.votes (epoch + 1)).currentEpochTarget.root =
        (second.votes (epoch + 1)).currentEpochTarget.root →
      (first.votes epoch).currentEpochTarget.root =
        (second.votes epoch).currentEpochTarget.root) :
    Accountable registry first second firstLast secondLast := by
  intro positive later differ
  have busy : registry.wholeStake ≠ 0 := by
    intro idle
    rw [firstUniform.idle bounded idle le_rfl] at positive
    exact absurd positive (by decide)
  obtain ⟨finalized, isTarget⟩ :=
    (finalized_history firstUniform firstRange bounded busy le_rfl).resolve_left
      (Nat.ne_of_gt positive)
  obtain ⟨rival, -⟩ :=
    (finalized_history secondUniform secondRange bounded busy le_rfl).resolve_left
      (Nat.ne_of_gt (lt_of_lt_of_le positive later))
  generalize (first.storeAfter firstLast).finalized = final at *
  have roots : (first.votes final.epoch.toNat).currentEpochTarget.root ≠
      (second.votes final.epoch.toNat).currentEpochTarget.root := by
    rw [← isTarget]
    exact differ.symm
  obtain ⟨i, j, firstJustified, secondJustified, conflict⟩ :=
    finalized.exists_conflict positive rival.justified later roots (tree _)
  have iRange : i < 2 ^ 64 := by
    rcases firstJustified with ⟨-, inside, -⟩ | ⟨inside, -⟩ <;> omega
  have jRange : j < 2 ^ 64 := by
    rcases secondJustified with ⟨-, inside, -⟩ | ⟨inside, -⟩ <;> omega
  obtain ⟨firstVoters, firstShare, firstVotes⟩ :=
    JustifiedAt.votes firstUniform firstSources bounded busy firstJustified
  obtain ⟨secondVoters, secondShare, secondVotes⟩ :=
    JustifiedAt.votes secondUniform secondSources bounded busy secondJustified
  refine ⟨firstVoters ∩ secondVoters, Finset.inter_subset_left.trans firstShare.known,
    firstShare.inter secondShare, fun validator member => ?_⟩
  obtain ⟨inFirst, inSecond⟩ := Finset.mem_inter.1 member
  exact offends_of_conflict firstRange secondRange firstUniform secondUniform conflict iRange
    jRange (firstVotes validator inFirst) (secondVotes validator inSecond)

end Runs

/-! Runs of the four validators. -/

section Committee

variable (voters : List ValidatorIndex) (root : Root) (source : ℕ → Option Checkpoint) {last : ℕ}

theorem ballot_uniform (inRange : last < 2 ^ 64 - 1) :
    (ballot committee voters root source).Uniform committee last where
  registry_eq _ := rfl
  active := by
    intro epoch _ inside validator member
    obtain ⟨balance, -, rfl⟩ := List.mem_map.1 member
    refine ⟨Nat.zero_le _, ?_⟩
    rw [BitVec.lt_def, BitVec.toNat_ofNat, BitVec.toNat_ofNat, Nat.mod_eq_of_lt (by omega)]
    omega
  target _ := rfl

variable {voters root source}

theorem ballot_attested {att : IndexedAttestation}
    (attested : (ballot committee voters root source).Attested last att) :
    ∃ epoch, 1 ≤ epoch ∧ epoch ≤ last ∧ source epoch = some att.data.source ∧
      att.data.target.epoch = BitVec.ofNat 64 epoch := by
  obtain ⟨epoch, first, inside, passed | passed⟩ := attested
  · exact absurd passed List.not_mem_nil
  · obtain ⟨checkpoint, named, rfl⟩ := List.mem_map.1 passed
    exact ⟨epoch, first, inside, Option.mem_toList.1 named, rfl⟩

end Committee

/-- Votes for another checkpoint of epoch 1. -/
def committeeRival : FinalityRun :=
  ballot committee [1, 2, 3] (Vector.replicate 32 2) fun epoch =>
    if epoch = 1 then some .zero
    else if epoch = 2 then some ⟨1, Vector.replicate 32 2⟩
    else none

/-- Those who vote in both runs are found. -/
theorem committeeRival_accountable :
    ∃ offenders ⊆ committee.everyone,
      committee.wholeStake ≤ 3 * stake committee.balanceOf offenders ∧
        ∀ validator ∈ offenders, Offends committeeLink committeeRival 2 2 validator := by
  refine accountable_safety (by decide) (by decide) (ballot_uniform _ _ _ (by decide))
    (ballot_uniform _ _ _ (by decide)) (by decide) ⟨fun epoch inside => ?_, fun _ _ _ => ?_⟩
    ⟨fun epoch inside => ?_, fun _ _ _ => ?_⟩ (fun _ same => same) ?_ ?_ ?_
  · interval_cases epoch <;> decide
  · exact fun passed => absurd passed List.not_mem_nil
  · interval_cases epoch <;> decide
  · exact fun passed => absurd passed List.not_mem_nil
  · decide
  · decide
  · decide

/-- Votes whose sources no call has justified. -/
def committeeSkip : FinalityRun :=
  ballot committee [1, 2, 3] (Vector.replicate 32 2) fun epoch =>
    if epoch = 3 then some ⟨2, Vector.replicate 32 2⟩
    else if epoch = 4 then some ⟨3, Vector.replicate 32 2⟩
    else none

/-- The sources of votes are not checked, and nobody can be held to account. -/
theorem not_accountable :
    ¬ ∀ (registry : ValidatorRegistry) (first second : FinalityRun) (firstLast secondLast : ℕ),
      firstLast < 2 ^ 64 → secondLast < 2 ^ 64 → first.Uniform registry firstLast →
        second.Uniform registry secondLast → 3 * registry.wholeStake < 2 ^ 64 →
          Accountable registry first second firstLast secondLast := by
  intro accountable
  obtain ⟨offenders, known, share, offends⟩ := accountable committee committeeLink committeeSkip 2 4
    (by decide) (by decide) (ballot_uniform _ _ _ (by decide)) (ballot_uniform _ _ _ (by decide))
    (by decide) (by decide) (by decide) (by decide)
  obtain ⟨validator, member⟩ : offenders.Nonempty := by
    rw [Finset.nonempty_iff_ne_empty]
    rintro rfl
    exact absurd share (by decide)
  obtain ⟨a1, a2, passed1, passed2, -, -, slashable⟩ := offends validator member
  obtain ⟨i, iFirst, iLast, iSource, iTarget⟩ := ballot_attested passed1
  obtain ⟨j, jFirst, jLast, jSource, jTarget⟩ := ballot_attested passed2
  obtain ⟨-, conflict⟩ := (isSlashable_iff _ _).1 slashable
  rw [iTarget, jTarget] at conflict
  have early : i = 1 ∧ a1.data.source = .zero ∨
      i = 2 ∧ a1.data.source = ⟨1, Vector.replicate 32 1⟩ := by
    interval_cases i
    · exact Or.inl ⟨rfl, (Option.some.inj iSource).symm⟩
    · exact Or.inr ⟨rfl, (Option.some.inj iSource).symm⟩
  have late : j = 3 ∧ a2.data.source = ⟨2, Vector.replicate 32 2⟩ ∨
      j = 4 ∧ a2.data.source = ⟨3, Vector.replicate 32 2⟩ := by
    interval_cases j
    · cases jSource
    · cases jSource
    · exact Or.inl ⟨rfl, (Option.some.inj jSource).symm⟩
    · exact Or.inr ⟨rfl, (Option.some.inj jSource).symm⟩
  rcases early with ⟨rfl, named1⟩ | ⟨rfl, named1⟩ <;>
    rcases late with ⟨rfl, named2⟩ | ⟨rfl, named2⟩ <;>
    rw [named1, named2] at conflict <;> revert conflict <;> decide

end FinalityRun

end MetaVm.Zkp
