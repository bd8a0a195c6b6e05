import MetaVm.Zkp.FinalityStake

namespace MetaVm.Zkp

/-! What a call finalizes. -/

section Call

variable {store : JustificationStore} {currentEpoch : Epoch} {votes : EpochVotes}

theorem finalizeIf_value (bits : Bool) (justified : Checkpoint) (age : ℕ)
    (finalized : Checkpoint) :
    (finalizeIf bits justified age currentEpoch finalized).value =
      if bits = true ∧ (justified.epoch.toNat + age) % 2 ^ 64 = currentEpoch.toNat then justified
      else finalized := by
  rw [finalizeIf]
  cases bits with
  | false => simp
  | true =>
      have sum : (Checked.add (2 ^ 64) justified.epoch.toNat age).value =
          (justified.epoch.toNat + age) % 2 ^ 64 := rfl
      rw [if_pos rfl, Checked.value_bind, Checked.value_pure, sum]
      exact if_congr (by rw [eq_self, true_and]) rfl rfl

/-- A checkpoint of an age that the number range does not cut off. -/
def Aged (checkpoint : Checkpoint) (age : ℕ) (currentEpoch : Epoch) : Prop :=
  (checkpoint.epoch.toNat + age) % 2 ^ 64 = currentEpoch.toNat

theorem Aged.exact {checkpoint : Checkpoint} {age : ℕ} (aged : Aged checkpoint age currentEpoch)
    (small : age < 2 ^ 64) (past : checkpoint.epoch.toNat ≤ currentEpoch.toNat) :
    checkpoint.epoch.toNat + age = currentEpoch.toNat := by
  rw [Aged] at aged
  have inRange := checkpoint.epoch.isLt
  rcases Nat.lt_or_ge (checkpoint.epoch.toNat + age) (2 ^ 64) with fits | wraps
  · rwa [Nat.mod_eq_of_lt fits] at aged
  · rw [Nat.mod_eq_sub_mod wraps, Nat.mod_eq_of_lt (by omega)] at aged
    omega

/-- The checkpoints that the rules leave finalized. -/
inductive Finalizes (store : JustificationStore) (currentEpoch : Epoch) (bits : Fin 4 → Bool) :
    Checkpoint → Prop
  | unchanged : Finalizes store currentEpoch bits store.finalized
  | rule2a (second : bits 1 = true) (third : bits 2 = true) (fourth : bits 3 = true)
      (aged : Aged store.previousJustified 3 currentEpoch) :
      Finalizes store currentEpoch bits store.previousJustified
  | rule2b (second : bits 1 = true) (third : bits 2 = true)
      (aged : Aged store.previousJustified 2 currentEpoch) :
      Finalizes store currentEpoch bits store.previousJustified
  | rule3a (first : bits 0 = true) (second : bits 1 = true) (third : bits 2 = true)
      (aged : Aged store.currentJustified 2 currentEpoch) :
      Finalizes store currentEpoch bits store.currentJustified
  | rule3b (first : bits 0 = true) (second : bits 1 = true)
      (aged : Aged store.currentJustified 1 currentEpoch) :
      Finalizes store currentEpoch bits store.currentJustified

/-- What a call leaves, in the store of a validator set that is not empty. -/
structure Updated (store : JustificationStore) (currentEpoch : Epoch) (votes : EpochVotes)
    (after : JustificationStore) : Prop where
  previous : after.previousJustified = store.currentJustified
  current : after.currentJustified =
    if votes.currJustifies currentEpoch then votes.currentEpochTarget
    else if votes.prevJustifies currentEpoch then votes.previousEpochTarget
    else store.currentJustified
  bits : after.justificationBits = bitsAfter store currentEpoch votes
  finalized : Finalizes store currentEpoch (bitsAfter store currentEpoch votes) after.finalized

theorem process_updated
    (isActive : (votes.registry.totalActiveBalance currentEpoch).value ≠ 0) :
    ∃ after, (processJustificationAndFinalization store currentEpoch votes).value =
      (.ok (), after) ∧ Updated store currentEpoch votes after := by
  rw [processJustificationAndFinalization, Checked.value_bind, if_neg isActive]
  refine ⟨_, rfl, rfl, rfl, rfl, ?_⟩
  simp only [finalizeIf_value]
  -- the last rule that applies decides
  split
  · rename_i applies
    obtain ⟨set, aged⟩ := applies
    rw [Bool.and_eq_true] at set
    exact .rule3b set.1 set.2 aged
  split
  · rename_i applies
    obtain ⟨set, aged⟩ := applies
    rw [Bool.and_eq_true, Bool.and_eq_true] at set
    exact .rule3a set.1.1 set.1.2 set.2 aged
  split
  · rename_i applies
    obtain ⟨set, aged⟩ := applies
    rw [Bool.and_eq_true] at set
    exact .rule2b set.1 set.2 aged
  split
  · rename_i applies
    obtain ⟨set, aged⟩ := applies
    rw [Bool.and_eq_true, Bool.and_eq_true] at set
    exact .rule2a set.1.1 set.1.2 set.2 aged
  · exact .unchanged

/-- A call fails and changes nothing, or it updates the store. -/
theorem process_cases :
    (processJustificationAndFinalization store currentEpoch votes).value =
        (.error .noActiveValidators, store) ∨
      ∃ after, (processJustificationAndFinalization store currentEpoch votes).value =
        (.ok (), after) ∧ Updated store currentEpoch votes after := by
  by_cases inactive : (votes.registry.totalActiveBalance currentEpoch).value = 0
  · exact Or.inl (process_of_inactive inactive)
  · exact Or.inr (process_updated inactive)

end Call

/-! Runs from genesis, with one call for each epoch. -/

/-- The votes for the epochs 1, 2, 3 and so on. -/
structure FinalityRun where
  votes : ℕ → EpochVotes
  current_epoch : ∀ epoch, (votes epoch).currentEpochTarget.epoch = BitVec.ofNat 64 epoch
  previous_epoch : ∀ epoch,
    (votes (epoch + 1)).previousEpochTarget.epoch = BitVec.ofNat 64 epoch

namespace FinalityRun

variable (run : FinalityRun)

def call (store : JustificationStore) (epoch : ℕ) :
    Except FinalityError Unit × JustificationStore :=
  (processJustificationAndFinalization store (BitVec.ofNat 64 epoch) (run.votes epoch)).value

def storeAfter : ℕ → JustificationStore
  | 0 => .genesis
  | epoch + 1 => (run.call (storeAfter epoch) (epoch + 1)).2

def outcome (epoch : ℕ) : Except FinalityError Unit :=
  (run.call (run.storeAfter (epoch - 1)) epoch).1

end FinalityRun

/-! The order of the checkpoints in the store. -/

structure Ordered (store : JustificationStore) (epoch : ℕ) : Prop where
  finalized : store.finalized.epoch.toNat ≤ store.previousJustified.epoch.toNat
  previous : store.previousJustified.epoch.toNat ≤ store.currentJustified.epoch.toNat
  current : store.currentJustified.epoch.toNat ≤ epoch

theorem genesis_ordered : Ordered .genesis 0 := ⟨le_rfl, le_rfl, le_rfl⟩

section Step

variable {store after : JustificationStore} {votes : EpochVotes} {epoch : ℕ}
variable (inOrder : Ordered store epoch)
include inOrder

/-- What becomes finalized was justified before, and is not older than what was
finalized. -/
theorem Finalizes.bounds {bits : Fin 4 → Bool} {finalized : Checkpoint}
    (finalizes : Finalizes store (BitVec.ofNat 64 (epoch + 1)) bits finalized) :
    store.finalized.epoch.toNat ≤ finalized.epoch.toNat ∧
      finalized.epoch.toNat ≤ store.currentJustified.epoch.toNat ∧
      (finalized = store.finalized ∨ finalized = store.previousJustified ∨
        finalized = store.currentJustified) := by
  have first := inOrder.finalized
  have second := inOrder.previous
  cases finalizes with
  | unchanged => exact ⟨le_rfl, first.trans second, Or.inl rfl⟩
  | rule2a | rule2b => exact ⟨first, second, Or.inr (Or.inl rfl)⟩
  | rule3a | rule3b => exact ⟨first.trans second, le_rfl, Or.inr (Or.inr rfl)⟩

theorem Updated.ordered (inRange : epoch + 1 < 2 ^ 64)
    (updated : Updated store (BitVec.ofNat 64 (epoch + 1)) votes after)
    (current : votes.currentEpochTarget.epoch = BitVec.ofNat 64 (epoch + 1))
    (previous : votes.previousEpochTarget.epoch = BitVec.ofNat 64 epoch) :
    Ordered after (epoch + 1) := by
  have old := inOrder.current
  have bounds := updated.finalized.bounds inOrder
  have currentNumber : votes.currentEpochTarget.epoch.toNat = epoch + 1 := by
    rw [current, BitVec.toNat_ofNat, Nat.mod_eq_of_lt inRange]
  have previousNumber : votes.previousEpochTarget.epoch.toNat = epoch := by
    rw [previous, BitVec.toNat_ofNat, Nat.mod_eq_of_lt (Nat.lt_of_succ_lt inRange)]
  constructor
  · rw [updated.previous]
    exact bounds.2.1
  · rw [updated.previous, updated.current]
    split
    · omega
    split
    · omega
    · exact le_rfl
  · rw [updated.current]
    split
    · omega
    split
    · omega
    · omega

end Step

namespace FinalityRun

variable (run : FinalityRun)

/-- A call of the run fails and changes nothing, or it updates the store. -/
theorem call_cases (epoch : ℕ) :
    (run.outcome (epoch + 1) = .error .noActiveValidators ∧
        run.storeAfter (epoch + 1) = run.storeAfter epoch) ∨
      (run.outcome (epoch + 1) = .ok () ∧
        Updated (run.storeAfter epoch) (BitVec.ofNat 64 (epoch + 1)) (run.votes (epoch + 1))
          (run.storeAfter (epoch + 1))) := by
  rw [outcome, Nat.add_sub_cancel, storeAfter, call]
  rcases @process_cases (run.storeAfter epoch) (BitVec.ofNat 64 (epoch + 1))
    (run.votes (epoch + 1)) with failed | ⟨after, returned, updated⟩
  · rw [failed]
    exact Or.inl ⟨rfl, rfl⟩
  · rw [returned]
    exact Or.inr ⟨rfl, updated⟩

theorem storeAfter_ordered {epoch : ℕ} (inRange : epoch < 2 ^ 64) :
    Ordered (run.storeAfter epoch) epoch := by
  induction epoch with
  | zero => exact genesis_ordered
  | succ epoch hypothesis =>
      have ordered := hypothesis (Nat.lt_of_succ_lt inRange)
      rcases run.call_cases epoch with ⟨-, same⟩ | ⟨-, updated⟩
      · rw [same]
        exact ⟨ordered.finalized, ordered.previous, ordered.current.trans (Nat.le_succ epoch)⟩
      · exact Updated.ordered ordered inRange updated (run.current_epoch _) (run.previous_epoch _)

theorem finalized_step {epoch : ℕ} (inRange : epoch + 1 < 2 ^ 64) :
    (run.storeAfter epoch).finalized.epoch.toNat ≤
      (run.storeAfter (epoch + 1)).finalized.epoch.toNat := by
  have ordered := run.storeAfter_ordered (Nat.lt_of_succ_lt inRange)
  rcases run.call_cases epoch with ⟨-, same⟩ | ⟨-, updated⟩
  · rw [same]
  · exact (updated.finalized.bounds ordered).1

theorem finalized_mono {first last : ℕ} (order : first ≤ last) (inRange : last < 2 ^ 64) :
    (run.storeAfter first).finalized.epoch.toNat ≤
      (run.storeAfter last).finalized.epoch.toNat := by
  induction last, order using Nat.le_induction with
  | base => exact le_rfl
  | succ last _ hypothesis =>
      exact (hypothesis (Nat.lt_of_succ_lt inRange)).trans (run.finalized_step inRange)

/-- The slot for the previous justified checkpoint holds an earlier current one. -/
theorem previousJustified_earlier (epoch : ℕ) :
    ∃ earlier ≤ epoch,
      (run.storeAfter epoch).previousJustified = (run.storeAfter earlier).currentJustified := by
  induction epoch with
  | zero => exact ⟨0, le_rfl, rfl⟩
  | succ epoch hypothesis =>
      rcases run.call_cases epoch with ⟨-, same⟩ | ⟨-, updated⟩
      · obtain ⟨earlier, inside, held⟩ := hypothesis
        rw [same]
        exact ⟨earlier, inside.trans (Nat.le_succ epoch), held⟩
      · exact ⟨epoch, Nat.le_succ epoch, updated.previous⟩

/-- What a call finalizes was justified by an earlier one, or at genesis. -/
theorem newly_finalized {epoch : ℕ} (inRange : epoch + 1 < 2 ^ 64)
    (new : (run.storeAfter (epoch + 1)).finalized ≠ (run.storeAfter epoch).finalized) :
    (run.storeAfter (epoch + 1)).finalized = .zero ∨
      ∃ earlier, 1 ≤ earlier ∧ earlier ≤ epoch ∧
        (run.storeAfter (epoch + 1)).finalized = (run.storeAfter earlier).currentJustified := by
  have ordered := run.storeAfter_ordered (Nat.lt_of_succ_lt inRange)
  have held : ∀ earlier ≤ epoch,
      (run.storeAfter (epoch + 1)).finalized = (run.storeAfter earlier).currentJustified →
        (run.storeAfter (epoch + 1)).finalized = .zero ∨
          ∃ earlier, 1 ≤ earlier ∧ earlier ≤ epoch ∧
            (run.storeAfter (epoch + 1)).finalized =
              (run.storeAfter earlier).currentJustified := by
    intro earlier inside same
    cases earlier with
    | zero => exact Or.inl same
    | succ earlier => exact Or.inr ⟨earlier + 1, Nat.succ_pos earlier, inside, same⟩
  rcases run.call_cases epoch with ⟨-, same⟩ | ⟨-, updated⟩
  · rw [same] at new
    exact absurd rfl new
  · rcases (updated.finalized.bounds ordered).2.2 with same | previous | current
    · exact absurd same new
    · obtain ⟨earlier, inside, slot⟩ := run.previousJustified_earlier epoch
      exact held earlier inside (previous.trans slot)
    · exact held epoch le_rfl current

/-- The checkpoints stay in order through a run, finalization never goes back, and
a call that fails changes nothing. -/
theorem store_invariant {epoch : ℕ} (inRange : epoch < 2 ^ 64) :
    Ordered (run.storeAfter epoch) epoch ∧
    (∀ earlier ≤ epoch, (run.storeAfter earlier).finalized.epoch.toNat ≤
      (run.storeAfter epoch).finalized.epoch.toNat) ∧
    (∀ last < epoch,
      (run.storeAfter (last + 1)).finalized ≠ (run.storeAfter last).finalized →
        (run.storeAfter (last + 1)).finalized = .zero ∨
          ∃ earlier, 1 ≤ earlier ∧ earlier ≤ last ∧
            (run.storeAfter (last + 1)).finalized =
              (run.storeAfter earlier).currentJustified) ∧
    (∀ last < epoch, ∀ error, run.outcome (last + 1) = .error error →
      run.storeAfter (last + 1) = run.storeAfter last) := by
  refine ⟨run.storeAfter_ordered inRange, fun earlier order => run.finalized_mono order inRange,
    fun last before => run.newly_finalized (lt_of_le_of_lt before inRange),
    fun last before error failed => ?_⟩
  rcases run.call_cases last with ⟨-, same⟩ | ⟨returned, -⟩
  · exact same
  · rw [returned] at failed
    cases failed

/-- A run of one set of validators, some of whom vote for the epochs that have a source. -/
def ballot (registry : ValidatorRegistry) (voters : List ValidatorIndex) (root : Root)
    (source : ℕ → Option Checkpoint) : FinalityRun where
  votes epoch :=
    { currentEpochTarget := ⟨BitVec.ofNat 64 epoch, root⟩
      previousEpochTarget := ⟨BitVec.ofNat 64 (epoch - 1), root⟩
      previousEpochAttestations := []
      currentEpochAttestations := (source epoch).toList.map fun checkpoint =>
        ⟨voters, ⟨0, 0, root, checkpoint, ⟨BitVec.ofNat 64 epoch, root⟩⟩⟩
      registry := registry }
  current_epoch _ := rfl
  previous_epoch _ := rfl

/-- Four validators, who stay active. -/
def committee : ValidatorRegistry where
  validators := [3, 2, 2, 3].map fun balance => ⟨balance, 0, BitVec.ofNat 64 (2 ^ 64 - 1)⟩
  inMemory := by decide

/-- Votes for the epochs 1 and 2, the first of which becomes finalized. -/
def committeeLink : FinalityRun :=
  ballot committee [0, 1, 3] (Vector.replicate 32 1) fun epoch =>
    if epoch = 1 then some .zero
    else if epoch = 2 then some ⟨1, Vector.replicate 32 1⟩
    else none

theorem committeeLink_invariant :
    (committeeLink.storeAfter 2).finalized = ⟨1, Vector.replicate 32 1⟩ ∧
      Ordered (committeeLink.storeAfter 2) 2 :=
  ⟨by decide, (committeeLink.store_invariant (by decide)).1⟩

end FinalityRun

end MetaVm.Zkp
