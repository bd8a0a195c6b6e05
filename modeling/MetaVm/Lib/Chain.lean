import MetaVm.Lib.Numerals

namespace MetaVm.Chain

/-! Positions that follow on their predecessor form chains; every chain starts
at a source. -/

variable {follows : ℕ → Prop} [DecidablePred follows]

/-- The start of the chain that a position belongs to. -/
def source (follows : ℕ → Prop) [DecidablePred follows] : ℕ → ℕ
  | 0 => 0
  | position + 1 => if follows (position + 1) then source follows position else position + 1

theorem source_succ (position : ℕ) : source follows (position + 1) =
    if follows (position + 1) then source follows position else position + 1 :=
  rfl

theorem source_le (position : ℕ) : source follows position ≤ position := by
  induction position with
  | zero => exact le_rfl
  | succ position hypothesis =>
      rw [source_succ]
      split
      · exact hypothesis.trans (Nat.le_succ _)
      · exact le_rfl

theorem source_of_not_follows {position : ℕ} (alone : ¬ follows position) :
    source follows position = position := by
  cases position with
  | zero => rfl
  | succ position => rw [source_succ, if_neg alone]

/-- What is carried from a position to the one that follows is the same along a
chain. -/
theorem value_source {A : Type*} {value : ℕ → A} {position : ℕ}
    (carried : ∀ i < position, follows (i + 1) → value (i + 1) = value i) :
    value (source follows position) = value position := by
  induction position with
  | zero => rfl
  | succ position hypothesis =>
      rw [source_succ]
      split
      · rename_i here
        rw [hypothesis fun i inside => carried i (Nat.lt_succ_of_lt inside)]
        exact (carried position (Nat.lt_succ_self _) here).symm
      · rfl

/-- A position is the source when the chain reaches back to it and no further. -/
theorem source_eq {start position : ℕ} (alone : ¬ follows start) (before : start ≤ position)
    (linked : ∀ between, start < between → between ≤ position → follows between) :
    source follows position = start := by
  induction position with
  | zero => exact (Nat.le_zero.1 before).symm
  | succ position hypothesis =>
      rcases Nat.lt_or_eq_of_le before with earlier | rfl
      · rw [source_succ, if_pos (linked _ earlier le_rfl)]
        exact hypothesis (Nat.le_of_lt_succ earlier) fun between after inside =>
          linked between after (inside.trans (Nat.le_succ _))
      · exact source_of_not_follows alone

end MetaVm.Chain
