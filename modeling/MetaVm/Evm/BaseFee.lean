import MetaVm.Evm.Word
import MetaVm.Lib.Outcome

namespace MetaVm.Evm

/-! The base fee of the next block. -/

/-- The numbers that a `u64` can hold are those below. -/
abbrev u64Size : ℕ := 2 ^ 64

/-- The code panics where gas is used over a target of zero; the division gives zero here. -/
def nextBaseFee (parentBaseFee parentGasUsed parentGasTarget : U64) : Checked ℕ :=
  let fee := parentBaseFee.toNat
  let used := parentGasUsed.toNat
  let target := parentGasTarget.toNat
  if used = target then pure fee
  else if target < used then do
    let delta ← Checked.sub u64Size used target
    let product ← Checked.mul u64Size fee delta
    let feeDelta := max (product / target) 1
    Checked.add u64Size fee feeDelta
  else do
    let delta ← Checked.sub u64Size target used
    let product ← Checked.mul u64Size fee delta
    let feeDelta := product / target
    pure (fee - feeDelta)

/-! The update rule itself, over the natural numbers. -/

/-- The part of the fee by which it changes: a share of it that grows with the
distance to the target, divided by eight. -/
def feeStep (fee distance target : ℕ) : ℕ := fee * distance / target / 8

def eip1559BaseFee (fee used target : ℕ) : ℕ :=
  if used = target then fee
  else if target < used then fee + max (feeStep fee (used - target) target) 1
  else fee - feeStep fee (target - used) target

/-- Nothing overflows, the result is the fee of the update rule, and it is within
an eighth of the parent's fee, rounded and plus one. -/
structure FollowsEip1559 (fee used target : U64) : Prop where
  fits : Checked.Fits (nextBaseFee fee used target)
    (· = eip1559BaseFee fee.toNat used.toNat target.toNat)
  upper : (nextBaseFee fee used target).value ≤ fee.toNat + (fee.toNat / 8 + 1)
  lower : fee.toNat ≤ (nextBaseFee fee used target).value + (fee.toNat / 8 + 1)

/-- The change is so small that its eighth rounds to the same. -/
def SmallFeeChange (fee used target : U64) : Prop :=
  used = target ∨
    (target < used ∧ fee.toNat * (used.toNat - target.toNat) < 2 * target.toNat ∧
      fee.toNat * (used.toNat - target.toNat) < u64Size ∧ fee.toNat + 1 < u64Size) ∨
    (used < target ∧ fee.toNat * (target.toNat - used.toNat) < target.toNat)

section Rule

variable {fee used used' distance distance' target : ℕ}

theorem feeStep_mono (closer : distance ≤ distance') :
    feeStep fee distance target ≤ feeStep fee distance' target :=
  Nat.div_le_div_right (Nat.div_le_div_right (Nat.mul_le_mul_left fee closer))

/-- No distance up to the target changes the fee by more than an eighth of it. -/
theorem feeStep_le (positive : 1 ≤ target) (near : distance ≤ target) :
    feeStep fee distance target ≤ fee / 8 := by
  have share : fee * distance / target ≤ fee := by
    rw [Nat.div_le_iff_le_mul_add_pred positive]
    exact (Nat.mul_le_mul_left fee near).trans
      ((Nat.mul_comm fee target).le.trans (Nat.le_add_right _ _))
  exact Nat.div_le_div_right share

theorem eip1559BaseFee_le (positive : 1 ≤ target) (limit : used ≤ 2 * target) :
    eip1559BaseFee fee used target ≤ fee + (fee / 8 + 1) := by
  rw [eip1559BaseFee]
  split_ifs with same above
  · exact Nat.le_add_right _ _
  · have step : feeStep fee (used - target) target ≤ fee / 8 :=
      feeStep_le positive (by omega)
    exact Nat.add_le_add_left (max_le (step.trans (Nat.le_succ _)) (Nat.le_add_left 1 _)) fee
  · exact (Nat.sub_le _ _).trans (Nat.le_add_right _ _)

theorem le_eip1559BaseFee (positive : 1 ≤ target) :
    fee ≤ eip1559BaseFee fee used target + (fee / 8 + 1) := by
  rw [eip1559BaseFee]
  split_ifs with same above
  · exact Nat.le_add_right _ _
  · exact (Nat.le_add_right _ _).trans (Nat.le_add_right _ _)
  · have step : feeStep fee (target - used) target ≤ fee / 8 :=
      feeStep_le positive (Nat.sub_le _ _)
    omega

/-- More gas used never gives a smaller fee, on either side of the target and
across it. -/
theorem eip1559BaseFee_mono (more : used ≤ used') :
    eip1559BaseFee fee used target ≤ eip1559BaseFee fee used' target := by
  have farther : feeStep fee (used - target) target ≤ feeStep fee (used' - target) target :=
    feeStep_mono (Nat.sub_le_sub_right more target)
  have closer : feeStep fee (target - used') target ≤ feeStep fee (target - used) target :=
    feeStep_mono (Nat.sub_le_sub_left more target)
  rw [eip1559BaseFee, eip1559BaseFee]
  split_ifs <;> omega

end Rule

/-! What the code computes on either side of the target. -/

variable {fee used target : U64}

theorem checkedSub_eq (x y : U64) (less : y.toNat ≤ x.toNat) :
    Checked.sub u64Size x.toNat y.toNat = pure (x.toNat - y.toNat) :=
  let spec := Checked.sub_fits less x.isLt
  Checked.ext spec.holds spec.exact

theorem nextBaseFee_same : nextBaseFee fee used used = pure fee.toNat := if_pos rfl

theorem nextBaseFee_above (above : target.toNat < used.toNat) :
    nextBaseFee fee used target = (do
      let product ← Checked.mul u64Size fee.toNat (used.toNat - target.toNat)
      Checked.add u64Size fee.toNat (max (product / target.toNat) 1)) := by
  rw [nextBaseFee]
  simp only [if_neg above.ne', if_pos above, checkedSub_eq used target above.le, pure_bind]

theorem nextBaseFee_below (below : used.toNat < target.toNat) :
    nextBaseFee fee used target = (do
      let product ← Checked.mul u64Size fee.toNat (target.toNat - used.toNat)
      pure (fee.toNat - product / target.toNat)) := by
  rw [nextBaseFee]
  simp only [if_neg below.ne, if_neg below.asymm, checkedSub_eq target used below.le, pure_bind]

/-- An eighth of a change, and the change itself, both at least one. -/
theorem max_eq_max_div_eight_iff (change : ℕ) :
    max change 1 = max (change / 8) 1 ↔ change < 2 := by
  omega

theorem nextBaseFee_fits_above (positive : 1 ≤ target.toNat) (above : target.toNat < used.toNat) :
    Checked.Fits (nextBaseFee fee used target)
        (· = eip1559BaseFee fee.toNat used.toNat target.toNat) ↔
      fee.toNat * (used.toNat - target.toNat) < 2 * target.toNat ∧
        fee.toNat * (used.toNat - target.toNat) < u64Size ∧ fee.toNat + 1 < u64Size := by
  rw [nextBaseFee_above above, eip1559BaseFee, if_neg above.ne', if_pos above, feeStep,
    ← Nat.div_lt_iff_lt_mul positive]
  constructor
  · intro fits
    obtain ⟨productExact, sumExact⟩ := Bool.or_eq_false_iff.1 fits.exact
    have productSmall := Checked.lt_of_mul_exact productExact
    have value := fits.holds
    rw [Checked.value_bind, (Checked.mul_fits productSmall).holds] at value
    rw [(Checked.mul_fits productSmall).holds] at sumExact
    have sumSmall := Checked.lt_of_add_exact sumExact
    rw [(Checked.add_fits sumSmall).holds] at value
    have small := (max_eq_max_div_eight_iff _).1 (Nat.add_left_cancel value)
    exact ⟨small, productSmall, lt_of_le_of_lt (Nat.add_le_add_left (le_max_right _ _) _)
      sumSmall⟩
  · rintro ⟨small, productSmall, sumSmall⟩
    refine (Checked.mul_fits productSmall).bind ?_
    rintro _ rfl
    have change := (max_eq_max_div_eight_iff _).2 small
    have one : max (fee.toNat * (used.toNat - target.toNat) / target.toNat) 1 = 1 := by
      omega
    rw [← change, one]
    exact Checked.add_fits sumSmall

theorem nextBaseFee_fits_below (positive : 1 ≤ target.toNat) (below : used.toNat < target.toNat) :
    Checked.Fits (nextBaseFee fee used target)
        (· = eip1559BaseFee fee.toNat used.toNat target.toNat) ↔
      fee.toNat * (target.toNat - used.toNat) < target.toNat := by
  rw [nextBaseFee_below below, eip1559BaseFee, if_neg below.ne, if_neg below.asymm, feeStep]
  constructor
  · intro fits
    obtain ⟨productExact, -⟩ := Bool.or_eq_false_iff.1 fits.exact
    have productSmall := Checked.lt_of_mul_exact productExact
    have value := fits.holds
    rw [Checked.value_bind, (Checked.mul_fits productSmall).holds, Checked.value_pure]
      at value
    have share : fee.toNat * (target.toNat - used.toNat) / target.toNat ≤ fee.toNat := by
      rw [Nat.div_le_iff_le_mul_add_pred positive]
      exact (Nat.mul_le_mul_left _ (Nat.sub_le _ _)).trans
        ((Nat.mul_comm _ _).le.trans (Nat.le_add_right _ _))
    have none : fee.toNat * (target.toNat - used.toNat) / target.toNat = 0 := by
      generalize fee.toNat * (target.toNat - used.toNat) / target.toNat = change at value share
      omega
    exact (Nat.div_eq_zero_iff_lt positive).1 none
  · intro small
    have productSmall := small.trans target.isLt
    refine (Checked.mul_fits productSmall).bind ?_
    rintro _ rfl
    rw [Nat.div_eq_of_lt small]
    exact Checked.Fits.pure rfl

/-- The code computes the base fee of the update rule exactly when the gas used
is on target, or so near to it that the change, which the code does not divide by
eight, rounds to the same. -/
theorem nextBaseFee_fits_iff (positive : 1 ≤ target.toNat) :
    Checked.Fits (nextBaseFee fee used target)
        (· = eip1559BaseFee fee.toNat used.toNat target.toNat) ↔
      SmallFeeChange fee used target := by
  rcases Nat.lt_trichotomy used.toNat target.toNat with below | same | above
  · have usedLess : used < target := below
    rw [nextBaseFee_fits_below positive below, SmallFeeChange]
    constructor
    · exact fun small => Or.inr (Or.inr ⟨usedLess, small⟩)
    · rintro (rfl | ⟨targetLess, -⟩ | ⟨-, small⟩)
      · exact absurd below (Nat.lt_irrefl _)
      · exact absurd below (Nat.lt_asymm targetLess)
      · exact small
  · obtain rfl := BitVec.eq_of_toNat_eq same
    have rule : fee.toNat = eip1559BaseFee fee.toNat used.toNat used.toNat := (if_pos rfl).symm
    rw [nextBaseFee_same]
    exact ⟨fun _ => Or.inl rfl, fun _ => Checked.Fits.pure rule⟩
  · have targetLess : target < used := above
    rw [nextBaseFee_fits_above positive above, SmallFeeChange]
    constructor
    · exact fun small => Or.inr (Or.inl ⟨targetLess, small⟩)
    · rintro (rfl | ⟨-, small⟩ | ⟨usedLess, -⟩)
      · exact absurd above (Nat.lt_irrefl _)
      · exact small
      · exact absurd above (Nat.lt_asymm usedLess)

/-- Following the rule, with its bounds, has the same exact condition, and among
inputs that meet it the fee grows with the gas used. -/
theorem nextBaseFee_exact_iff (fee used target : U64) (positive : 1 ≤ target.toNat)
    (limit : used.toNat ≤ 2 * target.toNat) :
    (FollowsEip1559 fee used target ↔ SmallFeeChange fee used target) ∧
      ∀ used' : U64, used'.toNat ≤ 2 * target.toNat → used.toNat ≤ used'.toNat →
        SmallFeeChange fee used target → SmallFeeChange fee used' target →
        (nextBaseFee fee used target).value ≤ (nextBaseFee fee used' target).value := by
  refine ⟨⟨fun follows => (nextBaseFee_fits_iff positive).1 follows.fits, fun small => ?_⟩, ?_⟩
  · have fits := (nextBaseFee_fits_iff positive).2 small
    refine ⟨fits, ?_, ?_⟩
    · rw [fits.holds]
      exact eip1559BaseFee_le positive limit
    · rw [fits.holds]
      exact le_eip1559BaseFee positive
  · intro used' _ more small small'
    rw [((nextBaseFee_fits_iff positive).2 small).holds,
      ((nextBaseFee_fits_iff positive).2 small').holds]
    exact eip1559BaseFee_mono more

theorem nextBaseFee_exact_nearTarget :
    (FollowsEip1559 7 110 100 ↔ SmallFeeChange 7 110 100) ∧
      (nextBaseFee 7 110 100).value ≤ (nextBaseFee 7 115 100).value :=
  have exact := nextBaseFee_exact_iff 7 110 100 (by decide) (by decide)
  ⟨exact.1, exact.2 115 (by decide) (by decide) (Or.inr (Or.inl (by decide)))
    (Or.inr (Or.inl (by decide)))⟩

/-- A block a third above the target: the fee grows by a third and not by a
twenty-fourth. -/
theorem nextBaseFee_notDivided :
    ¬FollowsEip1559 1000 20000000 15000000 := by
  intro follows
  have rule : (nextBaseFee 1000 20000000 15000000).value =
      eip1559BaseFee 1000 20000000 15000000 := follows.fits.holds
  revert rule
  decide

end MetaVm.Evm
