import Mathlib
import MetaVm.Evm.BaseFee

namespace MetaVm.Evm

/-! The gas for growing memory. -/

def memoryWordCount (byteSize : ℕ) : Checked ℕ := do
  let padded ← Checked.add u64Size byteSize 31
  pure (padded / 32)

def memoryGasCost (wordCount : ℕ) : Checked ℕ := do
  let linear ← Checked.mul u64Size 3 wordCount
  let square ← Checked.mul u64Size wordCount wordCount
  Checked.add u64Size linear (square / 512)

def memoryExpansionCost (oldByteSize newByteSize : U64) : Checked ℕ :=
  if newByteSize ≤ oldByteSize then pure 0
  else do
    let oldWords ← memoryWordCount oldByteSize.toNat
    let newWords ← memoryWordCount newByteSize.toNat
    let newCost ← memoryGasCost newWords
    let oldCost ← memoryGasCost oldWords
    Checked.sub u64Size newCost oldCost

/-- The sum, or the largest number where it does not fit. -/
def requiredMemorySize (offset size : U64) : U64 :=
  if size = 0 then 0
  else if u64Size ≤ offset.toNat + size.toNat then BitVec.allOnes 64
  else offset + size

/-! The cost itself, over the natural numbers. -/

/-- The gas of a memory of so many words. -/
def gMemory (words : ℕ) : ℕ := 3 * words + words ^ 2 / 512

def gasOfSize (byteSize : ℕ) : ℕ := gMemory (byteSize ⌈/⌉ 32)

/-- Nothing overflows, and the cost is the difference of the two costs. -/
def ChargesExactly (old new : U64) : Prop :=
  Checked.Fits (memoryExpansionCost old new) fun cost =>
    (cost : ℤ) = gasOfSize new.toNat - gasOfSize old.toNat

/-- Growing from `a` to `b` to `c` costs exactly what it should at each step, no
less for more, and as much as growing from `a` to `c` at once. -/
structure ChargesConsistently (a b c : U64) : Prop where
  first : ChargesExactly a b
  second : ChargesExactly b c
  whole : ChargesExactly a c
  monotone : (memoryExpansionCost a b).value ≤ (memoryExpansionCost a c).value
  additive : (memoryExpansionCost a c).value =
    (memoryExpansionCost a b).value + (memoryExpansionCost b c).value

variable {a b c old new : U64} {bytes words : ℕ}

theorem gMemory_mono {words words' : ℕ} (more : words ≤ words') :
    gMemory words ≤ gMemory words' :=
  Nat.add_le_add (Nat.mul_le_mul_left 3 more)
    (Nat.div_le_div_right (Nat.pow_le_pow_left more 2))

theorem gasOfSize_mono {bytes bytes' : ℕ} (more : bytes ≤ bytes') :
    gasOfSize bytes ≤ gasOfSize bytes' := by
  refine gMemory_mono ?_
  rw [Nat.ceilDiv_eq_add_pred_div, Nat.ceilDiv_eq_add_pred_div]
  exact Nat.div_le_div_right (by omega)

/-! Sizes of fewer than `2 ^ 32` words. -/

/-- The largest size whose count of words squares to a `u64`. -/
def largestSize : ℕ := 2 ^ 37 - 32

theorem memoryWordCount_fits (small : bytes + 31 < u64Size) :
    Checked.Fits (memoryWordCount bytes) (· = bytes ⌈/⌉ 32) := by
  refine (Checked.add_fits small).bind ?_
  rintro _ rfl
  exact Checked.Fits.pure (Nat.ceilDiv_eq_add_pred_div bytes 32).symm

theorem memoryGasCost_fits (small : words < 2 ^ 32) :
    Checked.Fits (memoryGasCost words) (· = gMemory words) := by
  have square : words * words ≤ (2 ^ 32 - 1) * (2 ^ 32 - 1) :=
    Nat.mul_le_mul (Nat.le_sub_one_of_lt small) (Nat.le_sub_one_of_lt small)
  have linearFits : 3 * words < u64Size := by rw [u64Size]; omega
  have squareFits : words * words < u64Size := by rw [u64Size]; omega
  have costFits : 3 * words + words * words / 512 < u64Size := by rw [u64Size]; omega
  refine (Checked.mul_fits linearFits).bind ?_
  rintro _ rfl
  refine (Checked.mul_fits squareFits).bind ?_
  rintro _ rfl
  rw [gMemory, Nat.pow_two]
  exact Checked.add_fits costFits

theorem gMemory_lt (small : words < 2 ^ 32) : gMemory words < u64Size := by
  have square : words ^ 2 ≤ (2 ^ 32) ^ 2 := Nat.pow_le_pow_left small.le 2
  rw [gMemory, u64Size]
  omega

/-- A cost without overflow has few words. -/
theorem lt_of_memoryGasCost_exact (exact : (memoryGasCost words).overflowed = false) :
    words < 2 ^ 32 := by
  obtain ⟨-, rest⟩ := Bool.or_eq_false_iff.1 exact
  obtain ⟨squareExact, -⟩ := Bool.or_eq_false_iff.1 rest
  have square : words * words < u64Size := Checked.lt_of_mul_exact squareExact
  by_contra large
  have product : 2 ^ 32 * 2 ^ 32 ≤ words * words :=
    Nat.mul_le_mul (Nat.not_lt.1 large) (Nat.not_lt.1 large)
  rw [u64Size] at square
  omega

theorem padded_lt (small : bytes ≤ largestSize) : bytes + 31 < u64Size := by
  rw [largestSize] at small
  rw [u64Size]
  omega

theorem words_lt (small : bytes ≤ largestSize) : bytes ⌈/⌉ 32 < 2 ^ 32 := by
  rw [largestSize] at small
  rw [Nat.ceilDiv_eq_add_pred_div]
  omega

theorem memoryExpansionCost_self (size : U64) : memoryExpansionCost size size = pure 0 :=
  if_pos (BitVec.le_refl size)

theorem chargesExactly_self (size : U64) : ChargesExactly size size := by
  rw [ChargesExactly, memoryExpansionCost_self]
  exact Checked.Fits.pure (Int.sub_self _).symm

/-- Growing is charged exactly when the new size has fewer than `2 ^ 32` words. -/
theorem chargesExactly_iff (grows : old < new) :
    ChargesExactly old new ↔ new.toNat ≤ largestSize := by
  have less : old.toNat < new.toNat := grows
  have grow : ¬new ≤ old := BitVec.not_le.2 grows
  rw [ChargesExactly, memoryExpansionCost, if_neg grow]
  constructor
  · intro fits
    obtain ⟨-, afterOld⟩ := Bool.or_eq_false_iff.1 fits.exact
    obtain ⟨newExact, afterNew⟩ := Bool.or_eq_false_iff.1 afterOld
    obtain ⟨paddedExact, -⟩ := Bool.or_eq_false_iff.1 newExact
    obtain ⟨costExact, -⟩ := Bool.or_eq_false_iff.1 afterNew
    have padded : new.toNat + 31 < u64Size := Checked.lt_of_add_exact paddedExact
    rw [(memoryWordCount_fits padded).holds] at costExact
    have few := lt_of_memoryGasCost_exact costExact
    rw [Nat.ceilDiv_eq_add_pred_div] at few
    rw [largestSize]
    omega
  · intro small
    have oldSmall : old.toNat ≤ largestSize := less.le.trans small
    refine (memoryWordCount_fits (padded_lt oldSmall)).bind ?_
    rintro _ rfl
    refine (memoryWordCount_fits (padded_lt small)).bind ?_
    rintro _ rfl
    refine (memoryGasCost_fits (words_lt small)).bind ?_
    rintro _ rfl
    refine (memoryGasCost_fits (words_lt oldSmall)).bind ?_
    rintro _ rfl
    have more : gasOfSize old.toNat ≤ gasOfSize new.toNat := gasOfSize_mono less.le
    refine (Checked.sub_fits more (gMemory_lt (words_lt small))).imp ?_
    rintro _ rfl
    exact Int.ofNat_sub more

theorem ChargesExactly.value_eq (exact : ChargesExactly old new) :
    ((memoryExpansionCost old new).value : ℤ) =
      gasOfSize new.toNat - gasOfSize old.toNat := exact.holds

/-- Costs that are charged exactly grow and add up. -/
theorem chargesConsistently_of_exact (second : b ≤ c) (ab : ChargesExactly a b)
    (bc : ChargesExactly b c) (ac : ChargesExactly a c) : ChargesConsistently a b c := by
  have more : gasOfSize b.toNat ≤ gasOfSize c.toNat := gasOfSize_mono second
  have abValue := ab.value_eq
  have bcValue := bc.value_eq
  have acValue := ac.value_eq
  exact ⟨ab, bc, ac, by omega, by omega⟩

theorem chargesExactly_of_le (noLess : old ≤ new) (small : new.toNat ≤ largestSize) :
    ChargesExactly old new := by
  rcases Nat.eq_or_lt_of_le noLess with same | grows
  · obtain rfl := BitVec.eq_of_toNat_eq same
    exact chargesExactly_self old
  · exact (chargesExactly_iff grows).2 small

/-- Growing by steps is charged consistently exactly when memory does not grow at
all, or to fewer than `2 ^ 32` words. -/
theorem chargesConsistently_iff (a b c : U64) (first : a ≤ b) (second : b ≤ c) :
    ChargesConsistently a b c ↔ a = c ∨ c.toNat ≤ largestSize := by
  constructor
  · intro consistent
    rcases Nat.eq_or_lt_of_le (BitVec.le_trans first second) with same | grows
    · exact Or.inl (BitVec.eq_of_toNat_eq same)
    · exact Or.inr ((chargesExactly_iff grows).1 consistent.whole)
  · rintro (rfl | small)
    · obtain rfl : a = b := BitVec.le_antisymm first second
      exact chargesConsistently_of_exact second (chargesExactly_self a)
        (chargesExactly_self a) (chargesExactly_self a)
    · have middle : b.toNat ≤ largestSize := (show b.toNat ≤ c.toNat from second).trans small
      exact chargesConsistently_of_exact second (chargesExactly_of_le first middle)
        (chargesExactly_of_le second small)
        (chargesExactly_of_le (BitVec.le_trans first second) small)

theorem chargesConsistently_kibibyte :
    ChargesConsistently 0 32 1024 ↔ (0 : U64) = 1024 ∨ (1024 : U64).toNat ≤ largestSize :=
  chargesConsistently_iff 0 32 1024 (by decide) (by decide)

/-- The size of an access at an offset near the top is the largest number, and its
padding overflows. -/
theorem chargesConsistently_saturated :
    requiredMemorySize (BitVec.allOnes 64) 32 = BitVec.allOnes 64 ∧
      ¬ChargesConsistently 0 32 (requiredMemorySize (BitVec.allOnes 64) 32) := by
  have saturated : requiredMemorySize (BitVec.allOnes 64) 32 = BitVec.allOnes 64 := by decide
  refine ⟨saturated, fun consistent => ?_⟩
  rw [saturated] at consistent
  have small : (BitVec.allOnes 64).toNat ≤ largestSize :=
    (chargesExactly_iff (by decide)).1 consistent.whole
  revert small
  decide

end MetaVm.Evm
