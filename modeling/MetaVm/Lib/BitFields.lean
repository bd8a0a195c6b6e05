import MetaVm.Lib.Numerals

namespace MetaVm.BitFields

/-! Fields of a word: what stands at a place, and how a word is put together. -/

variable {n width other start position : ℕ}

/-- The field of a word from the bit `start` on. -/
def slice (start width : ℕ) (word : BitVec n) : BitVec width :=
  (word >>> start).setWidth width

/-- A field moved to its place in a word. -/
def place (start : ℕ) (field : BitVec width) : BitVec n := field.setWidth n <<< start

theorem getLsbD_slice (word : BitVec n) (index : ℕ) :
    (slice start width word).getLsbD index =
      (decide (index < width) && word.getLsbD (start + index)) := by
  rw [slice, BitVec.getLsbD_setWidth, BitVec.getLsbD_ushiftRight]

theorem getLsbD_place (field : BitVec width) (index : ℕ) :
    (place start field : BitVec n).getLsbD index =
      (decide (index < n) && decide (start ≤ index) && field.getLsbD (index - start)) := by
  rw [place, BitVec.getLsbD_shiftLeft, BitVec.getLsbD_setWidth]
  by_cases inWord : index < n
  · by_cases above : start ≤ index
    · have below : index - start < n := by omega
      simp [inWord, above, below]
    · simp [above, Nat.lt_of_not_le above]
  · simp [inWord]

@[simp]
theorem slice_or (left right : BitVec n) :
    slice start width (left ||| right) = slice start width left ||| slice start width right := by
  simp [slice, BitVec.ushiftRight_or_distrib]

theorem slice_and (left right : BitVec n) :
    slice start width (left &&& right) = slice start width left &&& slice start width right := by
  simp [slice, BitVec.ushiftRight_and_distrib]

/-- A field is read where it was placed. -/
@[simp]
theorem slice_place (field : BitVec width) (fits : start + width ≤ n) :
    slice start width (place start field : BitVec n) = field := by
  apply BitVec.eq_of_getLsbD_eq
  intro index bounded
  have inWord : start + index < n := by omega
  rw [getLsbD_slice, getLsbD_place, decide_eq_true bounded, decide_eq_true inWord,
    decide_eq_true (Nat.le_add_right start index), Nat.add_sub_cancel_left]
  rfl

/-- A field does not show at another place. -/
@[simp]
theorem slice_place_of_apart (field : BitVec other)
    (apart : start + width ≤ position ∨ position + other ≤ start) :
    slice start width (place position field : BitVec n) =
      BitVec.ofNat width 0 := by
  apply BitVec.eq_of_getLsbD_eq
  intro index bounded
  rw [getLsbD_slice, getLsbD_place, BitVec.getLsbD_zero]
  rcases apart with below | above
  · have early : ¬ position ≤ start + index := by omega
    simp [early]
  · have beyond : other ≤ start + index - position := by omega
    simp [BitVec.getLsbD_of_ge _ _ beyond]

/-- A slice of a whole word narrows it. -/
theorem slice_zero (word : BitVec n) : slice 0 width word = word.setWidth width := by
  rw [slice, BitVec.ushiftRight_zero]

/-- Neighbouring fields make one field. -/
theorem slice_append_slice (start low high : ℕ) (word : BitVec n) :
    slice (start + low) high word ++ slice start low word = slice start (high + low) word := by
  apply BitVec.eq_of_getLsbD_eq
  intro index bounded
  rw [BitVec.getLsbD_append, getLsbD_slice, getLsbD_slice, getLsbD_slice,
    decide_eq_true bounded]
  split
  · rename_i inLow
    rw [decide_eq_true inLow]
  · have above : index - low < high := by omega
    have same : start + low + (index - low) = start + index := by omega
    rw [decide_eq_true above, same]

/-- A field put back where it was read. -/
theorem getLsbD_place_slice (word : BitVec n) (index : ℕ) :
    (place start (slice start width word) : BitVec n).getLsbD index =
      (decide (start ≤ index ∧ index < start + width) && word.getLsbD index) := by
  rw [getLsbD_place, getLsbD_slice]
  by_cases inWord : index < n
  · by_cases above : start ≤ index
    · have whole : start + (index - start) = index := Nat.add_sub_of_le above
      have inside : index - start < width ↔ index < start + width := by omega
      simp only [inWord, above, whole, inside, decide_true, Bool.true_and, true_and]
    · simp [above]
  · simp [inWord, BitVec.getLsbD_of_ge word index (Nat.le_of_not_lt inWord)]

theorem slice_append_low {high low : ℕ} (upper : BitVec high) (lower : BitVec low)
    (inside : start + width ≤ low) :
    slice start width (upper ++ lower) = slice start width lower := by
  apply BitVec.eq_of_getLsbD_eq
  intro index bounded
  have inLow : start + index < low := by omega
  rw [getLsbD_slice, getLsbD_slice, BitVec.getLsbD_append, if_pos inLow]

theorem slice_append_high {high low : ℕ} (upper : BitVec high) (lower : BitVec low)
    (above : low ≤ start) :
    slice start width (upper ++ lower) = slice (start - low) width upper := by
  apply BitVec.eq_of_getLsbD_eq
  intro index bounded
  have outLow : ¬ start + index < low := by omega
  have shifted : start + index - low = start - low + index := by omega
  rw [getLsbD_slice, getLsbD_slice, BitVec.getLsbD_append, if_neg outLow, shifted]

/-- Sign extension leaves the field itself alone. -/
theorem slice_signExtend (word : BitVec n) (inside : start + width ≤ n) (wide : n ≤ other) :
    slice start width (word.signExtend other) = slice start width word := by
  apply BitVec.eq_of_getLsbD_eq
  intro index bounded
  have inField : start + index < n := by omega
  have inWord : start + index < other := by omega
  rw [getLsbD_slice, getLsbD_slice, BitVec.getLsbD_signExtend, decide_eq_true inWord,
    if_pos inField, Bool.true_and]

/-- A slice of a whole word is the word. -/
theorem slice_self (word : BitVec n) : slice 0 n word = word := by
  rw [slice_zero, BitVec.setWidth_eq]

end MetaVm.BitFields
