import MetaVm.Lib.SwapOrNot
import MetaVm.Zkp.Proof

namespace MetaVm.Zkp

open Framing

/-! The beacon chain's shuffle: one swap-or-not step a round, 90 rounds. -/

namespace Shuffle

structure ShuffleIterationRow where
  indexIn : BitVec 64
  listSize : BitVec 64
  pivot : BitVec 64
  roundByte : Byte
  flip : BitVec 64
  flipQ : BitVec 64
  position : BitVec 64
  maxIsFlip : Bool
  positionDiv256 : BitVec 64
  byteIdx : Byte
  bitIdx : Byte
  byteVal : Byte
  bitVal : Bool
  indexOut : BitVec 64
  seed : Hash32
  source : Hash32

structure ShuffleIterationWitness where
  rows : List ShuffleIterationRow

structure Shuffle90Row where
  roundIndex : Byte
  currentIndex : BitVec 64
  newIndex : BitVec 64
  listSize : BitVec 64
  seed : Hash32

structure Shuffle90RoundWitness where
  rows : List Shuffle90Row
  finalIndex : BitVec 64

def shuffleRoundCount : ℕ := 90

section Builders

variable (sha256 : List Byte → Hash32) (listSize : BitVec 64) (seed : Hash32)

def pivotOf (roundByte : Byte) : BitVec 64 :=
  let pivotHash := sha256 (seed.1 ++ [roundByte])
  BitVec.ofNat 64 (fromLittleEndian (pivotHash.1.take 8)) % listSize

/-- Four bytes of the quotient go into the hash. -/
def sourceOf (roundByte : Byte) (position : BitVec 64) : Hash32 :=
  let positionDiv256 := position / 256
  sha256 (seed.1 ++ [roundByte] ++ littleEndian 4 (positionDiv256.setWidth 32).toNat)

def iterationRow (index : BitVec 64) (roundByte : Byte) : ShuffleIterationRow :=
  let pivot := pivotOf sha256 listSize seed roundByte
  let raw := pivot + listSize - index
  let flip := raw % listSize
  let maxIsFlip : Bool := index < flip
  let position := if maxIsFlip then flip else index
  let source := sourceOf sha256 seed roundByte position
  let byteIdx : Byte := (position % 256 / 8).setWidth 8
  let bitIdx : Byte := (position % 8).setWidth 8
  let byteVal := source.1.getD byteIdx.toNat 0
  let bitVal : Bool := (byteVal >>> bitIdx) &&& 1 = 1
  { indexIn := index
    listSize
    pivot
    roundByte
    flip
    flipQ := raw / listSize
    position
    maxIsFlip
    positionDiv256 := position / 256
    byteIdx
    bitIdx
    byteVal
    bitVal
    indexOut := if bitVal then flip else index
    seed
    source }

/-- One iteration. A size of zero, or an index outside, panics. -/
def fromIteration (index : BitVec 64) (roundByte : Byte) : Option ShuffleIterationWitness :=
  if listSize = 0 ∨ ¬ index < listSize then none
  else some ⟨[iterationRow sha256 listSize seed index roundByte]⟩

/-- One round of the walk, on the index so far and the rows behind it. -/
def walkRound (state : BitVec 64 × List Shuffle90Row) (round : ℕ) :
    Option (BitVec 64 × List Shuffle90Row) := do
  let roundByte : Byte := BitVec.ofNat 8 round
  let witness ← fromIteration sha256 listSize seed state.1 roundByte
  let row ← witness.rows.head?
  let newIndex := row.indexOut
  pure (newIndex, state.2 ++ [⟨roundByte, state.1, newIndex, listSize, seed⟩])

def fromFullShuffle (initialIndex : BitVec 64) : Option Shuffle90RoundWitness := do
  if listSize = 0 ∨ ¬ initialIndex < listSize then none
  let walked ← (List.range shuffleRoundCount).foldlM (walkRound sha256 listSize seed)
    (initialIndex, [])
  pure ⟨walked.2, walked.1⟩

end Builders

/-! A round of the code is a round of swapping or not. -/

section Rounds

variable {sha256 : List Byte → Hash32} {listSize : BitVec 64} {seed : Hash32}
  {index : BitVec 64} {roundByte : Byte}

/-- The bit of the source that a position reads. -/
def sourceBit (sha256 : List Byte → Hash32) (seed : Hash32) (roundByte : Byte) (position : ℕ) :
    Bool :=
  let position := BitVec.ofNat 64 position
  let source := sourceOf sha256 seed roundByte position
  let byteVal := source.1.getD ((position % 256 / 8).setWidth 8 : Byte).toNat 0
  (byteVal >>> ((position % 8).setWidth 8 : Byte)) &&& 1 = 1

theorem pivotOf_lt (positive : 1 ≤ listSize) :
    pivotOf sha256 listSize seed roundByte < listSize := by
  apply BitVec.umod_lt
  rw [BitVec.lt_def]
  exact positive

theorem raw_toNat (positive : 1 ≤ listSize) (small : listSize.toNat < 2 ^ 63)
    (inside : index < listSize) :
    (pivotOf sha256 listSize seed roundByte + listSize - index).toNat =
      (pivotOf sha256 listSize seed roundByte).toNat + listSize.toNat - index.toNat := by
  have below : (pivotOf sha256 listSize seed roundByte).toNat < listSize.toNat :=
    pivotOf_lt positive
  have less : index.toNat < listSize.toNat := inside
  rw [BitVec.toNat_sub, BitVec.toNat_add]
  omega

theorem flip_toNat (positive : 1 ≤ listSize) (small : listSize.toNat < 2 ^ 63)
    (inside : index < listSize) :
    (iterationRow sha256 listSize seed index roundByte).flip.toNat =
      SwapOrNot.flip listSize.toNat (pivotOf sha256 listSize seed roundByte).toNat
        index.toNat := by
  rw [SwapOrNot.flip, ← raw_toNat positive small inside]
  exact BitVec.toNat_umod

theorem position_toNat :
    (iterationRow sha256 listSize seed index roundByte).position.toNat =
      max index.toNat (iterationRow sha256 listSize seed index roundByte).flip.toNat := by
  simp only [iterationRow, decide_eq_true_eq]
  split
  · rename_i above
    exact (max_eq_right (Nat.le_of_lt above)).symm
  · rename_i below
    exact (max_eq_left (Nat.le_of_not_lt below)).symm

theorem bitVal_eq :
    (iterationRow sha256 listSize seed index roundByte).bitVal =
      sourceBit sha256 seed roundByte
        (iterationRow sha256 listSize seed index roundByte).position.toNat := by
  rw [sourceBit, BitVec.ofNat_toNat, BitVec.setWidth_eq]
  rfl

theorem indexOut_toNat (positive : 1 ≤ listSize) (small : listSize.toNat < 2 ^ 63)
    (inside : index < listSize) :
    (iterationRow sha256 listSize seed index roundByte).indexOut.toNat =
      SwapOrNot.round listSize.toNat (pivotOf sha256 listSize seed roundByte).toNat
        (sourceBit sha256 seed roundByte) index.toNat := by
  rw [SwapOrNot.round, ← flip_toNat positive small inside, ← position_toNat, ← bitVal_eq]
  have chosen : (iterationRow sha256 listSize seed index roundByte).indexOut =
      if (iterationRow sha256 listSize seed index roundByte).bitVal then
        (iterationRow sha256 listSize seed index roundByte).flip else index := rfl
  rw [chosen]
  exact apply_ite BitVec.toNat _ _ _

/-- The quotient of the flip is zero or one. -/
theorem flip_identity (positive : 1 ≤ listSize) (small : listSize.toNat < 2 ^ 63)
    (inside : index < listSize) {row : ShuffleIterationRow}
    (built : row = iterationRow sha256 listSize seed index roundByte) :
    (row.pivot.toNat + listSize.toNat - index.toNat : ℤ) =
        listSize.toNat * row.flipQ.toNat + row.flip.toNat ∧
      row.flip < listSize ∧ (row.flipQ = 0 ∨ row.flipQ = 1) := by
  have pivot : (pivotOf sha256 listSize seed roundByte).toNat < listSize.toNat :=
    pivotOf_lt positive
  have less : index.toNat < listSize.toNat := inside
  have raw := @raw_toNat sha256 listSize seed index roundByte positive small inside
  set sum := pivotOf sha256 listSize seed roundByte + listSize - index with sumIs
  have quotient : row.flipQ.toNat = sum.toNat / listSize.toNat := by
    rw [built, iterationRow, sumIs, BitVec.toNat_udiv]
  have remainder : row.flip.toNat = sum.toNat % listSize.toNat := by
    rw [built, iterationRow, sumIs, BitVec.toNat_umod]
  have pivotIs : row.pivot.toNat = (pivotOf sha256 listSize seed roundByte).toNat := by
    rw [built, iterationRow]
  have few : row.flipQ.toNat < 2 := by
    rw [quotient, Nat.div_lt_iff_lt_mul (Nat.zero_lt_of_lt less), raw]
    omega
  refine ⟨?_, ?_, ?_⟩
  · have whole := Nat.div_add_mod sum.toNat listSize.toNat
    rw [← quotient, ← remainder, raw] at whole
    rw [pivotIs]
    zify [show index.toNat ≤ (pivotOf sha256 listSize seed roundByte).toNat + listSize.toNat by
      omega] at whole
    exact whole.symm
  · rw [BitVec.lt_def, remainder]
    exact Nat.mod_lt _ (Nat.zero_lt_of_lt less)
  · rcases Nat.lt_succ_iff_lt_or_eq.1 few with zero | one
    · exact .inl (BitVec.eq_of_toNat_eq (Nat.lt_one_iff.1 zero))
    · exact .inr (BitVec.eq_of_toNat_eq one)

theorem fromIteration_eq_some (positive : 1 ≤ listSize) (inside : index < listSize) :
    fromIteration sha256 listSize seed index roundByte =
      some ⟨[iterationRow sha256 listSize seed index roundByte]⟩ := by
  have some : ¬ (listSize = 0 ∨ ¬ index < listSize) := by
    rintro (zero | outside)
    · subst zero
      exact absurd positive (by decide)
    · exact outside inside
  exact if_neg some

/-! A round is a bijection of the indices, and so are 90 of them. -/

/-- The indices of a list. -/
def indices (listSize : BitVec 64) : Set (BitVec 64) := { index | index < listSize }

/-- The index behind a round. -/
def nextIndex (sha256 : List Byte → Hash32) (listSize : BitVec 64) (seed : Hash32) (round : ℕ)
    (index : BitVec 64) : BitVec 64 :=
  (iterationRow sha256 listSize seed index (BitVec.ofNat 8 round)).indexOut

theorem indexOut_lt (positive : 1 ≤ listSize) (small : listSize.toNat < 2 ^ 63)
    (inside : index < listSize) :
    (iterationRow sha256 listSize seed index roundByte).indexOut < listSize := by
  rw [BitVec.lt_def, indexOut_toNat positive small inside]
  exact SwapOrNot.round_lt inside

theorem indexOut_indexOut (positive : 1 ≤ listSize) (small : listSize.toNat < 2 ^ 63)
    (inside : index < listSize) :
    (iterationRow sha256 listSize seed
      (iterationRow sha256 listSize seed index roundByte).indexOut roundByte).indexOut = index := by
  apply BitVec.eq_of_toNat_eq
  rw [indexOut_toNat positive small (indexOut_lt positive small inside),
    indexOut_toNat positive small inside]
  exact SwapOrNot.round_round (pivotOf_lt positive) inside

theorem bijOn_nextIndex (positive : 1 ≤ listSize) (small : listSize.toNat < 2 ^ 63) (round : ℕ) :
    Set.BijOn (nextIndex sha256 listSize seed round) (indices listSize) (indices listSize) := by
  apply SwapOrNot.bijOn_of_involution
  · exact fun _ inside => indexOut_lt positive small inside
  · exact fun _ inside => indexOut_indexOut positive small inside

/-- The walk does not panic, and its index is that of the rounds one after the other. -/
theorem walk_eq (positive : 1 ≤ listSize) (small : listSize.toNat < 2 ^ 63)
    (rounds : List ℕ) (inside : index < listSize) (rows : List Shuffle90Row) :
    ∃ walked, rounds.foldlM (walkRound sha256 listSize seed) (index, rows) =
      some (rounds.foldl (fun current round => nextIndex sha256 listSize seed round current) index,
        walked) := by
  induction rounds generalizing index rows with
  | nil => exact ⟨rows, rfl⟩
  | cons round rounds hypothesis =>
      have step : walkRound sha256 listSize seed (index, rows) round =
          some (nextIndex sha256 listSize seed round index,
            rows ++ [⟨BitVec.ofNat 8 round, index, nextIndex sha256 listSize seed round index,
              listSize, seed⟩]) := by
        rw [walkRound, fromIteration_eq_some positive inside]
        rfl
      rw [List.foldlM_cons, step]
      exact hypothesis (indexOut_lt positive small inside) _

/-- Where an index ends up. -/
def shuffled (sha256 : List Byte → Hash32) (listSize : BitVec 64) (seed : Hash32)
    (index : BitVec 64) : BitVec 64 :=
  (List.range shuffleRoundCount).foldl
    (fun current round => nextIndex sha256 listSize seed round current) index

theorem finalIndex_fromFullShuffle (positive : 1 ≤ listSize) (small : listSize.toNat < 2 ^ 63)
    (inside : index < listSize) :
    (fromFullShuffle sha256 listSize seed index).map Shuffle90RoundWitness.finalIndex =
      some (shuffled sha256 listSize seed index) := by
  have some : ¬ (listSize = 0 ∨ ¬ index < listSize) := by
    rintro (zero | outside)
    · subst zero
      exact absurd positive (by decide)
    · exact outside inside
  obtain ⟨walked, same⟩ := @walk_eq sha256 listSize seed index positive small
    (List.range shuffleRoundCount) inside []
  rw [fromFullShuffle, if_neg some, same]
  rfl

/-- A round keeps the indices, undoes itself and splits its sum, and the whole shuffle is a
bijection, whatever the hash. -/
theorem shuffle_permutes (sha256 : List Byte → Hash32) (listSize : BitVec 64) (seed : Hash32)
    (positive : 1 ≤ listSize) (small : listSize.toNat < 2 ^ 63) :
    (∀ roundByte index, index < listSize → ∃ row back,
      fromIteration sha256 listSize seed index roundByte = some ⟨[row]⟩ ∧
        row.indexOut < listSize ∧
        fromIteration sha256 listSize seed row.indexOut roundByte = some ⟨[back]⟩ ∧
        back.indexOut = index ∧
        (row.pivot.toNat + listSize.toNat - index.toNat : ℤ) =
          listSize.toNat * row.flipQ.toNat + row.flip.toNat ∧
        row.flip < listSize ∧ (row.flipQ = 0 ∨ row.flipQ = 1)) ∧
      ∃ final : BitVec 64 → BitVec 64,
        (∀ index, index < listSize →
          (fromFullShuffle sha256 listSize seed index).map Shuffle90RoundWitness.finalIndex =
            some (final index)) ∧
        Set.BijOn final (indices listSize) (indices listSize) := by
  constructor
  · intro roundByte index inside
    have stays := @indexOut_lt sha256 listSize seed index roundByte positive small inside
    exact ⟨_, _, fromIteration_eq_some positive inside, stays,
      fromIteration_eq_some positive stays, indexOut_indexOut positive small inside,
      flip_identity positive small inside rfl⟩
  · refine ⟨shuffled sha256 listSize seed, ?_, ?_⟩
    · exact fun index inside => finalIndex_fromFullShuffle positive small inside
    · exact SwapOrNot.bijOn_foldl fun round _ => bijOn_nextIndex positive small round

theorem shuffle_permutes_three :
    (∀ roundByte index, index < (3 : BitVec 64) → ∃ row back,
      fromIteration (fun _ => ⟨List.replicate 32 1, rfl⟩) 3 ⟨List.replicate 32 0, rfl⟩ index
          roundByte = some ⟨[row]⟩ ∧
        row.indexOut < 3 ∧
        fromIteration (fun _ => ⟨List.replicate 32 1, rfl⟩) 3 ⟨List.replicate 32 0, rfl⟩
          row.indexOut roundByte = some ⟨[back]⟩ ∧
        back.indexOut = index ∧
        (row.pivot.toNat + (3 : BitVec 64).toNat - index.toNat : ℤ) =
          (3 : BitVec 64).toNat * row.flipQ.toNat + row.flip.toNat ∧
        row.flip < 3 ∧ (row.flipQ = 0 ∨ row.flipQ = 1)) ∧
      ∃ final : BitVec 64 → BitVec 64,
        (∀ index, index < 3 →
          (fromFullShuffle (fun _ => ⟨List.replicate 32 1, rfl⟩) 3 ⟨List.replicate 32 0, rfl⟩
            index).map Shuffle90RoundWitness.finalIndex = some (final index)) ∧
        Set.BijOn final (indices 3) (indices 3) :=
  shuffle_permutes _ 3 _ (by decide) (by decide)

end Rounds

end Shuffle

end MetaVm.Zkp
