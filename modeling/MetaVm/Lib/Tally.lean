import MetaVm.Lib.Numerals

namespace MetaVm.Quorum

/-! Voters with weights. Two sets of two thirds share a third. -/

variable {ι : Type} [DecidableEq ι] (weight : ι → ℕ)

/-- The weight of a set of voters. -/
def stake (voters : Finset ι) : ℕ := ∑ i ∈ voters, weight i

variable {weight} {everyone first second : Finset ι}

omit [DecidableEq ι] in
theorem stake_mono (inside : first ⊆ second) : stake weight first ≤ stake weight second :=
  Finset.sum_le_sum_of_subset inside

theorem stake_union_add_inter :
    stake weight (first ∪ second) + stake weight (first ∩ second) =
      stake weight first + stake weight second :=
  Finset.sum_union_inter

variable (weight everyone) in
/-- Voters who hold two thirds of the stake. -/
structure IsSupermajority (voters : Finset ι) : Prop where
  known : voters ⊆ everyone
  twoThirds : 2 * stake weight everyone ≤ 3 * stake weight voters

theorem IsSupermajority.inter (firstVotes : IsSupermajority weight everyone first)
    (secondVotes : IsSupermajority weight everyone second) :
    stake weight everyone ≤ 3 * stake weight (first ∩ second) := by
  have union : stake weight (first ∪ second) ≤ stake weight everyone :=
    stake_mono (Finset.union_subset firstVotes.known secondVotes.known)
  have both := @stake_union_add_inter ι _ weight first second
  have firstShare := firstVotes.twoThirds
  have secondShare := secondVotes.twoThirds
  omega

end MetaVm.Quorum

namespace MetaVm

/-! Sums over the entries of a list, each index counted once, that stop at a
limit. -/

structure Tally where
  seen : List Bool
  total : ℕ
deriving DecidableEq

namespace Tally

variable (weights : List ℕ) (limit : ℕ)

def start : Tally := ⟨List.replicate weights.length false, 0⟩

/-- Count an index, unless it is out of range or was seen before. -/
def count (tally : Tally) (i : ℕ) : Tally :=
  if weights.length ≤ i ∨ tally.seen.getD i false then tally
  else ⟨tally.seen.set i true, min (tally.total + weights.getD i 0) limit⟩

/-- The indices in range that a list names. -/
def named (indices : List ℕ) : Finset ℕ :=
  (Finset.range weights.length).filter (· ∈ indices)

/-- The tally stands for a set of indices. -/
structure Of (voters : Finset ℕ) (tally : Tally) : Prop where
  inside : voters ⊆ Finset.range weights.length
  length : tally.seen.length = weights.length
  seen : ∀ i, tally.seen.getD i false = true ↔ i ∈ voters
  total : tally.total = min (∑ i ∈ voters, weights.getD i 0) limit

variable {weights limit}

theorem start_of : Of weights limit ∅ (start weights) where
  inside := Finset.empty_subset _
  length := List.length_replicate
  seen := by
    intro i
    have unseen : (List.replicate weights.length false).getD i false = false := by
      rw [List.getD_eq_getElem?_getD, List.getElem?_replicate]
      split <;> rfl
    rw [start, unseen]
    simp
  total := (Nat.zero_min limit).symm

variable {voters : Finset ℕ} {tally : Tally}

theorem count_of (spec : Of weights limit voters tally) (i : ℕ) :
    Of weights limit (voters ∪ named weights [i]) (count weights limit tally i) := by
  rw [count]
  split
  · rename_i known
    have same : voters ∪ named weights [i] = voters := by
      rw [Finset.union_eq_left]
      intro j member
      rw [named, Finset.mem_filter, Finset.mem_range, List.mem_singleton] at member
      obtain ⟨inside, rfl⟩ := member
      exact (spec.seen j).1 (known.resolve_left (Nat.not_le.2 inside))
    rw [same]
    exact spec
  · rename_i fresh
    rw [not_or, Nat.not_le] at fresh
    obtain ⟨inside, unseen⟩ := fresh
    have outside : i ∉ voters := unseen ∘ (spec.seen i).2
    have one : named weights [i] = {i} := by
      ext j
      rw [named, Finset.mem_filter, Finset.mem_range, List.mem_singleton, Finset.mem_singleton]
      exact ⟨And.right, fun same => ⟨same ▸ inside, same⟩⟩
    rw [one]
    refine ⟨?_, ?_, fun j => ?_, ?_⟩
    · exact Finset.union_subset spec.inside
        (Finset.singleton_subset_iff.2 (Finset.mem_range.2 inside))
    · rw [List.length_set, spec.length]
    · rw [List.getD_eq_getElem?_getD, List.getElem?_set, spec.length, Finset.mem_union,
        Finset.mem_singleton, ← spec.seen j, List.getD_eq_getElem?_getD]
      by_cases here : i = j
      · subst here
        simp [inside]
      · simp [here, Ne.symm here]
    · rw [Finset.sum_union (Finset.disjoint_singleton_right.2 outside), Finset.sum_singleton,
        spec.total]
      show min (min _ limit + _) limit = min _ limit
      omega

/-- A list of indices is counted as the set of those in range. -/
theorem foldl_count_of (indices : List ℕ) (spec : Of weights limit voters tally) :
    Of weights limit (voters ∪ named weights indices)
      (indices.foldl (count weights limit) tally) := by
  induction indices generalizing voters tally with
  | nil =>
      have none : named weights [] = ∅ := by
        rw [named, Finset.filter_eq_empty_iff]
        exact fun _ _ => List.not_mem_nil
      rw [none, Finset.union_empty]
      exact spec
  | cons i rest hypothesis =>
      have both : voters ∪ named weights (i :: rest) =
          voters ∪ named weights [i] ∪ named weights rest := by
        rw [Finset.union_assoc, named, named, named, ← Finset.filter_or]
        simp only [List.mem_cons, List.not_mem_nil, or_false]
      rw [both]
      exact hypothesis (count_of spec i)

/-- The total of the indices that a list names. -/
theorem total_foldl_count (indices : List ℕ) :
    (indices.foldl (count weights limit) (start weights)).total =
      min (∑ i ∈ named weights indices, weights.getD i 0) limit := by
  have counted := (foldl_count_of indices (@start_of weights limit)).total
  rwa [Finset.empty_union] at counted

end Tally

end MetaVm
