import MetaVm.Lib.Numerals

namespace MetaVm.SwapOrNot

/-! Rounds that swap a number with its mirror image at a pivot, or leave both. -/

section Round

variable {n pivot i : ℕ} {swaps : ℕ → Bool}

/-- The mirror image of a number below `n`. -/
def flip (n pivot i : ℕ) : ℕ := (pivot + n - i) % n

/-- Both numbers of a pair ask the larger one whether to swap. -/
def round (n pivot : ℕ) (swaps : ℕ → Bool) (i : ℕ) : ℕ :=
  if swaps (max i (flip n pivot i)) then flip n pivot i else i

theorem flip_lt (inside : i < n) : flip n pivot i < n := Nat.mod_lt _ (Nat.zero_lt_of_lt inside)

theorem flip_eq (below : pivot < n) (inside : i < n) :
    flip n pivot i = if i ≤ pivot then pivot - i else pivot + n - i := by
  unfold flip
  split
  · rename_i behind
    rw [show pivot + n - i = pivot - i + n by omega, Nat.add_mod_right]
    exact Nat.mod_eq_of_lt (by omega)
  · exact Nat.mod_eq_of_lt (by omega)

theorem flip_flip (below : pivot < n) (inside : i < n) : flip n pivot (flip n pivot i) = i := by
  rw [flip_eq below (flip_lt inside), flip_eq below inside]
  by_cases behind : i ≤ pivot
  · rw [if_pos behind, if_pos (Nat.sub_le pivot i)]
    omega
  · rw [if_neg behind, if_neg (by omega)]
    omega

theorem round_lt (inside : i < n) : round n pivot swaps i < n := by
  rw [round]
  split
  · exact flip_lt inside
  · exact inside

theorem round_round (below : pivot < n) (inside : i < n) :
    round n pivot swaps (round n pivot swaps i) = i := by
  unfold round
  by_cases swap : swaps (max i (flip n pivot i)) = true
  · rw [if_pos swap, flip_flip below inside, max_comm, if_pos swap]
  · rw [if_neg swap, if_neg swap]

end Round

/-! Runs of rounds. -/

variable {α β : Type*} {s : Set α}

theorem bijOn_of_involution {swap : α → α} (stays : Set.MapsTo swap s s)
    (back : Set.LeftInvOn swap swap s) : Set.BijOn swap s s :=
  Set.InvOn.bijOn ⟨back, back⟩ stays stays

/-- Bijections, one after the other. -/
theorem bijOn_foldl {step : β → α → α} {rounds : List β}
    (each : ∀ round ∈ rounds, Set.BijOn (step round) s s) :
    Set.BijOn (fun start => rounds.foldl (fun value round => step round value) start) s s := by
  induction rounds with
  | nil => exact Set.bijOn_id s
  | cons round rounds hypothesis =>
      have first := each round List.mem_cons_self
      have rest := hypothesis fun later inside => each later (List.mem_cons_of_mem round inside)
      exact rest.comp first

end MetaVm.SwapOrNot
