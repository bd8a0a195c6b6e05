import MetaVm.Lib.Numerals

namespace MetaVm.Walk

open Relation

/-! Walks along a partial function. They end unless they come back to where they were. -/

variable {α : Type*} {next : α → Option α} {a b c : α}

/-- Where a walk is after so many steps, if it is not at an end before. -/
def after (next : α → Option α) : ℕ → α → Option α
  | 0, a => some a
  | k + 1, a => (next a).bind (after next k)

def Step (next : α → Option α) (a b : α) : Prop := next a = some b

/-- A walk that reaches a place from which it comes back to it. -/
def Circular (next : α → Option α) (a : α) : Prop :=
  ∃ b, ReflTransGen (Step next) a b ∧ TransGen (Step next) b b

theorem after_add (j k : ℕ) (a : α) :
    after next (j + k) a = (after next j a).bind (after next k) := by
  induction j generalizing a with
  | zero => rw [Nat.zero_add]; rfl
  | succ j hypothesis =>
      rw [Nat.succ_add, after, after]
      cases step : next a with
      | none => rfl
      | some b => exact hypothesis b

theorem after_succ (k : ℕ) (a : α) : after next (k + 1) a = (after next k a).bind next := by
  rw [after_add]
  congr 1
  funext b
  rw [after]
  cases next b with
  | none => rfl
  | some c => rfl

theorem after_eq_none_of_le {j k : ℕ} (ended : after next j a = none) (later : j ≤ k) :
    after next k a = none := by
  obtain ⟨gap, rfl⟩ := Nat.exists_eq_add_of_le later
  rw [after_add, ended]
  rfl

theorem reflTransGen_iff : ReflTransGen (Step next) a b ↔ ∃ k, after next k a = some b := by
  constructor
  · intro reach
    induction reach with
    | refl => exact ⟨0, rfl⟩
    | tail _ step hypothesis =>
        obtain ⟨k, reached⟩ := hypothesis
        refine ⟨k + 1, ?_⟩
        rw [after_succ, reached]
        exact step
  · rintro ⟨k, reached⟩
    induction k generalizing b with
    | zero =>
        obtain rfl := Option.some.inj reached
        exact .refl
    | succ k hypothesis =>
        rw [after_succ] at reached
        obtain ⟨middle, before, step⟩ := Option.bind_eq_some_iff.1 reached
        exact (hypothesis before).tail step

theorem transGen_of_after {k : ℕ} (reached : after next (k + 1) a = some b) :
    TransGen (Step next) a b := by
  rw [after_succ] at reached
  obtain ⟨middle, before, step⟩ := Option.bind_eq_some_iff.1 reached
  exact TransGen.tail' (reflTransGen_iff.2 ⟨k, before⟩) step

theorem Circular.exists_next (circular : Circular next a) :
    ∃ b, next a = some b ∧ Circular next b := by
  obtain ⟨b, reach, loop⟩ := circular
  rcases ReflTransGen.cases_head reach with rfl | ⟨c, step, rest⟩
  · obtain ⟨c, step, back⟩ := TransGen.head'_iff.1 loop
    exact ⟨c, step, a, back, loop⟩
  · exact ⟨c, step, b, rest, loop⟩

/-- A circular walk has no end. -/
theorem Circular.after_ne_none (circular : Circular next a) (k : ℕ) : after next k a ≠ none := by
  induction k generalizing a with
  | zero => exact Option.some_ne_none a
  | succ k hypothesis =>
      obtain ⟨b, step, rest⟩ := circular.exists_next
      rw [after, step]
      exact hypothesis rest

/-- Any other walk ends, one step after all places at the latest. -/
theorem after_eq_none [DecidableEq α] {places : Finset α}
    (stays : ∀ a b, next a = some b → b ∈ places) (straight : ¬ Circular next a) :
    after next (places.card + 1) a = none := by
  by_contra walking
  have along : ∀ k ≤ places.card + 1, ∃ b, after next k a = some b := by
    intro k early
    obtain ⟨gap, total⟩ := Nat.exists_eq_add_of_le early
    rw [total, after_add] at walking
    exact Option.ne_none_iff_exists'.1 fun ended => walking (by rw [ended]; rfl)
  choose place here using fun k : Fin (places.card + 1) => along (k + 1) (by omega)
  have inside : ∀ k, place k ∈ places := by
    intro k
    have step := here k
    rw [after_succ] at step
    obtain ⟨middle, -, step⟩ := Option.bind_eq_some_iff.1 step
    exact stays middle _ step
  -- Two of the steps must lead to the same place.
  obtain ⟨first, -, second, -, apart, same⟩ := Finset.exists_ne_map_eq_of_card_lt_of_maps_to
    (s := Finset.univ) (by rw [Finset.card_univ, Fintype.card_fin]; exact Nat.lt_succ_self _)
    fun k _ => inside k
  have loops : ∀ first second : Fin (places.card + 1), first < second →
      place first = place second → Circular next a := by
    intro first second before same
    refine ⟨place first, reflTransGen_iff.2 ⟨_, here first⟩, ?_⟩
    obtain ⟨gap, total⟩ := Nat.exists_eq_add_of_lt before
    have later := here second
    have split : (second : ℕ) + 1 = first + 1 + (gap + 1) := by omega
    rw [split, after_add, here first, ← same] at later
    exact transGen_of_after later
  rcases lt_or_gt_of_ne apart with before | behind
  · exact straight (loops first second before same)
  · exact straight (loops second first behind same.symm)

theorem exists_end {k : ℕ} (ended : after next k a = none) :
    ∃ b, ReflTransGen (Step next) a b ∧ next b = none := by
  induction k generalizing a with
  | zero => cases ended
  | succ k hypothesis =>
      cases step : next a with
      | none => exact ⟨a, .refl, step⟩
      | some b =>
          rw [after, step] at ended
          obtain ⟨c, reach, ended⟩ := hypothesis ended
          exact ⟨c, .head step reach, ended⟩

/-- Ends of one walk are the same. -/
theorem end_unique (toB : ReflTransGen (Step next) a b) (endB : next b = none)
    (toC : ReflTransGen (Step next) a c) (endC : next c = none) : b = c := by
  induction toB using ReflTransGen.head_induction_on with
  | refl =>
      rcases ReflTransGen.cases_head toC with rfl | ⟨d, step, -⟩
      · rfl
      · cases endB.symm.trans step
  | head step _ hypothesis =>
      rcases ReflTransGen.cases_head toC with rfl | ⟨d, other, rest⟩
      · cases endC.symm.trans step
      · obtain rfl := Option.some.inj (step.symm.trans other)
        exact hypothesis rest

end MetaVm.Walk
