import MetaVm.Lib.Numerals

namespace MetaVm.CasperFfg

/-! Justified and finalized epochs of a run that has one target for each epoch. -/

/-- The votes of a run, by their target epoch: all those that count name one
source, which is the start or was justified before. -/
structure History (Root : Type) where
  target : ℕ → Root
  source : ℕ → ℕ
  justified : ℕ → Prop
  source_lt : ∀ {epoch}, justified epoch → 0 < epoch → source epoch < epoch
  source_justified : ∀ {epoch}, justified epoch → source epoch = 0 ∨ justified (source epoch)

variable {Root : Type}

/-- A justified epoch is the source of the next one, or of the one after when the
next one is justified too. -/
structure History.Finalized (run : History Root) (epoch : ℕ) : Prop where
  justified : run.justified epoch
  link : ∃ span, (span = 1 ∨ span = 2 ∧ run.justified (epoch + 1)) ∧
    run.justified (epoch + span) ∧ run.source (epoch + span) = epoch

/-- No voter may vote for an epoch of one run and for an epoch of the other. -/
def Conflict (first second : History Root) (i j : ℕ) : Prop :=
  (i = j ∧ (first.target i ≠ second.target j ∨ first.source i ≠ second.source j)) ∨
    (second.source j < first.source i ∧ i < j)

/-- Justified epochs of two runs conflict, where one run finalizes an epoch whose
target the other one does not have. -/
theorem History.Finalized.exists_conflict {first second : History Root} {epoch later : ℕ}
    (final : first.Finalized epoch) (positive : 0 < epoch) (justified : second.justified later)
    (after : epoch ≤ later) (differ : first.target epoch ≠ second.target epoch)
    (tree : first.target (epoch + 1) = second.target (epoch + 1) →
      first.target epoch = second.target epoch) :
    ∃ i j, first.justified i ∧ second.justified j ∧ Conflict first second i j := by
  obtain ⟨own, span, spanCases, linked, source⟩ := final
  -- follow the sources of the second run down to the first one below the epoch
  induction later using Nat.strong_induction_on with
  | h later hypothesis =>
      have laterPositive : 0 < later := Nat.lt_of_lt_of_le positive after
      by_cases above : epoch ≤ second.source later
      · rcases second.source_justified justified with zero | earlier
        · omega
        · exact hypothesis _ (second.source_lt justified laterPositive) earlier above
      rw [Nat.not_le] at above
      rcases Nat.lt_or_ge (epoch + span) later with beyond | within
      · refine ⟨epoch + span, later, linked, justified, Or.inr ⟨?_, beyond⟩⟩
        rw [source]
        exact above
      · rcases Nat.eq_or_lt_of_le after with rfl | past
        · exact ⟨epoch, epoch, own, justified, Or.inl ⟨rfl, Or.inl differ⟩⟩
        · by_cases last : later = epoch + span
          · subst last
            refine ⟨epoch + span, epoch + span, linked, justified, Or.inl ⟨rfl, Or.inr ?_⟩⟩
            rw [source]
            exact Nat.ne_of_gt above
          · have between : span = 2 ∧ later = epoch + 1 := by
              rcases spanCases with one | ⟨two, -⟩ <;> omega
            obtain ⟨rfl, rfl⟩ := between
            have middle : first.justified (epoch + 1) := by
              rcases spanCases with one | ⟨-, middle⟩
              · omega
              · exact middle
            exact ⟨epoch + 1, epoch + 1, middle, justified,
              Or.inl ⟨rfl, Or.inl (differ ∘ tree)⟩⟩

end MetaVm.CasperFfg
