import MetaVm.Lib.Numerals

namespace MetaVm

/-! Constraints gated by selector cells, of which a row sets exactly one. -/

namespace SelectorSystem

variable {κ F : Type}

/-- Of the listed cells only `active` is set. -/
structure Sole [DecidableEq κ] [Zero F] [One F] (cells : List κ) (row : κ → F) (active : κ) :
    Prop where
  listed : active ∈ cells
  cell : ∀ other ∈ cells, row other = if other = active then 1 else 0

/-- A constraint on the rows that set `selector`. -/
structure Gated (κ F : Type) where
  selector : κ
  body : (κ → F) → F

section Ring

variable [CommRing F] {cells : List κ} {row : κ → F} {active : κ}

def Gated.eval (constraint : Gated κ F) (row : κ → F) : F :=
  row constraint.selector * constraint.body row

def binary (row : κ → F) (cell : κ) : F := row cell * (row cell - 1)

/-- The gated bodies, a binary constraint for each selector, and one that makes
them sum to one. -/
def values (constraints : List (Gated κ F)) (cells : List κ) (row : κ → F) :
    List F :=
  constraints.map (fun constraint => constraint.eval row) ++
    cells.map (binary row) ++ [(cells.map row).sum - 1]

/-- The bodies that a selector switches on. -/
def activeBodies [DecidableEq κ] (constraints : List (Gated κ F)) (active : κ) :
    List ((κ → F) → F) :=
  (constraints.filter fun constraint => constraint.selector = active).map Gated.body

theorem activeBodies_zero_iff [DecidableEq κ] (constraints : List (Gated κ F)) :
    (∀ body ∈ activeBodies constraints active, body row = 0) ↔
      ∀ constraint ∈ constraints, constraint.selector = active →
        constraint.body row = 0 := by
  simp only [activeBodies, List.forall_mem_map, List.mem_filter, decide_eq_true_eq,
    and_imp]

theorem values_zero_iff (constraints : List (Gated κ F)) :
    (∀ value ∈ values constraints cells row, value = 0) ↔
      (∀ constraint ∈ constraints, constraint.eval row = 0) ∧
        (∀ cell ∈ cells, binary row cell = 0) ∧ (cells.map row).sum = 1 := by
  simp only [values, List.forall_mem_append, List.forall_mem_map,
    List.forall_mem_singleton, and_assoc, sub_eq_zero]

namespace Sole

variable [DecidableEq κ] (sole : Sole cells row active)
include sole

theorem set : row active = 1 := by
  rw [sole.cell active sole.listed, if_pos rfl]

theorem binary_zero {other : κ} (listed : other ∈ cells) : binary row other = 0 := by
  rw [binary, sole.cell other listed]
  split
  · rw [sub_self, mul_zero]
  · rw [zero_mul]

theorem sum_eq (distinct : cells.Nodup) : (cells.map row).sum = 1 := by
  have cellsEq : cells.map row = cells.map fun other => if other = active then 1 else 0 :=
    List.map_congr_left sole.cell
  rw [cellsEq, List.sum_map_ite_eq, List.count_eq_one_of_mem distinct sole.listed]
  simp

theorem eval_zero_iff {constraint : Gated κ F} (listed : constraint.selector ∈ cells) :
    constraint.eval row = 0 ↔
      (constraint.selector = active → constraint.body row = 0) := by
  rw [Gated.eval, sole.cell _ listed]
  by_cases same : constraint.selector = active
  · rw [if_pos same, one_mul]
    exact ⟨fun zero _ => zero, fun zero => zero same⟩
  · rw [if_neg same, zero_mul]
    exact ⟨fun _ here => absurd here same, fun _ => rfl⟩

/-- Such a row satisfies the system with the bodies of its selector alone. -/
theorem values_zero_iff (distinct : cells.Nodup) {constraints : List (Gated κ F)}
    (listed : ∀ constraint ∈ constraints, constraint.selector ∈ cells) :
    (∀ value ∈ values constraints cells row, value = 0) ↔
      ∀ body ∈ activeBodies constraints active, body row = 0 := by
  rw [SelectorSystem.values_zero_iff, activeBodies_zero_iff]
  constructor
  · rintro ⟨zero, -, -⟩ constraint member
    exact (sole.eval_zero_iff (listed constraint member)).1 (zero constraint member)
  · intro zero
    refine ⟨fun constraint member => ?_, fun cell => sole.binary_zero,
      sole.sum_eq distinct⟩
    exact (sole.eval_zero_iff (listed constraint member)).2 (zero constraint member)

end Sole

/-- Binary cells sum up to the number of those that are set. -/
theorem sum_binary [NoZeroDivisors F] (cells : List κ)
    (binaries : ∀ cell ∈ cells, binary row cell = 0) :
    ∃ count ≤ cells.length, (cells.map row).sum = count ∧
      (count = 0 → ∀ cell ∈ cells, row cell = 0) := by
  induction cells with
  | nil => exact ⟨0, le_rfl, by simp, by simp⟩
  | cons cell rest ih =>
      obtain ⟨count, few, total, clear⟩ := ih fun other member =>
        binaries other (.tail _ member)
      rw [List.map_cons, List.sum_cons, total]
      rcases mul_eq_zero.1 (binaries cell (.head _)) with zero | one
      · refine ⟨count, Nat.le_succ_of_le few, by rw [zero, zero_add], fun none => ?_⟩
        exact List.forall_mem_cons.2 ⟨zero, clear none⟩
      · refine ⟨count + 1, Nat.succ_le_succ few, ?_, nofun⟩
        rw [sub_eq_zero.1 one]
        push_cast
        ring

/-- A set cell is the only one where as many ones as there are cells do not sum up
to zero. -/
theorem sole_of_set [DecidableEq κ] [NoZeroDivisors F]
    (large : ∀ count < cells.length, (count : F) = 0 → count = 0)
    (binaries : ∀ cell ∈ cells, binary row cell = 0)
    (sum : (cells.map row).sum = 1) (listed : active ∈ cells)
    (set : row active = 1) : Sole cells row active := by
  have length := List.length_erase_of_mem listed
  have nonempty := List.length_pos_of_mem listed
  obtain ⟨count, few, total, clear⟩ := sum_binary (cells.erase active)
    fun other member => binaries other (List.mem_of_mem_erase member)
  have split := ((List.perm_cons_erase listed).map row).sum_eq
  rw [List.map_cons, List.sum_cons, set, sum, total] at split
  have none : count = 0 := large count (by omega) (by linear_combination -split)
  refine ⟨listed, fun other member => ?_⟩
  split
  · rename_i same
    rw [same, set]
  · rename_i different
    exact clear none other ((List.mem_erase_of_ne different).2 member)

end Ring

end SelectorSystem

end MetaVm
