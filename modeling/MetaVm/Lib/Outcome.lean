import MetaVm.Lib.Numerals

namespace MetaVm

variable {α β γ : Type}

/-! Computations that may fail. `Returns guard m post` says that every value
`m` returns satisfies `post`, and that `m` does return when `guard` holds. -/

structure Returns (guard : Prop) (m : Option α) (post : α → Prop) : Prop where
  sound : ∀ value, m = some value → post value
  total : guard → m.isSome

namespace Returns

variable {guard : Prop} {post : α → Prop}

theorem pure {value : α} (holds : post value) :
    Returns guard (Pure.pure value) post where
  sound := by
    rintro _ ⟨⟩
    exact holds
  total := fun _ => rfl

theorem bind {m : Option α} {next : α → Option β} {result : β → Prop}
    (first : Returns guard m post)
    (second : ∀ value, post value → Returns guard (next value) result) :
    Returns guard (m >>= next) result where
  sound := by
    intro value done
    obtain ⟨middle, middleEq, doneEq⟩ := Option.bind_eq_some_iff.1 done
    exact (second middle (first.sound middle middleEq)).sound value doneEq
  total := by
    intro holds
    obtain ⟨middle, middleEq⟩ := Option.isSome_iff_exists.1 (first.total holds)
    subst middleEq
    exact (second middle (first.sound middle rfl)).total holds

theorem imp {m : Option α} {post' : α → Prop} (spec : Returns guard m post)
    (weaken : ∀ value, post value → post' value) : Returns guard m post' where
  sound := fun value done => weaken value (spec.sound value done)
  total := spec.total

/-- Computations run one after another over two lists that match. -/
theorem mapM {related : β → γ → Prop} {blocks : List α} {run : α → Option β}
    {targets : List γ}
    (each : List.Forall₂ (fun block target =>
      Returns guard (run block) fun value => related value target)
      blocks targets) :
    Returns guard (blocks.mapM run) fun values =>
      List.Forall₂ related values targets := by
  induction each with
  | nil =>
      rw [List.mapM_nil]
      exact .pure .nil
  | cons head tail ih =>
      rw [List.mapM_cons]
      refine head.bind fun value valueHolds => ih.bind fun values valuesHold => ?_
      exact .pure (.cons valueHolds valuesHold)

end Returns

/-- A computation that can be run to the end could be run up to each step. -/
theorem except_bind_eq_ok {ε : Type} {m : Except ε α} {next : α → Except ε β} {value : β} :
    (m >>= next) = .ok value ↔ ∃ middle, m = .ok middle ∧ next middle = .ok value := by
  cases m with
  | error fault =>
      constructor
      · rintro ⟨⟩
      · rintro ⟨_, ⟨⟩, _⟩
  | ok middle =>
      constructor
      · intro done
        exact ⟨middle, rfl, done⟩
      · rintro ⟨_, ⟨⟩, done⟩
        exact done

/-- How a computation ends without a result. -/
inductive Fault
  | panic
  | failed (message : String)
deriving DecidableEq, Repr

/-- Where there is no result, the program stops. -/
def orPanic {α : Type} : Option α → Except Fault α
  | none => .error .panic
  | some value => .ok value

end MetaVm

namespace MetaVm

/-! Computations on machine words that note whether an operation overflowed. -/

/-- The wrapped value of a computation, and whether an operation overflowed on
the way. -/
@[ext]
structure Checked (α : Type) where
  value : α
  overflowed : Bool

namespace Checked

variable {α β S : Type}

instance : Monad Checked where
  pure value := ⟨value, false⟩
  bind m next := ⟨(next m.value).value, m.overflowed || (next m.value).overflowed⟩

@[simp]
theorem value_pure (value : α) : (pure value : Checked α).value = value := rfl

@[simp]
theorem overflowed_pure (value : α) : (pure value : Checked α).overflowed = false := rfl

@[simp]
theorem value_bind (m : Checked α) (next : α → Checked β) :
    (m >>= next).value = (next m.value).value := rfl

@[simp]
theorem overflowed_bind (m : Checked α) (next : α → Checked β) :
    (m >>= next).overflowed = (m.overflowed || (next m.value).overflowed) := rfl

instance : LawfulMonad Checked :=
  .mk' Checked (fun m => Checked.ext rfl (Bool.or_false _)) (fun _ _ => rfl)
    (fun _ _ _ => Checked.ext rfl (Bool.or_assoc _ _ _))

/-- Nothing overflows, and the value satisfies `post`. -/
structure Fits (m : Checked α) (post : α → Prop) : Prop where
  exact : m.overflowed = false
  holds : post m.value

variable {post : α → Prop} {result : β → Prop}

theorem Fits.pure {value : α} (holds : post value) :
    Fits (Pure.pure value) post := ⟨rfl, holds⟩

theorem Fits.bind {m : Checked α} {next : α → Checked β} (first : Fits m post)
    (second : ∀ value, post value → Fits (next value) result) :
    Fits (m >>= next) result where
  exact := by
    rw [overflowed_bind, first.exact, (second _ first.holds).exact, Bool.or_false]
  holds := (second _ first.holds).holds

theorem Fits.imp {m : Checked α} {post' : α → Prop} (spec : Fits m post)
    (weaken : ∀ value, post value → post' value) : Fits m post' :=
  ⟨spec.exact, weaken _ spec.holds⟩

/-- A loop keeps what each of its rounds keeps. -/
theorem Fits.foldlM {round : S → ℕ → Checked S} {invariant : ℕ → S → Prop} {count : ℕ}
    (each : ∀ k < count, ∀ state, invariant k state →
      Fits (round state k) (invariant (k + 1)))
    {state : S} (start : invariant 0 state) :
    Fits ((List.range count).foldlM round state) (invariant count) := by
  induction count with
  | zero => exact .pure start
  | succ count hypothesis =>
      rw [List.range_succ, List.foldlM_append]
      refine (hypothesis fun k inside => each k (Nat.lt_succ_of_lt inside)).bind
        fun middle holds => ?_
      exact (each count (Nat.lt_succ_self count) middle holds).bind
        fun last lastHolds => .pure lastHolds

/-! Sums, differences and products in a register. -/

/-- `x + y` in a register below `size`. -/
def add (size x y : ℕ) : Checked ℕ := ⟨(x + y) % size, decide (size ≤ x + y)⟩

/-- `x - y`, wrapping around below zero. -/
def sub (size x y : ℕ) : Checked ℕ := ⟨(size + x - y) % size, decide (x < y)⟩

def mul (size x y : ℕ) : Checked ℕ := ⟨x * y % size, decide (size ≤ x * y)⟩

/-- `first + t₁ + t₂ + …`, from the left. -/
def sum (size first : ℕ) (terms : List ℕ) : Checked ℕ := terms.foldlM (add size) first

theorem add_fits {size x y : ℕ} (small : x + y < size) :
    Fits (add size x y) (· = x + y) :=
  ⟨decide_eq_false (Nat.not_le.2 small), Nat.mod_eq_of_lt small⟩

theorem sub_fits {size x y : ℕ} (less : y ≤ x) (small : x < size) :
    Fits (sub size x y) (· = x - y) := by
  have wrapped : (size + x - y) % size = x - y := by
    rw [Nat.add_sub_assoc less, Nat.add_mod_left]
    exact Nat.mod_eq_of_lt (Nat.lt_of_le_of_lt (Nat.sub_le x y) small)
  exact ⟨decide_eq_false (Nat.not_lt.2 less), wrapped⟩

theorem mul_fits {size x y : ℕ} (small : x * y < size) :
    Fits (mul size x y) (· = x * y) :=
  ⟨decide_eq_false (Nat.not_le.2 small), Nat.mod_eq_of_lt small⟩

theorem lt_of_mul_exact {size x y : ℕ} (exact : (mul size x y).overflowed = false) :
    x * y < size := Nat.not_le.1 (of_decide_eq_false exact)

theorem lt_of_add_exact {size x y : ℕ} (exact : (add size x y).overflowed = false) :
    x + y < size := Nat.not_le.1 (of_decide_eq_false exact)

theorem sum_fits {size first : ℕ} {terms : List ℕ} (small : first + terms.sum < size) :
    Fits (sum size first terms) (· = first + terms.sum) := by
  induction terms generalizing first with
  | nil => exact .pure (Nat.add_zero first).symm
  | cons term rest hypothesis =>
      rw [List.sum_cons, ← Nat.add_assoc] at small ⊢
      rw [sum, List.foldlM_cons]
      refine (add_fits (by omega)).bind fun partialSum isSum => ?_
      subst isSum
      exact hypothesis small

theorem value_sum {size first : ℕ} {terms : List ℕ} (firstSmall : first < size) :
    (sum size first terms).value = (first + terms.sum) % size := by
  induction terms generalizing first with
  | nil => exact (Nat.mod_eq_of_lt firstSmall).symm
  | cons term rest hypothesis =>
      have small : (first + term) % size < size :=
        Nat.mod_lt _ (Nat.zero_lt_of_lt firstSmall)
      rw [sum, List.foldlM_cons, value_bind]
      refine (hypothesis small).trans ?_
      rw [Nat.mod_add_mod, List.sum_cons, Nat.add_assoc]

/-- A sum overflows exactly when its total does not fit. -/
theorem overflowed_sum {size first : ℕ} {terms : List ℕ} (firstSmall : first < size) :
    (sum size first terms).overflowed = false ↔ first + terms.sum < size := by
  constructor
  · intro exact
    induction terms generalizing first with
    | nil => simpa using firstSmall
    | cons term rest hypothesis =>
        rw [sum, List.foldlM_cons, overflowed_bind, Bool.or_eq_false_iff] at exact
        obtain ⟨head, tail⟩ := exact
        have small : first + term < size := Nat.not_le.1 (of_decide_eq_false head)
        have value : (add size first term).value = first + term := Nat.mod_eq_of_lt small
        rw [value] at tail
        rw [List.sum_cons, ← Nat.add_assoc]
        exact hypothesis small tail
  · exact fun small => (sum_fits small).exact

end Checked

end MetaVm
