import MetaVm.Lib.Numerals

namespace MetaVm.Nesting

/-! Rows that open and close, the stack of what is open, and the heights it
reaches. -/

inductive Event where
  | opens
  | closes
  | rests
deriving DecidableEq, Repr

def Event.change : Event → ℤ
  | .opens => 1
  | .closes => -1
  | .rests => 0

variable (events : ℕ → Event)

/-- Openings less closings before a row. -/
def height : ℕ → ℤ
  | 0 => 0
  | row + 1 => height row + (events row).change

/-- The open rows before a row, the latest one first. A closing takes the latest
one away. -/
def pending : ℕ → List ℕ
  | 0 => []
  | row + 1 =>
      match events row with
      | .opens => row :: pending row
      | .closes => (pending row).tail
      | .rests => pending row

/-- Openings at a height on the rows from one row to another. -/
def ups (level : ℤ) (first last : ℕ) : ℕ :=
  ∑ row ∈ Finset.Ico first last,
    if events row = .opens ∧ height events row = level then 1 else 0

/-- Closings that come back to a height. -/
def downs (level : ℤ) (first last : ℕ) : ℕ :=
  ∑ row ∈ Finset.Ico first last,
    if events row = .closes ∧ height events (row + 1) = level then 1 else 0

/-- Every closing has an opening to close. -/
def Matched (size : ℕ) : Prop :=
  ∀ row < size, events row = .closes → pending events row ≠ []

/-- No two openings have the same height. -/
def Apart (size : ℕ) : Prop :=
  ∀ first < size, ∀ second < size, events first = .opens → events second = .opens →
    height events first = height events second → first = second

variable {events}

theorem height_of_opens {row : ℕ} (opens : events row = .opens) :
    height events (row + 1) = height events row + 1 := by
  rw [height, opens]
  rfl

theorem height_of_closes {row : ℕ} (closes : events row = .closes) :
    height events (row + 1) = height events row - 1 := by
  rw [height, closes]
  rfl

theorem height_of_rests {row : ℕ} (rests : events row = .rests) :
    height events (row + 1) = height events row := by
  rw [height, rests]
  exact add_zero _

/-- Between two rows a level is crossed upward as often as downward, but for
where the rows are. -/
theorem crossings (level : ℤ) {first last : ℕ} (ordered : first ≤ last) :
    ups events level first last + (if level < height events first then 1 else 0) =
      downs events level first last + (if level < height events last then 1 else 0) := by
  induction last, ordered using Nat.le_induction with
  | base => rw [ups, downs, Finset.Ico_self, Finset.sum_empty, Finset.sum_empty]
  | succ last ordered hypothesis =>
      rw [ups, downs] at hypothesis ⊢
      rw [Finset.sum_Ico_succ_top ordered, Finset.sum_Ico_succ_top ordered]
      cases event : events last with
      | opens =>
          rw [height_of_opens event]
          simp only [reduceCtorEq, true_and, false_and, if_false]
          split_ifs at hypothesis ⊢ <;> omega
      | closes =>
          rw [height_of_closes event]
          simp only [reduceCtorEq, true_and, false_and, if_false]
          split_ifs at hypothesis ⊢ <;> omega
      | rests =>
          rw [height_of_rests event]
          simp only [reduceCtorEq, false_and, if_false]
          exact hypothesis

/-- Openings less closings on the rows up to a row. -/
theorem height_eq (size : ℕ) :
    height events size =
      (((Finset.range size).filter fun row => events row = .opens).card : ℤ) -
        ((Finset.range size).filter fun row => events row = .closes).card := by
  induction size with
  | zero => rfl
  | succ size hypothesis =>
      rw [height, hypothesis, Finset.range_add_one, Finset.filter_insert, Finset.filter_insert]
      cases event : events size with
      | opens =>
          rw [if_pos rfl, if_neg Event.noConfusion, Finset.card_insert_of_notMem (by simp)]
          simp only [Event.change, Nat.cast_add, Nat.cast_one]
          ring
      | closes =>
          rw [if_neg Event.noConfusion, if_pos rfl, Finset.card_insert_of_notMem (by simp)]
          simp only [Event.change, Nat.cast_add, Nat.cast_one]
          ring
      | rests =>
          rw [if_neg Event.noConfusion, if_neg Event.noConfusion]
          exact add_zero _

/-! What is pending. -/

theorem mem_pending {row open_ : ℕ} (member : open_ ∈ pending events row) :
    open_ < row ∧ events open_ = .opens := by
  induction row with
  | zero => cases member
  | succ row hypothesis =>
      rw [pending] at member
      cases event : events row with
      | opens =>
          rw [event] at member
          rcases List.mem_cons.1 member with rfl | earlier
          · exact ⟨Nat.lt_succ_self _, event⟩
          · exact (hypothesis earlier).imp_left Nat.lt_succ_of_lt
      | closes =>
          rw [event] at member
          exact (hypothesis (List.mem_of_mem_tail member)).imp_left Nat.lt_succ_of_lt
      | rests =>
          rw [event] at member
          exact (hypothesis member).imp_left Nat.lt_succ_of_lt

/-- While all closings are matched, the pending rows have the heights from the top
down to the ground. -/
theorem map_height_pending {size : ℕ} (matched : Matched events size) :
    height events size = (pending events size).length ∧
      (pending events size).map (height events) =
        (List.range (pending events size).length).reverse.map Nat.cast := by
  induction size with
  | zero => exact ⟨rfl, rfl⟩
  | succ size hypothesis =>
      obtain ⟨top, heights⟩ := hypothesis fun row inside =>
        matched row (Nat.lt_succ_of_lt inside)
      cases event : events size with
      | opens =>
          simp only [pending, event, List.length_cons, List.map_cons, height_of_opens event]
          refine ⟨by rw [top, Nat.cast_succ], ?_⟩
          rw [List.range_succ, List.reverse_append, List.reverse_singleton, heights, top]
          rfl
      | closes =>
          have some := matched size (Nat.lt_succ_self size) event
          simp only [pending, event, height_of_closes event, top]
          obtain ⟨latest, rest, isCons⟩ := List.exists_cons_of_ne_nil some
          rw [isCons] at heights ⊢
          rw [List.length_cons, List.range_succ, List.reverse_append, List.reverse_singleton,
            List.map_cons, List.singleton_append, List.map_cons] at heights
          exact ⟨by rw [List.length_cons, Nat.cast_succ, add_sub_cancel_right, List.tail_cons],
            (List.cons.inj heights).2⟩
      | rests =>
          simp only [pending, event, height_of_rests event]
          exact ⟨top, heights⟩

/-- A closing comes back to the height of the row that it closes. -/
theorem height_head {size row opening : ℕ} (matched : Matched events size) (inside : row < size)
    (closes : events row = .closes) (head : (pending events row).head? = some opening) :
    height events opening = height events (row + 1) := by
  obtain ⟨top, heights⟩ := map_height_pending fun earlier below =>
    matched earlier (below.trans inside)
  rw [height_of_closes closes, top]
  obtain ⟨rest, isCons⟩ : ∃ rest, pending events row = opening :: rest := by
    cases found : pending events row with
    | nil => rw [found] at head; cases head
    | cons latest rest =>
        rw [found] at head
        exact ⟨rest, congrArg (· :: rest) (Option.some.inj head)⟩
  rw [isCons, List.length_cons, List.range_succ, List.reverse_append, List.reverse_singleton,
    List.map_cons] at heights
  rw [isCons, List.length_cons, Nat.cast_succ, add_sub_cancel_right]
  exact (List.cons.inj heights).1

/-- A pending row is below the height that is reached. -/
theorem height_lt_of_mem_pending {size opening : ℕ} (matched : Matched events size)
    (member : opening ∈ pending events size) : height events opening < height events size := by
  obtain ⟨top, heights⟩ := map_height_pending matched
  have listed : height events opening ∈ (pending events size).map (height events) :=
    List.mem_map_of_mem member
  rw [heights, List.mem_map] at listed
  obtain ⟨level, below, same⟩ := listed
  rw [top, ← same]
  exact_mod_cast List.mem_range.1 (List.mem_reverse.1 below)

/-- A row that is no longer pending was closed. -/
theorem exists_closing {opening last : ℕ} (opens : events opening = .opens)
    (later : opening < last) (gone : opening ∉ pending events last) :
    ∃ row, opening < row ∧ row < last ∧ events row = .closes ∧
      (pending events row).head? = some opening := by
  induction last, later using Nat.le_induction with
  | base =>
      rw [pending, opens] at gone
      exact absurd List.mem_cons_self gone
  | succ last later hypothesis =>
      by_cases before : opening ∈ pending events last
      · refine ⟨last, later, Nat.lt_succ_self last, ?_⟩
        rw [pending] at gone
        cases event : events last with
        | opens =>
            rw [event] at gone
            exact absurd (List.mem_cons_of_mem _ before) gone
        | closes =>
            rw [event] at gone
            refine ⟨rfl, ?_⟩
            cases found : pending events last with
            | nil => rw [found] at before; cases before
            | cons latest rest =>
                rw [found] at before gone
                rcases List.mem_cons.1 before with rfl | deeper
                · rfl
                · exact absurd deeper gone
        | rests =>
            rw [event] at gone
            exact absurd before gone
      · obtain ⟨row, after, below, closes, head⟩ := hypothesis before
        exact ⟨row, after, Nat.lt_succ_of_lt below, closes, head⟩

/-- Between two openings of the same height the first one is closed. -/
theorem exists_closing_between {size first second : ℕ} (matched : Matched events size)
    (ordered : first < second) (inside : second < size) (opens : events first = .opens)
    (level : height events first = height events second) :
    ∃ row, first < row ∧ row < second ∧ events row = .closes ∧
      (pending events row).head? = some first := by
  apply exists_closing opens ordered
  intro still
  have below := height_lt_of_mem_pending
    (fun row earlier => matched row (earlier.trans inside)) still
  exact absurd level below.ne

/-! Rows from after one opening up to another of the same height can be exchanged
for the others without changing what is saved and what is restored. -/

/-- The height of a row, and whether the row is from after one row up to another. -/
def key (events : ℕ → Event) (first second row : ℕ) : ℤ × Bool :=
  (height events row, decide (first < row ∧ row ≤ second))

theorem card_saved (first second size : ℕ) (inside : second < size) (level : ℤ) :
    (((Finset.range size).filter fun row => events row = .opens).filter fun row =>
        (level, true) = key events first second row).card =
      ups events level (first + 1) (second + 1) := by
  rw [ups, ← Finset.card_filter]
  congr 1
  ext row
  simp only [key, Finset.mem_filter, Finset.mem_range, Finset.mem_Ico, Prod.mk.injEq,
    @eq_comm _ true, decide_eq_true_eq]
  constructor
  · rintro ⟨⟨below, opens⟩, same, after, upto⟩
    exact ⟨⟨after, Nat.lt_succ_of_le upto⟩, opens, same.symm⟩
  · rintro ⟨⟨after, upto⟩, opens, same⟩
    exact ⟨⟨by omega, opens⟩, same.symm, after, Nat.le_of_lt_succ upto⟩

theorem card_restored (first second size : ℕ) (inside : second < size) (level : ℤ) :
    (((Finset.range size).filter fun row => events row = .closes).filter fun row =>
        (level, true) = key events first second (row + 1)).card =
      downs events level first second := by
  rw [downs, ← Finset.card_filter]
  congr 1
  ext row
  simp only [key, Finset.mem_filter, Finset.mem_range, Finset.mem_Ico, Prod.mk.injEq,
    @eq_comm _ true, decide_eq_true_eq]
  constructor
  · rintro ⟨⟨below, closes⟩, same, after, upto⟩
    exact ⟨⟨Nat.le_of_lt_succ after, upto⟩, closes, same.symm⟩
  · rintro ⟨⟨after, upto⟩, closes, same⟩
    exact ⟨⟨by omega, closes⟩, same.symm, Nat.lt_succ_of_le after, upto⟩

/-- Marked and unmarked rows together. -/
theorem card_unmarked_add_card_marked (rows : Finset ℕ) (level : ℤ) (value : ℕ → ℤ × Bool) :
    (rows.filter fun row => (level, false) = value row).card +
        (rows.filter fun row => (level, true) = value row).card =
      (rows.filter fun row => (value row).1 = level).card := by
  rw [← Finset.card_union_of_disjoint]
  · congr 1
    ext row
    simp only [Finset.mem_union, Finset.mem_filter, Prod.ext_iff]
    cases (value row).2 <;> simp [eq_comm]
  · rw [Finset.disjoint_left]
    intro row unmarked marked
    have same := (Finset.mem_filter.1 unmarked).2.trans (Finset.mem_filter.1 marked).2.symm
    exact Bool.noConfusion (congrArg Prod.snd same)

/-- What is saved is what is restored, when the rows end where they began and the
marked part does too. -/
theorem saved_eq_restored {first second size : ℕ} (inside : second < size)
    (home : height events size = 0)
    (part : ∀ level, ups events level (first + 1) (second + 1) = downs events level first second) :
    ((Finset.range size).filter fun row => events row = .opens).val.map (key events first second) =
      ((Finset.range size).filter fun row => events row = .closes).val.map
        fun row => key events first second (row + 1) := by
  ext ⟨level, marked⟩
  rw [Multiset.count_map, Multiset.count_map]
  have marks : (((Finset.range size).filter fun row => events row = .opens).filter fun row =>
        (level, true) = key events first second row).card =
      (((Finset.range size).filter fun row => events row = .closes).filter fun row =>
        (level, true) = key events first second (row + 1)).card := by
    rw [card_saved first second size inside, card_restored first second size inside, part]
  have whole : ups events level 0 size = downs events level 0 size := by
    have crossed := @crossings events level 0 size (Nat.zero_le size)
    rw [home] at crossed
    exact Nat.add_right_cancel crossed
  rw [ups, downs, ← Finset.card_filter, ← Finset.card_filter, ← Finset.range_eq_Ico,
    ← Finset.filter_filter, ← Finset.filter_filter] at whole
  cases marked with
  | true => exact marks
  | false =>
      have saved := card_unmarked_add_card_marked
        ((Finset.range size).filter fun row => events row = .opens) level (key events first second)
      have restored := card_unmarked_add_card_marked
        ((Finset.range size).filter fun row => events row = .closes) level
        fun row => key events first second (row + 1)
      have together := saved.trans (whole.trans restored.symm)
      rw [marks] at together
      exact Nat.add_right_cancel together

/-- Nothing is marked. -/
theorem ups_eq_downs_empty (level : ℤ) (row : ℕ) :
    ups events level (row + 1) (row + 1) = downs events level row row := by
  rw [ups, downs, Finset.Ico_self, Finset.Ico_self, Finset.sum_empty, Finset.sum_empty]

/-- The part from one opening to another of the same height ends where it began. -/
theorem ups_eq_downs {first second : ℕ} (ordered : first < second)
    (opensFirst : events first = .opens) (opensSecond : events second = .opens)
    (same : height events first = height events second) (level : ℤ) :
    ups events level (first + 1) (second + 1) = downs events level first second := by
  have crossed := @crossings events level first second ordered.le
  rw [same] at crossed
  rw [← Nat.add_right_cancel crossed, ups, ups, Finset.sum_Ico_succ_top ordered,
    Finset.sum_eq_sum_Ico_succ_bot ordered, opensFirst, opensSecond, same, add_comm]

end MetaVm.Nesting
