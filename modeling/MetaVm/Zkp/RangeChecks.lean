import MetaVm.Zkp.Fft
import MetaVm.Zkp.LookupSoundness
import MetaVm.Zkp.LookupWitness

namespace MetaVm.Zkp

/-! Which declarations of a constraint system the grouped checks enforce. -/

section Grouping

theorem updateEntry_length_le (key : GroupKey) (update : SelectorSet → SelectorSet)
    (groups : List (GroupKey × SelectorSet)) :
    (updateEntry key update groups).length ≤ groups.length + 1 := by
  induction groups with
  | nil => exact le_rfl
  | cons entry rest hypothesis =>
      rw [updateEntry]
      split
      · exact le_rfl
      · split
        · exact Nat.le_succ _
        · exact Nat.succ_le_succ hypothesis

/-- Updating an entry keeps what all entries satisfy. -/
theorem forall_mem_updateEntry {key : GroupKey} {update : SelectorSet → SelectorSet}
    {good : SelectorSet → Prop} (fresh : good (update .empty))
    (kept : ∀ set, good set → good (update set)) {groups : List (GroupKey × SelectorSet)}
    (before : ∀ entry ∈ groups, good entry.2) :
    ∀ entry ∈ updateEntry key update groups, good entry.2 := by
  induction groups with
  | nil =>
      rintro entry (_ | ⟨_, ⟨⟩⟩)
      exact fresh
  | cons entry rest hypothesis =>
      obtain ⟨here, below⟩ := List.forall_mem_cons.1 before
      rw [updateEntry]
      split
      · exact List.forall_mem_cons.2 ⟨fresh, before⟩
      · split
        · exact List.forall_mem_cons.2 ⟨kept _ here, below⟩
        · exact List.forall_mem_cons.2 ⟨here, hypothesis below⟩

variable (reqs : LookupRequirements)

theorem groupDeclarations_length_le :
    (groupDeclarations reqs).length ≤ reqs.declarations.length := by
  have folded : ∀ (declarations : List (LookupDeclaration × ℕ))
      (groups : List (GroupKey × SelectorSet)),
      (declarations.foldl (fun groups entry => insertDeclaration groups entry.1)
        groups).length ≤ groups.length + declarations.length := by
    intro declarations
    induction declarations with
    | nil => exact fun groups => le_rfl
    | cons entry rest hypothesis =>
        intro groups
        have grown : (insertDeclaration groups entry.1).length ≤ groups.length + 1 :=
          updateEntry_length_le _ _ _
        have later := hypothesis (insertDeclaration groups entry.1)
        rw [List.foldl_cons, List.length_cons]
        omega
  have total := folded reqs.declarations []
  rw [groupDeclarations, List.length_map]
  rwa [List.length_nil, Nat.zero_add] at total

theorem forall_mem_insertDeclaration {columns : List ℕ}
    {groups : List (GroupKey × SelectorSet)} {decl : LookupDeclaration}
    (before : ∀ entry ∈ groups, entry.2.1 ⊆ columns)
    (listed : ∀ selector, decl.selectorColumn = some selector → selector ∈ columns) :
    ∀ entry ∈ insertDeclaration groups decl, entry.2.1 ⊆ columns := by
  cases named : decl.selectorColumn with
  | none =>
      rw [insertDeclaration, named]
      exact @forall_mem_updateEntry _ _ (fun set => set.1 ⊆ columns) (List.nil_subset _)
        (fun _ known => known) _ before
  | some selector =>
      have pushed : ∀ set : SelectorSet, set.1 ⊆ columns →
          (set.push selector).1 ⊆ columns := by
        intro set known other member
        rcases SelectorSet.mem_push member with old | rfl
        · exact known old
        · exact listed _ named
      rw [insertDeclaration, named]
      exact @forall_mem_updateEntry _ _ (fun set => set.1 ⊆ columns)
        (pushed _ (List.nil_subset _)) pushed _ before

theorem groupDeclarations_selectors :
    ∀ group ∈ groupDeclarations reqs, group.selectors ⊆ reqs.selectorColumns := by
  have folded : ∀ declarations ⊆ reqs.declarations,
      ∀ groups : List (GroupKey × SelectorSet),
      (∀ entry ∈ groups, entry.2.1 ⊆ reqs.selectorColumns) →
      ∀ entry ∈ declarations.foldl
        (fun groups entry => insertDeclaration groups entry.1) groups,
        entry.2.1 ⊆ reqs.selectorColumns := by
    intro declarations
    induction declarations with
    | nil => exact fun _ groups before => before
    | cons entry rest hypothesis =>
        intro inside groups before
        obtain ⟨here, below⟩ := List.cons_subset.1 inside
        refine hypothesis below _ (forall_mem_insertDeclaration before fun selector named => ?_)
        exact List.mem_filterMap.2 ⟨entry, here, named⟩
  intro group member
  obtain ⟨entry, listed, rfl⟩ := List.mem_map.1 member
  exact folded reqs.declarations (List.Subset.refl _) [] (by simp) entry listed

theorem numLimbs_lt (group : LogUpGroup) : group.numLimbs ≤ 2 ^ 29 := by
  have bits := group.maxBits.isLt
  rw [LogUpGroup.numLimbs]
  omega

theorem totalNumLimbs_le (groups : List LogUpGroup) :
    totalNumLimbs groups ≤ groups.length * 2 ^ 29 := by
  have bound := List.sum_le_card_nsmul (groups.map (·.numLimbs)) (2 ^ 29) (by
    intro limbs member
    obtain ⟨group, _, rfl⟩ := List.mem_map.1 member
    exact numLimbs_lt group)
  rwa [List.length_map, smul_eq_mul] at bound

end Grouping

section Digits

variable {p : ℕ} [Fact p.Prime]

theorem recompose_byteAt {value : ZMod p} {numLimbs : ℕ}
    (small : value.val < 256 ^ numLimbs) :
    recompose 256 numLimbs (fun k => ((byteAt value.val k).toNat : ZMod p)) = value := by
  have total := Digits.value_digits_of_lt small
  calc recompose 256 numLimbs (fun k => ((byteAt value.val k).toNat : ZMod p))
      = ((Digits.value 256 numLimbs fun k => value.val / 256 ^ k % 256 : ℕ) : ZMod p) := by
        rw [recompose, Digits.value, Nat.cast_sum]
        refine Finset.sum_congr rfl fun k _ => ?_
        rw [byteAt, BitVec.toNat_ofNat, Nat.cast_mul, Nat.cast_pow]
    _ = value := by rw [total, ZMod.natCast_zmod_val]

end Digits

section Enforced

/-- A declaration holds on a trace: its column is in range wherever its
selector is one. -/
def LookupDeclaration.Holds {p : ℕ} (decl : LookupDeclaration) (domainSize : ℕ)
    (trace : ℕ → ℕ → ZMod p) : Prop :=
  ∀ row < domainSize, (∀ sel, decl.selectorColumn = some sel → trace row sel = 1) →
    (trace row decl.columnIndex).val < 2 ^ decl.maxBits.toNat

/-- A selector can be active: no check without limbs asks its column to be
zero then. -/
def RowPossible (groups : List LogUpGroup) (active : Option ℕ) : Prop :=
  ∀ group ∈ groups, group.numLimbs = 0 → marked group.selectors active →
    active ≠ some group.columnIndex

/-- The grouped checks are as narrow as the declaration on every row where it
applies. A column that is itself a selector holds zero or one. -/
def LookupDeclaration.EnforcedBy (p : ℕ) (decl : LookupDeclaration)
    (reqs : LookupRequirements) : Prop :=
  ∀ active : Option ℕ, (∀ sel, active = some sel → sel ∈ reqs.selectorColumns) →
    RowPossible (groupDeclarations reqs) active →
    (decl.selectorColumn = none ∨ decl.selectorColumn = active) →
    (decl.columnIndex ∈ reqs.selectorColumns →
      active = some decl.columnIndex → 0 < decl.maxBits.toNat) ∧
    (decl.columnIndex ∉ reqs.selectorColumns → p ≤ 2 ^ decl.maxBits.toNat ∨
      ∃ group ∈ groupDeclarations reqs, group.columnIndex = decl.columnIndex ∧
        marked group.selectors active ∧ 8 * group.numLimbs ≤ decl.maxBits.toNat)

variable {p : ℕ} [Fact p.Prime] {reqs : LookupRequirements} {domainSize : ℕ}
  {omega : ZMod p}

/-- The selectors that are active can be taken from the declared ones. -/
theorem HotTrace.exists_active {columns : List ℕ} {trace : ℕ → ℕ → ZMod p}
    (hot : HotTrace columns domainSize trace) :
    ∃ active : ℕ → Option ℕ, ∀ row < domainSize,
      (∀ sel, active row = some sel → sel ∈ columns) ∧
        HotRow (active row) columns (trace row) := by
  have chosen : ∀ row, ∃ active : Option ℕ, row < domainSize →
      (∀ sel, active = some sel → sel ∈ columns) ∧
        HotRow active columns (trace row) := by
    intro row
    by_cases inside : row < domainSize
    · obtain ⟨active, spots⟩ := hot row inside
      by_cases known : ∀ sel, active = some sel → sel ∈ columns
      · exact ⟨active, fun _ => ⟨known, spots⟩⟩
      · push Not at known
        obtain ⟨sel, rfl, unknown⟩ := known
        refine ⟨none, fun _ => ⟨nofun, fun column member => ?_⟩⟩
        have other : sel ≠ column := fun equal => unknown (equal ▸ member)
        simp [spots column member, other]
    · exact ⟨none, fun inside' => absurd inside' inside⟩
  choose active spots using chosen
  exact ⟨active, spots⟩

/-- Checks that are narrow enough enforce the declaration. -/
theorem LookupDeclaration.holds_of_enforced {K : Type} [Field K] [DecidableEq K]
    [Algebra (ZMod p) K] {gamma : K} (free : Transcendental (ZMod p) gamma)
    {trace : ℕ → ℕ → ZMod p} {cells : ℕ → LogUpRow K}
    (hot : HotTrace reqs.selectorColumns domainSize trace)
    (satisfied : LogUpSatisfied (groupDeclarations reqs) gamma omega domainSize trace
      cells)
    (few : domainSize * totalNumLimbs (groupDeclarations reqs) < p)
    {decl : LookupDeclaration} {table : ℕ} (declared : (decl, table) ∈ reqs.declarations)
    (enforced : decl.EnforcedBy p reqs) : decl.Holds domainSize trace := by
  intro row inside selected
  obtain ⟨active, spots⟩ := hot.exists_active
  have groupsHot : ∀ row < domainSize, ∀ group ∈ groupDeclarations reqs,
      HotRow (active row) group.selectors (trace row) := fun row inside group member =>
    (spots row inside).2.mono (groupDeclarations_selectors reqs group member)
  have possible : RowPossible (groupDeclarations reqs) (active row) := by
    intro group member limbs gated same
    have small := satisfied.value_lt free groupsHot few inside member gated
    have column := (spots row inside).1 _ same
    rw [limbs, pow_zero, Nat.lt_one_iff, ZMod.val_eq_zero,
      (spots row inside).2 _ column, if_pos same] at small
    exact one_ne_zero small
  have applies : decl.selectorColumn = none ∨ decl.selectorColumn = active row := by
    cases named : decl.selectorColumn with
    | none => exact .inl rfl
    | some sel =>
        have column : sel ∈ reqs.selectorColumns :=
          List.mem_filterMap.2 ⟨_, declared, named⟩
        have one := (spots row inside).2 sel column
        rw [selected sel named] at one
        refine .inr (Eq.symm ?_)
        by_contra other
        rw [if_neg other] at one
        exact one_ne_zero one
  have narrow := enforced (active row) (spots row inside).1 possible applies
  by_cases column : decl.columnIndex ∈ reqs.selectorColumns
  · rw [(spots row inside).2 _ column]
    split
    · rename_i same
      rw [ZMod.val_one]
      exact Nat.one_lt_two_pow (Nat.pos_iff_ne_zero.1 (narrow.1 column same))
    · rw [ZMod.val_zero]
      exact Nat.two_pow_pos _
  · rcases narrow.2 column with wide | ⟨group, member, column, gated, width⟩
    · exact lt_of_lt_of_le (ZMod.val_lt _) wide
    · rw [← column]
      calc (trace row group.columnIndex).val < rangeTableSize ^ group.numLimbs :=
            satisfied.value_lt free groupsHot few inside member gated
        _ = 2 ^ (8 * group.numLimbs) := by
            rw [pow_mul, show 2 ^ 8 = rangeTableSize from rfl]
        _ ≤ 2 ^ decl.maxBits.toNat := Nat.pow_le_pow_right (by decide) width

/-- A trace that is zero but for one row, where `active` is the active
selector and one other column holds a value. -/
def singleRowTrace (columns : List ℕ) (active : Option ℕ) (column : ℕ) (value : ZMod p)
    (row other : ℕ) : ZMod p :=
  if row = 0 then
    if columns.contains other then if active = some other then 1 else 0
    else if other = column then value
    else 0
  else 0

theorem hotRow_singleRowTrace (columns : List ℕ) (active : Option ℕ) (column : ℕ)
    (value : ZMod p) (row : ℕ) :
    HotRow (if row = 0 then active else none) columns
      (singleRowTrace columns active column value row) := by
  intro other member
  by_cases first : row = 0
  · simp only [singleRowTrace, if_pos first]
    rw [if_pos (List.contains_iff_mem.2 member)]
  · simp [singleRowTrace, first]

section SingleRow

variable {columns : List ℕ} {active : Option ℕ} {column : ℕ} {value : ZMod p}

theorem singleRowTrace_selector {other : ℕ} (member : other ∈ columns) :
    singleRowTrace columns active column value 0 other =
      if active = some other then 1 else 0 := by
  rw [singleRowTrace, if_pos rfl, if_pos (List.contains_iff_mem.2 member)]

theorem singleRowTrace_value (absent : column ∉ columns) :
    singleRowTrace columns active column value 0 column = value := by
  rw [singleRowTrace, if_pos rfl, if_neg (absent ∘ List.contains_iff_mem.1), if_pos rfl]

theorem singleRowTrace_zero {row other : ℕ}
    (elsewhere : row ≠ 0 ∨ other ∉ columns ∧ other ≠ column) :
    singleRowTrace columns active column value row other = 0 := by
  rw [singleRowTrace]
  rcases elsewhere with later | ⟨absent, distinct⟩
  · rw [if_neg later]
  · rw [if_neg (absent ∘ List.contains_iff_mem.1), if_neg distinct, ite_self]

end SingleRow

variable (root : IsPrimitiveRoot omega domainSize)
  (large : rangeTableSize ≤ domainSize)

include root large

/-- A trace whose gated cells fit into their limbs has columns that satisfy
the checks. -/
theorem exists_satisfied {groups : List LogUpGroup} {K : Type} [Field K] [DecidableEq K]
    [Algebra (ZMod p) K] {gamma : K} (free : Transcendental (ZMod p) gamma)
    {trace : ℕ → ℕ → ZMod p} {active : ℕ → Option ℕ}
    (hot : ∀ row < domainSize, ∀ group ∈ groups,
      HotRow (active row) group.selectors (trace row))
    (fits : ∀ row < domainSize, ∀ group ∈ groups,
      marked group.selectors (active row) →
        (trace row group.columnIndex).val < 256 ^ group.numLimbs) :
    ∃ cells, LogUpSatisfied groups gamma omega domainSize trace cells := by
  have apart : ∀ byte < rangeTableSize, gamma ≠ ((byte : ℕ) : K) := by
    intro byte _ equal
    apply RunningSum.sub_ne_zero_of_transcendental free (byte : ZMod p)
    rw [map_natCast, equal, sub_self]
  refine ⟨extendedLogupWitness (fun _ value => byteAt value.val) trace groups domainSize
    gamma, (extendedLogupWitness_vanishes_iff root large hot apart).2 ?_,
    fun _ _ => rfl, fun _ _ g k => ⟨_, map_natCast _ _⟩, fun row _ => ?_⟩
  · exact fun row inside group member gated =>
      (recompose_byteAt (fits row inside group member gated)).symm
  · show ∃ value, algebraMap (ZMod p) K value = multiplicityAt _ _ _ _ row
    rw [multiplicityAt]
    split
    · exact ⟨_, map_natCast _ _⟩
    · exact ⟨0, map_zero _⟩

/-- Where the checks are too wide for a declaration, a row breaks it. -/
theorem exists_not_holds {K : Type} [Field K] [DecidableEq K] [Algebra (ZMod p) K]
    {gamma : K} (free : Transcendental (ZMod p) gamma) {decl : LookupDeclaration}
    (loose : ¬ decl.EnforcedBy p reqs) :
    ∃ trace, HotTrace reqs.selectorColumns domainSize trace ∧
      (∃ cells, LogUpSatisfied (groupDeclarations reqs) gamma omega domainSize trace
        cells) ∧ ¬ decl.Holds domainSize trace := by
  rw [LookupDeclaration.EnforcedBy] at loose
  push Not at loose
  obtain ⟨active, known, possible, applies, loose⟩ := loose
  let trace := singleRowTrace reqs.selectorColumns active decl.columnIndex
    ((2 ^ decl.maxBits.toNat : ℕ) : ZMod p)
  have spots := hotRow_singleRowTrace reqs.selectorColumns active decl.columnIndex
    ((2 ^ decl.maxBits.toNat : ℕ) : ZMod p)
  have wide : decl.columnIndex ∉ reqs.selectorColumns → 2 ^ decl.maxBits.toNat < p ∧
      ∀ group ∈ groupDeclarations reqs, group.columnIndex = decl.columnIndex →
        marked group.selectors active → decl.maxBits.toNat < 8 * group.numLimbs :=
    fun absent => (loose fun column => absurd column absent).2
  refine ⟨trace, fun row _ => ⟨_, spots row⟩, ?_, ?_⟩
  · refine exists_satisfied root large free (fun row _ group member =>
      (spots row).mono (groupDeclarations_selectors reqs group member)) ?_
    intro row inside group member gated
    have empty : (0 : ZMod p).val < 256 ^ group.numLimbs := by
      rw [ZMod.val_zero]
      exact Nat.pow_pos (by decide)
    by_cases first : row = 0
    · subst first
      rw [if_pos rfl] at gated
      by_cases column : group.columnIndex ∈ reqs.selectorColumns
      · rw [show trace 0 group.columnIndex = _ from singleRowTrace_selector column]
        split
        · rename_i same
          have limbs : group.numLimbs ≠ 0 := fun zero =>
            possible group member zero gated same
          rw [ZMod.val_one]
          exact Nat.one_lt_pow limbs (by decide)
        · exact empty
      · by_cases same : group.columnIndex = decl.columnIndex
        · rw [same] at column
          obtain ⟨small, wider⟩ := wide column
          rw [same, show trace 0 decl.columnIndex = _ from singleRowTrace_value column,
            ZMod.val_natCast_of_lt small, show 256 = 2 ^ 8 from rfl, ← pow_mul]
          exact Nat.pow_lt_pow_right (by decide) (wider group member same gated)
        · rw [show trace 0 group.columnIndex = 0 from
            singleRowTrace_zero (.inr ⟨column, same⟩)]
          exact empty
    · rw [show trace row group.columnIndex = 0 from singleRowTrace_zero (.inl first)]
      exact empty
  · intro holds
    have selected : ∀ sel, decl.selectorColumn = some sel → trace 0 sel = 1 := by
      intro sel named
      have same : active = some sel := by
        rcases applies with absent | equal
        · rw [named] at absent
          exact nomatch absent
        · rw [← equal, named]
      rw [show trace 0 sel = _ from singleRowTrace_selector (known sel same), if_pos same]
    have bounded := holds 0 (lt_of_lt_of_le (by decide) large) selected
    by_cases column : decl.columnIndex ∈ reqs.selectorColumns
    · have narrow : ¬ (active = some decl.columnIndex → 0 < decl.maxBits.toNat) :=
        fun given => (loose fun _ => given).1 column
      push Not at narrow
      obtain ⟨same, zero⟩ := narrow
      rw [show trace 0 decl.columnIndex = _ from singleRowTrace_selector column,
        if_pos same, ZMod.val_one, Nat.le_zero.1 zero] at bounded
      exact lt_irrefl _ bounded
    · rw [show trace 0 decl.columnIndex = _ from singleRowTrace_value column,
        ZMod.val_natCast_of_lt (wide column).1] at bounded
      exact lt_irrefl _ bounded

/-- Columns that satisfy the bodies for an indeterminate challenge have cells as
small as declared. -/
def EnforcesDeclarations (reqs : LookupRequirements) (domainSize : ℕ) (omega : ZMod p) :
    Prop :=
  ∀ (K : Type) [Field K] [DecidableEq K] [Algebra (ZMod p) K] (gamma : K),
    Transcendental (ZMod p) gamma →
    ∀ (trace : ℕ → ℕ → ZMod p) (cells : ℕ → LogUpRow K),
      HotTrace reqs.selectorColumns domainSize trace →
      LogUpSatisfied (groupDeclarations reqs) gamma omega domainSize trace cells →
      ∀ entry ∈ reqs.declarations, entry.1.Holds domainSize trace

/-- The checks enforce every declaration of a system exactly when its groups
are as narrow as the declarations. -/
theorem rangeChecks_sound_iff [bound : Fact (2 ^ 254 < p)]
    (few : reqs.declarations.length < 2 ^ 64) (short : domainSize < 2 ^ 64) :
    EnforcesDeclarations reqs domainSize omega ↔
      ∀ entry ∈ reqs.declarations, entry.1.EnforcedBy p reqs := by
  have limbs : domainSize * totalNumLimbs (groupDeclarations reqs) < p := by
    have groups := groupDeclarations_length_le reqs
    calc domainSize * totalNumLimbs (groupDeclarations reqs)
        ≤ 2 ^ 64 * (2 ^ 64 * 2 ^ 29) :=
          Nat.mul_le_mul (le_of_lt short) ((totalNumLimbs_le _).trans
            (Nat.mul_le_mul_right _ (groups.trans (le_of_lt few))))
      _ < 2 ^ 254 := by norm_num
      _ < p := bound.out
  constructor
  · intro sound entry member
    by_contra loose
    classical
    have free : Transcendental (ZMod p) (RatFunc.X : RatFunc (ZMod p)) :=
      RatFunc.transcendental_X
    obtain ⟨trace, hot, ⟨cells, satisfied⟩, broken⟩ :=
      exists_not_holds root large free loose
    exact broken (sound _ _ free trace cells hot satisfied entry member)
  · intro enforced K _ _ _ gamma free trace cells hot satisfied entry member
    exact LookupDeclaration.holds_of_enforced free hot satisfied limbs member
      (enforced entry member)

end Enforced

section Examples

/-- A system that checks one column on all rows. -/
def singleCheck (maxBits : BitVec 32) : LookupRequirements := ⟨[(⟨0, maxBits, none⟩, 0)]⟩

theorem groupDeclarations_singleCheck (maxBits : BitVec 32) :
    groupDeclarations (singleCheck maxBits) = [⟨0, maxBits, [], List.nodup_nil⟩] := rfl

theorem domainRoot_primitive : IsPrimitiveRoot (rootTwoPow32 ^ 2 ^ 24) 256 :=
  rootTwoPow32_primitive.pow (by positivity) (by norm_num)

/-- Bytes are checked as they are declared. -/
theorem byteCheck_sound :
    EnforcesDeclarations (singleCheck 8) 256 (rootTwoPow32 ^ 2 ^ 24) := by
  refine (rangeChecks_sound_iff domainRoot_primitive le_rfl (by decide) (by norm_num)).2 ?_
  intro entry member active known _ _
  refine ⟨fun selector => absurd selector List.not_mem_nil, fun _ => .inr ?_⟩
  rw [List.mem_singleton.1 member, groupDeclarations_singleCheck]
  exact ⟨_, List.mem_singleton_self _, rfl, rfl, by decide⟩

/-- A column declared to hold one bit can hold two. -/
theorem bitCheck_unsound :
    ¬ EnforcesDeclarations (singleCheck 1) 256 (rootTwoPow32 ^ 2 ^ 24) := by
  intro sound
  have loose : ¬ (⟨0, 1, none⟩ : LookupDeclaration).EnforcedBy bls12381Order
      (singleCheck 1) := by
    intro enforced
    have possible : RowPossible (groupDeclarations (singleCheck 1)) none :=
      fun _ _ _ _ => nofun
    rcases (enforced none nofun possible (.inl rfl)).2 (by decide) with
      wide | ⟨group, member, _, _, narrow⟩
    · exact absurd wide (by decide)
    · rw [groupDeclarations_singleCheck, List.mem_singleton] at member
      subst member
      exact absurd narrow (by decide)
  classical
  have free : Transcendental Fr (RatFunc.X : RatFunc Fr) := RatFunc.transcendental_X
  obtain ⟨trace, hot, ⟨cells, satisfied⟩, broken⟩ :=
    exists_not_holds domainRoot_primitive le_rfl free loose
  exact broken (sound _ _ free trace cells hot satisfied _ (List.mem_singleton_self _))

end Examples

end MetaVm.Zkp
