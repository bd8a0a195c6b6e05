import MetaVm.Evm.Columns
import MetaVm.Zkp.FrameStack
import MetaVm.Zkp.MemoryOrder

namespace MetaVm.Evm

open Nesting Zkp

/-! Frames that calls save and that returns restore. Rows are events: a call opens,
a return closes. -/

def framePermLayout : FrameStackPermLayout where
  zColumn := 0
  numColumns := 1
  tupleColumns :=
    [colFrameDepth, colFrameCallerL0, colFrameCallerL1, colFrameCallerL2, colFrameCallerL3,
      colFrameCalleeL0, colFrameCalleeL1, colFrameCalleeL2, colFrameCalleeL3,
      colFrameValueL0, colFrameValueL1, colFrameValueL2, colFrameValueL3, colFrameReturnPc,
      colFrameStatic, colFrameGas, colFrameReturnOffset, colFrameReturnSize].map Fin.val
  pushSelectors :=
    [colSelCallPushFrame, colSelCallcode, colSelDelegatecall, colSelCreate, colSelCreate2,
      colSelStaticcall].map Fin.val
  popSelectors := [colSelCallReturn, colSelRevert, colSelStopPop].map Fin.val

section Traces

variable {p : ℕ} (events : ℕ → Event) (size : ℕ) (trace : ℕ → ℕ → ZMod p)

/-- The depth goes up after a push and down after a pop. -/
def DepthTracks : Prop :=
  ∀ i, i + 1 < size →
    trace (i + 1) colFrameDepth.val = trace i colFrameDepth.val + ((events i).change : ZMod p)

/-- After every pop the frame is the one that the matching push saved. -/
def RestoresMatching : Prop :=
  ∀ i < size, events i = .closes → ∃ opening, (pending events i).head? = some opening ∧
    framePermLayout.tupleAt (trace ((i + 1) % size)) = framePermLayout.tupleAt (trace opening)

/-- As many pushes as pops. -/
def Balanced : Prop :=
  ((Finset.range size).filter fun i => events i = .opens).card =
    ((Finset.range size).filter fun i => events i = .closes).card

variable {events size trace}

theorem Balanced.height_eq_zero (balanced : Balanced events size) : height events size = 0 := by
  rw [height_eq, balanced, sub_self]

theorem balanced_of_frames [Fact p.Prime]
    (same : savedFrames framePermLayout events size trace =
      restoredFrames framePermLayout events size trace) : Balanced events size := by
  have cards := congrArg Multiset.card same
  rw [savedFrames, restoredFrames, Multiset.card_map, Multiset.card_map] at cards
  exact cards

theorem DepthTracks.depth_eq (tracks : DepthTracks events size trace) {i : ℕ} (inside : i < size) :
    trace i colFrameDepth.val = trace 0 colFrameDepth.val + (height events i : ZMod p) := by
  induction i with
  | zero => rw [height, Int.cast_zero, add_zero]
  | succ i hypothesis =>
      rw [tracks i inside, hypothesis (Nat.lt_of_succ_lt inside), height, Int.cast_add, add_assoc]

/-- The depth of the row that follows, around the end of the trace too. -/
theorem DepthTracks.depth_next (tracks : DepthTracks events size trace)
    (balanced : Balanced events size) {i : ℕ} (inside : i < size) :
    trace ((i + 1) % size) colFrameDepth.val =
      trace 0 colFrameDepth.val + (height events (i + 1) : ZMod p) := by
  rcases Nat.lt_or_eq_of_le (Nat.succ_le_of_lt inside) with before | last
  · rw [Nat.mod_eq_of_lt before, tracks.depth_eq before]
  · rw [← Nat.succ_eq_add_one, last, Nat.mod_self, balanced.height_eq_zero, Int.cast_zero, add_zero]

theorem size_le_order [Fact p.Prime] {omega : ZMod p}
    (root : IsPrimitiveRoot omega size) : size ≤ p := by
  have injective : Function.Injective fun i : Fin size => omega ^ (i : ℕ) :=
    fun first second same => Fin.ext (root.pow_inj first.isLt second.isLt same)
  have cards := Fintype.card_le_of_injective _ injective
  rwa [Fintype.card_fin, ZMod.card] at cards

/-- Heights of matched rows are told apart by their depths. -/
theorem height_eq_of_depth (matched : Matched events size) (small : size ≤ p)
    {first second : ℕ} (belowFirst : first < size) (belowSecond : second < size)
    (same : (height events first : ZMod p) = height events second) :
    height events first = height events second := by
  have ground : ∀ row < size, ∃ count < p, height events row = (count : ℕ) := by
    intro row inside
    have short : ∀ row, (pending events row).length ≤ row := by
      intro row
      induction row with
      | zero => exact le_rfl
      | succ row hypothesis =>
          rw [pending]
          cases events row with
          | opens => exact Nat.succ_le_succ hypothesis
          | closes => exact (List.length_tail ▸ Nat.sub_le _ _).trans (hypothesis.trans (Nat.le_succ _))
          | rests => exact hypothesis.trans (Nat.le_succ _)
    exact ⟨_, ((short row).trans_lt inside).trans_le small,
      (map_height_pending fun earlier below => matched earlier (below.trans inside)).1⟩
  obtain ⟨one, oneSmall, isOne⟩ := ground first belowFirst
  obtain ⟨two, twoSmall, isTwo⟩ := ground second belowSecond
  rw [isOne, isTwo, Int.cast_natCast, Int.cast_natCast, ZMod.natCast_eq_natCast_iff',
    Nat.mod_eq_of_lt oneSmall, Nat.mod_eq_of_lt twoSmall] at same
  rw [isOne, isTwo, same]

/-- Where no two pushes have the same depth, equal frames are matching frames. -/
theorem restoresMatching_of_apart [Fact p.Prime] (matched : Matched events size)
    (apart : Nesting.Apart events size) (small : size ≤ p)
    (tracks : DepthTracks events size trace)
    (same : savedFrames framePermLayout events size trace =
      restoredFrames framePermLayout events size trace) :
    RestoresMatching events size trace := by
  intro i inside closes
  obtain ⟨opening, rest, isCons⟩ := List.exists_cons_of_ne_nil (matched i inside closes)
  have head : (pending events i).head? = some opening := by rw [isCons, List.head?_cons]
  have member : opening ∈ pending events i := by rw [isCons]; exact List.mem_cons_self
  obtain ⟨before, opens⟩ := mem_pending member
  refine ⟨opening, head, ?_⟩
  have restored : framePermLayout.tupleAt (trace ((i + 1) % size)) ∈
      savedFrames framePermLayout events size trace := by
    rw [same]
    exact Multiset.mem_map.2 ⟨i, Finset.mem_filter.2 ⟨Finset.mem_range.2 inside, closes⟩, rfl⟩
  obtain ⟨other, saves, equal⟩ := Multiset.mem_map.1 restored
  obtain ⟨otherInside, otherOpens⟩ := Finset.mem_filter.1 (Finset.mem_def.2 saves)
  have below := Finset.mem_range.1 otherInside
  have depths : trace other colFrameDepth.val = trace ((i + 1) % size) colFrameDepth.val :=
    (List.cons.inj equal).1
  rw [tracks.depth_eq below, tracks.depth_next (balanced_of_frames same) inside, add_right_inj,
    ← height_head matched inside closes head] at depths
  have heights := height_eq_of_depth matched small below (before.trans inside) depths
  rw [← equal, apart other below opening (before.trans inside) otherOpens opens heights]

/-! A trace whose frames differ from after one push up to another. -/

/-- A frame that is told by its depth and by whether it is marked. -/
def markedFrame (frame : ℤ × Bool) (column : ℕ) : ZMod p :=
  if column = colFrameDepth.val then (frame.1 : ZMod p)
  else if column = colFrameCallerL0.val then (if frame.2 then 1 else 0) else 0

def markedTrace (events : ℕ → Event) (first second i column : ℕ) : ZMod p :=
  if column = colSelCallPushFrame.val then (if events i = .opens then 1 else 0)
  else if column = colSelCallReturn.val then (if events i = .closes then 1 else 0)
  else markedFrame (key events first second i) column

theorem markedTrace_follows [Fact p.Prime] (first second : ℕ) :
    FollowsEvents framePermLayout events size
      (markedTrace events first second : ℕ → ℕ → ZMod p) where
  push := by
    intro i _
    simp [FrameStackPermLayout.isPush, framePermLayout, markedTrace, markedFrame]
  pop := by
    intro i _
    simp [FrameStackPermLayout.isPop, framePermLayout, markedTrace, markedFrame]

theorem tupleAt_markedTrace [Fact p.Prime] (first second i : ℕ) :
    framePermLayout.tupleAt (markedTrace events first second i : ℕ → ZMod p) =
      framePermLayout.tupleAt (markedFrame (key events first second i)) := by
  refine List.map_congr_left fun column member => ?_
  have apart : ∀ column ∈ framePermLayout.tupleColumns,
      column ≠ colSelCallPushFrame.val ∧ column ≠ colSelCallReturn.val := by decide
  rw [markedTrace, if_neg (apart column member).1, if_neg (apart column member).2]

theorem markedTrace_tracks (first second : ℕ) :
    DepthTracks events size (markedTrace events first second : ℕ → ℕ → ZMod p) := by
  intro i _
  show ((height events (i + 1) : ℤ) : ZMod p) = (height events i : ℤ) + _
  rw [height, Int.cast_add]

theorem markedTrace_closes [Fact p.Prime] {first second : ℕ} (balanced : Balanced events size)
    (inside : second < size)
    (part : ∀ level, ups events level (first + 1) (second + 1) = downs events level first second) :
    savedFrames framePermLayout events size
        (markedTrace events first second : ℕ → ℕ → ZMod p) =
      restoredFrames framePermLayout events size (markedTrace events first second) := by
  have home := balanced.height_eq_zero
  have around : ∀ i < size, key events first second ((i + 1) % size) =
      key events first second (i + 1) := by
    intro i below
    rcases Nat.lt_or_eq_of_le (Nat.succ_le_of_lt below) with before | last
    · rw [Nat.mod_eq_of_lt before]
    · rw [← Nat.succ_eq_add_one, last, Nat.mod_self, key, key, home, height]
      congr 1
      rw [decide_eq_decide]
      omega
  rw [savedFrames, restoredFrames]
  simp only [tupleAt_markedTrace]
  have frames := congrArg
    (Multiset.map fun frame => framePermLayout.tupleAt (markedFrame frame : ℕ → ZMod p))
    (saved_eq_restored inside home part)
  rw [Multiset.map_map, Multiset.map_map] at frames
  refine frames.trans (Multiset.map_congr rfl fun i member => ?_)
  have below := Finset.mem_range.1 (Finset.mem_filter.1 (Finset.mem_def.2 member)).1
  rw [Function.comp_apply, around i below]

/-- Marked rows are told from the other rows. -/
theorem key_eq_of_tupleAt [Fact p.Prime] {first second i j : ℕ}
    (same : framePermLayout.tupleAt (markedTrace events first second i : ℕ → ZMod p) =
      framePermLayout.tupleAt (markedTrace events first second j)) :
    (key events first second i).2 = (key events first second j).2 := by
  have callers : (if (key events first second i).2 then (1 : ZMod p) else 0) =
      if (key events first second j).2 then 1 else 0 := (List.cons.inj (List.cons.inj same).2).1
  cases one : (key events first second i).2 <;> cases two : (key events first second j).2 <;>
    simp [one, two] at callers ⊢

end Traces

section Main

variable {p : ℕ} [Fact p.Prime] {L K : Type} [Field L] [Field K]
  [DecidableEq K] [Algebra (ZMod p) L] [Algebra (ZMod p) K] [Algebra L K]
  [IsScalarTower (ZMod p) L K]

/-- Every trace with these events whose running product closes restores the matching
frames. -/
def RestorationSound (gamma delta : K) (omega : ZMod p) (size : ℕ)
    (events : ℕ → Event) : Prop :=
  ∀ trace : ℕ → ℕ → ZMod p, FollowsEvents framePermLayout events size trace →
    DepthTracks events size trace →
    FramePermHolds framePermLayout gamma delta size trace omega
      (framePermZ framePermLayout gamma delta size trace) →
    RestoresMatching events size trace

variable {gamma : K} {delta : L} {omega : ZMod p} {size : ℕ} {events : ℕ → Event}

/-- The running product enforces that frames are restored in order exactly when it
cannot close at all, or every pop has a push and no two pushes have the same depth. -/
theorem frame_restoration_sound_iff (freeDelta : Transcendental (ZMod p) delta)
    (freeGamma : Transcendental L gamma) (root : IsPrimitiveRoot omega size) :
    RestorationSound gamma (algebraMap L K delta) omega size events ↔
      ¬ Balanced events size ∨ Matched events size ∧ Nesting.Apart events size := by
  have closes_iff := fun {trace : ℕ → ℕ → ZMod p}
    (follows : FollowsEvents framePermLayout events size trace) =>
    framePermZ_holds_iff freeDelta freeGamma root follows
  constructor
  · intro sound
    by_contra fails
    obtain ⟨balanced, notBoth⟩ := not_or.1 fails
    have balanced := not_not.1 balanced
    have restores : ∀ first second, second < size →
        (∀ level, ups events level (first + 1) (second + 1) = downs events level first second) →
        RestoresMatching events size (markedTrace events first second : ℕ → ℕ → ZMod p) :=
      fun first second inside part => sound _ (markedTrace_follows first second)
        (markedTrace_tracks first second)
        ((closes_iff (markedTrace_follows first second)).2
          (markedTrace_closes balanced inside part))
    have matched : Matched events size := by
      intro i inside closes none
      obtain ⟨opening, head, _⟩ := restores 0 0 (Nat.zero_lt_of_lt inside)
        (fun level => ups_eq_downs_empty level 0) i inside closes
      rw [none] at head
      cases head
    apply notBoth
    refine ⟨matched, ?_⟩
    have distinct : ∀ first second, first < second → second < size → events first = .opens →
        events second = .opens → height events first ≠ height events second := by
      intro first second ordered inside opensFirst opensSecond level
      obtain ⟨row, after, before, closes, head⟩ :=
        exists_closing_between matched ordered inside opensFirst level
      obtain ⟨opening, head', same⟩ := restores first second inside
        (ups_eq_downs ordered opensFirst opensSecond level) row (before.trans inside) closes
      obtain rfl := Option.some.inj (head.symm.trans head')
      rw [Nat.mod_eq_of_lt (Nat.lt_of_le_of_lt before inside)] at same
      have marks := key_eq_of_tupleAt same
      simp only [key, lt_irrefl, false_and, decide_false, decide_eq_false_iff_not] at marks
      exact marks ⟨Nat.lt_succ_of_lt after, before⟩
    intro first firstInside second secondInside opensFirst opensSecond level
    rcases Nat.lt_trichotomy first second with before | same | after
    · exact absurd level (distinct first second before secondInside opensFirst opensSecond)
    · exact same
    · exact absurd level.symm (distinct second first after firstInside opensSecond opensFirst)
  · intro condition trace follows tracks holds
    have same := (closes_iff follows).1 holds
    obtain ⟨matched, apart⟩ := condition.resolve_left (not_not.2 (balanced_of_frames same))
    exact restoresMatching_of_apart matched apart (size_le_order root) tracks same

end Main

section Examples

/-- A call within a call. -/
def nestedCalls : ℕ → Event
  | 0 => .opens
  | 1 => .opens
  | 2 => .closes
  | 3 => .closes
  | _ => .rests

open Classical in
/-- Nested calls have different depths. -/
theorem frame_restoration_nestedCalls : RestorationSound (RatFunc.X : RatFunc (RatFunc Fr))
    (algebraMap (RatFunc Fr) _ RatFunc.X) (rootTwoPow32 ^ 2 ^ 28 : Fr) 16
    nestedCalls := by
  refine (@frame_restoration_sound_iff bls12381Order _ (RatFunc Fr) (RatFunc (RatFunc Fr)) _ _ _ _ _ _
    _ RatFunc.X RatFunc.X _ 16 nestedCalls RatFunc.transcendental_X RatFunc.transcendental_X
    sixteenth_primitive).2 (.inr ⟨?_, ?_⟩)
  · unfold Matched
    decide
  · unfold Nesting.Apart
    decide

/-- Two calls one after the other. -/
def siblingCalls : ℕ → Event
  | 0 => .opens
  | 1 => .closes
  | 2 => .opens
  | 3 => .closes
  | _ => .rests

open Classical in
/-- The second of two calls can restore what the first one saved, and the first one
what the second one saves. -/
theorem frame_restoration_siblingCalls : ¬ ∀ events,
    RestorationSound (RatFunc.X : RatFunc (RatFunc Fr)) (algebraMap (RatFunc Fr) _ RatFunc.X)
      (rootTwoPow32 ^ 2 ^ 28 : Fr) 16 events := by
  intro sound
  have follows : FollowsEvents framePermLayout siblingCalls 16
      (markedTrace siblingCalls 0 2 : ℕ → ℕ → Fr) := markedTrace_follows 0 2
  have closes := (@framePermZ_holds_iff bls12381Order _ (RatFunc Fr) (RatFunc (RatFunc Fr)) _ _ _ _ _ _
    _ siblingCalls 16 _ _ (rootTwoPow32 ^ 2 ^ 28) RatFunc.X RatFunc.X RatFunc.transcendental_X
    RatFunc.transcendental_X sixteenth_primitive follows).2
    (markedTrace_closes (by unfold Balanced; decide) (by decide)
      (ups_eq_downs (by decide) rfl rfl rfl))
  obtain ⟨opening, head, same⟩ := sound siblingCalls _ follows (markedTrace_tracks 0 2) closes 1
    (by decide) rfl
  obtain rfl : 0 = opening := Option.some.inj head
  have marks := key_eq_of_tupleAt same
  exact absurd marks (by decide)

end Examples

end MetaVm.Evm
