import Mathlib
import MetaVm.Evm.Semantics
import MetaVm.Lib.Walk

namespace MetaVm.Evm

open Relation

/-! The scan for jump targets. -/

abbrev opcodeJumpdest : Opcode := 0x5B

abbrev opcodePush1 : Opcode := 0x60

abbrev opcodePush32 : Opcode := 0x7F

/-- The scanning loop, from `pc` on. -/
def scanJumpdests (bytecode : List Opcode) (pc : ℕ) (out : List ℕ) : List ℕ :=
  if inside : pc < bytecode.length then
    let op := bytecode.get ⟨pc, inside⟩
    if op = opcodeJumpdest then
      scanJumpdests bytecode (pc + 1) (out ++ [pc])
    else if opcodePush1 ≤ op ∧ op ≤ opcodePush32 then
      let n := (op - opcodePush1).toNat + 1
      scanJumpdests bytecode (pc + (1 + n)) out
    else
      scanJumpdests bytecode (pc + 1) out
  else out
termination_by bytecode.length - pc

def validJumpdestPositions (bytecode : List Opcode) : List ℕ := scanJumpdests bytecode 0 []

/-- Mark a position. There is no result where the index is out of range. -/
def markPosition (bitmap : List Bool) (pc : ℕ) : Option (List Bool) :=
  if pc < bitmap.length then some (bitmap.set pc true) else none

def validJumpdestBitmap (bytecode : List Opcode) : Option (List Bool) :=
  (validJumpdestPositions bytecode).foldlM markPosition (List.replicate bytecode.length false)

def isValidJumpdest (bytecode : List Opcode) (target : ℕ) : Option Bool :=
  if bytecode.length ≤ target then some false
  else do
    let bitmap ← validJumpdestBitmap bytecode
    bitmap[target]?

/-! The instruction stream: an instruction takes its opcode and, after a push, its
immediate bytes. -/

/-- The bytes that an instruction takes. -/
def instructionWidth (op : Opcode) : ℕ :=
  if 0x60 ≤ op.toNat ∧ op.toNat ≤ 0x7F then 1 + (op.toNat - 0x5F) else 1

/-- Where the instruction after the one at `pc` starts. -/
def nextInstruction (bytecode : List Opcode) (pc : ℕ) : Option ℕ :=
  bytecode[pc]?.map fun op => pc + instructionWidth op

/-- The positions that instructions start at, from position zero. -/
def InstructionStart (bytecode : List Opcode) (pc : ℕ) : Prop :=
  ReflTransGen (Walk.Step (nextInstruction bytecode)) 0 pc

/-- The position lies in the immediate bytes of an instruction of the stream,
whether or not the code has all of these bytes. -/
def InsideImmediate (bytecode : List Opcode) (pc : ℕ) : Prop :=
  ∃ start op, InstructionStart bytecode start ∧ bytecode[start]? = some op ∧
    start < pc ∧ pc < start + instructionWidth op

variable {bytecode : List Opcode} {pc p : ℕ} {op : Opcode} {out : List ℕ}

theorem instructionWidth_pos (op : Opcode) : 0 < instructionWidth op := by
  rw [instructionWidth]
  split_ifs
  · exact Nat.add_pos_left Nat.one_pos _
  · exact Nat.one_pos

theorem instructionWidth_push (first : opcodePush1 ≤ op) (last : op ≤ opcodePush32) :
    instructionWidth op = 1 + ((op - opcodePush1).toNat + 1) := by
  have low : 0x60 ≤ op.toNat := first
  have high : op.toNat ≤ 0x7F := last
  have offset : (op - opcodePush1).toNat = op.toNat - 0x60 := BitVec.toNat_sub_of_le first
  rw [instructionWidth, if_pos ⟨low, high⟩, offset]
  omega

theorem instructionWidth_other (other : ¬(opcodePush1 ≤ op ∧ op ≤ opcodePush32)) :
    instructionWidth op = 1 := if_neg other

theorem instructionStep_iff : Walk.Step (nextInstruction bytecode) pc p ↔
    ∃ op, bytecode[pc]? = some op ∧ pc + instructionWidth op = p := by
  rw [Walk.Step, nextInstruction, Option.map_eq_some_iff]

theorem lt_of_instructionStep (step : Walk.Step (nextInstruction bytecode) pc p) : pc < p := by
  obtain ⟨op, -, rfl⟩ := instructionStep_iff.1 step
  exact Nat.lt_add_of_pos_right (instructionWidth_pos op)

theorem le_of_instructionReach (reach : ReflTransGen (Walk.Step (nextInstruction bytecode)) pc p) :
    pc ≤ p := by
  induction reach with
  | refl => exact Nat.le_refl pc
  | tail _ step hypothesis => exact hypothesis.trans (lt_of_instructionStep step).le

/-- From an instruction one reaches it, or what the next one reaches. -/
theorem instructionReach_iff (here : bytecode[pc]? = some op) :
    ReflTransGen (Walk.Step (nextInstruction bytecode)) pc p ↔
      p = pc ∨
        ReflTransGen (Walk.Step (nextInstruction bytecode)) (pc + instructionWidth op) p := by
  constructor
  · intro reach
    rcases ReflTransGen.cases_head reach with same | ⟨next, step, rest⟩
    · exact Or.inl same.symm
    · obtain ⟨other, otherHere, rfl⟩ := instructionStep_iff.1 step
      obtain rfl := Option.some.inj (here.symm.trans otherHere)
      exact Or.inr rest
  · rintro (rfl | rest)
    · exact .refl
    · exact .head (instructionStep_iff.2 ⟨op, here, rfl⟩) rest

/-- Of two instructions of the stream, the later one starts behind the bytes of
the earlier one. -/
theorem not_insideImmediate (start : InstructionStart bytecode p) :
    ¬InsideImmediate bytecode p := by
  rintro ⟨other, op, otherStart, here, after, before⟩
  have unique : Relator.RightUnique (Walk.Step (nextInstruction bytecode)) :=
    fun _ _ _ first second => Option.some.inj (first.symm.trans second)
  rcases ReflTransGen.total_of_right_unique unique otherStart start with reach | reach
  · rcases (instructionReach_iff here).1 reach with rfl | rest
    · exact Nat.lt_irrefl p after
    · exact absurd (le_of_instructionReach rest) (Nat.not_le.2 before)
  · exact absurd (le_of_instructionReach reach) (Nat.not_le.2 after)

/-! One round of the loop, whatever the byte is. -/

theorem scanJumpdests_step (here : bytecode[pc]? = some op) :
    scanJumpdests bytecode pc out =
      scanJumpdests bytecode (pc + instructionWidth op)
        (if op = opcodeJumpdest then out ++ [pc] else out) := by
  obtain ⟨inside, byteEq⟩ := List.getElem?_eq_some_iff.1 here
  rw [scanJumpdests, dif_pos inside]
  simp only [List.get_eq_getElem, byteEq]
  by_cases dest : op = opcodeJumpdest
  · subst dest
    rw [if_pos rfl, if_pos rfl, instructionWidth_other (by decide)]
  · rw [if_neg dest, if_neg dest]
    by_cases push : opcodePush1 ≤ op ∧ op ≤ opcodePush32
    · rw [if_pos push, instructionWidth_push push.1 push.2]
    · rw [if_neg push, instructionWidth_other push]

theorem scanJumpdests_end (ended : bytecode[pc]? = none) :
    scanJumpdests bytecode pc out = out := by
  rw [scanJumpdests, dif_neg (Nat.not_lt.2 (List.getElem?_eq_none_iff.1 ended))]

/-- What holds at the end of the code, and before an instruction where it holds
behind it, holds everywhere. -/
theorem walk_induction (bytecode : List Opcode) {motive : ℕ → Prop}
    (ended : ∀ pc, bytecode[pc]? = none → motive pc)
    (step : ∀ pc op, bytecode[pc]? = some op → motive (pc + instructionWidth op) → motive pc)
    (pc : ℕ) : motive pc := by
  generalize left : bytecode.length - pc = remaining
  induction remaining using Nat.strong_induction_on generalizing pc with
  | h remaining hypothesis =>
      cases here : bytecode[pc]? with
      | none => exact ended pc here
      | some op =>
          have inside : pc < bytecode.length := (List.getElem?_eq_some_iff.1 here).1
          have wide : 0 < instructionWidth op := instructionWidth_pos op
          refine step pc op here (hypothesis _ ?_ _ rfl)
          omega

/-- The loop adds the jump targets among the instructions from `pc` on. -/
theorem mem_scanJumpdests : p ∈ scanJumpdests bytecode pc out ↔
    p ∈ out ∨ (bytecode[p]? = some opcodeJumpdest ∧
      ReflTransGen (Walk.Step (nextInstruction bytecode)) pc p) := by
  induction pc using walk_induction bytecode generalizing out with
  | ended pc ended =>
      rw [scanJumpdests_end ended]
      refine ⟨Or.inl, ?_⟩
      rintro (before | ⟨target, reach⟩)
      · exact before
      · rcases ReflTransGen.cases_head reach with rfl | ⟨next, step, -⟩
        · cases ended.symm.trans target
        · obtain ⟨op, here, -⟩ := instructionStep_iff.1 step
          cases ended.symm.trans here
  | step pc op here hypothesis =>
      rw [scanJumpdests_step here, hypothesis, instructionReach_iff here]
      constructor
      · rintro (found | ⟨target, reach⟩)
        · split_ifs at found with dest
          · rcases List.mem_append.1 found with before | now
            · exact Or.inl before
            · obtain rfl := List.mem_singleton.1 now
              exact Or.inr ⟨dest ▸ here, Or.inl rfl⟩
          · exact Or.inl found
        · exact Or.inr ⟨target, Or.inr reach⟩
      · rintro (before | ⟨target, rfl | reach⟩)
        · refine Or.inl ?_
          split_ifs
          · exact List.mem_append_left _ before
          · exact before
        · obtain rfl := Option.some.inj (here.symm.trans target)
          rw [if_pos rfl]
          exact Or.inl (List.mem_append_right _ (List.mem_singleton_self p))
        · exact Or.inr ⟨target, reach⟩

/-- The loop keeps what it has in increasing order. -/
theorem pairwise_scanJumpdests (before : ∀ q ∈ out, q < pc) (ordered : out.Pairwise (· < ·)) :
    (scanJumpdests bytecode pc out).Pairwise (· < ·) := by
  induction pc using walk_induction bytecode generalizing out with
  | ended pc ended =>
      rw [scanJumpdests_end ended]
      exact ordered
  | step pc op here hypothesis =>
      have wide : 0 < instructionWidth op := instructionWidth_pos op
      rw [scanJumpdests_step here]
      split_ifs
      · refine hypothesis ?_ ?_
        · intro q found
          rcases List.mem_append.1 found with old | now
          · exact (before q old).trans_le (Nat.le_add_right pc _)
          · rw [List.mem_singleton.1 now]
            exact Nat.lt_add_of_pos_right wide
        · refine List.pairwise_append.2 ⟨ordered, List.pairwise_singleton _ pc, ?_⟩
          intro q old r now
          rw [List.mem_singleton.1 now]
          exact before q old
      · exact hypothesis (fun q old => (before q old).trans_le (Nat.le_add_right pc _)) ordered

/-! The positions found, as a list and as a bitmap. -/

theorem mem_validJumpdestPositions : p ∈ validJumpdestPositions bytecode ↔
    bytecode[p]? = some opcodeJumpdest ∧ InstructionStart bytecode p := by
  rw [validJumpdestPositions, mem_scanJumpdests]
  exact or_iff_right (List.not_mem_nil)

theorem lt_length_of_mem (found : p ∈ validJumpdestPositions bytecode) :
    p < bytecode.length :=
  (List.getElem?_eq_some_iff.1 (mem_validJumpdestPositions.1 found).1).1

/-- Marking positions of a bitmap marks these and no others. -/
theorem foldlM_markPosition {positions : List ℕ} {bitmap : List Bool}
    (inside : ∀ q ∈ positions, q < bitmap.length) :
    positions.foldlM markPosition bitmap =
      some (bitmap.mapIdx fun q bit => bit || decide (q ∈ positions)) := by
  induction positions generalizing bitmap with
  | nil =>
      rw [List.foldlM_nil]
      refine congrArg some (List.ext_getElem? fun q => ?_)
      rw [List.getElem?_mapIdx]
      cases bitmap[q]? with
      | none => rfl
      | some bit => simp
  | cons first rest hypothesis =>
      have firstInside : first < bitmap.length := inside first List.mem_cons_self
      have restInside : ∀ q ∈ rest, q < (bitmap.set first true).length := by
        intro q found
        rw [List.length_set]
        exact inside q (List.mem_cons_of_mem first found)
      rw [List.foldlM_cons, markPosition, if_pos firstInside]
      refine (hypothesis restInside).trans (congrArg some (List.ext_getElem? fun q => ?_))
      rw [List.getElem?_mapIdx, List.getElem?_mapIdx, List.getElem?_set]
      by_cases same : first = q
      · subst same
        simp [firstInside]
      · have other : q ≠ first := fun eq => same eq.symm
        simp [same, other]

theorem validJumpdestBitmap_eq : validJumpdestBitmap bytecode =
    some ((List.range bytecode.length).map fun q =>
      decide (q ∈ validJumpdestPositions bytecode)) := by
  have inside : ∀ q ∈ validJumpdestPositions bytecode,
      q < (List.replicate bytecode.length false).length := by
    intro q found
    rw [List.length_replicate]
    exact lt_length_of_mem found
  rw [validJumpdestBitmap, foldlM_markPosition inside]
  refine congrArg some (List.ext_getElem? fun q => ?_)
  rw [List.getElem?_mapIdx, List.getElem?_map, List.getElem?_replicate]
  by_cases within : q < bytecode.length
  · rw [if_pos within, List.getElem?_range within]
    rfl
  · rw [if_neg within, List.getElem?_eq_none (by simpa using within)]
    rfl

theorem isValidJumpdest_eq (target : ℕ) : isValidJumpdest bytecode target =
    some (decide (target ∈ validJumpdestPositions bytecode)) := by
  rw [isValidJumpdest, validJumpdestBitmap_eq]
  by_cases beyond : bytecode.length ≤ target
  · have missing : target ∉ validJumpdestPositions bytecode :=
      fun found => Nat.not_lt.2 beyond (lt_length_of_mem found)
    rw [if_pos beyond, decide_eq_false missing]
  · rw [if_neg beyond, Option.bind_eq_bind, Option.bind_some, List.getElem?_map,
      List.getElem?_range (Nat.not_le.1 beyond)]
    rfl

/-- The positions are, in increasing order, the jump targets at which
instructions start. The bitmap and the check agree with them everywhere, and none
of them lies in the bytes of a push. -/
theorem validJumpdestPositions_exact (bytecode : List Opcode) :
    (validJumpdestPositions bytecode).Pairwise (· < ·) ∧
      (∀ p, p ∈ validJumpdestPositions bytecode ↔
        bytecode[p]? = some opcodeJumpdest ∧ InstructionStart bytecode p) ∧
      validJumpdestBitmap bytecode = some ((List.range bytecode.length).map fun p =>
        decide (p ∈ validJumpdestPositions bytecode)) ∧
      (∀ target, isValidJumpdest bytecode target =
        some (decide (target ∈ validJumpdestPositions bytecode))) ∧
      ∀ p ∈ validJumpdestPositions bytecode, ¬InsideImmediate bytecode p := by
  have ordered : (validJumpdestPositions bytecode).Pairwise (· < ·) :=
    pairwise_scanJumpdests (fun q found => absurd found List.not_mem_nil) .nil
  refine ⟨ordered, fun p => mem_validJumpdestPositions, validJumpdestBitmap_eq,
    isValidJumpdest_eq, ?_⟩
  intro p found
  exact not_insideImmediate (mem_validJumpdestPositions.1 found).2

end MetaVm.Evm
