import MetaVm.Evm.Execution

namespace MetaVm.Evm

/-! The check that stack depths agree with the instructions. -/

/-- How many words the check lets an instruction take and put. -/
def stackDelta (opcode : Opcode) : Option (ℕ × ℕ) :=
  let op := opcode.toNat
  if op = 0x00 then some (0, 0)
  else if 0x01 ≤ op ∧ op ≤ 0x0B then some (2, 1)
  else if 0x10 ≤ op ∧ op ≤ 0x1D then some (2, 1)
  else if op = 0x20 then some (2, 1)
  else if op = 0x30 then some (0, 1)
  else if op = 0x31 then some (1, 1)
  else if op = 0x32 then some (0, 1)
  else if op = 0x33 then some (0, 1)
  else if op = 0x34 then some (0, 1)
  else if op = 0x35 then some (1, 1)
  else if op = 0x36 then some (0, 1)
  else if op = 0x37 then some (3, 0)
  else if op = 0x38 then some (0, 1)
  else if op = 0x39 then some (3, 0)
  else if op = 0x3A then some (0, 1)
  else if op = 0x3B then some (1, 1)
  else if op = 0x3C then some (4, 0)
  else if op = 0x3D then some (0, 1)
  else if op = 0x3E then some (3, 0)
  else if op = 0x3F then some (1, 1)
  else if op = 0x40 then some (1, 1)
  else if 0x41 ≤ op ∧ op ≤ 0x48 then some (0, 1)
  else if op = 0x50 then some (1, 0)
  else if op = 0x51 then some (1, 1)
  else if op = 0x52 then some (2, 0)
  else if op = 0x53 then some (2, 0)
  else if op = 0x54 then some (1, 1)
  else if op = 0x55 then some (2, 0)
  else if op = 0x56 then some (1, 0)
  else if op = 0x57 then some (2, 0)
  else if op = 0x58 then some (0, 1)
  else if op = 0x59 then some (0, 1)
  else if op = 0x5A then some (0, 1)
  else if op = 0x5B then some (0, 0)
  else if op = 0x5F then some (0, 1)
  else if 0x60 ≤ op ∧ op ≤ 0x7F then some (0, 1)
  else if 0x80 ≤ op ∧ op ≤ 0x8F then some (op - 0x80 + 1, op - 0x80 + 2)
  else if 0x90 ≤ op ∧ op ≤ 0x9F then some (op - 0x90 + 2, op - 0x90 + 2)
  else if op = 0xA0 then some (2, 0)
  else if op = 0xA1 then some (3, 0)
  else if op = 0xA2 then some (4, 0)
  else if op = 0xA3 then some (5, 0)
  else if op = 0xA4 then some (6, 0)
  else if op = 0xF0 then some (3, 1)
  else if op = 0xF1 then some (7, 1)
  else if op = 0xF3 then some (2, 0)
  else if op = 0xF5 then some (4, 1)
  else if op = 0xFA then some (6, 1)
  else if op = 0xFD then some (2, 0)
  else if op = 0xFE then some (0, 0)
  else if op = 0xFF then some (1, 0)
  else none

/-- The columns that the check reads: the opcode and the depth of each row. -/
abbrev DepthColumns : Type := List (Opcode × U64)

def depthColumns (trace : List EvmTraceRow) : DepthColumns :=
  trace.map fun row => (row.opcode, row.stackDepth)

def hexDigit (digit : ℕ) : Char := "0123456789abcdef".toList.getD digit '0'

/-- Two hexadecimal digits. -/
def hexByte (byte : BitVec 8) : String :=
  String.ofList [hexDigit (byte.toNat / 16), hexDigit (byte.toNat % 16)]

def depthMessage (r : ℕ) (opcode : Opcode) (current next expected : ℕ) : String :=
  s!"step {r}: opcode 0x{hexByte opcode} stack {current} -> {next} (expected {expected})"

/-- A row and the depth of the next one. The subtraction and the addition stop the program
where they overflow. -/
def checkDepth (r : ℕ) (row : Opcode × U64) (nextDepth : U64) : Except Fault Unit :=
  match stackDelta row.1 with
  | none => .ok ()
  | some (pops, pushes) =>
      let current := row.2.toNat
      let next := nextDepth.toNat
      if row.1 = 0x00 ∨ row.1 = 0xF3 ∨ row.1 = 0xFD then .ok ()
      else if 0xF0 ≤ row.1.toNat then .ok ()
      else if current < pops ∨ 2 ^ 64 ≤ current - pops + pushes then .error .panic
      else
        let expected := current - pops + pushes
        if next ≠ expected then
          .error (.failed (depthMessage r row.1 current next expected))
        else .ok ()

/-- The rows from `r` on, all but the last. -/
def verifyFrom : ℕ → DepthColumns → Except Fault Unit
  | r, row :: next :: rows => do
      checkDepth r row next.2
      verifyFrom (r + 1) (next :: rows)
  | _, _ => .ok ()

def verifyStackDepthConsistency (columns : DepthColumns) : Except Fault Unit :=
  verifyFrom 0 columns

/-! The rows that the check looks at. -/

/-- The instruction is known and does not end its frame or start another. -/
def Checked (opcode : Opcode) : Prop :=
  stackDelta opcode ≠ none ∧ opcode ≠ 0x00 ∧ opcode.toNat < 0xF0

instance (opcode : Opcode) : Decidable (Checked opcode) :=
  inferInstanceAs (Decidable (_ ∧ _))

/-- ADDMOD, MULMOD, ISZERO and NOT, which stand in ranges of instructions with two operands. -/
def Misgrouped (opcode : Opcode) : Prop := opcode ∈ [0x08, 0x09, 0x15, 0x19]

instance (opcode : Opcode) : Decidable (Misgrouped opcode) :=
  inferInstanceAs (Decidable (_ ∈ _))

theorem stackDelta_eq_stackArity : ∀ opcode : Opcode, Checked opcode → ¬Misgrouped opcode →
    stackDelta opcode = stackArity opcode := by
  decide

theorem not_checked_of_isCall : ∀ opcode : Opcode, IsCall opcode → ¬Checked opcode := by
  decide

theorem not_checked_of_isCreate : ∀ opcode : Opcode, IsCreate opcode → ¬Checked opcode := by
  decide

theorem not_checked_of_endsFrame : ∀ opcode : Opcode, EndsFrame opcode → ¬Checked opcode := by
  decide

/-- The depth that follows a row is what the table makes of the depth of the row. -/
def Agrees (row next : Opcode × U64) : Prop :=
  Checked row.1 → ∀ delta ∈ stackDelta row.1,
    delta.1 ≤ row.2.toNat ∧ next.2.toNat + delta.1 = row.2.toNat + delta.2

theorem checkDepth_eq_ok {r : ℕ} {row next : Opcode × U64} :
    checkDepth r row next.2 = .ok () ↔ Agrees row next := by
  rw [checkDepth, Agrees, Checked]
  cases known : stackDelta row.1 with
  | none => simp
  | some delta =>
      obtain ⟨pops, pushes⟩ := delta
      have nextLt := next.2.isLt
      dsimp only
      by_cases skipped : row.1 = 0x00 ∨ row.1 = 0xF3 ∨ row.1 = 0xFD
      · have unchecked : ¬(row.1 ≠ 0x00 ∧ row.1.toNat < 0xF0) := by
          rcases skipped with stop | ret | revert
          · exact fun checked => checked.1 stop
          · rw [ret]; decide
          · rw [revert]; decide
        rw [if_pos skipped]
        exact ⟨fun _ checked => absurd checked.2 unchecked, fun _ => rfl⟩
      · rw [if_neg skipped]
        by_cases high : 0xF0 ≤ row.1.toNat
        · rw [if_pos high]
          exact ⟨fun _ checked => absurd checked.2.2 (Nat.not_lt.2 high), fun _ => rfl⟩
        · rw [if_neg high]
          have checked : some (pops, pushes) ≠ none ∧ row.1 ≠ 0x00 ∧ row.1.toNat < 0xF0 :=
            ⟨nofun, fun stop => skipped (Or.inl stop), Nat.not_le.1 high⟩
          constructor
          · intro done _ delta isDelta
            obtain rfl := Option.some.inj isDelta
            split_ifs at done with overflow wrong
            dsimp only
            omega
          · intro agrees
            obtain ⟨enough, sum⟩ := agrees checked (pops, pushes) rfl
            dsimp only at enough sum
            rw [if_neg (by omega), if_neg (by omega)]

/-- The check accepts columns exactly when each row agrees with the next one. -/
theorem verifyFrom_eq_ok {columns : DepthColumns} {r : ℕ} :
    verifyFrom r columns = .ok () ↔ columns.IsChain Agrees := by
  induction columns generalizing r with
  | nil => simp [verifyFrom]
  | cons row rows hypothesis =>
      cases rows with
      | nil => simp [verifyFrom]
      | cons next rows =>
          rw [verifyFrom, except_bind_eq_ok, List.isChain_cons_cons, ← checkDepth_eq_ok,
            ← hypothesis]
          constructor
          · rintro ⟨_, first, rest⟩
            exact ⟨first, rest⟩
          · rintro ⟨first, rest⟩
            exact ⟨(), first, rest⟩

/-! Runs of the interpreter. -/

/-- Where the check does not know what an instruction does: it has the wrong operands for
it, or the frame halts there. -/
def Step.Slips (step : Step) : Prop :=
  Misgrouped step.frame.opcode ∨ (step.effect.Halts ∧ Checked step.frame.opcode)

instance (step : Step) : Decidable step.Slips := inferInstanceAs (Decidable (_ ∨ _))

/-- What the check reads of a row. -/
def Step.columns (step : Step) : Opcode × U64 := (step.row.opcode, step.row.stackDepth)

/-- No instruction takes more than seventeen words. -/
theorem stackArity_le : ∀ opcode : Opcode, ∀ arity ∈ stackArity opcode, arity.1 ≤ 17 := by
  decide

/-- The depth that the inspector records for a stack within its limit. -/
theorem toNat_depth {count : ℕ} (limited : count ≤ stackLimit + 17) :
    (BitVec.ofNat 64 count).toNat = count := by
  rw [stackLimit] at limited
  rw [BitVec.toNat_ofNat, Nat.mod_eq_of_lt (by omega)]

theorem agrees_of_execute {step second : Step} {pushed : List Word} {pc : ℕ}
    (recorded : step.Recorded) (secondRecorded : second.Recorded)
    (executes : step.effect = .execute pushed pc) (regular : ¬step.Slips)
    (follows : second.frame.stack = step.left) : Agrees step.columns second.columns := by
  have allowed := recorded.allowed
  rw [executes] at allowed
  obtain ⟨arity, isArity, enough, balance, limited⟩ := length_of_execute allowed
  intro checked delta isDelta
  rw [Step.columns, recorded.opcode] at checked isDelta
  have grouped : ¬Misgrouped step.frame.opcode := fun wrong => regular (Or.inl wrong)
  rw [stackDelta_eq_stackArity _ checked grouped, isArity] at isDelta
  obtain rfl := Option.some.inj isDelta
  have few := stackArity_le _ arity isArity
  have depth : step.row.stackDepth.toNat = step.frame.stack.length := by
    rw [recorded.depth]
    exact toNat_depth (by omega)
  have nextDepth : second.row.stackDepth.toNat = step.left.length := by
    rw [secondRecorded.depth, follows]
    exact toNat_depth (by omega)
  rw [Step.columns, Step.columns]
  dsimp only
  rw [depth, nextDepth]
  exact ⟨enough, balance⟩

/-- Rows of other instructions are not looked at, or their frame halts. -/
theorem agrees_of_other {step second : Step} (recorded : step.Recorded)
    (other : ∀ pushed pc, step.effect ≠ .execute pushed pc) (regular : ¬step.Slips) :
    Agrees step.columns second.columns := by
  intro checked
  rw [Step.columns, recorded.opcode] at checked
  have allowed := recorded.allowed
  exfalso
  cases effect : step.effect with
  | execute pushed pc => exact other pushed pc effect
  | enter inputs code =>
      rw [effect, EvmFrame.left] at allowed
      split_ifs at allowed with call
      exact not_checked_of_isCall _ call checked
  | answer inputs result =>
      rw [effect, EvmFrame.left] at allowed
      split_ifs at allowed with call
      exact not_checked_of_isCall _ call checked
  | enterCreate inputs code =>
      rw [effect, EvmFrame.left] at allowed
      split_ifs at allowed with create
      exact not_checked_of_isCreate _ create checked
  | answerCreate inputs result =>
      rw [effect, EvmFrame.left] at allowed
      split_ifs at allowed with create
      exact not_checked_of_isCreate _ create checked
  | finish result =>
      rw [effect, EvmFrame.left] at allowed
      split_ifs at allowed with ends
      exact not_checked_of_endsFrame _ ends checked
  | halt stack result =>
      refine regular (Or.inr ⟨?_, checked⟩)
      rw [effect]
      trivial

theorem isChain_steps {machine last : Machine} {events : List MachineEvent} {steps : List Step}
    (matching : machine.Matches) (done : machine.run events = some (steps, last))
    (regular : ∀ step ∈ steps.dropLast, ¬step.Slips) :
    (steps.map Step.columns).IsChain Agrees := by
  induction events generalizing machine steps with
  | nil =>
      cases done
      exact .nil
  | cons event events hypothesis =>
      have recorded := Machine.run_recorded matching done
      obtain ⟨step, next, later, first, rest, rfl⟩ := Machine.run_cons done
      have restMatches := Machine.advance_matches matching first
      cases later with
      | nil => exact .singleton _
      | cons second later =>
          rw [List.dropLast_cons_cons, List.forall_mem_cons] at regular
          rw [List.forall_mem_cons, List.forall_mem_cons] at recorded
          obtain ⟨stepRecorded, secondRecorded, -⟩ := recorded
          rw [List.map_cons, List.map_cons, List.isChain_cons_cons]
          refine ⟨?_, hypothesis restMatches rest regular.2⟩
          by_cases executes : ∃ pushed pc, step.effect = .execute pushed pc
          · obtain ⟨pushed, pc, effect⟩ := executes
            exact agrees_of_execute stepRecorded secondRecorded effect regular.1
              (Machine.stack_of_execute done effect)
          · exact agrees_of_other stepRecorded
              (fun pushed pc effect => executes ⟨pushed, pc, effect⟩) regular.1

theorem depthColumns_of_run {machine last : Machine} {events : List MachineEvent}
    {steps : List Step} (fresh : machine.inspector.trace = [])
    (done : machine.run events = some (steps, last)) :
    depthColumns last.inspector.trace = steps.map Step.columns := by
  have blind : TracingInspector.HintBlind fun row => (row.opcode, row.stackDepth) :=
    TracingInspector.hintBlind_withHints fun _ _ _ _ _ => rfl
  rw [depthColumns, Machine.map_trace_run blind done, fresh]
  rfl

/-- Depth changes as the instruction takes and puts words. -/
def ChangesByArity (row next : Opcode × U64) : Prop :=
  ∃ arity ∈ stackArity row.1, (next.2.toNat : ℤ) - row.2.toNat = arity.2 - arity.1

/-- The check accepts the trace of every run in which no row but the last slips. What it
accepts, of whatever trace, has the right change of depth on every row but the last that it
looks at and has grouped right. -/
theorem verify_run_accepts (machine last : Machine) (events : List MachineEvent) (steps : List Step)
    (starts : Starts machine) (done : machine.run events = some (steps, last))
    (regular : ∀ step ∈ steps.dropLast, ¬step.Slips) :
    verifyStackDepthConsistency (depthColumns last.inspector.trace) = .ok () ∧
      ∀ columns : DepthColumns, verifyStackDepthConsistency columns = .ok () →
        columns.IsChain fun row next =>
          Checked row.1 → ¬Misgrouped row.1 → ChangesByArity row next := by
  constructor
  · rw [depthColumns_of_run (Machine.trace_of_starts starts) done]
    exact verifyFrom_eq_ok.2 (isChain_steps (Machine.matches_of_starts starts) done regular)
  · intro columns accepted
    refine (verifyFrom_eq_ok.1 accepted).imp fun row next agrees checked grouped => ?_
    obtain ⟨delta, isDelta⟩ := Option.ne_none_iff_exists'.1 checked.1
    obtain ⟨enough, balance⟩ := agrees checked delta isDelta
    refine ⟨delta, (stackDelta_eq_stackArity row.1 checked grouped).symm.trans isDelta, ?_⟩
    omega

section Runs

def contract : Address := ⟨List.replicate 20 0x42, rfl⟩

def transaction : CallInputs where
  scheme := .call
  caller := ⟨List.replicate 20 0xCA, rfl⟩
  targetAddress := contract
  value := 0
  gasLimit := 10000000
  returnOffset := 0
  returnSize := 0

def creation : CreateInputs where
  caller := contract
  value := 0
  gasLimit := 10000000
  nonce := 0
  createdAddress := ⟨List.replicate 20 0x17, rfl⟩
  salt := none
  initcodeHash := ⟨List.replicate 32 0, rfl⟩

def runOf (code : List (BitVec 8)) (effects : List Effect) : Option (List Step × Machine) :=
  (Machine.start transaction code).run (effects.map (MachineEvent.mk 0))

/-- PUSH0, DUP1, ADD, and the end of the code. -/
def addRun : Option (List Step × Machine) :=
  runOf [0x5F, 0x80, 0x01] [.execute [0] 1, .execute [0, 0] 2, .execute [0] 3, .finish 0]

theorem isSome_addRun : addRun.isSome := by decide

theorem verify_run_accepts_add :
    verifyStackDepthConsistency
        (depthColumns (addRun.get isSome_addRun).2.inspector.trace) = .ok () ∧
      [((0x5F : Opcode), (0 : U64)), (0x80, 1), (0x01, 2), (0x00, 1)].IsChain fun row next =>
        Checked row.1 → ¬Misgrouped row.1 → ChangesByArity row next :=
  have accepts := verify_run_accepts (.start transaction [0x5F, 0x80, 0x01])
    (addRun.get isSome_addRun).2 _ (addRun.get isSome_addRun).1 (.call _ _)
    (Option.some_get isSome_addRun).symm (by decide)
  ⟨accepts.1, accepts.2 _ (by decide)⟩

/-- The columns that a run leaves. -/
def columnsOf (code : List (BitVec 8)) (effects : List Effect) : Option DepthColumns :=
  (runOf code effects).map fun result => depthColumns result.2.inspector.trace

/-- PUSH0, ISZERO: the check subtracts two from a depth of one. A contract that creates
one whose code stops at once: the check accepts the row of this stop, after which the depth
is that of the creator. -/
theorem verify_run_deviates :
    ((columnsOf [0x5F, 0x15] [.execute [0] 1, .execute [1] 2, .finish 0]).map
        verifyStackDepthConsistency = some (.error .panic)) ∧
      (columnsOf [0x60, 0x01, 0x5F, 0x5F, 0xF0]
          [.execute [1] 2, .execute [0] 3, .execute [0] 4, .enterCreate creation [0x00],
            .finish 0x17, .finish 0] =
        some [(0x60, 0), (0x5F, 1), (0x5F, 2), (0xF0, 3), (0x00, 0), (0x00, 1)] ∧
      verifyStackDepthConsistency
          [(0x60, 0), (0x5F, 1), (0x5F, 2), (0xF0, 3), (0x00, 0), (0x00, 1)] = .ok () ∧
      stackDelta 0x00 ≠ none ∧ (0x00 : Opcode).toNat < 0xF0 ∧
      ¬ChangesByArity (0x00, 0) (0x00, 1)) := by
  refine ⟨by decide, by decide, by decide, by decide, by decide, ?_⟩
  rintro ⟨arity, isArity, change⟩
  obtain rfl : (0, 0) = arity := Option.some.inj isArity
  revert change
  decide

end Runs

end MetaVm.Evm
