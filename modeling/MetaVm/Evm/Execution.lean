import MetaVm.Evm.Inspector

namespace MetaVm.Evm

/-! Runs of the interpreter under the inspector. What an instruction pushes, where it
goes next, what a call runs and when a frame halts are left open, so that every run of
the interpreter is among these. -/

/-- How many words an instruction takes from the stack and puts on it. -/
def stackArity (opcode : Opcode) : Option (ℕ × ℕ) :=
  let op := opcode.toNat
  if op = 0x00 then some (0, 0)
  else if op = 0x08 ∨ op = 0x09 then some (3, 1)
  else if op ≤ 0x0B then some (2, 1)
  else if op = 0x15 ∨ op = 0x19 ∨ op = 0x1E then some (1, 1)
  else if 0x10 ≤ op ∧ op ≤ 0x1D then some (2, 1)
  else if op = 0x20 then some (2, 1)
  else if [0x30, 0x32, 0x33, 0x34, 0x36, 0x38, 0x3A, 0x3D].contains op then some (0, 1)
  else if [0x31, 0x35, 0x3B, 0x3F, 0x40, 0x49].contains op then some (1, 1)
  else if [0x37, 0x39, 0x3E].contains op then some (3, 0)
  else if op = 0x3C then some (4, 0)
  else if 0x41 ≤ op ∧ op ≤ 0x4A then some (0, 1)
  else if op = 0x50 ∨ op = 0x56 then some (1, 0)
  else if op = 0x51 ∨ op = 0x54 ∨ op = 0x5C then some (1, 1)
  else if [0x52, 0x53, 0x55, 0x57, 0x5D].contains op then some (2, 0)
  else if [0x58, 0x59, 0x5A, 0x5F].contains op then some (0, 1)
  else if op = 0x5B then some (0, 0)
  else if op = 0x5E then some (3, 0)
  else if 0x60 ≤ op ∧ op ≤ 0x7F then some (0, 1)
  else if 0x80 ≤ op ∧ op ≤ 0x8F then some (op - 0x7F, op - 0x7E)
  else if 0x90 ≤ op ∧ op ≤ 0x9F then some (op - 0x8E, op - 0x8E)
  else if 0xA0 ≤ op ∧ op ≤ 0xA4 then some (op - 0x9E, 0)
  else if op = 0xF0 then some (3, 1)
  else if op = 0xF1 ∨ op = 0xF2 then some (7, 1)
  else if op = 0xF4 ∨ op = 0xFA then some (6, 1)
  else if op = 0xF5 then some (4, 1)
  else if op = 0xF3 ∨ op = 0xFD then some (2, 0)
  else if op = 0xFF then some (1, 0)
  else none

/-- The instructions that end their frame: STOP, RETURN, REVERT, SELFDESTRUCT. -/
def EndsFrame (opcode : Opcode) : Prop := opcode ∈ [0x00, 0xF3, 0xFD, 0xFF]

instance (opcode : Opcode) : Decidable (EndsFrame opcode) :=
  inferInstanceAs (Decidable (_ ∈ _))

def IsCall (opcode : Opcode) : Prop := opcode ∈ [0xF1, 0xF2, 0xF4, 0xFA]

instance (opcode : Opcode) : Decidable (IsCall opcode) :=
  inferInstanceAs (Decidable (_ ∈ _))

def IsCreate (opcode : Opcode) : Prop := opcode ∈ [0xF0, 0xF5]

instance (opcode : Opcode) : Decidable (IsCreate opcode) :=
  inferInstanceAs (Decidable (_ ∈ _))

def stackLimit : ℕ := 1024

/-- A frame that is running. The stack has its top in front. -/
structure EvmFrame where
  callee : Address
  code : List (BitVec 8)
  pc : ℕ
  stack : List Word

/-- Behind the end of the code there are stops. -/
def EvmFrame.opcode (frame : EvmFrame) : Opcode := frame.code.getD frame.pc 0

structure Machine where
  frames : List EvmFrame
  inspector : TracingInspector

/-- What an instruction does. `answer` is a call or creation that runs no code,
`result` is the word that the caller gets, and `left` is the stack at a halt. -/
inductive Effect
  | execute (pushed : List Word) (nextPc : ℕ)
  | enter (inputs : CallInputs) (code : List (BitVec 8))
  | answer (inputs : CallInputs) (result : Word)
  | enterCreate (inputs : CreateInputs) (code : List (BitVec 8))
  | answerCreate (inputs : CreateInputs) (result : Word)
  | finish (result : Word)
  | halt (left : List Word) (result : Word)

def Effect.Halts : Effect → Prop
  | .halt _ _ => True
  | _ => False

instance (effect : Effect) : Decidable effect.Halts :=
  match effect with
  | .execute _ _ => .isFalse id
  | .enter _ _ => .isFalse id
  | .answer _ _ => .isFalse id
  | .enterCreate _ _ => .isFalse id
  | .answerCreate _ _ => .isFalse id
  | .finish _ => .isFalse id
  | .halt _ _ => .isTrue trivial

structure MachineEvent where
  gasRemaining : U64
  effect : Effect

namespace EvmFrame

variable (frame : EvmFrame)

/-- The stack without the words that an instruction takes, if it has them. -/
def rest : Option (List Word) := do
  let arity ← stackArity frame.opcode
  if arity.1 ≤ frame.stack.length then some (frame.stack.drop arity.1) else none

/-- The stack right after an instruction, if it can have this effect. -/
def left : Effect → Option (List Word)
  | .execute pushed _ => do
      let arity ← stackArity frame.opcode
      let rest ← frame.rest
      if ¬EndsFrame frame.opcode ∧ pushed.length = arity.2 ∧
        (pushed ++ rest).length ≤ stackLimit then some (pushed ++ rest) else none
  | .enter _ _ => if IsCall frame.opcode then frame.rest else none
  | .answer _ _ => if IsCall frame.opcode then frame.rest else none
  | .enterCreate _ _ => if IsCreate frame.opcode then frame.rest else none
  | .answerCreate _ _ => if IsCreate frame.opcode then frame.rest else none
  | .finish _ => if EndsFrame frame.opcode then frame.rest else none
  | .halt stack _ => some stack

def nextPc : Effect → ℕ
  | .execute _ pc => pc
  | _ => frame.pc + 1

def interpreter (gasRemaining : U64) : Interpreter :=
  ⟨frame.pc, frame.opcode, frame.code, gasRemaining, frame.stack⟩

end EvmFrame

/-- The caller gets the result of a call on its stack. -/
def deliver (result : Word) : List EvmFrame → List EvmFrame
  | [] => []
  | caller :: callers => { caller with stack := result :: caller.stack } :: callers

/-- What comes of the frame that an instruction ran in, and of the inspector. -/
def settle (frame : EvmFrame) (callers : List EvmFrame) (inspector : TracingInspector) :
    Effect → Machine
  | .execute _ _ => ⟨frame :: callers, inspector⟩
  | .enter inputs code =>
      ⟨⟨inputs.targetAddress, code, 0, []⟩ :: frame :: callers, inspector.call inputs⟩
  | .answer inputs result => ⟨deliver result (frame :: callers), (inspector.call inputs).callEnd⟩
  | .enterCreate inputs code =>
      ⟨⟨inputs.createdAddress, code, 0, []⟩ :: frame :: callers, inspector.create inputs⟩
  | .answerCreate inputs result =>
      ⟨deliver result (frame :: callers), (inspector.create inputs).createEnd⟩
  | .finish result => ⟨deliver result callers, inspector.callEnd⟩
  | .halt _ result => ⟨deliver result callers, inspector.callEnd⟩

/-- An instruction that was run: its frame before it, its effect, the stack after it
and its row. -/
structure Step where
  frame : EvmFrame
  effect : Effect
  left : List Word
  row : EvmTraceRow

namespace Machine

/-- The row of an instruction. -/
def rowOf (inspector : TracingInspector) (frame : EvmFrame) (event : MachineEvent)
    (left : List Word) : EvmTraceRow :=
  let before := frame.interpreter event.gasRemaining
  let after : Interpreter :=
    { before with pc := frame.nextPc event.effect, stack := left }
  match (inspector.step before).pending with
  | none => {}
  | some pending => TracingInspector.rowOf pending after

/-- The inspector before and after an instruction. -/
def observe (inspector : TracingInspector) (frame : EvmFrame) (event : MachineEvent)
    (left : List Word) : TracingInspector :=
  let before := frame.interpreter event.gasRemaining
  (inspector.step before).stepEnd
    { before with pc := frame.nextPc event.effect, stack := left }

def advance (machine : Machine) (event : MachineEvent) : Option (Step × Machine) :=
  match machine.frames with
  | [] => none
  | frame :: callers => do
      let left ← frame.left event.effect
      let inspector := observe machine.inspector frame event left
      pure (⟨frame, event.effect, left, rowOf machine.inspector frame event left⟩,
        settle { frame with stack := left, pc := frame.nextPc event.effect } callers inspector
          event.effect)

def run : Machine → List MachineEvent → Option (List Step × Machine)
  | machine, [] => some ([], machine)
  | machine, event :: events => do
      let (step, next) ← machine.advance event
      let (steps, last) ← run next events
      pure (step :: steps, last)

/-- A transaction that calls a contract. -/
def start (inputs : CallInputs) (code : List (BitVec 8)) : Machine where
  frames := [⟨inputs.targetAddress, code, 0, []⟩]
  inspector := TracingInspector.call {} inputs

/-- A transaction that creates one. -/
def startCreate (inputs : CreateInputs) (code : List (BitVec 8)) : Machine where
  frames := [⟨inputs.createdAddress, code, 0, []⟩]
  inspector := TracingInspector.create {} inputs

end Machine

/-- The start of a transaction, which calls or creates a contract. -/
inductive Starts : Machine → Prop
  | call (inputs : CallInputs) (code : List (BitVec 8)) : Starts (.start inputs code)
  | create (inputs : CreateInputs) (code : List (BitVec 8)) : Starts (.startCreate inputs code)

/-! What a run leaves in the trace. -/

/-- An instruction that takes and puts its words leaves that many more on the stack. -/
theorem length_of_execute {frame : EvmFrame} {pushed stack : List Word} {pc : ℕ}
    (allowed : frame.left (.execute pushed pc) = some stack) :
    ∃ arity, stackArity frame.opcode = some arity ∧ arity.1 ≤ frame.stack.length ∧
      stack.length + arity.1 = frame.stack.length + arity.2 ∧ stack.length ≤ stackLimit := by
  obtain ⟨arity, isArity, allowed⟩ := Option.bind_eq_some_iff.1 allowed
  obtain ⟨rest, isRest, allowed⟩ := Option.bind_eq_some_iff.1 allowed
  rw [EvmFrame.rest, isArity, Option.bind_eq_bind, Option.bind_some] at isRest
  split_ifs at isRest with enough
  split_ifs at allowed with sized
  obtain ⟨-, count, limited⟩ := sized
  obtain rfl := Option.some.inj allowed
  have restLength : rest.length = frame.stack.length - arity.1 := by
    rw [← Option.some.inj isRest, List.length_drop]
  refine ⟨arity, isArity, enough, ?_, limited⟩
  rw [List.length_append, count, restLength]
  omega

/-- The row of an instruction has what its frame had. -/
structure Step.Recorded (step : Step) : Prop where
  opcode : step.row.opcode = step.frame.opcode
  depth : step.row.stackDepth = BitVec.ofNat 64 step.frame.stack.length
  input0 : step.row.input0 = safePeek step.frame.stack 0
  input1 : ¬IsCall step.frame.opcode → step.row.input1 = safePeek step.frame.stack 1
  output0 : step.row.output0 = safePeek step.left 0
  callee : step.row.frame.callee = addressToLimbs step.frame.callee
  allowed : step.frame.left step.effect = some step.left

namespace Machine

variable {machine next last : Machine} {event : MachineEvent} {events : List MachineEvent}
  {step : Step}
  {steps : List Step}

/-- The frames of the inspector are those of the interpreter. -/
def Matches (machine : Machine) : Prop :=
  machine.inspector.frameStack.map FrameState.callee =
    machine.frames.map fun frame => addressToLimbs frame.callee

theorem matches_of_starts (starts : Starts machine) : machine.Matches := by
  cases starts with
  | call inputs code => rfl
  | create inputs code => rfl

theorem trace_of_starts (starts : Starts machine) : machine.inspector.trace = [] := by
  cases starts with
  | call inputs code => rfl
  | create inputs code => rfl

/-- Everything that an instruction can do. -/
theorem advance_cases (done : machine.advance event = some (step, next)) :
    ∃ frame callers left, machine.frames = frame :: callers ∧
      frame.left event.effect = some left ∧
      step = ⟨frame, event.effect, left, rowOf machine.inspector frame event left⟩ ∧
      next = settle { frame with stack := left, pc := frame.nextPc event.effect } callers
        (observe machine.inspector frame event left) event.effect := by
  rw [advance] at done
  split at done
  · cases done
  · rename_i frame callers frames
    obtain ⟨left, isLeft, rest⟩ := Option.bind_eq_some_iff.1 done
    cases rest
    exact ⟨frame, callers, left, frames, isLeft, rfl, rfl⟩

theorem run_cons (done : machine.run (event :: events) = some (steps, last)) :
    ∃ step next later, machine.advance event = some (step, next) ∧
      next.run events = some (later, last) ∧ steps = step :: later := by
  rw [run] at done
  obtain ⟨⟨step, next⟩, first, rest⟩ := Option.bind_eq_some_iff.1 done
  obtain ⟨⟨later, end'⟩, second, rest⟩ := Option.bind_eq_some_iff.1 rest
  cases rest
  exact ⟨step, next, later, first, second, rfl⟩

theorem map_callee_deliver (result : Word) (frames : List EvmFrame) :
    (deliver result frames).map (fun frame => addressToLimbs frame.callee) =
      frames.map fun frame => addressToLimbs frame.callee := by
  cases frames with
  | nil => rfl
  | cons caller callers => rfl

theorem settle_matches {frame : EvmFrame} {callers : List EvmFrame}
    {inspector : TracingInspector} (matching : Matches ⟨frame :: callers, inspector⟩)
    (effect : Effect) : (settle frame callers inspector effect).Matches := by
  have tail : inspector.frameStack.tail.map FrameState.callee =
      callers.map fun frame => addressToLimbs frame.callee := by
    rw [List.map_tail]
    exact congrArg List.tail matching
  cases effect with
  | execute pushed pc => exact matching
  | enter inputs code => exact congrArg (addressToLimbs inputs.targetAddress :: ·) matching
  | answer inputs result => exact matching
  | enterCreate inputs code => exact congrArg (addressToLimbs inputs.createdAddress :: ·) matching
  | answerCreate inputs result => exact matching
  | finish result => exact tail.trans (map_callee_deliver result callers).symm
  | halt left result => exact tail.trans (map_callee_deliver result callers).symm

theorem advance_matches (matching : machine.Matches)
    (done : machine.advance event = some (step, next)) : next.Matches := by
  obtain ⟨frame, callers, left, frames, -, -, rfl⟩ := advance_cases done
  apply settle_matches
  rw [Matches, frames] at matching
  exact matching

theorem advance_recorded (matching : machine.Matches)
    (done : machine.advance event = some (step, next)) : step.Recorded := by
  obtain ⟨frame, callers, left, frames, isLeft, rfl, -⟩ := advance_cases done
  rw [Matches, frames, List.map_cons] at matching
  have callee : machine.inspector.currentFrame.callee = addressToLimbs frame.callee := by
    rw [TracingInspector.currentFrame]
    cases stack : machine.inspector.frameStack with
    | nil =>
        rw [stack] at matching
        cases matching
    | cons top others =>
        rw [stack, List.map_cons] at matching
        exact (List.cons.inj matching).1
  exact ⟨rfl, rfl, rfl, fun notCall => if_neg notCall, rfl, callee, isLeft⟩

theorem run_recorded (matching : machine.Matches)
    (done : machine.run events = some (steps, last)) : ∀ step ∈ steps, step.Recorded := by
  induction events generalizing machine steps with
  | nil =>
      cases done
      exact fun step found => absurd found List.not_mem_nil
  | cons event events hypothesis =>
      obtain ⟨step, next, later, first, rest, rfl⟩ := run_cons done
      rw [List.forall_mem_cons]
      exact ⟨advance_recorded matching first, hypothesis (advance_matches matching first) rest⟩

variable {β : Type} {read : EvmTraceRow → β}

theorem map_trace_settle (blind : TracingInspector.HintBlind read) (frame : EvmFrame)
    (callers : List EvmFrame) (inspector : TracingInspector) (effect : Effect) :
    (settle frame callers inspector effect).inspector.trace.map read =
      inspector.trace.map read := by
  cases effect with
  | execute pushed pc => rfl
  | enter inputs code => rfl
  | answer inputs result => rfl
  | enterCreate inputs code => exact TracingInspector.map_trace_create blind inputs
  | answerCreate inputs result => exact TracingInspector.map_trace_create blind inputs
  | finish result => rfl
  | halt left result => rfl

/-- A run adds the rows of its instructions, in order. -/
theorem map_trace_run (blind : TracingInspector.HintBlind read)
    (done : machine.run events = some (steps, last)) :
    last.inspector.trace.map read =
      machine.inspector.trace.map read ++ steps.map fun step => read step.row := by
  induction events generalizing machine steps with
  | nil =>
      cases done
      exact (List.append_nil _).symm
  | cons event events hypothesis =>
      obtain ⟨step, next, later, first, rest, rfl⟩ := run_cons done
      obtain ⟨frame, callers, left, -, -, rfl, rfl⟩ := advance_cases first
      have added : (observe machine.inspector frame event left).trace =
          machine.inspector.trace ++ [rowOf machine.inspector frame event left] := rfl
      rw [hypothesis rest, map_trace_settle blind, added, List.map_append, List.append_assoc]
      rfl

/-- The frame that an instruction leaves running is the frame of the next one. -/
theorem stack_of_execute {second : Step} {later : List Step} {pushed : List Word} {pc : ℕ}
    (done : machine.run events = some (step :: second :: later, last))
    (executes : step.effect = .execute pushed pc) : second.frame.stack = step.left := by
  cases events with
  | nil => cases done
  | cons event events =>
      obtain ⟨first, next, others, advanced, rest, same⟩ := run_cons done
      obtain ⟨rfl, rfl⟩ := List.cons.inj same
      obtain ⟨frame, callers, left, -, -, rfl, rfl⟩ := advance_cases advanced
      replace executes : event.effect = .execute pushed pc := executes
      rw [executes] at rest
      cases events with
      | nil => cases rest
      | cons event' events =>
          obtain ⟨first, next, others, advanced, -, same⟩ := run_cons rest
          obtain ⟨rfl, rfl⟩ := List.cons.inj same
          obtain ⟨frame', callers', left', frames, -, rfl, -⟩ := advance_cases advanced
          obtain ⟨rfl, -⟩ := List.cons.inj frames
          rfl

end Machine

end MetaVm.Evm
