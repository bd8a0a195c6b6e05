import MetaVm.Evm.Trace
import MetaVm.Lib.Framing

namespace MetaVm.Evm

open Framing

/-! The inspector that records a row for each instruction of the interpreter and keeps
a frame for each call. -/

abbrev Address : Type := { bytes : List (BitVec 8) // bytes.length = 20 }

abbrev Bytes32 : Type := { bytes : List (BitVec 8) // bytes.length = 32 }

def fromLeBytes (bytes : List (BitVec 8)) : U64 := BitVec.ofNat 64 (fromLittleEndian bytes)

/-- Eight bytes to a limb, and the last four to the third one. -/
def addressToLimbs (addr : Address) : U256 :=
  ![fromLeBytes (addr.1.take 8), fromLeBytes ((addr.1.drop 8).take 8),
    fromLeBytes (addr.1.drop 16 ++ List.replicate 4 0), 0]

def b256ToLeLimbs (hash : Bytes32) : U256 := fun k =>
  fromLeBytes ((hash.1.drop (8 * k)).take 8)

/-- The low twenty bytes of a word. -/
def wordAddress (val : Word) : Address :=
  ⟨(bigEndian 32 val.toNat).drop 12, by rw [List.length_drop, length_bigEndian]⟩

/-- What an inspector sees of the interpreter. The stack has its top in front. -/
structure Interpreter where
  pc : ℕ
  opcode : Opcode
  bytecode : List (BitVec 8)
  gasRemaining : U64
  stack : List Word

/-- A word of the stack, zero where there is none. -/
def safePeek (stack : List Word) (index : ℕ) : U256 := (stack[index]?.map ofWord).getD 0

structure PendingRow where
  step : U64
  pc : U64
  opcode : Opcode
  gasRemaining : U64
  stackDepth : U64
  input0 : U256
  input1 : U256
  immediate : U256
  insnType : Code
  funct : Code
  frame : FrameState
  createAddressHint : U256

structure TracingInspector where
  trace : List EvmTraceRow := []
  pending : Option PendingRow := none
  stepCount : U64 := 0
  frameStack : List FrameState := []

inductive CallScheme
  | call
  | callCode
  | delegateCall
  | staticCall
deriving DecidableEq, Repr

/-- The inputs of a call. The value is the transferred or the apparent one. -/
structure CallInputs where
  scheme : CallScheme
  caller : Address
  targetAddress : Address
  value : Word
  gasLimit : U64
  returnOffset : U64
  returnSize : U64

/-- The inputs of a creation, with the nonce of the creator, the address that is
derived for the contract, and the hash of the code. A salt makes it a CREATE2. -/
structure CreateInputs where
  caller : Address
  value : Word
  gasLimit : U64
  nonce : U64
  createdAddress : Address
  salt : Option Word
  initcodeHash : Bytes32

/-- The second operand. The call instructions have an address there. -/
def stepInput1 (interp : Interpreter) : U256 :=
  if interp.opcode ∈ [0xF1, 0xF2, 0xF4, 0xFA] then
    match interp.stack[1]? with
    | some val => addressToLimbs (wordAddress val)
    | none => safePeek interp.stack 1
  else safePeek interp.stack 1

/-- The immediate bytes of a push, the factor of a shift, or a third operand. -/
def stepImmediate (interp : Interpreter) : U256 :=
  let op := interp.opcode.toNat
  if 0x60 ≤ op ∧ op ≤ 0x7F then
    Limbs.ofNat (fromBigEndian ((interp.bytecode.drop (interp.pc + 1)).take (op - 0x60 + 1)))
  else if op = 0x1B ∨ op = 0x1C ∨ op = 0x1D then shiftPowerOfTwo (safePeek interp.stack 0)
  else if op = 0x08 ∨ op = 0x09 then safePeek interp.stack 2
  else if 0xA1 ≤ op ∧ op ≤ 0xA4 then safePeek interp.stack 2
  else 0

/-- Where memory is read or written, and the word there. -/
def memAccess (pending : PendingRow) (output0 : U256) : U64 × U256 :=
  match pending.opcode.toNat with
  | 0x51 => (pending.input0 0, output0)
  | 0x52 => (pending.input0 0, pending.input1)
  | 0x53 => (pending.input0 0, pending.input1)
  | _ => (0, 0)

namespace TracingInspector

variable (inspector : TracingInspector)

def currentFrame : FrameState := inspector.frameStack.head?.getD {}

/-- Before an instruction. -/
def step (interp : Interpreter) : TracingInspector where
  trace := inspector.trace
  pending := some {
    step := inspector.stepCount
    pc := BitVec.ofNat 64 interp.pc
    opcode := interp.opcode
    gasRemaining := interp.gasRemaining
    stackDepth := BitVec.ofNat 64 interp.stack.length
    input0 := safePeek interp.stack 0
    input1 := stepInput1 interp
    immediate := stepImmediate interp
    insnType := (classifyOpcode interp.opcode).1
    funct := (classifyOpcode interp.opcode).2
    frame := inspector.currentFrame
    createAddressHint := 0 }
  stepCount := inspector.stepCount
  frameStack := inspector.frameStack

/-- The row of an instruction that has run. -/
def rowOf (pending : PendingRow) (interp : Interpreter) : EvmTraceRow :=
  let output0 := safePeek interp.stack 0
  let mem := memAccess pending output0
  let aux := (computeEvmAux pending.opcode pending.input0 pending.input1 output0).value
  { step := pending.step
    pc := pending.pc
    opcode := pending.opcode
    gasRemaining := pending.gasRemaining
    stackDepth := pending.stackDepth
    input0 := pending.input0
    input1 := pending.input1
    output0 := output0
    memOffset := mem.1
    memValue := mem.2
    insnType := pending.insnType
    funct := pending.funct
    immediate := pending.immediate
    aux0 := aux.1
    aux1 := aux.2
    nextPc := BitVec.ofNat 64 interp.pc
    frame := pending.frame
    createAddressHint := pending.createAddressHint }

/-- After an instruction. -/
def stepEnd (interp : Interpreter) : TracingInspector :=
  match inspector.pending with
  | none => inspector
  | some pending =>
      { trace := inspector.trace ++ [rowOf pending interp]
        pending := none
        stepCount := inspector.stepCount + 1
        frameStack := inspector.frameStack }

/-- The instruction behind the one that was last recorded. -/
def returnPc : U64 := (inspector.trace.getLast?.map fun row => row.pc + 1).getD 0

def parentStatic : U64 := (inspector.frameStack.head?.map FrameState.isStatic).getD 0

/-- Before a call enters its frame. -/
def call (inputs : CallInputs) : TracingInspector :=
  let parent := inspector.currentFrame
  let delegate := inputs.scheme = .delegateCall
  let frame : FrameState :=
    { depth := BitVec.ofNat 64 inspector.frameStack.length
      caller := if delegate then parent.caller else addressToLimbs inputs.caller
      callee := addressToLimbs inputs.targetAddress
      value := if delegate then parent.value else ofWord inputs.value
      gas := inputs.gasLimit
      returnPc := inspector.returnPc
      returnOffset := inputs.returnOffset
      returnSize := inputs.returnSize
      isStatic := if inspector.parentStatic = 1 ∨ inputs.scheme = .staticCall then 1 else 0 }
  { inspector with frameStack := frame :: inspector.frameStack }

def callEnd : TracingInspector := { inspector with frameStack := inspector.frameStack.tail }

/-- What a creation adds to the row of its instruction. -/
def withHints (inputs : CreateInputs) (row : EvmTraceRow) : EvmTraceRow :=
  let hinted : EvmTraceRow :=
    { row with
      createAddressHint := addressToLimbs inputs.createdAddress
      createNonceHint := inputs.nonce }
  match inputs.salt with
  | none => hinted
  | some salt =>
      { hinted with
        create2SaltHint := b256ToLeLimbs ⟨bigEndian 32 salt.toNat, length_bigEndian 32 _⟩
        create2InitcodeHashHint := b256ToLeLimbs inputs.initcodeHash }

/-- Before a creation enters its frame. -/
def create (inputs : CreateInputs) : TracingInspector :=
  let frame : FrameState :=
    { depth := BitVec.ofNat 64 inspector.frameStack.length
      caller := addressToLimbs inputs.caller
      callee := addressToLimbs inputs.createdAddress
      value := ofWord inputs.value
      gas := inputs.gasLimit
      returnPc := inspector.returnPc
      returnOffset := 0
      returnSize := 0
      isStatic := inspector.parentStatic }
  { inspector with
    trace := inspector.trace.dropLast ++ (inspector.trace.getLast?.map (withHints inputs)).toList
    frameStack := frame :: inspector.frameStack }

def createEnd : TracingInspector := inspector.callEnd

/-! What is left alone. -/

/-- A value of a row that does not read the hints of a creation. -/
def HintBlind {β : Type} (read : EvmTraceRow → β) : Prop :=
  ∀ inputs row, read (withHints inputs row) = read row

variable {inspector} {β : Type} {read : EvmTraceRow → β}

theorem map_trace_create (blind : HintBlind read) (inputs : CreateInputs) :
    (inspector.create inputs).trace.map read = inspector.trace.map read := by
  rw [create]
  rcases List.eq_nil_or_concat inspector.trace with empty | ⟨earlier, last, isConcat⟩
  · rw [empty]
    rfl
  · rw [isConcat, List.concat_eq_append, List.dropLast_concat, List.getLast?_concat,
      List.map_append, List.map_append]
    exact congrArg (List.map read earlier ++ [·]) (blind inputs last)

@[simp]
theorem trace_call (inputs : CallInputs) : (inspector.call inputs).trace = inspector.trace := rfl

@[simp]
theorem trace_callEnd : inspector.callEnd.trace = inspector.trace := rfl

theorem hintBlind_withHints (blind : ∀ (row : EvmTraceRow) addressHint nonceHint saltHint hashHint,
    read { row with
      createAddressHint := addressHint
      createNonceHint := nonceHint
      create2SaltHint := saltHint
      create2InitcodeHashHint := hashHint } = read row) : HintBlind read := by
  intro inputs row
  rw [withHints]
  cases inputs.salt with
  | none => exact blind row _ _ row.create2SaltHint row.create2InitcodeHashHint
  | some salt => exact blind row _ _ _ _

end TracingInspector

end MetaVm.Evm
