import MetaVm.Riscv.Trace.InstructionNaming
import MetaVm.Riscv.Trace.MemoryHash

namespace MetaVm.Riscv

open Framing

/-! The state at a chunk boundary. -/

namespace Addr

abbrev mcounteren : CsrAddr := 0x306
abbrev mscratch : CsrAddr := 0x340

end Addr

/-- The control registers of a boundary state. -/
def keyCsrs : List CsrAddr :=
  [Addr.mstatus, Addr.mtvec, Addr.mepc, Addr.mcause,
    Addr.mtval, Addr.mie, Addr.mip, Addr.mscratch,
    Addr.medeleg, Addr.mideleg, Addr.mcounteren,
    Addr.sstatus, Addr.stvec, Addr.sepc, Addr.scause,
    Addr.stval, Addr.sie, Addr.sip, Addr.satp,
    Addr.stimecmp]

structure ChunkBoundaryState where
  pc : Word
  registers : Reg → Word
  privMode : Byte
  keyCsrs : List Word
  memoryHash : Digest
  uartOutputHash : Digest
  clintMtime : Word
  clintMtimecmp : Word
  stepNumber : Word

def snapshotVm (vm : Vm) (memoryHash uartOutputHash : Digest) (stepNumber : Word) :
    ChunkBoundaryState where
  pc := vm.cpu.pc
  registers := vm.cpu.x
  privMode := vm.cpu.privMode.bits.setWidth 8
  keyCsrs := keyCsrs.map vm.cpu.csrs.readUnchecked
  memoryHash := memoryHash
  uartOutputHash := uartOutputHash
  clintMtime := vm.mmio.clint.mtime
  clintMtimecmp := vm.mmio.clint.mtimecmp
  stepNumber := stepNumber

def wordBytes (word : Word) : List Byte := littleEndian 8 word.toNat

def hashBoundaryState (sha3 : List Byte → Digest) (state : ChunkBoundaryState) : Digest :=
  sha3 (wordBytes state.pc ++
    (List.range 32).flatMap (fun reg => wordBytes (state.registers (BitVec.ofNat 5 reg))) ++
    [state.privMode] ++ state.keyCsrs.flatMap wordBytes ++ state.memoryHash ++
    state.uartOutputHash ++ wordBytes state.clintMtime ++ wordBytes state.clintMtimecmp ++
    wordBytes state.stepNumber)

/-! Execution in chunks. -/

/-- A chunk; its columns are those of its rows. -/
structure ExecutionChunk where
  chunkIndex : Word
  rows : List TraceRow
  initialStateHash : Digest
  finalStateHash : Digest
  uartBytesThisChunk : List Byte
  numSteps : ℕ

/-- The hasher of the console output is given by the bytes it has taken in. -/
structure StreamingProver where
  vm : Vm
  chunkSize : ℕ
  globalStep : Word
  chunkIndex : Word
  memoryHasher : IncrementalMemoryHash
  uartHasher : List Byte

/-- Up to `count` steps, fewer when the machine halts, with their number. -/
def TracingVmBorrowed.steps (tracer : TracingVmBorrowed) :
    ℕ → Option (TracingVmBorrowed × Except VmError ℕ)
  | 0 => some (tracer, .ok 0)
  | count + 1 =>
      if tracer.vm.halted then some (tracer, .ok 0)
      else
        tracer.step.bind fun (tracer, result) =>
          match result with
          | .error e => some (tracer, .error e)
          | .ok () =>
              (tracer.steps count).map fun (tracer, result) =>
                (tracer, result.map (· + 1))

/-- Take the console output out of a machine. -/
def Vm.drainUart (vm : Vm) : Vm :=
  { vm with mmio := { vm.mmio with uart := { vm.mmio.uart with output := [] } } }

namespace StreamingProver

def new (vm : Vm) (chunkSize : ℕ) : StreamingProver where
  vm := vm
  chunkSize := chunkSize
  globalStep := 0
  chunkIndex := 0
  memoryHasher := .new
  uartHasher := []

section Chunks

variable (sha3 : List Byte → Digest) (order : SetOrder)

def initializeMemoryHash (prover : StreamingProver) : StreamingProver :=
  { prover with
    vm := { prover.vm with memory := prover.vm.memory.clearDirty }
    memoryHasher := (prover.memoryHasher.initializeFrom sha3 prover.vm.memory).2 }

/-- The prover with its memory hash brought up to date, and its boundary state. -/
def boundary (prover : StreamingProver) : StreamingProver × ChunkBoundaryState :=
  let (memHash, hasher, memory) := prover.memoryHasher.update sha3 order prover.vm.memory
  let vm := { prover.vm with memory := memory }
  ({ prover with vm := vm, memoryHasher := hasher },
    snapshotVm vm memHash (sha3 prover.uartHasher) prover.globalStep)

/-- One chunk. An error drops the rows of the steps before it. -/
def executeChunk (prover : StreamingProver) :
    Option (StreamingProver × Except VmError ExecutionChunk) :=
  let (prover, initialState) := prover.boundary sha3 order
  (TracingVmBorrowed.steps ⟨prover.vm, []⟩ prover.chunkSize).map fun (tracing, result) =>
    match result with
    | .error e => ({ prover with vm := tracing.vm }, .error e)
    | .ok stepsExecuted =>
        let uartBytes := tracing.vm.mmio.uart.output
        let (prover, finalState) := boundary sha3 order
          { prover with
            vm := tracing.vm.drainUart
            uartHasher := prover.uartHasher ++ uartBytes
            globalStep := prover.globalStep + BitVec.ofNat 64 stepsExecuted }
        ({ prover with chunkIndex := prover.chunkIndex + 1 }, .ok {
          chunkIndex := prover.chunkIndex
          rows := tracing.trace
          initialStateHash := hashBoundaryState sha3 initialState
          finalStateHash := hashBoundaryState sha3 finalState
          uartBytesThisChunk := uartBytes
          numSteps := stepsExecuted })

/-- Some chunks one after the other, with the rows that they export. -/
def executeChunks (prover : StreamingProver) : ℕ → Option (StreamingProver × List TraceRow)
  | 0 => some (prover, [])
  | count + 1 =>
      (prover.executeChunks count).bind fun (prover, rows) =>
        (prover.executeChunk sha3 order).map fun (next, result) =>
          match result with
          | .error _ => (next, rows)
          | .ok chunk => (next, rows ++ chunk.rows)

end Chunks

end StreamingProver

end MetaVm.Riscv
