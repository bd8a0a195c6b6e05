import MetaVm.Riscv.Machine.Frame
import MetaVm.Riscv.Machine.Stepping
import MetaVm.Riscv.Trace.Witness

namespace MetaVm.Riscv

/-! Rows of an execution trace, and the machine that records them. -/

def computeMemInfo (insn : Instruction) (vm : Vm) : Word × MemOp :=
  computeMemInfoWith insn vm.cpu.readReg

structure TraceRow where
  step : Word
  pc : Word
  instruction : Instruction
  rd : Reg
  rdValBefore : Word
  rdValAfter : Word
  rs1 : Reg
  rs1Val : Word
  rs2 : Reg
  rs2Val : Word
  memAddr : Word
  memVal : Word
  memOp : MemOp
  nextPc : Word
  privilegeMode : Byte
  insnLen : Byte
  aux0 : Word
  aux1 : Word
  aux2 : Word

/-- The row of a step from one machine to another, for the instruction that
was fetched before it. -/
def TraceRow.record (step : ℕ) (before after : Vm) (fetched : FetchedInstruction) :
    TraceRow :=
  let insn := fetched.instruction
  let rd := insn.rd.getD 0
  let rs1 := insn.rs1.getD 0
  let rs2 := insn.rs2.getD 0
  let rs1Val := before.cpu.readReg rs1
  let rs2Val := before.cpu.readReg rs2
  let (memAddr, memOp) := computeMemInfo insn before
  let rdValAfter := after.cpu.readReg rd
  let memVal :=
    match memOp with
    | .read => rdValAfter
    | .write => computeMemVal insn rdValAfter rs2Val
    | .none => 0
  let (aux0, aux1, aux2) := computeAuxValues insn rs1Val rs2Val rdValAfter
  { step := BitVec.ofNat 64 step
    pc := before.cpu.pc
    instruction := insn
    rd := rd
    rdValBefore := before.cpu.readReg rd
    rdValAfter := rdValAfter
    rs1 := rs1
    rs1Val := rs1Val
    rs2 := rs2
    rs2Val := rs2Val
    memAddr := memAddr
    memVal := memVal
    memOp := memOp
    nextPc := after.cpu.pc
    privilegeMode := before.cpu.privMode.bits.setWidth 8
    insnLen := fetched.len
    aux0 := aux0
    aux1 := aux1
    aux2 := aux2 }

/-- The row of an instruction that the machine executes as fetched. -/
def Vm.executedRow (vm : Vm) (insn : Instruction) : TraceRow :=
  .record 0 vm (vm.execute insn).1 ⟨insn, vm.insnLen⟩

structure TracingVm where
  vm : Vm
  trace : List TraceRow

namespace TracingVm

def new (vm : Vm) : TracingVm := ⟨vm, []⟩

/-- One recorded step; `none` when a device of the machine panics. -/
def step (tracer : TracingVm) : Option (TracingVm × Except VmError Unit) :=
  if tracer.vm.halted then some (tracer, .error .halted)
  else
    match fetchDecode tracer.vm.memory tracer.vm.cpu.pc with
    | .error e => some (tracer, .error (.decode e))
    | .ok fetched =>
        tracer.vm.step.map fun (after, result) =>
          match result with
          | .error e => ({ tracer with vm := after }, .error e)
          | .ok () =>
              let row := TraceRow.record tracer.trace.length tracer.vm after fetched
              (⟨after, tracer.trace ++ [row]⟩, .ok ())

/-- A step of an instruction that the machine executes appends its row. -/
theorem step_eq {tracer : TracingVm} {fetched : FetchedInstruction}
    {ready after : Vm}
    (stands : fetchDecode tracer.vm.memory tracer.vm.cpu.pc = .ok fetched)
    (executes : tracer.vm.Executes ready fetched)
    (ran : ready.execute fetched.instruction = (after, .ok ())) :
    tracer.step = some (⟨after.retire, tracer.trace ++
      [.record tracer.trace.length tracer.vm after.retire fetched]⟩, .ok ()) := by
  rw [step, executes.running, if_neg Bool.false_ne_true, stands,
    executes.step_eq ran]
  rfl

/-- A step that appends a row has recorded it from the machine it leaves. -/
theorem row_eq {tracer : TracingVm} {fetched : FetchedInstruction} {after : Vm}
    {row : TraceRow}
    (stands : fetchDecode tracer.vm.memory tracer.vm.cpu.pc = .ok fetched)
    (stepped : tracer.step = some (⟨after, tracer.trace ++ [row]⟩, .ok ())) :
    row = .record tracer.trace.length tracer.vm after fetched := by
  rw [step] at stepped
  split at stepped
  · exact absurd (congrArg Prod.snd (Option.some.inj stepped)) (by simp)
  · rw [stands] at stepped
    obtain ⟨⟨machine, result⟩, _, outcome⟩ := Option.map_eq_some_iff.1 stepped
    cases result with
    | error e => exact absurd (congrArg Prod.snd outcome) (by simp)
    | ok done =>
        have same := congrArg Prod.fst outcome
        simp only [TracingVm.mk.injEq] at same
        obtain ⟨rfl, rows⟩ := same
        exact (List.cons.inj (List.append_cancel_left rows)).1.symm

end TracingVm

end MetaVm.Riscv

namespace MetaVm.Riscv

/-! The tracer of the streaming prover. It borrows its machine and records the
instruction that the machine says it fetched. -/

/-- The row of a step, for the instruction that was fetched in it: a memory write
records the source register. -/
def TraceRow.recordBorrowed (step : ℕ) (before after : Vm) (fetched : FetchedInstruction) :
    TraceRow :=
  let insn := fetched.instruction
  let rd := insn.rd.getD 0
  let rs1 := insn.rs1.getD 0
  let rs2 := insn.rs2.getD 0
  let rs1Val := before.cpu.readReg rs1
  let rs2Val := before.cpu.readReg rs2
  let rdValAfter := after.cpu.readReg rd
  let (memAddr, memOp) := computeMemInfoWith insn before.cpu.readReg
  let memVal :=
    match memOp with
    | .read => rdValAfter
    | .write => rs2Val
    | .none => 0
  let (aux0, aux1, aux2) := computeAuxValues insn rs1Val rs2Val rdValAfter
  { step := BitVec.ofNat 64 step
    pc := before.cpu.pc
    instruction := insn
    rd := rd
    rdValBefore := before.cpu.readReg rd
    rdValAfter := rdValAfter
    rs1 := rs1
    rs1Val := rs1Val
    rs2 := rs2
    rs2Val := rs2Val
    memAddr := memAddr
    memVal := memVal
    memOp := memOp
    nextPc := after.cpu.pc
    privilegeMode := before.cpu.privMode.bits.setWidth 8
    insnLen := fetched.len
    aux0 := aux0
    aux1 := aux1
    aux2 := aux2 }

structure TracingVmBorrowed where
  vm : Vm
  trace : List TraceRow

namespace TracingVmBorrowed

/-- One recorded step; a step in which the fetch traps leaves no row. -/
def step (tracer : TracingVmBorrowed) :
    Option (TracingVmBorrowed × Except VmError Unit) :=
  if tracer.vm.halted then some (tracer, .error .halted)
  else
    tracer.vm.step.map fun (after, result) =>
      match result with
      | .error e => ({ tracer with vm := after }, .error e)
      | .ok () =>
          let taken := { after with lastFetched := none }
          match after.lastFetched with
          | none => ({ tracer with vm := taken }, .ok ())
          | some (instruction, insnLen) =>
              let row := TraceRow.recordBorrowed tracer.trace.length tracer.vm after
                ⟨instruction, insnLen⟩
              (⟨taken, tracer.trace ++ [row]⟩, .ok ())

end TracingVmBorrowed

namespace TracingVmBorrowed

/-- An instruction that executes without an error is recorded. -/
theorem step_executed {tracer : TracingVmBorrowed} {prepared ready ran : Vm}
    {fetched : FetchedInstruction} (running : tracer.vm.halted = false)
    (prepares : tracer.vm.prepare = some prepared)
    (fetches : prepared.fetch = .fetched ready fetched)
    (executes : ready.execute fetched.instruction = (ran, .ok ())) :
    tracer.step = some (⟨{ ran.retire with lastFetched := none }, tracer.trace ++
      [.recordBorrowed tracer.trace.length tracer.vm ran.retire fetched]⟩, .ok ()) := by
  have noted : ran.retire.lastFetched = some (fetched.instruction, fetched.len) := by
    have kept := (ready.execute_effect fetched.instruction).lastFetched
    rw [executes] at kept
    rw [Vm.retire_lastFetched, kept, Vm.fetch_lastFetched fetches]
  have moves : tracer.vm.step = some (ran.retire, .ok ()) := by
    rw [Vm.step_of_prepare running prepares, Vm.stepInner, fetches]
    simp only [executes]
  rw [step, if_neg (ne_true_of_eq_false running), moves]
  simp only [Option.map_some, noted]

/-- A step that records a row has executed the instruction that it names. -/
theorem row_executed {tracer : TracingVmBorrowed} {after : Vm} {row : TraceRow}
    {result : Except VmError Unit}
    (stepped : tracer.step = some (⟨after, tracer.trace ++ [row]⟩, result)) :
    ∃ prepared ready ran fetched, tracer.vm.prepare = some prepared ∧
      prepared.fetch = .fetched ready fetched ∧
      ready.execute fetched.instruction = (ran, .ok ()) ∧
      after = { ran.retire with lastFetched := none } ∧
      row = .recordBorrowed tracer.trace.length tracer.vm ran.retire fetched := by
  have grew : ∀ {rows : List TraceRow}, rows = rows ++ [row] → False := fun same =>
    absurd (congrArg List.length same) (by simp)
  rw [step] at stepped
  split at stepped
  · have same := congrArg (fun outcome => outcome.1.trace) (Option.some.inj stepped)
    exact absurd same grew
  rename_i running
  obtain ⟨outcome, machine, recorded⟩ := Option.map_eq_some_iff.1 stepped
  have ends := Vm.step_outcome (Bool.eq_false_of_not_eq_true running) machine
  cases ends with
  | executed prepares fetches ran =>
      rename_i prepared ready ended fetched
      have noted : ended.retire.lastFetched = some (fetched.instruction, fetched.len) := by
        have kept := (ready.execute_effect fetched.instruction).lastFetched
        rw [ran] at kept
        rw [Vm.retire_lastFetched, kept, Vm.fetch_lastFetched fetches]
      simp only [noted, Prod.mk.injEq, TracingVmBorrowed.mk.injEq] at recorded
      obtain ⟨⟨isAfter, rows⟩, -⟩ := recorded
      exact ⟨prepared, ready, ended, fetched, prepares, fetches, ran, isAfter.symm,
        (List.cons.inj (List.append_cancel_left rows)).1.symm⟩
  | broke | failed =>
      have same := congrArg (fun outcome => outcome.1.trace) recorded
      exact absurd same grew
  | trapped prepares fault =>
      simp only [Vm.fetch_trapped_lastFetched fault] at recorded
      have same := congrArg (fun outcome => outcome.1.trace) recorded
      exact absurd same grew

end TracingVmBorrowed

end MetaVm.Riscv
