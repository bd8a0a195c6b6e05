import MetaVm.Riscv.Trace.TracingVm

namespace MetaVm.Riscv

open Rv64

/-! The two tracers on an unprivileged machine. -/

/-- What a call of a tracer leaves: its machine, its rows and the result. -/
abbrev TraceOutcome : Type := Vm × List TraceRow × Except VmError Unit

namespace TraceOutcome

/-- Without the machine's note of its last fetch, which the next fetch clears. -/
def forgetFetched (outcome : TraceOutcome) : TraceOutcome :=
  ({ outcome.1 with lastFetched := none }, outcome.2)

end TraceOutcome

def TracingVm.call (vm : Vm) (trace : List TraceRow) : Option TraceOutcome :=
  (step ⟨vm, trace⟩).map fun (tracer, result) => (tracer.vm, tracer.trace, result)

def TracingVmBorrowed.call (vm : Vm) (trace : List TraceRow) : Option TraceOutcome :=
  (step ⟨vm, trace⟩).map fun (tracer, result) => (tracer.vm, tracer.trace, result)

/-! The rows differ in what an atomic update stores. -/

/-- The rows of the two tracers differ at most in the value of a memory write. -/
theorem record_eq_iff (step : ℕ) (before after : Vm) (fetched : FetchedInstruction) :
    TraceRow.record step before after fetched =
        .recordBorrowed step before after fetched ↔
      ∀ op width rd rs1 rs2 aq rl,
        fetched.instruction = .amo op width rd rs1 rs2 aq rl →
          op.memVal width (after.cpu.readReg rd) (before.cpu.readReg rs2) =
            before.cpu.readReg rs2 := by
  obtain ⟨insn, len⟩ := fetched
  constructor
  · rintro same op width rd rs1 rs2 aq rl rfl
    exact congrArg TraceRow.memVal same
  · intro stores
    cases insn with
    | amo op width rd rs1 rs2 aq rl =>
        have same := stores op width rd rs1 rs2 aq rl rfl
        unfold TraceRow.record TraceRow.recordBorrowed
        simp only [computeMemInfo, computeMemInfoWith, computeMemVal, Instruction.rd,
          Instruction.rs2, Option.getD_some, same]
    | _ => rfl

namespace Vm

/-- The value that an atomic update loads. -/
def atomicOld (vm : Vm) (width : AmoWidth) (pa : Word) : Word :=
  match width with
  | .w => sext32 (vm.mmioLoadWord pa).1
  | .d => (vm.mmioLoadDouble pa).1

/-- Every atomic update that stands at the program counter stores what is in its
source register. -/
def AtomicsStoreSource (vm : Vm) : Prop :=
  ∀ op width rd rs1 rs2 aq rl len,
    fetchDecode vm.memory vm.cpu.pc = .ok ⟨.amo op width rd rs1 rs2 aq rl, len⟩ →
      op.memVal width (if rd = 0 then 0 else vm.atomicOld width (vm.cpu.readReg rs1))
        (vm.cpu.readReg rs2) = vm.cpu.readReg rs2

/-- An atomic update leaves in its destination what it loads. -/
theorem amo_readReg {vm : Vm} (unprivileged : vm.privileged = false) {op : AmoOp} {width : AmoWidth} {rd rs1 rs2 : Reg} {aq rl : Bool}
    {after : Vm} {result : Except VmError Unit}
    (ran : vm.execute (.amo op width rd rs1 rs2 aq rl) = (after, result)) :
    after.cpu.readReg rd =
      if rd = 0 then 0 else vm.atomicOld width (vm.cpu.readReg rs1) := by
  have direct := translateFor_of_unprivileged unprivileged (vm.cpu.readReg rs1) .write
  simp only [execute, translateStore, direct, onAddress, Prod.mk.injEq] at ran
  obtain ⟨rfl, -⟩ := ran
  by_cases zero : rd = 0
  · subst zero
    rfl
  · rw [if_neg zero]
    have loaded : (vm.amoOp op width (vm.cpu.readReg rs1) (vm.cpu.readReg rs2)).1 =
        vm.atomicOld width (vm.cpu.readReg rs1) := by
      cases width <;> rfl
    rw [← loaded]
    exact CpuState.readReg_writeReg _ zero _

/-! The note of the fetch does not change what is loaded. -/

section NoteFetched

variable (vm : Vm) (fetched : FetchedInstruction) (addr : Word)

theorem mmioLoadByte_noteFetched : (vm.noteFetched fetched).mmioLoadByte addr =
    ((vm.mmioLoadByte addr).1, (vm.mmioLoadByte addr).2.noteFetched fetched) := by
  rw [mmioLoadByte, mmioLoadByte]
  split <;> rfl

theorem mmioLoadHalf_noteFetched : (vm.noteFetched fetched).mmioLoadHalf addr =
    ((vm.mmioLoadHalf addr).1, (vm.mmioLoadHalf addr).2.noteFetched fetched) := by
  rw [mmioLoadHalf, mmioLoadHalf]
  split
  · rfl
  · simp only [mmioLoadByte_noteFetched]

theorem mmioLoadWord_noteFetched : (vm.noteFetched fetched).mmioLoadWord addr =
    ((vm.mmioLoadWord addr).1, (vm.mmioLoadWord addr).2.noteFetched fetched) := by
  rw [mmioLoadWord, mmioLoadWord]
  split
  · rfl
  · simp only [mmioLoadHalf_noteFetched]

theorem mmioLoadDouble_noteFetched : (vm.noteFetched fetched).mmioLoadDouble addr =
    ((vm.mmioLoadDouble addr).1, (vm.mmioLoadDouble addr).2.noteFetched fetched) := by
  rw [mmioLoadDouble, mmioLoadDouble]
  split
  · rfl
  · simp only [mmioLoadWord_noteFetched]

theorem atomicOld_noteFetched (width : AmoWidth) :
    (vm.noteFetched fetched).atomicOld width addr = vm.atomicOld width addr := by
  cases width with
  | w => rw [atomicOld, atomicOld, mmioLoadWord_noteFetched]
  | d => rw [atomicOld, atomicOld, mmioLoadDouble_noteFetched]

end NoteFetched

/-- A machine that halts, that cannot decode what stands at its program counter and
remembers no fetch, or that meets a breakpoint. -/
def LeavesNoRow (vm : Vm) : Prop :=
  vm.halted = true ∨
    match fetchDecode vm.memory vm.cpu.pc with
    | .ok fetched => fetched.instruction = .ebreak
    | .error _ => vm.lastFetched = none

end Vm

section Agreement

variable {vm : Vm} (trace : List TraceRow)

/-- An executed instruction leaves the machine with the note of its fetch. -/
theorem ran_lastFetched {vm after : Vm} {fetched : FetchedInstruction}
    {result : Except VmError Unit}
    (ran : (vm.noteFetched fetched).execute fetched.instruction = (after, result)) :
    after.lastFetched = some (fetched.instruction, fetched.len) := by
  have kept := ((vm.noteFetched fetched).execute_effect fetched.instruction).lastFetched
  rw [ran] at kept
  exact kept

/-- An unprivileged breakpoint does not end well. -/
theorem ebreak_broke {vm after : Vm} (unprivileged : vm.privileged = false)
    (ran : vm.execute .ebreak = (after, .ok ())) : False := by
  simp only [Vm.execute, unprivileged, Bool.false_eq_true, if_false] at ran
  cases congrArg Prod.snd ran

theorem calls_of_halted (halted : vm.halted = true) :
    TracingVm.call vm trace = TracingVmBorrowed.call vm trace := by
  rw [TracingVm.call, TracingVmBorrowed.call, TracingVm.step, TracingVmBorrowed.step,
    if_pos halted, if_pos halted]
  rfl

variable (unprivileged : vm.privileged = false) (running : vm.halted = false)

include unprivileged running

theorem calls_of_undecodable {e : DecodeError}
    (stands : fetchDecode vm.memory vm.cpu.pc = .error e) :
    TracingVm.call vm trace = some (vm, trace, .error (.decode e)) ∧
      TracingVmBorrowed.call vm trace =
        some ({ vm with lastFetched := none }, trace, .error (.decode e)) := by
  have moves := Vm.step_of_unprivileged unprivileged running
  rw [stands] at moves
  rw [TracingVm.call, TracingVmBorrowed.call, TracingVm.step, TracingVmBorrowed.step,
    if_neg (ne_true_of_eq_false running), if_neg (ne_true_of_eq_false running), stands, moves]
  exact ⟨rfl, rfl⟩

theorem calls_of_broke {fetched : FetchedInstruction} {after : Vm} {e : VmError}
    (stands : fetchDecode vm.memory vm.cpu.pc = .ok fetched)
    (ran : (vm.noteFetched fetched).execute fetched.instruction = (after, .error e)) :
    TracingVm.call vm trace = TracingVmBorrowed.call vm trace := by
  have moves := Vm.step_of_unprivileged unprivileged running
  simp only [stands, ran] at moves
  rw [TracingVm.call, TracingVmBorrowed.call, TracingVm.step, TracingVmBorrowed.step,
    if_neg (ne_true_of_eq_false running), if_neg (ne_true_of_eq_false running), stands, moves]
  rfl

theorem calls_of_executed {fetched : FetchedInstruction} {after : Vm}
    (stands : fetchDecode vm.memory vm.cpu.pc = .ok fetched)
    (ran : (vm.noteFetched fetched).execute fetched.instruction = (after, .ok ())) :
    TracingVm.call vm trace = some (after.retire,
        trace ++ [.record trace.length vm after.retire fetched], .ok ()) ∧
      TracingVmBorrowed.call vm trace = some ({ after.retire with lastFetched := none },
        trace ++ [.recordBorrowed trace.length vm after.retire fetched], .ok ()) := by
  have moves := Vm.step_of_unprivileged unprivileged running
  simp only [stands, ran] at moves
  have noted : after.retire.lastFetched = some (fetched.instruction, fetched.len) := by
    rw [Vm.retire_lastFetched, ran_lastFetched ran]
  rw [TracingVm.call, TracingVmBorrowed.call, TracingVm.step, TracingVmBorrowed.step,
    if_neg (ne_true_of_eq_false running), if_neg (ne_true_of_eq_false running), stands, moves]
  refine ⟨rfl, ?_⟩
  simp only [Option.map_some, noted]

end Agreement

/-- The rows of an executed instruction agree where it is no atomic update, or one that
stores its source register. -/
theorem records_eq_iff {vm after : Vm} (unprivileged : vm.privileged = false)
    {fetched : FetchedInstruction} (stands : fetchDecode vm.memory vm.cpu.pc = .ok fetched)
    (ran : (vm.noteFetched fetched).execute fetched.instruction = (after, .ok ())) (step : ℕ) :
    TraceRow.record step vm after.retire fetched =
        .recordBorrowed step vm after.retire fetched ↔ vm.AtomicsStoreSource := by
  have loaded : ∀ {op width rd rs1 rs2 aq rl},
      fetched.instruction = .amo op width rd rs1 rs2 aq rl →
        after.retire.cpu.readReg rd =
          if rd = 0 then 0 else vm.atomicOld width (vm.cpu.readReg rs1) := by
    intro op width rd rs1 rs2 aq rl isAtomic
    rw [isAtomic] at ran
    have left := @Vm.amo_readReg (vm.noteFetched fetched) unprivileged _ _ _ _ _ _ _ _ _ ran
    rw [Vm.atomicOld_noteFetched] at left
    exact (Vm.readReg_of_x (Vm.retire_x after) rd).trans left
  rw [record_eq_iff]
  constructor
  · intro same op width rd rs1 rs2 aq rl len atomic
    rw [stands, Except.ok.injEq] at atomic
    have isAtomic := congrArg FetchedInstruction.instruction atomic
    rw [← loaded isAtomic]
    exact same op width rd rs1 rs2 aq rl isAtomic
  · intro stores op width rd rs1 rs2 aq rl isAtomic
    rw [loaded isAtomic]
    apply stores op width rd rs1 rs2 aq rl fetched.len
    rw [stands, ← isAtomic]

/-- On an unprivileged machine the tracers leave the same where no row is recorded, and
up to the note of the last fetch where every atomic update stores its source register. -/
theorem tracers_agree_iff {vm : Vm} (unprivileged : vm.privileged = false)
    (trace : List TraceRow) :
    (TracingVm.call vm trace = TracingVmBorrowed.call vm trace ↔ vm.LeavesNoRow) ∧
      ((TracingVm.call vm trace).map TraceOutcome.forgetFetched =
          (TracingVmBorrowed.call vm trace).map TraceOutcome.forgetFetched ↔
        vm.halted = true ∨ vm.AtomicsStoreSource) := by
  have agree : ∀ {held other : Prop}, TracingVm.call vm trace = TracingVmBorrowed.call vm trace →
      held → other → (TracingVm.call vm trace = TracingVmBorrowed.call vm trace ↔ held) ∧
        ((TracingVm.call vm trace).map TraceOutcome.forgetFetched =
          (TracingVmBorrowed.call vm trace).map TraceOutcome.forgetFetched ↔ other) := by
    intro held other same holds otherHolds
    exact ⟨iff_of_true same holds, iff_of_true (by rw [same]) otherHolds⟩
  by_cases halted : vm.halted = true
  · exact agree (calls_of_halted trace halted) (.inl halted) (.inl halted)
  have running : vm.halted = false := Bool.eq_false_of_not_eq_true halted
  rw [Vm.LeavesNoRow, or_iff_right halted, or_iff_right halted]
  cases stands : fetchDecode vm.memory vm.cpu.pc with
  | error e =>
      obtain ⟨first, second⟩ := calls_of_undecodable trace unprivileged running stands
      rw [first, second]
      constructor
      · constructor
        · intro same
          exact congrArg (fun outcome : TraceOutcome => outcome.1.lastFetched)
            (Option.some.inj same)
        · intro (forgotten : vm.lastFetched = none)
          rw [← forgotten]
      · refine iff_of_true rfl ?_
        intro op width rd rs1 rs2 aq rl len atomic
        rw [stands] at atomic
        cases atomic
  | ok fetched =>
      cases ran : (vm.noteFetched fetched).execute fetched.instruction with
      | mk after result =>
          cases result with
          | error e =>
              have isBreak : fetched.instruction = .ebreak :=
                Vm.execute_error (congrArg Prod.snd ran)
              refine agree (calls_of_broke trace unprivileged running stands ran) isBreak ?_
              intro op width rd rs1 rs2 aq rl len atomic
              rw [stands, Except.ok.injEq] at atomic
              rw [atomic] at isBreak
              cases isBreak
          | ok done =>
              obtain ⟨first, second⟩ :=
                calls_of_executed trace unprivileged running stands ran
              rw [first, second]
              constructor
              · refine iff_of_false ?_ ?_
                · intro same
                  have fetch := congrArg (fun outcome : TraceOutcome => outcome.1.lastFetched)
                    (Option.some.inj same)
                  rw [Vm.retire_lastFetched, ran_lastFetched ran] at fetch
                  cases fetch
                · intro (isBreak : fetched.instruction = .ebreak)
                  rw [isBreak] at ran
                  exact @ebreak_broke (vm.noteFetched fetched) after unprivileged ran
              · rw [← records_eq_iff unprivileged stands ran trace.length]
                constructor
                · intro same
                  have rows := congrArg (fun outcome : TraceOutcome => outcome.2.1)
                    (Option.some.inj same)
                  exact (List.cons.inj (List.append_cancel_left rows)).1
                · intro same
                  rw [same]
                  rfl

/-- A machine that adds 3 to the 5 in memory. -/
def adderVm : Vm :=
  ((Vm.new .new ((Memory.new.storeWord 0 0x0063B2AF).storeDouble 0x80000000 5)).writeReg 7
    0x80000000).writeReg 6 3

theorem adderVm_stands :
    fetchDecode adderVm.memory adderVm.cpu.pc = .ok ⟨.amo .add .d 5 7 6 false false, 4⟩ := by
  decide

theorem adderVm_stores : ¬ adderVm.AtomicsStoreSource := by
  intro stores
  have sum : AmoOp.memVal .add .d (adderVm.atomicOld .d (adderVm.cpu.readReg 7))
      (adderVm.cpu.readReg 6) = adderVm.cpu.readReg 6 :=
    stores .add .d 5 7 6 false false 4 adderVm_stands
  exact absurd sum (by decide)

/-- The tracers disagree about the memory that an atomic addition leaves, not only about
the note of the last fetch. -/
theorem tracers_disagree :
    (¬ ∀ (vm : Vm) (trace : List TraceRow), vm.privileged = false →
      TracingVm.call vm trace = TracingVmBorrowed.call vm trace) ∧
    ¬ ∀ (vm : Vm) (trace : List TraceRow), vm.privileged = false →
      (TracingVm.call vm trace).map TraceOutcome.forgetFetched =
        (TracingVmBorrowed.call vm trace).map TraceOutcome.forgetFetched := by
  have differ : (TracingVm.call adderVm []).map TraceOutcome.forgetFetched ≠
      (TracingVmBorrowed.call adderVm []).map TraceOutcome.forgetFetched := by
    intro same
    have ran : (adderVm.noteFetched ⟨.amo .add .d 5 7 6 false false, 4⟩).execute
        (.amo .add .d 5 7 6 false false) = (_, .ok ()) := rfl
    obtain ⟨first, second⟩ := calls_of_executed [] rfl rfl adderVm_stands ran
    rw [first, second] at same
    have rows := congrArg (fun outcome : TraceOutcome => outcome.2.1) (Option.some.inj same)
    exact adderVm_stores ((records_eq_iff rfl adderVm_stands ran 0).1
      (List.cons.inj (List.append_cancel_left rows)).1)
  constructor
  · intro agree
    exact differ (congrArg _ (agree adderVm [] rfl))
  · intro agree
    exact differ (agree adderVm [] rfl)

/-- A machine that swaps 3 with the 5 in memory. -/
def swapperVm : Vm :=
  ((Vm.new .new ((Memory.new.storeWord 0 0x0863B2AF).storeDouble 0x80000000 5)).writeReg 7
    0x80000000).writeReg 6 3

/-- A swap stores its source, so that the tracers record the same row and differ in the note
of the last fetch alone. -/
theorem swap_calls_agree :
    (TracingVm.call swapperVm []).map (fun outcome => outcome.2.1.length) = some 1 ∧
      TracingVm.call swapperVm [] ≠ TracingVmBorrowed.call swapperVm [] ∧
      (TracingVm.call swapperVm []).map TraceOutcome.forgetFetched =
        (TracingVmBorrowed.call swapperVm []).map TraceOutcome.forgetFetched := by
  have stands : fetchDecode swapperVm.memory swapperVm.cpu.pc =
      .ok ⟨.amo .swap .d 5 7 6 false false, 4⟩ := by decide
  have agree := tracers_agree_iff (show swapperVm.privileged = false from rfl) []
  refine ⟨?_, mt agree.1.1 ?_, agree.2.2 (.inr ?_)⟩
  · have ran : (swapperVm.noteFetched ⟨.amo .swap .d 5 7 6 false false, 4⟩).execute
        (.amo .swap .d 5 7 6 false false) = (_, .ok ()) := rfl
    rw [(calls_of_executed [] rfl rfl stands ran).1]
    rfl
  · rintro (halted | silent)
    · cases halted
    · rw [stands] at silent
      cases silent
  · intro op width rd rs1 rs2 aq rl len atomic
    rw [stands] at atomic
    cases atomic
    rfl

end MetaVm.Riscv
