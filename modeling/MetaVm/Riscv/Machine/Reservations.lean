import MetaVm.Lib.Reservation
import MetaVm.Riscv.Encode
import MetaVm.Riscv.Machine.Stepping

namespace MetaVm.Riscv

open Reservation

/-! Reservations and the accesses that break them. -/

/-- A range of physical bytes, by its address and size. -/
abbrev ByteRange : Type := Word × Byte

namespace ByteRange

/-- Two ranges share a byte; a range goes on at address zero after the last one. -/
def Overlaps (written reserved : ByteRange) : Prop :=
  ∃ i < written.2.toNat, ∃ j < reserved.2.toNat,
    written.1 + BitVec.ofNat 64 i = reserved.1 + BitVec.ofNat 64 j

/-- A range holds the last byte of the address space. -/
def ReachesEnd (range : ByteRange) : Prop := 2 ^ 64 ≤ range.1.toNat + range.2.toNat

/-- The comparison of `check_reservation_on_store`. -/
def detects (written reserved : ByteRange) : Bool :=
  written.1 < reserved.1 + reserved.2.setWidth 64 ∧
    reserved.1 < written.1 + written.2.setWidth 64

variable {written reserved : ByteRange}

theorem overlaps_iff (writtenIn : ¬ written.ReachesEnd) (reservedIn : ¬ reserved.ReachesEnd) :
    written.Overlaps reserved ↔ 0 < written.2.toNat ∧ 0 < reserved.2.toNat ∧
      written.1.toNat < reserved.1.toNat + reserved.2.toNat ∧
        reserved.1.toNat < written.1.toNat + written.2.toNat := by
  unfold ReachesEnd at writtenIn reservedIn
  constructor
  · rintro ⟨i, iBounded, j, jBounded, same⟩
    have values := congrArg BitVec.toNat same
    simp only [BitVec.toNat_add, BitVec.toNat_ofNat] at values
    omega
  · rintro ⟨writtenSome, reservedSome, before, after⟩
    by_cases first : written.1.toNat ≤ reserved.1.toNat
    · refine ⟨reserved.1.toNat - written.1.toNat, by omega, 0, by omega, ?_⟩
      apply BitVec.eq_of_toNat_eq
      simp only [BitVec.toNat_add, BitVec.toNat_ofNat]
      omega
    · refine ⟨0, by omega, written.1.toNat - reserved.1.toNat, by omega, ?_⟩
      apply BitVec.eq_of_toNat_eq
      simp only [BitVec.toNat_add, BitVec.toNat_ofNat]
      omega

/-- The comparison sees an overlap exactly where neither range reaches the end of the address
space. -/
theorem detects_iff (writtenSome : 0 < written.2.toNat) (reservedSome : 0 < reserved.2.toNat) :
    written.detects reserved = true ↔
      written.Overlaps reserved ∧ ¬ written.ReachesEnd ∧ ¬ reserved.ReachesEnd := by
  have writtenByte := written.2.isLt
  have reservedByte := reserved.2.isLt
  have writtenWord := written.1.isLt
  have reservedWord := reserved.1.isLt
  have compared : written.detects reserved = true ↔
      written.1.toNat < (reserved.1.toNat + reserved.2.toNat) % 2 ^ 64 ∧
        reserved.1.toNat < (written.1.toNat + written.2.toNat) % 2 ^ 64 := by
    rw [detects, decide_eq_true_iff, BitVec.lt_def, BitVec.lt_def, BitVec.toNat_add,
      BitVec.toNat_add, BitVec.toNat_setWidth, BitVec.toNat_setWidth]
    omega
  rw [compared]
  by_cases inside : ¬ written.ReachesEnd ∧ ¬ reserved.ReachesEnd
  · rw [and_iff_left inside, overlaps_iff inside.1 inside.2]
    unfold ReachesEnd at inside
    omega
  · refine iff_of_false ?_ fun both => inside both.2
    unfold ReachesEnd at inside
    omega

end ByteRange

/-- The number of bytes of an atomic access. -/
def AmoWidth.bytes : AmoWidth → Byte
  | w => 4
  | d => 8

namespace Vm

variable (vm : Vm)

/-- What the execution of an instruction does to physical memory. -/
def accessEvent (insn : Instruction) : Event ByteRange :=
  match insn with
  | .store op rs1 _ imm =>
      match (vm.translateStore (vm.cpu.readReg rs1 + imm.word)).2 with
      | some pa => .write (pa, op.bytes)
      | none => .skip
  | .lr width _ rs1 _ _ =>
      match (vm.translateLoad (vm.cpu.readReg rs1)).2 with
      | some pa => .reserve (pa, width.bytes)
      | none => .skip
  | .sc width _ rs1 _ _ _ =>
      match (vm.translateStore (vm.cpu.readReg rs1)).2 with
      | some pa =>
          if vm.reservation = some (pa, width.bytes) then .succeed (pa, width.bytes)
          else .release
      | none => .skip
  | .amo _ width _ rs1 _ _ _ =>
      match (vm.translateStore (vm.cpu.readReg rs1)).2 with
      | some pa => .update (pa, width.bytes)
      | none => .skip
  | _ => .skip

/-- What a step does to physical memory by the instruction that it executes. -/
def stepEvent : Event ByteRange :=
  if vm.halted then .skip
  else
    match vm.prepare with
    | none => .skip
    | some prepared =>
        match prepared.fetch with
        | .fetched ready fetched => ready.accessEvent fetched.instruction
        | _ => .skip

/-! What a step leaves of a reservation. -/

theorem translateFor_reservation (vaddr : Word) (accessType : AccessType) :
    (vm.translateFor vaddr accessType).1.reservation = vm.reservation := by
  unfold translateFor
  split
  · simp only [translateAddr]
    split
    · rfl
    · split <;> rfl
  · rfl

theorem checkReservationOnStore_reservation (addr : Word) (size : Byte) :
    (vm.checkReservationOnStore addr size).reservation =
      next ByteRange.detects vm.reservation (.write (addr, size)) := by
  rw [checkReservationOnStore]
  cases held : vm.reservation with
  | none => exact held
  | some reserved =>
      dsimp only [next]
      rw [Option.filter_some]
      split
      · rename_i overlap
        rw [ByteRange.detects, decide_eq_true overlap]
        rfl
      · rename_i apart
        rw [ByteRange.detects, decide_eq_false apart]
        exact held

theorem storeOp_reservation (op : StoreOp) (addr val : Word) :
    (vm.storeOp op addr val).reservation =
      next ByteRange.detects vm.reservation (.write (addr, op.bytes)) := by
  obtain ⟨stored, touches, same⟩ := vm.storeOp_eq addr op val
  rw [same, checkReservationOnStore_reservation, touches.reservation]

theorem executeEcall_reservation : vm.executeEcall.reservation = vm.reservation := by
  rw [executeEcall]
  split
  · rfl
  · dsimp only
    split
    · rfl
    split
    · rfl
    split <;> rfl

theorem executeCsr_reservation (op : CsrOp) (rd : Reg) (csr : CsrAddr) (source : Word)
    (writes : Bool) : (vm.executeCsr op rd csr source writes).reservation = vm.reservation := by
  rw [executeCsr]
  split
  · split <;> rfl
  · dsimp only
    split
    · split <;> rfl
    · rfl

theorem executeSret_reservation : vm.executeSret.reservation = vm.reservation := by
  rw [executeSret]
  split <;> rfl

theorem execute_reservation (insn : Instruction) :
    (vm.execute insn).1.reservation =
      next ByteRange.detects vm.reservation (vm.accessEvent insn) := by
  cases insn with
  | lui | auipc | jal | jalr | branch | opImm | op | opImmW | opW | mulDiv => rfl
  | fence | fenceI | mret => rfl
  | load op rd rs1 imm =>
      have kept := vm.translateFor_reservation (vm.cpu.readReg rs1 + imm.word) .read
      simp only [execute, accessEvent, translateLoad, next]
      cases translates : vm.translateFor (vm.cpu.readReg rs1 + imm.word) .read with
      | mk translated found =>
          rw [translates] at kept
          cases found with
          | none => exact kept
          | some pa => exact (touches_loadOp translated pa op).reservation.trans kept
  | store op rs1 rs2 imm =>
      have kept := vm.translateFor_reservation (vm.cpu.readReg rs1 + imm.word) .write
      simp only [execute, accessEvent, translateStore]
      cases translates : vm.translateFor (vm.cpu.readReg rs1 + imm.word) .write with
      | mk translated found =>
          rw [translates] at kept
          cases found with
          | none => exact kept
          | some pa =>
              refine (translated.storeOp_reservation op pa _).trans ?_
              rw [kept]
  | ecall => exact vm.executeEcall_reservation
  | ebreak =>
      simp only [execute]
      split <;> rfl
  | csr op => cases op <;> exact vm.executeCsr_reservation _ _ _ _ _
  | csrImm op => cases op <;> exact vm.executeCsr_reservation _ _ _ _ _
  | sret => exact vm.executeSret_reservation
  | wfi =>
      simp only [execute]
      split <;> rfl
  | sfenceVma =>
      simp only [execute]
      split <;> rfl
  | lr width rd rs1 =>
      have kept := vm.translateFor_reservation (vm.cpu.readReg rs1) .read
      simp only [execute, accessEvent, translateLoad]
      cases translates : vm.translateFor (vm.cpu.readReg rs1) .read with
      | mk translated found =>
          rw [translates] at kept
          cases found with
          | none => exact kept
          | some pa => cases width <;> rfl
  | sc width rd rs1 =>
      have kept := vm.translateFor_reservation (vm.cpu.readReg rs1) .write
      simp only [execute, accessEvent, translateStore]
      cases translates : vm.translateFor (vm.cpu.readReg rs1) .write with
      | mk translated found =>
          rw [translates] at kept
          cases found with
          | none => exact kept
          | some pa =>
              dsimp only
              by_cases held : vm.reservation = some (pa, width.bytes)
              · rw [if_pos held]
                rfl
              · rw [if_neg held]
                rfl
  | amo op width rd rs1 =>
      have kept := vm.translateFor_reservation (vm.cpu.readReg rs1) .write
      simp only [execute, accessEvent, translateStore]
      cases translates : vm.translateFor (vm.cpu.readReg rs1) .write with
      | mk translated found =>
          rw [translates] at kept
          cases found with
          | none => exact kept
          | some pa => rfl

/-- A conditional store that is reached returns zero exactly where it succeeds. -/
theorem sc_returns_zero_iff {width : AmoWidth} {rd rs1 rs2 : Reg} {aq rl : Bool}
    {translated : Vm} {pa : Word} (nonzero : rd ≠ 0)
    (translates : vm.translateStore (vm.cpu.readReg rs1) = (translated, some pa)) :
    (vm.execute (.sc width rd rs1 rs2 aq rl)).1.cpu.readReg rd = 0 ↔
      vm.accessEvent (.sc width rd rs1 rs2 aq rl) = .succeed (pa, width.bytes) := by
  have kept : translated.reservation = vm.reservation := by
    have same := vm.translateFor_reservation (vm.cpu.readReg rs1) .write
    rw [translateStore] at translates
    rwa [translates] at same
  simp only [execute, accessEvent, translates, onAddress]
  by_cases held : vm.reservation = some (pa, width.bytes)
  · rw [if_pos held]
    refine iff_of_true ?_ rfl
    cases width with
    | w =>
        have matched : translated.reservation = some (pa, 4) := kept.trans held
        dsimp only
        rw [if_pos matched]
        exact CpuState.readReg_writeReg _ nonzero 0
    | d =>
        have matched : translated.reservation = some (pa, 8) := kept.trans held
        dsimp only
        rw [if_pos matched]
        exact CpuState.readReg_writeReg _ nonzero 0
  · rw [if_neg held]
    refine iff_of_false ?_ (by rintro ⟨⟩)
    have returned : ((translated.writeReg rd 1).setPc vm.sequentialPc).cpu.readReg rd = 1 :=
      CpuState.readReg_writeReg _ nonzero 1
    cases width with
    | w =>
        have unmatched : translated.reservation ≠ some (pa, 4) := fun same =>
          held (kept.symm.trans same)
        dsimp only
        rw [if_neg unmatched]
        exact fun zero => absurd (returned.symm.trans zero) (by decide)
    | d =>
        have unmatched : translated.reservation ≠ some (pa, 8) := fun same =>
          held (kept.symm.trans same)
        dsimp only
        rw [if_neg unmatched]
        exact fun zero => absurd (returned.symm.trans zero) (by decide)

/-! Runs. -/

theorem tick_reservation {vm ticked : Vm} (ticks : vm.tick = some ticked) :
    ticked.reservation = vm.reservation := by
  rw [tick] at ticks
  split at ticks
  · simp only [tickDevices] at ticks
    obtain ⟨processed, _, rfl⟩ := Option.map_eq_some_iff.1 ticks
    rfl
  · cases ticks
    rfl

theorem prepare_reservation {vm prepared : Vm} (prepares : vm.prepare = some prepared) :
    prepared.reservation = vm.reservation := by
  rw [prepare_eq] at prepares
  obtain ⟨ticked, ticks, rfl⟩ := Option.map_eq_some_iff.1 prepares
  rw [← tick_reservation ticks, takeInterrupt]
  split <;> rfl

theorem retire_reservation : vm.retire.reservation = vm.reservation := by
  rw [retire]
  split <;> rfl

/-- The machine that a fetch leaves. -/
def FetchOutcome.machine : FetchOutcome → Vm
  | fetched ready _ => ready
  | trapped machine => machine
  | failed machine _ => machine

theorem fetch_reservation {vm : Vm} : vm.fetch.machine.reservation = vm.reservation := by
  have kept := translateFor_reservation { vm with lastFetched := none } vm.cpu.pc .execute
  simp only [fetch]
  cases translates : translateFor { vm with lastFetched := none } vm.cpu.pc .execute with
  | mk translated found =>
      rw [translates] at kept
      cases found with
      | none => exact kept
      | some pa =>
          dsimp only
          cases fetchDecode translated.memory pa with
          | ok fetched => exact kept
          | error e =>
              dsimp only
              split
              · exact kept
              · exact kept

theorem stepInner_reservation {vm : Vm} :
    vm.stepInner.1.reservation =
      match vm.fetch with
      | .fetched ready fetched =>
          next ByteRange.detects vm.reservation (ready.accessEvent fetched.instruction)
      | _ => vm.reservation := by
  have fetchKept := @fetch_reservation vm
  rw [stepInner]
  cases fetches : vm.fetch with
  | fetched ready fetched =>
      rw [fetches] at fetchKept
      have readyKept : ready.reservation = vm.reservation := fetchKept
      have ran := ready.execute_reservation fetched.instruction
      rw [readyKept] at ran
      dsimp only
      split
      · rename_i after executes
        rw [executes] at ran
        exact (retire_reservation after).trans ran
      · rename_i after e executes
        rw [executes] at ran
        exact ran
  | trapped trapped =>
      rw [fetches] at fetchKept
      exact fetchKept
  | failed failed e =>
      rw [fetches] at fetchKept
      exact fetchKept

/-- A step moves the reservation as its access does. -/
theorem step_reservation {vm after : Vm} {result : Except VmError Unit}
    (stepped : vm.step = some (after, result)) :
    after.reservation = next ByteRange.detects vm.reservation vm.stepEvent := by
  rw [step] at stepped
  rw [stepEvent]
  by_cases halted : vm.halted = true
  · rw [if_pos halted] at stepped ⊢
    cases stepped
    rfl
  · rw [if_neg halted] at stepped ⊢
    obtain ⟨prepared, prepares, inner⟩ := Option.map_eq_some_iff.1 stepped
    have moved := @stepInner_reservation prepared
    rw [inner, prepare_reservation prepares] at moved
    rw [prepares]
    dsimp only at moved ⊢
    rw [moved]
    cases prepared.fetch with
    | fetched ready fetched => rfl
    | trapped trapped => rfl
    | failed failed e => rfl

variable {vm}

/-- A run holds the reservation that its accesses leave. -/
theorem Run.reservation {start : Vm} {steps : List Vm} (fresh : start.reservation = none)
    (run : Run start steps vm) :
    vm.reservation = heldAfter ByteRange.detects (steps.map stepEvent) := by
  induction run with
  | refl => exact fresh
  | step run stepped hypothesis =>
      rw [List.map_append, List.map_singleton, heldAfter_concat, ← hypothesis]
      exact step_reservation stepped

/-- The store of a step, if it overlaps the bytes that are reserved, stays away from the end of
the address space, and so do the reserved bytes. -/
def StoreAwayFromEnd (vm : Vm) : Prop :=
  ∀ written reserved : ByteRange, vm.stepEvent = .write written → vm.reservation = some reserved →
    written.Overlaps reserved → ¬ written.ReachesEnd ∧ ¬ reserved.ReachesEnd

/-- A conditional store succeeds only on the reservation that the machine holds. -/
theorem accessEvent_succeed {insn : Instruction} {reserved : ByteRange}
    (succeeds : vm.accessEvent insn = .succeed reserved) : vm.reservation = some reserved := by
  cases insn with
  | sc =>
      simp only [accessEvent] at succeeds
      split at succeeds
      · split at succeeds
        · rename_i held
          cases succeeds
          exact held
        · cases succeeds
      · cases succeeds
  | store | lr | amo =>
      simp only [accessEvent] at succeeds
      split at succeeds <;> cases succeeds
  | _ => cases succeeds

theorem stepEvent_succeed {reserved : ByteRange} (succeeds : vm.stepEvent = .succeed reserved) :
    vm.reservation = some reserved := by
  rw [stepEvent] at succeeds
  split at succeeds
  · cases succeeds
  · split at succeeds
    · cases succeeds
    · rename_i prepared prepares
      split at succeeds
      · rename_i ready fetched fetches
        have kept := @fetch_reservation prepared
        rw [fetches] at kept
        rw [← prepare_reservation prepares, ← kept]
        exact accessEvent_succeed succeeds
      · cases succeeds

/-- The writes of a run whose steps all keep away from the end are detected. -/
theorem Run.detected {start : Vm} {steps : List Vm} (fresh : start.reservation = none)
    (run : Run start steps vm) (away : ∀ state ∈ steps, state.StoreAwayFromEnd) :
    Detected ByteRange.detects ByteRange.Overlaps (steps.map stepEvent) := by
  induction run with
  | refl => exact .nil
  | @step steps vm after result run stepped hypothesis =>
      rw [List.map_append, List.map_singleton]
      refine (hypothesis fun state member => away state (List.mem_append_left _ member)).concat ?_
      intro written stores reserved held overlap
      rw [← run.reservation fresh] at held
      have apart := away vm (List.mem_append_right _ (List.mem_singleton_self vm)) written
        reserved stores held overlap
      obtain ⟨i, iBounded, j, jBounded, -⟩ := id overlap
      exact (ByteRange.detects_iff (by omega) (by omega)).2 ⟨overlap, apart⟩

/-- The instruction that a step executes, and the machine that executes it. -/
def stepInstruction (vm : Vm) : Option (Vm × Instruction) :=
  if vm.halted then none
  else vm.prepare.bind fun prepared =>
    match prepared.fetch with
    | .fetched ready fetched => some (ready, fetched.instruction)
    | _ => none

theorem stepInstruction_eq_some {ready : Vm} {insn : Instruction}
    (executes : vm.stepInstruction = some (ready, insn)) :
    vm.halted = false ∧ ∃ prepared len, vm.prepare = some prepared ∧
      prepared.fetch = .fetched ready ⟨insn, len⟩ := by
  rw [stepInstruction] at executes
  split at executes
  · cases executes
  · rename_i running
    obtain ⟨prepared, prepares, fetches⟩ := Option.bind_eq_some_iff.1 executes
    refine ⟨Bool.eq_false_of_not_eq_true running, prepared, ?_⟩
    split at fetches
    · rename_i ready fetched outcome
      cases fetches
      exact ⟨fetched.len, prepares, outcome⟩
    · cases fetches

theorem stepEvent_eq {ready : Vm} {insn : Instruction}
    (executes : vm.stepInstruction = some (ready, insn)) :
    vm.stepEvent = ready.accessEvent insn := by
  obtain ⟨running, prepared, len, prepares, fetches⟩ := stepInstruction_eq_some executes
  rw [stepEvent, running, if_neg Bool.false_ne_true, prepares]
  dsimp only
  rw [fetches]

theorem step_readReg_eq {ready after : Vm} {insn : Instruction} {result : Except VmError Unit}
    (executes : vm.stepInstruction = some (ready, insn))
    (stepped : vm.step = some (after, result)) (reg : Reg) :
    after.cpu.readReg reg = (ready.execute insn).1.cpu.readReg reg := by
  obtain ⟨running, prepared, len, prepares, fetches⟩ := stepInstruction_eq_some executes
  rw [step, running, if_neg Bool.false_ne_true, prepares, Option.map_some, Option.some_inj,
    stepInner, fetches] at stepped
  cases executed : ready.execute insn with
  | mk ran outcome =>
      simp only [executed] at stepped
      cases outcome with
      | ok done =>
          cases stepped
          exact readReg_of_x (retire_x ran) reg
      | error e =>
          cases stepped
          rfl

/-- The next step executes a conditional store on these bytes, and the destination holds
zero after it. -/
def ScReturnsZero (vm : Vm) (reserved : ByteRange) : Prop :=
  ∃ ready width rd rs1 rs2 aq rl after result,
    vm.stepInstruction = some (ready, .sc width rd rs1 rs2 aq rl) ∧ rd ≠ 0 ∧
      (ready.translateStore (ready.cpu.readReg rs1)).2 = some reserved.1 ∧
      width.bytes = reserved.2 ∧ vm.step = some (after, result) ∧ after.cpu.readReg rd = 0

/-- Returning zero is succeeding. -/
theorem ScReturnsZero.succeeds {reserved : ByteRange} (returns : vm.ScReturnsZero reserved) :
    vm.stepEvent = .succeed reserved := by
  obtain ⟨ready, width, rd, rs1, rs2, aq, rl, after, result, executes, nonzero, translates, size,
    stepped, zero⟩ := returns
  rw [step_readReg_eq executes stepped] at zero
  have translated : ready.translateStore (ready.cpu.readReg rs1) = (_, some reserved.1) :=
    Prod.ext rfl translates
  rw [stepEvent_eq executes, (ready.sc_returns_zero_iff nonzero translated).1 zero, size]

/-- A conditional store that succeeds returns zero where it has a destination. -/
theorem scReturnsZero_of_succeeds {ready after : Vm} {width : AmoWidth} {rd rs1 rs2 : Reg}
    {aq rl : Bool} {reserved : ByteRange} {result : Except VmError Unit}
    (executes : vm.stepInstruction = some (ready, .sc width rd rs1 rs2 aq rl)) (nonzero : rd ≠ 0)
    (stepped : vm.step = some (after, result)) (succeeds : vm.stepEvent = .succeed reserved) :
    vm.ScReturnsZero reserved := by
  rw [stepEvent_eq executes] at succeeds
  have translated : (ready.translateStore (ready.cpu.readReg rs1)).2 = some reserved.1 ∧
      width.bytes = reserved.2 := by
    simp only [accessEvent] at succeeds
    split at succeeds
    · rename_i pa found
      split at succeeds
      · cases succeeds
        exact ⟨found, rfl⟩
      · cases succeeds
    · cases succeeds
  refine ⟨ready, width, rd, rs1, rs2, aq, rl, after, result, executes, nonzero, translated.1,
    translated.2, stepped, ?_⟩
  rw [step_readReg_eq executes stepped]
  have found : ready.translateStore (ready.cpu.readReg rs1) = (_, some reserved.1) :=
    Prod.ext rfl translated.1
  refine (ready.sc_returns_zero_iff nonzero found).2 ?_
  rw [succeeds, translated.2]

/-- In a run whose steps all keep away from the end of the address space, a conditional store
that returns zero, or succeeds without a destination, has its reservation unbroken: no write
since has overlapped the bytes. -/
theorem sc_unbroken {start : Vm} {steps : List Vm} (fresh : start.reservation = none)
    (run : Run start steps vm) (away : ∀ state ∈ steps, state.StoreAwayFromEnd)
    {reserved : ByteRange}
    (succeeds : vm.ScReturnsZero reserved ∨ vm.stepEvent = .succeed reserved) :
    Unbroken ByteRange.Overlaps (steps.map stepEvent) reserved := by
  have succeeds : vm.stepEvent = .succeed reserved := succeeds.elim ScReturnsZero.succeeds id
  refine unbroken_of_held (run.detected fresh away) ?_
  rw [← run.reservation fresh]
  exact stepEvent_succeed succeeds

/-- A program that reserves a double word, stores one at an offset from it and stores to the
reserved one conditionally. -/
def reserveStoreVm (address : Word) (offset : Imm) : Vm :=
  let memory := ((Memory.new.storeWord 0 (Instruction.lr .d 5 10 false false).encode).storeWord 4
    (Instruction.store .sd 10 6 offset).encode).storeWord 8
      (Instruction.sc .d 7 10 6 false false).encode
  .new { CpuState.new with x := Function.update (fun _ => 0) 10 address } memory

/-- The steps of the program before the conditional store, which returns zero. -/
theorem reserveStoreVm_run {address : Word} {offset : Imm} {held : Option ByteRange}
    {reserves stores : Event ByteRange} {reserved : ByteRange}
    (ran : ((reserveStoreVm address offset).step.bind fun first =>
      first.1.step.bind fun second => second.1.step.map fun _ => (first.1.reservation,
        [(reserveStoreVm address offset).stepEvent, first.1.stepEvent, second.1.stepEvent],
        second.1.stepInstruction.map Prod.snd)) = some (held, [reserves, stores, .succeed reserved],
          some (.sc .d 7 10 6 false false))) :
    ∃ first second, Run (reserveStoreVm address offset) [reserveStoreVm address offset, first]
        second ∧ first.reservation = held ∧ (reserveStoreVm address offset).stepEvent = reserves ∧
      first.stepEvent = stores ∧ second.ScReturnsZero reserved := by
  obtain ⟨first, firstStep, rest⟩ := Option.bind_eq_some_iff.1 ran
  obtain ⟨second, secondStep, last⟩ := Option.bind_eq_some_iff.1 rest
  obtain ⟨third, thirdStep, events⟩ := Option.map_eq_some_iff.1 last
  simp only [Prod.mk.injEq, List.cons.injEq, and_true] at events
  obtain ⟨holds, ⟨begins, continues, succeeds⟩, instruction⟩ := events
  obtain ⟨⟨ready, insn⟩, executes, rfl⟩ := Option.map_eq_some_iff.1 instruction
  exact ⟨first.1, second.1, .step (.step .refl firstStep) secondStep, holds, begins, continues,
    scReturnsZero_of_succeeds executes (by decide) thirdStep succeeds⟩

theorem sc_unbroken_neighbour :
    ∃ (steps : List Vm) (vm : Vm), Run (reserveStoreVm 0x1000 8) steps vm ∧ steps.length = 2 ∧
      vm.ScReturnsZero (0x1000, 8) ∧
      Unbroken ByteRange.Overlaps (steps.map stepEvent) (0x1000, 8) := by
  obtain ⟨first, second, run, holds, reserves, stores, returns⟩ :=
    @reserveStoreVm_run 0x1000 8 (some (0x1000, 8)) (.reserve (0x1000, 8))
      (.write (0x1008, 8)) (0x1000, 8) (by decide)
  refine ⟨_, _, run, rfl, returns, sc_unbroken rfl run ?_ (.inl returns)⟩
  intro state member written reserved writes held overlap
  rcases List.mem_cons.1 member with rfl | later
  · rw [reserves] at writes
    cases writes
  · rw [List.mem_singleton.1 later] at writes held
    rw [stores] at writes
    rw [holds] at held
    cases writes
    cases held
    exact ⟨by unfold ByteRange.ReachesEnd; decide, by unfold ByteRange.ReachesEnd; decide⟩

/-- At the last double word of the address space the store is not detected. -/
theorem sc_succeeds_after_store :
    ¬ ∀ (start vm : Vm) (steps : List Vm) (reserved : ByteRange), start.reservation = none →
      Run start steps vm → vm.ScReturnsZero reserved →
        Unbroken ByteRange.Overlaps (steps.map stepEvent) reserved := by
  intro unbroken
  obtain ⟨first, second, run, -, reserves, stores, returns⟩ :=
    @reserveStoreVm_run (-8) 0 (some (-8, 8)) (.reserve (-8, 8)) (.write (-8, 8)) (-8, 8)
      (by decide)
  obtain ⟨before, between, split, clear⟩ := unbroken _ _ _ _ rfl run returns
  rw [List.map_cons, List.map_singleton, reserves, stores] at split
  match before, split with
  | [], split =>
      obtain ⟨-, rfl⟩ := List.cons.inj split
      have apart := (clear _ List.mem_cons_self).2 (-8, 8) rfl
      exact apart ⟨0, by decide, 0, by decide, rfl⟩
  | [_], split => cases (List.cons.inj (List.cons.inj split).2).1
  | _ :: _ :: _, split =>
      have ends := (List.cons.inj (List.cons.inj split).2).2
      exact absurd ends.symm (List.append_ne_nil_of_right_ne_nil _ (List.cons_ne_nil _ _))

end Vm

end MetaVm.Riscv
