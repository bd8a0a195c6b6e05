import Mathlib
import MetaVm.Riscv.Machine.Effects
import MetaVm.Riscv.Machine.Reservations

namespace MetaVm.Riscv

/-! The two loops that drive a machine: the batched one, and one instruction at a time. -/

/-- What a guest can tell of its machine. -/
structure GuestView where
  x : Reg → Word
  pc : Word
  csrs : CsrFile
  memory : Memory
  mtime : Word

namespace Vm

def guestView (vm : Vm) : GuestView where
  x := vm.cpu.x
  pc := vm.cpu.pc
  csrs := vm.cpu.csrs
  memory := vm.memory
  mtime := vm.mmio.clint.mtime

/-- The inner loop of `run`, with its step count: no device ticks in it. -/
def runBatch : ℕ → ℕ → Vm → Vm × Except VmError ℕ
  | 0, steps, vm => (vm, .ok steps)
  | budget + 1, steps, vm =>
      if vm.halted then (vm, .ok steps)
      else
        match vm.stepInner with
        | (vm, .ok ()) => runBatch budget (steps + 1) vm
        | (vm, .error e) => (vm, .error e)

/-- The loop of a privileged machine: its devices tick once in each batch. A batch that is cut
short has halted the machine. -/
def runPrivileged (remaining steps : ℕ) (vm : Vm) : Option (Vm × Except VmError ℕ) :=
  if vm.halted ∨ remaining = 0 then some (vm, .ok steps)
  else
    (vm.tickDevices.map checkPendingInterrupts).bind fun vm =>
      match runBatch (min tickInterval.toNat remaining) steps vm with
      | (vm, .ok steps) => runPrivileged (remaining - tickInterval.toNat) steps vm
      | (vm, .error e) => some (vm, .error e)
termination_by remaining
decreasing_by
  have : tickInterval.toNat = 64 := rfl
  omega

/-- `none` when a block device panics. -/
def run (vm : Vm) (maxSteps : ℕ) : Option (Vm × Except VmError ℕ) :=
  if vm.privileged then runPrivileged maxSteps 0 vm else some (runBatch maxSteps 0 vm)

/-- Calls of `step` until the machine halts or reports an error. -/
def stepTimes : ℕ → Vm → Option StepResult
  | 0, vm => some (vm, .ok ())
  | count + 1, vm =>
      if vm.halted then some (vm, .ok ())
      else
        vm.step.bind fun
          | (vm, .ok ()) => stepTimes count vm
          | (vm, .error e) => some (vm, .error e)

/-- Both loops leave what the guest cannot tell apart. -/
def LoopsAgree (vm : Vm) (maxSteps : ℕ) : Prop :=
  (vm.run maxSteps).map (fun result => result.1.guestView) =
    (vm.stepTimes maxSteps).map fun result => result.1.guestView

end Vm

/-! Only the devices move the time that the guest reads. -/

theorem CsrFile.writeUnchecked_mtime (csrs : CsrFile) (csr : CsrAddr) (val : Word) :
    (csrs.writeUnchecked csr val).mtime = csrs.mtime := by
  unfold writeUnchecked
  split
  · rfl
  split
  · rfl
  split
  · rfl
  split
  · rfl
  split
  · rfl
  split
  · dsimp only
    split <;> rfl
  · rfl

theorem CsrFile.write_mtime {csrs after : CsrFile} {csr : CsrAddr} {val : Word}
    {mode : PrivilegeMode} (written : csrs.write csr val mode = .ok after) :
    after.mtime = csrs.mtime := by
  unfold write at written
  dsimp only at written
  split at written
  · cases written
  split at written
  · cases written
  split at written
  · cases written
  · cases written
    exact writeUnchecked_mtime csrs csr val

theorem deliverTrap_mtime (cpu : CpuState) (cause : TrapCause) (tval epc : Word) :
    (deliverTrap cpu cause tval epc).csrs.mtime = cpu.csrs.mtime := by
  unfold deliverTrap
  split
  · simp only [deliverToSupervisor, CsrFile.writeUnchecked_mtime]
  · simp only [deliverToMachine, CsrFile.writeUnchecked_mtime]

namespace Vm

/-- The time that the guest reads, and the level the machine runs at, stay. -/
structure KeepsTime (vm after : Vm) : Prop where
  mtime : after.cpu.csrs.mtime = vm.cpu.csrs.mtime
  privileged : after.privileged = vm.privileged

namespace KeepsTime

variable {vm next after : Vm}

theorem refl (vm : Vm) : vm.KeepsTime vm := ⟨rfl, rfl⟩

theorem trans (first : vm.KeepsTime next) (second : next.KeepsTime after) : vm.KeepsTime after :=
  ⟨second.mtime.trans first.mtime, second.privileged.trans first.privileged⟩

theorem trap (vm : Vm) (cause : TrapCause) (tval epc : Word) :
    vm.KeepsTime (vm.trap cause tval epc) :=
  ⟨deliverTrap_mtime vm.cpu cause tval epc, rfl⟩

theorem translateFor (vm : Vm) (vaddr : Word) (accessType : AccessType) :
    vm.KeepsTime (vm.translateFor vaddr accessType).1 := by
  unfold Vm.translateFor
  split
  · unfold translateAddr
    dsimp only
    split
    · exact .refl vm
    · split
      · exact ⟨rfl, rfl⟩
      · exact .trap vm _ _ _
  · exact .refl vm

end KeepsTime

theorem KeepsControl.keepsTime {vm after : Vm} (keeps : vm.KeepsControl after) :
    vm.KeepsTime after :=
  ⟨congrArg CsrFile.mtime keeps.csrs, keeps.privileged⟩

theorem Effect.keepsTime {vm after : Vm} {insn : Instruction} (effect : vm.Effect insn after) :
    vm.KeepsTime after := by
  cases effect with
  | runs keeps => exact keeps.keepsTime
  | @accesses _ vaddr _ accessType _ _ _ translates keeps =>
      have translated := KeepsTime.translateFor vm vaddr accessType
      rw [translates] at translated
      exact translated.trans keeps.keepsTime
  | @faults _ vaddr accessType _ fault =>
      have translated := KeepsTime.translateFor vm vaddr accessType
      rw [fault] at translated
      exact translated
  | traps cause => exact .trap vm _ _ _
  | writesCsr written keeps =>
      refine KeepsTime.trans ⟨?_, ?_⟩ keeps.keepsTime
      · exact CsrFile.write_mtime written
      · rfl
  | returnsMachine => exact ⟨CsrFile.writeUnchecked_mtime _ _ _, rfl⟩
  | returnsSupervisor allowed =>
      unfold executeSret
      rw [allowed, if_neg Bool.false_ne_true]
      exact ⟨CsrFile.writeUnchecked_mtime _ _ _, rfl⟩
  | flushes pc => exact ⟨rfl, rfl⟩

theorem KeepsTime.retire (vm : Vm) : vm.KeepsTime vm.retire := by
  unfold Vm.retire
  split
  · exact ⟨rfl, rfl⟩
  · exact .refl vm

theorem KeepsTime.fetch (vm : Vm) : vm.KeepsTime vm.fetch.machine := by
  have translated := KeepsTime.translateFor { vm with lastFetched := none } vm.cpu.pc .execute
  simp only [Vm.fetch]
  cases translates : Vm.translateFor { vm with lastFetched := none } vm.cpu.pc .execute with
  | mk ready found =>
      rw [translates] at translated
      have kept : vm.KeepsTime ready := ⟨translated.mtime, translated.privileged⟩
      cases found with
      | none => exact kept
      | some pa =>
          dsimp only
          split
          · exact kept.trans ⟨rfl, rfl⟩
          · split
            · exact kept.trans (.trap ready _ _ _)
            · exact kept

theorem KeepsTime.stepInner (vm : Vm) : vm.KeepsTime vm.stepInner.1 := by
  have fetched := KeepsTime.fetch vm
  unfold Vm.stepInner
  cases fetches : vm.fetch with
  | fetched ready insn =>
      rw [fetches] at fetched
      have ran := (ready.execute_effect insn.instruction).keepsTime
      dsimp only
      split
      · rename_i after executes
        rw [executes] at ran
        exact (fetched.trans ran).trans (.retire after)
      · rename_i after e executes
        rw [executes] at ran
        exact fetched.trans ran
  | trapped trapped =>
      rw [fetches] at fetched
      exact fetched
  | failed failed e =>
      rw [fetches] at fetched
      exact fetched

/-! A privileged machine runs on: no instruction halts it or reports an error. -/

theorem translateFor_halted (vm : Vm) (vaddr : Word) (accessType : AccessType) :
    (vm.translateFor vaddr accessType).1.halted = vm.halted := by
  unfold Vm.translateFor
  split
  · unfold translateAddr
    dsimp only
    split
    · rfl
    · split <;> rfl
  · rfl

theorem Touches.halted {vm after : Vm} (touches : vm.Touches after) :
    after.halted = vm.halted := by
  obtain ⟨_, _, rfl⟩ := touches
  rfl

theorem checkReservationOnStore_halted (vm : Vm) (addr : Word) (size : Byte) :
    (vm.checkReservationOnStore addr size).halted = vm.halted := by
  unfold checkReservationOnStore
  split
  · split <;> rfl
  · rfl

theorem storeOp_halted (vm : Vm) (op : StoreOp) (addr val : Word) :
    (vm.storeOp op addr val).halted = vm.halted := by
  obtain ⟨stored, touches, same⟩ := vm.storeOp_eq addr op val
  rw [same, checkReservationOnStore_halted, touches.halted]

theorem onAddress_halted {vm : Vm} {vaddr : Word} {accessType : AccessType}
    {next : Vm → Word → Vm} (each : ∀ ready pa, (next ready pa).halted = ready.halted) :
    (onAddress (vm.translateFor vaddr accessType) next).halted = vm.halted := by
  have translated := translateFor_halted vm vaddr accessType
  cases translates : vm.translateFor vaddr accessType with
  | mk ready found =>
      rw [translates] at translated
      cases found with
      | some pa => exact (each ready pa).trans translated
      | none => exact translated

theorem executeCsr_halted (vm : Vm) (op : CsrOp) (rd : Reg) (csr : CsrAddr) (source : Word)
    (writes : Bool) : (vm.executeCsr op rd csr source writes).halted = vm.halted := by
  unfold executeCsr
  split
  · split <;> rfl
  · dsimp only
    split
    · split <;> rfl
    · rfl

theorem fetch_halted (vm : Vm) : vm.fetch.machine.halted = vm.halted := by
  have translated := translateFor_halted { vm with lastFetched := none } vm.cpu.pc .execute
  simp only [Vm.fetch]
  cases translates : Vm.translateFor { vm with lastFetched := none } vm.cpu.pc .execute with
  | mk ready found =>
      rw [translates] at translated
      cases found with
      | none => exact translated
      | some pa =>
          dsimp only
          split
          · exact translated
          · split
            · exact translated
            · exact translated

section Privileged

variable {vm : Vm} (privileged : vm.privileged = true)

include privileged

theorem execute_ok (insn : Instruction) : (vm.execute insn).2 = .ok () := by
  cases insn with
  | ebreak =>
      simp only [execute]
      rw [if_pos privileged]
  | csr op => cases op <;> rfl
  | csrImm op => cases op <;> rfl
  | _ => rfl

theorem execute_halted (insn : Instruction) : (vm.execute insn).1.halted = vm.halted := by
  cases insn with
  | lui | auipc | jal | jalr | opImm | op | opImmW | opW | mulDiv | branch | fence | fenceI
  | mret => rfl
  | load op =>
      refine onAddress_halted ?_
      intro ready pa
      exact (touches_loadOp ready pa op).halted
  | store op =>
      refine onAddress_halted ?_
      intro ready pa
      exact storeOp_halted ready op pa _
  | ecall =>
      simp only [execute, executeEcall]
      rw [if_pos privileged]
      rfl
  | ebreak =>
      simp only [execute]
      rw [if_pos privileged]
      rfl
  | csr op => cases op <;> exact executeCsr_halted vm _ _ _ _ _
  | csrImm op => cases op <;> exact executeCsr_halted vm _ _ _ _ _
  | sret =>
      simp only [execute, executeSret]
      split <;> rfl
  | wfi =>
      simp only [execute]
      split <;> rfl
  | sfenceVma =>
      simp only [execute]
      split <;> rfl
  | lr width =>
      refine onAddress_halted ?_
      intro ready pa
      cases width with
      | w => exact (touches_mmioLoadWord ready pa).halted
      | d => exact (touches_mmioLoadDouble ready pa).halted
  | sc width =>
      refine onAddress_halted ?_
      intro ready pa
      cases width with
      | w =>
          dsimp only
          split
          · exact (touches_mmioStoreWord ready pa _).halted
          · rfl
      | d =>
          dsimp only
          split
          · exact (touches_mmioStoreDouble ready pa _).halted
          · rfl
  | amo op width =>
      refine onAddress_halted ?_
      intro ready pa
      exact (touches_amoOp ready pa op width _).halted

/-- An instruction of a privileged machine: no error, and the machine is not halted by it. -/
theorem stepInner_privileged : vm.stepInner.2 = .ok () ∧ vm.stepInner.1.halted = vm.halted := by
  have kept := KeepsTime.fetch vm
  have halted := fetch_halted vm
  unfold Vm.stepInner
  cases fetches : vm.fetch with
  | fetched ready insn =>
      rw [fetches] at kept halted
      have level : ready.privileged = true := kept.privileged.trans privileged
      have succeeds := execute_ok level insn.instruction
      have runs := execute_halted level insn.instruction
      dsimp only
      split
      · rename_i after executes
        rw [executes] at runs
        refine ⟨rfl, ?_⟩
        have retired : after.retire.halted = after.halted := by
          unfold Vm.retire
          split <;> rfl
        exact retired.trans (runs.trans halted)
      · rename_i after e executes
        rw [executes] at succeeds
        cases succeeds
  | trapped trapped =>
      rw [fetches] at halted
      exact ⟨rfl, halted⟩
  | failed failed e =>
      -- a privileged machine delivers what it cannot decode as a trap
      exfalso
      have level := (KeepsTime.translateFor { vm with lastFetched := none } vm.cpu.pc
        .execute).privileged
      simp only [Vm.fetch] at fetches
      split at fetches
      · cases fetches
      · rename_i ready pa translates
        rw [translates] at level
        split at fetches
        · cases fetches
        · rw [if_pos (level.trans privileged)] at fetches
          cases fetches

end Privileged

/-- A privileged machine that has not halted. -/
structure Live (vm : Vm) : Prop where
  privileged : vm.privileged = true
  running : vm.halted = false

namespace Live

variable {vm prepared : Vm}

theorem stepInner (live : vm.Live) : vm.stepInner.1.Live where
  privileged := (KeepsTime.stepInner vm).privileged.trans live.privileged
  running := (stepInner_privileged live.privileged).2.trans live.running

theorem prepare_eq (live : vm.Live) : vm.prepare = vm.tickDevices.map checkPendingInterrupts :=
  if_pos live.privileged

theorem prepare (live : vm.Live) (prepares : vm.prepare = some prepared) : prepared.Live := by
  refine ⟨(prepare_privileged prepares).trans live.privileged, ?_⟩
  rw [live.prepare_eq] at prepares
  obtain ⟨ticked, ticks, rfl⟩ := Option.map_eq_some_iff.1 prepares
  obtain ⟨processed, _, rfl⟩ := Option.map_eq_some_iff.1 ticks
  unfold checkPendingInterrupts
  dsimp only
  split
  · exact live.running
  · exact live.running

/-- Each tick moves the timer by a whole interval, and the guest's time with it. -/
theorem prepare_time (live : vm.Live) (prepares : vm.prepare = some prepared) :
    prepared.mmio.clint.mtime = vm.mmio.clint.mtime + 256 ∧
      prepared.cpu.csrs.mtime = vm.mmio.clint.mtime + 256 := by
  rw [live.prepare_eq] at prepares
  obtain ⟨ticked, ticks, rfl⟩ := Option.map_eq_some_iff.1 prepares
  obtain ⟨processed, _, rfl⟩ := Option.map_eq_some_iff.1 ticks
  unfold checkPendingInterrupts
  dsimp only
  split
  · refine ⟨rfl, (deliverTrap_mtime _ _ _ _).trans ?_⟩
    exact CsrFile.writeUnchecked_mtime _ _ _
  · exact ⟨rfl, CsrFile.writeUnchecked_mtime _ _ _⟩

theorem step_eq (live : vm.Live) :
    vm.step = vm.prepare.map fun prepared => (prepared.stepInner.1, .ok ()) := by
  rw [step, live.running, if_neg Bool.false_ne_true]
  apply Option.map_congr
  intro prepared prepares
  exact Prod.ext rfl (stepInner_privileged (live.prepare prepares).privileged).1

/-- One round of single stepping. -/
theorem stepTimes_succ (live : vm.Live) (count : ℕ) :
    stepTimes (count + 1) vm =
      vm.prepare.bind fun prepared => stepTimes count prepared.stepInner.1 := by
  rw [stepTimes, live.running, if_neg Bool.false_ne_true, live.step_eq]
  cases vm.prepare <;> rfl

theorem runBatch_succ (live : vm.Live) (budget steps : ℕ) :
    runBatch (budget + 1) steps vm = runBatch budget (steps + 1) vm.stepInner.1 := by
  have succeeds := (stepInner_privileged live.privileged).1
  rw [runBatch, live.running, if_neg Bool.false_ne_true]
  split
  · rename_i after executes
    rw [executes]
  · rename_i after e executes
    rw [executes] at succeeds
    cases succeeds

/-- A batch executes all its instructions. -/
theorem runBatch_eq (live : vm.Live) (budget steps : ℕ) :
    runBatch budget steps vm = ((fun vm => vm.stepInner.1)^[budget] vm, .ok (steps + budget)) := by
  induction budget generalizing vm steps with
  | zero => rfl
  | succ budget hypothesis =>
      rw [live.runBatch_succ, hypothesis live.stepInner, Function.iterate_succ_apply]
      congr 2
      omega

theorem iterate (live : vm.Live) (count : ℕ) : ((fun vm => vm.stepInner.1)^[count] vm).Live := by
  induction count generalizing vm with
  | zero => exact live
  | succ count hypothesis => exact hypothesis live.stepInner

/-- One round of the batched loop. -/
theorem runPrivileged_succ (live : vm.Live) (remaining steps : ℕ) :
    runPrivileged (remaining + 1) steps vm =
      vm.prepare.bind fun prepared =>
        runPrivileged (remaining + 1 - 64) (steps + min 64 (remaining + 1))
          ((fun vm => vm.stepInner.1)^[min 64 (remaining + 1)] prepared) := by
  rw [runPrivileged, if_neg (by simp [live.running]), ← live.prepare_eq]
  apply Option.bind_congr
  intro prepared prepares
  rw [(live.prepare prepares).runBatch_eq]
  rfl

end Live

/-! The time that passes in each loop. -/

/-- Machines met between two instructions, whichever loop drives them. -/
inductive Reaches (start : Vm) : Vm → Prop
  | refl : Reaches start start
  | ticks {vm prepared : Vm} (reaches : Reaches start vm) (prepares : vm.prepare = some prepared) :
      Reaches start prepared
  | executes {vm : Vm} (reaches : Reaches start vm) : Reaches start vm.stepInner.1

/-- No instruction of the guest writes the timer. -/
def LeavesTimer (start : Vm) : Prop :=
  ∀ vm, start.Reaches vm → vm.stepInner.1.mmio.clint.mtime = vm.mmio.clint.mtime

theorem Reaches.trans {start next after : Vm} (first : start.Reaches next)
    (second : next.Reaches after) : start.Reaches after := by
  induction second with
  | refl => exact first
  | ticks _ prepares hypothesis => exact hypothesis.ticks prepares
  | executes _ hypothesis => exact hypothesis.executes

namespace LeavesTimer

variable {vm next : Vm}

theorem of_reaches (leaves : vm.LeavesTimer) (reaches : vm.Reaches next) : next.LeavesTimer :=
  fun after further => leaves after (reaches.trans further)

theorem stepInner (leaves : vm.LeavesTimer) :
    vm.stepInner.1.mmio.clint.mtime = vm.mmio.clint.mtime := leaves vm .refl

theorem iterate (leaves : vm.LeavesTimer) (count : ℕ) :
    ((fun vm => vm.stepInner.1)^[count] vm).mmio.clint.mtime = vm.mmio.clint.mtime ∧
      ((fun vm => vm.stepInner.1)^[count] vm).LeavesTimer := by
  induction count generalizing vm with
  | zero => exact ⟨rfl, leaves⟩
  | succ count hypothesis =>
      obtain ⟨kept, later⟩ := hypothesis (leaves.of_reaches (Reaches.refl.executes))
      exact ⟨kept.trans leaves.stepInner, later⟩

end LeavesTimer

/-- Single stepping moves the timer once an instruction. -/
theorem stepTimes_time {vm : Vm} (live : vm.Live) (leaves : vm.LeavesTimer) {count : ℕ}
    {result : StepResult} (ran : stepTimes count vm = some result) :
    result.1.mmio.clint.mtime = vm.mmio.clint.mtime + BitVec.ofNat 64 (256 * count) := by
  induction count generalizing vm with
  | zero =>
      cases ran
      exact (BitVec.add_zero _).symm
  | succ count hypothesis =>
      rw [live.stepTimes_succ] at ran
      obtain ⟨prepared, prepares, rest⟩ := Option.bind_eq_some_iff.1 ran
      have reached := Reaches.refl.ticks prepares
      have later := leaves.of_reaches reached
      rw [hypothesis (live.prepare prepares).stepInner (later.of_reaches Reaches.refl.executes) rest,
        later.stepInner, (live.prepare_time prepares).1]
      rw [Nat.mul_succ, Nat.add_comm, BitVec.ofNat_add, BitVec.add_assoc]
      rfl

/-- The batched loop moves it once in sixty-four. -/
theorem runPrivileged_time {vm : Vm} (live : vm.Live) (leaves : vm.LeavesTimer)
    {remaining steps : ℕ} {result : Vm × Except VmError ℕ}
    (ran : runPrivileged remaining steps vm = some result) :
    result.1.mmio.clint.mtime =
      vm.mmio.clint.mtime + BitVec.ofNat 64 (256 * (remaining ⌈/⌉ 64)) := by
  induction remaining using Nat.strong_induction_on generalizing vm steps with
  | _ remaining hypothesis =>
  cases remaining with
  | zero =>
      rw [runPrivileged, if_pos (.inr rfl)] at ran
      cases ran
      exact (BitVec.add_zero _).symm
  | succ remaining =>
      rw [live.runPrivileged_succ] at ran
      obtain ⟨prepared, prepares, rest⟩ := Option.bind_eq_some_iff.1 ran
      have later := leaves.of_reaches (Reaches.refl.ticks prepares)
      obtain ⟨kept, further⟩ := later.iterate (min 64 (remaining + 1))
      rw [hypothesis (remaining + 1 - 64) (by omega) ((live.prepare prepares).iterate _) further
        rest, kept, (live.prepare_time prepares).1]
      have rounds : (remaining + 1) ⌈/⌉ 64 = (remaining + 1 - 64) ⌈/⌉ 64 + 1 := by
        simp only [Nat.ceilDiv_eq_add_pred_div]
        omega
      rw [rounds, Nat.mul_succ, Nat.add_comm _ 256, BitVec.ofNat_add, BitVec.add_assoc]
      rfl

/-! Where the loops agree. -/

/-- The batched loop has no second instruction to let the devices tick for. -/
def OneTick (vm : Vm) (maxSteps : ℕ) : Prop :=
  maxSteps ≤ 1 ∨ vm.halted = true ∨ vm.tickDevices = none

/-- The first instruction writes the timer back to where it stood before the tick. -/
def RestoresTimer (vm : Vm) : Prop :=
  ∃ prepared, vm.prepare = some prepared ∧
    prepared.stepInner.1.mmio.clint.mtime = vm.mmio.clint.mtime

section Loops

variable {vm : Vm} {maxSteps : ℕ}

theorem run_of_privileged (privileged : vm.privileged = true) (maxSteps : ℕ) :
    vm.run maxSteps = runPrivileged maxSteps 0 vm := if_pos privileged

theorem loopsAgree_zero (privileged : vm.privileged = true) : LoopsAgree vm 0 := by
  rw [LoopsAgree, run_of_privileged privileged, runPrivileged, if_pos (.inr rfl)]
  rfl

theorem loopsAgree_of_halted (privileged : vm.privileged = true) (halted : vm.halted = true) :
    LoopsAgree vm maxSteps := by
  rw [LoopsAgree, run_of_privileged privileged, runPrivileged, if_pos (.inl halted)]
  cases maxSteps with
  | zero => rfl
  | succ count => rw [stepTimes, if_pos halted, Option.map_some, Option.map_some]

theorem loopsAgree_of_panic (live : vm.Live) (panics : vm.tickDevices = none) :
    LoopsAgree vm maxSteps := by
  cases maxSteps with
  | zero => exact loopsAgree_zero live.privileged
  | succ count =>
      have never : vm.prepare = none := by rw [live.prepare_eq, panics, Option.map_none]
      rw [LoopsAgree, run_of_privileged live.privileged, live.runPrivileged_succ,
        live.stepTimes_succ, never]
      rfl

theorem loopsAgree_one (live : vm.Live) : LoopsAgree vm 1 := by
  rw [LoopsAgree, run_of_privileged live.privileged, live.runPrivileged_succ, live.stepTimes_succ]
  cases vm.prepare with
  | none => rfl
  | some prepared =>
      rw [Option.bind_some, Option.bind_some, runPrivileged, if_pos (.inr rfl)]
      rfl

theorem OneTick.loopsAgree (privileged : vm.privileged = true) (once : vm.OneTick maxSteps) :
    LoopsAgree vm maxSteps := by
  by_cases halted : vm.halted = true
  · exact loopsAgree_of_halted privileged halted
  have live : vm.Live := ⟨privileged, Bool.eq_false_of_not_eq_true halted⟩
  obtain few | isHalted | panics := once
  · interval_cases maxSteps
    · exact loopsAgree_zero privileged
    · exact loopsAgree_one live
  · exact absurd isHalted halted
  · exact loopsAgree_of_panic live panics

/-- Two instructions are one tick in the batched loop and two ticks in the other: the guest reads
different times, unless its first instruction takes back a tick. -/
theorem restoresTimer_of_agree (live : vm.Live) (ticks : vm.tickDevices ≠ none)
    (agree : LoopsAgree vm 2) : vm.RestoresTimer := by
  obtain ⟨prepared, prepares⟩ : ∃ prepared, vm.prepare = some prepared := by
    obtain ⟨ticked, found⟩ := Option.ne_none_iff_exists'.1 ticks
    exact ⟨ticked.checkPendingInterrupts, by rw [live.prepare_eq, found, Option.map_some]⟩
  have next := (live.prepare prepares).stepInner
  refine ⟨prepared, prepares, ?_⟩
  rw [LoopsAgree, run_of_privileged live.privileged, live.runPrivileged_succ, live.stepTimes_succ,
    prepares, Option.bind_some, Option.bind_some, runPrivileged, if_pos (.inr rfl),
    next.stepTimes_succ] at agree
  cases second : prepared.stepInner.1.prepare with
  | none =>
      rw [second] at agree
      cases agree
  | some again =>
      rw [second] at agree
      have views := congrArg CsrFile.mtime (congrArg GuestView.csrs (Option.some.inj agree))
      have batched : ((fun vm => vm.stepInner.1)^[2] prepared).cpu.csrs.mtime =
          vm.mmio.clint.mtime + 256 := by
        refine (KeepsTime.stepInner _).mtime.trans ?_
        exact (KeepsTime.stepInner prepared).mtime.trans (live.prepare_time prepares).2
      have single : again.stepInner.1.cpu.csrs.mtime =
          prepared.stepInner.1.mmio.clint.mtime + 256 :=
        (KeepsTime.stepInner again).mtime.trans (next.prepare_time second).2
      exact add_right_cancel (single.symm.trans (views.symm.trans batched))

/-- Where the guest leaves the timer alone, the loops agree on one tick only. -/
theorem oneTick_of_leavesTimer (live : vm.Live) (leaves : vm.LeavesTimer)
    (small : maxSteps < 2 ^ 56) (returns : vm.run maxSteps ≠ none)
    (agree : LoopsAgree vm maxSteps) : maxSteps ≤ 1 := by
  obtain ⟨batched, ran⟩ := Option.ne_none_iff_exists'.1 returns
  rw [LoopsAgree, ran, Option.map_some, eq_comm, Option.map_eq_some_iff] at agree
  obtain ⟨single, stepped, same⟩ := agree
  have times := congrArg GuestView.mtime same
  rw [run_of_privileged live.privileged] at ran
  have counts : BitVec.ofNat 64 (256 * maxSteps) = BitVec.ofNat 64 (256 * (maxSteps ⌈/⌉ 64)) := by
    apply add_left_cancel
    rw [← stepTimes_time live leaves stepped, ← runPrivileged_time live leaves ran]
    exact times
  have equal := congrArg BitVec.toNat counts
  rw [BitVec.toNat_ofNat, BitVec.toNat_ofNat, Nat.ceilDiv_eq_add_pred_div] at equal
  have rounds : (maxSteps + 64 - 1) / 64 ≤ maxSteps := by omega
  rw [Nat.mod_eq_of_lt (by omega), Nat.mod_eq_of_lt (by omega)] at equal
  omega

end Loops

/-- The batched loop agrees with single stepping for at most one instruction, unless the guest
itself takes a tick back. -/
theorem loopsAgree_iff {vm : Vm} (privileged : vm.privileged = true) (maxSteps : ℕ) :
    (vm.OneTick maxSteps → vm.LoopsAgree maxSteps) ∧
    ((∀ count ≤ maxSteps, vm.LoopsAgree count) → vm.OneTick maxSteps ∨ vm.RestoresTimer) ∧
    (vm.LeavesTimer → maxSteps < 2 ^ 56 → vm.run maxSteps ≠ none → vm.LoopsAgree maxSteps →
      vm.OneTick maxSteps) := by
  refine ⟨OneTick.loopsAgree privileged, ?_, ?_⟩
  · intro agree
    by_cases once : vm.OneTick maxSteps
    · exact .inl once
    · right
      simp only [OneTick, not_or, Nat.not_le, Bool.not_eq_true] at once
      obtain ⟨several, running, ticks⟩ := once
      exact restoresTimer_of_agree ⟨privileged, running⟩ ticks (agree 2 several)
  · intro leaves small returns agree
    by_cases halted : vm.halted = true
    · exact .inr (.inl halted)
    · have live : vm.Live := ⟨privileged, Bool.eq_false_of_not_eq_true halted⟩
      exact .inl (oneTick_of_leavesTimer live leaves small returns agree)

/-- A machine with nothing in its memory. -/
def emptyVm : Vm := newPrivileged .new .new

/-- `addi x1, x1, 1` and a jump back to it. -/
def countingVm : Vm :=
  newPrivileged .new ((Memory.new.storeWord 0 0x00108093).storeWord 4 0xFFDFF06F)

/-- The loops agree on the first instruction and differ on three. -/
theorem loopsAgree_iff_countingVm :
    countingVm.LoopsAgree 1 ∧ ¬ ∀ count ≤ 3, countingVm.LoopsAgree count := by
  refine ⟨(loopsAgree_iff rfl 1).1 (.inl le_rfl), fun agree => ?_⟩
  rcases (loopsAgree_iff rfl 3).2.1 agree with (several | halted | stuck) | restores
  · revert several
    decide
  · cases halted
  · cases stuck
  · obtain ⟨prepared, prepares, restored⟩ := restores
    cases prepares
    revert restored
    decide

/-- Two traps on an illegal instruction: the timer stands at 256 or at 512. -/
theorem loops_disagree_emptyVm :
    ¬ ∀ (vm : Vm) (maxSteps : ℕ), vm.privileged = true → vm.LoopsAgree maxSteps := by
  intro agree
  obtain ⟨prepared, prepares, restored⟩ := @restoresTimer_of_agree emptyVm ⟨rfl, rfl⟩
    (by rintro ⟨⟩) (agree emptyVm 2 rfl)
  cases prepares
  revert restored
  decide

end Vm

end MetaVm.Riscv
