import MetaVm.Riscv.Trace.StreamingProver

namespace MetaVm.Riscv

/-! Whether the rows of a run follow each other: each starts at the program counter at
which the one before it ended. -/

namespace Vm

/-- A machine that records nothing more: it has halted, or it is unprivileged and cannot
decode what stands at its program counter. -/
def Stuck (vm : Vm) : Prop :=
  vm.halted = true ∨
    vm.privileged = false ∧ ∃ e, fetchDecode vm.memory vm.cpu.pc = .error e

/-- A fetch that traps before it finds an instruction leaves the program counter where
the step began. -/
def TracksPc (vm : Vm) : Prop :=
  ∀ prepared trapped, vm.prepare = some prepared → prepared.fetch = .trapped trapped →
    trapped.cpu.pc = vm.cpu.pc

variable {vm : Vm}

/-- An unprivileged machine never traps at its fetch. -/
theorem fetch_ne_trapped {trapped : Vm} (unprivileged : vm.privileged = false) :
    vm.fetch ≠ .trapped trapped := by
  intro fault
  rw [fetch_of_unprivileged unprivileged] at fault
  split at fault <;> cases fault

theorem step_unprivileged {after : Vm} {result : Except VmError Unit}
    (unprivileged : vm.privileged = false) (stepped : vm.step = some (after, result)) :
    after.privileged = false := by
  by_cases halted : vm.halted = true
  · rw [step, if_pos halted] at stepped
    cases stepped
    exact unprivileged
  rw [step_of_unprivileged unprivileged (Bool.eq_false_of_not_eq_true halted)] at stepped
  cases stands : fetchDecode vm.memory vm.cpu.pc with
  | error e =>
      rw [stands] at stepped
      cases stepped
      exact unprivileged
  | ok fetched =>
      simp only [stands] at stepped
      have kept := ((vm.noteFetched fetched).execute_effect fetched.instruction).privileged
      cases ran : (vm.noteFetched fetched).execute fetched.instruction with
      | mk ended outcome =>
          rw [ran] at kept
          have ended : ended.privileged = false := kept.trans unprivileged
          cases outcome with
          | ok done =>
              simp only [ran] at stepped
              cases stepped
              rw [retire, if_neg (ne_true_of_eq_false ended)]
              exact ended
          | error e =>
              simp only [ran] at stepped
              cases stepped
              exact ended

/-- Only an unprivileged machine fails to fetch without a trap. -/
theorem fetch_failed_stuck {failed : Vm} {e : DecodeError}
    (fault : vm.fetch = .failed failed e) : failed.Stuck := by
  have unprivileged : vm.privileged = false := by
    simp only [fetch] at fault
    have kept := translateFor_privileged { vm with lastFetched := none } vm.cpu.pc .execute
    split at fault
    · cases fault
    · rename_i translated fetchPc translates
      rw [translates] at kept
      split at fault
      · cases fault
      · split at fault
        · cases fault
        · rename_i notPrivileged
          rw [← kept]
          exact Bool.eq_false_of_not_eq_true notPrivileged
  rw [fetch_of_unprivileged unprivileged] at fault
  cases stands : fetchDecode vm.memory vm.cpu.pc with
  | ok fetched =>
      rw [stands] at fault
      cases fault
  | error e =>
      rw [stands] at fault
      cases fault
      exact .inr ⟨unprivileged, e, stands⟩

/-- A breakpoint that ends in an error halts the machine. -/
theorem execute_broke_halted {after : Vm} {insn : Instruction} {e : VmError}
    (ran : vm.execute insn = (after, .error e)) : after.halted = true := by
  have isBreak : insn = .ebreak := execute_error (congrArg Prod.snd ran)
  subst isBreak
  simp only [execute] at ran
  split at ran
  · cases congrArg Prod.snd ran
  · cases ran
    rfl

end Vm

namespace TracingVmBorrowed

variable {tracer next : TracingVmBorrowed}

/-- An error leaves a machine that records nothing more. -/
theorem step_error {e : VmError} (stepped : tracer.step = some (next, .error e)) :
    next.vm.Stuck := by
  rw [step] at stepped
  split at stepped
  · rename_i halted
    cases stepped
    exact .inl halted
  rename_i running
  obtain ⟨outcome, machine, recorded⟩ := Option.map_eq_some_iff.1 stepped
  have ends := Vm.step_outcome (Bool.eq_false_of_not_eq_true running) machine
  cases ends with
  | executed | trapped =>
      dsimp only at recorded
      split at recorded
      · cases congrArg Prod.snd recorded
      · cases congrArg Prod.snd recorded
  | broke prepares fetches ran =>
      cases recorded
      exact .inl (Vm.execute_broke_halted ran)
  | failed prepares fault =>
      cases recorded
      exact Vm.fetch_failed_stuck fault

/-- A step without an error records a row from the program counter at which it begins to
the one at which it ends, or its fetch traps. -/
theorem step_ok (stepped : tracer.step = some (next, .ok ())) :
    (∃ row, next.trace = tracer.trace ++ [row] ∧ row.pc = tracer.vm.cpu.pc ∧
        row.nextPc = next.vm.cpu.pc) ∨
      next.trace = tracer.trace ∧ ∃ prepared trapped, tracer.vm.prepare = some prepared ∧
        prepared.fetch = .trapped trapped ∧ next.vm.cpu = trapped.cpu := by
  rw [step] at stepped
  split at stepped
  · cases congrArg Prod.snd (Option.some.inj stepped)
  rename_i running
  obtain ⟨outcome, machine, recorded⟩ := Option.map_eq_some_iff.1 stepped
  have ends := Vm.step_outcome (Bool.eq_false_of_not_eq_true running) machine
  cases ends with
  | @executed prepared ready ended fetched prepares fetches ran =>
      have noted : ended.retire.lastFetched = some (fetched.instruction, fetched.len) := by
        have kept := (ready.execute_effect fetched.instruction).lastFetched
        rw [ran] at kept
        rw [Vm.retire_lastFetched, kept, Vm.fetch_lastFetched fetches]
      simp only [noted] at recorded
      cases recorded
      exact .inl ⟨_, rfl, rfl, rfl⟩
  | broke | failed => cases congrArg Prod.snd recorded
  | @trapped prepared trapped prepares fault =>
      simp only [Vm.fetch_trapped_lastFetched fault] at recorded
      cases recorded
      exact .inr ⟨rfl, prepared, trapped, prepares, fault, rfl⟩

/-- Where a machine cannot decode, a step does not end well. -/
theorem step_stuck (stuck : tracer.vm.Stuck) : tracer.step ≠ some (next, .ok ()) := by
  intro stepped
  rcases stuck with halted | ⟨unprivileged, e, stands⟩
  · rw [step, if_pos halted] at stepped
    cases congrArg Prod.snd (Option.some.inj stepped)
  · rw [step] at stepped
    split at stepped
    · cases congrArg Prod.snd (Option.some.inj stepped)
    · rename_i running
      rw [Vm.step_of_unprivileged unprivileged (Bool.eq_false_of_not_eq_true running),
        stands] at stepped
      cases congrArg Prod.snd (Option.some.inj stepped)

/-- In a loop every step with a row before it keeps track of the program counter. -/
def EachTracks (begun : Prop) (tracer : TracingVmBorrowed) : ℕ → Prop
  | 0 => True
  | count + 1 =>
      tracer.vm.halted = false →
        (begun ∨ tracer.trace ≠ [] → tracer.vm.TracksPc) ∧
          ∀ next, tracer.step = some (next, .ok ()) → next.EachTracks begun count

end TracingVmBorrowed

namespace TracingVmBorrowed

theorem step_unprivileged {tracer next : TracingVmBorrowed} {result : Except VmError Unit}
    (unprivileged : tracer.vm.privileged = false) (stepped : tracer.step = some (next, result)) :
    next.vm.privileged = false := by
  rw [step] at stepped
  split at stepped
  · cases stepped
    exact unprivileged
  obtain ⟨⟨after, outcome⟩, machine, recorded⟩ := Option.map_eq_some_iff.1 stepped
  have kept := Vm.step_unprivileged unprivileged machine
  cases outcome with
  | error e =>
      cases recorded
      exact kept
  | ok done =>
      dsimp only at recorded
      split at recorded
      · cases recorded
        exact kept
      · cases recorded
        exact kept

theorem eachTracks_of_unprivileged {tracer : TracingVmBorrowed}
    (unprivileged : tracer.vm.privileged = false) (begun : Prop) (count : ℕ) :
    tracer.EachTracks begun count := by
  induction count generalizing tracer with
  | zero => trivial
  | succ count ih =>
      intro _
      constructor
      · intro _ prepared trapped prepares fault
        have kept := (Vm.prepare_privileged prepares).trans unprivileged
        exact absurd fault (Vm.fetch_ne_trapped kept)
      · intro next stepped
        exact ih (step_unprivileged unprivileged stepped)

theorem steps_unprivileged {tracer next : TracingVmBorrowed} {count : ℕ}
    {result : Except VmError ℕ} (unprivileged : tracer.vm.privileged = false)
    (ran : tracer.steps count = some (next, result)) : next.vm.privileged = false := by
  induction count generalizing tracer result with
  | zero =>
      cases ran
      exact unprivileged
  | succ count ih =>
      rw [steps] at ran
      split at ran
      · cases ran
        exact unprivileged
      obtain ⟨⟨after, outcome⟩, stepped, rest⟩ := Option.bind_eq_some_iff.1 ran
      have kept := step_unprivileged unprivileged stepped
      cases outcome with
      | error e =>
          cases rest
          exact kept
      | ok done =>
          obtain ⟨⟨last, counted⟩, loop, isResult⟩ := Option.map_eq_some_iff.1 rest
          cases isResult
          exact ih kept loop

end TracingVmBorrowed

/-! What holds between the rows and the machine. -/

/-- Each row starts where the one before it ended. -/
def PcContinuous (rows : List TraceRow) : Prop :=
  rows.IsChain fun row next => next.pc = row.nextPc

/-- The machine is where the last row ended, or records nothing more. -/
def EndsAt (rows : List TraceRow) (vm : Vm) : Prop :=
  ∀ last ∈ rows.getLast?, vm.cpu.pc = last.nextPc ∨ vm.Stuck

section Loop

variable {rows : List TraceRow} {tracer next : TracingVmBorrowed}

theorem PcContinuous.concat {vm : Vm} {row : TraceRow} (continuous : PcContinuous rows)
    (ends : EndsAt rows vm) (free : ¬ vm.Stuck) (starts : row.pc = vm.cpu.pc) :
    PcContinuous (rows ++ [row]) := by
  apply continuous.append (List.isChain_singleton row)
  intro last isLast first isFirst
  cases isFirst
  rw [starts]
  exact (ends last isLast).resolve_right free

theorem endsAt_concat {vm : Vm} {row : TraceRow} (moved : row.nextPc = vm.cpu.pc) :
    EndsAt (rows ++ [row]) vm := by
  intro last isLast
  rw [List.getLast?_concat] at isLast
  cases isLast
  exact .inl moved.symm

/-- What one step preserves. -/
theorem continuous_step (continuous : PcContinuous (rows ++ tracer.trace))
    (ends : EndsAt (rows ++ tracer.trace) tracer.vm)
    (tracks : rows ≠ [] ∨ tracer.trace ≠ [] → tracer.vm.TracksPc)
    (stepped : tracer.step = some (next, .ok ())) :
    PcContinuous (rows ++ next.trace) ∧ EndsAt (rows ++ next.trace) next.vm := by
  have free : ¬ tracer.vm.Stuck := fun stuck => TracingVmBorrowed.step_stuck stuck stepped
  rcases TracingVmBorrowed.step_ok stepped with
    ⟨row, grown, starts, moved⟩ | ⟨same, prepared, trapped, prepares, fault, left⟩
  · rw [grown, ← List.append_assoc]
    exact ⟨continuous.concat ends free starts, endsAt_concat moved⟩
  · rw [same]
    refine ⟨continuous, ?_⟩
    intro last isLast
    have begun : rows ≠ [] ∨ tracer.trace ≠ [] := by
      rw [← not_and_or]
      rintro ⟨noRows, noTrace⟩
      rw [noRows, noTrace] at isLast
      cases isLast
    have stays : next.vm.cpu.pc = tracer.vm.cpu.pc := by
      rw [left]
      exact tracks begun prepared trapped prepares fault
    rw [stays]
    exact .inl ((ends last isLast).resolve_right free)

/-- What a loop of steps preserves. After an error the machine records nothing more. -/
theorem continuous_steps {count : ℕ} {result : Except VmError ℕ}
    (continuous : PcContinuous (rows ++ tracer.trace))
    (ends : EndsAt (rows ++ tracer.trace) tracer.vm)
    (tracks : tracer.EachTracks (rows ≠ []) count)
    (ran : tracer.steps count = some (next, result)) :
    match result with
    | .ok _ => PcContinuous (rows ++ next.trace) ∧ EndsAt (rows ++ next.trace) next.vm
    | .error _ => next.vm.Stuck := by
  induction count generalizing tracer result with
  | zero =>
      cases ran
      exact ⟨continuous, ends⟩
  | succ count ih =>
      rw [TracingVmBorrowed.steps] at ran
      split at ran
      · cases ran
        exact ⟨continuous, ends⟩
      rename_i running
      obtain ⟨here, later⟩ := tracks (Bool.eq_false_of_not_eq_true running)
      obtain ⟨⟨after, outcome⟩, stepped, rest⟩ := Option.bind_eq_some_iff.1 ran
      cases outcome with
      | error e =>
          cases rest
          exact TracingVmBorrowed.step_error stepped
      | ok done =>
          obtain ⟨⟨last, counted⟩, loop, isResult⟩ := Option.map_eq_some_iff.1 rest
          cases isResult
          obtain ⟨continuous, ends⟩ := continuous_step continuous ends here stepped
          have looped := ih continuous ends (later after stepped) loop
          cases counted with
          | error e => exact looped
          | ok steps => exact looped

end Loop

namespace StreamingProver

variable {sha3 : List Byte → Digest} {order : SetOrder}

/-- In every chunk every step with an exported row before it keeps track of the program
counter. -/
def EachTracks (sha3 : List Byte → Digest) (order : SetOrder) (prover : StreamingProver) :
    ℕ → Prop
  | 0 => True
  | count + 1 =>
      prover.EachTracks sha3 order count ∧
        ∀ next rows, prover.executeChunks sha3 order count = some (next, rows) →
          TracingVmBorrowed.EachTracks (rows ≠ []) ⟨(next.boundary sha3 order).1.vm, []⟩
            next.chunkSize

/-- Chunks export continuous rows where every fetch trap after the first row leaves the
program counter in its place. -/
theorem executeChunks_continuous {prover next : StreamingProver} {count : ℕ}
    {rows : List TraceRow} (tracks : prover.EachTracks sha3 order count)
    (ran : prover.executeChunks sha3 order count = some (next, rows)) :
    PcContinuous rows := by
  suffices both : PcContinuous rows ∧ EndsAt rows next.vm from both.1
  induction count generalizing next rows with
  | zero =>
      cases ran
      exact ⟨List.isChain_nil, fun last isLast => by cases isLast⟩
  | succ count ih =>
      obtain ⟨before, here⟩ := tracks
      obtain ⟨⟨middle, earlier⟩, chunks, rest⟩ := Option.bind_eq_some_iff.1 ran
      obtain ⟨⟨after, outcome⟩, chunk, isNext⟩ := Option.map_eq_some_iff.1 rest
      obtain ⟨continuous, ends⟩ := ih before chunks
      have loops := here middle earlier chunks
      obtain ⟨⟨tracing, counted⟩, loop, isChunk⟩ := Option.map_eq_some_iff.1 chunk
      have atStart : EndsAt (earlier ++ []) (middle.boundary sha3 order).1.vm := by
        rw [List.append_nil]
        exact ends
      have looped := continuous_steps (by rw [List.append_nil]; exact continuous) atStart loops
        loop
      cases counted with
      | error e =>
          cases isChunk
          cases isNext
          exact ⟨continuous, fun last isLast => .inr looped⟩
      | ok steps =>
          cases isChunk
          cases isNext
          exact looped

/-- On an unprivileged machine every step keeps track of the program counter. -/
theorem eachTracks_of_unprivileged {prover : StreamingProver}
    (unprivileged : prover.vm.privileged = false) (count : ℕ) :
    prover.EachTracks sha3 order count ∧
      ∀ next rows, prover.executeChunks sha3 order count = some (next, rows) →
        next.vm.privileged = false := by
  induction count with
  | zero =>
      refine ⟨trivial, ?_⟩
      intro next rows ran
      cases ran
      exact unprivileged
  | succ count ih =>
      obtain ⟨tracks, kept⟩ := ih
      constructor
      · refine ⟨tracks, ?_⟩
        intro next rows chunks
        exact TracingVmBorrowed.eachTracks_of_unprivileged (kept next rows chunks) _ _
      · intro next rows ran
        obtain ⟨⟨middle, earlier⟩, chunks, rest⟩ := Option.bind_eq_some_iff.1 ran
        obtain ⟨⟨after, outcome⟩, chunk, isNext⟩ := Option.map_eq_some_iff.1 rest
        obtain ⟨⟨tracing, counted⟩, loop, isChunk⟩ := Option.map_eq_some_iff.1 chunk
        have ended := TracingVmBorrowed.steps_unprivileged (kept middle earlier chunks) loop
        cases counted with
        | error e =>
            cases isChunk
            cases isNext
            exact ended
        | ok steps =>
            cases isChunk
            cases isNext
            exact ended

/-- Two additions of an unprivileged machine, in chunks of one step. -/
theorem additions_continuous :
    let prover := new (.new .new ((Memory.new.storeWord 0 0x00100093).storeWord 4 0x00200113)) 1
    ∀ sha3 order next rows, prover.executeChunks sha3 order 2 = some (next, rows) →
      PcContinuous rows :=
  fun _ _ _ _ ran => executeChunks_continuous (eachTracks_of_unprivileged rfl 2).1 ran

/-- A machine at an addition before a word that does not decode, with another addition at
its trap vector. -/
def illegalVm : Vm :=
  .newPrivileged { CpuState.new with csrs := CsrFile.new.writeUnchecked Addr.mtvec 0x100 }
    ((Memory.new.storeWord 0 0x00100093).storeWord 0x100 0x00200113)

/-- The row of the handler does not start where the last row ended. -/
theorem illegal_rows_break :
    ¬ ∀ (sha3 : List Byte → Digest) (order : SetOrder) (vm : Vm) (chunkSize count : ℕ)
      (next : StreamingProver) (rows : List TraceRow),
      (new vm chunkSize).executeChunks sha3 order count = some (next, rows) →
        PcContinuous rows := by
  intro continuous
  have ran : ((new illegalVm 3).executeChunks (fun _ => []) .sorted 1).map
      (fun outcome => outcome.2.map fun row => (row.pc, row.nextPc)) =
        some [(0, 4), (0x100, 0x104)] := by decide
  obtain ⟨⟨next, rows⟩, chunks, shown⟩ := Option.map_eq_some_iff.1 ran
  have linked := continuous _ _ _ _ _ _ _ chunks
  have shownLinked := (List.isChain_map (R := fun row next : Word × Word => next.1 = row.2)
    fun row : TraceRow => (row.pc, row.nextPc)).2 linked
  rw [show rows.map (fun row => (row.pc, row.nextPc)) = _ from shown] at shownLinked
  exact absurd shownLinked (by decide)

end StreamingProver

end MetaVm.Riscv
