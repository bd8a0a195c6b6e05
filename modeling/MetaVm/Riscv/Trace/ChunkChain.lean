import MetaVm.Riscv.Trace.Evolution
import MetaVm.Riscv.Trace.StreamingProver

namespace MetaVm.Riscv

/-! Recorded steps take nothing back and stop where the machine halts. -/

namespace TracingVmBorrowed

variable {tracer next : TracingVmBorrowed}

theorem evolves_step {result : Except VmError Unit}
    (stepped : tracer.step = some (next, result)) : tracer.vm.Evolves next.vm := by
  rw [step] at stepped
  split at stepped
  · cases stepped
    exact .refl tracer.vm
  · obtain ⟨⟨after, outcome⟩, machine, recorded⟩ := Option.map_eq_some_iff.1 stepped
    have evolves := Vm.evolves_step machine
    cases outcome with
    | error e =>
        cases recorded
        exact evolves
    | ok done =>
        dsimp only at recorded
        split at recorded
        · cases recorded
          exact evolves.trans (.of_same rfl rfl)
        · cases recorded
          exact evolves.trans (.of_same rfl rfl)

theorem evolves_steps {count : ℕ} {result : Except VmError ℕ}
    (ran : tracer.steps count = some (next, result)) : tracer.vm.Evolves next.vm := by
  induction count generalizing tracer result with
  | zero =>
      cases ran
      exact .refl _
  | succ count hypothesis =>
      rw [steps] at ran
      split at ran
      · cases ran
        exact .refl _
      · obtain ⟨⟨after, outcome⟩, stepped, rest⟩ := Option.bind_eq_some_iff.1 ran
        have first := evolves_step stepped
        cases outcome with
        | error e =>
            cases rest
            exact first
        | ok done =>
            obtain ⟨⟨last, counted⟩, loop, isResult⟩ := Option.map_eq_some_iff.1 rest
            cases isResult
            exact first.trans (hypothesis loop)

/-- Only a machine that halts makes fewer steps than it is asked for. -/
theorem steps_count {count done : ℕ} (ran : tracer.steps count = some (next, .ok done)) :
    done = count ∨ next.vm.halted = true := by
  induction count generalizing tracer done with
  | zero =>
      cases ran
      exact .inl rfl
  | succ count hypothesis =>
      rw [steps] at ran
      split at ran
      · rename_i halted
        cases ran
        exact .inr halted
      · obtain ⟨⟨after, outcome⟩, stepped, rest⟩ := Option.bind_eq_some_iff.1 ran
        cases outcome with
        | error e => cases rest
        | ok done =>
            obtain ⟨⟨last, counted⟩, loop, isResult⟩ := Option.map_eq_some_iff.1 rest
            cases counted with
            | error e => cases isResult
            | ok shorter =>
                cases isResult
                exact (hypothesis loop).imp_left (congrArg (· + 1))

theorem steps_of_halted (halted : tracer.vm.halted = true) (count : ℕ) :
    tracer.steps count = some (tracer, .ok 0) := by
  cases count with
  | zero => rfl
  | succ count => rw [steps, if_pos halted]

end TracingVmBorrowed

namespace StreamingProver

variable {sha3 : List Byte → Digest} {order : SetOrder} {prover next : StreamingProver}
  {chunk : ExecutionChunk}

/-! The boundaries of the chunks. -/

/-- Every page that is not dirty has its hash cached. -/
def Tracked (sha3 : List Byte → Digest) (prover : StreamingProver) : Prop :=
  HashedMemory.Tracked sha3 ⟨prover.vm.memory, prover.memoryHasher⟩

/-- The hash of the state that a prover is in, with its whole memory hashed afresh. -/
def stateHash (sha3 : List Byte → Digest) (prover : StreamingProver) : Digest :=
  hashBoundaryState sha3 (snapshotVm prover.vm
    (IncrementalMemoryHash.new.initializeFrom sha3 prover.vm.memory).1
    (sha3 prover.uartHasher) prover.globalStep)

theorem Tracked.boundary (tracked : prover.Tracked sha3) :
    (prover.boundary sha3 order).1.Tracked sha3 :=
  HashedMemory.Tracked.step tracked .update

/-- The boundary state has the hash of the whole memory. -/
theorem Tracked.hash_boundary (tracked : prover.Tracked sha3) :
    hashBoundaryState sha3 (prover.boundary sha3 order).2 = prover.stateHash sha3 := by
  have same := (@HashedMemory.Tracked.rehash _ order _ tracked).unique
    (HashedMemory.initializeFrom_fresh .new prover.vm.memory)
  have hashes := congrArg (fun hashes => IncrementalMemoryHash.combine sha3 ⟨hashes⟩) same
  exact congrArg (fun memoryHash => hashBoundaryState sha3 (snapshotVm prover.vm memoryHash
    (sha3 prover.uartHasher) prover.globalStep)) hashes

theorem Tracked.writes {vm : Vm} (tracked : prover.Tracked sha3)
    (writes : prover.vm.memory.Writes vm.memory) :
    HashedMemory.Tracked sha3 ⟨vm.memory, prover.memoryHasher⟩ :=
  DirtyCache.Fresh.writes tracked writes

/-- What a chunk that ends without an error does to its prover. -/
structure ChunkStep (sha3 : List Byte → Digest) (prover : StreamingProver)
    (chunk : ExecutionChunk) (next : StreamingProver) : Prop where
  tracked : next.Tracked sha3
  begins : chunk.initialStateHash = prover.stateHash sha3
  ends : chunk.finalStateHash = next.stateHash sha3
  console : next.uartHasher = prover.uartHasher ++ chunk.uartBytesThisChunk
  output : prover.vm.mmio.uart.output <+: chunk.uartBytesThisChunk
  drained : next.vm.mmio.uart.output = []
  steps : next.globalStep = prover.globalStep + BitVec.ofNat 64 chunk.numSteps
  index : chunk.chunkIndex = prover.chunkIndex
  nextIndex : next.chunkIndex = prover.chunkIndex + 1
  size : next.chunkSize = prover.chunkSize
  full : chunk.numSteps = prover.chunkSize ∨ next.vm.halted = true
  halted : prover.vm.halted = true → next.vm.halted = true

theorem executeChunk_step (tracked : prover.Tracked sha3)
    (executed : prover.executeChunk sha3 order = some (next, .ok chunk)) :
    ChunkStep sha3 prover chunk next := by
  obtain ⟨⟨tracing, counted⟩, loop, isChunk⟩ := Option.map_eq_some_iff.1 executed
  have evolves := TracingVmBorrowed.evolves_steps loop
  cases counted with
  | error e => cases isChunk
  | ok done =>
      cases isChunk
      have bounded : (prover.boundary sha3 order).1.Tracked sha3 := tracked.boundary
      have drained : Tracked sha3 { (prover.boundary sha3 order).1 with
          vm := tracing.vm.drainUart
          uartHasher := prover.uartHasher ++ tracing.vm.mmio.uart.output
          globalStep := prover.globalStep + BitVec.ofNat 64 done } :=
        bounded.writes evolves.memory
      exact {
        tracked := drained.boundary
        begins := tracked.hash_boundary
        ends := drained.hash_boundary
        console := rfl
        output := evolves.output
        drained := rfl
        steps := rfl
        index := rfl
        nextIndex := rfl
        size := rfl
        full := TracingVmBorrowed.steps_count loop
        halted := fun halted => by
          rw [TracingVmBorrowed.steps_of_halted halted] at loop
          cases loop
          exact halted }

/-- Chunks executed one after the other without an error. -/
inductive ChunkRun (sha3 : List Byte → Digest) (order : SetOrder) (start : StreamingProver) :
    List ExecutionChunk → StreamingProver → Prop
  | refl : ChunkRun sha3 order start [] start
  | chunk {chunks : List ExecutionChunk} {prover next : StreamingProver} {chunk : ExecutionChunk}
      (run : ChunkRun sha3 order start chunks prover)
      (executed : prover.executeChunk sha3 order = some (next, .ok chunk)) :
      ChunkRun sha3 order start (chunks ++ [chunk]) next

/-- The chunks lead from one state to another: each begins where the one before it ended,
all output is theirs, the steps add up and only a halted machine leaves a chunk short. -/
structure Chained (sha3 : List Byte → Digest) (start : StreamingProver)
    (chunks : List ExecutionChunk) (prover : StreamingProver) : Prop where
  linked : chunks.IsChain fun earlier later => earlier.finalStateHash = later.initialStateHash
  begins : ∀ chunk ∈ chunks.head?, chunk.initialStateHash = start.stateHash sha3
  ends : ∀ chunk ∈ chunks.getLast?, chunk.finalStateHash = prover.stateHash sha3
  console : prover.uartHasher = start.uartHasher ++ chunks.flatMap (·.uartBytesThisChunk)
  steps : prover.globalStep =
    start.globalStep + BitVec.ofNat 64 (chunks.map (·.numSteps)).sum
  numbered : chunks.map (·.chunkIndex) =
    (List.range chunks.length).map fun index => start.chunkIndex + BitVec.ofNat 64 index
  full : ∀ chunk ∈ chunks, chunk.numSteps = start.chunkSize ∨ prover.vm.halted = true

/-- A chain together with what carries it on. -/
structure Carried (sha3 : List Byte → Digest) (start : StreamingProver)
    (chunks : List ExecutionChunk) (prover : StreamingProver) : Prop where
  chained : Chained sha3 start chunks prover
  tracked : prover.Tracked sha3
  unmoved : chunks = [] → prover = start
  size : prover.chunkSize = start.chunkSize
  index : prover.chunkIndex = start.chunkIndex + BitVec.ofNat 64 chunks.length

theorem Carried.append {start : StreamingProver} {chunks : List ExecutionChunk}
    (carried : Carried sha3 start chunks prover) (step : ChunkStep sha3 prover chunk next) :
    Carried sha3 start (chunks ++ [chunk]) next := by
  have chain := carried.chained
  refine ⟨⟨?_, ?_, ?_, ?_, ?_, ?_, ?_⟩, step.tracked, ?_, step.size.trans carried.size, ?_⟩
  · rw [List.isChain_append]
    refine ⟨chain.linked, List.isChain_singleton _, ?_⟩
    intro earlier isLast later isFirst
    cases isFirst
    rw [chain.ends earlier isLast, step.begins]
  · intro first isFirst
    cases chunks with
    | nil =>
        cases isFirst
        rw [step.begins, carried.unmoved rfl]
    | cons head tail => exact chain.begins first isFirst
  · intro last isLast
    rw [List.getLast?_concat] at isLast
    cases isLast
    exact step.ends
  · rw [step.console, chain.console, List.flatMap_append, List.flatMap_singleton,
      List.append_assoc]
  · rw [step.steps, chain.steps, List.map_append, List.sum_append, List.map_singleton,
      List.sum_singleton, BitVec.ofNat_add, BitVec.add_assoc]
  · rw [List.map_append, chain.numbered, List.length_append, List.length_singleton,
      List.range_succ, List.map_append, List.map_singleton, List.map_singleton, step.index,
      carried.index]
  · intro done member
    rcases List.mem_append.1 member with earlier | here
    · exact (chain.full done earlier).imp_right step.halted
    · rw [List.mem_singleton.1 here, ← carried.size]
      exact step.full
  · intro empty
    exact absurd empty (List.concat_ne_nil chunk chunks)
  · rw [step.nextIndex, carried.index, List.length_append, List.length_singleton,
      BitVec.ofNat_add, BitVec.add_assoc]
    rfl

/-- The chunks of every run after the memory hash is initialized are chained by the
hashes of whole states, with the memory hashed afresh at each boundary. -/
theorem chunks_chained (sha3 : List Byte → Digest) (order : SetOrder) (vm : Vm)
    (chunkSize : ℕ) {chunks : List ExecutionChunk} {last : StreamingProver}
    (run : ChunkRun sha3 order ((new vm chunkSize).initializeMemoryHash sha3) chunks last) :
    Chained sha3 ((new vm chunkSize).initializeMemoryHash sha3) chunks last := by
  suffices carried : Carried sha3 ((new vm chunkSize).initializeMemoryHash sha3) chunks last
    from carried.chained
  induction run with
  | refl =>
      have start : ((new vm chunkSize).initializeMemoryHash sha3).Tracked sha3 :=
        HashedMemory.start_tracked .new vm.memory
      refine ⟨⟨List.isChain_nil, ?_, ?_, ?_, ?_, rfl, ?_⟩, start, fun _ => rfl, rfl, ?_⟩
      · intro chunk isFirst
        cases isFirst
      · intro chunk isLast
        cases isLast
      · rw [List.flatMap_nil, List.append_nil]
      · exact (BitVec.add_zero _).symm
      · intro chunk member
        cases member
      · exact (BitVec.add_zero _).symm
  | chunk run executed hypothesis =>
      exact hypothesis.append (executeChunk_step hypothesis.tracked executed)

/-- A prover before `addi x1, x0, 1` and `sw x1, 16(x0)`, with chunks of one step. -/
def beforeStore : StreamingProver :=
  (new (.new .new ((Memory.new.storeWord 0 0x00100093).storeWord 4 0x00102823)) 1)
    |>.initializeMemoryHash (List.take 32)

/-- The second chunk ends with other memory than it began with. -/
theorem chunks_chained_store : ∃ first second last,
    ChunkRun (List.take 32) .sorted beforeStore [first, second] last ∧
      Chained (List.take 32) beforeStore [first, second] last ∧
        beforeStore.vm.memory.loadWord 16 = 0 ∧ last.vm.memory.loadWord 16 = 1 := by
  have ran : ((beforeStore.executeChunk (List.take 32) .sorted).bind fun one =>
      (one.1.executeChunk (List.take 32) .sorted).map fun two =>
        (one.2.toOption.isSome, two.2.toOption.isSome, two.1.vm.memory.loadWord 16)) =
          some (true, true, 1) := by
    decide
  obtain ⟨⟨middle, one⟩, executes, rest⟩ := Option.bind_eq_some_iff.1 ran
  obtain ⟨⟨last, two⟩, executesAgain, shown⟩ := Option.map_eq_some_iff.1 rest
  obtain ⟨oneOk, others⟩ := Prod.mk.inj shown
  obtain ⟨twoOk, stored⟩ := Prod.mk.inj others
  cases one with
  | error e => cases oneOk
  | ok first =>
      cases two with
      | error e => cases twoOk
      | ok second =>
          have run := (ChunkRun.refl.chunk executes).chunk executesAgain
          exact ⟨first, second, last, run, chunks_chained _ _ _ _ run, by decide, stored⟩

end StreamingProver

end MetaVm.Riscv
