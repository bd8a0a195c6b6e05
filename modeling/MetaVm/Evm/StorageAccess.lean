import MetaVm.Evm.Execution

namespace MetaVm.Evm

open Framing

/-! The storage accesses that are read back from a trace. -/

structure StorageAccess where
  contractAddress : List (BitVec 8)
  slot : Word
  value : Word
  isWrite : Bool
  storageRoot : List (BitVec 8)
  mptProof : List (List (BitVec 8))
deriving DecidableEq

/-- The limbs from the highest one down, each with its highest byte first. -/
def u256BeFromLimbs (limbs : U256) : List (BitVec 8) :=
  [3, 2, 1, 0].flatMap fun k => bigEndian 8 (limbs k).toNat

/-- The access of a row, if it is that of an SLOAD or SSTORE. The root and the proof are
for the caller to fill. -/
def storageAccess (row : EvmTraceRow) : Option StorageAccess :=
  let isLoad := row.opcode = 0x54
  let isStore := row.opcode = 0x55
  if ¬isLoad ∧ ¬isStore then none
  else
    some {
      contractAddress := (u256BeFromLimbs row.frame.callee).drop 12
      slot := toWord row.input0
      value := toWord (if isLoad then row.output0 else row.input1)
      isWrite := decide isStore
      storageRoot := List.replicate 32 0
      mptProof := [] }

def extractStorageAccessesFromTrace (trace : List EvmTraceRow) : List StorageAccess :=
  trace.filterMap storageAccess

/-! An address that travels through limbs. -/

/-- The bytes of a limb come back the other way round. -/
theorem bigEndian_fromLeBytes {bytes : List (BitVec 8)} (sized : bytes.length = 8) :
    bigEndian 8 (fromLeBytes bytes).toNat = bytes.reverse := by
  have back := bigEndian_fromBigEndian bytes.reverse
  have small := fromBigEndian_lt bytes.reverse
  rw [List.length_reverse, sized] at back small
  have fits : fromBigEndian bytes.reverse < 2 ^ 64 := small
  rw [fromLeBytes, BitVec.toNat_ofNat, fromLittleEndian, Nat.mod_eq_of_lt fits]
  exact back

/-- An address comes back with all its bytes the other way round. -/
theorem drop_u256BeFromLimbs (addr : Address) :
    (u256BeFromLimbs (addressToLimbs addr)).drop 12 = addr.1.reverse := by
  obtain ⟨bytes, sized⟩ := addr
  have low : (bytes.take 8).length = 8 := by rw [List.length_take, sized]; rfl
  have middle : ((bytes.drop 8).take 8).length = 8 := by
    rw [List.length_take, List.length_drop, sized]; rfl
  have high : (bytes.drop 16 ++ List.replicate 4 0).length = 8 := by
    rw [List.length_append, List.length_drop, List.length_replicate, sized]
  have top : bigEndian 8 (0 : U64).toNat = List.replicate 8 0 := by decide
  have whole : bytes = bytes.take 8 ++ ((bytes.drop 8).take 8 ++ bytes.drop 16) := by
    conv_lhs => rw [← List.take_append_drop 8 bytes, ← List.take_append_drop 8 (bytes.drop 8)]
    rw [List.drop_drop]
  have limbs : u256BeFromLimbs (addressToLimbs ⟨bytes, sized⟩) =
      bigEndian 8 (0 : U64).toNat ++
        (bigEndian 8 (fromLeBytes (bytes.drop 16 ++ List.replicate 4 0)).toNat ++
          (bigEndian 8 (fromLeBytes ((bytes.drop 8).take 8)).toNat ++
            (bigEndian 8 (fromLeBytes (bytes.take 8)).toNat ++ []))) := rfl
  rw [limbs, top, bigEndian_fromLeBytes high, bigEndian_fromLeBytes middle,
    bigEndian_fromLeBytes low, List.reverse_append, List.reverse_replicate, List.append_assoc,
    List.append_nil, ← List.append_assoc (List.replicate 8 0), List.replicate_append_replicate]
  have reversed : bytes.reverse =
      (bytes.drop 16).reverse ++ (((bytes.drop 8).take 8).reverse ++ (bytes.take 8).reverse) := by
    conv_lhs => rw [whole]
    rw [List.reverse_append, List.reverse_append, List.append_assoc]
  exact (List.drop_left' (List.length_replicate)).trans reversed.symm

/-! The accesses that a run makes. -/

structure StorageOperation where
  account : Address
  slot : Word
  value : Word
  isWrite : Bool

/-- The access that names the operation. -/
def StorageOperation.access (operation : StorageOperation) : StorageAccess where
  contractAddress := operation.account.1
  slot := operation.slot
  value := operation.value
  isWrite := operation.isWrite
  storageRoot := List.replicate 32 0
  mptProof := []

/-- The operation of an SLOAD or SSTORE that was executed. The slot and the value that is
written are words of the stack before it, the value that is read is on the stack after it. -/
def Step.operation (step : Step) : Option StorageOperation :=
  match step.effect with
  | .execute _ _ =>
      if step.frame.opcode = 0x54 then do
        let slot ← step.frame.stack[0]?
        let value ← step.left[0]?
        some ⟨step.frame.callee, slot, value, false⟩
      else if step.frame.opcode = 0x55 then do
        let slot ← step.frame.stack[0]?
        let value ← step.frame.stack[1]?
        some ⟨step.frame.callee, slot, value, true⟩
      else none
  | _ => none

def IsStorage (opcode : Opcode) : Prop := opcode = 0x54 ∨ opcode = 0x55

instance (opcode : Opcode) : Decidable (IsStorage opcode) := inferInstanceAs (Decidable (_ ∨ _))

theorem storageAccess_eq {row : EvmTraceRow} (storage : IsStorage row.opcode) :
    storageAccess row = some {
      contractAddress := (u256BeFromLimbs row.frame.callee).drop 12
      slot := toWord row.input0
      value := toWord (if row.opcode = 0x54 then row.output0 else row.input1)
      isWrite := decide (row.opcode = 0x55)
      storageRoot := List.replicate 32 0
      mptProof := [] } :=
  if_neg fun other => storage.elim other.1 other.2

theorem storageAccess_eq_none {row : EvmTraceRow} (other : ¬IsStorage row.opcode) :
    storageAccess row = none := if_pos (not_or.1 other)

theorem toWord_safePeek {stack : List Word} {index : ℕ} {word : Word}
    (found : stack[index]? = some word) : toWord (safePeek stack index) = word := by
  rw [safePeek, found]
  exact toWord_ofWord word

/-- The access that a row names, with the address turned around. -/
def StorageOperation.turned (operation : StorageOperation) : StorageAccess :=
  { operation.access with contractAddress := operation.account.1.reverse }

/-- SLOAD and SSTORE are executed, or their frame halts. -/
theorem execute_of_storage {step : Step} (recorded : step.Recorded)
    (running : ¬step.effect.Halts) (storage : IsStorage step.frame.opcode) :
    ∃ pushed pc, step.effect = .execute pushed pc := by
  have ordinary : ∀ opcode : Opcode, IsStorage opcode →
      ¬IsCall opcode ∧ ¬IsCreate opcode ∧ ¬EndsFrame opcode := by
    decide
  obtain ⟨notCall, notCreate, notEnd⟩ := ordinary _ storage
  have allowed := recorded.allowed
  cases effect : step.effect with
  | execute pushed pc => exact ⟨pushed, pc, rfl⟩
  | enter inputs code =>
      rw [effect, EvmFrame.left, if_neg notCall] at allowed
      cases allowed
  | answer inputs result =>
      rw [effect, EvmFrame.left, if_neg notCall] at allowed
      cases allowed
  | enterCreate inputs code =>
      rw [effect, EvmFrame.left, if_neg notCreate] at allowed
      cases allowed
  | answerCreate inputs result =>
      rw [effect, EvmFrame.left, if_neg notCreate] at allowed
      cases allowed
  | finish result =>
      rw [effect, EvmFrame.left, if_neg notEnd] at allowed
      cases allowed
  | halt stack result =>
      rw [effect] at running
      exact absurd trivial running

/-- It leaves a row of its operation, with the address turned around. -/
theorem storageAccess_of_execute {step : Step} (recorded : step.Recorded)
    (running : ¬step.effect.Halts) (storage : IsStorage step.frame.opcode) :
    ∃ operation, step.operation = some operation ∧
      storageAccess step.row = some operation.turned := by
  obtain ⟨pushed, pc, executes⟩ := execute_of_storage recorded running storage
  have allowed := recorded.allowed
  rw [executes] at allowed
  obtain ⟨arity, isArity, enough, balance, -⟩ := length_of_execute allowed
  have address : (u256BeFromLimbs step.row.frame.callee).drop 12 =
      step.frame.callee.1.reverse := by
    rw [recorded.callee, drop_u256BeFromLimbs]
  rw [Step.operation, executes, storageAccess_eq (recorded.opcode ▸ storage), address,
    recorded.opcode, recorded.input0]
  dsimp only
  rcases storage with load | store
  · rw [load] at isArity
    obtain rfl : (1, 1) = arity := Option.some.inj isArity
    have produced : 0 < step.left.length := by omega
    obtain ⟨slot, slotFound⟩ : ∃ slot, step.frame.stack[0]? = some slot :=
      ⟨_, List.getElem?_eq_getElem enough⟩
    obtain ⟨value, valueFound⟩ : ∃ value, step.left[0]? = some value :=
      ⟨_, List.getElem?_eq_getElem produced⟩
    rw [if_pos load, if_pos load, slotFound, valueFound, recorded.output0, load,
      toWord_safePeek slotFound, toWord_safePeek valueFound]
    exact ⟨_, rfl, rfl⟩
  · have notLoad : step.frame.opcode ≠ 0x54 := by
      rw [store]
      decide
    have notCall : ¬IsCall step.frame.opcode := by
      rw [store]
      decide
    rw [store] at isArity
    obtain rfl : (2, 0) = arity := Option.some.inj isArity
    obtain ⟨slot, slotFound⟩ : ∃ slot, step.frame.stack[0]? = some slot :=
      ⟨_, List.getElem?_eq_getElem (Nat.lt_of_succ_lt enough)⟩
    obtain ⟨value, valueFound⟩ : ∃ value, step.frame.stack[1]? = some value :=
      ⟨_, List.getElem?_eq_getElem enough⟩
    rw [if_neg notLoad, if_neg notLoad, if_pos store, slotFound, valueFound,
      recorded.input1 notCall, store, toWord_safePeek slotFound, toWord_safePeek valueFound]
    exact ⟨_, rfl, rfl⟩

/-- A frame that halts executes nothing. -/
theorem operation_of_halts {step : Step} (halts : step.effect.Halts) :
    step.operation = none := by
  rw [Step.operation]
  cases effect : step.effect with
  | halt stack result => rfl
  | execute pushed pc =>
      rw [effect] at halts
      exact halts.elim
  | enter inputs code => rfl
  | answer inputs result => rfl
  | enterCreate inputs code => rfl
  | answerCreate inputs result => rfl
  | finish result => rfl

theorem operation_of_other {step : Step} (other : ¬IsStorage step.frame.opcode) :
    step.operation = none := by
  rw [Step.operation]
  cases step.effect with
  | execute pushed pc =>
      dsimp only
      rw [if_neg fun load => other (Or.inl load), if_neg fun store => other (Or.inr store)]
  | enter inputs code => rfl
  | answer inputs result => rfl
  | enterCreate inputs code => rfl
  | answerCreate inputs result => rfl
  | finish result => rfl
  | halt stack result => rfl

/-- The row of an instruction names its operation if the address reads the same from both
ends, and names none if there is none. -/
def Step.Named (step : Step) : Prop :=
  (IsStorage step.frame.opcode → ¬step.effect.Halts) ∧
    ∀ operation ∈ step.operation, operation.account.1.reverse = operation.account.1

theorem turned_eq_access {operation : StorageOperation} :
    operation.turned = operation.access ↔ operation.account.1.reverse = operation.account.1 := by
  rw [StorageOperation.turned, StorageOperation.access]
  constructor
  · exact congrArg StorageAccess.contractAddress
  · intro same
    rw [same]

theorem storageAccess_eq_iff {step : Step} (recorded : step.Recorded) :
    storageAccess step.row = step.operation.map StorageOperation.access ↔ step.Named := by
  rw [Step.Named]
  by_cases storage : IsStorage step.frame.opcode
  · by_cases halts : step.effect.Halts
    · rw [operation_of_halts halts, storageAccess_eq (recorded.opcode ▸ storage)]
      exact ⟨nofun, fun named => absurd halts (named.1 storage)⟩
    · obtain ⟨operation, executed, row⟩ := storageAccess_of_execute recorded halts storage
      rw [row, executed, Option.map_some, Option.some.injEq, turned_eq_access]
      constructor
      · intro same
        refine ⟨fun _ => halts, ?_⟩
        rintro _ ⟨⟩
        exact same
      · exact fun named => named.2 operation rfl
  · rw [operation_of_other storage, storageAccess_eq_none (recorded.opcode ▸ storage)]
    exact ⟨fun _ => ⟨fun isStorage => absurd isStorage storage, nofun⟩, fun _ => rfl⟩

section Lists

variable {α β : Type} {first second : α → Option β} {all : List α}

theorem length_filterMap_le (more : ∀ a ∈ all, first a = none → second a = none) :
    (all.filterMap second).length ≤ (all.filterMap first).length := by
  induction all with
  | nil => exact Nat.le_refl 0
  | cons a all hypothesis =>
      rw [List.forall_mem_cons] at more
      have rest := hypothesis more.2
      cases found : first a with
      | none =>
          rw [List.filterMap_cons_none found, List.filterMap_cons_none (more.1 found)]
          exact rest
      | some b =>
          rw [List.filterMap_cons_some found, List.length_cons]
          cases other : second a with
          | none =>
              rw [List.filterMap_cons_none other]
              exact Nat.le_succ_of_le rest
          | some c =>
              rw [List.filterMap_cons_some other, List.length_cons]
              exact Nat.succ_le_succ rest

/-- Where one choice takes at least what the other takes, they take the same list exactly
when they agree everywhere. -/
theorem filterMap_eq_filterMap_iff (more : ∀ a ∈ all, first a = none → second a = none) :
    all.filterMap first = all.filterMap second ↔ ∀ a ∈ all, first a = second a := by
  induction all with
  | nil => exact ⟨fun _ a found => absurd found List.not_mem_nil, fun _ => rfl⟩
  | cons a all hypothesis =>
      rw [List.forall_mem_cons] at more ⊢
      have rest := hypothesis more.2
      cases found : first a with
      | none =>
          have other := more.1 found
          rw [List.filterMap_cons_none found, List.filterMap_cons_none other, rest, other]
          exact (and_iff_right rfl).symm
      | some b =>
          rw [List.filterMap_cons_some found]
          cases other : second a with
          | none =>
              rw [List.filterMap_cons_none other]
              constructor
              · intro same
                have shorter := length_filterMap_le more.2
                rw [← same, List.length_cons] at shorter
                exact absurd shorter (Nat.not_succ_le_self _)
              · exact fun both => absurd both.1 (Option.some_ne_none b)
          | some c =>
              rw [List.filterMap_cons_some other, List.cons.injEq, rest, Option.some.injEq]

end Lists

theorem extract_of_run {machine last : Machine} {events : List MachineEvent} {steps : List Step}
    (fresh : machine.inspector.trace = []) (done : machine.run events = some (steps, last)) :
    extractStorageAccessesFromTrace last.inspector.trace =
      steps.filterMap fun step => storageAccess step.row := by
  have blind : TracingInspector.HintBlind storageAccess :=
    TracingInspector.hintBlind_withHints fun _ _ _ _ _ => rfl
  have rows := Machine.map_trace_run blind done
  rw [fresh, List.map_nil, List.nil_append] at rows
  have same := congrArg (List.filterMap id) rows
  rw [List.filterMap_map, List.filterMap_map] at same
  exact same

/-- From the trace of a run come, once each and in order, the accesses of the SLOADs and
SSTOREs that it executes, with account, slot and value, if and only if the address of
every account that it accesses reads the same from both ends and none of these
instructions halts its frame. -/
theorem extract_exact_iff (machine last : Machine) (events : List MachineEvent) (steps : List Step)
    (starts : Starts machine) (done : machine.run events = some (steps, last)) :
    extractStorageAccessesFromTrace last.inspector.trace =
        (steps.filterMap Step.operation).map StorageOperation.access ↔
      (∀ operation ∈ steps.filterMap Step.operation,
          operation.account.1.reverse = operation.account.1) ∧
        ∀ step ∈ steps, IsStorage step.frame.opcode → ¬step.effect.Halts := by
  have recorded := Machine.run_recorded (Machine.matches_of_starts starts) done
  have more : ∀ step ∈ steps, storageAccess step.row = none →
      step.operation.map StorageOperation.access = none := by
    intro step found missing
    have other : ¬IsStorage step.frame.opcode := by
      intro storage
      rw [storageAccess_eq ((recorded step found).opcode ▸ storage)] at missing
      cases missing
    rw [operation_of_other other]
    rfl
  rw [extract_of_run (Machine.trace_of_starts starts) done, List.map_filterMap,
    filterMap_eq_filterMap_iff more]
  constructor
  · intro same
    have named : ∀ step ∈ steps, step.Named := fun step found =>
      (storageAccess_eq_iff (recorded step found)).1 (same step found)
    refine ⟨?_, fun step found => (named step found).1⟩
    intro operation member
    obtain ⟨step, found, executed⟩ := List.mem_filterMap.1 member
    exact (named step found).2 operation executed
  · rintro ⟨addresses, running⟩ step found
    refine (storageAccess_eq_iff (recorded step found)).2 ⟨running step found, ?_⟩
    intro operation executed
    exact addresses operation (List.mem_filterMap.2 ⟨step, found, executed⟩)

section Runs

theorem length_caller : (List.replicate 20 (0xCA : BitVec 8)).length = 20 := rfl

theorem length_palindrome : (List.replicate 20 (0x42 : BitVec 8)).length = 20 := rfl

/-- A transaction for a contract at an address. -/
def callTo (target : Address) : CallInputs where
  scheme := .call
  caller := ⟨List.replicate 20 0xCA, length_caller⟩
  targetAddress := target
  value := 0
  gasLimit := 10000000
  returnOffset := 0
  returnSize := 0

def loadEvents : List MachineEvent :=
  [⟨0, .execute [0] 1⟩, ⟨0, .execute [7] 2⟩, ⟨0, .finish 0⟩]

/-- PUSH0, SLOAD, and the end of the code. -/
def loadRun (target : Address) : Option (List Step × Machine) :=
  (Machine.start (callTo target) [0x5F, 0x54]).run loadEvents

def palindromeAddress : Address := ⟨List.replicate 20 0x42, length_palindrome⟩

def plainAddress : Address := ⟨1 :: List.replicate 19 0, rfl⟩

theorem isSome_loadRun_palindrome : (loadRun palindromeAddress).isSome := by decide

theorem isSome_loadRun_plain : (loadRun plainAddress).isSome := by decide

theorem extract_exact_palindrome :
    extractStorageAccessesFromTrace
          ((loadRun palindromeAddress).get isSome_loadRun_palindrome).2.inspector.trace =
        (((loadRun palindromeAddress).get isSome_loadRun_palindrome).1.filterMap Step.operation).map
          StorageOperation.access ↔
      (∀ operation ∈
          ((loadRun palindromeAddress).get isSome_loadRun_palindrome).1.filterMap Step.operation,
          operation.account.1.reverse = operation.account.1) ∧
        ∀ step ∈ ((loadRun palindromeAddress).get isSome_loadRun_palindrome).1,
          IsStorage step.frame.opcode → ¬step.effect.Halts :=
  extract_exact_iff (.start (callTo palindromeAddress) [0x5F, 0x54]) _ loadEvents _ (.call _ _)
    (Option.some_get isSome_loadRun_palindrome).symm

/-- A contract at the address of a one and nineteen zeros: the access that is read back is
of the contract at nineteen zeros and a one. -/
theorem extract_turnsAddress :
    extractStorageAccessesFromTrace
        ((loadRun plainAddress).get isSome_loadRun_plain).2.inspector.trace ≠
      (((loadRun plainAddress).get isSome_loadRun_plain).1.filterMap Step.operation).map
        StorageOperation.access := by
  intro same
  have addresses := congrArg (List.map StorageAccess.contractAddress) same
  revert addresses
  decide

end Runs

end MetaVm.Evm
