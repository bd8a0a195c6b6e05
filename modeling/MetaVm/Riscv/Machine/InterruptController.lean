import MetaVm.Riscv.Machine.GuestWords
import MetaVm.Riscv.Machine.Interrupts
import MetaVm.Riscv.Trace.Evolution

namespace MetaVm.Riscv

/-! The interrupts of a machine whose controller has no pending source. -/

/-- The interrupts that the controller raises. -/
def InterruptCause.External (cause : InterruptCause) : Prop :=
  cause = .machineExternal ∨ cause = .supervisorExternal

namespace Vm

variable {vm ticked : Vm} {cause : InterruptCause}

theorem takeable_of_pendingInterrupt (pending : vm.pendingInterrupt = some cause) :
    vm.cpu.Takeable cause := by
  rw [pendingInterrupt, interruptPriorities_eq] at pending
  split at pending
  · dsimp only at pending
    rw [List.find?_map] at pending
    obtain ⟨⟨flag, named⟩, found, rfl⟩ := Option.map_eq_some_iff.1 pending
    obtain ⟨taken, search, same⟩ := Option.map_eq_some_iff.1 found
    obtain ⟨rfl, rfl⟩ := Prod.mk.inj same
    have chosen := List.find?_some search
    exact (vm.selects_iff taken).1 (of_decide_eq_true chosen)
  · cases pending

theorem devicePending_external (quiet : vm.mmio.plic.pending = fun _ => 0)
    (external : InterruptCause.External cause) (mtime mip : Word) :
    (vm.devicePending mtime mip).getLsbD cause.code.toNat = false := by
  have meip : IsBit Interrupt.meip 11 := ⟨by decide, rfl⟩
  have seip : IsBit Interrupt.seip 9 := ⟨by decide, rfl⟩
  simp only [devicePending, quiet]
  rcases external with rfl | rfl
  · show (setFlag _ _ _).getLsbD 11 = false
    rw [getLsbD_setFlag_of_not (by decide), getLsbD_setFlag_of_not (by decide),
      meip.getLsbD_setFlag]
    simp
  · show (setFlag _ _ _).getLsbD 9 = false
    rw [getLsbD_setFlag_of_not (by decide), seip.getLsbD_setFlag]
    simp

theorem not_takeable_external (quiet : vm.mmio.plic.pending = fun _ => 0)
    (ticks : vm.tickDevices = some ticked) (external : InterruptCause.External cause) :
    ¬ ticked.cpu.Takeable cause := by
  simp only [tickDevices] at ticks
  obtain ⟨processed, -, rfl⟩ := Option.map_eq_some_iff.1 ticks
  rintro ⟨raised, -, -⟩
  have single : IsBit cause.flag cause.code.toNat := ⟨by cases cause <;> decide, rfl⟩
  rw [single.and_ne_zero] at raised
  have written : ∀ (csrs : CsrFile) (val : Word),
      (csrs.writeUnchecked Addr.mip val).readUnchecked Addr.mip = val := fun _ _ => rfl
  rw [written, devicePending_external quiet external] at raised
  cases raised

/-- In a run from a machine whose controller has no pending source no source ever
becomes pending, and no step takes an external interrupt, whatever the guest and
the block devices do. -/
theorem no_external_interrupt {start : Vm} {steps : List Vm} (run : Run start steps vm)
    (quiet : start.mmio.plic.pending = fun _ => 0) :
    (∀ context, vm.mmio.plic.hasPending context = false) ∧
      ∀ ticked cause, vm.tick = some ticked → ticked.pendingInterrupt = some cause →
        ¬ InterruptCause.External cause := by
  have stillQuiet : vm.mmio.plic.pending = fun _ => 0 := run.evolves.pending.trans quiet
  constructor
  · intro context
    rw [PlicDevice.hasPending, stillQuiet]
    simp
  · intro ticked cause ticks pending external
    rw [tick] at ticks
    split at ticks
    · exact not_takeable_external stillQuiet ticks external
        (takeable_of_pendingInterrupt pending)
    · rename_i unprivileged
      cases ticks
      rw [pendingInterrupt, if_neg unprivileged] at pending
      cases pending

/-- `lui x1, 0xC002` and `sw x1, 0(x1)`, which enable sources for context 0. -/
def enablingVm : Vm :=
  .newPrivileged .new ((Memory.new.storeWord 0 0x0C0020B7).storeWord 4 0x0010A023)

theorem no_external_interrupt_enabling : ∃ steps after, Run enablingVm steps after ∧
    steps.length = 2 ∧ after.mmio.plic.enable 0 0 = 0x0C002000 ∧
    (∀ context, after.mmio.plic.hasPending context = false) ∧
      ∀ ticked cause, after.tick = some ticked → ticked.pendingInterrupt = some cause →
        ¬ InterruptCause.External cause := by
  have ran : (enablingVm.step.bind fun one => one.1.step.map fun two =>
      two.1.mmio.plic.enable 0 0) = some 0x0C002000 := by
    decide
  obtain ⟨⟨middle, first⟩, loads, rest⟩ := Option.bind_eq_some_iff.1 ran
  obtain ⟨⟨after, second⟩, stores, enabled⟩ := Option.map_eq_some_iff.1 rest
  have run := Run.step (Run.step .refl loads) stores
  exact ⟨_, after, run, rfl, enabled, no_external_interrupt run rfl⟩

end Vm

/-! Claims of a context. -/

namespace PlicDevice

/-- Whether a bitmap has the bit of a source. -/
def flagged (bitmap : Fin 2 → BitVec 32) (source : Fin 64) : Bool :=
  (bitmap (wordOf source)).getLsbD (source.val % 32)

theorem flagged_iff (bitmap : Fin 2 → BitVec 32) (source : Fin 64) :
    (bitmap (wordOf source) >>> (source.val % 32)) &&& 1 ≠ 0 ↔
      flagged bitmap source = true := by
  have one : (1 : BitVec 32) = BitVec.twoPow 32 0 := rfl
  rw [flagged, one, BitVec.and_twoPow, BitVec.getLsbD_ushiftRight, Nat.add_zero]
  cases (bitmap (wordOf source)).getLsbD (source.val % 32) with
  | true => decide
  | false => decide

/-- A context can claim a source that is pending, enabled and above its threshold. -/
structure Claimable (plic : PlicDevice) (context : Fin 2) (source : Fin 64) : Prop where
  real : source ≠ 0
  pending : flagged plic.pending source = true
  enabled : flagged (plic.enable context) source = true
  above : plic.threshold context < plic.priority source

/-- The source that a context claims among some of them: it has the highest priority,
and the lowest number of those. -/
structure Best (plic : PlicDevice) (context : Fin 2) (sources : List (Fin 64))
    (source : Fin 64) : Prop where
  listed : source ∈ sources
  claimable : plic.Claimable context source
  highest : ∀ other ∈ sources, plic.Claimable context other →
    plic.priority other ≤ plic.priority source
  first : ∀ other ∈ sources, other < source → plic.Claimable context other →
    plic.priority other < plic.priority source

variable {plic : PlicDevice} {context : Fin 2}

theorem hasPending_iff :
    plic.hasPending context = true ↔ ∃ source, plic.Claimable context source := by
  rw [hasPending, List.any_eq_true]
  constructor
  · rintro ⟨source, -, holds⟩
    obtain ⟨real, pending, enabled, above⟩ := of_decide_eq_true holds
    exact ⟨source, real, (flagged_iff _ _).1 pending, (flagged_iff _ _).1 enabled, above⟩
  · rintro ⟨source, real, pending, enabled, above⟩
    refine ⟨source, List.mem_finRange source, decide_eq_true ?_⟩
    exact ⟨real, (flagged_iff _ _).2 pending, (flagged_iff _ _).2 enabled, above⟩

theorem betterSource_eq {best : Fin 64 × BitVec 32} {source : Fin 64} (real : source ≠ 0) :
    (plic.Claimable context source ∧ best.2 < plic.priority source ∧
        plic.betterSource context best source = (source, plic.priority source)) ∨
      (¬ (plic.Claimable context source ∧ best.2 < plic.priority source) ∧
        plic.betterSource context best source = best) := by
  unfold betterSource
  split
  · rename_i holds
    obtain ⟨pending, enabled, above, better⟩ := holds
    exact .inl ⟨⟨real, (flagged_iff _ _).1 pending, (flagged_iff _ _).1 enabled, above⟩,
      better, rfl⟩
  · rename_i fails
    refine .inr ⟨?_, rfl⟩
    rintro ⟨claimable, better⟩
    exact fails ⟨(flagged_iff _ _).2 claimable.pending, (flagged_iff _ _).2 claimable.enabled,
      claimable.above, better⟩

theorem forall_mem_concat {property : Fin 64 → Prop} {sources : List (Fin 64)} {last : Fin 64}
    (init : ∀ other ∈ sources, property other) (final : property last) :
    ∀ other ∈ sources ++ [last], property other := by
  intro other member
  rcases List.mem_append.1 member with inside | inside
  · exact init other inside
  · rw [List.mem_singleton.1 inside]
    exact final

section Best

variable {sources : List (Fin 64)} {source last : Fin 64}

/-- The last source is the best if its priority is above all others. -/
theorem best_last (claimable : plic.Claimable context last)
    (overtakes : ∀ other ∈ sources, plic.Claimable context other →
      plic.priority other < plic.priority last) :
    plic.Best context (sources ++ [last]) last where
  listed := List.mem_append_right _ (List.mem_singleton_self last)
  claimable := claimable
  highest := forall_mem_concat
    (fun other member can => BitVec.le_of_lt (overtakes other member can))
    fun _ => BitVec.le_refl _
  first := forall_mem_concat (fun other member _ can => overtakes other member can)
    fun less => absurd less (lt_irrefl last)

/-- The best source stays the best before a later one that does not overtake it. -/
theorem Best.concat (best : plic.Best context sources source) (later : source < last)
    (fails : ¬ (plic.Claimable context last ∧ plic.priority source < plic.priority last)) :
    plic.Best context (sources ++ [last]) source where
  listed := List.mem_append_left _ best.listed
  claimable := best.claimable
  highest := forall_mem_concat best.highest fun claimable =>
    BitVec.not_lt.1 fun better => fails ⟨claimable, better⟩
  first := forall_mem_concat best.first fun less => absurd less (lt_asymm later)

end Best

/-- The search over sources in ascending order. -/
theorem foldl_betterSource {sources : List (Fin 64)} (sorted : sources.Pairwise (· < ·))
    (real : ∀ source ∈ sources, source ≠ 0) :
    ((∀ source ∈ sources, ¬ plic.Claimable context source) ∧
        sources.foldl (plic.betterSource context) (0, 0) = (0, 0)) ∨
      ∃ source, plic.Best context sources source ∧
        sources.foldl (plic.betterSource context) (0, 0) = (source, plic.priority source) := by
  induction sources using List.reverseRecOn with
  | nil => exact .inl ⟨fun _ member => absurd member List.not_mem_nil, rfl⟩
  | append_singleton sources last hypothesis =>
      obtain ⟨before, -, below⟩ := List.pairwise_append.1 sorted
      have lastReal := real last (List.mem_append_right _ (List.mem_singleton_self last))
      have searched := hypothesis before fun source member =>
        real source (List.mem_append_left _ member)
      rw [List.foldl_append, List.foldl_cons, List.foldl_nil]
      rcases searched with ⟨none, found⟩ | ⟨source, best, found⟩
      · rw [found]
        rcases @betterSource_eq plic context (0, 0) last lastReal with
          ⟨claimable, -, same⟩ | ⟨fails, same⟩
        · have overtakes : ∀ other ∈ sources, plic.Claimable context other →
              plic.priority other < plic.priority last :=
            fun other member can => absurd can (none other member)
          exact .inr ⟨last, best_last claimable overtakes, same⟩
        · refine .inl ⟨forall_mem_concat none fun claimable => fails ⟨claimable, ?_⟩, same⟩
          have above := claimable.above
          rw [BitVec.lt_def] at above ⊢
          exact lt_of_le_of_lt (Nat.zero_le _) above
      · rw [found]
        rcases @betterSource_eq plic context (source, plic.priority source) last lastReal with
          ⟨claimable, better, same⟩ | ⟨fails, same⟩
        · have overtakes : ∀ other ∈ sources, plic.Claimable context other →
              plic.priority other < plic.priority last := by
            intro other member can
            have most := best.highest other member can
            rw [BitVec.le_def] at most
            rw [BitVec.lt_def] at better ⊢
            exact lt_of_le_of_lt most better
          exact .inr ⟨last, best_last claimable overtakes, same⟩
        · have later : source < last := below source best.listed last (List.mem_singleton_self last)
          exact .inr ⟨source, best.concat later fails, same⟩

/-- The sources that can be claimed at all. -/
def realSources : List (Fin 64) := (List.finRange 64).tail

theorem sorted_realSources : realSources.Pairwise (· < ·) := by decide

theorem mem_realSources (source : Fin 64) : source ∈ realSources ↔ source ≠ 0 := by
  revert source
  decide

/-- What a bitmap shows of a source when the bit of another, or of itself, is set. -/
theorem flagged_update (bitmap : Fin 2 → BitVec 32) (source other : Fin 64)
    (change : BitVec 32 → BitVec 32) (value : Bool)
    (changes : ∀ (word : BitVec 32) (index : ℕ), index < 32 →
      (change word).getLsbD index =
        if index = source.val % 32 then value else word.getLsbD index) :
    flagged (Function.update bitmap (wordOf source) (change (bitmap (wordOf source)))) other =
      if other = source then value else flagged bitmap other := by
  have inside : other.val % 32 < 32 := Nat.mod_lt _ (by decide)
  unfold flagged
  by_cases same : wordOf other = wordOf source
  · rw [same, Function.update_self, changes _ _ inside]
    have index : other.val % 32 = source.val % 32 ↔ other = source := by
      have words := Fin.val_eq_of_eq same
      simp only [wordOf, Fin.val_ofNat] at words
      rw [Fin.ext_iff]
      omega
    simp only [index]
  · rw [Function.update_of_ne same]
    have differ : other ≠ source := fun equal => same (congrArg wordOf equal)
    rw [if_neg differ]

/-- The machine of a claim: the source is not pending any more. -/
def taken (plic : PlicDevice) (context : Fin 2) (source : Fin 64) : PlicDevice :=
  { plic with
    pending := Function.update plic.pending (wordOf source)
      (plic.pending (wordOf source) &&& ~~~((1 : BitVec 32) <<< (source.val % 32)))
    claimed := Function.update plic.claimed context (BitVec.ofNat 32 source.val) }

theorem flagged_taken (plic : PlicDevice) (context : Fin 2) (source other : Fin 64) :
    flagged (plic.taken context source).pending other =
      if other = source then false else flagged plic.pending other := by
  apply flagged_update plic.pending source other
    fun word => word &&& ~~~((1 : BitVec 32) <<< (source.val % 32))
  intro word index inside
  have one : (1 : BitVec 32) <<< (source.val % 32) = BitVec.twoPow 32 (source.val % 32) :=
    (BitVec.twoPow_eq _ _).symm
  rw [one, BitVec.getLsbD_and, BitVec.getLsbD_not, BitVec.getLsbD_twoPow]
  by_cases here : index = source.val % 32
  · simp [here]
  · simp [here, inside, Ne.symm here]

/-- A context claims the best source, which stops being pending for both contexts,
or nothing when no source is pending for it. -/
theorem claim_cases (plic : PlicDevice) (context : Fin 2) :
    (plic.hasPending context = false ∧ plic.claim context = (0, plic)) ∨
      plic.hasPending context = true ∧ ∃ source, plic.Best context realSources source ∧
        plic.claim context = (BitVec.ofNat 32 source.val, plic.taken context source) := by
  have searched := @foldl_betterSource plic context realSources sorted_realSources
    fun source => (mem_realSources source).1
  rcases searched with ⟨none, found⟩ | ⟨source, best, found⟩
  · left
    constructor
    · rw [Bool.eq_false_iff]
      intro pending
      obtain ⟨source, claimable⟩ := hasPending_iff.1 pending
      exact none source ((mem_realSources source).2 claimable.real) claimable
    · have zero : plic.bestSource context = 0 := congrArg Prod.fst found
      simp only [claim, zero]
      rfl
  · right
    refine ⟨hasPending_iff.2 ⟨source, best.claimable⟩, source, best, ?_⟩
    have chosen : plic.bestSource context = source := congrArg Prod.fst found
    simp only [claim, chosen, if_pos best.claimable.real]
    rfl

theorem toNat_number (source : Fin 64) : (BitVec.ofNat 32 source.val).toNat = source.val := by
  rw [BitVec.toNat_ofNat]
  exact Nat.mod_eq_of_lt (source.isLt.trans (by decide))

theorem number_ne_zero {source : Fin 64} (real : source ≠ 0) : BitVec.ofNat 32 source.val ≠ 0 := by
  intro zero
  have value := congrArg BitVec.toNat zero
  rw [toNat_number] at value
  exact real (Fin.ext value)

/-- Claiming returns nothing exactly when no source is pending for the context, and
changes nothing then. Otherwise it returns the best source, which is the only one it
takes out of the pending ones. -/
theorem claim_takes_best (plic : PlicDevice) (context : Fin 2) :
    ((plic.claim context).1 = 0 ↔ plic.hasPending context = false) ∧
      (plic.hasPending context = false → (plic.claim context).2 = plic) ∧
      (plic.hasPending context = true → ∃ source,
        (plic.claim context).1 = BitVec.ofNat 32 source.val ∧
          plic.Best context realSources source ∧
          (∀ other, flagged (plic.claim context).2.pending other =
            if other = source then false else flagged plic.pending other) ∧
          (plic.claim context).2 = plic.taken context source) := by
  rcases plic.claim_cases context with ⟨idle, same⟩ | ⟨pending, best, isBest, same⟩
  · rw [same]
    refine ⟨iff_of_true rfl idle, fun _ => rfl, ?_⟩
    intro pending
    rw [idle] at pending
    cases pending
  · rw [same]
    have some : plic.hasPending context ≠ false := by
      rw [pending]
      exact Bool.noConfusion
    refine ⟨iff_of_false (number_ne_zero isBest.claimable.real) some,
      fun idle => absurd idle some, fun _ => ?_⟩
    exact ⟨best, rfl, isBest, plic.flagged_taken context best, rfl⟩

/-! Runs of the controller, against the set of sources that are pending. -/

/-- Sources zero and from 64 on do not exist. -/
def setPending (plic : PlicDevice) (source : BitVec 32) : PlicDevice :=
  if source = 0 ∨ 64 ≤ source then plic
  else
    let index : Fin 64 := Fin.ofNat 64 source.toNat
    { plic with
      pending := Function.update plic.pending (wordOf index)
        (plic.pending (wordOf index) ||| (1 : BitVec 32) <<< (index.val % 32)) }

def complete (plic : PlicDevice) (_context : Fin 2) (_source : BitVec 32) : PlicDevice := plic

/-- What the devices and the two contexts do to the controller. -/
inductive Op
  | setPending (source : BitVec 32)
  | claim (context : Fin 2)
  | complete (context : Fin 2) (source : BitVec 32)
  | readU32 (offset : Word)
  | readU8 (offset : Word)
  | writeU32 (offset : Word) (val : BitVec 32)
  | writeU8 (offset : Word) (val : Byte)

inductive Event
  | raised (source : Fin 64)
  | claimed (source : Fin 64)
deriving DecidableEq

def raiseEvent (source : BitVec 32) : Option Event :=
  if source = 0 ∨ 64 ≤ source then none else some (.raised (Fin.ofNat 64 source.toNat))

def claimEvent (number : BitVec 32) : Option Event :=
  if number = 0 then none else some (.claimed (Fin.ofNat 64 number.toNat))

/-- Reading the word of a claim register claims, reading a byte of it does not. -/
def step (plic : PlicDevice) : Op → PlicDevice × Option Event
  | .setPending source => (plic.setPending source, raiseEvent source)
  | .claim context => ((plic.claim context).2, claimEvent (plic.claim context).1)
  | .complete context source => (plic.complete context source, none)
  | .readU32 offset =>
      ((plic.readU32 offset).2,
        if offset = contextBaseOf 0 + 4 ∨ offset = contextBaseOf 1 + 4 then
          claimEvent (plic.readU32 offset).1
        else none)
  | .readU8 _ => (plic, none)
  | .writeU32 offset val => (plic.writeU32 offset val, none)
  | .writeU8 offset val => (plic.writeU8 offset val, none)

def run (plic : PlicDevice) : List Op → PlicDevice × List Event
  | [] => (plic, [])
  | op :: ops =>
      let (next, event) := plic.step op
      let (last, events) := next.run ops
      (last, event.toList ++ events)

/-- A set of sources, into which a raise puts a source and out of which a claim takes
one that was in it. -/
inductive SourceStep (pending next : Fin 64 → Bool) : Option Event → Prop
  | quiet (same : next = pending) : SourceStep pending next none
  | raised {source : Fin 64} (same : next = Function.update pending source true) :
      SourceStep pending next (some (.raised source))
  | claimed {source : Fin 64} (was : pending source = true)
      (same : next = Function.update pending source false) :
      SourceStep pending next (some (.claimed source))

theorem flagged_setPending {source : BitVec 32} (real : ¬ (source = 0 ∨ 64 ≤ source)) :
    flagged (plic.setPending source).pending =
      Function.update (flagged plic.pending) (Fin.ofNat 64 source.toNat) true := by
  funext other
  rw [setPending, if_neg real, Function.update_apply]
  apply flagged_update plic.pending (Fin.ofNat 64 source.toNat) other
    fun word => word ||| (1 : BitVec 32) <<< ((Fin.ofNat 64 source.toNat).val % 32)
  intro word index inside
  have one : (1 : BitVec 32) <<< ((Fin.ofNat 64 source.toNat).val % 32) =
      BitVec.twoPow 32 ((Fin.ofNat 64 source.toNat).val % 32) := (BitVec.twoPow_eq _ _).symm
  rw [one, BitVec.getLsbD_or, BitVec.getLsbD_twoPow]
  by_cases here : index = (Fin.ofNat 64 source.toNat).val % 32
  · rw [if_pos here, ← here]
    simp [inside]
  · have apart : (Fin.ofNat 64 source.toNat).val % 32 ≠ index := Ne.symm here
    rw [if_neg here, decide_eq_false apart, Bool.and_false, Bool.or_false]

theorem sourceStep_claim (plic : PlicDevice) (context : Fin 2) :
    SourceStep (flagged plic.pending) (flagged (plic.claim context).2.pending)
      (claimEvent (plic.claim context).1) := by
  rcases plic.claim_cases context with ⟨-, same⟩ | ⟨-, source, best, same⟩
  · rw [same]
    exact .quiet rfl
  · have event : claimEvent (BitVec.ofNat 32 source.val) = some (.claimed source) := by
      rw [claimEvent, if_neg (number_ne_zero best.claimable.real), toNat_number]
      congr 2
      exact Fin.ext (Nat.mod_eq_of_lt source.isLt)
    rw [same, event]
    refine .claimed best.claimable.pending ?_
    funext other
    rw [plic.flagged_taken context source, Function.update_apply]

theorem readU32_claim (plic : PlicDevice) :
    ∀ context, plic.readU32 (contextBaseOf context + 4) = plic.claim context :=
  Fin.forall_fin_two.2 ⟨rfl, rfl⟩

theorem pending_writeU32 (plic : PlicDevice) (offset : Word) (val : BitVec 32) :
    (plic.writeU32 offset val).pending = plic.pending := by
  simp only [writeU32]
  repeat' split
  all_goals rfl

/-- The controller does what the set of its pending sources does. -/
theorem step_refines (plic : PlicDevice) (op : Op) :
    SourceStep (flagged plic.pending) (flagged (plic.step op).1.pending) (plic.step op).2 := by
  cases op with
  | setPending source =>
      by_cases real : source = 0 ∨ 64 ≤ source
      · simp only [step, setPending, raiseEvent, if_pos real]
        exact .quiet rfl
      · simp only [step, raiseEvent, if_neg real]
        exact .raised (flagged_setPending real)
  | claim context => exact plic.sourceStep_claim context
  | complete context source => exact .quiet rfl
  | readU32 offset =>
      by_cases claims : IsClaim offset
      · obtain ⟨context, rfl⟩ := claims
        have isClaim : contextBaseOf context + 4 = contextBaseOf 0 + 4 ∨
            contextBaseOf context + 4 = contextBaseOf 1 + 4 := by
          revert context
          decide
        simp only [step, if_pos isClaim, readU32_claim]
        exact plic.sourceStep_claim context
      · have other : ¬ (offset = contextBaseOf 0 + 4 ∨ offset = contextBaseOf 1 + 4) := by
          rintro (first | second)
          · exact claims ⟨0, first⟩
          · exact claims ⟨1, second⟩
        simp only [step, if_neg other, plic.readU32_eq claims]
        exact .quiet rfl
  | readU8 offset => exact .quiet rfl
  | writeU32 offset val =>
      refine .quiet ?_
      show flagged (plic.writeU32 offset val).pending = _
      rw [pending_writeU32]
  | writeU8 offset val =>
      refine .quiet ?_
      show flagged (plic.writeU8 offset val).pending = _
      rw [pending_writeU8]

/-- Whether a source is pending after an event. -/
def pendingAfter (source : Fin 64) (pending : Bool) : Event → Bool
  | .raised other => pending || other = source
  | .claimed other => pending && other ≠ source

section Events

variable {pending next : Fin 64 → Bool} {event : Option Event}

theorem SourceStep.pending_eq (step : SourceStep pending next event) (source : Fin 64) :
    next source = event.toList.foldl (pendingAfter source) (pending source) := by
  cases step with
  | quiet same => rw [same, Option.toList_none, List.foldl_nil]
  | @raised raised same =>
      rw [same, Function.update_apply, Option.toList_some, List.foldl_cons, List.foldl_nil,
        pendingAfter]
      by_cases here : source = raised
      · rw [if_pos here, decide_eq_true here.symm, Bool.or_true]
      · rw [if_neg here, decide_eq_false (Ne.symm here), Bool.or_false]
  | @claimed claimed was same =>
      rw [same, Function.update_apply, Option.toList_some, List.foldl_cons, List.foldl_nil,
        pendingAfter]
      by_cases here : source = claimed
      · rw [if_pos here, decide_eq_false (not_not_intro here.symm), Bool.and_false]
      · rw [if_neg here, decide_eq_true (Ne.symm here), Bool.and_true]

/-- A claim is paid for by the source that was pending. -/
theorem SourceStep.count_claimed_le (step : SourceStep pending next event) (source : Fin 64) :
    event.toList.count (.claimed source) + (next source).toNat ≤
      event.toList.count (.raised source) + (pending source).toNat := by
  cases step with
  | quiet same =>
      rw [same]
      exact le_rfl
  | @raised raised same =>
      rw [same, Function.update_apply, Option.toList_some, List.count_singleton,
        List.count_singleton]
      by_cases here : source = raised
      · subst here
        simp
      · simp [here, Ne.symm here]
  | @claimed claimed was same =>
      rw [same, Function.update_apply, Option.toList_some, List.count_singleton,
        List.count_singleton]
      by_cases here : source = claimed
      · subst here
        simp [was]
      · simp [here, Ne.symm here]

end Events

/-- Over every sequence of raises, claims of both contexts and register accesses, a
source is pending exactly when it was raised after its last claim, and it is not
claimed more often than it was raised. -/
theorem claims_follow_raises (plic : PlicDevice) (ops : List Op) (source : Fin 64) :
    flagged (plic.run ops).1.pending source =
        (plic.run ops).2.foldl (pendingAfter source) (flagged plic.pending source) ∧
      (plic.run ops).2.count (.claimed source) +
          (flagged (plic.run ops).1.pending source).toNat ≤
        (plic.run ops).2.count (.raised source) + (flagged plic.pending source).toNat := by
  induction ops generalizing plic with
  | nil => exact ⟨rfl, le_rfl⟩
  | cons op ops hypothesis =>
      obtain ⟨later, bounded⟩ := hypothesis (plic.step op).1
      have stepped := plic.step_refines op
      have counted := stepped.count_claimed_le source
      simp only [run]
      rw [List.foldl_append, List.count_append, List.count_append, ← stepped.pending_eq source]
      refine ⟨later, ?_⟩
      omega

end PlicDevice

end MetaVm.Riscv
