import MetaVm.Riscv.Encode
import MetaVm.Riscv.Machine.Stepping
import MetaVm.Riscv.Machine.Translation

namespace MetaVm.Riscv.Vm

/-! Whether an access leaves its page table entry marked. -/

/-- A step of a machine translates an address on the machine `before`: to fetch, or for the
access of the instruction that it fetched. -/
inductive Translates (vm : Vm) : Vm → Word → AccessType → Prop
  | fetch {prepared : Vm} (running : vm.halted = false) (prepares : vm.prepare = some prepared) :
      Translates vm { prepared with lastFetched := none } prepared.cpu.pc .execute
  | data {prepared ready : Vm} {fetched : FetchedInstruction} {vaddr : Word}
      {accessType : AccessType} (running : vm.halted = false)
      (prepares : vm.prepare = some prepared) (fetches : prepared.fetch = .fetched ready fetched)
      (accesses : ready.dataAccess fetched.instruction = some (vaddr, accessType)) :
      Translates vm ready vaddr accessType

/-- The address space register that translations go by. -/
def satp (vm : Vm) : Word := vm.cpu.csrs.readUnchecked Addr.satp

/-- Every translation of a step that succeeds leaves the entry that maps the page marked. -/
def MarksPages (vm : Vm) : Prop :=
  ∀ before vaddr accessType translated pa, vm.Translates before vaddr accessType →
    before.translationActive = true →
      before.translateAddr vaddr accessType = (translated, some pa) →
        Marked translated.memory before.satp vaddr accessType

/-- Every translation of a step that is answered from the translation cache finds the entry
that maps the page marked already. -/
def HitsMarkedPages (vm : Vm) : Prop :=
  ∀ before vaddr accessType pa, vm.Translates before vaddr accessType →
    before.translationActive = true → before.tlbLookup vaddr accessType before.satp = some pa →
      Marked before.memory before.satp vaddr accessType

variable {vm translated : Vm} {vaddr pa : Word} {accessType : AccessType}

theorem translateAddr_of_hit (hit : vm.tlbLookup vaddr accessType vm.satp = some pa) :
    vm.translateAddr vaddr accessType = (vm, some pa) := by
  rw [satp] at hit
  simp only [translateAddr, hit]

/-- A translation that misses the cache marks the entry. -/
theorem translateAddr_marks_of_miss (active : vm.translationActive = true)
    (miss : vm.tlbLookup vaddr accessType vm.satp = none)
    (ok : vm.translateAddr vaddr accessType = (translated, some pa)) :
    Marked translated.memory vm.satp vaddr accessType := by
  have mode : (vm.satp >>> 60) &&& 0xF ≠ 0 := (of_decide_eq_true active).2.1
  rw [satp] at miss
  simp only [translateAddr, miss] at ok
  split at ok
  · rename_i found walked
    have marks := translate_marks walked mode
    obtain ⟨rfl, -⟩ := Prod.mk.inj ok
    exact marks
  · cases (Prod.mk.inj ok).2

/-- A step marks the pages of its accesses exactly where its cache hits are on marked pages. -/
theorem marksPages_iff (vm : Vm) : vm.MarksPages ↔ vm.HitsMarkedPages := by
  constructor
  · intro marks before vaddr accessType pa translates active hit
    exact marks before vaddr accessType before pa translates active (translateAddr_of_hit hit)
  · intro hits before vaddr accessType translated pa translates active ok
    cases lookup : before.tlbLookup vaddr accessType before.satp with
    | none => exact translateAddr_marks_of_miss active lookup ok
    | some cached =>
        rw [translateAddr_of_hit lookup] at ok
        cases ok
        exact hits before vaddr accessType _ translates active lookup

/-- A supervisor program that stores a double word to its own page, which a clean gigapage
entry maps. -/
def cleanPageVm : Vm :=
  let csrs := CsrFile.new.writeUnchecked Addr.satp ((8 <<< 60) ||| 1)
  .newPrivileged { CpuState.new with privMode := .supervisor, csrs := csrs }
    ((Memory.new.storeDouble 0x1000 0xF).storeWord 0 (Instruction.store .sd 0 6 0x700).encode)

/-- The fetch caches the page, and the store, which hits the cache, leaves it clean. -/
theorem store_leaves_page_clean :
    ¬ ∀ (start : Vm) (steps : List Vm) (vm : Vm), start.privileged = true →
      Run start steps vm → vm.MarksPages := by
  intro marks
  have ran : (cleanPageVm.prepare.bind fun prepared =>
      match prepared.fetch with
      | .fetched ready fetched =>
          some (ready.dataAccess fetched.instruction, ready.translationActive,
            ready.tlbLookup 0x700 .write ready.satp,
            (mappingEntry ready.memory ready.satp 0x700).map fun entry => entry.2.dirty)
      | _ => none) = some (some (0x700, .write), true, some 0x700, some false) := by
    decide +kernel
  obtain ⟨prepared, prepares, rest⟩ := Option.bind_eq_some_iff.1 ran
  split at rest
  · rename_i ready fetched fetches
    simp only [Option.some.injEq, Prod.mk.injEq] at rest
    obtain ⟨accesses, active, hit, clean⟩ := rest
    obtain ⟨entry, maps, isClean⟩ := Option.map_eq_some_iff.1 clean
    obtain ⟨pteAddr, pte, alsoMaps, -, dirty⟩ :=
      marks cleanPageVm [] cleanPageVm rfl .refl ready 0x700 .write ready 0x700
        (.data rfl prepares fetches accesses) active (translateAddr_of_hit hit)
    cases maps.symm.trans alsoMaps
    rw [dirty rfl] at isClean
    cases isClean
  · cases rest

end MetaVm.Riscv.Vm
