import MetaVm.Riscv.Machine.TlbSoundness

namespace MetaVm.Riscv

/-! What marks the pages that stay in the translation cache, over the history of a run. -/

/-- The entry that maps a page shows every access that the cached entry allows. -/
def TlbEntry.Shows (entry : TlbEntry) (memory : Memory) : Prop :=
  ∀ (vaddr : Word) accessType, vaddr >>> 12 = entry.vpn → entry.allows accessType = true →
    Marked memory entry.satp vaddr accessType

/-- The page is dirty, or it cannot be written. -/
def DirtyIfWritable (memory : Memory) (satp vaddr : Word) : Prop :=
  ∀ pteAddr pte, mappingEntry memory satp vaddr = some (pteAddr, pte) → pte.write = true →
    pte.dirty = true

theorem mappingEntry_pageBase (memory : Memory) (satp vaddr : Word) :
    mappingEntry memory satp (pageBase vaddr) = mappingEntry memory satp vaddr := by
  rw [mappingEntry, mappingEntry, leafEntry_pageBase, pageBase_shift vaddr 26,
    pageBase_shift vaddr 27]

section Updates

variable {memory after : Memory} {satp space vaddr : Word} {access : Access}
  {accessType : AccessType} {found : Translation} {pteAddr : Word} {pte : PageTableEntry}

theorem mappingEntry_eq_some : mappingEntry memory satp vaddr = some (pteAddr, pte) ↔
    (satp >>> 60) &&& 0xF = 8 ∧ Sv39.CanonicalAddress vaddr ∧ ∃ level,
      leafEntry memory vaddr 2 (Sv39.rootTable satp) = some (level, pteAddr, pte) ∧
        pte.misaligned level = false := by
  rw [mappingEntry, canonical_iff]
  split_ifs with mode low high
  · exact iff_of_false (by rintro ⟨⟩) fun goes => mode goes.1
  · exact iff_of_false (by rintro ⟨⟩) fun goes => goes.2.1.1 low
  · exact iff_of_false (by rintro ⟨⟩) fun goes => goes.2.1.2 high
  · refine Iff.trans ?_ (and_iff_right (not_not.1 mode)).symm
    refine Iff.trans ?_ (and_iff_right ⟨low, high⟩).symm
    rw [rootTable_eq]
    cases leafEntry memory vaddr 2 (Sv39.rootTable satp) with
    | none => exact iff_of_false (by rintro ⟨⟩) (by rintro ⟨level, ⟨⟩, -⟩)
    | some leaf =>
        obtain ⟨level, slot, entry⟩ := leaf
        dsimp only
        constructor
        · intro maps
          split at maps
          · cases maps
          · rename_i aligned
            cases maps
            exact ⟨level, rfl, Bool.eq_false_of_not_eq_true aligned⟩
        · rintro ⟨level, same, aligned⟩
          cases same
          exact if_neg (ne_true_of_eq_false aligned)

/-- A page is mapped by the same entry in tables that map the same. -/
theorem mappingEntry_of_same (same : SameTables memory after space)
    (maps : mappingEntry memory space vaddr = some (pteAddr, pte)) :
    pte = ⟨memory.loadDouble pteAddr⟩ ∧ 8 ∣ pteAddr.toNat ∧
      pte.SameMapping ⟨after.loadDouble pteAddr⟩ ∧
        mappingEntry after space vaddr = some (pteAddr, ⟨after.loadDouble pteAddr⟩) := by
  obtain ⟨mode, canonical, level, finds, aligned⟩ := mappingEntry_eq_some.1 maps
  obtain ⟨other, otherFinds, mapping⟩ := leafEntry_of_same (same vaddr) finds
  obtain ⟨stands, -, slotAligned⟩ := leafEntry_stands finds (table_aligned _)
  obtain ⟨rfl, -, -⟩ := leafEntry_stands otherFinds (table_aligned _)
  exact ⟨stands, slotAligned, mapping, mappingEntry_eq_some.2
    ⟨mode, canonical, level, otherFinds, (mapping.misaligned level).trans aligned⟩⟩

theorem pteUpdate_dirty {slot newVal : Word}
    (update : access.pteUpdate pteAddr pte = some (slot, newVal)) (dirty : pte.dirty = true) :
    PageTableEntry.dirty ⟨newVal⟩ = true := by
  rw [PageTableEntry.dirty_eq] at dirty ⊢
  simp only [Access.pteUpdate] at update
  split at update
  · simp only [Option.some.injEq, Prod.mk.injEq] at update
    obtain ⟨-, rfl⟩ := update
    split <;> simp [dirty]
  · cases update

/-- The update of a translation leaves a page to the same slot, and takes no mark off it. -/
theorem mappingEntry_update (ok : translate memory satp access = .ok found)
    (active : (satp >>> 60) &&& 0xF ≠ 0)
    (maps : mappingEntry memory space vaddr = some (pteAddr, pte)) :
    ∃ updated, mappingEntry (found.memory memory) space vaddr = some (pteAddr, updated) ∧
      (pte.accessed = true → updated.accessed = true) ∧
        (pte.dirty = true → updated.dirty = true) := by
  obtain ⟨stands, aligned, -, mapsAfter⟩ :=
    mappingEntry_of_same (sameTables_update ok active space) maps
  obtain ⟨level, slot, leaf, goes, rfl⟩ := goesThrough_of_translate active ok
  rw [Translation.memory] at mapsAfter ⊢
  dsimp only at mapsAfter ⊢
  cases update : access.pteUpdate slot leaf with
  | none => exact ⟨pte, maps, id, id⟩
  | some written =>
      obtain ⟨updatedSlot, newVal⟩ := written
      rw [update] at mapsAfter
      dsimp only at mapsAfter ⊢
      obtain ⟨rfl, -, newAccessed, -⟩ := pteUpdate_some update
      obtain ⟨leafStands, -, slotAligned⟩ := leafEntry_stands goes.finds (table_aligned _)
      refine ⟨_, mapsAfter, ?_⟩
      by_cases here : pteAddr = updatedSlot
      · rw [here] at stands ⊢
        rw [memory.loadDouble_storeDouble]
        rw [← leafStands] at stands
        exact ⟨fun _ => newAccessed, fun dirty => pteUpdate_dirty update (stands ▸ dirty)⟩
      · rw [memory.loadDouble_storeDouble_of_aligned newVal slotAligned aligned here, ← stands]
        exact ⟨id, id⟩

theorem marked_update (ok : translate memory satp access = .ok found)
    (active : (satp >>> 60) &&& 0xF ≠ 0) (marked : Marked memory space vaddr accessType) :
    Marked (found.memory memory) space vaddr accessType := by
  obtain ⟨pteAddr, pte, maps, accessed, dirty⟩ := marked
  obtain ⟨updated, mapsAfter, keepsAccessed, keepsDirty⟩ := mappingEntry_update ok active maps
  exact ⟨pteAddr, updated, mapsAfter, keepsAccessed accessed,
    fun isWrite => keepsDirty (dirty isWrite)⟩

theorem TlbEntry.Shows.update {entry : TlbEntry} (shows : entry.Shows memory)
    (ok : translate memory satp access = .ok found) (active : (satp >>> 60) &&& 0xF ≠ 0) :
    entry.Shows (found.memory memory) :=
  fun vaddr accessType page allowed => marked_update ok active (shows vaddr accessType page allowed)

/-- What a translation caches shows every access, if it is for a write or finds a page that is
dirty where it can be written. -/
theorem Translation.entry_shows {rights : Rights} {requested : AccessType}
    (active : (satp >>> 60) &&& 0xF ≠ 0)
    (ok : translate memory satp (rights.access vaddr requested) = .ok found)
    (dirties : requested = .write ∨ DirtyIfWritable memory satp vaddr) :
    (found.entry satp (rights.access vaddr requested)).Shows (found.memory memory) := by
  intro other accessType page allowed
  obtain ⟨pteAddr, pte, maps, accessed, writeDirties⟩ := translate_marks ok active
  have same : pageBase other = pageBase vaddr := pageBase_of_number page
  refine ⟨pteAddr, pte, ?_, accessed, ?_⟩
  · show mappingEntry _ satp other = _
    rw [← mappingEntry_pageBase, same, mappingEntry_pageBase]
    exact maps
  rintro rfl
  rcases dirties with isWrite | dirtyBefore
  · exact writeDirties isWrite
  obtain ⟨level, slot, leaf, goes, rfl⟩ := goesThrough_of_translate active ok
  have writable : leaf.write = true := by
    rw [leaf.write_eq, ← leafFlag_eq leaf (show ((4 : Byte), 2) ∈ _ by decide)]
    exact allowed
  have before : mappingEntry memory satp vaddr = some (slot, leaf) :=
    mappingEntry_eq_some.2 ⟨goes.mode, goes.canonical, level, goes.finds, goes.aligned⟩
  obtain ⟨updated, mapsAfter, -, keepsDirty⟩ := mappingEntry_update ok active before
  cases mapsAfter.symm.trans maps
  exact keepsDirty (dirtyBefore _ _ before writable)

end Updates

namespace Vm

/-- The cached pages show every access that the cache allows. -/
def CacheShows (vm : Vm) : Prop :=
  ∀ index entry, vm.tlb index = some entry → entry.Shows vm.memory

/-- An access that misses the cache is a write, or finds its page dirty or read-only. -/
def DirtiesFirst (vm : Vm) (vaddr : Word) (accessType : AccessType) : Prop :=
  vm.translationActive = true → vm.tlbLookup vaddr accessType vm.satp = none →
    accessType = .write ∨ DirtyIfWritable vm.memory vm.satp vaddr

/-- The first access to a page since the cache was flushed is a write, or finds the page dirty or
read-only. -/
def FirstTouchesDirty (vm : Vm) : Prop :=
  ∀ before vaddr accessType, vm.Translates before vaddr accessType →
    before.DirtiesFirst vaddr accessType

/-- Pages that stay in the cache keep their marks from one machine to another. -/
def KeepsMarks (before after : Vm) : Prop :=
  ∀ index entry, after.tlb index = some entry → entry.Shows before.memory →
    entry.Shows after.memory

/-- The machine that an instruction works on, with the address of its access translated. -/
def accessed (vm : Vm) (insn : Instruction) : Vm :=
  match vm.dataAccess insn with
  | some (vaddr, accessType) => (vm.translateFor vaddr accessType).1
  | none => vm

/-- Neither the devices nor the instruction of a step take marks off pages without a flush. -/
structure KeepsMarksStep (vm : Vm) : Prop where
  prepares : ∀ prepared, vm.prepare = some prepared → vm.KeepsMarks prepared
  executes : ∀ prepared ready fetched, vm.prepare = some prepared →
    prepared.fetch = .fetched ready fetched →
      (ready.accessed fetched.instruction).KeepsMarks prepared.stepInner.1

variable {vm translated prepared ready after : Vm} {vaddr pa : Word} {accessType : AccessType}
  {insn : Instruction}

theorem CacheShows.of_same (shows : vm.CacheShows) (tlb : after.tlb = vm.tlb)
    (memory : after.memory = vm.memory) : after.CacheShows := by
  intro index entry cached
  rw [tlb] at cached
  rw [memory]
  exact shows index entry cached

/-- A translation keeps what the cache shows, and shows what it caches. -/
theorem CacheShows.translateFor (shows : vm.CacheShows) (first : vm.DirtiesFirst vaddr accessType)
    (ok : vm.translateFor vaddr accessType = (translated, some pa)) : translated.CacheShows := by
  rw [Vm.translateFor] at ok
  split at ok
  · rename_i active
    cases lookup : vm.tlbLookup vaddr accessType vm.satp with
    | some cached =>
        rw [translateAddr_of_hit lookup] at ok
        cases ok
        exact shows
    | none =>
        have mode : (vm.satp >>> 60) &&& 0xF ≠ 0 := (of_decide_eq_true active).2.1
        rcases translateAddr_cases ok with rfl | ⟨found, walked, memory, -, tlb⟩
        · exact shows
        intro index entry cached
        rw [memory]
        rw [tlb] at cached
        rcases eq_or_ne index ((pageBase vaddr >>> 12).setWidth 8) with rfl | elsewhere
        · rw [Function.update_self] at cached
          rw [← Option.some.inj cached]
          exact Translation.entry_shows mode walked (first active lookup)
        · rw [Function.update_of_ne elsewhere] at cached
          exact (shows index entry cached).update walked mode
  · cases ok
    exact shows

/-- No translation takes a mark away. -/
theorem Shows.translateFor {entry : TlbEntry} (shows : entry.Shows vm.memory) :
    entry.Shows (vm.translateFor vaddr accessType).1.memory := by
  rw [Vm.translateFor]
  split
  · rename_i active
    have mode : (vm.satp >>> 60) &&& 0xF ≠ 0 := (of_decide_eq_true active).2.1
    cases result : vm.translateAddr vaddr accessType with
    | mk translated found =>
        cases found with
        | some pa =>
            rcases translateAddr_cases result with rfl | ⟨found, walked, memory, -, -⟩
            · exact shows
            · rw [memory]
              exact shows.update walked mode
        | none =>
            simp only [translateAddr] at result
            split at result
            · cases result
            · split at result
              · cases result
              · cases result
                exact shows
  · exact shows

theorem Shows.accessed {entry : TlbEntry} (shows : entry.Shows vm.memory) :
    entry.Shows (vm.accessed insn).memory := by
  rw [Vm.accessed]
  split
  · exact Shows.translateFor shows
  · exact shows

/-- Behind an instruction the cache shows what it did, if the marks are kept. -/
theorem CacheShows.execute (shows : ready.CacheShows)
    (first : ∀ vaddr accessType, ready.dataAccess insn = some (vaddr, accessType) →
      ready.DirtiesFirst vaddr accessType)
    {last : Vm} (tlb : last.tlb = (ready.execute insn).1.tlb)
    (keeps : (ready.accessed insn).KeepsMarks last) : last.CacheShows := by
  have kept (same : last.tlb = ready.tlb) : last.CacheShows := by
    intro index entry cached
    refine keeps index entry cached (Shows.accessed (shows index entry ?_))
    rw [← same]
    exact cached
  have emptied (empty : ∀ index, last.tlb index = none) : last.CacheShows := by
    intro index entry cached
    rw [empty index] at cached
    cases cached
  have effect := ready.execute_effect insn
  generalize (ready.execute insn).1 = after at effect tlb
  cases effect with
  | runs keepsControl => exact kept (tlb.trans keepsControl.tlb)
  | accesses target translates keepsControl =>
      have showsAfter := shows.translateFor (first _ _ target) translates
      intro index entry cached
      refine keeps index entry cached ?_
      rw [Vm.accessed, target]
      dsimp only
      rw [translates]
      rw [tlb, keepsControl.tlb] at cached
      exact showsAfter index entry cached
  | faults fault => exact kept (tlb.trans (translateFor_fault_tlb fault))
  | traps cause => exact kept tlb
  | writesCsr written keepsControl => exact kept (tlb.trans keepsControl.tlb)
  | returnsMachine => exact emptied fun index => congrFun tlb index
  | returnsSupervisor allowed =>
      rw [executeSret, if_neg (ne_true_of_eq_false allowed)] at tlb
      exact kept tlb
  | flushes pc => exact emptied fun index => congrFun tlb index

theorem CacheShows.fetch (shows : vm.CacheShows)
    (first : DirtiesFirst { vm with lastFetched := none } vm.cpu.pc .execute) :
    vm.fetch.machine.CacheShows := by
  have forgets : CacheShows { vm with lastFetched := none } := shows.of_same rfl rfl
  simp only [Vm.fetch]
  cases translates : Vm.translateFor { vm with lastFetched := none } vm.cpu.pc .execute with
  | mk translated found =>
      cases found with
      | none =>
          intro index entry cached
          have kept : entry.Shows { vm with lastFetched := none }.memory := by
            refine forgets index entry ?_
            rw [← translateFor_fault_tlb translates]
            exact cached
          have shown := @Shows.translateFor _ vm.cpu.pc .execute entry kept
          rw [translates] at shown
          exact shown
      | some pa =>
          have onWay := forgets.translateFor first translates
          dsimp only
          cases fetchDecode translated.memory pa with
          | ok insn => exact onWay.of_same rfl rfl
          | error e =>
              dsimp only
              split
              · exact onWay.of_same rfl rfl
              · exact onWay.of_same rfl rfl

theorem CacheShows.prepare (shows : vm.CacheShows) (keeps : vm.KeepsMarks prepared)
    (prepares : vm.prepare = some prepared) : prepared.CacheShows := by
  intro index entry cached
  refine keeps index entry cached (shows index entry ?_)
  rw [← prepare_tlb prepares]
  exact cached

/-- A step that keeps marks, and whose first touches leave their pages dirty, keeps what the cache
shows. -/
theorem CacheShows.step {result : Except VmError Unit} (shows : vm.CacheShows)
    (keeps : vm.KeepsMarksStep) (first : vm.FirstTouchesDirty)
    (stepped : vm.step = some (after, result)) : after.CacheShows := by
  rw [Vm.step] at stepped
  split at stepped
  · cases stepped
    exact shows
  rename_i runs
  have running := Bool.eq_false_of_not_eq_true runs
  obtain ⟨prepared, prepares, inner⟩ := Option.map_eq_some_iff.1 stepped
  have before := shows.prepare (keeps.prepares prepared prepares) prepares
  have ended : prepared.stepInner.1 = after := by rw [inner]
  have fetchedShows := before.fetch (first _ _ _ (.fetch running prepares))
  cases fetches : prepared.fetch with
  | fetched ready fetched =>
      have kept := keeps.executes prepared ready fetched prepares fetches
      rw [ended] at kept
      rw [fetches] at fetchedShows
      have tlb : after.tlb = (ready.execute fetched.instruction).1.tlb := by
        rw [← ended, stepInner, fetches]
        dsimp only
        cases ready.execute fetched.instruction with
        | mk done outcome =>
            cases outcome with
            | ok _ => exact retire_tlb done
            | error e => rfl
      exact CacheShows.execute fetchedShows (fun _ _ target => first _ _ _
        (.data running prepares fetches target)) tlb kept
  | trapped trapped =>
      rw [fetches] at fetchedShows
      rw [← ended, stepInner, fetches]
      exact fetchedShows
  | failed failed e =>
      rw [fetches] at fetchedShows
      rw [← ended, stepInner, fetches]
      exact fetchedShows

/-- What the machines of a run do to the marks. -/
def KeepsHistory (machines : List Vm) : Prop :=
  ∀ machine ∈ machines, machine.KeepsMarksStep ∧ machine.FirstTouchesDirty

theorem Run.cacheShows {start : Vm} {steps : List Vm} (fresh : ∀ index, start.tlb index = none)
    (run : Run start steps vm) (history : KeepsHistory steps) : vm.CacheShows := by
  induction run with
  | refl =>
      intro index entry cached
      rw [fresh index] at cached
      cases cached
  | step run stepped hypothesis =>
      have shows := hypothesis fun machine member => history machine (List.mem_append_left _ member)
      obtain ⟨keeps, first⟩ := history _ (List.mem_append_right _ List.mem_cons_self)
      exact shows.step keeps first stepped

theorem CacheShows.hit (shows : vm.CacheShows)
    (hit : vm.tlbLookup vaddr accessType vm.satp = some pa) :
    Marked vm.memory vm.satp vaddr accessType := by
  obtain ⟨index, entry, cached, page, space, allowed, -⟩ := tlbLookup_hit hit
  have marked := shows index entry cached vaddr accessType page allowed
  rw [space] at marked
  exact marked

/-- Over a history of first touches that leave their pages dirty, and without marks taken off
behind the cache, every hit is on a marked page. -/
theorem Run.hitsMarkedPages {start : Vm} {steps : List Vm}
    (fresh : ∀ index, start.tlb index = none) (run : Run start steps vm)
    (history : KeepsHistory (steps ++ [vm])) : vm.HitsMarkedPages := by
  have shows := run.cacheShows fresh fun machine member =>
    history machine (List.mem_append_left _ member)
  obtain ⟨keeps, first⟩ := history vm (List.mem_append_right _ List.mem_cons_self)
  intro before vaddr accessType pa translates active hit
  cases translates with
  | fetch running prepares =>
      have ready := shows.prepare (keeps.prepares _ prepares) prepares
      exact CacheShows.hit (ready.of_same rfl rfl) hit
  | @data prepared ready fetched _ _ running prepares fetches accesses =>
      have fetchedShows := (shows.prepare (keeps.prepares _ prepares) prepares).fetch
        (first _ _ _ (.fetch running prepares))
      rw [fetches] at fetchedShows
      exact CacheShows.hit fetchedShows hit

/-- The step jumps. -/
def Jumps (vm : Vm) : Prop :=
  ∀ prepared ready fetched, vm.prepare = some prepared → prepared.fetch = .fetched ready fetched →
    ∃ rd imm, fetched.instruction = .jal rd imm

theorem keepsMarks_of_memory (memory : after.memory = vm.memory) : vm.KeepsMarks after := by
  intro index entry _ shows
  rw [memory]
  exact shows

/-- A jump on a machine without disks takes no mark away. -/
theorem Jumps.keepsMarksStep (jumps : vm.Jumps) (bare : vm.mmio.virtioDevices = []) :
    vm.KeepsMarksStep where
  prepares prepared prepares := keepsMarks_of_memory (prepare_memory bare prepares)
  executes prepared ready fetched prepares fetches := by
    obtain ⟨rd, imm, isJump⟩ := jumps prepared ready fetched prepares fetches
    rw [isJump]
    refine keepsMarks_of_memory ?_
    rw [stepInner_jump fetches isJump, retire_memory]
    rfl

/-- A jump touches its own page only. -/
theorem Jumps.firstTouchesDirty (jumps : vm.Jumps)
    (dirty : ∀ prepared, vm.prepare = some prepared →
      DirtyIfWritable prepared.memory prepared.satp prepared.cpu.pc) : vm.FirstTouchesDirty := by
  intro before vaddr accessType translates
  cases translates with
  | @fetch prepared running prepares => exact fun _ _ => .inr (dirty prepared prepares)
  | data running prepares fetches accesses =>
      obtain ⟨rd, imm, isJump⟩ := jumps _ _ _ prepares fetches
      rw [isJump] at accesses
      cases accesses

theorem dirtyIfWritable_of_dirty {memory : Memory} {satp : Word}
    (dirty : (mappingEntry memory satp vaddr).map (fun entry => entry.2.dirty) = some true) :
    DirtyIfWritable memory satp vaddr := by
  intro pteAddr pte maps writable
  rw [maps] at dirty
  exact Option.some.inj dirty

theorem jumps_of_decoded {fetched : FetchedInstruction} {rd : Reg} {imm : Imm}
    (prepares : vm.prepare = some prepared) (reads : prepared.fetch.decoded = some fetched)
    (isJump : fetched.instruction = .jal rd imm) : vm.Jumps := by
  intro other ready decoded also fetches
  rw [← Option.some.inj (prepares.symm.trans also)] at fetches
  rw [fetches] at reads
  refine ⟨rd, imm, ?_⟩
  rw [← isJump, ← Option.some.inj reads]

/-- In every run the accesses leave their pages marked exactly where the cache hits of the run
are on marked pages. So they do where, from an empty cache on, the first touch of a page since a
flush is a write or finds it dirty or read-only, and no mark is taken off a cached page. -/
theorem run_marksPages_iff (start : Vm) :
    ((∀ steps vm, Run start steps vm → vm.MarksPages) ↔
      ∀ steps vm, Run start steps vm → vm.HitsMarkedPages) ∧
      ∀ steps vm, Run start steps vm → (∀ index, start.tlb index = none) →
        KeepsHistory (steps ++ [vm]) → vm.MarksPages := by
  refine ⟨⟨fun marks steps vm run => ?_, fun hits steps vm run => ?_⟩,
    fun steps vm run fresh history => ?_⟩
  · exact vm.marksPages_iff.1 (marks steps vm run)
  · exact vm.marksPages_iff.2 (hits steps vm run)
  · exact vm.marksPages_iff.2 (run.hitsMarkedPages fresh history)

/-- A supervisor that jumps in place on a dirty page, fetching it from the cache the second time. -/
theorem run_marksPages_jump : ∃ after result, jumpsInPlace.step = some (after, result) ∧
    after.MarksPages := by
  have ran : (jumpsInPlace.prepare.bind fun prepared =>
      prepared.fetch.decoded.bind fun fetched =>
        prepared.stepInner.1.prepare.bind fun again =>
          again.fetch.decoded.map fun fetchedAgain =>
            (fetched.instruction, fetchedAgain.instruction,
              (mappingEntry prepared.memory prepared.satp prepared.cpu.pc).map
                (fun entry => entry.2.dirty),
              (mappingEntry again.memory again.satp again.cpu.pc).map (fun entry => entry.2.dirty),
              prepared.stepInner.1.mmio.virtioDevices.isEmpty)) =
      some (.jal 0 0, .jal 0 0, some true, some true, true) := by
    decide
  obtain ⟨prepared, prepares, rest⟩ := Option.bind_eq_some_iff.1 ran
  obtain ⟨fetched, reads, rest⟩ := Option.bind_eq_some_iff.1 rest
  obtain ⟨again, preparesAgain, rest⟩ := Option.bind_eq_some_iff.1 rest
  obtain ⟨fetchedAgain, readsAgain, facts⟩ := Option.map_eq_some_iff.1 rest
  simp only [Prod.mk.injEq] at facts
  obtain ⟨isJump, isJumpAgain, dirty, dirtyAgain, bare⟩ := facts
  have fresh : ∀ index, jumpsInPlace.tlb index = none := fun _ => rfl
  have stepped : jumpsInPlace.step = some prepared.stepInner := step_of_prepare rfl prepares
  have jumps := jumps_of_decoded prepares reads isJump
  have jumpsAgain := jumps_of_decoded preparesAgain readsAgain isJumpAgain
  refine ⟨_, _, stepped, (run_marksPages_iff jumpsInPlace).2 _ _ (.step .refl stepped) fresh ?_⟩
  intro machine member
  rcases List.mem_pair.1 member with rfl | rfl
  · refine ⟨jumps.keepsMarksStep rfl, jumps.firstTouchesDirty fun other also => ?_⟩
    rw [← Option.some.inj (prepares.symm.trans also)]
    exact dirtyIfWritable_of_dirty dirty
  · refine ⟨jumpsAgain.keepsMarksStep (List.isEmpty_iff.1 bare),
      jumpsAgain.firstTouchesDirty fun other also => ?_⟩
    rw [← Option.some.inj (preparesAgain.symm.trans also)]
    exact dirtyIfWritable_of_dirty dirtyAgain

end Vm

end MetaVm.Riscv
