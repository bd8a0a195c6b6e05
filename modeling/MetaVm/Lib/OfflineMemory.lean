import MetaVm.Lib.Numerals

namespace MetaVm.AccessLog

/-! Reads and writes in the order in which they happen. -/

structure Entry (Key Value : Type) where
  key : Key
  value : Value
  isWrite : Bool
deriving DecidableEq

variable {Key Value : Type} [DecidableEq Key]

/-- The latest write to a key, if there is one. -/
def latestWrite (log : List (Entry Key Value)) (key : Key) : Option Value :=
  (log.reverse.find? fun entry => entry.isWrite && decide (entry.key = key)).map Entry.value

/-- What a key holds after a log. -/
def contents (start : Key → Value) (log : List (Entry Key Value)) (key : Key) : Value :=
  (latestWrite log key).getD (start key)

/-- Every read carries the value of the latest earlier write to its key, or the value
at the start. -/
def Honest (start : Key → Value) (log : List (Entry Key Value)) : Prop :=
  ∀ before entry after, log = before ++ entry :: after → entry.isWrite = false →
    entry.value = contents start before entry.key

variable {start : Key → Value} {log : List (Entry Key Value)} {entry : Entry Key Value}

theorem contents_nil (key : Key) : contents start [] key = start key := rfl

theorem contents_concat (key : Key) :
    contents start (log ++ [entry]) key =
      if entry.isWrite = true ∧ entry.key = key then entry.value
      else contents start log key := by
  rw [contents, latestWrite, List.reverse_append, List.reverse_singleton, List.singleton_append,
    List.find?_cons]
  by_cases writes : entry.isWrite = true ∧ entry.key = key
  · rw [if_pos writes, writes.1, decide_eq_true writes.2]
    rfl
  · have skipped : (entry.isWrite && decide (entry.key = key)) = false := by
      rw [← Bool.not_eq_true, Bool.and_eq_true, decide_eq_true_eq]
      exact writes
    rw [if_neg writes, skipped]
    rfl

theorem contents_concat_read (reads : entry.isWrite = false) :
    contents start (log ++ [entry]) = contents start log := by
  funext key
  rw [contents_concat, if_neg]
  rw [reads]
  exact fun both => Bool.false_ne_true both.1

theorem honest_nil : Honest start ([] : List (Entry Key Value)) := by
  intro before entry after split
  exact absurd split.symm (by simp)

theorem Honest.concat (honest : Honest start log)
    (last : entry.isWrite = false → entry.value = contents start log entry.key) :
    Honest start (log ++ [entry]) := by
  intro before read after split reads
  rcases List.append_eq_append_iff.1 split with ⟨middle, rfl, rest⟩ | ⟨middle, rfl, rest⟩
  · cases middle with
    | nil =>
        rw [List.nil_append, List.cons.injEq] at rest
        obtain ⟨rfl, -⟩ := rest
        rw [List.append_nil]
        exact last reads
    | cons _ _ => simp at rest
  · cases middle with
    | nil =>
        rw [List.nil_append, List.cons.injEq] at rest
        obtain ⟨rfl, -⟩ := rest
        rw [List.append_nil] at last
        exact last reads
    | cons first middle =>
        rw [List.cons_append, List.cons.injEq] at rest
        obtain ⟨rfl, -⟩ := rest
        exact honest before read middle rfl reads

end MetaVm.AccessLog

namespace MetaVm.OfflineMemory

open AccessLog

/-! A memory checked after the fact: its accesses are sorted by address and time, and each is
compared with the one in front of it. -/

structure Event (Addr Time Value : Type) where
  addr : Addr
  time : Time
  value : Value
  isWrite : Bool

variable {Addr Time Value : Type} [LinearOrder Addr] [LinearOrder Time]

def Event.entry (event : Event Addr Time Value) : Entry Addr Value :=
  ⟨event.addr, event.value, event.isWrite⟩

/-- The order of the checker, in which the accesses to one address stand together. -/
def Before (first second : Event Addr Time Value) : Prop :=
  first.addr < second.addr ∨ first.addr = second.addr ∧ first.time < second.time

/-- What the checker expects behind an access. -/
def expected (start : Value) (previous : Option (Event Addr Time Value)) (addr : Addr) : Value :=
  match previous with
  | some event => if event.addr = addr then event.value else start
  | none => start

/-- Every place in a list meets a condition on what stands in front of it. -/
def EachPlace {α : Type} (holds : List α → α → Prop) (list : List α) : Prop :=
  ∀ before here after, list = before ++ here :: after → holds before here

/-- Every read has the value that the access in front of it tells. -/
def Adjacent (start : Value) : List (Event Addr Time Value) → Prop :=
  EachPlace fun before read => read.isWrite = false →
    read.value = expected start before.getLast? read.addr

/-- Every read has the value that the accesses in front of it leave. -/
def Faithful (start : Value) : List (Event Addr Time Value) → Prop :=
  EachPlace fun before read => read.isWrite = false →
    read.value = contents (fun _ => start) (before.map Event.entry) read.addr

/-- The write that a read has to return, by time alone. -/
structure Latest (events : List (Event Addr Time Value)) (read write : Event Addr Time Value) :
    Prop where
  member : write ∈ events
  writes : write.isWrite = true
  sameAddr : write.addr = read.addr
  earlier : write.time < read.time
  greatest : ∀ other ∈ events, other.isWrite = true → other.addr = read.addr →
    other.time < read.time → other.time ≤ write.time

/-- A read returns the latest write to its address, or what was there at the start. -/
structure Answered (start : Value) (events : List (Event Addr Time Value))
    (read : Event Addr Time Value) : Prop where
  written : ∀ write, Latest events read write → read.value = write.value
  unwritten : (∀ write ∈ events, write.isWrite = true → write.addr = read.addr →
    ¬ write.time < read.time) → read.value = start

section Sorted

variable {start : Value} {log before after : List (Event Addr Time Value)}
  {read : Event Addr Time Value}

/-- In a sorted log the earlier accesses to an address are those in front. -/
theorem mem_before_iff (sorted : (before ++ read :: after).Pairwise Before)
    {other : Event Addr Time Value} (member : other ∈ before ++ read :: after)
    (sameAddr : other.addr = read.addr) : other.time < read.time ↔ other ∈ before := by
  obtain ⟨-, behind, across⟩ := List.pairwise_append.1 sorted
  constructor
  · intro earlier
    rcases List.mem_append.1 member with inside | inside
    · exact inside
    · rcases List.mem_cons.1 inside with rfl | inside
      · exact absurd earlier (lt_irrefl _)
      · rcases (List.pairwise_cons.1 behind).1 other inside with lower | ⟨-, later⟩
        · exact absurd (sameAddr ▸ lower) (lt_irrefl _)
        · exact absurd (earlier.trans later) (lt_irrefl _)
  · intro inside
    rcases across other inside read List.mem_cons_self with lower | ⟨-, earlier⟩
    · exact absurd (sameAddr ▸ lower) (lt_irrefl _)
    · exact earlier

theorem eachPlace_concat {α : Type} {holds : List α → α → Prop} {list : List α} {last : α} :
    EachPlace holds (list ++ [last]) ↔ EachPlace holds list ∧ holds list last := by
  constructor
  · intro each
    refine ⟨fun before here after split => each before here (after ++ [last]) ?_,
      each list last [] rfl⟩
    rw [split, List.append_assoc, List.cons_append]
  · rintro ⟨each, ends⟩ before here after split
    rcases List.eq_nil_or_concat after with rfl | ⟨after, final, rfl⟩
    · obtain ⟨rfl, rfl⟩ := List.append_inj' split rfl |>.imp_right List.singleton_inj.1
      exact ends
    · rw [List.concat_eq_append, ← List.cons_append, ← List.append_assoc] at split
      exact each before here after (List.append_inj' split rfl).1

omit [LinearOrder Time] in
theorem contents_of_unwritten {key : Addr}
    (unwritten : ∀ event ∈ log, event.isWrite = true → event.addr ≠ key) :
    contents (fun _ => start) (log.map Event.entry) key = start := by
  have none : latestWrite (log.map Event.entry) key = none := by
    rw [latestWrite, Option.map_eq_none_iff, List.find?_eq_none]
    intro entry member
    rw [List.mem_reverse] at member
    obtain ⟨event, inside, rfl⟩ := List.mem_map.1 member
    rw [Bool.and_eq_true, decide_eq_true_eq]
    exact fun both => unwritten event inside both.1 both.2
  rw [contents, none]
  rfl

/-- The access in front tells what all of them leave. -/
theorem expected_eq_contents (sorted : (before ++ [read]).Pairwise Before)
    (faithful : Faithful start before) :
    expected start before.getLast? read.addr =
      contents (fun _ => start) (before.map Event.entry) read.addr := by
  rcases List.eq_nil_or_concat before with rfl | ⟨earlier, last, rfl⟩
  · rfl
  rw [List.concat_eq_append] at sorted faithful ⊢
  rw [List.getLast?_concat, expected]
  obtain ⟨left, -, across⟩ := List.pairwise_append.1 sorted
  by_cases same : last.addr = read.addr
  · rw [if_pos same, List.map_append, List.map_singleton, contents_concat]
    by_cases writes : last.isWrite = true
    · rw [if_pos ⟨writes, same⟩]
      rfl
    · rw [if_neg fun both => writes both.1, ← same]
      exact (eachPlace_concat.1 faithful).2 (Bool.eq_false_iff.2 writes)
  · rw [if_neg same]
    refine (contents_of_unwritten ?_).symm
    intro event member writes sameAddr
    have lastLower : last.addr < read.addr := by
      rcases across last (List.mem_append_right _ List.mem_cons_self) read List.mem_cons_self with
        lower | ⟨equal, -⟩
      · exact lower
      · exact absurd equal same
    rcases List.mem_append.1 member with inside | inside
    · rcases (List.pairwise_append.1 left).2.2 event inside last List.mem_cons_self with
        lower | ⟨equal, -⟩
      · exact absurd (sameAddr ▸ lower.trans lastLower) (lt_irrefl _)
      · exact same (equal ▸ sameAddr)
    · exact same (List.mem_singleton.1 inside ▸ sameAddr)

theorem adjacent_iff_faithful (sorted : log.Pairwise Before) :
    Adjacent start log ↔ Faithful start log := by
  induction log using List.reverseRecOn with
  | nil => exact ⟨fun _ before _ _ split => absurd split (by simp), fun _ before _ _ split =>
      absurd split (by simp)⟩
  | append_singleton log last hypothesis =>
      have shorter := (List.pairwise_append.1 sorted).1
      rw [Adjacent, Faithful, eachPlace_concat, eachPlace_concat]
      constructor
      · rintro ⟨adjacent, ends⟩
        have faithful := (hypothesis shorter).1 adjacent
        refine ⟨faithful, fun reads => ?_⟩
        rw [← expected_eq_contents sorted faithful]
        exact ends reads
      · rintro ⟨faithful, ends⟩
        refine ⟨(hypothesis shorter).2 faithful, fun reads => ?_⟩
        rw [expected_eq_contents sorted faithful]
        exact ends reads

omit [LinearOrder Time] in
theorem latestWrite_eq_some_iff {key : Addr} {value : Value} :
    latestWrite (log.map Event.entry) key = some value ↔
      ∃ earlier write later, log = earlier ++ write :: later ∧ write.isWrite = true ∧
        write.addr = key ∧ write.value = value ∧
        ∀ event ∈ later, event.isWrite = true → event.addr ≠ key := by
  rw [latestWrite, ← List.map_reverse, List.find?_map, Option.map_map, Option.map_eq_some_iff]
  constructor
  · rintro ⟨write, found, valueEq⟩
    obtain ⟨meets, later, earlier, split, skipped⟩ := List.find?_eq_some_iff_append.1 found
    obtain ⟨writes, sameKey⟩ := Bool.and_eq_true_iff.1 meets
    refine ⟨earlier.reverse, write, later.reverse, ?_, writes, of_decide_eq_true sameKey, valueEq,
      ?_⟩
    · rw [← List.reverse_reverse log, split, List.reverse_append, List.reverse_cons,
        List.append_assoc, List.singleton_append]
    · intro event inside writesToo sameKeyToo
      have missed := skipped event (List.mem_reverse.1 inside)
      simp [Event.entry, writesToo, sameKeyToo] at missed
  · rintro ⟨earlier, write, later, rfl, writes, rfl, rfl, unwritten⟩
    refine ⟨write, List.find?_eq_some_iff_append.2 ⟨?_, later.reverse, earlier.reverse, ?_, ?_⟩,
      rfl⟩
    · simp [Event.entry, writes]
    · rw [List.reverse_append, List.reverse_cons, List.append_assoc, List.singleton_append]
    · intro event inside
      have missed := unwritten event (List.mem_reverse.1 inside)
      simp only [Function.comp_apply, Event.entry, Bool.not_eq_true', Bool.and_eq_false_iff]
      by_cases writesToo : event.isWrite = true
      · exact .inr (decide_eq_false (missed writesToo))
      · exact .inl (Bool.eq_false_iff.2 writesToo)

/-- What the accesses in front leave is what time alone tells. -/
theorem answered_iff (sorted : (before ++ read :: after).Pairwise Before) :
    Answered start (before ++ read :: after) read ↔
      read.value = contents (fun _ => start) (before.map Event.entry) read.addr := by
  have earlier : ∀ {other}, other ∈ before ++ read :: after → other.addr = read.addr →
      (other.time < read.time ↔ other ∈ before) :=
    fun member sameAddr => mem_before_iff sorted member sameAddr
  have inFront := (List.pairwise_append.1 sorted).1
  cases latest : latestWrite (before.map Event.entry) read.addr with
  | none =>
      have unwritten : ∀ write ∈ before, write.isWrite = true → write.addr ≠ read.addr := by
        intro write inside writes sameAddr
        have missed := List.find?_eq_none.1 (Option.map_eq_none_iff.1 latest) write.entry
          (List.mem_reverse.2 (List.mem_map_of_mem inside))
        simp [Event.entry, writes, sameAddr] at missed
      rw [contents, latest]
      constructor
      · intro answered
        refine answered.unwritten fun write member writes sameAddr before => ?_
        exact unwritten write ((earlier member sameAddr).1 before) writes sameAddr
      · intro same
        refine ⟨fun write isLatest => ?_, fun _ => same⟩
        exact absurd isLatest.sameAddr (unwritten write
          ((earlier isLatest.member isLatest.sameAddr).1 isLatest.earlier) isLatest.writes)
  | some value =>
      obtain ⟨first, write, between, split, writes, sameAddr, rfl, unwritten⟩ :=
        latestWrite_eq_some_iff.1 latest
      have inside : write ∈ before := split ▸ List.mem_append_right _ List.mem_cons_self
      have member : write ∈ before ++ read :: after := List.mem_append_left _ inside
      rw [contents, latest]
      rw [split] at inFront
      have greatest : ∀ other ∈ before ++ read :: after, other.isWrite = true →
          other.addr = read.addr → other.time < read.time → other ≠ write →
            other.time < write.time := by
        intro other otherMember otherWrites otherAddr before differs
        have otherInside := (earlier otherMember otherAddr).1 before
        rw [split] at otherInside
        rcases List.mem_append.1 otherInside with here | here
        · exact (mem_before_iff inFront otherInside (otherAddr.trans sameAddr.symm)).2 here
        · rcases List.mem_cons.1 here with rfl | here
          · exact absurd rfl differs
          · exact absurd otherAddr (unwritten other here otherWrites)
      have isLatest : Latest (before ++ read :: after) read write := by
        refine ⟨member, writes, sameAddr, (earlier member sameAddr).2 inside, ?_⟩
        intro other otherMember otherWrites otherAddr before
        by_cases same : other = write
        · rw [same]
        · exact (greatest other otherMember otherWrites otherAddr before same).le
      constructor
      · intro answered
        exact answered.written write isLatest
      · intro same
        refine ⟨fun other otherLatest => ?_, fun none => ?_⟩
        · by_cases equal : other = write
          · rw [equal]
            exact same
          · have lower := greatest other otherLatest.member otherLatest.writes
              otherLatest.sameAddr otherLatest.earlier equal
            have upper := otherLatest.greatest write member writes sameAddr isLatest.earlier
            exact absurd (lower.trans_le upper) (lt_irrefl _)
        · exact absurd isLatest.earlier (none write member writes sameAddr)

/-- A sorted log passes the check of neighbours exactly when every read returns the latest write
to its address. -/
theorem adjacent_iff_answered (sorted : log.Pairwise Before) :
    Adjacent start log ↔ ∀ read ∈ log, read.isWrite = false → Answered start log read := by
  rw [adjacent_iff_faithful sorted]
  constructor
  · intro faithful read member reads
    obtain ⟨before, after, rfl⟩ := List.append_of_mem member
    exact (answered_iff sorted).2 (faithful before read after rfl reads)
  · rintro answered before read after rfl reads
    exact (answered_iff sorted).1
      (answered read (List.mem_append_right _ List.mem_cons_self) reads)

omit [LinearOrder Addr] in
/-- It does not matter in which order the accesses are given. -/
theorem Answered.perm {events other : List (Event Addr Time Value)}
    (answered : Answered start events read) (same : events.Perm other) :
    Answered start other read where
  written write latest := answered.written write
    ⟨same.mem_iff.2 latest.member, latest.writes, latest.sameAddr, latest.earlier,
      fun event member => latest.greatest event (same.mem_iff.1 member)⟩
  unwritten none := answered.unwritten fun write member => none write (same.mem_iff.1 member)

end Sorted

end MetaVm.OfflineMemory
