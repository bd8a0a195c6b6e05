import MetaVm.Lib.Numerals

namespace MetaVm.Framing

/-! Readers that take values off the front of a string of symbols. A reader and
a writer belong together when the reader takes what the writer puts, and takes
nothing else. -/

variable {σ ε α β : Type}

abbrev Reader (σ ε : Type) : Type → Type := StateT (List σ) (Except ε)

/-- The reader returns a value exactly when the input starts with what is
written for that value. -/
def Reads (read : Reader σ ε α) (valid : α → Prop) (write : α → List σ) : Prop :=
  ∀ input value rest,
    read input = .ok (value, rest) ↔ valid value ∧ input = write value ++ rest

/-- The reader has to use up its input. -/
def runAll (trailing : ℕ → ε) (read : Reader σ ε α) (input : List σ) : Except ε α :=
  match read input with
  | .error fault => .error fault
  | .ok (value, []) => .ok value
  | .ok (_, symbol :: rest) => .error (trailing (symbol :: rest).length)

theorem bind_eq_ok {read : Reader σ ε α} {next : α → Reader σ ε β} {input rest : List σ}
    {out : β} : (read >>= next) input = .ok (out, rest) ↔
      ∃ value middle, read input = .ok (value, middle) ∧
        next value middle = .ok (out, rest) := by
  show (read input >>= fun result => next result.1 result.2) = _ ↔ _
  cases read input with
  | error fault => simp [bind, Except.bind]
  | ok result =>
      obtain ⟨value, middle⟩ := result
      simp [bind, Except.bind]

namespace Reads

variable {read : Reader σ ε α} {valid : α → Prop} {write : α → List σ}

theorem runAll_iff (reads : Reads read valid write) {trailing : ℕ → ε} {input : List σ}
    {value : α} :
    runAll trailing read input = .ok value ↔ valid value ∧ input = write value := by
  have whole := reads input value []
  rw [List.append_nil] at whole
  rw [← whole, runAll]
  cases read input with
  | error fault => simp
  | ok result =>
      obtain ⟨other, rest⟩ := result
      cases rest with
      | nil => simp
      | cons symbol rest => simp

/-- Nothing else is left to read. -/
theorem pure {fixed : α → Prop} {value : α} (only : ∀ other, fixed other ↔ other = value) :
    Reads (Pure.pure value : Reader σ ε α) (fun other => fixed other ∧ True)
      (fun _ => []) := by
  intro input other rest
  show Except.ok (value, input) = .ok (other, rest) ↔ (fixed other ∧ True) ∧ input = [] ++ rest
  rw [and_true, only, List.nil_append, Except.ok.injEq, Prod.mk.injEq, @eq_comm _ value]

/-- A component of a record is read, and then the components after it. `fixed`
collects what the components before it are. -/
theorem field {more : α → Reader σ ε β} {fixed good : β → Prop} {put : β → List σ}
    (reads : Reads read valid write) (component : β → α)
    (later : ∀ value, Reads (more value)
      (fun record => (fixed record ∧ component record = value) ∧ good record) put) :
    Reads (read >>= more) (fun record => fixed record ∧ valid (component record) ∧ good record)
      (fun record => write (component record) ++ put record) := by
  intro input record rest
  rw [bind_eq_ok]
  constructor
  · rintro ⟨value, middle, first, second⟩
    obtain ⟨holds, rfl⟩ := (reads _ _ _).1 first
    obtain ⟨⟨⟨before, rfl⟩, after⟩, rfl⟩ := (later _ _ _ _).1 second
    exact ⟨⟨before, holds, after⟩, (List.append_assoc _ _ _).symm⟩
  · rintro ⟨⟨before, holds, after⟩, rfl⟩
    rw [List.append_assoc]
    exact ⟨component record, put record ++ rest, (reads _ _ _).2 ⟨holds, rfl⟩,
      (later _ _ _ _).2 ⟨⟨⟨before, rfl⟩, after⟩, rfl⟩⟩

/-- The first component has none before it. -/
theorem record {more : α → Reader σ ε β} {good : β → Prop} {put : β → List σ}
    (reads : Reads read valid write) (component : β → α)
    (later : ∀ value, Reads (more value)
      (fun record => (True ∧ component record = value) ∧ good record) put) :
    Reads (read >>= more) (fun record => valid (component record) ∧ good record)
      (fun record => write (component record) ++ put record) := by
  have fields := @field _ _ _ _ _ _ _ _ (fun _ => True) _ _ reads component later
  intro input record rest
  rw [fields]
  simp only [true_and]

theorem congr {valid' : α → Prop} {write' : α → List σ} (reads : Reads read valid write)
    (sameValid : ∀ value, valid value ↔ valid' value)
    (sameWrite : ∀ value, write value = write' value) : Reads read valid' write' := by
  intro input value rest
  rw [reads, sameValid, sameWrite]

/-- A value that is read through its image under an injection. -/
theorem map {wrap : α → β} {unwrap : β → α} (reads : Reads read valid write)
    (wrapped : ∀ other, wrap (unwrap other) = other)
    (unwrapped : ∀ value, unwrap (wrap value) = value) :
    Reads (read >>= fun value => Pure.pure (wrap value)) (fun other => valid (unwrap other))
      (fun other => write (unwrap other)) := by
  have whole := record reads unwrap fun value => .pure fun other =>
    (⟨fun ⟨_, same⟩ => by rw [← same, wrapped],
      fun same => ⟨trivial, by rw [same, unwrapped]⟩⟩ :
      True ∧ unwrap other = value ↔ other = wrap value)
  exact whole.congr (fun _ => and_iff_left trivial) fun _ => List.append_nil _

end Reads

section Lists

variable {read : Reader σ ε α} {valid : α → Prop} {write : α → List σ}

/-- Read a number of values, one after another. -/
def readMany (read : Reader σ ε α) : ℕ → Reader σ ε (List α)
  | 0 => pure []
  | count + 1 => do
      let value ← read
      let values ← readMany read count
      pure (value :: values)

theorem Reads.readMany (reads : Reads read valid write) (count : ℕ) :
    Reads (readMany read count)
      (fun values => values.length = count ∧ ∀ value ∈ values, valid value)
      (fun values => values.flatMap write) := by
  induction count with
  | zero =>
      intro input values rest
      show Except.ok ([], input) = .ok (values, rest) ↔ _
      cases values <;> simp
  | succ count hypothesis =>
      intro input values rest
      simp only [Framing.readMany, bind_eq_ok, reads _ _ _, hypothesis _ _ _]
      constructor
      · rintro ⟨value, _, ⟨holds, rfl⟩, others, _, ⟨⟨sized, all⟩, rfl⟩, last⟩
        obtain ⟨rfl, rfl⟩ := Prod.mk.inj (Except.ok.inj last)
        simpa [sized, holds] using all
      · rintro ⟨⟨sized, all⟩, rfl⟩
        cases values with
        | nil => exact absurd sized (Nat.succ_ne_zero count).symm
        | cons value others =>
            rw [List.forall_mem_cons] at all
            exact ⟨value, _, ⟨all.1, by simp⟩, others, rest,
              ⟨⟨Nat.succ.inj sized, all.2⟩, rfl⟩, rfl⟩

end Lists

section Slices

/-- Take a number of symbols, or report how many there were. -/
def take (truncated : ℕ → ℕ → ε) (count : ℕ) : Reader σ ε (List σ) := fun buffer =>
  if buffer.length < count then .error (truncated count buffer.length)
  else .ok (buffer.take count, buffer.drop count)

theorem take_reads (truncated : ℕ → ℕ → ε) (count : ℕ) :
    Reads (take truncated count : Reader σ ε (List σ)) (fun slice => slice.length = count)
      id := by
  intro input slice rest
  rw [take]
  split
  · rename_i short
    constructor
    · rintro ⟨⟩
    · rintro ⟨sized, rfl⟩
      rw [id, List.length_append, sized] at short
      omega
  · rename_i enough
    rw [Except.ok.injEq, Prod.mk.injEq]
    constructor
    · rintro ⟨rfl, rfl⟩
      exact ⟨List.length_take_of_le (Nat.not_lt.1 enough),
        (List.take_append_drop count input).symm⟩
    · rintro ⟨rfl, rfl⟩
      exact ⟨List.take_left, List.drop_left⟩

/-- Take as many symbols as an array holds. -/
def readArray (truncated : ℕ → ℕ → ε) (size : ℕ) :
    Reader σ ε { symbols : List σ // symbols.length = size } := fun buffer =>
  if enough : buffer.length < size then .error (truncated size buffer.length)
  else .ok (⟨buffer.take size, List.length_take_of_le (Nat.not_lt.1 enough)⟩,
    buffer.drop size)

theorem readArray_reads (truncated : ℕ → ℕ → ε) (size : ℕ) :
    Reads (readArray truncated size :
      Reader σ ε { symbols : List σ // symbols.length = size }) (fun _ => True)
      Subtype.val := by
  rintro input ⟨symbols, sized⟩ rest
  have slices := take_reads truncated size input symbols rest
  rw [and_iff_right sized, id] at slices
  rw [and_iff_right trivial, ← slices, readArray, take]
  split <;> simp

end Slices

/-! Numbers of fixed width. -/

section BigEndian

/-- The last bytes of a number, the highest first. -/
def bigEndian : ℕ → ℕ → List (BitVec 8)
  | 0, _ => []
  | width + 1, number => bigEndian width (number / 256) ++ [BitVec.ofNat 8 number]

def fromBigEndian (bytes : List (BitVec 8)) : ℕ :=
  bytes.foldl (fun number byte => number * 256 + byte.toNat) 0

@[simp]
theorem length_bigEndian (width number : ℕ) : (bigEndian width number).length = width := by
  induction width generalizing number with
  | zero => rfl
  | succ width hypothesis => rw [bigEndian, List.length_append, hypothesis]; rfl

theorem fromBigEndian_concat (bytes : List (BitVec 8)) (byte : BitVec 8) :
    fromBigEndian (bytes ++ [byte]) = fromBigEndian bytes * 256 + byte.toNat := by
  rw [fromBigEndian, List.foldl_append]
  rfl

theorem fromBigEndian_bigEndian (width number : ℕ) :
    fromBigEndian (bigEndian width number) = number % 256 ^ width := by
  induction width generalizing number with
  | zero => rw [pow_zero, Nat.mod_one]; rfl
  | succ width hypothesis =>
      rw [bigEndian, fromBigEndian_concat, hypothesis, BitVec.toNat_ofNat, pow_succ' 256 width,
        Nat.mod_mul, Nat.mul_comm 256, Nat.add_comm]

theorem bigEndian_fromBigEndian (bytes : List (BitVec 8)) :
    bigEndian bytes.length (fromBigEndian bytes) = bytes := by
  induction bytes using List.reverseRecOn with
  | nil => rfl
  | append_singleton bytes byte hypothesis =>
      have low := byte.isLt
      have quotient : (fromBigEndian bytes * 256 + byte.toNat) / 256 = fromBigEndian bytes := by
        omega
      have remainder : BitVec.ofNat 8 (fromBigEndian bytes * 256 + byte.toNat) = byte := by
        apply BitVec.eq_of_toNat_eq
        rw [BitVec.toNat_ofNat]
        omega
      rw [fromBigEndian_concat, List.length_append, List.length_singleton, bigEndian, quotient,
        remainder, hypothesis]

theorem fromBigEndian_lt (bytes : List (BitVec 8)) :
    fromBigEndian bytes < 256 ^ bytes.length := by
  rw [← bigEndian_fromBigEndian bytes, fromBigEndian_bigEndian, length_bigEndian]
  exact Nat.mod_lt _ (Nat.pow_pos (by decide))

theorem bigEndian_injective {width first second : ℕ} (firstSmall : first < 256 ^ width)
    (secondSmall : second < 256 ^ width) (same : bigEndian width first = bigEndian width second) :
    first = second := by
  rw [← Nat.mod_eq_of_lt firstSmall, ← fromBigEndian_bigEndian, same, fromBigEndian_bigEndian,
    Nat.mod_eq_of_lt secondSmall]

@[simp]
theorem fromBigEndian_nil : fromBigEndian [] = 0 := rfl

theorem fromBigEndian_cons (byte : BitVec 8) (bytes : List (BitVec 8)) :
    fromBigEndian (byte :: bytes) =
      byte.toNat * 256 ^ bytes.length + fromBigEndian bytes := by
  induction bytes using List.reverseRecOn with
  | nil => simp [fromBigEndian]
  | append_singleton bytes last hypothesis =>
      rw [← List.cons_append, fromBigEndian_concat, hypothesis, fromBigEndian_concat,
        List.length_append, List.length_singleton, pow_succ]
      ring

/-- No byte is spent on leading zeros. -/
def Minimal (bytes : List (BitVec 8)) : Prop := bytes.head? ≠ some 0

theorem minimal_cons {byte : BitVec 8} {bytes : List (BitVec 8)} :
    Minimal (byte :: bytes) ↔ byte ≠ 0 := by
  rw [Minimal, List.head?_cons, ne_eq, Option.some_inj]

theorem fromBigEndian_dropWhile (bytes : List (BitVec 8)) :
    fromBigEndian (bytes.dropWhile fun byte => byte = 0) = fromBigEndian bytes := by
  induction bytes with
  | nil => rfl
  | cons byte bytes hypothesis =>
      rw [List.dropWhile_cons]
      split
      · rename_i zero
        have byteZero : byte = 0 := of_decide_eq_true zero
        rw [hypothesis, fromBigEndian_cons, byteZero]
        simp
      · rfl

theorem minimal_dropWhile (bytes : List (BitVec 8)) :
    Minimal (bytes.dropWhile fun byte => byte = 0) := by
  induction bytes with
  | nil => exact nofun
  | cons byte bytes hypothesis =>
      rw [List.dropWhile_cons]
      split
      · exact hypothesis
      · rename_i nonzero
        exact minimal_cons.2 fun zero => nonzero (decide_eq_true zero)

/-- The first byte of a minimal string sets the size of its number. -/
theorem Minimal.pow_le {bytes : List (BitVec 8)} (minimal : Minimal bytes)
    (nonempty : bytes ≠ []) : 256 ^ (bytes.length - 1) ≤ fromBigEndian bytes := by
  cases bytes with
  | nil => exact absurd rfl nonempty
  | cons byte bytes =>
      have positive : 0 < byte.toNat := by
        refine Nat.pos_of_ne_zero fun zero => minimal_cons.1 minimal ?_
        exact BitVec.eq_of_toNat_eq (zero.trans BitVec.toNat_zero.symm)
      rw [fromBigEndian_cons, List.length_cons, Nat.add_sub_cancel]
      exact (Nat.le_mul_of_pos_left _ positive).trans (Nat.le_add_right _ _)

theorem Minimal.length_le {first second : List (BitVec 8)} (minimal : Minimal first)
    (bound : fromBigEndian first ≤ fromBigEndian second) : first.length ≤ second.length := by
  by_cases empty : first = []
  · rw [empty]
    exact Nat.zero_le _
  have low := minimal.pow_le empty
  have high := fromBigEndian_lt second
  have powers := (Nat.pow_lt_pow_iff_right (by decide)).1 (low.trans_lt (bound.trans_lt high))
  omega

/-- A number has one minimal string. -/
theorem Minimal.unique {first second : List (BitVec 8)} (minimal : Minimal first)
    (other : Minimal second) (same : fromBigEndian first = fromBigEndian second) :
    first = second := by
  have length : first.length = second.length :=
    le_antisymm (minimal.length_le same.le) (other.length_le same.ge)
  rw [← bigEndian_fromBigEndian first, ← bigEndian_fromBigEndian second, same, length]

/-- The last bytes of a number, the lowest first. -/
def littleEndian (width number : ℕ) : List (BitVec 8) := (bigEndian width number).reverse

def fromLittleEndian (bytes : List (BitVec 8)) : ℕ := fromBigEndian bytes.reverse

@[simp]
theorem length_littleEndian (width number : ℕ) : (littleEndian width number).length = width := by
  rw [littleEndian, List.length_reverse, length_bigEndian]

theorem littleEndian_injective {width first second : ℕ} (firstSmall : first < 256 ^ width)
    (secondSmall : second < 256 ^ width)
    (same : littleEndian width first = littleEndian width second) : first = second :=
  bigEndian_injective firstSmall secondSmall (List.reverse_injective same)

variable {ε : Type}

def readByte (truncated : ℕ → ℕ → ε) : Reader (BitVec 8) ε (BitVec 8) := do
  let slice ← take truncated 1
  pure (slice.headD 0)

theorem readByte_reads (truncated : ℕ → ℕ → ε) :
    Reads (readByte truncated) (fun _ => True) (fun byte => [byte]) := by
  intro input byte rest
  simp only [readByte, bind_eq_ok, take_reads _ _ _ _ _]
  constructor
  · rintro ⟨slice, _, ⟨sized, rfl⟩, last⟩
    obtain ⟨rfl, rfl⟩ := Prod.mk.inj (Except.ok.inj last)
    obtain ⟨only, rfl⟩ := List.length_eq_one_iff.1 sized
    exact ⟨trivial, rfl⟩
  · rintro ⟨_, rfl⟩
    exact ⟨[byte], rest, ⟨rfl, rfl⟩, rfl⟩

/-- Read a number of a fixed width. -/
def readBigEndian (truncated : ℕ → ℕ → ε) (width : ℕ) : Reader (BitVec 8) ε ℕ := do
  let slice ← take truncated width
  pure (fromBigEndian slice)

theorem readBigEndian_reads (truncated : ℕ → ℕ → ε) (width : ℕ) :
    Reads (readBigEndian truncated width) (· < 256 ^ width) (bigEndian width) := by
  intro input number rest
  simp only [readBigEndian, bind_eq_ok, take_reads _ _ _ _ _]
  constructor
  · rintro ⟨slice, _, ⟨sized, rfl⟩, last⟩
    obtain ⟨rfl, rfl⟩ := Prod.mk.inj (Except.ok.inj last)
    subst sized
    exact ⟨fromBigEndian_lt slice, by rw [bigEndian_fromBigEndian, id]⟩
  · rintro ⟨small, rfl⟩
    refine ⟨bigEndian width number, rest, ⟨length_bigEndian _ _, rfl⟩, ?_⟩
    rw [fromBigEndian_bigEndian, Nat.mod_eq_of_lt small]
    rfl

/-- Read a machine word. -/
def readWord (truncated : ℕ → ℕ → ε) (width : ℕ) :
    Reader (BitVec 8) ε (BitVec (8 * width)) := do
  let number ← readBigEndian truncated width
  pure (BitVec.ofNat _ number)

theorem readWord_reads (truncated : ℕ → ℕ → ε) (width : ℕ) :
    Reads (readWord truncated width) (fun _ => True)
      (fun word => bigEndian width word.toNat) := by
  have power : (2 : ℕ) ^ (8 * width) = 256 ^ width := pow_mul 2 8 width
  intro input word rest
  simp only [readWord, bind_eq_ok, readBigEndian_reads _ _ _ _ _]
  constructor
  · rintro ⟨number, _, ⟨small, rfl⟩, last⟩
    obtain ⟨rfl, rfl⟩ := Prod.mk.inj (Except.ok.inj last)
    rw [BitVec.toNat_ofNat, power, Nat.mod_eq_of_lt small]
    exact ⟨trivial, rfl⟩
  · rintro ⟨_, rfl⟩
    refine ⟨word.toNat, rest, ⟨power ▸ word.isLt, rfl⟩, ?_⟩
    rw [BitVec.ofNat_toNat, BitVec.setWidth_eq]
    rfl

/-- Read a string that comes after its length. -/
def readPrefixed (truncated : ℕ → ℕ → ε) (width : ℕ) :
    Reader (BitVec 8) ε (List (BitVec 8)) := do
  let length ← readBigEndian truncated width
  take truncated length

theorem readPrefixed_reads (truncated : ℕ → ℕ → ε) (width : ℕ) :
    Reads (readPrefixed truncated width) (fun bytes => bytes.length < 256 ^ width)
      (fun bytes => bigEndian width bytes.length ++ bytes) := by
  intro input bytes rest
  simp only [readPrefixed, bind_eq_ok, readBigEndian_reads _ _ _ _ _, take_reads _ _ _ _ _]
  constructor
  · rintro ⟨_, _, ⟨small, rfl⟩, rfl, rfl⟩
    exact ⟨small, (List.append_assoc _ _ _).symm⟩
  · rintro ⟨small, rfl⟩
    exact ⟨bytes.length, bytes ++ rest, ⟨small, List.append_assoc _ _ _⟩, rfl, rfl⟩

end BigEndian

/-! Writers alone: what is put first can be told from what comes after it. -/

section PrefixFree

def PrefixFree (valid : α → Prop) (write : α → List σ) : Prop :=
  ∀ first second rest rest', valid first → valid second →
    write first ++ rest = write second ++ rest' → first = second ∧ rest = rest'

namespace PrefixFree

variable {valid : α → Prop} {write : α → List σ}

/-- Two values, one after the other. -/
theorem prod {valid' : β → Prop} {write' : β → List σ} (free : PrefixFree valid write)
    (free' : PrefixFree valid' write') :
    PrefixFree (fun pair : α × β => valid pair.1 ∧ valid' pair.2)
      fun pair => write pair.1 ++ write' pair.2 := by
  rintro ⟨a, b⟩ ⟨c, d⟩ rest rest' ⟨aValid, bValid⟩ ⟨cValid, dValid⟩ same
  simp only [List.append_assoc] at same
  obtain ⟨firstEq, same⟩ := free _ _ _ _ aValid cValid same
  obtain ⟨secondEq, same⟩ := free' _ _ _ _ bValid dValid same
  exact ⟨Prod.ext firstEq secondEq, same⟩

/-- A fixed string in front tells nothing. -/
theorem after (free : PrefixFree valid write) (front : List σ) :
    PrefixFree valid fun value => front ++ write value := by
  intro a b rest rest' aValid bValid same
  simp only [List.append_assoc] at same
  exact free _ _ _ _ aValid bValid (List.append_cancel_left same)

/-- A string of values is told apart when no value is written as nothing. -/
theorem flatMap_injective (free : PrefixFree valid write) (some : ∀ value, write value ≠ [])
    {values values' : List α} (allValid : ∀ value ∈ values, valid value)
    (allValid' : ∀ value ∈ values', valid value)
    (same : values.flatMap write = values'.flatMap write) : values = values' := by
  induction values generalizing values' with
  | nil =>
      cases values' with
      | nil => rfl
      | cons value values' =>
          rw [List.flatMap_nil, List.flatMap_cons] at same
          exact absurd (List.append_eq_nil_iff.1 same.symm).1 (some value)
  | cons value values hypothesis =>
      cases values' with
      | nil =>
          rw [List.flatMap_nil, List.flatMap_cons] at same
          exact absurd (List.append_eq_nil_iff.1 same).1 (some value)
      | cons value' values' =>
          rw [List.forall_mem_cons] at allValid allValid'
          rw [List.flatMap_cons, List.flatMap_cons] at same
          obtain ⟨rfl, others⟩ := free _ _ _ _ allValid.1 allValid'.1 same
          rw [hypothesis allValid.2 allValid'.2 others]

end PrefixFree

/-- A string after its length can be told from what follows. -/
theorem prefixFree_littleEndian (width : ℕ) :
    PrefixFree (fun bytes : List (BitVec 8) => bytes.length < 256 ^ width)
      fun bytes => littleEndian width bytes.length ++ bytes := by
  intro a b rest rest' aShort bShort same
  simp only [List.append_assoc] at same
  obtain ⟨lengths, same⟩ := List.append_inj same (by simp only [length_littleEndian])
  exact List.append_inj same (littleEndian_injective aShort bShort lengths)

end PrefixFree

end MetaVm.Framing
