import MetaVm.Zkp.LayerChain

namespace MetaVm.Zkp

open Framing

/-! Every reader of the proof formats takes exactly what its writer puts, as
long as lengths fit their prefixes. -/

/-- A length that four bytes can hold. -/
def Short (length : ℕ) : Prop := length < 2 ^ 32

def ShortBytes (bytes : List Byte) : Prop := Short bytes.length

def ShortStrings (strings : List (List Byte)) : Prop :=
  Short strings.length ∧ ∀ bytes ∈ strings, ShortBytes bytes

def ShortCommitments (commitments : List Commitment) : Prop :=
  Short commitments.length ∧ ∀ commitment ∈ commitments, ShortBytes commitment.bytes

def ShortBatchProof (proof : BatchProof) : Prop := ShortBytes proof.d ∧ ShortBytes proof.proof

/-- What holds of a value when there is one. -/
def WhenPresent {α : Type} (valid : α → Prop) : Option α → Prop
  | none => True
  | some value => valid value

section Parts

variable {ε α : Type}

theorem readU32_reads {truncated : ℕ → ℕ → ε} :
    Reads (readBigEndian truncated 4) Short writeU32 :=
  readBigEndian_reads truncated 4

theorem readLp_reads {truncated : ℕ → ℕ → ε} :
    Reads (readPrefixed truncated 4) ShortBytes writeBytes :=
  readPrefixed_reads truncated 4

theorem readU64_reads {truncated : ℕ → ℕ → ε} :
    Reads (readWord truncated 8) (fun _ => True) writeU64 :=
  readWord_reads truncated 8

/-- A list comes after its length. -/
theorem readVec_reads {truncated : ℕ → ℕ → ε} {read : Reader Byte ε α} {valid : α → Prop}
    {write : α → List Byte} (reads : Reads read valid write) :
    Reads (readBigEndian truncated 4 >>= readMany read)
      (fun values => Short values.length ∧ ∀ value ∈ values, valid value)
      (fun values => writeU32 values.length ++ values.flatMap write) := by
  intro input values rest
  simp only [bind_eq_ok, readU32_reads _ _ _, reads.readMany _ _ _ _]
  constructor
  · rintro ⟨_, _, ⟨small, rfl⟩, ⟨rfl, all⟩, rfl⟩
    exact ⟨⟨small, all⟩, (List.append_assoc _ _ _).symm⟩
  · rintro ⟨⟨small, all⟩, rfl⟩
    exact ⟨values.length, values.flatMap write ++ rest, ⟨small, List.append_assoc _ _ _⟩,
      ⟨rfl, all⟩, rfl⟩

theorem readSlice_eq {length : ℕ} {input : List Byte} {slice rest : List Byte} :
    readSlice length input = .ok (slice, rest) ↔ slice.length = length ∧ input = slice ++ rest := by
  have taken := take_reads ProofDecodeError.truncated length input slice rest
  rw [id] at taken
  rw [← taken, readSlice]
  split
  · rename_i short
    rw [take, if_pos short]
    constructor <;> rintro ⟨⟩
  · rfl

theorem readBytes_reads : Reads readBytes ShortBytes writeBytes := by
  intro input bytes rest
  simp only [readBytes, bind_eq_ok, readU32, readU32_reads _ _ _, readSlice_eq]
  constructor
  · rintro ⟨_, _, ⟨small, rfl⟩, rfl, rfl⟩
    exact ⟨small, (List.append_assoc _ _ _).symm⟩
  · rintro ⟨small, rfl⟩
    exact ⟨bytes.length, bytes ++ rest, ⟨small, List.append_assoc _ _ _⟩, rfl, rfl⟩

theorem readCommitment_reads : Reads readCommitment (fun commitment => ShortBytes commitment.bytes)
    (fun commitment => writeBytes commitment.bytes) :=
  readBytes_reads.map (fun _ => rfl) fun _ => rfl

theorem readVecBytes_reads : Reads readVecBytes ShortStrings writeVecBytes :=
  readVec_reads readBytes_reads

theorem readVecCommit_reads : Reads readVecCommit ShortCommitments writeVecCommit :=
  readVec_reads readCommitment_reads

theorem readBatchProof_reads : Reads readBatchProof ShortBatchProof writeBatchProof := by
  refine Reads.congr (readBytes_reads.record BatchProof.d fun d =>
    readBytes_reads.field BatchProof.proof fun proof => .pure fun other => ?_)
    (fun other => ?_) fun other => ?_
  · cases other
    simp
  · rw [and_true]
    rfl
  · rw [List.append_nil]
    rfl

theorem readOption_reads {read : ProofReader α} {valid : α → Prop} {write : α → List Byte}
    (reads : Reads read valid write) :
    Reads (readOption read) (WhenPresent valid) (writeOption write) := by
  intro input value rest
  rw [readOption, bind_eq_ok]
  simp only [readU8, readByte_reads _ _ _ _, true_and]
  constructor
  · rintro ⟨tag, middle, rfl, later⟩
    split at later
    · rename_i absent
      obtain ⟨rfl, rfl⟩ := Prod.mk.inj (Except.ok.inj later)
      exact ⟨trivial, by rw [absent]; rfl⟩
    · split at later
      · rename_i present
        obtain ⟨inner, _, done, last⟩ := bind_eq_ok.1 later
        obtain ⟨rfl, rfl⟩ := Prod.mk.inj (Except.ok.inj last)
        obtain ⟨holds, rfl⟩ := (reads _ _ _).1 done
        exact ⟨holds, by rw [present]; rfl⟩
      · cases later
  · rintro ⟨holds, rfl⟩
    cases value with
    | none => exact ⟨0, rest, rfl, rfl⟩
    | some inner =>
        refine ⟨1, write inner ++ rest, rfl, ?_⟩
        rw [if_neg (by decide), if_pos rfl, bind_eq_ok]
        exact ⟨inner, rest, (reads _ _ _).2 ⟨holds, rfl⟩, rfl⟩

theorem readOptionBatchProof_reads :
    Reads readOptionBatchProof (WhenPresent ShortBatchProof) writeOptionBatchProof :=
  readOption_reads readBatchProof_reads

theorem readOptionCommit_reads :
    Reads readOptionCommit (WhenPresent fun commitment => ShortBytes commitment.bytes)
      writeOptionCommit :=
  readOption_reads readCommitment_reads

theorem readOptionBytes_reads :
    Reads readOptionBytes (WhenPresent ShortBytes) writeOptionBytes :=
  readOption_reads readBytes_reads

theorem readQuotientChunks_reads : Reads readQuotientChunks (· ≠ 0) (fun count => [count]) := by
  intro input count rest
  rw [readQuotientChunks, bind_eq_ok]
  simp only [readU8, readByte_reads _ _ _ _, true_and]
  constructor
  · rintro ⟨found, middle, rfl, later⟩
    split at later
    · cases later
    · rename_i some
      obtain ⟨rfl, rfl⟩ := Prod.mk.inj (Except.ok.inj later)
      exact ⟨some, rfl⟩
  · rintro ⟨some, rfl⟩
    refine ⟨count, rest, rfl, ?_⟩
    rw [if_neg some]
    rfl

end Parts

/-! Execution proofs. -/

namespace ExecutionProof

/-- All lengths fit their prefixes, and there are quotient chunks. -/
def Framed (proof : ExecutionProof) : Prop :=
  ShortCommitments proof.columnCommitments ∧
  ShortCommitments proof.quotientCommitments ∧
  ShortStrings proof.evaluations ∧
  ShortBatchProof proof.openingProof ∧
  proof.numQuotientChunks ≠ 0 ∧
  ShortStrings proof.shiftedEvaluations ∧
  WhenPresent ShortBatchProof proof.shiftedOpeningProof ∧
  ShortCommitments proof.logupCommitments ∧
  ShortStrings proof.logupEvaluations ∧
  ShortStrings proof.logupShiftedEvaluations ∧
  WhenPresent ShortBatchProof proof.logupOpeningProof ∧
  WhenPresent ShortBatchProof proof.logupShiftedOpeningProof ∧
  ShortCommitments proof.bitwiseCommitments ∧
  ShortStrings proof.bitwiseEvaluations ∧
  ShortStrings proof.bitwiseShiftedEvaluations ∧
  WhenPresent ShortBatchProof proof.bitwiseOpeningProof ∧
  WhenPresent ShortBatchProof proof.bitwiseShiftedOpeningProof ∧
  ShortCommitments proof.permCommitments ∧
  ShortStrings proof.permEvaluations ∧
  ShortStrings proof.permShiftedEvaluations ∧
  WhenPresent ShortBatchProof proof.permOpeningProof ∧
  WhenPresent ShortBatchProof proof.permShiftedOpeningProof ∧
  ShortStrings proof.oracleData ∧
  ShortCommitments proof.regPermCommitments ∧
  ShortStrings proof.regPermEvaluations ∧
  ShortStrings proof.regPermShiftedEvaluations ∧
  WhenPresent ShortBatchProof proof.regPermOpeningProof ∧
  WhenPresent ShortBatchProof proof.regPermShiftedOpeningProof ∧
  WhenPresent (fun commitment => ShortBytes commitment.bytes) proof.framePermCommitment ∧
  WhenPresent ShortBytes proof.framePermEvaluation ∧
  WhenPresent ShortBytes proof.framePermShiftedEvaluation ∧
  WhenPresent ShortBatchProof proof.framePermOpeningProof ∧
  WhenPresent ShortBatchProof proof.framePermShiftedOpeningProof ∧
  ShortStrings proof.framePermPopShiftedEvaluations ∧
  WhenPresent ShortBatchProof proof.framePermPopShiftedOpeningProof

theorem read_reads : Reads read Framed toBytes := by
  apply Reads.congr
  · apply readVecCommit_reads.record columnCommitments; intro _
    apply readVecCommit_reads.field quotientCommitments; intro _
    apply readVecBytes_reads.field evaluations; intro _
    apply readBatchProof_reads.field openingProof; intro _
    apply readU64_reads.field numSteps; intro _
    apply readU64_reads.field domainSize; intro _
    apply readQuotientChunks_reads.field numQuotientChunks; intro _
    apply readVecBytes_reads.field shiftedEvaluations; intro _
    apply readOptionBatchProof_reads.field shiftedOpeningProof; intro _
    apply readVecCommit_reads.field logupCommitments; intro _
    apply readVecBytes_reads.field logupEvaluations; intro _
    apply readVecBytes_reads.field logupShiftedEvaluations; intro _
    apply readOptionBatchProof_reads.field logupOpeningProof; intro _
    apply readOptionBatchProof_reads.field logupShiftedOpeningProof; intro _
    apply readVecCommit_reads.field bitwiseCommitments; intro _
    apply readVecBytes_reads.field bitwiseEvaluations; intro _
    apply readVecBytes_reads.field bitwiseShiftedEvaluations; intro _
    apply readOptionBatchProof_reads.field bitwiseOpeningProof; intro _
    apply readOptionBatchProof_reads.field bitwiseShiftedOpeningProof; intro _
    apply readVecCommit_reads.field permCommitments; intro _
    apply readVecBytes_reads.field permEvaluations; intro _
    apply readVecBytes_reads.field permShiftedEvaluations; intro _
    apply readOptionBatchProof_reads.field permOpeningProof; intro _
    apply readOptionBatchProof_reads.field permShiftedOpeningProof; intro _
    apply readVecBytes_reads.field oracleData; intro _
    apply readVecCommit_reads.field regPermCommitments; intro _
    apply readVecBytes_reads.field regPermEvaluations; intro _
    apply readVecBytes_reads.field regPermShiftedEvaluations; intro _
    apply readOptionBatchProof_reads.field regPermOpeningProof; intro _
    apply readOptionBatchProof_reads.field regPermShiftedOpeningProof; intro _
    apply readOptionCommit_reads.field framePermCommitment; intro _
    apply readOptionBytes_reads.field framePermEvaluation; intro _
    apply readOptionBytes_reads.field framePermShiftedEvaluation; intro _
    apply readOptionBatchProof_reads.field framePermOpeningProof; intro _
    apply readOptionBatchProof_reads.field framePermShiftedOpeningProof; intro _
    apply readVecBytes_reads.field framePermPopShiftedEvaluations; intro _
    apply readOptionBatchProof_reads.field framePermPopShiftedOpeningProof; intro _
    refine .pure fun proof => ?_
    cases proof
    simp only [mk.injEq, true_and, and_assoc]
  · intro proof
    simp only [Framed, true_and, and_true]
  · intro proof
    simp only [toBytes, List.flatten_cons, List.flatten_nil]

theorem fromBytes_iff {bytes : List Byte} {proof : ExecutionProof} :
    fromBytes bytes = .ok proof ↔ proof.Framed ∧ bytes = proof.toBytes :=
  read_reads.runAll_iff

end ExecutionProof

/-! Chunk proofs. -/

theorem writeU32_fromBigEndian {bytes : List Byte} (size : bytes.length = 4) :
    writeU32 (fromBigEndian bytes) = bytes := by
  rw [writeU32, ← size, bigEndian_fromBigEndian]

theorem writeU64_fromBigEndian {bytes : List Byte} (size : bytes.length = 8) :
    writeU64 (BitVec.ofNat 64 (fromBigEndian bytes)) = bytes := by
  have bound : fromBigEndian bytes < 2 ^ 64 := by
    have small := fromBigEndian_lt bytes
    rwa [size] at small
  rw [writeU64, BitVec.toNat_ofNat, Nat.mod_eq_of_lt bound, ← size, bigEndian_fromBigEndian]

theorem fromBigEndian_writeU64 (word : BitVec 64) :
    BitVec.ofNat 64 (fromBigEndian (writeU64 word)) = word := by
  have bound : word.toNat < 256 ^ 8 := word.isLt
  rw [writeU64, fromBigEndian_bigEndian, Nat.mod_eq_of_lt bound, BitVec.ofNat_toNat,
    BitVec.setWidth_eq]

namespace ChunkProof

def Framed (chunk : ChunkProof) : Prop := chunk.executionProof.Framed

theorem slice_eq {before middle after : List Byte} {start stop : ℕ}
    (startEq : before.length = start) (stopEq : start + middle.length = stop) :
    slice (before ++ (middle ++ after)) start stop = middle := by
  rw [slice, ← stopEq, ← startEq, List.drop_take, List.drop_left, Nat.add_sub_cancel_left,
    List.take_left]

theorem slice_append {bytes : List Byte} {start middle stop : ℕ} (first : start ≤ middle)
    (second : middle ≤ stop) :
    slice bytes start middle ++ slice bytes middle stop = slice bytes start stop := by
  obtain ⟨front, rfl⟩ := Nat.exists_eq_add_of_le first
  obtain ⟨back, rfl⟩ := Nat.exists_eq_add_of_le second
  have rest : start + front + back - (start + front) = back := by omega
  have whole : start + front + back - start = front + back := by omega
  simp only [slice, List.drop_take, rest, whole, Nat.add_sub_cancel_left]
  rw [← List.drop_drop, List.take_add]

theorem slice_length {bytes : List Byte} {start stop : ℕ} (inside : stop ≤ bytes.length) :
    (slice bytes start stop).length = stop - start := by
  rw [slice, List.length_drop, List.length_take_of_le inside]

/-- A string that is cut at the right places is read part by part. -/
theorem fromBytes_parts {lengthBytes inner initial final index : List Byte}
    (lengthSize : lengthBytes.length = 4) (innerSize : fromBigEndian lengthBytes = inner.length)
    (initialSize : initial.length = 32) (finalSize : final.length = 32)
    (indexSize : index.length = 8) {executionProof : ExecutionProof}
    (decoded : ExecutionProof.fromBytes inner = .ok executionProof) :
    fromBytes (lengthBytes ++ (inner ++ (initial ++ (final ++ index)))) =
      .ok ⟨executionProof, ⟨initial, initialSize⟩, ⟨final, finalSize⟩,
        BitVec.ofNat 64 (fromBigEndian index)⟩ := by
  have size : (lengthBytes ++ (inner ++ (initial ++ (final ++ index)))).length =
      4 + inner.length + 72 := by
    simp only [List.length_append]
    omega
  have innerSlice : slice (lengthBytes ++ (inner ++ (initial ++ (final ++ index)))) 4
      (4 + inner.length) = inner := slice_eq lengthSize rfl
  have initialSlice : slice (lengthBytes ++ (inner ++ (initial ++ (final ++ index))))
      (4 + inner.length) (4 + inner.length + 32) = initial := by
    rw [← List.append_assoc]
    exact slice_eq (by rw [List.length_append, lengthSize]) (by rw [initialSize])
  have finalSlice : slice (lengthBytes ++ (inner ++ (initial ++ (final ++ index))))
      (4 + inner.length + 32) (4 + inner.length + 64) = final := by
    rw [← List.append_assoc, ← List.append_assoc]
    exact slice_eq (by rw [List.length_append, List.length_append, lengthSize, initialSize])
      (by rw [finalSize])
  have indexSlice : slice (lengthBytes ++ (inner ++ (initial ++ (final ++ index))))
      (4 + inner.length + 64) (4 + inner.length + 72) = index := by
    have last := @slice_eq (lengthBytes ++ inner ++ initial ++ final) index []
      (4 + inner.length + 64) (4 + inner.length + 72)
      (by simp only [List.length_append]; omega) (by rw [indexSize])
    simpa only [List.append_nil, List.append_assoc] using last
  have lengthPrefix : (lengthBytes ++ (inner ++ (initial ++ (final ++ index)))).take 4 =
      lengthBytes := List.take_left' lengthSize
  rw [fromBytes, if_neg (by omega)]
  simp only [lengthPrefix, innerSize]
  rw [dif_neg (by omega)]
  simp only [innerSlice, initialSlice, finalSlice, indexSlice, decoded, size, ne_eq,
    not_true_eq_false, if_false]

/-- The inner proof is read when its length fits the prefix. -/
theorem fromBytes_toBytes {chunk : ChunkProof} (framed : chunk.Framed)
    (short : ShortBytes chunk.executionProof.toBytes) : fromBytes chunk.toBytes = .ok chunk := by
  have innerSize : fromBigEndian (writeU32 chunk.executionProof.toBytes.length) =
      chunk.executionProof.toBytes.length := by
    rw [writeU32, fromBigEndian_bigEndian]
    exact Nat.mod_eq_of_lt short
  have parts := @fromBytes_parts _ _ _ _ (writeU64 chunk.chunkIndex) (length_bigEndian 4 _)
    innerSize chunk.initialStateHash.2 chunk.finalStateHash.2 (length_bigEndian 8 _) _
    (ExecutionProof.fromBytes_iff.2 ⟨framed, rfl⟩)
  rw [fromBigEndian_writeU64] at parts
  rw [← parts, toBytes]
  simp only [List.append_assoc]
  rfl

/-- An accepted string is what is written for the chunk that it denotes. -/
theorem of_fromBytes {bytes : List Byte} {chunk : ChunkProof}
    (accepted : fromBytes bytes = .ok chunk) :
    chunk.Framed ∧ ShortBytes chunk.executionProof.toBytes ∧ bytes = chunk.toBytes := by
  obtain ⟨innerSize, innerSizeEq⟩ : ∃ size, fromBigEndian (bytes.take 4) = size := ⟨_, rfl⟩
  rw [fromBytes] at accepted
  split at accepted
  · cases accepted
  rename_i long
  have lengthSize : (bytes.take 4).length = 4 := List.length_take_of_le (Nat.not_lt.1 long)
  have small := fromBigEndian_lt (bytes.take 4)
  rw [innerSizeEq, lengthSize] at small
  simp only [innerSizeEq] at accepted
  split at accepted
  · cases accepted
  rename_i enough
  split at accepted
  · cases accepted
  rename_i executionProof decoded
  split at accepted
  · cases accepted
  rename_i exact
  obtain rfl := Except.ok.inj accepted
  obtain ⟨framed, inner⟩ := ExecutionProof.fromBytes_iff.1 decoded
  have innerLength : executionProof.toBytes.length = innerSize := by
    rw [← inner, slice_length (by omega), Nat.add_sub_cancel_left]
  refine ⟨framed, show executionProof.toBytes.length < 2 ^ 32 from innerLength ▸ small, ?_⟩
  have lengthBytes : writeU32 executionProof.toBytes.length = slice bytes 0 4 := by
    rw [innerLength, ← innerSizeEq, writeU32_fromBigEndian lengthSize]
    rfl
  have index := @writeU64_fromBigEndian (slice bytes (4 + innerSize + 64) (4 + innerSize + 72))
    (by rw [slice_length (by omega)]; omega)
  rw [toBytes]
  simp only [lengthBytes, index]
  rw [← inner, slice_append (by omega) (by omega), slice_append (by omega) (by omega),
    slice_append (by omega) (by omega), slice_append (by omega) (by omega), slice, List.drop_zero,
    List.take_of_length_le (by omega)]

/-- The length of the inner proof is written in four bytes, so a longer proof is
cut when it is read. -/
theorem fromBytes_toBytes_iff {chunk : ChunkProof} (framed : chunk.Framed) :
    fromBytes chunk.toBytes = .ok chunk ↔ ShortBytes chunk.executionProof.toBytes :=
  ⟨fun accepted => (of_fromBytes accepted).2.1, fromBytes_toBytes framed⟩

end ChunkProof

/-! Recursive proofs. -/

namespace RecursiveProof

/-- All lengths of a recursive proof fit their prefixes, with those of the proof
inside. -/
def Framed (proof : RecursiveProof) : Prop :=
  proof.currentProof.Framed ∧ ShortBytes proof.accumulator.lAcc ∧
  ShortBytes proof.accumulator.rAcc ∧ ShortBytes proof.accumulator.scalarAcc

theorem readInner_reads : Reads readInner
    (fun proof => proof.Framed ∧ ShortBytes proof.toBytes)
    (fun proof => writeBytes proof.toBytes) := by
  intro input proof rest
  simp only [readInner, bind_eq_ok, readLp, readLp_reads _ _ _]
  constructor
  · rintro ⟨inner, middle, ⟨short, rfl⟩, later⟩
    cases decoded : ExecutionProof.fromBytes inner with
    | error fault =>
        rw [decoded] at later
        cases later
    | ok found =>
        rw [decoded] at later
        obtain ⟨rfl, rfl⟩ := Prod.mk.inj (Except.ok.inj later)
        obtain ⟨framed, rfl⟩ := ExecutionProof.fromBytes_iff.1 decoded
        exact ⟨⟨framed, short⟩, rfl⟩
  · rintro ⟨⟨framed, short⟩, rfl⟩
    refine ⟨proof.toBytes, rest, ⟨short, rfl⟩, ?_⟩
    rw [ExecutionProof.fromBytes_iff.2 ⟨framed, rfl⟩]
    rfl

theorem readOptionalHash_reads : Reads (readOption readHash) (fun _ => True) writeOptionalHash := by
  refine (readOption_reads (readArray_reads _ _)).congr (fun hash => ?_) fun _ => rfl
  cases hash <;> exact Iff.rfl

theorem read_reads : Reads read
    (fun proof => proof.Framed ∧ ShortBytes proof.currentProof.toBytes) toBytes := by
  apply Reads.congr
  · apply readInner_reads.record currentProof; intro _
    apply readLp_reads.field (fun proof : RecursiveProof => proof.accumulator.lAcc); intro _
    apply readLp_reads.field (fun proof : RecursiveProof => proof.accumulator.rAcc); intro _
    apply readLp_reads.field (fun proof : RecursiveProof => proof.accumulator.scalarAcc); intro _
    apply readU64_reads.field (fun proof : RecursiveProof => proof.accumulator.numFolded); intro _
    apply readU64_reads.field depth; intro _
    apply readOptionalHash_reads.field initialStateHash; intro _
    apply readOptionalHash_reads.field finalStateHash; intro _
    refine .pure fun proof => ?_
    obtain ⟨_, accumulator, _, _, _⟩ := proof
    cases accumulator
    simp only [mk.injEq, AccumulatedClaim.mk.injEq, true_and, and_assoc]
    tauto
  · intro proof
    simp only [Framed, and_true]
    tauto
  · intro proof
    simp only [toBytes, List.flatten_cons, List.flatten_nil]

theorem fromBytes_iff {bytes : List Byte} {proof : RecursiveProof} :
    fromBytes bytes = .ok proof ↔
      (proof.Framed ∧ ShortBytes proof.currentProof.toBytes) ∧ bytes = proof.toBytes :=
  read_reads.runAll_iff

theorem fromBytes_toBytes_iff {proof : RecursiveProof} (framed : proof.Framed) :
    fromBytes proof.toBytes = .ok proof ↔ ShortBytes proof.currentProof.toBytes := by
  rw [fromBytes_iff, and_iff_left rfl, and_iff_right framed]

end RecursiveProof

/-! Layer chains. -/

namespace ChainReader

theorem readHash_reads : Reads readHash (fun _ => True) Subtype.val := readArray_reads _ _

theorem readU64_reads : Reads readU64 (fun _ => True) writeU64 := readWord_reads _ _

theorem decodeKind_eq_some {byte : Byte} {kind : LayerProofKind} :
    decodeKind byte = some kind ↔ byte = encodeKind kind := by
  constructor
  · fun_cases decodeKind byte with
    | case13 =>
        intro decoded
        cases decoded
    | _ tagged =>
        intro decoded
        obtain rfl := Option.some.inj decoded
        assumption
  · rintro rfl
    cases kind <;> decide

theorem readKind_reads : Reads readKind (fun _ => True) (fun kind => [encodeKind kind]) := by
  intro input kind rest
  simp only [readKind, bind_eq_ok, readU8, readByte_reads _ _ _ _, true_and]
  constructor
  · rintro ⟨byte, middle, rfl, later⟩
    cases decoded : decodeKind byte with
    | none =>
        rw [decoded] at later
        cases later
    | some found =>
        rw [decoded] at later
        obtain ⟨rfl, rfl⟩ := Prod.mk.inj (Except.ok.inj later)
        rw [decodeKind_eq_some.1 decoded]
  · rintro rfl
    refine ⟨encodeKind kind, rest, rfl, ?_⟩
    rw [decodeKind_eq_some.2 rfl]
    rfl

/-- What follows the tag of a claim is read under that tag. -/
theorem decodeClaim_reads : Reads decodeClaim (fun _ => True) encodeClaim := by
  intro input claim rest
  simp only [decodeClaim, bind_eq_ok, readU8, readByte_reads _ _ _ _, true_and]
  constructor
  · rintro ⟨tag, middle, rfl, later⟩
    split at later
    · rename_i execution
      simp only [bind_eq_ok, readHash_reads _ _ _, true_and] at later
      obtain ⟨blockHash, _, rfl, last⟩ := later
      obtain ⟨rfl, rfl⟩ := Prod.mk.inj (Except.ok.inj last)
      rw [execution]
      rfl
    split at later
    · rename_i binding
      simp only [bind_eq_ok, readHash_reads _ _ _, true_and] at later
      obtain ⟨blockHash, _, rfl, beaconBlockRoot, _, rfl, last⟩ := later
      obtain ⟨rfl, rfl⟩ := Prod.mk.inj (Except.ok.inj last)
      simp only [binding, encodeClaim, List.cons_append, List.nil_append, List.append_assoc]
    split at later
    · rename_i attestation
      simp only [bind_eq_ok, readHash_reads _ _ _, readU64_reads _ _ _, true_and] at later
      obtain ⟨beaconBlockRoot, _, rfl, dataRoot, _, rfl, numAttesters, _, rfl, last⟩ := later
      obtain ⟨rfl, rfl⟩ := Prod.mk.inj (Except.ok.inj last)
      simp only [attestation, encodeClaim, List.cons_append, List.nil_append, List.append_assoc]
    split at later
    · rename_i finality
      simp only [bind_eq_ok, readHash_reads _ _ _, readU64_reads _ _ _, true_and] at later
      obtain ⟨dataRoot, _, rfl, finalizedRoot, _, rfl, balance, _, rfl, last⟩ := later
      obtain ⟨rfl, rfl⟩ := Prod.mk.inj (Except.ok.inj last)
      simp only [finality, encodeClaim, List.cons_append, List.nil_append, List.append_assoc]
    · cases later
  · rintro rfl
    cases claim with
    | execution blockHash =>
        refine ⟨0, blockHash.1 ++ rest, rfl, ?_⟩
        simp only [if_pos, bind_eq_ok, readHash_reads _ _ _, true_and]
        exact ⟨blockHash, rest, rfl, rfl⟩
    | blockBinding blockHash beaconBlockRoot =>
        refine ⟨1, blockHash.1 ++ (beaconBlockRoot.1 ++ rest), ?_, ?_⟩
        · simp only [encodeClaim, List.cons_append, List.nil_append, List.append_assoc]
        rw [if_neg (by decide), if_pos rfl]
        simp only [bind_eq_ok, readHash_reads _ _ _, true_and]
        exact ⟨blockHash, _, rfl, beaconBlockRoot, rest, rfl, rfl⟩
    | attestation beaconBlockRoot dataRoot numAttesters =>
        refine ⟨2, beaconBlockRoot.1 ++ (dataRoot.1 ++ (writeU64 numAttesters ++ rest)), ?_, ?_⟩
        · simp only [encodeClaim, List.cons_append, List.nil_append, List.append_assoc]
        rw [if_neg (by decide), if_neg (by decide), if_pos rfl]
        simp only [bind_eq_ok, readHash_reads _ _ _, readU64_reads _ _ _, true_and]
        exact ⟨beaconBlockRoot, _, rfl, dataRoot, _, rfl, numAttesters, rest, rfl, rfl⟩
    | finality dataRoot finalizedRoot balance =>
        refine ⟨3, dataRoot.1 ++ (finalizedRoot.1 ++ (writeU64 balance ++ rest)), ?_, ?_⟩
        · simp only [encodeClaim, List.cons_append, List.nil_append, List.append_assoc]
        rw [if_neg (by decide), if_neg (by decide), if_neg (by decide), if_pos rfl]
        simp only [bind_eq_ok, readHash_reads _ _ _, readU64_reads _ _ _, true_and]
        exact ⟨dataRoot, _, rfl, finalizedRoot, _, rfl, balance, rest, rfl, rfl⟩

theorem readLayer_reads : Reads readLayer (fun layer => ShortBytes layer.proofBytes)
    LayerChainProof.writeLayer := by
  apply Reads.congr
  · apply decodeClaim_reads.record LayerProof.claim; intro _
    apply readKind_reads.field LayerProof.kind; intro _
    apply readLp_reads.field LayerProof.proofBytes; intro _
    refine .pure fun layer => ?_
    cases layer
    simp only [LayerProof.mk.injEq, true_and, and_assoc]
  · intro layer
    simp only [true_and, and_true]
  · intro layer
    simp only [LayerChainProof.writeLayer, List.flatten_cons, List.flatten_nil]

end ChainReader

namespace LayerChainProof

def Framed (chain : LayerChainProof) : Prop :=
  Short chain.layers.length ∧ ∀ layer ∈ chain.layers, ShortBytes layer.proofBytes

theorem read_reads : Reads read Framed toBytes := by
  have layers := @readVec_reads _ _ ChainDecodeError.truncated _ _ _ ChainReader.readLayer_reads
  have chain := @Reads.map _ _ _ _ _ _ _ LayerChainProof.mk LayerChainProof.layers layers
    (fun _ => rfl) fun _ => rfl
  rw [bind_assoc] at chain
  exact chain

theorem fromBytes_iff {bytes : List Byte} {chain : LayerChainProof} :
    fromBytes bytes = .ok chain ↔ chain.Framed ∧ bytes = chain.toBytes :=
  read_reads.runAll_iff

end LayerChainProof

/-! All four formats together. -/

/-- A proof is read back from its encoding, where a proof that has another one
inside needs that one to be short, and nothing but an encoding is read. -/
theorem proof_codecs_exact (bytes : List Byte) (proof : ExecutionProof) (chunk : ChunkProof)
    (recursive : RecursiveProof) (chain : LayerChainProof) :
    (proof.Framed → ExecutionProof.fromBytes proof.toBytes = .ok proof) ∧
    (chunk.Framed →
      (ChunkProof.fromBytes chunk.toBytes = .ok chunk ↔
        ShortBytes chunk.executionProof.toBytes)) ∧
    (recursive.Framed →
      (RecursiveProof.fromBytes recursive.toBytes = .ok recursive ↔
        ShortBytes recursive.currentProof.toBytes)) ∧
    (chain.Framed → LayerChainProof.fromBytes chain.toBytes = .ok chain) ∧
    (ExecutionProof.fromBytes bytes = .ok proof → bytes = proof.toBytes) ∧
    (ChunkProof.fromBytes bytes = .ok chunk → bytes = chunk.toBytes) ∧
    (RecursiveProof.fromBytes bytes = .ok recursive → bytes = recursive.toBytes) ∧
    (LayerChainProof.fromBytes bytes = .ok chain → bytes = chain.toBytes) := by
  refine ⟨fun framed => ?_, fun framed => ?_, fun framed => ?_, fun framed => ?_,
    fun accepted => ?_, fun accepted => ?_, fun accepted => ?_, fun accepted => ?_⟩
  · exact ExecutionProof.fromBytes_iff.2 ⟨framed, rfl⟩
  · exact ChunkProof.fromBytes_toBytes_iff framed
  · exact RecursiveProof.fromBytes_toBytes_iff framed
  · exact LayerChainProof.fromBytes_iff.2 ⟨framed, rfl⟩
  · exact (ExecutionProof.fromBytes_iff.1 accepted).2
  · exact (ChunkProof.of_fromBytes accepted).2.2
  · exact (RecursiveProof.fromBytes_iff.1 accepted).2
  · exact (LayerChainProof.fromBytes_iff.1 accepted).2

/-- A proof of nothing but the given oracle data. -/
def ExecutionProof.ofOracleData (oracleData : List (List Byte)) : ExecutionProof where
  columnCommitments := []
  quotientCommitments := []
  evaluations := []
  openingProof := ⟨[], []⟩
  numSteps := 0
  domainSize := 0
  numQuotientChunks := 1
  shiftedEvaluations := []
  shiftedOpeningProof := none
  logupCommitments := []
  logupEvaluations := []
  logupShiftedEvaluations := []
  logupOpeningProof := none
  logupShiftedOpeningProof := none
  bitwiseCommitments := []
  bitwiseEvaluations := []
  bitwiseShiftedEvaluations := []
  bitwiseOpeningProof := none
  bitwiseShiftedOpeningProof := none
  permCommitments := []
  permEvaluations := []
  permShiftedEvaluations := []
  permOpeningProof := none
  permShiftedOpeningProof := none
  oracleData := oracleData
  regPermCommitments := []
  regPermEvaluations := []
  regPermShiftedEvaluations := []
  regPermOpeningProof := none
  regPermShiftedOpeningProof := none
  framePermCommitment := none
  framePermEvaluation := none
  framePermShiftedEvaluation := none
  framePermOpeningProof := none
  framePermShiftedOpeningProof := none
  framePermPopShiftedEvaluations := []
  framePermPopShiftedOpeningProof := none

theorem ExecutionProof.framed_ofOracleData {oracleData : List (List Byte)} :
    (ofOracleData oracleData).Framed ↔ ShortStrings oracleData := by
  have noBytes : ShortBytes [] := Nat.two_pow_pos 32
  have noStrings : ShortStrings [] := ⟨noBytes, fun _ member => nomatch member⟩
  have noCommitments : ShortCommitments [] := ⟨noBytes, fun _ member => nomatch member⟩
  simp only [Framed, ofOracleData, WhenPresent, ShortBatchProof, noBytes, noStrings,
    noCommitments, and_true, true_and, ne_eq, and_iff_right_iff_imp]
  intro _
  decide

/-- The encoding is not shorter than the strings in it. -/
theorem ExecutionProof.length_oracleData_le (proof : ExecutionProof) :
    (proof.oracleData.flatMap writeBytes).length ≤ proof.toBytes.length := by
  have part : List.Sublist (writeVecBytes proof.oracleData) proof.toBytes := by
    apply List.sublist_flatten_of_mem
    simp only [List.mem_cons, true_or, or_true]
  exact ((List.sublist_append_right _ _).trans part).length_le

/-- The chunk of a proof of oracle data. -/
def ChunkProof.ofOracleData (oracleData : List (List Byte)) : ChunkProof where
  executionProof := .ofOracleData oracleData
  initialStateHash := ⟨List.replicate 32 0, List.length_replicate⟩
  finalStateHash := ⟨List.replicate 32 0, List.length_replicate⟩
  chunkIndex := 0

/-- A proof with columns, a shifted opening, oracle data and a frame commitment. -/
def ExecutionProof.withOpenings : ExecutionProof :=
  { ofOracleData [[0xC2, 1, 2], []] with
    columnCommitments := [⟨[0x80, 1]⟩, ⟨[0x80, 2]⟩]
    quotientCommitments := [⟨[0x80, 3]⟩]
    evaluations := [[5], [6, 7]]
    openingProof := ⟨[8], [9, 10]⟩
    numSteps := 3
    domainSize := 4
    shiftedEvaluations := [[11]]
    shiftedOpeningProof := some ⟨[], [12]⟩
    framePermCommitment := some ⟨[0x80, 4]⟩
    framePermEvaluation := some [13] }

theorem ExecutionProof.framed_withOpenings : withOpenings.Framed := by
  simp [Framed, withOpenings, ofOracleData, ShortCommitments, ShortStrings, ShortBatchProof, ShortBytes,
    Short, WhenPresent]

set_option maxRecDepth 2000 in
theorem ExecutionProof.short_withOpenings : ShortBytes withOpenings.toBytes :=
  show withOpenings.toBytes.length < 2 ^ 32 by decide

/-- The proof by itself, in a chunk, in a folded proof and as the layer of a chain. -/
theorem proof_codecs_exact_withOpenings :
    let proof := ExecutionProof.withOpenings
    let hash : Hash32 := ⟨List.replicate 32 7, List.length_replicate⟩
    let chunk : ChunkProof := ⟨proof, hash, hash, 1⟩
    let recursive : RecursiveProof := ⟨proof, ⟨[1], [2], 1, [3]⟩, 1, some hash, none⟩
    let chain : LayerChainProof := ⟨[⟨.execution hash, .vmEvm, proof.toBytes⟩]⟩
    ExecutionProof.fromBytes proof.toBytes = .ok proof ∧
      ChunkProof.fromBytes chunk.toBytes = .ok chunk ∧
      RecursiveProof.fromBytes recursive.toBytes = .ok recursive ∧
      LayerChainProof.fromBytes chain.toBytes = .ok chain := by
  intro proof hash chunk recursive chain
  have codecs := proof_codecs_exact [] proof chunk recursive chain
  have framed : proof.Framed := ExecutionProof.framed_withOpenings
  have short : ShortBytes proof.toBytes := ExecutionProof.short_withOpenings
  have layers : chain.Framed :=
    ⟨show 1 < 2 ^ 32 by decide, fun layer member => List.mem_singleton.1 member ▸ short⟩
  have accumulator : recursive.Framed :=
    ⟨framed, show 1 < 2 ^ 32 by decide, show 1 < 2 ^ 32 by decide, show 1 < 2 ^ 32 by decide⟩
  exact ⟨codecs.1 framed, (codecs.2.1 framed).2 short, (codecs.2.2.1 accumulator).2 short,
    codecs.2.2.2.1 layers⟩

/-- Two strings of oracle data are short, and the proof that has both is not. -/
theorem ofOracleData_not_read :
    (ChunkProof.ofOracleData [List.replicate (2 ^ 31) 0, List.replicate (2 ^ 31) 0]).Framed ∧
      ChunkProof.fromBytes
          (ChunkProof.ofOracleData [List.replicate (2 ^ 31) 0, List.replicate (2 ^ 31) 0]).toBytes ≠
        .ok (.ofOracleData [List.replicate (2 ^ 31) 0, List.replicate (2 ^ 31) 0]) := by
  obtain ⟨half, halfEq⟩ : ∃ half : List Byte, List.replicate (2 ^ 31) 0 = half := ⟨_, rfl⟩
  have halfLength : half.length = 2 ^ 31 := by rw [← halfEq, List.length_replicate]
  rw [halfEq]
  have framed : (ChunkProof.ofOracleData [half, half]).Framed := by
    apply ExecutionProof.framed_ofOracleData.2
    refine ⟨show 2 < 2 ^ 32 by decide, fun bytes member => ?_⟩
    simp only [List.mem_cons, List.not_mem_nil, or_false, or_self] at member
    rw [member, ShortBytes, Short, halfLength]
    decide
  refine ⟨framed, fun accepted => ?_⟩
  have short : (ChunkProof.ofOracleData [half, half]).executionProof.toBytes.length < 2 ^ 32 :=
    (ChunkProof.fromBytes_toBytes_iff framed).1 accepted
  have long := (ChunkProof.ofOracleData [half, half]).executionProof.length_oracleData_le
  have strings : ([half, half].flatMap writeBytes).length = 2 ^ 32 + 8 := by
    simp only [List.flatMap_cons, List.flatMap_nil, writeBytes, writeU32, List.length_append,
      length_bigEndian, halfLength, List.length_nil]
    norm_num
  exact absurd (strings ▸ long.trans_lt short) (by decide)

end MetaVm.Zkp
