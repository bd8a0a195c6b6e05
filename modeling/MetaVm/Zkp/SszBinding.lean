import MetaVm.Lib.ByteOrder
import MetaVm.Zkp.Ssz

namespace MetaVm.Zkp

open ByteOrder MerkleTree

/-! Roots of byte lists and bit lists, with their length mixed in. -/

def divCeil (n divisor : ℕ) : ℕ := (n + divisor - 1) / divisor

/-- A slice of bytes, padded with zeros to a chunk. -/
def chunkAt (bytes : List Byte) (i : ℕ) : Chunk := fun k =>
  ((bytes.drop (i * 32)).take 32).getD k 0

def packBytes (bytes : List Byte) : List Chunk :=
  (List.range (divCeil bytes.length 32)).map (chunkAt bytes)

/-- A length in the low bytes of a chunk. -/
def lenBytes (length : BitVec 64) : Chunk := fun k => if k < 8 then byteOf length k else 0

section Roots

variable (hash : Chunk → Chunk → Chunk)

def mixInLength (root : Chunk) (length : BitVec 64) : Chunk := hash root (lenBytes length)

def hashTreeRootListBytes (bytes : List Byte) (maxLengthBytes : BitVec 64) : Option Chunk := do
  let chunksLimit := divCeil maxLengthBytes.toNat 32
  let root ← merkleizeChunks hash (packBytes bytes) (some chunksLimit)
  return mixInLength hash root (BitVec.ofNat 64 bytes.length)

/-- The bytes of the data bits, with every bit behind them cleared. -/
def bitlistData (bits : List Byte) (bitLength : BitVec 64) : List Byte :=
  let dataBytesLen := divCeil bitLength.toNat 8
  let zeros := List.replicate dataBytesLen (0 : Byte)
  if 0 < bitLength then
    let copyN := min dataBytesLen bits.length
    let data := bits.take copyN ++ zeros.drop copyN
    let tailBit := bitLength.toNat % 8
    if tailBit ≠ 0 then data.modify (dataBytesLen - 1) (· &&& ((1 : Byte) <<< tailBit) - 1)
    else data
  else zeros

def hashTreeRootBitlist (bits : List Byte) (bitLength maxBits : BitVec 64) : Option Chunk := do
  let chunksLimit := divCeil maxBits.toNat 256
  let root ← merkleizeChunks hash (packBytes (bitlistData bits bitLength)) (some chunksLimit)
  return mixInLength hash root bitLength

end Roots

/-! What the chunks and the masked bytes hold. -/

section Contents

theorem lenBytes_injective {length other : BitVec 64} (same : lenBytes length = lenBytes other) :
    length = other := by
  apply @eq_of_byteOf 64 8 _ _ rfl
  intro index inside
  have read := congrFun same ⟨index, by omega⟩
  have low : (⟨index, by omega⟩ : Fin 32) < 8 := inside
  simpa only [lenBytes, if_pos low] using read

theorem length_packBytes (bytes : List Byte) :
    (packBytes bytes).length = divCeil bytes.length 32 := by
  rw [packBytes, List.length_map, List.length_range]

/-- The padded leaves hold the bytes in order and zeros behind them. -/
theorem paddedLeaves_packBytes (bytes : List Byte) (i : ℕ) (k : Fin 32) :
    paddedLeaves (packBytes bytes) i k = bytes.getD (i * 32 + k) 0 := by
  have small := k.2
  unfold paddedLeaves
  by_cases inside : i < divCeil bytes.length 32
  · have read : (packBytes bytes)[i]? = some (chunkAt bytes i) := by
      rw [packBytes, List.getElem?_map, List.getElem?_range inside, Option.map_some]
    rw [List.getD_eq_getElem?_getD, read, Option.getD_some, chunkAt]
    simp only [List.getD_eq_getElem?_getD, List.getElem?_take, if_pos small, List.getElem?_drop]
  · have outside : bytes.length ≤ i * 32 + k := by
      unfold divCeil at inside
      omega
    rw [List.getD_eq_default _ _ (by rw [length_packBytes]; omega),
      List.getD_eq_default _ _ outside]
    rfl

theorem length_bitlistData (bits : List Byte) (bitLength : BitVec 64) :
    (bitlistData bits bitLength).length = divCeil bitLength.toNat 8 := by
  unfold bitlistData
  dsimp only
  split
  · split
    all_goals simp only [List.length_modify, List.length_append, List.length_take,
      List.length_drop, List.length_replicate]
    all_goals omega
  · exact List.length_replicate

/-- A bit of a serialized bit list, zero where the bytes end. -/
def dataBit (bits : List Byte) (i : ℕ) : Bool := (bits.getD (i / 8) 0).getLsbD (i % 8)

/-- Two serialized bit lists with the same data bits. -/
def SameBits (count : ℕ) (bits other : List Byte) : Prop :=
  ∀ i < count, dataBit bits i = dataBit other i

theorem getLsbD_tailMask {tailBit : ℕ} (small : tailBit < 8) (bit : ℕ) :
    (((1 : Byte) <<< tailBit) - 1).getLsbD bit = decide (bit < tailBit) := by
  by_cases inside : bit < 8
  · revert tailBit bit
    decide
  · rw [BitVec.getLsbD_of_ge _ _ (by omega)]
    exact (decide_eq_false (by omega)).symm

theorem getD_copied (bits : List Byte) (count j : ℕ) :
    (bits.take (min count bits.length) ++
        (List.replicate count (0 : Byte)).drop (min count bits.length)).getD j 0 =
      if j < count then bits.getD j 0 else 0 := by
  rw [List.drop_replicate]
  simp only [List.getD_eq_getElem?_getD, List.getElem?_append, List.length_take,
    List.getElem?_take, List.getElem?_replicate]
  grind

theorem getD_modify_and (data : List Byte) (index : ℕ) (mask : Byte) (j : ℕ) :
    (data.modify index (· &&& mask)).getD j 0 =
      if index = j then data.getD j 0 &&& mask else data.getD j 0 := by
  rw [List.getD_eq_getElem?_getD, List.getD_eq_getElem?_getD, List.getElem?_modify]
  cases data[j]? with
  | none => simp
  | some byte => split <;> rfl

/-- Masking keeps the data bits and nothing else. -/
theorem dataBit_bitlistData (bits : List Byte) (bitLength : BitVec 64) (i : ℕ) :
    dataBit (bitlistData bits bitLength) i =
      (decide (i < bitLength.toNat) && dataBit bits i) := by
  have copied := getD_copied bits (divCeil bitLength.toNat 8) (i / 8)
  have rounded : divCeil bitLength.toNat 8 = (bitLength.toNat + 7) / 8 := rfl
  -- away from a byte that is cut, a byte holds data bits only or none
  have whole (uncut : bitLength.toNat % 8 = 0 ∨ divCeil bitLength.toNat 8 - 1 ≠ i / 8)
      (counted : 0 < bitLength.toNat) :
      (if i / 8 < divCeil bitLength.toNat 8 then bits.getD (i / 8) 0 else 0).getLsbD (i % 8) =
        (decide (i < bitLength.toNat) && dataBit bits i) := by
    by_cases inside : i < bitLength.toNat
    · rw [if_pos (by omega), decide_eq_true inside, Bool.true_and, dataBit]
    · rw [if_neg (by omega), decide_eq_false inside, Bool.false_and]
      exact BitVec.getLsbD_zero
  rw [dataBit, bitlistData]
  dsimp only
  by_cases positive : 0 < bitLength
  · have counted : 0 < bitLength.toNat := positive
    rw [if_pos positive]
    by_cases tail : bitLength.toNat % 8 ≠ 0
    · rw [if_pos tail, getD_modify_and, copied]
      by_cases last : divCeil bitLength.toNat 8 - 1 = i / 8
      · rw [if_pos last, if_pos (by omega), BitVec.getLsbD_and,
          getLsbD_tailMask (Nat.mod_lt _ (by decide)), Bool.and_comm, dataBit]
        congr 2
        exact propext (by omega)
      · rw [if_neg last, whole (.inr last) counted]
    · rw [if_neg tail, copied, whole (.inl (not_ne_iff.1 tail)) counted]
  · have none : bitLength.toNat = 0 := Nat.eq_zero_of_not_pos positive
    rw [if_neg positive, rounded, none]
    simp

theorem eq_of_dataBit {bits other : List Byte} (lengths : bits.length = other.length)
    (same : ∀ i, dataBit bits i = dataBit other i) : bits = other := by
  apply List.ext_getElem lengths
  intro j inside inOther
  apply BitVec.eq_of_getLsbD_eq
  intro bit bounded
  have read := same (8 * j + bit)
  have position : (8 * j + bit) / 8 = j := by omega
  have offset : (8 * j + bit) % 8 = bit := by omega
  rwa [dataBit, dataBit, position, offset, List.getD_eq_getElem _ _ inside,
    List.getD_eq_getElem _ _ inOther] at read

/-- The masked bytes are the data bits. -/
theorem bitlistData_eq_iff {bits other : List Byte} {bitLength : BitVec 64} :
    bitlistData bits bitLength = bitlistData other bitLength ↔
      SameBits bitLength.toNat bits other := by
  constructor
  · intro same i inside
    have read := congrArg (dataBit · i) same
    simpa only [dataBit_bitlistData, decide_eq_true inside, Bool.true_and] using read
  · intro same
    apply eq_of_dataBit
    · rw [length_bitlistData, length_bitlistData]
    · intro i
      rw [dataBit_bitlistData, dataBit_bitlistData]
      by_cases inside : i < bitLength.toNat
      · rw [same i inside]
      · rw [decide_eq_false inside, Bool.false_and, Bool.false_and]

end Contents

/-! A root binds the bytes and the length, where the hash tells apart the pairs it is given. -/

section Binding

/-- The pairs hashed for the root of a list, the mixed-in length included. -/
def listPairs (hash : Chunk → Chunk → Chunk) (limit : ℕ) (bytes : List Byte)
    (length : BitVec 64) : Set (Chunk × Chunk) :=
  {(paddedRoot hash (packBytes bytes) (some limit), lenBytes length)} ∪
    pairs hash (Nat.clog 2 (effectiveLen (packBytes bytes) (some limit)))
      (paddedLeaves (packBytes bytes))

variable {hash : Chunk → Chunk → Chunk} {limit : ℕ} {bytes other : List Byte}
  {length otherLength : BitVec 64}

theorem effectiveLen_packBytes (fits : divCeil bytes.length 32 ≤ limit) :
    effectiveLen (packBytes bytes) (some limit) = limit := by
  rw [effectiveLen, length_packBytes]
  exact max_eq_right fits

theorem merkleizeChunks_packBytes (fits : divCeil bytes.length 32 ≤ limit)
    (small : limit ≤ 2 ^ 63) :
    merkleizeChunks hash (packBytes bytes) (some limit) =
      some (paddedRoot hash (packBytes bytes) (some limit)) :=
  merkleizeChunks_of_le (by rwa [effectiveLen_packBytes fits])

/-- Equal roots over as many leaves come from equal bytes and zeros behind them. -/
theorem bytes_of_mixed_eq (fits : divCeil bytes.length 32 ≤ limit)
    (otherFits : divCeil other.length 32 ≤ limit)
    (separates : Separates hash
      (listPairs hash limit bytes length ∪ listPairs hash limit other otherLength))
    (same : mixInLength hash (paddedRoot hash (packBytes bytes) (some limit)) length =
      mixInLength hash (paddedRoot hash (packBytes other) (some limit)) otherLength) :
    length = otherLength ∧ ∀ j, bytes.getD j 0 = other.getD j 0 := by
  obtain ⟨roots, lengths⟩ :=
    Prod.mk.inj (separates (.inl (.inl rfl)) (.inr (.inl rfl)) same)
  refine ⟨lenBytes_injective lengths, ?_⟩
  have within : Separates hash
      (pairs hash (Nat.clog 2 limit) (paddedLeaves (packBytes bytes)) ∪
        pairs hash (Nat.clog 2 limit) (paddedLeaves (packBytes other))) := by
    refine separates.mono (Set.union_subset_union ?_ ?_)
    · rw [listPairs, effectiveLen_packBytes fits]
      exact Set.subset_union_right
    · rw [listPairs, effectiveLen_packBytes otherFits]
      exact Set.subset_union_right
  rw [paddedRoot, paddedRoot, effectiveLen_packBytes fits, effectiveLen_packBytes otherFits]
    at roots
  have leaves := leaves_eq_of_root_eq within roots
  intro j
  by_cases inside : j / 32 < 2 ^ Nat.clog 2 limit
  · have read := congrFun (leaves (j / 32) inside) ⟨j % 32, Nat.mod_lt j (by decide)⟩
    rw [paddedLeaves_packBytes, paddedLeaves_packBytes] at read
    simpa only [Nat.div_add_mod'] using read
  · have wide := Nat.le_pow_clog Nat.one_lt_two limit
    unfold divCeil at fits otherFits
    rw [List.getD_eq_default _ _ (by omega), List.getD_eq_default _ _ (by omega)]

theorem eq_of_getD (lengths : bytes.length = other.length)
    (same : ∀ j, bytes.getD j 0 = other.getD j 0) : bytes = other := by
  apply List.ext_getElem lengths
  intro j inside inOther
  rw [← List.getD_eq_getElem _ 0 inside, same, List.getD_eq_getElem _ _ inOther]

def listBytesPairs (hash : Chunk → Chunk → Chunk) (bytes : List Byte)
    (maxLengthBytes : BitVec 64) : Set (Chunk × Chunk) :=
  listPairs hash (divCeil maxLengthBytes.toNat 32) bytes (BitVec.ofNat 64 bytes.length)

def bitlistPairs (hash : Chunk → Chunk → Chunk) (bits : List Byte)
    (bitLength maxBits : BitVec 64) : Set (Chunk × Chunk) :=
  listPairs hash (divCeil maxBits.toNat 256) (bitlistData bits bitLength) bitLength

theorem hashTreeRootListBytes_eq {maxLengthBytes : BitVec 64}
    (fits : bytes.length ≤ maxLengthBytes.toNat) :
    hashTreeRootListBytes hash bytes maxLengthBytes =
      some (mixInLength hash
        (paddedRoot hash (packBytes bytes) (some (divCeil maxLengthBytes.toNat 32)))
        (BitVec.ofNat 64 bytes.length)) := by
  have word := maxLengthBytes.isLt
  rw [hashTreeRootListBytes, merkleizeChunks_packBytes]
  · rfl
  · unfold divCeil
    omega
  · unfold divCeil
    omega

theorem hashTreeRootBitlist_eq {bits : List Byte} {bitLength maxBits : BitVec 64}
    (fits : bitLength ≤ maxBits) :
    hashTreeRootBitlist hash bits bitLength maxBits =
      some (mixInLength hash
        (paddedRoot hash (packBytes (bitlistData bits bitLength))
          (some (divCeil maxBits.toNat 256))) bitLength) := by
  have word := maxBits.isLt
  have count : bitLength.toNat ≤ maxBits.toNat := fits
  rw [hashTreeRootBitlist, merkleizeChunks_packBytes]
  · rfl
  · rw [length_bitlistData]
    unfold divCeil
    omega
  · unfold divCeil
    omega

theorem hashTreeRootListBytes_injective {maxLengthBytes : BitVec 64}
    (fits : bytes.length ≤ maxLengthBytes.toNat) (otherFits : other.length ≤ maxLengthBytes.toNat)
    (separates : Separates hash
      (listBytesPairs hash bytes maxLengthBytes ∪ listBytesPairs hash other maxLengthBytes))
    (same : hashTreeRootListBytes hash bytes maxLengthBytes =
      hashTreeRootListBytes hash other maxLengthBytes) : bytes = other := by
  have word := maxLengthBytes.isLt
  rw [hashTreeRootListBytes_eq fits, hashTreeRootListBytes_eq otherFits, Option.some_inj] at same
  obtain ⟨lengths, read⟩ := bytes_of_mixed_eq (by unfold divCeil; omega)
    (by unfold divCeil; omega) separates same
  apply eq_of_getD _ read
  have counts := congrArg BitVec.toNat lengths
  rwa [BitVec.toNat_ofNat, BitVec.toNat_ofNat, Nat.mod_eq_of_lt (by omega),
    Nat.mod_eq_of_lt (by omega)] at counts

theorem hashTreeRootBitlist_congr {bits otherBits : List Byte} {bitLength maxBits : BitVec 64}
    (same : SameBits bitLength.toNat bits otherBits) :
    hashTreeRootBitlist hash bits bitLength maxBits =
      hashTreeRootBitlist hash otherBits bitLength maxBits := by
  rw [hashTreeRootBitlist, hashTreeRootBitlist, bitlistData_eq_iff.2 same]

theorem hashTreeRootBitlist_injective {bits otherBits : List Byte}
    {bitLength otherLength maxBits : BitVec 64} (fits : bitLength ≤ maxBits)
    (otherFits : otherLength ≤ maxBits)
    (separates : Separates hash
      (bitlistPairs hash bits bitLength maxBits ∪ bitlistPairs hash otherBits otherLength maxBits))
    (same : hashTreeRootBitlist hash bits bitLength maxBits =
      hashTreeRootBitlist hash otherBits otherLength maxBits) :
    bitLength = otherLength ∧ SameBits bitLength.toNat bits otherBits := by
  have count : bitLength.toNat ≤ maxBits.toNat := fits
  have otherCount : otherLength.toNat ≤ maxBits.toNat := otherFits
  rw [hashTreeRootBitlist_eq fits, hashTreeRootBitlist_eq otherFits, Option.some_inj] at same
  obtain ⟨rfl, read⟩ := bytes_of_mixed_eq (by rw [length_bitlistData]; unfold divCeil; omega)
    (by rw [length_bitlistData]; unfold divCeil; omega) separates same
  refine ⟨rfl, bitlistData_eq_iff.1 (eq_of_getD ?_ read)⟩
  rw [length_bitlistData, length_bitlistData]

/-- The roots of byte lists and of bit lists bind what they commit to. -/
theorem list_roots_bind (hash : Chunk → Chunk → Chunk) (most : BitVec 64) :
    (∀ bytes other, bytes.length ≤ most.toNat → other.length ≤ most.toNat →
      Separates hash (listBytesPairs hash bytes most ∪ listBytesPairs hash other most) →
      (hashTreeRootListBytes hash bytes most).isSome ∧
        (hashTreeRootListBytes hash bytes most = hashTreeRootListBytes hash other most ↔
          bytes = other)) ∧
    (∀ bits other count, SameBits count.toNat bits other →
      hashTreeRootBitlist hash bits count most = hashTreeRootBitlist hash other count most) ∧
    ∀ bits other count otherCount, count ≤ most → otherCount ≤ most →
      divCeil count.toNat 8 ≤ bits.length → divCeil otherCount.toNat 8 ≤ other.length →
      Separates hash
        (bitlistPairs hash bits count most ∪ bitlistPairs hash other otherCount most) →
      (hashTreeRootBitlist hash bits count most).isSome ∧
        (hashTreeRootBitlist hash bits count most =
            hashTreeRootBitlist hash other otherCount most ↔
          count = otherCount ∧ SameBits count.toNat bits other) := by
  refine ⟨?_, ?_, ?_⟩
  · intro bytes other fits otherFits separates
    refine ⟨?_, hashTreeRootListBytes_injective fits otherFits separates, ?_⟩
    · rw [hashTreeRootListBytes_eq fits, Option.isSome_some]
    · rintro rfl
      rfl
  · intro bits other count same
    exact hashTreeRootBitlist_congr same
  · intro bits other count otherCount fits otherFits _ _ separates
    refine ⟨?_, hashTreeRootBitlist_injective fits otherFits separates, ?_⟩
    · rw [hashTreeRootBitlist_eq fits, Option.isSome_some]
    · rintro ⟨rfl, same⟩
      exact hashTreeRootBitlist_congr same

section FourChunks

variable (hash bytes length)

/-- What is hashed for a list over four chunks. -/
def fourPairs : List (Chunk × Chunk) :=
  let leaves := paddedLeaves (packBytes bytes)
  [(root hash 2 leaves, lenBytes length), (hash (leaves 0) (leaves 1), hash (leaves 2) (leaves 3)),
    (leaves 0, leaves 1), (leaves 2, leaves 3)]

variable {hash bytes length}

theorem mem_fourPairs (fits : divCeil bytes.length 32 ≤ 4) {pair : Chunk × Chunk}
    (hashed : pair ∈ listPairs hash 4 bytes length) : pair ∈ fourPairs hash bytes length := by
  have width : Nat.clog 2 4 = 2 := by decide
  rw [listPairs, paddedRoot, effectiveLen_packBytes fits, width] at hashed
  rcases hashed with rfl | rfl | (rfl | ⟨⟨⟩⟩ | ⟨⟨⟩⟩) | rfl | ⟨⟨⟩⟩ | ⟨⟨⟩⟩ <;> simp [fourPairs, root]

/-- Pairs are told apart where their hashes differ in the first byte. -/
theorem separates_of_nodup {listed : List (Chunk × Chunk)}
    (fits : divCeil bytes.length 32 ≤ 4) (otherFits : divCeil other.length 32 ≤ 4)
    (inside : fourPairs hash bytes length ++ fourPairs hash other otherLength ⊆ listed)
    (nodup : (listed.map fun pair => hash pair.1 pair.2 0).Nodup) :
    Separates hash (listPairs hash 4 bytes length ∪ listPairs hash 4 other otherLength) := by
  have mem {pair} (hashed : pair ∈ listPairs hash 4 bytes length ∪
      listPairs hash 4 other otherLength) : pair ∈ listed := by
    apply inside
    rw [List.mem_append]
    exact hashed.imp (mem_fourPairs fits) (mem_fourPairs otherFits)
  intro one first two second same
  exact List.inj_on_of_nodup_map nodup (mem first) (mem second) (congrFun same 0)

end FourChunks

/-- A hash that weighs the sides differently. -/
def weighed (left right : Chunk) : Chunk := fun i => 5 * left i + 7 * right i + 1

/-- Two lists of three chunks, and one of 601 and of 602 bits. -/
theorem list_roots_bind_chunks :
    hashTreeRootListBytes weighed (List.replicate 70 1) 128 ≠
        hashTreeRootListBytes weighed (List.replicate 70 2) 128 ∧
      hashTreeRootBitlist weighed (List.replicate 76 1) 601 1024 ≠
        hashTreeRootBitlist weighed (List.replicate 76 1) 602 1024 := by
  constructor
  · have apart := (list_roots_bind weighed 128).1 (List.replicate 70 1) (List.replicate 70 2)
      (by decide) (by decide)
      (separates_of_nodup (by decide) (by decide) (List.Subset.refl _) (by decide))
    rw [Ne, apart.2]
    decide
  · have same : bitlistData (List.replicate 76 1) 602 = bitlistData (List.replicate 76 1) 601 := by
      decide
    have separates : Separates weighed (bitlistPairs weighed (List.replicate 76 1) 601 1024 ∪
        bitlistPairs weighed (List.replicate 76 1) 602 1024) := by
      rw [bitlistPairs, bitlistPairs, same]
      exact @separates_of_nodup _ _ _ _ _
        ((root weighed 2 (paddedLeaves (packBytes (bitlistData (List.replicate 76 1) 601))),
          lenBytes 602) :: fourPairs weighed (bitlistData (List.replicate 76 1) 601) 601)
        (by decide) (by decide) (by simp [fourPairs]) (by decide)
    have apart := (list_roots_bind weighed 1024).2.2 (List.replicate 76 1) (List.replicate 76 1)
      601 602 (by decide) (by decide) (by decide) (by decide) separates
    rw [Ne, apart.2]
    rintro ⟨counts, -⟩
    revert counts
    decide

end Binding

end MetaVm.Zkp
