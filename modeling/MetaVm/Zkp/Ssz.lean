import Mathlib
import MetaVm.Lib.MerkleTree
import MetaVm.Zkp.Lookup

namespace MetaVm.Zkp

open MerkleTree

/-! Roots of chunk lists. Only the populated part of a tree is folded, and zero hashes stand in
for the rest. A shift by a whole word has no result. -/

/-- The unit of merkleization. -/
abbrev Chunk : Type := Fin 32 → Byte

def zeroChunk : Chunk := fun _ => 0

section Rounding

/-- The leading zeros of a 64-bit number. -/
def leadingZeros (n : ℕ) : ℕ := 64 - n.size

def trailingZeros (n : ℕ) : ℕ := (List.range 64).findIdx fun i => n.testBit i

def nextPowOfTwo (n : ℕ) : Option ℕ :=
  if n ≤ 1 then some 1
  else
    let shift := 64 - leadingZeros (n - 1)
    if shift < 64 then some (1 <<< shift) else none

theorem size_pred_eq_clog {n : ℕ} (several : 1 < n) : (n - 1).size = Nat.clog 2 n := by
  apply le_antisymm
  · rw [Nat.size_le]
    have := Nat.le_pow_clog Nat.one_lt_two n
    omega
  · rw [Nat.clog_le_iff_le_pow Nat.one_lt_two]
    have := Nat.lt_size_self (n - 1)
    omega

theorem nextPowOfTwo_eq_some {n : ℕ} (bounded : n ≤ 2 ^ 63) :
    nextPowOfTwo n = some (2 ^ Nat.clog 2 n) := by
  unfold nextPowOfTwo
  by_cases single : n ≤ 1
  · rw [if_pos single, Nat.clog_of_right_le_one single, pow_zero]
  · have depth : Nat.clog 2 n ≤ 63 := (Nat.clog_le_iff_le_pow Nat.one_lt_two).2 bounded
    have shift : 64 - leadingZeros (n - 1) = Nat.clog 2 n := by
      rw [leadingZeros, size_pred_eq_clog (not_le.1 single)]
      omega
    simp only [if_neg single, shift]
    rw [if_pos (by omega), Nat.one_shiftLeft]

theorem nextPowOfTwo_eq_none {n : ℕ} (large : 2 ^ 63 < n) : nextPowOfTwo n = none := by
  have several : 1 < n := by omega
  have depth : 63 < Nat.clog 2 n := by
    rw [← not_le, Nat.clog_le_iff_le_pow Nat.one_lt_two]
    omega
  have shift : ¬ 64 - leadingZeros (n - 1) < 64 := by
    rw [leadingZeros, size_pred_eq_clog several]
    omega
  unfold nextPowOfTwo
  rw [if_neg (not_le.2 several)]
  exact if_neg shift

theorem trailingZeros_pow {depth : ℕ} (bounded : depth < 64) :
    trailingZeros (2 ^ depth) = depth := by
  unfold trailingZeros
  rw [List.findIdx_eq (by simpa using bounded)]
  constructor
  · simp
  · intro j below
    simp only [List.getElem_range, Nat.testBit_two_pow]
    exact decide_eq_false (by omega)

end Rounding

section Merkleization

variable (hash : Chunk → Chunk → Chunk)

def zeroHash (depth : ℕ) : Chunk := (fun z => hash z z)^[depth] zeroChunk

/-- The number of leaves to pad to, before rounding. -/
def effectiveLen (chunks : List Chunk) : Option ℕ → ℕ
  | some n => max chunks.length n
  | none => chunks.length

/-- The layer over the chunks after so many passes. -/
def foldLayers (chunks : List Chunk) (innerDepth : ℕ) : List Chunk :=
  (List.range innerDepth).foldl (fun layer d => pairUp hash (zeroHash hash d) layer) chunks

/-- One hash with a zero hash for each layer above the populated ones. -/
def extendNode (node : Chunk) (innerDepth fullDepth : ℕ) : Chunk :=
  (List.range' innerDepth (fullDepth - innerDepth)).foldl
    (fun node d => hash node (zeroHash hash d)) node

def merkleizeChunks (chunks : List Chunk) (limit : Option ℕ) : Option Chunk := do
  let padded ← nextPowOfTwo (effectiveLen chunks limit)
  let fullDepth := trailingZeros padded
  if padded = 1 then return chunks.headD zeroChunk
  let innerDepth ←
    if chunks.length = 0 then some 0 else (nextPowOfTwo chunks.length).map trailingZeros
  let node ←
    if chunks.length = 0 then some zeroChunk else (foldLayers hash chunks innerDepth).head?
  return extendNode hash node innerDepth fullDepth

/-- The chunks as the leaves of a tree without end. -/
def paddedLeaves (chunks : List Chunk) (i : ℕ) : Chunk := chunks.getD i zeroChunk

/-- The root of the complete tree over the padded chunks. -/
def paddedRoot (chunks : List Chunk) (limit : Option ℕ) : Chunk :=
  root hash (Nat.clog 2 (effectiveLen chunks limit)) (paddedLeaves chunks)

variable {hash} {chunks : List Chunk}

theorem zeroHash_eq_zeroRoot (depth : ℕ) : zeroHash hash depth = zeroRoot hash zeroChunk depth := by
  induction depth with
  | zero => rfl
  | succ depth hypothesis =>
      rw [zeroHash, Function.iterate_succ_apply', zeroRoot, ← hypothesis, zeroHash]

theorem foldLayers_eq_layerAt (innerDepth : ℕ) :
    foldLayers hash chunks innerDepth = layerAt hash zeroChunk chunks innerDepth := by
  induction innerDepth with
  | zero => rfl
  | succ innerDepth hypothesis =>
      rw [foldLayers, List.range_succ, List.foldl_append, layerAt, ← hypothesis,
        ← zeroHash_eq_zeroRoot]
      rfl

/-- Extending a root over all chunks gives the root of the deeper tree. -/
theorem extendNode_root {innerDepth : ℕ} (fits : chunks.length ≤ 2 ^ innerDepth) (more : ℕ) :
    extendNode hash (root hash innerDepth (paddedLeaves chunks)) innerDepth (innerDepth + more) =
      root hash (innerDepth + more) (paddedLeaves chunks) := by
  unfold extendNode
  rw [Nat.add_sub_cancel_left]
  induction more with
  | zero => rfl
  | succ more hypothesis =>
      have wide : chunks.length ≤ 2 ^ (innerDepth + more) :=
        fits.trans (Nat.pow_le_pow_right Nat.two_pos (Nat.le_add_right _ _))
      rw [List.range'_concat, List.foldl_append, hypothesis, List.foldl_cons, List.foldl_nil,
        one_mul, zeroHash_eq_zeroRoot]
      exact (root_extend wide).symm

theorem length_le_effectiveLen (limit : Option ℕ) :
    chunks.length ≤ effectiveLen chunks limit := by
  cases limit with
  | none => exact le_rfl
  | some n => exact le_max_left _ _

theorem merkleizeChunks_of_le {limit : Option ℕ} (bounded : effectiveLen chunks limit ≤ 2 ^ 63) :
    merkleizeChunks hash chunks limit = some (paddedRoot hash chunks limit) := by
  have within := @length_le_effectiveLen chunks limit
  have depth : Nat.clog 2 (effectiveLen chunks limit) < 64 :=
    Nat.lt_succ_of_le ((Nat.clog_le_iff_le_pow Nat.one_lt_two).2 bounded)
  simp only [merkleizeChunks, nextPowOfTwo_eq_some bounded, Option.bind_eq_bind,
    Option.bind_some, trailingZeros_pow depth]
  unfold paddedRoot
  by_cases single : Nat.clog 2 (effectiveLen chunks limit) = 0
  · rw [single, if_pos (pow_zero 2)]
    cases chunks <;> rfl
  rw [if_neg fun one => single (Nat.pow_right_injective le_rfl (one.trans (pow_zero 2).symm))]
  by_cases empty : chunks.length = 0
  · rw [if_pos empty, if_pos empty]
    have extended := @extendNode_root hash chunks 0 (by omega)
      (Nat.clog 2 (effectiveLen chunks limit))
    rw [Nat.zero_add] at extended
    obtain rfl := List.length_eq_zero_iff.1 empty
    exact congrArg some extended
  · have inner : Nat.clog 2 chunks.length ≤ Nat.clog 2 (effectiveLen chunks limit) :=
      Nat.clog_mono_right 2 within
    obtain ⟨more, full⟩ := Nat.exists_eq_add_of_le inner
    have top := @head_layerAt Chunk hash zeroChunk chunks
      (fun none => empty (List.length_eq_zero_iff.2 none)) (Nat.clog 2 chunks.length)
    rw [if_neg empty, nextPowOfTwo_eq_some (within.trans bounded), Option.map_some,
      Option.bind_some, if_neg empty, trailingZeros_pow (inner.trans_lt depth),
      foldLayers_eq_layerAt, top, Option.bind_some, full]
    exact congrArg some (extendNode_root (Nat.le_pow_clog Nat.one_lt_two _) more)

/-- The sparse computation gives the root of the padded tree, as long as its leaves can be
counted in a word. -/
theorem merkleizeChunks_eq_paddedRoot_iff (hash : Chunk → Chunk → Chunk) (chunks : List Chunk)
    (limit : Option ℕ) :
    merkleizeChunks hash chunks limit = some (paddedRoot hash chunks limit) ↔
      effectiveLen chunks limit ≤ 2 ^ 63 := by
  constructor
  · intro same
    by_contra large
    rw [merkleizeChunks, nextPowOfTwo_eq_none (not_le.1 large)] at same
    cases same
  · exact merkleizeChunks_of_le

/-- A limit above the largest power of two in a word shifts out of range. -/
theorem merkleizeChunks_shifts_out :
    merkleizeChunks (fun left _ => left) [] (some (2 ^ 63 + 1)) = none ∧
      merkleizeChunks (fun left _ => left) [] (some (2 ^ 63 + 1)) ≠
        some (paddedRoot (fun left _ => left) [] (some (2 ^ 63 + 1))) := by
  have shifted : merkleizeChunks (fun left _ => left) [] (some (2 ^ 63 + 1)) = none := by
    rw [merkleizeChunks, nextPowOfTwo_eq_none (by decide)]
    rfl
  refine ⟨shifted, ?_⟩
  rw [shifted]
  exact nofun

end Merkleization

end MetaVm.Zkp
