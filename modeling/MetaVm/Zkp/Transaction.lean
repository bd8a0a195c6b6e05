import MetaVm.Zkp.Mpt
import MetaVm.Zkp.RlpCanonical

namespace MetaVm.Zkp

open Framing

/-! Transactions, their wire encodings and their place in the trie of a block. -/

/-- The bytes of a 256-bit number, the highest first. -/
abbrev U256Bytes : Type := { bytes : List Byte // bytes.length = 32 }

abbrev Address20 : Type := { bytes : List Byte // bytes.length = 20 }

def rlpEncodeUint (n : BitVec 64) : List Byte := rlpEncodeBytes (minimalBe n)

/-- Without the leading zeros. -/
def stripZeros (beBytes : List Byte) : List Byte :=
  beBytes.drop (beBytes.findIdx fun b => b ≠ 0)

def rlpEncodeU256 (beBytes : U256Bytes) : List Byte := rlpEncodeBytes (stripZeros beBytes.1)

@[ext]
structure LegacyTx where
  nonce : BitVec 64
  gasPrice : U256Bytes
  gasLimit : BitVec 64
  toAddr : Option Address20
  value : U256Bytes
  data : List Byte
  v : BitVec 64
  r : U256Bytes
  s : U256Bytes
deriving DecidableEq

@[ext]
structure Eip1559Tx where
  chainId : BitVec 64
  nonce : BitVec 64
  maxPriorityFeePerGas : U256Bytes
  maxFeePerGas : U256Bytes
  gasLimit : BitVec 64
  toAddr : Option Address20
  value : U256Bytes
  data : List Byte
  accessListRlp : List Byte
  yParity : BitVec 64
  r : U256Bytes
  s : U256Bytes
deriving DecidableEq

inductive Transaction
  | legacy (tx : LegacyTx)
  | eip1559 (tx : Eip1559Tx)
deriving DecidableEq

section Encoding

/-- The recipient's bytes. There are none when a contract is created. -/
def toBytes (toAddr : Option Address20) : List Byte := toAddr.elim [] Subtype.val

def LegacyTx.rlpEncode (tx : LegacyTx) : List Byte :=
  rlpEncodeList
    [rlpEncodeUint tx.nonce, rlpEncodeU256 tx.gasPrice, rlpEncodeUint tx.gasLimit,
      rlpEncodeBytes (toBytes tx.toAddr), rlpEncodeU256 tx.value, rlpEncodeBytes tx.data,
      rlpEncodeUint tx.v, rlpEncodeU256 tx.r, rlpEncodeU256 tx.s]

/-- The access list goes in as it is. -/
def Eip1559Tx.rlpEncodeBody (tx : Eip1559Tx) : List Byte :=
  rlpEncodeList
    [rlpEncodeUint tx.chainId, rlpEncodeUint tx.nonce, rlpEncodeU256 tx.maxPriorityFeePerGas,
      rlpEncodeU256 tx.maxFeePerGas, rlpEncodeUint tx.gasLimit, rlpEncodeBytes (toBytes tx.toAddr),
      rlpEncodeU256 tx.value, rlpEncodeBytes tx.data, tx.accessListRlp, rlpEncodeUint tx.yParity,
      rlpEncodeU256 tx.r, rlpEncodeU256 tx.s]

def Transaction.wireEncoding : Transaction → List Byte
  | .legacy tx => tx.rlpEncode
  | .eip1559 tx => 0x02 :: tx.rlpEncodeBody

def txTrieKey (index : BitVec 64) : List Byte := rlpEncodeUint index

/-- The text of the error names the index and the key. -/
structure InclusionFailure where
  txIndex : BitVec 64
  trieKey : List Byte

def verifyTransactionInclusionOracle (keccak256 : List Byte → Hash32) (transactionsRoot : Hash32)
    (txIndex : BitVec 64) (tx : Transaction) (proof : List (List Byte)) :
    Except InclusionFailure Unit :=
  let trieKey := txTrieKey txIndex
  let wire := tx.wireEncoding
  if ¬ Mpt.verifyMptInclusion keccak256 transactionsRoot trieKey wire proof then
    .error ⟨txIndex, trieKey⟩
  else .ok ()

end Encoding

/-! Strings are told apart from what follows them, and lists by their payload. -/

section PrefixFree

theorem rlpEncodeBytes_prefixFree :
    PrefixFree (fun string => (rlpEncodeBytes string).length < 2 ^ 64) rlpEncodeBytes := by
  have accepts : ∀ string rest : List Byte, (rlpEncodeBytes string).length < 2 ^ 64 →
      Accepts (rlpEncodeBytes string ++ rest) (rlpEncodeBytes string).length (.bytes string) := by
    intro string rest short
    by_cases single : Single string
    · obtain ⟨byte, rfl⟩ := List.length_eq_one_iff.1 single.1
      have low : byte < 0x80 := single.2
      rw [rlpEncodeBytes_single low]
      exact .single low rfl rfl
    · rw [rlpEncodeBytes_framed single] at short ⊢
      exact .string single short rfl rfl
  intro first second rest rest' short short' same
  obtain ⟨decoded, read, item, consumed⟩ := rlpDecode_of_accepts (accepts first rest short)
  obtain ⟨decoded', read', item', consumed'⟩ := rlpDecode_of_accepts (accepts second rest' short')
  rw [same] at read
  obtain rfl := Except.ok.inj (read.symm.trans read')
  obtain rfl := RlpItem.bytes.inj (item.symm.trans item')
  exact ⟨rfl, List.append_cancel_left same⟩

theorem framed_injective {base : Byte} (fits : base.toNat + 63 < 256) {first second : List Byte}
    (short : (framed base first).length < 2 ^ 64) (same : framed base first = framed base second) :
    first = second := by
  obtain ⟨tag, rest, here⟩ := exists_framed (List.append_nil (framed base first)).symm
  have firstSame : tag :: rest = framed base first ++ [] := by rw [List.append_nil, here]
  have secondSame : tag :: rest = framed base second ++ [] := by rw [List.append_nil, ← same, here]
  rcases Nat.lt_or_ge 55 first.length with long | few
  · obtain ⟨above, -, -⟩ := framed_long long firstSame fits short
    rcases Nat.lt_or_ge 55 second.length with long' | few'
    · rw [framed, framed, rlpHeader, rlpHeader, if_neg (Nat.not_le.2 long),
        if_neg (Nat.not_le.2 long')] at same
      dsimp only at same
      rw [List.cons_append, List.cons_append] at same
      obtain ⟨tags, rests⟩ := List.cons.inj same
      have firstLe := minimalBe_length_le (BitVec.ofNat 64 first.length)
      have secondLe := minimalBe_length_le (BitVec.ofNat 64 second.length)
      have baseLong : (base + 55).toNat = base.toNat + 55 := @toNat_tag base 55 (by omega)
      have lengths := congrArg BitVec.toNat tags
      rw [toNat_tag (by omega), toNat_tag (by omega)] at lengths
      exact (List.append_inj rests (by omega)).2
    · have below := framed_short few' secondSame (by omega)
      omega
  · obtain ⟨-, below, -⟩ := framed_short few firstSame (by omega)
    rcases Nat.lt_or_ge 55 second.length with long' | few'
    · have above := framed_long long' secondSame fits (same ▸ short)
      omega
    · rw [framed, framed, rlpHeader, rlpHeader, if_pos few, if_pos few'] at same
      exact (List.cons.inj same).2

/-- As many strings one behind the other. -/
theorem strings_injective {first second : List (List Byte)} {rest rest' : List Byte}
    (length : first.length = second.length)
    (short : ∀ string ∈ first, (rlpEncodeBytes string).length < 2 ^ 64)
    (short' : ∀ string ∈ second, (rlpEncodeBytes string).length < 2 ^ 64)
    (same : (first.map rlpEncodeBytes).flatten ++ rest =
      (second.map rlpEncodeBytes).flatten ++ rest') : first = second ∧ rest = rest' := by
  induction first generalizing second with
  | nil =>
      cases second with
      | nil => exact ⟨rfl, same⟩
      | cons string second => cases length
  | cons string first hypothesis =>
      cases second with
      | nil => cases length
      | cons string' second =>
          rw [List.forall_mem_cons] at short short'
          simp only [List.map_cons, List.flatten_cons, List.append_assoc] at same
          obtain ⟨rfl, later⟩ := rlpEncodeBytes_prefixFree _ _ _ _ short.1 short'.1 same
          obtain ⟨rfl, last⟩ := hypothesis (Nat.succ.inj length) short.2 short'.2 later
          exact ⟨rfl, last⟩

theorem minimalBe_injective : Function.Injective minimalBe := by
  intro first second same
  have values := congrArg fromBigEndian same
  rw [fromBigEndian_minimalBe, fromBigEndian_minimalBe] at values
  exact BitVec.eq_of_toNat_eq values

theorem stripZeros_injective {first second : U256Bytes}
    (same : stripZeros first.1 = stripZeros second.1) : first = second := by
  have stripped : ∀ bytes : List Byte,
      stripZeros bytes = bytes.dropWhile fun byte => byte = 0 := by
    intro bytes
    rw [stripZeros, List.dropWhile_eq_drop_findIdx_not]
    simp only [decide_not]
  have values := congrArg fromBigEndian same
  rw [stripped, stripped, fromBigEndian_dropWhile, fromBigEndian_dropWhile] at values
  apply Subtype.ext
  rw [← bigEndian_fromBigEndian first.1, ← bigEndian_fromBigEndian second.1, values, first.2,
    second.2]

theorem toBytes_injective : Function.Injective toBytes := by
  intro first second same
  cases first with
  | none =>
      cases second with
      | none => rfl
      | some address =>
          have length := congrArg List.length same
          rw [toBytes, toBytes, Option.elim_some, address.2] at length
          cases length
  | some address =>
      cases second with
      | none =>
          have length := congrArg List.length same
          rw [toBytes, toBytes, Option.elim_some, address.2] at length
          cases length
      | some other => exact congrArg some (Subtype.ext same)

end PrefixFree

end MetaVm.Zkp
