import MetaVm.Zkp.MptCompleteness
import MetaVm.Zkp.Transaction

namespace MetaVm.Zkp

open Framing

/-! Two transactions have one encoding only where the raw access list takes over bytes of the
signature. -/

/-- What follows the access list. -/
def Eip1559Tx.signatureRlp (tx : Eip1559Tx) : List Byte :=
  rlpEncodeUint tx.yParity ++ (rlpEncodeU256 tx.r ++ rlpEncodeU256 tx.s)

/-- The fields in front of the access list are the same, and the second access list goes on with
bytes that the first transaction has in its signature. -/
structure Respells (first second : Eip1559Tx) : Prop where
  chainId : first.chainId = second.chainId
  nonce : first.nonce = second.nonce
  maxPriorityFeePerGas : first.maxPriorityFeePerGas = second.maxPriorityFeePerGas
  maxFeePerGas : first.maxFeePerGas = second.maxFeePerGas
  gasLimit : first.gasLimit = second.gasLimit
  toAddr : first.toAddr = second.toAddr
  value : first.value = second.value
  data : first.data = second.data
  takes : ∃ extra, extra ≠ [] ∧ second.accessListRlp = first.accessListRlp ++ extra ∧
    first.signatureRlp = extra ++ second.signatureRlp

def Respelled : Transaction → Transaction → Prop
  | .eip1559 first, .eip1559 second => Respells first second ∨ Respells second first
  | _, _ => False

section Strings

def LegacyTx.strings (tx : LegacyTx) : List (List Byte) :=
  [minimalBe tx.nonce, stripZeros tx.gasPrice.1, minimalBe tx.gasLimit, toBytes tx.toAddr,
    stripZeros tx.value.1, tx.data, minimalBe tx.v, stripZeros tx.r.1, stripZeros tx.s.1]

def Eip1559Tx.leading (tx : Eip1559Tx) : List (List Byte) :=
  [minimalBe tx.chainId, minimalBe tx.nonce, stripZeros tx.maxPriorityFeePerGas.1,
    stripZeros tx.maxFeePerGas.1, minimalBe tx.gasLimit, toBytes tx.toAddr,
    stripZeros tx.value.1, tx.data]

def Eip1559Tx.signature (tx : Eip1559Tx) : List (List Byte) :=
  [minimalBe tx.yParity, stripZeros tx.r.1, stripZeros tx.s.1]

theorem LegacyTx.rlpEncode_eq (tx : LegacyTx) :
    tx.rlpEncode = framed 0xC0 (tx.strings.map rlpEncodeBytes).flatten := by
  rw [rlpEncode, rlpEncodeList_framed]
  rfl

theorem Eip1559Tx.signatureRlp_eq (tx : Eip1559Tx) :
    tx.signatureRlp = (tx.signature.map rlpEncodeBytes).flatten := by
  simp only [signatureRlp, signature, List.map_cons, List.map_nil, List.flatten_cons,
    List.flatten_nil, List.append_nil]
  rfl

theorem Eip1559Tx.rlpEncodeBody_eq (tx : Eip1559Tx) :
    tx.rlpEncodeBody = framed 0xC0 ((tx.leading.map rlpEncodeBytes).flatten ++
      (tx.accessListRlp ++ tx.signatureRlp)) := by
  rw [rlpEncodeBody, rlpEncodeList_framed, signatureRlp, leading]
  simp only [List.map_cons, List.map_nil, List.flatten_cons, List.flatten_nil, List.append_nil,
    List.append_assoc]
  rfl

theorem length_rlpEncodeBytes_le {strings : List (List Byte)} {string : List Byte}
    (inside : string ∈ strings) :
    (rlpEncodeBytes string).length ≤ (strings.map rlpEncodeBytes).flatten.length :=
  (List.sublist_flatten_of_mem (List.mem_map_of_mem inside)).length_le

theorem length_framed (base : Byte) (body : List Byte) :
    body.length < (framed base body).length := by
  rw [framed, List.length_append, rlpHeader]
  split
  · rw [List.length_singleton]
    omega
  · dsimp only
    rw [List.length_cons]
    omega

theorem LegacyTx.strings_injective {first second : LegacyTx}
    (same : first.strings = second.strings) : first = second := by
  simp only [strings, List.cons.injEq, and_true] at same
  obtain ⟨nonce, gasPrice, gasLimit, toAddr, value, data, v, r, s⟩ := same
  exact LegacyTx.ext (minimalBe_injective nonce) (stripZeros_injective gasPrice)
    (minimalBe_injective gasLimit) (toBytes_injective toAddr) (stripZeros_injective value) data
    (minimalBe_injective v) (stripZeros_injective r) (stripZeros_injective s)

theorem Eip1559Tx.ext_parts {first second : Eip1559Tx} (leading : first.leading = second.leading)
    (access : first.accessListRlp = second.accessListRlp)
    (signature : first.signature = second.signature) : first = second := by
  simp only [Eip1559Tx.leading, Eip1559Tx.signature, List.cons.injEq, and_true] at leading signature
  obtain ⟨chainId, nonce, priority, fee, gasLimit, toAddr, value, data⟩ := leading
  obtain ⟨yParity, r, s⟩ := signature
  exact Eip1559Tx.ext (minimalBe_injective chainId) (minimalBe_injective nonce)
    (stripZeros_injective priority) (stripZeros_injective fee) (minimalBe_injective gasLimit)
    (toBytes_injective toAddr) (stripZeros_injective value) data access
    (minimalBe_injective yParity) (stripZeros_injective r) (stripZeros_injective s)

theorem leading_eq_iff {first second : Eip1559Tx} : first.leading = second.leading ↔
    first.chainId = second.chainId ∧ first.nonce = second.nonce ∧
      first.maxPriorityFeePerGas = second.maxPriorityFeePerGas ∧
      first.maxFeePerGas = second.maxFeePerGas ∧ first.gasLimit = second.gasLimit ∧
      first.toAddr = second.toAddr ∧ first.value = second.value ∧ first.data = second.data := by
  simp only [Eip1559Tx.leading, List.cons.injEq, and_true, minimalBe_injective.eq_iff,
    toBytes_injective.eq_iff]
  constructor
  · rintro ⟨chainId, nonce, priority, fee, gasLimit, toAddr, value, data⟩
    exact ⟨chainId, nonce, stripZeros_injective priority, stripZeros_injective fee, gasLimit,
      toAddr, stripZeros_injective value, data⟩
  · rintro ⟨chainId, nonce, priority, fee, gasLimit, toAddr, value, data⟩
    rw [priority, fee, value]
    exact ⟨chainId, nonce, rfl, rfl, gasLimit, toAddr, rfl, data⟩

end Strings

section Binding

theorem short_of_leading {tx : Eip1559Tx}
    (short : ((tx.leading.map rlpEncodeBytes).flatten ++
      (tx.accessListRlp ++ tx.signatureRlp)).length < 2 ^ 64) :
    (∀ string ∈ tx.leading, (rlpEncodeBytes string).length < 2 ^ 64) ∧
      ∀ string ∈ tx.signature, (rlpEncodeBytes string).length < 2 ^ 64 := by
  rw [List.length_append, List.length_append, Eip1559Tx.signatureRlp_eq] at short
  refine ⟨fun string inside => ?_, fun string inside => ?_⟩
  · have part := length_rlpEncodeBytes_le inside
    omega
  · have part := length_rlpEncodeBytes_le inside
    omega

theorem respells_of_extra {first second : Eip1559Tx} {extra : List Byte}
    (short : ∀ string ∈ first.signature, (rlpEncodeBytes string).length < 2 ^ 64)
    (short' : ∀ string ∈ second.signature, (rlpEncodeBytes string).length < 2 ^ 64)
    (leading : first.leading = second.leading)
    (access : second.accessListRlp = first.accessListRlp ++ extra)
    (signature : first.signatureRlp = extra ++ second.signatureRlp) :
    first = second ∨ Respells first second := by
  rcases eq_or_ne extra [] with rfl | more
  · left
    rw [List.append_nil] at access
    rw [List.nil_append, Eip1559Tx.signatureRlp_eq, Eip1559Tx.signatureRlp_eq] at signature
    have strings := strings_injective (by rfl) short short'
      (congrArg (fun bytes => bytes ++ []) signature)
    exact Eip1559Tx.ext_parts leading access.symm strings.1
  · right
    obtain ⟨chainId, nonce, priority, fee, gasLimit, toAddr, value, data⟩ :=
      leading_eq_iff.1 leading
    exact ⟨chainId, nonce, priority, fee, gasLimit, toAddr, value, data,
      extra, more, access, signature⟩

theorem Respells.wire {first second : Eip1559Tx} (respells : Respells first second) :
    first.rlpEncodeBody = second.rlpEncodeBody := by
  obtain ⟨chainId, nonce, priority, fee, gasLimit, toAddr, value, data, extra, -, access,
    signature⟩ := respells
  have leading := leading_eq_iff.2
    ⟨chainId, nonce, priority, fee, gasLimit, toAddr, value, data⟩
  rw [Eip1559Tx.rlpEncodeBody_eq, Eip1559Tx.rlpEncodeBody_eq, leading, access, signature,
    List.append_assoc]

theorem rlpEncodeBody_cases {first second : Eip1559Tx}
    (short : first.rlpEncodeBody.length < 2 ^ 64) (short' : second.rlpEncodeBody.length < 2 ^ 64)
    (same : first.rlpEncodeBody = second.rlpEncodeBody) :
    first = second ∨ Respells first second ∨ Respells second first := by
  rw [Eip1559Tx.rlpEncodeBody_eq] at short short'
  rw [Eip1559Tx.rlpEncodeBody_eq, Eip1559Tx.rlpEncodeBody_eq] at same
  have payloads := framed_injective (by decide) short same
  obtain ⟨leadingShort, signatureShort⟩ :=
    short_of_leading ((length_framed 0xC0 _).trans short)
  obtain ⟨leadingShort', signatureShort'⟩ :=
    short_of_leading ((length_framed 0xC0 _).trans short')
  obtain ⟨leading, later⟩ := strings_injective (by rfl) leadingShort leadingShort' payloads
  rcases List.append_eq_append_iff.1 later with
    ⟨extra, access, signature⟩ | ⟨extra, access, signature⟩
  · rcases respells_of_extra signatureShort signatureShort' leading access signature with
      equal | respells
    · exact .inl equal
    · exact .inr (.inl respells)
  · rcases respells_of_extra signatureShort' signatureShort leading.symm access signature with
      equal | respells
    · exact .inl equal.symm
    · exact .inr (.inr respells)

theorem rlpEncode_injective {first second : LegacyTx} (short : first.rlpEncode.length < 2 ^ 64)
    (short' : second.rlpEncode.length < 2 ^ 64) (same : first.rlpEncode = second.rlpEncode) :
    first = second := by
  rw [LegacyTx.rlpEncode_eq] at short short'
  rw [LegacyTx.rlpEncode_eq, LegacyTx.rlpEncode_eq] at same
  have payloads := framed_injective (by decide) short same
  have inside := (length_framed 0xC0 _).trans short
  have inside' := (length_framed 0xC0 _).trans short'
  have strings := strings_injective (by rfl)
    (fun string member => (length_rlpEncodeBytes_le member).trans_lt inside)
    (fun string member => (length_rlpEncodeBytes_le member).trans_lt inside')
    (congrArg (fun bytes => bytes ++ []) payloads)
  exact LegacyTx.strings_injective strings.1

/-- A list does not start with the type byte. -/
theorem rlpEncode_ne_typed {tx : LegacyTx} {body : List Byte}
    (short : tx.rlpEncode.length < 2 ^ 64) : tx.rlpEncode ≠ 0x02 :: body := by
  rw [LegacyTx.rlpEncode_eq] at short ⊢
  intro same
  have starts : (0x02 : Byte) :: body = framed 0xC0 (tx.strings.map rlpEncodeBytes).flatten ++ [] :=
    by rw [List.append_nil, same]
  rcases Nat.lt_or_ge 55 (tx.strings.map rlpEncodeBytes).flatten.length with long | few
  · exact absurd (framed_long long starts (by decide) short).1 (by decide)
  · exact absurd (framed_short few starts (by decide)).1 (by decide)

theorem wireEncoding_eq_iff {first second : Transaction}
    (short : first.wireEncoding.length < 2 ^ 64) (short' : second.wireEncoding.length < 2 ^ 64) :
    first.wireEncoding = second.wireEncoding ↔ first = second ∨ Respelled first second := by
  constructor
  · intro same
    cases first with
    | legacy first =>
        cases second with
        | legacy second =>
            exact .inl (congrArg Transaction.legacy (rlpEncode_injective short short' same))
        | eip1559 second => exact absurd same (rlpEncode_ne_typed short)
    | eip1559 first =>
        cases second with
        | legacy second => exact absurd same.symm (rlpEncode_ne_typed short')
        | eip1559 second =>
            rw [Transaction.wireEncoding, List.length_cons] at short short'
            rcases rlpEncodeBody_cases (by omega) (by omega) (List.cons.inj same).2 with
              rfl | respells
            · exact .inl rfl
            · exact .inr respells
  · rintro (rfl | respelled)
    · rfl
    · cases first with
      | legacy first => cases respelled
      | eip1559 first =>
          cases second with
          | legacy second => cases respelled
          | eip1559 second =>
              rcases respelled with respells | respells
              · exact congrArg (List.cons 0x02) respells.wire
              · exact congrArg (List.cons 0x02) respells.wire.symm

/-- An item is not the beginning of another. -/
theorem not_respells_of_items {first second : Eip1559Tx} {item item' : RlpItem}
    (short : second.rlpEncodeBody.length < 2 ^ 64) (access : first.accessListRlp = item.encode)
    (access' : second.accessListRlp = item'.encode) : ¬ Respells first second := by
  intro respells
  obtain ⟨extra, more, longer, -⟩ := respells.takes
  rw [access, access'] at longer
  rw [Eip1559Tx.rlpEncodeBody_eq] at short
  have inside := (length_framed 0xC0 _).trans short
  rw [List.length_append, List.length_append, access'] at inside
  have fits : (item'.encode ++ []).length < 2 ^ 64 := by
    rw [List.append_nil]
    omega
  obtain ⟨decoded, read, rfl, consumed⟩ := rlpDecode_of_accepts (item'.accepts_encode [] fits)
  rw [List.append_nil, longer] at read
  rw [List.append_nil, longer] at fits
  obtain ⟨decoded', read', -, consumed'⟩ := rlpDecode_of_accepts (item.accepts_encode extra fits)
  obtain rfl := Except.ok.inj (read.symm.trans read')
  have lengths := congrArg List.length longer
  rw [List.length_append, ← consumed, ← consumed'] at lengths
  exact more (List.length_eq_zero_iff.1 (by omega))

/-- The access list is the encoding of an item, as the protocol has it. -/
def Transaction.Structured : Transaction → Prop
  | .legacy _ => True
  | .eip1559 tx => ∃ item : RlpItem, tx.accessListRlp = item.encode

theorem not_respelled_of_structured {first second : Transaction}
    (short : first.wireEncoding.length < 2 ^ 64) (short' : second.wireEncoding.length < 2 ^ 64)
    (structured : first.Structured) (structured' : second.Structured) :
    ¬ Respelled first second := by
  cases first with
  | legacy first => exact id
  | eip1559 first =>
      cases second with
      | legacy second => exact id
      | eip1559 second =>
          rw [Transaction.wireEncoding, List.length_cons] at short short'
          obtain ⟨item, access⟩ := structured
          obtain ⟨item', access'⟩ := structured'
          rintro (respells | respells)
          · exact not_respells_of_items (by omega) access access' respells
          · exact not_respells_of_items (by omega) access' access respells

theorem oracle_ok_iff {keccak256 : List Byte → Hash32} {root : Hash32} {index : BitVec 64}
    {tx : Transaction} {proof : List (List Byte)} :
    verifyTransactionInclusionOracle keccak256 root index tx proof = .ok () ↔
      Mpt.verifyMptInclusion keccak256 root (txTrieKey index) tx.wireEncoding proof = true := by
  rw [verifyTransactionInclusionOracle]
  split
  · rename_i rejected
    exact ⟨nofun, fun accepted => absurd accepted rejected⟩
  · rename_i accepted
    exact ⟨fun _ => not_not.1 accepted, fun _ => rfl⟩

/-- Different transactions have different encodings, and at most one is accepted at an index,
but for those whose raw access lists take over bytes of a signature. Of two with access lists
that are items neither does. -/
theorem transaction_binding (first second : Transaction)
    (short : first.wireEncoding.length < 2 ^ 64) (short' : second.wireEncoding.length < 2 ^ 64) :
    (first.wireEncoding = second.wireEncoding ↔ first = second ∨ Respelled first second) ∧
    (first.Structured → second.Structured → ¬ Respelled first second) ∧
    ∀ (keccak256 : List Byte → Hash32) (transactionsRoot : Hash32) (txIndex : BitVec 64)
      (proof proof' : List (List Byte)),
      verifyTransactionInclusionOracle keccak256 transactionsRoot txIndex first proof = .ok () →
      verifyTransactionInclusionOracle keccak256 transactionsRoot txIndex second proof' = .ok () →
      (∀ a ∈ proof, ∀ b ∈ proof', keccak256 a = keccak256 b → a = b) →
        first = second ∨ Respelled first second := by
  refine ⟨wireEncoding_eq_iff short short', not_respelled_of_structured short short', ?_⟩
  intro keccak256 transactionsRoot txIndex proof proof' accepted accepted' noCollision
  refine (wireEncoding_eq_iff short short').1 ?_
  exact (Mpt.walkProof_unique (oracle_ok_iff.1 accepted) (oracle_ok_iff.1 accepted')
    noCollision).2

end Binding

/-! Two transactions with one encoding. -/

section Spellings

theorem length_zeroWord : (List.replicate 32 (0 : Byte)).length = 32 := rfl

def zeroWord : U256Bytes := ⟨List.replicate 32 0, length_zeroWord⟩

/-- No access list, and a signature of `1`, `2` and `0x010203`. -/
def unlisted : Eip1559Tx where
  chainId := 1
  nonce := 7
  maxPriorityFeePerGas := zeroWord
  maxFeePerGas := zeroWord
  gasLimit := 21000
  toAddr := none
  value := zeroWord
  data := []
  accessListRlp := []
  yParity := 1
  r := ⟨List.replicate 31 0 ++ [2], rfl⟩
  s := ⟨List.replicate 29 0 ++ [1, 2, 3], rfl⟩

/-- Its signature's first bytes as an access list, and `3` left to sign with. -/
def listed : Eip1559Tx :=
  { unlisted with accessListRlp := [0x01, 0x02, 0x83], s := ⟨List.replicate 31 0 ++ [3], rfl⟩ }

theorem wireEncoding_not_injective :
    ¬ ∀ first second : Transaction, first ≠ second →
      first.wireEncoding ≠ second.wireEncoding := by
  intro binding
  exact binding (.eip1559 unlisted) (.eip1559 listed) (by decide) (by decide)

/-- A trie of one leaf, which holds what both are encoded as. -/
def unlistedLeaf : Mpt.Trie :=
  .leaf (Mpt.fromBytes (txTrieKey 0)) (Transaction.eip1559 unlisted).wireEncoding

theorem unlistedLeaf_accepts {tx : Transaction}
    (same : tx.wireEncoding = (Transaction.eip1559 unlisted).wireEncoding) :
    verifyTransactionInclusionOracle Mpt.zeroKeccak
      (Mpt.mptNodeHash Mpt.zeroKeccak (unlistedLeaf.node Mpt.zeroKeccak)) 0 tx
      [Mpt.mptNodeRlp (unlistedLeaf.node Mpt.zeroKeccak)] = .ok () := by
  rw [oracle_ok_iff, same]
  refine (Mpt.walkProof_trie (.leaf ?_ ?_) _ _).2 ?_
  · unfold Mpt.IsPath
    decide
  · decide
  · exact if_pos rfl

theorem transaction_binding_unlisted :
    Transaction.eip1559 unlisted = .eip1559 listed ∨
      Respelled (.eip1559 unlisted) (.eip1559 listed) :=
  (transaction_binding (.eip1559 unlisted) (.eip1559 listed) (by decide) (by decide)).2.2
    Mpt.zeroKeccak _ 0 _ _ (unlistedLeaf_accepts rfl) (unlistedLeaf_accepts (by decide))
    (by simp)

end Spellings

end MetaVm.Zkp
