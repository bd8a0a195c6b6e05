import MetaVm.Zkp.Proof
import MetaVm.Zkp.Rlp

namespace MetaVm.Zkp

/-! Merkle Patricia tries: nodes, their paths and the walk along a proof. -/

namespace Mpt

/-! Paths are lists of nibbles, one in each byte. -/

section Nibbles

/-- The high nibble first. -/
def fromBytes (bytes : List Byte) : List Byte :=
  bytes.flatMap fun b : Byte => [b >>> 4, b &&& 0x0F]

/-- Nibbles, two in each byte. An odd one at the end is never left over by the caller. -/
def packPairs : List Byte → List Byte
  | high :: low :: rest => (high <<< 4 ||| low) :: packPairs rest
  | _ => []

/-- The hex-prefix encoding: a flag for a leaf, a flag for an odd length. -/
def toEncodedPath (nibbles : List Byte) (isLeaf : Bool) : List Byte :=
  let flag : Byte := if isLeaf then 0x20 else 0
  match nibbles with
  | first :: rest =>
      if nibbles.length % 2 = 1 then (flag ||| 0x10 ||| first) :: packPairs rest
      else flag :: packPairs nibbles
  | [] => [flag]

/-- The two high bits of the first byte are not read. -/
def fromEncodedPath : List Byte → Option (List Byte × Bool)
  | [] => none
  | first :: rest =>
      let isLeaf := first &&& 0x20 ≠ 0
      let odd := first &&& 0x10 ≠ 0
      some ((if odd then [first &&& 0x0F] else []) ++ fromBytes rest, isLeaf)

end Nibbles

/-- The kinds of nodes. Children are given by their hashes. -/
inductive MptNode
  | leaf (path value : List Byte)
  | extension (path : List Byte) (child : Hash32)
  | branch (children : Fin 16 → Option Hash32) (value : Option (List Byte))

section Encoding

def mptNodeRlp : MptNode → List Byte
  | .leaf path value =>
      rlpEncodeList [rlpEncodeBytes (toEncodedPath path true), rlpEncodeBytes value]
  | .extension path child =>
      rlpEncodeList [rlpEncodeBytes (toEncodedPath path false), rlpEncodeBytes child.1]
  | .branch children value =>
      rlpEncodeList ((List.ofFn fun i => rlpEncodeBytes ((children i).elim [] Subtype.val)) ++
        [rlpEncodeBytes (value.getD [])])

def mptNodeHash (keccak256 : List Byte → Hash32) (node : MptNode) : Hash32 :=
  keccak256 (mptNodeRlp node)

end Encoding

section Decoding

def asBytes : RlpItem → Option (List Byte)
  | .bytes b => some b
  | .list _ => none

def toHash (bytes : List Byte) : Option Hash32 :=
  if length : bytes.length = 32 then some ⟨bytes, length⟩ else none

/-- A slot of a branch: empty, or a hash. Inlined children are not supported. -/
def decodeSlot (slot : RlpItem) : Option (Option Hash32) := do
  let b ← asBytes slot
  if b.isEmpty then pure none else (toHash b).map some

def decodeNode : RlpItem → Option MptNode
  | .list [first, second] => do
      let hp ← asBytes first
      let (nibbles, isLeaf) ← fromEncodedPath hp
      let child ← asBytes second
      if isLeaf then pure (.leaf nibbles child) else (toHash child).map (.extension nibbles)
  | .list list =>
      if list.length = 17 then do
        let children ← (list.take 16).mapM decodeSlot
        let v ← list[16]?.bind asBytes
        pure (.branch (fun i => children.getD i none) (if v.isEmpty then none else some v))
      else none
  | .bytes _ => none

end Decoding

section Inclusion

variable (keccak256 : List Byte → Hash32)

/-- A proof's node: hashed as expected, and one item as a whole. A decoder that panics does not
come back with a node either. -/
def readNode (expectedHash : Hash32) (encoded : List Byte) : Option MptNode :=
  if keccak256 encoded ≠ expectedHash then none
  else
    match rlpDecode encoded with
    | .error _ => none
    | .ok decoded => if decoded.consumed ≠ encoded.length then none else decodeNode decoded.item

/-- What a node makes of the rest of a path. -/
inductive Advance
  | stop
  | found (value : List Byte)
  | next (path : List Byte) (child : Hash32)

def advance (path : List Byte) : MptNode → Advance
  | .leaf p v => if path = p then .found v else .stop
  | .extension p child =>
      if path.length < p.length ∨ path.take p.length ≠ p then .stop
      else .next (path.drop p.length) child
  | .branch children v =>
      match path with
      | [] => v.elim .stop .found
      | nib :: path => (children (Fin.ofNat 16 nib.toNat)).elim .stop (.next path)

/-- The walk along a proof. The value has to be found in the last node. -/
def walkProof (value : List Byte) : List Byte → Hash32 → List (List Byte) → Bool
  | _, _, [] => false
  | path, expectedHash, encoded :: rest =>
      match readNode keccak256 expectedHash encoded with
      | none => false
      | some node =>
          match advance path node with
          | .stop => false
          | .found v => rest.isEmpty && v == value
          | .next path child => walkProof value path child rest

def verifyMptInclusion (root : Hash32) (key value : List Byte) (proof : List (List Byte)) : Bool :=
  walkProof keccak256 value (fromBytes key) root proof

end Inclusion

/-! Two accepted proofs take the same way. -/

section Binding

variable {keccak256 : List Byte → Hash32} {value other path : List Byte} {root : Hash32}
  {proof second : List (List Byte)}

theorem readNode_hash {expected : Hash32} {encoded : List Byte} {node : MptNode}
    (read : readNode keccak256 expected encoded = some node) : keccak256 encoded = expected := by
  rw [readNode] at read
  split at read
  · cases read
  · rename_i same
    exact not_not.1 same

/-- What an accepted proof does at its first node: it ends there, or it goes on. -/
theorem walkProof_cons {encoded : List Byte} {rest : List (List Byte)} :
    walkProof keccak256 value path root (encoded :: rest) = true ↔
      ∃ node, readNode keccak256 root encoded = some node ∧
        ((advance path node = .found value ∧ rest = []) ∨
          ∃ remaining child, advance path node = .next remaining child ∧
            walkProof keccak256 value remaining child rest = true) := by
  rw [walkProof]
  cases readNode keccak256 root encoded with
  | none => exact ⟨nofun, nofun⟩
  | some node =>
      dsimp only
      constructor
      · intro accepted
        refine ⟨node, rfl, ?_⟩
        cases outcome : advance path node with
        | stop =>
            rw [outcome] at accepted
            cases accepted
        | found v =>
            rw [outcome] at accepted
            obtain ⟨last, same⟩ := Bool.and_eq_true_iff.1 accepted
            exact .inl ⟨congrArg Advance.found (beq_iff_eq.1 same), List.isEmpty_iff.1 last⟩
        | next remaining child =>
            rw [outcome] at accepted
            exact .inr ⟨remaining, child, rfl, accepted⟩
      · rintro ⟨_, ⟨⟩, ⟨ends, rfl⟩ | ⟨remaining, child, goes, accepted⟩⟩
        · rw [ends]
          exact beq_iff_eq.2 rfl
        · rw [goes]
          exact accepted

/-- Accepted proofs for one path from one hash are the same, node by node. -/
theorem walkProof_unique (accepted : walkProof keccak256 value path root proof = true)
    (too : walkProof keccak256 other path root second = true)
    (noCollision : ∀ a ∈ proof, ∀ b ∈ second, keccak256 a = keccak256 b → a = b) :
    proof = second ∧ value = other := by
  induction proof generalizing second path root with
  | nil => cases accepted
  | cons encoded rest hypothesis =>
      cases second with
      | nil => cases too
      | cons encoded' rest' =>
          obtain ⟨node, read, way⟩ := walkProof_cons.1 accepted
          obtain ⟨node', read', way'⟩ := walkProof_cons.1 too
          obtain rfl := noCollision encoded List.mem_cons_self encoded' List.mem_cons_self
            ((readNode_hash read).trans (readNode_hash read').symm)
          obtain rfl := Option.some.inj (read.symm.trans read')
          rcases way with ⟨ends, rfl⟩ | ⟨remaining, child, goes, accepted⟩
          · rcases way' with ⟨ends', rfl⟩ | ⟨remaining', child', goes', -⟩
            · exact ⟨rfl, Advance.found.inj (ends.symm.trans ends')⟩
            · cases ends.symm.trans goes'
          · rcases way' with ⟨ends', -⟩ | ⟨remaining', child', goes', too⟩
            · cases goes.symm.trans ends'
            · obtain ⟨rfl, rfl⟩ := Advance.next.inj (goes.symm.trans goes')
              obtain ⟨rfl, same⟩ := hypothesis accepted too fun a inside b within =>
                noCollision a (List.mem_cons_of_mem _ inside) b (List.mem_cons_of_mem _ within)
              exact ⟨rfl, same⟩

/-- Nothing can be appended to an accepted proof. -/
theorem walkProof_append {extra : List (List Byte)}
    (accepted : walkProof keccak256 value path root proof = true)
    (too : walkProof keccak256 other path root (proof ++ extra) = true) : extra = [] := by
  induction proof generalizing path root with
  | nil => cases accepted
  | cons encoded rest hypothesis =>
      obtain ⟨node, read, way⟩ := walkProof_cons.1 accepted
      obtain ⟨node', read', way'⟩ := walkProof_cons.1 too
      obtain rfl := Option.some.inj (read.symm.trans read')
      rcases way with ⟨ends, rfl⟩ | ⟨remaining, child, goes, accepted⟩
      · rcases way' with ⟨-, last⟩ | ⟨remaining', child', goes', -⟩
        · exact last
        · cases ends.symm.trans goes'
      · rcases way' with ⟨ends', -⟩ | ⟨remaining', child', goes', too⟩
        · cases goes.symm.trans ends'
        · obtain ⟨rfl, rfl⟩ := Advance.next.inj (goes.symm.trans goes')
          exact hypothesis accepted too

/-- For a root and a key at most one value has an accepted proof and it has only one; without
some of its nodes, or with more behind them, it is accepted for no value. -/
theorem mpt_inclusion_binding (keccak256 : List Byte → Hash32) (root : Hash32) (key : List Byte) :
    (∀ value other proof second, verifyMptInclusion keccak256 root key value proof = true →
      verifyMptInclusion keccak256 root key other second = true →
      (∀ a ∈ proof, ∀ b ∈ second, keccak256 a = keccak256 b → a = b) →
        value = other ∧ proof = second) ∧
    (∀ value other proof extra, verifyMptInclusion keccak256 root key value proof = true →
      verifyMptInclusion keccak256 root key other (proof ++ extra) = true → extra = []) ∧
    ∀ value other proof fewer, verifyMptInclusion keccak256 root key value proof = true →
      fewer.Sublist proof → verifyMptInclusion keccak256 root key other fewer = true →
      (∀ a ∈ proof, ∀ b ∈ proof, keccak256 a = keccak256 b → a = b) → fewer = proof := by
  refine ⟨?_, ?_, ?_⟩
  · intro value other proof second accepted too noCollision
    obtain ⟨same, values⟩ := walkProof_unique accepted too noCollision
    exact ⟨values, same⟩
  · intro value other proof extra accepted too
    exact walkProof_append accepted too
  · intro value other proof fewer accepted part too noCollision
    exact (walkProof_unique accepted too fun a inside b within =>
      noCollision a inside b (part.subset within)).1.symm

theorem length_firstBytes (bytes : List Byte) :
    ((bytes ++ List.replicate 32 0).take 32).length = 32 := by
  rw [List.length_take, List.length_append, List.length_replicate]
  exact min_eq_left (Nat.le_add_left 32 bytes.length)

/-- A hash that keeps 32 bytes. -/
def firstBytes (bytes : List Byte) : Hash32 := ⟨_, length_firstBytes bytes⟩

/-- The end of the key `0x1234`. -/
def leafBelow : MptNode := .leaf [3, 4] [5]

def extensionAbove : MptNode := .extension [1, 2] (mptNodeHash firstBytes leafBelow)

theorem readNode_leafBelow :
    readNode firstBytes (mptNodeHash firstBytes leafBelow) (mptNodeRlp leafBelow) =
      some leafBelow := by
  have encoded : mptNodeRlp leafBelow = [0xC4, 0x82, 0x20, 0x34, 0x05] := by decide
  rw [readNode, mptNodeHash, if_neg (not_not.2 rfl), encoded]
  simp [rlpDecode, decodeListPayload, bodyOf]
  rfl

theorem readNode_extensionAbove :
    readNode firstBytes (mptNodeHash firstBytes extensionAbove) (mptNodeRlp extensionAbove) =
      some extensionAbove := by
  have encoded : mptNodeRlp extensionAbove =
      [0xE4, 0x82, 0x00, 0x12, 0xA0, 0xC4, 0x82, 0x20, 0x34, 0x05, 0, 0, 0, 0, 0, 0, 0, 0, 0, 0, 0,
        0, 0, 0, 0, 0, 0, 0, 0, 0, 0, 0, 0, 0, 0, 0, 0] := by
    decide
  rw [readNode, mptNodeHash, if_neg (not_not.2 rfl), encoded]
  simp [rlpDecode, decodeListPayload, bodyOf]
  rfl

/-- A proof of two nodes holds for one value, and neither with a node behind it nor without its
leaf. -/
theorem mpt_inclusion_binding_extension :
    let root := mptNodeHash firstBytes extensionAbove
    let proof := [mptNodeRlp extensionAbove, mptNodeRlp leafBelow]
    (∀ value, verifyMptInclusion firstBytes root [0x12, 0x34] value proof = true ↔ value = [5]) ∧
      (∀ value node,
        verifyMptInclusion firstBytes root [0x12, 0x34] value (proof ++ [node]) = false) ∧
      ∀ value,
        verifyMptInclusion firstBytes root [0x12, 0x34] value [mptNodeRlp extensionAbove] =
          false := by
  intro root proof
  have accepted : verifyMptInclusion firstBytes root [0x12, 0x34] [5] proof = true :=
    walkProof_cons.2 ⟨_, readNode_extensionAbove, .inr ⟨_, _, rfl,
      walkProof_cons.2 ⟨_, readNode_leafBelow, .inl ⟨rfl, rfl⟩⟩⟩⟩
  have separates : ∀ a ∈ proof, ∀ b ∈ proof, firstBytes a = firstBytes b → a = b := by decide
  obtain ⟨unique, whole, shortest⟩ := mpt_inclusion_binding firstBytes root [0x12, 0x34]
  refine ⟨fun value => ⟨fun too => ?_, ?_⟩, fun value node => ?_, fun value => ?_⟩
  · exact (unique _ _ _ _ too accepted separates).1
  · rintro rfl
    exact accepted
  · refine Bool.eq_false_iff.2 fun too => ?_
    cases whole _ _ _ _ accepted too
  · refine Bool.eq_false_iff.2 fun too => ?_
    have part : [mptNodeRlp extensionAbove].Sublist proof :=
      .cons_cons _ (List.nil_sublist _)
    have same : [mptNodeRlp extensionAbove] = proof :=
      shortest _ _ _ _ accepted part too separates
    exact absurd (congrArg List.length same) (by decide)

end Binding

end Mpt

end MetaVm.Zkp
