import MetaVm.Zkp.Mpt
import MetaVm.Zkp.RlpCanonical

namespace MetaVm.Zkp.Mpt

/-! Tries, and the proofs that stand for their paths. -/

inductive Trie
  | leaf (path value : List Byte)
  | extension (path : List Byte) (child : Trie)
  | branch (children : Fin 16 → Option Trie) (value : Option (List Byte))

section Lookup

mutual

/-- The value behind a path. -/
def Trie.lookup : Trie → List Byte → Option (List Byte)
  | .leaf p v, path => if path = p then some v else none
  | .extension p child, path =>
      if p <+: path then child.lookup (path.drop p.length) else none
  | .branch _ v, [] => v
  | .branch children _, nib :: path => lookupChild (children (Fin.ofNat 16 nib.toNat)) path

def lookupChild : Option Trie → List Byte → Option (List Byte)
  | none, _ => none
  | some child, path => child.lookup path

end

variable (keccak256 : List Byte → Hash32)

mutual

/-- A trie's node, its children given by their hashes. -/
def Trie.node : Trie → MptNode
  | .leaf p v => .leaf p v
  | .extension p child => .extension p (mptNodeHash keccak256 child.node)
  | .branch children v => .branch (fun i => childHash (children i)) v

def childHash : Option Trie → Option Hash32
  | none => none
  | some child => some (mptNodeHash keccak256 child.node)

end

mutual

/-- The nodes along a path, as far as it goes. -/
def Trie.pathNodes (trie : Trie) (path : List Byte) : List MptNode :=
  match trie, path with
  | .leaf p v, _ => [.leaf p v]
  | .extension p child, path =>
      (Trie.extension p child).node keccak256 ::
        if p <+: path then child.pathNodes (path.drop p.length) else []
  | .branch children v, [] => [(Trie.branch children v).node keccak256]
  | .branch children v, nib :: path =>
      (Trie.branch children v).node keccak256 ::
        childNodes (children (Fin.ofNat 16 nib.toNat)) path

def childNodes : Option Trie → List Byte → List MptNode
  | none, _ => []
  | some child, path => child.pathNodes path

end

end Lookup

/-! A path is read back from its encoding. -/

section Paths

def IsPath (nibbles : List Byte) : Prop := ∀ nibble ∈ nibbles, nibble.toNat < 16

theorem nibbles_of_pair : ∀ high < 16, ∀ low < 16,
    ((BitVec.ofNat 8 high <<< 4 ||| BitVec.ofNat 8 low) >>> 4 = BitVec.ofNat 8 high) ∧
      (BitVec.ofNat 8 high <<< 4 ||| BitVec.ofNat 8 low) &&& 0x0F = BitVec.ofNat 8 low := by
  decide

theorem fromBytes_pair {high low : Byte} (highSmall : high.toNat < 16) (lowSmall : low.toNat < 16)
    (rest : List Byte) :
    fromBytes ((high <<< 4 ||| low) :: rest) = high :: low :: fromBytes rest := by
  obtain ⟨first, second⟩ := nibbles_of_pair high.toNat highSmall low.toNat lowSmall
  rw [BitVec.ofNat_toNat, BitVec.ofNat_toNat, BitVec.setWidth_eq, BitVec.setWidth_eq]
    at first second
  rw [fromBytes, List.flatMap_cons, first, second]
  rfl

theorem fromBytes_packPairs : ∀ nibbles : List Byte, IsPath nibbles → nibbles.length % 2 = 0 →
    fromBytes (packPairs nibbles) = nibbles
  | [], _, _ => rfl
  | [_], _, odd => nomatch odd
  | high :: low :: rest, path, even => by
      have later : IsPath rest := fun nibble inside =>
        path nibble (List.mem_cons_of_mem _ (List.mem_cons_of_mem _ inside))
      rw [packPairs, fromBytes_pair (path high List.mem_cons_self)
        (path low (List.mem_cons_of_mem _ List.mem_cons_self)),
        fromBytes_packPairs rest later (by
          rw [List.length_cons, List.length_cons] at even
          omega)]

theorem flags_of_first : ∀ isLeaf : Bool, ∀ first < 16,
    let flag : Byte := if isLeaf then 0x20 else 0
    (flag &&& 0x20 ≠ 0 ↔ isLeaf = true) ∧ flag &&& 0x10 = 0 ∧
      ((flag ||| 0x10 ||| BitVec.ofNat 8 first) &&& 0x20 ≠ 0 ↔ isLeaf = true) ∧
      (flag ||| 0x10 ||| BitVec.ofNat 8 first) &&& 0x10 ≠ 0 ∧
      (flag ||| 0x10 ||| BitVec.ofNat 8 first) &&& 0x0F = BitVec.ofNat 8 first := by
  decide

theorem fromEncodedPath_toEncodedPath {path : List Byte} (isPath : IsPath path) (isLeaf : Bool) :
    fromEncodedPath (toEncodedPath path isLeaf) = some (path, isLeaf) := by
  cases path with
  | nil =>
      obtain ⟨leaf, even, -⟩ := flags_of_first isLeaf 0 (by decide)
      rw [toEncodedPath, fromEncodedPath]
      simp only [leaf, even]
      simp [fromBytes]
  | cons first rest =>
      have small := isPath first List.mem_cons_self
      obtain ⟨leaf, even, oddLeaf, odd, low⟩ := flags_of_first isLeaf first.toNat small
      rw [BitVec.ofNat_toNat, BitVec.setWidth_eq] at oddLeaf odd low
      rw [toEncodedPath]
      split
      · rename_i oddLength
        have later : IsPath rest := fun nibble inside => isPath nibble (List.mem_cons_of_mem _ inside)
        have evenRest : rest.length % 2 = 0 := by
          rw [List.length_cons] at oddLength
          omega
        rw [fromEncodedPath]
        rw [if_pos odd, low, fromBytes_packPairs rest later evenRest]
        simp only [oddLeaf, Bool.decide_eq_true]
        rfl
      · rename_i evenLength
        rw [fromEncodedPath]
        simp only [leaf, even, fromBytes_packPairs _ isPath (by omega)]
        simp

end Paths

/-! A node is read back from its encoding. -/

section Nodes

def MptNode.item : MptNode → RlpItem
  | .leaf path value => .list [.bytes (toEncodedPath path true), .bytes value]
  | .extension path child => .list [.bytes (toEncodedPath path false), .bytes child.1]
  | .branch children value =>
      .list ((List.ofFn fun i => .bytes ((children i).elim [] Subtype.val)) ++
        [.bytes (value.getD [])])

/-- Paths are nibbles, and a value at a branch is not empty. -/
inductive MptNode.WellFormed : MptNode → Prop
  | leaf {path value : List Byte} (isPath : IsPath path) : WellFormed (.leaf path value)
  | extension {path : List Byte} {child : Hash32} (isPath : IsPath path) :
      WellFormed (.extension path child)
  | branch {children : Fin 16 → Option Hash32} {value : Option (List Byte)}
      (filled : value ≠ some []) : WellFormed (.branch children value)

theorem encodeItems_append : ∀ first second : List RlpItem,
    RlpItem.encodeItems (first ++ second) =
      RlpItem.encodeItems first ++ RlpItem.encodeItems second
  | [], _ => by rw [RlpItem.encodeItems, List.nil_append, List.nil_append]
  | item :: items, second => by
      rw [List.cons_append, RlpItem.encodeItems, RlpItem.encodeItems, encodeItems_append,
        List.cons_append]

theorem encodeItems_map (strings : List (List Byte)) :
    RlpItem.encodeItems (strings.map .bytes) = strings.map rlpEncodeBytes := by
  induction strings with
  | nil => rw [List.map_nil, RlpItem.encodeItems, List.map_nil]
  | cons string strings hypothesis =>
      rw [List.map_cons, RlpItem.encodeItems, hypothesis, RlpItem.encode, List.map_cons]

theorem mptNodeRlp_eq (node : MptNode) : mptNodeRlp node = node.item.encode := by
  cases node with
  | leaf path value =>
      rw [MptNode.item, RlpItem.encode, mptNodeRlp]
      exact congrArg rlpEncodeList (encodeItems_map [_, _]).symm
  | extension path child =>
      rw [MptNode.item, RlpItem.encode, mptNodeRlp]
      exact congrArg rlpEncodeList (encodeItems_map [_, _]).symm
  | branch children value =>
      have slots := encodeItems_map (List.ofFn fun i => (children i).elim [] Subtype.val)
      rw [List.map_ofFn, List.map_ofFn] at slots
      rw [MptNode.item, RlpItem.encode, mptNodeRlp, encodeItems_append]
      exact congrArg rlpEncodeList (congrArg₂ _ slots.symm (encodeItems_map [_]).symm)

theorem toHash_val (hash : Hash32) : toHash hash.1 = some hash := dif_pos hash.2

theorem decodeSlot_elim (child : Option Hash32) :
    decodeSlot (.bytes (child.elim [] Subtype.val)) = some child := by
  cases child with
  | none => rfl
  | some hash =>
      have filled : ¬ hash.1.isEmpty := by
        rw [List.isEmpty_iff_length_eq_zero, hash.2]
        decide
      rw [decodeSlot, Option.elim_some, asBytes]
      dsimp only [Option.bind_eq_bind, Option.bind_some]
      rw [if_neg filled, toHash_val]
      rfl

theorem mapM_decodeSlot (children : List (Option Hash32)) :
    (children.map fun child => RlpItem.bytes (child.elim [] Subtype.val)).mapM decodeSlot =
      some children := by
  induction children with
  | nil => rfl
  | cons child children hypothesis =>
      rw [List.map_cons, List.mapM_cons, decodeSlot_elim, hypothesis]
      rfl

theorem decodeNode_branch {slots : List RlpItem} {last : RlpItem} (many : slots.length = 16) :
    decodeNode (.list (slots ++ [last])) = (slots.mapM decodeSlot).bind fun children =>
      (asBytes last).bind fun v =>
        some (.branch (fun i => children.getD i none) (if v.isEmpty then none else some v)) := by
  have length : (slots ++ [last]).length = 17 := by
    rw [List.length_append, many, List.length_singleton]
  have front : (slots ++ [last]).take 16 = slots := List.take_left' many
  have back : (slots ++ [last])[16]? = some last := by
    rw [← many]
    exact List.getElem?_concat_length
  rw [decodeNode]
  · rw [if_pos length, front, back]
    rfl
  · intro first second same
    rw [same] at length
    cases length

theorem decodeNode_item {node : MptNode} (wellFormed : node.WellFormed) :
    decodeNode node.item = some node := by
  cases wellFormed with
  | leaf isPath =>
      rw [MptNode.item, decodeNode, asBytes, asBytes]
      dsimp only [Option.bind_eq_bind, Option.bind_some]
      rw [fromEncodedPath_toEncodedPath isPath]
      rfl
  | @extension path child isPath =>
      rw [MptNode.item, decodeNode, asBytes, asBytes]
      dsimp only [Option.bind_eq_bind, Option.bind_some]
      rw [fromEncodedPath_toEncodedPath isPath]
      dsimp only [Option.bind_some]
      rw [if_neg Bool.false_ne_true, toHash_val]
      rfl
  | @branch children value filled =>
      rw [MptNode.item, decodeNode_branch List.length_ofFn]
      have slots := mapM_decodeSlot (List.ofFn children)
      rw [List.map_ofFn] at slots
      have kept : (fun i : Fin 16 => (List.ofFn children).getD i none) = children := by
        funext i
        rw [List.getD_eq_getElem _ _ (by rw [List.length_ofFn]; exact i.isLt), List.getElem_ofFn]
      have valueKept : (if (value.getD []).isEmpty then none else some (value.getD [])) = value := by
        cases value with
        | none => rfl
        | some v =>
            have nonempty : ¬ v.isEmpty := fun empty =>
              filled (congrArg some (List.isEmpty_iff.1 empty))
            exact if_neg nonempty
      rw [show (List.ofFn fun i => RlpItem.bytes ((children i).elim [] Subtype.val)).mapM decodeSlot =
        some (List.ofFn children) from slots, asBytes]
      dsimp only [Option.bind_some]
      rw [kept, valueKept]

theorem readNode_mptNodeRlp {keccak256 : List Byte → Hash32} {node : MptNode}
    (wellFormed : node.WellFormed) (short : (mptNodeRlp node).length < 2 ^ 64) :
    readNode keccak256 (mptNodeHash keccak256 node) (mptNodeRlp node) = some node := by
  have encoded := mptNodeRlp_eq node
  rw [encoded, ← List.append_nil node.item.encode] at short
  obtain ⟨decoded, read, item, consumed⟩ := rlpDecode_encode node.item [] short
  rw [List.append_nil] at read
  rw [readNode, mptNodeHash, if_neg (not_not.2 rfl), encoded, read]
  dsimp only
  rw [consumed, if_neg (not_not.2 rfl), item, decodeNode_item wellFormed]

end Nodes

/-! The proof of a path is accepted exactly for the value behind the path. -/

section Completeness

variable {keccak256 : List Byte → Hash32}

/-- Every node is well formed and its bytes fit into memory. -/
inductive Trie.Valid (keccak256 : List Byte → Hash32) : Trie → Prop
  | leaf {path value : List Byte} (isPath : IsPath path)
      (short : (mptNodeRlp (.leaf path value)).length < 2 ^ 64) :
      Valid keccak256 (.leaf path value)
  | extension {path : List Byte} {child : Trie} (isPath : IsPath path)
      (valid : child.Valid keccak256)
      (short : (mptNodeRlp ((Trie.extension path child).node keccak256)).length < 2 ^ 64) :
      Valid keccak256 (.extension path child)
  | branch {children : Fin 16 → Option Trie} {value : Option (List Byte)}
      (filled : value ≠ some [])
      (valid : ∀ i child, children i = some child → child.Valid keccak256)
      (short : (mptNodeRlp ((Trie.branch children value).node keccak256)).length < 2 ^ 64) :
      Valid keccak256 (.branch children value)

theorem readNode_trie {trie : Trie} (valid : trie.Valid keccak256) :
    readNode keccak256 (mptNodeHash keccak256 (trie.node keccak256))
      (mptNodeRlp (trie.node keccak256)) = some (trie.node keccak256) := by
  cases valid with
  | leaf isPath short => exact readNode_mptNodeRlp (.leaf isPath) short
  | extension isPath valid short => exact readNode_mptNodeRlp (.extension isPath) short
  | branch filled valid short => exact readNode_mptNodeRlp (.branch filled) short

theorem walkProof_trie {trie : Trie} (valid : trie.Valid keccak256) (path value : List Byte) :
    walkProof keccak256 value path (mptNodeHash keccak256 (trie.node keccak256))
      ((trie.pathNodes keccak256 path).map mptNodeRlp) = true ↔ trie.lookup path = some value := by
  induction valid generalizing path with
  | @leaf p v isPath short =>
      have read := readNode_trie (.leaf isPath short : Trie.Valid keccak256 (.leaf p v))
      rw [Trie.pathNodes, List.map_cons, List.map_nil, walkProof]
      rw [Trie.node] at read ⊢
      rw [read, Trie.lookup]
      dsimp only
      rw [advance]
      by_cases same : path = p
      · rw [if_pos same, if_pos same]
        simp
      · rw [if_neg same, if_neg same]
        exact iff_of_false Bool.false_ne_true (by rintro ⟨⟩)
  | @extension p child isPath valid short hypothesis =>
      have read := readNode_trie (.extension isPath valid short)
      rw [Trie.pathNodes, List.map_cons, walkProof, read, Trie.lookup, Trie.node]
      dsimp only
      rw [advance]
      by_cases follows : p <+: path
      · have through : ¬ (path.length < p.length ∨ path.take p.length ≠ p) := by
          rw [not_or, not_not, Nat.not_lt]
          exact ⟨follows.length_le, (List.prefix_iff_eq_take.1 follows).symm⟩
        rw [if_neg through, if_pos follows, if_pos follows]
        exact hypothesis _
      · have blocked : path.length < p.length ∨ path.take p.length ≠ p :=
          .inr fun same => follows (List.prefix_iff_eq_take.2 same.symm)
        rw [if_pos blocked, if_neg follows, if_neg follows]
        exact iff_of_false Bool.false_ne_true (by rintro ⟨⟩)
  | @branch children v filled valid short hypothesis =>
      have read := readNode_trie (.branch filled valid short)
      cases path with
      | nil =>
          rw [Trie.pathNodes, List.map_cons, List.map_nil, walkProof, read, Trie.lookup, Trie.node]
          dsimp only
          rw [advance]
          cases v with
          | none => exact iff_of_false Bool.false_ne_true (by rintro ⟨⟩)
          | some held => simp
      | cons nib path =>
          rw [Trie.pathNodes, List.map_cons, walkProof, read, Trie.lookup, Trie.node]
          dsimp only
          rw [advance]
          cases below : children (Fin.ofNat 16 nib.toNat) with
          | none =>
              rw [lookupChild, childHash]
              exact iff_of_false Bool.false_ne_true (by rintro ⟨⟩)
          | some child =>
              rw [lookupChild, childHash, childNodes]
              exact hypothesis _ child below path

/-- From a trie's root the nodes along a key are a proof of the value behind the key, and of
nothing else. -/
theorem mpt_inclusion_complete {trie : Trie} (valid : trie.Valid keccak256)
    (key value : List Byte) :
    verifyMptInclusion keccak256 (mptNodeHash keccak256 (trie.node keccak256)) key value
      ((trie.pathNodes keccak256 (fromBytes key)).map mptNodeRlp) = true ↔
        trie.lookup (fromBytes key) = some value :=
  walkProof_trie valid (fromBytes key) value

/-- A branch with one leaf below it, at the key `0x12`. -/
def branchOverLeaf : Trie :=
  .branch (fun i => if i = 1 then some (.leaf [2] [5]) else none) none

theorem length_zeros : (List.replicate 32 (0 : Byte)).length = 32 := rfl

def zeroKeccak : List Byte → Hash32 := fun _ => ⟨List.replicate 32 0, length_zeros⟩

theorem valid_branchOverLeaf : branchOverLeaf.Valid zeroKeccak := by
  refine .branch nofun ?_ (by decide)
  intro i child below
  split at below
  · obtain rfl := Option.some.inj below
    exact .leaf (by unfold IsPath; decide) (by decide)
  · cases below

theorem mpt_inclusion_complete_branchOverLeaf :
    verifyMptInclusion zeroKeccak (mptNodeHash zeroKeccak (branchOverLeaf.node zeroKeccak)) [0x12]
      [5] ((branchOverLeaf.pathNodes zeroKeccak (fromBytes [0x12])).map mptNodeRlp) = true ↔
        branchOverLeaf.lookup (fromBytes [0x12]) = some [5] :=
  mpt_inclusion_complete valid_branchOverLeaf [0x12] [5]

end Completeness

end MetaVm.Zkp.Mpt
