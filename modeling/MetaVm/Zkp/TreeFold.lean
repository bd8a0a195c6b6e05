import MetaVm.Lib.CarryStack
import MetaVm.Zkp.Recursive
import MetaVm.Zkp.ProofCodec

namespace MetaVm.Zkp

open Framing

/-! Many chunk proofs are folded along a tree. The results that wait for a
right neighbour are kept on a stack. -/

/-- A missing accumulator passes the other one through. The modulus is that of
BLS48-581 on either curve. -/
def combineScalarAccs (big : BigLibrary) (left right : List Byte) : Option (List Byte) :=
  if left.isEmpty then some right
  else if right.isEmpty then some left
  else do
    let l ← big.fromBytes left
    let r ← big.fromBytes right
    pure (bigEndian Scalar.modBytes ((l + r) % big.curveOrder))

/-- The bytes of the challenge that two proofs are merged with. -/
def treeFoldChallenge (sha3 : Sha3) (left right : RecursiveProof) : List Byte :=
  let transcript := ((((Transcript.new (ascii "metavm-tree-fold")).appendMessage
    (ascii "left-l-acc") left.accumulator.lAcc).appendMessage
    (ascii "left-r-acc") left.accumulator.rAcc).appendMessage
    (ascii "right-l-acc") right.accumulator.lAcc).appendMessage
    (ascii "right-r-acc") right.accumulator.rAcc
  (transcript.challenge sha3 (ascii "fold-challenge")).1

/-- Nothing says that two hashes differ when one of them is missing. -/
def stateChainBroken (left right : RecursiveProof) : Bool :=
  match left.finalStateHash, right.initialStateHash with
  | some leftFinal, some rightInitial => leftFinal ≠ rightInitial
  | _, _ => false

section Merging

variable (sha3 : Sha3) (big : BigLibrary)

/-- Merge two proofs with a way to fold pairs of points by challenge bytes. -/
def foldRecursiveProofsBy
    (fold : (lLeft rLeft lRight rRight challenge : List Byte) → Option (List Byte × List Byte))
    (left right : RecursiveProof) : Except Fault RecursiveProof :=
  if stateChainBroken left right then
    .error (.failed
      "State chain broken during tree fold: left final hash != right initial hash")
  else do
    let points ← orPanic (fold left.accumulator.lAcc left.accumulator.rAcc
      right.accumulator.lAcc right.accumulator.rAcc (treeFoldChallenge sha3 left right))
    let scalarAcc ← orPanic
      (combineScalarAccs big left.accumulator.scalarAcc right.accumulator.scalarAcc)
    pure
      { currentProof := right.currentProof
        accumulator :=
          { lAcc := points.1
            rAcc := points.2
            numFolded := left.accumulator.numFolded + right.accumulator.numFolded
            scalarAcc }
        depth := left.depth + right.depth
        initialStateHash := left.initialStateHash
        finalStateHash := right.finalStateHash }

def foldRecursiveProofsScheme {curve : CurveType} (scheme : CommitmentScheme curve) :
    RecursiveProof → RecursiveProof → Except Fault RecursiveProof :=
  foldRecursiveProofsBy sha3 big fun lLeft rLeft lRight rRight challenge =>
    scheme.foldAccumulator lLeft rLeft lRight rRight (Scalar.fromChallengeBytes curve challenge)

/-- The older function takes the challenge as a number as it is. -/
def foldRecursiveProofs {G : Type} [AddCommGroup G] (codec : PointCodec G) :
    RecursiveProof → RecursiveProof → Except Fault RecursiveProof :=
  foldRecursiveProofsBy sha3 big fun lLeft rLeft lRight rRight challenge =>
    codec.foldAccumulator lLeft rLeft lRight rRight (fromLittleEndian challenge)

end Merging

/-- Chunks are put on the stack as they come, and what is left is merged from
the oldest to the latest. -/
def treeFoldBy (start : ChunkProof → Except Fault RecursiveProof)
    (merge : RecursiveProof → RecursiveProof → Except Fault RecursiveProof)
    (chunks : List ChunkProof) : Except Fault RecursiveProof := do
  let stack ← CarryStack.feed merge start chunks []
  if chunks.length = 0 then .error (.failed "No chunks to fold")
  else CarryStack.drain merge (.failed "Stack was empty after processing") stack

section TreeFolds

variable (sha3 : Sha3) (big : BigLibrary)

def treeFold {G : Type} [AddCommGroup G] (codec : PointCodec G) (generator : G) :
    List ChunkProof → Except Fault RecursiveProof :=
  treeFoldBy (beginChunk sha3 big codec generator) (foldRecursiveProofs sha3 big codec)

/-- The callback on progress only sees counts, and is left out. -/
def treeFoldWithProgressScheme {curve : CurveType} (scheme : CommitmentScheme curve) :
    List ChunkProof → Except Fault RecursiveProof :=
  treeFoldBy (beginChunkScheme sha3 scheme) (foldRecursiveProofsScheme sha3 big scheme)

end TreeFolds

/-! One merge. -/

section Merges

variable {sha3 : Sha3} {big : BigLibrary} {G : Type} {codec : PointCodec G}

/-- A proof that was begun or merged without constraint scalars. -/
structure Foldable (codec : PointCodec G) (proof : RecursiveProof) : Prop where
  lAcc : ∃ point, codec.decompress proof.accumulator.lAcc = some point
  rAcc : ∃ point, codec.decompress proof.accumulator.rAcc = some point
  scalarAcc : proof.accumulator.scalarAcc = []
  initial : ∃ hash, proof.initialStateHash = some hash
  final : ∃ hash, proof.finalStateHash = some hash

theorem stateChainBroken_eq_false {left right : RecursiveProof} (leftGood : Foldable codec left)
    (rightGood : Foldable codec right) :
    stateChainBroken left right = false ↔ left.finalStateHash = right.initialStateHash := by
  obtain ⟨final, finalEq⟩ := leftGood.final
  obtain ⟨initial, initialEq⟩ := rightGood.initial
  rw [stateChainBroken, finalEq, initialEq]
  simp only [ne_eq, decide_not, Bool.not_eq_eq_eq_not, Bool.not_false, decide_eq_true_eq,
    Option.some.injEq]

variable [AddCommGroup G]

/-- The point that an accumulator has on one side of the pairing. -/
def pointOf (codec : PointCodec G) (bytes : List Byte) : G := (codec.decompress bytes).getD 0

theorem pointOf_eq {bytes : List Byte} {point : G} (read : codec.decompress bytes = some point) :
    pointOf codec bytes = point := by
  rw [pointOf, read, Option.getD_some]

/-- Points fold to their combination. -/
theorem foldAccumulator_eq {lLeft rLeft lRight rRight : List Byte} {a b c d : G}
    (lLeftEq : codec.decompress lLeft = some a) (rLeftEq : codec.decompress rLeft = some b)
    (lRightEq : codec.decompress lRight = some c) (rRightEq : codec.decompress rRight = some d)
    (factor : ℕ) :
    codec.foldAccumulator lLeft rLeft lRight rRight factor =
      some (codec.compress (a + factor • c), codec.compress (b + factor • d)) := by
  rw [PointCodec.foldAccumulator, lLeftEq, lRightEq, rLeftEq, rRightEq]
  rfl

/-- Merge with a challenge that is turned into a number. -/
abbrev mergePoints (sha3 : Sha3) (big : BigLibrary) (codec : PointCodec G)
    (factor : List Byte → ℕ) :
    RecursiveProof → RecursiveProof → Except Fault RecursiveProof :=
  foldRecursiveProofsBy sha3 big fun lLeft rLeft lRight rRight challenge =>
    codec.foldAccumulator lLeft rLeft lRight rRight (factor challenge)

variable {factor : List Byte → ℕ}

/-- Proofs that can be folded are merged when their state hashes meet, and the
result is what the source writes down. -/
theorem foldRecursiveProofsBy_eq_ok {left right value : RecursiveProof}
    (leftGood : Foldable codec left) (rightGood : Foldable codec right) :
    mergePoints sha3 big codec factor left right = .ok value ↔
    left.finalStateHash = right.initialStateHash ∧
      value =
        { currentProof := right.currentProof
          accumulator :=
            { lAcc := codec.compress (pointOf codec left.accumulator.lAcc +
                factor (treeFoldChallenge sha3 left right) • pointOf codec right.accumulator.lAcc)
              rAcc := codec.compress (pointOf codec left.accumulator.rAcc +
                factor (treeFoldChallenge sha3 left right) • pointOf codec right.accumulator.rAcc)
              numFolded := left.accumulator.numFolded + right.accumulator.numFolded
              scalarAcc := [] }
          depth := left.depth + right.depth
          initialStateHash := left.initialStateHash
          finalStateHash := right.finalStateHash } := by
  obtain ⟨a, aEq⟩ := leftGood.lAcc
  obtain ⟨b, bEq⟩ := leftGood.rAcc
  obtain ⟨c, cEq⟩ := rightGood.lAcc
  obtain ⟨d, dEq⟩ := rightGood.rAcc
  have scalars : combineScalarAccs big left.accumulator.scalarAcc right.accumulator.scalarAcc =
      some [] := by
    rw [combineScalarAccs, leftGood.scalarAcc, rightGood.scalarAcc]
    rfl
  rw [← stateChainBroken_eq_false leftGood rightGood, mergePoints, foldRecursiveProofsBy, scalars,
    foldAccumulator_eq aEq bEq cEq dEq, pointOf_eq aEq, pointOf_eq bEq, pointOf_eq cEq,
    pointOf_eq dEq]
  cases stateChainBroken left right with
  | true =>
      rw [if_pos rfl]
      constructor
      · rintro ⟨⟩
      · rintro ⟨broken, _⟩
        cases broken
  | false =>
      rw [if_neg Bool.false_ne_true, and_iff_right rfl]
      exact ⟨fun done => (Except.ok.inj done).symm, fun same => congrArg Except.ok same.symm⟩

theorem foldRecursiveProofsBy_joins :
    CarryStack.Joins (mergePoints sha3 big codec factor) (Foldable codec)
      RecursiveProof.initialStateHash RecursiveProof.finalStateHash where
  merge_ok leftGood rightGood meet :=
    ⟨_, (foldRecursiveProofsBy_eq_ok leftGood rightGood).2 ⟨meet, rfl⟩⟩
  joined := by
    intro left right value leftGood rightGood done
    obtain ⟨meet, rfl⟩ := (foldRecursiveProofsBy_eq_ok leftGood rightGood).1 done
    exact ⟨meet, ⟨⟨_, codec.decompress_compress _⟩, ⟨_, codec.decompress_compress _⟩, rfl,
      leftGood.initial, rightGood.final⟩, rfl, rfl⟩

theorem depth_foldRecursiveProofsBy
    {fold : (lLeft rLeft lRight rRight challenge : List Byte) → Option (List Byte × List Byte)}
    {left right value : RecursiveProof}
    (done : foldRecursiveProofsBy sha3 big fold left right = .ok value) :
    value.depth = left.depth + right.depth ∧
      value.accumulator.numFolded =
        left.accumulator.numFolded + right.accumulator.numFolded := by
  rw [foldRecursiveProofsBy] at done
  split at done
  · cases done
  · obtain ⟨points, _, done⟩ := except_bind_eq_ok.1 done
    obtain ⟨scalarAcc, _, done⟩ := except_bind_eq_ok.1 done
    obtain rfl := Except.ok.inj done
    exact ⟨rfl, rfl⟩

end Merges

/-! Whole sequences. -/

section Sequences

variable {sha3 : Sha3} {big : BigLibrary} {G : Type} {codec : PointCodec G}

/-- How chunks begin: with a pair of points that can be read again. -/
structure Begins (codec : PointCodec G)
    (computeLr : ChunkProof → Option (List Byte × List Byte))
    (start : ChunkProof → Except Fault RecursiveProof) : Prop where
  start_eq : ∀ chunk, start chunk = (orPanic (computeLr chunk)).map (.ofChunk chunk)
  readable : ∀ {chunk points}, computeLr chunk = some points →
    (∃ point, codec.decompress points.1 = some point) ∧
      ∃ point, codec.decompress points.2 = some point

variable {computeLr : ChunkProof → Option (List Byte × List Byte)}
variable {start : ChunkProof → Except Fault RecursiveProof}

theorem Begins.start_eq_ok (begins : Begins codec computeLr start) {chunk : ChunkProof}
    {leaf : RecursiveProof} :
    start chunk = .ok leaf ↔
      ∃ points, computeLr chunk = some points ∧ leaf = .ofChunk chunk points := by
  rw [begins.start_eq]
  cases computeLr chunk with
  | none => exact ⟨nofun, nofun⟩
  | some points =>
      constructor
      · intro done
        exact ⟨points, rfl, (Except.ok.inj done).symm⟩
      · rintro ⟨_, ⟨⟩, rfl⟩
        rfl

theorem Begins.foldable (begins : Begins codec computeLr start) {chunk : ChunkProof}
    {leaf : RecursiveProof} (begun : start chunk = .ok leaf) : Foldable codec leaf := by
  obtain ⟨points, computed, rfl⟩ := begins.start_eq_ok.1 begun
  obtain ⟨lRead, rRead⟩ := begins.readable computed
  exact ⟨lRead, rRead, rfl, ⟨_, rfl⟩, ⟨_, rfl⟩⟩

/-- Every chunk starts in the state that the one before it ends in. -/
def StateChain : List ChunkProof → Prop :=
  List.IsChain fun before after => before.finalStateHash = after.initialStateHash

/-- What a leaf has from its chunk alone. -/
theorem Begins.map_eq (begins : Begins codec computeLr start) {β : Type}
    {ofLeaf : RecursiveProof → β} {ofChunk : ChunkProof → β}
    (same : ∀ chunk points, ofLeaf (.ofChunk chunk points) = ofChunk chunk)
    {chunks : List ChunkProof} {leaves : List RecursiveProof}
    (begun : List.Forall₂ (fun chunk leaf => start chunk = .ok leaf) chunks leaves) :
    leaves.map ofLeaf = chunks.map ofChunk := by
  induction begun with
  | nil => rfl
  | cons head _ hypothesis =>
      obtain ⟨points, _, rfl⟩ := begins.start_eq_ok.1 head
      rw [List.map_cons, List.map_cons, hypothesis, same]

theorem Begins.linked_iff (begins : Begins codec computeLr start) {chunks : List ChunkProof}
    {leaves : List RecursiveProof}
    (begun : List.Forall₂ (fun chunk leaf => start chunk = .ok leaf) chunks leaves) :
    CarryStack.Linked RecursiveProof.initialStateHash RecursiveProof.finalStateHash leaves ↔
      StateChain chunks := by
  have hashes := @Begins.map_eq _ _ _ _ begins _
    (fun leaf => (leaf.initialStateHash, leaf.finalStateHash))
    (fun chunk => (some chunk.initialStateHash, some chunk.finalStateHash)) (fun _ _ => rfl) _ _ begun
  have chained := congrArg
    (List.IsChain fun (before after : Option Hash32 × Option Hash32) => before.2 = after.1) hashes
  rw [List.isChain_map, List.isChain_map] at chained
  rw [CarryStack.Linked, chained, StateChain]
  simp only [Option.some.injEq]

theorem Begins.exists_leaves (begins : Begins codec computeLr start) {chunks : List ChunkProof} :
    (∃ leaves, List.Forall₂ (fun chunk leaf => start chunk = .ok leaf) chunks leaves) ↔
      ∀ chunk ∈ chunks, ∃ points, computeLr chunk = some points := by
  constructor
  · rintro ⟨leaves, begun⟩
    induction begun with
    | nil => exact List.forall_mem_nil _
    | cons head _ hypothesis =>
        obtain ⟨points, computed, _⟩ := begins.start_eq_ok.1 head
        exact List.forall_mem_cons.2 ⟨⟨points, computed⟩, hypothesis⟩
  · intro readable
    induction chunks with
    | nil => exact ⟨[], .nil⟩
    | cons chunk chunks hypothesis =>
        obtain ⟨⟨points, computed⟩, others⟩ := List.forall_mem_cons.1 readable
        obtain ⟨leaves, begun⟩ := hypothesis others
        exact ⟨_, .cons (begins.start_eq_ok.2 ⟨points, computed, rfl⟩) begun⟩

variable [AddCommGroup G] {factor : List Byte → ℕ}

/-- A fold that reads its points comes to an end exactly for a chain of states
whose chunks can be read. -/
theorem treeFoldBy_ok_iff (begins : Begins codec computeLr start) {chunks : List ChunkProof} :
    (∃ proof, treeFoldBy start (mergePoints sha3 big codec factor) chunks = .ok proof) ↔
      chunks ≠ [] ∧ StateChain chunks ∧
        ∀ chunk ∈ chunks, ∃ points, computeLr chunk = some points := by
  cases chunks with
  | nil =>
      constructor
      · rintro ⟨proof, done⟩
        cases done
      · rintro ⟨some, _⟩
        exact absurd rfl some
  | cons chunk chunks =>
      rw [and_iff_right (List.cons_ne_nil chunk chunks), ← begins.exists_leaves]
      have folds := @CarryStack.fold_ok_iff _ _ _ _ _ _ _ _
        (@foldRecursiveProofsBy_joins sha3 big _ codec _ factor) start begins.foldable
        (.failed "Stack was empty after processing") _ (List.cons_ne_nil chunk chunks)
      refine folds.trans ⟨?_, ?_⟩
      · rintro ⟨leaves, begun, linked⟩
        exact ⟨(begins.linked_iff begun).1 linked, leaves, begun⟩
      · rintro ⟨chained, leaves, begun⟩
        exact ⟨leaves, begun, (begins.linked_iff begun).2 chained⟩

/-- The result of a fold: the chunks in their order are the leaves of a tree, and
each side of the accumulator is the sum of the sides of the leaves, weighted by the
challenges on the way to them. -/
structure FoldsTo (codec : PointCodec G)
    (start : ChunkProof → Except Fault RecursiveProof)
    (merge : RecursiveProof → RecursiveProof → Except Fault RecursiveProof)
    (challenge : RecursiveProof → RecursiveProof → ℕ) (chunks : List ChunkProof)
    (proof : RecursiveProof) : Prop where
  depth : proof.depth = BitVec.ofNat 64 chunks.length
  numFolded : proof.accumulator.numFolded = BitVec.ofNat 64 chunks.length
  initial : proof.initialStateHash = chunks.head?.map ChunkProof.initialStateHash
  final : proof.finalStateHash = chunks.getLast?.map ChunkProof.finalStateHash
  accumulator : ∃ tree : CarryStack.Tree RecursiveProof,
    List.Forall₂ (fun chunk leaf => start chunk = .ok leaf) chunks tree.leaves ∧
    codec.decompress proof.accumulator.lAcc =
      some (List.zipWith (fun weight leaf => weight • pointOf codec leaf.accumulator.lAcc)
        (tree.weights (CarryStack.Tree.factor merge challenge)) tree.leaves).sum ∧
    codec.decompress proof.accumulator.rAcc =
      some (List.zipWith (fun weight leaf => weight • pointOf codec leaf.accumulator.rAcc)
        (tree.weights (CarryStack.Tree.factor merge challenge)) tree.leaves).sum

theorem treeFoldBy_foldsTo (begins : Begins codec computeLr start) {chunks : List ChunkProof}
    {proof : RecursiveProof}
    (done : treeFoldBy start (mergePoints sha3 big codec factor) chunks = .ok proof) :
    FoldsTo codec start (mergePoints sha3 big codec factor)
      (fun left right => factor (treeFoldChallenge sha3 left right)) chunks proof := by
  obtain ⟨stack, fed, drained⟩ := except_bind_eq_ok.1 done
  split at drained
  · cases drained
  obtain ⟨leaves, begun, holds⟩ := CarryStack.Holds.nil.feed fed
  obtain ⟨tree, rfl, merged⟩ := holds.drain drained
  have leavesFoldable := CarryStack.forall_good begins.foldable begun
  obtain ⟨_, foldable, initial, final⟩ :=
    tree.merged_linked foldRecursiveProofsBy_joins leavesFoldable merged
  have initials := @Begins.map_eq _ _ _ _ begins _ RecursiveProof.initialStateHash
    (fun chunk => some chunk.initialStateHash) (fun _ _ => rfl) _ _ begun
  have finals := @Begins.map_eq _ _ _ _ begins _ RecursiveProof.finalStateHash
    (fun chunk => some chunk.finalStateHash) (fun _ _ => rfl) _ _ begun
  have depths := @Begins.map_eq _ _ _ _ begins _ RecursiveProof.depth (fun _ => 1)
    (fun _ _ => rfl) _ _ begun
  have counts := @Begins.map_eq _ _ _ _ begins _ (fun leaf => leaf.accumulator.numFolded)
    (fun _ => 1) (fun _ _ => rfl) _ _ begun
  have ones : (chunks.map fun _ => (1 : BitVec 64)).sum = BitVec.ofNat 64 chunks.length := by
    rw [List.map_const', List.sum_replicate, nsmul_one]
    rfl
  obtain ⟨lPoint, lRead⟩ := foldable.lAcc
  obtain ⟨rPoint, rRead⟩ := foldable.rAcc
  constructor
  · rw [← ones, ← depths]
    exact tree.measure_merged (fun done => (depth_foldRecursiveProofsBy done).1) merged
  · rw [← ones, ← counts]
    exact tree.measure_merged (fun done => (depth_foldRecursiveProofsBy done).2) merged
  · rw [← List.head?_map, initials, List.head?_map] at initial
    obtain ⟨chunk, isFirst, same⟩ := Option.map_eq_some_iff.1 initial
    rw [← same, isFirst, Option.map_some]
  · rw [← List.getLast?_map, finals, List.getLast?_map] at final
    obtain ⟨chunk, isLast, same⟩ := Option.map_eq_some_iff.1 final
    rw [← same, isLast, Option.map_some]
  · refine ⟨tree, begun, ?_, ?_⟩
    · rw [lRead, ← pointOf_eq lRead]
      refine congrArg some (@CarryStack.Tree.measure_weights _ _ _ _ _ _ _ _ _
        foldRecursiveProofsBy_joins _ (fun leaf => pointOf codec leaf.accumulator.lAcc) ?_ _ _
        leavesFoldable merged)
      intro left right value leftGood rightGood done
      obtain ⟨_, rfl⟩ := (foldRecursiveProofsBy_eq_ok leftGood rightGood).1 done
      exact pointOf_eq (codec.decompress_compress _)
    · rw [rRead, ← pointOf_eq rRead]
      refine congrArg some (@CarryStack.Tree.measure_weights _ _ _ _ _ _ _ _ _
        foldRecursiveProofsBy_joins _ (fun leaf => pointOf codec leaf.accumulator.rAcc) ?_ _ _
        leavesFoldable merged)
      intro left right value leftGood rightGood done
      obtain ⟨_, rfl⟩ := (foldRecursiveProofsBy_eq_ok leftGood rightGood).1 done
      exact pointOf_eq (codec.decompress_compress _)

end Sequences

/-! Both ways to fold. -/

section Folds

variable (sha3 : Sha3) (big : BigLibrary) {G : Type} [AddCommGroup G] (codec : PointCodec G)
variable (generator : G)

/-- Points that are computed can be read again. -/
theorem readable_computeLr {curve : CurveType} {commitments : List (List Byte)}
    {evaluations : List (Scalar curve)} {z beta : Scalar curve} {proof : List Byte}
    {points : List Byte × List Byte}
    (computed : codec.computeLr generator commitments evaluations z beta proof = some points) :
    (∃ point, codec.decompress points.1 = some point) ∧
      ∃ point, codec.decompress points.2 = some point := by
  obtain ⟨combined, _, computed⟩ := Option.bind_eq_some_iff.1 computed
  obtain ⟨pi, _, computed⟩ := Option.bind_eq_some_iff.1 computed
  obtain rfl := Option.some.inj computed
  exact ⟨⟨_, codec.decompress_compress _⟩, ⟨_, codec.decompress_compress _⟩⟩

theorem beginChunk_begins :
    Begins codec (computeLr sha3 big codec generator) (beginChunk sha3 big codec generator) where
  start_eq _ := rfl
  readable computed := by
    obtain ⟨evals, _, computed⟩ := Option.bind_eq_some_iff.1 computed
    exact readable_computeLr codec generator computed

theorem beginChunkScheme_begins (curve : CurveType) :
    Begins codec (computeLrScheme sha3 (kzgScheme curve codec generator))
      (beginChunkScheme sha3 (kzgScheme curve codec generator)) where
  start_eq _ := rfl
  readable computed := readable_computeLr codec generator computed

/-- Both folds end exactly for chunks that can be read and form a chain of
states, and then have every chunk once, in order. -/
theorem tree_fold_eq_chunk_sequence (curve : CurveType) (chunks : List ChunkProof) :
    ((∃ proof, treeFold sha3 big codec generator chunks = .ok proof) ↔
      chunks ≠ [] ∧ StateChain chunks ∧
        ∀ chunk ∈ chunks, ∃ points, computeLr sha3 big codec generator chunk = some points) ∧
    (∀ proof, treeFold sha3 big codec generator chunks = .ok proof →
      FoldsTo codec (beginChunk sha3 big codec generator) (foldRecursiveProofs sha3 big codec)
        (fun left right => fromLittleEndian (treeFoldChallenge sha3 left right)) chunks proof) ∧
    ((∃ proof, treeFoldWithProgressScheme sha3 big
        (kzgScheme curve codec generator) chunks = .ok proof) ↔
      chunks ≠ [] ∧ StateChain chunks ∧
        ∀ chunk ∈ chunks, ∃ points, computeLrScheme sha3
          (kzgScheme curve codec generator) chunk = some points) ∧
    ∀ proof, treeFoldWithProgressScheme sha3 big
        (kzgScheme curve codec generator) chunks = .ok proof →
      FoldsTo codec (beginChunkScheme sha3 (kzgScheme curve codec generator))
        (foldRecursiveProofsScheme sha3 big (kzgScheme curve codec generator))
        (fun left right =>
          (Scalar.fromChallengeBytes curve (treeFoldChallenge sha3 left right)).val)
        chunks proof := by
  have legacy := beginChunk_begins sha3 big codec generator
  have generic := beginChunkScheme_begins sha3 codec generator curve
  exact ⟨treeFoldBy_ok_iff legacy, fun _ => treeFoldBy_foldsTo legacy,
    treeFoldBy_ok_iff generic, fun _ => treeFoldBy_foldsTo generic⟩

end Folds

/-- The points of a group that has only the point at infinity, as BLS12-381
writes it. Shorter strings are refused. -/
def infinityCodec : PointCodec PUnit where
  compress _ := 0xc0 :: List.replicate 47 0
  decompress bytes := if bytes.length < 48 then none else some ()
  decompress_compress _ := rfl

/-- A chunk whose opening proof is empty is a chain of states by itself, and is
not folded. -/
theorem tree_fold_unreadable_chunk :
    StateChain [.ofOracleData []] ∧
      ¬ (∃ proof, treeFold (fun _ => ⟨List.replicate 32 0, rfl⟩) ⟨bls12381Order, fun _ => none⟩
        infinityCodec () [.ofOracleData []] = .ok proof) ∧
      ¬ ∃ proof, treeFoldWithProgressScheme (fun _ => ⟨List.replicate 32 0, rfl⟩)
        ⟨bls12381Order, fun _ => none⟩ (kzgScheme .bls12381 infinityCodec ())
        [.ofOracleData []] = .ok proof := by
  refine ⟨.singleton _, ?_, ?_⟩
  · rintro ⟨proof, done⟩
    cases done
  · rintro ⟨proof, done⟩
    cases done

end MetaVm.Zkp
