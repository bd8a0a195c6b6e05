import MetaVm.Zkp.Transcript
import MetaVm.Zkp.CrossAirLogup

namespace MetaVm.Zkp

open Framing

/-! The challenges that link several proofs, and what they are drawn from. -/

/-- What a linked proof shows before the challenges are drawn. -/
structure AirSummary where
  numSteps : BitVec 64
  domainSize : BitVec 64
  commitments : List Commitment
deriving DecidableEq, Repr

section Absorb

open Absorbing

def absorbAir (entry : AirSummary × ℕ) : Absorbing Unit := do
  word "air_index" (BitVec.ofNat 64 entry.2)
  word "num_steps" entry.1.numSteps
  word "domain_size" entry.1.domainSize
  entry.1.commitments.forM fun commitment => message "main_commitment" commitment.bytes

def absorbLinkage (link : CrossAirLogUpDescriptor) : Absorbing Unit := do
  message "linkage_label" link.label
  word "a_layer" link.aLayerIndex
  word "b_layer" link.bLayerIndex
  word "a_columns_len" (BitVec.ofNat 64 link.aColumns.length)
  word "b_columns_len" (BitVec.ofNat 64 link.bColumns.length)

/-- All that is absorbed before a challenge is drawn. -/
def absorbJoint (numAirs : BitVec 64) (airs : List AirSummary)
    (linkages : List CrossAirLogUpDescriptor) : Absorbing Unit := do
  word "num_airs" numAirs
  airs.zipIdx.forM absorbAir
  linkages.forM absorbLinkage

def deriveJointChallenges (sha3 : Sha3) (numAirs : BitVec 64) (airs : List AirSummary)
    (linkages : List CrossAirLogUpDescriptor) : Hash32 × Hash32 :=
  let squeezed : Absorbing (Hash32 × Hash32) := do
    absorbJoint numAirs airs linkages
    let beta ← squeeze sha3 "cross_air_beta"
    let gamma ← squeeze sha3 "cross_air_gamma"
    pure (beta, gamma)
  (squeezed.run (Transcript.new (ascii "metavm-cross-air-logup"))).1

end Absorb

/-- The bytes that the joint challenges are drawn from. -/
def jointBytes (airs : List AirSummary) (linkages : List CrossAirLogUpDescriptor) : List Byte :=
  ((absorbJoint (BitVec.ofNat 64 airs.length) airs linkages).run
    (Transcript.new (ascii "metavm-cross-air-logup"))).2.absorbed

/-! The absorbed messages. -/

def airMessages (entry : AirSummary × ℕ) : List Message :=
  [(ascii "air_index", littleEndian 8 (BitVec.ofNat 64 entry.2).toNat),
    (ascii "num_steps", littleEndian 8 entry.1.numSteps.toNat),
    (ascii "domain_size", littleEndian 8 entry.1.domainSize.toNat)] ++
  entry.1.commitments.map fun commitment => (ascii "main_commitment", commitment.bytes)

def linkageMessages (link : CrossAirLogUpDescriptor) : List Message :=
  [(ascii "linkage_label", link.label),
    (ascii "a_layer", littleEndian 8 link.aLayerIndex.toNat),
    (ascii "b_layer", littleEndian 8 link.bLayerIndex.toNat),
    (ascii "a_columns_len", littleEndian 8 (BitVec.ofNat 64 link.aColumns.length).toNat),
    (ascii "b_columns_len", littleEndian 8 (BitVec.ofNat 64 link.bColumns.length).toNat)]

def jointMessages (airs : List AirSummary) (linkages : List CrossAirLogUpDescriptor) :
    List Message :=
  (ascii "num_airs", littleEndian 8 (BitVec.ofNat 64 airs.length).toNat) ::
    (airs.zipIdx.flatMap airMessages ++ linkages.flatMap linkageMessages)

theorem absorbAir_appends (entry : AirSummary × ℕ) :
    Appends (absorbAir entry) (airMessages entry) := by
  have commitments := Appends.forM
    (fun commitment : Commitment => Appends.message "main_commitment" commitment.bytes)
    entry.1.commitments
  rw [← List.map_eq_flatMap] at commitments
  exact (Appends.word "air_index" _).bind ((Appends.word "num_steps" _).bind
    ((Appends.word "domain_size" _).bind commitments))

theorem absorbLinkage_appends (link : CrossAirLogUpDescriptor) :
    Appends (absorbLinkage link) (linkageMessages link) :=
  (Appends.message "linkage_label" _).bind ((Appends.word "a_layer" _).bind
    ((Appends.word "b_layer" _).bind ((Appends.word "a_columns_len" _).bind
      (Appends.word "b_columns_len" _))))

theorem jointBytes_eq (airs : List AirSummary) (linkages : List CrossAirLogUpDescriptor) :
    jointBytes airs linkages = (Transcript.new (ascii "metavm-cross-air-logup")).absorbed ++
      (jointMessages airs linkages).flatMap Message.encode := by
  have appended := (Appends.word "num_airs" (BitVec.ofNat 64 airs.length)).bind
    ((Appends.forM absorbAir_appends airs.zipIdx).bind
      (Appends.forM absorbLinkage_appends linkages))
    (Transcript.new (ascii "metavm-cross-air-logup"))
  exact congrArg Transcript.absorbed appended

/-! What the messages determine. -/

/-- The part of a descriptor that is absorbed: of its columns only how many there
are, and nothing of its selectors. -/
structure BoundLinkage where
  label : List Byte
  aLayerIndex : BitVec 64
  bLayerIndex : BitVec 64
  aColumnsLen : BitVec 64
  bColumnsLen : BitVec 64
deriving DecidableEq, Repr

def CrossAirLogUpDescriptor.bound (link : CrossAirLogUpDescriptor) : BoundLinkage where
  label := link.label
  aLayerIndex := link.aLayerIndex
  bLayerIndex := link.bLayerIndex
  aColumnsLen := BitVec.ofNat 64 link.aColumns.length
  bColumnsLen := BitVec.ofNat 64 link.bColumns.length

def BoundLinkage.messages (link : BoundLinkage) : List Message :=
  [(ascii "linkage_label", link.label),
    (ascii "a_layer", littleEndian 8 link.aLayerIndex.toNat),
    (ascii "b_layer", littleEndian 8 link.bLayerIndex.toNat),
    (ascii "a_columns_len", littleEndian 8 link.aColumnsLen.toNat),
    (ascii "b_columns_len", littleEndian 8 link.bColumnsLen.toNat)]

theorem littleEndian_word_inj {first second : BitVec 64}
    (same : littleEndian 8 first.toNat = littleEndian 8 second.toNat) : first = second :=
  BitVec.eq_of_toNat_eq (littleEndian_injective first.isLt second.isLt same)

theorem BoundLinkage.prefixFree_messages :
    PrefixFree (fun _ => True) BoundLinkage.messages := by
  rintro ⟨label, a, b, aLen, bLen⟩ ⟨label', a', b', aLen', bLen'⟩ rest rest' _ _ same
  obtain ⟨texts, rfl⟩ := List.append_inj same rfl
  simp only [messages, List.cons.injEq, Prod.mk.injEq, true_and, and_true] at texts
  obtain ⟨rfl, aEq, bEq, aLenEq, bLenEq⟩ := texts
  rw [littleEndian_word_inj aEq, littleEndian_word_inj bEq, littleEndian_word_inj aLenEq,
    littleEndian_word_inj bLenEq]
  exact ⟨rfl, rfl⟩

theorem linkageMessages_eq (linkages : List CrossAirLogUpDescriptor) :
    linkages.flatMap linkageMessages =
      (linkages.map CrossAirLogUpDescriptor.bound).flatMap BoundLinkage.messages := by
  rw [List.flatMap_map]
  rfl

/-- The first message, if there is one, has another label. -/
def OtherLabel (label : List Byte) (messages : List Message) : Prop :=
  ∀ message ∈ messages.head?, message.1 ≠ label

/-- A run of messages under one label ends where the label changes. -/
theorem labelled_append_inj {label : List Byte} {first second : List (List Byte)}
    {rest rest' : List Message} (other : OtherLabel label rest) (other' : OtherLabel label rest')
    (same : first.map (fun bytes => (label, bytes)) ++ rest =
      second.map (fun bytes => (label, bytes)) ++ rest') : first = second ∧ rest = rest' := by
  induction first generalizing second with
  | nil =>
      cases second with
      | nil => exact ⟨rfl, same⟩
      | cons bytes second =>
          rw [List.map_nil, List.nil_append] at same
          exact absurd rfl (other (label, bytes) (by rw [same]; rfl))
  | cons bytes first hypothesis =>
      cases second with
      | nil =>
          rw [List.map_nil, List.nil_append] at same
          exact absurd rfl (other' (label, bytes) (by rw [← same]; rfl))
      | cons bytes' second =>
          simp only [List.map_cons, List.cons_append, List.cons.injEq, Prod.mk.injEq,
            true_and] at same
          obtain ⟨rfl, others⟩ := same
          obtain ⟨rfl, rests⟩ := hypothesis others
          exact ⟨rfl, rests⟩

theorem otherLabel_linkages (links : List BoundLinkage) (label : List Byte)
    (other : ascii "linkage_label" ≠ label) :
    OtherLabel label (links.flatMap BoundLinkage.messages) := by
  intro message isFirst
  cases links with
  | nil => cases isFirst
  | cons link links =>
      obtain rfl := Option.some.inj isFirst
      exact other

theorem otherLabel_airs (airs : List AirSummary) (start : ℕ) {rest : List Message}
    (other : OtherLabel (ascii "main_commitment") rest) :
    OtherLabel (ascii "main_commitment") ((airs.zipIdx start).flatMap airMessages ++ rest) := by
  cases airs with
  | nil => exact other
  | cons air airs =>
      intro message isFirst
      obtain rfl := Option.some.inj isFirst
      exact (by decide : ascii "air_index" ≠ ascii "main_commitment")

/-- The proofs can be told from their messages, and from where their messages end. -/
theorem airMessages_append_inj {airs airs' : List AirSummary} {start : ℕ}
    {links links' : List BoundLinkage}
    (same : (airs.zipIdx start).flatMap airMessages ++ links.flatMap BoundLinkage.messages =
      (airs'.zipIdx start).flatMap airMessages ++ links'.flatMap BoundLinkage.messages) :
    airs = airs' ∧ links = links' := by
  have notIndex := fun links => otherLabel_linkages links (ascii "air_index") (by decide)
  have notCommitment := fun links => otherLabel_linkages links (ascii "main_commitment") (by decide)
  induction airs generalizing airs' start with
  | nil =>
      cases airs' with
      | nil =>
          refine ⟨rfl, BoundLinkage.prefixFree_messages.flatMap_injective ?_ ?_ ?_ same⟩
          · exact fun _ => List.cons_ne_nil _ _
          · exact fun _ _ => trivial
          · exact fun _ _ => trivial
      | cons air airs' =>
          rw [List.zipIdx_nil, List.flatMap_nil, List.nil_append] at same
          exact absurd rfl (notIndex links (ascii "air_index", _) (by rw [same]; rfl))
  | cons air airs hypothesis =>
      cases airs' with
      | nil =>
          rw [List.zipIdx_nil, List.flatMap_nil, List.nil_append] at same
          exact absurd rfl (notIndex links' (ascii "air_index", _) (by rw [← same]; rfl))
      | cons air' airs' =>
          obtain ⟨steps, size, commitments⟩ := air
          obtain ⟨steps', size', commitments'⟩ := air'
          simp only [List.zipIdx_cons, List.flatMap_cons, airMessages, List.cons_append,
            List.nil_append, List.append_assoc, List.cons.injEq, Prod.mk.injEq, true_and] at same
          obtain ⟨stepsEq, sizeEq, same⟩ := same
          have runs := @labelled_append_inj (ascii "main_commitment")
            (commitments.map Commitment.bytes) (commitments'.map Commitment.bytes) _ _
            (otherLabel_airs airs (start + 1) (notCommitment links))
            (otherLabel_airs airs' (start + 1) (notCommitment links'))
            (by rw [List.map_map, List.map_map]; exact same)
          obtain ⟨rfl, rfl⟩ := hypothesis runs.2
          have commitmentsEq := List.map_injective_iff.2
            (fun a b bytes => by cases a; cases b; exact congrArg Commitment.mk bytes) runs.1
          rw [littleEndian_word_inj stepsEq, littleEndian_word_inj sizeEq, commitmentsEq]
          exact ⟨rfl, rfl⟩

/-! The main result. -/

/-- Labels and commitments that four bytes can hold the length of. -/
def ShortStatement (airs : List AirSummary) (linkages : List CrossAirLogUpDescriptor) : Prop :=
  (∀ air ∈ airs, ∀ commitment ∈ air.commitments, commitment.bytes.length < 2 ^ 32) ∧
    ∀ link ∈ linkages, link.label.length < 2 ^ 32

theorem ShortStatement.messages {airs : List AirSummary}
    {linkages : List CrossAirLogUpDescriptor} (short : ShortStatement airs linkages) :
    ∀ message ∈ jointMessages airs linkages, message.Short := by
  have word : ∀ {label : List Byte} (value : BitVec 64), label.length < 256 ^ 4 →
      Message.Short (label, littleEndian 8 value.toNat) := fun value labelShort =>
    ⟨labelShort, (length_littleEndian 8 value.toNat).trans_lt (by decide)⟩
  have airShort : ∀ entry ∈ airs.zipIdx, ∀ message ∈ airMessages entry, message.Short := by
    intro entry entryIn message messageIn
    rcases List.mem_append.1 messageIn with fixed | run
    · simp only [List.mem_cons, List.not_mem_nil, or_false] at fixed
      rcases fixed with rfl | rfl | rfl <;> exact word _ (by decide)
    · obtain ⟨commitment, commitmentIn, rfl⟩ := List.mem_map.1 run
      exact ⟨(by decide : (ascii "main_commitment").length < 256 ^ 4),
        short.1 _ (List.fst_mem_of_mem_zipIdx entryIn) commitment commitmentIn⟩
  have linkageShort : ∀ link ∈ linkages, ∀ message ∈ linkageMessages link, message.Short := by
    intro link linkIn message messageIn
    simp only [linkageMessages, List.mem_cons, List.not_mem_nil, or_false] at messageIn
    rcases messageIn with rfl | rfl | rfl | rfl | rfl
    · exact ⟨(by decide : (ascii "linkage_label").length < 256 ^ 4), short.2 link linkIn⟩
    all_goals exact word _ (by decide)
  intro message messageIn
  rcases List.mem_cons.1 messageIn with rfl | messageIn
  · exact word _ (by decide)
  rcases List.mem_append.1 messageIn with inAirs | inLinkages
  · obtain ⟨entry, entryIn, messageIn⟩ := List.mem_flatMap.1 inAirs
    exact airShort entry entryIn message messageIn
  · obtain ⟨link, linkIn, messageIn⟩ := List.mem_flatMap.1 inLinkages
    exact linkageShort link linkIn message messageIn

/-- What is not absorbed does not change the bytes. -/
theorem jointBytes_congr {airs : List AirSummary} {linkages linkages' : List CrossAirLogUpDescriptor}
    (bound : linkages.map CrossAirLogUpDescriptor.bound =
      linkages'.map CrossAirLogUpDescriptor.bound) :
    jointBytes airs linkages = jointBytes airs linkages' := by
  rw [jointBytes_eq, jointBytes_eq, jointMessages, jointMessages, linkageMessages_eq,
    linkageMessages_eq, bound]

/-- What is absorbed can be told from the bytes. -/
theorem jointBytes_inj {airs airs' : List AirSummary}
    {linkages linkages' : List CrossAirLogUpDescriptor} (short : ShortStatement airs linkages)
    (short' : ShortStatement airs' linkages')
    (same : jointBytes airs linkages = jointBytes airs' linkages') :
    airs = airs' ∧ linkages.map CrossAirLogUpDescriptor.bound =
      linkages'.map CrossAirLogUpDescriptor.bound := by
  rw [jointBytes_eq, jointBytes_eq, List.append_cancel_left_eq] at same
  have messages := Message.prefixFree_encode.flatMap_injective Message.encode_ne_nil
    short.messages short'.messages same
  rw [jointMessages, jointMessages, List.cons.injEq, linkageMessages_eq,
    linkageMessages_eq] at messages
  exact airMessages_append_inj messages.2

/-- Statements that differ only in the columns or selectors of their descriptors
are never told apart, and all others are when their strings are short. -/
theorem joint_challenges_bind (airs airs' : List AirSummary)
    (linkages linkages' : List CrossAirLogUpDescriptor) :
    (airs = airs' → linkages.map CrossAirLogUpDescriptor.bound =
        linkages'.map CrossAirLogUpDescriptor.bound →
      jointBytes airs linkages = jointBytes airs' linkages') ∧
    (ShortStatement airs linkages → ShortStatement airs' linkages' →
      (((airs, linkages) ≠ (airs', linkages') →
          jointBytes airs linkages ≠ jointBytes airs' linkages') ↔
        ((airs, linkages) = (airs', linkages') ∨ airs ≠ airs' ∨
          linkages.map CrossAirLogUpDescriptor.bound ≠
            linkages'.map CrossAirLogUpDescriptor.bound))) := by
  constructor
  · rintro rfl bound
    exact jointBytes_congr bound
  · intro short short'
    constructor
    · intro binds
      by_contra unbound
      simp only [not_or, ne_eq, Decidable.not_not] at unbound
      obtain ⟨differ, rfl, bound⟩ := unbound
      exact binds differ (jointBytes_congr bound)
    · rintro (equal | airsDiffer | boundDiffers) differ same
      · exact differ equal
      · exact airsDiffer (jointBytes_inj short short' same).1
      · exact boundDiffers (jointBytes_inj short short' same).2

/-- A lookup of one column in another. -/
def singleColumn (label : String) (aColumn bColumn : BitVec 64) : CrossAirLogUpDescriptor where
  label := ascii label
  aLayerIndex := 0
  aColumns := [aColumn]
  aSelectorColumn := none
  bLayerIndex := 1
  bColumns := [bColumn]
  bSelectorColumn := none

theorem shortStatement_singleColumn {label : String} (short : (ascii label).length < 2 ^ 32)
    (aColumn bColumn : BitVec 64) : ShortStatement [] [singleColumn label aColumn bColumn] := by
  refine ⟨List.forall_mem_nil _, fun link linkIn => ?_⟩
  rw [List.mem_singleton.1 linkIn]
  exact short

theorem joint_challenges_bind_labels :
    jointBytes [] [singleColumn "ssz_sha256_pair_v1" 0 0] ≠
      jointBytes [] [singleColumn "ssz_sha256_pair_v2" 0 0] :=
  ((joint_challenges_bind [] [] _ _).2 (shortStatement_singleColumn (by decide) 0 0)
    (shortStatement_singleColumn (by decide) 0 0)).2 (.inr (.inr (by decide))) (by decide)

/-- Another column is looked up, and the same bytes are absorbed. -/
theorem jointBytes_singleColumn :
    singleColumn "ssz_sha256_pair_v1" 0 0 ≠ singleColumn "ssz_sha256_pair_v1" 1 0 ∧
      jointBytes [] [singleColumn "ssz_sha256_pair_v1" 0 0] =
        jointBytes [] [singleColumn "ssz_sha256_pair_v1" 1 0] :=
  ⟨by decide, jointBytes_congr rfl⟩

end MetaVm.Zkp
