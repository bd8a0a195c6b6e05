import MetaVm.Zkp.Transcript

namespace MetaVm.Zkp

open Framing

/-! Histories of a transcript: what is appended to it and drawn from it, in order. -/

inductive Operation
  | append (label message : List Byte)
  | challenge (label : List Byte)
  | challengeBytes (label : List Byte)
deriving DecidableEq, Repr

namespace Operation

/-- The lengths fit their four bytes. -/
def Short : Operation → Prop
  | append label message => label.length < 256 ^ 4 ∧ message.length < 256 ^ 4
  | challenge label => label.length < 256 ^ 4
  | challengeBytes label => label.length < 256 ^ 4

end Operation

namespace Transcript

variable (sha3 : Sha3)

def step (transcript : Transcript) : Operation → Transcript
  | .append label message => transcript.appendMessage label message
  | .challenge label => (transcript.challenge sha3 label).2
  | .challengeBytes label => (transcript.challengeBytes sha3 label).2

def run (transcript : Transcript) (operations : List Operation) : Transcript :=
  operations.foldl (step sha3) transcript

/-- The string that a challenge hashes. -/
def fork (transcript : Transcript) (label : List Byte) : List Byte :=
  (transcript.update (ascii "challenge" ++ framed label)).absorbed

def forkBytes (transcript : Transcript) (label : List Byte) : List Byte :=
  (transcript.update (ascii "challenge-bytes" ++ framed label)).absorbed

/-- The strings that an operation hashes. -/
def drawn (transcript : Transcript) : Operation → List (List Byte)
  | .append _ _ => []
  | .challenge label => [transcript.fork label]
  | .challengeBytes label => [transcript.forkBytes label]

/-- The strings that are hashed on the way. -/
def hashed (transcript : Transcript) : List Operation → List (List Byte)
  | [] => []
  | operation :: later =>
      transcript.drawn operation ++ hashed (transcript.step sha3 operation) later

end Transcript

/-! What a transcript takes in, item by item. -/

inductive Item
  | appended (message : Message)
  | output (hash : Hash32)
  | bytesOutput (hash : Hash32)

namespace Item

def encode : Item → List Byte
  | .appended message => message.encode
  | .output hash => ascii "challenge-output" ++ hash.1
  | .bytesOutput hash => ascii "challenge-bytes-output" ++ hash.1

def Short : Item → Prop
  | .appended message => message.Short
  | .output _ => True
  | .bytesOutput _ => True

/-- Strings with different tags in front are different. -/
theorem ne_of_tags {tag tag' rest rest' : List Byte} (apart : ¬tag <+: tag')
    (apart' : ¬tag' <+: tag) : tag ++ rest ≠ tag' ++ rest' := by
  intro same
  have first : tag <+: tag ++ rest := List.prefix_append tag rest
  have second : tag' <+: tag ++ rest := same ▸ List.prefix_append tag' rest'
  rcases List.prefix_or_prefix_of_prefix first second with below | above
  · exact apart below
  · exact apart' above

/-- A hash after its tag can be told from what follows. -/
theorem hash_prefixFree {tag rest rest' : List Byte} {hash hash' : Hash32}
    (same : tag ++ hash.1 ++ rest = tag ++ hash'.1 ++ rest') : hash = hash' ∧ rest = rest' := by
  rw [List.append_assoc, List.append_assoc] at same
  obtain ⟨hashEq, restEq⟩ :=
    List.append_inj (List.append_cancel_left same) (hash.2.trans hash'.2.symm)
  exact ⟨Subtype.ext hashEq, restEq⟩

theorem message_ne_output (message : Message) (hash : Hash32) (rest rest' : List Byte) :
    message.encode ++ rest ≠ ascii "challenge-output" ++ hash.1 ++ rest' := by
  rw [Message.encode, List.append_assoc, List.append_assoc (ascii "challenge-output")]
  exact ne_of_tags (by decide) (by decide)

theorem message_ne_bytesOutput (message : Message) (hash : Hash32) (rest rest' : List Byte) :
    message.encode ++ rest ≠ ascii "challenge-bytes-output" ++ hash.1 ++ rest' := by
  rw [Message.encode, List.append_assoc, List.append_assoc (ascii "challenge-bytes-output")]
  exact ne_of_tags (by decide) (by decide)

theorem output_ne_bytesOutput (hash hash' : Hash32) (rest rest' : List Byte) :
    ascii "challenge-output" ++ hash.1 ++ rest ≠
      ascii "challenge-bytes-output" ++ hash'.1 ++ rest' := by
  rw [List.append_assoc, List.append_assoc (ascii "challenge-bytes-output")]
  exact ne_of_tags (by decide) (by decide)

theorem prefixFree_encode : PrefixFree Short encode := by
  intro first second rest rest' firstShort secondShort same
  cases first with
  | appended message =>
      cases second with
      | appended other =>
          obtain ⟨rfl, restEq⟩ :=
            Message.prefixFree_encode message other rest rest' firstShort secondShort same
          exact ⟨rfl, restEq⟩
      | output hash => exact absurd same (message_ne_output message hash rest rest')
      | bytesOutput hash => exact absurd same (message_ne_bytesOutput message hash rest rest')
  | output hash =>
      cases second with
      | appended other => exact absurd same.symm (message_ne_output other hash rest' rest)
      | output other =>
          rw [encode, encode] at same
          obtain ⟨rfl, restEq⟩ := hash_prefixFree same
          exact ⟨rfl, restEq⟩
      | bytesOutput other => exact absurd same (output_ne_bytesOutput hash other rest rest')
  | bytesOutput hash =>
      cases second with
      | appended other => exact absurd same.symm (message_ne_bytesOutput other hash rest' rest)
      | output other => exact absurd same.symm (output_ne_bytesOutput other hash rest' rest)
      | bytesOutput other =>
          rw [encode, encode] at same
          obtain ⟨rfl, restEq⟩ := hash_prefixFree same
          exact ⟨rfl, restEq⟩

theorem encode_ne_nil (item : Item) : item.encode ≠ [] := by
  cases item with
  | appended message => exact Message.encode_ne_nil message
  | output hash => exact List.cons_ne_nil _ _
  | bytesOutput hash => exact List.cons_ne_nil _ _

end Item

namespace Transcript

variable (sha3 : Sha3)

def item (transcript : Transcript) : Operation → Item
  | .append label message => .appended (label, message)
  | .challenge label => .output (sha3 (transcript.fork label))
  | .challengeBytes label => .bytesOutput (sha3 (transcript.forkBytes label))

def items (transcript : Transcript) : List Operation → List Item
  | [] => []
  | operation :: later =>
      transcript.item sha3 operation :: items (transcript.step sha3 operation) later

theorem step_eq (transcript : Transcript) (operation : Operation) :
    transcript.step sha3 operation =
      transcript.update (transcript.item sha3 operation).encode := by
  cases operation with
  | append label message =>
      rw [step, appendMessage, item, Item.encode, Message.encode, List.append_assoc]
  | challenge label => rfl
  | challengeBytes label => rfl

theorem absorbed_run (transcript : Transcript) (operations : List Operation) :
    (transcript.run sha3 operations).absorbed =
      transcript.absorbed ++ (transcript.items sha3 operations).flatMap Item.encode := by
  induction operations generalizing transcript with
  | nil => rw [items, List.flatMap_nil, List.append_nil]; rfl
  | cons operation later hypothesis =>
      rw [items, List.flatMap_cons, ← List.append_assoc]
      refine (hypothesis (transcript.step sha3 operation)).trans ?_
      rw [step_eq, update]

theorem short_items (transcript : Transcript) {operations : List Operation}
    (short : ∀ operation ∈ operations, operation.Short) :
    ∀ item ∈ transcript.items sha3 operations, item.Short := by
  induction operations generalizing transcript with
  | nil => exact fun item found => absurd found List.not_mem_nil
  | cons operation later hypothesis =>
      rw [List.forall_mem_cons] at short
      rw [items, List.forall_mem_cons]
      refine ⟨?_, hypothesis _ short.2⟩
      cases operation with
      | append label message => exact short.1
      | challenge label => trivial
      | challengeBytes label => trivial

theorem prefixFree_framed :
    PrefixFree (fun bytes : List Byte => bytes.length < 256 ^ 4) framed :=
  prefixFree_littleEndian 4

/-- A label in a fork is told by the string that is hashed. -/
theorem label_of_fork {transcript : Transcript} {tag label label' : List Byte}
    (short : label.length < 256 ^ 4) (short' : label'.length < 256 ^ 4)
    (same : (transcript.update (tag ++ framed label)).absorbed =
      (transcript.update (tag ++ framed label')).absorbed) : label = label' := by
  rw [update, update] at same
  have frames := List.append_cancel_left (List.append_cancel_left same)
  have whole : framed label ++ [] = framed label' ++ [] := congrArg (· ++ []) frames
  exact (prefixFree_framed label label' [] [] short short' whole).1

/-- An operation is told by its item as long as the strings that are hashed do not
collide. -/
theorem operation_of_item {transcript : Transcript} {operation operation' : Operation}
    (short : operation.Short) (short' : operation'.Short)
    (collisionFree : ∀ x ∈ transcript.drawn operation, ∀ y ∈ transcript.drawn operation',
      sha3 x = sha3 y → x = y)
    (same : transcript.item sha3 operation = transcript.item sha3 operation') :
    operation = operation' := by
  cases operation with
  | append label message =>
      cases operation' with
      | append label' message' =>
          cases same
          rfl
      | challenge label' => cases same
      | challengeBytes label' => cases same
  | challenge label =>
      cases operation' with
      | append label' message' => cases same
      | challenge label' =>
          have forks := collisionFree _ List.mem_cons_self _ List.mem_cons_self
            (Item.output.inj same)
          exact congrArg Operation.challenge (label_of_fork short short' forks)
      | challengeBytes label' => cases same
  | challengeBytes label =>
      cases operation' with
      | append label' message' => cases same
      | challenge label' => cases same
      | challengeBytes label' =>
          have forks := collisionFree _ List.mem_cons_self _ List.mem_cons_self
            (Item.bytesOutput.inj same)
          exact congrArg Operation.challengeBytes (label_of_fork short short' forks)

theorem operations_of_items {transcript : Transcript} {operations operations' : List Operation}
    (short : ∀ operation ∈ operations, operation.Short)
    (short' : ∀ operation ∈ operations', operation.Short)
    (collisionFree : ∀ x ∈ transcript.hashed sha3 operations,
      ∀ y ∈ transcript.hashed sha3 operations', sha3 x = sha3 y → x = y)
    (same : transcript.items sha3 operations = transcript.items sha3 operations') :
    operations = operations' := by
  induction operations generalizing transcript operations' with
  | nil =>
      cases operations' with
      | nil => rfl
      | cons operation' later' => cases same
  | cons operation later hypothesis =>
      cases operations' with
      | nil => cases same
      | cons operation' later' =>
          rw [items, items, List.cons.injEq] at same
          rw [List.forall_mem_cons] at short short'
          obtain rfl := operation_of_item sha3 short.1 short'.1
            (fun x first y second => collisionFree x (List.mem_append_left _ first) y
              (List.mem_append_left _ second)) same.1
          have rest := hypothesis short.2 short'.2
            (fun x first y second => collisionFree x (List.mem_append_right _ first) y
              (List.mem_append_right _ second)) same.2
          rw [rest]

end Transcript

/-! Two histories. -/

/-- The domain label of a transcript and the operations on it. -/
structure History where
  label : List Byte
  operations : List Operation
deriving DecidableEq, Repr

namespace History

variable (sha3 : Sha3)

def Short (history : History) : Prop :=
  history.label.length < 256 ^ 4 ∧ ∀ operation ∈ history.operations, operation.Short

def state (history : History) : Transcript :=
  (Transcript.new history.label).run sha3 history.operations

def hashed (history : History) : List (List Byte) :=
  (Transcript.new history.label).hashed sha3 history.operations

/-- No two of the strings that the histories hash collide. -/
def CollisionFree (first second : History) : Prop :=
  ∀ x ∈ first.hashed sha3, ∀ y ∈ second.hashed sha3, sha3 x = sha3 y → x = y

theorem eq_of_absorbed {first second : History} (firstShort : first.Short)
    (secondShort : second.Short) (collisionFree : CollisionFree sha3 first second)
    (same : (first.state sha3).absorbed = (second.state sha3).absorbed) : first = second := by
  obtain ⟨label, operations⟩ := first
  obtain ⟨label', operations'⟩ := second
  rw [state, state, Transcript.absorbed_run, Transcript.absorbed_run] at same
  simp only [Transcript.new, List.append_assoc] at same
  obtain ⟨rfl, items⟩ := Transcript.prefixFree_framed label label' _ _ firstShort.1
    secondShort.1 (List.append_cancel_left same)
  have itemsEq := Item.prefixFree_encode.flatMap_injective Item.encode_ne_nil
    (Transcript.short_items sha3 _ firstShort.2) (Transcript.short_items sha3 _ secondShort.2) items
  exact congrArg (History.mk label)
    (Transcript.operations_of_items sha3 firstShort.2 secondShort.2 collisionFree itemsEq)

/-- Different histories leave different strings in the hasher. The next challenge then
hashes different strings, and unless these two collide its hashes differ too. -/
theorem absorbed_ne (first second : History) (firstShort : first.Short)
    (secondShort : second.Short) (differ : first ≠ second)
    (collisionFree : CollisionFree sha3 first second) :
    (first.state sha3).absorbed ≠ (second.state sha3).absorbed ∧
      ∀ next, (first.state sha3).fork next ≠ (second.state sha3).fork next ∧
        ((sha3 ((first.state sha3).fork next) = sha3 ((second.state sha3).fork next) →
            (first.state sha3).fork next = (second.state sha3).fork next) →
          sha3 ((first.state sha3).fork next) ≠ sha3 ((second.state sha3).fork next)) := by
  have apart : (first.state sha3).absorbed ≠ (second.state sha3).absorbed :=
    fun same => differ (eq_of_absorbed sha3 firstShort secondShort collisionFree same)
  refine ⟨apart, fun next => ?_⟩
  have forks : (first.state sha3).fork next ≠ (second.state sha3).fork next :=
    fun same => apart (List.append_cancel_right same)
  exact ⟨forks, fun next collides => forks (next collides)⟩

/-- A hash that gives the number of bytes. -/
def lengthHash : Sha3 := fun bytes => ⟨littleEndian 32 bytes.length, length_littleEndian 32 _⟩

theorem absorbed_ne_challengeLabels :
    (state lengthHash ⟨[], [.challenge [], .append [1] [2]]⟩).absorbed ≠
        (state lengthHash ⟨[], [.challenge [7], .append [1] [2]]⟩).absorbed ∧
      (state lengthHash ⟨[], [.challenge [], .append [1] [2]]⟩).fork [] ≠
        (state lengthHash ⟨[], [.challenge [7], .append [1] [2]]⟩).fork [] :=
  have apart := absorbed_ne lengthHash ⟨[], [.challenge [], .append [1] [2]]⟩
    ⟨[], [.challenge [7], .append [1] [2]]⟩
    ⟨by decide, by simp [Operation.Short]⟩ ⟨by decide, by simp [Operation.Short]⟩ (by decide)
    (by
      intro x first y second collides
      obtain rfl := List.mem_singleton.1 first
      obtain rfl := List.mem_singleton.1 second
      exact absurd collides (by decide))
  ⟨apart.1, (apart.2 []).1⟩

end History

end MetaVm.Zkp
