import MetaVm.Zkp.Proof

namespace MetaVm.Zkp

open Framing

/-! The Fiat-Shamir transcript. The hash function of the library stays a
parameter; a transcript is the bytes that its hasher has taken in. -/

/-- SHA3-256. -/
abbrev Sha3 : Type := List Byte → Hash32

/-- The bytes of a text. -/
def ascii (text : String) : List Byte := text.toList.map fun char => BitVec.ofNat 8 char.toNat

/-- The order of the scalars that a transcript gives out. -/
def fieldOrder : ℕ := 2 ^ 252 + 27742317777372353535851937790883648493

structure Transcript where
  absorbed : List Byte
deriving DecidableEq, Repr

namespace Transcript

def update (transcript : Transcript) (bytes : List Byte) : Transcript :=
  ⟨transcript.absorbed ++ bytes⟩

/-- A string after its length. -/
def framed (bytes : List Byte) : List Byte := littleEndian 4 bytes.length ++ bytes

def new (label : List Byte) : Transcript := ⟨ascii "metavm-transcript" ++ framed label⟩

def appendMessage (transcript : Transcript) (label message : List Byte) : Transcript :=
  transcript.update (ascii "append" ++ framed label ++ framed message)

def appendU64 (transcript : Transcript) (label : List Byte) (value : BitVec 64) : Transcript :=
  transcript.appendMessage label (littleEndian 8 value.toNat)

section Challenges

variable (sha3 : Sha3)

/-- The canonical bytes of a challenge scalar, and the transcript after it. -/
def challenge (transcript : Transcript) (label : List Byte) : List Byte × Transcript :=
  let fork := transcript.update (ascii "challenge" ++ framed label)
  let hash := sha3 fork.absorbed
  (littleEndian 32 (fromLittleEndian hash.1 % fieldOrder),
    transcript.update (ascii "challenge-output" ++ hash.1))

def challengeBytes (transcript : Transcript) (label : List Byte) : Hash32 × Transcript :=
  let fork := transcript.update (ascii "challenge-bytes" ++ framed label)
  let hash := sha3 fork.absorbed
  (hash, transcript.update (ascii "challenge-bytes-output" ++ hash.1))

end Challenges

end Transcript

/-! The same as steps on a transcript, with labels as texts. -/

abbrev Absorbing : Type → Type := StateM Transcript

namespace Absorbing

def message (label : String) (bytes : List Byte) : Absorbing Unit :=
  modify fun transcript => transcript.appendMessage (ascii label) bytes

def messages (label : String) (all : List (List Byte)) : Absorbing Unit :=
  all.forM (message label)

def optional (label : String) (bytes : Option (List Byte)) : Absorbing Unit :=
  bytes.forM (message label)

def word (label : String) (value : BitVec 64) : Absorbing Unit :=
  modify fun transcript => transcript.appendU64 (ascii label) value

def squeeze (sha3 : Sha3) (label : String) : Absorbing Hash32 := fun transcript =>
  transcript.challengeBytes sha3 (ascii label)

end Absorbing

/-! What a transcript has taken in is a list of messages with their labels. -/

abbrev Message : Type := List Byte × List Byte

namespace Message

def encode (message : Message) : List Byte :=
  ascii "append" ++ (Transcript.framed message.1 ++ Transcript.framed message.2)

/-- The lengths of the label and of the text fit their four bytes. -/
def Short (message : Message) : Prop :=
  message.1.length < 256 ^ 4 ∧ message.2.length < 256 ^ 4

theorem prefixFree_encode : PrefixFree Short encode :=
  ((prefixFree_littleEndian 4).prod (prefixFree_littleEndian 4)).after _

theorem encode_ne_nil (message : Message) : encode message ≠ [] :=
  List.cons_ne_nil _ _

end Message

/-- A step that appends certain messages, whatever the transcript has so far. -/
def Appends (step : Absorbing Unit) (messages : List Message) : Prop :=
  ∀ transcript : Transcript, (step.run transcript).2 =
    transcript.update (messages.flatMap Message.encode)

namespace Appends

theorem message (label : String) (bytes : List Byte) :
    Appends (Absorbing.message label bytes) [(ascii label, bytes)] := by
  intro transcript
  rw [List.flatMap_singleton, Message.encode, ← List.append_assoc]
  rfl

theorem word (label : String) (value : BitVec 64) :
    Appends (Absorbing.word label value) [(ascii label, littleEndian 8 value.toNat)] :=
  message label _

theorem nothing : Appends (pure ()) [] := by
  intro transcript
  rw [Transcript.update, List.flatMap_nil, List.append_nil]
  rfl

theorem bind {first second : Absorbing Unit} {messages later : List Message}
    (firstAppends : Appends first messages) (secondAppends : Appends second later) :
    Appends (first >>= fun _ => second) (messages ++ later) := by
  intro transcript
  have both : ((first >>= fun _ => second).run transcript).2 =
      (second.run (first.run transcript).2).2 := rfl
  rw [both, secondAppends, firstAppends, List.flatMap_append, Transcript.update, Transcript.update,
    Transcript.update, List.append_assoc]

theorem forM {α : Type} {step : α → Absorbing Unit} {messages : α → List Message}
    (each : ∀ value, Appends (step value) (messages value)) (values : List α) :
    Appends (values.forM step) (values.flatMap messages) := by
  induction values with
  | nil => exact nothing
  | cons value values hypothesis =>
      rw [List.flatMap_cons]
      exact (each value).bind hypothesis

end Appends

namespace Scalar

variable (curve : CurveType)

/-- The bytes of a BLS48-581 integer. -/
def modBytes : ℕ := 73

/-- Too few bytes are the low end of the number, and bytes past its width do
not count. -/
def fromBytes (bytes : List Byte) : Scalar curve :=
  match curve with
  | .bls48581 _ => (fromBigEndian (bytes.take modBytes) : ℕ)
  | .bls12381 => (fromLittleEndian (bytes.take 32) : ℕ)

/-- The two curves read a challenge from opposite ends. -/
def fromChallengeBytes (bytes : List Byte) : Scalar curve :=
  match curve with
  | .bls48581 _ => (fromBigEndian bytes : ℕ)
  | .bls12381 => (fromLittleEndian bytes : ℕ)

end Scalar

end MetaVm.Zkp
