import MetaVm.Lib.Framing
import MetaVm.Zkp.Lookup

namespace MetaVm.Zkp

open Framing

/-! The serialization of nested lists of strings. -/

inductive RlpItem
  | bytes (string : List Byte)
  | list (items : List RlpItem)

inductive RlpError
  | unexpectedEof
  | nonCanonical
  | lengthOverflow
deriving DecidableEq, Repr

/-- How decoding ends without an item. -/
inductive RlpFailure
  | panic
  | error (fault : RlpError)
deriving DecidableEq, Repr

section Encoding

/-- The bytes of a number, without leading zeros. -/
def minimalBe (n : BitVec 64) : List Byte :=
  if n = 0 then []
  else
    let full := bigEndian 8 n.toNat
    full.drop (full.findIdx fun byte => byte ≠ 0)

def rlpEncodeBytes (b : List Byte) : List Byte :=
  if b.length = 1 ∧ b.headD 0 < 0x80 then [b.headD 0]
  else if b.length ≤ 55 then (0x80 + BitVec.ofNat 8 b.length) :: b
  else
    let lenBe := minimalBe (BitVec.ofNat 64 b.length)
    (0xB7 + BitVec.ofNat 8 lenBe.length) :: (lenBe ++ b)

/-- A list of items that are encoded already. -/
def rlpEncodeList (items : List (List Byte)) : List Byte :=
  let payloadLen := (items.map List.length).sum
  let header :=
    if payloadLen ≤ 55 then [0xC0 + BitVec.ofNat 8 payloadLen]
    else
      let lenBe := minimalBe (BitVec.ofNat 64 payloadLen)
      (0xF7 + BitVec.ofNat 8 lenBe.length) :: lenBe
  header ++ items.flatten

mutual

def RlpItem.encode : RlpItem → List Byte
  | .bytes string => rlpEncodeBytes string
  | .list items => rlpEncodeList (encodeItems items)

def RlpItem.encodeItems : List RlpItem → List (List Byte)
  | [] => []
  | item :: items => item.encode :: encodeItems items

end

end Encoding

section Decoding

/-- What is taken off the head of an input. -/
structure Decoded where
  item : RlpItem
  consumed : ℕ
  positive : 0 < consumed

/-- The first byte must not be zero, and the number has to fit a machine word. -/
def decodeBeLength (bytes : List Byte) : Except RlpFailure ℕ :=
  if bytes.isEmpty then .error (.error .nonCanonical)
  else if bytes.headD 0 = 0 then .error (.error .nonCanonical)
  else if 8 < bytes.length then .error (.error .lengthOverflow)
  else
    .ok (bytes.foldl (fun (len : BitVec 64) b => len <<< 8 ||| b.setWidth 64) 0).toNat

/-- The length behind a tag, in `lenOfLen` bytes. -/
def longLength (input : List Byte) (lenOfLen : ℕ) : Except RlpFailure ℕ :=
  if input.length < 1 + lenOfLen then .error (.error .unexpectedEof)
  else
    match decodeBeLength ((input.drop 1).take lenOfLen) with
    | .error fault => .error fault
    | .ok len => if len ≤ 55 then .error (.error .nonCanonical) else .ok len

/-- The `len` bytes behind a header. The end of the slice is a machine word. -/
def bodyOf (input : List Byte) (header len : ℕ) : Except RlpFailure (List Byte) :=
  if 2 ^ 64 ≤ header + len then .error .panic
  else if input.length < header + len then .error (.error .unexpectedEof)
  else .ok ((input.drop header).take len)

theorem bodyOf_eq_ok {input body : List Byte} {header len : ℕ} :
    bodyOf input header len = .ok body ↔ header + len < 2 ^ 64 ∧ body.length = len ∧
      ∃ front rest, front.length = header ∧ input = front ++ body ++ rest := by
  unfold bodyOf
  constructor
  · intro taken
    split at taken
    · cases taken
    split at taken
    · cases taken
    rename_i small inside
    obtain rfl := Except.ok.inj taken
    refine ⟨by omega, ?_, input.take header, (input.drop header).drop len, ?_, ?_⟩
    · rw [List.length_take, List.length_drop]
      omega
    · rw [List.length_take]
      omega
    · rw [List.append_assoc, List.take_append_drop, List.take_append_drop]
  · rintro ⟨small, rfl, front, rest, rfl, rfl⟩
    have inside : ¬ (front ++ body ++ rest).length < front.length + body.length := by
      simp only [List.length_append]
      omega
    rw [if_neg (by omega), if_neg inside, List.append_assoc, List.drop_left, List.take_left]

mutual

/-- One item, from the head of the input. -/
def rlpDecode (input : List Byte) : Except RlpFailure Decoded :=
  match input with
  | [] => .error (.error .unexpectedEof)
  | tag :: rest =>
      if tag ≤ 0x7F then .ok ⟨.bytes [tag], 1, Nat.one_pos⟩
      else if tag ≤ 0xB7 then
        let len := (tag - 0x80).toNat
        match bodyOf (tag :: rest) 1 len with
        | .error fault => .error fault
        | .ok body =>
            if len = 1 ∧ body.headD 0 < 0x80 then .error (.error .nonCanonical)
            else .ok ⟨.bytes body, 1 + len, by omega⟩
      else if tag ≤ 0xBF then
        let lenOfLen := (tag - 0xB7).toNat
        match longLength (tag :: rest) lenOfLen with
        | .error fault => .error fault
        | .ok len =>
            match bodyOf (tag :: rest) (1 + lenOfLen) len with
            | .error fault => .error fault
            | .ok body => .ok ⟨.bytes body, 1 + lenOfLen + len, by omega⟩
      else if tag ≤ 0xF7 then
        let len := (tag - 0xC0).toNat
        match taken : bodyOf (tag :: rest) 1 len with
        | .error fault => .error fault
        | .ok payload =>
            match decodeListPayload payload with
            | .error fault => .error fault
            | .ok items => .ok ⟨.list items, 1 + len, by omega⟩
      else
        let lenOfLen := (tag - 0xF7).toNat
        match longLength (tag :: rest) lenOfLen with
        | .error fault => .error fault
        | .ok len =>
            match taken : bodyOf (tag :: rest) (1 + lenOfLen) len with
            | .error fault => .error fault
            | .ok payload =>
                match decodeListPayload payload with
                | .error fault => .error fault
                | .ok items => .ok ⟨.list items, 1 + lenOfLen + len, by omega⟩
termination_by (input.length, 0)
decreasing_by
  all_goals
    obtain ⟨-, -, front, behind, header, same⟩ := bodyOf_eq_ok.1 taken
    have length := congrArg List.length same
    simp only [List.length_append] at length
    exact Prod.Lex.left _ _ (by omega)

/-- Items until the payload is used up. -/
def decodeListPayload (payload : List Byte) : Except RlpFailure (List RlpItem) :=
  match payload with
  | [] => .ok []
  | byte :: bytes =>
      match rlpDecode (byte :: bytes) with
      | .error fault => .error fault
      | .ok first =>
          match decodeListPayload ((byte :: bytes).drop first.consumed) with
          | .error fault => .error fault
          | .ok items => .ok (first.item :: items)
termination_by (payload.length, 1)
decreasing_by
  · exact Prod.Lex.right _ Nat.one_pos
  · have positive := first.positive
    refine Prod.Lex.left _ _ ?_
    rw [List.length_drop, List.length_cons]
    omega

end

end Decoding

end MetaVm.Zkp
