import MetaVm.Zkp.RlpCanonical

namespace MetaVm.Zkp

open Framing

/-! Which inputs take the decoder past the machine word. -/

/-- An input where the decoder reaches a header whose declared end does not fit a machine
word: at the head of the input, or in the payload of a list behind complete items. -/
inductive Overflows : List Byte → Prop
  | header {base : Byte} {len : ℕ} {behind : List Byte} (isBase : base = 0x80 ∨ base = 0xC0)
      (word : len < 2 ^ 64) (past : 2 ^ 64 ≤ (rlpHeader base len).length + len) :
      Overflows (rlpHeader base len ++ behind)
  | nested {items : List RlpItem} {rest behind : List Byte}
      (small : (framed 0xC0 ((RlpItem.encodeItems items).flatten ++ rest)).length < 2 ^ 64)
      (overflows : Overflows rest) :
      Overflows (framed 0xC0 ((RlpItem.encodeItems items).flatten ++ rest) ++ behind)

section Headers

variable {input rest : List Byte} {base tag : Byte} {len header lenOfLen : ℕ}

theorem bodyOf_eq_panic :
    bodyOf input header len = .error .panic ↔ 2 ^ 64 ≤ header + len := by
  unfold bodyOf
  split
  · rename_i past
    exact iff_of_true rfl past
  · rename_i inWord
    refine iff_of_false ?_ inWord
    split
    · nofun
    · nofun

theorem decodeBeLength_ne_panic (bytes : List Byte) : decodeBeLength bytes ≠ .error .panic := by
  unfold decodeBeLength
  split
  · nofun
  split
  · nofun
  split
  · nofun
  · nofun

theorem longLength_ne_panic (input : List Byte) (lenOfLen : ℕ) :
    longLength input lenOfLen ≠ .error .panic := by
  unfold longLength
  split
  · rintro ⟨⟩
  split
  · rename_i fault failed
    intro panics
    cases panics
    exact decodeBeLength_ne_panic _ failed
  · split
    · rintro ⟨⟩
    · rintro ⟨⟩

theorem rlpHeader_long (long : 55 < len) :
    rlpHeader base len = (base + 55 + BitVec.ofNat 8 (minimalBe (BitVec.ofNat 64 len)).length) ::
      minimalBe (BitVec.ofNat 64 len) :=
  if_neg (Nat.not_le.2 long)

theorem rlpHeader_pos (base : Byte) (len : ℕ) : 0 < (rlpHeader base len).length := by
  rw [rlpHeader]
  split
  · exact Nat.one_pos
  · exact Nat.succ_pos _

/-- A long length that is read stands in a header. -/
theorem header_of_longLength
    (read : longLength (tag :: rest) (tag - (base + 55)).toNat = .ok len) :
    len < 2 ^ 64 ∧ (rlpHeader base len).length = 1 + (tag - (base + 55)).toNat ∧
      ∃ behind, tag :: rest = rlpHeader base len ++ behind := by
  obtain ⟨long, word, size, behind, rfl⟩ := longLength_eq_ok.1 read
  rw [rlpHeader_long long, ← size, tag_eq]
  refine ⟨word, ?_, behind, rfl⟩
  rw [List.length_cons, size, Nat.add_comm]

/-- The tag in front of a long length. -/
theorem longLength_of_header {behind : List Byte} (long : 55 < len) (word : len < 2 ^ 64)
    (fits : base.toNat + 63 < 256) (same : tag :: rest = rlpHeader base len ++ behind) :
    base.toNat + 55 < tag.toNat ∧ tag.toNat ≤ base.toNat + 63 ∧
      longLength (tag :: rest) (tag - (base + 55)).toNat = .ok len ∧
        1 + (tag - (base + 55)).toNat = (rlpHeader base len).length := by
  rw [rlpHeader_long long] at same ⊢
  have short := minimalBe_length_le (BitVec.ofNat 64 len)
  have positive := List.length_pos_iff.2 (minimalBe_ne_nil (Nat.zero_lt_of_lt long) word)
  obtain ⟨rfl, rfl⟩ := List.cons.inj same
  have baseLong : (base + 55).toNat = base.toNat + 55 := @toNat_tag base 55 (by omega)
  have tagValue := @toNat_tag (base + 55) (minimalBe (BitVec.ofNat 64 len)).length (by omega)
  have size : (base + 55 + BitVec.ofNat 8 (minimalBe (BitVec.ofNat 64 len)).length -
      (base + 55)).toNat = (minimalBe (BitVec.ofNat 64 len)).length := by
    rw [toNat_tag_sub (by omega), tagValue]
    omega
  refine ⟨by omega, by omega, ?_, ?_⟩
  · exact longLength_eq_ok.2 ⟨long, word, size, behind, rfl⟩
  · rw [size, List.length_cons, Nat.add_comm]

end Headers

section Decoding

variable {input rest behind payload : List Byte} {base tag : Byte} {len : ℕ}

/-- Where a decoder that panics is: at a header, or in the payload of a list. -/
theorem panic_cases (panics : rlpDecode (tag :: rest) = .error .panic) :
    (∃ base len behind, (base = 0x80 ∨ base = 0xC0) ∧ len < 2 ^ 64 ∧
        2 ^ 64 ≤ (rlpHeader base len).length + len ∧ tag :: rest = rlpHeader base len ++ behind) ∨
      ∃ payload behind, (framed 0xC0 payload).length < 2 ^ 64 ∧
        tag :: rest = framed 0xC0 payload ++ behind ∧
          decodeListPayload payload = .error .panic := by
  have atHeader : ∀ {base : Byte} {len : ℕ}, base = 0x80 ∨ base = 0xC0 →
      longLength (tag :: rest) (tag - (base + 55)).toNat = .ok len →
      2 ^ 64 ≤ 1 + (tag - (base + 55)).toNat + len →
      ∃ base len behind, (base = 0x80 ∨ base = 0xC0) ∧ len < 2 ^ 64 ∧
        2 ^ 64 ≤ (rlpHeader base len).length + len ∧
          tag :: rest = rlpHeader base len ++ behind := by
    intro base len isBase read past
    obtain ⟨word, size, behind, same⟩ := header_of_longLength read
    exact ⟨base, len, behind, isBase, word, by rw [size]; exact past, same⟩
  rw [rlpDecode] at panics
  dsimp only at panics
  split at panics
  · cases panics
  rename_i aboveSingle
  have string : (0x80 : Byte).toNat ≤ tag.toNat := BitVec.lt_def.1 (BitVec.not_le.1 aboveSingle)
  split at panics
  · split at panics
    · rename_i low _ fault failed
      cases panics
      have small : tag.toNat ≤ (0x80 : Byte).toNat + 55 := BitVec.le_def.1 low
      have past := bodyOf_eq_panic.1 failed
      rw [toNat_tag_sub string] at past
      omega
    · split at panics
      · cases panics
      · cases panics
  rename_i aboveShort
  split at panics
  · split at panics
    · rename_i fault failed
      cases panics
      exact absurd failed (longLength_ne_panic _ _)
    rename_i len read
    split at panics
    · rename_i fault failed
      cases panics
      exact .inl (atHeader (.inl rfl) read (bodyOf_eq_panic.1 failed))
    · cases panics
  rename_i aboveString
  have list : (0xC0 : Byte).toNat ≤ tag.toNat := BitVec.lt_def.1 (BitVec.not_le.1 aboveString)
  split at panics
  · rename_i low
    have short : tag.toNat ≤ (0xC0 : Byte).toNat + 55 := BitVec.le_def.1 low
    split at panics
    · rename_i fault failed
      cases panics
      have past := bodyOf_eq_panic.1 failed
      rw [toNat_tag_sub list] at past
      omega
    rename_i payload taken
    split at panics
    · rename_i fault failed
      cases panics
      obtain ⟨small, -, behind, same⟩ := (bodyOf_short_iff list short).1 taken
      exact .inr ⟨payload, behind, small, same, failed⟩
    · cases panics
  rename_i aboveList
  have above : (0xC0 : Byte).toNat + 55 < tag.toNat := BitVec.lt_def.1 (BitVec.not_le.1 aboveList)
  split at panics
  · rename_i fault failed
    cases panics
    exact absurd failed (longLength_ne_panic _ _)
  rename_i len read
  split at panics
  · rename_i fault failed
    cases panics
    exact .inl (atHeader (.inr rfl) read (bodyOf_eq_panic.1 failed))
  rename_i payload taken
  split at panics
  · rename_i fault failed
    cases panics
    obtain ⟨small, -, behind, same⟩ := (bodyOf_long_iff above (by decide)).1 ⟨read, taken⟩
    exact .inr ⟨payload, behind, small, same, failed⟩
  · cases panics

theorem rlpDecode_of_header (isBase : base = 0x80 ∨ base = 0xC0) (word : len < 2 ^ 64)
    (past : 2 ^ 64 ≤ (rlpHeader base len).length + len) :
    rlpDecode (rlpHeader base len ++ behind) = .error .panic := by
  have long : 55 < len := by
    by_contra short
    rw [rlpHeader, if_pos (Nat.not_lt.1 short), List.length_singleton] at past
    omega
  have shape := @rlpHeader_long base len long
  generalize same : rlpHeader base len ++ behind = input
  rw [shape, List.cons_append] at same
  obtain ⟨tag, rest, rfl⟩ : ∃ tag rest, input = tag :: rest := ⟨_, _, same.symm⟩
  rw [← List.cons_append, ← shape] at same
  rw [rlpDecode]
  rcases isBase with rfl | rfl
  · obtain ⟨above, below, read, size⟩ := longLength_of_header long word (by decide) same.symm
    rw [show (0x80 : Byte) + 55 = 0xB7 from rfl] at read size
    have aboveSingle : (0x7F : Byte).toNat < tag.toNat := lt_trans (by decide) above
    have aboveShort : (0xB7 : Byte).toNat < tag.toNat := above
    rw [if_neg (not_tag_le aboveSingle), if_neg (not_tag_le aboveShort),
      if_pos (BitVec.le_def.2 below)]
    dsimp only
    rw [read]
    dsimp only
    rw [bodyOf_eq_panic.2 (by rw [size]; exact past)]
  · obtain ⟨above, -, read, size⟩ := longLength_of_header long word (by decide) same.symm
    rw [show (0xC0 : Byte) + 55 = 0xF7 from rfl] at read size
    have aboveSingle : (0x7F : Byte).toNat < tag.toNat := lt_trans (by decide) above
    have aboveShort : (0xB7 : Byte).toNat < tag.toNat := lt_trans (by decide) above
    have aboveString : (0xBF : Byte).toNat < tag.toNat := lt_trans (by decide) above
    have aboveList : (0xF7 : Byte).toNat < tag.toNat := above
    rw [if_neg (not_tag_le aboveSingle), if_neg (not_tag_le aboveShort),
      if_neg (not_tag_le aboveString), if_neg (not_tag_le aboveList)]
    dsimp only
    rw [read]
    dsimp only
    rw [bodyOf_eq_panic.2 (by rw [size]; exact past)]

/-- A payload that makes the decoder panic has complete items in front of the input that
does. -/
theorem payload_of_panic (panics : decodeListPayload payload = .error .panic) :
    ∃ items rest, payload = (RlpItem.encodeItems items).flatten ++ rest ∧
      rlpDecode rest = .error .panic := by
  induction size : payload.length using Nat.strong_induction_on generalizing payload with
  | _ bound hypothesis =>
      cases payload with
      | nil =>
          rw [decodeListPayload] at panics
          cases panics
      | cons byte bytes =>
          rw [decodeListPayload] at panics
          split at panics
          · rename_i fault failed
            cases panics
            exact ⟨[], byte :: bytes, rfl, failed⟩
          rename_i first accepted
          split at panics
          · rename_i fault failed
            cases panics
            obtain ⟨behind, same, consumed⟩ := (canonical _).1 _ first le_rfl accepted
            have positive := first.positive
            rw [List.length_cons] at size
            have shorter : ((byte :: bytes).drop first.consumed).length < bound := by
              rw [List.length_drop, List.length_cons]
              omega
            obtain ⟨items, rest, split, there⟩ := hypothesis _ shorter failed rfl
            refine ⟨first.item :: items, rest, ?_, there⟩
            rw [RlpItem.encodeItems, List.flatten_cons, List.append_assoc, ← split, consumed]
            conv_rhs => rw [same, List.drop_left]
            exact same
          · cases panics

theorem panic_of_payload (items : List RlpItem)
    (small : ((RlpItem.encodeItems items).flatten ++ rest).length < 2 ^ 64)
    (panics : rlpDecode rest = .error .panic) :
    decodeListPayload ((RlpItem.encodeItems items).flatten ++ rest) = .error .panic := by
  induction items with
  | nil =>
      rw [RlpItem.encodeItems, List.flatten_nil, List.nil_append]
      cases rest with
      | nil =>
          rw [rlpDecode] at panics
          cases panics
      | cons byte bytes => rw [decodeListPayload, panics]
  | cons item items hypothesis =>
      rw [RlpItem.encodeItems, List.flatten_cons, List.append_assoc] at small ⊢
      obtain ⟨decoded, first, -, consumed⟩ := rlpDecode_of_accepts (item.accepts_encode _ small)
      rw [List.length_append] at small
      have later := hypothesis (by omega)
      generalize whole : item.encode ++ ((RlpItem.encodeItems items).flatten ++ rest) = payload
        at first ⊢
      cases payload with
      | nil =>
          rw [rlpDecode] at first
          cases first
      | cons byte bytes =>
          rw [decodeListPayload, first]
          dsimp only
          rw [← whole, consumed, List.drop_left, later]

/-- The decoder panics exactly on the inputs that overflow. -/
theorem panics_iff_overflows (input : List Byte) :
    rlpDecode input = .error .panic ↔ Overflows input := by
  constructor
  · intro panics
    induction size : input.length using Nat.strong_induction_on generalizing input with
    | _ bound hypothesis =>
        cases input with
        | nil =>
            rw [rlpDecode] at panics
            cases panics
        | cons tag rest =>
            obtain ⟨base, len, behind, isBase, word, past, same⟩ |
              ⟨payload, behind, small, same, inside⟩ := panic_cases panics
            · rw [same]
              exact .header isBase word past
            · obtain ⟨items, rest, rfl, there⟩ := payload_of_panic inside
              have shorter : rest.length < bound := by
                have lengths := congrArg List.length same
                have positive := rlpHeader_pos 0xC0
                  ((RlpItem.encodeItems items).flatten ++ rest).length
                have parts := @List.length_append _ (RlpItem.encodeItems items).flatten rest
                rw [size, framed, List.length_append, List.length_append] at lengths
                omega
              rw [same]
              exact .nested small (hypothesis _ shorter rest there rfl)
  · intro overflows
    induction overflows with
    | header isBase word past => exact rlpDecode_of_header isBase word past
    | @nested items rest behind small overflows panics =>
        refine (rlpDecode_framed_list small rfl).1 .panic (panic_of_payload items ?_ panics)
        rw [framed, List.length_append] at small
        omega

theorem consumed_le {decoded : Decoded} (accepted : rlpDecode input = .ok decoded) :
    decoded.consumed ≤ input.length := by
  obtain ⟨behind, same, consumed⟩ := (canonical input.length).1 input decoded le_rfl accepted
  rw [consumed, same, List.length_append]
  exact Nat.le_add_right _ _

/-- The decoder ends with an item within the input or an error, without a panic. -/
def DecodesSafely (input : List Byte) : Prop :=
  (∃ decoded, rlpDecode input = .ok decoded ∧ decoded.consumed ≤ input.length) ∨
    ∃ fault, rlpDecode input = .error (.error fault)

theorem not_decodesSafely_of_panic (panics : rlpDecode input = .error .panic) :
    ¬ DecodesSafely input := by
  rintro (⟨decoded, accepted, -⟩ | ⟨fault, failed⟩)
  · cases accepted.symm.trans panics
  · cases failed.symm.trans panics

/-- Decoding is safe on the inputs that do not overflow, and on no others. -/
theorem decodesSafely_iff (input : List Byte) : DecodesSafely input ↔ ¬ Overflows input := by
  rw [← panics_iff_overflows]
  constructor
  · intro safe panics
    exact not_decodesSafely_of_panic panics safe
  · intro safe
    cases outcome : rlpDecode input with
    | ok decoded => exact .inl ⟨decoded, outcome, consumed_le outcome⟩
    | error failure =>
        cases failure with
        | panic => exact absurd outcome safe
        | error fault => exact .inr ⟨fault, outcome⟩

/-- A header of nine bytes that declares the largest length. -/
theorem longest_length_panics : ¬ ∀ input, DecodesSafely input := by
  intro safe
  have panics : rlpDecode (rlpHeader 0x80 (2 ^ 64 - 1) ++ []) = .error .panic :=
    rlpDecode_of_header (.inl rfl) (by decide) (by decide)
  exact not_decodesSafely_of_panic panics (safe _)

end Decoding

end MetaVm.Zkp
