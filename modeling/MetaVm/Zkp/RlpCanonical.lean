import MetaVm.Zkp.Rlp

namespace MetaVm.Zkp

open Framing

/-! Every item has one encoding, and decoding accepts nothing else. -/

/-! ### Lengths -/

section Lengths

theorem minimalBe_eq (n : BitVec 64) :
    minimalBe n = (bigEndian 8 n.toNat).dropWhile fun byte => byte = 0 := by
  unfold minimalBe
  split
  · rename_i zero
    subst zero
    decide
  · rw [List.dropWhile_eq_drop_findIdx_not]
    simp only [decide_not]

theorem minimalBe_minimal (n : BitVec 64) : Minimal (minimalBe n) := by
  rw [minimalBe_eq]
  exact minimal_dropWhile _

theorem fromBigEndian_minimalBe (n : BitVec 64) : fromBigEndian (minimalBe n) = n.toNat := by
  rw [minimalBe_eq, fromBigEndian_dropWhile, fromBigEndian_bigEndian]
  exact Nat.mod_eq_of_lt n.isLt

theorem minimalBe_length_le (n : BitVec 64) : (minimalBe n).length ≤ 8 := by
  rw [minimalBe_eq]
  exact (List.length_dropWhile_le _ _).trans (length_bigEndian 8 _).le

theorem minimalBe_ne_nil {len : ℕ} (positive : 0 < len) (small : len < 2 ^ 64) :
    minimalBe (BitVec.ofNat 64 len) ≠ [] := by
  intro empty
  have value := fromBigEndian_minimalBe (BitVec.ofNat 64 len)
  rw [empty, fromBigEndian_nil, BitVec.toNat_ofNat, Nat.mod_eq_of_lt small] at value
  omega

/-- Shifting in the bytes reads a number of the width of the machine. -/
theorem foldl_shift (bytes : List Byte) :
    (bytes.foldl (fun (len : BitVec 64) b => len <<< 8 ||| b.setWidth 64) 0).toNat =
      fromBigEndian bytes % 2 ^ 64 := by
  induction bytes using List.reverseRecOn with
  | nil => rfl
  | append_singleton bytes byte hypothesis =>
      have low := byte.isLt
      rw [List.foldl_append, List.foldl_cons, List.foldl_nil, fromBigEndian_concat]
      generalize bytes.foldl (fun (len : BitVec 64) b => len <<< 8 ||| b.setWidth 64) 0 = len
        at hypothesis ⊢
      have joined : (len <<< 8 ||| byte.setWidth 64).toNat =
          len.toNat * 256 % 2 ^ 64 + byte.toNat := by
        have apart : len <<< 8 &&& byte.setWidth 64 = 0 := by
          ext index
          simp only [BitVec.getElem_and, BitVec.getElem_shiftLeft, BitVec.getElem_setWidth]
          by_cases inside : index < 8
          · simp [inside]
          · simp [BitVec.getLsbD_of_ge _ _ (Nat.le_of_not_lt inside)]
        rw [← BitVec.add_eq_or_of_and_eq_zero _ _ apart, BitVec.toNat_add,
          BitVec.toNat_shiftLeft, BitVec.toNat_setWidth, Nat.shiftLeft_eq]
        omega
      rw [joined, hypothesis]
      omega

theorem decodeBeLength_eq_ok {bytes : List Byte} {len : ℕ} :
    decodeBeLength bytes = .ok len ↔
      0 < len ∧ len < 2 ^ 64 ∧ bytes = minimalBe (BitVec.ofNat 64 len) := by
  have read : bytes.length ≤ 8 → (bytes.foldl (fun (len : BitVec 64) b =>
      len <<< 8 ||| b.setWidth 64) 0).toNat = fromBigEndian bytes := by
    intro short
    have bound := fromBigEndian_lt bytes
    have powers : 256 ^ bytes.length ≤ 2 ^ 64 :=
      calc 256 ^ bytes.length ≤ 256 ^ 8 := Nat.pow_le_pow_right (by decide) short
        _ = 2 ^ 64 := by norm_num
    rw [foldl_shift, Nat.mod_eq_of_lt (lt_of_lt_of_le bound powers)]
  unfold decodeBeLength
  constructor
  · intro decoded
    split at decoded
    · cases decoded
    split at decoded
    · cases decoded
    split at decoded
    · cases decoded
    rename_i nonempty nonzero short
    have value : (BitVec.ofNat 64 len).toNat = len := by
      rw [← Except.ok.inj decoded, BitVec.ofNat_toNat, BitVec.setWidth_eq]
    rw [read (Nat.le_of_not_lt short)] at decoded
    obtain rfl := Except.ok.inj decoded
    cases bytes with
    | nil => exact absurd rfl nonempty
    | cons byte bytes =>
        have minimal : Minimal (byte :: bytes) := minimal_cons.2 nonzero
        refine ⟨?_, ?_, ?_⟩
        · exact lt_of_lt_of_le (Nat.pow_pos (by decide)) (minimal.pow_le (List.cons_ne_nil _ _))
        · rw [← value]
          exact BitVec.isLt _
        · refine minimal.unique (minimalBe_minimal _) ?_
          rw [fromBigEndian_minimalBe, value]
  · rintro ⟨positive, small, rfl⟩
    have nonempty := minimalBe_ne_nil positive small
    have minimal := minimalBe_minimal (BitVec.ofNat 64 len)
    have short := minimalBe_length_le (BitVec.ofNat 64 len)
    have value := fromBigEndian_minimalBe (BitVec.ofNat 64 len)
    rw [BitVec.toNat_ofNat, Nat.mod_eq_of_lt small] at value
    rw [read short, value, if_neg, if_neg, if_neg (Nat.not_lt.2 short)]
    · intro zero
      refine minimal ?_
      rw [List.head?_eq_some_head nonempty, Option.some_inj]
      rwa [List.headD_eq_head?_getD, List.head?_eq_some_head nonempty] at zero
    · rw [List.isEmpty_iff]
      exact nonempty

theorem longLength_eq_ok {tag : Byte} {rest : List Byte} {lenOfLen len : ℕ} :
    longLength (tag :: rest) lenOfLen = .ok len ↔ 55 < len ∧ len < 2 ^ 64 ∧
      lenOfLen = (minimalBe (BitVec.ofNat 64 len)).length ∧
        ∃ behind, rest = minimalBe (BitVec.ofNat 64 len) ++ behind := by
  unfold longLength
  rw [List.drop_one, List.tail_cons, List.length_cons]
  constructor
  · intro read
    split at read
    · cases read
    rename_i inside
    split at read
    · cases read
    rename_i value decoded
    split at read
    · cases read
    rename_i long
    obtain rfl := Except.ok.inj read
    obtain ⟨-, small, taken⟩ := decodeBeLength_eq_ok.1 decoded
    refine ⟨Nat.lt_of_not_le long, small, ?_, rest.drop lenOfLen, ?_⟩
    · rw [← taken, List.length_take]
      omega
    · rw [← taken, List.take_append_drop]
  · rintro ⟨long, small, rfl, behind, rfl⟩
    have decoded : decodeBeLength (minimalBe (BitVec.ofNat 64 len)) = .ok len :=
      decodeBeLength_eq_ok.2 ⟨by omega, small, rfl⟩
    rw [List.take_left, decoded, if_neg]
    · exact if_neg (Nat.not_le.2 long)
    · rw [List.length_append]
      omega

end Lengths

/-! ### Frames -/

section Frames

/-- The bytes in front of a string (base 0x80) or a list (base 0xC0). -/
def rlpHeader (base : Byte) (len : ℕ) : List Byte :=
  if len ≤ 55 then [base + BitVec.ofNat 8 len]
  else
    let lenBe := minimalBe (BitVec.ofNat 64 len)
    (base + 55 + BitVec.ofNat 8 lenBe.length) :: lenBe

def framed (base : Byte) (body : List Byte) : List Byte :=
  rlpHeader base body.length ++ body

/-- Bytes below 0x80 stand for themselves. -/
def Single (body : List Byte) : Prop := body.length = 1 ∧ body.headD 0 < 0x80

theorem rlpEncodeBytes_single {byte : Byte} (low : byte < 0x80) :
    rlpEncodeBytes [byte] = [byte] :=
  if_pos ⟨rfl, low⟩

theorem rlpEncodeBytes_framed {body : List Byte} (many : ¬ Single body) :
    rlpEncodeBytes body = framed 0x80 body := by
  unfold Single at many
  rw [rlpEncodeBytes, if_neg many, framed, rlpHeader]
  split
  · rfl
  · rfl

theorem rlpEncodeList_framed (items : List (List Byte)) :
    rlpEncodeList items = framed 0xC0 items.flatten := by
  rw [rlpEncodeList, framed, rlpHeader, List.length_flatten]
  rfl

theorem toNat_tag {base : Byte} {offset : ℕ} (small : base.toNat + offset < 256) :
    (base + BitVec.ofNat 8 offset).toNat = base.toNat + offset := by
  rw [BitVec.toNat_add, BitVec.toNat_ofNat]
  omega

theorem toNat_tag_sub {base tag : Byte} (atLeast : base.toNat ≤ tag.toNat) :
    (tag - base).toNat = tag.toNat - base.toNat := by
  rw [BitVec.toNat_sub_of_le (BitVec.le_def.2 atLeast)]

theorem tag_eq (base tag : Byte) :
    base + BitVec.ofNat 8 (tag - base).toNat = tag := by
  rw [BitVec.ofNat_toNat, BitVec.setWidth_eq, BitVec.add_comm,
    BitVec.sub_add_cancel]

variable {base tag : Byte} {rest body : List Byte}

theorem bodyOf_short_iff (atLeast : base.toNat ≤ tag.toNat)
    (short : tag.toNat ≤ base.toNat + 55) :
    bodyOf (tag :: rest) 1 (tag - base).toNat = .ok body ↔
      (framed base body).length < 2 ^ 64 ∧
        1 + (tag - base).toNat = (framed base body).length ∧
        ∃ behind, tag :: rest = framed base body ++ behind := by
  have size := toNat_tag_sub atLeast
  rw [bodyOf_eq_ok]
  constructor
  · rintro ⟨small, length, front, behind, single, same⟩
    have header : rlpHeader base body.length = [tag] := by
      rw [rlpHeader, length, if_pos (by omega), tag_eq]
    obtain ⟨first, rfl⟩ := List.length_eq_one_iff.1 single
    have first_eq : tag = first := (List.cons.inj same).1
    rw [framed, header, List.length_append, length]
    exact ⟨small, rfl, behind, first_eq ▸ same⟩
  · rintro ⟨small, consumed, behind, same⟩
    rw [← consumed] at small
    rw [framed, List.length_append] at consumed
    have length : body.length ≤ 55 := by
      by_contra long
      rw [rlpHeader, if_neg long, List.length_cons] at consumed
      omega
    have header : rlpHeader base body.length = [base + BitVec.ofNat 8 body.length] := by
      rw [rlpHeader, if_pos length]
    rw [header, List.length_singleton] at consumed
    refine ⟨small, by omega, rlpHeader base body.length, behind, ?_, same⟩
    rw [header, List.length_singleton]

theorem bodyOf_long_iff {len : ℕ} (above : base.toNat + 55 < tag.toNat)
    (fits : base.toNat + 63 < 256) :
    (longLength (tag :: rest) (tag - (base + 55)).toNat = .ok len ∧
        bodyOf (tag :: rest) (1 + (tag - (base + 55)).toNat) len = .ok body) ↔
      (framed base body).length < 2 ^ 64 ∧
        1 + (tag - (base + 55)).toNat + len = (framed base body).length ∧
        ∃ behind, tag :: rest = framed base body ++ behind := by
  have baseLong : (base + 55).toNat = base.toNat + 55 := @toNat_tag base 55 (by omega)
  have atLeast : (base + 55).toNat ≤ tag.toNat := by omega
  have size := toNat_tag_sub atLeast
  constructor
  · rintro ⟨long, taken⟩
    obtain ⟨large, -, lenOfLen, behind, rfl⟩ := longLength_eq_ok.1 long
    obtain ⟨small, rfl, front, after, frontLength, same⟩ := bodyOf_eq_ok.1 taken
    have header : rlpHeader base body.length =
        tag :: minimalBe (BitVec.ofNat 64 body.length) := by
      rw [rlpHeader, if_neg (Nat.not_le.2 large)]
      dsimp only
      rw [← lenOfLen, tag_eq]
    have headerLength : (rlpHeader base body.length).length = front.length := by
      rw [header, List.length_cons, ← lenOfLen, frontLength, Nat.add_comm]
    have fronts : front = rlpHeader base body.length := by
      rw [← List.cons_append, ← header, List.append_assoc] at same
      exact (List.append_inj_left same headerLength).symm
    rw [framed, List.length_append, headerLength, frontLength]
    exact ⟨small, rfl, after, by rw [same, fronts]⟩
  · rintro ⟨small, consumed, behind, same⟩
    have large : 55 < body.length := by
      by_contra short
      have header : rlpHeader base body.length = [base + BitVec.ofNat 8 body.length] := by
        rw [rlpHeader, if_pos (Nat.le_of_not_lt short)]
      rw [framed, header] at same
      have tagEq := congrArg BitVec.toNat (List.cons.inj same).1
      rw [toNat_tag (by omega)] at tagEq
      omega
    have lenOfLenLe := minimalBe_length_le (BitVec.ofNat 64 body.length)
    have header : rlpHeader base body.length = (base + 55 + BitVec.ofNat 8
        (minimalBe (BitVec.ofNat 64 body.length)).length) ::
          minimalBe (BitVec.ofNat 64 body.length) := by
      rw [rlpHeader, if_neg (Nat.not_le.2 large)]
    rw [framed, List.length_append] at small
    rw [framed, List.append_assoc, header, List.cons_append] at same
    obtain ⟨tagEq, restEq⟩ := List.cons.inj same
    have lenOfLen : (tag - (base + 55)).toNat =
        (minimalBe (BitVec.ofNat 64 body.length)).length := by
      rw [size, tagEq, toNat_tag (by omega), Nat.add_sub_cancel_left]
    have length : body.length = len := by
      rw [framed, List.length_append, header, List.length_cons, ← lenOfLen] at consumed
      omega
    subst length
    refine ⟨longLength_eq_ok.2 ⟨large, by omega, lenOfLen, _, restEq⟩,
      bodyOf_eq_ok.2 ⟨?_, rfl, rlpHeader base body.length, behind, ?_, ?_⟩⟩
    · rw [header, List.length_cons, ← lenOfLen] at small
      omega
    · rw [header, List.length_cons, ← lenOfLen, Nat.add_comm]
    · rw [header, same, List.append_assoc, List.cons_append]

end Frames

/-! ### Decoding -/

/-- What stands at the head of an input, and how many bytes it takes. -/
inductive Accepts (input : List Byte) (consumed : ℕ) : RlpItem → Prop
  | single {byte : Byte} {behind : List Byte} (low : byte.toNat < 0x80)
      (same : input = byte :: behind) (size : consumed = 1) :
      Accepts input consumed (.bytes [byte])
  | string {body behind : List Byte} (many : ¬ Single body)
      (small : (framed 0x80 body).length < 2 ^ 64)
      (same : input = framed 0x80 body ++ behind)
      (size : consumed = (framed 0x80 body).length) :
      Accepts input consumed (.bytes body)
  | list {payload behind : List Byte} {items : List RlpItem}
      (small : (framed 0xC0 payload).length < 2 ^ 64)
      (same : input = framed 0xC0 payload ++ behind)
      (size : consumed = (framed 0xC0 payload).length)
      (decoded : decodeListPayload payload = .ok items) :
      Accepts input consumed (.list items)

section Decoding

variable {input : List Byte} {item : RlpItem} {consumed : ℕ}

theorem not_single_of_long {base : Byte} {tag : Byte} {rest body behind : List Byte}
    (same : tag :: rest = framed base body ++ behind)
    (above : base.toNat + 55 < tag.toNat) : ¬ Single body := by
  rintro ⟨length, -⟩
  rw [framed, rlpHeader, if_pos (by omega)] at same
  have tagEq := congrArg BitVec.toNat (List.cons.inj same).1
  rw [toNat_tag (by omega)] at tagEq
  omega

theorem accepts_of_rlpDecode {decoded : Decoded} (accepted : rlpDecode input = .ok decoded) :
    Accepts input decoded.consumed decoded.item := by
  cases input with
  | nil =>
      rw [rlpDecode] at accepted
      cases accepted
  | cons tag rest =>
      rw [rlpDecode] at accepted
      dsimp only at accepted
      split at accepted
      · rename_i low
        obtain rfl := Except.ok.inj accepted
        exact .single (Nat.lt_succ_of_le (BitVec.le_def.1 low)) rfl rfl
      rename_i aboveSingle
      have string : (0x80 : Byte).toNat ≤ tag.toNat := BitVec.lt_def.1 (BitVec.not_le.1 aboveSingle)
      split at accepted
      · rename_i low
        have short : tag.toNat ≤ (0x80 : Byte).toNat + 55 := BitVec.le_def.1 low
        split at accepted
        · cases accepted
        rename_i body taken
        split at accepted
        · cases accepted
        rename_i many
        obtain rfl := Except.ok.inj accepted
        obtain ⟨small, size, behind, same⟩ := (bodyOf_short_iff string short).1 taken
        refine .string (fun single => many ⟨?_, single.2⟩) small same size
        rw [← (bodyOf_eq_ok.1 taken).2.1, single.1]
      rename_i aboveShort
      have above : (0x80 : Byte).toNat + 55 < tag.toNat := BitVec.lt_def.1 (BitVec.not_le.1 aboveShort)
      split at accepted
      · split at accepted
        · cases accepted
        rename_i len read
        split at accepted
        · cases accepted
        rename_i body taken
        obtain rfl := Except.ok.inj accepted
        obtain ⟨small, size, behind, same⟩ :=
          (bodyOf_long_iff above (by decide)).1 ⟨read, taken⟩
        exact .string (not_single_of_long same above) small same size
      rename_i aboveString
      have list : (0xC0 : Byte).toNat ≤ tag.toNat := BitVec.lt_def.1 (BitVec.not_le.1 aboveString)
      split at accepted
      · rename_i low
        have short : tag.toNat ≤ (0xC0 : Byte).toNat + 55 := BitVec.le_def.1 low
        split at accepted
        · cases accepted
        rename_i payload taken
        split at accepted
        · cases accepted
        rename_i items itemsEq
        obtain rfl := Except.ok.inj accepted
        obtain ⟨small, size, behind, same⟩ := (bodyOf_short_iff list short).1 taken
        exact .list small same size itemsEq
      · rename_i aboveList
        have above : (0xC0 : Byte).toNat + 55 < tag.toNat := BitVec.lt_def.1 (BitVec.not_le.1 aboveList)
        split at accepted
        · cases accepted
        rename_i len read
        split at accepted
        · cases accepted
        rename_i payload taken
        split at accepted
        · cases accepted
        rename_i items itemsEq
        obtain rfl := Except.ok.inj accepted
        obtain ⟨small, size, behind, same⟩ :=
          (bodyOf_long_iff above (by decide)).1 ⟨read, taken⟩
        exact .list small same size itemsEq

theorem framed_short {base tag : Byte} {rest body behind : List Byte}
    (length : body.length ≤ 55) (same : tag :: rest = framed base body ++ behind)
    (fits : base.toNat + 55 < 256) :
    base.toNat ≤ tag.toNat ∧ tag.toNat ≤ base.toNat + 55 ∧
      1 + (tag - base).toNat = (framed base body).length := by
  rw [framed, rlpHeader, if_pos length] at same ⊢
  have tagEq := congrArg BitVec.toNat (List.cons.inj same).1
  rw [toNat_tag (by omega)] at tagEq
  rw [toNat_tag_sub (by omega), List.length_append, List.length_singleton]
  omega

theorem framed_long {base tag : Byte} {rest body behind : List Byte}
    (length : 55 < body.length) (same : tag :: rest = framed base body ++ behind)
    (fits : base.toNat + 63 < 256) (small : (framed base body).length < 2 ^ 64) :
    base.toNat + 55 < tag.toNat ∧ tag.toNat ≤ base.toNat + 63 ∧
      1 + (tag - (base + 55)).toNat + body.length = (framed base body).length := by
  rw [framed, rlpHeader, if_neg (Nat.not_le.2 length)] at same small ⊢
  dsimp only at same small ⊢
  rw [List.length_append, List.length_cons] at small ⊢
  have short := minimalBe_length_le (BitVec.ofNat 64 body.length)
  have nonempty := minimalBe_ne_nil (Nat.zero_lt_of_lt length)
    (lt_of_le_of_lt (Nat.le_add_left _ _) small)
  have positive := List.length_pos_iff.2 nonempty
  have baseLong : (base + 55).toNat = base.toNat + 55 := @toNat_tag base 55 (by omega)
  have tagEq := congrArg BitVec.toNat (List.cons.inj same).1
  rw [toNat_tag (by omega), baseLong] at tagEq
  rw [toNat_tag_sub (by omega), baseLong]
  omega

theorem not_tag_le {tag bound : Byte} (above : bound.toNat < tag.toNat) : ¬ tag ≤ bound :=
  fun low => absurd (BitVec.le_def.1 low) (Nat.not_le.2 above)

theorem exists_framed {base : Byte} {body behind : List Byte}
    (same : input = framed base body ++ behind) : ∃ tag rest, input = tag :: rest := by
  rw [same, framed, rlpHeader]
  split
  · exact ⟨_, _, rfl⟩
  · exact ⟨_, _, rfl⟩

/-- A framed list decodes as its payload does. -/
theorem rlpDecode_framed_list {payload behind : List Byte}
    (small : (framed 0xC0 payload).length < 2 ^ 64) (same : input = framed 0xC0 payload ++ behind) :
    (∀ fault, decodeListPayload payload = .error fault → rlpDecode input = .error fault) ∧
      ∀ items, decodeListPayload payload = .ok items →
        ∃ decoded, rlpDecode input = .ok decoded ∧ decoded.item = .list items ∧
          decoded.consumed = (framed 0xC0 payload).length := by
  obtain ⟨tag, rest, rfl⟩ := exists_framed same
  rw [rlpDecode]
  by_cases length : payload.length ≤ 55
  · obtain ⟨list, short, sized⟩ := framed_short length same (by decide)
    have taken := (bodyOf_short_iff list short).2 ⟨small, sized, behind, same⟩
    have aboveSingle : (0x7F : Byte).toNat < tag.toNat := lt_of_lt_of_le (by decide) list
    have aboveShort : (0xB7 : Byte).toNat < tag.toNat := lt_of_lt_of_le (by decide) list
    have aboveString : (0xBF : Byte).toNat < tag.toNat := list
    rw [if_neg (not_tag_le aboveSingle), if_neg (not_tag_le aboveShort),
      if_neg (not_tag_le aboveString), if_pos (BitVec.le_def.2 short)]
    dsimp only
    rw [taken]
    dsimp only
    constructor
    · intro fault fails
      rw [fails]
    · intro items decoded
      rw [decoded]
      exact ⟨_, rfl, rfl, sized⟩
  · obtain ⟨long, -, sized⟩ :=
      framed_long (Nat.lt_of_not_le length) same (by decide) small
    obtain ⟨read, taken⟩ := (bodyOf_long_iff long (by decide)).2 ⟨small, sized, behind, same⟩
    rw [show (0xC0 : Byte) + 55 = 0xF7 from rfl] at read taken sized
    have aboveSingle : (0x7F : Byte).toNat < tag.toNat := lt_trans (by decide) long
    have aboveShort : (0xB7 : Byte).toNat < tag.toNat := lt_trans (by decide) long
    have aboveString : (0xBF : Byte).toNat < tag.toNat := lt_trans (by decide) long
    have aboveList : (0xF7 : Byte).toNat < tag.toNat := long
    rw [if_neg (not_tag_le aboveSingle), if_neg (not_tag_le aboveShort),
      if_neg (not_tag_le aboveString), if_neg (not_tag_le aboveList)]
    dsimp only
    rw [read]
    dsimp only
    rw [taken]
    dsimp only
    constructor
    · intro fault fails
      rw [fails]
    · intro items decoded
      rw [decoded]
      exact ⟨_, rfl, rfl, sized⟩

theorem rlpDecode_of_accepts (accepts : Accepts input consumed item) :
    ∃ decoded, rlpDecode input = .ok decoded ∧ decoded.item = item ∧
      decoded.consumed = consumed := by
  cases accepts with
  | single low same size =>
      rw [same, rlpDecode, if_pos (BitVec.le_def.2 (Nat.le_of_lt_succ low)), size]
      exact ⟨_, rfl, rfl, rfl⟩
  | @string body behind many small same size =>
      obtain ⟨tag, rest, rfl⟩ := exists_framed same
      rw [rlpDecode, size]
      by_cases length : body.length ≤ 55
      · obtain ⟨string, short, sized⟩ := framed_short length same (by decide)
        have taken := (bodyOf_short_iff string short).2 ⟨small, sized, behind, same⟩
        have above : (0x7F : Byte).toNat < tag.toNat := string
        rw [if_neg (not_tag_le above), if_pos (BitVec.le_def.2 short)]
        dsimp only
        rw [taken]
        dsimp only
        rw [if_neg]
        · exact ⟨_, rfl, rfl, sized⟩
        · rintro ⟨one, low⟩
          exact many ⟨by rw [(bodyOf_eq_ok.1 taken).2.1, one], low⟩
      · obtain ⟨long, below, sized⟩ :=
          framed_long (Nat.lt_of_not_le length) same (by decide) small
        obtain ⟨read, taken⟩ := (bodyOf_long_iff long (by decide)).2 ⟨small, sized, behind, same⟩
        rw [show (0x80 : Byte) + 55 = 0xB7 from rfl] at read taken sized
        have aboveSingle : (0x7F : Byte).toNat < tag.toNat := lt_trans (by decide) long
        have aboveShort : (0xB7 : Byte).toNat < tag.toNat := long
        rw [if_neg (not_tag_le aboveSingle), if_neg (not_tag_le aboveShort),
          if_pos (BitVec.le_def.2 below)]
        dsimp only
        rw [read]
        dsimp only
        rw [taken]
        exact ⟨_, rfl, rfl, sized⟩
  | @list payload behind items small same size decoded =>
      rw [size]
      exact (rlpDecode_framed_list small same).2 items decoded

end Decoding

/-! ### Uniqueness -/

section Canonical

theorem decodeListPayload_cons {payload : List Byte} {decoded : Decoded} {items : List RlpItem}
    (first : rlpDecode payload = .ok decoded)
    (later : decodeListPayload (payload.drop decoded.consumed) = .ok items) :
    decodeListPayload payload = .ok (decoded.item :: items) := by
  cases payload with
  | nil =>
      rw [rlpDecode] at first
      cases first
  | cons byte bytes =>
      rw [decodeListPayload, first]
      dsimp only
      rw [later]

mutual

theorem RlpItem.accepts_encode : ∀ (item : RlpItem) (suffix : List Byte),
    (item.encode ++ suffix).length < 2 ^ 64 →
      Accepts (item.encode ++ suffix) item.encode.length item
  | .bytes string, suffix, short => by
      rw [RlpItem.encode] at short ⊢
      by_cases single : Single string
      · obtain ⟨byte, rfl⟩ := List.length_eq_one_iff.1 single.1
        have low : byte < 0x80 := single.2
        rw [rlpEncodeBytes_single low]
        exact .single low rfl rfl
      · rw [rlpEncodeBytes_framed single] at short ⊢
        rw [List.length_append] at short
        exact .string single (by omega) rfl rfl
  | .list items, suffix, short => by
      rw [RlpItem.encode, rlpEncodeList_framed] at short ⊢
      rw [List.length_append] at short
      refine .list (by omega) rfl rfl (decodeListPayload_encodeItems items ?_)
      rw [framed, List.length_append] at short
      omega

theorem decodeListPayload_encodeItems : ∀ items : List RlpItem,
    (RlpItem.encodeItems items).flatten.length < 2 ^ 64 →
      decodeListPayload (RlpItem.encodeItems items).flatten = .ok items
  | [], _ => by
      rw [RlpItem.encodeItems, List.flatten_nil, decodeListPayload]
  | item :: items, short => by
      rw [RlpItem.encodeItems, List.flatten_cons] at short ⊢
      obtain ⟨decoded, first, rfl, consumed⟩ :=
        rlpDecode_of_accepts (item.accepts_encode _ short)
      refine decodeListPayload_cons first ?_
      rw [consumed, List.drop_left]
      rw [List.length_append] at short
      exact decodeListPayload_encodeItems items (by omega)

end

theorem canonical (size : ℕ) :
    (∀ input decoded, input.length ≤ size → rlpDecode input = .ok decoded →
      ∃ behind, input = decoded.item.encode ++ behind ∧
        decoded.consumed = decoded.item.encode.length) ∧
    ∀ payload items, payload.length ≤ size → decodeListPayload payload = .ok items →
      (RlpItem.encodeItems items).flatten = payload := by
  induction size using Nat.strong_induction_on with
  | _ size hypothesis =>
      have items : ∀ input decoded, input.length ≤ size → rlpDecode input = .ok decoded →
          ∃ behind, input = decoded.item.encode ++ behind ∧
            decoded.consumed = decoded.item.encode.length := by
        intro input decoded fits accepted
        have accepts := accepts_of_rlpDecode accepted
        generalize decoded.item = item at accepts ⊢
        cases accepts with
        | @single byte behind low same consumed =>
            rw [RlpItem.encode, rlpEncodeBytes_single low]
            exact ⟨behind, same, consumed⟩
        | @string body behind many small same consumed =>
            rw [RlpItem.encode, rlpEncodeBytes_framed many]
            exact ⟨behind, same, consumed⟩
        | @list payload behind items small same consumed decodes =>
            have shorter : payload.length < input.length := by
              have lengths := congrArg List.length same
              rw [framed, rlpHeader, List.length_append, List.length_append] at lengths
              split at lengths
              · rw [List.length_singleton] at lengths
                omega
              · rw [List.length_cons] at lengths
                omega
            have encoded := (hypothesis payload.length (by omega)).2 payload items le_rfl decodes
            rw [RlpItem.encode, rlpEncodeList_framed, encoded]
            exact ⟨behind, same, consumed⟩
      refine ⟨items, ?_⟩
      intro payload decodedItems fits decodes
      cases payload with
      | nil =>
          rw [decodeListPayload] at decodes
          obtain rfl := Except.ok.inj decodes
          rw [RlpItem.encodeItems, List.flatten_nil]
      | cons byte bytes =>
          rw [decodeListPayload] at decodes
          split at decodes
          · cases decodes
          rename_i first accepted
          split at decodes
          · cases decodes
          rename_i later rest
          obtain rfl := Except.ok.inj decodes
          obtain ⟨behind, same, consumed⟩ := items _ _ fits accepted
          have positive := first.positive
          rw [List.length_cons] at fits
          have shorter : ((byte :: bytes).drop first.consumed).length < size := by
            rw [List.length_drop, List.length_cons]
            omega
          have encoded := (hypothesis _ shorter).2 _ _ le_rfl rest
          rw [RlpItem.encodeItems, List.flatten_cons, encoded, consumed]
          conv_lhs => rw [same, List.drop_left]
          exact same.symm

theorem rlpDecode_encode (item : RlpItem) (suffix : List Byte)
    (short : (item.encode ++ suffix).length < 2 ^ 64) :
    ∃ decoded, rlpDecode (item.encode ++ suffix) = .ok decoded ∧
      decoded.item = item ∧ decoded.consumed = item.encode.length :=
  rlpDecode_of_accepts (item.accepts_encode suffix short)

/-- Items are read back from their encodings, whatever follows, and nothing but an
encoding is read. -/
theorem rlp_bijective :
    (∀ (item : RlpItem) (suffix : List Byte), (item.encode ++ suffix).length < 2 ^ 64 →
      ∃ decoded, rlpDecode (item.encode ++ suffix) = .ok decoded ∧
        decoded.item = item ∧ decoded.consumed = item.encode.length) ∧
    ∀ input decoded, rlpDecode input = .ok decoded →
      input.take decoded.consumed = decoded.item.encode := by
  constructor
  · exact rlpDecode_encode
  · intro input decoded accepted
    obtain ⟨behind, same, consumed⟩ := (canonical input.length).1 input decoded le_rfl accepted
    rw [consumed]
    conv_lhs => rw [same, List.take_left]

theorem rlp_bijective_nested :
    ∃ decoded,
      rlpDecode ((RlpItem.list [.bytes [0x64, 0x6F, 0x67], .list []]).encode ++ [0]) =
        .ok decoded ∧
      decoded.item = .list [.bytes [0x64, 0x6F, 0x67], .list []] ∧
      decoded.consumed = (RlpItem.list [.bytes [0x64, 0x6F, 0x67], .list []]).encode.length :=
  rlp_bijective.1 _ [0] (by decide)

end Canonical

end MetaVm.Zkp
