import MetaVm.Riscv.DecodeEncode

namespace MetaVm.Riscv

open BitFields Decode Encode

/-! Which words are the encoding of what they decode to. -/

/-! A word put together from its own fields. -/

section Slices

variable (w : BitVec 32)

theorem encodeR_slices :
    encodeR (opcode w) (rd w) (funct3 w) (rs1 w) (rs2 w) (funct7 w) = w := by
  apply BitVec.eq_of_getLsbD_eq
  intro index bounded
  simp only [encodeR, opcode_eq, rd_eq, funct3_eq, rs1_eq, rs2_eq, funct7_eq, BitVec.getLsbD_or,
    getLsbD_place_slice]
  cases w.getLsbD index with
  | false => simp
  | true =>
      simp
      omega

theorem encodeUpper_slices :
    encodeUpper (opcode w) (rd w) (funct3 w) (rs1 w) (slice 20 12 w) = w := by
  apply BitVec.eq_of_getLsbD_eq
  intro index bounded
  simp only [encodeUpper, opcode_eq, rd_eq, funct3_eq, rs1_eq, BitVec.getLsbD_or,
    getLsbD_place_slice]
  cases w.getLsbD index with
  | false => simp
  | true =>
      simp
      omega

theorem encodeI_slices : encodeI (opcode w) (rd w) (funct3 w) (rs1 w) (immI w) = w := by
  rw [encodeI, immI_eq, slice_signExtend _ (by decide) (by decide), slice_self,
    encodeUpper_slices]

theorem encodeS_slices : encodeS (opcode w) (funct3 w) (rs1 w) (rs2 w) (immS w) = w := by
  have upper : slice 5 7 (immS w) = slice 25 7 w := by
    rw [immS_eq, slice_signExtend _ (by decide) (by decide), slice_append_high _ _ (by decide),
      slice_self]
  have lower : slice 0 5 (immS w) = slice 7 5 w := by
    rw [immS_eq, slice_signExtend _ (by decide) (by decide), slice_append_low _ _ (by decide),
      slice_self]
  rw [encodeS, upper, lower]
  apply BitVec.eq_of_getLsbD_eq
  intro index bounded
  simp only [opcode_eq, funct3_eq, rs1_eq, rs2_eq, BitVec.getLsbD_or, getLsbD_place_slice]
  cases w.getLsbD index with
  | false => simp
  | true =>
      simp
      omega

theorem encodeB_slices : encodeB (opcode w) (funct3 w) (rs1 w) (rs2 w) (immB w) = w := by
  have parts : slice 12 1 (immB w) = slice 31 1 w ∧ slice 11 1 (immB w) = slice 7 1 w ∧
      slice 5 6 (immB w) = slice 25 6 w ∧ slice 1 4 (immB w) = slice 8 4 w := by
    rw [immB_eq]
    simp (disch := decide) only [slice_signExtend, slice_append_low, slice_append_high,
      slice_self, Nat.reduceSub, and_self]
  rw [encodeB, parts.1, parts.2.1, parts.2.2.1, parts.2.2.2]
  apply BitVec.eq_of_getLsbD_eq
  intro index bounded
  simp only [opcode_eq, funct3_eq, rs1_eq, rs2_eq, BitVec.getLsbD_or, getLsbD_place_slice]
  cases w.getLsbD index with
  | false => simp
  | true =>
      simp
      omega

theorem encodeU_slices : encodeU (opcode w) (rd w) (immU w) = w := by
  rw [encodeU, immU_eq, slice_append_high _ _ (by decide), slice_self]
  apply BitVec.eq_of_getLsbD_eq
  intro index bounded
  simp only [opcode_eq, rd_eq, BitVec.getLsbD_or, getLsbD_place_slice]
  cases w.getLsbD index with
  | false => simp
  | true =>
      simp
      omega

theorem encodeJ_slices : encodeJ (opcode w) (rd w) (immJ w) = w := by
  have parts : slice 20 1 (immJ w) = slice 31 1 w ∧ slice 12 8 (immJ w) = slice 12 8 w ∧
      slice 11 1 (immJ w) = slice 20 1 w ∧ slice 1 10 (immJ w) = slice 21 10 w := by
    rw [immJ_eq]
    simp (disch := decide) only [slice_signExtend, slice_append_low, slice_append_high,
      slice_self, Nat.reduceSub, and_self]
  rw [encodeJ, parts.1, parts.2.1, parts.2.2.1, parts.2.2.2]
  apply BitVec.eq_of_getLsbD_eq
  intro index bounded
  simp only [opcode_eq, rd_eq, BitVec.getLsbD_or, getLsbD_place_slice]
  cases w.getLsbD index with
  | false => simp
  | true =>
      simp
      omega

/-- The function code of an atomic operation. -/
def funct5 : BitVec 5 := slice 27 5 w

/-- A tested bit is the field of one bit. -/
theorem ofBool_test (start : ℕ) :
    BitVec.ofBool ((w >>> start) &&& 1 ≠ 0) = slice start 1 w := by
  obtain ⟨bit, field⟩ : ∃ bit, slice start 1 w = BitVec.ofBool bit := by
    generalize slice start 1 w = field
    revert field
    decide
  rw [test_of_slice field, field]

theorem encodeAmo_slices (isOpcode : opcode w = 0x2F) :
    encodeAmo (funct5 w) ((w >>> 26) &&& 1 ≠ 0) ((w >>> 25) &&& 1 ≠ 0) (rs2 w) (rs1 w) (funct3 w)
      (rd w) = w := by
  have code : 0x2F#7 = opcode w := isOpcode.symm
  rw [encodeAmo, ofBool_test, ofBool_test, code]
  apply BitVec.eq_of_getLsbD_eq
  intro index bounded
  simp only [funct5, opcode_eq, rd_eq, funct3_eq, rs1_eq, rs2_eq, BitVec.getLsbD_or,
    getLsbD_place_slice]
  cases w.getLsbD index with
  | false => simp
  | true =>
      simp
      omega

end Slices

/-! An encoding is a word when it has the word's fields. -/

section Fields

variable {w : BitVec 32} {op : BitVec 7} {d : Reg} {f3 : BitVec 3} {r1 r2 : Reg}

theorem encodeR_eq_iff {f7 : BitVec 7} :
    encodeR op d f3 r1 r2 f7 = w ↔
      opcode w = op ∧ rd w = d ∧ funct3 w = f3 ∧ rs1 w = r1 ∧ rs2 w = r2 ∧ funct7 w = f7 := by
  constructor
  · rintro rfl
    exact encodeR_fields op d f3 r1 r2 f7
  · rintro ⟨rfl, rfl, rfl, rfl, rfl, rfl⟩
    exact encodeR_slices w

theorem encodeUpper_eq_iff {field : BitVec 12} :
    encodeUpper op d f3 r1 field = w ↔
      opcode w = op ∧ rd w = d ∧ funct3 w = f3 ∧ rs1 w = r1 ∧ slice 20 12 w = field := by
  constructor
  · rintro rfl
    exact encodeUpper_fields op d f3 r1 field
  · rintro ⟨rfl, rfl, rfl, rfl, rfl⟩
    exact encodeUpper_slices w

theorem encodeAmo_eq_iff {code : BitVec 5} (isOpcode : opcode w = 0x2F) :
    encodeAmo code ((w >>> 26) &&& 1 ≠ 0) ((w >>> 25) &&& 1 ≠ 0) r2 r1 f3 d = w ↔
      rd w = d ∧ funct3 w = f3 ∧ rs1 w = r1 ∧ rs2 w = r2 ∧ funct5 w = code := by
  constructor
  · intro same
    obtain ⟨_, isRd, isFunct3, isRs1, isRs2, isFunct5, _⟩ := encodeAmo_fields d f3 r1 r2 code
      ((w >>> 26) &&& 1 ≠ 0) ((w >>> 25) &&& 1 ≠ 0)
    rw [same] at isRd isFunct3 isRs1 isRs2 isFunct5
    exact ⟨isRd, isFunct3, isRs1, isRs2, isFunct5⟩
  · rintro ⟨rfl, rfl, rfl, rfl, rfl⟩
    exact encodeAmo_slices w isOpcode

theorem slice_immI (mask : Imm) :
    slice 0 12 (immI w &&& mask) = slice 20 12 w &&& slice 0 12 mask := by
  rw [slice_and, immI_eq, slice_signExtend _ (by decide) (by decide), slice_self]

/-- A masked shift amount fills its field when nothing but the arithmetic flag stands above. -/
theorem amount_eq_iff :
    (slice 20 12 w = slice 0 12 (immI w &&& 0x3F) ↔ slice 26 6 w = 0) ∧
      (slice 20 12 w = slice 0 12 (arithmeticShift ||| (immI w &&& 0x3F)) ↔
        slice 26 6 w = 0x10) := by
  have field : slice 26 6 w ++ slice 20 6 w = slice 20 12 w := slice_append_slice 20 6 6 w
  have mask : slice 0 12 (0x3F : Imm) = 0#6 ++ BitVec.allOnes 6 := by decide
  have flag : slice 0 12 arithmeticShift = 0x10#6 ++ 0#6 := by decide
  rw [slice_or, slice_immI, mask, flag, ← field, BitVec.and_append, BitVec.or_append,
    BitVec.and_zero, BitVec.and_allOnes, BitVec.or_zero, BitVec.zero_or, BitVec.append_left_inj,
    BitVec.append_left_inj]
  exact ⟨Iff.rfl, Iff.rfl⟩

theorem amountW_eq_iff :
    (slice 20 12 w = slice 0 12 (immI w &&& 0x1F) ↔ funct7 w = 0) ∧
      (slice 20 12 w = slice 0 12 (arithmeticShift ||| (immI w &&& 0x1F)) ↔
        funct7 w = 0x20) := by
  have field : slice 25 7 w ++ slice 20 5 w = slice 20 12 w := slice_append_slice 20 5 7 w
  have mask : slice 0 12 (0x1F : Imm) = 0#7 ++ BitVec.allOnes 5 := by decide
  have flag : slice 0 12 arithmeticShift = 0x20#7 ++ 0#5 := by decide
  rw [slice_or, slice_immI, mask, flag, ← field, BitVec.and_append, BitVec.or_append,
    BitVec.and_zero, BitVec.and_allOnes, BitVec.or_zero, BitVec.zero_or, BitVec.append_left_inj,
    BitVec.append_left_inj]
  exact ⟨Iff.rfl, Iff.rfl⟩

end Fields

/-! What the decoder accepts, and from which fields. -/

/-- The instructions of the environment that have no operands, by the codes that are tested. -/
def environmentCodes : List ((BitVec 7 × Reg) × Instruction) :=
  [((0x00, 0), .ecall), ((0x00, 1), .ebreak), ((0x18, 2), .mret), ((0x08, 2), .sret),
    ((0x08, 5), .wfi)]

inductive Accepted (w : BitVec 32) : Instruction → Prop
  | lui (isOpcode : opcode w = 0x37) : Accepted w (.lui (rd w) (immU w))
  | auipc (isOpcode : opcode w = 0x17) : Accepted w (.auipc (rd w) (immU w))
  | jal (isOpcode : opcode w = 0x6F) : Accepted w (.jal (rd w) (immJ w))
  | jalr (isOpcode : opcode w = 0x67) (isFunct3 : funct3 w = 0) :
      Accepted w (.jalr (rd w) (rs1 w) (immI w))
  | branch (kind : BranchOp) (isOpcode : opcode w = 0x63) (isFunct3 : funct3 w = kind.funct3) :
      Accepted w (.branch kind (rs1 w) (rs2 w) (immB w))
  | load (kind : LoadOp) (isOpcode : opcode w = 0x03) (isFunct3 : funct3 w = kind.funct3) :
      Accepted w (.load kind (rd w) (rs1 w) (immI w))
  | store (kind : StoreOp) (isOpcode : opcode w = 0x23) (isFunct3 : funct3 w = kind.funct3) :
      Accepted w (.store kind (rs1 w) (rs2 w) (immS w))
  | opImm (kind : ImmOp) (isOpcode : opcode w = 0x13) (isFunct3 : funct3 w = kind.funct3)
      (noShift : kind.funct3 ≠ 1 ∧ kind.funct3 ≠ 5) :
      Accepted w (.opImm kind (rd w) (rs1 w) (immI w))
  | slli (isOpcode : opcode w = 0x13) (isFunct3 : funct3 w = 1) :
      Accepted w (.opImm .slli (rd w) (rs1 w) (immI w &&& 0x3F))
  | shiftRight (isOpcode : opcode w = 0x13) (isFunct3 : funct3 w = 5) :
      Accepted w (.opImm (if immI w &&& arithmeticShift ≠ 0 then .srai else .srli) (rd w) (rs1 w)
        (immI w &&& 0x3F))
  | op (kind : RegOp) (isOpcode : opcode w = 0x33) (isFunct3 : funct3 w = kind.functs.1)
      (isFunct7 : funct7 w = kind.functs.2) : Accepted w (.op kind (rd w) (rs1 w) (rs2 w))
  | opImmW (isOpcode : opcode w = 0x1B) (isFunct3 : funct3 w = 0) :
      Accepted w (.opImmW .addiw (rd w) (rs1 w) (immI w))
  | slliw (isOpcode : opcode w = 0x1B) (isFunct3 : funct3 w = 1) :
      Accepted w (.opImmW .slliw (rd w) (rs1 w) (immI w &&& 0x1F))
  | shiftRightW (isOpcode : opcode w = 0x1B) (isFunct3 : funct3 w = 5) :
      Accepted w (.opImmW (if immI w &&& arithmeticShift ≠ 0 then .sraiw else .srliw) (rd w)
        (rs1 w) (immI w &&& 0x1F))
  | opW (kind : RegWOp) (isOpcode : opcode w = 0x3B) (isFunct3 : funct3 w = kind.functs.1)
      (isFunct7 : funct7 w = kind.functs.2) : Accepted w (.opW kind (rd w) (rs1 w) (rs2 w))
  | mulDiv (kind : MulDivOp) (isOpcode : opcode w = kind.codes.1)
      (isFunct3 : funct3 w = kind.codes.2) (isFunct7 : funct7 w = 0x01) :
      Accepted w (.mulDiv kind (rd w) (rs1 w) (rs2 w))
  | environment (insn : Instruction) (isOpcode : opcode w = 0x73) (isFunct3 : funct3 w = 0)
      (codes : ((funct7 w, rs2 w), insn) ∈ environmentCodes) : Accepted w insn
  | sfenceVma (isOpcode : opcode w = 0x73) (isFunct3 : funct3 w = 0)
      (isFunct7 : funct7 w = 0x09) : Accepted w (.sfenceVma (rs1 w) (rs2 w))
  | csr (kind : CsrOp) (isOpcode : opcode w = 0x73) (isFunct3 : funct3 w = kind.funct3) :
      Accepted w (.csr kind (rd w) (rs1 w) (slice 20 12 w))
  | csrImm (kind : CsrOp) (isOpcode : opcode w = 0x73) (isFunct3 : funct3 w = kind.funct3Imm) :
      Accepted w (.csrImm kind (rd w) (rs1 w) (slice 20 12 w))
  | lr (width : AmoWidth) (isOpcode : opcode w = 0x2F) (isFunct3 : funct3 w = width.funct3)
      (isFunct5 : funct5 w = 0x02) :
      Accepted w (.lr width (rd w) (rs1 w) ((w >>> 26) &&& 1 ≠ 0) ((w >>> 25) &&& 1 ≠ 0))
  | sc (width : AmoWidth) (isOpcode : opcode w = 0x2F) (isFunct3 : funct3 w = width.funct3)
      (isFunct5 : funct5 w = 0x03) :
      Accepted w (.sc width (rd w) (rs1 w) (rs2 w) ((w >>> 26) &&& 1 ≠ 0)
        ((w >>> 25) &&& 1 ≠ 0))
  | amo (kind : AmoOp) (width : AmoWidth) (isOpcode : opcode w = 0x2F)
      (isFunct3 : funct3 w = width.funct3) (isFunct5 : funct5 w = kind.funct5) :
      Accepted w (.amo kind width (rd w) (rs1 w) (rs2 w) ((w >>> 26) &&& 1 ≠ 0)
        ((w >>> 25) &&& 1 ≠ 0))

section Inversion

variable {w : BitVec 32} {insn : Instruction}

theorem accepted_branch (isOpcode : opcode w = 0x63) (decoded : Decode.branch w = .ok insn) :
    Accepted w insn := by
  unfold Decode.branch at decoded
  dsimp only at decoded
  split at decoded
  all_goals cases decoded
  all_goals exact .branch _ isOpcode (by assumption)

theorem accepted_load (isOpcode : opcode w = 0x03) (decoded : Decode.load w = .ok insn) :
    Accepted w insn := by
  unfold Decode.load at decoded
  dsimp only at decoded
  split at decoded
  all_goals cases decoded
  all_goals exact .load _ isOpcode (by assumption)

theorem accepted_store (isOpcode : opcode w = 0x23) (decoded : Decode.store w = .ok insn) :
    Accepted w insn := by
  unfold Decode.store at decoded
  dsimp only at decoded
  split at decoded
  all_goals cases decoded
  all_goals exact .store _ isOpcode (by assumption)

theorem accepted_opImm (isOpcode : opcode w = 0x13) (decoded : decode w = .ok insn) :
    Accepted w insn := by
  have codes : ∀ code : BitVec 3, code = 1 ∨ code = 5 ∨
      ∃ kind ∈ [ImmOp.addi, .slti, .sltiu, .xori, .ori, .andi],
        code = kind.funct3 ∧ kind.funct3 ≠ 1 ∧ kind.funct3 ≠ 5 := by
    decide
  rcases codes (funct3 w) with left | right | ⟨kind, _, isFunct3, notLeft, notRight⟩
  · rw [decode_slli isOpcode left] at decoded
    cases decoded
    exact .slli isOpcode left
  · rw [decode_shiftRight isOpcode right] at decoded
    cases decoded
    exact .shiftRight isOpcode right
  · rw [decode_opImm isOpcode isFunct3 (by rintro rfl; exact notLeft rfl)
      (by rintro rfl; exact notRight rfl) (by rintro rfl; exact notRight rfl)] at decoded
    cases decoded
    exact .opImm kind isOpcode isFunct3 ⟨notLeft, notRight⟩

theorem accepted_opImmW (isOpcode : opcode w = 0x1B) (decoded : decode w = .ok insn) :
    Accepted w insn := by
  by_cases zero : funct3 w = 0
  · rw [decode_opImmW isOpcode (zero.trans rfl : _ = ImmWOp.addiw.funct3) (by decide) (by decide)
      (by decide)] at decoded
    cases decoded
    exact .opImmW isOpcode zero
  by_cases left : funct3 w = 1
  · rw [decode_slliw isOpcode left] at decoded
    cases decoded
    exact .slliw isOpcode left
  by_cases right : funct3 w = 5
  · rw [decode_shiftRightW isOpcode right] at decoded
    cases decoded
    exact .shiftRightW isOpcode right
  have unfolded : decode w = Decode.opImmW w := by
    rw [decode, isOpcode]
    rfl
  rw [unfolded, Decode.opImmW] at decoded
  dsimp only at decoded
  split at decoded
  · contradiction
  · contradiction
  · contradiction
  · cases decoded

theorem accepted_rType (isOpcode : opcode w = 0x33) (decoded : decode w = .ok insn) :
    Accepted w insn := by
  have unfolded : decode w = Decode.rType w := by
    rw [decode, isOpcode]
    rfl
  by_cases base : funct7 w = 0x00
  · have codes : ∀ code : BitVec 3,
        ∃ kind ∈ [RegOp.add, .sll, .slt, .sltu, .xor, .srl, .or, .and],
          kind.functs = (code, 0x00) := by
      decide
    obtain ⟨kind, _, functs⟩ := codes (funct3 w)
    have isFunct3 : funct3 w = kind.functs.1 := by rw [functs]
    have isFunct7 : funct7 w = kind.functs.2 := by rw [functs, base]
    rw [decode_op isOpcode isFunct3 isFunct7] at decoded
    cases decoded
    exact .op kind isOpcode isFunct3 isFunct7
  by_cases multiply : funct7 w = 0x01
  · have codes : ∀ code : BitVec 3,
        ∃ kind ∈ [MulDivOp.mul, .mulh, .mulhsu, .mulhu, .div, .divu, .rem, .remu],
          kind.codes = (0x33, code) := by
      decide
    obtain ⟨kind, _, codes⟩ := codes (funct3 w)
    have isCode : opcode w = kind.codes.1 := by rw [codes, isOpcode]
    have isFunct3 : funct3 w = kind.codes.2 := by rw [codes]
    rw [decode_mulDiv isCode isFunct3 multiply] at decoded
    cases decoded
    exact .mulDiv kind isCode isFunct3 multiply
  rw [unfolded, Decode.rType] at decoded
  dsimp only at decoded
  split at decoded
  · contradiction
  · split at decoded
    all_goals cases decoded
    all_goals exact .op _ isOpcode (by assumption) (by assumption)
  · contradiction
  · cases decoded

theorem accepted_r32Type (isOpcode : opcode w = 0x3B) (decoded : Decode.r32Type w = .ok insn) :
    Accepted w insn := by
  unfold Decode.r32Type at decoded
  dsimp only at decoded
  split at decoded
  · split at decoded
    all_goals cases decoded
    all_goals exact .opW _ isOpcode (by assumption) (by assumption)
  · split at decoded
    all_goals cases decoded
    all_goals exact .opW _ isOpcode (by assumption) (by assumption)
  · split at decoded
    all_goals cases decoded
    all_goals exact .mulDiv _ isOpcode (by assumption) (by assumption)
  · cases decoded

theorem accepted_system (isOpcode : opcode w = 0x73) (decoded : Decode.system w = .ok insn) :
    Accepted w insn := by
  unfold Decode.system at decoded
  dsimp only at decoded
  split at decoded
  · rename_i isFunct3
    split at decoded
    all_goals cases decoded
    case h_6 isFunct7 => exact .sfenceVma isOpcode isFunct3 isFunct7
    all_goals
      refine .environment _ isOpcode isFunct3 ?_
      simp_all [environmentCodes]
  all_goals cases decoded
  all_goals first
    | exact .csr _ isOpcode (by assumption)
    | exact .csrImm _ isOpcode (by assumption)

theorem accepted_amo (isOpcode : opcode w = 0x2F) (decoded : Decode.amo w = .ok insn) :
    Accepted w insn := by
  have widths {width : AmoWidth} (isFunct3 : funct3 w = width.funct3)
      (decoded : amoOf w width = .ok insn) : Accepted w insn := by
    unfold amoOf at decoded
    dsimp only at decoded
    split at decoded
    all_goals cases decoded
    all_goals first
      | exact .lr width isOpcode isFunct3 (by assumption)
      | exact .sc width isOpcode isFunct3 (by assumption)
      | exact .amo _ width isOpcode isFunct3 (by assumption)
  unfold Decode.amo at decoded
  split at decoded
  · exact widths (by assumption) decoded
  · exact widths (by assumption) decoded
  · cases decoded

theorem accepted_of_decode (notFence : opcode w ≠ 0x0F) (decoded : decode w = .ok insn) :
    Accepted w insn := by
  have whole := decoded
  unfold decode at decoded
  split at decoded
  · cases decoded
    exact .lui (by assumption)
  · cases decoded
    exact .auipc (by assumption)
  · cases decoded
    exact .jal (by assumption)
  · split at decoded
    · cases decoded
    · rename_i isOpcode zero
      cases decoded
      exact .jalr isOpcode (not_ne_iff.1 zero)
  · exact accepted_branch (by assumption) decoded
  · exact accepted_load (by assumption) decoded
  · exact accepted_store (by assumption) decoded
  · exact accepted_opImm (by assumption) whole
  · exact accepted_rType (by assumption) whole
  · exact accepted_opImmW (by assumption) whole
  · exact accepted_r32Type (by assumption) decoded
  · contradiction
  · exact accepted_system (by assumption) decoded
  · exact accepted_amo (by assumption) decoded
  · cases decoded

end Inversion

/-! The bits that the decoder reads over. -/

/-- The bits that an accepted word leaves open stand as in the standard encoding. -/
structure Canonical (w : BitVec 32) : Prop where
  leftShift : opcode w = 0x13 → funct3 w = 1 → slice 26 6 w = 0
  rightShift : opcode w = 0x13 → funct3 w = 5 → slice 26 6 w = 0 ∨ slice 26 6 w = 0x10
  leftShiftW : opcode w = 0x1B → funct3 w = 1 → funct7 w = 0
  rightShiftW : opcode w = 0x1B → funct3 w = 5 → funct7 w = 0 ∨ funct7 w = 0x20
  environment : opcode w = 0x73 → funct3 w = 0 →
    (funct7 w, rs2 w) ∈ environmentCodes.map Prod.fst → rd w = 0 ∧ rs1 w = 0
  supervisorFence : opcode w = 0x73 → funct3 w = 0 → funct7 w = 0x09 → rd w = 0
  loadReserved : opcode w = 0x2F → funct3 w = 2 ∨ funct3 w = 3 → funct5 w = 0x02 → rs2 w = 0

section Shifts

variable {w : BitVec 32}

theorem encode_slli_eq_iff (isOpcode : opcode w = 0x13) (isFunct3 : funct3 w = 1) :
    (Instruction.opImm .slli (rd w) (rs1 w) (immI w &&& 0x3F)).encode = w ↔
      slice 26 6 w = 0 := by
  rw [Instruction.encode, encodeI, encodeUpper_eq_iff, amount_eq_iff.1]
  · simp [isOpcode, isFunct3, ImmOp.funct3]
  all_goals rintro ⟨⟩

theorem encode_slliw_eq_iff (isOpcode : opcode w = 0x1B) (isFunct3 : funct3 w = 1) :
    (Instruction.opImmW .slliw (rd w) (rs1 w) (immI w &&& 0x1F)).encode = w ↔
      funct7 w = 0 := by
  rw [Instruction.encode, encodeI, encodeUpper_eq_iff, amountW_eq_iff.1]
  · simp [isOpcode, isFunct3, ImmWOp.funct3]
  all_goals rintro ⟨⟩

theorem arithmetic_bit (w : BitVec 32) :
    immI w &&& arithmeticShift ≠ 0 ↔ w.getLsbD 30 = true := by
  have fieldFlag : arithmeticShift = BitVec.twoPow 32 10 := by decide
  have bit : (immI w).getLsbD 10 = w.getLsbD 30 := by
    rw [immI, BitVec.getLsbD_sshiftRight]
    simp
  rw [fieldFlag, BitVec.and_twoPow, bit]
  cases w.getLsbD 30 <;> decide

theorem encode_shiftRight_eq_iff (isOpcode : opcode w = 0x13) (isFunct3 : funct3 w = 5) :
    (Instruction.opImm (if immI w &&& arithmeticShift ≠ 0 then .srai else .srli) (rd w) (rs1 w)
        (immI w &&& 0x3F)).encode = w ↔
      slice 26 6 w = 0 ∨ slice 26 6 w = 0x10 := by
  have marked : immI w &&& arithmeticShift ≠ 0 ↔ (slice 26 6 w).getLsbD 4 = true := by
    rw [arithmetic_bit, getLsbD_slice]
    rfl
  by_cases arithmetic : immI w &&& arithmeticShift ≠ 0
  · rw [if_pos arithmetic, Instruction.encode, encodeI, encodeUpper_eq_iff, amount_eq_iff.2]
    have set := marked.1 arithmetic
    have zero : slice 26 6 w ≠ 0 := by
      intro zero
      rw [zero] at set
      cases set
    simp [isOpcode, isFunct3, ImmOp.funct3]
    exact fun flag => absurd flag zero
  · rw [if_neg arithmetic, Instruction.encode, encodeI, encodeUpper_eq_iff, amount_eq_iff.1]
    · have unset : slice 26 6 w ≠ 0x10 := by
        intro flag
        rw [flag] at marked
        exact arithmetic (marked.2 rfl)
      simp [isOpcode, isFunct3, ImmOp.funct3]
      exact fun flag => absurd flag unset
    all_goals rintro ⟨⟩

theorem encode_shiftRightW_eq_iff (isOpcode : opcode w = 0x1B) (isFunct3 : funct3 w = 5) :
    (Instruction.opImmW (if immI w &&& arithmeticShift ≠ 0 then .sraiw else .srliw) (rd w)
        (rs1 w) (immI w &&& 0x1F)).encode = w ↔
      funct7 w = 0 ∨ funct7 w = 0x20 := by
  have marked : immI w &&& arithmeticShift ≠ 0 ↔ (funct7 w).getLsbD 5 = true := by
    rw [arithmetic_bit, funct7_eq, getLsbD_slice]
    rfl
  by_cases arithmetic : immI w &&& arithmeticShift ≠ 0
  · rw [if_pos arithmetic, Instruction.encode, encodeI, encodeUpper_eq_iff, amountW_eq_iff.2]
    have set := marked.1 arithmetic
    have zero : funct7 w ≠ 0 := by
      intro zero
      rw [zero] at set
      cases set
    simp [isOpcode, isFunct3, ImmWOp.funct3]
    exact fun flag => absurd flag zero
  · rw [if_neg arithmetic, Instruction.encode, encodeI, encodeUpper_eq_iff, amountW_eq_iff.1]
    · have unset : funct7 w ≠ 0x20 := by
        intro flag
        rw [flag] at marked
        exact arithmetic (marked.2 rfl)
      simp [isOpcode, isFunct3, ImmWOp.funct3]
      exact fun flag => absurd flag unset
    all_goals rintro ⟨⟩

end Shifts

section Roundtrip

variable {w : BitVec 32} {insn : Instruction}

theorem environment_encode {f7 : BitVec 7} {r2 : Reg}
    (codes : ((f7, r2), insn) ∈ environmentCodes) :
    insn.encode = encodeR 0x73 0 0 0 r2 f7 := by
  have all : ∀ entry ∈ environmentCodes,
      entry.2.encode = encodeR 0x73 0 0 0 entry.1.2 entry.1.1 := by
    decide
  exact all _ codes

theorem environment_encode_eq_iff (isOpcode : opcode w = 0x73) (isFunct3 : funct3 w = 0)
    (codes : ((funct7 w, rs2 w), insn) ∈ environmentCodes) :
    insn.encode = w ↔ rd w = 0 ∧ rs1 w = 0 := by
  rw [environment_encode codes, encodeR_eq_iff]
  simp [isOpcode, isFunct3]

theorem sfenceVma_encode_eq_iff (isOpcode : opcode w = 0x73) (isFunct3 : funct3 w = 0)
    (isFunct7 : funct7 w = 0x09) :
    (Instruction.sfenceVma (rs1 w) (rs2 w)).encode = w ↔ rd w = 0 := by
  rw [Instruction.encode, encodeR_eq_iff]
  simp [isOpcode, isFunct3, isFunct7]

theorem lr_encode_eq_iff {width : AmoWidth} (isOpcode : opcode w = 0x2F)
    (isFunct3 : funct3 w = width.funct3) (isFunct5 : funct5 w = 0x02) :
    (Instruction.lr width (rd w) (rs1 w) ((w >>> 26) &&& 1 ≠ 0) ((w >>> 25) &&& 1 ≠ 0)).encode =
        w ↔
      rs2 w = 0 := by
  rw [Instruction.encode, encodeAmo_eq_iff isOpcode]
  simp [isFunct3, isFunct5]

/-- An accepted word with canonical bits is the encoding of its instruction. -/
theorem encode_eq_of_canonical (accepted : Accepted w insn) (canonical : Canonical w) :
    insn.encode = w := by
  cases accepted with
  | lui isOpcode =>
      have whole := encodeU_slices w
      rwa [isOpcode] at whole
  | auipc isOpcode =>
      have whole := encodeU_slices w
      rwa [isOpcode] at whole
  | jal isOpcode =>
      have whole := encodeJ_slices w
      rwa [isOpcode] at whole
  | jalr isOpcode isFunct3 =>
      have whole := encodeI_slices w
      rwa [isOpcode, isFunct3] at whole
  | branch kind isOpcode isFunct3 =>
      have whole := encodeB_slices w
      rwa [isOpcode, isFunct3] at whole
  | load kind isOpcode isFunct3 =>
      have whole := encodeI_slices w
      rwa [isOpcode, isFunct3] at whole
  | store kind isOpcode isFunct3 =>
      have whole := encodeS_slices w
      rwa [isOpcode, isFunct3] at whole
  | opImm kind isOpcode isFunct3 noShift =>
      have whole := encodeI_slices w
      rw [isOpcode, isFunct3] at whole
      rw [Instruction.encode]
      · exact whole
      · rintro rfl
        exact noShift.2 rfl
  | slli isOpcode isFunct3 =>
      exact (encode_slli_eq_iff isOpcode isFunct3).2 (canonical.leftShift isOpcode isFunct3)
  | shiftRight isOpcode isFunct3 =>
      exact (encode_shiftRight_eq_iff isOpcode isFunct3).2
        (canonical.rightShift isOpcode isFunct3)
  | op kind isOpcode isFunct3 isFunct7 =>
      exact encodeR_eq_iff.2 ⟨isOpcode, rfl, isFunct3, rfl, rfl, isFunct7⟩
  | opImmW isOpcode isFunct3 =>
      have whole := encodeI_slices w
      rwa [isOpcode, isFunct3] at whole
  | slliw isOpcode isFunct3 =>
      exact (encode_slliw_eq_iff isOpcode isFunct3).2 (canonical.leftShiftW isOpcode isFunct3)
  | shiftRightW isOpcode isFunct3 =>
      exact (encode_shiftRightW_eq_iff isOpcode isFunct3).2
        (canonical.rightShiftW isOpcode isFunct3)
  | opW kind isOpcode isFunct3 isFunct7 =>
      exact encodeR_eq_iff.2 ⟨isOpcode, rfl, isFunct3, rfl, rfl, isFunct7⟩
  | mulDiv kind isOpcode isFunct3 isFunct7 =>
      exact encodeR_eq_iff.2 ⟨isOpcode, rfl, isFunct3, rfl, rfl, isFunct7⟩
  | environment insn isOpcode isFunct3 codes =>
      exact (environment_encode_eq_iff isOpcode isFunct3 codes).2
        (canonical.environment isOpcode isFunct3 (List.mem_map_of_mem codes))
  | sfenceVma isOpcode isFunct3 isFunct7 =>
      exact (sfenceVma_encode_eq_iff isOpcode isFunct3 isFunct7).2
        (canonical.supervisorFence isOpcode isFunct3 isFunct7)
  | csr kind isOpcode isFunct3 =>
      exact encodeUpper_eq_iff.2 ⟨isOpcode, rfl, isFunct3, rfl, rfl⟩
  | csrImm kind isOpcode isFunct3 =>
      exact encodeUpper_eq_iff.2 ⟨isOpcode, rfl, isFunct3, rfl, rfl⟩
  | lr width isOpcode isFunct3 isFunct5 =>
      refine (lr_encode_eq_iff isOpcode isFunct3 isFunct5).2
        (canonical.loadReserved isOpcode ?_ isFunct5)
      rw [isFunct3]
      cases width with
      | w => exact .inl rfl
      | d => exact .inr rfl
  | sc width isOpcode isFunct3 isFunct5 =>
      exact (encodeAmo_eq_iff isOpcode).2 ⟨rfl, isFunct3, rfl, rfl, isFunct5⟩
  | amo kind width isOpcode isFunct3 isFunct5 =>
      exact (encodeAmo_eq_iff isOpcode).2 ⟨rfl, isFunct3, rfl, rfl, isFunct5⟩

theorem decode_environment (isOpcode : opcode w = 0x73) (isFunct3 : funct3 w = 0)
    (codes : ((funct7 w, rs2 w), insn) ∈ environmentCodes) : decode w = .ok insn := by
  simp only [environmentCodes, List.mem_cons, List.not_mem_nil, or_false, Prod.mk.injEq] at codes
  rcases codes with ⟨⟨isFunct7, isRs2⟩, rfl⟩ | ⟨⟨isFunct7, isRs2⟩, rfl⟩ |
    ⟨⟨isFunct7, isRs2⟩, rfl⟩ | ⟨⟨isFunct7, isRs2⟩, rfl⟩ | ⟨⟨isFunct7, isRs2⟩, rfl⟩
  all_goals
    simp only [decode, isOpcode, system, isFunct3, isFunct7, isRs2]
    rfl

theorem decode_lr {width : AmoWidth} (isOpcode : opcode w = 0x2F)
    (isFunct3 : funct3 w = width.funct3) (isFunct5 : funct5 w = 0x02) :
    decode w = .ok (.lr width (rd w) (rs1 w) ((w >>> 26) &&& 1 ≠ 0) ((w >>> 25) &&& 1 ≠ 0)) := by
  have code : (w >>> 27).setWidth 5 = (0x02 : BitVec 5) := isFunct5
  rw [decode_atomic isOpcode isFunct3, amoOf]
  dsimp only
  rw [code]
  rfl

/-- A word that every decoding gives back has canonical bits. -/
theorem canonical_of_encode_eq (back : ∀ insn, decode w = .ok insn → insn.encode = w) :
    Canonical w where
  leftShift isOpcode isFunct3 :=
    (encode_slli_eq_iff isOpcode isFunct3).1 (back _ (decode_slli isOpcode isFunct3))
  rightShift isOpcode isFunct3 :=
    (encode_shiftRight_eq_iff isOpcode isFunct3).1 (back _ (decode_shiftRight isOpcode isFunct3))
  leftShiftW isOpcode isFunct3 :=
    (encode_slliw_eq_iff isOpcode isFunct3).1 (back _ (decode_slliw isOpcode isFunct3))
  rightShiftW isOpcode isFunct3 :=
    (encode_shiftRightW_eq_iff isOpcode isFunct3).1
      (back _ (decode_shiftRightW isOpcode isFunct3))
  environment isOpcode isFunct3 codes := by
    obtain ⟨⟨code, insn⟩, member, same⟩ := List.mem_map.1 codes
    obtain rfl : code = (funct7 w, rs2 w) := same
    exact (environment_encode_eq_iff isOpcode isFunct3 member).1
      (back _ (decode_environment isOpcode isFunct3 member))
  supervisorFence isOpcode isFunct3 isFunct7 := by
    refine (sfenceVma_encode_eq_iff isOpcode isFunct3 isFunct7).1 (back _ ?_)
    simp only [decode, isOpcode, system, isFunct3, isFunct7]
    rfl
  loadReserved isOpcode isFunct3 isFunct5 := by
    obtain ⟨width, isWidth⟩ : ∃ width : AmoWidth, funct3 w = width.funct3 := by
      rcases isFunct3 with two | three
      · exact ⟨.w, two⟩
      · exact ⟨.d, three⟩
    exact (lr_encode_eq_iff isOpcode isWidth isFunct5).1
      (back _ (decode_lr isOpcode isWidth isFunct5))

/-- An accepted word is the standard encoding of its instruction exactly when the bits that the
decoder reads over are canonical; among such words no two decode alike. -/
theorem decode_canonical_iff (w : BitVec 32) (notFence : opcode w ≠ 0x0F) :
    ((∀ insn, decode w = .ok insn → insn.encode = w) ↔ Canonical w) ∧
      ∀ other insn, opcode other ≠ 0x0F → Canonical w → Canonical other →
        decode w = .ok insn → decode other = .ok insn → w = other := by
  have back {v : BitVec 32} (notFence : opcode v ≠ 0x0F) (canonical : Canonical v) :
      ∀ insn, decode v = .ok insn → insn.encode = v := by
    intro insn decoded
    exact encode_eq_of_canonical (accepted_of_decode notFence decoded) canonical
  refine ⟨⟨canonical_of_encode_eq, back notFence⟩, ?_⟩
  intro other insn otherNotFence canonical otherCanonical decoded otherDecoded
  rw [← back notFence canonical insn decoded, back otherNotFence otherCanonical insn otherDecoded]

theorem canonical_srai : Canonical 0x40515093 := by
  constructor <;> decide

theorem canonical_lr : Canonical 0x100332AF := by
  constructor <;> decide

/-- `srai x1, x2, 5` is the only word for its instruction, and so is `lr.d x5, (x6)`. -/
theorem decode_canonical_srai_lr :
    (Instruction.opImm .srai 1 2 5).encode = 0x40515093 ∧
      ∀ other, opcode other ≠ 0x0F → Canonical other →
        decode other = .ok (.lr .d 5 6 false false) → 0x100332AF = other := by
  refine ⟨(decode_canonical_iff 0x40515093 (by decide)).1.2 canonical_srai _ (by decide), ?_⟩
  intro other notFence canonical decoded
  exact (decode_canonical_iff 0x100332AF (by decide)).2 other _ notFence canonical_lr canonical
    (by decide) decoded

/-- The upper bits of a left shift are ignored, and so are the registers of `ecall`. -/
theorem decode_reads_over :
    decode 0x80109093 = decode 0x00109093 ∧
      (∃ insn, decode 0x80109093 = .ok insn ∧ insn.encode ≠ 0x80109093) ∧
      decode 0x00000FF3 = .ok .ecall := by
  refine ⟨by decide, ⟨.opImm .slli 1 1 1, by decide, by decide⟩, by decide⟩

end Roundtrip

end MetaVm.Riscv
