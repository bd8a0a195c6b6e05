import Mathlib
import MetaVm.Riscv.Encode

namespace MetaVm.Riscv

open BitFields Decode Encode

/-! The fields that the decoder reads. -/

theorem opcode_eq (w : BitVec 32) : opcode w = slice 0 7 w := (slice_zero w).symm

theorem rd_eq (w : BitVec 32) : rd w = slice 7 5 w := rfl

theorem funct3_eq (w : BitVec 32) : funct3 w = slice 12 3 w := rfl

theorem rs1_eq (w : BitVec 32) : rs1 w = slice 15 5 w := rfl

theorem rs2_eq (w : BitVec 32) : rs2 w = slice 20 5 w := rfl

theorem funct7_eq (w : BitVec 32) : funct7 w = slice 25 7 w := rfl

/-! The immediates, as the fields they are read from. -/

section Immediates

variable (w : BitVec 32)

theorem immI_eq : immI w = (slice 20 12 w).signExtend 32 := by
  apply BitVec.eq_of_getLsbD_eq
  intro index bounded
  simp only [immI, BitVec.getLsbD_sshiftRight, BitVec.getLsbD_signExtend,
    BitVec.msb_eq_getLsbD_last, getLsbD_slice]
  interval_cases index <;> simp

theorem immS_eq : immS w = (slice 25 7 w ++ slice 7 5 w).signExtend 32 := by
  apply BitVec.eq_of_getLsbD_eq
  intro index bounded
  simp only [immS, BitVec.getLsbD_or, BitVec.getLsbD_and, BitVec.getLsbD_sshiftRight,
    BitVec.getLsbD_ushiftRight, BitVec.getLsbD_signExtend, BitVec.msb_eq_getLsbD_last,
    BitVec.getLsbD_append, getLsbD_slice]
  interval_cases index <;> simp

theorem immB_eq :
    immB w = (slice 31 1 w ++ slice 7 1 w ++ slice 25 6 w ++ slice 8 4 w ++ 0#1).signExtend 32 :=
    by
  apply BitVec.eq_of_getLsbD_eq
  intro index bounded
  simp only [immB, signExtend, BitVec.getLsbD_or, BitVec.getLsbD_and, BitVec.getLsbD_shiftLeft,
    BitVec.getLsbD_sshiftRight, BitVec.getLsbD_ushiftRight, BitVec.getLsbD_signExtend,
    BitVec.msb_eq_getLsbD_last, BitVec.getLsbD_append, getLsbD_slice]
  interval_cases index <;> simp

theorem immU_eq : immU w = slice 12 20 w ++ 0#12 := by
  apply BitVec.eq_of_getLsbD_eq
  intro index bounded
  simp only [immU, BitVec.getLsbD_and, BitVec.getLsbD_append, getLsbD_slice]
  interval_cases index <;> simp

theorem immJ_eq :
    immJ w = (slice 31 1 w ++ slice 12 8 w ++ slice 20 1 w ++ slice 21 10 w ++ 0#1).signExtend
      32 := by
  apply BitVec.eq_of_getLsbD_eq
  intro index bounded
  simp only [immJ, signExtend, BitVec.getLsbD_or, BitVec.getLsbD_and, BitVec.getLsbD_shiftLeft,
    BitVec.getLsbD_sshiftRight, BitVec.getLsbD_ushiftRight, BitVec.getLsbD_signExtend,
    BitVec.msb_eq_getLsbD_last, BitVec.getLsbD_append, getLsbD_slice]
  interval_cases index <;> simp

end Immediates

/-! An immediate is its low bits. -/

namespace Imm

variable {imm : Imm} {bits : ℕ}

theorem Fits.signExtend (fits : imm.Fits bits) (positive : 0 < bits) (bounded : bits ≤ 32) :
    (slice 0 bits imm).signExtend 32 = imm := by
  apply BitVec.eq_of_toInt_eq
  obtain ⟨low, high⟩ := fits
  have double : (2 : ℤ) ^ bits = 2 * 2 ^ (bits - 1) := by
    rw [← pow_succ', Nat.sub_add_cancel positive]
  have sameLow : (imm.toNat : ℤ).bmod (2 ^ bits) = imm.toInt.bmod (2 ^ bits) := by
    rw [BitVec.toInt_eq_toNat_bmod]
    exact (Int.bmod_bmod_of_dvd (Nat.pow_dvd_pow 2 bounded)).symm
  rw [BitVec.toInt_signExtend_of_le bounded, slice_zero, BitVec.toInt_setWidth, sameLow]
  apply Int.bmod_eq_of_le
  · push_cast
    omega
  · push_cast
    omega

/-- The low bits of a multiple are zero. -/
theorem slice_of_dvd (aligned : 2 ^ bits ∣ imm.toInt) (bounded : bits ≤ 32) :
    slice 0 bits imm = BitVec.ofNat bits 0 := by
  apply BitVec.eq_of_toNat_eq
  have whole : (2 : ℤ) ^ bits ∣ 2 ^ 32 := pow_dvd_pow 2 bounded
  have natural : (2 : ℤ) ^ bits ∣ imm.toNat := by
    have value := BitVec.toInt_eq_toNat_cond imm
    split at value
    · rwa [value] at aligned
    · have sum : (imm.toNat : ℤ) = imm.toInt + 2 ^ 32 := by
        rw [value]
        push_cast
        ring
      rw [sum]
      exact Int.dvd_add aligned whole
  rw [slice_zero, BitVec.toNat_setWidth, BitVec.toNat_zero]
  exact Nat.mod_eq_zero_of_dvd (by exact_mod_cast natural)

theorem upper_append (aligned : 2 ^ 12 ∣ imm.toInt) : slice 12 20 imm ++ 0#12 = imm := by
  rw [← slice_of_dvd aligned (by decide)]
  refine (slice_append_slice 0 12 20 imm).trans ?_
  rw [slice_zero]
  exact BitVec.setWidth_eq imm

theorem branch_append (aligned : 2 ∣ imm.toInt) :
    slice 12 1 imm ++ slice 11 1 imm ++ slice 5 6 imm ++ slice 1 4 imm ++ 0#1 =
      slice 0 13 imm := by
  have top : slice 12 1 imm ++ slice 11 1 imm = slice 11 2 imm := slice_append_slice 11 1 1 imm
  have middle : slice 11 2 imm ++ slice 5 6 imm = slice 5 8 imm := slice_append_slice 5 6 2 imm
  have bottom : slice 5 8 imm ++ slice 1 4 imm = slice 1 12 imm := slice_append_slice 1 4 8 imm
  rw [top, middle, bottom, ← slice_of_dvd ((pow_one (2 : ℤ)).symm ▸ aligned) (by decide)]
  exact slice_append_slice 0 1 12 imm

theorem jump_append (aligned : 2 ∣ imm.toInt) :
    slice 20 1 imm ++ slice 12 8 imm ++ slice 11 1 imm ++ slice 1 10 imm ++ 0#1 =
      slice 0 21 imm := by
  have top : slice 20 1 imm ++ slice 12 8 imm = slice 12 9 imm := slice_append_slice 12 8 1 imm
  have middle : slice 12 9 imm ++ slice 11 1 imm = slice 11 10 imm :=
    slice_append_slice 11 1 9 imm
  have bottom : slice 11 10 imm ++ slice 1 10 imm = slice 1 20 imm :=
    slice_append_slice 1 10 10 imm
  rw [top, middle, bottom, ← slice_of_dvd ((pow_one (2 : ℤ)).symm ▸ aligned) (by decide)]
  exact slice_append_slice 0 1 20 imm

end Imm

/-! What stands in them after each format's encoder. -/

section Formats

variable (op : BitVec 7) (d : Reg) (f3 : BitVec 3) (r1 r2 : Reg) {imm : Imm}

theorem encodeR_fields (f7 : BitVec 7) :
    let w := encodeR op d f3 r1 r2 f7
    opcode w = op ∧ rd w = d ∧ funct3 w = f3 ∧ rs1 w = r1 ∧ rs2 w = r2 ∧ funct7 w = f7 := by
  simp [opcode_eq, rd_eq, funct3_eq, rs1_eq, rs2_eq, funct7_eq, encodeR]

theorem encodeUpper_fields (field : BitVec 12) :
    let w := encodeUpper op d f3 r1 field
    opcode w = op ∧ rd w = d ∧ funct3 w = f3 ∧ rs1 w = r1 ∧ slice 20 12 w = field := by
  simp [opcode_eq, rd_eq, funct3_eq, rs1_eq, encodeUpper]

theorem encodeI_fields (fits : imm.Fits 12) :
    let w := encodeI op d f3 r1 imm
    opcode w = op ∧ rd w = d ∧ funct3 w = f3 ∧ rs1 w = r1 ∧ immI w = imm := by
  obtain ⟨isOpcode, isRd, isFunct3, isRs1, isField⟩ :=
    encodeUpper_fields op d f3 r1 (slice 0 12 imm)
  refine ⟨isOpcode, isRd, isFunct3, isRs1, ?_⟩
  rw [immI_eq, encodeI, isField]
  exact fits.signExtend (by decide) (by decide)

theorem encodeCsr_fields (csr : CsrAddr) :
    let w := encodeCsr d f3 r1 csr
    opcode w = 0x73 ∧ rd w = d ∧ funct3 w = f3 ∧ rs1 w = r1 ∧ (w >>> 20).setWidth 12 = csr :=
  encodeUpper_fields 0x73 d f3 r1 csr

theorem encodeS_fields (fits : imm.Fits 12) :
    let w := encodeS op f3 r1 r2 imm
    opcode w = op ∧ funct3 w = f3 ∧ rs1 w = r1 ∧ rs2 w = r2 ∧ immS w = imm := by
  have joined : slice 5 7 imm ++ slice 0 5 imm = slice 0 12 imm := slice_append_slice 0 5 7 imm
  have value := fits.signExtend (by decide) (by decide)
  rw [← joined] at value
  simpa [opcode_eq, funct3_eq, rs1_eq, rs2_eq, immS_eq, encodeS] using value

theorem encodeB_fields (fits : imm.Fits 13) (aligned : 2 ∣ imm.toInt) :
    let w := encodeB op f3 r1 r2 imm
    opcode w = op ∧ funct3 w = f3 ∧ rs1 w = r1 ∧ rs2 w = r2 ∧ immB w = imm := by
  have value := fits.signExtend (by decide) (by decide)
  rw [← Imm.branch_append aligned] at value
  simpa [opcode_eq, funct3_eq, rs1_eq, rs2_eq, immB_eq, encodeB] using value

theorem encodeU_fields (aligned : 2 ^ 12 ∣ imm.toInt) :
    let w := encodeU op d imm
    opcode w = op ∧ rd w = d ∧ immU w = imm := by
  have value := Imm.upper_append aligned
  simpa [opcode_eq, rd_eq, immU_eq, encodeU] using value

theorem encodeJ_fields (fits : imm.Fits 21) (aligned : 2 ∣ imm.toInt) :
    let w := encodeJ op d imm
    opcode w = op ∧ rd w = d ∧ immJ w = imm := by
  have value := fits.signExtend (by decide) (by decide)
  rw [← Imm.jump_append aligned] at value
  simpa [opcode_eq, rd_eq, immJ_eq, encodeJ] using value

/-- A field of one bit, tested. -/
theorem test_of_slice {w : BitVec 32} {start : ℕ} {bit : Bool}
    (field : slice start 1 w = BitVec.ofBool bit) : decide ((w >>> start) &&& 1 ≠ 0) = bit := by
  have isBit : (w >>> start).getLsbD 0 = bit := by
    have read := congrArg (fun field => BitVec.getLsbD field 0) field
    rw [getLsbD_slice] at read
    rw [BitVec.getLsbD_ushiftRight]
    simpa using read
  have masked : (w >>> start) &&& 1 = (BitVec.ofBool ((w >>> start).getLsbD 0)).setWidth 32 :=
    BitVec.and_one_eq_setWidth_ofBool_getLsbD
  rw [masked, isBit]
  cases bit <;> decide

theorem encodeAmo_fields (funct5 : BitVec 5) (aq rl : Bool) :
    let w := encodeAmo funct5 aq rl r2 r1 f3 d
    opcode w = 0x2F ∧ rd w = d ∧ funct3 w = f3 ∧ rs1 w = r1 ∧ rs2 w = r2 ∧
      (w >>> 27).setWidth 5 = funct5 ∧ decide ((w >>> 26) &&& 1 ≠ 0) = aq ∧
      decide ((w >>> 25) &&& 1 ≠ 0) = rl := by
  have code : ∀ w : BitVec 32, (w >>> 27).setWidth 5 = slice 27 5 w := fun _ => rfl
  refine ⟨?_, ?_, ?_, ?_, ?_, ?_, test_of_slice ?_, test_of_slice ?_⟩ <;>
    simp [opcode_eq, rd_eq, funct3_eq, rs1_eq, rs2_eq, code, encodeAmo]

theorem encodeFence_fields (pred succ : BitVec 4) :
    let w := encodeFence pred succ
    opcode w = 0x0F ∧ funct3 w = 0 ∧ (w >>> 24).setWidth 4 = pred ∧
      (w >>> 20).setWidth 4 = succ := by
  have field : ∀ (w : BitVec 32) (start : ℕ), (w >>> start).setWidth 4 = slice start 4 w :=
    fun _ _ => rfl
  simp [opcode_eq, funct3_eq, field, encodeFence]

end Formats

/-! One lemma a decoder. -/

section Decoders

variable {w : BitVec 32} {d r1 r2 : Reg} {imm : Imm}

theorem decode_branch {kind : BranchOp} (isOpcode : opcode w = 0x63)
    (isFunct3 : funct3 w = kind.funct3) :
    decode w = .ok (.branch kind (rs1 w) (rs2 w) (immB w)) := by
  simp only [decode, isOpcode, branch, isFunct3]
  cases kind <;> rfl

theorem decode_load {kind : LoadOp} (isOpcode : opcode w = 0x03)
    (isFunct3 : funct3 w = kind.funct3) :
    decode w = .ok (.load kind (rd w) (rs1 w) (immI w)) := by
  simp only [decode, isOpcode, load, isFunct3]
  cases kind <;> rfl

theorem decode_store {kind : StoreOp} (isOpcode : opcode w = 0x23)
    (isFunct3 : funct3 w = kind.funct3) :
    decode w = .ok (.store kind (rs1 w) (rs2 w) (immS w)) := by
  simp only [decode, isOpcode, store, isFunct3]
  cases kind <;> rfl

theorem decode_op {kind : RegOp} (isOpcode : opcode w = 0x33)
    (isFunct3 : funct3 w = kind.functs.1) (isFunct7 : funct7 w = kind.functs.2) :
    decode w = .ok (.op kind (rd w) (rs1 w) (rs2 w)) := by
  simp only [decode, isOpcode, rType, isFunct3, isFunct7]
  cases kind <;> rfl

theorem decode_opW {kind : RegWOp} (isOpcode : opcode w = 0x3B)
    (isFunct3 : funct3 w = kind.functs.1) (isFunct7 : funct7 w = kind.functs.2) :
    decode w = .ok (.opW kind (rd w) (rs1 w) (rs2 w)) := by
  simp only [decode, isOpcode, r32Type, isFunct3, isFunct7]
  cases kind <;> rfl

theorem decode_mulDiv {kind : MulDivOp} (isOpcode : opcode w = kind.codes.1)
    (isFunct3 : funct3 w = kind.codes.2) (isFunct7 : funct7 w = 0x01) :
    decode w = .ok (.mulDiv kind (rd w) (rs1 w) (rs2 w)) := by
  simp only [decode, isOpcode, rType, r32Type, isFunct3, isFunct7]
  cases kind <;> rfl

theorem decode_csr {kind : CsrOp} (isOpcode : opcode w = 0x73)
    (isFunct3 : funct3 w = kind.funct3) :
    decode w = .ok (.csr kind (rd w) (rs1 w) ((w >>> 20).setWidth 12)) := by
  simp only [decode, isOpcode, system, isFunct3]
  cases kind <;> rfl

theorem decode_csrImm {kind : CsrOp} (isOpcode : opcode w = 0x73)
    (isFunct3 : funct3 w = kind.funct3Imm) :
    decode w = .ok (.csrImm kind (rd w) (rs1 w) ((w >>> 20).setWidth 12)) := by
  simp only [decode, isOpcode, system, isFunct3]
  cases kind <;> rfl

theorem decode_atomic {width : AmoWidth} (isOpcode : opcode w = 0x2F)
    (isFunct3 : funct3 w = width.funct3) : decode w = amoOf w width := by
  simp only [decode, isOpcode, Decode.amo, isFunct3]
  cases width <;> rfl

theorem decode_amo {kind : AmoOp} {width : AmoWidth} {aq rl : Bool} (isOpcode : opcode w = 0x2F)
    (isFunct3 : funct3 w = width.funct3) (isFunct5 : (w >>> 27).setWidth 5 = kind.funct5)
    (isAq : decide ((w >>> 26) &&& 1 ≠ 0) = aq) (isRl : decide ((w >>> 25) &&& 1 ≠ 0) = rl) :
    decode w = .ok (.amo kind width (rd w) (rs1 w) (rs2 w) aq rl) := by
  rw [decode_atomic isOpcode isFunct3, amoOf, isAq, isRl]
  dsimp only
  rw [isFunct5]
  cases kind <;> rfl

end Decoders

/-! Shifts: the amount stands under the bit that makes a right shift arithmetic. -/

section Shifts

variable {w : BitVec 32} {imm : Imm}

theorem arithmetic_iff (w : BitVec 32) :
    w &&& (1 <<< 30) ≠ 0 ↔ immI w &&& arithmeticShift ≠ 0 := by
  have bit : (immI w).getLsbD 10 = w.getLsbD 30 := by
    rw [immI, BitVec.getLsbD_sshiftRight]
    simp
  have wordFlag : BitVec.ofNat 32 (1 <<< 30) = BitVec.twoPow 32 30 := by decide
  have fieldFlag : arithmeticShift = BitVec.twoPow 32 10 := by decide
  change w &&& BitVec.ofNat 32 (1 <<< 30) ≠ 0 ↔ _
  rw [wordFlag, fieldFlag, BitVec.and_twoPow, BitVec.and_twoPow, bit]
  cases w.getLsbD 30 <;> decide

theorem decode_opImm {kind : ImmOp} (isOpcode : opcode w = 0x13)
    (isFunct3 : funct3 w = kind.funct3) (notLeft : kind ≠ .slli) (notLogical : kind ≠ .srli)
    (notArithmetic : kind ≠ .srai) :
    decode w = .ok (.opImm kind (rd w) (rs1 w) (immI w)) := by
  simp only [decode, isOpcode, opImm, isFunct3]
  cases kind <;> first | rfl | contradiction

theorem decode_slli (isOpcode : opcode w = 0x13) (isFunct3 : funct3 w = ImmOp.slli.funct3) :
    decode w = .ok (.opImm .slli (rd w) (rs1 w) (immI w &&& 0x3F)) := by
  simp only [decode, isOpcode, opImm, isFunct3]
  rfl

theorem decode_shiftRight (isOpcode : opcode w = 0x13) (isFunct3 : funct3 w = 5) :
    decode w = .ok (.opImm (if immI w &&& arithmeticShift ≠ 0 then .srai else .srli) (rd w)
      (rs1 w) (immI w &&& 0x3F)) := by
  have shape : decode w = if w &&& (1 <<< 30) ≠ 0 then
      .ok (.opImm .srai (rd w) (rs1 w) (immI w &&& 0x3F))
      else .ok (.opImm .srli (rd w) (rs1 w) (immI w &&& 0x3F)) := by
    simp only [decode, isOpcode, opImm, isFunct3]
    rfl
  rw [shape]
  by_cases marked : immI w &&& arithmeticShift ≠ 0
  · rw [if_pos marked, if_pos ((arithmetic_iff w).2 marked)]
  · rw [if_neg marked, if_neg (mt (arithmetic_iff w).1 marked)]

theorem decode_opImmW {kind : ImmWOp} (isOpcode : opcode w = 0x1B)
    (isFunct3 : funct3 w = kind.funct3) (notLeft : kind ≠ .slliw) (notLogical : kind ≠ .srliw)
    (notArithmetic : kind ≠ .sraiw) :
    decode w = .ok (.opImmW kind (rd w) (rs1 w) (immI w)) := by
  simp only [decode, isOpcode, opImmW, isFunct3]
  cases kind <;> first | rfl | contradiction

theorem decode_slliw (isOpcode : opcode w = 0x1B) (isFunct3 : funct3 w = ImmWOp.slliw.funct3) :
    decode w = .ok (.opImmW .slliw (rd w) (rs1 w) (immI w &&& 0x1F)) := by
  simp only [decode, isOpcode, opImmW, isFunct3]
  rfl

theorem decode_shiftRightW (isOpcode : opcode w = 0x1B) (isFunct3 : funct3 w = 5) :
    decode w = .ok (.opImmW (if immI w &&& arithmeticShift ≠ 0 then .sraiw else .srliw) (rd w)
      (rs1 w) (immI w &&& 0x1F)) := by
  have shape : decode w = if w &&& (1 <<< 30) ≠ 0 then
      .ok (.opImmW .sraiw (rd w) (rs1 w) (immI w &&& 0x1F))
      else .ok (.opImmW .srliw (rd w) (rs1 w) (immI w &&& 0x1F)) := by
    simp only [decode, isOpcode, opImmW, isFunct3]
    rfl
  rw [shape]
  by_cases marked : immI w &&& arithmeticShift ≠ 0
  · rw [if_pos marked, if_pos ((arithmetic_iff w).2 marked)]
  · rw [if_neg marked, if_neg (mt (arithmetic_iff w).1 marked)]

/-- The amount of a shift comes back from a field, with or without the bit above it. -/
structure HoldsAmount (imm field mask : Imm) (arithmetic : Bool) : Prop where
  fits : field.Fits 12
  amount : field &&& mask = imm
  isArithmetic : (field &&& arithmeticShift ≠ 0) ↔ arithmetic = true

theorem amounts (amount : BitVec 6) (mask : Imm)
    (covers : mask = 0x3F ∨ mask = 0x1F ∧ amount.toNat < 32) :
    let imm : Imm := amount.setWidth 32
    HoldsAmount imm imm mask false ∧ HoldsAmount imm (arithmeticShift ||| imm) mask true := by
  have facts : ∀ amount : BitVec 6,
      let imm : Imm := amount.setWidth 32
      ((imm &&& 0x3F = imm ∧ (arithmeticShift ||| imm) &&& 0x3F = imm) ∧
        (amount.toNat < 32 → imm &&& 0x1F = imm ∧ (arithmeticShift ||| imm) &&& 0x1F = imm)) ∧
      (0 ≤ imm.toInt ∧ imm.toInt < 64) ∧
      (0 ≤ (arithmeticShift ||| imm).toInt ∧ (arithmeticShift ||| imm).toInt < 2048) ∧
      imm &&& arithmeticShift = 0 ∧ (arithmeticShift ||| imm) &&& arithmeticShift ≠ 0 := by
    decide
  obtain ⟨⟨six, five⟩, plain, marked, clear, set⟩ := facts amount
  have masked : (amount.setWidth 32 &&& mask = amount.setWidth 32) ∧
      (arithmeticShift ||| amount.setWidth 32) &&& mask = amount.setWidth 32 := by
    rcases covers with rfl | ⟨rfl, short⟩
    · exact six
    · exact five short
  refine ⟨⟨⟨?_, ?_⟩, masked.1, ?_⟩, ⟨⟨?_, ?_⟩, masked.2, ?_⟩⟩
  · exact le_trans (by decide) plain.1
  · exact lt_of_lt_of_le plain.2 (by decide)
  · exact iff_of_false (fun differs => differs clear) Bool.false_ne_true
  · exact le_trans (by decide) marked.1
  · exact marked.2
  · exact iff_of_true set rfl

theorem holdsAmount {bits : ℕ} {mask : Imm} (low : 0 ≤ imm.toInt) (high : imm.toInt < 2 ^ bits)
    (covers : bits = 6 ∧ mask = 0x3F ∨ bits = 5 ∧ mask = 0x1F) :
    HoldsAmount imm imm mask false ∧ HoldsAmount imm (arithmeticShift ||| imm) mask true := by
  have natural : (imm.toNat : ℤ) = imm.toInt := by
    have value := BitVec.toInt_eq_toNat_cond imm
    have bounded := imm.isLt
    split at value <;> omega
  have short : imm.toNat < 64 ∧ (bits = 5 → imm.toNat < 32) := by
    rcases covers with ⟨rfl, -⟩ | ⟨rfl, -⟩ <;> omega
  have value : (imm.setWidth 6).toNat = imm.toNat := by
    rw [BitVec.toNat_setWidth]
    exact Nat.mod_eq_of_lt short.1
  have whole : (imm.setWidth 6).setWidth 32 = imm := by
    apply BitVec.eq_of_toNat_eq
    rw [BitVec.toNat_setWidth, value]
    exact Nat.mod_eq_of_lt imm.isLt
  have held := amounts (imm.setWidth 6) mask (by
    rw [value]
    rcases covers with ⟨-, isMask⟩ | ⟨isFive, isMask⟩
    · exact .inl isMask
    · exact .inr ⟨isMask, short.2 isFive⟩)
  rwa [whole] at held

end Shifts

theorem decode_opImm_encode (kind : ImmOp) (d r1 : Reg) (imm : Imm)
    (inRange : (Instruction.opImm kind d r1 imm).InRange) :
    decode (Instruction.opImm kind d r1 imm).encode = .ok (.opImm kind d r1 imm) := by
  cases kind with
  | slli =>
      obtain ⟨⟨fits, amount, -⟩, -⟩ := holdsAmount inRange.1 inRange.2 (.inl ⟨rfl, rfl⟩)
      obtain ⟨isOpcode, isRd, isFunct3, isRs1, isImm⟩ :=
        encodeI_fields 0x13 d ImmOp.slli.funct3 r1 fits
      rw [Instruction.encode, decode_slli isOpcode isFunct3, isRd, isRs1, isImm, amount]
      · decide
  | srli =>
      obtain ⟨⟨fits, amount, marked⟩, -⟩ := holdsAmount inRange.1 inRange.2 (.inl ⟨rfl, rfl⟩)
      obtain ⟨isOpcode, isRd, isFunct3, isRs1, isImm⟩ :=
        encodeI_fields 0x13 d ImmOp.srli.funct3 r1 fits
      rw [Instruction.encode, decode_shiftRight isOpcode isFunct3, isRd, isRs1, isImm, amount,
        if_neg (mt marked.1 Bool.false_ne_true)]
      · decide
  | srai =>
      obtain ⟨-, fits, amount, marked⟩ := holdsAmount inRange.1 inRange.2 (.inl ⟨rfl, rfl⟩)
      obtain ⟨isOpcode, isRd, isFunct3, isRs1, isImm⟩ :=
        encodeI_fields 0x13 d ImmOp.srai.funct3 r1 fits
      rw [Instruction.encode, decode_shiftRight isOpcode isFunct3, isRd, isRs1, isImm, amount,
        if_pos (marked.2 rfl)]
  | addi | slti | sltiu | xori | ori | andi =>
      obtain ⟨isOpcode, isRd, isFunct3, isRs1, isImm⟩ := encodeI_fields 0x13 d _ r1 inRange
      rw [Instruction.encode, decode_opImm isOpcode isFunct3 (by decide) (by decide) (by decide),
        isRd, isRs1, isImm]
      · decide

theorem decode_opImmW_encode (kind : ImmWOp) (d r1 : Reg) (imm : Imm)
    (inRange : (Instruction.opImmW kind d r1 imm).InRange) :
    decode (Instruction.opImmW kind d r1 imm).encode = .ok (.opImmW kind d r1 imm) := by
  cases kind with
  | slliw =>
      obtain ⟨⟨fits, amount, -⟩, -⟩ := holdsAmount inRange.1 inRange.2 (.inr ⟨rfl, rfl⟩)
      obtain ⟨isOpcode, isRd, isFunct3, isRs1, isImm⟩ :=
        encodeI_fields 0x1B d ImmWOp.slliw.funct3 r1 fits
      rw [Instruction.encode, decode_slliw isOpcode isFunct3, isRd, isRs1, isImm, amount]
      · decide
  | srliw =>
      obtain ⟨⟨fits, amount, marked⟩, -⟩ := holdsAmount inRange.1 inRange.2 (.inr ⟨rfl, rfl⟩)
      obtain ⟨isOpcode, isRd, isFunct3, isRs1, isImm⟩ :=
        encodeI_fields 0x1B d ImmWOp.srliw.funct3 r1 fits
      rw [Instruction.encode, decode_shiftRightW isOpcode isFunct3, isRd, isRs1, isImm, amount,
        if_neg (mt marked.1 Bool.false_ne_true)]
      · decide
  | sraiw =>
      obtain ⟨-, fits, amount, marked⟩ := holdsAmount inRange.1 inRange.2 (.inr ⟨rfl, rfl⟩)
      obtain ⟨isOpcode, isRd, isFunct3, isRs1, isImm⟩ :=
        encodeI_fields 0x1B d ImmWOp.sraiw.funct3 r1 fits
      rw [Instruction.encode, decode_shiftRightW isOpcode isFunct3, isRd, isRs1, isImm, amount,
        if_pos (marked.2 rfl)]
  | addiw =>
      obtain ⟨isOpcode, isRd, isFunct3, isRs1, isImm⟩ := encodeI_fields 0x1B d _ r1 inRange
      rw [Instruction.encode, decode_opImmW isOpcode isFunct3 (by decide) (by decide) (by decide),
        isRd, isRs1, isImm]
      · decide

/-- Decoding the standard encoding of an instruction gives the instruction back. -/
theorem decode_encode (insn : Instruction) (inRange : insn.InRange) :
    decode insn.encode = .ok insn := by
  cases insn with
  | lui d imm =>
      obtain ⟨isOpcode, isRd, isImm⟩ := encodeU_fields 0x37 d inRange
      simp only [Instruction.encode, decode, isOpcode, isRd, isImm]
      rfl
  | auipc d imm =>
      obtain ⟨isOpcode, isRd, isImm⟩ := encodeU_fields 0x17 d inRange
      simp only [Instruction.encode, decode, isOpcode, isRd, isImm]
      rfl
  | jal d imm =>
      obtain ⟨isOpcode, isRd, isImm⟩ := encodeJ_fields 0x6F d inRange.1 inRange.2
      simp only [Instruction.encode, decode, isOpcode, isRd, isImm]
      rfl
  | jalr d r1 imm =>
      obtain ⟨isOpcode, isRd, isFunct3, isRs1, isImm⟩ := encodeI_fields 0x67 d 0 r1 inRange
      simp only [Instruction.encode, decode, isOpcode, isRd, isFunct3, isRs1, isImm]
      rfl
  | branch kind r1 r2 imm =>
      obtain ⟨isOpcode, isFunct3, isRs1, isRs2, isImm⟩ :=
        encodeB_fields 0x63 kind.funct3 r1 r2 inRange.1 inRange.2
      rw [Instruction.encode, decode_branch isOpcode isFunct3, isRs1, isRs2, isImm]
  | load kind d r1 imm =>
      obtain ⟨isOpcode, isRd, isFunct3, isRs1, isImm⟩ :=
        encodeI_fields 0x03 d kind.funct3 r1 inRange
      rw [Instruction.encode, decode_load isOpcode isFunct3, isRd, isRs1, isImm]
  | store kind r1 r2 imm =>
      obtain ⟨isOpcode, isFunct3, isRs1, isRs2, isImm⟩ :=
        encodeS_fields 0x23 kind.funct3 r1 r2 inRange
      rw [Instruction.encode, decode_store isOpcode isFunct3, isRs1, isRs2, isImm]
  | opImm kind d r1 imm => exact decode_opImm_encode kind d r1 imm inRange
  | op kind d r1 r2 =>
      obtain ⟨isOpcode, isRd, isFunct3, isRs1, isRs2, isFunct7⟩ :=
        encodeR_fields 0x33 d kind.functs.1 r1 r2 kind.functs.2
      rw [Instruction.encode, decode_op isOpcode isFunct3 isFunct7, isRd, isRs1, isRs2]
  | opImmW kind d r1 imm => exact decode_opImmW_encode kind d r1 imm inRange
  | opW kind d r1 r2 =>
      obtain ⟨isOpcode, isRd, isFunct3, isRs1, isRs2, isFunct7⟩ :=
        encodeR_fields 0x3B d kind.functs.1 r1 r2 kind.functs.2
      rw [Instruction.encode, decode_opW isOpcode isFunct3 isFunct7, isRd, isRs1, isRs2]
  | mulDiv kind d r1 r2 =>
      obtain ⟨isOpcode, isRd, isFunct3, isRs1, isRs2, isFunct7⟩ :=
        encodeR_fields kind.codes.1 d kind.codes.2 r1 r2 0x01
      rw [Instruction.encode, decode_mulDiv isOpcode isFunct3 isFunct7, isRd, isRs1, isRs2]
  | fence pred succ =>
      obtain ⟨isOpcode, isFunct3, isPred, isSucc⟩ := encodeFence_fields pred succ
      simp only [Instruction.encode, decode, isOpcode, fence, isFunct3, isPred, isSucc]
      rfl
  | fenceI => decide
  | ecall => decide
  | ebreak => decide
  | csr kind d r1 csrAddr =>
      obtain ⟨isOpcode, isRd, isFunct3, isRs1, isCsr⟩ := encodeCsr_fields d kind.funct3 r1 csrAddr
      rw [Instruction.encode, decode_csr isOpcode isFunct3, isRd, isRs1, isCsr]
  | csrImm kind d uimm csrAddr =>
      obtain ⟨isOpcode, isRd, isFunct3, isRs1, isCsr⟩ :=
        encodeCsr_fields d kind.funct3Imm uimm csrAddr
      rw [Instruction.encode, decode_csrImm isOpcode isFunct3, isRd, isRs1, isCsr]
  | mret => decide
  | sret => decide
  | wfi => decide
  | sfenceVma r1 r2 =>
      obtain ⟨isOpcode, isRd, isFunct3, isRs1, isRs2, isFunct7⟩ :=
        encodeR_fields 0x73 0 0 r1 r2 0x09
      simp only [Instruction.encode, decode, isOpcode, system, isFunct3, isFunct7, isRs1, isRs2]
      rfl
  | lr width d r1 aq rl =>
      obtain ⟨isOpcode, isRd, isFunct3, isRs1, isRs2, isFunct5, isAq, isRl⟩ :=
        encodeAmo_fields d width.funct3 r1 0 0x02 aq rl
      rw [Instruction.encode, decode_atomic isOpcode isFunct3, amoOf, isAq, isRl, isRd, isRs1]
      dsimp only
      rw [isFunct5]
      rfl
  | sc width d r1 r2 aq rl =>
      obtain ⟨isOpcode, isRd, isFunct3, isRs1, isRs2, isFunct5, isAq, isRl⟩ :=
        encodeAmo_fields d width.funct3 r1 r2 0x03 aq rl
      rw [Instruction.encode, decode_atomic isOpcode isFunct3, amoOf, isAq, isRl, isRd, isRs1,
        isRs2]
      dsimp only
      rw [isFunct5]
      rfl
  | amo kind width d r1 r2 aq rl =>
      obtain ⟨isOpcode, isRd, isFunct3, isRs1, isRs2, isFunct5, isAq, isRl⟩ :=
        encodeAmo_fields d width.funct3 r1 r2 kind.funct5 aq rl
      rw [Instruction.encode, decode_amo isOpcode isFunct3 isFunct5 isAq isRl, isRd, isRs1, isRs2]

theorem decode_encode_backwardBranch :
    (Instruction.branch .bgeu 5 31 (-4096)).InRange ∧
      decode (Instruction.branch .bgeu 5 31 (-4096)).encode =
        .ok (.branch .bgeu 5 31 (-4096)) := by
  have inRange : (Instruction.branch .bgeu 5 31 (-4096)).InRange :=
    ⟨⟨by decide, by decide⟩, by decide⟩
  exact ⟨inRange, decode_encode _ inRange⟩

end MetaVm.Riscv
