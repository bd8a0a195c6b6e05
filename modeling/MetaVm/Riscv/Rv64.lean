import MetaVm.Lib.Numerals

namespace MetaVm.Riscv

/-! Register results as the interpreter computes them. -/

abbrev Word : Type := BitVec 64

namespace Rv64

/-- The low half, `as u32`. -/
abbrev low (a : Word) : BitVec 32 := a.setWidth 32

/-- A word sign extended, `as i32 as i64 as u64`. -/
abbrev sext32 (a : BitVec 32) : Word := a.signExtend 64

def shamt (b : Word) : ℕ := (b &&& 0x3F).toNat

def shamtW (b : Word) : ℕ := (b &&& 0x1F).toNat

def sll (a b : Word) : Word := a <<< shamt b

def srl (a b : Word) : Word := a >>> shamt b

def sra (a b : Word) : Word := a.sshiftRight (shamt b)

def slt (a b : Word) : Word := if a.slt b then 1 else 0

def sltu (a b : Word) : Word := if a < b then 1 else 0

/-! Multiplication and division. -/

def mulh (a b : Word) : Word :=
  ((a.signExtend 128 * b.signExtend 128).sshiftRight 64).setWidth 64

def mulhsu (a b : Word) : Word :=
  ((a.signExtend 128 * b.setWidth 128).sshiftRight 64).setWidth 64

def mulhu (a b : Word) : Word :=
  ((a.setWidth 128 * b.setWidth 128) >>> 64).setWidth 64

def div (a b : Word) : Word :=
  if b = 0 then BitVec.allOnes 64
  else if a = BitVec.intMin 64 ∧ b = -1 then a
  else a.sdiv b

def divu (a b : Word) : Word := if b = 0 then BitVec.allOnes 64 else a / b

def rem (a b : Word) : Word :=
  if b = 0 then a
  else if a = BitVec.intMin 64 ∧ b = -1 then 0
  else a.srem b

def remu (a b : Word) : Word := if b = 0 then a else a % b

/-! Word forms. -/

def addw (a b : Word) : Word := sext32 (low a + low b)

def subw (a b : Word) : Word := sext32 (low a - low b)

def sllw (a b : Word) : Word := sext32 (low a <<< shamtW b)

def srlw (a b : Word) : Word := sext32 (low a >>> shamtW b)

def sraw (a b : Word) : Word := sext32 ((low a).sshiftRight (shamtW b))

def mulw (a b : Word) : Word := sext32 (low a * low b)

def divw (a b : Word) : Word :=
  if low b = 0 then BitVec.allOnes 64
  else if low a = BitVec.intMin 32 ∧ low b = -1 then sext32 (low a)
  else sext32 ((low a).sdiv (low b))

def divuw (a b : Word) : Word :=
  if low b = 0 then BitVec.allOnes 64 else sext32 (low a / low b)

def remw (a b : Word) : Word :=
  if low b = 0 then sext32 (low a)
  else if low a = BitVec.intMin 32 ∧ low b = -1 then 0
  else sext32 ((low a).srem (low b))

def remuw (a b : Word) : Word :=
  if low b = 0 then sext32 (low a) else sext32 (low a % low b)

/-! How the word operations read as numbers. -/

theorem toNat_mulhu (a b : Word) :
    (mulhu a b).toNat = a.toNat * b.toNat / 2 ^ 64 := by
  have product : a.toNat * b.toNat < 2 ^ 128 :=
    calc a.toNat * b.toNat < 2 ^ 64 * 2 ^ 64 :=
          Nat.mul_lt_mul'' a.isLt b.isLt
      _ = 2 ^ 128 := by norm_num
  have a' : a.toNat < 2 ^ 128 := by omega
  have b' : b.toNat < 2 ^ 128 := by omega
  simp only [mulhu, BitVec.toNat_setWidth, BitVec.toNat_ushiftRight,
    BitVec.toNat_mul, Nat.mod_eq_of_lt a', Nat.mod_eq_of_lt b',
    Nat.mod_eq_of_lt product, Nat.shiftRight_eq_div_pow]
  omega

theorem toNat_divu {a b : Word} (nonzero : b ≠ 0) :
    (divu a b).toNat = a.toNat / b.toNat := by
  rw [divu, if_neg nonzero, BitVec.toNat_udiv]

theorem toNat_remu {a b : Word} : (remu a b).toNat = a.toNat % b.toNat := by
  rw [remu]
  split
  · subst b
    simp
  · exact BitVec.toNat_umod

theorem tdiv_eq_zero_iff {a b : ℤ} (nonzero : b ≠ 0) :
    a.tdiv b = 0 ↔ a.natAbs < b.natAbs := by
  have positive : 0 < b.natAbs := Int.natAbs_pos.2 nonzero
  rw [← Int.natAbs_eq_zero, Int.natAbs_tdiv]
  exact Nat.div_eq_zero_iff_lt positive

theorem tmod_eq_self_iff {a b : ℤ} (nonzero : b ≠ 0) :
    a.tmod b = a ↔ a.natAbs < b.natAbs := by
  have split := Int.mul_tdiv_add_tmod a b
  rw [← tdiv_eq_zero_iff nonzero]
  constructor
  · intro same
    have product : b * a.tdiv b = 0 := by omega
    exact (mul_eq_zero.1 product).resolve_left nonzero
  · intro zero
    rw [zero] at split
    omega

theorem div_eq_zero_iff {a b : Word} (nonzero : b ≠ 0) :
    div a b = 0 ↔ a.toInt.natAbs < b.toInt.natAbs := by
  have nonzeroInt : b.toInt ≠ 0 := by
    simpa [← BitVec.toInt_inj] using nonzero
  rw [div, if_neg nonzero]
  split
  · rename_i overflow
    obtain ⟨rfl, rfl⟩ := overflow
    decide
  · rename_i regular
    have quotient := BitVec.toInt_sdiv_of_ne_or_ne a b (by
      rw [← not_and_or]
      exact regular)
    rw [← BitVec.toInt_inj, quotient]
    exact tdiv_eq_zero_iff nonzeroInt

theorem rem_eq_self_iff {a b : Word} (nonzero : b ≠ 0) :
    rem a b = a ↔ a.toInt.natAbs < b.toInt.natAbs := by
  have nonzeroInt : b.toInt ≠ 0 := by
    simpa [← BitVec.toInt_inj] using nonzero
  rw [rem, if_neg nonzero]
  split
  · rename_i overflow
    obtain ⟨rfl, rfl⟩ := overflow
    decide
  · rw [← BitVec.toInt_inj, BitVec.toInt_srem]
    exact tmod_eq_self_iff nonzeroInt

end Rv64

end MetaVm.Riscv
