import Mathlib
import MetaVm.Lib.Dft
import MetaVm.Zkp.Field

namespace MetaVm.Zkp

open Dft

/-! The in-place radix-2 transform over the BLS12-381 scalars. An array is the
function of its contents; entries past its length are never read. -/

def maxLogDomain : ℕ := 32

/-- A primitive root of unity of order `2 ^ 32`. -/
def rootTwoPow32 : Fr :=
  0x16a2a19edfe81f20d09b681922c813b4b63683508c2280b93829971f439f0d2b

/-- Fails where the source asserts on the domain size. -/
def rootOfUnity (logN : ℕ) : Option Fr :=
  if logN ≤ maxLogDomain then
    some ((fun omega : Fr => omega * omega)^[maxLogDomain - logN] rootTwoPow32)
  else
    none

def frPowLoop (result base : Fr) (exponent : ℕ) : Fr :=
  if exponent = 0 then result
  else
    frPowLoop (if exponent % 2 = 1 then result * base else result)
      (base * base) (exponent / 2)
termination_by exponent
decreasing_by omega

def frPow (base : Fr) (exponent : ℕ) : Fr := frPowLoop 1 base exponent

/-- One increment of the bit-reversed counter: clear set bits from the top
down and set the first clear one. -/
def reverseIncrement (counter bit : ℕ) : ℕ :=
  if counter &&& bit ≠ 0 then reverseIncrement (counter ^^^ bit) (bit / 2)
  else counter ^^^ bit
termination_by bit
decreasing_by
  rename_i set
  have : bit ≠ 0 := by
    rintro rfl
    exact set (Nat.and_zero _)
  omega

def swap (vals : ℕ → Fr) (i j : ℕ) : ℕ → Fr :=
  fun index => vals (Equiv.swap i j index)

def bitReversalPass (n : ℕ) (vals : ℕ → Fr) : ℕ → ℕ × (ℕ → Fr)
  | 0 => (0, vals)
  | i + 1 =>
      let (counter, vals) := bitReversalPass n vals i
      let counter := reverseIncrement counter (n / 2)
      (counter, if i + 1 < counter then swap vals (i + 1) counter else vals)

def bitReversalPermutation (n : ℕ) (vals : ℕ → Fr) : ℕ → Fr :=
  (bitReversalPass n vals (n - 1)).2

/-- The butterflies of one block, with the running power of the twiddle. -/
def butterflyBlock (half offset : ℕ) (wLen : Fr) (vals : ℕ → Fr) :
    ℕ → (ℕ → Fr) × Fr
  | 0 => (vals, 1)
  | j + 1 =>
      let (vals, w) := butterflyBlock half offset wLen vals j
      let u := vals (offset + j)
      let v := vals (offset + j + half) * w
      (Function.update (Function.update vals (offset + j) (u + v))
        (offset + j + half) (u - v), w * wLen)

def butterflyStage (half : ℕ) (wLen : Fr) (vals : ℕ → Fr) : ℕ → (ℕ → Fr)
  | 0 => vals
  | block + 1 =>
      (butterflyBlock half (block * (2 * half)) wLen
        (butterflyStage half wLen vals block) half).1

def butterflyStages (logN : ℕ) (omega : Fr) (vals : ℕ → Fr) : ℕ → (ℕ → Fr)
  | 0 => vals
  | stage + 1 =>
      let half := 2 ^ stage
      let len := 2 * half
      butterflyStage half (frPow omega (2 ^ logN / len))
        (butterflyStages logN omega vals stage) (2 ^ logN / len)

/-- The transform of an array of length `2 ^ logN`. -/
def fftInPlace (logN : ℕ) (vals : ℕ → Fr) (inverse : Bool) :
    Option (ℕ → Fr) :=
  if logN = 0 then some vals
  else do
    let omega ← rootOfUnity logN
    let omega := if inverse then omega⁻¹ else omega
    let vals := bitReversalPermutation (2 ^ logN) vals
    let vals := butterflyStages logN omega vals logN
    if inverse then
      let nInv := ((2 ^ logN : ℕ) : Fr)⁻¹
      return fun index => vals index * nInv
    else
      return vals

/-! The loops refine the transform of the library. -/

theorem frPowLoop_eq (result base : Fr) (exponent : ℕ) :
    frPowLoop result base exponent = result * base ^ exponent := by
  induction exponent using Nat.strong_induction_on generalizing result base with
  | _ exponent ih =>
      rw [frPowLoop]
      split
      · next zero => simp [zero]
      · next nonzero =>
          rw [ih (exponent / 2) (by omega), ← pow_two, ← pow_mul]
          have parity := Nat.div_add_mod exponent 2
          split
          · next odd =>
              rw [odd] at parity
              nth_rewrite 2 [← parity]
              rw [pow_succ']
              ring
          · next even =>
              have even' : exponent % 2 = 0 := by omega
              rw [even', Nat.add_zero] at parity
              rw [parity]

theorem frPow_eq (base : Fr) (exponent : ℕ) :
    frPow base exponent = base ^ exponent := by
  rw [frPow, frPowLoop_eq, one_mul]

theorem reverseIncrement_bitReverse (width index : ℕ)
    (room : index + 1 < 2 ^ (width + 1)) :
    reverseIncrement (bitReverse (width + 1) index) (2 ^ width) =
      bitReverse (width + 1) (index + 1) := by
  induction width generalizing index with
  | zero =>
      have zero : index = 0 := by omega
      subst zero
      rw [reverseIncrement]
      simp [bitReverse]
  | succ width ih =>
      have small := bitReverse_lt (width + 1) (index / 2)
      rw [reverseIncrement, Nat.and_two_pow]
      rcases Nat.even_or_odd' index with ⟨half, rfl | rfl⟩
      · rw [bitReverse_double, bitReverse_double_succ,
          Nat.testBit_lt_two_pow (bitReverse_lt _ _)]
        simp [xor_two_pow (bitReverse_lt (width + 1) half)]
      · rw [show 2 * half + 1 + 1 = 2 * (half + 1) by ring, bitReverse_double,
          bitReverse_double_succ, ← xor_two_pow (bitReverse_lt (width + 1) half),
          Nat.xor_assoc, Nat.xor_self, Nat.xor_zero, if_pos, pow_succ,
          Nat.mul_div_cancel _ (by omega)]
        · exact ih half (by rw [pow_succ] at room; omega)
        · rw [xor_two_pow (bitReverse_lt (width + 1) half),
            Nat.testBit_two_pow_add_eq, Nat.testBit_lt_two_pow (bitReverse_lt _ _)]
          simp

theorem bitReversalPass_spec (width : ℕ) (vals : ℕ → Fr) (step : ℕ)
    (inside : step < 2 ^ (width + 1)) :
    (bitReversalPass (2 ^ (width + 1)) vals step).1 =
        bitReverse (width + 1) step ∧
      ∀ index < 2 ^ (width + 1),
        (bitReversalPass (2 ^ (width + 1)) vals step).2 index =
          vals (if min index (bitReverse (width + 1) index) ≤ step then
            bitReverse (width + 1) index else index) := by
  induction step with
  | zero =>
      refine ⟨by simp [bitReversalPass], fun index indexLt => ?_⟩
      have involution := bitReverse_bitReverse (width + 1) index indexLt
      simp only [bitReversalPass]
      split
      · next least =>
          have : index = 0 ∨ bitReverse (width + 1) index = 0 := by omega
          rcases this with zero | zero
          · simp [zero]
          · rw [zero, bitReverse_zero] at involution
            simp [← involution]
      · rfl
  | succ step ih =>
      obtain ⟨counterEq, valsEq⟩ := ih (by omega)
      have halved : 2 ^ (width + 1) / 2 = 2 ^ width := by
        rw [pow_succ, Nat.mul_div_cancel _ (by omega)]
      have counterEq' :
          reverseIncrement (bitReversalPass (2 ^ (width + 1)) vals step).1
            (2 ^ (width + 1) / 2) = bitReverse (width + 1) (step + 1) := by
        rw [counterEq, halved, reverseIncrement_bitReverse width step inside]
      have involution := bitReverse_bitReverse (width + 1) (step + 1) inside
      have reverseLt := bitReverse_lt (width + 1) (step + 1)
      refine ⟨counterEq', fun index indexLt => ?_⟩
      have indexInvolution := bitReverse_bitReverse (width + 1) index indexLt
      simp only [bitReversalPass, counterEq']
      by_cases least : step + 1 < bitReverse (width + 1) (step + 1)
      · rw [if_pos least, swap]
        by_cases atStep : index = step + 1
        · subst atStep
          rw [Equiv.swap_apply_left, valsEq _ reverseLt, involution,
            if_neg (by omega), if_pos (by omega)]
        · by_cases atCounter : index = bitReverse (width + 1) (step + 1)
          · rw [atCounter, Equiv.swap_apply_right, valsEq _ inside, involution,
              if_neg (by omega), if_pos (by omega)]
          · have away : bitReverse (width + 1) index ≠ step + 1 := by
              intro equal
              rw [equal] at indexInvolution
              exact atCounter indexInvolution.symm
            rw [Equiv.swap_apply_of_ne_of_ne atStep atCounter, valsEq _ indexLt]
            congr 1
            exact if_congr (by omega) rfl rfl
      · rw [if_neg least, valsEq _ indexLt]
        by_cases atStep : index = step + 1
        · subst atStep
          by_cases fixed : bitReverse (width + 1) (step + 1) = step + 1
          · simp [fixed]
          · rw [if_pos (by omega), if_pos (by omega)]
        · by_cases reversed : bitReverse (width + 1) index = step + 1
          · rw [reversed] at indexInvolution
            rw [if_pos (by omega), if_pos (by omega)]
          · congr 1
            exact if_congr (by omega) rfl rfl

theorem bitReversalPermutation_eq (width : ℕ) (vals : ℕ → Fr) {index : ℕ}
    (indexLt : index < 2 ^ (width + 1)) :
    bitReversalPermutation (2 ^ (width + 1)) vals index =
      vals (bitReverse (width + 1) index) := by
  have positive : 0 < 2 ^ (width + 1) := by positivity
  have spec := (bitReversalPass_spec width vals (2 ^ (width + 1) - 1)
    (by omega)).2 index indexLt
  rw [bitReversalPermutation, spec, if_pos (by omega)]

theorem butterflyBlock_spec (half offset : ℕ) (wLen : Fr) (vals : ℕ → Fr)
    (count : ℕ) (inside : count ≤ half) :
    (butterflyBlock half offset wLen vals count).2 = wLen ^ count ∧
      ∀ index, (butterflyBlock half offset wLen vals count).1 index =
        if offset ≤ index ∧ index < offset + count then
          vals index + vals (index + half) * wLen ^ (index - offset)
        else if offset + half ≤ index ∧ index < offset + half + count then
          vals (index - half) - vals index * wLen ^ (index - half - offset)
        else vals index := by
  induction count with
  | zero =>
      refine ⟨by simp [butterflyBlock], fun index => ?_⟩
      rw [if_neg (by omega), if_neg (by omega)]
      rfl
  | succ count ih =>
      obtain ⟨twiddle, valsEq⟩ := ih (by omega)
      refine ⟨by simp [butterflyBlock, twiddle, pow_succ], fun index => ?_⟩
      have low : (butterflyBlock half offset wLen vals count).1 (offset + count) =
          vals (offset + count) := by
        rw [valsEq, if_neg (by omega), if_neg (by omega)]
      have high : (butterflyBlock half offset wLen vals count).1
          (offset + count + half) = vals (offset + count + half) := by
        rw [valsEq, if_neg (by omega), if_neg (by omega)]
      simp only [butterflyBlock, twiddle, low, high]
      by_cases atHigh : index = offset + count + half
      · subst atHigh
        rw [Function.update_self, if_neg (by omega), if_pos (by omega),
          Nat.add_sub_cancel, Nat.add_sub_cancel_left]
      · rw [Function.update_of_ne atHigh]
        by_cases atLow : index = offset + count
        · subst atLow
          rw [Function.update_self, if_pos (by omega), Nat.add_sub_cancel_left]
        · rw [Function.update_of_ne atLow, valsEq]
          refine if_congr (by omega) rfl (if_congr (by omega) rfl rfl)

/-- What one stage writes at an index, from the values before it. -/
def stageValue (half : ℕ) (wLen : Fr) (vals : ℕ → Fr) (index : ℕ) : Fr :=
  if index % (2 * half) < half then
    vals index + vals (index + half) * wLen ^ (index % (2 * half))
  else
    vals (index - half) - vals index * wLen ^ (index % (2 * half) - half)

theorem butterflyStage_spec {half : ℕ} (positive : 0 < half) (wLen : Fr)
    (vals : ℕ → Fr) (blocks index : ℕ) :
    butterflyStage half wLen vals blocks index =
      if index < blocks * (2 * half) then stageValue half wLen vals index
      else vals index := by
  induction blocks generalizing index with
  | zero => simp [butterflyStage]
  | succ blocks ih =>
      rw [butterflyStage, (butterflyBlock_spec half (blocks * (2 * half)) wLen _
        half le_rfl).2 index]
      rw [show (blocks + 1) * (2 * half) = blocks * (2 * half) + 2 * half by ring]
      by_cases before : index < blocks * (2 * half)
      · rw [if_neg (by omega), if_neg (by omega), ih, if_pos before,
          if_pos (by omega)]
      · obtain ⟨inner, rfl⟩ : ∃ inner, index = blocks * (2 * half) + inner :=
          ⟨index - blocks * (2 * half), by omega⟩
        by_cases low : inner < half
        · have residue : (blocks * (2 * half) + inner) % (2 * half) = inner := by
            rw [Nat.mul_add_mod_self_right, Nat.mod_eq_of_lt (by omega)]
          rw [if_pos (by omega), if_pos (by omega), ih, ih, if_neg (by omega),
            if_neg (by omega), stageValue, residue, if_pos low,
            Nat.add_sub_cancel_left]
        · by_cases high : inner < 2 * half
          · have residue : (blocks * (2 * half) + inner) % (2 * half) = inner := by
              rw [Nat.mul_add_mod_self_right, Nat.mod_eq_of_lt high]
            rw [if_neg (by omega), if_pos (by omega), if_pos (by omega), ih, ih,
              if_neg (by omega), if_neg (by omega), stageValue, residue,
              if_neg low, show blocks * (2 * half) + inner - half -
                blocks * (2 * half) = inner - half by omega]
          · rw [if_neg (by omega), if_neg (by omega), ih, if_neg (by omega),
              if_neg (by omega)]

/-- After a stage every block holds the transform of the inputs whose
bit-reversed positions it covers. -/
theorem butterflyStages_spec {width : ℕ} {omega : Fr} {source vals : ℕ → Fr}
    (minus : omega ^ 2 ^ width = -1)
    (reversed : ∀ index < 2 ^ (width + 1),
      vals index = source (bitReverse (width + 1) index))
    (stage : ℕ) (inside : stage ≤ width + 1) (block : ℕ)
    (blockLt : block < 2 ^ (width + 1 - stage)) (index : ℕ)
    (indexLt : index < 2 ^ stage) :
    butterflyStages (width + 1) omega vals stage (block * 2 ^ stage + index) =
      dft (omega ^ 2 ^ (width + 1 - stage)) (2 ^ stage)
        (fun position => source (bitReverse (width + 1 - stage) block +
          position * 2 ^ (width + 1 - stage))) index := by
  induction stage generalizing block index with
  | zero =>
      have zero : index = 0 := by omega
      subst zero
      simp [butterflyStages, dft, reversed block blockLt]
  | succ stage ih =>
      obtain ⟨rest, restEq⟩ : ∃ rest, width + 1 - stage = rest + 1 :=
        ⟨width - stage, by omega⟩
      have restEq' : width + 1 - (stage + 1) = rest := by omega
      have blocks : 2 ^ (width + 1) / (2 * 2 ^ stage) = 2 ^ rest := by
        rw [← pow_succ', Nat.pow_div (by omega) (by omega), restEq']
      have positive : 0 < 2 ^ stage := by positivity
      have total : block * 2 ^ (stage + 1) + index < 2 ^ rest * (2 * 2 ^ stage) := by
        rw [restEq'] at blockLt
        rw [pow_succ] at indexLt
        have := Nat.mul_le_mul_right (2 * 2 ^ stage) (Nat.succ_le_of_lt blockLt)
        rw [Nat.succ_mul] at this
        rw [pow_succ]
        nlinarith
      have root : (omega ^ 2 ^ rest) ^ 2 = omega ^ 2 ^ (rest + 1) := by
        rw [← pow_mul, pow_succ]
      have halfRoot : (omega ^ 2 ^ rest) ^ 2 ^ stage = -1 := by
        rw [← pow_mul, ← pow_add, show rest + stage = width by omega, minus]
      rw [restEq] at ih
      have even := fun index indexLt => ih (by omega) (2 * block)
        (by rw [restEq'] at blockLt; rw [pow_succ]; omega) index indexLt
      have odd := fun index indexLt => ih (by omega) (2 * block + 1)
        (by rw [restEq'] at blockLt; rw [pow_succ]; omega) index indexLt
      simp only [bitReverse_double, bitReverse_double_succ, ← root] at even odd
      rw [restEq', butterflyStages]
      simp only [blocks, frPow_eq]
      rw [butterflyStage_spec positive, if_pos total, stageValue]
      have residue : (block * 2 ^ (stage + 1) + index) % (2 * 2 ^ stage) = index := by
        rw [← pow_succ', Nat.mul_add_mod_self_right, Nat.mod_eq_of_lt indexLt]
      rw [residue]
      rw [show 2 ^ (stage + 1) = 2 * 2 ^ stage from pow_succ' 2 stage] at indexLt ⊢
      split
      · next low =>
          rw [show block * (2 * 2 ^ stage) + index + 2 ^ stage =
            (2 * block + 1) * 2 ^ stage + index by ring,
            show block * (2 * 2 ^ stage) + index =
            2 * block * 2 ^ stage + index by ring, even index low, odd index low,
            dft_double, mul_comm _ ((omega ^ 2 ^ rest) ^ index)]
          congr 3
          · funext position
            congr 1
            ring
          · funext position
            congr 1
            ring
      · next high =>
          obtain ⟨inner, rfl⟩ : ∃ inner, index = inner + 2 ^ stage :=
            ⟨index - 2 ^ stage, by omega⟩
          have innerLt : inner < 2 ^ stage := by omega
          rw [show block * (2 * 2 ^ stage) + (inner + 2 ^ stage) - 2 ^ stage =
            2 * block * 2 ^ stage + inner by rw [← Nat.add_assoc, Nat.add_sub_cancel]; ring,
            show block * (2 * 2 ^ stage) + (inner + 2 ^ stage) =
            (2 * block + 1) * 2 ^ stage + inner by ring, Nat.add_sub_cancel,
            even inner innerLt, odd inner innerLt, dft_double_half _ _ halfRoot,
            mul_comm _ ((omega ^ 2 ^ rest) ^ inner)]
          congr 3
          · funext position
            congr 1
            ring
          · funext position
            congr 1
            ring

theorem rootTwoPow32_primitive : IsPrimitiveRoot rootTwoPow32 (2 ^ 32) := by
  have half : rootTwoPow32 ^ 2 ^ 31 = -1 := by
    unfold rootTwoPow32 Fr bls12381Order
    norm_num1
    reduce_mod_char
  have minusNe : (-1 : Fr) ≠ 1 := by
    have : Fact (2 < bls12381Order) := ⟨by norm_num [bls12381Order]⟩
    exact ZMod.neg_one_ne_one
  have order : orderOf rootTwoPow32 = 2 ^ (31 + 1) := by
    refine orderOf_eq_prime_pow (by rw [half]; exact minusNe) ?_
    rw [pow_succ, pow_mul, half, neg_one_sq]
  rw [← order]
  exact IsPrimitiveRoot.orderOf rootTwoPow32

theorem iterate_square (omega : Fr) (count : ℕ) :
    (fun omega : Fr => omega * omega)^[count] omega = omega ^ 2 ^ count := by
  induction count with
  | zero => simp
  | succ count ih =>
      rw [Function.iterate_succ_apply', ih, ← pow_two, ← pow_mul, pow_succ]

theorem rootOfUnity_primitive {logN : ℕ} {omega : Fr}
    (found : rootOfUnity logN = some omega) :
    IsPrimitiveRoot omega (2 ^ logN) := by
  unfold rootOfUnity at found
  split at found
  · next inside =>
      cases found
      rw [iterate_square]
      refine rootTwoPow32_primitive.pow (by positivity) ?_
      rw [← pow_add]
      congr 1
      unfold maxLogDomain at inside ⊢
      omega
  · cases found

theorem rootOfUnity_isSome_iff (logN : ℕ) :
    (rootOfUnity logN).isSome ↔ logN ≤ maxLogDomain := by
  unfold rootOfUnity
  split <;> simp [*]

theorem domainSize_ne_zero (logN : ℕ) : ((2 ^ logN : ℕ) : Fr) ≠ 0 := by
  rw [Nat.cast_pow]
  refine pow_ne_zero _ ?_
  rw [Ne, Nat.cast_ofNat, ← Nat.cast_ofNat, ZMod.natCast_eq_zero_iff]
  exact fun divides =>
    absurd (Nat.le_of_dvd (by omega) divides) (by norm_num [bls12381Order])

theorem butterflyStages_bitReversal {width : ℕ} {omega : Fr}
    (primitive : IsPrimitiveRoot omega (2 ^ (width + 1))) (vals : ℕ → Fr)
    {index : ℕ} (indexLt : index < 2 ^ (width + 1)) :
    butterflyStages (width + 1) omega
        (bitReversalPermutation (2 ^ (width + 1)) vals) (width + 1) index =
      dft omega (2 ^ (width + 1)) vals index := by
  have minus : omega ^ 2 ^ width = -1 := by
    refine (primitive.pow (by positivity) (pow_succ 2 width)).eq_neg_one_of_two_right
  have spec := butterflyStages_spec minus
    (fun index indexLt => bitReversalPermutation_eq width vals indexLt)
    (width + 1) le_rfl 0 (by simp) index indexLt
  simpa using spec

/-- The forward transform evaluates, the inverse transform interpolates. -/
theorem fftInPlace_forward {width : ℕ} {vals result : ℕ → Fr}
    (done : fftInPlace (width + 1) vals false = some result) {index : ℕ}
    (indexLt : index < 2 ^ (width + 1)) :
    ∃ omega, rootOfUnity (width + 1) = some omega ∧
      result index = dft omega (2 ^ (width + 1)) vals index := by
  simp only [fftInPlace, Nat.succ_ne_zero, ↓reduceIte, Option.bind_eq_bind,
    Option.bind_eq_some_iff, Bool.false_eq_true, Option.pure_def,
    Option.some.injEq] at done
  obtain ⟨omega, found, rfl⟩ := done
  exact ⟨omega, found, butterflyStages_bitReversal (rootOfUnity_primitive found)
    vals indexLt⟩

theorem fftInPlace_inverse {width : ℕ} {vals result : ℕ → Fr}
    (done : fftInPlace (width + 1) vals true = some result) {index : ℕ}
    (indexLt : index < 2 ^ (width + 1)) :
    ∃ omega, rootOfUnity (width + 1) = some omega ∧
      result index = dft omega⁻¹ (2 ^ (width + 1)) vals index *
        ((2 ^ (width + 1) : ℕ) : Fr)⁻¹ := by
  simp only [fftInPlace, Nat.succ_ne_zero, ↓reduceIte, Option.bind_eq_bind,
    Option.bind_eq_some_iff, Option.pure_def,
    Option.some.injEq] at done
  obtain ⟨omega, found, rfl⟩ := done
  refine ⟨omega, found, ?_⟩
  beta_reduce
  rw [butterflyStages_bitReversal (rootOfUnity_primitive found).inv vals indexLt]

theorem fftInPlace_isSome_iff {logN : ℕ} (vals : ℕ → Fr) (inverse : Bool) :
    (fftInPlace logN vals inverse).isSome ↔ logN ≤ maxLogDomain := by
  unfold fftInPlace
  split
  · next zero => simp [zero, maxLogDomain]
  · rw [← rootOfUnity_isSome_iff]
    cases rootOfUnity logN <;> cases inverse <;> simp

end MetaVm.Zkp

namespace MetaVm.Zkp

open Dft

/-! The transform and its inverse undo each other. -/

variable {k : ℕ} {omega : Fr}

/-- A transform of one entry leaves it alone. -/
theorem dft_one (root : Fr) (vals : ℕ → Fr) : dft root 1 vals 0 = vals 0 := by
  simp [dft]

theorem fftInPlace_eq_dft (found : rootOfUnity k = some omega) (vals : ℕ → Fr) :
    ∃ result, fftInPlace k vals false = some result ∧
      ∀ index < 2 ^ k, result index = dft omega (2 ^ k) vals index := by
  cases k with
  | zero =>
      refine ⟨vals, rfl, ?_⟩
      intro index indexLt
      obtain rfl : index = 0 := by omega
      exact (dft_one omega vals).symm
  | succ width =>
      have small : width + 1 ≤ maxLogDomain :=
        (rootOfUnity_isSome_iff (width + 1)).1 (Option.isSome_of_eq_some found)
      obtain ⟨result, done⟩ :=
        Option.isSome_iff_exists.1 ((fftInPlace_isSome_iff vals false).2 small)
      refine ⟨result, done, ?_⟩
      intro index indexLt
      obtain ⟨root, alsoFound, value⟩ := fftInPlace_forward done indexLt
      cases found.symm.trans alsoFound
      exact value

theorem fftInPlace_eq_dft_inv (found : rootOfUnity k = some omega) (vals : ℕ → Fr) :
    ∃ result, fftInPlace k vals true = some result ∧
      ∀ index < 2 ^ k,
        result index = dft omega⁻¹ (2 ^ k) vals index * ((2 ^ k : ℕ) : Fr)⁻¹ := by
  cases k with
  | zero =>
      refine ⟨vals, rfl, ?_⟩
      intro index indexLt
      obtain rfl : index = 0 := by omega
      rw [pow_zero, dft_one, Nat.cast_one, inv_one, mul_one]
  | succ width =>
      have small : width + 1 ≤ maxLogDomain :=
        (rootOfUnity_isSome_iff (width + 1)).1 (Option.isSome_of_eq_some found)
      obtain ⟨result, done⟩ :=
        Option.isSome_iff_exists.1 ((fftInPlace_isSome_iff vals true).2 small)
      refine ⟨result, done, ?_⟩
      intro index indexLt
      obtain ⟨root, alsoFound, value⟩ := fftInPlace_inverse done indexLt
      cases found.symm.trans alsoFound
      exact value

/-- The inverse transform after the transform. -/
theorem dft_inv_after (primitive : IsPrimitiveRoot omega (2 ^ k)) {vals forward : ℕ → Fr}
    (transformed : ∀ index < 2 ^ k, forward index = dft omega (2 ^ k) vals index) {index : ℕ}
    (indexLt : index < 2 ^ k) :
    dft omega⁻¹ (2 ^ k) forward index * ((2 ^ k : ℕ) : Fr)⁻¹ = vals index := by
  rw [dft_congr transformed, dft_inv_dft primitive vals indexLt, mul_assoc,
    mul_inv_cancel₀ (domainSize_ne_zero k), mul_one]

/-- The transform after the inverse transform. -/
theorem dft_after_inv (primitive : IsPrimitiveRoot omega (2 ^ k)) {vals inverse : ℕ → Fr}
    (transformed : ∀ index < 2 ^ k,
      inverse index = dft omega⁻¹ (2 ^ k) vals index * ((2 ^ k : ℕ) : Fr)⁻¹) {index : ℕ}
    (indexLt : index < 2 ^ k) : dft omega (2 ^ k) inverse index = vals index := by
  have undone := dft_inv_dft primitive.inv vals indexLt
  rw [inv_inv] at undone
  rw [dft_congr transformed, dft_mul_right, undone, mul_assoc,
    mul_inv_cancel₀ (domainSize_ne_zero k), mul_one]

/-- The transform is the sum over the powers of the root, and the inverse transform undoes
it in either order. -/
theorem fftInPlace_correct (small : k ≤ maxLogDomain) (a : ℕ → Fr) :
    ∃ omega forward inverse, rootOfUnity k = some omega ∧ IsPrimitiveRoot omega (2 ^ k) ∧
      fftInPlace k a false = some forward ∧ fftInPlace k a true = some inverse ∧
      (∀ i < 2 ^ k, forward i = ∑ j ∈ Finset.range (2 ^ k), a j * omega ^ (i * j)) ∧
      (∃ back, fftInPlace k forward true = some back ∧ ∀ i < 2 ^ k, back i = a i) ∧
      ∃ back, fftInPlace k inverse false = some back ∧ ∀ i < 2 ^ k, back i = a i := by
  obtain ⟨omega, found⟩ := Option.isSome_iff_exists.1 ((rootOfUnity_isSome_iff k).2 small)
  have primitive := rootOfUnity_primitive found
  obtain ⟨forward, forwardDone, forwardValue⟩ := fftInPlace_eq_dft found a
  obtain ⟨inverse, inverseDone, inverseValue⟩ := fftInPlace_eq_dft_inv found a
  refine ⟨omega, forward, inverse, found, primitive, forwardDone, inverseDone, forwardValue,
    ?_, ?_⟩
  · obtain ⟨back, done, value⟩ := fftInPlace_eq_dft_inv found forward
    refine ⟨back, done, ?_⟩
    intro i indexLt
    rw [value i indexLt, dft_inv_after primitive forwardValue indexLt]
  · obtain ⟨back, done, value⟩ := fftInPlace_eq_dft found inverse
    refine ⟨back, done, ?_⟩
    intro i indexLt
    rw [value i indexLt, dft_after_inv primitive inverseValue indexLt]

theorem fftInPlace_correct_pair :
    1 ≤ maxLogDomain ∧
      ∃ omega forward inverse, rootOfUnity 1 = some omega ∧ IsPrimitiveRoot omega (2 ^ 1) ∧
        fftInPlace 1 (fun i => (i : Fr)) false = some forward ∧
        fftInPlace 1 (fun i => (i : Fr)) true = some inverse ∧
        (∀ i < 2 ^ 1, forward i = ∑ j ∈ Finset.range (2 ^ 1), (j : Fr) * omega ^ (i * j)) ∧
        (∃ back, fftInPlace 1 forward true = some back ∧ ∀ i < 2 ^ 1, back i = (i : Fr)) ∧
        ∃ back, fftInPlace 1 inverse false = some back ∧ ∀ i < 2 ^ 1, back i = (i : Fr) :=
  ⟨by decide, fftInPlace_correct (by decide) fun i => (i : Fr)⟩

end MetaVm.Zkp
