import MetaVm.Zkp.Permutation

namespace MetaVm.Zkp

open GrandProduct

/-! When the running product of two access lists comes back to one. -/

/-- A memory access with the number of value limbs that its layout has. -/
@[ext]
structure MemoryAccess (numValues : ℕ) where
  addr : BitVec 64
  values : Fin numValues → BitVec 64
  timestamp : BitVec 64
  rw : BitVec 64
deriving DecidableEq

section Computation

variable {numValues : ℕ} {K : Type} [Field K] (gamma delta : K)

def MemoryAccess.toAccess (F : Type) [NatCast F] [Zero F] (access : MemoryAccess numValues) :
    Access F where
  addr := (access.addr.toNat : F)
  values v := if inside : v < numValues then ((access.values ⟨v, inside⟩).toNat : F) else 0
  timestamp := (access.timestamp.toNat : F)
  rw := (access.rw.toNat : F)

def MemoryAccess.tupleHash (access : MemoryAccess numValues) : K :=
  computeTupleHash gamma delta numValues (access.toAccess K)

/-- The running products from `z` on, one entry a row. -/
def grandProductFrom (z : K) : List (MemoryAccess numValues) → List (MemoryAccess numValues) →
    List K
  | original :: originals, sorted :: sorteds =>
      z :: grandProductFrom (z * original.tupleHash gamma delta *
        (sorted.tupleHash gamma delta)⁻¹) originals sorteds
  | _, _ => []

def computeGrandProduct (original sorted : List (MemoryAccess numValues)) : List K :=
  grandProductFrom gamma delta 1 original sorted

/-- The product over the whole domain: the last entry with the ratio of the last row. -/
def closingProduct (original sorted : List (MemoryAccess numValues)) : K :=
  match (computeGrandProduct gamma delta original sorted).getLast?, original.getLast?,
    sorted.getLast? with
  | some z, some first, some second =>
      z * first.tupleHash gamma delta * (second.tupleHash gamma delta)⁻¹
  | _, _, _ => 1

theorem getLast_grandProductFrom (z : K) (first second : MemoryAccess numValues)
    {originals sorteds : List (MemoryAccess numValues)}
    (sameLength : originals.length = sorteds.length) :
    (grandProductFrom gamma delta z (originals ++ [first]) (sorteds ++ [second])).getLast? =
      some (z * (originals.map (·.tupleHash gamma delta)).prod *
        (sorteds.map (·.tupleHash gamma delta)).prod⁻¹) := by
  induction originals generalizing z sorteds with
  | nil =>
      obtain rfl := List.length_eq_zero_iff.1 sameLength.symm
      simp [grandProductFrom]
  | cons original originals hypothesis =>
      cases sorteds with
      | nil => cases sameLength
      | cons sorted sorteds =>
          rw [List.cons_append, List.cons_append, grandProductFrom, List.getLast?_cons,
            hypothesis _ (Nat.succ.inj sameLength), Option.getD_some, List.map_cons,
            List.prod_cons, List.map_cons, List.prod_cons, mul_inv]
          congr 1
          ring

/-- The product over the whole domain is the quotient of the two products of tuples. -/
theorem closingProduct_eq {original sorted : List (MemoryAccess numValues)}
    (sameLength : original.length = sorted.length) :
    closingProduct gamma delta original sorted =
      (original.map (·.tupleHash gamma delta)).prod *
        (sorted.map (·.tupleHash gamma delta)).prod⁻¹ := by
  rcases List.eq_nil_or_concat' original with rfl | ⟨originals, first, rfl⟩
  · obtain rfl := List.length_eq_zero_iff.1 sameLength.symm
    simp [closingProduct, computeGrandProduct, grandProductFrom]
  · rcases List.eq_nil_or_concat' sorted with rfl | ⟨sorteds, second, rfl⟩
    · simp at sameLength
    · have initial : originals.length = sorteds.length := by simpa using sameLength
      rw [closingProduct, computeGrandProduct,
        getLast_grandProductFrom gamma delta 1 first second initial, List.getLast?_concat,
        List.getLast?_concat]
      simp only [List.map_append, List.prod_append, List.map_cons, List.map_nil,
        List.prod_cons, List.prod_nil, mul_one, one_mul, mul_inv]
      ring

end Computation

section Identity

variable {p : ℕ} [Fact p.Prime] {numValues : ℕ}

/-- The two challenges as indeterminates. -/
noncomputable def gammaVariable (p : ℕ) [Fact p.Prime] : RatFunc (RatFunc (ZMod p)) := RatFunc.X

noncomputable def deltaVariable (p : ℕ) [Fact p.Prime] : RatFunc (ZMod p) := RatFunc.X

theorem gammaVariable_free : Transcendental (RatFunc (ZMod p)) (gammaVariable p) :=
  RatFunc.transcendental_X

theorem deltaVariable_free : Transcendental (ZMod p) (deltaVariable p) :=
  RatFunc.transcendental_X

theorem toAccess_map (F K : Type) [Field F] [Field K] (f : F →+* K)
    (access : MemoryAccess numValues) : (access.toAccess F).map f = access.toAccess K := by
  have values : (fun v => f ((access.toAccess F).values v)) = (access.toAccess K).values := by
    funext v
    simp only [MemoryAccess.toAccess]
    split
    · exact map_natCast f _
    · exact map_zero f
  rw [Access.map, values]
  simp only [MemoryAccess.toAccess, map_natCast]

/-- Machine words are apart in a field that is large enough. -/
theorem toAccess_injective (large : 2 ^ 64 ≤ p) {first second : MemoryAccess numValues}
    (same : (first.toAccess (ZMod p)).Same numValues (second.toAccess (ZMod p))) :
    first = second := by
  have wordEq : ∀ {left right : BitVec 64},
      ((left.toNat : ZMod p)) = (right.toNat : ZMod p) → left = right := by
    intro left right equal
    have leftBounded : left.toNat < p := left.isLt.trans_le large
    have rightBounded : right.toNat < p := right.isLt.trans_le large
    apply BitVec.eq_of_toNat_eq
    rw [← ZMod.val_natCast_of_lt leftBounded, equal, ZMod.val_natCast_of_lt rightBounded]
  apply MemoryAccess.ext
  · exact wordEq same.addr
  · funext v
    have value := same.values v.val v.isLt
    simp only [MemoryAccess.toAccess, dif_pos v.isLt] at value
    exact wordEq value
  · exact wordEq same.timestamp
  · exact wordEq same.rw

/-- The tuple of an access over the base field is the one over its fractions. -/
theorem tupleHash_eq (access : MemoryAccess numValues) :
    access.tupleHash (gammaVariable p) (algebraMap _ _ (deltaVariable p)) =
      gammaVariable p + algebraMap _ _
        (tupleRest (deltaVariable p) numValues (access.toAccess (ZMod p))) := by
  rw [MemoryAccess.tupleHash, ← toAccess_map (ZMod p) (RatFunc (RatFunc (ZMod p))) (algebraMap _ _)]
  exact computeTupleHash_eq _ _ numValues _

theorem tupleRest_injective (large : 2 ^ 64 ≤ p) :
    Function.Injective fun access : MemoryAccess numValues =>
      tupleRest (deltaVariable p) numValues (access.toAccess (ZMod p)) := by
  intro first second same
  exact toAccess_injective large ((tupleRest_eq_iff deltaVariable_free).1 same)

/-- The product of all tuples tells the lists of accesses apart, up to their order. -/
theorem prod_tupleHash_eq_iff (large : 2 ^ 64 ≤ p) (original sorted : List (MemoryAccess numValues)) :
    (original.map (·.tupleHash (gammaVariable p) (algebraMap _ _ (deltaVariable p)))).prod =
        (sorted.map (·.tupleHash (gammaVariable p) (algebraMap _ _ (deltaVariable p)))).prod ↔
      original.Perm sorted := by
  have product : ∀ accesses : List (MemoryAccess numValues),
      (accesses.map (·.tupleHash (gammaVariable p) (algebraMap _ _ (deltaVariable p)))).prod =
        ((↑(accesses.map fun access => tupleRest (deltaVariable p) numValues
          (access.toAccess (ZMod p))) : Multiset (RatFunc (ZMod p))).map fun rest =>
            gammaVariable p + algebraMap _ _ rest).prod := by
    intro accesses
    rw [Multiset.map_coe, Multiset.prod_coe, List.map_map]
    exact congrArg List.prod (List.map_congr_left fun access _ => tupleHash_eq access)
  rw [product, product, prod_map_eq_iff gammaVariable_free, Multiset.coe_eq_coe,
    List.map_perm_map_iff (tupleRest_injective large)]

theorem tupleHash_ne_zero (access : MemoryAccess numValues) :
    access.tupleHash (gammaVariable p) (algebraMap _ _ (deltaVariable p)) ≠ 0 := by
  rw [tupleHash_eq]
  exact add_ne_zero_of_transcendental gammaVariable_free _

/-- The grand product closes as an identity in both challenges exactly where the sorted list
is a permutation of the original one, and the tuple of an access determines it as a polynomial
in the second challenge. -/
theorem grandProduct_closes_iff (large : 2 ^ 64 ≤ p) {original sorted : List (MemoryAccess numValues)}
    (sameLength : original.length = sorted.length) :
    (closingProduct (gammaVariable p) (algebraMap _ _ (deltaVariable p)) original sorted = 1 ↔
        original.Perm sorted) ∧
      ∀ (gamma : ZMod p) (first second : MemoryAccess numValues),
        first.tupleHash (algebraMap _ _ gamma) (deltaVariable p) =
          second.tupleHash (algebraMap _ _ gamma) (deltaVariable p) → first = second := by
  constructor
  · have nonzero : (sorted.map
        (·.tupleHash (gammaVariable p) (algebraMap _ _ (deltaVariable p)))).prod ≠ 0 := by
      apply List.prod_ne_zero
      intro member
      obtain ⟨access, -, zero⟩ := List.mem_map.1 member
      exact tupleHash_ne_zero access zero
    rw [closingProduct_eq _ _ sameLength, mul_inv_eq_one₀ nonzero]
    exact prod_tupleHash_eq_iff large original sorted
  · intro gamma first second same
    apply tupleRest_injective large
    have split : ∀ access : MemoryAccess numValues,
        access.tupleHash (algebraMap _ _ gamma) (deltaVariable p) =
          algebraMap _ _ gamma +
            tupleRest (deltaVariable p) numValues (access.toAccess (ZMod p)) := by
      intro access
      rw [MemoryAccess.tupleHash, tupleRest, toAccess_map, computeTupleHash, computeTupleHash]
      ring
    rw [split, split] at same
    exact add_left_cancel same

/-- Two accesses of one word, written and then read, in either order. -/
theorem grandProduct_closes_swapped :
    2 ^ 64 ≤ bls12381Order ∧
      let write : MemoryAccess 1 := ⟨100, fun _ => 42, 0, 1⟩
      let read : MemoryAccess 1 := ⟨100, fun _ => 42, 1, 0⟩
      (closingProduct (gammaVariable bls12381Order)
            (algebraMap _ _ (deltaVariable bls12381Order)) [write, read] [read, write] = 1 ↔
          [write, read].Perm [read, write]) ∧
        ∀ (gamma : ZMod bls12381Order) (first second : MemoryAccess 1),
          first.tupleHash (algebraMap _ _ gamma) (deltaVariable bls12381Order) =
            second.tupleHash (algebraMap _ _ gamma) (deltaVariable bls12381Order) →
              first = second :=
  have large : 2 ^ 64 ≤ bls12381Order := by norm_num [bls12381Order]
  ⟨large, grandProduct_closes_iff large rfl⟩

end Identity

end MetaVm.Zkp
