import Mathlib
import MetaVm.Lib.CoeffList

namespace MetaVm.Core

open CoeffList Interpolation

/-! Shamir shares of a field element, and what can be computed on them. -/

/-- A point of the sharing polynomial, by the index of its party. -/
structure Share (F : Type*) where
  id : ℕ
  value : F

namespace Share

variable {F : Type*} [Field F]

/-- The polynomial at a party's point, with the running power of the point. -/
def evaluate (secret : F) (random : List F) (x : F) : F :=
  (random.foldl (fun state coeff => (state.1 + coeff * state.2, state.2 * x)) (secret, x)).1

/-- `n` shares, any `t` of which give the secret back. `random` is what is drawn. -/
def share (secret : F) (n t : ℕ) (random : ℕ → F) : Option (List (Share F)) :=
  if t < 1 ∨ n < t then none
  else
    let coeffs := (List.range (t - 1)).map random
    some ((List.range n).map fun i => ⟨i + 1, evaluate secret coeffs ((i + 1 : ℕ) : F)⟩)

/-- The numerator and the denominator of a share's coefficient. -/
def lagrangeFraction (shares : List (Share F)) (j : Fin shares.length) : F × F :=
  let xj := ((shares.get j).id : F)
  (List.finRange shares.length).foldl
    (fun state k =>
      if j ≠ k then
        let xk := ((shares.get k).id : F)
        (state.1 * xk, state.2 * (xk - xj))
      else state)
    (1, 1)

def reconstruct (shares : List (Share F)) : F :=
  (List.finRange shares.length).foldl
    (fun result j =>
      let fraction := lagrangeFraction shares j
      let lagrangeCoeff := fraction.1 * fraction.2⁻¹
      result + lagrangeCoeff * (shares.get j).value)
    0

/-- Shares of the same party, combined. Other pairs panic. -/
def combine (op : F → F → F) (pair : Share F × Share F) : Option (Share F) :=
  if pair.1.id = pair.2.id then some ⟨pair.1.id, op pair.1.value pair.2.value⟩ else none

def shareAdd (a b : List (Share F)) : Option (List (Share F)) :=
  if a.length = b.length then (a.zip b).mapM (combine (· + ·)) else none

def shareSub (a b : List (Share F)) : Option (List (Share F)) :=
  if a.length = b.length then (a.zip b).mapM (combine (· - ·)) else none

def shareMulConst (shares : List (Share F)) (constant : F) : List (Share F) :=
  shares.map fun s => ⟨s.id, s.value * constant⟩

def shareAddConst (shares : List (Share F)) (constant : F) : List (Share F) :=
  shares.map fun s => ⟨s.id, s.value + constant⟩

/-! Reconstruction is a weighted sum. -/

/-- The points of some shares. -/
def points (shares : List (Share F)) (j : Fin shares.length) : F := ((shares.get j).id : F)

theorem foldl_skip {ι : Type*} [DecidableEq ι] (j : ι) (first second : ι → F) (items : List ι)
    (state : F × F) :
    items.foldl (fun state k => if j ≠ k then (state.1 * first k, state.2 * second k) else state)
        state =
      (state.1 * (items.map fun k => if j = k then 1 else first k).prod,
        state.2 * (items.map fun k => if j = k then 1 else second k).prod) := by
  induction items generalizing state with
  | nil => simp
  | cons k items hypothesis =>
      rw [List.foldl_cons, hypothesis]
      by_cases same : j = k
      · simp [same]
      · simp [same, mul_assoc]

theorem lagrangeFraction_eq (shares : List (Share F)) (j : Fin shares.length) :
    (lagrangeFraction shares j).1 * (lagrangeFraction shares j).2⁻¹ = weight (points shares) j := by
  have folded := foldl_skip j (points shares) (fun k => points shares k - points shares j)
    (List.finRange shares.length) (1, 1)
  have fraction : lagrangeFraction shares j = _ := folded
  rw [fraction, one_mul, one_mul, weight, Fin.prod_univ_def, Fin.prod_univ_def]

theorem foldl_add {ι : Type*} (term : ι → F) (items : List ι) (start : F) :
    items.foldl (fun sum item => sum + term item) start = start + (items.map term).sum := by
  induction items generalizing start with
  | nil => simp
  | cons item items hypothesis =>
      rw [List.foldl_cons, hypothesis, List.map_cons, List.sum_cons, add_assoc]

theorem reconstruct_eq_sum (shares : List (Share F)) :
    reconstruct shares = ∑ j, weight (points shares) j * (shares.get j).value := by
  rw [reconstruct, foldl_add, zero_add, Fin.sum_univ_def]
  simp only [lagrangeFraction_eq]

/-- The sum over any numbering of the shares. -/
theorem reconstruct_eq {shares : List (Share F)} {n : ℕ} (length : shares.length = n)
    {ids : Fin n → ℕ} {values : Fin n → F}
    (entries : ∀ j, shares.get (Fin.cast length.symm j) = ⟨ids j, values j⟩) :
    reconstruct shares = ∑ j, weight (fun k => (ids k : F)) j * values j := by
  subst length
  have each : ∀ j, shares.get j = ⟨ids j, values j⟩ := entries
  have same : points shares = fun k => (ids k : F) := funext fun k => by rw [points, each]
  rw [reconstruct_eq_sum, same]
  exact Finset.sum_congr rfl fun j _ => by rw [each]

theorem reconstruct_map (shares : List (Share F)) (change : F → F) :
    reconstruct (shares.map fun s => ⟨s.id, change s.value⟩) =
      ∑ j, weight (points shares) j * change (shares.get j).value := by
  apply reconstruct_eq (List.length_map _)
  intro j
  rw [List.get_eq_getElem, List.getElem_map]
  rfl

end Share

/-! What is computed share by share. -/

namespace Share

section Pairs

variable {F : Type*}

/-- The entries of two lists of the same parties, combined. -/
def zipShares (op : F → F → F) (a b : List (Share F)) : List (Share F) :=
  List.zipWith (fun s r => ⟨s.id, op s.value r.value⟩) a b

theorem mapM_combine (op : F → F → F) {a b : List (Share F)}
    (same : a.map Share.id = b.map Share.id) :
    (a.zip b).mapM (combine op) = some (zipShares op a b) := by
  induction a generalizing b with
  | nil => rfl
  | cons s a hypothesis =>
      cases b with
      | nil => cases same
      | cons r b =>
          obtain ⟨party, rest⟩ := List.cons_eq_cons.1 same
          rw [List.zip_cons_cons, List.mapM_cons, combine, if_pos party, hypothesis rest]
          rfl

theorem length_eq_of_ids {a b : List (Share F)} (same : a.map Share.id = b.map Share.id) :
    a.length = b.length := by
  rw [← List.length_map Share.id, same, List.length_map]

end Pairs

variable {F : Type*} [Field F]

theorem reconstruct_zipShares (op : F → F → F) {a b : List (Share F)}
    (same : a.map Share.id = b.map Share.id)
    (linear : ∀ w x y : F, w * op x y = op (w * x) (w * y)) :
    ∃ values : Fin a.length → F,
      reconstruct b = ∑ j, weight (points a) j * values j ∧
        reconstruct (zipShares op a b) =
          ∑ j, op (weight (points a) j * (a.get j).value) (weight (points a) j * values j) := by
  have length : b.length = a.length := (length_eq_of_ids same).symm
  have party : ∀ j : Fin a.length, (a.get j).id = (b.get (Fin.cast length.symm j)).id := by
    intro j
    have entries := congrArg (fun ids => ids[j.val]?) same
    rw [List.getElem?_map, List.getElem?_map, List.getElem?_eq_getElem j.isLt,
      List.getElem?_eq_getElem (j.isLt.trans_eq length.symm)] at entries
    exact Option.some.inj entries
  refine ⟨fun j => (b.get (Fin.cast length.symm j)).value, ?_, ?_⟩
  · apply reconstruct_eq length
    intro j
    rw [party]
  · simp only [← linear]
    apply reconstruct_eq (by rw [zipShares, List.length_zipWith, length, Nat.min_self])
    intro j
    rw [List.get_eq_getElem]
    exact List.getElem_zipWith

theorem reconstruct_shareAdd {a b : List (Share F)} (same : a.map Share.id = b.map Share.id) :
    ∃ sum, shareAdd a b = some sum ∧ reconstruct sum = reconstruct a + reconstruct b := by
  refine ⟨zipShares (· + ·) a b, ?_, ?_⟩
  · rw [shareAdd, if_pos (length_eq_of_ids same), mapM_combine _ same]
  · obtain ⟨values, second, sum⟩ := reconstruct_zipShares (· + ·) same mul_add
    rw [sum, second, reconstruct_eq_sum, Finset.sum_add_distrib]

theorem reconstruct_shareSub {a b : List (Share F)} (same : a.map Share.id = b.map Share.id) :
    ∃ difference, shareSub a b = some difference ∧
      reconstruct difference = reconstruct a - reconstruct b := by
  refine ⟨zipShares (· - ·) a b, ?_, ?_⟩
  · rw [shareSub, if_pos (length_eq_of_ids same), mapM_combine _ same]
  · obtain ⟨values, second, difference⟩ := reconstruct_zipShares (· - ·) same mul_sub
    rw [difference, second, reconstruct_eq_sum, Finset.sum_sub_distrib]

theorem reconstruct_shareMulConst (shares : List (Share F)) (constant : F) :
    reconstruct (shareMulConst shares constant) = reconstruct shares * constant := by
  rw [shareMulConst, reconstruct_map shares (· * constant), reconstruct_eq_sum, Finset.sum_mul]
  exact Finset.sum_congr rfl fun j _ => (mul_assoc _ _ _).symm

theorem reconstruct_shareAddConst {shares : List (Share F)} (some : shares ≠ [])
    (distinct : Function.Injective (points shares)) (constant : F) :
    reconstruct (shareAddConst shares constant) = reconstruct shares + constant := by
  have inhabited : Nonempty (Fin shares.length) := ⟨⟨0, List.length_pos_iff.2 some⟩⟩
  rw [shareAddConst, reconstruct_map shares (· + constant), reconstruct_eq_sum]
  simp only [mul_add]
  rw [Finset.sum_add_distrib, ← Finset.sum_mul, sum_weight distinct, one_mul]

/-! Shares lie on a polynomial with the secret at zero. -/

theorem evaluate_eq (secret : F) (random : List F) (x : F) :
    evaluate secret random x = (toPoly (secret :: random)).eval x := by
  have folded : ∀ (coeffs : List F) (state : F × F),
      (coeffs.foldl (fun state coeff => (state.1 + coeff * state.2, state.2 * x)) state).1 =
        state.1 + state.2 * (toPoly coeffs).eval x := by
    intro coeffs
    induction coeffs with
    | nil => simp
    | cons coeff coeffs hypothesis =>
        intro state
        rw [List.foldl_cons, hypothesis, toPoly_cons, Polynomial.eval_add, Polynomial.eval_C,
          Polynomial.eval_mul, Polynomial.eval_X]
        ring
  rw [evaluate, folded, toPoly_cons, Polynomial.eval_add, Polynomial.eval_C, Polynomial.eval_mul,
    Polynomial.eval_X]

/-- What a list of shares of a secret looks like. -/
theorem mem_share {secret : F} {n t : ℕ} {random : ℕ → F} {all : List (Share F)}
    (shared : share secret n t random = some all) {s : Share F} (inside : s ∈ all) :
    s.id ≤ n ∧ s.value =
      (toPoly (secret :: (List.range (t - 1)).map random)).eval (s.id : F) := by
  rw [share] at shared
  split at shared
  · cases shared
  · obtain rfl := Option.some.inj shared
    obtain ⟨i, below, rfl⟩ := List.mem_map.1 inside
    exact ⟨List.mem_range.1 below, evaluate_eq _ _ _⟩

theorem reconstruct_of_polynomial {shares : List (Share F)}
    (distinct : Function.Injective (points shares)) {coeffs : List F}
    (enough : coeffs.length ≤ shares.length)
    (values : ∀ s ∈ shares, s.value = (toPoly coeffs).eval (s.id : F)) :
    reconstruct shares = (toPoly coeffs).eval 0 := by
  have low : (toPoly coeffs).degree < Fintype.card (Fin shares.length) := by
    rw [Fintype.card_fin]
    exact (degree_toPoly_lt coeffs).trans_le (by exact_mod_cast enough)
  rw [reconstruct_eq_sum, ← sum_weight_mul_eval distinct low]
  exact Finset.sum_congr rfl fun j _ => by rw [values _ (List.get_mem shares j), points]

section PrimeField

variable {p : ℕ}

/-- Distinct parties below the order have distinct points. -/
theorem points_injective {shares : List (Share (ZMod p))} [Fact p.Prime]
    (distinct : (shares.map Share.id).Nodup) (small : ∀ s ∈ shares, s.id < p) :
    Function.Injective (points shares) := by
  intro j k same
  have ids : (shares.get j).id = (shares.get k).id := by
    rw [points, points, ZMod.natCast_eq_natCast_iff'] at same
    rwa [Nat.mod_eq_of_lt (small _ (List.get_mem shares j)),
      Nat.mod_eq_of_lt (small _ (List.get_mem shares k))] at same
  have entries := List.inj_on_of_nodup_map distinct (List.get_mem shares j)
    (List.get_mem shares k) ids
  exact List.nodup_iff_injective_get.1 (List.Nodup.of_map Share.id distinct) entries

/-- Enough shares of different parties, in any order, give the secret back. -/
def Recovers (p : ℕ) [Fact p.Prime] : Prop :=
  ∀ (secret : ZMod p) (n t : ℕ) (random : ℕ → ZMod p), 1 ≤ t → t ≤ n → n < p →
    ∃ all, share secret n t random = some all ∧
      ∀ shares : List (Share (ZMod p)), (∀ s ∈ shares, s ∈ all) → (shares.map Share.id).Nodup →
        t ≤ shares.length → reconstruct shares = secret

/-- Computing on shares of the same parties computes on what they stand for. -/
structure Commutes (p : ℕ) [Fact p.Prime] : Prop where
  add : ∀ a b : List (Share (ZMod p)), a.map Share.id = b.map Share.id →
    ∃ sum, shareAdd a b = some sum ∧ reconstruct sum = reconstruct a + reconstruct b
  sub : ∀ a b : List (Share (ZMod p)), a.map Share.id = b.map Share.id →
    ∃ difference, shareSub a b = some difference ∧
      reconstruct difference = reconstruct a - reconstruct b
  mulConst : ∀ (shares : List (Share (ZMod p))) (constant : ZMod p),
    reconstruct (shareMulConst shares constant) = reconstruct shares * constant
  addConst : ∀ (shares : List (Share (ZMod p))) (constant : ZMod p), shares ≠ [] →
    (shares.map Share.id).Nodup → (∀ s ∈ shares, s.id < p) →
      reconstruct (shareAddConst shares constant) = reconstruct shares + constant

theorem recovers [Fact p.Prime] : Recovers p := by
  intro secret n t random positive enough below
  have valid : ¬ (t < 1 ∨ n < t) := by omega
  obtain ⟨all, shared⟩ : ∃ all, share secret n t random = some all := ⟨_, if_neg valid⟩
  refine ⟨all, shared, ?_⟩
  intro shares subset distinct many
  have members := fun s inside => mem_share shared (subset s inside)
  have small : ∀ s ∈ shares, s.id < p := fun s inside => (members s inside).1.trans_lt below
  rw [reconstruct_of_polynomial (points_injective distinct small) _
    fun s inside => (members s inside).2]
  · simp [toPoly_cons]
  · rw [List.length_cons, List.length_map, List.length_range]
    omega

theorem shamir_sharing [Fact p.Prime] : Recovers p ∧ Commutes p :=
  ⟨recovers, fun _ _ => reconstruct_shareAdd, fun _ _ => reconstruct_shareSub,
    reconstruct_shareMulConst, fun _ constant some distinct small =>
      reconstruct_shareAddConst some (points_injective distinct small) constant⟩

theorem shamir_sharing_thirteen :
    have : Fact (Nat.Prime 13) := ⟨by decide⟩
    Recovers 13 ∧ Commutes 13 :=
  @shamir_sharing 13 ⟨by decide⟩

end PrimeField

end Share

end MetaVm.Core
