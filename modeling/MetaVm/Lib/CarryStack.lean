import Mathlib
import MetaVm.Lib.Outcome

namespace MetaVm.CarryStack

/-! A sequence is merged through a stack that counts in binary: level `k` has
at most one value, which stands for a run of `2 ^ k` leaves. -/

variable {α β ε : Type}

inductive Tree (α : Type)
  | leaf (value : α)
  | node (left right : Tree α)
deriving Repr

namespace Tree

def leaves : Tree α → List α
  | leaf value => [value]
  | node left right => left.leaves ++ right.leaves

/-- Merge from the leaves up. -/
def merged (merge : α → α → Except ε α) : Tree α → Except ε α
  | leaf value => .ok value
  | node left right => do
      let leftValue ← left.merged merge
      let rightValue ← right.merged merge
      merge leftValue rightValue

/-- Every node scales what is on its right. -/
def weights (scale : Tree α → Tree α → ℕ) : Tree α → List ℕ
  | leaf _ => [1]
  | node left right =>
      left.weights scale ++ (right.weights scale).map (scale left right * ·)

theorem length_weights (scale : Tree α → Tree α → ℕ) (tree : Tree α) :
    (tree.weights scale).length = tree.leaves.length := by
  induction tree with
  | leaf => rfl
  | node left right leftHypothesis rightHypothesis =>
      rw [weights, leaves, List.length_append, List.length_append, List.length_map,
        leftHypothesis, rightHypothesis]

theorem leaves_ne_nil (tree : Tree α) : tree.leaves ≠ [] := by
  induction tree with
  | leaf => exact List.cons_ne_nil _ _
  | node left right leftHypothesis _ =>
      exact List.append_ne_nil_of_left_ne_nil leftHypothesis _

theorem merged_node {merge : α → α → Except ε α} {left right : Tree α} {value : α} :
    (node left right).merged merge = .ok value ↔
      ∃ leftValue rightValue, left.merged merge = .ok leftValue ∧
        right.merged merge = .ok rightValue ∧ merge leftValue rightValue = .ok value := by
  simp only [merged, except_bind_eq_ok]
  tauto

/-- What merging adds up is the sum over the leaves. -/
theorem measure_merged [AddCommMonoid β] {merge : α → α → Except ε α} {measure : α → β}
    (adds : ∀ {left right value}, merge left right = .ok value →
      measure value = measure left + measure right) {tree : Tree α} {value : α}
    (done : tree.merged merge = .ok value) :
    measure value = (tree.leaves.map measure).sum := by
  induction tree generalizing value with
  | leaf only =>
      obtain rfl := Except.ok.inj done
      rw [leaves, List.map_singleton, List.sum_singleton]
  | node left right leftHypothesis rightHypothesis =>
      obtain ⟨leftValue, rightValue, leftDone, rightDone, both⟩ := merged_node.1 done
      rw [adds both, leftHypothesis leftDone, rightHypothesis rightDone, leaves,
        List.map_append, List.sum_append]

end Tree

/-! The stack. -/

section Stack

variable (merge : α → α → Except ε α)

/-- Put a value on the first free level, and merge it with what it passes. -/
def carry : List (Option α) → α → Except ε (List (Option α))
  | [], current => .ok [some current]
  | none :: higher, current => .ok (some current :: higher)
  | some existing :: higher, current => do
      let merged ← merge existing current
      let stack ← carry higher merged
      .ok (none :: stack)

/-- Put one value after another on the stack, each made when its turn comes. -/
def feed (make : β → Except ε α) (items : List β) (stack : List (Option α)) :
    Except ε (List (Option α)) :=
  items.foldlM (fun stack item => do
    let current ← make item
    carry merge stack current) stack

/-- The highest level came first, so it is on the left. -/
def drain (vacant : ε) (stack : List (Option α)) : Except ε α :=
  match (stack.filterMap id).reverse with
  | [] => .error vacant
  | highest :: lower => lower.foldlM merge highest

end Stack

section Correctness

variable {merge : α → α → Except ε α}

/-- The levels from `level` up stand for the given leaves. -/
inductive Holds (merge : α → α → Except ε α) : ℕ → List (Option α) → List α → Prop
  | nil {level : ℕ} : Holds merge level [] []
  | vacant {level : ℕ} {higher : List (Option α)} {leaves : List α}
      (above : Holds merge (level + 1) higher leaves) : Holds merge level (none :: higher) leaves
  | filled {level : ℕ} {higher : List (Option α)} {leaves : List α} {tree : Tree α} {value : α}
      (above : Holds merge (level + 1) higher leaves)
      (mergedEq : tree.merged merge = .ok value) (size : tree.leaves.length = 2 ^ level) :
      Holds merge level (some value :: higher) (leaves ++ tree.leaves)

/-- A run of leaves that comes after those on the stack is put on it. -/
theorem Holds.carry {level : ℕ} {stack : List (Option α)} {leaves : List α} {tree : Tree α}
    {current : α} {result : List (Option α)} (holds : Holds merge level stack leaves)
    (mergedEq : tree.merged merge = .ok current) (size : tree.leaves.length = 2 ^ level)
    (done : CarryStack.carry merge stack current = .ok result) :
    Holds merge level result (leaves ++ tree.leaves) := by
  induction holds generalizing tree current result with
  | nil =>
      obtain rfl := Except.ok.inj done
      exact .filled .nil mergedEq size
  | vacant above _ =>
      obtain rfl := Except.ok.inj done
      exact .filled above mergedEq size
  | @filled here higher before existingTree existing above existingEq existingSize hypothesis =>
      simp only [CarryStack.carry, except_bind_eq_ok] at done
      obtain ⟨promoted, both, stack, rest, done⟩ := done
      obtain rfl := Except.ok.inj done
      have promotedEq : (Tree.node existingTree tree).merged merge = .ok promoted :=
        Tree.merged_node.2 ⟨_, _, existingEq, mergedEq, both⟩
      have promotedSize : (Tree.node existingTree tree).leaves.length = 2 ^ (here + 1) := by
        rw [Tree.leaves, List.length_append, existingSize, size, pow_succ, Nat.mul_two]
      have above := hypothesis promotedEq promotedSize rest
      rw [Tree.leaves, ← List.append_assoc] at above
      exact .vacant above

theorem Holds.feed {make : β → Except ε α} {items : List β} {stack result : List (Option α)}
    {leaves : List α} (holds : Holds merge 0 stack leaves)
    (done : CarryStack.feed merge make items stack = .ok result) :
    ∃ more, List.Forall₂ (fun item leaf => make item = .ok leaf) items more ∧
      Holds merge 0 result (leaves ++ more) := by
  induction items generalizing stack leaves with
  | nil =>
      obtain rfl := Except.ok.inj done
      exact ⟨[], .nil, (List.append_nil leaves).symm ▸ holds⟩
  | cons item items hypothesis =>
      simp only [CarryStack.feed, List.foldlM_cons, except_bind_eq_ok] at done
      obtain ⟨next, ⟨current, made, carried⟩, later⟩ := done
      have put : Holds merge 0 next (leaves ++ (Tree.leaf current).leaves) :=
        holds.carry rfl rfl carried
      obtain ⟨more, made', kept⟩ := hypothesis put later
      refine ⟨current :: more, .cons made made', ?_⟩
      rwa [Tree.leaves, List.append_assoc] at kept

/-- From the highest level down, the values on the stack stand for the leaves in
their order. -/
theorem Holds.trees {level : ℕ} {stack : List (Option α)} {leaves : List α}
    (holds : Holds merge level stack leaves) :
    ∃ trees, List.Forall₂ (fun tree value => Tree.merged merge tree = .ok value) trees
      (stack.filterMap id).reverse ∧ trees.flatMap Tree.leaves = leaves := by
  induction holds with
  | nil => exact ⟨[], .nil, rfl⟩
  | vacant _ hypothesis => exact hypothesis
  | @filled _ _ _ tree value _ mergedEq _ hypothesis =>
      obtain ⟨trees, values, together⟩ := hypothesis
      refine ⟨trees ++ [tree], ?_, ?_⟩
      · simp only [List.filterMap_cons, id, List.reverse_cons]
        exact List.rel_append values (.cons mergedEq .nil)
      · rw [List.flatMap_append, together, List.flatMap_singleton]

theorem foldlM_merged {trees : List (Tree α)} {values : List α}
    (each : List.Forall₂ (fun tree value => Tree.merged merge tree = .ok value) trees values)
    {tree : Tree α} {start value : α} (started : tree.merged merge = .ok start)
    (done : values.foldlM merge start = .ok value) :
    ∃ whole : Tree α, whole.leaves = tree.leaves ++ trees.flatMap Tree.leaves ∧
      whole.merged merge = .ok value := by
  induction each generalizing tree start with
  | nil =>
      obtain rfl := Except.ok.inj done
      exact ⟨tree, (List.append_nil _).symm, started⟩
  | cons head tail hypothesis =>
      rw [List.foldlM_cons, except_bind_eq_ok] at done
      obtain ⟨next, both, later⟩ := done
      obtain ⟨whole, inOrder, mergedEq⟩ :=
        hypothesis (Tree.merged_node.2 ⟨_, _, started, head, both⟩) later
      refine ⟨whole, ?_, mergedEq⟩
      rw [inOrder, Tree.leaves, List.append_assoc, List.flatMap_cons]

/-- What is drained is merged along a tree that has every leaf once, in order. -/
theorem Holds.drain {level : ℕ} {stack : List (Option α)} {leaves : List α} {vacant : ε}
    {value : α} (holds : Holds merge level stack leaves)
    (done : CarryStack.drain merge vacant stack = .ok value) :
    ∃ tree : Tree α, tree.leaves = leaves ∧ tree.merged merge = .ok value := by
  obtain ⟨trees, values, rfl⟩ := holds.trees
  rw [CarryStack.drain] at done
  split at done
  · cases done
  · rename_i highest lower shape
    rw [shape] at values
    cases values with
    | cons head tail =>
        obtain ⟨whole, inOrder, mergedEq⟩ := foldlM_merged tail head done
        exact ⟨whole, inOrder, mergedEq⟩

end Correctness

/-! When values merge exactly where their ends meet, a sequence is folded
exactly when it is a chain. -/

section Chains

variable {γ : Type}

structure Joins (merge : α → α → Except ε α) (good : α → Prop) (first last : α → γ) : Prop where
  merge_ok : ∀ {left right}, good left → good right → last left = first right →
    ∃ value, merge left right = .ok value
  joined : ∀ {left right value}, good left → good right → merge left right = .ok value →
    last left = first right ∧ good value ∧ first value = first left ∧ last value = last right

variable {merge : α → α → Except ε α} {good : α → Prop} {first last : α → γ}

/-- Every leaf ends where the next one starts. -/
def Linked (first last : α → γ) : List α → Prop :=
  List.IsChain fun left right => last left = first right

theorem Tree.merged_linked (joins : Joins merge good first last) {tree : Tree α} {value : α}
    (leavesGood : ∀ leaf ∈ tree.leaves, good leaf) (done : tree.merged merge = .ok value) :
    Linked first last tree.leaves ∧ good value ∧
      tree.leaves.head?.map first = some (first value) ∧
      tree.leaves.getLast?.map last = some (last value) := by
  induction tree generalizing value with
  | leaf only =>
      obtain rfl := Except.ok.inj done
      exact ⟨.singleton _, leavesGood _ (List.mem_singleton_self _), rfl, rfl⟩
  | node left right leftHypothesis rightHypothesis =>
      obtain ⟨leftValue, rightValue, leftDone, rightDone, both⟩ := Tree.merged_node.1 done
      obtain ⟨leftLinked, leftGood, leftFirst, leftLast⟩ := leftHypothesis
        (fun leaf member => leavesGood leaf (List.mem_append_left _ member)) leftDone
      obtain ⟨rightLinked, rightGood, rightFirst, rightLast⟩ := rightHypothesis
        (fun leaf member => leavesGood leaf (List.mem_append_right _ member)) rightDone
      obtain ⟨meet, valueGood, sameFirst, sameLast⟩ := joins.joined leftGood rightGood both
      refine ⟨List.isChain_append.2 ⟨leftLinked, rightLinked, ?_⟩, valueGood, ?_, ?_⟩
      · intro before isLast after isFirst
        rw [Option.mem_def.1 isLast] at leftLast
        rw [Option.mem_def.1 isFirst] at rightFirst
        rw [Option.some.inj leftLast, meet, Option.some.inj rightFirst]
      · rw [Tree.leaves, List.head?_append_of_ne_nil _ left.leaves_ne_nil, leftFirst, sameFirst]
      · rw [Tree.leaves, List.getLast?_append_of_ne_nil _ right.leaves_ne_nil, rightLast, sameLast]

/-- The factor of a node, from the values that meet there. -/
def Tree.factor (merge : α → α → Except ε α) (challenge : α → α → ℕ) (left right : Tree α) : ℕ :=
  match left.merged merge, right.merged merge with
  | .ok leftValue, .ok rightValue => challenge leftValue rightValue
  | _, _ => 0

/-- When merging scales the right side, the whole is the weighted sum of the
leaves. -/
theorem Tree.measure_weights [AddCommMonoid β] (joins : Joins merge good first last)
    {challenge : α → α → ℕ} {measure : α → β}
    (scales : ∀ {left right value}, good left → good right → merge left right = .ok value →
      measure value = measure left + challenge left right • measure right) {tree : Tree α}
    {value : α} (leavesGood : ∀ leaf ∈ tree.leaves, good leaf)
    (done : tree.merged merge = .ok value) :
    measure value =
      (List.zipWith (fun weight leaf => weight • measure leaf)
        (tree.weights (Tree.factor merge challenge)) tree.leaves).sum := by
  induction tree generalizing value with
  | leaf only =>
      obtain rfl := Except.ok.inj done
      simp only [weights, leaves, List.zipWith_cons_cons, one_smul, List.zipWith_nil_left,
        List.sum_singleton]
  | node left right leftHypothesis rightHypothesis =>
      obtain ⟨leftValue, rightValue, leftDone, rightDone, both⟩ := Tree.merged_node.1 done
      have leftLeaves := fun leaf member => leavesGood leaf (List.mem_append_left _ member)
      have rightLeaves := fun leaf member => leavesGood leaf (List.mem_append_right _ member)
      have leftGood := (left.merged_linked joins leftLeaves leftDone).2.1
      have rightGood := (right.merged_linked joins rightLeaves rightDone).2.1
      have factorEq : Tree.factor merge challenge left right = challenge leftValue rightValue := by
        rw [Tree.factor, leftDone, rightDone]
      have scaled : ∀ (weights : List ℕ) (leaves : List α) (factor : ℕ),
          (List.zipWith (fun weight leaf => weight • measure leaf)
            (weights.map (factor * ·)) leaves).sum =
          factor • (List.zipWith (fun weight leaf => weight • measure leaf) weights leaves).sum := by
        intro weights leaves factor
        simp only [List.zipWith_map_left, mul_smul, List.smul_sum, List.map_zipWith]
      rw [scales leftGood rightGood both, leftHypothesis leftLeaves leftDone,
        rightHypothesis rightLeaves rightDone, weights, leaves,
        List.zipWith_append (length_weights _ left), List.sum_append, factorEq, scaled]

/-- Two trees whose leaves form one chain are merged. -/
theorem Tree.merge_ok (joins : Joins merge good first last) {left right : Tree α}
    {leftValue rightValue : α} (leftGood : ∀ leaf ∈ left.leaves, good leaf)
    (rightGood : ∀ leaf ∈ right.leaves, good leaf) (leftDone : left.merged merge = .ok leftValue)
    (rightDone : right.merged merge = .ok rightValue)
    (linked : Linked first last (left.leaves ++ right.leaves)) :
    ∃ value, merge leftValue rightValue = .ok value := by
  obtain ⟨_, leftValueGood, _, leftLast⟩ := left.merged_linked joins leftGood leftDone
  obtain ⟨_, rightValueGood, rightFirst, _⟩ := right.merged_linked joins rightGood rightDone
  obtain ⟨before, isLast, beforeEq⟩ := Option.map_eq_some_iff.1 leftLast
  obtain ⟨after, isFirst, afterEq⟩ := Option.map_eq_some_iff.1 rightFirst
  have meet := (List.isChain_append.1 linked).2.2 before isLast after isFirst
  rw [beforeEq, afterEq] at meet
  exact joins.merge_ok leftValueGood rightValueGood meet

theorem Holds.carry_ok (joins : Joins merge good first last) {level : ℕ}
    {stack : List (Option α)} {leaves : List α} {tree : Tree α} {current : α}
    (holds : Holds merge level stack leaves) (leavesGood : ∀ leaf ∈ leaves, good leaf)
    (treeGood : ∀ leaf ∈ tree.leaves, good leaf) (mergedEq : tree.merged merge = .ok current)
    (linked : Linked first last (leaves ++ tree.leaves)) :
    ∃ result, CarryStack.carry merge stack current = .ok result := by
  induction holds generalizing tree current with
  | nil => exact ⟨_, rfl⟩
  | vacant _ _ => exact ⟨_, rfl⟩
  | @filled _ _ _ existingTree existing _ existingEq _ hypothesis =>
      rw [List.forall_mem_append] at leavesGood
      rw [List.append_assoc] at linked
      obtain ⟨promoted, both⟩ := Tree.merge_ok joins leavesGood.2 treeGood existingEq mergedEq
        (List.isChain_append.1 linked).2.1
      obtain ⟨result, carried⟩ := @hypothesis (.node existingTree tree) promoted leavesGood.1
        (List.forall_mem_append.2 ⟨leavesGood.2, treeGood⟩)
        (Tree.merged_node.2 ⟨_, _, existingEq, mergedEq, both⟩) linked
      refine ⟨none :: result, ?_⟩
      rw [CarryStack.carry, both]
      show (CarryStack.carry merge _ promoted >>= _) = _
      rw [carried]
      rfl

theorem Holds.feed_ok (joins : Joins merge good first last) {make : β → Except ε α}
    {items : List β} {more : List α}
    (made : List.Forall₂ (fun item leaf => make item = .ok leaf) items more)
    {stack : List (Option α)} {leaves : List α} (holds : Holds merge 0 stack leaves)
    (allGood : ∀ leaf ∈ leaves ++ more, good leaf) (linked : Linked first last (leaves ++ more)) :
    ∃ result, CarryStack.feed merge make items stack = .ok result ∧
      Holds merge 0 result (leaves ++ more) := by
  induction made generalizing stack leaves with
  | nil => exact ⟨stack, rfl, (List.append_nil leaves).symm ▸ holds⟩
  | @cons item current items more head _ hypothesis =>
      rw [List.append_cons] at allGood linked
      have goodParts := List.forall_mem_append.1 allGood
      have goodFront := List.forall_mem_append.1 goodParts.1
      obtain ⟨next, carried⟩ := @Holds.carry_ok _ _ _ _ _ _ _ joins _ _ _ (.leaf current) _ holds
        goodFront.1 goodFront.2 rfl (List.isChain_append.1 linked).1
      have put := @Holds.carry _ _ _ _ _ _ (.leaf current) _ _ holds rfl rfl carried
      obtain ⟨result, fed, kept⟩ := hypothesis put allGood linked
      refine ⟨result, ?_, List.append_cons leaves current more ▸ kept⟩
      simp only [CarryStack.feed, List.foldlM_cons, head, except_bind_eq_ok]
      exact ⟨next, ⟨current, rfl, carried⟩, fed⟩

theorem foldlM_ok (joins : Joins merge good first last) {trees : List (Tree α)}
    {values : List α}
    (each : List.Forall₂ (fun tree value => Tree.merged merge tree = .ok value) trees values)
    {tree : Tree α} {start : α} (started : tree.merged merge = .ok start)
    (allGood : ∀ leaf ∈ tree.leaves ++ trees.flatMap Tree.leaves, good leaf)
    (linked : Linked first last (tree.leaves ++ trees.flatMap Tree.leaves)) :
    ∃ value, values.foldlM merge start = .ok value := by
  induction each generalizing tree start with
  | nil => exact ⟨start, rfl⟩
  | @cons other _ trees _ head _ hypothesis =>
      rw [List.flatMap_cons, ← List.append_assoc] at allGood linked
      have goodParts := List.forall_mem_append.1 allGood
      have goodFront := List.forall_mem_append.1 goodParts.1
      obtain ⟨next, both⟩ := Tree.merge_ok joins goodFront.1 goodFront.2 started head
        (List.isChain_append.1 linked).1
      obtain ⟨result, folded⟩ := @hypothesis (.node tree other) next
        (Tree.merged_node.2 ⟨_, _, started, head, both⟩) allGood linked
      refine ⟨result, ?_⟩
      rw [List.foldlM_cons, both]
      exact folded

theorem Holds.drain_ok (joins : Joins merge good first last) {level : ℕ}
    {stack : List (Option α)} {leaves : List α} (vacant : ε) (holds : Holds merge level stack leaves)
    (some : leaves ≠ []) (allGood : ∀ leaf ∈ leaves, good leaf)
    (linked : Linked first last leaves) :
    ∃ value, CarryStack.drain merge vacant stack = .ok value := by
  obtain ⟨trees, values, rfl⟩ := holds.trees
  rw [CarryStack.drain]
  generalize (stack.filterMap id).reverse = remaining at values ⊢
  cases values with
  | nil => exact absurd rfl some
  | cons head tail => exact foldlM_ok joins tail head allGood linked

theorem forall_good {make : β → Except ε α}
    (makesGood : ∀ {item leaf}, make item = .ok leaf → good leaf) {items : List β}
    {leaves : List α} (made : List.Forall₂ (fun item leaf => make item = .ok leaf) items leaves) :
    ∀ leaf ∈ leaves, good leaf := by
  induction made with
  | nil => exact List.forall_mem_nil _
  | cons head _ hypothesis => exact List.forall_mem_cons.2 ⟨makesGood head, hypothesis⟩

/-- A sequence of items is folded exactly when all values can be made and they
form a chain. -/
theorem fold_ok_iff (joins : Joins merge good first last) {make : β → Except ε α}
    (makesGood : ∀ {item leaf}, make item = .ok leaf → good leaf) (vacant : ε) {items : List β}
    (some : items ≠ []) :
    (∃ value, (feed merge make items [] >>= drain merge vacant) = .ok value) ↔
      ∃ leaves, List.Forall₂ (fun item leaf => make item = .ok leaf) items leaves ∧
        Linked first last leaves := by
  constructor
  · rintro ⟨value, done⟩
    obtain ⟨stack, fed, drained⟩ := except_bind_eq_ok.1 done
    obtain ⟨leaves, made, holds⟩ := Holds.nil.feed fed
    obtain ⟨tree, rfl, mergedEq⟩ := holds.drain drained
    exact ⟨tree.leaves, made, (tree.merged_linked joins (forall_good makesGood made) mergedEq).1⟩
  · rintro ⟨leaves, made, linked⟩
    obtain ⟨stack, fed, holds⟩ := Holds.feed_ok joins made .nil (forall_good makesGood made) linked
    have leavesSome : leaves ≠ [] := by
      rintro rfl
      cases made
      exact some rfl
    obtain ⟨value, drained⟩ := holds.drain_ok joins vacant leavesSome (forall_good makesGood made) linked
    exact ⟨value, except_bind_eq_ok.2 ⟨stack, fed, drained⟩⟩

end Chains

end MetaVm.CarryStack
