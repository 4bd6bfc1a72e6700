/-
**Proofs of a tree lead to its root.**

The step beside a node of a level carries the node to its ancestor on the level above: to the hash
of the pair, or to the node itself where it was promoted.  Climbing through all levels below the
root therefore ends at the root, from every leaf.

Main results:

* `HashCalendar.Merkle.foldl_stepAt` — one level up;
* `HashCalendar.Merkle.foldl_climb` — all levels up to the root;
* `HashCalendar.Merkle.Tree.evaluate_proof` — **the proof of a leaf leads from it to the root**;
* `HashCalendar.Merkle.Tree.proofs_eq_map` — every leaf has its proof, in order;
* `HashCalendar.Merkle.Tree.levels_eq` — a tree has its root alone on the highest level;
* `HashCalendar.every_leaf_is_proved` — **there is a tree over every list but the empty one, and it
  has a proof that leads to its root for each of its leaves and no other index**.
-/

import HashCalendar.Merkle.Tree
import Mathlib.Data.List.Basic

set_option relaxedAutoImplicit false
set_option autoImplicit false

namespace HashCalendar

/-- Steps that carry a node. -/
def Step.IsNode (step : Step) : Prop := ∃ d, step.value = .node d

/-- The steps of a path, taken from a digest. -/
def Path.carry (f : HashFunction) (steps : List Step) (d : Digest) : Digest :=
  steps.foldl (fun d s => s.apply f d.bytes) d

@[simp] theorem Path.carry_nil (f : HashFunction) (d : Digest) : Path.carry f [] d = d := rfl

@[simp] theorem Path.carry_append (f : HashFunction) (steps more : List Step) (d : Digest) :
    Path.carry f (steps ++ more) d = Path.carry f more (Path.carry f steps d) :=
  List.foldl_append

/-- From a digest every path can be evaluated, also one without steps. -/
theorem Path.evaluate_bytes (path : Path) (d : Digest) :
    path.evaluate d.bytes = .ok (Path.carry path.function path.steps d) := by
  obtain ⟨f, steps⟩ := path
  cases steps with
  | nil => simp [Path.evaluate]
  | cons s steps => rfl

namespace Merkle

/-! ### One level -/

@[simp] theorem apply_right_node (f : HashFunction) (d e : Digest) :
    (Step.right (.node e)).apply f d.bytes = f.pair d e := rfl

@[simp] theorem apply_left_node (f : HashFunction) (d e : Digest) :
    (Step.left (.node e)).apply f d.bytes = f.pair e d := rfl

/-- The level above, node by node: a pair is hashed, and a last single node is promoted. -/
theorem getElem?_pairUp (f : HashFunction) (nodes : List Digest) (k : Nat) :
    (pairUp f nodes)[k]? =
      nodes[2 * k]?.map fun d => nodes[2 * k + 1]?.elim d fun e => f.pair d e := by
  fun_induction pairUp f nodes generalizing k with
  | case1 a b rest ih =>
      cases k with
      | zero => rfl
      | succ k => simpa [Nat.mul_add] using ih k
  | case2 rest h =>
      rcases rest with _ | ⟨a, _ | ⟨b, r⟩⟩
      · rfl
      · cases k with
        | zero => rfl
        | succ k => simp [Nat.mul_add]
      · exact absurd rfl (h a b r)

/-- The step beside a node carries it to its ancestor on the level above. -/
theorem foldl_stepAt (f : HashFunction) (nodes : List Digest) {index : Nat} {d : Digest}
    (h : nodes[index]? = some d) :
    (pairUp f nodes)[index / 2]? = some (Path.carry f (Tree.stepAt nodes.toArray index) d) := by
  rw [getElem?_pairUp]
  by_cases heven : index % 2 = 0
  -- The node is the left one of its pair, or a last one that is promoted.
  · have hleft : 2 * (index / 2) = index := by omega
    rw [hleft, h]
    simp only [Tree.stepAt, heven, if_true, List.getElem?_toArray]
    cases nodes[index + 1]? with
    | none => rfl
    | some e => rfl
  · have hright : 2 * (index / 2) + 1 = index := by omega
    have hleft : 2 * (index / 2) = index - 1 := by omega
    have hlt : index < nodes.length := (List.getElem?_eq_some_iff.1 h).1
    rw [hright, h, hleft]
    simp only [Tree.stepAt, heven, if_false, List.getElem?_toArray]
    rw [List.getElem?_eq_getElem (show index - 1 < nodes.length by omega)]
    rfl

/-- The step beside a node carries a node. -/
theorem isNode_of_mem_stepAt {level : Array Digest} {index : Nat} {step : Step}
    (h : step ∈ Tree.stepAt level index) : step.IsNode := by
  rw [Tree.stepAt] at h
  split at h
  · obtain ⟨d, _, rfl⟩ := Option.map_eq_some_iff.1 (Option.mem_toList.1 h)
    exact ⟨d, rfl⟩
  · obtain ⟨d, _, rfl⟩ := Option.map_eq_some_iff.1 (Option.mem_toList.1 h)
    exact ⟨d, rfl⟩

/-! ### All levels -/

/-- The steps through all levels carry nodes only. -/
theorem isNode_of_mem_climb : ∀ {levels : List (Array Digest)} {index : Nat} {step : Step},
    step ∈ Tree.climb levels index → step.IsNode
  | [], _, _, h => by cases h
  | level :: above, index, step, h => by
      rcases List.mem_append.1 h with h | h
      · exact isNode_of_mem_stepAt h
      · exact isNode_of_mem_climb h

theorem levels_of_length_le (f : HashFunction) {nodes : List Digest} (h : nodes.length ≤ 1) :
    levels f nodes = [nodes] := by
  rw [levels, dif_pos h]

theorem levels_of_not_le (f : HashFunction) {nodes : List Digest} (h : ¬ nodes.length ≤ 1) :
    levels f nodes = nodes :: levels f (pairUp f nodes) := by
  rw [levels, dif_neg h]

theorem levels_ne_nil (f : HashFunction) (nodes : List Digest) : levels f nodes ≠ [] := by
  rw [levels]
  split <;> simp

theorem rootOf_of_length_le (f : HashFunction) {nodes : List Digest} (h : nodes.length ≤ 1) :
    rootOf f nodes = nodes.head? := by
  rw [rootOf, levels_of_length_le f h]
  rfl

/-- The root of a level is that of the level above. -/
theorem rootOf_pairUp (f : HashFunction) {nodes : List Digest} (h : ¬ nodes.length ≤ 1) :
    rootOf f nodes = rootOf f (pairUp f nodes) := by
  rw [rootOf, rootOf, levels_of_not_le f h, List.getLast?_cons_of_ne_nil (levels_ne_nil f _)]

/-- Climbing from a node of a level through all levels below the root ends at the root. -/
theorem foldl_climb (f : HashFunction) (nodes : List Digest) {index : Nat} {d : Digest}
    (h : nodes[index]? = some d) :
    rootOf f nodes =
      some (Path.carry f (Tree.climb ((levels f nodes).dropLast.map List.toArray) index) d) := by
  -- The induction is on the number of levels; the index is halved from one to the next.
  fun_induction levels f nodes generalizing index d with
  | case1 nodes hle =>
      have hlt : index < nodes.length := (List.getElem?_eq_some_iff.1 h).1
      obtain rfl : index = 0 := by omega
      rw [rootOf_of_length_le f hle, List.head?_eq_getElem?, h]
      rfl
  | case2 nodes hle _ ih =>
      rw [rootOf_pairUp f hle, ih (foldl_stepAt f nodes h),
        List.dropLast_cons_of_ne_nil (levels_ne_nil f _)]
      simp [Tree.climb]

/-- No level is empty. -/
theorem ne_nil_of_mem_levels {f : HashFunction} {nodes level : List Digest} (h : nodes ≠ [])
    (hl : level ∈ levels f nodes) : level ≠ [] := by
  fun_induction levels f nodes with
  | case1 nodes hle =>
      rw [List.mem_singleton.1 hl]
      exact h
  | case2 nodes hle _ ih =>
      rcases List.mem_cons.1 hl with rfl | hl
      · exact h
      · refine ih (List.ne_nil_of_length_pos ?_) hl
        rw [length_pairUp]
        omega

/-- The highest level has one node at most. -/
theorem length_le_of_getLast?_levels {f : HashFunction} {nodes level : List Digest}
    (hl : (levels f nodes).getLast? = some level) : level.length ≤ 1 := by
  fun_induction levels f nodes with
  | case1 nodes hle =>
      obtain rfl : nodes = level := Option.some.inj hl
      exact hle
  | case2 nodes hle _ ih =>
      rw [List.getLast?_cons_of_ne_nil (levels_ne_nil f _)] at hl
      exact ih hl

theorem head?_levels (f : HashFunction) (nodes : List Digest) :
    (levels f nodes).head? = some nodes := by
  rw [levels]
  split
  · rfl
  · rfl

/-! ### Trees -/

namespace Tree

/-- The levels of a tree are those below the root, and that of the root. -/
theorem levels_eq (tree : Tree) :
    levels tree.function tree.leaves = tree.below.map Array.toList ++ [[tree.root]] := by
  have hroot := tree.root_eq
  rw [rootOf] at hroot
  cases hlast : (levels tree.function tree.leaves).getLast? with
  | none => exact absurd (List.getLast?_eq_none_iff.1 hlast) (levels_ne_nil _ _)
  | some level =>
      have hone := length_le_of_getLast?_levels hlast
      rw [hlast] at hroot
      rcases level with _ | ⟨d, _ | ⟨e, rest⟩⟩
      · cases hroot
      · obtain rfl : tree.root = d := Option.some.inj hroot
        conv_lhs => rw [← List.dropLast_append_getLast? _ hlast]
        simp [tree.below_eq, Function.comp_def]
      · simp at hone

/-- The proof of a leaf leads from it to the root. -/
theorem evaluate_proof (tree : Tree) {index : Nat} {d : Digest} {path : Path}
    (hleaf : tree.leaf index = some d) (hproof : tree.proof index = some path) :
    path.evaluate d.bytes = .ok tree.root := by
  have hroot := foldl_climb tree.function tree.leaves hleaf
  rw [← tree.root_eq, ← tree.below_eq] at hroot
  rw [proof] at hproof
  split at hproof
  · cases hproof
    rw [Path.evaluate_bytes, ← Option.some.inj hroot]
  · cases hproof

/-- The path of the leaf at an index. -/
def pathAt (tree : Tree) (index : Nat) : Path := ⟨tree.function, climb tree.below index⟩

theorem proof_of_lt (tree : Tree) {index : Nat} (h : index < tree.leafCount) :
    tree.proof index = some (tree.pathAt index) := if_pos h

/-- There is a proof for the index of a leaf and for no other. -/
theorem proof_isSome_iff (tree : Tree) (index : Nat) :
    (tree.proof index).isSome = true ↔ index < tree.leafCount := by
  rw [proof]
  split
  · simp [*]
  · simp [*]

/-- Every leaf has its proof, in order. -/
theorem proofs_eq_map (tree : Tree) :
    tree.proofs = (List.range tree.leafCount).map tree.pathAt :=
  List.filterMap_eq_map_iff_forall_eq_some.2 fun _ h => tree.proof_of_lt (List.mem_range.1 h)

@[simp] theorem length_proofs (tree : Tree) : tree.proofs.length = tree.leafCount := by
  simp [proofs_eq_map]

/-- The path of a leaf leads from it to the root. -/
theorem evaluate_pathAt (tree : Tree) {index : Nat} {d : Digest}
    (h : tree.leaves[index]? = some d) :
    (tree.pathAt index).evaluate d.bytes = .ok tree.root :=
  tree.evaluate_proof h (tree.proof_of_lt (List.getElem?_eq_some_iff.1 h).1)

/-- There is a tree over every list of at least one leaf, and it has these leaves. -/
theorem build_eq_ok (f : HashFunction) {leaves : List Digest} (h : leaves ≠ []) :
    ∃ tree, build f leaves = .ok tree ∧ tree.function = f ∧ tree.leaves = leaves := by
  rw [build, dif_neg h]
  exact ⟨_, rfl, rfl, rfl⟩

/-- A tree that was built has the function and the leaves it was built with. -/
theorem of_build_eq_ok {f : HashFunction} {leaves : List Digest} {tree : Tree}
    (h : build f leaves = .ok tree) : tree.function = f ∧ tree.leaves = leaves := by
  rw [build] at h
  split at h
  · cases h
  · cases h
    exact ⟨rfl, rfl⟩

theorem build_eq_error_iff (f : HashFunction) (leaves : List Digest) :
    build f leaves = .error .noLeaves ↔ leaves = [] := by
  rw [build]
  split
  · simp [*]
  · simp [*]

end Tree

end Merkle

open Merkle in
/-- **Every leaf is proved.**  Building a tree fails over the empty list and no other.  Otherwise
there is a tree such that

* none of its levels is empty, the leaves are the lowest of them, and the root is alone on the
  highest;
* it has the leaves of the list, by their indices;
* it has a proof for each index of a leaf and for no other, and the proofs together are these, in
  the order of the leaves;
* the proof of each leaf leads from the leaf to the root. -/
theorem every_leaf_is_proved (f : HashFunction) (leaves : List Digest) :
    (Tree.build f leaves = .error .noLeaves ↔ leaves = []) ∧
    (leaves ≠ [] → ∃ tree, Tree.build f leaves = .ok tree ∧
      (levels f leaves = tree.below.map Array.toList ++ [[tree.root]] ∧
        (levels f leaves).head? = some leaves ∧ ∀ level ∈ levels f leaves, level ≠ []) ∧
      (tree.leafCount = leaves.length ∧ ∀ index, tree.leaf index = leaves[index]?) ∧
      (∀ index, (tree.proof index).isSome = true ↔ index < leaves.length) ∧
      tree.proofs.length = leaves.length ∧
      ∀ index d, leaves[index]? = some d → ∃ path, tree.proof index = some path ∧
        tree.proofs[index]? = some path ∧ path.evaluate d.bytes = .ok tree.root) := by
  refine ⟨Tree.build_eq_error_iff f leaves, fun h => ?_⟩
  obtain ⟨tree, hbuild, rfl, rfl⟩ := Tree.build_eq_ok f h
  refine ⟨tree, hbuild, ⟨tree.levels_eq, head?_levels _ _, fun level => ne_nil_of_mem_levels h⟩,
    ⟨rfl, fun index => rfl⟩, tree.proof_isSome_iff, tree.length_proofs, ?_⟩
  intro index d hd
  have hindex : index < tree.leafCount := (List.getElem?_eq_some_iff.1 hd).1
  refine ⟨tree.pathAt index, tree.proof_of_lt hindex, ?_, tree.evaluate_pathAt hd⟩
  simp [Tree.proofs_eq_map, hindex]

/-- Three leaves, the last of which is promoted. -/
def threeLeaves : List Digest :=
  [0, 1, 2].map fun b => ⟨List.replicate 32 b, List.length_replicate⟩

/-- The promoted leaf has its proof, which is the last of three. -/
theorem promoted_leaf_is_proved :
    threeLeaves ≠ [] ∧ ∃ tree, Merkle.Tree.build .sha256 threeLeaves = .ok tree ∧
      tree.proofs.length = 3 ∧ ∃ d path, threeLeaves[2]? = some d ∧ tree.proof 2 = some path ∧
        tree.proofs[2]? = some path ∧ path.evaluate d.bytes = .ok tree.root := by
  have hne : threeLeaves ≠ [] := by simp [threeLeaves]
  obtain ⟨tree, hbuild, -, -, -, hlength, hproofs⟩ :=
    (every_leaf_is_proved .sha256 threeLeaves).2 hne
  exact ⟨hne, tree, hbuild, hlength, _, (hproofs 2 _ rfl).imp fun path hpath => ⟨rfl, hpath⟩⟩

end HashCalendar
