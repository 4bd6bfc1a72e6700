/-
**The tree from the top.**

A tree over two or more leaves may also be split from the top: the left half takes as many leaves as
the largest power of two below their number, the right half takes the rest, and the hash of the tree
is that of the hashes of its halves.  The audit path of a leaf is the one in its half, followed by
the hash of the other half.

Building level by level comes to the same.  A half of an even number of leaves is paired up without
regard to the other, and the level above is split at half the place.  So a level has the hash of the
level above, and the audit path of a leaf starts with the step beside it.

Main definitions:

* `HashCalendar.Merkle.splitPoint` — the largest power of two below a number;
* `HashCalendar.Merkle.treeHash`, `HashCalendar.Merkle.auditPath` — the hash of the tree that is
  split from the top, and the path of a leaf in it.

Main results:

* `HashCalendar.Merkle.isGreatest_splitPoint` — where a tree is split;
* `HashCalendar.Merkle.treeHash_pairUp`, `HashCalendar.Merkle.auditPath_eq_append` — one level up;
* `HashCalendar.Merkle.length_auditPath_le` — how long audit paths are;
* `HashCalendar.levels_build_the_split_tree` — **roots and proofs are those of the tree that is
  split from the top**.
-/

import HashCalendar.Proofs.Merkle.Completeness
import Mathlib.Algebra.Group.Nat.Defs
import Mathlib.Data.Nat.Log
import Mathlib.Data.Option.NAry
import Mathlib.Order.Bounds.Basic

set_option relaxedAutoImplicit false
set_option autoImplicit false

namespace HashCalendar

namespace Merkle

/-! ### Where a tree is split -/

/-- The largest power of two below a number of two or more. -/
def splitPoint (n : Nat) : Nat := 2 ^ (Nat.clog 2 n - 1)

theorem splitPoint_pos (n : Nat) : 0 < splitPoint n := Nat.two_pow_pos _

theorem splitPoint_lt {n : Nat} (h : 2 ≤ n) : splitPoint n < n :=
  Nat.pow_pred_clog_lt_self Nat.one_lt_two h

/-- The split point is the largest power of two below the number. -/
theorem isGreatest_splitPoint {n : Nat} (h : 2 ≤ n) :
    IsGreatest {k | k < n ∧ ∃ e, k = 2 ^ e} (splitPoint n) := by
  refine ⟨⟨splitPoint_lt h, _, rfl⟩, ?_⟩
  rintro _ ⟨hlt, e, rfl⟩
  have he : e < Nat.clog 2 n := (Nat.lt_clog_iff_pow_lt Nat.one_lt_two).2 hlt
  exact Nat.pow_le_pow_right Nat.two_pos (Nat.le_sub_one_of_lt he)

theorem two_mul_splitPoint {n : Nat} (h : 2 ≤ n) : 2 * splitPoint n = 2 ^ Nat.clog 2 n := by
  have hclog : Nat.clog 2 n - 1 + 1 = Nat.clog 2 n :=
    Nat.sub_add_cancel (Nat.clog_pos Nat.one_lt_two h)
  rw [splitPoint, ← Nat.pow_succ', Nat.succ_eq_add_one, hclog]

/-- Two leaves are split between them. -/
theorem splitPoint_two : splitPoint 2 = 1 := by
  rw [splitPoint, Nat.clog_eq_one (Nat.le_refl 2) (Nat.le_refl 2), Nat.sub_self, pow_zero]

/-- With more than two leaves, the level above is split at half the place. -/
theorem splitPoint_eq_two_mul {n : Nat} (h : 2 < n) :
    splitPoint n = 2 * splitPoint ((n + 1) / 2) := by
  have hclog : Nat.clog 2 n = Nat.clog 2 ((n + 1) / 2) + 1 :=
    Nat.clog_of_two_le Nat.one_lt_two (Nat.le_of_lt h)
  rw [two_mul_splitPoint (by omega), splitPoint, hclog, Nat.add_sub_cancel]

/-- A half can be halved less often than the whole. -/
theorem clog_lt_of_le_splitPoint {m n : Nat} (h : 2 ≤ n) (hm : m ≤ splitPoint n) :
    Nat.clog 2 m < Nat.clog 2 n := by
  have hclog : Nat.clog 2 m ≤ Nat.clog 2 n - 1 := Nat.clog_le_of_le_pow hm
  have hpos : 0 < Nat.clog 2 n := Nat.clog_pos Nat.one_lt_two h
  omega

/-- The right half has no more leaves than the left one. -/
theorem length_drop_splitPoint_le {leaves : List Digest} (h : 2 ≤ leaves.length) :
    (leaves.drop (splitPoint leaves.length)).length ≤ splitPoint leaves.length := by
  have hall : leaves.length ≤ 2 * splitPoint leaves.length := by
    rw [two_mul_splitPoint h]
    exact Nat.le_pow_clog Nat.one_lt_two _
  rw [List.length_drop]
  omega

/-! ### The tree that is split from the top -/

/-- The hash of the tree over some leaves, split from the top. -/
def treeHash (f : HashFunction) (leaves : List Digest) : Option Digest :=
  if leaves.length ≤ 1 then leaves.head?
  else
    let k := splitPoint leaves.length
    Option.map₂ f.pair (treeHash f (leaves.take k)) (treeHash f (leaves.drop k))
  termination_by leaves.length
  decreasing_by
    · have := splitPoint_lt (n := leaves.length) (by omega)
      rw [List.length_take]
      omega
    · have := splitPoint_pos leaves.length
      rw [List.length_drop]
      omega

/-- The path of the leaf at an index in the tree over some leaves, split from the top: the path in
its half, and then the hash of the other half. -/
def auditPath (f : HashFunction) (leaves : List Digest) (index : Nat) : List Step :=
  if leaves.length ≤ 1 then []
  else
    let k := splitPoint leaves.length
    if index < k then
      auditPath f (leaves.take k) index ++
        ((treeHash f (leaves.drop k)).map fun d => Step.right (.node d)).toList
    else
      auditPath f (leaves.drop k) (index - k) ++
        ((treeHash f (leaves.take k)).map fun d => Step.left (.node d)).toList
  termination_by leaves.length
  decreasing_by
    · have := splitPoint_lt (n := leaves.length) (by omega)
      rw [List.length_take]
      omega
    · have := splitPoint_pos leaves.length
      rw [List.length_drop]
      omega

section Unfolding

variable {f : HashFunction} {leaves : List Digest} {index k : Nat}

theorem treeHash_of_length_le (h : leaves.length ≤ 1) : treeHash f leaves = leaves.head? := by
  rw [treeHash, if_pos h]

theorem treeHash_of_lt (h : 1 < leaves.length) (hk : splitPoint leaves.length = k) :
    treeHash f leaves =
      Option.map₂ f.pair (treeHash f (leaves.take k)) (treeHash f (leaves.drop k)) := by
  rw [treeHash, if_neg (Nat.not_le_of_lt h), hk]

theorem auditPath_of_length_le (h : leaves.length ≤ 1) : auditPath f leaves index = [] := by
  rw [auditPath, if_pos h]

theorem auditPath_of_left (h : 1 < leaves.length) (hk : splitPoint leaves.length = k)
    (hi : index < k) :
    auditPath f leaves index = auditPath f (leaves.take k) index ++
      ((treeHash f (leaves.drop k)).map fun d => Step.right (.node d)).toList := by
  rw [auditPath, if_neg (Nat.not_le_of_lt h), hk]
  exact if_pos hi

theorem auditPath_of_right (h : 1 < leaves.length) (hk : splitPoint leaves.length = k)
    (hi : ¬ index < k) :
    auditPath f leaves index = auditPath f (leaves.drop k) (index - k) ++
      ((treeHash f (leaves.take k)).map fun d => Step.left (.node d)).toList := by
  rw [auditPath, if_neg (Nat.not_le_of_lt h), hk]
  exact if_neg hi

end Unfolding

/-! ### Pairing up the halves -/

section Halves

variable (f : HashFunction) (nodes : List Digest)

theorem pairUp_of_length_le {nodes : List Digest} (h : nodes.length ≤ 1) :
    pairUp f nodes = nodes := by
  rcases nodes with _ | ⟨a, _ | ⟨b, rest⟩⟩
  · rfl
  · rfl
  · simp at h

/-- An even number of nodes is paired up without regard to those behind them. -/
theorem pairUp_take (j : Nat) : pairUp f (nodes.take (2 * j)) = (pairUp f nodes).take j := by
  induction j generalizing nodes with
  | zero => rfl
  | succ j ih =>
      rcases nodes with _ | ⟨a, _ | ⟨b, rest⟩⟩
      · rfl
      · simp [pairUp, Nat.mul_succ]
      · simp [pairUp, Nat.mul_succ, ih]

/-- Nodes are paired up without regard to an even number of nodes before them. -/
theorem pairUp_drop (j : Nat) : pairUp f (nodes.drop (2 * j)) = (pairUp f nodes).drop j := by
  induction j generalizing nodes with
  | zero => rfl
  | succ j ih =>
      rcases nodes with _ | ⟨a, _ | ⟨b, rest⟩⟩
      · rfl
      · simp [pairUp, Nat.mul_succ]
      · simp [pairUp, Nat.mul_succ, ih]

end Halves

/-- The step beside a node is found among an even number of nodes. -/
theorem stepAt_take {nodes : List Digest} {j index : Nat} (h : index < 2 * j) :
    Tree.stepAt (nodes.take (2 * j)).toArray index = Tree.stepAt nodes.toArray index := by
  by_cases heven : index % 2 = 0
  · have hright : index + 1 < 2 * j := by omega
    simp [Tree.stepAt, heven, List.getElem?_take_of_lt hright]
  · have hleft : index - 1 < 2 * j := by omega
    simp [Tree.stepAt, heven, List.getElem?_take_of_lt hleft]

/-- The step beside a node is found without an even number of nodes before it. -/
theorem stepAt_drop {nodes : List Digest} {j index : Nat} (h : 2 * j ≤ index) :
    Tree.stepAt (nodes.drop (2 * j)).toArray (index - 2 * j) =
      Tree.stepAt nodes.toArray index := by
  have hparity : (index - 2 * j) % 2 = index % 2 := by omega
  by_cases heven : index % 2 = 0
  · have hright : 2 * j + (index - 2 * j + 1) = index + 1 := by omega
    simp [Tree.stepAt, hparity, heven, hright]
  · have hleft : 2 * j + (index - 2 * j - 1) = index - 1 := by omega
    simp [Tree.stepAt, hparity, heven, hleft]

/-! ### One level up -/

section LevelUp

variable (f : HashFunction) {leaves : List Digest}

/-- Unless there are two leaves only, the level above is split as well, and this at half the
place. -/
theorem pair_or_exists_splitPoint (h : ¬ leaves.length ≤ 1) :
    (∃ a b, leaves = [a, b]) ∨
      ∃ j, splitPoint leaves.length = 2 * j ∧ 1 < (pairUp f leaves).length ∧
        splitPoint (pairUp f leaves).length = j := by
  by_cases htwo : leaves.length = 2
  · exact Or.inl (List.length_eq_two.1 htwo)
  · refine Or.inr ⟨_, splitPoint_eq_two_mul (by omega), ?_⟩
    rw [length_pairUp]
    exact ⟨by omega, rfl⟩

/-- A level has the hash of the level above. -/
theorem treeHash_pairUp (leaves : List Digest) :
    treeHash f (pairUp f leaves) = treeHash f leaves := by
  -- The induction is on the splits of the lower level; those above are at half the place.
  fun_induction treeHash f leaves with
  | case1 leaves h => rw [pairUp_of_length_le f h, treeHash_of_length_le h]
  | case2 leaves h k ihl ihr =>
      rcases pair_or_exists_splitPoint f h with ⟨a, b, rfl⟩ | ⟨j, hk, habove, hj⟩
      · rw [show k = 1 from splitPoint_two]
        simp [pairUp, treeHash_of_length_le]
      · rw [treeHash_of_lt habove hj, ← pairUp_take, ← pairUp_drop, ← hk, ihl, ihr]

/-- The audit path of a leaf starts with the step beside it, and goes on as that of the node above
it. -/
theorem auditPath_eq_append {index : Nat} (hi : index < leaves.length) :
    auditPath f leaves index =
      Tree.stepAt leaves.toArray index ++ auditPath f (pairUp f leaves) (index / 2) := by
  fun_induction auditPath f leaves index with
  | case1 leaves index h =>
      obtain rfl : index = 0 := by omega
      have hnone : leaves[1]? = none := List.getElem?_eq_none h
      rw [pairUp_of_length_le f h, auditPath_of_length_le h]
      simp [Tree.stepAt, hnone]
  | case2 leaves index h k hlt ih =>
      have hhalf : index < (leaves.take k).length := by
        rw [List.length_take]
        omega
      rw [ih hhalf]
      rcases pair_or_exists_splitPoint f h with ⟨a, b, rfl⟩ | ⟨j, hk, habove, hj⟩
      · have hk : k = 1 := splitPoint_two
        obtain rfl : index = 0 := by omega
        rw [hk]
        simp [pairUp, Tree.stepAt, auditPath_of_length_le, treeHash_of_length_le]
      · replace hk : k = 2 * j := hk
        rw [hk, stepAt_take (by omega), auditPath_of_left habove hj (by omega), ← pairUp_take,
          ← pairUp_drop, treeHash_pairUp, List.append_assoc]
  | case3 leaves index h k hlt ih =>
      have hhalf : index - k < (leaves.drop k).length := by
        rw [List.length_drop]
        omega
      rw [ih hhalf]
      rcases pair_or_exists_splitPoint f h with ⟨a, b, rfl⟩ | ⟨j, hk, habove, hj⟩
      · have hk : k = 1 := splitPoint_two
        obtain rfl : index = 1 := by simp only [List.length_cons, List.length_nil] at hi; omega
        rw [hk]
        simp [pairUp, Tree.stepAt, auditPath_of_length_le, treeHash_of_length_le]
      · replace hk : k = 2 * j := hk
        have hindex : (index - 2 * j) / 2 = index / 2 - j := by omega
        rw [hk, stepAt_drop (by omega), auditPath_of_right habove hj (by omega), ← pairUp_drop,
          ← pairUp_take, treeHash_pairUp, hindex, List.append_assoc]

end LevelUp

/-! ### All levels -/

/-- The root of the levels is the hash of the tree that is split from the top. -/
theorem rootOf_eq_treeHash (f : HashFunction) (leaves : List Digest) :
    rootOf f leaves = treeHash f leaves := by
  unfold rootOf
  fun_induction levels f leaves with
  | case1 leaves h => rw [treeHash_of_length_le h]; rfl
  | case2 leaves h _ ih =>
      rw [List.getLast?_cons_of_ne_nil (levels_ne_nil f _), ih, treeHash_pairUp]

/-- The steps through all levels are the audit path. -/
theorem climb_eq_auditPath (f : HashFunction) {leaves : List Digest} {index : Nat}
    (h : index < leaves.length) :
    Tree.climb ((levels f leaves).dropLast.map List.toArray) index = auditPath f leaves index := by
  fun_induction levels f leaves generalizing index with
  | case1 leaves hle => rw [auditPath_of_length_le hle]; rfl
  | case2 leaves hle _ ih =>
      have habove : index / 2 < (pairUp f leaves).length := by
        rw [length_pairUp]
        omega
      rw [auditPath_eq_append f h, ← ih habove,
        List.dropLast_cons_of_ne_nil (levels_ne_nil f _)]
      rfl

/-- An audit path has at most as many steps as the number of leaves can be halved, rounding up. -/
theorem length_auditPath_le (f : HashFunction) (leaves : List Digest) (index : Nat) :
    (auditPath f leaves index).length ≤ Nat.clog 2 leaves.length := by
  -- Either half has at most as many leaves as the split point, one halving less than all of them.
  fun_induction auditPath f leaves index with
  | case1 leaves index h => exact Nat.zero_le _
  | case2 leaves index h k hlt ih =>
      have hhalf := clog_lt_of_le_splitPoint (Nat.lt_of_not_le h) (List.length_take_le k leaves)
      have hlast : ((treeHash f (leaves.drop k)).map fun d => Step.right (.node d)).toList.length
          ≤ 1 := Option.length_toList_le
      rw [List.length_append]
      omega
  | case3 leaves index h k hlt ih =>
      have hright : (leaves.drop k).length ≤ k := length_drop_splitPoint_le (Nat.lt_of_not_le h)
      have hhalf := clog_lt_of_le_splitPoint (Nat.lt_of_not_le h) hright
      have hlast : ((treeHash f (leaves.take k)).map fun d => Step.left (.node d)).toList.length
          ≤ 1 := Option.length_toList_le
      rw [List.length_append]
      omega

end Merkle

open Merkle in
/-- **Levels build the tree that is split from the top.**  Over every list of at least one leaf
there is a tree whose root is the hash of the tree that is split from the top, at the largest power
of two below the number of leaves, and so on in each half.  The proof of each leaf is its audit path
in that tree, and it has no more steps than the logarithm of the number of leaves, rounded up. -/
theorem levels_build_the_split_tree (f : HashFunction) {leaves : List Digest} (h : leaves ≠ []) :
    ∃ tree, Tree.build f leaves = .ok tree ∧ treeHash f leaves = some tree.root ∧
      ∀ index < leaves.length, tree.proof index = some ⟨f, auditPath f leaves index⟩ ∧
        (auditPath f leaves index).length ≤ Nat.clog 2 leaves.length := by
  obtain ⟨tree, hbuild, rfl, rfl⟩ := Tree.build_eq_ok f h
  refine ⟨tree, hbuild, ?_, ?_⟩
  · rw [← rootOf_eq_treeHash, tree.root_eq]
  · intro index hindex
    refine ⟨?_, length_auditPath_le _ _ _⟩
    rw [tree.proof_of_lt hindex, Tree.pathAt, tree.below_eq, climb_eq_auditPath _ hindex]

open Merkle in
/-- Three leaves are split into two and one. -/
theorem three_leaves_are_two_and_one :
    threeLeaves ≠ [] ∧ ∃ a b c tree, threeLeaves = [a, b, c] ∧
      Tree.build .sha256 threeLeaves = .ok tree ∧
      tree.root = HashFunction.sha256.pair (HashFunction.sha256.pair a b) c ∧
      tree.proof 2 = some ⟨.sha256, [.left (.node (HashFunction.sha256.pair a b))]⟩ ∧
      (auditPath .sha256 threeLeaves 2).length ≤ Nat.clog 2 3 := by
  have hne : threeLeaves ≠ [] := by simp [threeLeaves]
  obtain ⟨tree, hbuild, hroot, hproofs⟩ := levels_build_the_split_tree .sha256 hne
  obtain ⟨hproof, hlength⟩ := hproofs 2 (by decide)
  have hpoint : splitPoint threeLeaves.length = 2 := by
    rw [show threeLeaves.length = 3 from rfl, splitPoint_eq_two_mul (by decide), splitPoint_two]
  have hleft : treeHash .sha256 (threeLeaves.take 2) =
      some (HashFunction.sha256.pair threeLeaves[0] threeLeaves[1]) := by
    have hpair : splitPoint (threeLeaves.take 2).length = 1 := splitPoint_two
    rw [treeHash_of_lt (by decide) hpair, treeHash_of_length_le (by decide),
      treeHash_of_length_le (by decide)]
    rfl
  have hright : treeHash .sha256 (threeLeaves.drop 2) = some threeLeaves[2] :=
    treeHash_of_length_le (by decide)
  refine ⟨hne, threeLeaves[0], threeLeaves[1], threeLeaves[2], tree, rfl, hbuild, ?_, ?_, hlength⟩
  · rw [treeHash_of_lt (by decide) hpoint, hleft, hright] at hroot
    exact (Option.some.inj hroot).symm
  · rw [hproof, auditPath_of_right (by decide) hpoint (by decide), hleft,
      auditPath_of_length_le (by decide)]
    rfl

end HashCalendar
